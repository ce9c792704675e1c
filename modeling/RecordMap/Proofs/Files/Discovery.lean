import RecordMap.Files.Discovery
import RecordMap.Proofs.Files.Tree

/-! The listing of a directory is exact: it holds the path of every file below that may be entered and
kept, each once, in the order of the paths. -/

namespace RecordMap

/-- The first text comes before the second by code point, and they differ. -/
def Text.Before (s t : Text) : Prop := s.precedes t = true ∧ s ≠ t

theorem Text.Before.asymm {s t : Text} (h : s.Before t) : ¬ t.Before s :=
  fun h' => h.2 (precedes_antisymm h.1 h'.1)

theorem Text.before_or_before {s t : Text} (h : s ≠ t) : s.Before t ∨ t.Before s := by
  have htotal := precedes_total s t
  rw [Bool.or_eq_true] at htotal
  rcases htotal with hst | hts
  · exact .inl ⟨hst, h⟩
  · exact .inr ⟨hts, h.symm⟩

theorem Text.Before.trans {s t u : Text} (hst : s.Before t) (htu : t.Before u) : s.Before u := by
  refine ⟨precedes_trans hst.1 htu.1, ?_⟩
  rintro rfl
  exact hst.2 (precedes_antisymm hst.1 htu.1)

instance (s t : Text) : Decidable (s.Before t) := inferInstanceAs (Decidable (_ ∧ _))

namespace Files

namespace Entry

variable {enter keep : Text → Bool} {entries : List Entry} {names : List Text}

theorem mem_filesOfAll_iff_exists :
    names ∈ filesOfAll enter keep entries ↔ ∃ e ∈ entries, names ∈ e.files enter keep := by
  rw [filesOfAll_eq_flatMap, List.mem_flatMap]

theorem mem_files_file {name : Text} {content : Content} :
    names ∈ (file name content).files enter keep ↔ names = [name] ∧ keep name = true := by
  rw [files]
  split
  · next hkeep => exact List.mem_singleton.trans (and_iff_left hkeep).symm
  · next hkeep => exact iff_of_false List.not_mem_nil fun h => hkeep h.2

theorem mem_files_folder {name : Text} {below : List Entry} {closed : Bool} :
    names ∈ (folder name below closed).files enter keep ↔
      enter name = true ∧ ∃ rest ∈ filesOfAll enter keep below, name :: rest = names := by
  rw [files]
  split
  · next henter => exact List.mem_map.trans (and_iff_right henter).symm
  · next henter => exact iff_of_false List.not_mem_nil fun h => henter h.1

theorem ne_nil_of_mem_filesOfAll (h : names ∈ filesOfAll enter keep entries) : names ≠ [] := by
  obtain ⟨e, _, hfiles⟩ := mem_filesOfAll_iff_exists.mp h
  cases e with
  | file name content =>
    rw [(mem_files_file.mp hfiles).1]
    exact List.cons_ne_nil _ _
  | folder name below closed =>
    obtain ⟨_, rest, _, rfl⟩ := mem_files_folder.mp hfiles
    exact List.cons_ne_nil _ _

theorem Sound.mem_filesOfAll_cons_iff (h : Sound entries) {name : Text} :
    name :: names ∈ filesOfAll enter keep entries ↔
      match find? name entries with
      | none => False
      | some (.file _ _) => names = [] ∧ keep name = true
      | some (.folder _ below _) => enter name = true ∧ names ∈ filesOfAll enter keep below := by
  rw [mem_filesOfAll_iff_exists]
  cases hfind : find? name entries with
  | none =>
    refine iff_of_false ?_ id
    rintro ⟨e, he, hfiles⟩
    have hname : e.name ≠ name := fun heq => by
      rw [h.find?_eq_some_iff.mpr ⟨he, heq⟩] at hfind
      cases hfind
    cases e with
    | file fileName content => exact hname (List.cons.inj (mem_files_file.mp hfiles).1).1.symm
    | folder folderName below closed =>
      obtain ⟨_, rest, _, heq⟩ := mem_files_folder.mp hfiles
      exact hname (List.cons.inj heq).1
  | some e =>
    obtain ⟨hmem, rfl⟩ := mem_of_find? hfind
    have hother : (∃ e' ∈ entries, e.name :: names ∈ e'.files enter keep) ↔
        e.name :: names ∈ e.files enter keep := by
      refine ⟨?_, fun hfiles => ⟨e, hmem, hfiles⟩⟩
      rintro ⟨e', he', hfiles⟩
      have hname : e'.name = e.name := by
        cases e' with
        | file fileName content => exact (List.cons.inj (mem_files_file.mp hfiles).1).1.symm
        | folder folderName below closed =>
          obtain ⟨_, rest, _, heq⟩ := mem_files_folder.mp hfiles
          exact (List.cons.inj heq).1
      have hsame := h.find?_eq_some_iff.mpr ⟨he', hname⟩
      rw [hfind, Option.some.injEq] at hsame
      exact hsame ▸ hfiles
    rw [hother]
    cases e with
    | file fileName content =>
      rw [mem_files_file, List.cons.injEq]
      exact ⟨fun ⟨⟨_, hnil⟩, hkeep⟩ => ⟨hnil, hkeep⟩, fun ⟨hnil, hkeep⟩ => ⟨⟨rfl, hnil⟩, hkeep⟩⟩
    | folder folderName below closed =>
      rw [mem_files_folder]
      refine and_congr_right fun _ => ⟨?_, fun hrest => ⟨names, hrest, rfl⟩⟩
      rintro ⟨rest, hrest, heq⟩
      rwa [← (List.cons.inj heq).2]

theorem Sound.mem_filesOfAll_iff {folder : Folder} (h : Sound folder.entries) :
    names ∈ filesOfAll enter keep folder.entries ↔
      (∃ content, fileAt? folder names = some content) ∧
        (names.getLast?.any keep = true) ∧ ∀ n ∈ names.dropLast, enter n = true := by
  induction names generalizing folder with
  | nil =>
    refine iff_of_false (fun hmem => ne_nil_of_mem_filesOfAll hmem rfl) ?_
    rintro ⟨⟨content, hfile⟩, _⟩
    cases hfile
  | cons name names ih =>
    rw [h.mem_filesOfAll_cons_iff, fileAt?_cons]
    cases hfind : find? name folder.entries with
    | none => simp only [reduceCtorEq, exists_false, false_and]
    | some e =>
      obtain ⟨hmem, _⟩ := mem_of_find? hfind
      cases e with
      | file fileName content =>
        by_cases hnil : names = []
        · subst hnil
          simp
        · simp [hnil]
      | folder folderName below closed =>
        have hbelow := h.inner hmem
        simp only
        rw [@ih ⟨below, folder.closed || closed⟩ hbelow]
        by_cases hnil : names = []
        · subst hnil
          simp [fileAt?]
        · rw [List.getLast?_cons_of_ne_nil hnil, List.dropLast_cons_of_ne_nil hnil,
            List.forall_mem_cons]
          exact and_left_comm.trans (and_congr_right fun _ => and_left_comm)

theorem Sound.nodup_filesOfAll (h : Sound entries) : (filesOfAll enter keep entries).Nodup := by
  induction h with
  | intro named distinct inner ih =>
    rw [filesOfAll_eq_flatMap, List.nodup_flatMap]
    refine ⟨fun e he => ?_, ?_⟩
    · cases e with
      | file name content =>
        rw [files]
        split
        · exact List.nodup_singleton _
        · exact List.nodup_nil
      | folder name below closed =>
        rw [files]
        split
        · exact (ih name below closed he).map fun _ _ heq => (List.cons.inj heq).2
        · exact List.nodup_nil
    · refine (List.pairwise_map.mp distinct).imp fun {e e'} hne names hfiles hfiles' => hne ?_
      have hhead : ∀ {e : Entry}, names ∈ e.files enter keep → names.head? = some e.name := by
        intro e hfiles
        cases e with
        | file name content =>
          rw [(mem_files_file.mp hfiles).1]
          rfl
        | folder name below closed =>
          obtain ⟨_, rest, _, rfl⟩ := mem_files_folder.mp hfiles
          rfl
      exact Option.some.inj ((hhead hfiles).symm.trans (hhead hfiles'))

end Entry

theorem hasExtension_iff {extensions : List Text} {name : Text} :
    hasExtension extensions name = true ↔ ∃ e ∈ extensions, e <:+ name := by
  simp only [hasExtension, List.any_eq_true, List.isSuffixOf_iff_suffix]

theorem wayTo_cons {below : List Text} (hne : below ≠ []) (directory name : Text) :
    wayTo directory (name :: below) = directory :: wayTo (Path.join directory name) below := by
  rw [wayTo]
  exact hne

theorem mem_wayTo_iff {directory path : Text} {below : List Text} :
    path ∈ wayTo directory below ↔
      ∃ names rest, below = names ++ rest ∧ rest ≠ [] ∧ path = names.foldl Path.join directory := by
  induction below generalizing directory with
  | nil =>
    refine iff_of_false List.not_mem_nil ?_
    rintro ⟨names, rest, heq, hrest, _⟩
    exact hrest (List.append_eq_nil_iff.mp heq.symm).2
  | cons name below ih =>
    have hcons : (∃ names rest, name :: below = names ++ rest ∧ rest ≠ [] ∧
        path = names.foldl Path.join directory) ↔ path = directory ∨ ∃ names rest,
          below = names ++ rest ∧ rest ≠ [] ∧ path = names.foldl Path.join (Path.join directory name) := by
      constructor
      · rintro ⟨names, rest, heq, hrest, rfl⟩
        cases names with
        | nil => exact .inl rfl
        | cons first names =>
          cases heq
          exact .inr ⟨names, rest, rfl, hrest, rfl⟩
      · rintro (rfl | ⟨names, rest, rfl, hrest, rfl⟩)
        · exact ⟨[], _, rfl, List.cons_ne_nil _ _, rfl⟩
        · exact ⟨name :: names, rest, rfl, hrest, rfl⟩
    rw [hcons, ← ih]
    by_cases hnil : below = []
    · subst hnil
      exact List.mem_singleton.trans (or_iff_left List.not_mem_nil).symm
    · rw [wayTo_cons hnil, List.mem_cons]

namespace Disk

variable {d : Disk} {directory : Text} {extensions skip : List Text}

def fileBelow? (d : Disk) (directory : Text) (below : List Text) : Option Content :=
  (d.folder? directory).bind (Entry.fileAt? · below)

theorem fileBelow?_eq_some_iff {below : List Text} {content : Content} :
    d.fileBelow? directory below = some content ↔
      ∃ folder, d.folder? directory = some folder ∧ Entry.fileAt? folder below = some content :=
  Option.bind_eq_some_iff

/-- A file is found if no directory that leads to it is skipped and its name has one of the
extensions. -/
theorem Sound.mem_filesBelow_iff (h : d.Sound) {f : SourceFile} :
    f ∈ d.filesBelow directory extensions skip ↔
      f.path = f.below.foldl Path.join directory ∧
        (∃ content, d.fileBelow? directory f.below = some content) ∧
        f.below.getLast?.any (hasExtension extensions) = true ∧
        ∀ n ∈ f.below.dropLast, n ∉ skipped skip := by
  rw [filesBelow]
  cases hfolder : d.folder? directory with
  | none =>
    refine iff_of_false List.not_mem_nil ?_
    rintro ⟨_, ⟨content, hcontent⟩, _⟩
    obtain ⟨folder, hsome, _⟩ := fileBelow?_eq_some_iff.mp hcontent
    rw [hfolder] at hsome
    cases hsome
  | some folder =>
    have hbelow : ∀ content, d.fileBelow? directory f.below = some content ↔
        Entry.fileAt? folder f.below = some content := fun content => by
      rw [fileBelow?, hfolder, Option.bind_some]
    have henter : ∀ n, (!(skipped skip).contains n) = true ↔ n ∉ skipped skip := fun n => by
      rw [Bool.not_eq_true', ← Bool.not_eq_true, List.contains_iff_mem]
    simp only [List.mem_mergeSort, List.mem_map, (h.folder? hfolder).mem_filesOfAll_iff, hbelow, henter]
    constructor
    · rintro ⟨below, hall, rfl⟩
      exact ⟨rfl, hall⟩
    · rintro ⟨hpath, hall⟩
      refine ⟨f.below, hall, ?_⟩
      rw [SourceFile.at, ← hpath]

theorem Sound.nodup_paths (h : d.Sound) {folder : Folder}
    (hfolder : d.folder? directory = some folder) (enter keep : Text → Bool) :
    ((Entry.filesOfAll enter keep folder.entries).map fun below =>
      below.foldl Path.join directory).Nodup := by
  have hdirectory := (look_eq_ok (folder?_eq_some_iff.mp hfolder)).1
  have hentries := h.folder? hfolder
  have hnames : ∀ below ∈ Entry.filesOfAll enter keep folder.entries,
      (∀ n ∈ below, Path.IsName n) ∧ below ≠ [] := fun below hmem => by
    obtain ⟨⟨content, hfile⟩, _⟩ := hentries.mem_filesOfAll_iff.mp hmem
    exact ⟨hentries.isName_of_fileAt? hfile, Entry.ne_nil_of_mem_filesOfAll hmem⟩
  refine List.Nodup.map_on (fun below hmem below' hmem' heq => ?_) hentries.nodup_filesOfAll
  obtain ⟨hname, hne⟩ := hnames below hmem
  obtain ⟨hname', hne'⟩ := hnames below' hmem'
  exact Path.foldl_join_inj hdirectory hname hne hname' hne' heq

theorem Sound.pairwise_filesBelow (h : d.Sound) :
    (d.filesBelow directory extensions skip).Pairwise fun f g => f.path.Before g.path := by
  rw [filesBelow]
  cases hfolder : d.folder? directory with
  | none => exact List.Pairwise.nil
  | some folder =>
    have hsorted : ((Entry.filesOfAll (fun name => !(skipped skip).contains name)
        (hasExtension extensions) folder.entries).map (SourceFile.at directory)
          |>.mergeSort fun a b : SourceFile => a.path.precedes b.path).Pairwise
        fun a b : SourceFile => a.path.precedes b.path = true := by
      apply List.pairwise_mergeSort
      · exact fun _ _ _ => Text.precedes_trans
      · exact fun a b => Text.precedes_total a.path b.path
    refine hsorted.imp₂ (fun f g hprecedes hne => ⟨hprecedes, hne⟩) ?_
    refine List.pairwise_map.mp ((List.mergeSort_perm _ _).map SourceFile.path |>.nodup_iff.mpr ?_)
    rw [List.map_map]
    exact h.nodup_paths hfolder _ _

/-- A file that is not found for want of a listing on the way to it cannot be opened either: its path is
too long, or it stands behind a closed directory. -/
theorem Sound.of_not_reaches (h : d.Sound) {below : List Text} {content : Content}
    (hheld : d.fileBelow? directory below = some content) (hreach : d.reaches directory below = false) :
    Path.maxSize < (below.foldl Path.join directory).byteSize ∨
      content = .unreadable .permissionDenied := by
  obtain ⟨folder, hfolder, hfile⟩ := fileBelow?_eq_some_iff.mp hheld
  have hentries := h.folder? hfolder
  have hnames := hentries.isName_of_fileAt? hfile
  rw [reaches, List.all_eq_false] at hreach
  obtain ⟨path, hpath, hnone⟩ := hreach
  obtain ⟨names, rest, rfl, hrest, rfl⟩ := mem_wayTo_iff.mp hpath
  rw [List.foldl_append]
  refine or_iff_not_imp_left.mpr fun hsize => ?_
  have hle := Path.byteSize_le_foldl_join (fun n hn => hnames n (List.mem_append_right _ hn))
    (names.foldl Path.join directory)
  refine (listing?_foldl_join hentries hfolder hfile hrest (by omega)).resolve_left fun ⟨_, hsome⟩ => ?_
  rw [hsome] at hnone
  exact hnone rfl

end Disk

end Files

end RecordMap
