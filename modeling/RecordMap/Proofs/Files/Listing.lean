import Mathlib.Data.List.Sort
import RecordMap.Proofs.Files.Discovery

/-! The files that are found below a directory. Every source file in reach is found, each once and in the
order of the paths, in whatever order the directories list their entries. -/

namespace RecordMap.Files

namespace Entry

variable {entries entries' : List Entry}

/-- The same entries in some order, and so in every directory below. -/
inductive Relisted : List Entry → List Entry → Prop
  | refl (entries : List Entry) : Relisted entries entries
  | swap (e e' : Entry) (entries : List Entry) : Relisted (e :: e' :: entries) (e' :: e :: entries)
  | cons (e : Entry) {entries entries' : List Entry} (h : Relisted entries entries') :
    Relisted (e :: entries) (e :: entries')
  | inside (folderName : Text) (closed : Bool) {below below' : List Entry} (h : Relisted below below')
    (entries : List Entry) :
    Relisted (.folder folderName below closed :: entries) (.folder folderName below' closed :: entries)
  | trans {first second third : List Entry} (h : Relisted first second) (h' : Relisted second third) :
    Relisted first third

namespace Relisted

theorem symm (h : Relisted entries entries') : Relisted entries' entries := by
  induction h with
  | refl entries => exact .refl entries
  | swap e e' entries => exact .swap e' e entries
  | cons e _ ih => exact .cons e ih
  | inside folderName closed _ entries ih => exact .inside folderName closed ih entries
  | trans _ _ ih ih' => exact .trans ih' ih

theorem perm_names (h : Relisted entries entries') : (entries.map name).Perm (entries'.map name) := by
  induction h with
  | refl entries => exact .refl _
  | swap e e' entries => exact .swap _ _ _
  | cons e _ ih => exact .cons _ ih
  | inside folderName _ _ entries => exact .refl _
  | trans _ _ ih ih' => exact ih.trans ih'

theorem perm_filesOfAll (h : Relisted entries entries') (enter keep : Text → Bool) :
    (filesOfAll enter keep entries).Perm (filesOfAll enter keep entries') := by
  induction h with
  | refl entries => exact .refl _
  | swap e e' entries =>
    rw [filesOfAll, filesOfAll, filesOfAll, filesOfAll, ← List.append_assoc, ← List.append_assoc]
    exact List.perm_append_comm.append_right _
  | cons e _ ih =>
    rw [filesOfAll, filesOfAll]
    exact ih.append_left _
  | inside folderName _ _ entries ih =>
    rw [filesOfAll, filesOfAll, files, files]
    split
    · exact (ih.map _).append_right _
    · exact .refl _
  | trans _ _ ih ih' => exact ih.trans ih'

theorem exists_folder_mem (h : Relisted entries entries') {folderName : Text} {below : List Entry}
    {closed : Bool} (hmem : .folder folderName below closed ∈ entries) :
    ∃ below', .folder folderName below' closed ∈ entries' ∧ Relisted below below' := by
  induction h generalizing below with
  | refl entries => exact ⟨below, hmem, .refl below⟩
  | swap e e' entries => exact ⟨below, (List.Perm.swap e' e entries).mem_iff.mp hmem, .refl below⟩
  | cons e _ ih =>
    rcases List.mem_cons.mp hmem with rfl | hmem
    · exact ⟨below, List.mem_cons_self, .refl below⟩
    · obtain ⟨below', hmem', hbelow⟩ := ih hmem
      exact ⟨below', List.mem_cons_of_mem _ hmem', hbelow⟩
  | inside otherName _ hbelow entries =>
    rcases List.mem_cons.mp hmem with heq | hmem
    · cases heq
      exact ⟨_, List.mem_cons_self, hbelow⟩
    · exact ⟨below, List.mem_cons_of_mem _ hmem, .refl below⟩
  | trans _ _ ih ih' =>
    obtain ⟨below', hmem', hbelow⟩ := ih hmem
    obtain ⟨below'', hmem'', hbelow'⟩ := ih' hmem'
    exact ⟨below'', hmem'', hbelow.trans hbelow'⟩

end Relisted

theorem sound_cons_iff {e : Entry} :
    Sound (e :: entries) ↔ Path.IsName e.name ∧ e.name ∉ entries.map name ∧
      (∀ folderName below closed, e = .folder folderName below closed → Sound below) ∧ Sound entries := by
  constructor
  · intro h
    obtain ⟨hname, hnamed⟩ := List.forall_mem_cons.mp h.named
    obtain ⟨hnew, hdistinct⟩ := List.nodup_cons.mp h.distinct
    refine ⟨hname, hnew, ?_, .intro hnamed hdistinct fun _ _ _ hmem =>
      h.inner (List.mem_cons_of_mem _ hmem)⟩
    rintro folderName below closed rfl
    exact h.inner List.mem_cons_self
  · rintro ⟨hname, hnew, hinner, h⟩
    cases e with
    | file fileName content => exact h.cons_file hname hnew
    | folder folderName below closed => exact h.cons_folder hname hnew (hinner folderName below closed rfl)

theorem Relisted.sound (h : Relisted entries entries') (hsound : Sound entries) : Sound entries' := by
  induction h with
  | refl entries => exact hsound
  | swap e e' entries =>
    obtain ⟨hname, hnew, hinner, hrest⟩ := sound_cons_iff.mp hsound
    obtain ⟨hname', hnew', hinner', hentries⟩ := sound_cons_iff.mp hrest
    obtain ⟨hne, hnew⟩ := not_or.mp (List.mem_cons.not.mp hnew)
    refine sound_cons_iff.mpr ⟨hname', ?_, hinner', sound_cons_iff.mpr ⟨hname, hnew, hinner, hentries⟩⟩
    exact List.mem_cons.not.mpr (not_or.mpr ⟨Ne.symm hne, hnew'⟩)
  | cons e h ih =>
    obtain ⟨hname, hnew, hinner, hentries⟩ := sound_cons_iff.mp hsound
    exact sound_cons_iff.mpr ⟨hname, h.perm_names.mem_iff.not.mp hnew, hinner, ih hentries⟩
  | inside folderName closed _ entries ih =>
    obtain ⟨hname, hnew, hinner, hentries⟩ := sound_cons_iff.mp hsound
    exact hentries.cons_folder hname hnew (ih (hinner folderName _ closed rfl))
  | trans _ _ ih ih' => exact ih' (ih hsound)

structure RelistedFolder (folder folder' : Folder) : Prop where
  closed : folder'.closed = folder.closed
  entries : Relisted folder.entries folder'.entries

theorem RelistedFolder.follow {outer outer' : List Folder} {folder folder' found : Folder}
    {steps : List Text} (houter : List.Forall₂ RelistedFolder outer outer')
    (hsounds : ∀ f ∈ outer, Sound f.entries) (h : RelistedFolder folder folder')
    (hsound : Sound folder.entries) (hfollow : Entry.follow outer folder steps = .ok (.inr found)) :
    ∃ found', Entry.follow outer' folder' steps = .ok (.inr found') ∧ RelistedFolder found found' := by
  have hopen : ¬ folder.closed = true → folder'.closed = false := fun hne =>
    h.closed.trans (eq_false_of_ne_true hne)
  fun_induction Entry.follow outer folder steps generalizing outer' folder' with
  | case1 outer folder =>
    cases hfollow
    exact ⟨folder', by rw [Entry.follow.eq_1], h⟩
  | case2 outer folder steps ih =>
    rw [follow_stay]
    exact ih houter hsounds h hsound hfollow hopen
  | case3 => cases hfollow
  | case4 outer folder steps hclosed _ ih =>
    rw [follow_here (hopen hclosed)]
    exact ih houter hsounds h hsound hfollow hopen
  | case5 folder steps hclosed _ _ ih =>
    cases houter
    rw [follow_up (hopen hclosed)]
    exact ih .nil hsounds h hsound hfollow hopen
  | case6 folder steps hclosed up outer _ _ ih =>
    obtain ⟨hup, hsounds⟩ := List.forall_mem_cons.mp hsounds
    cases houter with
    | cons hnear houter =>
      rw [follow_up (hopen hclosed)]
      exact ih houter hsounds hnear hup hfollow fun hne => hnear.closed.trans (eq_false_of_ne_true hne)
  | case7 => cases hfollow
  | case8 => cases hfollow
  | case9 outer folder step steps hne hclosed hhere hup hsize folderName inner closed hfind ih =>
    obtain ⟨hmem, hname⟩ := mem_of_find? hfind
    obtain ⟨inner', hmem', hinner⟩ := h.entries.exists_folder_mem hmem
    rw [follow_name ⟨hne, hhere, hup, hsize⟩ (hopen hclosed),
      (h.entries.sound hsound).find?_eq_some_iff.mpr ⟨hmem', hname⟩]
    exact ih (.cons h houter) (List.forall_mem_cons.mpr ⟨hsound, hsounds⟩) ⟨rfl, hinner⟩
      (hsound.inner hmem) hfollow eq_false_of_ne_true
  | case10 => cases hfollow
  | case11 => cases hfollow

end Entry

/-! ### What does not matter -/

theorem hasExtension_congr {extensions extensions' : List Text}
    (h : ∀ e, e ∈ extensions ↔ e ∈ extensions') : hasExtension extensions = hasExtension extensions' := by
  funext name
  rw [Bool.eq_iff_iff, hasExtension_iff, hasExtension_iff]
  exact exists_congr fun e => and_congr_left fun _ => h e

theorem mem_skipped_congr {skip skip' : List Text} (h : ∀ n, n ∈ skip ↔ n ∈ skip') (n : Text) :
    n ∈ skipped skip ↔ n ∈ skipped skip' := by
  have hnil : skip = [] ↔ skip' = [] := by
    rw [List.eq_nil_iff_forall_not_mem, List.eq_nil_iff_forall_not_mem]
    exact forall_congr' fun n => (h n).not
  rw [skipped, skipped]
  by_cases hskip : skip = []
  · rw [if_pos hskip, if_pos (hnil.mp hskip)]
  · rw [if_neg hskip, if_neg (hnil.not.mp hskip), h]

namespace Disk

variable {d d' : Disk} {directory : Text} {extensions extensions' skip skip' : List Text}

structure Relisted (d d' : Disk) : Prop where
  here : d'.here = d.here
  entries : Entry.Relisted d.entries d'.entries

theorem Relisted.symm (h : d.Relisted d') : d'.Relisted d := ⟨h.here.symm, h.entries.symm⟩

theorem Relisted.folder? (h : d.Relisted d') (hsound : d.Sound) {folder : Folder}
    (hfolder : d.folder? directory = some folder) :
    ∃ folder', d'.folder? directory = some folder' ∧ Entry.RelistedFolder folder folder' := by
  obtain ⟨hne, hsize, hfollow⟩ := look_eq_ok (folder?_eq_some_iff.mp hfolder)
  have htop : Entry.RelistedFolder d.top d'.top := ⟨rfl, h.entries⟩
  obtain ⟨folder', hfollow', hsame⟩ := htop.follow .nil (List.forall_mem_nil _) hsound hfollow
  have hsteps : d'.stepsOf directory = d.stepsOf directory := by rw [stepsOf, stepsOf, h.here]
  refine ⟨folder', folder?_eq_some_iff.mpr ?_, hsame⟩
  rw [look_of_size hne hsize, hsteps, hfollow']

theorem Relisted.isSome_listing? (h : d.Relisted d') (hsound : d.Sound) (path : Text) :
    (d'.listing? path).isSome = (d.listing? path).isSome := by
  rw [listing?, listing?]
  cases hfolder : d.folder? path with
  | some folder =>
    obtain ⟨folder', hfolder', hsame⟩ := h.folder? hsound hfolder
    rw [hfolder']
    dsimp only
    rw [hsame.closed]
    split <;> rfl
  | none =>
    cases hfolder' : d'.folder? path with
    | none => rfl
    | some folder' =>
      obtain ⟨folder, hsome, _⟩ := h.symm.folder? (h.entries.sound hsound) hfolder'
      rw [hfolder] at hsome
      cases hsome

theorem filesBelow_congr (hextensions : ∀ e, e ∈ extensions ↔ e ∈ extensions')
    (hskip : ∀ n, n ∈ skip ↔ n ∈ skip') :
    d.filesBelow directory extensions skip = d.filesBelow directory extensions' skip' := by
  have henter : (fun name => !(skipped skip).contains name) =
      fun name => !(skipped skip').contains name := by
    funext name
    rw [Bool.eq_iff_iff, Bool.not_eq_true', Bool.not_eq_true', ← Bool.not_eq_true, ← Bool.not_eq_true,
      List.contains_iff_mem, List.contains_iff_mem, mem_skipped_congr hskip]
  rw [filesBelow, filesBelow, henter, hasExtension_congr hextensions]

/-- Files that are ordered by their paths do not depend on how they were listed. -/
theorem Relisted.filesBelow_eq (h : d.Relisted d') (hsound : d.Sound) :
    d'.filesBelow directory extensions skip = d.filesBelow directory extensions skip := by
  have hsound' : d'.Sound := h.entries.sound hsound
  have hperm : (d'.filesBelow directory extensions skip).Perm
      (d.filesBelow directory extensions skip) := by
    rw [filesBelow, filesBelow]
    cases hfolder : d.folder? directory with
    | none =>
      cases hfolder' : d'.folder? directory with
      | none => exact .refl _
      | some folder' =>
        obtain ⟨folder, hsome, _⟩ := h.symm.folder? hsound' hfolder'
        rw [hfolder] at hsome
        cases hsome
    | some folder =>
      obtain ⟨folder', hfolder', hsame⟩ := h.folder? hsound hfolder
      rw [hfolder']
      refine (List.mergeSort_perm _ _).trans (.trans ?_ (List.mergeSort_perm _ _).symm)
      exact (hsame.entries.symm.perm_filesOfAll _ _).map _
  exact hperm.eq_of_pairwise (fun f g _ _ hfg hgf => absurd hgf hfg.asymm) hsound'.pairwise_filesBelow
    hsound.pairwise_filesBelow

/-! ### What is found -/

/-- Names that lead from a directory to a file with one of the extensions, through no directory that is
to be skipped. -/
structure IsSource (d : Disk) (directory : Text) (extensions skip below : List Text) : Prop where
  held : ∃ content, d.fileBelow? directory below = some content
  extension : ∃ name, below.getLast? = some name ∧ ∃ e ∈ extensions, e <:+ name
  entered : ∀ n ∈ below.dropLast, if skip = [] then n ∉ skippedByDefault else n ∉ skip

/-- The directory and all on the way to a file below can be listed. -/
def InReach (d : Disk) (directory : Text) (below : List Text) : Prop :=
  ∀ names rest, below = names ++ rest → rest ≠ [] →
    (d.listing? (names.foldl Path.join directory)).isSome = true

/-- The paths of all source files of some kind, each once and in the order of the paths. -/
structure IsListing (d : Disk) (directory : Text) (extensions skip : List Text)
    (kind : List Text → Prop) (paths : List Text) : Prop where
  ordered : paths.Pairwise Text.Before
  complete : ∀ path, path ∈ paths ↔ ∃ below, d.IsSource directory extensions skip below ∧
    kind below ∧ path = below.foldl Path.join directory

theorem isSource_iff {below : List Text} :
    d.IsSource directory extensions skip below ↔
      (∃ content, d.fileBelow? directory below = some content) ∧
        below.getLast?.any (hasExtension extensions) = true ∧
        ∀ n ∈ below.dropLast, n ∉ skipped skip := by
  have hextension : below.getLast?.any (hasExtension extensions) = true ↔
      ∃ name, below.getLast? = some name ∧ ∃ e ∈ extensions, e <:+ name := by
    simp only [Option.any_eq_true, hasExtension_iff]
  have hentered : (∀ n ∈ below.dropLast, n ∉ skipped skip) ↔
      ∀ n ∈ below.dropLast, if skip = [] then n ∉ skippedByDefault else n ∉ skip := by
    rw [skipped]
    split <;> exact Iff.rfl
  rw [hextension, hentered]
  exact ⟨fun h => ⟨h.held, h.extension, h.entered⟩, fun ⟨hheld, hextension, hentered⟩ =>
    ⟨hheld, hextension, hentered⟩⟩

theorem inReach_iff {below : List Text} :
    d.InReach directory below ↔ d.reaches directory below = true := by
  rw [reaches, List.all_eq_true]
  constructor
  · intro h path hpath
    obtain ⟨names, rest, hbelow, hrest, rfl⟩ := mem_wayTo_iff.mp hpath
    exact h names rest hbelow hrest
  · exact fun h names rest hbelow hrest => h _ (mem_wayTo_iff.mpr ⟨names, rest, hbelow, hrest, rfl⟩)

theorem Sound.isListing_sourceFiles (h : d.Sound) :
    d.IsListing directory extensions skip (d.InReach directory)
      ((d.sourceFiles directory extensions skip).map (·.path)) := by
  refine ⟨List.pairwise_map.mpr (h.pairwise_filesBelow.filter _), fun path => ?_⟩
  simp only [List.mem_map, sourceFiles, List.mem_filter, h.mem_filesBelow_iff, isSource_iff, inReach_iff]
  constructor
  · rintro ⟨f, ⟨⟨hpath, hsource⟩, hreach⟩, rfl⟩
    exact ⟨f.below, hsource, hreach, hpath⟩
  · rintro ⟨below, hsource, hreach, rfl⟩
    exact ⟨⟨_, below⟩, ⟨⟨rfl, hsource⟩, hreach⟩, rfl⟩

theorem sourceFiles_of_missing (h : d.folder? directory = none) :
    d.sourceFiles directory extensions skip = [] := by
  rw [sourceFiles, filesBelow, h]
  rfl

/-- Below a directory all source files in reach are found and nothing else, each once and in the order of
the paths; below a missing directory there are none. Neither the order in which directories list their
entries matters nor the order and repetition of the extensions and of the names to skip. -/
theorem findFiles_lists_sources :
    (∀ (d : Disk) directory extensions skip, d.Sound → Path.hasNull directory = false →
      ∃ files, d.findFiles directory extensions skip = .ok files ∧
        d.IsListing directory extensions skip (d.InReach directory) (files.map (·.path)) ∧
        (d.folder? directory = none → files = [])) ∧
    ∀ (d d' : Disk) directory extensions extensions' skip skip', d.Sound → d.Relisted d' →
      (∀ e, e ∈ extensions ↔ e ∈ extensions') → (∀ n, n ∈ skip ↔ n ∈ skip') →
      d'.findFiles directory extensions' skip' = d.findFiles directory extensions skip := by
  constructor
  · intro d directory extensions skip hsound hnull
    refine ⟨d.sourceFiles directory extensions skip, ?_, hsound.isListing_sourceFiles,
      sourceFiles_of_missing⟩
    rw [findFiles, hnull]
    rfl
  · intro d d' directory extensions extensions' skip skip' hsound hrelisted hextensions hskip
    simp only [findFiles, sourceFiles, reaches, hrelisted.filesBelow_eq hsound,
      filesBelow_congr hextensions hskip, hrelisted.isSome_listing? hsound]

/-- A disk with Ruby files at `/lib/b.rb`, `/lib/vendor/v.rb`, `/z.rb` and in a closed directory. -/
def libraryDisk : Disk where
  entries := [.folder "lib".toList [.file "b.rb".toList (.bytes ByteArray.empty),
      .folder "vendor".toList [.file "v.rb".toList (.bytes ByteArray.empty)]],
    .folder "locked".toList [.file "k.rb".toList (.bytes ByteArray.empty)] true,
    .file "z.rb".toList (.bytes ByteArray.empty)]

def backwardDisk : Disk where
  entries := [.file "z.rb".toList (.bytes ByteArray.empty),
    .folder "locked".toList [.file "k.rb".toList (.bytes ByteArray.empty)] true,
    .folder "lib".toList [.folder "vendor".toList [.file "v.rb".toList (.bytes ByteArray.empty)],
      .file "b.rb".toList (.bytes ByteArray.empty)]]

theorem sound_libraryDisk : libraryDisk.Sound := by
  have hz : Entry.Sound [.file "z.rb".toList (.bytes ByteArray.empty)] :=
    Entry.sound_nil.cons_file (by decide) (by decide)
  refine Entry.Sound.cons_folder (hz.cons_folder (by decide) (by decide) ?_) (by decide) (by decide) ?_
  · exact Entry.sound_nil.cons_file (by decide) (by decide)
  · refine Entry.Sound.cons_file (Entry.sound_nil.cons_folder (by decide) (by decide) ?_) (by decide)
      (by decide)
    exact Entry.sound_nil.cons_file (by decide) (by decide)

theorem relisted_libraryDisk : libraryDisk.Relisted backwardDisk := by
  refine ⟨rfl, .trans (.inside _ _ (.swap _ _ _) _) (.trans (.swap _ _ _) ?_)⟩
  exact .trans (.cons _ (.swap _ _ _)) (.swap _ _ _)

theorem findFiles_libraryDisk :
    (∃ files, libraryDisk.findFiles ['/'] [".rb".toList] [] = .ok files ∧
      libraryDisk.IsListing ['/'] [".rb".toList] [] (libraryDisk.InReach ['/']) (files.map (·.path)) ∧
      (libraryDisk.folder? ['/'] = none → files = [])) ∧
    backwardDisk.findFiles ['/'] [".rb".toList, ".rb".toList] [] =
      libraryDisk.findFiles ['/'] [".rb".toList] [] :=
  ⟨findFiles_lists_sources.1 libraryDisk _ _ _ sound_libraryDisk rfl,
    findFiles_lists_sources.2 libraryDisk backwardDisk _ _ _ _ _ sound_libraryDisk relisted_libraryDisk
      (by simp) fun _ => Iff.rfl⟩

/-- The current directory, by a path that is as long as a path can be. -/
def fullPath : Text := '.' :: List.replicate 4094 '/'

def narrowDisk : Disk where
  entries := [.folder ['d'] [.file "x.rb".toList (.bytes ByteArray.empty)]]

theorem sourceFiles_fullPath : narrowDisk.sourceFiles fullPath [".rb".toList] [] = [] := by
  have hfiles : (narrowDisk.folder? fullPath).map (fun folder => Entry.filesOfAll
      (fun name => !(skipped []).contains name) (hasExtension [".rb".toList]) folder.entries) =
        some [[['d'], "x.rb".toList]] := by
    decide +kernel
  obtain ⟨folder, hfolder, hall⟩ := Option.map_eq_some_iff.mp hfiles
  have hreach : narrowDisk.reaches fullPath [['d'], "x.rb".toList] = false := by decide +kernel
  rw [sourceFiles, filesBelow, hfolder]
  dsimp only
  rw [hall, List.map_singleton, List.mergeSort_singleton, List.filter_cons_of_neg]
  · rfl
  · exact ne_true_of_eq_false hreach

/-- A file below the directory is not found where its own directory cannot be listed by a path so long. A path
with the null character leads to no directory, and is refused. -/
theorem not_isListing_fullPath :
    (narrowDisk.Sound ∧ Path.hasNull fullPath = false ∧
      ¬ ∃ files, narrowDisk.findFiles fullPath [".rb".toList] [] = .ok files ∧
        narrowDisk.IsListing fullPath [".rb".toList] [] (fun _ => True) (files.map (·.path))) ∧
    narrowDisk.folder? ['\x00'] = none ∧ narrowDisk.findFiles ['\x00'] [".rb".toList] [] ≠ .ok [] := by
  have hnull : Path.hasNull fullPath = false := by decide +kernel
  refine ⟨⟨?_, hnull, ?_⟩, rfl, nofun⟩
  · exact Entry.sound_nil.cons_folder (by decide) (by decide)
      (Entry.sound_nil.cons_file (by decide) (by decide))
  · rintro ⟨files, hfiles, hlisting⟩
    rw [findFiles, hnull, sourceFiles_fullPath] at hfiles
    cases hfiles
    have hsource : narrowDisk.IsSource fullPath [".rb".toList] [] [['d'], "x.rb".toList] :=
      isSource_iff.mpr ⟨Option.isSome_iff_exists.mp (by decide +kernel), by decide, by decide⟩
    exact List.not_mem_nil ((hlisting.complete _).mpr ⟨_, hsource, trivial, rfl⟩)

end Disk

end RecordMap.Files
