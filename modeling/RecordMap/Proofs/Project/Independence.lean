import Mathlib.Data.List.Sort
import RecordMap.Proofs.Files.Discovery
import RecordMap.Proofs.Model.Ownership
import RecordMap.Proofs.Project.Reporting
import RecordMap.Proofs.Text.Search

/-! Every model file is scanned on its own. A report is put together from what the files hold, one by
one in the order of their paths, so a change to one of them leaves the part of all others as it is. -/

namespace RecordMap.Project

open Files Schema

/-! ### The files of a project -/

/-- The directory below which models are looked for: the one for models, or if there is none the
project. -/
def searched (w : World) (project name : Text) : Text :=
  if (w.disk.folder? (Path.join project name)).isSome then Path.join project name else project

/-- A file that holds models, at its path. Without a directory for models it has to mention them. -/
structure IsModelFile (w : World) (project name : Text) (below : List Text) (path : Text)
    (content : Content) : Prop where
  path_eq : path = below.foldl Path.join (searched w project name)
  held : w.disk.fileBelow? (searched w project name) below = some content
  ruby : ∃ file, below.getLast? = some file ∧ ".rb".toList <:+ file
  entered : ∀ n ∈ below.dropLast, n ∉ skippedByDefault
  mentions : w.disk.folder? (Path.join project name) = none →
    "model".toList <:+: Text.lower (['/'].intercalate below)

structure AreModelFiles (w : World) (project name : Text) (files : List (Text × Content)) : Prop where
  ordered : files.Pairwise fun f g => f.1.Before g.1
  complete : ∀ path content,
    (path, content) ∈ files ↔ ∃ below, IsModelFile w project name below path content

def textOf? (path : Text) (content : Content) : Option Text :=
  (if Path.maxSize < path.byteSize then none else content.bytes?).map (Text.decode .utf8)

/-- What a file adds to the models: the entries of its text. One that is empty or cannot be read adds
none. -/
def entriesOf (reader : Reader) (schema : Option Schema) (file : Text × Content) : List Model.Entry :=
  match textOf? file.1 file.2 with
  | none | some [] => []
  | some text => (readSource reader schema file.1 text).1

def reportOf (reader : Reader) (schema : Option Schema) (checksum : Option Text)
    (files : List (Text × Content)) : Model.Report Model.Entry Text :=
  ⟨files.flatMap (entriesOf reader schema),
    (files.flatMap (entriesOf reader schema)).flatMap Model.Entry.relationships, checksum⟩

variable {w : World} {project name : Text}

theorem ruby_iff {below : List Text} :
    below.getLast?.any (hasExtension extensions) = true ↔
      ∃ file, below.getLast? = some file ∧ ".rb".toList <:+ file := by
  rw [Option.any_eq_true]
  refine exists_congr fun file => and_congr_right fun _ => ?_
  simp only [hasExtension_iff, extensions, List.mem_singleton, exists_eq_left]

theorem mentionsModel_iff {f : SourceFile} :
    mentionsModel f = true ↔ "model".toList <:+: Text.lower (['/'].intercalate f.below) :=
  Pattern.occursIn_verbatim_iff (by decide)

def found (w : World) (project name : Text) : List SourceFile :=
  match w.disk.folder? (Path.join project name) with
  | some _ => w.disk.filesBelow (Path.join project name) extensions []
  | none => (w.disk.filesBelow project extensions []).filter mentionsModel

theorem modelFiles_eq_found (hname : w.settings.modelsDirectory = some name)
    (hnull : Path.hasNull project = false) :
    modelFiles w project =
      .ok (((found w project name).filter fun f =>
        w.disk.reaches (searched w project name) f.below).map (·.path)) := by
  rw [modelFiles, hname]
  dsimp only
  rw [found, searched]
  cases w.disk.folder? (Path.join project name) with
  | some entries => rfl
  | none =>
    rw [Disk.findFiles, hnull]
    change Except.ok (List.map _ (List.filter _ (List.filter _ _))) = _
    rw [List.filter_filter, List.filter_filter]
    simp only [Bool.and_comm]
    rfl

theorem mem_found_iff (hsound : w.disk.Sound) {f : SourceFile} :
    f ∈ found w project name ↔ ∃ content, IsModelFile w project name f.below f.path content := by
  rw [found]
  cases hfolder : w.disk.folder? (Path.join project name) with
  | some folder =>
    have hsearched : searched w project name = Path.join project name := by
      rw [searched, hfolder]
      rfl
    simp only [hsound.mem_filesBelow_iff, ruby_iff]
    constructor
    · rintro ⟨hpath, ⟨content, hheld⟩, hruby, hentered⟩
      refine ⟨content, by rwa [hsearched], by rwa [hsearched], hruby, hentered, fun hnone => ?_⟩
      rw [hfolder] at hnone
      cases hnone
    · rintro ⟨content, hpath, hheld, hruby, hentered, _⟩
      rw [hsearched] at hpath hheld
      exact ⟨hpath, ⟨content, hheld⟩, hruby, hentered⟩
  | none =>
    have hsearched : searched w project name = project := by
      rw [searched, hfolder]
      rfl
    simp only [List.mem_filter, hsound.mem_filesBelow_iff, ruby_iff, mentionsModel_iff]
    constructor
    · rintro ⟨⟨hpath, ⟨content, hheld⟩, hruby, hentered⟩, hmentions⟩
      exact ⟨content, by rwa [hsearched], by rwa [hsearched], hruby, hentered, fun _ => hmentions⟩
    · rintro ⟨content, hpath, hheld, hruby, hentered, hmentions⟩
      rw [hsearched] at hpath hheld
      exact ⟨⟨hpath, ⟨content, hheld⟩, hruby, hentered⟩, hmentions hfolder⟩

theorem pairwise_found (hsound : w.disk.Sound) :
    (found w project name).Pairwise fun f g => f.path.Before g.path := by
  rw [found]
  split
  · exact hsound.pairwise_filesBelow
  · exact hsound.pairwise_filesBelow.filter _

def foundFiles (w : World) (project name : Text) : List (Text × Content) :=
  (found w project name).map fun f =>
    (f.path, (w.disk.fileBelow? (searched w project name) f.below).getD default)

theorem areModelFiles_foundFiles (hsound : w.disk.Sound) :
    AreModelFiles w project name (foundFiles w project name) := by
  refine ⟨List.pairwise_map.mpr (pairwise_found hsound), fun path content => ?_⟩
  rw [foundFiles, List.mem_map]
  constructor
  · rintro ⟨f, hf, heq⟩
    obtain ⟨content', hfile⟩ := (mem_found_iff hsound).mp hf
    rw [hfile.held] at heq
    cases heq
    exact ⟨f.below, hfile⟩
  · rintro ⟨below, hfile⟩
    refine ⟨⟨path, below⟩, (mem_found_iff hsound).mpr ⟨content, hfile⟩, ?_⟩
    rw [hfile.held]
    rfl

/-! ### One file -/

theorem value_readText (w : World) (path : Text) :
    (w.readText path .utf8).value = ((w.disk.read path).toOption).map (Text.decode .utf8) := by
  rw [World.readText, Disk.readText]
  cases w.disk.read path <;> rfl

theorem readFile_eq_entriesOf (hsound : w.disk.Sound) {reader : Reader} {schema : Option Schema}
    {below : List Text} {path : Text} {content : Content}
    (hfile : IsModelFile w project name below path content) :
    (readFile reader schema w path).1 = entriesOf reader schema (path, content) := by
  obtain ⟨folder, hfolder, hheld⟩ := Disk.fileBelow?_eq_some_iff.mp hfile.held
  have hread := Disk.toOption_read_foldl_join (hsound.folder? hfolder) hfolder hheld
  rw [← hfile.path_eq] at hread
  have htext : (w.readText path .utf8).value = textOf? path content := by
    rw [value_readText, hread, textOf?]
  rw [readFile, entriesOf]
  dsimp only
  rw [htext]
  cases textOf? path content with
  | none => rfl
  | some text => cases text <;> rfl

theorem entriesOf_of_not_reaches (hsound : w.disk.Sound) {below : List Text} {path : Text}
    {content : Content} (hfile : IsModelFile w project name below path content)
    (hreach : w.disk.reaches (searched w project name) below = false) (reader : Reader)
    (schema : Option Schema) : entriesOf reader schema (path, content) = [] := by
  have htext : textOf? path content = none := by
    rw [textOf?, Option.map_eq_none_iff, hfile.path_eq]
    rcases hsound.of_not_reaches hfile.held hreach with hsize | rfl
    · exact if_pos hsize
    · exact ite_self _
  rw [entriesOf]
  dsimp only
  rw [htext]

theorem flatMap_filter_eq {α β : Type} {as : List α} {p : α → Bool} {g : α → List β}
    (h : ∀ a ∈ as, p a = false → g a = []) : (as.filter p).flatMap g = as.flatMap g := by
  induction as with
  | nil => rfl
  | cons a as ih =>
    obtain ⟨ha, has⟩ := List.forall_mem_cons.mp h
    rw [List.flatMap_cons, ← ih has]
    cases hp : p a with
    | true => rw [List.filter_cons_of_pos hp, List.flatMap_cons]
    | false => rw [List.filter_cons_of_neg (Bool.eq_false_iff.mp hp), ha hp, List.nil_append]

theorem sourceFile_of_mem_entriesOf {reader : Reader} {schema : Option Schema} {file : Text × Content}
    {e : Model.Entry} (h : e ∈ entriesOf reader schema file) : e.sourceFile = file.1 := by
  rw [entriesOf] at h
  split at h
  · cases h
  · cases h
  · obtain ⟨c, _, rfl⟩ := List.mem_map.mp h
    rfl

theorem scanWith_eq_reportOf (hsound : w.disk.Sound) (hname : w.settings.modelsDirectory = some name)
    (hnull : Path.hasNull project = false) (reader : Reader) (schema : Option Schema)
    (checksum : Option Text) :
    (scanWith reader schema checksum w project).value =
      .ok (reportOf reader schema checksum (foundFiles w project name)) := by
  have hread : ((((found w project name).filter fun f =>
      w.disk.reaches (searched w project name) f.below).map (·.path)).map
        (readFile reader schema w)).flatMap (·.1) =
      (foundFiles w project name).flatMap (entriesOf reader schema) := by
    rw [foundFiles, List.map_map, List.flatMap_map, List.flatMap_map, flatMap_filter_eq]
    · refine List.flatMap_congr fun f hf => ?_
      obtain ⟨content, hfile⟩ := (mem_found_iff hsound).mp hf
      rw [hfile.held]
      exact readFile_eq_entriesOf hsound hfile
    · intro f hf hreach
      obtain ⟨content, hfile⟩ := (mem_found_iff hsound).mp hf
      exact (readFile_eq_entriesOf hsound hfile).trans
        (entriesOf_of_not_reaches hsound hfile hreach reader schema)
  rw [scanWith, modelFiles_eq_found hname hnull]
  change Except.ok (Model.Report.ofEntries (List.flatMap _ _) checksum) = _
  rw [hread, reportOf]
  exact congrArg Except.ok
    (congrArg (Model.Report.mk _ · checksum) (Model.Report.ofEntries_relationships _ checksum))

/-- A scan comes by a schema and a checksum, and leaves the files as they are. -/
def Finds (memo : Option Memo) (w : World) (project : Text) (schema : Option Schema)
    (checksum : Option Text) : Prop :=
  ∃ m notices,
    readSchema (memo.getD { root := some project }) w = ⟨w, (m, .ok schema), notices⟩ ∧
      (readChecksum m w schema).value.2 = .ok checksum

theorem Finds.of_file {memo : Option Memo} {path : Text} {data : ByteArray}
    (hschema : (memo.getD { root := some project }).schema = .empty)
    (hchecksum : (memo.getD { root := some project }).checksum = .empty)
    (hpath : ((memo.getD { root := some project }).path w).value = .ok (some path))
    (hnull : Path.hasNull path = false) (hread : w.disk.read path = .ok data) :
    Finds memo w project
      (some ⟨Dump.tables (Text.decode .utf8 data), some path,
        w.settings.versionFor (w.settings.versionFor none)⟩) (some (Digest.sha1 data)) := by
  rw [Finds]
  set m := memo.getD { root := some project }
  have hvalue := Memo.currentSchema_of_file hpath hnull hread (w.settings.versionFor none)
  have hworld : (m.readSchema w none).world = w :=
    Memo.NeedsNoDatabase.readSchema_world (fun hnone => by cases hpath.symm.trans hnone) none
  rw [readSchema, Outcome.andThen, hworld, Memo.readSchema_of_empty hschema, Outcome.map, hvalue]
  refine ⟨_, _, rfl, ?_⟩
  exact (Slot.answer_of_empty hchecksum).trans (Memo.currentChecksum_of_file hpath hnull hread)

/-- A project that can be scanned, with the schema and the checksum that the scan comes by. -/
structure CanScan (memo : Option Memo) (w : World) (project name : Text) (schema : Option Schema)
    (checksum : Option Text) : Prop where
  sound : w.disk.Sound
  modelsDirectory : w.settings.modelsDirectory = some name
  not_null : Path.hasNull project = false
  finds : Finds memo w project schema checksum

theorem CanScan.scan_eq {memo : Option Memo} {schema : Option Schema} {checksum : Option Text}
    (h : CanScan memo w project name schema checksum) (reader : Reader) :
    (scan reader memo w project).value.2 =
      .ok (reportOf reader schema checksum (foundFiles w project name)) := by
  obtain ⟨m, notices, hschema, hchecksum⟩ := h.finds
  rw [← scanWith_eq_reportOf h.sound h.modelsDirectory h.not_null]
  have hworld := world_readChecksum m w schema
  rw [scan, hschema, Outcome.andThen]
  dsimp only
  rw [Outcome.andThen, hworld]
  cases hread : (readChecksum m w schema).value with
  | mk m' result =>
    rw [hread] at hchecksum
    dsimp only at hchecksum
    subst hchecksum
    rfl

/-! ### The schema of a scan -/

theorem Finds.of_seekAlike {memo : Option Memo} {w w' : World} {schema : Option Schema}
    {checksum : Option Text} (h : Finds memo w project schema checksum)
    (halike : (memo.getD { root := some project }).SeekAlike w w')
    (hdatabase : (memo.getD { root := some project }).NeedsNoDatabase w) :
    Finds memo w' project schema checksum := by
  obtain ⟨m', notices, hread, hchecksum⟩ := h
  set m := memo.getD { root := some project }
  have hvalue := readSchema_value_congr (halike.readSchema_value_eq hdatabase none)
  have hworld := readSchema_world m w'
  have hmemo := readSchema_memo m w
  rw [(halike.needsNoDatabase hdatabase).readSchema_world] at hworld
  rw [hread] at hvalue hmemo
  cases hnow : readSchema m w' with
  | mk world value notices' =>
    rw [hnow] at hvalue hworld
    cases hvalue
    cases hworld
    refine ⟨m', notices', hnow, ?_⟩
    have halike' := halike.of_readSchema none
    rw [← hmemo] at halike'
    cases schema with
    | none => exact hchecksum
    | some schema =>
      rw [readChecksum] at hchecksum ⊢
      rw [← hchecksum, halike'.readChecksum_value_eq]

/-! ### Two projects -/

theorem eq_append_of_pairwise {files : List (Text × Content)} (path : Text)
    (h : files.Pairwise fun f g => f.1.Before g.1) :
    files = files.filter (fun f => f.1.Before path) ++ files.filter (fun f => f.1 = path) ++
      files.filter fun f => path.Before f.1 := by
  induction files with
  | nil => rfl
  | cons f files ih =>
    obtain ⟨hf, hfiles⟩ := List.pairwise_cons.mp h
    by_cases hbefore : f.1.Before path
    · have hne : f.1 ≠ path := hbefore.2
      simp only [List.filter_cons, hbefore, hne, hbefore.asymm, decide_true, decide_false, if_true,
        Bool.false_eq_true, if_false, List.cons_append]
      exact congrArg (f :: ·) (ih hfiles)
    · -- all that follow stand behind the path
      have hbehind : ∀ g ∈ files, path.Before g.1 := fun g hg => by
        by_cases heq : f.1 = path
        · exact heq ▸ hf g hg
        · exact ((Text.before_or_before heq).resolve_left hbefore).trans (hf g hg)
      have hnil : files.filter (fun g => g.1.Before path) = [] :=
        List.filter_eq_nil_iff.mpr fun g hg => by simpa using (hbehind g hg).asymm
      have hnil' : files.filter (fun g => g.1 = path) = [] :=
        List.filter_eq_nil_iff.mpr fun g hg => by simpa using (hbehind g hg).2.symm
      have hall : files.filter (fun g => path.Before g.1) = files :=
        List.filter_eq_self.mpr fun g hg => by simpa using hbehind g hg
      by_cases heq : f.1 = path
      · subst heq
        simp [hbefore, hnil, hnil', hall]
      · have hpath := (Text.before_or_before heq).resolve_left hbefore
        simp [hbefore, heq, hpath, hnil, hnil', hall]

theorem eq_of_pairwise_of_mem_iff {files files' : List (Text × Content)}
    (h : files.Pairwise fun f g => f.1.Before g.1) (h' : files'.Pairwise fun f g => f.1.Before g.1)
    (hmem : ∀ f, f ∈ files ↔ f ∈ files') : files = files' := by
  have hne : ∀ {f g : Text × Content}, f.1.Before g.1 → f ≠ g :=
    fun hbefore heq => hbefore.2 (congrArg Prod.fst heq)
  have hperm := (List.perm_ext_iff_of_nodup (h.imp hne) (h'.imp hne)).mpr hmem
  exact hperm.eq_of_pairwise (fun f g _ _ hfg hgf => absurd hgf hfg.asymm) h h'

/-- Two worlds in which the same files stand below the directory in which models are looked for, but for
one place. -/
structure DifferAt (w w' : World) (project name : Text) (below : List Text) : Prop where
  sameDirectory : (w.disk.folder? (Path.join project name)).isSome =
    (w'.disk.folder? (Path.join project name)).isSome
  others : ∀ other, other ≠ below → w.disk.fileBelow? (searched w project name) other =
    w'.disk.fileBelow? (searched w' project name) other

variable {w' : World} {below : List Text}

theorem DifferAt.searched_eq (h : DifferAt w w' project name below) :
    searched w project name = searched w' project name := by
  rw [searched, searched, h.sameDirectory]

theorem DifferAt.isModelFile_iff (h : DifferAt w w' project name below) {other : List Text}
    {path : Text} {content : Content} (hother : other ≠ below) :
    IsModelFile w project name other path content ↔ IsModelFile w' project name other path content := by
  have hnone : w.disk.folder? (Path.join project name) = none ↔
      w'.disk.folder? (Path.join project name) = none := by
    rw [← Option.not_isSome_iff_eq_none, ← Option.not_isSome_iff_eq_none, h.sameDirectory]
  constructor
  · rintro ⟨hpath, hheld, hruby, hentered, hmentions⟩
    exact ⟨h.searched_eq ▸ hpath, h.others other hother ▸ hheld, hruby, hentered,
      fun hw => hmentions (hnone.mpr hw)⟩
  · rintro ⟨hpath, hheld, hruby, hentered, hmentions⟩
    exact ⟨h.searched_eq ▸ hpath, h.others other hother ▸ hheld, hruby, hentered,
      fun hw => hmentions (hnone.mp hw)⟩

theorem DifferAt.mem_foundFiles_iff (h : DifferAt w w' project name below) (hsound : w.disk.Sound)
    (hsound' : w'.disk.Sound) {file : Text × Content}
    (hpath : file.1 ≠ below.foldl Path.join (searched w project name)) :
    file ∈ foundFiles w project name ↔ file ∈ foundFiles w' project name := by
  obtain ⟨path, content⟩ := file
  rw [(areModelFiles_foundFiles hsound).complete, (areModelFiles_foundFiles hsound').complete]
  refine exists_congr fun other => ?_
  by_cases hother : other = below
  · subst hother
    refine iff_of_false (fun hfile => hpath hfile.path_eq) fun hfile => hpath ?_
    rw [h.searched_eq]
    exact hfile.path_eq
  · exact h.isModelFile_iff hother

theorem DifferAt.foundFiles_eq (h : DifferAt w w' project name below) (hsound : w.disk.Sound)
    (hsound' : w'.disk.Sound) :
    ∃ before mine mine' after,
      foundFiles w project name = before ++ mine ++ after ∧
      foundFiles w' project name = before ++ mine' ++ after ∧
      (∀ f ∈ mine ++ mine', f.1 = below.foldl Path.join (searched w project name)) ∧
      ∀ f ∈ before ++ after, f.1 ≠ below.foldl Path.join (searched w project name) := by
  set path := below.foldl Path.join (searched w project name) with hpath
  set files := foundFiles w project name with hfiles
  set files' := foundFiles w' project name with hfiles'
  have hsorted : files.Pairwise _ := (areModelFiles_foundFiles hsound).ordered
  have hsorted' : files'.Pairwise _ := (areModelFiles_foundFiles hsound').ordered
  have hmem : ∀ {f : Text × Content}, f.1 ≠ path → (f ∈ files ↔ f ∈ files') :=
    h.mem_foundFiles_iff hsound hsound'
  have hbefore : files.filter (fun f => f.1.Before path) = files'.filter (fun f => f.1.Before path) := by
    refine eq_of_pairwise_of_mem_iff (hsorted.filter _) (hsorted'.filter _) fun f => ?_
    simp only [List.mem_filter, decide_eq_true_eq]
    exact and_congr_left fun hf => hmem hf.2
  have hafter : files.filter (fun f => path.Before f.1) = files'.filter (fun f => path.Before f.1) := by
    refine eq_of_pairwise_of_mem_iff (hsorted.filter _) (hsorted'.filter _) fun f => ?_
    simp only [List.mem_filter, decide_eq_true_eq]
    exact and_congr_left fun hf => hmem hf.2.symm
  refine ⟨_, files.filter (fun f => f.1 = path), files'.filter (fun f => f.1 = path), _,
    eq_append_of_pairwise path hsorted, ?_, ?_, ?_⟩
  · rw [hbefore, hafter]
    exact eq_append_of_pairwise path hsorted'
  · intro f hf
    simp only [List.mem_append, List.mem_filter, decide_eq_true_eq] at hf
    rcases hf with hf | hf <;> exact hf.2
  · intro f hf
    simp only [List.mem_append, List.mem_filter, decide_eq_true_eq] at hf
    rcases hf with hf | hf
    · exact hf.2.2
    · exact hf.2.2.symm

/-- The models and the edges of a project come file by file, in the order of the paths, each from what its
file holds. A schema comes from the bytes of its file, and in two projects with the same schema that differ
at one path all other files have the same entries and edges, in the same order. -/
theorem files_are_scanned_on_their_own (reader : Reader) :
    (∀ memo w project name schema checksum, CanScan memo w project name schema checksum →
      ∃ files, AreModelFiles w project name files ∧
        (scan reader memo w project).value.2 = .ok (reportOf reader schema checksum files)) ∧
    (∀ memo w w' project schema checksum, Finds memo w project schema checksum →
      (memo.getD { root := some project }).SeekAlike w w' →
      (memo.getD { root := some project }).NeedsNoDatabase w → Finds memo w' project schema checksum) ∧
    ∀ memo memo' w w' project name schema checksum checksum' below,
      CanScan memo w project name schema checksum → CanScan memo' w' project name schema checksum' →
      DifferAt w w' project name below →
      let edges := fun entries : List Model.Entry => entries.flatMap Model.Entry.relationships
      let path := below.foldl Path.join (searched w project name)
      ∃ before mine mine' after,
        (scan reader memo w project).value.2 =
          .ok ⟨before ++ mine ++ after, edges before ++ edges mine ++ edges after, checksum⟩ ∧
        (scan reader memo' w' project).value.2 =
          .ok ⟨before ++ mine' ++ after, edges before ++ edges mine' ++ edges after, checksum'⟩ ∧
        (∀ e ∈ mine ++ mine', e.sourceFile = path) ∧ ∀ e ∈ before ++ after, e.sourceFile ≠ path := by
  refine ⟨?_, fun memo w w' project schema checksum h => h.of_seekAlike, ?_⟩
  · intro memo w project name schema checksum h
    exact ⟨_, areModelFiles_foundFiles h.sound, h.scan_eq reader⟩
  · intro memo memo' w w' project name schema checksum checksum' below h h' hdiffer edges path
    obtain ⟨before, mine, mine', after, hfiles, hfiles', hmine, hothers⟩ :=
      hdiffer.foundFiles_eq h.sound h'.sound
    have hsource : ∀ {files : List (Text × Content)} {e}, e ∈ files.flatMap (entriesOf reader schema) →
        ∃ f ∈ files, e.sourceFile = f.1 := fun he => by
      obtain ⟨f, hf, he⟩ := List.mem_flatMap.mp he
      exact ⟨f, hf, sourceFile_of_mem_entriesOf he⟩
    refine ⟨before.flatMap (entriesOf reader schema), mine.flatMap (entriesOf reader schema),
      mine'.flatMap (entriesOf reader schema), after.flatMap (entriesOf reader schema), ?_, ?_, ?_, ?_⟩
    · rw [h.scan_eq reader, hfiles, reportOf]
      simp only [List.flatMap_append, edges]
    · rw [h'.scan_eq reader, hfiles', reportOf]
      simp only [List.flatMap_append, edges]
    · rw [← List.flatMap_append]
      intro e he
      obtain ⟨f, hf, heq⟩ := hsource he
      exact heq.trans (hmine f hf)
    · rw [← List.flatMap_append]
      intro e he
      obtain ⟨f, hf, heq⟩ := hsource he
      exact heq ▸ hothers f hf

def recordTree (name : String) : Syntax.Tree :=
  ⟨Model.plainNode "program" none ("class " ++ name ++ " < ApplicationRecord")
    [Model.plainNode "class" none ("class " ++ name ++ " < ApplicationRecord")
      [Model.plainNode "constant" (some "name") name [],
        Model.plainNode "superclass" (some "superclass") "< ApplicationRecord"
          [Model.plainNode "constant" none "ApplicationRecord" []]]], false⟩

def recordReader : Reader := fun source =>
  recordTree (if "class Tag".toList.isPrefixOf source then "Tag" else "Post")

def postFile : Files.Entry :=
  .file "post.rb".toList (.bytes "class Post < ApplicationRecord\nend\n".toUTF8)

/-- A world with a dump at `/db/schema.rb`, a model file at `/app/models/post.rb`, and others beside it. -/
def postWorld (others : List Files.Entry) : World where
  disk := { entries := [.folder "db".toList [.file "schema.rb".toList (.bytes usersDump)],
    .folder "app".toList [.folder "models".toList (postFile :: others)]] }

def tagFile : Files.Entry :=
  .file "tag.rb".toList (.bytes "class Tag < ApplicationRecord\nend\n".toUTF8)

theorem canScan_postWorld {others : List Files.Entry} (h : Entry.Sound others)
    (hnew : "post.rb".toList ∉ others.map Entry.name) :
    CanScan none (postWorld others) ['/'] "app/models".toList (some usersSchema)
      (some (Digest.sha1 usersDump)) := by
  refine ⟨?_, rfl, rfl, .of_file rfl rfl rfl (by decide) rfl⟩
  have hmodels : Entry.Sound (postFile :: others) := h.cons_file (by decide) hnew
  have happ : Entry.Sound [.folder "models".toList (postFile :: others)] :=
    Entry.sound_nil.cons_folder (by decide) List.not_mem_nil hmodels
  have htop : Entry.Sound [.folder "app".toList [.folder "models".toList (postFile :: others)]] :=
    Entry.sound_nil.cons_folder (by decide) List.not_mem_nil happ
  refine htop.cons_folder (by decide) (fun hmem => ?_) (Entry.sound_nil.cons_file (by decide) List.not_mem_nil)
  have hname : "db".toList ≠ "app".toList := by decide
  exact hname (List.mem_singleton.mp hmem)

theorem differAt_postWorld :
    DifferAt (postWorld [tagFile]) (postWorld []) ['/'] "app/models".toList ["tag.rb".toList] := by
  have hfolder : ∀ others, (postWorld others).disk.folder?
      (searched (postWorld others) ['/'] "app/models".toList) =
        some ⟨postFile :: others, false⟩ := fun _ => rfl
  refine ⟨rfl, fun other hother => ?_⟩
  rw [Disk.fileBelow?, Disk.fileBelow?, hfolder, hfolder, Option.bind_some, Option.bind_some]
  cases other with
  | nil => rfl
  | cons name names =>
    rw [Entry.fileAt?_cons, Entry.fileAt?_cons]
    by_cases htag : name = "tag.rb".toList
    · subst htag
      have hnames : names ≠ [] := fun hnil => hother (congrArg _ hnil)
      have hfound : Entry.find? "tag.rb".toList [postFile, tagFile] = some tagFile := rfl
      rw [hfound, tagFile]
      simp only [if_neg hnames]
      rfl
    · have hnot : Entry.find? name [tagFile] = none :=
        List.find?_eq_none.mpr fun e he heq => htag (List.mem_singleton.mp he ▸ beq_iff_eq.mp heq).symm
      have hfind : Entry.find? name [postFile, tagFile] = Entry.find? name [postFile] := by
        change List.find? _ ([postFile] ++ [tagFile]) = _
        rw [List.find?_append]
        exact (congrArg _ hnot).trans (Option.or_none ..)
      rw [hfind]

theorem seekAlike_postWorld :
    Memo.SeekAlike { root := some ['/'] } (postWorld [tagFile]) (postWorld []) := by
  refine ⟨rfl, rfl, fun path hpath => ?_⟩
  have hsought : Memo.soughtPaths { root := some ['/'] } (postWorld [tagFile]) =
      ["/db/schema.rb".toList] := rfl
  rw [hsought] at hpath
  rw [List.mem_singleton.mp hpath]
  rfl

theorem exists_entry_tagFile : ∃ e ∈ entriesOf recordReader (some usersSchema)
    ("/app/models/tag.rb".toList, .bytes "class Tag < ApplicationRecord\nend\n".toUTF8),
      e.name = "Tag".toList := by
  have hnames : (entriesOf recordReader (some usersSchema) ("/app/models/tag.rb".toList,
      .bytes "class Tag < ApplicationRecord\nend\n".toUTF8)).map (·.name) = ["Tag".toList] := rfl
  exact List.mem_map.mp (hnames ▸ List.mem_singleton_self _)

/-- Without the file of the tag the schema is the same, and only the entry of the tag is missing. -/
theorem scan_postWorld :
    let edges := fun entries : List Model.Entry => entries.flatMap Model.Entry.relationships
    let checksum := some (Digest.sha1 usersDump)
    Finds none (postWorld []) ['/'] (some usersSchema) checksum ∧
    ∃ before mine mine' after,
      (scan recordReader none (postWorld [tagFile]) ['/']).value.2 =
        .ok ⟨before ++ mine ++ after, edges before ++ edges mine ++ edges after, checksum⟩ ∧
      (scan recordReader none (postWorld []) ['/']).value.2 =
        .ok ⟨before ++ mine' ++ after, edges before ++ edges mine' ++ edges after, checksum⟩ ∧
      (∃ e ∈ mine, e.name = "Tag".toList) ∧
      (∀ e ∈ mine ++ mine', e.sourceFile = "/app/models/tag.rb".toList) ∧
      ∀ e ∈ before ++ after, e.sourceFile ≠ "/app/models/tag.rb".toList := by
  have htag : CanScan none (postWorld [tagFile]) ['/'] "app/models".toList (some usersSchema)
      (some (Digest.sha1 usersDump)) :=
    canScan_postWorld (Entry.sound_nil.cons_file (by decide) List.not_mem_nil) (by decide)
  have hpost : CanScan none (postWorld []) ['/'] "app/models".toList (some usersSchema)
      (some (Digest.sha1 usersDump)) := canScan_postWorld Entry.sound_nil List.not_mem_nil
  obtain ⟨hfiles, hfinds, hreports⟩ := files_are_scanned_on_their_own recordReader
  refine ⟨?_, ?_⟩
  · exact hfinds none (postWorld [tagFile]) (postWorld []) ['/'] (some usersSchema)
      (some (Digest.sha1 usersDump)) htag.finds seekAlike_postWorld fun _ => ⟨rfl, rfl⟩
  · obtain ⟨before, mine, mine', after, hscan, hscan', hmine, hothers⟩ :=
      hreports none none (postWorld [tagFile]) (postWorld []) ['/'] "app/models".toList
        (some usersSchema) _ _ ["tag.rb".toList] htag hpost differAt_postWorld
    refine ⟨before, mine, mine', after, hscan, hscan', ?_, hmine, hothers⟩
    obtain ⟨files, hall, hreport⟩ := hfiles none (postWorld [tagFile]) ['/'] _ _ _ htag
    obtain ⟨e, he, hname⟩ := exists_entry_tagFile
    have hfile : IsModelFile (postWorld [tagFile]) ['/'] "app/models".toList ["tag.rb".toList]
        "/app/models/tag.rb".toList (.bytes "class Tag < ApplicationRecord\nend\n".toUTF8) :=
      ⟨rfl, rfl, ⟨_, rfl, by decide⟩, List.forall_mem_nil _, fun hnone => by cases hnone⟩
    have hmem : e ∈ before ++ mine ++ after := by
      have hmodels : files.flatMap (entriesOf recordReader (some usersSchema)) = before ++ mine ++ after :=
        congrArg Model.Report.models (Except.ok.inj (hreport.symm.trans hscan))
      rw [← hmodels]
      exact List.mem_flatMap.mpr ⟨_, (hall.complete _ _).mpr ⟨_, hfile⟩, he⟩
    have hnot : e ∉ before ++ after := fun h => hothers e h (sourceFile_of_mem_entriesOf he)
    simp only [List.mem_append, not_or] at hmem hnot
    exact ⟨e, (hmem.resolve_right hnot.2).resolve_left hnot.1, hname⟩

end RecordMap.Project
