import RecordMap.Proofs.Schema.Sources

/-! One source for the schema and for the checksum. Both calls select the same file by the same rule, and
read it or fail together, unless there is a path on the way that a disk cannot be asked for. -/

namespace RecordMap

namespace Files.Disk

variable {d : Disk}

theorem firstFile_eq_find? {paths : List Text}
    (h : ∀ path ∈ paths.takeWhile (!d.isFile ·), d.canAsk path = true) :
    d.firstFile paths = .ok (paths.find? d.isFile) := by
  induction paths with
  | nil => rfl
  | cons path paths ih =>
    rw [List.find?_cons]
    cases hfile : d.isFile path with
    | true => exact firstFile_of_isFile hfile paths
    | false =>
      rw [List.takeWhile_cons_of_pos (by rw [hfile]; rfl), List.forall_mem_cons] at h
      exact (firstFile_of_canAsk hfile h.1 paths).trans (ih h.2)

theorem firstFile_eq_error {paths : List Text}
    (h : ¬ ∀ path ∈ paths.takeWhile (!d.isFile ·), d.canAsk path = true) :
    ∃ e, d.firstFile paths = .error e := by
  induction paths with
  | nil => exact absurd (List.forall_mem_nil _) h
  | cons path paths ih =>
    cases hfile : d.isFile path with
    | true =>
      rw [List.takeWhile_cons_of_neg (by rw [hfile]; decide)] at h
      exact absurd (List.forall_mem_nil _) h
    | false =>
      rw [List.takeWhile_cons_of_pos (by rw [hfile]; rfl), List.forall_mem_cons, not_and] at h
      cases hask : d.canAsk path with
      | true =>
        obtain ⟨e, herror⟩ := ih (h hask)
        exact ⟨e, (firstFile_of_canAsk hfile hask paths).trans herror⟩
      | false =>
        obtain ⟨fault, herror⟩ := firstFile_of_not_canAsk hask paths
        exact ⟨_, herror⟩

end Files.Disk

namespace Schema

/-- Where the schema file of each directory from a start upwards lies, the nearest first. -/
def pathsUpward (here : List Text) (start : Text) : List Text :=
  let names := Files.Path.absoluteParts here start
  Files.Path.ofParts (Files.Path.anchor start) (Files.Path.parts start ++ fileName) ::
    (List.range names.length).reverse.map fun n =>
      Files.Path.ofParts ['/'] (names.take n ++ fileName)

theorem parents_eq_map_take {α : Type} (as : List α) :
    parents as = (List.range as.length).reverse.map as.take := by
  induction as with
  | nil => rfl
  | cons a as ih =>
    rw [parents, ih, List.length_cons, List.range_succ_eq_map, List.reverse_cons, List.map_append,
      ← List.map_reverse, List.map_map, List.map_map]
    rfl

theorem candidates_eq_pathsUpward (here : List Text) (start : Text) :
    candidates here start = pathsUpward here start := by
  rw [candidates, parents_eq_map_take, List.map_map]
  rfl

namespace Memo

/-- The schema file: the memo's own, or that of the settings, or the nearest from the start upwards. -/
def sourceFile? (m : Memo) (w : World) : Option Text :=
  (given? m.schemaPath).or
    ((configured? w).or ((pathsUpward w.disk.here (m.start w)).find? w.disk.isFile))

/-- Where no file is named, all paths upwards can be asked for as far as the first file. -/
def CanSearch (m : Memo) (w : World) : Prop :=
  given? m.schemaPath = none → configured? w = none →
    Files.Path.hasNull (m.start w) = false ∧
      ∀ path ∈ (pathsUpward w.disk.here (m.start w)).takeWhile (!w.disk.isFile ·),
        w.disk.canAsk path = true

/-- The schema file can be searched for, and be opened by its name. -/
structure InReach (m : Memo) (w : World) : Prop where
  canSearch : m.CanSearch w
  not_null : ∀ path, m.sourceFile? w = some path → Files.Path.hasNull path = false

abbrev Answers := Except (Failure LoadError) (Option Schema) × Except (Failure LoadError) (Option Text)

def schemaFirst (m : Memo) (w : World) (target : Option Text) : Answers :=
  let schema := m.readSchema w target
  (schema.value.2, (schema.value.1.readChecksum w).value.2)

def checksumFirst (m : Memo) (w : World) (target : Option Text) : Answers :=
  let checksum := m.readChecksum w
  ((checksum.value.1.readSchema w target).value.2, checksum.value.2)

/-- The answers by which a file is read, or is found to be unreadable. -/
def AreOfFile (w : World) (path : Text) (answers : Answers) : Prop :=
  (∃ data schema, w.disk.read path = .ok data ∧
    answers = (.ok (some schema), .ok (some (Digest.sha1 data))) ∧
    schema.source = some path ∧ schema.tables = Dump.tables (Text.decode .utf8 data)) ∨
  answers = (.error (.cause (.unreadable path)), .error (.cause (.unreadable path)))

/-- What a database answers if one is named, and otherwise that there is no schema. -/
def databaseAnswer (m : Memo) (w : World) (target : Option Text) :
    Except (Failure LoadError) (Option Schema) :=
  match (given? m.databaseUrl).or (given? w.settings.databaseUrl) with
  | some url => (ofDatabase w url target).value.map some
  | none => .ok none

/-- Both calls are about one source. A file leaves it open which databases are named. -/
structure ShareSource (calls : Memo → World → Option Text → Answers) (m : Memo) (w : World) : Prop where
  ofFile : ∀ path target, m.sourceFile? w = some path → AreOfFile w path (calls m w target)
  noDatabase : ∀ path target, m.sourceFile? w = some path → ∀ url url',
    calls { m with databaseUrl := url } { w with settings.databaseUrl := url' } target = calls m w target
  ofNoFile : ∀ target, m.sourceFile? w = none →
    calls m w target = (m.databaseAnswer w (w.settings.versionFor target), .ok none)

variable {m : Memo} {w : World}

/-! ### The file that is selected -/

theorem path_of_canSearch (h : m.CanSearch w) : (m.path w).value = .ok (m.sourceFile? w) := by
  rw [path_value_eq, sourceFile?]
  cases hown : given? m.schemaPath with
  | some path => rfl
  | none =>
    cases hconfigured : configured? w with
    | some path => rfl
    | none =>
      obtain ⟨hnull, hask⟩ := h hown hconfigured
      dsimp only
      rw [search]
      dsimp only
      rw [← start, hnull, candidates_eq_pathsUpward, Files.Disk.firstFile_eq_find? hask]
      rfl

theorem path_of_not_canSearch (h : ¬ m.CanSearch w) :
    ∃ i, (m.path w).value = .error (.interrupted i) := by
  obtain ⟨hown, hconfigured, hask⟩ : given? m.schemaPath = none ∧ configured? w = none ∧
      ¬ (Files.Path.hasNull (m.start w) = false ∧
        ∀ path ∈ (pathsUpward w.disk.here (m.start w)).takeWhile (!w.disk.isFile ·),
          w.disk.canAsk path = true) := by
    simpa only [CanSearch, Classical.not_imp] using h
  rw [path_value_eq, hown, hconfigured]
  dsimp only
  rw [search]
  dsimp only
  rw [← start, candidates_eq_pathsUpward]
  cases hnull : Files.Path.hasNull (m.start w) with
  | true => exact ⟨_, rfl⟩
  | false =>
    obtain ⟨e, hfirst⟩ := Files.Disk.firstFile_eq_error fun hall => hask ⟨hnull, hall⟩
    rw [hfirst]
    exact ⟨_, rfl⟩

/-! ### The two calls -/

def freshAnswers (m : Memo) (w : World) (target : Option Text) : Answers :=
  ((m.currentSchema w (w.settings.versionFor target)).value, (m.currentChecksum w).value)

/-- The slots do not depend on each other, so the order of the calls makes no difference. -/
theorem schemaFirst_eq (hschema : m.schema = .empty) (hchecksum : m.checksum = .empty)
    (target : Option Text) : m.schemaFirst w target = m.freshAnswers w target :=
  Prod.ext (Slot.answer_of_empty hschema) (Slot.answer_of_empty hchecksum)

theorem checksumFirst_eq (hschema : m.schema = .empty) (hchecksum : m.checksum = .empty)
    (target : Option Text) : m.checksumFirst w target = m.freshAnswers w target :=
  Prod.ext (Slot.answer_of_empty hschema) (Slot.answer_of_empty hchecksum)

theorem freshAnswers_of_file {path : Text} (h : m.InReach w) (hfile : m.sourceFile? w = some path)
    (target : Option Text) :
    m.freshAnswers w target =
      match w.disk.read path with
      | .ok data =>
        (.ok (some ⟨Dump.tables (Text.decode .utf8 data), some path,
            w.settings.versionFor (w.settings.versionFor target)⟩),
          .ok (some (Digest.sha1 data)))
      | .error _ => (.error (.cause (.unreadable path)), .error (.cause (.unreadable path))) := by
  have hpath := path_of_canSearch h.canSearch
  rw [hfile] at hpath
  have hnull := h.not_null path hfile
  rw [freshAnswers, currentSchema_of_path hpath, currentChecksum_of_path hpath, ofFile_value w hnull,
    digestOf_value w hnull]
  cases w.disk.read path <;> rfl

theorem freshAnswers_of_no_file (h : m.InReach w) (hfile : m.sourceFile? w = none)
    (target : Option Text) :
    m.freshAnswers w target = (m.databaseAnswer w (w.settings.versionFor target), .ok none) := by
  have hpath := path_of_canSearch h.canSearch
  rw [hfile] at hpath
  rw [freshAnswers, currentChecksum_of_no_file hpath, currentSchema, Attempt.andThen_of_ok hpath,
    path_world, databaseAnswer]
  dsimp only
  cases given? m.databaseUrl with
  | some url => rfl
  | none => cases given? w.settings.databaseUrl <;> rfl

theorem freshAnswers_of_not_inReach (h : ¬ m.InReach w) (target : Option Text) :
    ∃ i, m.freshAnswers w target = (.error (.interrupted i), .error (.interrupted i)) := by
  by_cases hsearch : m.CanSearch w
  · obtain ⟨path, hfile, hnull⟩ : ∃ path, m.sourceFile? w = some path ∧
        Files.Path.hasNull path = true := by
      by_contra hall
      exact h ⟨hsearch, fun path hfile =>
        Bool.eq_false_iff.mpr fun hnull => hall ⟨path, hfile, hnull⟩⟩
    have hpath := path_of_canSearch hsearch
    rw [hfile] at hpath
    refine ⟨.nullInPath, ?_⟩
    rw [freshAnswers, currentSchema_of_path hpath, currentChecksum_of_path hpath,
      ofFile_value_of_null w hnull, digestOf_value_of_null w hnull]
    rfl
  · obtain ⟨i, hpath⟩ := path_of_not_canSearch hsearch
    refine ⟨i, ?_⟩
    rw [freshAnswers, currentSchema, currentChecksum, Attempt.andThen_of_error hpath,
      Attempt.andThen_of_error hpath]

/-! ### Both calls and their source -/

theorem shareSource_of_inReach {calls : Memo → World → Option Text → Answers}
    (hcalls : ∀ m w target, m.schema = .empty → m.checksum = .empty →
      calls m w target = m.freshAnswers w target)
    (hschema : m.schema = .empty) (hchecksum : m.checksum = .empty) (h : m.InReach w) :
    ShareSource calls m w := by
  refine ⟨fun path target hfile => ?_, fun path target hfile url url' => ?_, fun target hfile => ?_⟩
  · rw [hcalls m w target hschema hchecksum, freshAnswers_of_file h hfile]
    cases hread : w.disk.read path with
    | ok data => exact .inl ⟨data, _, hread, rfl, rfl, rfl⟩
    | error fault => exact .inr rfl
  · -- the databases play no part in the selection of the file
    have h' : InReach { m with databaseUrl := url } { w with settings.databaseUrl := url' } :=
      ⟨h.canSearch, h.not_null⟩
    have hanswers := hcalls { m with databaseUrl := url } { w with settings.databaseUrl := url' } target
      hschema hchecksum
    rw [hcalls m w target hschema hchecksum, hanswers, freshAnswers_of_file h hfile,
      freshAnswers_of_file h' hfile]
    rfl
  · rw [hcalls m w target hschema hchecksum, freshAnswers_of_no_file h hfile]

theorem inReach_of_shareSource {calls : Memo → World → Option Text → Answers}
    (hcalls : ∀ m w target, m.schema = .empty → m.checksum = .empty →
      calls m w target = m.freshAnswers w target)
    (hschema : m.schema = .empty) (hchecksum : m.checksum = .empty) (h : ShareSource calls m w) :
    m.InReach w := by
  by_contra hreach
  obtain ⟨i, hanswers⟩ := freshAnswers_of_not_inReach hreach none
  rw [← hcalls m w none hschema hchecksum] at hanswers
  cases hfile : m.sourceFile? w with
  | some path =>
    rcases h.ofFile path none hfile with ⟨data, schema, _, heq, _⟩ | heq
    · rw [heq] at hanswers
      cases hanswers
    · rw [heq] at hanswers
      cases hanswers
  | none =>
    rw [h.ofNoFile none hfile] at hanswers
    cases congrArg Prod.snd hanswers

/-- Whichever call on a fresh memo comes first, both are about one source exactly where it is in reach.
Otherwise both are interrupted. -/
theorem shareSource_iff_inReach (m : Memo) (w : World) :
    (ShareSource schemaFirst m.reset w ∧ ShareSource checksumFirst m.reset w ↔ m.reset.InReach w) ∧
    (¬ m.reset.InReach w → ∀ target, ∃ i, ∀ calls ∈ [schemaFirst, checksumFirst],
      calls m.reset w target = (.error (.interrupted i), .error (.interrupted i))) := by
  have hschemaFirst : ∀ m w target, m.schema = .empty → m.checksum = .empty →
      schemaFirst m w target = m.freshAnswers w target := fun _ _ target h h' => schemaFirst_eq h h' target
  have hchecksumFirst : ∀ m w target, m.schema = .empty → m.checksum = .empty →
      checksumFirst m w target = m.freshAnswers w target :=
    fun _ _ target h h' => checksumFirst_eq h h' target
  refine ⟨⟨fun h => inReach_of_shareSource hschemaFirst rfl rfl h.1, fun h => ?_⟩, fun h target => ?_⟩
  · exact ⟨shareSource_of_inReach hschemaFirst rfl rfl h, shareSource_of_inReach hchecksumFirst rfl rfl h⟩
  · obtain ⟨i, hanswers⟩ := freshAnswers_of_not_inReach h target
    refine ⟨i, fun calls hcalls => ?_⟩
    simp only [List.mem_cons, List.not_mem_nil, or_false] at hcalls
    rcases hcalls with rfl | rfl
    · rw [hschemaFirst _ _ target rfl rfl, hanswers]
    · rw [hchecksumFirst _ _ target rfl rfl, hanswers]

/-- A directory named by a path that goes into it again and again. -/
def longRoot : Text := (List.replicate 817 "x/../".toList).flatten ++ ['x']

/-- A world with a dump above the directory `x`. -/
def aboveWorld : World where
  disk := { entries := [.folder "x".toList [],
    .folder "db".toList [.file "schema.rb".toList (.bytes Project.usersDump)]] }

/-- Both calls are interrupted by the path of the schema file that would lie in the directory. The one
above it is never reached. -/
theorem not_shareSource_longRoot :
    (aboveWorld.disk.folder? longRoot).isSome = true ∧
    sourceFile? { root := some longRoot } aboveWorld = some "/db/schema.rb".toList ∧
    ¬ ShareSource checksumFirst { root := some longRoot } aboveWorld := by
  refine ⟨by decide +kernel, by decide +kernel, fun h => ?_⟩
  have hreach := inReach_of_shareSource (fun _ _ target h h' => checksumFirst_eq h h' target) rfl rfl h
  have hask := (hreach.canSearch rfl rfl).2
  revert hask
  decide +kernel

end Memo

end Schema

end RecordMap
