import RecordMap.Proofs.Schema.Sources

/-! What a scan answers. It reports where nothing interrupts it. A schema that cannot be loaded is left out
of the report, but a checksum that cannot be read behind a schema from memory ends the scan. -/

namespace RecordMap.Project

open Schema (Memo)

/-! ### The calls of a scan -/

theorem readSchema_world (m : Memo) (w : World) :
    (readSchema m w).world = (m.readSchema w none).world := by
  rw [readSchema, Outcome.andThen]
  rcases (m.readSchema w none).value with ⟨m', (_ | _) | _⟩ <;> rfl

theorem readSchema_memo (m : Memo) (w : World) :
    (readSchema m w).value.1 = (m.readSchema w none).value.1 := by
  rw [readSchema, Outcome.andThen]
  rcases (m.readSchema w none).value with ⟨m', (_ | _) | _⟩ <;> rfl

theorem readSchema_value_congr {m : Memo} {w w' : World}
    (h : (m.readSchema w none).value = (m.readSchema w' none).value) :
    (readSchema m w).value = (readSchema m w').value := by
  rw [readSchema, readSchema, Outcome.andThen, Outcome.andThen, h]
  rcases (m.readSchema w' none).value with ⟨m', (_ | _) | _⟩ <;> rfl

theorem world_readChecksum (m : Memo) (w : World) (schema : Option Schema) :
    (readChecksum m w schema).world = w := by
  cases schema with
  | none => rfl
  | some schema => exact Memo.readChecksum_world m w

/-- What a scan knows of the schema and of its checksum when it looks for model files. A schema that cannot
be loaded is left out, a checksum that cannot be read is not. -/
def prepare (m : Memo) (w : World) : Except (Failure LoadError) (Option Schema × Option Text) :=
  let read := m.readSchema w none
  match read.value.2 with
  | .error (.interrupted i) => .error (.interrupted i)
  | .error (.cause _) | .ok none => .ok (none, none)
  | .ok (some schema) => (read.value.1.readChecksum read.world).value.2.map fun c => (some schema, c)

theorem scan_value (reader : Reader) (memo : Option Memo) (w : World) (project : Text) :
    (scan reader memo w project).value.2 =
      (prepare (memo.getD { root := some project }) w).bind fun known =>
        (scanWith reader known.1 known.2
          ((memo.getD { root := some project }).readSchema w none).world project).value := by
  rw [scan, Outcome.andThen, readSchema, Outcome.andThen, prepare]
  rcases (memo.getD { root := some project }).readSchema w none with ⟨w', ⟨m', (e | i) | schema⟩, notices⟩
  · rfl
  · rfl
  · cases schema with
    | none => rfl
    | some schema =>
      dsimp only
      rw [Outcome.andThen, world_readChecksum, readChecksum]
      rcases m'.readChecksum w' with ⟨_, ⟨_, failure | checksum⟩, _⟩ <;> rfl

theorem scanWith_value (reader : Reader) (schema : Option Schema) (checksum : Option Text) (w : World)
    (project : Text) :
    (∃ i, modelFiles w project = .error i ∧
        (scanWith reader schema checksum w project).value = .error (.interrupted i)) ∨
      ∃ paths, modelFiles w project = .ok paths ∧
        (scanWith reader schema checksum w project).value =
          .ok (reportOn reader schema checksum w paths).value := by
  rw [scanWith]
  cases modelFiles w project with
  | error i => exact .inl ⟨i, rfl, rfl⟩
  | ok paths => exact .inr ⟨paths, rfl, rfl⟩

/-- The schema is answered from memory, and its file, of which no checksum is known, cannot be read any
more. -/
structure IsStale (m : Memo) (w : World) (path : Text) : Prop where
  schema : ∃ schema, m.schema = .filled (some schema)
  checksum : m.checksum = .empty
  path_eq : (m.path w).value = .ok (some path)
  not_null : Files.Path.hasNull path = false
  unreadable : ∃ fault, w.disk.read path = .error fault

/-- No part of a scan is interrupted: the call for the schema, the one for its checksum, and the search for
model files. -/
structure Undisturbed (m : Memo) (w : World) (project : Text) : Prop where
  schema : ∀ i, (m.readSchema w none).value.2 ≠ .error (.interrupted i)
  checksum : ∀ schema i, (m.readSchema w none).value.2 = .ok (some schema) →
    ((m.readSchema w none).value.1.readChecksum (m.readSchema w none).world).value.2 ≠
      .error (.interrupted i)
  files : ∃ paths, modelFiles (m.readSchema w none).world project = .ok paths

/-- A scan reports. A checksum in the report is the one that the memo answers beside a schema. -/
def Reports (reader : Reader) (memo : Option Memo) (w : World) (project : Text) : Prop :=
  let read := (memo.getD { root := some project }).readSchema w none
  ∃ report, (scan reader memo w project).value.2 = .ok report ∧
    ∀ checksum, report.checksum = some checksum →
      (∃ schema, read.value.2 = .ok (some schema)) ∧
        (read.value.1.readChecksum read.world).value.2 = .ok (some checksum)

variable {m : Memo} {w : World} {project : Text}

theorem readChecksum_eq_error_iff {failure : Failure LoadError} :
    (m.readChecksum w).value.2 = .error failure ↔
      m.checksum = .empty ∧ (m.currentChecksum w).value = .error failure := Schema.Slot.answer_eq_error_iff

theorem readChecksum_eq_cause_iff {e : LoadError} :
    (∃ schema, (m.readSchema w none).value.2 = .ok (some schema)) ∧
      ((m.readSchema w none).value.1.readChecksum (m.readSchema w none).world).value.2 =
        .error (.cause e) ↔
    ∃ path, IsStale m w path ∧ e = .unreadable path := by
  cases hslot : m.schema with
  | filled found =>
    rw [Memo.readSchema_of_filled hslot]
    dsimp only
    rw [readChecksum_eq_error_iff, Memo.currentChecksum_eq_cause_iff]
    constructor
    · rintro ⟨⟨schema, hschema⟩, hempty, path, fault, hpath, hnull, hread, rfl⟩
      cases hschema
      exact ⟨path, ⟨⟨schema, hslot⟩, hempty, hpath, hnull, fault, hread⟩, rfl⟩
    · rintro ⟨path, hstale, rfl⟩
      obtain ⟨schema, hschema⟩ := hstale.schema
      obtain ⟨fault, hread⟩ := hstale.unreadable
      cases hslot.symm.trans hschema
      exact ⟨⟨schema, rfl⟩, hstale.checksum, path, fault, hstale.path_eq, hstale.not_null, hread, rfl⟩
  | empty =>
    refine iff_of_false ?_ ?_
    · rintro ⟨⟨schema, hschema⟩, hchecksum⟩
      have hcurrent : (m.currentSchema w (w.settings.versionFor none)).value = .ok (some schema) :=
        (Schema.Slot.answer_of_empty hslot).symm.trans hschema
      rw [Memo.readSchema_of_empty hslot, Outcome.map, hcurrent] at hchecksum
      refine Memo.currentChecksum_ne_cause_of_currentSchema hcurrent e ?_
      exact (readChecksum_eq_error_iff.mp hchecksum).2
    · rintro ⟨path, hstale, _⟩
      obtain ⟨schema, hschema⟩ := hstale.schema
      rw [hslot] at hschema
      cases hschema

theorem prepare_eq_cause_iff {e : LoadError} :
    prepare m w = .error (.cause e) ↔ ∃ path, IsStale m w path ∧ e = .unreadable path := by
  rw [← readChecksum_eq_cause_iff, prepare]
  rcases (m.readSchema w none).value.2 with (e' | i) | _ | schema
  · exact iff_of_false (fun h => by cases h) fun h => by cases h.1.choose_spec
  · exact iff_of_false (fun h => by cases h) fun h => by cases h.1.choose_spec
  · exact iff_of_false (fun h => by cases h) fun h => by cases h.1.choose_spec
  · dsimp only
    rw [and_iff_right ⟨schema, rfl⟩]
    cases ((m.readSchema w none).value.1.readChecksum (m.readSchema w none).world).value.2 with
    | error failure => exact ⟨fun h => by cases h; rfl, fun h => by cases h; rfl⟩
    | ok checksum => exact iff_of_false (fun h => by cases h) fun h => by cases h

theorem prepare_eq_interrupted_iff {i : Interruption} :
    prepare m w = .error (.interrupted i) ↔
      (m.readSchema w none).value.2 = .error (.interrupted i) ∨
        ∃ schema, (m.readSchema w none).value.2 = .ok (some schema) ∧
          ((m.readSchema w none).value.1.readChecksum (m.readSchema w none).world).value.2 =
            .error (.interrupted i) := by
  rw [prepare]
  rcases (m.readSchema w none).value.2 with (e | i') | _ | schema
  · simp
  · simp
  · simp
  · dsimp only
    cases ((m.readSchema w none).value.1.readChecksum (m.readSchema w none).world).value.2 with
    | error failure => simp [Except.map]
    | ok checksum => simp [Except.map]

theorem undisturbed_iff :
    Undisturbed m w project ↔ (∀ i, prepare m w ≠ .error (.interrupted i)) ∧
      ∃ paths, modelFiles (m.readSchema w none).world project = .ok paths := by
  constructor
  · refine fun h => ⟨fun i hi => ?_, h.files⟩
    rcases prepare_eq_interrupted_iff.mp hi with hschema | ⟨schema, hschema, hchecksum⟩
    · exact h.schema i hschema
    · exact h.checksum schema i hschema hchecksum
  · rintro ⟨hprepare, hfiles⟩
    exact ⟨fun i h => hprepare i (prepare_eq_interrupted_iff.mpr (.inl h)),
      fun schema i h h' => hprepare i (prepare_eq_interrupted_iff.mpr (.inr ⟨schema, h, h'⟩)), hfiles⟩

theorem of_prepare_eq_ok {schema : Option Schema} {checksum : Text}
    (h : prepare m w = .ok (schema, some checksum)) :
    (∃ schema, (m.readSchema w none).value.2 = .ok (some schema)) ∧
      ((m.readSchema w none).value.1.readChecksum (m.readSchema w none).world).value.2 =
        .ok (some checksum) := by
  rw [prepare] at h
  rcases hread : (m.readSchema w none).value.2 with (e | i) | _ | found <;> rw [hread] at h
  · cases h
  · cases h
  · cases h
  · refine ⟨⟨found, rfl⟩, ?_⟩
    dsimp only at h
    cases hchecksum : ((m.readSchema w none).value.1.readChecksum (m.readSchema w none).world).value.2 with
    | error failure =>
      rw [hchecksum] at h
      cases h
    | ok c =>
      rw [hchecksum] at h
      cases h
      rfl

theorem exists_scanWith_iff (reader : Reader) (schema : Option Schema) (checksum : Option Text) :
    (∃ report, (scanWith reader schema checksum w project).value = .ok report) ↔
      ∃ paths, modelFiles w project = .ok paths := by
  rcases scanWith_value reader schema checksum w project with ⟨i, hfiles, hvalue⟩ | ⟨paths, hfiles, hvalue⟩
  · rw [hfiles, hvalue]
    refine iff_of_false (fun h => ?_) fun h => ?_
    · obtain ⟨_, h⟩ := h
      cases h
    · obtain ⟨_, h⟩ := h
      cases h
  · exact iff_of_true ⟨_, hvalue⟩ ⟨paths, hfiles⟩

theorem reports_iff_prepare (reader : Reader) (memo : Option Memo) (w : World) (project : Text) :
    Reports reader memo w project ↔ (∃ known, prepare (memo.getD { root := some project }) w = .ok known) ∧
      ∃ paths, modelFiles ((memo.getD { root := some project }).readSchema w none).world project =
        .ok paths := by
  rw [Reports, scan_value]
  set m := memo.getD { root := some project }
  cases hprepare : prepare m w with
  | error failure =>
    refine iff_of_false ?_ ?_
    · rintro ⟨_, h, _⟩
      cases h
    · rintro ⟨⟨_, h⟩, _⟩
      cases h
  | ok known =>
    rw [and_iff_right ⟨known, rfl⟩, ← exists_scanWith_iff reader known.1 known.2]
    refine exists_congr fun report => and_iff_left_of_imp fun hreport checksum hchecksum => ?_
    have hknown : known.2 = some checksum := by rw [← hchecksum, (scanWith_eq_ok hreport).1]
    have hpair : prepare m w = .ok (known.1, some checksum) := by rw [hprepare, ← hknown]
    exact of_prepare_eq_ok hpair

theorem reports_iff (reader : Reader) (memo : Option Memo) (w : World) (project : Text) :
    Reports reader memo w project ↔
      Undisturbed (memo.getD { root := some project }) w project ∧
        ¬ ∃ path, IsStale (memo.getD { root := some project }) w path := by
  rw [reports_iff_prepare, undisturbed_iff, and_right_comm]
  refine and_congr_left fun _ => ?_
  set m := memo.getD { root := some project }
  cases hprepare : prepare m w with
  | ok known =>
    refine iff_of_true ⟨known, rfl⟩ ⟨fun i h => (by cases h), ?_⟩
    rintro ⟨path, hstale⟩
    cases hprepare.symm.trans (prepare_eq_cause_iff.mpr ⟨path, hstale, rfl⟩)
  | error failure =>
    refine iff_of_false (fun h => ?_) fun h => ?_
    · obtain ⟨_, h⟩ := h
      cases h
    cases failure with
    | interrupted i => exact h.1 i rfl
    | cause e =>
      obtain ⟨path, hstale, _⟩ := prepare_eq_cause_iff.mp hprepare
      exact h.2 ⟨path, hstale⟩

theorem scan_eq_cause_iff (reader : Reader) (memo : Option Memo) (w : World) (project : Text)
    (e : LoadError) :
    (scan reader memo w project).value.2 = .error (.cause e) ↔
      ∃ path, IsStale (memo.getD { root := some project }) w path ∧ e = .unreadable path := by
  rw [← prepare_eq_cause_iff, scan_value]
  cases prepare (memo.getD { root := some project }) w with
  | error failure => exact ⟨fun h => congrArg _ (Except.error.inj h), fun h => congrArg _ (Except.error.inj h)⟩
  | ok known =>
    refine iff_of_false (fun h => ?_) fun h => by cases h
    rcases scanWith_value reader known.1 known.2
      ((memo.getD { root := some project }).readSchema w none).world project with
      ⟨i, _, hvalue⟩ | ⟨paths, _, hvalue⟩
    · cases hvalue.symm.trans h
    · cases hvalue.symm.trans h

/-- A scan reports unless a part of it is interrupted or the schema is stale, and it fails for want of a
schema only in the second case. -/
theorem scan_reports_unless_stale (reader : Reader) (memo : Option Memo) (w : World) (project : Text) :
    let m := memo.getD { root := some project }
    (Reports reader memo w project ↔ Undisturbed m w project ∧ ¬ ∃ path, IsStale m w path) ∧
      ∀ e, (scan reader memo w project).value.2 = .error (.cause e) ↔
        ∃ path, IsStale m w path ∧ e = .unreadable path :=
  ⟨reports_iff reader memo w project, scan_eq_cause_iff reader memo w project⟩

/-- A memo that has read the schema of a dump, but not its checksum. -/
def dumpedMemo : Memo :=
  Memo.run { schemaPath := some "/db/schema.rb".toList } [⟨dumpedWorld, .schema none⟩]

/-- A world with a model file whose settings name a database for which there is no driver. -/
def undrivenWorld : World where
  disk := { entries := [.folder "app".toList [.folder "models".toList
    [.file "user.rb".toList (.bytes "class User < ApplicationRecord\n  belongs_to :account\nend\n".toUTF8)]]] }
  settings := { databaseUrl := some "mssql+mssqlpython://h/x".toList }

theorem isStale_dumpedMemo : IsStale dumpedMemo {} "/db/schema.rb".toList := by
  have hpath : (Memo.path { schemaPath := some "/db/schema.rb".toList } dumpedWorld).value =
      .ok (some "/db/schema.rb".toList) := rfl
  have hschema := Memo.currentSchema_of_file hpath (by decide) read_dumpedWorld
    (dumpedWorld.settings.versionFor none)
  have hmemo : dumpedMemo =
      { schemaPath := some "/db/schema.rb".toList, schema := .filled (some usersSchema) } := by
    rw [dumpedMemo, Memo.run, Memo.run, Memo.answer, Outcome.map, Memo.readSchema_of_empty rfl,
      Outcome.map, hschema]
    rfl
  rw [hmemo]
  exact ⟨⟨_, rfl⟩, rfl, rfl, by decide, .notFound, rfl⟩

/-- Once the dump is removed, a scan with its schema from memory fails. One for a database without a driver
is interrupted. -/
theorem not_reports_dumpedMemo :
    ¬ Reports (fun _ => default) (some dumpedMemo) {} ['/'] ∧
      (scan (fun _ => default) (some dumpedMemo) {} ['/']).value.2 =
        .error (.cause (.unreadable "/db/schema.rb".toList)) ∧
      ¬ Reports (fun _ => default) none undrivenWorld ['/'] ∧
      (scan (fun _ => default) none undrivenWorld ['/']).value.2 =
        .error (.interrupted (.missingDriver "mssql+mssqlpython".toList)) := by
  have hdriver : (scan (fun _ => default) none undrivenWorld ['/']).value.2 =
      .error (.interrupted (.missingDriver "mssql+mssqlpython".toList)) := rfl
  refine ⟨?_, ?_, ?_, hdriver⟩
  · rw [reports_iff]
    exact fun h => h.2 ⟨_, isStale_dumpedMemo⟩
  · exact (scan_eq_cause_iff ..).mpr ⟨_, isStale_dumpedMemo, rfl⟩
  · rintro ⟨report, hreport, _⟩
    cases hdriver.symm.trans hreport

end RecordMap.Project
