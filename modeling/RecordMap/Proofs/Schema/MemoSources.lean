import Mathlib.Data.List.TakeWhile
import RecordMap.Proofs.Model.Edges
import RecordMap.Proofs.Schema.MemoRuns

/-! What a memo's checksum says about its schema. Each slot is filled from the sources as they are then,
so the checksum identifies the schema where the same bytes were there at both times. -/

namespace RecordMap

namespace Attempt

variable {α β : Type}

theorem andThen_eq_ok {a : Attempt α} {next : World → α → Attempt β} {b : β}
    (h : (a.andThen next).value = .ok b) :
    ∃ v, a.value = .ok v ∧ (next a.world v).value = .ok b := by
  rw [andThen, Outcome.andThen] at h
  cases hvalue : a.value with
  | ok v =>
    rw [hvalue] at h
    exact ⟨v, rfl, h⟩
  | error failure =>
    rw [hvalue] at h
    cases h

theorem map_eq_ok {a : Attempt α} {f : α → β} {b : β} (h : (a.map f).value = .ok b) :
    ∃ v, a.value = .ok v ∧ f v = b := by
  change Except.map f a.value = .ok b at h
  cases hvalue : a.value with
  | ok v =>
    rw [hvalue] at h
    exact ⟨v, rfl, Except.ok.inj h⟩
  | error failure =>
    rw [hvalue] at h
    cases h

end Attempt

namespace World

variable {w : World} {path : Text}

theorem openText_of_null (h : Files.Path.hasNull path = true) (w : World) (encoding : Text.Encoding) :
    w.openText path encoding = Attempt.interrupt w .nullInPath := by
  rw [openText, if_pos h]

theorem openText_of_read (h : Files.Path.hasNull path = false) {data : ByteArray}
    (hread : w.disk.read path = .ok data) (encoding : Text.Encoding) :
    w.openText path encoding = ⟨w, .ok (some (Text.decode encoding data)), []⟩ := by
  rw [openText, h, readText, Files.Disk.readText, hread]
  rfl

theorem openText_of_fault (h : Files.Path.hasNull path = false) {fault : Files.Fault}
    (hread : w.disk.read path = .error fault) (encoding : Text.Encoding) :
    w.openText path encoding = ⟨w, .ok none, [.unreadableFile path fault]⟩ := by
  rw [openText, h, readText, Files.Disk.readText, hread]
  rfl

end World

namespace Schema

theorem ofFile_eq_ok {w : World} {path : Text} {target : Option Text} {schema : Schema}
    (h : (ofFile w path target).value = .ok schema) :
    ∃ data version, w.disk.read path = .ok data ∧
      schema = ⟨Dump.tables (Text.decode .utf8 data), some path, version⟩ := by
  rw [ofFile] at h
  obtain ⟨content, hopen, h⟩ := Attempt.andThen_eq_ok h
  cases hnull : Files.Path.hasNull path with
  | true =>
    rw [World.openText_of_null hnull] at hopen
    cases hopen
  | false =>
    cases hread : w.disk.read path with
    | ok data =>
      rw [World.openText_of_read hnull hread] at hopen
      cases hopen
      exact ⟨data, _, rfl, (Except.ok.inj h).symm⟩
    | error fault =>
      rw [World.openText_of_fault hnull hread] at hopen
      cases hopen
      cases h

namespace Memo

/-- The bytes of the schema file, if there is one that can be read. -/
def bytesIn (m : Memo) (w : World) : Option ByteArray :=
  match (m.path w).value with
  | .ok (some path) => (w.disk.read path).toOption
  | _ => none

def schemaCall? (m : Memo) (calls : List Event) : Option Event :=
  (sinceReset calls).find? fun e => (m.schemaRead? e).isSome

def checksumCall? (m : Memo) (calls : List Event) : Option Event :=
  (sinceReset calls).find? fun e => (m.checksumRead? e).isSome

/-- The calls that filled the slots found the same bytes, or both no file. -/
def ReadAlike (m : Memo) (calls : List Event) : Prop :=
  ∀ e f, m.schemaCall? calls = some e → m.checksumCall? calls = some f →
    m.bytesIn e.world = m.bytesIn f.world

/-- The schema is what a world has: the tables of its schema file, or without a file at most those of
a database. -/
structure IsReadIn (m : Memo) (w : World) (schema : Option Schema) : Prop where
  ofFile : ∀ data, m.bytesIn w = some data → ∃ path version, (m.path w).value = .ok (some path) ∧
    schema = some ⟨Dump.tables (Text.decode .utf8 data), some path, version⟩
  ofNoFile : m.bytesIn w = none → (m.path w).value = .ok none ∧
    ∀ s, schema = some s → ∃ url target, (ofDatabase w url target).value = .ok s

/-- The checksum is that of the bytes from which a call read the schema. It is missing exactly if the
call found no file. -/
structure Identifies (m : Memo) (checksum : Option Text) (e : Event) (schema : Option Schema) :
    Prop where
  read : m.schemaRead? e = some schema
  isReadIn : m.IsReadIn e.world schema
  checksum_eq : checksum = (m.bytesIn e.world).map Digest.sha1
  eq_none_iff : checksum = none ↔ (m.path e.world).value = .ok none

/-! ### One reading -/

theorem path_world (m : Memo) (w : World) : (m.path w).world = w := by
  rw [path, pathOr]
  split
  · rfl
  · rw [Schema.path]
    split
    · rfl
    · split <;> rfl

variable {m : Memo} {w : World}

theorem bytesIn_of_file {path : Text} (hpath : (m.path w).value = .ok (some path)) :
    m.bytesIn w = (w.disk.read path).toOption := by
  rw [bytesIn, hpath]

theorem bytesIn_of_no_file (hpath : (m.path w).value = .ok none) : m.bytesIn w = none := by
  rw [bytesIn, hpath]

theorem digestOf_eq_ok {path digest : Text} (h : (digestOf w path).value = .ok digest) :
    ∃ data, w.disk.read path = .ok data ∧ digest = Digest.sha1 data := by
  rw [digestOf] at h
  split at h
  · cases h
  · cases hread : w.disk.read path with
    | ok data =>
      rw [hread] at h
      exact ⟨data, rfl, (Except.ok.inj h).symm⟩
    | error fault =>
      rw [hread] at h
      cases h

theorem checksum_eq_of_ok {checksum : Option Text}
    (h : (m.currentChecksum w).value = .ok checksum) :
    checksum = (m.bytesIn w).map Digest.sha1 := by
  rw [currentChecksum] at h
  obtain ⟨found, hpath, h⟩ := Attempt.andThen_eq_ok h
  rw [path_world] at h
  cases found with
  | none =>
    rw [bytesIn_of_no_file hpath]
    exact (Except.ok.inj h).symm
  | some path =>
    obtain ⟨digest, hdigest, rfl⟩ := Attempt.map_eq_ok h
    obtain ⟨data, hread, rfl⟩ := digestOf_eq_ok hdigest
    rw [bytesIn_of_file hpath, hread]
    rfl

theorem isReadIn_of_ok {target : Option Text} {schema : Option Schema}
    (h : (m.currentSchema w target).value = .ok schema) : m.IsReadIn w schema := by
  rw [currentSchema] at h
  obtain ⟨found, hpath, h⟩ := Attempt.andThen_eq_ok h
  rw [path_world] at h
  cases found with
  | none =>
    refine ⟨fun data hdata => ?_, fun _ => ⟨hpath, ?_⟩⟩
    · rw [bytesIn_of_no_file hpath] at hdata
      cases hdata
    · rintro s rfl
      dsimp only at h
      split at h
      · next url _ =>
        obtain ⟨s', hs, hsome⟩ := Attempt.map_eq_ok h
        exact ⟨url, target, Option.some.inj hsome ▸ hs⟩
      · cases h
  | some path =>
    obtain ⟨s, hs, rfl⟩ := Attempt.map_eq_ok h
    obtain ⟨data, version, hread, rfl⟩ := ofFile_eq_ok hs
    have hbytes : m.bytesIn w = some data := by
      rw [bytesIn_of_file hpath, hread]
      rfl
    refine ⟨fun data' hdata' => ?_, fun hnone => ?_⟩
    · rw [hbytes] at hdata'
      exact ⟨path, version, hpath, by rw [Option.some.inj hdata']⟩
    · rw [hbytes] at hnone
      cases hnone

theorem currentSchema_of_file {path : Text} {data : ByteArray}
    (hpath : (m.path w).value = .ok (some path)) (hnull : Files.Path.hasNull path = false)
    (hread : w.disk.read path = .ok data) (target : Option Text) :
    (m.currentSchema w target).value =
      .ok (some ⟨Dump.tables (Text.decode .utf8 data), some path, w.settings.versionFor target⟩) := by
  rw [currentSchema, Attempt.andThen, Outcome.andThen, path_world, hpath]
  change Except.map some (ofFile w path target).value = _
  rw [ofFile, World.openText_of_read hnull hread]
  rfl

theorem currentChecksum_of_file {path : Text} {data : ByteArray}
    (hpath : (m.path w).value = .ok (some path)) (hnull : Files.Path.hasNull path = false)
    (hread : w.disk.read path = .ok data) :
    (m.currentChecksum w).value = .ok (some (Digest.sha1 data)) := by
  rw [currentChecksum, Attempt.andThen, Outcome.andThen, path_world, hpath]
  change Except.map some (digestOf w path).value = _
  rw [digestOf, hnull, hread]
  rfl

theorem currentChecksum_of_no_file (hpath : (m.path w).value = .ok none) :
    (m.currentChecksum w).value = .ok none := by
  rw [currentChecksum, Attempt.andThen, Outcome.andThen, hpath]

/-- Where a reading succeeds, only the absence of a file leaves no bytes. -/
theorem IsReadIn.bytesIn_eq_none_iff {schema : Option Schema} (h : m.IsReadIn w schema) :
    m.bytesIn w = none ↔ (m.path w).value = .ok none :=
  ⟨fun hnone => (h.ofNoFile hnone).1, bytesIn_of_no_file⟩

/-! ### The calls that fill the slots -/

theorem sinceReset_eq_self {calls : List Event} (h : ∀ e ∈ calls, e.call ≠ .reset) :
    sinceReset calls = calls := by
  have hall : ∀ e ∈ calls.reverse, decide (e.call ≠ .reset) = true :=
    fun e he => decide_eq_true (h e (List.mem_reverse.mp he))
  rw [sinceReset, List.takeWhile_eq_self_iff.mpr hall, List.reverse_reverse]

theorem schemaRead?_schema (m : Memo) (w : World) (target : Option Text) :
    m.schemaRead? ⟨w, .schema target⟩ =
      (m.currentSchema w (w.settings.versionFor target)).value.toOption := rfl

theorem schemaRead?_checksum (m : Memo) (w : World) : m.schemaRead? ⟨w, .checksum⟩ = none := rfl

theorem checksumRead?_schema (m : Memo) (w : World) (target : Option Text) :
    m.checksumRead? ⟨w, .schema target⟩ = none := rfl

theorem checksumRead?_checksum (m : Memo) (w : World) :
    m.checksumRead? ⟨w, .checksum⟩ = (m.currentChecksum w).value.toOption := rfl

theorem find?_of_findSome? {α β : Type} {f : α → Option β} {as : List α} {b : β}
    (h : as.findSome? f = some b) :
    ∃ a, as.find? (fun a => (f a).isSome) = some a ∧ f a = some b := by
  obtain ⟨before, a, behind, rfl, ha, hbefore⟩ := List.findSome?_eq_some_iff.mp h
  refine ⟨a, List.find?_eq_some_iff_append.mpr ⟨by rw [ha]; rfl, before, behind, rfl, ?_⟩, ha⟩
  intro a' ha'
  rw [hbefore a' ha']
  rfl

theorem ofOption_eq_filled {α : Type} {value : Option α} {a : α}
    (h : Slot.ofOption value = .filled a) : value = some a := by
  cases value with
  | none => cases h
  | some b =>
    cases h
    rfl

theorem eq_ok_of_toOption {ε α : Type} {result : Except ε α} {a : α}
    (h : result.toOption = some a) : result = .ok a := by
  cases result with
  | error e => cases h
  | ok b =>
    cases h
    rfl

theorem schemaCall?_of_filled {calls : List Event} {schema : Option Schema}
    (h : (m.reset.run calls).schema = .filled schema) :
    ∃ e, m.schemaCall? calls = some e ∧ m.schemaRead? e = some schema := by
  rw [run_reset] at h
  exact find?_of_findSome? (ofOption_eq_filled h)

theorem checksumCall?_of_filled {calls : List Event} {checksum : Option Text}
    (h : (m.reset.run calls).checksum = .filled checksum) :
    ∃ f, m.checksumCall? calls = some f ∧ m.checksumRead? f = some checksum := by
  rw [run_reset] at h
  exact find?_of_findSome? (ofOption_eq_filled h)

theorem isReadIn_of_schemaRead? {e : Event} {schema : Option Schema}
    (h : m.schemaRead? e = some schema) : m.IsReadIn e.world schema := by
  rw [schemaRead?] at h
  split at h
  · exact isReadIn_of_ok (eq_ok_of_toOption h)
  · cases h

theorem checksum_eq_of_checksumRead? {f : Event} {checksum : Option Text}
    (h : m.checksumRead? f = some checksum) :
    checksum = (m.bytesIn f.world).map Digest.sha1 := by
  rw [checksumRead?] at h
  split at h
  · exact checksum_eq_of_ok (eq_ok_of_toOption h)
  · cases h

theorem ReadAlike.identifies {calls : List Event} (halike : m.ReadAlike calls)
    {schema : Option Schema} {checksum : Option Text}
    (hschema : (m.reset.run calls).schema = .filled schema)
    (hchecksum : (m.reset.run calls).checksum = .filled checksum) :
    ∃ e, m.schemaCall? calls = some e ∧ m.Identifies checksum e schema := by
  obtain ⟨e, he, hread⟩ := schemaCall?_of_filled hschema
  obtain ⟨f, hf, hdigest⟩ := checksumCall?_of_filled hchecksum
  have hisRead := isReadIn_of_schemaRead? hread
  have heq : checksum = (m.bytesIn e.world).map Digest.sha1 := by
    rw [halike e f he hf]
    exact checksum_eq_of_checksumRead? hdigest
  refine ⟨e, he, hread, hisRead, heq, ?_⟩
  rw [heq, Option.map_eq_none_iff]
  exact hisRead.bytesIn_eq_none_iff

end Memo

end Schema

namespace Project

open Schema (Memo)

/-! ### Scans -/

theorem readSchema_eq_some {m : Memo} {w : World} {schema : Schema}
    (h : (readSchema m w).value.2 = .ok (some schema)) :
    (m.readSchema w none).value.2 = .ok (some schema) ∧
      (readSchema m w).value.1 = (m.readSchema w none).value.1 ∧
      (readSchema m w).world = (m.readSchema w none).world := by
  rw [readSchema, Outcome.andThen] at h ⊢
  cases hread : (m.readSchema w none).value with
  | mk kept result =>
    rw [hread] at h
    cases result with
    | ok found =>
      rw [Except.ok.inj h]
      exact ⟨rfl, rfl, rfl⟩
    | error failure => rcases failure with _ | _ <;> cases h

theorem scanWith_eq_ok {reader : Reader} {schema : Option Schema} {checksum : Option Text}
    {w : World} {project : Text} {report : Model.Report Model.Entry Text}
    (h : (scanWith reader schema checksum w project).value = .ok report) :
    report.checksum = checksum ∧ ∀ entry ∈ report.models, entry.IsRead schema := by
  rw [scanWith] at h
  split at h
  · cases h
  · next paths _ =>
    cases h
    refine ⟨rfl, fun entry hentry => ?_⟩
    obtain ⟨read, hread, hentry⟩ := List.mem_flatMap.mp hentry
    obtain ⟨path, _, rfl⟩ := List.mem_map.mp hread
    exact isRead_of_mem_readFile hentry

theorem scan_eq_ok {reader : Reader} {m : Memo} {w : World} {project checksum : Text}
    {report : Model.Report Model.Entry Text}
    (h : (scan reader (some m) w project).value.2 = .ok report)
    (hchecksum : report.checksum = some checksum) :
    ∃ schema, (m.readSchema w none).value.2 = .ok (some schema) ∧
      ((m.readSchema w none).value.1.readChecksum (m.readSchema w none).world).value.2 =
        .ok (some checksum) ∧
      ∀ entry ∈ report.models, entry.IsRead (some schema) := by
  rw [scan, Outcome.andThen, Option.getD_some] at h
  cases hschema : (readSchema m w).value.2 with
  | error i =>
    simp only [hschema] at h
    cases h
  | ok found =>
    simp only [hschema, Outcome.andThen] at h
    split at h
    · cases h
    · next read hread =>
      obtain ⟨hread', hmodels⟩ := scanWith_eq_ok h
      rw [hchecksum] at hread'
      subst hread'
      cases found with
      | none =>
        cases hread
      | some schema =>
        obtain ⟨hok, hkept, hworld⟩ := readSchema_eq_some hschema
        rw [hkept, hworld] at hread
        exact ⟨schema, hok, hread, hmodels⟩

/-- The calls of a scan. The second one finds the world that the first one leaves. -/
def callsOf (m : Memo) (w : World) : List Memo.Event :=
  [⟨w, .schema none⟩, ⟨(m.readSchema w none).world, .checksum⟩]

theorem run_callsOf (m : Memo) (w : World) :
    m.run (callsOf m w) =
      ((m.readSchema w none).value.1.readChecksum (m.readSchema w none).world).value.1 := rfl

/-- A checksum identifies the schema beside it in the memo, and the one that a report is made with,
wherever the calls that filled the slots found the same bytes or both found no file. -/
theorem checksum_identifies_schema :
    (∀ (m : Memo) calls schema checksum, m.ReadAlike calls →
      (m.reset.run calls).schema = .filled schema → (m.reset.run calls).checksum = .filled checksum →
      ∃ e, m.schemaCall? calls = some e ∧ m.Identifies checksum e schema) ∧
    ∀ (m : Memo) calls reader w project report checksum,
      let all := calls ++ callsOf (m.reset.run calls) w
      m.ReadAlike all → (scan reader (some (m.reset.run calls)) w project).value.2 = .ok report →
      report.checksum = some checksum →
      ∃ schema e, m.schemaCall? all = some e ∧ m.Identifies (some checksum) e (some schema) ∧
        ∀ entry ∈ report.models, entry.IsRead (some schema) := by
  refine ⟨fun m calls schema checksum halike => halike.identifies, ?_⟩
  intro m calls reader w project report checksum all halike hreport hchecksum
  obtain ⟨schema, hschema, hsum, hmodels⟩ := scan_eq_ok hreport hchecksum
  -- A scan is two more calls: it answers with what the slots hold behind them.
  have hrun : m.reset.run all = (m.reset.run calls).run (callsOf (m.reset.run calls) w) :=
    Memo.run_append _ _ _
  have hfilled : (m.reset.run all).schema = .filled (some schema) := by
    rw [hrun]
    exact (@Memo.keeps_run _ [_] (by simp)).1 _ (Memo.readSchema_ok hschema)
  have hsummed : (m.reset.run all).checksum = .filled (some checksum) := by
    rw [hrun, run_callsOf]
    exact Memo.readChecksum_ok hsum
  obtain ⟨e, he, hidentifies⟩ := halike.identifies hfilled hsummed
  exact ⟨schema, e, he, hidentifies, hmodels⟩

def usersDump : ByteArray := "create_table \"users\" do |t|\n  t.string \"login\"\nend\n".toUTF8

/-- A world whose only file is a dump at `/db/schema.rb`. -/
def dumpedWorld : World where
  disk := { entries := [.folder "db".toList [.file "schema.rb".toList (.bytes usersDump)]] }

theorem path_dumpedWorld :
    (Memo.path {} dumpedWorld).value = .ok (some "/db/schema.rb".toList) := by
  rfl

theorem read_dumpedWorld : dumpedWorld.disk.read "/db/schema.rb".toList = .ok usersDump := by
  rfl

def usersSchema : Schema :=
  ⟨Schema.Dump.tables (Text.decode .utf8 usersDump), some "/db/schema.rb".toList, some "2.7".toList⟩

theorem schemaRead?_dumpedWorld :
    Memo.schemaRead? {} ⟨dumpedWorld, .schema none⟩ = some (some usersSchema) := by
  rw [Memo.schemaRead?_schema,
    Memo.currentSchema_of_file path_dumpedWorld (by decide) read_dumpedWorld]
  rfl

theorem checksumRead?_dumpedWorld :
    Memo.checksumRead? {} ⟨dumpedWorld, .checksum⟩ = some (some (Digest.sha1 usersDump)) := by
  rw [Memo.checksumRead?_checksum,
    Memo.currentChecksum_of_file path_dumpedWorld (by decide) read_dumpedWorld]
  rfl

theorem checksumRead?_emptyWorld : Memo.checksumRead? {} ⟨{}, .checksum⟩ = some none := by
  rw [Memo.checksumRead?_checksum, Memo.currentChecksum_of_no_file rfl]
  rfl

/-- While the dump stays as it is, the checksum is that of its bytes. -/
theorem checksum_dumpedWorld :
    ∃ e, Memo.schemaCall? {} [⟨dumpedWorld, .checksum⟩, ⟨dumpedWorld, .schema none⟩] = some e ∧
      Memo.Identifies {} (some (Digest.sha1 usersDump)) e (some usersSchema) := by
  have hcalls : Memo.sinceReset [⟨dumpedWorld, .checksum⟩, ⟨dumpedWorld, .schema none⟩] =
      [⟨dumpedWorld, .checksum⟩, ⟨dumpedWorld, .schema none⟩] :=
    Memo.sinceReset_eq_self (by simp)
  refine checksum_identifies_schema.1 {} [⟨dumpedWorld, .checksum⟩, ⟨dumpedWorld, .schema none⟩]
    _ _ ?_ ?_ ?_
  · -- the world is the same in all calls
    intro e f he hf
    have he' := List.mem_of_find?_eq_some he
    have hf' := List.mem_of_find?_eq_some hf
    rw [hcalls] at he' hf'
    simp only [List.mem_cons, List.not_mem_nil, or_false] at he' hf'
    rcases he' with rfl | rfl <;> rcases hf' with rfl | rfl <;> rfl
  · rw [Memo.run_reset, hcalls, Memo.holding, Memo.firstSchema?]
    simp only [List.findSome?_cons, Memo.schemaRead?_checksum, schemaRead?_dumpedWorld]
    rfl
  · rw [Memo.run_reset, hcalls, Memo.holding, Memo.firstChecksum?]
    simp only [List.findSome?_cons, checksumRead?_dumpedWorld]
    rfl

/-- Once the dump is removed, its schema stays in the memo and stands beside the checksum of no
file. -/
theorem checksum_removedDump :
    let calls : List Memo.Event := [⟨dumpedWorld, .schema none⟩, ⟨{}, .checksum⟩]
    let now := Memo.run (Memo.reset {}) calls
    now.schema = .filled (some usersSchema) ∧ now.checksum = .filled none ∧
    ¬ ∃ e, Memo.schemaCall? {} calls = some e ∧ Memo.Identifies {} none e (some usersSchema) := by
  intro calls now
  have hcalls : Memo.sinceReset calls = calls := Memo.sinceReset_eq_self (by simp [calls])
  refine ⟨?_, ?_, ?_⟩
  · rw [show now = Memo.holding {} calls from hcalls ▸ Memo.run_reset {} calls, Memo.holding,
      Memo.firstSchema?]
    simp only [calls, List.findSome?_cons, schemaRead?_dumpedWorld]
    rfl
  · rw [show now = Memo.holding {} calls from hcalls ▸ Memo.run_reset {} calls, Memo.holding,
      Memo.firstChecksum?]
    simp only [calls, List.findSome?_cons, Memo.checksumRead?_schema, checksumRead?_emptyWorld]
    rfl
  · rintro ⟨e, he, hidentifies⟩
    rw [Memo.schemaCall?, hcalls] at he
    simp only [calls, List.find?_cons, schemaRead?_dumpedWorld, Option.isSome_some] at he
    cases he
    have hpath := path_dumpedWorld.symm.trans (hidentifies.eq_none_iff.mp rfl)
    cases hpath

end Project

end RecordMap
