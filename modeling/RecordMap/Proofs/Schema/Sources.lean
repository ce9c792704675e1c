import RecordMap.Proofs.Files.Growth
import RecordMap.Proofs.Schema.MemoSources

/-! Where a memo reads from. -/

namespace RecordMap

theorem Outcome.value_map_congr {α β : Type} {f : α → β} {o o' : Outcome α} (h : o.value = o'.value) :
    (o.map f).value = (o'.map f).value := congrArg f h

namespace Attempt

variable {α β : Type}

theorem andThen_world {a : Attempt α} {next : World → α → Attempt β} {w : World} (ha : a.world = w)
    (hnext : ∀ v, a.value = .ok v → (next w v).world = w) : (a.andThen next).world = w := by
  rw [andThen, Outcome.andThen]
  cases hvalue : a.value with
  | ok v =>
    change (next a.world v).world = w
    rw [ha]
    exact hnext v hvalue
  | error failure => exact ha

theorem andThen_of_ok {a : Attempt α} {next : World → α → Attempt β} {v : α} (h : a.value = .ok v) :
    (a.andThen next).value = (next a.world v).value := by
  rw [andThen, Outcome.andThen, h]

theorem andThen_world_of_ok {a : Attempt α} {next : World → α → Attempt β} {v : α}
    (h : a.value = .ok v) : (a.andThen next).world = (next a.world v).world := by
  rw [andThen, Outcome.andThen, h]

theorem andThen_of_error {a : Attempt α} {next : World → α → Attempt β} {failure : Failure LoadError}
    (h : a.value = .error failure) : (a.andThen next).value = .error failure := by
  rw [andThen, Outcome.andThen, h]

end Attempt

namespace Files.Disk

variable {d d' : Disk} {path : Text}

theorem isFile_congr (h : d.look path = d'.look path) : d.isFile path = d'.isFile path := by
  rw [isFile, isFile, h]

theorem read_congr (h : d.look path = d'.look path) : d.read path = d'.read path := by
  rw [read, read, h]

/-- Whether a disk can be asked for a path: it says what stands there, or that nothing does. -/
def canAsk (d : Disk) (path : Text) : Bool :=
  match d.look path with
  | .ok _ => true
  | .error fault => fault.isAbsence

theorem firstFile_of_isFile (h : d.isFile path = true) (paths : List Text) :
    d.firstFile (path :: paths) = .ok (some path) := by
  rw [isFile] at h
  rw [firstFile]
  split at h
  · next hlook => rw [hlook]
  · cases h

theorem firstFile_of_canAsk (h : d.isFile path = false) (hask : d.canAsk path = true)
    (paths : List Text) : d.firstFile (path :: paths) = d.firstFile paths := by
  rw [isFile] at h
  rw [canAsk] at hask
  rw [firstFile]
  rcases hlook : d.look path with fault | content | folder <;> rw [hlook] at h hask
  · exact if_pos hask
  · cases h

theorem firstFile_of_not_canAsk (hask : d.canAsk path = false) (paths : List Text) :
    ∃ fault, d.firstFile (path :: paths) = .error (path, fault) := by
  rw [canAsk] at hask
  rw [firstFile]
  cases hlook : d.look path with
  | ok found =>
    rw [hlook] at hask
    cases hask
  | error fault =>
    rw [hlook] at hask
    exact ⟨fault, if_neg (ne_true_of_eq_false hask)⟩

theorem firstFile_eq_some {paths : List Text} (h : d.firstFile paths = .ok (some path)) :
    path ∈ paths ∧ d.isFile path = true := by
  induction paths with
  | nil => cases h
  | cons first paths ih =>
    cases hfile : d.isFile first with
    | true =>
      rw [firstFile_of_isFile hfile] at h
      cases h
      exact ⟨List.mem_cons_self .., hfile⟩
    | false =>
      cases hask : d.canAsk first with
      | true =>
        rw [firstFile_of_canAsk hfile hask] at h
        exact ⟨List.mem_cons_of_mem _ (ih h).1, (ih h).2⟩
      | false =>
        obtain ⟨fault, herror⟩ := firstFile_of_not_canAsk hask paths
        cases herror.symm.trans h

theorem isFile_eq_false_of_firstFile {paths : List Text} (h : d.firstFile paths = .ok none) :
    ∀ path ∈ paths, d.isFile path = false := by
  induction paths with
  | nil => exact List.forall_mem_nil _
  | cons first paths ih =>
    cases hfile : d.isFile first with
    | true =>
      rw [firstFile_of_isFile hfile] at h
      cases h
    | false =>
      cases hask : d.canAsk first with
      | true =>
        rw [firstFile_of_canAsk hfile hask] at h
        exact List.forall_mem_cons.mpr ⟨hfile, ih h⟩
      | false =>
        obtain ⟨fault, herror⟩ := firstFile_of_not_canAsk hask paths
        cases herror.symm.trans h

theorem firstFile_congr {paths : List Text} (h : ∀ path ∈ paths, d.look path = d'.look path) :
    d.firstFile paths = d'.firstFile paths := by
  induction paths with
  | nil => rfl
  | cons path paths ih =>
    obtain ⟨hpath, hpaths⟩ := List.forall_mem_cons.mp h
    rw [firstFile, firstFile, hpath, ih hpaths]

end Files.Disk

namespace Schema

/-! ### Readings leave the files as they are -/

theorem ofFile_world (w : World) (path : Text) (target : Option Text) :
    (ofFile w path target).world = w := by
  rw [ofFile]
  refine Attempt.andThen_world ?_ fun content _ => ?_
  · rw [World.openText]
    split
    · rfl
    · rw [World.readText]
      cases w.disk.readText path .utf8 <;> rfl
  · cases content <;> rfl

namespace Memo

variable {m : Memo} {w : World}

theorem digestOf_world (w : World) (path : Text) : (digestOf w path).world = w := by
  rw [digestOf]
  split
  · rfl
  · cases w.disk.read path <;> rfl

theorem currentChecksum_world (m : Memo) (w : World) : (m.currentChecksum w).world = w := by
  rw [currentChecksum]
  refine Attempt.andThen_world (path_world m w) fun found _ => ?_
  cases found with
  | none => rfl
  | some path => exact digestOf_world w path

theorem readChecksum_world (m : Memo) (w : World) : (m.readChecksum w).world = w :=
  m.checksum.answer_world (currentChecksum_world m w)

end Memo

/-! ### What a reading depends on -/

theorem ofFile_value (w : World) {path : Text} (hnull : Files.Path.hasNull path = false)
    (target : Option Text) :
    (ofFile w path target).value =
      match w.disk.read path with
      | .ok data =>
        .ok ⟨Dump.tables (Text.decode .utf8 data), some path, w.settings.versionFor target⟩
      | .error _ => .error (.cause (.unreadable path)) := by
  rw [ofFile]
  cases hread : w.disk.read path with
  | ok data =>
    rw [World.openText_of_read hnull hread]
    rfl
  | error fault =>
    rw [World.openText_of_fault hnull hread]
    rfl

theorem ofFile_value_of_null (w : World) {path : Text} (hnull : Files.Path.hasNull path = true)
    (target : Option Text) : (ofFile w path target).value = .error (.interrupted .nullInPath) := by
  rw [ofFile, World.openText_of_null hnull]
  rfl

theorem ofFile_value_congr {w w' : World} {path : Text} (hsettings : w.settings = w'.settings)
    (hread : w.disk.read path = w'.disk.read path) (target : Option Text) :
    (ofFile w path target).value = (ofFile w' path target).value := by
  cases hnull : Files.Path.hasNull path with
  | true => rw [ofFile_value_of_null w hnull, ofFile_value_of_null w' hnull]
  | false => rw [ofFile_value w hnull, ofFile_value w' hnull, hread, hsettings]

namespace Memo

def start (m : Memo) (w : World) : Text := (given? m.root).getD w.disk.herePath

def configured? (w : World) : Option Text := (given? w.settings.schemaPath).filter w.disk.isFile

theorem path_value_eq (m : Memo) (w : World) :
    (m.path w).value =
      match given? m.schemaPath with
      | some path => .ok (some path)
      | none =>
        match configured? w with
        | some path => .ok (some path)
        | none => (search w.disk m.root).mapError .interrupted := by
  rw [path, pathOr, configured?]
  cases given? m.schemaPath with
  | some path => rfl
  | none =>
    dsimp only
    rw [Schema.path]
    cases given? w.settings.schemaPath with
    | none => rfl
    | some configured =>
      rw [Option.filter_some]
      dsimp only
      split <;> rfl

theorem firstFile_of_search {d : Files.Disk} {root found : Option Text} (h : search d root = .ok found) :
    d.firstFile (candidates d.here ((given? root).getD d.herePath)) = .ok found := by
  rw [search] at h
  dsimp only at h
  split at h
  · cases h
  · cases hfirst : d.firstFile (candidates d.here ((given? root).getD d.herePath)) with
    | error e =>
      rw [hfirst] at h
      cases h
    | ok found' =>
      rw [hfirst] at h
      exact congrArg Except.ok (Except.ok.inj h)

def soughtPaths (m : Memo) (w : World) : List Text :=
  (given? m.schemaPath).toList ++ (given? w.settings.schemaPath).toList ++
    candidates w.disk.here (m.start w)

/-- Two worlds in which the same is seen where the schema file is sought. -/
structure SeekAlike (m : Memo) (w w' : World) : Prop where
  settings : w.settings = w'.settings
  here : w.disk.here = w'.disk.here
  look : ∀ path ∈ m.soughtPaths w, w.disk.look path = w'.disk.look path

variable {m : Memo} {w w' : World}

theorem digestOf_value (w : World) {path : Text} (hnull : Files.Path.hasNull path = false) :
    (digestOf w path).value =
      match w.disk.read path with
      | .ok data => .ok (Digest.sha1 data)
      | .error _ => .error (.cause (.unreadable path)) := by
  rw [digestOf, hnull]
  cases w.disk.read path <;> rfl

theorem digestOf_value_of_null (w : World) {path : Text} (hnull : Files.Path.hasNull path = true) :
    (digestOf w path).value = .error (.interrupted .nullInPath) := by
  rw [digestOf, hnull]
  rfl

theorem digestOf_value_congr {path : Text} (hread : w.disk.read path = w'.disk.read path) :
    (digestOf w path).value = (digestOf w' path).value := by
  cases hnull : Files.Path.hasNull path with
  | true => rw [digestOf_value_of_null w hnull, digestOf_value_of_null w' hnull]
  | false => rw [digestOf_value w hnull, digestOf_value w' hnull, hread]

theorem SeekAlike.search_eq (h : m.SeekAlike w w') : search w.disk m.root = search w'.disk m.root := by
  have hhere : w.disk.herePath = w'.disk.herePath := by
    rw [Files.Disk.herePath, Files.Disk.herePath, h.here]
  have hfirst := Files.Disk.firstFile_congr fun path hpath =>
    h.look path (List.mem_append_right _ hpath)
  rw [search, search, ← hhere, ← h.here]
  dsimp only
  rw [← start, hfirst]

theorem SeekAlike.path_value_eq (h : m.SeekAlike w w') : (m.path w).value = (m.path w').value := by
  have hsearch : ∀ notices notices', (searchNoting w m.root notices).value =
      (searchNoting w' m.root notices').value := fun _ _ =>
    congrArg (Except.mapError Failure.interrupted) h.search_eq
  rw [path, path, pathOr, pathOr]
  split
  · rfl
  · rw [Schema.path, Schema.path, ← h.settings]
    cases hconfigured : given? w.settings.schemaPath with
    | none => exact hsearch _ _
    | some configured =>
      have hmem : configured ∈ m.soughtPaths w := by
        rw [soughtPaths, hconfigured]
        exact List.mem_append_left _ (List.mem_append_right _ (List.mem_singleton_self _))
      dsimp only
      rw [← Files.Disk.isFile_congr (h.look configured hmem)]
      split
      · rfl
      · exact hsearch _ _

theorem of_path_eq_some {path : Text} (h : (m.path w).value = .ok (some path)) :
    path ∈ m.soughtPaths w ∧ (given? m.schemaPath = some path ∨ w.disk.isFile path = true) := by
  rw [path_value_eq] at h
  rw [soughtPaths]
  cases hown : given? m.schemaPath with
  | some own =>
    rw [hown] at h
    cases h
    exact ⟨List.mem_append_left _ (List.mem_append_left _ (List.mem_singleton_self _)), .inl rfl⟩
  | none =>
    rw [hown] at h
    cases hconfigured : configured? w with
    | some configured =>
      rw [hconfigured] at h
      cases h
      obtain ⟨hsetting, hfile⟩ := Option.filter_eq_some_iff.mp hconfigured
      rw [hsetting]
      exact ⟨List.mem_append_left _ (List.mem_append_right _ (List.mem_singleton_self _)), .inr hfile⟩
    | none =>
      rw [hconfigured] at h
      dsimp only at h
      cases hsearch : search w.disk m.root with
      | error i =>
        rw [hsearch] at h
        cases h
      | ok found =>
        rw [hsearch] at h
        cases h
        obtain ⟨hmem, hfile⟩ := Files.Disk.firstFile_eq_some (firstFile_of_search hsearch)
        exact ⟨List.mem_append_right _ hmem, .inr hfile⟩

theorem of_path_eq_none (h : (m.path w).value = .ok none) :
    given? m.schemaPath = none ∧ ∀ path ∈ m.soughtPaths w, w.disk.isFile path = false := by
  rw [path_value_eq] at h
  cases hown : given? m.schemaPath with
  | some own =>
    rw [hown] at h
    cases h
  | none =>
    rw [hown] at h
    cases hconfigured : configured? w with
    | some configured =>
      rw [hconfigured] at h
      cases h
    | none =>
      rw [hconfigured] at h
      dsimp only at h
      cases hsearch : search w.disk m.root with
      | error i =>
        rw [hsearch] at h
        cases h
      | ok found =>
        rw [hsearch] at h
        cases h
        refine ⟨rfl, fun path hmem => ?_⟩
        rw [soughtPaths, hown, List.mem_append, List.mem_append] at hmem
        rcases hmem with (hmem | hmem) | hmem
        · exact absurd hmem List.not_mem_nil
        · have hsetting := Option.mem_toList.mp hmem
          exact Bool.eq_false_iff.mpr (Option.filter_eq_none_iff.mp hconfigured path hsetting)
        · exact Files.Disk.isFile_eq_false_of_firstFile (firstFile_of_search hsearch) path hmem

/-- No database has to be read for want of a file. -/
def NeedsNoDatabase (m : Memo) (w : World) : Prop :=
  (m.path w).value = .ok none → given? m.databaseUrl = none ∧ given? w.settings.databaseUrl = none

theorem currentSchema_of_no_source (hpath : (m.path w).value = .ok none)
    (hdatabase : given? m.databaseUrl = none ∧ given? w.settings.databaseUrl = none)
    (target : Option Text) : (m.currentSchema w target).value = .ok none := by
  rw [currentSchema, Attempt.andThen_of_ok hpath, path_world]
  dsimp only
  rw [hdatabase.1, hdatabase.2]
  rfl

theorem currentSchema_of_path {path : Text} (hpath : (m.path w).value = .ok (some path))
    (target : Option Text) :
    (m.currentSchema w target).value = (ofFile w path target).value.map some := by
  rw [currentSchema, Attempt.andThen_of_ok hpath, path_world]
  rfl

theorem currentChecksum_of_path {path : Text} (hpath : (m.path w).value = .ok (some path)) :
    (m.currentChecksum w).value = (digestOf w path).value.map some := by
  rw [currentChecksum, Attempt.andThen_of_ok hpath, path_world]
  rfl

theorem SeekAlike.currentSchema_value_eq (h : m.SeekAlike w w') (hdatabase : m.NeedsNoDatabase w)
    (target : Option Text) :
    (m.currentSchema w target).value = (m.currentSchema w' target).value := by
  have hpath' := h.path_value_eq
  cases hpath : (m.path w).value with
  | error failure =>
    rw [hpath] at hpath'
    rw [currentSchema, currentSchema, Attempt.andThen_of_error hpath,
      Attempt.andThen_of_error hpath'.symm]
  | ok found =>
    rw [hpath] at hpath'
    cases found with
    | none =>
      rw [currentSchema_of_no_source hpath (hdatabase hpath),
        currentSchema_of_no_source hpath'.symm (h.settings ▸ hdatabase hpath)]
    | some path =>
      have hread := Files.Disk.read_congr (h.look path (of_path_eq_some hpath).1)
      rw [currentSchema_of_path hpath, currentSchema_of_path hpath'.symm,
        ofFile_value_congr h.settings hread]

theorem SeekAlike.currentChecksum_value_eq (h : m.SeekAlike w w') :
    (m.currentChecksum w).value = (m.currentChecksum w').value := by
  have hpath' := h.path_value_eq
  cases hpath : (m.path w).value with
  | error failure =>
    rw [hpath] at hpath'
    rw [currentChecksum, currentChecksum, Attempt.andThen_of_error hpath,
      Attempt.andThen_of_error hpath'.symm]
  | ok found =>
    rw [hpath] at hpath'
    cases found with
    | none => rw [currentChecksum_of_no_file hpath, currentChecksum_of_no_file hpath'.symm]
    | some path =>
      have hread := Files.Disk.read_congr (h.look path (of_path_eq_some hpath).1)
      rw [currentChecksum_of_path hpath, currentChecksum_of_path hpath'.symm,
        digestOf_value_congr hread]

theorem NeedsNoDatabase.currentSchema_world (h : m.NeedsNoDatabase w) (target : Option Text) :
    (m.currentSchema w target).world = w := by
  rw [currentSchema]
  refine Attempt.andThen_world (path_world m w) fun found hfound => ?_
  cases found with
  | none =>
    obtain ⟨hmemo, hsettings⟩ := h hfound
    dsimp only
    rw [hmemo, hsettings]
    rfl
  | some path => exact ofFile_world w path target

theorem SeekAlike.readSchema_value_eq (h : m.SeekAlike w w') (hdatabase : m.NeedsNoDatabase w)
    (target : Option Text) :
    (m.readSchema w target).value = (m.readSchema w' target).value := by
  have hread : (m.currentSchema w (w.settings.versionFor target)).value =
      (m.currentSchema w' (w'.settings.versionFor target)).value := by
    rw [← h.settings]
    exact h.currentSchema_value_eq hdatabase _
  exact Outcome.value_map_congr
    (m.schema.answer_value_congr (fun w => m.currentSchema w (w.settings.versionFor target)) hread)

theorem SeekAlike.readChecksum_value_eq (h : m.SeekAlike w w') :
    (m.readChecksum w).value = (m.readChecksum w').value :=
  Outcome.value_map_congr
    (m.checksum.answer_value_congr m.currentChecksum h.currentChecksum_value_eq)

theorem NeedsNoDatabase.readSchema_world (h : m.NeedsNoDatabase w) (target : Option Text) :
    (m.readSchema w target).world = w :=
  m.schema.answer_world (h.currentSchema_world _)

theorem SeekAlike.needsNoDatabase (h : m.SeekAlike w w') (hdatabase : m.NeedsNoDatabase w) :
    m.NeedsNoDatabase w' := by
  rw [NeedsNoDatabase, ← h.path_value_eq, ← h.settings]
  exact hdatabase

theorem SeekAlike.of_readSchema (h : m.SeekAlike w w') (target : Option Text) :
    (m.readSchema w target).value.1.SeekAlike w w' := ⟨h.settings, h.here, h.look⟩

end Memo

/-! ### What was not there before -/

/-- A database leaves the files as they are, or adds an empty one. -/
theorem grows_openFile (d : Files.Disk) (path : Text) (mayCreate : Bool) (permissionsOf : Option Text) :
    d.Grows (.bytes ByteArray.empty) (openFile d path mayCreate permissionsOf).1 := by
  have hsame : d.Grows (.bytes ByteArray.empty) d := .refl _ _
  rw [openFile]
  cases hsteps : fileSteps? d path with
  | none => exact hsame
  | some steps =>
    dsimp only
    split
    · exact hsame
    · split
      · exact hsame
      · next hfollow =>
        split
        · next parent hparent =>
          have hne : steps ≠ [] := by
            rintro rfl
            obtain ⟨_, hfilter⟩ := Option.filter_eq_some_iff.mp hsteps
            simp at hfilter
          exact ⟨rfl, rfl, .inr (Files.Entry.adds_write hne hfollow hparent)⟩
        · exact hsame
      · exact hsame

theorem grows_ofDatabase (w : World) (url : Text) (target : Option Text) :
    w.disk.Grows (.bytes ByteArray.empty) (ofDatabase w url target).world.disk ∧
      (ofDatabase w url target).world.settings = w.settings := by
  have hsame : w.disk.Grows (.bytes ByteArray.empty) w.disk := .refl _ _
  rw [ofDatabase]
  cases requestAt url with
  | error failure => exact ⟨hsame, rfl⟩
  | ok request =>
    have hinspect : w.disk.Grows (.bytes ByteArray.empty) (inspect w request).1.disk ∧
        (inspect w request).1.settings = w.settings := by
      rw [inspect]
      cases request.connection w.disk.here with
      | error failure => exact ⟨hsame, rfl⟩
      | ok connection =>
        refine ⟨?_, rfl⟩
        cases connection with
        | memory => exact hsame
        | file path mayCreate permissionsOf => exact grows_openFile w.disk path mayCreate permissionsOf
    dsimp only
    rcases hresult : inspect w request with ⟨w', (_ | _) | _⟩ <;> rw [hresult] at hinspect <;>
      exact hinspect

namespace Memo

variable {m : Memo} {w : World}

theorem path_ne_cause (m : Memo) (w : World) (e : LoadError) : (m.path w).value ≠ .error (.cause e) := by
  rw [path_value_eq]
  cases given? m.schemaPath with
  | some own => exact fun h => by cases h
  | none =>
    cases configured? w with
    | some configured => exact fun h => by cases h
    | none =>
      cases search w.disk m.root with
      | error i => exact fun h => by cases h
      | ok found => exact fun h => by cases h

theorem digestOf_eq_cause_iff {path : Text} {e : LoadError} :
    (digestOf w path).value = .error (.cause e) ↔
      Files.Path.hasNull path = false ∧ ∃ fault, w.disk.read path = .error fault ∧ e = .unreadable path := by
  cases hnull : Files.Path.hasNull path with
  | true =>
    rw [digestOf_value_of_null w hnull]
    exact iff_of_false (fun h => by cases h) fun h => by cases h.1
  | false =>
    rw [digestOf_value w hnull, and_iff_right rfl]
    cases w.disk.read path with
    | ok data => exact iff_of_false (fun h => by cases h) fun h => by cases h.choose_spec.1
    | error fault =>
      constructor
      · intro h
        cases h
        exact ⟨fault, rfl, rfl⟩
      · rintro ⟨_, _, rfl⟩
        rfl

theorem currentChecksum_eq_cause_iff {e : LoadError} :
    (m.currentChecksum w).value = .error (.cause e) ↔
      ∃ path fault, (m.path w).value = .ok (some path) ∧ Files.Path.hasNull path = false ∧
        w.disk.read path = .error fault ∧ e = .unreadable path := by
  cases hpath : (m.path w).value with
  | error failure =>
    rw [currentChecksum, Attempt.andThen_of_error hpath]
    refine iff_of_false (fun h => ?_) ?_
    · cases h
      exact path_ne_cause m w e hpath
    · rintro ⟨_, _, h, _⟩
      cases h
  | ok found =>
    cases found with
    | none =>
      rw [currentChecksum_of_no_file hpath]
      refine iff_of_false (fun h => by cases h) ?_
      rintro ⟨_, _, h, _⟩
      cases h
    | some path =>
      have hmap : (digestOf w path).value.map some = .error (.cause e) ↔
          (digestOf w path).value = .error (.cause e) := by
        cases (digestOf w path).value with
        | ok checksum => exact iff_of_false (fun h => by cases h) fun h => by cases h
        | error failure => exact ⟨fun h => by cases h; rfl, fun h => by cases h; rfl⟩
      rw [currentChecksum_of_path hpath, hmap, digestOf_eq_cause_iff]
      constructor
      · rintro ⟨hnull, fault, hread, rfl⟩
        exact ⟨path, fault, rfl, hnull, hread, rfl⟩
      · rintro ⟨_, fault, heq, hnull, hread, rfl⟩
        cases heq
        exact ⟨hnull, fault, hread, rfl⟩

theorem grows_currentSchema (hpath : (m.path w).value = .ok none) (target : Option Text) :
    w.disk.Grows (.bytes ByteArray.empty) (m.currentSchema w target).world.disk ∧
      (m.currentSchema w target).world.settings = w.settings := by
  rw [currentSchema, Attempt.andThen_world_of_ok hpath, path_world]
  dsimp only
  split
  · exact grows_ofDatabase w _ target
  · exact ⟨.refl _ _, rfl⟩

/-- Where a schema has just been read, no file is in the way of its checksum: the one that was read can be
read again, and one that a database has made is empty. -/
theorem currentChecksum_ne_cause_of_currentSchema {target : Option Text} {schema : Schema}
    (h : (m.currentSchema w target).value = .ok (some schema)) (e : LoadError) :
    (m.currentChecksum (m.currentSchema w target).world).value ≠ .error (.cause e) := by
  intro hchecksum
  obtain ⟨path, fault, hpath, hnull, hread, _⟩ := currentChecksum_eq_cause_iff.mp hchecksum
  cases hfound : (m.path w).value with
  | error failure =>
    rw [currentSchema, Attempt.andThen_of_error hfound] at h
    cases h
  | ok found =>
    cases found with
    | some path' =>
      have hworld : (m.currentSchema w target).world = w :=
        NeedsNoDatabase.currentSchema_world (fun hnone => by rw [hfound] at hnone; cases hnone) target
      rw [hworld] at hpath hread
      cases hfound.symm.trans hpath
      rw [currentSchema_of_path hfound, ofFile_value w hnull, hread] at h
      cases h
    | none =>
      obtain ⟨hown, hnew⟩ := of_path_eq_none hfound
      obtain ⟨hmem, hfile⟩ := of_path_eq_some hpath
      rw [hown] at hfile
      obtain ⟨hgrows, hsettings⟩ := grows_currentSchema hfound target
      have hsought : m.soughtPaths (m.currentSchema w target).world = m.soughtPaths w := by
        rw [soughtPaths, soughtPaths, start, start, Files.Disk.herePath, Files.Disk.herePath, hsettings,
          hgrows.here]
      rw [hsought] at hmem
      have hlook := hgrows.look_of_isFile (hfile.resolve_left fun h => by cases h) (hnew path hmem)
      rw [Files.Disk.read, hlook] at hread
      cases hread

end Memo

end Schema

end RecordMap
