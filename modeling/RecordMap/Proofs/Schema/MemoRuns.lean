import Mathlib.Data.List.Induction
import RecordMap.Schema.Memo

/-! Runs of calls on a memo, in worlds that change between the calls. Since the last reset each slot
holds what the first successful call of its kind read, and from then on nothing is read. -/

namespace RecordMap.Schema

namespace Slot

variable {α : Type}

def ofOption : Option α → Slot α
  | some value => .filled value
  | none => .empty

def Keeps (slot slot' : Slot α) : Prop := ∀ value, slot = .filled value → slot' = .filled value

theorem Keeps.refl (slot : Slot α) : slot.Keeps slot := fun _ h => h

theorem Keeps.trans {slot slot' slot'' : Slot α} (h : slot.Keeps slot') (h' : slot'.Keeps slot'') :
    slot.Keeps slot'' := fun value hvalue => h' value (h value hvalue)

variable {slot : Slot α} {read : World → Attempt α} {w : World}

theorem answer_of_ok {value : α} (h : (slot.answer read w).value.2 = .ok value) :
    (slot.answer read w).value.1 = .filled value := by
  cases slot with
  | filled held =>
    cases h
    rfl
  | empty =>
    simp only [answer, Outcome.map] at h ⊢
    cases hread : (read w).value with
    | ok found =>
      rw [hread] at h
      cases h
      rfl
    | error failure =>
      rw [hread] at h
      cases h

theorem answer_of_empty (h : slot = .empty) : (slot.answer read w).value.2 = (read w).value := by
  rw [h, answer, Outcome.map]
  cases (read w).value <;> rfl

theorem answer_of_error {failure : Failure LoadError}
    (h : (slot.answer read w).value.2 = .error failure) : (slot.answer read w).value.1 = slot := by
  cases slot with
  | filled held => cases h
  | empty =>
    simp only [answer, Outcome.map] at h ⊢
    cases hread : (read w).value with
    | ok found =>
      rw [hread] at h
      cases h
    | error failure => rfl

theorem answer_eq_error_iff {failure : Failure LoadError} :
    (slot.answer read w).value.2 = .error failure ↔
      slot = .empty ∧ (read w).value = .error failure := by
  cases slot with
  | filled held => exact iff_of_false (fun h => by cases h) fun h => by cases h.1
  | empty => rw [answer_of_empty rfl, and_iff_right rfl]

theorem keeps_answer (slot : Slot α) (read : World → Attempt α) (w : World) :
    slot.Keeps (slot.answer read w).value.1 := by
  rintro held rfl
  rfl

/-- An empty slot takes what is read, and a filled one stays as it is. -/
theorem answer_ofOption (held : Option α) (read : World → Attempt α) (w : World) :
    ((ofOption held).answer read w).value.1 = ofOption (held.or (read w).value.toOption) := by
  cases held with
  | some value => rfl
  | none =>
    rw [ofOption, answer, Outcome.map]
    cases (read w).value <;> rfl

theorem answer_world (slot : Slot α) (h : (read w).world = w) : (slot.answer read w).world = w := by
  cases slot with
  | filled held => rfl
  | empty => exact h

theorem answer_value_congr (slot : Slot α) (read : World → Attempt α) {w w' : World}
    (h : (read w).value = (read w').value) :
    (slot.answer read w).value = (slot.answer read w').value := by
  cases slot with
  | filled held => rfl
  | empty => exact congrArg keep h

end Slot

namespace Memo

inductive Call where
  | schema (target : Option Text)
  | checksum
  | reset
deriving DecidableEq, Repr

structure Event where
  world : World
  call : Call

inductive Answer where
  | schema (result : Except (Failure LoadError) (Option Schema))
  | checksum (result : Except (Failure LoadError) (Option Text))
  | done

def Answer.failure? : Answer → Option (Failure LoadError)
  | schema (.error e) => some e
  | checksum (.error e) => some e
  | _ => none

def answer (m : Memo) (w : World) : Call → Outcome (Memo × Answer)
  | .schema target => Outcome.map (fun (m, result) => (m, .schema result)) (m.readSchema w target)
  | .checksum => Outcome.map (fun (m, result) => (m, .checksum result)) (m.readChecksum w)
  | .reset => ⟨w, (m.reset, .done), []⟩

/-- The memo that a run of calls leaves. What a call does to its world is not passed on: the next
call has a world of its own. -/
def run (m : Memo) : List Event → Memo
  | [] => m
  | e :: es => run (m.answer e.world e.call).value.1 es

def sinceReset (calls : List Event) : List Event :=
  (calls.reverse.takeWhile fun e => e.call ≠ .reset).reverse

/-- What a call for the schema reads in its world, if it is one and the reading succeeds. -/
def schemaRead? (m : Memo) (e : Event) : Option (Option Schema) :=
  match e.call with
  | .schema target =>
    (m.currentSchema e.world (e.world.settings.versionFor target)).value.toOption
  | _ => none

def checksumRead? (m : Memo) (e : Event) : Option (Option Text) :=
  match e.call with
  | .checksum => (m.currentChecksum e.world).value.toOption
  | _ => none

def firstSchema? (m : Memo) (segment : List Event) : Option (Option Schema) :=
  segment.findSome? m.schemaRead?

def firstChecksum? (m : Memo) (segment : List Event) : Option (Option Text) :=
  segment.findSome? m.checksumRead?

/-- The memo with what the first successful calls of a segment read in its slots. -/
def holding (m : Memo) (segment : List Event) : Memo :=
  { m with
    schema := .ofOption (m.firstSchema? segment)
    checksum := .ofOption (m.firstChecksum? segment) }

def keepSchema (m : Memo) :
    Except (Failure LoadError) (Option Schema) → Memo × Except (Failure LoadError) (Option Schema)
  | .ok schema => ({ m with schema := .filled schema }, .ok schema)
  | .error e => (m, .error e)

def keepChecksum (m : Memo) :
    Except (Failure LoadError) (Option Text) → Memo × Except (Failure LoadError) (Option Text)
  | .ok checksum => ({ m with checksum := .filled checksum }, .ok checksum)
  | .error e => (m, .error e)

theorem run_append (m : Memo) (es fs : List Event) : m.run (es ++ fs) = (m.run es).run fs := by
  induction es generalizing m with
  | nil => rfl
  | cons e es ih => simpa only [List.cons_append, run] using ih (m.answer e.world e.call).value.1

theorem sinceReset_append_reset (calls : List Event) {e : Event} (h : e.call = .reset) :
    sinceReset (calls ++ [e]) = [] := by
  simp [sinceReset, h]

theorem sinceReset_append_singleton (calls : List Event) {e : Event} (h : e.call ≠ .reset) :
    sinceReset (calls ++ [e]) = sinceReset calls ++ [e] := by
  simp [sinceReset, h]

theorem firstSchema?_append (m : Memo) (es fs : List Event) :
    m.firstSchema? (es ++ fs) = (m.firstSchema? es).or (m.firstSchema? fs) :=
  List.findSome?_append

theorem firstChecksum?_append (m : Memo) (es fs : List Event) :
    m.firstChecksum? (es ++ fs) = (m.firstChecksum? es).or (m.firstChecksum? fs) :=
  List.findSome?_append

/-! ### One call -/

theorem readSchema_of_filled {m : Memo} {schema : Option Schema} (h : m.schema = .filled schema)
    (w : World) (target : Option Text) : m.readSchema w target = ⟨w, (m, .ok schema), []⟩ := by
  rw [readSchema, h, Slot.answer, Outcome.map, ← h]

theorem readChecksum_of_filled {m : Memo} {checksum : Option Text}
    (h : m.checksum = .filled checksum) (w : World) :
    m.readChecksum w = ⟨w, (m, .ok checksum), []⟩ := by
  rw [readChecksum, h, Slot.answer, Outcome.map, ← h]

theorem readSchema_of_empty {m : Memo} (h : m.schema = .empty) (w : World) (target : Option Text) :
    m.readSchema w target =
      Outcome.map m.keepSchema (m.currentSchema w (w.settings.versionFor target)) := by
  rw [readSchema, h]
  simp only [Slot.answer, Outcome.map]
  cases (m.currentSchema w (w.settings.versionFor target)).value with
  | ok schema => rfl
  | error failure => rw [Slot.keep, keepSchema, ← h]

theorem readChecksum_of_empty {m : Memo} (h : m.checksum = .empty) (w : World) :
    m.readChecksum w = Outcome.map m.keepChecksum (m.currentChecksum w) := by
  rw [readChecksum, h]
  simp only [Slot.answer, Outcome.map]
  cases (m.currentChecksum w).value with
  | ok checksum => rfl
  | error failure => rw [Slot.keep, keepChecksum, ← h]

theorem readSchema_ok {m : Memo} {w : World} {target : Option Text} {schema : Option Schema}
    (h : (m.readSchema w target).value.2 = .ok schema) :
    (m.readSchema w target).value.1.schema = .filled schema := Slot.answer_of_ok h

theorem readChecksum_ok {m : Memo} {w : World} {checksum : Option Text}
    (h : (m.readChecksum w).value.2 = .ok checksum) :
    (m.readChecksum w).value.1.checksum = .filled checksum := Slot.answer_of_ok h

theorem answer_of_failure {m : Memo} {w : World} {c : Call} {e : Failure LoadError}
    (h : (m.answer w c).value.2.failure? = some e) : (m.answer w c).value.1 = m := by
  cases c with
  | schema target =>
    change (Answer.schema (m.readSchema w target).value.2).failure? = some e at h
    cases hresult : (m.readSchema w target).value.2 with
    | ok schema =>
      rw [hresult] at h
      cases h
    | error failure => exact congrArg (fun schema => { m with schema }) (Slot.answer_of_error hresult)
  | checksum =>
    change (Answer.checksum (m.readChecksum w).value.2).failure? = some e at h
    cases hresult : (m.readChecksum w).value.2 with
    | ok checksum =>
      rw [hresult] at h
      cases h
    | error failure => exact congrArg (fun checksum => { m with checksum }) (Slot.answer_of_error hresult)
  | reset => cases h

/-- A call makes of what a segment left what the segment with the call leaves. -/
theorem answer_holding (m : Memo) (segment : List Event) {e : Event} (h : e.call ≠ .reset) :
    ((m.holding segment).answer e.world e.call).value.1 = m.holding (segment ++ [e]) := by
  obtain ⟨w, c⟩ := e
  cases c with
  | schema target =>
    have hread : m.firstSchema? [⟨w, .schema target⟩] =
        (m.currentSchema w (w.settings.versionFor target)).value.toOption := by
      simp [firstSchema?, schemaRead?]
    have hkept : m.firstChecksum? (segment ++ [⟨w, .schema target⟩]) = m.firstChecksum? segment := by
      simp [firstChecksum?, checksumRead?]
    rw [holding, holding, hkept, firstSchema?_append, hread]
    exact congrArg (fun schema => { m.holding segment with schema })
      (Slot.answer_ofOption (m.firstSchema? segment) (fun w => m.currentSchema w _) w)
  | checksum =>
    have hread : m.firstChecksum? [⟨w, .checksum⟩] = (m.currentChecksum w).value.toOption := by
      simp [firstChecksum?, checksumRead?]
    have hkept : m.firstSchema? (segment ++ [⟨w, .checksum⟩]) = m.firstSchema? segment := by
      simp [firstSchema?, schemaRead?]
    rw [holding, holding, hkept, firstChecksum?_append, hread]
    exact congrArg (fun checksum => { m.holding segment with checksum })
      (Slot.answer_ofOption (m.firstChecksum? segment) m.currentChecksum w)
  | reset => exact absurd rfl h

theorem keeps_answer {m : Memo} {e : Event} (h : e.call ≠ .reset) :
    m.schema.Keeps (m.answer e.world e.call).value.1.schema ∧
      m.checksum.Keeps (m.answer e.world e.call).value.1.checksum := by
  obtain ⟨w, c⟩ := e
  cases c with
  | schema target => exact ⟨Slot.keeps_answer _ _ w, .refl _⟩
  | checksum => exact ⟨.refl _, Slot.keeps_answer _ _ w⟩
  | reset => exact absurd rfl h

/-! ### Runs -/

theorem run_reset (m : Memo) (calls : List Event) :
    m.reset.run calls = m.holding (sinceReset calls) := by
  induction calls using List.reverseRecOn with
  | nil => rfl
  | append_singleton calls e ih =>
    rw [run_append, ih, run, run]
    by_cases h : e.call = .reset
    · rw [sinceReset_append_reset calls h, h]
      rfl
    · rw [sinceReset_append_singleton calls h, answer_holding m _ h]

theorem keeps_run {m : Memo} {es : List Event} (h : ∀ e ∈ es, e.call ≠ .reset) :
    m.schema.Keeps (m.run es).schema ∧ m.checksum.Keeps (m.run es).checksum := by
  induction es generalizing m with
  | nil => exact ⟨.refl _, .refl _⟩
  | cons e es ih =>
    obtain ⟨he, hes⟩ := List.forall_mem_cons.mp h
    obtain ⟨hschema, hchecksum⟩ := @keeps_answer m e he
    exact ⟨hschema.trans (ih hes).1, hchecksum.trans (ih hes).2⟩

/-- The law of the memo, for a call after any run. What the first success since the last reset read
is the answer of every later call of its kind, for which nothing is read: neither the world nor the
log shows it. Before that success a call reads the sources of its own world, and if it fails the
memo stays as it was. Neither kind of call changes the slot of the other. -/
theorem first_success_answers_until_reset (m : Memo) (calls : List Event) :
    let segment := sinceReset calls
    let now := m.reset.run calls
    (now.schema = .ofOption (m.firstSchema? segment) ∧
      now.checksum = .ofOption (m.firstChecksum? segment)) ∧
    (∀ w target, now.readSchema w target =
      match m.firstSchema? segment with
      | some schema => ⟨w, (now, .ok schema), []⟩
      | none => Outcome.map now.keepSchema (m.currentSchema w (w.settings.versionFor target))) ∧
    (∀ w, now.readChecksum w =
      match m.firstChecksum? segment with
      | some checksum => ⟨w, (now, .ok checksum), []⟩
      | none => Outcome.map now.keepChecksum (m.currentChecksum w)) ∧
    (∀ w target schema later w' target', (now.readSchema w target).value.2 = .ok schema →
      (∀ e ∈ later, e.call ≠ .reset) →
      let kept := (now.readSchema w target).value.1.run later
      kept.readSchema w' target' = ⟨w', (kept, .ok schema), []⟩) ∧
    (∀ w checksum later w', (now.readChecksum w).value.2 = .ok checksum →
      (∀ e ∈ later, e.call ≠ .reset) →
      let kept := (now.readChecksum w).value.1.run later
      kept.readChecksum w' = ⟨w', (kept, .ok checksum), []⟩) ∧
    (∀ w c e, (now.answer w c).value.2.failure? = some e → (now.answer w c).value.1 = now) ∧
    (∀ w target, (now.readSchema w target).value.1.checksum = now.checksum) ∧
    ∀ w, (now.readChecksum w).value.1.schema = now.schema := by
  intro segment now
  have hnow : now = m.holding segment := run_reset m calls
  refine ⟨?_, ?_, ?_, ?_, ?_, fun w c e h => answer_of_failure h, fun _ _ => rfl, fun _ => rfl⟩
  · rw [hnow]
    exact ⟨rfl, rfl⟩
  · intro w target
    rw [hnow]
    cases h : m.firstSchema? segment with
    | some schema => exact readSchema_of_filled (by rw [holding, h, Slot.ofOption]) w target
    | none => exact readSchema_of_empty (by rw [holding, h, Slot.ofOption]) w target
  · intro w
    rw [hnow]
    cases h : m.firstChecksum? segment with
    | some checksum => exact readChecksum_of_filled (by rw [holding, h, Slot.ofOption]) w
    | none => exact readChecksum_of_empty (by rw [holding, h, Slot.ofOption]) w
  · intro w target schema later w' target' h hlater kept
    exact readSchema_of_filled ((keeps_run hlater).1 _ (readSchema_ok h)) w' target'
  · intro w checksum later w' h hlater kept
    exact readChecksum_of_filled ((keeps_run hlater).2 _ (readChecksum_ok h)) w'

end Memo

end RecordMap.Schema
