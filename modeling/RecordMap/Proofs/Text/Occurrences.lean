import RecordMap.Proofs.Text.Search

/-! The positions at which a pattern matches. A search from a position finds the first of them, and
a pattern of whose matches none starts within another one finds them all. -/

namespace RecordMap.Pattern

variable {α β : Type} {p : Pattern α}

def readAt? (p : Pattern α) (t : Text) (position : Nat) : Option (α × Text) :=
  p (t.take position).getLast? (t.drop position)

theorem readAt?_append (front t : Text) :
    p.readAt? (front ++ t) front.length = p front.getLast? t := by
  unfold readAt?
  rw [List.take_left, List.drop_left]

/-! ### The search from a position -/

/-- A match that starts at a position or behind it, and none starts in between. -/
structure FoundFrom (p : Pattern α) (t : Text) (position : Nat) (f : Found α) : Prop where
  behind : position ≤ f.start
  inside : f.start < t.length
  hit : ∃ rest, p.readAt? t f.start = some (f.value, rest) ∧
    f.stop = f.start + (t.length - f.start - rest.length)
  first : ∀ q, position ≤ q → q < f.start → p.readAt? t q = none

theorem forall_readAt?_cons {front cs : Text} {c : Char} {limit : Nat}
    (hc : p front.getLast? (c :: cs) = none)
    (h : ∀ q, (front ++ [c]).length ≤ q → q < limit → p.readAt? (front ++ [c] ++ cs) q = none) :
    ∀ q, front.length ≤ q → q < limit → p.readAt? (front ++ c :: cs) q = none := by
  intro q hstart hlimit
  rcases Nat.eq_or_lt_of_le hstart with rfl | hlt
  · rw [readAt?_append, hc]
  · have hlength : (front ++ [c]).length = front.length + 1 := List.length_append
    have hq := h q (hlength ▸ hlt) hlimit
    simpa using hq

theorem nextFrom?_cons {front cs : Text} {c : Char} (hc : p front.getLast? (c :: cs) = none) :
    p.nextFrom? front.length front.getLast? (c :: cs) =
      p.nextFrom? (front ++ [c]).length (front ++ [c]).getLast? cs := by
  have hlength : (front ++ [c]).length = front.length + 1 := List.length_append
  rw [nextFrom?, hc, List.getLast?_concat, hlength]

theorem foundFrom_of_nextFrom? {front t : Text} {f : Found α}
    (h : p.nextFrom? front.length front.getLast? t = some f) :
    p.FoundFrom (front ++ t) front.length f := by
  induction t generalizing front with
  | nil => cases h
  | cons c cs ih =>
    cases hmatch : p front.getLast? (c :: cs) with
    | some found =>
      obtain ⟨a, rest⟩ := found
      rw [nextFrom?, hmatch] at h
      cases h
      refine ⟨Nat.le_refl _, by simp, ⟨rest, ?_, by simp⟩, fun q hstart hlt => ?_⟩
      · rw [readAt?_append, hmatch]
      · exact absurd hstart (Nat.not_le_of_lt hlt)
    | none =>
      rw [nextFrom?_cons hmatch] at h
      obtain ⟨hbehind, hinside, hhit, hfirst⟩ := ih h
      have hlength : (front ++ [c]).length = front.length + 1 := List.length_append
      refine ⟨?_, by simpa using hinside, by simpa using hhit, forall_readAt?_cons hmatch hfirst⟩
      omega

theorem forall_readAt?_of_nextFrom? {front t : Text}
    (h : p.nextFrom? front.length front.getLast? t = none) :
    ∀ q, front.length ≤ q → q < (front ++ t).length → p.readAt? (front ++ t) q = none := by
  induction t generalizing front with
  | nil =>
    intro q hstart hlt
    rw [List.append_nil] at hlt
    exact absurd hstart (Nat.not_le_of_lt hlt)
  | cons c cs ih =>
    cases hmatch : p front.getLast? (c :: cs) with
    | some found =>
      rw [nextFrom?, hmatch] at h
      cases h
    | none =>
      rw [nextFrom?_cons hmatch] at h
      have hrest := ih h
      apply forall_readAt?_cons hmatch
      simpa using hrest

theorem nextFrom?_take_drop {t : Text} {position : Nat} (h : position ≤ t.length) :
    p.next? t position =
      p.nextFrom? (t.take position).length (t.take position).getLast? (t.drop position) := by
  unfold next?
  rw [List.length_take_of_le h]

theorem foundFrom_of_next? {t : Text} {position : Nat} {f : Found α}
    (h : p.next? t position = some f) : p.FoundFrom t position f := by
  rcases Nat.le_total position t.length with hle | hge
  · rw [nextFrom?_take_drop hle] at h
    have hfound := foundFrom_of_nextFrom? h
    rwa [List.take_append_drop, List.length_take_of_le hle] at hfound
  · unfold next? at h
    rw [List.drop_eq_nil_of_le hge] at h
    cases h

theorem readAt?_eq_none_of_next? {t : Text} {position q : Nat} (h : p.next? t position = none)
    (hstart : position ≤ q) (hlt : q < t.length) : p.readAt? t q = none := by
  have hle : position ≤ t.length := Nat.le_trans hstart (Nat.le_of_lt hlt)
  rw [nextFrom?_take_drop hle] at h
  have hnone := forall_readAt?_of_nextFrom? h
  rw [List.take_append_drop, List.length_take_of_le hle] at hnone
  exact hnone q hstart hlt

/-! ### Matches in order -/

theorem add_skip_le_start {skip position : Nat} {before : Option Char} {t : Text} {f : Found α}
    (h : f ∈ p.allFrom skip position before t) : position + skip ≤ f.start := by
  induction t generalizing skip position before with
  | nil => cases h
  | cons c t ih =>
    cases skip with
    | succ skip =>
      have := ih h
      omega
    | zero => exact le_start h

theorem pairwise_allFrom (p : Pattern α) (skip position : Nat) (before : Option Char) (t : Text) :
    (p.allFrom skip position before t).Pairwise fun f g => f.stop ≤ g.start := by
  induction t generalizing skip position before with
  | nil => exact .nil
  | cons c t ih =>
    cases skip with
    | succ skip => exact ih ..
    | zero =>
      cases hp : p before (c :: t) with
      | none =>
        rw [allFrom_of_none position hp]
        exact ih ..
      | some found =>
        simp only [allFrom, hp]
        refine .cons (fun g hg => ?_) (ih ..)
        have := add_skip_le_start hg
        dsimp only
        omega

/-! ### Matches that hold no other one -/

/-- A match has characters, and no other match starts within it. -/
structure ReadsTokens (p : Pattern α) : Prop where
  reads : ∀ {before t a rest}, p before t = some (a, rest) → ∃ c s, t = c :: (s ++ rest)
  passes : ∀ {before c s a rest}, p before (c :: (s ++ rest)) = some (a, rest) →
    p.PassesOver (some c) s rest

theorem ReadsTokens.start_lt_stop (hp : p.ReadsTokens) {skip position : Nat} {before : Option Char}
    {t : Text} {f : Found α} (h : f ∈ p.allFrom skip position before t) : f.start < f.stop := by
  induction t generalizing skip position before with
  | nil => cases h
  | cons c t ih =>
    cases skip with
    | succ skip => exact ih h
    | zero =>
      cases hmatch : p before (c :: t) with
      | none =>
        rw [allFrom_of_none position hmatch] at h
        exact ih h
      | some found =>
        simp only [allFrom, hmatch] at h
        rcases List.mem_cons.mp h with rfl | h
        · obtain ⟨d, s, htext⟩ := hp.reads hmatch
          have hlength := congrArg List.length htext
          rw [List.length_cons, List.length_cons, List.length_append] at hlength
          dsimp only
          rw [List.length_cons]
          omega
        · exact ih h

/-- The match at the beginning of a text that stands at `position`. -/
def firstAt (p : Pattern α) (position : Nat) (before : Option Char) (t : Text) : Option (Found α) :=
  (p before t).map fun (a, rest) => ⟨position, position + (t.length - rest.length), a⟩

variable (hp : p.ReadsTokens)

include hp

theorem allFrom_cons (position : Nat) (before : Option Char) (c : Char) (cs : Text) :
    p.allFrom 0 position before (c :: cs) =
      (p.firstAt position before (c :: cs)).toList ++ p.allFrom 0 (position + 1) (some c) cs := by
  unfold firstAt
  cases hmatch : p before (c :: cs) with
  | none => exact allFrom_of_none position hmatch
  | some found =>
    obtain ⟨a, rest⟩ := found
    obtain ⟨c', s, htext⟩ := hp.reads hmatch
    obtain ⟨rfl, rfl⟩ := List.cons.inj htext
    have hsize : (c :: (s ++ rest)).length - rest.length = s.length + 1 := by
      rw [List.length_cons, List.length_append]
      omega
    have hstop : position + 1 + s.length = position + (s.length + 1) := by omega
    rw [Option.map_some, allFrom_of_passesOver (position + 1) (hp.passes hmatch), hstop]
    dsimp only
    rw [hsize, ← List.cons_append, allFrom_of_match position (List.cons_ne_nil c s) hmatch,
      getLast?_cons_or, List.length_cons]
    rfl

theorem filter_allFrom (position : Nat) (before : Option Char) (s t : Text) :
    (p.allFrom 0 position before (s ++ t)).filter (position + s.length ≤ ·.start) =
      p.allFrom 0 (position + s.length) (s.getLast?.or before) t := by
  induction s generalizing position before with
  | nil =>
    rw [List.nil_append, List.length_nil, Nat.add_zero]
    exact List.filter_eq_self.mpr fun f hf => decide_eq_true (le_start hf)
  | cons c s ih =>
    have hlength : position + (c :: s).length = position + 1 + s.length := by
      rw [List.length_cons]
      omega
    have hfirst : (p.firstAt position before (c :: (s ++ t))).toList.filter
        (position + 1 + s.length ≤ ·.start) = [] := by
      unfold firstAt
      cases p before (c :: (s ++ t)) with
      | none => rfl
      | some found => simp; omega
    rw [hlength, getLast?_cons_or, List.cons_append, allFrom_cons hp, List.filter_append, hfirst, ih]
    rfl

theorem nextFrom?_eq_findSome? {q : Pattern β} {kind : α → Option β}
    (hq : ∀ before t, q before t = (p before t).bind fun (a, rest) => (kind a).map (·, rest))
    (position : Nat) (before : Option Char) (t : Text) :
    q.nextFrom? position before t = (p.allFrom 0 position before t).findSome? fun f =>
      (kind f.value).map fun b => ⟨f.start, f.stop, b⟩ := by
  induction t generalizing position before with
  | nil => rfl
  | cons c cs ih =>
    rw [allFrom_cons hp, List.findSome?_append, nextFrom?, hq, ih]
    unfold firstAt
    cases p before (c :: cs) with
    | none => rfl
    | some found => cases hkind : kind found.1 <;> simp [hkind]

end RecordMap.Pattern
