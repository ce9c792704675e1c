import RecordMap.Text.Basic
import RecordMap.Text.Character

/-! Patterns read a text from its beginning and leave a rest. They are searched for from left to
right, and what one match has read is not read again. -/

namespace RecordMap

/-- A pattern sees the character before the text, reads a part of the text and returns the rest. -/
abbrev Pattern (α : Type) := Option Char → Text → Option (α × Text)

structure Found (α : Type) where
  start : Nat
  stop : Nat
  value : α
deriving DecidableEq, Repr

namespace Pattern

variable {α : Type}

/-- The matches in a text that stands at `position`, after `skip` characters already read. -/
def allFrom (p : Pattern α) (skip position : Nat) (before : Option Char) : Text → List (Found α)
  | [] => []
  | c :: cs =>
    match skip with
    | skip + 1 => allFrom p skip (position + 1) (some c) cs
    | 0 =>
      match p before (c :: cs) with
      | some (a, rest) =>
        let size := (c :: cs).length - rest.length
        ⟨position, position + size, a⟩ :: allFrom p (size - 1) (position + 1) (some c) cs
      | none => allFrom p 0 (position + 1) (some c) cs

def all (p : Pattern α) (t : Text) : List (Found α) := p.allFrom 0 0 none t

theorem allFrom_skip (p : Pattern α) (s t : Text) (position : Nat) (before : Option Char) :
    p.allFrom s.length position before (s ++ t) =
      p.allFrom 0 (position + s.length) (s.getLast?.or before) t := by
  induction s generalizing position before with
  | nil => simp
  | cons c s ih =>
    rw [List.length_cons, List.cons_append, allFrom, ih, List.getLast?_cons]
    simp only [Nat.add_assoc, Nat.add_comm 1]
    cases s.getLast? <;> rfl

theorem allFrom_of_match {p : Pattern α} {s rest : Text} {a : α} {before : Option Char}
    (position : Nat) (hs : s ≠ []) (h : p before (s ++ rest) = some (a, rest)) :
    p.allFrom 0 position before (s ++ rest) =
      ⟨position, position + s.length, a⟩ ::
        p.allFrom 0 (position + s.length) (s.getLast?.or before) rest := by
  cases s with
  | nil => exact absurd rfl hs
  | cons c s =>
    have hsize : (s ++ rest).length + 1 - rest.length = s.length + 1 := by
      rw [List.length_append]
      omega
    rw [List.cons_append] at h
    simp only [List.cons_append, allFrom, h, hsize, Nat.add_sub_cancel, allFrom_skip,
      List.length_cons, List.getLast?_cons, Nat.add_assoc, Nat.add_comm 1]
    cases s.getLast? <;> rfl

theorem allFrom_of_none {p : Pattern α} {c : Char} {cs : Text} {before : Option Char}
    (position : Nat) (h : p before (c :: cs) = none) :
    p.allFrom 0 position before (c :: cs) = p.allFrom 0 (position + 1) (some c) cs := by
  rw [allFrom, h]

def nextFrom? (p : Pattern α) (position : Nat) (before : Option Char) : Text → Option (Found α)
  | [] => none
  | c :: cs =>
    match p before (c :: cs) with
    | some (a, rest) => some ⟨position, position + ((c :: cs).length - rest.length), a⟩
    | none => nextFrom? p (position + 1) (some c) cs

/-- The leftmost match that does not start before a position. The character before the position is
still seen. -/
def next? (p : Pattern α) (t : Text) (position : Nat) : Option (Found α) :=
  p.nextFrom? position (t.take position).getLast? (t.drop position)

theorem lt_stop_of_nextFrom? {p : Pattern α}
    (hp : ∀ b t a rest, p b t = some (a, rest) → rest.length < t.length) {position : Nat}
    {before : Option Char} {t : Text} {f : Found α} (h : p.nextFrom? position before t = some f) :
    position < f.stop := by
  induction t generalizing position before with
  | nil => cases h
  | cons c cs ih =>
    rw [nextFrom?] at h
    split at h
    · next a rest hmatch =>
      cases h
      have := hp _ _ _ _ hmatch
      exact Nat.lt_add_of_pos_right (Nat.sub_pos_of_lt this)
    · exact Nat.lt_of_succ_lt (ih h)

/-- What the leftmost match in a text behind `before` finds. -/
def firstAfter (p : Pattern α) (before : Option Char) : Text → Option α
  | [] => none
  | c :: cs =>
    match p before (c :: cs) with
    | some (a, _) => some a
    | none => firstAfter p (some c) cs

def first? (p : Pattern α) (t : Text) : Option α := p.firstAfter none t

def occursIn (p : Pattern α) (t : Text) : Bool := (p.first? t).isSome

/-- Replaces every match by `f` of its value and its text. -/
def replaceFrom (p : Pattern α) (f : α → Text → Text) (skip : Nat) (before : Option Char) :
    Text → Text
  | [] => []
  | c :: cs =>
    match skip with
    | skip + 1 => replaceFrom p f skip (some c) cs
    | 0 =>
      match p before (c :: cs) with
      | some (a, rest) =>
        let size := (c :: cs).length - rest.length
        f a ((c :: cs).take size) ++ replaceFrom p f (size - 1) (some c) cs
      | none => c :: replaceFrom p f 0 (some c) cs

def replaceAll (p : Pattern α) (f : α → Text → Text) (t : Text) : Text := p.replaceFrom f 0 none t

theorem replaceFrom_skip (p : Pattern α) (f : α → Text → Text) (s t : Text) (before : Option Char) :
    p.replaceFrom f s.length before (s ++ t) = p.replaceFrom f 0 (s.getLast?.or before) t := by
  induction s generalizing before with
  | nil => simp
  | cons c s ih =>
    rw [List.length_cons, List.cons_append, replaceFrom, ih, List.getLast?_cons]
    cases s.getLast? <;> rfl

theorem replaceFrom_of_match {p : Pattern α} {s rest : Text} {a : α} {before : Option Char}
    (f : α → Text → Text) (hs : s ≠ []) (h : p before (s ++ rest) = some (a, rest)) :
    p.replaceFrom f 0 before (s ++ rest) =
      f a s ++ p.replaceFrom f 0 (s.getLast?.or before) rest := by
  cases s with
  | nil => exact absurd rfl hs
  | cons c s =>
    have hsize : (s ++ rest).length + 1 - rest.length = s.length + 1 := by
      rw [List.length_append]
      omega
    rw [List.cons_append] at h
    simp only [List.cons_append, replaceFrom, h, hsize, Nat.add_sub_cancel, replaceFrom_skip,
      List.length_cons, List.take_succ_cons, List.take_left, List.getLast?_cons]
    cases s.getLast? <;> rfl

theorem replaceFrom_of_none {p : Pattern α} {c : Char} {cs : Text} {before : Option Char}
    (f : α → Text → Text) (h : p before (c :: cs) = none) :
    p.replaceFrom f 0 before (c :: cs) = c :: p.replaceFrom f 0 (some c) cs := by
  rw [replaceFrom, h]

end Pattern

namespace Text

def after? (c : Char) : Text → Option Text
  | [] => none
  | d :: cs => if d = c then some cs else none

def afterAll? (beginning : String) (t : Text) : Option Text :=
  beginning.toList.foldlM (fun t c => after? c t) t

def dropBlanks (t : Text) : Text := t.dropWhile isBlank

def word? (t : Text) : Option (Text × Text) :=
  match t.takeWhile isWordChar with
  | [] => none
  | w => some (w, t.dropWhile isWordChar)

/-- No word continues from the character before. -/
def startsWord (before : Option Char) : Bool := !before.any isWordChar

theorem after?_eq_some_iff {c : Char} {t rest : Text} : after? c t = some rest ↔ t = c :: rest := by
  cases t with
  | nil => simp [after?]
  | cons d cs => simp only [after?]; split <;> simp_all

theorem afterAll?_eq_some_iff {beginning : String} {t rest : Text} :
    afterAll? beginning t = some rest ↔ t = beginning.toList ++ rest := by
  rw [afterAll?]
  generalize beginning.toList = b
  induction b generalizing t with
  | nil => simp
  | cons c b ih =>
    rw [List.foldlM_cons, List.cons_append]
    constructor
    · intro h
      obtain ⟨u, hu, h⟩ := Option.bind_eq_some_iff.mp h
      rw [after?_eq_some_iff.mp hu, ih.mp h]
    · rintro rfl
      exact Option.bind_eq_some_iff.mpr ⟨b ++ rest, after?_eq_some_iff.mpr rfl, ih.mpr rfl⟩

theorem word?_eq_some {t w rest : Text} (h : word? t = some (w, rest)) :
    t = w ++ rest ∧ w ≠ [] ∧ w.all isWordChar := by
  unfold word? at h
  split at h
  · cases h
  · next hw =>
    cases h
    refine ⟨(List.takeWhile_append_dropWhile).symm, hw, ?_⟩
    exact List.all_takeWhile

end Text

def Pattern.verbatim (s : String) : Pattern Unit := fun _ t => (Text.afterAll? s t).map ((), ·)

end RecordMap
