/-! Text as a sequence of characters, with positions that count characters. -/

namespace RecordMap

abbrev Text := List Char

namespace Text

/-- How many characters stand before a position. A position below zero counts from the end. -/
def offset (t : Text) (position : Int) : Nat :=
  if position < 0 then (t.length + position).toNat else position.toNat

def slice (t : Text) (start stop : Int) : Text :=
  (t.drop (t.offset start)).take (t.offset stop - t.offset start)

/-- The number of the line, counted from one, that holds a position. -/
def lineAt (t : Text) (position : Int) : Nat :=
  (t.take (t.offset position)).count '\n' + 1

/-- The text with every carriage return, alone or before a line feed, written as one line feed. -/
def unifyNewlines : Text → Text
  | '\r' :: '\n' :: cs => '\n' :: unifyNewlines cs
  | '\r' :: cs => '\n' :: unifyNewlines cs
  | c :: cs => c :: unifyNewlines cs
  | [] => []

theorem not_mem_unifyNewlines (t : Text) : '\r' ∉ unifyNewlines t := by
  fun_induction unifyNewlines t with
  | case1 cs ih => simp [ih]
  | case2 cs _ ih => simp [ih]
  | case3 c cs _ hc ih =>
    rw [List.mem_cons, not_or]
    exact ⟨fun h => hc h.symm, ih⟩
  | case4 => simp

def splitAt (separator : Char) : Text → List Text
  | [] => [[]]
  | c :: cs =>
    if c = separator then [] :: splitAt separator cs
    else match splitAt separator cs with
      | [] => [[c]]
      | part :: parts => (c :: part) :: parts

def splitFirst? (separator : Char) : Text → Option (Text × Text)
  | [] => none
  | c :: cs =>
    if c = separator then some ([], cs)
    else (splitFirst? separator cs).map fun (front, back) => (c :: front, back)

def splitLast? (separator : Char) (t : Text) : Option (Text × Text) :=
  (splitFirst? separator t.reverse).map fun (back, front) => (front.reverse, back.reverse)

/-- The text without the characters of a class at its beginning and at its end. -/
def trim (isOuter : Char → Bool) (t : Text) : Text :=
  ((t.dropWhile isOuter).reverse.dropWhile isOuter).reverse

def byteSize : Text → Nat
  | [] => 0
  | c :: cs => c.utf8Size + byteSize cs

/-- The first text comes before the second, or they are equal, in lexicographic order by code
point. -/
def precedes : Text → Text → Bool
  | [], _ => true
  | _ :: _, [] => false
  | c :: cs, d :: ds => c.toNat < d.toNat || (c == d && precedes cs ds)

theorem precedes_trans {s t u : Text} (hst : s.precedes t = true) (htu : t.precedes u = true) :
    s.precedes u = true := by
  induction s generalizing t u with
  | nil => rfl
  | cons c cs ih =>
    match t, u with
    | [], _ => simp [precedes] at hst
    | _ :: _, [] => simp [precedes] at htu
    | d :: ds, e :: es =>
      simp only [precedes, Bool.or_eq_true, decide_eq_true_eq, Bool.and_eq_true, beq_iff_eq] at *
      rcases hst with hcd | ⟨rfl, hcs⟩
      · rcases htu with hde | ⟨rfl, _⟩
        · exact .inl (by omega)
        · exact .inl hcd
      · rcases htu with hde | ⟨rfl, hds⟩
        · exact .inl hde
        · exact .inr ⟨rfl, ih hcs hds⟩

theorem precedes_total (s t : Text) : (s.precedes t || t.precedes s) = true := by
  induction s generalizing t with
  | nil => rfl
  | cons c cs ih =>
    match t with
    | [] => rfl
    | d :: ds =>
      simp only [precedes, Bool.or_eq_true, decide_eq_true_eq, Bool.and_eq_true, beq_iff_eq]
      rcases Nat.lt_trichotomy c.toNat d.toNat with h | h | h
      · exact .inl (.inl h)
      · have hcd : c = d := Char.toNat_inj.mp h
        subst hcd
        have hds := ih ds
        rw [Bool.or_eq_true] at hds
        rcases hds with h | h
        · exact .inl (.inr ⟨rfl, h⟩)
        · exact .inr (.inr ⟨rfl, h⟩)
      · exact .inr (.inl h)

theorem precedes_antisymm {s t : Text} (hst : s.precedes t = true) (hts : t.precedes s = true) :
    s = t := by
  induction s generalizing t with
  | nil => cases t with
    | nil => rfl
    | cons d ds => simp [precedes] at hts
  | cons c cs ih =>
    match t with
    | [] => simp [precedes] at hst
    | d :: ds =>
      simp only [precedes, Bool.or_eq_true, decide_eq_true_eq, Bool.and_eq_true, beq_iff_eq] at *
      rcases hst with h | ⟨rfl, h⟩
      · rcases hts with h' | ⟨rfl, _⟩ <;> omega
      · rcases hts with h' | ⟨_, h'⟩
        · omega
        · rw [ih h h']

theorem offset_natCast (t : Text) (n : Nat) : t.offset n = n := by
  have h : ¬ ((n : Int) < 0) := by omega
  simp [offset, h]

theorem slice_natCast (t : Text) (start stop : Nat) :
    t.slice start stop = (t.drop start).take (stop - start) := by
  rw [slice, offset_natCast, offset_natCast]

end Text

end RecordMap
