import RecordMap.Text.Pattern

/-! Blocks of Ruby code, from the word that opens them to the matching `end`. -/

namespace RecordMap.Source

inductive Keyword where
  | opener
  | closer
deriving DecidableEq, Repr

def openers : List Text :=
  ["do", "def", "class", "module", "if", "unless", "while", "until", "for", "case", "begin"].map
    String.toList

def Keyword.ofWord? (w : Text) : Option Keyword :=
  if w = ['e', 'n', 'd'] then some .closer else if openers.contains w then some .opener else none

/-- A whole word that opens or closes a block. -/
def keyword : Pattern Keyword := fun before t =>
  if Text.startsWord before then
    (Text.word? t).bind fun (w, rest) => (Keyword.ofWord? w).map (·, rest)
  else none

def wholeWord (words : List Text) : Pattern Unit := fun before t =>
  if Text.startsWord before then
    (Text.word? t).bind fun (w, rest) => if words.contains w then some ((), rest) else none
  else none

def opener : Pattern Unit := wholeWord openers

def closer : Pattern Unit := wholeWord [['e', 'n', 'd']]

theorem wholeWord_consumes {words : List Text} (before : Option Char) (t : Text) (a : Unit)
    (rest : Text) (h : wholeWord words before t = some (a, rest)) : rest.length < t.length := by
  unfold wholeWord at h
  split at h
  · obtain ⟨⟨w, u⟩, hword, hrest⟩ := Option.bind_eq_some_iff.mp h
    obtain ⟨rfl, hne, _⟩ := Text.word?_eq_some hword
    simp only [Option.ite_none_right_eq_some, Option.some.injEq, Prod.mk.injEq] at hrest
    obtain ⟨_, _, rfl⟩ := hrest
    rw [List.length_append]
    exact Nat.lt_add_of_pos_left (List.length_pos_iff.mpr hne)
  · cases h

theorem lt_stop_of_next? {words : List Text} {code : Text} {position : Nat} {f : Found Unit}
    (h : (wholeWord words).next? code position = some f) : position < f.stop :=
  Pattern.lt_stop_of_nextFrom? wholeWord_consumes h

/-- The position of the `end` that closes a block of which the search has come to `position`, with
`inner` further blocks open. Both kinds of keywords are searched for anew from there, and the one that
comes first is counted. The search goes on only while it is below `limit`. -/
def closingFrom? (limit : Nat) (code : Text) (inner : Nat) (position : Int) : Option Nat :=
  if position < limit then
    match _ : closer.next? code position.toNat with
    | none => none
    | some e =>
      match _ : (opener.next? code position.toNat).filter (·.start < e.start) with
      | some o => closingFrom? limit code (inner + 1) o.stop
      | none =>
        match inner with
        | 0 => some e.start
        | inner + 1 => closingFrom? limit code inner e.stop
  else none
termination_by (limit - position).toNat
decreasing_by
  · have := lt_stop_of_next? (Option.eq_some_of_filter_eq_some ‹_ = some o›)
    omega
  · have := lt_stop_of_next? ‹_ = some e›
    omega

/-- The body of a block from `start` up to its `end`. Its keywords are counted in `code`, a copy of the
content in which words that are no code may be blanked. -/
def blockBody? (content code : Text) (start : Int) : Option Text :=
  (closingFrom? content.length code 0 start).map fun stop : Nat => content.slice start stop

/-! The keywords of a text can be read once for all its blocks. -/

/-- The position of the `end` that closes the block in which the keywords stand. The search goes on
only while it is below `limit`. -/
def closing? (limit : Nat) (inner : Nat) (position : Int) : List (Found Keyword) → Option Nat
  | [] => none
  | k :: ks =>
    if position < limit then
      match k.value, inner with
      | .opener, _ => closing? limit (inner + 1) k.stop ks
      | .closer, 0 => some k.start
      | .closer, inner + 1 => closing? limit inner k.stop ks
    else none

/-- The body of a block from `start` up to its `end`, of whose code the keywords are given. -/
def bodyBy? (keywords : List (Found Keyword)) (content : Text) (start : Int) : Option Text :=
  (closing? content.length 0 start (keywords.filter fun k => start ≤ k.start)).map fun stop =>
    content.slice start stop

end RecordMap.Source
