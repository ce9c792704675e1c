import Mathlib.Order.Bounds.Basic
import Mathlib.Order.Nat
import RecordMap.Proofs.Source.Keywords

/-! The end of a block is the first `end` with which, counted from the start of the block, more
blocks end than were opened before it. The loop that looks for both kinds of keywords from each
place on counts every keyword once and in order. -/

namespace RecordMap.Source

open Text

/-! ### Whole words -/

/-- The word stands at a position, and no word character is next to it on either side. -/
def standsAt (w code : Text) (position : Nat) : Bool :=
  w.isPrefixOf (code.drop position) && startsWord (code.take position).getLast? &&
    !(code.drop (position + w.length)).head?.any isWordChar

def anyStandsAt (words : List Text) (code : Text) (position : Nat) : Bool :=
  words.any (standsAt · code position)

/-- Words as they can stand between two boundaries: they have characters, and only such of words. -/
def AreWords (words : List Text) : Prop := ∀ w ∈ words, w ≠ [] ∧ w.all isWordChar = true

instance (words : List Text) : Decidable (AreWords words) :=
  inferInstanceAs (Decidable (∀ w ∈ words, w ≠ [] ∧ w.all isWordChar = true))

theorem standsAt_iff {w code : Text} {position : Nat} :
    standsAt w code position = true ↔
      ∃ rest, code.drop position = w ++ rest ∧ startsWord (code.take position).getLast? = true ∧
        rest.head?.any isWordChar = false := by
  unfold standsAt
  simp only [Bool.and_eq_true, List.isPrefixOf_iff_prefix, Bool.not_eq_true']
  constructor
  · rintro ⟨⟨⟨rest, hrest⟩, hbefore⟩, hafter⟩
    refine ⟨rest, hrest.symm, hbefore, ?_⟩
    rwa [← List.drop_drop, ← hrest, List.drop_left] at hafter
  · rintro ⟨rest, hrest, hbefore, hafter⟩
    refine ⟨⟨⟨rest, hrest.symm⟩, hbefore⟩, ?_⟩
    rwa [← List.drop_drop, hrest, List.drop_left]

variable {words : List Text} {code : Text} {position : Nat}

theorem readAt?_wholeWord_eq_some {a : Unit} {rest : Text}
    (h : (wholeWord words).readAt? code position = some (a, rest)) :
    ∃ w ∈ words, standsAt w code position = true ∧ rest.length + w.length = code.length - position := by
  unfold Pattern.readAt? wholeWord at h
  split at h
  · next hbefore =>
    obtain ⟨⟨w, u⟩, hword, hrest⟩ := Option.bind_eq_some_iff.mp h
    simp only [Option.ite_none_right_eq_some, List.contains_iff_mem, Option.some.injEq,
      Prod.mk.injEq] at hrest
    obtain ⟨hmem, _, rfl⟩ := hrest
    obtain ⟨hdrop, _, _, hafter⟩ := word?_eq_some_iff.mp hword
    refine ⟨w, hmem, standsAt_iff.mpr ⟨u, hdrop, hbefore, hafter⟩, ?_⟩
    have hlength := congrArg List.length hdrop
    rw [List.length_drop, List.length_append] at hlength
    omega
  · cases h

theorem readAt?_wholeWord_eq_none_iff (hwords : AreWords words) :
    (wholeWord words).readAt? code position = none ↔ anyStandsAt words code position = false := by
  constructor
  · intro h
    rw [anyStandsAt, List.any_eq_false]
    intro w hw hstands
    obtain ⟨rest, hdrop, hbefore, hafter⟩ := standsAt_iff.mp hstands
    obtain ⟨hne, hall⟩ := hwords w hw
    unfold Pattern.readAt? wholeWord at h
    rw [hbefore, hdrop, word?_append hne hall hafter] at h
    simp only [if_true, Option.bind_some, if_pos (List.contains_iff_mem.mpr hw)] at h
    cases h
  · intro h
    cases hread : (wholeWord words).readAt? code position with
    | none => rfl
    | some found =>
      obtain ⟨w, hw, hstands, _⟩ := readAt?_wholeWord_eq_some hread
      rw [anyStandsAt, List.any_eq_false] at h
      exact absurd hstands (h w hw)

theorem lt_length_of_standsAt {w : Text} (hne : w ≠ []) (h : standsAt w code position = true) :
    position < code.length := by
  obtain ⟨rest, hdrop, _⟩ := standsAt_iff.mp h
  have hlength := congrArg List.length hdrop
  have hw := List.length_pos_iff.mpr hne
  rw [List.length_drop, List.length_append] at hlength
  omega

theorem lt_length_of_anyStandsAt (hwords : AreWords words)
    (h : anyStandsAt words code position = true) : position < code.length := by
  obtain ⟨w, hw, hstands⟩ := List.any_eq_true.mp h
  exact lt_length_of_standsAt (hwords w hw).1 hstands

theorem anyStandsAt_within {w : Text} (hall : w.all isWordChar = true)
    (h : standsAt w code position = true) {q : Nat} (hstart : position < q)
    (hstop : q < position + w.length) : anyStandsAt words code q = false := by
  obtain ⟨rest, hdrop, _⟩ := standsAt_iff.mp h
  have hbefore : startsWord (code.take q).getLast? = false := by
    obtain ⟨n, rfl⟩ := Nat.exists_eq_add_of_lt hstart
    have hn : n + 1 ≤ w.length := by omega
    have hne : w.take (n + 1) ≠ [] := by
      apply List.ne_nil_of_length_pos
      rw [List.length_take_of_le hn]
      exact Nat.succ_pos n
    have hword := List.all_eq_true.mp hall _ (List.mem_of_mem_take (List.getLast_mem hne))
    rw [Nat.add_assoc, List.take_add, hdrop, List.take_append_of_le_length hn, List.getLast?_append,
      List.getLast?_eq_some_getLast hne]
    simp [startsWord, hword]
  rw [anyStandsAt, List.any_eq_false]
  intro v _ hv
  obtain ⟨_, _, hstarts, _⟩ := standsAt_iff.mp hv
  rw [hbefore] at hstarts
  cases hstarts

theorem eq_of_standsAt {v w : Text} (hv : v ≠ [] ∧ v.all isWordChar = true)
    (hw : w ≠ [] ∧ w.all isWordChar = true) (hvstands : standsAt v code position = true)
    (hwstands : standsAt w code position = true) : v = w := by
  obtain ⟨rest, hdrop, _, hafter⟩ := standsAt_iff.mp hvstands
  obtain ⟨rest', hdrop', _, hafter'⟩ := standsAt_iff.mp hwstands
  have hread := word?_append hv.1 hv.2 hafter
  have hread' := word?_append hw.1 hw.2 hafter'
  rw [← hdrop] at hread
  rw [← hdrop', hread] at hread'
  exact congrArg Prod.fst (Option.some.inj hread')

/-- What a search for some words finds: the first of them, within which no word starts. -/
structure NextWord (words : List Text) (code : Text) (position : Nat) (f : Found Unit) : Prop where
  behind : position ≤ f.start
  stands : anyStandsAt words code f.start = true
  lt_stop : f.start < f.stop
  first : ∀ q, position ≤ q → q < f.start → anyStandsAt words code q = false
  within : ∀ others q, f.start < q → q < f.stop → anyStandsAt others code q = false

theorem nextWord_of_next? (hwords : AreWords words) {f : Found Unit}
    (h : (wholeWord words).next? code position = some f) : NextWord words code position f := by
  obtain ⟨hbehind, hinside, ⟨rest, hread, hstop⟩, hfirst⟩ := Pattern.foundFrom_of_next? h
  obtain ⟨w, hw, hstands, hlength⟩ := readAt?_wholeWord_eq_some hread
  obtain ⟨hne, hall⟩ := hwords w hw
  have hpos := List.length_pos_iff.mpr hne
  have hend : f.stop = f.start + w.length := by omega
  refine ⟨hbehind, List.any_eq_true.mpr ⟨w, hw, hstands⟩, by omega, fun q hq hlt => ?_, ?_⟩
  · exact (readAt?_wholeWord_eq_none_iff hwords).mp (hfirst q hq hlt)
  · intro others q hq hlt
    exact anyStandsAt_within hall hstands hq (hend ▸ hlt)

theorem anyStandsAt_of_next?_eq_none (hwords : AreWords words)
    (h : (wholeWord words).next? code position = none) {q : Nat} (hq : position ≤ q) :
    anyStandsAt words code q = false := by
  rw [Bool.eq_false_iff]
  intro hstands
  have hnone := Pattern.readAt?_eq_none_of_next? h hq (lt_length_of_anyStandsAt hwords hstands)
  rw [readAt?_wholeWord_eq_none_iff hwords, hstands] at hnone
  cases hnone

/-! ### Counting -/

def countIn (test : Nat → Bool) (start stop : Nat) : Nat :=
  (List.range' start (stop - start)).countP test

section Counting

variable {test : Nat → Bool} {start middle stop : Nat}

theorem countIn_add (hstart : start ≤ middle) (hstop : middle ≤ stop) :
    countIn test start stop = countIn test start middle + countIn test middle stop := by
  have hsize : stop - start = (middle - start) + (stop - middle) := by omega
  have hmiddle : start + (middle - start) = middle := by omega
  unfold countIn
  rw [hsize, ← List.range'_append_1, List.countP_append, hmiddle]

theorem countIn_eq_zero (h : ∀ q, start ≤ q → q < stop → test q = false) :
    countIn test start stop = 0 := by
  unfold countIn
  rw [List.countP_eq_zero]
  intro q hq
  rw [List.mem_range'_1] at hq
  simp [h q hq.1 (by omega)]

theorem countIn_eq_one (hstart : start ≤ middle) (hstop : middle < stop) (htest : test middle = true)
    (hbefore : ∀ q, start ≤ q → q < middle → test q = false)
    (hafter : ∀ q, middle < q → q < stop → test q = false) : countIn test start stop = 1 := by
  have hone : countIn test middle (middle + 1) = 1 := by
    unfold countIn
    simp [htest]
  rw [countIn_add hstart (Nat.le_of_lt hstop), countIn_eq_zero hbefore,
    countIn_add (Nat.le_succ middle) hstop, hone, countIn_eq_zero fun q hq => hafter q hq]

end Counting

/-! ### The end of a block -/

def opensAt (code : Text) : Nat → Bool := anyStandsAt openers code

def closesAt (code : Text) : Nat → Bool := anyStandsAt ["end".toList] code

/-- With the `end` at a position more blocks end, counted from `start`, than are opened before it
and than the `inner` ones that are open at `start`. -/
structure EndsBlock (code : Text) (inner start position : Nat) : Prop where
  behind : start ≤ position
  closes : closesAt code position = true
  surplus : inner + countIn (opensAt code) start position <
    countIn (closesAt code) start (position + 1)

theorem areWords_openers : AreWords openers := by decide

theorem areWords_end : AreWords ["end".toList] := by decide

theorem opensAt_of_closesAt (h : closesAt code position = true) : opensAt code position = false := by
  rw [Bool.eq_false_iff]
  intro hopens
  obtain ⟨v, hv, hvstands⟩ := List.any_eq_true.mp h
  obtain ⟨w, hw, hwstands⟩ := List.any_eq_true.mp hopens
  have heq := eq_of_standsAt (areWords_end v hv) (areWords_openers w hw) hvstands hwstands
  rw [List.mem_singleton.mp hv] at heq
  rw [← heq] at hw
  revert hw
  decide

theorem endsBlock_iff_behind {inner inner' start stop : Nat} (hle : start ≤ stop)
    (hcount : inner + countIn (opensAt code) start stop =
      inner' + countIn (closesAt code) start stop)
    (hnone : ∀ q, q < stop → ¬ EndsBlock code inner start q) (q : Nat) :
    EndsBlock code inner start q ↔ EndsBlock code inner' stop q := by
  constructor
  · intro h
    have hq : stop ≤ q := Nat.le_of_not_lt fun hlt => hnone q hlt h
    have hsucc : stop ≤ q + 1 := Nat.le_succ_of_le hq
    have hsurplus := h.surplus
    rw [countIn_add hle hq, countIn_add hle hsucc] at hsurplus
    exact ⟨hq, h.closes, by omega⟩
  · intro h
    have hsucc : stop ≤ q + 1 := Nat.le_succ_of_le h.behind
    have hsurplus := h.surplus
    refine ⟨Nat.le_trans hle h.behind, h.closes, ?_⟩
    rw [countIn_add hle h.behind, countIn_add hle hsucc]
    omega

section Step

variable {start : Nat} {e o : Found Unit}

theorem not_closesAt_before (he : NextWord ["end".toList] code start e) {inner q : Nat}
    (h : EndsBlock code inner start q) : e.start ≤ q := by
  apply Nat.le_of_not_lt
  intro hlt
  have hcloses := h.closes
  rw [closesAt, he.first q h.behind hlt] at hcloses
  cases hcloses

theorem endsBlock_opener (ho : NextWord openers code start o)
    (he : NextWord ["end".toList] code start e) (hlt : o.start < e.start) (inner q : Nat) :
    EndsBlock code inner start q ↔ EndsBlock code (inner + 1) o.stop q := by
  have hcloses : ∀ r, start ≤ r → r < o.stop → closesAt code r = false := by
    intro r hr hstop
    rcases Nat.lt_or_ge o.start r with hin | hbefore
    · exact ho.within _ r hin hstop
    · exact he.first r hr (Nat.lt_of_le_of_lt hbefore hlt)
  have hone := countIn_eq_one ho.behind ho.lt_stop ho.stands ho.first (ho.within openers)
  apply endsBlock_iff_behind (Nat.le_of_lt (Nat.lt_of_le_of_lt ho.behind ho.lt_stop))
  · rw [countIn_eq_zero hcloses]
    unfold opensAt
    rw [hone]
  · intro r hr h
    have hnot := h.closes
    rw [hcloses r h.behind hr] at hnot
    cases hnot

variable (he : NextWord ["end".toList] code start e)
  (hopens : ∀ r, start ≤ r → r < e.start → opensAt code r = false)

include he hopens

theorem endsBlock_closer_zero : IsLeast {q | EndsBlock code 0 start q} e.start := by
  have hone : countIn (closesAt code) start (e.start + 1) = 1 :=
    countIn_eq_one he.behind (Nat.lt_succ_self _) he.stands he.first fun q hq hlt =>
      absurd hq (Nat.not_lt_of_le (Nat.le_of_lt_succ hlt))
  refine ⟨⟨he.behind, he.stands, ?_⟩, fun q hq => not_closesAt_before he hq⟩
  rw [countIn_eq_zero hopens, hone]
  exact Nat.zero_lt_one

theorem endsBlock_closer_succ (inner q : Nat) :
    EndsBlock code (inner + 1) start q ↔ EndsBlock code inner e.stop q := by
  have hnone : ∀ r, start ≤ r → r < e.stop → opensAt code r = false := by
    intro r hr hstop
    rcases Nat.lt_trichotomy r e.start with hlt | rfl | hlt
    · exact hopens r hr hlt
    · exact opensAt_of_closesAt he.stands
    · exact he.within openers r hlt hstop
  have hone : ∀ stop, e.start < stop → stop ≤ e.stop → countIn (closesAt code) start stop = 1 := by
    intro stop hlt hle
    exact countIn_eq_one he.behind hlt he.stands he.first fun r hr hstop =>
      he.within _ r hr (Nat.lt_of_lt_of_le hstop hle)
  apply endsBlock_iff_behind (Nat.le_of_lt (Nat.lt_of_le_of_lt he.behind he.lt_stop))
  · rw [countIn_eq_zero hnone, hone e.stop he.lt_stop (Nat.le_refl _)]
  · intro r hr h
    have hsurplus := h.surplus
    rw [hone (r + 1) (Nat.lt_succ_of_le (not_closesAt_before he h)) hr] at hsurplus
    omega

end Step

theorem opensAt_before_closer {start : Nat} {e : Found Unit}
    (h : (opener.next? code start).filter (·.start < e.start) = none) {r : Nat} (hr : start ≤ r)
    (hlt : r < e.start) : opensAt code r = false := by
  cases hopener : opener.next? code start with
  | none => exact anyStandsAt_of_next?_eq_none areWords_openers hopener hr
  | some o =>
    have hle : e.start ≤ o.start := by
      rw [hopener, Option.filter_eq_none_iff] at h
      simpa using h o rfl
    have hnext := nextWord_of_next? areWords_openers hopener
    exact hnext.first r hr (Nat.lt_of_lt_of_le hlt hle)

theorem closingFrom?_eq_some_iff {inner start p : Nat} :
    closingFrom? code.length code inner start = some p ↔
      IsLeast {q | EndsBlock code inner start q} p := by
  generalize hposition : (start : Int) = position
  fun_induction closingFrom? code.length code inner position generalizing start with
  | case1 inner position hlimit hcloser =>
    subst hposition
    apply iff_of_false (Option.some_ne_none p).symm
    intro h
    have hcloses := anyStandsAt_of_next?_eq_none areWords_end hcloser h.1.behind
    exact absurd h.1.closes (Bool.eq_false_iff.mp hcloses)
  | case2 inner position hlimit e hcloser o hopener ih =>
    subst hposition
    obtain ⟨hopener, hlt⟩ := Option.filter_eq_some_iff.mp hopener
    have ho := nextWord_of_next? areWords_openers hopener
    have he := nextWord_of_next? areWords_end hcloser
    have hset := Set.ext (endsBlock_opener ho he (of_decide_eq_true hlt) inner)
    rw [ih rfl]
    exact iff_of_eq (congrArg (IsLeast · p) hset.symm)
  | case3 position hlimit e hcloser hopener =>
    subst hposition
    have he := nextWord_of_next? areWords_end hcloser
    have hleast := endsBlock_closer_zero he fun r hr hlt => opensAt_before_closer hopener hr hlt
    constructor
    · intro h
      exact Option.some.inj h ▸ hleast
    · intro h
      rw [hleast.unique h]
  | case4 position hlimit e hcloser hopener inner ih =>
    subst hposition
    have he := nextWord_of_next? areWords_end hcloser
    have hset := Set.ext (endsBlock_closer_succ he
      (fun r hr hlt => opensAt_before_closer hopener hr hlt) inner)
    rw [ih rfl]
    exact iff_of_eq (congrArg (IsLeast · p) hset.symm)
  | case5 inner position hlimit =>
    subst hposition
    apply iff_of_false (Option.some_ne_none p).symm
    intro h
    have hlt := lt_length_of_anyStandsAt areWords_end h.1.closes
    have hstart := h.1.behind
    omega

theorem closingFrom?_eq_none_iff {inner start : Nat} :
    closingFrom? code.length code inner start = none ↔ ∀ q, ¬ EndsBlock code inner start q := by
  classical
  rw [Option.eq_none_iff_forall_ne_some]
  constructor
  · intro h q hq
    exact h _ (closingFrom?_eq_some_iff.mpr (Nat.isLeast_find ⟨q, hq⟩))
  · intro h p hp
    exact h p (closingFrom?_eq_some_iff.mp hp).1

instance (code : Text) (inner start position : Nat) : Decidable (EndsBlock code inner start position) :=
  decidable_of_iff (start ≤ position ∧ closesAt code position = true ∧
      inner + countIn (opensAt code) start position < countIn (closesAt code) start (position + 1))
    ⟨fun ⟨hbehind, hcloses, hsurplus⟩ => ⟨hbehind, hcloses, hsurplus⟩,
      fun h => ⟨h.behind, h.closes, h.surplus⟩⟩

/-- The body of a block ends at the first `end` that is one too many, and there is no body if there
is no such `end`, also where the keywords of the code are read once for all blocks. -/
theorem blockBody?_ends_at_first_surplus {content code : Text} (hlength : code.length = content.length)
    (start : Nat) :
    (∀ body, blockBody? content code start = some body ↔
      ∃ p, IsLeast {q | EndsBlock code 0 start q} p ∧ body = (content.drop start).take (p - start)) ∧
    (blockBody? content code start = none ↔ ∀ q, ¬ EndsBlock code 0 start q) ∧
    bodyBy? (keyword.all code) content start = blockBody? content code start := by
  refine ⟨fun body => ?_, ?_, bodyBy?_keywords content code start⟩
  · unfold blockBody?
    rw [← hlength, Option.map_eq_some_iff]
    simp only [closingFrom?_eq_some_iff, slice_natCast, eq_comm (a := body)]
  · unfold blockBody?
    rw [← hlength, Option.map_eq_none_iff, closingFrom?_eq_none_iff]

/-- The body of a table with a column named `end` and a block in it. -/
def nestedBody : Text := "\n  t.string :end\n  if x\n  end\n".toList

def nestedCode : Text := "\n  t.string     \n  if x\n  end\n".toList

theorem blockBody?_nestedBody :
    (nestedCode ++ "end\n".toList).length = (nestedBody ++ "end\n".toList).length ∧
      blockBody? (nestedBody ++ "end\n".toList) (nestedCode ++ "end\n".toList) (0 : Nat) =
        some nestedBody := by
  have hlength : (nestedCode ++ "end\n".toList).length = (nestedBody ++ "end\n".toList).length := by
    decide +kernel
  have hends : EndsBlock (nestedCode ++ "end\n".toList) 0 0 30 := by decide +kernel
  have hbefore : ∀ q < 30, ¬ EndsBlock (nestedCode ++ "end\n".toList) 0 0 q := by decide +kernel
  have hbody := (blockBody?_ends_at_first_surplus hlength 0).1 nestedBody
  refine ⟨hlength, hbody.mpr ⟨30, ⟨hends, fun q hq => ?_⟩, by decide +kernel⟩⟩
  exact Nat.le_of_not_lt fun hlt => hbefore q hlt hq

end RecordMap.Source
