import Mathlib.Data.List.Find
import Mathlib.Data.List.Forall2
import RecordMap.Naming.Plural

/-! An underscore in front of a class name stays in front of the table name. So no two class names
that differ by it have the same table. -/

namespace RecordMap

/-! ### Lower case -/

namespace Text

theorem meetsCased_append_underscore (before : Text) :
    meetsCased (before ++ ['_']) = meetsCased before := by
  have hstop : (['_'].dropWhile fun c => inRanges Table.caseIgnorable c.toNat) = ['_'] := by
    decide +kernel
  have hplain : inRanges Table.cased '_'.toNat = false := by decide +kernel
  unfold meetsCased
  rw [List.dropWhile_append, hstop]
  cases before.dropWhile fun c => inRanges Table.caseIgnorable c.toNat with
  | nil => exact hplain
  | cons c cs => rfl

theorem lowerAfter_append_underscore (before t : Text) :
    lowerAfter (before ++ ['_']) t = lowerAfter before t := by
  induction t generalizing before with
  | nil => rfl
  | cons c t ih => rw [lowerAfter, lowerAfter, meetsCased_append_underscore, ← List.cons_append, ih]

theorem lower_underscore (t : Text) : lower ('_' :: t) = '_' :: lower t := by
  have hrest := lowerAfter_append_underscore [] t
  rw [List.nil_append] at hrest
  rw [lower, lowerAfter, hrest]
  rfl

end Text

namespace Naming

variable {r : Rule} {word front behind v w : Text}

/-! ### Words -/

theorem splitAcronyms_underscore (w : Text) : splitAcronyms ('_' :: w) = '_' :: splitAcronyms w := by
  match w with
  | [] => rfl
  | [_] => rfl
  | _ :: _ :: _ => rfl

theorem splitCapitals_underscore (w : Text) : splitCapitals ('_' :: w) = '_' :: splitCapitals w := by
  match w with
  | [] => rfl
  | _ :: _ => rfl

theorem snakeCase_underscore (w : Text) : snakeCase ('_' :: w) = '_' :: snakeCase w := by
  unfold snakeCase
  rw [splitAcronyms_underscore, splitCapitals_underscore, List.map_cons]
  exact Text.lower_underscore _

/-! ### Rules -/

def Rule.Admits (r : Rule) (behind : Text) : Prop :=
  List.Forall₂ (fun slot c => slot.admits c = true) r.ending behind

/-- The rule fits a word of two parts, of which it replaces the second one. -/
structure Rule.FitsBehind (r : Rule) (front behind : Text) : Prop where
  admits : r.Admits behind
  whole : r.whole = true → front = []

theorem Rule.Admits.cut_eq (h : r.Admits behind) (front : Text) :
    (front ++ behind).length - r.ending.length = front.length := by
  have hlength := h.length_eq
  rw [List.length_append]
  omega

theorem Rule.Admits.apply_eq (h : r.Admits behind) (front : Text) :
    r.apply (front ++ behind) = front ++ (behind.take r.keep ++ r.tail) := by
  rw [Rule.apply, h.cut_eq, List.take_length_add_append, List.append_assoc]

theorem Rule.fits_iff :
    r.fits word = true ↔ ∃ front behind, word = front ++ behind ∧ r.FitsBehind front behind := by
  unfold Rule.fits
  simp only [Bool.and_eq_true, decide_eq_true_eq, Bool.or_eq_true, Bool.not_eq_true', beq_iff_eq,
    List.all_eq_true]
  constructor
  · rintro ⟨⟨hlength, hwhole⟩, hadmits⟩
    refine ⟨_, _, (List.take_append_drop (word.length - r.ending.length) word).symm, ?_, fun h => ?_⟩
    · refine List.forall₂_iff_zip.mpr ⟨?_, fun hpair => hadmits _ hpair⟩
      rw [List.length_drop]
      omega
    · rw [hwhole.resolve_left (by simp [h]), List.take_zero]
  · rintro ⟨front, behind, rfl, h⟩
    have hlength := h.admits.length_eq
    rw [h.admits.cut_eq, List.drop_left]
    refine ⟨⟨by rw [List.length_append]; omega, ?_⟩, fun pair hpair => ?_⟩
    · cases hr : r.whole with
      | false => exact .inl rfl
      | true => exact .inr (List.length_eq_zero_iff.mpr (h.whole hr))
    · exact (List.forall₂_iff_zip.mp h.admits).2 hpair

/-- A rule that may start at an underscore keeps it, has no further slot for one and is not for whole
words. -/
theorem keeps_underscore (hr : r ∈ rules) :
    ∀ slot ∈ r.ending.head?, slot.admits '_' = true →
      r.whole = false ∧ 0 < r.keep ∧ ∀ next ∈ r.ending.tail, next.admits '_' = false := by
  have hall : ∀ r ∈ rules, ∀ slot ∈ r.ending.head?, slot.admits '_' = true →
      r.whole = false ∧ 0 < r.keep ∧ ∀ next ∈ r.ending.tail, next.admits '_' = false := by
    decide +kernel
  exact hall r hr

theorem tail_ne_underscore (hr : r ∈ rules) : r.tail.head? ≠ some '_' := by
  have hall : ∀ r ∈ rules, r.tail.head? ≠ some '_' := by decide +kernel
  exact hall r hr

theorem Rule.FitsBehind.keeps_underscore (hr : r ∈ rules) (h : r.FitsBehind [] ('_' :: v)) :
    r.whole = false ∧ 0 < r.keep ∧ ∀ next ∈ r.ending.tail, next.admits '_' = false := by
  obtain ⟨slot, ending, hslot, -, hending⟩ := List.forall₂_cons_right_iff.mp h.admits
  exact Naming.keeps_underscore hr slot (by rw [hending]; rfl) hslot

theorem whole_eq_false (hr : r ∈ rules) (h : r.fits ('_' :: v) = true) : r.whole = false := by
  obtain ⟨front, behind, hword, hfits⟩ := Rule.fits_iff.mp h
  cases hwhole : r.whole with
  | false => rfl
  | true =>
    obtain rfl := hfits.whole hwhole
    rw [List.nil_append] at hword
    subst hword
    exact hwhole.symm.trans (hfits.keeps_underscore hr).1

theorem head?_apply_underscore (hr : r ∈ rules) (h : r.fits ('_' :: v) = true) :
    (r.apply ('_' :: v)).head? = some '_' := by
  obtain ⟨front, behind, hword, hfits⟩ := Rule.fits_iff.mp h
  rw [hword, hfits.admits.apply_eq]
  cases front with
  | nil =>
    rw [List.nil_append] at hword
    subst hword
    obtain ⟨keep, hkeep⟩ := Nat.exists_eq_add_of_lt (hfits.keeps_underscore hr).2.1
    rw [hkeep]
    rfl
  | cons c front =>
    obtain ⟨rfl, -⟩ := List.cons.inj hword
    rfl

theorem head?_of_head?_apply (hr : r ∈ rules) (h : (r.apply word).head? = some '_') :
    word.head? = some '_' := by
  unfold Rule.apply at h
  generalize word.length - r.ending.length + r.keep = kept at h
  cases kept with
  | zero => exact absurd h (tail_ne_underscore hr)
  | succ kept =>
    cases word with
    | nil => exact absurd h (tail_ne_underscore hr)
    | cons c word => exact h

theorem fits_two_underscores (hr : r ∈ rules) : r.fits ('_' :: '_' :: v) = r.fits ('_' :: v) := by
  rw [Bool.eq_iff_iff]
  constructor
  · intro h
    have hwhole := whole_eq_false hr h
    obtain ⟨front, behind, hword, hfits⟩ := Rule.fits_iff.mp h
    cases front with
    | nil =>
      rw [List.nil_append] at hword
      subst hword
      have hnext := (hfits.keeps_underscore hr).2.2
      obtain ⟨slot, ending, -, hrest, hending⟩ := List.forall₂_cons_right_iff.mp hfits.admits
      obtain ⟨next, rest, hadmits, -, rfl⟩ := List.forall₂_cons_right_iff.mp hrest
      have hplain := hnext next (by rw [hending]; exact List.mem_cons_self ..)
      rw [hplain] at hadmits
      cases hadmits
    | cons c front =>
      obtain ⟨-, hword⟩ := List.cons.inj hword
      exact Rule.fits_iff.mpr ⟨front, behind, hword, hfits.admits, by simp [hwhole]⟩
  · intro h
    have hwhole := whole_eq_false hr h
    obtain ⟨front, behind, hword, hfits⟩ := Rule.fits_iff.mp h
    exact Rule.fits_iff.mpr
      ⟨'_' :: front, behind, congrArg ('_' :: ·) hword, hfits.admits, by simp [hwhole]⟩

theorem apply_two_underscores (h : r.fits ('_' :: v) = true) :
    r.apply ('_' :: '_' :: v) = '_' :: r.apply ('_' :: v) := by
  obtain ⟨front, behind, hword, hfits⟩ := Rule.fits_iff.mp h
  rw [hword, ← List.cons_append, hfits.admits.apply_eq, hfits.admits.apply_eq, List.cons_append]

/-! ### Plurals -/

theorem splitLastNewline_underscore (v : Text) :
    splitLastNewline ('_' :: v) = ('_' :: (splitLastNewline v).1, (splitLastNewline v).2) := by
  unfold splitLastNewline
  cases v with
  | nil => rfl
  | cons c v =>
    rw [List.getLast?_cons_cons]
    split <;> rfl

theorem splitLastNewline_append (v : Text) : (splitLastNewline v).1 ++ (splitLastNewline v).2 = v := by
  unfold splitLastNewline
  split
  case isTrue h => exact List.dropLast_append_getLast? _ h
  case isFalse _ => exact List.append_nil v

theorem plural_underscore (v : Text) :
    plural ('_' :: v) = match rules.find? (·.fits ('_' :: (splitLastNewline v).1)) with
      | some r => r.apply ('_' :: (splitLastNewline v).1) ++ (splitLastNewline v).2
      | none => '_' :: (splitLastNewline v).1 ++
          's' :: (if (splitLastNewline v).2 = [] then [] else ['\n', 's']) := by
  have hcountable : ¬ uncountable.contains (Text.lower ('_' :: v)) = true := by
    have hall : ∀ u ∈ uncountable, u.head? ≠ some '_' := by decide
    rw [List.contains_iff_mem, Text.lower_underscore]
    exact fun h => hall _ h rfl
  rewrite [plural, if_neg (not_or.mpr ⟨List.cons_ne_nil _ _, hcountable⟩), splitLastNewline_underscore]
  rfl

theorem head?_plural_underscore (v : Text) : (plural ('_' :: v)).head? = some '_' := by
  rw [plural_underscore]
  split
  case h_1 r hr =>
    have hfits := List.find?_some hr
    rw [List.head?_append, head?_apply_underscore (List.mem_of_find?_eq_some hr) hfits]
    rfl
  case h_2 _ => rfl

theorem head?_of_head?_plural (h : (plural v).head? = some '_') : v.head? = some '_' := by
  have hnewline : (splitLastNewline v).2.head? ≠ some '_' := by
    unfold splitLastNewline
    split <;> exact fun hnewline => by cases hnewline
  unfold plural at h
  split at h
  case isTrue _ => exact h
  case isFalse _ =>
    have hstem : (splitLastNewline v).1.head? = some '_' := by
      dsimp only at h
      split at h
      case h_1 r hr =>
        refine head?_of_head?_apply (List.mem_of_find?_eq_some hr) ?_
        rw [List.head?_append, Option.or_eq_some_iff] at h
        exact h.resolve_right fun h => hnewline h.2
      case h_2 _ =>
        cases hs : (splitLastNewline v).1 with
        | nil =>
          rw [hs] at h
          cases h
        | cons c cs =>
          rw [hs] at h
          exact h
    rw [← splitLastNewline_append v, List.head?_append, hstem]
    rfl

theorem plural_two_underscores (v : Text) : plural ('_' :: '_' :: v) = '_' :: plural ('_' :: v) := by
  have hfind : rules.find? (·.fits ('_' :: '_' :: (splitLastNewline v).1)) =
      rules.find? (·.fits ('_' :: (splitLastNewline v).1)) :=
    List.find?_congr fun r hr => fits_two_underscores hr
  rw [plural_underscore, plural_underscore, splitLastNewline_underscore, hfind]
  split
  case h_1 r hr =>
    have hfits := List.find?_some hr
    rw [apply_two_underscores hfits]
    rfl
  case h_2 _ => rfl

theorem plural_underscore_ne (v : Text) : plural ('_' :: v) ≠ plural v := by
  intro heq
  -- both plurals would begin with an underscore, and so would the word itself
  have hhead := head?_plural_underscore v
  rw [heq] at hhead
  obtain ⟨u, rfl⟩ := List.head?_eq_some_iff.mp (head?_of_head?_plural hhead)
  rw [plural_two_underscores] at heq
  exact List.cons_ne_self _ _ heq

/-! ### Tables -/

theorem head?_tableOf_underscore (w : Text) : (tableOf ('_' :: w)).head? = some '_' := by
  rw [tableOf, snakeCase_underscore]
  exact head?_plural_underscore _

theorem tableOf_underscore_ne (w : Text) : tableOf ('_' :: w) ≠ tableOf w := by
  rw [tableOf, snakeCase_underscore]
  exact plural_underscore_ne _

end Naming

end RecordMap
