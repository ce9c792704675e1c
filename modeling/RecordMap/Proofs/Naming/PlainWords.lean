import Mathlib.Data.List.Basic
import RecordMap.Naming.Plural

/-! Names of plain words, such as `line_item`. Put into capitals and taken apart again they are the
same: every word begins with a capital and goes on without one, so that its boundaries are seen. -/

namespace RecordMap

namespace Naming

def isPlain (c : Char) : Bool := isSmall c || c.isDigit

/-- A small letter with at least one more small letter or digit behind it. -/
inductive IsPlainWord : Text → Prop where
  | mk {first : Char} {others : Text} (hfirst : isSmall first = true) (hne : others ≠ [])
      (hothers : ∀ c ∈ others, isPlain c = true) : IsPlainWord (first :: others)

instance : DecidablePred IsPlainWord
  | [] => isFalse nofun
  | first :: others =>
    decidable_of_iff (isSmall first = true ∧ others ≠ [] ∧ others.all isPlain = true)
      ⟨fun ⟨hfirst, hne, hothers⟩ => .mk hfirst hne (List.all_eq_true.mp hothers),
        fun | .mk hfirst hne hothers => ⟨hfirst, hne, List.all_eq_true.mpr hothers⟩⟩

variable {c : Char} {s w : Text} {words : List Text}

/-! ### Characters -/

theorem isPlain_of_isSmall (h : isSmall c = true) : isPlain c = true := by
  rw [isPlain, h, Bool.true_or]

theorem ascii_of_isPlain (h : isPlain c = true) : c.toNat < 128 := by
  simp only [isPlain, isSmall, Char.isDigit, Bool.or_eq_true, Bool.and_eq_true,
    decide_eq_true_eq] at h
  rcases h with ⟨-, h⟩ | ⟨-, h⟩
  · exact Nat.lt_of_le_of_lt (show c.toNat ≤ 'z'.toNat from h) (by decide)
  · exact Nat.lt_of_le_of_lt (show c.toNat ≤ '9'.toNat from h) (by decide)

/-- What evaluation shows of the ASCII characters holds of a letter or digit. -/
theorem of_isPlain {P : Char → Prop} (h : isPlain c = true)
    (hall : ∀ n < 128, isPlain (Char.ofNat n) = true → P (Char.ofNat n)) : P c := by
  have hc := hall c.toNat (ascii_of_isPlain h)
  rw [Char.ofNat_toNat] at hc
  exact hc h

theorem isCapital_eq_false (h : isPlain c = true) : isCapital c = false :=
  of_isPlain (P := fun c => isCapital c = false) h (by decide)

theorem endsWord_of_isPlain (h : isPlain c = true) : (isSmall c || Text.isDecimal c) = true :=
  of_isPlain (P := fun c => (isSmall c || Text.isDecimal c) = true) h (by decide)

theorem toLower_of_isPlain (h : isPlain c = true) : c.toLower = c :=
  of_isPlain (P := fun c => c.toLower = c) h (by decide)

theorem not_mem_signs (h : isPlain c = true) : c ∉ ['_', ':', '-', '\n'] :=
  of_isPlain (P := fun c => c ∉ ['_', ':', '-', '\n']) h (by decide)

theorem ne_lineFeed_of_isPlain (h : isPlain c = true) : c ≠ '\n' :=
  fun hline => not_mem_signs h (by rw [hline]; decide)

theorem upperChar_of_isPlain (h : isPlain c = true) : Text.upperChar c = [c.toUpper] := by
  rw [Text.upperChar, if_pos (ascii_of_isPlain h)]

theorem not_mem_of_plain {sign : Char} (hsign : sign ∈ ['_', ':', '-', '\n'])
    (h : ∀ c ∈ s, isPlain c = true) : sign ∉ s :=
  fun hs => not_mem_signs (h sign hs) hsign

theorem of_isSmall {P : Char → Prop} (h : isSmall c = true)
    (hall : ∀ n < 128, isSmall (Char.ofNat n) = true → P (Char.ofNat n)) : P c := by
  have hc := hall c.toNat (ascii_of_isPlain (isPlain_of_isSmall h))
  rw [Char.ofNat_toNat] at hc
  exact hc h

theorem isCapital_toUpper (h : isSmall c = true) : isCapital c.toUpper = true :=
  of_isSmall (P := fun c => isCapital c.toUpper = true) h (by decide)

theorem endsWord_toUpper (h : isSmall c = true) :
    (isSmall c.toUpper || Text.isDecimal c.toUpper) = false :=
  of_isSmall (P := fun c => (isSmall c.toUpper || Text.isDecimal c.toUpper) = false) h (by decide)

theorem toLower_toUpper (h : isSmall c = true) : c.toUpper.toLower = c :=
  of_isSmall (P := fun c => c.toUpper.toLower = c) h (by decide)

theorem ascii_toUpper (h : isSmall c = true) : c.toUpper.toNat < 128 :=
  of_isSmall (P := fun c => c.toUpper.toNat < 128) h (by decide)

theorem toUpper_not_mem_signs (h : isSmall c = true) : c.toUpper ∉ ['_', ':', '-', '\n'] :=
  of_isSmall (P := fun c => c.toUpper ∉ ['_', ':', '-', '\n']) h (by decide)

/-! ### Capitals -/

def raise : Text → Text
  | [] => []
  | c :: cs => c.toUpper :: cs

theorem IsPlainWord.plain (h : IsPlainWord w) : ∀ c ∈ w, isPlain c = true := by
  obtain ⟨hfirst, -, hothers⟩ := h
  exact List.forall_mem_cons.mpr ⟨isPlain_of_isSmall hfirst, hothers⟩

theorem joinWords_append (hs : '_' ∉ s) (t : Text) : joinWords (s ++ t) = s ++ joinWords t := by
  induction s with
  | nil => rfl
  | cons c s ih =>
    have hc : c ≠ '_' := fun h => hs (h ▸ List.mem_cons_self ..)
    rw [List.cons_append, joinWords, ih fun h => hs (List.mem_cons_of_mem c h)]
    · rfl
    · intro d ds h _
      exact hc h

theorem joinWords_underscore (h : IsPlainWord w) (t : Text) :
    joinWords ('_' :: (w ++ t)) = raise w ++ joinWords t := by
  obtain ⟨hfirst, -, hothers⟩ := h
  have hplain := isPlain_of_isSmall hfirst
  rw [List.cons_append, joinWords, if_neg (ne_lineFeed_of_isPlain hplain),
    upperChar_of_isPlain hplain, joinWords_append (not_mem_of_plain (by decide) hothers)]
  rfl

theorem joinWords_words (h : ∀ w ∈ words, IsPlainWord w) :
    joinWords (words.flatMap ('_' :: ·)) = words.flatMap raise := by
  induction words with
  | nil => rfl
  | cons w words ih =>
    obtain ⟨hw, hwords⟩ := List.forall_mem_cons.mp h
    rw [List.flatMap_cons, List.cons_append, joinWords_underscore hw, ih hwords, List.flatMap_cons]

theorem intercalate_cons (w : Text) (words : List Text) :
    ['_'].intercalate (w :: words) = w ++ words.flatMap ('_' :: ·) := by
  induction words generalizing w with
  | nil => simp [List.intercalate]
  | cons v words ih =>
    have hstep : ['_'].intercalate (w :: v :: words) = w ++ '_' :: ['_'].intercalate (v :: words) := by
      simp [List.intercalate]
    rw [hstep, ih, List.flatMap_cons, List.cons_append]

theorem pascalCase_words (h : ∀ w ∈ words, IsPlainWord w) :
    pascalCase (['_'].intercalate words) = words.flatMap raise := by
  cases words with
  | nil => rfl
  | cons w words =>
    obtain ⟨hw, hwords⟩ := List.forall_mem_cons.mp h
    obtain ⟨hfirst, -, hothers⟩ := hw
    have hplain := isPlain_of_isSmall hfirst
    rw [intercalate_cons, List.cons_append, pascalCase, if_neg (ne_lineFeed_of_isPlain hplain),
      upperChar_of_isPlain hplain, joinWords_append (not_mem_of_plain (by decide) hothers),
      joinWords_words hwords, List.flatMap_cons]
    rfl

/-! ### Boundaries -/

theorem splitAcronyms_cons (h : isCapital c = false) (t : Text) :
    splitAcronyms (c :: t) = c :: splitAcronyms t := by
  match t with
  | [] => rfl
  | [_] => rfl
  | _ :: _ :: _ => rw [splitAcronyms, h, Bool.false_and, Bool.false_and, if_neg Bool.false_ne_true]

theorem splitAcronyms_cons_cons {d : Char} (h : isCapital d = false) (t : Text) :
    splitAcronyms (c :: d :: t) = c :: splitAcronyms (d :: t) := by
  match t with
  | [] => rfl
  | _ :: _ => rw [splitAcronyms, h, Bool.and_false, Bool.false_and, if_neg Bool.false_ne_true]

theorem splitAcronyms_append (hs : ∀ c ∈ s, isPlain c = true) (t : Text) :
    splitAcronyms (s ++ t) = s ++ splitAcronyms t := by
  induction s with
  | nil => rfl
  | cons c s ih =>
    obtain ⟨hc, hs⟩ := List.forall_mem_cons.mp hs
    rw [List.cons_append, splitAcronyms_cons (isCapital_eq_false hc), ih hs, List.cons_append]

theorem splitAcronyms_raise (h : IsPlainWord w) (t : Text) :
    splitAcronyms (raise w ++ t) = raise w ++ splitAcronyms t := by
  obtain ⟨-, hne, hothers⟩ := h
  obtain ⟨second, rest, rfl⟩ := List.exists_cons_of_ne_nil hne
  have hsecond := isCapital_eq_false (hothers second (List.mem_cons_self ..))
  rw [raise, List.cons_append, List.cons_append, splitAcronyms_cons_cons hsecond,
    ← List.cons_append, splitAcronyms_append hothers]
  rfl

theorem splitAcronyms_words (h : ∀ w ∈ words, IsPlainWord w) :
    splitAcronyms (words.flatMap raise) = words.flatMap raise := by
  induction words with
  | nil => rfl
  | cons w words ih =>
    obtain ⟨hw, hwords⟩ := List.forall_mem_cons.mp h
    rw [List.flatMap_cons, splitAcronyms_raise hw, ih hwords]

theorem splitCapitals_cons (h : (isSmall c || Text.isDecimal c) = false) (t : Text) :
    splitCapitals (c :: t) = c :: splitCapitals t := by
  match t with
  | [] => rfl
  | _ :: _ => rw [splitCapitals, h, Bool.false_and, if_neg Bool.false_ne_true]

theorem splitCapitals_cons_cons {d : Char} (h : isCapital d = false) (t : Text) :
    splitCapitals (c :: d :: t) = c :: splitCapitals (d :: t) := by
  rw [splitCapitals, h, Bool.and_false, if_neg Bool.false_ne_true]

theorem splitCapitals_plain (hs : ∀ c ∈ s, isPlain c = true) : splitCapitals s = s := by
  induction s with
  | nil => rfl
  | cons a s ih =>
    obtain ⟨-, hs⟩ := List.forall_mem_cons.mp hs
    cases s with
    | nil => rfl
    | cons b s => rw [splitCapitals_cons_cons (isCapital_eq_false (hs b (List.mem_cons_self ..))), ih hs]

theorem splitCapitals_append (hne : s ≠ []) (hs : ∀ c ∈ s, isPlain c = true)
    (hc : isCapital c = true) (t : Text) :
    splitCapitals (s ++ c :: t) = s ++ '_' :: splitCapitals (c :: t) := by
  induction s with
  | nil => exact absurd rfl hne
  | cons a s ih =>
    obtain ⟨ha, hs⟩ := List.forall_mem_cons.mp hs
    cases s with
    | nil =>
      rw [List.cons_append, List.nil_append, splitCapitals, endsWord_of_isPlain ha, hc, Bool.and_true,
        if_pos rfl]
      rfl
    | cons b s =>
      have hb := isCapital_eq_false (hs b (List.mem_cons_self ..))
      rw [List.cons_append, List.cons_append, splitCapitals_cons_cons hb, ← List.cons_append,
        ih (List.cons_ne_nil _ _) hs]
      rfl

theorem splitCapitals_words (hw : IsPlainWord w) (h : ∀ w ∈ words, IsPlainWord w) :
    splitCapitals (raise w ++ words.flatMap raise) =
      raise w ++ words.flatMap fun w => '_' :: raise w := by
  induction words generalizing w with
  | nil =>
    obtain ⟨hfirst, -, hothers⟩ := hw
    simp only [List.flatMap_nil, List.append_nil, raise]
    rw [splitCapitals_cons (endsWord_toUpper hfirst), splitCapitals_plain hothers]
  | cons v words ih =>
    obtain ⟨hv, hwords⟩ := List.forall_mem_cons.mp h
    have hrest := ih hv hwords
    obtain ⟨hfirst, hne, hothers⟩ := hw
    obtain ⟨hcapital, -, -⟩ := hv
    rw [List.flatMap_cons, List.flatMap_cons, raise, List.cons_append,
      splitCapitals_cons (endsWord_toUpper hfirst)]
    rw [raise, List.cons_append] at hrest ⊢
    rw [splitCapitals_append hne hothers (isCapital_toUpper hcapital), hrest]
    rfl

/-! ### Small letters -/

theorem map_dashToUnderscore (h : '-' ∉ s) : s.map dashToUnderscore = s := by
  refine (List.map_congr_left fun c hc => ?_).trans (List.map_id s)
  exact if_neg (ne_of_mem_of_not_mem hc h)

end Naming

namespace Text

theorem lowerAfter_ascii {t : Text} (h : ∀ c ∈ t, c.toNat < 128) (before : Text) :
    lowerAfter before t = t.map Char.toLower := by
  induction t generalizing before with
  | nil => rfl
  | cons c t ih =>
    obtain ⟨hc, ht⟩ := List.forall_mem_cons.mp h
    have hsigma : c ≠ 'Σ' := fun h => absurd hc (by rw [h]; decide)
    rw [lowerAfter, if_neg hsigma, lowerChar, if_pos hc, ih ht]
    rfl

end Text

namespace Naming

variable {w : Text} {words : List Text}

theorem mem_raise {c : Char} (h : IsPlainWord w) (hc : c ∈ raise w) : c.toNat < 128 ∧ c ≠ '-' := by
  obtain ⟨hfirst, -, hothers⟩ := h
  obtain rfl | hc := List.mem_cons.mp hc
  · exact ⟨ascii_toUpper hfirst,
      fun hdash => toUpper_not_mem_signs hfirst (by rw [hdash]; decide)⟩
  · exact ⟨ascii_of_isPlain (hothers c hc),
      fun hdash => not_mem_signs (hothers c hc) (by rw [hdash]; decide)⟩

theorem map_toLower_raise (h : IsPlainWord w) : (raise w).map Char.toLower = w := by
  obtain ⟨hfirst, -, hothers⟩ := h
  have hrest : List.map Char.toLower _ = _ :=
    (List.map_congr_left fun c hc => toLower_of_isPlain (hothers c hc)).trans (List.map_id _)
  rw [raise, List.map_cons, toLower_toUpper hfirst, hrest]

/-- The words of a name in capitals are told apart again. -/
theorem snakeCase_words (h : ∀ w ∈ words, IsPlainWord w) :
    snakeCase (words.flatMap raise) = ['_'].intercalate words := by
  cases words with
  | nil => rfl
  | cons w words =>
    obtain ⟨hw, hwords⟩ := List.forall_mem_cons.mp h
    have hmem : ∀ c ∈ raise w ++ words.flatMap fun w => '_' :: raise w, c.toNat < 128 ∧ c ≠ '-' := by
      intro c hc
      obtain hc | hc := List.mem_append.mp hc
      · exact mem_raise hw hc
      · obtain ⟨v, hv, hc⟩ := List.mem_flatMap.mp hc
        obtain rfl | hc := List.mem_cons.mp hc
        · decide
        · exact mem_raise (hwords v hv) hc
    have hlower : words.flatMap (fun w => ('_' :: raise w).map Char.toLower) =
        words.flatMap ('_' :: ·) := by
      refine List.flatMap_congr fun v hv => ?_
      rw [List.map_cons, map_toLower_raise (hwords v hv)]
      rfl
    rw [snakeCase, splitAcronyms_words h, List.flatMap_cons, splitCapitals_words hw hwords,
      map_dashToUnderscore fun hdash => (hmem _ hdash).2 rfl, Text.lower,
      Text.lowerAfter_ascii fun c hc => (hmem c hc).1, List.map_append, map_toLower_raise hw,
      List.map_flatMap, hlower, intercalate_cons]

theorem colon_notMem_words (h : ∀ w ∈ words, IsPlainWord w) : ':' ∉ words.flatMap raise := by
  intro hcolon
  obtain ⟨w, hw, hcolon⟩ := List.mem_flatMap.mp hcolon
  obtain ⟨hfirst, -, hothers⟩ := h w hw
  obtain hc | hc := List.mem_cons.mp hcolon
  · exact toUpper_not_mem_signs hfirst (by rw [← hc]; decide)
  · exact not_mem_signs (hothers _ hc) (by decide)

theorem underscore_notMem (h : IsPlainWord w) : '_' ∉ w :=
  not_mem_of_plain (by decide) h.plain

end Naming

end RecordMap
