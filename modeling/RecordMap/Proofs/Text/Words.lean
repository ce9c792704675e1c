import Mathlib.Data.List.TakeWhile
import RecordMap.Proofs.Text.Search
import RecordMap.Source.Block

/-! Words, keys and the boundaries between them. -/

namespace RecordMap.Text

/-- What is said of the characters of a text is tried on these alone, not on all characters there
are. -/
instance {p : Char → Prop} [DecidablePred p] (t : Text) : Decidable (∀ c ∈ t, p c) :=
  List.decidableBAll p t

/-- The characters that words and the keys of options are made of. -/
def isKeyChar (c : Char) : Bool := isWordChar c || c == ':'

/-- No word and no key goes on from a text into the rest behind it. -/
def Separate (s rest : Text) : Prop :=
  s.getLast?.any isKeyChar = false ∨ rest.head?.any isKeyChar = false

theorem not_isWordChar_of_not_isKeyChar {c : Char} (h : isKeyChar c = false) :
    isWordChar c = false := (Bool.or_eq_false_iff.mp h).1

theorem ne_of_isWordChar {c d : Char} (hc : isWordChar c = true) (hd : isWordChar d = false) :
    c ≠ d := by
  rintro rfl
  rw [hd] at hc
  cases hc

theorem head?_isWordChar {t : Text} (h : t.head?.any isKeyChar = false) :
    t.head?.any isWordChar = false := by
  cases t with
  | nil => rfl
  | cons c t => exact not_isWordChar_of_not_isKeyChar h

theorem getLast?_of_suffix {α : Type} {u s : List α} (hu : u ≠ []) (h : u <:+ s) :
    u.getLast? = s.getLast? := by
  obtain ⟨front, rfl⟩ := h
  rw [List.getLast?_append]
  cases hlast : u.getLast? with
  | none => exact absurd (List.getLast?_eq_none_iff.mp hlast) hu
  | some c => rfl

theorem Separate.of_suffix {u s rest : Text} (hu : u ≠ []) (hsuffix : u <:+ s)
    (h : Separate s rest) : Separate u rest := by
  rwa [Separate, getLast?_of_suffix hu hsuffix]

theorem takeWhile_append_of_all {f : Char → Bool} {s rest : Text} (hs : s.all f = true)
    (hrest : rest.head?.any f = false) : (s ++ rest).takeWhile f = s := by
  rw [List.takeWhile_append_of_pos (List.all_eq_true.mp hs)]
  cases rest with
  | nil => exact List.append_nil s
  | cons c rest =>
    have hc : f c = false := hrest
    rw [List.takeWhile_cons_of_neg (by simp [hc]), List.append_nil]

theorem dropWhile_append_of_all {f : Char → Bool} {s rest : Text} (hs : s.all f = true)
    (hrest : rest.head?.any f = false) : (s ++ rest).dropWhile f = rest := by
  rw [List.dropWhile_append_of_pos (List.all_eq_true.mp hs)]
  cases rest with
  | nil => rfl
  | cons c rest =>
    have hc : f c = false := hrest
    rw [List.dropWhile_cons_of_neg (by simp [hc])]

/-! ### Ranges -/

def codesIn (ranges : List (Nat × Nat)) : List Nat :=
  ranges.flatMap fun (low, high) => List.range' low (high + 1 - low)

theorem mem_codesIn {ranges : List (Nat × Nat)} {code : Nat} (h : inRanges ranges code = true) :
    code ∈ codesIn ranges := by
  obtain ⟨⟨low, high⟩, hmem, hrange⟩ := List.any_eq_true.mp h
  rw [Bool.and_eq_true, decide_eq_true_eq, decide_eq_true_eq] at hrange
  refine List.mem_flatMap.mpr ⟨(low, high), hmem, List.mem_range'_1.mpr ⟨hrange.1, ?_⟩⟩
  omega

theorem not_isBlank_of_isWordChar {c : Char} (h : isWordChar c = true) : isBlank c = false := by
  rw [← Bool.not_eq_true]
  intro hblank
  have hnone : ∀ n ∈ codesIn [(9, 13), (28, 32), (133, 133), (160, 160), (5760, 5760), (8192, 8202),
      (8232, 8233), (8239, 8239), (8287, 8287), (12288, 12288)], isWordChar (Char.ofNat n) = false := by
    decide +kernel
  have hword := hnone c.toNat (mem_codesIn hblank)
  rw [Char.ofNat_toNat, h] at hword
  cases hword

/-! ### Words -/

theorem word?_append {w rest : Text} (hw : w ≠ []) (hall : w.all isWordChar = true)
    (hrest : rest.head?.any isWordChar = false) : word? (w ++ rest) = some (w, rest) := by
  rw [word?, takeWhile_append_of_all hall hrest, dropWhile_append_of_all hall hrest]
  cases w with
  | nil => exact absurd rfl hw
  | cons => rfl

theorem word?_eq_none_iff {t : Text} : word? t = none ↔ t.head?.any isWordChar = false := by
  cases t with
  | nil => simp [word?]
  | cons c t =>
    cases hc : isWordChar c with
    | true => simp [word?, hc]
    | false => simp [word?, hc]

theorem word?_eq_some_iff {t w rest : Text} :
    word? t = some (w, rest) ↔
      t = w ++ rest ∧ w ≠ [] ∧ w.all isWordChar = true ∧ rest.head?.any isWordChar = false := by
  constructor
  · intro h
    obtain ⟨ht, hne, hall⟩ := word?_eq_some h
    refine ⟨ht, hne, hall, ?_⟩
    unfold word? at h
    split at h
    · cases h
    · cases h
      have hhead := List.head?_dropWhile_not isWordChar t
      cases hrest : (t.dropWhile isWordChar).head? with
      | none => rfl
      | some c =>
        rw [hrest] at hhead
        exact hhead
  · rintro ⟨rfl, hne, hall, hrest⟩
    exact word?_append hne hall hrest

/-- Behind the first character of a word no keyword starts: the word goes on from the character before. -/
theorem keyword_passesOver_within {c : Char} {s rest : Text} (h : (c :: s).all isWordChar = true) :
    Source.keyword.PassesOver (some c) s rest := by
  induction s generalizing c with
  | nil => trivial
  | cons d s ih =>
    rw [List.all_cons, Bool.and_eq_true] at h
    refine ⟨?_, ih h.2⟩
    rw [Source.keyword, if_neg (by simp [startsWord, h.1])]

theorem word?_extend {u rest : Text} (hu : u ≠ []) (h : Separate u rest) :
    word? (u ++ rest) = (word? u).map fun (w, t) => (w, t ++ rest) := by
  cases hall : u.all isWordChar with
  | true =>
    have hlast : isWordChar (u.getLast hu) = true :=
      List.all_eq_true.mp hall _ (List.getLast_mem hu)
    have hrest : rest.head?.any isWordChar = false := by
      rcases h with h | h
      · rw [List.getLast?_eq_some_getLast hu, Option.any_some] at h
        rw [not_isWordChar_of_not_isKeyChar h] at hlast
        cases hlast
      · cases rest with
        | nil => rfl
        | cons c rest => exact not_isWordChar_of_not_isKeyChar h
    have hself : word? u = some (u, []) := by
      have happend : word? (u ++ []) = some (u, []) := word?_append hu hall rfl
      rwa [List.append_nil] at happend
    rw [word?_append hu hall hrest, hself]
    rfl
  | false =>
    have hdrop : u.dropWhile isWordChar ≠ [] := by
      intro hnil
      rw [List.dropWhile_eq_nil_iff] at hnil
      rw [List.all_eq_true.mpr hnil] at hall
      cases hall
    have htake : (u.takeWhile isWordChar).length ≠ u.length := by
      intro hlength
      have hparts := congrArg List.length (List.takeWhile_append_dropWhile (p := isWordChar) (l := u))
      rw [List.length_append, hlength] at hparts
      exact hdrop (List.length_eq_zero_iff.mp (by omega))
    rw [word?, word?, List.takeWhile_append, if_neg htake, List.dropWhile_append,
      if_neg (by simpa using hdrop)]
    cases u.takeWhile isWordChar <;> rfl

/-! ### Given texts -/

theorem afterAll?_cons_eq_none {k : String} {c : Char} (h : k.toList.head? ≠ some c) (hk : k.toList ≠ [])
    (t : Text) : afterAll? k (c :: t) = none := by
  rw [Option.eq_none_iff_forall_ne_some]
  intro r hr
  rw [afterAll?_eq_some_iff] at hr
  obtain ⟨d, u, hcons⟩ := List.exists_cons_of_ne_nil hk
  rw [hcons] at hr h
  exact h (congrArg some (List.cons.inj hr).1.symm)

theorem afterAll?_extend {k : String} {u rest : Text} (hk : k.toList.all isKeyChar = true)
    (hu : u ≠ []) (h : Separate u rest) (hnone : afterAll? k u = none) :
    afterAll? k (u ++ rest) = none := by
  rw [Option.eq_none_iff_forall_ne_some] at hnone ⊢
  intro t ht
  rw [afterAll?_eq_some_iff] at ht
  rcases List.append_eq_append_iff.mp ht with ⟨k', hkey, hrest⟩ | ⟨t', hfront, _⟩
  · cases k' with
    | nil =>
      rw [List.append_nil] at hkey
      exact hnone [] (afterAll?_eq_some_iff.mpr (by rw [hkey, List.append_nil]))
    | cons c k' =>
      have hc : isKeyChar c = true :=
        List.all_eq_true.mp hk c (by simp [hkey])
      have hlast : isKeyChar (u.getLast hu) = true :=
        List.all_eq_true.mp hk _ (by rw [hkey]; exact List.mem_append_left _ (List.getLast_mem hu))
      rcases h with h | h
      · rw [List.getLast?_eq_some_getLast hu, Option.any_some, hlast] at h
        cases h
      · rw [hrest, List.cons_append, List.head?_cons, Option.any_some, hc] at h
        cases h
  · exact hnone t' (afterAll?_eq_some_iff.mpr hfront)

end RecordMap.Text
