import RecordMap.Text.Pattern

/-! Searches through a text in pieces: what a pattern passes over, and where its matches stand. -/

namespace RecordMap.Pattern

open Text

variable {α β : Type} {p : Pattern α}

theorem getLast?_cons_or (c : Char) (s : Text) (before : Option Char) :
    (c :: s).getLast?.or before = s.getLast?.or (some c) := by
  rw [List.getLast?_cons]
  cases s.getLast? <;> rfl

/-- The pattern matches at no character of `s`, which stands behind `before` and in front of
`rest`. -/
def PassesOver (p : Pattern α) (before : Option Char) : Text → Text → Prop
  | [], _ => True
  | c :: s, rest => p before (c :: (s ++ rest)) = none ∧ PassesOver p (some c) s rest

instance decidablePassesOver (p : Pattern α) :
    (before : Option Char) → (s rest : Text) → Decidable (p.PassesOver before s rest)
  | _, [], _ => .isTrue trivial
  | before, c :: s, rest =>
    have := decidablePassesOver p (some c) s rest
    inferInstanceAs (Decidable (p before (c :: (s ++ rest)) = none ∧ _))

theorem passesOver_append {before : Option Char} {s t rest : Text} :
    p.PassesOver before (s ++ t) rest ↔
      p.PassesOver before s (t ++ rest) ∧ p.PassesOver (s.getLast?.or before) t rest := by
  induction s generalizing before with
  | nil => simp [PassesOver]
  | cons c s ih =>
    rw [List.cons_append, PassesOver, PassesOver, ih, getLast?_cons_or, List.append_assoc, and_assoc]

theorem passesOver_flatMap {κ : Type} {f : κ → Text} {l : List κ}
    (h : ∀ x ∈ l, ∀ before rest, p.PassesOver before (f x) rest) (before : Option Char) (rest : Text) :
    p.PassesOver before (l.flatMap f) rest := by
  induction l generalizing before with
  | nil => trivial
  | cons x l ih =>
    obtain ⟨hx, hl⟩ := List.forall_mem_cons.mp h
    rw [List.flatMap_cons, passesOver_append]
    exact ⟨hx before _, ih hl _⟩

theorem passesOver_of_suffix {before : Option Char} {s rest : Text}
    (h : ∀ b u, u ≠ [] → u <:+ s → p b (u ++ rest) = none) : p.PassesOver before s rest := by
  induction s generalizing before with
  | nil => trivial
  | cons c s ih =>
    refine ⟨h before (c :: s) (List.cons_ne_nil c s) (List.suffix_refl _), ?_⟩
    exact ih fun b u hu hsuffix => h b u hu (hsuffix.trans (List.suffix_cons c s))

theorem passesOver_of_forall {before : Option Char} {s rest : Text}
    (h : ∀ c ∈ s, ∀ b t, p b (c :: t) = none) : p.PassesOver before s rest := by
  refine passesOver_of_suffix fun b u hu hsuffix => ?_
  obtain ⟨c, u, rfl⟩ := List.exists_cons_of_ne_nil hu
  exact h c (hsuffix.subset (List.mem_cons_self ..)) b (u ++ rest)

/-- What a pattern passes over at the end of a text, another one, or the same, passes over in front of a
rest with which no new match comes up. -/
theorem PassesOver.extend {q : Pattern β} {before : Option Char} {s rest : Text}
    (h : q.PassesOver before s [])
    (hrest : ∀ b u, u ≠ [] → u <:+ s → q b u = none → p b (u ++ rest) = none) :
    p.PassesOver before s rest := by
  induction s generalizing before with
  | nil => trivial
  | cons c s ih =>
    obtain ⟨hc, hs⟩ := h
    rw [List.append_nil] at hc
    refine ⟨hrest before (c :: s) (List.cons_ne_nil c s) (List.suffix_refl _) hc, ?_⟩
    exact ih hs fun b u hu hsuffix => hrest b u hu (hsuffix.trans (List.suffix_cons c s))

theorem passesOver_of_firstAfter_eq_none {before : Option Char} {s : Text}
    (h : p.firstAfter before s = none) : p.PassesOver before s [] := by
  induction s generalizing before with
  | nil => trivial
  | cons c s ih =>
    rw [firstAfter] at h
    split at h
    · cases h
    · next hc => exact ⟨(List.append_nil s).symm ▸ hc, ih h⟩

theorem PassesOver.mono {q : Pattern β} {before : Option Char} {s rest : Text}
    (hpq : ∀ b t, q b t = none → p b t = none) (h : q.PassesOver before s rest) :
    p.PassesOver before s rest := by
  induction s generalizing before with
  | nil => trivial
  | cons c s ih => exact ⟨hpq _ _ h.1, ih h.2⟩

theorem allFrom_of_passesOver {before : Option Char} {s rest : Text} (position : Nat)
    (h : p.PassesOver before s rest) :
    p.allFrom 0 position before (s ++ rest) =
      p.allFrom 0 (position + s.length) (s.getLast?.or before) rest := by
  induction s generalizing before position with
  | nil => simp
  | cons c s ih =>
    rw [List.cons_append, allFrom_of_none position h.1, ih (position + 1) h.2, List.length_cons,
      getLast?_cons_or, Nat.add_assoc, Nat.add_comm 1]

theorem replaceFrom_of_passesOver {before : Option Char} {s rest : Text} (f : α → Text → Text)
    (h : p.PassesOver before s rest) :
    p.replaceFrom f 0 before (s ++ rest) = s ++ p.replaceFrom f 0 (s.getLast?.or before) rest := by
  induction s generalizing before with
  | nil => simp
  | cons c s ih =>
    rw [List.cons_append, replaceFrom_of_none f h.1, ih h.2, getLast?_cons_or, List.cons_append]

theorem firstAfter_of_passesOver {before : Option Char} {s rest : Text}
    (h : p.PassesOver before s rest) :
    p.firstAfter before (s ++ rest) = p.firstAfter (s.getLast?.or before) rest := by
  induction s generalizing before with
  | nil => simp
  | cons c s ih =>
    rw [List.cons_append, firstAfter, h.1, ih h.2, getLast?_cons_or]

/-! ### Where matches stand -/

theorem le_start {skip position : Nat} {before : Option Char} {t : Text} {f : Found α}
    (h : f ∈ p.allFrom skip position before t) : position ≤ f.start := by
  induction t generalizing skip position before with
  | nil => cases h
  | cons c t ih =>
    cases skip with
    | succ skip => exact Nat.le_of_succ_le (ih h)
    | zero =>
      cases hp : p before (c :: t) with
      | none =>
        rw [allFrom_of_none position hp] at h
        exact Nat.le_of_succ_le (ih h)
      | some found =>
        simp only [allFrom, hp] at h
        rcases List.mem_cons.mp h with rfl | h
        · exact Nat.le_refl position
        · exact Nat.le_of_succ_le (ih h)

/-- If no match reaches from the front of a text into its back, then the matches that start in the
back are those of the back alone. -/
theorem filter_allFrom_append {skip : Nat} (position : Nat) (before : Option Char) {s t : Text}
    (hskip : skip ≤ s.length)
    (h : ∀ b u a rest, u ≠ [] → u <:+ s → p b (u ++ t) = some (a, rest) → t.length ≤ rest.length) :
    (p.allFrom skip position before (s ++ t)).filter (position + s.length ≤ ·.start) =
      p.allFrom 0 (position + s.length) (s.getLast?.or before) t := by
  induction s generalizing skip position before with
  | nil =>
    obtain rfl : skip = 0 := Nat.le_zero.mp hskip
    rw [List.nil_append, List.length_nil, Nat.add_zero]
    exact List.filter_eq_self.mpr fun f hf => decide_eq_true (le_start hf)
  | cons c s ih =>
    have hs : ∀ b u a rest, u ≠ [] → u <:+ s → p b (u ++ t) = some (a, rest) →
        t.length ≤ rest.length :=
      fun b u a rest hu hsuffix => h b u a rest hu (hsuffix.trans (List.suffix_cons c s))
    have hlength : position + (c :: s).length = position + 1 + s.length := by
      rw [List.length_cons]
      omega
    rw [hlength, getLast?_cons_or, List.cons_append]
    cases skip with
    | succ skip =>
      rw [allFrom]
      exact ih (position + 1) (some c) (Nat.le_of_succ_le_succ hskip) hs
    | zero =>
      cases hp : p before (c :: (s ++ t)) with
      | none =>
        rw [allFrom_of_none position hp]
        exact ih (position + 1) (some c) (Nat.zero_le _) hs
      | some found =>
        obtain ⟨a, rest⟩ := found
        have hrest : t.length ≤ rest.length :=
          h before (c :: s) a rest (List.cons_ne_nil c s) (List.suffix_refl _) hp
        -- The match ends within the front, so what it skips of the text is left of the front.
        have hsize : (c :: (s ++ t)).length - rest.length - 1 ≤ s.length := by
          rw [List.length_cons, List.length_append]
          omega
        simp only [allFrom, hp]
        rw [List.filter_cons_of_neg, ih (position + 1) (some c) hsize hs]
        simp only [decide_eq_true_eq]
        omega

/-! ### What is left of a text

Positions need not be counted where it is known how much of the text is left. -/

/-- The matches in what is left, `t`, of a text of `size` characters. -/
def allIn (p : Pattern α) (size : Nat) (before : Option Char) (t : Text) : List (Found α) :=
  p.allFrom 0 (size - t.length) before t

theorem all_eq_allIn (t : Text) : p.all t = p.allIn t.length none t := by
  rw [all, allIn, Nat.sub_self]

theorem allIn_of_passesOver {size : Nat} {before : Option Char} {s rest : Text}
    (hsize : (s ++ rest).length ≤ size) (h : p.PassesOver before s rest) :
    p.allIn size before (s ++ rest) = p.allIn size (s.getLast?.or before) rest := by
  have hposition : size - (s ++ rest).length + s.length = size - rest.length := by
    rw [List.length_append] at hsize ⊢
    omega
  rw [allIn, allFrom_of_passesOver _ h, hposition, allIn]

theorem allIn_of_match {size : Nat} {before : Option Char} {s rest : Text} {a : α}
    (hsize : (s ++ rest).length ≤ size) (hs : s ≠ []) (h : p before (s ++ rest) = some (a, rest)) :
    p.allIn size before (s ++ rest) =
      ⟨size - (s ++ rest).length, size - rest.length, a⟩ ::
        p.allIn size (s.getLast?.or before) rest := by
  have hposition : size - (s ++ rest).length + s.length = size - rest.length := by
    rw [List.length_append] at hsize ⊢
    omega
  rw [allIn, allFrom_of_match _ hs h, hposition, allIn]

theorem firstAfter_verbatim_isSome {s : String} (hs : s.toList ≠ []) (before : Option Char) (t : Text) :
    ((verbatim s).firstAfter before t).isSome = true ↔ s.toList <:+: t := by
  induction t generalizing before with
  | nil =>
    rw [List.infix_nil]
    exact iff_of_false Bool.false_ne_true hs
  | cons c cs ih =>
    rw [List.infix_cons_iff, firstAfter, verbatim]
    cases hafter : afterAll? s (c :: cs) with
    | none =>
      have hprefix : ¬ s.toList <+: c :: cs := by
        rintro ⟨rest, hrest⟩
        rw [afterAll?_eq_some_iff.mpr hrest.symm] at hafter
        cases hafter
      exact (ih (some c)).trans (or_iff_right hprefix).symm
    | some rest => exact iff_of_true rfl (.inl ⟨rest, (afterAll?_eq_some_iff.mp hafter).symm⟩)

theorem occursIn_verbatim_iff {s : String} (hs : s.toList ≠ []) {t : Text} :
    (verbatim s).occursIn t = true ↔ s.toList <:+: t :=
  firstAfter_verbatim_isSome hs none t

end RecordMap.Pattern
