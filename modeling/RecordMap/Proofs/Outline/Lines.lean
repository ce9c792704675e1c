import RecordMap.Proofs.Dump.Openings

/-! Where the code of a line is read as the opening of a table. That is seen from the line alone, unless
the line leaves a name open, which then goes on up to the next quotation mark. -/

namespace RecordMap.Text

/-! ### Readers that stop at a character -/

variable {e : Char}

theorem after?_stop {d : Char} (hd : d ≠ e) (u rest : Text) :
    after? d (u ++ e :: rest) = (after? d u).map (· ++ e :: rest) := by
  cases u with
  | nil => exact if_neg hd.symm
  | cons c u =>
    rw [List.cons_append, after?, after?]
    split <;> rfl

theorem afterAll?_stop {k : String} (hk : e ∉ k.toList) (u rest : Text) :
    afterAll? k (u ++ e :: rest) = (afterAll? k u).map (· ++ e :: rest) := by
  rw [afterAll?, afterAll?]
  revert hk
  generalize k.toList = key
  intro hk
  induction key generalizing u with
  | nil => rfl
  | cons d key ih =>
    rw [List.mem_cons, not_or] at hk
    rw [List.foldlM_cons, List.foldlM_cons, after?_stop (Ne.symm hk.1)]
    cases after? d u with
    | none => rfl
    | some t => exact ih t hk.2

theorem word?_stop (he : isKeyChar e = false) (u rest : Text) :
    word? (u ++ e :: rest) = (word? u).map fun (w, t) => (w, t ++ e :: rest) := by
  cases u with
  | nil => exact word?_eq_none_iff.mpr (not_isWordChar_of_not_isKeyChar he)
  | cons c u => exact word?_extend (List.cons_ne_nil c u) (.inr he)

end RecordMap.Text

namespace RecordMap.Schema.Outline

open Written Dump Text

/-- Behind the code of a line: the spaces at its end, and lines that begin with a word or not at all. -/
def EndsLine (t : Text) : Prop := ∃ n rest, t = spaces n ++ '\n' :: rest ∧ Fresh rest

theorem endsLine (e : Ending) {t : Text} (h : Fresh t) : EndsLine (e.write .code ++ t) :=
  ⟨e.width, t, by rw [Ending.write_code, List.append_assoc, List.singleton_append], h⟩

namespace EndsLine

variable {t : Text}

theorem exists_cons (h : EndsLine t) : ∃ e rest, t = e :: rest ∧ (e = ' ' ∨ e = '\n') := by
  obtain ⟨n, rest, rfl, -⟩ := h
  cases n with
  | zero => exact ⟨'\n', rest, rfl, .inr rfl⟩
  | succ n => exact ⟨' ', spaces n ++ '\n' :: rest, rfl, .inl rfl⟩

theorem isMargin_spaces (n : Nat) : IsMargin (spaces n ++ ['\n']) :=
  (Written.isMargin_spaces n).append (IsMargin.cons_lineFeed (List.forall_mem_nil _))

theorem fresh (h : EndsLine t) : Fresh t := by
  obtain ⟨n, rest, rfl, hrest⟩ := h
  rw [← List.singleton_append, ← List.append_assoc]
  exact hrest.margin (isMargin_spaces n)

theorem after?_append (h : EndsLine t) {d : Char} (hd : isBlank d = false) (u : Text) :
    after? d (u ++ t) = (after? d u).map (· ++ t) := by
  obtain ⟨e, rest, rfl, he⟩ := h.exists_cons
  refine after?_stop ?_ u rest
  rintro rfl
  rcases he with rfl | rfl <;> exact absurd hd (by decide)

theorem afterAll?_append (h : EndsLine t) {k : String} (hk : ∀ d ∈ k.toList, isBlank d = false)
    (u : Text) : afterAll? k (u ++ t) = (afterAll? k u).map (· ++ t) := by
  obtain ⟨e, rest, rfl, he⟩ := h.exists_cons
  refine afterAll?_stop (fun hmem => ?_) u rest
  rcases he with rfl | rfl <;> exact absurd (hk _ hmem) (by decide)

theorem word?_append (h : EndsLine t) (u : Text) :
    word? (u ++ t) = (word? u).map fun (w, rest) => (w, rest ++ t) := by
  obtain ⟨e, rest, rfl, he⟩ := h.exists_cons
  refine word?_stop ?_ u rest
  rcases he with rfl | rfl <;> decide

theorem dropBlanks_append_of_ne_nil {u : Text} (hu : dropBlanks u ≠ []) :
    dropBlanks (u ++ t) = dropBlanks u ++ t := by
  rw [dropBlanks] at hu
  rw [dropBlanks, dropBlanks, List.dropWhile_append, if_neg (by simpa using hu)]

theorem dropBlanks_append_of_nil {u : Text} (hu : dropBlanks u = []) :
    dropBlanks (u ++ t) = dropBlanks t :=
  dropBlanks_blanks (List.dropWhile_eq_nil_iff.mp hu) t

theorem blockStart?_append (h : EndsLine t) (v : Text) :
    blockStart? (v ++ t) = (blockStart? v).map fun (receiver, rest) => (receiver, rest ++ t) := by
  have hno := h.fresh.noBlock
  have hspaced : (after? ')' (v ++ t)).getD (v ++ t) = (after? ')' v).getD v ++ t := by
    rw [h.after?_append (by decide)]
    cases after? ')' v <;> rfl
  rw [blockStart?, blockStart?, hspaced]
  generalize (after? ')' v).getD v = s
  by_cases hs : dropBlanks s = []
  · -- Blanks only: what follows is the next line, and no block starts there.
    have hnone : afterAll? "do" [] = none := rfl
    rw [dropBlanks_append_of_nil hs, hs, hnone]
    cases hdo : afterAll? "do" (dropBlanks t) with
    | none => rfl
    | some r =>
      have hbar : after? '|' (dropBlanks r) = none := after?_eq_none (hno.no_do r hdo)
      simp only [hbar, Option.bind_eq_bind, Option.bind_some, Option.bind_none, ite_self,
        Option.map_none]
  · have hhead : (s ++ t).head?.any isBlank = s.head?.any isBlank := by
      cases s with
      | nil => exact absurd rfl hs
      | cons c s => rfl
    rw [dropBlanks_append_of_ne_nil hs, h.afterAll?_append (by decide), hhead]
    generalize s.head?.any isBlank = blank
    cases afterAll? "do" (dropBlanks s) with
    | none => rfl
    | some y =>
      simp only [Option.map_some, Option.bind_eq_bind, Option.bind_some]
      by_cases hy : dropBlanks y = []
      · have hbar : after? '|' (dropBlanks t) = none := after?_eq_none hno.no_bar
        have hnil : after? '|' [] = none := rfl
        rw [dropBlanks_append_of_nil hy, hy, hbar, hnil]
        cases blank <;> rfl
      · rw [dropBlanks_append_of_ne_nil hy, h.after?_append (by decide)]
        cases after? '|' (dropBlanks y) with
        | none => cases blank <;> rfl
        | some z =>
          simp only [Option.map_some, Option.bind_some]
          rw [h.word?_append]
          cases word? z with
          | none => cases blank <;> rfl
          | some found =>
            simp only [Option.map_some, Option.bind_some]
            rw [h.after?_append (by decide)]
            cases after? '|' found.2 <;> cases blank <;> rfl

theorem optionsAndBlock?_append (h : EndsLine t) {v : Text} (hv : '\n' ∉ v) :
    optionsAndBlock? (v ++ t) =
      (optionsAndBlock? v).map fun (options, receiver, rest) => (options, receiver, rest ++ t) := by
  induction v with
  | nil =>
    obtain ⟨n, rest, rfl, hrest⟩ := h
    exact optionsAndBlock?_eq_none (fun hmem => absurd (mem_spaces hmem) (by decide)) hrest.noBlock
  | cons c v ih =>
    rw [List.mem_cons, not_or] at hv
    have hstart := h.blockStart?_append (c :: v)
    rw [List.cons_append] at hstart ⊢
    rw [optionsAndBlock?, optionsAndBlock?, hstart, if_neg (Ne.symm hv.1), if_neg (Ne.symm hv.1),
      ih hv.2]
    cases blockStart? (c :: v) with
    | some found => rfl
    | none => cases optionsAndBlock? v <;> rfl

end EndsLine

/-! ### Names that a line leaves open -/

/-- What is read of a table's name that begins in the text and does not end in it. -/
def openName? (t : Text) : Option Text :=
  (afterAll? "create_table" t).bind fun rest =>
    match openBracket rest with
    | [] => none
    | c :: name => if isQuote c ∧ name.all (!isQuote ·) then some name else none

def leavesName : Pattern Text := fun _ t => (openName? t).map (·, [])

theorem name?_of_isWordChar {c : Char} (h : isWordChar c = true) (t : Text) : name? (c :: t) = none := by
  have hname := not_opensName_of_isWordChar h
  rw [opensName, Bool.or_eq_false_iff, Bool.or_eq_false_iff, beq_eq_false_iff_ne] at hname
  rw [name?, if_neg hname.1.2, if_neg (by rw [hname.2]; exact Bool.false_ne_true)]

theorem name?_quoted {c : Char} (h : isQuote c = true) (u : Text) :
    name? (c :: u) = if u.takeWhile (!isQuote ·) = [] then none
      else (u.dropWhile (!isQuote ·)).tail?.map (u.takeWhile (!isQuote ·), ·) := by
  have hcolon : c ≠ ':' := by
    rintro rfl
    cases h
  rw [name?, if_neg hcolon, if_pos h]
  cases u.takeWhile (!isQuote ·) with
  | nil => rfl
  | cons d w => cases u.dropWhile (!isQuote ·) <;> rfl

theorem name?_suffix {t name rest : Text} (h : name? t = some (name, rest)) : rest <:+ t := by
  cases t with
  | nil => cases h
  | cons c u =>
    refine List.IsSuffix.trans ?_ (List.suffix_cons c u)
    by_cases hcolon : c = ':'
    · rw [name?, if_pos hcolon] at h
      obtain ⟨rfl, -⟩ := word?_eq_some h
      exact List.suffix_append _ _
    by_cases hquote : isQuote c = true
    · rw [name?_quoted hquote] at h
      split at h
      · cases h
      · obtain ⟨tail, htail, heq⟩ := Option.map_eq_some_iff.mp h
        obtain rfl : tail = rest := congrArg Prod.snd heq
        cases hdrop : u.dropWhile (!isQuote ·) with
        | nil => rw [hdrop] at htail; cases htail
        | cons d w =>
          rw [hdrop] at htail
          obtain rfl : w = tail := Option.some.inj htail
          exact (List.suffix_cons d w).trans (hdrop ▸ List.dropWhile_suffix _)
    · rw [name?, if_neg hcolon, if_neg hquote] at h
      cases h

theorem not_isQuote_of_any {t : Text} (h : t.any isQuote = false) : ∀ c ∈ t, isQuote c = false :=
  fun c hc => Bool.eq_false_iff.mpr (List.any_eq_false.mp h c hc)

theorem dropWhile_ne_nil {t : Text} (h : t.any isQuote = true) : t.dropWhile (!isQuote ·) ≠ [] := by
  intro hnil
  obtain ⟨c, hc, hquote⟩ := List.any_eq_true.mp h
  have hnone := List.dropWhile_eq_nil_iff.mp hnil c hc
  rw [hquote] at hnone
  cases hnone

theorem dropWhile_append {t : Text} (h : t.any isQuote = true) (rest : Text) :
    (t ++ rest).dropWhile (!isQuote ·) = t.dropWhile (!isQuote ·) ++ rest := by
  rw [List.dropWhile_append, if_neg (by simpa using dropWhile_ne_nil h)]

theorem openingBehind?_eq (t : Text) :
    openingBehind? t = (t.dropWhile (!isQuote ·)).tail?.bind optionsAndBlock? := by
  rw [openingBehind?]
  cases t.dropWhile (!isQuote ·) <;> rfl

theorem not_isBlank_of_dropBlanks {t : Text} {c : Char} {rest : Text} (h : dropBlanks t = c :: rest) :
    isBlank c = false := by
  have hhead := List.head?_dropWhile_not isBlank t
  rw [dropBlanks] at h
  rwa [h] at hhead

namespace EndsLine

variable {t : Text}

theorem openBracket_append (h : EndsLine t) {u : Text} (hu : openBracket u ≠ []) :
    openBracket (u ++ t) = openBracket u ++ t := by
  rw [openBracket] at hu
  have hne : dropBlanks u ≠ [] := by
    intro hnil
    rw [hnil] at hu
    exact hu rfl
  rw [openBracket, openBracket, dropBlanks_append_of_ne_nil hne, h.after?_append (by decide)]
  revert hu
  cases after? '(' (dropBlanks u) with
  | none => exact dropBlanks_append_of_ne_nil
  | some v => exact dropBlanks_append_of_ne_nil

theorem nameless_append (h : EndsLine t) {u : Text} (hu : openBracket u = []) : Nameless (u ++ t) := by
  cases hdrop : dropBlanks u with
  | nil => exact nameless_blanks (List.dropWhile_eq_nil_iff.mp hdrop) h.fresh.nameless
  | cons c w =>
    have hne : dropBlanks u ≠ [] := by
      rw [hdrop]
      exact List.cons_ne_nil c w
    have hc : dropBlanks (c :: w) = c :: w := dropBlanks_of_head (not_isBlank_of_dropBlanks hdrop)
    rw [openBracket, hdrop] at hu
    rw [Nameless, openBracket, dropBlanks_append_of_ne_nil hne, h.after?_append (by decide), hdrop]
    cases hafter : after? '(' (c :: w) with
    | none =>
      rw [hafter, Option.getD_none, hc] at hu
      cases hu
    | some v =>
      rw [hafter, Option.getD_some] at hu
      rw [Option.map_some, Option.getD_some, dropBlanks_append_of_nil hu]
      cases hnext : dropBlanks t with
      | nil => rfl
      | cons d rest =>
        exact name?_of_isWordChar (h.fresh.head? (by rw [hnext]; rfl)) rest

theorem takeWhile_ne_nil (h : EndsLine t) : t.takeWhile (!isQuote ·) ≠ [] := by
  obtain ⟨e, rest, rfl, he⟩ := h.exists_cons
  have hquote : isQuote e = false := by rcases he with rfl | rfl <;> rfl
  simp [hquote]

/-- A name that begins with the text ends in it or goes on up to the next quotation mark. -/
theorem name?_append (h : EndsLine t) (c : Char) (u : Text) :
    name? (c :: (u ++ t)) = ((name? (c :: u)).map fun (name, rest) => (name, rest ++ t)).or
      (if isQuote c ∧ u.all (!isQuote ·) then
        (t.dropWhile (!isQuote ·)).tail?.map (u ++ t.takeWhile (!isQuote ·), ·) else none) := by
  by_cases hcolon : c = ':'
  · have hquote : ¬ (isQuote c = true ∧ u.all (!isQuote ·) = true) := by
      rintro ⟨hquote, -⟩
      rw [hcolon] at hquote
      cases hquote
    rw [name?, name?, if_pos hcolon, if_pos hcolon, if_neg hquote, Option.or_none]
    exact h.word?_append u
  by_cases hquote : isQuote c = true
  · rw [name?_quoted hquote, name?_quoted hquote]
    by_cases hall : u.all (!isQuote ·) = true
    · have hu := List.all_eq_true.mp hall
      have hdrop : u.dropWhile (!isQuote ·) = [] := List.dropWhile_eq_nil_iff.mpr hu
      rw [List.takeWhile_append_of_pos hu, List.dropWhile_append_of_pos hu,
        if_neg (List.append_ne_nil_of_right_ne_nil u h.takeWhile_ne_nil),
        if_pos (And.intro hquote hall), hdrop]
      split <;> rfl
    · have hne : u.dropWhile (!isQuote ·) ≠ [] :=
        fun hnil => hall (List.all_eq_true.mpr (List.dropWhile_eq_nil_iff.mp hnil))
      have htake : (u ++ t).takeWhile (!isQuote ·) = u.takeWhile (!isQuote ·) := by
        rw [List.takeWhile_append, if_neg fun hlength => hne ?_]
        exact List.length_eq_zero_iff.mp (by
          have hsum := congrArg List.length (List.takeWhile_append_dropWhile (p := (!isQuote ·)) (l := u))
          rw [List.length_append] at hsum
          omega)
      have hdrop : (u ++ t).dropWhile (!isQuote ·) = u.dropWhile (!isQuote ·) ++ t := by
        rw [List.dropWhile_append, if_neg (by simpa using hne)]
      obtain ⟨d, w, hcons⟩ := List.exists_cons_of_ne_nil hne
      rw [htake, hdrop, hcons, if_neg (mt And.right hall), Option.or_none]
      split <;> rfl
  · rw [name?, name?, if_neg hcolon, if_neg hcolon, if_neg hquote, if_neg hquote,
      if_neg fun hand => hquote hand.1]
    rfl

/-- Whether code opens a table is seen from its line, unless a name that the line leaves open goes on
up to the next quotation mark. -/
theorem header_append (h : EndsLine t) {v : Text} (hv : '\n' ∉ v) (before : Option Char) :
    header before (v ++ t) = ((header before v).map fun (found, rest) => (found, rest ++ t)).or
      ((openName? v).bind fun name => (openingBehind? t).map fun (options, receiver, rest) =>
        (⟨name ++ t.takeWhile (!isQuote ·), options, receiver⟩, rest)) := by
  rw [header, header, openName?, h.afterAll?_append (by decide)]
  cases hafter : afterAll? "create_table" v with
  | none => rfl
  | some w =>
    simp only [Option.map_some, Option.bind_eq_bind, Option.bind_some]
    cases hbracket : openBracket w with
    | nil =>
      have hnone : name? (openBracket (w ++ t)) = none := h.nameless_append hbracket
      rw [hnone]
      rfl
    | cons c u =>
      rw [h.openBracket_append (by rw [hbracket]; exact List.cons_ne_nil c u), hbracket,
        List.cons_append, h.name?_append]
      simp only
      by_cases hopen : isQuote c = true ∧ u.all (!isQuote ·) = true
      · -- The name goes on up to the next quotation mark, which is in a later line.
        have hdrop : u.dropWhile (!isQuote ·) = [] :=
          List.dropWhile_eq_nil_iff.mpr (List.all_eq_true.mp hopen.2)
        rw [if_pos hopen, if_pos hopen, name?_quoted hopen.1, hdrop, openingBehind?_eq]
        cases (t.dropWhile (!isQuote ·)).tail? with
        | none => split <;> rfl
        | some rest =>
          cases hblock : optionsAndBlock? rest with
          | none => split <;> simp [hblock]
          | some found => split <;> simp [hblock]
      · rw [if_neg hopen, if_neg hopen, Option.or_none, Option.bind_none, Option.or_none]
        cases hname : name? (c :: u) with
        | none => rfl
        | some found =>
          obtain ⟨name, rest⟩ := found
          have hsuffix : rest <:+ v := by
            refine (name?_suffix hname).trans ((hbracket ▸ openBracket_suffix w).trans ?_)
            rw [afterAll?_eq_some_iff.mp hafter]
            exact List.suffix_append _ _
          have hrest : '\n' ∉ rest := fun hmem => hv (hsuffix.subset hmem)
          simp only [Option.map_some, Option.bind_some, h.optionsAndBlock?_append hrest]
          cases optionsAndBlock? rest <;> rfl

theorem header_append_eq_none_iff (h : EndsLine t) {v : Text} (hv : '\n' ∉ v) (before : Option Char) :
    header before (v ++ t) = none ↔
      header before v = none ∧ (openName? v = none ∨ openingBehind? t = none) := by
  rw [h.header_append hv, Option.or_eq_none_iff, Option.map_eq_none_iff]
  refine and_congr_right fun _ => ?_
  cases openName? v with
  | none => simp
  | some name => simp

end EndsLine

end RecordMap.Schema.Outline
