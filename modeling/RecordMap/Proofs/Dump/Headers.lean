import RecordMap.Proofs.Dump.Layout

/-! How the readers of a dump take a line that opens a table, and why they take no other line for
one. -/

namespace RecordMap.Schema.Dump

open Text

/-! ### Brackets and names -/

theorem dropBlanks_of_head {t : Text} (h : t.head?.any isBlank = false) : dropBlanks t = t :=
  dropWhile_append_of_all (s := []) rfl h

theorem dropBlanks_append {s rest : Text} (h : rest.head?.any isBlank = false) :
    dropBlanks (s ++ rest) = dropBlanks s ++ rest := by
  have hrest := dropBlanks_of_head h
  rw [dropBlanks] at hrest
  rw [dropBlanks, dropBlanks, List.dropWhile_append, hrest]
  cases s.dropWhile isBlank <;> rfl

theorem dropBlanks_blanks {s : Text} (h : ∀ c ∈ s, isBlank c = true) (rest : Text) :
    dropBlanks (s ++ rest) = dropBlanks rest := List.dropWhile_append_of_pos h

theorem dropBlanks_suffix (t : Text) : dropBlanks t <:+ t := List.dropWhile_suffix isBlank

theorem after?_cons (c : Char) (t : Text) : after? c (c :: t) = some t := if_pos rfl

theorem after?_eq_none {c : Char} {t : Text} (h : t.head? ≠ some c) : after? c t = none := by
  cases t with
  | nil => rfl
  | cons d t => exact if_neg fun heq => h (congrArg some heq)

theorem openBracket_blanks {s : Text} (h : ∀ c ∈ s, isBlank c = true) (rest : Text) :
    openBracket (s ++ rest) = openBracket rest := by
  rw [openBracket, openBracket, dropBlanks_blanks h]

theorem openBracket_of_head {t : Text} (h : t.head?.any (fun c => isBlank c || c == '(') = false) :
    openBracket t = t := by
  cases t with
  | nil => rfl
  | cons c t =>
    have hc : (isBlank c || c == '(') = false := h
    rw [Bool.or_eq_false_iff, beq_eq_false_iff_ne] at hc
    have hdrop : dropBlanks (c :: t) = c :: t := dropBlanks_of_head hc.1
    have hafter : after? '(' (c :: t) = none := after?_eq_none fun heq => hc.2 (Option.some.inj heq)
    rw [openBracket, hdrop, hafter, Option.getD_none, hdrop]

theorem openBracket_append (s rest : Text) {m : Char} (hblank : isBlank m = false) (hm : m ≠ '(') :
    openBracket (s ++ m :: rest) = openBracket s ++ m :: rest := by
  have hhead : (m :: rest).head?.any isBlank = false := hblank
  rw [openBracket, openBracket, dropBlanks_append hhead]
  cases dropBlanks s with
  | nil =>
    have hafter : after? '(' ([] ++ m :: rest) = none :=
      after?_eq_none fun heq => hm (Option.some.inj heq)
    rw [hafter, Option.getD_none, dropBlanks_append hhead]
    rfl
  | cons c s =>
    by_cases hc : c = '('
    · rw [hc, List.cons_append, after?_cons, after?_cons, Option.getD_some, Option.getD_some,
        dropBlanks_append hhead]
    · have hnone : ∀ t, after? '(' (c :: t) = none := fun t =>
        after?_eq_none fun heq => hc (Option.some.inj heq)
      rw [List.cons_append, hnone, hnone, Option.getD_none, Option.getD_none, ← List.cons_append,
        dropBlanks_append hhead]

theorem openBracket_suffix (t : Text) : openBracket t <:+ t := by
  have hafter : ∀ u : Text, (after? '(' u).getD u <:+ u := by
    intro u
    cases h : after? '(' u with
    | none => exact List.suffix_refl u
    | some rest =>
      rw [after?_eq_some_iff.mp h]
      exact List.suffix_cons _ _
  exact ((dropBlanks_suffix _).trans (hafter _)).trans (dropBlanks_suffix t)

/-- Neither a name nor a bracket with a name follows. -/
def Nameless (t : Text) : Prop := name? (openBracket t) = none

theorem nameless_blanks {s : Text} (h : ∀ c ∈ s, isBlank c = true) {rest : Text}
    (hrest : Nameless rest) : Nameless (s ++ rest) := by
  rw [Nameless, openBracket_blanks h]
  exact hrest

def opensName (c : Char) : Bool := isBlank c || c == '(' || c == ':' || isQuote c

theorem nameless_of_head {t : Text} (h : t.head?.any opensName = false) : Nameless t := by
  cases t with
  | nil => rfl
  | cons c t =>
    have hc : opensName c = false := h
    rw [opensName, Bool.or_eq_false_iff, Bool.or_eq_false_iff, beq_eq_false_iff_ne] at hc
    have hcolon : ¬ c = ':' := hc.1.2
    have hquote : ¬ isQuote c = true := by rw [hc.2]; exact Bool.false_ne_true
    have hbracket : openBracket (c :: t) = c :: t := openBracket_of_head hc.1.1
    rw [Nameless, hbracket, name?, if_neg hcolon, if_neg hquote]

theorem not_opensName_of_isWordChar {c : Char} (h : isWordChar c = true) : opensName c = false := by
  have hne : ∀ {d}, isWordChar d = false → c ≠ d := ne_of_isWordChar h
  simp only [opensName, isQuote, not_isBlank_of_isWordChar h, Bool.false_or, Bool.or_eq_false_iff,
    beq_eq_false_iff_ne]
  exact ⟨⟨hne (by decide), hne (by decide)⟩, hne (by decide), hne (by decide)⟩

theorem nameless_of_isWordChar {c : Char} (h : isWordChar c = true) (t : Text) :
    Nameless (c :: t) := nameless_of_head (not_opensName_of_isWordChar h)

/-! ### The start of a block -/

/-- No block starts in the next line: after its blanks no `do` with a bar is found, and no bar. -/
structure NoBlock (t : Text) : Prop where
  no_bar : (dropBlanks t).head? ≠ some '|'
  no_do : ∀ rest, afterAll? "do" (dropBlanks t) = some rest → (dropBlanks rest).head? ≠ some '|'

theorem dropBlanks_append_blank {s : Text} (rest : Text) (hs : ∃ c ∈ s, isBlank c = false) :
    dropBlanks (s ++ rest) = dropBlanks s ++ rest ∧ dropBlanks s ≠ [] := by
  have hne : s.dropWhile isBlank ≠ [] := by
    intro hnil
    obtain ⟨c, hc, hblank⟩ := hs
    rw [List.dropWhile_eq_nil_iff.mp hnil c hc] at hblank
    cases hblank
  refine ⟨?_, hne⟩
  rw [dropBlanks, dropBlanks, List.dropWhile_append, if_neg (by simpa using hne)]

theorem head?_dropBlanks_append {s rest : Text} (hs : '|' ∉ s)
    (hrest : (dropBlanks rest).head? ≠ some '|') : (dropBlanks (s ++ rest)).head? ≠ some '|' := by
  by_cases hblank : ∀ c ∈ s, isBlank c = true
  · rwa [dropBlanks_blanks hblank]
  · have hexists : ∃ c ∈ s, isBlank c = false := by
      simpa only [not_forall, exists_prop, Bool.not_eq_true] using hblank
    obtain ⟨happend, hne⟩ := dropBlanks_append_blank rest hexists
    obtain ⟨c, u, hcons⟩ := List.exists_cons_of_ne_nil hne
    rw [happend, hcons]
    intro heq
    have hmem : '|' ∈ dropBlanks s := by
      rw [hcons, ← Option.some.inj heq]
      exact List.mem_cons_self ..
    exact hs ((dropBlanks_suffix s).subset hmem)

theorem blockStart?_eq_none {t : Text}
    (h : ∀ rest, afterAll? "do" (dropBlanks ((after? ')' t).getD t)) = some rest →
      (dropBlanks rest).head? ≠ some '|') : blockStart? t = none := by
  rw [blockStart?]
  cases hdo : afterAll? "do" (dropBlanks ((after? ')' t).getD t)) with
  | none => rfl
  | some rest =>
    have hbar : after? '|' (dropBlanks rest) = none := after?_eq_none (h rest hdo)
    simp only [hbar, Option.bind_eq_bind, Option.bind_some, Option.bind_none, ite_self]

/-- Without a bar in `u` no `do` with a bar is found behind it, unless it is all blank: blanks follow, so
that the word cannot reach beyond `u`. -/
theorem head?_dropBlanks_do {u rest r : Text} (hu : '|' ∉ u) (hexists : ∃ c ∈ u, isBlank c = false)
    (hblank : rest.head?.any isBlank = true) (hbar : (dropBlanks rest).head? ≠ some '|')
    (hr : afterAll? "do" (dropBlanks (u ++ rest)) = some r) : (dropBlanks r).head? ≠ some '|' := by
  obtain ⟨happend, hne⟩ := dropBlanks_append_blank rest hexists
  have hz : '|' ∉ dropBlanks u := fun hmem => hu ((dropBlanks_suffix u).subset hmem)
  rw [happend, afterAll?_eq_some_iff] at hr
  revert hr hne hz
  match dropBlanks u with
  | [] => exact fun _ hne _ => absurd rfl hne
  | [c] =>
    intro hr _ _
    have hrest : rest = 'o' :: r := (List.cons.inj hr).2
    rw [hrest] at hblank
    have ho : isBlank 'o' = true := hblank
    exact absurd ho (by decide)
  | c :: d :: z =>
    intro hr _ hz
    have hr : z ++ rest = r := (List.cons.inj (List.cons.inj hr).2).2
    rw [← hr]
    exact head?_dropBlanks_append
      (fun hmem => hz (List.mem_cons_of_mem _ (List.mem_cons_of_mem _ hmem))) hbar

theorem closeBracket_append (s : Text) {rest : Text} (hblank : rest.head?.any isBlank = true) :
    ∃ u, (after? ')' (s ++ rest)).getD (s ++ rest) = u ++ rest ∧ u <:+ s ∧
      ((∀ c ∈ u, isBlank c = true) → ∀ c ∈ s, isBlank c = true ∨ c = ')') := by
  cases s with
  | nil =>
    have hhead : rest.head? ≠ some ')' := by
      intro heq
      rw [heq] at hblank
      exact absurd hblank (by decide)
    rw [List.nil_append, after?_eq_none hhead]
    exact ⟨[], rfl, List.suffix_refl _, fun _ c hc => absurd hc List.not_mem_nil⟩
  | cons c s =>
    by_cases hc : c = ')'
    · refine ⟨s, ?_, List.suffix_cons c s, fun h => List.forall_mem_cons.mpr ⟨.inr hc, ?_⟩⟩
      · rw [hc, List.cons_append, after?_cons, Option.getD_some]
      · exact fun d hd => .inl (h d hd)
    · refine ⟨c :: s, ?_, List.suffix_refl _, fun h d hd => .inl (h d hd)⟩
      have hhead : (c :: (s ++ rest)).head? ≠ some ')' := fun heq => hc (Option.some.inj heq)
      rw [List.cons_append, after?_eq_none hhead, Option.getD_none]

/-- Where no bar comes before the blanks at the beginning of `rest`, a block can start only if nothing
but blanks and a closing bracket comes before them. -/
theorem blockStart?_append {s : Text} (rest : Text) (hs : '|' ∉ s)
    (hblank : rest.head?.any isBlank = true) (hbar : (dropBlanks rest).head? ≠ some '|')
    (hdo : (∀ c ∈ s, isBlank c = true ∨ c = ')') →
      ∀ r, afterAll? "do" (dropBlanks rest) = some r → (dropBlanks r).head? ≠ some '|') :
    blockStart? (s ++ rest) = none := by
  obtain ⟨u, hu, hsuffix, hall⟩ := closeBracket_append s hblank
  refine blockStart?_eq_none fun r hr => ?_
  rw [hu] at hr
  by_cases hblanks : ∀ c ∈ u, isBlank c = true
  · rw [dropBlanks_blanks hblanks] at hr
    exact hdo (hall hblanks) r hr
  · have hexists : ∃ c ∈ u, isBlank c = false := by
      simpa only [not_forall, exists_prop, Bool.not_eq_true] using hblanks
    exact head?_dropBlanks_do (fun hmem => hs (hsuffix.subset hmem)) hexists hblank hbar hr

theorem NoBlock.blanks {s rest : Text} (hs : ∀ c ∈ s, isBlank c = true) (h : NoBlock rest) :
    NoBlock (s ++ rest) := by
  obtain ⟨hbar, hdo⟩ := h
  exact ⟨by rwa [dropBlanks_blanks hs], by rwa [dropBlanks_blanks hs]⟩

theorem optionsAndBlock?_eq_none {s rest : Text} (hs : '|' ∉ s) (hrest : NoBlock rest) :
    optionsAndBlock? (s ++ '\n' :: rest) = none := by
  have hline : NoBlock ('\n' :: rest) := hrest.blanks (s := ['\n']) (by decide)
  induction s with
  | nil =>
    have hstart := blockStart?_append (s := []) _ List.not_mem_nil rfl hline.no_bar
      fun _ => hline.no_do
    rw [List.nil_append] at hstart ⊢
    rw [optionsAndBlock?, hstart, if_pos rfl]
  | cons c s ih =>
    have hstart := blockStart?_append ('\n' :: rest) hs rfl hline.no_bar fun _ => hline.no_do
    rw [List.mem_cons, not_or] at hs
    rw [List.cons_append] at hstart ⊢
    rw [optionsAndBlock?, hstart, ih hs.2]
    exact ite_self none

def writtenStart (receiver : Text) : Text := " do |".toList ++ receiver ++ ['|']

theorem blockStart?_writtenStart {receiver : Text} (hne : receiver ≠ [])
    (hword : receiver.all isWordChar = true) (rest : Text) :
    blockStart? (writtenStart receiver ++ rest) = some (receiver, rest) := by
  have hstart : writtenStart receiver ++ rest =
      ' ' :: ("do".toList ++ ' ' :: '|' :: (receiver ++ '|' :: rest)) := by
    simp [writtenStart]
  have hspaced : (after? ')' (' ' :: ("do".toList ++ ' ' :: '|' :: (receiver ++ '|' :: rest)))).getD
      (' ' :: ("do".toList ++ ' ' :: '|' :: (receiver ++ '|' :: rest))) =
      ' ' :: ("do".toList ++ ' ' :: '|' :: (receiver ++ '|' :: rest)) := rfl
  have hdrop : dropBlanks (' ' :: ("do".toList ++ ' ' :: '|' :: (receiver ++ '|' :: rest))) =
      "do".toList ++ ' ' :: '|' :: (receiver ++ '|' :: rest) := rfl
  have hdo : afterAll? "do" ("do".toList ++ ' ' :: '|' :: (receiver ++ '|' :: rest)) =
      some (' ' :: '|' :: (receiver ++ '|' :: rest)) := afterAll?_eq_some_iff.mpr rfl
  have hbar : after? '|' (dropBlanks (' ' :: '|' :: (receiver ++ '|' :: rest))) =
      some (receiver ++ '|' :: rest) := rfl
  have hreceiver : word? (receiver ++ '|' :: rest) = some (receiver, '|' :: rest) :=
    word?_append hne hword rfl
  rw [hstart, blockStart?]
  simp only [hspaced, hdrop, hdo, hbar, hreceiver, after?_cons, Option.bind_eq_bind,
    Option.bind_some]
  rfl

def blockStart : Pattern Text := fun _ t => blockStart? t

theorem optionsAndBlock?_of_passesOver {s rest : Text} (hline : '\n' ∉ s) {before : Option Char}
    (h : blockStart.PassesOver before s rest) :
    optionsAndBlock? (s ++ rest) =
      (optionsAndBlock? rest).map fun (options, receiver, t) => (s ++ options, receiver, t) := by
  induction s generalizing before with
  | nil =>
    rw [List.nil_append]
    cases optionsAndBlock? rest <;> rfl
  | cons c s ih =>
    rw [List.mem_cons, not_or] at hline
    have hc : blockStart? (c :: (s ++ rest)) = none := h.1
    rw [List.cons_append, optionsAndBlock?, hc]
    simp only [if_neg (Ne.symm hline.1), ih hline.2 h.2, Option.map_map]
    rfl

theorem blockStart_passesOver_options {options : Text} (hbar : '|' ∉ options)
    (hlast : options.getLast?.any (fun c => isBlank c || c == ')') = false) (receiver rest : Text)
    (before : Option Char) : blockStart.PassesOver before options (writtenStart receiver ++ rest) := by
  refine Pattern.passesOver_of_suffix fun _ u hu hsuffix => ?_
  have hd : (dropBlanks (writtenStart receiver ++ rest)).head? = some 'd' := rfl
  refine blockStart?_append _ (fun hmem => hbar (hsuffix.subset hmem)) rfl (by rw [hd]; decide) ?_
  intro hall
  have hc := hall _ (List.getLast_mem hu)
  rw [← getLast?_of_suffix hu hsuffix, List.getLast?_eq_some_getLast hu, Option.any_some,
    Bool.or_eq_false_iff, beq_eq_false_iff_ne] at hlast
  rcases hc with hc | hc
  · rw [hlast.1] at hc
    cases hc
  · exact absurd hc hlast.2

theorem optionsAndBlock?_start {options receiver : Text} (hne : receiver ≠ [])
    (hword : receiver.all isWordChar = true) (hline : '\n' ∉ options) (rest : Text)
    (h : blockStart.PassesOver none options (writtenStart receiver ++ rest)) :
    optionsAndBlock? (options ++ (writtenStart receiver ++ rest)) = some (options, receiver, rest) := by
  have hstart : optionsAndBlock? (writtenStart receiver ++ rest) = some ([], receiver, rest) := by
    have hcons : writtenStart receiver ++ rest = ' ' :: ("do |".toList ++ receiver ++ ['|'] ++ rest) := rfl
    have hblock := blockStart?_writtenStart hne hword rest
    rw [hcons] at hblock ⊢
    rw [optionsAndBlock?, hblock]
  rw [optionsAndBlock?_of_passesOver hline h, hstart, Option.map_some]
  simp only [List.append_nil]

end RecordMap.Schema.Dump

namespace RecordMap.Schema.Written

open Dump Text

/-! ### Lines that open a table -/

theorem isQuote_mark (m : Mark) : isQuote m.char = true := by cases m <;> rfl

theorem Quotable.not_isQuote (q : Quotable) : ∀ c ∈ q.text, isQuote c = false := by
  intro c hc
  rw [← Bool.not_eq_true]
  intro hquote
  rw [isQuote, Bool.or_eq_true, beq_iff_eq, beq_iff_eq] at hquote
  rcases hquote with rfl | rfl
  · exact q.not_mem (by decide) hc
  · exact q.not_mem (by decide) hc

theorem name?_mark (m : Mark) {s : Text} (hs : ∀ c ∈ s, isQuote c = false) (hne : s ≠ []) {d : Char}
    (hd : isQuote d = true) (rest : Text) : name? (m.char :: (s ++ d :: rest)) = some (s, rest) := by
  have hcolon : ¬ m.char = ':' := by cases m <;> decide
  have hall : s.all (!isQuote ·) = true :=
    List.all_eq_true.mpr fun c hc => by rw [hs c hc]; rfl
  have hhead : (d :: rest).head?.any (!isQuote ·) = false := by
    rw [List.head?_cons, Option.any_some, hd]
    rfl
  rw [name?, if_neg hcolon, if_pos (isQuote_mark m), takeWhile_append_of_all hall hhead,
    dropWhile_append_of_all hall hhead]
  cases s with
  | nil => exact absurd rfl hne
  | cons => rfl

theorem name?_source (n : Name) {rest : Text} (hrest : rest.head?.any isKeyChar = false) :
    name? (n.source ++ rest) = some (n.text, rest) := by
  cases n with
  | symbol word =>
    exact word?_append word.ne_nil word.all_isWordChar (head?_isWordChar hrest)
  | quoted mark content =>
    rw [Name.source, List.append_assoc, List.cons_append]
    exact name?_mark mark content.not_isQuote content.ne_nil (isQuote_mark mark) rest

theorem Name.dropBlanks_source (n : Name) (rest : Text) :
    dropBlanks (n.source ++ rest) = n.source ++ rest := by
  refine dropBlanks_of_head ?_
  cases n with
  | symbol => rfl
  | quoted mark => cases mark <;> rfl

theorem name?_openBracket (n : Name) {rest : Text} (hrest : rest.head?.any isKeyChar = false) :
    name? (openBracket (' ' :: (n.source ++ rest))) = some (n.text, rest) := by
  have hbracket : openBracket (n.source ++ rest) = n.source ++ rest := by
    refine openBracket_of_head ?_
    cases n with
    | symbol => rfl
    | quoted mark => cases mark <;> rfl
  rw [← List.singleton_append, openBracket_blanks (by decide), hbracket, name?_source n hrest]

theorem header_line (n : Name) {options receiver rest : Text}
    (hblock : optionsAndBlock? (options ++ (writtenStart receiver ++ rest)) =
      some (options, receiver, rest))
    (hhead : (options ++ (writtenStart receiver ++ rest)).head?.any isKeyChar = false)
    (before : Option Char) :
    header before ("create_table ".toList ++
      (n.source ++ (options ++ (writtenStart receiver ++ rest)))) =
      some (⟨n.text, options, receiver⟩, rest) := by
  have hopens : afterAll? "create_table" ("create_table ".toList ++
      (n.source ++ (options ++ (writtenStart receiver ++ rest)))) =
      some (' ' :: (n.source ++ (options ++ (writtenStart receiver ++ rest)))) :=
    afterAll?_eq_some_iff.mpr rfl
  rw [header]
  simp only [hopens, name?_openBracket n hhead, hblock, Option.bind_eq_bind, Option.bind_some]

/-! ### Text that opens no table -/

theorem header_eq_none {t : Text} (h : ∀ rest, afterAll? "create_table" t = some rest → Nameless rest)
    (before : Option Char) : header before t = none := by
  rw [header]
  cases hopens : afterAll? "create_table" t with
  | none => rfl
  | some rest =>
    have hnone : name? (openBracket rest) = none := h rest hopens
    simp only [hnone, Option.bind_eq_bind, Option.bind_some, Option.bind_none]

theorem header_passesOver_of_verbatim {s rest : Text} {before : Option Char}
    (h : (Pattern.verbatim "create_table").PassesOver before s []) (hrest : Separate s rest) :
    header.PassesOver before s rest := by
  have hextend : (Pattern.verbatim "create_table").PassesOver before s rest := by
    refine h.extend fun b u hu hsuffix hnone => ?_
    rw [Pattern.verbatim, Option.map_eq_none_iff] at hnone ⊢
    exact afterAll?_extend (by decide) hu (hrest.of_suffix hu hsuffix) hnone
  refine hextend.mono fun b t hnone => header_eq_none (fun r hr => ?_) b
  rw [Pattern.verbatim, hr] at hnone
  cases hnone

/-- A word opens no table unless a name follows it. -/
theorem header_passesOver_word {w rest : Text} (hw : ∀ c ∈ w, isWordChar c = true)
    (hrest : rest.head?.any isKeyChar = false) (hnameless : Nameless rest) (before : Option Char) :
    header.PassesOver before w rest := by
  refine Pattern.passesOver_of_suffix fun b u hu hsuffix => header_eq_none (fun t ht => ?_) b
  rw [afterAll?_eq_some_iff] at ht
  rcases List.append_eq_append_iff.mp ht with ⟨key, hkey, hback⟩ | ⟨tail, htail, hback⟩
  · cases key with
    | nil =>
      rw [List.nil_append] at hback
      rwa [← hback]
    | cons c key =>
      have hc : isKeyChar c = true := by
        have hall : ∀ d ∈ "create_table".toList, isKeyChar d = true := by decide
        refine hall c ?_
        rw [hkey]
        exact List.mem_append_right _ (List.mem_cons_self ..)
      rw [hback, List.cons_append, List.head?_cons, Option.any_some, hc] at hrest
      cases hrest
  · cases tail with
    | nil =>
      rw [List.nil_append] at hback
      rwa [hback]
    | cons c tail =>
      rw [hback]
      refine nameless_of_isWordChar (hw c (hsuffix.subset ?_)) (tail ++ rest)
      rw [htail]
      exact List.mem_append_right _ (List.mem_cons_self ..)

theorem header_passesOver_of_forall {s : Text} (h : 'c' ∉ s) (rest : Text) (before : Option Char) :
    header.PassesOver before s rest := by
  refine Pattern.passesOver_of_forall fun c hc b t => header_eq_none (fun r hr => ?_) b
  have hhead : "create_table".toList.head? ≠ some c := by
    intro heq
    have hcons : 'c' = c := Option.some.inj heq
    exact h (hcons ▸ hc)
  rw [afterAll?_cons_eq_none hhead (by decide)] at hr
  cases hr

/-! ### Quotations that look like the opening of a table -/

/-- The line that is read as the opening of a table if the closing mark before `t` is read as the
opening mark of the table's name. -/
def headerBehind? (t : Text) : Option (Header × Text) := do
  let (name, t) ← name? ('"' :: t)
  let (options, receiver, t) ← optionsAndBlock? t
  some (⟨name, options, receiver⟩, t)

theorem name?_mark_eq (m : Mark) (t : Text) : name? (m.char :: t) = name? ('"' :: t) := by
  cases m <;> rfl

theorem isNameChar_facts {c : Char} (h : isNameChar c = true) :
    isQuote c = false ∧ c ≠ ':' := by
  have hnot : ∀ d ∈ ['"', '\'', '\\', '\n', '.', ':', '|'], c ≠ d := by
    intro d hd heq
    rw [isNameChar, heq, List.contains_iff_mem.mpr hd] at h
    cases h
  refine ⟨?_, hnot _ (by decide)⟩
  rw [isQuote, Bool.or_eq_false_iff, beq_eq_false_iff_ne, beq_eq_false_iff_ne]
  exact ⟨hnot _ (by decide), hnot _ (by decide)⟩

theorem afterAll?_mark {u : Text} (h : afterAll? "create_table" u = none) (m : Mark) (rest : Text) :
    afterAll? "create_table" (u ++ m.char :: rest) = none := by
  have hmark : isKeyChar m.char = false := by cases m <;> decide
  cases u with
  | nil => exact afterAll?_cons_eq_none (by cases m <;> decide) (by decide) rest
  | cons c u => exact afterAll?_extend (by decide) (List.cons_ne_nil c u) (.inr hmark) h

/-- Within a quotation a table is opened exactly by an ending that looks like it. -/
theorem header_quotation {u : Text} (hu : ∀ c ∈ u, isNameChar c = true) (m : Mark) (rest : Text)
    (before : Option Char) :
    header before (u ++ m.char :: rest) = if isOpening u then headerBehind? rest else none := by
  have hblank : isBlank m.char = false := by cases m <;> decide
  have hbracket : m.char ≠ '(' := by cases m <;> decide
  cases hopens : afterAll? "create_table" u with
  | none =>
    have hnone := afterAll?_mark hopens m rest
    rw [isOpening, hopens, header_eq_none (fun r hr => by rw [hnone] at hr; cases hr)]
    rfl
  | some y =>
    have hu' := afterAll?_eq_some_iff.mp hopens
    have hopens' : afterAll? "create_table" (u ++ m.char :: rest) = some (y ++ m.char :: rest) :=
      afterAll?_eq_some_iff.mpr (by rw [hu', List.append_assoc])
    have hopen := openBracket_append y rest hblank hbracket
    rw [isOpening, hopens, Option.any_some]
    cases hy : openBracket y with
    | nil =>
      rw [header]
      simp only [hopens', hopen, hy, List.nil_append, name?_mark_eq, headerBehind?,
        Option.bind_eq_bind, Option.bind_some]
      rfl
    | cons d z =>
      have hd : isNameChar d = true := by
        refine hu d ?_
        rw [hu']
        refine List.mem_append_right _ ((openBracket_suffix y).subset ?_)
        rw [hy]
        exact List.mem_cons_self ..
      obtain ⟨hquote, hcolon⟩ := isNameChar_facts hd
      have hnone : name? (openBracket (y ++ m.char :: rest)) = none := by
        rw [hopen, hy, List.cons_append, name?, if_neg hcolon,
          if_neg (by rw [hquote]; exact Bool.false_ne_true)]
      rw [header]
      simp only [hopens', hnone, Option.bind_eq_bind, Option.bind_some, Option.bind_none]
      rfl

end RecordMap.Schema.Written
