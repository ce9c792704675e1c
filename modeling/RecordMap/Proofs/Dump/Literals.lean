import RecordMap.Proofs.Dump.Comments

/-! What is left of the code of a dump when its strings and symbols are blanked: the bare code. -/

namespace RecordMap.Schema.Written

open Text Source

/-- No string and no symbol starts in the text, wherever it stands. -/
def LiteralFree (s : Text) : Prop :=
  (∀ c ∈ s, c ≠ '\'' ∧ c ≠ '"') ∧ s.head? ≠ some ':' ∧ literal.PassesOver none s []

instance (s : Text) : Decidable (LiteralFree s) := inferInstanceAs (Decidable (_ ∧ _ ∧ _))

theorem literal_extend {before : Option Char} {u rest : Text} (hu : u ≠ [])
    (hquotes : ∀ c ∈ u, c ≠ '\'' ∧ c ≠ '"') (hrest : Separate u rest)
    (h : literal before u = none) : literal before (u ++ rest) = none := by
  obtain ⟨c, u, rfl⟩ := List.exists_cons_of_ne_nil hu
  have hquote : ¬ (c = '\'' ∨ c = '"') :=
    not_or.mpr (hquotes c (List.mem_cons_self ..))
  rw [List.cons_append, literal, if_neg hquote]
  rw [literal, if_neg hquote] at h
  split at h
  · next hcolon =>
    rw [if_pos hcolon, Option.map_eq_none_iff]
    rw [Option.map_eq_none_iff] at h
    cases u with
    | nil =>
      rcases hrest with hrest | hrest
      · rw [hcolon.1] at hrest
        exact absurd hrest (by decide)
      · rw [List.nil_append, word?_eq_none_iff]
        exact head?_isWordChar hrest
    | cons d u =>
      have htail := hrest.of_suffix (List.cons_ne_nil d u) (List.suffix_cons c (d :: u))
      rw [word?_extend (List.cons_ne_nil d u) htail, h]
      rfl
  · next hcolon => rw [if_neg hcolon]

theorem LiteralFree.passesOver {s rest : Text} (h : LiteralFree s) (hrest : Separate s rest)
    (before : Option Char) : literal.PassesOver before s rest := by
  obtain ⟨hquotes, hhead, hpasses⟩ := h
  have hbefore : literal.PassesOver before s [] := by
    cases s with
    | nil => trivial
    | cons c s =>
      have hcolon : ¬ (c = ':' ∧ before ≠ some ':') := fun hc => hhead (by rw [hc.1]; rfl)
      have hquote : ¬ (c = '\'' ∨ c = '"') := not_or.mpr (hquotes c (List.mem_cons_self ..))
      refine ⟨?_, hpasses.2⟩
      rw [literal, if_neg hquote, if_neg hcolon]
  exact hbefore.extend fun b u hu hsuffix =>
    literal_extend hu (fun c hc => hquotes c (hsuffix.subset hc)) (hrest.of_suffix hu hsuffix)

theorem literalFree_of_forall {s : Text} (h : ∀ c ∈ s, c ≠ '\'' ∧ c ≠ '"' ∧ c ≠ ':') :
    LiteralFree s := by
  refine ⟨fun c hc => ⟨(h c hc).1, (h c hc).2.1⟩, fun hhead => ?_, ?_⟩
  · exact (h ':' (List.mem_of_head? hhead)).2.2 rfl
  · refine Pattern.passesOver_of_forall fun c hc b t => ?_
    obtain ⟨hsingle, hdouble, hcolon⟩ := h c hc
    rw [literal, if_neg (not_or.mpr ⟨hsingle, hdouble⟩), if_neg fun heq => hcolon heq.1]

theorem literalFree_of_isWordChar {s : Text} (h : ∀ c ∈ s, isWordChar c = true) :
    LiteralFree s := by
  refine literalFree_of_forall fun c hc => ⟨?_, ?_, ?_⟩
  · exact ne_of_isWordChar (h c hc) (by decide)
  · exact ne_of_isWordChar (h c hc) (by decide)
  · exact ne_of_isWordChar (h c hc) (by decide)

theorem IsMargin.literalFree {t : Text} (h : IsMargin t) : LiteralFree t := by
  refine literalFree_of_forall fun c hc => ?_
  rcases h c hc with rfl | rfl <;> decide

theorem literalFree_of_mem_codes : ∀ code ∈ codes, LiteralFree code := by
  decide +kernel

/-- The strings and symbols of `t` are blanked in `t'`, wherever the text stands. -/
def Bared (t t' : Text) : Prop :=
  ∀ before, literal.replaceFrom (fun _ s => blank s) 0 before t = t'

theorem Bared.nil : Bared [] [] := fun _ => rfl

theorem Bared.code {s t t' : Text} (hs : LiteralFree s) (hsep : Separate s t) (h : Bared t t') :
    Bared (s ++ t) (s ++ t') := by
  intro before
  rw [Pattern.replaceFrom_of_passesOver _ (hs.passesOver hsep before), h]

theorem blank_eq_spaces (t : Text) : blank t = spaces t.length := List.map_const' ..

theorem literal_source {n : Name} {before : Option Char} {rest : Text} (hbefore : before ≠ some ':')
    (hrest : rest.head?.any isKeyChar = false) :
    literal before (n.source ++ rest) = some ((), rest) := by
  cases n with
  | symbol word =>
    rw [Name.source, List.cons_append, literal, if_neg (by decide), if_pos ⟨rfl, hbefore⟩,
      word?_append word.ne_nil word.all_isWordChar (head?_isWordChar hrest)]
    rfl
  | quoted mark content =>
    have hmark : mark.char = '\'' ∨ mark.char = '"' := by cases mark <;> decide
    have hcontent : mark.char ∉ content.text := content.not_mem (by cases mark <;> decide)
    have hbackslash : '\\' ∉ content.text := content.not_mem (by decide)
    rw [Name.source, List.append_assoc, List.cons_append, literal, if_pos hmark, List.singleton_append,
      afterQuote?_append _ rest hcontent hbackslash]
    rfl

theorem Bared.named {t t' : Text} (code : Text) (n : Name) (hcode : LiteralFree code)
    (hclosed : code.getLast?.any isKeyChar = false) (hne : code ≠ [])
    (ht : t.head?.any isKeyChar = false) (h : Bared t t') :
    Bared (code ++ (n.source ++ t)) (code ++ (n.write .bare ++ t')) := by
  intro before
  have hlast : code.getLast?.or before ≠ some ':' := by
    rw [List.getLast?_eq_some_getLast hne, Option.some_or]
    rw [List.getLast?_eq_some_getLast hne] at hclosed
    intro heq
    rw [heq] at hclosed
    revert hclosed
    decide
  rw [Pattern.replaceFrom_of_passesOver _ (hcode.passesOver (.inl hclosed) before),
    Pattern.replaceFrom_of_match _ n.source_ne_nil (literal_source hlast ht), h, blank_eq_spaces]
  rfl

theorem Bared.margin {m t t' : Text} (hm : IsMargin m) (h : Bared t t') : Bared (m ++ t) (m ++ t') :=
  h.code hm.literalFree (hm.separate t)

theorem Bared.word {w t t' : Text} (hw : ∀ c ∈ w, isWordChar c = true)
    (ht : t.head?.any isKeyChar = false) (h : Bared t t') : Bared (w ++ t) (w ++ t') :=
  h.code (literalFree_of_isWordChar hw) (.inr ht)

theorem Bared.tokens {t t' : Text} {ts : List Token} (hts : ∀ x ∈ ts, x.Sound)
    (ht : t.head?.any isKeyChar = false) (h : Bared t t') :
    Bared (writeTokens .code ts ++ t) (writeTokens .bare ts ++ t') := by
  induction ts with
  | nil => exact h
  | cons x ts ih =>
    obtain ⟨hx, hts⟩ := List.forall_mem_cons.mp hts
    have hrest := ih hts
    have hhead := head?_writeTokens hts .code ht
    have hfree := literalFree_of_mem_codes x.code hx.mem
    have hsep := hx.separate .code hhead
    have hclosed := hx.closed
    rw [writeTokens_cons, writeTokens_cons, List.append_assoc, List.append_assoc, Token.write,
      Token.write, List.append_assoc, List.append_assoc]
    cases hargument : x.argument with
    | nothing =>
      rw [hargument] at hsep
      exact hrest.code hfree hsep
    | name n =>
      rw [hargument] at hclosed
      have hne : x.code ≠ [] := by
        intro hnil
        have hcode := head?_of_mem_codes x.code hx.mem
        rw [hnil] at hcode
        cases hcode
      refine hrest.named x.code n hfree (hclosed.resolve_left fun h => ?_) hne hhead
      cases h
    | number digits =>
      rw [hargument] at hsep
      exact (hrest.word digits.isWordChar hhead).code hfree hsep

theorem Bared.top {t t' : Text} (s : Script) (h : Bared t t') :
    Bared (s.top .code ++ t) (s.top .bare ++ t') := by
  rw [Script.top, Script.top]
  cases s.frame with
  | none => exact h
  | some f =>
    have hending := h.margin f.opening.ending.isMargin
    have hclosed := hending.code (s := ") do".toList) (by decide)
      (.inr (f.opening.ending.head? t))
    have hopened := (hclosed.word f.version.isWordChar rfl).code
      (s := "ActiveRecord::Schema[7.1].define(version: ".toList) (by decide) (.inl rfl)
    simpa only [Option.elim, Frame.openingLine, Margin.before_bare, Ending.write_bare,
      List.append_assoc] using hopened.margin f.opening.isMargin_before

theorem Script.bottom_bare (s : Script) : s.bottom .bare = s.bottom .code := by
  obtain ⟨frame, blocks, after⟩ := s
  cases frame with
  | none => rw [Script.bottom, Script.bottom, Aside.write_bare]; rfl
  | some f =>
    simp only [Script.bottom, Option.elim, Frame.closingLine, Margin.before_bare, Ending.write_bare,
      Aside.write_bare]

theorem Bared.bottom (s : Script) : Bared (s.bottom .code) (s.bottom .bare) := by
  have hafter := Bared.nil.margin (isMargin_flatMap fun a (_ : a ∈ s.after) => a.isMargin)
  rw [Script.bottom_bare, Script.bottom]
  rw [List.append_nil] at hafter
  cases s.frame with
  | none => exact hafter
  | some f =>
    have hend := (hafter.margin f.closing.ending.isMargin).word (w := "end".toList) (by decide)
      (f.closing.ending.head? _)
    simpa only [Option.elim, Frame.closingLine, List.append_assoc] using
      hend.margin f.closing.isMargin_before

end RecordMap.Schema.Written
