import RecordMap.Proofs.Outline.Scripts

/-! The outlines of tables whose lines are made of tokens. In such a line a table is opened only by a
quotation that ends in what opens one, where the closing mark of that quotation is the last mark in the
line. -/

namespace RecordMap.Schema.Outline

open Written Dump Text

/-! ### Lines that open a table -/

theorem opens_of_tokens {b : Block} {ts : List Token} (hts : ∀ t ∈ ts, t.IsOption)
    (h : b.options.write .code = writeTokens .code ts) : b.Opens := by
  have hbar : '|' ∉ b.headText := by
    rw [Block.headText, h, List.mem_append, not_or]
    exact ⟨foreign_bar.not_mem_source b.name, not_mem_bar (quiet_writeTokens (sound_of_isOption hts))⟩
  have hlast : b.headText.getLast?.any closesOptions = false := by
    rw [Block.headText, h]
    exact getLast?_any_append b.name.getLast?_source (getLast?_options hts)
  exact fun rest before => blockStart_passesOver_options hbar hlast b.receiver.text rest before

/-! ### Quotations -/

theorem any_isQuote_tokens {ts : List Token} (hts : ∀ t ∈ ts, t.Sound) :
    (writeTokens .code ts).any isQuote = !(quotations ts).isEmpty := by
  induction ts with
  | nil => rfl
  | cons t ts ih =>
    obtain ⟨ht, hts⟩ := List.forall_mem_cons.mp hts
    rw [writeTokens_cons, List.any_append, ih hts, quotations_cons]
    cases hquotation : t.argument.quotation? with
    | none =>
      rw [any_isQuote_eq_false (Token.not_isQuote ht hquotation)]
      rfl
    | some q =>
      obtain ⟨m, content, hargument, -⟩ := Argument.exists_of_quotation hquotation
      have hmark : (t.write .code).any isQuote = true := by
        rw [Token.write, hargument, List.any_append, Bool.or_eq_true]
        exact .inr (List.any_eq_true.mpr ⟨m.char, List.mem_cons_self .., isQuote_mark m⟩)
      rw [hmark]
      rfl

theorem exists_isOpening {u : Text} (h : opensTable u = true) :
    ∃ v, v ≠ [] ∧ v <:+ u ∧ isOpening v = true := by
  induction u with
  | nil => cases h
  | cons c u ih =>
    rw [opensTable, Bool.or_eq_true] at h
    rcases h with h | h
    · exact ⟨c :: u, List.cons_ne_nil c u, List.suffix_refl _, h⟩
    · obtain ⟨v, hv, hsuffix, hopening⟩ := ih h
      exact ⟨v, hv, hsuffix.trans (List.suffix_cons c u), hopening⟩

theorem openName?_quotation {u : Text} (h : isOpening u = true) (m : Mark) {rest : Text}
    (hrest : rest.any isQuote = false) : openName? (u ++ m.char :: rest) = some rest := by
  have hblank : isBlank m.char = false := by cases m <;> decide
  have hbracket : m.char ≠ '(' := by cases m <;> decide
  have hall : rest.all (!isQuote ·) = true := by rw [← List.not_any_eq_all_not, hrest]; rfl
  rw [isOpening] at h
  cases hy : afterAll? "create_table" u with
  | none => rw [hy] at h; cases h
  | some y =>
    rw [hy, Option.any_some, beq_iff_eq] at h
    have hopens : afterAll? "create_table" (u ++ m.char :: rest) = some (y ++ m.char :: rest) :=
      afterAll?_eq_some_iff.mpr (by rw [afterAll?_eq_some_iff.mp hy, List.append_assoc])
    rw [openName?, hopens, Option.bind_some, openBracket_append y rest hblank hbracket, h,
      List.nil_append]
    exact if_pos ⟨isQuote_mark m, hall⟩

/-- The last quotation in some tokens leaves a name open if it ends in what opens a table. -/
theorem exists_openName? {ts : List Token} (hts : ∀ t ∈ ts, t.Sound)
    (hlast : (quotations ts).getLast?.any opensTable = true) :
    ∃ u, u ≠ [] ∧ u <:+ writeTokens .code ts ∧ openName? u ≠ none := by
  induction ts with
  | nil => cases hlast
  | cons t ts ih =>
    obtain ⟨ht, hts⟩ := List.forall_mem_cons.mp hts
    rw [writeTokens_cons]
    by_cases hnil : quotations ts = []
    · rw [quotations_cons, hnil, List.append_nil] at hlast
      cases hquotation : t.argument.quotation? with
      | none => rw [hquotation] at hlast; cases hlast
      | some q =>
        obtain ⟨m, content, hargument, rfl⟩ := Argument.exists_of_quotation hquotation
        rw [hquotation] at hlast
        have hcontent : opensTable content.text = true := hlast
        obtain ⟨u, hu, ⟨front, hfront⟩, hopening⟩ := exists_isOpening hcontent
        have hrest : (writeTokens .code ts).any isQuote = false := by
          rw [any_isQuote_tokens hts, hnil]
          rfl
        refine ⟨u ++ m.char :: writeTokens .code ts, List.append_ne_nil_of_left_ne_nil hu _,
          ⟨t.code ++ m.char :: front, ?_⟩, ?_⟩
        · simp [Token.write, hargument, Argument.write, Name.write, Name.source, ← hfront]
        · rw [openName?_quotation hopening m hrest]
          exact Option.some_ne_none _
    · rw [getLast?_quotations_cons hnil] at hlast
      obtain ⟨u, hu, hsuffix, hopen⟩ := ih hts hlast
      exact ⟨u, hu, List.suffix_append_of_suffix hsuffix, hopen⟩

end RecordMap.Schema.Outline

namespace RecordMap.Schema.Written.Call

open Dump Text Outline

theorem text_outline (c : Call) :
    c.outline.text = c.receiver.text ++ writeTokens .code c.item.tokens := rfl

theorem not_isQuote_receiver (c : Call) : ∀ d ∈ c.receiver.text, isQuote d = false :=
  fun d hd => (quiet_of_isWordChar (c.receiver.isWordChar d hd)).1

theorem any_isQuote_outline (c : Call) :
    c.outline.text.any isQuote = !(quotations c.item.tokens).isEmpty := by
  rw [text_outline, List.any_append, any_isQuote_tokens c.item.sound_tokens,
    any_isQuote_eq_false c.not_isQuote_receiver, Bool.false_or]

theorem openingBehind?_outline (c : Call) : openingBehind? c.outline.text = none := by
  have hline := Line.openingBehind?_append (l := c.outline) fresh_nil
  have htokens := openingBehind?_tokens c.item.sound_tokens (fresh_nil.noOptions c.outline.margin.ending)
  rw [c.outline.write_append, openingBehind?_append c.outline.margin.isMargin_before.not_isQuote, text_outline,
    List.append_assoc, openingBehind?_append c.not_isQuote_receiver, htokens, ← text_outline,
    c.any_isQuote_outline] at hline
  by_cases hnil : quotations c.item.tokens = []
  · rw [openingBehind?_eq, List.dropWhile_eq_nil_iff.mpr]
    · rfl
    · have hany := c.any_isQuote_outline
      rw [hnil] at hany
      intro d hd
      rw [not_isQuote_of_any hany d hd]
      rfl
  · rw [if_neg hnil, if_pos (by simpa using hnil)] at hline
    exact Option.map_eq_none_iff.mp hline.symm

theorem header_passesOver_text (c : Call) {t : Text} (h : Fresh t)
    (hopens : (quotations c.item.tokens).getLast?.any opensTable = true → openingBehind? t = none) :
    header.PassesOver none c.outline.text (({} : Ending).write .code ++ t) := by
  have hend := h.lineEnd {}
  have htokens := hend.tokens c.item.sound_tokens
  rw [text_outline, Pattern.passesOver_append]
  refine ⟨header_passesOver_word c.receiver.isWordChar htokens.head htokens.nameless _,
    header_passesOver_tokens c.item.sound_tokens hend (fun hlast => ?_) _⟩
  rw [openingBehind?_append (Ending.isMargin {}).not_isQuote]
  exact hopens hlast

theorem header_outline (c : Call) : header.occursIn c.outline.text = false :=
  ((header_passesOver_iff c.outline.lineFeed_not_mem (endsLine {} fresh_nil)).mp
    (c.header_passesOver_text fresh_nil fun _ => rfl)).1

theorem leavesName_outline (c : Call) : leavesName.occursIn c.outline.text =
    (quotations c.item.tokens).getLast?.any opensTable := by
  cases hlast : (quotations c.item.tokens).getLast?.any opensTable with
  | false =>
    exact (occursIn_eq_false_of_passesOver c.outline.lineFeed_not_mem fun _ ht =>
      c.header_passesOver_text ht fun h => absurd (hlast.symm.trans h) Bool.false_ne_true).2
  | true =>
    obtain ⟨u, hu, hsuffix, hopen⟩ := exists_openName? c.item.sound_tokens hlast
    rw [← Bool.not_eq_false, leavesName_occursIn_eq_false_iff]
    exact fun hnone => hopen (hnone u hu (List.suffix_append_of_suffix hsuffix))

end RecordMap.Schema.Written.Call

namespace RecordMap.Schema.Outline

open Written Dump Text

/-! ### Lists of lines and of tables -/

def callLines (cs : List Call) : List Line := cs.map Call.outline

theorem blockBehind_calls (behind : Bool) (cs : List Call) :
    blockBehind behind ((callLines cs).map Line.text) =
      ((cs.flatMap fun c => quotations c.item.tokens).isEmpty && behind) := by
  induction cs with
  | nil => rfl
  | cons c cs ih =>
    rw [callLines, List.map_cons, List.map_cons, blockBehind, c.any_isQuote_outline,
      c.openingBehind?_outline, ← callLines, ih, List.flatMap_cons]
    cases quotations c.item.tokens <;> rfl

theorem opensAmong_calls (behind : Bool) (cs : List Call) :
    opensAmong behind ((callLines cs).map Line.text) =
      ((cs.flatMap fun c => quotations c.item.tokens).getLast?.any opensTable && behind) := by
  induction cs with
  | nil => rfl
  | cons c cs ih =>
    rw [callLines, List.map_cons, List.map_cons, opensAmong, c.header_outline, c.leavesName_outline,
      ← callLines, ih, blockBehind_calls, List.flatMap_cons, List.getLast?_append]
    generalize (cs.flatMap fun c => quotations c.item.tokens) = qs
    cases qs with
    | nil => simp
    | cons q qs =>
      rw [List.getLast?_eq_some_getLast (List.cons_ne_nil q qs)]
      simp

theorem any_isQuote_headText {b : Block} {ts : List Token} (hts : ∀ t ∈ ts, t.Sound)
    (h : b.options.write .code = writeTokens .code ts) : b.headText.any isQuote =
      !(quotations (⟨"create_table ".toList, .name b.name⟩ :: ts)).isEmpty := by
  rw [Block.headText, h, List.any_append, any_isQuote_tokens hts, quotations_cons]
  cases b.name with
  | symbol word =>
    have hsource : ∀ c ∈ (Name.symbol word).source, isQuote c = false :=
      List.forall_mem_cons.mpr ⟨rfl, fun c hc => (quiet_of_isWordChar (word.isWordChar c hc)).1⟩
    rw [any_isQuote_eq_false hsource]
    rfl
  | quoted m content =>
    have hsource : (Name.quoted m content).source.any isQuote = true :=
      List.any_eq_true.mpr ⟨m.char, List.mem_cons_self .., isQuote_mark m⟩
    rw [hsource]
    rfl

/-- In tables with lines of tokens a table is opened elsewhere exactly where a name swallows a line that
opens one. -/
theorem opensElsewhere_tokens {α : Type} {f : α → Block} {g : α → Written.Block}
    (hlines : ∀ a, (f a).lines = callLines (g a).calls)
    (hhead : ∀ a, (f a).headText.any isQuote = !(quotations (g a).headTokens).isEmpty) (l : List α) :
    opensElsewhere (l.map f) = namesSwallowHeader (l.map g) := by
  have hbehind : ∀ l : List α, blockBehindAll (l.map f) = headerQuotesFirst (l.map g) := by
    intro l
    induction l with
    | nil => rfl
    | cons a l ih =>
      rw [List.map_cons, List.map_cons, blockBehindAll, headerQuotesFirst, hhead, hlines,
        blockBehind_calls, ih]
      rfl
  induction l with
  | nil => rfl
  | cons a l ih =>
    rw [List.map_cons, List.map_cons, opensElsewhere, namesSwallowHeader, hlines, opensAmong_calls,
      hbehind, ih]
    rfl

end RecordMap.Schema.Outline
