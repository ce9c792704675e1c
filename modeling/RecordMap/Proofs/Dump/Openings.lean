import RecordMap.Proofs.Dump.Headers

/-! Where the readers of a dump see tables opened: at the lines that open them, and where the closing
mark of a name is taken for the opening mark of another one. -/

namespace RecordMap.Schema.Written

open Dump Text

/-! ### Behind the next mark -/

/-- What is read as options behind the next quotation mark. -/
def openingBehind? (t : Text) : Option (Text × Text × Text) :=
  match t.dropWhile (!isQuote ·) with
  | [] => none
  | _ :: rest => optionsAndBlock? rest

theorem openingBehind?_append {s : Text} (hs : ∀ c ∈ s, isQuote c = false) (t : Text) :
    openingBehind? (s ++ t) = openingBehind? t := by
  have hdrop : (s ++ t).dropWhile (!isQuote ·) = t.dropWhile (!isQuote ·) :=
    List.dropWhile_append_of_pos fun c hc => by rw [hs c hc]; rfl
  rw [openingBehind?, openingBehind?, hdrop]

theorem openingBehind?_mark (m : Mark) (t : Text) :
    openingBehind? (m.char :: t) = optionsAndBlock? t := by
  cases m <;> rfl

theorem headerBehind?_eq {t : Text} (h : t.head?.any isQuote = false) :
    headerBehind? t = (openingBehind? t).map fun (options, receiver, rest) =>
      (⟨t.takeWhile (!isQuote ·), options, receiver⟩, rest) := by
  cases t with
  | nil => rfl
  | cons c t =>
    have hc : isQuote c = false := h
    have hc' : (!isQuote c) = true := by rw [hc]; rfl
    have htake : (c :: t).takeWhile (!isQuote ·) = c :: t.takeWhile (!isQuote ·) :=
      List.takeWhile_cons_of_pos hc'
    have hdrop : (c :: t).dropWhile (!isQuote ·) = t.dropWhile (!isQuote ·) :=
      List.dropWhile_cons_of_pos hc'
    rw [headerBehind?, openingBehind?, name?, if_neg (by decide), if_pos (by decide), htake, hdrop]
    cases t.dropWhile (!isQuote ·) with
    | nil => rfl
    | cons d rest =>
      simp only [Option.bind_eq_bind, Option.bind_some]
      cases optionsAndBlock? rest <;> rfl

/-- Nothing is read as options that begins before `t` in its line. -/
def NoOptions (t : Text) : Prop := ∀ s, '|' ∉ s → optionsAndBlock? (s ++ t) = none

theorem NoOptions.append {s t : Text} (hs : '|' ∉ s) (h : NoOptions t) : NoOptions (s ++ t) := by
  intro u hu
  rw [← List.append_assoc]
  exact h (u ++ s) fun hmem => (List.mem_append.mp hmem).elim hu hs

/-! ### Beginnings of lines -/

/-- The text of lines that begin with a word other than `do`, or of none. -/
def Fresh (t : Text) : Prop :=
  ∃ m back, t = m ++ back ∧ IsMargin m ∧ (back = [] ∨ ∃ w rest, back = w ++ rest ∧ w ≠ [] ∧
    (∀ c ∈ w, isWordChar c = true) ∧ w ≠ "do".toList ∧ rest.head?.any isKeyChar = false)

theorem fresh_nil : Fresh [] := ⟨[], [], rfl, List.forall_mem_nil _, .inl rfl⟩

theorem fresh_word {w rest : Text} (hne : w ≠ []) (hw : ∀ c ∈ w, isWordChar c = true)
    (hdo : w ≠ "do".toList) (hrest : rest.head?.any isKeyChar = false) : Fresh (w ++ rest) :=
  ⟨[], w ++ rest, rfl, List.forall_mem_nil _, .inr ⟨w, rest, rfl, hne, hw, hdo, hrest⟩⟩

theorem Fresh.margin {m t : Text} (hm : IsMargin m) (h : Fresh t) : Fresh (m ++ t) := by
  obtain ⟨m', back, rfl, hm', hback⟩ := h
  exact ⟨m ++ m', back, by rw [List.append_assoc], hm.append hm', hback⟩

theorem Fresh.nameless {t : Text} (h : Fresh t) : Nameless t := by
  obtain ⟨m, back, rfl, hm, hback⟩ := h
  refine nameless_blanks hm.isBlank ?_
  rcases hback with rfl | ⟨w, rest, rfl, hne, hw, _⟩
  · rfl
  · obtain ⟨c, w, rfl⟩ := List.exists_cons_of_ne_nil hne
    exact nameless_of_isWordChar (hw c (List.mem_cons_self ..)) _

theorem Fresh.noBlock {t : Text} (h : Fresh t) : NoBlock t := by
  obtain ⟨m, back, rfl, hm, hback⟩ := h
  refine NoBlock.blanks hm.isBlank ?_
  rcases hback with rfl | ⟨w, rest, rfl, hne, hw, hdo, hrest⟩
  · exact ⟨by decide, fun rest h => by cases h⟩
  · obtain ⟨c, w, rfl⟩ := List.exists_cons_of_ne_nil hne
    have hbar : ∀ d ∈ c :: w, d ≠ '|' ∧ isBlank d = false := by
      intro d hd
      refine ⟨?_, not_isBlank_of_isWordChar (hw d hd)⟩
      rintro rfl
      exact absurd (hw _ hd) (by decide)
    have hdrop : dropBlanks (c :: w ++ rest) = c :: w ++ rest :=
      dropBlanks_of_head (hbar c (List.mem_cons_self ..)).2
    refine ⟨?_, fun r hr => ?_⟩
    · rw [hdrop]
      exact fun heq => (hbar c (List.mem_cons_self ..)).1 (Option.some.inj heq)
    · rw [hdrop, afterAll?_eq_some_iff] at hr
      -- A `do` at the beginning of a longer word is followed by that word's next character.
      match w, hr with
      | [], hr =>
        have hrest' : rest = 'o' :: r := (List.cons.inj hr).2
        rw [hrest'] at hrest
        have ho : isKeyChar 'o' = false := hrest
        exact absurd ho (by decide)
      | [d], hr =>
        have hd : c = 'd' ∧ d = 'o' := ⟨(List.cons.inj hr).1, (List.cons.inj (List.cons.inj hr).2).1⟩
        rw [hd.1, hd.2] at hdo
        exact absurd rfl hdo
      | d :: e :: w, hr =>
        have hr : e :: w ++ rest = r := (List.cons.inj (List.cons.inj hr).2).2
        have he := hbar e (by simp)
        have hdrop' : dropBlanks (e :: w ++ rest) = e :: w ++ rest := dropBlanks_of_head he.2
        rw [← hr, hdrop']
        exact fun heq => he.1 (Option.some.inj heq)

theorem Fresh.head? {t : Text} (h : Fresh t) {c : Char} (hc : (dropBlanks t).head? = some c) :
    isWordChar c = true := by
  obtain ⟨m, back, rfl, hm, hback⟩ := h
  rw [dropBlanks_blanks hm.isBlank] at hc
  rcases hback with rfl | ⟨w, rest, rfl, hne, hw, _⟩
  · cases hc
  · obtain ⟨d, w, rfl⟩ := List.exists_cons_of_ne_nil hne
    have hd := hw d (List.mem_cons_self ..)
    have hdrop : dropBlanks (d :: w ++ rest) = d :: w ++ rest :=
      dropBlanks_of_head (not_isBlank_of_isWordChar hd)
    rw [hdrop] at hc
    rwa [← Option.some.inj hc]

theorem Fresh.noOptions {t : Text} (h : Fresh t) (e : Ending) : NoOptions (e.write .code ++ t) := by
  intro s hs
  have hspaces : '|' ∉ s ++ spaces e.width := by
    rw [List.mem_append, not_or]
    exact ⟨hs, fun hmem => absurd (mem_spaces hmem) (by decide)⟩
  have hnone := optionsAndBlock?_eq_none hspaces h.noBlock
  rw [List.append_assoc] at hnone
  rwa [Ending.write_code, List.append_assoc, List.singleton_append]

theorem Variable.ne_do (v : Variable) : v.text ≠ "do".toList := by
  intro heq
  have hkeyword := v.not_keyword
  rw [heq] at hkeyword
  revert hkeyword
  decide

theorem fresh_flatMap {κ : Type} {write : κ → Text} (hwrite : ∀ x t, Fresh (write x ++ t)) (l : List κ)
    {rest : Text} (h : Fresh rest) : Fresh (l.flatMap write ++ rest) := by
  cases l with
  | nil => exact h
  | cons x l =>
    rw [List.flatMap_cons, List.append_assoc]
    exact hwrite x _

/-! ### Tokens -/

theorem quiet_of_mem_codes :
    ∀ code ∈ codes, ∀ c ∈ code, isQuote c = false ∧ c ≠ '|' ∧ c ≠ '\n' := by
  decide +kernel

theorem quiet_of_isWordChar {c : Char} (h : isWordChar c = true) :
    isQuote c = false ∧ c ≠ '|' ∧ c ≠ '\n' := by
  have hne : ∀ {d}, isWordChar d = false → c ≠ d := ne_of_isWordChar h
  refine ⟨?_, hne (by decide), hne (by decide)⟩
  rw [isQuote, Bool.or_eq_false_iff, beq_eq_false_iff_ne, beq_eq_false_iff_ne]
  exact ⟨hne (by decide), hne (by decide)⟩

theorem IsMargin.not_isQuote {m : Text} (h : IsMargin m) : ∀ c ∈ m, isQuote c = false := by
  intro c hc
  rcases h c hc with rfl | rfl <;> rfl

theorem quiet_of_not_mem {s : Text} (hbar : '|' ∉ s) (hline : '\n' ∉ s) :
    ∀ c ∈ s, c ≠ '|' ∧ c ≠ '\n' :=
  fun _ hc => ⟨fun heq => hbar (heq ▸ hc), fun heq => hline (heq ▸ hc)⟩

theorem Name.quiet (n : Name) : ∀ c ∈ n.source, c ≠ '|' ∧ c ≠ '\n' :=
  quiet_of_not_mem (foreign_bar.not_mem_source n) (foreign_lineFeed.not_mem_source n)

theorem Name.lineFeed_not_mem (n : Name) : '\n' ∉ n.text := by
  cases n with
  | symbol word =>
    exact fun hmem => absurd (List.all_eq_true.mp word.all_isWordChar _ hmem) (by decide)
  | quoted mark content => exact content.not_mem (by decide)

theorem Token.quiet {t : Token} (ht : t.Sound) : ∀ c ∈ t.write .code, c ≠ '|' ∧ c ≠ '\n' := by
  intro c hc
  rcases List.mem_append.mp hc with hc | hc
  · exact (quiet_of_mem_codes t.code ht.mem c hc).2
  · exact quiet_of_not_mem (foreign_bar.not_mem_argument _) (foreign_lineFeed.not_mem_argument _) c hc

theorem quiet_writeTokens {ts : List Token} (hts : ∀ t ∈ ts, t.Sound) :
    ∀ c ∈ writeTokens .code ts, c ≠ '|' ∧ c ≠ '\n' := by
  intro c hc
  obtain ⟨t, ht, hc⟩ := List.mem_flatMap.mp hc
  exact Token.quiet (hts t ht) c hc

theorem not_mem_bar {s : Text} (h : ∀ c ∈ s, c ≠ '|' ∧ c ≠ '\n') : '|' ∉ s :=
  fun hmem => (h _ hmem).1 rfl

theorem Token.not_isQuote {t : Token} (ht : t.Sound) (hnone : t.argument.quotation? = none) :
    ∀ c ∈ t.write .code, isQuote c = false := by
  intro c hc
  rcases List.mem_append.mp hc with hc | hc
  · exact (quiet_of_mem_codes t.code ht.mem c hc).1
  · cases hargument : t.argument with
    | nothing => rw [hargument] at hc; cases hc
    | number digits =>
      rw [hargument] at hc
      exact (quiet_of_isWordChar (digits.isWordChar c hc)).1
    | name n =>
      rw [hargument] at hc hnone
      cases n with
      | symbol word =>
        rcases List.mem_cons.mp hc with rfl | hc
        · rfl
        · exact (quiet_of_isWordChar (word.isWordChar c hc)).1
      | quoted mark content => cases hnone

theorem Argument.exists_of_quotation {a : Argument} {q : Text} (h : a.quotation? = some q) :
    ∃ (m : Mark) (content : Quotable), a = .name (.quoted m content) ∧ q = content.text := by
  cases a with
  | nothing => cases h
  | number digits => cases h
  | name n =>
    cases n with
    | symbol word => cases h
    | quoted m content => exact ⟨m, content, rfl, (Option.some.inj h).symm⟩

theorem any_isQuote_eq_false {t : Text} (h : ∀ c ∈ t, isQuote c = false) : t.any isQuote = false :=
  List.any_eq_false.mpr fun c hc => Bool.eq_false_iff.mp (h c hc)

theorem quotations_cons (t : Token) (ts : List Token) :
    quotations (t :: ts) = t.argument.quotation?.toList ++ quotations ts := by
  rw [quotations, List.filterMap_cons]
  cases t.argument.quotation? <;> rfl

theorem quotations_append (ts us : List Token) :
    quotations (ts ++ us) = quotations ts ++ quotations us := List.filterMap_append

theorem openingBehind?_tokens {ts : List Token} (hts : ∀ t ∈ ts, t.Sound) {rest : Text}
    (hrest : NoOptions rest) :
    openingBehind? (writeTokens .code ts ++ rest) =
      if quotations ts = [] then openingBehind? rest else none := by
  induction ts with
  | nil => rfl
  | cons t ts ih =>
    obtain ⟨ht, hts⟩ := List.forall_mem_cons.mp hts
    rw [writeTokens_cons, List.append_assoc, quotations_cons]
    cases hquotation : t.argument.quotation? with
    | none => rw [openingBehind?_append (Token.not_isQuote ht hquotation), ih hts]; rfl
    | some q =>
      obtain ⟨m, content, hargument, -⟩ := Argument.exists_of_quotation hquotation
      have hopening : openingBehind? (t.write .code ++ (writeTokens .code ts ++ rest)) =
          optionsAndBlock? (content.text ++ [m.char] ++ (writeTokens .code ts ++ rest)) := by
        rw [Token.write, hargument, List.append_assoc,
          openingBehind?_append fun c hc => (quiet_of_mem_codes t.code ht.mem c hc).1]
        exact openingBehind?_mark m _
      have hbar : '|' ∉ content.text ++ [m.char] := by
        intro hmem
        exact absurd rfl ((Name.quoted m content).quiet '|' (List.mem_cons_of_mem _ hmem)).1
      rw [hopening, hrest.append (not_mem_bar (quiet_writeTokens hts)) _ hbar]
      exact (if_neg (List.cons_ne_nil q (quotations ts))).symm

/-- What can follow a token: neither a name nor the rest of a word or of a quotation. -/
structure TokenEnd (t : Text) : Prop where
  head : t.head?.any isKeyChar = false
  quote : t.head?.any isQuote = false
  nameless : Nameless t

/-- What can follow a token without options in its line. -/
structure LineEnd (t : Text) : Prop extends TokenEnd t where
  noOptions : NoOptions t

theorem Fresh.tokenEnd {t : Text} (h : Fresh t) (e : Ending) : TokenEnd (e.write .code ++ t) where
  head := e.head? t
  quote := by
    obtain ⟨c, rest, hcons⟩ := List.exists_cons_of_ne_nil e.write_ne_nil
    have hc : isQuote c = false := e.isMargin.not_isQuote c (hcons ▸ List.mem_cons_self ..)
    rwa [hcons]
  nameless := (h.margin e.isMargin).nameless

theorem Fresh.lineEnd {t : Text} (h : Fresh t) (e : Ending) : LineEnd (e.write .code ++ t) where
  toTokenEnd := h.tokenEnd e
  noOptions := h.noOptions e

theorem tokenEnd_of_head {t : Text} {c : Char} (hc : c ∈ [',', '.', ']']) (h : t.head? = some c) :
    TokenEnd t := by
  have hnone : ∀ d ∈ [',', '.', ']'],
      isKeyChar d = false ∧ isQuote d = false ∧ opensName d = false := by decide
  obtain ⟨hkey, hquote, hname⟩ := hnone c hc
  refine ⟨?_, ?_, nameless_of_head ?_⟩
  · rwa [h]
  · rwa [h]
  · rwa [h]

theorem LineEnd.tokens {ts : List Token} (hts : ∀ t ∈ ts, t.Sound) {rest : Text} (h : LineEnd rest) :
    LineEnd (writeTokens .code ts ++ rest) := by
  cases ts with
  | nil => exact h
  | cons t ts =>
    obtain ⟨c, hc, hhead⟩ := (hts t (List.mem_cons_self ..)).head? .code (writeTokens .code ts ++ rest)
    rw [← List.append_assoc, ← writeTokens_cons] at hhead
    exact ⟨tokenEnd_of_head hc hhead, h.noOptions.append (not_mem_bar (quiet_writeTokens hts))⟩

theorem verbatim_passesOver_of_mem_codes :
    ∀ code ∈ codes, (Pattern.verbatim "create_table").PassesOver none code [] := by
  decide +kernel

theorem header_passesOver_code {code rest : Text} (h : code ∈ codes) (hrest : Separate code rest)
    (before : Option Char) : header.PassesOver before code rest := by
  have hverbatim := verbatim_passesOver_of_mem_codes code h
  refine header_passesOver_of_verbatim ?_ hrest
  cases code with
  | nil => trivial
  | cons c code => exact ⟨hverbatim.1, hverbatim.2⟩

theorem header_passesOver_margin {m : Text} (h : IsMargin m) (rest : Text) (before : Option Char) :
    header.PassesOver before m rest := by
  refine header_passesOver_of_forall (fun hc => ?_) rest before
  rcases h 'c' hc with heq | heq <;> exact absurd heq (by decide)

theorem opensTable_of_suffix {u s : Text} (hu : u ≠ []) (hsuffix : u <:+ s)
    (h : isOpening u = true) : opensTable s = true := by
  induction s with
  | nil => exact absurd (List.suffix_nil.mp hsuffix) hu
  | cons c s ih =>
    rw [opensTable, Bool.or_eq_true]
    rcases List.suffix_cons_iff.mp hsuffix with rfl | hsuffix
    · exact .inl h
    · exact .inr (ih hsuffix)

theorem header_passesOver_quotation (m : Mark) (content : Quotable) {rest : Text}
    (hquote : rest.head?.any isQuote = false)
    (hopens : opensTable content.text = true → openingBehind? rest = none) (before : Option Char) :
    header.PassesOver before (Name.quoted m content).source rest := by
  have hmark : ∀ t b, header.PassesOver b [m.char] t :=
    fun t b => header_passesOver_of_forall (by cases m <;> decide) t b
  have hcontent : ∀ b, header.PassesOver b content.text (m.char :: rest) := by
    intro b
    refine Pattern.passesOver_of_suffix fun b u hu hsuffix => ?_
    have hname : ∀ c ∈ u, isNameChar c = true := fun c hc =>
      List.all_eq_true.mp content.all_isNameChar c (hsuffix.subset hc)
    rw [header_quotation hname m rest b]
    cases hopening : isOpening u with
    | false => rfl
    | true =>
      rw [headerBehind?_eq hquote, hopens (opensTable_of_suffix hu hsuffix hopening)]
      rfl
  rw [Name.source, ← List.singleton_append (l := content.text), Pattern.passesOver_append,
    Pattern.passesOver_append]
  exact ⟨⟨hmark _ _, hcontent _⟩, hmark _ _⟩

theorem header_passesOver_token {t : Token} (ht : t.Sound) {rest : Text} (hrest : TokenEnd rest)
    (hopens : t.argument.quotation?.any opensTable = true → openingBehind? rest = none)
    (before : Option Char) : header.PassesOver before (t.write .code) rest := by
  rw [Token.write, Pattern.passesOver_append]
  refine ⟨header_passesOver_code ht.mem (ht.separate .code hrest.head) before, ?_⟩
  cases hargument : t.argument with
  | nothing => trivial
  | number digits => exact header_passesOver_word digits.isWordChar hrest.head hrest.nameless _
  | name n =>
    cases n with
    | symbol word =>
      have hcolon : header.PassesOver (t.code.getLast?.or before) [':'] (word.text ++ rest) :=
        header_passesOver_of_forall (by decide) _ _
      have hword := header_passesOver_word word.isWordChar hrest.head
        hrest.nameless (some ':')
      exact ⟨hcolon.1, hword⟩
    | quoted m content =>
      rw [hargument] at hopens
      exact header_passesOver_quotation m content hrest.quote hopens _

theorem getLast?_quotations_cons {t : Token} {ts : List Token} (h : quotations ts ≠ []) :
    (quotations (t :: ts)).getLast? = (quotations ts).getLast? := by
  rw [quotations_cons]
  exact (getLast?_of_suffix h (List.suffix_append _ _)).symm

theorem header_passesOver_tokens {ts : List Token} (hts : ∀ t ∈ ts, t.Sound) {rest : Text}
    (hrest : LineEnd rest)
    (hopens : (quotations ts).getLast?.any opensTable = true → openingBehind? rest = none)
    (before : Option Char) : header.PassesOver before (writeTokens .code ts) rest := by
  induction ts generalizing before with
  | nil => trivial
  | cons t ts ih =>
    obtain ⟨ht, hts⟩ := List.forall_mem_cons.mp hts
    rw [writeTokens_cons, Pattern.passesOver_append]
    have hopening := openingBehind?_tokens hts hrest.noOptions
    -- Options follow the next mark only behind the last quotation of all.
    refine ⟨header_passesOver_token ht (hrest.tokens hts).toTokenEnd (fun h => ?_) before,
      ih hts (fun h => ?_) _⟩
    · rw [hopening]
      by_cases hnil : quotations ts = []
      · rw [if_pos hnil]
        refine hopens ?_
        rw [quotations_cons, hnil, List.append_nil]
        cases hquotation : t.argument.quotation? with
        | none => rw [hquotation] at h; cases h
        | some q => rwa [hquotation] at h
      · rw [if_neg hnil]
    · refine hopens ?_
      have hne : quotations ts ≠ [] := by
        intro hnil
        rw [hnil] at h
        cases h
      rwa [getLast?_quotations_cons hne]

/-! ### Tokens among the options of a table -/

def closesOptions (c : Char) : Bool := isBlank c || c == ')'

theorem not_closesOptions_of_isWordChar {c : Char} (h : isWordChar c = true) :
    closesOptions c = false := by
  rw [closesOptions, not_isBlank_of_isWordChar h, Bool.false_or, beq_eq_false_iff_ne]
  rintro rfl
  exact absurd h (by decide)

theorem getLast?_any_append {f : Char → Bool} {s t : Text} (hs : s.getLast?.any f = false)
    (ht : t.getLast?.any f = false) : (s ++ t).getLast?.any f = false := by
  rw [List.getLast?_append]
  cases hlast : t.getLast? with
  | none => exact hs
  | some c => rwa [hlast] at ht

theorem Word.getLast?_text (w : Word) : w.text.getLast?.any closesOptions = false := by
  rw [List.getLast?_eq_some_getLast w.ne_nil]
  exact not_closesOptions_of_isWordChar
    (List.all_eq_true.mp w.all_isWordChar _ (List.getLast_mem w.ne_nil))

theorem getLast?_mark (s : Text) (m : Mark) : (s ++ [m.char]).getLast?.any closesOptions = false := by
  rw [List.getLast?_append]
  cases m <;> rfl

theorem Name.getLast?_source (n : Name) : n.source.getLast?.any closesOptions = false := by
  cases n with
  | symbol word =>
    exact getLast?_any_append (s := [':']) (by decide) word.getLast?_text
  | quoted mark content => exact getLast?_mark _ mark

theorem TableOption.getLast?_write (o : TableOption) :
    (o.token.write .code).getLast?.any closesOptions = false := by
  cases o with
  | noKey => decide
  | keyType type =>
    exact (getLast?_of_suffix (Name.symbol type).source_ne_nil (List.suffix_append _ _)) ▸
      (Name.symbol type).getLast?_source
  | keyName name =>
    exact (getLast?_of_suffix name.source_ne_nil (List.suffix_append _ _)) ▸ name.getLast?_source
  | cascade => decide

/-- A token that can stand among the options of a table: behind it a block starts only after blanks. -/
structure Token.IsOption (t : Token) : Prop extends t.Sound where
  last : (t.write .code).getLast?.any closesOptions = false

theorem TableOption.isOption_tokens (options : List TableOption) :
    ∀ t ∈ options.map TableOption.token, t.IsOption := by
  intro t ht
  obtain ⟨o, _, rfl⟩ := List.mem_map.mp ht
  exact ⟨o.sound_token, o.getLast?_write⟩

theorem sound_of_isOption {ts : List Token} (hts : ∀ t ∈ ts, t.IsOption) : ∀ t ∈ ts, t.Sound :=
  fun t ht => (hts t ht).toSound

theorem getLast?_options {ts : List Token} (hts : ∀ t ∈ ts, t.IsOption) :
    (writeTokens .code ts).getLast?.any closesOptions = false := by
  induction ts with
  | nil => rfl
  | cons t ts ih =>
    obtain ⟨ht, hts⟩ := List.forall_mem_cons.mp hts
    rw [writeTokens_cons]
    exact getLast?_any_append ht.last (ih hts)

theorem Variable.not_isQuote (v : Variable) : ∀ c ∈ writtenStart v.text, isQuote c = false := by
  intro c hc
  rcases List.mem_append.mp hc with hc | hc
  · rcases List.mem_append.mp hc with hc | hc
    · have hdo : ∀ d ∈ " do |".toList, isQuote d = false := by decide
      exact hdo c hc
    · exact (quiet_of_isWordChar (v.isWordChar c hc)).1
  · rw [List.mem_singleton.mp hc]
    rfl

end RecordMap.Schema.Written
