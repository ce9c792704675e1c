import RecordMap.Proofs.Dump.Layout

/-! What is left of a dump when its comments are blanked: its code. -/

namespace RecordMap.Source

open Text

theorem afterQuote?_append {mark : Char} (escapes : Char → Bool) {content : Text} (rest : Text)
    (hmark : mark ∉ content) (hbackslash : '\\' ∉ content) :
    afterQuote? mark escapes (content ++ mark :: rest) = some rest := by
  induction content with
  | nil =>
    unfold afterQuote?
    exact if_pos rfl
  | cons c content ih =>
    rw [List.mem_cons, not_or] at hmark hbackslash
    unfold afterQuote?
    rw [List.cons_append]
    simp only [if_neg (Ne.symm hmark.1), if_neg (Ne.symm hbackslash.1)]
    exact ih hmark.2 hbackslash.2

theorem afterBlockEnd?_append {line rest : Text} (h : '\n' ∉ line) :
    afterBlockEnd? (line ++ rest) = afterBlockEnd? rest := by
  induction line with
  | nil => rfl
  | cons c line ih =>
    rw [List.mem_cons, not_or] at h
    rw [List.cons_append, afterBlockEnd?, if_neg (Ne.symm h.1), ih h.2]

theorem afterBlockEnd?_lineFeed {line rest : Text} (h : '\n' ∉ line)
    (hend : ¬ "=end".toList <+: line) :
    afterBlockEnd? ('\n' :: (line ++ '\n' :: rest)) = afterBlockEnd? ('\n' :: rest) := by
  have hnone : afterAll? "=end" (line ++ '\n' :: rest) = none := by
    rw [Option.eq_none_iff_forall_ne_some]
    intro t ht
    rw [afterAll?_eq_some_iff] at ht
    rcases List.append_eq_append_iff.mp ht with ⟨back, hback, hrest⟩ | ⟨back, hfront, _⟩
    · cases back with
      | nil => exact hend ⟨[], by simp [hback]⟩
      | cons c back =>
        obtain ⟨rfl, _⟩ := List.cons.inj hrest
        have hmem : '\n' ∈ "=end".toList := by
          rw [hback]
          exact List.mem_append_right _ (List.mem_cons_self ..)
        revert hmem
        decide
    · exact hend ⟨back, hfront.symm⟩
  rw [afterBlockEnd?, if_pos rfl, hnone]
  exact afterBlockEnd?_append h

theorem blankLines_append (s t : Text) : blankLines (s ++ t) = blankLines s ++ blankLines t :=
  List.map_append

def blankCommentsFrom (before : Option Char) (t : Text) : Text :=
  lexeme.replaceFrom (fun | .comment, s => blankLines s | .string, s => s) 0 before t

/-- The characters at which neither a comment nor a string starts. -/
def isCodeChar (c : Char) : Bool := !(['#', '=', '"', '\''].contains c)

theorem lexeme_eq_none {c : Char} (h : isCodeChar c = true) (before : Option Char) (t : Text) :
    lexeme before (c :: t) = none := by
  simp only [isCodeChar, List.contains_cons, List.contains_nil, Bool.or_false, Bool.not_or,
    Bool.and_eq_true, Bool.not_eq_true', beq_eq_false_iff_ne] at h
  obtain ⟨hhash, hequals, hdouble, hsingle⟩ := h
  rw [lexeme, if_neg hhash, if_neg hequals, if_neg (not_or.mpr ⟨hsingle, hdouble⟩)]

theorem blankCommentsFrom_code {s : Text} (h : ∀ c ∈ s, isCodeChar c = true)
    (before : Option Char) (rest : Text) :
    blankCommentsFrom before (s ++ rest) = s ++ blankCommentsFrom (s.getLast?.or before) rest :=
  Pattern.replaceFrom_of_passesOver _ (Pattern.passesOver_of_forall fun c hc b t =>
    lexeme_eq_none (h c hc) b t)

theorem blankCommentsFrom_comment {before : Option Char} {s rest : Text} (hs : s ≠ [])
    (h : lexeme before (s ++ rest) = some (.comment, rest)) :
    blankCommentsFrom before (s ++ rest) =
      blankLines s ++ blankCommentsFrom (s.getLast?.or before) rest :=
  Pattern.replaceFrom_of_match _ hs h

theorem blankCommentsFrom_string {before : Option Char} {s rest : Text} (hs : s ≠ [])
    (h : lexeme before (s ++ rest) = some (.string, rest)) :
    blankCommentsFrom before (s ++ rest) = s ++ blankCommentsFrom (s.getLast?.or before) rest :=
  Pattern.replaceFrom_of_match _ hs h

theorem lexeme_remark {text : Text} (h : '\n' ∉ text) (before : Option Char) (rest : Text) :
    lexeme before ('#' :: text ++ '\n' :: rest) = some (.comment, '\n' :: rest) := by
  have hdrop : (text ++ '\n' :: rest).dropWhile (· ≠ '\n') = '\n' :: rest :=
    dropWhile_append_of_all (List.all_eq_true.mpr fun c hc =>
      decide_eq_true fun heq => h (heq ▸ hc)) rfl
  rw [List.cons_append, lexeme, if_pos rfl, hdrop]

theorem lexeme_quotation {mark : Char} {content : Text} (hmark : mark = '\'' ∨ mark = '"')
    (hcontent : mark ∉ content) (hbackslash : '\\' ∉ content) (before : Option Char) (rest : Text) :
    lexeme before (mark :: content ++ [mark] ++ rest) = some (.string, rest) := by
  have hclosed := afterQuote?_append (fun _ => true) rest hcontent hbackslash
  have hhash : mark ≠ '#' := by rcases hmark with rfl | rfl <;> decide
  have hequals : mark ≠ '=' := by rcases hmark with rfl | rfl <;> decide
  rw [List.append_assoc, List.cons_append, lexeme, if_neg hhash, if_neg hequals, if_pos hmark,
    List.singleton_append, hclosed]
  rfl

theorem lexeme_block {first : Text} {lines : List Text} {before : Option Char}
    (hbefore : startsLine before = true) (hfirst : '\n' ∉ first)
    (hlines : ∀ l ∈ lines, '\n' ∉ l ∧ ¬ "=end".toList <+: l) (rest : Text) :
    lexeme before ("=begin".toList ++ first ++
      '\n' :: (lines.flatMap (· ++ ['\n']) ++ "=end".toList) ++ rest) = some (.comment, rest) := by
  have hend : afterBlockEnd? ('\n' :: (lines.flatMap (· ++ ['\n']) ++ "=end".toList) ++ rest) =
      some rest := by
    induction lines with
    | nil => rfl
    | cons l lines ih =>
      obtain ⟨hl, hlines⟩ := List.forall_mem_cons.mp hlines
      rw [List.flatMap_cons, List.append_assoc, List.append_assoc, List.cons_append,
        List.append_assoc, List.singleton_append, List.cons_append,
        afterBlockEnd?_lineFeed hl.1 hl.2]
      exact ih hlines
  have hbegin : afterAll? "begin" ("begin".toList ++ (first ++
      ('\n' :: (lines.flatMap (· ++ ['\n']) ++ "=end".toList) ++ rest))) =
      some (first ++ ('\n' :: (lines.flatMap (· ++ ['\n']) ++ "=end".toList) ++ rest)) :=
    afterAll?_eq_some_iff.mpr rfl
  rw [List.append_assoc, List.append_assoc]
  change lexeme before ('=' :: ("begin".toList ++ (first ++ _))) = _
  rw [lexeme, if_neg (by decide), if_pos rfl, if_pos hbefore, hbegin, Option.bind_some,
    afterBlockEnd?_append hfirst, hend]
  rfl

end RecordMap.Source

namespace RecordMap.Schema.Written

open Text Source

theorem blankLines_eq_spaces {t : Text} (h : '\n' ∉ t) : blankLines t = spaces t.length := by
  rw [blankLines, spaces, List.eq_replicate_iff, List.length_map]
  refine ⟨rfl, fun d hd => ?_⟩
  obtain ⟨c, hc, rfl⟩ := List.mem_map.mp hd
  exact if_neg fun heq : c = '\n' => h (heq ▸ hc)

theorem isCodeChar_of_isWordChar {c : Char} (h : isWordChar c = true) : isCodeChar c = true := by
  have hnone : ∀ d ∈ ['#', '=', '"', '\''], isWordChar d = false := by decide
  rw [isCodeChar, Bool.not_eq_true', ← Bool.not_eq_true]
  intro hc
  exact ne_of_isWordChar h (hnone c (List.contains_iff_mem.mp hc)) rfl

theorem IsMargin.isCodeChar {t : Text} (h : IsMargin t) : ∀ c ∈ t, isCodeChar c = true := by
  intro c hc
  rcases h c hc with rfl | rfl <;> decide

theorem isCodeChar_of_mem_codes : ∀ code ∈ codes, ∀ c ∈ code, isCodeChar c = true := by
  decide +kernel

theorem writeTokens_whole (ts : List Token) : writeTokens .whole ts = writeTokens .code ts := by
  have hname : ∀ n : Name, n.write .whole = n.write .code := fun n => rfl
  have htoken : Token.write .whole = Token.write .code := by
    funext t
    obtain ⟨code, argument⟩ := t
    cases argument <;> rfl
  rw [writeTokens, writeTokens, htoken]

/-! ### Comments -/

/-- The comments of `t` are blanked in `t'`, wherever the text stands. -/
def Uncommented (t t' : Text) : Prop := ∀ before, blankCommentsFrom before t = t'

/-- The comments of `t` are blanked in `t'`, where the text stands at the beginning of a line. -/
def UncommentedLine (t t' : Text) : Prop :=
  ∀ before, startsLine before = true → blankCommentsFrom before t = t'

theorem Uncommented.line {t t' : Text} (h : Uncommented t t') : UncommentedLine t t' :=
  fun before _ => h before

theorem Uncommented.nil : Uncommented [] [] := fun _ => rfl

theorem Uncommented.code {t t' s : Text} (hs : ∀ c ∈ s, isCodeChar c = true)
    (h : Uncommented t t') : Uncommented (s ++ t) (s ++ t') := by
  intro before
  rw [blankCommentsFrom_code hs, h]

theorem Uncommented.name {t t' : Text} (n : Name) (h : Uncommented t t') :
    Uncommented (n.source ++ t) (n.source ++ t') := by
  cases n with
  | symbol word =>
    refine h.code ?_
    exact List.forall_mem_cons.mpr
      ⟨by decide, fun c hc => isCodeChar_of_isWordChar (word.isWordChar c hc)⟩
  | quoted mark content =>
    intro before
    have hmark : mark.char = '\'' ∨ mark.char = '"' := by cases mark <;> decide
    have hcontent : mark.char ∉ content.text := content.not_mem (by cases mark <;> decide)
    have hbackslash : '\\' ∉ content.text := content.not_mem (by decide)
    rw [Name.source, blankCommentsFrom_string (by simp)
      (lexeme_quotation hmark hcontent hbackslash before t), h]

theorem Uncommented.tokens {t t' : Text} {ts : List Token} (hts : ∀ x ∈ ts, x.code ∈ codes)
    (h : Uncommented t t') : Uncommented (writeTokens .code ts ++ t) (writeTokens .code ts ++ t') := by
  induction ts with
  | nil => exact h
  | cons x ts ih =>
    obtain ⟨hx, hts⟩ := List.forall_mem_cons.mp hts
    have hrest := ih hts
    have hargument : Uncommented (x.argument.write .code ++ (writeTokens .code ts ++ t))
        (x.argument.write .code ++ (writeTokens .code ts ++ t')) := by
      cases x.argument with
      | nothing => exact hrest
      | name n => exact hrest.name n
      | number digits =>
        exact hrest.code fun c hc => isCodeChar_of_isWordChar (digits.isWordChar c hc)
    have hcode := hargument.code (isCodeChar_of_mem_codes x.code hx)
    simpa only [writeTokens_cons, Token.write, List.append_assoc] using hcode

theorem UncommentedLine.ending {t t' : Text} (e : Ending) (h : UncommentedLine t t') :
    Uncommented (e.write .whole ++ t) (e.write .code ++ t') := by
  intro before
  obtain ⟨n, remark⟩ := e
  have hspaces : ∀ c ∈ spaces n, Source.isCodeChar c = true := (isMargin_spaces n).isCodeChar
  cases remark with
  | none =>
    have hline : blankCommentsFrom ((spaces n).getLast?.or before) (['\n'] ++ t) = ['\n'] ++ t' := by
      rw [blankCommentsFrom_code (by decide), h _ rfl]
    simp only [Ending.write, Option.elim, List.append_nil, List.append_assoc]
    rw [blankCommentsFrom_code hspaces, hline]
  | some r =>
    have hmatch := lexeme_remark r.not_mem ((spaces n).getLast?.or before) t
    have hnot : '\n' ∉ '#' :: r.text := by
      rw [List.mem_cons, not_or]
      exact ⟨by decide, r.not_mem⟩
    have hline : ∀ b, blankCommentsFrom b ('\n' :: t) = '\n' :: t' := by
      intro b
      rw [← List.singleton_append, blankCommentsFrom_code (by decide), h _ rfl]
      rfl
    simp only [Ending.write, Option.elim, comment, List.append_assoc, List.singleton_append]
    rw [blankCommentsFrom_code hspaces, blankCommentsFrom_comment (List.cons_ne_nil _ _) hmatch,
      hline, blankLines_eq_spaces hnot]

theorem blankLines_flatMap {l : List BlockLine} :
    blankLines ((l.map (·.text)).flatMap (· ++ ['\n'])) =
      l.flatMap fun line => spaces line.text.length ++ ['\n'] := by
  induction l with
  | nil => rfl
  | cons line l ih =>
    rw [List.map_cons, List.flatMap_cons, List.flatMap_cons, blankLines_append, blankLines_append, ih,
      blankLines_eq_spaces line.not_mem]
    rfl

theorem UncommentedLine.aside {t t' : Text} (a : Aside) (h : UncommentedLine t t') :
    UncommentedLine (a.write .whole ++ t) (a.write .code ++ t') := by
  cases a with
  | line ending => exact (h.ending ending).line
  | block first lines =>
    intro before hbefore
    have hlines : ∀ l ∈ lines.map (·.text), '\n' ∉ l ∧ ¬ "=end".toList <+: l := by
      intro l hl
      obtain ⟨line, _, rfl⟩ := List.mem_map.mp hl
      exact ⟨line.not_mem, line.not_end⟩
    have hmatch := lexeme_block hbefore first.not_mem hlines ('\n' :: t)
    have hline : ∀ b, blankCommentsFrom b ('\n' :: t) = '\n' :: t' := by
      intro b
      rw [← List.singleton_append, blankCommentsFrom_code (by decide), h _ rfl]
      rfl
    have hfirst : '\n' ∉ "=begin".toList ++ first.text := by
      rw [List.mem_append, not_or]
      exact ⟨by decide, first.not_mem⟩
    have hblank : blankLines ("=begin".toList ++ first.text ++
        '\n' :: ((lines.map (·.text)).flatMap (· ++ ['\n']) ++ "=end".toList)) =
        spaces ("=begin".toList ++ first.text).length ++
          '\n' :: ((lines.flatMap fun l => spaces l.text.length ++ ['\n']) ++ spaces 4) := by
      rw [blankLines_append, blankLines_eq_spaces hfirst, ← blankLines_flatMap]
      exact congrArg (_ ++ '\n' :: ·) (blankLines_append _ _)
    have hwhole : (Aside.block first lines).write .whole ++ t =
        ("=begin".toList ++ first.text ++
          '\n' :: ((lines.map (·.text)).flatMap (· ++ ['\n']) ++ "=end".toList)) ++ '\n' :: t := by
      simp only [Aside.write, comment, List.flatMap_map, List.append_assoc, List.cons_append,
        List.nil_append]
    rw [hwhole, blankCommentsFrom_comment (by simp) hmatch, hline, hblank]
    simp only [Aside.write, comment, List.append_assoc, List.cons_append, List.nil_append]
    rfl

theorem Uncommented.before {t t' : Text} (m : Margin) (h : Uncommented t t') :
    UncommentedLine (m.before .whole ++ t) (m.before .code ++ t') := by
  have hindent := (h.code (isMargin_spaces m.indent).isCodeChar).line
  rw [Margin.before, Margin.before, List.append_assoc, List.append_assoc]
  exact flatMap_step (R := UncommentedLine) (fun a _ _ => UncommentedLine.aside a) m.above hindent

theorem Variable.isCodeChar (v : Variable) : ∀ c ∈ v.text, Source.isCodeChar c = true :=
  fun c hc => isCodeChar_of_isWordChar (v.isWordChar c hc)

theorem UncommentedLine.top {t t' : Text} (s : Script) (h : UncommentedLine t t') :
    UncommentedLine (s.top .whole ++ t) (s.top .code ++ t') := by
  rw [Script.top, Script.top]
  cases s.frame with
  | none => exact h
  | some f =>
    have hversion : ∀ c ∈ f.version.text, Source.isCodeChar c = true := fun c hc =>
      isCodeChar_of_isWordChar (f.version.isWordChar c hc)
    have hclosed := (h.ending f.opening.ending).code (s := ") do".toList) (by decide)
    have hopened := (hclosed.code hversion).code
      (s := "ActiveRecord::Schema[7.1].define(version: ".toList) (by decide)
    simpa only [Option.elim, Frame.openingLine, List.append_assoc] using hopened.before f.opening

theorem UncommentedLine.bottom {t t' : Text} (s : Script) (h : UncommentedLine t t') :
    UncommentedLine (s.bottom .whole ++ t) (s.bottom .code ++ t') := by
  have hafter := flatMap_step (R := UncommentedLine) (fun a _ _ => UncommentedLine.aside a) s.after h
  rw [Script.bottom, Script.bottom, List.append_assoc, List.append_assoc]
  cases s.frame with
  | none => exact hafter
  | some f =>
    have hend := (hafter.ending f.closing.ending).code (s := "end".toList) (by decide)
    simpa only [Option.elim, Frame.closingLine, List.append_assoc] using hend.before f.closing

end RecordMap.Schema.Written
