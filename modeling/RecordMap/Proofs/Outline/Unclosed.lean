import RecordMap.Proofs.Outline.Scripts

/-! Dumps in which tables are not closed: the block of such a table has no end, whatever follows it. -/

namespace RecordMap.Source

open Text

def HasKeywords (t : Text) (ks : List Keyword) : Prop :=
  ∀ position before, (keyword.allFrom 0 position before t).map Found.value = ks

theorem HasKeywords.passed {s t : Text} {ks : List Keyword}
    (hs : ∀ before, keyword.PassesOver before s t) (h : HasKeywords t ks) : HasKeywords (s ++ t) ks := by
  intro position before
  rw [Pattern.allFrom_of_passesOver position (hs before), h]

theorem HasKeywords.word {s w t : Text} {k : Keyword} {ks : List Keyword}
    (hk : Keyword.ofWord? w = some k) (hne : w ≠ []) (hall : w.all isWordChar = true)
    (hs : ∀ before, keyword.PassesOver before s (w ++ t))
    (hstarts : ∀ before, startsWord (s.getLast?.or before) = true)
    (ht : t.head?.any isWordChar = false) (h : HasKeywords t ks) :
    HasKeywords (s ++ (w ++ t)) (k :: ks) := by
  intro position before
  rw [Pattern.allFrom_of_passesOver position (hs before),
    Pattern.allFrom_of_match _ hne (keyword_word hk hne hall (hstarts before) ht), List.map_cons, h]

section

variable {limit inner : Nat} {k : Found Keyword} {ks : List (Found Keyword)}

theorem closing?_opener_eq_none (hk : k.value = .opener)
    (h : ∀ position, closing? limit (inner + 1) position ks = none) (position : Int) :
    closing? limit inner position (k :: ks) = none := by
  unfold closing?
  rw [hk, h, ite_self]

theorem closing?_closer_eq_none (hk : k.value = .closer)
    (h : ∀ position, closing? limit inner position ks = none) (position : Int) :
    closing? limit (inner + 1) position (k :: ks) = none := by
  unfold closing?
  simp only [hk, h, ite_self]

end

end RecordMap.Source

namespace RecordMap.Schema.Written

open Dump Text Source

/-! ### Positions -/

theorem length_comment (view : View) (t : Text) : (comment view t).length = t.length := by
  cases view with
  | whole => rfl
  | code | bare => exact length_spaces _

theorem Ending.length_whole (e : Ending) : (e.write .whole).length = (e.write .code).length := by
  obtain ⟨gap, remark⟩ := e
  cases remark with
  | none => rfl
  | some r => simp only [Ending.write, Option.elim, List.length_append, length_comment]

theorem Aside.length_whole (a : Aside) : (a.write .whole).length = (a.write .code).length := by
  cases a with
  | line ending => exact ending.length_whole
  | block first lines =>
    have hlines := length_flatMap_congr (l := lines) (f := fun l => comment .whole l.text ++ ['\n'])
      (g := fun l => comment .code l.text ++ ['\n']) fun l _ => by
        rw [List.length_append, List.length_append, length_comment, length_comment]
    simp only [Aside.write, List.length_append, List.length_cons, length_comment, hlines]

theorem Margin.length_whole (m : Margin) : (m.before .whole).length = (m.before .code).length := by
  simp only [Margin.before, List.length_append,
    length_flatMap_congr fun a (_ : a ∈ m.above) => a.length_whole]

theorem lineAt_append (s t : Text) : (s ++ t).lineAt s.length = s.count '\n' + 1 := by
  rw [Text.lineAt, Text.offset_natCast, List.take_left]

end RecordMap.Schema.Written

namespace RecordMap.Schema.Outline

open Written Dump Text Source

namespace Block

theorem length_whole (b : Block) : (b.write .whole).length = (b.write .code).length := by
  have hclose : (b.close .whole).length = (b.close .code).length := by
    rw [close, close]
    cases b.closing with
    | none => rfl
    | some m => simp only [Option.elim, List.length_append, m.length_whole, m.ending.length_whole]
  have hline : ∀ l : Line, (l.write .whole).length = (l.write .code).length := fun l => by
    simp only [Line.write, List.length_append, l.code.legible.whole, l.margin.length_whole,
      l.margin.ending.length_whole]
  have hname : Token.write .whole ⟨"create_table ".toList, .name b.name⟩ =
      Token.write .code ⟨"create_table ".toList, .name b.name⟩ := rfl
  simp only [write, header, inside, List.length_append, b.options.legible.whole, hclose, hname,
    b.opening.length_whole, b.opening.ending.length_whole,
    length_flatMap_congr fun l (_ : l ∈ b.lines) => hline l]

/-! ### Keywords -/

theorem hasKeywords_header (b : Block) {t : Text} {ks : List Keyword} (h : HasKeywords t ks) :
    HasKeywords (b.header .bare ++ t) (.opener :: ks) := by
  have hfront : ∀ before, keyword.PassesOver before
      ("create_table".toList ++ (" ".toList ++ spaces b.name.source.length ++
        (b.options.write .bare ++ [' '])))
      ("do".toList ++ (" |".toList ++ (b.receiver.text ++ ('|' :: t)))) := by
    intro before
    have hmargin : IsMargin (" ".toList ++ spaces b.name.source.length) :=
      (isMargin_spaces 1).append (isMargin_spaces _)
    simp only [Pattern.passesOver_append]
    refine ⟨keyword_passesOver_word (by decide) (by decide) rfl _, ?_, ?_, ?_⟩
    · exact Pattern.passesOver_append.mp (hmargin.keyword_passesOver _)
    · exact b.options.legible.keywords rfl _
    · exact (isMargin_spaces 1).keyword_passesOver _
  have hback : HasKeywords (" |".toList ++ (b.receiver.text ++ ('|' :: t))) ks := by
    have hbar : HasKeywords (['|'] ++ t) ks := h.passed fun before =>
      keyword_passesOver_of_not_isWordChar (by decide) before
    have hreceiver := hbar.passed fun before => keyword_passesOver_word b.receiver.all_isWordChar
      b.receiver.not_keyword rfl before
    exact hreceiver.passed fun before => keyword_passesOver_of_not_isWordChar (by decide) before
  have hword := hback.word (w := "do".toList) (k := .opener) rfl (by decide) (by decide) hfront
    (fun before => by simp only [← List.append_assoc, List.getLast?_append]; rfl) rfl
  have hname : "create_table ".toList = "create_table".toList ++ " ".toList := rfl
  have hdo : " do |".toList = ' ' :: ("do".toList ++ " |".toList) := rfl
  simpa only [header, Token.write, Argument.write, Name.write, hname, hdo, List.append_assoc,
    List.cons_append, List.nil_append] using hword

def closers (b : Block) : List Keyword := b.closing.elim [] fun _ => [.closer]

theorem hasKeywords_remainder (b : Block) {t : Text} {ks : List Keyword} (h : HasKeywords t ks) :
    HasKeywords (b.inside .bare ++ (b.close .bare ++ t)) (b.closers ++ ks) := by
  rw [close, closers]
  cases b.closing with
  | none => exact h.passed fun before => b.keywords_inside t before
  | some m =>
    have hending := h.passed fun before => m.ending.isMargin.keyword_passesOver before
    have hword := hending.word (w := "end".toList) (k := .closer) rfl (by decide) (by decide)
      (s := b.inside .bare ++ m.before .code) (fun before => Pattern.passesOver_append.mpr
        ⟨b.keywords_inside _ before, m.isMargin_before.keyword_passesOver _⟩)
      (startsWord_margin b.getLast?_inside m.isMargin_before) (head?_isWordChar (m.ending.head? t))
    simpa only [Option.elim, Margin.before_bare, Ending.write_bare, List.append_assoc,
      List.singleton_append] using hword

theorem hasKeywords_write (b : Block) {t : Text} {ks : List Keyword} (h : HasKeywords t ks) :
    HasKeywords (b.write .bare ++ t) (.opener :: (b.closers ++ ks)) := by
  have hheader := b.hasKeywords_header (b.hasKeywords_remainder h)
  have hbefore := hheader.passed fun before => b.opening.isMargin_before.keyword_passesOver before
  simpa only [write, Margin.before_bare, List.append_assoc] using hbefore

end Block

theorem hasKeywords_blocks (bs : List Block) {bottom : Text} (h : HasKeywords bottom []) :
    HasKeywords (bs.flatMap (Block.write .bare) ++ bottom)
      (bs.flatMap fun b => .opener :: b.closers) := by
  induction bs with
  | nil => exact h
  | cons b bs ih =>
    rw [List.flatMap_cons, List.flatMap_cons, List.append_assoc]
    exact b.hasKeywords_write ih

theorem closing?_blocks (bs : List Block) {limit inner : Nat} {ks : List (Found Keyword)}
    (h : ks.map Found.value = bs.flatMap fun b => .opener :: b.closers) (position : Int) :
    closing? limit inner position ks = none := by
  induction bs generalizing inner position ks with
  | nil =>
    rw [List.map_eq_nil_iff.mp h]
    rfl
  | cons b bs ih =>
    obtain ⟨k, ks, rfl, hk, hks⟩ := List.map_eq_cons_iff.mp h
    refine closing?_opener_eq_none hk (fun position => ?_) position
    rw [Block.closers] at hks
    cases hclosing : b.closing with
    | none =>
      rw [hclosing] at hks
      exact ih hks position
    | some m =>
      rw [hclosing] at hks
      obtain ⟨k, ks, rfl, hk, hks⟩ := List.map_eq_cons_iff.mp hks
      exact closing?_closer_eq_none hk (ih hks) position

namespace Script

variable {s : Script} {before after bs : List Block} {b : Block}

/-- The block of a table that is not closed has no end, whatever follows it. -/
theorem bodyBy?_open (hframe : s.frame = none) (h : s.blocks = before ++ b :: after)
    (hopen : b.closing = none) : bodyBy? (keyword.all (s.write .bare)) (s.write .code)
      (s.above .code before b ++ b.header .code).length = none := by
  have hbottom : HasKeywords (s.around.bottom .bare) [] := by
    have hmargin : IsMargin (s.around.bottom .bare) := by
      rw [Written.Script.bottom, around, hframe, Option.elim_none, List.nil_append, Aside.write_bare]
      exact isMargin_flatMap fun a _ => a.isMargin
    have hnil : HasKeywords (s.around.bottom .bare ++ []) [] :=
      HasKeywords.passed (fun c => hmargin.keyword_passesOver c) fun _ _ => rfl
    rwa [List.append_nil] at hnil
  have hkeywords : HasKeywords (b.inside .bare ++ (b.close .bare ++ s.rest .bare after))
      (after.flatMap fun b => .opener :: b.closers) := by
    have hremainder := b.hasKeywords_remainder (hasKeywords_blocks after hbottom)
    rwa [Block.closers, hopen] at hremainder
  have hfront : (s.above .bare before b ++ b.header .bare).length =
      (s.above .code before b ++ b.header .code).length := by
    simp only [List.length_append, s.length_above, b.length_header]
  rw [write_eq h, write_eq h, bodyBy?_behind hfront (b.closed_header _),
    closing?_blocks after (hkeywords _ _)]
  rfl

theorem lineAt_above (h : s.blocks = before ++ b :: after) (hframe : s.frame = none) :
    s.text.lineAt (s.above .code before b).length =
      (before.flatMap (Block.write .whole) ++ b.opening.before .whole).count '\n' + 1 := by
  have htop : ∀ view, s.around.top view = [] := fun view => by
    rw [Written.Script.top, around, hframe]
    rfl
  have hlength : (s.above .whole before b).length = (s.above .code before b).length := by
    simp only [above, htop, List.length_append, b.opening.length_whole,
      length_flatMap_congr fun b (_ : b ∈ before) => b.length_whole]
  have habove : s.above .whole before b =
      before.flatMap (Block.write .whole) ++ b.opening.before .whole := by
    rw [above, htop, List.nil_append]
  rw [← hlength, text, write_eq h, List.append_assoc, lineAt_append, habove]

theorem read_open (hframe : s.frame = none) (h : s.blocks = before ++ b :: after)
    (hopen : b.closing = none) (v : Header) :
    let behind := b.inside .code ++ (b.close .code ++ s.rest .code after)
    s.read ⟨(s.write .code).length - (b.header .code ++ behind).length,
        (s.write .code).length - behind.length, v⟩ =
      .error ⟨v.name, (before.flatMap (Block.write .whole) ++ b.opening.before .whole).count '\n' + 1⟩ := by
  intro behind
  have hstart : (s.write .code).length - (b.header .code ++ behind).length =
      (s.above .code before b).length := by
    rw [write_eq h, List.append_assoc, List.length_append, Nat.add_sub_cancel]
  have hstop : (s.write .code).length - behind.length =
      (s.above .code before b ++ b.header .code).length := by
    rw [write_eq h, List.length_append, Nat.add_sub_cancel]
  rw [read, tableOf, hstart, hstop, bodyBy?_open hframe h hopen, ← lineAt_above h hframe]

/-- What is read of tables in a dump without lines around them, where `above` stands in front of them. -/
def results (above : Text) : List Block → List (Except Unterminated Table)
  | [] => []
  | b :: bs =>
    b.closing.elim (.error ⟨b.name.text, (above ++ b.opening.before .whole).count '\n' + 1⟩)
        (fun _ => .ok b.read) :: results (above ++ b.write .whole) bs

theorem map_read_openings_eq_results (hframe : s.frame = none) (h : s.blocks = before ++ bs) :
    (openings (s.around.bottom .code) (s.write .code).length bs).map s.read =
      results (before.flatMap (Block.write .whole)) bs := by
  induction bs generalizing before with
  | nil => rfl
  | cons b bs ih =>
    have hbefore : before.flatMap (Block.write .whole) ++ b.write .whole =
        (before ++ [b]).flatMap (Block.write .whole) := by
      rw [List.flatMap_append, List.flatMap_singleton]
    rw [openings, List.map_cons, results, hbefore, ← ih (by simp [h])]
    refine congrArg (· :: _) ?_
    cases hclosing : b.closing with
    | none => exact read_open hframe h hclosing _
    | some m => exact read_closed h hclosing _

end Script

end RecordMap.Schema.Outline
