import RecordMap.Proofs.Dump.Bodies
import RecordMap.Proofs.Dump.Literals
import RecordMap.Proofs.Dump.Openings
import RecordMap.Schema.Dump.Tables

/-! The outline of a dump: its lines and where they stand, whatever the options in them say. What is
read of a dump by its lines alone is read here, once for dumps of all kinds. -/

namespace RecordMap.Schema.Outline

open Written Dump Text Source

/-- Code behind a word in a line. It shows no comment, and where the strings and symbols in it are not
shown, nothing in it is a word that opens or closes a block. -/
structure Legible (f : View → Text) : Prop where
  whole : f .whole = f .code
  lineFeed : '\n' ∉ f .code
  head : ∀ view {rest : Text}, rest.head?.any isKeyChar = false →
    (f view ++ rest).head?.any isKeyChar = false
  uncommented : ∀ {t t' : Text}, Uncommented t t' → Uncommented (f .code ++ t) (f .code ++ t')
  bared : ∀ {t t' : Text}, t.head?.any isKeyChar = false → Bared t t' →
    Bared (f .code ++ t) (f .bare ++ t')
  keywords : ∀ {rest : Text}, rest.head?.any isKeyChar = false → ∀ before,
    keyword.PassesOver before (f .bare) rest
  length : (f .bare).length = (f .code).length

structure Code where
  write : View → Text
  legible : Legible write

structure Line where
  margin : Margin
  receiver : Variable
  code : Code

/-- A table, of which the line that closes it can be missing. -/
structure Block where
  opening : Margin
  name : Name
  options : Code
  receiver : Variable
  lines : List Line
  closing : Option Margin

structure Script where
  frame : Option Frame := none
  blocks : List Block
  after : List Aside := []

def Line.write (view : View) (l : Line) : Text :=
  l.margin.before view ++ l.receiver.text ++ l.code.write view ++ l.margin.ending.write view

namespace Block

def header (view : View) (b : Block) : Text :=
  Token.write view ⟨"create_table ".toList, .name b.name⟩ ++ b.options.write view ++
    " do |".toList ++ b.receiver.text ++ ['|']

/-- What stands between the code of the line that opens a table and the line that closes it. -/
def inside (view : View) (b : Block) : Text :=
  b.opening.ending.write view ++ b.lines.flatMap (Line.write view)

def close (view : View) (b : Block) : Text :=
  b.closing.elim [] fun m => m.before view ++ "end".toList ++ m.ending.write view

def body (view : View) (b : Block) : Text :=
  b.inside view ++ b.closing.elim [] (Margin.before view)

def write (view : View) (b : Block) : Text :=
  b.opening.before view ++ b.header view ++ (b.inside view ++ b.close view)

end Block

theorem flatMap_outline {α : Type} {outline : α → Block} {write : View → α → Text}
    (h : ∀ view a, (outline a).write view = write view a) (view : View) (l : List α) :
    (l.map outline).flatMap (Block.write view) = l.flatMap (write view) := by
  rw [List.flatMap_map]
  exact congrArg (List.flatMap · l) (funext (h view))

namespace Script

def around (s : Script) : Written.Script := ⟨s.frame, [], s.after⟩

def write (view : View) (s : Script) : Text :=
  s.around.top view ++ s.blocks.flatMap (Block.write view) ++ s.around.bottom view

def text (s : Script) : Text := s.write .whole

end Script

/-! ### Comments -/

theorem Line.uncommented {t t' : Text} (l : Line) (h : UncommentedLine t t') :
    UncommentedLine (l.write .whole ++ t) (l.write .code ++ t') := by
  have hcode := l.code.legible.uncommented (h.ending l.margin.ending)
  have hline := (hcode.code l.receiver.isCodeChar).before l.margin
  simpa only [write, l.code.legible.whole, List.append_assoc] using hline

namespace Block

theorem uncommented_close {t t' : Text} (b : Block) (h : UncommentedLine t t') :
    UncommentedLine (b.close .whole ++ t) (b.close .code ++ t') := by
  rw [close, close]
  cases b.closing with
  | none => exact h
  | some m =>
    have hend := (h.ending m.ending).code (s := "end".toList) (by decide)
    simpa only [Option.elim, List.append_assoc] using hend.before m

theorem uncommented {t t' : Text} (b : Block) (h : UncommentedLine t t') :
    UncommentedLine (b.write .whole ++ t) (b.write .code ++ t') := by
  have hlines := flatMap_step (R := UncommentedLine) (fun l _ _ => Line.uncommented l) b.lines
    (b.uncommented_close h)
  have hreceiver := ((hlines.ending b.opening.ending).code (s := ['|']) (by decide)).code
    b.receiver.isCodeChar
  have hoptions := b.options.legible.uncommented (hreceiver.code (s := " do |".toList) (by decide))
  have hname := (hoptions.name b.name).code (s := "create_table ".toList) (by decide)
  simpa only [write, header, inside, b.options.legible.whole, Token.write, Argument.write, Name.write,
    List.append_assoc] using hname.before b.opening

end Block

theorem Script.blankComments_text (s : Script) : blankComments s.text = s.write .code := by
  have hbottom := Uncommented.nil.line.bottom s.around
  rw [List.append_nil, List.append_nil] at hbottom
  rw [text, write, write, List.append_assoc, List.append_assoc]
  have hblocks := flatMap_step (R := UncommentedLine) (fun b _ _ => Block.uncommented b) s.blocks
    hbottom
  exact hblocks.top s.around none rfl

/-! ### Strings and symbols -/

theorem Line.bared {t t' : Text} (l : Line) (h : Bared t t') :
    Bared (l.write .code ++ t) (l.write .bare ++ t') := by
  have hhead := l.margin.ending.head? t
  have hcode := l.code.legible.bared hhead (h.margin l.margin.ending.isMargin)
  have hreceiver := hcode.word l.receiver.isWordChar (l.code.legible.head .code hhead)
  simpa only [write, Margin.before_bare, Ending.write_bare, List.append_assoc] using
    hreceiver.margin l.margin.isMargin_before

namespace Block

theorem close_bare (b : Block) : b.close .bare = b.close .code := by
  rw [close, close]
  cases b.closing with
  | none => rfl
  | some m => simp only [Option.elim, Margin.before_bare, Ending.write_bare]

theorem bared_close {t t' : Text} (b : Block) (h : Bared t t') :
    Bared (b.close .code ++ t) (b.close .bare ++ t') := by
  rw [b.close_bare, close]
  cases b.closing with
  | none => exact h
  | some m =>
    have hend := (h.margin m.ending.isMargin).word (w := "end".toList) (by decide)
      (m.ending.head? t)
    simpa only [Option.elim, List.append_assoc] using hend.margin m.isMargin_before

theorem bared {t t' : Text} (b : Block) (h : Bared t t') :
    Bared (b.write .code ++ t) (b.write .bare ++ t') := by
  have hlines := flatMap_step (R := Bared) (fun l _ _ => Line.bared l) b.lines (b.bared_close h)
  have hinside := hlines.margin b.opening.ending.isMargin
  have hbar := hinside.code (s := ['|']) (by decide) (.inl rfl)
  have hreceiver := (hbar.word b.receiver.isWordChar rfl).code (s := " do |".toList) (by decide)
    (.inl rfl)
  have hoptions := b.options.legible.bared rfl hreceiver
  have hname := hoptions.named "create_table ".toList b.name (by decide) rfl (by decide)
    (b.options.legible.head .code rfl)
  simpa only [write, header, inside, Margin.before_bare, Ending.write_bare, Token.write,
    Argument.write, Name.write, List.append_assoc] using hname.margin b.opening.isMargin_before

end Block

theorem Script.blankLiterals_code (s : Script) : blankLiterals (s.write .code) = s.write .bare := by
  rw [write, write, List.append_assoc, List.append_assoc]
  have hblocks := flatMap_step (R := Bared) (fun b _ _ => Block.bared b) s.blocks
    (Bared.bottom s.around)
  exact hblocks.top s.around none

def Script.read (s : Script) : Found Header → Except Unterminated Table :=
  tableOf s.text (s.write .code) (keyword.all (s.write .bare))

theorem Script.readTables_text (s : Script) :
    readTables s.text = (Dump.header.all (s.write .code)).map s.read := by
  rw [readTables, s.blankComments_text, s.blankLiterals_code]
  rfl

/-! ### Keywords -/

theorem Line.keywords (l : Line) (rest : Text) (before : Option Char) :
    keyword.PassesOver before (l.write .bare) rest := by
  have hending := l.margin.ending.head? rest
  rw [write, Margin.before_bare, Ending.write_bare, List.append_assoc, List.append_assoc]
  simp only [Pattern.passesOver_append, List.append_assoc]
  refine ⟨l.margin.isMargin_before.keyword_passesOver _, ?_, ?_, ?_⟩
  · exact keyword_passesOver_word l.receiver.all_isWordChar l.receiver.not_keyword
      (head?_isWordChar (l.code.legible.head .bare hending)) _
  · exact l.code.legible.keywords hending _
  · exact l.margin.ending.isMargin.keyword_passesOver _

theorem Block.keywords_inside (b : Block) (rest : Text) (before : Option Char) :
    keyword.PassesOver before (b.inside .bare) rest := by
  rw [inside, Ending.write_bare, Pattern.passesOver_append]
  exact ⟨b.opening.ending.isMargin.keyword_passesOver _,
    Pattern.passesOver_flatMap (fun l _ before rest => l.keywords rest before) _ _⟩

/-! ### Positions -/

theorem Line.length_bare (l : Line) : (l.write .bare).length = (l.write .code).length := by
  simp only [write, Margin.before_bare, Ending.write_bare, List.length_append, l.code.legible.length]

theorem Line.getLast?_bare (l : Line) : (l.write .bare).getLast? = some '\n' := by
  rw [write, Ending.write_bare, List.getLast?_append, l.margin.ending.getLast?_write]
  rfl

namespace Block

theorem length_header (b : Block) : (b.header .bare).length = (b.header .code).length := by
  simp only [header, List.length_append, Token.length_write, b.options.legible.length]

theorem length_inside (b : Block) : (b.inside .bare).length = (b.inside .code).length := by
  simp only [inside, Ending.write_bare, List.length_append,
    length_flatMap_congr fun l (_ : l ∈ b.lines) => l.length_bare]

theorem length_bare (b : Block) : (b.write .bare).length = (b.write .code).length := by
  simp only [write, Margin.before_bare, List.length_append, b.length_header, b.length_inside,
    b.close_bare]

theorem getLast?_inside (b : Block) : (b.inside .bare).getLast? = some '\n' := by
  rw [inside, Ending.write_bare]
  exact getLast?_append_flatMap b.opening.ending.getLast?_write fun l _ => l.getLast?_bare

theorem closed_header (b : Block) (s : Text) :
    (s ++ b.header .bare).getLast?.any isKeyChar = false := by
  rw [header, ← List.append_assoc, List.getLast?_append]
  rfl

end Block

namespace Script

/-- What stands in a dump in front of the line that opens a table, with tables before it. -/
def above (view : View) (s : Script) (before : List Block) (b : Block) : Text :=
  s.around.top view ++ before.flatMap (Block.write view) ++ b.opening.before view

def rest (view : View) (s : Script) (bs : List Block) : Text :=
  bs.flatMap (Block.write view) ++ s.around.bottom view

variable {s : Script} {before after : List Block} {b : Block}

theorem write_eq (h : s.blocks = before ++ b :: after) (view : View) :
    s.write view = s.above view before b ++ b.header view ++
      (b.inside view ++ (b.close view ++ s.rest view after)) := by
  simp only [write, h, above, rest, List.flatMap_append, List.flatMap_cons, Block.write,
    List.append_assoc]

theorem length_above (s : Script) (before : List Block) (b : Block) :
    (s.above .bare before b).length = (s.above .code before b).length := by
  simp only [above, List.length_append, s.around.length_top, Margin.before_bare,
    length_flatMap_congr fun b (_ : b ∈ before) => b.length_bare]

end Script

/-! ### Lines -/

namespace Line

def text (l : Line) : Text := l.receiver.text ++ l.code.write .code

theorem write_code (l : Line) :
    l.write .code = l.margin.before .code ++ (l.text ++ l.margin.ending.write .code) := by
  simp only [write, text, List.append_assoc]

theorem write_append (l : Line) (rest : Text) : l.write .code ++ rest =
    l.margin.before .code ++ (l.text ++ (l.margin.ending.write .code ++ rest)) := by
  simp only [write, text, List.append_assoc]

theorem lineFeed_not_mem (l : Line) : '\n' ∉ l.text := by
  rw [text, List.mem_append, not_or]
  exact ⟨fun hmem => absurd (l.receiver.isWordChar _ hmem) (by decide), l.code.legible.lineFeed⟩

theorem fresh (l : Line) (rest : Text) : Fresh (l.write .code ++ rest) := by
  have hhead := l.code.legible.head .code (l.margin.ending.head? rest)
  have hreceiver := fresh_word l.receiver.ne_nil l.receiver.isWordChar l.receiver.ne_do hhead
  rw [write_append, text, List.append_assoc]
  exact hreceiver.margin l.margin.isMargin_before

end Line

/-! ### Tokens -/

theorem legible_tokens {ts : List Token} (hts : ∀ t ∈ ts, t.Sound) :
    Legible fun view => writeTokens view ts where
  whole := writeTokens_whole ts
  lineFeed := fun hmem => (quiet_writeTokens hts _ hmem).2 rfl
  head := fun view _ hrest => head?_writeTokens hts view hrest
  uncommented := fun h => h.tokens fun t ht => (hts t ht).mem
  bared := fun ht h => h.tokens hts ht
  keywords := keyword_passesOver_tokens hts
  length := length_writeTokens ts

def Code.tokens (ts : List Token) (hts : ∀ t ∈ ts, t.Sound) : Code := ⟨_, legible_tokens hts⟩

end RecordMap.Schema.Outline

namespace RecordMap.Schema.Written

def Call.outline (c : Call) : Outline.Line :=
  ⟨c.margin, c.receiver, .tokens c.item.tokens c.item.sound_tokens⟩

end RecordMap.Schema.Written

