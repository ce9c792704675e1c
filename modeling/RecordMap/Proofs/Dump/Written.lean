import RecordMap.Schema.Dump.Columns
import RecordMap.Source.Block

/-! Schema dumps as they are written: what each line says, how it is laid out, and the tables that the
lines declare. -/

namespace RecordMap.Schema.Written

open Dump Text

/-! ### Words and names -/

structure Word where
  text : Text
  ne_nil : text ≠ []
  all_isWordChar : text.all isWordChar = true

/-- A word that can stand for a variable: it neither opens nor closes a block. -/
structure Variable extends Word where
  not_keyword : Source.Keyword.ofWord? text = none

structure Digits where
  text : Text
  ne_nil : text ≠ []
  all_isDigit : text.all Char.isDigit = true

/-- What a name in quotation marks is made of. Besides the marks, the backslash and the line feed,
which end or break the quotation, three characters are left out that the calls around it are made
of. -/
def isNameChar (c : Char) : Bool := !(['"', '\'', '\\', '\n', '.', ':', '|'].contains c)

structure Quotable where
  text : Text
  ne_nil : text ≠ []
  all_isNameChar : text.all isNameChar = true

inductive Mark where
  | single
  | double
deriving DecidableEq, Repr

def Mark.char : Mark → Char
  | single => '\''
  | double => '"'

inductive Name where
  | symbol (word : Word)
  | quoted (mark : Mark) (content : Quotable)

namespace Name

def text : Name → Text
  | symbol word => word.text
  | quoted _ content => content.text

def source : Name → Text
  | symbol word => ':' :: word.text
  | quoted mark content => mark.char :: content.text ++ [mark.char]

def quotation? : Name → Option Text
  | symbol _ => none
  | quoted _ content => some content.text

end Name

/-! ### Views -/

/-- What is shown of a dump: all of it, all but the comments, or neither comments nor names. What is
not shown is blanked. -/
inductive View where
  | whole
  | code
  | bare
deriving DecidableEq, Repr

def spaces (n : Nat) : Text := List.replicate n ' '

inductive Argument where
  | nothing
  | name (name : Name)
  | number (digits : Digits)

structure Token where
  code : Text
  argument : Argument := .nothing

def Name.write (view : View) (n : Name) : Text :=
  match view with
  | .bare => spaces n.source.length
  | _ => n.source

def Argument.write (view : View) : Argument → Text
  | nothing => []
  | name n => n.write view
  | number digits => digits.text

def Argument.quotation? : Argument → Option Text
  | name n => n.quotation?
  | _ => none

def Token.write (view : View) (t : Token) : Text := t.code ++ t.argument.write view

def writeTokens (view : View) (ts : List Token) : Text := ts.flatMap (Token.write view)

def quotations (ts : List Token) : List Text := ts.filterMap (·.argument.quotation?)

/-! ### Layout -/

structure Remark where
  text : Text
  not_mem : '\n' ∉ text

structure Ending where
  gap : Nat := 0
  remark : Option Remark := none

structure BlockLine extends Remark where
  not_end : ¬ "=end".toList <+: text

/-- A line without code, or a comment of several lines. -/
inductive Aside where
  | line (ending : Ending)
  | block (first : Remark) (lines : List BlockLine)

/-- What stands around the code of a line. -/
structure Margin where
  above : List Aside := []
  indent : Nat := 0
  ending : Ending := {}

def comment (view : View) (t : Text) : Text :=
  match view with
  | .whole => t
  | _ => spaces t.length

def Ending.write (view : View) (e : Ending) : Text :=
  spaces e.gap ++ e.remark.elim [] (fun r => comment view ('#' :: r.text)) ++ ['\n']

def Aside.write (view : View) : Aside → Text
  | line ending => ending.write view
  | block first lines =>
    comment view ("=begin".toList ++ first.text) ++ '\n' ::
      lines.flatMap (fun l => comment view l.text ++ ['\n']) ++ comment view "=end".toList ++ ['\n']

def Margin.before (view : View) (m : Margin) : Text :=
  m.above.flatMap (Aside.write view) ++ spaces m.indent

/-! ### Tables -/

inductive TableOption where
  | noKey
  | keyType (type : Word)
  | keyName (name : Name)
  | cascade

namespace TableOption

def cascadeWord : Word := ⟨"cascade".toList, by decide, by decide⟩

def token : TableOption → Token
  | noKey => ⟨", id: false".toList, .nothing⟩
  | keyType type => ⟨", id: ".toList, .name (.symbol type)⟩
  | keyName name => ⟨", primary_key: ".toList, .name name⟩
  | cascade => ⟨", force: ".toList, .name (.symbol cascadeWord)⟩

def isNoKey : TableOption → Bool
  | noKey => true
  | _ => false

def type? : TableOption → Option Text
  | keyType type => some type.text
  | _ => none

def name? : TableOption → Option Text
  | keyName name => some name.text
  | _ => none

end TableOption

def keyColumns (options : List TableOption) : List Column :=
  if options.any TableOption.isNoKey then []
  else [⟨(options.findSome? TableOption.name?).getD "id".toList,
    (options.findSome? TableOption.type?).getD "bigint".toList, false⟩]

inductive ColumnOption where
  | notNull
  | limit (digits : Digits)
  | polymorphic

namespace ColumnOption

def token : ColumnOption → Token
  | notNull => ⟨", null: false".toList, .nothing⟩
  | limit digits => ⟨", limit: ".toList, .number digits⟩
  | polymorphic => ⟨", polymorphic: true".toList, .nothing⟩

def isNotNull : ColumnOption → Bool
  | notNull => true
  | _ => false

def isPolymorphic : ColumnOption → Bool
  | polymorphic => true
  | _ => false

end ColumnOption

def plainKinds : List Text :=
  columnKinds.filter fun kind => !(["references", "belongs_to", "column"].map String.toList).contains kind

structure PlainKind where
  text : Text
  mem : text ∈ plainKinds

inductive Item where
  | column (kind : PlainKind) (name : Name) (options : List ColumnOption)
  | typed (name : Name) (type : Word) (options : List ColumnOption)
  | reference (isAlias : Bool) (name : Name) (options : List ColumnOption)
  | timestamps
  | index (first : Name) (others : List Name) (name : Name)

namespace Item

def tokens : Item → List Token
  | column kind name options =>
    ⟨'.' :: kind.text ++ [' '], .name name⟩ :: options.map ColumnOption.token
  | typed name type options =>
    ⟨".column ".toList, .name name⟩ :: ⟨", ".toList, .name (.symbol type)⟩ ::
      options.map ColumnOption.token
  | reference isAlias name options =>
    ⟨(if isAlias then ".belongs_to " else ".references ").toList, .name name⟩ ::
      options.map ColumnOption.token
  | timestamps => [⟨".timestamps".toList, .nothing⟩]
  | index first others name =>
    ⟨".index [".toList, .name first⟩ :: others.map (⟨", ".toList, .name ·⟩) ++
      [⟨"], name: ".toList, .name name⟩]

def columns : Item → List Column
  | column kind name options => [⟨name.text, kind.text, !options.any ColumnOption.isNotNull⟩]
  | typed name type options => [⟨name.text, type.text, !options.any ColumnOption.isNotNull⟩]
  | reference _ name options =>
    let nullable := !options.any ColumnOption.isNotNull
    ⟨name.text ++ "_id".toList, "bigint".toList, nullable⟩ ::
      if options.any ColumnOption.isPolymorphic then
        [⟨name.text ++ "_type".toList, "string".toList, nullable⟩]
      else []
  | timestamps | index .. => []

def isTimestamps : Item → Bool
  | timestamps => true
  | _ => false

end Item

structure Call where
  margin : Margin
  receiver : Variable
  item : Item

def Call.write (view : View) (c : Call) : Text :=
  c.margin.before view ++ c.receiver.text ++ writeTokens view c.item.tokens ++
    c.margin.ending.write view

structure Block where
  opening : Margin
  name : Name
  options : List TableOption
  receiver : Variable
  calls : List Call
  closing : Margin

namespace Block

def headTokens (b : Block) : List Token :=
  ⟨"create_table ".toList, .name b.name⟩ :: b.options.map TableOption.token

def header (view : View) (b : Block) : Text :=
  writeTokens view b.headTokens ++ " do |".toList ++ b.receiver.text ++ ['|']

def body (view : View) (b : Block) : Text :=
  b.opening.ending.write view ++ b.calls.flatMap (Call.write view) ++ b.closing.before view

def remainder (view : View) (b : Block) : Text :=
  b.body view ++ "end".toList ++ b.closing.ending.write view

def write (view : View) (b : Block) : Text :=
  b.opening.before view ++ b.header view ++ b.remainder view

def ownItems (b : Block) : List Item :=
  (b.calls.filter (·.receiver.text == b.receiver.text)).map Call.item

/-- The table that a block declares. Columns of timestamps come last. -/
def table (b : Block) : Table where
  name := b.name.text
  columns := keyColumns b.options ++ b.ownItems.flatMap Item.columns ++
    if b.ownItems.any Item.isTimestamps then
      [⟨"created_at".toList, "datetime".toList, false⟩,
        ⟨"updated_at".toList, "datetime".toList, false⟩]
    else []

end Block

/-- A table of which the line that closes it can be missing. -/
structure Piece where
  block : Block
  isClosed : Bool

namespace Piece

def close (view : View) (p : Piece) : Text :=
  if p.isClosed then
    p.block.closing.before view ++ "end".toList ++ p.block.closing.ending.write view
  else []

def remainder (view : View) (p : Piece) : Text :=
  p.block.opening.ending.write view ++ p.block.calls.flatMap (Call.write view) ++ p.close view

def write (view : View) (p : Piece) : Text :=
  p.block.opening.before view ++ p.block.header view ++ p.remainder view

end Piece

structure Frame where
  opening : Margin
  version : Digits
  closing : Margin

structure Script where
  frame : Option Frame := none
  blocks : List Block
  after : List Aside := []

namespace Frame

def openingLine (view : View) (f : Frame) : Text :=
  f.opening.before view ++ ("ActiveRecord::Schema[7.1].define(version: ".toList ++ f.version.text ++
    ") do".toList) ++ f.opening.ending.write view

def closingLine (view : View) (f : Frame) : Text :=
  f.closing.before view ++ "end".toList ++ f.closing.ending.write view

end Frame

namespace Script

def top (view : View) (s : Script) : Text := s.frame.elim [] (Frame.openingLine view)

def bottom (view : View) (s : Script) : Text :=
  s.frame.elim [] (Frame.closingLine view) ++ s.after.flatMap (Aside.write view)

def write (view : View) (s : Script) : Text :=
  s.top view ++ s.blocks.flatMap (Block.write view) ++ s.bottom view

def text (s : Script) : Text := s.write .whole

def tables (s : Script) : List Table := s.blocks.map Block.table

end Script

/-! ### Names that look like the opening of a table -/

def isOpening (t : Text) : Bool := (afterAll? "create_table" t).any fun rest => openBracket rest == []

/-- A quotation ends in what opens a table, so that its closing mark is read as the opening mark of a
table's name. -/
def opensTable : Text → Bool
  | [] => false
  | c :: cs => isOpening (c :: cs) || opensTable cs

def Block.bodyQuotations (b : Block) : List Text := b.calls.flatMap fun c => quotations c.item.tokens

/-- The first quotation in some tables stands in the line that opens one of them. -/
def headerQuotesFirst : List Block → Bool
  | [] => false
  | b :: bs =>
    !(quotations b.headTokens).isEmpty || (b.bodyQuotations.isEmpty && headerQuotesFirst bs)

/-- The last quotation of some body ends in what opens a table, and the next one stands in the line
that opens a table: the text from the one to the other is read as the name of a table. -/
def namesSwallowHeader : List Block → Bool
  | [] => false
  | b :: bs =>
    (b.bodyQuotations.getLast?.any opensTable && headerQuotesFirst bs) || namesSwallowHeader bs

end RecordMap.Schema.Written
