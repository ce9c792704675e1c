import RecordMap.Proofs.Dump.Headers

/-! Schema dumps in which tables and columns carry texts, as comments and as default values, and the
texts in which a reader of dumps finds nothing. -/

namespace RecordMap.Schema.Noted

open Written Dump Text

/-! ### Notes -/

/-- What a text is made of: anything but the marks, the backslash and the line feed, which end or break
a quotation. -/
def isContentChar (c : Char) : Bool := !(['"', '\'', '\\', '\n'].contains c)

structure Content where
  text : Text
  all_isContentChar : text.all isContentChar = true

namespace Content

def quotation (c : Content) : Text := '"' :: c.text ++ ['"']

def write (view : View) (c : Content) : Text :=
  match view with
  | .bare => spaces c.quotation.length
  | _ => c.quotation

end Content

inductive NoteKind where
  | comment
  | default
deriving DecidableEq, Repr

def NoteKind.code : NoteKind → Text
  | comment => ", comment: ".toList
  | default => ", default: ".toList

/-- An option of which the value is a text. -/
structure Note where
  kind : NoteKind
  content : Content

def Note.write (view : View) (n : Note) : Text := n.kind.code ++ n.content.write view

inductive Part (α : Type) where
  | code (a : α)
  | note (n : Note)

section

variable {α β : Type}

namespace Part

def map (f : α → β) : Part α → Part β
  | code a => code (f a)
  | note n => note n

def code? : Part α → Option α
  | code a => some a
  | note _ => none

def note? : Part α → Option Note
  | code _ => none
  | note n => some n

def write (view : View) : Part Token → Text
  | code t => t.write view
  | note n => n.write view

end Part

def withoutNotes (ps : List (Part α)) : List α := ps.filterMap Part.code?

def notes (ps : List (Part α)) : List Note := ps.filterMap Part.note?

end

def writeParts (view : View) (ps : List (Part Token)) : Text := ps.flatMap (Part.write view)

/-! ### Tables -/

inductive Head where
  | column (kind : PlainKind) (name : Name)
  | typed (name : Name) (type : Word)
  | reference (isAlias : Bool) (name : Name)

namespace Head

def item : Head → List ColumnOption → Written.Item
  | column kind name => .column kind name
  | typed name type => .typed name type
  | reference isAlias name => .reference isAlias name

def isReference : Head → Bool
  | reference .. => true
  | _ => false

end Head

inductive Item where
  | declaration (head : Head) (options : List (Part ColumnOption))
  | other (item : Written.Item)

namespace Item

def parts : Item → List (Part Token)
  | declaration head options =>
    (head.item []).tokens.map .code ++ options.map (Part.map ColumnOption.token)
  | other item => item.tokens.map .code

def withoutNotes : Item → Written.Item
  | declaration head options => head.item (Noted.withoutNotes options)
  | other item => item

end Item

structure Call where
  margin : Margin
  receiver : Variable
  item : Item

namespace Call

def write (view : View) (c : Call) : Text :=
  c.margin.before view ++ c.receiver.text ++ writeParts view c.item.parts ++ c.margin.ending.write view

def withoutNotes (c : Call) : Written.Call := ⟨c.margin, c.receiver, c.item.withoutNotes⟩

end Call

structure Block where
  opening : Margin
  name : Name
  options : List (Part TableOption)
  receiver : Variable
  calls : List Call
  closing : Margin

namespace Block

def headParts (b : Block) : List (Part Token) :=
  .code ⟨"create_table ".toList, .name b.name⟩ :: b.options.map (Part.map TableOption.token)

def header (view : View) (b : Block) : Text :=
  writeParts view b.headParts ++ " do |".toList ++ b.receiver.text ++ ['|']

def body (view : View) (b : Block) : Text :=
  b.opening.ending.write view ++ b.calls.flatMap (Call.write view) ++ b.closing.before view

def remainder (view : View) (b : Block) : Text :=
  b.body view ++ "end".toList ++ b.closing.ending.write view

def write (view : View) (b : Block) : Text :=
  b.opening.before view ++ b.header view ++ b.remainder view

def withoutNotes (b : Block) : Written.Block where
  opening := b.opening
  name := b.name
  options := Noted.withoutNotes b.options
  receiver := b.receiver
  calls := b.calls.map Call.withoutNotes
  closing := b.closing

end Block

structure Script where
  frame : Option Frame := none
  blocks : List Block
  after : List Aside := []

namespace Script

def withoutNotes (s : Script) : Written.Script := ⟨s.frame, s.blocks.map Block.withoutNotes, s.after⟩

def write (view : View) (s : Script) : Text :=
  s.withoutNotes.top view ++ s.blocks.flatMap (Block.write view) ++ s.withoutNotes.bottom view

def text (s : Script) : Text := s.write .whole

end Script

/-! ### Texts in which nothing is found -/

/-- A name. At the end of a text its closing mark is read as the opening mark of one. -/
def nameOrEnd? : Text → Option (Text × Text)
  | [] => some ([], [])
  | c :: cs => name? (c :: cs)

/-- What opens a table, up to its name. -/
def opening : Pattern Text := fun _ t =>
  (afterAll? "create_table" t).bind fun rest => nameOrEnd? (openBracket rest)

namespace Content

/-- Neither the start of a block nor an option is found in the text of a table. -/
structure InertInTable (c : Content) : Prop where
  blockStart : blockStart.occursIn c.text = false
  hasNoKey : hasNoKey c.text = false
  type : (wholeOption "id" symbol?).occursIn c.text = false
  name : (option "primary_key" nameOrEnd?).occursIn c.text = false

/-- No opening of a table, no timestamps and no option are found in the text of a column. -/
structure InertInColumn (c : Content) : Prop where
  opening : opening.occursIn c.text = false
  timestamps : timestampsCall.occursIn c.text = false
  isNotNull : isNotNull c.text = false

end Content

def Item.Inert : Item → Prop
  | declaration head options => ∀ n ∈ notes options, n.content.InertInColumn ∧
      (head.isReference = true → isPolymorphic n.content.text = false)
  | other _ => True

structure Block.Inert (b : Block) : Prop where
  options : ∀ n ∈ notes b.options, n.content.InertInTable
  items : ∀ c ∈ b.calls, c.item.Inert

/-- No text in a dump is read as anything else, and no name in a table ends in what opens one. -/
structure Script.Inert (s : Script) : Prop where
  blocks : ∀ b ∈ s.blocks, b.Inert
  names : ∀ b ∈ s.withoutNotes.blocks, ∀ q ∈ b.bodyQuotations, opensTable q = false

end RecordMap.Schema.Noted
