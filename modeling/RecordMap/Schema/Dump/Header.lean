import RecordMap.Schema.Basic
import RecordMap.Text.Pattern

/-! The line that opens a table in a schema dump, and the primary key that its options declare. -/

namespace RecordMap.Schema.Dump

open Text

def openBracket (t : Text) : Text :=
  let t := dropBlanks t
  dropBlanks ((after? '(' t).getD t)

def isQuote (c : Char) : Bool := c == '"' || c == '\''

/-- A name as a symbol or in quotation marks, and the rest. Either mark closes a quoted name. -/
def name? : Text → Option (Text × Text)
  | [] => none
  | c :: cs =>
    if c = ':' then word? cs
    else if isQuote c then
      match cs.takeWhile (!isQuote ·), cs.dropWhile (!isQuote ·) with
      | [], _ | _, [] => none
      | name, _ :: rest => some (name, rest)
    else none

structure Header where
  name : Text
  options : Text
  /-- The variable of the block, on which the columns are declared. -/
  receiver : Text
deriving DecidableEq, Repr

/-- The start of a block, `do |t|`, behind blanks, and the name of its variable. A closing bracket
may come first. -/
def blockStart? (t : Text) : Option (Text × Text) := do
  let spaced := (after? ')' t).getD t
  let t ← afterAll? "do" (dropBlanks spaced)
  if (spaced.head?.any isBlank) then
    let t ← after? '|' (dropBlanks t)
    let (name, t) ← word? t
    let t ← after? '|' t
    some (name, t)
  else none

/-- The shortest text in this line that is followed by the start of a block. -/
def optionsAndBlock? : Text → Option (Text × Text × Text)
  | [] => none
  | c :: cs =>
    match blockStart? (c :: cs) with
    | some (name, rest) => some ([], name, rest)
    | none =>
      if c = '\n' then none
      else (optionsAndBlock? cs).map fun (options, name, rest) => (c :: options, name, rest)

/-- A call `create_table NAME OPTIONS do |t|`. -/
def header : Pattern Header := fun _ t => do
  let t ← afterAll? "create_table" t
  let (name, t) ← name? (openBracket t)
  let (options, receiver, t) ← optionsAndBlock? t
  some (⟨name, options, receiver⟩, t)

/-- An option `NAME: VALUE`, of which `value` reads what follows the blanks behind the colon. -/
def option {α : Type} (name : String) (value : Text → Option (α × Text)) : Pattern α :=
  fun _ t => do
    let t ← afterAll? name t
    let t ← after? ':' t
    value (dropBlanks t)

/-- The same where no word continues from the character before. -/
def wholeOption {α : Type} (name : String) (value : Text → Option (α × Text)) : Pattern α :=
  fun before t => if startsWord before then option name value before t else none

def symbol? (t : Text) : Option (Text × Text) := (after? ':' t).bind word?

def hasNoKey (options : Text) : Bool :=
  (wholeOption "id" fun t => (afterAll? "false" t).map ((), ·)).occursIn options

/-- The columns that the options of a table declare: a `bigint` named `id` unless they say
otherwise. -/
def keyColumns (options : Text) : List Column :=
  if hasNoKey options then []
  else [{
    name := ((option "primary_key" name?).first? options).getD "id".toList
    type := ((wholeOption "id" symbol?).first? options).getD "bigint".toList
    nullable := false }]

end RecordMap.Schema.Dump
