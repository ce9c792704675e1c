import RecordMap.Schema.Basic
import RecordMap.Text.Pattern

/-! The columns that a declaration `CREATE TABLE NAME (COLUMN, …)` lists. -/

namespace RecordMap.Schema.Declaration

inductive Lexeme where
  | word (w : Text)
  | quoted (name : Text)
  | mark (c : Char)
  | comment
deriving DecidableEq, Repr

/-- Letters and digits of ASCII, the underscore, the dollar sign and all that is not ASCII. -/
def isNameChar (c : Char) : Bool := 128 ≤ c.toNat || c.isAlphanum || c == '_' || c == '$'

def isBlank (c : Char) : Bool := [' ', '\t', '\n', '\x0c', '\r'].contains c

def closingMark? (c : Char) : Option Char :=
  if c = '"' ∨ c = '\'' ∨ c = '\x60' then some c else if c = '[' then some ']' else none

/-- A quoted name behind its opening mark. A mark that is written twice stands for itself, but a
bracket always closes. -/
def quotedName? (mark : Char) : Text → Option (Text × Text)
  | [] => none
  | c :: cs =>
    if c = mark then
      match cs with
      | [] => some ([], [])
      | d :: ds =>
        if d = mark ∧ mark ≠ ']' then
          (quotedName? mark ds).map fun (name, rest) => (mark :: name, rest)
        else some ([], d :: ds)
    else (quotedName? mark cs).map fun (name, rest) => (c :: name, rest)

/-- The rest behind the end of a comment, which can be missing. -/
def afterComment : Text → Text
  | [] => []
  | c :: cs =>
    match c, Text.after? '/' cs with
    | '*', some rest => rest
    | _, _ => afterComment cs

def lexeme : Pattern Lexeme
  | _, [] => none
  | _, c :: cs =>
    if isBlank c then none
    else if isNameChar c then
      some (.word ((c :: cs).takeWhile isNameChar), (c :: cs).dropWhile isNameChar)
    else if c = '-' ∧ cs.head? = some '-' then some (.comment, cs.dropWhile (· ≠ '\n'))
    else if c = '/' ∧ cs.head? = some '*' then some (.comment, afterComment (cs.drop 1))
    else match closingMark? c with
      | some mark => (quotedName? mark cs).map fun (name, rest) => (.quoted name, rest)
      | none => some (.mark c, cs)

abbrev Part := List (Found Lexeme)

/-! ### Words -/

def Lexeme.isWord (w : String) : Lexeme → Bool
  | word v => v.map Char.toUpper == w.toList
  | _ => false

def hasWords (v w : String) : List Lexeme → Bool
  | l :: m :: ls => (l.isWord v && m.isWord w) || hasWords v w (m :: ls)
  | _ => false

def constraintWords : List String :=
  ["CONSTRAINT", "PRIMARY", "NOT", "NULL", "UNIQUE", "CHECK", "DEFAULT", "COLLATE", "REFERENCES",
    "GENERATED", "AS", "FOREIGN"]

def Lexeme.name? : Lexeme → Option Text
  | word w => if constraintWords.any fun v => (word w).isWord v then none else some w
  | quoted name => some name
  | _ => none

/-! ### Brackets -/

def consFirst (l : Found Lexeme) : Part × Part → Part × Part
  | (inside, behind) => (l :: inside, behind)

/-- What stands before the bracket that closes, and what stands behind it. -/
def splitClosing (depth : Nat) : Part → Part × Part
  | [] => ([], [])
  | l :: ls =>
    if l.value = .mark '(' then consFirst l (splitClosing (depth + 1) ls)
    else if l.value = .mark ')' then
      match depth with
      | 0 => ([], ls)
      | depth + 1 => consFirst l (splitClosing depth ls)
    else consFirst l (splitClosing depth ls)

def brackets (p : Part) : Part × Part :=
  splitClosing 0 ((p.dropWhile (·.value ≠ .mark '(')).drop 1)

def consPart (l : Found Lexeme) : List Part → List Part
  | [] => [[l]]
  | p :: ps => (l :: p) :: ps

/-- The parts between the commas that stand in no brackets. -/
def parts (depth : Nat) : Part → List Part
  | [] => [[]]
  | l :: ls =>
    if l.value = .mark '(' then consPart l (parts (depth + 1) ls)
    else if l.value = .mark ')' then consPart l (parts (depth - 1) ls)
    else if l.value = .mark ',' ∧ depth = 0 then [] :: parts 0 ls
    else consPart l (parts depth ls)

def outside (depth : Nat) : Part → List Lexeme
  | [] => []
  | l :: ls =>
    if l.value = .mark '(' then outside (depth + 1) ls
    else if l.value = .mark ')' then outside (depth - 1) ls
    else if depth = 0 then l.value :: outside depth ls
    else outside depth ls

/-! ### Columns -/

/-- The type at the beginning of a part, as it is written in the declaration. Brackets can follow
its words. -/
def typeOf (declaration : Text) (p : Part) : Text :=
  let rest := p.dropWhile (·.value.name?.isSome)
  let closing := if rest.head?.any (·.value == .mark '(') then rest.find? (·.value == .mark ')')
    else none
  match p.takeWhile (·.value.name?.isSome) with
  | [] => []
  | first :: more => declaration.slice first.start (closing.getD (more.getLastD first)).stop

/-- The column that a part declares, if it does not begin with a word for a constraint. -/
def column? (declaration : Text) (p : Part) : Option Column :=
  (p.head?.bind (·.value.name?)).map fun name => {
    name
    type := typeOf declaration (p.drop 1)
    nullable := !hasWords "NOT" "NULL" (outside 0 p) }

/-- The names of the columns that a part makes the primary key: its own column, or those that stand
in its brackets. -/
def keyNames (p : Part) : List Text :=
  if hasWords "PRIMARY" "KEY" (outside 0 p) then
    match p.head?.bind (·.value.name?) with
    | some name => [name]
    | none => (parts 0 (brackets p).1).filterMap fun q => q.head?.bind (·.value.name?)
  else []

/-- Rows without numbers are found by their primary key, no part of which can be null. -/
def columns (declaration : Text) : List Column :=
  let (inside, behind) := brackets ((lexeme.all declaration).filter (·.value ≠ .comment))
  let hasNoNumbers := hasWords "WITHOUT" "ROWID" (behind.map (·.value))
  let keys := ((parts 0 inside).flatMap keyNames).map fun name => name.map Char.toLower
  ((parts 0 inside).filterMap (column? declaration)).map fun c =>
    { c with
      nullable := c.nullable && !(hasNoNumbers && keys.contains (c.name.map Char.toLower)) }

end RecordMap.Schema.Declaration
