import RecordMap.Text.Pattern

/-! Comments in Ruby source text. A string is read as a whole, so that a `#` in it opens no
comment. -/

namespace RecordMap.Source

inductive Lexeme where
  | comment
  | string
deriving DecidableEq, Repr

/-- The rest behind the mark that closes a string. A backslash takes the next character with it if
`escapes` admits that character. -/
def afterQuote? (mark : Char) (escapes : Char → Bool) : Text → Option Text
  | [] => none
  | c :: cs =>
    if c = mark then some cs
    else if c = '\\' then
      match cs with
      | [] => none
      | d :: ds => if escapes d then afterQuote? mark escapes ds else none
    else afterQuote? mark escapes cs

def afterBlockEnd? : Text → Option Text
  | [] => none
  | c :: cs =>
    if c = '\n' then
      match Text.afterAll? "=end" cs with
      | some rest => some rest
      | none => afterBlockEnd? cs
    else afterBlockEnd? cs

def startsLine (before : Option Char) : Bool := before.all (· == '\n')

/-- A comment up to the end of its line or from `=begin` to `=end`, or a string in single or double
marks. A mark that is not closed is no string. -/
def lexeme : Pattern Lexeme
  | _, [] => none
  | before, c :: cs =>
    if c = '#' then some (.comment, cs.dropWhile (· ≠ '\n'))
    else if c = '=' then
      if startsLine before then
        ((Text.afterAll? "begin" cs).bind afterBlockEnd?).map (.comment, ·)
      else none
    else if c = '\'' ∨ c = '"' then (afterQuote? c (fun _ => true) cs).map (.string, ·)
    else none

def blankLines (t : Text) : Text := t.map fun c => if c = '\n' then c else ' '

/-- The text with its comments blanked. Every other character keeps its position. -/
def blankComments (t : Text) : Text :=
  lexeme.replaceAll (fun | .comment, s => blankLines s | .string, s => s) t

/-- A string within which no backslash stands before a line feed, or a symbol. -/
def literal : Pattern Unit
  | _, [] => none
  | before, c :: cs =>
    if c = '\'' ∨ c = '"' then (afterQuote? c (· ≠ '\n') cs).map ((), ·)
    else if c = ':' ∧ before ≠ some ':' then (Text.word? cs).map fun (_, rest) => ((), rest)
    else none

def blank (t : Text) : Text := t.map fun _ => ' '

def blankLiterals (t : Text) : Text := literal.replaceAll (fun _ s => blank s) t

end RecordMap.Source
