import RecordMap.Text.Case
import RecordMap.Text.Numeral
import RecordMap.Text.Pattern

/-! Types of columns as an inspection shows them: a type is known by its name, or is taken for the
one that its name resembles. -/

namespace RecordMap.Schema.ColumnType

inductive Arguments where
  | none
  /-- A length, which zero stands for none of, and a collation. -/
  | length
  | precision
deriving DecidableEq, Repr

structure Shown where
  name : Text
  arguments : Arguments := .none
deriving DecidableEq, Repr

def known : List (Text × Shown) :=
  [("BIGINT", "BIGINT", .none), ("BLOB", "BLOB", .none), ("BOOL", "BOOLEAN", .none),
    ("BOOLEAN", "BOOLEAN", .none), ("CHAR", "CHAR", .length), ("DATE", "DATE", .none),
    ("DATE_CHAR", "DATE", .none), ("DATETIME", "DATETIME", .none),
    ("DATETIME_CHAR", "DATETIME", .none), ("DOUBLE", "DOUBLE", .none),
    ("DOUBLE_PRECISION", "DOUBLE PRECISION", .none), ("DECIMAL", "DECIMAL", .precision),
    ("FLOAT", "FLOAT", .none), ("INT", "INTEGER", .none), ("INTEGER", "INTEGER", .none),
    ("JSON", "JSON", .none), ("NUMERIC", "NUMERIC", .precision), ("REAL", "REAL", .none),
    ("SMALLINT", "SMALLINT", .none), ("TEXT", "TEXT", .length), ("TIME", "TIME", .none),
    ("TIME_CHAR", "TIME", .none), ("TIMESTAMP", "TIMESTAMP", .none),
    ("VARCHAR", "VARCHAR", .length), ("NVARCHAR", "NVARCHAR", .length)].map
    fun (name, shown, arguments) => (name.toList, ⟨shown.toList, arguments⟩)

/-- The type that a name resembles, by the first of these parts that it holds. -/
def resembled : List (String × Shown) :=
  [("INT", "INTEGER", .none), ("CHAR", "TEXT", .length), ("CLOB", "TEXT", .length),
    ("TEXT", "TEXT", .length), ("BLOB", "NULL", .none), ("REAL", "REAL", .none),
    ("FLOA", "REAL", .none), ("DOUB", "REAL", .none)].map
    fun (part, shown, arguments) => (part, ⟨(shown : String).toList, arguments⟩)

def ofName (name : Text) : Shown :=
  if name = [] then ⟨"NULL".toList, .none⟩
  else
    ((known.lookup name).orElse fun _ =>
      (resembled.find? fun (part, _) => (Pattern.verbatim part).occursIn name).map (·.2)).getD
      ⟨"NUMERIC".toList, .precision⟩

/-- What stands between brackets at the beginning of a text, which are closed in the same line. -/
def bracketed? : Text → Option Text
  | '(' :: cs => (Text.splitFirst? ')' (cs.takeWhile (· != '\n'))).map (·.1)
  | _ => none

/-- The runs of digits in a text, each written with those of ASCII and without leading zeros. -/
def numbers (t : Text) : List Text :=
  ((Text.splitAt ' ' (t.map fun c => if Text.isDecimal c then c else ' ')).filter (· ≠ [])).map
    fun digits => Text.decimal (Text.digitsValue (Text.numeral digits))

/-- Too many numbers, or any for a type that takes none, are left out. -/
def Arguments.write : Arguments → List Text → Text
  | length, [n] => if n = ['0'] then [] else '(' :: n ++ [')']
  | length, [n, collation] =>
    length.write [n] ++ if collation = ['0'] then [] else " COLLATE \"".toList ++ collation ++ ['"']
  | precision, [digits] => '(' :: digits ++ [')']
  | precision, digits :: fraction :: more =>
    if more.length ≤ 2 then '(' :: digits ++ ", ".toList ++ fraction ++ [')'] else []
  | _, _ => []

/-- A type of a declaration as it is shown. Its name ends where a character is no part of a word and
no space. -/
def shown (declared : Text) : Text :=
  let declared := declared.upper
  let inName := fun c => Text.isWordChar c || c == ' '
  let type := ofName (declared.takeWhile inName)
  let arguments := if declared.takeWhile inName = [] then none
    else bracketed? (declared.dropWhile inName)
  type.name ++ type.arguments.write ((arguments.map numbers).getD [])

end RecordMap.Schema.ColumnType
