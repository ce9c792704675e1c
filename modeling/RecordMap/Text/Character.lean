import RecordMap.Text.Basic
import RecordMap.Text.Table.Alphanumeric
import RecordMap.Text.Table.Decimal
import RecordMap.Text.Table.Printable

/-! The classes of characters that the text patterns distinguish. -/

namespace RecordMap.Text

def inRanges (ranges : List (Nat × Nat)) (code : Nat) : Bool :=
  ranges.any fun (low, high) => low ≤ code && code ≤ high

/-- White space: the separators, and the control characters that divide lines and fields. -/
def isBlank (c : Char) : Bool :=
  inRanges [(9, 13), (28, 32), (133, 133), (160, 160), (5760, 5760), (8192, 8202), (8232, 8233),
    (8239, 8239), (8287, 8287), (12288, 12288)] c.toNat

/-- Letters, numbers and the underscore: the characters that words are made of. -/
def isWordChar (c : Char) : Bool :=
  if c.toNat < 128 then c.isAlphanum || c == '_' else inRanges Table.alphanumeric c.toNat

def isDecimal (c : Char) : Bool :=
  if c.toNat < 128 then c.isDigit else inRanges Table.decimal c.toNat

def isPrintable (c : Char) : Bool :=
  if c.toNat < 128 then 32 ≤ c.toNat && c.toNat < 127 else inRanges Table.printable c.toNat

end RecordMap.Text
