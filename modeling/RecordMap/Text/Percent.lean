import RecordMap.Text.Quoted
import RecordMap.Text.Utf8

/-! Percent coding: a byte of a text's UTF-8 form is written as `%` and two hexadecimal digits. -/

namespace RecordMap.Text

def hexValue? (c : Char) : Option Nat :=
  if 48 ≤ c.toNat ∧ c.toNat ≤ 57 then some (c.toNat - 48)
  else if 65 ≤ c.toNat ∧ c.toNat ≤ 70 then some (c.toNat - 55)
  else if 97 ≤ c.toNat ∧ c.toNat ≤ 102 then some (c.toNat - 87)
  else none

/-- The characters that are never coded: ASCII letters, digits and four marks. -/
def isUnreserved (c : Char) : Bool :=
  c.isAlphanum || c == '_' || c == '.' || c == '-' || c == '~'

def codedByte (b : UInt8) : Text := '%' :: (hexDigits 2 b.toNat).map Char.toUpper

/-- Codes the characters that are neither unreserved nor among those kept. -/
def percentEncode (kept t : Text) : Text :=
  t.flatMap fun c =>
    if isUnreserved c || kept.contains c then [c] else (String.utf8EncodeChar c).flatMap codedByte

/-- The bytes of a coded text. A `%` without two digits stands for itself. -/
def percentBytes : Text → List UInt8
  | [] => []
  | '%' :: h :: l :: cs =>
    match hexValue? h, hexValue? l with
    | some m, some n => (16 * m + n).toUInt8 :: percentBytes cs
    | _, _ => String.utf8EncodeChar '%' ++ percentBytes (h :: l :: cs)
  | c :: cs => String.utf8EncodeChar c ++ percentBytes cs

/-- Reads a coded text. What is damaged in its bytes is read as a replacement character. -/
def percentDecode (t : Text) : Text := Utf8.decode (percentBytes t)

end RecordMap.Text
