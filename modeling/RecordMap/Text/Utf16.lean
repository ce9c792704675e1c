import RecordMap.Text.Utf8

/-! Reading bytes as UTF-16, two for each unit. -/

namespace RecordMap.Text.Utf16

/-- The units of some bytes, of which the first counts most or least. -/
def units (bigEndian : Bool) : List UInt8 → List Nat
  | b :: c :: bs =>
    (if bigEndian then 256 * b.toNat + c.toNat else b.toNat + 256 * c.toNat) :: units bigEndian bs
  | _ => []

/-- Two surrogates make up one character. One alone is read as a replacement character. -/
def decodeUnits : List Nat → Text
  | [] => []
  | [u] => [if 0xD800 ≤ u ∧ u < 0xE000 then Utf8.replacement else Char.ofNat u]
  | u :: v :: us =>
    if 0xD800 ≤ u ∧ u < 0xDC00 ∧ 0xDC00 ≤ v ∧ v < 0xE000 then
      Char.ofNat (0x10000 + 1024 * (u - 0xD800) + (v - 0xDC00)) :: decodeUnits us
    else
      (if 0xD800 ≤ u ∧ u < 0xE000 then Utf8.replacement else Char.ofNat u) :: decodeUnits (v :: us)

def decode (bigEndian : Bool) (bytes : List UInt8) : Text := decodeUnits (units bigEndian bytes)

end RecordMap.Text.Utf16
