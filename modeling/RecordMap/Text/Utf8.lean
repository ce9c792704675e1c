import RecordMap.Text.Basic

/-! Reading bytes as UTF-8, one after the other. A damaged part is read as a replacement
character. -/

namespace RecordMap.Text.Utf8

/-- Stands for bytes that are no part of a character. -/
def replacement : Char := '\uFFFD'

/-- The beginning of a character. The next byte lies between two bounds, and `more` follow it. -/
structure Pending where
  code : Nat
  more : Nat
  low : Nat := 0x80
  high : Nat := 0xBF
deriving DecidableEq, Repr

/-- What the first byte of a character makes known: the whole character, or the beginning of it. -/
def first (b : Nat) : Text × Option Pending :=
  if b < 0x80 then ([Char.ofNat b], none)
  else if b < 0xC2 then ([replacement], none)
  else if b < 0xE0 then ([], some { code := b - 0xC0, more := 0 })
  else if b < 0xF0 then
    ([], some ⟨b - 0xE0, 1, if b = 0xE0 then 0xA0 else 0x80, if b = 0xED then 0x9F else 0xBF⟩)
  else if b < 0xF5 then
    ([], some ⟨b - 0xF0, 2, if b = 0xF0 then 0x90 else 0x80, if b = 0xF4 then 0x8F else 0xBF⟩)
  else ([replacement], none)

/-- Reads a byte. One that cannot go on with what is pending begins anew. -/
def next : Option Pending → Nat → Text × Option Pending
  | none, b => first b
  | some p, b =>
    if p.low ≤ b ∧ b ≤ p.high then
      let code := 64 * p.code + (b - 0x80)
      if p.more = 0 then ([Char.ofNat code], none)
      else ([], some { code, more := p.more - 1 })
    else (replacement :: (first b).1, (first b).2)

def run : Option Pending → List UInt8 → Text × Option Pending
  | pending, [] => ([], pending)
  | pending, b :: bs =>
    ((next pending b.toNat).1 ++ (run (next pending b.toNat).2 bs).1,
      (run (next pending b.toNat).2 bs).2)

def last : Option Pending → Text
  | none => []
  | some _ => [replacement]

def decode (bytes : List UInt8) : Text := (run none bytes).1 ++ last (run none bytes).2

end RecordMap.Text.Utf8
