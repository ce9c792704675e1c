import RecordMap.Text.Basic
import RecordMap.Text.Character
import RecordMap.Text.Table.CaseContext
import RecordMap.Text.Table.CaseMapping

/-! Lower-case and upper-case forms of a text, in which one character may become several. -/

namespace RecordMap.Text

/-- The shift of the first run that holds a code point. -/
def shiftOf (runs : List Table.CaseRun) (code : Nat) : Int :=
  match runs.find? fun r => r.low ≤ code && code ≤ r.high && (code - r.low) % r.step == 0 with
  | some r => r.shift
  | none => 0

def lowerChar (c : Char) : Text :=
  if c.toNat < 128 then [c.toLower]
  else if c.toNat = 304 then ['i', Char.ofNat 775]
  else [Char.ofNat (c.toNat + shiftOf Table.lowercaseRuns c.toNat).toNat]

def upperChar (c : Char) : Text :=
  if c.toNat < 128 then [c.toUpper]
  else match Table.uppercaseExpansions.lookup c.toNat with
    | some codes => codes.map Char.ofNat
    | none => [Char.ofNat (c.toNat + shiftOf Table.uppercaseRuns c.toNat).toNat]

/-- The nearest character that is not case-ignorable is cased. -/
def meetsCased (t : Text) : Bool :=
  match t.dropWhile fun c => inRanges Table.caseIgnorable c.toNat with
  | c :: _ => inRanges Table.cased c.toNat
  | [] => false

/-- Lower-cases a text behind `before`, which is reversed. A capital sigma is final where a cased
character comes before it and none after it. -/
def lowerAfter (before : Text) : Text → Text
  | [] => []
  | c :: cs =>
    let form :=
      if c = 'Σ' then [if meetsCased before && !meetsCased cs then 'ς' else 'σ'] else lowerChar c
    form ++ lowerAfter (c :: before) cs

def lower (t : Text) : Text := lowerAfter [] t

def upper (t : Text) : Text := t.flatMap upperChar

end RecordMap.Text
