import RecordMap.Text.Quoted

/-! Numerals: decimal digits of any script, with a sign before them and single underscores between
them. -/

namespace RecordMap.Text

def decimal (n : Nat) : Text := Nat.toDigits 10 n

def signedDecimal (i : Int) : Text :=
  if i < 0 then '-' :: decimal i.natAbs else decimal i.natAbs

/-- The value of a digit. The digits of a script are ten neighbours, and a range holds whole
scripts. -/
def digitValue? (c : Char) : Option Nat :=
  if c.toNat < 128 then if c.isDigit then some (c.toNat - 48) else none
  else (Table.decimal.find? fun (low, high) => low ≤ c.toNat && c.toNat ≤ high).map
    fun (low, _) => (c.toNat - low) % 10

/-- White space that may stand around a numeral. The separators of ASCII may not. -/
def isNumeralBlank (c : Char) : Bool :=
  if c.toNat < 128 then c == ' ' || (9 ≤ c.toNat && c.toNat ≤ 13) else isBlank c

/-- What stands between the blanks, with the digits of every script written as those of ASCII. -/
def numeral (t : Text) : Text :=
  (trim isNumeralBlank t).map fun c => (digitValue? c).elim c Nat.digitChar

/-- Drops the underscores, of which each has to stand between two digits. -/
def joinDigits? (afterDigit : Bool) : Text → Option Text
  | [] => some []
  | c :: cs =>
    if c = '_' then
      if afterDigit && cs.head?.any Char.isDigit then joinDigits? false cs else none
    else (joinDigits? c.isDigit cs).map (c :: ·)

def splitSign : Text → Bool × Text
  | '-' :: cs => (true, cs)
  | '+' :: cs => (false, cs)
  | cs => (false, cs)

def isDigits (t : Text) : Bool := !t.isEmpty && t.all Char.isDigit

def digitsValue (digits : Text) : Nat := digits.foldl (fun n c => 10 * n + (c.toNat - 48)) 0

inductive IntegerFault where
  | malformed (t : Text)
  | tooManyDigits (count : Nat)
deriving DecidableEq, Repr

def maxDigits : Nat := 4300

namespace IntegerFault

/-- A long text is shown in part. -/
def message : IntegerFault → Text
  | malformed t => "invalid literal for int() with base 10: ".toList ++ t.quoted.take 200
  | tooManyDigits count =>
    "Exceeds the limit (".toList ++ decimal maxDigits ++
      " digits) for integer string conversion: value has ".toList ++ decimal count ++
      " digits; use sys.set_int_max_str_digits() to increase the limit".toList

end IntegerFault

def integer (t : Text) : Except IntegerFault Int :=
  match (joinDigits? false (numeral t)).map splitSign with
  | none => .error (.malformed t)
  | some (isNegative, digits) =>
    if !isDigits digits then .error (.malformed t)
    else if maxDigits < digits.length then .error (.tooManyDigits digits.length)
    else if isNegative then .ok (-digitsValue digits)
    else .ok (digitsValue digits)

def isExponent : Text → Bool
  | [] => true
  | c :: cs => (c == 'e' || c == 'E') && isDigits (splitSign cs).2

/-- Digits with or without a fraction and an exponent. A digit stands before or behind the point. -/
def isPositional (t : Text) : Bool :=
  let whole := t.takeWhile Char.isDigit
  match t.dropWhile Char.isDigit with
  | '.' :: cs =>
    !(whole.isEmpty && (cs.takeWhile Char.isDigit).isEmpty) &&
      isExponent (cs.dropWhile Char.isDigit)
  | cs => !whole.isEmpty && isExponent cs

/-- Names of what is no number of the usual kind. -/
def exceptionalNumbers : List Text := ["inf".toList, "infinity".toList, "nan".toList]

def isNumber (t : Text) : Bool :=
  match (joinDigits? false (numeral t)).map splitSign with
  | none => false
  | some (_, t) => isPositional t || exceptionalNumbers.contains (t.map Char.toLower)

end RecordMap.Text
