import RecordMap.Naming.Words

/-! English plurals by the endings of words. The first rule whose ending fits decides. -/

namespace RecordMap.Naming

inductive Slot where
  /-- A letter in either case. -/
  | letter (small : Char)
  | oneOf (options : List Char)
  /-- Any character that is none of these letters in either case. -/
  | noneOf (small : List Char)
deriving DecidableEq, Repr

/-- Two characters are the same letter if their lower-case forms begin alike. The dotless i and the
long s have lower-case forms of their own and count as i and s. -/
def sameLetter (small c : Char) : Bool :=
  (Text.lowerChar c).head? == some small || (small == 'i' && c == 'ı') || (small == 's' && c == 'ſ')

def Slot.admits : Slot → Char → Bool
  | .letter small, c => sameLetter small c
  | .oneOf options, c => c ∈ options
  | .noneOf small, c => small.all fun s => !sameLetter s c

/-- A rule replaces an ending, of which it keeps the first characters. -/
structure Rule where
  ending : List Slot
  keep : Nat
  tail : Text
  whole : Bool := false
deriving DecidableEq, Repr

namespace Rule

def fits (r : Rule) (word : Text) : Bool :=
  let cut := word.length - r.ending.length
  r.ending.length ≤ word.length && (!r.whole || cut == 0) &&
    (r.ending.zip (word.drop cut)).all fun (slot, c) => slot.admits c

def apply (r : Rule) (word : Text) : Text :=
  word.take (word.length - r.ending.length + r.keep) ++ r.tail

end Rule

def rule (ending : String) (keep : Nat) (tail : String) : Rule :=
  ⟨ending.toList.map .letter, keep, tail.toList, false⟩

def wholeWordRule (ending : String) (keep : Nat) (tail : String) : Rule :=
  ⟨ending.toList.map .letter, keep, tail.toList, true⟩

/-- A rule whose first letter must have the given case, and whose other letters are plain. -/
def casedRule (first : Char) (others : String) (tail : String) : Rule :=
  ⟨.oneOf [first] :: others.toList.map fun c => .oneOf [c, c.toUpper], 0, tail.toList, false⟩

def rules : List Rule := [
  rule "zombies" 1 "ombies", rule "zombie" 1 "ombies",
  casedRule 'k' "ine" "kine", casedRule 'K' "ine" "Kine",
  casedRule 'c' "ow" "kine", casedRule 'C' "ow" "Kine",
  rule "moves" 1 "oves", rule "move" 1 "oves",
  rule "sexes" 1 "exes", rule "sex" 1 "exes",
  rule "children" 1 "hildren", rule "child" 1 "hildren",
  rule "humans" 1 "umans", rule "human" 1 "umans",
  rule "men" 1 "en", rule "man" 1 "en",
  rule "people" 1 "eople", rule "person" 1 "eople",
  rule "quiz" 4 "zes",
  wholeWordRule "oxen" 4 "", wholeWordRule "ox" 2 "en",
  rule "mice" 1 "ice", rule "lice" 1 "ice",
  rule "mouse" 1 "ice", rule "louse" 1 "ice",
  rule "passersby" 6 "sby", rule "passerby" 6 "sby",
  rule "matrix" 4 "ices", rule "matrex" 4 "ices",
  rule "vertix" 4 "ices", rule "vertex" 4 "ices",
  rule "indix" 3 "ices", rule "index" 3 "ices",
  rule "x" 1 "es", rule "ch" 2 "es", rule "ss" 2 "es", rule "sh" 2 "es",
  ⟨[.noneOf ['a', 'e', 'i', 'o', 'u', 'y'], .letter 'y'], 1, ['i', 'e', 's'], false⟩,
  rule "quy" 2 "ies",
  rule "hive" 4 "s",
  rule "lf" 1 "ves", rule "rf" 1 "ves",
  ⟨[.noneOf ['f'], .letter 'f', .letter 'e'], 1, ['v', 'e', 's'], false⟩,
  rule "sis" 0 "ses",
  rule "ta" 1 "a", rule "ia" 1 "a",
  rule "tum" 1 "a", rule "ium" 1 "a",
  rule "buffalo" 6 "oes", rule "potato" 5 "oes", rule "tomato" 5 "oes",
  rule "bus" 2 "ses",
  rule "alias" 5 "es", rule "status" 6 "es",
  rule "octopi" 5 "i", rule "viri" 3 "i",
  rule "octopus" 5 "i", rule "virus" 3 "i",
  wholeWordRule "axis" 2 "es", wholeWordRule "testis" 4 "es",
  rule "s" 0 "s"]

def uncountable : List Text :=
  ["equipment", "fish", "information", "jeans", "money", "rice", "series", "sheep", "species"].map
    String.toList

def splitLastNewline (word : Text) : Text × Text :=
  if word.getLast? = some '\n' then (word.dropLast, ['\n']) else (word, [])

/-- The plural of a word. Endings are sought before a last line feed. A word that no rule fits takes
an `s`, and where a line feed ends it one more behind that. -/
def plural (word : Text) : Text :=
  if word = [] ∨ uncountable.contains (Text.lower word) then word
  else
    let (stem, newline) := splitLastNewline word
    match rules.find? (·.fits stem) with
    | some r => r.apply stem ++ newline
    | none => stem ++ 's' :: (if newline = [] then [] else ['\n', 's'])

def tableOf (word : Text) : Text := plural (snakeCase word)

end RecordMap.Naming
