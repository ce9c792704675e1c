import RecordMap.Schema.Address.Basic
import RecordMap.Text.Pattern

/-! Reading the address of a database. -/

namespace RecordMap.Schema.Address

def splitScheme? (t : Text) : Option (Text × Text) :=
  let inScheme := fun c => Text.isWordChar c || c == '+'
  match t.takeWhile inScheme, Text.afterAll? "://" (t.dropWhile inScheme) with
  | [], _ | _, none => none
  | scheme, some rest => some (scheme, rest)

/-- The user, the password and what follows them. A user ends before the last `@` that comes before
any `:` and `/`. With a `:` a password follows, of any characters up to the next `@`. -/
def splitUser (t : Text) : Option Text × Option Text × Text :=
  let inName := fun c => c != ':' && c != '/'
  let name := t.takeWhile inName
  let rest := t.dropWhile inName
  let behindColon := match rest with
    | ':' :: cs => Text.splitFirst? '@' cs
    | _ => none
  match behindColon with
  | some (password, rest) => (some name, some password, rest)
  | none =>
    match Text.splitLast? '@' name with
    | some (user, host) => (some user, none, host ++ rest)
    | none => (none, none, t)

/-- The host and what follows it. Only in brackets it can hold a `:`. -/
def splitHost (t : Text) : Option Text × Text :=
  let inBrackets := fun c => c != '/' && c != '?'
  let bracketed := match t with
    | '[' :: cs => Text.splitLast? ']' (cs.takeWhile inBrackets)
    | _ => none
  match bracketed with
  | some (c :: cs, rest) => (some (c :: cs), rest ++ (t.drop 1).dropWhile inBrackets)
  | _ =>
    let inHost := fun c => c != '/' && c != '?' && c != ':'
    match t.takeWhile inHost with
    | [] => (none, t)
    | host => (some host, t.dropWhile inHost)

/-- What stands between a character and the next one that ends it, and what follows. -/
def splitPart (opening : Char) (isInside : Char → Bool) : Text → Option Text × Text
  | [] => (none, [])
  | c :: cs =>
    if c = opening then (some (cs.takeWhile isInside), cs.dropWhile isInside) else (none, c :: cs)

def decodeOption (t : Text) : Text :=
  Text.percentDecode (t.map fun c => if c = '+' then ' ' else c)

def readOption? (field : Text) : Option (Text × Text) :=
  match Text.splitFirst? '=' field with
  | some (key, c :: cs) => some (decodeOption key, decodeOption (c :: cs))
  | _ => none

def addOption (key value : Text) : List (Text × List Text) → List (Text × List Text)
  | [] => [(key, [value])]
  | (k, values) :: rest =>
    if k = key then (k, values ++ [value]) :: rest else (k, values) :: addOption key value rest

def readOptions (t : Text) : List (Text × List Text) :=
  ((t.splitAt '&').filterMap readOption?).foldl (fun options (k, v) => addOption k v options) []

/-- Reads an address. What follows its last part is left out. -/
def read (t : Text) : Except AddressFault Address :=
  match splitScheme? t with
  | none => .error .malformed
  | some (scheme, rest) =>
    let (user, password, rest) := splitUser rest
    let (host, rest) := splitHost rest
    let (number, rest) := splitPart ':' (fun c => c != '/' && c != '?') rest
    let (database, rest) := splitPart '/' (· != '?') rest
    let (options, _) := splitPart '?' (· != '\n') rest
    match number.mapM Text.integer with
    | .error fault => .error (.badInteger fault)
    | .ok hostNumber => .ok {
        scheme
        user := user.map Text.percentDecode
        password := password.map Text.percentDecode
        host
        hostNumber
        database := database.map Text.percentDecode
        options := readOptions (options.getD []) }

end RecordMap.Schema.Address
