import RecordMap.Schema.Address.Scheme
import RecordMap.Schema.Connection
import RecordMap.Text.Case

/-! What an address asks for: the database that it names, and how that is to be opened. -/

namespace RecordMap.Schema

structure Request where
  address : Address
  name : Text
  /-- A name that begins with `file:` has options of its own. -/
  isUri : Bool
  detectTypes : Option Int := none
  cachedStatements : Option Int := none
  hasSeveralIsolations : Bool := false

namespace Request

/-! ### Options -/

def truthWords : List (Text × Bool) :=
  [("true", true), ("yes", true), ("on", true), ("y", true), ("t", true), ("1", true),
    ("false", false), ("no", false), ("off", false), ("n", false), ("f", false), ("0", false)].map
    fun (word, b) => (word.toList, b)

/-- A truth value, which is false if none is given. Several values count as true. -/
def readTruth : Option (List Text) → Except (Failure AddressFault) Bool
  | none => .ok false
  | some [value] =>
    let word := (Text.trim Text.isBlank value).lower
    match truthWords.lookup word with
    | some b => .ok b
    | none => .error (.cause (.badTruth word))
  | some _ => .ok true

def readNumber : Option (List Text) → Except (Failure AddressFault) Unit
  | none => .ok ()
  | some [value] => if Text.isNumber value then .ok () else .error (.cause (.badNumber value))
  | some _ => .error (.interrupted .repeatedNumber)

def readInteger : Option (List Text) → Except (Failure AddressFault) (Option Int)
  | none => .ok none
  | some [value] =>
    match Text.integer value with
    | .ok i => .ok (some i)
    | .error fault => .error (.cause (.badInteger fault))
  | some _ => .error (.interrupted .repeatedNumber)

/-! ### Names -/

def openingOptions : List String :=
  ["uri", "timeout", "isolation_level", "detect_types", "check_same_thread", "cached_statements"]

def writeValues : List Text → Text
  | [value] => value
  | values => '(' :: (", ".toList).intercalate (values.map Text.quoted) ++ [')']

/-- The name with the options that do not decide how it is opened, in the order of their keys. -/
def uriName (a : Address) (name : Text) : Text :=
  match (a.dropOptions openingOptions).options with
  | [] => name
  | options =>
    name ++ '?' :: ['&'].intercalate
      ((options.mergeSort fun a b => a.1.precedes b.1).map
        fun (key, values) => key ++ '=' :: writeValues values)

def nameOf (a : Address) (isUri : Bool) : Except (Failure AddressFault) Text :=
  match a.database, isUri with
  | some name, true => .ok (uriName a name)
  | none, true => .error (.interrupted .noDatabaseName)
  | some name, false => .ok name
  | none, false => .ok []

def namesHost (a : Address) : Bool :=
  [a.user, a.password, a.host].any (·.any (!·.isEmpty)) || a.hostNumber.any (· != 0)

def ofAddress (a : Address) : Except (Failure AddressFault) Request := do
  if let some (name :: _) := a.option? "plugin" then
    throw (.cause (.unknownExtension name))
  let address := a.dropOptions ["plugin", "plugins"]
  Scheme.check address.scheme
  if namesHost address then
    throw (.cause (.hasHost address))
  let isUri ← readTruth (address.option? "uri")
  readNumber (address.option? "timeout")
  let detectTypes ← readInteger (address.option? "detect_types")
  let _ ← readTruth (address.option? "check_same_thread")
  let cachedStatements ← readInteger (address.option? "cached_statements")
  let name ← nameOf address isUri
  return {
    address, name, isUri, detectTypes, cachedStatements
    hasSeveralIsolations := (address.option? "isolation_level").any (1 < ·.length) }

/-! ### Connections -/

def fitsWord (i : Int) : Bool := -2147483648 ≤ i && i ≤ 2147483647

/-- A plain name is the text of a path, a `file:` name is read further. -/
def connection (r : Request) (here : List Text) : Except (Failure DatabaseFault) Connection :=
  if !r.detectTypes.all fitsWord then .error (.interrupted .numberOutOfRange)
  else if r.hasSeveralIsolations then .error (.interrupted .repeatedIsolation)
  else if !r.cachedStatements.all fitsWord then .error (.interrupted .numberOutOfRange)
  else if Files.Path.hasNull r.name then .error (.interrupted .nullInPath)
  else
    match r.isUri, Text.afterAll? "file:" r.name with
    | true, some rest => Connection.ofFileName rest
    | true, none => .ok (.ofName r.name true)
    | false, _ => .ok (.ofPath here r.name)

end Request

end RecordMap.Schema
