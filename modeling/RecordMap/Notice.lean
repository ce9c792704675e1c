import RecordMap.Interruption
import RecordMap.Schema.Address.Basic
import RecordMap.Schema.Connection
import RecordMap.Settings

/-! What a scan logs, and why a schema cannot be loaded. -/

namespace RecordMap

/-- A schema source exists but cannot be used. -/
inductive LoadError where
  | unreadable (path : Text)
  | badAddress (url : Text) (fault : Schema.AddressFault)
  | inspection (url : Text) (fault : Schema.DatabaseFault)
deriving DecidableEq, Repr

namespace LoadError

def source : LoadError → Text
  | unreadable path => path
  | badAddress url _ => url
  | inspection url _ => url

def message : LoadError → Text
  | unreadable path => "Cannot read schema file ".toList ++ path
  | badAddress _ fault => "Invalid database URL: ".toList ++ fault.message
  | inspection _ fault => "Database inspection failed: ".toList ++ fault.message

/-- Further lines that explain the error stand behind the message. -/
def hasDetails : LoadError → Bool
  | unreadable _ => false
  | badAddress _ fault => fault.hasDetails
  | inspection _ _ => true

end LoadError

inductive Notice where
  | unreadableFile (path : Text) (fault : Files.Fault)
  | unreadableSchema (path : Text) (fault : Files.Fault)
  | missingConfiguredPath (path : Text)
  | unterminatedTable (table : Text) (line : Nat)
  | inspectionFailed (address : Schema.Address) (fault : Schema.DatabaseFault)
  | schemaUnavailable (cause : LoadError)
  | incompleteSource (path : Text)
deriving DecidableEq, Repr

namespace Notice

def isError : Notice → Bool
  | inspectionFailed _ _ => true
  | _ => false

/-- The first line of a record. That is where it ends if an error that it quotes has details. -/
def message : Notice → Text
  | unreadableFile path fault => "Cannot read ".toList ++ path ++ ": ".toList ++ fault.message path
  | unreadableSchema path fault =>
    "Cannot read schema file ".toList ++ path ++ ": ".toList ++ fault.message path
  | missingConfiguredPath path =>
    "Configured schema path ".toList ++ path ++ " does not exist".toList
  | unterminatedTable table line =>
    "Unterminated create_table ".toList ++ table ++ " at line ".toList ++ Text.decimal line
  | inspectionFailed address fault =>
    "Database inspection failed for ".toList ++ address.write ++ ": ".toList ++ fault.message
  | schemaUnavailable cause =>
    "Schema unavailable (".toList ++ cause.message ++
      if cause.hasDetails then [] else "), association columns not resolved".toList
  | incompleteSource path =>
    "Syntax errors in ".toList ++ path ++ ", results may be incomplete".toList

end Notice

/-- Everything that a result can depend on. -/
structure World where
  disk : Files.Disk := {}
  settings : Settings := {}
deriving Inhabited

/-- The result of an action, with the world it leaves and what it logs. -/
structure Outcome (α : Type) where
  world : World
  value : α
  notices : List Notice := []

namespace Outcome

def andThen {α β : Type} (o : Outcome α) (next : World → α → Outcome β) : Outcome β :=
  let o' := next o.world o.value
  ⟨o'.world, o'.value, o.notices ++ o'.notices⟩

def map {α β : Type} (f : α → β) (o : Outcome α) : Outcome β := ⟨o.world, f o.value, o.notices⟩

end Outcome

/-- An action on a schema source: it gives a value or fails. -/
abbrev Attempt (α : Type) := Outcome (Except (Failure LoadError) α)

namespace Attempt

def interrupt {α : Type} (w : World) (i : Interruption) : Attempt α :=
  ⟨w, .error (.interrupted i), []⟩

def andThen {α β : Type} (a : Attempt α) (next : World → α → Attempt β) : Attempt β :=
  Outcome.andThen a fun w value =>
    match value with
    | .ok value => next w value
    | .error failure => ⟨w, .error failure, []⟩

def map {α β : Type} (f : α → β) (a : Attempt α) : Attempt β := Outcome.map (Except.map f) a

end Attempt

namespace World

def readText (w : World) (path : Text) (encoding : Text.Encoding) : Outcome (Option Text) :=
  match w.disk.readText path encoding with
  | .ok content => ⟨w, some content, []⟩
  | .error fault => ⟨w, none, [.unreadableFile path fault]⟩

/-- The text of a file whose path comes from outside. -/
def openText (w : World) (path : Text) (encoding : Text.Encoding) : Attempt (Option Text) :=
  if Files.Path.hasNull path then .interrupt w .nullInPath
  else (w.readText path encoding).map .ok

end World

end RecordMap
