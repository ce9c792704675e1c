import RecordMap.Interruption
import RecordMap.Schema.Image.Basic
import RecordMap.Text.Pattern
import RecordMap.Text.Percent

/-! Databases that can be opened, and how a `file:` name asks for one. -/

namespace RecordMap.Schema

inductive DatabaseFault where
  | cannotOpen
  | cannotRead
  | badImage (fault : Image.Fault)
  | unknownHost (name : Text)
  | unknownMode (kind name : Text)
  | unknownFileSystem (name : Text)
deriving DecidableEq, Repr

namespace DatabaseFault

def message : DatabaseFault → Text
  | cannotOpen => "(sqlite3.OperationalError) unable to open database file".toList
  | cannotRead => "(sqlite3.OperationalError) disk I/O error".toList
  | badImage fault => fault.message
  | unknownHost name => "(sqlite3.OperationalError) invalid uri authority: ".toList ++ name
  | unknownMode kind name =>
    "(sqlite3.OperationalError) no such ".toList ++ kind ++ " mode: ".toList ++ name
  | unknownFileSystem name => "(sqlite3.OperationalError) no such vfs: ".toList ++ name

end DatabaseFault

/-- Where a database lies. An absent file is only created if it may be. Another file can be named
that has to be there, for a new one to be created with its permissions. -/
inductive Connection where
  | memory
  | file (path : Text) (mayCreate : Bool) (permissionsOf : Option Text := none)
deriving DecidableEq, Repr

namespace Connection

/-- The names that stand for a database of which nothing is kept. -/
def memoryNames : List Text := ["".toList, ":memory:".toList]

def ofName (name : Text) (mayCreate : Bool) (permissionsOf : Option Text := none) : Connection :=
  if memoryNames.contains name then .memory else .file name mayCreate permissionsOf

/-- The database at a path, of which each `..` drops the name before it. -/
def ofPath (here : List Text) (path : Text) : Connection :=
  if memoryNames.contains path then .memory
  else .file (Files.Path.ofParts ['/'] (Files.Path.absoluteParts here path)) true

/-! ### Names that begin with `file:` -/

inductive Mode where
  | existing
  | create
  | memory
deriving DecidableEq, Repr

def modes : List (Text × Mode) :=
  [("ro", .existing), ("rw", .existing), ("rwc", .create), ("memory", .memory)].map
    fun (name, mode) => (name.toList, mode)

def cacheModes : List Text := ["shared", "private"].map String.toList

def fileSystems : List (Text × Mode) :=
  [("unix", .create), ("unix-excl", .create), ("unix-dotfile", .create), ("unix-none", .create),
    ("memdb", .memory)].map fun (name, mode) => (name.toList, mode)

structure FileOption where
  key : Text
  value : Text
  isDamaged : Bool := false

/-- A value that an error quotes has to be text. -/
def FileOption.refuse (option : FileOption) (fault : Text → DatabaseFault) :
    Failure DatabaseFault :=
  if option.isDamaged then .interrupted .undecodableName else .cause (fault option.value)

structure Opening where
  mode : Mode := .create
  fileSystem : FileOption := { key := "vfs".toList, value := "unix".toList }
  permissionsOf : Option Text := none

/-- The last of several options with one key holds. Only the file whose permissions are taken is the
first that is named. -/
def Opening.setOption (o : Opening) (option : FileOption) :
    Except (Failure DatabaseFault) Opening :=
  if option.key = "mode".toList then
    match modes.lookup option.value with
    | some mode => .ok { o with mode }
    | none => .error (option.refuse (.unknownMode "access".toList))
  else if option.key = "cache".toList then
    if cacheModes.contains option.value then .ok o
    else .error (option.refuse (.unknownMode "cache".toList))
  else if option.key = "vfs".toList then .ok { o with fileSystem := option }
  else if option.key = "modeof".toList then
    .ok { o with permissionsOf := o.permissionsOf.or (some option.value) }
  else .ok o

def Opening.connection (o : Opening) (path : Text) : Except (Failure DatabaseFault) Connection :=
  match fileSystems.lookup o.fileSystem.value with
  | none => .error (o.fileSystem.refuse .unknownFileSystem)
  | some fileSystem =>
    if o.mode = .memory ∨ fileSystem = .memory then .ok .memory
    else .ok (ofName path (o.mode = .create) o.permissionsOf)

def splitHost (t : Text) : Text × Text :=
  match Text.afterAll? "//" t with
  | some rest => (rest.takeWhile (· != '/'), rest.dropWhile (· != '/'))
  | none => ([], t)

/-- The bytes of a part, which a null character ends. -/
def partBytes (t : Text) : List UInt8 := (Text.percentBytes t).takeWhile (· != 0)

def decodePart (t : Text) : Text := Text.Utf8.decode (partBytes t)

def readOption? (field : Text) : Option FileOption :=
  match (Text.splitFirst? '=' field).getD (field, []) with
  | ([], _) => none
  | (key, value) => some {
      key := decodePart key
      value := decodePart value
      isDamaged := (Text.decodeUtf8? ⟨(partBytes value).toArray⟩).isNone }

def ofFileName (t : Text) : Except (Failure DatabaseFault) Connection := do
  let (host, rest) := splitHost t
  if host ≠ [] ∧ host ≠ "localhost".toList then
    throw (.cause (.unknownHost host))
  let rest := rest.takeWhile (· != '#')
  let options := Text.splitAt '&' ((rest.dropWhile (· != '?')).drop 1)
  let opening ← (options.filterMap readOption?).foldlM Opening.setOption {}
  opening.connection (decodePart (rest.takeWhile (· != '?')))

end Connection

end RecordMap.Schema
