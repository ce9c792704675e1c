import RecordMap.Files.Path
import RecordMap.Schema.Basic
import RecordMap.Text.Encoding
import RecordMap.Text.Quoted

/-! The files that a scan can read. -/

namespace RecordMap.Files

inductive Fault where
  | notFound
  | alreadyExists
  | notADirectory
  | isADirectory
  | nameTooLong
  | permissionDenied
deriving DecidableEq, Repr

namespace Fault

def number : Fault → Nat
  | notFound => 2
  | alreadyExists => 17
  | notADirectory => 20
  | isADirectory => 21
  | nameTooLong => 36
  | permissionDenied => 13

def description : Fault → Text
  | notFound => "No such file or directory".toList
  | alreadyExists => "File exists".toList
  | notADirectory => "Not a directory".toList
  | isADirectory => "Is a directory".toList
  | nameTooLong => "File name too long".toList
  | permissionDenied => "Permission denied".toList

/-- The fault says that nothing stands at a path, and not only that it cannot be asked for. -/
def isAbsence : Fault → Bool
  | notFound | notADirectory => true
  | _ => false

def message (f : Fault) (path : Text) : Text :=
  "[Errno ".toList ++ (Nat.toDigits 10 f.number) ++ "] ".toList ++ f.description ++ ": ".toList ++
    path.quoted

end Fault

inductive Content where
  | bytes (data : ByteArray)
  | database (tables : List Table)
  | unreadable (fault : Fault)
deriving Inhabited

/-- A file or a directory with its name. A closed directory may be neither listed nor searched for
names. -/
inductive Entry where
  | file (name : Text) (content : Content)
  | folder (name : Text) (entries : List Entry) (closed : Bool := false)
deriving Inhabited

def Entry.name : Entry → Text
  | file name _ => name
  | folder name _ _ => name

structure Folder where
  entries : List Entry
  closed : Bool := false
deriving Inhabited

namespace Entry

def find? (name : Text) (entries : List Entry) : Option Entry := entries.find? (·.name == name)

/-- What stands at the end of some steps from a directory, which lies in the directories `outer`.
Every step leads out of a directory, which is searched for it unless the step is empty: that is what
a slash at the end asks for. A directory is not asked for a name that is too long. -/
def follow (outer : List Folder) (folder : Folder) : List Text → Except Fault (Content ⊕ Folder)
  | [] => .ok (.inr folder)
  | step :: steps =>
    if step = [] then follow outer folder steps
    else if folder.closed then .error .permissionDenied
    else if step = ['.'] then follow outer folder steps
    else if step = ['.', '.'] then
      match outer with
      | [] => follow [] folder steps
      | up :: outer => follow outer up steps
    else if Path.maxNameSize < step.byteSize then .error .nameTooLong
    else match find? step folder.entries with
      | none => .error .notFound
      | some (.folder _ inner closed) => follow (folder :: outer) ⟨inner, closed⟩ steps
      | some (.file _ content) => if steps = [] then .ok (.inl content) else .error .notADirectory

/-- Puts an entry in the place of the one with its name, or at the end. -/
def put (entry : Entry) : List Entry → List Entry
  | [] => [entry]
  | e :: es => if e.name = entry.name then entry :: es else e :: put entry es

/-- The directory of some name. One that is not there counts as empty. -/
def folderOf (name : Text) (entries : List Entry) : Folder :=
  match find? name entries with
  | some (.folder _ inner closed) => ⟨inner, closed⟩
  | _ => ⟨[], false⟩

def putInside (name : Text) (change : List Entry → List Entry) (entries : List Entry) : List Entry :=
  let folder := folderOf name entries
  put (.folder name (change folder.entries) folder.closed) entries

def write (content : Content) : List Text → List Entry → List Entry
  | [], entries => entries
  | [name], entries => put (.file name content) entries
  | name :: rest, entries => putInside name (write content rest) entries

def makeFolder : List Text → List Entry → List Entry
  | [], entries => entries
  | name :: rest, entries => putInside name (makeFolder rest) entries

def remove : List Text → List Entry → List Entry
  | [], entries => entries
  | [name], entries => entries.filter (·.name ≠ name)
  | name :: rest, entries =>
    match find? name entries with
    | some (.folder _ _ _) => putInside name (remove rest) entries
    | _ => entries

end Entry

/-- The directory at the top and the names that lead to the current one. -/
structure Disk where
  entries : List Entry := []
  here : List Text := []
deriving Inhabited

namespace Disk

def stepsOf (d : Disk) (path : Text) : List Text :=
  if Path.isAbsolute path then Path.steps path else d.here ++ Path.steps path

/-- The directory at the top, which everyone may enter. -/
def top (d : Disk) : Folder := { entries := d.entries }

def look (d : Disk) (path : Text) : Except Fault (Content ⊕ Folder) :=
  if path = [] then .error .notFound
  else if Path.maxSize < path.byteSize then .error .nameTooLong
  else Entry.follow [] d.top (d.stepsOf path)

def isFile (d : Disk) (path : Text) : Bool :=
  match d.look path with
  | .ok (.inl _) => true
  | _ => false

/-- The first of some paths at which a file stands. A path that cannot be asked for ends the search,
one that leads nowhere does not. -/
def firstFile (d : Disk) : List Text → Except (Text × Fault) (Option Text)
  | [] => .ok none
  | path :: paths =>
    match d.look path with
    | .ok (.inl _) => .ok (some path)
    | .ok (.inr _) => firstFile d paths
    | .error fault => if fault.isAbsence then firstFile d paths else .error (path, fault)

def folder? (d : Disk) (path : Text) : Option Folder :=
  match d.look path with
  | .ok (.inr folder) => some folder
  | _ => none

def listing? (d : Disk) (path : Text) : Option (List Entry) :=
  match d.folder? path with
  | some folder => if folder.closed then none else some folder.entries
  | none => none

/-- The bytes of a file. A database that is known by its tables counts as empty. -/
def read (d : Disk) (path : Text) : Except Fault ByteArray :=
  match d.look path with
  | .ok (.inl (.bytes data)) => .ok data
  | .ok (.inl (.database _)) => .ok ByteArray.empty
  | .ok (.inl (.unreadable fault)) => .error fault
  | .ok (.inr folder) => .error (if folder.closed then .permissionDenied else .isADirectory)
  | .error fault => .error fault

def readText (d : Disk) (path : Text) (encoding : Text.Encoding) : Except Fault Text :=
  (d.read path).map (Text.decode encoding)

def herePath (d : Disk) : Text := Path.ofParts ['/'] d.here

end Disk

end RecordMap.Files
