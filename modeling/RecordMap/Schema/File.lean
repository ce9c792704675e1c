import RecordMap.Notice
import RecordMap.Schema.Dump.Tables

/-! Schema files: where they are found, and what is read from them. -/

namespace RecordMap.Schema

def fileName : List Text := ["db".toList, "schema.rb".toList]

def candidate (anchor : Text) (parts : List Text) : Text :=
  Files.Path.ofParts anchor (parts ++ fileName)

/-- The proper beginnings of a list, longest first. -/
def parents {α : Type} : List α → List (List α)
  | [] => []
  | a :: as => (parents as).map (a :: ·) ++ [[]]

/-- Where a schema file is sought: in the start as it is written, then in every directory above
it. -/
def candidates (here : List Text) (start : Text) : List Text :=
  candidate (Files.Path.anchor start) (Files.Path.parts start) ::
    (parents (Files.Path.absoluteParts here start)).map (candidate ['/'])

def search (d : Files.Disk) (root : Option Text) : Except Interruption (Option Text) :=
  let start := (given? root).getD d.herePath
  if Files.Path.hasNull start then .error .nullInPath
  else (d.firstFile (candidates d.here start)).mapError fun (path, fault) => .blocked path fault

/-- The search as an action of which some notices are known. -/
def searchNoting (w : World) (root : Option Text) (notices : List Notice) : Attempt (Option Text) :=
  ⟨w, (search w.disk root).mapError .interrupted, notices⟩

/-- The schema file: the one of the settings if it exists, otherwise the first at or above the
root. -/
def path (w : World) (root : Option Text) : Attempt (Option Text) :=
  match given? w.settings.schemaPath with
  | none => searchNoting w root []
  | some configured =>
    if w.disk.isFile configured then ⟨w, .ok (some configured), []⟩
    else searchNoting w root [.missingConfiguredPath configured]

def tablesOf (w : World) (content : Text) : Outcome (List Table) :=
  ⟨w, Dump.tables content,
    (Dump.unterminated content).map fun u => .unterminatedTable u.table u.line⟩

def ofFile (w : World) (path : Text) (target : Option Text) : Attempt Schema :=
  (w.openText path .utf8).andThen fun w content =>
    match content with
    | none => ⟨w, .error (.cause (.unreadable path)), []⟩
    | some content =>
      (tablesOf w content).map fun tables => .ok ⟨tables, some path, w.settings.versionFor target⟩

def pathOr (w : World) (givenPath root : Option Text) : Attempt (Option Text) :=
  match given? givenPath with
  | some p => ⟨w, .ok (some p), []⟩
  | none => path w root

def load (w : World) (target givenPath root : Option Text) : Attempt (Option Schema) :=
  (pathOr w givenPath root).andThen fun w found =>
    match found with
    | none => ⟨w, .ok none, []⟩
    | some p => (ofFile w p target).map some

end RecordMap.Schema
