import RecordMap.Files.Disk

/-! Changes to what lies on a disk. A change that cannot be made leaves the disk as it is. -/

namespace RecordMap.Files.Disk

/-- Goes the steps of a way, of which some are taken, and makes every directory that is not there.
The names that lead to its end come with the entries. -/
def makeWay (entries : List Entry) (taken : List Text) :
    List Text → Except Fault (List Entry × List Text)
  | [] => .ok (entries, taken)
  | step :: steps =>
    if step = [] ∨ step = ['.'] then makeWay entries taken steps
    else if step = ['.', '.'] then makeWay entries taken.dropLast steps
    else
      let way := taken ++ [step]
      match Entry.follow [] { entries } way with
      | .ok (.inr _) => makeWay entries way steps
      | .ok (.inl _) => .error (if steps = [] then .alreadyExists else .notADirectory)
      | .error .notFound => makeWay (Entry.makeFolder way entries) way steps
      | .error fault => .error fault

/-- Makes a directory, with those that lead to it. One that is there is left alone. -/
def makeFolder (d : Disk) (path : Text) : Except Fault Disk :=
  (makeWay d.entries [] (d.stepsOf path)).map fun (entries, _) => { d with entries }

def makeParents (d : Disk) (path : Text) : Except Fault Disk :=
  (makeWay d.entries [] (d.stepsOf path).dropLast).map fun (entries, _) => { d with entries }

def namesTo (d : Disk) (path : Text) : List Text :=
  Path.absoluteParts d.here path

def writeFile (d : Disk) (path : Text) (content : Content) : Except Fault Disk := do
  let d ← d.makeParents path
  match d.look path with
  | .ok (.inr _) => .error .isADirectory
  | .ok (.inl _) | .error .notFound =>
    return { d with entries := Entry.write content (d.namesTo path) d.entries }
  | .error fault => .error fault

def removeFile (d : Disk) (path : Text) : Except Fault Disk :=
  match d.look path with
  | .ok (.inl _) => .ok { d with entries := Entry.remove (d.namesTo path) d.entries }
  | .ok (.inr _) => .error .isADirectory
  | .error fault => .error fault

def enter (d : Disk) (path : Text) : Except Fault Disk :=
  match d.look path with
  | .ok (.inr folder) =>
    if folder.closed then .error .permissionDenied else .ok { d with here := d.namesTo path }
  | .ok (.inl _) => .error .notADirectory
  | .error fault => .error fault

end RecordMap.Files.Disk
