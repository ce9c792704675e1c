import RecordMap.Interruption

/-! The source files below a directory. -/

namespace RecordMap.Files

def skippedByDefault : List Text :=
  [".git", "node_modules", "vendor", "tmp", "log", "coverage", "public", "storage", ".bundle",
    ".idea", ".vscode"].map String.toList

namespace Entry

mutual
/-- The names that lead to each file that `keep` admits, through directories that `enter` admits. -/
def files (enter keep : Text → Bool) : Entry → List (List Text)
  | file name _ => if keep name then [[name]] else []
  | folder name entries _ =>
    if enter name then (filesOfAll enter keep entries).map (name :: ·) else []
def filesOfAll (enter keep : Text → Bool) : List Entry → List (List Text)
  | [] => []
  | e :: es => e.files enter keep ++ filesOfAll enter keep es
end

theorem filesOfAll_eq_flatMap (enter keep : Text → Bool) (es : List Entry) :
    filesOfAll enter keep es = es.flatMap (files enter keep) := by
  induction es with
  | nil => rw [filesOfAll, List.flatMap_nil]
  | cons e es ih => rw [filesOfAll, List.flatMap_cons, ih]

end Entry

structure SourceFile where
  path : Text
  below : List Text
deriving DecidableEq, Repr

def hasExtension (extensions : List Text) (name : Text) : Bool := extensions.any (·.isSuffixOf name)

/-- The directories to skip: those given, or if there are none the usual ones. -/
def skipped (skip : List Text) : List Text := if skip = [] then skippedByDefault else skip

def SourceFile.at (directory : Text) (below : List Text) : SourceFile :=
  ⟨below.foldl Path.join directory, below⟩

/-- All files below a directory that have one of the extensions, in the order of their paths. The
directory itself is entered whatever its name. -/
def Disk.filesBelow (d : Disk) (directory : Text) (extensions skip : List Text) : List SourceFile :=
  let enter := fun name => !(skipped skip).contains name
  match d.folder? directory with
  | none => []
  | some folder =>
    ((Entry.filesOfAll enter (hasExtension extensions) folder.entries).map
      (SourceFile.at directory)).mergeSort fun a b => a.path.precedes b.path

/-- The paths of a directory and of all below it that lead to a file. -/
def wayTo (directory : Text) : List Text → List Text
  | [] => []
  | [_] => [directory]
  | name :: names => directory :: wayTo (Path.join directory name) names

def Disk.reaches (d : Disk) (directory : Text) (below : List Text) : Bool :=
  (wayTo directory below).all fun path => (d.listing? path).isSome

/-- The files that are found below a directory. A directory that cannot be listed is passed over. -/
def Disk.sourceFiles (d : Disk) (directory : Text) (extensions skip : List Text) :
    List SourceFile :=
  (d.filesBelow directory extensions skip).filter fun f => d.reaches directory f.below

def Disk.findFiles (d : Disk) (directory : Text) (extensions skip : List Text) :
    Except Interruption (List SourceFile) :=
  if Path.hasNull directory then .error .nullInPath
  else .ok (d.sourceFiles directory extensions skip)

end RecordMap.Files
