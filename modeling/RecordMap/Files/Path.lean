import RecordMap.Text.Basic

/-! Path names as they are written, and their parts. -/

namespace RecordMap.Files.Path

def maxSize : Nat := 4095

def maxNameSize : Nat := 255

def hasNull (path : Text) : Bool := path.contains '\x00'

def isAbsolute (path : Text) : Bool := path.head? == some '/'

/-- A name under a directory. An absolute name stands for itself. -/
def join (directory name : Text) : Text :=
  if isAbsolute name || directory == [] then name
  else if directory.getLast? == some '/' then directory ++ name
  else directory ++ '/' :: name

/-- The names that lead to a file. Behind a slash at the end stands one more that is empty. -/
def steps (path : Text) : List Text :=
  let parts := path.splitAt '/'
  parts.filter (· ≠ []) ++ if parts.getLast? = some [] then [[]] else []

def parts (path : Text) : List Text :=
  (path.splitAt '/').filter fun part => part ≠ [] ∧ part ≠ ['.']

/-- The slashes before the first name. Two are kept, more count as one. -/
def anchor : Text → Text
  | '/' :: '/' :: '/' :: _ => ['/']
  | '/' :: '/' :: _ => ['/', '/']
  | '/' :: _ => ['/']
  | _ => []

def ofParts (anchor : Text) (parts : List Text) : Text := anchor ++ ['/'].intercalate parts

/-- Puts a name before those already taken, of which a `..` drops the last. -/
def takePart (taken : List Text) (part : Text) : List Text :=
  if part = ['.', '.'] then taken.drop 1 else part :: taken

/-- Cancels each `..` against the name before it. At the top it stays where it is. -/
def cancelUps (parts : List Text) : List Text := (parts.foldl takePart []).reverse

/-- The names of a path from the top. A relative path is taken from `here`. -/
def fromTop (here : List Text) (path : Text) : List Text :=
  if isAbsolute path then parts path else here ++ parts path

def absoluteParts (here : List Text) (path : Text) : List Text := cancelUps (fromTop here path)

end RecordMap.Files.Path
