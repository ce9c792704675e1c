import RecordMap.Files.Change
import RecordMap.Schema.Database

/-! Creating tables in a database file. -/

namespace RecordMap.Schema

inductive CreationFault where
  | badPath (fault : Files.Fault)
  | badDatabase (fault : DatabaseFault)
  | badTable (name : Text)
deriving DecidableEq, Repr

def maxColumns : Nat := 2000

/-- Names of tables and of columns differ in more than the case of their letters. -/
def foldedName (name : Text) : Text := name.map Char.toLower

def areDistinct (names : List Text) : Bool := names.eraseDups.length == names.length

/-- A table can be created if it has columns, each with a name of its own, and if its name is
neither taken nor reserved. -/
def isCreatable (tables : List Table) (t : Table) : Bool :=
  !t.columns.isEmpty && t.columns.length ≤ maxColumns &&
    areDistinct (t.columnNames.map foldedName) &&
    !isReserved t.name && !(tables.map fun s => foldedName s.name).contains (foldedName t.name)

def addTable (tables : List Table) (t : Table) : Except CreationFault (List Table) :=
  if isCreatable tables t then .ok (tables ++ [t]) else .error (.badTable t.name)

/-- Creates tables in a database file, next to those that it has. The file and the directories that
lead to it are made if they are not there. -/
def createTables (d : Files.Disk) (path : Text) (tables : List Table) :
    Except CreationFault Files.Disk := do
  let d ← (d.makeParents path).mapError .badPath
  let (d, existing) := openFile d path true none
  let tables ← tables.foldlM addTable (← existing.mapError .badDatabase)
  (d.writeFile path (.database tables)).mapError .badPath

end RecordMap.Schema
