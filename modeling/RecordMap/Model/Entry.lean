import RecordMap.Model.Inheritance
import RecordMap.Model.Relationship
import RecordMap.Model.Resolution
import RecordMap.Model.TableName

/-! The models of a source: every class backed by a table, with the columns of its associations and
the edges that follow from them. -/

namespace RecordMap.Model

open Syntax

structure AssociationEntry where
  association : Association
  columns : List Text
deriving DecidableEq, Repr

def AssociationEntry.edgeSource (a : AssociationEntry) : EdgeSource :=
  ⟨a.association.name, a.association.className, a.association.polymorphic, a.columns⟩

structure Entry where
  name : Text
  tableName : Text
  tableFound : Bool
  isAbstract : Bool
  associations : List AssociationEntry
  sourceFile : Text
  line : Nat
deriving DecidableEq, Repr

def assignsAbstract (n : Node) : Bool :=
  n.calls "abstract_class=" && n.receiver?.any (·.is "self") &&
    n.firstArgument?.bind Node.literal? == some (.truth true)

def isAbstract (c : Place) : Bool := (c.findFirst? fun p => assignsAbstract p.node).isSome

namespace Entry

def ofClass (sourceFile : Text) (schema : Option Schema) (c : Place) : Entry :=
  let name := Model.tableName c
  let table := schema.bind (·.table? name)
  { name := c.fullName
    tableName := name
    tableFound := table.isSome
    isAbstract := Model.isAbstract c
    associations := (Model.associations c).map fun a =>
      ⟨a, Resolved.columnsOf (resolveIn c table a.name)⟩
    sourceFile
    line := c.node.label.line }

def ofTree (sourceFile : Text) (schema : Option Schema) (t : Tree) : List Entry :=
  (t.classes.filter inheritsFromRecord).map (ofClass sourceFile schema)

/-- One edge for each association with columns. Abstract classes have none. -/
def relationships (e : Entry) : List (Relationship Text) :=
  if e.isAbstract then []
  else e.associations.filterMap fun a => a.edgeSource.edge? e.tableName

end Entry

def Report.ofEntries (entries : List Entry) (checksum : Option Text) : Report Entry Text :=
  Report.make id (· == []) entries
    ((entries.flatMap Entry.relationships).map Relationship.toPartial) checksum

end RecordMap.Model
