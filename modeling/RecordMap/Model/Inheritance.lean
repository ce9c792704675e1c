import RecordMap.Syntax.Definition

/-! Which classes are backed by a table. -/

namespace RecordMap.Model

open Syntax

/-- A bare `ApplicationRecord` or `ActiveRecord::Base`. A path with a leading `::` or with more
segments does not count. -/
def isRecordBase (n : Node) : Bool :=
  if n.is "constant" then n.text == "ApplicationRecord".toList
  else if n.is "scope_resolution" then
    ((n.child? "scope").any (·.is "constant")) &&
      n.segments == ["ActiveRecord".toList, "Base".toList]
  else false

def hasRecordSuperclass (classNode : Node) : Bool := classNode.superclass?.any isRecordBase

/-- The node is a class with a record base as its superclass, or lies in such a class at any
depth. -/
def inheritsFromRecord (p : Place) : Bool :=
  (p.node.is "class" && hasRecordSuperclass p.node) ||
    (p.ancestors ["class"]).any hasRecordSuperclass

end RecordMap.Model
