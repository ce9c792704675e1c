import RecordMap.Model.Entry

/-! Edges of entries that were read back, of which parts can be missing or of another kind. A part
is only needed where it decides something. -/

namespace RecordMap.Model

inductive PartFault where
  | missing
  | wrongKind
  /-- It is not a text, and it is to be rewritten like one. -/
  | notText
deriving DecidableEq, Repr

abbrev Part (α : Type) := Except PartFault α

/-- An association of an entry that was read back. Columns are of type `α`. -/
structure IncompleteSource (α : Type) where
  name : Part Text := .error .missing
  className : Part (Option Text) := .error .missing
  polymorphic : Part Bool := .error .missing
  firstColumn : Part (Option (Part α)) := .error .missing

namespace IncompleteSource

def target {α : Type} (s : IncompleteSource α) (polymorphic : Bool) : Part Text :=
  if polymorphic then .ok []
  else do
    match ← s.className with
    | some (c :: cs) => return targetTable [] (some (c :: cs))
    | _ => return targetTable (← s.name) none

def edge {α : Type} (ofText : Text → α) (table : Part α) (s : IncompleteSource α) :
    Part (Option (Relationship α)) := do
  match ← s.firstColumn with
  | none => return none
  | some column =>
    let polymorphic ← s.polymorphic
    let toTable ← s.target polymorphic
    let fromTable ← table
    let fromColumn ← column
    return some {
      fromTable, fromColumn
      toTable := ofText toTable
      toColumn := ofText "id".toList
      type := ofText (if polymorphic then "polymorphic" else "many-to-one").toList }

end IncompleteSource

structure IncompleteEntry (α : Type) where
  tableName : Part α := .error .missing
  isAbstract : Part Bool := .error .missing
  associations : Part (List (Part (IncompleteSource α))) := .error .missing

def IncompleteEntry.relationships {α : Type} (ofText : Text → α) (e : IncompleteEntry α) :
    Part (List (Relationship α)) := do
  if ← e.isAbstract then return []
  else
    let edges ← (← e.associations).mapM fun source => do (← source).edge ofText e.tableName
    return edges.filterMap id

end RecordMap.Model
