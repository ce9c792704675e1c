import RecordMap.Naming.Plural
import RecordMap.Text.Basic

/-! Edges between tables, and their form in a report. -/

namespace RecordMap.Model

structure EdgeSource where
  name : Text
  className : Option Text
  polymorphic : Bool
  columns : List Text
deriving DecidableEq, Repr

structure Relationship (α : Type) where
  fromTable : α
  toTable : α
  fromColumn : α
  toColumn : α
  type : α
deriving DecidableEq, Repr

/-- Writes `_` for every `::`. -/
def underscoreScopes : Text → Text
  | ':' :: ':' :: cs => '_' :: underscoreScopes cs
  | c :: cs => c :: underscoreScopes cs
  | [] => []

/-- The class that an association points to: the one it names, or its own name in capitals. -/
def targetClass (name : Text) (className : Option Text) : Text :=
  match className with
  | none | some [] => Naming.pascalCase name
  | some c => c

def targetTable (name : Text) (className : Option Text) : Text :=
  Naming.tableOf (underscoreScopes (targetClass name className))

/-- The edge of an association with columns. A polymorphic one has no single target table. -/
def EdgeSource.edge? (table : Text) (s : EdgeSource) : Option (Relationship Text) :=
  s.columns.head?.map fun column => {
    fromTable := table
    toTable := if s.polymorphic then [] else targetTable s.name s.className
    fromColumn := column
    toColumn := "id".toList
    type := (if s.polymorphic then "polymorphic" else "many-to-one").toList }

structure PartialRelationship (α : Type) where
  fromTable : Option α := none
  toTable : Option α := none
  fromColumn : Option α := none
  toColumn : Option α := none
  type : Option α := none

/-- Fills in the missing parts. A target table that `isBlank` admits becomes the empty text. -/
def PartialRelationship.complete {α : Type} (ofText : Text → α) (isBlank : α → Bool)
    (r : PartialRelationship α) : Relationship α where
  fromTable := r.fromTable.getD (ofText [])
  toTable := match r.toTable with
    | some t => if isBlank t then ofText [] else t
    | none => ofText []
  fromColumn := r.fromColumn.getD (ofText [])
  toColumn := r.toColumn.getD (ofText "id".toList)
  type := r.type.getD (ofText "many-to-one".toList)

def Relationship.toPartial {α : Type} (r : Relationship α) : PartialRelationship α :=
  ⟨some r.fromTable, some r.toTable, some r.fromColumn, some r.toColumn, some r.type⟩

structure Report (μ α : Type) where
  models : List μ
  relationships : List (Relationship α)
  checksum : Option α

def Report.make {μ α : Type} (ofText : Text → α) (isBlank : α → Bool) (models : List μ)
    (relationships : List (PartialRelationship α)) (checksum : Option α) : Report μ α :=
  ⟨models, relationships.map (·.complete ofText isBlank), checksum⟩

end RecordMap.Model
