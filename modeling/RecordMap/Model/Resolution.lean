import RecordMap.Model.Association
import RecordMap.Schema.Basic

/-! The columns behind a relation name: the column of that name, or the key of an association. -/

namespace RecordMap.Model

open Syntax

inductive Resolved where
  | single (column : Text)
  | several (columns : List Text)
deriving DecidableEq, Repr

namespace Resolved

def columns : Resolved → List Text
  | single c => [c]
  | several cs => cs

def columnsOf (r : Option Resolved) : List Text := r.elim [] columns

end Resolved

def Association.resolved (a : Association) : Resolved :=
  if a.polymorphic then .several [a.key, a.typeColumn] else .single a.key

/-- A column of that name wins. Otherwise the first association of that name whose key is a column
decides. -/
def resolve (associations : List Association) (table : Table) (name : Text) : Option Resolved :=
  if table.hasColumn name then some (.single name)
  else
    (associations.find? fun a => a.name == name && table.hasColumn a.key).map Association.resolved

/-- Resolves a name used in a class. Without a table nothing resolves. -/
def resolveIn (c : Place) (table : Option Table) (name : Text) : Option Resolved :=
  table.bind fun t => resolve (associations c) t name

end RecordMap.Model
