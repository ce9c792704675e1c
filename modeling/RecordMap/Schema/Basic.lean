import RecordMap.Text.Basic

/-! Database schemas: tables with their columns. -/

namespace RecordMap

structure Column where
  name : Text
  type : Text := []
  nullable : Bool := true
deriving DecidableEq, Repr, Inhabited

structure Table where
  name : Text
  columns : List Column := []
deriving DecidableEq, Repr, Inhabited

namespace Table

def columnNames (t : Table) : List Text := t.columns.map (·.name)

def hasColumn (t : Table) (name : Text) : Bool := t.columns.any (·.name == name)

def column? (t : Table) (name : Text) : Option Column := t.columns.find? (·.name == name)

theorem hasColumn_iff {t : Table} {name : Text} :
    t.hasColumn name = true ↔ name ∈ t.columnNames := by
  simp [hasColumn, columnNames]

end Table

structure Schema where
  tables : List Table := []
  source : Option Text := none
  rubyVersion : Option Text := none
deriving DecidableEq, Repr, Inhabited

namespace Schema

def tableNames (s : Schema) : List Text := s.tables.map (·.name)

def table? (s : Schema) (name : Text) : Option Table := s.tables.find? (·.name == name)

def same (s t : Schema) : Bool := s.tables == t.tables && s.source == t.source

end Schema

end RecordMap
