import RecordMap.Naming.Plural
import RecordMap.Syntax.Call
import RecordMap.Syntax.Definition

/-! The table that backs a class: the one it names itself, or the plural of its name within the
prefix and suffix that it declares. -/

namespace RecordMap.Model

open Syntax

def assignsTableName (n : Node) : Bool :=
  n.calls "table_name=" && n.receiver?.any (·.is "self") && n.firstText?.isSome

def tableNameAssignments (c : Place) : List Node :=
  (c.findAll fun p => assignsTableName p.node).map (·.node)

/-- The string or symbol of the first call of a setter, below the class, that has one. -/
def firstSetting? (c : Place) (setter : String) : Option Text :=
  ((c.findAll fun p => p.node.calls setter).map (·.node)).findSome? Node.firstText?

def withTrailingUnderscore (t : Text) : Text :=
  if t = [] ∨ t.getLast? = some '_' then t else t ++ ['_']

def withLeadingUnderscore (t : Text) : Text :=
  if t = [] ∨ t.head? = some '_' then t else '_' :: t

def tablePrefix (c : Place) : Text :=
  withTrailingUnderscore ((firstSetting? c "table_name_prefix=").getD [])

def tableSuffix (c : Place) : Text :=
  withLeadingUnderscore ((firstSetting? c "table_name_suffix=").getD [])

def conventionalName (segments : List Text) : Text :=
  Naming.tableOf (['_'].intercalate segments)

def tableName (c : Place) : Text :=
  match (tableNameAssignments c).head?.bind Node.firstText? with
  | some name => name
  | none => tablePrefix c ++ conventionalName c.shortSegments ++ tableSuffix c

end RecordMap.Model
