import RecordMap.Schema.Dump.Columns
import RecordMap.Source.Block
import RecordMap.Source.Comment

/-! The tables of a schema dump. -/

namespace RecordMap.Schema.Dump

structure Unterminated where
  table : Text
  line : Nat
deriving DecidableEq, Repr

/-- The table of a header, read from text without comments, or the line of the header in the
content if its block has no end. -/
def tableOf (content stripped : Text) (keywords : List (Found Source.Keyword)) (h : Found Header) :
    Except Unterminated Table :=
  match Source.bodyBy? keywords stripped h.stop with
  | some body =>
    .ok ⟨h.value.name, keyColumns h.value.options ++ bodyColumns body h.value.receiver⟩
  | none => .error ⟨h.value.name, content.lineAt h.start⟩

def readTables (content : Text) : List (Except Unterminated Table) :=
  let stripped := Source.blankComments content
  let keywords := Source.keyword.all (Source.blankLiterals stripped)
  (header.all stripped).map (tableOf content stripped keywords)

def tables (content : Text) : List Table :=
  (readTables content).filterMap Except.toOption

def unterminated (content : Text) : List Unterminated :=
  (readTables content).filterMap fun | .error u => some u | .ok _ => none

end RecordMap.Schema.Dump
