import RecordMap.Syntax.Node

/-! A tree from the rows of its nodes, in which parents stand before their children. -/

namespace RecordMap.Syntax

/-- A node without its text and its children, and the number of its parent's row. -/
structure Row where
  parent : Int
  kind : String
  named : Bool
  field : Option String
  start : Nat
  stop : Nat
deriving DecidableEq, Repr

namespace Row

/-- The number of line feeds before each byte offset. -/
def linesBefore (source : ByteArray) : Array Nat :=
  source.toList.foldl (fun counts b =>
    counts.push (counts.back?.getD 0 + if b = 10 then 1 else 0)) #[0]

def label (source : ByteArray) (lines : Array Nat) (r : Row) : Label where
  kind := r.kind
  named := r.named
  field := r.field
  start := r.start
  stop := r.stop
  line := lines[r.start]?.getD 0 + 1
  text := ((source.extract r.start r.stop).utf8Decode?.map Array.toList).getD []

/-- Hands each node, from the last row to the first, to its parent. What is left at the end are the
nodes without a parent. -/
def gather (label : Row → Label) (rows : Array Row) : List Node :=
  let waiting := Array.replicate (rows.size + 1) []
  let all := (List.range rows.size).reverse.foldl (fun waiting i =>
    match rows[i]? with
    | none => waiting
    | some r =>
      let node := Node.mk (label r) (waiting[i + 1]?.getD [])
      waiting.modify (r.parent + 1).toNat (node :: ·)) waiting
  all[0]?.getD []

end Row

def Tree.ofRows? (source : ByteArray) (rows : Array Row) (hasError : Bool) : Option Tree :=
  let lines := Row.linesBefore source
  match Row.gather (Row.label source lines) rows with
  | root :: _ => some ⟨root, hasError⟩
  | [] => none

end RecordMap.Syntax
