import RecordMap.Schema.Image.Basic

/-! The pages of a database file as nodes of a tree, and the rows that the tree holds. -/

namespace RecordMap.Schema.Image

/-- Pages are counted from one. -/
def pageStart (image : Image) (page : Nat) : Nat := image.pageSize * (page - 1)

/-- The first page has the header of the file before its own. -/
def nodeStart (image : Image) (page : Nat) : Nat :=
  image.pageStart page + if page = 1 then 100 else 0

inductive NodeKind where
  | leaf
  /-- Cells with pages, and one more page behind them. -/
  | branch
deriving DecidableEq, Repr

structure Node where
  kind : NodeKind
  cells : List Nat
  /-- The page that comes behind the cells of a branch. -/
  lastPage : Nat

def maxCells (image : Image) : Nat := (image.pageSize - 8) / 6

def nodeKind? (code : Nat) : Option NodeKind :=
  if code = 13 then some .leaf else if code = 5 then some .branch else none

def node? (image : Image) (page : Nat) : Option Node :=
  let start := image.nodeStart page
  let count := numberAt image.bytes (start + 3) 2
  if page = 0 ∨ image.pageCount < page ∨ image.maxCells < count then none
  else (nodeKind? (byteAt image.bytes start)).map fun kind =>
    let table := start + if kind = .leaf then 8 else 12
    { kind
      cells := (List.range count).map fun i =>
        image.pageStart page + numberAt image.bytes (table + 2 * i) 2 % image.pageSize
      lastPage := numberAt image.bytes (start + 8) 4 }

/-! ### Rows -/

def maxLocalSize (image : Image) : Nat := image.usableSize - 35

/-- How many bytes of a longer row stand in its cell, so that the others fill whole pages if that
leaves room for as many as the cell has to hold. -/
def localSize (image : Image) (size : Nat) : Nat :=
  if size ≤ image.maxLocalSize then size
  else
    let least := (image.usableSize - 12) * 32 / 255 - 23
    let filling := least + (size - least) % (image.usableSize - 4)
    if filling ≤ image.maxLocalSize then filling else least

/-- The bytes of a row that stand in no cell. Each of their pages begins with the number of the
next. -/
def overflow (image : Image) (page size : Nat) : Nat → Except Fault (List UInt8)
  | 0 => if size = 0 then .ok [] else .error .malformed
  | pagesLeft + 1 =>
    if size = 0 then .ok []
    else if page = 0 ∨ image.pageCount < page then .error .malformed
    else
      let start := image.pageStart page
      let count := min size (image.usableSize - 4)
      (overflow image (numberAt image.bytes start 4) (size - count) pagesLeft).map
        (bytesAt image.bytes (start + 4) count ++ ·)

/-- The row in a cell: its size, its number, and its bytes. -/
def row (image : Image) (page cell : Nat) : Except Fault ByteArray :=
  let (size, place) := shortNumberAt image.bytes cell
  let (_, place) := shortNumberAt image.bytes place
  let count := image.localSize size
  if image.pageStart page + image.pageSize < place + count then .error .malformed
  else
    (overflow image (numberAt image.bytes (place + count) 4) (size - count) image.pageCount).map
      fun rest => ⟨(bytesAt image.bytes place count ++ rest).toArray⟩

def maxDepth : Nat := 20

/-- The rows of a tree, in the order of their numbers. Only at the root there can be no cells. -/
def rowsFrom (image : Image) (page : Nat) (isRoot : Bool) : Nat → Except Fault (List ByteArray)
  | 0 => .error .malformed
  | depth + 1 =>
    match image.node? page with
    | none => .error .malformed
    | some node =>
      if node.cells.isEmpty && !isRoot then .error .malformed
      else match node.kind with
        | .leaf => node.cells.mapM (image.row page)
        | .branch =>
          ((node.cells.map fun cell => numberAt image.bytes cell 4) ++ [node.lastPage]).foldlM
            (fun rows child => (rowsFrom image child false depth).map (rows ++ ·)) []

def rows (image : Image) (root : Nat) : Except Fault (List ByteArray) :=
  image.rowsFrom root true maxDepth

end RecordMap.Schema.Image
