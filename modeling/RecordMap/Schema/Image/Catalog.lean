import RecordMap.Schema.Declaration
import RecordMap.Schema.Image.Page
import RecordMap.Text.Utf16
import RecordMap.Text.Utf8

/-! The catalog of a database file: the tree at its first page, with a row for each table. -/

namespace RecordMap.Schema.Image

def fieldSize (code : Nat) : Nat :=
  if code < 12 then [0, 1, 2, 3, 4, 6, 8, 8].getD code 0 else (code - 12) / 2

inductive Field where
  | absent
  | number (n : Nat)
  | text (bytes : List UInt8)
  | other
deriving DecidableEq, Repr

/-- The field at a place. Two codes stand for numbers of no bytes. -/
def Field.ofCode (row : ByteArray) (place code : Nat) : Field :=
  if code = 0 then .absent
  else if code ≤ 6 then .number (numberAt row place (fieldSize code))
  else if code = 8 ∨ code = 9 then .number (code - 8)
  else if 13 ≤ code ∧ code % 2 = 1 then .text (bytesAt row place (fieldSize code))
  else .other

/-- The codes of the fields, which stand before the place `stop`. -/
def fieldCodes (row : ByteArray) (place stop : Nat) : Nat → List Nat
  | 0 => []
  | more + 1 =>
    if stop ≤ place then []
    else
      let (code, next) := shortNumberAt row place
      code :: fieldCodes row next stop more

def fields (row : ByteArray) : Nat → List Nat → List Field
  | _, [] => []
  | place, code :: codes =>
    .ofCode row place code :: fields row (place + fieldSize code) codes

def fieldsOf (row : ByteArray) : Except Fault (List Field) :=
  let (stop, place) := shortNumberAt row 0
  let codes := fieldCodes row place stop row.size
  if row.size < codes.foldl (fun size code => size + fieldSize code) stop then .error .malformed
  else .ok (fields row stop codes)

def decodeText (image : Image) (bytes : List UInt8) : Text :=
  match byteAt image.bytes 59 % 4 with
  | 2 => Text.Utf16.decode false bytes
  | 3 => Text.Utf16.decode true bytes
  | _ => Text.Utf8.decode bytes

def fieldText? (image : Image) : Field → Option Text
  | .text bytes => some (image.decodeText bytes)
  | _ => none

structure Entry where
  kind : Option Text
  name : Option Text
  root : Field
  declaration : Option Text

/-- The fields of an entry are its kind, its name, the name of its table, its page, and how it was
declared. -/
def entry (image : Image) (fields : List Field) : Entry :=
  let field := fun i => fields.getD i .absent
  { kind := image.fieldText? (field 0)
    name := image.fieldText? (field 1)
    root := field 3
    declaration := image.fieldText? (field 4) }

/-- The name of an entry in messages. A null character ends it. -/
def Entry.shownName (e : Entry) : Text := (e.name.getD ['?']).takeWhile (· != '\x00')

/-- The entry leads to a page of the file that is not before the given one. -/
def hasRoot (image : Image) (first : Nat) (e : Entry) : Bool :=
  match e.root with
  | .number page => first ≤ page && page ≤ image.pageCount
  | _ => false

/-- What is not declared has a name, and lies behind the catalog. What is declared and has no page
of its own leads to the page zero. -/
def checkEntry (image : Image) (e : Entry) : Except Fault Unit :=
  let declaration := e.declaration.getD []
  let isSound := if declaration = [] then e.name.isSome
    else (declaration.take 2).map Char.toLower == "cr".toList
  if e.root = .absent ∨ !isSound then .error (.badEntry e.shownName)
  else if image.hasRoot (if declaration = [] then 2 else 0) e then .ok ()
  else .error (.badRoot e.shownName)

def Entry.table? (e : Entry) : Option Table :=
  match e.name, e.declaration with
  | some name, some declaration =>
    if e.kind = some "table".toList then some ⟨name, Declaration.columns declaration⟩ else none
  | _, _ => none

def tables (bytes : ByteArray) : Except Fault (List Table) := do
  let image ← ofBytes bytes
  let rows ← image.rows 1
  let entries ← rows.mapM fun row => (fieldsOf row).map image.entry
  entries.forM image.checkEntry
  return entries.filterMap Entry.table?

end RecordMap.Schema.Image
