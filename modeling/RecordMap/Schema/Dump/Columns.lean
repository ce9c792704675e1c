import RecordMap.Schema.Dump.Header

/-! The columns that the body of a table declares. -/

namespace RecordMap.Schema.Dump

open Text

def columnKinds : List Text :=
  ["string", "text", "integer", "bigint", "float", "decimal", "boolean", "date", "datetime", "time",
    "timestamp", "timestamptz", "binary", "blob", "references", "belongs_to", "column", "json",
    "jsonb", "uuid", "inet", "cidr", "macaddr", "hstore", "citext", "interval", "numeric",
    "virtual", "numrange", "tsrange", "tstzrange", "daterange", "int4range", "int8range", "point",
    "line", "xml", "money", "bit", "bit_varying", "ltree", "enum"].map String.toList

structure ColumnCall where
  receiver : Text
  kind : Text
  name : Text
  options : Text
deriving DecidableEq, Repr

/-- The rest behind a comma, the blanks after it and what remains of that line. -/
def afterOptions (t : Text) : Text :=
  match dropBlanks t with
  | ',' :: cs => (dropBlanks cs).dropWhile (· ≠ '\n')
  | _ => t

def methodCall? (t : Text) : Option (Text × Text × Text) := do
  let (receiver, t) ← word? t
  let t ← after? '.' t
  let (method, t) ← word? t
  some (receiver, method, t)

/-- A call `t.KIND NAME, OPTIONS`. -/
def columnCall : Pattern ColumnCall := fun _ t => do
  let (receiver, kind, t) ← methodCall? t
  if columnKinds.contains kind then
    let (name, t) ← name? (openBracket t)
    let rest := afterOptions t
    some (⟨receiver, kind, name, t.take (t.length - rest.length)⟩, rest)
  else none

/-- A call `t.timestamps`, of which the receiver matters. -/
def timestampsCall : Pattern Text := fun _ t => do
  let (receiver, method, t) ← methodCall? t
  if method = "timestamps".toList then some (receiver, t) else none

def isNotNull (options : Text) : Bool :=
  (option "null" fun t => (afterAll? "false" t).map ((), ·)).occursIn options

def isPolymorphic (options : Text) : Bool :=
  (option "polymorphic" fun t => (afterAll? "true" t).map ((), ·)).occursIn options

def declaredType? (options : Text) : Option Text := do
  let t ← after? ',' (dropBlanks options)
  let (type, _) ← symbol? (dropBlanks t)
  some type

/-- The columns of a call. A reference has a column for the other record's key and, if it is
polymorphic, one for its type. -/
def ColumnCall.columns (c : ColumnCall) : List Column :=
  let nullable := !isNotNull c.options
  if c.kind = "references".toList ∨ c.kind = "belongs_to".toList then
    let key : Column := ⟨c.name ++ "_id".toList, "bigint".toList, nullable⟩
    if isPolymorphic c.options then [key, ⟨c.name ++ "_type".toList, "string".toList, nullable⟩]
    else [key]
  else if c.kind = "column".toList then [⟨c.name, (declaredType? c.options).getD [], nullable⟩]
  else [⟨c.name, c.kind, nullable⟩]

def timestampColumns : List Column :=
  ["created_at", "updated_at"].map fun name => ⟨name.toList, "datetime".toList, false⟩

/-- The columns that the calls on a block's variable declare. Those of timestamps come last. -/
def bodyColumns (body receiver : Text) : List Column :=
  ((columnCall.all body).filter (·.value.receiver == receiver)).flatMap (·.value.columns) ++
    if (timestampsCall.all body).any (·.value == receiver) then timestampColumns else []

end RecordMap.Schema.Dump
