import RecordMap.Syntax.Call

/-! Declarations that a record belongs to another one. -/

namespace RecordMap.Model

open Syntax

structure Association where
  name : Text
  foreignKey : Option Text := none
  polymorphic : Bool := false
  className : Option Text := none
  declaredBy : Text := "belongs_to".toList
deriving DecidableEq, Repr

namespace Association

def conventionalKey (a : Association) : Text := a.name ++ "_id".toList

def typeColumn (a : Association) : Text := a.name ++ "_type".toList

def key (a : Association) : Text := a.foreignKey.getD a.conventionalKey

end Association

/-- A call `belongs_to :name, …` without a receiver. -/
def declaresAssociation (n : Node) : Bool :=
  n.is "call" && n.methodName? == some "belongs_to".toList && n.receiver?.isNone &&
    n.firstText?.isSome

/-- The key of a pair is a symbol: `key:`, `:key =>` and `"key":` are, `"key" =>` is not. -/
def hasSymbolKey (pair key : Node) : Bool :=
  key.isSymbol || (key.is "string" && !pair.children.any (·.is "=>"))

def option? (pair : Node) : Option (Text × Node) := do
  let key ← pair.child? "key"
  let value ← pair.child? "value"
  if hasSymbolKey pair key then
    let name ← key.textLiteral?
    some (name, value)
  else none

def firstOfEach : List (Text × Node) → List (Text × Node)
  | [] => []
  | (k, v) :: rest => (k, v) :: (firstOfEach rest).filter (·.1 != k)

/-- The pairs behind the name: those of a hash in braces at the end, or bare ones. -/
def optionPairs (call : Node) : List Node :=
  match call.arguments with
  | [] | [_] => []
  | _ :: rest =>
    match rest.getLast? with
    | some last =>
      if last.is "hash" then last.namedChildren.filter (·.is "pair") else rest.filter (·.is "pair")
    | none => []

def options (call : Node) : List (Text × Node) := firstOfEach ((optionPairs call).filterMap option?)

def optionValue? (call : Node) (name : String) : Option Literal :=
  ((options call).lookup name.toList).bind Node.literal?

def Association.ofCall? (call : Node) : Option Association :=
  call.firstText?.map fun name => {
    name
    foreignKey := (optionValue? call "foreign_key").bind Literal.text?
    polymorphic := optionValue? call "polymorphic" == some (.truth true)
    className := (optionValue? call "class_name").bind Literal.text? }

def declarations (c : Place) : List (Association × Node) :=
  (c.findAll fun p => declaresAssociation p.node).filterMap fun p =>
    (Association.ofCall? p.node).map (·, p.node)

def associations (c : Place) : List Association := (declarations c).map (·.1)

end RecordMap.Model
