import RecordMap.Syntax.Node

/-! Values of string, symbol and boolean literals. -/

namespace RecordMap.Syntax

inductive Literal where
  | text (value : Text)
  | truth (value : Bool)
deriving DecidableEq, Repr

def Literal.text? : Literal → Option Text
  | .text t => some t
  | .truth _ => none

namespace Node

/-- The value of a string, symbol or boolean literal. Strings and quoted symbols with
interpolations or escapes have none. -/
def literal? (n : Node) : Option Literal :=
  match n.kind with
  | "string" | "delimited_symbol" =>
    if n.namedChildren.all (·.is "string_content") then some (.text (n.namedChildren.flatMap text))
    else none
  | "simple_symbol" => some (.text (n.text.drop 1))
  | "hash_key_symbol" => some (.text n.text)
  | "true" => some (.truth true)
  | "false" => some (.truth false)
  | _ => none

def textLiteral? (n : Node) : Option Text := n.literal?.bind Literal.text?

def isTextLiteral (n : Node) : Bool := n.textLiteral?.isSome

def isSymbol (n : Node) : Bool := n.kind ∈ ["simple_symbol", "hash_key_symbol", "delimited_symbol"]

def isTrue (n : Node) : Bool := n.is "true"

end Node

end RecordMap.Syntax
