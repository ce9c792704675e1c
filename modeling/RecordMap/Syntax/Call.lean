import RecordMap.Syntax.Literal
import RecordMap.Syntax.Place

/-! Method calls. An assignment to an attribute, `foo.bar = x`, is a call of the method `bar=` with
one argument. -/

namespace RecordMap.Syntax.Node

/-- The call on the left of an assignment to an attribute. -/
def assignedCall? (n : Node) : Option Node :=
  if n.is "assignment" then
    (n.child? "left").filter fun left => left.is "call" && (left.child? "arguments").isNone
  else none

def isCall (n : Node) : Bool := n.is "call" || n.assignedCall?.isSome

def calledName? (call : Node) : Option Text := (call.child? "method").map text

def methodName? (n : Node) : Option Text :=
  if n.is "call" then n.calledName?
  else match n.assignedCall?.bind calledName? with
    | none | some [] => none
    | some name => some (name ++ ['='])

def calls (n : Node) (name : String) : Bool := n.isCall && n.methodName? == some name.toList

def receiver? (n : Node) : Option Node :=
  if n.is "call" then n.child? "receiver" else n.assignedCall?.bind (·.child? "receiver")

def arguments (n : Node) : List Node :=
  if n.is "call" then
    match n.child? "arguments" with
    | some list => list.namedChildren.filter fun a => !a.is "comment"
    | none => []
  else if n.assignedCall?.isSome then (n.child? "right").toList
  else []

def firstArgument? (n : Node) : Option Node := n.arguments.head?

def lastArgument? (n : Node) : Option Node := n.arguments.getLast?

def firstText? (n : Node) : Option Text := n.firstArgument?.bind textLiteral?

end Node

namespace Place

/-- The nearest enclosing call selects rows. -/
def isInCondition (p : Place) : Bool :=
  match (p.ancestors ["call"]).head?.bind Node.methodName? with
  | some name => name == "where".toList || name == "rewhere".toList
  | none => false

end RecordMap.Syntax.Place
