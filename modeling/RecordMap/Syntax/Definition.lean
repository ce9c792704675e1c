import RecordMap.Syntax.Place

/-! Class and module definitions and the constants that name them. -/

namespace RecordMap.Syntax

namespace Node

def lastSegment (n : Node) : List Text :=
  match n.child? "name" with
  | some name => if name.is "constant" then [name.text] else []
  | none => []

mutual
/-- The constants of a path such as `Blog::Post`, outermost first. Scopes that are no constants
contribute nothing. -/
def segments : Node → List Text
  | mk l cs =>
    if l.kind = "constant" then [l.text]
    else if l.kind = "scope_resolution" then scopeSegments cs ++ lastSegment (mk l cs)
    else []
def scopeSegments : List Node → List Text
  | [] => []
  | c :: cs => if c.label.field = some "scope" then c.segments else scopeSegments cs
end

def nameSegments (definition : Node) : List Text :=
  match definition.child? "name" with
  | some name => name.segments
  | none => []

def superclass? (classNode : Node) : Option Node :=
  (classNode.child? "superclass").bind fun s => s.namedChildren.head?

end Node

def joinScopes (segments : List Text) : Text := [':', ':'].intercalate segments

def Node.writtenName (definition : Node) : Text := joinScopes definition.nameSegments

namespace Place

def namespaces (p : Place) : List Node := p.ancestors ["class", "module"]

/-- The constants of a definition behind those of every enclosing definition. -/
def fullSegments (p : Place) : List Text :=
  p.namespaces.reverse.flatMap Node.nameSegments ++ p.node.nameSegments

def fullName (p : Place) : Text := joinScopes p.fullSegments

/-- The constants of a definition behind the last constant of every enclosing definition. -/
def shortSegments (p : Place) : List Text :=
  p.namespaces.reverse.flatMap (fun n => n.nameSegments.getLast?.toList) ++ p.node.nameSegments

end Place

namespace Tree

def classes (t : Tree) : List Place := (Place.top t.root).findAll (·.node.is "class")

def classNamed? (t : Tree) (name : Text) : Option Place :=
  (Place.top t.root).findFirst? fun p => p.node.is "class" && p.fullName == name

end Tree

end RecordMap.Syntax
