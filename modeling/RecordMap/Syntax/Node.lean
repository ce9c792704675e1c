import RecordMap.Text.Basic

/-! Syntax trees of Ruby sources. Kinds and field names are those of the Ruby grammar. -/

namespace RecordMap.Syntax

structure Label where
  kind : String
  /-- Tokens such as `"=>"` are anonymous. -/
  named : Bool
  field : Option String
  /-- Offsets into the bytes of the source. -/
  start : Nat
  stop : Nat
  /-- The line on which the node starts, counted from one. -/
  line : Nat
  text : Text
deriving DecidableEq, Repr, Inhabited

inductive Node where
  | mk (label : Label) (children : List Node)
deriving Inhabited

namespace Node

def label : Node → Label
  | mk l _ => l

def children : Node → List Node
  | mk _ cs => cs

def kind (n : Node) : String := n.label.kind

def named (n : Node) : Bool := n.label.named

def text (n : Node) : Text := n.label.text

def is (n : Node) (kind : String) : Bool := n.kind == kind

def namedChildren (n : Node) : List Node := n.children.filter named

def child? (n : Node) (field : String) : Option Node :=
  n.children.find? fun c => c.label.field == some field

mutual
def size : Node → Nat
  | mk _ cs => sizeOfAll cs + 1
def sizeOfAll : List Node → Nat
  | [] => 0
  | c :: cs => c.size + sizeOfAll cs
end

@[simp] theorem children_mk (l : Label) (cs : List Node) : (mk l cs).children = cs := rfl

theorem sizeOfAll_append (ms ns : List Node) :
    sizeOfAll (ms ++ ns) = sizeOfAll ms + sizeOfAll ns := by
  induction ms with
  | nil => rw [List.nil_append, sizeOfAll, Nat.zero_add]
  | cons m ms ih => rw [List.cons_append, sizeOfAll, sizeOfAll, ih, Nat.add_assoc]

theorem size_pos (n : Node) : 0 < n.size := by
  cases n
  simp [size]

end Node

/-- A source as a tree. A source with errors still has one. -/
structure Tree where
  root : Node
  hasError : Bool
deriving Inhabited

end RecordMap.Syntax
