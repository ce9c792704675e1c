import RecordMap.Syntax.Node

/-! Nodes at their place in a tree. A search below a place visits named nodes only, parents before
children and children in order, so what it finds is in source order. -/

namespace RecordMap.Syntax

/-- A node with the nodes that enclose it, innermost first, and its number in the order in which
parents come before children. -/
structure Place where
  node : Node
  above : List Node
  index : Nat

namespace Node

mutual
/-- The places below a node that are reached through nodes that `enter` admits. -/
def placesBelow (enter : Node → Bool) (above : List Node) (index : Nat) : Node → List Place
  | mk l cs => placesOfAll enter (mk l cs :: above) (index + 1) cs
def placesOfAll (enter : Node → Bool) (above : List Node) (index : Nat) : List Node → List Place
  | [] => []
  | c :: cs =>
    (if enter c then ⟨c, above, index⟩ :: placesBelow enter above index c else []) ++
      placesOfAll enter above (index + c.size) cs
end

end Node

namespace Place

def top (root : Node) : Place := ⟨root, [], 0⟩

def allBelow (p : Place) : List Place := p.node.placesBelow (fun _ => true) p.above p.index

/-- The named places below that are reached through named nodes. -/
def below (p : Place) : List Place := p.node.placesBelow Node.named p.above p.index

def at? (root : Node) (index : Nat) : Option Place :=
  (top root :: (top root).allBelow).find? (·.index == index)

def findAll (p : Place) (test : Place → Bool) : List Place := p.below.filter test

def findFirst? (p : Place) (test : Place → Bool) : Option Place := p.below.find? test

/-- How many places are tested until the first hit, which is included. -/
def testedUntilFirst (p : Place) (test : Place → Bool) : Nat :=
  min (p.below.findIdx test + 1) p.below.length

def ancestors (p : Place) (kinds : List String) : List Node := p.above.filter (·.kind ∈ kinds)

end Place

end RecordMap.Syntax
