import Mathlib.Data.List.Basic
import Mathlib.Data.List.Find
import Mathlib.Data.Option.Basic
import RecordMap.Syntax.Call

/-! What nodes say does not depend on where they stand in the source: literals, calls and the nodes
below are those of the tree without positions. -/

namespace RecordMap.Syntax.Node

mutual
/-- The node and all below it without their positions in the source. -/
def unplaced : Node → Node
  | mk l cs => mk { l with start := 0, stop := 0, line := 1 } (unplacedAll cs)
def unplacedAll : List Node → List Node
  | [] => []
  | c :: cs => c.unplaced :: unplacedAll cs
end

mutual
/-- The named nodes below that are reached through named nodes, in source order. -/
def descendants : Node → List Node
  | mk _ cs => descendantsOfAll cs
def descendantsOfAll : List Node → List Node
  | [] => []
  | c :: cs => (if c.named then c :: c.descendants else []) ++ descendantsOfAll cs
end

/-! ### Labels and children -/

theorem unplacedAll_eq (cs : List Node) : unplacedAll cs = cs.map unplaced := by
  induction cs with
  | nil => rfl
  | cons c cs ih => rw [unplacedAll, ih, List.map_cons]

@[simp] theorem children_unplaced (n : Node) : n.unplaced.children = n.children.map unplaced := by
  obtain ⟨l, cs⟩ := n
  exact unplacedAll_eq cs

@[simp] theorem kind_unplaced (n : Node) : n.unplaced.kind = n.kind := by cases n; rfl

@[simp] theorem named_unplaced (n : Node) : n.unplaced.named = n.named := by cases n; rfl

@[simp] theorem text_unplaced (n : Node) : n.unplaced.text = n.text := by cases n; rfl

@[simp] theorem field_unplaced (n : Node) : n.unplaced.label.field = n.label.field := by cases n; rfl

@[simp] theorem is_unplaced (n : Node) (kind : String) : n.unplaced.is kind = n.is kind := by simp [is]

@[simp] theorem namedChildren_unplaced (n : Node) :
    n.unplaced.namedChildren = n.namedChildren.map unplaced := by
  simp [namedChildren, List.filter_map, Function.comp_def]

@[simp] theorem child?_unplaced (n : Node) (field : String) :
    n.unplaced.child? field = (n.child? field).map unplaced := by
  simp [child?, List.find?_map]

/-! ### Literals and calls -/

@[simp] theorem literal?_unplaced (n : Node) : n.unplaced.literal? = n.literal? := by
  simp [literal?, List.all_map, List.flatMap_map, Function.comp_def]

@[simp] theorem textLiteral?_unplaced (n : Node) : n.unplaced.textLiteral? = n.textLiteral? := by
  simp [textLiteral?]

@[simp] theorem assignedCall?_unplaced (n : Node) :
    n.unplaced.assignedCall? = n.assignedCall?.map unplaced := by
  unfold assignedCall?
  rw [is_unplaced, child?_unplaced]
  split
  case isTrue _ => simp [Option.filter_map, Function.comp_def]
  case isFalse _ => rfl

@[simp] theorem calledName?_unplaced (n : Node) : n.unplaced.calledName? = n.calledName? := by
  simp [calledName?, Function.comp_def]

@[simp] theorem methodName?_unplaced (n : Node) : n.unplaced.methodName? = n.methodName? := by
  simp [methodName?, Option.bind_map]

@[simp] theorem calls_unplaced (n : Node) (name : String) : n.unplaced.calls name = n.calls name := by
  simp [calls, isCall]

@[simp] theorem receiver?_unplaced (n : Node) : n.unplaced.receiver? = n.receiver?.map unplaced := by
  unfold receiver?
  rw [is_unplaced, child?_unplaced, assignedCall?_unplaced]
  split
  case isTrue _ => rfl
  case isFalse _ => simp [Option.bind_map, Option.map_bind]

@[simp] theorem arguments_unplaced (n : Node) : n.unplaced.arguments = n.arguments.map unplaced := by
  unfold arguments
  rw [is_unplaced, child?_unplaced, child?_unplaced, assignedCall?_unplaced, Option.isSome_map]
  split
  case isTrue _ =>
    cases n.child? "arguments" with
    | none => rfl
    | some list => simp [List.filter_map, Function.comp_def]
  case isFalse _ =>
    split
    case isTrue _ => cases n.child? "right" <;> rfl
    case isFalse _ => rfl

@[simp] theorem firstText?_unplaced (n : Node) : n.unplaced.firstText? = n.firstText? := by
  simp [firstText?, firstArgument?, Option.bind_map]

/-! ### Nodes below -/

mutual
theorem map_node_placesBelow (above : List Node) (index : Nat) (n : Node) :
    (n.placesBelow named above index).map (·.node) = n.descendants := by
  obtain ⟨l, cs⟩ := n
  exact map_node_placesOfAll _ _ cs
theorem map_node_placesOfAll (above : List Node) (index : Nat) (cs : List Node) :
    (placesOfAll named above index cs).map (·.node) = descendantsOfAll cs := by
  match cs with
  | [] => rfl
  | c :: cs =>
    rw [placesOfAll, descendantsOfAll, List.map_append, map_node_placesOfAll _ _ cs]
    split
    case isTrue _ => rw [List.map_cons, map_node_placesBelow _ _ c]
    case isFalse _ => rfl
end

mutual
theorem descendants_unplaced (n : Node) : n.unplaced.descendants = n.descendants.map unplaced := by
  obtain ⟨l, cs⟩ := n
  exact descendantsOfAll_unplacedAll cs
theorem descendantsOfAll_unplacedAll (cs : List Node) :
    descendantsOfAll (unplacedAll cs) = (descendantsOfAll cs).map unplaced := by
  match cs with
  | [] => rfl
  | c :: cs =>
    rw [unplacedAll, descendantsOfAll, descendantsOfAll, descendantsOfAll_unplacedAll cs,
      named_unplaced, List.map_append, descendants_unplaced c]
    split <;> rfl
end

theorem descendantsOfAll_eq (cs : List Node) :
    descendantsOfAll cs = (cs.filter named).flatMap fun c => c :: c.descendants := by
  induction cs with
  | nil => rfl
  | cons c cs ih =>
    rw [descendantsOfAll, ih, List.filter_cons]
    split <;> rfl

theorem descendantsOfAll_append (cs ds : List Node) :
    descendantsOfAll (cs ++ ds) = descendantsOfAll cs ++ descendantsOfAll ds := by
  rw [descendantsOfAll_eq, List.filter_append, List.flatMap_append, ← descendantsOfAll_eq,
    ← descendantsOfAll_eq]

theorem mem_descendants_iff {n m : Node} :
    m ∈ n.descendants ↔ ∃ c ∈ n.children, c.named = true ∧ m ∈ c :: c.descendants := by
  obtain ⟨l, cs⟩ := n
  rw [descendants, descendantsOfAll_eq]
  simp only [List.mem_flatMap, List.mem_filter, children_mk, and_assoc]

theorem forall_mem_cons_descendants {n : Node} {holds : Node → Prop} (hself : holds n)
    (hchildren : ∀ c ∈ n.children, c.named = true → ∀ m ∈ c :: c.descendants, holds m) :
    ∀ m ∈ n :: n.descendants, holds m := by
  intro m hm
  rcases List.mem_cons.mp hm with rfl | hm
  · exact hself
  · obtain ⟨c, hc, hnamed, hm⟩ := mem_descendants_iff.mp hm
    exact hchildren c hc hnamed m hm

end RecordMap.Syntax.Node
