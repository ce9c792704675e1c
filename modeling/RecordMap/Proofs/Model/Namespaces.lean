import RecordMap.Proofs.Model.TargetTable
import RecordMap.Proofs.Syntax.Names
import RecordMap.Proofs.Syntax.Walk

/-! The two paths to a definition, the one in its table name and the one in its full name. Both follow
the classes and modules around it from the outermost one on. -/

namespace RecordMap.Syntax.Place

variable {p : Place} {outer : List Node} {definition : Node} {segments : List Text}
  {adds : List Text → List Text → Prop} {pick : List Text → List Text}

inductive IsLast : List Text → List Text → Prop where
  | last (front : List Text) (segment : Text) : IsLast (front ++ [segment]) [segment]
  | none : IsLast [] []

/-- The path through some nodes, the outermost one first, to a definition. Of each class and module on
the way it takes what `adds` tells, and of the definition all constants. -/
inductive Leads (adds : List Text → List Text → Prop) (definition : Node) :
    List Node → List Text → Prop where
  | here {segments : List Text} (h : definition.Defines segments) : Leads adds definition [] segments
  | through {n : Node} {outer : List Node} {own part segments : List Text}
      (hn : n.kind = "class" ∨ n.kind = "module") (hown : n.Defines own) (hpart : adds own part)
      (h : Leads adds definition outer segments) :
      Leads adds definition (n :: outer) (part ++ segments)
  | past {n : Node} {outer : List Node} {segments : List Text} (hclass : n.kind ≠ "class")
      (hmodule : n.kind ≠ "module") (h : Leads adds definition outer segments) :
      Leads adds definition (n :: outer) segments

/-- Gathers the path to a definition on the way outwards and turns it around at the end. -/
def shortSegmentsOutwards (p : Place) : List Text :=
  (p.namespaces.foldl (fun names n => names ++ n.nameSegments.getLast?.toList)
    p.node.nameSegments.reverse).reverse

def fullSegmentsOutwards (p : Place) : List Text :=
  p.above.foldl
    (fun segments n => if n.kind ∈ ["class", "module"] then n.nameSegments ++ segments else segments)
    p.node.nameSegments

/-! ### The way inwards -/

theorem isLast_iff (own part : List Text) : IsLast own part ↔ own.getLast?.toList = part := by
  constructor
  · rintro (⟨front, segment⟩ | _)
    · rw [List.getLast?_concat]
      rfl
    · rfl
  · rintro rfl
    rcases List.eq_nil_or_concat own with rfl | ⟨front, segment, rfl⟩
    · exact .none
    · rw [List.concat_eq_append, List.getLast?_concat]
      exact .last front segment

theorem leads_iff (hadds : ∀ own part, adds own part ↔ pick own = part) :
    Leads adds definition outer segments ↔
      ((outer.filter (·.kind ∈ ["class", "module"])).flatMap fun n => pick n.nameSegments) ++
        definition.nameSegments = segments := by
  constructor
  · intro h
    induction h with
    | here h => exact Node.defines_iff.mp h
    | through hn hown hpart _ ih =>
      rw [List.filter_cons_of_pos (by simpa using hn), List.flatMap_cons, Node.defines_iff.mp hown,
        (hadds _ _).mp hpart, List.append_assoc, ih]
    | past hclass hmodule _ ih => rw [List.filter_cons_of_neg (by simp [hclass, hmodule]), ih]
  · rintro rfl
    induction outer with
    | nil => exact .here (Node.defines_iff.mpr rfl)
    | cons n outer ih =>
      by_cases hn : n.kind = "class" ∨ n.kind = "module"
      · rw [List.filter_cons_of_pos (by simpa using hn), List.flatMap_cons, List.append_assoc]
        exact .through hn (Node.defines_iff.mpr rfl) ((hadds _ _).mpr rfl) ih
      · obtain ⟨hclass, hmodule⟩ := not_or.mp hn
        rw [List.filter_cons_of_neg (by simp [hclass, hmodule])]
        exact .past hclass hmodule ih

theorem leads_shortSegments_iff :
    Leads IsLast p.node p.above.reverse segments ↔ p.shortSegments = segments := by
  rw [leads_iff isLast_iff, List.filter_reverse]
  rfl

theorem leads_fullSegments_iff :
    Leads Eq p.node p.above.reverse segments ↔ p.fullSegments = segments := by
  have hall : ∀ own part : List Text, own = part ↔ id own = part := fun _ _ => Iff.rfl
  rw [leads_iff hall, List.filter_reverse]
  rfl

/-! ### The way outwards -/

theorem shortSegmentsOutwards_eq (p : Place) : p.shortSegmentsOutwards = p.shortSegments := by
  have hone : ∀ n : Node, n.nameSegments.getLast?.toList.reverse = n.nameSegments.getLast?.toList := by
    intro n
    cases n.nameSegments.getLast? <;> rfl
  unfold shortSegmentsOutwards shortSegments
  generalize p.node.nameSegments = own, p.namespaces = outer
  rw [← List.reverse_reverse own]
  generalize own.reverse = names
  rw [List.reverse_reverse]
  induction outer generalizing names with
  | nil => rfl
  | cons n outer ih =>
    rw [List.foldl_cons, ih, List.reverse_append, hone, List.reverse_cons, List.flatMap_append,
      List.flatMap_singleton, List.append_assoc]

theorem fullSegmentsOutwards_eq (p : Place) : p.fullSegmentsOutwards = p.fullSegments := by
  unfold fullSegmentsOutwards fullSegments namespaces ancestors
  generalize p.node.nameSegments = own
  induction p.above generalizing own with
  | nil => rfl
  | cons n above ih =>
    rw [List.foldl_cons, ih, List.filter_cons]
    by_cases hn : n.kind ∈ ["class", "module"]
    · rw [if_pos hn, if_pos (decide_eq_true hn), List.reverse_cons, List.flatMap_append,
        List.flatMap_singleton, List.append_assoc]
    · rw [if_neg hn, if_neg (by simpa using hn)]

/-! ### Both paths -/

theorem shortSegments_sublist (p : Place) : p.shortSegments.Sublist p.fullSegments := by
  unfold shortSegments fullSegments
  refine List.Sublist.append_right ?_ _
  generalize p.namespaces.reverse = outer
  induction outer with
  | nil => exact .slnil
  | cons n outer ih =>
    rw [List.flatMap_cons, List.flatMap_cons]
    refine List.Sublist.append ?_ ih
    cases hlast : n.nameSegments.getLast? with
    | none => exact List.nil_sublist _
    | some segment => exact List.singleton_sublist.mpr (List.mem_of_getLast? hlast)

/-- The path in the table name of a definition takes the last constant of every class and module around
it, the path in its full name takes all of them, and both go on with all constants of its own. They are
what is gathered on the way from the definition outwards. So the first path is the second one with some
constants left out, and none is left out where no definition around has more than one. -/
theorem paths_follow_enclosing_definitions (p : Place) :
    (∀ segments, p.shortSegments = segments ↔ Leads IsLast p.node p.above.reverse segments) ∧
    (∀ segments, p.fullSegments = segments ↔ Leads Eq p.node p.above.reverse segments) ∧
    p.fullName = joinScopes p.fullSegments ∧
    (∀ root between, Between (top root) p between →
      p.above.reverse = root :: (between.map (·.node)).reverse) ∧
    p.shortSegmentsOutwards = p.shortSegments ∧ p.fullSegmentsOutwards = p.fullSegments ∧
    p.shortSegments.Sublist p.fullSegments ∧
    ((∀ n ∈ p.namespaces, ∀ own, n.Defines own → own.length ≤ 1) →
      joinScopes p.shortSegments = p.fullName) := by
  refine ⟨fun _ => leads_shortSegments_iff.symm, fun _ => leads_fullSegments_iff.symm, rfl, ?_,
    p.shortSegmentsOutwards_eq, p.fullSegmentsOutwards_eq, p.shortSegments_sublist, fun h => ?_⟩
  · intro root between hbetween
    rw [hbetween.above_eq, List.reverse_append]
    rfl
  · have hsegments : ∀ n ∈ p.namespaces, n.nameSegments.length ≤ 1 :=
      fun n hn => h n hn _ (Node.defines_iff.mpr rfl)
    rw [Model.shortSegments_eq_fullSegments hsegments]
    rfl

end RecordMap.Syntax.Place
