import RecordMap.Proofs.Syntax.Calls
import RecordMap.Syntax.Definition

/-! The constants that name a definition, read off the path that is written at it. Scopes that are no
constants name nothing. -/

namespace RecordMap.Syntax.Node

variable {n child : Node} {segments : List Text}

/-! ### Children in fields -/

theorem size_lt_of_mem_children {c : Node} (h : c ∈ n.children) : c.size < n.size := by
  obtain ⟨l, cs⟩ := n
  obtain ⟨before, behind, hcs⟩ := List.append_of_mem h
  rw [children_mk] at hcs
  rw [hcs, size, sizeOfAll_append, sizeOfAll]
  omega

theorem size_lt_of_child? {field : String} (h : n.child? field = some child) : child.size < n.size :=
  size_lt_of_mem_children (List.mem_of_find?_eq_some h)

/-! ### Paths -/

/-- The constant at the end of a path, if it ends in one. -/
inductive EndsIn (n : Node) : List Text → Prop where
  | constant {name : Node} (hname : n.child? "name" = some name) (hkind : name.kind = "constant") :
      EndsIn n [name.text]
  | nothing (hname : ∀ name, n.child? "name" = some name → name.kind ≠ "constant") : EndsIn n []

/-- The constants of a path, outermost first. -/
inductive Names : Node → List Text → Prop where
  | constant {n : Node} (hkind : n.kind = "constant") : Names n [n.text]
  | inScope {n scope : Node} {front last : List Text} (hkind : n.kind = "scope_resolution")
      (hscope : n.child? "scope" = some scope) (hfront : Names scope front) (hlast : EndsIn n last) :
      Names n (front ++ last)
  | atTop {n : Node} {last : List Text} (hkind : n.kind = "scope_resolution")
      (hscope : n.child? "scope" = none) (hlast : EndsIn n last) : Names n last
  | other {n : Node} (hconstant : n.kind ≠ "constant") (hscoped : n.kind ≠ "scope_resolution") :
      Names n []

/-- The path at a class or module definition names these constants. -/
inductive Defines (n : Node) : List Text → Prop where
  | path {name : Node} {segments : List Text} (hname : n.child? "name" = some name)
      (h : Names name segments) : Defines n segments
  | unnamed (hname : n.child? "name" = none) : Defines n []

theorem endsIn_iff : n.EndsIn segments ↔ n.lastSegment = segments := by
  unfold lastSegment
  constructor
  · rintro (⟨hname, hkind⟩ | hname)
    · simp [hname, is_iff.mpr hkind]
    · cases hchild : n.child? "name" with
      | none => rfl
      | some name => simp [mt is_iff.mp (hname name hchild)]
  · rintro rfl
    cases hchild : n.child? "name" with
    | none => exact .nothing (by simp [hchild])
    | some name =>
      by_cases hkind : name.kind = "constant"
      · simp only [if_pos (is_iff.mpr hkind)]
        exact .constant hchild hkind
      · simp only [if_neg (mt is_iff.mp hkind)]
        refine .nothing fun name' hname' => ?_
        rw [hchild] at hname'
        exact Option.some.inj hname' ▸ hkind

theorem scopeSegments_eq (cs : List Node) :
    scopeSegments cs =
      ((cs.find? fun c => c.label.field == some "scope").map Node.segments).getD [] := by
  induction cs with
  | nil => rfl
  | cons c cs ih =>
    rw [scopeSegments, List.find?_cons, ih]
    by_cases hfield : c.label.field = some "scope"
    · rw [if_pos hfield, beq_iff_eq.mpr hfield]
      rfl
    · rw [if_neg hfield, beq_eq_false_iff_ne.mpr hfield]

theorem segments_eq (n : Node) :
    n.segments =
      if n.kind = "constant" then [n.text]
      else if n.kind = "scope_resolution" then
        ((n.child? "scope").map Node.segments).getD [] ++ n.lastSegment
      else [] := by
  obtain ⟨l, cs⟩ := n
  rw [Node.segments, scopeSegments_eq]
  rfl

theorem names_segments (n : Node) : n.Names n.segments := by
  -- a scope is a child, so the induction is on the size of the path
  induction hn : n.size using Nat.strongRecOn generalizing n with
  | ind size ih =>
    rw [segments_eq]
    by_cases hconstant : n.kind = "constant"
    · rw [if_pos hconstant]
      exact .constant hconstant
    · rw [if_neg hconstant]
      by_cases hscoped : n.kind = "scope_resolution"
      · have hlast := endsIn_iff.mpr (Eq.refl n.lastSegment)
        rw [if_pos hscoped]
        cases hscope : n.child? "scope" with
        | none => exact .atTop hscoped hscope hlast
        | some scope =>
          exact .inScope hscoped hscope (ih _ (hn ▸ size_lt_of_child? hscope) scope rfl) hlast
      · rw [if_neg hscoped]
        exact .other hconstant hscoped

theorem Names.segments_eq (h : n.Names segments) : n.segments = segments := by
  induction h with
  | constant hkind => rw [Node.segments_eq, if_pos hkind]
  | inScope hkind hscope _ hlast ih =>
    rw [Node.segments_eq, hkind, if_neg (by decide), if_pos rfl, hscope, Option.map_some,
      Option.getD_some, ih, endsIn_iff.mp hlast]
  | atTop hkind hscope hlast =>
    rw [Node.segments_eq, hkind, if_neg (by decide), if_pos rfl, hscope, endsIn_iff.mp hlast]
    rfl
  | other hconstant hscoped => rw [Node.segments_eq, if_neg hconstant, if_neg hscoped]

theorem names_iff : n.Names segments ↔ n.segments = segments := by
  constructor
  · exact Names.segments_eq
  · rintro rfl
    exact names_segments n

theorem defines_iff : n.Defines segments ↔ n.nameSegments = segments := by
  unfold nameSegments
  constructor
  · rintro (⟨hname, h⟩ | hname)
    · rw [hname]
      exact names_iff.mp h
    · rw [hname]
  · rintro rfl
    cases hname : n.child? "name" with
    | none => exact .unnamed hname
    | some name => exact .path hname (names_iff.mpr rfl)

end RecordMap.Syntax.Node
