import RecordMap.Proofs.Model.Ownership
import RecordMap.Proofs.Syntax.Names
import RecordMap.Proofs.Syntax.Walk

/-! Which classes of a source are models. A class is one if it declares a record base as its superclass or
lies in a class that does, and the models in a model come directly behind it. A comment in front of the
superclass hides it. -/

namespace RecordMap.Syntax

/-! ### Places below a place -/

namespace Place

theorem below_split_child {c q : Place} (hq : q ∈ c.children) (hnamed : q.node.named = true) :
    ∃ front back, c.below = front ++ q :: (q.below ++ back) := by
  have hchild : q ∈ c.children.filter (·.node.named) := List.mem_filter.mpr ⟨hq, hnamed⟩
  obtain ⟨before, behind, hsplit⟩ := List.append_of_mem hchild
  refine ⟨before.flatMap fun r => r :: r.below, behind.flatMap fun r => r :: r.below, ?_⟩
  rw [below_eq, hsplit, List.flatMap_append, List.flatMap_cons, List.cons_append]

theorem below_split {c p : Place} (h : p ∈ c.below) :
    ∃ front back, c.below = front ++ p :: (p.below ++ back) := by
  induction c, p, h using below_induction with
  | child c q hq hnamed => exact below_split_child hq hnamed
  | deeper c q p hq hnamed hp ih =>
    obtain ⟨front, back, hc⟩ := below_split_child hq hnamed
    obtain ⟨front', back', hq⟩ := ih
    exact ⟨front ++ q :: front', back' ++ back, by rw [hc, hq]; simp⟩

end Place

/-! ### Superclasses -/

namespace Node

/-- Comments and the bodies of here-documents, which may stand anywhere in a tree. -/
def isExtra (n : Node) : Bool := n.is "comment" || n.is "heredoc_body"

/-- The expression behind the `<` of a class definition, whatever stands in between. -/
def declaredSuperclass? (n : Node) : Option Node :=
  (n.child? "superclass").bind fun s => s.namedChildren.find? fun c => !c.isExtra

/-- A comment or the like stands in front of the superclass. -/
def HidesSuperclass (n : Node) : Prop :=
  ∃ s e, n.child? "superclass" = some s ∧ s.namedChildren.head? = some e ∧ e.isExtra = true

variable {n s : Node}

theorem superclass?_eq_declared (h : ¬ n.HidesSuperclass) : n.superclass? = n.declaredSuperclass? := by
  unfold superclass? declaredSuperclass?
  cases hchild : n.child? "superclass" with
  | none => rfl
  | some s =>
    rw [Option.bind_some, Option.bind_some]
    cases hnamed : s.namedChildren with
    | nil => rfl
    | cons e rest =>
      have hextra : e.isExtra = false :=
        Bool.eq_false_iff.mpr fun he => h ⟨s, e, hchild, by rw [hnamed]; rfl, he⟩
      rw [List.head?_cons, List.find?_cons, hextra]
      rfl

theorem isExtra_of_hidesSuperclass (h : n.HidesSuperclass) (hs : n.superclass? = some s) :
    s.isExtra = true := by
  obtain ⟨field, e, hchild, hhead, hextra⟩ := h
  rw [superclass?, hchild, Option.bind_some, hhead] at hs
  exact Option.some.inj hs ▸ hextra

theorem segments_of_scope {scope : Node} (hkind : n.kind = "scope_resolution")
    (hscope : n.child? "scope" = some scope) (hconstant : scope.kind = "constant") :
    n.segments = scope.text :: n.lastSegment := by
  have hscopeSegments : scope.segments = [scope.text] := by rw [segments_eq, if_pos hconstant]
  rw [segments_eq, hkind, if_neg (by decide), if_pos rfl, hscope, Option.map_some, Option.getD_some,
    hscopeSegments]
  rfl

theorem lastSegment_eq_singleton_iff {t : Text} :
    n.lastSegment = [t] ↔ ∃ name, n.child? "name" = some name ∧ name.kind = "constant" ∧ name.text = t := by
  rw [← endsIn_iff]
  constructor
  · rintro ⟨hname, hkind⟩
    exact ⟨_, hname, hkind, rfl⟩
  · rintro ⟨name, hname, hkind, rfl⟩
    exact .constant hname hkind

end Node

end RecordMap.Syntax

namespace RecordMap.Model

open Syntax

variable {t : Tree} {c p : Place} {n : Node}

inductive NamesRecordBase : Node → Prop where
  | application {n : Node} (hkind : n.kind = "constant") (htext : n.text = "ApplicationRecord".toList) :
      NamesRecordBase n
  | base {n scope name : Node} (hkind : n.kind = "scope_resolution")
      (hscope : n.child? "scope" = some scope) (hconstant : scope.kind = "constant")
      (htext : scope.text = "ActiveRecord".toList) (hname : n.child? "name" = some name)
      (hlast : name.kind = "constant") (hbase : name.text = "Base".toList) : NamesRecordBase n

def DeclaresRecord (n : Node) : Prop :=
  n.kind = "class" ∧ ∃ s, n.declaredSuperclass? = some s ∧ NamesRecordBase s

/-- A class definition that is reached from the root through named nodes. -/
def IsClassOf (t : Tree) (p : Place) : Prop :=
  p.node.kind = "class" ∧ p.node.named = true ∧
    ∃ between, Place.Between (.top t.root) p between ∧ ∀ q ∈ between, q.node.named = true

theorem isRecordBase_iff : isRecordBase n = true ↔ NamesRecordBase n := by
  unfold isRecordBase
  constructor
  · intro h
    split_ifs at h with hconstant hscoped
    · exact .application (Node.is_iff.mp hconstant) (beq_iff_eq.mp h)
    · rw [Bool.and_eq_true, beq_iff_eq, Option.any_eq_true_iff_get] at h
      obtain ⟨⟨hsome, hkind⟩, hsegments⟩ := h
      have hscope := (Option.some_get hsome).symm
      rw [Node.segments_of_scope (Node.is_iff.mp hscoped) hscope (Node.is_iff.mp hkind)] at hsegments
      obtain ⟨htext, hlast⟩ := List.cons.inj hsegments
      obtain ⟨name, hname, hnameKind, hbase⟩ := Node.lastSegment_eq_singleton_iff.mp hlast
      exact .base (Node.is_iff.mp hscoped) hscope (Node.is_iff.mp hkind) htext hname hnameKind hbase
  · rintro (⟨hkind, htext⟩ | ⟨hkind, hscope, hconstant, htext, hname, hlast, hbase⟩)
    · rw [if_pos (Node.is_iff.mpr hkind), beq_iff_eq]
      exact htext
    · have hne : ¬ n.is "constant" = true := by
        rw [Node.is_iff, hkind]
        decide
      have hsegments := Node.segments_of_scope hkind hscope hconstant
      rw [htext, Node.lastSegment_eq_singleton_iff.mpr ⟨_, hname, hlast, hbase⟩] at hsegments
      rw [if_neg hne, if_pos (Node.is_iff.mpr hkind), hscope, hsegments, Option.any_some,
        Node.is_iff.mpr hconstant]
      rfl

theorem NamesRecordBase.not_isExtra (h : NamesRecordBase n) : n.isExtra = false := by
  unfold Node.isExtra Node.is
  rcases h with ⟨hkind, -⟩ | ⟨hkind, -⟩ <;> rw [hkind] <;> decide

theorem hasRecordSuperclass_iff :
    hasRecordSuperclass n = true ↔
      (∃ s, n.declaredSuperclass? = some s ∧ NamesRecordBase s) ∧ ¬ n.HidesSuperclass := by
  unfold hasRecordSuperclass
  constructor
  · intro h
    rw [Option.any_eq_true] at h
    obtain ⟨s, hs, hbase⟩ := h
    have hbase := isRecordBase_iff.mp hbase
    have hshown : ¬ n.HidesSuperclass := by
      intro hhides
      have hextra := Node.isExtra_of_hidesSuperclass hhides hs
      rw [hbase.not_isExtra] at hextra
      cases hextra
    exact ⟨⟨s, Node.superclass?_eq_declared hshown ▸ hs, hbase⟩, hshown⟩
  · rintro ⟨⟨s, hs, hbase⟩, hshown⟩
    rw [Node.superclass?_eq_declared hshown, hs]
    exact isRecordBase_iff.mpr hbase

/-! ### Models -/

theorem mem_classes_iff : p ∈ t.classes ↔ IsClassOf t p := by
  rw [Tree.classes, Place.mem_findAll_iff, Place.mem_below_iff_between, Node.is_iff, and_comm]
  rfl

theorem inheritsFromRecord_iff :
    inheritsFromRecord p = true ↔
      ∃ n ∈ p.node :: p.above, DeclaresRecord n ∧ ¬ n.HidesSuperclass := by
  have hshows : ∀ n, (n.is "class" = true ∧ hasRecordSuperclass n = true) ↔
      DeclaresRecord n ∧ ¬ n.HidesSuperclass := by
    intro n
    rw [Node.is_iff, hasRecordSuperclass_iff, ← and_assoc]
    rfl
  rw [inheritsFromRecord, Place.ancestors_class, Bool.or_eq_true, Bool.and_eq_true, hshows,
    List.any_filter, List.any_eq_true]
  simp only [Bool.and_eq_true, hshows, List.mem_cons, exists_eq_or_imp]

theorem mem_models_iff :
    p ∈ models t ↔
      IsClassOf t p ∧ ∃ n ∈ p.node :: p.above, DeclaresRecord n ∧ ¬ n.HidesSuperclass := by
  rw [models, List.mem_filter, mem_classes_iff, inheritsFromRecord_iff]

theorem filter_below_of_mem_models (hc : c ∈ models t) :
    (c.below.filter fun p => p.node.is "class").filter inheritsFromRecord = c.nestedClasses :=
  List.filter_eq_self.mpr fun _ hd => (List.mem_filter.mp (mem_models_of_mem_nestedClasses hc hd)).2

theorem models_split (hc : c ∈ models t) :
    ∃ front back, models t = front ++ c :: (c.nestedClasses ++ back) ∧
      ∀ d ∈ front ++ back, d ∉ c.below := by
  obtain ⟨hbelow, hclass⟩ := isClass_of_mem_models hc
  have hinherits := (List.mem_filter.mp hc).2
  obtain ⟨front, back, hsplit⟩ := Place.below_split hbelow
  have hordered := Place.pairwise_below (.top t.root)
  rw [hsplit, List.pairwise_append, List.pairwise_cons, List.pairwise_append] at hordered
  obtain ⟨-, ⟨-, -, -, hback⟩, hfront⟩ := hordered
  refine ⟨(front.filter fun p => p.node.is "class").filter inheritsFromRecord,
    (back.filter fun p => p.node.is "class").filter inheritsFromRecord, ?_, fun d hd hdc => ?_⟩
  · rw [models, Tree.classes, Place.findAll, hsplit, List.filter_append, List.filter_cons,
      if_pos hclass, List.filter_append, List.filter_append, List.filter_cons, if_pos hinherits,
      List.filter_append, filter_below_of_mem_models hc]
  · -- the numbers of places before the class and behind all that is below it are others
    rcases List.mem_append.mp hd with hd | hd
    · have hlt := hfront d (List.mem_of_mem_filter (List.mem_of_mem_filter hd)) c (List.mem_cons_self ..)
      exact Nat.lt_asymm hlt (Place.bounds_of_mem_below hdc).1
    · exact Nat.lt_irrefl _ (hback d hdc d (List.mem_of_mem_filter (List.mem_of_mem_filter hd)))

/-- The entries of a source are those of its models, in order. Every model is a class that declares a
record base as its superclass or lies in a class that does, and all such classes are models exactly where
no class depends on a superclass that is hidden. With a model all classes in it are models, and they come
directly behind it. -/
theorem models_are_record_classes (t : Tree) :
    (∀ path schema, Entry.ofTree path schema t = (models t).map (Entry.ofClass path schema)) ∧
    (models t).Pairwise (·.index < ·.index) ∧
    (∀ p, p ∈ models t → IsClassOf t p ∧ ∃ n ∈ p.node :: p.above, DeclaresRecord n) ∧
    ((∀ p, p ∈ models t ↔ IsClassOf t p ∧ ∃ n ∈ p.node :: p.above, DeclaresRecord n) ↔
      ∀ p, IsClassOf t p → (∃ n ∈ p.node :: p.above, DeclaresRecord n ∧ n.HidesSuperclass) →
        ∃ n ∈ p.node :: p.above, DeclaresRecord n ∧ ¬ n.HidesSuperclass) ∧
    ∀ c ∈ models t, ∃ front nested back, models t = front ++ c :: (nested ++ back) ∧
      Place.AreHits c (·.node.is "class") nested ∧ ∀ d ∈ front ++ back, d ∉ c.below := by
  have hsound : ∀ p, p ∈ models t → IsClassOf t p ∧ ∃ n ∈ p.node :: p.above, DeclaresRecord n := by
    intro p hp
    obtain ⟨hclass, n, hn, hdeclares, -⟩ := mem_models_iff.mp hp
    exact ⟨hclass, n, hn, hdeclares⟩
  refine ⟨fun _ _ => rfl, pairwise_models t, hsound, ⟨?_, ?_⟩, fun c hc => ?_⟩
  · rintro hall p hp ⟨n, hn, hdeclares, -⟩
    exact (mem_models_iff.mp ((hall p).mpr ⟨hp, n, hn, hdeclares⟩)).2
  · intro hshown p
    refine ⟨hsound p, fun ⟨hp, n, hn, hdeclares⟩ => mem_models_iff.mpr ⟨hp, ?_⟩⟩
    by_cases hhides : n.HidesSuperclass
    · exact hshown p hp ⟨n, hn, hdeclares, hhides⟩
    · exact ⟨n, hn, hdeclares, hhides⟩
  · obtain ⟨front, back, hmodels, houtside⟩ := models_split hc
    exact ⟨front, c.nestedClasses, back, hmodels, Place.areHits_findAll c _, houtside⟩

/-- `class Post < # note` with `ApplicationRecord` in the next line. -/
def notedClass : Node :=
  plainNode "class" none "class Post < # note\n  ApplicationRecord\nend"
    [signNode "class", plainNode "constant" (some "name") "Post" [],
      plainNode "superclass" (some "superclass") "< # note\n  ApplicationRecord"
        [signNode "<", plainNode "comment" none "# note" [],
          plainNode "constant" none "ApplicationRecord" []],
      signNode "end"]

def notedSource : Tree :=
  ⟨plainNode "program" none "class Post < # note\n  ApplicationRecord\nend\n" [notedClass], false⟩

/-- The comment hides the superclass, so that the class has no entry. -/
theorem entries_notedSource :
    (∃ p, IsClassOf notedSource p ∧ DeclaresRecord p.node) ∧
      ∀ path schema, Entry.ofTree path schema notedSource = [] := by
  have hmodels : models notedSource = [] := rfl
  refine ⟨⟨⟨notedClass, [notedSource.root], 1⟩, ?_, rfl, _, rfl, .application rfl rfl⟩, fun _ _ => ?_⟩
  · exact ⟨rfl, rfl, [], .parent (List.mem_singleton_self _), by simp⟩
  · exact congrArg (List.map _) hmodels

end RecordMap.Model
