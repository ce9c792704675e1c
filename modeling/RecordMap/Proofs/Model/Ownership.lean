import Mathlib.Data.List.Nodup
import RecordMap.Model.Entry
import RecordMap.Proofs.Model.TargetTable
import RecordMap.Proofs.Syntax.Below

/-! Which statements an entry is made from: those of the class and those of all classes in it. Entries
describe their own classes exactly where the classes in them say nothing that is looked for. -/

namespace RecordMap.Syntax.Place

/-- The class is the innermost one around a place below it: no further class stands in between. -/
def owns (c p : Place) : Bool :=
  (p.ancestors ["class"]).length == (c.ancestors ["class"]).length + 1

def nestedClasses (c : Place) : List Place := c.findAll (·.node.is "class")

theorem mem_findAll_iff {c p : Place} {test : Place → Bool} :
    p ∈ c.findAll test ↔ p ∈ c.below ∧ test p = true := List.mem_filter

theorem of_findFirst?_eq_some {c p : Place} {test : Place → Bool} (h : c.findFirst? test = some p) :
    p ∈ c.below ∧ test p = true :=
  ⟨List.mem_of_find?_eq_some h, List.find?_some h⟩

theorem ancestors_class (p : Place) : p.ancestors ["class"] = p.above.filter (·.is "class") := by
  rw [ancestors]
  congr 1
  funext n
  simp [Node.is, Bool.beq_eq_decide_eq]

theorem ancestors_class_of_mem_below {c p : Place} (hc : c.node.is "class" = true)
    (hp : p ∈ c.below) :
    ∃ between, p.ancestors ["class"] = between ++ c.node :: c.ancestors ["class"] := by
  obtain ⟨between, habove⟩ := above_of_mem_below hp
  refine ⟨between.filter (·.is "class"), ?_⟩
  rw [ancestors_class, habove, List.filter_append, List.filter_cons, if_pos hc,
    ancestors_class]

theorem owns_iff {c p : Place} (hc : c.node.is "class" = true) (hp : p ∈ c.below) :
    c.owns p = true ↔ p.ancestors ["class"] = c.node :: c.ancestors ["class"] := by
  obtain ⟨between, habove⟩ := ancestors_class_of_mem_below hc hp
  rw [owns, habove, beq_iff_eq, List.length_append, List.length_cons]
  constructor
  · intro hlength
    rw [List.length_eq_zero_iff.mp (by omega : between.length = 0), List.nil_append]
  · intro h
    have hlength := congrArg List.length h
    simp only [List.length_append, List.length_cons] at hlength
    omega

theorem not_owns_of_mem_below_nested {c d p : Place} (hc : c.node.is "class" = true)
    (hd : d ∈ c.nestedClasses) (hp : p ∈ d.below) : ¬ c.owns p = true := by
  obtain ⟨hdc, hclass⟩ := mem_findAll_iff.mp hd
  obtain ⟨outer, houter⟩ := ancestors_class_of_mem_below hc hdc
  obtain ⟨inner, hinner⟩ := ancestors_class_of_mem_below hclass hp
  rw [owns, hinner, houter, beq_iff_eq]
  simp only [List.length_append, List.length_cons]
  omega

theorem above_class_or_nested {c p : Place} (hp : p ∈ c.below) :
    p.above.filter (·.is "class") = (c.node :: c.above).filter (·.is "class") ∨
      ∃ d ∈ c.nestedClasses, p ∈ d.below := by
  induction c, p, hp using below_induction with
  | child c p hp hnamed =>
    rw [above_of_mem_children hp]
    exact .inl rfl
  | deeper c q p hq hnamed hp ih =>
    have hqc := mem_below_of_mem_children hq hnamed
    cases hclass : q.node.is "class" with
    | true => exact .inr ⟨q, mem_findAll_iff.mpr ⟨hqc, hclass⟩, hp⟩
    | false =>
      rcases ih with h | ⟨d, hd, hpd⟩
      · rw [h, List.filter_cons_of_neg (by simp [hclass]), above_of_mem_children hq]
        exact .inl rfl
      · obtain ⟨hdq, hdclass⟩ := mem_findAll_iff.mp hd
        exact .inr ⟨d, mem_findAll_iff.mpr ⟨mem_below_trans hqc hdq, hdclass⟩, hpd⟩

theorem owns_or_nested {c p : Place} (hc : c.node.is "class" = true) (hp : p ∈ c.below) :
    c.owns p = true ∨ ∃ d ∈ c.nestedClasses, p ∈ d.below := by
  refine (above_class_or_nested hp).imp_left fun h => (owns_iff hc hp).mpr ?_
  rw [ancestors_class, h, List.filter_cons, if_pos hc, ancestors_class]

theorem index_le_of_findFirst? {c p q : Place} {test : Place → Bool}
    (hfirst : c.findFirst? test = some q) (hp : p ∈ c.below) (htest : test p = true) :
    q.index ≤ p.index := by
  obtain ⟨_, before, behind, hbelow, hbefore⟩ := List.find?_eq_some_iff_append.mp hfirst
  have hordered := c.pairwise_below
  rw [hbelow] at hordered hp
  rcases List.mem_append.mp hp with hp | hp
  · have hmiss := hbefore p hp
    rw [htest] at hmiss
    cases hmiss
  · rcases List.mem_cons.mp hp with rfl | hp
    · exact Nat.le_refl _
    · have hbehind := (List.pairwise_cons.mp (List.pairwise_append.mp hordered).2.1).1
      exact Nat.le_of_lt (hbehind p hp)

end RecordMap.Syntax.Place

namespace RecordMap.Model

open Syntax

/-- The classes of a source that have entries. -/
def models (t : Tree) : List Place := t.classes.filter inheritsFromRecord

def callsOf (c : Place) : List Nat := (c.findAll fun p => declaresAssociation p.node).map (·.index)

def ownPlaces (c : Place) : List Place := c.below.filter c.owns

/-- The statements that decide an entry are the class's own. -/
structure KeepsToItself (c : Place) : Prop where
  associations : ∀ p ∈ c.findAll (fun q => declaresAssociation q.node), c.owns p = true
  tableName : ∀ p, (c.findFirst? fun q => assignsTableName q.node) = some p → c.owns p = true
  isAbstract : isAbstract c = true → ∃ p ∈ ownPlaces c, assignsAbstract p.node = true

/-- A nested class says nothing that gets into the entry of the class around it. -/
structure StaysInside (d c : Place) : Prop where
  associations : associations d = []
  tableName : ∀ p ∈ d.below, assignsTableName p.node = true →
    ∃ q ∈ ownPlaces c, assignsTableName q.node = true ∧ q.index < p.index
  isAbstract : isAbstract d = true → ∃ p ∈ ownPlaces c, assignsAbstract p.node = true

theorem mem_ownPlaces_iff {c p : Place} : p ∈ ownPlaces c ↔ p ∈ c.below ∧ c.owns p = true :=
  List.mem_filter

theorem associations_eq_nil_iff {c : Place} :
    associations c = [] ↔ ∀ p ∈ c.below, declaresAssociation p.node = false := by
  rw [associations, declarations, List.map_eq_nil_iff, List.filterMap_eq_nil_iff]
  constructor
  · intro h p hp
    cases hdeclares : declaresAssociation p.node with
    | false => rfl
    | true =>
      have hnone := h p (Place.mem_findAll_iff.mpr ⟨hp, hdeclares⟩)
      have hname : (p.node.firstText?).isSome = true := by
        rw [declaresAssociation, Bool.and_eq_true] at hdeclares
        exact hdeclares.2
      rw [Option.map_eq_none_iff, Association.ofCall?, Option.map_eq_none_iff] at hnone
      rw [hnone] at hname
      cases hname
  · intro h p hp
    obtain ⟨hbelow, hdeclares⟩ := Place.mem_findAll_iff.mp hp
    rw [h p hbelow] at hdeclares
    cases hdeclares

theorem isAbstract_iff {c : Place} :
    isAbstract c = true ↔ ∃ p ∈ c.below, assignsAbstract p.node = true := by
  rw [isAbstract, Place.findFirst?, List.find?_isSome]

variable {c : Place}

theorem KeepsToItself.staysInside (hc : c.node.is "class" = true) (h : KeepsToItself c) {d : Place}
    (hd : d ∈ c.nestedClasses) : StaysInside d c := by
  obtain ⟨hdc, _⟩ := Place.mem_findAll_iff.mp hd
  refine ⟨?_, ?_, ?_⟩
  · refine associations_eq_nil_iff.mpr fun p hp => Bool.eq_false_iff.mpr fun hdeclares => ?_
    have hpc := Place.mem_below_trans hdc hp
    exact Place.not_owns_of_mem_below_nested hc hd hp
      (h.associations p (Place.mem_findAll_iff.mpr ⟨hpc, hdeclares⟩))
  · intro p hp hassigns
    have hpc := Place.mem_below_trans hdc hp
    obtain ⟨q, hfirst⟩ : ∃ q, (c.findFirst? fun q => assignsTableName q.node) = some q :=
      Option.isSome_iff_exists.mp (List.find?_isSome.mpr ⟨p, hpc, hassigns⟩)
    obtain ⟨hqc, hqassigns⟩ := Place.of_findFirst?_eq_some hfirst
    have howns := h.tableName q hfirst
    have hne : q.index ≠ p.index := by
      intro hindex
      rw [Place.eq_of_index_eq hqc hpc hindex] at howns
      exact Place.not_owns_of_mem_below_nested hc hd hp howns
    have hle := Place.index_le_of_findFirst? hfirst hpc hassigns
    exact ⟨q, mem_ownPlaces_iff.mpr ⟨hqc, howns⟩, hqassigns, by omega⟩
  · intro habstract
    obtain ⟨p, hp, hassigns⟩ := isAbstract_iff.mp habstract
    exact h.isAbstract (isAbstract_iff.mpr ⟨p, Place.mem_below_trans hdc hp, hassigns⟩)

theorem keepsToItself_of_staysInside (hc : c.node.is "class" = true)
    (h : ∀ d ∈ c.nestedClasses, StaysInside d c) : KeepsToItself c := by
  refine ⟨?_, ?_, ?_⟩
  · intro p hp
    obtain ⟨hpc, hdeclares⟩ := Place.mem_findAll_iff.mp hp
    rcases Place.owns_or_nested hc hpc with howns | ⟨d, hd, hpd⟩
    · exact howns
    · rw [associations_eq_nil_iff.mp (h d hd).associations p hpd] at hdeclares
      cases hdeclares
  · intro p hfirst
    obtain ⟨hpc, hpassigns⟩ := Place.of_findFirst?_eq_some hfirst
    rcases Place.owns_or_nested hc hpc with howns | ⟨d, hd, hpd⟩
    · exact howns
    · -- an own assignment before the first one
      obtain ⟨q, hq, hassigns, hlt⟩ := (h d hd).tableName p hpd hpassigns
      have hle := Place.index_le_of_findFirst? hfirst (mem_ownPlaces_iff.mp hq).1 hassigns
      omega
  · intro habstract
    obtain ⟨p, hpc, hassigns⟩ := isAbstract_iff.mp habstract
    rcases Place.owns_or_nested hc hpc with howns | ⟨d, hd, hpd⟩
    · exact ⟨p, mem_ownPlaces_iff.mpr ⟨hpc, howns⟩, hassigns⟩
    · exact (h d hd).isAbstract (isAbstract_iff.mpr ⟨p, hpd, hassigns⟩)

theorem keepsToItself_iff (hc : c.node.is "class" = true) :
    KeepsToItself c ↔ ∀ d ∈ c.nestedClasses, StaysInside d c :=
  ⟨fun h _ hd => h.staysInside hc hd, keepsToItself_of_staysInside hc⟩

/-! ### What the class says itself -/

def ownAssociations (c : Place) : List Association :=
  ((ownPlaces c).filter fun p => declaresAssociation p.node).filterMap (Association.ofCall? ·.node)

def ownTableName (c : Place) : Text :=
  match ((ownPlaces c).find? fun p => assignsTableName p.node).bind (·.node.firstText?) with
  | some name => name
  | none => tablePrefix c ++ conventionalName c.shortSegments ++ tableSuffix c

def ownAbstract (c : Place) : Bool := (ownPlaces c).any fun p => assignsAbstract p.node

theorem KeepsToItself.associations_eq (h : KeepsToItself c) : Model.associations c = ownAssociations c := by
  have hcalls : (c.findAll fun p => declaresAssociation p.node) =
      (ownPlaces c).filter fun p => declaresAssociation p.node := by
    rw [Place.findAll, ownPlaces, List.filter_filter]
    refine List.filter_congr fun p hp => ?_
    cases hdeclares : declaresAssociation p.node with
    | false => rfl
    | true => exact (h.associations p (Place.mem_findAll_iff.mpr ⟨hp, hdeclares⟩)).symm
  rw [Model.associations, declarations, hcalls, List.map_filterMap, ownAssociations]
  simp only [Option.map_map, Function.comp_def, Option.map_id_fun', id]

theorem KeepsToItself.findFirst?_eq (h : KeepsToItself c) :
    (c.findFirst? fun p => assignsTableName p.node) =
      (ownPlaces c).find? fun p => assignsTableName p.node := by
  rw [Place.findFirst?, ownPlaces, List.find?_filter]
  cases hfirst : c.below.find? fun p => assignsTableName p.node with
  | none =>
    refine (List.find?_eq_none.mpr fun p hp hboth => ?_).symm
    exact List.find?_eq_none.mp hfirst p hp (of_decide_eq_true hboth).2
  | some p =>
    obtain ⟨hassigns, before, behind, hbelow, hbefore⟩ := List.find?_eq_some_iff_append.mp hfirst
    refine (List.find?_eq_some_iff_append.mpr ⟨?_, before, behind, hbelow, fun q hq => ?_⟩).symm
    · simp [h.tableName p hfirst, hassigns]
    · have hmiss : assignsTableName q.node = false := by simpa using hbefore q hq
      simp [hmiss]

theorem KeepsToItself.tableName_eq (h : KeepsToItself c) : Model.tableName c = ownTableName c := by
  have hfirst : (tableNameAssignments c).head? =
      (c.findFirst? fun p => assignsTableName p.node).map (·.node) := by
    rw [tableNameAssignments, List.head?_map, Place.findAll, List.head?_filter, Place.findFirst?]
  rw [Model.tableName, ownTableName, hfirst, h.findFirst?_eq, Option.bind_map]
  rfl

theorem KeepsToItself.isAbstract_eq (h : KeepsToItself c) : Model.isAbstract c = ownAbstract c := by
  rw [Bool.eq_iff_iff, ownAbstract, List.any_eq_true]
  refine ⟨h.isAbstract, fun ⟨p, hp, hassigns⟩ => isAbstract_iff.mpr ⟨p, ?_, hassigns⟩⟩
  exact (mem_ownPlaces_iff.mp hp).1

/-! ### Calls in two entries -/

theorem isClass_of_mem_models {t : Tree} (hc : c ∈ models t) :
    c ∈ (Place.top t.root).below ∧ c.node.is "class" = true :=
  Place.mem_findAll_iff.mp (List.mem_of_mem_filter hc)

theorem mem_models_of_mem_nestedClasses {t : Tree} (hc : c ∈ models t) {d : Place}
    (hd : d ∈ c.nestedClasses) : d ∈ models t := by
  obtain ⟨hctop, hclass⟩ := isClass_of_mem_models hc
  obtain ⟨hdc, hdclass⟩ := Place.mem_findAll_iff.mp hd
  obtain ⟨between, habove⟩ := Place.ancestors_class_of_mem_below hclass hdc
  have hinherits := (List.mem_filter.mp hc).2
  rw [inheritsFromRecord, hclass, Bool.true_and] at hinherits
  refine List.mem_filter.mpr ⟨Place.mem_findAll_iff.mpr ⟨?_, hdclass⟩, ?_⟩
  · exact Place.mem_below_trans hctop hdc
  · rw [inheritsFromRecord, habove, List.any_append, List.any_cons, hinherits, Bool.or_true,
      Bool.or_true]

theorem mem_callsOf_iff {i : Nat} :
    i ∈ callsOf c ↔ ∃ p ∈ c.below, declaresAssociation p.node = true ∧ p.index = i := by
  rw [callsOf, List.mem_map]
  constructor
  · rintro ⟨p, hp, hi⟩
    obtain ⟨hpc, hdeclares⟩ := Place.mem_findAll_iff.mp hp
    exact ⟨p, hpc, hdeclares, hi⟩
  · rintro ⟨p, hpc, hdeclares, hi⟩
    exact ⟨p, Place.mem_findAll_iff.mpr ⟨hpc, hdeclares⟩, hi⟩

theorem nodup_callsOf (c : Place) : (callsOf c).Nodup := by
  rw [callsOf, List.Nodup, List.pairwise_map]
  exact (c.pairwise_below.filter _).imp fun hlt => Nat.ne_of_lt hlt

theorem pairwise_models (t : Tree) : (models t).Pairwise (·.index < ·.index) :=
  ((Place.pairwise_below _).filter _).filter _

theorem not_disjoint_of_nested {d p : Place} (hd : d ∈ c.nestedClasses) (hp : p ∈ d.below)
    (hdeclares : declaresAssociation p.node = true) :
    ¬ List.Disjoint (callsOf c) (callsOf d) := by
  have hpc := Place.mem_below_trans (Place.mem_findAll_iff.mp hd).1 hp
  exact fun h => h (mem_callsOf_iff.mpr ⟨p, hpc, hdeclares, rfl⟩)
    (mem_callsOf_iff.mpr ⟨p, hp, hdeclares, rfl⟩)

theorem disjoint_callsOf {t : Tree} {d : Place} (hc : c ∈ models t) (hd : d ∈ models t)
    (hlt : c.index < d.index) (h : ∀ c ∈ models t, ∀ d ∈ c.nestedClasses, associations d = []) :
    List.Disjoint (callsOf c) (callsOf d) := by
  intro i hic hid
  obtain ⟨p, hpc, hdeclares, rfl⟩ := mem_callsOf_iff.mp hic
  obtain ⟨q, hqd, _, hindex⟩ := mem_callsOf_iff.mp hid
  obtain ⟨hctop, hcclass⟩ := isClass_of_mem_models hc
  obtain ⟨hdtop, hdclass⟩ := isClass_of_mem_models hd
  have hpq := Place.eq_of_index_eq (Place.mem_below_trans hdtop hqd)
    (Place.mem_below_trans hctop hpc) hindex
  subst hpq
  have hsilent : ∀ {b : Place}, associations b = [] → q ∈ b.below → False := by
    intro b hb hqb
    rw [associations_eq_nil_iff.mp hb q hqb] at hdeclares
    cases hdeclares
  rcases Place.mem_below_of_common hctop hdtop hpc hqd with rfl | hcd | hdc
  · exact Nat.lt_irrefl _ hlt
  · exact hsilent (h d hd c (Place.mem_findAll_iff.mpr ⟨hcd, hcclass⟩)) hpc
  · exact hsilent (h c hc d (Place.mem_findAll_iff.mpr ⟨hdc, hdclass⟩)) hqd

theorem nodup_calls_iff (t : Tree) :
    ((models t).flatMap callsOf).Nodup ↔
      ∀ c ∈ models t, ∀ d ∈ c.nestedClasses, associations d = [] := by
  rw [List.nodup_flatMap]
  constructor
  · intro ⟨_, hdisjoint⟩ c hc d hd
    refine associations_eq_nil_iff.mpr fun p hp => Bool.eq_false_iff.mpr fun hdeclares => ?_
    have hlt := (Place.bounds_of_mem_below (Place.mem_findAll_iff.mp hd).1).1
    have hne : c ≠ d := fun h => Nat.lt_irrefl _ (h ▸ hlt)
    have : Std.Symm (Function.onFun List.Disjoint callsOf) := ⟨fun _ _ h => List.disjoint_comm.mp h⟩
    exact not_disjoint_of_nested hd hp hdeclares
      (hdisjoint.forall hc (mem_models_of_mem_nestedClasses hc hd) hne)
  · intro h
    exact ⟨fun c _ => nodup_callsOf c,
      (pairwise_models t).imp_of_mem fun hc hd hlt => disjoint_callsOf hc hd hlt h⟩

/-- A class has the associations, the table name and the flag of its own statements, unless a class
in it says something that is looked for. -/
theorem models_keepToThemselves_iff (t : Tree) :
    (∀ c ∈ models t, KeepsToItself c ↔ ∀ d ∈ c.nestedClasses, StaysInside d c) ∧
    (((models t).flatMap callsOf).Nodup ↔
      ∀ c ∈ models t, ∀ d ∈ c.nestedClasses, associations d = []) ∧
    ∀ path schema, Entry.ofTree path schema t = (models t).map (Entry.ofClass path schema) ∧
      ∀ c ∈ models t, KeepsToItself c →
        let e := Entry.ofClass path schema c
        e.associations.map (·.association) = ownAssociations c ∧
          e.tableName = ownTableName c ∧ e.isAbstract = ownAbstract c := by
  refine ⟨fun c hc => keepsToItself_iff (isClass_of_mem_models hc).2, nodup_calls_iff t, ?_⟩
  intro path schema
  refine ⟨rfl, fun c _ h => ⟨?_, h.tableName_eq, h.isAbstract_eq⟩⟩
  rw [← h.associations_eq]
  exact List.map_map.trans (List.map_id _)

def belongsToCall (name : String) (options : List Node) : Node :=
  plainNode "call" none ("belongs_to :" ++ name)
    [plainNode "identifier" (some "method") "belongs_to" [],
      plainNode "argument_list" (some "arguments") (":" ++ name)
        (plainNode "simple_symbol" none (":" ++ name) [] :: options)]

/-- The source `class A < ApplicationRecord; belongs_to :x; class B; belongs_to :y; end; end`. -/
def nestedRecord : Tree :=
  let inner := plainNode "class" none "class B"
    [plainNode "constant" (some "name") "B" [],
      plainNode "body_statement" (some "body") "belongs_to :y" [belongsToCall "y" []]]
  let outer := plainNode "class" none "class A < ApplicationRecord"
    [plainNode "constant" (some "name") "A" [],
      plainNode "superclass" (some "superclass") "< ApplicationRecord"
        [plainNode "constant" none "ApplicationRecord" []],
      plainNode "body_statement" (some "body") "belongs_to :x" [belongsToCall "x" [], inner]]
  ⟨plainNode "program" none "class A < ApplicationRecord" [outer], false⟩

/-- The outer class lists the inner one's association besides its own. -/
theorem associations_nestedRecord :
    (Entry.ofTree [] none nestedRecord).map
        (fun e => (e.name, e.associations.map (·.association.name))) =
      [("A".toList, ["x".toList, "y".toList]), ("A::B".toList, ["y".toList])] ∧
    ¬ ((models nestedRecord).flatMap callsOf).Nodup ∧
    ¬ ∀ c ∈ models nestedRecord, KeepsToItself c := by
  refine ⟨by decide +kernel, by decide +kernel, fun h => ?_⟩
  have hstray : (models nestedRecord).any (fun c =>
      (c.findAll fun p => declaresAssociation p.node).any fun p => !c.owns p) = true := by
    decide +kernel
  obtain ⟨c, hc, hstray⟩ := List.any_eq_true.mp hstray
  obtain ⟨p, hp, hstray⟩ := List.any_eq_true.mp hstray
  rw [(h c hc).associations p hp] at hstray
  cases hstray

end RecordMap.Model
