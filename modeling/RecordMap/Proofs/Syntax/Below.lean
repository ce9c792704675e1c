import Mathlib.Data.List.Pairwise
import RecordMap.Syntax.Place

/-! The places below a place: they are its children and what lies below these, in the order of their
numbers, and two of them either lie one below the other or share nothing. -/

namespace RecordMap.Syntax

def Node.placesBeside (above : List Node) (index : Nat) : List Node → List Place
  | [] => []
  | c :: cs => ⟨c, above, index⟩ :: placesBeside above (index + c.size) cs

namespace Place

def children (p : Place) : List Place :=
  Node.placesBeside (p.node :: p.above) (p.index + 1) p.node.children

def stop (p : Place) : Nat := p.index + p.node.size

theorem index_lt_stop (p : Place) : p.index < p.stop := Nat.lt_add_of_pos_right p.node.size_pos

theorem above_of_mem_placesBeside {above : List Node} {index : Nat} {cs : List Node} {q : Place}
    (h : q ∈ Node.placesBeside above index cs) : q.above = above := by
  induction cs generalizing index with
  | nil => cases h
  | cons c cs ih =>
    rcases List.mem_cons.mp h with rfl | h
    · rfl
    · exact ih h

theorem bounds_of_mem_placesBeside {above : List Node} {index : Nat} {cs : List Node} {q : Place}
    (h : q ∈ Node.placesBeside above index cs) :
    index ≤ q.index ∧ q.stop ≤ index + Node.sizeOfAll cs := by
  induction cs generalizing index with
  | nil => cases h
  | cons c cs ih =>
    rw [Node.sizeOfAll]
    rcases List.mem_cons.mp h with rfl | h
    · refine ⟨Nat.le_refl index, ?_⟩
      change index + c.size ≤ index + (c.size + Node.sizeOfAll cs)
      omega
    · obtain ⟨hstart, hstop⟩ := ih h
      omega

theorem pairwise_placesBeside (above : List Node) (index : Nat) (cs : List Node) :
    (Node.placesBeside above index cs).Pairwise fun q r => q.stop ≤ r.index := by
  induction cs generalizing index with
  | nil => exact .nil
  | cons c cs ih =>
    exact .cons (fun r hr => (bounds_of_mem_placesBeside hr).1) (ih (index + c.size))

theorem above_of_mem_children {p q : Place} (h : q ∈ p.children) : q.above = p.node :: p.above :=
  above_of_mem_placesBeside h

theorem size_eq (n : Node) : n.size = Node.sizeOfAll n.children + 1 := by
  cases n
  rw [Node.size, Node.children_mk]

theorem bounds_of_mem_children {p q : Place} (h : q ∈ p.children) :
    p.index < q.index ∧ q.stop ≤ p.stop := by
  obtain ⟨hstart, hstop⟩ := bounds_of_mem_placesBeside h
  have hp : p.stop = p.index + (Node.sizeOfAll p.node.children + 1) := by rw [stop, size_eq]
  omega

theorem size_lt_of_mem_children {p q : Place} (h : q ∈ p.children) : q.node.size < p.node.size := by
  obtain ⟨hstart, hstop⟩ := bounds_of_mem_children h
  rw [stop, stop] at hstop
  omega

/-! ### Below -/

theorem placesBelow_eq (enter : Node → Bool) (p : Place) :
    p.node.placesBelow enter p.above p.index =
      (p.children.filter fun q => enter q.node).flatMap fun q =>
        q :: q.node.placesBelow enter q.above q.index := by
  obtain ⟨⟨l, cs⟩, above, index⟩ := p
  rw [children, Node.placesBelow, Node.children_mk]
  generalize .mk l cs :: above = above, index + 1 = index
  induction cs generalizing index with
  | nil => rfl
  | cons c cs ih =>
    rw [Node.placesOfAll, ih, Node.placesBeside, List.filter_cons]
    cases enter c with
    | true => rfl
    | false => rfl

theorem below_eq (p : Place) :
    p.below = (p.children.filter (·.node.named)).flatMap fun q => q :: q.below :=
  placesBelow_eq Node.named p

theorem mem_below_iff {p c : Place} :
    p ∈ c.below ↔ ∃ q ∈ c.children, q.node.named = true ∧ (p = q ∨ p ∈ q.below) := by
  rw [below_eq, List.mem_flatMap]
  constructor
  · rintro ⟨q, hq, hp⟩
    obtain ⟨hchild, hnamed⟩ := List.mem_filter.mp hq
    exact ⟨q, hchild, hnamed, List.mem_cons.mp hp⟩
  · rintro ⟨q, hchild, hnamed, hp⟩
    exact ⟨q, List.mem_filter.mpr ⟨hchild, hnamed⟩, List.mem_cons.mpr hp⟩

theorem mem_below_of_mem_children {c q : Place} (hq : q ∈ c.children) (hnamed : q.node.named = true) :
    q ∈ c.below :=
  mem_below_iff.mpr ⟨q, hq, hnamed, .inl rfl⟩

theorem mem_below_of_mem_below_child {c q p : Place} (hq : q ∈ c.children)
    (hnamed : q.node.named = true) (hp : p ∈ q.below) : p ∈ c.below :=
  mem_below_iff.mpr ⟨q, hq, hnamed, .inr hp⟩

/-- What passes from a named child to its parent, and holds of the child itself, holds of all places
below. -/
theorem below_induction {motive : ∀ c p : Place, p ∈ c.below → Prop}
    (child : ∀ c q (hq : q ∈ c.children) (hnamed : q.node.named = true),
      motive c q (mem_below_of_mem_children hq hnamed))
    (deeper : ∀ c q p (hq : q ∈ c.children) (hnamed : q.node.named = true) (hp : p ∈ q.below),
      motive q p hp → motive c p (mem_below_of_mem_below_child hq hnamed hp))
    (c p : Place) (h : p ∈ c.below) : motive c p h := by
  -- A child's place is not a part of its parent's place, so the induction is on the size of the node.
  induction hn : c.node.size using Nat.strongRecOn generalizing c with
  | ind n ih =>
    obtain ⟨q, hq, hnamed, rfl | hp⟩ := mem_below_iff.mp h
    · exact child c p hq hnamed
    · exact deeper c q p hq hnamed hp (ih _ (hn ▸ size_lt_of_mem_children hq) q hp rfl)

theorem above_of_mem_below {c p : Place} (h : p ∈ c.below) :
    ∃ between, p.above = between ++ c.node :: c.above := by
  induction c, p, h using below_induction with
  | child c q hq hnamed => exact ⟨[], above_of_mem_children hq⟩
  | deeper c q p hq hnamed hp ih =>
    obtain ⟨between, habove⟩ := ih
    exact ⟨between ++ [q.node], by rw [habove, above_of_mem_children hq]; simp⟩

theorem bounds_of_mem_below {c p : Place} (h : p ∈ c.below) : c.index < p.index ∧ p.stop ≤ c.stop := by
  induction c, p, h using below_induction with
  | child c q hq hnamed => exact bounds_of_mem_children hq
  | deeper c q p hq hnamed hp ih =>
    obtain ⟨hstart, hstop⟩ := bounds_of_mem_children hq
    omega

theorem mem_below_trans {c d p : Place} (hd : d ∈ c.below) (hp : p ∈ d.below) : p ∈ c.below := by
  induction c, d, hd using below_induction with
  | child c q hq hnamed => exact mem_below_of_mem_below_child hq hnamed hp
  | deeper c q d hq hnamed hd ih => exact mem_below_of_mem_below_child hq hnamed (ih hp)

/-! ### The order of places -/

theorem bounds_of_eq_or_mem_below {q p : Place} (h : p = q ∨ p ∈ q.below) :
    q.index ≤ p.index ∧ p.stop ≤ q.stop := by
  rcases h with rfl | h
  · exact ⟨Nat.le_refl _, Nat.le_refl _⟩
  · obtain ⟨hstart, hstop⟩ := bounds_of_mem_below h
    exact ⟨Nat.le_of_lt hstart, hstop⟩

theorem pairwise_below (c : Place) : c.below.Pairwise (·.index < ·.index) := by
  induction hn : c.node.size using Nat.strongRecOn generalizing c with
  | ind n ih =>
    rw [below_eq, List.pairwise_flatMap]
    refine ⟨fun q hq => ?_, ?_⟩
    · have hchild := (List.mem_filter.mp hq).1
      exact .cons (fun p hp => (bounds_of_mem_below hp).1)
        (ih _ (hn ▸ size_lt_of_mem_children hchild) q rfl)
    · -- below two children: all of the first one's numbers come before where the second one starts
      refine ((pairwise_placesBeside _ _ _).filter _).imp fun {q r} hqr p hp s hs => ?_
      have hpq := bounds_of_eq_or_mem_below (List.mem_cons.mp hp)
      have hrs := bounds_of_eq_or_mem_below (List.mem_cons.mp hs)
      have hp' := p.index_lt_stop
      omega

theorem findFirst?_eq_some_iff {c p : Place} {test : Place → Bool} :
    c.findFirst? test = some p ↔
      p ∈ c.below ∧ test p = true ∧ ∀ q ∈ c.below, q.index < p.index → test q = false := by
  unfold findFirst?
  rw [List.find?_eq_some_iff_append]
  have hpairwise := c.pairwise_below
  constructor
  · rintro ⟨hp, before, behind, hbelow, hbefore⟩
    rw [hbelow, List.pairwise_append, List.pairwise_cons] at hpairwise
    obtain ⟨-, ⟨hbehind, -⟩, -⟩ := hpairwise
    rw [hbelow]
    refine ⟨List.mem_append_right _ (List.mem_cons_self ..), hp, fun q hq hlt => ?_⟩
    rcases List.mem_append.mp hq with hq | hq
    · simpa using hbefore q hq
    · rcases List.mem_cons.mp hq with rfl | hq
      · exact absurd hlt (Nat.lt_irrefl _)
      · exact absurd hlt (Nat.lt_asymm (hbehind q hq))
  · rintro ⟨hmem, hp, hfirst⟩
    obtain ⟨before, behind, hbelow⟩ := List.append_of_mem hmem
    refine ⟨hp, before, behind, hbelow, fun q hq => ?_⟩
    rw [hbelow, List.pairwise_append] at hpairwise
    have hlt := hpairwise.2.2 q hq p (List.mem_cons_self ..)
    rw [hfirst q (hbelow ▸ List.mem_append_left _ hq) hlt]
    rfl

theorem eq_of_index_eq {c p q : Place} (hp : p ∈ c.below) (hq : q ∈ c.below)
    (h : p.index = q.index) : p = q := by
  have hne : c.below.Pairwise fun p q => p.index ≠ q.index :=
    c.pairwise_below.imp fun hlt => Nat.ne_of_lt hlt
  have : Std.Symm fun p q : Place => p.index ≠ q.index := ⟨fun _ _ => Ne.symm⟩
  exact Classical.not_not.mp fun hpq => hne.forall hp hq hpq h

def Apart (p q : Place) : Prop := p.stop ≤ q.index ∨ q.stop ≤ p.index

theorem apart_of_mem_children {c p q : Place} (hp : p ∈ c.children) (hq : q ∈ c.children)
    (hne : p ≠ q) : p.Apart q := by
  have hapart : c.children.Pairwise Apart := (pairwise_placesBeside _ _ _).imp Or.inl
  have : Std.Symm Apart := ⟨fun _ _ => Or.symm⟩
  exact hapart.forall hp hq hne

theorem Apart.of_mem_below {p q p' q' : Place} (h : p'.Apart q') (hp : p = p' ∨ p ∈ p'.below)
    (hq : q = q' ∨ q ∈ q'.below) : p.Apart q := by
  have hp' := bounds_of_eq_or_mem_below hp
  have hq' := bounds_of_eq_or_mem_below hq
  rcases h with h | h
  · exact .inl (by omega)
  · exact .inr (by omega)

/-- Of two places below one, one lies below the other, or they are apart. -/
theorem apart_or_mem_below {c p q : Place} (hp : p ∈ c.below) (hq : q ∈ c.below) :
    p = q ∨ p ∈ q.below ∨ q ∈ p.below ∨ p.Apart q := by
  induction c, p, hp using below_induction with
  | child c p hp hnamed =>
    obtain ⟨q', hq', _, hq⟩ := mem_below_iff.mp hq
    by_cases hpq : p = q'
    · subst hpq
      rcases hq with rfl | hq
      · exact .inl rfl
      · exact .inr (.inr (.inl hq))
    · exact .inr (.inr (.inr ((apart_of_mem_children hp hq' hpq).of_mem_below (.inl rfl) hq)))
  | deeper c p' p hp' hnamed hp ih =>
    obtain ⟨q', hq', _, hq⟩ := mem_below_iff.mp hq
    by_cases hpq : p' = q'
    · -- both are reached through the same child
      subst hpq
      rcases hq with rfl | hq
      · exact .inr (.inl hp)
      · exact ih hq
    · exact .inr (.inr (.inr ((apart_of_mem_children hp' hq' hpq).of_mem_below (.inr hp) hq)))

theorem not_apart_of_mem_below {p c d : Place} (hc : p ∈ c.below) (hd : p ∈ d.below) :
    ¬ c.Apart d := by
  have hp := p.index_lt_stop
  obtain ⟨hcstart, hcstop⟩ := bounds_of_mem_below hc
  obtain ⟨hdstart, hdstop⟩ := bounds_of_mem_below hd
  rintro (h | h)
  · omega
  · omega

/-- Two places that have a place in common below them lie one below the other. -/
theorem mem_below_of_common {root c d p : Place} (hc : c ∈ root.below) (hd : d ∈ root.below)
    (hpc : p ∈ c.below) (hpd : p ∈ d.below) : c = d ∨ c ∈ d.below ∨ d ∈ c.below := by
  rcases apart_or_mem_below hc hd with h | h | h | h
  · exact .inl h
  · exact .inr (.inl h)
  · exact .inr (.inr h)
  · exact absurd h (not_apart_of_mem_below hpc hpd)

end Place

end RecordMap.Syntax
