import Mathlib.Logic.Function.Iterate
import RecordMap.Proofs.Syntax.Below

/-! A search keeps the places that it still has to visit on a stack. It visits the named places below
the one where it starts, which are reached through named places only, in the order of their numbers,
and stops at the first hit if no more are asked for. -/

namespace RecordMap.Syntax

/-- A search under way. The place that comes next is at the end of the stack. -/
structure Search where
  stack : List Place
  tested : List Place
  hits : List Place

namespace Place

variable {c p q : Place} {between : List Place} {test : Place → Bool} {n : Nat}

def namedChildren (p : Place) : List Place := p.children.filter (·.node.named)

def all (root : Node) : List Place := top root :: (top root).allBelow

/-- The places between a place and one that encloses it, from the parent on outwards. -/
inductive Between (c : Place) : Place → List Place → Prop where
  | parent {p : Place} (h : p ∈ c.children) : Between c p []
  | further {p q : Place} {between : List Place} (h : p ∈ q.children) (hq : Between c q between) :
      Between c p (q :: between)

/-! ### Enclosing places -/

theorem Between.behind_child (hq : q ∈ c.children) (h : Between q p between) :
    Between c p (between ++ [q]) := by
  induction h with
  | parent h => exact .further h (.parent hq)
  | further h _ ih => exact .further h ih

theorem Between.above_eq (h : Between c p between) :
    p.above = between.map (·.node) ++ c.node :: c.above := by
  induction h with
  | parent h => exact above_of_mem_children h
  | further h _ ih => rw [above_of_mem_children h, ih, List.map_cons, List.cons_append]

theorem exists_between (h : p ∈ c.below) :
    p.node.named = true ∧ ∃ between, Between c p between ∧ ∀ q ∈ between, q.node.named = true := by
  induction c, p, h using below_induction with
  | child c p hp hnamed => exact ⟨hnamed, [], .parent hp, by simp⟩
  | deeper c q p hq hnamed hp ih =>
    obtain ⟨hpnamed, between, hbetween, hall⟩ := ih
    refine ⟨hpnamed, between ++ [q], hbetween.behind_child hq, fun r hr => ?_⟩
    rcases List.mem_append.mp hr with hr | hr
    · exact hall r hr
    · rwa [List.mem_singleton.mp hr]

theorem Between.mem_below (h : Between c p between) (hnamed : p.node.named = true)
    (hall : ∀ q ∈ between, q.node.named = true) : p ∈ c.below := by
  induction h with
  | parent h => exact mem_below_of_mem_children h hnamed
  | further h _ ih =>
    obtain ⟨hq, hrest⟩ := List.forall_mem_cons.mp hall
    exact mem_below_trans (ih hq hrest) (mem_below_of_mem_children h hnamed)

theorem mem_below_iff_between :
    p ∈ c.below ↔
      p.node.named = true ∧ ∃ between, Between c p between ∧ ∀ q ∈ between, q.node.named = true := by
  constructor
  · exact exists_between
  · rintro ⟨hnamed, between, hbetween, hall⟩
    exact hbetween.mem_below hnamed hall

/-! ### Numbers -/

theorem allBelow_eq (c : Place) : c.allBelow = c.children.flatMap fun q => q :: q.allBelow := by
  have hall : c.children.filter (fun _ => true) = c.children := List.filter_eq_self.mpr fun _ _ => rfl
  unfold allBelow
  rw [placesBelow_eq, hall]

theorem indices_allBelow (c : Place) :
    c.allBelow.map (·.index) = List.range' (c.index + 1) (Node.sizeOfAll c.node.children) := by
  induction hn : c.node.size using Nat.strongRecOn generalizing c with
  | ind n ih =>
    have hchildren : ∀ q ∈ c.children,
        (q :: q.allBelow).map (·.index) = List.range' q.index q.node.size := by
      intro q hq
      rw [List.map_cons, ih _ (hn ▸ size_lt_of_mem_children hq) q rfl, size_eq, List.range'_succ]
    rw [allBelow_eq, List.map_flatMap]
    unfold children at hchildren ⊢
    generalize c.node :: c.above = above, c.index + 1 = index at hchildren ⊢
    generalize c.node.children = cs at hchildren ⊢
    induction cs generalizing index with
    | nil => rfl
    | cons d cs ihcs =>
      obtain ⟨hd, hcs⟩ := List.forall_mem_cons.mp hchildren
      rw [Node.placesBeside, List.flatMap_cons, hd, ihcs _ hcs, Node.sizeOfAll]
      exact List.range'_append_1

theorem indices_all (root : Node) : (all root).map (·.index) = List.range root.size := by
  have hbelow := indices_allBelow (top root)
  rw [all, List.map_cons, hbelow, size_eq, List.range_eq_range', List.range'_succ]
  rfl

theorem getElem?_index_of_mem_all {root : Node} (h : p ∈ all root) : (all root)[p.index]? = some p := by
  obtain ⟨i, hi⟩ := List.mem_iff_getElem?.mp h
  have hindex : ((all root).map (·.index))[i]? = some p.index := by
    rw [List.getElem?_map, hi, Option.map_some]
  rw [indices_all] at hindex
  obtain ⟨_, hi'⟩ := List.getElem?_eq_some_iff.mp hindex
  rw [List.getElem_range] at hi'
  rw [← hi', hi]

theorem mem_allBelow_trans (hq : q ∈ c.allBelow) (hp : p ∈ q.children) : p ∈ c.allBelow := by
  induction hn : c.node.size using Nat.strongRecOn generalizing c with
  | ind n ih =>
    rw [allBelow_eq, List.mem_flatMap] at hq ⊢
    obtain ⟨r, hr, hqr⟩ := hq
    refine ⟨r, hr, List.mem_cons_of_mem _ ?_⟩
    rcases List.mem_cons.mp hqr with rfl | hqr
    · rw [allBelow_eq, List.mem_flatMap]
      exact ⟨p, hp, List.mem_cons_self ..⟩
    · exact ih _ (hn ▸ size_lt_of_mem_children hr) hqr rfl

theorem mem_all_of_mem_children {root : Node} (hq : q ∈ all root) (hp : p ∈ q.children) :
    p ∈ all root := by
  refine List.mem_cons_of_mem _ ?_
  rcases List.mem_cons.mp hq with rfl | hq
  · rw [allBelow_eq, List.mem_flatMap]
    exact ⟨p, hp, List.mem_cons_self ..⟩
  · exact mem_allBelow_trans hq hp

theorem Between.mem_all {root : Node} (hc : c ∈ all root) (h : Between c p between) : p ∈ all root := by
  induction h with
  | parent h => exact mem_all_of_mem_children hc h
  | further h _ ih => exact mem_all_of_mem_children ih h

/-! ### Hits -/

/-- The places that pass a test among the named ones below, in the order in which parents come before
children. -/
structure AreHits (c : Place) (test : Place → Bool) (found : List Place) : Prop where
  mem_iff : ∀ p, p ∈ found ↔ test p = true ∧ p.node.named = true ∧
    ∃ between, Between c p between ∧ ∀ q ∈ between, q.node.named = true
  increasing : found.Pairwise (·.index < ·.index)
  numbered : ∀ root, c ∈ all root → ∀ p ∈ found, (all root)[p.index]? = some p

theorem areHits_findAll (c : Place) (test : Place → Bool) : AreHits c test (c.findAll test) := by
  refine ⟨fun p => ?_, c.pairwise_below.filter _, fun root hc p hp => ?_⟩
  · rw [findAll, List.mem_filter, mem_below_iff_between, and_comm]
  · obtain ⟨-, between, hbetween, -⟩ := exists_between (List.mem_filter.mp hp).1
    exact getElem?_index_of_mem_all (hbetween.mem_all hc)

theorem take_testedUntilFirst_of_some (h : c.findFirst? test = some p) :
    c.below.take (c.testedUntilFirst test) = c.below.filter (·.index ≤ p.index) := by
  obtain ⟨hp, before, behind, hbelow, hbefore⟩ := List.find?_eq_some_iff_append.mp h
  have hpairwise := c.pairwise_below
  rw [hbelow, List.pairwise_append, List.pairwise_cons] at hpairwise
  obtain ⟨-, ⟨hbehind, -⟩, hlt⟩ := hpairwise
  have hidx : c.below.findIdx test = before.length := by
    rw [hbelow, List.findIdx_append, List.findIdx_eq_length.mpr (by simpa using hbefore),
      if_neg (Nat.lt_irrefl _), List.findIdx_cons, hp, cond_true, Nat.zero_add]
  have hcount : c.testedUntilFirst test = before.length + 1 := by
    unfold testedUntilFirst
    rw [hidx, hbelow, List.length_append, List.length_cons]
    omega
  have hkept : before.filter (·.index ≤ p.index) = before := List.filter_eq_self.mpr fun q hq =>
    decide_eq_true (Nat.le_of_lt (hlt q hq p (List.mem_cons_self ..)))
  have hdropped : behind.filter (·.index ≤ p.index) = [] := List.filter_eq_nil_iff.mpr fun q hq =>
    mt of_decide_eq_true (Nat.not_le_of_lt (hbehind q hq))
  rw [hcount, hbelow, List.filter_append, List.filter_cons_of_pos (by simp), hkept, hdropped,
    List.take_length_add_append]
  rfl

theorem testedUntilFirst_of_none (h : c.findFirst? test = none) :
    c.testedUntilFirst test = c.below.length := by
  have hmiss := List.findIdx_eq_length.mpr fun p hp => Bool.eq_false_iff.mpr
    (List.find?_eq_none.mp h p hp)
  unfold testedUntilFirst
  omega

end Place

namespace Search

open Place

variable {c p : Place} {test : Place → Bool} {n : Nat} {s : Search}

def start (c : Place) : Search := ⟨c.namedChildren.reverse, [], []⟩

/-- Tests the place at the end of the stack and lays its named children there, the last one first. -/
def advance (test : Place → Bool) (s : Search) : Search :=
  match s.stack.getLast? with
  | none => s
  | some p => {
      stack := s.stack.dropLast ++ p.namedChildren.reverse
      tested := s.tested ++ [p]
      hits := if test p then s.hits ++ [p] else s.hits }

def after (test : Place → Bool) (c : Place) (n : Nat) : Search := (advance test)^[n] (start c)

/-- The places to which the stack will lead, the next one first. -/
def pending (s : Search) : List Place := s.stack.reverse.flatMap fun p => p :: p.below

theorem pending_eq_nil_iff : s.pending = [] ↔ s.stack = [] := by
  unfold pending
  rw [List.flatMap_eq_nil_iff]
  constructor
  · intro h
    refine List.eq_nil_iff_forall_not_mem.mpr fun p hp => ?_
    cases h p (List.mem_reverse.mpr hp)
  · rintro h p hp
    rw [h] at hp
    cases hp

theorem advance_of_nil (h : s.stack = []) : s.advance test = s := by
  unfold advance
  rw [h, List.getLast?_nil]

theorem advance_of_concat {rest : List Place} (h : s.stack = rest ++ [p]) :
    s.advance test = {
      stack := rest ++ p.namedChildren.reverse
      tested := s.tested ++ [p]
      hits := if test p then s.hits ++ [p] else s.hits } := by
  unfold advance
  rw [h, List.getLast?_concat, List.dropLast_concat]

theorem pending_of_concat (test : Place → Bool) {rest : List Place} (h : s.stack = rest ++ [p]) :
    s.pending = p :: (s.advance test).pending := by
  unfold pending
  rw [advance_of_concat h, h, List.reverse_concat, List.flatMap_cons, List.reverse_append,
    List.reverse_reverse, List.flatMap_append, List.cons_append, below_eq p]
  rfl

/-- What has been tested, and what is still to come, make up the places below. -/
structure IsAfter (test : Place → Bool) (c : Place) (n : Nat) (s : Search) : Prop where
  tested : s.tested = c.below.take n
  pending : s.pending = c.below.drop n
  hits : s.hits = s.tested.filter test

theorem IsAfter.advance (h : IsAfter test c n s) : IsAfter test c (n + 1) (s.advance test) := by
  rcases List.eq_nil_or_concat s.stack with hstack | ⟨rest, p, hstack⟩
  · have hdone := h.pending
    rw [pending_eq_nil_iff.mpr hstack, eq_comm, List.drop_eq_nil_iff] at hdone
    rw [advance_of_nil hstack]
    refine ⟨?_, ?_, h.hits⟩
    · rw [h.tested, List.take_of_length_le hdone, List.take_of_length_le (by omega)]
    · rw [h.pending, List.drop_of_length_le hdone, List.drop_of_length_le (by omega)]
  · rw [List.concat_eq_append] at hstack
    have hdrop := h.pending
    rw [pending_of_concat test hstack] at hdrop
    have hp : c.below[n]? = some p := by rw [← List.head?_drop, ← hdrop, List.head?_cons]
    refine ⟨?_, ?_, ?_⟩
    · rw [advance_of_concat hstack, List.take_add_one, hp, ← h.tested]
      rfl
    · rw [← List.tail_drop, ← hdrop, List.tail_cons]
    · rw [advance_of_concat hstack, h.hits, List.filter_append, List.filter_cons, List.filter_nil]
      cases test p with
      | true => rfl
      | false => exact (List.append_nil _).symm

theorem isAfter_after (test : Place → Bool) (c : Place) (n : Nat) : IsAfter test c n (after test c n) := by
  induction n with
  | zero =>
    refine ⟨List.take_zero.symm, ?_, rfl⟩
    change (start c).pending = c.below
    unfold pending start
    rw [List.reverse_reverse, below_eq]
    rfl
  | succ n ih =>
    unfold after at ih ⊢
    rw [Function.iterate_succ_apply']
    exact ih.advance

def IsOver (s : Search) : Prop := s.hits ≠ [] ∨ s.stack = []

/-- The search for one hit is over after some rounds, and not before. What it has found and tested by
then is the first hit, if there is one, and the places up to it. -/
structure FindsFirst (test : Place → Bool) (c : Place) (rounds : Nat) (hit : Option Place) : Prop where
  ended : (after test c rounds).IsOver
  running : ∀ n < rounds, ¬ (after test c n).IsOver
  hit_eq : (after test c rounds).hits.head? = hit
  tested_of_some : ∀ p, hit = some p →
    (after test c rounds).tested = c.below.filter (·.index ≤ p.index)
  tested_of_none : hit = none → (after test c rounds).tested = c.below

theorem stack_after_eq_nil_iff : (after test c n).stack = [] ↔ c.below.length ≤ n := by
  rw [← pending_eq_nil_iff, (isAfter_after test c n).pending, List.drop_eq_nil_iff]

theorem hits_after : (after test c n).hits = (c.below.take n).filter test := by
  rw [(isAfter_after test c n).hits, (isAfter_after test c n).tested]

theorem not_isOver_after (h : n < c.testedUntilFirst test) : ¬ (after test c n).IsOver := by
  have hlt : n < c.below.findIdx test + 1 ∧ n < c.below.length := Nat.lt_min.mp h
  rintro (hhits | hstack)
  · refine hhits ?_
    rw [hits_after, List.filter_eq_nil_iff]
    intro p hp
    obtain ⟨i, hi, rfl⟩ := List.mem_take_iff_getElem.mp hp
    exact Bool.eq_false_iff.mp (List.not_of_lt_findIdx (by omega))
  · rw [stack_after_eq_nil_iff] at hstack
    omega

theorem findsFirst (test : Place → Bool) (c : Place) :
    FindsFirst test c (c.testedUntilFirst test) (c.findFirst? test) := by
  have htested := (isAfter_after test c (c.testedUntilFirst test)).tested
  have hhits := (isAfter_after test c (c.testedUntilFirst test)).hits
  cases hfirst : c.findFirst? test with
  | none =>
    have hcount := testedUntilFirst_of_none hfirst
    rw [hcount, List.take_length] at htested
    rw [hcount] at hhits ⊢
    refine ⟨.inr (stack_after_eq_nil_iff.mpr (Nat.le_refl _)), fun n hn => ?_, ?_, by simp, fun _ => htested⟩
    · exact not_isOver_after (hcount ▸ hn)
    · rw [hhits, htested, List.head?_filter]
      exact hfirst
  | some p =>
    rw [take_testedUntilFirst_of_some hfirst] at htested
    have hhead : (after test c (c.testedUntilFirst test)).hits.head? = some p := by
      obtain ⟨hp, htest, hbefore⟩ := findFirst?_eq_some_iff.mp hfirst
      rw [hhits, htested, List.head?_filter, List.find?_filter]
      refine findFirst?_eq_some_iff.mpr ⟨hp, by simp [htest], fun q hq hlt => ?_⟩
      simp [hbefore q hq hlt]
    refine ⟨.inl fun hnil => ?_, fun _ => not_isOver_after, hhead, ?_, by simp⟩
    · rw [hnil] at hhead
      cases hhead
    · rintro _ ⟨⟩
      exact htested

/-- A search goes through the named places that it reaches from the one where it starts through named
places only, and these lie one below the other by the nodes that enclose them. It visits each of them
once, in the order of their numbers, and needs one round for each. Asked for one hit, it stops at the
first one, and has then tested the places up to it. -/
theorem search_visits_named_preorder (c : Place) (test : Place → Bool) :
    AreHits c test (c.findAll test) ∧
    (∀ p between, Between c p between → p.above = between.map (·.node) ++ c.node :: c.above) ∧
    (∀ n, (after test c n).stack = [] ↔ c.below.length ≤ n) ∧
    (after test c c.below.length).hits = c.findAll test ∧
    c.findFirst? test = (c.findAll test).head? ∧
    FindsFirst test c (c.testedUntilFirst test) (c.findFirst? test) := by
  refine ⟨areHits_findAll c test, fun _ _ => Between.above_eq, fun _ => stack_after_eq_nil_iff, ?_,
    (List.head?_filter).symm, findsFirst test c⟩
  rw [hits_after, List.take_length]
  rfl

end Search

end RecordMap.Syntax
