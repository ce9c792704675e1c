import RecordMap.Proofs.Text.Occurrences
import RecordMap.Proofs.Text.Words

/-! The keywords of a text, read once and in order, give the same body for every block as the loop
that searches for them anew from each place. -/

namespace RecordMap.Source

open Text

variable {code : Text} {limit inner position : Nat} {k : Found Keyword} {ks : List (Found Keyword)}

theorem keyword_eq_some {before : Option Char} {t rest : Text} {k : Keyword}
    (h : keyword before t = some (k, rest)) : ∃ w, word? t = some (w, rest) := by
  unfold keyword at h
  split at h
  · obtain ⟨⟨w, u⟩, hword, hk⟩ := Option.bind_eq_some_iff.mp h
    obtain ⟨_, _, heq⟩ := Option.map_eq_some_iff.mp hk
    cases heq
    exact ⟨w, hword⟩
  · cases h

theorem readsTokens_keyword : keyword.ReadsTokens where
  reads := by
    intro before t k rest h
    obtain ⟨w, hword⟩ := keyword_eq_some h
    obtain ⟨rfl, hne, _⟩ := word?_eq_some hword
    obtain ⟨c, s, rfl⟩ := List.exists_cons_of_ne_nil hne
    exact ⟨c, s, rfl⟩
  passes := by
    intro before c s k rest h
    obtain ⟨w, hword⟩ := keyword_eq_some h
    obtain ⟨htext, _, hall⟩ := word?_eq_some hword
    rw [← List.cons_append, List.append_cancel_right_eq] at htext
    rw [← htext] at hall
    exact keyword_passesOver_within hall

/-! ### One kind of keywords -/

/-- What a search for one kind of keywords sees of a keyword. -/
def Keyword.only (kind k : Keyword) : Option Unit := if k = kind then some () else none

/-- A keyword as a search for one kind alone finds it. -/
def Keyword.seen (kind : Keyword) (k : Found Keyword) : Option (Found Unit) :=
  (only kind k.value).map fun u => ⟨k.start, k.stop, u⟩

theorem Keyword.seen_self {kind : Keyword} (h : k.value = kind) :
    seen kind k = some ⟨k.start, k.stop, ()⟩ := by
  unfold seen only
  rw [if_pos h, Option.map_some]

theorem Keyword.seen_other {kind : Keyword} (h : k.value ≠ kind) : seen kind k = none := by
  unfold seen only
  rw [if_neg h, Option.map_none]

theorem wholeWord_eq {words : List Text} {kind : Keyword}
    (h : ∀ w, words.contains w = true ↔ Keyword.ofWord? w = some kind) (before : Option Char)
    (t : Text) :
    wholeWord words before t = (keyword before t).bind fun (k, rest) =>
      (Keyword.only kind k).map (·, rest) := by
  unfold wholeWord keyword
  cases startsWord before with
  | false => rfl
  | true =>
    cases word? t with
    | none => rfl
    | some found =>
      obtain ⟨w, rest⟩ := found
      have hw := h w
      cases hkind : Keyword.ofWord? w with
      | none => simp_all
      | some k => by_cases hk : k = kind <;> simp_all [Keyword.only]

theorem contains_openers_iff (w : Text) :
    openers.contains w = true ↔ Keyword.ofWord? w = some .opener := by
  unfold Keyword.ofWord?
  by_cases hend : w = ['e', 'n', 'd']
  · rw [if_pos hend, hend]
    decide
  · rw [if_neg hend]
    cases openers.contains w <;> simp

theorem contains_end_iff (w : Text) :
    [['e', 'n', 'd']].contains w = true ↔ Keyword.ofWord? w = some .closer := by
  unfold Keyword.ofWord?
  by_cases hend : w = ['e', 'n', 'd']
  · rw [if_pos hend, hend]
    decide
  · rw [if_neg hend]
    cases openers.contains w <;> simp [hend]

/-! ### The keywords from a position on -/

def keywordsFrom (code : Text) (position : Nat) : List (Found Keyword) :=
  keyword.allFrom 0 position (code.take position).getLast? (code.drop position)

theorem next?_wholeWord {words : List Text} {kind : Keyword}
    (h : ∀ w, words.contains w = true ↔ Keyword.ofWord? w = some kind) :
    (wholeWord words).next? code position =
      (keywordsFrom code position).findSome? (Keyword.seen kind) :=
  Pattern.nextFrom?_eq_findSome? readsTokens_keyword (wholeWord_eq h) _ _ _

theorem filter_keywords (code : Text) (position : Nat) :
    (keyword.all code).filter (position ≤ ·.start) = keywordsFrom code position := by
  have hfilter := Pattern.filter_allFrom readsTokens_keyword 0 none (code.take position)
    (code.drop position)
  rw [List.take_append_drop, Nat.zero_add, Option.or_none] at hfilter
  unfold Pattern.all keywordsFrom
  rcases Nat.le_total position code.length with hle | hge
  · rwa [List.length_take_of_le hle] at hfilter
  · rw [List.drop_eq_nil_of_le hge, List.take_of_length_le hge] at hfilter ⊢
    rw [Pattern.allFrom, List.filter_eq_nil_iff] at hfilter ⊢
    intro k hk hstart
    apply hfilter k hk
    rw [decide_eq_true_eq] at hstart ⊢
    exact Nat.le_trans hge hstart

theorem filter_keywordsFrom {position' : Nat} (h : position ≤ position') :
    (keywordsFrom code position).filter (position' ≤ ·.start) = keywordsFrom code position' := by
  rw [← filter_keywords code position, ← filter_keywords code position', List.filter_filter]
  apply List.filter_congr
  intro k _
  rw [← Bool.decide_and, decide_eq_decide]
  omega

theorem keywordsFrom_cons (h : keywordsFrom code position = k :: ks) :
    keywordsFrom code k.stop = ks ∧ ∀ e ∈ ks, k.start < e.start := by
  have hordered : (keywordsFrom code position).Pairwise fun f g => f.stop ≤ g.start :=
    keyword.pairwise_allFrom ..
  have hmem : k ∈ keywordsFrom code position := h ▸ List.mem_cons_self ..
  have hstart : position ≤ k.start := Pattern.le_start hmem
  have hstop : k.start < k.stop := readsTokens_keyword.start_lt_stop hmem
  rw [h, List.pairwise_cons] at hordered
  constructor
  · rw [← filter_keywordsFrom (Nat.le_of_lt (Nat.lt_of_le_of_lt hstart hstop)), h,
      List.filter_cons_of_neg (by simpa using hstop), List.filter_eq_self]
    intro e he
    exact decide_eq_true (hordered.1 e he)
  · intro e he
    exact Nat.lt_of_lt_of_le hstop (hordered.1 e he)

/-! ### The loop -/

theorem next?_closer : closer.next? code position =
    (keywordsFrom code position).findSome? (Keyword.seen .closer) :=
  next?_wholeWord contains_end_iff

theorem next?_opener : opener.next? code position =
    (keywordsFrom code position).findSome? (Keyword.seen .opener) :=
  next?_wholeWord contains_openers_iff

theorem lt_start_of_findSome? {kind : Keyword} {f : Found Unit} (h : ∀ e ∈ ks, k.start < e.start)
    (hfound : ks.findSome? (Keyword.seen kind) = some f) : k.start < f.start := by
  obtain ⟨e, he, hf⟩ := List.exists_of_findSome?_eq_some hfound
  obtain ⟨u, _, rfl⟩ := Option.map_eq_some_iff.mp hf
  exact h e he

/-- Of the two keywords that are found, the one that comes first is the first of all keywords. -/
theorem exists_first_keyword {e : Found Unit} (h : closer.next? code position = some e) :
    ∃ k ks, keywordsFrom code position = k :: ks ∧
      ((k.value = .opener ∧
          (opener.next? code position).filter (·.start < e.start) = some ⟨k.start, k.stop, ()⟩) ∨
        (k.value = .closer ∧ e = ⟨k.start, k.stop, ()⟩ ∧
          (opener.next? code position).filter (·.start < e.start) = none)) := by
  rw [next?_closer] at h
  cases hkeywords : keywordsFrom code position with
  | nil =>
    rw [hkeywords] at h
    cases h
  | cons k ks =>
    obtain ⟨_, hbehind⟩ := keywordsFrom_cons hkeywords
    refine ⟨k, ks, rfl, ?_⟩
    rw [next?_opener, hkeywords, List.findSome?_cons]
    rw [hkeywords, List.findSome?_cons] at h
    cases hvalue : k.value with
    | opener =>
      rw [Keyword.seen_other (by rw [hvalue]; decide)] at h
      have hlt := lt_start_of_findSome? hbehind h
      rw [Keyword.seen_self hvalue]
      exact .inl ⟨rfl, by simp [hlt]⟩
    | closer =>
      rw [Keyword.seen_self hvalue] at h
      cases h
      rw [Keyword.seen_other (by rw [hvalue]; decide)]
      refine .inr ⟨rfl, rfl, ?_⟩
      rw [Option.filter_eq_none_iff]
      intro o ho hlt
      exact Nat.lt_asymm (lt_start_of_findSome? hbehind ho) (of_decide_eq_true hlt)

theorem closing?_eq_none {position : Int} (h : ∀ k ∈ ks, Keyword.seen .closer k = none) :
    closing? limit inner position ks = none := by
  induction ks generalizing inner position with
  | nil => rfl
  | cons k ks ih =>
    obtain ⟨hk, hks⟩ := List.forall_mem_cons.mp h
    unfold closing?
    cases hvalue : k.value with
    | opener => simp [ih hks]
    | closer =>
      rw [Keyword.seen_self hvalue] at hk
      cases hk

theorem closing?_cons {position : Int} (h : position < limit) :
    closing? limit inner position (k :: ks) =
      match k.value, inner with
      | .opener, _ => closing? limit (inner + 1) k.stop ks
      | .closer, 0 => some k.start
      | .closer, inner + 1 => closing? limit inner k.stop ks := by
  conv => lhs; unfold closing?
  exact if_pos h

/-- The two ways to find the end of a block agree. -/
theorem closing?_keywordsFrom (position : Int) :
    closing? limit inner position (keywordsFrom code position.toNat) =
      closingFrom? limit code inner position := by
  -- each step of the loop takes the first of the keywords that are left
  fun_induction closingFrom? limit code inner position with
  | case1 inner position hlimit hcloser =>
    rw [next?_closer, List.findSome?_eq_none_iff] at hcloser
    exact closing?_eq_none hcloser
  | case2 inner position hlimit e hcloser o hopener ih =>
    obtain ⟨k, ks, hkeywords, ⟨hvalue, hk⟩ | ⟨_, _, hk⟩⟩ := exists_first_keyword hcloser
    · rw [hopener] at hk
      cases hk
      rw [← ih, hkeywords, closing?_cons hlimit, hvalue, Int.toNat_natCast,
        (keywordsFrom_cons hkeywords).1]
    · rw [hopener] at hk
      cases hk
  | case3 position hlimit e hcloser hopener =>
    obtain ⟨k, ks, hkeywords, ⟨_, hk⟩ | ⟨hvalue, rfl, _⟩⟩ := exists_first_keyword hcloser
    · rw [hopener] at hk
      cases hk
    · rw [hkeywords, closing?_cons hlimit, hvalue]
  | case4 position hlimit e hcloser hopener inner ih =>
    obtain ⟨k, ks, hkeywords, ⟨_, hk⟩ | ⟨hvalue, rfl, _⟩⟩ := exists_first_keyword hcloser
    · rw [hopener] at hk
      cases hk
    · rw [← ih, hkeywords, closing?_cons hlimit, hvalue, Int.toNat_natCast,
        (keywordsFrom_cons hkeywords).1]
  | case5 inner position hlimit =>
    cases keywordsFrom code position.toNat with
    | nil => rfl
    | cons k ks =>
      unfold closing?
      exact if_neg hlimit

theorem bodyBy?_keywords (content code : Text) (start : Int) :
    bodyBy? (keyword.all code) content start = blockBody? content code start := by
  have hcast : (fun k : Found Keyword => decide (start ≤ k.start)) =
      fun k => decide (start.toNat ≤ k.start) := by
    funext k
    rw [decide_eq_decide]
    omega
  unfold bodyBy? blockBody?
  rw [hcast, filter_keywords, closing?_keywordsFrom]
  cases closingFrom? content.length code 0 start <;> rfl

end RecordMap.Source
