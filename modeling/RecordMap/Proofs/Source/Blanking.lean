import Mathlib.Data.List.Forall2
import RecordMap.Proofs.Dump.Comments
import RecordMap.Schema.Dump.Tables

/-! A text without comments reads as the text does: its strings are those of the text, at the same
positions, and it has no comments, so that nothing is left to be blanked. -/

namespace RecordMap.Source

open Text

variable {before : Option Char} {s t t' rest : Text}

/-! ### One lexeme after the other -/

theorem afterQuote?_eq_some {mark : Char} {escapes : Char → Bool}
    (h : afterQuote? mark escapes t = some rest) :
    ∃ s, t = s ++ rest ∧ ∀ u, afterQuote? mark escapes (s ++ u) = some u := by
  fun_induction afterQuote? mark escapes t with
  | case1 => cases h
  | case2 cs =>
    cases h
    refine ⟨[mark], rfl, fun u => ?_⟩
    unfold afterQuote?
    exact if_pos rfl
  | case3 => cases h
  | case4 d ds hd hmark ih =>
    obtain ⟨s, rfl, hs⟩ := ih h
    refine ⟨'\\' :: d :: s, rfl, fun u => ?_⟩
    unfold afterQuote?
    simp [hmark, hd, hs]
  | case5 => cases h
  | case6 c cs hmark hslash ih =>
    obtain ⟨s, rfl, hs⟩ := ih h
    refine ⟨c :: s, rfl, fun u => ?_⟩
    unfold afterQuote?
    simp [hmark, hslash, hs]

theorem afterBlockEnd?_eq_some (h : afterBlockEnd? t = some rest) :
    ∃ s, t = s ++ "\n=end".toList ++ rest := by
  fun_induction afterBlockEnd? t with
  | case1 => cases h
  | case2 cs u hend =>
    cases h
    rw [afterAll?_eq_some_iff] at hend
    exact ⟨[], congrArg ('\n' :: ·) hend⟩
  | case3 cs hnone ih =>
    obtain ⟨s, rfl⟩ := ih h
    exact ⟨'\n' :: s, rfl⟩
  | case4 c cs hc ih =>
    obtain ⟨s, rfl⟩ := ih h
    exact ⟨c :: s, rfl⟩

theorem lexeme_string (h : lexeme before t = some (.string, rest)) :
    ∃ s, s ≠ [] ∧ t = s ++ rest ∧ ∀ b u, lexeme b (s ++ u) = some (.string, u) := by
  cases t with
  | nil => cases h
  | cons c cs =>
    rw [lexeme] at h
    split_ifs at h with hhash hequals _ hquote
    · cases h
    · obtain ⟨_, _, heq⟩ := Option.map_eq_some_iff.mp h
      cases heq
    · obtain ⟨u, hu, heq⟩ := Option.map_eq_some_iff.mp h
      cases heq
      obtain ⟨s, rfl, hs⟩ := afterQuote?_eq_some hu
      refine ⟨c :: s, List.cons_ne_nil c s, rfl, fun b u => ?_⟩
      rw [List.cons_append, lexeme, if_neg hhash, if_neg hequals, if_pos hquote, hs]
      rfl

/-- A comment ends in front of a line feed or at the end of the text, or its last character is no
backslash. -/
theorem lexeme_comment (h : lexeme before t = some (.comment, rest)) :
    ∃ s, s ≠ [] ∧ t = s ++ rest ∧ (s.getLast? ≠ some '\\' ∨ rest.head?.all (· == '\n') = true) := by
  cases t with
  | nil => cases h
  | cons c cs =>
    rw [lexeme] at h
    split_ifs at h with hhash hequals _ hquote
    · cases h
      refine ⟨c :: cs.takeWhile (· ≠ '\n'), List.cons_ne_nil _ _, ?_, .inr ?_⟩
      · rw [List.cons_append, List.takeWhile_append_dropWhile]
      · have hhead := List.head?_dropWhile_not (fun d : Char => decide (d ≠ '\n')) cs
        cases hrest : (cs.dropWhile (· ≠ '\n')).head? with
        | none => rfl
        | some d =>
          rw [hrest] at hhead
          simpa using hhead
    · obtain ⟨u, hu, heq⟩ := Option.map_eq_some_iff.mp h
      cases heq
      obtain ⟨v, hbegin, hend⟩ := Option.bind_eq_some_iff.mp hu
      obtain ⟨s, rfl⟩ := afterBlockEnd?_eq_some hend
      rw [afterAll?_eq_some_iff] at hbegin
      refine ⟨c :: ("begin".toList ++ (s ++ "\n=end".toList)), List.cons_ne_nil _ _, ?_, .inl ?_⟩
      · rw [hbegin]
        simp only [List.append_assoc, List.cons_append]
      · have hlast : "\n=end".toList.getLast? = some 'd' := by decide
        rw [← List.cons_append, ← List.append_assoc, List.getLast?_append, hlast, Option.some_or]
        decide
    · obtain ⟨_, _, heq⟩ := Option.map_eq_some_iff.mp h
      cases heq

theorem blankCommentsFrom_cons {c : Char} {cs : Text} (h : lexeme before (c :: cs) = none) :
    blankCommentsFrom before (c :: cs) = c :: blankCommentsFrom (some c) cs :=
  Pattern.replaceFrom_of_none _ h

theorem lexeme_induction {motive : Option Char → Text → Prop}
    (nil : ∀ before, motive before [])
    (code : ∀ before c cs, lexeme before (c :: cs) = none → motive (some c) cs →
      motive before (c :: cs))
    (comment : ∀ before s rest, s ≠ [] → lexeme before (s ++ rest) = some (.comment, rest) →
      motive (s.getLast?.or before) rest → motive before (s ++ rest))
    (string : ∀ before s rest, s ≠ [] → lexeme before (s ++ rest) = some (.string, rest) →
      motive (s.getLast?.or before) rest → motive before (s ++ rest))
    (before : Option Char) (t : Text) : motive before t := by
  induction hlength : t.length using Nat.strongRecOn generalizing before t with
  | ind n ih =>
    have hshorter : ∀ s rest : Text, s ≠ [] → t = s ++ rest → rest.length < n := by
      rintro s rest hs rfl
      rw [← hlength, List.length_append]
      exact Nat.lt_add_of_pos_left (List.length_pos_iff.mpr hs)
    cases t with
    | nil => exact nil before
    | cons c cs =>
      cases hmatch : lexeme before (c :: cs) with
      | none => exact code before c cs hmatch (ih _ (hshorter [c] cs (List.cons_ne_nil _ _) rfl) _ cs rfl)
      | some found =>
        obtain ⟨l, rest⟩ := found
        cases l with
        | comment =>
          obtain ⟨s, hs, heq, _⟩ := lexeme_comment hmatch
          rw [heq] at hmatch ⊢
          exact comment before s rest hs hmatch (ih _ (hshorter s rest hs heq) _ rest rfl)
        | string =>
          obtain ⟨s, hs, heq, _⟩ := lexeme_string hmatch
          rw [heq] at hmatch ⊢
          exact string before s rest hs hmatch (ih _ (hshorter s rest hs heq) _ rest rfl)

/-! ### Characters that become spaces -/

/-- The second character is the first one, or a space in place of it. Line feeds stay. -/
def Faded (c d : Char) : Prop := d = c ∨ (d = ' ' ∧ c ≠ '\n')

theorem forall₂_faded_self (t : Text) : List.Forall₂ Faded t t :=
  List.forall₂_same.mpr fun _ _ => .inl rfl

theorem forall₂_blankLines (t : Text) : List.Forall₂ Faded t (blankLines t) := by
  unfold blankLines
  rw [List.forall₂_map_right_iff, List.forall₂_same]
  intro c _
  unfold Faded
  split_ifs with hc
  · exact .inl rfl
  · exact .inr ⟨rfl, hc⟩

theorem forall₂_blankCommentsFrom (before : Option Char) (t : Text) :
    List.Forall₂ Faded t (blankCommentsFrom before t) := by
  induction before, t using lexeme_induction with
  | nil before => exact .nil
  | code before c cs hnone ih =>
    rw [blankCommentsFrom_cons hnone]
    exact .cons (.inl rfl) ih
  | comment before s rest hs hmatch ih =>
    rw [blankCommentsFrom_comment hs hmatch]
    exact List.rel_append (forall₂_blankLines s) ih
  | string before s rest hs hmatch ih =>
    rw [blankCommentsFrom_string hs hmatch]
    exact List.rel_append (forall₂_faded_self s) ih

theorem eq_append_of_faded {w : Text} (hw : ' ' ∉ w) (h : List.Forall₂ Faded t (w ++ t')) :
    ∃ u, t = w ++ u ∧ List.Forall₂ Faded u t' := by
  induction w generalizing t with
  | nil => exact ⟨t, rfl, h⟩
  | cons c w ih =>
    rw [List.mem_cons, not_or] at hw
    rw [List.cons_append, List.forall₂_cons_right_iff] at h
    obtain ⟨d, u, hd, hu, rfl⟩ := h
    obtain ⟨v, rfl, hv⟩ := ih hw.2 hu
    rcases hd with rfl | ⟨rfl, _⟩
    · exact ⟨v, rfl, hv⟩
    · exact absurd rfl hw.1

theorem afterAll?_eq_none_of_faded {beginning : String} (hspace : ' ' ∉ beginning.toList)
    (h : List.Forall₂ Faded t t') (hnone : afterAll? beginning t = none) :
    afterAll? beginning t' = none := by
  rw [Option.eq_none_iff_forall_ne_some]
  intro u hu
  rw [afterAll?_eq_some_iff] at hu
  rw [hu] at h
  obtain ⟨v, rfl, _⟩ := eq_append_of_faded hspace h
  rw [afterAll?_eq_some_iff.mpr rfl] at hnone
  cases hnone

theorem afterBlockEnd?_eq_none_of_faded (h : List.Forall₂ Faded t t')
    (hnone : afterBlockEnd? t = none) : afterBlockEnd? t' = none := by
  induction h with
  | nil => rfl
  | @cons c d cs ds hd htail ih =>
    unfold afterBlockEnd? at hnone ⊢
    by_cases hc : c = '\n'
    · have hline : d = '\n' := by
        rcases hd with rfl | ⟨_, hne⟩
        · exact hc
        · exact absurd hc hne
      rw [if_pos hc] at hnone
      rw [if_pos hline]
      cases hend : afterAll? "=end" cs with
      | some u =>
        rw [hend] at hnone
        cases hnone
      | none =>
        rw [hend] at hnone
        rw [afterAll?_eq_none_of_faded (by decide) htail hend]
        exact ih hnone
    · have hline : d ≠ '\n' := by
        rcases hd with rfl | ⟨rfl, _⟩
        · exact hc
        · decide
      rw [if_neg hc] at hnone
      rw [if_neg hline]
      exact ih hnone

/-! ### Marks that are not closed -/

/-- How far a string is read: within it, behind a backslash in it, or behind its end. -/
inductive Progress where
  | inside
  | escaped
  | closed
deriving DecidableEq

def Progress.next (mark : Char) : Progress → Char → Progress
  | .inside, c => if c = mark then .closed else if c = '\\' then .escaped else .inside
  | .escaped, _ => .inside
  | .closed, _ => .closed

def Progress.after (mark : Char) (t : Text) (p : Progress) : Progress := t.foldl (next mark) p

namespace Progress

variable {mark : Char} {p : Progress}

theorem after_closed (t : Text) : after mark t .closed = .closed := by
  induction t with
  | nil => rfl
  | cons c t ih => exact ih

theorem after_append : after mark (s ++ t) p = after mark t (after mark s p) := List.foldl_append

theorem afterQuote?_eq_none_iff :
    afterQuote? mark (fun _ => true) t = none ↔ after mark t .inside ≠ .closed := by
  fun_induction afterQuote? mark (fun _ => true) t with
  | case1 => simp [after]
  | case2 cs =>
    have hclosed : after mark (mark :: cs) .inside = .closed := by
      rw [after, List.foldl_cons, next, if_pos rfl]
      exact after_closed cs
    simp [hclosed]
  | case3 hmark => simp [after, next, hmark]
  | case4 d ds _ hmark ih =>
    rw [ih]
    simp [after, next, hmark]
  | case5 d ds hd => exact absurd rfl hd
  | case6 c cs hmark hslash ih =>
    rw [ih]
    simp [after, next, hmark, hslash]

theorem ne_closed_of_after (h : after mark t p ≠ .closed) : p ≠ .closed := by
  rintro rfl
  exact h (after_closed t)

/-- A string goes on behind blanks, whatever stood there before. -/
theorem after_blankLines (hmark : mark = '\'' ∨ mark = '"') (hs : s ≠ []) (hp : p ≠ .closed) :
    after mark (blankLines s) p = .inside := by
  induction s generalizing p with
  | nil => exact absurd rfl hs
  | cons c s ih =>
    have hnext : next mark p (if c = '\n' then c else ' ') = .inside := by
      cases p with
      | inside => rcases hmark with rfl | rfl <;> split_ifs with hc <;> simp [next, hc]
      | escaped => rfl
      | closed => exact absurd rfl hp
    change after mark (blankLines s) (next mark p _) = .inside
    rw [hnext]
    cases s with
    | nil => rfl
    | cons d s => exact ih (List.cons_ne_nil d s) (by decide)

theorem getLast?_of_after_eq_escaped (hs : s ≠ []) (h : after mark s p = .escaped) :
    s.getLast? = some '\\' := by
  obtain ⟨u, c, rfl⟩ := (List.eq_nil_or_concat s).resolve_left hs
  rw [List.concat_eq_append] at h ⊢
  have hlast : next mark (after mark u p) c = .escaped := by
    rwa [after_append] at h
  have hc : c = '\\' := by
    cases hprogress : after mark u p with
    | inside =>
      rw [hprogress, next] at hlast
      split_ifs at hlast with _ hslash
      exact hslash
    | escaped =>
      rw [hprogress] at hlast
      cases hlast
    | closed =>
      rw [hprogress] at hlast
      cases hlast
  rw [List.getLast?_concat, hc]

/-- In front of a line feed it makes no difference whether a backslash came before it. -/
theorem after_inside_ne_closed (hmark : mark = '\'' ∨ mark = '"')
    (hrest : rest.head?.all (· == '\n') = true) (h : after mark rest .escaped ≠ .closed) :
    after mark rest .inside ≠ .closed := by
  cases rest with
  | nil => simp [after]
  | cons c rest =>
    have hc : c = '\n' := by simpa using hrest
    subst hc
    have hnext : next mark .inside '\n' = next mark .escaped '\n' := by
      rcases hmark with rfl | rfl <;> rfl
    unfold after at h ⊢
    rwa [List.foldl_cons, hnext]

end Progress

theorem lexeme_comment_last (h : lexeme before (s ++ rest) = some (.comment, rest)) :
    s.getLast? ≠ some '\\' ∨ rest.head?.all (· == '\n') = true := by
  obtain ⟨s', _, heq, hlast⟩ := lexeme_comment h
  rwa [List.append_cancel_right heq]

/-- A mark that no mark closes is closed by none when comments are blanked: behind each comment the
characters are escaped as before. -/
theorem after_blankCommentsFrom {mark : Char} (hmark : mark = '\'' ∨ mark = '"')
    (before : Option Char) (t : Text) (p : Progress) (h : p.after mark t ≠ .closed) :
    p.after mark (blankCommentsFrom before t) ≠ .closed := by
  induction before, t using lexeme_induction generalizing p with
  | nil before => exact h
  | code before c cs hnone ih =>
    rw [blankCommentsFrom_cons hnone]
    exact ih (p.next mark c) h
  | comment before s rest hs hmatch ih =>
    rw [Progress.after_append] at h
    have hp := Progress.ne_closed_of_after (Progress.ne_closed_of_after h)
    rw [blankCommentsFrom_comment hs hmatch, Progress.after_append,
      Progress.after_blankLines hmark hs hp]
    apply ih
    -- behind the comment as it was, the string may go on with an escaped character
    cases hafter : Progress.after mark s p with
    | inside => rwa [hafter] at h
    | closed => exact absurd hafter (Progress.ne_closed_of_after h)
    | escaped =>
      rw [hafter] at h
      have hlast := Progress.getLast?_of_after_eq_escaped hs hafter
      have hrest := (lexeme_comment_last hmatch).resolve_left (not_not_intro hlast)
      exact Progress.after_inside_ne_closed hmark hrest h
  | string before s rest hs hmatch ih =>
    rw [Progress.after_append] at h
    rw [blankCommentsFrom_string hs hmatch, Progress.after_append]
    exact ih _ h

/-! ### Lexemes of a text without comments -/

theorem lexeme_blankCommentsFrom {c : Char} {cs : Text} (h : lexeme before (c :: cs) = none) :
    lexeme before (c :: blankCommentsFrom (some c) cs) = none := by
  have hfaded := forall₂_blankCommentsFrom (some c) cs
  rw [lexeme] at h ⊢
  split_ifs at h ⊢ with hhash hequals hline hquote
  · -- a block of comments that does not end: no line feed and no terminator is new
    rw [Option.map_eq_none_iff] at h ⊢
    cases hbegin : afterAll? "begin" (blankCommentsFrom (some c) cs) with
    | none => rfl
    | some u =>
      rw [afterAll?_eq_some_iff.mp hbegin] at hfaded
      obtain ⟨v, hv, hvu⟩ := eq_append_of_faded (by decide) hfaded
      rw [afterAll?_eq_some_iff.mpr hv] at h
      exact afterBlockEnd?_eq_none_of_faded hvu h
  · rfl
  · rw [Option.map_eq_none_iff, Progress.afterQuote?_eq_none_iff] at h ⊢
    exact after_blankCommentsFrom hquote _ _ _ h
  · rfl

theorem lexeme_congr {b b' : Option Char} (h : startsLine b = startsLine b') (t : Text) :
    lexeme b t = lexeme b' t := by
  cases t with
  | nil => rfl
  | cons c cs => rw [lexeme, lexeme, h]

theorem allFrom_lexeme_congr {b b' : Option Char} (h : startsLine b = startsLine b') (position : Nat)
    (t : Text) : lexeme.allFrom 0 position b t = lexeme.allFrom 0 position b' t := by
  cases t with
  | nil => rfl
  | cons c cs => rw [Pattern.allFrom, Pattern.allFrom, lexeme_congr h]

theorem startsLine_blankLines (s : Text) (before : Option Char) :
    startsLine ((blankLines s).getLast?.or before) = startsLine (s.getLast?.or before) := by
  unfold blankLines
  rw [List.getLast?_map]
  cases s.getLast? with
  | none => rfl
  | some c => by_cases hc : c = '\n' <;> simp [startsLine, hc]

theorem passesOver_blankLines (s rest : Text) (before : Option Char) :
    lexeme.PassesOver before (blankLines s) rest := by
  apply Pattern.passesOver_of_forall
  intro c hc b t
  obtain ⟨d, _, rfl⟩ := List.mem_map.mp hc
  apply lexeme_eq_none
  split_ifs with hd
  · rw [hd]
    decide
  · decide

/-- What a text without comments holds: the strings of the text, each where it was. -/
theorem allFrom_blankCommentsFrom (position : Nat) (before : Option Char) (t : Text) :
    lexeme.allFrom 0 position before (blankCommentsFrom before t) =
      (lexeme.allFrom 0 position before t).filter (·.value = .string) := by
  induction before, t using lexeme_induction generalizing position with
  | nil before => rfl
  | code before c cs hnone ih =>
    rw [blankCommentsFrom_cons hnone, Pattern.allFrom_of_none _ (lexeme_blankCommentsFrom hnone),
      Pattern.allFrom_of_none _ hnone, ih]
  | comment before s rest hs hmatch ih =>
    have hlength : (blankLines s).length = s.length := List.length_map _
    rw [blankCommentsFrom_comment hs hmatch,
      Pattern.allFrom_of_passesOver _ (passesOver_blankLines s _ _), hlength,
      allFrom_lexeme_congr (startsLine_blankLines s before), ih,
      Pattern.allFrom_of_match _ hs hmatch]
    rfl
  | string before s rest hs hmatch ih =>
    obtain ⟨s', _, heq, hstring⟩ := lexeme_string hmatch
    obtain rfl := List.append_cancel_right heq
    rw [blankCommentsFrom_string hs hmatch, Pattern.allFrom_of_match _ hs (hstring before _), ih,
      Pattern.allFrom_of_match _ hs hmatch]
    rfl

theorem drop_append_behind {front u : Text} {start position : Nat}
    (h : position + front.length ≤ start) :
    (front ++ u).drop (start - position) = u.drop (start - (position + front.length)) := by
  have hsize : start - position = front.length + (start - (position + front.length)) := by omega
  rw [hsize, ← List.drop_drop, List.drop_left]

theorem take_drop_blankCommentsFrom {position : Nat} {before : Option Char} {t : Text}
    {f : Found Lexeme} (hf : f ∈ lexeme.allFrom 0 position before t) (hstring : f.value = .string) :
    ((blankCommentsFrom before t).drop (f.start - position)).take (f.stop - f.start) =
      (t.drop (f.start - position)).take (f.stop - f.start) := by
  induction before, t using lexeme_induction generalizing position with
  | nil before => cases hf
  | code before c cs hnone ih =>
    rw [Pattern.allFrom_of_none _ hnone] at hf
    have hblank : blankCommentsFrom before (c :: cs) = [c] ++ blankCommentsFrom (some c) cs :=
      blankCommentsFrom_cons hnone
    have hcons : c :: cs = [c] ++ cs := rfl
    have hle : position + [c].length ≤ f.start := Pattern.le_start hf
    have htail := ih hf
    rw [hblank, hcons, drop_append_behind hle, drop_append_behind hle]
    exact htail
  | comment before s rest hs hmatch ih =>
    rw [Pattern.allFrom_of_match _ hs hmatch] at hf
    rcases List.mem_cons.mp hf with rfl | hf
    · cases hstring
    · have hlength : (blankLines s).length = s.length := List.length_map _
      have hle := Pattern.le_start hf
      have htail := ih hf
      rw [blankCommentsFrom_comment hs hmatch, drop_append_behind hle,
        drop_append_behind (hlength ▸ hle), hlength]
      exact htail
  | string before s rest hs hmatch ih =>
    rw [Pattern.allFrom_of_match _ hs hmatch] at hf
    rw [blankCommentsFrom_string hs hmatch]
    rcases List.mem_cons.mp hf with rfl | hf
    · simp
    · have hle := Pattern.le_start hf
      have htail := ih hf
      rw [drop_append_behind hle, drop_append_behind hle]
      exact htail

theorem blankCommentsFrom_eq_self (position : Nat)
    (h : ∀ f ∈ lexeme.allFrom 0 position before t, f.value = .string) :
    blankCommentsFrom before t = t := by
  induction before, t using lexeme_induction generalizing position with
  | nil before => rfl
  | code before c cs hnone ih =>
    rw [Pattern.allFrom_of_none _ hnone] at h
    rw [blankCommentsFrom_cons hnone, ih _ h]
  | comment before s rest hs hmatch ih =>
    rw [Pattern.allFrom_of_match _ hs hmatch] at h
    cases h _ (List.mem_cons_self ..)
  | string before s rest hs hmatch ih =>
    rw [Pattern.allFrom_of_match _ hs hmatch] at h
    rw [blankCommentsFrom_string hs hmatch, ih _ fun f hf => h f (List.mem_cons_of_mem _ hf)]

/-! ### The tables of a text without comments -/

theorem all_blankComments (t : Text) :
    lexeme.all (blankComments t) = (lexeme.all t).filter (·.value = .string) :=
  allFrom_blankCommentsFrom 0 none t

theorem blankComments_blankComments (t : Text) : blankComments (blankComments t) = blankComments t := by
  apply blankCommentsFrom_eq_self 0
  intro f hf
  change f ∈ lexeme.all (blankComments t) at hf
  rw [all_blankComments, List.mem_filter] at hf
  exact of_decide_eq_true hf.2

theorem count_lineFeed_of_faded (h : List.Forall₂ Faded t t') : t'.count '\n' = t.count '\n' := by
  induction h with
  | nil => rfl
  | cons hcd _ ih =>
    rw [List.count_cons, List.count_cons, ih]
    rcases hcd with rfl | ⟨rfl, hc⟩
    · rfl
    · simp [hc]

theorem lineAt_blankComments (t : Text) (position : Nat) :
    (blankComments t).lineAt position = t.lineAt position := by
  have hfaded := List.forall₂_take position (forall₂_blankCommentsFrom none t)
  unfold lineAt
  rw [offset_natCast, offset_natCast]
  exact congrArg (· + 1) (count_lineFeed_of_faded hfaded)

theorem readTables_blankComments (content : Text) :
    Schema.Dump.readTables (blankComments content) = Schema.Dump.readTables content := by
  unfold Schema.Dump.readTables
  rw [blankComments_blankComments]
  apply List.map_congr_left
  intro h _
  unfold Schema.Dump.tableOf
  rw [lineAt_blankComments]

/-- Without its comments a text has no comment, and the strings that it has with them, at the same
positions and with the same characters. So comments are blanked once for all, and they do not matter
for the tables that are read nor for those that are found without an end. -/
theorem lexemes_blankComments (t : Text) :
    (∀ f ∈ lexeme.all (blankComments t), f.value = .string) ∧
    lexeme.all (blankComments t) = (lexeme.all t).filter (·.value = .string) ∧
    (∀ f ∈ lexeme.all (blankComments t),
      (blankComments t).slice f.start f.stop = t.slice f.start f.stop) ∧
    blankComments (blankComments t) = blankComments t ∧
    Schema.Dump.tables (blankComments t) = Schema.Dump.tables t ∧
    Schema.Dump.unterminated (blankComments t) = Schema.Dump.unterminated t := by
  have hstrings : ∀ f ∈ lexeme.all (blankComments t), f ∈ lexeme.all t ∧ f.value = .string := by
    intro f hf
    rw [all_blankComments, List.mem_filter] at hf
    exact ⟨hf.1, of_decide_eq_true hf.2⟩
  refine ⟨fun f hf => (hstrings f hf).2, all_blankComments t, fun f hf => ?_,
    blankComments_blankComments t, ?_, ?_⟩
  · obtain ⟨hmem, hstring⟩ := hstrings f hf
    rw [slice_natCast, slice_natCast]
    exact take_drop_blankCommentsFrom hmem hstring
  · unfold Schema.Dump.tables
    rw [readTables_blankComments]
  · unfold Schema.Dump.unterminated
    rw [readTables_blankComments]

end RecordMap.Source
