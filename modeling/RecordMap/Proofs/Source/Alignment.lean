import RecordMap.Proofs.Source.Blanking
import RecordMap.Proofs.Text.Replacement

/-! A text, the text without its comments and the latter without its literals are aligned: what is found
at a position of one stands at the same position of the others, in the same line. -/

namespace RecordMap.Source

open Text

/-- A comment that is found on the way through the text has the character at a position. -/
def InComment (t : Text) (position : Nat) : Prop :=
  ∃ f ∈ lexeme.all t, f.value = .comment ∧ f.Covers position

theorem advances_lexeme : lexeme.Advances := by
  intro before t l rest h
  cases l with
  | comment =>
    obtain ⟨s, hs, heq, -⟩ := lexeme_comment h
    exact ⟨s, hs, heq⟩
  | string =>
    obtain ⟨s, hs, heq, -⟩ := lexeme_string h
    exact ⟨s, hs, heq⟩

theorem advances_literal : literal.Advances := by
  intro before t _ rest h
  cases t with
  | nil => cases h
  | cons c cs =>
    rw [literal] at h
    split_ifs at h with hquote hcolon
    · obtain ⟨u, hu, heq⟩ := Option.map_eq_some_iff.mp h
      cases heq
      obtain ⟨s, rfl, -⟩ := afterQuote?_eq_some hu
      exact ⟨c :: s, List.cons_ne_nil c s, rfl⟩
    · obtain ⟨⟨w, u⟩, hw, heq⟩ := Option.map_eq_some_iff.mp h
      cases heq
      obtain ⟨rfl, -⟩ := word?_eq_some_iff.mp hw
      exact ⟨c :: w, List.cons_ne_nil c w, rfl⟩

/-! ### Characters -/

def faded : Lexeme → Char → Char
  | .comment, c => if c = '\n' then c else ' '
  | .string, c => c

theorem blankComments_eq_mapFrom (t : Text) : blankComments t = lexeme.mapFrom faded none t := by
  refine congrArg (fun f => lexeme.replaceFrom f 0 none t) (funext fun l => funext fun s => ?_)
  cases l with
  | comment => rfl
  | string => exact (List.map_id s).symm

theorem blankLiterals_eq_mapFrom (t : Text) :
    blankLiterals t = literal.mapFrom (fun _ _ => ' ') none t := rfl

theorem length_blankComments (t : Text) : (blankComments t).length = t.length := by
  rw [blankComments_eq_mapFrom, Pattern.length_mapFrom advances_lexeme]

theorem length_blankLiterals (t : Text) : (blankLiterals t).length = t.length := by
  rw [blankLiterals_eq_mapFrom, Pattern.length_mapFrom advances_literal]

theorem getElem?_blankComments_of_covers {t : Text} {f : Found Lexeme} {i : Nat}
    (hf : f ∈ lexeme.all t) (hi : f.Covers i) :
    (blankComments t)[i]? = t[i]?.map (faded f.value) := by
  rw [blankComments_eq_mapFrom]
  exact Pattern.getElem?_mapFrom_of_covers advances_lexeme hf (by rwa [Nat.zero_add])

theorem getElem?_blankComments_of_not_inComment {t : Text} {i : Nat} (h : ¬ InComment t i) :
    (blankComments t)[i]? = t[i]? := by
  by_cases hcovered : ∃ f ∈ lexeme.all t, f.Covers i
  · obtain ⟨f, hf, hi⟩ := hcovered
    have hstring : f.value = .string := by
      cases hvalue : f.value with
      | comment => exact absurd ⟨f, hf, hvalue, hi⟩ h
      | string => rfl
    rw [getElem?_blankComments_of_covers hf hi, hstring]
    exact Option.map_id'
  · rw [blankComments_eq_mapFrom]
    refine Pattern.getElem?_mapFrom_of_not_covers advances_lexeme fun f hf hi => hcovered ⟨f, hf, ?_⟩
    rwa [Nat.zero_add] at hi

theorem getElem?_blankComments_eq_lineFeed_iff (t : Text) (i : Nat) :
    (blankComments t)[i]? = some '\n' ↔ t[i]? = some '\n' := by
  by_cases h : InComment t i
  · obtain ⟨f, hf, hcomment, hi⟩ := h
    rw [getElem?_blankComments_of_covers hf hi, hcomment, Option.map_eq_some_iff]
    constructor
    · rintro ⟨c, hc, hline⟩
      rw [faded] at hline
      split_ifs at hline with heq
      · rw [hc, heq]
      · cases hline
    · exact fun hc => ⟨'\n', hc, rfl⟩
  · rw [getElem?_blankComments_of_not_inComment h]

/-! ### Lines -/

theorem lineAt_blankComments_int (t : Text) (position : Int) :
    (blankComments t).lineAt position = t.lineAt position := by
  have hfaded := List.forall₂_take (t.offset position) (forall₂_blankCommentsFrom none t)
  have hoffset : (blankComments t).offset position = t.offset position := by
    rw [offset, offset, length_blankComments]
  unfold lineAt
  rw [hoffset]
  exact congrArg (· + 1) (count_lineFeed_of_faded hfaded)

/-- Every character keeps its position when comments are blanked: line feeds stay where they are, other
characters of comments become spaces, and all that is outside of comments stays, strings included. So
lines keep their numbers, at every position. Without its literals the text is as long still, so that
whatever is found in one of the three texts lies within the others. -/
theorem blankComments_keeps_positions (t : Text) :
    (blankComments t).length = t.length ∧
    (∀ i : Nat, (blankComments t)[i]? = some '\n' ↔ t[i]? = some '\n') ∧
    (∀ i : Nat, InComment t i → t[i]? ≠ some '\n' → (blankComments t)[i]? = some ' ') ∧
    (∀ i : Nat, ¬ InComment t i → (blankComments t)[i]? = t[i]?) ∧
    (∀ f ∈ lexeme.all t, f.value = .string → ∀ i : Nat, f.Covers i → (blankComments t)[i]? = t[i]?) ∧
    (∀ position : Int, (blankComments t).lineAt position = t.lineAt position) ∧
    (blankLiterals (blankComments t)).length = (blankComments t).length ∧
    ∀ {α : Type} (p : Pattern α), ∀ u ∈ [t, blankComments t, blankLiterals (blankComments t)],
      ∀ f ∈ p.all u, ∀ v ∈ [t, blankComments t, blankLiterals (blankComments t)],
        f.start < v.length ∧ f.stop ≤ v.length := by
  refine ⟨length_blankComments t, getElem?_blankComments_eq_lineFeed_iff t, ?_,
    fun i => getElem?_blankComments_of_not_inComment, ?_, lineAt_blankComments_int t,
    length_blankLiterals _, ?_⟩
  · rintro i ⟨f, hf, hcomment, hi⟩ hline
    obtain ⟨-, hstop⟩ := Pattern.within_of_mem_all hf
    obtain ⟨c, hc⟩ : ∃ c, t[i]? = some c :=
      ⟨_, List.getElem?_eq_getElem (Nat.lt_of_lt_of_le hi.2 hstop)⟩
    have hne : c ≠ '\n' := fun h => hline (by rw [hc, h])
    rw [getElem?_blankComments_of_covers hf hi, hcomment, hc, Option.map_some, faded, if_neg hne]
  · intro f hf hstring i hi
    rw [getElem?_blankComments_of_covers hf hi, hstring]
    exact Option.map_id'
  · intro α p u hu f hf v hv
    have hlength : ∀ w ∈ [t, blankComments t, blankLiterals (blankComments t)],
        w.length = t.length := by
      simp [length_blankComments, length_blankLiterals]
    rw [hlength v hv, ← hlength u hu]
    exact Pattern.within_of_mem_all hf

end RecordMap.Source
