import Mathlib.Data.List.Basic
import RecordMap.Proofs.Text.Search

/-! Replacements character by character: within a match every character becomes another one, and outside
of all matches it stays, so that positions mean the same before and after. -/

namespace RecordMap

def Found.Covers {α : Type} (f : Found α) (position : Nat) : Prop :=
  f.start ≤ position ∧ position < f.stop

namespace Pattern

variable {α : Type} {p : Pattern α} {g : α → Char → Char} {skip position : Nat} {before : Option Char}
  {t : Text} {f : Found α}

def Advances (p : Pattern α) : Prop :=
  ∀ ⦃before t a rest⦄, p before t = some (a, rest) → ∃ s, s ≠ [] ∧ t = s ++ rest

/-- A text is read match by match, and between matches character by character. -/
theorem Advances.induction (hp : p.Advances) {motive : Option Char → Text → Prop}
    (nil : ∀ before, motive before [])
    (none : ∀ before c cs, p before (c :: cs) = .none → motive (some c) cs → motive before (c :: cs))
    (found : ∀ before s a rest, s ≠ [] → p before (s ++ rest) = some (a, rest) →
      motive (s.getLast?.or before) rest → motive before (s ++ rest))
    (before : Option Char) (t : Text) : motive before t := by
  induction hlength : t.length using Nat.strongRecOn generalizing before t with
  | ind n ih =>
    cases t with
    | nil => exact nil before
    | cons c cs =>
      cases hmatch : p before (c :: cs) with
      | none => exact none before c cs hmatch (ih cs.length (by rw [← hlength]; simp) _ cs rfl)
      | some result =>
        obtain ⟨a, rest⟩ := result
        obtain ⟨s, hs, heq⟩ := hp hmatch
        have hshorter : rest.length < n := by
          rw [← hlength, heq, List.length_append]
          exact Nat.lt_add_of_pos_left (List.length_pos_iff.mpr hs)
        rw [heq] at hmatch ⊢
        exact found before s a rest hs hmatch (ih _ hshorter _ rest rfl)

/-- Replaces every character of a match of value `a` by its image under `g a`. -/
def mapFrom (p : Pattern α) (g : α → Char → Char) (before : Option Char) (t : Text) : Text :=
  p.replaceFrom (fun a s => s.map (g a)) 0 before t

theorem mapFrom_of_none {before : Option Char} {c : Char} {cs : Text}
    (h : p before (c :: cs) = none) : p.mapFrom g before (c :: cs) = c :: p.mapFrom g (some c) cs :=
  replaceFrom_of_none _ h

theorem mapFrom_of_match {before : Option Char} {s rest : Text} {a : α} (hs : s ≠ [])
    (h : p before (s ++ rest) = some (a, rest)) :
    p.mapFrom g before (s ++ rest) = s.map (g a) ++ p.mapFrom g (s.getLast?.or before) rest :=
  replaceFrom_of_match _ hs h

theorem length_mapFrom (hp : p.Advances) (before : Option Char) (t : Text) :
    (p.mapFrom g before t).length = t.length := by
  induction before, t using hp.induction with
  | nil before => rfl
  | none before c cs hnone ih => rw [mapFrom_of_none hnone, List.length_cons, ih, List.length_cons]
  | found before s a rest hs hmatch ih =>
    rw [mapFrom_of_match hs hmatch, List.length_append, List.length_map, ih, List.length_append]

theorem getElem?_mapFrom_of_covers (hp : p.Advances) {position i : Nat} {before : Option Char}
    {t : Text} {f : Found α} (hf : f ∈ p.allFrom 0 position before t) (hi : f.Covers (position + i)) :
    (p.mapFrom g before t)[i]? = t[i]?.map (g f.value) := by
  induction before, t using hp.induction generalizing position i with
  | nil before => cases hf
  | none before c cs hnone ih =>
    rw [allFrom_of_none position hnone] at hf
    have hstart := le_start hf
    obtain ⟨i, rfl⟩ : ∃ j, i = j + 1 := ⟨i - 1, by have := hi.1; omega⟩
    rw [mapFrom_of_none hnone, List.getElem?_cons_succ, List.getElem?_cons_succ]
    exact ih hf (by rwa [Nat.add_assoc, Nat.add_comm 1])
  | found before s a rest hs hmatch ih =>
    rw [allFrom_of_match position hs hmatch] at hf
    rw [mapFrom_of_match hs hmatch]
    rcases List.mem_cons.mp hf with rfl | hf
    · have hlt : i < s.length := Nat.lt_of_add_lt_add_left hi.2
      rw [List.getElem?_append_left (by rwa [List.length_map]), List.getElem?_append_left hlt,
        List.getElem?_map]
    · have hle : s.length ≤ i := Nat.le_of_add_le_add_left (Nat.le_trans (le_start hf) hi.1)
      obtain ⟨j, rfl⟩ := Nat.exists_eq_add_of_le hle
      rw [List.getElem?_append_right (by rw [List.length_map]; exact hle),
        List.getElem?_append_right hle, List.length_map, Nat.add_sub_cancel_left]
      exact ih hf (by rwa [Nat.add_assoc])

theorem getElem?_mapFrom_of_not_covers (hp : p.Advances) {position i : Nat} {before : Option Char}
    {t : Text} (hi : ∀ f ∈ p.allFrom 0 position before t, ¬ f.Covers (position + i)) :
    (p.mapFrom g before t)[i]? = t[i]? := by
  induction before, t using hp.induction generalizing position i with
  | nil before => rfl
  | none before c cs hnone ih =>
    rw [allFrom_of_none position hnone] at hi
    rw [mapFrom_of_none hnone]
    cases i with
    | zero => rfl
    | succ i => exact ih fun f hf => Nat.add_right_comm position i 1 ▸ hi f hf
  | found before s a rest hs hmatch ih =>
    rw [allFrom_of_match position hs hmatch] at hi
    obtain ⟨hhead, htail⟩ := List.forall_mem_cons.mp hi
    have hle : s.length ≤ i := by
      by_contra hlt
      exact hhead ⟨Nat.le_add_right position i, by dsimp only; omega⟩
    obtain ⟨j, rfl⟩ := Nat.exists_eq_add_of_le hle
    rw [mapFrom_of_match hs hmatch, List.getElem?_append_right (by rw [List.length_map]; exact hle),
      List.getElem?_append_right hle, List.length_map, Nat.add_sub_cancel_left]
    exact ih (by rwa [Nat.add_assoc])

/-! ### Positions of matches -/

/-- Matches lie within the text, whatever the pattern is. -/
theorem within_of_mem_allFrom (hf : f ∈ p.allFrom skip position before t) :
    f.start < position + t.length ∧ f.stop ≤ position + t.length := by
  induction t generalizing skip position before with
  | nil => cases hf
  | cons c t ih =>
    have hlength : position + (c :: t).length = position + 1 + t.length := by
      rw [List.length_cons]
      omega
    cases skip with
    | succ skip => exact hlength ▸ ih hf
    | zero =>
      cases hmatch : p before (c :: t) with
      | none =>
        rw [allFrom_of_none position hmatch] at hf
        exact hlength ▸ ih hf
      | some found =>
        simp only [allFrom, hmatch] at hf
        rcases List.mem_cons.mp hf with rfl | hf
        · exact ⟨Nat.lt_add_of_pos_right (Nat.succ_pos _),
            Nat.add_le_add_left (Nat.sub_le ..) position⟩
        · exact hlength ▸ ih hf

theorem within_of_mem_all (hf : f ∈ p.all t) : f.start < t.length ∧ f.stop ≤ t.length := by
  have hwithin := within_of_mem_allFrom hf
  rwa [Nat.zero_add] at hwithin

end Pattern

end RecordMap
