import RecordMap.Proofs.Outline.Basic
import RecordMap.Proofs.Outline.Lines

/-! The search for tables through the lines of a dump. -/

namespace RecordMap.Pattern

open Text

variable {α : Type} {p : Pattern α}

theorem occursIn_eq_false_iff {s : Text} : p.occursIn s = false ↔ p.PassesOver none s [] := by
  rw [occursIn, Option.isSome_eq_false_iff, Option.isNone_iff_eq_none, first?]
  refine ⟨passesOver_of_firstAfter_eq_none, fun h => ?_⟩
  have hnone := firstAfter_of_passesOver h
  rwa [List.append_nil] at hnone

/-- What stands before a text does not matter to some patterns. -/
theorem passesOver_iff (hp : ∀ b t, p b t = p none t) {before : Option Char} {s rest : Text} :
    p.PassesOver before s rest ↔ ∀ u, u ≠ [] → u <:+ s → p none (u ++ rest) = none := by
  constructor
  · intro h u hu hsuffix
    obtain ⟨front, rfl⟩ := hsuffix
    obtain ⟨c, u, rfl⟩ := List.exists_cons_of_ne_nil hu
    rw [← hp (front.getLast?.or before)]
    exact (passesOver_append.mp h).2.1
  · exact fun h => passesOver_of_suffix fun b u hu hsuffix => by rw [hp, h u hu hsuffix]

theorem occursIn_eq_false_iff_suffix (hp : ∀ b t, p b t = p none t) {s : Text} :
    p.occursIn s = false ↔ ∀ u, u ≠ [] → u <:+ s → p none u = none := by
  rw [occursIn_eq_false_iff, passesOver_iff hp]
  simp only [List.append_nil]

end RecordMap.Pattern

namespace RecordMap.Schema.Outline

open Written Dump Text

/-! ### Tables that are opened in a text -/

theorem suffix_append_iff {α : Type} {u s t : List α} :
    u <:+ s ++ t ↔ u <:+ t ∨ ∃ v, v <:+ s ∧ u = v ++ t := by
  constructor
  · rintro ⟨front, hfront⟩
    rcases List.append_eq_append_iff.mp hfront with ⟨v, rfl, rfl⟩ | ⟨v, rfl, rfl⟩
    · exact .inr ⟨v, List.suffix_append _ _, rfl⟩
    · exact .inl (List.suffix_append _ _)
  · rintro (hsuffix | ⟨v, hsuffix, rfl⟩)
    · exact List.suffix_append_of_suffix hsuffix
    · exact List.suffix_append_self_iff.mpr hsuffix

theorem blockStart?_suffix {t receiver rest : Text} (h : blockStart? t = some (receiver, rest)) :
    rest <:+ t := by
  have hspaced : (after? ')' t).getD t <:+ t := by
    cases hafter : after? ')' t with
    | none => exact List.suffix_refl t
    | some u =>
      rw [after?_eq_some_iff.mp hafter]
      exact List.suffix_cons _ _
  rw [blockStart?] at h
  obtain ⟨u, hdo, h⟩ := Option.bind_eq_some_iff.mp h
  split at h
  · obtain ⟨v, hbar, h⟩ := Option.bind_eq_some_iff.mp h
    obtain ⟨⟨w, z⟩, hword, h⟩ := Option.bind_eq_some_iff.mp h
    obtain ⟨back, hback, h⟩ := Option.bind_eq_some_iff.mp h
    obtain ⟨-, rfl⟩ := Prod.mk.inj (Option.some.inj h)
    have hz : back <:+ z := by
      rw [after?_eq_some_iff.mp hback]
      exact List.suffix_cons _ _
    have hv : z <:+ v := by
      rw [(word?_eq_some hword).1]
      exact List.suffix_append _ _
    have hu : v <:+ u := by
      refine List.IsSuffix.trans ?_ (dropBlanks_suffix u)
      rw [after?_eq_some_iff.mp hbar]
      exact List.suffix_cons _ _
    have ht : u <:+ t := by
      refine List.IsSuffix.trans ?_ ((dropBlanks_suffix _).trans hspaced)
      rw [afterAll?_eq_some_iff.mp hdo]
      exact List.suffix_append _ _
    exact ((hz.trans hv).trans hu).trans ht
  · cases h

theorem optionsAndBlock?_suffix {t options receiver rest : Text}
    (h : optionsAndBlock? t = some (options, receiver, rest)) : rest <:+ t := by
  induction t generalizing options with
  | nil => cases h
  | cons c t ih =>
    rw [optionsAndBlock?] at h
    cases hstart : blockStart? (c :: t) with
    | some found =>
      rw [hstart] at h
      obtain ⟨-, rfl, rfl⟩ := Prod.mk.inj (Option.some.inj h) |>.imp id Prod.mk.inj
      exact blockStart?_suffix hstart
    | none =>
      rw [hstart] at h
      simp only at h
      split at h
      · cases h
      · obtain ⟨⟨options', receiver', rest'⟩, hfound, heq⟩ := Option.map_eq_some_iff.mp h
        obtain ⟨-, rfl, rfl⟩ := Prod.mk.inj heq |>.imp id Prod.mk.inj
        exact (ih hfound).trans (List.suffix_cons c t)

theorem openingBehind?_suffix {t options receiver rest : Text}
    (h : openingBehind? t = some (options, receiver, rest)) : rest <:+ t := by
  rw [openingBehind?] at h
  cases hdrop : t.dropWhile (!isQuote ·) with
  | nil => rw [hdrop] at h; cases h
  | cons c u =>
    rw [hdrop] at h
    have hsuffix : c :: u <:+ t := hdrop ▸ List.dropWhile_suffix _
    exact (optionsAndBlock?_suffix h).trans ((List.suffix_cons c u).trans hsuffix)

theorem header_split {before : Option Char} {t rest : Text} {h : Header}
    (hmatch : Dump.header before t = some (h, rest)) : ∃ s, s ≠ [] ∧ t = s ++ rest := by
  rw [header] at hmatch
  obtain ⟨u, hopens, hmatch⟩ := Option.bind_eq_some_iff.mp hmatch
  obtain ⟨⟨name, v⟩, hname, hmatch⟩ := Option.bind_eq_some_iff.mp hmatch
  obtain ⟨⟨options, receiver, w⟩, hblock, hmatch⟩ := Option.bind_eq_some_iff.mp hmatch
  obtain ⟨-, rfl⟩ := Prod.mk.inj (Option.some.inj hmatch)
  obtain ⟨front, hfront⟩ := (optionsAndBlock?_suffix hblock).trans
    ((name?_suffix hname).trans (openBracket_suffix u))
  refine ⟨"create_table".toList ++ front, by simp, ?_⟩
  rw [afterAll?_eq_some_iff.mp hopens, List.append_assoc, hfront]

/-- Of each table that is opened in `s`, in front of `t`, the line and what is left behind it are as `Q`
says. -/
def OpensIn (s t : Text) (Q : Header → Text → Prop) : Prop :=
  ∀ u, u ≠ [] → u <:+ s → ∀ h rest, Dump.header none (u ++ t) = some (h, rest) → Q h rest

theorem opensIn_append {s s' t : Text} {Q : Header → Text → Prop} :
    OpensIn (s ++ s') t Q ↔ OpensIn s (s' ++ t) Q ∧ OpensIn s' t Q := by
  constructor
  · refine fun h => ⟨fun u hu hsuffix found rest hmatch => ?_, fun u hu hsuffix => ?_⟩
    · rw [← List.append_assoc] at hmatch
      exact h (u ++ s') (List.append_ne_nil_of_left_ne_nil hu _)
        (List.suffix_append_self_iff.mpr hsuffix) found rest hmatch
    · exact h u hu (List.suffix_append_of_suffix hsuffix)
  · rintro ⟨hs, hs'⟩ u hu hsuffix found rest hmatch
    rcases suffix_append_iff.mp hsuffix with hsuffix | ⟨v, hv, rfl⟩
    · exact hs' u hu hsuffix found rest hmatch
    · by_cases hnil : v = []
      · subst hnil
        exact hs' s' hu (List.suffix_refl _) found rest hmatch
      · rw [List.append_assoc] at hmatch
        exact hs v hnil hv found rest hmatch

theorem passesOver_iff_opensIn (before : Option Char) {s t : Text} :
    Dump.header.PassesOver before s t ↔ OpensIn s t fun _ _ => False := by
  rw [Pattern.passesOver_iff fun _ _ => rfl]
  refine forall_congr' fun u => forall_congr' fun _ => forall_congr' fun _ => ?_
  rw [Option.eq_none_iff_forall_ne_some, Prod.forall]

theorem OpensIn.mono {s t : Text} {Q Q' : Header → Text → Prop} (hQ : ∀ h rest, Q h rest → Q' h rest)
    (h : OpensIn s t Q) : OpensIn s t Q' :=
  fun u hu hsuffix found rest hmatch => hQ found rest (h u hu hsuffix found rest hmatch)

theorem opensIn_of_passesOver {before : Option Char} {s t : Text} (h : Dump.header.PassesOver before s t)
    (Q : Header → Text → Prop) : OpensIn s t Q :=
  ((passesOver_iff_opensIn before).mp h).mono fun _ _ => False.elim

theorem opensIn_margin {m : Text} (h : IsMargin m) (t : Text) (Q : Header → Text → Prop) :
    OpensIn m t Q :=
  opensIn_of_passesOver (header_passesOver_margin h t none) Q

/-! ### Code that opens no table in its line -/

section

variable {v t : Text} {before : Option Char}

theorem leavesName_occursIn_eq_false_iff :
    leavesName.occursIn v = false ↔ ∀ u, u ≠ [] → u <:+ v → openName? u = none := by
  rw [Pattern.occursIn_eq_false_iff_suffix fun _ _ => rfl]
  simp only [leavesName, Option.map_eq_none_iff]

/-- The search passes over a line exactly if nothing in the line opens a table, and if the line leaves a
name open, then no block starts behind the next quotation mark. -/
theorem header_passesOver_iff (hv : '\n' ∉ v) (ht : EndsLine t) : Dump.header.PassesOver before v t ↔
    Dump.header.occursIn v = false ∧ (leavesName.occursIn v = true → openingBehind? t = none) := by
  have hmatch : ∀ u, u <:+ v → (Dump.header none (u ++ t) = none ↔
      Dump.header none u = none ∧ (openName? u = none ∨ openingBehind? t = none)) := fun u hsuffix =>
    ht.header_append_eq_none_iff (fun hmem => hv (hsuffix.subset hmem)) none
  rw [Pattern.passesOver_iff fun _ _ => rfl, Pattern.occursIn_eq_false_iff_suffix fun _ _ => rfl]
  constructor
  · intro hnone
    have hboth := fun u hu hsuffix => (hmatch u hsuffix).mp (hnone u hu hsuffix)
    refine ⟨fun u hu hsuffix => (hboth u hu hsuffix).1, fun hleaves => ?_⟩
    by_contra hopening
    rw [leavesName_occursIn_eq_false_iff.mpr fun u hu hsuffix =>
      (hboth u hu hsuffix).2.resolve_right hopening] at hleaves
    cases hleaves
  · rintro ⟨hheader, hleaves⟩ u hu hsuffix
    refine (hmatch u hsuffix).mpr ⟨hheader u hu hsuffix, ?_⟩
    cases hoccurs : leavesName.occursIn v with
    | false => exact .inl (leavesName_occursIn_eq_false_iff.mp hoccurs u hu hsuffix)
    | true => exact .inr (hleaves hoccurs)

theorem occursIn_eq_false_of_passesOver (hv : '\n' ∉ v)
    (h : ∀ t, Fresh t → Dump.header.PassesOver none v (({} : Ending).write .code ++ t)) :
    Dump.header.occursIn v = false ∧ leavesName.occursIn v = false := by
  -- In front of a block behind a quotation mark a name that is left open would open a table.
  have hfresh : Fresh "t\" do |t|".toList :=
    fresh_word (w := ['t']) (by decide) (by decide) (by decide) rfl
  obtain ⟨hheader, hleaves⟩ := (header_passesOver_iff hv (endsLine {} hfresh)).mp (h _ hfresh)
  exact ⟨hheader, Bool.eq_false_iff.mpr fun hopen => absurd (hleaves hopen) (by decide)⟩

end

/-! ### Lines -/

namespace Line

variable {l : Line} {t : Text}

/-- A table is opened within the line, or the name that is read for it goes over its end. -/
theorem opensIn (h : Fresh t) : OpensIn (l.write .code) t fun found rest =>
    (∃ u, u <:+ l.write .code ∧ rest = u ++ t) ∨
      ('\n' ∈ found.name ∧ ∃ x r, openingBehind? t = some (x, r, rest)) := by
  have hends := endsLine l.margin.ending h
  rw [l.write_code, opensIn_append, opensIn_append]
  refine ⟨opensIn_margin l.margin.isMargin_before _ _, fun u hu hsuffix found rest hmatch => ?_,
    opensIn_margin l.margin.ending.isMargin _ _⟩
  have hline : '\n' ∉ u := fun hmem => l.lineFeed_not_mem (hsuffix.subset hmem)
  rw [hends.header_append hline] at hmatch
  rcases Option.or_eq_some_iff.mp hmatch with hmatch | ⟨-, hmatch⟩
  · obtain ⟨⟨found', rest'⟩, hfound, heq⟩ := Option.map_eq_some_iff.mp hmatch
    obtain ⟨-, rfl⟩ := Prod.mk.inj heq
    obtain ⟨front, -, rfl⟩ := header_split hfound
    refine .inl ⟨rest' ++ l.margin.ending.write .code, ?_, (List.append_assoc ..).symm⟩
    exact List.suffix_append_of_suffix (List.suffix_append_self_iff.mpr
      ((List.suffix_append _ _).trans hsuffix))
  · obtain ⟨name, -, hmatch⟩ := Option.bind_eq_some_iff.mp hmatch
    obtain ⟨⟨x, r, rest'⟩, hopening, heq⟩ := Option.map_eq_some_iff.mp hmatch
    obtain ⟨rfl, rfl⟩ := Prod.mk.inj heq
    rw [openingBehind?_append l.margin.ending.isMargin.not_isQuote] at hopening
    refine .inr ⟨List.mem_append_right _ ?_, x, r, hopening⟩
    rw [List.takeWhile_append_of_pos fun c hc => by rw [l.margin.ending.isMargin.not_isQuote c hc]; rfl]
    exact List.mem_append_left _ (List.mem_of_getLast? l.margin.ending.getLast?_write)

theorem opensIn_false_iff (h : Fresh t) : OpensIn (l.write .code) t (fun _ _ => False) ↔
    header.occursIn l.text = false ∧
      (leavesName.occursIn l.text = true → openingBehind? t = none) := by
  rw [l.write_code, opensIn_append, opensIn_append,
    and_iff_right (opensIn_margin l.margin.isMargin_before _ _),
    and_iff_left (opensIn_margin l.margin.ending.isMargin _ _),
    ← passesOver_iff_opensIn none,
    header_passesOver_iff l.lineFeed_not_mem (endsLine l.margin.ending h),
    Written.openingBehind?_append l.margin.ending.isMargin.not_isQuote]

theorem openingBehind?_append (h : Fresh t) : openingBehind? (l.write .code ++ t) =
    if l.text.any isQuote then (openingBehind? l.text).map fun (x, r, rest) =>
      (x, r, rest ++ (l.margin.ending.write .code ++ t)) else openingBehind? t := by
  have hends := endsLine l.margin.ending h
  rw [l.write_append, Written.openingBehind?_append l.margin.isMargin_before.not_isQuote]
  cases hany : l.text.any isQuote with
  | false =>
    rw [Written.openingBehind?_append (not_isQuote_of_any hany),
      Written.openingBehind?_append l.margin.ending.isMargin.not_isQuote]
    rfl
  | true =>
    obtain ⟨c, rest, hcons⟩ := List.exists_cons_of_ne_nil (dropWhile_ne_nil hany)
    have hrest : '\n' ∉ rest := fun hmem => l.lineFeed_not_mem
      ((List.dropWhile_suffix _).subset (hcons ▸ List.mem_cons_of_mem c hmem))
    rw [openingBehind?_eq, openingBehind?_eq, dropWhile_append hany, hcons, List.cons_append, List.tail?_cons,
      List.tail?_cons, Option.bind_some, Option.bind_some, hends.optionsAndBlock?_append hrest]
    rfl

end Line

/-- The next quotation in some lines is followed in its line by the start of a block, or, if there is none
in them, the next one behind them is. -/
def blockBehind (behind : Bool) : List Text → Bool
  | [] => behind
  | s :: ss => if s.any isQuote then (openingBehind? s).isSome else blockBehind behind ss

/-- Some line opens a table, alone or with a name that it leaves open. -/
def opensAmong (behind : Bool) : List Text → Bool
  | [] => false
  | s :: ss =>
    header.occursIn s || (leavesName.occursIn s && blockBehind behind ss) || opensAmong behind ss

section Lines

variable {t : Text}

theorem fresh_lines (ls : List Line) (h : Fresh t) : Fresh (ls.flatMap (Line.write .code) ++ t) :=
  fresh_flatMap Line.fresh ls h

theorem isSome_openingBehind?_lines (ls : List Line) (h : Fresh t) :
    (openingBehind? (ls.flatMap (Line.write .code) ++ t)).isSome =
      blockBehind (openingBehind? t).isSome (ls.map Line.text) := by
  induction ls with
  | nil => rfl
  | cons l ls ih =>
    rw [List.flatMap_cons, List.append_assoc, Line.openingBehind?_append (fresh_lines ls h),
      List.map_cons, blockBehind, ← ih]
    split
    · exact Option.isSome_map
    · rfl

theorem openingBehind?_lines {ls : List Line} (h : Fresh t) {x r rest : Text}
    (hopening : openingBehind? (ls.flatMap (Line.write .code) ++ t) = some (x, r, rest)) :
    (∃ u, u <:+ ls.flatMap (Line.write .code) ∧ rest = u ++ t) ∨
      openingBehind? t = some (x, r, rest) := by
  induction ls with
  | nil => exact .inr hopening
  | cons l ls ih =>
    rw [List.flatMap_cons, List.append_assoc, Line.openingBehind?_append (fresh_lines ls h)] at hopening
    split at hopening
    · obtain ⟨⟨x', r', rest'⟩, hfound, heq⟩ := Option.map_eq_some_iff.mp hopening
      obtain ⟨-, rfl⟩ := Prod.mk.inj (Prod.mk.inj heq).2
      refine .inl ⟨rest' ++ (l.margin.ending.write .code ++ ls.flatMap (Line.write .code)), ?_, by
        simp only [List.append_assoc]⟩
      rw [List.flatMap_cons, l.write_code, List.append_assoc, List.append_assoc]
      exact List.suffix_append_of_suffix
        (List.suffix_append_self_iff.mpr (openingBehind?_suffix hfound))
    · rcases ih hopening with ⟨u, hsuffix, rfl⟩ | hopening
      · exact .inl ⟨u, hsuffix.trans (List.suffix_append _ _), rfl⟩
      · exact .inr hopening

theorem opensIn_lines (ls : List Line) (h : Fresh t) :
    OpensIn (ls.flatMap (Line.write .code)) t fun found rest =>
      (∃ u, u <:+ ls.flatMap (Line.write .code) ∧ rest = u ++ t) ∨
        ('\n' ∈ found.name ∧ ∃ x r, openingBehind? t = some (x, r, rest)) := by
  induction ls with
  | nil => exact fun u hu hsuffix => absurd (List.suffix_nil.mp hsuffix) hu
  | cons l ls ih =>
    rw [List.flatMap_cons, opensIn_append]
    refine ⟨(Line.opensIn (fresh_lines ls h)).mono fun found rest hQ => ?_,
      ih.mono fun found rest hQ => ?_⟩
    · rcases hQ with ⟨u, hsuffix, rfl⟩ | ⟨hname, x, r, hopening⟩
      · exact .inl ⟨u ++ ls.flatMap (Line.write .code), List.suffix_append_self_iff.mpr hsuffix,
          (List.append_assoc ..).symm⟩
      · rcases openingBehind?_lines h hopening with ⟨u, hsuffix, rfl⟩ | hopening
        · exact .inl ⟨u, hsuffix.trans (List.suffix_append _ _), rfl⟩
        · exact .inr ⟨hname, x, r, hopening⟩
    · rcases hQ with ⟨u, hsuffix, rfl⟩ | hQ
      · exact .inl ⟨u, hsuffix.trans (List.suffix_append _ _), rfl⟩
      · exact .inr hQ

theorem opensIn_lines_false_iff (ls : List Line) (h : Fresh t) :
    OpensIn (ls.flatMap (Line.write .code)) t (fun _ _ => False) ↔
      opensAmong (openingBehind? t).isSome (ls.map Line.text) = false := by
  induction ls with
  | nil => exact ⟨fun _ => rfl, fun _ u hu hsuffix => absurd (List.suffix_nil.mp hsuffix) hu⟩
  | cons l ls ih =>
    rw [List.flatMap_cons, opensIn_append, Line.opensIn_false_iff (fresh_lines ls h), ih,
      List.map_cons, opensAmong, Bool.or_eq_false_iff, Bool.or_eq_false_iff,
      ← isSome_openingBehind?_lines ls h]
    refine and_congr_left fun _ => and_congr_right fun _ => ?_
    cases leavesName.occursIn l.text <;> simp

end Lines

end RecordMap.Schema.Outline
