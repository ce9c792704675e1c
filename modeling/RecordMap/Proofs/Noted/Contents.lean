import RecordMap.Proofs.Dump.Options
import RecordMap.Proofs.Noted.Outline
import RecordMap.Proofs.Outline.Lines

/-! Searches through a text in quotation marks: what is not found in the text alone is not found where it
stands in its marks. -/

namespace RecordMap.Schema.Noted

open Written Dump Text

variable {α β : Type}

/-! ### In front of a mark -/

theorem dropBlanks_quote (u rest : Text) :
    dropBlanks (u ++ '"' :: rest) = dropBlanks u ++ '"' :: rest :=
  dropBlanks_append rfl

/-- Neither a quotation mark nor what follows it is read. -/
def StopsAtQuote (f : Text → Option (α × Text)) : Prop :=
  ∀ u rest, f (u ++ '"' :: rest) = (f u).map fun (a, t) => (a, t ++ '"' :: rest)

theorem stopsAtQuote_flag {k : String} (hk : '"' ∉ k.toList) :
    StopsAtQuote fun t => (afterAll? k t).map ((), ·) := by
  intro u rest
  simp only [afterAll?_stop hk]
  cases afterAll? k u <;> rfl

theorem stopsAtQuote_symbol? : StopsAtQuote symbol? := by
  intro u rest
  rw [symbol?, symbol?, after?_stop (by decide)]
  cases after? ':' u with
  | none => rfl
  | some t => exact word?_stop rfl t rest

theorem stopsAtQuote_option {name : String} (hname : '"' ∉ name.toList)
    {value : Text → Option (α × Text)} (hvalue : StopsAtQuote value) (before : Option Char) :
    StopsAtQuote (option name value before) := by
  intro u rest
  rw [option, option, afterAll?_stop hname]
  cases afterAll? name u with
  | none => rfl
  | some t =>
    simp only [Option.map_some, Option.bind_eq_bind, Option.bind_some]
    rw [after?_stop (by decide)]
    cases after? ':' t with
    | none => rfl
    | some t =>
      simp only [Option.map_some, Option.bind_some]
      rw [dropBlanks_quote, hvalue]

theorem stopsAtQuote_wholeOption {name : String} (hname : '"' ∉ name.toList)
    {value : Text → Option (α × Text)} (hvalue : StopsAtQuote value) (before : Option Char) :
    StopsAtQuote (wholeOption name value before) := by
  intro u rest
  rw [wholeOption, wholeOption, stopsAtQuote_option hname hvalue before u rest]
  split <;> rfl

theorem stopsAtQuote_timestampsCall (before : Option Char) :
    StopsAtQuote (timestampsCall before) := by
  intro u rest
  rw [timestampsCall, timestampsCall, methodCall?, methodCall?, word?_stop rfl]
  cases word? u with
  | none => rfl
  | some found =>
    simp only [Option.map_some, Option.bind_eq_bind, Option.bind_some]
    rw [after?_stop (by decide)]
    cases after? '.' found.2 with
    | none => rfl
    | some t =>
      simp only [Option.map_some, Option.bind_some]
      rw [word?_stop rfl]
      cases word? t with
      | none => rfl
      | some method =>
        simp only [Option.map_some, Option.bind_some]
        split <;> rfl

theorem stopsAtQuote_blockStart? : StopsAtQuote blockStart? := by
  have hspaced : ∀ u rest : Text, (after? ')' (u ++ '"' :: rest)).getD (u ++ '"' :: rest) =
      (after? ')' u).getD u ++ '"' :: rest := by
    intro u rest
    rw [after?_stop (by decide)]
    cases after? ')' u <;> rfl
  have hhead : ∀ s rest : Text, (s ++ '"' :: rest).head?.any isBlank = s.head?.any isBlank := by
    intro s rest
    cases s <;> rfl
  intro u rest
  rw [blockStart?, blockStart?]
  simp only [hspaced, dropBlanks_quote, hhead]
  rw [afterAll?_stop (by decide)]
  cases afterAll? "do" (dropBlanks ((after? ')' u).getD u)) with
  | none => rfl
  | some t =>
    simp only [Option.map_some, Option.bind_eq_bind, Option.bind_some]
    rw [dropBlanks_quote, after?_stop (by decide)]
    cases after? '|' (dropBlanks t) with
    | none => split <;> rfl
    | some t =>
      simp only [Option.map_some, Option.bind_some]
      rw [word?_stop rfl]
      cases word? t with
      | none => split <;> rfl
      | some found =>
        simp only [Option.map_some, Option.bind_some]
        rw [after?_stop (by decide)]
        cases after? '|' found.2 <;> split <;> rfl

theorem Content.not_isQuote (c : Content) : ∀ d ∈ c.text, isQuote d = false := by
  intro d hd
  rw [← Bool.not_eq_true]
  intro hquote
  rw [isQuote, Bool.or_eq_true, beq_iff_eq, beq_iff_eq] at hquote
  rcases hquote with rfl | rfl
  · exact c.not_mem (by decide) hd
  · exact c.not_mem (by decide) hd

theorem name?_quote {u : Text} (hu : ∀ c ∈ u, isQuote c = false) (h : nameOrEnd? u = none)
    (rest : Text) : name? (u ++ '"' :: rest) = none := by
  cases u with
  | nil => cases h
  | cons c u =>
    have hc : ¬ isQuote c = true := by
      rw [hu c (List.mem_cons_self ..)]
      exact Bool.false_ne_true
    rw [nameOrEnd?, name?] at h
    rw [List.cons_append, name?]
    split at h
    · next hcolon => rw [if_pos hcolon, word?_stop rfl, h]; rfl
    · next hcolon => rw [if_neg hcolon, if_neg hc]

/-! ### Texts and notes -/

theorem passesOver_content {p : Pattern α} {q : Pattern β} {c : Content}
    (h : q.occursIn c.text = false) (hbefore : ∀ t, q none t = none → q (some '"') t = none) {rest : Text}
    (hp : ∀ b u, u ≠ [] → u <:+ c.text → q b u = none → p b (u ++ '"' :: rest) = none) :
    p.PassesOver (some '"') c.text ('"' :: rest) := by
  rw [Pattern.occursIn, Option.isSome_eq_false_iff, Option.isNone_iff_eq_none] at h
  have hnone := Pattern.passesOver_of_firstAfter_eq_none h
  refine Pattern.PassesOver.extend (q := q) ?_ hp
  -- Alone, the text starts behind nothing; here it starts behind its mark.
  cases hc : c.text with
  | nil => trivial
  | cons d text =>
    rw [hc] at hnone
    exact ⟨hbefore _ hnone.1, hnone.2⟩

theorem passesOver_content_of_stops {p : Pattern α} {c : Content} (h : p.occursIn c.text = false)
    (hbefore : ∀ t, p none t = none → p (some '"') t = none) (hp : ∀ b, StopsAtQuote (p b))
    (rest : Text) : p.PassesOver (some '"') c.text ('"' :: rest) :=
  passesOver_content h hbefore fun b u _ _ hnone => by rw [hp b u rest, hnone]; rfl

theorem passesOver_note {p : Pattern α} {n : Note} {before : Option Char} {rest : Text}
    (hcode : p.PassesOver before n.kind.code (n.content.quotation ++ rest))
    (hmark : ∀ b t, p b ('"' :: t) = none)
    (hcontent : p.PassesOver (some '"') n.content.text ('"' :: rest)) :
    p.PassesOver before (n.write .code) rest := by
  rw [Note.write, Pattern.passesOver_append]
  exact ⟨hcode, hmark _ _, Pattern.passesOver_append.mpr ⟨hcontent, hmark _ _, trivial⟩⟩

theorem option_passesOver_kind {name : String} {value : Text → Option (α × Text)}
    (hkey : IsKey (name ++ ":")) {k : NoteKind}
    (hcode : (Pattern.verbatim (name ++ ":")).PassesOver none k.code []) (c : Content) (rest : Text)
    (before : Option Char) :
    (option name value).PassesOver before k.code (c.quotation ++ rest) := by
  have hsound : Token.Sound ⟨k.code, .nothing⟩ := ⟨k.mem_codes, .inl rfl⟩
  have htoken : (option name value).PassesOver before (Token.write .code ⟨k.code, .nothing⟩)
      (c.quotation ++ rest) := option_passesOver_token hkey hsound hcode rfl before
  rwa [Token.write, Argument.write, List.append_nil] at htoken

theorem option_eq_none_of_mark {name : String} {value : Text → Option (α × Text)}
    (hkey : IsKey (name ++ ":")) (before : Option Char) (t : Text) :
    option name value before ('"' :: t) = none :=
  option_eq_none (afterAll?_key_cons hkey (by decide) t)

/-! ### Lines that open a table -/

theorem header_passesOver_note {n : Note} (h : opening.occursIn n.content.text = false) (rest : Text)
    (before : Option Char) : header.PassesOver before (n.write .code) rest := by
  have hmark : ∀ b t, header b ('"' :: t) = none := fun b t =>
    (header_passesOver_of_forall (s := ['"']) (by decide) t b).1
  refine passesOver_note (header_passesOver_code n.kind.mem_codes (.inl n.kind.closed) before) hmark ?_
  refine passesOver_content h (fun t => id) fun b u hu hsuffix hnone => header_eq_none (fun t ht => ?_) b
  rw [afterAll?_stop (by decide)] at ht
  obtain ⟨y, hy, rfl⟩ := Option.map_eq_some_iff.mp ht
  rw [opening, hy, Option.bind_some] at hnone
  -- no mark in the text opens a name, so that only the one behind it might
  have hquote : ∀ c ∈ openBracket y, isQuote c = false := by
    intro c hc
    have hmem : c ∈ u := by
      rw [afterAll?_eq_some_iff.mp hy]
      exact List.mem_append_right _ ((openBracket_suffix y).subset hc)
    exact n.content.not_isQuote c (hsuffix.subset hmem)
  rw [Nameless, openBracket_append y rest (by decide) (by decide)]
  exact name?_quote hquote hnone rest

/-- The characters between which and the bar behind it no block starts. -/
def bars (c : Char) : Bool := !(isBlank c || [')', 'd', 'o', '|'].contains c)

theorem blockStart?_eq_some {t receiver rest : Text} (h : blockStart? t = some (receiver, rest)) :
    ∃ s back, t = s ++ '|' :: back ∧ ∀ c ∈ s, bars c = false := by
  obtain ⟨bracket, hbracket, hall⟩ : ∃ s, t = s ++ (after? ')' t).getD t ∧ ∀ c ∈ s, c = ')' := by
    cases hafter : after? ')' t with
    | none => exact ⟨[], rfl, List.forall_mem_nil _⟩
    | some back => exact ⟨[')'], after?_eq_some_iff.mp hafter, by simp⟩
  have hblanks : ∀ s : Text, ∃ m, s = m ++ dropBlanks s ∧ ∀ c ∈ m, isBlank c = true := fun s =>
    ⟨s.takeWhile isBlank, (List.takeWhile_append_dropWhile).symm, fun c hc =>
      List.all_eq_true.mp (List.all_takeWhile) c hc⟩
  rw [blockStart?] at h
  obtain ⟨back, hdo, h⟩ := Option.bind_eq_some_iff.mp h
  split at h
  · obtain ⟨back', hbar, -⟩ := Option.bind_eq_some_iff.mp h
    obtain ⟨m, hm, hmblank⟩ := hblanks ((after? ')' t).getD t)
    obtain ⟨m', hm', hmblank'⟩ := hblanks back
    refine ⟨bracket ++ (m ++ ("do".toList ++ m')), back', ?_, ?_⟩
    · rw [hbracket, hm, afterAll?_eq_some_iff.mp hdo, hm', after?_eq_some_iff.mp hbar]
      simp only [List.append_assoc]
    · have hword : ∀ c ∈ "do".toList, bars c = false := by decide
      have hblank : ∀ c, isBlank c = true → bars c = false := fun c hc => by rw [bars, hc]; rfl
      intro c hc
      rcases List.mem_append.mp hc with hc | hc
      · rw [hall c hc]
        decide
      · rcases List.mem_append.mp hc with hc | hc
        · exact hblank c (hmblank c hc)
        · rcases List.mem_append.mp hc with hc | hc
          · exact hword c hc
          · exact hblank c (hmblank' c hc)
  · cases h

theorem blockStart?_bars {u : Text} (hu : '|' ∉ u) {c : Char} (hc : bars c = true) (rest : Text) :
    blockStart? (u ++ c :: rest) = none := by
  rw [Option.eq_none_iff_forall_ne_some]
  rintro ⟨receiver, rest'⟩ h
  obtain ⟨s, back, hs, hall⟩ := blockStart?_eq_some h
  have hbar : '|' ≠ c := by
    rintro rfl
    exact absurd hc (by decide)
  -- The bar stands behind `c`, which would be part of the start, or before it, and then in `u`.
  rcases List.append_eq_append_iff.mp hs with ⟨v, rfl, hv⟩ | ⟨v, rfl, hv⟩
  · cases v with
    | nil => exact hbar (List.cons.inj hv).1.symm
    | cons d v =>
      obtain ⟨rfl, -⟩ := List.cons.inj hv
      rw [hall c (by simp)] at hc
      cases hc
  · cases v with
    | nil => exact hbar (List.cons.inj hv).1
    | cons d v =>
      obtain ⟨rfl, -⟩ := List.cons.inj hv
      exact hu (by simp)

theorem blockStart_passesOver {s : Text} (hs : '|' ∉ s) {c : Char} (hc : bars c = true) (rest : Text)
    (before : Option Char) : blockStart.PassesOver before s (c :: rest) :=
  Pattern.passesOver_of_suffix fun _ _ _ hsuffix =>
    blockStart?_bars (fun hmem => hs (hsuffix.subset hmem)) hc rest

theorem blockStart_passesOver_note {n : Note} (h : blockStart.occursIn n.content.text = false)
    (rest : Text) (before : Option Char) : blockStart.PassesOver before (n.write .code) rest := by
  have hmark : ∀ b t, blockStart b ('"' :: t) = none := fun _ t =>
    blockStart?_bars List.not_mem_nil (by decide) t
  have hcode : '|' ∉ n.kind.code := not_mem_bar fun c hc =>
    (quiet_of_mem_codes n.kind.code n.kind.mem_codes c hc).2
  exact passesOver_note (blockStart_passesOver hcode (by decide) _ before) hmark
    (passesOver_content_of_stops h (fun t => id) (fun _ => stopsAtQuote_blockStart?) rest)

end RecordMap.Schema.Noted
