import RecordMap.Proofs.Dump.Layout

/-! The body of a table in a dump: the first keyword behind the line that opens the table is the `end`
of that table. -/

namespace RecordMap.Source

open Text

theorem keyword_extend {before : Option Char} {u rest : Text} (hu : u ≠ []) (h : Separate u rest) :
    keyword before (u ++ rest) = (keyword before u).map fun (k, t) => (k, t ++ rest) := by
  rw [keyword, keyword, word?_extend hu h]
  cases startsWord before with
  | false => rfl
  | true =>
    cases word? u with
    | none => rfl
    | some found =>
      obtain ⟨w, t⟩ := found
      cases hw : Keyword.ofWord? w <;> simp [hw]

theorem keyword_word {before : Option Char} {w rest : Text} {k : Keyword}
    (hw : Keyword.ofWord? w = some k) (hne : w ≠ []) (hall : w.all isWordChar = true)
    (hbefore : startsWord before = true) (hrest : rest.head?.any isWordChar = false) :
    keyword before (w ++ rest) = some (k, rest) := by
  rw [keyword, if_pos hbefore, word?_append hne hall hrest]
  exact congrArg (Option.map (·, rest)) hw

theorem keyword_passesOver_word {w rest : Text} (hw : w.all isWordChar = true)
    (hkeyword : Keyword.ofWord? w = none) (hrest : rest.head?.any isWordChar = false)
    (before : Option Char) : keyword.PassesOver before w rest := by
  cases w with
  | nil => trivial
  | cons c w =>
    refine ⟨?_, ?_⟩
    · have hword := word?_append (List.cons_ne_nil c w) hw hrest
      rw [List.cons_append] at hword
      rw [keyword, hword, Option.bind_some]
      simp only [hkeyword, Option.map_none, ite_self]
    · exact keyword_passesOver_within hw

theorem closing?_closer {limit : Nat} {position : Int} {k : Found Keyword} {ks : List (Found Keyword)}
    (hk : k.value = .closer) (h : position < limit) :
    closing? limit 0 position (k :: ks) = some k.start := by
  unfold closing?
  rw [if_pos h, hk]

/-- No keyword in the front of a text reaches into its back, so a body that starts there is searched as
if the back stood alone. -/
theorem filter_all_append {front : Text} (hclosed : front.getLast?.any isKeyChar = false) (back : Text) :
    (keyword.all (front ++ back)).filter (fun k => (front.length : Int) ≤ k.start) =
      keyword.allFrom 0 front.length front.getLast? back := by
  have hlocal : ∀ b u k t, u ≠ [] → u <:+ front → keyword b (u ++ back) = some (k, t) →
      back.length ≤ t.length := by
    intro b u k t hu hsuffix h
    rw [keyword_extend hu (Or.inl (by rwa [getLast?_of_suffix hu hsuffix]))] at h
    obtain ⟨⟨k', t'⟩, _, heq⟩ := Option.map_eq_some_iff.mp h
    cases heq
    rw [List.length_append]
    omega
  have hfilter := Pattern.filter_allFrom_append 0 none (Nat.zero_le _) hlocal
  rw [Nat.zero_add, Option.or_none] at hfilter
  simpa only [Int.ofNat_le, Pattern.all] using hfilter

theorem bodyBy?_behind {front front' back back' : Text} (hfront : front'.length = front.length)
    (hclosed : front'.getLast?.any isKeyChar = false) :
    bodyBy? (keyword.all (front' ++ back')) (front ++ back) front.length =
      (closing? (front ++ back).length 0 front.length
        (keyword.allFrom 0 front.length front'.getLast? back')).map fun stop : Nat =>
          (front ++ back).slice front.length stop := by
  have hfilter := filter_all_append hclosed back'
  rw [hfront] at hfilter
  rw [bodyBy?, hfilter]
  cases closing? (front ++ back).length 0 front.length
    (keyword.allFrom 0 front.length front'.getLast? back') <;> rfl

/-- A body without keywords ends in front of the `end` behind it, from wherever in it the search
starts. -/
theorem bodyBy?_within {front front' body body' rest rest' : Text}
    (hfront : front'.length = front.length) (hbody : body'.length = body.length)
    (hclosed : front'.getLast?.any isKeyChar = false)
    (hpasses : keyword.PassesOver front'.getLast? body' ("end".toList ++ rest'))
    (hbefore : startsWord (body'.getLast?.or front'.getLast?) = true)
    (hrest : rest'.head?.any isWordChar = false) {n : Nat} (hn : n ≤ body.length) :
    bodyBy? (keyword.all (front' ++ (body' ++ ("end".toList ++ rest'))))
      (front ++ (body ++ ("end".toList ++ rest))) (front.length + n : Nat) = some (body.drop n) := by
  have hmatch := Pattern.allFrom_of_match (front.length + body'.length)
    (by decide : "end".toList ≠ []) (keyword_word (k := .closer) rfl (by decide) (by decide) hbefore hrest)
  have hbehind := filter_all_append hclosed (body' ++ ("end".toList ++ rest'))
  rw [hfront, Pattern.allFrom_of_passesOver _ hpasses] at hbehind
  have hfilter : (keyword.all (front' ++ (body' ++ ("end".toList ++ rest')))).filter
      (fun k => ((front.length + n : Nat) : Int) ≤ k.start) =
      keyword.allFrom 0 (front.length + body'.length) (body'.getLast?.or front'.getLast?)
        ("end".toList ++ rest') := by
    have hall : ∀ k ∈ keyword.allFrom 0 (front.length + body'.length)
        (body'.getLast?.or front'.getLast?) ("end".toList ++ rest'),
        decide (((front.length + n : Nat) : Int) ≤ k.start) = true := by
      intro k hk
      have hstart := Pattern.le_start hk
      rw [decide_eq_true_eq]
      omega
    rw [← List.filter_eq_self.mpr hall, ← hbehind, List.filter_filter]
    refine List.filter_congr fun k _ => ?_
    rw [Bool.eq_iff_iff, Bool.and_eq_true, decide_eq_true_eq, decide_eq_true_eq]
    omega
  have hlimit : ((front.length + n : Nat) : Int) < (front ++ (body ++ ("end".toList ++ rest))).length := by
    have hend : "end".toList.length = 3 := rfl
    simp only [List.length_append, hend]
    omega
  rw [bodyBy?, hfilter, hmatch, closing?_closer rfl hlimit]
  change some (slice _ ((front.length + n : Nat) : Int) ((front.length + body'.length : Nat) : Int)) = _
  rw [hbody, slice_natCast, ← List.drop_drop, List.drop_left, Nat.add_sub_add_left,
    List.drop_append_of_le_length hn, List.take_left']
  rw [List.length_drop]

end RecordMap.Source

namespace RecordMap.Schema.Written

open Text Source

theorem keyword_passesOver_of_not_isWordChar {s rest : Text} (h : ∀ c ∈ s, isWordChar c = false)
    (before : Option Char) : keyword.PassesOver before s rest := by
  refine Pattern.passesOver_of_forall fun c hc b t => ?_
  have hnone : word? (c :: t) = none := word?_eq_none_iff.mpr (h c hc)
  rw [keyword, hnone]
  exact ite_self none

theorem IsMargin.keyword_passesOver {m rest : Text} (h : IsMargin m) (before : Option Char) :
    keyword.PassesOver before m rest :=
  keyword_passesOver_of_not_isWordChar
    (fun c hc => not_isWordChar_of_not_isKeyChar (h.not_isKeyChar c hc)) before

theorem keyword_passesOver_of_mem_codes :
    ∀ code ∈ codes, keyword.PassesOver none code [] := by
  decide +kernel

theorem keyword_passesOver_code {code rest : Text} (h : code ∈ codes) (hrest : Separate code rest)
    (before : Option Char) : keyword.PassesOver before code rest := by
  -- The code begins without a word, so that it does not matter what stands before it.
  have hpasses : keyword.PassesOver before code [] := by
    have hnone := keyword_passesOver_of_mem_codes code h
    have hhead := head?_of_mem_codes code h
    cases code with
    | nil => trivial
    | cons c code =>
      refine ⟨?_, hnone.2⟩
      have hc : isWordChar c = false := by
        have hall : ∀ d ∈ [',', '.', ']'], isWordChar d = false := by decide
        exact hall c (List.elem_iff.mp hhead)
      have hword : word? (c :: (code ++ [])) = none := word?_eq_none_iff.mpr hc
      rw [keyword, hword]
      exact ite_self none
  exact hpasses.extend fun b u hu hsuffix hu' => by
    rw [keyword_extend hu (hrest.of_suffix hu hsuffix), hu']
    rfl

theorem Digits.not_keyword (d : Digits) : Keyword.ofWord? d.text = none := by
  obtain ⟨text, hne, hall⟩ := d
  cases text with
  | nil => exact absurd rfl hne
  | cons c text =>
    rw [List.all_cons, Bool.and_eq_true] at hall
    have hopeners : ∀ w ∈ openers, w.head?.any Char.isDigit = false := by decide
    have hend : ¬ (c :: text = ['e', 'n', 'd']) := by
      rintro heq
      rw [(List.cons.inj heq).1] at hall
      exact absurd hall.1 (by decide)
    have hopener : ¬ openers.contains (c :: text) = true := by
      intro hmem
      have hdigit := hopeners _ (List.contains_iff_mem.mp hmem)
      rw [List.head?_cons, Option.any_some, hall.1] at hdigit
      cases hdigit
    rw [Keyword.ofWord?, if_neg hend, if_neg hopener]

theorem keyword_passesOver_tokens {ts : List Token} (hts : ∀ t ∈ ts, t.Sound) {rest : Text}
    (hrest : rest.head?.any isKeyChar = false) (before : Option Char) :
    keyword.PassesOver before (writeTokens .bare ts) rest := by
  induction ts generalizing before with
  | nil => trivial
  | cons t ts ih =>
    obtain ⟨ht, hts⟩ := List.forall_mem_cons.mp hts
    have hhead := head?_writeTokens hts .bare hrest
    rw [writeTokens_cons, Token.write, Pattern.passesOver_append, Pattern.passesOver_append]
    refine ⟨⟨keyword_passesOver_code ht.mem (ht.separate .bare hhead) before, ?_⟩, ih hts _⟩
    cases t.argument with
    | nothing => trivial
    | name n => exact (isMargin_spaces _).keyword_passesOver _
    | number digits =>
      exact keyword_passesOver_word (List.all_eq_true.mpr digits.isWordChar) digits.not_keyword
        (head?_isWordChar hhead) _

/-! ### Positions -/

theorem Token.length_write (t : Token) : (t.write .bare).length = (t.write .code).length := by
  obtain ⟨code, argument⟩ := t
  rw [Token.write, Token.write, List.length_append, List.length_append]
  cases argument with
  | nothing => rfl
  | name n => exact congrArg (code.length + ·) (length_spaces _)
  | number digits => rfl

theorem length_flatMap_congr {α : Type} {f g : α → Text} {l : List α}
    (h : ∀ x ∈ l, (f x).length = (g x).length) : (l.flatMap f).length = (l.flatMap g).length := by
  rw [List.length_flatMap, List.length_flatMap, List.map_congr_left h]

theorem length_writeTokens (ts : List Token) :
    (writeTokens .bare ts).length = (writeTokens .code ts).length :=
  length_flatMap_congr fun t _ => t.length_write

theorem Script.length_top (s : Script) : (s.top .bare).length = (s.top .code).length := by
  rw [Script.top, Script.top]
  cases s.frame with
  | none => rfl
  | some f => simp only [Option.elim, Frame.openingLine, Margin.before_bare, Ending.write_bare]

theorem getLast?_append_flatMap {κ : Type} {f : κ → Text} {d : Char} {s : Text}
    (hs : s.getLast? = some d) {l : List κ} (h : ∀ x ∈ l, (f x).getLast? = some d) :
    (s ++ l.flatMap f).getLast? = some d := by
  induction l generalizing s with
  | nil => rwa [List.flatMap_nil, List.append_nil]
  | cons x l ih =>
    obtain ⟨hx, hl⟩ := List.forall_mem_cons.mp h
    rw [List.flatMap_cons, ← List.append_assoc]
    refine ih ?_ hl
    rw [List.getLast?_append, hx]
    rfl

theorem startsWord_margin {s m : Text} (hs : s.getLast? = some '\n') (hm : IsMargin m)
    (before : Option Char) : startsWord ((s ++ m).getLast?.or before) = true := by
  rw [List.getLast?_append, hs]
  cases hlast : m.getLast? with
  | none => rfl
  | some c =>
    have hword := not_isWordChar_of_not_isKeyChar (hm.not_isKeyChar c (List.mem_of_getLast? hlast))
    simp [startsWord, hword]

end RecordMap.Schema.Written
