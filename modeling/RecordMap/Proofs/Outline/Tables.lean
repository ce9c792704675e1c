import RecordMap.Proofs.Outline.Search

/-! The tables that are read from a dump: those that its lines open, unless a table is opened elsewhere. -/

namespace RecordMap.Schema.Outline

open Written Dump Text

namespace Block

variable {b : Block} {t : Text}

/-! ### Lines that open a table -/

/-- What stands between the word that opens a table and the start of its block. -/
def headText (b : Block) : Text := b.name.source ++ b.options.write .code

/-- No block starts in the line that opens a table before the table's own. -/
def Opens (b : Block) : Prop := ∀ rest before,
  blockStart.PassesOver before b.headText (writtenStart b.receiver.text ++ rest)

theorem header_append (b : Block) (rest : Text) : b.header .code ++ rest =
    "create_table ".toList ++ (b.headText ++ (writtenStart b.receiver.text ++ rest)) := by
  simp only [header, headText, writtenStart, Token.write, Argument.write, Name.write, List.append_assoc]

theorem lineFeed_not_mem_headText (b : Block) : '\n' ∉ b.headText := by
  rw [headText, List.mem_append, not_or]
  exact ⟨foreign_lineFeed.not_mem_source b.name, b.options.legible.lineFeed⟩

theorem Opens.optionsAndBlock? (h : b.Opens) {u : Text} (hu : u <:+ b.headText) (rest : Text) :
    optionsAndBlock? (u ++ (writtenStart b.receiver.text ++ rest)) =
      some (u, b.receiver.text, rest) := by
  refine optionsAndBlock?_start b.receiver.ne_nil b.receiver.all_isWordChar
    (fun hmem => b.lineFeed_not_mem_headText (hu.subset hmem)) rest ?_
  have hall := (Pattern.passesOver_iff fun _ _ => rfl).mp (h rest none)
  exact Pattern.passesOver_of_suffix fun _ v hv hsuffix => hall v hv (hsuffix.trans hu)

theorem Opens.header_match (h : b.Opens) (rest : Text) (before : Option Char) :
    Dump.header before (b.header .code ++ rest) =
      some (⟨b.name.text, b.options.write .code, b.receiver.text⟩, rest) := by
  have hblock := h.optionsAndBlock? (List.suffix_append b.name.source (b.options.write .code)) rest
  rw [b.header_append, headText, List.append_assoc]
  exact header_line b.name hblock (b.options.legible.head .code rfl) before

theorem Opens.openingBehind? (h : b.Opens) (rest : Text) :
    openingBehind? (b.header .code ++ rest) = if b.headText.any isQuote then
      some ((b.headText.dropWhile (!isQuote ·)).tail, b.receiver.text, rest)
    else Written.openingBehind? rest := by
  rw [b.header_append, openingBehind?_append (by decide)]
  cases hany : b.headText.any isQuote with
  | false =>
    rw [openingBehind?_append (not_isQuote_of_any hany), openingBehind?_append b.receiver.not_isQuote]
    rfl
  | true =>
    obtain ⟨c, u, hdrop⟩ := List.exists_cons_of_ne_nil (dropWhile_ne_nil hany)
    have hu : u <:+ b.headText :=
      (List.suffix_cons c u).trans (hdrop ▸ List.dropWhile_suffix _)
    rw [openingBehind?_eq, dropWhile_append hany, hdrop, List.cons_append, List.tail?_cons,
      Option.bind_some, h.optionsAndBlock? hu]
    rfl

/-! ### Lines that close a table -/

theorem fresh_close (b : Block) (h : Fresh t) : Fresh (b.close .code ++ t) := by
  rw [close]
  cases b.closing with
  | none => exact h
  | some m =>
    have hend := fresh_word (w := "end".toList) (by decide) (by decide) (by decide)
      (m.ending.head? t)
    simpa only [Option.elim, List.append_assoc] using hend.margin m.isMargin_before

theorem openingBehind?_close (b : Block) (t : Text) :
    Written.openingBehind? (b.close .code ++ t) = Written.openingBehind? t := by
  rw [close]
  cases b.closing with
  | none => rfl
  | some m =>
    simp only [Option.elim, List.append_assoc]
    rw [openingBehind?_append m.isMargin_before.not_isQuote, openingBehind?_append (by decide),
      openingBehind?_append m.ending.isMargin.not_isQuote]

theorem header_passesOver_close (b : Block) (t : Text) (before : Option Char) :
    Dump.header.PassesOver before (b.close .code) t := by
  rw [close]
  cases b.closing with
  | none => trivial
  | some m =>
    simp only [Option.elim, Pattern.passesOver_append]
    exact ⟨⟨header_passesOver_margin m.isMargin_before _ _, header_passesOver_of_forall (by decide) _ _⟩,
      header_passesOver_margin m.ending.isMargin _ _⟩

end Block

/-! ### What is left of a dump -/

/-- What follows the last table: nothing is read there as a table or as a part of one. -/
structure Bottom (t : Text) : Prop where
  fresh : Fresh t
  openingBehind?_eq : openingBehind? t = none
  passesOver : ∀ before, header.PassesOver before t []

def codeFrom (bottom : Text) (bs : List Block) : Text := bs.flatMap (Block.write .code) ++ bottom

/-- The next quotation in some tables is followed in its line by the start of a block. -/
def blockBehindAll : List Block → Bool
  | [] => false
  | b :: bs => b.headText.any isQuote || blockBehind (blockBehindAll bs) (b.lines.map Line.text)

/-- Some line within a table opens one. -/
def opensElsewhere : List Block → Bool
  | [] => false
  | b :: bs => opensAmong (blockBehindAll bs) (b.lines.map Line.text) || opensElsewhere bs

theorem opensAmong_eq_false {behind : Bool} {ls : List Text}
    (h : ∀ s ∈ ls, header.occursIn s = false ∧ leavesName.occursIn s = false) :
    opensAmong behind ls = false := by
  induction ls with
  | nil => rfl
  | cons s ls ih =>
    obtain ⟨⟨hheader, hname⟩, hls⟩ := List.forall_mem_cons.mp h
    rw [opensAmong, hheader, hname, ih hls]
    rfl

theorem opensElsewhere_eq_false {bs : List Block} (h : ∀ b ∈ bs, ∀ l ∈ b.lines,
    header.occursIn l.text = false ∧ leavesName.occursIn l.text = false) :
    opensElsewhere bs = false := by
  induction bs with
  | nil => rfl
  | cons b bs ih =>
    obtain ⟨hb, hbs⟩ := List.forall_mem_cons.mp h
    rw [opensElsewhere, opensAmong_eq_false (List.forall_mem_map.mpr hb), ih hbs]
    rfl

/-- The text begins behind the line that opens one of the tables, and not behind the lines in that
table. -/
def Lands (bottom : Text) (bs : List Block) (t : Text) : Prop :=
  ∃ b after u, b :: after <:+ bs ∧ u <:+ b.inside .code ∧
    t = u ++ (b.close .code ++ codeFrom bottom after)

theorem Lands.mono {bottom : Text} {bs bs' : List Block} {t : Text} (hsuffix : bs <:+ bs')
    (h : Lands bottom bs t) : Lands bottom bs' t := by
  obtain ⟨b, after, u, hbs, hu, ht⟩ := h
  exact ⟨b, after, u, hbs.trans hsuffix, hu, ht⟩

theorem codeFrom_cons (bottom : Text) (b : Block) (bs : List Block) : codeFrom bottom (b :: bs) =
    b.opening.before .code ++ (b.header .code ++
      (b.inside .code ++ (b.close .code ++ codeFrom bottom bs))) := by
  simp only [codeFrom, List.flatMap_cons, Block.write, List.append_assoc]

section

variable {bottom : Text} {bs : List Block}

theorem Bottom.fresh_codeFrom (h : Bottom bottom) (bs : List Block) : Fresh (codeFrom bottom bs) := by
  refine fresh_flatMap (fun b t => ?_) bs h.fresh
  have hword : Fresh ("create_table".toList ++ (' ' :: (b.headText ++ (writtenStart b.receiver.text ++
      (b.inside .code ++ (b.close .code ++ t)))))) :=
    fresh_word (by decide) (by decide) (by decide) rfl
  rw [Block.write, List.append_assoc, List.append_assoc, b.header_append, List.append_assoc]
  exact hword.margin b.opening.isMargin_before

theorem Bottom.fresh_close (h : Bottom bottom) (b : Block) (bs : List Block) :
    Fresh (b.close .code ++ codeFrom bottom bs) := b.fresh_close (h.fresh_codeFrom bs)

theorem Block.openingBehind?_inside (b : Block) (t : Text) : openingBehind? (b.inside .code ++ t) =
    openingBehind? (b.lines.flatMap (Line.write .code) ++ t) := by
  rw [inside, List.append_assoc, openingBehind?_append b.opening.ending.isMargin.not_isQuote]

theorem isSome_openingBehind?_codeFrom (h : Bottom bottom) (hopens : ∀ b ∈ bs, b.Opens) :
    (openingBehind? (codeFrom bottom bs)).isSome = blockBehindAll bs := by
  induction bs with
  | nil => exact congrArg Option.isSome h.openingBehind?_eq
  | cons b bs ih =>
    obtain ⟨hb, hbs⟩ := List.forall_mem_cons.mp hopens
    rw [codeFrom_cons, openingBehind?_append b.opening.isMargin_before.not_isQuote, hb.openingBehind?,
      b.openingBehind?_inside, blockBehindAll]
    cases b.headText.any isQuote with
    | true => rfl
    | false =>
      rw [if_neg Bool.false_ne_true, isSome_openingBehind?_lines b.lines (h.fresh_close b bs),
        b.openingBehind?_close, ih hbs, Bool.false_or]

theorem lands_of_openingBehind? (h : Bottom bottom) (hopens : ∀ b ∈ bs, b.Opens) {x r rest : Text}
    (hopening : openingBehind? (codeFrom bottom bs) = some (x, r, rest)) : Lands bottom bs rest := by
  induction bs with
  | nil =>
    have hnone : openingBehind? (codeFrom bottom []) = none := h.openingBehind?_eq
    rw [hnone] at hopening
    cases hopening
  | cons b bs ih =>
    obtain ⟨hb, hbs⟩ := List.forall_mem_cons.mp hopens
    rw [codeFrom_cons, openingBehind?_append b.opening.isMargin_before.not_isQuote,
      hb.openingBehind?] at hopening
    split at hopening
    · obtain ⟨-, rfl⟩ := Prod.mk.inj (Prod.mk.inj (Option.some.inj hopening)).2
      exact ⟨b, bs, b.inside .code, List.suffix_refl _, List.suffix_refl _, rfl⟩
    · rw [b.openingBehind?_inside] at hopening
      rcases openingBehind?_lines (h.fresh_close b bs) hopening with ⟨u, hu, rfl⟩ | hopening
      · exact ⟨b, bs, u, List.suffix_refl _, hu.trans (List.suffix_append _ _), rfl⟩
      · rw [b.openingBehind?_close] at hopening
        exact (ih hbs hopening).mono (List.suffix_cons b bs)

/-- A table that is opened within another one is opened in a line there, or the name that is read for it
goes up to a later table. -/
theorem opensIn_inside (h : Bottom bottom) (b : Block) (hopens : ∀ b ∈ bs, b.Opens) :
    OpensIn (b.inside .code) (b.close .code ++ codeFrom bottom bs) fun found rest =>
      (∃ u, u <:+ b.inside .code ∧ rest = u ++ (b.close .code ++ codeFrom bottom bs)) ∨
        ('\n' ∈ found.name ∧ Lands bottom bs rest) := by
  rw [Block.inside, opensIn_append]
  refine ⟨opensIn_margin b.opening.ending.isMargin _ _,
    (opensIn_lines b.lines (h.fresh_close b bs)).mono fun found rest hQ => ?_⟩
  rcases hQ with ⟨u, hu, rfl⟩ | ⟨hname, x, r, hopening⟩
  · exact .inl ⟨u, hu.trans (List.suffix_append _ _), rfl⟩
  · rw [b.openingBehind?_close] at hopening
    exact .inr ⟨hname, lands_of_openingBehind? h hopens hopening⟩

theorem opensIn_inside_false_iff (h : Bottom bottom) (b : Block) (hopens : ∀ b ∈ bs, b.Opens) :
    OpensIn (b.inside .code) (b.close .code ++ codeFrom bottom bs) (fun _ _ => False) ↔
      opensAmong (blockBehindAll bs) (b.lines.map Line.text) = false := by
  rw [Block.inside, opensIn_append, and_iff_right (opensIn_margin b.opening.ending.isMargin _ _),
    opensIn_lines_false_iff b.lines (h.fresh_close b bs), b.openingBehind?_close,
    isSome_openingBehind?_codeFrom h hopens]

end

/-! ### The search -/

theorem allIn_cases {s t : Text} {size : Nat} (hsize : (s ++ t).length ≤ size) (c : Option Char) :
    header.PassesOver c s t ∨ ∃ u found rest c', u ≠ [] ∧ u <:+ s ∧
      header none (u ++ t) = some (found, rest) ∧ header.allIn size c (s ++ t) =
        ⟨size - (u ++ t).length, size - rest.length, found⟩ :: header.allIn size c' rest := by
  induction s generalizing c with
  | nil => exact .inl trivial
  | cons a s ih =>
    have hsize' : (s ++ t).length ≤ size := (Nat.le_succ _).trans hsize
    cases hmatch : header none (a :: s ++ t) with
    | some result =>
      obtain ⟨found, rest⟩ := result
      obtain ⟨front, hne, hfront⟩ := header_split hmatch
      refine .inr ⟨a :: s, found, rest, front.getLast?.or c, List.cons_ne_nil a s, List.suffix_refl _,
        hmatch, ?_⟩
      rw [hfront] at hmatch hsize ⊢
      exact Pattern.allIn_of_match hsize hne hmatch
    | none =>
      have hpasses : header.PassesOver c [a] (s ++ t) := ⟨hmatch, trivial⟩
      have hall : header.allIn size c ([a] ++ (s ++ t)) = header.allIn size (some a) (s ++ t) :=
        Pattern.allIn_of_passesOver hsize hpasses
      rcases ih hsize' (some a) with hs | ⟨u, found, rest, c', hu, hsuffix, hfound, hrest⟩
      · exact .inl ⟨hmatch, hs⟩
      · exact .inr ⟨u, found, rest, c', hu, hsuffix.trans (List.suffix_cons a s), hfound, hall.trans hrest⟩

def openings (bottom : Text) (size : Nat) : List Block → List (Found Header)
  | [] => []
  | b :: bs =>
    let behind := b.inside .code ++ (b.close .code ++ codeFrom bottom bs)
    ⟨size - (b.header .code ++ behind).length, size - behind.length,
      ⟨b.name.text, b.options.write .code, b.receiver.text⟩⟩ :: openings bottom size bs

theorem length_openings (bottom : Text) (size : Nat) (bs : List Block) :
    (openings bottom size bs).length = bs.length := by
  induction bs with
  | nil => rfl
  | cons b bs ih => rw [openings, List.length_cons, List.length_cons, ih]

/-- What is found where the tables `bs` are left, of those that the text began with, `all`. If no table is
opened elsewhere, it is their lines. -/
structure Finds (bottom : Text) (size : Nat) (all bs : List Block) (quiet : Prop)
    (found : List (Found Header)) : Prop where
  lands : ∀ m ∈ found, ∃ rest, m.stop = size - rest.length ∧ Lands bottom all rest
  exact : quiet → found = openings bottom size bs
  lost : ¬ quiet → (∃ m ∈ found, '\n' ∈ m.value.name) ∨ bs.length < found.length

namespace Finds

variable {bottom : Text} {size : Nat} {all all' bs bs' : List Block} {quiet quiet' : Prop}
  {found : List (Found Header)} {m : Found Header}

theorem mono (h : Finds bottom size all bs quiet found) (hall : all <:+ all') (hquiet : quiet' ↔ quiet) :
    Finds bottom size all' bs quiet' found where
  lands := fun m hm =>
    let ⟨rest, hstop, hlands⟩ := h.lands m hm
    ⟨rest, hstop, hlands.mono hall⟩
  exact := fun hq => h.exact (hquiet.mp hq)
  lost := fun hq => h.lost fun hq' => hq (hquiet.mpr hq')

theorem cons_opening (h : Finds bottom size all bs quiet found) (b : Block)
    (hm : openings bottom size (b :: bs) = m :: openings bottom size bs)
    (hlands : ∃ rest, m.stop = size - rest.length ∧ Lands bottom all rest) :
    Finds bottom size all (b :: bs) quiet (m :: found) where
  lands := List.forall_mem_cons.mpr ⟨hlands, h.lands⟩
  exact := fun hquiet => by rw [hm, h.exact hquiet]
  lost := fun hquiet => by
    rcases h.lost hquiet with ⟨m, hm, hname⟩ | hlength
    · exact .inl ⟨m, List.mem_cons_of_mem _ hm, hname⟩
    · exact .inr (Nat.succ_lt_succ hlength)

/-- With a match that is not the line of a table there are more matches than tables, if no match is
missing behind it. -/
theorem cons_within (h : Finds bottom size all bs quiet found) (hquiet' : ¬ quiet')
    (hlands : ∃ rest, m.stop = size - rest.length ∧ Lands bottom all rest) :
    Finds bottom size all bs quiet' (m :: found) where
  lands := List.forall_mem_cons.mpr ⟨hlands, h.lands⟩
  exact := fun hquiet => absurd hquiet hquiet'
  lost := fun _ => by
    by_cases hquiet : quiet
    · rw [h.exact hquiet, List.length_cons, length_openings]
      exact .inr (Nat.lt_succ_self _)
    · rcases h.lost hquiet with ⟨m, hm, hname⟩ | hlength
      · exact .inl ⟨m, List.mem_cons_of_mem _ hm, hname⟩
      · exact .inr (hlength.trans (Nat.lt_succ_self _))

theorem cons_lineFeed (h : Finds bottom size all bs' quiet found) (hquiet' : ¬ quiet')
    (hlands : ∃ rest, m.stop = size - rest.length ∧ Lands bottom all rest)
    (hname : '\n' ∈ m.value.name) : Finds bottom size all bs quiet' (m :: found) where
  lands := List.forall_mem_cons.mpr ⟨hlands, h.lands⟩
  exact := fun hquiet => absurd hquiet hquiet'
  lost := fun _ => .inl ⟨m, List.mem_cons_self .., hname⟩

end Finds

section

variable {bottom : Text} {size : Nat} {bs : List Block}

/-- Where tables are left, the first line is found, and the search goes on behind it. -/
theorem finds_codeFrom (hbottom : Bottom bottom) (hopens : ∀ b ∈ bs, b.Opens)
    (hsize : (codeFrom bottom bs).length ≤ size)
    (hfinds : ∀ b tail, bs = b :: tail → ∀ c, Finds bottom size (b :: tail) tail
      (OpensIn (b.inside .code) (b.close .code ++ codeFrom bottom tail) (fun _ _ => False) ∧
        opensElsewhere tail = false)
      (header.allIn size c (b.inside .code ++ (b.close .code ++ codeFrom bottom tail))))
    (c : Option Char) :
    Finds bottom size bs bs (opensElsewhere bs = false) (header.allIn size c (codeFrom bottom bs)) := by
  cases bs with
  | nil =>
    have hcode : codeFrom bottom [] = bottom ++ [] := (List.append_nil bottom).symm
    rw [hcode] at hsize
    rw [hcode, Pattern.allIn_of_passesOver hsize (hbottom.passesOver c)]
    exact ⟨List.forall_mem_nil _, fun _ => rfl, fun hquiet => absurd rfl hquiet⟩
  | cons b tail =>
    obtain ⟨hb, htail⟩ := List.forall_mem_cons.mp hopens
    have hquiet : opensElsewhere (b :: tail) = false ↔
        OpensIn (b.inside .code) (b.close .code ++ codeFrom bottom tail) (fun _ _ => False) ∧
          opensElsewhere tail = false := by
      rw [opensIn_inside_false_iff hbottom b htail, ← Bool.or_eq_false_iff, opensElsewhere]
    have hheader : b.header .code ≠ [] := by
      rw [Block.header]
      exact List.append_ne_nil_of_right_ne_nil _ (List.cons_ne_nil _ _)
    rw [codeFrom_cons] at hsize
    rw [codeFrom_cons, Pattern.allIn_of_passesOver hsize
        (header_passesOver_margin b.opening.isMargin_before _ c),
      Pattern.allIn_of_match ((List.suffix_append _ _).length_le.trans hsize) hheader
        (hb.header_match _ _)]
    refine ((hfinds b tail rfl _).cons_opening b rfl ?_).mono (List.suffix_refl _) hquiet
    exact ⟨_, rfl, b, tail, _, List.suffix_refl _, List.suffix_refl _, rfl⟩

/-- Within a table the search goes on behind what is opened there, or at the next table. -/
theorem finds_inside (hbottom : Bottom bottom) {b : Block} {u : Text} (hu : u <:+ b.inside .code)
    (hopens : ∀ b ∈ bs, b.Opens)
    (hsize : (u ++ (b.close .code ++ codeFrom bottom bs)).length ≤ size) (c : Option Char) :
    Finds bottom size (b :: bs) bs
      (OpensIn u (b.close .code ++ codeFrom bottom bs) (fun _ _ => False) ∧ opensElsewhere bs = false)
      (header.allIn size c (u ++ (b.close .code ++ codeFrom bottom bs))) := by
  -- What is left of the text gets shorter with each match, in whichever table that ends.
  induction hn : (u ++ (b.close .code ++ codeFrom bottom bs)).length using Nat.strong_induction_on
    generalizing b bs u c with
  | _ n ih =>
    rcases allIn_cases hsize c with hpasses | ⟨v, found, rest, c', hv, hsuffix, hmatch, hall⟩
    · have hclose := (List.suffix_append u _).length_le.trans hsize
      have hfinds := finds_codeFrom hbottom hopens
        ((List.suffix_append (b.close .code) _).length_le.trans hclose)
        (fun b' tail htail c => by
          subst htail
          rw [codeFrom_cons] at hclose hn
          refine ih _ ?_ (List.suffix_refl _) (List.forall_mem_cons.mp hopens).2 ?_ c rfl
          · rw [← hn, Block.header]
            simp only [List.length_append, List.length_singleton]
            omega
          · simp only [List.length_append] at hclose ⊢
            omega) ((b.close .code).getLast?.or (u.getLast?.or c))
      rw [Pattern.allIn_of_passesOver hsize hpasses,
        Pattern.allIn_of_passesOver hclose (b.header_passesOver_close _ _)]
      exact hfinds.mono (List.suffix_cons b bs) (and_iff_right ((passesOver_iff_opensIn c).mp hpasses))
    · have hloud : ¬ (OpensIn u (b.close .code ++ codeFrom bottom bs) (fun _ _ => False) ∧
          opensElsewhere bs = false) :=
        fun hquiet => hquiet.1 v hv hsuffix found rest hmatch
      have hfewer : rest.length < n := by
        obtain ⟨front, hne, hfront⟩ := header_split hmatch
        have hpos := List.length_pos_iff.mpr hne
        have hlength : (v ++ (b.close .code ++ codeFrom bottom bs)).length ≤ n :=
          hn ▸ (List.suffix_append_self_iff.mpr hsuffix).length_le
        rw [hfront, List.length_append] at hlength
        omega
      have hrest : rest.length ≤ size := hfewer.le.trans (hn ▸ hsize)
      rw [hall]
      -- The match ends in this table or, with a name that goes over the ends of lines, in a later one.
      rcases opensIn_inside hbottom b hopens v hv (hsuffix.trans hu) found rest hmatch with
        ⟨w, hw, rfl⟩ | ⟨hname, b', after, w, hafter, hw, rfl⟩
      · exact (ih _ hfewer hw hopens hrest c' rfl).cons_within hloud
          ⟨_, rfl, b, bs, w, List.suffix_refl _, hw, rfl⟩
      · have hopens' : ∀ x ∈ after, x.Opens := fun x hx =>
          hopens x (hafter.subset (List.mem_cons_of_mem b' hx))
        have hlater := hafter.trans (List.suffix_cons b bs)
        exact ((ih _ hfewer hw hopens' hrest c' rfl).mono hlater Iff.rfl).cons_lineFeed hloud
          ⟨_, rfl, b', after, w, hlater, hw, rfl⟩ hname

end

/-! ### Lines around all tables -/

end RecordMap.Schema.Outline

namespace RecordMap.Schema.Written.Script

open Dump Text Outline

theorem header_passesOver_top (s : Script) (rest : Text) (before : Option Char) :
    header.PassesOver before (s.top .code) rest := by
  rw [Script.top]
  cases s.frame with
  | none => trivial
  | some f =>
    have hopened : ∀ b t, header.PassesOver b "ActiveRecord::Schema[7.1].define(version: ".toList t := by
      intro b t
      refine header_passesOver_of_verbatim ?_ (.inl (by decide))
      have hverbatim : (Pattern.verbatim "create_table").PassesOver none
          "ActiveRecord::Schema[7.1].define(version: ".toList [] := by decide +kernel
      exact ⟨hverbatim.1, hverbatim.2⟩
    have hversion : 'c' ∉ f.version.text := fun hc =>
      absurd (List.all_eq_true.mp f.version.all_isDigit 'c' hc) (by decide)
    simp only [Option.elim, Frame.openingLine, Pattern.passesOver_append]
    exact ⟨⟨header_passesOver_margin f.opening.isMargin_before _ _,
      ⟨hopened _ _, header_passesOver_of_forall hversion _ _⟩,
      header_passesOver_of_forall (by decide) _ _⟩,
      header_passesOver_margin f.opening.ending.isMargin _ _⟩

theorem isMargin_after (s : Script) : IsMargin (s.after.flatMap (Aside.write .code)) :=
  isMargin_flatMap fun a _ => a.isMargin

theorem header_passesOver_bottom (s : Script) (before : Option Char) :
    header.PassesOver before (s.bottom .code) [] := by
  rw [Script.bottom, Pattern.passesOver_append]
  refine ⟨?_, header_passesOver_margin s.isMargin_after _ _⟩
  cases s.frame with
  | none => trivial
  | some f =>
    simp only [Option.elim, Frame.closingLine, Pattern.passesOver_append]
    exact ⟨⟨header_passesOver_margin f.closing.isMargin_before _ _,
      header_passesOver_of_forall (by decide) _ _⟩,
      header_passesOver_margin f.closing.ending.isMargin _ _⟩

theorem openingBehind?_bottom (s : Script) : openingBehind? (s.bottom .code) = none := by
  have hquiet : ∀ c ∈ s.bottom .code, isQuote c = false := by
    intro c hc
    rcases List.mem_append.mp hc with hc | hc
    · cases hframe : s.frame with
      | none => rw [hframe] at hc; cases hc
      | some f =>
        rw [hframe] at hc
        rcases List.mem_append.mp hc with hc | hc
        · rcases List.mem_append.mp hc with hc | hc
          · exact f.closing.isMargin_before.not_isQuote c hc
          · have hend : ∀ d ∈ "end".toList, isQuote d = false := by decide
            exact hend c hc
        · exact f.closing.ending.isMargin.not_isQuote c hc
    · exact s.isMargin_after.not_isQuote c hc
  have hnil := openingBehind?_append hquiet []
  rwa [List.append_nil] at hnil

theorem fresh_bottom (s : Script) : Fresh (s.bottom .code) := by
  have hafter : Fresh (s.after.flatMap (Aside.write .code)) := by
    have hnil := fresh_nil.margin s.isMargin_after
    rwa [List.append_nil] at hnil
  rw [Script.bottom]
  cases s.frame with
  | none => exact hafter
  | some f =>
    have hend := fresh_word (w := "end".toList) (by decide) (by decide) (by decide)
      (f.closing.ending.head? (s.after.flatMap (Aside.write .code)))
    simpa only [Option.elim, Frame.closingLine, List.append_assoc] using
      hend.margin f.closing.isMargin_before

theorem isBottom (s : Script) : Bottom (s.bottom .code) :=
  ⟨s.fresh_bottom, s.openingBehind?_bottom, s.header_passesOver_bottom⟩

end RecordMap.Schema.Written.Script
