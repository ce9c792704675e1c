import RecordMap.Proofs.Dump.Written
import RecordMap.Proofs.Text.Words
import RecordMap.Source.Comment

/-! The layout of a dump: where comments are not shown, the lines are held apart by spaces and line
feeds, and each token's code is free of what the readers of a dump look for. -/

namespace RecordMap.Schema.Written

open Text

theorem mem_spaces {n : Nat} {c : Char} (h : c ∈ spaces n) : c = ' ' := List.eq_of_mem_replicate h

theorem length_spaces (n : Nat) : (spaces n).length = n := List.length_replicate

theorem spaces_add (m n : Nat) : spaces m ++ spaces n = spaces (m + n) :=
  List.replicate_append_replicate

theorem flatMap_step {α : Type} {R : Text → Text → Prop} {f g : α → Text}
    (hstep : ∀ x t t', R t t' → R (f x ++ t) (g x ++ t')) (l : List α) {t t' : Text} (h : R t t') :
    R (l.flatMap f ++ t) (l.flatMap g ++ t') := by
  induction l with
  | nil => exact h
  | cons x l ih =>
    rw [List.flatMap_cons, List.flatMap_cons, List.append_assoc, List.append_assoc]
    exact hstep x _ _ ih

/-! ### Characters -/

theorem Quotable.not_mem (q : Quotable) {c : Char} (h : isNameChar c = false) : c ∉ q.text := by
  intro hc
  have hname := List.all_eq_true.mp q.all_isNameChar c hc
  rw [h] at hname
  cases hname

theorem isWordChar_of_isDigit {c : Char} (h : c.isDigit = true) : isWordChar c = true := by
  have hbound : c.toNat < 128 := by
    rw [Char.isDigit, Bool.and_eq_true, decide_eq_true_eq, decide_eq_true_eq] at h
    have h9 : c.toNat ≤ '9'.toNat := h.2
    exact Nat.lt_of_le_of_lt h9 (by decide)
  rw [isWordChar, if_pos hbound, Char.isAlphanum, h, Bool.or_true, Bool.true_or]

theorem Variable.isWordChar (v : Variable) : ∀ c ∈ v.text, Text.isWordChar c = true :=
  List.all_eq_true.mp v.all_isWordChar

theorem Digits.isWordChar (d : Digits) : ∀ c ∈ d.text, Text.isWordChar c = true :=
  fun c hc => isWordChar_of_isDigit (List.all_eq_true.mp d.all_isDigit c hc)

theorem Word.isWordChar (w : Word) : ∀ c ∈ w.text, Text.isWordChar c = true :=
  List.all_eq_true.mp w.all_isWordChar

theorem Name.source_ne_nil (n : Name) : n.source ≠ [] := by
  cases n <;> exact List.cons_ne_nil _ _

/-- A character of which neither names nor the signs around them are made. -/
structure Foreign (d : Char) : Prop where
  word : Text.isWordChar d = false
  name : isNameChar d = false
  colon : d ≠ ':'
  mark : ∀ m : Mark, d ≠ m.char

theorem foreign_point : Foreign '.' := ⟨by decide, by decide, by decide, by rintro ⟨⟩ <;> decide⟩

theorem foreign_bar : Foreign '|' := ⟨by decide, by decide, by decide, by rintro ⟨⟩ <;> decide⟩

theorem foreign_lineFeed : Foreign '\n' := ⟨by decide, by decide, by decide, by rintro ⟨⟩ <;> decide⟩

theorem Foreign.not_mem_word {d : Char} (hd : Foreign d) {w : Text}
    (hw : ∀ c ∈ w, Text.isWordChar c = true) : d ∉ w :=
  fun hmem => ne_of_isWordChar (hw d hmem) hd.word rfl

theorem Foreign.not_mem_source {d : Char} (hd : Foreign d) (n : Name) : d ∉ n.source := by
  cases n with
  | symbol word =>
    intro hmem
    rcases List.mem_cons.mp hmem with heq | hmem
    · exact hd.colon heq
    · exact hd.not_mem_word word.isWordChar hmem
  | quoted m content =>
    intro hmem
    rcases List.mem_append.mp hmem with hmem | hmem
    · rcases List.mem_cons.mp hmem with heq | hmem
      · exact hd.mark m heq
      · exact content.not_mem hd.name hmem
    · exact hd.mark m (List.mem_singleton.mp hmem)

theorem Foreign.not_mem_argument {d : Char} (hd : Foreign d) (a : Argument) : d ∉ a.write .code := by
  cases a with
  | nothing => exact List.not_mem_nil
  | number digits => exact hd.not_mem_word digits.isWordChar
  | name n => exact hd.not_mem_source n

/-! ### Margins -/

def IsMargin (t : Text) : Prop := ∀ c ∈ t, c = ' ' ∨ c = '\n'

theorem IsMargin.append {s t : Text} (hs : IsMargin s) (ht : IsMargin t) : IsMargin (s ++ t) := by
  intro c hc
  rcases List.mem_append.mp hc with hc | hc
  · exact hs c hc
  · exact ht c hc

theorem IsMargin.cons_lineFeed {t : Text} (ht : IsMargin t) : IsMargin ('\n' :: t) := by
  intro c hc
  rcases List.mem_cons.mp hc with rfl | hc
  · exact .inr rfl
  · exact ht c hc

theorem isMargin_spaces (n : Nat) : IsMargin (spaces n) := fun _ hc => .inl (mem_spaces hc)

theorem isMargin_flatMap {α : Type} {l : List α} {f : α → Text} (h : ∀ x ∈ l, IsMargin (f x)) :
    IsMargin (l.flatMap f) := by
  intro c hc
  obtain ⟨x, hx, hc⟩ := List.mem_flatMap.mp hc
  exact h x hx c hc

theorem IsMargin.isBlank {t : Text} (h : IsMargin t) : ∀ c ∈ t, isBlank c = true := by
  intro c hc
  rcases h c hc with rfl | rfl <;> decide

theorem IsMargin.not_isKeyChar {t : Text} (h : IsMargin t) : ∀ c ∈ t, isKeyChar c = false := by
  intro c hc
  rcases h c hc with rfl | rfl <;> decide

theorem IsMargin.separate {s : Text} (h : IsMargin s) (rest : Text) : Separate s rest := by
  refine .inl ?_
  cases hlast : s.getLast? with
  | none => rfl
  | some c => exact h.not_isKeyChar c (List.mem_of_getLast? hlast)

theorem IsMargin.head? {s : Text} (h : IsMargin s) (hne : s ≠ []) (rest : Text) :
    (s ++ rest).head?.any isKeyChar = false := by
  obtain ⟨c, s, rfl⟩ := List.exists_cons_of_ne_nil hne
  exact h.not_isKeyChar c (List.mem_cons_self ..)

/-- The spaces that an ending shows where its remark is not shown. -/
def Ending.width (e : Ending) : Nat := e.gap + e.remark.elim 0 (·.text.length + 1)

theorem Ending.write_code (e : Ending) : e.write .code = spaces e.width ++ ['\n'] := by
  obtain ⟨n, remark⟩ := e
  cases remark with
  | none => rw [Ending.write, Option.elim, List.append_nil]; rfl
  | some r =>
    have hcomment : comment .code ('#' :: r.text) = spaces (r.text.length + 1) := rfl
    rw [Ending.write, Option.elim, hcomment, spaces_add]
    rfl

theorem Ending.write_bare (e : Ending) : e.write .bare = e.write .code := rfl

theorem Aside.write_bare : Aside.write .bare = Aside.write .code := by
  funext a
  cases a <;> rfl

theorem Margin.before_bare (m : Margin) : m.before .bare = m.before .code := by
  rw [Margin.before, Margin.before, Aside.write_bare]

theorem Ending.isMargin (e : Ending) : IsMargin (e.write .code) := by
  rw [Ending.write_code]
  exact (isMargin_spaces _).append (IsMargin.cons_lineFeed (List.forall_mem_nil _))

theorem Ending.getLast?_write (e : Ending) : (e.write .code).getLast? = some '\n' := by
  rw [Ending.write_code, List.getLast?_append]
  rfl

theorem Ending.write_ne_nil (e : Ending) : e.write .code ≠ [] := by
  rw [Ending.write_code]
  exact List.append_ne_nil_of_right_ne_nil _ (List.cons_ne_nil _ _)

theorem Ending.head? (e : Ending) (rest : Text) :
    (e.write .code ++ rest).head?.any isKeyChar = false := e.isMargin.head? e.write_ne_nil rest

theorem Aside.isMargin (a : Aside) : IsMargin (a.write .code) := by
  cases a with
  | line ending => exact ending.isMargin
  | block first lines =>
    have hlines : IsMargin (lines.flatMap fun l => spaces l.text.length ++ ['\n']) :=
      isMargin_flatMap fun l _ =>
        (isMargin_spaces _).append (IsMargin.cons_lineFeed (List.forall_mem_nil _))
    have hend : IsMargin (spaces 4 ++ ['\n']) :=
      (isMargin_spaces 4).append (IsMargin.cons_lineFeed (List.forall_mem_nil _))
    have hbegin : IsMargin (spaces ("=begin".toList ++ first.text).length) := isMargin_spaces _
    have hwrite : (Aside.block first lines).write .code =
        spaces ("=begin".toList ++ first.text).length ++
          '\n' :: ((lines.flatMap fun l => spaces l.text.length ++ ['\n']) ++ (spaces 4 ++ ['\n'])) := by
      simp only [Aside.write, comment, List.append_assoc, List.cons_append]
      rfl
    rw [hwrite]
    exact hbegin.append (hlines.append hend).cons_lineFeed

theorem Margin.isMargin_before (m : Margin) : IsMargin (m.before .code) :=
  (isMargin_flatMap fun a _ => a.isMargin).append (isMargin_spaces _)

/-! ### Tokens -/

theorem writeTokens_cons (view : View) (t : Token) (ts : List Token) :
    writeTokens view (t :: ts) = t.write view ++ writeTokens view ts := List.flatMap_cons

theorem writeTokens_append (view : View) (ts us : List Token) :
    writeTokens view (ts ++ us) = writeTokens view ts ++ writeTokens view us := List.flatMap_append

def codes : List Text :=
  [", id: false", ", id: ", ", primary_key: ", ", primary_key: [", "]", ", force: ", ", null: false",
    ", limit: ", ", polymorphic: true", ", comment: ", ", default: ", ".column ", ", ", ".belongs_to ",
    ".references ", ".timestamps", ".index [", "], name: "].map String.toList ++
      plainKinds.map fun kind => '.' :: kind ++ [' ']

/-- The token's code is a usual one, and does not run into the token's argument. -/
structure Token.Sound (t : Token) : Prop where
  mem : t.code ∈ codes
  closed : t.argument = .nothing ∨ t.code.getLast?.any isKeyChar = false

theorem Token.Sound.separate {t : Token} (h : t.Sound) (view : View) {rest : Text}
    (hrest : rest.head?.any isKeyChar = false) : Separate t.code (t.argument.write view ++ rest) := by
  rcases h.closed with hnothing | hclosed
  · rw [hnothing]
    exact .inr hrest
  · exact .inl hclosed

theorem head?_of_mem_codes : ∀ code ∈ codes, code.head?.any ([',', '.', ']'].contains ·) = true := by
  decide +kernel

theorem Token.Sound.head? {t : Token} (h : t.Sound) (view : View) (rest : Text) :
    ∃ c ∈ [',', '.', ']'], (t.write view ++ rest).head? = some c := by
  have hcode := head?_of_mem_codes t.code h.mem
  rw [Token.write]
  cases hc : t.code with
  | nil => rw [hc] at hcode; cases hcode
  | cons c code =>
    rw [hc] at hcode
    exact ⟨c, List.elem_iff.mp hcode, rfl⟩

theorem head?_writeTokens {ts : List Token} (hts : ∀ t ∈ ts, t.Sound) (view : View) {rest : Text}
    (hrest : rest.head?.any isKeyChar = false) :
    (writeTokens view ts ++ rest).head?.any isKeyChar = false := by
  cases ts with
  | nil => exact hrest
  | cons t ts =>
    obtain ⟨c, hc, hhead⟩ := (hts t (List.mem_cons_self ..)).head? view (writeTokens view ts ++ rest)
    rw [writeTokens_cons, List.append_assoc, hhead, Option.any_some]
    have hnone : ∀ d ∈ [',', '.', ']'], isKeyChar d = false := by decide
    exact hnone c hc

theorem Token.sound_of_closed {code : Text} {argument : Argument} (hmem : code ∈ codes)
    (hclosed : code.getLast?.any isKeyChar = false) : Token.Sound ⟨code, argument⟩ :=
  ⟨hmem, .inr hclosed⟩

theorem Token.sound_of_kind (kind : PlainKind) (name : Name) :
    Token.Sound ⟨'.' :: kind.text ++ [' '], .name name⟩ := by
  refine sound_of_closed (List.mem_append_right _ (List.mem_map.mpr ⟨kind.text, kind.mem, rfl⟩)) ?_
  rw [List.getLast?_append]
  rfl

theorem TableOption.sound_token (o : TableOption) : o.token.Sound := by
  cases o with
  | noKey => exact ⟨by decide +kernel, .inl rfl⟩
  | keyType type => exact Token.sound_of_closed (by decide +kernel) (by decide)
  | keyName name => exact Token.sound_of_closed (by decide +kernel) (by decide)
  | cascade => exact Token.sound_of_closed (by decide +kernel) (by decide)

theorem ColumnOption.sound_token (o : ColumnOption) : o.token.Sound := by
  cases o with
  | notNull => exact ⟨by decide +kernel, .inl rfl⟩
  | limit digits => exact Token.sound_of_closed (by decide +kernel) (by decide)
  | polymorphic => exact ⟨by decide +kernel, .inl rfl⟩

theorem ColumnOption.sound_tokens (options : List ColumnOption) :
    ∀ t ∈ options.map ColumnOption.token, t.Sound := by
  intro t ht
  obtain ⟨o, _, rfl⟩ := List.mem_map.mp ht
  exact o.sound_token

theorem TableOption.sound_tokens (options : List TableOption) :
    ∀ t ∈ options.map TableOption.token, t.Sound := by
  intro t ht
  obtain ⟨o, _, rfl⟩ := List.mem_map.mp ht
  exact o.sound_token

theorem Item.sound_tokens (i : Item) : ∀ t ∈ i.tokens, t.Sound := by
  cases i with
  | column kind name options =>
    exact List.forall_mem_cons.mpr
      ⟨Token.sound_of_kind kind name, ColumnOption.sound_tokens options⟩
  | typed name type options =>
    refine List.forall_mem_cons.mpr ⟨Token.sound_of_closed (by decide +kernel) (by decide), ?_⟩
    exact List.forall_mem_cons.mpr ⟨Token.sound_of_closed (by decide +kernel) (by decide),
      ColumnOption.sound_tokens options⟩
  | reference isAlias name options =>
    refine List.forall_mem_cons.mpr ⟨?_, ColumnOption.sound_tokens options⟩
    cases isAlias <;> exact Token.sound_of_closed (by decide +kernel) (by decide)
  | timestamps => exact List.forall_mem_singleton.mpr ⟨by decide +kernel, .inl rfl⟩
  | index first others name =>
    refine List.forall_mem_cons.mpr ⟨Token.sound_of_closed (by decide +kernel) (by decide), ?_⟩
    intro t ht
    rcases List.mem_append.mp ht with ht | ht
    · obtain ⟨other, _, rfl⟩ := List.mem_map.mp ht
      exact Token.sound_of_closed (by decide +kernel) (by decide)
    · rw [List.mem_singleton.mp ht]
      exact Token.sound_of_closed (by decide +kernel) (by decide)

/-! ### Pieces -/

end RecordMap.Schema.Written
