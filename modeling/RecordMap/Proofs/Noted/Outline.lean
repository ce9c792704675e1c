import RecordMap.Proofs.Dump.Openings
import RecordMap.Proofs.Noted.Written
import RecordMap.Proofs.Outline.Basic

/-! The outline of a dump with texts: such a text is code in its line like any other, of which nothing is
shown where strings are not. -/

namespace RecordMap.Schema.Noted

open Written Text Source

/-! ### Parts -/

theorem Content.not_mem (c : Content) {d : Char} (h : isContentChar d = false) : d ∉ c.text := by
  intro hd
  have hcontent := List.all_eq_true.mp c.all_isContentChar d hd
  rw [h] at hcontent
  cases hcontent

theorem NoteKind.mem_codes (k : NoteKind) : k.code ∈ codes := by
  cases k <;> decide +kernel

theorem NoteKind.closed (k : NoteKind) : k.code.getLast?.any isKeyChar = false := by
  cases k <;> decide

/-- The code in the parts is that of sound tokens. -/
def Sound (ps : List (Part Token)) : Prop := ∀ t ∈ withoutNotes ps, t.Sound

theorem sound_cons {p : Part Token} {ps : List (Part Token)} :
    Sound (p :: ps) ↔ (∀ t, p = .code t → t.Sound) ∧ Sound ps := by
  cases p with
  | code t => simp [Sound, withoutNotes, Part.code?]
  | note n => simp [Sound, withoutNotes, Part.code?]

theorem sound_append {ps qs : List (Part Token)} : Sound (ps ++ qs) ↔ Sound ps ∧ Sound qs := by
  rw [Sound, withoutNotes, List.filterMap_append, List.forall_mem_append]
  rfl

theorem withoutNotes_map {α β : Type} (f : α → β) (ps : List (Part α)) :
    withoutNotes (ps.map (Part.map f)) = (withoutNotes ps).map f := by
  rw [withoutNotes, withoutNotes, List.filterMap_map, List.map_filterMap]
  refine congrArg (List.filterMap · ps) (funext fun p => ?_)
  cases p <;> rfl

theorem withoutNotes_code {α : Type} (l : List α) : withoutNotes (l.map .code) = l := by
  rw [withoutNotes, List.filterMap_map]
  exact List.filterMap_some

theorem sound_code {ts : List Token} (hts : ∀ t ∈ ts, t.Sound) : Sound (ts.map .code) := by
  rwa [Sound, withoutNotes_code]

theorem sound_columnOptions (options : List (Part ColumnOption)) :
    Sound (options.map (Part.map ColumnOption.token)) := by
  rw [Sound, withoutNotes_map]
  exact ColumnOption.sound_tokens _

theorem sound_tableOptions (options : List (Part TableOption)) :
    Sound (options.map (Part.map TableOption.token)) := by
  rw [Sound, withoutNotes_map]
  exact TableOption.sound_tokens _

theorem Item.sound_parts (i : Item) : Sound i.parts := by
  cases i with
  | declaration head options =>
    exact sound_append.mpr ⟨sound_code (head.item []).sound_tokens, sound_columnOptions options⟩
  | other item => exact sound_code item.sound_tokens

theorem writeParts_cons (view : View) (p : Part Token) (ps : List (Part Token)) :
    writeParts view (p :: ps) = p.write view ++ writeParts view ps := List.flatMap_cons

theorem writeParts_append (view : View) (ps qs : List (Part Token)) :
    writeParts view (ps ++ qs) = writeParts view ps ++ writeParts view qs := List.flatMap_append

theorem writeParts_code (view : View) (ts : List Token) :
    writeParts view (ts.map .code) = writeTokens view ts := List.flatMap_map ..

theorem head?_part {p : Part Token} (hp : ∀ t, p = .code t → t.Sound) (view : View) (rest : Text) :
    ∃ c ∈ [',', '.', ']'], (p.write view ++ rest).head? = some c := by
  cases p with
  | code t => exact (hp t rfl).head? view rest
  | note n =>
    refine ⟨',', by decide, ?_⟩
    rw [Part.write, Note.write]
    cases n.kind <;> rfl

theorem head?_parts {ps : List (Part Token)} (hps : Sound ps) (view : View) {rest : Text}
    (hrest : rest.head?.any isKeyChar = false) :
    (writeParts view ps ++ rest).head?.any isKeyChar = false := by
  cases ps with
  | nil => exact hrest
  | cons p ps =>
    obtain ⟨c, hc, hhead⟩ := head?_part (sound_cons.mp hps).1 view (writeParts view ps ++ rest)
    rw [writeParts_cons, List.append_assoc, hhead, Option.any_some]
    have hnone : ∀ d ∈ [',', '.', ']'], isKeyChar d = false := by decide
    exact hnone c hc

/-! ### Comments -/

theorem writeTokens_singleton (view : View) (t : Token) : writeTokens view [t] = t.write view :=
  List.flatMap_singleton ..

theorem writeParts_whole (ps : List (Part Token)) : writeParts .whole ps = writeParts .code ps := by
  have hpart : Part.write .whole = Part.write .code := by
    funext p
    cases p with
    | code t =>
      have htoken := writeTokens_whole [t]
      rwa [writeTokens_singleton, writeTokens_singleton] at htoken
    | note n => rfl
  rw [writeParts, writeParts, hpart]

theorem uncommented_note {t t' : Text} (n : Note) (h : Uncommented t t') :
    Uncommented (n.write .code ++ t) (n.write .code ++ t') := by
  have hquotation : Uncommented (n.content.quotation ++ t) (n.content.quotation ++ t') := by
    intro before
    rw [Content.quotation, blankCommentsFrom_string (by simp) (lexeme_quotation (.inr rfl)
      (n.content.not_mem (by decide)) (n.content.not_mem (by decide)) before t), h]
  have hcode := hquotation.code (isCodeChar_of_mem_codes n.kind.code n.kind.mem_codes)
  simpa only [Note.write, Content.write, List.append_assoc] using hcode

theorem uncommented_parts {t t' : Text} {ps : List (Part Token)} (hps : Sound ps)
    (h : Uncommented t t') : Uncommented (writeParts .code ps ++ t) (writeParts .code ps ++ t') := by
  induction ps with
  | nil => exact h
  | cons p ps ih =>
    obtain ⟨hp, htail⟩ := sound_cons.mp hps
    rw [writeParts_cons, List.append_assoc, List.append_assoc]
    cases p with
    | code x =>
      have htoken := (ih htail).tokens (List.forall_mem_singleton.mpr (hp x rfl).mem)
      rwa [writeTokens_singleton] at htoken
    | note n => exact uncommented_note n (ih htail)

/-! ### Strings and symbols -/

theorem bared_note {t t' : Text} (n : Note) (h : Bared t t') :
    Bared (n.write .code ++ t) (n.write .bare ++ t') := by
  have hquotation : Bared (n.content.quotation ++ t) (n.content.write .bare ++ t') := by
    intro before
    -- no mark and no backslash in the text: the string ends at the mark behind it
    have hmatch : literal before (n.content.quotation ++ t) = some ((), t) := by
      rw [Content.quotation, List.append_assoc, List.cons_append, literal, if_pos (.inr rfl),
        List.singleton_append,
        afterQuote?_append _ t (n.content.not_mem (by decide)) (n.content.not_mem (by decide))]
      rfl
    have hne : n.content.quotation ≠ [] := List.cons_ne_nil _ _
    rw [Pattern.replaceFrom_of_match _ hne hmatch, h, blank_eq_spaces]
    rfl
  have hcode := hquotation.code (literalFree_of_mem_codes n.kind.code n.kind.mem_codes)
    (.inl n.kind.closed)
  simpa only [Note.write, Content.write, List.append_assoc] using hcode

theorem bared_parts {t t' : Text} {ps : List (Part Token)} (hps : Sound ps)
    (ht : t.head?.any isKeyChar = false) (h : Bared t t') :
    Bared (writeParts .code ps ++ t) (writeParts .bare ps ++ t') := by
  induction ps with
  | nil => exact h
  | cons p ps ih =>
    obtain ⟨hp, htail⟩ := sound_cons.mp hps
    rw [writeParts_cons, writeParts_cons, List.append_assoc, List.append_assoc]
    cases p with
    | code x =>
      have htoken := (ih htail).tokens (List.forall_mem_singleton.mpr (hp x rfl)) (head?_parts htail _ ht)
      rwa [writeTokens_singleton, writeTokens_singleton] at htoken
    | note n => exact bared_note n (ih htail)

/-! ### Keywords -/

theorem keyword_passesOver_parts {ps : List (Part Token)} (hps : Sound ps) {rest : Text}
    (hrest : rest.head?.any isKeyChar = false) (before : Option Char) :
    keyword.PassesOver before (writeParts .bare ps) rest := by
  induction ps generalizing before with
  | nil => trivial
  | cons p ps ih =>
    obtain ⟨hp, htail⟩ := sound_cons.mp hps
    rw [writeParts_cons, Pattern.passesOver_append]
    refine ⟨?_, ih htail _⟩
    cases p with
    | code t =>
      have htoken := keyword_passesOver_tokens (List.forall_mem_singleton.mpr (hp t rfl))
        (head?_parts htail .bare hrest) before
      rwa [writeTokens_singleton] at htoken
    | note n =>
      -- of the text only blanks are left
      rw [Part.write, Note.write, Pattern.passesOver_append]
      exact ⟨keyword_passesOver_code n.kind.mem_codes (.inl n.kind.closed) before,
        (isMargin_spaces _).keyword_passesOver _⟩

/-! ### Positions -/

theorem length_writeParts (ps : List (Part Token)) :
    (writeParts .bare ps).length = (writeParts .code ps).length := by
  refine length_flatMap_congr fun p _ => ?_
  cases p with
  | code t => exact t.length_write
  | note n => simp only [Part.write, Note.write, Content.write, List.length_append, length_spaces]

theorem lineFeed_not_mem_parts {ps : List (Part Token)} (hps : Sound ps) :
    '\n' ∉ writeParts .code ps := by
  induction ps with
  | nil => exact List.not_mem_nil
  | cons p ps ih =>
    obtain ⟨hp, htail⟩ := sound_cons.mp hps
    rw [writeParts_cons, List.mem_append, not_or]
    refine ⟨fun hmem => ?_, ih htail⟩
    cases p with
    | code t => exact (Token.quiet (hp t rfl) _ hmem).2 rfl
    | note n =>
      rcases List.mem_append.mp hmem with hmem | hmem
      · exact (quiet_of_mem_codes n.kind.code n.kind.mem_codes _ hmem).2.2 rfl
      · rcases List.mem_cons.mp hmem with heq | hmem
        · exact absurd heq (by decide)
        · rcases List.mem_append.mp hmem with hmem | hmem
          · exact n.content.not_mem (by decide) hmem
          · exact absurd (List.mem_singleton.mp hmem) (by decide)

theorem legible_parts {ps : List (Part Token)} (hps : Sound ps) :
    Outline.Legible fun view => writeParts view ps where
  whole := writeParts_whole ps
  lineFeed := lineFeed_not_mem_parts hps
  head := fun view _ hrest => head?_parts hps view hrest
  uncommented := uncommented_parts hps
  bared := bared_parts hps
  keywords := keyword_passesOver_parts hps
  length := length_writeParts ps

def code (ps : List (Part Token)) (hps : Sound ps) : Outline.Code := ⟨_, legible_parts hps⟩

/-! ### Outlines -/

def Call.outline (c : Call) : Outline.Line := ⟨c.margin, c.receiver, code c.item.parts c.item.sound_parts⟩

namespace Block

def outline (b : Block) : Outline.Block where
  opening := b.opening
  name := b.name
  options := code (b.options.map (Part.map TableOption.token)) (sound_tableOptions b.options)
  receiver := b.receiver
  lines := b.calls.map Call.outline
  closing := some b.closing

theorem write_outline (view : View) (b : Block) : b.outline.write view = b.write view := by
  have hheader : b.outline.header view = b.header view := by
    rw [Outline.Block.header, header, headParts, writeParts_cons]
    rfl
  have hinside : b.outline.inside view =
      b.opening.ending.write view ++ b.calls.flatMap (Call.write view) :=
    congrArg (_ ++ ·) (List.flatMap_map ..)
  rw [Outline.Block.write, hheader, hinside, write, remainder, body]
  simp only [Outline.Block.close, outline, Option.elim, List.append_assoc]

theorem body_outline (view : View) (b : Block) : b.outline.body view = b.body view := by
  rw [Outline.Block.body, Outline.Block.inside]
  exact congrArg (_ ++ · ++ _) (List.flatMap_map ..)

end Block

def Script.outline (s : Script) : Outline.Script := ⟨s.frame, s.blocks.map Block.outline, s.after⟩

end RecordMap.Schema.Noted
