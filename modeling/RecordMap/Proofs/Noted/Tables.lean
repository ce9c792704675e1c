import RecordMap.Proofs.Dump.RoundTrip
import RecordMap.Proofs.Noted.Columns

/-! The tables that are read from a dump with texts in which nothing is found: those that it declares
without them. -/

namespace RecordMap.Schema.Noted

open Written Dump Text

/-! ### Lines that open a table -/

theorem notes_map {α β : Type} (f : α → β) (ps : List (Part α)) :
    notes (ps.map (Part.map f)) = notes ps := by
  rw [notes, notes, List.filterMap_map]
  refine congrArg (List.filterMap · ps) (funext fun p => ?_)
  cases p <;> rfl

/-- No block starts in some code in front of options, or of the start of the table's block. -/
theorem blockStart_passesOver_front {s : Text} (hbar : '|' ∉ s)
    (hlast : s.getLast?.any closesOptions = false) (options : List (Part TableOption))
    (receiver rest : Text) (before : Option Char) : blockStart.PassesOver before s
      (writeParts .code (options.map (Part.map TableOption.token)) ++ (writtenStart receiver ++ rest)) := by
  cases options with
  | nil => exact blockStart_passesOver_options hbar hlast receiver rest before
  | cons p options =>
    have hsound := sound_tableOptions (p :: options)
    rw [List.map_cons] at hsound ⊢
    obtain ⟨c, hc, hhead⟩ := head?_part (sound_cons.mp hsound).1 .code
      (writeParts .code (options.map (Part.map TableOption.token)) ++ (writtenStart receiver ++ rest))
    obtain ⟨back, hback⟩ := List.head?_eq_some_iff.mp hhead
    have hbars : ∀ d ∈ [',', '.', ']'], bars d = true := by decide
    rw [writeParts_cons, List.append_assoc, hback]
    exact blockStart_passesOver hbar (hbars c hc) back before

/-- No block starts before the end of options in the texts of which none starts. -/
theorem blockStart_passesOver_parts {options : List (Part TableOption)}
    (h : ∀ n ∈ notes options, blockStart.occursIn n.content.text = false) (receiver rest : Text)
    (before : Option Char) :
    blockStart.PassesOver before (writeParts .code (options.map (Part.map TableOption.token)))
      (writtenStart receiver ++ rest) := by
  induction options generalizing before with
  | nil => trivial
  | cons p options ih =>
    rw [List.map_cons, writeParts_cons, Pattern.passesOver_append]
    cases p with
    | note n =>
      rw [notes_cons_note, List.forall_mem_cons] at h
      exact ⟨blockStart_passesOver_note h.1 _ before, ih h.2 _⟩
    | code o =>
      exact ⟨blockStart_passesOver_front (not_mem_bar (Token.quiet o.sound_token)) o.getLast?_write
        options receiver rest before, ih h _⟩

theorem Block.opens_outline {b : Block}
    (h : ∀ n ∈ notes b.options, blockStart.occursIn n.content.text = false) : b.outline.Opens := by
  intro rest before
  rw [Outline.Block.headText, Pattern.passesOver_append]
  exact ⟨blockStart_passesOver_front (foreign_bar.not_mem_source b.name) b.name.getLast?_source b.options
    b.receiver.text rest before, blockStart_passesOver_parts h b.receiver.text rest _⟩

/-! ### All other lines -/

theorem tokenEnd_parts {ps : List (Part Token)} (hps : Sound ps) {rest : Text} (h : TokenEnd rest) :
    TokenEnd (writeParts .code ps ++ rest) := by
  cases ps with
  | nil => exact h
  | cons p ps =>
    obtain ⟨c, hc, hhead⟩ := head?_part (sound_cons.mp hps).1 .code (writeParts .code ps ++ rest)
    rw [writeParts_cons, List.append_assoc]
    exact tokenEnd_of_head hc hhead

theorem header_passesOver_parts {ps : List (Part Token)} (hps : Sound ps)
    (hnotes : ∀ n ∈ notes ps, opening.occursIn n.content.text = false)
    (hnames : ∀ q ∈ quotations (withoutNotes ps), opensTable q = false) {rest : Text}
    (hrest : TokenEnd rest) (before : Option Char) :
    Dump.header.PassesOver before (writeParts .code ps) rest := by
  induction ps generalizing before with
  | nil => trivial
  | cons p ps ih =>
    obtain ⟨hp, htail⟩ := sound_cons.mp hps
    rw [writeParts_cons, Pattern.passesOver_append]
    cases p with
    | note n =>
      rw [notes_cons_note, List.forall_mem_cons] at hnotes
      exact ⟨header_passesOver_note hnotes.1 _ before, ih htail hnotes.2 hnames _⟩
    | code t =>
      have hparts : withoutNotes (.code t :: ps) = t :: withoutNotes ps := rfl
      rw [hparts, quotations_cons, List.forall_mem_append] at hnames
      refine ⟨header_passesOver_token (hp t rfl) (tokenEnd_parts htail hrest) (fun hopens => ?_) before,
        ih htail hnotes hnames.2 _⟩
      cases hquotation : t.argument.quotation? with
      | none =>
        rw [hquotation] at hopens
        cases hopens
      | some q =>
        have hq := hnames.1 q (by rw [hquotation]; exact List.mem_singleton_self q)
        rw [hquotation, Option.any_some, hq] at hopens
        cases hopens

namespace Item

theorem withoutNotes_parts (i : Item) : Noted.withoutNotes i.parts = i.withoutNotes.tokens := by
  cases i with
  | other item => exact withoutNotes_code _
  | declaration head options =>
    have happend : Noted.withoutNotes (declaration head options).parts =
        (head.item []).tokens ++ (Noted.withoutNotes options).map ColumnOption.token := by
      rw [parts, Noted.withoutNotes, List.filterMap_append]
      exact congrArg₂ (· ++ ·) (withoutNotes_code _) (withoutNotes_map _ _)
    rw [happend]
    cases head <;> rfl

theorem notes_parts {i : Item} (h : i.Inert) :
    ∀ n ∈ notes i.parts, opening.occursIn n.content.text = false := by
  have hcode : ∀ ts : List Token, notes (ts.map .code) = [] := fun ts => by
    rw [notes, List.filterMap_map]
    exact List.filterMap_eq_nil_iff.mpr fun _ _ => rfl
  intro n hn
  cases i with
  | other item =>
    rw [parts, hcode] at hn
    cases hn
  | declaration head options =>
    have hnotes : notes (declaration head options).parts = notes options := by
      rw [parts, notes, List.filterMap_append]
      exact (congrArg₂ (· ++ ·) (hcode _) (notes_map _ _)).trans (List.nil_append _)
    rw [hnotes] at hn
    exact (h n hn).1.opening

end Item

theorem header_passesOver_text {c : Call} (h : c.item.Inert)
    (hnames : ∀ q ∈ quotations c.withoutNotes.item.tokens, opensTable q = false) {rest : Text}
    (hrest : TokenEnd rest) : Dump.header.PassesOver none c.outline.text rest := by
  have hparts := tokenEnd_parts c.item.sound_parts hrest
  have htext : c.outline.text = c.receiver.text ++ writeParts .code c.item.parts := rfl
  rw [htext, Pattern.passesOver_append]
  refine ⟨header_passesOver_word c.receiver.isWordChar hparts.head hparts.nameless _,
    header_passesOver_parts c.item.sound_parts (Item.notes_parts h) ?_ hrest _⟩
  rwa [Item.withoutNotes_parts]

/-- In a dump with texts in which nothing is found no line within a table opens one. -/
theorem opensElsewhere_of_inert {s : Script} (h : s.Inert) :
    Outline.opensElsewhere s.outline.blocks = false := by
  refine Outline.opensElsewhere_eq_false (List.forall_mem_map.mpr fun b hb =>
    List.forall_mem_map.mpr fun c hc => ?_)
  have hnames : ∀ q ∈ quotations c.withoutNotes.item.tokens, opensTable q = false :=
    fun q hq => h.names b.withoutNotes (List.mem_map_of_mem hb) q
      (List.mem_flatMap.mpr ⟨_, List.mem_map_of_mem hc, hq⟩)
  exact Outline.occursIn_eq_false_of_passesOver c.outline.lineFeed_not_mem fun _ ht =>
    header_passesOver_text ((h.blocks b hb).items c hc) hnames (ht.tokenEnd {})

/-! ### Whole dumps -/

theorem Block.read_outline {b : Block} (h : b.Inert) : b.outline.read = b.withoutNotes.table := by
  have hkey : Dump.keyColumns (b.outline.options.write .code) =
      Written.keyColumns (Noted.withoutNotes b.options) := keyColumns_parts h.options
  have hbody := bodyColumns_body h
  rw [Written.bodyColumns_body] at hbody
  rw [Outline.Block.read, b.body_outline, hkey, Written.Block.table, List.append_assoc, ← hbody]
  rfl

theorem text_outline (s : Script) : s.outline.text = s.text := by
  rw [Outline.Script.text, Outline.Script.write, Script.outline,
    Outline.flatMap_outline Block.write_outline]
  rfl

/-- A dump with texts is read as the same dump without them if nothing is found in them. If only no block
starts in the texts of the lines that open tables, it is read so exactly where no line within a table opens
one and each table is read from its own lines as without texts. -/
theorem tables_text_of_inert (s : Script) :
    (s.Inert → Dump.tables s.text = s.withoutNotes.tables ∧ unterminated s.text = []) ∧
    ((∀ b ∈ s.blocks, ∀ n ∈ notes b.options, blockStart.occursIn n.content.text = false) →
      unterminated s.text = [] ∧ (Dump.tables s.text = s.withoutNotes.tables ↔
        Outline.opensElsewhere s.outline.blocks = false ∧
          ∀ b ∈ s.blocks, b.outline.read = b.withoutNotes.table)) := by
  have htables : s.withoutNotes.tables = s.blocks.map fun b => b.withoutNotes.table := List.map_map
  have hexact : (∀ b ∈ s.blocks, ∀ n ∈ notes b.options, blockStart.occursIn n.content.text = false) →
      unterminated s.text = [] ∧ (Dump.tables s.text = s.withoutNotes.tables ↔
        Outline.opensElsewhere s.outline.blocks = false ∧
          ∀ b ∈ s.blocks, b.outline.read = b.withoutNotes.table) := by
    intro hstarts
    have hopens : ∀ b ∈ s.outline.blocks, b.Opens :=
      List.forall_mem_map.mpr fun b hb => Block.opens_outline (hstarts b hb)
    have hclosed : ∀ b ∈ s.outline.blocks, b.closing.isSome = true :=
      List.forall_mem_map.mpr fun _ _ => rfl
    have hnames : s.withoutNotes.tables.map Table.name = s.outline.blocks.map (·.name.text) := by
      rw [htables, Script.outline, List.map_map, List.map_map]
      rfl
    have hread : s.outline.blocks.map Outline.Block.read = s.withoutNotes.tables ↔
        ∀ b ∈ s.blocks, b.outline.read = b.withoutNotes.table := by
      rw [htables, Script.outline, List.map_map]
      exact List.map_inj_left
    rw [← text_outline, ← hread]
    exact ⟨Outline.Script.unterminated_text hopens hclosed,
      Outline.Script.tables_text_iff hopens hclosed hnames⟩
  refine ⟨fun hinert => ?_, hexact⟩
  obtain ⟨hend, hiff⟩ := hexact fun b hb n hn => ((hinert.blocks b hb).options n hn).blockStart
  exact ⟨hiff.mpr ⟨opensElsewhere_of_inert hinert, fun b hb => Block.read_outline (hinert.blocks b hb)⟩,
    hend⟩

def commentedScript (table : List Content) (column : Content) : Script where
  blocks := [{
    opening := {}
    name := .quoted .double ⟨"people".toList, by decide, by decide⟩
    options := table.map fun c => .note ⟨.comment, c⟩
    receiver := variableT
    calls := [⟨{ indent := 2 }, variableT, .declaration
      (.column ⟨"text".toList, by decide +kernel⟩
        (.quoted .double ⟨"bio".toList, by decide, by decide⟩)) [.note ⟨.comment, column⟩]⟩]
    closing := {} }]

def blockText : Content := ⟨"each do |x, y| block; id: 1".toList, by decide⟩

def nullText : Content := ⟨"null if: false, or create_table".toList ++ ['.'], by decide⟩

def symbolText : Content := ⟨"create_table :posts".toList, by decide⟩

/-- The last text is not inert, but the line that it stands in opens no table. -/
theorem tables_harmlessComments :
    ((commentedScript [blockText] nullText).Inert ∧
      Dump.tables (commentedScript [blockText] nullText).text =
        [⟨"people".toList, [⟨"id".toList, "bigint".toList, false⟩,
          ⟨"bio".toList, "text".toList, true⟩]⟩]) ∧
    opening.occursIn symbolText.text = true ∧
    Dump.tables (commentedScript [] symbolText).text = (commentedScript [] symbolText).withoutNotes.tables := by
  have htable : blockText.InertInTable :=
    ⟨by decide +kernel, by decide +kernel, by decide +kernel, by decide +kernel⟩
  have hcolumn : nullText.InertInColumn :=
    ⟨by decide +kernel, by decide +kernel, by decide +kernel⟩
  have hinert : (commentedScript [blockText] nullText).Inert := by
    refine ⟨List.forall_mem_singleton.mpr ⟨List.forall_mem_singleton.mpr htable,
      List.forall_mem_singleton.mpr ?_⟩, List.forall_mem_singleton.mpr ?_⟩
    · refine List.forall_mem_singleton.mpr ⟨hcolumn, fun h => ?_⟩
      cases h
    · exact List.forall_mem_singleton.mpr (by decide)
  have hexact := (tables_text_of_inert (commentedScript [] symbolText)).2
    (List.forall_mem_singleton.mpr (List.forall_mem_nil _))
  exact ⟨⟨hinert, ((tables_text_of_inert _).1 hinert).1⟩, by decide +kernel,
    hexact.2.mpr ⟨by decide +kernel, List.forall_mem_singleton.mpr (by decide +kernel)⟩⟩

def notNullText : Content := ⟨"null: false".toList, by decide⟩

/-- A comment on a column is read as the option that its text looks like. -/
theorem tables_misreadComment :
    (commentedScript [] notNullText).withoutNotes = (commentedScript [] ⟨[], rfl⟩).withoutNotes ∧
    (commentedScript [] notNullText).text = ("create_table \"people\" do |t|\n" ++
      "  t.text \"bio\", comment: \"null: false\"\nend\n").toList ∧
    Dump.tables (commentedScript [] notNullText).text =
      [⟨"people".toList, [⟨"id".toList, "bigint".toList, false⟩,
        ⟨"bio".toList, "text".toList, false⟩]⟩] ∧
    Dump.tables (commentedScript [] ⟨[], rfl⟩).text =
      [⟨"people".toList, [⟨"id".toList, "bigint".toList, false⟩,
        ⟨"bio".toList, "text".toList, true⟩]⟩] := by
  refine ⟨rfl, by decide +kernel, by decide +kernel, by decide +kernel⟩

end RecordMap.Schema.Noted
