import RecordMap.Proofs.Dump.RoundTrip
import RecordMap.Proofs.Keyed.Written

/-! The tables that are read from a dump with composite keys. The names of such a key are not read, so that
a table with one is given the key column that tables without a key have. -/

namespace RecordMap.Schema.Keyed

open Written Dump Text

/-! ### Options -/

theorem verbatim_id_firstCode :
    (Pattern.verbatim ("id" ++ ":")).PassesOver none ", primary_key: [".toList [] := by decide

theorem verbatim_id_nextCode :
    (Pattern.verbatim ("id" ++ ":")).PassesOver none ", ".toList [] := by decide

theorem verbatim_primaryKey_nextCode :
    (Pattern.verbatim ("primary_key" ++ ":")).PassesOver none ", ".toList [] := by decide

namespace CompositeKey

variable {k : CompositeKey} {rest : Text}

theorem id_passesOver {α : Type} {value : Text → Option (α × Text)}
    (hrest : rest.head?.any isKeyChar = false) (before : Option Char) :
    (wholeOption "id" value).PassesOver before (writeTokens .code k.tokens) rest := by
  refine wholeOption_passesOver (option_passesOver_tokens isKey_id (sound_of_isOption k.isOption_tokens)
    (List.forall_mem_cons.mpr ⟨?_, k.forall_mem_otherTokens (fun _ => ?_) ?_⟩) hrest before)
  · exact verbatim_id_firstCode
  · exact verbatim_id_nextCode
  · decide

/-- The bracket behind `primary_key:` begins no name, and the other names of the key are not looked at. -/
theorem name_passesOver (hrest : rest.head?.any isKeyChar = false) (before : Option Char) :
    (option "primary_key" name?).PassesOver before (writeTokens .code k.tokens) rest := by
  have hsound := sound_of_isOption k.isOption_otherTokens
  have hhead := head?_writeTokens hsound .code hrest
  rw [tokens, writeTokens_cons, Token.write, Pattern.passesOver_append, Pattern.passesOver_append]
  refine ⟨⟨?_, ?_⟩, option_passesOver_tokens isKey_primaryKey hsound
    (k.forall_mem_otherTokens (fun _ => ?_) ?_) hrest _⟩
  · exact option_passesOver_value " [".toList rfl (by decide) (by decide) (by decide) (by decide)
      rfl before
  · exact option_passesOver_of_verbatim (verbatim_passesOver_argument isKey_primaryKey _ hhead _)
  · exact verbatim_primaryKey_nextCode
  · decide

end CompositeKey

namespace Block

def optionText (b : Block) : Text := writeTokens .code b.optionTokens

theorem keyColumns_optionText (b : Block) :
    Dump.keyColumns b.optionText = Written.keyColumns b.options := by
  have hread : ∀ {β : Type} {p : Pattern β} {f : TableOption → Option β},
      ReadsOptions p TableOption.token f →
      (∀ (k : CompositeKey) {rest : Text}, rest.head?.any isKeyChar = false →
        ∀ before, p.PassesOver before (writeTokens .code k.tokens) rest) →
        p.first? b.optionText = b.options.findSome? f := by
    intro β p f h hkey
    have hbehind : ∀ before, p.firstAfter before (writeTokens .code (b.behind.map TableOption.token)) =
        b.behind.findSome? f := by
      intro before
      have hall : p.firstAfter before
          (writeTokens .code (b.behind.map TableOption.token) ++ []) = b.behind.findSome? f :=
        h.firstAfter_eq b.behind rfl (fun _ => rfl) before
      rwa [List.append_nil] at hall
    have hhead : (writeTokens .code (b.behind.map TableOption.token)).head?.any isKeyChar = false := by
      have hnil : (writeTokens .code (b.behind.map TableOption.token) ++ []).head?.any isKeyChar =
          false := head?_writeTokens (TableOption.sound_tokens b.behind) .code rfl
      rwa [List.append_nil] at hnil
    rw [Pattern.first?, optionText, optionTokens, writeTokens_append, writeTokens_append, options,
      List.findSome?_append]
    cases hb : b.key with
    | none => exact h.firstAfter_append _ hhead hbehind none
    | some k =>
      refine h.firstAfter_append _ ?_ (fun before => ?_) none
      · exact head?_writeTokens (sound_of_isOption k.isOption_tokens) .code hhead
      · exact (Pattern.firstAfter_of_passesOver (hkey k hhead before)).trans (hbehind _)
  have hnoKey : hasNoKey b.optionText = b.options.any TableOption.isNoKey := by
    rw [hasNoKey, Pattern.occursIn, hread readsOptions_noKey fun _ => CompositeKey.id_passesOver,
      isSome_findSome?_ite]
  rw [Dump.keyColumns, Written.keyColumns, hnoKey,
    hread readsOptions_type fun _ => CompositeKey.id_passesOver,
    hread readsOptions_name fun _ => CompositeKey.name_passesOver]

/-! ### Outlines -/

def outline (b : Block) : Outline.Block :=
  { b.table.outline with options := .tokens b.optionTokens b.sound_tokens }

theorem write_outline (view : View) (b : Block) : b.outline.write view = b.write view := by
  have hheader : b.outline.header view = b.header view := by
    rw [Outline.Block.header, header, headTokens, writeTokens_cons]
    rfl
  have hinside : b.outline.inside view = b.table.opening.ending.write view ++
      b.table.calls.flatMap (Call.write view) := b.table.inside_outline view
  rw [Outline.Block.write, hheader, hinside, write, Written.Block.remainder, Written.Block.body]
  simp only [Outline.Block.close, outline, Written.Block.outline, Option.elim, List.append_assoc]

theorem opens_outline (b : Block) : b.outline.Opens := Outline.opens_of_tokens b.isOption_tokens rfl

theorem any_isQuote_outline (b : Block) :
    b.outline.headText.any isQuote = !(quotations b.spelled.headTokens).isEmpty := by
  rw [b.quotations_spelled]
  exact Outline.any_isQuote_headText b.sound_tokens rfl

theorem read_outline (b : Block) : b.outline.read = b.withoutKey.table := by
  have hbody : b.outline.body .code = b.table.body .code := b.table.body_outline .code
  have htable : b.withoutKey.table = ⟨b.table.name.text, Written.keyColumns b.options ++
      bodyColumns (b.table.body .code) b.table.receiver.text⟩ := by
    rw [bodyColumns_body, ← List.append_assoc]
    rfl
  rw [htable, ← b.keyColumns_optionText, Outline.Block.read, hbody]
  rfl

end Block

/-! ### Columns -/

theorem keyColumns_eq_nil_iff (options : List TableOption) :
    Written.keyColumns options = [] ↔ options.any TableOption.isNoKey = true := by
  rw [Written.keyColumns]
  split
  · next hnoKey => exact ⟨fun _ => hnoKey, fun _ => rfl⟩
  · next hnoKey => exact ⟨fun h => absurd h (List.cons_ne_nil _ _), fun h => absurd h hnoKey⟩

theorem nodup_keyColumns (options : List TableOption) :
    ((Written.keyColumns options).map Column.name).Nodup := by
  rw [Written.keyColumns]
  split
  · exact List.nodup_nil
  · exact List.pairwise_singleton _ _

namespace Block

/-- What is read of a table with a composite key besides the columns that it declares: the key column of
a table without one. -/
def extraColumns (b : Block) : List Column := b.key.elim [] fun _ => Written.keyColumns b.options

theorem table_withoutKey (b : Block) :
    b.withoutKey.table = ⟨b.declared.name, b.extraColumns ++ b.declared.columns⟩ := by
  rw [declared, extraColumns]
  cases b.key with
  | none => rfl
  | some k =>
    have hnoKey : Written.keyColumns [.noKey] = [] := rfl
    simp only [Option.elim, Written.Block.table, hnoKey, List.nil_append, List.append_assoc]
    rfl

theorem name_declared (b : Block) : b.declared.name = b.table.name.text := by
  rw [declared]
  cases b.key <;> rfl

theorem extraColumns_eq_nil_iff (b : Block) :
    b.extraColumns = [] ↔ (b.key.isSome = true → b.options.any TableOption.isNoKey = true) := by
  rw [extraColumns]
  cases b.key with
  | none => exact ⟨fun _ h => absurd h Bool.false_ne_true, fun _ => rfl⟩
  | some k =>
    exact (keyColumns_eq_nil_iff b.options).trans ⟨fun h _ => h, fun h => h rfl⟩

theorem nodup_extraColumns (b : Block) : (b.extraColumns.map Column.name).Nodup := by
  rw [extraColumns]
  cases b.key with
  | none => exact List.nodup_nil
  | some k => exact nodup_keyColumns b.options

/-- A name is read twice only if one is declared twice, or the name of the key that the table does not
have. -/
theorem nodup_columns_iff (b : Block) :
    ((b.extraColumns ++ b.declared.columns).map Column.name).Nodup ↔
      (b.declared.columns.map Column.name).Nodup ∧
        ∀ c ∈ b.extraColumns, c.name ∉ b.declared.columns.map Column.name := by
  rw [List.map_append, List.nodup_append, List.forall_mem_map]
  constructor
  · rintro ⟨-, hdeclared, hdistinct⟩
    exact ⟨hdeclared, fun c hc hmem => hdistinct c hc _ hmem rfl⟩
  · rintro ⟨hdeclared, hnotMem⟩
    exact ⟨b.nodup_extraColumns, hdeclared, fun c hc _ hmem heq => hnotMem c hc (heq ▸ hmem)⟩

theorem table_withoutKey_eq_declared_iff (b : Block) :
    b.withoutKey.table = b.declared ↔
      (b.key.isSome = true → b.options.any TableOption.isNoKey = true) := by
  rw [← b.extraColumns_eq_nil_iff, b.table_withoutKey]
  constructor
  · intro htable
    exact List.append_left_eq_self.mp (congrArg Table.columns htable)
  · intro hnil
    rw [hnil]
    rfl

end Block

def Script.outline (s : Script) : Outline.Script := ⟨s.frame, s.blocks.map Block.outline, s.after⟩

namespace Script

variable (s : Script)

theorem text_outline : s.outline.text = s.text := by
  rw [Outline.Script.text, Outline.Script.write, outline, Outline.flatMap_outline Block.write_outline]
  rfl

theorem opens_outline : ∀ b ∈ s.outline.blocks, b.Opens :=
  List.forall_mem_map.mpr fun b _ => b.opens_outline

theorem isSome_closing_outline : ∀ b ∈ s.outline.blocks, b.closing.isSome = true :=
  List.forall_mem_map.mpr fun _ _ => rfl

theorem opensElsewhere_outline :
    Outline.opensElsewhere s.outline.blocks = namesSwallowHeader (s.blocks.map Block.spelled) :=
  Outline.opensElsewhere_tokens (fun _ => rfl) Block.any_isQuote_outline s.blocks

theorem map_read_outline : s.outline.blocks.map Outline.Block.read =
    s.blocks.map fun b => ⟨b.declared.name, b.extraColumns ++ b.declared.columns⟩ := by
  rw [outline, List.map_map]
  exact List.map_congr_left fun b _ => b.read_outline.trans b.table_withoutKey

theorem unterminated_text : unterminated s.text = [] := by
  have hend := Outline.Script.unterminated_text s.opens_outline s.isSome_closing_outline
  rwa [s.text_outline] at hend

end Script

/-- Where no name swallows the line that opens a table, each table is read with the columns that it
declares, and in front of them, if it has a composite key and no `id: false`, with the column of a key that
it does not have. -/
theorem tables_text_eq_declared_iff (s : Script) :
    (namesSwallowHeader (s.blocks.map Block.spelled) = false →
      Dump.tables s.text =
          s.blocks.map (fun b => ⟨b.declared.name, b.extraColumns ++ b.declared.columns⟩) ∧
        unterminated s.text = []) ∧
    (Dump.tables s.text = s.tables ↔ namesSwallowHeader (s.blocks.map Block.spelled) = false ∧
      ∀ b ∈ s.blocks, b.key.isSome = true → b.options.any TableOption.isNoKey = true) ∧
    ∀ b ∈ s.blocks, ((b.extraColumns ++ b.declared.columns).map Column.name).Nodup ↔
      (b.declared.columns.map Column.name).Nodup ∧
        ∀ c ∈ b.extraColumns, c.name ∉ b.declared.columns.map Column.name := by
  have hopens := s.opens_outline
  have hclosed := s.isSome_closing_outline
  refine ⟨fun hkeeps => ⟨?_, s.unterminated_text⟩, ?_, fun b _ => b.nodup_columns_iff⟩
  · rw [← s.opensElsewhere_outline] at hkeeps
    rw [← s.text_outline, Outline.Script.tables_of_quiet hopens hclosed hkeeps, s.map_read_outline]
  · have hnames : s.tables.map Table.name = s.outline.blocks.map (·.name.text) := by
      rw [Script.tables, Script.outline, List.map_map, List.map_map]
      exact List.map_congr_left fun b _ => b.name_declared
    rw [← s.text_outline, Outline.Script.tables_text_iff hopens hclosed hnames, s.opensElsewhere_outline,
      s.map_read_outline, Script.tables]
    refine and_congr_right fun _ => List.map_inj_left.trans (forall_congr' fun b => forall_congr' fun _ => ?_)
    rw [← b.table_withoutKey]
    exact b.table_withoutKey_eq_declared_iff

def userId : Name := .quoted .double ⟨"user_id".toList, by decide, by decide⟩

def groupId : Name := .quoted .double ⟨"group_id".toList, by decide, by decide⟩

def membershipsScript : Script where
  blocks := [{
    table := {
      opening := {}
      name := .quoted .double ⟨"memberships".toList, by decide, by decide⟩
      options := []
      receiver := variableT
      calls := [
        ⟨{ indent := 2 }, variableT, .column ⟨"bigint".toList, by decide +kernel⟩ userId [.notNull]⟩,
        ⟨{ indent := 2 }, variableT, .column ⟨"bigint".toList, by decide +kernel⟩ groupId [.notNull]⟩]
      closing := {} }
    key := some ⟨userId, groupId, []⟩ }]

/-- The table is read with a column `id` that it does not have. -/
theorem tables_membershipsScript :
    membershipsScript.text = ("create_table \"memberships\", " ++
      "primary_key: [\"user_id\", \"group_id\"] do |t|\n" ++
      "  t.bigint \"user_id\", null: false\n  t.bigint \"group_id\", null: false\nend\n").toList ∧
    membershipsScript.tables =
      [⟨"memberships".toList, [⟨"user_id".toList, "bigint".toList, false⟩,
        ⟨"group_id".toList, "bigint".toList, false⟩]⟩] ∧
    Dump.tables membershipsScript.text =
      [⟨"memberships".toList, [⟨"id".toList, "bigint".toList, false⟩,
        ⟨"user_id".toList, "bigint".toList, false⟩,
        ⟨"group_id".toList, "bigint".toList, false⟩]⟩] := by
  refine ⟨by decide +kernel, by decide +kernel, by decide +kernel⟩

end RecordMap.Schema.Keyed
