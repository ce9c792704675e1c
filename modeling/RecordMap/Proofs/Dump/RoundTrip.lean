import RecordMap.Proofs.Dump.Columns
import RecordMap.Proofs.Outline.Tokens

/-! The tables that are read from a dump are the tables that it declares, unless a name in it swallows the
line that opens a table. -/

namespace RecordMap.Schema.Written

open Dump Text

namespace Block

def outline (b : Block) : Outline.Block where
  opening := b.opening
  name := b.name
  options := .tokens (b.options.map TableOption.token) (TableOption.sound_tokens b.options)
  receiver := b.receiver
  lines := Outline.callLines b.calls
  closing := some b.closing

theorem header_outline (view : View) (b : Block) : b.outline.header view = b.header view := by
  rw [Outline.Block.header, header, headTokens, writeTokens_cons]
  rfl

theorem inside_outline (view : View) (b : Block) : b.outline.inside view =
    b.opening.ending.write view ++ b.calls.flatMap (Call.write view) := by
  rw [Outline.Block.inside]
  exact congrArg (_ ++ ·) (List.flatMap_map ..)

theorem write_outline (view : View) (b : Block) : b.outline.write view = b.write view := by
  rw [Outline.Block.write, header_outline, inside_outline, write, remainder, body]
  simp only [Outline.Block.close, outline, Option.elim, List.append_assoc]

theorem body_outline (view : View) (b : Block) : b.outline.body view = b.body view := by
  rw [Outline.Block.body, inside_outline]
  rfl

theorem opens_outline (b : Block) : b.outline.Opens :=
  Outline.opens_of_tokens (TableOption.isOption_tokens b.options) rfl

theorem read_outline (b : Block) : b.outline.read = b.table := by
  have hkey := keyColumns_optionText b.options
  have hbody := bodyColumns_body b
  rw [Outline.Block.read, b.body_outline, table, List.append_assoc, ← hbody, ← hkey]
  rfl

end Block

theorem opensElsewhere_outline (bs : List Block) :
    Outline.opensElsewhere (bs.map Block.outline) = namesSwallowHeader bs := by
  have htokens := Outline.opensElsewhere_tokens (f := Block.outline) (g := id) (fun _ => rfl)
    (fun b => Outline.any_isQuote_headText (TableOption.sound_tokens b.options) rfl) bs
  rwa [List.map_id] at htokens

namespace Script

def outline (s : Script) : Outline.Script := ⟨s.frame, s.blocks.map Block.outline, s.after⟩

theorem text_outline (s : Script) : s.outline.text = s.text := by
  rw [Outline.Script.text, Outline.Script.write, outline, Outline.flatMap_outline Block.write_outline]
  rfl

end Script

/-- Exactly those dumps are read as the tables that they declare in which no name swallows the line that
opens a table, and the blocks of all dumps are found to have an end. -/
theorem tables_text_eq_iff (s : Script) :
    (Dump.tables s.text = s.tables ↔ namesSwallowHeader s.blocks = false) ∧
      unterminated s.text = [] := by
  have hopens : ∀ b ∈ s.outline.blocks, b.Opens :=
    List.forall_mem_map.mpr fun b _ => b.opens_outline
  have hclosed : ∀ b ∈ s.outline.blocks, b.closing.isSome = true :=
    List.forall_mem_map.mpr fun _ _ => rfl
  have hread : s.outline.blocks.map Outline.Block.read = s.tables := by
    rw [Script.outline, List.map_map]
    exact List.map_congr_left fun b _ => b.read_outline
  have hnames : s.tables.map Table.name = s.outline.blocks.map (·.name.text) := by
    rw [← hread, List.map_map]
    rfl
  have htables := Outline.Script.tables_text_iff hopens hclosed hnames
  rw [and_iff_left hread, s.text_outline] at htables
  have hquiet : Outline.opensElsewhere s.outline.blocks = namesSwallowHeader s.blocks :=
    opensElsewhere_outline s.blocks
  have hend := Outline.Script.unterminated_text hopens hclosed
  rw [s.text_outline] at hend
  exact ⟨hquiet ▸ htables, hend⟩

def variableT : Variable := ⟨⟨['t'], by decide, by decide⟩, by decide⟩

def shadowedScript : Script where
  blocks := [
    { opening := {}
      name := .quoted .double ⟨"a".toList, by decide, by decide⟩
      options := []
      receiver := variableT
      calls := [⟨{ indent := 2 }, variableT, .column ⟨"string".toList, by decide +kernel⟩
        (.quoted .double ⟨"create_table".toList, by decide, by decide⟩) []⟩]
      closing := {} },
    { opening := {}
      name := .quoted .double ⟨"posts".toList, by decide, by decide⟩
      options := []
      receiver := variableT
      calls := []
      closing := {} }]

/-- The second table is read under the text from the column's name up to its own. -/
theorem tables_shadowedScript :
    shadowedScript.text = ("create_table \"a\" do |t|\n  t.string \"create_table\"\nend\n" ++
      "create_table \"posts\" do |t|\nend\n").toList ∧
    Dump.tables shadowedScript.text =
      [⟨"a".toList, [⟨"id".toList, "bigint".toList, false⟩,
        ⟨"create_table".toList, "string".toList, true⟩]⟩,
      ⟨"\nend\ncreate_table ".toList, [⟨"id".toList, "bigint".toList, false⟩]⟩] ∧
    Dump.tables shadowedScript.text ≠ shadowedScript.tables := by
  refine ⟨by decide +kernel, by decide +kernel, by decide +kernel⟩

end RecordMap.Schema.Written
