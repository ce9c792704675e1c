import RecordMap.Proofs.Dump.RoundTrip
import RecordMap.Proofs.Outline.Unclosed
import RecordMap.Schema.File

/-! Dumps in which tables are not closed: each of those gives a warning, and all others are read as if it
were closed. -/

namespace RecordMap.Schema.Written

open Dump Text Source

/-! ### Dumps -/

/-- A dump without lines around all tables, in which tables need not be closed. -/
structure Draft where
  pieces : List Piece
  after : List Aside := []

namespace Draft

def bottom (view : View) (d : Draft) : Text := d.after.flatMap (Aside.write view)

def write (view : View) (d : Draft) : Text := d.pieces.flatMap (Piece.write view) ++ d.bottom view

def text (d : Draft) : Text := d.write .whole

def tables (d : Draft) : List Table := (d.pieces.filter Piece.isClosed).map (·.block.table)

/-- The tables that are not closed, each with the line that opens it, where `above` stands in front of
them. -/
def openFrom (above : Text) : List Piece → List Unterminated
  | [] => []
  | p :: ps =>
    let others := openFrom (above ++ p.write .whole) ps
    if p.isClosed then others
    else ⟨p.block.name.text, (above ++ p.block.opening.before .whole).count '\n' + 1⟩ :: others

def warnings (d : Draft) : List Notice :=
  (openFrom [] d.pieces).map fun u => .unterminatedTable u.table u.line

end Draft

def Piece.outline (p : Piece) : Outline.Block :=
  { p.block.outline with closing := if p.isClosed then some p.block.closing else none }

theorem Piece.write_outline (view : View) (p : Piece) : p.outline.write view = p.write view := by
  have hclose : p.outline.close view = p.close view := by
    rw [Outline.Block.close, outline, close]
    cases p.isClosed <;> rfl
  have hheader : p.outline.header view = p.block.header view := p.block.header_outline view
  have hinside : p.outline.inside view = p.block.opening.ending.write view ++
      p.block.calls.flatMap (Call.write view) := p.block.inside_outline view
  rw [Outline.Block.write, hheader, hinside, hclose]
  rfl

namespace Draft

def outline (d : Draft) : Outline.Script := ⟨none, d.pieces.map Piece.outline, d.after⟩

theorem text_outline (d : Draft) : d.outline.text = d.text := by
  rw [Outline.Script.text, Outline.Script.write, outline, Outline.flatMap_outline Piece.write_outline]
  rfl

theorem opens_outline (d : Draft) : ∀ b ∈ d.outline.blocks, b.Opens :=
  List.forall_mem_map.mpr fun p _ => p.block.opens_outline

theorem opensElsewhere_outline (d : Draft) :
    Outline.opensElsewhere d.outline.blocks = namesSwallowHeader (d.pieces.map Piece.block) :=
  Outline.opensElsewhere_tokens (fun _ => rfl)
    (fun p => Outline.any_isQuote_headText (TableOption.sound_tokens p.block.options) rfl) d.pieces

theorem results_outline (above : Text) (ps : List Piece) :
    (Outline.Script.results above (ps.map Piece.outline)).filterMap Except.toOption =
        (ps.filter Piece.isClosed).map (·.block.table) ∧
      ((Outline.Script.results above (ps.map Piece.outline)).filterMap
        fun | .error u => some u | .ok _ => none) = openFrom above ps := by
  induction ps generalizing above with
  | nil => exact ⟨rfl, rfl⟩
  | cons p ps ih =>
    obtain ⟨htables, hopen⟩ := ih (above ++ p.write .whole)
    rw [List.map_cons, Outline.Script.results, p.write_outline, openFrom]
    cases hclosed : p.isClosed with
    | true =>
      have hclosing : p.outline.closing = some p.block.closing := by rw [Piece.outline, hclosed]; rfl
      have hread : p.outline.read = p.block.table := by
        rw [← p.block.read_outline, Outline.Block.read, Outline.Block.read, Outline.Block.body, hclosing]
        rfl
      rw [hclosing, List.filter_cons_of_pos hclosed, List.map_cons, ← htables, Option.elim_some, hread]
      exact ⟨rfl, hopen⟩
    | false =>
      have hclosing : p.outline.closing = none := by rw [Piece.outline, hclosed]; rfl
      rw [hclosing, List.filter_cons_of_neg (by rw [hclosed]; exact Bool.false_ne_true)]
      exact ⟨htables, congrArg (_ :: ·) hopen⟩

theorem mem_openFrom {above : Text} {ps : List Piece} {u : Unterminated} (h : u ∈ openFrom above ps) :
    ∃ p : Piece, u.table = p.block.name.text := by
  induction ps generalizing above with
  | nil => cases h
  | cons p ps ih =>
    rw [openFrom] at h
    split at h
    · exact ih h
    · rcases List.mem_cons.mp h with rfl | h
      · exact ⟨p, rfl⟩
      · exact ih h

theorem length_openFrom (above : Text) (ps : List Piece) :
    (ps.filter Piece.isClosed).length + (openFrom above ps).length = ps.length := by
  induction ps generalizing above with
  | nil => rfl
  | cons p ps ih =>
    have hps := ih (above ++ p.write .whole)
    rw [openFrom, List.length_cons]
    cases hclosed : p.isClosed with
    | true =>
      rw [List.filter_cons_of_pos hclosed, List.length_cons, if_pos rfl]
      omega
    | false =>
      rw [List.filter_cons_of_neg (by rw [hclosed]; exact Bool.false_ne_true),
        if_neg Bool.false_ne_true, List.length_cons]
      omega

theorem length_reads (reads : List (Except Unterminated Table)) :
    (reads.filterMap Except.toOption).length +
      (reads.filterMap fun | .error u => some u | .ok _ => none).length = reads.length := by
  induction reads with
  | nil => rfl
  | cons read reads ih =>
    cases read with
    | ok table | error u =>
      simp only [List.filterMap_cons, Except.toOption, List.length_cons]
      omega

/-- No name that is read of a dump holds a line feed if the tables and the warnings are its own. -/
theorem lineFeed_not_mem {d : Draft} (htables : Dump.tables d.text = d.tables)
    (hopen : unterminated d.text = openFrom [] d.pieces) :
    ∀ read ∈ readTables d.text, '\n' ∉ Outline.Script.nameRead read := by
  intro read hread
  cases read with
  | ok table =>
    have htable : table ∈ d.tables := htables ▸ List.mem_filterMap.mpr ⟨_, hread, rfl⟩
    obtain ⟨p, -, rfl⟩ := List.mem_map.mp htable
    exact p.block.name.lineFeed_not_mem
  | error u =>
    have hu : u ∈ openFrom [] d.pieces := hopen ▸ List.mem_filterMap.mpr ⟨_, hread, rfl⟩
    obtain ⟨p, hp⟩ := mem_openFrom hu
    rw [Outline.Script.nameRead, hp]
    exact p.block.name.lineFeed_not_mem

/-- Exactly those dumps are read as the tables that are closed, with one warning for each of the others, in
which no name swallows the line that opens a table. -/
theorem tablesOf_text_eq_iff (d : Draft) (w : World) :
    tablesOf w d.text = ⟨w, d.tables, d.warnings⟩ ↔
      namesSwallowHeader (d.pieces.map Piece.block) = false := by
  rw [← d.opensElsewhere_outline]
  constructor
  · intro h
    obtain ⟨-, htables, hwarnings⟩ := Outcome.mk.inj h
    have hopen : unterminated d.text = openFrom [] d.pieces := by
      refine (List.map_inj_right fun u u' heq => ?_).mp hwarnings
      cases u
      cases u'
      obtain ⟨rfl, rfl⟩ := Notice.unterminatedTable.inj heq
      rfl
    have hcount : d.tables.length + (openFrom [] d.pieces).length = (readTables d.text).length := by
      rw [← htables, ← hopen]
      exact length_reads _
    rw [tables, List.length_map, length_openFrom] at hcount
    have hblocks : d.outline.blocks.length = d.pieces.length := List.length_map ..
    rw [Outline.Script.opensElsewhere_eq_false_iff d.opens_outline, d.text_outline]
    exact ⟨lineFeed_not_mem htables hopen, by omega⟩
  · intro hquiet
    have hread := Outline.Script.readTables_of_quiet d.opens_outline hquiet
    rw [Outline.Script.map_read_openings_eq_results rfl (List.nil_append _).symm, d.text_outline] at hread
    obtain ⟨hclosed, hopen⟩ := results_outline [] d.pieces
    have htables : Dump.tables d.text = d.tables := by
      rw [Dump.tables, hread]
      exact hclosed
    have hwarnings : unterminated d.text = openFrom [] d.pieces := by
      rw [unterminated, hread]
      exact hopen
    rw [tablesOf, htables, hwarnings, warnings]

def shadowedDraft : Draft where
  pieces := shadowedScript.blocks.zipWith Piece.mk [false, true]

/-- The second table is read under the text from the column's name up to its own. -/
theorem tablesOf_shadowedDraft :
    shadowedDraft.text = ("create_table \"a\" do |t|\n  t.string \"create_table\"\n" ++
      "create_table \"posts\" do |t|\nend\n").toList ∧
    shadowedDraft.tables = [⟨"posts".toList, [⟨"id".toList, "bigint".toList, false⟩]⟩] ∧
    (tablesOf {} shadowedDraft.text).value =
      [⟨"\ncreate_table ".toList, [⟨"id".toList, "bigint".toList, false⟩]⟩] ∧
    (tablesOf {} shadowedDraft.text).notices = [.unterminatedTable "a".toList 1] ∧
    tablesOf {} shadowedDraft.text ≠ ⟨{}, shadowedDraft.tables, shadowedDraft.warnings⟩ := by
  have hdeclared : shadowedDraft.tables =
      [⟨"posts".toList, [⟨"id".toList, "bigint".toList, false⟩]⟩] := by decide +kernel
  have hread : (tablesOf {} shadowedDraft.text).value =
      [⟨"\ncreate_table ".toList, [⟨"id".toList, "bigint".toList, false⟩]⟩] := by decide +kernel
  refine ⟨by decide +kernel, hdeclared, hread, by decide +kernel, fun heq => ?_⟩
  rw [heq, hdeclared] at hread
  revert hread
  decide

end Draft

end RecordMap.Schema.Written
