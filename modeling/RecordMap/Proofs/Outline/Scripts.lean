import RecordMap.Proofs.Outline.Tables

/-! What is read of a dump: its tables, unless a table is opened elsewhere in it. -/

namespace RecordMap.Schema.Outline

open Written Dump Text Source

/-- The table that is read from the lines of a block. -/
def Block.read (b : Block) : Table where
  name := b.name.text
  columns := Dump.keyColumns (b.options.write .code) ++ bodyColumns (b.body .code) b.receiver.text

namespace Script

variable {s : Script} {before after : List Block} {b : Block} {m : Margin} {u : Text}

/-! ### Bodies -/

/-- The body of a table ends in front of the line that closes it, from wherever in it the search starts. -/
theorem bodyBy?_eq (h : s.blocks = before ++ b :: after) (hclosing : b.closing = some m)
    (hu : u <:+ b.inside .code) : bodyBy? (keyword.all (s.write .bare)) (s.write .code)
      ((s.write .code).length - (u ++ (b.close .code ++ s.rest .code after)).length : Nat) =
        some (u ++ m.before .code) := by
  have hclose : ∀ view, b.inside view ++ (b.close view ++ s.rest view after) =
      (b.inside view ++ m.before view) ++
        ("end".toList ++ (m.ending.write view ++ s.rest view after)) := by
    intro view
    rw [Block.close, hclosing]
    simp only [Option.elim, List.append_assoc]
  obtain ⟨v, hv⟩ := hu
  have hdrop : (b.inside .code ++ m.before .code).drop v.length = u ++ m.before .code := by
    rw [← hv, List.append_assoc, List.drop_left]
  have hstart : (s.write .code).length - (u ++ (b.close .code ++ s.rest .code after)).length =
      (s.above .code before b ++ b.header .code).length + v.length := by
    rw [write_eq h, ← hv]
    simp only [List.length_append]
    omega
  -- No keyword stands in the body, so its end is found from any place in it.
  rw [hstart, write_eq h, write_eq h, hclose, hclose, ← hdrop]
  refine bodyBy?_within ?_ ?_ (b.closed_header _) ?_ ?_ ?_ ?_
  · simp only [List.length_append, s.length_above, b.length_header]
  · simp only [List.length_append, b.length_inside, Margin.before_bare]
  · rw [Margin.before_bare, Pattern.passesOver_append]
    exact ⟨b.keywords_inside _ _, m.isMargin_before.keyword_passesOver _⟩
  · rw [Margin.before_bare]
    exact startsWord_margin b.getLast?_inside m.isMargin_before _
  · rw [Ending.write_bare]
    exact head?_isWordChar (m.ending.head? _)
  · rw [← hv]
    simp only [List.length_append]
    omega

theorem read_match (h : s.blocks = before ++ b :: after) (hclosing : b.closing = some m)
    (hu : u <:+ b.inside .code) (start : Nat) (v : Header) :
    s.read ⟨start, (s.write .code).length - (u ++ (b.close .code ++ s.rest .code after)).length, v⟩ =
      .ok ⟨v.name, Dump.keyColumns v.options ++ bodyColumns (u ++ m.before .code) v.receiver⟩ := by
  rw [read, tableOf, bodyBy?_eq h hclosing hu]

theorem read_closed (h : s.blocks = before ++ b :: after) (hclosing : b.closing = some m) (start : Nat) :
    s.read ⟨start, (s.write .code).length - (b.inside .code ++ (b.close .code ++ s.rest .code after)).length,
      ⟨b.name.text, b.options.write .code, b.receiver.text⟩⟩ = .ok b.read := by
  have hbody : b.body .code = b.inside .code ++ m.before .code := by
    rw [Block.body, hclosing]
    rfl
  rw [read_match h hclosing (List.suffix_refl _), Block.read, hbody]

/-! ### Names -/

def nameRead : Except Unterminated Table → Text
  | .error u => u.table
  | .ok table => table.name

theorem nameRead_read (s : Script) (found : Found Header) : nameRead (s.read found) = found.value.name := by
  rw [read, tableOf]
  split <;> rfl

theorem write_code_eq (s : Script) : s.write .code =
    s.around.top .code ++ codeFrom (s.around.bottom .code) s.blocks := by
  rw [write, codeFrom, List.append_assoc]

theorem finds (hopens : ∀ b ∈ s.blocks, b.Opens) :
    Finds (s.around.bottom .code) (s.write .code).length s.blocks s.blocks
      (opensElsewhere s.blocks = false) (Dump.header.all (s.write .code)) := by
  have hsize : (codeFrom (s.around.bottom .code) s.blocks).length ≤ (s.write .code).length := by
    rw [s.write_code_eq]
    exact (List.suffix_append _ _).length_le
  have htop := Pattern.allIn_of_passesOver (Nat.le_of_eq (congrArg List.length s.write_code_eq.symm))
    (s.around.header_passesOver_top (codeFrom (s.around.bottom .code) s.blocks) none)
  rw [← s.write_code_eq] at htop
  rw [Pattern.all_eq_allIn, htop]
  refine finds_codeFrom s.around.isBottom hopens hsize (fun b tail htail c => ?_) _
  rw [htail] at hopens hsize
  rw [codeFrom_cons] at hsize
  refine finds_inside s.around.isBottom (List.suffix_refl _) (List.forall_mem_cons.mp hopens).2 ?_ c
  exact (List.suffix_append_of_suffix (List.suffix_append _ _)).length_le.trans hsize

theorem readTables_of_quiet (hopens : ∀ b ∈ s.blocks, b.Opens) (h : opensElsewhere s.blocks = false) :
    readTables s.text =
      (openings (s.around.bottom .code) (s.write .code).length s.blocks).map s.read := by
  rw [s.readTables_text, (finds hopens).exact h]

theorem name_of_mem_openings {bottom : Text} {size : Nat} {bs : List Block} {found : Found Header}
    (h : found ∈ openings bottom size bs) : ∃ b : Block, found.value.name = b.name.text := by
  induction bs with
  | nil => cases h
  | cons b bs ih =>
    rcases List.mem_cons.mp h with rfl | h
    · exact ⟨b, rfl⟩
    · exact ih h

/-- No table is opened elsewhere exactly if no name that is read holds a line feed and not more is read
than there are tables. -/
theorem opensElsewhere_eq_false_iff (hopens : ∀ b ∈ s.blocks, b.Opens) :
    opensElsewhere s.blocks = false ↔ (∀ read ∈ readTables s.text, '\n' ∉ nameRead read) ∧
      (readTables s.text).length ≤ s.blocks.length := by
  have hfinds := finds hopens
  constructor
  · intro hquiet
    rw [readTables_of_quiet hopens hquiet, List.length_map, length_openings, List.forall_mem_map]
    refine ⟨fun found hfound => ?_, Nat.le_refl _⟩
    obtain ⟨b, hb⟩ := name_of_mem_openings hfound
    rw [nameRead_read, hb]
    exact b.name.lineFeed_not_mem
  · rw [s.readTables_text, List.length_map, List.forall_mem_map]
    rintro ⟨hnames, hlength⟩
    by_contra hloud
    rcases hfinds.lost hloud with ⟨found, hfound, hname⟩ | hmore
    · exact hnames found hfound (s.nameRead_read found ▸ hname)
    · omega

/-! ### Tables that are closed -/

section

variable (hopens : ∀ b ∈ s.blocks, b.Opens) (hclosed : ∀ b ∈ s.blocks, b.closing.isSome = true)
include hopens hclosed

theorem read_ok : ∀ read ∈ readTables s.text, ∃ table, read = .ok table := by
  intro read hread
  rw [s.readTables_text] at hread
  obtain ⟨⟨start, stop, v⟩, hfound, rfl⟩ := List.mem_map.mp hread
  obtain ⟨rest, hstop, b, after, u, ⟨before, hblocks⟩, hu, rfl⟩ := (finds hopens).lands _ hfound
  obtain ⟨m, hm⟩ := Option.isSome_iff_exists.mp (hclosed b (by rw [← hblocks]; simp))
  obtain rfl : stop = _ := hstop
  exact ⟨_, read_match hblocks.symm hm hu start v⟩

theorem unterminated_text : unterminated s.text = [] := by
  rw [unterminated, List.filterMap_eq_nil_iff]
  intro read hread
  obtain ⟨table, rfl⟩ := read_ok hopens hclosed read hread
  rfl

theorem map_ok_tables : (Dump.tables s.text).map Except.ok = readTables s.text := by
  have hok := read_ok hopens hclosed
  rw [Dump.tables]
  revert hok
  generalize readTables s.text = reads
  intro hok
  induction reads with
  | nil => rfl
  | cons read reads ih =>
    obtain ⟨⟨table, rfl⟩, hreads⟩ := List.forall_mem_cons.mp hok
    exact congrArg (Except.ok table :: ·) (ih hreads)

omit hopens in
theorem map_read_openings {bs : List Block} (h : s.blocks = before ++ bs) :
    (openings (s.around.bottom .code) (s.write .code).length bs).map s.read =
      bs.map fun b => .ok b.read := by
  induction bs generalizing before with
  | nil => rfl
  | cons b bs ih =>
    obtain ⟨m, hm⟩ := Option.isSome_iff_exists.mp (hclosed b (by rw [h]; simp))
    rw [openings, List.map_cons, List.map_cons, @ih (before ++ [b]) (by simp [h])]
    exact congrArg (· :: _) (read_closed h hm _)

theorem tables_of_quiet (h : opensElsewhere s.blocks = false) :
    Dump.tables s.text = s.blocks.map Block.read := by
  have hread := readTables_of_quiet hopens h
  rw [map_read_openings hclosed (List.nil_append _).symm, ← map_ok_tables hopens hclosed,
    ← Function.comp_def, ← List.map_map] at hread
  exact (List.map_inj_right fun _ _ => Except.ok.inj).mp hread

/-- Tables with the names of a dump's are read of it exactly if no table is opened elsewhere and they are
what is read from the lines of each. -/
theorem tables_text_iff {ts : List Table} (hnames : ts.map Table.name = s.blocks.map (·.name.text)) :
    Dump.tables s.text = ts ↔ opensElsewhere s.blocks = false ∧ s.blocks.map Block.read = ts := by
  constructor
  · intro htables
    have hquiet : opensElsewhere s.blocks = false := by
      have hreads := map_ok_tables hopens hclosed
      have hlength := congrArg List.length hnames
      rw [List.length_map, List.length_map] at hlength
      rw [opensElsewhere_eq_false_iff hopens, ← hreads, htables, List.length_map, List.forall_mem_map]
      refine ⟨fun table htable => ?_, hlength.le⟩
      have hname := List.mem_map_of_mem (f := Table.name) htable
      rw [hnames] at hname
      obtain ⟨b, -, hb⟩ := List.mem_map.mp hname
      rw [nameRead, ← hb]
      exact b.name.lineFeed_not_mem
    exact ⟨hquiet, (tables_of_quiet hopens hclosed hquiet).symm.trans htables⟩
  · rintro ⟨hquiet, hread⟩
    rw [tables_of_quiet hopens hclosed hquiet, hread]

end

end Script

end RecordMap.Schema.Outline
