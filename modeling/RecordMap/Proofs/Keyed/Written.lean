import RecordMap.Proofs.Outline.Tokens

/-! Schema dumps in which tables have primary keys of several columns, `primary_key: ["a", "b"]`. Such a
key stands among the options of a table, and its columns are declared in the table's body. -/

namespace RecordMap.Schema.Keyed

open Written Dump Text

structure CompositeKey where
  first : Name
  second : Name
  others : List Name

namespace CompositeKey

def names (k : CompositeKey) : List Name := k.first :: k.second :: k.others

def otherTokens (k : CompositeKey) : List Token :=
  (k.second :: k.others).map (⟨", ".toList, .name ·⟩) ++ [⟨"]".toList, .nothing⟩]

def tokens (k : CompositeKey) : List Token :=
  ⟨", primary_key: [".toList, .name k.first⟩ :: k.otherTokens

end CompositeKey

/-- A table, with its options up to the key if it has one. -/
structure Block where
  table : Written.Block
  key : Option CompositeKey := none
  /-- The options behind the key. -/
  behind : List TableOption := []

namespace Block

def optionTokens (b : Block) : List Token :=
  b.table.options.map TableOption.token ++
    (b.key.elim [] CompositeKey.tokens ++ b.behind.map TableOption.token)

def headTokens (b : Block) : List Token :=
  ⟨"create_table ".toList, .name b.table.name⟩ :: b.optionTokens

def header (view : View) (b : Block) : Text :=
  writeTokens view b.headTokens ++ " do |".toList ++ b.table.receiver.text ++ ['|']

def write (view : View) (b : Block) : Text :=
  b.table.opening.before view ++ b.header view ++ b.table.remainder view

def options (b : Block) : List TableOption := b.table.options ++ b.behind

def withoutKey (b : Block) : Written.Block := { b.table with options := b.options }

/-- The table that a block declares. With a composite key it has the columns of the body and no other. -/
def declared (b : Block) : Table :=
  match b.key with
  | none => b.withoutKey.table
  | some _ => Written.Block.table { b.table with options := [.noKey] }

/-- The table with each name of the key as an option of its own, so that the same names stand in
quotation marks. -/
def spelled (b : Block) : Written.Block :=
  { b.table with options := b.table.options ++
      ((b.key.elim [] fun k => k.names.map TableOption.keyName) ++ b.behind) }

end Block

structure Script where
  frame : Option Frame := none
  blocks : List Block
  after : List Aside := []

namespace Script

def withoutKeys (s : Script) : Written.Script := ⟨s.frame, s.blocks.map Block.withoutKey, s.after⟩

def write (view : View) (s : Script) : Text :=
  s.withoutKeys.top view ++ s.blocks.flatMap (Block.write view) ++ s.withoutKeys.bottom view

def text (s : Script) : Text := s.write .whole

def tables (s : Script) : List Table := s.blocks.map Block.declared

end Script

/-! ### Tokens -/

theorem Token.isOption_of_name {code : Text} (n : Name) (hmem : code ∈ codes)
    (hclosed : code.getLast?.any isKeyChar = false) : Token.IsOption ⟨code, .name n⟩ :=
  ⟨Token.sound_of_closed hmem hclosed,
    (getLast?_of_suffix n.source_ne_nil (List.suffix_append _ _)) ▸ n.getLast?_source⟩

namespace CompositeKey

variable (k : CompositeKey)

theorem forall_mem_otherTokens {P : Token → Prop} (hname : ∀ n, P ⟨", ".toList, .name n⟩)
    (hclose : P ⟨"]".toList, .nothing⟩) : ∀ t ∈ k.otherTokens, P t := by
  intro t ht
  rcases List.mem_append.mp ht with ht | ht
  · obtain ⟨n, _, rfl⟩ := List.mem_map.mp ht
    exact hname n
  · exact List.mem_singleton.mp ht ▸ hclose

theorem isOption_otherTokens : ∀ t ∈ k.otherTokens, t.IsOption :=
  k.forall_mem_otherTokens (fun n => Token.isOption_of_name n (by decide +kernel) (by decide))
    ⟨⟨by decide +kernel, .inl rfl⟩, by decide⟩

theorem isOption_tokens : ∀ t ∈ k.tokens, t.IsOption :=
  List.forall_mem_cons.mpr
    ⟨Token.isOption_of_name k.first (by decide +kernel) (by decide), k.isOption_otherTokens⟩

end CompositeKey

theorem Block.isOption_tokens (b : Block) : ∀ t ∈ b.optionTokens, t.IsOption := by
  intro t ht
  rcases List.mem_append.mp ht with ht | ht
  · exact TableOption.isOption_tokens _ t ht
  · rcases List.mem_append.mp ht with ht | ht
    · cases hkey : b.key with
      | none => rw [hkey] at ht; cases ht
      | some k =>
        rw [hkey] at ht
        exact k.isOption_tokens t ht
    · exact TableOption.isOption_tokens _ t ht

theorem Block.sound_tokens (b : Block) : ∀ t ∈ b.optionTokens, t.Sound :=
  sound_of_isOption b.isOption_tokens

theorem CompositeKey.quotations_tokens (k : CompositeKey) :
    quotations k.tokens = quotations ((k.names.map TableOption.keyName).map TableOption.token) := by
  have hclose : quotations [⟨"]".toList, .nothing⟩] = [] := rfl
  have hnames : (k.names.map TableOption.keyName).map TableOption.token =
      (TableOption.keyName k.first).token ::
        (k.second :: k.others).map (TableOption.token ∘ TableOption.keyName) := by
    rw [List.map_map, names, List.map_cons]
    rfl
  rw [tokens, hnames, quotations_cons, quotations_cons, otherTokens, quotations_append, hclose,
    List.append_nil]
  refine congrArg (_ ++ ·) ?_
  rw [quotations, quotations, List.filterMap_map, List.filterMap_map]
  rfl

theorem Block.quotations_spelled (b : Block) :
    quotations b.spelled.headTokens = quotations b.headTokens := by
  have hkey : quotations (b.key.elim [] CompositeKey.tokens) =
      quotations ((b.key.elim [] fun k => k.names.map TableOption.keyName).map TableOption.token) := by
    cases b.key with
    | none => rfl
    | some k => exact k.quotations_tokens
  rw [Block.headTokens, Written.Block.headTokens, quotations_cons, quotations_cons, Block.optionTokens,
    spelled, List.map_append, List.map_append, quotations_append, quotations_append, quotations_append,
    quotations_append, hkey]

end RecordMap.Schema.Keyed
