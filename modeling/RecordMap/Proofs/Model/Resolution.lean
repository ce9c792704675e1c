import RecordMap.Model.Resolution
import RecordMap.Proofs.Model.Ownership
import RecordMap.Proofs.Syntax.Calls

/-! A relation name resolves to the column of that name, or else to what the first declaration of
that name says whose key is a column. -/

namespace RecordMap.Model

open Syntax

/-! ### Options -/

/-- `name: value`, `:name => value` or `"name": value`. -/
structure IsOption (pair : Node) (name : Text) (value : Node) : Prop where
  value : pair.child? "value" = some value
  key : ∃ key, pair.child? "key" = some key ∧ key.Denotes name ∧
    (key.kind ≠ "string" ∨ ∀ c ∈ pair.children, c.kind ≠ "=>")

inductive FirstOption (name : Text) (value : Node) : List Node → Prop where
  | here {pair : Node} {rest : List Node} (h : IsOption pair name value) :
      FirstOption name value (pair :: rest)
  | there {pair : Node} {rest : List Node} (hpair : ∀ v, ¬ IsOption pair name v)
      (h : FirstOption name value rest) : FirstOption name value (pair :: rest)

variable {n pair value call : Node} {name key : Text}

theorem hasSymbolKey_iff {k : Node} (hname : k.Denotes name) :
    hasSymbolKey pair k = true ↔ (k.kind ≠ "string" ∨ ∀ c ∈ pair.children, c.kind ≠ "=>") := by
  unfold hasSymbolKey Node.isSymbol
  cases hname with
  | quoted hkind _ => rcases hkind with hkind | hkind <;> simp [hkind, Node.is]
  | symbol hkind => simp [hkind]
  | key hkind => simp [hkind]

theorem option?_eq_some_iff : option? pair = some (name, value) ↔ IsOption pair name value := by
  unfold option?
  constructor
  · intro h
    obtain ⟨k, hkey, h⟩ := Option.bind_eq_some_iff.mp h
    obtain ⟨v, hvalue, h⟩ := Option.bind_eq_some_iff.mp h
    obtain ⟨hsymbol, h⟩ := Option.ite_none_right_eq_some.mp h
    obtain ⟨t, ht, heq⟩ := Option.bind_eq_some_iff.mp h
    cases heq
    have hdenotes := Node.textLiteral?_eq_some_iff.mp ht
    exact ⟨hvalue, k, hkey, hdenotes, (hasSymbolKey_iff hdenotes).mp hsymbol⟩
  · rintro ⟨hvalue, k, hkey, hdenotes, hsymbol⟩
    have ht := Node.textLiteral?_eq_some_iff.mpr hdenotes
    simp [hvalue, hkey, (hasSymbolKey_iff hdenotes).mpr hsymbol, ht]

theorem lookup_filter_ne {k k' : Text} (h : k ≠ k') (l : List (Text × Node)) :
    (l.filter (·.1 != k')).lookup k = l.lookup k := by
  induction l with
  | nil => rfl
  | cons entry l ih =>
    rw [List.filter_cons]
    split
    case isTrue _ => rw [List.lookup_cons, List.lookup_cons, ih]
    case isFalse hdropped =>
      have hkey : entry.1 = k' := by simpa using hdropped
      rw [List.lookup_cons, hkey, beq_eq_false_iff_ne.mpr h, ih]

theorem lookup_firstOfEach (l : List (Text × Node)) (k : Text) :
    (firstOfEach l).lookup k = l.lookup k := by
  induction l with
  | nil => rfl
  | cons entry l ih =>
    rw [firstOfEach, List.lookup_cons, List.lookup_cons]
    by_cases hk : k = entry.1
    · rw [hk, beq_self_eq_true]
    · rw [beq_eq_false_iff_ne.mpr hk]
      exact (lookup_filter_ne hk _).trans ih

theorem firstOption_cons_iff {rest : List Node} :
    FirstOption name value (pair :: rest) ↔
      IsOption pair name value ∨ (∀ v, ¬ IsOption pair name v) ∧ FirstOption name value rest := by
  constructor
  · rintro (h | ⟨hpair, h⟩)
    · exact .inl h
    · exact .inr ⟨hpair, h⟩
  · rintro (h | ⟨hpair, h⟩)
    · exact .here h
    · exact .there hpair h

theorem lookup_options_iff :
    (options call).lookup name = some value ↔ FirstOption name value (optionPairs call) := by
  unfold options
  rw [lookup_firstOfEach]
  induction optionPairs call with
  | nil =>
    constructor
    · intro h
      cases h
    · intro h
      cases h
  | cons pair rest ih =>
    rw [firstOption_cons_iff, ← ih, List.filterMap_cons]
    simp only [← option?_eq_some_iff]
    cases hoption : option? pair with
    | none => simp
    | some entry =>
      obtain ⟨k, v⟩ := entry
      by_cases hk : name = k
      · subst hk
        simp
      · have hne : k ≠ name := fun h => hk h.symm
        simp [List.lookup_cons, beq_eq_false_iff_ne.mpr hk, hne]

/-! ### Declarations -/

/-- The call declares that a record belongs to another one by a key: by the literal of its option,
or else by the conventional one. -/
structure Declares (call : Node) (name key : Text) : Prop where
  named : Node.BareCall "belongs_to" call name
  key : (∃ value, FirstOption "foreign_key".toList value (optionPairs call) ∧ value.Denotes key) ∨
    (∀ value, FirstOption "foreign_key".toList value (optionPairs call) → ∀ t, ¬ value.Denotes t) ∧
      key = name ++ "_id".toList

def IsPolymorphic (call : Node) : Prop :=
  ∃ value, FirstOption "polymorphic".toList value (optionPairs call) ∧ value.kind = "true"

theorem bareCall_iff {method : String} :
    Node.BareCall method n name ↔
      n.kind = "call" ∧ n.methodName? = some method.toList ∧ n.receiver? = none ∧
        n.firstText? = some name := by
  unfold Node.methodName? Node.receiver? Node.firstText? Node.calledName?
  constructor
  · rintro ⟨hkind, ⟨m, hmethod, htext⟩, hreceiver, v, hfirst, hdenotes⟩
    have hargument := (Node.hasFirst_iff hkind).mp hfirst
    have hliteral := Node.textLiteral?_eq_some_iff.mpr hdenotes
    simp [Node.is_iff.mpr hkind, hkind, hmethod, htext, hreceiver, hargument, hliteral]
  · rintro ⟨hkind, hmethod, hreceiver, hname⟩
    rw [if_pos (Node.is_iff.mpr hkind)] at hmethod hreceiver
    obtain ⟨v, hargument, hliteral⟩ := Option.bind_eq_some_iff.mp hname
    have hfirst := (Node.hasFirst_iff hkind).mpr hargument
    exact ⟨hkind, Option.map_eq_some_iff.mp hmethod, hreceiver, v, hfirst,
      Node.textLiteral?_eq_some_iff.mp hliteral⟩

theorem declaresAssociation_iff :
    declaresAssociation n = true ∧ n.firstText? = some name ↔ Node.BareCall "belongs_to" n name := by
  unfold declaresAssociation
  rw [bareCall_iff]
  constructor
  · rintro ⟨hdeclares, hname⟩
    simp only [Bool.and_eq_true, Node.is_iff, beq_iff_eq, Option.isNone_iff_eq_none] at hdeclares
    obtain ⟨⟨⟨hkind, hmethod⟩, hreceiver⟩, -⟩ := hdeclares
    exact ⟨hkind, hmethod, hreceiver, hname⟩
  · rintro ⟨hkind, hmethod, hreceiver, hname⟩
    simp [Node.is_iff.mpr hkind, hmethod, hreceiver, hname]

theorem optionValue?_eq_some_iff {option : String} {l : Literal} :
    optionValue? call option = some l ↔
      ∃ value, FirstOption option.toList value (optionPairs call) ∧ value.literal? = some l := by
  unfold optionValue?
  rw [Option.bind_eq_some_iff]
  simp only [lookup_options_iff]

theorem optionText?_eq_some_iff {option : String} {t : Text} :
    (optionValue? call option).bind Literal.text? = some t ↔
      ∃ value, FirstOption option.toList value (optionPairs call) ∧ value.Denotes t := by
  simp only [← lookup_options_iff, ← Node.textLiteral?_eq_some_iff]
  unfold optionValue? Node.textLiteral?
  rw [Option.bind_assoc, Option.bind_eq_some_iff]

namespace Association

variable {a : Association}

theorem name_of_ofCall? (h : ofCall? call = some a) : call.firstText? = some a.name := by
  obtain ⟨t, ht, rfl⟩ := Option.map_eq_some_iff.mp h
  exact ht

theorem foreignKey_of_ofCall? (h : ofCall? call = some a) :
    a.foreignKey = (optionValue? call "foreign_key").bind Literal.text? := by
  obtain ⟨t, -, rfl⟩ := Option.map_eq_some_iff.mp h
  rfl

theorem polymorphic_iff_of_ofCall? (h : ofCall? call = some a) :
    a.polymorphic = true ↔ IsPolymorphic call := by
  obtain ⟨t, -, rfl⟩ := Option.map_eq_some_iff.mp h
  rw [beq_iff_eq, optionValue?_eq_some_iff]
  unfold IsPolymorphic
  simp only [Node.literal?_eq_true_iff]

theorem key_eq_iff_of_ofCall? (h : ofCall? call = some a) :
    a.key = key ↔
      (∃ value, FirstOption "foreign_key".toList value (optionPairs call) ∧ value.Denotes key) ∨
      (∀ value, FirstOption "foreign_key".toList value (optionPairs call) →
        ∀ t, ¬ value.Denotes t) ∧ key = a.name ++ "_id".toList := by
  unfold Association.key conventionalKey
  rw [foreignKey_of_ofCall? h]
  cases hoption : (optionValue? call "foreign_key").bind Literal.text? with
  | none =>
    have hnone : ∀ t, ¬ ∃ value,
        FirstOption "foreign_key".toList value (optionPairs call) ∧ value.Denotes t := by
      intro t ht
      rw [← optionText?_eq_some_iff, hoption] at ht
      cases ht
    rw [Option.getD_none]
    constructor
    · rintro rfl
      exact .inr ⟨fun value hvalue t ht => hnone t ⟨value, hvalue, ht⟩, rfl⟩
    · rintro (hkey | ⟨-, rfl⟩)
      · exact absurd hkey (hnone key)
      · rfl
  | some t =>
    have hoption' := hoption
    rw [optionText?_eq_some_iff] at hoption'
    obtain ⟨value, hvalue, ht⟩ := hoption'
    rw [Option.getD_some, ← optionText?_eq_some_iff, hoption, Option.some.injEq]
    constructor
    · exact .inl
    · rintro (hkey | ⟨hnone, -⟩)
      · exact hkey
      · exact absurd ht (hnone value hvalue t)

end Association

theorem declares_iff :
    Declares call name key ↔
      declaresAssociation call = true ∧
        ∃ a, Association.ofCall? call = some a ∧ a.name = name ∧ a.key = key := by
  constructor
  · rintro ⟨hnamed, hkey⟩
    obtain ⟨hdeclares, hname⟩ := declaresAssociation_iff.mpr hnamed
    obtain ⟨a, ha⟩ : ∃ a, Association.ofCall? call = some a := by
      unfold Association.ofCall?
      rw [hname]
      exact ⟨_, rfl⟩
    have haname : a.name = name := by
      have hcall := Association.name_of_ofCall? ha
      rw [hname] at hcall
      exact (Option.some.inj hcall).symm
    refine ⟨hdeclares, a, ha, haname, ?_⟩
    rw [Association.key_eq_iff_of_ofCall? ha, haname]
    exact hkey
  · rintro ⟨hdeclares, a, ha, rfl, hkey⟩
    refine ⟨declaresAssociation_iff.mp ⟨hdeclares, Association.name_of_ofCall? ha⟩, ?_⟩
    exact (Association.key_eq_iff_of_ofCall? ha).mp hkey

/-! ### Resolution -/

/-- The call at the place is the first one below the class that declares the name by a key which is
a column of the table. -/
structure Decides (c : Place) (t : Table) (name : Text) (p : Place) (key : Text) : Prop where
  below : p ∈ c.below
  declares : Declares p.node name key
  column : key ∈ t.columnNames
  first : ∀ q ∈ c.below, q.index < p.index → ∀ k, Declares q.node name k → k ∉ t.columnNames

/-- What a name stands for in a class with or without a table. -/
inductive Resolves (c : Place) (name : Text) : Option Table → Option Resolved → Prop where
  | withoutTable : Resolves c name none none
  | column {t : Table} (hcolumn : name ∈ t.columnNames) : Resolves c name (some t) (some (.single name))
  | key {t : Table} {p : Place} {key : Text} (hcolumn : name ∉ t.columnNames)
      (hdecides : Decides c t name p key) (hsingle : ¬ IsPolymorphic p.node) :
      Resolves c name (some t) (some (.single key))
  | keyAndType {t : Table} {p : Place} {key : Text} (hcolumn : name ∉ t.columnNames)
      (hdecides : Decides c t name p key) (hpolymorphic : IsPolymorphic p.node) :
      Resolves c name (some t) (some (.several [key, name ++ "_type".toList]))
  | nothing {t : Table} (hcolumn : name ∉ t.columnNames)
      (hnone : ∀ p ∈ c.below, ∀ key, Declares p.node name key → key ∉ t.columnNames) :
      Resolves c name (some t) none

variable {c p : Place} {t t' : Table} {table : Option Table} {r : Option Resolved}

def decides (t : Table) (name : Text) (n : Node) : Bool :=
  declaresAssociation n &&
    (Association.ofCall? n).any fun a => a.name == name && t.hasColumn a.key

theorem decides_iff :
    decides t name n = true ↔ ∃ key, Declares n name key ∧ key ∈ t.columnNames := by
  unfold decides
  simp only [Bool.and_eq_true, Option.any_eq_true, beq_iff_eq, Table.hasColumn_iff, declares_iff]
  constructor
  · rintro ⟨hdeclares, a, ha, hname, hkey⟩
    exact ⟨a.key, ⟨hdeclares, a, ha, hname, rfl⟩, hkey⟩
  · rintro ⟨key, ⟨hdeclares, a, ha, hname, rfl⟩, hkey⟩
    exact ⟨hdeclares, a, ha, hname, hkey⟩

theorem findFirst?_decides (h : Decides c t name p key) :
    c.findFirst? (fun q => decides t name q.node) = some p := by
  rw [Place.findFirst?_eq_some_iff]
  refine ⟨h.below, decides_iff.mpr ⟨key, h.declares, h.column⟩, fun q hq hlt => ?_⟩
  apply Bool.eq_false_iff.mpr
  intro hdecides
  obtain ⟨k, hk, hcolumn⟩ := decides_iff.mp hdecides
  exact h.first q hq hlt k hk hcolumn

theorem exists_decides (h : c.findFirst? (fun q => decides t name q.node) = some p) :
    ∃ key, Decides c t name p key := by
  obtain ⟨hbelow, hdecides, hfirst⟩ := Place.findFirst?_eq_some_iff.mp h
  obtain ⟨key, hdeclares, hcolumn⟩ := decides_iff.mp hdecides
  refine ⟨key, hbelow, hdeclares, hcolumn, fun q hq hlt k hk hkcolumn => ?_⟩
  have hpassed := hfirst q hq hlt
  rw [decides_iff.mpr ⟨k, hk, hkcolumn⟩] at hpassed
  cases hpassed

theorem find?_associations (c : Place) (test : Association → Bool) :
    (associations c).find? test =
      (c.findFirst? fun p => declaresAssociation p.node && (Association.ofCall? p.node).any test).bind
        fun p => Association.ofCall? p.node := by
  have hcalls : associations c = (c.findAll fun p => declaresAssociation p.node).filterMap
      fun p => Association.ofCall? p.node := by
    unfold associations declarations
    rw [List.map_filterMap]
    simp [Function.comp_def]
  rw [hcalls, List.find?_filterMap, Place.findAll, List.find?_filter]
  simp [Place.findFirst?, Bool.decide_and]

theorem resolveIn_column (hcolumn : name ∈ t.columnNames) :
    resolveIn c (some t) name = some (.single name) := by
  unfold resolveIn resolve
  rw [Option.bind_some, if_pos (Table.hasColumn_iff.mpr hcolumn)]

theorem resolveIn_eq (hcolumn : name ∉ t.columnNames) :
    resolveIn c (some t) name =
      ((c.findFirst? fun p => decides t name p.node).bind fun p => Association.ofCall? p.node).map
        Association.resolved := by
  unfold resolveIn resolve
  rw [Option.bind_some, if_neg (mt Table.hasColumn_iff.mp hcolumn), find?_associations]
  rfl

theorem resolveIn_of_decides (hcolumn : name ∉ t.columnNames) (h : Decides c t name p key) :
    (IsPolymorphic p.node →
      resolveIn c (some t) name = some (.several [key, name ++ "_type".toList])) ∧
    (¬ IsPolymorphic p.node → resolveIn c (some t) name = some (.single key)) := by
  obtain ⟨-, a, ha, rfl, rfl⟩ := declares_iff.mp h.declares
  rw [resolveIn_eq hcolumn, findFirst?_decides h, Option.bind_some, ha, Option.map_some,
    ← Association.polymorphic_iff_of_ofCall? ha]
  unfold Association.resolved
  constructor
  · intro hpolymorphic
    rw [if_pos hpolymorphic]
    rfl
  · intro hsingle
    rw [if_neg hsingle]

theorem resolves_resolveIn (c : Place) (table : Option Table) (name : Text) :
    Resolves c name table (resolveIn c table name) := by
  cases table with
  | none => exact .withoutTable
  | some t =>
    by_cases hcolumn : name ∈ t.columnNames
    · rw [resolveIn_column hcolumn]
      exact .column hcolumn
    · cases hfound : c.findFirst? fun p => decides t name p.node with
      | none =>
        rw [resolveIn_eq hcolumn, hfound]
        apply Resolves.nothing hcolumn
        intro p hp key hdeclares hkey
        exact List.find?_eq_none.mp hfound p hp (decides_iff.mpr ⟨key, hdeclares, hkey⟩)
      | some p =>
        obtain ⟨key, hdecides⟩ := exists_decides hfound
        obtain ⟨hpolymorphic, hsingle⟩ := resolveIn_of_decides hcolumn hdecides
        by_cases hp : IsPolymorphic p.node
        · rw [hpolymorphic hp]
          exact .keyAndType hcolumn hdecides hp
        · rw [hsingle hp]
          exact .key hcolumn hdecides hp

theorem Resolves.resolveIn_eq (h : Resolves c name table r) : resolveIn c table name = r := by
  cases h with
  | withoutTable => rfl
  | column hcolumn => exact resolveIn_column hcolumn
  | key hcolumn hdecides hsingle => exact (resolveIn_of_decides hcolumn hdecides).2 hsingle
  | keyAndType hcolumn hdecides hpolymorphic =>
    exact (resolveIn_of_decides hcolumn hdecides).1 hpolymorphic
  | @nothing t hcolumn hnone =>
    have hfound : (c.findFirst? fun p => decides t name p.node) = none := by
      apply List.find?_eq_none.mpr
      intro p hp hdecides
      obtain ⟨key, hdeclares, hkey⟩ := decides_iff.mp hdecides
      exact hnone p hp key hdeclares hkey
    rw [Model.resolveIn_eq hcolumn, hfound]
    rfl

/-! ### Consequences -/

theorem resolveIn_congr (h : ∀ column, column ∈ t.columnNames ↔ column ∈ t'.columnNames) :
    resolveIn c (some t) name = resolveIn c (some t') name := by
  have hcolumns : t.hasColumn = t'.hasColumn := by
    funext column
    rw [Bool.eq_iff_iff, Table.hasColumn_iff, Table.hasColumn_iff]
    exact h column
  unfold resolveIn resolve
  rw [Option.bind_some, Option.bind_some, hcolumns]

theorem isSome_resolveIn_iff :
    (resolveIn c (some t) name).isSome = true ↔
      name ∈ t.columnNames ∨
        ∃ p ∈ c.below, ∃ key, Declares p.node name key ∧ key ∈ t.columnNames := by
  have hresolves := resolves_resolveIn c (some t) name
  constructor
  · intro hsome
    generalize resolveIn c (some t) name = r at hresolves hsome
    cases hresolves with
    | column hcolumn => exact .inl hcolumn
    | key _ hdecides _ => exact .inr ⟨_, hdecides.below, _, hdecides.declares, hdecides.column⟩
    | keyAndType _ hdecides _ =>
      exact .inr ⟨_, hdecides.below, _, hdecides.declares, hdecides.column⟩
    | nothing _ _ => cases hsome
  · intro hcolumn
    generalize resolveIn c (some t) name = r at hresolves ⊢
    cases hresolves with
    | nothing hname hnone =>
      rcases hcolumn with hcolumn | ⟨p, hp, key, hdeclares, hkey⟩
      · exact absurd hcolumn hname
      · exact absurd hkey (hnone p hp key hdeclares)
    | _ => rfl

theorem Resolves.head_mem {resolved : Resolved} (h : Resolves c name (some t) (some resolved)) :
    ∃ column ∈ t.columnNames, resolved.columns.head? = some column := by
  cases h with
  | column hcolumn => exact ⟨name, hcolumn, rfl⟩
  | key _ hdecides _ => exact ⟨_, hdecides.column, rfl⟩
  | keyAndType _ hdecides _ => exact ⟨_, hdecides.column, rfl⟩

/-- A relation name stands for the column of that name, or else for the key, with the type column if
there is one, that the first call declares which declares the name by a column. So only the set of
the columns matters, what is found first is a column, and a name that stands for something does so
in a table with more columns. -/
theorem resolveIn_decided_by_first_column (c : Place) (name : Text) :
    (∀ table r, resolveIn c table name = r ↔ Resolves c name table r) ∧
    (∀ t t' : Table, (∀ column, column ∈ t.columnNames ↔ column ∈ t'.columnNames) →
      resolveIn c (some t) name = resolveIn c (some t') name) ∧
    (∀ t resolved, resolveIn c (some t) name = some resolved →
      ∃ column ∈ t.columnNames, resolved.columns.head? = some column) ∧
    ∀ t t' : Table, t.columnNames ⊆ t'.columnNames →
      (resolveIn c (some t) name).isSome = true → (resolveIn c (some t') name).isSome = true := by
  refine ⟨fun table r => ⟨?_, Resolves.resolveIn_eq⟩, fun t t' => resolveIn_congr, ?_, ?_⟩
  · rintro rfl
    exact resolves_resolveIn c table name
  · intro t resolved h
    have hresolves := resolves_resolveIn c (some t) name
    rw [h] at hresolves
    exact hresolves.head_mem
  · intro t t' hsubset h
    rw [isSome_resolveIn_iff] at h ⊢
    rcases h with hcolumn | ⟨p, hp, key, hdeclares, hkey⟩
    · exact .inl (hsubset hcolumn)
    · exact .inr ⟨p, hp, key, hdeclares, hsubset hkey⟩

/-- The class in `class Picture; belongs_to :owner, foreign_key: :holder_id; belongs_to :owner,
polymorphic: true; end`. -/
def pictureClass : Place :=
  let holder := plainNode "pair" none "foreign_key: :holder_id"
    [plainNode "hash_key_symbol" (some "key") "foreign_key" [],
      plainNode "simple_symbol" (some "value") ":holder_id" []]
  let polymorphic := plainNode "pair" none "polymorphic: true"
    [plainNode "hash_key_symbol" (some "key") "polymorphic" [],
      plainNode "true" (some "value") "true" []]
  .top (plainNode "class" none "class Picture"
    [plainNode "constant" (some "name") "Picture" [],
      plainNode "body_statement" (some "body") "belongs_to :owner"
        [belongsToCall "owner" [holder], belongsToCall "owner" [polymorphic]]])

def picturesTable : Table where
  name := "pictures".toList
  columns := [{ name := "id".toList }, { name := "owner_id".toList }]

/-- The first declaration is passed over, as its key is no column. That of the second one is, even
though the column for the owner's type is missing. -/
theorem resolves_pictureClass :
    Resolves pictureClass "owner".toList (some picturesTable)
        (some (.several ["owner_id".toList, "owner_type".toList])) ∧
      "owner_type".toList ∉ picturesTable.columnNames :=
  ⟨((resolveIn_decided_by_first_column pictureClass "owner".toList).1 _ _).mp (by decide +kernel),
    by decide +kernel⟩

end RecordMap.Model
