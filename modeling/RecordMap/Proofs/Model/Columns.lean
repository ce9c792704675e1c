import RecordMap.Proofs.Model.Ownership

/-! The columns in an entry: each association shows those of the first declaration of its name whose key
is a column, and so its own ones exactly where the declarations of its name agree. -/

namespace RecordMap.Model

open Syntax

namespace Association

/-- What an association declares, as far as the table has it: its key, with the column for the other
record's type if it is polymorphic. -/
def expected (t : Table) (a : Association) : List Text :=
  if t.hasColumn a.key then if a.polymorphic then [a.key, a.typeColumn] else [a.key] else []

variable {t : Table} {a b : Association}

theorem columns_resolved (h : t.hasColumn a.key = true) : a.resolved.columns = a.expected t := by
  rw [expected, if_pos h, resolved]
  cases a.polymorphic <;> rfl

theorem expected_eq_nil (h : t.hasColumn a.key = false) : a.expected t = [] := by
  rw [expected, h, if_neg Bool.false_ne_true]

theorem head?_expected (h : t.hasColumn a.key = true) : (a.expected t).head? = some a.key := by
  rw [expected, if_pos h]
  cases a.polymorphic <;> rfl

theorem length_expected (h : t.hasColumn a.key = true) :
    (a.expected t).length = if a.polymorphic then 2 else 1 := by
  rw [expected, if_pos h]
  cases a.polymorphic <;> rfl

theorem expected_eq_iff (hname : a.name = b.name) :
    a.expected t = b.expected t ↔
      (t.hasColumn a.key = false ∧ t.hasColumn b.key = false) ∨
        (t.hasColumn a.key = true ∧ a.key = b.key ∧ a.polymorphic = b.polymorphic) := by
  have htype : a.typeColumn = b.typeColumn := by rw [typeColumn, typeColumn, hname]
  rw [expected, expected, htype]
  cases ha : t.hasColumn a.key with
  | false =>
    cases hb : t.hasColumn b.key with
    | false => simp
    | true => cases b.polymorphic <;> simp
  | true =>
    by_cases hkey : a.key = b.key
    · rw [← hkey, ha]
      cases a.polymorphic <;> cases b.polymorphic <;> simp
    · cases t.hasColumn b.key <;> cases a.polymorphic <;> cases b.polymorphic <;> simp [hkey]

end Association

variable {t : Table} {associations : List Association} {name : Text}

/-- The first declaration of a name whose key is a column decides for the name. -/
theorem columnsOf_resolve_cases (hname : t.hasColumn name = false) :
    (∃ b ∈ associations, b.name = name ∧
        Resolved.columnsOf (resolve associations t name) = b.expected t) ∨
      (Resolved.columnsOf (resolve associations t name) = [] ∧
        ∀ b ∈ associations, b.name = name → b.expected t = []) := by
  rw [resolve, hname, if_neg Bool.false_ne_true]
  cases hfound : associations.find? fun a => a.name == name && t.hasColumn a.key with
  | some b =>
    have hdecides := List.find?_some hfound
    simp only [Bool.and_eq_true, beq_iff_eq] at hdecides
    obtain ⟨hb, hkey⟩ := hdecides
    exact .inl ⟨b, List.mem_of_find?_eq_some hfound, hb, Association.columns_resolved hkey⟩
  | none =>
    refine .inr ⟨rfl, fun b hmem hb => Association.expected_eq_nil (Bool.eq_false_iff.mpr fun hkey => ?_)⟩
    exact List.find?_eq_none.mp hfound b hmem (by rw [hb, beq_self_eq_true, hkey, Bool.and_self])

theorem forall_columnsOf_eq_iff (hname : t.hasColumn name = false) :
    (∀ a ∈ associations, a.name = name →
        Resolved.columnsOf (resolve associations t name) = a.expected t) ↔
      ∀ a ∈ associations, ∀ b ∈ associations, a.name = name → b.name = name →
        a.expected t = b.expected t := by
  constructor
  · intro h a ha b hb hna hnb
    rw [← h a ha hna, h b hb hnb]
  · intro h a ha hna
    have hcases := @columnsOf_resolve_cases t associations name hname
    rcases hcases with ⟨b, hb, hnb, hcolumns⟩ | ⟨hcolumns, hnone⟩
    · rw [hcolumns, h b hb a ha hnb hna]
    · rw [hcolumns, hnone a ha hna]

/-! ### Entries -/

namespace AssociationEntry

def DescribesItself (t : Table) (a : AssociationEntry) : Prop := a.columns = a.association.expected t

instance (t : Table) (a : AssociationEntry) : Decidable (a.DescribesItself t) :=
  inferInstanceAs (Decidable (_ = _))

def Agree (t : Table) (a b : AssociationEntry) : Prop :=
  a.association.name = b.association.name → a.association.expected t = b.association.expected t

variable {a : AssociationEntry}

theorem DescribesItself.length_columns (h : a.DescribesItself t) (hcolumns : a.columns ≠ []) :
    t.hasColumn a.association.key = true ∧
      a.columns.length = if a.association.polymorphic then 2 else 1 := by
  rw [h] at hcolumns ⊢
  cases hkey : t.hasColumn a.association.key with
  | false => exact absurd (Association.expected_eq_nil hkey) hcolumns
  | true => exact ⟨rfl, Association.length_expected hkey⟩

theorem DescribesItself.fromColumn_eq (h : a.DescribesItself t) {table : Text}
    {r : Relationship Text} (hedge : a.edgeSource.edge? table = some r) :
    r.fromColumn = a.association.key := by
  obtain ⟨column, hcolumn, rfl⟩ := Option.map_eq_some_iff.mp hedge
  change a.columns.head? = some column at hcolumn
  have hcolumns : a.columns ≠ [] := fun hnil => by
    rw [hnil] at hcolumn
    cases hcolumn
  rw [h, Association.head?_expected (h.length_columns hcolumns).1] at hcolumn
  exact (Option.some.inj hcolumn).symm

end AssociationEntry

theorem mem_associations_ofClass_iff {path : Text} {schema : Option Schema} {c : Place}
    (htable : schema.bind (·.table? (Entry.ofClass path schema c).tableName) = some t)
    {a : AssociationEntry} :
    a ∈ (Entry.ofClass path schema c).associations ↔
      ∃ declared ∈ Model.associations c,
        ⟨declared, Resolved.columnsOf (resolve (Model.associations c) t declared.name)⟩ = a := by
  have hname : (Entry.ofClass path schema c).tableName = tableName c := rfl
  rw [hname] at htable
  rw [Entry.ofClass, htable, List.mem_map]
  rfl

theorem forall_describesItself_iff {path : Text} {schema : Option Schema} {c : Place}
    (htable : schema.bind (·.table? (Entry.ofClass path schema c).tableName) = some t) :
    (∀ a ∈ (Entry.ofClass path schema c).associations,
        t.hasColumn a.association.name = false → a.DescribesItself t) ↔
      ∀ a ∈ (Entry.ofClass path schema c).associations,
        ∀ b ∈ (Entry.ofClass path schema c).associations,
          t.hasColumn a.association.name = false → a.Agree t b := by
  simp only [mem_associations_ofClass_iff htable, forall_exists_index, and_imp,
    forall_apply_eq_imp_iff₂]
  constructor
  · intro h a ha b hb hname hab
    refine (forall_columnsOf_eq_iff hname).mp (fun a' ha' hna => ?_) a ha b hb rfl hab.symm
    rw [← hna]
    exact h a' ha' (hna ▸ hname)
  · intro h a ha hname
    refine (forall_columnsOf_eq_iff hname).mpr (fun a' ha' b hb hna hnb => ?_) a ha rfl
    exact h a' ha' b hb (hna ▸ hname) (hna.trans hnb.symm)

/-- An entry of a class with a table shows, for each association, the columns that this association
declares, exactly if all its associations of one name declare the same columns. -/
theorem entries_describe_themselves_iff (path : Text) (schema : Option Schema) (tree : Tree) :
    (∀ e ∈ Entry.ofTree path schema tree, ∀ t, schema.bind (·.table? e.tableName) = some t →
      ((∀ a ∈ e.associations, t.hasColumn a.association.name = false → a.DescribesItself t) ↔
        ∀ a ∈ e.associations, ∀ b ∈ e.associations, t.hasColumn a.association.name = false →
          a.Agree t b)) ∧
    (∀ t (a b : Association), a.name = b.name →
      (a.expected t = b.expected t ↔
        (t.hasColumn a.key = false ∧ t.hasColumn b.key = false) ∨
          (t.hasColumn a.key = true ∧ a.key = b.key ∧ a.polymorphic = b.polymorphic))) ∧
    ∀ t (a : AssociationEntry), a.DescribesItself t →
      (a.columns ≠ [] → t.hasColumn a.association.key = true ∧
        a.columns.length = if a.association.polymorphic then 2 else 1) ∧
      ∀ table r, a.edgeSource.edge? table = some r → r.fromColumn = a.association.key := by
  refine ⟨?_, fun t a b => Association.expected_eq_iff, ?_⟩
  · intro e he t htable
    obtain ⟨c, _, rfl⟩ := List.mem_map.mp he
    exact forall_describesItself_iff htable
  · intro t a h
    exact ⟨h.length_columns, fun table r => h.fromColumn_eq⟩

/-- The source of a class `Post` that belongs to an author by the key `writer_id`, and by the
conventional one. -/
def twiceDeclared : Tree :=
  let writer := plainNode "pair" none "foreign_key: :writer_id"
    [plainNode "hash_key_symbol" (some "key") "foreign_key" [],
      plainNode "simple_symbol" (some "value") ":writer_id" []]
  let post := plainNode "class" none "class Post < ApplicationRecord"
    [plainNode "constant" (some "name") "Post" [],
      plainNode "superclass" (some "superclass") "< ApplicationRecord"
        [plainNode "constant" none "ApplicationRecord" []],
      plainNode "body_statement" (some "body") "belongs_to :author"
        [belongsToCall "author" [writer], belongsToCall "author" []]]
  ⟨plainNode "program" none "class Post < ApplicationRecord" [post], false⟩

def postsTable : Table where
  name := "posts".toList
  columns := [{ name := "id".toList }, { name := "author_id".toList }, { name := "writer_id".toList }]

/-- The second declaration shows the key of the first one, and its edge starts there. -/
theorem columns_twiceDeclared :
    ∃ e, Entry.ofTree [] (some { tables := [postsTable] }) twiceDeclared = [e] ∧
      e.tableFound = true ∧
      (e.associations.map fun a => (a.association.key, a.columns)) =
        [("writer_id".toList, ["writer_id".toList]), ("author_id".toList, ["writer_id".toList])] ∧
      e.relationships.map (·.fromColumn) = ["writer_id".toList, "writer_id".toList] ∧
      ¬ ∀ a ∈ e.associations, postsTable.hasColumn a.association.name = false →
        a.DescribesItself postsTable := by
  refine ⟨_, rfl, by decide +kernel, by decide +kernel, by decide +kernel, by decide +kernel⟩

end RecordMap.Model
