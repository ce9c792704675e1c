import Mathlib.Data.List.Forall2
import RecordMap.Project.Scan

/-! The edges of a report: each one starts at a column that a table of the schema has, and they stand
for the associations with columns, one to one and in order. -/

namespace RecordMap.Model

open Syntax

theorem Relationship.complete_toPartial (r : Relationship Text) :
    r.toPartial.complete id (· == []) = r := by
  obtain ⟨fromTable, toTable, fromColumn, toColumn, type⟩ := r
  cases toTable <;> rfl

theorem Report.ofEntries_relationships (entries : List Entry) (checksum : Option Text) :
    (Report.ofEntries entries checksum).relationships = entries.flatMap Entry.relationships := by
  rw [Report.ofEntries, Report.make, List.map_map]
  have h : (fun r => PartialRelationship.complete id (· == []) r) ∘ Relationship.toPartial = id :=
    funext Relationship.complete_toPartial
  rw [h, List.map_id]

/-! ### Columns -/

theorem resolve_columns {associations : List Association} {table : Table} {name : Text}
    {r : Resolved} (h : resolve associations table name = some r) :
    ∃ column rest, r.columns = column :: rest ∧ table.hasColumn column = true := by
  rw [resolve] at h
  split at h
  · next hname =>
    cases h
    exact ⟨name, [], rfl, hname⟩
  · obtain ⟨a, ha, rfl⟩ := Option.map_eq_some_iff.mp h
    have hkey : table.hasColumn a.key = true := by
      have hfound := List.find?_some ha
      simp only [Bool.and_eq_true] at hfound
      exact hfound.2
    rw [Association.resolved]
    split
    · exact ⟨a.key, [a.typeColumn], rfl, hkey⟩
    · exact ⟨a.key, [], rfl, hkey⟩

theorem head?_columnsOf_resolveIn {c : Place} {table : Option Table} {name column : Text}
    (h : (Resolved.columnsOf (resolveIn c table name)).head? = some column) :
    ∃ t, table = some t ∧ t.hasColumn column = true := by
  cases table with
  | none => cases h
  | some t =>
    refine ⟨t, rfl, ?_⟩
    change (Resolved.columnsOf (resolve (associations c) t name)).head? = some column at h
    cases hr : resolve (associations c) t name with
    | none =>
      rw [hr] at h
      cases h
    | some r =>
      obtain ⟨first, rest, hcolumns, hfirst⟩ := resolve_columns hr
      rw [hr, Resolved.columnsOf, Option.elim, hcolumns] at h
      cases h
      exact hfirst

theorem head?_columns_of_mem_ofClass {path : Text} {schema : Option Schema} {c : Place}
    {a : AssociationEntry} {column : Text} (ha : a ∈ (Entry.ofClass path schema c).associations)
    (hcolumn : a.columns.head? = some column) :
    ∃ s t, schema = some s ∧ s.table? (Entry.ofClass path schema c).tableName = some t ∧
      t.hasColumn column = true := by
  obtain ⟨declared, _, rfl⟩ := List.mem_map.mp ha
  obtain ⟨t, htable, ht⟩ := head?_columnsOf_resolveIn hcolumn
  obtain ⟨s, rfl, hs⟩ := Option.bind_eq_some_iff.mp htable
  exact ⟨s, t, rfl, hs, ht⟩

/-! ### Edges -/

/-- The associations of an entry that have columns, unless it is abstract. -/
def Entry.joined (e : Entry) : List (Entry × AssociationEntry) :=
  if e.isAbstract then [] else (e.associations.filter (!·.columns.isEmpty)).map (e, ·)

structure StandsFor (source : Entry × AssociationEntry) (r : Relationship Text) : Prop where
  fromTable_eq : r.fromTable = source.1.tableName
  fromColumn_eq : source.2.columns.head? = some r.fromColumn
  polymorphic_iff : r.type = "polymorphic".toList ↔ source.2.association.polymorphic = true

theorem standsFor_of_edge? {e : Entry} {a : AssociationEntry} {r : Relationship Text}
    (h : a.edgeSource.edge? e.tableName = some r) : StandsFor (e, a) r := by
  obtain ⟨column, hcolumn, rfl⟩ := Option.map_eq_some_iff.mp h
  refine ⟨rfl, hcolumn, ?_⟩
  change (if a.association.polymorphic then "polymorphic" else "many-to-one").toList = _ ↔ _
  cases a.association.polymorphic <;> decide

theorem forall₂_joined_relationships (e : Entry) :
    List.Forall₂ StandsFor e.joined e.relationships := by
  rw [Entry.joined, Entry.relationships]
  split
  · exact .nil
  · generalize e.associations = associations
    induction associations with
    | nil => exact .nil
    | cons a associations ih =>
      cases h : a.edgeSource.edge? e.tableName with
      | none =>
        have hcolumns : a.columns = [] := List.head?_eq_none_iff.mp (Option.map_eq_none_iff.mp h)
        rw [List.filter_cons_of_neg (by simp [hcolumns])]
        simpa only [List.filterMap_cons, h] using ih
      | some r =>
        have hstands : StandsFor (e, a) r := standsFor_of_edge? h
        have hcolumns : (!a.columns.isEmpty) = true := by
          cases hnil : a.columns with
          | nil =>
            have hhead := hstands.fromColumn_eq
            rw [hnil] at hhead
            cases hhead
          | cons => rfl
        simpa only [List.filterMap_cons, h, List.filter_cons, hcolumns, if_true, List.map_cons]
          using .cons hstands ih

theorem forall₂_flatMap_joined (entries : List Entry) :
    List.Forall₂ StandsFor (entries.flatMap Entry.joined) (entries.flatMap Entry.relationships) := by
  induction entries with
  | nil => exact .nil
  | cons e entries ih =>
    rw [List.flatMap_cons, List.flatMap_cons]
    exact List.rel_append (forall₂_joined_relationships e) ih

theorem mem_associations_of_mem_joined {entries : List Entry} {source : Entry × AssociationEntry}
    (h : source ∈ entries.flatMap Entry.joined) :
    source.1 ∈ entries ∧ source.2 ∈ source.1.associations := by
  obtain ⟨e, he, hsource⟩ := List.mem_flatMap.mp h
  rw [Entry.joined] at hsource
  split at hsource
  · cases hsource
  · obtain ⟨a, ha, rfl⟩ := List.mem_map.mp hsource
    exact ⟨he, List.mem_of_mem_filter ha⟩

theorem exists_standsFor {sources : List (Entry × AssociationEntry)} {edges : List (Relationship Text)}
    (h : List.Forall₂ StandsFor sources edges) {r : Relationship Text} (hr : r ∈ edges) :
    ∃ source ∈ sources, StandsFor source r := by
  induction h with
  | nil => cases hr
  | cons hstands _ ih =>
    rcases List.mem_cons.mp hr with rfl | hr
    · exact ⟨_, List.mem_cons_self .., hstands⟩
    · obtain ⟨source, hsource, hstands⟩ := ih hr
      exact ⟨source, List.mem_cons_of_mem _ hsource, hstands⟩

/-! ### Reports -/

/-- The edges of a report are real with regard to a schema: each starts at a column of one of its
tables, they stand for the joined associations of the report's models in their order, and none was
changed on its way into the report. -/
structure Report.IsReal (schema : Option Schema) (report : Report Entry Text) : Prop where
  column_exists : ∀ r ∈ report.relationships, ∃ s t,
    schema = some s ∧ s.table? r.fromTable = some t ∧ t.hasColumn r.fromColumn = true
  standsFor : List.Forall₂ StandsFor (report.models.flatMap Entry.joined) report.relationships
  unchanged : report.relationships = report.models.flatMap Entry.relationships

def Entry.IsRead (schema : Option Schema) (e : Entry) : Prop :=
  ∃ path c, e = Entry.ofClass path schema c

theorem Report.isReal_ofEntries {schema : Option Schema} {entries : List Entry}
    (h : ∀ e ∈ entries, e.IsRead schema) (checksum : Option Text) :
    (Report.ofEntries entries checksum).IsReal schema := by
  have hedges := Report.ofEntries_relationships entries checksum
  have hstands : List.Forall₂ StandsFor (entries.flatMap Entry.joined)
      (Report.ofEntries entries checksum).relationships :=
    hedges ▸ forall₂_flatMap_joined entries
  refine ⟨?_, hstands, hedges⟩
  intro r hr
  obtain ⟨⟨e, a⟩, hsource, hedge⟩ := exists_standsFor hstands hr
  obtain ⟨he, ha⟩ := mem_associations_of_mem_joined hsource
  obtain ⟨path, c, rfl⟩ := h e he
  rw [hedge.fromTable_eq]
  exact head?_columns_of_mem_ofClass ha hedge.fromColumn_eq

theorem Entry.isRead_of_mem_ofTree {path : Text} {schema : Option Schema} {tree : Tree} {e : Entry}
    (h : e ∈ Entry.ofTree path schema tree) : e.IsRead schema := by
  obtain ⟨c, _, rfl⟩ := List.mem_map.mp h
  exact ⟨path, c, rfl⟩

end RecordMap.Model

namespace RecordMap.Project

open Model Syntax

theorem isRead_of_mem_readFile {reader : Reader} {schema : Option Schema} {w : World} {path : Text}
    {e : Entry} (h : e ∈ (readFile reader schema w path).1) : e.IsRead schema := by
  rw [readFile] at h
  split at h
  · cases h
  · exact Entry.isRead_of_mem_ofTree h

theorem isReal_reportOn (reader : Reader) (schema : Option Schema) (checksum : Option Text)
    (w : World) (paths : List Text) :
    (reportOn reader schema checksum w paths).value.IsReal schema := by
  refine Report.isReal_ofEntries ?_ checksum
  intro e he
  obtain ⟨read, hread, he⟩ := List.mem_flatMap.mp he
  obtain ⟨path, _, rfl⟩ := List.mem_map.mp hread
  exact isRead_of_mem_readFile he

theorem isReal_of_scanWith {reader : Reader} {schema : Option Schema} {checksum : Option Text}
    {w : World} {project : Text} {report : Report Entry Text}
    (h : (scanWith reader schema checksum w project).value = .ok report) :
    report.IsReal schema := by
  rw [scanWith] at h
  split at h
  · cases h
  · next paths _ =>
    cases h
    exact isReal_reportOn reader schema checksum w paths

theorem isReal_of_scan {reader : Reader} {memo : Option Schema.Memo} {w : World} {project : Text}
    {report : Report Entry Text} (h : (scan reader memo w project).value.2 = .ok report) :
    ∃ schema, (readSchema (memo.getD { root := some project }) w).value.2 = .ok schema ∧
      report.IsReal schema := by
  rw [scan, Outcome.andThen] at h
  cases hschema : (readSchema (memo.getD { root := some project }) w).value.2 with
  | error i =>
    simp only [hschema] at h
    cases h
  | ok schema =>
    refine ⟨schema, rfl, ?_⟩
    simp only [hschema, Outcome.andThen] at h
    split at h
    · cases h
    · exact isReal_of_scanWith h

/-- The edges that a source or a whole project is reported to have start at columns of the schema's
tables, and stand for the associations with columns one to one, in order and unchanged. -/
theorem reported_edges_are_real :
    (∀ path schema tree checksum,
      let report := Report.ofEntries (Entry.ofTree path schema tree) checksum
      report.models = Entry.ofTree path schema tree ∧ report.IsReal schema) ∧
    ∀ reader memo w project report, (scan reader memo w project).value.2 = .ok report →
      ∃ schema, (readSchema (memo.getD { root := some project }) w).value.2 = .ok schema ∧
        report.IsReal schema := by
  refine ⟨?_, fun _ _ _ _ _ h => isReal_of_scan h⟩
  intro path schema tree checksum
  exact ⟨rfl, Report.isReal_ofEntries (fun _ h => Entry.isRead_of_mem_ofTree h) checksum⟩

end RecordMap.Project
