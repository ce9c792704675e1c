import Mathlib.Data.List.Basic
import RecordMap.Proofs.Model.TargetTable
import RecordMap.Proofs.Naming.PlainWords

/-! The target table of an association that names no class: the plural of its own name. -/

namespace RecordMap.Model

open Syntax

theorem underscoreScopes_eq_self {s : Text} (hs : ':' ∉ s) : underscoreScopes s = s := by
  have hself := underscoreScopes_append hs []
  rwa [List.append_nil, underscoreScopes, List.append_nil] at hself

/-- Put into capitals and taken apart again, a name of plain words keeps its words. -/
theorem snakeCase_pascalCase_words {words : List Text} (h : ∀ w ∈ words, Naming.IsPlainWord w) :
    Naming.snakeCase (underscoreScopes (Naming.pascalCase (['_'].intercalate words))) =
      ['_'].intercalate words := by
  rw [Naming.pascalCase_words h, underscoreScopes_eq_self (Naming.colon_notMem_words h),
    Naming.snakeCase_words h]

/-- The edge of an association that is named with plain words and names no class ends at the plural
of its name, and on the way there no word is lost, merged with another or split. -/
theorem toTable_eq_plural {words : List Text} (hne : words ≠ [])
    (hwords : ∀ w ∈ words, Naming.IsPlainWord w) {e : Entry} {a : AssociationEntry}
    (ha : a ∈ e.associations) (hname : a.association.name = ['_'].intercalate words)
    (hclass : a.association.className = none ∨ a.association.className = some [])
    (hcolumns : a.columns ≠ []) (hsingle : a.association.polymorphic = false) :
    (Naming.snakeCase (underscoreScopes (Naming.pascalCase a.association.name))).splitOn '_' = words ∧
    ∃ r, a.edgeSource.edge? e.tableName = some r ∧ r.toTable = Naming.plural a.association.name ∧
      (e.isAbstract = false → r ∈ e.relationships) := by
  have hsnake := snakeCase_pascalCase_words hwords
  rw [← hname] at hsnake
  constructor
  · rw [hsnake, hname]
    exact List.splitOn_intercalate '_' (fun w hw => Naming.underscore_notMem (hwords w hw)) hne
  have htarget : targetTable a.association.name a.association.className =
      Naming.plural a.association.name := by
    have hdefault : targetClass a.association.name a.association.className =
        Naming.pascalCase a.association.name := by
      rcases hclass with h | h <;> rw [h] <;> rfl
    rw [targetTable, hdefault, Naming.tableOf, hsnake]
  obtain ⟨column, rest, hcolumn⟩ := List.exists_cons_of_ne_nil hcolumns
  have hedge : a.edgeSource.edge? e.tableName = some {
      fromTable := e.tableName, toTable := Naming.plural a.association.name, fromColumn := column
      toColumn := "id".toList, type := "many-to-one".toList } := by
    simp [AssociationEntry.edgeSource, EdgeSource.edge?, hcolumn, hsingle, htarget]
  refine ⟨_, hedge, rfl, fun habstract => ?_⟩
  rw [Entry.relationships, habstract, if_neg Bool.false_ne_true]
  exact List.mem_filterMap.mpr ⟨a, ha, hedge⟩

def orderLine : AssociationEntry :=
  ⟨{ name := "order_line2_no".toList }, ["order_line2_no_id".toList]⟩

def deliveryEntry : Entry where
  name := "Delivery".toList
  tableName := "deliveries".toList
  tableFound := true
  isAbstract := false
  associations := [orderLine]
  sourceFile := "delivery.rb".toList
  line := 1

theorem toTable_orderLine :
    (Naming.snakeCase (underscoreScopes (Naming.pascalCase orderLine.association.name))).splitOn '_' =
        ["order".toList, "line2".toList, "no".toList] ∧
      ∃ r, orderLine.edgeSource.edge? deliveryEntry.tableName = some r ∧
        r.toTable = Naming.plural orderLine.association.name ∧
        (deliveryEntry.isAbstract = false → r ∈ deliveryEntry.relationships) :=
  toTable_eq_plural (by decide) (by decide) (List.mem_singleton_self _) (by decide) (.inl rfl)
    (by decide) rfl

end RecordMap.Model
