import RecordMap.Model.TableName
import RecordMap.Proofs.Model.Ownership
import RecordMap.Proofs.Syntax.Calls

/-! The table name of a class depends on its path and on the literals that setters below it are
given: the table name of its own, or else the first prefix and the first suffix. -/

namespace RecordMap.Model

open Syntax

variable {n : Node} {t : Text} {c d : Place} {nodes : List Node} {texts : List Text}
  {gives : Node → Text → Prop}

/-! ### Literals in setters -/

/-- `self.table_name = 'name'`. -/
def GivesTableName (n : Node) (t : Text) : Prop :=
  ∃ receiver value, n.Sets "table_name".toList (some receiver) value ∧ receiver.kind = "self" ∧
    value.Denotes t

/-- An assignment of a string or symbol to the attribute of any receiver, or of none. -/
def Gives (name : String) (n : Node) (t : Text) : Prop :=
  ∃ receiver value, n.Sets name.toList receiver value ∧ value.Denotes t

inductive Lists (gives : Node → Text → Prop) : List Node → List Text → Prop where
  | nil : Lists gives [] []
  | given {n : Node} {t : Text} {nodes : List Node} {texts : List Text} (hgives : gives n t)
      (h : Lists gives nodes texts) : Lists gives (n :: nodes) (t :: texts)
  | passed {n : Node} {nodes : List Node} {texts : List Text} (hnone : ∀ t, ¬ gives n t)
      (h : Lists gives nodes texts) : Lists gives (n :: nodes) texts

theorem lists_iff {text? : Node → Option Text} (htext : ∀ n t, text? n = some t ↔ gives n t) :
    Lists gives nodes texts ↔ nodes.filterMap text? = texts := by
  constructor
  · intro h
    induction h with
    | nil => rfl
    | given hgives h ih => rw [List.filterMap_cons_some ((htext _ _).mpr hgives), ih]
    | passed hnone h ih =>
      rw [List.filterMap_cons_none, ih]
      exact Option.eq_none_iff_forall_ne_some.mpr fun t ht => hnone t ((htext _ _).mp ht)
  · rintro rfl
    induction nodes with
    | nil => exact .nil
    | cons n nodes ih =>
      cases htextn : text? n with
      | none =>
        rw [List.filterMap_cons_none htextn]
        refine .passed (fun t ht => ?_) ih
        rw [(htext _ _).mpr ht] at htextn
        cases htextn
      | some t =>
        rw [List.filterMap_cons_some htextn]
        exact .given ((htext _ _).mp htextn) ih

def textOf? (test : Node → Bool) (n : Node) : Option Text := if test n then n.firstText? else none

theorem textOf?_eq_some_iff {test : Node → Bool} :
    textOf? test n = some t ↔
      test n = true ∧ ∃ value, n.firstArgument? = some value ∧ value.Denotes t := by
  unfold textOf? Node.firstText?
  simp only [Option.ite_none_right_eq_some, Option.bind_eq_some_iff, Node.textLiteral?_eq_some_iff]

theorem textOf?_calls {name setter : String} (hsetter : setter.toList = name.toList ++ ['='])
    (hname : name.toList ≠ []) (n : Node) (t : Text) :
    textOf? (·.calls setter) n = some t ↔ Gives name n t := by
  rw [textOf?_eq_some_iff]
  unfold Gives
  simp only [Node.sets_iff hsetter hname]
  constructor
  · rintro ⟨hcalls, value, hvalue, ht⟩
    exact ⟨n.receiver?, value, ⟨hcalls, rfl, hvalue⟩, ht⟩
  · rintro ⟨_, value, ⟨hcalls, _, hvalue⟩, ht⟩
    exact ⟨hcalls, value, hvalue, ht⟩

theorem textOf?_assignsTableName (n : Node) (t : Text) :
    textOf? assignsTableName n = some t ↔ GivesTableName n t := by
  have hsets : ∀ receiver value, n.Sets "table_name".toList receiver value ↔
      n.calls "table_name=" = true ∧ n.receiver? = receiver ∧ n.firstArgument? = some value :=
    fun _ _ => Node.sets_iff (by decide) (by decide)
  rw [textOf?_eq_some_iff]
  unfold GivesTableName assignsTableName
  simp only [hsets, Bool.and_eq_true, Option.any_eq_true, Node.is_iff]
  constructor
  · rintro ⟨⟨⟨hcalls, receiver, hreceiver, hself⟩, -⟩, value, hvalue, ht⟩
    exact ⟨receiver, value, ⟨hcalls, hreceiver, hvalue⟩, hself, ht⟩
  · rintro ⟨receiver, value, ⟨hcalls, hreceiver, hvalue⟩, hself, ht⟩
    have hfirst : n.firstText? = some t := by
      rw [Node.firstText?, hvalue, Option.bind_some, Node.textLiteral?_eq_some_iff]
      exact ht
    exact ⟨⟨⟨hcalls, receiver, hreceiver, hself⟩, hfirst ▸ rfl⟩, value, hvalue, ht⟩

def nodesBelow (c : Place) : List Node := c.below.map (·.node)

theorem findSome?_firstText? (test : Node → Bool) (c : Place) :
    ((c.findAll fun p => test p.node).map (·.node)).findSome? Node.firstText? =
      ((nodesBelow c).filterMap (textOf? test)).head? := by
  unfold Place.findAll nodesBelow textOf?
  rw [List.findSome?_map, ← List.head?_filterMap, List.filterMap_filter, List.filterMap_map]
  rfl

theorem head?_bind_firstText? {nodes : List Node} (h : ∀ n ∈ nodes, n.firstText?.isSome = true) :
    nodes.head?.bind Node.firstText? = nodes.findSome? Node.firstText? := by
  cases nodes with
  | nil => rfl
  | cons n nodes =>
    obtain ⟨t, ht⟩ := Option.isSome_iff_exists.mp (h n (List.mem_cons_self ..))
    rw [List.head?_cons, Option.bind_some, List.findSome?_cons, ht]

/-! ### The rule -/

structure TableSettings where
  names : List Text
  prefixes : List Text
  suffixes : List Text
deriving DecidableEq, Repr

structure TableSettings.AreBelow (s : TableSettings) (c : Place) : Prop where
  names : Lists GivesTableName (nodesBelow c) s.names
  prefixes : Lists (Gives "table_name_prefix") (nodesBelow c) s.prefixes
  suffixes : Lists (Gives "table_name_suffix") (nodesBelow c) s.suffixes

/-- What stands in front of a table name: the first text, up to an underscore. -/
inductive IsTablePrefix : List Text → Text → Prop where
  | none : IsTablePrefix [] []
  | empty {rest : List Text} : IsTablePrefix ([] :: rest) []
  | asGiven {t : Text} {rest : List Text} (hlast : t.getLast? = some '_') : IsTablePrefix (t :: rest) t
  | joined {t : Text} {rest : List Text} (ht : t ≠ []) (hlast : t.getLast? ≠ some '_') :
      IsTablePrefix (t :: rest) (t ++ ['_'])

/-- What stands behind a table name: the first text, from an underscore on. -/
inductive IsTableSuffix : List Text → Text → Prop where
  | none : IsTableSuffix [] []
  | empty {rest : List Text} : IsTableSuffix ([] :: rest) []
  | asGiven {t : Text} {rest : List Text} (hhead : t.head? = some '_') : IsTableSuffix (t :: rest) t
  | joined {t : Text} {rest : List Text} (ht : t ≠ []) (hhead : t.head? ≠ some '_') :
      IsTableSuffix (t :: rest) ('_' :: t)

/-- The name of a setting of its own comes before the path. -/
inductive IsTableName (segments : List Text) (s : TableSettings) : Text → Prop where
  | own {name : Text} (hname : s.names.head? = some name) : IsTableName segments s name
  | conventional {front behind : Text} (hnames : s.names = []) (hfront : IsTablePrefix s.prefixes front)
      (hbehind : IsTableSuffix s.suffixes behind) :
      IsTableName segments s (front ++ Naming.tableOf (['_'].intercalate segments) ++ behind)

theorem isTablePrefix_withTrailingUnderscore (prefixes : List Text) :
    IsTablePrefix prefixes (withTrailingUnderscore (prefixes.head?.getD [])) := by
  unfold withTrailingUnderscore
  cases prefixes with
  | nil => exact .none
  | cons t rest =>
    rw [List.head?_cons, Option.getD_some]
    by_cases ht : t = []
    · subst ht
      exact .empty
    · by_cases hlast : t.getLast? = some '_'
      · rw [if_pos (.inr hlast)]
        exact .asGiven hlast
      · rw [if_neg (not_or.mpr ⟨ht, hlast⟩)]
        exact .joined ht hlast

theorem isTableSuffix_withLeadingUnderscore (suffixes : List Text) :
    IsTableSuffix suffixes (withLeadingUnderscore (suffixes.head?.getD [])) := by
  unfold withLeadingUnderscore
  cases suffixes with
  | nil => exact .none
  | cons t rest =>
    rw [List.head?_cons, Option.getD_some]
    by_cases ht : t = []
    · subst ht
      exact .empty
    · by_cases hhead : t.head? = some '_'
      · rw [if_pos (.inr hhead)]
        exact .asGiven hhead
      · rw [if_neg (not_or.mpr ⟨ht, hhead⟩)]
        exact .joined ht hhead

namespace TableSettings

variable {s s' : TableSettings}

def below (c : Place) : TableSettings where
  names := (nodesBelow c).filterMap (textOf? assignsTableName)
  prefixes := (nodesBelow c).filterMap (textOf? (·.calls "table_name_prefix="))
  suffixes := (nodesBelow c).filterMap (textOf? (·.calls "table_name_suffix="))

theorem areBelow_iff : s.AreBelow c ↔ below c = s := by
  have hprefix : ∀ n t, textOf? (·.calls "table_name_prefix=") n = some t ↔
      Gives "table_name_prefix" n t := textOf?_calls (by decide) (by decide)
  have hsuffix : ∀ n t, textOf? (·.calls "table_name_suffix=") n = some t ↔
      Gives "table_name_suffix" n t := textOf?_calls (by decide) (by decide)
  constructor
  · rintro ⟨hnames, hprefixes, hsuffixes⟩
    rw [lists_iff textOf?_assignsTableName] at hnames
    rw [lists_iff hprefix] at hprefixes
    rw [lists_iff hsuffix] at hsuffixes
    unfold below
    rw [hnames, hprefixes, hsuffixes]
  · rintro rfl
    exact ⟨(lists_iff textOf?_assignsTableName).mpr rfl, (lists_iff hprefix).mpr rfl,
      (lists_iff hsuffix).mpr rfl⟩

end TableSettings

def tableNameOf (segments : List Text) (s : TableSettings) : Text :=
  match s.names.head? with
  | some name => name
  | none =>
    withTrailingUnderscore (s.prefixes.head?.getD []) ++ conventionalName segments ++
      withLeadingUnderscore (s.suffixes.head?.getD [])

theorem isTableName_tableNameOf (segments : List Text) (s : TableSettings) :
    IsTableName segments s (tableNameOf segments s) := by
  unfold tableNameOf
  cases hnames : s.names.head? with
  | some name => exact .own hnames
  | none =>
    exact .conventional (List.head?_eq_none_iff.mp hnames) (isTablePrefix_withTrailingUnderscore _)
      (isTableSuffix_withLeadingUnderscore _)

theorem tableName_eq (c : Place) :
    tableName c = tableNameOf c.shortSegments (TableSettings.below c) := by
  have hassigned : ∀ n ∈ tableNameAssignments c, n.firstText?.isSome = true := by
    intro n hn
    obtain ⟨p, hp, rfl⟩ := List.mem_map.mp hn
    have hassigns := (List.mem_filter.mp hp).2
    unfold assignsTableName at hassigns
    exact (Bool.and_eq_true_iff.mp hassigns).2
  unfold tableName tablePrefix tableSuffix firstSetting?
  rw [head?_bind_firstText? hassigned, tableNameAssignments, findSome?_firstText?,
    findSome?_firstText? (·.calls "table_name_prefix="),
    findSome?_firstText? (·.calls "table_name_suffix=")]
  rfl

/-- A class is backed by the table that the first setter for it names which is given a string or
symbol. Without any, its path names the table, between the first prefix and the first suffix. So
classes have the same table name which have the same path and the same strings and symbols in these
setters, whatever else they and their trees hold. -/
theorem tableName_decided_by_settings :
    (∀ c : Place, ∃ s : TableSettings, s.AreBelow c ∧ (∀ s' : TableSettings, s'.AreBelow c → s' = s) ∧
      IsTableName c.shortSegments s (tableName c)) ∧
    ∀ (c d : Place) (s : TableSettings), s.AreBelow c → s.AreBelow d →
      c.shortSegments = d.shortSegments → tableName c = tableName d := by
  constructor
  · intro c
    refine ⟨.below c, TableSettings.areBelow_iff.mpr rfl, fun s' hs' => ?_, ?_⟩
    · exact (TableSettings.areBelow_iff.mp hs').symm
    · rw [tableName_eq]
      exact isTableName_tableNameOf _ _
  · intro c d s hc hd hsegments
    rw [tableName_eq c, tableName_eq d, TableSettings.areBelow_iff.mp hc,
      TableSettings.areBelow_iff.mp hd, hsegments]

/-- `self.table_name_prefix = value`. -/
def prefixAssignment (value : Node) : Node :=
  plainNode "assignment" none "self.table_name_prefix = value"
    [plainNode "call" (some "left") "self.table_name_prefix"
      [plainNode "self" (some "receiver") "self" [],
        plainNode "identifier" (some "method") "table_name_prefix" []], value]

def postClass (body : List Node) : Place :=
  .top (plainNode "class" none "class Post"
    [plainNode "constant" (some "name") "Post" [], plainNode "body_statement" (some "body") "" body])

/-- The prefix that a method returns is passed over, and so is an association. -/
theorem tableName_postClass :
    let literal := plainNode "string" (some "right") "'blog'" [plainNode "string_content" none "blog" []]
    let computed := plainNode "identifier" (some "right") "computed" []
    tableName (postClass [prefixAssignment literal]) =
        tableName (postClass
          [prefixAssignment computed, belongsToCall "author" [], prefixAssignment literal]) ∧
      tableName (postClass [prefixAssignment literal]) = "blog_posts".toList :=
  ⟨tableName_decided_by_settings.2 _ _ (.below _) (TableSettings.areBelow_iff.mpr rfl)
      (TableSettings.areBelow_iff.mpr (by decide +kernel)) (by decide +kernel),
    by decide +kernel⟩

end RecordMap.Model
