import RecordMap.Model.Entry

/-! The target table of an edge is the table of the class that the association names: a path in a text
and a path of nested definitions lead to one table name. -/

namespace RecordMap.Model

open Syntax

/-! ### Names in texts and names in trees -/

theorem underscoreScopes_append {s : Text} (hs : ':' ∉ s) (t : Text) :
    underscoreScopes (s ++ t) = s ++ underscoreScopes t := by
  induction s with
  | nil => rfl
  | cons c s ih =>
    have hc : c ≠ ':' := fun h => hs (h ▸ List.mem_cons_self ..)
    rw [List.cons_append, underscoreScopes, ih fun h => hs (List.mem_cons_of_mem c h)]
    · rfl
    · intro ds hcd _
      exact hc hcd

theorem underscoreScopes_joinScopes {segments : List Text} (h : ∀ s ∈ segments, ':' ∉ s) :
    underscoreScopes (joinScopes segments) = ['_'].intercalate segments := by
  induction segments with
  | nil => rfl
  | cons s rest ih =>
    have hs : ':' ∉ s := h s (List.mem_cons_self ..)
    cases rest with
    | nil =>
      have hjoin := underscoreScopes_append hs []
      simpa [joinScopes, List.intercalate, underscoreScopes] using hjoin
    | cons r rest =>
      have hscopes : joinScopes (s :: r :: rest) = s ++ (':' :: ':' :: joinScopes (r :: rest)) := by
        simp [joinScopes, List.intercalate]
      rw [hscopes, underscoreScopes_append hs, underscoreScopes,
        ih fun s' hs' => h s' (List.mem_cons_of_mem s hs')]
      simp [List.intercalate]

/-- Where every enclosing definition has at most one constant, no constant is left out of the table
name. -/
theorem shortSegments_eq_fullSegments {c : Place}
    (h : ∀ n ∈ c.namespaces, n.nameSegments.length ≤ 1) : c.shortSegments = c.fullSegments := by
  have hlast : ∀ n ∈ c.namespaces.reverse, n.nameSegments.getLast?.toList = n.nameSegments := by
    intro n hn
    have hlength := h n (List.mem_reverse.mp hn)
    match hsegments : n.nameSegments with
    | [] => rfl
    | [_] => rfl
    | _ :: _ :: _ => simp [hsegments] at hlength
  rw [Place.shortSegments, Place.fullSegments, List.flatMap_def, List.flatMap_def,
    List.map_congr_left hlast]

/-! ### Table names without settings -/

/-- A setter with a string or symbol that has a say in the table name of a class around it. -/
def hasSayInTableName (n : Node) : Bool :=
  assignsTableName n ||
    ((n.calls "table_name_prefix=" || n.calls "table_name_suffix=") && n.firstText?.isSome)

theorem tableNameAssignments_eq_nil {c : Place}
    (h : ∀ p ∈ c.below, hasSayInTableName p.node = false) : tableNameAssignments c = [] := by
  rw [tableNameAssignments, Place.findAll, List.map_eq_nil_iff, List.filter_eq_nil_iff]
  intro p hp hassigns
  have hsay := h p hp
  rw [hasSayInTableName, hassigns, Bool.true_or] at hsay
  cases hsay

theorem firstSetting?_eq_none {c : Place} {setter : String}
    (h : ∀ p ∈ c.below, p.node.calls setter = true → p.node.firstText? = none) :
    firstSetting? c setter = none := by
  rw [firstSetting?, List.findSome?_eq_none_iff]
  intro n hn
  obtain ⟨p, hp, rfl⟩ := List.mem_map.mp hn
  obtain ⟨hbelow, hcalls⟩ := List.mem_filter.mp hp
  exact h p hbelow hcalls

theorem tableName_of_no_settings {c : Place}
    (h : ∀ p ∈ c.below, hasSayInTableName p.node = false) :
    tableName c = conventionalName c.shortSegments := by
  have hsetting : ∀ p ∈ c.below,
      (p.node.calls "table_name_prefix=" || p.node.calls "table_name_suffix=") = true →
        p.node.firstText? = none := by
    intro p hp hcalls
    have hsay := h p hp
    rw [hasSayInTableName, Bool.or_eq_false_iff, hcalls, Bool.true_and] at hsay
    exact Option.isNone_iff_eq_none.mp (Option.isSome_eq_false_iff.mp hsay.2)
  have hprefix : tablePrefix c = [] := by
    rw [tablePrefix, firstSetting?_eq_none fun p hp hcalls => hsetting p hp (by rw [hcalls]; rfl)]
    rfl
  have hsuffix : tableSuffix c = [] := by
    rw [tableSuffix, firstSetting?_eq_none fun p hp hcalls =>
      hsetting p hp (by rw [hcalls, Bool.or_true])]
    rfl
  rw [tableName, tableNameAssignments_eq_nil h, hprefix, hsuffix]
  exact List.append_nil _

/-! ### Targets -/

/-- The association names a class by its path, or without a path by its own name in capitals. -/
def Association.PointsTo (a : Association) (path : Text) : Prop :=
  a.className = some path ∨
    (a.className = none ∨ a.className = some []) ∧ Naming.pascalCase a.name = path

theorem targetClass_of_pointsTo {a : Association} {path : Text} (hpath : path ≠ [])
    (h : a.PointsTo path) : targetClass a.name a.className = path := by
  rcases h with h | ⟨h | h, hname⟩ <;> rw [h]
  · cases path with
    | nil => exact absurd rfl hpath
    | cons => rfl
  · exact hname
  · exact hname

/-- An edge that points to a class ends at the class's own table, however the class is nested and
whichever entry the edge starts from. -/
theorem toTable_eq_tableName {c : Place} (hname : c.fullName ≠ [])
    (hsegments : ∀ n ∈ c.namespaces, n.nameSegments.length ≤ 1)
    (hsettings : ∀ p ∈ c.below, hasSayInTableName p.node = false)
    (hcolon : ∀ s ∈ c.fullSegments, ':' ∉ s)
    {e : Entry} {a : AssociationEntry} (ha : a ∈ e.associations)
    (hcolumns : a.columns ≠ []) (hsingle : a.association.polymorphic = false)
    (hpoints : a.association.PointsTo c.fullName) :
    ∃ r, a.edgeSource.edge? e.tableName = some r ∧ r.toTable = tableName c ∧
      (e.isAbstract = false → r ∈ e.relationships) := by
  have htarget : targetTable a.association.name a.association.className = tableName c := by
    rw [targetTable, targetClass_of_pointsTo hname hpoints, Place.fullName,
      underscoreScopes_joinScopes hcolon, ← shortSegments_eq_fullSegments hsegments,
      tableName_of_no_settings hsettings, conventionalName]
  obtain ⟨column, rest, hcolumn⟩ := List.exists_cons_of_ne_nil hcolumns
  have hedge : a.edgeSource.edge? e.tableName = some {
      fromTable := e.tableName, toTable := tableName c, fromColumn := column
      toColumn := "id".toList, type := "many-to-one".toList } := by
    simp [AssociationEntry.edgeSource, EdgeSource.edge?, hcolumn, hsingle, htarget]
  refine ⟨_, hedge, rfl, fun habstract => ?_⟩
  rw [Entry.relationships, habstract, if_neg Bool.false_ne_true]
  exact List.mem_filterMap.mpr ⟨a, ha, hedge⟩

def plainNode (kind : String) (field : Option String) (text : String) (children : List Node) :
    Node :=
  .mk { kind, named := true, field, start := 0, stop := 0, line := 1, text := text.toList } children

def signNode (sign : String) : Node :=
  .mk { kind := sign, named := false, field := none, start := 0, stop := 0, line := 1, text := sign.toList }
    []

/-- The class in `module Admin; class Blog::Post; belongs_to author; end; end`. -/
def scopedPost : Place :=
  let call := plainNode "call" none "belongs_to author"
    [plainNode "identifier" (some "method") "belongs_to" [],
      plainNode "argument_list" (some "arguments") "author" [plainNode "identifier" none "author" []]]
  let name := plainNode "scope_resolution" (some "name") "Blog::Post"
    [plainNode "constant" (some "scope") "Blog" [], plainNode "constant" (some "name") "Post" []]
  let post := plainNode "class" none "class Blog::Post"
    [name, plainNode "body_statement" (some "body") "belongs_to author" [call]]
  let body := plainNode "body_statement" (some "body") "class Blog::Post" [post]
  let admin := plainNode "module" none "module Admin"
    [plainNode "constant" (some "name") "Admin" [], body]
  ⟨post, [body, admin, plainNode "program" none "module Admin" [admin]], 4⟩

def postAssociation : AssociationEntry :=
  ⟨{ name := "post".toList, className := some "Admin::Blog::Post".toList }, ["post_id".toList]⟩

def commentEntry : Entry where
  name := "Comment".toList
  tableName := "comments".toList
  tableFound := true
  isAbstract := false
  associations := [postAssociation]
  sourceFile := "comment.rb".toList
  line := 1

theorem toTable_scopedPost :
    scopedPost.fullName = "Admin::Blog::Post".toList ∧
    ∃ r, postAssociation.edgeSource.edge? commentEntry.tableName = some r ∧
      r.toTable = tableName scopedPost ∧
      (commentEntry.isAbstract = false → r ∈ commentEntry.relationships) :=
  ⟨by decide, toTable_eq_tableName (by decide) (by decide) (by decide) (by decide)
    (List.mem_singleton_self _) (by decide) rfl (.inl rfl)⟩

end RecordMap.Model
