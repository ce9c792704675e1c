import RecordMap.Proofs.Model.TableName
import RecordMap.Proofs.Model.TargetTable
import RecordMap.Proofs.Naming.Underscore
import RecordMap.Proofs.Syntax.Names
import RecordMap.Proofs.Syntax.Positions

/-! Names such as `::Blog::Post` that start at the top. At a class definition the two colons in front
make no difference. In the class name of an association they lead to another table. -/

namespace RecordMap.Syntax.Node

variable {n : Node} {absolute : Bool} {path : List Text} {front behind : List Node}

/-! ### Paths at definitions -/

structure IsScopeSign (sign : Node) : Prop where
  anonymous : sign.named = false
  field : sign.label.field = none

structure IsLastConstant (name : Node) : Prop where
  kind : name.kind = "constant"
  field : name.label.field = some "name"
  children : name.children = []

/-- A path of constants, with colons in front if it is absolute. -/
inductive WritesPath : Node → Bool → List Text → Prop where
  | constant {n : Node} (hkind : n.kind = "constant") (hchildren : n.children = []) :
      WritesPath n false [n.text]
  | atTop {n sign name : Node} (hkind : n.kind = "scope_resolution")
      (hchildren : n.children = [sign, name]) (hsign : sign.IsScopeSign) (hname : name.IsLastConstant) :
      WritesPath n true [name.text]
  | inScope {n scope sign name : Node} {absolute : Bool} {path : List Text}
      (hkind : n.kind = "scope_resolution") (hchildren : n.children = [scope, sign, name])
      (hfield : scope.label.field = some "scope") (hscope : WritesPath scope absolute path)
      (hsign : sign.IsScopeSign) (hname : name.IsLastConstant) :
      WritesPath n absolute (path ++ [name.text])

/-- A class definition with a path as its name, between other children. -/
structure DefinesClass (n : Node) (absolute : Bool) (path : List Text) (front behind : List Node) :
    Prop where
  isClass : n.kind = "class"
  children : ∃ name, n.children = front ++ name :: behind ∧ name.label.field = some "name" ∧
    name.WritesPath absolute path
  first : ∀ c ∈ front, c.label.field ≠ some "name"

theorem WritesPath.names (h : n.WritesPath absolute path) : n.Names path := by
  induction h with
  | constant hkind _ => exact .constant hkind
  | atTop hkind hchildren hsign hname =>
    refine .atTop hkind ?_ (.constant ?_ hname.kind)
    · simp [child?, hchildren, hsign.field, hname.field]
    · simp [child?, hchildren, hsign.field, hname.field]
  | inScope hkind hchildren hfield _ hsign hname ih =>
    refine .inScope hkind ?_ ih (.constant ?_ hname.kind)
    · simp [child?, hchildren, hfield]
    · simp [child?, hchildren, hfield, hsign.field, hname.field]

theorem IsLastConstant.kind_of_mem (h : n.IsLastConstant) :
    ∀ m ∈ n :: n.descendants, m.kind = "constant" :=
  forall_mem_cons_descendants h.kind (by simp [h.children])

theorem WritesPath.kind_of_mem (h : n.WritesPath absolute path) :
    ∀ m ∈ n :: n.descendants, m.kind = "constant" ∨ m.kind = "scope_resolution" := by
  induction h with
  | constant hkind hchildren => exact forall_mem_cons_descendants (.inl hkind) (by simp [hchildren])
  | atTop hkind hchildren hsign hname =>
    refine forall_mem_cons_descendants (.inr hkind) fun c hc hnamed => ?_
    rw [hchildren] at hc
    rcases List.mem_pair.mp hc with rfl | rfl
    · exact absurd hsign.anonymous (by simp [hnamed])
    · exact fun m hm => .inl (hname.kind_of_mem m hm)
  | inScope hkind hchildren _ _ hsign hname ih =>
    refine forall_mem_cons_descendants (.inr hkind) fun c hc hnamed => ?_
    rw [hchildren] at hc
    rcases List.mem_cons.mp hc with rfl | hc
    · exact ih
    · rcases List.mem_pair.mp hc with rfl | rfl
      · exact absurd hsign.anonymous (by simp [hnamed])
      · exact fun m hm => .inl (hname.kind_of_mem m hm)

theorem isCall_eq_false (hcall : n.kind ≠ "call") (hassignment : n.kind ≠ "assignment") :
    n.isCall = false := by
  simp [isCall, assignedCall?, is, hcall, hassignment]

theorem DefinesClass.nameSegments_eq (h : n.DefinesClass absolute path front behind) :
    n.nameSegments = path := by
  obtain ⟨name, hchildren, hfield, hpath⟩ := h.children
  refine defines_iff.mp (.path ?_ hpath.names)
  have hfront : front.find? (fun c => c.label.field == some "name") = none := by
    rw [List.find?_eq_none]
    exact fun c hc => by simpa using h.first c hc
  rw [child?, hchildren, List.find?_append, hfront, List.find?_cons_of_pos (by simpa using hfield)]
  rfl

end RecordMap.Syntax.Node

namespace RecordMap.Model

open Syntax

variable {c d : Place} {n : Node} {path : List Text} {front behind : List Node}

/-! ### Class definitions -/

theorem nodesBelow_eq (c : Place) : nodesBelow c = c.node.descendants :=
  Node.map_node_placesBelow c.above c.index c.node

def textsAmong (test : Node → Bool) (cs : List Node) : List Text :=
  (Node.descendantsOfAll cs).filterMap (textOf? test)

theorem textsAmong_congr {test : Node → Bool} (htest : ∀ n : Node, test n.unplaced = test n)
    {cs ds : List Node} (h : cs.map Node.unplaced = ds.map Node.unplaced) :
    textsAmong test cs = textsAmong test ds := by
  have hunplaced : ∀ cs, textsAmong test cs = textsAmong test (cs.map Node.unplaced) := by
    intro cs
    have htext : (textOf? test) ∘ Node.unplaced = textOf? test := by
      funext n
      simp [textOf?, htest]
    unfold textsAmong
    rw [← Node.unplacedAll_eq, Node.descendantsOfAll_unplacedAll, List.filterMap_map, htext]
  rw [hunplaced cs, hunplaced ds, h]

theorem textsAmong_append (test : Node → Bool) (cs ds : List Node) :
    textsAmong test (cs ++ ds) = textsAmong test cs ++ textsAmong test ds := by
  rw [textsAmong, Node.descendantsOfAll_append, List.filterMap_append]
  rfl

theorem textsAmong_path {test : Node → Bool} {absolute : Bool} {name : Node}
    (htest : ∀ n : Node, test n = true → n.isCall = true) (hpath : name.WritesPath absolute path) :
    textsAmong test [name] = [] := by
  refine List.filterMap_eq_nil_iff.mpr fun m hm => if_neg fun hsets => ?_
  rw [Node.descendantsOfAll_eq] at hm
  obtain ⟨n, hn, hbelow⟩ := List.mem_flatMap.mp hm
  obtain rfl := List.mem_singleton.mp (List.mem_filter.mp hn).1
  have hcall : m.isCall = false := by
    rcases hpath.kind_of_mem m hbelow with hkind | hkind
    · exact Node.isCall_eq_false (by simp [hkind]) (by simp [hkind])
    · exact Node.isCall_eq_false (by simp [hkind]) (by simp [hkind])
  rw [htest m hsets] at hcall
  cases hcall

theorem filterMap_nodesBelow {test : Node → Bool} {absolute : Bool}
    (htest : ∀ n : Node, test n = true → n.isCall = true)
    (h : c.node.DefinesClass absolute path front behind) :
    (nodesBelow c).filterMap (textOf? test) = textsAmong test front ++ textsAmong test behind := by
  obtain ⟨name, hchildren, -, hpath⟩ := h.children
  have hbelow : (nodesBelow c).filterMap (textOf? test) = textsAmong test c.node.children := by
    rw [nodesBelow_eq]
    cases c.node
    rfl
  rw [hbelow, hchildren, ← List.singleton_append, textsAmong_append, textsAmong_append,
    textsAmong_path htest hpath, List.nil_append]

/-- With and without colons in front, and wherever it stands in its source, a class is backed by the
same table. -/
theorem tableName_of_definesClass {absolute absolute' : Bool} {front' behind' : List Node}
    (hc : c.node.DefinesClass absolute path front behind)
    (hd : d.node.DefinesClass absolute' path front' behind')
    (hfront : front.map Node.unplaced = front'.map Node.unplaced)
    (hbehind : behind.map Node.unplaced = behind'.map Node.unplaced)
    (hctop : c.namespaces = []) (hdtop : d.namespaces = []) : tableName c = tableName d := by
  have htexts : ∀ test : Node → Bool, (∀ n : Node, test n.unplaced = test n) →
      (∀ n : Node, test n = true → n.isCall = true) →
      (nodesBelow c).filterMap (textOf? test) = (nodesBelow d).filterMap (textOf? test) := by
    intro test hunplaced hcall
    rw [filterMap_nodesBelow hcall hc, filterMap_nodesBelow hcall hd, textsAmong_congr hunplaced hfront,
      textsAmong_congr hunplaced hbehind]
  have hsetters : ∀ setter, (nodesBelow c).filterMap (textOf? (·.calls setter)) =
      (nodesBelow d).filterMap (textOf? (·.calls setter)) := fun setter =>
    htexts _ (fun n => Node.calls_unplaced n setter) fun n hn => (Bool.and_eq_true_iff.mp hn).1
  have hnames : (nodesBelow c).filterMap (textOf? assignsTableName) =
      (nodesBelow d).filterMap (textOf? assignsTableName) := by
    refine htexts _ (fun n => by simp [assignsTableName, Option.any_map]) fun n hn => ?_
    simp only [assignsTableName, Node.calls, Bool.and_eq_true] at hn
    exact hn.1.1.1
  have hsegments : c.shortSegments = d.shortSegments := by
    rw [Place.shortSegments, Place.shortSegments, hctop, hdtop, hc.nameSegments_eq, hd.nameSegments_eq]
  rw [tableName_eq, tableName_eq, hsegments, TableSettings.below, TableSettings.below, hnames,
    hsetters, hsetters]

/-! ### Associations -/

def AssociationEntry.naming (a : AssociationEntry) (className : Text) : AssociationEntry :=
  { a with association := { a.association with className := some className } }

theorem edge?_naming {a : AssociationEntry} {className column : Text} {rest : List Text}
    (hcolumns : a.columns = column :: rest) (hsingle : a.association.polymorphic = false)
    (hname : className ≠ []) (table : Text) :
    (a.naming className).edgeSource.edge? table = some {
      fromTable := table, toTable := Naming.tableOf (underscoreScopes className)
      fromColumn := column, toColumn := "id".toList, type := "many-to-one".toList } := by
  have htarget : targetClass a.association.name (some className) = className :=
    targetClass_of_pointsTo hname (a := (a.naming className).association) (.inl rfl)
  simp [AssociationEntry.naming, AssociationEntry.edgeSource, EdgeSource.edge?, targetTable, hcolumns,
    hsingle, htarget]

def edgesNaming (e : Entry) (before behind : List AssociationEntry) (a : AssociationEntry)
    (className : Text) : List (Relationship Text) :=
  { e with associations := before ++ a.naming className :: behind }.relationships

theorem edgesNaming_eq {e : Entry} (habstract : e.isAbstract = false)
    (before behind : List AssociationEntry) (a : AssociationEntry) (className : Text) :
    edgesNaming e before behind a className =
      before.filterMap (fun a => a.edgeSource.edge? e.tableName) ++
        (((a.naming className).edgeSource.edge? e.tableName).toList ++
          behind.filterMap fun a => a.edgeSource.edge? e.tableName) := by
  rw [edgesNaming, Entry.relationships, if_neg (by simp [habstract])]
  change (before ++ a.naming className :: behind).filterMap (fun a => a.edgeSource.edge? e.tableName) = _
  rw [List.filterMap_append, List.filterMap_cons]
  cases (a.naming className).edgeSource.edge? e.tableName <;> rfl

theorem joinScopes_ne_nil (hpath : path ≠ []) (hnames : ∀ s ∈ path, s ≠ [] ∧ ':' ∉ s) :
    joinScopes path ≠ [] := by
  obtain ⟨s, rest, rfl⟩ := List.exists_cons_of_ne_nil hpath
  have hs := (hnames s (List.mem_cons_self ..)).1
  cases rest with
  | nil => simpa [joinScopes, List.intercalate] using hs
  | cons t rest => simp [joinScopes, List.intercalate, hs]

theorem edge?_naming_congr {a : AssociationEntry}
    (h : a.columns = [] ∨ a.association.polymorphic = true) (className className' table : Text) :
    (a.naming className).edgeSource.edge? table = (a.naming className').edgeSource.edge? table := by
  rcases h with h | h <;>
    simp [AssociationEntry.naming, AssociationEntry.edgeSource, EdgeSource.edge?, h]

/-- The edges agree but for one of them, which ends at one table or at the other. -/
def DifferInTarget (table table' : Text) (edges edges' : List (Relationship Text)) : Prop :=
  ∃ (front back : List (Relationship Text)) (r : Relationship Text), r.toTable = table ∧
    edges = front ++ r :: back ∧ edges' = front ++ { r with toTable := table' } :: back

theorem DifferInTarget.ne {table table' : Text} {edges edges' : List (Relationship Text)}
    (h : DifferInTarget table table' edges edges') (htable : table' ≠ table) : edges' ≠ edges := by
  obtain ⟨front, back, r, rfl, rfl, rfl⟩ := h
  intro hsame
  obtain ⟨hr, -⟩ := List.cons.inj (List.append_cancel_left hsame)
  exact htable (congrArg Relationship.toTable hr)

theorem edgesNaming_absolute {e : Entry} {a : AssociationEntry} (before behind : List AssociationEntry)
    (hpath : path ≠ []) (hnames : ∀ s ∈ path, s ≠ [] ∧ ':' ∉ s) (habstract : e.isAbstract = false)
    (hcolumns : a.columns ≠ []) (hsingle : a.association.polymorphic = false) :
    DifferInTarget (conventionalName path) (Naming.tableOf ('_' :: ['_'].intercalate path))
      (edgesNaming e before behind a (joinScopes path))
      (edgesNaming e before behind a (':' :: ':' :: joinScopes path)) := by
  obtain ⟨column, rest, hcolumns⟩ := List.exists_cons_of_ne_nil hcolumns
  have hjoined := underscoreScopes_joinScopes fun s hs => (hnames s hs).2
  have hedge := edge?_naming hcolumns hsingle (joinScopes_ne_nil hpath hnames) e.tableName
  have hedge' := edge?_naming hcolumns hsingle (List.cons_ne_nil ':' (':' :: joinScopes path))
    e.tableName
  rw [hjoined] at hedge
  rw [underscoreScopes, hjoined] at hedge'
  rw [edgesNaming_eq habstract, edgesNaming_eq habstract, hedge, hedge']
  exact ⟨_, _, _, rfl, rfl, rfl⟩

/-- Two colons in front of the class name of an association make no difference only where it has no
edge with a single target. Every other edge leads to another table with them, whose name begins with
an underscore. In front of the name of a class they make no difference to its table. -/
theorem edgesNaming_absolute_eq_iff (e : Entry) (before behind : List AssociationEntry)
    (a : AssociationEntry) {path : List Text} (hpath : path ≠ [])
    (hnames : ∀ s ∈ path, s ≠ [] ∧ ':' ∉ s) :
    (edgesNaming e before behind a (':' :: ':' :: joinScopes path) =
        edgesNaming e before behind a (joinScopes path) ↔
      e.isAbstract = true ∨ a.columns = [] ∨ a.association.polymorphic = true) ∧
    (e.isAbstract = false → a.columns ≠ [] → a.association.polymorphic = false →
      DifferInTarget (conventionalName path) (Naming.tableOf ('_' :: ['_'].intercalate path))
        (edgesNaming e before behind a (joinScopes path))
        (edgesNaming e before behind a (':' :: ':' :: joinScopes path))) ∧
    (Naming.tableOf ('_' :: ['_'].intercalate path)).head? = some '_' ∧
    Naming.tableOf ('_' :: ['_'].intercalate path) ≠ conventionalName path ∧
    ∀ (c d : Place) (absolute absolute' : Bool) (front behind front' behind' : List Node),
      c.node.DefinesClass absolute path front behind →
      d.node.DefinesClass absolute' path front' behind' →
      front.map Node.unplaced = front'.map Node.unplaced →
      behind.map Node.unplaced = behind'.map Node.unplaced →
      c.namespaces = [] → d.namespaces = [] → tableName c = tableName d := by
  have hother := Naming.tableOf_underscore_ne (['_'].intercalate path)
  have hdiffer := fun (habstract : e.isAbstract = false) (hcolumns : a.columns ≠ []) =>
    edgesNaming_absolute before behind hpath hnames habstract hcolumns
  refine ⟨⟨fun hsame => ?_, fun h => ?_⟩, hdiffer, Naming.head?_tableOf_underscore _, hother,
    fun c d _ _ front behind front' behind' => tableName_of_definesClass⟩
  · by_contra hnone
    obtain ⟨habstract, hcolumns, hsingle⟩ := by simpa only [not_or] using hnone
    have hedges := hdiffer (Bool.eq_false_iff.mpr habstract) hcolumns (Bool.eq_false_iff.mpr hsingle)
    exact hedges.ne hother hsame
  · cases habstract : e.isAbstract with
    | true => simp [edgesNaming, Entry.relationships, habstract]
    | false =>
      have hcongr := edge?_naming_congr (h.resolve_left (by simp [habstract]))
      rw [edgesNaming_eq habstract, edgesNaming_eq habstract, hcongr _ (joinScopes path)]

/-- The edges of comments to the class `Blog::Post` end at another table where it is named from the top.
-/
theorem edgesNaming_absolutePost :
    let edges (className : String) := edgesNaming commentEntry [] [] postAssociation className.toList
    (edges "Blog::Post").map (·.toTable) = ["blog_posts".toList] ∧
      (edges "::Blog::Post").map (·.toTable) = ["_blog_posts".toList] ∧
      edges "::Blog::Post" ≠ edges "Blog::Post" := by
  decide +kernel

/-- The class in `class Blog::Post; belongs_to :author; end`, or in `class ::Blog::Post; …`. -/
def blogPost (absolute : Bool) : Place :=
  let blog := if absolute then
      plainNode "scope_resolution" (some "scope") "::Blog"
        [signNode "::", plainNode "constant" (some "name") "Blog" []]
    else plainNode "constant" (some "scope") "Blog" []
  .top (plainNode "class" none "class Blog::Post"
    [plainNode "scope_resolution" (some "name") "Blog::Post"
      [blog, signNode "::", plainNode "constant" (some "name") "Post" []],
      plainNode "body_statement" (some "body") "belongs_to :author" [belongsToCall "author" []]])

theorem tableName_blogPost :
    edgesNaming commentEntry [] [] postAssociation "::Blog::Post".toList ≠
        edgesNaming commentEntry [] [] postAssociation "Blog::Post".toList ∧
      tableName (blogPost true) = tableName (blogPost false) ∧
      tableName (blogPost false) = "blog_posts".toList := by
  have hpath : ∀ absolute, (blogPost absolute).node.DefinesClass absolute
      ["Blog".toList, "Post".toList] []
      [plainNode "body_statement" (some "body") "belongs_to :author" [belongsToCall "author" []]] := by
    intro absolute
    refine ⟨rfl, ⟨_, rfl, rfl, ?_⟩, by simp⟩
    let constant (field name : String) := plainNode "constant" (some field) name []
    refine @Node.WritesPath.inScope _ _ _ (constant "name" "Post") _ ["Blog".toList]
      rfl rfl ?_ ?_ ⟨rfl, rfl⟩ ⟨rfl, rfl, rfl⟩
    · cases absolute <;> rfl
    · cases absolute with
      | false => exact @Node.WritesPath.constant (constant "scope" "Blog") rfl rfl
      | true =>
        exact @Node.WritesPath.atTop _ _ (constant "name" "Blog") rfl rfl ⟨rfl, rfl⟩ ⟨rfl, rfl, rfl⟩
  obtain ⟨hedges, -, -, -, htables⟩ := edgesNaming_absolute_eq_iff commentEntry [] [] postAssociation
    (List.cons_ne_nil "Blog".toList ["Post".toList]) (by decide)
  exact ⟨fun hsame => absurd (hedges.mp hsame) (by decide),
    htables _ _ _ _ _ _ _ _ (hpath true) (hpath false) rfl rfl rfl rfl, by decide +kernel⟩

end RecordMap.Model
