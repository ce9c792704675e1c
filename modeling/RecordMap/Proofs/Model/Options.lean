import RecordMap.Proofs.Model.Resolution

/-! An association can be declared with its options spelled in many ways. What is read of it are the
first values of its options, however they are spelled. -/

namespace RecordMap.Model

open Syntax

variable {n call pair value first hash : Node} {name key : Text} {nodes others rest : List Node}

/-! ### Spellings -/

/-- The node stands for the key in the pair `key: value`, `:key => value` or `"key": value`. -/
inductive SpellsKey (pair k : Node) (key : Text) : Prop where
  | colon (hkind : k.kind = "hash_key_symbol") (htext : k.text = key) : SpellsKey pair k key
  | arrow (hkind : k.kind = "simple_symbol") (htext : k.text = ':' :: key) : SpellsKey pair k key
  | quoted (hkind : k.kind = "string")
      (hparts : ∀ part ∈ k.namedChildren, part.kind = "string_content")
      (htext : k.namedChildren.flatMap Node.text = key)
      (hcolon : ∀ c ∈ pair.children, c.kind ≠ "=>") : SpellsKey pair k key

structure Spells (pair : Node) (key : Text) (value : Node) : Prop where
  isPair : pair.kind = "pair"
  key : ∃ k, pair.child? "key" = some k ∧ SpellsKey pair k key
  value : pair.child? "value" = some value

/-- A comment, a splat or a pair with a string as its key, `"key" => value`. -/
inductive IsFiller (n : Node) : Prop where
  | comment (hkind : n.kind = "comment") : IsFiller n
  | splat (hkind : n.kind = "splat_argument" ∨ n.kind = "hash_splat_argument") : IsFiller n
  | stringKey {k c : Node} (hkind : n.kind = "pair") (hkey : n.child? "key" = some k)
      (hstring : k.kind = "string") (hc : c ∈ n.children) (harrow : c.kind = "=>") : IsFiller n

/-- Keys with the literals that are their values. A value that is no literal is missing. -/
abbrev OptionList := List (Text × Option Literal)

/-- The nodes spell some options in their order, each in its own way, with anything in between that is
no option. -/
inductive SpellOptions : OptionList → List Node → Prop where
  | nil : SpellOptions [] []
  | option {options : OptionList} {nodes : List Node} {key : Text} {pair value : Node}
      (h : Spells pair key value) (hrest : SpellOptions options nodes) :
      SpellOptions ((key, value.literal?) :: options) (pair :: nodes)
  | filler {options : OptionList} {nodes : List Node} {n : Node} (h : IsFiller n)
      (hrest : SpellOptions options nodes) : SpellOptions options (n :: nodes)

/-- The arguments of a declaration: a name, others that are neither pairs nor hashes, and the options,
as they are or in braces. -/
inductive SpellArguments (name : Text) (options : OptionList) : List Node → Prop where
  | bare {first : Node} {others nodes : List Node} (hname : first.Denotes name)
      (hothers : ∀ n ∈ others, n.kind ≠ "pair" ∧ n.kind ≠ "hash")
      (h : SpellOptions options nodes) : SpellArguments name options (first :: (others ++ nodes))
  | braced {first hash : Node} {others : List Node} (hname : first.Denotes name)
      (hothers : ∀ n ∈ others, n.kind ≠ "pair" ∧ n.kind ≠ "hash") (hhash : hash.kind = "hash")
      (h : SpellOptions options hash.namedChildren) :
      SpellArguments name options (first :: (others ++ [hash]))

/-- A call `belongs_to :name, …` with the options, and with comments anywhere between its arguments. -/
structure SpellsDeclaration (call : Node) (name : Text) (options : OptionList) : Prop where
  isCall : call.kind = "call"
  method : ∃ method, call.child? "method" = some method ∧ method.text = "belongs_to".toList
  bare : call.child? "receiver" = none
  arguments : ∃ list, call.child? "arguments" = some list ∧
    SpellArguments name options (list.namedChildren.filter (·.kind ≠ "comment"))

def Association.ofOptions (name : Text) (options : OptionList) : Association where
  name
  foreignKey := (options.lookup "foreign_key".toList).join.bind Literal.text?
  polymorphic := (options.lookup "polymorphic".toList).join == some (.truth true)
  className := (options.lookup "class_name".toList).join.bind Literal.text?

/-! ### Options as they are read -/

theorem Spells.isOption (h : Spells pair key value) : IsOption pair key value := by
  obtain ⟨-, ⟨k, hchild, hkey⟩, hvalue⟩ := h
  refine ⟨hvalue, k, hchild, ?_⟩
  cases hkey with
  | colon hkind htext =>
    refine ⟨htext ▸ .key hkind, .inl ?_⟩
    rw [hkind]
    decide
  | arrow hkind htext =>
    have hdenotes := Node.Denotes.symbol hkind
    rw [htext] at hdenotes
    refine ⟨hdenotes, .inl ?_⟩
    rw [hkind]
    decide
  | quoted hkind hparts htext hcolon => exact ⟨htext ▸ .quoted (.inl hkind) hparts, .inr hcolon⟩

theorem IsFiller.not_isOption (h : IsFiller n) (hpair : n.kind = "pair") : ¬ IsOption n key value := by
  rintro ⟨-, k, hkey, -, hspelled⟩
  rcases h with hkind | (hkind | hkind) | ⟨-, hkey', hstring, hc, harrow⟩
  · exact absurd (hpair.symm.trans hkind) (by decide)
  · exact absurd (hpair.symm.trans hkind) (by decide)
  · exact absurd (hpair.symm.trans hkind) (by decide)
  · rw [hkey] at hkey'
    cases hkey'
    rcases hspelled with hspelled | hspelled
    · exact hspelled hstring
    · exact hspelled _ hc harrow

theorem lookup_of_spellOptions {options : OptionList} (h : SpellOptions options nodes) (key : Text) :
    (((nodes.filter (·.is "pair")).filterMap option?).lookup key).map Node.literal? =
      options.lookup key := by
  induction h with
  | nil => rfl
  | option h hrest ih =>
    have hoption := option?_eq_some_iff.mpr h.isOption
    have hpair := Node.is_iff.mpr h.isPair
    rw [List.filter_cons_of_pos (by exact hpair), List.filterMap_cons_some hoption,
      List.lookup_cons, List.lookup_cons, ← ih]
    split <;> rfl
  | filler h hrest ih =>
    rw [← ih, List.filter_cons]
    split
    case isTrue hpair =>
      have hnone := Option.eq_none_iff_forall_ne_some.mpr fun entry hentry =>
        h.not_isOption (Node.is_iff.mp hpair) (option?_eq_some_iff.mp hentry)
      rw [List.filterMap_cons_none hnone]
    case isFalse => rfl

theorem optionPairs_of_bare (harguments : call.arguments = first :: rest)
    (hrest : ∀ n ∈ rest, n.kind ≠ "hash") : optionPairs call = rest.filter (·.is "pair") := by
  unfold optionPairs
  rw [harguments]
  cases rest with
  | nil => rfl
  | cons n rest =>
    have hlast := List.getLast?_eq_some_getLast (List.cons_ne_nil n rest)
    have hhash := mt Node.is_iff.mp (hrest _ (List.getLast_mem (List.cons_ne_nil n rest)))
    simp only [hlast, if_neg hhash]

theorem optionPairs_of_braced (harguments : call.arguments = first :: (others ++ [hash]))
    (hhash : hash.kind = "hash") : optionPairs call = hash.namedChildren.filter (·.is "pair") := by
  unfold optionPairs
  rw [harguments]
  cases others with
  | nil => simp only [List.nil_append, List.getLast?_singleton, if_pos (Node.is_iff.mpr hhash)]
  | cons n others =>
    have hlast : (n :: others ++ [hash]).getLast? = some hash := List.getLast?_concat
    simp only [List.cons_append] at hlast ⊢
    simp only [hlast, if_pos (Node.is_iff.mpr hhash)]

/-! ### Declarations as they are read -/

theorem SpellOptions.kind_ne_hash {options : OptionList} (h : SpellOptions options nodes) :
    ∀ n ∈ nodes, n.kind ≠ "hash" := by
  induction h with
  | nil => simp
  | option h hrest ih =>
    refine List.forall_mem_cons.mpr ⟨?_, ih⟩
    rw [h.isPair]
    decide
  | filler h hrest ih =>
    refine List.forall_mem_cons.mpr ⟨?_, ih⟩
    rcases h with hkind | (hkind | hkind) | ⟨hkind, -, -, -, -⟩ <;> rw [hkind] <;> decide

theorem SpellsDeclaration.arguments_eq {options : OptionList} (h : SpellsDeclaration call name options) :
    SpellArguments name options call.arguments := by
  obtain ⟨list, hlist, harguments⟩ := h.arguments
  have hcomments : (fun a : Node => !a.is "comment") = fun a => decide (a.kind ≠ "comment") := by
    funext a
    rw [Node.is, beq_eq_decide, decide_not]
  unfold Node.arguments
  rw [if_pos (Node.is_iff.mpr h.isCall), hlist]
  simpa only [hcomments] using harguments

theorem SpellArguments.lookup_options {options : OptionList}
    (h : SpellArguments name options call.arguments) (key : Text) :
    ((Model.options call).lookup key).map Node.literal? = options.lookup key := by
  unfold Model.options
  rw [lookup_firstOfEach]
  generalize harguments : call.arguments = arguments at h
  cases h with
  | @bare first others nodes hname hothers h =>
    have hpairs : others.filter (·.is "pair") = [] := by
      rw [List.filter_eq_nil_iff]
      exact fun n hn => mt Node.is_iff.mp (hothers n hn).1
    have hhash : ∀ n ∈ others ++ nodes, n.kind ≠ "hash" :=
      List.forall_mem_append.mpr ⟨fun n hn => (hothers n hn).2, h.kind_ne_hash⟩
    rw [optionPairs_of_bare harguments hhash, List.filter_append, hpairs, List.nil_append]
    exact lookup_of_spellOptions h key
  | braced hname hothers hhash h =>
    rw [optionPairs_of_braced harguments hhash]
    exact lookup_of_spellOptions h key

theorem SpellArguments.firstText? {options : OptionList}
    (h : SpellArguments name options call.arguments) : call.firstText? = some name := by
  unfold Node.firstText? Node.firstArgument?
  generalize call.arguments = arguments at h
  cases h with
  | bare hname _ _ => exact Node.textLiteral?_eq_some_iff.mpr hname
  | braced hname _ _ _ => exact Node.textLiteral?_eq_some_iff.mpr hname

theorem SpellsDeclaration.declaresAssociation {options : OptionList}
    (h : SpellsDeclaration call name options) : Model.declaresAssociation call = true := by
  obtain ⟨method, hmethod, htext⟩ := h.method
  have hcall := Node.is_iff.mpr h.isCall
  have hname := h.arguments_eq.firstText?
  have hreceiver := h.bare
  simp [Model.declaresAssociation, Node.methodName?, Node.calledName?, Node.receiver?, hcall, hmethod,
    htext, hreceiver, hname]

theorem SpellsDeclaration.ofCall? {options : OptionList} (h : SpellsDeclaration call name options) :
    Association.ofCall? call = some (.ofOptions name options) := by
  have hvalue : ∀ option : String,
      optionValue? call option = (options.lookup option.toList).join := by
    intro option
    rw [← h.arguments_eq.lookup_options, optionValue?, ← Option.bind_id_eq_join, Option.bind_map]
    rfl
  unfold Association.ofCall? Association.ofOptions
  rw [h.arguments_eq.firstText?, Option.map_some, hvalue, hvalue, hvalue]

/-! ### What does not matter -/

theorem SpellOptions.insert_filler {options : OptionList} {behind : List Node} (hn : IsFiller n)
    (h : SpellOptions options (nodes ++ behind)) : SpellOptions options (nodes ++ n :: behind) := by
  induction nodes generalizing options with
  | nil => exact .filler hn h
  | cons m nodes ih =>
    rw [List.cons_append] at h ⊢
    cases h with
    | option h hrest => exact .option h (ih hrest)
    | filler h hrest => exact .filler h (ih hrest)

theorem lookup_append_repeated {before behind : OptionList} {l : Option Literal}
    (h : key ∈ before.map Prod.fst) (k : Text) :
    (before ++ (key, l) :: behind).lookup k = (before ++ behind).lookup k := by
  rw [List.lookup_append, List.lookup_append, List.lookup_cons]
  by_cases hk : k = key
  · obtain ⟨entry, hentry, hkey⟩ := List.mem_map.mp h
    have hfound : (before.lookup k).isSome = true := by
      rw [List.lookup_isSome_iff]
      exact ⟨entry, hentry, beq_iff_eq.mpr (hk.trans hkey.symm)⟩
    obtain ⟨value, hvalue⟩ := Option.isSome_iff_exists.mp hfound
    rw [hvalue, Option.some_or, Option.some_or]
  · rw [beq_eq_false_iff_ne.mpr hk]

theorem ofOptions_repeated {before behind : OptionList} {l : Option Literal}
    (h : key ∈ before.map Prod.fst) :
    Association.ofOptions name (before ++ (key, l) :: behind) =
      Association.ofOptions name (before ++ behind) := by
  unfold Association.ofOptions
  simp only [lookup_append_repeated h]

/-- All spellings of some options declare the same association, that of the name with the options. The
first value of a key decides, also where it is no literal, and fillers change nothing. -/
theorem association_decided_by_options (name : Text) (options : OptionList) :
    (∀ call, SpellsDeclaration call name options → declaresAssociation call = true ∧
      Association.ofCall? call = some (.ofOptions name options)) ∧
    (∀ call call', SpellsDeclaration call name options → SpellsDeclaration call' name options →
      Association.ofCall? call = Association.ofCall? call') ∧
    (∀ (c p : Place), p ∈ c.below → SpellsDeclaration p.node name options →
      (Association.ofOptions name options, p.node) ∈ declarations c) ∧
    (∀ before key value behind, options = before ++ (key, value) :: behind →
      key ∈ before.map Prod.fst →
        Association.ofOptions name options = .ofOptions name (before ++ behind)) ∧
    ∀ nodes behind n, IsFiller n → SpellOptions options (nodes ++ behind) →
      SpellOptions options (nodes ++ n :: behind) := by
  refine ⟨fun call h => ⟨h.declaresAssociation, h.ofCall?⟩, fun call call' h h' => ?_,
    fun c p hp h => ?_, ?_, fun nodes behind n hn h => h.insert_filler hn⟩
  · rw [h.ofCall?, h'.ofCall?]
  · refine List.mem_filterMap.mpr ⟨p, Place.mem_findAll_iff.mpr ⟨hp, h.declaresAssociation⟩, ?_⟩
    rw [h.ofCall?, Option.map_some]
  · rintro before key value behind rfl hkey
    exact ofOptions_repeated hkey

def optionPair (key : Node) (sign : String) (value : Node) : Node :=
  plainNode "pair" none "" [key, signNode sign, value]

def stringNode (field : Option String) (text : String) : Node :=
  plainNode "string" field text [plainNode "string_content" none text []]

theorem spells_optionPair {k value : Node} {sign : String} (hkey : k.label.field = some "key")
    (hvalue : value.label.field = some "value") (hspelled : SpellsKey (optionPair k sign value) k key) :
    Spells (optionPair k sign value) key value where
  isPair := rfl
  key := ⟨k, by simp [optionPair, plainNode, Node.child?, hkey], hspelled⟩
  value := by
    have hsign : (signNode sign).label.field = none := rfl
    simp [optionPair, plainNode, Node.child?, hkey, hsign, hvalue]

/-- The options `class_name: 'User', foreign_key: compute, foreign_key: :writer_id`. -/
def writerOptions : OptionList :=
  [("class_name".toList, some (.text "User".toList)), ("foreign_key".toList, none),
    ("foreign_key".toList, some (.text "writer_id".toList))]

theorem association_writerOptions :
    let user := stringNode (some "value") "User"
    let compute := plainNode "identifier" (some "value") "compute" []
    let writer := plainNode "simple_symbol" (some "value") ":writer_id" []
    let comment := plainNode "comment" none "# the writer" []
    let bare := belongsToCall "author" [plainNode "lambda" none "-> { active }" [], comment,
      optionPair (plainNode "hash_key_symbol" (some "key") "class_name" []) ":" user,
      optionPair (plainNode "simple_symbol" (some "key") ":foreign_key" []) "=>" compute,
      optionPair (plainNode "hash_key_symbol" (some "key") "foreign_key" []) ":" writer]
    let braced := belongsToCall "author" [plainNode "hash" none "" [
      plainNode "hash_splat_argument" none "**rest" [],
      optionPair (stringNode (some "key") "foreign_key") "=>" writer,
      optionPair (stringNode (some "key") "class_name") ":" user, comment,
      optionPair (stringNode (some "key") "foreign_key") ":" compute,
      optionPair (plainNode "simple_symbol" (some "key") ":foreign_key" []) "=>" writer], comment]
    SpellsDeclaration bare "author".toList writerOptions ∧
      SpellsDeclaration braced "author".toList writerOptions ∧
      Association.ofCall? bare = Association.ofCall? braced ∧
      Association.ofCall? bare =
        some { name := "author".toList, className := some "User".toList } := by
  intro user compute writer comment bare braced
  have hbare : SpellsDeclaration bare "author".toList writerOptions := by
    refine ⟨rfl, ⟨_, rfl, rfl⟩, rfl, _, rfl, ?_⟩
    refine @SpellArguments.bare _ _ _ [plainNode "lambda" none "-> { active }" []] _ (.symbol rfl)
      (by decide) ?_
    refine @SpellOptions.option _ _ _ _ user (spells_optionPair rfl rfl (.colon rfl rfl)) ?_
    refine @SpellOptions.option _ _ _ _ compute (spells_optionPair rfl rfl (.arrow rfl rfl)) ?_
    exact @SpellOptions.option _ _ _ _ writer (spells_optionPair rfl rfl (.colon rfl rfl)) .nil
  have hbraced : SpellsDeclaration braced "author".toList writerOptions := by
    refine ⟨rfl, ⟨_, rfl, rfl⟩, rfl, _, rfl, ?_⟩
    refine @SpellArguments.braced _ _ _ _ [] (.symbol rfl) (by decide) rfl ?_
    refine .filler (.splat (.inr rfl)) ?_
    refine .filler (.stringKey rfl rfl rfl (List.mem_cons_of_mem _ (List.mem_cons_self ..)) rfl) ?_
    refine @SpellOptions.option _ _ _ _ user (spells_optionPair rfl rfl ?_) (.filler (.comment rfl) ?_)
    · exact .quoted rfl (by decide) rfl (by decide)
    refine @SpellOptions.option _ _ _ _ compute (spells_optionPair rfl rfl ?_) ?_
    · exact .quoted rfl (by decide) rfl (by decide)
    exact @SpellOptions.option _ _ _ _ writer (spells_optionPair rfl rfl (.arrow rfl rfl)) .nil
  have hsame := association_decided_by_options "author".toList writerOptions
  refine ⟨hbare, hbraced, hsame.2.1 _ _ hbare hbraced, ?_⟩
  rw [(hsame.1 _ hbare).2]
  decide

end RecordMap.Model
