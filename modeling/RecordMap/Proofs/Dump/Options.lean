import RecordMap.Proofs.Dump.Openings
import RecordMap.Schema.Dump.Columns

/-! What is read from the options of tables and columns. -/

namespace RecordMap.Schema.Written

open Dump Text

variable {α : Type}

theorem firstAfter_of_match {p : Pattern α} {before : Option Char} {t rest : Text} {a : α} (ht : t ≠ [])
    (h : p before t = some (a, rest)) : p.firstAfter before t = some a := by
  obtain ⟨c, t, rfl⟩ := List.exists_cons_of_ne_nil ht
  rw [Pattern.firstAfter, h]

/-! ### Keys -/

theorem option_eq_none {name : String} {value : Text → Option (α × Text)} {before : Option Char}
    {t : Text} (h : afterAll? (name ++ ":") t = none) : option name value before t = none := by
  rw [option]
  cases hname : afterAll? name t with
  | none => rfl
  | some rest =>
    have hcolon : after? ':' rest = none := by
      rw [Option.eq_none_iff_forall_ne_some]
      intro r hr
      have hkey : afterAll? (name ++ ":") t = some r := by
        rw [afterAll?_eq_some_iff, afterAll?_eq_some_iff.mp hname, after?_eq_some_iff.mp hr,
          String.toList_append, List.append_assoc]
        rfl
      rw [h] at hkey
      cases hkey
    simp only [hcolon, Option.bind_eq_bind, Option.bind_some, Option.bind_none]

theorem wholeOption_eq_none {name : String} {value : Text → Option (α × Text)}
    {before : Option Char} {t : Text} (h : option name value before t = none) :
    wholeOption name value before t = none := by
  rw [wholeOption, h, ite_self]

theorem option_key {name : String} {value : Text → Option (α × Text)} (t : Text)
    (before : Option Char) :
    option name value before ((name ++ ":").toList ++ t) = value (dropBlanks t) := by
  have hname : afterAll? name ((name ++ ":").toList ++ t) = some (':' :: t) := by
    rw [afterAll?_eq_some_iff, String.toList_append, List.append_assoc]
    rfl
  simp only [option, hname, after?_cons, Option.bind_eq_bind, Option.bind_some]

structure IsKey (key : String) : Prop where
  all_isKeyChar : key.toList.all isKeyChar = true
  head : key.toList.head?.any isWordChar = true
  colon : ':' ∈ key.toList

theorem afterAll?_key_cons {key : String} (hkey : IsKey key) {c : Char} (hc : isWordChar c = false)
    (t : Text) : afterAll? key (c :: t) = none := by
  have hhead := hkey.head
  refine afterAll?_cons_eq_none (fun heq => ?_) (fun hnil => ?_) t
  · rw [heq, Option.any_some, hc] at hhead
    cases hhead
  · rw [hnil] at hhead
    cases hhead

theorem afterAll?_key_of_not_mem {key : String} (hkey : IsKey key) {u rest : Text} (hu : u ≠ [])
    (hcolon : ':' ∉ u) (hrest : Separate u rest) : afterAll? key (u ++ rest) = none := by
  refine afterAll?_extend hkey.all_isKeyChar hu hrest ?_
  rw [Option.eq_none_iff_forall_ne_some]
  intro t ht
  rw [afterAll?_eq_some_iff] at ht
  refine hcolon ?_
  rw [ht]
  exact List.mem_append_left _ hkey.colon

theorem verbatim_passesOver_argument {key : String} (hkey : IsKey key) (a : Argument) {rest : Text}
    (hrest : rest.head?.any isKeyChar = false) (before : Option Char) :
    (Pattern.verbatim key).PassesOver before (a.write .code) rest := by
  have hword : ∀ {w : Text}, ':' ∉ w → ∀ b, (Pattern.verbatim key).PassesOver b w rest := by
    intro w hw b
    refine Pattern.passesOver_of_suffix fun b u hu hsuffix => ?_
    rw [Pattern.verbatim, afterAll?_key_of_not_mem hkey hu (fun hmem => hw (hsuffix.subset hmem))
      (.inr hrest)]
    rfl
  have hnot : ∀ {w : Text}, (∀ c ∈ w, isWordChar c = true) → ':' ∉ w := fun hw hmem =>
    absurd (hw _ hmem) (by decide)
  cases a with
  | nothing => trivial
  | number digits => exact hword (hnot digits.isWordChar) before
  | name n =>
    cases n with
    | symbol word =>
      refine ⟨?_, hword (hnot word.isWordChar) _⟩
      rw [Pattern.verbatim, afterAll?_key_cons hkey (by decide)]
      rfl
    | quoted mark content =>
      refine hword (fun hmem => ?_) before
      rcases List.mem_append.mp hmem with hmem | hmem
      · rcases List.mem_cons.mp hmem with heq | hmem
        · cases mark <;> exact absurd heq (by decide)
        · exact content.not_mem (by decide) hmem
      · cases mark <;> exact absurd (List.mem_singleton.mp hmem) (by decide)

theorem option_passesOver_of_verbatim {name : String} {value : Text → Option (α × Text)}
    {before : Option Char} {s rest : Text}
    (h : (Pattern.verbatim (name ++ ":")).PassesOver before s rest) :
    (option name value).PassesOver before s rest := by
  refine h.mono fun b t hnone => option_eq_none ?_
  rwa [Pattern.verbatim, Option.map_eq_none_iff] at hnone

theorem option_passesOver_token {name : String} {value : Text → Option (α × Text)}
    (hkey : IsKey (name ++ ":")) {t : Token} (ht : t.Sound)
    (hcode : (Pattern.verbatim (name ++ ":")).PassesOver none t.code []) {rest : Text}
    (hrest : rest.head?.any isKeyChar = false) (before : Option Char) :
    (option name value).PassesOver before (t.write .code) rest := by
  have hverbatim : (Pattern.verbatim (name ++ ":")).PassesOver before (t.write .code) rest := by
    rw [Token.write, Pattern.passesOver_append]
    refine ⟨?_, verbatim_passesOver_argument hkey t.argument hrest _⟩
    have hbefore : (Pattern.verbatim (name ++ ":")).PassesOver before t.code [] := by
      cases hc : t.code with
      | nil => trivial
      | cons c code =>
        rw [hc] at hcode
        exact ⟨hcode.1, hcode.2⟩
    refine hbefore.extend fun b u hu hsuffix hnone => ?_
    rw [Pattern.verbatim, Option.map_eq_none_iff] at hnone ⊢
    exact afterAll?_extend hkey.all_isKeyChar hu ((ht.separate .code hrest).of_suffix hu hsuffix) hnone
  exact option_passesOver_of_verbatim hverbatim

theorem option_passesOver_tokens {name : String} {value : Text → Option (α × Text)}
    (hkey : IsKey (name ++ ":")) {ts : List Token} (hts : ∀ t ∈ ts, t.Sound)
    (hcode : ∀ t ∈ ts, (Pattern.verbatim (name ++ ":")).PassesOver none t.code []) {rest : Text}
    (hrest : rest.head?.any isKeyChar = false) (before : Option Char) :
    (option name value).PassesOver before (writeTokens .code ts) rest := by
  induction ts generalizing before with
  | nil => trivial
  | cons t ts ih =>
    obtain ⟨ht, hts⟩ := List.forall_mem_cons.mp hts
    obtain ⟨hc, hcode⟩ := List.forall_mem_cons.mp hcode
    rw [writeTokens_cons, Pattern.passesOver_append]
    exact ⟨option_passesOver_token hkey ht hc (head?_writeTokens hts .code hrest) before,
      ih hts hcode _⟩

theorem wholeOption_passesOver {name : String} {value : Text → Option (α × Text)}
    {before : Option Char} {s rest : Text} (h : (option name value).PassesOver before s rest) :
    (wholeOption name value).PassesOver before s rest :=
  h.mono fun _ _ hnone => wholeOption_eq_none hnone

/-- A pattern reads from the token of each option what `f` gives, and nothing else. -/
structure ReadsOptions {ο : Type} (p : Pattern α) (token : ο → Token) (f : ο → Option α) : Prop where
  sound : ∀ o, (token o).Sound
  match_of_some : ∀ o a before rest, rest.head?.any isKeyChar = false → f o = some a →
    p.firstAfter before ((token o).write .code ++ rest) = some a
  passesOver_of_none : ∀ o before rest, rest.head?.any isKeyChar = false → f o = none →
    p.PassesOver before ((token o).write .code) rest

/-- The first option that gives something is read, and without one what follows the options. -/
theorem ReadsOptions.firstAfter_append {ο : Type} {p : Pattern α} {token : ο → Token}
    {f : ο → Option α} (h : ReadsOptions p token f) (os : List ο) {rest : Text} {r : Option α}
    (hhead : rest.head?.any isKeyChar = false) (hrest : ∀ before, p.firstAfter before rest = r)
    (before : Option Char) :
    p.firstAfter before (writeTokens .code (os.map token) ++ rest) = (os.findSome? f).or r := by
  induction os generalizing before with
  | nil => exact hrest before
  | cons o os ih =>
    have hsound : ∀ t ∈ os.map token, t.Sound := by
      intro t ht
      obtain ⟨o', _, rfl⟩ := List.mem_map.mp ht
      exact h.sound o'
    rw [List.map_cons, writeTokens_cons, List.append_assoc]
    cases hf : f o with
    | some a =>
      rw [h.match_of_some o a before _ (head?_writeTokens hsound .code hhead) hf,
        List.findSome?_cons_of_isSome (by rw [hf]; rfl), hf]
      rfl
    | none =>
      rw [Pattern.firstAfter_of_passesOver
        (h.passesOver_of_none o before _ (head?_writeTokens hsound .code hhead) hf), ih,
        List.findSome?_cons_of_isNone (by rw [hf]; rfl)]

theorem ReadsOptions.firstAfter_eq {ο : Type} {p : Pattern α} {token : ο → Token} {f : ο → Option α}
    (h : ReadsOptions p token f) (os : List ο) {rest : Text}
    (hhead : rest.head?.any isKeyChar = false) (hrest : ∀ before, p.firstAfter before rest = none)
    (before : Option Char) :
    p.firstAfter before (writeTokens .code (os.map token) ++ rest) = os.findSome? f := by
  rw [h.firstAfter_append os hhead hrest, Option.or_none]

theorem firstAfter_option {name : String} {value : Text → Option (α × Text)}
    (hkey : IsKey (name ++ ":")) {back rest : Text} {a : α}
    (hvalue : value (dropBlanks back) = some (a, rest))
    (before : Option Char) :
    (option name value).firstAfter before (", ".toList ++ ((name ++ ":").toList ++ back)) = some a ∧
      (wholeOption name value).firstAfter before (", ".toList ++ ((name ++ ":").toList ++ back)) =
        some a := by
  have hcomma : (option name value).PassesOver before ", ".toList ((name ++ ":").toList ++ back) := by
    refine Pattern.passesOver_of_forall fun c hc b t => option_eq_none (afterAll?_key_cons hkey ?_ t)
    have hnone : ∀ d ∈ ", ".toList, isWordChar d = false := by decide
    exact hnone c hc
  have hne : (name ++ ":").toList ++ back ≠ [] := by
    rw [String.toList_append, List.append_assoc]
    exact List.append_ne_nil_of_right_ne_nil _ (List.cons_ne_nil _ _)
  have hmatch : ∀ b, option name value b ((name ++ ":").toList ++ back) = some (a, rest) := fun b => by
    rw [option_key, hvalue]
  constructor
  · rw [Pattern.firstAfter_of_passesOver hcomma]
    exact firstAfter_of_match hne (hmatch _)
  · have hwhole : ∀ b, startsWord b = true →
        wholeOption name value b ((name ++ ":").toList ++ back) = some (a, rest) := fun b hb => by
      rw [wholeOption, if_pos hb, hmatch]
    rw [Pattern.firstAfter_of_passesOver (wholeOption_passesOver hcomma)]
    exact firstAfter_of_match hne (hwhole _ rfl)

theorem flag_value {k : String} (hk : k.toList.head?.any isBlank = false) (hne : k.toList ≠ [])
    (rest : Text) :
    (afterAll? k (dropBlanks (' ' :: (k.toList ++ rest)))).map ((), ·) = some ((), rest) := by
  have hhead : (k.toList ++ rest).head?.any isBlank = false := by
    obtain ⟨c, t, hcons⟩ := List.exists_cons_of_ne_nil hne
    rw [hcons] at hk ⊢
    exact hk
  have hdrop : dropBlanks (' ' :: (k.toList ++ rest)) = k.toList ++ rest :=
    (dropBlanks_blanks (s := [' ']) (by decide) _).trans (dropBlanks_of_head hhead)
  rw [hdrop, afterAll?_eq_some_iff.mpr rfl]
  rfl

/-! ### Options of tables -/

theorem isKey_id : IsKey ("id" ++ ":") := ⟨by decide, by decide, by decide⟩

theorem isKey_primaryKey : IsKey ("primary_key" ++ ":") := ⟨by decide, by decide, by decide⟩

/-- An option is passed over if its value is not the one looked for and its name's first character does
not come again. -/
theorem option_passesOver_value {name : String} {value : Text → Option (α × Text)} {c : Char}
    {cs : Text} (back : Text) (hname : name.toList = c :: cs) (hcomma : c ∉ ", ".toList)
    (hcolon : c ≠ ':') (hcs : c ∉ cs) (hback : c ∉ back) {rest : Text}
    (hvalue : value (dropBlanks (back ++ rest)) = none) (before : Option Char) :
    (option name value).PassesOver before (", ".toList ++ ((name ++ ":").toList ++ back)) rest := by
  have hkey : (name ++ ":").toList = c :: (cs ++ [':']) := by
    rw [String.toList_append, hname]
    rfl
  have hother : ∀ {s : Text}, c ∉ s → ∀ b t, (option name value).PassesOver b s t := by
    intro s hs b t
    refine Pattern.passesOver_of_forall fun d hd b u =>
      option_eq_none (afterAll?_cons_eq_none (fun heq => ?_) (by rw [hkey]; exact List.cons_ne_nil _ _) u)
    rw [hkey] at heq
    exact hs (Option.some.inj heq ▸ hd)
  have hmatch : ∀ b, option name value b (c :: (cs ++ [':'] ++ back ++ rest)) = none := by
    intro b
    have hoption : option name value b ((name ++ ":").toList ++ (back ++ rest)) =
        value (dropBlanks (back ++ rest)) := option_key (back ++ rest) b
    rw [hkey, hvalue] at hoption
    simpa only [List.cons_append, List.append_assoc] using hoption
  rw [hkey, List.cons_append, Pattern.passesOver_append]
  refine ⟨hother hcomma _ _, hmatch _, hother (fun hmem => ?_) _ _⟩
  rcases List.mem_append.mp hmem with hmem | hmem
  · rcases List.mem_append.mp hmem with hmem | hmem
    · exact hcs hmem
    · exact hcolon (List.mem_singleton.mp hmem)
  · exact hback hmem

theorem id_passesOver {value : Text → Option (α × Text)} (back : Text) {rest : Text} (hback : 'i' ∉ back)
    (hvalue : value (dropBlanks (back ++ rest)) = none) (before : Option Char) :
    (option "id" value).PassesOver before (", id:".toList ++ back) rest :=
  option_passesOver_value back rfl (by decide) (by decide) (by decide) hback hvalue before

theorem TableOption.passesOver_of_code {name : String} {value : Text → Option (α × Text)}
    (o : TableOption) (hkey : IsKey (name ++ ":"))
    (hcode : (Pattern.verbatim (name ++ ":")).PassesOver none o.token.code []) {rest : Text}
    (hrest : rest.head?.any isKeyChar = false) (before : Option Char) :
    (option name value).PassesOver before (o.token.write .code) rest :=
  option_passesOver_token hkey o.sound_token hcode hrest before

theorem verbatim_id_keyName :
    (Pattern.verbatim ("id" ++ ":")).PassesOver none ", primary_key: ".toList [] := by decide

theorem verbatim_id_cascade :
    (Pattern.verbatim ("id" ++ ":")).PassesOver none ", force: ".toList [] := by decide

theorem verbatim_primaryKey_keyType :
    (Pattern.verbatim ("primary_key" ++ ":")).PassesOver none ", id: ".toList [] := by decide

theorem readsOptions_noKey :
    ReadsOptions (wholeOption "id" fun t => (afterAll? "false" t).map ((), ·)) TableOption.token
      fun o => if o.isNoKey then some () else none where
  sound := TableOption.sound_token
  match_of_some := by
    intro o a before rest hrest h
    cases o with
    | noKey =>
      have hvalue := flag_value (k := "false") (by decide) (by decide) rest
      exact (firstAfter_option isKey_id hvalue before).2
    | _ => cases h
  passesOver_of_none := by
    intro o before rest hrest h
    refine wholeOption_passesOver ?_
    cases o with
    | noKey => cases h
    | keyType type =>
      have hcode : (TableOption.keyType type).token.write .code =
          (", id:".toList ++ " ".toList) ++ (Argument.name (.symbol type)).write .code := rfl
      rw [hcode, Pattern.passesOver_append]
      exact ⟨id_passesOver " ".toList (by decide) rfl before,
        option_passesOver_of_verbatim (verbatim_passesOver_argument isKey_id _ hrest _)⟩
    | keyName name =>
      exact (TableOption.keyName name).passesOver_of_code isKey_id verbatim_id_keyName hrest before
    | cascade => exact TableOption.cascade.passesOver_of_code isKey_id verbatim_id_cascade hrest before

theorem readsOptions_type :
    ReadsOptions (wholeOption "id" symbol?) TableOption.token TableOption.type? where
  sound := TableOption.sound_token
  match_of_some := by
    intro o a before rest hrest h
    cases o with
    | keyType type =>
      obtain rfl : type.text = a := Option.some.inj h
      have hvalue : symbol? (dropBlanks (" ".toList ++ ((Name.symbol type).source ++ rest))) =
          some (type.text, rest) := name?_source (.symbol type) hrest
      exact (firstAfter_option isKey_id hvalue before).2
    | _ => cases h
  passesOver_of_none := by
    intro o before rest hrest h
    refine wholeOption_passesOver ?_
    cases o with
    | noKey => exact id_passesOver " false".toList (by decide) rfl before
    | keyType type => cases h
    | keyName name =>
      exact (TableOption.keyName name).passesOver_of_code isKey_id verbatim_id_keyName hrest before
    | cascade => exact TableOption.cascade.passesOver_of_code isKey_id verbatim_id_cascade hrest before

theorem readsOptions_name :
    ReadsOptions (option "primary_key" name?) TableOption.token TableOption.name? where
  sound := TableOption.sound_token
  match_of_some := by
    intro o a before rest hrest h
    cases o with
    | keyName name =>
      obtain rfl : name.text = a := Option.some.inj h
      have hvalue : name? (dropBlanks (" ".toList ++ (name.source ++ rest))) =
          some (name.text, rest) := by
        rw [dropBlanks_blanks (by decide), name.dropBlanks_source, name?_source name hrest]
      exact (firstAfter_option isKey_primaryKey hvalue before).1
    | _ => cases h
  passesOver_of_none := by
    intro o before rest hrest h
    cases o with
    | noKey => exact TableOption.noKey.passesOver_of_code isKey_primaryKey (by decide) hrest before
    | keyType type =>
      exact (TableOption.keyType type).passesOver_of_code isKey_primaryKey
        verbatim_primaryKey_keyType hrest before
    | keyName name => cases h
    | cascade => exact TableOption.cascade.passesOver_of_code isKey_primaryKey (by decide) hrest before

theorem isSome_findSome?_ite {ο : Type} (f : ο → Bool) (os : List ο) :
    (os.findSome? fun o => if f o then some () else none).isSome = os.any f := by
  induction os with
  | nil => rfl
  | cons o os ih =>
    rw [List.findSome?_cons, List.any_cons]
    cases f o with
    | true => rfl
    | false => exact ih

theorem keyColumns_optionText (options : List TableOption) :
    Dump.keyColumns (writeTokens .code (options.map TableOption.token)) = keyColumns options := by
  have hread : ∀ {β : Type} {p : Pattern β} {f : TableOption → Option β},
      ReadsOptions p TableOption.token f →
        p.first? (writeTokens .code (options.map TableOption.token)) = options.findSome? f := by
    intro β p f h
    have hall : p.firstAfter none (writeTokens .code (options.map TableOption.token) ++ []) = _ :=
      h.firstAfter_eq options rfl (fun _ => rfl) none
    rwa [List.append_nil] at hall
  have hnoKey : hasNoKey (writeTokens .code (options.map TableOption.token)) =
      options.any TableOption.isNoKey := by
    rw [hasNoKey, Pattern.occursIn, hread readsOptions_noKey, isSome_findSome?_ite]
  rw [Dump.keyColumns, keyColumns, hnoKey, hread readsOptions_type, hread readsOptions_name]

/-! ### Options of columns -/

theorem isKey_null : IsKey ("null" ++ ":") := ⟨by decide, by decide, by decide⟩

theorem isKey_polymorphic : IsKey ("polymorphic" ++ ":") := ⟨by decide, by decide, by decide⟩

theorem verbatim_null_limit :
    (Pattern.verbatim ("null" ++ ":")).PassesOver none ", limit: ".toList [] := by decide

theorem verbatim_polymorphic_limit :
    (Pattern.verbatim ("polymorphic" ++ ":")).PassesOver none ", limit: ".toList [] := by decide

theorem readsOptions_notNull :
    ReadsOptions (option "null" fun t => (afterAll? "false" t).map ((), ·)) ColumnOption.token
      fun o => if o.isNotNull then some () else none where
  sound := ColumnOption.sound_token
  match_of_some := by
    intro o a before rest hrest h
    cases o with
    | notNull =>
      have hvalue := flag_value (k := "false") (by decide) (by decide) rest
      exact (firstAfter_option isKey_null hvalue before).1
    | _ => cases h
  passesOver_of_none := by
    intro o before rest hrest h
    refine option_passesOver_token isKey_null (ColumnOption.sound_token o) ?_ hrest before
    cases o with
    | notNull => cases h
    | limit digits => exact verbatim_null_limit
    | polymorphic => decide

theorem readsOptions_polymorphic :
    ReadsOptions (option "polymorphic" fun t => (afterAll? "true" t).map ((), ·)) ColumnOption.token
      fun o => if o.isPolymorphic then some () else none where
  sound := ColumnOption.sound_token
  match_of_some := by
    intro o a before rest hrest h
    cases o with
    | polymorphic =>
      have hvalue := flag_value (k := "true") (by decide) (by decide) rest
      exact (firstAfter_option isKey_polymorphic hvalue before).1
    | _ => cases h
  passesOver_of_none := by
    intro o before rest hrest h
    refine option_passesOver_token isKey_polymorphic (ColumnOption.sound_token o) ?_ hrest before
    cases o with
    | notNull => decide
    | limit digits => exact verbatim_polymorphic_limit
    | polymorphic => cases h

def typeTokens : Option Word → List Token
  | none => []
  | some type => [⟨", ".toList, .name (.symbol type)⟩]

def columnText (type : Option Word) (options : List ColumnOption) : Text :=
  writeTokens .code (typeTokens type ++ options.map ColumnOption.token)

theorem sound_typeToken (type : Word) : Token.Sound ⟨", ".toList, .name (.symbol type)⟩ :=
  Token.sound_of_closed (by decide +kernel) (by decide)

theorem columnText_some (type : Word) (options : List ColumnOption) :
    columnText (some type) options =
      ", ".toList ++ ((Name.symbol type).source ++ columnText none options) := by
  simp only [columnText, typeTokens, List.singleton_append, List.nil_append, writeTokens_cons,
    Token.write, Argument.write, Name.write, List.append_assoc]

theorem head?_columnText (options : List ColumnOption) {rest : Text}
    (hrest : rest.head?.any isKeyChar = false) :
    (columnText none options ++ rest).head?.any isKeyChar = false :=
  head?_writeTokens (ColumnOption.sound_tokens options) .code hrest

theorem option_firstAfter_spaces {name : String} {value : Text → Option (α × Text)}
    (hkey : IsKey (name ++ ":")) (n : Nat) (before : Option Char) :
    (option name value).firstAfter before (spaces n) = none := by
  have hpasses : (option name value).PassesOver before (spaces n) [] := by
    refine Pattern.passesOver_of_forall fun c hc b t => option_eq_none ?_
    rw [mem_spaces hc]
    exact afterAll?_key_cons hkey (by decide) t
  have hnil := Pattern.firstAfter_of_passesOver hpasses
  rwa [List.append_nil] at hnil

theorem head?_spaces (n : Nat) : (spaces n).head?.any isKeyChar = false := by
  cases n <;> rfl

/-- An option is searched for in what stands behind the type of a column, or behind its name. -/
theorem occursIn_behindType {name : String} {value : Text → Option (Unit × Text)}
    {f : ColumnOption → Bool} (hkey : IsKey (name ++ ":"))
    (htype : (Pattern.verbatim (name ++ ":")).PassesOver none ", ".toList []) (type : Option Word)
    {options : List ColumnOption} {text : Text} (hhead : text.head?.any isKeyChar = false)
    (hread : ∀ before, (option name value).firstAfter before text =
      options.findSome? fun o => if f o then some () else none) :
    (option name value).occursIn (writeTokens .code (typeTokens type) ++ text) = options.any f := by
  rw [Pattern.occursIn, Pattern.first?, ← isSome_findSome?_ite f options]
  cases type with
  | none => exact congrArg Option.isSome (hread none)
  | some type =>
    have hpasses : (option name value).PassesOver none
        (Token.write .code ⟨", ".toList, .name (.symbol type)⟩) text :=
      option_passesOver_token hkey (sound_typeToken type) htype hhead none
    have hwrite : writeTokens .code (typeTokens (some type)) =
        Token.write .code ⟨", ".toList, .name (.symbol type)⟩ := List.flatMap_singleton ..
    rw [hwrite, Pattern.firstAfter_of_passesOver hpasses, hread]

theorem columnText_append (type : Option Word) (options : List ColumnOption) (rest : Text) :
    columnText type options ++ rest =
      writeTokens .code (typeTokens type) ++ (columnText none options ++ rest) := by
  simp only [columnText, typeTokens, writeTokens, List.flatMap_append, List.nil_append,
    List.append_assoc]

theorem occursIn_columnText {name : String} {value : Text → Option (Unit × Text)}
    {f : ColumnOption → Bool} (hkey : IsKey (name ++ ":"))
    (hread : ReadsOptions (option name value) ColumnOption.token fun o => if f o then some () else none)
    (htype : (Pattern.verbatim (name ++ ":")).PassesOver none ", ".toList [])
    (type : Option Word) (options : List ColumnOption) (n : Nat) :
    (option name value).occursIn (columnText type options ++ spaces n) = options.any f := by
  rw [columnText_append]
  exact occursIn_behindType hkey htype type (head?_columnText options (head?_spaces n))
    (hread.firstAfter_eq options (head?_spaces n) (option_firstAfter_spaces hkey n))

theorem isNotNull_columnText (type : Option Word) (options : List ColumnOption) (n : Nat) :
    isNotNull (columnText type options ++ spaces n) = options.any ColumnOption.isNotNull :=
  occursIn_columnText isKey_null readsOptions_notNull (by decide) type options n

theorem isPolymorphic_columnText (type : Option Word) (options : List ColumnOption) (n : Nat) :
    isPolymorphic (columnText type options ++ spaces n) = options.any ColumnOption.isPolymorphic :=
  occursIn_columnText isKey_polymorphic readsOptions_polymorphic (by decide) type options n

theorem declaredType?_behindType (type : Word) {text : Text}
    (hhead : text.head?.any isKeyChar = false) :
    declaredType? (writeTokens .code (typeTokens (some type)) ++ text) = some type.text := by
  have hsymbol : symbol? ((Name.symbol type).source ++ text) = some (type.text, text) :=
    name?_source (.symbol type) hhead
  have hwrite : writeTokens .code (typeTokens (some type)) ++ text =
      ", ".toList ++ ((Name.symbol type).source ++ text) := by
    have hnil := columnText_some type []
    rw [columnText, List.map_nil, List.append_nil] at hnil
    rw [hnil, List.append_assoc, List.append_assoc]
    rfl
  have hcomma : after? ',' (dropBlanks (", ".toList ++ ((Name.symbol type).source ++ text))) =
      some (' ' :: ((Name.symbol type).source ++ text)) := rfl
  have hblank : dropBlanks (' ' :: ((Name.symbol type).source ++ text)) =
      (Name.symbol type).source ++ text := rfl
  rw [hwrite]
  simp only [declaredType?, hcomma, hblank, hsymbol, Option.bind_eq_bind, Option.bind_some]

theorem declaredType?_columnText (type : Word) (options : List ColumnOption) (n : Nat) :
    declaredType? (columnText (some type) options ++ spaces n) = some type.text := by
  rw [columnText_append]
  exact declaredType?_behindType type (head?_columnText options (head?_spaces n))

end RecordMap.Schema.Written
