import RecordMap.Proofs.Dump.Options
import RecordMap.Proofs.Outline.Basic

/-! The columns that are read from the body of a table: those that the calls on the table's own variable
declare. -/

namespace RecordMap.Schema.Written

open Dump Text

/-! ### Method calls -/

theorem methodCall?_append {receiver method rest : Text} (hreceiver : receiver ≠ [])
    (hword : ∀ c ∈ receiver, isWordChar c = true) (hmethod : method ≠ [])
    (hmethodWord : ∀ c ∈ method, isWordChar c = true) (hrest : rest.head?.any isWordChar = false) :
    methodCall? (receiver ++ '.' :: (method ++ rest)) = some (receiver, method, rest) := by
  have hfirst : word? (receiver ++ '.' :: (method ++ rest)) = some (receiver, '.' :: (method ++ rest)) :=
    word?_append hreceiver (List.all_eq_true.mpr hword) rfl
  have hsecond := word?_append hmethod (List.all_eq_true.mpr hmethodWord) hrest
  simp only [methodCall?, hfirst, after?_cons, hsecond, Option.bind_eq_bind, Option.bind_some]

theorem methodCall?_eq_none {u rest : Text} (hu : u ≠ []) (hpoint : '.' ∉ u)
    (hlast : u.getLast?.any isKeyChar = false) : methodCall? (u ++ rest) = none := by
  have hword := word?_extend hu (.inl hlast : Separate u rest)
  rw [methodCall?]
  cases hfound : word? u with
  | none =>
    rw [hfound] at hword
    rw [hword]
    rfl
  | some found =>
    obtain ⟨w, t⟩ := found
    obtain ⟨rfl, hw, hall⟩ := word?_eq_some hfound
    have hafter : after? '.' (t ++ rest) = none := by
      cases t with
      | nil =>
        rw [List.append_nil, List.getLast?_eq_some_getLast hw] at hlast
        have hend := List.all_eq_true.mp hall _ (List.getLast_mem hw)
        rw [not_isWordChar_of_not_isKeyChar hlast] at hend
        cases hend
      | cons c t =>
        refine after?_eq_none fun heq => hpoint ?_
        rw [← Option.some.inj heq]
        exact List.mem_append_right _ (List.mem_cons_self ..)
    rw [hfound] at hword
    simp only [hword, hafter, Option.map_some, Option.bind_eq_bind, Option.bind_some, Option.bind_none]

theorem passesOver_of_no_call {α : Type} {p : Pattern α}
    (hp : ∀ b t, methodCall? t = none → p b t = none) {s rest : Text} (hpoint : '.' ∉ s) (hlast : s.getLast?.any isKeyChar = false)
    (before : Option Char) : p.PassesOver before s rest := by
  refine Pattern.passesOver_of_suffix fun b u hu hsuffix => hp b _ (methodCall?_eq_none hu ?_ ?_)
  · exact fun hmem => hpoint (hsuffix.subset hmem)
  · rwa [getLast?_of_suffix hu hsuffix]

theorem columnCall_of_no_call (b : Option Char) (t : Text) (h : methodCall? t = none) :
    columnCall b t = none := by
  simp only [columnCall, h, Option.bind_eq_bind, Option.bind_none]

theorem timestampsCall_of_no_call (b : Option Char) (t : Text) (h : methodCall? t = none) :
    timestampsCall b t = none := by
  simp only [timestampsCall, h, Option.bind_eq_bind, Option.bind_none]

/-! ### Items -/

namespace Item

def method : Item → Text
  | column kind _ _ => kind.text
  | typed _ _ _ => "column".toList
  | reference isAlias _ _ => (if isAlias then "belongs_to" else "references").toList
  | timestamps => "timestamps".toList
  | index _ _ _ => "index".toList

def arguments : Item → List Token
  | column _ name options => ⟨" ".toList, .name name⟩ :: options.map ColumnOption.token
  | typed name type options =>
    ⟨" ".toList, .name name⟩ :: ⟨", ".toList, .name (.symbol type)⟩ :: options.map ColumnOption.token
  | reference _ name options => ⟨" ".toList, .name name⟩ :: options.map ColumnOption.token
  | timestamps => []
  | index first others name =>
    ⟨" [".toList, .name first⟩ :: others.map (⟨", ".toList, .name ·⟩) ++
      [⟨"], name: ".toList, .name name⟩]

theorem method_column (kind : PlainKind) (name : Name) (options : List ColumnOption) :
    (column kind name options).method = kind.text := rfl

theorem method_typed (name : Name) (type : Word) (options : List ColumnOption) :
    (typed name type options).method = "column".toList := rfl

theorem method_reference (isAlias : Bool) (name : Name) (options : List ColumnOption) :
    (reference isAlias name options).method =
      (if isAlias then "belongs_to" else "references").toList := rfl

theorem method_timestamps : timestamps.method = "timestamps".toList := rfl

theorem method_index (first : Name) (others : List Name) (name : Name) :
    (index first others name).method = "index".toList := rfl

theorem write_tokens (i : Item) :
    writeTokens .code i.tokens = '.' :: (i.method ++ writeTokens .code i.arguments) := by
  have hspace : " ".toList = [' '] := by decide
  have hcolumn : ".column ".toList = '.' :: ("column".toList ++ " ".toList) := by decide
  have hbelongs : ".belongs_to ".toList = '.' :: ("belongs_to".toList ++ " ".toList) := by decide
  have hreferences : ".references ".toList = '.' :: ("references".toList ++ " ".toList) := by decide
  have htimestamps : ".timestamps".toList = '.' :: "timestamps".toList := by decide
  have hindex : ".index [".toList = '.' :: ("index".toList ++ " [".toList) := by decide
  cases i with
  | column kind name options =>
    rw [method_column, tokens, arguments, writeTokens_cons, writeTokens_cons, Token.write, Token.write,
      hspace]
    simp only [List.append_assoc, List.cons_append]
  | typed name type options =>
    rw [method_typed, tokens, arguments]
    simp only [writeTokens_cons, Token.write, hcolumn, List.append_assoc, List.cons_append]
  | reference isAlias name options =>
    rw [method_reference, tokens, arguments, writeTokens_cons, writeTokens_cons, Token.write,
      Token.write]
    cases isAlias with
    | true =>
      rw [if_pos rfl, if_pos rfl, hbelongs]
      simp only [List.append_assoc, List.cons_append]
    | false =>
      rw [if_neg Bool.false_ne_true, if_neg Bool.false_ne_true, hreferences]
      simp only [List.append_assoc, List.cons_append]
  | timestamps =>
    rw [method_timestamps, tokens, arguments, writeTokens_cons, Token.write, htimestamps,
      Argument.write, List.append_nil, List.cons_append]
  | index first others name =>
    rw [method_index, tokens, arguments, List.cons_append, List.cons_append, writeTokens_cons,
      writeTokens_cons, Token.write, Token.write, hindex]
    simp only [List.append_assoc, List.cons_append]

def methods : List Text :=
  ["column", "belongs_to", "references", "timestamps", "index"].map String.toList ++ plainKinds

theorem method_mem (i : Item) : i.method ∈ methods := by
  have hcolumn : "column".toList ∈ methods := by decide +kernel
  have hindex : "index".toList ∈ methods := by decide +kernel
  have htimestamps : "timestamps".toList ∈ methods := by decide +kernel
  have hbelongs : "belongs_to".toList ∈ methods := by decide +kernel
  have hreferences : "references".toList ∈ methods := by decide +kernel
  cases i with
  | column kind => exact List.mem_append_right _ kind.mem
  | typed => exact hcolumn
  | reference isAlias =>
    cases isAlias with
    | true => exact hbelongs
    | false => exact hreferences
  | timestamps => exact htimestamps
  | index => exact hindex

theorem word_of_mem_methods :
    ∀ m ∈ methods, m ≠ [] ∧ ∀ c ∈ m, isWordChar c = true := by
  decide +kernel

theorem word_of_method (i : Item) : i.method ≠ [] ∧ ∀ c ∈ i.method, isWordChar c = true :=
  word_of_mem_methods _ i.method_mem

theorem method_ne_nil (i : Item) : i.method ≠ [] := i.word_of_method.1

theorem isWordChar_method (i : Item) : ∀ c ∈ i.method, isWordChar c = true := i.word_of_method.2

end Item

theorem not_mem_point_tokens {ts : List Token} (h : ∀ t ∈ ts, '.' ∉ t.code) :
    '.' ∉ writeTokens .code ts := by
  intro hmem
  obtain ⟨t, ht, hmem⟩ := List.mem_flatMap.mp hmem
  rcases List.mem_append.mp hmem with hmem | hmem
  · exact h t ht hmem
  · exact foreign_point.not_mem_argument t.argument hmem

theorem ColumnOption.not_mem_point (options : List ColumnOption) :
    ∀ t ∈ options.map ColumnOption.token, '.' ∉ t.code := by
  intro t ht
  obtain ⟨o, _, rfl⟩ := List.mem_map.mp ht
  cases o with
  | limit digits =>
    have hlimit : '.' ∉ ", limit: ".toList := by decide
    exact hlimit
  | _ => decide

theorem Item.not_mem_point_arguments (i : Item) : ∀ t ∈ i.arguments, '.' ∉ t.code := by
  have hspace : '.' ∉ " ".toList := by decide
  have hcomma : '.' ∉ ", ".toList := by decide
  have hopen : '.' ∉ " [".toList := by decide
  have hclose : '.' ∉ "], name: ".toList := by decide
  cases i with
  | column _ name options =>
    exact List.forall_mem_cons.mpr ⟨hspace, ColumnOption.not_mem_point options⟩
  | typed name type options =>
    exact List.forall_mem_cons.mpr
      ⟨hspace, List.forall_mem_cons.mpr ⟨hcomma, ColumnOption.not_mem_point options⟩⟩
  | reference _ name options =>
    exact List.forall_mem_cons.mpr ⟨hspace, ColumnOption.not_mem_point options⟩
  | timestamps => exact List.forall_mem_nil _
  | index first others name =>
    refine List.forall_mem_cons.mpr ⟨hopen, fun t ht => ?_⟩
    rcases List.mem_append.mp ht with ht | ht
    · obtain ⟨other, _, rfl⟩ := List.mem_map.mp ht
      exact hcomma
    · rw [List.mem_singleton.mp ht]
      exact hclose

theorem Item.head?_arguments (i : Item) {rest : Text} (hrest : rest.head?.any isKeyChar = false) :
    (writeTokens .code i.arguments ++ rest).head?.any isKeyChar = false := by
  cases i with
  | timestamps => exact hrest
  | _ => rfl

/-! ### Declarations -/

structure Declared where
  kind : Text
  name : Name
  type : Option Word
  options : List ColumnOption

def Item.declared? : Item → Option Declared
  | column kind name options => some ⟨kind.text, name, none, options⟩
  | typed name type options => some ⟨"column".toList, name, some type, options⟩
  | reference isAlias name options =>
    some ⟨(if isAlias then "belongs_to" else "references").toList, name, none, options⟩
  | timestamps | index .. => none

theorem Item.write_arguments {i : Item} {d : Declared} (h : i.declared? = some d) :
    i.method = d.kind ∧
      writeTokens .code i.arguments = ' ' :: (d.name.source ++ columnText d.type d.options) := by
  have hspace : " ".toList = [' '] := by decide
  cases i with
  | column kind name options =>
    cases h
    refine ⟨rfl, ?_⟩
    rw [arguments, writeTokens_cons, Token.write, hspace]
    rfl
  | typed name type options =>
    cases h
    refine ⟨rfl, ?_⟩
    rw [arguments, writeTokens_cons, Token.write, hspace]
    rfl
  | reference isAlias name options =>
    cases h
    refine ⟨rfl, ?_⟩
    rw [arguments, writeTokens_cons, Token.write, hspace]
    rfl
  | timestamps => cases h
  | index => cases h

theorem plainKind_facts : ∀ kind ∈ plainKinds, kind ∈ columnKinds ∧ kind ≠ "references".toList ∧
    kind ≠ "belongs_to".toList ∧ kind ≠ "column".toList ∧ kind ≠ "timestamps".toList := by
  decide +kernel

theorem Item.kind_of_declared {i : Item} {d : Declared} (h : i.declared? = some d) :
    columnKinds.contains d.kind = true ∧ d.kind ≠ "timestamps".toList := by
  have hcolumn : columnKinds.contains "column".toList = true ∧ "column".toList ≠ "timestamps".toList := by
    decide +kernel
  have hbelongs : columnKinds.contains "belongs_to".toList = true ∧
      "belongs_to".toList ≠ "timestamps".toList := by decide +kernel
  have hreferences : columnKinds.contains "references".toList = true ∧
      "references".toList ≠ "timestamps".toList := by decide +kernel
  cases i with
  | column kind name options =>
    cases h
    obtain ⟨hmem, _, _, _, htimestamps⟩ := plainKind_facts kind.text kind.mem
    exact ⟨List.contains_iff_mem.mpr hmem, htimestamps⟩
  | typed => cases h; exact hcolumn
  | reference isAlias =>
    cases h
    cases isAlias with
    | true => exact hbelongs
    | false => exact hreferences
  | timestamps => cases h
  | index => cases h

theorem Item.method_of_not_declared {i : Item} (h : i.declared? = none) :
    columnKinds.contains i.method = false := by
  have htimestamps : columnKinds.contains "timestamps".toList = false := by decide +kernel
  have hindex : columnKinds.contains "index".toList = false := by decide +kernel
  cases i with
  | timestamps => exact htimestamps
  | index => exact hindex
  | _ => cases h

theorem columns_of_options {i : Item} {d : Declared} (h : i.declared? = some d) (receiver : Text)
    {text : Text} (hnull : isNotNull text = d.options.any ColumnOption.isNotNull)
    (hpolymorphic : d.kind = "references".toList ∨ d.kind = "belongs_to".toList →
      isPolymorphic text = d.options.any ColumnOption.isPolymorphic)
    (htype : ∀ type, d.type = some type → declaredType? text = some type.text) :
    ColumnCall.columns ⟨receiver, d.kind, d.name.text, text⟩ = i.columns := by
  cases i with
  | column kind name options =>
    cases h
    obtain ⟨_, hreferences, hbelongs, hcolumn, _⟩ := plainKind_facts kind.text kind.mem
    simp only [ColumnCall.columns, hnull, if_neg (not_or.mpr ⟨hreferences, hbelongs⟩), if_neg hcolumn]
    rfl
  | typed name type options =>
    cases h
    have hcolumns : ColumnCall.columns ⟨receiver, "column".toList, name.text, text⟩ =
        [⟨name.text, (declaredType? text).getD [], !isNotNull text⟩] := rfl
    rw [hcolumns, hnull, htype type rfl]
    rfl
  | reference isAlias name options =>
    cases h
    have hreference : (if isAlias then "belongs_to" else "references").toList = "references".toList ∨
        (if isAlias then "belongs_to" else "references").toList = "belongs_to".toList := by
      cases isAlias with
      | true => exact .inr rfl
      | false => exact .inl rfl
    simp only [ColumnCall.columns, hnull, hpolymorphic hreference, if_pos hreference, Item.columns]
    cases options.any ColumnOption.isPolymorphic <;> rfl
  | timestamps => cases h
  | index => cases h

theorem columns_of_declared {i : Item} {d : Declared} (h : i.declared? = some d) (receiver : Text)
    (n : Nat) :
    ColumnCall.columns ⟨receiver, d.kind, d.name.text, columnText d.type d.options ++ spaces n⟩ =
      i.columns := by
  refine columns_of_options h receiver (isNotNull_columnText d.type d.options n)
    (fun _ => isPolymorphic_columnText d.type d.options n) fun type htype => ?_
  rw [htype]
  exact declaredType?_columnText type d.options n

theorem columns_of_not_declared {i : Item} (h : i.declared? = none) : i.columns = [] := by
  cases i with
  | timestamps => rfl
  | index => rfl
  | _ => cases h

/-! ### The end of a declaration -/

theorem ColumnOption.write_cons (o : ColumnOption) :
    ∃ c back, o.token.write .code = ',' :: ' ' :: c :: back ∧ isBlank c = false := by
  have hnull : ", null: false".toList = ',' :: ' ' :: 'n' :: "ull: false".toList := by decide
  have hlimit : ", limit: ".toList = ',' :: ' ' :: 'l' :: "imit: ".toList := by decide
  have hpolymorphic : ", polymorphic: true".toList =
      ',' :: ' ' :: 'p' :: "olymorphic: true".toList := by decide
  cases o with
  | notNull => exact ⟨'n', "ull: false".toList, by rw [← hnull]; exact List.append_nil _, by decide⟩
  | limit digits =>
    refine ⟨'l', "imit: ".toList ++ digits.text, ?_, by decide⟩
    rw [← List.cons_append, ← List.cons_append, ← List.cons_append, ← hlimit]
    rfl
  | polymorphic =>
    exact ⟨'p', "olymorphic: true".toList, by rw [← hpolymorphic]; exact List.append_nil _, by decide⟩

theorem columnText_cases (type : Option Word) (options : List ColumnOption) :
    columnText type options = [] ∨
      ∃ c back, columnText type options = ',' :: ' ' :: c :: back ∧ isBlank c = false := by
  cases type with
  | some type =>
    have hcomma : ", ".toList = [',', ' '] := by decide
    refine .inr ⟨':', type.text ++ columnText none options, ?_, by decide⟩
    rw [columnText_some, hcomma]
    rfl
  | none =>
    cases options with
    | nil => exact .inl rfl
    | cons o options =>
      obtain ⟨c, back, hwrite, hc⟩ := o.write_cons
      have hcons : columnText none (o :: options) = o.token.write .code ++ columnText none options :=
        writeTokens_cons .code o.token _
      exact .inr ⟨c, back ++ columnText none options, by rw [hcons, hwrite]; rfl, hc⟩

theorem sound_columnTokens (type : Option Word) (options : List ColumnOption) :
    ∀ t ∈ typeTokens type ++ options.map ColumnOption.token, t.Sound := by
  intro t ht
  rcases List.mem_append.mp ht with ht | ht
  · cases type with
    | none => cases ht
    | some type =>
      rw [List.mem_singleton.mp ht]
      exact sound_typeToken type
  · exact ColumnOption.sound_tokens options t ht

theorem lineFeed_not_mem_columnText (type : Option Word) (options : List ColumnOption) :
    '\n' ∉ columnText type options :=
  fun hmem => (quiet_writeTokens (sound_columnTokens type options) _ hmem).2 rfl

theorem afterOptions_cons {c : Char} {back : Text} (hc : isBlank c = false) (hline : '\n' ∉ c :: back)
    (t : Text) : afterOptions (',' :: ' ' :: (c :: back ++ '\n' :: t)) = '\n' :: t := by
  have hall : (c :: back).all (· ≠ '\n') = true :=
    List.all_eq_true.mpr fun d hd => decide_eq_true fun heq => hline (heq ▸ hd)
  have hdrop : (c :: back ++ '\n' :: t).dropWhile (· ≠ '\n') = '\n' :: t :=
    dropWhile_append_of_all hall rfl
  have hfirst : dropBlanks (',' :: ' ' :: (c :: back ++ '\n' :: t)) =
      ',' :: ' ' :: (c :: back ++ '\n' :: t) := rfl
  have hsecond : dropBlanks (' ' :: (c :: back ++ '\n' :: t)) = c :: back ++ '\n' :: t :=
    (dropBlanks_blanks (s := [' ']) (by decide) _).trans (dropBlanks_of_head hc)
  rw [afterOptions, hfirst]
  simp only [hsecond]
  exact hdrop

theorem afterOptions_fresh (n : Nat) {t : Text} (ht : Fresh t) :
    afterOptions (spaces n ++ '\n' :: t) = spaces n ++ '\n' :: t := by
  have hblanks : dropBlanks (spaces n ++ '\n' :: t) = dropBlanks t := by
    rw [dropBlanks_blanks (isMargin_spaces n).isBlank]
    exact dropBlanks_blanks (s := ['\n']) (by decide) t
  have hcomma : (dropBlanks t).head? ≠ some ',' := fun heq => absurd (ht.head? heq) (by decide)
  rw [afterOptions, hblanks]
  split
  · next cs heq =>
    rw [heq] at hcomma
    exact absurd rfl hcomma
  · rfl

/-- How many of the spaces at the end of its line are read with the options of a column. -/
def spacesRead (text : Text) (n : Nat) : Nat := if text = [] then 0 else n

/-- The options of a column end with their line, the spaces before it included. -/
theorem afterOptions_text {text : Text}
    (hcases : text = [] ∨ ∃ c back, text = ',' :: ' ' :: c :: back ∧ isBlank c = false)
    (hline : '\n' ∉ text) (n : Nat) {t : Text} (ht : Fresh t) :
    ∃ m, IsMargin m ∧ spaces n ++ '\n' :: t = spaces (spacesRead text n) ++ (m ++ t) ∧
      afterOptions (text ++ (spaces n ++ '\n' :: t)) = m ++ t := by
  have hlineFeed : IsMargin ['\n'] := IsMargin.cons_lineFeed (List.forall_mem_nil _)
  rcases hcases with rfl | ⟨c, back, rfl, hc⟩
  · have hmargin : spaces n ++ ['\n'] ++ t = spaces n ++ '\n' :: t := List.append_assoc _ _ _
    refine ⟨spaces n ++ ['\n'], (isMargin_spaces n).append hlineFeed, ?_, ?_⟩
    · rw [spacesRead, if_pos rfl, hmargin]
      rfl
    · rw [List.nil_append, afterOptions_fresh n ht, hmargin]
  · have hread : spacesRead (',' :: ' ' :: c :: back) n = n := if_neg (List.cons_ne_nil _ _)
    have hnot : '\n' ∉ c :: (back ++ spaces n) := by
      have hspaces : '\n' ∉ spaces n := fun hmem => absurd (mem_spaces hmem) (by decide)
      intro hmem
      rcases List.mem_append.mp (List.cons_append ▸ hmem) with hmem | hmem
      · exact hline (List.mem_cons_of_mem _ (List.mem_cons_of_mem _ hmem))
      · exact hspaces hmem
    refine ⟨['\n'], hlineFeed, by rw [hread]; rfl, ?_⟩
    have hafter := afterOptions_cons hc hnot t
    have happend : ',' :: ' ' :: c :: back ++ (spaces n ++ '\n' :: t) =
        ',' :: ' ' :: (c :: (back ++ spaces n) ++ '\n' :: t) := by
      simp only [List.cons_append, List.append_assoc]
    rw [happend, hafter]
    rfl

/-- A line that declares a column is read up to its end, or up to the spaces before it. -/
theorem columnCall_line {receiver kind : Text} (name : Name) {text : Text} (hreceiver : receiver ≠ [])
    (hword : ∀ c ∈ receiver, isWordChar c = true) (hkind : columnKinds.contains kind = true)
    (hmethod : kind ≠ [] ∧ ∀ c ∈ kind, isWordChar c = true)
    (hcases : text = [] ∨ ∃ c back, text = ',' :: ' ' :: c :: back ∧ isBlank c = false)
    (hline : '\n' ∉ text) (n : Nat) {t : Text} (ht : Fresh t) :
    ∃ m, IsMargin m ∧ spaces n ++ '\n' :: t = spaces (spacesRead text n) ++ (m ++ t) ∧
      ∀ before, columnCall before (receiver ++ '.' :: (kind ++ ' ' :: (name.source ++ (text ++
        (spaces n ++ '\n' :: t))))) =
        some (⟨receiver, kind, name.text, text ++ spaces (spacesRead text n)⟩, m ++ t) := by
  obtain ⟨m, hm, hspaces, hafter⟩ := afterOptions_text hcases hline n ht
  refine ⟨m, hm, hspaces, fun before => ?_⟩
  have hcall : methodCall? (receiver ++ '.' :: (kind ++ ' ' :: (name.source ++ (text ++
      (spaces n ++ '\n' :: t))))) = some (receiver, kind, ' ' :: (name.source ++ (text ++
        (spaces n ++ '\n' :: t)))) :=
    methodCall?_append hreceiver hword hmethod.1 hmethod.2 rfl
  have hhead : (text ++ (spaces n ++ '\n' :: t)).head?.any isKeyChar = false := by
    rcases hcases with rfl | ⟨c, back, rfl, _⟩
    · cases n <;> rfl
    · rfl
  have htake : (text ++ (spaces n ++ '\n' :: t)).take
      ((text ++ (spaces n ++ '\n' :: t)).length - (m ++ t).length) =
      text ++ spaces (spacesRead text n) := by
    rw [hspaces, ← List.append_assoc, List.length_append, Nat.add_sub_cancel, List.take_left]
  simp only [columnCall, hcall, Option.bind_eq_bind, Option.bind_some, hkind, if_true,
    name?_openBracket name hhead, hafter, htake]

/-! ### Calls in a body -/

theorem Call.write_append (c : Call) (rest : Text) :
    c.write .code ++ rest = c.margin.before .code ++ (c.receiver.text ++
      (writeTokens .code c.item.tokens ++ (c.margin.ending.write .code ++ rest))) := by
  simp only [Call.write, List.append_assoc]

theorem Call.write_method (c : Call) (rest : Text) :
    c.write .code ++ rest = c.margin.before .code ++ (c.receiver.text ++ '.' :: (c.item.method ++
      (writeTokens .code c.item.arguments ++ (c.margin.ending.write .code ++ rest)))) := by
  rw [c.write_append, c.item.write_tokens, List.cons_append, List.append_assoc]

theorem Call.methodCall?_suffix (c : Call) {u : Text} (hu : u ≠ []) (hsuffix : u <:+ c.receiver.text)
    (rest : Text) :
    methodCall? (u ++ '.' :: (c.item.method ++
      (writeTokens .code c.item.arguments ++ (c.margin.ending.write .code ++ rest)))) =
      some (u, c.item.method,
        writeTokens .code c.item.arguments ++ (c.margin.ending.write .code ++ rest)) :=
  methodCall?_append hu (fun d hd => c.receiver.isWordChar d (hsuffix.subset hd)) c.item.method_ne_nil
    c.item.isWordChar_method (head?_isWordChar (c.item.head?_arguments (c.margin.ending.head? rest)))

section

variable {α : Type} {p : Pattern α}

theorem passesOver_margin (hp : ∀ b t, methodCall? t = none → p b t = none) {m : Text} (hm : IsMargin m)
    (rest : Text) (before : Option Char) : p.PassesOver before m rest := by
  refine passesOver_of_no_call hp (fun hmem => ?_) ?_ before
  · rcases hm '.' hmem with heq | heq <;> exact absurd heq (by decide)
  · cases hlast : m.getLast? with
    | none => rfl
    | some c => exact hm.not_isKeyChar c (List.mem_of_getLast? hlast)

theorem passesOver_call (hp : ∀ b t, methodCall? t = none → p b t = none) (c : Call)
    (hreject : ∀ b t receiver rest, methodCall? t = some (receiver, c.item.method, rest) → p b t = none)
    (rest : Text) (before : Option Char) : p.PassesOver before (c.write .code) rest := by
  have hline : c.write .code = c.margin.before .code ++ (c.receiver.text ++ (['.'] ++ (c.item.method ++
      (writeTokens .code c.item.arguments ++ c.margin.ending.write .code)))) := by
    have hwrite := c.write_method []
    rwa [List.append_nil, List.append_nil] at hwrite
  have hpoint : '.' ∉ c.item.method ++
      (writeTokens .code c.item.arguments ++ c.margin.ending.write .code) := by
    intro hmem
    rcases List.mem_append.mp hmem with hmem | hmem
    · exact absurd (c.item.isWordChar_method _ hmem) (by decide)
    · rcases List.mem_append.mp hmem with hmem | hmem
      · exact not_mem_point_tokens c.item.not_mem_point_arguments hmem
      · rcases c.margin.ending.isMargin '.' hmem with heq | heq <;> exact absurd heq (by decide)
  have hlast : (c.item.method ++
      (writeTokens .code c.item.arguments ++ c.margin.ending.write .code)).getLast?.any isKeyChar =
      false := by
    rw [← List.append_assoc, List.getLast?_append, c.margin.ending.getLast?_write]
    rfl
  rw [hline, Pattern.passesOver_append, Pattern.passesOver_append, Pattern.passesOver_append]
  refine ⟨passesOver_margin hp c.margin.isMargin_before _ before, ?_, ⟨hp _ _ rfl, trivial⟩,
    passesOver_of_no_call hp hpoint hlast _⟩
  refine Pattern.passesOver_of_suffix fun b u hu hsuffix => ?_
  have htext : ['.'] ++ (c.item.method ++ (writeTokens .code c.item.arguments ++
      c.margin.ending.write .code)) ++ rest = '.' :: (c.item.method ++
        (writeTokens .code c.item.arguments ++ (c.margin.ending.write .code ++ rest))) := by
    simp only [List.append_assoc, List.cons_append, List.nil_append]
  rw [htext]
  exact hreject b _ u _ (c.methodCall?_suffix hu hsuffix rest)

end

def Call.read? (c : Call) : Option ColumnCall :=
  c.item.declared?.map fun d => ⟨c.receiver.text, d.kind, d.name.text,
    columnText d.type d.options ++
      spaces (spacesRead (columnText d.type d.options) c.margin.ending.width)⟩

def Call.timestampsReceiver? (c : Call) : Option Text :=
  if c.item.isTimestamps then some c.receiver.text else none

section

variable {α : Type} {p : Pattern α} {f : Call → Option α}

/-- What a pattern reads from a line in front of `t`: nothing, or a value that goes up to the end of the
line or to the spaces in front of it. -/
def ReadsLine (p : Pattern α) (line t : Text) : Option α → Prop
  | none => ∀ before, p.PassesOver before line t
  | some a => ∃ indent front m, IsMargin indent ∧ IsMargin m ∧ front ≠ [] ∧
      line ++ t = indent ++ (front ++ (m ++ t)) ∧
        ∀ before, p before (front ++ (m ++ t)) = some (a, m ++ t)

/-- What is read from each of some lines is read from all of them, in order. -/
theorem allFrom_lines {κ : Type} {write : κ → Text} {f : κ → Option α}
    (hp : ∀ b t, methodCall? t = none → p b t = none) (hfresh : ∀ x t, Fresh (write x ++ t))
    {l : List κ} (hread : ∀ x ∈ l, ∀ t, Fresh t → ReadsLine p (write x) t (f x)) {m : Text}
    (hm : IsMargin m) (position : Nat) (before : Option Char) :
    (p.allFrom 0 position before (l.flatMap write ++ m)).map (·.value) = l.filterMap f := by
  induction l generalizing position before with
  | nil =>
    have hpasses := passesOver_margin hp hm [] before
    have hend := Pattern.allFrom_of_passesOver position hpasses
    rw [List.append_nil] at hend
    rw [List.flatMap_nil, List.nil_append, hend]
    rfl
  | cons x l ih =>
    obtain ⟨hx, hl⟩ := List.forall_mem_cons.mp hread
    have hmargin := fresh_nil.margin hm
    rw [List.append_nil] at hmargin
    have hline := hx _ (fresh_flatMap hfresh l hmargin)
    rw [List.flatMap_cons, List.append_assoc]
    cases hf : f x with
    | none =>
      rw [hf] at hline
      rw [Pattern.allFrom_of_passesOver position (hline before), ih hl, List.filterMap_cons_none hf]
    | some a =>
      rw [hf] at hline
      obtain ⟨indent, front, m', hindent, hm', hfront, hwrite, hmatch⟩ := hline
      have hbehind := fun b => passesOver_margin hp hm' (l.flatMap write ++ m) b
      rw [hwrite, Pattern.allFrom_of_passesOver position (passesOver_margin hp hindent _ before),
        Pattern.allFrom_of_match _ hfront (hmatch _), Pattern.allFrom_of_passesOver _ (hbehind _),
        List.map_cons, ih hl, List.filterMap_cons_some hf]

theorem all_lines {κ : Type} {write : κ → Text} {f : κ → Option α}
    (hp : ∀ b t, methodCall? t = none → p b t = none) (hfresh : ∀ x t, Fresh (write x ++ t))
    {l : List κ} (hread : ∀ x ∈ l, ∀ t, Fresh t → ReadsLine p (write x) t (f x)) {m m' : Text}
    (hm : IsMargin m) (hm' : IsMargin m') :
    (p.all (m ++ l.flatMap write ++ m')).map (·.value) = l.filterMap f := by
  rw [Pattern.all, List.append_assoc, Pattern.allFrom_of_passesOver 0 (passesOver_margin hp hm _ none)]
  exact allFrom_lines hp hfresh hread hm' _ _

/-- A pattern reads from each call what `f` gives, and nothing else. -/
structure ReadsCalls (p : Pattern α) (f : Call → Option α) : Prop where
  none_of_no_call : ∀ b t, methodCall? t = none → p b t = none
  none_of_reject : ∀ c, f c = none → ∀ b t receiver rest,
    methodCall? t = some (receiver, c.item.method, rest) → p b t = none
  match_of_some : ∀ c a t, f c = some a → Fresh t → ReadsLine p (c.write .code) t (some a)

theorem ReadsCalls.readsLine (h : ReadsCalls p f) (c : Call) {t : Text} (ht : Fresh t) :
    ReadsLine p (c.write .code) t (f c) := by
  cases hread : f c with
  | none => exact passesOver_call h.none_of_no_call c (h.none_of_reject c hread) t
  | some a => exact h.match_of_some c a t hread ht

theorem ReadsCalls.all_body (h : ReadsCalls p f) (b : Block) :
    (p.all (b.body .code)).map (·.value) = b.calls.filterMap f :=
  all_lines h.none_of_no_call (fun c => c.outline.fresh) (fun c _ _ => h.readsLine c) b.opening.ending.isMargin
    b.closing.isMargin_before

end

theorem columnCall_declared (c : Call) {d : Declared} (hd : c.item.declared? = some d) {t : Text}
    (ht : Fresh t) :
    ReadsLine columnCall (c.write .code) t (some ⟨c.receiver.text, d.kind, d.name.text,
      columnText d.type d.options ++
        spaces (spacesRead (columnText d.type d.options) c.margin.ending.width)⟩) := by
  obtain ⟨hmethod, harguments⟩ := Item.write_arguments hd
  have hkind := c.item.word_of_method
  rw [hmethod] at hkind
  obtain ⟨m, hm, hspaces, hmatch⟩ := columnCall_line d.name c.receiver.ne_nil c.receiver.isWordChar
    (Item.kind_of_declared hd).1 hkind (columnText_cases d.type d.options)
    (lineFeed_not_mem_columnText d.type d.options) c.margin.ending.width ht
  generalize spacesRead (columnText d.type d.options) c.margin.ending.width = n at hspaces hmatch ⊢
  refine ⟨c.margin.before .code, c.receiver.text ++ '.' :: (d.kind ++ ' ' :: (d.name.source ++
    (columnText d.type d.options ++ spaces n))), m, c.margin.isMargin_before, hm, ?_, ?_, fun before => ?_⟩
  · exact List.append_ne_nil_of_right_ne_nil _ (List.cons_ne_nil _ _)
  · rw [c.write_method, harguments, hmethod, Ending.write_code, List.append_assoc,
      List.singleton_append, hspaces]
    simp only [List.append_assoc, List.cons_append]
  · have hmatch' := hmatch before
    rw [hspaces] at hmatch'
    simpa only [List.append_assoc, List.cons_append] using hmatch'

theorem readsCalls_columnCall : ReadsCalls columnCall Call.read? where
  none_of_no_call := columnCall_of_no_call
  none_of_reject := by
    intro c hread b t receiver rest hcall
    have hkind := Item.method_of_not_declared (Option.map_eq_none_iff.mp hread)
    simp only [columnCall, hcall, Option.bind_eq_bind, Option.bind_some, hkind, Bool.false_eq_true,
      if_false]
  match_of_some := by
    intro c a t hread ht
    obtain ⟨d, hd, rfl⟩ := Option.map_eq_some_iff.mp hread
    exact columnCall_declared c hd ht

theorem Item.method_of_not_timestamps {i : Item} (h : i.isTimestamps = false) :
    i.method ≠ "timestamps".toList := by
  have hindex : "index".toList ≠ "timestamps".toList := by decide
  cases hd : i.declared? with
  | some d =>
    rw [(Item.write_arguments hd).1]
    exact (Item.kind_of_declared hd).2
  | none =>
    cases i with
    | timestamps => cases h
    | index => exact hindex
    | _ => cases hd

theorem timestampsCall_timestamps (c : Call) (h : c.item.isTimestamps = true) (t : Text) :
    ReadsLine timestampsCall (c.write .code) t (some c.receiver.text) := by
  have hmethod : c.item.method = "timestamps".toList ∧ c.item.arguments = [] := by
    cases hitem : c.item with
    | timestamps => exact ⟨rfl, rfl⟩
    | _ => rw [hitem] at h; cases h
  have hcall := c.methodCall?_suffix c.receiver.ne_nil (List.suffix_refl _) t
  have hwrite := c.write_method t
  rw [hmethod.2] at hcall hwrite
  refine ⟨c.margin.before .code, c.receiver.text ++ '.' :: c.item.method, c.margin.ending.write .code,
    c.margin.isMargin_before, c.margin.ending.isMargin, ?_, ?_, fun before => ?_⟩
  · exact List.append_ne_nil_of_right_ne_nil _ (List.cons_ne_nil _ _)
  · rw [hwrite, List.append_assoc]
    rfl
  · have htext : c.receiver.text ++ '.' :: c.item.method ++ (c.margin.ending.write .code ++ t) =
        c.receiver.text ++ '.' :: (c.item.method ++
          (writeTokens .code [] ++ (c.margin.ending.write .code ++ t))) := by
      rw [List.append_assoc]
      rfl
    rw [htext, timestampsCall, hcall]
    exact if_pos hmethod.1

theorem readsCalls_timestampsCall : ReadsCalls timestampsCall Call.timestampsReceiver? where
  none_of_no_call := timestampsCall_of_no_call
  none_of_reject := by
    intro c hread b t receiver rest hcall
    have hother : c.item.isTimestamps = false := by
      rw [← Bool.not_eq_true]
      intro htrue
      rw [Call.timestampsReceiver?, if_pos htrue] at hread
      cases hread
    simp only [timestampsCall, hcall, Option.bind_eq_bind, Option.bind_some,
      if_neg (Item.method_of_not_timestamps hother)]
  match_of_some := by
    intro c a t hread _
    rw [Call.timestampsReceiver?, Option.ite_none_right_eq_some] at hread
    obtain ⟨htrue, hreceiver⟩ := hread
    rw [← Option.some.inj hreceiver]
    exact timestampsCall_timestamps c htrue t

theorem read?_receiver {c : Call} {r : ColumnCall} (h : c.read? = some r) :
    r.receiver = c.receiver.text := by
  obtain ⟨d, _, rfl⟩ := Option.map_eq_some_iff.mp h
  rfl

theorem columns_read? (c : Call) : c.read?.elim [] ColumnCall.columns = c.item.columns := by
  rw [Call.read?]
  cases hd : c.item.declared? with
  | none => exact (columns_of_not_declared hd).symm
  | some d => exact columns_of_declared hd _ _

theorem columns_filterMap {κ : Type} {read : κ → Option ColumnCall} {receiver : κ → Text}
    {columns : κ → List Column} {l : List κ}
    (hreceiver : ∀ x ∈ l, ∀ r, read x = some r → r.receiver = receiver x)
    (hcolumns : ∀ x ∈ l, (read x).elim [] ColumnCall.columns = columns x) (v : Text) :
    ((l.filterMap read).filter (·.receiver == v)).flatMap ColumnCall.columns =
      (l.filter (receiver · == v)).flatMap columns := by
  induction l with
  | nil => rfl
  | cons x l ih =>
    obtain ⟨hx, hl⟩ := List.forall_mem_cons.mp hreceiver
    obtain ⟨hcolumns, hcolumns'⟩ := List.forall_mem_cons.mp hcolumns
    have ih := ih hl hcolumns'
    cases hread : read x with
    | none =>
      rw [hread] at hcolumns
      have hnil : columns x = [] := hcolumns.symm
      rw [List.filterMap_cons_none hread, ih, List.filter_cons]
      split
      · rw [List.flatMap_cons, hnil, List.nil_append]
      · rfl
    | some r =>
      rw [hread] at hcolumns
      have hsome : r.columns = columns x := hcolumns
      rw [List.filterMap_cons_some hread, List.filter_cons, List.filter_cons, hx r hread]
      split
      · rw [List.flatMap_cons, List.flatMap_cons, ih, hsome]
      · exact ih

/-- The columns of a body are those of its lines on the variable, and those of timestamps if one of these
lines asks for them. -/
theorem bodyColumns_of_lines {κ : Type} {l : List κ} {receiver : κ → Text} {columns : κ → List Column}
    {isTimestamps : κ → Bool} {read : κ → Option ColumnCall} {body : Text}
    (hread : (columnCall.all body).map (·.value) = l.filterMap read)
    (htimestamps : (timestampsCall.all body).map (·.value) =
      l.filterMap fun x => if isTimestamps x then some (receiver x) else none)
    (hreceiver : ∀ x ∈ l, ∀ r, read x = some r → r.receiver = receiver x)
    (hcolumns : ∀ x ∈ l, (read x).elim [] ColumnCall.columns = columns x) (v : Text) :
    bodyColumns body v = (l.filter (receiver · == v)).flatMap columns ++
      if (l.filter (receiver · == v)).any isTimestamps then timestampColumns else [] := by
  have hdeclared := columns_filterMap hreceiver hcolumns v
  rw [← hread, List.filter_map, List.flatMap_map] at hdeclared
  have hstamped : (timestampsCall.all body).any (·.value == v) =
      (l.filter (receiver · == v)).any isTimestamps := by
    have hany : ((timestampsCall.all body).map (·.value)).any (· == v) =
        (timestampsCall.all body).any (·.value == v) := List.any_map
    rw [← hany, htimestamps, List.any_filterMap, List.any_filter]
    refine congrArg l.any (funext fun x => ?_)
    cases isTimestamps x with
    | true => exact (Bool.and_true _).symm
    | false => exact (Bool.and_false _).symm
  rw [bodyColumns, hstamped, ← hdeclared]
  rfl

theorem bodyColumns_body (b : Block) :
    bodyColumns (b.body .code) b.receiver.text = b.ownItems.flatMap Item.columns ++
      if b.ownItems.any Item.isTimestamps then
        [⟨"created_at".toList, "datetime".toList, false⟩, ⟨"updated_at".toList, "datetime".toList, false⟩]
      else [] := by
  have hlines := bodyColumns_of_lines (readsCalls_columnCall.all_body b)
    (readsCalls_timestampsCall.all_body b) (fun c _ _ => read?_receiver) (fun c _ => columns_read? c)
    b.receiver.text
  rw [hlines, Block.ownItems, List.flatMap_map, List.any_map]
  rfl

end RecordMap.Schema.Written
