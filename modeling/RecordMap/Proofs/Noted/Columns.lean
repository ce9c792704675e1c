import RecordMap.Proofs.Noted.Options

/-! The columns that are read from the body of a table with texts: those that it declares without them. -/

namespace RecordMap.Schema.Noted

open Written Dump Text

/-! ### Declarations -/

namespace Head

def kind : Head → Text
  | column kind _ => kind.text
  | typed .. => "column".toList
  | reference isAlias _ => (if isAlias then "belongs_to" else "references").toList

def name : Head → Name
  | column _ name => name
  | typed name _ => name
  | reference _ name => name

def type : Head → Option Word
  | typed _ type => some type
  | _ => none

theorem declared?_item (h : Head) (options : List ColumnOption) :
    (h.item options).declared? = some ⟨h.kind, h.name, h.type, options⟩ := by
  cases h <;> rfl

theorem isReference_of_kind {h : Head}
    (hkind : h.kind = "references".toList ∨ h.kind = "belongs_to".toList) : h.isReference = true := by
  have hcolumn : ¬ ("column".toList = "references".toList ∨ "column".toList = "belongs_to".toList) := by
    decide
  cases h with
  | column kind name =>
    obtain ⟨_, hreferences, hbelongs, _⟩ := plainKind_facts kind.text kind.mem
    exact absurd hkind (not_or.mpr ⟨hreferences, hbelongs⟩)
  | typed name type => exact absurd hkind hcolumn
  | reference isAlias name => rfl

def text (h : Head) (options : List (Part ColumnOption)) : Text :=
  writeTokens .code (typeTokens h.type) ++ optionText options

end Head

theorem write_part (p : Part ColumnOption) :
    ∃ c back, (p.map ColumnOption.token).write .code = ',' :: ' ' :: c :: back ∧ isBlank c = false := by
  have hcomment : ", comment: ".toList = ',' :: ' ' :: 'c' :: "omment: ".toList := by decide
  have hdefault : ", default: ".toList = ',' :: ' ' :: 'd' :: "efault: ".toList := by decide
  cases p with
  | code o => exact o.write_cons
  | note n =>
    obtain ⟨kind, content⟩ := n
    cases kind with
    | comment => exact ⟨'c', _, congrArg (· ++ content.quotation) hcomment, by decide⟩
    | default => exact ⟨'d', _, congrArg (· ++ content.quotation) hdefault, by decide⟩

theorem optionText_cons (p : Part ColumnOption) (options : List (Part ColumnOption)) :
    optionText (p :: options) = (p.map ColumnOption.token).write .code ++ optionText options :=
  writeParts_cons ..

namespace Head

theorem text_cases (h : Head) (options : List (Part ColumnOption)) :
    h.text options = [] ∨ ∃ c back, h.text options = ',' :: ' ' :: c :: back ∧ isBlank c = false := by
  rw [text]
  cases htype : h.type with
  | none =>
    cases options with
    | nil => exact .inl rfl
    | cons p options =>
      obtain ⟨c, back, hwrite, hc⟩ := write_part p
      refine .inr ⟨c, back ++ optionText options, ?_, hc⟩
      rw [optionText_cons, hwrite]
      rfl
  | some type =>
    have hcomma : ", ".toList = [',', ' '] := by decide
    refine .inr ⟨':', type.text ++ optionText options, ?_, by decide⟩
    rw [typeTokens, writeTokens_singleton, Token.write, hcomma]
    rfl

end Head

theorem lineFeed_not_mem_text (h : Head) (options : List (Part ColumnOption)) :
    '\n' ∉ h.text options := by
  have htype : ∀ t ∈ typeTokens h.type, t.Sound := by
    have htokens := sound_columnTokens h.type []
    rwa [List.map_nil, List.append_nil] at htokens
  rw [Head.text, List.mem_append, not_or]
  exact ⟨fun hmem => (quiet_writeTokens htype _ hmem).2 rfl,
    lineFeed_not_mem_parts (sound_columnOptions options)⟩

/-! ### Lines -/

namespace Call

theorem write_append (c : Call) (rest : Text) :
    c.write .code ++ rest = c.margin.before .code ++ (c.receiver.text ++
      (writeParts .code c.item.parts ++ (c.margin.ending.write .code ++ rest))) := by
  simp only [write, List.append_assoc]

theorem write_of_other {c : Call} {item : Written.Item} (h : c.item = .other item) (view : View) :
    c.write view = c.withoutNotes.write view := by
  rw [write, withoutNotes, Written.Call.write, h, Item.parts, writeParts_code]
  rfl

theorem write_declaration {c : Call} {head : Head} {options : List (Part ColumnOption)}
    (h : c.item = .declaration head options) (rest : Text) :
    c.write .code ++ rest = c.margin.before .code ++ (c.receiver.text ++ '.' :: (head.kind ++
      ' ' :: (head.name.source ++ (head.text options ++ (c.margin.ending.write .code ++ rest))))) := by
  obtain ⟨hmethod, harguments⟩ := Item.write_arguments (head.declared?_item [])
  rw [columnText, List.map_nil, List.append_nil] at harguments
  rw [write_append, h, Item.parts, writeParts_append, writeParts_code, Item.write_tokens, hmethod,
    harguments, Head.text, optionText]
  simp only [List.append_assoc, List.cons_append]

end Call

def Call.read? (c : Call) : Option ColumnCall :=
  match c.item with
  | .declaration head options => some ⟨c.receiver.text, head.kind, head.name.text,
      head.text options ++ spaces (spacesRead (head.text options) c.margin.ending.width)⟩
  | .other _ => c.withoutNotes.read?

theorem word_of_head (h : Head) : columnKinds.contains h.kind = true ∧ h.kind ≠ "timestamps".toList ∧
    h.kind ≠ [] ∧ ∀ c ∈ h.kind, isWordChar c = true := by
  have hdeclared := h.declared?_item []
  obtain ⟨hcontains, htimestamps⟩ := Item.kind_of_declared hdeclared
  have hword := (h.item []).word_of_method
  rw [(Item.write_arguments hdeclared).1] at hword
  exact ⟨hcontains, htimestamps, hword⟩

theorem readsLine_columnCall (c : Call) {t : Text} (ht : Fresh t) :
    ReadsLine columnCall (c.write .code) t c.read? := by
  cases hitem : c.item with
  | other item =>
    rw [c.write_of_other hitem, Call.read?, hitem]
    exact readsCalls_columnCall.readsLine c.withoutNotes ht
  | declaration head options =>
    obtain ⟨hkind, _, hword⟩ := word_of_head head
    obtain ⟨m, hm, hspaces, hmatch⟩ := columnCall_line head.name c.receiver.ne_nil
      c.receiver.isWordChar hkind hword (head.text_cases options) (lineFeed_not_mem_text head options)
      c.margin.ending.width ht
    rw [Call.read?, hitem]
    simp only
    generalize spacesRead (head.text options) c.margin.ending.width = n at hspaces hmatch ⊢
    refine ⟨c.margin.before .code, c.receiver.text ++ '.' :: (head.kind ++ ' ' ::
      (head.name.source ++ (head.text options ++ spaces n))), m, c.margin.isMargin_before, hm, ?_, ?_,
      fun before => ?_⟩
    · exact List.append_ne_nil_of_right_ne_nil _ (List.cons_ne_nil _ _)
    · rw [Call.write_declaration hitem, Ending.write_code, List.append_assoc, List.singleton_append,
        hspaces]
      simp only [List.append_assoc, List.cons_append]
    · have hmatch' := hmatch before
      rw [hspaces] at hmatch'
      simpa only [List.append_assoc, List.cons_append] using hmatch'

/-! ### Timestamps -/

theorem methodCall?_eq_none_of_head {u rest : Text} (hu : u ≠ []) (hpoint : '.' ∉ u)
    (hkey : rest.head?.any isKeyChar = false) (hrest : rest.head? ≠ some '.') :
    methodCall? (u ++ rest) = none := by
  rw [methodCall?, word?_extend hu (.inr hkey)]
  cases hfound : word? u with
  | none => rfl
  | some found =>
    obtain ⟨w, t⟩ := found
    obtain ⟨rfl, -, -⟩ := word?_eq_some hfound
    have hafter : after? '.' (t ++ rest) = none := by
      refine after?_eq_none ?_
      cases t with
      | nil => exact hrest
      | cons c t =>
        rintro heq
        obtain rfl : c = '.' := Option.some.inj heq
        exact hpoint (by simp)
    simp only [Option.map_some, Option.bind_eq_bind, Option.bind_some, hafter, Option.bind_none]

theorem timestampsCall_passesOver {s rest : Text} (hpoint : '.' ∉ s)
    (hkey : rest.head?.any isKeyChar = false) (hrest : rest.head? ≠ some '.') (before : Option Char) :
    timestampsCall.PassesOver before s rest :=
  Pattern.passesOver_of_suffix fun _ _ hu hsuffix => timestampsCall_of_no_call _ _
    (methodCall?_eq_none_of_head hu (fun hmem => hpoint (hsuffix.subset hmem)) hkey hrest)

theorem timestampsCall_passesOver_note {n : Note} (h : timestampsCall.occursIn n.content.text = false)
    (rest : Text) (before : Option Char) : timestampsCall.PassesOver before (n.write .code) rest := by
  have hcode : '.' ∉ n.kind.code := by cases n.kind <;> decide
  have hmark : ∀ b t, timestampsCall b ('"' :: t) = none := fun b t =>
    timestampsCall_of_no_call b _ rfl
  exact passesOver_note (passesOver_of_no_call timestampsCall_of_no_call hcode n.kind.closed before)
    hmark (passesOver_content_of_stops h (fun t => id) stopsAtQuote_timestampsCall rest)

theorem head?_optionText_ne (options : List (Part ColumnOption)) {rest : Text}
    (hrest : rest.head? ≠ some '.') : (optionText options ++ rest).head? ≠ some '.' := by
  cases options with
  | nil => exact hrest
  | cons p options =>
    obtain ⟨c, back, hwrite, _⟩ := write_part p
    rw [optionText_cons, hwrite]
    exact fun heq => absurd (Option.some.inj heq) (by decide)

theorem timestampsCall_passesOver_optionText {options : List (Part ColumnOption)}
    (h : ∀ n ∈ notes options, timestampsCall.occursIn n.content.text = false) {rest : Text}
    (hkey : rest.head?.any isKeyChar = false) (hrest : rest.head? ≠ some '.') (before : Option Char) :
    timestampsCall.PassesOver before (optionText options) rest := by
  induction options generalizing before with
  | nil => trivial
  | cons p options ih =>
    rw [optionText_cons, Pattern.passesOver_append]
    cases p with
    | note n =>
      rw [notes_cons_note, List.forall_mem_cons] at h
      exact ⟨timestampsCall_passesOver_note h.1 _ before, ih h.2 _⟩
    | code o =>
      have hpoint : '.' ∉ o.token.write .code := by
        have hmem := not_mem_point_tokens (ColumnOption.not_mem_point [o])
        rwa [List.map_singleton, writeTokens_singleton] at hmem
      exact ⟨timestampsCall_passesOver hpoint (head?_optionText options hkey)
        (head?_optionText_ne options hrest) before, ih h _⟩

/-- The method of a line that declares a column, the name and the type: no point stands in them. -/
def Head.code (h : Head) : Text :=
  h.kind ++ ' ' :: (h.name.source ++ writeTokens .code (typeTokens h.type))

theorem Head.point_not_mem_code (h : Head) : '.' ∉ h.code := by
  have hcomma : '.' ∉ ", ".toList := by decide
  have htype : ∀ x ∈ typeTokens h.type, '.' ∉ x.code := by
    cases h.type with
    | none => exact List.forall_mem_nil _
    | some type => exact List.forall_mem_singleton.mpr hcomma
  obtain ⟨_, _, _, hword⟩ := word_of_head h
  rw [code, List.mem_append, List.mem_cons, List.mem_append, not_or, not_or, not_or]
  exact ⟨foreign_point.not_mem_word hword, by decide, foreign_point.not_mem_source h.name,
    not_mem_point_tokens htype⟩

theorem Ending.head?_write (e : Ending) (rest : Text) : (e.write .code ++ rest).head? ≠ some '.' := by
  obtain ⟨c, back, hcons⟩ := List.exists_cons_of_ne_nil e.write_ne_nil
  rw [hcons]
  intro heq
  have hc := e.isMargin c (hcons ▸ List.mem_cons_self ..)
  rw [Option.some.inj heq] at hc
  exact absurd hc (by decide)

theorem timestampsCall_declaration {c : Call} {head : Head} {options : List (Part ColumnOption)}
    (hitem : c.item = .declaration head options)
    (h : ∀ n ∈ notes options, timestampsCall.occursIn n.content.text = false) (t : Text)
    (before : Option Char) : timestampsCall.PassesOver before (c.write .code) t := by
  obtain ⟨_, htimestamps, hne, hword⟩ := word_of_head head
  have hmargin : ∀ {m : Text}, IsMargin m → ∀ b rest, timestampsCall.PassesOver b m rest :=
    fun hm b rest => passesOver_margin timestampsCall_of_no_call hm rest b
  have hkey := c.margin.ending.head? t
  have hdot := Ending.head?_write c.margin.ending t
  have hline : c.write .code = c.margin.before .code ++ (c.receiver.text ++ (['.'] ++ (head.code ++
      (optionText options ++ c.margin.ending.write .code)))) := by
    have hwrite := Call.write_declaration hitem []
    rw [List.append_nil, List.append_nil] at hwrite
    rw [hwrite, Head.text, Head.code]
    simp only [List.append_assoc, List.cons_append, List.nil_append]
  rw [hline, Pattern.passesOver_append, Pattern.passesOver_append, Pattern.passesOver_append,
    Pattern.passesOver_append, Pattern.passesOver_append]
  -- Only behind the receiver stands a point outside of the texts.
  refine ⟨hmargin c.margin.isMargin_before _ _, Pattern.passesOver_of_suffix fun b u hu hsuffix => ?_,
    ⟨timestampsCall_of_no_call _ _ rfl, trivial⟩, ?_, ?_, hmargin c.margin.ending.isMargin _ _⟩
  · -- The end of a receiver is a receiver too, but the method is another one.
    have hreceiver : ∀ d ∈ u, isWordChar d = true :=
      fun d hd => c.receiver.isWordChar d (hsuffix.subset hd)
    have hcall : ∀ rest, methodCall? (u ++ '.' :: (head.kind ++ ' ' :: rest)) =
        some (u, head.kind, ' ' :: rest) := fun rest => methodCall?_append hu hreceiver hne hword rfl
    rw [timestampsCall, Head.code]
    simp only [List.append_assoc, List.cons_append, List.nil_append, hcall, Option.bind_eq_bind,
      Option.bind_some, if_neg htimestamps]
  · rw [List.append_assoc]
    exact timestampsCall_passesOver head.point_not_mem_code (head?_optionText options hkey)
      (head?_optionText_ne options hdot) _
  · exact timestampsCall_passesOver_optionText h hkey hdot _

theorem item_of_declaration {c : Call} {head : Head} {options : List (Part ColumnOption)}
    (h : c.item = .declaration head options) :
    c.withoutNotes.item = head.item (withoutNotes options) := by
  rw [Call.withoutNotes, h]
  rfl

theorem timestampsReceiver?_declaration {c : Call} {head : Head} {options : List (Part ColumnOption)}
    (h : c.item = .declaration head options) : c.withoutNotes.timestampsReceiver? = none := by
  rw [Written.Call.timestampsReceiver?, item_of_declaration h]
  cases head <;> rfl

theorem readsLine_timestampsCall {c : Call} (h : c.item.Inert) {t : Text} (ht : Fresh t) :
    ReadsLine timestampsCall (c.write .code) t c.withoutNotes.timestampsReceiver? := by
  cases hitem : c.item with
  | other item =>
    rw [c.write_of_other hitem]
    exact readsCalls_timestampsCall.readsLine c.withoutNotes ht
  | declaration head options =>
    rw [hitem] at h
    rw [timestampsReceiver?_declaration hitem]
    exact timestampsCall_declaration hitem (fun n hn => (h n hn).1.timestamps) t

/-! ### Bodies -/

theorem read?_receiver {c : Call} {r : ColumnCall} (h : c.read? = some r) :
    r.receiver = c.receiver.text := by
  rw [Call.read?] at h
  cases hitem : c.item with
  | declaration head options =>
    rw [hitem] at h
    obtain rfl := Option.some.inj h
    rfl
  | other item =>
    rw [hitem] at h
    exact Written.read?_receiver h

theorem columns_read? {c : Call} (h : c.item.Inert) :
    c.read?.elim [] ColumnCall.columns = c.withoutNotes.item.columns := by
  cases hitem : c.item with
  | other item =>
    rw [Call.read?, hitem]
    exact Written.columns_read? c.withoutNotes
  | declaration head options =>
    rw [hitem] at h
    rw [Call.read?, hitem, item_of_declaration hitem]
    simp only [Option.elim_some, Head.text, List.append_assoc]
    refine columns_of_options (head.declared?_item (withoutNotes options)) _
      (isNotNull_optionText head.type (fun n hn => (h n hn).1.isNotNull) _) (fun hkind => ?_)
      fun type htype => ?_
    · have hreference := Head.isReference_of_kind hkind
      exact isPolymorphic_optionText head.type (fun n hn => (h n hn).2 hreference) _
    · have hhead := head?_optionText options (head?_spaces
        (spacesRead (writeTokens .code (typeTokens head.type) ++ optionText options)
          c.margin.ending.width))
      have htype' : head.type = some type := htype
      rw [htype'] at hhead ⊢
      exact declaredType?_behindType type hhead

/-- Texts in which nothing is found leave the columns of a table as they are. -/
theorem bodyColumns_body {b : Block} (h : b.Inert) :
    bodyColumns (b.body .code) b.receiver.text =
      bodyColumns (b.withoutNotes.body .code) b.withoutNotes.receiver.text := by
  have hread : (columnCall.all (b.body .code)).map (·.value) = b.calls.filterMap Call.read? :=
    all_lines columnCall_of_no_call (fun c => c.outline.fresh) (fun c _ _ => readsLine_columnCall c)
      b.opening.ending.isMargin b.closing.isMargin_before
  have htimestamps : (timestampsCall.all (b.body .code)).map (·.value) =
      b.calls.filterMap fun c => c.withoutNotes.timestampsReceiver? :=
    all_lines timestampsCall_of_no_call (fun c => c.outline.fresh)
      (fun c hc _ => readsLine_timestampsCall (h.items c hc)) b.opening.ending.isMargin
      b.closing.isMargin_before
  have hlines := bodyColumns_of_lines hread htimestamps (fun c _ _ => read?_receiver)
    (fun c hc => columns_read? (h.items c hc)) b.receiver.text
  have hitems : b.withoutNotes.ownItems =
      (b.calls.filter (·.receiver.text == b.receiver.text)).map (·.withoutNotes.item) := by
    have hcalls : b.withoutNotes.calls = b.calls.map Call.withoutNotes := rfl
    rw [Written.Block.ownItems, hcalls, List.filter_map, List.map_map]
    rfl
  rw [hlines, Written.bodyColumns_body, hitems, List.flatMap_map, List.any_map]
  rfl

end RecordMap.Schema.Noted
