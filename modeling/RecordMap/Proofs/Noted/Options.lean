import RecordMap.Proofs.Dump.Columns
import RecordMap.Proofs.Noted.Contents

/-! What is read from the options of tables and columns where texts stand among them. -/

namespace RecordMap.Schema.Noted

open Written Dump Text

variable {α : Type}

theorem notes_cons_note {ο : Type} (n : Note) (os : List (Part ο)) :
    notes (.note n :: os) = n :: notes os := rfl

/-- What is read from options without notes is read from them with notes that are passed over. -/
theorem firstAfter_parts {ο : Type} {p : Pattern α} {token : ο → Token} {f : ο → Option α}
    (h : ReadsOptions p token f) {os : List (Part ο)}
    (hnotes : ∀ n ∈ notes os, ∀ before rest, p.PassesOver before (n.write .code) rest) {rest : Text}
    (hhead : rest.head?.any isKeyChar = false) (hrest : ∀ before, p.firstAfter before rest = none)
    (before : Option Char) :
    p.firstAfter before (writeParts .code (os.map (Part.map token)) ++ rest) =
      (withoutNotes os).findSome? f := by
  induction os generalizing before with
  | nil => exact hrest before
  | cons o os ih =>
    have hsound : Sound (os.map (Part.map token)) := by
      rw [Sound, withoutNotes_map]
      intro t ht
      obtain ⟨o', _, rfl⟩ := List.mem_map.mp ht
      exact h.sound o'
    have hhead' := head?_parts hsound .code hhead
    rw [List.map_cons, writeParts_cons, List.append_assoc]
    cases o with
    | note n =>
      rw [notes_cons_note, List.forall_mem_cons] at hnotes
      exact (Pattern.firstAfter_of_passesOver (hnotes.1 before _)).trans (ih hnotes.2 _)
    | code o =>
      have hparts : withoutNotes (.code o :: os) = o :: withoutNotes os := rfl
      rw [hparts]
      -- an option ends the search or is passed over, as without notes
      cases hf : f o with
      | some a =>
        rw [List.findSome?_cons_of_isSome (by rw [hf]; rfl), hf]
        exact h.match_of_some o a before _ hhead' hf
      | none =>
        rw [List.findSome?_cons_of_isNone (by rw [hf]; rfl), ← ih hnotes _]
        exact Pattern.firstAfter_of_passesOver (h.passesOver_of_none o before _ hhead' hf)

/-! ### Options of tables -/

theorem verbatim_id_kind (k : NoteKind) :
    (Pattern.verbatim ("id" ++ ":")).PassesOver none k.code [] := by
  cases k <;> decide

theorem verbatim_primaryKey_kind (k : NoteKind) :
    (Pattern.verbatim ("primary_key" ++ ":")).PassesOver none k.code [] := by
  cases k <;> decide

theorem id_passesOver_note {value : Text → Option (α × Text)} (hvalue : StopsAtQuote value) {n : Note}
    (h : (wholeOption "id" value).occursIn n.content.text = false) (before : Option Char) (rest : Text) :
    (wholeOption "id" value).PassesOver before (n.write .code) rest := by
  have hcode : (wholeOption "id" value).PassesOver before n.kind.code (n.content.quotation ++ rest) :=
    wholeOption_passesOver
      (option_passesOver_kind isKey_id (verbatim_id_kind n.kind) n.content rest before)
  refine passesOver_note hcode (fun b t => wholeOption_eq_none (option_eq_none_of_mark isKey_id b t)) ?_
  exact passesOver_content_of_stops h (fun t => id)
    (stopsAtQuote_wholeOption (by decide) hvalue) rest

/-- The name of a key may be read beyond a text only from a mark at the end of that text. -/
theorem option_name?_quote {before : Option Char} {c : Content} {u : Text} (hsuffix : u <:+ c.text)
    (h : option "primary_key" nameOrEnd? before u = none) (rest : Text) :
    option "primary_key" name? before (u ++ '"' :: rest) = none := by
  rw [option] at h ⊢
  rw [afterAll?_stop (by decide)]
  cases hname : afterAll? "primary_key" u with
  | none => rfl
  | some t =>
    rw [hname] at h
    simp only [Option.map_some, Option.bind_eq_bind, Option.bind_some] at h ⊢
    rw [after?_stop (by decide)]
    cases hcolon : after? ':' t with
    | none => rfl
    | some t' =>
      rw [hcolon] at h
      simp only [Option.map_some, Option.bind_some] at h ⊢
      have hback : dropBlanks t' <:+ c.text := by
        refine (dropBlanks_suffix t').trans (List.IsSuffix.trans ?_ hsuffix)
        rw [afterAll?_eq_some_iff.mp hname, after?_eq_some_iff.mp hcolon]
        exact (List.suffix_cons ':' t').trans (List.suffix_append _ _)
      rw [dropBlanks_quote]
      exact name?_quote (fun d hd => c.not_isQuote d (hback.subset hd)) h rest

theorem primaryKey_passesOver_note {n : Note}
    (h : (option "primary_key" nameOrEnd?).occursIn n.content.text = false) (before : Option Char)
    (rest : Text) : (option "primary_key" name?).PassesOver before (n.write .code) rest := by
  refine passesOver_note
    (option_passesOver_kind isKey_primaryKey (verbatim_primaryKey_kind n.kind) n.content rest before)
    (option_eq_none_of_mark isKey_primaryKey) ?_
  exact passesOver_content h (fun t => id) fun _ u _ hsuffix hnone =>
    option_name?_quote hsuffix hnone rest

theorem keyColumns_parts {options : List (Part TableOption)}
    (h : ∀ n ∈ notes options, n.content.InertInTable) :
    Dump.keyColumns (writeParts .code (options.map (Part.map TableOption.token))) =
      Written.keyColumns (withoutNotes options) := by
  have hread : ∀ {β : Type} {p : Pattern β} {f : TableOption → Option β},
      ReadsOptions p TableOption.token f →
      (∀ n ∈ notes options, ∀ before rest, p.PassesOver before (n.write .code) rest) →
        p.first? (writeParts .code (options.map (Part.map TableOption.token))) =
          (withoutNotes options).findSome? f := by
    intro β p f hp hnotes
    have hall : p.firstAfter none (writeParts .code (options.map (Part.map TableOption.token)) ++ []) =
      _ := firstAfter_parts hp hnotes rfl (fun _ => rfl) none
    rwa [List.append_nil] at hall
  have hnoKey : hasNoKey (writeParts .code (options.map (Part.map TableOption.token))) =
      (withoutNotes options).any TableOption.isNoKey := by
    rw [hasNoKey, Pattern.occursIn, hread readsOptions_noKey fun n hn =>
      id_passesOver_note (stopsAtQuote_flag (by decide)) (h n hn).hasNoKey, isSome_findSome?_ite]
  rw [Dump.keyColumns, Written.keyColumns, hnoKey,
    hread readsOptions_type fun n hn => id_passesOver_note stopsAtQuote_symbol? (h n hn).type,
    hread readsOptions_name fun n hn => primaryKey_passesOver_note (h n hn).name]

/-! ### Options of columns -/

def optionText (options : List (Part ColumnOption)) : Text :=
  writeParts .code (options.map (Part.map ColumnOption.token))

theorem flag_passesOver_note {name k : String} (hname : '"' ∉ name.toList) (hk : '"' ∉ k.toList)
    (hkey : IsKey (name ++ ":")) {n : Note}
    (hcode : (Pattern.verbatim (name ++ ":")).PassesOver none n.kind.code [])
    (h : (option name fun t => (afterAll? k t).map ((), ·)).occursIn n.content.text = false)
    (before : Option Char) (rest : Text) :
    (option name fun t => (afterAll? k t).map ((), ·)).PassesOver before (n.write .code) rest := by
  refine passesOver_note (option_passesOver_kind hkey hcode n.content rest before)
    (option_eq_none_of_mark hkey) ?_
  exact passesOver_content_of_stops h (fun t => id)
    (stopsAtQuote_option hname (stopsAtQuote_flag hk)) rest

theorem head?_optionText (options : List (Part ColumnOption)) {rest : Text}
    (hrest : rest.head?.any isKeyChar = false) :
    (optionText options ++ rest).head?.any isKeyChar = false :=
  head?_parts (sound_columnOptions options) .code hrest

theorem occursIn_optionText {name k : String} {f : ColumnOption → Bool} (hkey : IsKey (name ++ ":"))
    (hread : ReadsOptions (option name fun t => (afterAll? k t).map ((), ·)) ColumnOption.token
      fun o => if f o then some () else none)
    (htype : (Pattern.verbatim (name ++ ":")).PassesOver none ", ".toList []) (type : Option Word)
    {options : List (Part ColumnOption)}
    (hnotes : ∀ n ∈ notes options, ∀ before rest,
      (option name fun t => (afterAll? k t).map ((), ·)).PassesOver before (n.write .code) rest)
    (n : Nat) :
    (option name fun t => (afterAll? k t).map ((), ·)).occursIn
      (writeTokens .code (typeTokens type) ++ (optionText options ++ spaces n)) =
        (withoutNotes options).any f :=
  occursIn_behindType hkey htype type (head?_optionText options (head?_spaces n))
    (firstAfter_parts hread hnotes (head?_spaces n) (option_firstAfter_spaces hkey n))

theorem isNotNull_optionText (type : Option Word) {options : List (Part ColumnOption)}
    (h : ∀ n ∈ notes options, isNotNull n.content.text = false) (n : Nat) :
    isNotNull (writeTokens .code (typeTokens type) ++ (optionText options ++ spaces n)) =
      (withoutNotes options).any ColumnOption.isNotNull := by
  refine occursIn_optionText isKey_null readsOptions_notNull (by decide) type (fun n hn => ?_) n
  refine flag_passesOver_note (by decide) (by decide) isKey_null ?_ (h n hn)
  cases n.kind <;> decide

theorem isPolymorphic_optionText (type : Option Word) {options : List (Part ColumnOption)}
    (h : ∀ n ∈ notes options, isPolymorphic n.content.text = false) (n : Nat) :
    isPolymorphic (writeTokens .code (typeTokens type) ++ (optionText options ++ spaces n)) =
      (withoutNotes options).any ColumnOption.isPolymorphic := by
  refine occursIn_optionText isKey_polymorphic readsOptions_polymorphic (by decide) type
    (fun n hn => ?_) n
  refine flag_passesOver_note (by decide) (by decide) isKey_polymorphic ?_ (h n hn)
  cases n.kind <;> decide

end RecordMap.Schema.Noted
