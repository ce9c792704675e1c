import Mathlib.Data.List.Basic
import RecordMap.Syntax.Call

/-! What literals, calls and assignments to attributes say, read off the nodes of a tree. -/

namespace RecordMap.Syntax.Node

variable {n left value : Node} {receiver : Option Node} {t name : Text}

theorem is_iff {kind : String} : n.is kind = true ↔ n.kind = kind := beq_iff_eq

/-! ### Literals -/

inductive Denotes (n : Node) : Text → Prop where
  | quoted (hkind : n.kind = "string" ∨ n.kind = "delimited_symbol")
      (hparts : ∀ part ∈ n.namedChildren, part.kind = "string_content") :
      Denotes n (n.namedChildren.flatMap text)
  | symbol (hkind : n.kind = "simple_symbol") : Denotes n (n.text.drop 1)
  | key (hkind : n.kind = "hash_key_symbol") : Denotes n n.text

theorem denotes_of_parts (hkind : n.kind = "string" ∨ n.kind = "delimited_symbol")
    (h : (if n.namedChildren.all (·.is "string_content") then
      some (Literal.text (n.namedChildren.flatMap text)) else none) = some (.text t)) :
    n.Denotes t := by
  obtain ⟨hparts, heq⟩ := Option.ite_none_right_eq_some.mp h
  cases heq
  exact .quoted hkind fun part hpart => is_iff.mp (List.all_eq_true.mp hparts part hpart)

theorem textLiteral?_eq_some_iff : n.textLiteral? = some t ↔ n.Denotes t := by
  unfold textLiteral?
  constructor
  · intro h
    obtain ⟨l, hl, ht⟩ := Option.bind_eq_some_iff.mp h
    cases l with
    | truth value => cases ht
    | text value =>
      cases ht
      unfold literal? at hl
      split at hl
      case h_1 hkind => exact denotes_of_parts (.inl hkind) hl
      case h_2 hkind => exact denotes_of_parts (.inr hkind) hl
      case h_3 hkind =>
        cases hl
        exact .symbol hkind
      case h_4 hkind =>
        cases hl
        exact .key hkind
      all_goals cases hl
  · rintro (⟨hkind | hkind, hparts⟩ | hkind | hkind)
    · have hall := List.all_eq_true.mpr fun part hpart => is_iff.mpr (hparts part hpart)
      simp [literal?, hkind, hall, Literal.text?]
    · have hall := List.all_eq_true.mpr fun part hpart => is_iff.mpr (hparts part hpart)
      simp [literal?, hkind, hall, Literal.text?]
    · simp [literal?, hkind, Literal.text?]
    · simp [literal?, hkind, Literal.text?]

theorem literal?_eq_true_iff : n.literal? = some (.truth true) ↔ n.kind = "true" := by
  constructor
  · intro h
    unfold literal? at h
    split at h
    case h_5 hkind => exact hkind
    all_goals simp at h
  · intro hkind
    simp [literal?, hkind]

/-! ### Calls -/

def HasFirst (call argument : Node) : Prop :=
  ∃ list, call.child? "arguments" = some list ∧
    list.namedChildren.find? (fun a => !a.is "comment") = some argument

theorem hasFirst_iff (hkind : n.kind = "call") :
    n.HasFirst value ↔ n.firstArgument? = some value := by
  unfold HasFirst firstArgument? arguments
  rw [if_pos (is_iff.mpr hkind)]
  cases n.child? "arguments" with
  | none => simp
  | some list => simp [List.head?_filter]

/-- A call of the method without a receiver. Its first argument is a string or symbol that stands
for the text. -/
structure BareCall (method : String) (n : Node) (t : Text) : Prop where
  isCall : n.kind = "call"
  named : ∃ name, n.child? "method" = some name ∧ name.text = method.toList
  bare : n.child? "receiver" = none
  argument : ∃ value, n.HasFirst value ∧ value.Denotes t

/-! ### Setters -/

theorem assignedCall?_eq_some_iff :
    n.assignedCall? = some left ↔
      n.kind = "assignment" ∧ n.child? "left" = some left ∧ left.kind = "call" ∧
        left.child? "arguments" = none := by
  unfold assignedCall?
  by_cases hkind : n.kind = "assignment"
  · rw [if_pos (is_iff.mpr hkind), Option.filter_eq_some_iff]
    simp [hkind, is_iff]
  · rw [if_neg (mt is_iff.mp hkind)]
    simp [hkind]

/-- The node is `receiver.name = value`, or a call of `name=` with the value as its first argument.
-/
inductive Sets (name : Text) (n : Node) : Option Node → Node → Prop where
  | call {method value : Node} (hkind : n.kind = "call") (hmethod : n.child? "method" = some method)
      (hname : method.text = name ++ ['=']) (hvalue : n.HasFirst value) :
      Sets name n (n.child? "receiver") value
  | assignment {left method value : Node} (hkind : n.kind = "assignment")
      (hleft : n.child? "left" = some left) (hcall : left.kind = "call")
      (harguments : left.child? "arguments" = none) (hmethod : left.child? "method" = some method)
      (hname : method.text = name) (hvalue : n.child? "right" = some value) :
      Sets name n (left.child? "receiver") value

theorem Sets.reads {setter : String} (hsetter : setter.toList = name ++ ['=']) (hname : name ≠ [])
    (h : n.Sets name receiver value) :
    n.calls setter = true ∧ n.receiver? = receiver ∧ n.firstArgument? = some value := by
  cases h with
  | call hkind hmethod htext hvalue =>
    refine ⟨?_, ?_, (hasFirst_iff hkind).mp hvalue⟩
    · simp [calls, isCall, methodName?, calledName?, is_iff.mpr hkind, hmethod, htext, hsetter]
    · rw [receiver?, if_pos (is_iff.mpr hkind)]
  | assignment hkind hleft hcall harguments hmethod htext hvalue =>
    have hassigned := assignedCall?_eq_some_iff.mpr ⟨hkind, hleft, hcall, harguments⟩
    have hnot : n.is "call" = false := by
      unfold is
      rw [hkind]
      decide
    refine ⟨?_, ?_, ?_⟩
    · simp [calls, isCall, methodName?, calledName?, hnot, hassigned, hmethod, htext, hsetter]
    · simp [receiver?, hnot, hassigned]
    · simp [firstArgument?, arguments, hnot, hassigned, hvalue]

theorem sets_of_reads {setter : String} (hsetter : setter.toList = name ++ ['='])
    (hcalls : n.calls setter = true) (hvalue : n.firstArgument? = some value) :
    n.Sets name n.receiver? value := by
  unfold calls methodName? at hcalls
  unfold receiver?
  rw [Bool.and_eq_true, beq_iff_eq, hsetter] at hcalls
  obtain ⟨hcall, hmethod⟩ := hcalls
  by_cases hkind : n.kind = "call"
  · rw [if_pos (is_iff.mpr hkind)] at hmethod ⊢
    obtain ⟨method, hchild, htext⟩ := Option.map_eq_some_iff.mp hmethod
    exact .call hkind hchild htext ((hasFirst_iff hkind).mpr hvalue)
  · unfold firstArgument? arguments at hvalue
    rw [if_neg (mt is_iff.mp hkind)] at hmethod hvalue ⊢
    cases hassigned : n.assignedCall? with
    | none =>
      rw [hassigned] at hmethod
      cases hmethod
    | some left =>
      obtain ⟨hassignment, hleft, hleftcall, harguments⟩ := assignedCall?_eq_some_iff.mp hassigned
      rw [hassigned] at hmethod hvalue
      obtain ⟨method, hchild⟩ : ∃ method, left.child? "method" = some method := by
        rw [← Option.ne_none_iff_exists']
        intro hnone
        simp [calledName?, hnone] at hmethod
      have htext : method.text = name := by
        rw [Option.bind_some, calledName?, hchild, Option.map_some] at hmethod
        cases hwritten : method.text with
        | nil =>
          rw [hwritten] at hmethod
          cases hmethod
        | cons c cs =>
          rw [hwritten] at hmethod
          exact List.append_cancel_right (Option.some.inj hmethod)
      have hright : n.child? "right" = some value := by
        rw [Option.isSome_some, if_pos rfl, Option.head?_toList] at hvalue
        exact hvalue
      exact .assignment hassignment hleft hleftcall harguments hchild htext hright

theorem sets_iff {setter : String} (hsetter : setter.toList = name ++ ['=']) (hname : name ≠ []) :
    n.Sets name receiver value ↔
      n.calls setter = true ∧ n.receiver? = receiver ∧ n.firstArgument? = some value := by
  constructor
  · exact Sets.reads hsetter hname
  · rintro ⟨hcalls, rfl, hvalue⟩
    exact sets_of_reads hsetter hcalls hvalue

end RecordMap.Syntax.Node
