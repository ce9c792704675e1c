import Mathlib.Data.List.Nodup
import RecordMap.Files.Disk

/-! Files by the names that lead to them. In directories whose entries have proper names, each of its
own, a path that is written out from a directory shows what those names lead to. -/

namespace RecordMap

namespace Text

theorem splitAt_ne_nil (separator : Char) (t : Text) : splitAt separator t ≠ [] := by
  cases t with
  | nil => exact List.cons_ne_nil _ _
  | cons c cs =>
    rw [splitAt]
    split
    · exact List.cons_ne_nil _ _
    · split <;> exact List.cons_ne_nil _ _

theorem splitAt_of_not_mem {separator : Char} {t : Text} (h : separator ∉ t) :
    splitAt separator t = [t] := by
  induction t with
  | nil => rfl
  | cons c cs ih =>
    rw [List.mem_cons, not_or] at h
    rw [splitAt, if_neg (Ne.symm h.1), ih h.2]

theorem splitAt_append (separator : Char) (s t : Text) :
    splitAt separator (s ++ separator :: t) = splitAt separator s ++ splitAt separator t := by
  induction s with
  | nil =>
    change (if separator = separator then _ else _) = _
    rw [if_pos rfl]
    rfl
  | cons c cs ih =>
    rw [List.cons_append, splitAt, splitAt, ih]
    split
    · rfl
    · cases h : splitAt separator cs with
      | nil => exact absurd h (splitAt_ne_nil separator cs)
      | cons part parts => rfl

theorem byteSize_append (s t : Text) : (s ++ t).byteSize = s.byteSize + t.byteSize := by
  induction s with
  | nil => exact (Nat.zero_add _).symm
  | cons c cs ih => rw [List.cons_append, byteSize, byteSize, ih, Nat.add_assoc]

end Text

namespace Files

namespace Path

/-! ### Names in a path -/

structure IsName (name : Text) : Prop where
  ne_nil : name ≠ []
  slash_not_mem : '/' ∉ name
  null_not_mem : '\x00' ∉ name
  ne_here : name ≠ ['.']
  ne_up : name ≠ ['.', '.']
  size_le : name.byteSize ≤ maxNameSize

instance (name : Text) : Decidable (IsName name) :=
  decidable_of_iff (name ≠ [] ∧ '/' ∉ name ∧ '\x00' ∉ name ∧ name ≠ ['.'] ∧ name ≠ ['.', '.'] ∧
      name.byteSize ≤ maxNameSize)
    ⟨fun ⟨hne, hslash, hnull, hhere, hup, hsize⟩ => ⟨hne, hslash, hnull, hhere, hup, hsize⟩,
      fun ⟨hne, hslash, hnull, hhere, hup, hsize⟩ => ⟨hne, hslash, hnull, hhere, hup, hsize⟩⟩

/-- The names that are written in a path, with those that go up or stay. -/
def written (path : Text) : List Text := (path.splitAt '/').filter (· ≠ [])

theorem steps_cases (path : Text) : steps path = written path ∨ steps path = written path ++ [[]] := by
  change written path ++ _ = _ ∨ written path ++ _ = _
  split
  · exact .inr rfl
  · exact .inl (List.append_nil _)

theorem written_append (front back : Text) :
    written (front ++ '/' :: back) = written front ++ written back := by
  rw [written, Text.splitAt_append, List.filter_append]
  rfl

theorem written_name {name : Text} (h : IsName name) : written name = [name] := by
  rw [written, Text.splitAt_of_not_mem h.slash_not_mem]
  exact List.filter_cons_of_pos (decide_eq_true h.ne_nil)

theorem steps_append_name {name : Text} (h : IsName name) (front : Text) :
    steps (front ++ '/' :: name) = written front ++ [name] := by
  have hlast : ((front ++ '/' :: name).splitAt '/').getLast? ≠ some [] := by
    rw [Text.splitAt_append, Text.splitAt_of_not_mem h.slash_not_mem, List.getLast?_concat]
    exact fun heq => h.ne_nil (Option.some.inj heq)
  change written (front ++ '/' :: name) ++ _ = _
  rw [if_neg hlast, List.append_nil, written_append, written_name h]

theorem isAbsolute_eq_false {name : Text} (h : IsName name) : isAbsolute name = false := by
  rw [isAbsolute, beq_eq_false_iff_ne]
  exact fun hhead => h.slash_not_mem (List.mem_of_head? hhead)

theorem join_cases {directory name : Text} (hdirectory : directory ≠ []) (h : IsName name) :
    ∃ front, join directory name = front ++ '/' :: name ∧ written front = written directory ∧
      isAbsolute (front ++ '/' :: name) = isAbsolute directory := by
  have hjoin : (isAbsolute name || directory == []) = false :=
    Bool.or_eq_false_iff.mpr ⟨isAbsolute_eq_false h, beq_eq_false_iff_ne.mpr hdirectory⟩
  rw [join, hjoin, if_neg Bool.false_ne_true]
  split
  · next hlast =>
    obtain ⟨front, rfl⟩ := List.getLast?_eq_some_iff.mp (beq_iff_eq.mp hlast)
    refine ⟨front, by rw [List.append_assoc, List.singleton_append], ?_, ?_⟩
    · rw [written_append]
      exact (List.append_nil _).symm
    · cases front <;> rfl
  · refine ⟨directory, rfl, rfl, ?_⟩
    obtain ⟨c, cs, rfl⟩ := List.exists_cons_of_ne_nil hdirectory
    rfl

theorem byteSize_le_join {name : Text} (h : IsName name) (directory : Text) :
    directory.byteSize ≤ (join directory name).byteSize := by
  by_cases hdirectory : directory = []
  · exact hdirectory ▸ Nat.zero_le _
  · have hjoin : (isAbsolute name || directory == []) = false :=
      Bool.or_eq_false_iff.mpr ⟨isAbsolute_eq_false h, beq_eq_false_iff_ne.mpr hdirectory⟩
    rw [join, hjoin, if_neg Bool.false_ne_true]
    split <;> exact Text.byteSize_append .. ▸ Nat.le_add_right _ _

theorem byteSize_le_foldl_join {names : List Text} (h : ∀ n ∈ names, IsName n) (directory : Text) :
    directory.byteSize ≤ (names.foldl join directory).byteSize := by
  induction names generalizing directory with
  | nil => exact Nat.le_refl _
  | cons name names ih =>
    obtain ⟨hname, hnames⟩ := List.forall_mem_cons.mp h
    exact Nat.le_trans (byteSize_le_join hname directory) (ih hnames _)

theorem steps_foldl_join {directory : Text} {names : List Text} (hdirectory : directory ≠ [])
    (hnames : ∀ n ∈ names, IsName n) (hne : names ≠ []) :
    names.foldl join directory ≠ [] ∧
      steps (names.foldl join directory) = written directory ++ names ∧
      isAbsolute (names.foldl join directory) = isAbsolute directory := by
  induction names generalizing directory with
  | nil => exact absurd rfl hne
  | cons name names ih =>
    obtain ⟨hname, hnames⟩ := List.forall_mem_cons.mp hnames
    obtain ⟨front, hjoin, hfront, habsolute⟩ := join_cases hdirectory hname
    have hfrontne : front ++ '/' :: name ≠ [] :=
      List.append_ne_nil_of_right_ne_nil front (List.cons_ne_nil _ _)
    rw [List.foldl_cons, hjoin]
    cases names with
    | nil => exact ⟨hfrontne, by rw [List.foldl_nil, steps_append_name hname, hfront], habsolute⟩
    | cons next names =>
      obtain ⟨hpath, hsteps, hall⟩ := ih hfrontne hnames (List.cons_ne_nil _ _)
      refine ⟨hpath, ?_, hall.trans habsolute⟩
      rw [hsteps, written_append, written_name hname, hfront, List.append_assoc,
        List.singleton_append]

theorem foldl_join_inj {directory : Text} {names names' : List Text} (hdirectory : directory ≠ [])
    (hnames : ∀ n ∈ names, IsName n) (hne : names ≠ []) (hnames' : ∀ n ∈ names', IsName n)
    (hne' : names' ≠ []) (h : names.foldl join directory = names'.foldl join directory) :
    names = names' := by
  have hsteps := (steps_foldl_join hdirectory hnames hne).2.1
  rw [h, (steps_foldl_join hdirectory hnames' hne').2.1] at hsteps
  exact (List.append_cancel_left hsteps).symm

end Path

namespace Entry

/-! ### What names lead to -/

/-- The file to which some names lead in a directory. Behind a closed directory it cannot be opened. -/
def fileAt? (folder : Folder) : List Text → Option Content
  | [] => none
  | name :: names =>
    match find? name folder.entries with
    | none => none
    | some (.folder _ inner closed) => fileAt? ⟨inner, folder.closed || closed⟩ names
    | some (.file _ content) =>
      if names = [] then some (if folder.closed then .unreadable .permissionDenied else content)
      else none

/-- The entries of a directory, and of all below it, have proper names, each of its own. -/
inductive Sound : List Entry → Prop
  | intro {entries : List Entry} (named : ∀ e ∈ entries, Path.IsName e.name)
      (distinct : (entries.map name).Nodup)
      (inner : ∀ name below closed, Entry.folder name below closed ∈ entries → Sound below) :
    Sound entries

theorem Sound.named {entries : List Entry} (h : Sound entries) : ∀ e ∈ entries, Path.IsName e.name := by
  cases h with
  | intro named => exact named

theorem Sound.distinct {entries : List Entry} (h : Sound entries) : (entries.map name).Nodup := by
  cases h with
  | intro _ distinct => exact distinct

theorem Sound.inner {entries below : List Entry} {name : Text} {closed : Bool} (h : Sound entries)
    (hmem : .folder name below closed ∈ entries) : Sound below := by
  cases h with
  | intro _ _ inner => exact inner name below closed hmem

theorem sound_nil : Sound [] :=
  .intro (List.forall_mem_nil _) List.nodup_nil fun _ _ _ hmem => absurd hmem List.not_mem_nil

theorem Sound.cons_file {entries : List Entry} (h : Sound entries) {fileName : Text} {content : Content}
    (hname : Path.IsName fileName) (hnew : fileName ∉ entries.map name) :
    Sound (.file fileName content :: entries) := by
  refine .intro (List.forall_mem_cons.mpr ⟨hname, h.named⟩)
    (List.nodup_cons.mpr ⟨hnew, h.distinct⟩) fun folderName below closed hmem => ?_
  rcases List.mem_cons.mp hmem with heq | hmem
  · cases heq
  · exact h.inner hmem

theorem Sound.cons_folder {entries below : List Entry} (h : Sound entries) {folderName : Text}
    {closed : Bool} (hname : Path.IsName folderName) (hnew : folderName ∉ entries.map name)
    (hbelow : Sound below) : Sound (.folder folderName below closed :: entries) := by
  refine .intro (List.forall_mem_cons.mpr ⟨hname, h.named⟩)
    (List.nodup_cons.mpr ⟨hnew, h.distinct⟩) fun otherName other _ hmem => ?_
  rcases List.mem_cons.mp hmem with heq | hmem
  · cases heq
    exact hbelow
  · exact h.inner hmem

theorem mem_of_find? {name : Text} {entries : List Entry} {e : Entry} (h : find? name entries = some e) :
    e ∈ entries ∧ e.name = name := by
  have hname := List.find?_some (p := fun e : Entry => e.name == name) h
  exact ⟨List.mem_of_find?_eq_some h, beq_iff_eq.mp hname⟩

theorem Sound.find?_eq_some_iff {entries : List Entry} (h : Sound entries) {name : Text} {e : Entry} :
    find? name entries = some e ↔ e ∈ entries ∧ e.name = name := by
  refine ⟨mem_of_find?, ?_⟩
  rintro ⟨hmem, rfl⟩
  cases hfind : find? e.name entries with
  | none => exact absurd (beq_self_eq_true e.name) (List.find?_eq_none.mp hfind e hmem)
  | some e' =>
    obtain ⟨hmem', hname⟩ := mem_of_find? hfind
    rw [List.inj_on_of_nodup_map h.distinct hmem' hmem hname]

theorem fileAt?_cons (folder : Folder) (name : Text) (names : List Text) :
    fileAt? folder (name :: names) =
      match find? name folder.entries with
      | none => none
      | some (.folder _ inner closed) => fileAt? ⟨inner, folder.closed || closed⟩ names
      | some (.file _ content) =>
        if names = [] then some (if folder.closed then .unreadable .permissionDenied else content)
        else none := rfl

theorem Sound.isName_of_fileAt? {folder : Folder} (h : Sound folder.entries) {names : List Text}
    {content : Content} (hfile : fileAt? folder names = some content) : ∀ n ∈ names, Path.IsName n := by
  induction names generalizing folder with
  | nil => cases hfile
  | cons name names ih =>
    rw [fileAt?_cons] at hfile
    cases hfind : find? name folder.entries with
    | none =>
      rw [hfind] at hfile
      cases hfile
    | some e =>
      obtain ⟨hmem, rfl⟩ := mem_of_find? hfind
      rw [hfind] at hfile
      refine List.forall_mem_cons.mpr ⟨h.named e hmem, ?_⟩
      cases e with
      | folder folderName below closed => exact @ih ⟨below, folder.closed || closed⟩ (h.inner hmem) hfile
      | file fileName content =>
        by_cases hnil : names = []
        · subst hnil
          exact List.forall_mem_nil _
        · simp only [if_neg hnil, reduceCtorEq] at hfile

theorem eq_unreadable_of_fileAt? {folder : Folder} (hclosed : folder.closed = true) {names : List Text}
    {content : Content} (hfile : fileAt? folder names = some content) :
    content = .unreadable .permissionDenied := by
  induction names generalizing folder with
  | nil => cases hfile
  | cons name names ih =>
    rw [fileAt?_cons, hclosed] at hfile
    split at hfile
    · cases hfile
    · exact ih rfl hfile
    · split at hfile <;> cases hfile
      rfl

/-! ### Steps -/

variable {outer : List Folder} {folder : Folder}

theorem follow_stay (outer : List Folder) (folder : Folder) (steps : List Text) :
    follow outer folder ([] :: steps) = follow outer folder steps := by
  rw [follow.eq_def]
  exact if_pos rfl

theorem follow_of_closed {step : Text} (hstep : step ≠ []) (hclosed : folder.closed = true)
    (outer : List Folder) (steps : List Text) :
    follow outer folder (step :: steps) = .error .permissionDenied := by
  rw [follow.eq_def]
  simp only [if_neg hstep, if_pos hclosed]

theorem follow_here (hopen : folder.closed = false) (outer : List Folder) (steps : List Text) :
    follow outer folder (['.'] :: steps) = follow outer folder steps := by
  rw [follow.eq_def]
  simp [hopen]

theorem follow_up (hopen : folder.closed = false) (outer : List Folder) (steps : List Text) :
    follow outer folder (['.', '.'] :: steps) =
      match outer with
      | [] => follow [] folder steps
      | up :: outer => follow outer up steps := by
  have hfollow := follow.eq_def outer folder (['.', '.'] :: steps)
  simp only [reduceCtorEq, hopen, Bool.false_eq_true, if_false, List.cons.injEq, and_false,
    if_true] at hfollow
  exact hfollow

/-- A step by which a directory is asked for a name. -/
structure IsAsked (step : Text) : Prop where
  ne_nil : step ≠ []
  ne_here : step ≠ ['.']
  ne_up : step ≠ ['.', '.']
  size_le : ¬ Path.maxNameSize < step.byteSize

theorem IsAsked.of_isName {step : Text} (h : Path.IsName step) : IsAsked step :=
  ⟨h.ne_nil, h.ne_here, h.ne_up, Nat.not_lt.mpr h.size_le⟩

theorem follow_name {step : Text} (h : IsAsked step) (hopen : folder.closed = false)
    (outer : List Folder) (steps : List Text) :
    follow outer folder (step :: steps) =
      match find? step folder.entries with
      | none => .error .notFound
      | some (.folder _ inner closed) => follow (folder :: outer) ⟨inner, closed⟩ steps
      | some (.file _ content) => if steps = [] then .ok (.inl content) else .error .notADirectory := by
  have hfollow := follow.eq_def outer folder (step :: steps)
  simp only [if_neg h.ne_nil, hopen, Bool.false_eq_true, if_false, if_neg h.ne_here, if_neg h.ne_up,
    if_neg h.size_le] at hfollow
  exact hfollow

theorem follow_of_fileAt? {names : List Text} (h : ∀ n ∈ names, Path.IsName n) {content : Content}
    (hfile : fileAt? folder names = some content) (outer : List Folder) :
    follow outer folder names = .ok (.inl content) ∨
      follow outer folder names = .error .permissionDenied ∧ content = .unreadable .permissionDenied := by
  induction names generalizing outer folder with
  | nil => cases hfile
  | cons name names ih =>
    obtain ⟨hname, hnames⟩ := List.forall_mem_cons.mp h
    cases hclosed : folder.closed with
    | true =>
      exact .inr ⟨follow_of_closed hname.ne_nil hclosed _ names, eq_unreadable_of_fileAt? hclosed hfile⟩
    | false =>
      rw [follow_name (.of_isName hname) hclosed]
      rw [fileAt?_cons, hclosed] at hfile
      cases hfind : find? name folder.entries with
      | none =>
        rw [hfind] at hfile
        cases hfile
      | some e =>
        rw [hfind] at hfile
        cases e with
        | folder folderName below closed => exact ih hnames hfile _
        | file fileName content' =>
          dsimp only at hfile ⊢
          split at hfile <;> cases hfile
          next hnil => exact .inl (if_pos hnil)

theorem follow_of_fileAt?_append {names rest : List Text} (h : ∀ n ∈ names, Path.IsName n)
    (hrest : rest ≠ []) {content : Content} (hfile : fileAt? folder (names ++ rest) = some content)
    (outer : List Folder) :
    (∃ found, found.closed = false ∧ follow outer folder names = .ok (.inr found)) ∨
      content = .unreadable .permissionDenied := by
  cases hclosed : folder.closed with
  | true => exact .inr (eq_unreadable_of_fileAt? hclosed hfile)
  | false =>
    induction names generalizing outer folder with
    | nil => exact .inl ⟨folder, hclosed, by rw [follow.eq_1]⟩
    | cons name names ih =>
      obtain ⟨hname, hnames⟩ := List.forall_mem_cons.mp h
      rw [follow_name (.of_isName hname) hclosed]
      rw [List.cons_append, fileAt?_cons, hclosed] at hfile
      cases hfind : find? name folder.entries with
      | none =>
        rw [hfind] at hfile
        cases hfile
      | some e =>
        rw [hfind] at hfile
        cases e with
        | folder folderName below closed =>
          dsimp only at hfile ⊢
          rw [Bool.false_or] at hfile
          cases closed with
          | true => exact .inr (eq_unreadable_of_fileAt? rfl hfile)
          | false => exact ih hnames hfile _ rfl
        | file fileName content' =>
          have hne : names ++ rest ≠ [] := List.append_ne_nil_of_right_ne_nil names hrest
          simp only [if_neg hne, reduceCtorEq] at hfile

theorem follow_append {steps : List Text} {found : Folder}
    (h : follow outer folder steps = .ok (.inr found)) :
    ∃ outer', ∀ steps', follow outer folder (steps ++ steps') = follow outer' found steps' := by
  fun_induction follow outer folder steps with
  | case1 outer folder =>
    cases h
    exact ⟨outer, fun _ => rfl⟩
  | case2 outer folder steps ih =>
    obtain ⟨outer', hall⟩ := ih h
    exact ⟨outer', fun steps' => by rw [List.cons_append, follow_stay, hall]⟩
  | case3 => cases h
  | case4 outer folder steps hopen _ ih =>
    obtain ⟨outer', hall⟩ := ih h
    exact ⟨outer', fun steps' => by rw [List.cons_append, follow_here (eq_false_of_ne_true hopen), hall]⟩
  | case5 folder steps hopen _ _ ih =>
    obtain ⟨outer', hall⟩ := ih h
    exact ⟨outer', fun steps' => by rw [List.cons_append, follow_up (eq_false_of_ne_true hopen), hall]⟩
  | case6 folder steps hopen up outer _ _ ih =>
    obtain ⟨outer', hall⟩ := ih h
    refine ⟨outer', fun steps' => ?_⟩
    rw [List.cons_append, follow_up (eq_false_of_ne_true hopen)]
    exact hall steps'
  | case7 => cases h
  | case8 => cases h
  | case9 outer folder step steps hne hopen hhere hup hsize name inner closed hfind ih =>
    obtain ⟨outer', hall⟩ := ih h
    refine ⟨outer', fun steps' => ?_⟩
    rw [List.cons_append, follow_name ⟨hne, hhere, hup, hsize⟩ (eq_false_of_ne_true hopen), hfind]
    exact hall steps'
  | case10 => cases h
  | case11 => cases h

theorem follow_of_append_stay {steps : List Text} {found : Folder}
    (h : follow outer folder (steps ++ [[]]) = .ok (.inr found)) :
    follow outer folder steps = .ok (.inr found) := by
  fun_induction follow outer folder steps with
  | case1 outer folder =>
    rw [List.nil_append, follow_stay, follow.eq_1] at h
    exact h
  | case2 outer folder steps ih =>
    rw [List.cons_append, follow_stay] at h
    exact ih h
  | case3 outer folder step steps hne hclosed =>
    rw [List.cons_append, follow_of_closed hne hclosed] at h
    cases h
  | case4 outer folder steps hopen _ ih =>
    rw [List.cons_append, follow_here (eq_false_of_ne_true hopen)] at h
    exact ih h
  | case5 folder steps hopen _ _ ih =>
    rw [List.cons_append, follow_up (eq_false_of_ne_true hopen)] at h
    exact ih h
  | case6 folder steps hopen up outer _ _ ih =>
    rw [List.cons_append, follow_up (eq_false_of_ne_true hopen)] at h
    exact ih h
  | case7 outer folder step steps hne hopen hhere hup hsize =>
    rw [List.cons_append, follow.eq_def] at h
    simp only [if_neg hne, if_neg hopen, if_neg hhere, if_neg hup, if_pos hsize, reduceCtorEq] at h
  | case8 outer folder step steps hne hopen hhere hup hsize hfind =>
    rw [List.cons_append, follow_name ⟨hne, hhere, hup, hsize⟩ (eq_false_of_ne_true hopen), hfind] at h
    cases h
  | case9 outer folder step steps hne hopen hhere hup hsize name inner closed hfind ih =>
    rw [List.cons_append, follow_name ⟨hne, hhere, hup, hsize⟩ (eq_false_of_ne_true hopen), hfind] at h
    exact ih h
  | case10 outer folder step hne hopen hhere hup hsize name content hfind =>
    rw [List.cons_append, follow_name ⟨hne, hhere, hup, hsize⟩ (eq_false_of_ne_true hopen), hfind] at h
    cases h
  | case11 outer folder step steps hne hopen hhere hup hsize name content hfind hsteps =>
    rw [List.cons_append, follow_name ⟨hne, hhere, hup, hsize⟩ (eq_false_of_ne_true hopen), hfind] at h
    simp only [List.append_eq_nil_iff, hsteps, false_and, if_false, reduceCtorEq] at h

theorem Sound.of_follow (h : Sound folder.entries) (houter : ∀ f ∈ outer, Sound f.entries)
    {steps : List Text} {found : Folder} (hfollow : follow outer folder steps = .ok (.inr found)) :
    Sound found.entries := by
  fun_induction follow outer folder steps with
  | case1 outer folder =>
    cases hfollow
    exact h
  | case2 outer folder steps ih => exact ih h houter hfollow
  | case3 => cases hfollow
  | case4 outer folder steps _ _ ih => exact ih h houter hfollow
  | case5 folder steps _ _ _ ih => exact ih h houter hfollow
  | case6 folder steps _ up outer _ _ ih =>
    obtain ⟨hup, houter⟩ := List.forall_mem_cons.mp houter
    exact ih hup houter hfollow
  | case7 => cases hfollow
  | case8 => cases hfollow
  | case9 outer folder step steps _ _ _ _ _ name inner closed hfind ih =>
    exact ih (h.inner (mem_of_find? hfind).1) (List.forall_mem_cons.mpr ⟨h, houter⟩) hfollow
  | case10 => cases hfollow
  | case11 => cases hfollow

end Entry

/-- The bytes of a file that can be opened. A database that is known by its tables counts as empty. -/
def Content.bytes? : Content → Option ByteArray
  | .bytes data => some data
  | .database _ => some ByteArray.empty
  | .unreadable _ => none

namespace Disk

variable {d : Disk} {directory : Text} {folder : Folder}

def Sound (d : Disk) : Prop := Entry.Sound d.entries

theorem folder?_eq_some_iff {path : Text} :
    d.folder? path = some folder ↔ d.look path = .ok (.inr folder) := by
  rw [folder?]
  split
  · next h => rw [h, Option.some.injEq, Except.ok.injEq, Sum.inr.injEq]
  · next h => exact iff_of_false (fun hnone => by cases hnone) (h folder)

theorem listing?_of_open {path : Text} (h : d.folder? path = some folder)
    (hopen : folder.closed = false) : d.listing? path = some folder.entries := by
  rw [listing?, h]
  exact if_neg (ne_true_of_eq_false hopen)

theorem look_eq_ok {path : Text} {found : Content ⊕ Folder} (h : d.look path = .ok found) :
    path ≠ [] ∧ path.byteSize ≤ Path.maxSize ∧
      Entry.follow [] d.top (d.stepsOf path) = .ok found := by
  rw [look] at h
  split at h
  · cases h
  · next hne =>
    split at h
    · cases h
    · next hsize => exact ⟨hne, Nat.not_lt.mp hsize, h⟩

theorem look_of_size {path : Text} (hne : path ≠ []) (hsize : path.byteSize ≤ Path.maxSize) :
    d.look path = Entry.follow [] d.top (d.stepsOf path) := by
  rw [look, if_neg hne, if_neg (Nat.not_lt.mpr hsize)]

theorem Sound.folder? (h : d.Sound) (hdirectory : d.folder? directory = some folder) :
    Entry.Sound folder.entries :=
  have htop : Entry.Sound d.top.entries := h
  htop.of_follow (List.forall_mem_nil _) (look_eq_ok (folder?_eq_some_iff.mp hdirectory)).2.2

/-- The path that goes on from a directory by some names is followed by these names from there. -/
theorem look_foldl_join (hdirectory : d.folder? directory = some folder) {names : List Text}
    (hnames : ∀ n ∈ names, Path.IsName n) (hne : names ≠ [])
    (hsize : (names.foldl Path.join directory).byteSize ≤ Path.maxSize) :
    ∃ outer, d.look (names.foldl Path.join directory) = Entry.follow outer folder names := by
  obtain ⟨hdne, _, hfollow⟩ := look_eq_ok (folder?_eq_some_iff.mp hdirectory)
  obtain ⟨hpath, hsteps, habsolute⟩ := Path.steps_foldl_join hdne hnames hne
  -- The steps of the directory end where its names do, or with an empty one behind them.
  obtain ⟨front, hfront, hdirectory⟩ : ∃ front,
      d.stepsOf (names.foldl Path.join directory) = front ++ names ∧
        Entry.follow [] d.top front = .ok (.inr folder) := by
    rw [stepsOf] at hfollow ⊢
    rw [habsolute, hsteps]
    cases hroot : Path.isAbsolute directory with
    | true =>
      rw [hroot, if_pos rfl] at hfollow
      refine ⟨Path.written directory, rfl, ?_⟩
      rcases Path.steps_cases directory with hstay | hstay <;> rw [hstay] at hfollow
      · exact hfollow
      · exact Entry.follow_of_append_stay hfollow
    | false =>
      rw [hroot, if_neg Bool.false_ne_true] at hfollow
      refine ⟨d.here ++ Path.written directory, (List.append_assoc ..).symm, ?_⟩
      rcases Path.steps_cases directory with hstay | hstay <;> rw [hstay] at hfollow
      · exact hfollow
      · rw [← List.append_assoc] at hfollow
        exact Entry.follow_of_append_stay hfollow
  obtain ⟨outer, hall⟩ := Entry.follow_append hdirectory
  exact ⟨outer, by rw [look_of_size hpath hsize, hfront, hall]⟩

/-- What is read from a file below a directory is what the file holds, if its path can be asked for. -/
theorem toOption_read_foldl_join (hsound : Entry.Sound folder.entries)
    (hdirectory : d.folder? directory = some folder) {names : List Text} {content : Content}
    (hfile : Entry.fileAt? folder names = some content) :
    (d.read (names.foldl Path.join directory)).toOption =
      if Path.maxSize < (names.foldl Path.join directory).byteSize then none else content.bytes? := by
  have hne : names ≠ [] := by
    rintro rfl
    cases hfile
  have hnames := hsound.isName_of_fileAt? hfile
  split
  · next hsize =>
    have hpath := (Path.steps_foldl_join
      (look_eq_ok (folder?_eq_some_iff.mp hdirectory)).1 hnames hne).1
    rw [read, look, if_neg hpath, if_pos hsize]
    rfl
  · next hsize =>
    obtain ⟨outer, hlook⟩ := look_foldl_join hdirectory hnames hne (Nat.not_lt.mp hsize)
    rw [read, hlook]
    rcases Entry.follow_of_fileAt? hnames hfile outer with hfollow | ⟨hfollow, rfl⟩ <;>
      rw [hfollow]
    · cases content <;> rfl
    · rfl

theorem listing?_foldl_join (hsound : Entry.Sound folder.entries)
    (hdirectory : d.folder? directory = some folder) {names rest : List Text} {content : Content}
    (hfile : Entry.fileAt? folder (names ++ rest) = some content) (hrest : rest ≠ [])
    (hsize : (names.foldl Path.join directory).byteSize ≤ Path.maxSize) :
    (∃ entries, d.listing? (names.foldl Path.join directory) = some entries) ∨
      content = .unreadable .permissionDenied := by
  have hnames : ∀ n ∈ names, Path.IsName n := fun n hn =>
    hsound.isName_of_fileAt? hfile n (List.mem_append_left _ hn)
  have hfound : ∀ outer, d.look (names.foldl Path.join directory) = Entry.follow outer folder names →
      (∃ entries, d.listing? (names.foldl Path.join directory) = some entries) ∨
        content = .unreadable .permissionDenied := fun outer hlook => by
    refine (Entry.follow_of_fileAt?_append hnames hrest hfile outer).imp_left ?_
    rintro ⟨found, hopen, hfollow⟩
    exact ⟨_, listing?_of_open (folder?_eq_some_iff.mpr (hlook.trans hfollow)) hopen⟩
  by_cases hne : names = []
  · subst hne
    refine hfound [] ((folder?_eq_some_iff.mp hdirectory).trans ?_)
    rw [Entry.follow.eq_1]
  · obtain ⟨outer, hlook⟩ := look_foldl_join hdirectory hnames hne hsize
    exact hfound outer hlook

end Disk

end Files

end RecordMap
