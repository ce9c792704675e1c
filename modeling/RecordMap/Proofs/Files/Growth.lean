import RecordMap.Proofs.Files.Tree

/-! A file written where nothing stood. What is seen in the directories afterwards is what was seen before,
or the new file. -/

namespace RecordMap.Files

namespace Entry

/-- A file with some content stands in a directory or below it where nothing stood. An entry for whose
name no directory is asked does not count. -/
inductive Adds (content : Content) : List Entry → List Entry → Prop
  | hidden {entries : List Entry} {e : Entry} (h : ¬ IsAsked e.name) : Adds content entries (put e entries)
  | file {entries : List Entry} {fileName : Text} (h : find? fileName entries = none) :
    Adds content entries (put (.file fileName content) entries)
  | folder {entries inner inner' : List Entry} {folderName : Text} {closed : Bool}
    (h : find? folderName entries = some (.folder folderName inner closed))
    (hinner : Adds content inner inner') :
    Adds content entries (put (.folder folderName inner' closed) entries)

theorem find?_put (name : Text) (e : Entry) (entries : List Entry) :
    find? name (put e entries) = if e.name = name then some e else find? name entries := by
  induction entries with
  | nil =>
    rw [put, find?, List.find?_singleton]
    by_cases h : e.name = name
    · rw [if_pos h, if_pos (beq_iff_eq.mpr h)]
    · rw [if_neg h, if_neg (by rwa [beq_iff_eq])]
      rfl
  | cons first entries ih =>
    rw [put]
    split
    · next hfirst =>
      rw [find?, find?, List.find?_cons, List.find?_cons, hfirst]
      by_cases h : e.name = name
      · rw [if_pos h, beq_iff_eq.mpr h]
      · rw [if_neg h, beq_eq_false_iff_ne.mpr h]
    · next hfirst =>
      rw [find?, List.find?_cons, ← find?, ih, find?, find?, List.find?_cons]
      by_cases h : first.name = name
      · have hne : e.name ≠ name := fun he => hfirst (h.trans he.symm)
        rw [beq_iff_eq.mpr h, if_neg hne, if_neg hne]
      · rw [beq_eq_false_iff_ne.mpr h]

theorem putInside_of_find? {name : Text} {entries inner : List Entry} {closed : Bool}
    (h : find? name entries = some (.folder name inner closed)) (change : List Entry → List Entry) :
    putInside name change entries = put (.folder name (change inner) closed) entries := by
  rw [putInside, folderOf, h]

/-- A file is added where it is written, if the steps lead to nothing and all but the last of them to a
directory. -/
theorem adds_write {content : Content} {outer : List Folder} {folder parent : Folder}
    {steps : List Text} (hsteps : steps ≠ []) (hnothing : follow outer folder steps = .error .notFound)
    (hparent : follow outer folder steps.dropLast = .ok (.inr parent)) :
    Adds content folder.entries (write content steps folder.entries) := by
  induction steps generalizing outer folder with
  | nil => exact absurd rfl hsteps
  | cons step steps ih =>
    by_cases hasked : IsAsked step
    · cases hclosed : folder.closed with
      | true =>
        rw [follow_of_closed hasked.ne_nil hclosed] at hnothing
        cases hnothing
      | false =>
        rw [follow_name hasked hclosed] at hnothing
        cases steps with
        | nil =>
          refine .file ?_
          cases hfind : find? step folder.entries with
          | none => rfl
          | some e =>
            rw [hfind] at hnothing
            cases e <;> cases hnothing
        | cons next steps =>
          rw [List.dropLast_cons_of_ne_nil (List.cons_ne_nil _ _), follow_name hasked hclosed] at hparent
          cases hfind : find? step folder.entries with
          | none =>
            rw [hfind] at hparent
            cases hparent
          | some e =>
            rw [hfind] at hnothing hparent
            cases e with
            | file fileName other =>
              dsimp only at hparent
              split at hparent <;> cases hparent
            | folder folderName inner closed =>
              have hname : folderName = step := (mem_of_find? hfind).2
              subst hname
              rw [write, putInside_of_find? hfind]
              · exact .folder hfind (ih (List.cons_ne_nil _ _) hnothing hparent)
              · exact List.cons_ne_nil _ _
    · cases steps with
      | nil => exact .hidden hasked
      | cons next steps =>
        rw [write]
        · exact .hidden hasked
        · exact List.cons_ne_nil _ _

structure Near (content : Content) (folder folder' : Folder) : Prop where
  closed : folder'.closed = folder.closed
  entries : folder'.entries = folder.entries ∨ Adds content folder.entries folder'.entries

theorem Near.refl (content : Content) (folder : Folder) : Near content folder folder := ⟨rfl, .inl rfl⟩

theorem Adds.find? {content : Content} {entries entries' : List Entry} (h : Adds content entries entries')
    {name : Text} (hasked : IsAsked name) :
    Entry.find? name entries' = Entry.find? name entries ∨
      (Entry.find? name entries = none ∧ Entry.find? name entries' = some (.file name content)) ∨
      ∃ inner inner' closed, Adds content inner inner' ∧
        Entry.find? name entries = some (.folder name inner closed) ∧
        Entry.find? name entries' = some (.folder name inner' closed) := by
  cases h with
  | hidden hhidden =>
    rw [find?_put]
    refine .inl (if_neg ?_)
    rintro rfl
    exact hhidden hasked
  | @file _ fileName hfind =>
    rw [find?_put]
    by_cases he : fileName = name
    · subst he
      exact .inr (.inl ⟨hfind, if_pos rfl⟩)
    · exact .inl (if_neg he)
  | @folder _ inner inner' folderName closed hfind hinner =>
    rw [find?_put]
    by_cases he : folderName = name
    · subst he
      exact .inr (.inr ⟨inner, inner', closed, hinner, hfind, if_pos rfl⟩)
    · exact .inl (if_neg he)

inductive Alike (content : Content) : Except Fault (Content ⊕ Folder) →
    Except Fault (Content ⊕ Folder) → Prop
  | same (found : Except Fault (Content ⊕ Folder)) : Alike content found found
  | directory {folder folder' : Folder} (h : Near content folder folder') :
    Alike content (.ok (.inr folder)) (.ok (.inr folder'))
  | added : Alike content (.error .notFound) (.ok (.inl content))
  | passed : Alike content (.error .notFound) (.error .notADirectory)

theorem alike_follow {content : Content} {outer outer' : List Folder} {folder folder' : Folder}
    (houter : List.Forall₂ (Near content) outer outer') (h : Near content folder folder')
    (steps : List Text) :
    Alike content (follow outer folder steps) (follow outer' folder' steps) := by
  induction steps generalizing outer outer' folder folder' with
  | nil =>
    rw [follow.eq_1, follow.eq_1]
    exact .directory h
  | cons step steps ih =>
    by_cases hnil : step = []
    · subst hnil
      rw [follow_stay, follow_stay]
      exact ih houter h
    cases hclosed : folder.closed with
    | true =>
      rw [follow_of_closed hnil hclosed, follow_of_closed hnil (h.closed.trans hclosed)]
      exact .same _
    | false =>
      have hclosed' := h.closed.trans hclosed
      by_cases hhere : step = ['.']
      · subst hhere
        rw [follow_here hclosed, follow_here hclosed']
        exact ih houter h
      by_cases hup : step = ['.', '.']
      · subst hup
        rw [follow_up hclosed, follow_up hclosed']
        cases houter with
        | nil => exact ih .nil h
        | cons hnear houter => exact ih houter hnear
      by_cases hsize : Path.maxNameSize < step.byteSize
      · rw [follow.eq_def, follow.eq_def]
        simp only [if_neg hnil, hclosed, hclosed', Bool.false_eq_true, if_false, if_neg hhere, if_neg hup,
          if_pos hsize]
        exact .same _
      have hasked : IsAsked step := ⟨hnil, hhere, hup, hsize⟩
      rw [follow_name hasked hclosed, follow_name hasked hclosed']
      -- what is found for the name is the same, or the new file, or a directory that leads to it
      have hfind := h.entries.elim (fun heq => .inl (congrArg (Entry.find? step) heq)) fun hadds =>
        hadds.find? hasked
      rcases hfind with heq | ⟨hnone, hfile⟩ | ⟨inner, inner', closed, hinner, hfolder, hfolder'⟩
      · rw [heq]
        cases Entry.find? step folder.entries with
        | none => exact .same _
        | some e =>
          cases e with
          | folder folderName inner closed => exact ih (.cons h houter) (.refl content _)
          | file fileName other => exact .same _
      · rw [hnone, hfile]
        dsimp only
        split
        · exact .added
        · exact .passed
      · rw [hfolder, hfolder']
        exact ih (.cons h houter) ⟨rfl, .inr hinner⟩

end Entry

namespace Disk

structure Grows (content : Content) (d d' : Disk) : Prop where
  here : d'.here = d.here
  top : Entry.Near content d.top d'.top

variable {content : Content} {d d' : Disk}

theorem Grows.refl (content : Content) (d : Disk) : d.Grows content d := ⟨rfl, .refl content _⟩

theorem Grows.alike_look (h : d.Grows content d') (path : Text) :
    Entry.Alike content (d.look path) (d'.look path) := by
  have hsteps : d'.stepsOf path = d.stepsOf path := by rw [stepsOf, stepsOf, h.here]
  rw [look, look, hsteps]
  split
  · exact .same _
  · split
    · exact .same _
    · exact Entry.alike_follow .nil h.top _

theorem Grows.look_of_isFile (h : d.Grows content d') {path : Text} (hfile : d'.isFile path = true)
    (hnew : d.isFile path = false) : d'.look path = .ok (.inl content) := by
  have halike := h.alike_look path
  rw [isFile] at hfile hnew
  cases hlook : d'.look path with
  | error fault =>
    rw [hlook] at hfile
    cases hfile
  | ok found =>
    cases found with
    | inr entries =>
      rw [hlook] at hfile
      cases hfile
    | inl other =>
      rw [hlook] at halike
      generalize hold : d.look path = old at halike hnew
      cases halike with
      | same => cases hnew
      | added => rfl

end Disk

end RecordMap.Files
