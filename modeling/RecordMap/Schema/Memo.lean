import RecordMap.Digest.Sha1
import RecordMap.Schema.Database
import RecordMap.Schema.File

/-! A schema and the checksum of its file, each kept from its first successful reading until a
reset. -/

namespace RecordMap.Schema

inductive Slot (α : Type) where
  | empty
  | filled (value : α)
deriving DecidableEq, Repr

namespace Slot

variable {α : Type}

/-- What a slot holds behind a reading. Only what was read is kept. -/
def keep : Except (Failure LoadError) α → Slot α × Except (Failure LoadError) α
  | .ok value => (.filled value, .ok value)
  | .error failure => (.empty, .error failure)

/-- What a slot answers: what it holds, or if it is empty what is read for it. -/
def answer (slot : Slot α) (read : World → Attempt α) (w : World) :
    Outcome (Slot α × Except (Failure LoadError) α) :=
  match slot with
  | .filled value => ⟨w, (.filled value, .ok value), []⟩
  | .empty => Outcome.map keep (read w)

end Slot

/-- The sources of a schema, and what was read from them. Without a schema there is still something
to keep: that there is none. -/
structure Memo where
  schemaPath : Option Text := none
  root : Option Text := none
  databaseUrl : Option Text := none
  checksum : Slot (Option Text) := .empty
  schema : Slot (Option Schema) := .empty

namespace Memo

def path (m : Memo) (w : World) : Attempt (Option Text) := pathOr w m.schemaPath m.root

def digestOf (w : World) (path : Text) : Attempt Text :=
  if Files.Path.hasNull path then .interrupt w .nullInPath
  else match w.disk.read path with
  | .ok data => ⟨w, .ok (Digest.sha1 data), []⟩
  | .error fault =>
    ⟨w, .error (.cause (.unreadable path)), [.unreadableSchema path fault]⟩

def currentChecksum (m : Memo) (w : World) : Attempt (Option Text) :=
  (m.path w).andThen fun w found =>
    match found with
    | none => ⟨w, .ok none, []⟩
    | some p => (digestOf w p).map some

/-- The schema as it is now: that of the file, or of the database if there is no file. -/
def currentSchema (m : Memo) (w : World) (target : Option Text) : Attempt (Option Schema) :=
  (m.path w).andThen fun w found =>
    match found with
    | some p => (ofFile w p target).map some
    | none =>
      match (given? m.databaseUrl).orElse fun _ => given? w.settings.databaseUrl with
      | some url => (ofDatabase w url target).map some
      | none => ⟨w, .ok none, []⟩

def readChecksum (m : Memo) (w : World) :
    Outcome (Memo × Except (Failure LoadError) (Option Text)) :=
  Outcome.map (fun (checksum, result) => ({ m with checksum }, result))
    (m.checksum.answer m.currentChecksum w)

def readSchema (m : Memo) (w : World) (target : Option Text) :
    Outcome (Memo × Except (Failure LoadError) (Option Schema)) :=
  Outcome.map (fun (schema, result) => ({ m with schema }, result))
    (m.schema.answer (fun w => m.currentSchema w (w.settings.versionFor target)) w)

def reset (m : Memo) : Memo := { m with checksum := .empty, schema := .empty }

end Memo

end RecordMap.Schema
