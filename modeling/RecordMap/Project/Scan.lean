import RecordMap.Files.Discovery
import RecordMap.Model.Entry
import RecordMap.Schema.Memo

/-! The scan of a project: its models and their edges, with columns of its schema. -/

namespace RecordMap.Project

open Syntax

abbrev Reader := Text → Tree

def extensions : List Text := [".rb".toList]

def readSource (reader : Reader) (schema : Option Schema) (path content : Text) :
    List Model.Entry × List Notice :=
  let tree := reader content
  (Model.Entry.ofTree path schema tree, if tree.hasError then [.incompleteSource path] else [])

/-- The entries of a file. One that is empty or cannot be read has none. -/
def readFile (reader : Reader) (schema : Option Schema) (w : World) (path : Text) :
    List Model.Entry × List Notice :=
  let content := w.readText path .utf8
  match given? content.value with
  | none => ([], content.notices)
  | some content => readSource reader schema path content

def mentionsModel (f : Files.SourceFile) : Bool :=
  (Pattern.verbatim "model").occursIn (Text.lower (['/'].intercalate f.below))

/-- The files that hold models: those of the directory for models, or if there is none all that
mention models in their path. -/
def modelFiles (w : World) (project : Text) : Except Interruption (List Text) :=
  match w.settings.modelsDirectory with
  | none => .error .noModelsDirectory
  | some name =>
    let directory := Files.Path.join project name
    match w.disk.folder? directory with
    | some _ => .ok ((w.disk.sourceFiles directory extensions []).map (·.path))
    | none =>
      (w.disk.findFiles project extensions []).map fun files =>
        (files.filter mentionsModel).map (·.path)

/-- The schema that a memo holds or reads. A source that cannot be used counts as none. -/
def readSchema (m : Schema.Memo) (w : World) :
    Outcome (Schema.Memo × Except Interruption (Option Schema)) :=
  (m.readSchema w none).andThen fun w (m, schema) =>
    match schema with
    | .ok schema => ⟨w, (m, .ok schema), []⟩
    | .error (.cause e) => ⟨w, (m, .ok none), [.schemaUnavailable e]⟩
    | .error (.interrupted i) => ⟨w, (m, .error i), []⟩

/-- The checksum of the schema. Without a schema none is read. -/
def readChecksum (m : Schema.Memo) (w : World) (schema : Option Schema) :
    Outcome (Schema.Memo × Except (Failure LoadError) (Option Text)) :=
  match schema with
  | none => ⟨w, (m, .ok none), []⟩
  | some _ => m.readChecksum w

def reportOn (reader : Reader) (schema : Option Schema) (checksum : Option Text) (w : World)
    (paths : List Text) : Outcome (Model.Report Model.Entry Text) :=
  let read := paths.map (readFile reader schema w)
  ⟨w, Model.Report.ofEntries (read.flatMap (·.1)) checksum, read.flatMap (·.2)⟩

def scanWith (reader : Reader) (schema : Option Schema) (checksum : Option Text) (w : World)
    (project : Text) : Attempt (Model.Report Model.Entry Text) :=
  match modelFiles w project with
  | .error i => .interrupt w i
  | .ok paths => (reportOn reader schema checksum w paths).map .ok

/-- Scans a project with the schema of a memo, or of a new one at the project if none is given. -/
def scan (reader : Reader) (memo : Option Schema.Memo) (w : World) (project : Text) :
    Outcome (Schema.Memo × Except (Failure LoadError) (Model.Report Model.Entry Text)) :=
  (readSchema (memo.getD { root := some project }) w).andThen fun w (m, schema) =>
    match schema with
    | .error i => ⟨w, (m, .error (.interrupted i)), []⟩
    | .ok schema =>
      (readChecksum m w schema).andThen fun w (m, checksum) =>
        match checksum with
        | .error e => ⟨w, (m, .error e), []⟩
        | .ok checksum => Outcome.map (m, ·) (scanWith reader schema checksum w project)

end RecordMap.Project
