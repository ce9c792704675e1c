import RecordMap.Text.Case
import RecordMap.Text.Quoted

/-! Settings of a scan, and the level from which records are logged. -/

namespace RecordMap

def given? : Option Text → Option Text
  | some (c :: cs) => some (c :: cs)
  | _ => none

structure Settings where
  schemaPath : Option Text := none
  databaseUrl : Option Text := none
  rubyVersion : Option Text := some "2.7".toList
  /-- The directory for models. Without one there is nothing to scan. -/
  modelsDirectory : Option Text := some "app/models".toList
  logLevel : Option Text := some "WARNING".toList
deriving DecidableEq, Repr, Inhabited

namespace Settings

/-- The settings that a list of environment variables makes. An empty directory for models counts
as none. -/
def ofEnvironment (environment : List (Text × Text)) : Settings where
  schemaPath := environment.lookup "SCHEMA_PATH".toList
  databaseUrl := environment.lookup "DATABASE_URL".toList
  rubyVersion := some ((environment.lookup "TARGET_RUBY_VERSION".toList).getD "2.7".toList)
  modelsDirectory :=
    some ((given? (environment.lookup "MODELS_DIR".toList)).getD "app/models".toList)
  logLevel := some ((environment.lookup "LOG_LEVEL".toList).getD "WARNING".toList)

def versionFor (s : Settings) (target : Option Text) : Option Text :=
  (given? target).orElse fun _ => s.rubyVersion

end Settings

structure Logger where
  level : Nat := 0
  handlers : Nat := 0
deriving DecidableEq, Repr

namespace Logger

def levels : List (Text × Nat) :=
  [("CRITICAL", 50), ("FATAL", 50), ("ERROR", 40), ("WARNING", 30), ("WARN", 30), ("INFO", 20),
    ("DEBUG", 10), ("NOTSET", 0)].map fun (name, level) => (name.toList, level)

inductive LevelError where
  /-- No level is given and the settings have none. -/
  | missing
  | unknown (name : Text)
deriving DecidableEq, Repr

def LevelError.message : LevelError → Text
  | missing => "No level".toList
  | unknown name => "Unknown level: ".toList ++ name.quoted

/-- Sets the level by its name in any case, or the level of the settings if no name is given, and
attaches a handler if there is none. An unknown level leaves the logger as it is. -/
def configure (settings : Settings) (name : Option Text) (l : Logger) : Except LevelError Logger :=
  match (given? name).orElse fun _ => settings.logLevel with
  | none => .error .missing
  | some name =>
    match levels.lookup name.upper with
    | some level => .ok ⟨level, max l.handlers 1⟩
    | none => .error (.unknown name.upper)

end Logger

end RecordMap
