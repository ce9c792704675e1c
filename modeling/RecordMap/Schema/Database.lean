import RecordMap.Notice
import RecordMap.Schema.Address.Reader
import RecordMap.Schema.ColumnType
import RecordMap.Schema.Image.Catalog
import RecordMap.Schema.Request

/-! Schemas of databases that lie in a file or in memory. -/

namespace RecordMap.Schema

/-- Tables that a migration tool keeps for itself. -/
def hiddenTables : List Text := ["schema_migrations".toList, "ar_internal_metadata".toList]

/-- What the names of tables begin with that a database keeps for itself. -/
def reservedStart : Text := "sqlite_".toList

def isReserved (name : Text) : Bool :=
  (name.take reservedStart.length).map Char.toLower == reservedStart

/-- The tables of a database as a schema has them: in the order of their names, with their types in
lower case. -/
def inspected (tables : List Table) : List Table :=
  let shown := tables.filter fun t => !hiddenTables.contains t.name && !isReserved t.name
  (shown.mergeSort fun s t => s.name.precedes t.name).map fun t =>
    ⟨t.name, t.columns.map fun c => { c with type := (ColumnType.shown c.type).lower }⟩

/-- The most bytes that the whole path of a database file can have. -/
def maxFilePathSize : Nat := 504

/-- The tables in a file. One of less than two bytes is an empty database. -/
def contentTables : Files.Content → Except DatabaseFault (List Table)
  | .database tables => .ok tables
  | .bytes data => if data.size ≤ 1 then .ok [] else (Image.tables data).mapError .badImage
  | .unreadable _ => .error .cannotOpen

/-- The names that lead to a path, where each `..` drops the name before it. All that comes before
has to be found or absent: what is no directory is not passed. -/
def stepsTo? (d : Files.Disk) (taken : List Text) : List Text → Option (List Text)
  | [] => some taken.reverse
  | part :: parts =>
    let taken := Files.Path.takePart taken part
    match Files.Entry.follow [] d.top taken.reverse with
    | .ok _ | .error .notFound => stepsTo? d taken parts
    | .error _ => none

def fileSteps? (d : Files.Disk) (path : Text) : Option (List Text) :=
  (stepsTo? d [] (Files.Path.fromTop d.here path)).filter fun steps =>
    !steps.isEmpty && (Files.Path.ofParts ['/'] steps).byteSize ≤ maxFilePathSize

/-- The tables of a database file. An absent file is created empty if it may be. -/
def openFile (d : Files.Disk) (path : Text) (mayCreate : Bool) (permissionsOf : Option Text) :
    Files.Disk × Except DatabaseFault (List Table) :=
  match fileSteps? d path with
  | none => (d, .error .cannotOpen)
  | some steps =>
    if permissionsOf.any fun path => (d.look path).toOption.isNone then (d, .error .cannotRead)
    else match Files.Entry.follow [] d.top steps with
      | .ok (.inl content) => (d, contentTables content)
      | .error .notFound =>
        match mayCreate, Files.Entry.follow [] d.top steps.dropLast with
        | true, .ok (.inr _) =>
          ({ d with entries := Files.Entry.write (.bytes ByteArray.empty) steps d.entries }, .ok [])
        | _, _ => (d, .error .cannotOpen)
      | _ => (d, .error .cannotOpen)

def Connection.tables (d : Files.Disk) :
    Connection → Files.Disk × Except DatabaseFault (List Table)
  | .memory => (d, .ok [])
  | .file path mayCreate permissionsOf => openFile d path mayCreate permissionsOf

def requestAt (url : Text) : Except (Failure AddressFault) Request := do
  let address ← (Address.read url).mapError .cause
  Request.ofAddress address

/-- The tables of a database, in the world that is left when they are read. -/
def inspect (w : World) (r : Request) : World × Except (Failure DatabaseFault) (List Table) :=
  match r.connection w.disk.here with
  | .error failure => (w, .error failure)
  | .ok connection =>
    let (disk, tables) := connection.tables w.disk
    ({ w with disk }, tables.mapError .cause)

def ofDatabase (w : World) (url : Text) (target : Option Text) : Attempt Schema :=
  match requestAt url with
  | .error failure => ⟨w, .error (failure.map (.badAddress url)), []⟩
  | .ok request =>
    match inspect w request with
    | (w, .ok tables) => ⟨w, .ok ⟨inspected tables, some url, w.settings.versionFor target⟩, []⟩
    | (w, .error (.cause fault)) =>
      ⟨w, .error (.cause (.inspection url fault)), [.inspectionFailed request.address fault]⟩
    | (w, .error (.interrupted i)) => .interrupt w i

end RecordMap.Schema
