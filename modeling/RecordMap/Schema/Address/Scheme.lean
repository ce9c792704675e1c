import RecordMap.Interruption
import RecordMap.Schema.Address.Basic

/-! Schemes of addresses: a kind of databases, with or without `+` and the name of a driver. -/

namespace RecordMap.Schema.Scheme

structure Names where
  drivers : List Text := []
  /-- Drivers that are known and not there. -/
  missing : List Text := []
  /-- Types, statements and whatever else is no driver. -/
  others : List Text := []

/-- What a scheme that names no driver is opened with. -/
def usualDriver : Text := "base".toList

def words (lines : List String) : List Text :=
  lines.flatMap fun line => Text.splitAt ' ' line.toList

def commonNames : List Text := words
  ["__all__ __annotations__ __builtins__ __cached__ __class__ __delattr__ __dict__ __dir__",
    "__doc__ __eq__ __file__ __format__ __ge__ __getattribute__ __getstate__ __gt__ __hash__",
    "__init__ __init_subclass__ __le__ __loader__ __lt__ __name__ __ne__ __new__ __package__",
    "__path__ __reduce__ __reduce_ex__ __repr__ __setattr__ __sizeof__ __spec__ __str__",
    "__subclasshook__ dialect"]

def sqlite : Names where
  drivers := words ["base pysqlite"]
  missing := words ["aiosqlite pysqlcipher"]
  others := commonNames ++ words
    ["dml json Insert insert BLOB BOOLEAN CHAR DATE DATETIME DECIMAL FLOAT INTEGER JSON NUMERIC",
      "REAL SMALLINT TEXT TIME TIMESTAMP VARCHAR"]

def mysql : Names where
  missing := words
    ["base aiomysql asyncmy cymysql mariadbconnector mysqlconnector mysqldb pymysql pyodbc"]
  others := commonNames ++ words
    ["_mariadb_shim dml enumerated expression json mariadb reflection reserved_words types",
      "Insert insert limit match BIGINT BINARY BIT BLOB BOOLEAN CHAR DATE DATETIME DECIMAL DOUBLE",
      "ENUM FLOAT INET4 INET6 INTEGER JSON LONGBLOB LONGTEXT MEDIUMBLOB MEDIUMINT MEDIUMTEXT",
      "NCHAR NUMERIC NVARCHAR REAL SET SMALLINT TEXT TIME TIMESTAMP TINYBLOB TINYINT TINYTEXT",
      "VARBINARY VARCHAR YEAR"]

def mariadb : Names where
  missing := "__init__".toList :: mysql.missing
  others := words
    ["_mariadb_shim dml enumerated expression json mariadb provision reflection reserved_words",
      "types"]

def postgresql : Names where
  missing := words ["base asyncpg pg8000 psycopg psycopg2 psycopg2cffi psycopg_async"]
  others := commonNames ++ words
    ["_psycopg_common array arraylib bitstring dml ext hstore json named_types operators",
      "pg_catalog ranges types ModuleType BitString All Any ARRAY BIGINT BIT BOOLEAN BYTEA CHAR",
      "CIDR CITEXT DATE DOMAIN DOUBLE_PRECISION ENUM FLOAT HSTORE INET INTEGER INTERVAL JSON",
      "JSONB JSONPATH MACADDR MACADDR8 MONEY NUMERIC OID REAL REGCLASS REGCONFIG SMALLINT TEXT",
      "TIME TIMESTAMP TSQUERY TSVECTOR UUID VARCHAR Insert insert aggregate_order_by array_agg",
      "distinct_on ExcludeConstraint phraseto_tsquery plainto_tsquery to_tsquery to_tsvector",
      "ts_headline websearch_to_tsquery NamedType CreateDomainType CreateEnumType DropDomainType",
      "DropEnumType Range MultiRange AbstractRange AbstractSingleRange AbstractMultiRange",
      "DATERANGE DATEMULTIRANGE INT4RANGE INT4MULTIRANGE INT8RANGE INT8MULTIRANGE NUMRANGE",
      "NUMMULTIRANGE TSRANGE TSMULTIRANGE TSTZRANGE TSTZMULTIRANGE"]

def oracle : Names where
  missing := words ["base cx_oracle oracledb oracledb_async"]
  others := commonNames ++ words
    ["dictionary json types vector ModuleType BFILE BINARY_DOUBLE BINARY_FLOAT BLOB BOOLEAN CHAR",
      "CLOB DATE DOUBLE_PRECISION FLOAT INTERVAL JSON LONG NCHAR NCLOB NUMBER NVARCHAR NVARCHAR2",
      "RAW REAL ROWID TIMESTAMP VARCHAR VARCHAR2 VECTOR SparseVector VectorDistanceType",
      "VectorIndexConfig VectorIndexType VectorStorageFormat VectorStorageType"]

def mssql : Names where
  missing := words ["base aioodbc mssqlpython pymssql pyodbc"]
  others := commonNames ++ words
    ["information_schema json try_cast BIGINT BINARY BIT CHAR DATE DATETIME DATETIME2",
      "DATETIMEOFFSET DECIMAL DOUBLE_PRECISION FLOAT IMAGE INTEGER JSON MONEY NCHAR NTEXT NUMERIC",
      "NVARCHAR REAL ROWVERSION SMALLDATETIME SMALLINT SMALLMONEY SQL_VARIANT TEXT TIME TIMESTAMP",
      "TINYINT UNIQUEIDENTIFIER VARBINARY VARCHAR XML"]

def kinds : List (Text × Names) :=
  [("sqlite", sqlite), ("mysql", mysql), ("mariadb", mariadb), ("postgresql", postgresql),
    ("oracle", oracle), ("mssql", mssql)].map fun (kind, names) => (kind.toList, names)

inductive Meaning where
  | driver
  | missingDriver
  | other
  | unknown
deriving DecidableEq, Repr

def Names.meaning (names : Names) (name : Text) : Meaning :=
  if names.drivers.contains name then .driver
  else if names.missing.contains name then .missingDriver
  else if names.others.contains name then .other
  else .unknown

def meaning (kind driver : Text) : Meaning :=
  (kinds.lookup kind).elim .unknown (·.meaning driver)

/-- A scheme with more than one `+` is refused, and so is one of which nothing is known. That a name
is known for its kind does not make it a driver that is there. -/
def check (scheme : Text) : Except (Failure AddressFault) Unit :=
  let withDriver := fun (kind driver : Text) =>
    match meaning kind driver with
    | .driver => .ok ()
    | .missingDriver => .error (.interrupted (.missingDriver scheme))
    | .other => .error (.interrupted (.notADriver scheme))
    | .unknown => .error (.cause (.unknownScheme scheme))
  match scheme.splitAt '+' with
  | [kind] => withDriver kind usualDriver
  | [kind, driver] => withDriver kind driver
  | _ => .error (.cause .tooManyDrivers)

end RecordMap.Schema.Scheme
