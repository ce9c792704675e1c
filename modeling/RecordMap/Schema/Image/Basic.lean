import RecordMap.Text.Basic

/-! The bytes of a database file: its header, and the pages into which it is divided. -/

namespace RecordMap.Schema

namespace Image

inductive Fault where
  | notADatabase
  | malformed
  | unknownFormat
  | badEntry (name : Text)
  | badRoot (name : Text)
deriving DecidableEq, Repr

namespace Fault

def entryMessage (name : Text) : Text :=
  "(sqlite3.DatabaseError) malformed database schema (".toList ++ name ++ ")".toList

def message : Fault → Text
  | notADatabase => "(sqlite3.DatabaseError) file is not a database".toList
  | malformed => "(sqlite3.DatabaseError) database disk image is malformed".toList
  | unknownFormat => "(sqlite3.OperationalError) unsupported file format".toList
  | badEntry name => entryMessage name
  | badRoot name => entryMessage name ++ " - invalid rootpage".toList

end Fault

/-- The byte at a place. Behind the end all bytes are zero. -/
def byteAt (bytes : ByteArray) (place : Nat) : Nat := (bytes[place]?.getD 0).toNat

def bytesAt (bytes : ByteArray) (place count : Nat) : List UInt8 :=
  (List.range count).map fun i => bytes[place + i]?.getD 0

def numberAt (bytes : ByteArray) (place count : Nat) : Nat :=
  (bytesAt bytes place count).foldl (fun n b => 256 * n + b.toNat) 0

/-- Reads a number of which each byte holds seven bits, and says whether another one follows. The
byte behind the last of these holds eight bits. -/
def shortNumberFrom (bytes : ByteArray) (place n : Nat) : Nat → Nat × Nat
  | 0 => (256 * n + byteAt bytes place, place + 1)
  | more + 1 =>
    let b := byteAt bytes place
    if b < 128 then (128 * n + b, place + 1)
    else shortNumberFrom bytes (place + 1) (128 * n + (b - 128)) more

/-- A number of at most nine bytes, and the place behind it. -/
def shortNumberAt (bytes : ByteArray) (place : Nat) : Nat × Nat := shortNumberFrom bytes place 0 8

end Image

/-- A database file, divided into pages of one size. The last bytes of a page can be unused. -/
structure Image where
  bytes : ByteArray
  pageSize : Nat
  usableSize : Nat
  pageCount : Nat

namespace Image

def signature : List UInt8 := ("SQLite format 3".toList ++ ['\x00']).flatMap String.utf8EncodeChar

def pageSizes : List Nat := [512, 1024, 2048, 4096, 8192, 16384, 32768, 65536]

/-- The shares of a page that rows can take. There are no others in use. -/
def pageShares : List UInt8 := [64, 32, 32]

def minUsableSize : Nat := 480

def maxReadVersion : Nat := 2

def maxFormat : Nat := 4

/-- The largest page size does not fit its two bytes, of which it then sets the last bit. -/
def pageSizeOf (bytes : ByteArray) : Nat := 256 * byteAt bytes 16 + 65536 * byteAt bytes 17

/-- The number of pages in the header holds only for the version of the file that wrote it. -/
def storedPageCount? (bytes : ByteArray) : Option Nat :=
  let count := numberAt bytes 28 4
  if count = 0 ∨ numberAt bytes 24 4 ≠ numberAt bytes 92 4 then none else some count

def ofBytes (bytes : ByteArray) : Except Fault Image :=
  let pageSize := pageSizeOf bytes
  let usableSize := pageSize - byteAt bytes 20
  let filePages := (bytes.size + pageSize - 1) / pageSize
  let pageCount := (storedPageCount? bytes).getD filePages
  if bytesAt bytes 0 16 ≠ signature then .error .notADatabase
  else if maxReadVersion < byteAt bytes 19 then .error .notADatabase
  else if bytesAt bytes 21 3 ≠ pageShares then .error .notADatabase
  else if !pageSizes.contains pageSize then .error .notADatabase
  else if filePages < pageCount then .error .malformed
  else if usableSize < minUsableSize then .error .notADatabase
  else if maxFormat < byteAt bytes 47 then .error .unknownFormat
  else .ok { bytes, pageSize, usableSize, pageCount }

end Image

end RecordMap.Schema
