import RecordMap.Text.Basic

/-! Reading bytes as text. -/

namespace RecordMap.Text

def decodeLatin1 (bytes : ByteArray) : Text := bytes.toList.map fun b => Char.ofNat b.toNat

def decodeUtf8? (bytes : ByteArray) : Option Text := bytes.utf8Decode?.map Array.toList

def decodeAscii? (bytes : ByteArray) : Option Text :=
  if bytes.toList.all (· < 128) then some (decodeLatin1 bytes) else none

inductive Encoding where
  | utf8
  | ascii
  | latin1
deriving DecidableEq, Repr

def Encoding.decode? : Encoding → ByteArray → Option Text
  | .utf8 => decodeUtf8?
  | .ascii => decodeAscii?
  | .latin1 => fun bytes => some (decodeLatin1 bytes)

/-- Bytes that are not in the given encoding are all read as Latin-1. -/
def decode (encoding : Encoding) (bytes : ByteArray) : Text :=
  unifyNewlines ((encoding.decode? bytes).getD (decodeLatin1 bytes))

theorem decodeUtf8?_utf8Encode (t : Text) : decodeUtf8? t.utf8Encode = some t := by
  simp [decodeUtf8?, List.utf8Decode?_utf8Encode]

end RecordMap.Text
