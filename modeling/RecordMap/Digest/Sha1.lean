import RecordMap.Text.Quoted

/-! The SHA-1 digest of a sequence of bytes. -/

namespace RecordMap.Digest

structure Words where
  a : UInt32
  b : UInt32
  c : UInt32
  d : UInt32
  e : UInt32
deriving DecidableEq, Repr

namespace Words

def start : Words := ⟨0x67452301, 0xEFCDAB89, 0x98BADCFE, 0x10325476, 0xC3D2E1F0⟩

def add (s t : Words) : Words := ⟨s.a + t.a, s.b + t.b, s.c + t.c, s.d + t.d, s.e + t.e⟩

end Words

def rotateLeft (w : UInt32) (n : UInt32) : UInt32 := (w <<< n) ||| (w >>> (32 - n))

def mix (round : Nat) (s : Words) : UInt32 × UInt32 :=
  if round < 20 then ((s.b &&& s.c) ||| ((~~~ s.b) &&& s.d), 0x5A827999)
  else if round < 40 then (s.b ^^^ s.c ^^^ s.d, 0x6ED9EBA1)
  else if round < 60 then ((s.b &&& s.c) ||| (s.b &&& s.d) ||| (s.c &&& s.d), 0x8F1BBCDC)
  else (s.b ^^^ s.c ^^^ s.d, 0xCA62C1D6)

def step (s : Words) (round : Nat) (word : UInt32) : Words :=
  let (f, k) := mix round s
  ⟨rotateLeft s.a 5 + f + s.e + k + word, s.a, rotateLeft s.b 30, s.c, s.d⟩

/-- The next word of the schedule from the last sixteen, newest first. -/
def nextWord (recent : List UInt32) : UInt32 :=
  rotateLeft (recent.getD 2 0 ^^^ recent.getD 7 0 ^^^ recent.getD 13 0 ^^^ recent.getD 15 0) 1

/-- Runs rounds with words that the sixteen newest words make. -/
def extendedRounds : Nat → Nat → List UInt32 → Words → Words
  | 0, _, _, s => s
  | n + 1, round, recent, s =>
    let word := nextWord recent
    extendedRounds n (round + 1) (word :: recent.take 15) (step s round word)

def firstRounds (words : List UInt32) (s : Words) : Words :=
  (words.zipIdx).foldl (fun s (word, round) => step s round word) s

def block (s : Words) (words : List UInt32) : Words :=
  s.add (extendedRounds 64 16 words.reverse (firstRounds words s))

def wordsOf : List UInt8 → List UInt32
  | a :: b :: c :: d :: rest =>
    ((a.toUInt32 <<< 24) ||| (b.toUInt32 <<< 16) ||| (c.toUInt32 <<< 8) ||| d.toUInt32) ::
      wordsOf rest
  | _ => []

def lengthBytes (bits : Nat) : List UInt8 :=
  (List.range 8).reverse.map fun i => ((bits >>> (8 * i)) % 256).toUInt8

/-- A one bit, zeros up to a whole number of blocks, and the length in bits. -/
def padding (size : Nat) : List UInt8 :=
  128 :: List.replicate ((119 - size % 64) % 64) 0 ++ lengthBytes (8 * size)

def blocks : Nat → List UInt32 → Words → Words
  | 0, _, s => s
  | _, [], s => s
  | n + 1, words, s => blocks n (words.drop 16) (block s (words.take 16))

def sha1Words (data : List UInt8) : Words :=
  let words := wordsOf (data ++ padding data.length)
  blocks words.length words .start

def sha1 (data : ByteArray) : Text :=
  let s := sha1Words data.toList
  [s.a, s.b, s.c, s.d, s.e].flatMap fun w => Text.hexDigits 8 w.toNat

end RecordMap.Digest
