import SnapshotArchive.Hex

/-!
# `SnapshotArchive.Digest.Sha256` — the SHA-256 digest

## Contents
- `Sha256.pad`: the message, a one bit, zeros, and the bit length, in multiples of 64 bytes.
- `Sha256.schedule`, `Sha256.compress`: the 64 words and the 64 rounds of one block.
- `Sha256.digest`, `Sha256.hexDigest`.
-/

namespace SnapshotArchive.Sha256

/-- The eight chaining words. -/
structure State where
  a : UInt32
  b : UInt32
  c : UInt32
  d : UInt32
  e : UInt32
  f : UInt32
  g : UInt32
  h : UInt32

/-- The initial chaining words: fractional bits of the square roots of the first eight primes. -/
def State.initial : State :=
  { a := 0x6a09e667, b := 0xbb67ae85, c := 0x3c6ef372, d := 0xa54ff53a
    e := 0x510e527f, f := 0x9b05688c, g := 0x1f83d9ab, h := 0x5be0cd19 }

/-- The chaining words in order. -/
def State.words (s : State) : List UInt32 := [s.a, s.b, s.c, s.d, s.e, s.f, s.g, s.h]

/-- Word by word sum. -/
def State.add (s t : State) : State :=
  { a := s.a + t.a, b := s.b + t.b, c := s.c + t.c, d := s.d + t.d
    e := s.e + t.e, f := s.f + t.f, g := s.g + t.g, h := s.h + t.h }

/-- The round constants: fractional bits of the cube roots of the first 64 primes. -/
def roundConstants : List UInt32 := [
  0x428a2f98, 0x71374491, 0xb5c0fbcf, 0xe9b5dba5, 0x3956c25b, 0x59f111f1, 0x923f82a4, 0xab1c5ed5,
  0xd807aa98, 0x12835b01, 0x243185be, 0x550c7dc3, 0x72be5d74, 0x80deb1fe, 0x9bdc06a7, 0xc19bf174,
  0xe49b69c1, 0xefbe4786, 0x0fc19dc6, 0x240ca1cc, 0x2de92c6f, 0x4a7484aa, 0x5cb0a9dc, 0x76f988da,
  0x983e5152, 0xa831c66d, 0xb00327c8, 0xbf597fc7, 0xc6e00bf3, 0xd5a79147, 0x06ca6351, 0x14292967,
  0x27b70a85, 0x2e1b2138, 0x4d2c6dfc, 0x53380d13, 0x650a7354, 0x766a0abb, 0x81c2c92e, 0x92722c85,
  0xa2bfe8a1, 0xa81a664b, 0xc24b8b70, 0xc76c51a3, 0xd192e819, 0xd6990624, 0xf40e3585, 0x106aa070,
  0x19a4c116, 0x1e376c08, 0x2748774c, 0x34b0bcb5, 0x391c0cb3, 0x4ed8aa4a, 0x5b9cca4f, 0x682e6ff3,
  0x748f82ee, 0x78a5636f, 0x84c87814, 0x8cc70208, 0x90befffa, 0xa4506ceb, 0xbef9a3f7, 0xc67178f2]

/-- Rotation to the right. -/
def rotate (word amount : UInt32) : UInt32 := word >>> amount ||| word <<< (32 - amount)

/-- A number as big-endian bytes. -/
def bigEndian (width n : Nat) : Bytes := (littleEndian width n).reverse

/-- Four bytes as a big-endian word. -/
def word (bytes : Bytes) : UInt32 := UInt32.ofNat (ofLittleEndian bytes.reverse)

/-- The padded message. -/
def pad (message : Bytes) : Bytes :=
  let zeros := (119 - message.length % 64) % 64
  message ++ 0x80 :: (List.replicate zeros 0 ++ bigEndian 8 (8 * message.length))

/-- The next schedule word, from the latest sixteen with the newest first. -/
def nextWord (latest : List UInt32) : UInt32 :=
  let w2 := latest.getD 1 0
  let w7 := latest.getD 6 0
  let w15 := latest.getD 14 0
  let w16 := latest.getD 15 0
  let s0 := rotate w15 7 ^^^ rotate w15 18 ^^^ w15 >>> 3
  let s1 := rotate w2 17 ^^^ rotate w2 19 ^^^ w2 >>> 10
  w16 + s0 + w7 + s1

/-- Extend a schedule, newest word first, by `count` words. -/
def extend : Nat → List UInt32 → List UInt32
  | 0, latest => latest
  | count + 1, latest => extend count (nextWord latest :: latest)

/-- The words of a byte string, four bytes each. -/
def wordsOf : Nat → Bytes → List UInt32
  | 0, _ => []
  | count + 1, bytes => word (bytes.take 4) :: wordsOf count (bytes.drop 4)

/-- The 64 schedule words of a block. -/
def schedule (block : Bytes) : List UInt32 := (extend 48 (wordsOf 16 block).reverse).reverse

/-- One round with its constant and its schedule word. -/
def round (s : State) (constant scheduled : UInt32) : State :=
  let s1 := rotate s.e 6 ^^^ rotate s.e 11 ^^^ rotate s.e 25
  let choice := (s.e &&& s.f) ^^^ (~~~s.e &&& s.g)
  let t1 := s.h + s1 + choice + constant + scheduled
  let s0 := rotate s.a 2 ^^^ rotate s.a 13 ^^^ rotate s.a 22
  let majority := (s.a &&& s.b) ^^^ (s.a &&& s.c) ^^^ (s.b &&& s.c)
  { a := t1 + (s0 + majority), b := s.a, c := s.b, d := s.c
    e := s.d + t1, f := s.e, g := s.f, h := s.g }

/-- Take in one block of 64 bytes. -/
def compress (s : State) (block : Bytes) : State :=
  s.add ((roundConstants.zip (schedule block)).foldl (fun s pair => round s pair.1 pair.2) s)

/-- Take in `count` blocks. -/
def absorb : Nat → State → Bytes → State
  | 0, s, _ => s
  | count + 1, s, bytes => absorb count (compress s (bytes.take 64)) (bytes.drop 64)

/-- The digest of a message: 32 bytes. -/
def digest (message : Bytes) : Bytes :=
  let padded := pad message
  (absorb (padded.length / 64) .initial padded).words.flatMap fun w => bigEndian 4 w.toNat

/-- The digest in hexadecimal notation. -/
def hexDigest (message : Bytes) : String := hexText (digest message)

end SnapshotArchive.Sha256
