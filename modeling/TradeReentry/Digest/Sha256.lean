import TradeReentry.Text.Basic

/-!
The SHA-256 digest of a text and its lower-case hexadecimal form.

A message is padded to whole blocks of 64 bytes, each block is expanded into a schedule of 64 words,
and 64 rounds per block mix the schedule into a state of eight words. The hexadecimal form always
has 64 digits (`length_hex`).
-/

namespace TradeReentry.Digest.Sha256

/-- The constant of each round: the leading fractional bits of the cube roots of the first primes. -/
def roundConstants : List UInt32 := [
  0x428a2f98, 0x71374491, 0xb5c0fbcf, 0xe9b5dba5, 0x3956c25b, 0x59f111f1, 0x923f82a4, 0xab1c5ed5,
  0xd807aa98, 0x12835b01, 0x243185be, 0x550c7dc3, 0x72be5d74, 0x80deb1fe, 0x9bdc06a7, 0xc19bf174,
  0xe49b69c1, 0xefbe4786, 0x0fc19dc6, 0x240ca1cc, 0x2de92c6f, 0x4a7484aa, 0x5cb0a9dc, 0x76f988da,
  0x983e5152, 0xa831c66d, 0xb00327c8, 0xbf597fc7, 0xc6e00bf3, 0xd5a79147, 0x06ca6351, 0x14292967,
  0x27b70a85, 0x2e1b2138, 0x4d2c6dfc, 0x53380d13, 0x650a7354, 0x766a0abb, 0x81c2c92e, 0x92722c85,
  0xa2bfe8a1, 0xa81a664b, 0xc24b8b70, 0xc76c51a3, 0xd192e819, 0xd6990624, 0xf40e3585, 0x106aa070,
  0x19a4c116, 0x1e376c08, 0x2748774c, 0x34b0bcb5, 0x391c0cb3, 0x4ed8aa4a, 0x5b9cca4f, 0x682e6ff3,
  0x748f82ee, 0x78a5636f, 0x84c87814, 0x8cc70208, 0x90befffa, 0xa4506ceb, 0xbef9a3f7, 0xc67178f2]

/-- The eight working words. -/
structure State where
  a : UInt32
  b : UInt32
  c : UInt32
  d : UInt32
  e : UInt32
  f : UInt32
  g : UInt32
  h : UInt32

namespace State

/-- The leading fractional bits of the square roots of the first eight primes. -/
def initial : State :=
  ⟨0x6a09e667, 0xbb67ae85, 0x3c6ef372, 0xa54ff53a, 0x510e527f, 0x9b05688c, 0x1f83d9ab, 0x5be0cd19⟩

def words (s : State) : List UInt32 := [s.a, s.b, s.c, s.d, s.e, s.f, s.g, s.h]

def add (s t : State) : State :=
  ⟨s.a + t.a, s.b + t.b, s.c + t.c, s.d + t.d, s.e + t.e, s.f + t.f, s.g + t.g, s.h + t.h⟩

end State

def rotateRight (x n : UInt32) : UInt32 := (x >>> n) ||| (x <<< (32 - n))

/-- One round with the sum of its constant and its schedule word. -/
def round (s : State) (kw : UInt32) : State :=
  let mixE := rotateRight s.e 6 ^^^ rotateRight s.e 11 ^^^ rotateRight s.e 25
  let choice := (s.e &&& s.f) ^^^ (~~~s.e &&& s.g)
  let t := s.h + mixE + choice + kw
  let mixA := rotateRight s.a 2 ^^^ rotateRight s.a 13 ^^^ rotateRight s.a 22
  let majority := (s.a &&& s.b) ^^^ (s.a &&& s.c) ^^^ (s.b &&& s.c)
  ⟨t + (mixA + majority), s.a, s.b, s.c, s.d + t, s.e, s.f, s.g⟩

/-- The schedule word that follows, given the earlier ones with the latest first. -/
def nextWord : List UInt32 → UInt32
  | _ :: w2 :: _ :: _ :: _ :: _ :: w7 :: _ :: _ :: _ :: _ :: _ :: _ :: _ :: w15 :: w16 :: _ =>
    let s0 := rotateRight w15 7 ^^^ rotateRight w15 18 ^^^ (w15 >>> 3)
    let s1 := rotateRight w2 17 ^^^ rotateRight w2 19 ^^^ (w2 >>> 10)
    w16 + s0 + w7 + s1
  | _ => 0

/-- Extends a schedule, kept with its latest word first, by a number of words. -/
def extend : Nat → List UInt32 → List UInt32
  | 0, latestFirst => latestFirst
  | n + 1, latestFirst => extend n (nextWord latestFirst :: latestFirst)

/-- The big-endian words of a text, four bytes each. -/
def wordsOf : Text → List UInt32
  | a :: b :: c :: d :: rest =>
    (a.toUInt32 <<< 24 ||| b.toUInt32 <<< 16 ||| c.toUInt32 <<< 8 ||| d.toUInt32) :: wordsOf rest
  | _ => []

/-- Mixes one block of 64 bytes into the state. -/
def compress (s : State) (block : Text) : State :=
  let schedule := (extend 48 (wordsOf block).reverse).reverse
  s.add ((roundConstants.zip schedule).foldl (fun t (k, w) => round t (k + w)) s)

/-- Mixes a number of blocks, one after another, into the state. -/
def compressBlocks : Nat → State → Text → State
  | 0, s, _ => s
  | n + 1, s, t => compressBlocks n (compress s (t.take 64)) (t.drop 64)

/-- The big-endian bytes of a number, to a count of bytes. -/
def bigEndian (count n : Nat) : Text :=
  (List.range count).reverse.map fun i => UInt8.ofNat (n >>> (8 * i))

/-- The message with a one bit, the fewest zeros that complete a block, and its length in bits. -/
def padded (t : Text) : Text :=
  t ++ 0x80 :: List.replicate ((119 - t.length % 64) % 64) 0 ++ bigEndian 8 (8 * t.length)

/-- The 32 bytes of the digest. -/
def digest (t : Text) : Text :=
  let message := padded t
  (compressBlocks (message.length / 64) .initial message).words.flatMap (bigEndian 4 ·.toNat)

/-- The digest as 64 lower-case hexadecimal digits. -/
def hex (t : Text) : Text := Text.toHex (digest t)

theorem length_bigEndian (count n : Nat) : (bigEndian count n).length = count := by
  simp [bigEndian]

theorem length_digest (t : Text) : (digest t).length = 32 := by
  simp [digest, State.words, length_bigEndian]

theorem length_hex (t : Text) : (hex t).length = 64 := by
  simp [hex, Text.toHex, List.length_flatMap, length_digest, List.map_const']

end TradeReentry.Digest.Sha256
