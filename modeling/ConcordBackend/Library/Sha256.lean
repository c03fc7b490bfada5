import Mathlib.Data.List.Defs

/-!
# SHA-256 and its MAC

The hash works on big-endian words of 32 bits: a padded message is cut into blocks of sixteen
words, each block is stretched to sixty-four words, and every word drives one round on a state
of eight. `Sha256.hmac` is the keyed hash over it.
-/

namespace Sha256

/-- The constants of the rounds: the beginnings of the fractional parts of the cube roots of the
first sixty-four primes. -/
def roundConstants : List UInt32 :=
  [0x428a2f98, 0x71374491, 0xb5c0fbcf, 0xe9b5dba5, 0x3956c25b, 0x59f111f1, 0x923f82a4, 0xab1c5ed5,
    0xd807aa98, 0x12835b01, 0x243185be, 0x550c7dc3, 0x72be5d74, 0x80deb1fe, 0x9bdc06a7, 0xc19bf174,
    0xe49b69c1, 0xefbe4786, 0x0fc19dc6, 0x240ca1cc, 0x2de92c6f, 0x4a7484aa, 0x5cb0a9dc, 0x76f988da,
    0x983e5152, 0xa831c66d, 0xb00327c8, 0xbf597fc7, 0xc6e00bf3, 0xd5a79147, 0x06ca6351, 0x14292967,
    0x27b70a85, 0x2e1b2138, 0x4d2c6dfc, 0x53380d13, 0x650a7354, 0x766a0abb, 0x81c2c92e, 0x92722c85,
    0xa2bfe8a1, 0xa81a664b, 0xc24b8b70, 0xc76c51a3, 0xd192e819, 0xd6990624, 0xf40e3585, 0x106aa070,
    0x19a4c116, 0x1e376c08, 0x2748774c, 0x34b0bcb5, 0x391c0cb3, 0x4ed8aa4a, 0x5b9cca4f, 0x682e6ff3,
    0x748f82ee, 0x78a5636f, 0x84c87814, 0x8cc70208, 0x90befffa, 0xa4506ceb, 0xbef9a3f7, 0xc67178f2]

/-- The eight working variables. -/
structure State where
  a : UInt32
  b : UInt32
  c : UInt32
  d : UInt32
  e : UInt32
  f : UInt32
  g : UInt32
  h : UInt32

/-- The state before the first block: the beginnings of the fractional parts of the square roots
of the first eight primes. -/
def State.initial : State :=
  ⟨0x6a09e667, 0xbb67ae85, 0x3c6ef372, 0xa54ff53a, 0x510e527f, 0x9b05688c,
    0x1f83d9ab, 0x5be0cd19⟩

/-- A word rotated to the right. -/
def rotr (x n : UInt32) : UInt32 := (x >>> n) ||| (x <<< (32 - n))

/-- The next word of a schedule, from the last sixteen, the last one first. -/
def nextWord (ws : List UInt32) : UInt32 :=
  let s0 := ws.getD 14 0
  let s1 := ws.getD 1 0
  ws.getD 15 0 + (rotr s0 7 ^^^ rotr s0 18 ^^^ (s0 >>> 3)) + ws.getD 6 0 +
    (rotr s1 17 ^^^ rotr s1 19 ^^^ (s1 >>> 10))

/-- A schedule with `n` more words, the last one first. -/
def stretch (ws : List UInt32) : ℕ → List UInt32
  | 0 => ws
  | n + 1 => stretch (nextWord ws :: ws) n

/-- One round, for its constant and its word. -/
def State.round (s : State) (kw : UInt32 × UInt32) : State :=
  let t1 := s.h + (rotr s.e 6 ^^^ rotr s.e 11 ^^^ rotr s.e 25) +
    ((s.e &&& s.f) ^^^ (~~~s.e &&& s.g)) + kw.1 + kw.2
  let t2 := (rotr s.a 2 ^^^ rotr s.a 13 ^^^ rotr s.a 22) +
    ((s.a &&& s.b) ^^^ (s.a &&& s.c) ^^^ (s.b &&& s.c))
  ⟨t1 + t2, s.a, s.b, s.c, s.d + t1, s.e, s.f, s.g⟩

/-- The rounds of one block, added to the state before it. -/
def State.compress (s : State) (block : List UInt32) : State :=
  let t := (roundConstants.zip (stretch block.reverse 48).reverse).foldl State.round s
  ⟨s.a + t.a, s.b + t.b, s.c + t.c, s.d + t.d, s.e + t.e, s.f + t.f, s.g + t.g, s.h + t.h⟩

/-- The words of whole groups of four bytes. -/
def words : List UInt8 → List UInt32
  | a :: b :: c :: d :: bytes =>
    ((a.toUInt32 <<< 24) ||| (b.toUInt32 <<< 16) ||| (c.toUInt32 <<< 8) ||| d.toUInt32) ::
      words bytes
  | _ => []

/-- The bytes of a word. -/
def bytesOf (x : UInt32) : List UInt8 :=
  [(x >>> 24).toUInt8, (x >>> 16).toUInt8, (x >>> 8).toUInt8, x.toUInt8]

/-- A message with a one bit, zeros up to the last eight bytes of a block, and its length in
bits. -/
def pad (message : List UInt8) : List UInt8 :=
  let bits := (8 * message.length).toUInt64
  let marked : List UInt8 := 0x80 :: .replicate ((119 - message.length % 64) % 64) 0
  message ++ marked ++ bytesOf (bits >>> 32).toUInt32 ++ bytesOf bits.toUInt32

/-- The SHA-256 digest of a message. -/
def hash (message : List UInt8) : List UInt8 :=
  let s := ((words (pad message)).toChunks 16).foldl State.compress .initial
  [s.a, s.b, s.c, s.d, s.e, s.f, s.g, s.h].flatMap bytesOf

/-- The digest of `abc`. -/
example : hash [0x61, 0x62, 0x63] =
    [0xba, 0x78, 0x16, 0xbf, 0x8f, 0x01, 0xcf, 0xea, 0x41, 0x41, 0x40, 0xde, 0x5d, 0xae, 0x22, 0x23,
      0xb0, 0x03, 0x61, 0xa3, 0x96, 0x17, 0x7a, 0x9c, 0xb4, 0x10, 0xff, 0x61, 0xf2, 0x00, 0x15,
      0xad] := by decide +kernel

/-- The key of a MAC, as one block. -/
def blockKey (key : List UInt8) : List UInt8 :=
  let key := if key.length ≤ 64 then key else hash key
  key ++ List.replicate (64 - key.length) 0

/-- HMAC-SHA-256. -/
def hmac (key message : List UInt8) : List UInt8 :=
  let key := blockKey key
  hash (key.map (· ^^^ 0x5c) ++ hash (key.map (· ^^^ 0x36) ++ message))

end Sha256
