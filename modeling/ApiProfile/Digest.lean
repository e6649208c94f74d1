/-!
# SHA-256 digests

The digest of a document, written as 64 lower-case hexadecimal digits. Padding, message schedule
and compression follow the standard: the state is eight words of 32 bits, and each block of 64
bytes adds its own mix of the state to the state.
-/

namespace ApiProfile

/-- The digest of a document as hexadecimal text. A digest that was read from elsewhere may hold any
text; `Digest.ofBytes` makes those that are 64 digits long. -/
structure Digest where
  hex : String
  deriving DecidableEq, Repr, Inhabited

namespace Digest

/-- The eight working words of the compression. -/
structure Words where
  (a b c d e f g h : UInt32)
  deriving DecidableEq, Repr, Inhabited

/-- The fractional parts of the square roots of the first eight primes. -/
def initial : Words :=
  ⟨0x6a09e667, 0xbb67ae85, 0x3c6ef372, 0xa54ff53a, 0x510e527f, 0x9b05688c, 0x1f83d9ab, 0x5be0cd19⟩

/-- The fractional parts of the cube roots of the first 64 primes, one for each round. -/
def roundConstants : List UInt32 := [
  0x428a2f98, 0x71374491, 0xb5c0fbcf, 0xe9b5dba5, 0x3956c25b, 0x59f111f1, 0x923f82a4, 0xab1c5ed5,
  0xd807aa98, 0x12835b01, 0x243185be, 0x550c7dc3, 0x72be5d74, 0x80deb1fe, 0x9bdc06a7, 0xc19bf174,
  0xe49b69c1, 0xefbe4786, 0x0fc19dc6, 0x240ca1cc, 0x2de92c6f, 0x4a7484aa, 0x5cb0a9dc, 0x76f988da,
  0x983e5152, 0xa831c66d, 0xb00327c8, 0xbf597fc7, 0xc6e00bf3, 0xd5a79147, 0x06ca6351, 0x14292967,
  0x27b70a85, 0x2e1b2138, 0x4d2c6dfc, 0x53380d13, 0x650a7354, 0x766a0abb, 0x81c2c92e, 0x92722c85,
  0xa2bfe8a1, 0xa81a664b, 0xc24b8b70, 0xc76c51a3, 0xd192e819, 0xd6990624, 0xf40e3585, 0x106aa070,
  0x19a4c116, 0x1e376c08, 0x2748774c, 0x34b0bcb5, 0x391c0cb3, 0x4ed8aa4a, 0x5b9cca4f, 0x682e6ff3,
  0x748f82ee, 0x78a5636f, 0x84c87814, 0x8cc70208, 0x90befffa, 0xa4506ceb, 0xbef9a3f7, 0xc67178f2]

/-- Turns a word to the right by `n` bits, for `n` between 1 and 31. -/
def rotateRight (x : UInt32) (n : UInt32) : UInt32 :=
  (x >>> n) ||| (x <<< (32 - n))

/-- One round: `k` is its constant and `w` its word of the schedule. -/
def Words.round (s : Words) (k w : UInt32) : Words :=
  let mixE := rotateRight s.e 6 ^^^ rotateRight s.e 11 ^^^ rotateRight s.e 25
  let choice := (s.e &&& s.f) ^^^ ((~~~ s.e) &&& s.g)
  let t1 := s.h + mixE + choice + k + w
  let mixA := rotateRight s.a 2 ^^^ rotateRight s.a 13 ^^^ rotateRight s.a 22
  let majority := (s.a &&& s.b) ^^^ (s.a &&& s.c) ^^^ (s.b &&& s.c)
  ⟨t1 + (mixA + majority), s.a, s.b, s.c, s.d + t1, s.e, s.f, s.g⟩

def Words.add (s t : Words) : Words :=
  ⟨s.a + t.a, s.b + t.b, s.c + t.c, s.d + t.d, s.e + t.e, s.f + t.f, s.g + t.g, s.h + t.h⟩

def Words.toList (s : Words) : List UInt32 :=
  [s.a, s.b, s.c, s.d, s.e, s.f, s.g, s.h]

/-- Reads words of four bytes, the highest byte first. -/
def wordsOfBytes : List UInt8 → List UInt32
  | a :: b :: c :: d :: rest =>
    ((a.toUInt32 <<< 24) ||| (b.toUInt32 <<< 16) ||| (c.toUInt32 <<< 8) ||| d.toUInt32)
      :: wordsOfBytes rest
  | _ => []

/-- The word that follows 16 words of the schedule. -/
def nextWord (w : Vector UInt32 16) : UInt32 :=
  let low := rotateRight w[1] 7 ^^^ rotateRight w[1] 18 ^^^ (w[1] >>> 3)
  let high := rotateRight w[14] 17 ^^^ rotateRight w[14] 19 ^^^ (w[14] >>> 10)
  w[0] + low + w[9] + high

/-- Runs the rounds for the given constants; `w` holds the next 16 words of the schedule, of which
number `i` (counted around) comes first. -/
def rounds : List UInt32 → Vector UInt32 16 → Words → Words
  | [], _, s => s
  | k :: ks, w, s =>
    rounds ks (Vector.ofFn fun i : Fin 16 => if h : i.val + 1 < 16 then w[i.val + 1] else nextWord w)
      (s.round k w[0])

/-- Mixes one block of 64 bytes into the state. -/
def absorb (s : Words) (block : List UInt8) : Words :=
  let words := (wordsOfBytes block).toArray
  s.add (rounds roundConstants (Vector.ofFn fun i : Fin 16 => words.getD i.val 0) s)

/-- Mixes `count` blocks into the state, from the bytes that `next` gives for each block. -/
def absorbAll (block : Nat → List UInt8) : (done count : Nat) → Words → Words
  | _, 0, s => s
  | done, count + 1, s => absorbAll block (done + 1) count (absorb s (block done))

/-- Byte number `i` of the padded message: the message, a one bit, zeros, and the length in bits as
the last eight of `total` bytes. -/
def paddedByte (message : ByteArray) (total i : Nat) : UInt8 :=
  if h : i < message.size then message[i]
  else if i = message.size then 0x80
  else if i < total - 8 then 0
  else UInt8.ofNat ((8 * message.size) >>> (8 * (total - 1 - i)))

def blockCount (message : ByteArray) : Nat :=
  (message.size + 8) / 64 + 1

def hash (message : ByteArray) : Words :=
  let blocks := blockCount message
  absorbAll (fun n => (List.range 64).map fun i => paddedByte message (64 * blocks) (64 * n + i))
    0 blocks initial

def hexDigits (w : UInt32) : List Char :=
  [28, 24, 20, 16, 12, 8, 4, 0].map fun shift => ((w.toNat >>> shift) % 16).digitChar

def ofBytes (message : ByteArray) : Digest :=
  ⟨String.ofList ((hash message).toList.flatMap hexDigits)⟩

/-- The digest of a text, which is that of its UTF-8 bytes. -/
def ofText (text : String) : Digest :=
  ofBytes text.toUTF8

def verifies (digest : Digest) (text : String) : Bool :=
  ofText text = digest

end Digest
end ApiProfile
