import FirewallCore.Lib.Strings
import Mathlib.Data.UInt

/-!
The cyclic redundancy check with the polynomial of Ethernet, the lowest bit first.
-/

namespace FirewallCore.Lib

/-- One bit. -/
def crc32Bit (crc : UInt32) : UInt32 :=
  if crc &&& 1 = 1 then (crc >>> 1) ^^^ 0xedb88320 else crc >>> 1

/-- The check of bytes from a seed on. -/
def crc32 (seed : UInt32) (data : List UInt8) : UInt32 :=
  data.foldl (fun crc b => crc32Bit (crc32Bit (crc32Bit (crc32Bit (crc32Bit (crc32Bit (crc32Bit
    (crc32Bit (crc ^^^ b.toUInt32))))))))) seed

/-- The frame check sequence of Ethernet: seed and result are inverted. -/
def ethernetCrc32 (data : List UInt8) : UInt32 := ~~~crc32 0xffffffff data

example : ethernetCrc32 (utf8 "123456789") = 0xcbf43926 := by decide +kernel

end FirewallCore.Lib

/-!
The SHA-256 hash of a byte string.

The schedule is kept with its newest word first.
-/

namespace FirewallCore.Lib

namespace Sha256

/-- The words of the state between rounds. -/
structure State where
  a : UInt32
  b : UInt32
  c : UInt32
  d : UInt32
  e : UInt32
  f : UInt32
  g : UInt32
  h : UInt32

def initial : State :=
  ⟨0x6a09e667, 0xbb67ae85, 0x3c6ef372, 0xa54ff53a, 0x510e527f, 0x9b05688c, 0x1f83d9ab, 0x5be0cd19⟩

def roundConstants : List UInt32 :=
  [0x428a2f98, 0x71374491, 0xb5c0fbcf, 0xe9b5dba5, 0x3956c25b, 0x59f111f1, 0x923f82a4, 0xab1c5ed5,
    0xd807aa98, 0x12835b01, 0x243185be, 0x550c7dc3, 0x72be5d74, 0x80deb1fe, 0x9bdc06a7, 0xc19bf174,
    0xe49b69c1, 0xefbe4786, 0x0fc19dc6, 0x240ca1cc, 0x2de92c6f, 0x4a7484aa, 0x5cb0a9dc, 0x76f988da,
    0x983e5152, 0xa831c66d, 0xb00327c8, 0xbf597fc7, 0xc6e00bf3, 0xd5a79147, 0x06ca6351, 0x14292967,
    0x27b70a85, 0x2e1b2138, 0x4d2c6dfc, 0x53380d13, 0x650a7354, 0x766a0abb, 0x81c2c92e, 0x92722c85,
    0xa2bfe8a1, 0xa81a664b, 0xc24b8b70, 0xc76c51a3, 0xd192e819, 0xd6990624, 0xf40e3585, 0x106aa070,
    0x19a4c116, 0x1e376c08, 0x2748774c, 0x34b0bcb5, 0x391c0cb3, 0x4ed8aa4a, 0x5b9cca4f, 0x682e6ff3,
    0x748f82ee, 0x78a5636f, 0x84c87814, 0x8cc70208, 0x90befffa, 0xa4506ceb, 0xbef9a3f7, 0xc67178f2]

def rotateRight (x n : UInt32) : UInt32 := (x >>> n) ||| (x <<< (32 - n))

/-- One round, with the constant and the word of the schedule added up. -/
def round (s : State) (word : UInt32) : State :=
  let sum := rotateRight s.e 6 ^^^ rotateRight s.e 11 ^^^ rotateRight s.e 25
  let choice := (s.e &&& s.f) ^^^ (~~~s.e &&& s.g)
  let first := s.h + sum + choice + word
  let sum := rotateRight s.a 2 ^^^ rotateRight s.a 13 ^^^ rotateRight s.a 22
  let majority := (s.a &&& s.b) ^^^ (s.a &&& s.c) ^^^ (s.b &&& s.c)
  ⟨first + (sum + majority), s.a, s.b, s.c, s.d + first, s.e, s.f, s.g⟩

/-- The next word of the schedule. -/
def nextWord (schedule : List UInt32) : UInt32 :=
  let word (ago : Nat) : UInt32 := schedule.getD (ago - 1) 0
  let s0 := rotateRight (word 15) 7 ^^^ rotateRight (word 15) 18 ^^^ (word 15 >>> 3)
  let s1 := rotateRight (word 2) 17 ^^^ rotateRight (word 2) 19 ^^^ (word 2 >>> 10)
  word 16 + s0 + word 7 + s1

/-- Prolongs a schedule by some words. -/
def extend : Nat → List UInt32 → List UInt32
  | 0, schedule => schedule
  | n + 1, schedule => extend n (nextWord schedule :: schedule)

/-- A word from its bytes, highest first. -/
def ofBytes (bytes : List UInt8) : UInt32 := bytes.foldl (fun word b => word <<< 8 ||| b.toUInt32) 0

/-- The bytes of a word, highest first. -/
def toBytes (word : UInt32) : List UInt8 :=
  [(word >>> 24).toUInt8, (word >>> 16).toUInt8, (word >>> 8).toUInt8, word.toUInt8]

/-- The first `n` words of a byte string. -/
def words : Nat → List UInt8 → List UInt32
  | 0, _ => []
  | n + 1, bytes => ofBytes (bytes.take 4) :: words n (bytes.drop 4)

/-- A block of 64 bytes is worked in. -/
def compress (s : State) (block : List UInt8) : State :=
  let schedule := (extend 48 (words 16 block).reverse).reverse
  let out := (List.zipWith (· + ·) roundConstants schedule).foldl round s
  ⟨s.a + out.a, s.b + out.b, s.c + out.c, s.d + out.d, s.e + out.e, s.f + out.f, s.g + out.g,
    s.h + out.h⟩

/-- The first `n` blocks. -/
def blocks : Nat → List UInt8 → State → State
  | 0, _, s => s
  | n + 1, bytes, s => blocks n (bytes.drop 64) (compress s (bytes.take 64))

/-- The message with a one bit, zeros and its length in bits behind it, up to whole blocks. -/
def pad (message : List UInt8) : List UInt8 :=
  let zeros : List UInt8 := List.replicate ((119 - message.length % 64) % 64) 0
  let length : List UInt8 :=
    (List.range 8).reverse.map fun i => UInt8.ofNat ((8 * message.length) >>> (8 * i))
  message ++ 0x80 :: zeros ++ length

def digest (s : State) : List UInt8 := [s.a, s.b, s.c, s.d, s.e, s.f, s.g, s.h].flatMap toBytes

end Sha256

/-- The SHA-256 hash. -/
def sha256 (message : List UInt8) : List UInt8 :=
  let padded := Sha256.pad message
  Sha256.digest (Sha256.blocks (padded.length / 64) padded Sha256.initial)

theorem length_sha256 (message : List UInt8) : (sha256 message).length = 32 := rfl

example : (sha256 [0x61, 0x62, 0x63]).take 4 = [0xba, 0x78, 0x16, 0xbf] := by decide +kernel

end FirewallCore.Lib
