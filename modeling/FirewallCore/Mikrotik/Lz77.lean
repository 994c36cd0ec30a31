import FirewallCore.Lib.Bits
import FirewallCore.Mikrotik.Routerboot

/-!
The decompressor for WLAN calibration data of MikroTik (`drivers/platform/mikrotik/rb_lz77.c`).

The input is read bit by bit, and the output is what has been written from the start of its
buffer on. A read outside of the input, a write outside of the output buffer and a copy from
outside of it end a computation.

Sizes are natural numbers: the number of bits of a buffer fits a `size_t`. The record for the
opcode is allocated.
-/

namespace FirewallCore.Mikrotik.Lz77

open FirewallCore.Lib

/-- `enum rb_lz77_instruction`, without the error that is never returned. -/
inductive Instruction where
  | literalByte
  | previousOffset
  | long
  deriving DecidableEq, Repr

/-- `struct rb_lz77_instr_opcodes`. -/
structure Opcode where
  instruction : Instruction
  offset : Nat
  length : Nat
  bitsUsed : Nat
  deriving DecidableEq, Repr

/-- `MIKRO_LZ77_MAX_COUNT_BIT_LEN`. -/
def maxCountBitLen : Nat := 27

section Decoding

variable (input : List UInt8)

/-- `rb_lz77_get_bit`. -/
def getBit (pos : Nat) : Checked Errno Bool :=
  match input[pos / 8]? with
  | none => .error .outside
  | some b => .ok (b.toNat.testBit (pos % 8))

/-- The loop of `rb_lz77_get_byte`, for the bits that are left. -/
def getByteFrom : Nat → Nat → Nat → Checked Errno Nat
  | 0, _, buf => .ok buf
  | n + 1, pos, buf => do
    let bit ← getBit input pos
    getByteFrom n (pos + 1) (buf + bit.toNat * 2 ^ n)

/-- `rb_lz77_get_byte`. -/
def getByte (pos : Nat) : Checked Errno UInt8 := do
  let buf ← getByteFrom input 8 pos 0
  return UInt8.ofNat buf

/-- The loop of `rb_lz77_decode_count`, for the bits that are left up to `max_pos`: the count and
the position behind it. -/
def decodeCountFrom : Nat → Nat → Nat → Nat → Bool → Checked Errno (Nat × Nat)
  | 0, _, _, _, _ => .error (.error .efbig)
  | left + 1, pos, shift, count, up => do
    let bit ← getBit input pos
    let count := if bit then count + 2 ^ shift else count
    let up := up && bit
    if up then decodeCountFrom left (pos + 1) (shift + 1) count up
    else if shift = 0 then return (count, pos + 1)
    else decodeCountFrom left (pos + 1) (shift - 1) count up

/-- `rb_lz77_decode_count`: the count and the bits used. -/
def decodeCount (pos shift count maxBits : Nat) : Checked Errno (Nat × Nat) := do
  let maxPos := min (pos + maxBits) (8 * input.length)
  let (count, stop) ← decodeCountFrom input (maxPos - pos) pos shift count true
  return (count, stop - pos)

/-- `rb_lz77_decode_instruction`: the instruction and the bits used. -/
def decodeInstruction (pos : Nat) : Checked Errno (Instruction × Nat) := do
  if ← getBit input pos then
    if ← getBit input (pos + 1) then return (.long, 2) else return (.previousOffset, 2)
  else return (.literalByte, 1)

/-- `rb_lz77_decode_instruction_operators`. -/
def decodeInstructionOperators (pos previousOffset : Nat) : Checked Errno Opcode := do
  let (instruction, bitsUsed) ← decodeInstruction input pos
  match instruction with
  | .literalByte => return ⟨instruction, 0, 1, bitsUsed⟩
  | .previousOffset =>
    let (length, bitCount) ← decodeCount input (pos + bitsUsed) 0 1 maxCountBitLen
    return ⟨instruction, previousOffset, length, bitsUsed + bitCount⟩
  | .long =>
    let (offset, bitCount) ← decodeCount input (pos + bitsUsed) 4 0 maxCountBitLen
    let bitsUsed := bitsUsed + bitCount
    if offset = 0 then
      let (length, bitCount) ← decodeCount input (pos + bitsUsed) 4 12 maxCountBitLen
      return ⟨instruction, offset, length, bitsUsed + bitCount⟩
    else
      let (length, bitCount) ← decodeCount input (pos + bitsUsed) 0 2 maxCountBitLen
      return ⟨instruction, offset, length, bitsUsed + bitCount⟩

/-! ### Writing -/

/-- A `memcpy` to the end of the output, from `offset` bytes before it. -/
def copyBack (outLen : Nat) (out : List UInt8) (offset n : Nat) : Checked Errno (List UInt8) :=
  if offset ≤ out.length ∧ out.length + n ≤ outLen then
    .ok (out ++ (out.drop (out.length - offset)).take n)
  else .error .outside

/-- The copying of a match group. -/
def copyMatch (outLen offset length : Nat) (out : List UInt8) : Checked Errno (List UInt8) :=
  if 0 < offset ∧ offset < length then
    match copyBack outLen out offset offset with
    | .error fault => .error fault
    | .ok out => copyMatch outLen offset (length - offset) out
  else copyBack outLen out offset length
termination_by length

/-- The loop over the bytes of a group without a match. -/
def copyLiterals (outLen : Nat) : Nat → Nat → List UInt8 → Checked Errno (List UInt8)
  | 0, _, out => .ok out
  | n + 1, pos, out => do
    let byte ← getByte input pos
    if out.length < outLen then copyLiterals outLen n (pos + 8) (out ++ [byte])
    else .error .outside

/-- The loop of `rb_lz77_decompress`, nothing if it takes more rounds. -/
def decompressFrom (outLen : Nat) : Nat → Nat → Nat → List UInt8 →
    Option (Checked Errno (List UInt8))
  | 0, _, _, _ => none
  | rounds + 1, inputBit, matchOffset, out =>
    if outLen < out.length then some (.error (.error .eoverflow))
    else if 8 * input.length < inputBit then some (.error (.error .enodata))
    else
      match decodeInstructionOperators input inputBit matchOffset with
      | .error fault => some (.error fault)
      | .ok opcode =>
        let inputBit := inputBit + opcode.bitsUsed
        if opcode.instruction ≠ .previousOffset ∧ opcode.offset = 0 then
          if opcode.length = 12 ∧ input.length < inputBit + opcode.length * 8 then some (.ok out)
          else
            match copyLiterals input outLen opcode.length inputBit out with
            | .error fault => some (.error fault)
            | .ok out =>
              decompressFrom outLen rounds (inputBit + 8 * opcode.length) matchOffset out
        else
          let matchOffset := if opcode.instruction = .long then opcode.offset else matchOffset
          if opcode.offset = 0 then some (.error (.error .ebadmsg))
          else if outLen < out.length + opcode.length then some (.error (.error .enobufs))
          else if out.length < opcode.offset then some (.error (.error .espipe))
          else
            match copyMatch outLen opcode.offset opcode.length out with
            | .error fault => some (.error fault)
            | .ok out => decompressFrom outLen rounds inputBit matchOffset out

/-- `rb_lz77_decompress`: the decompressed data, where it returns 0. -/
def rbLz77Decompress (rounds outLen : Nat) : Option (Checked Errno (List UInt8)) :=
  decompressFrom input outLen rounds 0 0 []

end Decoding

end FirewallCore.Mikrotik.Lz77
