import Mathlib.Algebra.Order.Ring.Nat

/-!
Writing an image to flash devices (`mtd.c`), with erasing and without a jffs2 file.

A device has eraseblocks, of which a NAND device may have some marked bad. The program keeps three
positions: what it has written, what it has erased, and that of the file.
-/

namespace FirewallCore.MtdTool

/-! ### Devices -/

/-- A flash device as the kernel shows it; its size is given in 32 bits. -/
structure Device where
  /-- `mtdtype == MTD_NANDFLASH` -/
  nand : Bool
  erasesize : Nat
  blocks : Nat
  /-- The eraseblocks that are marked bad, where the kernel is asked for that. -/
  bad : Nat → Bool
  data : Nat → UInt8
  positive : 0 < erasesize
  small : blocks * erasesize < 2 ^ 32

def Device.size (d : Device) : Nat := d.blocks * d.erasesize

/-- What is done to a device. -/
inductive Op where
  | erase (start : Nat)
  | write (pos : Nat) (bytes : List UInt8)

/-- Erasing sets all bits of a block, and writing clears bits. -/
def Device.apply (d : Device) : Op → Device
  | .erase start =>
    { d with data := fun i => if start ≤ i ∧ i < start + d.erasesize then 0xff else d.data i }
  | .write pos bytes =>
    { d with data := fun i =>
        if pos ≤ i ∧ i < pos + bytes.length then d.data i &&& bytes.getD (i - pos) 0 else d.data i }

def Device.applyAll (d : Device) (log : List Op) : Device := log.foldl Device.apply d

/-- What `read` gives at a position: less than asked for where the device ends. -/
def Device.read (d : Device) (pos len : Nat) : List UInt8 :=
  (List.range (min len (d.size - pos))).map fun i => d.data (pos + i)

/-! ### Calls -/

/-- What ends the program: `exit(1)`, or an access outside of a buffer. -/
inductive Stop where
  | exit
  | outside
  | fuel
  deriving DecidableEq

/-- `mtd_block_is_bad`. The offset is an `int`, and the kernel knows no block behind the end. -/
def blockIsBad (d : Device) (offset : Nat) : Except Stop Bool :=
  if d.nand then
    if offset % 2 ^ 32 < 2 ^ 31 ∧ offset % 2 ^ 32 < d.size then
      .ok (d.bad (offset % 2 ^ 32 / d.erasesize))
    else .error .exit
  else .ok false

/-- `mtd_erase_block`, if it does not fail. The start is an `unsigned int`. -/
def eraseBlock (d : Device) (offset : Nat) : Option Op :=
  if offset % 2 ^ 32 + d.erasesize ≤ d.size then some (.erase (offset % 2 ^ 32)) else none

/-- `lseek`, which leaves the position if the new one is behind the end. -/
def lseek (d : Device) (old new : Nat) : Nat := if new ≤ d.size then new else old

/-! ### The program -/

/-- The buffer with its first `buflen` bytes, what is left of the image file, and `offset`. -/
structure Input where
  buf : List UInt8
  file : List UInt8
  offset : Nat

/-- The state for a device that is open. -/
structure Progress where
  device : Device
  log : List Op
  /-- The position of the file. -/
  pos : Nat
  w : Nat
  e : Nat
  skipBadBlocks : Nat

/-- The loop that erases the next block; whether no erasure failed. -/
def eraseAhead (partOffset buflen : Nat) : Nat → Progress → Except Stop (Bool × Progress)
  | 0, _ => .error .fuel
  | fuel + 1, s =>
    -- w + buflen > e - skip_bad_blocks, which may be negative
    if s.w + buflen + s.skipBadBlocks > s.e then
      match blockIsBad s.device s.e with
      | .error stop => .error stop
      | .ok true =>
        eraseAhead partOffset buflen fuel
          { s with
            skipBadBlocks := s.skipBadBlocks + s.device.erasesize
            e := s.e + s.device.erasesize
            pos := lseek s.device s.pos (s.pos + s.device.erasesize) }
      | .ok false =>
        match eraseBlock s.device (s.e + partOffset) with
        | none => .ok (false, s)
        | some op =>
          eraseAhead partOffset buflen fuel
            { s with log := s.log ++ [op], e := s.e + s.device.erasesize }
    else .ok (true, s)

/-- The part of a write that fits on the device. -/
def written (d : Device) (pos : Nat) (bytes : List UInt8) : List UInt8 := bytes.take (d.size - pos)

/-- The rounds of `mtd_write` on a device. An input that is returned is for the next device. The buffer
has the size that was allocated. -/
def writeLoop (partOffset allocated : Nat) (last : Bool) :
    Nat → Input → Progress → Except Stop (Option Input × Progress)
  | 0, _, _ => .error .fuel
  | fuel + 1, input, s =>
    let buf := input.buf ++ input.file.take (s.device.erasesize - input.buf.length)
    let file := input.file.drop (s.device.erasesize - input.buf.length)
    if buf = [] then .ok (none, s)
    else if allocated < s.device.erasesize then .error .outside
    else
      let buf := buf ++ List.replicate (s.device.erasesize - buf.length) 0xff
      match eraseAhead partOffset buf.length (s.device.blocks + 2) s with
      | .error stop => .error stop
      | .ok (false, s) =>
        if last then .error .exit
        else if s.w < s.e then
          if input.offset + (s.e - s.w) ≤ allocated then
            .ok (some ⟨buf, file, s.e - s.w⟩,
              { s with log := s.log ++
                  [.write s.pos (written s.device s.pos ((buf.drop input.offset).take (s.e - s.w)))] })
          else .error .outside
        else .ok (some ⟨buf, file, input.offset⟩, s)
      | .ok (true, s) =>
        if allocated < input.offset + buf.length then .error .outside
        else if s.device.size < s.pos + buf.length then .error .exit
        else
          writeLoop partOffset allocated last fuel ⟨[], file, 0⟩
            { s with
              log := s.log ++ [.write s.pos ((buf.drop input.offset).take buf.length)]
              pos := s.pos + buf.length
              w := s.w + buf.length }

/-- The devices one after another, each with what was done to it. -/
def writeDevices (partOffset allocated : Nat) :
    List Device → Input → Nat → Except Stop (List (Device × List Op))
  | [], _, _ => .error .exit
  | d :: next, input, skipBadBlocks =>
    match writeLoop partOffset allocated next.isEmpty (input.file.length + 2) input
      ⟨d, [], lseek d 0 partOffset, 0, 0, skipBadBlocks⟩ with
    | .error stop => .error stop
    | .ok (none, s) => .ok ((d, s.log) :: next.map fun d => (d, []))
    | .ok (some input, s) =>
      (writeDevices partOffset allocated next input s.skipBadBlocks).map ((d, s.log) :: ·)

/-- `mtd_write` with the first bytes of the image in the buffer already, if it returns. `mtd_check`
allocates the buffer for a block of the first device. -/
def mtdWrite (devices : List Device) (partOffset : Nat) (buf file : List UInt8) :
    Except Stop (List (Device × List Op)) :=
  writeDevices partOffset ((devices.map Device.erasesize).headD 0) devices ⟨buf, file, 0⟩ 0

end FirewallCore.MtdTool
