import FirewallCore.Lib.Checked
import Mathlib.Data.Nat.Basic

/-!
A flash partition as the splitters of `mtdsplit` see it, and the search for a
root filesystem of `mtdsplit.c`.

Offsets are of type `size_t`, which has 32 or 64 bits; the partition is one that
such offsets can address. Which reads fail, and how, is arbitrary.
-/

namespace FirewallCore.Mtdsplit

open FirewallCore.Lib

/-- The negative numbers that the parsers return. -/
inductive Errno where
  | enoent
  | eio
  | enomem
  | enodev
  | einval
  | other (n : Nat)
  deriving DecidableEq, Repr

/-- What goes wrong with a read: an error, or only some bytes arrive. -/
inductive Fault where
  | error (err : Errno)
  | short (retlen : Nat)
  deriving DecidableEq, Repr

/-- `struct mtd_info` of a partition, with its contents. -/
structure Mtd where
  /-- The bits of `size_t`. -/
  wordBits : Nat
  /-- The byte order of the processor. -/
  endian : Endian
  size : Nat
  erasesize : Nat
  bytes : Nat → UInt8
  /-- What goes wrong with a read of some length from an offset. -/
  fault : Nat → Nat → Option Fault
  wide : wordBits = 32 ∨ wordBits = 64
  addressable : size < 2 ^ wordBits
  positive : 0 < erasesize
  /-- The size of an eraseblock is a `uint32_t`. -/
  narrow : erasesize < 2 ^ 32
  aligned : erasesize ∣ size

theorem wide_32 : (32 : Nat) = 32 ∨ (32 : Nat) = 64 := .inl rfl

/-- `struct mtd_partition`. -/
structure MtdPartition where
  name : String
  offset : Nat
  size : Nat
  deriving DecidableEq, Repr

/-- `enum mtdsplit_part_type`, of a root filesystem that was found. -/
inductive PartType where
  | squashfs
  | jffs2
  | ubi
  deriving DecidableEq, Repr

namespace Mtd

variable (mtd : Mtd)

theorem wordBits_le : 32 ≤ mtd.wordBits := by
  rcases mtd.wide with bits | bits <;> omega

/-- A number as a `size_t`. -/
def word (n : Nat) : Nat := n % 2 ^ mtd.wordBits

/-- The bytes of the flash from an offset on. -/
def contents (offset len : Nat) : List UInt8 :=
  (List.range len).map fun i => mtd.bytes (offset + i)

/-- `mtd_read`: the bytes that arrive. -/
def read (offset len : Nat) : Except Errno (List UInt8) :=
  if mtd.size ≤ offset ∨ mtd.size - offset < len then .error .einval
  else
    match mtd.fault offset len with
    | none => .ok (mtd.contents offset len)
    | some (.error err) => .error err
    | some (.short retlen) => .ok (mtd.contents offset (min retlen len))

/-- A read of which all the bytes have to arrive, as in `read_uimage_header`, `read_jimage_header`
and `read_trx_header`. -/
def readHeader (offset headerLen : Nat) : Except Errno (List UInt8) :=
  match mtd.read offset headerLen with
  | .error err => .error err
  | .ok buf => if buf.length = headerLen then .ok buf else .error .eio

/-- `mtd_rounddown_to_eb`. -/
def rounddownToEb (sz : Nat) : Nat :=
  if sz % mtd.erasesize = 0 then sz else sz / mtd.erasesize * mtd.erasesize

/-- `mtd_roundup_to_eb`. -/
def roundupToEb (sz : Nat) : Nat :=
  if sz % mtd.erasesize = 0 then sz else (sz / mtd.erasesize + 1) * mtd.erasesize

/-- `mtd_next_eb`. -/
def nextEb (offset : Nat) : Nat := mtd.rounddownToEb offset + mtd.erasesize

def SQUASHFS_MAGIC : Nat := 0x73717368
def UBI_EC_MAGIC : Nat := 0x55424923

/-- `mtd_check_rootfs_magic`. The magic of JFFS2 is in the byte order of the processor. -/
def checkRootfsMagic (offset : Nat) : Except Errno PartType :=
  match mtd.readHeader offset 4 with
  | .error err => .error err
  | .ok magic =>
    if Endian.little.number magic = SQUASHFS_MAGIC then .ok .squashfs
    else if mtd.endian.number magic = 0x19852003 then .ok .jffs2
    else if Endian.big.number magic = UBI_EC_MAGIC then .ok .ubi
    else .error .einval

@[simp] theorem word_lt (n : Nat) : mtd.word n < 2 ^ mtd.wordBits := Nat.mod_lt _ (Nat.two_pow_pos _)

theorem word_of_lt {n : Nat} (small : n < 2 ^ mtd.wordBits) : mtd.word n = n := Nat.mod_eq_of_lt small

theorem rounddownToEb_eq (sz : Nat) :
    mtd.rounddownToEb sz = sz / mtd.erasesize * mtd.erasesize := by
  unfold rounddownToEb
  split
  next exact_multiple => rw [Nat.div_mul_cancel (Nat.dvd_of_mod_eq_zero exact_multiple)]
  · rfl

theorem lt_nextEb (offset : Nat) : offset < mtd.nextEb offset := by
  rw [nextEb, rounddownToEb_eq, ← Nat.succ_mul, Nat.mul_comm]
  exact Nat.lt_mul_div_succ offset mtd.positive

/-- `mtd_find_rootfs_from`. Offsets below the limit are followed by one that is not above the end
of the partition, so a `size_t` holds them all. -/
def findRootfsFrom (offset limit : Nat) : Except Errno (Nat × PartType) :=
  if offset < limit then
    match mtd.checkRootfsMagic offset with
    | .error _ => findRootfsFrom (mtd.nextEb offset) limit
    | .ok type => .ok (offset, type)
  else .error .enodev
termination_by limit - offset
decreasing_by
  have := mtd.lt_nextEb offset
  omega

/-- A root filesystem that is found is between where the search began and its limit. -/
theorem findRootfsFrom_ok {start limit offset : Nat} {type : PartType}
    (found : mtd.findRootfsFrom start limit = .ok (offset, type)) :
    start ≤ offset ∧ offset < limit ∧ mtd.checkRootfsMagic offset = .ok type := by
  fun_induction findRootfsFrom mtd start limit with
  | case1 start below err missed ih =>
    obtain ⟨behind, inside, magic⟩ := ih found
    exact ⟨(mtd.lt_nextEb start).le.trans behind, inside, magic⟩
  | case2 start below type' magic =>
    cases found
    exact ⟨le_rfl, below, magic⟩
  | case3 => cases found

/-- It is where the search began, or at a boundary when there is none where it began. -/
theorem findRootfsFrom_place {start limit offset : Nat} {type : PartType}
    (found : mtd.findRootfsFrom start limit = .ok (offset, type)) :
    offset = start ∨ mtd.erasesize ∣ offset ∧ ∃ err, mtd.checkRootfsMagic start = .error err := by
  fun_induction findRootfsFrom mtd start limit with
  | case1 start below err missed ih =>
    have boundary : mtd.erasesize ∣ mtd.nextEb start := by
      rw [nextEb, rounddownToEb_eq]
      exact Nat.dvd_add_self_right.mpr (Nat.dvd_mul_left _ _)
    rcases ih found with rfl | ⟨aligned, -⟩
    · exact .inr ⟨boundary, err, missed⟩
    · exact .inr ⟨aligned, err, missed⟩
  | case2 start below type' magic =>
    cases found
    exact .inl rfl
  | case3 => cases found

/-! ### Rounding up -/

section Rounding

variable {mtd} {n bound : Nat}

theorem dvd_roundupToEb (mtd : Mtd) (n : Nat) : mtd.erasesize ∣ mtd.roundupToEb n := by
  unfold roundupToEb
  split
  next exact_multiple => exact Nat.dvd_of_mod_eq_zero exact_multiple
  · exact Nat.dvd_mul_left _ _

theorem le_roundupToEb (mtd : Mtd) (n : Nat) : n ≤ mtd.roundupToEb n := by
  unfold roundupToEb
  split
  · exact le_rfl
  · rw [Nat.mul_comm]
    exact (Nat.lt_mul_div_succ n mtd.positive).le

theorem roundupToEb_le (aligned : mtd.erasesize ∣ bound) (below : n ≤ bound) :
    mtd.roundupToEb n ≤ bound := by
  unfold roundupToEb
  split
  · exact below
  next rest =>
    obtain ⟨blocks, rfl⟩ := aligned
    have strict : n < mtd.erasesize * blocks := by
      refine below.lt_of_ne ?_
      rintro rfl
      exact rest (Nat.mul_mod_right _ _)
    rw [Nat.mul_comm]
    exact Nat.mul_le_mul_left _ (Nat.div_lt_of_lt_mul strict)

theorem roundupToEb_lt (mtd : Mtd) (n : Nat) : mtd.roundupToEb n < n + mtd.erasesize := by
  have positive := mtd.positive
  unfold roundupToEb
  split
  · omega
  next rest =>
    have whole := Nat.div_add_mod n mtd.erasesize
    rw [Nat.succ_mul, Nat.mul_comm]
    omega

theorem roundupToEb_of_dvd (aligned : mtd.erasesize ∣ n) : mtd.roundupToEb n = n :=
  if_pos (Nat.mod_eq_zero_of_dvd aligned)

end Rounding

end Mtd

/-! ### What partitions have to be -/

namespace MtdPartition

/-- The partition has something in it, and is a part of the flash. -/
def Inside (p : MtdPartition) (size : Nat) : Prop := 0 < p.size ∧ p.offset + p.size ≤ size

def Disjoint (p q : MtdPartition) : Prop :=
  p.offset + p.size ≤ q.offset ∨ q.offset + q.size ≤ p.offset

end MtdPartition

end FirewallCore.Mtdsplit

/-!
The splitters that scan a partition for an image, one eraseblock after the
other: `mtdsplit_uimage.c`, `mtdsplit_jimage.c` and `mtdsplit_trx.c`.

The three loops are one loop over a probe, which reads the header at an offset
and checks all of it but the size. The loop goes on past an image that exceeds
the partition, and keeps its header: if that was the last eraseblock, the image
counts as found, at the end of the partition.
-/

namespace FirewallCore.Mtdsplit

open FirewallCore.Lib

/-- Which of the allocations of a parser succeed: the partitions, and the header buffer. -/
structure Memory where
  parts : Bool
  buf : Bool
  deriving DecidableEq, Repr

section Scan

variable {η : Type} (mtd : Mtd) (probe : Nat → Option η) (imageSize : η → Nat)

/-- The image does not exceed the partition, as the loops check it. -/
def Fits (offset : Nat) (header : η) : Prop := mtd.word (offset + imageSize header) ≤ mtd.size

instance (offset : Nat) (header : η) : Decidable (Fits mtd imageSize offset header) :=
  inferInstanceAs (Decidable (_ ≤ _))

/-- The loop over the eraseblocks: the offset in the end, and the header of the last one that it
looked at, if that had one. -/
def scan (offset : Nat) (header : Option η) : Nat × Option η :=
  if offset < mtd.size then
    match probe offset with
    | none => scan (offset + mtd.erasesize) none
    | some header =>
      if Fits mtd imageSize offset header then (offset, some header)
      else scan (offset + mtd.erasesize) (some header)
  else (offset, header)
termination_by mtd.size - offset
decreasing_by
  all_goals
    have := mtd.positive
    omega

end Scan

def kernelName : String := "kernel"
def rootfsName : String := "rootfs"
def ubiName : String := "ubi"

/-- The name of the partition of a root filesystem. -/
def PartType.partName : PartType → String
  | .ubi => ubiName
  | _ => rootfsName

/-! ### uImages and jImages -/

/-- What `__mtdsplit_parse_uimage` and `__mtdsplit_parse_jimage` have in common. The probe gives
the size of the image. -/
def parseImage (memory : Memory) (mtd : Mtd) (probe : Nat → Option Nat) :
    Except Errno (List MtdPartition) :=
  if !memory.parts then .error .enomem
  else if !memory.buf then .error .enomem
  else
    let (offset, found) := scan mtd probe id 0 none
    let imageSize := found.getD 0
    if imageSize = 0 then .error .enodev
    else if offset = 0 then
      -- find the rootfs after the image
      match mtd.findRootfsFrom (mtd.word (offset + imageSize)) mtd.size with
      | .error err => .error err
      | .ok (rootfsOffset, type) =>
        let rootfsSize := mtd.size - rootfsOffset
        if rootfsSize = 0 then .error .enodev
        else .ok [⟨kernelName, offset, rootfsOffset - offset⟩,
          ⟨type.partName, rootfsOffset, rootfsSize⟩]
    else
      match mtd.checkRootfsMagic 0 with
      | .error err => .error err
      | .ok type =>
        let rootfsSize := offset
        if rootfsSize = 0 then .error .enodev
        else .ok [⟨type.partName, 0, rootfsSize⟩, ⟨kernelName, offset, imageSize⟩]

def IH_MAGIC : Nat := 0x27051956
def IH_OS_LINUX : Nat := 5
def IH_TYPE_KERNEL : Nat := 2

/-- `sizeof(struct uimage_header)`. -/
def uimageHeaderSize : Nat := 64

/-- What `uimage_parse_dt` reads, or the defaults. -/
structure UimageDt (mtd : Mtd) where
  /-- The number is stored into an `int`. -/
  extralen : BitVec 32
  ihMagic : Nat
  ihType : Nat
  headerOffset : Nat
  partMagic : Nat
  /-- The size of the header buffer is a `size_t`. -/
  buffered : uimageHeaderSize + headerOffset < 2 ^ mtd.wordBits

/-- Without properties in the device tree. -/
def UimageDt.default (mtd : Mtd) : UimageDt mtd where
  extralen := 0
  ihMagic := IH_MAGIC
  ihType := IH_TYPE_KERNEL
  headerOffset := 0
  partMagic := 0
  buffered := (show 64 < 2 ^ 32 by decide).trans_le (Nat.pow_le_pow_right (by decide) mtd.wordBits_le)

/-- `uimage_verify_default`, on the header. -/
def uimageVerifyDefault (header : List UInt8) (ihMagic ihType : Nat) : Bool :=
  Endian.big.numberAt header 0 4 == ihMagic && Endian.big.numberAt header 28 1 == IH_OS_LINUX &&
    Endian.big.numberAt header 30 1 == ihType

/-- The body of the loop up to the size check. -/
def uimageProbe (mtd : Mtd) (dt : UimageDt mtd) (offset : Nat) : Option Nat :=
  match mtd.readHeader offset (uimageHeaderSize + dt.headerOffset) with
  | .error _ => none
  | .ok buf =>
    if dt.headerOffset ≠ 0 ∧ dt.partMagic ≠ 0 ∧ Endian.big.numberAt buf 0 4 ≠ dt.partMagic then
      none
    else
      let header := buf.drop dt.headerOffset
      if uimageVerifyDefault header dt.ihMagic dt.ihType then
        let size : Int := uimageHeaderSize + Endian.big.numberAt header 12 4 + dt.headerOffset +
          dt.extralen.toInt
        some (size % 2 ^ mtd.wordBits).toNat
      else none

/-- `__mtdsplit_parse_uimage`. -/
def parseUimage (memory : Memory) (mtd : Mtd) (dt : UimageDt mtd) :
    Except Errno (List MtdPartition) :=
  parseImage memory mtd (uimageProbe mtd dt)

def STAG_ID : Nat := 0x04
def STAG_MAGIC : Nat := 0x2B24
def SCH2_MAGIC : Nat := 0x2124
def SCH2_VER : Nat := 0x02

/-- `MAX_HEADER_LEN`, which is `sizeof(struct jimage_header)` too. -/
def maxHeaderLen : Nat := 56

/-- `jimage_verify_default`. The fields are read in the byte order of the processor. -/
def jimageVerifyDefault (e : Endian) (header : List UInt8) : Bool :=
  e.numberAt header 2 2 == STAG_MAGIC && e.numberAt header 16 2 == SCH2_MAGIC &&
    e.numberAt header 0 1 == e.numberAt header 1 1 && e.numberAt header 1 1 == STAG_ID &&
    e.numberAt header 19 1 == SCH2_VER

/-- The body of the loop up to the size check; `find_header` is `jimage_verify_default`. -/
def jimageProbe (mtd : Mtd) (offset : Nat) : Option Nat :=
  match mtd.readHeader offset maxHeaderLen with
  | .error _ => none
  | .ok header =>
    if jimageVerifyDefault mtd.endian header then
      some (mtd.word (maxHeaderLen + mtd.endian.numberAt header 24 4))
    else none

/-- `__mtdsplit_parse_jimage`. -/
def parseJimage (memory : Memory) (mtd : Mtd) : Except Errno (List MtdPartition) :=
  parseImage memory mtd (jimageProbe mtd)

/-! ### TRX images -/

def TRX_MAGIC : Nat := 0x30524448

/-- `struct trx_header`, as far as it is used. -/
structure TrxHeader where
  len : Nat
  /-- The first two offsets, in the byte order of the processor. -/
  offset0 : Nat
  offset1 : Nat
  deriving DecidableEq, Repr

/-- The body of the loop up to the size check. -/
def trxProbe (mtd : Mtd) (offset : Nat) : Option TrxHeader :=
  match mtd.readHeader offset 32 with
  | .error _ => none
  | .ok hdr =>
    if Endian.little.numberAt hdr 0 4 = TRX_MAGIC then
      some ⟨Endian.little.numberAt hdr 4 4, mtd.endian.numberAt hdr 16 4,
        mtd.endian.numberAt hdr 20 4⟩
    else none

/-- Where the header says that the kernel begins, and the root filesystem. -/
def TrxHeader.kernelAt (mtd : Mtd) (offset : Nat) (hdr : TrxHeader) : Nat :=
  mtd.word (offset + hdr.offset0)

def TrxHeader.rootfsAt (mtd : Mtd) (offset : Nat) (hdr : TrxHeader) : Nat :=
  mtd.word (offset + hdr.offset1)

/-- `mtdsplit_parse_trx`. -/
def parseTrx (memory : Memory) (mtd : Mtd) : Except Errno (List MtdPartition) :=
  if !memory.parts then .error .enomem
  else
    let (offset, found) := scan mtd (trxProbe mtd) TrxHeader.len 0 none
    match found with
    | none => .error .enodev
    | some hdr =>
      if hdr.len = 0 then .error .enodev
      else
        let trxOffset := hdr.kernelAt mtd offset
        let rootfsOffset := hdr.rootfsAt mtd offset
        let rootfsSize := mtd.word (mtd.size + 2 ^ mtd.wordBits - rootfsOffset)
        let trxSize := mtd.word (rootfsOffset + 2 ^ mtd.wordBits - trxOffset)
        if rootfsSize = 0 then .error .enodev
        else .ok [⟨kernelName, trxOffset, trxSize⟩, ⟨rootfsName, rootfsOffset, rootfsSize⟩]

end FirewallCore.Mtdsplit
