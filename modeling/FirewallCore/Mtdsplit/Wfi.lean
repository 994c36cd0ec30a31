import FirewallCore.Lib.Checksums
import FirewallCore.Lib.Checked
import FirewallCore.Mtdsplit.Images

/-!
The splitters for Broadcom whole-flash images, `mtdsplit_bcm_wfi.c`.

A file system of one image is searched for its directory entries, an eraseblock
at a time. Memory is there when it is asked for.
-/

namespace FirewallCore.Mtdsplit

open FirewallCore.Lib

/-- The loop has not ended within the rounds that are counted. -/
inductive Unfinished where
  | unfinished
  deriving DecidableEq, Repr

def JFFS2_MAGIC_BITMASK : Nat := 0x1985
def JFFS2_NODETYPE_DIRENT : Nat := 0xe001
def UBI_MAGIC : Nat := 0x55424923

/-- `cferam` -/
def CFERAM_NAME : List UInt8 := [0x63, 0x66, 0x65, 0x72, 0x61, 0x6d]

def CFERAM_NAME_MAX_LEN : Nat := 32

/-- `vmlinux.lz` -/
def KERNEL_NAME : List UInt8 := [0x76, 0x6d, 0x6c, 0x69, 0x6e, 0x75, 0x78, 0x2e, 0x6c, 0x7a]

/-- `1-openwrt` -/
def OPENWRT_NAME : List UInt8 := [0x31, 0x2d, 0x6f, 0x70, 0x65, 0x6e, 0x77, 0x72, 0x74]

/-! ### Entries of an eraseblock -/

/-- `jffs2_dirent_valid`, of a `struct jffs2_raw_dirent` somewhere in the buffer. The check is of all
but its last eight bytes. -/
def jffs2DirentValid (e : Endian) (buf : List UInt8) (node : Nat) : Checked Unfinished Bool := do
  let magic ← readNumber e 2 buf node
  if magic ≠ JFFS2_MAGIC_BITMASK then .ok false
  else do
    let nodetype ← readNumber e 2 buf (node + 2)
    if nodetype ≠ JFFS2_NODETYPE_DIRENT then .ok false
    else do
      let ino ← readNumber e 4 buf (node + 20)
      if ino = 0 then .ok false
      else do
        let nodeCrc ← readNumber e 4 buf (node + 32)
        let head ← load buf node 32
        .ok (decide (nodeCrc = (crc32 0 head).toNat))

/-- `memcmp` of a part of the buffer with a string. It may look at all of the part. -/
def isString (buf : List UInt8) (pos : Nat) (s : List UInt8) : Checked Unfinished Bool := do
  let bytes ← load buf pos s.length
  .ok (decide (bytes = s))

/-- What the search takes a node for. -/
inductive Node where
  | invalid
  | openwrt
  | named
  | other
  deriving DecidableEq, Repr

/-- The tests of a node. -/
def lookAt (e : Endian) (buf name : List UInt8) (node : Nat) : Checked Unfinished Node := do
  let valid ← jffs2DirentValid e buf node
  if valid = false then .ok .invalid
  else do
    let openwrt ← isString buf (node + 40) OPENWRT_NAME
    if openwrt = true then .ok .openwrt
    else do
      let named ← isString buf (node + 40) name
      .ok (if named = true then .named else .other)

/-- The offset of the next node, an `unsigned int`. -/
def nextNode (e : Endian) (buf : List UInt8) (node : Nat) : Nat :=
  let blockOffs := (node + e.numberAt buf (node + 4) 4) % 2 ^ 32
  (blockOffs + 3) % 2 ^ 32 / 4 * 4

/-- How the search of an eraseblock ends: at an entry with the name, or behind the last node. -/
structure BlockEnd where
  named : Option Nat
  valid : Bool
  deriving DecidableEq, Repr

/-- The loop over the nodes of an eraseblock. The length of a node is read when its magic number has
been, so it is inside of the buffer. -/
def searchBlock (e : Endian) (buf name : List UInt8) : Nat → Nat → Bool → Checked Unfinished BlockEnd
  | 0, _, _ => .error (.error .unfinished)
  | fuel + 1, blockOffs, valid =>
    if blockOffs < buf.length then do
      let node ← lookAt e buf name blockOffs
      match node with
      | .invalid => searchBlock e buf name fuel ((blockOffs + 4) % 2 ^ 32) valid
      | .openwrt => searchBlock e buf name fuel (nextNode e buf blockOffs) true
      | .named => .ok ⟨some blockOffs, valid⟩
      | .other => searchBlock e buf name fuel (nextNode e buf blockOffs) valid
    else .ok ⟨none, valid⟩

/-! ### Files -/

/-- `kstrndup` of a string in memory. -/
def kstrndup : List UInt8 → Nat → Checked Unfinished (List UInt8)
  | _, 0 => .ok []
  | [], _ + 1 => .error .outside
  | c :: cs, max + 1 =>
    if c = 0 then .ok []
    else do
      let rest ← kstrndup cs max
      .ok (c :: rest)

/-- A file that was found, with its name and the length of that where they are asked for. -/
structure FoundFile where
  offs : Nat
  out : Option (List UInt8 × Nat)
  deriving DecidableEq, Repr

def takeFile (e : Endian) (buf : List UInt8) (outName : Bool) (offs node : Nat) :
    Checked Unfinished FoundFile :=
  if outName = true then do
    let nsize ← readNumber e 1 buf (node + 28)
    let name ← kstrndup (buf.drop (node + 40)) nsize
    .ok ⟨offs, some (name, nsize)⟩
  else .ok ⟨offs, none⟩

/-- What the two reads of an eraseblock lead to. -/
inductive Block where
  | skipped
  | failed (err : Errno)
  | loaded (buf : List UInt8)
  deriving DecidableEq, Repr

namespace Mtd

variable (mtd : Mtd)

def readBlock (offs : Nat) : Block :=
  match mtd.readHeader offs 2 with
  | .error _ => .skipped
  | .ok magic =>
    if mtd.endian.number magic ≠ JFFS2_MAGIC_BITMASK then .skipped
    else
      match mtd.read offs mtd.erasesize with
      | .error err => .failed err
      | .ok buf => if buf.length = mtd.erasesize then .loaded buf else .failed .einval

/-- The loop over the eraseblocks. -/
def findFrom (name : List UInt8) (outName : Bool) (fuel : Nat) (stop : Int) (offs : Nat) (valid : Bool) :
    Checked Unfinished (Except Errno FoundFile) :=
  if offs < stop then
    match mtd.readBlock offs with
    | .skipped => findFrom name outName fuel stop (offs + mtd.erasesize) valid
    | .failed err => .ok (.error err)
    | .loaded buf => do
      let block ← searchBlock mtd.endian buf name fuel 0 valid
      match block.named with
      | none => findFrom name outName fuel stop (offs + mtd.erasesize) block.valid
      | some node =>
        if block.valid = false then .ok (.error .einval)
        else do
          let file ← takeFile mtd.endian buf outName offs node
          .ok (.ok file)
  else .ok (.error .enoent)
termination_by (stop - offs).toNat
decreasing_by
  all_goals
    have := mtd.positive
    omega

/-- `jffs2_find_file`, with a number of rounds for each eraseblock. -/
def jffs2FindFile (name : List UInt8) (outName : Bool) (fuel offs : Nat) (size : Int) :
    Checked Unfinished (Except Errno FoundFile) :=
  mtd.findFrom name outName fuel (offs + size) offs false

def ubifsFrom (stop : Int) (offs : Nat) : Except Errno Nat :=
  if offs < stop then
    match mtd.readHeader offs 4 with
    | .error _ => ubifsFrom stop (offs + mtd.erasesize)
    | .ok magic =>
      if Endian.big.number magic = UBI_MAGIC then .ok offs
      else ubifsFrom stop (offs + mtd.erasesize)
  else .error .enoent
termination_by (stop - offs).toNat
decreasing_by
  all_goals
    have := mtd.positive
    omega

/-- `ubifs_find`. -/
def ubifsFind (offs : Nat) (size : Int) : Except Errno Nat := mtd.ubifsFrom (offs + size) offs

end Mtd

/-! ### Images -/

/-- A flash with such images. The offsets up to an eraseblock behind its end are of type `loff_t`. -/
structure WholeFlash extends Mtd where
  signed : size + erasesize < 2 ^ 63
  /-- The string `brcm,cferam` of the device tree, if it is there. -/
  brcmCferam : Option (List UInt8)

/-- What a parser returns, the partitions that it placed, and whether it erased a boot flag. -/
structure WfiRun where
  ret : Except Errno Nat
  placed : List MtdPartition
  erased : Bool
  deriving DecidableEq, Repr

namespace WholeFlash

variable (flash : WholeFlash)

/-- The first `cferam_name_len` bytes of `cferam_name`. -/
def cferamName : List UInt8 :=
  let name := flash.brcmCferam.getD CFERAM_NAME
  let len := min name.length CFERAM_NAME_MAX_LEN
  name.take (if 0 < len then len - 1 else len)

/-- The partitions of an image. -/
def imageParts (off size : Nat) (cfeOff : Option Nat) (kernelOff rootfsOff : Nat) : List MtdPartition :=
  (match cfeOff with
    | some cfeOff => [⟨"cferam", cfeOff, kernelOff - cfeOff⟩]
    | none => []) ++
  [⟨"firmware", kernelOff, size - (kernelOff - off)⟩,
    ⟨kernelName, kernelOff, rootfsOff - kernelOff⟩,
    ⟨ubiName, rootfsOff, size - (rootfsOff - off)⟩]

/-- The first value of `kernel_off`. -/
def kernelStart (off : Nat) (cfeOff : Option Nat) : Nat :=
  match cfeOff with
  | some cfeOff => cfeOff + flash.erasesize
  | none => off

/-- `parse_bcm_wfi` from the search for the kernel on. -/
def parseKernel (fuel off size : Nat) (cfeOff : Option Nat) : Checked Unfinished WfiRun := do
  let start := flash.kernelStart off cfeOff
  let kernel ← flash.jffs2FindFile KERNEL_NAME false fuel start (size - (start - off))
  match kernel with
  | .error err => .ok ⟨.error err, [], false⟩
  | .ok kernel =>
    let start := kernel.offs + flash.erasesize
    match flash.ubifsFind start (size - (start - off)) with
    | .error err => .ok ⟨.error err, [], false⟩
    | .ok rootfsOff =>
      let numParts := if cfeOff.isSome then 4 else 3
      .ok ⟨.ok numParts, imageParts off size cfeOff kernel.offs rootfsOff, false⟩

/-- `parse_bcm_wfi`. -/
def parseBcmWfi (fuel off size : Nat) (cfePart : Bool) : Checked Unfinished WfiRun :=
  if cfePart = true then do
    let cfe ← flash.jffs2FindFile flash.cferamName false fuel off size
    match cfe with
    | .error err => .ok ⟨.error err, [], false⟩
    | .ok cfe => flash.parseKernel fuel off size (some cfe.offs)
  else flash.parseKernel fuel off size none

/-! ### Boot flags -/

/-- `-ENOENT` -/
def noFlag : Int := -2

/-- `char_to_num` -/
def charToNum (c : UInt8) : Int := if 0x30 ≤ c ∧ c ≤ 0x39 then c.toNat - 0x30 else 0

/-- The number behind a name of seven characters. -/
def flagNumber (byte : Nat → UInt8) : Int :=
  charToNum (byte 7) * 100 + charToNum (byte 8) * 10 + charToNum (byte 9) * 1

/-- `cferam.` -/
def CFE_MAGIC_PFX : List UInt8 := [0x63, 0x66, 0x65, 0x72, 0x61, 0x6d, 0x2e]

/-- `eRcOmM.` -/
def SERCOMM_MAGIC_PFX : List UInt8 := [0x65, 0x52, 0x63, 0x4f, 0x6d, 0x4d, 0x2e]

/-- `cferam_bootflag_value`. The name can be shorter than its length says: behind the zero at its end are
other bytes of the heap. -/
def cferamBootflagValue (heap : Nat → UInt8) (out : Option (List UInt8 × Nat)) : Int :=
  match out with
  | none => noFlag
  | some (name, nameLen) =>
    let byte := fun i => ((name ++ [0])[i]?).getD (heap i)
    if 10 ≤ nameLen ∧ (List.range 7).map byte = CFE_MAGIC_PFX then flagNumber byte else noFlag

def sercommFrom (mtd : Mtd) (offs : Nat) : Int :=
  if offs < mtd.size then
    match mtd.readHeader offs 10 with
    | .error _ => sercommFrom mtd (offs + mtd.erasesize)
    | .ok buf =>
      if buf.take 7 = SERCOMM_MAGIC_PFX then flagNumber fun i => (buf[i]?).getD 0
      else sercommFrom mtd (offs + mtd.erasesize)
  else noFlag
termination_by mtd.size - offs
decreasing_by
  all_goals
    have := mtd.positive
    omega

/-- `sercomm_bootflag_value`. -/
def sercommBootflagValue (mtd : Mtd) : Int := sercommFrom mtd 0

/-! ### Two images -/

def img1 : MtdPartition := ⟨"img1", 0, flash.size / 2⟩

def img2 : MtdPartition := ⟨"img2", flash.size / 2, flash.size - flash.size / 2⟩

/-- The active and the inactive image. -/
def images (bf1 bf2 : Int) : MtdPartition × MtdPartition :=
  if bf1 ≥ bf2 then (flash.img1, flash.img2) else (flash.img2, flash.img1)

/-- What is done with what the active image was parsed to. -/
def placeImages (inactive : MtdPartition) (parsed : WfiRun) : WfiRun :=
  match parsed.ret with
  | .ok ret => ⟨.ok (ret + 1), parsed.placed.take ret ++ [inactive], false⟩
  | .error err => ⟨.error err, [flash.img1, flash.img2], false⟩

/-- The name that `jffs2_find_file` has put out, if it has found a file. -/
def outOf (file : Except Errno FoundFile) : Option (List UInt8 × Nat) :=
  match file with
  | .ok file => file.out
  | .error _ => none

/-- The search for the `cferam` of an image. -/
def findCferam (fuel : Nat) (img : MtdPartition) : Checked Unfinished (Except Errno FoundFile) :=
  flash.jffs2FindFile CFERAM_NAME true fuel img.offset img.size

/-- `mtdsplit_parse_bcm_wfi_split`. The two names have different bytes behind them. -/
def mtdsplitParseBcmWfiSplit (heap1 heap2 : Nat → UInt8) (fuel : Nat) : Checked Unfinished WfiRun := do
  let cfe1 ← flash.findCferam fuel flash.img1
  let cfe2 ← flash.findCferam fuel flash.img2
  let bf1 := cferamBootflagValue heap1 (outOf cfe1)
  let bf2 := cferamBootflagValue heap2 (outOf cfe2)
  let (active, inactive) := flash.images bf1 bf2
  let parsed ← flash.parseBcmWfi fuel active.offset active.size true
  .ok (flash.placeImages inactive parsed)

/-- The boot flags as `mtdsplit_parse_ser_wfi` compares them: when they are the same, the second one is
erased and counts no longer. -/
def serFlags (mtdBf1 mtdBf2 : Mtd) : Int × Int × Bool :=
  let bf1 := sercommBootflagValue mtdBf1
  let bf2 := sercommBootflagValue mtdBf2
  if bf1 = bf2 ∧ bf2 ≥ 0 then (bf1, noFlag, true) else (bf1, bf2, false)

/-- `mtdsplit_parse_ser_wfi`, with the devices `bootflag1` and `bootflag2` if they are there. -/
def mtdsplitParseSerWfi (mtdBf1 mtdBf2 : Option Mtd) (fuel : Nat) : Checked Unfinished WfiRun :=
  match mtdBf1, mtdBf2 with
  | some mtdBf1, some mtdBf2 => do
    let (bf1, bf2, erased) := serFlags mtdBf1 mtdBf2
    let (active, inactive) := flash.images bf1 bf2
    let parsed ← flash.parseBcmWfi fuel active.offset active.size false
    .ok { flash.placeImages inactive parsed with erased := erased }
  | _, _ => .ok ⟨.error .enoent, [], false⟩

end WholeFlash

end FirewallCore.Mtdsplit
