import FirewallCore.Lib.Bits
import FirewallCore.Mtdsplit.Images
import FirewallCore.Mtdsplit.Splits

/-!
The splitter for FIT images, `mtdsplit_fit.c`.

A scan looks for the magic of a flattened device tree at `openwrt,fit-offset`
behind each eraseblock boundary. A large image is followed by a root filesystem;
a small one has its data outside, and what is behind the data is `rootfs_data`.

Two things that the run leaves besides its answer are kept: the buffer for the
tree, with what arrived in it, and the tree that was walked.
-/

namespace FirewallCore.Mtdsplit

open FirewallCore.Lib

def OF_DT_HEADER : Nat := 0xd00dfeed

/-- `sizeof(struct fdt_header)`. -/
def hdrLen : Nat := 40

def rootfsSplitName : String := "rootfs_data"

/-- What the parser finds about itself: its offset in the device tree, and whether the command line
is one it is for. -/
structure FitDt (mtd : Mtd) where
  offsetStart : BitVec 32
  cmdlineMatch : Bool
  /-- The end of a header at the end of the partition is a `size_t`. -/
  room : mtd.size + hdrLen ≤ 2 ^ mtd.wordBits

/-- The properties of an image node. The data of the node itself are inside the tree. -/
structure ImageNode where
  dataPosition : Option (BitVec 32)
  dataOffset : Option (BitVec 32)
  dataSize : Option (BitVec 32)
  data : Option (BitVec 31 × BitVec 31)
  deriving DecidableEq, Repr

/-- `libfdt`: the nodes right below `/images`, unless it rejects the tree. -/
structure Libfdt where
  images : List UInt8 → Option (List ImageNode)

/-- What the scan leaves in `offset` and `hdr`. -/
structure FitHeader where
  found : Bool
  offset : Nat
  totalsize : Nat
  deriving DecidableEq, Repr

structure FitRun where
  ret : Except Errno (List MtdPartition)
  /-- What was allocated, and how much arrived in it. -/
  buffer : Option (Nat × Nat)
  /-- Where the tree was read, and its bytes. -/
  tree : Option (Nat × List UInt8)

section Scan

variable (mtd : Mtd) (dt : FitDt mtd)

/-- The header at `offset + offset_start`. -/
def fitHeaderAt (offset : Nat) : Except Errno (List UInt8) :=
  mtd.readHeader (mtd.word (offset + dt.offsetStart.toNat)) hdrLen

def fitMagic (hdr : List UInt8) : Bool := Endian.big.numberAt hdr 0 4 == OF_DT_HEADER

def fdtTotalsize (hdr : List UInt8) : Nat := Endian.big.numberAt hdr 4 4

/-- The loop of `mtdsplit_fit_parse`. `totalsize` is what is in `hdr`, which is not initialized. -/
def fitScan (offset totalsize : Nat) : Except Errno FitHeader :=
  if offset + hdrLen ≤ mtd.size then
    match fitHeaderAt mtd dt offset with
    | .error err => .error err
    | .ok hdr =>
      if fitMagic hdr then .ok ⟨true, offset, fdtTotalsize hdr⟩
      else fitScan (offset + mtd.erasesize) (fdtTotalsize hdr)
  else .ok ⟨false, offset, totalsize⟩
termination_by mtd.size - offset
decreasing_by
  have := mtd.positive
  unfold hdrLen at *
  omega

end Scan

section Tree

variable (mtd : Mtd) (fit : List UInt8)

/-- `(fdt_totalsize(fit) + 3) & ~3`. -/
def externalBase : BitVec 32 := (BitVec.ofNat 32 (fdtTotalsize fit) + 3) &&& ~~~3

/-- `fit_image_get_data_and_size`: where the data are, from the start of the tree, and their size. All
is kept in variables of type `int`. -/
def fitImageGetDataAndSize (image : ImageNode) : Option (Int × Int) :=
  match image.dataPosition with
  | some position => image.dataSize.map fun len => (position.toInt, len.toInt)
  | none =>
    match image.dataOffset with
    | some offset => image.dataSize.map fun len => ((offset + externalBase fit).toInt, len.toInt)
    | none => image.data.map fun data => ((data.1.toNat : Int), (data.2.toNat : Int))

/-- `img_total`. -/
def imgTotal (image : ImageNode) : Option Nat :=
  (fitImageGetDataAndSize fit image).map fun data =>
    ((data.2 + data.1) % 2 ^ mtd.wordBits).toNat

/-- The loop over the images; `none` when one of them has no data. -/
def maxSize : List ImageNode → Nat → Option Nat
  | [], max => some max
  | image :: rest, max =>
    match imgTotal mtd fit image with
    | none => none
    | some total => maxSize rest (if max > total then max else total)

end Tree

section Parse

variable (lib : Libfdt) (memory : Memory) (stack : BitVec 32) (mtd : Mtd) (dt : FitDt mtd)

/-- A large image, and the root filesystem behind it. -/
def fitLarge (h : FitHeader) : Except Errno (List MtdPartition) :=
  match mtd.findRootfsFrom (mtd.word (h.offset + h.totalsize + dt.offsetStart.toNat)) mtd.size with
  | .error err => .error err
  | .ok (rootfsOffset, type) =>
    if !memory.parts then .error .enomem
    else .ok [
      ⟨kernelName, h.offset, mtd.roundupToEb (mtd.word (h.totalsize + dt.offsetStart.toNat))⟩,
      ⟨type.partName, rootfsOffset, mtd.size - rootfsOffset⟩]

/-- What is behind the data of the images. Partitions are in numbers of 64 bits. -/
def rootfsData (h : FitHeader) (max : Nat) : MtdPartition :=
  let offset := (h.offset + mtd.roundupToEb max) % 2 ^ 64
  ⟨rootfsSplitName, offset, (mtd.size + 2 ^ 64 - offset) % 2 ^ 64⟩

/-- The tree of a small image, in its buffer. -/
def fitWalk (h : FitHeader) (fit : List UInt8) : Except Errno (List MtdPartition) :=
  match lib.images fit with
  | none => .error .enodev
  | some images =>
    match maxSize mtd fit images 0 with
    | none => .ok []
    | some max => if !memory.parts then .error .enomem else .ok [rootfsData mtd h max]

/-- A small image. The bytes of an allocation that failed go to a null pointer, which ends the
run. -/
def fitSmall (h : FitHeader) : FitRun :=
  match mtd.read h.offset (mtd.word (h.totalsize + dt.offsetStart.toNat)) with
  | .error err => ⟨.error err, some (h.totalsize, 0), none⟩
  | .ok bytes =>
    if !memory.buf then ⟨.error .enomem, some (0, bytes.length), none⟩
    else
      let fit := bytes ++ List.replicate (h.totalsize - bytes.length) 0
      ⟨fitWalk lib memory mtd h fit, some (h.totalsize, bytes.length), some (h.offset, fit)⟩

/-- `mtdsplit_fit_parse`; `stack` is what `hdr.totalsize` is when no header is read. -/
def fitParse : FitRun :=
  if !dt.cmdlineMatch then ⟨.error .enodev, none, none⟩
  else
    match fitScan mtd dt 0 stack.toNat with
    | .error err => ⟨.error err, none, none⟩
    | .ok h =>
      if h.totalsize = 0 then ⟨.error .enodev, none, none⟩
      else if h.totalsize > 0x1000 then ⟨fitLarge memory mtd dt h, none, none⟩
      else fitSmall lib memory mtd dt h

end Parse

end FirewallCore.Mtdsplit

/-!
When the splitter for FIT images is safe.

Where the scan ends (`FitEnds`) and what stands there decides. Behind a large
image the kernel, which is rounded up to whole eraseblocks, must not reach into
a root filesystem that is found where the image ends; a small image has to fit
into its buffer, and the ends of its data, which are computed in variables of
type `int`, have to be those that the tree says.
-/

namespace FirewallCore.Mtdsplit

open FirewallCore.Lib

section Statement

variable (mtd : Mtd) (dt : FitDt mtd)

/-- The magic is found at an offset that is probed. -/
def MagicAt (o : Nat) : Prop :=
  mtd.erasesize ∣ o ∧ o + hdrLen ≤ mtd.size ∧
    ∃ hdr, fitHeaderAt mtd dt o = .ok hdr ∧ fitMagic hdr = true

/-- The headers before an offset can be read and have no magic. -/
def MissedBefore (offset : Nat) : Prop :=
  ∀ o, mtd.erasesize ∣ o → o < offset →
    ∃ hdr, fitHeaderAt mtd dt o = .ok hdr ∧ fitMagic hdr = false

/-- What is left in the header before an offset is probed. -/
def leftover (stack : BitVec 32) (offset : Nat) : Nat :=
  if offset = 0 then stack.toNat
  else ((fitHeaderAt mtd dt (offset - mtd.erasesize)).map fdtTotalsize).toOption.getD 0

/-- The scan ends at the first magic, or behind the last offset that a header fits at. -/
structure FitEnds (stack : BitVec 32) (h : FitHeader) : Prop where
  aligned : mtd.erasesize ∣ h.offset
  missed : MissedBefore mtd dt h.offset
  before : h.offset = 0 ∨ h.offset - mtd.erasesize + hdrLen ≤ mtd.size
  here : h.found = true → h.offset + hdrLen ≤ mtd.size ∧
    ∃ hdr, fitHeaderAt mtd dt h.offset = .ok hdr ∧ fitMagic hdr = true ∧
      fdtTotalsize hdr = h.totalsize
  behind : h.found = false → mtd.size < h.offset + hdrLen ∧
    h.totalsize = leftover mtd dt stack h.offset

/-- Where the data of an image end, from the start of the tree. -/
def imageEnd (fit : List UInt8) (image : ImageNode) : Option Nat :=
  match image.dataPosition with
  | some position => image.dataSize.map fun len => position.toNat + len.toNat
  | none =>
    match image.dataOffset with
    | some offset => image.dataSize.map fun len =>
      (fdtTotalsize fit + 3) / 4 * 4 + offset.toNat + len.toNat
    | none => image.data.map fun data => data.1.toNat + data.2.toNat

/-- What a run has to satisfy. -/
structure FitSafe (lib : Libfdt) (run : FitRun) : Prop where
  found : ∀ parts, run.ret = .ok parts → parts ≠ [] → ∃ o, MagicAt mtd dt o
  inside : ∀ parts, run.ret = .ok parts → ∀ p ∈ parts, p.Inside mtd.size
  apart : ∀ parts, run.ret = .ok parts → parts.Pairwise MtdPartition.Disjoint
  data : ∀ parts, run.ret = .ok parts → ∀ p ∈ parts, p.name = rootfsSplitName →
    ∃ start fit images, run.tree = some (start, fit) ∧ lib.images fit = some images ∧
      ∀ image ∈ images, ∃ e, imageEnd fit image = some e ∧ start + e ≤ p.offset
  buffered : ∀ allocated arrived, run.buffer = some (allocated, arrived) → arrived ≤ allocated

/-- For a large image, if a root filesystem is found from its end on: there was a magic, the end does
not wrap around, the size does not either, and the end is a boundary or no root filesystem begins
right there. -/
def LargeGood (memory : Memory) (h : FitHeader) : Prop :=
  let size := mtd.word (h.totalsize + dt.offsetStart.toNat)
  let start := mtd.word (h.offset + h.totalsize + dt.offsetStart.toNat)
  ∀ r, mtd.findRootfsFrom start mtd.size = .ok r → memory.parts = true →
    (∃ o, MagicAt mtd dt o) ∧ h.offset + size < 2 ^ mtd.wordBits ∧ 0 < size ∧
      (mtd.erasesize ∣ start ∨ ∃ err, mtd.checkRootfsMagic start = .error err)

/-- For a small image: what is read fits into the buffer, and if the tree is taken and all its images
have data, there was a magic, and the largest of their ends, as the code computes them, leaves
something of the device and is rounded up to the true ends. -/
def SmallGood (lib : Libfdt) (memory : Memory) (h : FitHeader) : Prop :=
  ∀ bytes, mtd.read h.offset (mtd.word (h.totalsize + dt.offsetStart.toNat)) = .ok bytes →
    bytes.length ≤ (if memory.buf then h.totalsize else 0) ∧
    (memory = ⟨true, true⟩ → ∀ images max,
      let fit := bytes ++ List.replicate (h.totalsize - bytes.length) 0
      lib.images fit = some images → maxSize mtd fit images 0 = some max →
        (∃ o, MagicAt mtd dt o) ∧ h.offset + mtd.roundupToEb max < mtd.size ∧
          ∀ image ∈ images, ∀ e, imageEnd fit image = some e → e ≤ mtd.roundupToEb max)

def FitGood (lib : Libfdt) (memory : Memory) (stack : BitVec 32) : Prop :=
  dt.cmdlineMatch = true → ∀ h, FitEnds mtd dt stack h → h.totalsize ≠ 0 →
    (0x1000 < h.totalsize → LargeGood mtd dt memory h) ∧
    (h.totalsize ≤ 0x1000 → SmallGood mtd dt lib memory h)

end Statement

/-! ### The scan -/

section Scan

variable {mtd : Mtd} {dt : FitDt mtd} {stack : BitVec 32} {h : FitHeader}

/-- Where the scan is when it found no magic so far. -/
structure FitScanned (mtd : Mtd) (dt : FitDt mtd) (stack : BitVec 32) (offset totalsize : Nat) :
    Prop where
  aligned : mtd.erasesize ∣ offset
  missed : MissedBefore mtd dt offset
  before : offset = 0 ∨ offset - mtd.erasesize + hdrLen ≤ mtd.size
  left : totalsize = leftover mtd dt stack offset

theorem FitScanned.next {offset totalsize : Nat} (scanned : FitScanned mtd dt stack offset totalsize)
    (fits : offset + hdrLen ≤ mtd.size) {hdr : List UInt8}
    (read : fitHeaderAt mtd dt offset = .ok hdr) (no : fitMagic hdr = false) :
    FitScanned mtd dt stack (offset + mtd.erasesize) (fdtTotalsize hdr) where
  aligned := Nat.dvd_add_self_right.mpr scanned.aligned
  missed := by
    intro o aligned below
    rcases Nat.lt_or_eq_of_le (le_of_lt_next aligned scanned.aligned below) with below | rfl
    · exact scanned.missed o aligned below
    · exact ⟨hdr, read, no⟩
  before := by
    rw [Nat.add_sub_cancel]
    exact .inr fits
  left := by
    have positive := mtd.positive
    rw [leftover, if_neg (by omega), Nat.add_sub_cancel, read]
    rfl

theorem FitScanned.scan {offset totalsize : Nat} (scanned : FitScanned mtd dt stack offset totalsize)
    (done : fitScan mtd dt offset totalsize = .ok h) : FitEnds mtd dt stack h := by
  fun_induction fitScan mtd dt offset totalsize with
  | case1 => cases done
  | case2 offset totalsize fits hdr read magic =>
    cases done
    exact {
      aligned := scanned.aligned
      missed := scanned.missed
      before := scanned.before
      here := fun _ => ⟨fits, hdr, read, magic, rfl⟩
      behind := fun absurd => by cases absurd }
  | case3 offset totalsize fits hdr read no ih =>
    exact ih (scanned.next fits read (Bool.eq_false_iff.mpr no)) done
  | case4 offset totalsize ended =>
    cases done
    exact {
      aligned := scanned.aligned
      missed := scanned.missed
      before := scanned.before
      here := fun absurd => by cases absurd
      behind := fun _ => ⟨Nat.not_le.mp ended, scanned.left⟩ }

theorem fitEnds_of_scan (done : fitScan mtd dt 0 stack.toNat = .ok h) : FitEnds mtd dt stack h :=
  FitScanned.scan {
    aligned := Nat.dvd_zero _
    missed := fun _ _ below => absurd below (Nat.not_lt_zero _)
    before := .inl rfl
    left := rfl } done

/-- Where a header has no magic the scan can only end because it is the last one. -/
theorem FitEnds.behind_of_missed (ends : FitEnds mtd dt stack h) {hdr : List UInt8}
    (read : fitHeaderAt mtd dt h.offset = .ok hdr) (no : fitMagic hdr = false) :
    mtd.size < h.offset + hdrLen := by
  cases found : h.found with
  | false => exact (ends.behind found).1
  | true =>
    obtain ⟨-, hdr', read', magic, -⟩ := ends.here found
    rw [read] at read'
    cases read'
    rw [no] at magic
    cases magic

/-- The end of the scan is before no other one. -/
theorem FitEnds.not_lt {h' : FitHeader} (ends : FitEnds mtd dt stack h)
    (ends' : FitEnds mtd dt stack h') : ¬h.offset < h'.offset := by
  intro below
  obtain ⟨hdr, read, no⟩ := ends'.missed h.offset ends.aligned below
  have behind := ends.behind_of_missed read no
  have last : h.offset ≤ h'.offset - mtd.erasesize := by
    have aligned := Nat.dvd_sub ends'.aligned (dvd_refl mtd.erasesize)
    have whole := Nat.le_of_dvd (by omega) ends'.aligned
    exact le_of_lt_next ends.aligned aligned (by omega)
  rcases ends'.before with zero | before
  · omega
  · omega

theorem FitEnds.unique {h' : FitHeader} (ends : FitEnds mtd dt stack h)
    (ends' : FitEnds mtd dt stack h') : h = h' := by
  have same : h.offset = h'.offset :=
    Nat.le_antisymm (Nat.not_lt.mp (ends'.not_lt ends)) (Nat.not_lt.mp (ends.not_lt ends'))
  obtain ⟨found, offset, totalsize⟩ := h
  obtain ⟨found', offset', totalsize'⟩ := h'
  simp only at same
  subst same
  cases found with
  | true =>
    obtain ⟨fits, hdr, read, -, total⟩ := ends.here rfl
    cases found' with
    | true =>
      obtain ⟨-, hdr', read', -, total'⟩ := ends'.here rfl
      simp only at read read' total total'
      rw [read] at read'
      cases read'
      rw [← total, ← total']
    | false =>
      have behind := (ends'.behind rfl).1
      simp only at behind fits
      omega
  | false =>
    have behind := ends.behind rfl
    cases found' with
    | true =>
      have fits := (ends'.here rfl).1
      simp only at behind fits
      omega
    | false =>
      have left : totalsize = totalsize' := behind.2.trans (ends'.behind rfl).2.symm
      rw [left]

/-- A scan that fails has no end. -/
theorem FitScanned.failed {offset totalsize : Nat} {err : Errno}
    (scanned : FitScanned mtd dt stack offset totalsize)
    (failed : fitScan mtd dt offset totalsize = .error err) : ¬FitEnds mtd dt stack h := by
  fun_induction fitScan mtd dt offset totalsize with
  | case1 offset totalsize fits err' unread =>
    intro ends
    rcases Nat.lt_trichotomy offset h.offset with below | rfl | below
    · obtain ⟨hdr, read, -⟩ := ends.missed offset scanned.aligned below
      rw [unread] at read
      cases read
    · cases found : h.found with
      | true =>
        obtain ⟨-, hdr, read, -⟩ := ends.here found
        rw [unread] at read
        cases read
      | false =>
        have behind := (ends.behind found).1
        omega
    · obtain ⟨hdr, read, no⟩ := scanned.missed h.offset ends.aligned below
      have behind := ends.behind_of_missed read no
      omega
  | case2 => cases failed
  | case3 offset totalsize fits hdr read no ih =>
    exact ih (scanned.next fits read (Bool.eq_false_iff.mpr no)) failed
  | case4 => cases failed

theorem fitScan_failed {err : Errno} (failed : fitScan mtd dt 0 stack.toNat = .error err) :
    ¬FitEnds mtd dt stack h :=
  FitScanned.failed {
    aligned := Nat.dvd_zero _
    missed := fun _ _ below => absurd below (Nat.not_lt_zero _)
    before := .inl rfl
    left := rfl } failed

end Scan

/-! ### A large image -/

section Large

variable {mtd : Mtd} {dt : FitDt mtd} {stack : BitVec 32} {h : FitHeader} {memory : Memory}

/-- A kernel that is rounded up is apart from the root filesystem behind it if the end of the image
is one of an eraseblock, or the root filesystem is not right there. -/
theorem large_apart_iff {size rootfsOffset : Nat} {type : PartType} (aligned : mtd.erasesize ∣ h.offset)
    (found : mtd.findRootfsFrom (mtd.word (h.offset + size)) mtd.size = .ok (rootfsOffset, type)) :
    ((⟨kernelName, h.offset, mtd.roundupToEb size⟩ : MtdPartition).Inside mtd.size ∧
        (⟨type.partName, rootfsOffset, mtd.size - rootfsOffset⟩ : MtdPartition).Inside mtd.size ∧
        MtdPartition.Disjoint ⟨kernelName, h.offset, mtd.roundupToEb size⟩
          ⟨type.partName, rootfsOffset, mtd.size - rootfsOffset⟩) ↔
      h.offset + size < 2 ^ mtd.wordBits ∧ 0 < size ∧
        (mtd.erasesize ∣ mtd.word (h.offset + size) ∨
          ∃ err, mtd.checkRootfsMagic (mtd.word (h.offset + size)) = .error err) := by
  have small := mtd.addressable
  have up := mtd.le_roundupToEb size
  obtain ⟨behind, below, magic⟩ := mtd.findRootfsFrom_ok found
  simp only [MtdPartition.Inside, MtdPartition.Disjoint]
  constructor
  · rintro ⟨⟨any, inside⟩, -, apart⟩
    have whole : h.offset + size < 2 ^ mtd.wordBits := by omega
    have some_size : 0 < size := by
      by_contra none
      obtain rfl : size = 0 := by omega
      rw [mtd.roundupToEb_of_dvd (Nat.dvd_zero _)] at any
      omega
    refine ⟨whole, some_size, ?_⟩
    rcases mtd.findRootfsFrom_place found with place | ⟨-, missed⟩
    · left
      rw [mtd.word_of_lt whole] at place ⊢
      have exact_end : mtd.roundupToEb size = size := by omega
      rw [← exact_end]
      exact Nat.dvd_add aligned (mtd.dvd_roundupToEb size)
    · exact .inr missed
  · rintro ⟨whole, any, place⟩
    rw [mtd.word_of_lt whole] at behind place
    have next : h.offset + mtd.roundupToEb size ≤ rootfsOffset := by
      rcases place with boundary | ⟨err, missed⟩
      · rw [mtd.roundupToEb_of_dvd ((Nat.dvd_add_right aligned).mp boundary)]
        exact behind
      · rcases mtd.findRootfsFrom_place found with same | ⟨boundary, -⟩
        · rw [mtd.word_of_lt whole] at same
          rw [same, missed] at magic
          cases magic
        · have room := mtd.roundupToEb_le (Nat.dvd_sub boundary aligned) (show size ≤ _ by omega)
          omega
    omega

/-- **A large image**: what is returned for it. -/
theorem fitLarge_safe_iff (lib : Libfdt) (ends : FitEnds mtd dt stack h) :
    FitSafe mtd dt lib ⟨fitLarge memory mtd dt h, none, none⟩ ↔ LargeGood mtd dt memory h := by
  have sums : mtd.word (h.offset + h.totalsize + dt.offsetStart.toNat) =
      mtd.word (h.offset + mtd.word (h.totalsize + dt.offsetStart.toNat)) := by
    simp only [Mtd.word, Nat.add_assoc, Nat.add_mod_mod]
  unfold LargeGood
  simp only [sums]
  constructor
  · rintro ⟨found, inside, apart, -, -⟩ r place allocated
    have returned : fitLarge memory mtd dt h = .ok [
        ⟨kernelName, h.offset, mtd.roundupToEb (mtd.word (h.totalsize + dt.offsetStart.toNat))⟩,
        ⟨r.2.partName, r.1, mtd.size - r.1⟩] := by
      simp [fitLarge, sums, place, allocated]
    refine ⟨found _ returned (List.cons_ne_nil _ _), (large_apart_iff ends.aligned place).mp ⟨?_, ?_, ?_⟩⟩
    · exact inside _ returned _ (by simp)
    · exact inside _ returned _ (by simp)
    · simpa using apart _ returned
  · intro good
    have parts : ∀ parts, fitLarge memory mtd dt h = .ok parts →
        ∃ r, mtd.findRootfsFrom (mtd.word (h.offset +
            mtd.word (h.totalsize + dt.offsetStart.toNat))) mtd.size = .ok r ∧
          memory.parts = true ∧ parts = [
            ⟨kernelName, h.offset, mtd.roundupToEb (mtd.word (h.totalsize + dt.offsetStart.toNat))⟩,
            ⟨r.2.partName, r.1, mtd.size - r.1⟩] := by
      intro parts returned
      unfold fitLarge at returned
      rw [sums] at returned
      split at returned
      · cases returned
      next r type place =>
        split at returned
        · cases returned
        next allocated =>
          cases returned
          exact ⟨(r, type), place, by simpa using allocated, rfl⟩
    refine ⟨?_, ?_, ?_, ?_, ?_⟩
    · intro parts' returned _
      obtain ⟨r, place, allocated, -⟩ := parts parts' returned
      exact (good r place allocated).1
    · intro parts' returned p member
      obtain ⟨r, place, allocated, rfl⟩ := parts parts' returned
      obtain ⟨kernel, rootfs, -⟩ := (large_apart_iff ends.aligned place).mpr (good r place allocated).2
      simp only [List.mem_cons, List.not_mem_nil, or_false] at member
      rcases member with rfl | rfl
      · exact kernel
      · exact rootfs
    · intro parts' returned
      obtain ⟨r, place, allocated, rfl⟩ := parts parts' returned
      obtain ⟨-, -, apart⟩ := (large_apart_iff ends.aligned place).mpr (good r place allocated).2
      simpa using apart
    · intro parts' returned p member named
      obtain ⟨r, place, allocated, rfl⟩ := parts parts' returned
      simp only [List.mem_cons, List.not_mem_nil, or_false] at member
      rcases member with rfl | rfl
      · cases (show kernelName ≠ rootfsSplitName by decide) named
      · rcases partName_cases r.2 with name | name <;> simp only [name] at named <;>
          cases (show _ ≠ rootfsSplitName by decide) named
    · intro allocated arrived absurd
      cases absurd

end Large

/-! ### A small image -/

/-- Numbers of 32 bits added as if they were signed: the sum is not more than it should be, or far
too much. -/
theorem signed_sum_cases (x y : BitVec 32) {bits : Nat} (wide : bits = 32 ∨ bits = 64) :
    ((y.toInt + x.toInt) % 2 ^ bits).toNat ≤ x.toNat + y.toNat ∨
      bits = 64 ∧ ((y.toInt + x.toInt) % 2 ^ bits).toNat + 2 ^ 32 ≤ x.toNat + y.toNat + 2 ^ 64 := by
  have smallX := x.isLt
  have smallY := y.isLt
  rw [BitVec.toInt_eq_toNat_cond, BitVec.toInt_eq_toNat_cond]
  rcases wide with rfl | rfl
  · left
    split <;> split <;> omega
  · split <;> split <;> omega

section Small

variable {mtd : Mtd} {fit : List UInt8} {image : ImageNode} {images : List ImageNode} {total e : Nat}

theorem externalBase_le (fit : List UInt8) : (externalBase fit).toNat ≤ (fdtTotalsize fit + 3) / 4 * 4 := by
  have mask : (~~~3 : BitVec 32).toNat = upperBits 32 2 := by decide
  rw [externalBase, BitVec.toNat_and, mask, and_upperBits (BitVec.isLt _) (by decide),
    BitVec.toNat_add, BitVec.toNat_ofNat]
  change 2 ^ 2 * ((fdtTotalsize fit % 2 ^ 32 + 3) % 2 ^ 32 / 2 ^ 2) ≤ _
  omega

/-- An image with data has an end, and where the code sees it. -/
theorem imgTotal_cases (counted : imgTotal mtd fit image = some total) :
    ∃ e, imageEnd fit image = some e ∧
      (total ≤ e ∨ mtd.wordBits = 64 ∧ total + 2 ^ 32 ≤ e + 2 ^ 64) := by
  unfold imgTotal fitImageGetDataAndSize at counted
  unfold imageEnd
  cases positioned : image.dataPosition with
  | some position =>
    cases sized : image.dataSize with
    | none => simp [positioned, sized] at counted
    | some len =>
      simp only [positioned, sized, Option.map_some, Option.some.injEq] at counted
      subst counted
      exact ⟨_, rfl, signed_sum_cases position len mtd.wide⟩
  | none =>
    cases placed : image.dataOffset with
    | some offset =>
      cases sized : image.dataSize with
      | none => simp [positioned, placed, sized] at counted
      | some len =>
        simp only [positioned, placed, sized, Option.map_some, Option.some.injEq] at counted
        subst counted
        refine ⟨(fdtTotalsize fit + 3) / 4 * 4 + offset.toNat + len.toNat, rfl, ?_⟩
        have base := externalBase_le fit
        have sum : (offset + externalBase fit).toNat ≤
            offset.toNat + (externalBase fit).toNat := by
          rw [BitVec.toNat_add]
          exact Nat.mod_le _ _
        rcases signed_sum_cases (offset + externalBase fit) len mtd.wide with
          less | ⟨bits, less⟩
        · left
          omega
        · right
          exact ⟨bits, by omega⟩
    | none =>
      cases inner : image.data with
      | none => simp [positioned, placed, inner] at counted
      | some data =>
        simp only [positioned, placed, inner, Option.map_some, Option.some.injEq] at counted
        subst counted
        refine ⟨_, rfl, .inl ?_⟩
        have whole : ((data.2.toNat : Int) + data.1.toNat) % 2 ^ mtd.wordBits =
            ((data.1.toNat + data.2.toNat) % 2 ^ mtd.wordBits : Nat) := by
          push_cast
          rw [Int.add_comm]
        rw [whole, Int.toNat_natCast]
        exact Nat.mod_le _ _

/-- The largest of the ends. -/
theorem maxSize_spec {start max : Nat} (counted : maxSize mtd fit images start = some max) :
    (∀ image ∈ images, ∃ total, imgTotal mtd fit image = some total ∧ total ≤ max) ∧ start ≤ max ∧
      (max = start ∨ ∃ image ∈ images, imgTotal mtd fit image = some max) := by
  induction images generalizing start with
  | nil =>
    cases counted
    simp
  | cons image rest ih =>
    unfold maxSize at counted
    split at counted
    · cases counted
    next total first =>
      obtain ⟨later, least, attained⟩ := ih counted
      have both : start ≤ max ∧ total ≤ max := by
        split at least <;> omega
      refine ⟨?_, both.1, ?_⟩
      · intro other member
        rcases List.mem_cons.mp member with rfl | member
        · exact ⟨total, first, both.2⟩
        · exact later other member
      · rcases attained with same | ⟨other, member, same⟩
        · split at same
          · exact .inl same
          · exact .inr ⟨image, by simp, by rw [first, same]⟩
        · exact .inr ⟨other, List.mem_cons_of_mem _ member, same⟩

/-- The partition behind the data begins where it should and is inside the device, exactly if the
largest end, as the code computes it, leaves something of the device and is rounded up to all of
the ends. -/
theorem rootfsData_right_iff {h : FitHeader} {max : Nat} (inside : h.offset < mtd.size)
    (aligned : mtd.erasesize ∣ h.offset) (counted : maxSize mtd fit images 0 = some max) :
    ((rootfsData mtd h max).Inside mtd.size ∧
        ∀ image ∈ images, ∃ e, imageEnd fit image = some e ∧ h.offset + e ≤ (rootfsData mtd h max).offset) ↔
      h.offset + mtd.roundupToEb max < mtd.size ∧
        ∀ image ∈ images, ∀ e, imageEnd fit image = some e → e ≤ mtd.roundupToEb max := by
  obtain ⟨every, -, attained⟩ := maxSize_spec counted
  have small := mtd.addressable
  have narrow := mtd.narrow
  have word : 2 ^ mtd.wordBits ≤ 2 ^ 64 := by
    rcases mtd.wide with bits | bits <;> rw [bits]
    decide
  have up := mtd.roundupToEb_lt max
  constructor
  · rintro ⟨⟨any, ends⟩, behind⟩
    simp only [rootfsData] at any ends behind
    have below : (h.offset + mtd.roundupToEb max) % 2 ^ 64 < mtd.size := by
      by_contra beyond
      omega
    have whole : h.offset + mtd.roundupToEb max < 2 ^ 64 := by
      rcases attained with rfl | ⟨image, member, total⟩
      · rw [mtd.roundupToEb_of_dvd (Nat.dvd_zero _)]
        omega
      · obtain ⟨e, is_end, size⟩ := imgTotal_cases total
        obtain ⟨e', is_end', after⟩ := behind image member
        rw [is_end] at is_end'
        cases is_end'
        rcases size with less | ⟨-, less⟩
        · have room := mtd.roundupToEb_le (Nat.dvd_sub mtd.aligned aligned) (show max ≤ _ by omega)
          omega
        · omega
    rw [Nat.mod_eq_of_lt whole] at below behind
    refine ⟨below, ?_⟩
    intro image member e is_end
    obtain ⟨e', is_end', after⟩ := behind image member
    rw [is_end] at is_end'
    cases is_end'
    omega
  · rintro ⟨below, behind⟩
    have offset : (rootfsData mtd h max).offset = h.offset + mtd.roundupToEb max :=
      Nat.mod_eq_of_lt (by omega)
    refine ⟨?_, ?_⟩
    · rw [MtdPartition.Inside, offset]
      simp only [rootfsData, Nat.mod_eq_of_lt (show h.offset + mtd.roundupToEb max < 2 ^ 64 by omega)]
      omega
    · intro image member
      obtain ⟨total, is_total, -⟩ := every image member
      obtain ⟨e, is_end, -⟩ := imgTotal_cases is_total
      rw [offset]
      exact ⟨e, is_end, Nat.add_le_add_left (behind image member e is_end) _⟩

end Small

section Runs

variable {mtd : Mtd} {dt : FitDt mtd} {stack : BitVec 32} {h : FitHeader} {memory : Memory}
  {lib : Libfdt}

/-- A run that returns no partitions is safe if its buffer is. -/
theorem fitSafe_nothing_iff {run : FitRun} (nothing : ∀ parts, run.ret = .ok parts → parts = []) :
    FitSafe mtd dt lib run ↔
      ∀ allocated arrived, run.buffer = some (allocated, arrived) → arrived ≤ allocated := by
  constructor
  · exact fun safe => safe.buffered
  · intro buffered
    refine ⟨fun parts returned any => absurd (nothing parts returned) any, ?_, ?_, ?_, buffered⟩
    · intro parts returned p member
      rw [nothing parts returned] at member
      cases member
    · intro parts returned
      rw [nothing parts returned]
      exact .nil
    · intro parts returned p member
      rw [nothing parts returned] at member
      cases member

theorem read_inside {offset len : Nat} {bytes : List UInt8} (read : mtd.read offset len = .ok bytes) :
    offset < mtd.size := by
  unfold Mtd.read at read
  split at read
  · cases read
  next room => omega

/-- A run that returns the partition behind the data. -/
theorem fitSafe_rootfsData_iff {max start : Nat} {fit : List UInt8} {images : List ImageNode}
    {buffer : Option (Nat × Nat)} (taken : lib.images fit = some images) :
    FitSafe mtd dt lib ⟨.ok [rootfsData mtd h max], buffer, some (start, fit)⟩ ↔
      (∃ o, MagicAt mtd dt o) ∧ (rootfsData mtd h max).Inside mtd.size ∧
        (∀ image ∈ images, ∃ e, imageEnd fit image = some e ∧
          start + e ≤ (rootfsData mtd h max).offset) ∧
        ∀ allocated arrived, buffer = some (allocated, arrived) → arrived ≤ allocated := by
  constructor
  · rintro ⟨found, inside, -, data, buffered⟩
    refine ⟨found _ rfl (List.cons_ne_nil _ _), inside _ rfl _ (by simp), ?_, buffered⟩
    obtain ⟨start', fit', images', tree, taken', behind⟩ := data _ rfl (rootfsData mtd h max) (List.mem_singleton_self _) rfl
    cases tree
    rw [taken] at taken'
    cases taken'
    exact behind
  · rintro ⟨found, inside, behind, buffered⟩
    refine ⟨fun _ _ _ => found, ?_, ?_, ?_, buffered⟩
    · intro parts returned p member
      cases returned
      rw [List.mem_singleton.mp member]
      exact inside
    · intro parts returned
      cases returned
      exact List.pairwise_singleton _ _
    · intro parts returned p member _
      cases returned
      rw [List.mem_singleton.mp member]
      exact ⟨start, fit, images, rfl, taken, behind⟩

/-- What the tree of a small image does to a run whose buffer has room for it. -/
theorem fitWalk_safe_iff {fit : List UInt8} {buffer : Option (Nat × Nat)}
    (inside : h.offset < mtd.size) (aligned : mtd.erasesize ∣ h.offset)
    (buffered : ∀ allocated arrived, buffer = some (allocated, arrived) → arrived ≤ allocated) :
    FitSafe mtd dt lib ⟨fitWalk lib memory mtd h fit, buffer, some (h.offset, fit)⟩ ↔
      (memory.parts = true → ∀ images max, lib.images fit = some images →
        maxSize mtd fit images 0 = some max →
          (∃ o, MagicAt mtd dt o) ∧ h.offset + mtd.roundupToEb max < mtd.size ∧
            ∀ image ∈ images, ∀ e, imageEnd fit image = some e → e ≤ mtd.roundupToEb max) := by
  unfold fitWalk
  cases taken : lib.images fit with
  | none =>
    refine iff_of_true ((fitSafe_nothing_iff fun _ absurd => by cases absurd).mpr buffered) ?_
    intro _ _ _ absurd
    cases absurd
  | some images =>
    dsimp only
    cases counted : maxSize mtd fit images 0 with
    | none =>
      refine iff_of_true ((fitSafe_nothing_iff ?_).mpr buffered) ?_
      · intro parts returned
        cases returned
        rfl
      · intro _ images' max' taken' counted'
        cases taken'
        rw [counted] at counted'
        cases counted'
    | some max =>
      cases allocated : memory.parts with
      | false =>
        refine iff_of_true ((fitSafe_nothing_iff fun _ absurd => by cases absurd).mpr buffered) ?_
        intro absurd
        cases absurd
      | true =>
        have right := rootfsData_right_iff inside aligned counted
        simp only [Bool.not_true, Bool.false_eq_true, if_false]
        rw [fitSafe_rootfsData_iff taken]
        constructor
        · rintro ⟨found, rest, behind, -⟩ _ images' max' taken' counted'
          cases taken'
          rw [counted] at counted'
          cases counted'
          exact ⟨found, right.mp ⟨rest, behind⟩⟩
        · intro good
          obtain ⟨found, room⟩ := good trivial images max rfl counted
          obtain ⟨rest, behind⟩ := right.mpr room
          exact ⟨found, rest, behind, buffered⟩

/-- **A small image**: what a run does with it. -/
theorem fitSmall_safe_iff (ends : FitEnds mtd dt stack h) :
    FitSafe mtd dt lib (fitSmall lib memory mtd dt h) ↔ SmallGood mtd dt lib memory h := by
  obtain ⟨parts, buf⟩ := memory
  unfold fitSmall SmallGood
  cases read : mtd.read h.offset (mtd.word (h.totalsize + dt.offsetStart.toNat)) with
  | error err =>
    refine iff_of_true ((fitSafe_nothing_iff fun _ absurd => by cases absurd).mpr ?_)
      (fun _ absurd => by cases absurd)
    intro allocated arrived same
    cases same
    exact Nat.zero_le _
  | ok bytes =>
    simp only [Except.ok.injEq, forall_eq', Memory.mk.injEq]
    cases buf with
    | false =>
      simp only [Bool.not_false, if_true]
      rw [fitSafe_nothing_iff fun _ absurd => by cases absurd]
      simp
    | true =>
      simp only [Bool.not_true, Bool.false_eq_true, if_false, if_true, and_true]
      by_cases few : bytes.length ≤ h.totalsize
      · have buffered : ∀ allocated arrived, some (h.totalsize, bytes.length) =
            some (allocated, arrived) → arrived ≤ allocated := by
          intro allocated arrived same
          cases same
          exact few
        rw [fitWalk_safe_iff (read_inside read) ends.aligned buffered]
        exact ⟨fun good => ⟨few, good⟩, fun good => good.2⟩
      · exact iff_of_false (fun safe => few (safe.buffered _ _ rfl)) fun good => few good.1

end Runs

/-- A FIT image of `0x1800` bytes, and a root filesystem right behind it. -/
def unroundedFit : Mtd where
  wordBits := 32
  endian := .big
  size := 0x4000
  erasesize := 0x1000
  bytes i :=
    if i < 0x1800 then [0xd0, 0x0d, 0xfe, 0xed, 0x00, 0x00, 0x18, 0x00].getD i 0
    else [0x68, 0x73, 0x71, 0x73].getD (i - 0x1800) 0
  fault _ _ := none
  wide := wide_32
  addressable := by decide
  positive := by decide
  narrow := by decide
  aligned := by decide

def unroundedDt : FitDt unroundedFit where
  offsetStart := 0
  cmdlineMatch := true
  room := by decide

end FirewallCore.Mtdsplit
