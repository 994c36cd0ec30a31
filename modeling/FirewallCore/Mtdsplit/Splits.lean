import FirewallCore.Mtdsplit.Images

/-!
When the scanning splitters give sane partitions.

A scan ends at the first header that passes all the checks, or at the end of the
partition with the header of the last eraseblock (`scan_spec`). What the parsers
make of the second case is never right; of the first one it depends on sums of
header fields that nothing bounds.
-/

namespace FirewallCore.Mtdsplit

open FirewallCore.Lib

section Scan

variable {η : Type} (mtd : Mtd) (probe : Nat → Option η) (imageSize : η → Nat)

/-- The header at an offset passes all the checks, that of the size included. -/
def Accepted (offset : Nat) (header : η) : Prop :=
  probe offset = some header ∧ Fits mtd imageSize offset header

/-- The first eraseblock with such a header. -/
structure First (offset : Nat) (header : η) : Prop where
  aligned : mtd.erasesize ∣ offset
  inside : offset < mtd.size
  accepted : Accepted mtd probe imageSize offset header
  least : ∀ o h, mtd.erasesize ∣ o → o < offset → ¬Accepted mtd probe imageSize o h

def NoneAccepted : Prop :=
  ∀ o h, mtd.erasesize ∣ o → o < mtd.size → ¬Accepted mtd probe imageSize o h

/-- The header in the last eraseblock before an offset. -/
def headerBefore (offset : Nat) : Option η :=
  if offset = 0 then none else probe (offset - mtd.erasesize)

variable {mtd probe imageSize} {offset : Nat} {header : Option η}

theorem le_of_lt_next {o : Nat} (aligned : mtd.erasesize ∣ o) (aligned' : mtd.erasesize ∣ offset)
    (below : o < offset + mtd.erasesize) : o ≤ offset := by
  obtain ⟨a, rfl⟩ := aligned
  obtain ⟨b, rfl⟩ := aligned'
  rw [← Nat.mul_succ] at below
  exact Nat.mul_le_mul_left _ (Nat.lt_succ_iff.mp (lt_of_mul_lt_mul_left below (Nat.zero_le _)))

theorem next_le (aligned : mtd.erasesize ∣ offset) (below : offset < mtd.size) :
    offset + mtd.erasesize ≤ mtd.size := by
  obtain ⟨a, rfl⟩ := aligned
  obtain ⟨n, whole⟩ := mtd.aligned
  rw [whole] at below ⊢
  rw [← Nat.mul_succ]
  exact Nat.mul_le_mul_left _ (Nat.succ_le_iff.mpr (lt_of_mul_lt_mul_left below (Nat.zero_le _)))

/-- Where the loop is when it found nothing so far. -/
structure Scanned (mtd : Mtd) (probe : Nat → Option η) (imageSize : η → Nat) (offset : Nat)
    (header : Option η) : Prop where
  aligned : mtd.erasesize ∣ offset
  inside : offset ≤ mtd.size
  earlier : ∀ o h, mtd.erasesize ∣ o → o < offset → ¬Accepted mtd probe imageSize o h
  last : header = headerBefore mtd probe offset

/-- One more eraseblock without a header that is accepted. -/
theorem Scanned.next (scanned : Scanned mtd probe imageSize offset header)
    (below : offset < mtd.size) (rejected : ∀ h, ¬Accepted mtd probe imageSize offset h) :
    Scanned mtd probe imageSize (offset + mtd.erasesize) (probe offset) where
  aligned := Nat.dvd_add_self_right.mpr scanned.aligned
  inside := next_le scanned.aligned below
  earlier := by
    intro o h aligned before
    rcases Nat.lt_or_eq_of_le (le_of_lt_next aligned scanned.aligned before) with before | rfl
    · exact scanned.earlier o h aligned before
    · exact rejected h
  last := by
    have positive := mtd.positive
    rw [headerBefore, if_neg (by omega), Nat.add_sub_cancel]

theorem Scanned.scan (scanned : Scanned mtd probe imageSize offset header) :
    (∃ o h, First mtd probe imageSize o h ∧
        Mtdsplit.scan mtd probe imageSize offset header = (o, some h)) ∨
      NoneAccepted mtd probe imageSize ∧ Mtdsplit.scan mtd probe imageSize offset header =
        (mtd.size, headerBefore mtd probe mtd.size) := by
  fun_induction Mtdsplit.scan mtd probe imageSize offset header with
  | case1 offset header below missed ih =>
    have next := scanned.next below (by simp [Accepted, missed])
    rw [missed] at next
    exact ih next
  | case2 offset header below found probed fits =>
    exact .inl ⟨offset, found, ⟨scanned.aligned, below, ⟨probed, fits⟩, scanned.earlier⟩, rfl⟩
  | case3 offset header below found probed exceeds ih =>
    have next := scanned.next below (by simpa [Accepted, probed] using exceeds)
    rw [probed] at next
    exact ih next
  | case4 offset header ended =>
    obtain rfl : offset = mtd.size := Nat.le_antisymm scanned.inside (Nat.not_lt.mp ended)
    exact .inr ⟨scanned.earlier, by rw [scanned.last]⟩

/-- **The scan**: it stops at the first header that is accepted, or else at the end, with the
header of the last eraseblock. -/
theorem scan_spec (mtd : Mtd) (probe : Nat → Option η) (imageSize : η → Nat) :
    (∃ o h, First mtd probe imageSize o h ∧ scan mtd probe imageSize 0 none = (o, some h)) ∨
      NoneAccepted mtd probe imageSize ∧
        scan mtd probe imageSize 0 none = (mtd.size, headerBefore mtd probe mtd.size) :=
  Scanned.scan {
    aligned := Nat.dvd_zero _
    inside := Nat.zero_le _
    earlier := fun _ _ _ below => absurd below (Nat.not_lt_zero _)
    last := rfl }

/-- There is one first eraseblock. -/
theorem First.unique {o o' : Nat} {h h' : η} (first : First mtd probe imageSize o h)
    (first' : First mtd probe imageSize o' h') : o = o' ∧ h = h' := by
  have same : o = o' := by
    rcases Nat.lt_trichotomy o o' with below | same | below
    · exact absurd first.accepted (first'.least o h first.aligned below)
    · exact same
    · exact absurd first'.accepted (first.least o' h' first'.aligned below)
  subst same
  have read := first.accepted.1.symm.trans first'.accepted.1
  exact ⟨rfl, Option.some.inj read⟩

theorem First.not_noneAccepted {o : Nat} {h : η} (first : First mtd probe imageSize o h) :
    ¬NoneAccepted mtd probe imageSize :=
  fun none => none o h first.aligned first.inside first.accepted

end Scan

/-! ### Sane partitions -/

/-- A partition begins in an eraseblock that the parser accepted. -/
def Begins (mtd : Mtd) (accepted : Nat → Prop) (p : MtdPartition) : Prop :=
  ∃ o, mtd.erasesize ∣ o ∧ o < mtd.size ∧ accepted o ∧ o ≤ p.offset ∧ p.offset < o + mtd.erasesize

/-- The kernel begins in an eraseblock with an accepted header, and it and the root filesystem are
not empty, inside the device and apart. -/
def Sane (mtd : Mtd) (accepted : Nat → Prop) (parts : List MtdPartition) : Prop :=
  ∃ kernel rootfs, (parts = [kernel, rootfs] ∨ parts = [rootfs, kernel]) ∧
    kernel.name = kernelName ∧ (rootfs.name = rootfsName ∨ rootfs.name = ubiName) ∧
    Begins mtd accepted kernel ∧ kernel.Inside mtd.size ∧ rootfs.Inside mtd.size ∧
    kernel.Disjoint rootfs

section Sane

variable {mtd : Mtd} {accepted : Nat → Prop} {kernel rootfs : MtdPartition}

theorem name_ne_kernel {p : MtdPartition} (named : p.name = rootfsName ∨ p.name = ubiName) :
    p.name ≠ kernelName := by
  rcases named with named | named <;> rw [named] <;> decide

theorem sane_pair (named : kernel.name = kernelName)
    (named' : rootfs.name = rootfsName ∨ rootfs.name = ubiName) {parts : List MtdPartition}
    (pair : parts = [kernel, rootfs] ∨ parts = [rootfs, kernel]) :
    Sane mtd accepted parts ↔ Begins mtd accepted kernel ∧ kernel.Inside mtd.size ∧
      rootfs.Inside mtd.size ∧ kernel.Disjoint rootfs := by
  constructor
  · rintro ⟨kernel', rootfs', pair', kernelNamed, rootfsNamed, sane⟩
    have same : kernel' = kernel ∧ rootfs' = rootfs := by
      rcases pair with rfl | rfl <;> rcases pair' with pair' | pair' <;> cases pair'
      · exact ⟨rfl, rfl⟩
      · exact absurd named (name_ne_kernel rootfsNamed)
      · exact absurd named (name_ne_kernel rootfsNamed)
      · exact ⟨rfl, rfl⟩
    obtain ⟨rfl, rfl⟩ := same
    exact sane
  · intro sane
    exact ⟨kernel, rootfs, pair, named, named', sane⟩

theorem partName_cases (type : PartType) :
    type.partName = rootfsName ∨ type.partName = ubiName := by
  cases type <;> simp [PartType.partName]

end Sane

/-! ### uImages and jImages -/

/-- When a parser of images is right: with a root filesystem in the first eraseblock, the first
image that is accepted behind it does not wrap around, and if none is accepted, the last eraseblock
has no header at all. -/
def ImageGood (mtd : Mtd) (probe : Nat → Option Nat) : Prop :=
  ∀ type, mtd.checkRootfsMagic 0 = .ok type →
    (∀ o size, First mtd probe id o size → 0 < o → o + size < 2 ^ mtd.wordBits) ∧
    (NoneAccepted mtd probe id → headerBefore mtd probe mtd.size = none)

section Images

variable {mtd : Mtd} {probe : Nat → Option Nat}

/-- The offsets that a parser of images accepts. -/
def imageAccepted (mtd : Mtd) (probe : Nat → Option Nat) (o : Nat) : Prop :=
  ∃ size, Accepted mtd probe id o size

/-- An image in the first eraseblock is split at the root filesystem behind it. -/
theorem sane_image_first {size rootfsOffset : Nat} {type : PartType}
    (first : First mtd probe id 0 size) (words : size < 2 ^ mtd.wordBits) (any : size ≠ 0)
    (found : mtd.findRootfsFrom (mtd.word (0 + size)) mtd.size = .ok (rootfsOffset, type)) :
    Sane mtd (imageAccepted mtd probe) [⟨kernelName, 0, rootfsOffset - 0⟩,
      ⟨type.partName, rootfsOffset, mtd.size - rootfsOffset⟩] := by
  obtain ⟨behind, below, -⟩ := mtd.findRootfsFrom_ok found
  rw [Nat.zero_add, Mtd.word, Nat.mod_eq_of_lt words] at behind
  refine (sane_pair rfl (partName_cases type) (.inl rfl)).mpr ⟨?_, ?_, ?_, ?_⟩
  · exact ⟨0, Nat.dvd_zero _, first.inside, ⟨size, first.accepted⟩, le_rfl, by
      simpa using mtd.positive⟩
  · simp only [MtdPartition.Inside]
    omega
  · simp only [MtdPartition.Inside]
    omega
  · simp only [MtdPartition.Disjoint]
    omega

/-- An image behind the root filesystem is sane if the end of it does not wrap around. -/
theorem sane_image_later {o size : Nat} {type : PartType} (first : First mtd probe id o size)
    (later : o ≠ 0) (any : size ≠ 0) :
    Sane mtd (imageAccepted mtd probe) [⟨type.partName, 0, o⟩, ⟨kernelName, o, size⟩] ↔
      o + size < 2 ^ mtd.wordBits := by
  have fits : mtd.word (o + size) ≤ mtd.size := first.accepted.2
  have small := mtd.addressable
  have inside := first.inside
  rw [sane_pair rfl (partName_cases type) (.inr rfl)]
  simp only [MtdPartition.Inside, MtdPartition.Disjoint]
  constructor
  · rintro ⟨-, ⟨-, kernel⟩, -⟩
    omega
  · intro whole
    rw [Mtd.word, Nat.mod_eq_of_lt whole] at fits
    refine ⟨⟨o, first.aligned, inside, ⟨size, first.accepted⟩, le_rfl, ?_⟩, ?_, ?_, ?_⟩
    · simpa using mtd.positive
    · omega
    · omega
    · omega

/-- A kernel at the end of the partition is not inside of it. -/
theorem not_sane_image_end {size : Nat} {type : PartType} :
    ¬Sane mtd (imageAccepted mtd probe) [⟨type.partName, 0, mtd.size⟩,
      ⟨kernelName, mtd.size, size⟩] := by
  rw [sane_pair rfl (partName_cases type) (.inr rfl)]
  simp only [MtdPartition.Inside]
  omega

/-- A header that is left over at the end claims a size. -/
theorem headerBefore_ne_zero {η : Type} {probe : Nat → Option η} {imageSize : η → Nat} {h : η}
    (none : NoneAccepted mtd probe imageSize) (left : headerBefore mtd probe mtd.size = some h) :
    mtd.size ≠ 0 ∧ imageSize h ≠ 0 := by
  unfold headerBefore at left
  split at left
  · cases left
  next some_blocks =>
    refine ⟨some_blocks, ?_⟩
    intro zero
    have positive := mtd.positive
    have last : mtd.erasesize ∣ mtd.size - mtd.erasesize := Nat.dvd_sub mtd.aligned dvd_rfl
    refine none (mtd.size - mtd.erasesize) h last (by omega) ⟨left, ?_⟩
    rw [Fits, zero, Mtd.word]
    exact (Nat.mod_le _ _).trans (by omega)

/-- Without an image there are no partitions. -/
theorem parseImage_nothing {memory : Memory} {o : Nat} {found : Option Nat}
    {parts : List MtdPartition} (scanned : scan mtd probe id 0 none = (o, found))
    (nothing : found.getD 0 = 0) : parseImage memory mtd probe ≠ .ok parts := by
  obtain ⟨partsAllocated, bufAllocated⟩ := memory
  cases partsAllocated with
  | false => simp [parseImage]
  | true => cases bufAllocated <;> simp [parseImage, scanned, nothing]

/-- What is returned for an image in the first eraseblock. -/
theorem parseImage_ahead {memory : Memory} {size : Nat} {parts : List MtdPartition}
    (scanned : scan mtd probe id 0 none = (0, some size)) (any : size ≠ 0)
    (done : parseImage memory mtd probe = .ok parts) :
    ∃ rootfsOffset type, mtd.findRootfsFrom (mtd.word (0 + size)) mtd.size =
        .ok (rootfsOffset, type) ∧
      parts = [⟨kernelName, 0, rootfsOffset - 0⟩,
        ⟨type.partName, rootfsOffset, mtd.size - rootfsOffset⟩] := by
  simp only [parseImage, scanned, Option.getD_some, any, if_false, if_true] at done
  split at done
  · cases done
  split at done
  · cases done
  split at done
  · cases done
  next rootfsOffset type found =>
    split at done
    · cases done
    · cases done
      exact ⟨rootfsOffset, type, found, rfl⟩

/-- What is returned for an image behind the first eraseblock, or at the end of all. -/
theorem parseImage_behind {memory : Memory} {o size : Nat} {parts : List MtdPartition}
    (scanned : scan mtd probe id 0 none = (o, some size)) (any : size ≠ 0) (later : o ≠ 0) :
    parseImage memory mtd probe = .ok parts ↔ memory = ⟨true, true⟩ ∧
      ∃ type, mtd.checkRootfsMagic 0 = .ok type ∧
        parts = [⟨type.partName, 0, o⟩, ⟨kernelName, o, size⟩] := by
  obtain ⟨partsAllocated, bufAllocated⟩ := memory
  cases partsAllocated with
  | false => simp [parseImage]
  | true =>
    cases bufAllocated with
    | false => simp [parseImage]
    | true =>
      cases magic : mtd.checkRootfsMagic 0 with
      | error err => simp [parseImage, scanned, any, later, magic]
      | ok type => simp [parseImage, scanned, any, later, magic, eq_comm]

/-- A flash whose first image is accepted. -/
theorem imageGood_iff {o size : Nat} (first : First mtd probe id o size) :
    ImageGood mtd probe ↔
      ∀ type, mtd.checkRootfsMagic 0 = .ok type → o ≠ 0 → o + size < 2 ^ mtd.wordBits := by
  constructor
  · intro good type magic later
    exact (good type magic).1 o size first (Nat.pos_of_ne_zero later)
  · intro whole type magic
    refine ⟨?_, fun none => absurd none first.not_noneAccepted⟩
    intro o' size' first' later
    obtain ⟨rfl, rfl⟩ := first.unique first'
    exact whole type magic later.ne'

/-- **Parsers of images**: they return sane partitions for what is in the flash exactly if the
flash is good. -/
theorem parseImage_sane_iff (words : ∀ o size, probe o = some size → size < 2 ^ mtd.wordBits) :
    (∀ memory parts, parseImage memory mtd probe = .ok parts →
      Sane mtd (imageAccepted mtd probe) parts) ↔ ImageGood mtd probe := by
  rcases scan_spec mtd probe id with ⟨o, size, first, scanned⟩ | ⟨none, scanned⟩
  · rw [imageGood_iff first]
    by_cases any : size = 0
    · refine iff_of_true (fun _ _ done => absurd done (parseImage_nothing scanned any)) ?_
      intro _ _ _
      rw [any]
      exact first.inside.trans mtd.addressable
    by_cases later : o = 0
    · subst later
      refine iff_of_true ?_ (fun _ _ absurd => (absurd rfl).elim)
      intro memory parts done
      obtain ⟨rootfsOffset, type, found, rfl⟩ := parseImage_ahead scanned any done
      exact sane_image_first first (words 0 size first.accepted.1) any found
    · constructor
      · intro sane type magic _
        have done := (parseImage_behind scanned any later).mpr ⟨rfl, type, magic, rfl⟩
        exact (sane_image_later first later any).mp (sane _ _ done)
      · intro whole memory parts done
        obtain ⟨-, type, magic, rfl⟩ := (parseImage_behind scanned any later).mp done
        exact (sane_image_later first later any).mpr (whole type magic later)
  · cases left : headerBefore mtd probe mtd.size with
    | none =>
      rw [left] at scanned
      refine iff_of_true (fun _ _ done => absurd done (parseImage_nothing scanned rfl)) ?_
      intro type magic
      exact ⟨fun o size first _ => absurd none first.not_noneAccepted, fun _ => left⟩
    | some size =>
      rw [left] at scanned
      obtain ⟨blocks, any⟩ := headerBefore_ne_zero none left
      constructor
      · intro sane type magic
        have done := (parseImage_behind scanned any blocks).mpr ⟨rfl, type, magic, rfl⟩
        exact absurd (sane _ _ done) not_sane_image_end
      · intro good memory parts done
        obtain ⟨-, type, magic, rfl⟩ := (parseImage_behind scanned any blocks).mp done
        rw [(good type magic).2 none] at left
        cases left

theorem toNat_emod_lt (n : Int) (bits : Nat) : (n % 2 ^ bits).toNat < 2 ^ bits := by
  have modulus : (0 : Int) < 2 ^ bits := Int.pow_pos (by decide)
  rw [Int.toNat_lt (Int.emod_nonneg n modulus.ne')]
  exact_mod_cast Int.emod_lt_of_pos n modulus

theorem uimageProbe_lt {dt : UimageDt mtd} {o size : Nat} (probed : uimageProbe mtd dt o = some size) :
    size < 2 ^ mtd.wordBits := by
  unfold uimageProbe at probed
  split at probed
  · cases probed
  split at probed
  · cases probed
  simp only at probed
  split at probed
  · cases probed
    exact toNat_emod_lt _ _
  · cases probed

theorem jimageProbe_lt {o size : Nat} (probed : jimageProbe mtd o = some size) :
    size < 2 ^ mtd.wordBits := by
  unfold jimageProbe at probed
  split at probed
  · cases probed
  split at probed
  · cases probed
    exact Nat.mod_lt _ (Nat.two_pow_pos _)
  · cases probed

end Images

/-! ### TRX images -/

/-- The offsets that the TRX parser accepts. -/
def trxAccepted (mtd : Mtd) (o : Nat) : Prop :=
  ∃ hdr, Accepted mtd (trxProbe mtd) TrxHeader.len o hdr

/-- When the TRX parser is right: in the first image that is accepted the offset of the root
filesystem is the end of the partition or inside of it, and then the one of the kernel is before it,
in an eraseblock with an accepted header; and if no image is accepted, the last eraseblock has no
header or one with a root filesystem at the end of the partition. -/
def TrxGood (mtd : Mtd) : Prop :=
  (∀ o hdr, First mtd (trxProbe mtd) TrxHeader.len o hdr → hdr.len ≠ 0 →
    hdr.rootfsAt mtd o = mtd.size ∨
      hdr.kernelAt mtd o < hdr.rootfsAt mtd o ∧ hdr.rootfsAt mtd o < mtd.size ∧
        Begins mtd (trxAccepted mtd) ⟨kernelName, hdr.kernelAt mtd o, 0⟩) ∧
  (NoneAccepted mtd (trxProbe mtd) TrxHeader.len → ∀ hdr,
    headerBefore mtd (trxProbe mtd) mtd.size = some hdr →
      hdr.rootfsAt mtd mtd.size = mtd.size)

section Trx

variable {mtd : Mtd}

/-- A difference of offsets. -/
theorem word_sub {a b : Nat} (small : a < 2 ^ mtd.wordBits) (small' : b < 2 ^ mtd.wordBits) :
    mtd.word (a + 2 ^ mtd.wordBits - b) = if b ≤ a then a - b else a + 2 ^ mtd.wordBits - b := by
  unfold Mtd.word
  split
  next below =>
    rw [show a + 2 ^ mtd.wordBits - b = a - b + 2 ^ mtd.wordBits by omega, Nat.add_mod_right,
      Nat.mod_eq_of_lt (by omega)]
  · exact Nat.mod_eq_of_lt (by omega)

/-- What the parser returns for a header. -/
theorem parseTrx_ok {memory : Memory} {o : Nat} {hdr : TrxHeader} {parts : List MtdPartition}
    (scanned : scan mtd (trxProbe mtd) TrxHeader.len 0 none = (o, some hdr)) :
    parseTrx memory mtd = .ok parts ↔ memory.parts = true ∧ hdr.len ≠ 0 ∧
      hdr.rootfsAt mtd o ≠ mtd.size ∧
      parts = [⟨kernelName, hdr.kernelAt mtd o,
          mtd.word (hdr.rootfsAt mtd o + 2 ^ mtd.wordBits - hdr.kernelAt mtd o)⟩,
        ⟨rootfsName, hdr.rootfsAt mtd o,
          mtd.word (mtd.size + 2 ^ mtd.wordBits - hdr.rootfsAt mtd o)⟩] := by
  have ends : mtd.word (mtd.size + 2 ^ mtd.wordBits - hdr.rootfsAt mtd o) = 0 ↔
      hdr.rootfsAt mtd o = mtd.size := by
    have small : hdr.rootfsAt mtd o < 2 ^ mtd.wordBits := mtd.word_lt _
    rw [word_sub mtd.addressable small]
    split <;> omega
  obtain ⟨partsAllocated, bufAllocated⟩ := memory
  cases partsAllocated with
  | false => simp [parseTrx]
  | true =>
    by_cases any : hdr.len = 0
    · simp [parseTrx, scanned, any]
    · by_cases atEnd : hdr.rootfsAt mtd o = mtd.size
      · have zero := ends.mpr atEnd
        simp only [parseTrx, scanned, any, zero]
        simp [atEnd]
      · simp [parseTrx, scanned, any, ends, atEnd, eq_comm]

/-- The partitions of a header are sane if its offsets are in order. -/
theorem sane_trx {o : Nat} {hdr : TrxHeader} :
    Sane mtd (trxAccepted mtd) [⟨kernelName, hdr.kernelAt mtd o,
          mtd.word (hdr.rootfsAt mtd o + 2 ^ mtd.wordBits - hdr.kernelAt mtd o)⟩,
        ⟨rootfsName, hdr.rootfsAt mtd o,
          mtd.word (mtd.size + 2 ^ mtd.wordBits - hdr.rootfsAt mtd o)⟩] ↔
      hdr.kernelAt mtd o < hdr.rootfsAt mtd o ∧ hdr.rootfsAt mtd o < mtd.size ∧
        Begins mtd (trxAccepted mtd) ⟨kernelName, hdr.kernelAt mtd o, 0⟩ := by
  have small := mtd.addressable
  have kernel : hdr.kernelAt mtd o < 2 ^ mtd.wordBits := mtd.word_lt _
  have rootfs : hdr.rootfsAt mtd o < 2 ^ mtd.wordBits := mtd.word_lt _
  rw [sane_pair rfl (.inl rfl) (.inl rfl), word_sub rootfs kernel, word_sub small rootfs]
  simp only [MtdPartition.Inside, MtdPartition.Disjoint]
  constructor
  · rintro ⟨begins, ⟨kernelAny, kernelInside⟩, ⟨rootfsAny, rootfsInside⟩, -⟩
    refine ⟨?_, ?_, begins⟩
    · by_cases below : hdr.kernelAt mtd o ≤ hdr.rootfsAt mtd o
      · rw [if_pos below] at kernelAny
        omega
      · rw [if_neg below] at kernelInside
        omega
    · by_cases below : hdr.rootfsAt mtd o ≤ mtd.size
      · omega
      · rw [if_neg below] at rootfsInside
        omega
  · rintro ⟨ordered, inside, begins⟩
    rw [if_pos ordered.le, if_pos inside.le]
    refine ⟨begins, ?_, ?_, ?_⟩ <;> omega

/-- **The TRX parser**: it returns sane partitions exactly if the headers are good. -/
theorem parseTrx_sane_iff :
    (∀ memory parts, parseTrx memory mtd = .ok parts → Sane mtd (trxAccepted mtd) parts) ↔
      TrxGood mtd := by
  have given {o : Nat} {hdr : TrxHeader}
      (scanned : scan mtd (trxProbe mtd) TrxHeader.len 0 none = (o, some hdr)) :
      (∀ memory parts, parseTrx memory mtd = .ok parts → Sane mtd (trxAccepted mtd) parts) ↔
        (hdr.len ≠ 0 → hdr.rootfsAt mtd o = mtd.size ∨
          hdr.kernelAt mtd o < hdr.rootfsAt mtd o ∧ hdr.rootfsAt mtd o < mtd.size ∧
            Begins mtd (trxAccepted mtd) ⟨kernelName, hdr.kernelAt mtd o, 0⟩) := by
    constructor
    · intro sane any
      by_cases atEnd : hdr.rootfsAt mtd o = mtd.size
      · exact .inl atEnd
      · have done := (@parseTrx_ok mtd ⟨true, true⟩ o hdr _ scanned).mpr ⟨rfl, any, atEnd, rfl⟩
        exact .inr (sane_trx.mp (sane _ _ done))
    · intro good memory parts done
      obtain ⟨-, any, notEnd, rfl⟩ := (parseTrx_ok scanned).mp done
      exact sane_trx.mpr ((good any).resolve_left notEnd)
  rcases scan_spec mtd (trxProbe mtd) TrxHeader.len with ⟨o, hdr, first, scanned⟩ | ⟨none, scanned⟩
  · rw [given scanned]
    constructor
    · intro good
      refine ⟨?_, fun none => absurd none first.not_noneAccepted⟩
      intro o' hdr' first'
      obtain ⟨rfl, rfl⟩ := first.unique first'
      exact good
    · intro good
      exact good.1 o hdr first
  · cases left : headerBefore mtd (trxProbe mtd) mtd.size with
    | none =>
      rw [left] at scanned
      refine iff_of_true ?_ ⟨fun o hdr first => absurd none first.not_noneAccepted, ?_⟩
      · intro memory parts done
        exfalso
        simp only [parseTrx, scanned] at done
        split at done <;> cases done
      · intro _ hdr left'
        rw [left] at left'
        cases left'
    | some hdr =>
      rw [left] at scanned
      obtain ⟨-, any⟩ := headerBefore_ne_zero none left
      rw [given scanned]
      constructor
      · intro good
        refine ⟨fun o hdr first => absurd none first.not_noneAccepted, ?_⟩
        intro _ hdr' left'
        rw [left] at left'
        cases left'
        rcases good any with atEnd | ⟨-, -, o, aligned, inside, ⟨h, accepted⟩, -⟩
        · exact atEnd
        · exact absurd accepted (none o h aligned inside)
      · intro good _
        exact .inl (good.2 none hdr left)

end Trx

/-- **The scanning splitters** give sane partitions exactly for what is good for each of them. -/
theorem splits_sane_iff (mtd : Mtd) (dt : UimageDt mtd) :
    ((∀ memory parts, parseUimage memory mtd dt = .ok parts →
        Sane mtd (imageAccepted mtd (uimageProbe mtd dt)) parts) ↔
      ImageGood mtd (uimageProbe mtd dt)) ∧
    ((∀ memory parts, parseJimage memory mtd = .ok parts →
        Sane mtd (imageAccepted mtd (jimageProbe mtd)) parts) ↔
      ImageGood mtd (jimageProbe mtd)) ∧
    ((∀ memory parts, parseTrx memory mtd = .ok parts → Sane mtd (trxAccepted mtd) parts) ↔
      TrxGood mtd) :=
  ⟨parseImage_sane_iff fun _ _ => uimageProbe_lt, parseImage_sane_iff fun _ _ => jimageProbe_lt,
    parseTrx_sane_iff⟩

/-- A header of a uImage that claims `0x20000` bytes. -/
def sampleHeader : List UInt8 :=
  [0x27, 0x05, 0x19, 0x56] ++ List.replicate 8 0 ++ [0x00, 0x02, 0x00, 0x00] ++
    List.replicate 12 0 ++ [0x05, 0x05, 0x02, 0x03]

/-- A root filesystem, and in the last eraseblock a uImage that is too large. -/
def lateUimage : Mtd where
  wordBits := 32
  endian := .big
  size := 0x20000
  erasesize := 0x10000
  bytes i :=
    if i < 0x10000 then [0x68, 0x73, 0x71, 0x73].getD i 0
    else sampleHeader.getD (i - 0x10000) 0
  fault _ _ := none
  wide := by decide
  addressable := by decide
  positive := by decide
  narrow := by decide
  aligned := by decide

/-- The kernel partition begins where the flash ends. -/
theorem lateUimage_outside :
    parseUimage ⟨true, true⟩ lateUimage (.default lateUimage) =
        .ok [⟨rootfsName, 0, 0x20000⟩, ⟨kernelName, 0x20000, 0x20040⟩] ∧
      ¬Sane lateUimage (imageAccepted lateUimage (uimageProbe lateUimage (.default lateUimage)))
        [⟨rootfsName, 0, 0x20000⟩, ⟨kernelName, 0x20000, 0x20040⟩] := by
  have none_first : uimageProbe lateUimage (.default lateUimage) 0 = none := by decide
  have last : uimageProbe lateUimage (.default lateUimage) 0x10000 = some 0x20040 := by decide
  have exceeds : ¬Fits lateUimage id 0x10000 0x20040 := by decide
  have magic : lateUimage.checkRootfsMagic 0 = .ok .squashfs := by decide
  have scanned : scan lateUimage (uimageProbe lateUimage (.default lateUimage)) id 0 none =
      (0x20000, some 0x20040) := by
    rw [scan, if_pos (by decide), none_first]
    change scan lateUimage _ id 0x10000 none = _
    rw [scan, if_pos (by decide), last]
    change (if Fits lateUimage id 0x10000 0x20040 then _ else _) = _
    rw [if_neg exceeds]
    change scan lateUimage _ id 0x20000 _ = _
    rw [scan, if_neg (by decide)]
  constructor
  · exact (parseImage_behind scanned (by decide) (by decide)).mpr ⟨rfl, .squashfs, magic, rfl⟩
  · exact @not_sane_image_end lateUimage _ 0x20040 .squashfs

end FirewallCore.Mtdsplit
