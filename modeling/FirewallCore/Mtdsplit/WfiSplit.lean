import FirewallCore.Mtdsplit.WfiSearch

/-!
The partitions of whole-flash images. An image in one half of the flash is
placed as it should be; where it cannot be parsed the two halves are placed, but
an error is returned.
-/

namespace FirewallCore.Mtdsplit

open FirewallCore.Lib

/-! ### What has to be so -/

section Statement

/-- The eraseblock begins with the magic number of UBI. -/
def UbiAt (mtd : Mtd) (offs : Nat) : Prop :=
  ∃ magic, mtd.readHeader offs 4 = .ok magic ∧ Endian.big.number magic = UBI_MAGIC

/-- The first such eraseblock from an offset on. -/
def FindsUbi (mtd : Mtd) (stop : Int) (offs rootfsOff : Nat) : Prop :=
  (rootfsOff : Int) < stop ∧ UbiAt mtd rootfsOff ∧
    ∃ blocks, rootfsOff = offs + blocks * mtd.erasesize ∧
      ∀ before < blocks, ¬UbiAt mtd (offs + before * mtd.erasesize)

/-- Where the parts of an image begin. -/
structure Image where
  cfeOff : Option Nat
  kernelOff : Nat
  rootfsOff : Nat
  deriving DecidableEq, Repr

variable (flash : WholeFlash)

def Image.parts (image : Image) (area : MtdPartition) : List MtdPartition :=
  WholeFlash.imageParts area.offset area.size image.cfeOff image.kernelOff image.rootfsOff

/-- There is an image in a part of the flash: its `cferam` unless that is left out, behind that its
kernel and behind the kernel its root filesystem. -/
structure Holds (area : MtdPartition) (cfePart : Bool) (image : Image) : Prop where
  cfePart : image.cfeOff.isSome = cfePart
  cferam : ∀ cfeOff, image.cfeOff = some cfeOff →
    Finds flash.toMtd flash.cferamName false (area.offset + area.size) area.offset false ⟨cfeOff, none⟩
  kernel : Finds flash.toMtd KERNEL_NAME false (area.offset + area.size) (flash.kernelStart area.offset image.cfeOff)
    false ⟨image.kernelOff, none⟩
  rootfs : FindsUbi flash.toMtd (area.offset + area.size) (image.kernelOff + flash.erasesize) image.rootfsOff

/-- The boot flag of an image. -/
def HasFlag (heap : Nat → UInt8) (area : MtdPartition) (bf : Int) : Prop :=
  (∃ file, Finds flash.toMtd CFERAM_NAME true (area.offset + area.size) area.offset false file ∧
    bf = WholeFlash.cferamBootflagValue heap file.out) ∨
  (¬∃ file, Finds flash.toMtd CFERAM_NAME true (area.offset + area.size) area.offset false file) ∧
    bf = WholeFlash.noFlag

/-- As many partitions are placed as is returned: those of the image with the higher boot flag and the
other half of the flash, or the two halves if there is no such image. They are inside of the flash, and
those of the image inside of its half. -/
structure PlacedRight (bf1 bf2 : Int) (cfePart : Bool) (run : WfiRun) : Prop where
  counted : run.ret = .ok run.placed.length
  layout : (∃ image, Holds flash (flash.images bf1 bf2).1 cfePart image ∧
      run.placed = image.parts (flash.images bf1 bf2).1 ++ [(flash.images bf1 bf2).2]) ∨
    (¬∃ image, Holds flash (flash.images bf1 bf2).1 cfePart image) ∧ run.placed = [flash.img1, flash.img2]
  inside : ∀ p ∈ run.placed, p.offset + p.size ≤ flash.size
  within : ∀ image, Holds flash (flash.images bf1 bf2).1 cfePart image →
    ∀ p ∈ image.parts (flash.images bf1 bf2).1, (flash.images bf1 bf2).1.offset ≤ p.offset ∧
      p.offset + p.size ≤ (flash.images bf1 bf2).1.offset + (flash.images bf1 bf2).1.size

/-- The splitter for two images with a `cferam` returns, and what it places is right. -/
structure SplitRight (heap1 heap2 : Nat → UInt8) : Prop where
  returns : ∃ fuel, Returns (flash.mtdsplitParseBcmWfiSplit heap1 heap2 fuel)
  right : ∀ fuel run, flash.mtdsplitParseBcmWfiSplit heap1 heap2 fuel = .ok run →
    ∃ bf1 bf2, HasFlag flash heap1 flash.img1 bf1 ∧ HasFlag flash heap2 flash.img2 bf2 ∧
      PlacedRight flash bf1 bf2 true run

/-- So does the one for two images with boot flags of their own. -/
structure SerRight (mtdBf1 mtdBf2 : Option Mtd) : Prop where
  returns : ∃ fuel, Returns (flash.mtdsplitParseSerWfi mtdBf1 mtdBf2 fuel)
  right : ∀ fuel run, flash.mtdsplitParseSerWfi mtdBf1 mtdBf2 fuel = .ok run →
    ∃ bf1 bf2, mtdBf1 = some bf1 ∧ mtdBf2 = some bf2 ∧
      PlacedRight flash (WholeFlash.serFlags bf1 bf2).1 (WholeFlash.serFlags bf1 bf2).2.1 false run

/-- The search for the `cferam` of an image is good. -/
def CferamGood (area : MtdPartition) : Prop :=
  SearchGood flash.toMtd CFERAM_NAME true (area.offset + area.size) area.offset false

end Statement

/-! ### The root filesystem -/

section Ubi

variable {mtd : Mtd} {stop : Int} {offs rootfsOff : Nat}

theorem not_findsUbi_behind (behind : ¬(offs : Int) < stop) : ¬FindsUbi mtd stop offs rootfsOff := by
  rintro ⟨below, -, blocks, rfl, -⟩
  have := Nat.le_add_right offs (blocks * mtd.erasesize)
  omega

theorem findsUbi_here_iff (below : (offs : Int) < stop) (here : UbiAt mtd offs) :
    FindsUbi mtd stop offs rootfsOff ↔ rootfsOff = offs := by
  constructor
  · rintro ⟨-, -, blocks, rfl, before⟩
    cases blocks with
    | zero => rw [Nat.zero_mul, Nat.add_zero]
    | succ blocks =>
      have first := before 0 (Nat.succ_pos _)
      rw [Nat.zero_mul, Nat.add_zero] at first
      exact absurd here first
  · rintro rfl
    exact ⟨below, here, 0, by rw [Nat.zero_mul, Nat.add_zero], fun _ before => absurd before (Nat.not_lt_zero _)⟩

theorem findsUbi_later_iff (missing : ¬UbiAt mtd offs) :
    FindsUbi mtd stop offs rootfsOff ↔ FindsUbi mtd stop (offs + mtd.erasesize) rootfsOff := by
  have shift : ∀ blocks, offs + (blocks + 1) * mtd.erasesize = offs + mtd.erasesize + blocks * mtd.erasesize := by
    intro blocks
    rw [Nat.succ_mul]
    omega
  unfold FindsUbi
  refine and_congr_right fun _ => and_congr_right fun ubi => ?_
  constructor
  · rintro ⟨blocks, rfl, before⟩
    cases blocks with
    | zero =>
      rw [Nat.zero_mul, Nat.add_zero] at ubi
      exact absurd ubi missing
    | succ blocks =>
      refine ⟨blocks, shift blocks, fun earlier less => ?_⟩
      rw [← shift]
      exact before (earlier + 1) (Nat.succ_lt_succ less)
  · rintro ⟨blocks, rfl, before⟩
    refine ⟨blocks + 1, (shift blocks).symm, fun earlier less => ?_⟩
    cases earlier with
    | zero => rwa [Nat.zero_mul, Nat.add_zero]
    | succ earlier =>
      rw [shift]
      exact before earlier (Nat.lt_of_succ_lt_succ less)

theorem ubifsFrom_ok_iff : mtd.ubifsFrom stop offs = .ok rootfsOff ↔ FindsUbi mtd stop offs rootfsOff := by
  fun_induction Mtd.ubifsFrom mtd stop offs with
  | case1 offs below err failed ih =>
    rw [ih]
    refine (findsUbi_later_iff ?_).symm
    rintro ⟨magic, read, -⟩
    rw [failed] at read
    cases read
  | case2 offs below magic read right =>
    rw [findsUbi_here_iff below ⟨magic, read, right⟩, Except.ok.injEq, eq_comm]
  | case3 offs below magic read wrong ih =>
    rw [ih]
    refine (findsUbi_later_iff ?_).symm
    rintro ⟨magic', read', right⟩
    rw [read] at read'
    cases read'
    exact wrong right
  | case4 offs behind => simp only [reduceCtorEq, not_findsUbi_behind behind]

theorem FindsUbi.between (finds : FindsUbi mtd stop offs rootfsOff) :
    offs ≤ rootfsOff ∧ (rootfsOff : Int) < stop := by
  obtain ⟨below, -, blocks, same, -⟩ := finds
  exact ⟨same ▸ Nat.le_add_right _ _, below⟩

end Ubi

/-! ### Images -/

section Images

/-- What `parse_bcm_wfi` makes of an image. -/
def placed (image : Image) (area : MtdPartition) : WfiRun :=
  ⟨.ok (image.parts area).length, image.parts area, false⟩

variable {flash : WholeFlash} {area : MtdPartition} {cfePart : Bool} {image image' : Image} {run run' : WfiRun}
  {fuel fuel' : Nat} {name : List UInt8} {outName : Bool} {stop : Int} {offs : Nat} {valid : Bool}
  {file file' : FoundFile}

theorem Finds.unique {mtd : Mtd} (finds : Finds mtd name outName stop offs valid file)
    (finds' : Finds mtd name outName stop offs valid file') : file = file' := by
  obtain ⟨fuel, done⟩ := findFrom_ok_iff.mpr finds
  obtain ⟨fuel', done'⟩ := findFrom_ok_iff.mpr finds'
  have same := (findFrom_mono (le_max_left fuel fuel') done).symm.trans
    (findFrom_mono (le_max_right fuel fuel') done')
  cases same
  rfl

theorem Finds.between {mtd : Mtd} (finds : Finds mtd name outName stop offs valid file) :
    offs ≤ file.offs ∧ (file.offs : Int) < stop := by
  obtain ⟨flag, buf, node, arrives, -⟩ := finds
  exact arrives.between

theorem Finds.out_none {mtd : Mtd} (finds : Finds mtd name false stop offs valid file) : file.out = none := by
  obtain ⟨flag, buf, node, -, -, -, -, taken⟩ := finds
  rw [takeFile, if_neg Bool.false_ne_true, Except.ok.injEq] at taken
  rw [← taken]

/-- The end of a part of the flash, as the searches behind its beginning compute it. -/
theorem stop_eq (start off size : Nat) : (start : Int) + (size - (start - off)) = off + size := by omega

theorem jffs2FindFile_ok_iff : (∃ fuel, flash.jffs2FindFile name outName fuel offs stop = .ok (.ok file)) ↔
    Finds flash.toMtd name outName (offs + stop) offs false file :=
  findFrom_ok_iff

theorem length_parts (image : Image) (area : MtdPartition) :
    (image.parts area).length = if image.cfeOff.isSome then 4 else 3 := by
  unfold Image.parts WholeFlash.imageParts
  cases image.cfeOff <;> rfl

theorem parseKernel_ok {cfeOff : Option Nat}
    (parsed : flash.parseKernel fuel area.offset area.size cfeOff = .ok run) :
    (∃ kernelOff rootfsOff, Finds flash.toMtd KERNEL_NAME false (area.offset + area.size)
        (flash.kernelStart area.offset cfeOff) false ⟨kernelOff, none⟩ ∧
      FindsUbi flash.toMtd (area.offset + area.size) (kernelOff + flash.erasesize) rootfsOff ∧
        run = placed ⟨cfeOff, kernelOff, rootfsOff⟩ area) ∨ ∃ err, run = ⟨.error err, [], false⟩ := by
  obtain ⟨kernel, searched, parsed⟩ := bind_eq_ok_iff.mp parsed
  cases kernel with
  | error err =>
    cases parsed
    exact .inr ⟨err, rfl⟩
  | ok kernel =>
    have finds := jffs2FindFile_ok_iff.mp ⟨fuel, searched⟩
    rw [stop_eq] at finds
    obtain ⟨kernelOff, out⟩ := kernel
    obtain rfl := finds.out_none
    dsimp only at parsed
    cases found : flash.ubifsFind (kernelOff + flash.erasesize)
        (area.size - ((kernelOff + flash.erasesize : Nat) - area.offset)) with
    | error err =>
      rw [found] at parsed
      cases parsed
      exact .inr ⟨err, rfl⟩
    | ok rootfsOff =>
      rw [found] at parsed
      rw [Mtd.ubifsFind, stop_eq, ubifsFrom_ok_iff] at found
      cases parsed
      refine .inl ⟨kernelOff, rootfsOff, finds, found, ?_⟩
      rw [placed, length_parts]
      rfl

theorem parseKernel_holds (holds : Holds flash area cfePart image) :
    ∃ fuel, flash.parseKernel fuel area.offset area.size image.cfeOff = .ok (placed image area) := by
  have finds := holds.kernel
  rw [← stop_eq] at finds
  obtain ⟨fuel, searched⟩ := jffs2FindFile_ok_iff.mpr finds
  have found := ubifsFrom_ok_iff.mpr holds.rootfs
  rw [← stop_eq (image.kernelOff + flash.erasesize)] at found
  refine ⟨fuel, ?_⟩
  rw [WholeFlash.parseKernel, searched, ok_bind]
  dsimp only
  rw [Mtd.ubifsFind, found, placed, length_parts]
  rfl

theorem jffs2FindFile_mono (more : fuel ≤ fuel') {found : Except Errno FoundFile}
    (done : flash.jffs2FindFile name outName fuel offs stop = .ok found) :
    flash.jffs2FindFile name outName fuel' offs stop = .ok found :=
  findFrom_mono more done

theorem parseKernel_mono (more : fuel ≤ fuel') {off size : Nat} {cfeOff : Option Nat}
    (parsed : flash.parseKernel fuel off size cfeOff = .ok run) :
    flash.parseKernel fuel' off size cfeOff = .ok run := by
  obtain ⟨kernel, searched, parsed⟩ := bind_eq_ok_iff.mp parsed
  exact bind_eq_ok_iff.mpr ⟨kernel, jffs2FindFile_mono more searched, parsed⟩

theorem parseBcmWfi_mono (more : fuel ≤ fuel') {off size : Nat}
    (parsed : flash.parseBcmWfi fuel off size cfePart = .ok run) :
    flash.parseBcmWfi fuel' off size cfePart = .ok run := by
  cases cfePart with
  | true =>
    obtain ⟨cfe, searched, parsed⟩ := bind_eq_ok_iff.mp parsed
    refine bind_eq_ok_iff.mpr ⟨cfe, jffs2FindFile_mono more searched, ?_⟩
    cases cfe with
    | error err => exact parsed
    | ok cfe => exact parseKernel_mono more parsed
  | false => exact parseKernel_mono more parsed

theorem parseBcmWfi_ok (parsed : flash.parseBcmWfi fuel area.offset area.size cfePart = .ok run) :
    (∃ image, Holds flash area cfePart image ∧ run = placed image area) ∨ ∃ err, run = ⟨.error err, [], false⟩ := by
  unfold WholeFlash.parseBcmWfi at parsed
  cases cfePart with
  | true =>
    obtain ⟨cfe, searched, parsed⟩ := bind_eq_ok_iff.mp parsed
    cases cfe with
    | error err =>
      cases parsed
      exact .inr ⟨err, rfl⟩
    | ok cfe =>
      have finds := jffs2FindFile_ok_iff.mp ⟨fuel, searched⟩
      obtain ⟨cfeOff, out⟩ := cfe
      obtain rfl := finds.out_none
      rcases parseKernel_ok parsed with ⟨kernelOff, rootfsOff, kernel, rootfs, same⟩ | failed
      · refine .inl ⟨⟨some cfeOff, kernelOff, rootfsOff⟩, ⟨rfl, fun cfeOff' same => ?_, kernel, rootfs⟩, same⟩
        cases same
        exact finds
      · exact .inr failed
  | false =>
    rcases parseKernel_ok parsed with ⟨kernelOff, rootfsOff, kernel, rootfs, same⟩ | failed
    · exact .inl ⟨⟨none, kernelOff, rootfsOff⟩, ⟨rfl, nofun, kernel, rootfs⟩, same⟩
    · exact .inr failed

theorem Holds.parses (holds : Holds flash area cfePart image) :
    ∃ fuel, flash.parseBcmWfi fuel area.offset area.size cfePart = .ok (placed image area) := by
  obtain ⟨fuel, parsed⟩ := parseKernel_holds holds
  have part := holds.cfePart
  cases there : image.cfeOff with
  | none =>
    rw [there] at part parsed
    obtain rfl : cfePart = false := part.symm
    exact ⟨fuel, parsed⟩
  | some cfeOff =>
    rw [there] at part parsed
    obtain rfl : cfePart = true := part.symm
    obtain ⟨fuel', searched⟩ := jffs2FindFile_ok_iff.mpr (holds.cferam cfeOff there)
    refine ⟨max fuel fuel', bind_eq_ok_iff.mpr ⟨_, jffs2FindFile_mono (le_max_right _ _) searched, ?_⟩⟩
    exact parseKernel_mono (le_max_left _ _) parsed

/-- Where there is an image the parser places it, and nothing but that. -/
theorem Holds.parsed_eq (holds : Holds flash area cfePart image)
    (parsed : flash.parseBcmWfi fuel area.offset area.size cfePart = .ok run) : run = placed image area := by
  obtain ⟨fuel', parsed'⟩ := holds.parses
  have same := (parseBcmWfi_mono (le_max_left fuel fuel') parsed).symm.trans
    (parseBcmWfi_mono (le_max_right fuel fuel') parsed')
  exact Except.ok.inj same

theorem parseBcmWfi_spec (parsed : flash.parseBcmWfi fuel area.offset area.size cfePart = .ok run) :
    (∃ image, Holds flash area cfePart image ∧ run = placed image area) ∨
      (¬∃ image, Holds flash area cfePart image) ∧ ∃ err, run = ⟨.error err, [], false⟩ := by
  rcases parseBcmWfi_ok parsed with found | ⟨err, rfl⟩
  · exact .inl found
  · refine .inr ⟨?_, err, rfl⟩
    rintro ⟨image, holds⟩
    cases holds.parsed_eq parsed

/-- The parts of an image are inside of where it is. -/
theorem Holds.within (holds : Holds flash area cfePart image) (p : MtdPartition) (part : p ∈ image.parts area) :
    area.offset ≤ p.offset ∧ p.offset + p.size ≤ area.offset + area.size := by
  have kernel : flash.kernelStart area.offset image.cfeOff ≤ image.kernelOff ∧
      (image.kernelOff : Int) < area.offset + area.size := holds.kernel.between
  have rootfs := holds.rootfs.between
  unfold Image.parts WholeFlash.imageParts at part
  cases there : image.cfeOff with
  | none =>
    rw [there] at part kernel
    simp only [WholeFlash.kernelStart, List.nil_append, List.mem_cons, List.not_mem_nil, or_false] at part kernel
    rcases part with rfl | rfl | rfl <;> dsimp only <;> omega
  | some cfeOff =>
    have cfe : area.offset ≤ cfeOff ∧ (cfeOff : Int) < area.offset + area.size :=
      (holds.cferam cfeOff there).between
    rw [there] at part kernel
    simp only [WholeFlash.kernelStart, List.cons_append, List.nil_append, List.mem_cons, List.not_mem_nil,
      or_false] at part kernel
    rcases part with rfl | rfl | rfl | rfl <;> dsimp only <;> omega

end Images

/-! ### Two images -/

section Split

variable {flash : WholeFlash} {area : MtdPartition} {bf1 bf2 bf bf' : Int} {cfePart erased : Bool}
  {image : Image} {run parsed : WfiRun} {fuel fuel' : Nat} {heap heap1 heap2 : Nat → UInt8}
  {cfe : Except Errno FoundFile}

theorem hasFlag_of_found (searched : flash.findCferam fuel area = .ok cfe) :
    HasFlag flash heap area (WholeFlash.cferamBootflagValue heap (WholeFlash.outOf cfe)) := by
  cases cfe with
  | ok file => exact .inl ⟨file, jffs2FindFile_ok_iff.mp ⟨fuel, searched⟩, rfl⟩
  | error err =>
    refine .inr ⟨?_, rfl⟩
    rintro ⟨file, finds⟩
    obtain ⟨fuel', searched'⟩ := jffs2FindFile_ok_iff.mpr finds
    have same := (jffs2FindFile_mono (le_max_left fuel fuel') searched).symm.trans
      (jffs2FindFile_mono (le_max_right fuel fuel') searched')
    cases same

theorem HasFlag.unique (flag : HasFlag flash heap area bf) (flag' : HasFlag flash heap area bf') : bf = bf' := by
  rcases flag with ⟨file, finds, rfl⟩ | ⟨missing, rfl⟩
  · rcases flag' with ⟨file', finds', rfl⟩ | ⟨missing, rfl⟩
    · rw [finds.unique finds']
    · exact absurd ⟨file, finds⟩ missing
  · rcases flag' with ⟨file', finds', rfl⟩ | ⟨-, rfl⟩
    · exact absurd ⟨file', finds'⟩ missing
    · rfl

theorem cferamGood_iff : (∃ fuel, Returns (flash.findCferam fuel area)) ↔ CferamGood flash area :=
  findFrom_returns_iff

/-- The two halves are the whole of the flash. -/
theorem images_inside (flash : WholeFlash) (bf1 bf2 : Int) :
    (flash.images bf1 bf2).1.offset + (flash.images bf1 bf2).1.size ≤ flash.size ∧
      (flash.images bf1 bf2).2.offset + (flash.images bf1 bf2).2.size ≤ flash.size := by
  unfold WholeFlash.images WholeFlash.img1 WholeFlash.img2
  split <;> dsimp only <;> omega

theorem placedRight_of_holds (holds : Holds flash (flash.images bf1 bf2).1 cfePart image) :
    PlacedRight flash bf1 bf2 cfePart ⟨.ok ((image.parts (flash.images bf1 bf2).1).length + 1),
      image.parts (flash.images bf1 bf2).1 ++ [(flash.images bf1 bf2).2], erased⟩ := by
  obtain ⟨active, inactive⟩ := images_inside flash bf1 bf2
  constructor
  · simp only [List.length_append, List.length_singleton]
  · exact .inl ⟨image, holds, rfl⟩
  · intro p part
    rcases List.mem_append.mp part with part | part
    · exact (holds.within p part).2.trans active
    · rw [List.mem_singleton.mp part]
      exact inactive
  · exact fun image' holds' => holds'.within

/-- What is placed behind an image. -/
theorem placeImages_placed (area inactive : MtdPartition) :
    flash.placeImages inactive (placed image area) =
      ⟨.ok ((image.parts area).length + 1), image.parts area ++ [inactive], false⟩ := by
  unfold placed WholeFlash.placeImages
  dsimp only
  rw [List.take_length]

theorem split_spec (split : flash.mtdsplitParseBcmWfiSplit heap1 heap2 fuel = .ok run) :
    ∃ bf1 bf2, HasFlag flash heap1 flash.img1 bf1 ∧ HasFlag flash heap2 flash.img2 bf2 ∧ ∃ parsed,
      flash.parseBcmWfi fuel (flash.images bf1 bf2).1.offset (flash.images bf1 bf2).1.size true = .ok parsed ∧
        run = flash.placeImages (flash.images bf1 bf2).2 parsed := by
  obtain ⟨cfe1, searched1, split⟩ := bind_eq_ok_iff.mp split
  obtain ⟨cfe2, searched2, split⟩ := bind_eq_ok_iff.mp split
  obtain ⟨parsed, parses, split⟩ := bind_eq_ok_iff.mp split
  exact ⟨_, _, hasFlag_of_found searched1, hasFlag_of_found searched2, parsed, parses, (Except.ok.inj split).symm⟩

/-- An image that is not there is not counted. -/
theorem holds_of_counted {inactive : MtdPartition} {n : Nat}
    (parses : flash.parseBcmWfi fuel area.offset area.size cfePart = .ok parsed)
    (counted : (flash.placeImages inactive parsed).ret = .ok n) : ∃ image, Holds flash area cfePart image := by
  rcases parseBcmWfi_spec parses with ⟨image, holds, -⟩ | ⟨-, err, rfl⟩
  · exact ⟨image, holds⟩
  · cases counted

theorem splitRight_iff : SplitRight flash heap1 heap2 ↔
    CferamGood flash flash.img1 ∧ CferamGood flash flash.img2 ∧
      ∃ bf1 bf2, HasFlag flash heap1 flash.img1 bf1 ∧ HasFlag flash heap2 flash.img2 bf2 ∧
        ∃ image, Holds flash (flash.images bf1 bf2).1 true image := by
  constructor
  · rintro ⟨⟨fuel, run, split⟩, right⟩
    obtain ⟨_, _, -, -, sound⟩ := right fuel run split
    obtain ⟨cfe1, searched1, rest⟩ := bind_eq_ok_iff.mp split
    obtain ⟨cfe2, searched2, -⟩ := bind_eq_ok_iff.mp rest
    obtain ⟨bf1, bf2, flag1, flag2, parsed, parses, rfl⟩ := split_spec split
    exact ⟨cferamGood_iff.mp ⟨fuel, cfe1, searched1⟩, cferamGood_iff.mp ⟨fuel, cfe2, searched2⟩, bf1, bf2, flag1,
      flag2, holds_of_counted parses sound.counted⟩
  · rintro ⟨good1, good2, bf1, bf2, flag1, flag2, image, holds⟩
    constructor
    · obtain ⟨fuel1, cfe1, searched1⟩ := cferamGood_iff.mpr good1
      obtain ⟨fuel2, cfe2, searched2⟩ := cferamGood_iff.mpr good2
      obtain ⟨fuel3, parses⟩ := holds.parses
      rw [flag1.unique (hasFlag_of_found searched1), flag2.unique (hasFlag_of_found searched2)] at parses
      have most1 : fuel1 ≤ max fuel1 (max fuel2 fuel3) := le_max_left _ _
      have most2 : fuel2 ≤ max fuel1 (max fuel2 fuel3) := (le_max_left _ _).trans (le_max_right _ _)
      have most3 : fuel3 ≤ max fuel1 (max fuel2 fuel3) := (le_max_right _ _).trans (le_max_right _ _)
      exact ⟨_, returns_bind_iff.mpr ⟨cfe1, jffs2FindFile_mono most1 searched1,
        returns_bind_iff.mpr ⟨cfe2, jffs2FindFile_mono most2 searched2,
          returns_bind_iff.mpr ⟨_, parseBcmWfi_mono most3 parses, returns_ok⟩⟩⟩⟩
    · intro fuel run split
      obtain ⟨bf1', bf2', flag1', flag2', parsed, parses, rfl⟩ := split_spec split
      obtain rfl := flag1.unique flag1'
      obtain rfl := flag2.unique flag2'
      refine ⟨bf1, bf2, flag1, flag2, ?_⟩
      rw [holds.parsed_eq parses, placeImages_placed]
      exact placedRight_of_holds holds

theorem ser_eq (dev1 dev2 : Mtd) : flash.mtdsplitParseSerWfi (some dev1) (some dev2) fuel =
    flash.parseBcmWfi fuel
      (flash.images (WholeFlash.serFlags dev1 dev2).1 (WholeFlash.serFlags dev1 dev2).2.1).1.offset
      (flash.images (WholeFlash.serFlags dev1 dev2).1 (WholeFlash.serFlags dev1 dev2).2.1).1.size false >>=
        fun parsed => .ok { flash.placeImages
          (flash.images (WholeFlash.serFlags dev1 dev2).1 (WholeFlash.serFlags dev1 dev2).2.1).2 parsed with
            erased := (WholeFlash.serFlags dev1 dev2).2.2 } := rfl

theorem serRight_iff (mtdBf1 mtdBf2 : Option Mtd) : SerRight flash mtdBf1 mtdBf2 ↔
    ∃ bf1 bf2, mtdBf1 = some bf1 ∧ mtdBf2 = some bf2 ∧ ∃ image,
      Holds flash (flash.images (WholeFlash.serFlags bf1 bf2).1 (WholeFlash.serFlags bf1 bf2).2.1).1 false image := by
  constructor
  · rintro ⟨⟨fuel, run, done⟩, right⟩
    obtain ⟨dev1, dev2, rfl, rfl, sound⟩ := right fuel run done
    rw [ser_eq] at done
    obtain ⟨parsed, parses, same⟩ := bind_eq_ok_iff.mp done
    cases same
    exact ⟨dev1, dev2, rfl, rfl, holds_of_counted parses sound.counted⟩
  · rintro ⟨dev1, dev2, rfl, rfl, image, holds⟩
    constructor
    · obtain ⟨fuel, parses⟩ := holds.parses
      refine ⟨fuel, ?_⟩
      rw [ser_eq]
      exact returns_bind_iff.mpr ⟨_, parses, returns_ok⟩
    · intro fuel run done
      rw [ser_eq] at done
      obtain ⟨parsed, parses, same⟩ := bind_eq_ok_iff.mp done
      refine ⟨dev1, dev2, rfl, rfl, ?_⟩
      rw [← Except.ok.inj same, holds.parsed_eq parses, placeImages_placed]
      exact placedRight_of_holds holds

/-- The search for a file comes to an end inside of the eraseblocks exactly if each one that it arrives at
is good. The splitters return what they placed exactly if the half with the higher boot flag holds an image,
and the searches for the boot flags are good. -/
theorem wholeFlash_right_iff (flash : WholeFlash) :
    (∀ name outName (offs : Nat) (size : Int),
      (∃ fuel, Returns (flash.jffs2FindFile name outName fuel offs size)) ↔
        SearchGood flash.toMtd name outName (offs + size) offs false) ∧
    (∀ heap1 heap2, SplitRight flash heap1 heap2 ↔ CferamGood flash flash.img1 ∧ CferamGood flash flash.img2 ∧
      ∃ bf1 bf2, HasFlag flash heap1 flash.img1 bf1 ∧ HasFlag flash heap2 flash.img2 bf2 ∧
        ∃ image, Holds flash (flash.images bf1 bf2).1 true image) ∧
    ∀ mtdBf1 mtdBf2, SerRight flash mtdBf1 mtdBf2 ↔ ∃ bf1 bf2, mtdBf1 = some bf1 ∧ mtdBf2 = some bf2 ∧ ∃ image,
      Holds flash (flash.images (WholeFlash.serFlags bf1 bf2).1 (WholeFlash.serFlags bf1 bf2).2.1).1 false image :=
  ⟨fun _ _ _ _ => findFrom_returns_iff, fun _ _ => splitRight_iff, serRight_iff⟩

end Split

/-! ### A flash without an image, and an endless search -/

theorem narrow_128K : 0x20000 < 2 ^ 32 := by decide

theorem narrow_4K : 0x1000 < 2 ^ 32 := by decide

theorem positive_4K : 0 < 0x1000 := by decide

/-- Two eraseblocks in which nothing is written. -/
def erasedFlash : WholeFlash where
  wordBits := 32
  endian := .little
  size := 0x40000
  erasesize := 0x20000
  bytes := fun _ => 0xff
  fault := fun _ _ => none
  wide := wide_32
  addressable := by decide
  positive := by decide
  narrow := narrow_128K
  aligned := by decide
  signed := by decide
  brcmCferam := none

/-- The head of a valid entry of length 0. -/
def emptyDirent : List UInt8 :=
  [0x85, 0x19, 0x01, 0xe0, 0x00, 0x00, 0x00, 0x00, 0x00, 0x00, 0x00, 0x00, 0x01, 0x00, 0x00, 0x00, 0x01, 0x00, 0x00, 0x00, 0x02, 0x00, 0x00, 0x00, 0x00, 0x00, 0x00, 0x00, 0x01, 0x04, 0x00, 0x00, 0x4a, 0x0c, 0xef, 0x14]

/-- An eraseblock that begins with it. -/
def endlessFlash : WholeFlash where
  wordBits := 32
  endian := .little
  size := 0x1000
  erasesize := 0x1000
  bytes := fun i => (emptyDirent[i]?).getD 0x00
  fault := fun _ _ => none
  wide := wide_32
  addressable := narrow_4K
  positive := positive_4K
  narrow := narrow_4K
  aligned := by decide
  signed := by decide
  brcmCferam := none

theorem erasedFlash_skipped (offs : Nat) : erasedFlash.readBlock offs = .skipped := by
  unfold Mtd.readBlock
  cases read : erasedFlash.readHeader offs 2 with
  | error err => rfl
  | ok magic =>
    have erased : magic = [0xff, 0xff] := by
      unfold Mtd.readHeader Mtd.read at read
      split at read
      · cases read
      · rename_i buf contents
        split at contents
        · cases contents
        · cases contents
          cases read
          rfl
    rw [erased]
    rfl

theorem endlessFlash_loaded :
    endlessFlash.readBlock 0 = .loaded (endlessFlash.contents 0 0x1000) := by
  have all : (endlessFlash.contents 0 0x1000).length = 0x1000 := by
    rw [Mtd.contents, List.length_map, List.length_range]
  have magic : endlessFlash.readHeader 0 2 = .ok [0x85, 0x19] := rfl
  have block : endlessFlash.read 0 endlessFlash.erasesize = .ok (endlessFlash.contents 0 0x1000) := rfl
  rw [Mtd.readBlock, magic]
  dsimp only
  rw [if_neg (by decide), block]
  exact if_pos all

/-- The entry leads to itself. -/
theorem endlessFlash_around : leadsTo .little (endlessFlash.contents 0 0x1000) KERNEL_NAME 0 =
    inBlock (endlessFlash.contents 0 0x1000) 0 := by
  have node : nodeAt .little (endlessFlash.contents 0 0x1000) KERNEL_NAME 0 = .other := by decide +kernel
  have length : nextNode .little (endlessFlash.contents 0 0x1000) 0 = 0 := by decide +kernel
  rw [leadsTo, node]
  dsimp only
  rw [length]

/-- The halves of a flash without an image are placed, but not counted, and the search in an entry of length 0
never ends. -/
theorem erasedFlash_uncounted : ¬SplitRight erasedFlash (fun _ => 0) (fun _ => 0) ∧
    ¬∃ fuel, Returns (endlessFlash.jffs2FindFile KERNEL_NAME false fuel 0 0x1000) := by
  constructor
  · intro right
    obtain ⟨-, -, bf1, bf2, -, -, image, holds⟩ := splitRight_iff.mp right
    obtain ⟨flag, buf, node, -, loaded, -⟩ := holds.kernel
    rw [erasedFlash_skipped] at loaded
    cases loaded
  · intro returns
    have good : SearchGood endlessFlash.toMtd KERNEL_NAME false 0x1000 0 false := findFrom_returns_iff.mp returns
    have never := (good 0 false _ (.here (by decide)) endlessFlash_loaded).1.never
    have around := endlessFlash_around
    have first : inBlock (endlessFlash.contents 0 0x1000) 0 = some 0 := by
      refine inBlock_some ?_
      rw [Mtd.contents, List.length_map, List.length_range]
      decide
    generalize endlessFlash.contents 0 0x1000 = buf at never around first
    refine never 0 1 0 (by decide) first ?_
    rw [Walks.place, Walks.place, first, Option.bind_some]
    exact around.trans first

end FirewallCore.Mtdsplit
