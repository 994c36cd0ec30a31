import FirewallCore.MtdTool.Dump
import FirewallCore.MtdTool.OneDevice

/-!
Reading back what was written: `mtd_verify` and `mtd_dump` of an image that `mtd_write` stored.

`mtd_verify` reads bad blocks too. `mtd_dump` leaves them out like `mtd_write`, but reads only the bytes
that are left, also of a bad block, and then goes on behind these.
-/

namespace FirewallCore.MtdTool

open FirewallCore.Lib Blocks HashChains

/-! ### Where it is read back -/

/-- What is at the start of a device with an image on its good blocks. -/
def Device.raw (d : Device) (image : List UInt8) : List UInt8 :=
  ((List.range (d.imageBlocks image)).flatMap fun b =>
    if d.isGood b then (blocksOf d.erasesize 0xff image).getD (selected d.isGood 0 b).length []
    else d.block b).take image.length

/-- The last bytes of an image are where the reads of so many bytes arrive behind bad blocks. -/
def Device.TailReads (d : Device) (k : Nat) (image : List UInt8) : Prop :=
  let n := d.imageBlocks image
  let r := image.length - (n - 1) * d.erasesize
  let g := (d.taken n).getLastD 0
  let x := overshoot ((g - behind 0 (d.taken (n - 1))) * d.erasesize) r
  ¬(d.nand = true ∧ 2 ^ 31 ≤ g * d.erasesize + x) ∧
    (((blocksOf d.erasesize 0xff image).getLastD [] ++ d.block (k + g + 1)).drop x).take r =
      image.drop ((n - 1) * d.erasesize)

/-- A dump gives the image: nothing for no image, or its last bytes too. -/
def Device.Dumps (d : Device) (k : Nat) (image : List UInt8) : Prop :=
  (image = [] → d.DumpsNothing (d.seekBlock k)) ∧ (image ≠ [] → d.TailReads k image)

section ReadBack

variable {d : Device} {b g k n pos q r x : Nat} {log : List Op} {image : List UInt8}
  {cs : List (List UInt8)}

/-! ### Devices that differ in their data -/

theorem apply_eq (op : Op) : d.apply op = { d with data := (d.apply op).data } := by cases op <;> rfl

theorem applyAll_eq : d.applyAll log = { d with data := (d.applyAll log).data } := by
  induction log generalizing d with
  | nil => rfl
  | cons op log ih =>
    have step : d.applyAll (op :: log) = (d.apply op).applyAll log := rfl
    rw [step, ih, apply_eq op]

@[simp] theorem isGood_applyAll : (d.applyAll log).isGood = d.isGood := by rw [applyAll_eq]; rfl

@[simp] theorem reach_applyAll : (d.applyAll log).reach = d.reach := by rw [applyAll_eq]; rfl

@[simp] theorem nand_applyAll : (d.applyAll log).nand = d.nand := by rw [applyAll_eq]

/-! ### Where an image fits -/

/-- An offset of less than 2 GiB is one on the device. -/
theorem Device.Fits.seek (fits : d.Fits k n) (some : 0 < n) (small : k * d.erasesize < 2 ^ 31) :
    k < d.blocks := by
  obtain ⟨enough, takes⟩ := fits
  obtain ⟨g, rest, first⟩ : ∃ g rest, d.taken n = g :: rest :=
    List.exists_cons_of_length_pos (by rw [enough]; exact some)
  have takes := (takes g (by rw [first]; exact List.mem_cons_self)).1
  have near : g * d.erasesize < 2 ^ 31 ∨ g = 0 := by
    have member : g ∈ d.taken n := by rw [first]; exact List.mem_cons_self
    have near := (mem_selected.mp (List.mem_of_mem_take member)).2.1
    cases nand : d.nand with
    | true => exact .inl (nand_lt_reach near nand)
    | false =>
      right
      have all : selected d.isGood 0 d.reach = g :: (selected d.isGood 0 d.reach).tail := by
        have head := congrArg List.head? first
        rw [Device.taken, List.head?_take, if_neg some.ne'] at head
        exact List.eq_cons_of_mem_head? head
      obtain ⟨-, -, -, before, -⟩ := selected_eq_cons all
      by_contra positive
      have good := before 0 le_rfl (Nat.pos_of_ne_zero positive)
      rw [Device.isGood, nand] at good
      cases good
  rw [Nat.mod_eq_of_lt] at takes
  · rw [← Nat.succ_mul] at takes
    have inside := Nat.le_of_mul_le_mul_right takes d.positive
    omega
  · rw [Nat.add_mul]
    rcases near with near | rfl
    · omega
    · omega

theorem distinct_pairs : ((d.pairs k cs).map Prod.fst).Nodup := by
  rw [fst_pairs]
  exact (List.pairwise_map.mpr (taken_increasing.imp fun less => Nat.add_lt_add_right less k)).imp
    fun less => less.ne

/-- What the blocks have that an image was written to. -/
theorem map_block_taken (whole : blocksOf d.erasesize 0xff image = cs) (fits : d.Fits k cs.length)
    (seek : k ≤ d.blocks) : (d.taken cs.length).map (fun g =>
      (d.applyAll (d.ops k ((d.taken cs.length).zip cs))).block (k + g)) = cs := by
  obtain ⟨enough, takes⟩ := fits
  have log : d.ops k ((d.taken cs.length).zip cs) = d.fill (d.pairs k cs) :=
    ops_eq_fill seek fun t member => takes _ (List.of_mem_zip member).1
  have first : (d.pairs k cs).map Prod.fst = (d.taken cs.length).map (· + k) := fst_pairs
  have filled := map_block_fill distinct_pairs (lengths_pairs enough whole) (fun t member => by
    have member' : t.1 ∈ (d.pairs k cs).map Prod.fst := List.mem_map_of_mem member
    rw [first] at member'
    obtain ⟨g, member', same⟩ := List.mem_map.mp member'
    rw [← same]
    exact (takes_iff seek).mp (takes g member'))
  rw [first, snd_pairs enough, List.map_map, ← log] at filled
  simp only [Nat.add_comm k]
  exact filled

/-- The last block that is taken. -/
theorem taken_succ (enough : (d.taken (q + 1)).length = q + 1) : ∃ g later,
    selected d.isGood 0 d.reach = d.taken q ++ g :: later ∧ d.taken (q + 1) = d.taken q ++ [g] ∧
      (d.taken q).length = q := by
  have less : q < (selected d.isGood 0 d.reach).length := by
    rw [Device.taken, List.length_take] at enough
    omega
  obtain ⟨g, later, rest⟩ : ∃ g later, (selected d.isGood 0 d.reach).drop q = g :: later :=
    List.exists_cons_of_ne_nil fun none => absurd (List.drop_eq_nil_iff.mp none) (Nat.not_le.mpr less)
  have split : selected d.isGood 0 d.reach = d.taken q ++ g :: later := by
    rw [← rest, Device.taken, List.take_append_drop]
  have count : (d.taken q).length = q := List.length_take_of_le less.le
  refine ⟨g, later, split, ?_, count⟩
  rw [Device.taken, split, List.take_append, count, List.take_of_length_le (by omega), Nat.add_sub_cancel_left]
  rfl

/-- The blocks of an image before its last one. -/
theorem take_blocks (whole : blocksOf d.erasesize 0xff image = cs) (count : cs.length = q + 1) :
    image.length = q * d.erasesize + (image.length - q * d.erasesize) ∧
      0 < image.length - q * d.erasesize ∧ image.length - q * d.erasesize ≤ d.erasesize ∧
      (cs.take q).flatten = image.take (q * d.erasesize) := by
  have positive := d.positive
  have total : (image.length + d.erasesize - 1) / d.erasesize = q + 1 := by
    rw [← @length_blocksOf _ _ 0xff _ positive, whole, count]
  rw [Nat.div_eq_iff positive, Nat.succ_mul] at total
  have le : q * d.erasesize ≤ image.length := by omega
  refine ⟨by omega, by omega, by omega, ?_⟩
  have flat : cs.flatten = filled d.erasesize 0xff image := by rw [← whole, flatten_blocksOf positive]
  have lengths : ∀ c ∈ cs, c.length = d.erasesize := fun c member =>
    length_of_mem_blocksOf (by rw [whole]; exact member)
  have size : (cs.take q).flatten.length = q * d.erasesize := by
    rw [length_flatten_blocks fun c member => lengths c (List.mem_of_mem_take member), List.length_take, count,
      Nat.min_eq_left (Nat.le_succ q)]
  have split : cs.flatten = (cs.take q).flatten ++ (cs.drop q).flatten := by
    rw [← List.flatten_append, List.take_append_drop]
  have taken := congrArg (List.take (q * d.erasesize)) (split.symm.trans flat)
  rw [List.take_left' size, filled, List.take_append_of_le_length le] at taken
  exact taken

/-- A window of what is read. -/
theorem read_window : ((d.read pos n).drop x).take r = d.read (pos + x) (min r (n - x)) := by
  refine List.ext_getElem ?_ fun i left right => ?_
  · rw [List.length_take, List.length_drop, length_read, length_read]
    omega
  · simp only [Device.read, List.getElem_take, List.getElem_drop, List.getElem_map, List.getElem_range,
      Nat.add_assoc]

theorem read_blocks (inside : x + r ≤ 2 * d.erasesize) :
    ((d.block b ++ d.block (b + 1)).drop x).take r = d.read (b * d.erasesize + x) r := by
  have two : d.block b ++ d.block (b + 1) = d.read (b * d.erasesize) (d.erasesize + d.erasesize) := by
    rw [read_add, Device.block, Device.block, Nat.succ_mul]
  rw [two, read_window, Nat.min_eq_left (by omega)]

/-- A block behind those that were taken is as before. -/
theorem block_unchanged (seek : k ≤ d.blocks) (takes : ∀ g ∈ d.taken cs.length, d.Takes k g)
    (whole : blocksOf d.erasesize 0xff image = cs) (enough : (d.taken cs.length).length = cs.length)
    (other : ∀ g ∈ d.taken cs.length, b ≠ k + g) :
    (d.applyAll (d.ops k ((d.taken cs.length).zip cs))).block b = d.block b := by
  have log : d.ops k ((d.taken cs.length).zip cs) = d.fill (d.pairs k cs) :=
    ops_eq_fill seek fun t member => takes _ (List.of_mem_zip member).1
  have absent : b ∉ (d.pairs k cs).map Prod.fst := by
    rw [fst_pairs]
    intro member
    obtain ⟨g, member, same⟩ := List.mem_map.mp member
    exact other g member (by rw [← same, Nat.add_comm])
  rw [log]
  unfold Device.block Device.read
  rw [size_applyAll, erasesize_applyAll]
  refine List.map_congr_left fun i member => ?_
  rw [List.mem_range, Nat.lt_min] at member
  have block : (b * d.erasesize + i) / d.erasesize = b :=
    div_eq_iff.mpr ⟨Nat.le_add_right _ _, Nat.add_lt_add_left member.1 _⟩
  rw [data_fill distinct_pairs (lengths_pairs enough whole), block, find_eq_none.mpr absent]
  rfl

/-! ### The dump -/

theorem mtdDump_eq {gs later : List Nat} (some : 0 < r) (short : r ≤ d.erasesize)
    (next : selected d.isGood 0 d.reach = gs ++ g :: later) (before : ∀ g' ∈ gs, k + g' < d.blocks)
    (inside : k + g < d.blocks) :
    mtdDump d (k * d.erasesize : Nat) (gs.length * d.erasesize + r : Nat) =
      if (k + g) * d.erasesize + overshoot ((g - behind 0 gs) * d.erasesize) r + r ≤ d.size then
        if d.nand = true ∧ 2 ^ 31 ≤ g * d.erasesize + overshoot ((g - behind 0 gs) * d.erasesize) r then
          .error .exit
        else .ok (0, (gs.flatMap fun g => d.block (k + g)) ++
          d.read ((k + g) * d.erasesize + overshoot ((g - behind 0 gs) * d.erasesize) r) r)
      else .ok (0, gs.flatMap fun g => d.block (k + g)) := by
  have seek : d.seekBlock k = k := if_pos (by omega)
  have pos : (k + 0) * d.erasesize ≤ d.size := Nat.mul_le_mul_right _ (by omega)
  obtain ⟨fuel, enough, blocks⟩ := @dumpLoop_blocks d _ _ _ _ [] _ _ (show d.size < d.size + 1 + (k + 0) * d.erasesize by omega)
    some next before
  simp only [List.nil_append, Nat.add_zero, Nat.zero_mul] at blocks
  rw [mtdDump, lseek_start, seek, if_neg (by omega), blocks]
  exact dumpLoop_last enough some short (selected_behind next) inside

/-- Some bytes and a read behind them are an image. -/
theorem dumped_iff {far : Prop} [Decidable far] {n : Nat} (some : 0 < image.length - n) :
    ((if pos + (image.length - n) ≤ d.size then
        if far then .error .exit else .ok (0, image.take n ++ d.read pos (image.length - n))
      else .ok (0, image.take n) : Except Stop (Int × List UInt8)) = .ok (0, image)) ↔
      ¬far ∧ d.read pos (image.length - n) = image.drop n := by
  have cut := List.take_append_drop n image
  constructor
  · intro done
    split at done
    · split at done
      · cases done
      · rename_i near
        rw [Except.ok.injEq, Prod.mk.injEq] at done
        exact ⟨near, List.append_cancel_left (done.2.trans cut.symm)⟩
    · rw [Except.ok.injEq, Prod.mk.injEq] at done
      have shorter := congrArg List.length done.2
      rw [List.length_take] at shorter
      omega
  · rintro ⟨near, same⟩
    have length := congrArg List.length same
    rw [length_read, List.length_drop] at length
    rw [if_pos (by omega), if_neg near, same, cut]

/-- The dump of an image that was stored gives it if its last bytes are read. -/
theorem mtdDump_stored (whole : blocksOf d.erasesize 0xff image = cs) (fits : d.Fits k cs.length)
    (some : image ≠ []) (small : k * d.erasesize < 2 ^ 31) :
    mtdDump (d.applyAll (d.ops k ((d.taken cs.length).zip cs))) (k * d.erasesize : Nat) image.length =
      .ok (0, image) ↔ d.TailReads k image := by
  have total : d.imageBlocks image = cs.length := by rw [← whole, length_imageBlocks]
  obtain ⟨q, count⟩ : ∃ q, cs.length = q + 1 := by
    refine Nat.exists_eq_succ_of_ne_zero fun none => some ?_
    rw [List.length_eq_zero_iff] at none
    by_contra more
    rw [none, blocksOf_cons d.positive more] at whole
    cases whole
  have seek := fits.seek (by omega) small
  have blocks := map_block_taken whole fits seek.le
  obtain ⟨enough, takes⟩ := fits
  obtain ⟨length, positive, short, front⟩ := take_blocks whole count
  rw [count] at enough takes
  obtain ⟨g, later, next, last, few⟩ := taken_succ enough
  have in_taken : g ∈ d.taken (q + 1) := by
    rw [last]
    exact List.mem_append_right _ List.mem_cons_self
  have front_taken : ∀ g' ∈ d.taken q, g' ∈ d.taken (q + 1) := by
    rw [last]
    exact fun g' => List.mem_append_left _
  have unchanged := block_unchanged (b := k + g + 1) seek.le (by rwa [count]) whole (by rwa [count]) (by
    intro g' member same
    rw [count, last, List.mem_append, List.mem_singleton] at member
    have increasing := @taken_increasing d (q + 1)
    rw [last, List.pairwise_append] at increasing
    rcases member with member | rfl
    · have less := increasing.2.2 g' member g List.mem_cons_self
      omega
    · omega)
  obtain ⟨D, D_def⟩ : ∃ D, d.applyAll (d.ops k ((d.taken cs.length).zip cs)) = D := ⟨_, rfl⟩
  have erasesize : D.erasesize = d.erasesize := by rw [← D_def, erasesize_applyAll]
  have number : D.blocks = d.blocks := by rw [← D_def, blocks_applyAll]
  have nand : D.nand = d.nand := by rw [← D_def, nand_applyAll]
  rw [D_def] at blocks unchanged ⊢
  rw [count, last, List.map_append] at blocks
  have inside : ∀ g' ∈ d.taken (q + 1), k + g' < D.blocks := by
    rw [number]
    exact fun g' member => Nat.add_comm k g' ▸ (takes_iff seek.le).mp (takes g' member)
  have dump := @mtdDump_eq D g k _ (d.taken q) later positive (by rwa [erasesize])
    (by rw [← D_def, isGood_applyAll, reach_applyAll]; exact next) (fun g' member =>
      inside g' (front_taken g' member)) (inside g in_taken)
  have output : ((d.taken q).flatMap fun g => D.block (k + g)) = image.take (q * d.erasesize) := by
    rw [← front, ← blocks, List.take_left' (by rw [List.length_map, few]), List.flatMap_def]
  rw [few, erasesize, nand, ← length, output] at dump
  have small_x := (overshoot_spec ((g - behind 0 (d.taken q)) * d.erasesize) positive).1
  have window := @read_blocks D (k + g) (image.length - q * d.erasesize)
    (overshoot ((g - behind 0 (d.taken q)) * d.erasesize) (image.length - q * d.erasesize))
    (by rw [erasesize]; omega)
  rw [unchanged, erasesize] at window
  have last_block : cs.getLastD [] = D.block (k + g) := by
    rw [← blocks]
    exact List.getLastD_concat
  unfold Device.TailReads
  dsimp only
  rw [total, count, Nat.add_sub_cancel, last, List.getLastD_concat, whole, last_block, window, dump]
  exact dumped_iff positive

/-! ### Verifying -/

theorem read_flatMap : d.read 0 (n * d.erasesize) = (List.range n).flatMap d.block := by
  induction n with
  | zero => exact (Nat.zero_mul d.erasesize).symm ▸ read_eq_nil.mpr (.inl rfl)
  | succ n ih =>
    rw [Nat.succ_mul, read_add, ih, List.range_succ, List.flatMap_append, Nat.zero_add, List.flatMap_singleton,
      Device.block]

/-- The first blocks of a device to which an image was written. -/
theorem block_stored (whole : blocksOf d.erasesize 0xff image = cs) (fits : d.Fits 0 cs.length)
    (less : b < cs.length) : (d.applyAll (d.ops 0 ((d.taken cs.length).zip cs))).block b =
      if d.isGood b then cs.getD (selected d.isGood 0 b).length [] else d.block b := by
  have blocks := map_block_taken whole fits (Nat.zero_le _)
  obtain ⟨enough, takes⟩ := fits
  split
  · rename_i good
    have near : b < d.reach := by
      have most := (List.length_take_le' cs.length (selected d.isGood 0 d.reach)).trans length_selected_le
      rw [← Device.taken, enough] at most
      omega
    have rank : (selected d.isGood 0 b).length < cs.length := by
      have most := @length_selected_le 0 b d.isGood
      omega
    have place : (d.taken cs.length)[(selected d.isGood 0 b).length]? = some b := by
      rw [Device.taken, List.getElem?_take_of_lt rank]
      exact getElem?_selected (Nat.zero_le b) near good
    have found := congrArg (·[(selected d.isGood 0 b).length]?) blocks
    rw [List.getElem?_map, place, Option.map_some, Nat.zero_add] at found
    rw [List.getD_eq_getElem?_getD, ← found]
    rfl
  · rename_i bad
    refine block_unchanged (Nat.zero_le _) takes whole enough fun g member same => bad ?_
    rw [same, Nat.zero_add]
    exact (mem_selected.mp (List.mem_of_mem_take member)).2.2

/-- What is verified is what is at the start of the device. -/
theorem read_stored (whole : blocksOf d.erasesize 0xff image = cs) (fits : d.Fits 0 cs.length) :
    (d.applyAll (d.ops 0 ((d.taken cs.length).zip cs))).read 0 image.length = d.raw image := by
  have total : d.imageBlocks image = cs.length := by rw [← whole, length_imageBlocks]
  have le : image.length ≤ cs.length * d.erasesize := by
    have flat : cs.flatten = filled d.erasesize 0xff image := by rw [← whole, flatten_blocksOf d.positive]
    have size := congrArg List.length flat
    rw [length_flatten_blocks fun c member => length_of_mem_blocksOf (by rw [whole]; exact member), filled,
      List.length_append] at size
    omega
  have cut := @read_window (d.applyAll (d.ops 0 ((d.taken cs.length).zip cs))) (cs.length * d.erasesize) 0
    image.length 0
  rw [List.drop_zero, Nat.sub_zero, Nat.min_eq_left le] at cut
  have blocks := @read_flatMap (d.applyAll (d.ops 0 ((d.taken cs.length).zip cs))) cs.length
  rw [erasesize_applyAll] at blocks
  rw [Nat.zero_add] at cut
  rw [← cut, blocks, Device.raw, total, whole]
  congr 1
  rw [List.flatMap_def, List.flatMap_def]
  congr 1
  exact List.map_congr_left fun b member => block_stored whole fits (List.mem_range.mp member)

/-! ### Reading back -/

/-- What is stored on a device is verified, if it is at the start, and dumped from where it is. The
parameters of `mtd_dump` are of type `int`. -/
def ReadsBack {Digest : Type} [DecidableEq Digest] (md5 : List UInt8 → Digest) (d : Device) (k : Nat)
    (buf file : List UInt8) : Prop :=
  ∀ log, mtdWrite [d] (k * d.erasesize) buf file = .ok [(d, log)] →
    (k = 0 → mtdVerify md5 (d.applyAll log) (buf ++ file) = true) ∧
      (k * d.erasesize < 2 ^ 31 → (buf ++ file).length < 2 ^ 31 →
        mtdDump (d.applyAll log) (k * d.erasesize : Nat) (buf ++ file).length = .ok (0, buf ++ file))

theorem mtdVerify_stored {Digest : Type} [DecidableEq Digest] (md5 : List UInt8 → Digest)
    (whole : blocksOf d.erasesize 0xff image = cs) (fits : d.Fits 0 cs.length) :
    mtdVerify md5 (d.applyAll (d.ops 0 ((d.taken cs.length).zip cs))) image = true ↔
      md5 image = md5 (d.raw image) := by
  rw [mtdVerify, verifyRead_eq (Nat.lt_succ_self _), read_stored whole fits, decide_eq_true_iff]

theorem dumps_iff (whole : blocksOf d.erasesize 0xff image = cs) (fits : d.Fits k cs.length)
    (small : k * d.erasesize < 2 ^ 31) :
    mtdDump (d.applyAll (d.ops k ((d.taken cs.length).zip cs))) (k * d.erasesize : Nat) image.length =
      .ok (0, image) ↔ d.Dumps k image := by
  by_cases none : image = []
  · subst none
    rw [blocksOf_nil] at whole
    subst whole
    rw [Device.Dumps, and_iff_left fun some => absurd rfl some, forall_prop_of_true rfl, List.zip_nil_right]
    exact mtdDump_zero
  · rw [Device.Dumps, and_iff_right fun empty => absurd empty none, mtdDump_stored whole fits none small]
    exact ⟨fun reads _ => reads, fun reads => reads none⟩

/-- An image that fits is read back if what is at the start of the device has its MD5, and a dump gives
its last bytes. -/
theorem readsBack_iff {Digest : Type} [DecidableEq Digest] (md5 : List UInt8 → Digest) {buf file : List UInt8}
    (short : buf.length ≤ d.erasesize) : ReadsBack md5 d k buf file ↔
      (d.Fits k (d.imageBlocks (buf ++ file)) →
        (k = 0 → md5 (buf ++ file) = md5 (d.raw (buf ++ file))) ∧
          (k * d.erasesize < 2 ^ 31 → (buf ++ file).length < 2 ^ 31 → d.Dumps k (buf ++ file))) := by
  have total := @length_imageBlocks d (buf ++ file)
  by_cases fits : d.Fits k (d.imageBlocks (buf ++ file))
  · have stored := mtdWrite_fits short fits
    rw [← total] at fits stored ⊢
    have verified : k = 0 → (mtdVerify md5 (d.applyAll (d.ops k ((d.taken
        (blocksOf d.erasesize 0xff (buf ++ file)).length).zip (blocksOf d.erasesize 0xff (buf ++ file)))))
          (buf ++ file) = true ↔ md5 (buf ++ file) = md5 (d.raw (buf ++ file))) := by
      rintro rfl
      exact mtdVerify_stored md5 rfl fits
    have dumped := fun small => dumps_iff rfl fits small
    constructor
    · intro reads _
      obtain ⟨verify, dump⟩ := reads _ stored
      exact ⟨fun start => (verified start).mp (verify start), fun small few => (dumped small).mp (dump small few)⟩
    · intro good log written
      rw [stored] at written
      cases written
      obtain ⟨verify, dump⟩ := good fits
      exact ⟨fun start => (verified start).mpr (verify start), fun small few => (dumped small).mpr (dump small few)⟩
  · have stopped := mtdWrite_not_fits short fits
    refine iff_of_true (fun log written => ?_) fun other => absurd other fits
    rw [stopped] at written
    cases written

/-! ### The device with a mark on every other block -/

theorem blocks_six : blocksOf (striped true).erasesize 0xff ([] ++ [1, 2, 3, 4, 5, 6]) =
    ([[1, 2, 3, 4], [5, 6, 0xff, 0xff]] : List (List UInt8)) := by
  rw [show (striped true).erasesize = 4 from rfl]
  simp [blocksOf]

theorem blocks_seven : blocksOf (striped true).erasesize 0xff ([] ++ [1, 2, 3, 4, 5, 6, 7]) =
    ([[1, 2, 3, 4], [5, 6, 7, 0xff]] : List (List UInt8)) := by
  rw [show (striped true).erasesize = 4 from rfl]
  simp [blocksOf]

/-- Two reads of two bytes pass the bad block in front of the last two bytes. -/
theorem readsBack_striped : ReadsBack id (striped true) 2 [] [1, 2, 3, 4, 5, 6] := by
  refine (readsBack_iff id (by decide)).mpr fun _ => ⟨fun start => (nomatch start), fun _ _ =>
    ⟨fun none => (nomatch none), fun _ => ?_⟩⟩
  unfold Device.TailReads
  rw [blocks_six]
  decide

/-- Two reads of three bytes arrive in the middle of the block behind the bad one. -/
theorem not_readsBack_striped : ¬ReadsBack id (striped true) 0 [] [1, 2, 3, 4, 5, 6, 7] := by
  intro reads
  have fits : (striped true).Fits 0 ((striped true).imageBlocks ([] ++ [1, 2, 3, 4, 5, 6, 7])) :=
    ⟨by decide, by decide⟩
  have dump := (reads _ (mtdWrite_fits (by decide) fits)).2 (by decide) (by decide)
  rw [blocks_seven] at dump
  have tail := ((dumps_iff blocks_seven fits (by decide)).mp dump).2 (by decide)
  unfold Device.TailReads at tail
  rw [blocks_seven] at tail
  exact absurd tail (by decide)

end ReadBack

end FirewallCore.MtdTool
