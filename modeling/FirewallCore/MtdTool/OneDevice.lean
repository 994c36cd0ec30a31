import FirewallCore.MtdTool.Layout

/-!
Writing an image to one device.

A bad block is looked for without the offset of the partition, which the erasures and the file have.
-/

namespace FirewallCore.MtdTool

open FirewallCore.Lib Blocks

/-- The blocks for an image are there, and can be erased and written at a distance. -/
def Device.Fits (d : Device) (k n : Nat) : Prop :=
  (d.taken n).length = n ∧ ∀ g ∈ d.taken n, d.Takes k g

section OneDevice

variable {d : Device} {k n p size skip : Nat} {buf file image : List UInt8} {input : Input} {s : Progress}
  {next : List Device} {cs : List (List UInt8)}

theorem length_imageBlocks : (blocksOf d.erasesize 0xff image).length = d.imageBlocks image :=
  length_blocksOf d.positive

theorem lseek_block : lseek d 0 (k * d.erasesize) = min (d.seekBlock k + 0) d.blocks * d.erasesize := by
  have inside : k * d.erasesize ≤ d.size ↔ k ≤ d.blocks :=
    ⟨fun le => Nat.le_of_mul_le_mul_right le d.positive, fun le => Nat.mul_le_mul_right _ le⟩
  simp only [lseek, Device.seekBlock, inside]
  split
  · rename_i near
    rw [Nat.add_zero, Nat.min_eq_left near]
  · simp

/-- A device that was just opened. -/
theorem at_start : At d k 0 ⟨d, [], lseek d 0 (k * d.erasesize), 0, 0, 0⟩ :=
  ⟨rfl, (Nat.zero_mul _).symm, (Nat.zero_mul _).symm, lseek_block, fun _ => rfl⟩

theorem ready_start (short : buf.length ≤ d.erasesize) :
    Ready d (blocksOf d.erasesize 0xff (buf ++ file)) ⟨buf, file, 0⟩ := ⟨rfl, short, rfl⟩

theorem imageBlocks_le (short : buf.length ≤ d.erasesize) : d.imageBlocks (buf ++ file) ≤ file.length + 1 := by
  have positive := d.positive
  have whole : file.length ≤ file.length * d.erasesize := Nat.le_mul_of_pos_right _ positive
  rw [Device.imageBlocks, ← Nat.lt_succ_iff, Nat.div_lt_iff_lt_mul positive, List.length_append]
  rw [Nat.succ_mul, Nat.succ_mul]
  omega

theorem writeDevices_done (done : writeLoop p size next.isEmpty (input.file.length + 2) input
      ⟨d, [], lseek d 0 p, 0, 0, skip⟩ = .ok (none, s)) :
    writeDevices p size (d :: next) input skip = .ok ((d, s.log) :: next.map fun d => (d, [])) := by
  rw [writeDevices.eq_def]
  dsimp only
  rw [done]

theorem writeDevices_stop {stop : Stop} (stopped : writeLoop p size next.isEmpty (input.file.length + 2) input
      ⟨d, [], lseek d 0 p, 0, 0, skip⟩ = .error stop) :
    writeDevices p size (d :: next) input skip = .error stop := by
  rw [writeDevices.eq_def]
  dsimp only
  rw [stopped]

theorem writeDevices_next {input' : Input} (more : writeLoop p size next.isEmpty (input.file.length + 2) input
      ⟨d, [], lseek d 0 p, 0, 0, skip⟩ = .ok (some input', s)) :
    writeDevices p size (d :: next) input skip =
      (writeDevices p size next input' s.skipBadBlocks).map ((d, s.log) :: ·) := by
  rw [writeDevices.eq_def]
  dsimp only
  rw [more]

/-- An image that fits is written. -/
theorem mtdWrite_fits (short : buf.length ≤ d.erasesize) (fits : d.Fits k (d.imageBlocks (buf ++ file))) :
    mtdWrite [d] (k * d.erasesize) buf file = .ok [(d, d.ops k
      ((d.taken (d.imageBlocks (buf ++ file))).zip (blocksOf d.erasesize 0xff (buf ++ file))))] := by
  obtain ⟨enough, takes⟩ := fits
  have few := @imageBlocks_le d buf file short
  obtain ⟨a, s, input, here, -, ready, -, log, -, run⟩ := @writeLoop_run d 0 k _ _ _ _ _ true
    (ready_start short) at_start (Nat.zero_le _) (List.take_append_drop (d.imageBlocks (buf ++ file)) _).symm
    (by rw [length_imageBlocks]; exact enough.le) takes
  rw [← Device.taken, enough, ← length_imageBlocks, List.drop_length] at ready
  rw [← Device.taken, enough] at run
  obtain ⟨fuel, total⟩ : ∃ fuel, file.length + 2 = fuel + 1 + d.imageBlocks (buf ++ file) :=
    ⟨file.length + 1 - d.imageBlocks (buf ++ file), by omega⟩
  have done := (run (fuel + 1)).trans (writeLoop_done ready here)
  rw [← total] at done
  rw [mtdWrite]
  refine (writeDevices_done done).trans ?_
  rw [log]
  rfl

/-- The first number of a list without a property. -/
theorem split_first {p : Nat → Prop} {l : List Nat} (some : ¬∀ g ∈ l, p g) :
    ∃ gs g later, l = gs ++ g :: later ∧ (∀ g ∈ gs, p g) ∧ ¬p g := by
  induction l with
  | nil => exact absurd (fun g member => nomatch member) some
  | cons g l ih =>
    by_cases here : p g
    · rw [List.forall_mem_cons] at some
      obtain ⟨gs, g', later, rfl, all, other⟩ := ih fun rest => some ⟨here, rest⟩
      exact ⟨g :: gs, g', later, rfl, List.forall_mem_cons.mpr ⟨here, all⟩, other⟩
    · exact ⟨[], g, l, rfl, fun g member => (nomatch member), here⟩

/-- An image that does not fit ends the program. -/
theorem mtdWrite_not_fits (short : buf.length ≤ d.erasesize) (not_fits : ¬d.Fits k (d.imageBlocks (buf ++ file))) :
    mtdWrite [d] (k * d.erasesize) buf file = .error .exit := by
  have few := @imageBlocks_le d buf file short
  have total := @length_imageBlocks d (buf ++ file)
  have start := @ready_start d buf file short
  -- the good blocks before the first one that cannot be written, or all of them
  obtain ⟨gs, later, next, less, takes, ends⟩ : ∃ gs later, selected d.isGood 0 d.reach = gs ++ later ∧
      gs.length < d.imageBlocks (buf ++ file) ∧ (∀ g ∈ gs, d.Takes k g) ∧
      ∀ g rest, later = g :: rest → ¬d.Takes k g := by
    by_cases takes : ∀ g ∈ d.taken (d.imageBlocks (buf ++ file)), d.Takes k g
    · have few : ¬(d.taken (d.imageBlocks (buf ++ file))).length = d.imageBlocks (buf ++ file) :=
        fun enough => not_fits ⟨enough, takes⟩
      rw [Device.taken, List.length_take] at few
      have few : (selected d.isGood 0 d.reach).length < d.imageBlocks (buf ++ file) := by omega
      rw [Device.taken, List.take_of_length_le few.le] at takes
      exact ⟨_, [], (List.append_nil _).symm, few, takes, fun g rest none => nomatch none⟩
    · obtain ⟨gs, g, rest, split, all, other⟩ := split_first takes
      refine ⟨gs, g :: (rest ++ (selected d.isGood 0 d.reach).drop (d.imageBlocks (buf ++ file))), ?_, ?_, all, ?_⟩
      · have whole := List.take_append_drop (d.imageBlocks (buf ++ file)) (selected d.isGood 0 d.reach)
        rw [← Device.taken, split, List.append_assoc] at whole
        exact whole.symm
      · have le := List.length_take_le (d.imageBlocks (buf ++ file)) (selected d.isGood 0 d.reach)
        rw [← Device.taken, split, List.length_append, List.length_cons] at le
        omega
      · intro g' rest' same
        cases same
        exact other
  obtain ⟨a, s, input, here, inside, ready, rest, -, -, run⟩ := @writeLoop_run d 0 k _ _ _ _ _ true
    start at_start (Nat.zero_le _) next (by omega) takes
  obtain ⟨fuel, steps⟩ : ∃ fuel, file.length + 2 = fuel + 1 + gs.length := ⟨file.length + 1 - gs.length, by omega⟩
  refine writeDevices_stop ?_
  change writeLoop _ _ true (file.length + 2) _ _ = _
  rw [steps]
  refine (run (fuel + 1)).trans ?_
  cases left : (blocksOf d.erasesize 0xff (buf ++ file)).drop gs.length with
  | nil =>
    rw [List.drop_eq_nil_iff] at left
    omega
  | cons c cs =>
    rw [left] at ready
    cases later with
    | nil => exact writeLoop_full ready here inside rest
    | cons g later => exact writeLoop_refused ready here rest (ends g later rfl)

/-! ### Where the image is laid out -/

theorem target_of_far (far : d.blocks ≤ k) : d.target k n = [] := by
  rw [Device.target, selected_of_le far, List.take_nil]

theorem mem_target {b : Nat} (member : b ∈ d.target k n) : k ≤ b ∧ b < d.blocks ∧ d.isGood b = true :=
  mem_selected.mp (List.mem_of_mem_take member)

theorem target_increasing : (d.target k n).Pairwise (· < ·) := selected_pairwise.take

theorem taken_increasing : (d.taken n).Pairwise (· < ·) := selected_pairwise.take

/-- The blocks of an image with those of the device that they are written to. -/
def Device.pairs (d : Device) (k : Nat) (cs : List (List UInt8)) : List (Nat × List UInt8) :=
  ((d.taken cs.length).zip cs).map fun t => (t.1 + k, t.2)

theorem fst_zip_taken : ((d.taken cs.length).zip cs).map Prod.fst = d.taken cs.length :=
  List.map_fst_zip (List.length_take_le _ _)

theorem fst_pairs : (d.pairs k cs).map Prod.fst = (d.taken cs.length).map (· + k) := by
  rw [Device.pairs, List.map_map, ← @fst_zip_taken d cs, List.map_map, fst_zip_taken]
  rfl

theorem snd_pairs (enough : (d.taken cs.length).length = cs.length) : (d.pairs k cs).map Prod.snd = cs := by
  rw [Device.pairs, List.map_map]
  exact List.map_snd_zip enough.ge

theorem lengths_pairs (enough : (d.taken cs.length).length = cs.length)
    (whole : blocksOf d.erasesize 0xff image = cs) : ∀ t ∈ d.pairs k cs, t.2.length = d.erasesize := by
  intro t member
  have block : t.2 ∈ (d.pairs k cs).map Prod.snd := List.mem_map_of_mem member
  rw [snd_pairs enough, ← whole] at block
  exact length_of_mem_blocksOf block

/-- Where an image is laid out, the blocks have the distance of the offset. -/
theorem same_of_laidOut (total : d.imageBlocks image = cs.length)
    (enough : (d.taken cs.length).length = cs.length) (takes : ∀ g ∈ d.taken cs.length, d.Takes k g)
    (laid : LaidOut d k image (d.ops k ((d.taken cs.length).zip cs))) :
    (d.taken cs.length).map (· + k) = d.target k cs.length := by
  have positive := d.positive
  have inside := laid.inside
  rw [total] at inside
  rcases Nat.lt_or_ge d.blocks k with far | seek
  · -- something would be erased in front of the offset
    rw [target_of_far far.le] at inside ⊢
    rw [List.map_eq_nil_iff, List.eq_nil_iff_forall_not_mem]
    intro g member
    rw [← fst_zip_taken] at member
    obtain ⟨t, pair, -⟩ := List.mem_map.mp member
    exact absurd (inside _ (List.mem_flatMap.mpr ⟨t, pair, List.mem_cons_self⟩) _
      ⟨_, ⟨le_rfl, Nat.lt_add_of_pos_right positive⟩, rfl⟩) List.not_mem_nil
  · refine eq_of_increasing ?_ target_increasing ?_ ?_
    · exact List.pairwise_map.mpr (taken_increasing.imp fun less => Nat.add_lt_add_right less k)
    · intro b member
      rw [← fst_pairs] at member
      obtain ⟨t, pair, rfl⟩ := List.mem_map.mp member
      refine inside _ ?_ t.1 ⟨t.1 * d.erasesize, ⟨le_rfl, Nat.lt_add_of_pos_right positive⟩,
        Nat.mul_div_cancel _ positive⟩
      rw [ops_eq_fill seek fun t member => takes _ (List.of_mem_zip member).1]
      exact List.mem_flatMap.mpr ⟨t, pair, List.mem_cons_self⟩
    · rw [List.length_map, enough]
      exact List.length_take_le _ _

theorem ops_eq_fill_pairs (takes : ∀ g ∈ d.taken cs.length, d.Takes k g)
    (same : (d.taken cs.length).map (· + k) = d.target k cs.length) :
    d.ops k ((d.taken cs.length).zip cs) = d.fill (d.pairs k cs) := by
  rcases Nat.lt_or_ge d.blocks k with far | seek
  · rw [target_of_far far.le, List.map_eq_nil_iff] at same
    rw [Device.pairs, same]
    rfl
  · exact ops_eq_fill seek fun t member => takes _ (List.of_mem_zip member).1

/-- Good blocks that are filled have the image. -/
theorem laidOut_fill (whole : blocksOf d.erasesize 0xff image = cs)
    (enough : (d.taken cs.length).length = cs.length)
    (same : (d.taken cs.length).map (· + k) = d.target k cs.length) :
    LaidOut d k image (d.fill (d.pairs k cs)) := by
  have total : d.imageBlocks image = cs.length := by rw [← whole, length_imageBlocks]
  have lengths := lengths_pairs (k := k) enough whole
  have first : (d.pairs k cs).map Prod.fst = d.target k cs.length := fst_pairs.trans same
  have distinct : ((d.pairs k cs).map Prod.fst).Nodup := by
    rw [first]
    exact target_increasing.imp fun less => less.ne
  have member_target : ∀ t ∈ d.pairs k cs, t.1 ∈ d.target k cs.length := by
    rw [← first]
    exact fun t member => List.mem_map_of_mem member
  refine ⟨?_, fun before pos bytes after b => erased_before lengths, ?_, ?_⟩
  · rw [total, List.flatMap_def, ← first, map_block_fill distinct lengths, snd_pairs enough, ← whole,
      flatten_blocksOf d.positive]
    exact fun t member => (mem_target (member_target t member)).2.1
  · intro op member b touched
    obtain ⟨t, inside, -, only⟩ := touchesBlock_fill lengths member
    rw [only b touched]
    exact (mem_target (member_target t inside)).2.2
  · intro start member b touched
    obtain ⟨t, inside, -, only⟩ := touchesBlock_fill lengths member
    rw [only b touched, total]
    exact member_target t inside

/-- An image that fits is laid out on good blocks where these have the distance of the offset. -/
theorem laidOut_iff (fits : d.Fits k (d.imageBlocks image)) :
    LaidOut d k image (d.ops k ((d.taken (d.imageBlocks image)).zip (blocksOf d.erasesize 0xff image))) ↔
      (d.taken (d.imageBlocks image)).map (· + k) = d.target k (d.imageBlocks image) := by
  obtain ⟨enough, takes⟩ := fits
  obtain ⟨cs, whole⟩ : ∃ cs, blocksOf d.erasesize 0xff image = cs := ⟨_, rfl⟩
  have total : d.imageBlocks image = cs.length := by rw [← whole, length_imageBlocks]
  rw [total] at enough takes
  rw [whole, total]
  constructor
  · exact same_of_laidOut total enough takes
  · intro same
    rw [ops_eq_fill_pairs takes same]
    exact laidOut_fill whole enough same

/-- An image that is written to a device is laid out on good blocks. -/
def WritesWell (d : Device) (k : Nat) (buf file : List UInt8) : Prop :=
  ∀ result, mtdWrite [d] (k * d.erasesize) buf file = .ok result →
    ∃ log, result = [(d, log)] ∧ LaidOut d k (buf ++ file) log

/-- The function lays an image out on good blocks if these have the distance of the offset, or the image
does not fit. -/
theorem writesWell_iff (short : buf.length ≤ d.erasesize) : WritesWell d k buf file ↔
    (d.Fits k (d.imageBlocks (buf ++ file)) → (d.taken (d.imageBlocks (buf ++ file))).map (· + k) =
      d.target k (d.imageBlocks (buf ++ file))) := by
  constructor
  · intro well fits
    obtain ⟨log, same, laid⟩ := well _ (mtdWrite_fits short fits)
    cases same
    exact (laidOut_iff fits).mp laid
  · intro good result done
    by_cases fits : d.Fits k (d.imageBlocks (buf ++ file))
    · rw [mtdWrite_fits short fits] at done
      cases done
      exact ⟨_, rfl, (laidOut_iff fits).mpr (good fits)⟩
    · rw [mtdWrite_not_fits short fits] at done
      cases done

/-! ### A device with a mark on every other block -/

def striped (nand : Bool) : Device where
  nand := nand
  erasesize := 4
  blocks := 6
  bad := fun i => i % 2 = 1
  data := fun _ => 0
  positive := by decide
  small := by decide

theorem writesWell_striped : WritesWell (striped true) 2 [1] [2, 3, 4, 5] :=
  (writesWell_iff (by decide)).mpr fun _ => by decide

theorem striped_fits : (striped true).Fits 1 ((striped true).imageBlocks ([1, 2, 3, 4] ++ [])) :=
  ⟨by decide, by decide⟩

/-- With an offset of one block, the second block is erased and written, which is bad. -/
theorem not_writesWell_striped : ¬WritesWell (striped true) 1 [1, 2, 3, 4] [] := by
  intro well
  obtain ⟨log, same, laid⟩ := well _ (mtdWrite_fits (by decide) striped_fits)
  cases same
  exact absurd ((laidOut_iff striped_fits).mp laid) (by decide)

end OneDevice

end FirewallCore.MtdTool

/-!
Writing an image to several devices.

The next device is taken when an erasure fails. On a NAND device the kernel is asked about a block
first, and behind the end of the device that ends the program.
-/

namespace FirewallCore.MtdTool

open FirewallCore.Lib Blocks

/-- All good blocks. -/
def Device.goods (d : Device) : List Nat := selected d.isGood 0 d.blocks

/-- What the good blocks of devices have, in the order of the devices. -/
def goodContents (result : List (Device × List Op)) : List UInt8 :=
  result.flatMap fun t => t.1.goods.flatMap (t.1.applyAll t.2).block

/-- An image is written to devices, and their good blocks begin with it. -/
def WritesAll (devices : List Device) (buf file : List UInt8) : Prop :=
  ∃ result, mtdWrite devices 0 buf file = .ok result ∧ result.map Prod.fst = devices ∧
    buf ++ file <+: goodContents result

/-- So many blocks fit, each device that they go beyond not being a NAND device. -/
def Continues : List Device → Nat → Prop
  | [], _ => False
  | d :: next, n => (d.taken n).length = n ∨ d.nand = false ∧ Continues next (n - d.blocks)

section SeveralDevices

variable {d : Device} {a fuel k n size : Nat} {devices next : List Device} {input : Input} {s : Progress}
  {c : List UInt8} {cs : List (List UInt8)} {gs later : List Nat} {buf file : List UInt8}

theorem ops_start (inside : ∀ g ∈ gs, g < d.blocks) : d.ops 0 (gs.zip cs) = d.fill (gs.zip cs) := by
  rw [ops_eq_fill (Nat.zero_le _) fun t member => (takes_iff (Nat.zero_le _)).mpr
    (inside _ (List.of_mem_zip member).1)]
  exact congrArg d.fill (List.map_id _)

/-- Increasing blocks that are filled have what was written. -/
theorem contents_fill (increasing : gs.Pairwise (· < ·)) (inside : ∀ g ∈ gs, g < d.blocks)
    (lengths : ∀ c ∈ cs, c.length = d.erasesize) (enough : gs.length = cs.length) :
    gs.flatMap (d.applyAll (d.fill (gs.zip cs))).block = cs.flatten := by
  have first : (gs.zip cs).map Prod.fst = gs := List.map_fst_zip enough.le
  have second : (gs.zip cs).map Prod.snd = cs := List.map_snd_zip enough.ge
  have filled := @map_block_fill d (gs.zip cs) (by rw [first]; exact increasing.imp fun less => less.ne)
    (fun t member => lengths _ (List.of_mem_zip member).2) fun t member => inside _ (List.of_mem_zip member).1
  rw [first, second] at filled
  rw [List.flatMap_def, filled]

theorem mem_taken {g : Nat} (member : g ∈ d.taken n) : g < d.blocks :=
  ((mem_selected.mp (List.mem_of_mem_take member)).2.1).trans_le d.reach_le

/-- The blocks that are taken are the first good ones. -/
theorem taken_begins : d.taken n <+: d.goods := (List.take_prefix _ _).trans (selected_begins d.reach_le)

theorem nor_good (nor : d.nand = false) (i : Nat) : d.isGood i = true := by
  rw [Device.isGood, nor]
  rfl

/-- A NOR device has good blocks only. -/
theorem goods_nor (nor : d.nand = false) : d.goods = List.range d.blocks := by
  rw [Device.goods, selected, List.filter_eq_self.mpr fun i _ => nor_good nor i, Nat.sub_zero,
    List.range_eq_range']

theorem selected_nor (nor : d.nand = false) : selected d.isGood 0 d.reach = List.range d.blocks := by
  rw [← goods_nor nor, Device.goods, Device.reach, nor]
  rfl

/-! ### One device of several -/

theorem Ready.count (ready : Ready d cs input) : cs.length ≤ input.file.length + 1 := by
  rw [← ready.blocks, length_imageBlocks]
  exact imageBlocks_le ready.short

/-- A block that is kept in the buffer is the next one. -/
theorem Ready.kept (ready : Ready d (c :: cs) input) :
    Ready d (c :: cs) ⟨c, (input.buf ++ input.file).drop d.erasesize, 0⟩ := by
  have length := ready.length
  have rest := ready.block.2.2.blocks
  have some : c ++ (input.buf ++ input.file).drop d.erasesize ≠ [] := by
    intro none
    rw [List.append_eq_nil_iff] at none
    rw [none.1, List.length_nil] at length
    exact d.positive.ne length
  refine ⟨rfl, length.le, ?_⟩
  rw [blocksOf_cons d.positive some, List.take_left' length, List.drop_left' length, List.length_append,
    length, Nat.sub_eq_zero_of_le (Nat.le_add_right _ _), List.replicate_zero, List.append_nil]
  exact congrArg (c :: ·) rest

/-- The image ends on a device. -/
theorem writeDevices_fits (ready : Ready d cs input) (enough : (d.taken cs.length).length = cs.length) :
    writeDevices 0 d.erasesize (d :: next) input 0 =
      .ok ((d, d.fill ((d.taken cs.length).zip cs)) :: next.map fun d => (d, [])) := by
  have count := ready.count
  have takes : ∀ g ∈ d.taken cs.length, d.Takes 0 g := fun g member =>
    (takes_iff (Nat.zero_le _)).mpr (mem_taken member)
  obtain ⟨a, s, input', here, -, ready', -, log, -, run⟩ := @writeLoop_run d 0 0 _ _ _ _ _ next.isEmpty ready
    at_start (Nat.zero_le _) (List.take_append_drop cs.length _).symm enough.le takes
  rw [← Device.taken, enough, List.drop_length] at ready'
  rw [← Device.taken, enough] at run
  rw [← Device.taken, ops_start fun g member => mem_taken member, List.nil_append] at log
  obtain ⟨fuel, total⟩ : ∃ fuel, input.file.length + 2 = fuel + 1 + cs.length :=
    ⟨input.file.length + 1 - cs.length, by omega⟩
  have done := (run (fuel + 1)).trans (writeLoop_done ready' here)
  rw [← total, Nat.zero_mul] at done
  rw [writeDevices_done done, log]

/-- The image goes beyond a NAND device. -/
theorem writeDevices_nand (ready : Ready d cs input) (few : (d.taken cs.length).length ≠ cs.length)
    (nand : d.nand = true) :
    writeDevices 0 d.erasesize (d :: next) input 0 = .error .exit := by
  have count := ready.count
  have less : (selected d.isGood 0 d.reach).length < cs.length := by
    rw [Device.taken, List.length_take] at few
    omega
  obtain ⟨a, s, input', here, inside, ready', rest, -, -, run⟩ := @writeLoop_run d 0 0 _ _ _ _ _ next.isEmpty
    ready at_start (Nat.zero_le _) (List.append_nil _).symm less.le fun g member =>
      (takes_iff (Nat.zero_le _)).mpr ((mem_selected.mp member).2.1.trans_le d.reach_le)
  obtain ⟨fuel, total⟩ : ∃ fuel, input.file.length + 2 = fuel + 1 + (selected d.isGood 0 d.reach).length :=
    ⟨input.file.length + 1 - (selected d.isGood 0 d.reach).length, by omega⟩
  cases left : cs.drop (selected d.isGood 0 d.reach).length with
  | nil =>
    rw [List.drop_eq_nil_iff] at left
    omega
  | cons c cs =>
    rw [left] at ready'
    have stopped := (run (fuel + 1)).trans
      ((writeLoop_some ready' here).1 _ (eraseAhead_unasked here nand inside rest le_rfl))
    rw [← total, Nat.zero_mul] at stopped
    exact writeDevices_stop stopped

/-- The image goes beyond a NOR device, all blocks of which are filled. -/
theorem writeLoop_nor (ready : Ready d cs input) (nor : d.nand = false) (less : d.blocks < cs.length)
    (last : Bool) :
    ∃ s input', s.skipBadBlocks = 0 ∧ s.log = d.fill ((List.range d.blocks).zip cs) ∧
      Ready d (cs.drop d.blocks) input' ∧
      writeLoop 0 d.erasesize last (input.file.length + 2) input ⟨d, [], lseek d 0 0, 0, 0, 0⟩ =
        if last then .error .exit else .ok (some input', s) := by
  have count := ready.count
  obtain ⟨a, s, input', here, inside, ready', rest, log, -, run⟩ := @writeLoop_run d 0 0 _ _ _ _ _ last
    ready at_start (Nat.zero_le _) ((selected_nor nor).trans (List.append_nil _).symm)
    (by rw [List.length_range]; exact less.le) fun g member =>
      (takes_iff (Nat.zero_le _)).mpr (List.mem_range.mp member)
  rw [List.length_range] at ready' run
  rw [ops_start fun g member => List.mem_range.mp member, List.nil_append] at log
  obtain rfl : a = d.blocks := by
    refine le_antisymm (inside.trans d.reach_le) (Nat.not_lt.mp fun more => ?_)
    have good := selected_eq_nil rest a le_rfl (by rwa [Device.reach, nor])
    rw [nor_good nor] at good
    cases good
  obtain ⟨fuel, total⟩ : ∃ fuel, input.file.length + 2 = fuel + 1 + d.blocks :=
    ⟨input.file.length + 1 - d.blocks, by omega⟩
  have run := run (fuel + 1)
  rw [← total, Nat.zero_mul] at run
  obtain ⟨c, later, left⟩ : ∃ c later, cs.drop d.blocks = c :: later :=
    List.exists_cons_of_ne_nil fun none => absurd (List.drop_eq_nil_iff.mp none) (Nat.not_le.mpr less)
  rw [left] at ready' ⊢
  have outside : eraseBlock d ((d.blocks + 0) * d.erasesize) = none := by
    have positive := d.positive
    rw [eraseBlock_eq, if_neg]
    rw [Nat.add_zero, Nat.mod_eq_of_lt (Device.mul_lt le_rfl), Device.size]
    omega
  have failed := (eraseAhead_nor here nor).1 outside
  have level : ¬s.w < s.e := by
    have w := here.w
    rw [here.nor nor] at w
    rw [here.e]
    omega
  have result : (last = true → writeLoop (0 * d.erasesize) d.erasesize last (fuel + 1) input' _ = .error .exit) ∧
      (last = false → ¬s.w < s.e → writeLoop (0 * d.erasesize) d.erasesize last (fuel + 1) input' _ = _) :=
    (writeLoop_some ready' here).2.1 _ failed
  rw [Nat.zero_mul] at result
  refine ⟨s, _, here.nor nor, log, ready'.kept, run.trans ?_⟩
  cases last with
  | true => exact result.1 rfl
  | false => exact result.2 rfl level

/-! ### All devices -/

theorem goodContents_cons (log : List Op) (result : List (Device × List Op)) :
    goodContents ((d, log) :: result) = d.goods.flatMap (d.applyAll log).block ++ goodContents result :=
  List.flatMap_cons

/-- A NOR device that is full has the first blocks. -/
theorem contents_nor (nor : d.nand = false) (le : d.blocks ≤ cs.length)
    (lengths : ∀ c ∈ cs, c.length = d.erasesize) :
    d.goods.flatMap (d.applyAll (d.fill ((List.range d.blocks).zip cs))).block = (cs.take d.blocks).flatten := by
  have cut : (List.range d.blocks).zip cs = (List.range d.blocks).zip (cs.take d.blocks) := by
    rw [List.zip_eq_zip_take_min, List.length_range, Nat.min_eq_left le,
      List.take_of_length_le (List.length_range).le]
  rw [goods_nor nor, cut]
  refine contents_fill ?_ (fun g => List.mem_range.mp) (fun c member => lengths c (List.mem_of_mem_take member)) ?_
  · exact List.pairwise_lt_range
  · rw [List.length_range, List.length_take, Nat.min_eq_left le]

/-- The devices that are left are written where they have room, and otherwise the program ends. -/
theorem writeDevices_spec (same : ∀ d ∈ devices, d.erasesize = size) (offset : input.offset = 0)
    (short : input.buf.length ≤ size) (whole : blocksOf size 0xff (input.buf ++ input.file) = cs) :
    (Continues devices cs.length → ∃ result, writeDevices 0 size devices input 0 = .ok result ∧
      result.map Prod.fst = devices ∧ cs.flatten <+: goodContents result) ∧
    (¬Continues devices cs.length → writeDevices 0 size devices input 0 = .error .exit) := by
  induction devices generalizing input cs with
  | nil => exact ⟨False.elim, fun _ => rfl⟩
  | cons d next ih =>
    rw [List.forall_mem_cons] at same
    obtain ⟨rfl, same⟩ := same
    have ready : Ready d cs input := ⟨offset, short, whole⟩
    have lengths : ∀ c ∈ cs, c.length = d.erasesize := fun c member =>
      length_of_mem_blocksOf (by rw [whole]; exact member)
    rw [Continues]
    by_cases enough : (d.taken cs.length).length = cs.length
    · refine ⟨fun _ => ⟨_, writeDevices_fits ready enough, ?_, ?_⟩, fun full => absurd (.inl enough) full⟩
      · rw [List.map_cons, List.map_map]
        exact congrArg (d :: ·) (List.map_id _)
      · obtain ⟨later, goods⟩ := @taken_begins d cs.length
        rw [goodContents_cons, ← goods, List.flatMap_append, List.append_assoc,
          contents_fill taken_increasing (fun g member => mem_taken member) lengths enough]
        exact List.prefix_append _ _
    · rw [or_iff_right enough]
      cases nand : d.nand with
      | true => exact ⟨fun nor => (nomatch nor.1), fun _ => writeDevices_nand ready enough nand⟩
      | false =>
        have less : d.blocks < cs.length := by
          rw [Device.taken, selected_nor nand, List.length_take, List.length_range] at enough
          omega
        obtain ⟨s, input', skip, log, ready', loop⟩ := writeLoop_nor ready nand less next.isEmpty
        have contents := contents_nor nand less.le lengths
        rw [← log] at contents
        rw [and_iff_right rfl]
        cases next with
        | nil => exact ⟨False.elim, fun _ => writeDevices_stop loop⟩
        | cons d' next =>
          have step := writeDevices_next loop
          rw [skip] at step
          obtain ⟨goes, stops⟩ := ih same ready'.offset ready'.short ready'.blocks
          rw [List.length_drop] at goes stops
          constructor
          · intro continues
            obtain ⟨result, done, all, begins⟩ := goes continues
            refine ⟨(d, s.log) :: result, by rw [step, done]; rfl, congrArg (d :: ·) all, ?_⟩
            have split : cs.flatten = (cs.take d.blocks).flatten ++ (cs.drop d.blocks).flatten := by
              rw [← List.flatten_append, List.take_append_drop]
            rw [goodContents_cons, contents, split, List.prefix_append_right_inj]
            exact begins
          · intro full
            rw [step, stops full]
            rfl

/-- The image is written to the devices if each one that it goes beyond is not a NAND device. -/
theorem writesAll_iff (same : ∀ d ∈ devices, d.erasesize = size) (positive : 0 < size)
    (short : buf.length ≤ size) : WritesAll devices buf file ↔
      Continues devices (((buf ++ file).length + size - 1) / size) := by
  obtain ⟨goes, stops⟩ := @writeDevices_spec size devices ⟨buf, file, 0⟩ _ same rfl short rfl
  rw [length_blocksOf positive] at goes stops
  have write : mtdWrite devices 0 buf file = writeDevices 0 size devices ⟨buf, file, 0⟩ 0 := by
    cases devices with
    | nil => rfl
    | cons d next =>
      obtain rfl := same d List.mem_cons_self
      rfl
  rw [WritesAll, write]
  constructor
  · rintro ⟨result, done, -⟩
    by_contra full
    rw [stops full] at done
    cases done
  · intro continues
    obtain ⟨result, done, all, begins⟩ := goes continues
    refine ⟨result, done, all, .trans ?_ begins⟩
    rw [flatten_blocksOf positive]
    exact List.prefix_append _ _

/-! ### Two devices -/

theorem writesAll_nor : WritesAll [striped false, striped true] [] (List.replicate 25 1) :=
  (writesAll_iff (by decide) (Nat.succ_pos 3) (by decide)).mpr (.inr ⟨rfl, .inl (by decide)⟩)

/-- An image for both of two NAND devices ends the program behind the first one. -/
theorem nand_not_continued : ((List.replicate 13 (1 : UInt8)).length + 3) / 4 ≤
    ([striped true, striped true].map fun d => d.goods.length).sum ∧
      ¬WritesAll [striped true, striped true] [] (List.replicate 13 1) := by
  refine ⟨by decide, ?_⟩
  rintro ⟨result, done, -⟩
  have stops := (@writeDevices_spec 4 [striped true, striped true] ⟨[], List.replicate 13 1, 0⟩ _
    (by decide) rfl (by decide) rfl).2
  rw [length_blocksOf (Nat.succ_pos 3)] at stops
  have full : ¬Continues [striped true, striped true] 4 := by
    rintro (enough | ⟨nor, -⟩)
    · exact absurd enough (by decide)
    · cases nor
  have stopped : mtdWrite [striped true, striped true] 0 [] (List.replicate 13 1) = .error .exit := stops full
  rw [stopped] at done
  cases done

end SeveralDevices

end FirewallCore.MtdTool
