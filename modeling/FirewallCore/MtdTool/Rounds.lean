import FirewallCore.Lib.Blocks
import FirewallCore.MtdTool.Device

/-!
The rounds of writing an image to a device: one block of the image on each block that is not marked bad,
up to where the kernel cannot be asked.
-/

namespace FirewallCore.MtdTool

open FirewallCore.Lib Blocks

/-! ### Blocks of a device -/

def Device.isGood (d : Device) (i : Nat) : Bool := !(d.nand && d.bad i)

/-- The blocks that the kernel can be asked about, with an `int` as the offset. -/
def Device.reach (d : Device) : Nat :=
  if d.nand then min d.blocks ((2 ^ 31 + d.erasesize - 1) / d.erasesize) else d.blocks

/-- The block at which the file is after `lseek` to a block. -/
def Device.seekBlock (d : Device) (k : Nat) : Nat := if k ≤ d.blocks then k else 0

/-- A block is erased and written at a distance of some blocks. -/
def Device.Takes (d : Device) (k g : Nat) : Prop :=
  (g + k) * d.erasesize % 2 ^ 32 + d.erasesize ≤ d.size ∧ d.seekBlock k + g < d.blocks

instance (d : Device) (k g : Nat) : Decidable (d.Takes k g) := inferInstanceAs (Decidable (_ ∧ _))

/-- What is done for blocks of the image on blocks of the device. -/
def Device.ops (d : Device) (k : Nat) (pairs : List (Nat × List UInt8)) : List Op :=
  pairs.flatMap fun t =>
    [.erase ((t.1 + k) * d.erasesize % 2 ^ 32), .write ((d.seekBlock k + t.1) * d.erasesize) t.2]

section Blocks

variable {d : Device} {a g i k : Nat}

theorem Device.reach_le : d.reach ≤ d.blocks := by
  unfold Device.reach
  split
  · exact Nat.min_le_left _ _
  · exact le_rfl

theorem Device.mul_lt (inside : i ≤ d.blocks) : i * d.erasesize < 2 ^ 32 :=
  (Nat.mul_le_mul_right _ inside).trans_lt d.small

/-- The kernel is asked about a block. -/
theorem blockIsBad_block (inside : i ≤ d.blocks) : blockIsBad d (i * d.erasesize) =
    if d.nand = true ∧ d.reach ≤ i then .error .exit else .ok !d.isGood i := by
  have positive := d.positive
  have mul := Device.mul_lt inside
  unfold blockIsBad Device.isGood
  rw [Nat.mod_eq_of_lt mul, Nat.mul_div_cancel _ positive]
  cases nand : d.nand with
  | false => rfl
  | true =>
    have asked : i * d.erasesize < 2 ^ 31 ∧ i * d.erasesize < d.size ↔ ¬d.reach ≤ i := by
      rw [Device.reach, nand, if_pos rfl, Nat.not_le, Nat.lt_min, Device.size,
        Nat.mul_lt_mul_right positive, Nat.lt_div_iff_mul_lt positive, and_comm]
      have least : i * d.erasesize < 2 ^ 31 + d.erasesize - 1 - (d.erasesize - 1) ↔
          i * d.erasesize < 2 ^ 31 := by omega
      rw [least]
    by_cases far : d.reach ≤ i
    · rw [if_pos rfl, if_neg fun near => asked.mp near far, if_pos ⟨rfl, far⟩]
    · rw [if_pos rfl, if_pos (asked.mpr far), if_neg fun both => far both.2]
      simp

end Blocks

/-! ### The state between two rounds -/

/-- A device on which `a` blocks are done, the file being `k` blocks ahead if it could be. -/
structure At (d : Device) (k a : Nat) (s : Progress) : Prop where
  device : s.device = d
  e : s.e = a * d.erasesize
  w : s.w + s.skipBadBlocks = a * d.erasesize
  pos : s.pos = min (d.seekBlock k + a) d.blocks * d.erasesize
  nor : d.nand = false → s.skipBadBlocks = 0

/-- An input of which blocks are left. -/
structure Ready (d : Device) (cs : List (List UInt8)) (input : Input) : Prop where
  offset : input.offset = 0
  short : input.buf.length ≤ d.erasesize
  blocks : blocksOf d.erasesize 0xff (input.buf ++ input.file) = cs

section Rounds

variable {d : Device} {a b fuel g i k : Nat} {s : Progress} {input : Input} {c : List UInt8}
  {cs : List (List UInt8)} {gs later : List Nat} {last : Bool}

theorem lseek_over (seek : b ≤ d.blocks) : lseek d (b * d.erasesize) (b * d.erasesize + d.erasesize) =
    min (b + 1) d.blocks * d.erasesize := by
  unfold lseek Device.size
  rw [← Nat.succ_mul]
  split
  · rename_i inside
    rw [Nat.min_eq_left (Nat.le_of_mul_le_mul_right inside d.positive)]
  · rename_i outside
    have last : d.blocks ≤ b := by
      by_contra more
      exact outside (Nat.mul_le_mul_right _ (Nat.not_le.mp more))
    rw [Nat.min_eq_right (last.trans (Nat.le_succ b)), le_antisymm seek last]

/-- A bad block is skipped. -/
theorem eraseAhead_bad (here : At d k a s) (near : a < d.reach) (bad : d.isGood a = false) :
    ∃ s', At d k (a + 1) s' ∧ s'.log = s.log ∧ ∀ fuel,
      eraseAhead (k * d.erasesize) d.erasesize (fuel + 1) s =
        eraseAhead (k * d.erasesize) d.erasesize fuel s' := by
  obtain ⟨rfl, e, w, pos, nor⟩ := here
  have positive := s.device.positive
  have nand : s.device.nand = true := by
    unfold Device.isGood at bad
    simp at bad
    exact bad.1
  refine ⟨{ s with
    skipBadBlocks := s.skipBadBlocks + s.device.erasesize
    e := s.e + s.device.erasesize
    pos := lseek s.device s.pos (s.pos + s.device.erasesize) }, ⟨rfl, ?_, ?_, ?_, ?_⟩, rfl, fun fuel => ?_⟩
  · rw [e, Nat.succ_mul]
  · rw [← Nat.add_assoc, w, Nat.succ_mul]
  · dsimp only
    rw [pos, lseek_over (Nat.min_le_right _ _)]
    congr 1
    omega
  · intro nor
    rw [nand] at nor
    cases nor
  · rw [eraseAhead.eq_def]
    dsimp only
    rw [if_pos (by omega), e, blockIsBad_block (near.le.trans Device.reach_le),
      if_neg fun both => Nat.not_le.mpr near both.2, bad]
    rfl

theorem eraseAhead_skip (here : At d k a s) (le : a ≤ g) (near : g ≤ d.reach)
    (bad : ∀ i, a ≤ i → i < g → d.isGood i = false) :
    ∃ s', At d k g s' ∧ s'.log = s.log ∧ ∀ fuel,
      eraseAhead (k * d.erasesize) d.erasesize (fuel + (g - a)) s =
        eraseAhead (k * d.erasesize) d.erasesize fuel s' := by
  induction n_def : g - a generalizing a s with
  | zero =>
    obtain rfl : a = g := by omega
    exact ⟨s, here, rfl, fun fuel => rfl⟩
  | succ n ih =>
    obtain ⟨s₁, here₁, log₁, step⟩ := eraseAhead_bad here (by omega) (bad a le_rfl (by omega))
    obtain ⟨s₂, here₂, log₂, run⟩ := ih here₁ (by omega)
      (fun i least => bad i (by omega)) (by omega)
    exact ⟨s₂, here₂, log₂.trans log₁, fun fuel => (step (fuel + n)).trans (run fuel)⟩

/-- The next good block is found and erased, if it can be. -/
theorem eraseAhead_next (here : At d k a s) (next : selected d.isGood a d.reach = g :: later)
    (enough : d.blocks + 2 ≤ fuel) :
    ∃ s', At d k g s' ∧ s'.log = s.log ∧
      (eraseBlock d ((g + k) * d.erasesize) = none →
        eraseAhead (k * d.erasesize) d.erasesize fuel s = .ok (false, s')) ∧
      ∀ op, eraseBlock d ((g + k) * d.erasesize) = some op →
        eraseAhead (k * d.erasesize) d.erasesize fuel s =
          .ok (true, { s' with log := s'.log ++ [op], e := (g + 1) * d.erasesize }) := by
  obtain ⟨least, near, good, before, -⟩ := selected_eq_cons next
  obtain ⟨s', here', log, run⟩ := eraseAhead_skip here least near.le before
  have within := near.trans_le d.reach_le
  obtain ⟨fuel, rfl⟩ : ∃ n, fuel = n + 2 + (g - a) := ⟨fuel - 2 - (g - a), by omega⟩
  have positive := d.positive
  have asked : blockIsBad d (g * d.erasesize) = .ok false := by
    rw [blockIsBad_block within.le, if_neg fun both => Nat.not_le.mpr near both.2, good]
    rfl
  have device := here'.device
  have e := here'.e
  have w := here'.w
  refine ⟨s', here', log, fun none => ?_, fun op some => ?_⟩
  · rw [run, eraseAhead.eq_def]
    dsimp only
    rw [if_pos (by omega), device, e, asked]
    dsimp only
    rw [← Nat.add_mul, none]
  · rw [run, eraseAhead.eq_def]
    dsimp only
    rw [if_pos (by omega), device, e, asked]
    dsimp only
    rw [← Nat.add_mul, some]
    dsimp only
    rw [eraseAhead.eq_def]
    dsimp only
    rw [if_neg (by omega), Nat.succ_mul]

/-- Behind the last block that the kernel can be asked about, a NAND device ends the program. -/
theorem eraseAhead_unasked (here : At d k a s) (nand : d.nand = true) (inside : a ≤ d.reach)
    (none : selected d.isGood a d.reach = []) (enough : d.blocks + 2 ≤ fuel) :
    eraseAhead (k * d.erasesize) d.erasesize fuel s = .error .exit := by
  obtain ⟨s', here', -, run⟩ := eraseAhead_skip here inside le_rfl (selected_eq_nil none)
  have within := d.reach_le
  obtain ⟨fuel, rfl⟩ : ∃ n, fuel = n + 1 + (d.reach - a) := ⟨fuel - 1 - (d.reach - a), by omega⟩
  have positive := d.positive
  have w := here'.w
  have e := here'.e
  rw [run, eraseAhead.eq_def]
  dsimp only
  rw [if_pos (by omega), here'.device, e, blockIsBad_block within, if_pos ⟨nand, le_rfl⟩]

/-- Behind the end of a NOR device nothing is asked, and the next erasure is tried. -/
theorem eraseAhead_nor (here : At d k d.blocks s) (nor : d.nand = false) :
    (eraseBlock d ((d.blocks + k) * d.erasesize) = none →
      eraseAhead (k * d.erasesize) d.erasesize (d.blocks + 2) s = .ok (false, s)) ∧
    ∀ op, eraseBlock d ((d.blocks + k) * d.erasesize) = some op →
      eraseAhead (k * d.erasesize) d.erasesize (d.blocks + 2) s =
        .ok (true, { s with log := s.log ++ [op], e := (d.blocks + 1) * d.erasesize }) := by
  have positive := d.positive
  have device := here.device
  have e := here.e
  have w := here.w
  have asked : blockIsBad d (d.blocks * d.erasesize) = .ok false := by
    rw [blockIsBad, nor]
    rfl
  constructor
  · intro none
    rw [eraseAhead.eq_def]
    dsimp only
    rw [if_pos (by omega), device, e, asked]
    dsimp only
    rw [← Nat.add_mul, none]
  · intro op some
    rw [eraseAhead.eq_def]
    dsimp only
    rw [if_pos (by omega), device, e, asked]
    dsimp only
    rw [← Nat.add_mul, some]
    dsimp only
    rw [eraseAhead.eq_def]
    dsimp only
    rw [if_neg (by omega), Nat.succ_mul]

/-! ### The input -/

theorem Ready.fill (ready : Ready d cs input) :
    input.buf ++ input.file.take (d.erasesize - input.buf.length) =
      (input.buf ++ input.file).take d.erasesize := by
  rw [List.take_append, List.take_of_length_le ready.short]

theorem Ready.rest (ready : Ready d cs input) :
    input.file.drop (d.erasesize - input.buf.length) = (input.buf ++ input.file).drop d.erasesize := by
  rw [List.drop_append, List.drop_eq_nil_of_le ready.short, List.nil_append]

theorem Ready.done (ready : Ready d [] input) : input.buf ++ input.file = [] := by
  by_contra more
  have blocks := ready.blocks
  rw [blocksOf_cons d.positive more] at blocks
  cases blocks

theorem Ready.block (ready : Ready d (c :: cs) input) : (input.buf ++ input.file).take d.erasesize ≠ [] ∧
    (input.buf ++ input.file).take d.erasesize ++ List.replicate
      (d.erasesize - ((input.buf ++ input.file).take d.erasesize).length) 0xff = c ∧
    Ready d cs ⟨[], (input.buf ++ input.file).drop d.erasesize, 0⟩ := by
  have more : input.buf ++ input.file ≠ [] := by
    intro none
    have blocks := ready.blocks
    rw [none, blocksOf_nil] at blocks
    cases blocks
  have blocks := ready.blocks
  rw [blocksOf_cons d.positive more, List.cons.injEq] at blocks
  refine ⟨fun none => ?_, ?_, rfl, Nat.zero_le _, blocks.2⟩
  · rw [List.take_eq_nil_iff] at none
    exact none.elim d.positive.ne' more
  · rw [← blocks.1, List.length_take]
    congr 2
    omega

theorem Ready.length (ready : Ready d (c :: cs) input) : c.length = d.erasesize :=
  length_of_mem_blocksOf (by rw [ready.blocks]; exact List.mem_cons_self)

/-! ### Rounds -/

/-- Without anything to write the function returns. -/
theorem writeLoop_done (ready : Ready d [] input) (here : At d k a s) :
    writeLoop (k * d.erasesize) d.erasesize last (fuel + 1) input s = .ok (none, s) := by
  rw [writeLoop.eq_def]
  dsimp only
  rw [here.device, ready.fill, ready.done, List.take_nil, if_pos rfl]

/-- A round with something to write, up to what the erasures give. -/
theorem writeLoop_some (ready : Ready d (c :: cs) input) (here : At d k a s) :
    (∀ stop, eraseAhead (k * d.erasesize) d.erasesize (d.blocks + 2) s = .error stop →
      writeLoop (k * d.erasesize) d.erasesize last (fuel + 1) input s = .error stop) ∧
    (∀ s', eraseAhead (k * d.erasesize) d.erasesize (d.blocks + 2) s = .ok (false, s') →
      (last = true → writeLoop (k * d.erasesize) d.erasesize last (fuel + 1) input s = .error .exit) ∧
      (last = false → ¬s'.w < s'.e → writeLoop (k * d.erasesize) d.erasesize last (fuel + 1) input s =
        .ok (some ⟨c, (input.buf ++ input.file).drop d.erasesize, 0⟩, s'))) ∧
    (∀ s', eraseAhead (k * d.erasesize) d.erasesize (d.blocks + 2) s = .ok (true, s') → s'.device = d →
      writeLoop (k * d.erasesize) d.erasesize last (fuel + 1) input s =
        if d.size < s'.pos + d.erasesize then .error .exit
        else writeLoop (k * d.erasesize) d.erasesize last fuel
          ⟨[], (input.buf ++ input.file).drop d.erasesize, 0⟩
          { s' with
            log := s'.log ++ [.write s'.pos c]
            pos := s'.pos + d.erasesize
            w := s'.w + d.erasesize }) := by
  obtain ⟨some, block, -⟩ := ready.block
  have length := ready.length
  have device := here.device
  refine ⟨fun stop stopped => ?_, fun s' failed => ⟨fun last => ?_, fun more level => ?_⟩,
    fun s' erased same => ?_⟩
  all_goals
    rw [writeLoop.eq_def]
    dsimp only
    rw [device, ready.fill, if_neg some, if_neg (lt_irrefl _), block, length]
  · rw [stopped]
  · rw [failed]
    dsimp only
    rw [if_pos last]
  · rw [failed]
    dsimp only
    rw [if_neg (by simp [more]), if_neg level, ready.rest, ready.offset]
  · rw [erased]
    dsimp only
    rw [ready.offset, Nat.zero_add, if_neg (lt_irrefl _), same, ready.rest, List.drop_zero,
      List.take_of_length_le length.le]

theorem eraseBlock_eq (offset : Nat) : eraseBlock d offset =
    if offset % 2 ^ 32 + d.erasesize ≤ d.size then some (.erase (offset % 2 ^ 32)) else none := rfl

theorem pos_inside (inside : b < d.blocks) : ¬d.size < min b d.blocks * d.erasesize + d.erasesize := by
  rw [Nat.min_eq_left inside.le, ← Nat.succ_mul, Nat.not_lt]
  exact Nat.mul_le_mul_right _ inside

theorem pos_outside (outside : d.blocks ≤ b) : d.size < min b d.blocks * d.erasesize + d.erasesize := by
  rw [Nat.min_eq_right outside]
  exact Nat.lt_add_of_pos_right d.positive

/-- A block of the image on the next good block. -/
theorem writeLoop_take (ready : Ready d (c :: cs) input) (here : At d k a s)
    (next : selected d.isGood a d.reach = g :: later) (takes : d.Takes k g) :
    ∃ s', At d k (g + 1) s' ∧ s'.log = s.log ++ d.ops k [(g, c)] ∧ ∀ fuel,
      writeLoop (k * d.erasesize) d.erasesize last (fuel + 1) input s =
        writeLoop (k * d.erasesize) d.erasesize last fuel
          ⟨[], (input.buf ++ input.file).drop d.erasesize, 0⟩ s' := by
  obtain ⟨s₁, here₁, log₁, -, erased⟩ := eraseAhead_next here next le_rfl
  have erased := erased _ ((eraseBlock_eq _).trans (if_pos takes.1))
  obtain ⟨device, -, w, pos, nor⟩ := here₁
  have inside := pos_inside takes.2
  rw [← pos] at inside
  rw [Nat.min_eq_left takes.2.le] at pos
  refine ⟨_, ?_, ?_, fun fuel => ((writeLoop_some ready here).2.2 _ erased device).trans (if_neg inside)⟩
  · refine ⟨device, rfl, ?_, ?_, nor⟩
    · change s₁.w + d.erasesize + s₁.skipBadBlocks = (g + 1) * d.erasesize
      rw [Nat.add_right_comm, w, Nat.succ_mul]
    · change s₁.pos + d.erasesize = _
      rw [pos, ← Nat.succ_mul, ← Nat.add_assoc, Nat.min_eq_left takes.2]
  · change s₁.log ++ [_] ++ [Op.write s₁.pos c] = _
    rw [log₁, pos, List.append_assoc]
    rfl

/-- On the last device a block that cannot be erased or written ends the program. -/
theorem writeLoop_refused (ready : Ready d (c :: cs) input) (here : At d k a s)
    (next : selected d.isGood a d.reach = g :: later) (refused : ¬d.Takes k g) :
    writeLoop (k * d.erasesize) d.erasesize true (fuel + 1) input s = .error .exit := by
  obtain ⟨s₁, here₁, -, failed, erased⟩ := eraseAhead_next here next le_rfl
  by_cases erases : (g + k) * d.erasesize % 2 ^ 32 + d.erasesize ≤ d.size
  · have erased := erased _ ((eraseBlock_eq _).trans (if_pos erases))
    have outside : d.blocks ≤ d.seekBlock k + g := Nat.not_lt.mp fun inside => refused ⟨erases, inside⟩
    refine ((writeLoop_some ready here).2.2 _ erased here₁.device).trans (if_pos ?_)
    rw [here₁.pos]
    exact pos_outside outside
  · have failed := failed ((eraseBlock_eq _).trans (if_neg erases))
    exact ((writeLoop_some ready here).2.1 _ failed).1 rfl

/-- Where no good block is left, the last device ends the program. -/
theorem writeLoop_full (ready : Ready d (c :: cs) input) (here : At d k a s) (inside : a ≤ d.reach)
    (none : selected d.isGood a d.reach = []) :
    writeLoop (k * d.erasesize) d.erasesize true (fuel + 1) input s = .error .exit := by
  cases nand : d.nand with
  | true => exact (writeLoop_some ready here).1 _ (eraseAhead_unasked here nand inside none le_rfl)
  | false =>
    obtain rfl : a = d.blocks := by
      refine le_antisymm (inside.trans d.reach_le) (Nat.not_lt.mp fun more => ?_)
      have good := selected_eq_nil none a le_rfl (by rwa [Device.reach, nand])
      rw [Device.isGood, nand] at good
      cases good
    obtain ⟨failed, erased⟩ := eraseAhead_nor here nand
    cases result : eraseBlock d ((d.blocks + k) * d.erasesize) with
    | none => exact ((writeLoop_some ready here).2.1 _ (failed result)).1 rfl
    | some op =>
      refine ((writeLoop_some ready here).2.2 _ (erased op result) here.device).trans (if_pos ?_)
      change d.size < s.pos + d.erasesize
      rw [here.pos]
      exact pos_outside (Nat.le_add_left _ _)

/-- Blocks of the image on the next good blocks, as long as these can be written. -/
theorem writeLoop_run (ready : Ready d cs input) (here : At d k a s) (inside : a ≤ d.reach)
    (next : selected d.isGood a d.reach = gs ++ later) (enough : gs.length ≤ cs.length)
    (takes : ∀ g ∈ gs, d.Takes k g) :
    ∃ a' s' input', At d k a' s' ∧ a' ≤ d.reach ∧ Ready d (cs.drop gs.length) input' ∧
      selected d.isGood a' d.reach = later ∧ s'.log = s.log ++ d.ops k (gs.zip cs) ∧
      input'.file.length ≤ input.file.length ∧ ∀ fuel,
      writeLoop (k * d.erasesize) d.erasesize last (fuel + gs.length) input s =
        writeLoop (k * d.erasesize) d.erasesize last fuel input' s' := by
  induction gs generalizing a s input cs with
  | nil => exact ⟨a, s, input, here, inside, ready, next, (List.append_nil _).symm, le_rfl, fun fuel => rfl⟩
  | cons g gs ih =>
    cases cs with
    | nil => cases enough
    | cons c cs =>
      rw [List.forall_mem_cons] at takes
      obtain ⟨-, near, -, -, rest⟩ := selected_eq_cons next
      obtain ⟨s₁, here₁, log₁, step⟩ := @writeLoop_take d a g k s input c cs (gs ++ later) last ready here next takes.1
      obtain ⟨a₂, s₂, input₂, here₂, inside₂, ready₂, next₂, log₂, shorter, run⟩ :=
        ih ready.block.2.2 here₁ near rest.symm (Nat.le_of_succ_le_succ enough) takes.2
      refine ⟨a₂, s₂, input₂, here₂, inside₂, ready₂, next₂, ?_, shorter.trans ?_, fun fuel =>
        (step (fuel + gs.length)).trans (run fuel)⟩
      · rw [log₂, log₁, List.append_assoc]
        rfl
      · rw [← ready.rest, List.length_drop]
        exact Nat.sub_le _ _

end Rounds

end FirewallCore.MtdTool
