import FirewallCore.MtdTool.Layout

/-!
Reading a device: `mtd_dump`, which leaves out bad blocks, and `mtd_verify`, which does not.
-/

namespace FirewallCore.MtdTool

open FirewallCore.Lib Blocks

/-- The loop of `mtd_dump`: what it returns, and its output. -/
def dumpLoop (d : Device) : Nat → Nat → Nat → Int → List UInt8 → Except Stop (Int × List UInt8)
  | 0, _, _, _, _ => .error .fuel
  | fuel + 1, pos, offset, size, out =>
    let len : Int := if size > d.erasesize then d.erasesize else size
    -- a negative length is a large one for the kernel
    let bytes := d.read pos (if len < 0 then d.size else len.toNat)
    if d.erasesize < bytes.length then .error .outside
    else if bytes = [] ∨ (bytes.length : Int) ≠ len then .ok (0, out)
    else
      match blockIsBad d offset with
      | .error stop => .error stop
      | .ok true =>
        if size > 0 then dumpLoop d fuel (pos + bytes.length) (offset + bytes.length) size out
        else .ok (0, out)
      | .ok false =>
        if size - bytes.length > 0 then
          dumpLoop d fuel (pos + bytes.length) (offset + bytes.length) (size - bytes.length) (out ++ bytes)
        else .ok (0, out ++ bytes)

/-- `mtd_dump` with its parameters as `int`; the size of a device is put into one too. -/
def mtdDump (d : Device) (partOffset size : Int) : Except Stop (Int × List UInt8) :=
  dumpLoop d (d.size + 1) (if 0 ≤ partOffset then lseek d 0 partOffset.toNat else 0) 0
    (if size = 0 then (d.size : Int).bmod (2 ^ 32) else size) []

/-- What `mtd_verify` reads, in pieces of 256 bytes. -/
def verifyRead (d : Device) : Nat → Nat → Nat → List UInt8
  | 0, _, _ => []
  | fuel + 1, pos, left =>
    let bytes := d.read pos (if left > 256 then 256 else left)
    if bytes = [] then []
    else if left - bytes.length > 0 then
      bytes ++ verifyRead d fuel (pos + bytes.length) (left - bytes.length)
    else bytes

/-- Whether `mtd_verify` reports success for a file, with MD5 of what was read. -/
def mtdVerify {Digest : Type} [DecidableEq Digest] (md5 : List UInt8 → Digest) (d : Device)
    (file : List UInt8) : Bool :=
  md5 file = md5 (verifyRead d (file.length + 1) 0 file.length)

section Verify

variable {d : Device} {fuel len left n pos : Nat}

theorem read_add (a b : Nat) : d.read pos (a + b) = d.read pos a ++ d.read (pos + a) b := by
  unfold Device.read
  rcases Nat.le_total (d.size - pos) a with short | long
  · rw [Nat.min_eq_right (short.trans (Nat.le_add_right _ _)), Nat.min_eq_right short,
      show min b (d.size - (pos + a)) = 0 by omega]
    simp
  · rw [Nat.min_eq_left long, show min (a + b) (d.size - pos) = a + min b (d.size - (pos + a)) by omega,
      List.range_add, List.map_append, List.map_map]
    congr 1
    refine List.map_congr_left fun i _ => ?_
    simp only [Function.comp_apply, Nat.add_assoc]

theorem read_length (inside : pos + len ≤ d.size) : (d.read pos len).length = len := by
  rw [length_read]
  omega

theorem read_eq_nil : d.read pos len = [] ↔ len = 0 ∨ d.size ≤ pos := by
  rw [← List.length_eq_zero_iff, length_read]
  omega

/-- The pieces are what is there. -/
theorem verifyRead_eq (enough : left < fuel) : verifyRead d fuel pos left = d.read pos left := by
  induction fuel generalizing pos left with
  | zero => cases enough
  | succ fuel ih =>
    have piece : (if left > 256 then 256 else left) = min left 256 := by
      split
      · omega
      · omega
    have length := @length_read d pos (min left 256)
    rw [verifyRead, piece]
    split
    · rename_i none
      rw [read_eq_nil] at none
      exact (read_eq_nil.mpr (by omega)).symm
    · split
      · rename_i some more
        rw [read_eq_nil, not_or] at some
        have step : left = (d.read pos (min left 256)).length + (left - (d.read pos (min left 256)).length) := by
          omega
        rw [ih (by omega)]
        by_cases whole : min left 256 ≤ d.size - pos
        · rw [length, Nat.min_eq_left whole, ← read_add]
          congr 1
          omega
        · have nothing : d.read (pos + (d.read pos (min left 256)).length)
              (left - (d.read pos (min left 256)).length) = [] := read_eq_nil.mpr (by omega)
          rw [nothing, List.append_nil]
          unfold Device.read
          congr 2
          omega
      · rename_i some last
        rw [read_eq_nil, not_or] at some
        unfold Device.read
        congr 2
        omega

end Verify

/-! ### Rounds of a dump -/

section Dump

variable {d : Device} {a b fuel g i k len m n offset pos r : Nat} {size : Int} {out : List UInt8}
  {bad : Bool} {gs later : List Nat}

/-- A round that reads what it asks for, with enough rounds left for the rest of the device. -/
theorem dumpLoop_step (enough : d.size < fuel + pos) (some : 0 < len) (inside : pos + len ≤ d.size)
    (asks : (if size > d.erasesize then (d.erasesize : Int) else size) = len)
    (asked : blockIsBad d offset = .ok bad) : ∃ fuel', d.size < fuel' + (pos + len) ∧
      dumpLoop d fuel pos offset size out =
        if bad then dumpLoop d fuel' (pos + len) (offset + len) size out
        else if size - len > 0 then
          dumpLoop d fuel' (pos + len) (offset + len) (size - len) (out ++ d.read pos len)
        else .ok (0, out ++ d.read pos len) := by
  cases fuel with
  | zero => omega
  | succ fuel =>
    have length := read_length inside
    have short : len ≤ d.erasesize := by
      split at asks
      · omega
      · omega
    have positive : size > 0 := by
      split at asks
      · omega
      · omega
    refine ⟨fuel, by omega, ?_⟩
    rw [dumpLoop.eq_def]
    dsimp only
    rw [asks, if_neg (Int.not_lt.mpr (Int.natCast_nonneg len)), Int.toNat_natCast, length,
      if_neg (Nat.not_lt.mpr short), if_neg, asked]
    · cases bad with
      | true => exact if_pos positive
      | false => rfl
    · rw [read_eq_nil]
      omega

/-- A read that gives less ends the dump. -/
theorem dumpLoop_short (enough : pos < fuel + pos) (short : len ≤ d.erasesize) (some : 0 < len)
    (ends : d.size < pos + len)
    (asks : (if size > d.erasesize then (d.erasesize : Int) else size) = len) :
    dumpLoop d fuel pos offset size out = .ok (0, out) := by
  cases fuel with
  | zero => omega
  | succ fuel =>
    have length := @length_read d pos len
    have differs : ((d.read pos len).length : Int) ≠ len := by omega
    rw [dumpLoop.eq_def]
    dsimp only
    rw [asks, if_neg (Int.not_lt.mpr (Int.natCast_nonneg len)), Int.toNat_natCast, if_neg (by omega),
      if_pos (.inr differs)]

/-- A block that cannot be asked about ends the program. -/
theorem dumpLoop_stop {stop : Stop} (enough : pos < fuel + pos) (short : len ≤ d.erasesize) (some : 0 < len)
    (inside : pos + len ≤ d.size) (asks : (if size > d.erasesize then (d.erasesize : Int) else size) = len)
    (asked : blockIsBad d offset = .error stop) : dumpLoop d fuel pos offset size out = .error stop := by
  cases fuel with
  | zero => omega
  | succ fuel =>
    have length := read_length inside
    rw [dumpLoop.eq_def]
    dsimp only
    rw [asks, if_neg (Int.not_lt.mpr (Int.natCast_nonneg len)), Int.toNat_natCast, length,
      if_neg (Nat.not_lt.mpr short), if_neg, asked]
    rw [read_eq_nil]
    omega

theorem mul_add_block (inside : b < d.blocks) : b * d.erasesize + d.erasesize ≤ d.size := by
  rw [← Nat.succ_mul]
  exact Nat.mul_le_mul_right _ inside

theorem asks_whole (whole : (d.erasesize : Int) ≤ size) :
    (if size > d.erasesize then (d.erasesize : Int) else size) = d.erasesize := by
  split
  · rfl
  · omega

/-- A bad block is left out. -/
theorem dumpLoop_bad (enough : d.size < fuel + (k + a) * d.erasesize) (whole : (d.erasesize : Int) ≤ size)
    (near : a < d.reach) (inside : k + a < d.blocks) (marked : d.isGood a = false) :
    ∃ fuel', d.size < fuel' + (k + (a + 1)) * d.erasesize ∧
      dumpLoop d fuel ((k + a) * d.erasesize) (a * d.erasesize) size out =
        dumpLoop d fuel' ((k + (a + 1)) * d.erasesize) ((a + 1) * d.erasesize) size out := by
  have asked : blockIsBad d (a * d.erasesize) = .ok true := by
    rw [blockIsBad_block (near.le.trans d.reach_le), if_neg fun both => Nat.not_le.mpr near both.2, marked]
    rfl
  obtain ⟨fuel', enough', step⟩ := @dumpLoop_step d _ _ _ _ _ out _ enough d.positive (mul_add_block inside)
    (asks_whole whole) asked
  rw [← Nat.succ_mul] at enough' step
  refine ⟨fuel', enough', step.trans ?_⟩
  rw [if_pos rfl, ← Nat.succ_mul]
  rfl

theorem dumpLoop_skip (enough : d.size < fuel + (k + a) * d.erasesize) (whole : (d.erasesize : Int) ≤ size)
    (le : a ≤ g) (near : g ≤ d.reach) (inside : k + g ≤ d.blocks)
    (marked : ∀ i, a ≤ i → i < g → d.isGood i = false) :
    ∃ fuel', d.size < fuel' + (k + g) * d.erasesize ∧
      dumpLoop d fuel ((k + a) * d.erasesize) (a * d.erasesize) size out =
        dumpLoop d fuel' ((k + g) * d.erasesize) (g * d.erasesize) size out := by
  induction n_def : g - a generalizing a fuel with
  | zero =>
    obtain rfl : a = g := by omega
    exact ⟨fuel, enough, rfl⟩
  | succ n ih =>
    obtain ⟨fuel₁, enough₁, step⟩ := @dumpLoop_bad d _ _ _ _ out enough whole (by omega) (by omega)
      (marked a le_rfl (by omega))
    obtain ⟨fuel₂, enough₂, rest⟩ := ih enough₁ (by omega) (fun i least => marked i (by omega)) (by omega)
    exact ⟨fuel₂, enough₂, step.trans rest⟩

/-- Good blocks are put out, with something left behind them. -/
theorem dumpLoop_blocks (enough : d.size < fuel + (k + a) * d.erasesize) (some : 0 < r)
    (next : selected d.isGood a d.reach = gs ++ later) (inside : ∀ g ∈ gs, k + g < d.blocks) :
    ∃ fuel', d.size < fuel' + (k + behind a gs) * d.erasesize ∧
      dumpLoop d fuel ((k + a) * d.erasesize) (a * d.erasesize) (gs.length * d.erasesize + r : Nat) out =
        dumpLoop d fuel' ((k + behind a gs) * d.erasesize)
          (behind a gs * d.erasesize) r (out ++ gs.flatMap fun g => d.block (k + g)) := by
  induction gs generalizing a fuel out with
  | nil => exact ⟨fuel, enough, by simp [behind]⟩
  | cons g gs ih =>
    rw [List.forall_mem_cons] at inside
    obtain ⟨least, near, good, before, rest⟩ := selected_eq_cons next
    have whole : (d.erasesize : Int) ≤ (((g :: gs).length * d.erasesize + r : Nat) : Int) := by
      rw [List.length_cons, Nat.succ_mul]
      omega
    obtain ⟨fuel₁, enough₁, skip⟩ := @dumpLoop_skip d _ _ _ _ _ out enough whole least near.le inside.1.le before
    have asked : blockIsBad d (g * d.erasesize) = .ok false := by
      rw [blockIsBad_block (near.le.trans d.reach_le), if_neg fun both => Nat.not_le.mpr near both.2, good]
      rfl
    obtain ⟨fuel₂, enough₂, step⟩ := @dumpLoop_step d _ _ _ _ _ out _ enough₁ d.positive
      (mul_add_block inside.1) (asks_whole whole) asked
    have left : (((g :: gs).length * d.erasesize + r : Nat) : Int) - d.erasesize =
        ((gs.length * d.erasesize + r : Nat) : Int) := by
      rw [List.length_cons, Nat.succ_mul]
      omega
    rw [left, if_neg (by decide), if_pos (by omega), ← Nat.succ_mul, ← Nat.succ_mul] at step
    rw [← Nat.succ_mul] at enough₂
    obtain ⟨fuel₃, enough₃, later⟩ := @ih _ _ (out ++ d.block (k + g)) enough₂ rest.symm inside.2
    refine ⟨fuel₃, ?_, skip.trans (step.trans ?_)⟩
    · rwa [behind_cons]
    · rw [behind_cons, List.flatMap_cons, ← List.append_assoc]
      exact later

/-! ### The last bytes -/

theorem blockIsBad_at (inside : offset < d.size) : blockIsBad d offset =
    if d.nand = true ∧ 2 ^ 31 ≤ offset then .error .exit else .ok !d.isGood (offset / d.erasesize) := by
  have small : offset < 2 ^ 32 := inside.trans d.small
  unfold blockIsBad Device.isGood
  rw [Nat.mod_eq_of_lt small]
  cases nand : d.nand with
  | false => rfl
  | true =>
    by_cases far : 2 ^ 31 ≤ offset
    · rw [if_pos rfl, if_neg fun near => Nat.not_le.mpr near.1 far, if_pos ⟨rfl, far⟩]
    · rw [if_pos rfl, if_pos ⟨Nat.not_le.mp far, inside⟩, if_neg fun both => far both.2]
      simp

/-- How far reads of some bytes go beyond the bytes of some blocks. -/
def overshoot (bytes r : Nat) : Nat := (bytes + r - 1) / r * r - bytes

theorem asks_rest (short : r ≤ d.erasesize) :
    (if (r : Int) > d.erasesize then (d.erasesize : Int) else r) = r := if_neg (by omega)

theorem nand_lt_reach (near : g < d.reach) (nand : d.nand = true) : g * d.erasesize < 2 ^ 31 := by
  have positive := d.positive
  rw [Device.reach, nand, if_pos rfl, Nat.lt_min, Nat.lt_div_iff_mul_lt positive] at near
  omega

/-- Bad blocks are left out in pieces of the size that is left. -/
theorem dumpLoop_pieces (enough : d.size < fuel + ((k + a) * d.erasesize + m)) (some : 0 < r)
    (short : r ≤ d.erasesize) (near : g < d.reach) (inside : k + g < d.blocks)
    (marked : ∀ i, a ≤ i → i < g → d.isGood i = false) (count : n = 0 ∨ a * d.erasesize + m + (n - 1) * r < g * d.erasesize) :
    ∃ fuel', d.size < fuel' + ((k + a) * d.erasesize + (m + n * r)) ∧
      dumpLoop d fuel ((k + a) * d.erasesize + m) (a * d.erasesize + m) r out =
        dumpLoop d fuel' ((k + a) * d.erasesize + (m + n * r)) (a * d.erasesize + (m + n * r)) r out := by
  have positive := d.positive
  induction n generalizing m fuel with
  | zero => exact ⟨fuel, by simpa using enough, by simp⟩
  | succ n ih =>
    have more := count.resolve_left (Nat.succ_ne_zero n)
    rw [Nat.add_sub_cancel] at more
    have before : a * d.erasesize + m < g * d.erasesize := by omega
    have whole := mul_add_block inside
    rw [Nat.add_mul] at whole
    have inner : a * d.erasesize + m < d.size := by omega
    have piece : (a * d.erasesize + m) / d.erasesize < g := (Nat.div_lt_iff_lt_mul positive).mpr before
    have least : a ≤ (a * d.erasesize + m) / d.erasesize :=
      (Nat.le_div_iff_mul_le positive).mpr (Nat.le_add_right _ _)
    have asked : blockIsBad d (a * d.erasesize + m) = .ok true := by
      rw [blockIsBad_at inner, marked _ least piece, if_neg]
      · rfl
      · rintro ⟨nand, far⟩
        have bound := nand_lt_reach near nand
        omega
    obtain ⟨fuel₁, enough₁, step⟩ := @dumpLoop_step d _ _ _ _ _ out _ enough some
      (show (k + a) * d.erasesize + m + r ≤ d.size by rw [Nat.add_mul]; omega) (asks_rest short) asked
    rw [if_pos rfl, Nat.add_assoc, Nat.add_assoc] at step
    rw [Nat.add_assoc] at enough₁
    obtain ⟨fuel₂, enough₂, rest⟩ := ih enough₁ (by
      cases n with
      | zero => exact .inl rfl
      | succ n =>
        right
        rw [Nat.succ_mul] at more
        rw [Nat.add_sub_cancel]
        omega)
    have total : m + r + n * r = m + (n + 1) * r := by
      rw [Nat.succ_mul]
      omega
    rw [total] at enough₂ rest
    exact ⟨fuel₂, enough₂, step.trans rest⟩

theorem overshoot_spec (bytes : Nat) (some : 0 < r) : overshoot bytes r < r ∧
    (bytes + r - 1) / r * r = bytes + overshoot bytes r := by
  have least := Nat.div_mul_le_self (bytes + r - 1) r
  have most : bytes + r - 1 < (bytes + r - 1) / r * r + r := Nat.lt_div_mul_add some
  unfold overshoot
  omega

/-- The last bytes are put out where these reads arrive in the next good block. -/
theorem dumpLoop_last (enough : d.size < fuel + (k + a) * d.erasesize) (some : 0 < r)
    (short : r ≤ d.erasesize) (next : selected d.isGood a d.reach = g :: later) (inside : k + g < d.blocks) :
    dumpLoop d fuel ((k + a) * d.erasesize) (a * d.erasesize) r out =
      if (k + g) * d.erasesize + overshoot ((g - a) * d.erasesize) r + r ≤ d.size then
        if d.nand = true ∧ 2 ^ 31 ≤ g * d.erasesize + overshoot ((g - a) * d.erasesize) r then .error .exit
        else .ok (0, out ++ d.read ((k + g) * d.erasesize + overshoot ((g - a) * d.erasesize) r) r)
      else .ok (0, out) := by
  obtain ⟨least, near, good, before, -⟩ := selected_eq_cons next
  have distance : a * d.erasesize + (g - a) * d.erasesize = g * d.erasesize := by
    rw [← Nat.add_mul, Nat.add_sub_cancel' least]
  obtain ⟨small, pieces⟩ := overshoot_spec ((g - a) * d.erasesize) some
  obtain ⟨x, x_def⟩ : ∃ x, overshoot ((g - a) * d.erasesize) r = x := ⟨_, rfl⟩
  rw [x_def] at small pieces ⊢
  obtain ⟨fuel', enough', skip⟩ := @dumpLoop_pieces d a fuel g k 0
    (((g - a) * d.erasesize + r - 1) / r) r out enough some short near inside before (by
      cases count : ((g - a) * d.erasesize + r - 1) / r with
      | zero => exact .inl rfl
      | succ n =>
        right
        rw [count, Nat.succ_mul] at pieces
        rw [Nat.add_sub_cancel]
        omega)
  rw [Nat.zero_add, pieces] at enough' skip
  have place : (k + a) * d.erasesize + ((g - a) * d.erasesize + x) = (k + g) * d.erasesize + x := by
    rw [Nat.add_mul, Nat.add_mul]
    omega
  have place' : a * d.erasesize + ((g - a) * d.erasesize + x) = g * d.erasesize + x := by omega
  rw [place] at enough' skip
  rw [place'] at skip
  rw [Nat.add_zero, Nat.add_zero] at skip
  have whole := mul_add_block inside
  have inner : g * d.erasesize + x < d.size := by
    rw [Nat.add_mul] at whole
    omega
  have block : (g * d.erasesize + x) / d.erasesize = g :=
    div_eq_iff.mpr ⟨Nat.le_add_right _ _, by omega⟩
  have asked := blockIsBad_at inner
  rw [block, good] at asked
  rw [skip]
  by_cases fits : (k + g) * d.erasesize + x + r ≤ d.size
  · rw [if_pos fits]
    by_cases far : d.nand = true ∧ 2 ^ 31 ≤ g * d.erasesize + x
    · rw [if_pos far] at asked ⊢
      exact dumpLoop_stop (by omega) short some fits (asks_rest short) asked
    · rw [if_neg far] at asked ⊢
      obtain ⟨fuel'', -, step⟩ := @dumpLoop_step d _ _ _ _ _ out _ enough' some fits (asks_rest short) asked
      rw [step, if_neg (by decide), if_neg (by omega)]
  · rw [if_neg fits]
    exact dumpLoop_short (by omega) short some (by omega) (asks_rest short)

/-- The file is at a block when a dump starts. -/
theorem lseek_start : (if 0 ≤ ((k * d.erasesize : Nat) : Int) then
    lseek d 0 ((k * d.erasesize : Nat) : Int).toNat else 0) = d.seekBlock k * d.erasesize := by
  have inside : k * d.erasesize ≤ d.size ↔ k ≤ d.blocks :=
    ⟨fun le => Nat.le_of_mul_le_mul_right le d.positive, fun le => Nat.mul_le_mul_right _ le⟩
  simp only [Int.natCast_nonneg, Int.toNat_natCast, if_true, lseek, Device.seekBlock, inside]
  split
  · rfl
  · exact (Nat.zero_mul _).symm

/-! ### A dump of the whole device -/

/-- What was put out stays. -/
theorem dumpLoop_begins {code : Int} {out' : List UInt8} (done : dumpLoop d fuel pos offset size out = .ok (code, out')) :
    out <+: out' := by
  induction fuel generalizing pos offset size out with
  | zero => cases done
  | succ fuel ih =>
    rw [dumpLoop.eq_def] at done
    dsimp only at done
    generalize (if size > d.erasesize then (d.erasesize : Int) else size) = len at done
    generalize d.read pos (if len < 0 then d.size else len.toNat) = bytes at done
    by_cases long : d.erasesize < bytes.length
    · rw [if_pos long] at done
      cases done
    · rw [if_neg long] at done
      by_cases ends : bytes = [] ∨ (bytes.length : Int) ≠ len
      · rw [if_pos ends] at done
        cases done
        exact List.prefix_rfl
      · rw [if_neg ends] at done
        cases asked : blockIsBad d offset with
        | error stop =>
          rw [asked] at done
          cases done
        | ok bad =>
          rw [asked] at done
          cases bad with
          | true =>
            dsimp only at done
            split at done
            · exact ih done
            · cases done
              exact List.prefix_rfl
          | false =>
            dsimp only at done
            split at done
            · exact (List.prefix_append _ _).trans (ih done)
            · cases done
              exact List.prefix_append _ _

/-- A dump without a size gives nothing: no block from the start on is good, or the size is negative. -/
def Device.DumpsNothing (d : Device) (k : Nat) : Prop :=
  if d.size < 2 ^ 31 then ∀ i < d.blocks - k, d.isGood i = false else d.blocks ≤ k + 1

theorem dumpLoop_zero : dumpLoop d (fuel + 1) pos offset 0 out = .ok (0, out) := by
  rw [dumpLoop.eq_def]
  dsimp only
  have none : d.read pos (if (0 : Int) < 0 then d.size else (0 : Int).toNat) = [] := read_eq_nil.mpr (.inl rfl)
  rw [if_neg (show ¬(0 : Int) > d.erasesize by omega), none, if_neg (by simp), if_pos (.inl rfl)]

theorem dumpLoop_all (start : k ≤ d.blocks) (small : d.size < 2 ^ 31) :
    dumpLoop d (d.size + 1) (k * d.erasesize) 0 d.size [] = .ok (0, []) ↔
      ∀ i < d.blocks - k, d.isGood i = false := by
  have positive := d.positive
  have all : d.reach = d.blocks := by
    unfold Device.reach
    split
    · refine Nat.min_eq_left (Nat.le_of_lt_succ ?_)
      rw [Nat.succ_eq_add_one, ← Nat.add_div_right _ positive, Nat.lt_div_iff_mul_lt positive]
      unfold Device.size at small
      omega
    · rfl
  have pos : k * d.erasesize ≤ d.size := Nat.mul_le_mul_right _ start
  have enough : d.size < d.size + 1 + (k + 0) * d.erasesize := by omega
  cases first : selected d.isGood 0 (d.blocks - k) with
  | nil =>
    have marked := selected_eq_nil first
    refine iff_of_true ?_ fun i => marked i (Nat.zero_le i)
    rcases Nat.eq_zero_or_pos d.blocks with none | some
    · have empty : d.size = 0 := by rw [Device.size, none, Nat.zero_mul]
      rw [empty]
      exact dumpLoop_zero
    · have whole : (d.erasesize : Int) ≤ d.size := by
        exact_mod_cast Nat.le_mul_of_pos_left _ some
      obtain ⟨fuel', enough', skip⟩ := @dumpLoop_skip d 0 _ (d.blocks - k) k _ [] enough whole
        (Nat.zero_le _) (by omega) (by omega) fun i _ => marked i (Nat.zero_le i)
      simp only [Nat.add_zero, Nat.zero_mul, Nat.add_sub_cancel' start] at skip
      rw [Nat.add_sub_cancel' start] at enough'
      rw [skip]
      have ends : d.size = d.blocks * d.erasesize := rfl
      exact dumpLoop_short (by omega) le_rfl positive (by omega) (asks_whole whole)
  | cons g later =>
    obtain ⟨-, near, good, before, -⟩ := selected_eq_cons first
    refine iff_of_false (fun done => ?_) fun marked => ?_
    · have whole : (d.erasesize : Int) ≤ d.size := by
        exact_mod_cast Nat.le_mul_of_pos_left _ (by omega)
      obtain ⟨fuel', enough', skip⟩ := @dumpLoop_skip d 0 _ g k _ [] enough whole
        (Nat.zero_le _) (by omega) (by omega) before
      simp only [Nat.add_zero, Nat.zero_mul] at skip
      have inside : k + g < d.blocks := by omega
      have asked : blockIsBad d (g * d.erasesize) = .ok false := by
        rw [blockIsBad_block (by omega), if_neg fun both => absurd both.2 (by omega), good]
        rfl
      obtain ⟨fuel'', -, step⟩ := @dumpLoop_step d _ _ _ _ _ [] _ enough' positive (mul_add_block inside)
        (asks_whole whole) asked
      rw [skip, step, if_neg (by decide)] at done
      have begins : d.read ((k + g) * d.erasesize) d.erasesize <+: [] := by
        split at done
        · exact dumpLoop_begins done
        · rw [Except.ok.injEq, Prod.mk.injEq, List.nil_append] at done
          exact ⟨[], by rw [List.append_nil, done.2]⟩
      rw [List.prefix_nil, read_eq_nil] at begins
      have room := mul_add_block inside
      omega
    · rw [marked g near] at good
      cases good

/-- A negative size asks for all that is there. -/
theorem dumpLoop_negative (start : k ≤ d.blocks) (negative : size < 0) :
    dumpLoop d (fuel + 1) (k * d.erasesize) 0 size [] = .ok (0, []) ↔ d.blocks ≤ k + 1 := by
  have length : (d.read (k * d.erasesize) d.size).length = (d.blocks - k) * d.erasesize := by
    rw [length_read, Nat.sub_mul]
    unfold Device.size
    omega
  have short : d.erasesize < (d.blocks - k) * d.erasesize ↔ ¬d.blocks ≤ k + 1 := by
    rw [Nat.lt_mul_iff_one_lt_left d.positive]
    omega
  rw [dumpLoop.eq_def]
  dsimp only
  rw [if_neg (show ¬size > d.erasesize by omega), if_pos negative, length]
  by_cases last : d.blocks ≤ k + 1
  · rw [if_neg (fun long => short.mp long last), if_pos (.inr (by omega))]
    exact iff_of_true rfl last
  · rw [if_pos (short.mpr last)]
    exact iff_of_false (fun done => nomatch done) last

/-- Where a dump without a size gives nothing. -/
theorem mtdDump_zero : mtdDump d (k * d.erasesize : Nat) 0 = .ok (0, []) ↔ d.DumpsNothing (d.seekBlock k) := by
  have start : d.seekBlock k ≤ d.blocks := by
    unfold Device.seekBlock
    split
    · assumption
    · exact Nat.zero_le _
  have large : d.size < 2 ^ 32 := d.small
  rw [mtdDump, lseek_start, if_pos rfl, Device.DumpsNothing]
  by_cases small : d.size < 2 ^ 31
  · rw [if_pos small, Int.bmod_eq_of_le (by omega) (by omega)]
    exact dumpLoop_all start small
  · rw [if_neg small]
    refine dumpLoop_negative start ?_
    rw [Int.bmod_def, Int.emod_eq_of_lt (by omega) (by omega), if_neg (by omega)]
    omega

end Dump

end FirewallCore.MtdTool
