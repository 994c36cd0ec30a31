import FirewallCore.Lib.Dealing
import FirewallCore.Mtd.Bmt

/-!
The mapping of the back end `bbt` (`mtk_bmt_bbt.c`): within a remap range, the logical blocks
are given the good blocks in their order, and then the bad ones.

The ends of a range are addresses in the device tree, and the number of blocks where there is
no range; both are shifted. As `int` values, addresses from 2^31 on are negative.
-/

namespace FirewallCore.Mtd.Bmt

open FirewallCore.Lib

/-- `bbt_block_is_bad`. -/
def Bbt.isBad (s : Bbt) (block : Int) : Bool := s.bad (toU16 block)

/-! ### The loops -/

section Loops

variable {bad : Int → Bool} {n ofs badBlocks : Nat} {i : Int}

/-- The first loop stops at the good block that has `ofs` others before it, or passes over the
whole range. -/
theorem skipBad_eq (bad : Int → Bool) (n : Nat) (i : Int) (ofs badBlocks : Nat) :
    skipBad bad n i ofs badBlocks =
      match (unmarked bad i n)[ofs]? with
      | some found => .inl found
      | none => .inr (ofs - (unmarked bad i n).length, badBlocks + (marked bad i n).length) := by
  induction n generalizing i ofs badBlocks with
  | zero => simp [skipBad, unmarked, marked]
  | succ n ih =>
    unfold unmarked marked
    rw [numbers_succ]
    cases here : bad i with
    | true =>
      simp only [skipBad, here, if_true]
      rw [ih]
      simp only [List.filter_cons, here, Bool.not_true, Bool.false_eq_true, if_false, if_true,
        List.length_cons, unmarked, marked]
      rw [Nat.add_right_comm badBlocks, Nat.add_assoc]
    | false =>
      simp only [skipBad, Bool.false_eq_true, if_false, List.filter_cons, here, Bool.not_false,
        if_true, List.length_cons]
      cases ofs with
      | zero => rfl
      | succ ofs =>
        dsimp only
        rw [ih, List.getElem?_cons_succ, Nat.add_sub_add_right]
        rfl

/-- The second loop stops at the bad block that has `ofs` others before it, or at the last. -/
theorem overflowBad_eq (bad : Int → Bool) (n : Nat) (i : Int) (ofs : Nat) :
    overflowBad bad n (i + n) (marked bad i n).length ofs =
      (marked bad i n)[min ofs ((marked bad i n).length - 1)]? := by
  induction n with
  | zero => rfl
  | succ n ih =>
    have before : i + ((n + 1 : Nat) : Int) - 1 = i + n := by push_cast; omega
    have split : marked bad i (n + 1) =
        marked bad i n ++ if bad (i + n) then [i + n] else [] := by
      unfold marked
      rw [numbers_concat, List.filter_append]
      cases here : bad (i + n) <;> simp [here]
    cases here : bad (i + n) with
    | true =>
      rw [split, here, if_pos rfl, List.length_append, List.length_singleton, overflowBad,
        before]
      simp only [here, Bool.not_true, Bool.false_eq_true, if_false, Nat.add_sub_cancel]
      split
      · rename_i enough
        rw [Nat.min_eq_right enough, List.getElem?_append_right (Nat.le_refl _), Nat.sub_self]
        rfl
      · rename_i few
        rw [ih, Nat.min_eq_left (by omega), Nat.min_eq_left (by omega),
          List.getElem?_append_left (by omega)]
    | false =>
      rw [split, here, if_neg Bool.false_ne_true, List.append_nil, ← ih]
      cases count : (marked bad i n).length with
      | zero =>
        rw [overflowBad]
        have none : marked bad i n = [] := List.length_eq_zero_iff.mp count
        rw [count, none] at ih
        rw [ih]
        rfl
      | succ count' =>
        rw [overflowBad, before]
        simp only [here, Bool.not_false, if_true]

end Loops

/-! ### One range -/

section Range

variable {s : Bbt} {block : Nat} {start stop : Int}

/-- The first block of a range. -/
def Bbt.first (s : Bbt) (start : Int) : Int := start / 2 ^ s.blkShift

/-- The number of blocks of a range. -/
def Bbt.size (s : Bbt) (start stop : Int) : Nat :=
  (stop / 2 ^ s.blkShift - start / 2 ^ s.blkShift).toNat

theorem getMapping_of_range (range : mappingBlockInRange s block = some (start, stop)) :
    getMappingBlockIndexBbt s block =
      match (unmarked s.isBad (s.first start)
        (s.size start stop))[(block - s.first start).toNat]? with
      | some found => found
      | none =>
        ((marked s.isBad (s.first start) (s.size start stop))[
          min ((block - s.first start).toNat -
              (unmarked s.isBad (s.first start) (s.size start stop)).length)
            ((marked s.isBad (s.first start) (s.size start stop)).length - 1)]?).getD block := by
  have scanned := skipBad_eq s.isBad (s.size start stop) (s.first start)
    (block - s.first start).toNat 0
  have scans : skipBad (fun i => s.bad (toU16 i))
      (stop / 2 ^ s.blkShift - start / 2 ^ s.blkShift).toNat (start / 2 ^ s.blkShift)
      (block - start / 2 ^ s.blkShift).toNat 0 =
        skipBad s.isBad (s.size start stop) (s.first start) (block - s.first start).toNat 0 := rfl
  rw [getMappingBlockIndexBbt, range]
  dsimp only
  rw [scans]
  cases found : (unmarked s.isBad (s.first start) (s.size start stop))[
      (block - s.first start).toNat]? with
  | some i =>
    rw [found] at scanned
    rw [scanned]
  | none =>
    rw [found, Nat.zero_add] at scanned
    rw [scanned]
    change (overflowBad s.isBad (s.size start stop) (stop / 2 ^ s.blkShift) _ _).getD _ = _
    congr 1
    cases size : s.size start stop with
    | zero => rfl
    | succ n =>
      have stops : stop / 2 ^ s.blkShift = s.first start + ((n + 1 : Nat) : Int) := by
        unfold Bbt.size at size
        unfold Bbt.first
        omega
      rw [stops]
      exact overflowBad_eq _ _ _ _

/-- Within the range, the mapping follows the good blocks and then the bad ones. -/
theorem mapping_inside (range : mappingBlockInRange s block = some (start, stop))
    (low : s.first start ≤ block) (high : block < s.first start + s.size start stop) :
    (unmarked s.isBad (s.first start) (s.size start stop) ++
        marked s.isBad (s.first start) (s.size start stop))[(block - s.first start).toNat]? =
      some (getMappingBlockIndexBbt s block) := by
  have sizes := length_arranged s.isBad (s.first start) (s.size start stop)
  rw [getMapping_of_range range]
  by_cases few : (block - s.first start).toNat <
      (unmarked s.isBad (s.first start) (s.size start stop)).length
  · rw [List.getElem?_append_left few, List.getElem?_eq_getElem few]
  · rw [List.getElem?_append_right (by omega), List.getElem?_eq_none (not_lt.mp few),
      Nat.min_eq_left (by omega), List.getElem?_eq_getElem (by omega)]
    rfl

/-- Behind the range, it ends at the last bad block. -/
theorem mapping_behind (range : mappingBlockInRange s block = some (start, stop))
    (high : s.first start + s.size start stop ≤ block) :
    getMappingBlockIndexBbt s block =
      ((marked s.isBad (s.first start) (s.size start stop)).getLast?).getD block := by
  have sizes := length_arranged s.isBad (s.first start) (s.size start stop)
  rw [getMapping_of_range range, List.getElem?_eq_none (by omega), Nat.min_eq_right (by omega),
    List.getLast?_eq_getElem?]

/-- A block behind the range stays in its place exactly if the range has no bad block; else it
comes to one of the range. -/
theorem mapping_behind_cases (range : mappingBlockInRange s block = some (start, stop))
    (high : s.first start + s.size start stop ≤ block) :
    (marked s.isBad (s.first start) (s.size start stop) = [] ∧
        getMappingBlockIndexBbt s block = block) ∨
      getMappingBlockIndexBbt s block ∈ marked s.isBad (s.first start) (s.size start stop) := by
  rw [mapping_behind range high]
  cases last : (marked s.isBad (s.first start) (s.size start stop)).getLast? with
  | none => exact .inl ⟨List.getLast?_eq_none_iff.mp last, rfl⟩
  | some i => exact .inr (List.mem_of_getLast? last)

end Range

/-! ### Permutations -/

/-- The mapping permutes the blocks from `lo` to `hi`: the first ones come to the good blocks in
their order, and the others to the bad ones. -/
structure Bbt.PermutesOn (s : Bbt) (lo hi : Nat) : Prop where
  bijective : Set.BijOn (getMappingBlockIndexBbt s) (Set.Ico lo hi) (Set.Ico lo hi)
  good : ∀ k found, (unmarked s.isBad lo (hi - lo))[k]? = some found →
    getMappingBlockIndexBbt s (lo + k) = found
  rest : ∀ block, lo + (unmarked s.isBad lo (hi - lo)).length ≤ block → block < hi →
    s.isBad (getMappingBlockIndexBbt s block) = true

section Permutations

variable {s : Bbt} {lo hi : Nat}

theorem permutesOn_of_follows (follows : ∀ k < hi - lo,
    (unmarked s.isBad lo (hi - lo) ++ marked s.isBad lo (hi - lo))[k]? =
      some (getMappingBlockIndexBbt s (lo + k))) : s.PermutesOn lo hi := by
  obtain ⟨into, injective, onto⟩ := bijOn_arranged follows
  have sizes := length_arranged s.isBad lo (hi - lo)
  constructor
  case bijective =>
    refine ⟨?_, ?_, ?_⟩
    · rintro block ⟨low, high⟩
      have mem := into (show block - lo ∈ Set.Iio (hi - lo) from Nat.sub_lt_sub_right low high)
      dsimp only at mem
      rw [show lo + (block - lo) = block by omega, Set.mem_Ico] at mem
      exact Set.mem_Ico.mpr ⟨mem.1, by omega⟩
    · rintro block ⟨low, high⟩ block' ⟨low', high'⟩ same
      have small : block - lo ∈ Set.Iio (hi - lo) := Nat.sub_lt_sub_right low high
      have small' : block' - lo ∈ Set.Iio (hi - lo) := Nat.sub_lt_sub_right low' high'
      have offsets := injective small small' (by
        dsimp only
        rwa [show lo + (block - lo) = block by omega, show lo + (block' - lo) = block' by omega])
      omega
    · rintro i ⟨low, high⟩
      obtain ⟨k, small, here⟩ := onto (show i ∈ Set.Ico (lo : Int) (lo + (hi - lo : Nat)) from
        ⟨low, by omega⟩)
      rw [Set.mem_Iio] at small
      exact ⟨lo + k, ⟨by omega, by omega⟩, here⟩
  case good =>
    intro k found here
    obtain ⟨small, -⟩ := List.getElem?_eq_some_iff.mp here
    have place := follows k (by omega)
    rw [List.getElem?_append_left small, here] at place
    exact (Option.some.inj place).symm
  case rest =>
    intro block low high
    have place := follows (block - lo) (by omega)
    rw [List.getElem?_append_right (by omega), show lo + (block - lo) = block by omega] at place
    exact (mem_marked.mp (List.mem_of_getElem? place)).2

/-- Blocks that all stay in their places are permuted so exactly if the bad ones stand last. -/
theorem permutesOn_of_fixed (fixed : ∀ block : Nat, lo ≤ block → block < hi →
    getMappingBlockIndexBbt s block = block) :
    s.PermutesOn lo hi ↔ MarkedLast s.isBad lo (hi - lo) := by
  constructor
  · intro permutes i j before small here
    have behind : (unmarked s.isBad lo (hi - lo)).length ≤ i := by
      by_contra few
      rw [not_le] at few
      have place := permutes.good i _ (List.getElem?_eq_getElem few)
      rw [fixed (lo + i) (by omega) (by omega)] at place
      have good := (mem_unmarked.mp (List.getElem_mem few)).2
      rw [← place] at good
      push_cast at good
      rw [here] at good
      cases good
    have bad := permutes.rest (lo + j) (by omega) (by omega)
    rw [fixed (lo + j) (by omega) (by omega)] at bad
    exact_mod_cast bad
  · intro last
    apply permutesOn_of_follows
    intro k small
    rw [arranged_of_markedLast last, fixed (lo + k) (by omega) (by omega), numbers,
      List.getElem?_map, List.getElem?_range small]
    simp

end Permutations

/-! ### The chip -/

/-- The first block of a range. -/
def Bbt.lo (s : Bbt) (range : Nat × Nat) : Nat := range.1 / 2 ^ s.blkShift

/-- The block behind a range. -/
def Bbt.hi (s : Bbt) (range : Nat × Nat) : Nat := range.2 / 2 ^ s.blkShift

/-- Ranges without a common address. -/
def Apart (range range' : Nat × Nat) : Prop := range.2 ≤ range'.1 ∨ range'.2 ≤ range.1

instance : Std.Symm Apart := ⟨fun _ _ => Or.symm⟩

/-- The remap ranges are disjoint and begin and end at blocks. Their ends are 32-bit cells. -/
structure Bbt.Aligned (s : Bbt) : Prop where
  begins : ∀ range ∈ s.remapRange, 2 ^ s.blkShift ∣ range.1 ∧ range.1 < 2 ^ 32
  ends : ∀ range ∈ s.remapRange, 2 ^ s.blkShift ∣ range.2 ∧ range.2 < 2 ^ 32
  disjoint : s.remapRange.Pairwise Apart

/-- The mapping permutes each range, and nothing else; without ranges, it permutes the chip. -/
def Bbt.Permutes (s : Bbt) : Prop :=
  if s.remapRange = [] then s.PermutesOn 0 s.totalBlks
  else
    (∀ range ∈ s.remapRange, s.PermutesOn (s.lo range) (s.hi range)) ∧
      ∀ block < s.totalBlks,
        (∀ range ∈ s.remapRange, ¬(s.lo range ≤ block ∧ block < s.hi range)) →
          getMappingBlockIndexBbt s block = block

/-- No bad block is seen where the ends of a range are as `int` values. -/
def Bbt.SeesNone (s : Bbt) (range : Nat × Nat) : Prop :=
  ∀ i, s.first (toInt range.1) ≤ i → i < s.first (toInt range.2) → s.isBad i = false

/-- What the mapping relies on. -/
def Bbt.Reliable (s : Bbt) : Prop :=
  if s.remapRange = [] then
    s.blkShift = 0 ∨ MarkedLast s.isBad 0 s.totalBlks ∧
      ∀ block : Nat, block < s.totalBlks / 2 ^ s.blkShift → s.isBad block = false
  else
    (∀ range ∈ s.remapRange, range.2 < 2 ^ 31 ∨
      MarkedLast s.isBad (s.lo range) (s.hi range - s.lo range) ∧ s.SeesNone range) ∧
    ∀ block < s.totalBlks,
      (∀ range ∈ s.remapRange, ¬(s.lo range ≤ block ∧ block < s.hi range)) →
        ∀ range ∈ s.remapRange, range.1 ≤ block * 2 ^ s.blkShift % 2 ^ 32 →
          block * 2 ^ s.blkShift % 2 ^ 32 < range.2 → s.SeesNone range

section Chip

variable {s : Bbt} {range : Nat × Nat} {block : Nat}

theorem size_eq (start stop : Int) : s.size start stop = (s.first stop - s.first start).toNat := rfl

theorem toInt_small {word : Nat} (small : word < 2 ^ 31) : toInt word = word := if_pos small

theorem toInt_big {word : Nat} (big : 2 ^ 31 ≤ word) (word32 : word < 2 ^ 32) : toInt word < 0 := by
  rw [toInt, if_neg (by omega)]
  omega

theorem first_cast (s : Bbt) (word : Nat) : s.first word = (word / 2 ^ s.blkShift : Nat) := by
  rw [Bbt.first]
  push_cast
  rfl

theorem first_neg {i : Int} (negative : i < 0) : s.first i < 0 :=
  Int.ediv_neg_of_neg_of_pos negative (Int.pow_pos (by decide))

theorem seesNone_iff : s.SeesNone range ↔
    marked s.isBad (s.first (toInt range.1)) (s.size (toInt range.1) (toInt range.2)) = [] := by
  rw [marked_eq_nil_iff, Bbt.SeesNone, size_eq]
  constructor
  · exact fun none i low high => none i low (by omega)
  · exact fun none i low high => none i low (by omega)

/-- The range whose addresses include that of the block is taken. -/
theorem range_of_addr (aligned : s.Aligned) (listed : range ∈ s.remapRange)
    (low : range.1 ≤ block * 2 ^ s.blkShift % 2 ^ 32)
    (high : block * 2 ^ s.blkShift % 2 ^ 32 < range.2) :
    mappingBlockInRange s block = some (toInt range.1, toInt range.2) := by
  have some' : s.remapRange.isEmpty = false := by
    rw [List.isEmpty_eq_false_iff]
    exact List.ne_nil_of_mem listed
  rw [mappingBlockInRange, some', if_neg Bool.false_ne_true]
  cases found : s.remapRange.find? fun range =>
      range.1 ≤ block * 2 ^ s.blkShift % 2 ^ 32 ∧ block * 2 ^ s.blkShift % 2 ^ 32 < range.2 with
  | none =>
    have missed := List.find?_eq_none.mp found range listed
    rw [decide_eq_true_eq] at missed
    exact absurd ⟨low, high⟩ missed
  | some range' =>
    have inside := List.find?_some found
    rw [decide_eq_true_eq] at inside
    have same : range' = range := by
      by_contra other
      have apart := aligned.disjoint.forall (List.mem_of_find?_eq_some found) listed other
      unfold Apart at apart
      omega
    rw [same]
    rfl

theorem inRange_cases (s : Bbt) (block : Nat) (some' : s.remapRange ≠ []) :
    mappingBlockInRange s block = none ∨
      ∃ range ∈ s.remapRange, range.1 ≤ block * 2 ^ s.blkShift % 2 ^ 32 ∧
        block * 2 ^ s.blkShift % 2 ^ 32 < range.2 := by
  rw [mappingBlockInRange, List.isEmpty_eq_false_iff.mpr some', if_neg Bool.false_ne_true]
  cases found : s.remapRange.find? fun range =>
      range.1 ≤ block * 2 ^ s.blkShift % 2 ^ 32 ∧ block * 2 ^ s.blkShift % 2 ^ 32 < range.2 with
  | none => exact .inl rfl
  | some range =>
    have inside := List.find?_some found
    rw [decide_eq_true_eq] at inside
    exact .inr ⟨range, List.mem_of_find?_eq_some found, inside⟩

theorem lo_le_of_addr (low : range.1 ≤ block * 2 ^ s.blkShift % 2 ^ 32) : s.lo range ≤ block := by
  apply Nat.div_le_of_le_mul
  rw [Nat.mul_comm]
  exact low.trans (Nat.mod_le _ _)

/-- A block of a range has an address of it. -/
theorem addr_of_block (aligned : s.Aligned) (listed : range ∈ s.remapRange)
    (low : s.lo range ≤ block) (high : block < s.hi range) :
    range.1 ≤ block * 2 ^ s.blkShift % 2 ^ 32 ∧ block * 2 ^ s.blkShift % 2 ^ 32 < range.2 := by
  obtain ⟨begins, -⟩ := aligned.begins range listed
  obtain ⟨ends, word⟩ := aligned.ends range listed
  have low' := Nat.mul_le_mul_right (2 ^ s.blkShift) low
  have high' := Nat.mul_lt_mul_of_pos_right high (Nat.two_pow_pos s.blkShift)
  rw [Bbt.lo, Nat.div_mul_cancel begins] at low'
  rw [Bbt.hi, Nat.div_mul_cancel ends] at high'
  rw [Nat.mod_eq_of_lt (high'.trans word)]
  exact ⟨low', high'⟩

/-- A block whose address is in a range, but which is behind the range, or whose range ends from
2^31 on, stays in its place exactly if no bad block is seen. -/
theorem fixed_iff_seesNone (aligned : s.Aligned) (listed : range ∈ s.remapRange)
    (low : range.1 ≤ block * 2 ^ s.blkShift % 2 ^ 32)
    (high : block * 2 ^ s.blkShift % 2 ^ 32 < range.2)
    (behind : s.hi range ≤ block ∨ 2 ^ 31 ≤ range.2) :
    (getMappingBlockIndexBbt s block = block ↔ s.SeesNone range) ∧
      (¬s.SeesNone range → getMappingBlockIndexBbt s block < s.first (toInt range.2)) := by
  have begins : s.first (toInt range.1) ≤ block := by
    rcases Nat.lt_or_ge range.1 (2 ^ 31) with small | big
    · rw [toInt_small small, first_cast]
      exact_mod_cast lo_le_of_addr low
    · have negative := first_neg (s := s) (toInt_big big (aligned.begins range listed).2)
      omega
  have ends : s.first (toInt range.2) ≤ block := by
    rcases Nat.lt_or_ge range.2 (2 ^ 31) with small | big
    · rw [toInt_small small, first_cast]
      exact_mod_cast behind.resolve_right (not_le.mpr small)
    · have negative := first_neg (s := s) (toInt_big big (aligned.ends range listed).2)
      omega
  have taken := range_of_addr aligned listed low high
  have after : s.first (toInt range.1) + s.size (toInt range.1) (toInt range.2) ≤ block := by
    rw [size_eq]
    omega
  rw [seesNone_iff]
  rcases mapping_behind_cases taken after with ⟨none, same⟩ | mem
  · exact ⟨iff_of_true same none, fun some' => absurd none some'⟩
  · have some' := List.ne_nil_of_mem mem
    obtain ⟨⟨atLeast, before⟩, -⟩ := mem_marked.mp mem
    rw [size_eq] at before
    constructor
    · refine iff_of_false ?_ some'
      omega
    · intro _
      omega

/-- A range below 2^31 is permuted. -/
theorem permutesOn_of_small (aligned : s.Aligned) (listed : range ∈ s.remapRange)
    (small : range.2 < 2 ^ 31) : s.PermutesOn (s.lo range) (s.hi range) := by
  apply permutesOn_of_follows
  intro k inside
  have below : s.lo range + k < s.hi range := by omega
  obtain ⟨low, high⟩ := addr_of_block aligned listed (Nat.le_add_right _ k) below
  have taken := range_of_addr aligned listed low high
  have begins : s.first (toInt range.1) = s.lo range := by
    rw [toInt_small (by omega), first_cast]
    rfl
  have sizes : s.size (toInt range.1) (toInt range.2) = s.hi range - s.lo range := by
    rw [size_eq, begins, toInt_small small, first_cast, ← Bbt.hi]
    omega
  have follows := mapping_inside taken (by rw [begins]; push_cast; omega)
    (by rw [begins, sizes]; push_cast; omega)
  rw [begins, sizes] at follows
  rw [← follows]
  congr 1
  push_cast
  omega

/-- A range that ends from 2^31 on is permuted exactly if nothing has to be moved. -/
theorem permutesOn_of_big (aligned : s.Aligned) (listed : range ∈ s.remapRange)
    (big : 2 ^ 31 ≤ range.2) :
    s.PermutesOn (s.lo range) (s.hi range) ↔
      MarkedLast s.isBad (s.lo range) (s.hi range - s.lo range) ∧ s.SeesNone range := by
  have place : ∀ block : Nat, s.lo range ≤ block → block < s.hi range →
      (getMappingBlockIndexBbt s block = block ↔ s.SeesNone range) ∧
        (¬s.SeesNone range → getMappingBlockIndexBbt s block < s.first (toInt range.2)) := by
    intro block low high
    obtain ⟨low', high'⟩ := addr_of_block aligned listed low high
    exact fixed_iff_seesNone aligned listed low' high' (.inr big)
  constructor
  · intro permutes
    have none : s.SeesNone range := by
      intro i low high
      by_contra bad
      have sees : ¬s.SeesNone range := fun none => bad (none i low high)
      -- The range is not empty, so its first block would come before the chip.
      have nonempty : s.lo range < s.hi range := by
        have order : toInt range.1 < toInt range.2 := by
          by_contra order
          have reversed := Int.ediv_le_ediv (Int.pow_pos (by decide) : (0 : Int) < 2 ^ s.blkShift)
            (not_lt.mp order)
          unfold Bbt.first at low high
          omega
        have words := (aligned.ends range listed).2
        have lower : range.1 < range.2 := by
          unfold toInt at order
          split at order <;> split at order <;> omega
        obtain ⟨begins, -⟩ := aligned.begins range listed
        obtain ⟨ends, -⟩ := aligned.ends range listed
        exact Nat.div_lt_div_of_lt_of_dvd ends lower
      have below := (place _ (Nat.le_refl _) nonempty).2 sees
      have inside := permutes.bijective.1 (show s.lo range ∈ Set.Ico (s.lo range) (s.hi range) from
        ⟨Nat.le_refl _, nonempty⟩)
      have negative := first_neg (s := s) (toInt_big big (aligned.ends range listed).2)
      rw [Set.mem_Ico] at inside
      omega
    exact ⟨(permutesOn_of_fixed fun block low high =>
      (place block low high).1.mpr none).mp permutes,
      none⟩
  · rintro ⟨last, none⟩
    exact (permutesOn_of_fixed fun block low high => (place block low high).1.mpr none).mpr last

/-- Without ranges, the mapping permutes the blocks below the shifted number of blocks only. -/
theorem permutesOn_default (none : s.remapRange = []) :
    s.PermutesOn 0 s.totalBlks ↔ s.blkShift = 0 ∨ MarkedLast s.isBad 0 s.totalBlks ∧
      ∀ block : Nat, block < s.totalBlks / 2 ^ s.blkShift → s.isBad block = false := by
  have taken : ∀ block, mappingBlockInRange s block = some (0, (s.totalBlks : Int)) := by
    intro block
    rw [mappingBlockInRange, none]
    rfl
  have begins : s.first 0 = 0 := Int.zero_ediv _
  have sizes : s.size 0 s.totalBlks = s.totalBlks / 2 ^ s.blkShift := by
    rw [size_eq, begins, first_cast, Int.sub_zero, Int.toNat_natCast]
  set n := s.totalBlks / 2 ^ s.blkShift with n_eq
  have follows : ∀ k < n, (unmarked s.isBad 0 n ++ marked s.isBad 0 n)[k]? =
      some (getMappingBlockIndexBbt s k) := by
    intro k inside
    have follows := mapping_inside (taken k) (by rw [begins]; omega) (by rw [begins, sizes]; omega)
    rw [begins, sizes] at follows
    simpa using follows
  have behind : ∀ block : Nat, n ≤ block →
      marked s.isBad 0 n = [] ∧ getMappingBlockIndexBbt s block = block ∨
        getMappingBlockIndexBbt s block ∈ marked s.isBad 0 n := by
    intro block high
    have cases' := mapping_behind_cases (taken block) (by rw [begins, sizes]; omega)
    rwa [begins, sizes] at cases'
  by_cases flat : s.blkShift = 0
  · have all : n = s.totalBlks := by rw [n_eq, flat, Nat.pow_zero, Nat.div_one]
    refine iff_of_true (permutesOn_of_follows ?_) (.inl flat)
    intro k inside
    rw [Nat.sub_zero] at inside ⊢
    rw [Nat.cast_zero, ← all, Nat.zero_add]
    exact follows k (all ▸ inside)
  · have fixed : marked s.isBad 0 n = [] → ∀ block : Nat, 0 ≤ block → block < s.totalBlks →
        getMappingBlockIndexBbt s block = block := by
      intro good block _ _
      rcases Nat.lt_or_ge block n with inside | beyond
      · have last : MarkedLast s.isBad 0 n := by
          intro i j before small here
          have clear := marked_eq_nil_iff.mp good (0 + i) (by omega) (by omega)
          rw [here] at clear
          cases clear
        have place := follows block inside
        rw [arranged_of_markedLast last, numbers, List.getElem?_map,
          List.getElem?_range inside] at place
        simpa using (Option.some.inj place).symm
      · rcases behind block beyond with ⟨-, same⟩ | mem
        · exact same
        · rw [good] at mem
          cases mem
    have good_iff : marked s.isBad 0 n = [] ↔ ∀ block : Nat, block < n → s.isBad block = false := by
      rw [marked_eq_nil_iff]
      constructor
      · exact fun good block small => good block (by omega) (by omega)
      · intro good i low high
        have here := good i.toNat (by omega)
        rwa [Int.toNat_of_nonneg low] at here
    rw [or_iff_right flat, ← good_iff]
    constructor
    · intro permutes
      have good : marked s.isBad 0 n = [] := by
        by_contra some'
        -- The first block behind them comes to a block that one of them has.
        have positive : 0 < n := by
          rcases Nat.eq_zero_or_pos n with zero | positive
          · rw [zero] at some'
            exact absurd rfl some'
          · exact positive
        have fewer : n < s.totalBlks := by
          apply Nat.div_lt_self
          · by_contra zero
            rw [Nat.eq_zero_of_not_pos zero, Nat.zero_div] at n_eq
            omega
          · exact Nat.one_lt_two_pow flat
        have mem : getMappingBlockIndexBbt s n ∈ marked s.isBad 0 n :=
          (behind n (Nat.le_refl _)).resolve_left fun here => some' here.1
        obtain ⟨block, inside, same⟩ := (bijOn_arranged follows).2.2 (mem_marked.mp mem).1
        rw [Set.mem_Iio] at inside
        have here : block ∈ Set.Ico 0 s.totalBlks := ⟨Nat.zero_le _, inside.trans fewer⟩
        have there : n ∈ Set.Ico 0 s.totalBlks := ⟨Nat.zero_le _, fewer⟩
        have equal := permutes.bijective.2.1 here there same
        omega
      exact ⟨(permutesOn_of_fixed (fixed good)).mp permutes, good⟩
    · rintro ⟨last, good⟩
      exact (permutesOn_of_fixed (fixed good)).mpr last

end Chip

/-- The mapping is the permutation that is meant if and only if it can rely on what its range
arithmetic assumes. -/
theorem mapping_permutes_iff (s : Bbt) (aligned : s.Aligned) : s.Permutes ↔ s.Reliable := by
  unfold Bbt.Permutes Bbt.Reliable
  split
  · rename_i none
    exact permutesOn_default none
  · rename_i some'
    refine and_congr ?_ ?_
    · refine forall₂_congr fun range listed => ?_
      rcases Nat.lt_or_ge range.2 (2 ^ 31) with small | big
      · exact iff_of_true (permutesOn_of_small aligned listed small) (.inl small)
      · rw [permutesOn_of_big aligned listed big, or_iff_right (not_lt.mpr big)]
    · refine forall₃_congr fun block _ outside => ?_
      have behind : ∀ range ∈ s.remapRange, range.1 ≤ block * 2 ^ s.blkShift % 2 ^ 32 →
          s.hi range ≤ block := by
        intro range listed low
        have apart := outside range listed
        have begins := lo_le_of_addr low
        omega
      constructor
      · intro fixed range listed low high
        exact (fixed_iff_seesNone aligned listed low high
          (.inl (behind range listed low))).1.mp fixed
      · intro none
        rcases inRange_cases s block some' with outside | ⟨range, listed, low, high⟩
        · rw [getMappingBlockIndexBbt, outside]
        · exact (fixed_iff_seesNone aligned listed low high
            (.inl (behind range listed low))).1.mpr (none range listed low high)

/-- A chip of 1024 blocks of 128 KiB, whose block 5 is bad. -/
def mebiChip (remapRange : List (Nat × Nat)) : Bbt where
  totalBlks := 1024
  blkShift := 17
  remapRange := remapRange
  bmtBlkIdx := 1023
  bad block := block == 5

theorem mebiChip_aligned (remapRange : List (Nat × Nat))
    (fits : remapRange = [] ∨ remapRange = [(0x80000, 0x100000)]) :
      (mebiChip remapRange).Aligned := by
  rcases fits with rfl | rfl
  · exact ⟨by simp [mebiChip], by simp [mebiChip], List.Pairwise.nil⟩
  · constructor
    · simp [mebiChip]
    · simp [mebiChip]
    · exact List.pairwise_singleton _ _

/-- With a range for the blocks 4 to 7, these are permuted. -/
theorem mapping_permutes_range : (mebiChip [(0x80000, 0x100000)]).Permutes := by
  apply (mapping_permutes_iff _ (mebiChip_aligned _ (.inr rfl))).mpr
  rw [Bbt.Reliable, if_neg (by simp [mebiChip])]
  constructor
  · simp [mebiChip]
  · intro block small outside range listed low high
    -- All blocks of the chip have addresses below 2^32, so a block in the range is one of its own.
    have own : range = (0x80000, 0x100000) := List.mem_singleton.mp listed
    have apart := outside range listed
    subst own
    simp only [mebiChip, Bbt.lo, Bbt.hi] at small apart low high
    omega

/-- Without a range, block 5 stays with the bad block, and block 6 is not moved up. -/
theorem mapping_not_permutes : (mebiChip []).Aligned ∧ ¬(mebiChip []).Permutes := by
  refine ⟨mebiChip_aligned [] (.inl rfl), ?_⟩
  have none : (mebiChip []).remapRange = [] := rfl
  rw [Bbt.Permutes, if_pos none]
  intro permutes
  have place : getMappingBlockIndexBbt (mebiChip []) ((0 : Nat) + 5) = 6 :=
    permutes.good 5 6 (by decide +kernel)
  revert place
  decide +kernel

end FirewallCore.Mtd.Bmt
