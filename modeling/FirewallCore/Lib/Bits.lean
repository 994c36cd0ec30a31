import Mathlib.Algebra.Order.Ring.Nat
import Mathlib.Data.BitVec
import Mathlib.Data.List.Basic
import Mathlib.Data.Nat.Bitwise

/-!
Intervals of bit vectors under a mask.

The numbers between `first` and `last` agree under a mask exactly when the two ends
agree from each bit of the mask upwards: below the highest bit in which the ends
differ, an interval takes every bit both ways.
-/

namespace FirewallCore.Lib.BitRange

variable {w : Nat} {first last x y mask : BitVec w} {i : Nat}

/-- Masked values are equal when they agree in every bit of the mask. -/
theorem and_mask_eq_iff :
    x &&& mask = y &&& mask ↔ ∀ i, mask.getLsbD i = true → x.getLsbD i = y.getLsbD i := by
  constructor
  · intro same i set
    have bit := congrArg (BitVec.getLsbD · i) same
    simpa [set] using bit
  · intro same
    apply BitVec.eq_of_getLsbD_eq
    intro i bound
    rw [BitVec.getLsbD_and, BitVec.getLsbD_and]
    cases set : mask.getLsbD i with
    | false => simp
    | true => rw [same i set]

/-- Bit `i` is the parity of the number shifted by `i`. -/
theorem getLsbD_eq_parity (x : BitVec w) (i : Nat) :
    x.getLsbD i = decide (x.toNat / 2 ^ i % 2 = 1) := by
  rw [BitVec.getLsbD, Nat.testBit_eq_decide_div_mod_eq]

/-- What lies between two numbers with the same upper bits has these bits too. -/
theorem div_between (low : first.toNat ≤ x.toNat) (high : x.toNat ≤ last.toNat)
    (same : first.toNat / 2 ^ i = last.toNat / 2 ^ i) :
    x.toNat / 2 ^ i = first.toNat / 2 ^ i := by
  have above : first.toNat / 2 ^ i ≤ x.toNat / 2 ^ i := Nat.div_le_div_right low
  have below : x.toNat / 2 ^ i ≤ last.toNat / 2 ^ i := Nat.div_le_div_right high
  omega

/-- The ends of an interval that takes bit `i` one way only agree from there on. -/
theorem div_eq_of_constant_bit (ordered : first.toNat ≤ last.toNat)
    (constant : ∀ x : BitVec w, first.toNat ≤ x.toNat → x.toNat ≤ last.toNat →
      x.getLsbD i = first.getLsbD i) : first.toNat / 2 ^ i = last.toNat / 2 ^ i := by
  by_contra differ
  have positive : 0 < 2 ^ i := Nat.two_pow_pos i
  have below : first.toNat / 2 ^ i < last.toNat / 2 ^ i :=
    Nat.lt_of_le_of_ne (Nat.div_le_div_right ordered) differ
  -- The first number above `first` whose upper bits are the next ones.
  have reached : (first.toNat / 2 ^ i + 1) * 2 ^ i ≤ last.toNat :=
    (Nat.le_div_iff_mul_le positive).mp below
  have after : first.toNat < (first.toNat / 2 ^ i + 1) * 2 ^ i :=
    Nat.lt_mul_of_div_lt (Nat.lt_succ_self _) positive
  have inside : (first.toNat / 2 ^ i + 1) * 2 ^ i < 2 ^ w :=
    Nat.lt_of_le_of_lt reached last.isLt
  have number : (BitVec.ofNat w ((first.toNat / 2 ^ i + 1) * 2 ^ i)).toNat =
      (first.toNat / 2 ^ i + 1) * 2 ^ i := by
    rw [BitVec.toNat_ofNat, Nat.mod_eq_of_lt inside]
  have bit := constant (BitVec.ofNat w ((first.toNat / 2 ^ i + 1) * 2 ^ i))
    (by rw [number]; exact Nat.le_of_lt after) (by rw [number]; exact reached)
  rw [getLsbD_eq_parity, getLsbD_eq_parity, number, Nat.mul_div_cancel _ positive,
    decide_eq_decide] at bit
  omega

/-- An interval agrees with `y` under a mask exactly when its first number does and
its ends have the same bits from every bit of the mask upwards. -/
theorem forall_and_mask_eq_iff (ordered : first.toNat ≤ last.toNat) :
    (∀ x : BitVec w, first.toNat ≤ x.toNat → x.toNat ≤ last.toNat → x &&& mask = y &&& mask) ↔
      first &&& mask = y &&& mask ∧
        ∀ i, mask.getLsbD i = true → first >>> i = last >>> i := by
  have shifted : ∀ i, first >>> i = last >>> i ↔
      first.toNat / 2 ^ i = last.toNat / 2 ^ i := by
    intro i
    rw [BitVec.toNat_eq, BitVec.toNat_ushiftRight, BitVec.toNat_ushiftRight,
      Nat.shiftRight_eq_div_pow, Nat.shiftRight_eq_div_pow]
  constructor
  · intro all
    have start := all first (Nat.le_refl _) ordered
    refine ⟨start, fun i set => (shifted i).mpr ?_⟩
    apply div_eq_of_constant_bit ordered
    intro x low high
    rw [and_mask_eq_iff.mp (all x low high) i set, and_mask_eq_iff.mp start i set]
  · rintro ⟨start, upper⟩ x low high
    rw [← start, and_mask_eq_iff]
    intro i set
    rw [getLsbD_eq_parity, getLsbD_eq_parity,
      div_between low high ((shifted i).mp (upper i set))]

end FirewallCore.Lib.BitRange

/-!
Bit strings: the bits of bytes, from the lowest bit of the first byte on, and numbers written
with the highest bit first.
-/

namespace FirewallCore.Lib

/-- The bits of bytes, the lowest of each byte first. -/
def bits (bytes : List UInt8) : List Bool :=
  bytes.flatMap fun b => (List.range 8).map b.toNat.testBit

/-- The `n` bits of a number below `2 ^ n`, the highest first. -/
def highBits : Nat → Nat → List Bool
  | 0, _ => []
  | n + 1, value => decide (2 ^ n ≤ value) :: highBits n (value % 2 ^ n)

/-- The number that bits stand for, the highest first. -/
def bitsNumber : List Bool → Nat
  | [] => 0
  | bit :: more => bit.toNat * 2 ^ more.length + bitsNumber more

section Bits

variable {bytes : List UInt8} {pos n value : Nat} {ds : List Bool}

@[simp] theorem length_bits (bytes : List UInt8) : (bits bytes).length = 8 * bytes.length := by
  induction bytes with
  | nil => rfl
  | cons b rest ih =>
    rw [bits, List.flatMap_cons, List.length_append, ← bits, ih, List.length_map,
      List.length_range, List.length_cons]
    omega

theorem getElem?_bits (bytes : List UInt8) (pos : Nat) :
    (bits bytes)[pos]? = (bytes[pos / 8]?).map fun b => b.toNat.testBit (pos % 8) := by
  induction bytes generalizing pos with
  | nil => simp [bits]
  | cons b rest ih =>
    rw [bits, List.flatMap_cons, ← bits]
    rcases Nat.lt_or_ge pos 8 with first | later
    · rw [List.getElem?_append_left (by simpa using first), Nat.div_eq_of_lt first,
        Nat.mod_eq_of_lt first]
      simp [first]
    · obtain ⟨k, rfl⟩ := Nat.exists_eq_add_of_le later
      rw [List.getElem?_append_right (by simp), List.length_map, List.length_range,
        Nat.add_sub_cancel_left, ih, Nat.add_div_left k (by decide), List.getElem?_cons_succ,
        Nat.add_mod_left]

@[simp] theorem length_highBits (n value : Nat) : (highBits n value).length = n := by
  induction n generalizing value with
  | zero => rfl
  | succ n ih => rw [highBits, List.length_cons, ih]

theorem bitsNumber_lt (ds : List Bool) : bitsNumber ds < 2 ^ ds.length := by
  induction ds with
  | nil => decide
  | cons bit more ih =>
    rw [bitsNumber, List.length_cons, Nat.pow_succ]
    cases bit <;> simp only [Bool.toNat_false, Bool.toNat_true] <;> omega

/-- Bits are those of the number that they stand for. -/
theorem highBits_bitsNumber (ds : List Bool) : highBits ds.length (bitsNumber ds) = ds := by
  induction ds with
  | nil => rfl
  | cons bit more ih =>
    have small := bitsNumber_lt more
    rw [List.length_cons, highBits, bitsNumber]
    cases bit with
    | false => 
        rw [Bool.toNat_false, Nat.zero_mul, Nat.zero_add, Nat.mod_eq_of_lt small, ih,
          decide_eq_false (Nat.not_le.mpr small)]
    | true =>
      rw [Bool.toNat_true, Nat.one_mul, Nat.add_mod_left, Nat.mod_eq_of_lt small, ih,
        decide_eq_true (Nat.le_add_right _ _)]

theorem bitsNumber_highBits (small : value < 2 ^ n) : bitsNumber (highBits n value) = value := by
  induction n generalizing value with
  | zero =>
    rw [highBits, bitsNumber]
    omega
  | succ n ih =>
    rw [Nat.pow_succ] at small
    rw [highBits, bitsNumber, length_highBits, ih (Nat.mod_lt _ (Nat.two_pow_pos n))]
    by_cases high : 2 ^ n ≤ value
    · rw [decide_eq_true high, Bool.toNat_true, Nat.one_mul, Nat.mod_eq_sub_mod high,
        Nat.mod_eq_of_lt (by omega)]
      omega
    · rw [decide_eq_false high, Bool.toNat_false, Nat.zero_mul, Nat.zero_add,
        Nat.mod_eq_of_lt (by omega)]

end Bits

end FirewallCore.Lib

/-!
Masks of the upper bits of a number, and numbers of which all lower bits are set.
-/

namespace FirewallCore.Lib

/-- The number of `width` bits of which the lowest `low` are clear. -/
def upperBits (width low : Nat) : Nat := 2 ^ width - 2 ^ low

section Masks

variable {width low x y : Nat}

/-- An exclusive or with ones is a complement. -/
theorem xor_ones (small : x < 2 ^ width) : x ^^^ (2 ^ width - 1) = 2 ^ width - 1 - x := by
  apply Nat.eq_of_testBit_eq
  intro i
  rw [Nat.testBit_xor, Nat.testBit_two_pow_sub_one, Nat.sub_sub, Nat.add_comm 1 x,
    Nat.testBit_two_pow_sub_succ small]
  rcases Nat.lt_or_ge i width with inside | outside
  · rw [decide_eq_true inside, Bool.xor_true, Bool.true_and]
  · rw [decide_eq_false (Nat.not_lt.mpr outside), Nat.testBit_lt_two_pow (small.trans_le
      (Nat.pow_le_pow_right (by decide) outside))]
    rfl

theorem testBit_upperBits (le : low ≤ width) (i : Nat) :
    (upperBits width low).testBit i = decide (low ≤ i ∧ i < width) := by
  have positive : 0 < 2 ^ low := Nat.two_pow_pos low
  have most : 2 ^ low ≤ 2 ^ width := Nat.pow_le_pow_right (by decide) le
  have form : upperBits width low = 2 ^ width - ((2 ^ low - 1) + 1) := by
    rw [upperBits, Nat.sub_add_cancel positive]
  rw [form, Nat.testBit_two_pow_sub_succ (by omega), Nat.testBit_two_pow_sub_one]
  by_cases inside : i < width <;> by_cases above : low ≤ i <;>
    simp [inside, above, Nat.not_lt.mpr, Nat.not_le.mp]

theorem upperBits_lt : upperBits width low < 2 ^ width :=
  Nat.sub_lt (Nat.two_pow_pos width) (Nat.two_pow_pos low)

/-- Masking clears the lower bits. -/
theorem and_upperBits (small : x < 2 ^ width) (le : low ≤ width) :
    x &&& upperBits width low = 2 ^ low * (x / 2 ^ low) := by
  apply Nat.eq_of_testBit_eq
  intro i
  rw [Nat.testBit_and, testBit_upperBits le, Nat.testBit_two_pow_mul, Nat.testBit_div_two_pow]
  rcases Nat.lt_or_ge i width with inside | outside
  · by_cases above : low ≤ i
    · simp [inside, above]
    · simp [above]
  · have clear : x.testBit i = false :=
      Nat.testBit_lt_two_pow (small.trans_le (Nat.pow_le_pow_right (by decide) outside))
    by_cases above : low ≤ i
    · simp [above, clear]
    · simp [above]

/-- The lower bits do not change what they are set in. -/
theorem or_low (small : y < 2 ^ low) : 2 ^ low * x ||| y = 2 ^ low * x + y :=
  (Nat.two_pow_add_eq_or_of_lt small x).symm

/-- A number has no bit in common with its successor, in so many bits, exactly if it has only lower bits. -/
theorem succ_and_eq_zero_iff (small : x < 2 ^ width) :
    (x + 1) % 2 ^ width &&& x = 0 ↔ ∃ low ≤ width, x = 2 ^ low - 1 := by
  rcases Nat.lt_or_eq_of_le (Nat.succ_le_of_lt small) with less | last
  · rw [Nat.mod_eq_of_lt less]
    refine (Nat.and_sub_one_eq_zero_iff_isPowerOfTwo (Nat.succ_ne_zero x)).trans ?_
    constructor
    · rintro ⟨low, power⟩
      refine ⟨low, ?_, by omega⟩
      rw [power] at less
      exact ((Nat.pow_lt_pow_iff_right (by decide)).mp less).le
    · rintro ⟨low, _, power⟩
      have positive := Nat.two_pow_pos low
      exact ⟨low, by omega⟩
  · have zero : (x + 1) % 2 ^ width = 0 := by
      rw [show x + 1 = 2 ^ width from last]
      exact Nat.mod_self _
    rw [zero, Nat.zero_and]
    exact iff_of_true rfl ⟨width, le_rfl, by omega⟩

end Masks

end FirewallCore.Lib
