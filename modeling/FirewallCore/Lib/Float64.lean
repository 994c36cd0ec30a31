import Mathlib.Algebra.Order.Ring.Nat
import Mathlib.Data.Int.Log
import Mathlib.Data.Rat.Floor

/-!
Floating-point numbers of 64 bits, as the rational numbers that they stand for.

`nearest` rounds to 53 binary digits, ties to even; `shortest` is the decimal
with the fewest digits that is rounded to a given number. Whole numbers are
exact as long as they are small enough.
-/

namespace FirewallCore.Lib.Float64

/-- The nearest whole number, ties to even. -/
def roundEven (q : ℚ) : ℤ :=
  let low := ⌊q⌋
  if q - low < 1 / 2 then low
  else if 1 / 2 < q - low then low + 1
  else if low % 2 = 0 then low
  else low + 1

/-- The exponent of the last binary digit. -/
def exponent (q : ℚ) : ℤ := max (Int.log 2 |q| - 52) (-1074)

/-- The nearest number with 53 binary digits. From `2 ^ 1024` on it stands for an infinity. -/
def nearest (q : ℚ) : ℚ := roundEven (q / 2 ^ exponent q) * 2 ^ exponent q

/-- The number rounded to `n` decimal digits. -/
def toDigits (n : ℕ) (q : ℚ) : ℚ :=
  let last := Int.log 10 |q| + 1 - n
  roundEven (q / 10 ^ last) * 10 ^ last

/-- The decimal with the fewest digits that is rounded to the number. -/
def shortest (q : ℚ) : ℚ :=
  (((List.range 17).map fun n => toDigits (n + 1) q).find? fun d => nearest d = q).getD q

/-- The number without its fraction. -/
def trunc (q : ℚ) : ℤ := if 0 ≤ q then ⌊q⌋ else ⌈q⌉

/-! ### Whole numbers -/

theorem roundEven_intCast (n : ℤ) : roundEven n = n := by
  unfold roundEven
  simp

theorem roundEven_le (q : ℚ) : |(roundEven q : ℚ)| ≤ |q| + 1 := by
  have below := Int.floor_le q
  have above := Int.lt_floor_add_one q
  have cases : roundEven q = ⌊q⌋ ∨ roundEven q = ⌊q⌋ + 1 := by
    unfold roundEven
    dsimp only
    split_ifs <;> simp
  have near : |(roundEven q : ℚ) - q| ≤ 1 := by
    rw [abs_le]
    rcases cases with low | high
    · rw [low]
      constructor <;> linarith
    · rw [high]
      push_cast
      constructor <;> linarith
  have triangle := abs_sub_abs_le_abs_sub (roundEven q : ℚ) q
  linarith

section Whole

variable {n : ℤ}

/-- Digits behind the point do not change a whole number. -/
theorem roundEven_div_mul {b : ℕ} (positive : 0 < b) (n : ℤ) {e : ℤ} (small : e ≤ 0) :
    (roundEven ((n : ℚ) / (b : ℚ) ^ e) : ℚ) * (b : ℚ) ^ e = n := by
  obtain ⟨k, rfl⟩ := Int.exists_eq_neg_ofNat small
  have base : (b : ℚ) ≠ 0 := Nat.cast_ne_zero.mpr positive.ne'
  have whole : (n : ℚ) / (b : ℚ) ^ (-(k : ℤ)) = ((n * (b : ℤ) ^ k : ℤ) : ℚ) := by
    rw [zpow_neg, div_inv_eq_mul, zpow_natCast]
    push_cast
    rfl
  rw [whole, roundEven_intCast, ← whole]
  exact div_mul_cancel₀ _ (zpow_ne_zero _ base)

theorem log_lt_of_lt {b : ℕ} (base : 1 < b) {k : ℕ} (positive : 0 < k) (small : |n| < (b : ℤ) ^ k) :
    Int.log b |(n : ℚ)| < k := by
  by_cases zero : n = 0
  · rw [zero, Int.cast_zero, abs_zero, Int.log_zero_right]
    exact_mod_cast positive
  · have cast : |(n : ℚ)| < (b : ℚ) ^ (k : ℤ) := by
      rw [zpow_natCast]
      exact_mod_cast small
    exact (Int.lt_zpow_iff_log_lt base (abs_pos.mpr (Int.cast_ne_zero.mpr zero))).mp cast

theorem nearest_intCast (small : |n| < 2 ^ 53) : nearest n = n := by
  have log := log_lt_of_lt (b := 2) (by norm_num) (by norm_num) small
  have exact : exponent n ≤ 0 := by
    unfold exponent
    omega
  exact roundEven_div_mul (b := 2) (by norm_num) n exact

/-- A whole number with some of its digits, which is still whole. -/
theorem toDigits_intCast (n : ℤ) {k : ℕ} (positive : 0 < k) :
    ∃ m : ℤ, toDigits k n = m ∧ |m| ≤ 2 * |n| := by
  unfold toDigits
  by_cases behind : Int.log 10 |(n : ℚ)| + 1 - k ≤ 0
  · exact ⟨n, roundEven_div_mul (b := 10) (by norm_num) n behind, by have := abs_nonneg n; omega⟩
  · obtain ⟨j, last⟩ := Int.eq_ofNat_of_zero_le (Int.le_of_lt (not_le.mp behind))
    rw [last]
    dsimp only
    rw [zpow_natCast]
    have nonzero : (n : ℚ) ≠ 0 := by
      intro zero
      rw [zero, abs_zero, Int.log_zero_right] at behind
      omega
    have power : (10 : ℚ) ^ j ≤ |(n : ℚ)| := by
      have fits := Int.zpow_log_le_self (b := 10) (by norm_num) (abs_pos.mpr nonzero)
      calc (10 : ℚ) ^ j = (10 : ℚ) ^ (j : ℤ) := (zpow_natCast _ _).symm
        _ ≤ ((10 : ℕ) : ℚ) ^ Int.log 10 |(n : ℚ)| := zpow_le_zpow_right₀ (by norm_num) (by omega)
        _ ≤ |(n : ℚ)| := fits
    have positive : (0 : ℚ) < 10 ^ j := by positivity
    refine ⟨roundEven ((n : ℚ) / 10 ^ j) * 10 ^ j, by push_cast; rfl, ?_⟩
    have bound : |(roundEven ((n : ℚ) / 10 ^ j) : ℚ) * 10 ^ j| ≤ 2 * |(n : ℚ)| := by
      calc |(roundEven ((n : ℚ) / 10 ^ j) : ℚ) * 10 ^ j|
          = |(roundEven ((n : ℚ) / 10 ^ j) : ℚ)| * 10 ^ j := by
            rw [abs_mul, abs_of_pos positive]
        _ ≤ (|(n : ℚ) / 10 ^ j| + 1) * 10 ^ j :=
          mul_le_mul_of_nonneg_right (roundEven_le _) positive.le
        _ = |(n : ℚ)| + 10 ^ j := by
            rw [abs_div, abs_of_pos positive, add_mul, div_mul_cancel₀ _ positive.ne', one_mul]
        _ ≤ 2 * |(n : ℚ)| := by linarith
    exact_mod_cast bound

theorem shortest_intCast (small : |n| < 2 ^ 52) : shortest n = n := by
  unfold shortest
  cases found : ((List.range 17).map fun k => toDigits (k + 1) (n : ℚ)).find? fun d =>
      nearest d = n with
  | none => rfl
  | some d =>
    obtain ⟨k, -, rfl⟩ := List.mem_map.mp (List.mem_of_find?_eq_some found)
    have rounded : nearest (toDigits (k + 1) n) = n := by simpa using List.find?_some found
    obtain ⟨m, whole, bound⟩ := toDigits_intCast n (Nat.succ_pos k)
    rw [whole, nearest_intCast (by omega)] at rounded
    exact whole.trans rounded

end Whole

theorem trunc_intCast (n : ℤ) : trunc n = n := by
  unfold trunc
  split
  · exact Int.floor_intCast n
  · exact Int.ceil_intCast n

end FirewallCore.Lib.Float64
