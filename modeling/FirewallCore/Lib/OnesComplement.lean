import Mathlib.Data.UInt

/-!
The 16-bit one's complement sum of the Internet protocols: a sum of words, whose carries are
added in again until it has 16 bits (`foldCarries`).

A folded sum is 0 only for 0, and else the number from 1 to 65535 with the same remainder by
65535 (`foldCarries_unique`). So carries may be added in at any time (`foldCarries_add`), as
`addCarry` does at each addition, and a sum together with its own complement is 65535
(`foldCarries_complement`).
-/

namespace FirewallCore.Lib

/-- The carries of a sum are added in until there are none. -/
def foldCarries (n : Nat) : Nat := if n < 65536 then n else foldCarries (n / 65536 + n % 65536)
termination_by n
decreasing_by omega

/-- The sum of the big-endian words of some bytes, padded with zero. -/
def wordSum : List UInt8 → Nat
  | [] => 0
  | [a] => 256 * a.toNat
  | a :: b :: rest => 256 * a.toNat + b.toNat + wordSum rest

/-- The bytes of a word. -/
def be16 (n : UInt16) : List UInt8 := [(n >>> 8).toUInt8, n.toUInt8]

/-- Addition whose carry, seen from the result being less than a summand, is added in. -/
def addCarry (sum t : UInt16) : UInt16 := if sum + t < t then sum + t + 1 else sum + t

section

variable {m n : Nat} {a b : List UInt8}

theorem foldCarries_spec (n : Nat) : foldCarries n < 65536 ∧ foldCarries n % 65535 = n % 65535 ∧ (foldCarries n = 0 ↔ n = 0) := by
  induction n using foldCarries.induct with
  | case1 n small =>
    rw [foldCarries, if_pos small]
    exact ⟨small, rfl, Iff.rfl⟩
  | case2 n big ih =>
    rw [foldCarries, if_neg big]
    obtain ⟨below, remainder, zero⟩ := ih
    refine ⟨below, ?_, ?_⟩
    · rw [remainder]
      omega
    · rw [zero]
      omega

theorem foldCarries_unique (low : 0 < n) (high : n < 65536) (remainder : n % 65535 = m % 65535) (positive : 0 < m) :
    foldCarries m = n := by
  obtain ⟨below, same, zero⟩ := foldCarries_spec m
  have nonzero : foldCarries m ≠ 0 := fun none => Nat.ne_of_gt positive (zero.mp none)
  omega

/-- Carries that are added in first make no difference. -/
theorem foldCarries_add (m n : Nat) : foldCarries (foldCarries m + n) = foldCarries (m + n) := by
  obtain ⟨-, remainder, zero⟩ := foldCarries_spec m
  obtain ⟨below, remainder', zero'⟩ := foldCarries_spec (m + n)
  by_cases none : m + n = 0
  · have first : m = 0 := Nat.eq_zero_of_add_eq_zero_right none
    rw [zero.mpr first, first]
  · refine foldCarries_unique ?_ below ?_ ?_
    · omega
    · rw [remainder', Nat.add_mod, ← remainder, ← Nat.add_mod]
    · omega

theorem foldCarries_of_small (small : n < 65536) : foldCarries n = n := by
  rw [foldCarries, if_pos small]

/-- A sum that is not 0 and the complement of what it folds to. -/
theorem foldCarries_complement (positive : 0 < n) : foldCarries (n + (65535 - foldCarries n)) = 65535 := by
  obtain ⟨below, remainder, zero⟩ := foldCarries_spec n
  exact foldCarries_unique (by decide) (by decide) (by omega) (by omega)

theorem addCarry_toNat (sum t : UInt16) : (addCarry sum t).toNat = foldCarries (sum.toNat + t.toNat) := by
  have boundSum := sum.toNat_lt
  have boundT := t.toNat_lt
  have total : (sum + t).toNat = (sum.toNat + t.toNat) % 65536 := UInt16.toNat_add sum t
  unfold addCarry
  split
  · rename_i carried
    rw [UInt16.lt_iff_toNat_lt, total] at carried
    have next : (sum + t + 1).toNat = ((sum.toNat + t.toNat) % 65536 + 1) % 65536 := by
      rw [UInt16.toNat_add, total]
      rfl
    rw [next, foldCarries, if_neg (by omega), foldCarries_of_small (by omega)]
    omega
  · rename_i fits
    rw [UInt16.lt_iff_toNat_lt, total] at fits
    rw [total, foldCarries_of_small (by omega)]
    omega

theorem wordSum_be16_append (n : UInt16) (rest : List UInt8) : wordSum (be16 n ++ rest) = n.toNat + wordSum rest := by
  have bound := n.toNat_lt
  have high : ((n >>> 8).toUInt8).toNat = n.toNat / 256 := by
    rw [UInt16.toNat_toUInt8, UInt16.toNat_shiftRight]
    change n.toNat >>> 8 % 256 = _
    rw [Nat.shiftRight_eq_div_pow]
    omega
  have low : n.toUInt8.toNat = n.toNat % 256 := UInt16.toNat_toUInt8 n
  change 256 * (n >>> 8).toUInt8.toNat + n.toUInt8.toNat + wordSum rest = _
  rw [high, low]
  omega

theorem wordSum_append (even : a.length % 2 = 0) (b : List UInt8) : wordSum (a ++ b) = wordSum a + wordSum b := by
  induction a using wordSum.induct with
  | case1 => exact (Nat.zero_add _).symm
  | case2 a => cases even
  | case3 x y rest ih =>
    have even' : rest.length % 2 = 0 := by
      rw [List.length_cons, List.length_cons] at even
      omega
    change 256 * x.toNat + y.toNat + wordSum (rest ++ b) = 256 * x.toNat + y.toNat + wordSum rest + wordSum b
    rw [ih even', Nat.add_assoc (256 * x.toNat + y.toNat)]

end

end FirewallCore.Lib
