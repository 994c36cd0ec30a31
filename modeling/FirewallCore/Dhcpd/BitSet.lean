import Mathlib.Data.Nat.Bitwise
import Mathlib.Logic.Function.Basic
import Mathlib.Data.BitVec

/-!
The sparse bit set of `bitset.go`: a map from word numbers to 64-bit words.
`isSet_set` is all the servers ever use of it.
-/

namespace FirewallCore.Dhcpd

def bitsPerWord : Nat := 64

structure BitSet where
  words : Nat → Option (BitVec 64)

namespace BitSet

def newBitSet : BitSet := ⟨fun _ => none⟩

def isSet (s : BitSet) (n : Nat) : Bool :=
  match s.words (n / bitsPerWord) with
  | none => false
  | some word => word &&& (1#64 <<< (n % bitsPerWord)) != 0#64

/-- `set` sets or unsets a bit; a missing word reads as zero. -/
def set (s : BitSet) (n : Nat) (ok : Bool) : BitSet :=
  let word := (s.words (n / bitsPerWord)).getD 0#64
  let bit := 1#64 <<< (n % bitsPerWord)
  ⟨Function.update s.words (n / bitsPerWord)
    (some (if ok then word ||| bit else word &&& ~~~bit))⟩

@[simp] theorem isSet_newBitSet (n : Nat) : newBitSet.isSet n = false := rfl

/-- Masking with one bit asks for that bit. -/
private theorem and_bit_ne_zero (word : BitVec 64) {k : Nat} (hk : k < 64) :
    (word &&& (1#64 <<< k) != 0#64) = word.getLsbD k := by
  rw [← BitVec.twoPow_eq, BitVec.and_twoPow]
  cases word.getLsbD k with
  | false => simp
  | true =>
    have nonzero : BitVec.twoPow 64 k ≠ 0#64 := fun h => by
      have := congrArg (BitVec.getLsbD · k) h
      simp [hk] at this
    simpa using nonzero

theorem isSet_eq (s : BitSet) (n : Nat) :
    s.isSet n = ((s.words (n / 64)).getD 0#64).getLsbD (n % 64) := by
  unfold isSet
  simp only [bitsPerWord]
  cases s.words (n / 64) with
  | none => simp
  | some word => exact and_bit_ne_zero word (Nat.mod_lt _ (by decide))

/-- A bit reads back as it was last set. -/
@[simp] theorem isSet_set (s : BitSet) (n m : Nat) (ok : Bool) :
    (s.set n ok).isSet m = if m = n then ok else s.isSet m := by
  rw [isSet_eq, isSet_eq]
  simp only [set, bitsPerWord]
  have bound : n % 64 < 64 := Nat.mod_lt _ (by decide)
  have bound' : m % 64 < 64 := Nat.mod_lt _ (by decide)
  by_cases word : m / 64 = n / 64
  · rw [word, Function.update_self, Option.getD_some]
    have bit : m % 64 = n % 64 ↔ m = n := by omega
    rw [← BitVec.twoPow_eq]
    by_cases same : m = n
    · subst same
      cases ok <;> simp [bound]
    · have other : m % 64 ≠ n % 64 := fun h => same (bit.mp h)
      cases ok <;> simp [same, other, bound']
  · have same : m ≠ n := fun h => word (by rw [h])
    rw [Function.update_of_ne word, if_neg same]

end BitSet

end FirewallCore.Dhcpd
