import Mathlib.Data.List.Infix
import Mathlib.Data.Nat.Notation
import Mathlib.Data.UInt
import Mathlib.Tactic.IntervalCases

/-!
Strings as Go has them, by their bytes, and the search for a substring.
-/

namespace FirewallCore.Lib

/-- The bytes of a string. -/
def utf8 (s : String) : List UInt8 := s.toByteArray.data.toList

theorem utf8_inj {s t : String} (same : utf8 s = utf8 t) : s = t := by
  have data := Array.toList_inj.mp same
  exact String.toByteArray_inj.mp (ByteArray.ext data)

/-- `strings.Index`, for a substring that is not empty. -/
def indexOf {α : Type} [DecidableEq α] (sub : List α) : List α → Option Nat
  | [] => none
  | c :: rest => if sub <+: c :: rest then some 0 else (indexOf sub rest).map (· + 1)

end FirewallCore.Lib

/-!
Digits in text. Numbers are written with `Nat.digitChar`, in lower case; reading
accepts hexadecimal digits of either case.
-/

namespace FirewallCore.Lib

/-- The value of a decimal digit. -/
def digitVal (c : Char) : Option Nat :=
  if '0' ≤ c ∧ c ≤ '9' then some (c.toNat - '0'.toNat) else none

/-- The value of a hexadecimal digit. -/
def hexVal (c : Char) : Option Nat :=
  if '0' ≤ c ∧ c ≤ '9' then some (c.toNat - '0'.toNat)
  else if 'a' ≤ c ∧ c ≤ 'f' then some (c.toNat - 'a'.toNat + 10)
  else if 'A' ≤ c ∧ c ≤ 'F' then some (c.toNat - 'A'.toNat + 10)
  else none

theorem digitVal_digitChar {n : Nat} (small : n < 10) : digitVal (Nat.digitChar n) = some n := by
  interval_cases n <;> decide

theorem hexVal_digitChar {n : Nat} (small : n < 16) : hexVal (Nat.digitChar n) = some n := by
  interval_cases n <;> decide

/-- A number below a hundred, in two digits. -/
def twoDigits (n : Nat) : List Char := [Nat.digitChar (n / 10), Nat.digitChar (n % 10)]

/-- Reads two decimal digits. -/
def readTwo (a b : Char) : Option Nat := do
  let high ← digitVal a
  let low ← digitVal b
  return 10 * high + low

theorem readTwo_twoDigits {n : Nat} (small : n < 100) :
    readTwo (Nat.digitChar (n / 10)) (Nat.digitChar (n % 10)) = some n := by
  rw [readTwo, digitVal_digitChar (by omega), digitVal_digitChar (by omega)]
  exact congrArg some (Nat.div_add_mod n 10)

end FirewallCore.Lib
