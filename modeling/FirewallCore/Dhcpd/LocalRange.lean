import FirewallCore.Lib.Bits
import FirewallCore.Dhcpd.V4HandlerSpec

/-!
Which accepted configurations of the DHCPv4 server lease local addresses only.

`Validate` checks the two ends of the range against a prefix it derives from the
length of the subnet mask. `IPMask.Size` reports no length for a mask that is not ones
followed by zeroes, and this goes unnoticed: the prefix then has length zero and
contains every address.
-/

namespace FirewallCore.Dhcpd

open FirewallCore.Net FirewallCore.Lib

/-- The number of an address, in the form `ensureV4` takes it. -/
def number4 (ip : Addr) : BitVec 32 :=
  match ip.unmap with
  | .v4 n => n
  | _ => 0

theorem number4_eq {ip : Addr} {n : BitVec 32} (h : ip.unmap = .v4 n) : number4 ip = n := by
  simp only [number4, h]

/-- A mask of ones followed by zeroes. -/
def ContiguousMask (mask : BitVec 32) : Prop := ∃ k ≤ 32, BitVec.allOnes 32 <<< (32 - k) = mask

/-- `IPMask.Size` finds the length of a contiguous mask. -/
theorem maskSize_spec {mask : BitVec 32} (contiguous : ContiguousMask mask) :
    maskSize mask ≤ 32 ∧ BitVec.allOnes 32 <<< (32 - maskSize mask) = mask := by
  obtain ⟨k, bound, shape⟩ := contiguous
  unfold maskSize
  cases found : (List.range 33).find? fun k => BitVec.allOnes 32 <<< (32 - k) == mask with
  | none =>
    have absent := List.find?_eq_none.mp found k (List.mem_range.mpr (by omega))
    exact absurd (beq_iff_eq.mpr shape) absent
  | some size =>
    have member := List.mem_range.mp (List.mem_of_find?_eq_some found)
    have this := List.find?_some found
    exact ⟨Nat.le_of_lt_succ member, beq_iff_eq.mp this⟩

/-- What `Contains` of an IPv4 prefix says bit by bit. -/
theorem contains_ofAddr_iff {gateway x : BitVec 32} {size : Nat} (bound : size ≤ 32) :
    (Prefix.ofAddr (.v4 gateway) size).contains (.v4 x) = true ↔
      x >>> (32 - size) = gateway >>> (32 - size) := by
  have bits : (Prefix.ofAddr (.v4 gateway) size).contains (.v4 x) =
      ((gateway ^^^ x) >>> (32 - size) == 0#32) := by
    simp [Prefix.ofAddr, Prefix.contains, Addr.isValid, Addr.bitLen, Addr.withoutZone, bound]
  rw [bits, beq_iff_eq, BitVec.ushiftRight_xor_distrib, BitVec.xor_eq_zero_iff, eq_comm]

namespace V4ServerConf

/-- Every address from `RangeStart` to `RangeEnd` is in the network of the gateway, and
is not the gateway. -/
def LeasesLocal (c : V4ServerConf) : Prop :=
  ∀ a, number4 c.rangeStart ≤ a → a ≤ number4 c.rangeEnd →
    a &&& number4 c.subnetMask = number4 c.gatewayIP &&& number4 c.subnetMask ∧
      a ≠ number4 c.gatewayIP

/-- `RangeStart` is in the network of the gateway, and `RangeEnd` has the same bits as
`RangeStart` from every bit of the mask upwards. -/
def EndsUnderMask (c : V4ServerConf) : Prop :=
  number4 c.rangeStart &&& number4 c.subnetMask = number4 c.gatewayIP &&& number4 c.subnetMask ∧
    ∀ i, (number4 c.subnetMask).getLsbD i = true →
      number4 c.rangeStart >>> i = number4 c.rangeEnd >>> i

end V4ServerConf

namespace V4Server

theorem Accepted.numbers {c c' : V4ServerConf} {gateway mask first last : BitVec 32}
    (h : Accepted c c' gateway mask first last) :
    number4 c.gatewayIP = gateway ∧ number4 c.subnetMask = mask ∧
      number4 c.rangeStart = first ∧ number4 c.rangeEnd = last :=
  ⟨number4_eq h.gatewayIP, number4_eq h.subnetMask, number4_eq h.rangeStart,
    number4_eq h.rangeEnd⟩

/-- The bits of a contiguous mask lie where the prefix of its length looks. -/
theorem le_of_getLsbD_contiguous {size i : Nat}
    (set : (BitVec.allOnes 32 <<< (32 - size)).getLsbD i = true) : 32 - size ≤ i := by
  rw [BitVec.getLsbD_shiftLeft] at set
  simp only [Bool.and_eq_true, Bool.not_eq_true', decide_eq_false_iff_not] at set
  omega

/-- Equal numbers after a shift stay equal after a longer one. -/
theorem ushiftRight_eq_of_le {x y : BitVec 32} {m i : Nat} (same : x >>> m = y >>> m)
    (le : m ≤ i) : x >>> i = y >>> i := by
  obtain ⟨d, rfl⟩ := Nat.exists_eq_add_of_le le
  rw [BitVec.shiftRight_add, BitVec.shiftRight_add, same]

/-- Under a contiguous mask the checks of `Validate` reach the whole range. -/
theorem endsUnderMask_of_contiguous {c c' : V4ServerConf} (done : c.validate = .ok c')
    (contiguous : ContiguousMask (number4 c.subnetMask)) : c.EndsUnderMask := by
  obtain ⟨gateway, mask, first, last, accepted⟩ := validate_accepted done
  obtain ⟨atGateway, atMask, atFirst, atLast⟩ := accepted.numbers
  unfold V4ServerConf.EndsUnderMask
  rw [atGateway, atMask, atFirst, atLast]
  rw [atMask] at contiguous
  obtain ⟨bound, shape⟩ := maskSize_spec contiguous
  have firstInside := accepted.first_inside
  have lastInside := accepted.last_inside
  rw [accepted.subnet, contains_ofAddr_iff bound] at firstInside lastInside
  have upper : ∀ i, mask.getLsbD i = true → 32 - maskSize mask ≤ i := by
    intro i set
    rw [← shape] at set
    exact le_of_getLsbD_contiguous set
  constructor
  · rw [BitRange.and_mask_eq_iff]
    intro i set
    have same := ushiftRight_eq_of_le firstInside (upper i set)
    have bit := congrArg (BitVec.getLsbD · 0) same
    simpa using bit
  · intro i set
    exact ushiftRight_eq_of_le (firstInside.trans lastInside.symm) (upper i set)

/-- What `nextIP` hands out is in the range of the configuration. -/
theorem nextIP_in_range {c c' : V4ServerConf} (done : c.validate = .ok c') {s : V4Server}
    (conf : s.conf.bind (·.ipRange) = c'.ipRange) {a : BitVec 32} (next : s.nextIP = .four a) :
    number4 c.rangeStart ≤ a ∧ a ≤ number4 c.rangeEnd := by
  obtain ⟨gateway, mask, first, last, accepted⟩ := validate_accepted done
  obtain ⟨-, -, atFirst, atLast⟩ := accepted.numbers
  obtain ⟨o, off, -⟩ := nextIP_eq_four next
  obtain ⟨r, range, low, high⟩ := offset_eq_true off
  rw [conf, accepted.ipRange] at range
  cases range
  simp only [Addr.as16] at low high
  rw [atFirst, atLast, BitVec.le_def, BitVec.le_def]
  omega

/-- An accepted configuration leases local addresses only, exactly when its mask is
contiguous or the ends of its range agree from every bit of the mask upwards. `nextIP`
hands out addresses of the range and no others. -/
theorem validate_leasesLocal_iff {c c' : V4ServerConf} (done : c.validate = .ok c') :
    (∀ s : V4Server, s.conf.bind (·.ipRange) = c'.ipRange → ∀ a, s.nextIP = .four a →
        number4 c.rangeStart ≤ a ∧ a ≤ number4 c.rangeEnd) ∧
      (c.LeasesLocal ↔ ContiguousMask (number4 c.subnetMask) ∨ c.EndsUnderMask) := by
  constructor
  · intro s conf a next
    exact nextIP_in_range done conf next
  have reach : c.LeasesLocal ↔ c.EndsUnderMask := by
    obtain ⟨gateway, mask, first, last, accepted⟩ := validate_accepted done
    obtain ⟨atGateway, atMask, atFirst, atLast⟩ := accepted.numbers
    unfold V4ServerConf.LeasesLocal V4ServerConf.EndsUnderMask
    rw [atGateway, atMask, atFirst, atLast,
      ← BitRange.forall_and_mask_eq_iff (Nat.le_of_lt accepted.ordered)]
    constructor
    · intro all a low high
      exact (all a low high).1
    · intro all a low high
      refine ⟨all a low high, fun same => ?_⟩
      rw [BitVec.le_def] at low high
      have outside := accepted.outside
      rw [same] at low high
      omega
  constructor
  · intro isLocal
    exact .inr (reach.mp isLocal)
  · rintro (contiguous | ends)
    · exact reach.mpr (endsUnderMask_of_contiguous done contiguous)
    · exact reach.mpr ends

theorem smallConf_leasesLocal : smallConf.LeasesLocal := by
  have done : smallConf.validate = .ok { smallConf with
      subnet := Prefix.ofAddr smallConf.gatewayIP 24
      ipRange := some ⟨(Addr.v4 0xC0A80A64).as16, (Addr.v4 0xC0A80A66).as16⟩ } := by
    decide +kernel
  exact (validate_leasesLocal_iff done).2.mpr (.inl ⟨24, by decide, by decide⟩)

/-- The mask `255.0.255.0` and a range in another network. -/
def gappedConf : V4ServerConf :=
  { gatewayIP := .v4 0xC0A80A01, subnetMask := .v4 0xFF00FF00, rangeStart := .v4 0x0A000064,
    rangeEnd := .v4 0x0A0000C8 }

/-- `Validate` accepts a mask with a gap, and with it any range. -/
theorem gappedConf_not_leasesLocal :
    gappedConf.validate.isOk = true ∧ ¬gappedConf.LeasesLocal := by
  refine ⟨by decide +kernel, fun isLocal => ?_⟩
  have start := isLocal 0x0A000064 (by decide) (by decide)
  exact absurd start.1 (by decide)

end V4Server

end FirewallCore.Dhcpd
