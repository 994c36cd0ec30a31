import FirewallCore.Dhcpd.V4Spec

/-!
What the message handlers of the DHCPv4 server can do. `allocateLease_last`
reduces a call of the allocation loop to its last round, with an invariant for
the rounds before it, which all ended in a ping conflict.
-/

namespace FirewallCore.Dhcpd

open FirewallCore.Net FirewallCore.Lib

/-- An address that is there and not the unspecified one. -/
def isPresent (ip : IP) : Bool := !ip.isNil && !ip.isUnspecified

/-- The address the client of a DHCPREQUEST names for its state. -/
def Msg.namedIP (req : Msg) : IP :=
  if isPresent req.serverIdentifier || isPresent req.requestedIP then req.requestedIP
  else req.clientIPAddr

namespace V4Server

variable {nu : Netutil} {s s' : V4Server} {p q : Ptr} {i : Nat}

/-! ### Validated configurations -/

/-- What validation promises about a configuration: the subnet holds only IPv4
addresses, and so does the range, by their mapped form. -/
structure Configured (s : V4Server) : Prop where
  subnet_is4 : ∀ ip, s.subnet.contains ip = true → ip.is4 = true
  range_mapped : ∀ r, s.conf.bind (·.ipRange) = some r →
    ∀ n, r.start ≤ n → n ≤ r.stop → n / 2 ^ 32 = mappedHigh
  leaseTime_nonneg : 0 ≤ s.leaseTime

theorem Configured.congr (h : Configured s) (same : s'.conf = s.conf) : Configured s' := by
  obtain ⟨subnet_is4, range_mapped, leaseTime_nonneg⟩ := h
  refine ⟨?_, ?_, ?_⟩
  · rwa [subnet_congr same]
  · rwa [same]
  · unfold leaseTime at leaseTime_nonneg ⊢
    rwa [same]

private theorem except_bind_ok {ε α β : Type} {x : Except ε α} {f : α → Except ε β} {b : β} :
    x.bind f = .ok b ↔ ∃ a, x = .ok a ∧ f a = .ok b := by
  cases x <;> simp [Except.bind]

/-- What `newIPRange` accepts. -/
theorem newIPRange_ok {start stop : Addr} {r : IPRange} (done : newIPRange start stop = .ok r) :
    r = ⟨start.as16, stop.as16⟩ ∧ start.as16 < stop.as16 := by
  unfold newIPRange at done
  split at done
  · cases done
  rename_i ordered
  split at done
  · cases done
  cases done
  exact ⟨rfl, Nat.lt_of_not_le ordered⟩

theorem ensureV4_ok {ip : Addr} {kind : String} {n : BitVec 32}
    (done : ensureV4 ip kind = .ok n) : ip.unmap = .v4 n := by
  unfold ensureV4 at done
  split at done
  · rename_i unmapped
    cases done
    exact unmapped
  · cases done

/-- The configurations that `Validate` accepts, by the numbers of their four IPv4
addresses: the ends of the range are in order and in the subnet, and the gateway
is not between them. -/
structure Accepted (c c' : V4ServerConf) (gateway mask first last : BitVec 32) : Prop where
  gatewayIP : c.gatewayIP.unmap = .v4 gateway
  subnetMask : c.subnetMask.unmap = .v4 mask
  rangeStart : c.rangeStart.unmap = .v4 first
  rangeEnd : c.rangeEnd.unmap = .v4 last
  subnet : c'.subnet = Prefix.ofAddr (.v4 gateway) (maskSize mask)
  ipRange : c'.ipRange = some ⟨(Addr.v4 first).as16, (Addr.v4 last).as16⟩
  ordered : first.toNat < last.toNat
  outside : gateway.toNat < first.toNat ∨ last.toNat < gateway.toNat
  first_inside : c'.subnet.contains (.v4 first) = true
  last_inside : c'.subnet.contains (.v4 last) = true

theorem validate_accepted {c c' : V4ServerConf} (done : c.validate = .ok c') :
    ∃ gateway mask first last, Accepted c c' gateway mask first last := by
  simp only [V4ServerConf.validate, bind, except_bind_ok] at done
  obtain ⟨gateway, atGateway, mask, atMask, first, atFirst, last, atLast, r, range, done⟩ := done
  split at done
  · cases done
  rename_i outside
  split at done
  · cases done
  rename_i firstInside
  split at done
  · cases done
  rename_i lastInside
  cases done
  obtain ⟨ends, ordered⟩ : r = ⟨(Addr.v4 first).as16, (Addr.v4 last).as16⟩ ∧
      (Addr.v4 first).as16 < (Addr.v4 last).as16 := by
    cases made : newIPRange (.v4 first) (.v4 last) with
    | error err =>
      rw [made] at range
      cases range
    | ok r' =>
      rw [made] at range
      cases range
      exact newIPRange_ok made
  subst ends
  simp only [IPRange.containsInt, Bool.and_eq_true, decide_eq_true_eq] at outside
  simp only [Addr.as16] at outside ordered
  exact ⟨gateway, mask, first, last, ensureV4_ok atGateway, ensureV4_ok atMask,
    ensureV4_ok atFirst, ensureV4_ok atLast, rfl, rfl, by omega, by omega,
    by simpa using firstInside, by simpa using lastInside⟩

/-- A validated configuration has an IPv4 subnet and a range between two IPv4
addresses. -/
theorem validate_ok {c c' : V4ServerConf} (done : c.validate = .ok c') :
    (∃ a bits, c'.subnet = ⟨.v4 a, bits⟩) ∧
      ∃ m n, c'.ipRange = some ⟨(Addr.v4 m).as16, (Addr.v4 n).as16⟩ := by
  obtain ⟨gateway, mask, first, last, accepted⟩ := validate_accepted done
  exact ⟨⟨gateway, _, accepted.subnet⟩, first, last, accepted.ipRange⟩

theorem v4Create_configured (conf : V4ServerConf) : Configured (v4Create conf).1 := by
  unfold v4Create
  dsimp only
  split
  · refine ⟨?_, ?_, ?_⟩
    · intro ip inside
      simp [subnet, Prefix.contains, Prefix.zero] at inside
    · intro r found
      simp at found
    · simp [leaseTime]
  · rename_i c valid
    obtain ⟨⟨a, bits, onSubnet⟩, m, n, onRange⟩ := validate_ok valid
    refine ⟨?_, ?_, ?_⟩
    · intro ip inside
      have inside : c.subnet.contains ip = true := by
        simp only [subnet, Option.map_some, Option.getD_some] at inside
        split at inside <;> exact inside
      rw [onSubnet] at inside
      exact Prefix.is4_of_contains inside
    · intro r found k low high
      have found : c.ipRange = some r := by
        simp only [Option.bind_some] at found
        split at found <;> exact found
      rw [onRange] at found
      cases found
      simp only [Addr.as16] at low high
      have := n.isLt
      simp only [mappedHigh] at *
      omega
    · simp only [leaseTime, Option.map_some, Option.getD_some]
      split
      · exact (by decide : (0 : Int) ≤ day)
      · exact Int.mul_nonneg (by decide) (Int.natCast_nonneg _)

/-! ### Reserving and allocating -/

/-- `nextIP` finds an address of the range whose bit is clear. -/
theorem nextIP_eq_four {n : BitVec 32} (h : s.nextIP = .four n) :
    ∃ o, s.offset (.v4 n) = (o, true) ∧ s.leasedOffsets.isSet o = false := by
  unfold nextIP at h
  split at h
  · cases h
  rename_i r range
  split at h
  · cases h
  rename_i k found
  split at h
  · rename_i mapped
    cases h
    obtain ⟨low, high, free⟩ := IPRange.find_eq_some found
    have here : (Addr.v4 (BitVec.ofNat 32 k)).as16 = k := by
      simp only [Addr.as16, BitVec.toNat_ofNat]
      omega
    have off : r.offset k = (k - r.start, true) := IPRange.offset_eq_true.mpr ⟨by omega, high⟩
    refine ⟨k - r.start, ?_, ?_⟩
    · unfold offset
      rw [range, here]
      exact off
    · simpa [off] using free
  · cases h

theorem nextIP_cases (s : V4Server) : s.nextIP = .nil ∨ ∃ n, s.nextIP = .four n := by
  unfold nextIP
  split
  · exact .inl rfl
  split
  · exact .inl rfl
  split
  · exact .inr ⟨_, rfl⟩
  · exact .inl rfl

/-- When `nextIP` finds nothing, every bit of the range is set. -/
theorem nextIP_eq_nil (conf : Configured s) (h : s.nextIP = .nil) {r : IPRange}
    (range : s.conf.bind (·.ipRange) = some r) {o : Nat} (inside : r.start + o ≤ r.stop) :
    s.leasedOffsets.isSet o = true := by
  unfold nextIP at h
  simp only [range] at h
  split at h
  · rename_i none
    have seen := IPRange.find_eq_none none (Nat.le_add_right r.start o) inside
    rw [IPRange.offset_eq_true.mpr ⟨rfl, inside⟩] at seen
    simpa using seen
  · rename_i k found
    obtain ⟨low, high, -⟩ := IPRange.find_eq_some found
    rw [if_pos (conf.range_mapped r range k low high)] at h
    cases h

/-- The lease that `reserveLease` makes in a free address. -/
def reserveFresh (s : V4Server) (mac : HardwareAddr) (n : BitVec 32) : V4Server :=
  (s.new { ip := .v4 n, hwAddr := mac }).insertLease s.next

/-- The entry of an expired lease that `reserveLease` hands to another client. -/
def reserveExpired (s : V4Server) (mac : HardwareAddr) (p : Ptr) : V4Server :=
  s.modify p fun l => { l with hwAddr := goCopy l.hwAddr mac }

/-- `reserveLease` gives up, reuses the entry of an expired dynamic lease, or makes
a new dynamic lease in a free address. It never fails. -/
theorem reserveLease_cases {mac : HardwareAddr} {now : Time}
    {res : Except V4Err (Option Ptr)} (done : s.reserveLease mac now = (s', res)) :
    (s.nextIP = .nil ∧ s' = s ∧ res = .ok none) ∨
      (s.nextIP = .nil ∧ ∃ i p, s.findExpiredLease now = some i ∧ s.leases.elems[i]? = some p ∧
        (s.heap p).isStatic = false ∧ (s.heap p).expiry < now ∧
        s' = s.reserveExpired mac p ∧ res = .ok (some p)) ∨
      ∃ n o, s.offset (.v4 n) = (o, true) ∧ s.leasedOffsets.isSet o = false ∧
        s' = s.reserveFresh mac n ∧ res = .ok (some s.next) := by
  rcases nextIP_cases s with none | ⟨n, free⟩
  · simp only [reserveLease, none] at done
    split at done
    · cases done
      exact .inl ⟨none, rfl, rfl⟩
    rename_i i found
    split at done
    · cases done
      exact .inl ⟨none, rfl, rfl⟩
    rename_i p entry
    cases done
    obtain ⟨bound, expired, -⟩ := List.findIdx?_eq_some_iff_getElem.mp found
    rw [List.getElem?_eq_getElem bound] at entry
    cases entry
    simp only [Bool.and_eq_true, Bool.not_eq_true', decide_eq_true_eq] at expired
    exact .inr (.inl ⟨none, i, _, found, List.getElem?_eq_getElem bound, expired.1, expired.2,
      rfl, rfl⟩)
  · obtain ⟨o, off, clear⟩ := nextIP_eq_four free
    have added : (s.new { ip := .v4 n, hwAddr := mac }).addLease s.next =
        .ok (s.reserveFresh mac n) := by
      simp [addLease, off, reserveFresh]
    simp only [reserveLease, free, addrFromSlice, added] at done
    cases done
    exact .inr (.inr ⟨n, o, off, clear, rfl, rfl⟩)

theorem reserveLease_conf {mac : HardwareAddr} {now : Time}
    {res : Except V4Err (Option Ptr)} (done : s.reserveLease mac now = (s', res)) :
    s'.conf = s.conf := by
  rcases reserveLease_cases done with ⟨-, rfl, -⟩ | ⟨-, i, p, -, -, -, -, rfl, -⟩ |
    ⟨n, o, -, -, rfl, -⟩
  · rfl
  · rfl
  · rfl

/-- The allocation loop ends with the first round that finds no lease or one
whose address is silent. `I` holds of the state and the conflicts at the
beginning of each round, counted from zero. -/
theorem allocateLease_last {mac : HardwareAddr} {rounds : List Round} {a : Allocation}
    {conflicts : List Conflict} {I : Nat → V4Server → List Conflict → Prop}
    (conflict : ∀ k s conflicts r s₁ p, rounds[k]? = some r → I k s conflicts →
      s.reserveLease mac r.now = (s₁, .ok (some p)) → s₁.addrAvailable r.silent = false →
      I (k + 1) (s₁.blocklistLease p r.stamp)
        (((s₁.heap p).ip, r.stamp + s₁.leaseTime) :: conflicts))
    (done : allocateLease mac s conflicts rounds = some a) (start : I 0 s conflicts) :
    ∃ k r s₀, rounds[k]? = some r ∧ I k s₀ a.conflicts ∧
      s₀.reserveLease mac r.now = (a.server, a.lease) ∧
      ∀ p, a.lease = .ok (some p) → a.server.addrAvailable r.silent = true := by
  induction rounds generalizing s conflicts I with
  | nil => cases done
  | cons r rest ih =>
    simp only [allocateLease] at done
    split at done
    · rename_i s₁ err reserved
      exfalso
      rcases reserveLease_cases reserved with ⟨-, -, h⟩ | ⟨-, i, p, -, -, -, -, -, h⟩ |
        ⟨n, o, -, -, -, h⟩ <;> cases h
    · rename_i s₁ reserved
      cases done
      exact ⟨0, r, s, rfl, start, reserved, fun p h => by cases h⟩
    · rename_i s₁ p reserved
      split at done
      · rename_i available
        cases done
        exact ⟨0, r, s, rfl, start, reserved, fun _ _ => available⟩
      · rename_i unavailable
        have next := conflict 0 s conflicts r s₁ p rfl start reserved (by simpa using unavailable)
        obtain ⟨k, r', s₀, round, inv, last, silent⟩ :=
          ih (I := fun k => I (k + 1))
            (fun k s c r s₁ p round => conflict (k + 1) s c r s₁ p (by simpa using round))
            done next
        exact ⟨k + 1, r', s₀, by simpa using round, inv, last, silent⟩

/-- What an allocation leaves alone: the index of hostnames, the entries as such, and
every lease outside of the table. -/
structure Untouched (s s' : V4Server) : Prop where
  hosts : s'.hostsIndex = s.hostsIndex
  next : s.next ≤ s'.next
  listed : ∀ q ∈ s.leases.elems, q ∈ s'.leases.elems
  outside : ∀ q, q < s.next → q ∉ s.leases.elems → q ∉ s'.leases.elems ∧ s'.heap q = s.heap q

theorem Untouched.refl (s : V4Server) : Untouched s s :=
  ⟨rfl, Nat.le_refl _, fun _ listed => listed, fun _ _ absent => ⟨absent, rfl⟩⟩

theorem Untouched.trans {s s' s'' : V4Server} (first : Untouched s s')
    (second : Untouched s' s'') : Untouched s s'' := by
  refine ⟨second.hosts.trans first.hosts, Nat.le_trans first.next second.next,
    fun q member => second.listed q (first.listed q member), ?_⟩
  intro q bound absent
  obtain ⟨absent', same⟩ := first.outside q bound absent
  obtain ⟨absent'', same'⟩ := second.outside q (Nat.lt_of_lt_of_le bound first.next) absent'
  exact ⟨absent'', same'.trans same⟩

theorem Untouched.modify (member : p ∈ s.leases.elems) (f : Lease → Lease) :
    Untouched s (s.modify p f) := by
  refine ⟨rfl, Nat.le_refl _, fun _ listed => listed, ?_⟩
  intro q _ absent
  refine ⟨absent, heap_modify_of_ne s f ?_⟩
  rintro rfl
  exact absent member

theorem Untouched.reserveLease {mac : HardwareAddr} {now : Time}
    {res : Except V4Err (Option Ptr)} (done : s.reserveLease mac now = (s', res)) :
    Untouched s s' ∧ ∀ p, res = .ok (some p) → p ∈ s'.leases.elems := by
  rcases reserveLease_cases done with ⟨-, rfl, rfl⟩ | ⟨-, i, p, -, entry, -, -, rfl, rfl⟩ |
    ⟨n, o, -, -, rfl, rfl⟩
  · exact ⟨.refl _, fun p h => by cases h⟩
  · have member := List.mem_of_getElem? entry
    refine ⟨.modify member _, ?_⟩
    rintro q ⟨⟩
    exact member
  · refine ⟨⟨by simp [reserveFresh, insertLease], Nat.le_succ _, ?_, ?_⟩, ?_⟩
    · intro q member
      simp [reserveFresh, member]
    · intro q bound absent
      refine ⟨?_, heap_new_of_lt s _ bound⟩
      simp [reserveFresh, absent, Nat.ne_of_lt bound]
    · rintro q ⟨⟩
      simp [reserveFresh]

theorem Untouched.allocateLease {mac : HardwareAddr} {rounds : List Round} {a : Allocation}
    (done : V4Server.allocateLease mac s [] rounds = some a) : Untouched s a.server := by
  obtain ⟨k, r, t, -, before, last, -⟩ :=
    allocateLease_last (I := fun _ t _ => Untouched s t) (by
      intro k t _ r t₁ p _ before reserved _
      obtain ⟨next, listed⟩ := Untouched.reserveLease reserved
      exact (before.trans next).trans (.modify (listed p rfl) _)) done (.refl s)
  exact before.trans (Untouched.reserveLease last).1

/-! ### Lookups -/

theorem findLease_some {mac : HardwareAddr} (found : s.findLease mac = some p) :
    p ∈ s.leases.elems ∧ (s.heap p).hwAddr = mac := by
  refine ⟨List.mem_of_find?_eq_some found, ?_⟩
  have hit := List.find?_some found
  simp only [beq_iff_eq] at hit
  exact hit.symm

theorem findLease_none {mac : HardwareAddr} (absent : s.findLease mac = none) :
    ∀ p ∈ s.leases.elems, (s.heap p).hwAddr ≠ mac := by
  intro p member same
  have miss := List.find?_eq_none.mp absent p member
  simp only [beq_iff_eq] at miss
  exact miss same.symm

theorem findLeaseForIP_some {ip : IP} {mac : HardwareAddr}
    (found : s.findLeaseForIP ip mac = some p) :
    p ∈ s.leases.elems ∧ (s.heap p).hwAddr = mac ∧ addrFromSlice ip = some (s.heap p).ip := by
  unfold findLeaseForIP at found
  split at found
  · cases found
  · rename_i netIP valid
    have hit := List.find?_some found
    simp only [Bool.and_eq_true, beq_iff_eq] at hit
    exact ⟨List.mem_of_find?_eq_some found, hit.1, by rw [valid, hit.2]⟩

/-- The entry of a lease with this hardware address and this IP. -/
structure Matching (s : V4Server) (mac : HardwareAddr) (ip : IP) (p : Ptr) : Prop where
  listed : p ∈ s.leases.elems
  hwAddr : (s.heap p).hwAddr = mac
  address : addrFromSlice ip = some (s.heap p).ip

theorem checkLease_some {mac : HardwareAddr} {ip : IP} {mismatch : Bool}
    (found : s.checkLease mac ip = (some p, mismatch)) : Matching s mac ip p := by
  unfold checkLease at found
  split at found
  · cases found
  · rename_i netIP valid
    split at found
    · cases found
    · rename_i q first
      split at found
      · rename_i same
        cases found
        have hit := List.find?_some first
        simp only [beq_iff_eq] at hit
        exact ⟨List.mem_of_find?_eq_some first, hit, by rw [valid, same]⟩
      · cases found

theorem handleByRequestType_eq {req : Msg} {self : Addr} : s.handleByRequestType req self =
    if isPresent req.serverIdentifier then
      s.handleSelecting req req.requestedIP req.serverIdentifier self
    else if isPresent req.requestedIP then s.handleInitReboot req req.requestedIP
    else s.handleRenew req := rfl

/-- A DHCPREQUEST is about a lease of the client's hardware address, in the address the
client names. -/
theorem handleByRequestType_some {req : Msg} {self : Addr} {needsReply : Bool}
    (found : s.handleByRequestType req self = (some p, needsReply)) :
    Matching s req.clientHWAddr req.namedIP p := by
  rw [handleByRequestType_eq] at found
  unfold Msg.namedIP
  split at found
  · rename_i sid
    rw [sid, Bool.true_or, if_pos rfl]
    unfold handleSelecting at found
    split at found
    · cases found
    split at found
    · cases found
    split at found
    · cases found
    split at found
    · cases found
    · rename_i hit
      cases found
      exact checkLease_some hit
  rename_i noSid
  split at found
  · rename_i requested
    rw [requested, Bool.or_true, if_pos rfl]
    unfold handleInitReboot at found
    split at found
    · cases found
    split at found
    · cases found
    split at found
    · cases found
    split at found
    · cases found
    · cases found
    · rename_i hit
      cases found
      exact checkLease_some hit
  · rename_i unrequested
    rw [Bool.eq_false_iff.mpr noSid, Bool.eq_false_iff.mpr unrequested, Bool.or_self,
      if_neg Bool.false_ne_true]
    unfold handleRenew at found
    split at found
    · cases found
    split at found
    · cases found
    · cases found
    · rename_i hit
      cases found
      exact checkLease_some hit

/-! ### The handlers -/

section Handlers

variable {req : Msg} {env : Readings} {self : Addr} {h : Handled}

/-- A message that changes nothing and is not answered with an address. -/
structure Unmoved (s : V4Server) (h : Handled) : Prop where
  server : h.server = s
  conflicts : h.conflicts = []
  yourIPAddr : h.resp.yourIPAddr = .nil

/-- DHCPDISCOVER offers the lease the client has, or allocates one. -/
theorem handleDiscover_inv (done : s.handleDiscover req env = some h) :
    (∃ p, s.findLease req.clientHWAddr = some p ∧ h.server = s ∧ h.conflicts = [] ∧
        h.resp.yourIPAddr = (s.heap p).ip.asSlice) ∨
      (s.findLease req.clientHWAddr = none ∧
        ∃ a, allocateLease req.clientHWAddr s [] env.rounds = some a ∧ h.server = a.server ∧
          h.conflicts = a.conflicts ∧ (h.resp.yourIPAddr = .nil ∨ ∃ p, a.lease = .ok (some p) ∧
            h.resp.yourIPAddr = (a.server.heap p).ip.asSlice)) := by
  unfold handleDiscover at done
  split at done
  · rename_i p found
    cases done
    exact .inl ⟨p, found, rfl, rfl, rfl⟩
  · rename_i absent
    obtain ⟨a, allocated, result⟩ := Option.map_eq_some_iff.mp done
    refine .inr ⟨absent, a, allocated, ?_⟩
    split at result
    · cases result
      exact ⟨rfl, rfl, .inl rfl⟩
    · cases result
      exact ⟨rfl, rfl, .inl rfl⟩
    · rename_i p lease
      cases result
      exact ⟨rfl, rfl, .inr ⟨p, lease, rfl⟩⟩

/-- The second half of a DHCPREQUEST answers with the address of the lease, which
it leaves alone if static and commits if dynamic. -/
theorem finishRequest_inv {now : Time} (done : s.finishRequest nu req p now = some h) :
    h.conflicts = [] ∧ h.resp.yourIPAddr = (s.heap p).ip.asSlice ∧
      (((s.heap p).isStatic = true ∧ h.server = s) ∨
        ((s.heap p).isStatic = false ∧
          ∃ hostname, commitHostname nu s (s.heap p) req.hostName = some hostname ∧
            h.server = s.commit p hostname now)) := by
  unfold finishRequest at done
  dsimp only at done
  split at done
  · rename_i isStatic
    cases done
    exact ⟨rfl, rfl, .inl ⟨isStatic, rfl⟩⟩
  · rename_i isDynamic
    obtain ⟨s₁, committed, result⟩ := Option.bind_eq_some_iff.mp done
    obtain ⟨hostname, settled, rfl⟩ := Option.map_eq_some_iff.mp committed
    cases result
    refine ⟨rfl, ?_, .inr ⟨by simpa using isDynamic, hostname, settled, rfl⟩⟩
    simp [commit]

/-- A commit writes the hostname and the expiry of one lease. -/
theorem heap_commit (s : V4Server) (p q : Ptr) (hostname : String) (now : Time) :
    (s.commit p hostname now).heap q =
      if q = p then { s.heap q with hostname := hostname, expiry := now + s.leaseTime }
      else s.heap q := by
  simp only [commit, heap_modify]

theorem commit_ip (s : V4Server) (p q : Ptr) (hostname : String) (now : Time) :
    ((s.commit p hostname now).heap q).ip = (s.heap q).ip := by
  rw [heap_commit]
  split
  · rfl
  · rfl

theorem commit_hwAddr (s : V4Server) (p q : Ptr) (hostname : String) (now : Time) :
    ((s.commit p hostname now).heap q).hwAddr = (s.heap q).hwAddr := by
  rw [heap_commit]
  split
  · rfl
  · rfl

/-- The hostname a commit settles on is the old one, the normalized one of the
client if it is not in the index, or a generated one. -/
theorem commitHostname_some {l : Lease} {hostname name : String}
    (done : commitHostname nu s l hostname = some name) :
    name = l.hostname ∨ s.hostsIndex name = none ∨
      (l.hostname = "" ∧ generateHostname l.ip = some name ∧
        ∃ valid, validHostnameForClient nu hostname l.ip = some valid ∧
          (s.hostsIndex valid).isSome = true) := by
  obtain ⟨valid, normalized, rest⟩ := Option.bind_eq_some_iff.mp done
  split at rest
  · rename_i taken
    split at rest
    · rename_i empty
      exact .inr (.inr ⟨empty, rest, valid, normalized, taken⟩)
    · exact .inl (Option.some.inj rest).symm
  · rename_i absent
    rw [← Option.some.inj rest]
    exact .inr (.inl (by simpa using absent))

theorem handleRequest_inv (done : s.handleRequest nu req self env = some h) :
    Unmoved s h ∨ ∃ p needsReply, s.handleByRequestType req self = (some p, needsReply) ∧
      p ∈ s.leases.elems ∧ (s.heap p).hwAddr = req.clientHWAddr ∧
      s.finishRequest nu req p env.now = some h := by
  unfold handleRequest at done
  split at done
  · cases done
    exact .inl ⟨rfl, rfl, rfl⟩
  · cases done
    exact .inl ⟨rfl, rfl, rfl⟩
  · rename_i p needsReply found
    obtain ⟨member, mac, -⟩ := handleByRequestType_some found
    exact .inr ⟨p, needsReply, found, member, mac, done⟩

/-- DHCPDECLINE removes the declined lease, allocates another one and adds that to
the table. -/
theorem handleDecline_inv (done : s.handleDecline req env = some h) :
    Unmoved s h ∨ ∃ old s₁ err, s.findLeaseForIP req.targetIP req.clientHWAddr = some old ∧
      s.rmDynamicLease old = some (s₁, err) ∧
      (Unmoved s₁ h ∨ (err = none ∧ ∃ a,
        allocateLease req.clientHWAddr s₁ [] env.rounds = some a ∧ h.conflicts = a.conflicts ∧
        (((∀ p, a.lease ≠ .ok (some p)) ∧ h.server = a.server ∧
            (h.resp.yourIPAddr = .nil ∨ h.resp.yourIPAddr = .four 0)) ∨
          ∃ p, a.lease = .ok (some p) ∧
            (((∃ e, (a.server.takeOver old p env.now).addLease p = .error e) ∧
                h.server = a.server.takeOver old p env.now ∧ h.resp.yourIPAddr = .nil) ∨
              ((a.server.takeOver old p env.now).addLease p = .ok h.server ∧
                h.resp.yourIPAddr = (h.server.heap p).ip.asSlice))))) := by
  unfold handleDecline at done
  split at done
  · cases done
    exact .inl ⟨rfl, rfl, rfl⟩
  rename_i old found
  obtain ⟨⟨s₁, err⟩, removed, done⟩ := Option.bind_eq_some_iff.mp done
  refine .inr ⟨old, s₁, err, found, removed, ?_⟩
  cases err with
  | some e =>
    cases done
    exact .inl ⟨rfl, rfl, rfl⟩
  | none =>
    obtain ⟨a, allocated, done⟩ := Option.bind_eq_some_iff.mp done
    refine .inr ⟨rfl, a, allocated, ?_⟩
    split at done
    · rename_i lease
      cases done
      exact ⟨rfl, .inl ⟨by simp [lease], rfl, .inl rfl⟩⟩
    · rename_i lease
      cases done
      exact ⟨rfl, .inl ⟨by simp [lease], rfl, .inr rfl⟩⟩
    · rename_i p lease
      dsimp only at done
      split at done
      · rename_i e failed
        cases done
        exact ⟨rfl, .inr ⟨p, lease, .inl ⟨⟨e, failed⟩, rfl, rfl⟩⟩⟩
      · rename_i added
        cases done
        exact ⟨rfl, .inr ⟨p, lease, .inr ⟨added, rfl⟩⟩⟩

/-- The first `n` cells of the slice hold pointers of `A` only. -/
def Backed (A : List Ptr) (n : Nat) (s : V4Server) : Prop :=
  s.leases.len ≤ n ∧ ∀ p ∈ s.leases.cells.take n, p ∈ A

theorem Backed.rmDynamicLease {A : List Ptr} {n : Nat} {lease : Ptr} {err : Option V4Err}
    (backed : Backed A n s) (done : s.rmDynamicLease lease = some (s', err)) :
    Backed A n s' := by
  refine rmDynamicLease_preserves ?_ ?_ done backed
  · rintro t i p ⟨fits, cells⟩ entry - -
    have inside := (List.getElem?_eq_some_iff.mp entry).1
    unfold Backed
    rw [rmLeaseByIndex_leases inside]
    constructor
    · have shorter := List.length_eraseIdx_le t.leases.elems i
      simp only [Slice.len, Slice.elems_removeAt] at fits ⊢
      omega
    · intro q member
      exact cells q (Slice.mem_take_cells_removeAt inside fits member)
  · rintro t q ⟨fits, cells⟩
    unfold Backed
    rw [blankHostname_leases]
    exact ⟨fits, cells⟩

/-- A rule for the loop of `handleRelease`: it removes leases that were in the table
when it was entered, even when it reads them from stale cells. `I` holds while
the loop goes on, and `J` also when it stops on an error. -/
theorem releaseLoop_preserves {I J : V4Server → Prop} {mac : HardwareAddr} {ip : Addr}
    {A : List Ptr} {m n : Nat} {err : Option V4Err}
    (removes : ∀ s p s' err, I s → p ∈ A → (s.heap p).hwAddr = mac → (s.heap p).ip = ip →
      s.rmDynamicLease p = some (s', err) → J s' ∧ (err = none → I s'))
    (stops : ∀ s, I s → J s) (done : releaseLoop mac ip n i s = some (s', err)) (start : I s)
    (bound : i + n ≤ m) (backed : Backed A m s) : J s' := by
  induction n generalizing i s with
  | zero =>
    cases done
    exact stops _ start
  | succ n ih =>
    simp only [releaseLoop] at done
    split at done
    · cases done
    rename_i p cell
    split at done
    · exact ih done start (by omega) backed
    · rename_i same
      obtain ⟨⟨s₁, err₁⟩, removed, rest⟩ := Option.bind_eq_some_iff.mp done
      simp only [ne_eq, not_or, not_not] at same
      have old : p ∈ A := by
        apply backed.2
        rw [List.mem_iff_getElem?]
        exact ⟨i, by rw [List.getElem?_take_of_lt (by omega), cell]⟩
      obtain ⟨stopped, goesOn⟩ := removes s p s₁ err₁ start old same.1 same.2 removed
      cases err₁ with
      | some e =>
        cases rest
        exact stopped
      | none => exact ih rest (goesOn rfl) (by omega) (backed.rmDynamicLease removed)

/-- The loop over the whole table. -/
theorem release_rule {I J : V4Server → Prop} {mac : HardwareAddr} {ip : Addr}
    {err : Option V4Err}
    (removes : ∀ t p t' err, I t → p ∈ s.leases.elems → (t.heap p).hwAddr = mac →
      (t.heap p).ip = ip → t.rmDynamicLease p = some (t', err) → J t' ∧ (err = none → I t'))
    (stops : ∀ t, I t → J t)
    (done : releaseLoop mac ip s.leases.len 0 s = some (s', err)) (start : I s) : J s' := by
  refine releaseLoop_preserves removes stops done start (Nat.le_of_eq (Nat.zero_add _))
    ⟨Nat.le_refl _, ?_⟩
  intro p member
  rw [Slice.cells_take _ (Nat.le_refl _)] at member
  simpa using member

theorem release_preserves {I : V4Server → Prop} {mac : HardwareAddr} {ip : Addr}
    {err : Option V4Err}
    (removes : ∀ t p t' err, I t → p ∈ s.leases.elems → (t.heap p).hwAddr = mac →
      (t.heap p).ip = ip → t.rmDynamicLease p = some (t', err) → I t')
    (done : releaseLoop mac ip s.leases.len 0 s = some (s', err)) (start : I s) : I s' :=
  release_rule (fun t p t' err h listed hw addr removed =>
    have kept := removes t p t' err h listed hw addr removed
    ⟨kept, fun _ => kept⟩) (fun _ h => h) done start

theorem Trimmed.releaseLoop {mac : HardwareAddr} {ip : Addr} {err : Option V4Err}
    (done : releaseLoop mac ip s.leases.len 0 s = some (s', err)) : Trimmed s s' :=
  release_preserves (fun _ _ _ _ h _ _ _ removed => h.trans (.rmDynamicLease removed)) done
    (.refl s)

theorem handleRelease_inv (done : s.handleRelease req = some h) :
    h.conflicts = [] ∧ h.resp.yourIPAddr = .nil ∧ (h.server = s ∨ ∃ ip err,
      addrFromSlice req.targetIP = some ip ∧
      releaseLoop req.clientHWAddr ip s.leases.len 0 s = some (h.server, err)) := by
  unfold handleRelease at done
  split at done
  · cases done
    exact ⟨rfl, rfl, .inl rfl⟩
  rename_i ip valid
  obtain ⟨⟨s₁, err⟩, released, rest⟩ := Option.bind_eq_some_iff.mp done
  cases err with
  | some e =>
    cases rest
    exact ⟨rfl, rfl, .inr ⟨ip, some e, valid, released⟩⟩
  | none =>
    cases rest
    exact ⟨rfl, rfl, .inr ⟨ip, none, valid, released⟩⟩

/-- `handle` dispatches on the type of the message. -/
theorem handle_inv (done : s.handle nu req env = some h) :
    Unmoved s h ∨ (req.messageType = .discover ∧ s.handleDiscover req env = some h) ∨
      (req.messageType = .request ∧ ∃ self, s.serverIP = some self ∧
        s.handleRequest nu req self env = some h) ∨
      (req.messageType = .decline ∧ s.handleDecline req env = some h) ∨
      (req.messageType = .release ∧ s.handleRelease req = some h) := by
  obtain ⟨self, address, done⟩ := Option.bind_eq_some_iff.mp done
  split at done
  · rename_i type
    exact .inr (.inl ⟨type, done⟩)
  · rename_i type
    exact .inr (.inr (.inl ⟨type, self, address, done⟩))
  · rename_i type
    exact .inr (.inr (.inr (.inl ⟨type, done⟩)))
  · rename_i type
    exact .inr (.inr (.inr (.inr ⟨type, done⟩)))
  · cases done
    exact .inl ⟨rfl, rfl, rfl⟩

/-- A packet is dropped, or handled with a valid hardware address. -/
theorem packetHandler_inv (done : s.packetHandler nu req env = some h) :
    Unmoved s h ∨ (nu.validateMAC req.clientHWAddr = none ∧
      ∃ h', s.handle nu req env = some h' ∧ h.server = h'.server ∧
        h.conflicts = h'.conflicts ∧ h.resp.yourIPAddr = h'.resp.yourIPAddr) := by
  unfold packetHandler at done
  have valid : ∀ {x : Option Handled},
      (if (nu.validateMAC req.clientHWAddr).isSome then some ⟨s, -1, {}, []⟩ else x) = some h →
      Unmoved s h ∨ (nu.validateMAC req.clientHWAddr = none ∧ x = some h) := by
    intro x accepted
    split at accepted
    · cases accepted
      exact .inl ⟨rfl, rfl, rfl⟩
    · rename_i mac
      exact .inr ⟨by simpa using mac, accepted⟩
  have mapped : (s.handle nu req env).map (fun h =>
        if h.rCode = 0 then { h with resp := { h.resp with messageType := some .nak } } else h) =
        some h →
      ∃ h', s.handle nu req env = some h' ∧ h.server = h'.server ∧
        h.conflicts = h'.conflicts ∧ h.resp.yourIPAddr = h'.resp.yourIPAddr := by
    intro answered
    obtain ⟨h', handled, result⟩ := Option.map_eq_some_iff.mp answered
    refine ⟨h', handled, ?_⟩
    split at result
    · subst result
      exact ⟨rfl, rfl, rfl⟩
    · subst result
      exact ⟨rfl, rfl, rfl⟩
  split at done
  case h_5 =>
    cases done
    exact .inl ⟨rfl, rfl, rfl⟩
  all_goals
    rcases valid done with unmoved | ⟨mac, answered⟩
    · exact .inl unmoved
    · exact .inr ⟨mac, mapped answered⟩

/-! What the parts of the handling of a message keep, the whole keeps. -/

theorem discover_keeps {I : V4Server → Prop} (done : s.handleDiscover req env = some h) (inv : I s)
    (allocate : ∀ a, s.findLease req.clientHWAddr = none →
      allocateLease req.clientHWAddr s [] env.rounds = some a → I a.server) : I h.server := by
  rcases handleDiscover_inv done with ⟨p, -, same, -⟩ | ⟨absent, a, allocated, same, -⟩
  · rwa [same]
  · rw [same]
    exact allocate a absent allocated

theorem request_keeps {I : V4Server → Prop} (done : s.handleRequest nu req self env = some h)
    (inv : I s) (commit : ∀ p hostname, I (s.commit p hostname env.now)) : I h.server := by
  rcases handleRequest_inv done with unmoved | ⟨p, _, -, -, -, finished⟩
  · rwa [unmoved.server]
  · obtain ⟨-, -, ⟨-, same⟩ | ⟨-, hostname, -, same⟩⟩ := finishRequest_inv finished
    · rwa [same]
    · rw [same]
      exact commit p hostname

/-- A step keeps what the call of the operation it is named after keeps. -/
theorem step_keeps {I : V4Server → Prop} {op : Op} {answer : Answer}
    (inv : I s) (keeps : match op with
      | .addStaticLease l => ∀ err, s.addStaticLease nu l = some (s', err) → I s'
      | .updateStaticLease l => ∀ err, s.updateStaticLease nu l = (s', err) → I s'
      | .removeStaticLease l => s.rmLease l = .ok s' → I s'
      | .resetLeases leases => s.resetLeases nu leases = some s' → I s'
      | .handle req env => ∀ h, s.handle nu req env = some h → I h.server
      | .packet req env => ∀ h, nu.validateMAC req.clientHWAddr = none →
          s.handle nu req env = some h → I h.server)
    (done : step nu s op = some (s', answer)) : I s' := by
  cases op with
  | addStaticLease l =>
    obtain ⟨⟨s₁, err⟩, added, same⟩ := Option.map_eq_some_iff.mp done
    cases same
    exact keeps err added
  | updateStaticLease l =>
    cases done
    exact keeps _ rfl
  | removeStaticLease l =>
    have call : s.removeStaticLease nu l =
      ((s.removeStaticLease nu l).1, (s.removeStaticLease nu l).2) := rfl
    cases done
    rcases removeStaticLease_inv call with same | removed
    · rwa [same]
    · exact keeps removed
  | resetLeases leases =>
    obtain ⟨s₁, reset, same⟩ := Option.map_eq_some_iff.mp done
    cases same
    exact keeps reset
  | handle req env =>
    obtain ⟨h, handled, same⟩ := Option.map_eq_some_iff.mp done
    cases same
    exact keeps h handled
  | packet req env =>
    obtain ⟨h, handled, same⟩ := Option.map_eq_some_iff.mp done
    cases same
    rcases packetHandler_inv handled with unmoved | ⟨valid, h', handled', server, -⟩
    · rwa [unmoved.server]
    · rw [server]
      exact keeps h' valid handled'

/-! ### What every run keeps -/

/-- The configuration stays as it was validated, entries point into the heap, and
dynamic ones lie in the range. No operation breaks this. -/
structure Wf (s : V4Server) : Prop where
  conf : Configured s
  bounded : ∀ p ∈ s.leases.elems, p < s.next
  ranged : ∀ p ∈ s.leases.elems, (s.heap p).isStatic = false → (s.offset (s.heap p).ip).2 = true

namespace Wf

theorem mono (wf : Wf s) (conf : s'.conf = s.conf) (next : s.next ≤ s'.next)
    (entries : ∀ p ∈ s'.leases.elems,
      (p ∈ s.leases.elems ∧ (s'.heap p).ip = (s.heap p).ip ∧
        (s'.heap p).isStatic = (s.heap p).isStatic) ∨
      (p < s'.next ∧ ((s'.heap p).isStatic = false → (s'.offset (s'.heap p).ip).2 = true))) :
    Wf s' := by
  refine ⟨wf.conf.congr conf, ?_, ?_⟩
  · intro p member
    rcases entries p member with ⟨old, -, -⟩ | ⟨bound, -⟩
    · exact Nat.lt_of_lt_of_le (wf.bounded p old) next
    · exact bound
  · intro p member isDynamic
    rcases entries p member with ⟨old, ip, isStatic⟩ | ⟨-, inRange⟩
    · rw [isStatic] at isDynamic
      rw [offset_congr conf, ip]
      exact wf.ranged p old isDynamic
    · exact inRange isDynamic

theorem trimmed (wf : Wf s) (trim : Trimmed s s') : Wf s' :=
  wf.mono trim.conf (Nat.le_of_eq trim.next.symm) fun p member =>
    .inl ⟨trim.sub.subset member, trim.ip p, trim.isStatic p⟩

theorem new (wf : Wf s) (l : Lease) : Wf (s.new l) :=
  wf.mono rfl (Nat.le_succ _) fun p member => .inl ⟨member, by
    rw [heap_new_of_lt s l (wf.bounded p member)]
    exact ⟨rfl, rfl⟩⟩

theorem modify (wf : Wf s) (p : Ptr) {f : Lease → Lease}
    (keeps : ∀ l, (f l).ip = l.ip ∧ (f l).isStatic = l.isStatic) : Wf (s.modify p f) := by
  refine wf.mono rfl (Nat.le_refl _) fun q member => .inl ⟨member, ?_⟩
  rw [heap_modify]
  split
  · exact keeps _
  · exact ⟨rfl, rfl⟩

theorem cleared (wf : Wf s) : Wf s.cleared :=
  wf.mono rfl (Nat.le_refl _) fun p member => by cases member

theorem addLease (wf : Wf s) (bound : p < s.next) (done : s.addLease p = .ok s') : Wf s' := by
  obtain ⟨rfl, -, inRange, -⟩ := addLease_ok done
  refine wf.mono rfl (Nat.le_refl _) ?_
  intro q member
  rcases List.mem_append.mp member with old | new
  · exact .inl ⟨old, rfl, rfl⟩
  · rw [List.mem_singleton.mp new]
    exact .inr ⟨bound, inRange⟩

theorem reserveFresh (wf : Wf s) (mac : HardwareAddr) {n : BitVec 32} {o : Nat}
    (off : s.offset (.v4 n) = (o, true)) : Wf (s.reserveFresh mac n) := by
  refine (wf.new { ip := .v4 n, hwAddr := mac }).addLease (Nat.lt_succ_self _) ?_
  simp [V4Server.addLease, off, V4Server.reserveFresh]

/-- A reserved lease is an entry of the table. -/
theorem reserveLease (wf : Wf s) {mac : HardwareAddr} {now : Time}
    {res : Except V4Err (Option Ptr)} (done : s.reserveLease mac now = (s', res)) :
    Wf s' ∧ ∀ p, res = .ok (some p) → p ∈ s'.leases.elems := by
  rcases reserveLease_cases done with ⟨-, rfl, rfl⟩ | ⟨-, i, p, -, entry, -, -, rfl, rfl⟩ |
    ⟨n, o, off, -, rfl, rfl⟩
  · exact ⟨wf, fun p h => by cases h⟩
  · refine ⟨wf.modify p fun _ => ⟨rfl, rfl⟩, ?_⟩
    rintro q ⟨⟩
    exact List.mem_of_getElem? entry
  · refine ⟨wf.reserveFresh mac off, ?_⟩
    rintro q ⟨⟩
    simp [V4Server.reserveFresh]

theorem blocklistLease (wf : Wf s) (p : Ptr) (now : Time) : Wf (s.blocklistLease p now) :=
  wf.modify p fun _ => ⟨rfl, rfl⟩

theorem takeOver (wf : Wf s) (old p : Ptr) (now : Time) : Wf (s.takeOver old p now) :=
  wf.modify p fun _ => ⟨rfl, rfl⟩

theorem commit (wf : Wf s) (p : Ptr) (hostname : String) (now : Time) :
    Wf (s.commit p hostname now) := by
  refine wf.mono rfl (Nat.le_refl _) fun q member => .inl ⟨member, ?_⟩
  rw [heap_commit]
  split
  · exact ⟨rfl, rfl⟩
  · exact ⟨rfl, rfl⟩

theorem allocateLease (wf : Wf s) {mac : HardwareAddr} {rounds : List Round} {a : Allocation}
    (done : V4Server.allocateLease mac s [] rounds = some a) :
    Wf a.server ∧ ∀ p, a.lease = .ok (some p) → p ∈ a.server.leases.elems := by
  obtain ⟨k, r, t, -, wf₁, last, -⟩ :=
    allocateLease_last (I := fun _ t _ => Wf t)
      (fun _ _ _ r _ p _ wf reserved _ => (wf.reserveLease reserved).1.blocklistLease p r.stamp)
      done wf
  exact wf₁.reserveLease last

theorem handle (wf : Wf s) (done : s.handle nu req env = some h) : Wf h.server := by
  rcases handle_inv done with unmoved | ⟨-, done⟩ | ⟨-, self, -, done⟩ | ⟨-, done⟩ | ⟨-, done⟩
  · rwa [unmoved.server]
  · exact discover_keeps done wf fun _ _ allocated => (wf.allocateLease allocated).1
  · exact request_keeps done wf fun p hostname => wf.commit p hostname env.now
  · rcases handleDecline_inv done with unmoved | ⟨old, s₁, err, -, removed, rest⟩
    · rwa [unmoved.server]
    have wf₁ := wf.trimmed (.rmDynamicLease removed)
    rcases rest with unmoved | ⟨-, a, allocated, -, ⟨-, same, -⟩ | ⟨p, lease, rest⟩⟩
    · rwa [unmoved.server]
    · rw [same]
      exact (wf₁.allocateLease allocated).1
    · obtain ⟨wf₂, listed⟩ := wf₁.allocateLease allocated
      rcases rest with ⟨-, same, -⟩ | ⟨added, -⟩
      · rw [same]
        exact wf₂.takeOver old p env.now
      · exact (wf₂.takeOver old p env.now).addLease (wf₂.bounded p (listed p lease)) added
  · obtain ⟨-, -, same | ⟨ip, err, -, released⟩⟩ := handleRelease_inv done
    · rwa [same]
    · exact wf.trimmed (.releaseLoop released)

theorem step (wf : Wf s) {op : Op} {answer : Answer}
    (done : V4Server.step nu s op = some (s', answer)) : Wf s' := by
  refine step_keeps wf ?_ done
  cases op with
  | addStaticLease l =>
    intro err added
    rcases addStaticLease_inv added with rfl | ⟨l', s₁, err₁, -, removed, rest⟩
    · exact wf
    have trim := Trimmed.rmDynamicLease removed
    have wf₁ := (wf.new l').trimmed trim
    rcases rest with rfl | ⟨-, added⟩
    · exact wf₁
    · exact wf₁.addLease (by rw [trim.next]; exact Nat.lt_succ_self _) added
  | updateStaticLease l =>
    intro err updated
    rcases updateStaticLease_inv updated with rfl | ⟨found, l', s₁, -, -, removed, rest⟩
    · exact wf
    have wf₁ := (wf.trimmed (.rmLease removed)).new l'
    rcases rest with rfl | added
    · exact wf₁
    · exact wf₁.addLease (Nat.lt_succ_self _) added
  | removeStaticLease l => exact fun removed => wf.trimmed (.rmLease removed)
  | resetLeases leases =>
    intro reset
    rcases resetLeases_inv reset with rfl | readded
    · exact wf
    · refine readdLeases_preserves (fun _ _ _ _ wf => wf.new _) ?_ readded wf.cleared
      intro t l t' _ hostname wf added
      exact (wf.new _).addLease (Nat.lt_succ_self _) added
  | handle req env => exact fun _ => wf.handle
  | packet req env => exact fun _ _ => wf.handle

end Wf

/-- An allocated lease is dynamic. -/
theorem allocateLease_dynamic {mac : HardwareAddr} {rounds : List Round}
    {a : Allocation} (done : allocateLease mac s [] rounds = some a)
    (lease : a.lease = .ok (some p)) : (a.server.heap p).isStatic = false := by
  obtain ⟨k, r, t, -, -, last, -⟩ :=
    allocateLease_last (I := fun _ _ _ => True) (fun _ _ _ _ _ _ _ _ _ _ => trivial)
      done trivial
  rcases reserveLease_cases last with ⟨-, -, none⟩ | ⟨-, i, q, -, -, isDynamic, -, same, found⟩ |
    ⟨n, o, -, -, same, found⟩
  · rw [lease] at none
    cases none
  · rw [lease] at found
    cases found
    simpa [same, reserveExpired] using isDynamic
  · rw [lease] at found
    cases found
    simp [same, reserveFresh]

theorem v4Create_elems (conf : V4ServerConf) : (v4Create conf).1.leases.elems = [] := by
  unfold v4Create
  dsimp only
  split
  · rfl
  · rfl

theorem v4Create_wf (conf : V4ServerConf) : Wf (v4Create conf).1 :=
  ⟨v4Create_configured conf, by simp [v4Create_elems], by simp [v4Create_elems]⟩

end Handlers

end V4Server

end FirewallCore.Dhcpd
