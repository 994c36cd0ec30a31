import FirewallCore.Dhcpd.V4AddrInv
import FirewallCore.Dhcpd.V4HandlerSpec
import FirewallCore.Lib.Run

/-!
The retry loop of `allocateLease` ends.

The loop has no counter of its own. A round that ends in a ping conflict either takes
an offset that was free or gives a lease that was expired an expiry beyond the window
of the clock readings, so the number of free offsets and of expired leases bounds the
rounds (`conflict_consumes`). The clock readings and the outcomes of the pings are a
stream, one `Round` for each time around.
-/

namespace FirewallCore.Dhcpd.V4Server

open FirewallCore.Net FirewallCore.Lib

variable {s s₁ : V4Server} {p : Ptr} {mac : HardwareAddr} {low high : Time}

/-- A dynamic lease that `findExpiredLease` would take at this time. -/
def isExpired (l : Lease) (now : Time) : Bool := !l.isStatic && decide (l.expiry < now)

/-- The number of entries of expired dynamic leases. -/
def expiredCount (s : V4Server) (now : Time) : Nat :=
  s.leases.elems.countP fun p => isExpired (s.heap p) now

/-- All clock readings of a round lie in a window shorter than the lease time. -/
structure Within (r : Round) (leaseTime : Duration) (low high : Time) : Prop where
  short : high - low < leaseTime
  now : low ≤ r.now ∧ r.now ≤ high
  stamp : low ≤ r.stamp ∧ r.stamp ≤ high

/-! ### One round -/

/-- The expiry of a lease that was blocklisted within the window lies beyond it. -/
theorem not_isExpired_blocklist {r : Round} (within : Within r s.leaseTime low high) :
    isExpired ((s.blocklistLease p r.stamp).heap p) high = false := by
  have beyond : high ≤ r.stamp + s.leaseTime := by
    have start : high < s.leaseTime + low := Int.lt_add_of_sub_right_lt within.short
    have moved : s.leaseTime + low ≤ s.leaseTime + r.stamp :=
      Int.add_le_add_left within.stamp.1 _
    rw [Int.add_comm]
    exact Int.le_of_lt (Int.lt_of_lt_of_le start moved)
  simp only [blocklistLease, heap_modify_self, isExpired, Bool.and_eq_false_iff,
    decide_eq_false_iff_not]
  exact .inr (Int.not_lt.mpr beyond)

/-- Blocklisting makes no lease expired. -/
theorem isExpired_of_blocklist {r : Round} (within : Within r s.leaseTime low high) {q : Ptr}
    (expired : isExpired ((s.blocklistLease p r.stamp).heap q) high = true) :
    q ≠ p ∧ isExpired (s.heap q) high = true := by
  have ne : q ≠ p := by
    rintro rfl
    rw [not_isExpired_blocklist within] at expired
    cases expired
  refine ⟨ne, ?_⟩
  rwa [show (s.blocklistLease p r.stamp).heap q = s.heap q from heap_modify_of_ne s _ ne]
    at expired

/-- Taking over an expired lease and blocklisting it leaves one expired lease less. -/
theorem expiredCount_reserveExpired (mac : HardwareAddr) {r : Round}
    (within : Within r s.leaseTime low high)
    (listed : p ∈ s.leases.elems) (expired : isExpired (s.heap p) high = true) :
    ((s.reserveExpired mac p).blocklistLease p r.stamp).expiredCount high <
      s.expiredCount high := by
  have fewer : ∀ q, isExpired (((s.reserveExpired mac p).blocklistLease p r.stamp).heap q) high =
      true → isExpired (s.heap q) high = true := by
    intro q left
    obtain ⟨ne, before⟩ := isExpired_of_blocklist (s := s.reserveExpired mac p) within left
    rwa [show (s.reserveExpired mac p).heap q = s.heap q from heap_modify_of_ne s _ ne] at before
  have gone : isExpired (((s.reserveExpired mac p).blocklistLease p r.stamp).heap p) high =
      false := not_isExpired_blocklist (s := s.reserveExpired mac p) within
  obtain ⟨front, back, parts⟩ := List.append_of_mem listed
  unfold expiredCount
  rw [show ((s.reserveExpired mac p).blocklistLease p r.stamp).leases.elems = s.leases.elems from rfl,
    parts, List.countP_append, List.countP_append, List.countP_cons, List.countP_cons, gone,
    expired]
  have inFront := List.countP_mono_left (l := front) fun q _ => fewer q
  have inBack := List.countP_mono_left (l := back) fun q _ => fewer q
  simp only [Bool.false_eq_true, if_false, if_true]
  omega

/-- A lease in a free address that is blocklisted at once adds no expired lease. -/
theorem expiredCount_reserveFresh (mac : HardwareAddr) (n : BitVec 32) {r : Round}
    (within : Within r s.leaseTime low high) :
    ((s.reserveFresh mac n).blocklistLease s.next r.stamp).expiredCount high ≤
      s.expiredCount high := by
  have fewer : ∀ q, isExpired (((s.reserveFresh mac n).blocklistLease s.next r.stamp).heap q)
      high = true → isExpired (s.heap q) high = true := by
    intro q left
    obtain ⟨ne, before⟩ := isExpired_of_blocklist (s := s.reserveFresh mac n) within left
    rwa [show (s.reserveFresh mac n).heap q = s.heap q from Function.update_of_ne ne ..] at before
  have gone : isExpired (((s.reserveFresh mac n).blocklistLease s.next r.stamp).heap s.next)
      high = false := not_isExpired_blocklist (s := s.reserveFresh mac n) within
  unfold expiredCount
  rw [show ((s.reserveFresh mac n).blocklistLease s.next r.stamp).leases.elems =
      s.leases.elems ++ [s.next] from rfl, List.countP_append, List.countP_singleton, gone]
  exact List.countP_mono_left fun q _ => fewer q

/-- A lease in a free address takes its offset. -/
theorem card_freeOffsets_reserveFresh (mac : HardwareAddr) {n : BitVec 32} {o : Nat}
    (off : s.offset (.v4 n) = (o, true)) (clear : s.leasedOffsets.isSet o = false) :
    (s.reserveFresh mac n).freeOffsets.card < s.freeOffsets.card := by
  have bits : ∀ k, (s.reserveFresh mac n).leasedOffsets.isSet k =
      if k = o then true else s.leasedOffsets.isSet k := by
    intro k
    have taken : (s.reserveFresh mac n).leasedOffsets = s.leasedOffsets.set o true := by
      simp [reserveFresh, insertLease, off]
    rw [taken, BitSet.isSet_set]
  apply Finset.card_lt_card
  refine Finset.ssubset_iff_subset_ne.mpr ⟨?_, ?_⟩
  · intro k free
    obtain ⟨range, found, inside, unset⟩ := mem_freeOffsets.mp free
    refine mem_freeOffsets.mpr ⟨range, found, inside, ?_⟩
    rw [bits] at unset
    split at unset
    · cases unset
    · exact unset
  · intro same
    obtain ⟨range, found, atOffset, below⟩ := offset_eq_true off
    have free : o ∈ s.freeOffsets := mem_freeOffsets.mpr ⟨range, found, by omega, clear⟩
    rw [← same] at free
    obtain ⟨-, -, -, unset⟩ := mem_freeOffsets.mp free
    rw [bits, if_pos rfl] at unset
    cases unset

/-- What bounds the rounds of `allocateLease`. -/
def roundsLeft (s : V4Server) (high : Time) : Nat := s.freeOffsets.card + s.expiredCount high

/-- A round that ends in a ping conflict uses up a free offset or an expired lease. -/
theorem conflict_consumes {r : Round} (within : Within r s.leaseTime low high)
    (reserved : s.reserveLease mac r.now = (s₁, .ok (some p))) :
    (s₁.blocklistLease p r.stamp).roundsLeft high < s.roundsLeft high := by
  rcases reserveLease_cases reserved with ⟨-, -, h⟩ |
    ⟨-, i, q, -, entry, isDynamic, expired, rfl, h⟩ | ⟨n, o, off, clear, rfl, h⟩
  · cases h
  · cases h
    have isExpired : isExpired (s.heap p) high = true := by
      simp only [V4Server.isExpired, isDynamic, Bool.not_false, Bool.true_and, decide_eq_true_eq]
      exact Int.lt_of_lt_of_le expired within.now.2
    have less := expiredCount_reserveExpired mac within (List.mem_of_getElem? entry)
      isExpired
    have same : ((s.reserveExpired mac p).blocklistLease p r.stamp).freeOffsets =
        s.freeOffsets := rfl
    unfold roundsLeft
    rw [same]
    omega
  · cases h
    have less := card_freeOffsets_reserveFresh mac off clear
    have noMore := expiredCount_reserveFresh mac n within
    have same : ((s.reserveFresh mac n).blocklistLease s.next r.stamp).freeOffsets =
        (s.reserveFresh mac n).freeOffsets := rfl
    unfold roundsLeft
    rw [same]
    omega

/-! ### The loop -/

/-- The first `n` rounds of a stream. -/
def firstRounds (rounds : Nat → Round) (n : Nat) : List Round := List.ofFn fun i : Fin n => rounds i

theorem firstRounds_succ (rounds : Nat → Round) (n : Nat) :
    firstRounds rounds (n + 1) = rounds 0 :: firstRounds (fun k => rounds (k + 1)) n := by
  simp [firstRounds, List.ofFn_succ]

/-- When `reserveLease` gives up, `nextIP` has nothing and no dynamic lease is expired. -/
theorem reserveLease_exhausted {now : Time}
    (reserved : s.reserveLease mac now = (s₁, .ok none)) :
    s₁ = s ∧ s.nextIP = .nil ∧ s.expiredCount now = 0 := by
  rcases nextIP_cases s with none | ⟨n, free⟩
  · simp only [reserveLease, none] at reserved
    split at reserved
    · rename_i absent
      cases reserved
      refine ⟨rfl, none, List.countP_eq_zero.mpr fun p listed => ?_⟩
      have unexpired := List.findIdx?_eq_none_iff.mp absent p listed
      simpa [isExpired] using unexpired
    rename_i i found
    obtain ⟨bound, -, -⟩ := List.findIdx?_eq_some_iff_getElem.mp found
    rw [List.getElem?_eq_getElem bound] at reserved
    cases reserved
  · rcases reserveLease_cases reserved with ⟨none, -, -⟩ | ⟨none, -⟩ | ⟨-, -, -, -, -, h⟩
    · rw [free] at none
      cases none
    · rw [free] at none
      cases none
    · cases h

/-- How a call of `allocateLease` ends, by its last round: with a lease whose address is
available after the ping, or with nothing because the pool is exhausted. -/
def Ended (a : Allocation) (r : Round) : Prop :=
  (∃ p, a.lease = .ok (some p) ∧ a.server.addrAvailable r.silent = true) ∨
    (a.lease = .ok none ∧ a.server.nextIP = .nil ∧ a.server.expiredCount r.now = 0 ∧
      (Configured a.server → a.server.freeOffsets = ∅))

/-- One time around the loop: it ends, or goes on from a state with fewer rounds left. -/
theorem allocateLease_round (rounds : Nat → Round)
    (within : ∀ k, Within (rounds k) s.leaseTime low high) (conflicts : List Conflict)
    (rest : ∀ t, t.roundsLeft high < s.roundsLeft high → t.leaseTime = s.leaseTime →
      ∀ conflict, ∃ n ≤ t.roundsLeft high, ∃ a,
        allocateLease mac t (conflict :: conflicts)
            (firstRounds (fun k => rounds (k + 1)) (n + 1)) = some a ∧
          a.conflicts.length = (conflict :: conflicts).length + n ∧ Ended a (rounds (n + 1))) :
    ∃ n ≤ s.roundsLeft high, ∃ a,
      allocateLease mac s conflicts (firstRounds rounds (n + 1)) = some a ∧
        a.conflicts.length = conflicts.length + n ∧ Ended a (rounds n) := by
  rcases reserved : s.reserveLease mac (rounds 0).now with ⟨s₁, res⟩
  obtain ⟨found, rfl⟩ : ∃ found, res = .ok found := by
    rcases reserveLease_cases reserved with ⟨-, -, rfl⟩ | ⟨-, -, p, -, -, -, -, -, rfl⟩ |
      ⟨-, -, -, -, -, rfl⟩
    · exact ⟨_, rfl⟩
    · exact ⟨_, rfl⟩
    · exact ⟨_, rfl⟩
  cases found with
  | none =>
    obtain ⟨same, none, unexpired⟩ := reserveLease_exhausted reserved
    refine ⟨0, Nat.zero_le _, ⟨s₁, .ok .none, conflicts⟩, ?_, rfl, .inr ⟨rfl, ?_⟩⟩
    · rw [firstRounds_succ]
      simp only [allocateLease, reserved]
    · subst same
      exact ⟨none, unexpired, fun conf => freeOffsets_eq_empty conf none⟩
  | some p =>
    cases available : s₁.addrAvailable (rounds 0).silent with
    | true =>
      refine ⟨0, Nat.zero_le _, ⟨s₁, .ok (some p), conflicts⟩, ?_, rfl,
        .inl ⟨p, rfl, available⟩⟩
      rw [firstRounds_succ]
      simp only [allocateLease, reserved, available, if_true]
    | false =>
      have less := conflict_consumes (within 0) reserved
      have same : (s₁.blocklistLease p (rounds 0).stamp).leaseTime = s.leaseTime := by
        rw [blocklistLease, leaseTime_modify, leaseTime_congr (reserveLease_conf reserved)]
      obtain ⟨n, bound, a, done, length, ended⟩ := rest _ less same
        ((s₁.heap p).ip, (rounds 0).stamp + s₁.leaseTime)
      refine ⟨n + 1, by omega, a, ?_, ?_, ended⟩
      · rw [firstRounds_succ]
        simp only [allocateLease, reserved, available, Bool.false_eq_true, if_false]
        exact done
      · rw [length, List.length_cons]
        omega

/-- The loop, from any of its states. The induction is on a bound of `roundsLeft`. -/
theorem allocateLease_ends (mac : HardwareAddr) (bound : Nat) (rounds : Nat → Round)
    (within : ∀ k, Within (rounds k) s.leaseTime low high) (conflicts : List Conflict)
    (enough : s.roundsLeft high ≤ bound) :
    ∃ n ≤ s.roundsLeft high, ∃ a,
      allocateLease mac s conflicts (firstRounds rounds (n + 1)) = some a ∧
        a.conflicts.length = conflicts.length + n ∧ Ended a (rounds n) := by
  induction bound generalizing s rounds conflicts with
  | zero => exact allocateLease_round rounds within conflicts fun _ less => by omega
  | succ bound ih =>
    apply allocateLease_round rounds within conflicts
    intro t less same conflict
    refine ih _ (fun k => ?_) _ (by omega)
    rw [same]
    exact within (k + 1)

/-- `allocateLease` ends, for every state, hardware address and stream of clock readings
and ping outcomes, after at most as many unsuccessful rounds as the range has free
offsets and the table has expired dynamic leases. -/
theorem allocateLease_terminates (s : V4Server) (mac : HardwareAddr) (rounds : Nat → Round)
    (low high : Time) (within : ∀ k, Within (rounds k) s.leaseTime low high) :
    ∃ n ≤ s.freeOffsets.card + s.expiredCount high, ∃ a,
      allocateLease mac s [] (firstRounds rounds (n + 1)) = some a ∧
        a.conflicts.length = n ∧ Ended a (rounds n) := by
  obtain ⟨n, bound, a, done, length, ended⟩ :=
    allocateLease_ends mac _ rounds within [] (Nat.le_refl _)
  exact ⟨n, bound, a, done, by simpa using length, ended⟩

/-- On the small network every ping is answered. -/
theorem smallNetwork_terminates :
    ∃ n ≤ (v4Create smallConf).1.freeOffsets.card + (v4Create smallConf).1.expiredCount 120,
      ∃ a, allocateLease (clientMAC 1) (v4Create smallConf).1 []
          (firstRounds (fun _ => ⟨60, false, 120⟩) (n + 1)) = some a ∧
        a.conflicts.length = n ∧ Ended a ⟨60, false, 120⟩ := by
  have day : (v4Create smallConf).1.leaseTime = day := by decide +kernel
  refine allocateLease_terminates _ _ (fun _ => ⟨60, false, 120⟩) 60 120 fun _ => ?_
  rw [day]
  exact ⟨by decide, by decide, by decide⟩

end FirewallCore.Dhcpd.V4Server

/-!
The bits of `leasedOffsets` against the addresses of the entries.

A bit is to be set exactly when some entry lies at that offset of the dynamic
range. `addLease` sets bit zero for a static lease outside of the range, where
`ipRange.offset` is zero, and `rmLeaseByIndex` clears a bit without asking
whether another entry has it. `OffsetOp` excludes these two, and nothing else:
the argument needs none of the other invariants of the table.
-/

namespace FirewallCore.Dhcpd.V4Server

open FirewallCore.Net FirewallCore.Lib

variable {nu : Netutil} {s s' : V4Server} {p q : Ptr} {i : Nat}

/-- Bit `o` is set exactly when some entry lies at offset `o` of the range. -/
def ExactAt (s : V4Server) (o : Nat) : Prop :=
  s.leasedOffsets.isSet o = true ↔ ∃ p ∈ s.leases.elems, s.offset (s.heap p).ip = (o, true)

instance (s : V4Server) (o : Nat) : Decidable (ExactAt s o) :=
  inferInstanceAs (Decidable (_ ↔ _))

def ExactOffsets (s : V4Server) : Prop := ∀ o, ExactAt s o

/-! ### The condition on a step -/

/-- Entries that lie at one offset are both spared by a removal of the leases
with `P`. -/
def LoneOffsets (s : V4Server) (P : Lease → Prop) : Prop :=
  s.leases.elems.Pairwise fun p q => ∀ o, s.offset (s.heap p).ip = (o, true) →
    s.offset (s.heap q).ip = (o, true) → ¬P (s.heap p) ∧ ¬P (s.heap q)

/-- A new entry for `ip` sets no bit that is not to be set: the address lies in the
range, or the first address of the range belongs to an entry that is spared by
the removal of the leases with `P`. -/
def InsertsExactly (s : V4Server) (ip : Addr) (P : Lease → Prop) : Prop :=
  (s.offset ip).2 = true ∨
    ∃ q ∈ s.leases.elems, s.offset (s.heap q).ip = (0, true) ∧ ¬P (s.heap q)

/-- The condition on a message. -/
def OffsetMsg (s : V4Server) (req : Msg) : Prop :=
  match req.messageType with
  | .decline | .release => ∀ ip, addrFromSlice req.targetIP = some ip →
      LoneOffsets s (DynamicFor req.clientHWAddr ip)
  | _ => True

/-- The condition on an operation. -/
def OffsetOp (nu : Netutil) (s : V4Server) : Op → Prop
  | .addStaticLease l => ∀ l', checkStatic nu s l = .ok l' →
      LoneOffsets s (DynamicFor l'.hwAddr l'.ip) ∧
      (s.subnet.contains l'.ip = true → InsertsExactly s l'.ip (DynamicFor l'.hwAddr l'.ip))
  | .updateStaticLease l => ∀ found, s.findLease l.hwAddr = some found →
      LoneOffsets s (·.ip = (s.heap found).ip) ∧
      (s.subnet.contains l.ip = true → InsertsExactly s l.ip (·.ip = (s.heap found).ip))
  | .removeStaticLease l => LoneOffsets s (·.ip = l.ip)
  | .resetLeases leases => ∀ l ∈ leases, l.isStatic = true → s.subnet.contains l.ip = true →
      (s.offset l.ip).2 = true
  | .handle req _ => OffsetMsg s req
  | .packet req _ => OffsetMsg s req

/-! ### Removing and entering -/

theorem ExactOffsets.congr (bits : ExactOffsets s) (conf : s'.conf = s.conf)
    (elems : s'.leases.elems = s.leases.elems)
    (ips : ∀ p ∈ s.leases.elems, (s'.heap p).ip = (s.heap p).ip)
    (offsets : s'.leasedOffsets = s.leasedOffsets) : ExactOffsets s' := by
  intro o
  refine Iff.trans (by rw [offsets]) ((bits o).trans ?_)
  rw [elems]
  constructor
  · rintro ⟨p, member, off⟩
    exact ⟨p, member, by rw [offset_congr conf, ips p member, off]⟩
  · rintro ⟨p, member, off⟩
    rw [offset_congr conf, ips p member] at off
    exact ⟨p, member, off⟩

theorem LoneOffsets.at {P : Lease → Prop} (lone : LoneOffsets s P) {i j o : Nat} (ne : i ≠ j)
    (atI : s.leases.elems[i]? = some p) (atJ : s.leases.elems[j]? = some q)
    (offP : s.offset (s.heap p).ip = (o, true)) (offQ : s.offset (s.heap q).ip = (o, true)) :
    ¬P (s.heap p) := by
  obtain ⟨boundI, rfl⟩ := List.getElem?_eq_some_iff.mp atI
  obtain ⟨boundJ, rfl⟩ := List.getElem?_eq_some_iff.mp atJ
  have pairs := List.pairwise_iff_getElem.mp lone
  rcases Nat.lt_or_gt_of_ne ne with less | more
  · exact (pairs i j boundI boundJ less o offP offQ).1
  · exact (pairs j i boundJ boundI more o offQ offP).2

/-- The condition stays true while entries go and hostnames change. -/
theorem LoneOffsets.trimmed {mac : HardwareAddr} {ip : Addr}
    (lone : LoneOffsets s (DynamicFor mac ip)) (trim : Trimmed s s') :
    LoneOffsets s' (DynamicFor mac ip) := by
  refine (List.Pairwise.sublist trim.sub lone).imp ?_
  intro p q apart o offP offQ
  rw [offset_congr trim.conf, trim.ip] at offP offQ
  simpa only [DynamicFor, trim.ip, trim.hwAddr, trim.isStatic] using apart o offP offQ

/-- Removing an entry whose offset no other entry has clears the right bit. -/
theorem ExactOffsets.rmLeaseByIndex (bits : ExactOffsets s) {P : Lease → Prop}
    (lone : LoneOffsets s P) (entry : s.leases.elems[i]? = some p) (chosen : P (s.heap p)) :
    ExactOffsets (s.rmLeaseByIndex i) := by
  rcases rmLeaseByIndex_cases s i with ⟨outside, -⟩ | ⟨q, entry', removed⟩
  · rw [entry] at outside
    cases outside
  rw [entry] at entry'
  cases entry'
  intro o
  rw [removed]
  unfold ExactAt
  change _ ↔ ∃ q ∈ s.leases.elems.eraseIdx i, s.offset (s.heap q).ip = (o, true)
  constructor
  · intro set
    have other : s.leasedOffsets.isSet o = true ∧ s.offset (s.heap p).ip ≠ (o, true) := by
      dsimp only at set
      split at set
      · rename_i inRange
        rw [BitSet.isSet_set] at set
        split at set
        · cases set
        · rename_i ne
          exact ⟨set, fun same => ne (by rw [same])⟩
      · rename_i outOfRange
        exact ⟨set, fun same => outOfRange (by rw [same])⟩
    obtain ⟨q, member, off⟩ := (bits o).mp other.1
    obtain ⟨j, atJ⟩ := List.mem_iff_getElem?.mp member
    refine ⟨q, List.mem_eraseIdx_iff_getElem?.mpr ⟨j, ?_, atJ⟩, off⟩
    rintro rfl
    rw [entry] at atJ
    cases atJ
    exact other.2 off
  · rintro ⟨q, member, off⟩
    obtain ⟨j, ne, atJ⟩ := List.mem_eraseIdx_iff_getElem?.mp member
    have set := (bits o).mpr ⟨q, List.mem_of_getElem? atJ, off⟩
    dsimp only
    split
    · rename_i inRange
      rw [BitSet.isSet_set]
      split
      · rename_i same
        subst same
        exact absurd chosen (lone.at (Ne.symm ne) entry atJ (Prod.ext rfl inRange) off)
      · exact set
    · exact set

/-- Entering a lease of the range sets the right bit. So does any other lease
once the first address of the range is taken. -/
theorem ExactOffsets.insertLease (bits : ExactOffsets s)
    (fine : (s.offset (s.heap p).ip).2 = true ∨
      ∃ q ∈ s.leases.elems, s.offset (s.heap q).ip = (0, true)) :
    ExactOffsets (s.insertLease p) := by
  intro o
  unfold ExactAt
  change (s.leasedOffsets.set _ true).isSet o = true ↔
    ∃ q ∈ s.leases.elems ++ [p], s.offset (s.heap q).ip = (o, true)
  rw [BitSet.isSet_set]
  constructor
  · intro set
    split at set
    · rename_i here
      by_cases inRange : (s.offset (s.heap p).ip).2 = true
      · exact ⟨p, by simp, Prod.ext here.symm inRange⟩
      · obtain ⟨q, member, off⟩ := fine.resolve_left inRange
        have zero : (s.offset (s.heap p).ip).1 = 0 := offset_fst_eq_zero (by simpa using inRange)
        rw [here, zero]
        exact ⟨q, by simp [member], off⟩
    · obtain ⟨q, member, off⟩ := (bits o).mp set
      exact ⟨q, by simp [member], off⟩
  · rintro ⟨q, member, off⟩
    split
    · rfl
    · rename_i elsewhere
      rcases List.mem_append.mp member with old | new
      · exact (bits o).mpr ⟨q, old, off⟩
      · rw [List.mem_singleton.mp new] at off
        exact absurd (by rw [off]) elsewhere

/-! ### The operations -/

/-- What a removal loop keeps, once the entries it may take are alone at their
offsets. -/
theorem ExactOffsets.rmDynamicLease (bits : ExactOffsets s) {lease : Ptr} {err : Option V4Err}
    (lone : LoneOffsets s (DynamicFor (s.heap lease).hwAddr (s.heap lease).ip))
    (done : s.rmDynamicLease lease = some (s', err)) :
    ExactOffsets s' ∧ LoneOffsets s' (DynamicFor (s.heap lease).hwAddr (s.heap lease).ip) := by
  have kept : Trimmed s s' ∧ ExactOffsets s' := by
    refine rmDynamicLease_preserves (I := fun t => Trimmed s t ∧ ExactOffsets t) ?_ ?_ done
      ⟨.refl s, bits⟩
    · rintro t i p ⟨trim, bits⟩ entry isDynamic hit
      refine ⟨trim.trans (.rmLeaseByIndex t i), bits.rmLeaseByIndex (lone.trimmed trim) entry ?_⟩
      simp only [sameProperties, trim.hwAddr lease, trim.ip lease, Bool.or_eq_true,
        beq_iff_eq] at hit
      exact ⟨isDynamic, hit⟩
    · rintro t q ⟨trim, bits⟩
      refine ⟨trim.trans (.blankHostname t lease q), bits.congr (blankHostname_conf ..) ?_ ?_ ?_⟩
      · rw [blankHostname_leases]
      · intro p _
        exact blankHostname_ip ..
      · exact blankHostname_leasedOffsets ..
  exact ⟨kept.2, lone.trimmed kept.1⟩

theorem ExactOffsets.rmLease (bits : ExactOffsets s) {l : Lease}
    (lone : LoneOffsets s (·.ip = l.ip)) (done : s.rmLease l = .ok s') : ExactOffsets s' := by
  rcases rmLease_ok done with ⟨-, rfl⟩ | ⟨i, p, entry, ip, -, -, rfl⟩
  · exact bits
  · exact bits.rmLeaseByIndex lone entry ip

theorem ExactOffsets.new (bits : ExactOffsets s) (wf : Wf s) (l : Lease) :
    ExactOffsets (s.new l) :=
  bits.congr rfl rfl (fun p member => by rw [heap_new_of_lt s l (wf.bounded p member)]) rfl

theorem ExactOffsets.modify (bits : ExactOffsets s) (p : Ptr) {f : Lease → Lease}
    (keeps : ∀ l, (f l).ip = l.ip) : ExactOffsets (s.modify p f) := by
  refine bits.congr rfl rfl ?_ rfl
  intro q _
  rw [heap_modify]
  split
  · exact keeps _
  · rfl

theorem ExactOffsets.addStaticLease (bits : ExactOffsets s) (wf : Wf s) {l : Lease}
    {err : Option V4Err} (guard : OffsetOp nu s (.addStaticLease l))
    (done : s.addStaticLease nu l = some (s', err)) : ExactOffsets s' := by
  rcases addStaticLease_inv done with rfl | ⟨l', s₁, err₁, checked, removed, rest⟩
  · exact bits
  obtain ⟨lone, inserts⟩ := guard l' checked
  have same : ∀ q ∈ s.leases.elems, (s.new l').heap q = s.heap q := fun q member =>
    heap_new_of_lt s l' (wf.bounded q member)
  have lone₁ : LoneOffsets (s.new l') (DynamicFor ((s.new l').heap s.next).hwAddr
      ((s.new l').heap s.next).ip) := by
    rw [heap_new_self]
    refine List.Pairwise.imp_of_mem ?_ lone
    intro p q hp hq apart
    rwa [same p hp, same q hq]
  obtain ⟨bits₁, -⟩ := (bits.new wf l').rmDynamicLease lone₁ removed
  rcases rest with rfl | ⟨-, added⟩
  · exact bits₁
  have trim := Trimmed.rmDynamicLease removed
  have ip : (s₁.heap s.next).ip = l'.ip := by rw [trim.ip, heap_new_self]
  have isStatic : (s₁.heap s.next).isStatic = true := by
    rw [trim.isStatic, heap_new_self]
    exact (checkStatic_ok checked).2.2.2.1
  obtain ⟨rfl, inSubnet, -, -⟩ := addLease_ok added
  have inSubnet := inSubnet isStatic
  rw [subnet_congr trim.conf, ip] at inSubnet
  apply bits₁.insertLease
  rw [offset_congr trim.conf, ip]
  rcases inserts inSubnet with inRange | ⟨q, member, first, spared⟩
  · exact .inl inRange
  · refine .inr ⟨q, rmDynamicLease_keeps removed member ?_, ?_⟩
    · intro isDynamic
      rw [same q member] at isDynamic ⊢
      rw [heap_new_self]
      by_contra hit
      simp only [sameProperties, Bool.not_eq_false, Bool.or_eq_true, beq_iff_eq] at hit
      exact spared ⟨isDynamic, hit⟩
    · rw [offset_congr trim.conf, trim.ip, same q member]
      exact first

theorem ExactOffsets.updateStaticLease (bits : ExactOffsets s) (wf : Wf s) {l : Lease}
    {err : Option V4Err} (guard : OffsetOp nu s (.updateStaticLease l))
    (done : s.updateStaticLease nu l = (s', err)) : ExactOffsets s' := by
  rcases updateStaticLease_inv done with rfl | ⟨found, l', s₁, lookup, valid, removed, rest⟩
  · exact bits
  obtain ⟨lone, inserts⟩ := guard found lookup
  obtain ⟨⟨hostname, rfl, -⟩, -, inSubnet⟩ := validateStaticLease_ok valid
  have trim := Trimmed.rmLease removed
  have wf₁ := wf.trimmed trim
  have bits₁ := (bits.rmLease lone removed).new wf₁ { l with hostname := hostname }
  rcases rest with rfl | added
  · exact bits₁
  obtain ⟨rfl, -, -, -⟩ := addLease_ok added
  apply bits₁.insertLease
  rw [heap_new_self, offset_new, offset_congr trim.conf]
  rcases inserts inSubnet with inRange | ⟨q, member, first, spared⟩
  · exact .inl inRange
  rcases rmLease_ok removed with ⟨-, rfl⟩ | ⟨i, p, entry, ip, -, -, rfl⟩
  · exact .inr ⟨q, member, by rw [heap_new_of_lt _ _ (wf.bounded q member)]; exact first⟩
  have left : q ∈ (s.rmLeaseByIndex i).leases.elems := by
    rw [rmLeaseByIndex_leases (List.getElem?_eq_some_iff.mp entry).1]
    obtain ⟨j, atJ⟩ := List.mem_iff_getElem?.mp member
    refine List.mem_eraseIdx_iff_getElem?.mpr ⟨j, ?_, atJ⟩
    rintro rfl
    rw [entry] at atJ
    cases atJ
    exact spared ip
  refine .inr ⟨q, left, ?_⟩
  rw [heap_new_of_lt _ _ (wf₁.bounded q left), offset_new, offset_congr trim.conf, trim.ip]
  exact first

/-- `ResetLeases` starts from an empty table and enters leases of the range only. -/
theorem ExactOffsets.resetLeases (bits : ExactOffsets s) (wf : Wf s) {leases : List Lease}
    (guard : OffsetOp nu s (.resetLeases leases))
    (done : s.resetLeases nu leases = some s') : ExactOffsets s' := by
  rcases resetLeases_inv done with rfl | readded
  · exact bits
  have start : Wf s.cleared ∧ s.cleared.conf = s.conf ∧ ExactOffsets s.cleared :=
    ⟨wf.cleared, rfl, fun o => by simp [ExactAt, cleared]⟩
  refine (readdLeases_preserves (I := fun t => Wf t ∧ t.conf = s.conf ∧ ExactOffsets t)
    ?_ ?_ readded start).2.2
  · rintro t l - hostname ⟨wf, conf, bits⟩
    exact ⟨wf.new _, conf, bits.new wf _⟩
  · rintro t l t' member hostname ⟨wf, conf, bits⟩ added
    have wf' := (wf.new _).addLease (Nat.lt_succ_self _) added
    obtain ⟨rfl, inSubnet, inRange, -⟩ := addLease_ok added
    refine ⟨wf', conf, (bits.new wf _).insertLease (.inl ?_)⟩
    rw [heap_new_self] at inSubnet inRange ⊢
    cases isStatic : l.isStatic with
    | false => exact inRange isStatic
    | true =>
      have inSubnet := inSubnet isStatic
      rw [offset_new, offset_congr conf]
      rw [subnet_new, subnet_congr conf] at inSubnet
      exact guard l member isStatic inSubnet

/-! ### Messages -/

theorem ExactOffsets.reserveLease (bits : ExactOffsets s) (wf : Wf s) {mac : HardwareAddr}
    {now : Time} {res : Except V4Err (Option Ptr)}
    (done : s.reserveLease mac now = (s', res)) : ExactOffsets s' := by
  rcases reserveLease_cases done with ⟨-, rfl, -⟩ | ⟨-, i, p, -, -, -, -, rfl, -⟩ |
    ⟨n, o, off, -, rfl, -⟩
  · exact bits
  · exact bits.modify p fun _ => rfl
  · refine (bits.new wf _).insertLease (.inl ?_)
    rw [heap_new_self, offset_new, off]

theorem ExactOffsets.allocateLease (bits : ExactOffsets s) (wf : Wf s) {mac : HardwareAddr}
    {rounds : List Round} {a : Allocation}
    (done : V4Server.allocateLease mac s [] rounds = some a) : ExactOffsets a.server := by
  obtain ⟨k, r, t, -, ⟨wf₁, bits₁⟩, last, -⟩ :=
    allocateLease_last (I := fun _ t _ => Wf t ∧ ExactOffsets t)
      (fun _ _ _ r _ p _ inv reserved _ =>
        ⟨(inv.1.reserveLease reserved).1.blocklistLease p r.stamp,
          (inv.2.reserveLease inv.1 reserved).modify p fun _ => rfl⟩) done ⟨wf, bits⟩
  exact bits₁.reserveLease wf₁ last

/-- A lease that is in the table may be entered again without setting a new bit. -/
theorem ExactOffsets.handleDecline (bits : ExactOffsets s) (wf : Wf s) {req : Msg}
    {env : Readings} {h : Handled}
    (guard : ∀ ip, addrFromSlice req.targetIP = some ip →
      LoneOffsets s (DynamicFor req.clientHWAddr ip))
    (done : s.handleDecline req env = some h) : ExactOffsets h.server := by
  rcases handleDecline_inv done with unmoved | ⟨old, s₁, err, found, removed, rest⟩
  · rwa [unmoved.server]
  obtain ⟨-, mac, ip⟩ := findLeaseForIP_some found
  have lone := guard _ ip
  rw [← mac] at lone
  obtain ⟨bits₁, -⟩ := bits.rmDynamicLease lone removed
  have wf₁ := wf.trimmed (.rmDynamicLease removed)
  rcases rest with unmoved | ⟨-, a, allocated, -, ⟨-, same, -⟩ | ⟨p, lease, rest⟩⟩
  · rwa [unmoved.server]
  · rw [same]
    exact bits₁.allocateLease wf₁ allocated
  have bits₂ : ExactOffsets (a.server.takeOver old p env.now) :=
    (bits₁.allocateLease wf₁ allocated).modify p fun _ => rfl
  rcases rest with ⟨-, same, -⟩ | ⟨added, -⟩
  · rwa [same]
  obtain ⟨same, inSubnet, inRange, -⟩ := addLease_ok added
  have isDynamic := allocateLease_dynamic allocated lease
  rw [same]
  refine bits₂.insertLease (.inl (inRange ?_))
  simpa [takeOver] using isDynamic

theorem ExactOffsets.handleRelease (bits : ExactOffsets s) {req : Msg} {h : Handled}
    (guard : ∀ ip, addrFromSlice req.targetIP = some ip →
      LoneOffsets s (DynamicFor req.clientHWAddr ip))
    (done : s.handleRelease req = some h) : ExactOffsets h.server := by
  obtain ⟨-, -, same | ⟨ip, err, target, released⟩⟩ := handleRelease_inv done
  · rwa [same]
  refine (release_preserves (I := fun t => ExactOffsets t ∧
    LoneOffsets t (DynamicFor req.clientHWAddr ip)) ?_ released ⟨bits, guard ip target⟩).1
  rintro t p t' err ⟨bits, lone⟩ - mac addr removed
  rw [← mac, ← addr] at lone ⊢
  exact bits.rmDynamicLease lone removed

theorem ExactOffsets.handle (bits : ExactOffsets s) (wf : Wf s) {req : Msg} {env : Readings}
    {h : Handled} (guard : OffsetMsg s req) (done : s.handle nu req env = some h) :
    ExactOffsets h.server := by
  unfold OffsetMsg at guard
  rcases handle_inv done with unmoved | ⟨-, done⟩ | ⟨-, self, -, done⟩ | ⟨type, done⟩ | ⟨type, done⟩
  · rwa [unmoved.server]
  · exact discover_keeps done bits fun _ _ allocated => bits.allocateLease wf allocated
  · exact request_keeps done bits fun _ _ => bits.congr rfl rfl (fun _ _ => commit_ip ..) rfl
  · rw [type] at guard
    exact bits.handleDecline wf guard done
  · rw [type] at guard
    exact bits.handleRelease guard done

/-! ### Runs -/

theorem ExactOffsets.step (bits : ExactOffsets s) (wf : Wf s) {op : Op} {answer : Answer}
    (guard : OffsetOp nu s op) (done : V4Server.step nu s op = some (s', answer)) :
    ExactOffsets s' := by
  refine step_keeps bits ?_ done
  cases op with
  | addStaticLease l => exact fun _ => bits.addStaticLease wf guard
  | updateStaticLease l => exact fun _ => bits.updateStaticLease wf guard
  | removeStaticLease l => exact bits.rmLease guard
  | resetLeases leases => exact bits.resetLeases wf guard
  | handle req env => exact fun _ => bits.handle wf guard
  | packet req env => exact fun _ _ => bits.handle wf guard

theorem v4Create_exactOffsets (conf : V4ServerConf) : ExactOffsets (v4Create conf).1 := by
  intro o
  unfold ExactAt
  rw [v4Create_elems]
  unfold v4Create
  dsimp only
  split
  · simp
  · simp

/-- When the bits are exact, a search without result has found every address of the
range leased. -/
theorem ExactOffsets.leased_of_nextIP (bits : ExactOffsets s) (wf : Wf s)
    (none : s.nextIP = .nil) {ip : Addr} {o : Nat} (inRange : s.offset ip = (o, true)) :
    ∃ p ∈ s.leases.elems, s.offset (s.heap p).ip = (o, true) := by
  obtain ⟨r, range, start, stop⟩ := offset_eq_true inRange
  exact (bits o).mp (nextIP_eq_nil wf.conf none range (by omega))

/-- In every run whose operations meet `OffsetOp`, the bits are exact, and `nextIP`
fails only when every address of the range is leased. -/
theorem leasedOffsets_exact (conf : V4ServerConf)
    (run : Reaches (V4Server.step nu) (OffsetOp nu) (v4Create conf).1 s) :
    ExactOffsets s ∧ (s.nextIP = .nil → ∀ ip o, s.offset ip = (o, true) →
      ∃ p ∈ s.leases.elems, s.offset (s.heap p).ip = (o, true)) := by
  have inv : Wf s ∧ ExactOffsets s :=
    run.invariant (I := fun s => Wf s ∧ ExactOffsets s)
      ⟨v4Create_wf conf, v4Create_exactOffsets conf⟩
      fun _ _ _ _ inv guard taken => ⟨inv.1.step taken, inv.2.step inv.1 guard taken⟩
  exact ⟨inv.2, fun none ip o inRange => inv.2.leased_of_nextIP inv.1 none inRange⟩

/-- A static lease in the range and a message of a client. -/
theorem leasedOffsets_exact_mixed :
    ∃ s, Reaches (V4Server.step .ascii) (OffsetOp .ascii) (v4Create smallConf).1 s ∧
      s.leases.elems.map (fun p => (s.heap p).ip) = [hostAddr 101, hostAddr 100] ∧
      ExactOffsets s := by
  let add : Op := .addStaticLease { ip := hostAddr 101, hwAddr := clientMAC 1 }
  let discover : Op := .handle { messageType := .discover, clientHWAddr := clientMAC 2 } (quiet 10)
  have guard : OffsetOp .ascii (v4Create smallConf).1 add := by
    intro l' checked
    have same : l'.ip = hostAddr 101 := (checkStatic_ok checked).2.1
    refine ⟨?_, ?_⟩
    · unfold LoneOffsets
      rw [v4Create_elems]
      exact .nil
    · intro _
      rw [same]
      exact .inl (by decide)
  obtain ⟨s₁, _, taken₁, next⟩ := exists_step (V4Server.step .ascii) (v4Create smallConf).1 add
    (fun s => ((V4Server.step .ascii s discover).map fun out => decide
      (out.1.leases.elems.map (fun p => (out.1.heap p).ip) = [hostAddr 101, hostAddr 100])) =
        some true) (by decide)
  obtain ⟨s₂, _, taken₂, listed⟩ := exists_step (V4Server.step .ascii) s₁ discover
    (fun s => s.leases.elems.map (fun p => (s.heap p).ip) = [hostAddr 101, hostAddr 100]) next
  have run := (Reaches.refl.tail guard taken₁).tail (show OffsetOp .ascii s₁ discover from trivial)
    taken₂
  exact ⟨s₂, run, listed, (leasedOffsets_exact smallConf run).1⟩

/-- A static lease outside of the range marks the first address of the range. -/
theorem leasedOffsets_not_exact : ¬∀ (nu : Netutil) (conf : V4ServerConf) (s : V4Server),
    Reaches (V4Server.step nu) (fun _ _ => True) (v4Create conf).1 s → ExactOffsets s := by
  intro always
  obtain ⟨s, done, fails⟩ := exec_refutes (V4Server.step .ascii) (v4Create smallConf).1
    [.addStaticLease { ip := hostAddr 50, hwAddr := clientMAC 1 }] (ExactAt · 0) (by decide)
  exact fails (always .ascii smallConf s (reaches_of_exec (by simp) done) 0)

end FirewallCore.Dhcpd.V4Server
