import Mathlib.Data.Finset.Card
import Mathlib.Data.Finset.Range
import FirewallCore.Dhcpd.V4HandlerSpec

/-!
The addresses of the lease table: every lease of it has its own IPv4 address,
under which it is indexed, and whose bit is set if it lies in the dynamic range.

Renaming, blocklisting, committing and reserving all keep this. Entering a lease
whose address another lease already has breaks it, and so does the removal of a
lease that the table lists twice.
-/

namespace FirewallCore.Dhcpd.V4Server

open FirewallCore.Net FirewallCore.Lib

variable {nu : Netutil} {s s' : V4Server} {p q : Ptr} {i : Nat}

structure AddrInv (s : V4Server) : Prop where
  bounded : ∀ p ∈ s.leases.elems, p < s.next
  is4 : ∀ p ∈ s.leases.elems, (s.heap p).ip.is4 = true
  indexed : ∀ p ∈ s.leases.elems, s.ipIndex (s.heap p).ip = some p
  leased : ∀ p ∈ s.leases.elems, ∀ o, s.offset (s.heap p).ip = (o, true) →
    s.leasedOffsets.isSet o = true

namespace AddrInv

/-- Entries with the same address are the same lease. -/
theorem eq_of_ip_eq (inv : AddrInv s) (hp : p ∈ s.leases.elems) (hq : q ∈ s.leases.elems)
    (same : (s.heap p).ip = (s.heap q).ip) : p = q := by
  have atP := inv.indexed p hp
  rw [same, inv.indexed q hq] at atP
  exact (Option.some.inj atP).symm

/-- The address part of a state: whatever else changes, the invariant stays. -/
theorem congr (inv : AddrInv s) (conf : s'.conf = s.conf) (next : s.next ≤ s'.next)
    (elems : s'.leases.elems = s.leases.elems)
    (ips : ∀ p ∈ s.leases.elems, (s'.heap p).ip = (s.heap p).ip)
    (index : ∀ p ∈ s.leases.elems, s'.ipIndex (s.heap p).ip = some p)
    (offsets : s'.leasedOffsets = s.leasedOffsets) : AddrInv s' := by
  refine ⟨?_, ?_, ?_, ?_⟩
  · intro p member
    rw [elems] at member
    exact Nat.lt_of_lt_of_le (inv.bounded p member) next
  · intro p member
    rw [elems] at member
    rw [ips p member]
    exact inv.is4 p member
  · intro p member
    rw [elems] at member
    rw [ips p member]
    exact index p member
  · intro p member o off
    rw [elems] at member
    rw [ips p member, offset_congr conf] at off
    rw [offsets]
    exact inv.leased p member o off

theorem new (inv : AddrInv s) (l : Lease) : AddrInv (s.new l) :=
  inv.congr rfl (Nat.le_succ _) rfl
    (fun p member => by rw [heap_new_of_lt s l (inv.bounded p member)]) inv.indexed rfl

theorem modify (inv : AddrInv s) (p : Ptr) {f : Lease → Lease} (keeps : ∀ l, (f l).ip = l.ip) :
    AddrInv (s.modify p f) := by
  refine inv.congr rfl (Nat.le_refl _) rfl ?_ inv.indexed rfl
  intro q _
  rw [heap_modify]
  split
  · exact keeps _
  · rfl

theorem blankHostname (inv : AddrInv s) (lease p : Ptr) : AddrInv (s.blankHostname lease p) := by
  rcases blankHostname_cases s lease p with same | ⟨-, blanked⟩
  · rwa [same]
  · rw [blanked]
    exact inv.modify p fun _ => rfl

theorem reserveExpired (inv : AddrInv s) (mac : HardwareAddr) (p : Ptr) :
    AddrInv (s.reserveExpired mac p) :=
  inv.modify p fun _ => rfl

theorem blocklistLease (inv : AddrInv s) (p : Ptr) (now : Time) :
    AddrInv (s.blocklistLease p now) :=
  inv.modify p fun _ => rfl

theorem takeOver (inv : AddrInv s) (old p : Ptr) (now : Time) : AddrInv (s.takeOver old p now) :=
  inv.modify p fun _ => rfl

theorem commit (inv : AddrInv s) (member : p ∈ s.leases.elems) (hostname : String) (now : Time) :
    AddrInv (s.commit p hostname now) := by
  refine inv.congr rfl (Nat.le_refl _) rfl ?_ ?_ rfl
  · intro q _
    exact commit_ip ..
  · intro q hq
    simp only [V4Server.commit]
    by_cases same : (s.heap q).ip = (s.heap p).ip
    · rw [same, Function.update_self, inv.eq_of_ip_eq hq member same]
    · rw [Function.update_of_ne same]
      exact inv.indexed q hq

theorem rmLeaseByIndex (inv : AddrInv s)
    (once : ∀ p, s.leases.elems[i]? = some p → p ∉ s.leases.elems.eraseIdx i) :
    AddrInv (s.rmLeaseByIndex i) := by
  rcases rmLeaseByIndex_cases s i with ⟨-, same⟩ | ⟨p, entry, removed⟩
  · rwa [same]
  have member : p ∈ s.leases.elems := List.mem_of_getElem? entry
  have sub : (s.leases.elems.eraseIdx i).Sublist s.leases.elems := List.eraseIdx_sublist ..
  -- no entry that is left shares an index key or a bit with `p`
  have others : ∀ q ∈ s.leases.elems.eraseIdx i, (s.heap q).ip ≠ (s.heap p).ip := by
    intro q left same
    obtain rfl := inv.eq_of_ip_eq (sub.subset left) member same
    exact once q entry left
  rw [removed]
  refine ⟨?_, ?_, ?_, ?_⟩
  · intro q hq
    exact inv.bounded q (sub.subset hq)
  · intro q hq
    exact inv.is4 q (sub.subset hq)
  · intro q hq
    simp only [Function.update_of_ne (others q hq)]
    exact inv.indexed q (sub.subset hq)
  · intro q hq o off
    have set := inv.leased q (sub.subset hq) o off
    dsimp only
    split
    · rename_i inRange
      rw [BitSet.isSet_set]
      split
      · rename_i same
        exfalso
        subst same
        refine others q hq (eq_of_offset_eq (inv.is4 q (sub.subset hq)) (inv.is4 p member) off ?_)
        exact Prod.ext rfl inRange
      · exact set
    · exact set

theorem insertLease (inv : AddrInv s) (bound : p < s.next) (is4 : (s.heap p).ip.is4 = true)
    (others : ∀ q ∈ s.leases.elems, (s.heap q).ip = (s.heap p).ip → q = p) :
    AddrInv (s.insertLease p) := by
  have split : ∀ q ∈ (s.insertLease p).leases.elems, q ∈ s.leases.elems ∨ q = p := by
    intro q member
    simpa using member
  refine ⟨?_, ?_, ?_, ?_⟩
  · intro q member
    rcases split q member with old | rfl
    · exact inv.bounded q old
    · exact bound
  · intro q member
    rcases split q member with old | rfl
    · exact inv.is4 q old
    · exact is4
  · intro q member
    change Function.update s.ipIndex (s.heap p).ip (some p) (s.heap q).ip = some q
    by_cases same : (s.heap q).ip = (s.heap p).ip
    · rcases split q member with old | rfl
      · rw [same, Function.update_self, others q old same]
      · exact Function.update_self ..
    · rcases split q member with old | rfl
      · rw [Function.update_of_ne same]
        exact inv.indexed q old
      · exact absurd rfl same
  · intro q member o off
    change s.offset (s.heap q).ip = (o, true) at off
    change (s.leasedOffsets.set _ true).isSet o = true
    rw [BitSet.isSet_set]
    rcases split q member with old | rfl
    · split
      · rfl
      · exact inv.leased q old o off
    · rw [off, if_pos rfl]

/-- A free address is the address of no entry. -/
theorem free (inv : AddrInv s) {n : BitVec 32} {o : Nat} (off : s.offset (.v4 n) = (o, true))
    (clear : s.leasedOffsets.isSet o = false) :
    ∀ q ∈ s.leases.elems, (s.heap q).ip ≠ .v4 n := by
  intro q member same
  have set := inv.leased q member o (by rw [same, off])
  rw [clear] at set
  cases set

theorem reserveFresh (inv : AddrInv s) (mac : HardwareAddr) {n : BitVec 32} {o : Nat}
    (off : s.offset (.v4 n) = (o, true)) (clear : s.leasedOffsets.isSet o = false) :
    AddrInv (s.reserveFresh mac n) := by
  refine (inv.new _).insertLease (Nat.lt_succ_self _) (by simp [Addr.is4]) ?_
  intro q member same
  rw [heap_new_self, heap_new_of_lt s _ (inv.bounded q member)] at same
  exact absurd same (inv.free off clear q member)

theorem reserveLease (inv : AddrInv s) {mac : HardwareAddr} {now : Time}
    {res : Except V4Err (Option Ptr)} (done : s.reserveLease mac now = (s', res)) :
    AddrInv s' := by
  rcases reserveLease_cases done with ⟨-, rfl, -⟩ | ⟨-, i, p, -, -, -, -, rfl, -⟩ |
    ⟨n, o, off, clear, rfl, -⟩
  · exact inv
  · exact inv.reserveExpired mac p
  · exact inv.reserveFresh mac off clear

end AddrInv

/-- The leases that a removal of those with `P` may take are listed once. -/
def ListedOnce (s : V4Server) (P : Lease → Prop) : Prop :=
  s.leases.elems.Pairwise fun p q => p = q → ¬P (s.heap p)

theorem ListedOnce.of_nodup (nodup : s.leases.elems.Nodup) (P : Lease → Prop) :
    ListedOnce s P :=
  nodup.imp fun ne same => absurd same ne

theorem ListedOnce.notMem_eraseIdx {P : Lease → Prop} (once : ListedOnce s P)
    (entry : s.leases.elems[i]? = some p) (chosen : P (s.heap p)) :
    p ∉ s.leases.elems.eraseIdx i := by
  intro left
  obtain ⟨j, ne, atJ⟩ := List.mem_eraseIdx_iff_getElem?.mp left
  obtain ⟨boundI, rfl⟩ := List.getElem?_eq_some_iff.mp entry
  obtain ⟨boundJ, same⟩ := List.getElem?_eq_some_iff.mp atJ
  have pairs := List.pairwise_iff_getElem.mp once
  rcases Nat.lt_or_gt_of_ne ne with less | more
  · exact pairs j i boundJ boundI less same (by rwa [same])
  · exact pairs i j boundI boundJ more same.symm chosen

theorem ListedOnce.trimmed {mac : HardwareAddr} {ip : Addr}
    (once : ListedOnce s (DynamicFor mac ip)) (trim : Trimmed s s') :
    ListedOnce s' (DynamicFor mac ip) := by
  refine (List.Pairwise.sublist trim.sub once).imp ?_
  intro p q apart same
  simpa only [DynamicFor, trim.ip, trim.hwAddr, trim.isStatic] using apart same

theorem AddrInv.rmDynamicLease (inv : AddrInv s) {lease : Ptr} {err : Option V4Err}
    (once : ListedOnce s (DynamicFor (s.heap lease).hwAddr (s.heap lease).ip))
    (done : s.rmDynamicLease lease = some (s', err)) : AddrInv s' := by
  refine (rmDynamicLease_preserves (I := fun t => Trimmed s t ∧ AddrInv t) ?_ ?_ done
    ⟨.refl s, inv⟩).2
  · rintro t i p ⟨trim, inv⟩ entry isDynamic hit
    refine ⟨trim.trans (.rmLeaseByIndex t i), inv.rmLeaseByIndex ?_⟩
    intro q entry'
    rw [entry] at entry'
    cases entry'
    refine (once.trimmed trim).notMem_eraseIdx entry ⟨isDynamic, ?_⟩
    rw [← trim.hwAddr lease, ← trim.ip lease]
    simpa [sameProperties] using hit
  · rintro t q ⟨trim, inv⟩
    exact ⟨trim.trans (.blankHostname t lease q), inv.blankHostname lease q⟩

/-- The loop of `rmDynamicLease` for `old` does not pass over `old` itself. -/
def Reached (s : V4Server) (old : Ptr) : Prop :=
  s.leases.elems.IsChain fun b c => sameProperties (s.heap b) (s.heap old) = true →
    (s.heap b).isStatic = false → c ≠ old

/-- A removal that succeeds has removed a lease that the loop reaches. -/
theorem Reached.removed {old : Ptr} (reached : Reached s old)
    (done : s.rmDynamicLease old = some (s', none)) : old ∉ s'.leases.elems := by
  intro left
  refine rmDynamicLease_survivors (· = old) done ?_ reached old left rfl
  rintro q rfl
  simp [sameProperties]

theorem AddrInv.rmLease (inv : AddrInv s) {lease : Lease}
    (once : ListedOnce s (·.ip = lease.ip)) (done : s.rmLease lease = .ok s') : AddrInv s' := by
  rcases rmLease_ok done with ⟨-, rfl⟩ | ⟨i, p, entry, ip, -, -, rfl⟩
  · exact inv
  · refine inv.rmLeaseByIndex ?_
    intro q entry'
    rw [entry] at entry'
    cases entry'
    exact once.notMem_eraseIdx entry ip

theorem AddrInv.cleared (s : V4Server) : AddrInv s.cleared :=
  ⟨by simp [V4Server.cleared], by simp [V4Server.cleared], by simp [V4Server.cleared],
    by simp [V4Server.cleared]⟩

theorem v4Create_addrInv (conf : V4ServerConf) : AddrInv (v4Create conf).1 := by
  refine ⟨?_, ?_, ?_, ?_⟩ <;> simp [v4Create_elems]

/-! ### The rounds of an allocation -/

/-- The offsets of the dynamic range that `nextIP` still has to give. -/
def freeOffsets (s : V4Server) : Finset Nat :=
  match s.conf.bind (·.ipRange) with
  | none => ∅
  | some r => (Finset.range (r.stop + 1 - r.start)).filter fun o => s.leasedOffsets.isSet o = false

theorem freeOffsets_eq_empty (conf : Configured s) (none : s.nextIP = .nil) :
    s.freeOffsets = ∅ := by
  unfold freeOffsets
  split
  · rfl
  · rename_i r range
    refine Finset.filter_eq_empty_iff.mpr ?_
    intro o inside
    have inside := Finset.mem_range.mp inside
    simp [nextIP_eq_nil conf none range (o := o) (by omega)]

@[simp] theorem freeOffsets_modify (s : V4Server) (p : Ptr) (f : Lease → Lease) :
    (s.modify p f).freeOffsets = s.freeOffsets := rfl

/-- Entering a lease takes at most one free offset. -/
theorem card_freeOffsets_insertLease (s : V4Server) (p : Ptr) :
    s.freeOffsets.card ≤ (s.insertLease p).freeOffsets.card + 1 := by
  have sub : s.freeOffsets.erase (s.offset (s.heap p).ip).1 ⊆ (s.insertLease p).freeOffsets := by
    intro o member
    obtain ⟨ne, free⟩ := Finset.mem_erase.mp member
    unfold freeOffsets at free ⊢
    simp only [insertLease_conf]
    split at free
    · simp at free
    · rename_i r range
      obtain ⟨inside, clear⟩ := Finset.mem_filter.mp free
      refine Finset.mem_filter.mpr ⟨inside, ?_⟩
      change (s.leasedOffsets.set _ true).isSet o = false
      rw [BitSet.isSet_set, if_neg ne, clear]
  have fewer := Finset.card_le_card sub
  have one := Finset.pred_card_le_card_erase (s := s.freeOffsets) (a := (s.offset (s.heap p).ip).1)
  omega

theorem mem_freeOffsets {o : Nat} : o ∈ s.freeOffsets ↔ ∃ r, s.conf.bind (·.ipRange) = some r ∧
    o < r.stop + 1 - r.start ∧ s.leasedOffsets.isSet o = false := by
  unfold freeOffsets
  split
  · rename_i none
    simp [none]
  · rename_i r range
    simp [range]

/-- A removal gives its offset back and takes none. -/
theorem freeOffsets_rmLeaseByIndex (s : V4Server) (i : Nat) :
    s.freeOffsets ⊆ (s.rmLeaseByIndex i).freeOffsets ∧
      ∀ p o, s.leases.elems[i]? = some p → s.offset (s.heap p).ip = (o, true) →
        o ∈ (s.rmLeaseByIndex i).freeOffsets := by
  rcases rmLeaseByIndex_cases s i with ⟨outside, same⟩ | ⟨p, entry, removed⟩
  · rw [same]
    refine ⟨fun _ member => member, ?_⟩
    intro p o entry
    rw [outside] at entry
    cases entry
  constructor
  · intro o free
    obtain ⟨r, range, inside, clear⟩ := mem_freeOffsets.mp free
    refine mem_freeOffsets.mpr ⟨r, by rw [rmLeaseByIndex_conf, range], inside, ?_⟩
    rw [removed]
    dsimp only
    split
    · rw [BitSet.isSet_set, clear]
      simp
    · exact clear
  · intro q o entry' off
    rw [entry] at entry'
    cases entry'
    obtain ⟨r, range, start, stop⟩ := offset_eq_true off
    refine mem_freeOffsets.mpr ⟨r, by rw [rmLeaseByIndex_conf, range], by omega, ?_⟩
    rw [removed]
    simp [off]

/-- A removal of a dynamic lease that the loop reaches leaves one free offset more. -/
theorem AddrInv.card_freeOffsets_rmDynamicLease (inv : AddrInv s) (wf : Wf s) {old : Ptr}
    (member : old ∈ s.leases.elems) (isDynamic : (s.heap old).isStatic = false)
    (reached : Reached s old) (done : s.rmDynamicLease old = some (s', none)) :
    s.freeOffsets.card + 1 ≤ s'.freeOffsets.card := by
  obtain ⟨o, off⟩ : ∃ o, s.offset (s.heap old).ip = (o, true) :=
    ⟨_, Prod.ext rfl (wf.ranged old member isDynamic)⟩
  have taken : o ∉ s.freeOffsets := by
    intro free
    obtain ⟨-, -, -, clear⟩ := mem_freeOffsets.mp free
    rw [inv.leased old member o off] at clear
    cases clear
  have grown : Trimmed s s' ∧ s.freeOffsets ⊆ s'.freeOffsets ∧
      (old ∈ s'.leases.elems ∨ o ∈ s'.freeOffsets) := by
    refine rmDynamicLease_preserves (I := fun t => Trimmed s t ∧ s.freeOffsets ⊆ t.freeOffsets ∧
      (old ∈ t.leases.elems ∨ o ∈ t.freeOffsets)) ?_ ?_ done
      ⟨.refl s, fun _ free => free, .inl member⟩
    · rintro t i p ⟨trim, sub, there⟩ entry - -
      obtain ⟨grows, back⟩ := freeOffsets_rmLeaseByIndex t i
      refine ⟨trim.trans (.rmLeaseByIndex t i), sub.trans grows, ?_⟩
      rcases there with listed | free
      · by_cases isOld : p = old
        · subst isOld
          exact .inr (back p o entry (by rw [offset_congr trim.conf, trim.ip, off]))
        · obtain ⟨j, atJ⟩ := List.mem_iff_getElem?.mp listed
          left
          rw [rmLeaseByIndex_leases (List.getElem?_eq_some_iff.mp entry).1]
          refine List.mem_eraseIdx_iff_getElem?.mpr ⟨j, ?_, atJ⟩
          rintro rfl
          rw [entry] at atJ
          exact isOld (Option.some.inj atJ)
      · exact .inr (grows free)
    · rintro t q ⟨trim, sub, there⟩
      refine ⟨trim.trans (.blankHostname t old q), ?_⟩
      rcases blankHostname_cases t old q with same | ⟨-, blanked⟩
      · rw [same]
        exact ⟨sub, there⟩
      · rw [blanked]
        exact ⟨sub, there⟩
  have more : insert o s.freeOffsets ⊆ s'.freeOffsets := by
    refine Finset.insert_subset ?_ grown.2.1
    exact grown.2.2.resolve_left (reached.removed done)
  have count := Finset.card_le_card more
  rwa [Finset.card_insert_of_notMem taken] at count

/-- The entry of a blocklisted address. -/
def blocklisted (ip : Addr) (expiry : Time) : Lease :=
  { ip := ip, expiry := expiry, hwAddr := blocklistMAC }

/-- A round that ends in a ping conflict leaves one blocklisted entry more and
does not touch the others. -/
theorem conflict_round {s₁ : V4Server} {mac : HardwareAddr} {now : Time}
    (bounded : ∀ q ∈ s.leases.elems, q < s.next)
    (reserved : s.reserveLease mac now = (s₁, .ok (some p))) (stamp : Time) :
    (s₁.blocklistLease p stamp).heap p = blocklisted (s₁.heap p).ip (stamp + s.leaseTime) ∧
      p ∈ (s₁.blocklistLease p stamp).leases.elems ∧
      (∀ q ∈ (s₁.blocklistLease p stamp).leases.elems, q ≠ p →
        q ∈ s.leases.elems ∧ (s₁.blocklistLease p stamp).heap q = s.heap q) ∧
      s.freeOffsets.card ≤ (s₁.blocklistLease p stamp).freeOffsets.card + 1 := by
  rcases reserveLease_cases reserved with ⟨-, -, h⟩ | ⟨-, i, p', -, entry, isDynamic, -, rfl, h⟩ |
    ⟨n, o, -, -, rfl, h⟩
  · cases h
  · cases h
    refine ⟨?_, List.mem_of_getElem? entry, ?_, ?_⟩
    · simp only [blocklistLease, reserveExpired, heap_modify_self, isDynamic]
      rfl
    · intro q member ne
      refine ⟨member, ?_⟩
      simp only [blocklistLease, reserveExpired]
      rw [heap_modify_of_ne _ _ ne, heap_modify_of_ne _ _ ne]
    · simp [blocklistLease, reserveExpired]
  · cases h
    refine ⟨?_, ?_, ?_, ?_⟩
    · simp only [blocklistLease, reserveFresh, heap_modify_self, insertLease_heap, heap_new_self]
      rfl
    · simp [blocklistLease, reserveFresh]
    · intro q member ne
      have old : q ∈ s.leases.elems := by
        simpa [blocklistLease, reserveFresh, ne] using member
      refine ⟨old, ?_⟩
      simp only [blocklistLease]
      rw [heap_modify_of_ne _ _ ne]
      exact heap_new_of_lt s _ (bounded q old)
    · rw [blocklistLease, freeOffsets_modify]
      exact card_freeOffsets_insertLease (s.new _) s.next

/-- The state at the beginning of round `k` of an allocation from `s`: each entry
is untouched or was blocklisted on the way, and each round has taken at most one
free address. -/
structure Rounds (s : V4Server) (k : Nat) (t : V4Server) : Prop where
  conf : t.conf = s.conf
  free : s.freeOffsets.card ≤ t.freeOffsets.card + k
  start : k = 0 → t = s
  entry : ∀ q ∈ t.leases.elems, (0 < k ∧ ∃ ip expiry, t.heap q = blocklisted ip expiry) ∨
    (q ∈ s.leases.elems ∧ t.heap q = s.heap q)

theorem Rounds.refl (s : V4Server) : Rounds s 0 s :=
  ⟨rfl, Nat.le_refl _, fun _ => rfl, fun _ member => .inr ⟨member, rfl⟩⟩

theorem Rounds.conflict {k : Nat} {t t₁ : V4Server} {mac : HardwareAddr} {now : Time}
    (inv : Rounds s k t) (bounded : ∀ q ∈ t.leases.elems, q < t.next)
    (reserved : t.reserveLease mac now = (t₁, .ok (some p))) (stamp : Time) :
    Rounds s (k + 1) (t₁.blocklistLease p stamp) := by
  obtain ⟨atP, -, others, fewer⟩ := conflict_round bounded reserved stamp
  refine ⟨(reserveLease_conf reserved).trans inv.conf, ?_, ?_, ?_⟩
  · have := inv.free
    omega
  · intro zero
    omega
  · intro q member
    by_cases isP : q = p
    · subst isP
      exact .inl ⟨Nat.succ_pos k, _, _, atP⟩
    · obtain ⟨old, same⟩ := others q member isP
      rcases inv.entry q old with ⟨-, ip, expiry, zero⟩ | ⟨first, untouched⟩
      · exact .inl ⟨Nat.succ_pos k, ip, expiry, by rw [same, zero]⟩
      · exact .inr ⟨first, same.trans untouched⟩

theorem addrAvailable_congr (conf : s'.conf = s.conf) (silent : Bool) :
    s'.addrAvailable silent = s.addrAvailable silent := by
  unfold addrAvailable
  rw [conf]

end FirewallCore.Dhcpd.V4Server
