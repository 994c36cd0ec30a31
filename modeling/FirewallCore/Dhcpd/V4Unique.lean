import FirewallCore.Lib.Run
import FirewallCore.Dhcpd.V4AddrInv

/-!
Uniqueness in the lease table: no two entries share an address, and no two that
are not blocklisted share a hardware address.

The table does not keep this in every run. `UniqueOp` says from which states an
operation does keep it: the loop of `rmDynamicLease` must not pass over an entry
that shifts into the place of one it has just removed, `UpdateStaticLease` must
not be given the all-zero hardware address of several blocklisted entries, an
expired entry must be handed to a client whose hardware address fits into it,
and a declined lease must not be replaced, since `handleDecline` enters the new
lease a second time.
-/

namespace FirewallCore.Dhcpd.V4Server

open FirewallCore.Net FirewallCore.Lib

variable {nu : Netutil} {s s' : V4Server} {p q : Ptr} {i : Nat}

/-- No two entries have one address, and no two entries that are not blocklisted
have one hardware address. -/
def UniqueLeases (s : V4Server) : Prop :=
  (s.leases.elems.Pairwise fun p q => (s.heap p).ip ≠ (s.heap q).ip) ∧
    s.leases.elems.Pairwise fun p q => isBlocklisted (s.heap p) = false →
      isBlocklisted (s.heap q) = false → (s.heap p).hwAddr ≠ (s.heap q).hwAddr

instance (s : V4Server) : Decidable (UniqueLeases s) :=
  inferInstanceAs (Decidable (_ ∧ _))

/-! ### The condition on a step -/

/-- The entry has the address of `l`, or its hardware address without being
blocklisted. -/
def Clashes (s : V4Server) (l : Lease) (q : Ptr) : Prop :=
  (s.heap q).ip = l.ip ∨ ((s.heap q).hwAddr = l.hwAddr ∧ isBlocklisted (s.heap q) = false)

/-- No entry that clashes with `l` stands directly behind a dynamic one that
`rmDynamicLease` removes for `l`. -/
def Spaced (s : V4Server) (l : Lease) : Prop :=
  s.leases.elems.IsChain fun b c =>
    sameProperties (s.heap b) l = true → (s.heap b).isStatic = false → ¬Clashes s l c

/-- Writing `mac` over `old` in the entry `p` gives the hardware address of no other
entry, unless it is all zeroes. -/
def CopyFits (s : V4Server) (mac old : HardwareAddr) (p : Option Ptr) : Prop :=
  ∀ q ∈ s.leases.elems, some q ≠ p → (s.heap q).hwAddr = goCopy old mac →
    isBlocklisted (s.heap q) = true

/-- From the round on in which the free addresses are used up, `reserveLease` hands
out the entries of expired leases. Whichever of them the last round gets, the
hardware address of the client fits into it. -/
def CopiesFit (s : V4Server) (mac : HardwareAddr) (rounds : List Round) : Prop :=
  ∀ k r, rounds[k]? = some r → s.addrAvailable r.silent = true → s.freeOffsets.card ≤ k →
    (∀ i p, s.leases.elems[i]? = some p → (s.heap p).isStatic = false →
      (s.heap p).expiry < r.now → (k = 0 → s.findExpiredLease r.now = some i) →
      CopyFits s mac (s.heap p).hwAddr (some p)) ∧
    (0 < k → CopyFits s mac blocklistMAC none)

/-- The condition on a message. -/
def UniqueMsg (s : V4Server) (req : Msg) (env : Readings) : Prop :=
  match req.messageType with
  | .discover => s.findLease req.clientHWAddr = none → CopiesFit s req.clientHWAddr env.rounds
  | .decline => ∀ old, s.findLeaseForIP req.targetIP req.clientHWAddr = some old →
      ((s.heap old).isStatic = true ∧ Reached s old) ∨
        ∀ r ∈ env.rounds, s.addrAvailable r.silent = false
  | _ => True

/-- The condition on an operation. `ResetLeases` is not one of them. -/
def UniqueOp (nu : Netutil) (s : V4Server) : Op → Prop
  | .addStaticLease l => ∀ l', checkStatic nu s l = .ok l' → Spaced s l'
  | .updateStaticLease l => ∀ dup, s.ipIndex l.ip = some dup →
      (s.heap dup).hwAddr = l.hwAddr → s.findLease l.hwAddr = some dup
  | .removeStaticLease _ => True
  | .resetLeases _ => False
  | .handle req env => UniqueMsg s req env
  | .packet req env => UniqueMsg s req env

/-! ### Hardware addresses -/

theorem isBlocklisted_congr {l l' : Lease} (same : l'.hwAddr = l.hwAddr) :
    isBlocklisted l' = isBlocklisted l := by
  unfold isBlocklisted
  rw [same]

theorem isBlocklisted_of_hwAddr {l : Lease} (h : l.hwAddr = blocklistMAC) :
    isBlocklisted l = true := by
  unfold isBlocklisted
  rw [h]
  rfl

/-- Entries that share a hardware address are blocklisted. -/
def MACInv (s : V4Server) : Prop :=
  ∀ p ∈ s.leases.elems, ∀ q ∈ s.leases.elems, p ≠ q → (s.heap p).hwAddr = (s.heap q).hwAddr →
    isBlocklisted (s.heap p) = true

namespace MACInv

/-- Fewer entries, with the same hardware addresses. -/
theorem mono (inv : MACInv s) (sub : ∀ p ∈ s'.leases.elems, p ∈ s.leases.elems)
    (macs : ∀ p ∈ s'.leases.elems, (s'.heap p).hwAddr = (s.heap p).hwAddr) : MACInv s' := by
  intro p hp q hq ne same
  rw [macs p hp, macs q hq] at same
  rw [isBlocklisted_congr (macs p hp)]
  exact inv p (sub p hp) q (sub q hq) ne same

theorem trimmed (inv : MACInv s) (h : Trimmed s s') : MACInv s' :=
  inv.mono h.sub.subset fun p _ => h.hwAddr p

theorem new (inv : MACInv s) (bounded : ∀ q ∈ s.leases.elems, q < s.next) (l : Lease) :
    MACInv (s.new l) :=
  inv.mono (fun _ h => h) fun p member => by rw [heap_new_of_lt s l (bounded p member)]

/-- One entry `p` has changed or has come in. -/
theorem update (inv : MACInv s)
    (others : ∀ q ∈ s'.leases.elems, q ≠ p →
      q ∈ s.leases.elems ∧ (s'.heap q).hwAddr = (s.heap q).hwAddr)
    (fresh : ∀ q ∈ s'.leases.elems, q ≠ p → (s'.heap q).hwAddr = (s'.heap p).hwAddr →
      isBlocklisted (s'.heap q) = true) : MACInv s' := by
  intro a ha b hb ne same
  by_cases isA : a = p
  · subst isA
    rw [isBlocklisted_congr same]
    exact fresh b hb (Ne.symm ne) same.symm
  by_cases isB : b = p
  · subst isB
    exact fresh a ha ne same
  obtain ⟨oldA, sameA⟩ := others a ha isA
  obtain ⟨oldB, sameB⟩ := others b hb isB
  rw [isBlocklisted_congr sameA]
  exact inv a oldA b oldB ne (by rw [← sameA, ← sameB, same])

theorem insertLease (inv : MACInv s)
    (fresh : ∀ q ∈ s.leases.elems, (s.heap q).hwAddr = (s.heap p).hwAddr →
      isBlocklisted (s.heap q) = true) : MACInv (s.insertLease p) := by
  have split : ∀ q ∈ (s.insertLease p).leases.elems, q ≠ p → q ∈ s.leases.elems := by
    intro q member ne
    simpa [ne] using member
  refine inv.update (p := p) (fun q member ne => ⟨split q member ne, rfl⟩) ?_
  intro q member ne same
  exact fresh q (split q member ne) same

end MACInv

/-- What the operations keep. -/
structure UniqueInv (s : V4Server) : Prop where
  conf : Configured s
  addr : AddrInv s
  nodup : s.leases.elems.Nodup
  mac : MACInv s

theorem UniqueInv.uniqueLeases (inv : UniqueInv s) : UniqueLeases s := by
  constructor
  · refine inv.nodup.imp_of_mem ?_
    intro p q hp hq ne same
    exact ne (inv.addr.eq_of_ip_eq hp hq same)
  · refine inv.nodup.imp_of_mem ?_
    intro p q hp hq ne free _ same
    rw [inv.mac p hp q hq ne same] at free
    cases free

theorem UniqueInv.trimmed (inv : UniqueInv s) (h : Trimmed s s') (addr : AddrInv s') :
    UniqueInv s' :=
  ⟨inv.conf.congr h.conf, addr, inv.nodup.sublist h.sub, inv.mac.trimmed h⟩

theorem UniqueInv.rmDynamicLease (inv : UniqueInv s) {lease : Ptr} {err : Option V4Err}
    (done : s.rmDynamicLease lease = some (s', err)) : UniqueInv s' :=
  inv.trimmed (.rmDynamicLease done) (inv.addr.rmDynamicLease (.of_nodup inv.nodup _) done)

theorem UniqueInv.rmLease (inv : UniqueInv s) {l : Lease} (done : s.rmLease l = .ok s') :
    UniqueInv s' :=
  inv.trimmed (.rmLease done) (inv.addr.rmLease (.of_nodup inv.nodup _) done)

theorem UniqueInv.new (inv : UniqueInv s) (l : Lease) : UniqueInv (s.new l) :=
  ⟨inv.conf.congr rfl, inv.addr.new l, inv.nodup, inv.mac.new inv.addr.bounded l⟩

/-- Entering a lease that clashes with no entry. -/
theorem UniqueInv.insertLease (inv : UniqueInv s) (bound : p < s.next)
    (is4 : (s.heap p).ip.is4 = true) (fine : ∀ q ∈ s.leases.elems, ¬Clashes s (s.heap p) q) :
    UniqueInv (s.insertLease p) := by
  refine ⟨inv.conf.congr rfl, inv.addr.insertLease bound is4 ?_, ?_, inv.mac.insertLease ?_⟩
  · intro q member same
    exact absurd (.inl same) (fine q member)
  · refine List.nodup_append.mpr ⟨inv.nodup, List.nodup_singleton p, ?_⟩
    rintro q member r new rfl
    rw [List.mem_singleton.mp new] at member
    exact fine p member (.inl rfl)
  · intro q member same
    by_contra free
    exact fine q member (.inr ⟨same, by simpa using free⟩)

/-! ### The administrator's calls -/

theorem UniqueInv.addStaticLease (inv : UniqueInv s) {l : Lease} {err : Option V4Err}
    (guard : UniqueOp nu s (.addStaticLease l))
    (done : s.addStaticLease nu l = some (s', err)) : UniqueInv s' := by
  rcases addStaticLease_inv done with rfl | ⟨l', s₁, err₁, checked, removed, rest⟩
  · exact inv
  have inv₁ := (inv.new l').rmDynamicLease removed
  rcases rest with rfl | ⟨rfl, added⟩
  · exact inv₁
  obtain ⟨rfl, -, -, -⟩ := addLease_ok added
  have trim := Trimmed.rmDynamicLease removed
  have same : ∀ q ∈ s.leases.elems, (s.new l').heap q = s.heap q := fun q member =>
    heap_new_of_lt s l' (inv.addr.bounded q member)
  have left : ∀ q ∈ s₁.leases.elems, ¬Clashes (s.new l') l' q := by
    refine rmDynamicLease_survivors (Clashes (s.new l') l') removed ?_ ?_
    · intro q clash
      rw [heap_new_self]
      rcases clash with ip | ⟨mac, -⟩
      · simp [sameProperties, ip]
      · simp [sameProperties, mac]
    · refine (guard l' checked).imp_of_mem_imp ?_
      intro b c hb hc spaced hit isDynamic
      rw [heap_new_self, same b hb] at hit
      rw [same b hb] at isDynamic
      have fine := spaced hit isDynamic
      unfold Clashes at fine ⊢
      rwa [same c hc]
  obtain ⟨-, -, is4, -, -, -⟩ := checkStatic_ok checked
  have ip : (s₁.heap s.next).ip = l'.ip := by rw [trim.ip, heap_new_self]
  have mac : (s₁.heap s.next).hwAddr = l'.hwAddr := by rw [trim.hwAddr, heap_new_self]
  refine inv₁.insertLease (by rw [trim.next]; exact Nat.lt_succ_self _) (by rw [ip]; exact is4) ?_
  intro q member clash
  refine left q member ?_
  unfold Clashes at clash ⊢
  rwa [trim.ip, trim.hwAddr, isBlocklisted_congr (trim.hwAddr q), ip, mac] at clash

theorem UniqueInv.updateStaticLease (inv : UniqueInv s) {l : Lease} {err : Option V4Err}
    (guard : UniqueOp nu s (.updateStaticLease l))
    (done : s.updateStaticLease nu l = (s', err)) : UniqueInv s' := by
  rcases updateStaticLease_inv done with rfl | ⟨found, l', s₁, lookup, valid, removed, rest⟩
  · exact inv
  obtain ⟨listed, mac⟩ := findLease_some lookup
  obtain ⟨⟨hostname, rfl, -⟩, sameMAC, inSubnet⟩ := validateStaticLease_ok valid
  have inv₁ := inv.rmLease removed
  rcases rest with rfl | added
  · exact inv₁.new _
  obtain ⟨rfl, -, -, -⟩ := addLease_ok added
  -- the lease that goes is the one found by hardware address
  rcases rmLease_ok removed with ⟨empty, -⟩ | ⟨i, p, entry, ip, -, -, rfl⟩
  · simp [empty] at listed
  obtain rfl := inv.addr.eq_of_ip_eq (List.mem_of_getElem? entry) listed ip
  have left : ∀ q ∈ (s.rmLeaseByIndex i).leases.elems, q ∈ s.leases.elems ∧ q ≠ p := by
    intro q member
    rw [rmLeaseByIndex_leases (List.getElem?_eq_some_iff.mp entry).1] at member
    have once := (ListedOnce.of_nodup inv.nodup fun _ => True).notMem_eraseIdx entry trivial
    refine ⟨List.mem_of_mem_eraseIdx member, ?_⟩
    rintro rfl
    exact once member
  refine (inv₁.new _).insertLease (Nat.lt_succ_self _) ?_ ?_
  · rw [heap_new_self]
    exact inv.conf.subnet_is4 _ inSubnet
  · intro q member clash
    obtain ⟨old, ne⟩ := left q member
    have same : ((s.rmLeaseByIndex i).new { l with hostname := hostname }).heap q = s.heap q := by
      rw [heap_new_of_lt _ _ (inv₁.addr.bounded q member), rmLeaseByIndex_heap]
    unfold Clashes at clash
    rw [heap_new_self, same] at clash
    rcases clash with sameIP | ⟨sameHW, free⟩
    · have atIP := inv.addr.indexed q old
      rw [sameIP] at atIP
      have first := guard q atIP (sameMAC q atIP)
      rw [lookup] at first
      exact ne (Option.some.inj first).symm
    · rw [inv.mac q old p listed ne (sameHW.trans mac.symm)] at free
      cases free

/-! ### Messages -/

/-- A new lease is not yet in the table. -/
theorem reserveLease_nodup {mac : HardwareAddr} {now : Time} {res : Except V4Err (Option Ptr)}
    (bounded : ∀ q ∈ s.leases.elems, q < s.next) (nodup : s.leases.elems.Nodup)
    (done : s.reserveLease mac now = (s', res)) : s'.leases.elems.Nodup := by
  rcases reserveLease_cases done with ⟨-, rfl, -⟩ | ⟨-, i, p, -, -, -, -, rfl, -⟩ |
    ⟨n, o, -, -, rfl, -⟩
  · exact nodup
  · exact nodup
  · refine List.nodup_append.mpr ⟨nodup, List.nodup_singleton _, ?_⟩
    rintro q member r new rfl
    rw [List.mem_singleton.mp new] at member
    exact absurd (bounded _ member) (Nat.lt_irrefl _)

/-- A ping conflict keeps the invariant: the entry that was reserved ends up
blocklisted. -/
theorem UniqueInv.conflict_round (inv : UniqueInv s) {s₁ : V4Server} {mac : HardwareAddr}
    {now : Time} (reserved : s.reserveLease mac now = (s₁, .ok (some p))) (stamp : Time) :
    UniqueInv (s₁.blocklistLease p stamp) := by
  obtain ⟨entry, -, others, -⟩ := V4Server.conflict_round inv.addr.bounded reserved stamp
  have conf := inv.conf.congr (reserveLease_conf reserved)
  have nodup := reserveLease_nodup inv.addr.bounded inv.nodup reserved
  refine ⟨conf.congr rfl, (inv.addr.reserveLease reserved).blocklistLease p stamp, nodup,
    inv.mac.update (p := p) ?_ ?_⟩
  · intro q member ne
    obtain ⟨old, same⟩ := others q member ne
    exact ⟨old, by rw [same]⟩
  · intro q member ne same
    rw [entry] at same
    exact isBlocklisted_of_hwAddr same

/-- An allocation for a new client keeps the invariant. -/
theorem UniqueInv.allocateLease (inv : UniqueInv s) {mac : HardwareAddr} {rounds : List Round}
    {a : Allocation} (absent : s.findLease mac = none) (fits : CopiesFit s mac rounds)
    (done : V4Server.allocateLease mac s [] rounds = some a) : UniqueInv a.server := by
  obtain ⟨k, r, t, round, ⟨inv₁, rounds₁⟩, last, silent⟩ :=
    allocateLease_last (I := fun k t _ => UniqueInv t ∧ Rounds s k t)
      (fun k t _ r t₁ p _ h reserved _ => ⟨h.1.conflict_round reserved r.stamp,
        h.2.conflict h.1.addr.bounded reserved r.stamp⟩) done ⟨inv, .refl s⟩
  have conf := inv₁.conf.congr (reserveLease_conf last)
  have addr := inv₁.addr.reserveLease last
  have nodup := reserveLease_nodup inv₁.addr.bounded inv₁.nodup last
  refine ⟨conf, addr, nodup, ?_⟩
  rcases reserveLease_cases last with ⟨-, same, -⟩ |
    ⟨none, i, p, found, listed, isDynamic, expired, same, lease⟩ | ⟨n, o, -, -, same, lease⟩
  · rw [same]
    exact inv₁.mac
  · -- an expired entry: all addresses are used up
    have full : s.freeOffsets.card ≤ k := by
      have fewer := rounds₁.free
      rw [freeOffsets_eq_empty inv₁.conf none, Finset.card_empty] at fewer
      omega
    have available : s.addrAvailable r.silent = true := by
      rw [← addrAvailable_congr ((reserveLease_conf last).trans rounds₁.conf)]
      exact silent p lease
    obtain ⟨fitsOld, fitsZero⟩ := fits k r round available full
    rw [same]
    refine inv₁.mac.update (p := p) ?_ ?_
    · intro q member ne
      exact ⟨member, by rw [reserveExpired, heap_modify_of_ne _ _ ne]⟩
    intro q member ne clash
    rw [reserveExpired, heap_modify_self, heap_modify_of_ne _ _ ne] at clash
    rw [reserveExpired, heap_modify_of_ne _ _ ne]
    rcases rounds₁.entry q member with ⟨-, ip, T, zero⟩ | ⟨old, untouched⟩
    · exact isBlocklisted_of_hwAddr (by rw [zero]; rfl)
    rw [untouched] at clash ⊢
    rcases rounds₁.entry p (List.mem_of_getElem? listed) with ⟨later, ip, T, zero⟩ |
      ⟨oldP, untouchedP⟩
    · rw [zero] at clash
      exact fitsZero later q old (by simp) clash
    · rw [untouchedP] at clash isDynamic expired
      obtain ⟨j, atJ⟩ := List.mem_iff_getElem?.mp oldP
      refine fitsOld j p atJ isDynamic expired ?_ q old (by simpa using ne) clash
      intro first
      rw [rounds₁.start first] at found listed
      have bound := (List.getElem?_eq_some_iff.mp listed).1
      rwa [← (List.getElem?_inj bound inv.nodup).mp (listed.trans atJ.symm)]
  · -- a free address: nobody else has the hardware address of the client
    rw [same]
    refine (inv₁.mac.new inv₁.addr.bounded _).insertLease ?_
    intro q member clash
    rw [heap_new_self, heap_new_of_lt _ _ (inv₁.addr.bounded q member)] at clash
    rw [heap_new_of_lt _ _ (inv₁.addr.bounded q member)]
    rcases rounds₁.entry q member with ⟨-, ip, T, zero⟩ | ⟨old, untouched⟩
    · exact isBlocklisted_of_hwAddr (by rw [zero]; rfl)
    · rw [untouched] at clash
      exact absurd clash (findLease_none absent q old)

theorem UniqueInv.handleDiscover (inv : UniqueInv s) {req : Msg} {env : Readings} {h : Handled}
    (guard : s.findLease req.clientHWAddr = none → CopiesFit s req.clientHWAddr env.rounds)
    (done : s.handleDiscover req env = some h) : UniqueInv h.server := by
  exact discover_keeps done inv fun _ absent allocated =>
    inv.allocateLease absent (guard absent) allocated

theorem UniqueInv.commit (inv : UniqueInv s) (member : p ∈ s.leases.elems) (hostname : String)
    (now : Time) : UniqueInv (s.commit p hostname now) :=
  ⟨inv.conf.congr rfl, inv.addr.commit member hostname now, inv.nodup,
    inv.mac.mono (fun _ listed => listed) fun _ _ => commit_hwAddr ..⟩

theorem UniqueInv.handleRequest (inv : UniqueInv s) {req : Msg} {env : Readings} {self : Addr}
    {h : Handled} (done : s.handleRequest nu req self env = some h) : UniqueInv h.server := by
  rcases handleRequest_inv done with unmoved | ⟨p, _, -, member, -, finished⟩
  · rwa [unmoved.server]
  · obtain ⟨-, -, ⟨-, same⟩ | ⟨-, hostname, -, same⟩⟩ := finishRequest_inv finished
    · rwa [same]
    · rw [same]
      exact inv.commit member hostname env.now

theorem UniqueInv.handleDecline (inv : UniqueInv s) {req : Msg} {env : Readings} {h : Handled}
    (guard : ∀ old, s.findLeaseForIP req.targetIP req.clientHWAddr = some old →
      ((s.heap old).isStatic = true ∧ Reached s old) ∨
        ∀ r ∈ env.rounds, s.addrAvailable r.silent = false)
    (done : s.handleDecline req env = some h) : UniqueInv h.server := by
  rcases handleDecline_inv done with unmoved | ⟨old, s₁, err, found, removed, rest⟩
  · rwa [unmoved.server]
  have inv₁ := inv.rmDynamicLease removed
  rcases rest with unmoved | ⟨rfl, a, allocated, -, rest⟩
  · rwa [unmoved.server]
  have conflicts : ∀ r ∈ env.rounds, s.addrAvailable r.silent = false := by
    rcases guard old found with ⟨isStatic, reached⟩ | conflicts
    · have kept := rmDynamicLease_keeps removed (findLeaseForIP_some found).1 (by simp [isStatic])
      exact absurd kept (reached.removed removed)
    · exact conflicts
  obtain ⟨k, r, t, round, ⟨inv₂, conf⟩, last, silent⟩ :=
    allocateLease_last (I := fun _ t _ => UniqueInv t ∧ t.conf = s.conf)
      (fun k t _ r t₁ p _ h reserved _ =>
        ⟨h.1.conflict_round reserved r.stamp, (reserveLease_conf reserved).trans h.2⟩)
      allocated ⟨inv₁, (Trimmed.rmDynamicLease removed).conf⟩
  have noLease : ∀ p, a.lease ≠ .ok (some p) := by
    intro p lease
    have available := silent p lease
    rw [addrAvailable_congr ((reserveLease_conf last).trans conf),
      conflicts r (List.mem_of_getElem? round)] at available
    cases available
  rcases rest with ⟨-, same, -⟩ | ⟨p, lease, -⟩
  · rw [same]
    rcases reserveLease_cases last with ⟨-, same, -⟩ | ⟨-, i, p, -, -, -, -, -, lease⟩ |
      ⟨n, o, -, -, -, lease⟩
    · rwa [same]
    · exact absurd lease (noLease p)
    · exact absurd lease (noLease _)
  · exact absurd lease (noLease p)

theorem UniqueInv.handle (inv : UniqueInv s) {req : Msg} {env : Readings} {h : Handled}
    (guard : UniqueMsg s req env) (done : s.handle nu req env = some h) : UniqueInv h.server := by
  unfold UniqueMsg at guard
  rcases handle_inv done with unmoved | ⟨type, done⟩ | ⟨-, self, -, done⟩ | ⟨type, done⟩ | ⟨-, done⟩
  · rwa [unmoved.server]
  · rw [type] at guard
    exact inv.handleDiscover guard done
  · exact inv.handleRequest done
  · rw [type] at guard
    exact inv.handleDecline guard done
  · obtain ⟨-, -, same | ⟨ip, err, -, released⟩⟩ := handleRelease_inv done
    · rwa [same]
    · exact release_preserves (fun _ _ _ _ h _ _ _ removed => h.rmDynamicLease removed)
        released inv

/-! ### Runs -/

theorem UniqueInv.step (inv : UniqueInv s) {op : Op} {answer : Answer}
    (guard : UniqueOp nu s op) (done : V4Server.step nu s op = some (s', answer)) :
    UniqueInv s' := by
  refine step_keeps inv ?_ done
  cases op with
  | addStaticLease l => exact fun _ => inv.addStaticLease guard
  | updateStaticLease l => exact fun _ => inv.updateStaticLease guard
  | removeStaticLease l => exact inv.rmLease
  | resetLeases leases => exact guard.elim
  | handle req env => exact fun _ => inv.handle guard
  | packet req env => exact fun _ _ => inv.handle guard

theorem v4Create_uniqueInv (conf : V4ServerConf) : UniqueInv (v4Create conf).1 :=
  ⟨v4Create_configured conf, v4Create_addrInv conf, by simp [v4Create_elems], fun p member => by
    rw [v4Create_elems] at member
    cases member⟩

end FirewallCore.Dhcpd.V4Server
