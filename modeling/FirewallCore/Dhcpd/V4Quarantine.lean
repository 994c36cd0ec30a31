import FirewallCore.Lib.Run
import FirewallCore.Dhcpd.V4AddrInv

/-!
Quarantine of conflicting addresses: once a ping has found an address in use,
the server does not offer it before the time until which it is blocklisted.

A blocklisted entry is an ordinary dynamic lease with an all-zero hardware
address, so the argument is that no lookup by hardware address, no reuse of an
expired entry and no removal gets at it. A client that really has the all-zero
address gets at it at once: `packetHandler` accepts it, and `findLease` hands
out the blocklisted entry.
-/

namespace FirewallCore.Dhcpd.V4Server

open FirewallCore.Net FirewallCore.Lib

variable {nu : Netutil} {s s' : V4Server} {p q : Ptr} {i : Nat} {X : Addr} {T : Time}

/-- No clock that the handler of a message reads is past `T`. -/
def NotAfter (T : Time) (env : Readings) : Prop :=
  env.now ≤ T ∧ ∀ r ∈ env.rounds, r.now ≤ T ∧ r.stamp ≤ T

instance (T : Time) (env : Readings) : Decidable (NotAfter T env) :=
  inferInstanceAs (Decidable (_ ∧ _))

/-- The step happens at `T` at the latest. The administrator's calls read no clock. -/
def OpNotAfter (T : Time) : Op → Prop
  | .handle _ env => NotAfter T env
  | .packet _ env => NotAfter T env
  | _ => True

/-- The condition on a message while `X` is blocklisted: its client does not have the
hardware address of blocklisted entries. A DHCPDECLINE for which no address is
left is answered with `0.0.0.0`. -/
def QuarantineMsg (X : Addr) (T : Time) (req : Msg) (env : Readings) : Prop :=
  NotAfter T env ∧ req.clientHWAddr ≠ blocklistMAC ∧
    (req.messageType = .decline → X ≠ .v4 0)

/-- The condition on a step while `X` is blocklisted until `T`. The administrator
does not reassign the address, nor remove the entry. -/
def QuarantineOp (nu : Netutil) (X : Addr) (T : Time) (s : V4Server) : Op → Prop
  | .addStaticLease l => ∀ l', checkStatic nu s l = .ok l' →
      l'.ip ≠ X ∧ l'.hwAddr ≠ blocklistMAC
  | .updateStaticLease l => l.hwAddr ≠ blocklistMAC
  | .removeStaticLease l => l.ip = X → l.hwAddr ≠ blocklistMAC
  | .resetLeases _ => False
  | .handle req env => QuarantineMsg X T req env
  | .packet req env => QuarantineMsg X T req env

/-! ### The invariant -/

structure Quarantined (X : Addr) (T : Time) (s : V4Server) : Prop where
  is4 : ∀ q ∈ s.leases.elems, (s.heap q).ip.is4 = true
  /-- The entry of the address is blocklisted until `T`. -/
  blocked : ∀ q ∈ s.leases.elems, (s.heap q).ip = X →
    (s.heap q).hwAddr = blocklistMAC ∧ (s.heap q).isStatic = false ∧ T ≤ (s.heap q).expiry
  /-- There is one, and `UpdateStaticLease` finds it. -/
  listed : ∃ p ∈ s.leases.elems, (s.heap p).ip = X ∧ s.ipIndex X = some p
  /-- The address is not free. -/
  marked : ∀ o, s.offset X = (o, true) → s.leasedOffsets.isSet o = true

namespace Quarantined

theorem isV4 (inv : Quarantined X T s) : X.is4 = true := by
  obtain ⟨p, member, rfl, -⟩ := inv.listed
  exact inv.is4 p member

/-- A lease of another address has another slice of bytes. -/
theorem asSlice_ne (inv : Quarantined X T s) {ip : Addr} (is4 : ip.is4 = true) (ne : ip ≠ X) :
    ip.asSlice ≠ X.asSlice := by
  intro same
  have isV4 := inv.isV4
  cases ip with
  | v4 m =>
    cases X with
    | v4 n =>
      simp only [Addr.asSlice, IP.four.injEq] at same
      exact ne (by rw [same])
    | zero => simp [Addr.is4] at isV4
    | v6 n zone => simp [Addr.is4] at isV4
  | zero => simp [Addr.is4] at is4
  | v6 m zone => simp [Addr.is4] at is4

theorem asSlice_ne_nil (inv : Quarantined X T s) : X.asSlice ≠ .nil := by
  have isV4 := inv.isV4
  intro same
  cases X with
  | v4 n => simp [Addr.asSlice] at same
  | zero => simp [Addr.is4] at isV4
  | v6 n zone => simp [Addr.is4] at isV4

/-- An entry with another hardware address, or one that has expired before `T`, is
not that of `X`. -/
theorem ip_ne (inv : Quarantined X T s) (member : q ∈ s.leases.elems)
    (other : (s.heap q).hwAddr ≠ blocklistMAC ∨ (s.heap q).expiry < T) :
    (s.heap q).ip ≠ X := by
  intro same
  obtain ⟨mac, -, later⟩ := inv.blocked q member same
  rcases other with ne | before
  · exact ne mac
  · exact absurd later (Int.not_le.mpr before)

/-- The entries of `X` stay, up to their hostname, and the others stay others. -/
theorem update (inv : Quarantined X T s) (conf : s'.conf = s.conf)
    (entries : ∀ q ∈ s'.leases.elems, ((s'.heap q).ip.is4 = true ∧ (s'.heap q).ip ≠ X) ∨
      (q ∈ s.leases.elems ∧ ∃ hostname, s'.heap q = { s.heap q with hostname := hostname }))
    (kept : ∀ q ∈ s.leases.elems, (s.heap q).ip = X →
      q ∈ s'.leases.elems ∧ (s'.heap q).ip = X)
    (index : s'.ipIndex X = s.ipIndex X)
    (bits : ∀ o, s.offset X = (o, true) → s.leasedOffsets.isSet o = true →
      s'.leasedOffsets.isSet o = true) : Quarantined X T s' := by
  refine ⟨?_, ?_, ?_, ?_⟩
  · intro q member
    rcases entries q member with ⟨is4, -⟩ | ⟨old, hostname, same⟩
    · exact is4
    · rw [same]
      exact inv.is4 q old
  · intro q member isX
    rcases entries q member with ⟨-, ne⟩ | ⟨old, hostname, same⟩
    · exact absurd isX ne
    · rw [same] at isX ⊢
      exact inv.blocked q old isX
  · obtain ⟨p, member, isX, found⟩ := inv.listed
    obtain ⟨member', isX'⟩ := kept p member isX
    exact ⟨p, member', isX', index.trans found⟩
  · intro o off
    rw [offset_congr conf] at off
    exact bits o off (inv.marked o off)

theorem new (inv : Quarantined X T s) (wf : Wf s) (l : Lease) : Quarantined X T (s.new l) := by
  have same : ∀ q ∈ s.leases.elems, (s.new l).heap q = s.heap q := fun q member =>
    heap_new_of_lt s l (wf.bounded q member)
  refine inv.update rfl ?_ ?_ ?_ ?_
  · intro q member
    exact .inr ⟨member, _, same q member⟩
  · intro q member isX
    exact ⟨member, by rw [same q member, isX]⟩
  · rfl
  · exact fun _ _ set => set

theorem modify (inv : Quarantined X T s) {f : Lease → Lease} (keeps : ∀ l, (f l).ip = l.ip)
    (other : (s.heap p).ip ≠ X) : Quarantined X T (s.modify p f) := by
  refine inv.update rfl ?_ ?_ ?_ ?_
  · intro q member
    by_cases here : q = p
    · subst here
      rw [heap_modify_self, keeps]
      exact .inl ⟨inv.is4 q member, other⟩
    · exact .inr ⟨member, _, heap_modify_of_ne _ _ here⟩
  · intro q member isX
    refine ⟨member, ?_⟩
    rw [heap_modify]
    split
    · rw [keeps, isX]
    · exact isX
  · rfl
  · exact fun _ _ set => set

theorem blankHostname (inv : Quarantined X T s) (lease p : Ptr) :
    Quarantined X T (s.blankHostname lease p) := by
  refine inv.update (blankHostname_conf ..) ?_ ?_ ?_ ?_
  · intro q member
    rw [blankHostname_leases] at member
    obtain ⟨hostname, same, -⟩ := blankHostname_lease s lease p q
    exact .inr ⟨member, hostname, same⟩
  · intro q member isX
    rw [blankHostname_leases, blankHostname_ip]
    exact ⟨member, isX⟩
  · rw [blankHostname_ipIndex]
  · intro o _ set
    rwa [blankHostname_leasedOffsets]

theorem rmLeaseByIndex (inv : Quarantined X T s) (entry : s.leases.elems[i]? = some p)
    (other : (s.heap p).ip ≠ X) : Quarantined X T (s.rmLeaseByIndex i) := by
  rcases rmLeaseByIndex_cases s i with ⟨outside, -⟩ | ⟨q, entry', removed⟩
  · rw [entry] at outside
    cases outside
  rw [entry] at entry'
  cases entry'
  refine inv.update (rmLeaseByIndex_conf ..) ?_ ?_ ?_ ?_
  · intro q member
    rw [removed] at member
    exact .inr ⟨List.mem_of_mem_eraseIdx member, _, by rw [rmLeaseByIndex_heap]⟩
  · intro q member isX
    rw [removed]
    obtain ⟨j, atJ⟩ := List.mem_iff_getElem?.mp member
    refine ⟨List.mem_eraseIdx_iff_getElem?.mpr ⟨j, ?_, atJ⟩, isX⟩
    rintro rfl
    rw [entry] at atJ
    cases atJ
    exact other isX
  · rw [removed]
    exact Function.update_of_ne (Ne.symm other) ..
  · intro o off set
    rw [removed]
    dsimp only
    split
    · rename_i inRange
      rw [BitSet.isSet_set]
      split
      · rename_i same
        subst same
        have here : s.offset (s.heap p).ip = ((s.offset (s.heap p).ip).1, true) :=
          Prod.ext rfl inRange
        exact absurd (eq_of_offset_eq (inv.is4 p (List.mem_of_getElem? entry)) inv.isV4 here off)
          other
      · exact set
    · exact set

theorem insertLease (inv : Quarantined X T s) (is4 : (s.heap p).ip.is4 = true)
    (other : (s.heap p).ip ≠ X) : Quarantined X T (s.insertLease p) := by
  refine inv.update rfl ?_ ?_ ?_ ?_
  · intro q member
    rcases List.mem_append.mp member with old | new
    · exact .inr ⟨old, _, rfl⟩
    · rw [List.mem_singleton.mp new]
      exact .inl ⟨is4, other⟩
  · intro q member isX
    exact ⟨List.mem_append_left _ member, isX⟩
  · exact Function.update_of_ne (Ne.symm other) ..
  · intro o _ set
    change (s.leasedOffsets.set _ true).isSet o = true
    rw [BitSet.isSet_set]
    split
    · rfl
    · exact set

theorem commit (inv : Quarantined X T s) (other : (s.heap p).ip ≠ X) (hostname : String)
    (now : Time) : Quarantined X T (s.commit p hostname now) := by
  refine inv.update rfl ?_ ?_ ?_ ?_
  · intro q member
    by_cases here : q = p
    · subst here
      rw [commit_ip]
      exact .inl ⟨inv.is4 q member, other⟩
    · exact .inr ⟨member, _, by rw [heap_commit, if_neg here]⟩
  · intro q member isX
    exact ⟨member, by rw [commit_ip, isX]⟩
  · exact Function.update_of_ne (Ne.symm other) ..
  · exact fun _ _ set => set

/-- A removal for a lease of another address and hardware address. -/
theorem rmDynamicLease (inv : Quarantined X T s) {lease : Ptr} {err : Option V4Err}
    (ip : (s.heap lease).ip ≠ X) (mac : (s.heap lease).hwAddr ≠ blocklistMAC)
    (done : s.rmDynamicLease lease = some (s', err)) : Quarantined X T s' := by
  refine (rmDynamicLease_preserves (I := fun t => Trimmed s t ∧ Quarantined X T t) ?_ ?_ done
    ⟨.refl s, inv⟩).2
  · rintro t i p ⟨trim, inv⟩ entry - hit
    refine ⟨trim.trans (.rmLeaseByIndex t i), inv.rmLeaseByIndex entry ?_⟩
    intro isX
    simp only [sameProperties, trim.ip lease, trim.hwAddr lease, Bool.or_eq_true,
      beq_iff_eq] at hit
    rcases hit with sameMAC | sameIP
    · exact mac (sameMAC.symm.trans (inv.blocked p (List.mem_of_getElem? entry) isX).1)
    · exact ip (sameIP.symm.trans isX)
  · rintro t q ⟨trim, inv⟩
    exact ⟨trim.trans (.blankHostname t lease q), inv.blankHostname lease q⟩

theorem rmLease (inv : Quarantined X T s) {l : Lease}
    (other : l.ip = X → l.hwAddr ≠ blocklistMAC) (done : s.rmLease l = .ok s') :
    Quarantined X T s' := by
  rcases rmLease_ok done with ⟨-, rfl⟩ | ⟨i, p, entry, ip, mac, -, rfl⟩
  · exact inv
  · apply inv.rmLeaseByIndex entry
    intro isX
    apply other (ip.symm.trans isX)
    rw [← mac]
    exact (inv.blocked p (List.mem_of_getElem? entry) isX).1

/-! ### Allocating while an address is blocklisted -/

/-- A lease reserved before `T` has another address. -/
theorem reserveLease (inv : Quarantined X T s) (wf : Wf s) {mac : HardwareAddr} {now : Time}
    {res : Except V4Err (Option Ptr)} (early : now ≤ T)
    (done : s.reserveLease mac now = (s', res)) :
    Quarantined X T s' ∧ ∀ p, res = .ok (some p) →
      (s'.heap p).ip.is4 = true ∧ (s'.heap p).ip ≠ X := by
  rcases reserveLease_cases done with ⟨-, rfl, rfl⟩ | ⟨-, i, p, -, entry, -, expired, rfl, rfl⟩ |
    ⟨n, o, off, clear, rfl, rfl⟩
  · exact ⟨inv, fun p h => by cases h⟩
  · have member := List.mem_of_getElem? entry
    have other := inv.ip_ne member (.inr (Int.lt_of_lt_of_le expired early))
    refine ⟨inv.modify (fun _ => rfl) other, ?_⟩
    rintro q ⟨⟩
    rw [reserveExpired, heap_modify_self]
    exact ⟨inv.is4 p member, other⟩
  · have other : Addr.v4 n ≠ X := by
      rintro rfl
      rw [inv.marked o off] at clear
      cases clear
    have same : ((s.new { ip := .v4 n, hwAddr := mac }).heap s.next).ip = .v4 n := by
      rw [heap_new_self]
    refine ⟨(inv.new wf _).insertLease (by rw [same]; rfl) (by rwa [same]), ?_⟩
    rintro q ⟨⟩
    rw [reserveFresh, insertLease_heap, same]
    exact ⟨rfl, other⟩

theorem allocateLease (inv : Quarantined X T s) (wf : Wf s) {mac : HardwareAddr}
    {rounds : List Round} {a : Allocation} (early : ∀ r ∈ rounds, r.now ≤ T ∧ r.stamp ≤ T)
    (done : V4Server.allocateLease mac s [] rounds = some a) :
    Quarantined X T a.server ∧ ∀ p, a.lease = .ok (some p) →
      (a.server.heap p).ip.is4 = true ∧ (a.server.heap p).ip ≠ X := by
  obtain ⟨k, r, t, round, ⟨wf₁, inv₁⟩, last, -⟩ :=
    allocateLease_last (I := fun _ t _ => Wf t ∧ Quarantined X T t)
      (fun _ _ _ r _ p listed inv reserved _ =>
        have next := inv.2.reserveLease inv.1 (early r (List.mem_of_getElem? listed)).1 reserved
        ⟨(inv.1.reserveLease reserved).1.blocklistLease p r.stamp,
          next.1.modify (fun _ => rfl) (next.2 p rfl).2⟩)
      done ⟨wf, inv⟩
  exact inv₁.reserveLease wf₁ (early r (List.mem_of_getElem? round)).1 last

/-! ### Messages while an address is blocklisted -/

theorem handleDecline (inv : Quarantined X T s) (wf : Wf s) {req : Msg} {env : Readings}
    {h : Handled} (early : NotAfter T env) (mac : req.clientHWAddr ≠ blocklistMAC)
    (nonzero : X ≠ .v4 0) (done : s.handleDecline req env = some h) :
    Quarantined X T h.server ∧ h.resp.yourIPAddr ≠ X.asSlice := by
  have notNil := Ne.symm inv.asSlice_ne_nil
  have notZero : IP.four 0 ≠ X.asSlice := 
    inv.asSlice_ne (show (Addr.v4 0).is4 = true from rfl) (Ne.symm nonzero)
  rcases handleDecline_inv done with unmoved | ⟨old, s₁, err, found, removed, rest⟩
  · rw [unmoved.server, unmoved.yourIPAddr]
    exact ⟨inv, notNil⟩
  obtain ⟨member, hisMAC, -⟩ := findLeaseForIP_some found
  have hisMAC : (s.heap old).hwAddr ≠ blocklistMAC := by rwa [hisMAC]
  have inv₁ := inv.rmDynamicLease (inv.ip_ne member (.inl hisMAC)) hisMAC removed
  have wf₁ := wf.trimmed (.rmDynamicLease removed)
  rcases rest with unmoved | ⟨-, a, allocated, -, ⟨-, same, none | zero⟩ | ⟨p, lease, rest⟩⟩
  · rw [unmoved.server, unmoved.yourIPAddr]
    exact ⟨inv₁, notNil⟩
  · rw [same, none]
    exact ⟨(inv₁.allocateLease wf₁ early.2 allocated).1, notNil⟩
  · rw [same, zero]
    exact ⟨(inv₁.allocateLease wf₁ early.2 allocated).1, notZero⟩
  obtain ⟨inv₂, fresh⟩ := inv₁.allocateLease wf₁ early.2 allocated
  obtain ⟨is4, other⟩ := fresh p lease
  have inv₃ : Quarantined X T (a.server.takeOver old p env.now) := inv₂.modify (fun _ => rfl) other
  have ip : ((a.server.takeOver old p env.now).heap p).ip = (a.server.heap p).ip := by
    rw [takeOver, heap_modify_self]
  rcases rest with ⟨-, same, none⟩ | ⟨added, answer⟩
  · rw [same, none]
    exact ⟨inv₃, notNil⟩
  · obtain ⟨same, -⟩ := addLease_ok added
    rw [answer, same, insertLease_heap, ip]
    exact ⟨inv₃.insertLease (by rwa [ip]) (by rwa [ip]), inv.asSlice_ne is4 other⟩

/-- A message from a client with another hardware address is not answered with the
blocklisted address, and leaves it blocklisted. -/
theorem handle (inv : Quarantined X T s) (wf : Wf s) {req : Msg} {env : Readings} {h : Handled}
    (guard : QuarantineMsg X T req env) (done : s.handle nu req env = some h) :
    Quarantined X T h.server ∧ h.resp.yourIPAddr ≠ X.asSlice := by
  obtain ⟨early, mac, nonzero⟩ := guard
  have notNil := Ne.symm inv.asSlice_ne_nil
  rcases handle_inv done with unmoved | ⟨-, done⟩ | ⟨-, self, -, done⟩ | ⟨type, done⟩ | ⟨-, done⟩
  · rw [unmoved.server, unmoved.yourIPAddr]
    exact ⟨inv, notNil⟩
  · rcases handleDiscover_inv done with ⟨p, found, same, -, answer⟩ |
      ⟨-, a, allocated, same, -, none | ⟨p, lease, answer⟩⟩
    · obtain ⟨member, hisMAC⟩ := findLease_some found
      rw [same, answer]
      have other := inv.ip_ne member (.inl (by rwa [hisMAC]))
      exact ⟨inv, inv.asSlice_ne (inv.is4 p member) other⟩
    · rw [same, none]
      exact ⟨(inv.allocateLease wf early.2 allocated).1, notNil⟩
    · obtain ⟨inv₁, fresh⟩ := inv.allocateLease wf early.2 allocated
      obtain ⟨is4, other⟩ := fresh p lease
      rw [same, answer]
      exact ⟨inv₁, inv.asSlice_ne is4 other⟩
  · rcases handleRequest_inv done with unmoved | ⟨p, _, -, member, hisMAC, finished⟩
    · rw [unmoved.server, unmoved.yourIPAddr]
      exact ⟨inv, notNil⟩
    · have other := inv.ip_ne member (.inl (by rwa [hisMAC]))
      obtain ⟨-, answer, ⟨-, same⟩ | ⟨-, hostname, -, same⟩⟩ := finishRequest_inv finished
      · rw [same, answer]
        exact ⟨inv, inv.asSlice_ne (inv.is4 p member) other⟩
      · rw [same, answer]
        exact ⟨inv.commit other hostname env.now, inv.asSlice_ne (inv.is4 p member) other⟩
  · exact inv.handleDecline wf early mac (nonzero type) done
  · obtain ⟨-, none, same | ⟨ip, err, -, released⟩⟩ := handleRelease_inv done
    · rw [same, none]
      exact ⟨inv, notNil⟩
    · rw [none]
      refine ⟨(release_preserves (I := fun t => Trimmed s t ∧ Quarantined X T t) ?_ released
        ⟨.refl s, inv⟩).2, notNil⟩
      rintro t p t' err ⟨trim, inv₁⟩ member hisMAC - removed
      have other : (t.heap p).ip ≠ X := by
        rw [trim.ip]
        exact inv.ip_ne member (.inl (by rwa [← trim.hwAddr, hisMAC]))
      exact ⟨trim.trans (.rmDynamicLease removed),
        inv₁.rmDynamicLease other (by rwa [hisMAC]) removed⟩

/-! ### Steps while an address is blocklisted -/

theorem addStaticLease (inv : Quarantined X T s) (wf : Wf s) {l : Lease} {err : Option V4Err}
    (guard : QuarantineOp nu X T s (.addStaticLease l))
    (done : s.addStaticLease nu l = some (s', err)) : Quarantined X T s' := by
  rcases addStaticLease_inv done with rfl | ⟨l', s₁, err₁, checked, removed, rest⟩
  · exact inv
  obtain ⟨ip, mac⟩ := guard l' checked
  have trim := Trimmed.rmDynamicLease removed
  have inv₁ : Quarantined X T s₁ := by
    refine (inv.new wf l').rmDynamicLease ?_ ?_ removed
    · rwa [heap_new_self]
    · rwa [heap_new_self]
  rcases rest with rfl | ⟨-, added⟩
  · exact inv₁
  obtain ⟨rfl, -⟩ := addLease_ok added
  have same : (s₁.heap s.next).ip = l'.ip := by rw [trim.ip, heap_new_self]
  apply inv₁.insertLease
  · rw [same]
    exact (checkStatic_ok checked).2.2.1
  · rwa [same]

/-- `UpdateStaticLease` refuses the blocklisted address, which its entry has under
another hardware address. -/
theorem updateStaticLease (inv : Quarantined X T s) (wf : Wf s) {l : Lease}
    {err : Option V4Err} (mac : l.hwAddr ≠ blocklistMAC)
    (done : s.updateStaticLease nu l = (s', err)) : Quarantined X T s' := by
  rcases updateStaticLease_inv done with rfl | ⟨found, l', s₁, lookup, valid, removed, rest⟩
  · exact inv
  obtain ⟨member, hisMAC⟩ := findLease_some lookup
  obtain ⟨⟨hostname, rfl, -⟩, sameMAC, inSubnet⟩ := validateStaticLease_ok valid
  have inv₁ : Quarantined X T s₁ := inv.rmLease (fun _ => by rwa [hisMAC]) removed
  have inv₂ := inv₁.new (wf.trimmed (.rmLease removed)) { l with hostname := hostname }
  rcases rest with rfl | added
  · exact inv₂
  obtain ⟨rfl, -⟩ := addLease_ok added
  apply inv₂.insertLease
  · rw [heap_new_self]
    exact wf.conf.subnet_is4 _ inSubnet
  · rw [heap_new_self]
    intro isX
    obtain ⟨p, listed, atX, indexed⟩ := inv.listed
    have isX : l.ip = X := isX
    rw [← isX] at indexed
    apply mac
    rw [← sameMAC p indexed]
    exact (inv.blocked p listed atX).1

theorem step (inv : Quarantined X T s) (wf : Wf s) {op : Op} {answer : Answer}
    (guard : QuarantineOp nu X T s op) (done : V4Server.step nu s op = some (s', answer)) :
    Quarantined X T s' := by
  refine step_keeps inv ?_ done
  cases op with
  | addStaticLease l => exact fun _ => inv.addStaticLease wf guard
  | updateStaticLease l => exact fun _ => inv.updateStaticLease wf guard
  | removeStaticLease l => exact inv.rmLease guard
  | resetLeases leases => exact guard.elim
  | handle req env => exact fun _ handled => (inv.handle wf guard handled).1
  | packet req env => exact fun _ _ handled => (inv.handle wf guard handled).1

end Quarantined

/-! ### The conflict -/

/-- The condition on the state in which a message finds an address in use: entries
have different addresses, none of which counts as free, and a lease to be
declined is listed once. -/
structure ConflictState (s : V4Server) (req : Msg) : Prop where
  addr : AddrInv s
  once : req.messageType = .decline → ∀ ip, addrFromSlice req.targetIP = some ip →
    ListedOnce s (DynamicFor req.clientHWAddr ip)

/-- The round that logs a conflict blocklists the address. -/
theorem AddrInv.quarantined (inv : AddrInv s) (wf : Wf s) {s₁ : V4Server} {mac : HardwareAddr}
    {now : Time} (reserved : s.reserveLease mac now = (s₁, .ok (some p))) (stamp : Time) :
    Quarantined (s₁.heap p).ip (stamp + s₁.leaseTime) (s₁.blocklistLease p stamp) := by
  obtain ⟨-, listed⟩ := wf.reserveLease reserved
  have member := listed p rfl
  have inv₁ := (inv.reserveLease reserved).blocklistLease p stamp
  have ip : ((s₁.blocklistLease p stamp).heap p).ip = (s₁.heap p).ip := by
    rw [V4Server.blocklistLease, heap_modify_self]
  obtain ⟨entry, -⟩ := conflict_round inv.bounded reserved stamp
  refine ⟨inv₁.is4, ?_, ⟨p, member, ip, ?_⟩, ?_⟩
  · intro q other same
    obtain rfl := inv₁.eq_of_ip_eq other member (same.trans ip.symm)
    rw [entry]
    refine ⟨rfl, rfl, ?_⟩
    rw [leaseTime_congr (reserveLease_conf reserved)]
    exact Int.le_refl _
  · rw [← ip]
    exact inv₁.indexed p member
  · intro o off
    exact inv₁.leased p member o (by rw [ip]; exact off)

/-- An allocation leaves every address it has logged blocklisted, unless the time of
that is over before it ends. -/
theorem AddrInv.allocateLease_quarantined (inv : AddrInv s) (wf : Wf s) {mac : HardwareAddr}
    {rounds : List Round} {a : Allocation} (early : ∀ r ∈ rounds, r.now ≤ T ∧ r.stamp ≤ T)
    (done : allocateLease mac s [] rounds = some a) (logged : (X, T) ∈ a.conflicts) :
    Quarantined X T a.server ∧ ∀ p, a.lease = .ok (some p) →
      (a.server.heap p).ip.is4 = true ∧ (a.server.heap p).ip ≠ X := by
  obtain ⟨k, r, t, round, ⟨wf₁, -, inv₁⟩, last, -⟩ :=
    allocateLease_last
      (I := fun _ t conflicts => Wf t ∧ AddrInv t ∧ ((X, T) ∈ conflicts → Quarantined X T t))
      (by
        rintro k t conflicts r t₁ p listed ⟨wf, inv, old⟩ reserved -
        refine ⟨(wf.reserveLease reserved).1.blocklistLease p r.stamp,
          (inv.reserveLease reserved).blocklistLease p r.stamp, ?_⟩
        intro logged
        rcases List.mem_cons.mp logged with new | before
        · cases new
          exact inv.quarantined wf reserved r.stamp
        · have soon := (early r (List.mem_of_getElem? listed)).1
          obtain ⟨kept, fresh⟩ := (old before).reserveLease wf soon reserved
          exact kept.modify (fun _ => rfl) (fresh p rfl).2)
      done ⟨wf, inv, fun none => by cases none⟩
  exact (inv₁ logged).reserveLease wf₁ (early r (List.mem_of_getElem? round)).1 last

/-- Whatever message an address was found in use for, it is blocklisted when the
message has been handled. -/
theorem ConflictState.quarantined {req : Msg} {env : Readings} {h : Handled}
    (sound : ConflictState s req) (wf : Wf s) (early : NotAfter T env)
    (done : s.handle nu req env = some h) (logged : (X, T) ∈ h.conflicts) :
    Quarantined X T h.server := by
  rcases handle_inv done with unmoved | ⟨-, done⟩ | ⟨-, self, -, done⟩ | ⟨type, done⟩ | ⟨-, done⟩
  · rw [unmoved.conflicts] at logged
    cases logged
  · rcases handleDiscover_inv done with ⟨p, -, -, none, -⟩ | ⟨-, a, allocated, same, log, -⟩
    · rw [none] at logged
      cases logged
    · rw [same]
      rw [log] at logged
      exact (sound.addr.allocateLease_quarantined wf early.2 allocated logged).1
  · rcases handleRequest_inv done with unmoved | ⟨p, _, -, -, -, finished⟩
    · rw [unmoved.conflicts] at logged
      cases logged
    · rw [(finishRequest_inv finished).1] at logged
      cases logged
  · rcases handleDecline_inv done with unmoved | ⟨old, s₁, err, found, removed, rest⟩
    · rw [unmoved.conflicts] at logged
      cases logged
    obtain ⟨-, mac, target⟩ := findLeaseForIP_some found
    have once := sound.once type _ target
    rw [← mac] at once
    have inv₁ := sound.addr.rmDynamicLease once removed
    have wf₁ := wf.trimmed (.rmDynamicLease removed)
    rcases rest with unmoved | ⟨-, a, allocated, log, rest⟩
    · rw [unmoved.conflicts] at logged
      cases logged
    rw [log] at logged
    obtain ⟨inv₂, fresh⟩ := inv₁.allocateLease_quarantined wf₁ early.2 allocated logged
    rcases rest with ⟨-, same, -⟩ | ⟨p, lease, rest⟩
    · rwa [same]
    -- the lease that takes over was reserved after the conflict
    obtain ⟨is4, other⟩ := fresh p lease
    have inv₃ : Quarantined X T (a.server.takeOver old p env.now) :=
      inv₂.modify (fun _ => rfl) other
    have ip : ((a.server.takeOver old p env.now).heap p).ip = (a.server.heap p).ip := by
      rw [takeOver, heap_modify_self]
    rcases rest with ⟨-, same, -⟩ | ⟨added, -⟩
    · rwa [same]
    · obtain ⟨same, -⟩ := addLease_ok added
      rw [same]
      exact inv₃.insertLease (by rwa [ip]) (by rwa [ip])
  · rw [(handleRelease_inv done).1] at logged
    cases logged

/-! ### Runs -/

/-- A run in which a packet finds `X` in use and blocklists it until `T`, and a later
packet is answered with `resp`. `ok₀` is the condition on the first packet and
`ok` that on the steps behind it. -/
inductive QuarantineRun (nu : Netutil) (ok₀ : V4Server → Msg → Prop)
    (ok : V4Server → Op → Prop) (X : Addr) (T : Time) (resp : Response) : Prop where
  | mk (conf : V4ServerConf) {s s₁ s₂ s₃ : V4Server} {req₀ req : Msg} {env₀ env : Readings}
      {code₀ code : Int} {resp₀ : Response} {conflicts₀ conflicts : List Conflict}
      (before : Reaches (V4Server.step nu) (fun _ _ => True) (v4Create conf).1 s)
      (sound : ok₀ s req₀) (early : NotAfter T env₀)
      (conflict : V4Server.step nu s (.packet req₀ env₀) =
        some (s₁, .dhcp code₀ resp₀ conflicts₀))
      (logged : (X, T) ∈ conflicts₀) (after : Reaches (V4Server.step nu) ok s₁ s₂)
      (guard : ok s₂ (.packet req env))
      (answered : V4Server.step nu s₂ (.packet req env) = some (s₃, .dhcp code resp conflicts))

/-- In every run whose steps meet the conditions, no packet is answered with an
address before the time until which it is blocklisted. -/
theorem quarantine_kept {resp : Response}
    (run : QuarantineRun nu ConflictState (QuarantineOp nu X T) X T resp) :
    resp.yourIPAddr ≠ X.asSlice := by
  obtain ⟨conf, before, sound, early, conflict, logged, after, guard, answered⟩ := run
  have wf := before.invariant (v4Create_wf conf) fun _ _ _ _ wf _ taken => wf.step taken
  have wf₁ := wf.step conflict
  obtain ⟨h, handled, same⟩ := Option.map_eq_some_iff.mp conflict
  cases same
  have inv₁ : Quarantined X T h.server := by
    rcases packetHandler_inv handled with unmoved | ⟨-, h', handled', server, log, -⟩
    · rw [unmoved.conflicts] at logged
      cases logged
    · rw [server]
      rw [log] at logged
      exact sound.quarantined wf early handled' logged
  obtain ⟨wf₂, inv₂⟩ := after.invariant (I := fun s => Wf s ∧ Quarantined X T s) ⟨wf₁, inv₁⟩
    fun _ _ _ _ inv guard taken => ⟨inv.1.step taken, inv.2.step inv.1 guard taken⟩
  obtain ⟨g, handled₂, same₂⟩ := Option.map_eq_some_iff.mp answered
  cases same₂
  rcases packetHandler_inv handled₂ with unmoved | ⟨-, g', handled', -, -, answer⟩
  · rw [unmoved.yourIPAddr]
    exact Ne.symm inv₂.asSlice_ne_nil
  · rw [answer]
    exact (inv₂.handle wf₂ guard handled').2

/-- One ping of the first address answered, and one of the next address not. -/
def busyThenQuiet : Readings := ⟨[⟨10, false, 10⟩, ⟨10, true, 10⟩], 10⟩

/-- While `192.168.10.100` is blocklisted, the next client gets the third address. -/
theorem quarantine_kept_third :
    ∃ resp, QuarantineRun .ascii ConflictState
        (QuarantineOp .ascii (hostAddr 100) (10 + day)) (hostAddr 100) (10 + day) resp ∧
      resp.yourIPAddr = (hostAddr 102).asSlice ∧ resp.yourIPAddr ≠ (hostAddr 100).asSlice := by
  let first : Op := .packet { messageType := .discover, clientHWAddr := clientMAC 1 } busyThenQuiet
  let second : Op := .packet { messageType := .discover, clientHWAddr := clientMAC 2 } (quiet 20)
  have answers : ((V4Server.step .ascii (v4Create smallConf).1 first).bind fun out =>
      (V4Server.step .ascii out.1 second).map fun out' => (out.2, out'.2)) = some
        (.dhcp 1 { messageType := some .offer, yourIPAddr := (hostAddr 101).asSlice }
            [(hostAddr 100, 10 + day)],
          .dhcp 1 { messageType := some .offer, yourIPAddr := (hostAddr 102).asSlice } []) := by
    decide
  obtain ⟨⟨s₁, answer₁⟩, taken₁, rest⟩ := Option.bind_eq_some_iff.mp answers
  obtain ⟨⟨s₂, answer₂⟩, taken₂, same⟩ := Option.map_eq_some_iff.mp rest
  cases same
  have run : QuarantineRun .ascii ConflictState
      (QuarantineOp .ascii (hostAddr 100) (10 + day)) (hostAddr 100) (10 + day)
      { messageType := some .offer, yourIPAddr := (hostAddr 102).asSlice } :=
    .mk smallConf .refl ⟨v4Create_addrInv smallConf, by simp⟩ (by decide) taken₁ (by simp) .refl
      ⟨by decide, by decide, by simp⟩ taken₂
  exact ⟨_, run, rfl, quarantine_kept run⟩

/-- A client with the all-zero hardware address is offered the blocklisted address. -/
theorem quarantine_broken : ¬∀ (nu : Netutil) (X : Addr) (T : Time) (resp : Response),
    QuarantineRun nu (fun _ _ => True) (fun _ op => OpNotAfter T op) X T resp →
      resp.yourIPAddr ≠ X.asSlice := by
  intro kept
  let first : Op := .packet { messageType := .discover, clientHWAddr := clientMAC 1 } busyThenQuiet
  let second : Op := .packet { messageType := .discover, clientHWAddr := blocklistMAC } (quiet 20)
  have answers : ((V4Server.step .ascii (v4Create smallConf).1 first).bind fun out =>
      (V4Server.step .ascii out.1 second).map fun out' => (out.2, out'.2)) = some
        (.dhcp 1 { messageType := some .offer, yourIPAddr := (hostAddr 101).asSlice }
            [(hostAddr 100, 10 + day)],
          .dhcp 1 { messageType := some .offer, yourIPAddr := (hostAddr 100).asSlice } []) := by
    decide
  obtain ⟨⟨s₁, answer₁⟩, taken₁, rest⟩ := Option.bind_eq_some_iff.mp answers
  obtain ⟨⟨s₂, answer₂⟩, taken₂, same⟩ := Option.map_eq_some_iff.mp rest
  cases same
  exact kept .ascii (hostAddr 100) (10 + day) _
    (.mk smallConf .refl trivial (by decide) taken₁ (by simp) .refl
      (show NotAfter (10 + day) (quiet 20) by decide) taken₂) rfl

end FirewallCore.Dhcpd.V4Server
