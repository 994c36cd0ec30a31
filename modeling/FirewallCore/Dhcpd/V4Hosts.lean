import FirewallCore.Lib.Run
import FirewallCore.Dhcpd.V4AddrInv

/-!
The index of hostnames: `hostsIndex` is to map exactly the hostnames of the
entries to these entries.

Hostnames are written in five places, and three of them forget the index.
`rmDynamicLease` empties the hostname of an entry that stays, `blocklistLease`
empties that of a reused entry, and `handleDecline` overwrites it; the old key
stays behind. `commitLease` may also generate a hostname that another entry has.
`HostOp` excludes these, along with the ways in which two entries get one
address, since `HostByIP` goes through the index of addresses.
-/

namespace FirewallCore.Dhcpd.V4Server

open FirewallCore.Net FirewallCore.Lib

variable {nu : Netutil} {s s' : V4Server} {p q : Ptr} {i : Nat}

/-- A hostname is mapped to a lease exactly when the lease is in the table and has
that hostname, which is not empty. -/
def HostInv (s : V4Server) : Prop :=
  ∀ h p, s.hostsIndex h = some p ↔ p ∈ s.leases.elems ∧ (s.heap p).hostname = h ∧ h ≠ ""

namespace HostInv

/-- Leases with the same hostname are the same lease. -/
theorem eq_of_hostname_eq (inv : HostInv s) (hp : p ∈ s.leases.elems) (hq : q ∈ s.leases.elems)
    (same : (s.heap p).hostname = (s.heap q).hostname) (named : (s.heap q).hostname ≠ "") :
    p = q := by
  have atP := (inv _ p).mpr ⟨hp, same, named⟩
  have atQ := (inv _ q).mpr ⟨hq, rfl, named⟩
  rw [atP] at atQ
  exact Option.some.inj atQ

theorem empty (inv : HostInv s) : s.hostsIndex "" = none := by
  cases found : s.hostsIndex "" with
  | none => rfl
  | some p => exact absurd rfl ((inv "" p).mp found).2.2

/-- The hostname part of a state: whatever else changes, the invariant stays. -/
theorem congr (inv : HostInv s) (index : s'.hostsIndex = s.hostsIndex)
    (elems : s'.leases.elems = s.leases.elems)
    (names : ∀ p ∈ s.leases.elems, (s'.heap p).hostname = (s.heap p).hostname) : HostInv s' := by
  intro h p
  rw [index, elems, inv h p]
  constructor
  · rintro ⟨member, name, named⟩
    exact ⟨member, (names p member).trans name, named⟩
  · rintro ⟨member, name, named⟩
    exact ⟨member, (names p member).symm.trans name, named⟩

theorem new (inv : HostInv s) (wf : Wf s) (l : Lease) : HostInv (s.new l) :=
  inv.congr rfl rfl fun p member => by rw [heap_new_of_lt s l (wf.bounded p member)]

theorem modify (inv : HostInv s) {f : Lease → Lease}
    (keeps : p ∈ s.leases.elems → (f (s.heap p)).hostname = (s.heap p).hostname) :
    HostInv (s.modify p f) := by
  refine inv.congr rfl rfl ?_
  intro q member
  rw [heap_modify]
  split
  · rename_i here
    subst here
    exact keeps member
  · rfl

/-- Removing an entry takes its key out, and no other entry has that key. -/
theorem rmLeaseByIndex (inv : HostInv s)
    (once : ∀ p, s.leases.elems[i]? = some p → p ∉ s.leases.elems.eraseIdx i) :
    HostInv (s.rmLeaseByIndex i) := by
  rcases rmLeaseByIndex_cases s i with ⟨-, same⟩ | ⟨p, entry, removed⟩
  · rwa [same]
  intro h q
  rw [removed]
  change Function.update s.hostsIndex (s.heap p).hostname none h = some q ↔
    q ∈ s.leases.elems.eraseIdx i ∧ (s.heap q).hostname = h ∧ h ≠ ""
  by_cases here : h = (s.heap p).hostname
  · subst here
    rw [Function.update_self]
    constructor
    · intro none
      cases none
    · rintro ⟨left, name, named⟩
      obtain rfl := inv.eq_of_hostname_eq (List.mem_of_mem_eraseIdx left)
        (List.mem_of_getElem? entry) name named
      exact absurd left (once q entry)
  · rw [Function.update_of_ne here, inv h q]
    constructor
    · rintro ⟨member, name, named⟩
      obtain ⟨j, atJ⟩ := List.mem_iff_getElem?.mp member
      refine ⟨List.mem_eraseIdx_iff_getElem?.mpr ⟨j, ?_, atJ⟩, name, named⟩
      rintro rfl
      rw [entry] at atJ
      cases atJ
      exact here name.symm
    · rintro ⟨left, name, named⟩
      exact ⟨List.mem_of_mem_eraseIdx left, name, named⟩

/-- A lease that has no hostname yet, in the table or outside of it, is entered under
a hostname that is not in the index. -/
theorem enter (inv : HostInv s) {name : String}
    (nameless : p ∈ s.leases.elems → (s.heap p).hostname = "")
    (fresh : name ≠ "" → s.hostsIndex name = none)
    (members : ∀ q, q ∈ s'.leases.elems ↔ q ∈ s.leases.elems ∨ q = p)
    (atP : (s'.heap p).hostname = name)
    (others : ∀ q ∈ s.leases.elems, q ≠ p → (s'.heap q).hostname = (s.heap q).hostname)
    (index : s'.hostsIndex =
      if name = "" then s.hostsIndex else Function.update s.hostsIndex name (some p)) :
    HostInv s' := by
  intro h q
  have old : q ≠ p → (q ∈ s'.leases.elems ∧ (s'.heap q).hostname = h ∧ h ≠ "" ↔
      s.hostsIndex h = some q) := by
    intro ne
    rw [inv h q, members]
    constructor
    · rintro ⟨member | rfl, hostname, named⟩
      · exact ⟨member, by rw [← others q member ne, hostname], named⟩
      · exact absurd rfl ne
    · rintro ⟨member, hostname, named⟩
      exact ⟨.inl member, by rw [others q member ne, hostname], named⟩
  have notP : s.hostsIndex h ≠ some p := by
    intro found
    obtain ⟨member, hostname, named⟩ := (inv h p).mp found
    exact named (hostname.symm.trans (nameless member))
  by_cases here : h = name ∧ name ≠ ""
  · obtain ⟨rfl, named⟩ := here
    rw [index, if_neg named, Function.update_self]
    constructor
    · intro same
      cases same
      exact ⟨(members p).mpr (.inr rfl), atP, named⟩
    · intro found
      by_cases isP : q = p
      · rw [isP]
      · have known := (old isP).mp found
        rw [fresh named] at known
        cases known
  · have unchanged : s'.hostsIndex h = s.hostsIndex h := by
      rw [index]
      split
      · rfl
      · rename_i named
        exact Function.update_of_ne (fun same => here ⟨same, named⟩) ..
    rw [unchanged]
    by_cases isP : q = p
    · subst isP
      constructor
      · intro found
        exact absurd found notP
      · rintro ⟨-, hostname, named⟩
        rw [atP] at hostname
        subst hostname
        exact absurd ⟨rfl, named⟩ here
    · exact (old isP).symm

theorem insertLease (inv : HostInv s) (absent : p ∉ s.leases.elems)
    (fresh : (s.heap p).hostname ≠ "" → s.hostsIndex (s.heap p).hostname = none) :
    HostInv (s.insertLease p) := by
  refine inv.enter (p := p) (fun member => absurd member absent) fresh ?_ rfl
    (fun _ _ _ => rfl) rfl
  intro q
  simp

/-- A commit writes a hostname that is the old one, empty, or not in the index. -/
theorem commit (inv : HostInv s) (member : p ∈ s.leases.elems) {name : String} (now : Time)
    (settled : name = (s.heap p).hostname ∨ name = "" ∨ s.hostsIndex name = none) :
    HostInv (s.commit p name now) := by
  -- the table without the hostname of `p`, and without its key
  let t : V4Server := { s.modify p fun l => { l with hostname := "" } with
    hostsIndex := Function.update s.hostsIndex (s.heap p).hostname none }
  have invT : HostInv t := by
    intro h q
    change Function.update s.hostsIndex (s.heap p).hostname none h = some q ↔
      q ∈ s.leases.elems ∧ ((s.modify p fun l => { l with hostname := "" }).heap q).hostname = h ∧
        h ≠ ""
    rw [heap_modify]
    by_cases isP : q = p
    · subst isP
      rw [if_pos rfl]
      constructor
      · intro found
        exfalso
        by_cases here : h = (s.heap q).hostname
        · rw [here, Function.update_self] at found
          cases found
        · rw [Function.update_of_ne here] at found
          exact here ((inv h q).mp found).2.1.symm
      · rintro ⟨-, rfl, named⟩
        exact absurd rfl named
    · rw [if_neg isP]
      by_cases here : h = (s.heap p).hostname
      · subst here
        rw [Function.update_self]
        constructor
        · intro none
          cases none
        · rintro ⟨listed, hostname, named⟩
          exact absurd (inv.eq_of_hostname_eq listed member hostname named) isP
      · rw [Function.update_of_ne here]
        exact inv h q
  have fresh : name ≠ "" → t.hostsIndex name = none := by
    intro named
    change Function.update s.hostsIndex (s.heap p).hostname none name = none
    by_cases here : name = (s.heap p).hostname
    · rw [here, Function.update_self]
    · rw [Function.update_of_ne here]
      rcases settled with same | rfl | absent
      · exact absurd same here
      · exact absurd rfl named
      · exact absent
  refine invT.enter (p := p) (fun _ => by simp [t]) fresh ?_ ?_ ?_ ?_
  · intro q
    constructor
    · exact fun listed => .inl listed
    · rintro (listed | rfl)
      · exact listed
      · exact member
  · rw [heap_commit, if_pos rfl]
  · intro q _ ne
    rw [heap_commit, if_neg ne]
    simp [t, heap_modify_of_ne _ _ ne]
  · funext h
    simp only [V4Server.commit, t]
    by_cases empty : (s.heap p).hostname = ""
    · have cleared : Function.update s.hostsIndex "" none = s.hostsIndex := by
        rw [← inv.empty, Function.update_eq_self]
      simp [empty, cleared]
    · by_cases same : (s.heap p).hostname = name
      · rw [if_neg (show ¬((s.heap p).hostname ≠ "" ∧ (s.heap p).hostname ≠ name) from
          fun both => both.2 same)]
        have named : name ≠ "" := fun none => empty (same.trans none)
        rw [if_neg named, if_neg named, same, Function.update_idem]
      · simp [empty, same]

/-! ### The removal loop -/

/-- Emptying the hostname of a lease outside of the table is harmless. -/
theorem blankHostname (inv : HostInv s) {lease : Ptr}
    (safe : q ∈ s.leases.elems → (s.heap lease).hostname ≠ "" →
      (s.heap q).hostname ≠ (s.heap lease).hostname) : HostInv (s.blankHostname lease q) := by
  by_cases member : q ∈ s.leases.elems
  · rwa [blankHostname_eq_self (safe member)]
  · rcases blankHostname_cases s lease q with same | ⟨-, blanked⟩
    · rwa [same]
    · rw [blanked]
      exact inv.modify fun listed => absurd listed member

end HostInv

/-- For `rmDynamicLease` of a lease like `l`, every entry with the hostname of `l` is
static, or has to go itself, and none stands directly behind one that goes. -/
def NamesGo (s : V4Server) (l : Lease) : Prop :=
  l.hostname ≠ "" →
    (∀ q ∈ s.leases.elems, (s.heap q).hostname = l.hostname → (s.heap q).isStatic = false →
      sameProperties (s.heap q) l = true) ∧
    s.leases.elems.IsChain fun b c => sameProperties (s.heap b) l = true →
      (s.heap b).isStatic = false → (s.heap c).hostname ≠ l.hostname

theorem NamesGo.new {l : Lease} (names : NamesGo s l) (wf : Wf s) (l' : Lease) :
    NamesGo (s.new l') l := by
  have same : ∀ q ∈ s.leases.elems, (s.new l').heap q = s.heap q := fun q member =>
    heap_new_of_lt s l' (wf.bounded q member)
  intro named
  obtain ⟨go, chain⟩ := names named
  constructor
  · intro q member
    rw [same q member]
    exact go q member
  · refine chain.imp_of_mem_imp ?_
    intro b c hb hc apart
    rwa [same b hb, same c hc]

/-- A rule for the removal loop under `NamesGo`: it empties no hostname of an entry. -/
theorem NamesGo.rmDynamicLease {I : V4Server → Prop} {lease : Ptr} {err : Option V4Err}
    (names : NamesGo s (s.heap lease))
    (removal : ∀ t i p, Trimmed s t → I t → t.leases.elems[i]? = some p →
      (t.heap p).isStatic = false → sameProperties (t.heap p) (t.heap lease) = true →
      I (t.rmLeaseByIndex i))
    (blank : ∀ t q, I t → (q ∈ t.leases.elems → (t.heap lease).hostname ≠ "" →
      (t.heap q).hostname ≠ (t.heap lease).hostname) → I (t.blankHostname lease q))
    (done : s.rmDynamicLease lease = some (s', err)) (start : I s) : I s' := by
  refine (rmDynamicLease_rule (I := fun t => Trimmed s t ∧ I t)
    (N := fun q => (s.heap lease).hostname ≠ "" ∧ (s.heap q).hostname = (s.heap lease).hostname)
    ?_ ?_ done ⟨.refl s, start⟩ ?_ ?_).2
  · rintro t i p ⟨trim, inv⟩ entry isDynamic hit
    exact ⟨trim.trans (.rmLeaseByIndex t i), removal t i p trim inv entry isDynamic hit⟩
  · rintro t q ⟨trim, inv⟩ unnamed
    refine ⟨trim.trans (.blankHostname t lease q), blank t q inv ?_⟩
    intro member named same
    have named' : (t.heap q).hostname ≠ "" := by rwa [same]
    refine unnamed member ⟨?_, ?_⟩
    · rwa [← trim.hostname named]
    · rw [← trim.hostname named', ← trim.hostname named, same]
  · rintro q member ⟨named, same⟩ isDynamic
    exact (names named).1 q member same isDynamic
  · by_cases named : (s.heap lease).hostname = ""
    · refine (List.pairwise_of_forall_mem_list ?_).isChain
      rintro _ _ c - - - ⟨nonempty, -⟩
      exact nonempty named
    · refine (names named).2.imp ?_
      rintro b c apart hit isDynamic ⟨-, same⟩
      exact apart hit isDynamic same

theorem HostInv.rmDynamicLease (inv : HostInv s) {lease : Ptr} {err : Option V4Err}
    (once : ListedOnce s (DynamicFor (s.heap lease).hwAddr (s.heap lease).ip))
    (names : NamesGo s (s.heap lease)) (done : s.rmDynamicLease lease = some (s', err)) :
    HostInv s' := by
  refine names.rmDynamicLease ?_ (fun t q inv safe => inv.blankHostname safe) done inv
  intro t i p trim inv entry isDynamic hit
  apply inv.rmLeaseByIndex
  intro q entry'
  rw [entry] at entry'
  cases entry'
  refine (once.trimmed trim).notMem_eraseIdx entry ⟨isDynamic, ?_⟩
  rw [← trim.hwAddr lease, ← trim.ip lease]
  simpa [sameProperties] using hit

/-- For a lease of the table itself, it is enough that the loop reaches it. -/
theorem HostInv.namesGo (inv : HostInv s) {old : Ptr} (member : old ∈ s.leases.elems)
    (reached : Reached s old) : NamesGo s (s.heap old) := by
  intro named
  constructor
  · intro q listed same _
    rw [inv.eq_of_hostname_eq listed member same named]
    simp [sameProperties]
  · refine reached.imp_of_mem_imp ?_
    intro b c _ listed apart hit isDynamic same
    exact apart hit isDynamic (inv.eq_of_hostname_eq listed member same named)

/-! ### The condition on a step -/

/-- No entry with the address of `l` stands directly behind a dynamic one that
`rmDynamicLease` removes for `l`. -/
def SpacedIP (s : V4Server) (l : Lease) : Prop :=
  s.leases.elems.IsChain fun b c =>
    sameProperties (s.heap b) l = true → (s.heap b).isStatic = false → (s.heap c).ip ≠ l.ip

/-- The expired entries that the rounds with `which` may reuse have no hostname.
`free` addresses are used up first; `gone` is not in the table any more. -/
def NamelessReuse (s : V4Server) (rounds : List Round) (which : Round → Prop) (free : Nat)
    (gone : Option Ptr) : Prop :=
  ∀ k r, rounds[k]? = some r → which r → free ≤ k → ∀ i p, s.leases.elems[i]? = some p →
    some p ≠ gone → (s.heap p).isStatic = false → (s.heap p).expiry < r.now →
    (k = 0 → s.findExpiredLease r.now = some i) → (s.heap p).hostname = ""

/-- The lease of a round, if the entries the round may reuse have no hostname. -/
theorem NamelessReuse.reserved {t t₁ : V4Server} {k free : Nat} {mac : HardwareAddr} {r : Round}
    {rounds : List Round} {which : Round → Prop} (nameless : NamelessReuse s rounds which free none)
    (conf : Configured t) (track : Rounds s k t) (enough : free ≤ s.freeOffsets.card)
    (round : rounds[k]? = some r) (chosen : which r)
    (reserved : t.reserveLease mac r.now = (t₁, .ok (some p))) : (t₁.heap p).hostname = "" := by
  rcases reserveLease_cases reserved with ⟨-, -, none⟩ |
    ⟨none, i, q, found, entry, isDynamic, expired, rfl, same⟩ | ⟨n, o, -, -, rfl, same⟩
  · cases none
  · cases same
    have full : free ≤ k := by
      have fewer := track.free
      rw [freeOffsets_eq_empty conf none, Finset.card_empty] at fewer
      omega
    simp only [reserveExpired, heap_modify_self]
    rcases track.entry p (List.mem_of_getElem? entry) with ⟨-, ip, T, zero⟩ | ⟨old, untouched⟩
    · rw [zero]
      rfl
    · rw [untouched] at isDynamic expired ⊢
      obtain ⟨j, atJ, first⟩ : ∃ j, s.leases.elems[j]? = some p ∧
          (k = 0 → s.findExpiredLease r.now = some j) := by
        by_cases first : k = 0
        · rw [track.start first] at found entry
          exact ⟨i, entry, fun _ => found⟩
        · obtain ⟨j, atJ⟩ := List.mem_iff_getElem?.mp old
          exact ⟨j, atJ, fun zero => absurd zero first⟩
      exact nameless k r round chosen full j p atJ (by simp) isDynamic expired first
  · cases same
    simp [reserveFresh]

/-- A rule for an allocation whose conflicts reuse entries without a hostname. -/
theorem NamelessReuse.allocateLease {I : V4Server → Prop} {mac : HardwareAddr}
    {rounds : List Round} {free : Nat} {which : Round → Prop} {a : Allocation}
    (nameless : NamelessReuse s rounds which free none) (enough : free ≤ s.freeOffsets.card)
    (conflicts : ∀ r, s.addrAvailable r.silent = false → which r)
    (reserve : ∀ t t' now res, Wf t → I t → t.reserveLease mac now = (t', res) → I t')
    (blocklist : ∀ t p stamp, I t → (t.heap p).hostname = "" → I (t.blocklistLease p stamp))
    (wf : Wf s) (start : I s) (done : V4Server.allocateLease mac s [] rounds = some a) :
    I a.server ∧ ((∀ r, which r) → ∀ p, a.lease = .ok (some p) →
      (a.server.heap p).hostname = "") := by
  obtain ⟨k, r, t, round, ⟨wf₁, inv₁, track⟩, last, -⟩ :=
    allocateLease_last (I := fun k t _ => Wf t ∧ I t ∧ Rounds s k t) (by
      rintro k t _ r t₁ p round ⟨wf, inv, track⟩ reserved unavailable
      have conf := (reserveLease_conf reserved).trans track.conf
      rw [addrAvailable_congr conf] at unavailable
      have empty := nameless.reserved wf.conf track enough round (conflicts r unavailable) reserved
      exact ⟨(wf.reserveLease reserved).1.blocklistLease p r.stamp,
        blocklist t₁ p r.stamp (reserve t t₁ r.now _ wf inv reserved) empty,
        track.conflict wf.bounded reserved r.stamp⟩) done ⟨wf, start, .refl s⟩
  refine ⟨reserve t a.server r.now _ wf₁ inv₁ last, ?_⟩
  intro all p lease
  rw [lease] at last
  exact nameless.reserved wf₁.conf track enough round (all r) last

/-- If the hostname of a client is taken and its lease has none yet, the one that is
generated instead is not taken as well. -/
def FreshName (nu : Netutil) (s : V4Server) (p : Ptr) (hostname : String) : Prop :=
  (s.heap p).hostname = "" → ∀ name, validHostnameForClient nu hostname (s.heap p).ip = some name →
    (s.hostsIndex name).isSome = true → ∀ generated,
      generateHostname (s.heap p).ip = some generated → s.hostsIndex generated = none

/-- The condition on a message. -/
def HostMsg (nu : Netutil) (s : V4Server) (req : Msg) (env : Readings) : Prop :=
  match req.messageType with
  | .discover => s.findLease req.clientHWAddr = none →
      NamelessReuse s env.rounds (s.addrAvailable ·.silent = false) s.freeOffsets.card none
  | .request => ∀ self p needsReply, s.serverIP = some self →
      s.handleByRequestType req self = (some p, needsReply) → (s.heap p).isStatic = false →
      FreshName nu s p req.hostName
  | .decline => ∀ old, s.findLeaseForIP req.targetIP req.clientHWAddr = some old →
      Reached s old ∧ ListedOnce s (DynamicFor (s.heap old).hwAddr (s.heap old).ip) ∧
      ((s.heap old).isStatic = false →
        NamelessReuse s env.rounds (fun _ => True) (s.freeOffsets.card + 1) (some old))
  | .release => ∀ p ∈ s.leases.elems, (s.heap p).hwAddr = req.clientHWAddr →
      addrFromSlice req.targetIP = some (s.heap p).ip →
      Reached s p ∧ ListedOnce s (DynamicFor (s.heap p).hwAddr (s.heap p).ip)
  | _ => True

/-- The condition on an operation. -/
def HostOp (nu : Netutil) (s : V4Server) : Op → Prop
  | .addStaticLease l => ∀ l', checkStatic nu s l = .ok l' →
      ListedOnce s (DynamicFor l'.hwAddr l'.ip) ∧ NamesGo s l' ∧ SpacedIP s l'
  | .updateStaticLease l => ∀ found, s.findLease l.hwAddr = some found →
      ListedOnce s (·.ip = (s.heap found).ip) ∧
      ∀ dup, s.ipIndex l.ip = some dup → (s.heap dup).hwAddr = l.hwAddr → dup = found
  | .removeStaticLease l => ListedOnce s (·.ip = l.ip)
  | .resetLeases leases => (∀ l ∈ leases, l.ip.is4 = true) ∧ leases.Pairwise (·.ip ≠ ·.ip)
  | .handle req env => HostMsg nu s req env
  | .packet req env => HostMsg nu s req env

/-- What the operations keep. -/
structure HostsInv (s : V4Server) : Prop where
  wf : Wf s
  addr : AddrInv s
  host : HostInv s

namespace HostsInv

theorem new (inv : HostsInv s) (l : Lease) : HostsInv (s.new l) :=
  ⟨inv.wf.new l, inv.addr.new l, inv.host.new inv.wf l⟩

theorem rmDynamicLease (inv : HostsInv s) {lease : Ptr} {err : Option V4Err}
    (once : ListedOnce s (DynamicFor (s.heap lease).hwAddr (s.heap lease).ip))
    (names : NamesGo s (s.heap lease)) (done : s.rmDynamicLease lease = some (s', err)) :
    HostsInv s' :=
  ⟨inv.wf.trimmed (.rmDynamicLease done), inv.addr.rmDynamicLease once done,
    inv.host.rmDynamicLease once names done⟩

theorem rmLease (inv : HostsInv s) {l : Lease} (once : ListedOnce s (·.ip = l.ip))
    (done : s.rmLease l = .ok s') : HostsInv s' := by
  refine ⟨inv.wf.trimmed (.rmLease done), inv.addr.rmLease once done, ?_⟩
  rcases rmLease_ok done with ⟨-, rfl⟩ | ⟨i, p, entry, ip, -, -, rfl⟩
  · exact inv.host
  · refine inv.host.rmLeaseByIndex ?_
    intro q entry'
    rw [entry] at entry'
    cases entry'
    exact once.notMem_eraseIdx entry ip

/-- Entering a lease that is not in the table, under an address nobody has. -/
theorem addLease (inv : HostsInv s) (bound : p < s.next) (absent : p ∉ s.leases.elems)
    (is4 : (s.heap p).ip.is4 = true) (others : ∀ q ∈ s.leases.elems, (s.heap q).ip ≠ (s.heap p).ip)
    (done : s.addLease p = .ok s') : HostsInv s' := by
  have wf := inv.wf.addLease bound done
  obtain ⟨rfl, -, -, fresh⟩ := addLease_ok done
  exact ⟨wf, inv.addr.insertLease bound is4 fun q member same => absurd same (others q member),
    inv.host.insertLease absent fresh⟩

theorem next_absent (inv : HostsInv s) : s.next ∉ s.leases.elems := fun member =>
  absurd (inv.wf.bounded _ member) (Nat.lt_irrefl _)

/-! ### The administrator's calls -/

theorem addStaticLease (inv : HostsInv s) {l : Lease} {err : Option V4Err}
    (guard : HostOp nu s (.addStaticLease l))
    (done : s.addStaticLease nu l = some (s', err)) : HostsInv s' := by
  rcases addStaticLease_inv done with rfl | ⟨l', s₁, err₁, checked, removed, rest⟩
  · exact inv
  obtain ⟨once, names, spaced⟩ := guard l' checked
  have same : ∀ q ∈ s.leases.elems, (s.new l').heap q = s.heap q := fun q member =>
    heap_new_of_lt s l' (inv.wf.bounded q member)
  have once₁ : ListedOnce (s.new l') (DynamicFor ((s.new l').heap s.next).hwAddr
      ((s.new l').heap s.next).ip) := by
    rw [heap_new_self]
    refine List.Pairwise.imp_of_mem ?_ once
    intro p q hp _ apart
    rwa [same p hp]
  have names₁ : NamesGo (s.new l') ((s.new l').heap s.next) := by
    rw [heap_new_self]
    exact names.new inv.wf l'
  have inv₁ := (inv.new l').rmDynamicLease once₁ names₁ removed
  rcases rest with rfl | ⟨rfl, added⟩
  · exact inv₁
  have trim := Trimmed.rmDynamicLease removed
  have ip : (s₁.heap s.next).ip = l'.ip := by rw [trim.ip, heap_new_self]
  have left : ∀ q ∈ s₁.leases.elems, ¬((s.new l').heap q).ip = l'.ip := by
    refine rmDynamicLease_survivors (fun q => ((s.new l').heap q).ip = l'.ip) removed ?_ ?_
    · intro q sameIP
      rw [heap_new_self]
      simp [sameProperties, sameIP]
    · refine spaced.imp_of_mem_imp ?_
      intro b c hb hc apart hit isDynamic
      rw [heap_new_self, same b hb] at hit
      rw [same b hb] at isDynamic
      rw [same c hc]
      exact apart hit isDynamic
  refine inv₁.addLease (by rw [trim.next]; exact Nat.lt_succ_self _) ?_ ?_ ?_ added
  · intro member
    exact inv.next_absent (trim.sub.subset member)
  · rw [ip]
    exact (checkStatic_ok checked).2.2.1
  · intro q member
    rw [ip, trim.ip]
    exact left q member

theorem updateStaticLease (inv : HostsInv s) {l : Lease} {err : Option V4Err}
    (guard : HostOp nu s (.updateStaticLease l))
    (done : s.updateStaticLease nu l = (s', err)) : HostsInv s' := by
  rcases updateStaticLease_inv done with rfl | ⟨found, l', s₁, lookup, valid, removed, rest⟩
  · exact inv
  obtain ⟨once, first⟩ := guard found lookup
  obtain ⟨listed, -⟩ := findLease_some lookup
  obtain ⟨⟨hostname, rfl, -⟩, sameMAC, inSubnet⟩ := validateStaticLease_ok valid
  have inv₁ := inv.rmLease once removed
  rcases rest with rfl | added
  · exact inv₁.new _
  rcases rmLease_ok removed with ⟨empty, -⟩ | ⟨i, p, entry, ip, -, -, rfl⟩
  · simp [empty] at listed
  obtain rfl := inv.addr.eq_of_ip_eq (List.mem_of_getElem? entry) listed ip
  refine (inv₁.new _).addLease (Nat.lt_succ_self _) inv₁.next_absent ?_ ?_ added
  · rw [heap_new_self]
    exact inv.wf.conf.subnet_is4 _ inSubnet
  · intro q member same
    rw [heap_new_self, heap_new_of_lt _ _ (inv₁.wf.bounded q member), rmLeaseByIndex_heap] at same
    have left : q ∈ s.leases.elems.eraseIdx i := by
      rwa [← Slice.elems_removeAt,
        ← rmLeaseByIndex_leases (List.getElem?_eq_some_iff.mp entry).1]
    have atIP := inv.addr.indexed q (List.mem_of_mem_eraseIdx left)
    rw [same] at atIP
    have isP := first q atIP (sameMAC q atIP)
    rw [isP] at left
    exact once.notMem_eraseIdx entry rfl left

/-- The leases of a reset have different addresses. -/
theorem readdLeases (inv : HostsInv s) {leases : List Lease} (is4 : ∀ l ∈ leases, l.ip.is4 = true)
    (distinct : leases.Pairwise (·.ip ≠ ·.ip))
    (apart : ∀ q ∈ s.leases.elems, ∀ l ∈ leases, (s.heap q).ip ≠ l.ip)
    (done : readdLeases nu s leases = some s') : HostsInv s' := by
  induction leases generalizing s with
  | nil =>
    cases done
    exact inv
  | cons l rest ih =>
    simp only [V4Server.readdLeases] at done
    obtain ⟨hostname, -, later⟩ := Option.bind_eq_some_iff.mp done
    obtain ⟨first, distinct⟩ := List.pairwise_cons.mp distinct
    have inv₁ := inv.new { l with hostname := hostname }
    have apart₁ : ∀ q ∈ s.leases.elems, ∀ m ∈ l :: rest,
        ((s.new { l with hostname := hostname }).heap q).ip ≠ m.ip := by
      intro q member
      rw [heap_new_of_lt s _ (inv.wf.bounded q member)]
      exact apart q member
    have is4' : ∀ m ∈ rest, m.ip.is4 = true := fun m member => is4 m (by simp [member])
    split at later
    · exact ih inv₁ is4' distinct
        (fun q member m listed => apart₁ q member m (List.mem_cons_of_mem _ listed)) later
    · rename_i s₁ added
      have inv₂ : HostsInv s₁ := by
        refine inv₁.addLease (Nat.lt_succ_self _) inv.next_absent ?_ ?_ added
        · rw [heap_new_self]
          exact is4 l (by simp)
        · intro q member
          rw [heap_new_self]
          exact apart₁ q member l (by simp)
      obtain ⟨rfl, -⟩ := addLease_ok added
      refine ih inv₂ is4' distinct ?_ later
      intro q member m listed
      rcases List.mem_append.mp member with old | new
      · exact apart₁ q old m (List.mem_cons_of_mem _ listed)
      · rw [List.mem_singleton.mp new, insertLease_heap, heap_new_self]
        exact first m listed

theorem resetLeases (inv : HostsInv s) {leases : List Lease}
    (guard : HostOp nu s (.resetLeases leases)) (done : s.resetLeases nu leases = some s') :
    HostsInv s' := by
  rcases resetLeases_inv done with rfl | readded
  · exact inv
  · have empty : HostsInv s.cleared :=
      ⟨inv.wf.cleared, .cleared s, fun h p => by simp [cleared]⟩
    exact empty.readdLeases guard.1 guard.2 (by simp [cleared]) readded

/-! ### Messages -/

/-- Reserving a lease leaves hostnames alone. -/
theorem reserveLease (inv : HostsInv s) {mac : HardwareAddr} {now : Time}
    {res : Except V4Err (Option Ptr)} (done : s.reserveLease mac now = (s', res)) :
    HostsInv s' := by
  refine ⟨(inv.wf.reserveLease done).1, inv.addr.reserveLease done, ?_⟩
  rcases reserveLease_cases done with ⟨-, rfl, -⟩ | ⟨-, i, p, -, -, -, -, rfl, -⟩ |
    ⟨n, o, -, -, rfl, -⟩
  · exact inv.host
  · exact inv.host.modify fun _ => rfl
  · exact (inv.host.new inv.wf _).insertLease inv.next_absent (by simp)

/-- An allocation keeps the invariant if the rounds that end in a conflict reuse
entries without a hostname. -/
theorem allocateLease (inv : HostsInv s) {mac : HardwareAddr} {rounds : List Round} {free : Nat}
    {which : Round → Prop} {a : Allocation} (nameless : NamelessReuse s rounds which free none)
    (enough : free ≤ s.freeOffsets.card)
    (conflicts : ∀ r, s.addrAvailable r.silent = false → which r)
    (done : V4Server.allocateLease mac s [] rounds = some a) :
    HostsInv a.server ∧ ((∀ r, which r) → ∀ p, a.lease = .ok (some p) →
      (a.server.heap p).hostname = "") := by
  refine nameless.allocateLease enough conflicts ?_ ?_ inv.wf inv done
  · intro t t' now res _ inv reserved
    exact inv.reserveLease reserved
  · intro t p stamp inv empty
    exact ⟨inv.wf.blocklistLease p stamp, inv.addr.blocklistLease p stamp,
      inv.host.modify fun _ => empty.symm⟩

theorem handleRequest (inv : HostsInv s) {req : Msg} {env : Readings} {self : Addr} {h : Handled}
    (guard : ∀ p needsReply, s.handleByRequestType req self = (some p, needsReply) →
      (s.heap p).isStatic = false → FreshName nu s p req.hostName)
    (done : s.handleRequest nu req self env = some h) : HostsInv h.server := by
  rcases handleRequest_inv done with unmoved | ⟨p, needsReply, found, member, -, finished⟩
  · rwa [unmoved.server]
  obtain ⟨-, -, ⟨-, same⟩ | ⟨isDynamic, name, settled, same⟩⟩ := finishRequest_inv finished
  · rwa [same]
  rw [same]
  refine ⟨inv.wf.commit p name env.now, inv.addr.commit member name env.now,
    inv.host.commit member env.now ?_⟩
  rcases commitHostname_some settled with old | absent | ⟨empty, generated, valid, normal, taken⟩
  · exact .inl old
  · exact .inr (.inr absent)
  · exact .inr (.inr (guard p needsReply found isDynamic empty valid normal taken name generated))

/-- What is known of the reusable entries before a removal is known after it. -/
theorem namelessReuse_trimmed {old : Ptr} {rounds : List Round} {which : Round → Prop}
    {free : Nat} (nameless : NamelessReuse s rounds which (free + 1) (some old))
    (trim : Trimmed s s') (gone : old ∉ s'.leases.elems) :
    NamelessReuse s' rounds which (free + 1) none := by
  intro k r round chosen full i p entry _ isDynamic expired _
  have member := List.mem_of_getElem? entry
  obtain ⟨j, atJ⟩ := List.mem_iff_getElem?.mp (trim.sub.subset member)
  rw [trim.isStatic] at isDynamic
  rw [trim.expiry] at expired
  have notOld : some p ≠ some old := by
    intro same
    cases same
    exact gone member
  have empty := nameless k r round chosen full j p atJ notOld isDynamic expired (by omega)
  by_contra named
  exact named ((trim.hostname named).trans empty)

/-- The replacement for a declined lease takes over its hostname, which is free by
then. -/
theorem takeOver (inv : HostsInv s) {old : Ptr} (now : Time) (listed : p ∈ s.leases.elems)
    (isDynamic : (s.heap p).isStatic = false) (empty : (s.heap p).hostname = "")
    (free : (s.heap old).hostname ≠ "" → s.hostsIndex (s.heap old).hostname = none) :
    (s.takeOver old p now).addLease p = .ok ((s.takeOver old p now).insertLease p) ∧
      HostsInv ((s.takeOver old p now).insertLease p) := by
  have atP : (s.takeOver old p now).heap p =
      { s.heap p with hostname := (s.heap old).hostname, expiry := now + s.leaseTime } := by
    rw [V4Server.takeOver, heap_modify_self]
  have added : (s.takeOver old p now).addLease p = .ok ((s.takeOver old p now).insertLease p) := by
    have inRange : ((s.takeOver old p now).offset (s.heap p).ip).2 = true :=
      inv.wf.ranged p listed isDynamic
    have absent : (s.heap old).hostname ≠ "" →
        (s.takeOver old p now).hostsIndex (s.heap old).hostname = none := free
    unfold V4Server.addLease
    rw [atP]
    simp only [isDynamic, inRange]
    by_cases named : (s.heap old).hostname = ""
    · simp [named]
    · simp [absent named]
  refine ⟨added, ?_, ?_, ?_⟩
  · have wf := inv.wf.takeOver old p now
    exact wf.addLease (inv.wf.bounded p listed) added
  · have addr := inv.addr.takeOver old p now
    refine addr.insertLease (inv.wf.bounded p listed) (addr.is4 p listed) ?_
    intro q member same
    exact addr.eq_of_ip_eq member listed same
  · refine inv.host.enter (p := p) (fun _ => empty) free ?_ ?_ ?_ ?_
    · intro q
      simp [V4Server.takeOver]
    · rw [insertLease_heap, atP]
    · intro q _ ne
      rw [insertLease_heap, V4Server.takeOver, heap_modify_of_ne _ _ ne]
    · change (if ((s.takeOver old p now).heap p).hostname = "" then _ else _) = _
      rw [atP]
      rfl

theorem handleDecline (inv : HostsInv s) {req : Msg} {env : Readings} {h : Handled}
    (guard : ∀ old, s.findLeaseForIP req.targetIP req.clientHWAddr = some old →
      Reached s old ∧ ListedOnce s (DynamicFor (s.heap old).hwAddr (s.heap old).ip) ∧
      ((s.heap old).isStatic = false →
        NamelessReuse s env.rounds (fun _ => True) (s.freeOffsets.card + 1) (some old)))
    (done : s.handleDecline req env = some h) : HostsInv h.server := by
  rcases handleDecline_inv done with unmoved | ⟨old, s₁, err, found, removed, rest⟩
  · rwa [unmoved.server]
  obtain ⟨reached, once, nameless⟩ := guard old found
  obtain ⟨member, -, -⟩ := findLeaseForIP_some found
  have inv₁ := inv.rmDynamicLease once (inv.host.namesGo member reached) removed
  have trim := Trimmed.rmDynamicLease removed
  rcases rest with unmoved | ⟨rfl, a, allocated, -, rest⟩
  · rwa [unmoved.server]
  have gone := reached.removed removed
  have isDynamic : (s.heap old).isStatic = false := by
    by_contra isStatic
    exact gone (rmDynamicLease_keeps removed member fun isDynamic => absurd isDynamic isStatic)
  have free := inv.addr.card_freeOffsets_rmDynamicLease inv.wf member isDynamic reached removed
  have nameless₁ := namelessReuse_trimmed (nameless isDynamic) trim gone
  obtain ⟨inv₂, empty⟩ := inv₁.allocateLease nameless₁ free (fun _ _ => trivial) allocated
  rcases rest with ⟨-, same, -⟩ | ⟨p, lease, rest⟩
  · rwa [same]
  -- the hostname of the declined lease went out of the index with it
  have outside := Untouched.allocateLease allocated
  have bound : old < s₁.next := by
    rw [trim.next]
    exact inv.wf.bounded old member
  have kept := (outside.outside old bound gone).2
  have free : (a.server.heap old).hostname ≠ "" →
      a.server.hostsIndex (a.server.heap old).hostname = none := by
    rw [kept, outside.hosts]
    intro named
    cases found : s₁.hostsIndex (s₁.heap old).hostname with
    | none => rfl
    | some q =>
      obtain ⟨listed, name, -⟩ := (inv₁.host _ q).mp found
      have named' : (s₁.heap q).hostname ≠ "" := by rwa [name]
      have same : (s.heap q).hostname = (s.heap old).hostname := by
        rw [← trim.hostname named', ← trim.hostname named, name]
      have isOld := inv.host.eq_of_hostname_eq (trim.sub.subset listed) member same
        (by rwa [← trim.hostname named])
      exact absurd listed (isOld ▸ gone)
  have listed := (inv₁.wf.allocateLease allocated).2 p lease
  obtain ⟨added, inv₃⟩ := inv₂.takeOver env.now listed
    (allocateLease_dynamic allocated lease) (empty (fun _ => trivial) p lease) free
  rcases rest with ⟨⟨e, failed⟩, -⟩ | ⟨done, -⟩
  · rw [added] at failed
    cases failed
  · rw [added] at done
    rw [← Except.ok.inj done]
    exact inv₃

theorem handleRelease (inv : HostsInv s) {req : Msg} {h : Handled}
    (guard : ∀ p ∈ s.leases.elems, (s.heap p).hwAddr = req.clientHWAddr →
      addrFromSlice req.targetIP = some (s.heap p).ip →
      Reached s p ∧ ListedOnce s (DynamicFor (s.heap p).hwAddr (s.heap p).ip))
    (done : s.handleRelease req = some h) : HostsInv h.server := by
  obtain ⟨-, -, same | ⟨ip, err, target, released⟩⟩ := handleRelease_inv done
  · rwa [same]
  refine release_rule (I := fun t => Trimmed s t ∧ HostsInv t ∧
    (t = s ∨ ∀ q ∈ t.leases.elems, (t.heap q).ip ≠ ip)) (J := HostsInv) ?_
    (fun t h => h.2.1) released ⟨.refl s, inv, .inl rfl⟩
  rintro t p t' err ⟨trim, invT, before⟩ member mac addr removed
  have macS : (s.heap p).hwAddr = req.clientHWAddr := by rw [← trim.hwAddr, mac]
  have ipS : (s.heap p).ip = ip := by rw [← trim.ip, addr]
  obtain ⟨reached, once⟩ := guard p member macS (by rw [ipS, target])
  have onceT : ListedOnce t (DynamicFor (t.heap p).hwAddr (t.heap p).ip) := by
    rw [trim.hwAddr, trim.ip]
    exact once.trimmed trim
  have trim' := Trimmed.rmDynamicLease removed
  rcases before with rfl | gone
  · -- the first removal takes the lease out
    have next := invT.rmDynamicLease onceT (invT.host.namesGo member reached) removed
    refine ⟨next, ?_⟩
    rintro rfl
    refine ⟨trim', next, .inr ?_⟩
    intro q listed same
    rw [trim'.ip] at same
    have isP := invT.addr.eq_of_ip_eq (trim'.sub.subset listed) member (same.trans ipS.symm)
    exact reached.removed removed (isP ▸ listed)
  · -- later ones find nobody with its hostname
    have names : NamesGo t (t.heap p) := by
      intro named
      have others : ∀ q ∈ t.leases.elems, (t.heap q).hostname ≠ (t.heap p).hostname := by
        intro q listed name
        have named' : (t.heap q).hostname ≠ "" := by rwa [name]
        have same : (s.heap q).hostname = (s.heap p).hostname := by
          rw [← trim.hostname named', ← trim.hostname named, name]
        have isP := inv.host.eq_of_hostname_eq (trim.sub.subset listed) member same
          (by rwa [← trim.hostname named])
        exact gone q listed (by rw [isP, addr])
      refine ⟨fun q listed name => absurd name (others q listed), ?_⟩
      exact (List.pairwise_of_forall_mem_list fun _ _ c listed _ _ => others c listed).isChain
    have next := invT.rmDynamicLease onceT names removed
    refine ⟨next, fun _ => ⟨trim.trans trim', next, .inr ?_⟩⟩
    intro q listed
    rw [trim'.ip]
    exact gone q (trim'.sub.subset listed)

theorem handle (inv : HostsInv s) {req : Msg} {env : Readings} {h : Handled}
    (guard : HostMsg nu s req env) (done : s.handle nu req env = some h) : HostsInv h.server := by
  unfold HostMsg at guard
  rcases handle_inv done with unmoved | ⟨type, done⟩ | ⟨type, self, address, done⟩ |
    ⟨type, done⟩ | ⟨type, done⟩
  · rwa [unmoved.server]
  · rw [type] at guard
    exact discover_keeps done inv fun _ absent allocated =>
      (inv.allocateLease (guard absent) (Nat.le_refl _) (fun _ h => h) allocated).1
  · rw [type] at guard
    exact inv.handleRequest (fun p needsReply => guard self p needsReply address) done
  · rw [type] at guard
    exact inv.handleDecline guard done
  · rw [type] at guard
    exact inv.handleRelease guard done

/-! ### Runs -/

theorem step (inv : HostsInv s) {op : Op} {answer : Answer} (guard : HostOp nu s op)
    (done : V4Server.step nu s op = some (s', answer)) : HostsInv s' := by
  refine step_keeps inv ?_ done
  cases op with
  | addStaticLease l => exact fun _ => inv.addStaticLease guard
  | updateStaticLease l => exact fun _ => inv.updateStaticLease guard
  | removeStaticLease l => exact inv.rmLease guard
  | resetLeases leases => exact inv.resetLeases guard
  | handle req env => exact fun _ => inv.handle guard
  | packet req env => exact fun _ _ => inv.handle guard

end HostsInv

/-- The index of hostnames is exact, so that names and addresses translate back and
forth, and no two leases share a hostname. -/
structure HostsCoherent (s : V4Server) : Prop where
  exact : ∀ h p, s.hostsIndex h = some p ↔
    p ∈ s.leases.elems ∧ (s.heap p).hostname = h ∧ h ≠ ""
  back : ∀ h ip, s.ipByHost h = ip → ip.isValid = true → s.hostByIP ip = h
  unshared : ∀ p ∈ s.leases.elems, ∀ q ∈ s.leases.elems,
    (s.heap p).hostname = (s.heap q).hostname → (s.heap p).hostname ≠ "" → p = q

theorem HostsInv.coherent (inv : HostsInv s) : HostsCoherent s := by
  refine ⟨inv.host, ?_, ?_⟩
  · rintro h ip rfl valid
    unfold ipByHost at valid ⊢
    cases found : s.hostsIndex h with
    | none => simp [found, Addr.isValid] at valid
    | some p =>
      obtain ⟨member, name, -⟩ := (inv.host h p).mp found
      simp only [hostByIP, inv.addr.indexed p member, name]
  · intro p hp q hq same named
    exact inv.host.eq_of_hostname_eq hp hq same (by rwa [← same])

theorem v4Create_hostsInv (conf : V4ServerConf) : HostsInv (v4Create conf).1 := by
  refine ⟨v4Create_wf conf, v4Create_addrInv conf, ?_⟩
  intro h p
  rw [v4Create_elems]
  have none : (v4Create conf).1.hostsIndex h = none := by
    unfold v4Create
    dsimp only
    split
    · rfl
    · rfl
  simp [none]

/-- In every run whose operations meet `HostOp`, the index of hostnames is exact. -/
theorem hostsIndex_coherent (conf : V4ServerConf)
    (run : Reaches (V4Server.step nu) (HostOp nu) (v4Create conf).1 s) : HostsCoherent s :=
  (run.invariant (v4Create_hostsInv conf)
    fun _ _ _ _ inv guard taken => inv.step guard taken).coherent

/-- A static lease and a dynamic one, as they may come from the database. -/
def twoLeases : List Lease :=
  [{ ip := hostAddr 50, hostname := "printer", hwAddr := clientMAC 1, isStatic := true },
   { ip := hostAddr 100, expiry := 10, hostname := "Laptop", hwAddr := clientMAC 2 }]

theorem hostsIndex_coherent_reset :
    ∃ s, Reaches (V4Server.step .ascii) (HostOp .ascii) (v4Create smallConf).1 s ∧
      (s.ipByHost "printer" = hostAddr 50 ∧ s.ipByHost "laptop" = hostAddr 100) ∧
      HostsCoherent s := by
  have guard : HostOp .ascii (v4Create smallConf).1 (.resetLeases twoLeases) := by
    constructor
    · decide
    · decide
  obtain ⟨s, answer, taken, found⟩ := exists_step (V4Server.step .ascii) (v4Create smallConf).1
    (.resetLeases twoLeases)
    (fun s => s.ipByHost "printer" = hostAddr 50 ∧ s.ipByHost "laptop" = hostAddr 100)
    (by decide +kernel)
  have run := Reaches.refl.tail guard taken
  exact ⟨s, run, found, hostsIndex_coherent smallConf run⟩

/-- A static lease with the hostname of a dynamic one is refused, and leaves the
hostname mapped to the dynamic lease, which has lost it. -/
theorem hostsIndex_not_coherent : ¬∀ (nu : Netutil) (conf : V4ServerConf) (s : V4Server),
    Reaches (V4Server.step nu) (fun _ _ => True) (v4Create conf).1 s → HostsCoherent s := by
  intro coherent
  obtain ⟨s, done, fails⟩ := exec_refutes (V4Server.step .ascii) (v4Create smallConf).1
    [.resetLeases twoLeases,
     .addStaticLease { ip := hostAddr 51, hostname := "laptop", hwAddr := clientMAC 3 }]
    (fun s => ∀ p ∈ s.hostsIndex "laptop", (s.heap p).hostname = "laptop") (by decide +kernel)
  apply fails
  intro p found
  exact ((coherent .ascii smallConf s (reaches_of_exec (by simp) done)).exact _ p).mp found |>.2.1

end FirewallCore.Dhcpd.V4Server
