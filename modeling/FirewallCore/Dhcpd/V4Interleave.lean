import FirewallCore.Dhcpd.V4Hosts

/-!
The two critical sections of a DHCPREQUEST. `handleByRequestType` looks a lease
up under the lock and gives the lock back; `handleRequest` takes it again and
commits the lease without looking whether it is still in the table. A `Session`
is the server with the requests between the two sections, and its events are
the locked sections in any order.

Whatever removes the lease in between makes the commit put a removed lease into
both indexes. `InterleaveOp` says which operations spare the looked-up leases,
and it keeps the operations from emptying the hostname of an indexed entry,
whose key would otherwise outlive it.
-/

namespace FirewallCore.Dhcpd.V4Server

open FirewallCore.Net FirewallCore.Lib

variable {nu : Netutil} {s s' : V4Server} {p q : Ptr} {i : Nat}

/-! ### The values of the indexes -/

/-- Every value of an index is an entry, and is found under its own key. -/
structure IndexInv (s : V4Server) : Prop where
  ip : ∀ a p, s.ipIndex a = some p → p ∈ s.leases.elems ∧ (s.heap p).ip = a
  host : ∀ h p, s.hostsIndex h = some p →
    p ∈ s.leases.elems ∧ (s.heap p).hostname = h ∧ h ≠ ""

namespace IndexInv

theorem new (inv : IndexInv s) (wf : Wf s) (l : Lease) : IndexInv (s.new l) := by
  have same : ∀ p ∈ s.leases.elems, (s.new l).heap p = s.heap p := fun p member =>
    heap_new_of_lt s l (wf.bounded p member)
  constructor
  · intro a p found
    obtain ⟨member, ip⟩ := inv.ip a p found
    exact ⟨member, by rw [same p member, ip]⟩
  · intro h p found
    obtain ⟨member, name, named⟩ := inv.host h p found
    exact ⟨member, by rw [same p member, name], named⟩

/-- A lease without a hostname may get one, and otherwise hostnames stay. -/
theorem modify (inv : IndexInv s) {f : Lease → Lease} (ip : ∀ l, (f l).ip = l.ip)
    (keeps : p ∈ s.leases.elems → (s.heap p).hostname ≠ "" →
      (f (s.heap p)).hostname = (s.heap p).hostname) : IndexInv (s.modify p f) := by
  constructor
  · intro a q found
    obtain ⟨member, addr⟩ := inv.ip a q found
    refine ⟨member, ?_⟩
    rw [heap_modify]
    split
    · rw [ip, addr]
    · exact addr
  · intro h q found
    obtain ⟨member, rfl, named⟩ := inv.host h q found
    refine ⟨member, ?_, named⟩
    rw [heap_modify]
    split
    · rename_i here
      subst here
      exact keeps member named
    · rfl

/-- A removal takes the keys of the removed entry out, so that every value left is
another entry. -/
theorem rmLeaseByIndex (inv : IndexInv s) (i : Nat) : IndexInv (s.rmLeaseByIndex i) := by
  rcases rmLeaseByIndex_cases s i with ⟨-, same⟩ | ⟨p, entry, removed⟩
  · rwa [same]
  have stays : ∀ q ∈ s.leases.elems, q ≠ p → q ∈ s.leases.elems.eraseIdx i := by
    intro q member ne
    obtain ⟨j, atJ⟩ := List.mem_iff_getElem?.mp member
    refine List.mem_eraseIdx_iff_getElem?.mpr ⟨j, ?_, atJ⟩
    rintro rfl
    rw [entry] at atJ
    exact ne (Option.some.inj atJ).symm
  rw [removed]
  constructor
  · intro a q found
    by_cases here : a = (s.heap p).ip
    · subst here
      change Function.update s.ipIndex (s.heap p).ip none (s.heap p).ip = some q at found
      rw [Function.update_self] at found
      cases found
    · obtain ⟨member, addr⟩ := inv.ip a q (by
        rwa [← Function.update_of_ne here none s.ipIndex])
      refine ⟨stays q member ?_, addr⟩
      rintro rfl
      exact here addr.symm
  · intro h q found
    by_cases here : h = (s.heap p).hostname
    · subst here
      change Function.update s.hostsIndex (s.heap p).hostname none (s.heap p).hostname = some q
        at found
      rw [Function.update_self] at found
      cases found
    · obtain ⟨member, name, named⟩ := inv.host h q (by
        rwa [← Function.update_of_ne here none s.hostsIndex])
      refine ⟨stays q member ?_, name, named⟩
      rintro rfl
      exact here name.symm

theorem insertLease (inv : IndexInv s) (p : Ptr) : IndexInv (s.insertLease p) := by
  have listed : p ∈ (s.insertLease p).leases.elems := by simp
  constructor
  · intro a q found
    change Function.update s.ipIndex (s.heap p).ip (some p) a = some q at found
    by_cases here : a = (s.heap p).ip
    · subst here
      rw [Function.update_self] at found
      cases found
      exact ⟨listed, rfl⟩
    · rw [Function.update_of_ne here] at found
      obtain ⟨member, addr⟩ := inv.ip a q found
      exact ⟨by simp [member], addr⟩
  · intro h q found
    change (if (s.heap p).hostname = "" then s.hostsIndex
      else Function.update s.hostsIndex (s.heap p).hostname (some p)) h = some q at found
    have old : s.hostsIndex h = some q → q ∈ (s.insertLease p).leases.elems ∧
        ((s.insertLease p).heap q).hostname = h ∧ h ≠ "" := by
      intro found
      obtain ⟨member, name, named⟩ := inv.host h q found
      exact ⟨by simp [member], name, named⟩
    split at found
    · exact old found
    · rename_i named
      by_cases here : h = (s.heap p).hostname
      · subst here
        rw [Function.update_self] at found
        cases found
        exact ⟨listed, rfl, named⟩
      · rw [Function.update_of_ne here] at found
        exact old found

theorem addLease (inv : IndexInv s) (done : s.addLease p = .ok s') : IndexInv s' := by
  obtain ⟨rfl, -⟩ := addLease_ok done
  exact inv.insertLease p

/-- Committing an entry keeps the values in the table. -/
theorem commit (inv : IndexInv s) (listed : p ∈ s.leases.elems) (name : String) (now : Time) :
    IndexInv (s.commit p name now) := by
  constructor
  · intro a q found
    change Function.update s.ipIndex (s.heap p).ip (some p) a = some q at found
    rw [commit_ip]
    by_cases here : a = (s.heap p).ip
    · subst here
      rw [Function.update_self] at found
      cases found
      exact ⟨listed, rfl⟩
    · rw [Function.update_of_ne here] at found
      exact inv.ip a q found
  · intro h q found
    rw [heap_commit]
    by_cases here : h = name ∧ name ≠ ""
    · obtain ⟨rfl, named⟩ := here
      simp only [V4Server.commit, if_neg named, Function.update_self] at found
      cases found
      exact ⟨listed, by rw [if_pos rfl], named⟩
    · -- the other keys are old ones, and the old key of `p` is not among them
      have kept : s.hostsIndex h = some q ∧ (h = (s.heap p).hostname → h = name) := by
        have inner : (if (s.heap p).hostname ≠ "" ∧ (s.heap p).hostname ≠ name then
            Function.update s.hostsIndex (s.heap p).hostname none else s.hostsIndex) h =
            some q := by
          simp only [V4Server.commit] at found
          split at found
          · exact found
          · rename_i named
            rwa [Function.update_of_ne fun same => here ⟨same, named⟩] at found
        split at inner
        · by_cases prev : h = (s.heap p).hostname
          · rw [prev, Function.update_self] at inner
            cases inner
          · rw [Function.update_of_ne prev] at inner
            exact ⟨inner, fun same => absurd same prev⟩
        · rename_i unchanged
          refine ⟨inner, ?_⟩
          rintro rfl
          by_contra ne
          exact unchanged ⟨(inv.host _ q inner).2.2, ne⟩
      obtain ⟨member, hostname, named⟩ := inv.host h q kept.1
      refine ⟨member, ?_, named⟩
      split
      · rename_i isP
        subst isP
        exact (kept.2 hostname.symm).symm
      · exact hostname

theorem finishRequest (inv : IndexInv s) (listed : p ∈ s.leases.elems) {req : Msg} {now : Time}
    {h : Handled} (done : s.finishRequest nu req p now = some h) : IndexInv h.server := by
  obtain ⟨-, -, ⟨-, same⟩ | ⟨-, hostname, -, same⟩⟩ := finishRequest_inv done
  · rwa [same]
  · rw [same]
    exact inv.commit listed hostname now

theorem cleared (s : V4Server) : IndexInv s.cleared := by
  constructor
  · intro a p found
    cases found
  · intro h p found
    cases found

theorem rmLease (inv : IndexInv s) {l : Lease} (done : s.rmLease l = .ok s') : IndexInv s' :=
  rmLease_preserves (fun _ i inv => inv.rmLeaseByIndex i) done inv

/-- Removing the dynamic leases keeps the values in the table, unless it empties the
hostname of an entry that stays. -/
theorem rmDynamicLease (inv : IndexInv s) {lease : Ptr} {err : Option V4Err}
    (names : NamesGo s (s.heap lease)) (done : s.rmDynamicLease lease = some (s', err)) :
    IndexInv s' := by
  refine names.rmDynamicLease (fun t i _ _ inv _ _ _ => inv.rmLeaseByIndex i) ?_ done inv
  intro t q inv safe
  rcases blankHostname_cases t lease q with same | ⟨name, blanked⟩
  · rwa [same]
  rw [blanked]
  refine inv.modify (fun _ => rfl) ?_
  intro member named
  exact absurd name (safe member (by rwa [← name]))

theorem reserveLease (inv : IndexInv s) (wf : Wf s) {mac : HardwareAddr} {now : Time}
    {res : Except V4Err (Option Ptr)} (done : s.reserveLease mac now = (s', res)) :
    IndexInv s' := by
  rcases reserveLease_cases done with ⟨-, rfl, -⟩ | ⟨-, i, p, -, -, -, -, rfl, -⟩ |
    ⟨n, o, -, -, rfl, -⟩
  · exact inv
  · exact inv.modify (fun _ => rfl) fun _ _ => rfl
  · exact (inv.new wf _).insertLease s.next

theorem allocateLease (inv : IndexInv s) (wf : Wf s) {mac : HardwareAddr} {rounds : List Round}
    {which : Round → Prop} {a : Allocation}
    (nameless : NamelessReuse s rounds which s.freeOffsets.card none)
    (conflicts : ∀ r, s.addrAvailable r.silent = false → which r)
    (done : V4Server.allocateLease mac s [] rounds = some a) :
    IndexInv a.server ∧ ((∀ r, which r) → ∀ p, a.lease = .ok (some p) →
      (a.server.heap p).hostname = "") := by
  refine nameless.allocateLease (Nat.le_refl _) conflicts ?_ ?_ wf inv done
  · intro t t' now res wf inv reserved
    exact inv.reserveLease wf reserved
  · intro t p stamp inv empty
    exact inv.modify (fun _ => rfl) fun _ named => absurd empty named

end IndexInv

/-! ### The condition on a step -/

/-- The condition on a message: it does not empty or overwrite the hostname of an
entry that stays. -/
def IndexMsg (s : V4Server) (req : Msg) (env : Readings) : Prop :=
  match req.messageType with
  | .discover => s.findLease req.clientHWAddr = none →
      NamelessReuse s env.rounds (s.addrAvailable ·.silent = false) s.freeOffsets.card none
  | .decline => ∀ old, s.findLeaseForIP req.targetIP req.clientHWAddr = some old →
      NamesGo s (s.heap old) ∧ ∀ s₁, s.rmDynamicLease old = some (s₁, none) →
        NamelessReuse s₁ env.rounds (fun _ => True) s₁.freeOffsets.card none
  | .release => ∀ p ∈ s.leases.elems, (s.heap p).hwAddr = req.clientHWAddr →
      addrFromSlice req.targetIP = some (s.heap p).ip → NamesGo s (s.heap p)
  | _ => True

/-- The condition on an operation for the values of the indexes. -/
def IndexOp (nu : Netutil) (s : V4Server) : Op → Prop
  | .addStaticLease l => ∀ l', checkStatic nu s l = .ok l' → NamesGo s l'
  | .handle req env => IndexMsg s req env
  | .packet req env => IndexMsg s req env
  | _ => True

/-- `rmDynamicLease` for a lease like `l` does not remove this one. -/
def Immune (lease l : Lease) : Prop :=
  lease.isStatic = false → sameProperties lease l = false

/-- `rmLease` for a lease like `l` does not remove this one. -/
def Distinct (lease l : Lease) : Prop :=
  lease.ip ≠ l.ip ∨ lease.hwAddr ≠ l.hwAddr ∨ lease.hostname ≠ l.hostname

def SparesMsg (s : V4Server) (p : Ptr) (req : Msg) : Prop :=
  match req.messageType with
  | .decline | .release => ∀ q ∈ s.leases.elems, (s.heap q).hwAddr = req.clientHWAddr →
      addrFromSlice req.targetIP = some (s.heap q).ip → Immune (s.heap p) (s.heap q)
  | _ => True

/-- The operation leaves the lease in the table. -/
def Spares (nu : Netutil) (s : V4Server) (p : Ptr) : Op → Prop
  | .addStaticLease l => ∀ l', checkStatic nu s l = .ok l' → Immune (s.heap p) l'
  | .updateStaticLease l => ∀ found, s.findLease l.hwAddr = some found →
      Distinct (s.heap p) (s.heap found)
  | .removeStaticLease l => Distinct (s.heap p) l
  | .resetLeases _ => s.conf = none
  | .handle req _ => SparesMsg s p req
  | .packet req _ => SparesMsg s p req

/-! ### What stays in the table -/

theorem Distinct.rmLease {l : Lease} (listed : p ∈ s.leases.elems)
    (apart : Distinct (s.heap p) l) (done : s.rmLease l = .ok s') : p ∈ s'.leases.elems := by
  rcases rmLease_ok done with ⟨-, rfl⟩ | ⟨i, q, entry, ip, hwAddr, hostname, rfl⟩
  · exact listed
  rw [rmLeaseByIndex_leases (List.getElem?_eq_some_iff.mp entry).1]
  obtain ⟨j, atJ⟩ := List.mem_iff_getElem?.mp listed
  refine List.mem_eraseIdx_iff_getElem?.mpr ⟨j, ?_, atJ⟩
  rintro rfl
  rw [entry] at atJ
  cases atJ
  rcases apart with other | other | other
  · exact other ip
  · exact other hwAddr
  · exact other hostname

theorem addLease_listed (listed : p ∈ s.leases.elems) (done : s.addLease q = .ok s') :
    p ∈ s'.leases.elems := by
  obtain ⟨rfl, -⟩ := addLease_ok done
  simp [listed]

section Spared

variable {req : Msg} {env : Readings} {h : Handled}

theorem SparesMsg.handle (listed : p ∈ s.leases.elems) (spared : SparesMsg s p req)
    (done : s.handle nu req env = some h) : p ∈ h.server.leases.elems := by
  unfold SparesMsg at spared
  rcases handle_inv done with unmoved | ⟨-, done⟩ | ⟨-, self, -, done⟩ | ⟨type, done⟩ |
    ⟨type, done⟩
  · rwa [unmoved.server]
  · exact discover_keeps (I := fun t => p ∈ t.leases.elems) done listed fun _ _ allocated =>
      (Untouched.allocateLease allocated).listed p listed
  · exact request_keeps (I := fun t => p ∈ t.leases.elems) done listed fun _ _ => listed
  · rw [type] at spared
    rcases handleDecline_inv done with unmoved | ⟨old, s₁, err, found, removed, rest⟩
    · rwa [unmoved.server]
    obtain ⟨member, mac, ip⟩ := findLeaseForIP_some found
    have kept := rmDynamicLease_keeps removed listed (spared old member mac ip)
    rcases rest with unmoved | ⟨-, a, allocated, -, rest⟩
    · rwa [unmoved.server]
    have later := (Untouched.allocateLease allocated).listed p kept
    rcases rest with ⟨-, same, -⟩ | ⟨q, -, ⟨-, same, -⟩ | ⟨added, -⟩⟩
    · rwa [same]
    · rwa [same]
    · refine addLease_listed ?_ added
      exact later
  · rw [type] at spared
    obtain ⟨-, -, same | ⟨ip, err, target, released⟩⟩ := handleRelease_inv done
    · rwa [same]
    refine (release_preserves (I := fun t => Trimmed s t ∧ p ∈ t.leases.elems) ?_ released
      ⟨.refl s, listed⟩).2
    rintro t q t' err ⟨trim, kept⟩ member mac addr removed
    refine ⟨trim.trans (.rmDynamicLease removed), rmDynamicLease_keeps removed kept ?_⟩
    rw [trim.hwAddr] at mac
    rw [trim.ip] at addr
    have immune := spared q member mac (by rw [addr, target])
    simpa [sameProperties, trim.isStatic, trim.hwAddr, trim.ip, Immune] using immune

theorem Spares.step (wf : Wf s) (listed : p ∈ s.leases.elems) {op : Op} {answer : Answer}
    (spared : Spares nu s p op) (done : V4Server.step nu s op = some (s', answer)) :
    p ∈ s'.leases.elems := by
  refine step_keeps (I := fun t => p ∈ t.leases.elems) listed ?_ done
  cases op with
  | addStaticLease l =>
    intro err added
    rcases addStaticLease_inv added with rfl | ⟨l', s₁, err₁, checked, removed, rest⟩
    · exact listed
    have kept : p ∈ s₁.leases.elems := by
      refine rmDynamicLease_keeps removed listed ?_
      rw [heap_new_of_lt s l' (wf.bounded p listed), heap_new_self]
      exact spared l' checked
    rcases rest with rfl | ⟨-, added⟩
    · exact kept
    · exact addLease_listed kept added
  | updateStaticLease l =>
    intro err updated
    rcases updateStaticLease_inv updated with rfl | ⟨found, l', s₁, lookup, -, removed, rest⟩
    · exact listed
    have kept := (spared found lookup).rmLease listed removed
    rcases rest with rfl | added
    · exact kept
    · refine addLease_listed ?_ added
      exact kept
  | removeStaticLease l => exact Distinct.rmLease listed spared
  | resetLeases leases =>
    intro reset
    have unconfigured : s.conf = none := spared
    simp only [V4Server.resetLeases, unconfigured, Option.isNone_none, if_true] at reset
    cases reset
    exact listed
  | handle req env => exact fun _ => SparesMsg.handle listed spared
  | packet req env => exact fun _ _ => SparesMsg.handle listed spared

end Spared

/-! ### The indexes under an operation -/

/-- A chain of entries none of which stands directly behind one with `D` stays so
when an entry with `D` is taken out. -/
theorem isChain_eraseIdx {D N : Ptr → Prop} {l : List Ptr}
    (chain : l.IsChain fun b c => D b → ¬N c) (entry : l[i]? = some p) (hit : D p) :
    (l.eraseIdx i).IsChain fun b c => D b → ¬N c := by
  induction l generalizing i with
  | nil => exact chain
  | cons a l ih =>
    cases i with
    | zero => exact chain.of_cons
    | succ i =>
      cases l with
      | nil => cases entry
      | cons b l =>
        obtain ⟨apart, rest⟩ := List.isChain_cons_cons.mp chain
        cases i with
        | zero =>
          cases entry
          cases l with
          | nil => exact .singleton a
          | cons c l =>
            obtain ⟨behind, last⟩ := List.isChain_cons_cons.mp rest
            exact List.isChain_cons_cons.mpr ⟨fun _ => behind hit, last⟩
        | succ i => exact List.isChain_cons_cons.mpr ⟨apart, ih rest entry⟩

/-- The loop of a release removes leases of one hardware address and one IP, so that
what `NamesGo` says of the table stays true in it. -/
theorem NamesGo.released {lease : Ptr} {err : Option V4Err} (names : NamesGo s (s.heap p))
    (hwAddr : (s.heap lease).hwAddr = (s.heap p).hwAddr) (ip : (s.heap lease).ip = (s.heap p).ip)
    (done : s.rmDynamicLease lease = some (s', err)) : NamesGo s' (s'.heap p) := by
  have trim := Trimmed.rmDynamicLease done
  intro named
  have sameName := trim.hostname named
  rw [sameName] at named ⊢
  obtain ⟨go, chain⟩ := names named
  have kept : Trimmed s s' ∧ s'.leases.elems.IsChain fun b c =>
      (sameProperties (s.heap b) (s.heap p) = true ∧ (s.heap b).isStatic = false) →
        ¬(s.heap c).hostname = (s.heap p).hostname := by
    refine rmDynamicLease_preserves (I := fun t => Trimmed s t ∧ t.leases.elems.IsChain fun b c =>
      (sameProperties (s.heap b) (s.heap p) = true ∧ (s.heap b).isStatic = false) →
        ¬(s.heap c).hostname = (s.heap p).hostname) ?_ ?_ done ⟨.refl s, ?_⟩
    · rintro t i q ⟨trim, chain⟩ entry isDynamic hit
      refine ⟨trim.trans (.rmLeaseByIndex t i), ?_⟩
      rw [rmLeaseByIndex_leases (List.getElem?_eq_some_iff.mp entry).1]
      refine isChain_eraseIdx chain entry ⟨?_, by rwa [← trim.isStatic]⟩
      simpa [sameProperties, trim.hwAddr, trim.ip, hwAddr, ip] using hit
    · rintro t q ⟨trim, chain⟩
      refine ⟨trim.trans (.blankHostname t lease q), ?_⟩
      rwa [blankHostname_leases]
    · refine chain.imp ?_
      rintro b c apart ⟨hit, isDynamic⟩
      exact apart hit isDynamic
  have old : ∀ q, (s'.heap q).hostname = (s.heap p).hostname →
      (s.heap q).hostname = (s.heap p).hostname := by
    intro q same
    rw [← trim.hostname (by rwa [same]), same]
  constructor
  · intro q member same isDynamic
    rw [trim.isStatic] at isDynamic
    simpa [sameProperties, trim.hwAddr, trim.ip] using
      go q (trim.sub.subset member) (old q same) isDynamic
  · refine kept.2.imp ?_
    intro b c apart hit isDynamic same
    refine apart ⟨?_, by rwa [← trim.isStatic]⟩ (old c same)
    simpa [sameProperties, trim.hwAddr, trim.ip] using hit

namespace IndexInv

variable {req : Msg} {env : Readings} {h : Handled}

theorem handleDecline (inv : IndexInv s) (wf : Wf s)
    (guard : ∀ old, s.findLeaseForIP req.targetIP req.clientHWAddr = some old →
      NamesGo s (s.heap old) ∧ ∀ s₁, s.rmDynamicLease old = some (s₁, none) →
        NamelessReuse s₁ env.rounds (fun _ => True) s₁.freeOffsets.card none)
    (done : s.handleDecline req env = some h) : IndexInv h.server := by
  rcases handleDecline_inv done with unmoved | ⟨old, s₁, err, found, removed, rest⟩
  · rwa [unmoved.server]
  obtain ⟨names, nameless⟩ := guard old found
  have inv₁ := inv.rmDynamicLease names removed
  rcases rest with unmoved | ⟨rfl, a, allocated, -, rest⟩
  · rwa [unmoved.server]
  obtain ⟨inv₂, empty⟩ := inv₁.allocateLease (wf.trimmed (.rmDynamicLease removed))
    (nameless s₁ removed) (fun _ _ => trivial) allocated
  rcases rest with ⟨-, same, -⟩ | ⟨p, lease, rest⟩
  · rwa [same]
  -- the replacement has no hostname yet, so no key is overwritten
  have inv₃ : IndexInv (a.server.takeOver old p env.now) :=
    inv₂.modify (fun _ => rfl) fun _ named => absurd (empty (fun _ => trivial) p lease) named
  rcases rest with ⟨-, same, -⟩ | ⟨added, -⟩
  · rwa [same]
  · exact inv₃.addLease added

theorem handleRelease (inv : IndexInv s)
    (guard : ∀ p ∈ s.leases.elems, (s.heap p).hwAddr = req.clientHWAddr →
      addrFromSlice req.targetIP = some (s.heap p).ip → NamesGo s (s.heap p))
    (done : s.handleRelease req = some h) : IndexInv h.server := by
  obtain ⟨-, -, same | ⟨ip, err, target, released⟩⟩ := handleRelease_inv done
  · rwa [same]
  refine (release_preserves (I := fun t => IndexInv t ∧ Trimmed s t ∧ ∀ p ∈ s.leases.elems,
    (s.heap p).hwAddr = req.clientHWAddr → (s.heap p).ip = ip → NamesGo t (t.heap p)) ?_ released
    ⟨inv, .refl s, ?_⟩).1
  · rintro t q t' err ⟨inv, trim, names⟩ member mac addr removed
    rw [trim.hwAddr] at mac
    rw [trim.ip] at addr
    refine ⟨inv.rmDynamicLease (names q member mac addr) removed,
      trim.trans (.rmDynamicLease removed), ?_⟩
    intro p listed mac' addr'
    refine (names p listed mac' addr').released ?_ ?_ removed
    · rw [trim.hwAddr, trim.hwAddr, mac, mac']
    · rw [trim.ip, trim.ip, addr, addr']
  · intro p member mac addr
    exact guard p member mac (by rw [addr, target])

theorem handle (inv : IndexInv s) (wf : Wf s) (guard : IndexMsg s req env)
    (done : s.handle nu req env = some h) : IndexInv h.server := by
  unfold IndexMsg at guard
  rcases handle_inv done with unmoved | ⟨type, done⟩ | ⟨-, self, -, done⟩ | ⟨type, done⟩ |
    ⟨type, done⟩
  · rwa [unmoved.server]
  · rw [type] at guard
    exact discover_keeps done inv fun _ absent allocated =>
      (inv.allocateLease wf (guard absent) (fun _ h => h) allocated).1
  · rcases handleRequest_inv done with unmoved | ⟨p, _, -, member, -, finished⟩
    · rwa [unmoved.server]
    · exact inv.finishRequest member finished
  · rw [type] at guard
    exact inv.handleDecline wf guard done
  · rw [type] at guard
    exact inv.handleRelease guard done

theorem step (inv : IndexInv s) (wf : Wf s) {op : Op} {answer : Answer} (guard : IndexOp nu s op)
    (done : V4Server.step nu s op = some (s', answer)) : IndexInv s' := by
  refine step_keeps inv ?_ done
  cases op with
  | addStaticLease l =>
    intro err added
    rcases addStaticLease_inv added with rfl | ⟨l', s₁, err₁, checked, removed, rest⟩
    · exact inv
    have names : NamesGo (s.new l') ((s.new l').heap s.next) := by
      rw [heap_new_self]
      exact (guard l' checked).new wf l'
    have inv₁ := (inv.new wf l').rmDynamicLease names removed
    rcases rest with rfl | ⟨-, added⟩
    · exact inv₁
    · exact inv₁.addLease added
  | updateStaticLease l =>
    intro err updated
    rcases updateStaticLease_inv updated with rfl | ⟨found, l', s₁, -, -, removed, rest⟩
    · exact inv
    have inv₁ := (inv.rmLease removed).new (wf.trimmed (.rmLease removed)) l'
    rcases rest with rfl | added
    · exact inv₁
    · exact inv₁.addLease added
  | removeStaticLease l => exact inv.rmLease
  | resetLeases leases =>
    intro reset
    rcases resetLeases_inv reset with rfl | readded
    · exact inv
    · refine (readdLeases_preserves (I := fun t => Wf t ∧ IndexInv t) ?_ ?_ readded
        ⟨wf.cleared, .cleared s⟩).2
      · rintro t l - hostname ⟨wf, inv⟩
        exact ⟨wf.new _, inv.new wf _⟩
      · rintro t l t' - hostname ⟨wf, inv⟩ added
        exact ⟨(wf.new _).addLease (Nat.lt_succ_self _) added, (inv.new wf _).addLease added⟩
  | handle req env => exact fun _ => inv.handle wf guard
  | packet req env => exact fun _ _ => inv.handle wf guard

end IndexInv

/-! ### Sessions -/

/-- The server with the requests that have found their lease and wait for the lock. -/
structure Session where
  server : V4Server
  waiting : List (Msg × Ptr) := []

/-- The locked sections: a whole operation, or one half of a DHCPREQUEST. -/
inductive Event where
  | op (o : Op)
  | lookup (req : Msg)
  | commit (i : Nat) (now : Time)

/-- What an event answers, if anything, and the lease it acknowledges. -/
structure Reply where
  answer : Option Answer := none
  acked : Option Ptr := none

/-- A step of a session. `lookup` is `packetHandler` up to the end of the first
critical section, and `commit` the second section of a waiting request. -/
def Session.step (nu : Netutil) (x : Session) : Event → Option (Session × Reply)
  | .op o => (V4Server.step nu x.server o).map fun out =>
    ({ x with server := out.1 }, { answer := some out.2 })
  | .lookup req =>
    if req.messageType ≠ .request ∨ (nu.validateMAC req.clientHWAddr).isSome then some (x, {})
    else do
      let self ← x.server.serverIP
      match x.server.handleByRequestType req self with
      | (none, true) => return (x, { answer := some (.dhcp 0 { messageType := some .nak } []) })
      | (none, false) => return (x, {})
      | (some p, _) => return ({ x with waiting := x.waiting ++ [(req, p)] }, {})
  | .commit i now => do
    let w ← x.waiting[i]?
    let h ← x.server.finishRequest nu w.1 w.2 now
    return (⟨h.server, x.waiting.eraseIdx i⟩, { answer := some h.answer.2, acked := some w.2 })

/-- The condition on an event: nothing empties an indexed hostname, and nothing
removes a lease that a request is waiting to commit. -/
def InterleaveOp (nu : Netutil) (x : Session) : Event → Prop
  | .op o => IndexOp nu x.server o ∧ ∀ w ∈ x.waiting, Spares nu x.server w.2 o
  | _ => True

structure SessionInv (x : Session) : Prop where
  wf : Wf x.server
  index : IndexInv x.server
  waiting : ∀ w ∈ x.waiting, w.2 ∈ x.server.leases.elems

/-- After a commit every value of an index is in the table, and so is the lease that
was acknowledged. -/
structure CommitSafe (x : Session) (reply : Reply) : Prop where
  ip : ∀ a p, x.server.ipIndex a = some p → p ∈ x.server.leases.elems
  host : ∀ h p, x.server.hostsIndex h = some p → p ∈ x.server.leases.elems
  acked : ∀ p, reply.acked = some p → p ∈ x.server.leases.elems

namespace SessionInv

variable {x y : Session} {reply : Reply}

theorem finishRequest_elems {req : Msg} {now : Time} {h : Handled}
    (done : s.finishRequest nu req p now = some h) : h.server.leases.elems = s.leases.elems := by
  obtain ⟨-, -, ⟨-, same⟩ | ⟨-, hostname, -, same⟩⟩ := finishRequest_inv done
  · rw [same]
  · rw [same]
    rfl

theorem commit_inv {now : Time} (done : x.step nu (.commit i now) = some (y, reply)) :
    ∃ req p h, (req, p) ∈ x.waiting ∧ x.server.finishRequest nu req p now = some h ∧
      y = ⟨h.server, x.waiting.eraseIdx i⟩ ∧ reply.acked = some p := by
  obtain ⟨⟨req, p⟩, waits, done⟩ := Option.bind_eq_some_iff.mp done
  obtain ⟨h, finished, same⟩ := Option.bind_eq_some_iff.mp done
  cases same
  exact ⟨req, p, h, List.mem_of_getElem? waits, finished, rfl, rfl⟩

theorem step (inv : SessionInv x) {event : Event} (guard : InterleaveOp nu x event)
    (done : x.step nu event = some (y, reply)) : SessionInv y := by
  cases event with
  | op o =>
    obtain ⟨⟨s, answer⟩, taken, same⟩ := Option.map_eq_some_iff.mp done
    cases same
    refine ⟨inv.wf.step taken, inv.index.step inv.wf guard.1 taken, ?_⟩
    intro w waits
    exact (guard.2 w waits).step inv.wf (inv.waiting w waits) taken
  | lookup req =>
    simp only [Session.step] at done
    split at done
    · cases done
      exact inv
    obtain ⟨self, -, done⟩ := Option.bind_eq_some_iff.mp done
    split at done
    · cases done
      exact inv
    · cases done
      exact inv
    · rename_i p _ found
      cases done
      refine ⟨inv.wf, inv.index, ?_⟩
      intro w waits
      rcases List.mem_append.mp waits with old | new
      · exact inv.waiting w old
      · rw [List.mem_singleton.mp new]
        exact (handleByRequestType_some found).1
  | commit i now =>
    obtain ⟨req, p, h, waits, finished, rfl, -⟩ := commit_inv done
    refine ⟨?_, inv.index.finishRequest (inv.waiting _ waits) finished, ?_⟩
    · obtain ⟨-, -, ⟨-, same⟩ | ⟨-, hostname, -, same⟩⟩ := finishRequest_inv finished
      · rw [same]
        exact inv.wf
      · rw [same]
        exact inv.wf.commit p hostname now
    · intro w left
      rw [finishRequest_elems finished]
      exact inv.waiting w (List.mem_of_mem_eraseIdx left)

theorem commitSafe (inv : SessionInv x) {now : Time}
    (done : x.step nu (.commit i now) = some (y, reply)) : CommitSafe y reply := by
  have after := inv.step (show InterleaveOp nu x (.commit i now) from trivial) done
  obtain ⟨req, p, h, waits, finished, rfl, acked⟩ := commit_inv done
  refine ⟨fun a q found => (after.index.ip a q found).1,
    fun name q found => (after.index.host name q found).1, ?_⟩
  intro q same
  rw [acked] at same
  cases same
  rw [finishRequest_elems finished]
  exact inv.waiting _ waits

end SessionInv

theorem v4Create_sessionInv (conf : V4ServerConf) : SessionInv ⟨(v4Create conf).1, []⟩ := by
  have hosts := (v4Create_hostsInv conf).host
  refine ⟨v4Create_wf conf, ⟨?_, fun h p found => (hosts h p).mp found⟩, by simp⟩
  intro a p found
  have none : (v4Create conf).1.ipIndex a = none := by
    unfold v4Create
    dsimp only
    split
    · rfl
    · rfl
  rw [none] at found
  cases found

/-- In every interleaving whose events meet `InterleaveOp`, a commit is safe. -/
theorem commit_safe (conf : V4ServerConf) {x y : Session} {reply : Reply} {now : Time}
    (run : Reaches (Session.step nu) (InterleaveOp nu) ⟨(v4Create conf).1, []⟩ x)
    (done : x.step nu (.commit i now) = some (y, reply)) : CommitSafe y reply :=
  (run.invariant (v4Create_sessionInv conf)
    fun _ _ _ _ inv guard taken => inv.step guard taken).commitSafe done

/-- The client gets an offer of `192.168.10.100` and asks for it. -/
def offered : Event := .op (.packet { messageType := .discover, clientHWAddr := clientMAC 1 }
  (quiet 10))

def asked : Event := .lookup { messageType := .request, clientHWAddr := clientMAC 1,
                               requestedIP := (hostAddr 100).asSlice }

/-- While the client waits, another lease is removed. -/
theorem commit_safe_removal :
    ∃ x y reply, Reaches (Session.step .ascii) (InterleaveOp .ascii)
        ⟨(v4Create smallConf).1, []⟩ x ∧
      x.step .ascii (.commit 0 20) = some (y, reply) ∧ reply.acked = some 0 ∧
      CommitSafe y reply := by
  let removal : Lease := { ip := hostAddr 50, hwAddr := clientMAC 2 }
  have answers : ((Session.step .ascii ⟨(v4Create smallConf).1, []⟩ offered).bind fun a =>
      (Session.step .ascii a.1 asked).bind fun b =>
        (Session.step .ascii b.1 (.op (.removeStaticLease removal))).bind fun c =>
          (Session.step .ascii c.1 (.commit 0 20)).map fun d =>
            (decide (∀ w ∈ b.1.waiting, (b.1.server.heap w.2).ip ≠ removal.ip), d.2.acked)) =
      some (true, some 0) := by decide
  obtain ⟨⟨x₁, _⟩, taken₁, rest⟩ := Option.bind_eq_some_iff.mp answers
  obtain ⟨⟨x₂, _⟩, taken₂, rest⟩ := Option.bind_eq_some_iff.mp rest
  obtain ⟨⟨x₃, _⟩, taken₃, rest⟩ := Option.bind_eq_some_iff.mp rest
  obtain ⟨⟨x₄, reply⟩, taken₄, result⟩ := Option.map_eq_some_iff.mp rest
  obtain ⟨other, acked⟩ := Prod.mk.inj result
  have guard₁ : InterleaveOp .ascii ⟨(v4Create smallConf).1, []⟩ offered := by
    refine ⟨?_, by simp⟩
    intro _ k r _ _ _ i p entry
    simp [v4Create_elems] at entry
  have guard₃ : InterleaveOp .ascii x₂ (.op (.removeStaticLease removal)) :=
    ⟨trivial, fun w waits => .inl (of_decide_eq_true other w waits)⟩
  have run := ((Reaches.refl.tail guard₁ taken₁).tail
    (show InterleaveOp .ascii x₁ asked from trivial) taken₂).tail guard₃ taken₃
  exact ⟨x₃, x₄, reply, run, taken₄, acked, commit_safe smallConf run taken₄⟩

/-- A client that releases its lease while its request waits gets an acknowledgement
for a lease that is not in the table, and the indexes get it back. -/
theorem commit_not_safe : ¬∀ (nu : Netutil) (conf : V4ServerConf) (x y : Session) (i : Nat)
    (now : Time) (reply : Reply),
    Reaches (Session.step nu) (fun _ _ => True) ⟨(v4Create conf).1, []⟩ x →
      x.step nu (.commit i now) = some (y, reply) → CommitSafe y reply := by
  intro safe
  let release : Event := .op (.packet { messageType := .release, clientHWAddr := clientMAC 1,
                                        requestedIP := (hostAddr 100).asSlice } {})
  have answers : ((exec (Session.step .ascii) ⟨(v4Create smallConf).1, []⟩
      [offered, asked, release]).bind fun x =>
        (Session.step .ascii x (.commit 0 20)).map fun out =>
          (out.2.acked, out.1.server.leases.elems)) = some (some 0, []) := by decide
  obtain ⟨x, done, rest⟩ := Option.bind_eq_some_iff.mp answers
  obtain ⟨⟨y, reply⟩, taken, result⟩ := Option.map_eq_some_iff.mp rest
  obtain ⟨acked, elems⟩ := Prod.mk.inj result
  have listed := (safe .ascii smallConf x y 0 20 reply
    (reaches_of_exec (by simp) done) taken).acked 0 acked
  rw [elems] at listed
  cases listed

end FirewallCore.Dhcpd.V4Server
