import FirewallCore.Lib.Run
import FirewallCore.Lib.Registry
import FirewallCore.Dhcpsvc.Server

/-!
The agreement of the index of the DHCP service with the leases of its
interfaces, over every sequence of calls.

The index and the interfaces together are a registry of leases, in which a lease
is identified by its address, by its lower-cased name and by its MAC on the
interface responsible for its address. `RemoveLease` and `UpdateStaticLease` look
a lease up by each of them, but do not compare what they find; `LeaseOp` says when
it is one lease.
-/

namespace FirewallCore.Dhcpsvc

open FirewallCore.Net FirewallCore.Lib

namespace DHCPServer

variable {lower : String → String} {srv srv' : DHCPServer} {l : Lease} {r : IfaceRef}
  {iface iface' : NetInterface}

/-- The lease with a MAC on an interface. -/
def leaseOn (srv : DHCPServer) (r : IfaceRef) (mac : HardwareAddr) : Option Lease :=
  (srv.iface r).bind fun iface => iface.leases mac

/-- The leases in `byAddr`, those in `byName` and those of the interfaces are the same,
each under its own address, its lower-cased name, and its MAC on the interface
responsible for its address. -/
structure SameLeases (lower : String → String) (srv : DHCPServer) : Prop where
  addrName : ∀ l, (∃ a, srv.leases.byAddr a = some l) ↔ ∃ n, srv.leases.byName n = some l
  nameMAC : ∀ l, (∃ n, srv.leases.byName n = some l) ↔ ∃ r mac, srv.leaseOn r mac = some l
  addr : ∀ a l, srv.leases.byAddr a = some l → l.ip = a
  name : ∀ n l, srv.leases.byName n = some l → lower l.hostname = n
  mac : ∀ r mac l, srv.leaseOn r mac = some l → l.hwAddr = mac ∧ srv.responsible l.ip = some r

/-- What the calls need. The leases `RemoveLease` finds by address, by name and by MAC
are one, and a lease with the MAC of the argument that `UpdateStaticLease` finds by name
is the one it replaces. -/
def LeaseOp (lower : String → String) (srv : DHCPServer) : Op → Prop
  | .addLease _ _ => True
  | .updateStaticLease l _ => ∀ r e prev, srv.responsible l.ip = some r →
      (∀ a, srv.leases.byAddr l.ip = some a → a.hwAddr = l.hwAddr) →
      srv.leases.byName (lower l.hostname) = some e → e.hwAddr = l.hwAddr →
      srv.leaseOn r l.hwAddr = some prev → e = prev
  | .removeLease l _ => ∀ r a b c, srv.responsible l.ip = some r →
      srv.leases.byAddr l.ip = some a → srv.leases.byName (lower l.hostname) = some b →
      srv.leaseOn r l.hwAddr = some c → a = b ∧ a = c
  | .reset _ => True

/-! ### Interfaces -/

theorem ifaceForAddr_ok {a : Addr} (found : srv.ifaceForAddr a = .ok (r, iface)) :
    srv.responsible a = some r ∧ srv.iface r = some iface := by
  unfold ifaceForAddr at found
  split at found
  · rename_i pair there
    cases found
    obtain ⟨r', here, there⟩ := Option.bind_eq_some_iff.mp there
    obtain ⟨iface', stored, same⟩ := Option.map_eq_some_iff.mp there
    cases same
    exact ⟨here, stored⟩
  · cases found

theorem find4_eq (ifaces : List DHCPInterfaceV4) (ip : Addr) :
    find4 ifaces ip = (ifaces.map (·.subnet)).findIdx? (·.contains ip) := by
  rw [List.findIdx?_map]
  rfl

theorem find6_eq (ifaces : List DHCPInterfaceV6) (ip : Addr) :
    find6 ifaces ip = (ifaces.map (·.rangeStart)).findIdx? fun start =>
      !ip.less start && (Prefix.ofAddr start (128 - 8)).contains ip := by
  rw [List.findIdx?_map]
  rfl

theorem map_modify_eq {α β : Type} {f : α → α} {g : α → β} (same : ∀ x, g (f x) = g x)
    (xs : List α) (i : Nat) : (xs.modify i f).map g = xs.map g := by
  apply List.ext_getElem?
  intro j
  rw [List.getElem?_map, List.getElem?_map, List.getElem?_modify]
  split
  · cases xs[j]? with
    | none => rfl
    | some x => simp [same]
  · simp

/-- Which interface is responsible does not depend on the leases. -/
theorem responsible_setIface : (srv.setIface iface r).responsible = srv.responsible := by
  funext a
  cases r with
  | v4 i =>
    simp only [responsible, setIface, find4_eq]
    rw [map_modify_eq]
    intro x
    rfl
  | v6 i =>
    simp only [responsible, setIface, find6_eq]
    rw [map_modify_eq]
    intro x
    rfl

theorem leaseOn_setIface (there : srv.iface r = some iface) (r' : IfaceRef) (mac : HardwareAddr) :
    (srv.setIface iface' r).leaseOn r' mac =
      if r' = r then iface'.leases mac else srv.leaseOn r' mac := by
  unfold leaseOn
  cases r with
  | v4 i =>
    obtain ⟨x, entry, -⟩ := Option.map_eq_some_iff.mp there
    cases r' with
    | v4 j =>
      simp only [setIface, DHCPServer.iface, List.getElem?_modify]
      by_cases same : j = i
      · simp [same, entry]
      · simp [same, Ne.symm same]
    | v6 j => rfl
  | v6 i =>
    obtain ⟨x, entry, -⟩ := Option.map_eq_some_iff.mp there
    cases r' with
    | v4 j => rfl
    | v6 j =>
      simp only [setIface, DHCPServer.iface, List.getElem?_modify]
      by_cases same : j = i
      · simp [same, entry]
      · simp [same, Ne.symm same]

/-! ### The leases as a registry -/

/-- By what a lease is found. -/
inductive Ident where
  | addr (a : Addr)
  | name (n : String)
  | place (r : Option IfaceRef) (mac : HardwareAddr)
  deriving DecidableEq

/-- The identifiers of a lease. -/
def idents (lower : String → String) (resp : Addr → Option IfaceRef) (l : Lease) : List Ident :=
  [.addr l.ip, .name (lower l.hostname), .place (resp l.ip) l.hwAddr]

/-- The lease an identifier leads to. -/
def owner (srv : DHCPServer) : Ident → Option Lease
  | .addr a => srv.leases.byAddr a
  | .name n => srv.leases.byName n
  | .place none _ => none
  | .place (some r) mac => srv.leaseOn r mac

/-- The registry of leases. A lease is its own key. -/
def registry (srv : DHCPServer) : Registry Ident Lease Lease :=
  ⟨srv.owner, fun l => if srv.leases.byAddr l.ip = some l then some l else none⟩

abbrev Coherent (lower : String → String) (srv : DHCPServer) : Prop :=
  srv.registry.Coherent (idents lower srv.responsible) id

theorem members_some {x : Lease} :
    srv.registry.members l = some x ↔ srv.leases.byAddr l.ip = some l ∧ x = l := by
  unfold registry
  dsimp only
  split
  · simp [*, eq_comm]
  · simp [*]

/-- Two servers with the same look-ups are the same registry. -/
theorem registry_eq {reg : Registry Ident Lease Lease} (owner : ∀ i, srv.owner i = reg.owner i)
    (members : ∀ x, (if srv.leases.byAddr x.ip = some x then some x else none) = reg.members x) :
    srv.registry = reg := by
  cases reg with
  | mk o m =>
    unfold registry
    congr 1
    · funext i
      exact owner i
    · funext x
      exact members x

theorem coherent_iff : Coherent lower srv ↔
    ∀ i l, srv.owner i = some l ↔
      srv.leases.byAddr l.ip = some l ∧ i ∈ idents lower srv.responsible l := by
  have stored : ∀ i l, (∃ m, srv.registry.members l = some m ∧ i ∈ idents lower srv.responsible m) ↔
      srv.leases.byAddr l.ip = some l ∧ i ∈ idents lower srv.responsible l := by
    intro i l
    simp only [members_some]
    constructor
    · rintro ⟨m, ⟨there, rfl⟩, his⟩
      exact ⟨there, his⟩
    · rintro ⟨there, his⟩
      exact ⟨l, ⟨there, rfl⟩, his⟩
  constructor
  · intro coherent i l
    rw [← stored i l]
    exact coherent.exact i l
  · intro exact
    constructor
    · intro u m there
      exact (members_some.mp there).2
    · intro i u
      rw [stored i u]
      exact exact i u

/-- The maps hold the same leases exactly when the registry is coherent. -/
theorem sameLeases_iff : SameLeases lower srv ↔ Coherent lower srv := by
  rw [coherent_iff]
  constructor
  · intro same i l
    have byIP : (∃ a, srv.leases.byAddr a = some l) → srv.leases.byAddr l.ip = some l := by
      rintro ⟨a, there⟩
      rw [same.addr a l there, there]
    constructor
    · intro found
      cases i with
      | addr a =>
        have ip := same.addr a l found
        exact ⟨byIP ⟨a, found⟩, by simp [idents, ip]⟩
      | name n =>
        have hostname := same.name n l found
        exact ⟨byIP ((same.addrName l).mpr ⟨n, found⟩), by simp [idents, hostname]⟩
      | place r mac =>
        cases r with
        | none => cases found
        | some r =>
          obtain ⟨hwAddr, resp⟩ := same.mac r mac l found
          have named := (same.nameMAC l).mpr ⟨r, mac, found⟩
          exact ⟨byIP ((same.addrName l).mpr named), by simp [idents, hwAddr, resp]⟩
    · rintro ⟨there, his⟩
      have named := (same.addrName l).mp ⟨_, there⟩
      simp only [idents, List.mem_cons, List.not_mem_nil, or_false] at his
      rcases his with rfl | rfl | rfl
      · exact there
      · obtain ⟨n, found⟩ := named
        rw [same.name n l found]
        exact found
      · obtain ⟨r, mac, found⟩ := (same.nameMAC l).mp named
        obtain ⟨hwAddr, resp⟩ := same.mac r mac l found
        rw [resp, hwAddr]
        exact found
  · intro exact
    have place : ∀ l, srv.leases.byAddr l.ip = some l →
        ∃ r, srv.responsible l.ip = some r ∧ srv.leaseOn r l.hwAddr = some l := by
      intro l there
      have found := (exact (.place (srv.responsible l.ip) l.hwAddr) l).mpr ⟨there, by simp [idents]⟩
      cases resp : srv.responsible l.ip with
      | none =>
        rw [resp] at found
        cases found
      | some r =>
        rw [resp] at found
        exact ⟨r, rfl, found⟩
    have byAddr := fun a l => (exact (.addr a) l).mp
    have byName := fun n l => (exact (.name n) l).mp
    have byMAC := fun r mac l => (exact (.place (some r) mac) l).mp
    refine ⟨?_, ?_, ?_, ?_, ?_⟩
    · intro l
      constructor
      · rintro ⟨a, found⟩
        exact ⟨_, (exact (.name _) l).mpr ⟨(byAddr a l found).1, by simp [idents]; rfl⟩⟩
      · rintro ⟨n, found⟩
        exact ⟨_, (byName n l found).1⟩
    · intro l
      constructor
      · rintro ⟨n, found⟩
        obtain ⟨r, -, here⟩ := place l (byName n l found).1
        exact ⟨r, _, here⟩
      · rintro ⟨r, mac, found⟩
        exact ⟨_, (exact (.name _) l).mpr ⟨(byMAC r mac l found).1, by simp [idents]; rfl⟩⟩
    · intro a l found
      simpa [idents, eq_comm] using (byAddr a l found).2
    · intro n l found
      simpa [idents, eq_comm] using (byName n l found).2
    · intro r mac l found
      have his := (byMAC r mac l found).2
      simp only [idents, List.mem_cons, reduceCtorEq, Ident.place.injEq, List.not_mem_nil, or_false,
        false_or] at his
      exact ⟨his.2.symm, his.1.symm⟩

/-! ### What the calls do -/

end DHCPServer

namespace LeaseIndex

variable {lower : String → String} {idx : LeaseIndex} {l : Lease} {iface : NetInterface}
  {out : Except SvcErr (LeaseIndex × NetInterface)}

/-- `add` fails, or enters a lease that shares nothing with another one. -/
theorem add_some (done : idx.add lower l iface = some out) :
    (∃ err, out = .error err) ∨
      idx.byAddr l.ip = none ∧ idx.byName (lower l.hostname) = none ∧
        iface.leases l.hwAddr = none ∧
        out = .ok (⟨Function.update idx.byAddr l.ip (some l),
          Function.update idx.byName (lower l.hostname) (some l)⟩,
          ⟨Function.update iface.leases l.hwAddr (some l)⟩) := by
  unfold add at done
  dsimp only at done
  split at done
  · cases done
    exact .inl ⟨_, rfl⟩
  split at done
  · cases done
    exact .inl ⟨_, rfl⟩
  rename_i noIP noName
  obtain ⟨added, inner, done⟩ := Option.bind_eq_some_iff.mp done
  obtain ⟨mk, key, inner⟩ := Option.bind_eq_some_iff.mp inner
  obtain rfl := macToKey_some key
  split at inner
  · cases inner
    cases done
    exact .inl ⟨_, rfl⟩
  · rename_i noMAC
    cases inner
    cases done
    exact .inr ⟨Option.not_isSome_iff_eq_none.mp noIP, Option.not_isSome_iff_eq_none.mp noName,
      noMAC, rfl⟩

/-- `remove` fails for want of an address, a name or a MAC, or removes each of them. -/
theorem remove_some (done : idx.remove lower l iface = some out) :
    ((∃ err, out = .error err) ∧ (idx.byAddr l.ip = none ∨ idx.byName (lower l.hostname) = none ∨
        iface.leases l.hwAddr = none)) ∨
      ∃ a b c, idx.byAddr l.ip = some a ∧ idx.byName (lower l.hostname) = some b ∧
        iface.leases l.hwAddr = some c ∧
        out = .ok (⟨Function.update idx.byAddr l.ip none,
          Function.update idx.byName (lower l.hostname) none⟩,
          ⟨Function.update iface.leases l.hwAddr none⟩) := by
  unfold remove at done
  dsimp only at done
  split at done
  · rename_i noIP
    cases done
    exact .inl ⟨⟨_, rfl⟩, .inl (Option.isNone_iff_eq_none.mp noIP)⟩
  split at done
  · rename_i noName
    cases done
    exact .inl ⟨⟨_, rfl⟩, .inr (.inl (Option.isNone_iff_eq_none.mp noName))⟩
  rename_i hasIP hasName
  obtain ⟨a, byIP⟩ : ∃ a, idx.byAddr l.ip = some a :=
    Option.ne_none_iff_exists'.mp fun missing => hasIP (by rw [missing]; rfl)
  obtain ⟨b, byName⟩ : ∃ b, idx.byName (lower l.hostname) = some b :=
    Option.ne_none_iff_exists'.mp fun missing => hasName (by rw [missing]; rfl)
  obtain ⟨removed, inner, done⟩ := Option.bind_eq_some_iff.mp done
  obtain ⟨mk, key, inner⟩ := Option.bind_eq_some_iff.mp inner
  obtain rfl := macToKey_some key
  split at inner
  · rename_i noMAC
    cases inner
    cases done
    exact .inl ⟨⟨_, rfl⟩, .inr (.inr noMAC)⟩
  · rename_i c byMAC
    cases inner
    cases done
    exact .inr ⟨a, b, c, byIP, byName, byMAC, rfl⟩

/-- `update` fails since the address or the name belongs to another MAC or the MAC is
unknown, or exchanges the lease with the MAC. -/
theorem update_some (done : idx.update lower l iface = some out) :
    ((∃ err, out = .error err) ∧ ((∃ a, idx.byAddr l.ip = some a ∧ a.hwAddr ≠ l.hwAddr) ∨
        (∃ b, idx.byName (lower l.hostname) = some b ∧ b.hwAddr ≠ l.hwAddr) ∨
        iface.leases l.hwAddr = none)) ∨
      (∀ a, idx.byAddr l.ip = some a → a.hwAddr = l.hwAddr) ∧
      (∀ b, idx.byName (lower l.hostname) = some b → b.hwAddr = l.hwAddr) ∧
      ∃ prev, iface.leases l.hwAddr = some prev ∧
        out = .ok (⟨Function.update (Function.update idx.byAddr prev.ip none) l.ip (some l),
          Function.update (Function.update idx.byName (lower prev.hostname) none)
            (lower l.hostname) (some l)⟩, ⟨Function.update iface.leases l.hwAddr (some l)⟩) := by
  unfold update at done
  dsimp only at done
  split at done
  · rename_i otherMAC
    cases done
    obtain ⟨a, byIP, differs⟩ := (Option.any_eq_true ..).mp otherMAC
    exact .inl ⟨⟨_, rfl⟩, .inl ⟨a, byIP, Ne.symm (bne_iff_ne.mp differs)⟩⟩
  split at done
  · rename_i otherMAC
    cases done
    obtain ⟨b, byName, differs⟩ := (Option.any_eq_true ..).mp otherMAC
    exact .inl ⟨⟨_, rfl⟩, .inr (.inl ⟨b, byName, Ne.symm (bne_iff_ne.mp differs)⟩)⟩
  rename_i ipFits nameFits
  obtain ⟨updated, inner, done⟩ := Option.bind_eq_some_iff.mp done
  obtain ⟨mk, key, inner⟩ := Option.bind_eq_some_iff.mp inner
  obtain rfl := macToKey_some key
  split at inner
  · rename_i noMAC
    cases inner
    cases done
    exact .inl ⟨⟨_, rfl⟩, .inr (.inr noMAC)⟩
  · rename_i prev byMAC
    cases inner
    cases done
    refine .inr ⟨?_, ?_, prev, byMAC, rfl⟩
    · intro a byIP
      have fits : l.hwAddr = a.hwAddr := by simpa [byIP] using ipFits
      exact fits.symm
    · intro b byName
      have fits : l.hwAddr = b.hwAddr := by simpa [byName] using nameFits
      exact fits.symm

end LeaseIndex

namespace DHCPServer

variable {lower : String → String} {srv srv' : DHCPServer} {l : Lease} {r : IfaceRef}
  {iface iface' : NetInterface} {leases : LeaseIndex}

/-- The look-ups after a change of the index and of one interface. -/
theorem owner_changed (there : srv.iface r = some iface) (i : Ident) :
    owner { srv.setIface iface' r with leases := leases } i = match i with
      | .addr a => leases.byAddr a
      | .name n => leases.byName n
      | .place r' mac => if r' = some r then iface'.leases mac else srv.owner (.place r' mac) := by
  cases i with
  | addr a => rfl
  | name n => rfl
  | place r' mac =>
    cases r' with
    | none => rfl
    | some r' =>
      simp only [Option.some.injEq]
      exact leaseOn_setIface there r' mac

theorem responsible_changed :
    responsible { srv.setIface iface' r with leases := leases } = srv.responsible :=
  responsible_setIface

/-- The look-ups after a write under the identifiers of a lease. -/
theorem owner_write (resp : srv.responsible l.ip = some r) (there : srv.iface r = some iface)
    (x : Option Lease) (i : Ident) :
    owner { srv.setIface ⟨Function.update iface.leases l.hwAddr x⟩ r with
      leases := ⟨Function.update srv.leases.byAddr l.ip x,
        Function.update srv.leases.byName (lower l.hostname) x⟩ } i =
      if i ∈ idents lower srv.responsible l then x else srv.owner i := by
  rw [owner_changed there]
  cases i with
  | addr a => simp [idents, Function.update_apply, owner]
  | name n => simp [idents, Function.update_apply, owner]
  | place r' mac =>
    by_cases here : r' = some r
    · subst here
      simp [idents, Function.update_apply, owner, leaseOn, resp, there]
    · simp [idents, here, resp]

/-- An added lease is entered into the registry. -/
theorem registry_add (resp : srv.responsible l.ip = some r) (there : srv.iface r = some iface)
    (noIP : srv.leases.byAddr l.ip = none) :
    registry { srv.setIface ⟨Function.update iface.leases l.hwAddr (some l)⟩ r with
      leases := ⟨Function.update srv.leases.byAddr l.ip (some l),
        Function.update srv.leases.byName (lower l.hostname) (some l)⟩ } =
      srv.registry.insert (idents lower srv.responsible) id l := by
  apply registry_eq
  · exact owner_write resp there (some l)
  · intro x
    rw [Registry.members_insert]
    by_cases same : x = l
    · subst same
      simp
    · by_cases ip : x.ip = l.ip
      · simp [same, ip, Ne.symm same, registry, noIP]
      · simp [same, ip, registry]

namespace Coherent

variable {a b e prev : Lease}

theorem found (coherent : Coherent lower srv) {i : Ident} (found : srv.owner i = some e) :
    srv.leases.byAddr e.ip = some e ∧ i ∈ idents lower srv.responsible e :=
  (coherent_iff.mp coherent i e).mp found

theorem byAddr (coherent : Coherent lower srv) {addr : Addr}
    (there : srv.leases.byAddr addr = some e) : e.ip = addr := by
  have his := (coherent.found (i := .addr addr) there).2
  simpa [idents, eq_comm] using his

theorem byName (coherent : Coherent lower srv) {n : String}
    (there : srv.leases.byName n = some e) : lower e.hostname = n := by
  have his := (coherent.found (i := .name n) there).2
  simpa [idents, eq_comm] using his

theorem onIface (coherent : Coherent lower srv) {mac : HardwareAddr}
    (there : srv.leaseOn r mac = some e) : e.hwAddr = mac ∧ srv.responsible e.ip = some r := by
  have his := (coherent.found (i := .place (some r) mac) there).2
  simp only [idents, List.mem_cons, reduceCtorEq, Ident.place.injEq, List.not_mem_nil, or_false,
    false_or] at his
  exact ⟨his.2.symm, his.1.symm⟩

/-- A stored lease is on the interface responsible for its address. -/
theorem leaseOn (coherent : Coherent lower srv) (stored : srv.leases.byAddr e.ip = some e)
    (resp : srv.responsible e.ip = some r) : srv.leaseOn r e.hwAddr = some e := by
  have leads := (coherent_iff.mp coherent (.place (srv.responsible e.ip) e.hwAddr) e).mpr
    ⟨stored, by simp [idents]⟩
  rw [resp] at leads
  exact leads

/-- A lease that is found by all three of its identifiers leaves the registry. -/
theorem registry_remove (coherent : Coherent lower srv) (resp : srv.responsible l.ip = some r)
    (there : srv.iface r = some iface) (byIP : srv.leases.byAddr l.ip = some e)
    (named : srv.leases.byName (lower l.hostname) = some e)
    (byMAC : srv.leaseOn r l.hwAddr = some e) :
    registry { srv.setIface ⟨Function.update iface.leases l.hwAddr none⟩ r with
      leases := ⟨Function.update srv.leases.byAddr l.ip none,
        Function.update srv.leases.byName (lower l.hostname) none⟩ } =
      srv.registry.erase (idents lower srv.responsible) id e := by
  have ip := coherent.byAddr byIP
  rw [← ip] at resp byIP
  rw [← ip, ← coherent.byName named, ← (coherent.onIface byMAC).1]
  apply registry_eq
  · exact owner_write resp there none
  · intro x
    rw [Registry.members_erase]
    by_cases same : x = e
    · subst same
      simp
    · by_cases ip : x.ip = e.ip
      · simp [same, ip, Ne.symm same, registry, byIP]
      · simp [same, ip, registry]

/-- The updated lease takes the place of the one with its MAC. -/
theorem registry_update (coherent : Coherent lower srv) (resp : srv.responsible l.ip = some r)
    (there : srv.iface r = some iface) (byMAC : srv.leaseOn r l.hwAddr = some prev)
    (ipFits : ∀ a, srv.leases.byAddr l.ip = some a → a = prev) :
    registry { srv.setIface ⟨Function.update iface.leases l.hwAddr (some l)⟩ r with
      leases := ⟨Function.update (Function.update srv.leases.byAddr prev.ip none) l.ip (some l),
        Function.update (Function.update srv.leases.byName (lower prev.hostname) none)
          (lower l.hostname) (some l)⟩ } =
      (srv.registry.erase (idents lower srv.responsible) id prev).insert
        (idents lower srv.responsible) id l := by
  obtain ⟨hwAddr, respPrev⟩ := coherent.onIface byMAC
  have stored : srv.leases.byAddr prev.ip = some prev :=
    (coherent.found (i := .place (some r) l.hwAddr) byMAC).1
  apply registry_eq
  · intro i
    rw [owner_changed there, Registry.owner_insert, Registry.owner_erase]
    cases i with
    | addr a => simp [idents, Function.update_apply, registry, owner]
    | name n => simp [idents, Function.update_apply, registry, owner]
    | place r' mac =>
      by_cases here : r' = some r
      · subst here
        by_cases mac' : mac = l.hwAddr
        · simp [idents, resp, mac']
        · simp [idents, resp, respPrev, hwAddr, mac', registry, owner, DHCPServer.leaseOn, there]
      · simp [idents, here, resp, respPrev, registry]
  · intro x
    rw [Registry.members_insert, Registry.members_erase]
    by_cases same : x = l
    · subst same
      simp
    · by_cases ip : x.ip = l.ip
      · -- an old lease under the address could only be the replaced one
        by_cases old : x = prev
        · subst old
          simp [same, ip, Ne.symm same]
        · have other : srv.leases.byAddr l.ip ≠ some x := fun found => old (ipFits x found)
          simp [same, ip, Ne.symm same, old, registry, other]
      · by_cases old : x = prev
        · subst old
          simp [same, ip]
        · by_cases ipPrev : x.ip = prev.ip
          · rw [ipPrev] at ip
            simp [same, ip, old, Ne.symm old, ipPrev, registry, stored]
          · simp [same, ip, old, ipPrev, registry]

/-! ### One call -/

theorem changed_iff : Coherent lower { srv.setIface iface' r with leases := leases } ↔
    (registry { srv.setIface iface' r with leases := leases }).Coherent
      (idents lower srv.responsible) id := by
  unfold Coherent
  rw [responsible_changed]

/-- `AddLease` keeps the registry coherent. -/
theorem add (coherent : Coherent lower srv) (resp : srv.responsible l.ip = some r)
    (there : srv.iface r = some iface) (noIP : srv.leases.byAddr l.ip = none)
    (noName : srv.leases.byName (lower l.hostname) = none)
    (noMAC : iface.leases l.hwAddr = none) :
    Coherent lower { srv.setIface ⟨Function.update iface.leases l.hwAddr (some l)⟩ r with
      leases := ⟨Function.update srv.leases.byAddr l.ip (some l),
        Function.update srv.leases.byName (lower l.hostname) (some l)⟩ } := by
  rw [changed_iff, registry_add resp there noIP]
  apply Registry.Coherent.insert coherent
  · simp [registry, noIP]
  · intro i his
    simp only [idents, List.mem_cons, List.not_mem_nil, or_false] at his
    rcases his with rfl | rfl | rfl
    · exact noIP
    · exact noName
    · rw [resp]
      simpa [registry, owner, DHCPServer.leaseOn, there] using noMAC

/-- `RemoveLease` keeps the registry coherent exactly when it has found one lease. -/
theorem remove_iff (coherent : Coherent lower srv) {c : Lease}
    (resp : srv.responsible l.ip = some r) (there : srv.iface r = some iface)
    (byIP : srv.leases.byAddr l.ip = some a)
    (named : srv.leases.byName (lower l.hostname) = some b)
    (byMAC : srv.leaseOn r l.hwAddr = some c) :
    Coherent lower { srv.setIface ⟨Function.update iface.leases l.hwAddr none⟩ r with
      leases := ⟨Function.update srv.leases.byAddr l.ip none,
        Function.update srv.leases.byName (lower l.hostname) none⟩ } ↔ a = b ∧ a = c := by
  have ip := coherent.byAddr byIP
  constructor
  · intro coherent'
    have stored : srv.leases.byAddr a.ip = some a := by rw [ip, byIP]
    -- the lease is gone from `byAddr`, so nothing may lead to it
    have gone : ∀ i, owner { srv.setIface ⟨Function.update iface.leases l.hwAddr none⟩ r with
        leases := ⟨Function.update srv.leases.byAddr l.ip none,
          Function.update srv.leases.byName (lower l.hostname) none⟩ } i ≠ some a := by
      intro i leads
      have left := (coherent'.found leads).1
      simp [ip] at left
    constructor
    · have leads := (coherent_iff.mp coherent (.name (lower a.hostname)) a).mpr
        ⟨stored, by simp [idents]⟩
      have lost := gone (.name (lower a.hostname))
      rw [owner_changed there] at lost
      by_cases same : lower a.hostname = lower l.hostname
      · rw [same] at leads
        exact Option.some.inj (leads.symm.trans named)
      · refine absurd ?_ lost
        simpa [same, owner] using leads
    · have leads := coherent.leaseOn stored (ip ▸ resp)
      have lost := gone (.place (some r) a.hwAddr)
      rw [owner_changed there] at lost
      by_cases same : a.hwAddr = l.hwAddr
      · rw [same] at leads
        exact Option.some.inj (leads.symm.trans byMAC)
      · refine absurd ?_ lost
        simpa [same, DHCPServer.leaseOn, there] using leads
  · rintro ⟨rfl, rfl⟩
    rw [changed_iff, coherent.registry_remove resp there byIP named byMAC]
    apply Registry.Coherent.erase coherent
    rw [← ip] at byIP
    exact members_some.mpr ⟨byIP, rfl⟩

/-- `UpdateStaticLease` keeps the registry coherent exactly when the name of the new
lease is free or that of the replaced one. -/
theorem update_iff (coherent : Coherent lower srv) (resp : srv.responsible l.ip = some r)
    (there : srv.iface r = some iface) (byMAC : srv.leaseOn r l.hwAddr = some prev)
    (ipFits : ∀ a, srv.leases.byAddr l.ip = some a → a.hwAddr = l.hwAddr)
    (nameFits : ∀ b, srv.leases.byName (lower l.hostname) = some b → b.hwAddr = l.hwAddr) :
    Coherent lower { srv.setIface ⟨Function.update iface.leases l.hwAddr (some l)⟩ r with
      leases := ⟨Function.update (Function.update srv.leases.byAddr prev.ip none) l.ip (some l),
        Function.update (Function.update srv.leases.byName (lower prev.hostname) none)
          (lower l.hostname) (some l)⟩ } ↔
      ∀ e, srv.leases.byName (lower l.hostname) = some e → e = prev := by
  have ofPrev : ∀ a, srv.leases.byAddr l.ip = some a → a = prev := by
    intro a byIP
    have ip := coherent.byAddr byIP
    have leads := coherent.leaseOn (ip.symm ▸ byIP) (ip.symm ▸ resp)
    rw [ipFits a byIP, byMAC] at leads
    exact (Option.some.inj leads).symm
  constructor
  · intro coherent' e named
    have hwAddr := nameFits e named
    have stored := (coherent.found (i := .name (lower l.hostname)) named).1
    have leads := (coherent_iff.mp coherent (.place (srv.responsible e.ip) e.hwAddr) e).mpr
      ⟨stored, by simp [idents]⟩
    by_cases here : srv.responsible e.ip = some r
    · rw [here, hwAddr] at leads
      exact Option.some.inj (leads.symm.trans byMAC)
    · -- on another interface the old lease stays, but its name leads to the new one
      have stays := coherent'.found (i := .place (srv.responsible e.ip) e.hwAddr) (e := e) (by
        rw [owner_changed there]
        simp only [here, if_false, leads])
      have name := (coherent_iff.mp coherent' (.name (lower e.hostname)) e).mpr
        ⟨stays.1, by simp [idents]⟩
      rw [owner_changed there, coherent.byName named] at name
      obtain rfl : l = e := by simpa using name
      exact absurd resp here
  · intro free
    rw [changed_iff, coherent.registry_update resp there byMAC ofPrev]
    apply Registry.Coherent.exchange coherent
    · exact members_some.mpr ⟨(coherent.found (i := .place (some r) l.hwAddr) byMAC).1, rfl⟩
    · intro n there
      exact ofPrev l (members_some.mp there).1
    · intro i his u leads
      simp only [idents, List.mem_cons, List.not_mem_nil, or_false] at his
      rcases his with rfl | rfl | rfl
      · exact ofPrev u leads
      · exact free u leads
      · rw [resp] at leads
        exact Option.some.inj (leads.symm.trans byMAC)

end Coherent

theorem ifaceForAddr_of {a : Addr} (resp : srv.responsible a = some r)
    (there : srv.iface r = some iface) : srv.ifaceForAddr a = .ok (r, iface) := by
  simp [ifaceForAddr, resp, there]

/-- A call fails and changes nothing, or changes the index and the interface responsible
for the address. -/
theorem changeLease_some {text : String} {stored : Option String} {err : Option SvcErr}
    {change : LeaseIndex → Lease → NetInterface → Option (Except SvcErr (LeaseIndex × NetInterface))}
    (done : changeLease text change srv l stored = some (srv', err)) :
    (srv' = srv ∧ ∀ r iface, srv.responsible l.ip = some r → srv.iface r = some iface →
        ∃ failure, change srv.leases l iface = some (.error failure)) ∨
      ∃ r iface leases iface', srv.responsible l.ip = some r ∧ srv.iface r = some iface ∧
        change srv.leases l iface = some (.ok (leases, iface')) ∧
        srv' = { srv.setIface iface' r with leases := leases } := by
  unfold changeLease at done
  split at done
  · rename_i failure missing
    cases done
    refine .inl ⟨rfl, ?_⟩
    intro r iface resp there
    rw [ifaceForAddr_of resp there] at missing
    cases missing
  · rename_i r iface found
    obtain ⟨resp, there⟩ := ifaceForAddr_ok found
    obtain ⟨out, changed, done⟩ := Option.bind_eq_some_iff.mp done
    split at done
    · rename_i failure
      cases done
      refine .inl ⟨rfl, ?_⟩
      intro r' iface' resp' there'
      rw [resp] at resp'
      cases resp'
      rw [there] at there'
      cases there'
      exact ⟨failure, changed⟩
    · rename_i leases iface'
      cases done
      exact .inr ⟨r, iface, leases, iface', resp, there, changed, rfl⟩

/-- A reset leaves no lease. -/
theorem Coherent.resetLeases : Coherent lower srv.resetLeases := by
  have none4 : ∀ i mac, srv.resetLeases.leaseOn (.v4 i) mac = none := by
    intro i mac
    simp only [DHCPServer.leaseOn, iface, DHCPServer.resetLeases, List.getElem?_map]
    cases srv.interfaces4[i]? <;> rfl
  have none6 : ∀ i mac, srv.resetLeases.leaseOn (.v6 i) mac = none := by
    intro i mac
    simp only [DHCPServer.leaseOn, iface, DHCPServer.resetLeases, List.getElem?_map]
    cases srv.interfaces6[i]? <;> rfl
  have empty : srv.resetLeases.registry = Registry.empty := by
    apply registry_eq
    · intro i
      match i with
      | .addr a => rfl
      | .name n => rfl
      | .place none mac => rfl
      | .place (some (.v4 i)) mac => exact none4 i mac
      | .place (some (.v6 i)) mac => exact none6 i mac
    · intro x
      rfl
  unfold Coherent
  rw [empty]
  exact .empty

/-- A call keeps the registry coherent exactly when it meets `LeaseOp`. -/
theorem Coherent.step_iff (coherent : Coherent lower srv) {op : Op} {err : Option SvcErr}
    (taken : DHCPServer.step lower srv op = some (srv', err)) :
    Coherent lower srv' ↔ LeaseOp lower srv op := by
  cases op with
  | addLease l stored =>
    refine iff_of_true ?_ trivial
    rcases changeLease_some taken with ⟨rfl, -⟩ | ⟨r, iface, leases, iface', resp, there, done, rfl⟩
    · exact coherent
    rcases LeaseIndex.add_some done with ⟨failure, failed⟩ | ⟨noIP, noName, noMAC, changed⟩
    · cases failed
    · cases changed
      exact coherent.add resp there noIP noName noMAC
  | updateStaticLease l stored =>
    rcases changeLease_some taken with ⟨rfl, fails⟩ | ⟨r, iface, leases, iface', resp, there, done, rfl⟩
    · refine iff_of_true coherent ?_
      intro r e prev resp ipFits named hwAddr byMAC
      obtain ⟨iface, there, onIface⟩ := Option.bind_eq_some_iff.mp byMAC
      obtain ⟨failure, done⟩ := fails r iface resp there
      rcases LeaseIndex.update_some done with ⟨-, otherIP | otherName | noMAC⟩ | ⟨-, -, _, -, ok⟩
      · obtain ⟨a, byIP, other⟩ := otherIP
        exact absurd (ipFits a byIP) other
      · obtain ⟨b, named', other⟩ := otherName
        rw [named] at named'
        cases named'
        exact absurd hwAddr other
      · rw [noMAC] at onIface
        cases onIface
      · cases ok
    · rcases LeaseIndex.update_some done with ⟨⟨failure, failed⟩, -⟩ |
        ⟨ipFits, nameFits, prev, onIface, changed⟩
      · cases failed
      cases changed
      have byMAC : srv.leaseOn r l.hwAddr = some prev := by
        simp [DHCPServer.leaseOn, there, onIface]
      rw [coherent.update_iff resp there byMAC ipFits nameFits]
      constructor
      · intro free r' e prev' resp' _ named _ byMAC'
        rw [resp] at resp'
        cases resp'
        rw [byMAC] at byMAC'
        cases byMAC'
        exact free e named
      · intro guard e named
        exact guard r e prev resp ipFits named (nameFits e named) byMAC
  | removeLease l stored =>
    rcases changeLease_some taken with ⟨rfl, fails⟩ | ⟨r, iface, leases, iface', resp, there, done, rfl⟩
    · refine iff_of_true coherent ?_
      intro r a b c resp byIP named byMAC
      obtain ⟨iface, there, onIface⟩ := Option.bind_eq_some_iff.mp byMAC
      obtain ⟨failure, done⟩ := fails r iface resp there
      rcases LeaseIndex.remove_some done with ⟨-, noIP | noName | noMAC⟩ | ⟨_, _, _, -, -, -, ok⟩
      · rw [noIP] at byIP
        cases byIP
      · rw [noName] at named
        cases named
      · rw [noMAC] at onIface
        cases onIface
      · cases ok
    · rcases LeaseIndex.remove_some done with ⟨⟨failure, failed⟩, -⟩ |
        ⟨a, b, c, byIP, named, onIface, changed⟩
      · cases failed
      cases changed
      have byMAC : srv.leaseOn r l.hwAddr = some c := by
        simp [DHCPServer.leaseOn, there, onIface]
      rw [coherent.remove_iff resp there byIP named byMAC]
      constructor
      · intro one r' a' b' c' resp' byIP' named' byMAC'
        rw [resp] at resp'
        cases resp'
        rw [byIP] at byIP'
        cases byIP'
        rw [named] at named'
        cases named'
        rw [byMAC] at byMAC'
        cases byMAC'
        exact one
      · intro guard
        exact guard r a b c resp byIP named byMAC
  | reset stored =>
    cases taken
    exact iff_of_true Coherent.resetLeases trivial

/-- The leases of the file are entered like added ones. -/
theorem Coherent.addDBLeases (coherent : Coherent lower srv) {db : List Lease}
    (done : srv.addDBLeases lower db = some srv') : Coherent lower srv' := by
  induction db generalizing srv with
  | nil =>
    cases done
    exact coherent
  | cons l rest ih =>
    unfold DHCPServer.addDBLeases at done
    split at done
    · exact ih coherent done
    rename_i r iface found
    obtain ⟨resp, there⟩ := ifaceForAddr_ok found
    obtain ⟨out, added, done⟩ := Option.bind_eq_some_iff.mp done
    rcases LeaseIndex.add_some added with ⟨failure, rfl⟩ | ⟨noIP, noName, noMAC, rfl⟩
    · exact ih coherent done
    · exact ih (coherent.add resp there noIP noName noMAC) done

/-- After every sequence of calls that meet `LeaseOp` the index and the interfaces have
the same leases, and the next call keeps it so exactly when it meets `LeaseOp`. -/
theorem leases_coherent {subnets : List Prefix} {starts : List Addr} {db : List Lease}
    {start : DHCPServer} (loaded : (ofInterfaces subnets starts).dbLoad lower db = some start)
    (run : Reaches (DHCPServer.step lower) (LeaseOp lower) start srv) :
    SameLeases lower srv ∧ ∀ op srv' err, DHCPServer.step lower srv op = some (srv', err) →
      (SameLeases lower srv' ↔ LeaseOp lower srv op) := by
  have coherent : Coherent lower srv :=
    run.invariant (Coherent.resetLeases.addDBLeases loaded) fun _ _ _ _ coherent guard taken =>
      (coherent.step_iff taken).mpr guard
  refine ⟨sameLeases_iff.mpr coherent, ?_⟩
  intro op srv' err taken
  rw [sameLeases_iff]
  exact coherent.step_iff taken

/-- After every sequence of calls that meet `LeaseOp`, `HostByIP` and `IPByHost` are each
other's inverse, up to the case of the letters. -/
theorem hosts_inverse {subnets : List Prefix} {starts : List Addr} {db : List Lease}
    {start : DHCPServer} (loaded : (ofInterfaces subnets starts).dbLoad lower db = some start)
    (run : Reaches (DHCPServer.step lower) (LeaseOp lower) start srv) :
    (∀ ip, srv.hostByIP ip ≠ "" → srv.ipByHost lower (srv.hostByIP ip) = ip) ∧
      ∀ host, srv.ipByHost lower host ≠ .zero →
        lower (srv.hostByIP (srv.ipByHost lower host)) = lower host := by
  have coherent : Coherent lower srv :=
    run.invariant (Coherent.resetLeases.addDBLeases loaded) fun _ _ _ _ coherent guard taken =>
      (coherent.step_iff taken).mpr guard
  constructor
  · intro ip named
    cases found : srv.leases.byAddr ip with
    | none => simp [hostByIP, LeaseIndex.leaseByAddr, found] at named
    | some l =>
      have ip := coherent.byAddr found
      have stored := (coherent.found (i := .addr _) found).1
      have byName : srv.leases.byName (lower l.hostname) = some l :=
        (coherent_iff.mp coherent (.name _) l).mpr ⟨stored, by simp [idents]⟩
      simp [hostByIP, ipByHost, LeaseIndex.leaseByAddr, LeaseIndex.leaseByName, found, byName, ip]
  · intro host known
    cases found : srv.leases.byName (lower host) with
    | none => simp [ipByHost, LeaseIndex.leaseByName, found] at known
    | some l =>
      have stored := (coherent.found (i := .name _) found).1
      have name := coherent.byName found
      simp [hostByIP, ipByHost, LeaseIndex.leaseByAddr, LeaseIndex.leaseByName, found, stored, name]

/-! ### A small network -/

/-- A server for `192.168.0.0/24`. -/
def homeServer : DHCPServer := ofInterfaces [⟨.v4 0xc0a80001, some 24⟩] []

/-- The lease of the `n`-th client, `192.168.0.n`. -/
def clientLease (n : UInt8) (hostname : String) : Lease :=
  { ip := .v4 (0xc0a80000 + BitVec.ofNat 32 n.toNat)
    hostname := hostname
    hwAddr := [2, 0, 0, 0, 0, n] }

/-- A lease that is added to one of the file can be removed by its name in lower case. -/
theorem leases_coherent_removal :
    ∃ start srv srv' err, homeServer.dbLoad String.toLower [clientLease 2 "a"] = some start ∧
      Reaches (DHCPServer.step String.toLower) (LeaseOp String.toLower) start srv ∧
      srv.leases.byName "b" = some (clientLease 3 "B") ∧ SameLeases String.toLower srv ∧
      DHCPServer.step String.toLower srv (.removeLease (clientLease 3 "b") none) =
        some (srv', err) ∧ SameLeases String.toLower srv' := by
  let added := clientLease 3 "B"
  have evaluated : ((homeServer.dbLoad String.toLower [clientLease 2 "a"]).bind fun start =>
      (DHCPServer.step String.toLower start (.addLease added none)).map fun out =>
        decide (out.1.responsible added.ip = some (.v4 0) ∧
          out.1.leases.byAddr added.ip = some added ∧
          out.1.leases.byName "b" = some added ∧ out.1.leaseOn (.v4 0) added.hwAddr = some added ∧
          (DHCPServer.step String.toLower out.1
            (.removeLease (clientLease 3 "b") none)).isSome = true)) = some true := by
    decide +kernel
  obtain ⟨start, loaded, evaluated⟩ := Option.bind_eq_some_iff.mp evaluated
  obtain ⟨⟨srv, err⟩, taken, holds⟩ := Option.map_eq_some_iff.mp evaluated
  obtain ⟨resp, byIP, named, byMAC, removed⟩ := of_decide_eq_true holds
  obtain ⟨⟨srv', err'⟩, removed⟩ := Option.isSome_iff_exists.mp removed
  have run : Reaches (DHCPServer.step String.toLower) (LeaseOp String.toLower) start srv :=
    Reaches.refl.tail (show LeaseOp String.toLower start (.addLease added none) from trivial) taken
  obtain ⟨same, next⟩ := leases_coherent loaded run
  refine ⟨start, srv, srv', err', loaded, run, named, same, removed, (next _ _ _ removed).mpr ?_⟩
  have lowered : String.toLower (clientLease 3 "b").hostname = "b" := by decide +kernel
  intro r a b c resp' byIP' named' byMAC'
  cases resp.symm.trans resp'
  cases byIP.symm.trans byIP'
  rw [lowered] at named'
  cases named.symm.trans named'
  cases byMAC.symm.trans byMAC'
  exact ⟨rfl, rfl⟩

theorem hosts_inverse_home : ∃ srv, srv.hostByIP (clientLease 2 "A").ip = "A" ∧
    ipByHost String.toLower srv "A" = (clientLease 2 "A").ip := by
  have evaluated : (homeServer.dbLoad String.toLower [clientLease 2 "A"]).map
      (hostByIP · (clientLease 2 "A").ip) = some "A" := by
    decide +kernel
  obtain ⟨srv, loaded, named⟩ := Option.map_eq_some_iff.mp evaluated
  have inverse := (hosts_inverse loaded .refl).1 _ (by rw [named]; decide)
  rw [named] at inverse
  exact ⟨srv, named, inverse⟩

/-- Removing a lease by the address of one client and the name of another leaves a
half of each. -/
theorem leases_not_coherent : ¬∀ (lower : String → String) (subnets : List Prefix)
    (starts : List Addr) (db : List Lease) (start srv : DHCPServer),
    (ofInterfaces subnets starts).dbLoad lower db = some start →
    Reaches (DHCPServer.step lower) (fun _ _ => True) start srv → SameLeases lower srv := by
  intro always
  let kept := clientLease 2 "a"
  obtain ⟨srv, done, fails⟩ := exec_refutes (DHCPServer.step String.toLower) homeServer
    [.addLease kept none, .addLease (clientLease 3 "b") none,
      .removeLease { kept with hostname := "b" } none]
    (fun srv => srv.leases.byName "a" = some kept → srv.leases.byAddr kept.ip = some kept)
    (by decide +kernel)
  have same := always String.toLower [⟨.v4 0xc0a80001, some 24⟩] [] [] homeServer srv rfl
    (reaches_of_exec (by simp) done)
  apply fails
  intro named
  obtain ⟨a, there⟩ := (same.addrName kept).mpr ⟨"a", named⟩
  rw [same.addr a kept there, there]

end DHCPServer

end FirewallCore.Dhcpsvc
