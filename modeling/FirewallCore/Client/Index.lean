import FirewallCore.Lib.Registry
import FirewallCore.Aghalg.SortedMap
import FirewallCore.Client.Persistent

/-!
The index of persistent clients (`client/index.go`): five maps from the names
and identifiers of the clients to their UIDs, and one from the UIDs to the
clients.

A map lookup whose UID has no client gives a nil pointer, which some functions
check for and others dereference; a dereference of nil and an invalid MAC are
panics, and a call that panics is `none`. `registry` puts the five maps together
into one directory of identifiers, under which `add` and `remove` are the
operations of a registry.
-/

namespace FirewallCore.Client

open FirewallCore.Net FirewallCore.Lib FirewallCore.Aghalg

/-- `index`. -/
structure Index where
  nameToUID : String → Option UID
  clientIDToUID : String → Option UID
  ipToUID : Addr → Option UID
  macToUID : HardwareAddr → Option UID
  uidToClient : UID → Option Persistent
  subnetToUID : SortedMap Prefix UID subnetCompare

namespace Index

variable {ix ix' : Index} {c : Persistent}

/-- `newIndex`. -/
def newIndex : Index :=
  ⟨fun _ => none, fun _ => none, fun _ => none, fun _ => none, fun _ => none, .new⟩

/-! ### Adding and removing -/

/-- `add`. -/
def add (ix : Index) (c : Persistent) : Option Index := do
  if c.uid = 0 then none
  else
    let keys ← c.macs.mapM macToKey
    return {
      nameToUID := Function.update ix.nameToUID c.name (some c.uid)
      clientIDToUID := setAll ix.clientIDToUID c.clientIDs c.uid
      ipToUID := setAll ix.ipToUID c.ips c.uid
      subnetToUID := c.subnets.foldl (fun m pref => m.set pref c.uid) ix.subnetToUID
      macToUID := setAll ix.macToUID keys c.uid
      uidToClient := Function.update ix.uidToClient c.uid (some c) }

/-- `remove`. -/
def remove (ix : Index) (c : Persistent) : Option Index := do
  let keys ← c.macs.mapM macToKey
  return {
    nameToUID := Function.update ix.nameToUID c.name none
    clientIDToUID := delAll ix.clientIDToUID c.clientIDs
    ipToUID := delAll ix.ipToUID c.ips
    subnetToUID := c.subnets.foldl (fun m pref => m.del pref) ix.subnetToUID
    macToUID := delAll ix.macToUID keys
    uidToClient := Function.update ix.uidToClient c.uid none }

/-- `findByName`: whether the name is known, and the client, which may be nil. -/
def findByName (ix : Index) (name : String) : Option (Option Persistent) :=
  (ix.nameToUID name).map ix.uidToClient

/-! ### Clashes -/

/-- `clashesUID`. -/
def clashesUID (ix : Index) (c : Persistent) : Option ClientErr :=
  (ix.uidToClient c.uid).map fun p => .sameUID p.name

/-- `clashesName`: a different client with the same name. -/
def clashesName (ix : Index) (c : Persistent) : Option (Option Persistent) :=
  match ix.findByName c.name with
  | none => some none
  | some none => none
  | some (some existing) => some (if existing.uid ≠ c.uid then some existing else none)

/-- The first of the keys that leads to another UID. -/
def firstClash {K : Type} (find : K → Option UID) (uid : UID) (keys : List K) :
    Option (K × UID) :=
  keys.findSome? fun k =>
    match find k with
    | some existing => if existing ≠ uid then some (k, existing) else none
    | none => none

/-- The loop of `clashesMAC`. -/
def clashesMAC (ix : Index) (uid : UID) :
    List HardwareAddr → Option (Option (HardwareAddr × UID))
  | [] => some none
  | mac :: rest => do
    let k ← macToKey mac
    match ix.macToUID k with
    | some existing =>
      if existing ≠ uid then return some (mac, existing) else clashesMAC ix uid rest
    | none => clashesMAC ix uid rest

/-- The error about a clash whose client is not nil. -/
def clashErr {K : Type} (ix : Index) (err : String → K → ClientErr) (clash : Option (K × UID)) :
    Option ClientErr :=
  clash.bind fun (k, uid) => (ix.uidToClient uid).map fun p => err p.name k

/-- `clashes`. A ClientID of a nil client is a panic. -/
def clashes (ix : Index) (c : Persistent) : Option (Option ClientErr) := do
  let sameName ← ix.clashesName c
  if let some p := sameName then return some (.sameName p.name)
  if let some (id, existing) := firstClash ix.clientIDToUID c.uid c.clientIDs then
    let p ← ix.uidToClient existing
    return some (.sameClientID p.name id)
  if let some err := ix.clashErr .sameIP (firstClash ix.ipToUID c.uid c.ips) then
    return some err
  if let some err := ix.clashErr .sameSubnet
      (firstClash (fun s => ix.subnetToUID.rangeFirst (s == ·)) c.uid c.subnets) then
    return some err
  let clash ← ix.clashesMAC c.uid c.macs
  return ix.clashErr .sameMAC clash

/-! ### The index as a registry -/

end Index

/-- The name and the identifiers of a client, of all kinds. -/
inductive Ident where
  | name (name : String)
  | clientID (id : String)
  | ip (ip : Addr)
  | subnet (subnet : Prefix)
  | mac (key : HardwareAddr)
  deriving DecidableEq, Repr

def Persistent.idents (c : Persistent) : List Ident :=
  .name c.name :: (c.clientIDs.map .clientID ++ c.ips.map .ip ++ c.subnets.map .subnet ++
    c.macs.map .mac)

namespace Index

variable {ix ix' : Index} {c : Persistent}

/-- The UID an identifier leads to. -/
def owner (ix : Index) : Ident → Option UID
  | .name n => ix.nameToUID n
  | .clientID id => ix.clientIDToUID id
  | .ip a => ix.ipToUID a
  | .subnet p => ix.subnetToUID.get p
  | .mac k => ix.macToUID k

def registry (ix : Index) : Registry Ident UID Persistent := ⟨ix.owner, ix.uidToClient⟩

/-- The maps agree with each other. -/
abbrev Coherent (ix : Index) : Prop := ix.registry.Coherent Persistent.idents Persistent.uid

theorem mapM_macToKey {macs keys : List HardwareAddr} (done : macs.mapM macToKey = some keys) :
    keys = macs := by
  induction macs generalizing keys with
  | nil =>
    cases done
    rfl
  | cons mac rest ih =>
    rw [List.mapM_cons] at done
    obtain ⟨k, first, done⟩ := Option.bind_eq_some_iff.mp done
    obtain ⟨ks, later, done⟩ := Option.bind_eq_some_iff.mp done
    cases done
    rw [macToKey_some first, ih later]

theorem get_foldl_set (m : SortedMap Prefix UID subnetCompare) (subnets : List Prefix) (uid : UID)
    (p : Prefix) : (subnets.foldl (fun m pref => m.set pref uid) m).get p =
      if p ∈ subnets then some uid else m.get p := by
  induction subnets generalizing m with
  | nil => simp
  | cons s subnets ih =>
    rw [List.foldl_cons, ih, SortedMap.get_set]
    by_cases later : p ∈ subnets
    · simp [later]
    · by_cases here : p = s
      · simp [here]
      · simp [later, here]

theorem get_foldl_del (m : SortedMap Prefix UID subnetCompare) (subnets : List Prefix)
    (p : Prefix) : (subnets.foldl (fun m pref => m.del pref) m).get p =
      if p ∈ subnets then none else m.get p := by
  induction subnets generalizing m with
  | nil => simp
  | cons s subnets ih =>
    rw [List.foldl_cons, ih, SortedMap.get_del]
    by_cases later : p ∈ subnets
    · simp [later]
    · by_cases here : p = s
      · simp [here]
      · simp [later, here]

/-- `add` enters the client into the registry. -/
theorem registry_add (done : ix.add c = some ix') :
    ix'.registry = ix.registry.insert Persistent.idents Persistent.uid c := by
  unfold add at done
  split at done
  · cases done
  obtain ⟨keys, valid, done⟩ := Option.bind_eq_some_iff.mp done
  cases mapM_macToKey valid
  cases done
  unfold registry Registry.insert
  congr 1
  funext i
  cases i with
  | name n => simp [owner, Persistent.idents, Function.update_apply]
  | clientID id => simp [owner, Persistent.idents, setAll_apply]
  | ip a => simp [owner, Persistent.idents, setAll_apply]
  | subnet p => simp [owner, Persistent.idents, get_foldl_set]
  | mac k => simp [owner, Persistent.idents, setAll_apply]

/-- `remove` takes the client out of the registry. -/
theorem registry_remove (done : ix.remove c = some ix') :
    ix'.registry = ix.registry.erase Persistent.idents Persistent.uid c := by
  obtain ⟨keys, valid, done⟩ := Option.bind_eq_some_iff.mp done
  cases mapM_macToKey valid
  cases done
  unfold registry Registry.erase
  congr 1
  funext i
  cases i with
  | name n => simp [owner, Persistent.idents, Function.update_apply]
  | clientID id => simp [owner, Persistent.idents, delAll_apply]
  | ip a => simp [owner, Persistent.idents, delAll_apply]
  | subnet p => simp [owner, Persistent.idents, get_foldl_del]
  | mac k => simp [owner, Persistent.idents, delAll_apply]

/-! ### What the clash checks establish -/

theorem firstClash_none {K : Type} {find : K → Option UID} {uid : UID} {keys : List K}
    (clear : firstClash find uid keys = none) : ∀ k ∈ keys, ∀ u, find k = some u → u = uid := by
  intro k member u found
  have here := List.findSome?_eq_none_iff.mp clear k member
  simp only [found] at here
  by_contra other
  rw [if_pos other] at here
  cases here

theorem firstClash_some {K : Type} {find : K → Option UID} {uid u : UID} {keys : List K} {k : K}
    (clash : firstClash find uid keys = some (k, u)) : find k = some u := by
  obtain ⟨k', -, here⟩ := List.exists_of_findSome?_eq_some clash
  split at here
  · rename_i existing found
    split at here
    · cases here
      exact found
    · cases here
  · cases here

theorem clashesMAC_some {uid : UID} {macs : List HardwareAddr}
    {clash : Option (HardwareAddr × UID)} (done : ix.clashesMAC uid macs = some clash) :
    (clash = none ∧ ∀ mac ∈ macs, ∀ u, ix.macToUID mac = some u → u = uid) ∨
      ∃ mac u, clash = some (mac, u) ∧ ix.macToUID mac = some u := by
  induction macs with
  | nil =>
    cases done
    exact .inl ⟨rfl, by simp⟩
  | cons mac rest ih =>
    rw [clashesMAC] at done
    obtain ⟨k, valid, done⟩ := Option.bind_eq_some_iff.mp done
    cases macToKey_some valid
    have later : ix.clashesMAC uid rest = some clash →
        (∀ u, ix.macToUID mac = some u → u = uid) →
        (clash = none ∧ ∀ m ∈ mac :: rest, ∀ u, ix.macToUID m = some u → u = uid) ∨
          ∃ m u, clash = some (m, u) ∧ ix.macToUID m = some u := by
      intro done here
      rcases ih done with ⟨none, clear⟩ | found
      · refine .inl ⟨none, ?_⟩
        intro m member
        rcases List.mem_cons.mp member with rfl | other
        · exact here
        · exact clear m other
      · exact .inr found
    split at done
    · rename_i existing found
      split at done
      · cases done
        exact .inr ⟨mac, existing, rfl, found⟩
      · rename_i same
        refine later done ?_
        intro u known
        rw [found] at known
        cases known
        simpa using same
    · rename_i absent
      refine later done ?_
      intro u known
      rw [absent] at known
      cases known

theorem clashesMAC_total {uid : UID} {macs : List HardwareAddr}
    (valid : ∀ mac ∈ macs, macToKey mac = some mac) : ∃ clash, ix.clashesMAC uid macs = some clash := by
  induction macs with
  | nil => exact ⟨none, rfl⟩
  | cons mac rest ih =>
    obtain ⟨clash, later⟩ := ih fun m member => valid m (by simp [member])
    simp only [clashesMAC, valid mac (by simp), Option.bind_eq_bind, Option.bind_some]
    split
    · split
      · exact ⟨_, rfl⟩
      · exact ⟨clash, later⟩
    · exact ⟨clash, later⟩

/-- Every UID of the directory has a client. -/
theorem Coherent.client (coherent : ix.Coherent) {i : Ident} {u : UID}
    (found : ix.owner i = some u) : ∃ p, ix.uidToClient u = some p ∧ i ∈ p.idents :=
  (coherent.exact i u).mp found

/-- A clash is reported, since its client is there. -/
theorem clashErr_none {K : Type} {err : String → K → ClientErr} {clash : Option (K × UID)}
    (known : ∀ k u, clash = some (k, u) → ∃ p, ix.uidToClient u = some p)
    (quiet : ix.clashErr err clash = none) : clash = none := by
  cases h : clash with
  | none => rfl
  | some ku =>
    obtain ⟨k, u⟩ := ku
    obtain ⟨p, there⟩ := known k u h
    rw [h] at quiet
    simp [clashErr, there] at quiet

/-- A client that clashes with nobody has identifiers that are free or its own. -/
theorem Coherent.free_of_clashes (coherent : ix.Coherent) (done : ix.clashes c = some none) :
    ∀ i ∈ c.idents, ∀ u, ix.owner i = some u → u = c.uid := by
  unfold clashes at done
  obtain ⟨sameName, byName, done⟩ := Option.bind_eq_some_iff.mp done
  cases sameName with
  | some p => cases done
  | none =>
  dsimp only at done
  split at done
  · obtain ⟨p, -, done⟩ := Option.bind_eq_some_iff.mp done
    cases done
  rename_i noID
  split at done
  · cases done
  rename_i noIP
  split at done
  · cases done
  rename_i noSubnet
  obtain ⟨clash, byMAC, done⟩ := Option.bind_eq_some_iff.mp done
  have noMAC : ix.clashErr .sameMAC clash = none := Option.some.inj done
  have ids : firstClash ix.clientIDToUID c.uid c.clientIDs = none := by
    cases h : firstClash ix.clientIDToUID c.uid c.clientIDs with
    | none => rfl
    | some ku => exact absurd h (noID ku.1 ku.2)
  have ips := clashErr_none (fun k u clash => by
    have found := firstClash_some clash
    obtain ⟨p, there, -⟩ := coherent.client (i := .ip k) found
    exact ⟨p, there⟩) (Option.eq_none_iff_forall_ne_some.mpr noIP)
  have subnets := clashErr_none (fun k u clash => by
    have found := firstClash_some clash
    rw [SortedMap.rangeFirst_eq_get] at found
    obtain ⟨p, there, -⟩ := coherent.client (i := .subnet k) found
    exact ⟨p, there⟩) (Option.eq_none_iff_forall_ne_some.mpr noSubnet)
  have macs : ∀ mac ∈ c.macs, ∀ u, ix.macToUID mac = some u → u = c.uid := by
    rcases clashesMAC_some byMAC with ⟨-, clear⟩ | ⟨mac, u, rfl, found⟩
    · exact clear
    · have none := clashErr_none (fun k u' same => by
        cases same
        obtain ⟨p, there, -⟩ := coherent.client (i := .mac mac) found
        exact ⟨p, there⟩) noMAC
      cases none
  intro i member u found
  simp only [Persistent.idents, List.mem_cons, List.mem_append, List.mem_map] at member
  rcases member with rfl | ((⟨id, listed, rfl⟩ | ⟨a, listed, rfl⟩) | ⟨p, listed, rfl⟩) |
    ⟨k, listed, rfl⟩
  · obtain ⟨p, there, -⟩ := coherent.client found
    have known : ix.nameToUID c.name = some u := found
    simp only [clashesName, findByName, known, Option.map_some, there] at byName
    by_contra other
    rw [coherent.keyed u p there, if_pos other] at byName
    cases byName
  · exact firstClash_none ids id listed u found
  · exact firstClash_none ips a listed u found
  · refine firstClash_none subnets p listed u ?_
    rw [SortedMap.rangeFirst_eq_get]
    exact found
  · exact macs k listed u found

/-- In a coherent index the checks return. -/
theorem Coherent.clashes_total (coherent : ix.Coherent)
    (valid : ∀ mac ∈ c.macs, macToKey mac = some mac) : ∃ r, ix.clashes c = some r := by
  obtain ⟨sameName, byName⟩ : ∃ r, ix.clashesName c = some r := by
    unfold clashesName findByName
    cases known : ix.nameToUID c.name with
    | none => exact ⟨none, rfl⟩
    | some u =>
      obtain ⟨p, there, -⟩ := coherent.client (i := .name c.name) known
      simp only [Option.map_some, there]
      exact ⟨_, rfl⟩
  obtain ⟨clash, byMAC⟩ : ∃ clash, ix.clashesMAC c.uid c.macs = some clash := clashesMAC_total valid
  unfold clashes
  rw [byName, Option.bind_eq_bind, Option.bind_some]
  cases sameName with
  | some p => exact ⟨_, rfl⟩
  | none =>
    dsimp only
    split
    · rename_i id existing found
      have known := firstClash_some found
      obtain ⟨p, there, -⟩ := coherent.client (i := .clientID id) known
      simp only [there, Option.bind_eq_bind, Option.bind_some]
      exact ⟨_, rfl⟩
    split
    · exact ⟨_, rfl⟩
    split
    · exact ⟨_, rfl⟩
    simp only [byMAC, Option.bind_eq_bind, Option.bind_some]
    exact ⟨_, rfl⟩

end Index

end FirewallCore.Client
