import FirewallCore.Client.Index
import FirewallCore.Lib.Run
import FirewallCore.Net.AddrText

/-!
The storage of clients (`client/storage.go`), as far as it is about persistent
clients, and the agreement of its six maps over every sequence of calls.
-/

namespace FirewallCore.Client

open FirewallCore.Net FirewallCore.Lib FirewallCore.Aghalg

/-- `allowedTags`, the list of available client tags. -/
def allowedTags : List String :=
  ["device_audio", "device_camera", "device_gameconsole", "device_laptop", "device_nas",
   "device_other", "device_pc", "device_phone", "device_printer", "device_securityalarm",
   "device_tablet", "device_tv", "os_android", "os_ios", "os_linux", "os_macos", "os_other",
   "os_windows", "user_admin", "user_child", "user_regular"]

/-- `Storage`, without its runtime clients. -/
structure Storage where
  index : Index
  allowedTags : List String

namespace Storage

variable {parseUpstreams : List String → Option String} {s s' : Storage} {p : Persistent}

/-- `NewStorage` without initial clients. -/
def newStorage : Storage := ⟨.newIndex, Client.allowedTags.mergeSort (· ≤ ·)⟩

/-- `Add`. -/
def add (parseUpstreams : List String → Option String) (s : Storage) (p : Persistent) :
    Option (Storage × Option ClientErr) :=
  match p.validate parseUpstreams s.allowedTags with
  | .error err => some (s, some (.annotated "adding client" err))
  | .ok p =>
    match s.index.clashesUID p with
    | some err => some (s, some (.annotated "adding client" err))
    | none => do
      match ← s.index.clashes p with
      | some err => return (s, some (.annotated "adding client" err))
      | none =>
        let index ← s.index.add p
        return ({ s with index := index }, none)

/-- `RemoveByName`. -/
def removeByName (s : Storage) (name : String) : Option (Storage × Bool) :=
  match s.index.findByName name with
  | none => some (s, false)
  | some none => none
  | some (some p) => (s.index.remove p).map fun index => ({ s with index := index }, true)

/-- `Update` finds the stored client by its name and replaces it by `p`, which gets
the UID of the stored one. -/
def update (parseUpstreams : List String → Option String) (s : Storage) (name : String)
    (p : Persistent) : Option (Storage × Option ClientErr) :=
  match p.validate parseUpstreams s.allowedTags with
  | .error err => some (s, some (.annotated "updating client" err))
  | .ok p =>
    match s.index.findByName name with
    | none => some (s, some (.annotated "updating client" (.notFound name)))
    | some none => none
    | some (some stored) => do
      let p := { p with uid := stored.uid }
      match ← s.index.clashes p with
      | some err => return (s, some (.annotated "updating client" err))
      | none =>
        let index ← s.index.remove stored
        let index ← index.add p
        return ({ s with index := index }, none)

/-- The calls a storage receives. -/
inductive Op where
  | add (p : Persistent)
  | removeByName (name : String)
  | update (name : String) (p : Persistent)

/-- What a call returns. -/
inductive Answer where
  | err (e : Option ClientErr)
  | ok (found : Bool)
  deriving DecidableEq, Repr

/-- The call has failed. -/
def Answer.failed : Answer → Bool
  | .err e => e.isSome
  | .ok found => !found

def step (parseUpstreams : List String → Option String) (s : Storage) :
    Op → Option (Storage × Answer)
  | .add p => (s.add parseUpstreams p).map fun r => (r.1, .err r.2)
  | .removeByName name => (s.removeByName name).map fun r => (r.1, .ok r.2)
  | .update name p => (s.update parseUpstreams name p).map fun r => (r.1, .err r.2)

/-- The MACs of the argument have valid lengths. -/
def ValidMACs : Op → Prop
  | .add p => ∀ mac ∈ p.macs, mac.length ∈ [6, 8, 20]
  | .removeByName _ => True
  | .update _ p => ∀ mac ∈ p.macs, mac.length ∈ [6, 8, 20]

/-! ### The calls keep the index coherent -/

/-- What the calls keep: a coherent index of clients with valid MACs and UIDs. -/
structure Sound (s : Storage) : Prop where
  coherent : s.index.Coherent
  macs : ∀ u c, s.index.uidToClient u = some c → ∀ mac ∈ c.macs, macToKey mac = some mac
  uids : ∀ u c, s.index.uidToClient u = some c → c.uid ≠ 0

namespace Sound

theorem mapM_valid {macs : List HardwareAddr} (valid : ∀ mac ∈ macs, macToKey mac = some mac) :
    macs.mapM macToKey = some macs := by
  induction macs with
  | nil => rfl
  | cons mac rest ih =>
    rw [List.mapM_cons, valid mac (by simp), ih fun m member => valid m (by simp [member])]
    rfl

theorem valid_of_mapM {macs : List HardwareAddr} {keys : List HardwareAddr}
    (done : macs.mapM macToKey = some keys) : ∀ mac ∈ macs, macToKey mac = some mac := by
  induction macs generalizing keys with
  | nil => simp
  | cons mac rest ih =>
    rw [List.mapM_cons] at done
    obtain ⟨k, first, done⟩ := Option.bind_eq_some_iff.mp done
    obtain ⟨ks, later, done⟩ := Option.bind_eq_some_iff.mp done
    intro m member
    rcases List.mem_cons.mp member with rfl | other
    · rw [first, macToKey_some first]
    · exact ih later m other

/-- A successful `add` was given a UID and valid MACs. -/
theorem add_some {ix ix' : Index} {c : Persistent} (done : ix.add c = some ix') :
    c.uid ≠ 0 ∧ ∀ mac ∈ c.macs, macToKey mac = some mac := by
  unfold Index.add at done
  split at done
  · cases done
  rename_i uid
  obtain ⟨keys, valid, -⟩ := Option.bind_eq_some_iff.mp done
  exact ⟨uid, valid_of_mapM valid⟩

theorem findByName_some (sound : Sound s) {name : String} {found : Option Persistent}
    (lookup : s.index.findByName name = some found) :
    ∃ p, found = some p ∧ s.index.uidToClient p.uid = some p := by
  obtain ⟨u, known, here⟩ := Option.map_eq_some_iff.mp lookup
  obtain ⟨p, there, -⟩ := sound.coherent.client (i := .name name) known
  refine ⟨p, by rw [← here, there], ?_⟩
  rw [sound.coherent.keyed u p there]
  exact there

/-- After a removal and an addition every client was there before or is the new one. -/
theorem of_registry (sound : Sound s) {ix : Index} (coherent : ix.Coherent)
    (clients : ∀ u c, ix.uidToClient u = some c → s.index.uidToClient u = some c ∨
      (c.uid ≠ 0 ∧ ∀ mac ∈ c.macs, macToKey mac = some mac)) :
    Sound { s with index := ix } := by
  refine ⟨coherent, ?_, ?_⟩
  · intro u c stored
    rcases clients u c stored with old | ⟨-, valid⟩
    · exact sound.macs u c old
    · exact valid
  · intro u c stored
    rcases clients u c stored with old | ⟨uid, -⟩
    · exact sound.uids u c old
    · exact uid

theorem add (sound : Sound s) {err : Option ClientErr}
    (done : s.add parseUpstreams p = some (s', err)) :
    Sound s' ∧ (err.isSome = true → s'.index = s.index) := by
  unfold Storage.add at done
  split at done
  · cases done
    exact ⟨sound, fun _ => rfl⟩
  rename_i c valid
  split at done
  · cases done
    exact ⟨sound, fun _ => rfl⟩
  rename_i freshUID
  obtain ⟨clash, checked, done⟩ := Option.bind_eq_some_iff.mp done
  cases clash with
  | some e =>
    cases done
    exact ⟨sound, fun _ => rfl⟩
  | none =>
    obtain ⟨ix, added, done⟩ := Option.bind_eq_some_iff.mp done
    cases done
    refine ⟨sound.of_registry ?_ ?_, fun failed => by cases failed⟩
    · have fresh : s.index.uidToClient c.uid = none := by
        simpa [Index.clashesUID] using freshUID
      unfold Index.Coherent
      rw [Index.registry_add added]
      refine sound.coherent.insert fresh ?_
      intro i member
      cases known : s.index.registry.owner i with
      | none => rfl
      | some u =>
        have own := sound.coherent.free_of_clashes checked i member u known
        obtain ⟨q, there, -⟩ := sound.coherent.client (i := i) known
        rw [own, fresh] at there
        cases there
    · intro u q stored
      have members := congrFun (congrArg Registry.members (Index.registry_add added)) u
      rw [Registry.members_insert] at members
      rw [show ix.registry.members u = ix.uidToClient u from rfl, stored] at members
      split at members
      · cases members
        exact .inr (add_some added)
      · exact .inl members.symm

theorem removeByName (sound : Sound s) {name : String} {ok : Bool}
    (done : s.removeByName name = some (s', ok)) :
    Sound s' ∧ (ok = false → s'.index = s.index) := by
  unfold Storage.removeByName at done
  split at done
  · cases done
    exact ⟨sound, fun _ => rfl⟩
  · cases done
  rename_i c lookup
  obtain ⟨ix, removed, same⟩ := Option.map_eq_some_iff.mp done
  cases same
  refine ⟨?_, fun failed => by cases failed⟩
  obtain ⟨c', same, stored⟩ := sound.findByName_some lookup
  cases same
  refine sound.of_registry ?_ ?_
  · unfold Index.Coherent
    rw [Index.registry_remove removed]
    exact sound.coherent.erase stored
  · intro u q left
    have members := congrFun (congrArg Registry.members (Index.registry_remove removed)) u
    rw [Registry.members_erase] at members
    rw [show ix.registry.members u = ix.uidToClient u from rfl, left] at members
    split at members
    · cases members
    · exact .inl members.symm

theorem update (sound : Sound s) {name : String} {err : Option ClientErr}
    (done : s.update parseUpstreams name p = some (s', err)) :
    Sound s' ∧ (err.isSome = true → s'.index = s.index) := by
  unfold Storage.update at done
  split at done
  · cases done
    exact ⟨sound, fun _ => rfl⟩
  rename_i c valid
  split at done
  · cases done
    exact ⟨sound, fun _ => rfl⟩
  · cases done
  rename_i stored lookup
  obtain ⟨clash, checked, done⟩ := Option.bind_eq_some_iff.mp done
  cases clash with
  | some e =>
    cases done
    exact ⟨sound, fun _ => rfl⟩
  | none =>
    obtain ⟨mid, removed, done⟩ := Option.bind_eq_some_iff.mp done
    obtain ⟨ix, added, done⟩ := Option.bind_eq_some_iff.mp done
    cases done
    obtain ⟨stored', same, there⟩ := sound.findByName_some lookup
    cases same
    have after : ix.registry = (s.index.registry.erase Persistent.idents Persistent.uid
        stored).insert Persistent.idents Persistent.uid { c with uid := stored.uid } := by
      rw [Index.registry_add added, Index.registry_remove removed]
    refine ⟨sound.of_registry ?_ ?_, fun failed => by cases failed⟩
    · unfold Index.Coherent
      rw [after]
      exact sound.coherent.replace there fun i member u known =>
        sound.coherent.free_of_clashes checked i member u known
    · intro u q left
      have members := congrFun (congrArg Registry.members after) u
      rw [Registry.members_insert, Registry.members_erase] at members
      rw [show ix.registry.members u = ix.uidToClient u from rfl, left] at members
      split at members
      · cases members
        exact .inr (add_some added)
      · exact .inl members.symm

theorem step (sound : Sound s) {op : Op} {answer : Answer}
    (done : Storage.step parseUpstreams s op = some (s', answer)) :
    Sound s' ∧ (answer.failed = true → s'.index = s.index) := by
  cases op with
  | add p =>
    obtain ⟨⟨t, err⟩, added, same⟩ := Option.map_eq_some_iff.mp done
    cases same
    exact sound.add added
  | removeByName name =>
    obtain ⟨⟨t, ok⟩, removed, same⟩ := Option.map_eq_some_iff.mp done
    cases same
    obtain ⟨sound', unchanged⟩ := sound.removeByName removed
    exact ⟨sound', fun failed => unchanged (by simpa [Answer.failed] using failed)⟩
  | update name p =>
    obtain ⟨⟨t, err⟩, updated, same⟩ := Option.map_eq_some_iff.mp done
    cases same
    exact sound.update updated

/-- With valid MACs every call returns. -/
theorem step_total (sound : Sound s) {op : Op} (valid : ValidMACs op) :
    ∃ s' answer, Storage.step parseUpstreams s op = some (s', answer) := by
  have keys : ∀ {p : Persistent}, (∀ mac ∈ p.macs, mac.length ∈ [6, 8, 20]) →
      ∀ mac ∈ p.macs, macToKey mac = some mac := by
    intro p valid mac member
    rw [macToKey, if_pos (valid mac member)]
  have adds : ∀ (ix : Index) (c : Persistent), c.uid ≠ 0 →
      (∀ mac ∈ c.macs, macToKey mac = some mac) → ∃ ix', ix.add c = some ix' := by
    intro ix c uid valid
    unfold Index.add
    rw [if_neg uid, mapM_valid valid]
    exact ⟨_, rfl⟩
  have removes : ∀ c, s.index.uidToClient c.uid = some c → ∃ ix', s.index.remove c = some ix' := by
    intro c stored
    unfold Index.remove
    rw [mapM_valid (sound.macs _ c stored)]
    exact ⟨_, rfl⟩
  cases op with
  | add p =>
    have macs := keys valid
    suffices returns : ∃ r, s.add parseUpstreams p = some r by
      obtain ⟨r, done⟩ := returns
      exact ⟨_, _, by rw [Storage.step, done]; rfl⟩
    unfold Storage.add
    split
    · exact ⟨_, rfl⟩
    rename_i c checked
    obtain ⟨same, uid⟩ := Persistent.validate_ok checked
    rw [same]
    split
    · exact ⟨_, rfl⟩
    obtain ⟨clash, clashed⟩ := sound.coherent.clashes_total (c := { p with tags := c.tags }) macs
    rw [clashed, Option.bind_eq_bind, Option.bind_some]
    cases clash with
    | some e => exact ⟨_, rfl⟩
    | none =>
      obtain ⟨ix, added⟩ := adds s.index { p with tags := c.tags } uid macs
      simp only [added, Option.bind_eq_bind, Option.bind_some]
      exact ⟨_, rfl⟩
  | removeByName name =>
    suffices returns : ∃ r, s.removeByName name = some r by
      obtain ⟨r, done⟩ := returns
      exact ⟨_, _, by rw [Storage.step, done]; rfl⟩
    unfold Storage.removeByName
    split
    · exact ⟨_, rfl⟩
    · rename_i lookup
      obtain ⟨c, same, -⟩ := sound.findByName_some lookup
      cases same
    · rename_i c lookup
      obtain ⟨c', same, stored⟩ := sound.findByName_some lookup
      cases same
      obtain ⟨ix, removed⟩ := removes c stored
      rw [removed]
      exact ⟨_, rfl⟩
  | update name p =>
    have macs := keys valid
    suffices returns : ∃ r, s.update parseUpstreams name p = some r by
      obtain ⟨r, done⟩ := returns
      exact ⟨_, _, by rw [Storage.step, done]; rfl⟩
    unfold Storage.update
    split
    · exact ⟨_, rfl⟩
    rename_i c checked
    obtain ⟨same, -⟩ := Persistent.validate_ok checked
    rw [same]
    split
    · exact ⟨_, rfl⟩
    · rename_i lookup
      obtain ⟨c, same, -⟩ := sound.findByName_some lookup
      cases same
    · rename_i stored lookup
      obtain ⟨c', same, there⟩ := sound.findByName_some lookup
      cases same
      obtain ⟨clash, clashed⟩ := sound.coherent.clashes_total
        (c := { p with tags := c.tags, uid := stored.uid }) macs
      dsimp only
      rw [clashed, Option.bind_eq_bind, Option.bind_some]
      cases clash with
      | some e => exact ⟨_, rfl⟩
      | none =>
        obtain ⟨mid, removed⟩ := removes stored there
        obtain ⟨ix, added⟩ := adds mid { p with tags := c.tags, uid := stored.uid }
          (sound.uids _ stored there) macs
        simp only [removed, added, Option.bind_eq_bind, Option.bind_some]
        exact ⟨_, rfl⟩

theorem newStorage : Sound newStorage := by
  refine ⟨?_, ?_, ?_⟩
  · have empty : Storage.newStorage.index.registry = Registry.empty := by
      unfold Index.registry Registry.empty
      congr 1
      funext i
      cases i <;> rfl
    unfold Index.Coherent
    rw [empty]
    exact .empty
  · intro u c stored
    cases stored
  · intro u c stored
    cases stored

end Sound

/-- Every entry of a map leads to a client that lists the identifier, every
identifier of a stored client leads to it, and no two clients share one. -/
structure MapsAgree (ix : Index) : Prop where
  name : ∀ n u, ix.nameToUID n = some u → ∃ c, ix.uidToClient u = some c ∧ c.name = n
  clientID : ∀ id u, ix.clientIDToUID id = some u →
    ∃ c, ix.uidToClient u = some c ∧ id ∈ c.clientIDs
  ip : ∀ a u, ix.ipToUID a = some u → ∃ c, ix.uidToClient u = some c ∧ a ∈ c.ips
  mac : ∀ k u, ix.macToUID k = some u → ∃ c, ix.uidToClient u = some c ∧ k ∈ c.macs
  subnet : ∀ p u, ix.subnetToUID.get p = some u → ∃ c, ix.uidToClient u = some c ∧ p ∈ c.subnets
  mapped : ∀ u c, ix.uidToClient u = some c → c.uid = u ∧ ix.nameToUID c.name = some u ∧
    (∀ id ∈ c.clientIDs, ix.clientIDToUID id = some u) ∧ (∀ a ∈ c.ips, ix.ipToUID a = some u) ∧
    (∀ k ∈ c.macs, ix.macToUID k = some u) ∧ ∀ p ∈ c.subnets, ix.subnetToUID.get p = some u
  unshared : ∀ u v c d i, ix.uidToClient u = some c → ix.uidToClient v = some d →
    i ∈ c.idents → i ∈ d.idents → u = v

/-- The directory of identifiers, map by map. -/
theorem mapsAgree_of_coherent {ix : Index} (coherent : ix.Coherent) : MapsAgree ix := by
  refine ⟨?_, ?_, ?_, ?_, ?_, ?_, fun u v c d i atU atV => coherent.unshared atU atV⟩
  · intro n u found
    obtain ⟨c, stored, listed⟩ := coherent.client (i := .name n) found
    exact ⟨c, stored, by simpa [Persistent.idents, eq_comm] using listed⟩
  · intro id u found
    obtain ⟨c, stored, listed⟩ := coherent.client (i := .clientID id) found
    exact ⟨c, stored, by simpa [Persistent.idents] using listed⟩
  · intro a u found
    obtain ⟨c, stored, listed⟩ := coherent.client (i := .ip a) found
    exact ⟨c, stored, by simpa [Persistent.idents] using listed⟩
  · intro k u found
    obtain ⟨c, stored, listed⟩ := coherent.client (i := .mac k) found
    exact ⟨c, stored, by simpa [Persistent.idents] using listed⟩
  · intro p u found
    obtain ⟨c, stored, listed⟩ := coherent.client (i := .subnet p) found
    exact ⟨c, stored, by simpa [Persistent.idents] using listed⟩
  · intro u c stored
    have leads : ∀ i ∈ c.idents, ix.owner i = some u := fun i listed =>
      (coherent.exact i u).mpr ⟨c, stored, listed⟩
    refine ⟨coherent.keyed u c stored, leads (.name c.name) (by simp [Persistent.idents]), ?_, ?_,
      ?_, ?_⟩
    · intro id listed
      exact leads (.clientID id) (by simp [Persistent.idents, listed])
    · intro a listed
      exact leads (.ip a) (by simp [Persistent.idents, listed])
    · intro k listed
      exact leads (.mac k) (by simp [Persistent.idents, listed])
    · intro p listed
      exact leads (.subnet p) (by simp [Persistent.idents, listed])

/-- After every sequence of calls the maps agree, and a next call with valid MACs
returns and, if it fails, changes none of them. -/
theorem clients_coherent (parseUpstreams : List String → Option String)
    (run : Reaches (Storage.step parseUpstreams) (fun _ _ => True) newStorage s) :
    MapsAgree s.index ∧ ∀ op, ValidMACs op → ∃ s' answer,
      Storage.step parseUpstreams s op = some (s', answer) ∧
        (answer.failed = true → s'.index = s.index) := by
  have sound : Sound s :=
    run.invariant Sound.newStorage fun _ _ _ _ sound _ taken => (sound.step taken).1
  refine ⟨mapsAgree_of_coherent sound.coherent, ?_⟩
  intro op valid
  obtain ⟨s', answer, taken⟩ : ∃ s' answer, Storage.step parseUpstreams s op = some (s', answer) :=
    sound.step_total valid
  exact ⟨s', answer, taken, (sound.step taken).2⟩

/-- A client with an identifier of every kind. -/
def laptop : Persistent :=
  { name := "laptop"
    ips := [.v4 0xc0a80002]
    subnets := [⟨.v4 0x0a000000, some 8⟩]
    macs := [[2, 0, 0, 0, 0, 1]]
    clientIDs := ["laptop"]
    uid := 1 }

/-- Once the client is stored, another one with its MAC is refused and changes nothing. -/
theorem clients_coherent_stored :
    ∃ s, Reaches (Storage.step fun _ => none) (fun _ _ => True) newStorage s ∧
      s.index.findByName "laptop" = some (some laptop) ∧ MapsAgree s.index ∧
      ∃ s' answer, Storage.step (fun _ => none) s
          (.add { name := "phone", macs := [[2, 0, 0, 0, 0, 1]], uid := 2 }) = some (s', answer) ∧
        answer.failed = true ∧ s'.index = s.index := by
  obtain ⟨s, _, taken, stored, refused⟩ := exists_step (Storage.step fun _ => none) newStorage
    (.add laptop) (fun s => s.index.findByName "laptop" = some (some laptop) ∧
      ((Storage.step (fun _ => none) s
        (.add { name := "phone", macs := [[2, 0, 0, 0, 0, 1]], uid := 2 })).map
          fun out => out.2.failed) = some true) (by decide +kernel)
  have run : Reaches (Storage.step fun _ => none) (fun _ _ => True) newStorage s :=
    Reaches.refl.tail trivial taken
  obtain ⟨agree, calls⟩ := clients_coherent (fun _ => none) run
  obtain ⟨s', answer, returned, unchanged⟩ := calls
    (.add { name := "phone", macs := [[2, 0, 0, 0, 0, 1]], uid := 2 }) (by simp [ValidMACs])
  have failed : answer.failed = true := by
    rw [returned] at refused
    exact Option.some.inj refused
  exact ⟨s, run, stored, agree, s', answer, returned, failed, unchanged failed⟩

end Storage

end FirewallCore.Client

/-!
The lookup of a client by an address (`index.findByIP`).

An address that a client lists wins over every subnet. Among the subnets the walk
over the sorted map takes the first that contains the address, which by the order
of `subnetCompare` is one of the longest. Prefixes are stored unmasked, so two
clients can own the same subnet under two addresses; the lower of these decides,
whenever the clients were added.
-/

namespace FirewallCore.Client

open FirewallCore.Net FirewallCore.Lib FirewallCore.Aghalg

namespace Index

variable {ix ix' : Index} {c : Persistent} {ip : Addr}

/-- `findByIP`: whether the address is known, and the client, which may be nil. -/
def findByIP (ix : Index) (ip : Addr) : Option (Option Persistent) :=
  match ix.ipToUID ip with
  | some uid => some (ix.uidToClient uid)
  | none =>
    match ix.subnetToUID.rangeFirst fun pref => pref.contains ip.withoutZone with
    | some uid => some (ix.uidToClient uid)
    | none => none

/-- The client is in the index. -/
def Stored (ix : Index) (c : Persistent) : Prop := ix.uidToClient c.uid = some c

/-- What an address should lead to: its owner, or else an owner of a longest prefix
that contains it. -/
structure MostSpecific (ix : Index) (ip : Addr) : Prop where
  owner : ∀ c, ix.Stored c → ip ∈ c.ips → ix.findByIP ip = some (some c)
  longest : (¬∃ c, ix.Stored c ∧ ip ∈ c.ips) →
    (∃ c, ix.Stored c ∧ ∃ pref ∈ c.subnets, pref.contains ip.withoutZone = true) →
    ∃ c, ix.Stored c ∧ (∃ pref ∈ c.subnets, pref.contains ip.withoutZone = true ∧
      ∀ d, ix.Stored d → ∀ other ∈ d.subnets, other.contains ip.withoutZone = true →
        prefixBits other ≤ prefixBits pref) ∧ ix.findByIP ip = some (some c)
  nothing : (¬∃ c, ix.Stored c ∧ ip ∈ c.ips) →
    (¬∃ c, ix.Stored c ∧ ∃ pref ∈ c.subnets, pref.contains ip.withoutZone = true) →
    ix.findByIP ip = none

/-! ### The walk over the subnets -/

theorem subnetCompare_lt {x y : Prefix} (less : subnetCompare x y = .lt) : prefixBits y ≤ prefixBits x := by
  unfold subnetCompare at less
  split at less
  · cases less
  split at less
  case isTrue same => exact same.ge
  case isFalse =>
    split at less
    case isTrue longer => exact longer.le
    case isFalse => cases less

theorem Coherent.stored_iff (coherent : ix.Coherent) {u : UID} :
    ix.uidToClient u = some c ↔ c.uid = u ∧ ix.Stored c := by
  constructor
  · intro there
    have keyed := coherent.keyed u c there
    refine ⟨keyed, ?_⟩
    unfold Stored
    rw [keyed]
    exact there
  · rintro ⟨rfl, stored⟩
    exact stored

/-- An identifier leads to the stored client that lists it. -/
theorem Coherent.owner_iff (coherent : ix.Coherent) {i : Ident} {u : UID} :
    ix.owner i = some u ↔ ∃ c, c.uid = u ∧ ix.Stored c ∧ i ∈ c.idents := by
  have directory : ix.owner i = some u ↔ ∃ c, ix.uidToClient u = some c ∧ i ∈ c.idents :=
    coherent.exact i u
  simp only [directory, coherent.stored_iff, and_assoc]

theorem ip_mem_idents : .ip ip ∈ c.idents ↔ ip ∈ c.ips := by simp [Persistent.idents]

theorem subnet_mem_idents {pref : Prefix} : .subnet pref ∈ c.idents ↔ pref ∈ c.subnets := by
  simp [Persistent.idents]

theorem Coherent.findByIP_owner (coherent : ix.Coherent) (stored : ix.Stored c) (listed : ip ∈ c.ips) :
    ix.findByIP ip = some (some c) := by
  have leads : ix.ipToUID ip = some c.uid :=
    coherent.owner_iff.mpr ⟨c, rfl, stored, ip_mem_idents.mpr listed⟩
  unfold findByIP
  rw [leads]
  exact congrArg some stored

/-- Without an owner of the address the subnets decide. -/
theorem Coherent.findByIP_subnet (coherent : ix.Coherent) (noOwner : ¬∃ c, ix.Stored c ∧ ip ∈ c.ips) :
    ix.findByIP ip = (ix.subnetToUID.rangeFirst fun pref => pref.contains ip.withoutZone).map
      ix.uidToClient := by
  have unknown : ix.ipToUID ip = none := by
    cases found : ix.ipToUID ip with
    | none => rfl
    | some u =>
      obtain ⟨c, -, stored, listed⟩ := coherent.owner_iff.mp (show ix.owner (.ip ip) = some u from found)
      exact absurd ⟨c, stored, ip_mem_idents.mp listed⟩ noOwner
  unfold findByIP
  rw [unknown]
  dsimp only
  split
  case h_1 uid found => rw [found, Option.map_some]
  case h_2 missed => rw [missed, Option.map_none]

theorem Coherent.subnet_isSome (coherent : ix.Coherent) {pref : Prefix} (stored : ix.Stored c)
    (listed : pref ∈ c.subnets) : (ix.subnetToUID.get pref).isSome = true := by
  have leads : ix.owner (.subnet pref) = some c.uid :=
    coherent.owner_iff.mpr ⟨c, rfl, stored, subnet_mem_idents.mpr listed⟩
  exact Option.isSome_iff_exists.mpr ⟨_, leads⟩

theorem Coherent.mostSpecific (coherent : ix.Coherent) (ip : Addr) : ix.MostSpecific ip where
  owner c := coherent.findByIP_owner
  longest noOwner := by
    rintro ⟨d, dStored, other, dListed, dContains⟩
    rw [coherent.findByIP_subnet noOwner]
    cases found : ix.subnetToUID.rangeFirst fun pref => pref.contains ip.withoutZone with
    | none =>
      have missed := SortedMap.rangeFirst_none found other (coherent.subnet_isSome dStored dListed)
      exact absurd dContains missed
    | some u =>
      obtain ⟨pref, leads, contains, least⟩ := SortedMap.rangeFirst_some found
      obtain ⟨c, rfl, stored, listed⟩ := coherent.owner_iff.mp (show ix.owner (.subnet pref) = some u from leads)
      refine ⟨c, stored, ⟨pref, subnet_mem_idents.mp listed, contains, ?_⟩, congrArg some stored⟩
      intro e eStored longer eListed eContains
      rcases least longer (coherent.subnet_isSome eStored eListed) eContains with rfl | less
      · exact le_refl _
      · exact subnetCompare_lt less
  nothing noOwner noPrefix := by
    rw [coherent.findByIP_subnet noOwner]
    cases found : ix.subnetToUID.rangeFirst fun pref => pref.contains ip.withoutZone with
    | none => rfl
    | some u =>
      obtain ⟨pref, leads, contains, -⟩ := SortedMap.rangeFirst_some found
      obtain ⟨c, -, stored, listed⟩ := coherent.owner_iff.mp (show ix.owner (.subnet pref) = some u from leads)
      exact absurd ⟨c, stored, pref, subnet_mem_idents.mp listed, contains⟩ noPrefix

/-- Indexes of the same clients have the same maps. -/
theorem Coherent.maps_unique (coherent : ix.Coherent) (coherent' : ix'.Coherent)
    (same : ∀ c, ix.Stored c ↔ ix'.Stored c) : ix.owner = ix'.owner ∧ ix.uidToClient = ix'.uidToClient := by
  constructor
  · funext i
    apply Option.ext
    intro u
    rw [coherent.owner_iff, coherent'.owner_iff]
    simp only [same]
  · funext u
    apply Option.ext
    intro c
    rw [coherent.stored_iff, coherent'.stored_iff, same]

theorem Coherent.findByIP_unique (coherent : ix.Coherent) (coherent' : ix'.Coherent)
    (same : ∀ c, ix.Stored c ↔ ix'.Stored c) (ip : Addr) : ix.findByIP ip = ix'.findByIP ip := by
  obtain ⟨owners, clients⟩ := coherent.maps_unique coherent' same
  have addresses : ix.ipToUID ip = ix'.ipToUID ip := congrFun owners (.ip ip)
  have subnets : ix.subnetToUID.get = ix'.subnetToUID.get := by
    funext pref
    exact congrFun owners (.subnet pref)
  unfold findByIP
  rw [addresses, clients, SortedMap.rangeFirst_congr subnets]

end Index

namespace Storage

/-- After every sequence of calls an address leads to the most specific client, which
depends on the stored clients only, not on the calls that stored them. -/
theorem findByIP_most_specific {parseUpstreams : List String → Option String} {s : Storage}
    (run : Reaches (Storage.step parseUpstreams) (fun _ _ => True) newStorage s) (ip : Addr) :
    s.index.MostSpecific ip ∧
      ∀ s', Reaches (Storage.step parseUpstreams) (fun _ _ => True) newStorage s' →
        (∀ c, s.index.Stored c ↔ s'.index.Stored c) → s.index.findByIP ip = s'.index.findByIP ip := by
  have reachable : ∀ {s}, Reaches (Storage.step parseUpstreams) (fun _ _ => True) newStorage s → Sound s :=
    fun run => run.invariant Sound.newStorage fun _ _ _ _ sound _ taken => (sound.step taken).1
  refine ⟨(reachable run).coherent.mostSpecific ip, ?_⟩
  intro s' run' same
  exact (reachable run).coherent.findByIP_unique (reachable run').coherent same ip

/-- The owner of a subnet, and one of a longer subnet of it. -/
def office : Persistent := { name := "office", subnets := [⟨.v4 0x0a000000, some 8⟩], uid := 2 }
def lab : Persistent := { name := "lab", subnets := [⟨.v4 0x0a010000, some 16⟩], uid := 3 }

/-- An address in both subnets leads to the owner of the longer one. -/
theorem findByIP_lab : ∃ s, Reaches (Storage.step fun _ => none) (fun _ _ => True) newStorage s ∧
    s.index.MostSpecific (.v4 0x0a010203) ∧ s.index.findByIP (.v4 0x0a010203) = some (some lab) := by
  obtain ⟨s, done, found⟩ := exec_refutes (Storage.step fun _ => none) newStorage [.add office, .add lab]
    (fun s => s.index.findByIP (.v4 0x0a010203) ≠ some (some lab)) (by decide +kernel)
  have run : Reaches (Storage.step fun _ => none) (fun _ _ => True) newStorage s :=
    reaches_of_exec (fun _ _ _ => trivial) done
  exact ⟨s, run, (findByIP_most_specific run _).1, not_not.mp found⟩

end Storage

/-! ### Finding by a text -/

namespace Index

variable {ix : Index} {c : Persistent}

/-- `findByMAC`; nothing for a panic, here and below. -/
def findByMAC (ix : Index) (mac : HardwareAddr) : Option (Option (Option Persistent)) :=
  (macToKey mac).map fun k => (ix.macToUID k).map ix.uidToClient

/-- `find`. -/
def find (ix : Index) (id : String) : Option (Option (Option Persistent)) :=
  match ix.clientIDToUID id with
  | some uid => some (some (ix.uidToClient uid))
  | none =>
    match (parseAddr id).bind ix.findByIP with
    | some c => some (some c)
    | none => (parseMAC id).elim (some none) ix.findByMAC

/-- An address belongs to a client. -/
def Covers (c : Persistent) (ip : Addr) : Prop :=
  ip ∈ c.ips ∨ ∃ pref ∈ c.subnets, pref.contains ip.withoutZone = true

/-- A text names a client. -/
def Named (c : Persistent) (id : String) : Prop :=
  id ∈ c.clientIDs ∨ (∃ ip, parseAddr id = some ip ∧ Covers c ip) ∨
    ∃ mac, parseMAC id = some mac ∧ mac ∈ c.macs

/-- An identifier leads to a client that lists it, or nowhere. -/
theorem Coherent.lookup (coherent : ix.Coherent) (i : Ident) :
    (∃ c, ix.Stored c ∧ i ∈ c.idents ∧ ix.owner i = some c.uid) ∨
      (ix.owner i = none ∧ ∀ c, ix.Stored c → i ∉ c.idents) := by
  cases found : ix.owner i with
  | none =>
    refine .inr ⟨rfl, fun c stored listed => ?_⟩
    cases found.symm.trans (coherent.owner_iff.mpr ⟨c, rfl, stored, listed⟩)
  | some u =>
    obtain ⟨c, rfl, stored, listed⟩ := coherent.owner_iff.mp found
    exact .inl ⟨c, stored, listed, rfl⟩

theorem Coherent.find_addr (coherent : ix.Coherent) (id : String) :
    (∃ c, ix.Stored c ∧ Named c id ∧ (parseAddr id).bind ix.findByIP = some (some c)) ∨
      ((parseAddr id).bind ix.findByIP = none ∧
        ∀ c, ix.Stored c → ∀ ip, parseAddr id = some ip → ¬Covers c ip) := by
  cases read : parseAddr id with
  | none => simp
  | some ip =>
    have specific := coherent.mostSpecific ip
    by_cases owned : ∃ c, ix.Stored c ∧ ip ∈ c.ips
    · obtain ⟨c, stored, listed⟩ := owned
      exact .inl ⟨c, stored, .inr (.inl ⟨ip, read, .inl listed⟩), specific.owner c stored listed⟩
    by_cases within : ∃ c, ix.Stored c ∧ ∃ pref ∈ c.subnets, pref.contains ip.withoutZone = true
    · obtain ⟨c, stored, ⟨pref, listed, contains, -⟩, found⟩ := specific.longest owned within
      exact .inl ⟨c, stored, .inr (.inl ⟨ip, read, .inr ⟨pref, listed, contains⟩⟩), found⟩
    · refine .inr ⟨specific.nothing owned within, ?_⟩
      rintro c stored _ ⟨⟩ (listed | contains)
      · exact owned ⟨c, stored, listed⟩
      · exact within ⟨c, stored, contains⟩

end Index

namespace Storage

/-- After every sequence of calls `find` returns: a stored client that the text names, if
there is one. -/
theorem find_returns {parseUpstreams : List String → Option String} {s : Storage}
    (run : Reaches (Storage.step parseUpstreams) (fun _ _ => True) newStorage s) (id : String) :
    (∃ c, s.index.Stored c ∧ Index.Named c id ∧ s.index.find id = some (some (some c))) ∨
      (s.index.find id = some none ∧ ∀ c, s.index.Stored c → ¬Index.Named c id) := by
  have coherent : s.index.Coherent := (run.invariant Sound.newStorage
    fun _ _ _ _ sound _ taken => (sound.step taken).1).coherent
  unfold Index.find
  rcases coherent.lookup (.clientID id) with ⟨c, stored, listed, leads⟩ | ⟨noID, others⟩
  · left
    refine ⟨c, stored, .inl (by simpa [Persistent.idents] using listed), ?_⟩
    rw [show s.index.clientIDToUID id = some c.uid from leads]
    exact congrArg (some ∘ some) stored
  rw [show s.index.clientIDToUID id = none from noID]
  have noID : ∀ c, s.index.Stored c → id ∉ c.clientIDs := fun c stored listed =>
    others c stored (by simp [Persistent.idents, listed])
  have byMAC : (∃ c, s.index.Stored c ∧ Index.Named c id ∧
        (parseMAC id).elim (some none) s.index.findByMAC = some (some (some c))) ∨
      (parseMAC id).elim (some none) s.index.findByMAC = some none ∧
        ∀ c, s.index.Stored c → ∀ mac, parseMAC id = some mac → mac ∉ c.macs := by
    cases read : parseMAC id with
    | none => simp
    | some mac =>
      have key : macToKey mac = some mac := if_pos (parseMAC_length read)
      simp only [Option.elim_some, Index.findByMAC, key, Option.map_some]
      rcases coherent.lookup (.mac mac) with ⟨c, stored, listed, leads⟩ | ⟨unknown, others⟩
      · rw [show s.index.macToUID mac = some c.uid from leads]
        exact .inl ⟨c, stored, .inr (.inr ⟨mac, read, by simpa [Persistent.idents] using listed⟩),
          congrArg (some ∘ some) stored⟩
      · rw [show s.index.macToUID mac = none from unknown]
        refine .inr ⟨rfl, ?_⟩
        rintro c stored _ ⟨⟩ listed
        exact others c stored (by simp [Persistent.idents, listed])
  rcases coherent.find_addr id with ⟨c, stored, named, found⟩ | ⟨missed, noAddr⟩
  · rw [found]
    exact .inl ⟨c, stored, named, rfl⟩
  rw [missed]
  refine byMAC.imp_right (And.imp_right fun noMAC c stored named => ?_)
  rcases named with listed | ⟨ip, read, named⟩ | ⟨mac, read, listed⟩
  · exact noID c stored listed
  · exact noAddr c stored ip read named
  · exact noMAC c stored mac read listed

theorem find_returns_lab : ∃ s : Storage, ∃ c, s.index.Stored c ∧
    s.index.find "10.1.2.3" = some (some (some c)) := by
  obtain ⟨s, done, found⟩ := exec_refutes (Storage.step fun _ => none) newStorage [.add lab]
    (fun s => s.index.find "10.1.2.3" = some none) (by decide +kernel)
  rcases find_returns (reaches_of_exec (fun _ _ _ => trivial) done) "10.1.2.3" with
    ⟨c, stored, -, here⟩ | ⟨missed, -⟩
  · exact ⟨s, c, stored, here⟩
  · exact absurd missed found

end Storage

end FirewallCore.Client
