import FirewallCore.Lib.SentItems
import FirewallCore.Ipset.Manager

/-!
Runs of the ipset manager: calls of `Add` with whatever the kernel answers to
their requests, between which sets with a timeout lose members and any set is
given some.

An `Add` is a `sendAll` of the batches of its sets (`addToSets_items`), so the
rules of `SentItems` say what the cache does to a run.
-/

namespace FirewallCore.Ipset

open FirewallCore.Net FirewallCore.Lib

inductive Event where
  | add (call : Call)
  | lose (e : IpInIpsetEntry)
  | gain (e : IpInIpsetEntry)

/-- Sets without a timeout lose nothing. -/
def Event.Allowed (kernel : Kernel) : Event → Prop
  | .lose e => ¬kernel.Lasting e.ipsetName
  | _ => True

/-- The addresses of a call for the sets of a family. -/
def Call.ips (call : Call) : ProtoFamily → List IP
  | .ipv4 => call.ip4s
  | .ipv6 => call.ip6s
  | .other _ => []

/-- The entries that a call has for a set. -/
def Call.batch (call : Call) (set : Props) : List IpInIpsetEntry :=
  (call.ips set.family).map (entryOf set.name)

/-- `Add` as it were if there was no `addedIPs`. -/
def Manager.addUncached (m : Manager) (call : Call) (members : List IpInIpsetEntry) :
    Bool × List IpInIpsetEntry :=
  SentItems.sendAllPlain call.fails members ((m.lookupHost call.host).map call.batch)

section Runs

variable (m : Manager)

/-- One event: whether it passed without an error, and the state after it. -/
def Manager.step (s : State) : Event → Bool × State
  | .add call => ((m.add call s).1.err.isNone, (m.add call s).2)
  | .lose e => (true, { s with members := s.members.filter (· ≠ e) })
  | .gain e => (true, { s with members := e :: s.members })

def Manager.stepUncached (members : List IpInIpsetEntry) : Event → Bool × List IpInIpsetEntry
  | .add call => m.addUncached call members
  | .lose e => (true, members.filter (· ≠ e))
  | .gain e => (true, e :: members)

/-- The state after the events. -/
def Manager.run (s : State) (events : List Event) : State :=
  events.foldl (fun s event => (m.step s event).2) s

/-- What is seen after each of the events: whether it passed, and the members of the sets. -/
def Manager.trace : State → List Event → List (Bool × List IpInIpsetEntry)
  | _, [] => []
  | s, event :: rest =>
    let after := m.step s event
    (after.1, after.2.members) :: trace after.2 rest

def Manager.traceUncached :
    List IpInIpsetEntry → List Event → List (Bool × List IpInIpsetEntry)
  | _, [] => []
  | members, event :: rest =>
    let after := m.stepUncached members event
    after :: traceUncached after.2 rest

end Runs

/-- The manager before its first `Add`, with sets that have members already. -/
def State.fresh (members : List IpInIpsetEntry) : State := ⟨[], members⟩

/-- An event of a run against a kernel that refuses requests less often. -/
inductive Event.Softer : Event → Event → Prop where
  | add (call : Call) (fails : Nat → Bool) (softer : ∀ i, fails i = true → call.fails i = true) :
      Softer (.add call) (.add { call with fails := fails })
  | lose (e : IpInIpsetEntry) : Softer (.lose e) (.lose e)
  | gain (e : IpInIpsetEntry) : Softer (.gain e) (.gain e)

/-- Two views of one state: the same answer, and the same members in some order. -/
def SameView (a b : Bool × List IpInIpsetEntry) : Prop := a.1 = b.1 ∧ ∀ e, e ∈ a.2 ↔ e ∈ b.2

/-- What an `Add` has to do: its requests go to the sets of the domain that the host is routed
to, each on the connection of its family with addresses of that family, and without an error each
of these sets has every address of its family in the end. -/
structure AddRight (toLower : Char → Char) (kernel : Kernel) (lines : List (List Char))
    (call : Call) (d : Host) (after : Outcome × State) : Prop where
  routed : RoutedTo toLower lines call.host d
  sends : ∀ r ∈ after.1.requests, SetFor toLower lines d r.ipsetName ∧
    ∃ p, kernel.props r.ipsetName = some p ∧ connOf p.family = some r.conn ∧
      ∀ ip ∈ r.entries, ip ∈ call.ips p.family
  adds : after.1.err = none → ∀ n, SetFor toLower lines d n →
    ∃ p, kernel.props n = some p ∧ (p.family = .ipv4 ∨ p.family = .ipv6) ∧
      ∀ ip ∈ call.ips p.family, entryOf n ip ∈ after.2.members

/-! ### One call -/

/-- The state of the library. -/
def State.items (s : State) : SentItems IpInIpsetEntry := ⟨s.addedIPs, s.members⟩

section Calls

variable {m : Manager} {fails : Nat → Bool} {failing : Bool} {call : Call} {host : Host}
  {set : Props} {sets : List Props} {ips : List IP} {s : State}

/-- What of the addresses is new to the cache. -/
theorem fresh_entries (s : State) (name : List Char) (ips : List IP) :
    s.items.fresh (ips.map (entryOf name)) = (s.unsent name ips).map (entryOf name) := by
  rw [SentItems.fresh, List.filter_map]
  rfl

theorem fresh_entries_eq_nil {name : List Char} :
    s.items.fresh (ips.map (entryOf name)) = [] ↔ (s.unsent name ips).length = 0 := by
  rw [fresh_entries, List.map_eq_nil_iff, List.length_eq_zero_iff]

theorem exists_connOf (family : set.family = .ipv4 ∨ set.family = .ipv6) :
    ∃ conn, connOf set.family = some conn := by
  rcases family with family | family <;> exact ⟨_, by rw [family]; rfl⟩

/-- `addIPs` for a set of one of the two families sends its batch. -/
theorem addIPs_sent (family : set.family = .ipv4 ∨ set.family = .ipv6)
    {s' : SentItems IpInIpsetEntry}
    (sent : s.items.send m.isPersistent failing (ips.map (entryOf set.name)) = some s') :
    (m.addIPs failing host set ips s).1.err = none ∧
      (m.addIPs failing host set ips s).2.items = s' := by
  obtain ⟨conn, connected⟩ := exists_connOf family
  unfold SentItems.send at sent
  unfold Manager.addIPs
  by_cases old : (s.unsent set.name ips).length = 0
  · rw [if_pos (fresh_entries_eq_nil.mpr old)] at sent
    simpa [old] using sent
  · rw [if_neg (mt fresh_entries_eq_nil.mp old), fresh_entries] at sent
    cases failing with
    | true => cases sent
    | false => simpa [old, connected, State.items] using sent

theorem addIPs_refused (family : set.family = .ipv4 ∨ set.family = .ipv6)
    (refused : s.items.send m.isPersistent failing (ips.map (entryOf set.name)) = none) :
    (m.addIPs failing host set ips s).1.err =
        some (.adding host ips set.name set.typeName) ∧
      (m.addIPs failing host set ips s).2 = s := by
  obtain ⟨conn, connected⟩ := exists_connOf family
  obtain ⟨new, rfl⟩ := SentItems.send_none refused
  have some_new := mt fresh_entries_eq_nil.mpr new
  simp [Manager.addIPs, some_new, connected]

/-- The requests of `addIPs` go to the set, on the connection of its family. -/
theorem addIPs_requests {r : Request} (sent : r ∈ (m.addIPs failing host set ips s).1.requests) :
    r.ipsetName = set.name ∧ connOf set.family = some r.conn ∧ ∀ ip ∈ r.entries, ip ∈ ips := by
  unfold Manager.addIPs at sent
  simp only at sent
  split at sent
  · cases sent
  split at sent
  · cases sent
  next conn connected =>
    simp only [apply_ite Prod.fst, apply_ite Outcome.requests, ite_self,
      List.mem_singleton] at sent
    subst sent
    exact ⟨rfl, connected, fun ip member => (List.mem_filter.mp member).1⟩

/-- After a set whose addresses were refused nothing more is done. -/
theorem addToSets_refused (family : set.family = .ipv4 ∨ set.family = .ipv6) {err : Error}
    (refused : (m.addIPs (fails 0) host set (call.ips set.family) s).1.err = some err) :
    m.addToSets host call.ip4s call.ip6s fails (set :: sets) s =
      let first := m.addIPs (fails 0) host set (call.ips set.family) s
      (⟨0, some err, first.1.requests⟩, first.2) := by
  rcases family with family | family <;> rw [family] at refused <;>
    simp only [Manager.addToSets, family, Call.ips] at refused ⊢ <;> simp only [refused]

/-- After a set whose addresses went through the other sets get theirs. -/
theorem addToSets_passed (family : set.family = .ipv4 ∨ set.family = .ipv6)
    (passed : (m.addIPs (fails 0) host set (call.ips set.family) s).1.err = none) :
    m.addToSets host call.ip4s call.ip6s fails (set :: sets) s =
      let first := m.addIPs (fails 0) host set (call.ips set.family) s
      let later := m.addToSets host call.ip4s call.ip6s (fun i => fails (i + 1)) sets first.2
      (⟨first.1.n + later.1.n, later.1.err, first.1.requests ++ later.1.requests⟩, later.2) := by
  rcases family with family | family <;> rw [family] at passed <;>
    simp only [Manager.addToSets, family, Call.ips] at passed ⊢ <;> simp only [passed]

/-- `addToSets` sends the batches of the sets. -/
theorem addToSets_items (families : ∀ set ∈ sets, set.family = .ipv4 ∨ set.family = .ipv6) :
    SentItems.sendAll m.isPersistent fails s.items (sets.map call.batch) =
      let after := m.addToSets host call.ip4s call.ip6s fails sets s
      (after.1.err.isNone, after.2.items) := by
  induction sets generalizing fails s with
  | nil => rfl
  | cons set sets ih =>
    have family := families set (by simp)
    rw [List.map_cons, SentItems.sendAll]
    cases sent : s.items.send m.isPersistent (fails 0) (call.batch set) with
    | none =>
      obtain ⟨failed, same⟩ := @addIPs_refused m (fails 0) host set _ s family sent
      rw [addToSets_refused family failed]
      simp [same]
    | some s' =>
      obtain ⟨passed, rfl⟩ := @addIPs_sent m (fails 0) host set _ s family s' sent
      rw [addToSets_passed family passed]
      exact ih fun set member => families set (List.mem_cons_of_mem _ member)

theorem addToSets_requests (families : ∀ set ∈ sets, set.family = .ipv4 ∨ set.family = .ipv6)
    {r : Request}
    (sent : r ∈ (m.addToSets host call.ip4s call.ip6s fails sets s).1.requests) :
    ∃ set ∈ sets, r.ipsetName = set.name ∧ connOf set.family = some r.conn ∧
      ∀ ip ∈ r.entries, ip ∈ call.ips set.family := by
  induction sets generalizing fails s with
  | nil => cases sent
  | cons set sets ih =>
    have family := families set (by simp)
    have head : r ∈ (m.addIPs (fails 0) host set (call.ips set.family) s).1.requests →
        ∃ other ∈ set :: sets, r.ipsetName = other.name ∧ connOf other.family = some r.conn ∧
          ∀ ip ∈ r.entries, ip ∈ call.ips other.family :=
      fun here => ⟨set, by simp, addIPs_requests here⟩
    cases answer : (m.addIPs (fails 0) host set (call.ips set.family) s).1.err with
    | some err =>
      rw [addToSets_refused family answer] at sent
      exact head sent
    | none =>
      rw [addToSets_passed family answer] at sent
      rcases List.mem_append.mp sent with here | later
      · exact head here
      · obtain ⟨other, member, right⟩ :=
          ih (fun set member => families set (List.mem_cons_of_mem _ member)) later
        exact ⟨other, List.mem_cons_of_mem _ member, right⟩

end Calls

section Accepted

variable {toLower : Char → Char} {kernel : Kernel} {lines : List (List Char)} {m : Manager}
  {call : Call} {s : State} {events : List Event} {members : List IpInIpsetEntry}

/-- The sets that a host is looked up to have one of the two families. -/
theorem Built.family (built : Built toLower kernel kernel.sets lines m) {h : Host} {set : Props}
    (member : set ∈ m.lookupHost h) : set.family = .ipv4 ∨ set.family = .ipv6 := by
  obtain ⟨d, -, looked⟩ := built.lookupHost_routed h
  rw [looked] at member
  obtain ⟨n, -, named⟩ := (built.sets d set).mp member
  exact (setProps_ok named).2.1

/-- `Add` sends the batches of the sets that the host is looked up to. -/
theorem Built.add_items (built : Built toLower kernel kernel.sets lines m) (call : Call)
    (s : State) :
    SentItems.sendAll m.isPersistent call.fails s.items
        ((m.lookupHost call.host).map call.batch) =
      ((m.add call s).1.err.isNone, (m.add call s).2.items) := by
  unfold Manager.add
  simp only
  split
  next empty =>
    rw [List.length_eq_zero_iff.mp empty]
    rfl
  · exact addToSets_items fun set member => built.family member

theorem Built.add_requests (built : Built toLower kernel kernel.sets lines m) {r : Request}
    (sent : r ∈ (m.add call s).1.requests) :
    ∃ set ∈ m.lookupHost call.host, r.ipsetName = set.name ∧ connOf set.family = some r.conn ∧
      ∀ ip ∈ r.entries, ip ∈ call.ips set.family := by
  unfold Manager.add at sent
  simp only at sent
  split at sent
  · cases sent
  · exact addToSets_requests (fun set member => built.family member) sent

/-- A step keeps the cache sound. -/
theorem Built.sound_step (built : Built toLower kernel kernel.sets lines m)
    (sound : s.items.Sound m.isPersistent) {event : Event} (allowed : event.Allowed kernel) :
    (m.step s event).2.items.Sound m.isPersistent := by
  cases event with
  | add call =>
    have kept : (SentItems.sendAll m.isPersistent call.fails s.items
        ((m.lookupHost call.host).map call.batch)).2.Sound m.isPersistent := sound.sendAll
    rwa [built.add_items] at kept
  | lose e =>
    have lost : m.isPersistent e = false := by
      cases persistent : m.isPersistent e with
      | false => rfl
      | true => exact absurd (built.lasting persistent) allowed
    exact sound.lose lost
  | gain e => exact sound.gain

theorem Built.sound_run (built : Built toLower kernel kernel.sets lines m)
    (sound : s.items.Sound m.isPersistent) (allowed : ∀ event ∈ events, event.Allowed kernel) :
    (m.run s events).items.Sound m.isPersistent := by
  induction events generalizing s with
  | nil => exact sound
  | cons event rest ih =>
    exact ih (built.sound_step sound (allowed event (by simp)))
      fun later member => allowed later (List.mem_cons_of_mem _ member)

theorem sound_fresh (m : Manager) (members : List IpInIpsetEntry) :
    (State.fresh members).items.Sound m.isPersistent := by
  intro e cached
  cases cached

/-- A call from a state with a sound cache does what it has to. -/
theorem Built.addRight (built : Built toLower kernel kernel.sets lines m)
    (sound : s.items.Sound m.isPersistent) (call : Call) :
    ∃ d, AddRight toLower kernel lines call d (m.add call s) := by
  obtain ⟨d, routed, looked⟩ := built.lookupHost_routed call.host
  refine ⟨d, routed, ?_, ?_⟩
  · intro r sent
    obtain ⟨set, member, name, conn, entries⟩ := built.add_requests sent
    rw [looked] at member
    obtain ⟨n, configured, named⟩ := (built.sets d set).mp member
    rw [name, (setProps_ok named).1]
    exact ⟨configured, set, by simp [Kernel.props, named, Except.toOption], conn, entries⟩
  · intro passed n configured
    obtain ⟨p, named⟩ := built.found d n configured
    obtain ⟨name, family, -⟩ := setProps_ok named
    refine ⟨p, by simp [Kernel.props, named, Except.toOption], family, ?_⟩
    intro ip member
    have listed : call.batch p ∈ (m.lookupHost call.host).map call.batch := by
      rw [looked]
      exact List.mem_map_of_mem ((built.sets d p).mpr ⟨n, configured, named⟩)
    have entry : entryOf n ip ∈ call.batch p := by
      rw [← name]
      exact List.mem_map_of_mem member
    have sends := built.add_items call s
    have done : (SentItems.sendAll m.isPersistent call.fails s.items
        ((m.lookupHost call.host).map call.batch)).1 = true := by
      rw [sends, passed]
      rfl
    have there := sound.mem_of_sendAll done listed entry
    rwa [sends] at there

/-- One step, against the same step without a cache and a softer kernel. -/
theorem Built.exists_stepUncached (built : Built toLower kernel kernel.sets lines m)
    (sound : s.items.Sound m.isPersistent) (same : ∀ e, e ∈ s.members ↔ e ∈ members)
    (event : Event) : ∃ event', event.Softer event' ∧
      SameView ((m.step s event).1, (m.step s event).2.members)
        (m.stepUncached members event') := by
  cases event with
  | add call =>
    obtain ⟨fails, softer, done, after⟩ := sound.exists_sendAllPlain same
      ((m.lookupHost call.host).map call.batch) call.fails
    rw [built.add_items] at done after
    exact ⟨_, .add call fails softer, done.symm, after⟩
  | lose e =>
    refine ⟨.lose e, .lose e, rfl, ?_⟩
    intro other
    simp [Manager.step, Manager.stepUncached, same]
  | gain e =>
    refine ⟨.gain e, .gain e, rfl, ?_⟩
    intro other
    simp [Manager.step, Manager.stepUncached, same]

theorem Built.exists_traceUncached (built : Built toLower kernel kernel.sets lines m)
    (sound : s.items.Sound m.isPersistent) (same : ∀ e, e ∈ s.members ↔ e ∈ members)
    (allowed : ∀ event ∈ events, event.Allowed kernel) :
    ∃ events', List.Forall₂ Event.Softer events events' ∧
      List.Forall₂ SameView (m.trace s events) (m.traceUncached members events') := by
  induction events generalizing s members with
  | nil => exact ⟨[], .nil, .nil⟩
  | cons event rest ih =>
    obtain ⟨event', softer, view⟩ := built.exists_stepUncached sound same event
    obtain ⟨rest', softer', views⟩ :=
      ih (built.sound_step sound (allowed event (by simp))) view.2
        fun later member => allowed later (List.mem_cons_of_mem _ member)
    exact ⟨event' :: rest', .cons softer softer', .cons view views⟩

end Accepted

/-- **The cache is transparent, and hosts go to their sets.** In every run from an accepted
configuration each `Add` is right, and the whole run, answers and members, is one that the
manager without a cache has against a kernel that refuses no more. -/
theorem ipset_transparent {toLower : Char → Char} {kernel : Kernel} {lines : List (List Char)}
    {m : Manager} (accepted : parseIpsetConfig toLower kernel lines = .ok m)
    (members : List IpInIpsetEntry) (events : List Event)
    (allowed : ∀ event ∈ events, event.Allowed kernel) :
    (∀ past call rest, events = past ++ .add call :: rest →
      ∃ d, AddRight toLower kernel lines call d
        (m.add call (m.run (.fresh members) past))) ∧
    ∃ events', List.Forall₂ Event.Softer events events' ∧
      List.Forall₂ SameView (m.trace (.fresh members) events)
        (m.traceUncached members events') := by
  have built := built_of_accepted accepted
  constructor
  · intro past call rest whole
    refine built.addRight (built.sound_run (sound_fresh m members) ?_) call
    intro event member
    exact allowed event (whole ▸ List.mem_append_left _ member)
  · exact built.exists_traceUncached (sound_fresh m members) (fun _ => Iff.rfl) allowed

/-- One set without a timeout, for `a` and what is below it. -/
def sampleKernel : Kernel where
  listAll := .ok [⟨['s'], [], .ipv4, true⟩]
  header _ := .ok none

def sampleLines : List (List Char) := [['a', '/', 's']]

def sampleManager : Manager :=
  (parseIpsetConfig Char.toLower sampleKernel sampleLines).toOption.getD .empty

def sampleCall : Call where
  host := ['b', '.', 'a']
  ip4s := [.four 0x01020304]
  ip6s := []
  fails _ := false
  is4 := by decide
  is6 := by simp

/-- The same address twice, the second time from the cache. -/
theorem sampleCall_transparent :
    (∀ past call rest, [.add sampleCall, .add sampleCall] = past ++ Event.add call :: rest →
      ∃ d, AddRight Char.toLower sampleKernel sampleLines call d
        (sampleManager.add call (sampleManager.run (.fresh []) past))) ∧
    ∃ events', List.Forall₂ Event.Softer [.add sampleCall, .add sampleCall] events' ∧
      List.Forall₂ SameView
        (sampleManager.trace (.fresh []) [.add sampleCall, .add sampleCall])
        (sampleManager.traceUncached [] events') := by
  have accepted : parseIpsetConfig Char.toLower sampleKernel sampleLines = .ok sampleManager := rfl
  refine ipset_transparent accepted [] [.add sampleCall, .add sampleCall] ?_
  intro event member
  simp only [List.mem_cons, List.not_mem_nil, or_false, or_self] at member
  rw [member]
  trivial

end FirewallCore.Ipset
