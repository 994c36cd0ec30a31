import FirewallCore.Lib.Rfc3339
import FirewallCore.Net.Addr
import FirewallCore.Dhcpd.V4HandlerSpec
import FirewallCore.Dhcpd.V6Map

/-!
The database of leases (`db.go`): `dbStore`, `dbLoad`, and the leases a reload
keeps.

The file is the list of its records; that JSON gives back the fields it was
given is not modelled. An expiry is written in local time, whose offset from UTC
in minutes is the parameter `zone`. `writeDB` sorts by hostname with
`slices.SortFunc`, which is not stable, so the file may be any sorted permutation.
-/

namespace FirewallCore.Dhcpd

open FirewallCore.Net FirewallCore.Lib

/-- `dbLease`. -/
structure DbLease where
  expiry : String
  ip : Addr
  hostname : String
  hwAddr : String
  isStatic : Bool
  deriving DecidableEq, Repr

/-- The errors of `toLease`. -/
inductive DbErr where
  /-- "parsing hardware address: %w" -/
  | hardwareAddr (text : String)
  /-- "parsing expiry time: %w" -/
  | expiryTime (text : String)
  deriving DecidableEq, Repr

/-- The seconds of the year zero, which lie before the zero `time.Time`. -/
def yearZero : Int := 366 * 86400

/-- `Format(time.RFC3339)` at an offset in minutes. -/
def formatTime (offset : Int) (t : Time) : String :=
  String.ofList (Rfc3339.format offset (t / second + yearZero))

/-- `time.Parse(time.RFC3339, s)`. -/
def parseTime (s : String) : Option Time :=
  (Rfc3339.parse s.toList).map fun secs => (secs - yearZero) * second

/-- `fromLease`. -/
def fromLease (zone : Time → Int) (l : Lease) : DbLease :=
  { expiry := if l.isStatic then "" else formatTime (zone l.expiry) l.expiry
    ip := l.ip
    hostname := l.hostname
    hwAddr := macString l.hwAddr
    isStatic := l.isStatic }

/-- `toLease`. -/
def DbLease.toLease (dl : DbLease) : Except DbErr Lease :=
  match parseMAC dl.hwAddr with
  | none => .error (.hardwareAddr dl.hwAddr)
  | some mac =>
    if dl.isStatic then
      .ok { ip := dl.ip, expiry := 0, hostname := dl.hostname, hwAddr := mac, isStatic := true }
    else
      match parseTime dl.expiry with
      | none => .error (.expiryTime dl.expiry)
      | some expiry =>
        .ok { ip := dl.ip, expiry := expiry, hostname := dl.hostname, hwAddr := mac }

/-- `writeDB`: the file is sorted by hostname. -/
structure WriteDB (leases file : List DbLease) : Prop where
  perm : file.Perm leases
  sorted : file.Pairwise fun a b => a.hostname ≤ b.hostname

/-- `getLeasesRef` of the DHCPv4 server. -/
def V4Server.getLeasesRef (s : V4Server) : List Lease := s.leases.elems.map s.heap

/-- `dbStore`. -/
def DbStore (zone : Time → Int) (srv4 : V4Server) (srv6 : V6Server) (file : List DbLease) : Prop :=
  WriteDB ((srv4.getLeasesRef ++ srv6.leases).map (fromLease zone)) file

/-- The leases of a file that can be converted. -/
def convertLeases (file : List DbLease) : List Lease :=
  file.filterMap fun dl => dl.toLease.toOption

/-- `dbLoad`; `none` is a panic of `ResetLeases`. -/
def dbLoad (nu : Netutil) (srv4 : V4Server) (srv6 : V6Server) (file : List DbLease) :
    Option (V4Server × V6Server) := do
  let leases := convertLeases file
  let srv4 ← srv4.resetLeases nu (leases.filter (·.ip.is4))
  let srv6 ← srv6.resetLeases (leases.filter (! ·.ip.is4))
  return (srv4, srv6)

/-! ### One record -/

/-- The expiry of a dynamic lease has a year of four digits in local time. -/
def Readable (zone : Time → Int) (l : Lease) : Prop :=
  l.isStatic = true ∨
    (0 ≤ Rfc3339.localYear (zone l.expiry) (l.expiry / second + yearZero) ∧
      Rfc3339.localYear (zone l.expiry) (l.expiry / second + yearZero) ≤ 9999)

instance (zone : Time → Int) (l : Lease) : Decidable (Readable zone l) :=
  inferInstanceAs (Decidable (_ ∨ _))

/-- A lease as it comes back: without the fraction of a second. -/
def reread (l : Lease) : Lease :=
  { l with expiry := if l.isStatic then 0 else l.expiry / second * second }

/-- A stored lease is read back, unless the year of its expiry has too many digits. -/
theorem toLease_fromLease {zone : Time → Int} {l : Lease} (mac : l.hwAddr.length ∈ [6, 8, 20])
    (zones : (zone l.expiry).natAbs < 1440) :
    (fromLease zone l).toLease.toOption = if Readable zone l then some (reread l) else none := by
  obtain ⟨ip, expiry, hostname, hwAddr, isStatic⟩ := l
  unfold DbLease.toLease fromLease
  simp only [parseMAC_macString mac]
  cases isStatic with
  | true => simp [Readable, reread, Except.toOption]
  | false =>
    simp only [Bool.false_eq_true, if_false]
    by_cases year : 0 ≤ Rfc3339.localYear (zone expiry) (expiry / second + yearZero) ∧
        Rfc3339.localYear (zone expiry) (expiry / second + yearZero) ≤ 9999
    · have parsed : parseTime (formatTime (zone expiry) expiry) = some (expiry / second * second) := by
        rw [parseTime, formatTime, String.toList_ofList, Rfc3339.parse_format zones year]
        simp
      rw [if_pos (.inr year), parsed]
      rfl
    · have failed : parseTime (formatTime (zone expiry) expiry) = none := by
        rw [parseTime, formatTime, String.toList_ofList, Rfc3339.parse_format_none year]
        rfl
      rw [if_neg (by rintro (h | h); exacts [Bool.noConfusion h, year h]), failed]
      rfl

/-! ### The leases a reload keeps -/

section Keep

variable {name : Lease → String}

/-- The leases that are added one after the other when a name may be given once. -/
def keepNamed (name : Lease → String) : List String → List Lease → List Lease
  | _, [] => []
  | taken, l :: rest =>
    if name l ≠ "" ∧ name l ∈ taken then keepNamed name taken rest
    else l :: keepNamed name (name l :: taken) rest

theorem keepNamed_sublist (taken : List String) (leases : List Lease) :
    (keepNamed name taken leases).Sublist leases := by
  induction leases generalizing taken with
  | nil => exact .slnil
  | cons l rest ih =>
    unfold keepNamed
    split
    · exact (ih taken).cons l
    · exact (ih _).cons_cons l

/-- Every lease is kept exactly when no name is taken or given twice. -/
theorem keepNamed_eq_self_iff {taken : List String} {leases : List Lease} :
    keepNamed name taken leases = leases ↔
      (∀ l ∈ leases, name l ≠ "" → name l ∉ taken) ∧
        leases.Pairwise fun a b => name a ≠ "" → name a ≠ name b := by
  induction leases generalizing taken with
  | nil => simp [keepNamed]
  | cons l rest ih =>
    unfold keepNamed
    split
    · rename_i dropped
      constructor
      · intro all
        have shorter : (keepNamed name taken rest).length ≤ rest.length :=
          (keepNamed_sublist taken rest).length_le
        rw [all] at shorter
        simp at shorter
      · rintro ⟨free, -⟩
        exact absurd dropped.2 (free l (by simp) dropped.1)
    · rename_i added
      rw [List.cons.injEq, ih, List.pairwise_cons]
      constructor
      · rintro ⟨-, free, apart⟩
        refine ⟨?_, ?_, apart⟩
        · intro m member named listed
          rcases List.mem_cons.mp member with rfl | later
          · exact added ⟨named, listed⟩
          · exact free m later named (List.mem_cons_of_mem _ listed)
        · intro m member named same
          exact free m member (same ▸ named) (by rw [same]; exact List.mem_cons_self)
      · rintro ⟨free, first, apart⟩
        refine ⟨rfl, ?_, apart⟩
        intro m member named listed
        rcases List.mem_cons.mp listed with same | old
        · exact first m member (same ▸ named) same.symm
        · exact free m (List.mem_cons_of_mem _ member) named old

end Keep

namespace V4Server

variable {nu : Netutil} {s s' : V4Server} {p : Ptr}

/-- A lease of an IPv4 address gets a name at the reload. -/
theorem readdHostname_some {l : Lease} (is4 : l.ip.is4 = true) :
    ∃ name, readdHostname nu l = some name := by
  obtain ⟨ip, expiry, hostname, hwAddr, isStatic⟩ := l
  cases ip with
  | zero => cases is4
  | v6 n zone => cases is4
  | v4 n =>
    unfold readdHostname
    split
    · exact ⟨hostname, rfl⟩
    · simp only [validHostnameForClient, generateHostname, Addr.unmap]
      split
      · exact ⟨_, rfl⟩
      · exact ⟨_, rfl⟩

/-- The name a lease is added with at a reload. -/
def reloadName (nu : Netutil) (l : Lease) : String := (readdHostname nu l).getD ""

theorem getLeasesRef_new (bounded : ∀ p ∈ s.leases.elems, p < s.next) (l : Lease) :
    (s.new l).getLeasesRef = s.getLeasesRef := by
  unfold getLeasesRef
  apply List.map_congr_left
  intro p member
  exact heap_new_of_lt s l (bounded p member)

/-- A lease of the subnet or the range is added unless its name is taken. -/
theorem addLease_eq
    (inSubnet : (s.heap p).isStatic = true → s.subnet.contains (s.heap p).ip = true)
    (inRange : (s.heap p).isStatic = false → (s.offset (s.heap p).ip).2 = true) :
    s.addLease p =
      if (s.heap p).hostname ≠ "" ∧ (s.hostsIndex (s.heap p).hostname).isSome = true then
        .error .dupHostname
      else .ok (s.insertLease p) := by
  unfold addLease
  cases isStatic : (s.heap p).isStatic with
  | true => simp [isStatic, inSubnet isStatic]
  | false => simp [isStatic, inRange isStatic]

/-- `ResetLeases` keeps the leases whose names are free, in order. -/
theorem readdLeases_eq {leases : List Lease} {taken : List String}
    (bounded : ∀ p ∈ s.leases.elems, p < s.next)
    (is4 : ∀ l ∈ leases, l.ip.is4 = true)
    (inSubnet : ∀ l ∈ leases, l.isStatic = true → s.subnet.contains l.ip = true)
    (inRange : ∀ l ∈ leases, l.isStatic = false → (s.offset l.ip).2 = true)
    (hosts : ∀ n, n ≠ "" → ((s.hostsIndex n).isSome = true ↔ n ∈ taken)) :
    ∃ s', readdLeases nu s leases = some s' ∧ s'.getLeasesRef = s.getLeasesRef ++
      (keepNamed (reloadName nu) taken leases).map fun l =>
        { l with hostname := reloadName nu l } := by
  induction leases generalizing s taken with
  | nil => exact ⟨s, rfl, by simp [keepNamed]⟩
  | cons l rest ih =>
    obtain ⟨name, named⟩ : ∃ name, readdHostname nu l = some name :=
      readdHostname_some (is4 l (by simp))
    have reload : reloadName nu l = name := by rw [reloadName, named, Option.getD_some]
    have bounded' : ∀ p ∈ (s.new { l with hostname := name }).leases.elems,
        p < (s.new { l with hostname := name }).next := fun p member =>
      Nat.lt_succ_of_lt (bounded p member)
    have added := addLease_eq (s := s.new { l with hostname := name }) (p := s.next)
      (by simpa using inSubnet l (by simp)) (by simpa using inRange l (by simp))
    simp only [readdLeases, named, Option.bind_eq_bind, Option.bind_some]
    by_cases dup : name ≠ "" ∧ (s.hostsIndex name).isSome = true
    · -- another lease has the name already
      have refused : (s.new { l with hostname := name }).addLease s.next =
          .error .dupHostname := by
        rw [added, if_pos (by simpa using dup)]
      obtain ⟨s', done, listed⟩ := ih (s := s.new { l with hostname := name }) bounded'
        (fun m member => is4 m (by simp [member]))
        (fun m member => inSubnet m (by simp [member]))
        (fun m member => inRange m (by simp [member])) hosts
      refine ⟨s', by rw [refused]; exact done, ?_⟩
      rw [listed, getLeasesRef_new bounded, keepNamed, if_pos]
      rw [reload]
      exact ⟨dup.1, (hosts name dup.1).mp dup.2⟩
    · rw [if_neg (by simpa using dup)] at added
      have hosts' : ∀ n, n ≠ "" →
          ((((s.new { l with hostname := name }).insertLease s.next).hostsIndex n).isSome = true ↔
            n ∈ name :: taken) := by
        intro n nonempty
        have old := hosts n nonempty
        simp only [insertLease, heap_new_self, new_hostsIndex]
        by_cases blank : name = ""
        · rw [if_pos blank, old, List.mem_cons, blank]
          simp [nonempty]
        · rw [if_neg blank, Function.update_apply]
          by_cases same : n = name
          · simp [same]
          · simp [same, old]
      obtain ⟨s', done, listed⟩ := ih
        (s := (s.new { l with hostname := name }).insertLease s.next) (by
          intro p member
          rcases List.mem_append.mp member with old | new
          · exact bounded' p old
          · rw [List.mem_singleton.mp new]
            exact Nat.lt_succ_self _)
        (fun m member => is4 m (by simp [member]))
        (fun m member => inSubnet m (by simp [member]))
        (fun m member => inRange m (by simp [member])) hosts'
      refine ⟨s', by rw [added]; exact done, ?_⟩
      rw [listed, keepNamed, if_neg]
      · simp only [getLeasesRef, insertLease_elems, insertLease_heap, List.map_append,
          List.map_cons, List.map_nil, heap_new_self, reload, List.append_assoc, List.cons_append,
          List.nil_append]
        congr 1
        exact getLeasesRef_new bounded _
      · rw [reload]
        rintro ⟨nonempty, listed⟩
        exact dup ⟨nonempty, (hosts name nonempty).mpr listed⟩

/-! ### The leases of a running server -/

/-- What an entry must be to be stored and loaded: a lease of an IPv4 address, in the
subnet if static, with a hardware address that can be parsed. The configuration stays. -/
structure StoreInv (c : Option V4ServerConf) (s : V4Server) : Prop where
  conf : s.conf = c
  is4 : ∀ p ∈ s.leases.elems, (s.heap p).ip.is4 = true
  macs : ∀ p ∈ s.leases.elems, (s.heap p).hwAddr.length ∈ [6, 8, 20]
  inSubnet : ∀ p ∈ s.leases.elems, (s.heap p).isStatic = true →
    s.subnet.contains (s.heap p).ip = true

/-- The calls a server gets. `ResetLeases` is given no lease or those of a file, and the
hardware address of a message has been checked. -/
def StoreOp (nu : Netutil) (_ : V4Server) : Op → Prop
  | .resetLeases leases => ∀ l ∈ leases, l.ip.is4 = true ∧ l.hwAddr.length ∈ [6, 8, 20]
  | .handle req _ => nu.validateMAC req.clientHWAddr = none
  | _ => True

namespace StoreInv

variable {c : Option V4ServerConf}

theorem mono (inv : StoreInv c s) (conf : s'.conf = s.conf)
    (entries : ∀ p ∈ s'.leases.elems,
      (p ∈ s.leases.elems ∧ (s'.heap p).ip = (s.heap p).ip ∧
        (s'.heap p).isStatic = (s.heap p).isStatic ∧
        (s'.heap p).hwAddr.length ∈ [6, 8, 20, (s.heap p).hwAddr.length]) ∨
      ((s'.heap p).ip.is4 = true ∧ (s'.heap p).hwAddr.length ∈ [6, 8, 20] ∧
        ((s'.heap p).isStatic = true → s'.subnet.contains (s'.heap p).ip = true))) :
    StoreInv c s' := by
  refine ⟨conf.trans inv.conf, ?_, ?_, ?_⟩
  · intro p member
    rcases entries p member with ⟨old, ip, -, -⟩ | ⟨is4, -, -⟩
    · rw [ip]
      exact inv.is4 p old
    · exact is4
  · intro p member
    rcases entries p member with ⟨old, -, -, mac⟩ | ⟨-, mac, -⟩
    · have before := inv.macs p old
      simp only [List.mem_cons, List.not_mem_nil, or_false] at mac before ⊢
      omega
    · exact mac
  · intro p member isStatic
    rcases entries p member with ⟨old, ip, static, -⟩ | ⟨-, -, inSubnet⟩
    · rw [static] at isStatic
      rw [ip, subnet_congr conf]
      exact inv.inSubnet p old isStatic
    · exact inSubnet isStatic

theorem trimmed (inv : StoreInv c s) (trim : Trimmed s s') : StoreInv c s' :=
  inv.mono trim.conf fun p member =>
    .inl ⟨trim.sub.subset member, trim.ip p, trim.isStatic p, by simp [trim.hwAddr p]⟩

theorem new (inv : StoreInv c s) (wf : Wf s) (l : Lease) : StoreInv c (s.new l) :=
  inv.mono rfl fun p member => .inl ⟨member, by
    rw [heap_new_of_lt s l (wf.bounded p member)]
    simp⟩

theorem modify (inv : StoreInv c s) (p : Ptr) {f : Lease → Lease}
    (keeps : ∀ l, (f l).ip = l.ip ∧ (f l).isStatic = l.isStatic ∧
      (f l).hwAddr.length ∈ [6, 8, 20, l.hwAddr.length]) : StoreInv c (s.modify p f) := by
  refine inv.mono rfl fun q member => .inl ⟨member, ?_⟩
  rw [heap_modify]
  split
  · exact keeps _
  · simp

theorem addLease (inv : StoreInv c s) (is4 : (s.heap p).ip.is4 = true)
    (mac : (s.heap p).hwAddr.length ∈ [6, 8, 20]) (done : s.addLease p = .ok s') : StoreInv c s' := by
  obtain ⟨rfl, inSubnet, -, -⟩ := addLease_ok done
  refine inv.mono rfl ?_
  intro q member
  rcases List.mem_append.mp member with old | new
  · exact .inl ⟨old, rfl, rfl, by simp⟩
  · rw [List.mem_singleton.mp new]
    exact .inr ⟨is4, mac, inSubnet⟩

theorem reserveLease (inv : StoreInv c s) (wf : Wf s) {mac : HardwareAddr} {now : Time}
    {res : Except V4Err (Option Ptr)} (valid : mac.length ∈ [6, 8, 20])
    (done : s.reserveLease mac now = (s', res)) : StoreInv c s' := by
  rcases reserveLease_cases done with ⟨-, rfl, -⟩ | ⟨-, i, p, -, -, -, -, rfl, -⟩ |
    ⟨n, o, -, -, rfl, -⟩
  · exact inv
  · refine inv.modify p fun l => ⟨rfl, rfl, ?_⟩
    have length : (goCopy l.hwAddr mac).length = l.hwAddr.length := by
      simp only [goCopy, List.length_append, List.length_take, List.length_drop]
      omega
    rw [length]
    simp
  · refine (inv.new wf { ip := .v4 n, hwAddr := mac }).mono rfl ?_
    intro q member
    rcases List.mem_append.mp member with old | new
    · exact .inl ⟨old, rfl, rfl, by simp [reserveFresh]⟩
    · rw [List.mem_singleton.mp new]
      exact .inr (by simp [reserveFresh, Addr.is4, valid])

theorem allocateLease (inv : StoreInv c s) (wf : Wf s) {mac : HardwareAddr} {rounds : List Round}
    {a : Allocation} (valid : mac.length ∈ [6, 8, 20])
    (done : V4Server.allocateLease mac s [] rounds = some a) : StoreInv c a.server := by
  obtain ⟨k, r, t, -, ⟨inv₁, wf₁⟩, last, -⟩ :=
    allocateLease_last (I := fun _ t _ => StoreInv c t ∧ Wf t) (by
      rintro k t _ r t₁ p _ ⟨inv, wf⟩ reserved _
      refine ⟨(inv.reserveLease wf valid reserved).modify p fun l => ⟨rfl, rfl, ?_⟩,
        (wf.reserveLease reserved).1.blocklistLease p r.stamp⟩
      simp [blocklistMAC]) done ⟨inv, wf⟩
  exact inv₁.reserveLease wf₁ valid last

theorem handle (inv : StoreInv c s) (wf : Wf s) {req : Msg} {env : Readings} {h : Handled}
    (valid : req.clientHWAddr.length ∈ [6, 8, 20]) (done : s.handle nu req env = some h) :
    StoreInv c h.server := by
  rcases handle_inv done with unmoved | ⟨-, done⟩ | ⟨-, self, -, done⟩ | ⟨-, done⟩ | ⟨-, done⟩
  · rwa [unmoved.server]
  · exact discover_keeps done inv fun _ _ allocated => inv.allocateLease wf valid allocated
  · refine request_keeps done inv fun p hostname => inv.mono rfl fun q member => .inl ⟨member, ?_⟩
    rw [heap_commit]
    split
    · simp
    · simp
  · rcases handleDecline_inv done with unmoved | ⟨old, s₁, err, -, removed, rest⟩
    · rwa [unmoved.server]
    have inv₁ := inv.trimmed (.rmDynamicLease removed)
    have wf₁ := wf.trimmed (.rmDynamicLease removed)
    rcases rest with unmoved | ⟨-, a, allocated, -, ⟨-, same, -⟩ | ⟨p, lease, rest⟩⟩
    · rwa [unmoved.server]
    · rw [same]
      exact inv₁.allocateLease wf₁ valid allocated
    · have listed := (wf₁.allocateLease allocated).2 p lease
      have inv₂ := (inv₁.allocateLease wf₁ valid allocated).modify p
        (f := fun l => { l with hostname := (a.server.heap old).hostname
                                expiry := env.now + a.server.leaseTime })
        fun l => ⟨rfl, rfl, by simp⟩
      rcases rest with ⟨-, same, -⟩ | ⟨added, -⟩
      · rw [same]
        exact inv₂
      · exact inv₂.addLease (inv₂.is4 p listed) (inv₂.macs p listed) added
  · obtain ⟨-, -, same | ⟨ip, err, -, released⟩⟩ := handleRelease_inv done
    · rwa [same]
    · exact inv.trimmed (.releaseLoop released)

theorem cleared (inv : StoreInv c s) : StoreInv c s.cleared :=
  inv.mono rfl fun p member => by cases member

theorem step (inv : StoreInv c s) (wf : Wf s)
    (macs : ∀ mac, nu.validateMAC mac = none → mac.length ∈ [6, 8, 20]) {op : Op}
    {answer : Answer} (guard : StoreOp nu s op)
    (done : V4Server.step nu s op = some (s', answer)) : StoreInv c s' := by
  refine step_keeps inv ?_ done
  cases op with
  | addStaticLease l =>
    intro err added
    rcases addStaticLease_inv added with rfl | ⟨l', s₁, err₁, checked, removed, rest⟩
    · exact inv
    obtain ⟨-, -, is4, -, mac, valid⟩ := checkStatic_ok checked
    have trim := Trimmed.rmDynamicLease removed
    have inv₁ := (inv.new wf l').trimmed trim
    rcases rest with rfl | ⟨-, added⟩
    · exact inv₁
    · refine inv₁.addLease ?_ ?_ added
      · rw [trim.ip, heap_new_self]
        exact is4
      · rw [trim.hwAddr, heap_new_self, mac]
        exact macs _ valid
  | updateStaticLease l =>
    intro err updated
    rcases updateStaticLease_inv updated with rfl | ⟨found, l', s₁, lookup, valid, removed, rest⟩
    · exact inv
    have trim := Trimmed.rmLease removed
    have inv₁ := (inv.trimmed trim).new (wf.trimmed trim) l'
    rcases rest with rfl | added
    · exact inv₁
    · obtain ⟨⟨hostname, rfl, -⟩, -, inSubnet⟩ := validateStaticLease_ok valid
      obtain ⟨member, mac⟩ := findLease_some lookup
      refine inv₁.addLease ?_ ?_ added
      · rw [heap_new_self]
        exact wf.conf.subnet_is4 _ inSubnet
      · rw [heap_new_self]
        dsimp only
        rw [← mac]
        exact inv.macs found member
  | removeStaticLease l => exact fun removed => inv.trimmed (.rmLease removed)
  | resetLeases leases =>
    intro reset
    rcases resetLeases_inv reset with rfl | readded
    · exact inv
    · refine (readdLeases_preserves (I := fun t => StoreInv c t ∧ Wf t) ?_ ?_ readded
        ⟨inv.cleared, wf.cleared⟩).1
      · rintro t l - hostname ⟨inv, wf⟩
        exact ⟨inv.new wf _, wf.new _⟩
      · rintro t l t' member hostname ⟨inv, wf⟩ added
        refine ⟨(inv.new wf _).addLease ?_ ?_ added,
          (wf.new _).addLease (Nat.lt_succ_self _) added⟩
        · rw [heap_new_self]
          exact (guard l member).1
        · rw [heap_new_self]
          exact (guard l member).2
  | handle req env => exact fun _ => inv.handle wf (macs _ guard)
  | packet req env => exact fun _ valid => inv.handle wf (macs _ valid)

/-- Every reachable server can be stored and loaded. -/
theorem reachable {conf : V4ServerConf}
    (macs : ∀ mac, nu.validateMAC mac = none → mac.length ∈ [6, 8, 20])
    (run : Reaches (V4Server.step nu) (StoreOp nu) (v4Create conf).1 s) :
    StoreInv (v4Create conf).1.conf s ∧ Wf s := by
  refine run.invariant (I := fun t => StoreInv (v4Create conf).1.conf t ∧ Wf t) ?_ ?_
  · refine ⟨⟨rfl, ?_, ?_, ?_⟩, v4Create_wf conf⟩ <;> simp [v4Create_elems]
  · rintro t op t' answer ⟨inv, wf⟩ guard taken
    exact ⟨inv.step wf macs guard taken, wf.step taken⟩

end StoreInv

end V4Server

namespace V6Server

variable {nu : Netutil} {s s' : V6Server}

/-- The calls a DHCPv6 server gets: the HTTP handlers and `dbLoad` give it leases of IPv6
addresses only. -/
def StoreOp (_ : V6Server) : Op → Prop
  | .updateStaticLease l => l.ip.is6 = true
  | .resetLeases leases => ∀ l ∈ leases, l.ip.is6 = true
  | _ => True

/-- All leases have IPv6 addresses. -/
def AllV6 (s : V6Server) : Prop := ∀ l ∈ s.leases, l.ip.is6 = true

theorem AllV6.addLease (all : AllV6 s) {l : Lease} (is6 : l.ip.is6 = true) :
    AllV6 (s.addLease l) := by
  intro m member
  rcases List.mem_append.mp member with old | new
  · exact all m old
  · rw [List.mem_singleton.mp new]
    exact is6

theorem AllV6.leaseRemoveSwapByIndex (all : AllV6 s) (i : Nat) :
    AllV6 (s.leaseRemoveSwapByIndex i) := by
  cases entry : s.leases[i]? with
  | none =>
    rw [V6Server.leaseRemoveSwapByIndex, entry]
    exact all
  | some l =>
    rw [leaseRemoveSwapByIndex_some entry]
    intro m member
    exact all m ((cons_removeSwap_perm entry).mem_iff.mp (List.mem_cons_of_mem l member))

theorem AllV6.rmLease (all : AllV6 s) {l : Lease} (done : s.rmLease l = .ok s') : AllV6 s' := by
  obtain ⟨i, m, -, -, -, -, rfl⟩ := rmLease_ok done
  exact all.leaseRemoveSwapByIndex i

theorem AllV6.sameIPs (all : AllV6 s) (same : SameIPs s s') : AllV6 s' := by
  intro m member
  have listed : m.ip ∈ s'.leases.map (·.ip) := List.mem_map_of_mem member
  rw [same.ips] at listed
  obtain ⟨l, old, ip⟩ := List.mem_map.mp listed
  rw [← ip]
  exact all l old

/-- Leases of IPv6 addresses can be added again. -/
theorem AllV6.readdLeases (all : AllV6 s) {leases : List Lease}
    (is6 : ∀ l ∈ leases, l.ip.is6 = true) :
    ∃ s', V6Server.readdLeases s leases = some s' ∧ AllV6 s' := by
  induction leases generalizing s with
  | nil => exact ⟨s, rfl, all⟩
  | cons l rest ih =>
    have later := fun m member => is6 m (List.mem_cons_of_mem l member)
    have added := all.addLease (is6 l (by simp))
    unfold V6Server.readdLeases
    split
    · exact ih added later
    · have inRange : ∃ b, ip6InRange s.conf.ipStart l.ip.asSlice = some b := by
        have is6 := is6 l (by simp)
        cases ip : l.ip with
        | zero =>
          rw [ip] at is6
          cases is6
        | v4 n =>
          rw [ip] at is6
          cases is6
        | v6 n zone =>
          unfold ip6InRange Addr.asSlice
          cases s.conf.ipStart <;> exact ⟨_, rfl⟩
      obtain ⟨b, inRange⟩ := inRange
      rw [inRange]
      cases b with
      | false => exact ih all later
      | true => exact ih added later

theorem AllV6.step (all : AllV6 s) {op : Op} {answer : Answer} (guard : StoreOp s op)
    (done : V6Server.step nu s op = some (s', answer)) : AllV6 s' := by
  cases op with
  | addStaticLease l =>
    cases done
    have removed : AllV6 (s.rmDynamicLease { l with isStatic := true }).1 :=
      rmDynamicLease_preserves (fun _ i _ all _ _ => all.leaseRemoveSwapByIndex i) all
    rcases addStaticLease_cases nu s l with same | ⟨is6, -, same | same⟩
    · rwa [same]
    · rwa [same]
    · rw [same]
      exact removed.addLease is6
  | updateStaticLease l =>
    cases done
    rcases updateStaticLease_cases s l with same | ⟨i, found, t, -, -, removed, same⟩
    · rwa [same]
    · rw [same]
      exact (all.rmLease removed).addLease guard
  | removeStaticLease l =>
    cases done
    rcases removeStaticLease_cases nu s l with same | ⟨t, removed, same⟩
    · rwa [same]
    · rw [same]
      exact all.rmLease removed
  | resetLeases leases =>
    obtain ⟨t, reset, same⟩ := Option.map_eq_some_iff.mp done
    cases same
    obtain ⟨t', readded, all'⟩ := AllV6.readdLeases (s := { s with leases := [] })
      (by intro l member; cases member) guard
    rw [resetLeases, readded] at reset
    cases reset
    exact all'
  | process msg now later =>
    obtain ⟨⟨t, r⟩, processed, same⟩ := Option.map_eq_some_iff.mp done
    cases same
    rcases process_cases processed with same | ⟨n, mac, -, same⟩
    · exact all.sameIPs same
    · exact (all.addLease rfl).sameIPs same

theorem AllV6.reachable {conf : V6ServerConf}
    (run : Reaches (V6Server.step nu) StoreOp (v6Create conf).1 s) : AllV6 s := by
  refine run.invariant ?_ fun _ _ _ _ all guard taken => all.step guard taken
  intro l member
  have empty : (v6Create conf).1.leases = [] := by
    unfold v6Create
    dsimp only
    split
    · rfl
    split
    · rfl
    split
    · rfl
    · rfl
  rw [empty] at member
  cases member

end V6Server

/-! ### Storing and loading -/

/-- What the database must keep of a lease: the expiry, of a dynamic one, to the second. -/
def stored (l : Lease) : Addr × HardwareAddr × Bool × Option Int :=
  (l.ip, l.hwAddr, l.isStatic, if l.isStatic then none else some (l.expiry / second))

theorem stored_reread (l : Lease) : stored (reread l) = stored l := by
  obtain ⟨ip, expiry, hostname, hwAddr, isStatic⟩ := l
  cases isStatic with
  | true => rfl
  | false =>
    have whole : expiry / second * second / second = expiry / second :=
      Int.mul_ediv_cancel _ (by decide)
    simp [stored, reread, whole]

/-- Every lease can be read back, and no two of them get one name at the reload. -/
structure Restorable (nu : Netutil) (zone : Time → Int) (leases : List Lease) : Prop where
  readable : ∀ l ∈ leases, Readable zone l
  apart : leases.Pairwise fun a b =>
    V4Server.reloadName nu a ≠ "" → V4Server.reloadName nu a ≠ V4Server.reloadName nu b

theorem toLease_ip {dl : DbLease} {l : Lease} (read : dl.toLease.toOption = some l) :
    l.ip = dl.ip := by
  unfold DbLease.toLease at read
  split at read
  · cases read
  · split at read
    · cases read
      rfl
    · split at read
      · cases read
      · cases read
        rfl

section Reload

variable {nu : Netutil} {zone : Time → Int} {listed listed6 : List Lease} {file : List DbLease}

/-- A lease of the file has the address of a lease that was stored. -/
theorem mem_convertLeases (written : WriteDB ((listed ++ listed6).map (fromLease zone)) file)
    {l : Lease} (member : l ∈ convertLeases file) :
    ∃ m ∈ listed ++ listed6, l.ip = m.ip := by
  obtain ⟨dl, record, read⟩ := List.mem_filterMap.mp member
  obtain ⟨m, origin, rfl⟩ := List.mem_map.mp (written.perm.mem_iff.mp record)
  exact ⟨m, origin, toLease_ip read⟩

/-- The DHCPv4 leases of the file are the readable ones that were stored. -/
theorem convertLeases_perm (written : WriteDB ((listed ++ listed6).map (fromLease zone)) file)
    (zones : ∀ t, (zone t).natAbs < 1440)
    (is4 : ∀ l ∈ listed, l.ip.is4 = true) (is6 : ∀ l ∈ listed6, l.ip.is6 = true)
    (macs : ∀ l ∈ listed, l.hwAddr.length ∈ [6, 8, 20]) :
    ((convertLeases file).filter (·.ip.is4)).Perm
      ((listed.filter fun l => Readable zone l).map reread) := by
  have converted : (convertLeases file).Perm
      ((listed ++ listed6).filterMap fun l => (fromLease zone l).toLease.toOption) := by
    have perm := written.perm.filterMap fun dl => dl.toLease.toOption
    rwa [List.filterMap_map] at perm
  refine (converted.filter _).trans (.of_eq ?_)
  rw [List.filterMap_append, List.filter_append]
  have none6 : (listed6.filterMap fun l => (fromLease zone l).toLease.toOption).filter
      (·.ip.is4) = [] := by
    refine List.filter_eq_nil_iff.mpr ?_
    intro l member is4
    obtain ⟨m, origin, read⟩ := List.mem_filterMap.mp member
    have is6 := is6 m origin
    rw [toLease_ip read] at is4
    change m.ip.is4 = true at is4
    cases ip : m.ip <;> simp [ip, Addr.is4, Addr.is6] at is4 is6
  rw [none6, List.append_nil]
  clear converted none6 written
  induction listed with
  | nil => rfl
  | cons l rest ih =>
    have read := toLease_fromLease (macs l (by simp)) (zones l.expiry)
    have later := ih (fun m member => is4 m (by simp [member]))
      (fun m member => macs m (by simp [member]))
    by_cases readable : Readable zone l
    · rw [if_pos readable] at read
      have first : (reread l).ip.is4 = true := is4 l (by simp)
      simp only [List.filterMap_cons, read]
      rw [List.filter_cons, if_pos first, later,
        List.filter_cons_of_pos (by simpa using readable), List.map_cons]
    · rw [if_neg readable] at read
      simp only [List.filterMap_cons, read]
      rw [later, List.filter_cons_of_neg (by simpa using readable)]

/-- The kept leases are all that were stored exactly when the stored ones are restorable. -/
theorem keepNamed_perm_iff {loaded : List Lease}
    (perm : loaded.Perm ((listed.filter fun l => Readable zone l).map reread)) :
    ((keepNamed (V4Server.reloadName nu) [] loaded).map stored).Perm (listed.map stored) ↔
      Restorable nu zone listed := by
  have symmetric : ∀ {a b : Lease},
      (V4Server.reloadName nu a ≠ "" → V4Server.reloadName nu a ≠ V4Server.reloadName nu b) →
      V4Server.reloadName nu b ≠ "" → V4Server.reloadName nu b ≠ V4Server.reloadName nu a :=
    fun apart named same => apart (same ▸ named) same.symm
  have kept : (keepNamed (V4Server.reloadName nu) [] loaded).Sublist loaded :=
    keepNamed_sublist [] loaded
  constructor
  · intro same
    have length := same.length_eq
    have filtered := perm.length_eq
    have fewer := List.length_filter_le (fun l => decide (Readable zone l)) listed
    have short := kept.length_le
    simp only [List.length_map] at length filtered
    have readable : ∀ l ∈ listed, Readable zone l := by
      intro l member
      have all := List.length_filter_eq_length_iff.mp
        (show (listed.filter fun l => decide (Readable zone l)).length = listed.length by omega)
      exact of_decide_eq_true (all l member)
    have everything := kept.eq_of_length (by omega)
    have apart := (keepNamed_eq_self_iff.mp everything).2
    rw [perm.pairwise_iff symmetric, List.pairwise_map,
      List.filter_eq_self.mpr (by simpa using readable)] at apart
    exact ⟨readable, apart⟩
  · rintro ⟨readable, apart⟩
    rw [List.filter_eq_self.mpr (by simpa using readable)] at perm
    have everything : keepNamed (V4Server.reloadName nu) [] loaded = loaded := by
      refine keepNamed_eq_self_iff.mpr ⟨by simp, ?_⟩
      rw [perm.pairwise_iff symmetric, List.pairwise_map]
      exact apart
    rw [everything]
    refine (perm.map stored).trans (.of_eq ?_)
    rw [List.map_map]
    exact List.map_congr_left fun l _ => stored_reread l

/-- The kept leases have different addresses if the stored ones had. -/
theorem keepNamed_nodup {name : Lease → String} {loaded : List Lease}
    (perm : loaded.Perm ((listed.filter fun l => Readable zone l).map reread))
    (unique : (listed.map (·.ip)).Nodup) :
    ((keepNamed name [] loaded).map stored).Nodup := by
  have all : (loaded.map (·.ip)).Nodup := by
    rw [(perm.map (·.ip)).nodup_iff, List.map_map]
    exact (List.filter_sublist.map _).nodup unique
  have some : ((keepNamed name [] loaded).map (·.ip)).Nodup :=
    ((keepNamed_sublist [] loaded).map _).nodup all
  refine List.Nodup.of_map (fun k : Addr × HardwareAddr × Bool × Option Int => k.1) ?_
  rw [List.map_map]
  exact some

end Reload

section RoundTrip

open V4Server (v4Create)

variable {nu : Netutil} {zone : Time → Int} {s4 : V4Server} {s6 : V6Server} {file : List DbLease}

/-- A server without a configuration has no leases. -/
theorem V4Server.StoreInv.unconfigured {s : V4Server} (inv : V4Server.StoreInv none s)
    (wf : V4Server.Wf s) : s.getLeasesRef = [] := by
  have empty : s.leases.elems = [] := by
    refine List.eq_nil_iff_forall_not_mem.mpr ?_
    intro p member
    cases isStatic : (s.heap p).isStatic with
    | true =>
      have inside := inv.inSubnet p member isStatic
      simp [V4Server.subnet, inv.conf, Prefix.contains, Prefix.zero] at inside
    | false =>
      have inside := wf.ranged p member isStatic
      simp [V4Server.offset, inv.conf] at inside
  rw [V4Server.getLeasesRef, empty, List.map_nil]

/-- Loading a stored database into fresh servers of the same configuration succeeds. The
DHCPv4 leases that come back are those that were stored exactly when these are restorable,
and when the stored leases have different addresses it makes no difference whether leases or
only the set of them is compared. -/
theorem dbLoad_dbStore (conf4 : V4ServerConf) (conf6 : V6ServerConf)
    (macs : ∀ mac, nu.validateMAC mac = none → mac.length ∈ [6, 8, 20])
    (zones : ∀ t, (zone t).natAbs < 1440)
    (run4 : Reaches (V4Server.step nu) (V4Server.StoreOp nu) (v4Create conf4).1 s4)
    (run6 : Reaches (V6Server.step nu) V6Server.StoreOp (V6Server.v6Create conf6).1 s6)
    (written : DbStore zone s4 s6 file) :
    ∃ s4' s6', dbLoad nu (v4Create conf4).1 (V6Server.v6Create conf6).1 file = some (s4', s6') ∧
      ((s4'.getLeasesRef.map stored).Perm (s4.getLeasesRef.map stored) ↔
        Restorable nu zone s4.getLeasesRef) ∧
      ((s4.getLeasesRef.map (·.ip)).Nodup →
        ((∀ k, k ∈ s4'.getLeasesRef.map stored ↔ k ∈ s4.getLeasesRef.map stored) ↔
          Restorable nu zone s4.getLeasesRef)) := by
  obtain ⟨inv, wf⟩ := V4Server.StoreInv.reachable macs run4
  have all6 := V6Server.AllV6.reachable run6
  have is4 : ∀ l ∈ s4.getLeasesRef, l.ip.is4 = true := List.forall_mem_map.mpr inv.is4
  have perm := convertLeases_perm written zones is4 all6 (List.forall_mem_map.mpr inv.macs)
  -- the addresses of the other leases in the file come from the DHCPv6 server
  have is6 : ∀ l ∈ (convertLeases file).filter (! ·.ip.is4), l.ip.is6 = true := by
    intro l member
    obtain ⟨converted, not4⟩ := List.mem_filter.mp member
    obtain ⟨m, origin, ip⟩ := mem_convertLeases written converted
    rcases List.mem_append.mp origin with m4 | m6
    · rw [ip, is4 m m4] at not4
      cases not4
    · rw [ip]
      exact all6 m m6
  obtain ⟨s6', loaded6, -⟩ := V6Server.AllV6.readdLeases
    (s := { (V6Server.v6Create conf6).1 with leases := [] }) (by intro l member; cases member) is6
  suffices main : ∃ s4', (v4Create conf4).1.resetLeases nu
      ((convertLeases file).filter (·.ip.is4)) = some s4' ∧
      s4'.getLeasesRef.map stored = (keepNamed (V4Server.reloadName nu) []
        ((convertLeases file).filter (·.ip.is4))).map stored by
    obtain ⟨s4', loaded4, kept⟩ := main
    refine ⟨s4', s6', ?_, ?_, ?_⟩
    · simp only [dbLoad, loaded4, V6Server.resetLeases, loaded6, Option.bind_eq_bind,
        Option.bind_some]
      rfl
    · rw [kept]
      exact keepNamed_perm_iff perm
    · intro unique
      have nodup : (s4.getLeasesRef.map stored).Nodup := by
        refine List.Nodup.of_map (fun k : Addr × HardwareAddr × Bool × Option Int => k.1) ?_
        rw [List.map_map]
        exact unique
      rw [kept, ← keepNamed_perm_iff perm,
        List.perm_ext_iff_of_nodup (keepNamed_nodup perm unique) nodup]
  cases conf : (v4Create conf4).1.conf with
  | none =>
    rw [conf] at inv
    rw [inv.unconfigured wf] at perm
    refine ⟨(v4Create conf4).1, by rw [V4Server.resetLeases, conf]; rfl, ?_⟩
    rw [List.perm_nil.mp perm, V4Server.getLeasesRef, V4Server.v4Create_elems]
    rfl
  | some c =>
    have same : (v4Create conf4).1.cleared.conf = s4.conf := inv.conf.symm
    have origin : ∀ l ∈ (convertLeases file).filter (·.ip.is4), ∃ p ∈ s4.leases.elems,
        l.ip = (s4.heap p).ip ∧ l.isStatic = (s4.heap p).isStatic := by
      intro l member
      obtain ⟨m, readable, rfl⟩ := List.mem_map.mp (perm.mem_iff.mp member)
      obtain ⟨p, listed, rfl⟩ := List.mem_map.mp (List.mem_filter.mp readable).1
      exact ⟨p, listed, rfl, rfl⟩
    have all4 : ∀ l ∈ (convertLeases file).filter (·.ip.is4), l.ip.is4 = true :=
      fun l member => (List.mem_filter.mp member).2
    have noHosts : ∀ n, n ≠ "" →
        (((v4Create conf4).1.cleared.hostsIndex n).isSome = true ↔ n ∈ ([] : List String)) := by
      intro n _
      simp [V4Server.cleared]
    obtain ⟨s4', loaded4, listed⟩ := V4Server.readdLeases_eq
      (s := (v4Create conf4).1.cleared) (by intro p member; cases member) all4 (by
        intro l member isStatic
        obtain ⟨p, listed, ip, static⟩ := origin l member
        rw [V4Server.subnet_congr same, ip]
        exact inv.inSubnet p listed (static ▸ isStatic)) (by
        intro l member isDynamic
        obtain ⟨p, listed, ip, static⟩ := origin l member
        rw [V4Server.offset_congr same, ip]
        exact wf.ranged p listed (static ▸ isDynamic))
      noHosts
    refine ⟨s4', by rw [V4Server.resetLeases, conf]; exact loaded4, ?_⟩
    rw [listed, List.map_append, List.map_map]
    rfl

open V4Server (smallConf clientMAC hostAddr quiet) in
/-- The leases after a static lease has been added and a client has been offered one. -/
def printerAndClient : List Lease :=
  [{ ip := hostAddr 50, hostname := "printer", hwAddr := clientMAC 2, isStatic := true },
   { ip := hostAddr 101, hwAddr := clientMAC 1 }]

theorem ascii_validateMAC {mac : HardwareAddr} (valid : Netutil.ascii.validateMAC mac = none) :
    mac.length ∈ [6, 8, 20] := by
  simp only [Netutil.ascii] at valid
  split at valid
  · assumption
  · cases valid

open V4Server (smallConf clientMAC hostAddr quiet) in
theorem dbLoad_dbStore_two : ∃ s4 s4' s6',
    Reaches (V4Server.step .ascii) (V4Server.StoreOp .ascii) (v4Create smallConf).1 s4 ∧
    s4.getLeasesRef = printerAndClient ∧
    DbStore (fun _ => 120) s4 (V6Server.v6Create {}).1
      (printerAndClient.reverse.map (fromLease fun _ => 120)) ∧
    dbLoad .ascii (v4Create smallConf).1 (V6Server.v6Create {}).1
      (printerAndClient.reverse.map (fromLease fun _ => 120)) = some (s4', s6') ∧
    (s4'.getLeasesRef.map stored).Perm (s4.getLeasesRef.map stored) := by
  obtain ⟨s4, done, listed⟩ := exec_refutes (V4Server.step .ascii) (v4Create smallConf).1
    [.addStaticLease { ip := hostAddr 50, hostname := "printer", hwAddr := clientMAC 2 },
     .packet { messageType := .discover, clientHWAddr := clientMAC 1 } (quiet 10)]
    (·.getLeasesRef ≠ printerAndClient) (by decide +kernel)
  have listed := not_not.mp listed
  have run : Reaches (V4Server.step .ascii) (V4Server.StoreOp .ascii) (v4Create smallConf).1 s4 :=
    reaches_of_exec (by simp [V4Server.StoreOp]) done
  have written : DbStore (fun _ => 120) s4 (V6Server.v6Create {}).1
      (printerAndClient.reverse.map (fromLease fun _ => 120)) := by
    rw [DbStore, listed]
    exact ⟨by decide +kernel, by decide +kernel⟩
  obtain ⟨s4', s6', loaded, same, -⟩ := dbLoad_dbStore smallConf {}
    (fun _ valid => ascii_validateMAC valid) (by simp) run .refl written
  refine ⟨s4, s4', s6', run, listed, written, loaded, same.mpr ?_⟩
  rw [listed]
  exact ⟨by decide +kernel, by decide +kernel⟩

open V4Server (smallConf clientMAC hostAddr quiet) in
/-- A static lease is lost whose hostname is the one generated for the address of a lease
that has none. -/
theorem dbLoad_loses_lease : ¬∀ (nu : Netutil) (conf4 : V4ServerConf) (conf6 : V6ServerConf)
    (zone : Time → Int) (s4 : V4Server) (s6 : V6Server) (file : List DbLease),
    (∀ mac, nu.validateMAC mac = none → mac.length ∈ [6, 8, 20]) →
    (∀ t, (zone t).natAbs < 1440) →
    Reaches (V4Server.step nu) (V4Server.StoreOp nu) (v4Create conf4).1 s4 →
    Reaches (V6Server.step nu) V6Server.StoreOp (V6Server.v6Create conf6).1 s6 →
    DbStore zone s4 s6 file →
    ∃ s4' s6', dbLoad nu (v4Create conf4).1 (V6Server.v6Create conf6).1 file = some (s4', s6') ∧
      ∀ k, k ∈ s4'.getLeasesRef.map stored ↔ k ∈ s4.getLeasesRef.map stored := by
  intro always
  let leases : List Lease :=
    [{ ip := hostAddr 100, hwAddr := clientMAC 1 },
     { ip := hostAddr 50, hostname := "192-168-10-100", hwAddr := clientMAC 2, isStatic := true }]
  obtain ⟨s4, done, listed⟩ := exec_refutes (V4Server.step .ascii) (v4Create smallConf).1
    [.packet { messageType := .discover, clientHWAddr := clientMAC 1 } (quiet 10),
     .addStaticLease { ip := hostAddr 50, hostname := "192-168-10-100", hwAddr := clientMAC 2 }]
    (·.getLeasesRef ≠ leases) (by decide +kernel)
  have listed := not_not.mp listed
  obtain ⟨s4', s6', loaded, same⟩ := always .ascii smallConf {} (fun _ => 0) s4
    (V6Server.v6Create {}).1 (leases.map (fromLease fun _ => 0))
    (fun _ valid => ascii_validateMAC valid) (by simp)
    (reaches_of_exec (by simp [V4Server.StoreOp]) done) .refl (by
      rw [DbStore, listed]
      exact ⟨by decide +kernel, by decide +kernel⟩)
  have lost : ((dbLoad .ascii (v4Create smallConf).1 (V6Server.v6Create {}).1
      (leases.map (fromLease fun _ => 0))).map fun out => out.1.getLeasesRef.map stored) =
      some [(hostAddr 100, clientMAC 1, false, some 0)] := by decide +kernel
  rw [loaded, Option.map_some, Option.some.injEq] at lost
  have kept := (same (hostAddr 50, clientMAC 2, true, none)).mpr (by
    rw [listed]
    decide +kernel)
  rw [lost] at kept
  revert kept
  decide +kernel

end RoundTrip

end FirewallCore.Dhcpd
