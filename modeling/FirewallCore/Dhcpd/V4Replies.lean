import FirewallCore.Lib.Run
import FirewallCore.Dhcpd.V4HandlerSpec

/-!
What the DHCPv4 server answers to a DHCPREQUEST and to a DHCPDECLINE.

The state of the client is read off the message: SELECTING if there is a server
identifier, INIT-REBOOT if there is only a requested address, and RENEWING otherwise.
An unspecified address counts as absent. Addresses are compared as `netip.Addr`
values, so that the 16-byte form of an IPv4 address is not the address of any lease.
-/

namespace FirewallCore.Dhcpd

open FirewallCore.Net FirewallCore.Lib

/-- The client seeks to verify a cached address. -/
def Msg.isInitReboot (req : Msg) : Bool :=
  !isPresent req.serverIdentifier && isPresent req.requestedIP

namespace V4Server

variable {nu : Netutil} {s : V4Server} {p : Ptr} {req : Msg} {env : Readings} {h : Handled}
  {mac : HardwareAddr} {ip : IP} {self : Addr}

/-! ### DHCPREQUEST -/

/-- No two leases have one hardware address. -/
def UniqueMACs (s : V4Server) : Prop :=
  ∀ p ∈ s.leases.elems, ∀ q ∈ s.leases.elems, (s.heap p).hwAddr = (s.heap q).hwAddr → p = q

/-- The checks of the client's state: for SELECTING that the server identifier is ours
and `ciaddr` is zero, for INIT-REBOOT that `ciaddr` is zero and the address is in the
subnet, for RENEWING that `ciaddr` is set; the named address is an IPv4 address. -/
def checksPass (s : V4Server) (req : Msg) (self : Addr) : Bool :=
  if isPresent req.serverIdentifier then
    req.serverIdentifier.equal self.asSlice && !ciaddrSet req && req.namedIP.to4.isSome
  else if isPresent req.requestedIP then
    !ciaddrSet req && req.namedIP.to4.any fun ip4 => s.subnet.contains (.v4 ip4)
  else ciaddrSet req && req.namedIP.to4.isSome

/-- The one case in which a client is told that its address is wrong whatever leases
there are: INIT-REBOOT with an address outside of the subnet. -/
def wrongSubnet (s : V4Server) (req : Msg) : Bool :=
  req.isInitReboot && !ciaddrSet req &&
    req.namedIP.to4.any fun ip4 => !s.subnet.contains (.v4 ip4)

/-- With unique hardware addresses the first entry of the client is the only one. -/
theorem checkLease_matching (unique : UniqueMACs s) (found : Matching s mac ip p) :
    s.checkLease mac ip = (some p, false) := by
  obtain ⟨listed, hwAddr, address⟩ := found
  have first : s.leases.elems.find? (fun q => (s.heap q).hwAddr == mac) = some p := by
    cases lookup : s.leases.elems.find? fun q => (s.heap q).hwAddr == mac with
    | none =>
      have absent := List.find?_eq_none.mp lookup p listed
      simp [hwAddr] at absent
    | some q =>
      have same : (s.heap q).hwAddr = (s.heap p).hwAddr := by
        rw [hwAddr]
        simpa using List.find?_some lookup
      rw [unique q (List.mem_of_find?_eq_some lookup) p listed same]
  simp only [checkLease, address, first, if_true]

section Matching

variable (unique : UniqueMACs s)
include unique

theorem handleSelecting_matching {sid : IP} (found : Matching s req.clientHWAddr ip p) :
    s.handleSelecting req ip sid self =
      if sid.equal self.asSlice && !ciaddrSet req && ip.to4.isSome then (some p, true)
      else (none, false) := by
  simp only [handleSelecting, checkLease_matching unique found]
  cases sid.equal self.asSlice <;> cases ciaddrSet req <;> cases ip.to4 <;> rfl

theorem handleInitReboot_matching (found : Matching s req.clientHWAddr ip p) :
    s.handleInitReboot req ip =
      if !ciaddrSet req && ip.to4.any (fun ip4 => s.subnet.contains (.v4 ip4)) then (some p, true)
      else (none, !ciaddrSet req && ip.to4.any fun ip4 => !s.subnet.contains (.v4 ip4)) := by
  simp only [handleInitReboot, checkLease_matching unique found]
  cases ip.to4 with
  | none => simp
  | some ip4 => cases ciaddrSet req <;> cases inside : s.subnet.contains (.v4 ip4) <;> simp [inside]

theorem handleRenew_matching (found : Matching s req.clientHWAddr req.clientIPAddr p) :
    s.handleRenew req =
      if ciaddrSet req && req.clientIPAddr.to4.isSome then (some p, true) else (none, false) := by
  simp only [handleRenew, checkLease_matching unique found]
  cases ciaddrSet req <;> cases req.clientIPAddr.to4 <;> rfl

/-- What the handlers of the three states make of a lease that matches. -/
theorem handleByRequestType_matching (self : Addr)
    (found : Matching s req.clientHWAddr req.namedIP p) :
    s.handleByRequestType req self =
      if s.checksPass req self then (some p, true) else (none, s.wrongSubnet req) := by
  rw [handleByRequestType_eq]
  unfold checksPass wrongSubnet Msg.isInitReboot
  unfold Msg.namedIP at found ⊢
  cases sid : isPresent req.serverIdentifier with
  | true =>
    simp only [sid, Bool.true_or, if_true] at found ⊢
    rw [handleSelecting_matching unique found]
    rfl
  | false =>
    cases requested : isPresent req.requestedIP with
    | true =>
      simp only [sid, requested, Bool.or_true, if_true] at found ⊢
      rw [handleInitReboot_matching unique found]
      rfl
    | false =>
      simp only [sid, requested, Bool.or_false, Bool.false_eq_true, if_false] at found ⊢
      rw [handleRenew_matching unique found]
      rfl

end Matching

theorem checksPass_of_wrongSubnet (wrong : s.wrongSubnet req = true) :
    s.checksPass req self = false := by
  unfold wrongSubnet Msg.isInitReboot at wrong
  simp only [Bool.and_eq_true, Bool.not_eq_true'] at wrong
  obtain ⟨⟨⟨noSid, requested⟩, ciaddr⟩, outside⟩ := wrong
  unfold checksPass
  rw [noSid, requested, ciaddr, if_neg Bool.false_ne_true, if_pos rfl]
  cases named : req.namedIP.to4 with
  | none => rfl
  | some ip4 =>
    rw [named] at outside
    simpa using outside

theorem generateHostname_isSome {a : Addr} (valid : a.isValid = true) :
    ∃ name, generateHostname a = some name := by
  unfold generateHostname
  split
  · rename_i unmapped
    cases a with
    | zero => cases valid
    | v4 n => cases unmapped
    | v6 n zone =>
      simp only [Addr.unmap] at unmapped
      split at unmapped
      · cases unmapped
      · cases unmapped
  · exact ⟨_, rfl⟩
  · exact ⟨_, rfl⟩

theorem commitHostname_isSome (nu : Netutil) (s : V4Server) {l : Lease} (valid : l.ip.isValid = true) (hostname : String) :
    ∃ name, commitHostname nu s l hostname = some name := by
  obtain ⟨generated, found⟩ := generateHostname_isSome valid
  have client : ∃ name, validHostnameForClient nu hostname l.ip = some name := by
    unfold validHostnameForClient
    rw [found]
    simp only [Option.bind_eq_bind, Option.bind_some, Option.pure_def]
    exact ⟨_, (apply_ite some ..).symm⟩
  obtain ⟨name, normalized⟩ := client
  unfold commitHostname
  simp only [normalized, Option.bind_eq_bind, Option.bind_some]
  split
  · split
    · exact ⟨_, found⟩
    · exact ⟨_, rfl⟩
  · exact ⟨_, rfl⟩

/-- A lease in a valid address is acknowledged with this address. -/
theorem finishRequest_acks (nu : Netutil) (req : Msg) (valid : (s.heap p).ip.isValid = true) (now : Time) :
    ∃ h, s.finishRequest nu req p now = some h ∧ h.rCode = 1 ∧
      h.resp.messageType = some .ack ∧ h.resp.yourIPAddr = (s.heap p).ip.asSlice := by
  unfold finishRequest
  dsimp only
  split
  · exact ⟨_, rfl, rfl, rfl, rfl⟩
  · obtain ⟨name, settled⟩ := commitHostname_isSome nu s valid req.hostName
    simp only [commitLease, settled, Option.map_some, Option.bind_eq_bind, Option.bind_some]
    exact ⟨_, rfl, rfl, rfl, by rw [commit_ip]⟩

theorem asSlice_of_addrFromSlice {a : Addr} (named : addrFromSlice ip = some a) :
    a.isValid = true ∧ a.asSlice = ip := by
  cases ip with
  | nil => cases named
  | four n =>
    cases named
    exact ⟨rfl, rfl⟩
  | sixteen n =>
    cases named
    exact ⟨rfl, rfl⟩
  | other bytes => cases named

/-- The answer to a DHCPREQUEST: an ACK exactly for a lease in the address the client
names if the checks of its state pass, with this address; and a client whose lease
matches gets a NAK only in INIT-REBOOT with an address outside of the subnet. -/
theorem handle_request_decides (nu : Netutil) (env : Readings) {s : V4Server} {req : Msg}
    {self : Addr} (unique : UniqueMACs s) (address : s.serverIP = some self)
    (isRequest : req.messageType = .request) :
    ∃ h, s.handle nu req env = some h ∧
      ((h.rCode = 1 ∧ h.resp.messageType = some .ack) ↔
        (∃ p, Matching s req.clientHWAddr req.namedIP p) ∧ s.checksPass req self = true) ∧
      (h.rCode = 1 → h.resp.yourIPAddr = req.namedIP) ∧
      ((∃ p, Matching s req.clientHWAddr req.namedIP p) →
        (h.rCode = 0 ↔ s.wrongSubnet req = true)) := by
  have dispatch : s.handle nu req env = s.handleRequest nu req self env := by
    simp [handle, address, isRequest]
  rw [dispatch]
  by_cases matched : ∃ p, Matching s req.clientHWAddr req.namedIP p
  · obtain ⟨p, found⟩ := matched
    have decided := handleByRequestType_matching unique self found
    cases passes : s.checksPass req self with
    | true =>
      rw [passes, if_pos rfl] at decided
      obtain ⟨valid, sameIP⟩ := asSlice_of_addrFromSlice found.address
      obtain ⟨h, done, code, ack, yiaddr⟩ := finishRequest_acks nu req valid env.now
      refine ⟨h, by simp [handleRequest, decided, done], ?_, ?_, ?_⟩
      · exact ⟨fun _ => ⟨⟨p, found⟩, rfl⟩, fun _ => ⟨code, ack⟩⟩
      · exact fun _ => by rw [yiaddr, sameIP]
      · have right : s.wrongSubnet req = false := by
          by_contra wrong
          rw [checksPass_of_wrongSubnet (by simpa using wrong)] at passes
          cases passes
        simp [code, right]
    | false =>
      rw [passes, if_neg Bool.false_ne_true] at decided
      cases wrong : s.wrongSubnet req with
      | true =>
        rw [wrong] at decided
        refine ⟨⟨s, 0, {}, []⟩, by simp [handleRequest, decided], ?_, ?_, ?_⟩
        · simp
        · simp
        · simp
      | false =>
        rw [wrong] at decided
        refine ⟨⟨s, -1, {}, []⟩, by simp [handleRequest, decided], ?_, ?_, ?_⟩
        · simp
        · simp
        · simp
  · rcases decided : s.handleByRequestType req self with ⟨found, needsReply⟩
    cases found with
    | some p => exact absurd ⟨p, handleByRequestType_some decided⟩ matched
    | none =>
      cases needsReply with
      | true => exact ⟨⟨s, 0, {}, []⟩, by simp [handleRequest, decided], by simp [matched]⟩
      | false => exact ⟨⟨s, -1, {}, []⟩, by simp [handleRequest, decided], by simp [matched]⟩

/-- A server whose only lease is a static one of the first client. -/
def oneLease (ip : Addr) : V4Server :=
  { (v4Create smallConf).1 with
    heap := fun _ => { ip := ip, hwAddr := clientMAC 1, isStatic := true }
    next := 1
    leases := ⟨[0], []⟩ }

theorem oneLease_uniqueMACs (ip : Addr) : UniqueMACs (oneLease ip) := by
  intro p listed q listed' _
  rw [List.mem_singleton.mp listed, List.mem_singleton.mp listed']

/-- The client verifies `192.168.10.100` after a restart. -/
def rebooting : Msg :=
  { messageType := .request, clientHWAddr := clientMAC 1, requestedIP := .four 0xC0A80A64 }

theorem rebooting_acked : ∃ h, (oneLease (hostAddr 100)).handle .ascii rebooting {} = some h ∧
    h.rCode = 1 ∧ h.resp.yourIPAddr = .four 0xC0A80A64 := by
  obtain ⟨h, done, acked, yiaddr, -⟩ :=
    handle_request_decides .ascii {} (oneLease_uniqueMACs (hostAddr 100))
      (show (oneLease (hostAddr 100)).serverIP = some (hostAddr 2) by decide +kernel)
      (show rebooting.messageType = .request from rfl)
  have code := (acked.mpr ⟨⟨0, List.mem_singleton.mpr rfl, rfl, rfl⟩, by decide +kernel⟩).1
  exact ⟨h, done, code, yiaddr code⟩

/-- A client that verifies the very address of its lease gets a NAK if this address is
not in the subnet. -/
theorem matching_lease_refused : ¬∀ (nu : Netutil) (s : V4Server) (req : Msg) (env : Readings)
    (h : Handled), UniqueMACs s → req.messageType = .request → s.handle nu req env = some h →
      (∃ p, Matching s req.clientHWAddr req.namedIP p) → h.rCode ≠ 0 := by
  intro never
  have outside : ((oneLease (.v4 0x0A000001)).handle .ascii
      { rebooting with requestedIP := .four 0x0A000001 } {}).any (·.rCode == 0) = true := by
    decide +kernel
  obtain ⟨h, done, nak⟩ := (Option.any_eq_true _ _).mp outside
  exact never .ascii (oneLease (.v4 0x0A000001)) _ {} h (oneLease_uniqueMACs _) rfl done
    ⟨0, List.mem_singleton.mpr rfl, rfl, rfl⟩ (by simpa using nak)

/-! ### DHCPDECLINE -/

/-- What a decline of `ip` that is answered with the address `yiaddr` should come to: it
is another address, one entry records it, under the hardware address of the client, and
the declined address is not free. -/
structure Replaced (s : V4Server) (mac : HardwareAddr) (ip : Addr) (yiaddr : IP) : Prop where
  different : yiaddr ≠ ip.asSlice
  recorded : ∃ p, s.leases.elems.filter (fun q => (s.heap q).ip.asSlice = yiaddr) = [p] ∧
    (s.heap p).hwAddr = mac
  taken : ∀ o, s.offset ip = (o, true) → s.leasedOffsets.isSet o = true

/-- An allocated lease is an entry of the table. -/
theorem mem_of_allocateLease {a : Allocation} {rounds : List Round}
    (done : allocateLease mac s [] rounds = some a) (lease : a.lease = .ok (some p)) :
    p ∈ a.server.leases.elems := by
  obtain ⟨k, r, t, -, -, last, -⟩ :=
    allocateLease_last (I := fun _ _ _ => True) (fun _ _ _ _ _ _ _ _ _ _ => trivial) done trivial
  rw [lease] at last
  rcases reserveLease_cases last with ⟨-, -, none⟩ | ⟨-, i, q, -, entry, -, -, same, found⟩ |
    ⟨n, o, -, -, same, found⟩
  · cases none
  · cases found
    rw [same]
    exact List.mem_of_getElem? entry
  · cases found
    rw [same]
    simp [reserveFresh]

/-- An answered decline records the new lease a second time: `allocateLease` has entered
it already. -/
theorem handleDecline_twice (done : s.handleDecline req env = some h)
    (answered : h.resp.yourIPAddr ≠ .nil) (nonzero : h.resp.yourIPAddr ≠ .four 0) :
    ∃ p before, h.server.leases.elems = before ++ [p] ∧ p ∈ before ∧
      h.resp.yourIPAddr = (h.server.heap p).ip.asSlice := by
  rcases handleDecline_inv done with unmoved | ⟨old, s₁, err, -, -, rest⟩
  · exact absurd unmoved.yourIPAddr answered
  rcases rest with unmoved | ⟨-, a, allocated, -, ⟨-, -, none | zero⟩ | ⟨p, lease, rest⟩⟩
  · exact absurd unmoved.yourIPAddr answered
  · exact absurd none answered
  · exact absurd zero nonzero
  rcases rest with ⟨-, -, none⟩ | ⟨added, yiaddr⟩
  · exact absurd none answered
  obtain ⟨same, -, -, -⟩ := addLease_ok added
  exact ⟨p, a.server.leases.elems, by rw [same]; rfl, mem_of_allocateLease allocated lease, yiaddr⟩

/-- No decline that is answered with an address comes to what it should. -/
theorem handleDecline_never_replaced {s : V4Server} {req : Msg} {env : Readings} {h : Handled}
    (done : s.handleDecline req env = some h) (answered : h.resp.yourIPAddr ≠ .nil)
    (nonzero : h.resp.yourIPAddr.isUnspecified = false) (ip : Addr) :
    ¬Replaced h.server req.clientHWAddr ip h.resp.yourIPAddr := by
  have nonzero : h.resp.yourIPAddr ≠ .four 0 := by
    intro zero
    rw [zero] at nonzero
    cases nonzero
  obtain ⟨p, before, parts, listed, yiaddr⟩ := handleDecline_twice done answered nonzero
  intro replaced
  obtain ⟨q, once, -⟩ := replaced.recorded
  have length := congrArg List.length once
  rw [parts, List.filter_append, List.length_append, yiaddr] at length
  have first : 0 < (before.filter fun q =>
      (h.server.heap q).ip.asSlice = (h.server.heap p).ip.asSlice).length :=
    List.length_pos_of_mem (List.mem_filter.mpr ⟨listed, by simp⟩)
  simp only [decide_true, List.filter_cons_of_pos, List.filter_nil, List.length_singleton]
    at length
  omega

/-- The first client asks for an address and declines it. -/
def declining : Msg :=
  { messageType := .decline, clientHWAddr := clientMAC 1, requestedIP := .four 0xC0A80A64 }

/-- On the small network the declined address is given out again at once. -/
theorem exists_declined : ∃ (s : V4Server) (h : Handled) (old : Ptr),
    s.findLeaseForIP declining.targetIP (clientMAC 1) = some old ∧
    (s.heap old).isStatic = false ∧ (s.heap old).ip = hostAddr 100 ∧
    s.handleDecline declining (quiet 5) = some h ∧ h.resp.yourIPAddr = .four 0xC0A80A64 := by
  obtain ⟨s, answer, taken, ends⟩ := exists_step (V4Server.step .ascii) (v4Create smallConf).1
    (.handle { messageType := .discover, clientHWAddr := clientMAC 1 } (quiet 5))
    (fun s => (s.findLeaseForIP declining.targetIP (clientMAC 1)).any (fun old =>
        !(s.heap old).isStatic && (s.heap old).ip == hostAddr 100) = true ∧
      (s.handleDecline declining (quiet 5)).any (·.resp.yourIPAddr == .four 0xC0A80A64) = true)
    (by decide +kernel)
  obtain ⟨old, found, lease⟩ := (Option.any_eq_true _ _).mp ends.1
  obtain ⟨h, done, yiaddr⟩ := (Option.any_eq_true _ _).mp ends.2
  simp only [Bool.and_eq_true, Bool.not_eq_true', beq_iff_eq] at lease yiaddr
  exact ⟨s, h, old, found, lease.1, lease.2, done, yiaddr⟩

theorem declining_not_replaced : ∃ (s : V4Server) (h : Handled),
    s.handleDecline declining (quiet 5) = some h ∧
    ¬Replaced h.server (clientMAC 1) (hostAddr 100) h.resp.yourIPAddr := by
  obtain ⟨s, h, old, -, -, -, done, yiaddr⟩ := exists_declined
  exact ⟨s, h, done, handleDecline_never_replaced done (by simp [yiaddr])
    (by rw [yiaddr]; decide) (hostAddr 100)⟩

theorem decline_same_address : ¬∀ (s : V4Server) (req : Msg) (env : Readings) (h : Handled)
    (old : Ptr), s.findLeaseForIP req.targetIP req.clientHWAddr = some old →
      (s.heap old).isStatic = false → s.handleDecline req env = some h →
      h.resp.yourIPAddr ≠ .nil → h.resp.yourIPAddr.isUnspecified = false →
      Replaced h.server req.clientHWAddr (s.heap old).ip h.resp.yourIPAddr := by
  intro replaced
  obtain ⟨s, h, old, found, isDynamic, ip, done, yiaddr⟩ := exists_declined
  refine (replaced s declining (quiet 5) h old found isDynamic done (by simp [yiaddr])
    (by rw [yiaddr]; decide)).different ?_
  rw [yiaddr, ip]
  rfl

/-! ### The addresses in the replies -/

/-- An entry of the table stands behind an address that is given to a client: one with the
client's hardware address, or with one of another length, into which `reserveLease` has
copied what fits; and a dynamic one lies in the range. -/
def Leased (s : V4Server) (mac : HardwareAddr) (ip : IP) : Prop :=
  ∃ p ∈ s.leases.elems, (s.heap p).ip.asSlice = ip ∧
    ((s.heap p).hwAddr = mac ∨ (s.heap p).hwAddr.length ≠ mac.length) ∧
    ((s.heap p).isStatic = false → (s.offset (s.heap p).ip).2 = true)

/-- An allocated lease has the hardware address it is allocated for, or one of another length. -/
theorem hwAddr_of_allocateLease {a : Allocation} {rounds : List Round}
    (done : allocateLease mac s [] rounds = some a) (lease : a.lease = .ok (some p)) :
    (a.server.heap p).hwAddr = mac ∨ (a.server.heap p).hwAddr.length ≠ mac.length := by
  obtain ⟨k, r, t, -, -, last, -⟩ :=
    allocateLease_last (I := fun _ _ _ => True) (fun _ _ _ _ _ _ _ _ _ _ => trivial) done trivial
  rw [lease] at last
  rcases reserveLease_cases last with ⟨-, -, none⟩ | ⟨-, i, q, -, -, -, -, same, found⟩ |
    ⟨n, o, -, -, same, found⟩
  · cases none
  · cases found
    rw [same, reserveExpired, heap_modify_self]
    by_cases length : (t.heap p).hwAddr.length = mac.length
    · left
      simp [goCopy, length]
    · right
      simp only [goCopy, List.length_append, List.length_take, List.length_drop]
      omega
  · cases found
    rw [same]
    simp [reserveFresh]

/-- In every run of a server, whatever is called, an address that a packet is answered with
is nil, `0.0.0.0` or leased to the client. -/
theorem replies_leased {conf : V4ServerConf}
    (run : Reaches (V4Server.step nu) (fun _ _ => True) (v4Create conf).1 s)
    (done : s.packetHandler nu req env = some h) :
    h.resp.yourIPAddr = .nil ∨ h.resp.yourIPAddr = .four 0 ∨
      Leased h.server req.clientHWAddr h.resp.yourIPAddr := by
  have wf : Wf s := run.invariant (v4Create_wf conf) fun _ _ _ _ wf _ taken => wf.step taken
  rcases packetHandler_inv done with unmoved | ⟨-, h', handled, server, -, yiaddr⟩
  · exact .inl unmoved.yourIPAddr
  have wf' := wf.handle handled
  rw [server, yiaddr]
  have leased : ∀ p, p ∈ h'.server.leases.elems →
      h'.resp.yourIPAddr = (h'.server.heap p).ip.asSlice →
      ((h'.server.heap p).hwAddr = req.clientHWAddr ∨
        (h'.server.heap p).hwAddr.length ≠ req.clientHWAddr.length) →
      Leased h'.server req.clientHWAddr h'.resp.yourIPAddr :=
    fun p listed ip mac => ⟨p, listed, ip.symm, mac, wf'.ranged p listed⟩
  rcases handle_inv handled with unmoved | ⟨-, done⟩ | ⟨-, self, -, done⟩ | ⟨-, done⟩ | ⟨-, done⟩
  · exact .inl unmoved.yourIPAddr
  · rcases handleDiscover_inv done with ⟨p, found, same, -, ip⟩ | ⟨-, a, allocated, same, -, none | ⟨p, lease, ip⟩⟩
    · obtain ⟨listed, mac⟩ := findLease_some found
      rw [← same] at listed mac ip
      exact .inr (.inr (leased p listed ip (.inl mac)))
    · exact .inl none
    · have listed := mem_of_allocateLease allocated lease
      have mac := hwAddr_of_allocateLease allocated lease
      rw [← same] at listed mac ip
      exact .inr (.inr (leased p listed ip mac))
  · rcases handleRequest_inv done with unmoved | ⟨p, _, -, listed, mac, finished⟩
    · exact .inl unmoved.yourIPAddr
    obtain ⟨-, ip, ⟨-, same⟩ | ⟨-, hostname, -, same⟩⟩ := finishRequest_inv finished
    · rw [← same] at listed mac ip
      exact .inr (.inr (leased p listed ip (.inl mac)))
    · refine .inr (.inr (leased p ?_ ?_ (.inl ?_)))
      · rwa [same]
      · rw [same, commit_ip, ip]
      · rw [same, commit_hwAddr, mac]
  · by_cases answered : h'.resp.yourIPAddr = .nil
    · exact .inl answered
    by_cases zero : h'.resp.yourIPAddr = .four 0
    · exact .inr (.inl zero)
    rcases handleDecline_inv done with unmoved | ⟨old, s₁, err, -, -, rest⟩
    · exact absurd unmoved.yourIPAddr answered
    rcases rest with unmoved | ⟨-, a, allocated, -, ⟨-, -, none⟩ | ⟨p, lease, ⟨-, -, none⟩ | ⟨added, ip⟩⟩⟩
    · exact absurd unmoved.yourIPAddr answered
    · rcases none with none | none
      · exact absurd none answered
      · exact absurd none zero
    · exact absurd none answered
    obtain ⟨same, -, -, -⟩ := addLease_ok added
    refine .inr (.inr (leased p ?_ ip ?_))
    · rw [same]
      exact List.mem_append_left _ (mem_of_allocateLease allocated lease)
    · rw [same]
      simpa [insertLease, takeOver] using hwAddr_of_allocateLease allocated lease
  · exact .inl (handleRelease_inv done).2.1

theorem replies_leased_offer : ∃ h : Handled,
    (v4Create smallConf).1.packetHandler .ascii
      { messageType := .discover, clientHWAddr := clientMAC 1 } (quiet 5) = some h ∧
    Leased h.server (clientMAC 1) h.resp.yourIPAddr := by
  obtain ⟨h, done, yiaddr⟩ := (Option.any_eq_true _ _).mp (show ((v4Create smallConf).1.packetHandler .ascii
      { messageType := .discover, clientHWAddr := clientMAC 1 } (quiet 5)).any
        (·.resp.yourIPAddr == .four 0xC0A80A64) = true by decide +kernel)
  rw [beq_iff_eq] at yiaddr
  rcases replies_leased .refl done with none | zero | leased
  · simp [yiaddr] at none
  · simp [yiaddr] at zero
  · exact ⟨h, done, leased⟩

end V4Server

end FirewallCore.Dhcpd
