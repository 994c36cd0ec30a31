import FirewallCore.Lib.Run
import FirewallCore.Lib.Slice
import FirewallCore.Dhcpd.Config

/-!
The DHCPv6 server (`v6_unix.go`): its lease table, the administrator's calls and
the processing of messages.

The table is a slice of leases and the map `ipAddrs` of the last bytes that are
in use. Nothing else refers to a lease of the table, so the table is a list of
values; the writes through a found lease are writes at its index. A call that
panics is `none`. The options of a reply other than the leased address and its
lifetime are left out, and so are the checks of the identifiers that
`packetHandler` makes before it calls `process`.
-/

namespace FirewallCore.Dhcpd

open FirewallCore.Net FirewallCore.Lib

/-- `V6ServerConf`. -/
structure V6ServerConf where
  enabled : Bool := true
  rangeStart : IP := .nil
  leaseDuration : BitVec 32 := 0
  ipStart : IP := .nil
  leaseTime : Duration := 0
  deriving DecidableEq, Repr

/-- The errors of the DHCPv6 server. -/
inductive V6Err where
  /-- "invalid IP" -/
  | invalidIP
  /-- "validating lease: %w" -/
  | badMAC (text : String)
  /-- "static lease already exists" -/
  | staticLeaseExists
  /-- "can't find lease %s" -/
  | noLeaseForMAC (mac : HardwareAddr)
  /-- "lease not found" -/
  | leaseNotFound
  /-- "dhcpv6: invalid range-start IP: %s" -/
  | invalidRangeStart (ip : IP)
  /-- The text of an `errors.Annotate` or `fmt.Errorf` around another error. -/
  | wrapped (text : String) (err : V6Err)
  deriving DecidableEq, Repr

/-- `v6Server`. -/
structure V6Server where
  conf : V6ServerConf
  leases : List Lease
  ipAddrs : UInt8 → UInt8

namespace V6Server

/-! ### The table -/

/-- The last byte of `IP.As16()`. -/
def lastByte (ip : Addr) : UInt8 := UInt8.ofNat ip.as16

/-- `ip6InRange`; `none` is the panic of `ip[:15]` on a shorter slice. The slice of
an `Addr` has no, four or sixteen bytes. -/
def ip6InRange (start ip : IP) : Option Bool :=
  match start, ip with
  | .sixteen a, .sixteen b =>
    some (a.toNat / 256 == b.toNat / 256 && decide (a.toNat % 256 ≤ b.toNat % 256))
  | .sixteen _, _ => none
  | _, _ => some false

/-- `addLease`. -/
def addLease (s : V6Server) (l : Lease) : V6Server :=
  { s with leases := s.leases ++ [l], ipAddrs := Function.update s.ipAddrs (lastByte l.ip) 1 }

/-- `leaseRemoveSwapByIndex`. -/
def leaseRemoveSwapByIndex (s : V6Server) (i : Nat) : V6Server :=
  match s.leases[i]? with
  | none => s
  | some l =>
    { s with
      leases := removeSwap s.leases i
      ipAddrs := Function.update s.ipAddrs (lastByte l.ip) 0 }

/-- How a round of a loop ends: `next` goes on with the next index, and `stop`
leaves the function with an error or without. -/
inductive RoundEnd where
  | next
  | stop (err : Option V6Err)
  deriving DecidableEq, Repr

/-- The second half of the loop body of `rmDynamicLease`: `l` is the lease now
under the index. -/
def rmSameIP (lease l : Lease) (i : Nat) (s : V6Server) : V6Server × RoundEnd :=
  if l.ip = lease.ip then
    if l.isStatic then (s, .stop (some .staticLeaseExists))
    else (s.leaseRemoveSwapByIndex i, .next)
  else (s, .next)

/-- The loop condition and the loop body of `rmDynamicLease`. -/
def rmDynamicRound (lease : Lease) (i : Nat) (s : V6Server) : V6Server × RoundEnd :=
  match s.leases[i]? with
  | none => (s, .stop none)
  | some l =>
    if l.hwAddr = lease.hwAddr then
      if l.isStatic then (s, .stop (some .staticLeaseExists))
      else
        let s := s.leaseRemoveSwapByIndex i
        match s.leases[i]? with
        | none => (s, .stop none)
        | some l => rmSameIP lease l i s
    else rmSameIP lease l i s

/-- The loop of `rmDynamicLease` from index `i` on, for at most `n` rounds. The
length of the slice is read again in each round. -/
def rmDynamicLoop (lease : Lease) : Nat → Nat → V6Server → V6Server × Option V6Err
  | 0, _, s => (s, none)
  | n + 1, i, s =>
    match rmDynamicRound lease i s with
    | (s, .stop err) => (s, err)
    | (s, .next) => rmDynamicLoop lease n (i + 1) s

/-- `rmDynamicLease` removes a dynamic lease with the same properties. -/
def rmDynamicLease (s : V6Server) (lease : Lease) : V6Server × Option V6Err :=
  rmDynamicLoop lease s.leases.length 0 s

/-- `rmLease` removes a lease with the same properties. -/
def rmLease (s : V6Server) (lease : Lease) : Except V6Err V6Server :=
  match s.leases.findIdx? (·.ip == lease.ip) with
  | none => .error .leaseNotFound
  | some i =>
    match s.leases[i]? with
    | none => .error .leaseNotFound
    | some l =>
      if l.hwAddr ≠ lease.hwAddr ∨ l.hostname ≠ lease.hostname then .error .leaseNotFound
      else .ok (s.leaseRemoveSwapByIndex i)

/-- `findLease` finds a lease by MAC, here its index. -/
def findLease (s : V6Server) (mac : HardwareAddr) : Option Nat :=
  s.leases.findIdx? (mac == ·.hwAddr)

/-! ### The administrator's calls -/

/-- `AddStaticLease`. -/
def addStaticLease (nu : Netutil) (s : V6Server) (l : Lease) : V6Server × Option V6Err :=
  if !l.ip.is6 then (s, some .invalidIP)
  else
    match nu.validateMAC l.hwAddr with
    | some text => (s, some (.badMAC text))
    | none =>
      let l := { l with isStatic := true }
      match s.rmDynamicLease l with
      | (s, some err) => (s, some err)
      | (s, none) => (s.addLease l, none)

/-- `UpdateStaticLease` updates IP, hostname of the static lease. -/
def updateStaticLease (s : V6Server) (l : Lease) : V6Server × Option V6Err :=
  match (s.findLease l.hwAddr).bind fun i => s.leases[i]? with
  | none => (s, some (.noLeaseForMAC l.hwAddr))
  | some found =>
    match s.rmLease found with
    | .error err => (s, some (.wrapped "removing previous lease" err))
    | .ok s => (s.addLease l, none)

/-- `RemoveStaticLease`. -/
def removeStaticLease (nu : Netutil) (s : V6Server) (l : Lease) : V6Server × Option V6Err :=
  if !l.ip.is6 then (s, some .invalidIP)
  else
    match nu.validateMAC l.hwAddr with
    | some text => (s, some (.badMAC text))
    | none =>
      match s.rmLease l with
      | .error err => (s, some err)
      | .ok s => (s, none)

/-- The loop of `ResetLeases`. -/
def readdLeases : V6Server → List Lease → Option V6Server
  | s, [] => some s
  | s, l :: rest =>
    if l.isStatic then readdLeases (s.addLease l) rest
    else
      match ip6InRange s.conf.ipStart l.ip.asSlice with
      | none => none
      | some false => readdLeases s rest
      | some true => readdLeases (s.addLease l) rest

/-- `ResetLeases`. -/
def resetLeases (s : V6Server) (leases : List Lease) : Option V6Server :=
  readdLeases { s with leases := [] } leases

/-! ### Messages -/

/-- `findFreeIP`: the first address from `ipStart` on whose last byte is not in use,
and `nil` when there is none. `ipStart[15]` panics on a shorter slice. -/
def findFreeIP (s : V6Server) : Option IP :=
  match s.conf.ipStart with
  | .sixteen start =>
    match (List.range' (start.toNat % 256) (256 - start.toNat % 256)).find? fun b =>
      s.ipAddrs (UInt8.ofNat b) == 0 with
    | some b => some (.sixteen (BitVec.ofNat 128 (start.toNat / 256 * 256 + b)))
    | none => some .nil
  | _ => none

/-- `findExpiredLease`; `Unix()` has whole seconds. -/
def findExpiredLease (s : V6Server) (now : Time) : Option Nat :=
  s.leases.findIdx? fun l => !l.isStatic && decide (l.expiry / second ≤ now / second)

/-- `reserveLease`: the server with the index of the reserved lease. -/
def reserveLease (s : V6Server) (mac : HardwareAddr) (now : Time) :
    Option (V6Server × Option Nat) :=
  match s.findFreeIP with
  | none => none
  | some .nil =>
    match s.findExpiredLease now with
    | none => some (s, none)
    | some i =>
      some ({ s with leases := s.leases.modify i fun l =>
                { l with hwAddr := goCopy l.hwAddr mac } }, some i)
  | some ip =>
    match addrFromSlice ip with
    | none => some (s, none)
    | some netIP =>
      some (s.addLease { ip := netIP, hwAddr := mac }, some s.leases.length)

/-- The message types that `process` knows; the rest are `other`. -/
inductive V6MessageType where
  | solicit | request | confirm | renew | rebind | other
  deriving DecidableEq, Repr

/-- What `process` reads of a message. `mac` is the result of `ExtractMAC`, and
`iana` the address in the message's IANA option, if it has the option. -/
structure V6Msg where
  messageType : V6MessageType
  mac : Option HardwareAddr
  iana : Option (Option IP) := none
  deriving DecidableEq, Repr

/-- `checkIA`: the IANA address must be equal to the lease's IP. -/
def checkIA (msg : V6Msg) (l : Lease) : Bool :=
  match msg.messageType with
  | .request | .confirm | .renew | .rebind =>
    match msg.iana with
    | some (some ip) => ip.equal l.ip.asSlice
    | _ => false
  | _ => true

/-- `commitLease`: the server and the lifetime of the lease at index `i`. -/
def commitLease (s : V6Server) (msg : V6Msg) (i : Nat) (l : Lease) (now : Time) :
    V6Server × Duration :=
  match msg.messageType with
  | .confirm => (s, l.expiry - now)
  | .request | .renew | .rebind =>
    if l.isStatic then (s, s.conf.leaseTime)
    else ({ s with leases := s.leases.modify i fun l =>
              { l with expiry := now + s.conf.leaseTime } }, s.conf.leaseTime)
  | _ => (s, s.conf.leaseTime)

/-- The end of `process`: the address and the lifetime of the lease at index `i`. -/
def answer (s : V6Server) (msg : V6Msg) (i : Nat) (now : Time) :
    V6Server × Option (IP × Duration) :=
  match s.leases[i]? with
  | none => (s, none)
  | some l =>
    if !checkIA msg l then (s, none)
    else
      let out := s.commitLease msg i l now
      (out.1, some (l.ip.asSlice, out.2))

/-- `process` finds a lease associated with MAC and prepares the response. `now` is
the clock `findExpiredLease` reads, and `later` the one of the commit. -/
def process (s : V6Server) (msg : V6Msg) (now later : Time) :
    Option (V6Server × Option (IP × Duration)) :=
  match msg.messageType, msg.mac with
  | .other, _ => some (s, none)
  | _, none => some (s, none)
  | type, some mac =>
    match s.findLease mac with
    | some i => some (s.answer msg i later)
    | none =>
      if type = .solicit then
        (s.reserveLease mac now).map fun r =>
          match r.2 with
          | none => (r.1, none)
          | some i => r.1.answer msg i later
      else some (s, none)

/-! ### The machine -/

/-- `v6Create`. -/
def v6Create (conf : V6ServerConf) : V6Server × Option V6Err :=
  let s : V6Server := ⟨conf, [], fun _ => 0⟩
  if !conf.enabled then (s, none)
  else
    let s := { s with conf := { conf with ipStart := conf.rangeStart } }
    if conf.rangeStart.to16.isNone then (s, some (.invalidRangeStart conf.rangeStart))
    else if conf.leaseDuration = 0 then
      ({ s with conf := { s.conf with leaseTime := day, leaseDuration := 86400 } }, none)
    else
      ({ s with conf := { s.conf with leaseTime := second * conf.leaseDuration.toNat } }, none)

/-- The calls a running server receives. -/
inductive Op where
  | addStaticLease (l : Lease)
  | updateStaticLease (l : Lease)
  | removeStaticLease (l : Lease)
  | resetLeases (leases : List Lease)
  | process (msg : V6Msg) (now later : Time)

/-- What a call answers. -/
inductive Answer where
  | admin (err : Option V6Err)
  | dhcp (lease : Option (IP × Duration))
  deriving DecidableEq, Repr

def step (nu : Netutil) (s : V6Server) : Op → Option (V6Server × Answer)
  | .addStaticLease l =>
    let r := s.addStaticLease nu l
    some (r.1, .admin r.2)
  | .updateStaticLease l =>
    let r := s.updateStaticLease l
    some (r.1, .admin r.2)
  | .removeStaticLease l =>
    let r := s.removeStaticLease nu l
    some (r.1, .admin r.2)
  | .resetLeases leases => (s.resetLeases leases).map fun s => (s, .admin none)
  | .process msg now later => (s.process msg now later).map fun r => (r.1, .dhcp r.2)

end V6Server

end FirewallCore.Dhcpd
