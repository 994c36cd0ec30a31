import FirewallCore.Dhcpd.BitSet
import FirewallCore.Dhcpd.Config
import FirewallCore.Lib.Slice
import Mathlib.Logic.Function.Basic

/-!
The lease table of the DHCPv4 server (`v4_unix.go`): its state and the locked
operations on it.

Leases are shared by pointer between the `leases` slice and the two indexes and
are changed in place, so the state has a heap of leases; a pointer is an
allocation number. `leases` is a `Slice`, since `rmDynamicLease` deletes from
it in place while ranging over it. A call that panics is `none`.
-/

namespace FirewallCore.Dhcpd

open FirewallCore.Net FirewallCore.Lib

/-- A `*dhcpsvc.Lease`. -/
abbrev Ptr := Nat

/-- The errors of the DHCPv4 server. `wrapped` adds the text of an
`errors.Annotate` or `fmt.Errorf` around another error. -/
inductive V4Err where
  /-- "hostname is not unique" -/
  | dupHostname
  /-- "ip address is not unique" -/
  | dupIP
  /-- "static lease already exists" -/
  | staticLeaseExists
  /-- "subnet %s does not contain the ip %q" -/
  | notInSubnet (subnet : Prefix) (ip : Addr)
  /-- "lease %s (%s) out of range, not adding" -/
  | outOfRange (ip : Addr) (mac : HardwareAddr)
  /-- "lease for ip %s is different: %+v" -/
  | leaseDifferent (ip : Addr) (l : Lease)
  /-- "lease not found" -/
  | leaseNotFound
  /-- "can't find lease %s" -/
  | noLeaseForMAC (mac : HardwareAddr)
  /-- "server is unconfigured" -/
  | unconfigured
  /-- "invalid IP %q: only IPv4 is supported", or "invalid IP" -/
  | notIPv4 (ip : Addr)
  /-- "invalid ip" -/
  | invalidIP
  /-- "can't assign the gateway IP %q to the lease" -/
  | gatewayIP (ip : Addr)
  | badMAC (text : String)
  | badHostname (text : String)
  /-- "normalizing %q: no valid parts" -/
  | noValidParts (hostname : String)
  | wrapped (text : String) (err : V4Err)
  deriving DecidableEq, Repr

/-- `v4Server`. -/
structure V4Server where
  conf : Option V4ServerConf
  heap : Ptr → Lease
  /-- The next pointer that `new` hands out. -/
  next : Ptr
  leasedOffsets : BitSet
  leases : Slice Ptr
  hostsIndex : String → Option Ptr
  ipIndex : Addr → Option Ptr

namespace V4Server

/-! ### Reading the configuration and the heap -/

/-- `s.conf.ipRange.offset`; a nil range has no addresses. -/
def offset (s : V4Server) (ip : Addr) : Nat × Bool :=
  match s.conf.bind (·.ipRange) with
  | none => (0, false)
  | some r => r.offset ip.as16

def subnet (s : V4Server) : Prefix := (s.conf.map (·.subnet)).getD .zero

def gatewayIP (s : V4Server) : Addr := (s.conf.map (·.gatewayIP)).getD .zero

def leaseTime (s : V4Server) : Duration := (s.conf.map (·.leaseTime)).getD 0

/-- Allocates a lease. -/
def new (s : V4Server) (l : Lease) : V4Server :=
  { s with heap := Function.update s.heap s.next l, next := s.next + 1 }

/-- Writes through a pointer. -/
def modify (s : V4Server) (p : Ptr) (f : Lease → Lease) : V4Server :=
  { s with heap := Function.update s.heap p (f (s.heap p)) }

/-- `isBlocklisted`: an all-zero hardware address marks a blocklisted lease. -/
def isBlocklisted (l : Lease) : Bool :=
  !l.hwAddr.isEmpty && l.hwAddr.all (· == 0)

/-! ### Lookups -/

/-- `HostByIP`. -/
def hostByIP (s : V4Server) (ip : Addr) : String :=
  match s.ipIndex ip with
  | some p => (s.heap p).hostname
  | none => ""

/-- `IPByHost`; the zero address when the name is unknown. -/
def ipByHost (s : V4Server) (host : String) : Addr :=
  match s.hostsIndex host with
  | some p => (s.heap p).ip
  | none => .zero

/-- `findLease` finds a lease by its MAC-address. -/
def findLease (s : V4Server) (mac : HardwareAddr) : Option Ptr :=
  s.leases.elems.find? fun p => mac == (s.heap p).hwAddr

/-- `findLeaseForIP` returns a lease for the provided ip and mac. -/
def findLeaseForIP (s : V4Server) (ip : IP) (mac : HardwareAddr) : Option Ptr :=
  match addrFromSlice ip with
  | none => none
  | some netIP =>
    s.leases.elems.find? fun p => (s.heap p).hwAddr == mac && (s.heap p).ip == netIP

/-- `nextIP` generates a new free IP. -/
def nextIP (s : V4Server) : IP :=
  match s.conf.bind (·.ipRange) with
  | none => .nil
  | some r =>
    match r.find fun next => (r.offset next).2 && !s.leasedOffsets.isSet (r.offset next).1 with
    | none => .nil
    | some i => if i / 2 ^ 32 = mappedHigh then .four (BitVec.ofNat 32 i) else .nil

/-- `findExpiredLease` returns the index of an expired lease. -/
def findExpiredLease (s : V4Server) (now : Time) : Option Nat :=
  s.leases.elems.findIdx? fun p => !(s.heap p).isStatic && decide ((s.heap p).expiry < now)

/-! ### Removing and adding -/

/-- `rmLeaseByIndex`. -/
def rmLeaseByIndex (s : V4Server) (i : Nat) : V4Server :=
  match s.leases.elems[i]? with
  | none => s
  | some p =>
    let l := s.heap p
    let off := s.offset l.ip
    { s with
      leases := s.leases.removeAt i
      leasedOffsets := if off.2 then s.leasedOffsets.set off.1 false else s.leasedOffsets
      hostsIndex := Function.update s.hostsIndex l.hostname none
      ipIndex := Function.update s.ipIndex l.ip none }

/-- The test of `rmDynamicLease`: the same hardware address or the same IP. -/
def sameProperties (l lease : Lease) : Bool := l.hwAddr == lease.hwAddr || l.ip == lease.ip

/-- The tail of the loop body of `rmDynamicLease`: empties the hostname of the
lease now under the index if it is that of `lease`. -/
def blankHostname (s : V4Server) (lease p : Ptr) : V4Server :=
  if (s.heap p).hostname = (s.heap lease).hostname then
    s.modify p fun l => { l with hostname := "" }
  else s

/-- The loop of `rmDynamicLease` from index `i` on, with `n` rounds to go. The
loop bound was fixed when the loop was entered, and each round reads the cell
of the backing array, which deletions have shifted by then. -/
def rmDynamicLoop (lease : Ptr) : Nat → Nat → V4Server → Option (V4Server × Option V4Err)
  | 0, _, s => some (s, none)
  | n + 1, i, s =>
    match s.leases.cells[i]? with
    | none => none
    | some p =>
      let isStatic := (s.heap p).isStatic
      if sameProperties (s.heap p) (s.heap lease) then
        if isStatic then some (s, some .staticLeaseExists)
        else
          let s := s.rmLeaseByIndex i
          if i = s.leases.len then some (s, none)
          else
            match s.leases.elems[i]? with
            | none => none
            | some q => rmDynamicLoop lease n (i + 1) (s.blankHostname lease q)
      else rmDynamicLoop lease n (i + 1) (if isStatic then s else s.blankHostname lease p)

/-- `rmDynamicLease` removes a dynamic lease with the same properties. -/
def rmDynamicLease (s : V4Server) (lease : Ptr) : Option (V4Server × Option V4Err) :=
  rmDynamicLoop lease s.leases.len 0 s

/-- The second half of `addLease`: enters a lease into the indexes, the slice and
the bit set. The offset is zero for an address outside of the range. -/
def insertLease (s : V4Server) (p : Ptr) : V4Server :=
  let l := s.heap p
  { s with
    hostsIndex :=
      if l.hostname = "" then s.hostsIndex else Function.update s.hostsIndex l.hostname (some p)
    ipIndex := Function.update s.ipIndex l.ip (some p)
    leases := s.leases.push p
    leasedOffsets := s.leasedOffsets.set (s.offset l.ip).1 true }

/-- `addLease` adds a dynamic or static lease. -/
def addLease (s : V4Server) (p : Ptr) : Except V4Err V4Server :=
  let l := s.heap p
  if l.isStatic && !s.subnet.contains l.ip then .error (.notInSubnet s.subnet l.ip)
  else if !l.isStatic && !(s.offset l.ip).2 then .error (.outOfRange l.ip l.hwAddr)
  else if l.hostname ≠ "" ∧ (s.hostsIndex l.hostname).isSome then .error .dupHostname
  else .ok (s.insertLease p)

/-- `rmLease` removes a lease with the same properties. -/
def rmLease (s : V4Server) (lease : Lease) : Except V4Err V4Server :=
  if s.leases.elems.isEmpty then .ok s
  else
    match s.leases.elems.findIdx? fun p => (s.heap p).ip == lease.ip with
    | none => .error .leaseNotFound
    | some i =>
      match s.leases.elems[i]? with
      | none => .error .leaseNotFound
      | some p =>
        let l := s.heap p
        if l.hwAddr ≠ lease.hwAddr ∨ l.hostname ≠ lease.hostname then
          .error (.leaseDifferent lease.ip l)
        else .ok (s.rmLeaseByIndex i)

/-! ### Static leases -/

/-- The unexported `updateStaticLease` removes dynamic leases with the same properties and then
adds the static lease. -/
def updateStaticLeaseInner (s : V4Server) (l : Lease) : Option (V4Server × Option V4Err) := do
  let p := s.next
  let (s, err) ← (s.new l).rmDynamicLease p
  match err with
  | some err => return (s, some (.wrapped "removing dynamic leases" err))
  | none =>
    match s.addLease p with
    | .error err => return (s, some (.wrapped "adding static lease" err))
    | .ok s => return (s, none)

/-- The hostname checks that `AddStaticLease` and `validateStaticLease` share. -/
def checkHostname (nu : Netutil) (hostname : String) : Except V4Err String :=
  match normalizeHostname nu hostname with
  | .error hostname => .error (.noValidParts hostname)
  | .ok hostname =>
    match nu.validateHostname hostname with
    | some text => .error (.badHostname text)
    | none => .ok hostname

/-- The checks `AddStaticLease` makes before it takes the lock. -/
def checkStatic (nu : Netutil) (s : V4Server) (l : Lease) : Except V4Err Lease :=
  if s.conf.isNone then .error .unconfigured
  else if !l.ip.unmap.is4 then .error (.notIPv4 l.ip.unmap)
  else if s.gatewayIP = l.ip.unmap then .error (.gatewayIP l.ip.unmap)
  else
    match nu.validateMAC l.hwAddr with
    | some text => .error (.badMAC text)
    | none =>
      if l.hostname = "" then .ok { l with ip := l.ip.unmap, isStatic := true }
      else
        match checkHostname nu l.hostname with
        | .error err => .error err
        | .ok hostname =>
          .ok { l with ip := l.ip.unmap, isStatic := true, hostname := hostname }

/-- `AddStaticLease`. -/
def addStaticLease (nu : Netutil) (s : V4Server) (l : Lease) :
    Option (V4Server × Option V4Err) :=
  match checkStatic nu s l with
  | .error err => some (s, some err)
  | .ok l => s.updateStaticLeaseInner l

/-- An index entry that belongs to another hardware address. -/
def usedByOther (s : V4Server) (mac : HardwareAddr) : Option Ptr → Bool
  | some dup => (s.heap dup).hwAddr != mac
  | none => false

/-- `validateStaticLease`; the lease comes back with its hostname normalized. -/
def validateStaticLease (nu : Netutil) (s : V4Server) (l : Lease) : Except V4Err Lease :=
  match checkHostname nu l.hostname with
  | .error err => .error err
  | .ok hostname =>
    if s.usedByOther l.hwAddr (s.hostsIndex hostname) then .error .dupHostname
    else if s.usedByOther l.hwAddr (s.ipIndex l.ip) then .error .dupIP
    else if s.gatewayIP = l.ip then .error (.gatewayIP l.ip)
    else if !s.subnet.contains l.ip then .error (.notInSubnet s.subnet l.ip)
    else .ok { l with hostname := hostname }

/-- `UpdateStaticLease` updates IP, hostname of the static lease. -/
def updateStaticLease (nu : Netutil) (s : V4Server) (l : Lease) : V4Server × Option V4Err :=
  match s.findLease l.hwAddr with
  | none => (s, some (.noLeaseForMAC l.hwAddr))
  | some found =>
    match s.validateStaticLease nu l with
    | .error err => (s, some err)
    | .ok l =>
      match s.rmLease (s.heap found) with
      | .error err => (s, some (.wrapped "removing previous lease" err))
      | .ok s =>
        let p := s.next
        match (s.new l).addLease p with
        | .error err => (s.new l, some (.wrapped "adding updated static lease" err))
        | .ok s => (s, none)

/-- `RemoveStaticLease`. -/
def removeStaticLease (nu : Netutil) (s : V4Server) (l : Lease) : V4Server × Option V4Err :=
  if s.conf.isNone then (s, some .unconfigured)
  else if !l.ip.is4 then (s, some (.notIPv4 l.ip))
  else
    match nu.validateMAC l.hwAddr with
    | some text => (s, some (.wrapped "validating lease" (.badMAC text)))
    | none =>
      match s.rmLease l with
      | .error err => (s, some err)
      | .ok s => (s, none)

/-! ### Resetting -/

/-- The hostname under which `ResetLeases` re-adds a lease. -/
def readdHostname (nu : Netutil) (l : Lease) : Option String :=
  if l.isStatic then some l.hostname else validHostnameForClient nu l.hostname l.ip

/-- The loop of `ResetLeases`; a lease that cannot be added is skipped. -/
def readdLeases (nu : Netutil) : V4Server → List Lease → Option V4Server
  | s, [] => some s
  | s, l :: rest => do
    let hostname ← readdHostname nu l
    let p := s.next
    let s := s.new { l with hostname := hostname }
    match s.addLease p with
    | .error _ => readdLeases nu s rest
    | .ok s => readdLeases nu s rest

/-- The server with an empty lease table. -/
def cleared (s : V4Server) : V4Server :=
  { s with
    leasedOffsets := .newBitSet
    hostsIndex := fun _ => none
    ipIndex := fun _ => none
    leases := .nil }

/-- `ResetLeases`. -/
def resetLeases (nu : Netutil) (s : V4Server) (leases : List Lease) : Option V4Server :=
  if s.conf.isNone then some s else readdLeases nu s.cleared leases

/-! ### Creating -/

/-- `v4Create`: a server without configuration when validation fails. -/
def v4Create (conf : V4ServerConf) : V4Server × Option ConfErr :=
  let s : V4Server := ⟨none, fun _ => ⟨.zero, 0, "", [], false⟩, 0, .newBitSet, .nil,
    fun _ => none, fun _ => none⟩
  match conf.validate with
  | .error err => (s, some err)
  | .ok conf =>
    let conf :=
      if conf.leaseDuration = 0 then { conf with leaseTime := day, leaseDuration := 86400 }
      else { conf with leaseTime := second * conf.leaseDuration.toNat }
    ({ s with conf := some conf }, none)

end V4Server

end FirewallCore.Dhcpd

/-!
The message handlers of the DHCPv4 server (`v4_unix.go`), from `reserveLease` up
to `packetHandler`, and the server as one machine whose inputs are the
administrator's calls and the clients' messages.

Every reading of the clock and every ping is an input. `allocateLease` is a
loop without a bound of its own; it is given the list of its rounds and is
`none` when these run out, that is, while the loop is still going. Handlers are
`none` when they do not return.
-/

namespace FirewallCore.Dhcpd

open FirewallCore.Net FirewallCore.Lib

/-- The message types that matter; the rest are `other`. -/
inductive MessageType where
  | discover | offer | request | decline | ack | nak | release | other
  deriving DecidableEq, Repr

/-- What the handlers read of a DHCPv4 message. -/
structure Msg where
  messageType : MessageType
  clientHWAddr : HardwareAddr
  clientIPAddr : IP := .nil
  requestedIP : IP := .nil
  serverIdentifier : IP := .nil
  hostName : String := ""
  /-- The parameter request list has the hostname option. -/
  wantsHostName : Bool := false
  deriving DecidableEq, Repr

/-- The address a DECLINE or RELEASE is about. -/
def Msg.targetIP (req : Msg) : IP :=
  if req.requestedIP.isNil then req.clientIPAddr else req.requestedIP

/-- What the handlers write of a reply. `yourIPAddr` is `nil` when no handler
set it. -/
structure Response where
  messageType : Option MessageType := none
  yourIPAddr : IP := .nil
  hostName : Option String := none
  fqdn : Option String := none
  deriving DecidableEq, Repr

/-- One round of `allocateLease`: the clock `findExpiredLease` reads, whether a
ping of the reserved address goes unanswered, and the clock `blocklistLease`
reads when it does not. -/
structure Round where
  now : Time
  silent : Bool
  stamp : Time
  deriving DecidableEq, Repr

/-- The readings made while a message is handled. -/
structure Readings where
  rounds : List Round := []
  now : Time := 0
  deriving DecidableEq, Repr

namespace V4Server

/-! ### Allocating -/

/-- The hardware address of a blocklisted lease. -/
def blocklistMAC : HardwareAddr := [0, 0, 0, 0, 0, 0]

/-- `blocklistLease` keeps the address from being leased for a time. -/
def blocklistLease (s : V4Server) (p : Ptr) (now : Time) : V4Server :=
  s.modify p fun l =>
    { l with hwAddr := blocklistMAC, hostname := "", expiry := now + s.leaseTime }

/-- `addrAvailable`; `silent` is the outcome of the ping. -/
def addrAvailable (s : V4Server) (silent : Bool) : Bool :=
  (s.conf.map (·.icmpTimeout)).getD 0 = 0 || silent

/-- `reserveLease` reserves a lease for a client by its MAC-address, in a free
address or, when there is none, in the entry of an expired lease. -/
def reserveLease (s : V4Server) (mac : HardwareAddr) (now : Time) :
    V4Server × Except V4Err (Option Ptr) :=
  match s.nextIP with
  | .nil =>
    match s.findExpiredLease now with
    | none => (s, .ok none)
    | some i =>
      match s.leases.elems[i]? with
      | none => (s, .ok none)
      | some p => (s.modify p fun l => { l with hwAddr := goCopy l.hwAddr mac }, .ok (some p))
  | nextIP =>
    match addrFromSlice nextIP with
    | none => (s, .error .invalidIP)
    | some netIP =>
      let p := s.next
      let s := s.new { ip := netIP, hwAddr := mac }
      match s.addLease p with
      | .error err => (s, .error err)
      | .ok s => (s, .ok (some p))

/-- An address that a ping found in use, and the time until which it is
blocklisted. The server logs each of them. -/
abbrev Conflict := Addr × Time

/-- What a call of `allocateLease` leaves behind. `conflicts` are the addresses it
has blocklisted on the way, latest first. -/
structure Allocation where
  server : V4Server
  lease : Except V4Err (Option Ptr)
  conflicts : List Conflict

/-- `allocateLease` allocates a new lease for the MAC address. -/
def allocateLease (mac : HardwareAddr) :
    V4Server → List Conflict → List Round → Option Allocation
  | _, _, [] => none
  | s, conflicts, r :: rounds =>
    match s.reserveLease mac r.now with
    | (s, .error err) => some ⟨s, .error (.wrapped "reserving a lease" err), conflicts⟩
    | (s, .ok none) => some ⟨s, .ok none, conflicts⟩
    | (s, .ok (some p)) =>
      if s.addrAvailable r.silent then some ⟨s, .ok (some p), conflicts⟩
      else allocateLease mac (s.blocklistLease p r.stamp)
        (((s.heap p).ip, r.stamp + s.leaseTime) :: conflicts) rounds

/-- The hostname `commitLease` settles on: the normalized one of the client, unless
some lease has it already. -/
def commitHostname (nu : Netutil) (s : V4Server) (l : Lease) (hostname : String) :
    Option String := do
  let hostname ← validHostnameForClient nu hostname l.ip
  if (s.hostsIndex hostname).isSome then
    if l.hostname = "" then generateHostname l.ip else some l.hostname
  else some hostname

/-- The writes of `commitLease`, once the hostname is settled. -/
def commit (s : V4Server) (p : Ptr) (hostname : String) (now : Time) : V4Server :=
  let prev := (s.heap p).hostname
  let hosts :=
    if prev ≠ "" ∧ prev ≠ hostname then Function.update s.hostsIndex prev none else s.hostsIndex
  { s.modify p fun l => { l with hostname := hostname, expiry := now + s.leaseTime } with
    hostsIndex := if hostname = "" then hosts else Function.update hosts hostname (some p)
    ipIndex := Function.update s.ipIndex (s.heap p).ip (some p) }

/-- `commitLease` refreshes the values of a lease. It takes the desired hostname
into account, but generates a unique one if the provided can't be used. -/
def commitLease (nu : Netutil) (s : V4Server) (p : Ptr) (hostname : String) (now : Time) :
    Option V4Server :=
  (commitHostname nu s (s.heap p) hostname).map fun hostname => s.commit p hostname now

/-! ### DHCPDISCOVER -/

/-- The outcome of a handler: the return code (`1` is OK, `0` a NAK and `-1` no
reply), the reply, and the addresses blocklisted on the way. -/
structure Handled where
  server : V4Server
  rCode : Int
  resp : Response
  conflicts : List Conflict

/-- `handleDiscover`, with the code `messageHandlers` gives to its result. -/
def handleDiscover (s : V4Server) (req : Msg) (env : Readings) : Option Handled :=
  match s.findLease req.clientHWAddr with
  | some p => some ⟨s, 1, { messageType := some .offer, yourIPAddr := (s.heap p).ip.asSlice }, []⟩
  | none =>
    (allocateLease req.clientHWAddr s [] env.rounds).map fun a =>
      match a.lease with
      | .error _ => ⟨a.server, 0, {}, a.conflicts⟩
      | .ok none => ⟨a.server, 0, {}, a.conflicts⟩
      | .ok (some p) =>
        ⟨a.server, 1, { messageType := some .offer,
                        yourIPAddr := (a.server.heap p).ip.asSlice }, a.conflicts⟩

/-! ### DHCPREQUEST -/

/-- `checkLease`: the lease of the pair of mac and ip, and whether the first
lease of that mac differs in its IP address. -/
def checkLease (s : V4Server) (mac : HardwareAddr) (ip : IP) : Option Ptr × Bool :=
  match addrFromSlice ip with
  | none => (none, false)
  | some netIP =>
    match s.leases.elems.find? fun p => (s.heap p).hwAddr == mac with
    | none => (none, false)
    | some p => if (s.heap p).ip = netIP then (some p, false) else (none, true)

/-- A `ciaddr` that is present and not the unspecified address. -/
def ciaddrSet (req : Msg) : Bool := !req.clientIPAddr.isNil && !req.clientIPAddr.isUnspecified

/-- The server identifier: `s.conf.dnsIPAddrs[0]`, whose absence is a panic. -/
def serverIP (s : V4Server) : Option Addr := s.conf.bind (·.dnsIPAddrs.head?)

/-- `handleSelecting` handles the DHCPREQUEST of the SELECTING state. -/
def handleSelecting (s : V4Server) (req : Msg) (reqIP sid : IP) (self : Addr) :
    Option Ptr × Bool :=
  if !sid.equal self.asSlice then (none, false)
  else if ciaddrSet req then (none, false)
  else if reqIP.to4.isNone then (none, false)
  else
    match s.checkLease req.clientHWAddr reqIP with
    | (_, true) => (none, true)
    | (l, false) => (l, true)

/-- `handleInitReboot` handles the DHCPREQUEST of the INIT-REBOOT state. -/
def handleInitReboot (s : V4Server) (req : Msg) (reqIP : IP) : Option Ptr × Bool :=
  match reqIP.to4 with
  | none => (none, false)
  | some ip4 =>
    if ciaddrSet req then (none, false)
    else if !s.subnet.contains (.v4 ip4) then (none, true)
    else
      match s.checkLease req.clientHWAddr reqIP with
      | (_, true) => (none, true)
      | (none, false) => (none, false)
      | (some p, false) => (some p, true)

/-- `handleRenew` handles the DHCPREQUEST of the RENEWING or REBINDING state. -/
def handleRenew (s : V4Server) (req : Msg) : Option Ptr × Bool :=
  if !ciaddrSet req || req.clientIPAddr.to4.isNone then (none, false)
  else
    match s.checkLease req.clientHWAddr req.clientIPAddr with
    | (_, true) => (none, true)
    | (none, false) => (none, false)
    | (some p, false) => (some p, true)

/-- `handleByRequestType`: the first critical section of a DHCPREQUEST. -/
def handleByRequestType (s : V4Server) (req : Msg) (self : Addr) : Option Ptr × Bool :=
  if !req.serverIdentifier.isNil && !req.serverIdentifier.isUnspecified then
    s.handleSelecting req req.requestedIP req.serverIdentifier self
  else if !req.requestedIP.isNil && !req.requestedIP.isUnspecified then
    s.handleInitReboot req req.requestedIP
  else s.handleRenew req

/-- The second critical section of `handleRequest`, on the lease the first one
found: a static lease is acknowledged as it is, a dynamic one is committed. -/
def finishRequest (nu : Netutil) (s : V4Server) (req : Msg) (p : Ptr) (now : Time) :
    Option Handled :=
  let l := s.heap p
  if l.isStatic then
    some ⟨s, 1, { messageType := some .ack, yourIPAddr := l.ip.asSlice,
                  fqdn := if l.hostname = "" then none else some l.hostname }, []⟩
  else do
    let s ← s.commitLease nu p req.hostName now
    let hostname := (s.heap p).hostname
    return ⟨s, 1, { messageType := some .ack, yourIPAddr := (s.heap p).ip.asSlice,
                    hostName := if req.hostName ≠ "" ∨ req.wantsHostName = true
                      then some hostname else none }, []⟩

/-- `handleRequest`, with the code `messageHandlers` gives to its result. -/
def handleRequest (nu : Netutil) (s : V4Server) (req : Msg) (self : Addr) (env : Readings) :
    Option Handled :=
  match s.handleByRequestType req self with
  | (none, true) => some ⟨s, 0, {}, []⟩
  | (none, false) => some ⟨s, -1, {}, []⟩
  | (some p, _) => s.finishRequest nu req p env.now

/-! ### DHCPDECLINE and DHCPRELEASE -/

/-- The writes of `handleDecline` to the newly allocated lease. -/
def takeOver (s : V4Server) (oldLease p : Ptr) (now : Time) : V4Server :=
  s.modify p fun l =>
    { l with hostname := (s.heap oldLease).hostname, expiry := now + s.leaseTime }

/-- `handleDecline`. -/
def handleDecline (s : V4Server) (req : Msg) (env : Readings) : Option Handled :=
  match s.findLeaseForIP req.targetIP req.clientHWAddr with
  | none => some ⟨s, 1, {}, []⟩
  | some oldLease => do
    let (s, err) ← s.rmDynamicLease oldLease
    match err with
    | some _ => return ⟨s, 0, {}, []⟩
    | none =>
      let a ← allocateLease req.clientHWAddr s [] env.rounds
      match a.lease with
      | .error _ => return ⟨a.server, 0, {}, a.conflicts⟩
      | .ok none =>
        return ⟨a.server, 1, { messageType := some .ack, yourIPAddr := .four 0 },
          a.conflicts⟩
      | .ok (some p) =>
        let s := a.server.takeOver oldLease p env.now
        match s.addLease p with
        | .error _ => return ⟨s, 0, {}, a.conflicts⟩
        | .ok s =>
          return ⟨s, 1, { messageType := some .ack,
                          yourIPAddr := (s.heap p).ip.asSlice }, a.conflicts⟩

/-- The loop of `handleRelease` from index `i` on, with `n` rounds to go. -/
def releaseLoop (mac : HardwareAddr) (ip : Addr) :
    Nat → Nat → V4Server → Option (V4Server × Option V4Err)
  | 0, _, s => some (s, none)
  | n + 1, i, s =>
    match s.leases.cells[i]? with
    | none => none
    | some p =>
      if (s.heap p).hwAddr ≠ mac ∨ (s.heap p).ip ≠ ip then releaseLoop mac ip n (i + 1) s
      else do
        let (s, err) ← s.rmDynamicLease p
        match err with
        | some err => return (s, some (.wrapped "removing dynamic lease" err))
        | none => releaseLoop mac ip n (i + 1) s

/-- `handleRelease`. -/
def handleRelease (s : V4Server) (req : Msg) : Option Handled :=
  match addrFromSlice req.targetIP with
  | none => some ⟨s, 1, {}, []⟩
  | some netIP => do
    let (s, err) ← releaseLoop req.clientHWAddr netIP s.leases.len 0 s
    match err with
    | some _ => return ⟨s, 0, {}, []⟩
    | none => return ⟨s, 1, { messageType := some .ack }, []⟩

/-! ### The machine -/

/-- `handle`. The options that `updateOptions` adds are left out. -/
def handle (nu : Netutil) (s : V4Server) (req : Msg) (env : Readings) : Option Handled := do
  let self ← s.serverIP
  match req.messageType with
  | .discover => s.handleDiscover req env
  | .request => s.handleRequest nu req self env
  | .decline => s.handleDecline req env
  | .release => s.handleRelease req
  | _ => return ⟨s, 1, {}, []⟩

/-- `packetHandler`, up to the sending of the reply: a message of another type or
with an invalid hardware address is dropped. -/
def packetHandler (nu : Netutil) (s : V4Server) (req : Msg) (env : Readings) : Option Handled :=
  match req.messageType with
  | .discover | .request | .decline | .release =>
    if (nu.validateMAC req.clientHWAddr).isSome then some ⟨s, -1, {}, []⟩
    else (s.handle nu req env).map fun h =>
      if h.rCode = 0 then { h with resp := { h.resp with messageType := some .nak } } else h
  | _ => some ⟨s, -1, {}, []⟩

/-- The calls a running server receives. -/
inductive Op where
  | addStaticLease (l : Lease)
  | updateStaticLease (l : Lease)
  | removeStaticLease (l : Lease)
  | resetLeases (leases : List Lease)
  | handle (req : Msg) (env : Readings)
  | packet (req : Msg) (env : Readings)

/-- What a call answers: the error of an administrator's call, or the outcome of
a message with the addresses blocklisted on the way. -/
inductive Answer where
  | admin (err : Option V4Err)
  | dhcp (rCode : Int) (resp : Response) (conflicts : List Conflict)
  deriving DecidableEq, Repr

def Handled.answer (h : Handled) : V4Server × Answer :=
  (h.server, .dhcp h.rCode h.resp h.conflicts)

def step (nu : Netutil) (s : V4Server) : Op → Option (V4Server × Answer)
  | .addStaticLease l => (s.addStaticLease nu l).map fun r => (r.1, .admin r.2)
  | .updateStaticLease l =>
    let r := s.updateStaticLease nu l
    some (r.1, .admin r.2)
  | .removeStaticLease l =>
    let r := s.removeStaticLease nu l
    some (r.1, .admin r.2)
  | .resetLeases leases => (s.resetLeases nu leases).map fun s => (s, .admin none)
  | .handle req env => (s.handle nu req env).map Handled.answer
  | .packet req env => (s.packetHandler nu req env).map Handled.answer

def Op.isReset : Op → Bool
  | .resetLeases _ => true
  | _ => false

/-! ### A small network -/

/-- `192.168.10.0/24` with three dynamic addresses from `192.168.10.100` on. -/
def smallConf : V4ServerConf :=
  { gatewayIP := .v4 0xC0A80A01, subnetMask := .v4 0xFFFFFF00, rangeStart := .v4 0xC0A80A64,
    rangeEnd := .v4 0xC0A80A66, icmpTimeout := 1000, dnsIPAddrs := [.v4 0xC0A80A02] }

/-- The address `192.168.10.n`. -/
def hostAddr (n : Nat) : Addr := .v4 (0xC0A80A00#32 + BitVec.ofNat 32 n)

/-- The hardware address of the `n`-th client. -/
def clientMAC (n : UInt8) : HardwareAddr := [2, 0, 0, 0, 0, n]

/-- One silent ping, with all clocks at `now`. -/
def quiet (now : Time) : Readings := ⟨[⟨now, true, now⟩], now⟩

end V4Server

end FirewallCore.Dhcpd
