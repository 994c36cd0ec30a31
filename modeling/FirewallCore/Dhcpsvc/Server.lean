import FirewallCore.Net.Addr
import Mathlib.Logic.Function.Basic

/-!
The leases of the DHCP service (`dhcpsvc`): the interfaces with their leases by
MAC, the index of all leases by address and by name, and the calls of the
server that change them.

A lease is stored as the value the caller has passed. `strings.ToLower` is a
parameter. The file the leases are stored in is not modelled: whether writing it
fails is an input of each call, and the leases read from it at the start are
those that could be converted.
-/

namespace FirewallCore.Dhcpsvc

open FirewallCore.Net

/-- `Lease`; the expiry is in nanoseconds. -/
structure Lease where
  ip : Addr
  expiry : Int := 0
  hostname : String
  hwAddr : HardwareAddr
  isStatic : Bool := false
  deriving DecidableEq, Repr

/-- The errors of the service. -/
inductive SvcErr where
  /-- "no interface for ip %s" -/
  | noInterface (ip : Addr)
  /-- "lease for ip %s already exists" -/
  | ipExists (ip : Addr)
  /-- "lease for hostname %s already exists" -/
  | hostnameExists (hostname : String)
  /-- "lease for mac %s already exists" -/
  | macExists (mac : HardwareAddr)
  /-- "no lease for ip %s" -/
  | noIP (ip : Addr)
  /-- "no lease for hostname %s" -/
  | noHostname (hostname : String)
  /-- "no lease for mac %s" -/
  | noMAC (mac : HardwareAddr)
  /-- The error of writing the file. -/
  | file (text : String)
  /-- The text of an `errors.Annotate` around another error. -/
  | annotated (text : String) (err : SvcErr)
  deriving DecidableEq, Repr

/-! ### Interfaces -/

/-- `netInterface`. -/
structure NetInterface where
  leases : HardwareAddr → Option Lease

namespace NetInterface

/-- `reset`. -/
def reset (_ : NetInterface) : NetInterface := ⟨fun _ => none⟩

/-- `addLease`. An error leaves the interface as it was, here and below, and `none` is
a panic. -/
def addLease (iface : NetInterface) (l : Lease) : Option (Except SvcErr NetInterface) := do
  let mk ← macToKey l.hwAddr
  match iface.leases mk with
  | some _ => return .error (.macExists l.hwAddr)
  | none => return .ok ⟨Function.update iface.leases mk (some l)⟩

/-- `updateLease`, with the lease it replaces. -/
def updateLease (iface : NetInterface) (l : Lease) :
    Option (Except SvcErr (NetInterface × Lease)) := do
  let mk ← macToKey l.hwAddr
  match iface.leases mk with
  | none => return .error (.noMAC l.hwAddr)
  | some prev => return .ok (⟨Function.update iface.leases mk (some l)⟩, prev)

/-- `removeLease`. -/
def removeLease (iface : NetInterface) (l : Lease) : Option (Except SvcErr NetInterface) := do
  let mk ← macToKey l.hwAddr
  match iface.leases mk with
  | none => return .error (.noMAC l.hwAddr)
  | some _ => return .ok ⟨Function.update iface.leases mk none⟩

end NetInterface

/-- `dhcpInterfaceV4`. -/
structure DHCPInterfaceV4 where
  common : NetInterface
  subnet : Prefix

/-- `dhcpInterfaceV6`. -/
structure DHCPInterfaceV6 where
  common : NetInterface
  rangeStart : Addr

/-- `dhcpInterfacesV4.find`, as a position. -/
def find4 (ifaces : List DHCPInterfaceV4) (ip : Addr) : Option Nat :=
  ifaces.findIdx? fun iface => iface.subnet.contains ip

/-- `dhcpInterfacesV6.find`, as a position. -/
def find6 (ifaces : List DHCPInterfaceV6) (ip : Addr) : Option Nat :=
  ifaces.findIdx? fun iface =>
    !ip.less iface.rangeStart && (Prefix.ofAddr iface.rangeStart (128 - 8)).contains ip

/-! ### The index -/

/-- `leaseIndex`. -/
structure LeaseIndex where
  byAddr : Addr → Option Lease
  byName : String → Option Lease

namespace LeaseIndex

variable (lower : String → String)

/-- `newLeaseIndex`, and what `clear` leaves. -/
def new : LeaseIndex := ⟨fun _ => none, fun _ => none⟩

/-- `add`. -/
def add (idx : LeaseIndex) (l : Lease) (iface : NetInterface) :
    Option (Except SvcErr (LeaseIndex × NetInterface)) :=
  let loweredName := lower l.hostname
  if (idx.byAddr l.ip).isSome then some (.error (.ipExists l.ip))
  else if (idx.byName loweredName).isSome then some (.error (.hostnameExists l.hostname))
  else do
    match ← iface.addLease l with
    | .error err => return .error err
    | .ok iface =>
      return .ok (⟨Function.update idx.byAddr l.ip (some l),
        Function.update idx.byName loweredName (some l)⟩, iface)

/-- `remove`. -/
def remove (idx : LeaseIndex) (l : Lease) (iface : NetInterface) :
    Option (Except SvcErr (LeaseIndex × NetInterface)) :=
  let loweredName := lower l.hostname
  if (idx.byAddr l.ip).isNone then some (.error (.noIP l.ip))
  else if (idx.byName loweredName).isNone then some (.error (.noHostname l.hostname))
  else do
    match ← iface.removeLease l with
    | .error err => return .error err
    | .ok iface =>
      return .ok (⟨Function.update idx.byAddr l.ip none,
        Function.update idx.byName loweredName none⟩, iface)

/-- `update`. -/
def update (idx : LeaseIndex) (l : Lease) (iface : NetInterface) :
    Option (Except SvcErr (LeaseIndex × NetInterface)) :=
  let loweredName := lower l.hostname
  if (idx.byAddr l.ip).any fun existing => l.hwAddr != existing.hwAddr then
    some (.error (.ipExists l.ip))
  else if (idx.byName loweredName).any fun existing => l.hwAddr != existing.hwAddr then
    some (.error (.hostnameExists l.hostname))
  else do
    match ← iface.updateLease l with
    | .error err => return .error err
    | .ok (iface, prev) =>
      let byAddr := Function.update idx.byAddr prev.ip none
      let byName := Function.update idx.byName (lower prev.hostname) none
      return .ok (⟨Function.update byAddr l.ip (some l),
        Function.update byName loweredName (some l)⟩, iface)

/-- `leaseByAddr`. -/
def leaseByAddr (idx : LeaseIndex) (addr : Addr) : Option Lease := idx.byAddr addr

/-- `leaseByName`. -/
def leaseByName (idx : LeaseIndex) (name : String) : Option Lease := idx.byName (lower name)

end LeaseIndex

/-! ### The server -/

/-- `DHCPServer`. -/
structure DHCPServer where
  leases : LeaseIndex
  interfaces4 : List DHCPInterfaceV4
  interfaces6 : List DHCPInterfaceV6

/-- A `*netInterface` of a server: its family and its position there. -/
inductive IfaceRef where
  | v4 (i : Nat)
  | v6 (i : Nat)
  deriving DecidableEq, Repr

namespace DHCPServer

/-- The interface behind a reference. -/
def iface (srv : DHCPServer) : IfaceRef → Option NetInterface
  | .v4 i => srv.interfaces4[i]?.map (·.common)
  | .v6 i => srv.interfaces6[i]?.map (·.common)

/-- Stores a changed interface. -/
def setIface (srv : DHCPServer) (iface : NetInterface) : IfaceRef → DHCPServer
  | .v4 i => { srv with interfaces4 := srv.interfaces4.modify i fun x => { x with common := iface } }
  | .v6 i => { srv with interfaces6 := srv.interfaces6.modify i fun x => { x with common := iface } }

/-- The interface responsible for an address. -/
def responsible (srv : DHCPServer) (addr : Addr) : Option IfaceRef :=
  if addr.is4 then (find4 srv.interfaces4 addr).map .v4
  else (find6 srv.interfaces6 addr).map .v6

/-- `ifaceForAddr`. -/
def ifaceForAddr (srv : DHCPServer) (addr : Addr) : Except SvcErr (IfaceRef × NetInterface) :=
  match (srv.responsible addr).bind fun r => (srv.iface r).map fun iface => (r, iface) with
  | some iface => .ok iface
  | none => .error (.noInterface addr)

/-- `resetLeases`. -/
def resetLeases (srv : DHCPServer) : DHCPServer :=
  { leases := .new
    interfaces4 := srv.interfaces4.map fun x => { x with common := x.common.reset }
    interfaces6 := srv.interfaces6.map fun x => { x with common := x.common.reset } }

/-- The common part of `AddLease`, `UpdateStaticLease` and `RemoveLease`. `stored` is the
error of writing the file, if any. -/
def changeLease (text : String)
    (change : LeaseIndex → Lease → NetInterface → Option (Except SvcErr (LeaseIndex × NetInterface)))
    (srv : DHCPServer) (l : Lease) (stored : Option String) :
    Option (DHCPServer × Option SvcErr) :=
  match srv.ifaceForAddr l.ip with
  | .error err => some (srv, some (.annotated text err))
  | .ok (r, iface) => do
    match ← change srv.leases l iface with
    | .error err => return (srv, some (.annotated text err))
    | .ok (leases, iface) =>
      return ({ srv.setIface iface r with leases := leases },
        stored.map fun err => .annotated text (.annotated "writing db" (.file err)))

/-- `AddLease`. -/
def addLease (lower : String → String) : DHCPServer → Lease → Option String →
    Option (DHCPServer × Option SvcErr) :=
  changeLease "adding lease" (LeaseIndex.add lower)

/-- `UpdateStaticLease`. -/
def updateStaticLease (lower : String → String) : DHCPServer → Lease → Option String →
    Option (DHCPServer × Option SvcErr) :=
  changeLease "updating static lease" (LeaseIndex.update lower)

/-- `RemoveLease`. -/
def removeLease (lower : String → String) : DHCPServer → Lease → Option String →
    Option (DHCPServer × Option SvcErr) :=
  changeLease "removing lease" (LeaseIndex.remove lower)

/-- `Reset`. -/
def reset (srv : DHCPServer) (stored : Option String) : DHCPServer × Option SvcErr :=
  (srv.resetLeases, stored.map fun err =>
    .annotated "resetting leases" (.annotated "writing db" (.file err)))

/-- `addDBLeases`, for the leases that could be converted. A lease that cannot be added
is skipped. -/
def addDBLeases (lower : String → String) (srv : DHCPServer) : List Lease → Option DHCPServer
  | [] => some srv
  | l :: rest => do
    match srv.ifaceForAddr l.ip with
    | .error _ => srv.addDBLeases lower rest
    | .ok (r, iface) =>
      match ← srv.leases.add lower l iface with
      | .error _ => srv.addDBLeases lower rest
      | .ok (leases, iface) =>
        DHCPServer.addDBLeases lower { srv.setIface iface r with leases := leases } rest

/-- `dbLoad`, with the converted leases of the file. -/
def dbLoad (lower : String → String) (srv : DHCPServer) (db : List Lease) : Option DHCPServer :=
  srv.resetLeases.addDBLeases lower db

/-- A server with the given IPv4 subnets and starts of IPv6 ranges and without leases. -/
def ofInterfaces (subnets : List Prefix) (starts : List Addr) : DHCPServer :=
  { leases := .new
    interfaces4 := subnets.map fun subnet => ⟨⟨fun _ => none⟩, subnet⟩
    interfaces6 := starts.map fun start => ⟨⟨fun _ => none⟩, start⟩ }

/-- `HostByIP`. -/
def hostByIP (srv : DHCPServer) (ip : Addr) : String :=
  match srv.leases.leaseByAddr ip with
  | some l => l.hostname
  | none => ""

/-- `MACByIP`; `nil` has no bytes. -/
def macByIP (srv : DHCPServer) (ip : Addr) : HardwareAddr :=
  match srv.leases.leaseByAddr ip with
  | some l => l.hwAddr
  | none => []

/-- `IPByHost`. -/
def ipByHost (lower : String → String) (srv : DHCPServer) (host : String) : Addr :=
  match srv.leases.leaseByName lower host with
  | some l => l.ip
  | none => .zero

/-- The calls that change the leases. -/
inductive Op where
  | addLease (l : Lease) (stored : Option String)
  | updateStaticLease (l : Lease) (stored : Option String)
  | removeLease (l : Lease) (stored : Option String)
  | reset (stored : Option String)

def step (lower : String → String) (srv : DHCPServer) : Op → Option (DHCPServer × Option SvcErr)
  | .addLease l stored => srv.addLease lower l stored
  | .updateStaticLease l stored => srv.updateStaticLease lower l stored
  | .removeLease l stored => srv.removeLease lower l stored
  | .reset stored => some (srv.reset stored)

end DHCPServer

end FirewallCore.Dhcpsvc
