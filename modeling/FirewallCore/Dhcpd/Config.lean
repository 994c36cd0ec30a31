import FirewallCore.Net.Addr
import Mathlib.Data.List.Basic

/-!
Leases, the dynamic address range and the validated configuration of the DHCP
servers (`dhcpsvc/lease.go`, `dhcpd/iprange.go`, `dhcpd/config.go`).

Only the configuration fields that the modelled functions read are kept. The
interface name, the custom options, the broadcast address and the notification
callback are left out.
-/

namespace FirewallCore.Dhcpd

open FirewallCore.Net

/-- Nanoseconds since the zero `time.Time`. -/
abbrev Time := Int

/-- `time.Duration`, in nanoseconds. -/
abbrev Duration := Int

def second : Duration := 1000000000

def day : Duration := 86400 * second

/-- `dhcpsvc.Lease`. -/
structure Lease where
  ip : Addr
  expiry : Time := 0
  hostname : String := ""
  hwAddr : HardwareAddr := []
  isStatic : Bool := false
  deriving DecidableEq, Repr

/-! ### The range of dynamic addresses -/

/-- `ipRange`, by the big-endian numbers of its first and last address. -/
structure IPRange where
  start : Nat
  stop : Nat
  deriving DecidableEq, Repr

/-- The maximum range length; the bit sets of the servers take 32-bit offsets. -/
def maxRangeLen : Nat := 2 ^ 32 - 1

inductive RangeErr where
  | startNotBelowEnd
  | tooLarge
  deriving DecidableEq, Repr

def newIPRange (start stop : Addr) : Except RangeErr IPRange :=
  if stop.as16 ≤ start.as16 then .error .startNotBelowEnd
  else if maxRangeLen < stop.as16 - start.as16 then .error .tooLarge
  else .ok ⟨start.as16, stop.as16⟩

namespace IPRange

def containsInt (r : IPRange) (ip : Nat) : Bool := r.start ≤ ip && ip ≤ r.stop

/-- The offset of an address from the beginning of the range, and whether it is
in the range at all. -/
def offset (r : IPRange) (ip : Nat) : Nat × Bool :=
  if r.containsInt ip then (ip - r.start, true) else (0, false)

/-- `find` returns the first address of the range for which `p` holds. -/
def find (r : IPRange) (p : Nat → Bool) : Option Nat :=
  (List.range' r.start (r.stop + 1 - r.start)).find? p

theorem offset_eq_true {r : IPRange} {ip o : Nat} :
    r.offset ip = (o, true) ↔ ip = r.start + o ∧ ip ≤ r.stop := by
  unfold offset containsInt
  split
  · rename_i inside
    simp only [Bool.and_eq_true, decide_eq_true_eq] at inside
    simp only [Prod.mk.injEq, and_true]
    omega
  · rename_i outside
    simp only [Bool.and_eq_true, decide_eq_true_eq] at outside
    simp only [Prod.mk.injEq, Bool.false_eq_true, and_false, false_iff]
    omega

theorem offset_eq_false {r : IPRange} {ip o : Nat}
    (h : r.offset ip = (o, false)) : o = 0 := by
  unfold offset at h
  split at h
  · simp at h
  · simpa using h.symm

theorem find_eq_some {r : IPRange} {p : Nat → Bool} {i : Nat} (h : r.find p = some i) :
    r.start ≤ i ∧ i ≤ r.stop ∧ p i = true := by
  have member := List.mem_range'.mp (List.mem_of_find?_eq_some h)
  obtain ⟨k, bound, rfl⟩ := member
  exact ⟨by omega, by omega, List.find?_some h⟩

theorem find_eq_none {r : IPRange} {p : Nat → Bool} (h : r.find p = none) {i : Nat}
    (low : r.start ≤ i) (high : i ≤ r.stop) : p i = false := by
  have absent := List.find?_eq_none.mp h i (List.mem_range'.mpr ⟨i - r.start, by omega, by omega⟩)
  simpa using absent

end IPRange

/-! ### The configuration of the DHCPv4 server -/

/-- `V4ServerConf`. A nil `*ipRange` is `none`. -/
structure V4ServerConf where
  enabled : Bool := true
  gatewayIP : Addr := .zero
  subnetMask : Addr := .zero
  rangeStart : Addr := .zero
  rangeEnd : Addr := .zero
  leaseDuration : BitVec 32 := 0
  icmpTimeout : BitVec 32 := 0
  ipRange : Option IPRange := none
  leaseTime : Duration := 0
  dnsIPAddrs : List Addr := []
  subnet : Prefix := .zero
  deriving DecidableEq, Repr

inductive ConfErr where
  | notIPv4 (ip : Addr) (kind : String)
  | badRange (err : RangeErr)
  | gatewayInRange (gateway : Addr)
  | rangeStartOutside (ip : Addr) (subnet : Prefix)
  | rangeEndOutside (ip : Addr) (subnet : Prefix)
  deriving DecidableEq, Repr

/-- `ensureV4` returns an unmapped version of `ip`. -/
def ensureV4 (ip : Addr) (kind : String) : Except ConfErr (BitVec 32) :=
  match ip.unmap with
  | .v4 n => .ok n
  | _ => .error (.notIPv4 ip kind)

/-- `Validate` checks the configuration and fills in `subnet` and `ipRange`. -/
def V4ServerConf.validate (c : V4ServerConf) : Except ConfErr V4ServerConf := do
  let gatewayIP ← ensureV4 c.gatewayIP "address"
  let subnetMask ← ensureV4 c.subnetMask "subnet mask"
  let subnet := Prefix.ofAddr (.v4 gatewayIP) (maskSize subnetMask)
  let rangeStart ← ensureV4 c.rangeStart "address"
  let rangeEnd ← ensureV4 c.rangeEnd "address"
  let ipRange ← (newIPRange (.v4 rangeStart) (.v4 rangeEnd)).mapError .badRange
  if ipRange.containsInt (Addr.v4 gatewayIP).as16 then
    throw (.gatewayInRange (.v4 gatewayIP))
  if !subnet.contains (.v4 rangeStart) then
    throw (.rangeStartOutside (.v4 rangeStart) subnet)
  if !subnet.contains (.v4 rangeEnd) then
    throw (.rangeEndOutside (.v4 rangeEnd) subnet)
  return { c with subnet := subnet, ipRange := some ipRange }

end FirewallCore.Dhcpd

/-!
Hostnames of DHCP clients: `normalizeHostname` and `validHostnameForClient` of
`v4_unix.go` and `GenerateHostname` of `aghnet/hostgen.go`.

The validation functions of package `netutil` and the Unicode case table are
not part of the repository. They are the fields of a `Netutil`, over which the
servers are parametrised.
-/

namespace FirewallCore.Dhcpd

open FirewallCore.Net

/-- What the servers import from elsewhere. The validators return the text of
their error, and `none` for a valid argument. -/
structure Netutil where
  /-- `unicode.ToLower`. -/
  toLower : Char → Char
  isValidHostOuterRune : Char → Bool
  validateHostname : String → Option String
  validateMAC : HardwareAddr → Option String

/-- A label of a hostname: letters, digits and inner hyphens, at most 63 of them. -/
def validLabel (label : List Char) : Bool :=
  !label.isEmpty && label.length ≤ 63 && label.all (fun c => c.isAlphanum || c == '-') &&
    label.head? != some '-' && label.getLast? != some '-'

/-- The documented behaviour of these functions on ASCII arguments. -/
def Netutil.ascii : Netutil where
  toLower := Char.toLower
  isValidHostOuterRune := Char.isAlphanum
  validateHostname name :=
    let labels := name.toList.splitOn '.'
    if 253 < name.length then some "name is too long"
    else if !labels.all validLabel then some "bad hostname label"
    else if labels.getLast?.any (·.all Char.isDigit) then some "bad top-level domain"
    else none
  validateMAC mac := if mac.length ∈ [6, 8, 20] then none else some "bad mac address length"

/-- `strings.ToLower`. -/
def Netutil.lower (nu : Netutil) (s : String) : String := String.ofList (s.toList.map nu.toLower)

/-- `strings.FieldsFunc`: the maximal runs of characters that `sep` rejects. -/
def fieldsFunc (sep : Char → Bool) (s : List Char) : List (List Char) :=
  (s.splitOnP sep).filter (! ·.isEmpty)

/-- `strings.TrimSuffix(s, "-")`. -/
def trimHyphen (s : List Char) : List Char := if s.getLast? = some '-' then s.dropLast else s

/-- `normalizeHostname`; the error is the input that has no valid parts. -/
def normalizeHostname (nu : Netutil) (hostname : String) : Except String String :=
  if hostname = "" then .ok ""
  else
    let parts := fieldsFunc (fun c => c != '.' && !nu.isValidHostOuterRune c)
      (nu.lower hostname).toList
    if parts.isEmpty then .error hostname
    else .ok (String.ofList (trimHyphen (List.intercalate ['-'] parts)))

/-- One 16-bit group of an expanded IPv6 address. -/
def hexGroup (n : Nat) : String := String.ofList ((Nat.toDigits 16 (n % 2 ^ 16)).leftpad 4 '0')

/-- `GenerateHostname`; `none` is the panic on an invalid address. -/
def generateHostname (ip : Addr) : Option String :=
  match ip.unmap with
  | .zero => none
  | .v4 n => some ("-".intercalate
      ([24, 16, 8, 0].map fun sh => Nat.repr (n.toNat / 2 ^ sh % 256)))
  | .v6 n zone => some ("-".intercalate
      ([112, 96, 80, 64, 48, 32, 16, 0].map fun sh => hexGroup (n.toNat / 2 ^ sh)) ++
        if zone = "" then "" else "%" ++ zone)

/-- `validHostnameForClient` returns a normalized version of the hostname the
client sent, or one generated from its address, or an empty string. -/
def validHostnameForClient (nu : Netutil) (cliHostname : String) (ip : Addr) : Option String := do
  let normalized := match normalizeHostname nu cliHostname with
    | .ok name => name
    | .error _ => ""
  let hostname ← if normalized = "" then generateHostname ip else some normalized
  return if (nu.validateHostname hostname).isSome then "" else hostname

end FirewallCore.Dhcpd
