import FirewallCore.Lib.BinarySearch
import FirewallCore.Net.Addr

/-!
Persistent clients (`client/persistent.go`): the data by which a client is
identified, its validation, and the order of subnets.

The settings of a client that neither identify it nor are validated are left
out. Parsing the upstream servers is done by another package; its error, if
any, is a parameter.
-/

namespace FirewallCore.Client

open FirewallCore.Net FirewallCore.Lib

/-- `UID`, by its sixteen bytes. -/
abbrev UID := BitVec 128

/-- `Persistent`. -/
structure Persistent where
  name : String
  tags : List String := []
  upstreams : List String := []
  ips : List Addr := []
  subnets : List Prefix := []
  macs : List HardwareAddr := []
  clientIDs : List String := []
  uid : UID
  deriving DecidableEq, Repr

/-- The errors of the client storage. -/
inductive ClientErr where
  /-- "empty name" -/
  | emptyName
  /-- "id required" -/
  | idRequired
  /-- "uid required" -/
  | uidRequired
  /-- "invalid upstream servers: %w" -/
  | invalidUpstreams (text : String)
  /-- "invalid tag: %q" -/
  | invalidTag (tag : String)
  /-- "another client %q uses the same uid" -/
  | sameUID (name : String)
  /-- "another client uses the same name %q" -/
  | sameName (name : String)
  /-- "another client %q uses the same ClientID %q" -/
  | sameClientID (name id : String)
  /-- "another client %q uses the same IP %q" -/
  | sameIP (name : String) (ip : Addr)
  /-- "another client %q uses the same subnet %q" -/
  | sameSubnet (name : String) (subnet : Prefix)
  /-- "another client %q uses the same MAC %q" -/
  | sameMAC (name : String) (mac : HardwareAddr)
  /-- "client %q is not found" -/
  | notFound (name : String)
  /-- The text of an `errors.Annotate` around another error. -/
  | annotated (text : String) (err : ClientErr)
  deriving DecidableEq, Repr

/-- `IDsLen`. -/
def Persistent.idsLen (c : Persistent) : Nat :=
  c.ips.length + c.subnets.length + c.macs.length + c.clientIDs.length

/-- `validate` returns the client with its tags sorted. `allTags` must be sorted. -/
def Persistent.validate (parseUpstreams : List String → Option String) (allTags : List String)
    (c : Persistent) : Except ClientErr Persistent :=
  if c.name = "" then .error .emptyName
  else if c.idsLen = 0 then .error .idRequired
  else if c.uid = 0 then .error .uidRequired
  else
    match parseUpstreams c.upstreams with
    | some text => .error (.invalidUpstreams text)
    | none =>
      match c.tags.find? fun t => !(binarySearchFunc allTags t compare).2 with
      | some t => .error (.invalidTag t)
      | none => .ok { c with tags := c.tags.mergeSort (· ≤ ·) }

/-- Validation leaves everything but the order of the tags as it is. -/
theorem Persistent.validate_ok {parseUpstreams : List String → Option String}
    {allTags : List String} {c c' : Persistent} (valid : c.validate parseUpstreams allTags = .ok c') :
    c' = { c with tags := c'.tags } ∧ c.uid ≠ 0 := by
  unfold validate at valid
  split at valid
  · cases valid
  split at valid
  · cases valid
  split at valid
  · cases valid
  rename_i uid
  split at valid
  · cases valid
  split at valid
  · cases valid
  · cases valid
    exact ⟨rfl, uid⟩

/-! ### The order of subnets -/

/-- `Prefix.Bits`, which is `-1` for an invalid prefix. -/
def prefixBits (p : Prefix) : Int :=
  match p.bits with
  | some b => b
  | none => -1

/-- `subnetCompare`: longer prefixes come first, and equally long ones by address. -/
def subnetCompare (x y : Prefix) : Ordering :=
  if x = y then .eq
  else if prefixBits x = prefixBits y then x.addr.compare y.addr
  else if prefixBits y < prefixBits x then .lt else .gt

/-- The number in an address, and its zone. -/
def addrValue : Addr → Nat
  | .zero => 0
  | .v4 n => n.toNat
  | .v6 n _ => n.toNat

def addrZone : Addr → String
  | .v6 _ zone => zone
  | _ => ""

/-- `Addr.Compare` is lexicographic. -/
theorem addrCompare_eq : Addr.compare =
    compareLex (compareOn Addr.bitLen) (compareLex (compareOn addrValue) (compareOn addrZone)) := by
  funext a b
  cases a <;> cases b <;> first
    | rfl
    | simp [Addr.compare, compareLex, compareOn, Addr.bitLen, addrValue, addrZone,
        Std.ReflCmp.compare_self]

instance : Std.TransCmp Addr.compare := by
  rw [addrCompare_eq]
  infer_instance

instance : Std.LawfulEqCmp Addr.compare where
  compare_self := by
    intro a
    rw [addrCompare_eq]
    exact Std.ReflCmp.compare_self
  eq_of_compare := by
    intro a b same
    rw [addrCompare_eq] at same
    simp only [compareLex_eq_eq, compareOn, Std.LawfulEqOrd.compare_eq_iff_eq] at same
    obtain ⟨len, value, zone⟩ := same
    cases a <;> cases b <;> simp_all [Addr.bitLen, addrValue, addrZone, BitVec.toNat_inj]

instance : Ord Addr := ⟨Addr.compare⟩

instance : Std.TransOrd Addr := inferInstanceAs (Std.TransCmp Addr.compare)

instance : Std.LawfulEqOrd Addr := inferInstanceAs (Std.LawfulEqCmp Addr.compare)

/-- Subnets are ordered by falling length, then by address. -/
theorem subnetCompare_eq : subnetCompare =
    compareLex (compareOn fun p => -prefixBits p) (compareOn Prefix.addr) := by
  funext x y
  unfold subnetCompare compareLex compareOn
  dsimp only
  split
  · rename_i same
    subst same
    simp [Std.ReflCmp.compare_self]
  split
  · rename_i bits
    have level : compare (-prefixBits x) (-prefixBits y) = .eq := by
      rw [bits]
      exact Std.ReflOrd.compare_self
    rw [level]
    rfl
  split
  · rename_i longer
    have first : compare (-prefixBits x) (-prefixBits y) = .lt := by
      rw [Int.compare_eq_lt]
      omega
    rw [first]
    rfl
  · have last : compare (-prefixBits x) (-prefixBits y) = .gt := by
      rw [Int.compare_eq_gt]
      omega
    rw [last]
    rfl

instance : Std.TransCmp subnetCompare := by
  rw [subnetCompare_eq]
  infer_instance

theorem prefixBits_inj {x y : Prefix} (same : prefixBits x = prefixBits y) : x.bits = y.bits := by
  unfold prefixBits at same
  cases hx : x.bits with
  | none =>
    cases hy : y.bits with
    | none => rfl
    | some b =>
      simp only [hx, hy] at same
      omega
  | some a =>
    cases hy : y.bits with
    | none =>
      simp only [hx, hy] at same
      omega
    | some b =>
      simp only [hx, hy, Int.natCast_inj] at same
      rw [same]

instance : Std.LawfulEqCmp subnetCompare where
  compare_self := by
    intro p
    simp [subnetCompare]
  eq_of_compare := by
    intro x y same
    rw [subnetCompare_eq, compareLex_eq_eq] at same
    obtain ⟨bits, addr⟩ := same
    have bits : prefixBits x = prefixBits y := by
      simp only [compareOn, Std.LawfulEqOrd.compare_eq_iff_eq] at bits
      omega
    have addr : x.addr = y.addr := Std.LawfulEqCmp.eq_of_compare addr
    cases x
    cases y
    simp only [Prefix.mk.injEq]
    exact ⟨addr, prefixBits_inj bits⟩

end FirewallCore.Client
