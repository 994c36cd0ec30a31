import FirewallCore.Lib.Strings
import Mathlib.Data.BitVec

/-!
IP addresses as the Go standard library has them: `netip.Addr` and
`netip.Prefix` values, and the older `net.IP` byte slices that DHCP messages
carry.

An `Addr` is compared with `==` by the servers and used as a map key, so the
three shapes it can take (the invalid zero value, a 32-bit and a 128-bit
address, the latter with its zone) are kept apart: `::ffff:1.2.3.4` and
`1.2.3.4` are different addresses until `unmap`. An `IP` is a byte slice and is
classified by its length, the only thing its methods look at first.
-/

namespace FirewallCore.Net

/-- `net.HardwareAddr`. -/
abbrev HardwareAddr := List UInt8

/-- `copy(dst, src)`, as the new contents of `dst`. -/
def goCopy (dst src : HardwareAddr) : HardwareAddr := src.take dst.length ++ dst.drop src.length

/-- `macToKey`, which the client storage and the DHCP service both have: the bytes of
a MAC of 6, 8 or 20 bytes. Other lengths are a panic. -/
def macToKey (mac : HardwareAddr) : Option HardwareAddr :=
  if mac.length ∈ [6, 8, 20] then some mac else none

theorem macToKey_some {mac k : HardwareAddr} (done : macToKey mac = some k) : k = mac := by
  unfold macToKey at done
  split at done
  · exact (Option.some.inj done).symm
  · cases done

/-- `netip.Addr`. -/
inductive Addr where
  | zero
  | v4 (n : BitVec 32)
  | v6 (n : BitVec 128) (zone : String)
  deriving DecidableEq, Repr

/-- The upper 96 bits of an IPv4-mapped IPv6 address. -/
def mappedHigh : Nat := 0xffff

namespace Addr

def isValid : Addr → Bool
  | zero => false
  | _ => true

def is4 : Addr → Bool
  | v4 _ => true
  | _ => false

def is6 : Addr → Bool
  | v6 _ _ => true
  | _ => false

/-- `Unmap` removes the IPv4-mapped prefix, and with it the zone. -/
def unmap : Addr → Addr
  | v6 n zone => if n.toNat / 2 ^ 32 = mappedHigh then v4 (n.setWidth 32) else v6 n zone
  | a => a

def bitLen : Addr → Nat
  | zero => 0
  | v4 _ => 32
  | v6 _ _ => 128

def withoutZone : Addr → Addr
  | v6 n _ => v6 n ""
  | a => a

/-- `As16`, read as a big-endian number. The zero `Addr` is all zeroes. -/
def as16 : Addr → Nat
  | zero => 0
  | v4 n => mappedHigh * 2 ^ 32 + n.toNat
  | v6 n _ => n.toNat

/-- `Compare` orders by bit length, then by value, then by zone. -/
def compare (a b : Addr) : Ordering :=
  (Ord.compare a.bitLen b.bitLen).then <|
    match a, b with
    | v4 x, v4 y => Ord.compare x.toNat y.toNat
    | v6 x zx, v6 y zy => (Ord.compare x.toNat y.toNat).then (Ord.compare zx zy)
    | _, _ => .eq

def less (a b : Addr) : Bool := a.compare b == .lt

/-- IPv4 addresses are told apart by their 16-byte form. -/
theorem as16_v4_inj {m n : BitVec 32} (h : (v4 m).as16 = (v4 n).as16) : m = n := by
  simp only [as16, Nat.add_left_cancel_iff] at h
  exact BitVec.eq_of_toNat_eq h

end Addr

/-- `net.IP`: `nil`, a 4-byte slice, a 16-byte slice, or a slice of any other
length, which every method rejects. -/
inductive IP where
  | nil
  | four (n : BitVec 32)
  | sixteen (n : BitVec 128)
  | other (bytes : List UInt8)
  deriving DecidableEq, Repr

namespace IP

def isNil : IP → Bool
  | nil => true
  | _ => false

/-- `To4`: the 4-byte form of an IPv4 or IPv4-mapped address. -/
def to4 : IP → Option (BitVec 32)
  | four n => some n
  | sixteen n => if n.toNat / 2 ^ 32 = mappedHigh then some (n.setWidth 32) else none
  | _ => none

/-- `To16`, as a big-endian number. -/
def to16 : IP → Option Nat
  | four n => some (mappedHigh * 2 ^ 32 + n.toNat)
  | sixteen n => some n.toNat
  | _ => none

/-- `Equal` identifies an IPv4 address with its mapped form. -/
def equal (a b : IP) : Bool :=
  match a.to16, b.to16 with
  | some x, some y => x == y
  | none, none => a == b
  | _, _ => false

/-- `IsUnspecified`: `0.0.0.0` in either form, or `::`. -/
def isUnspecified (ip : IP) : Bool :=
  ip.equal (four 0) || ip.equal (sixteen 0)

end IP

/-- `netip.AddrFromSlice`. -/
def addrFromSlice : IP → Option Addr
  | .four n => some (.v4 n)
  | .sixteen n => some (.v6 n "")
  | _ => none

/-- `Addr.AsSlice`. -/
def Addr.asSlice : Addr → IP
  | zero => .nil
  | v4 n => .four n
  | v6 n _ => .sixteen n

/-- `netip.Prefix`; `bits` is `none` for an invalid prefix. -/
structure Prefix where
  addr : Addr
  bits : Option Nat
  deriving DecidableEq, Repr

namespace Prefix

def zero : Prefix := ⟨.zero, none⟩

/-- `PrefixFrom` keeps the address but drops its zone; a length that does not
fit the address makes the prefix invalid. -/
def ofAddr (a : Addr) (bits : Nat) : Prefix :=
  ⟨a.withoutZone, if a.isValid ∧ bits ≤ a.bitLen then some bits else none⟩

/-- `Contains`: an address of the other family, a mapped address or one with a
zone is in no prefix. -/
def contains (p : Prefix) (ip : Addr) : Bool :=
  match p.bits, p.addr, ip with
  | some b, .v4 a, .v4 x => (a ^^^ x) >>> (32 - b) == 0#32
  | some b, .v6 a _, .v6 x zone => zone == "" && (a ^^^ x) >>> (128 - b) == 0#128
  | _, _, _ => false

/-- An IPv4 prefix contains IPv4 addresses only. -/
theorem is4_of_contains {a : BitVec 32} {bits : Option Nat} {ip : Addr}
    (h : (Prefix.mk (.v4 a) bits).contains ip = true) : ip.is4 = true := by
  unfold contains at h
  cases ip with
  | v4 n => rfl
  | zero => cases bits <;> simp at h
  | v6 n zone => cases bits <;> simp at h

end Prefix

/-- `net.IPMask.Size` for a 4-byte mask: the number of leading ones, or zero when
the mask is not ones followed by zeroes. -/
def maskSize (mask : BitVec 32) : Nat :=
  ((List.range 33).find? fun k => BitVec.allOnes 32 <<< (32 - k) == mask).getD 0

end FirewallCore.Net

/-!
The text of hardware addresses: `HardwareAddr.String` and `net.ParseMAC`.
-/

namespace FirewallCore.Net

open FirewallCore.Lib

/-- `HardwareAddr.String`: two lower-case digits a byte, separated by colons. -/
def macChars : HardwareAddr → List Char
  | [] => []
  | [b] => [Nat.digitChar (b.toNat / 16), Nat.digitChar (b.toNat % 16)]
  | b :: rest => Nat.digitChar (b.toNat / 16) :: Nat.digitChar (b.toNat % 16) :: ':' :: macChars rest

/-- `HardwareAddr.String`. -/
def macString (mac : HardwareAddr) : String := String.ofList (macChars mac)

/-- `xtoi2`: the byte of two hexadecimal digits. -/
def readByte (a b : Char) : Option UInt8 := do
  let high ← hexVal a
  let low ← hexVal b
  return UInt8.ofNat (16 * high + low)

/-- Pairs of digits between separators. -/
def readPairs (sep : Char) : List Char → Option HardwareAddr
  | [a, b] => (readByte a b).map fun x => [x]
  | a :: b :: c :: rest =>
    if c = sep then do
      let x ← readByte a b
      let later ← readPairs sep rest
      return x :: later
    else none
  | _ => none

/-- Groups of four digits between dots. -/
def readQuads : List Char → Option HardwareAddr
  | [a, b, c, d] => do
    let x ← readByte a b
    let y ← readByte c d
    return [x, y]
  | a :: b :: c :: d :: e :: rest =>
    if e = '.' then do
      let x ← readByte a b
      let y ← readByte c d
      let later ← readQuads rest
      return x :: y :: later
    else none
  | _ => none

/-- An address of 6, 8 or 20 bytes. -/
def ofValidLength (mac : HardwareAddr) : Option HardwareAddr :=
  if mac.length ∈ [6, 8, 20] then some mac else none

/-- `net.ParseMAC`. The text has pairs of digits after colons or hyphens, or groups of four
after dots. -/
def parseMACChars (s : List Char) : Option HardwareAddr :=
  if s.length < 14 then none
  else if s[2]? = some ':' then (readPairs ':' s).bind ofValidLength
  else if s[2]? = some '-' then (readPairs '-' s).bind ofValidLength
  else if s[4]? = some '.' then (readQuads s).bind ofValidLength
  else none

def parseMAC (s : String) : Option HardwareAddr := parseMACChars s.toList

theorem readByte_digits (b : UInt8) :
    readByte (Nat.digitChar (b.toNat / 16)) (Nat.digitChar (b.toNat % 16)) = some b := by
  have small := b.toNat_lt
  rw [readByte, hexVal_digitChar (by omega), hexVal_digitChar (by omega)]
  simp only [Option.bind_eq_bind, Option.bind_some, Nat.div_add_mod]
  exact congrArg some (UInt8.ofNat_toNat)

theorem readPairs_macChars {mac : HardwareAddr} (nonempty : mac ≠ []) :
    readPairs ':' (macChars mac) = some mac := by
  induction mac with
  | nil => exact absurd rfl nonempty
  | cons b rest ih =>
    cases rest with
    | nil => simp only [macChars, readPairs, readByte_digits, Option.map_some]
    | cons c rest =>
      have later := ih (by simp)
      simp only [macChars, readPairs, if_true, readByte_digits, Option.bind_eq_bind,
        Option.bind_some]
      cases rest with
      | nil =>
        simp only [macChars] at later ⊢
        rw [later]
        rfl
      | cons d rest =>
        simp only [macChars] at later ⊢
        rw [later]
        rfl

theorem length_macChars {mac : HardwareAddr} (nonempty : mac ≠ []) :
    (macChars mac).length + 1 = 3 * mac.length := by
  induction mac with
  | nil => exact absurd rfl nonempty
  | cons b rest ih =>
    cases rest with
    | nil => rfl
    | cons c rest =>
      have later := ih (by simp)
      simp only [macChars, List.length_cons] at later ⊢
      omega

/-- What is written is read back. -/
theorem parseMAC_macString {mac : HardwareAddr} (valid : mac.length ∈ [6, 8, 20]) :
    parseMAC (macString mac) = some mac := by
  have long : 6 ≤ mac.length := by
    simp only [List.mem_cons, List.not_mem_nil, or_false] at valid
    omega
  obtain ⟨a, b, rest, rfl⟩ : ∃ a b rest, mac = a :: b :: rest := by
    rcases mac with _ | ⟨a, _ | ⟨b, rest⟩⟩
    · simp at long
    · simp at long
    · exact ⟨a, b, rest, rfl⟩
  have chars := length_macChars (List.cons_ne_nil a (b :: rest))
  have third : (macChars (a :: b :: rest))[2]? = some ':' := rfl
  rw [parseMAC, macString, String.toList_ofList, parseMACChars, if_neg (by omega), if_pos third,
    readPairs_macChars (by simp), Option.bind_some, ofValidLength, if_pos valid]

/-- A parsed address has a valid length. -/
theorem parseMAC_length {s : String} {mac : HardwareAddr} (parsed : parseMAC s = some mac) :
    mac.length ∈ [6, 8, 20] := by
  have checked : ∀ {x : Option HardwareAddr}, x.bind ofValidLength = some mac →
      mac.length ∈ [6, 8, 20] := by
    intro x found
    obtain ⟨m, -, valid⟩ := Option.bind_eq_some_iff.mp found
    unfold ofValidLength at valid
    split at valid
    · rename_i fits
      cases valid
      exact fits
    · cases valid
  unfold parseMAC parseMACChars at parsed
  split at parsed
  · cases parsed
  split at parsed
  · exact checked parsed
  split at parsed
  · exact checked parsed
  split at parsed
  · exact checked parsed
  · cases parsed

end FirewallCore.Net
