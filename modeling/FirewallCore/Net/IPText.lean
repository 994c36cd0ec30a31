import FirewallCore.Net.AddrText

/-!
The text of a `net.IP` and reading it back (`String`, `MarshalText`, `ParseIP`). An IPv4
address is read in its 16-byte form, whichever form was written.
-/

namespace FirewallCore.Net

open FirewallCore.Lib

/-- `hexString`. -/
def hexString (bytes : List UInt8) : String :=
  String.ofList (bytes.flatMap fun b =>
    [Nat.digitChar (b.toNat / 16), Nat.digitChar (b.toNat % 16)])

/-- The 16-byte form of an IPv4 address. -/
def mapped (n : BitVec 32) : BitVec 128 := BitVec.ofNat 128 (mappedHigh * 2 ^ 32 + n.toNat)

namespace IP

/-- `String`. -/
def string : IP → String
  | nil | other [] => "<nil>"
  | four n => (Addr.v4 n).string
  | sixteen n => if is4In6 n then (Addr.v4 (n.setWidth 32)).string else (Addr.v6 n "").string
  | other bytes => "?" ++ hexString bytes

/-- `MarshalText`. -/
def marshalText : IP → Option String
  | nil | other [] => some ""
  | other _ => none
  | ip => some ip.string

/-- `net.ParseIP`. -/
def parse (s : String) : IP :=
  match parseAddr s with
  | some (.v4 n) => sixteen (mapped n)
  | some (.v6 n zone) => if zone = "" then sixteen n else nil
  | _ => nil

/-- The form in which an address is read: an IPv4 address in 16 bytes, nothing as `nil`. -/
def canonical : IP → IP
  | four n => sixteen (mapped n)
  | sixteen n => sixteen n
  | _ => nil

end IP

section

variable {n : BitVec 128}

theorem toNat_mapped (n : BitVec 32) : (mapped n).toNat = mappedHigh * 2 ^ 32 + n.toNat := by
  have small := n.isLt
  rw [mapped, BitVec.toNat_ofNat, Nat.mod_eq_of_lt]
  unfold mappedHigh
  omega

theorem is4In6_mapped (n : BitVec 32) : is4In6 (mapped n) = true := by
  have small := n.isLt
  rw [is4In6, toNat_mapped]
  apply decide_eq_true
  unfold mappedHigh
  omega

theorem setWidth_mapped (n : BitVec 32) : (mapped n).setWidth 32 = n := by
  apply BitVec.eq_of_toNat_eq
  rw [BitVec.toNat_setWidth, toNat_mapped]
  have small := n.isLt
  unfold mappedHigh
  omega

theorem mapped_setWidth (is4 : is4In6 n = true) : mapped (n.setWidth 32) = n := by
  apply BitVec.eq_of_toNat_eq
  rw [toNat_mapped, BitVec.toNat_setWidth]
  have high : n.toNat / 2 ^ 32 = mappedHigh := of_decide_eq_true is4
  rw [← high]
  omega

end

namespace IP

theorem parse_v4 (n : BitVec 32) : parse (Addr.v4 n).string = sixteen (mapped n) := by
  rw [parse, parseAddr_string rfl]

/-- What was written is read in the canonical form. -/
theorem parse_marshalText {ip : IP} {text : String} (done : ip.marshalText = some text) :
    parse text = ip.canonical := by
  have empty : parse "" = nil := by decide
  cases ip with
  | nil =>
    cases done
    exact empty
  | four n =>
    cases done
    exact parse_v4 n
  | sixteen n =>
    cases done
    rw [string]
    split
    · rename_i is4
      rw [parse_v4, mapped_setWidth is4]
      rfl
    · rw [parse, parseAddr_string rfl]
      rfl
  | other bytes =>
    cases bytes with
    | nil =>
      cases done
      exact empty
    | cons b bytes => cases done

/-- The text of an address is that of its canonical form. -/
theorem string_canonical {ip : IP} {text : String} (done : ip.marshalText = some text) :
    ip.canonical.string = ip.string := by
  cases ip with
  | nil => rfl
  | four n =>
    rw [canonical, string, string, if_pos (is4In6_mapped n), setWidth_mapped]
  | sixteen n => rfl
  | other bytes =>
    cases bytes with
    | nil => rfl
    | cons b bytes => cases done

/-- The canonical form is the same address. -/
theorem canonical_equal {ip : IP} (slice : ∃ addr, addrFromSlice ip = some addr) :
    ip.canonical.equal ip = true := by
  obtain ⟨addr, slice⟩ := slice
  cases ip with
  | nil => cases slice
  | four n => simp [canonical, equal, to16, toNat_mapped]
  | sixteen n => simp [canonical, equal, to16]
  | other bytes => cases slice

end IP

end FirewallCore.Net
