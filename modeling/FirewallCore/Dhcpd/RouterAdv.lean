import FirewallCore.Dhcpd.Options
import FirewallCore.Dhcpd.Config

/-!
The router advertisements of the DHCPv6 server (`routeradv.go`) and the options in
them.

`createICMPv6RAPacket` fills a buffer field by field and keeps the offset by hand. The
option sequence behind the 16-byte header is read back as RFC 4861 has it: a type, a
length in units of eight octets that counts these two bytes, and the rest of the
option.
-/

namespace FirewallCore.Dhcpd

open FirewallCore.Net FirewallCore.Lib

/-- `icmpv6RA`. -/
structure Icmpv6RA where
  managedAddressConfiguration : Bool := false
  otherConfiguration : Bool := false
  /-- `prefix`, the bytes of the address. -/
  prefixIP : List UInt8
  prefixLen : Int
  sourceLinkLayerAddress : HardwareAddr
  recursiveDNSServer : List UInt8
  mtu : BitVec 32

/-- `hwAddrToLinkLayerAddr` pads a hardware address to a length divisible by eight. -/
def hwAddrToLinkLayerAddr (nu : Netutil) (hwa : HardwareAddr) : Except String (List UInt8) :=
  match nu.validateMAC hwa with
  | some text => .error text
  | none =>
    if hwa.length = 6 ∨ hwa.length = 8 then .ok (goCopy (List.replicate 8 0) hwa)
    else .ok (goCopy (List.replicate 24 0) hwa)

/-- A write to the buffer: the bytes that are put at the offset `i`, and by how much `i`
is advanced after it. -/
structure Field where
  bytes : List UInt8
  advance : Nat

/-- The bytes of a 32-bit and of a 16-bit number in network order. -/
def uint32 (n : BitVec 32) : List UInt8 := bigEndian (w := 4) n
def uint16 (n : BitVec 16) : List UInt8 := bigEndian (w := 2) n

/-- The flags of a router advertisement: MO...... -/
def raFlags (params : Icmpv6RA) : UInt8 :=
  (if params.managedAddressConfiguration then 0x80 else 0) |||
    (if params.otherConfiguration then 0x40 else 0)

/-- The writes of `createICMPv6RAPacket`, in order. The last one stops at the end of the
buffer, sixteen bytes on. -/
def raFields (params : Icmpv6RA) (lla : List UInt8) : List Field :=
  [ -- ICMPv6: type, code and checksum.
    ⟨[134, 0, 0, 0], 4⟩,
    -- RouterAdvertisement.
    ⟨[64], 1⟩, ⟨[raFlags params], 1⟩, ⟨uint16 1800, 2⟩, ⟨uint32 0, 4⟩, ⟨uint32 0, 4⟩,
    -- Prefix Information.
    ⟨[3, 4], 2⟩, ⟨[(BitVec.ofInt 8 params.prefixLen).toNat.toUInt8], 1⟩, ⟨[0xc0], 1⟩,
    ⟨uint32 3600, 4⟩, ⟨uint32 3600, 4⟩, ⟨uint32 0, 4⟩,
    ⟨params.prefixIP.take 8 ++ uint32 0 ++ uint32 0, 16⟩,
    -- MTU.
    ⟨[5, 1], 2⟩, ⟨uint16 0, 2⟩, ⟨uint32 params.mtu, 4⟩,
    -- Source link-layer address.
    ⟨[1, 1], 2⟩, ⟨lla, lla.length⟩,
    -- Recursive DNS Server.
    ⟨[25, 3], 2⟩, ⟨uint16 0, 2⟩, ⟨uint32 3600, 4⟩, ⟨params.recursiveDNSServer.take 16, 0⟩]

/-- Makes the writes from the offset `i` on. A write behind the end is a panic. -/
def writeFields : List Field → Nat → List UInt8 → Option (List UInt8)
  | [], _, data => some data
  | f :: rest, i, data =>
    if i + f.bytes.length ≤ data.length then
      writeFields rest (i + f.advance)
        (data.take i ++ f.bytes ++ data.drop (i + f.bytes.length))
    else none

/-- `createICMPv6RAPacket`; `none` is a panic, which a prefix of less than eight bytes
causes too. -/
def createICMPv6RAPacket (nu : Netutil) (params : Icmpv6RA) : Option (Except String (List UInt8)) :=
  match hwAddrToLinkLayerAddr nu params.sourceLinkLayerAddress with
  | .error err => some (.error ("converting source link layer address: " ++ err))
  | .ok lla =>
    if params.prefixIP.length < 8 then none
    else (writeFields (raFields params lla) 0 (List.replicate (82 + lla.length) 0)).map .ok

/-! ### Reading the options back -/

/-- An option of a neighbour discovery message, with what follows its type and length. -/
structure NdOption where
  type : UInt8
  body : List UInt8
  deriving DecidableEq, Repr

/-- The option sequence of RFC 4861, with a bound on the number of options. -/
def parseOptionsUpTo : Nat → List UInt8 → Option (List NdOption)
  | _, [] => some []
  | n + 1, type :: length :: rest =>
    if length = 0 ∨ rest.length < 8 * length.toNat - 2 then none
    else (parseOptionsUpTo n (rest.drop (8 * length.toNat - 2))).map
      (⟨type, rest.take (8 * length.toNat - 2)⟩ :: ·)
  | _, _ => none

/-- The options of a message; each takes eight bytes at least. -/
def parseOptions (data : List UInt8) : Option (List NdOption) := parseOptionsUpTo data.length data

/-- The four options with what was given: the prefix, the MTU, the bytes of the hardware
address and the address of the DNS server. -/
def Recovers (params : Icmpv6RA) (options : List NdOption) : Prop :=
  ∃ info mtu source dns,
    options = [⟨3, info⟩, ⟨5, mtu⟩, ⟨1, source⟩, ⟨25, dns⟩] ∧
      info.drop 14 = params.prefixIP ∧ mtu.drop 2 = uint32 params.mtu ∧
      source.take params.sourceLinkLayerAddress.length = params.sourceLinkLayerAddress ∧
      dns.drop 6 = params.recursiveDNSServer

/-- A sequence of options takes a multiple of eight bytes. -/
theorem parseOptionsUpTo_length {n : Nat} {data : List UInt8} {options : List NdOption}
    (done : parseOptionsUpTo n data = some options) : 8 ∣ data.length := by
  induction n, data using parseOptionsUpTo.induct generalizing options with
  | case1 => simp
  | case2 n type length rest bad => simp [parseOptionsUpTo, bad] at done
  | case3 n type length rest good ih =>
    rw [parseOptionsUpTo, if_neg good, Option.map_eq_some_iff] at done
    obtain ⟨others, done, -⟩ := done
    obtain ⟨nonzero, fits⟩ := not_or.mp good
    have multiple := ih done
    have positive : length.toNat ≠ 0 := fun zero => nonzero (UInt8.toNat_inj.mp zero)
    rw [List.length_drop] at multiple
    simp only [List.length_cons]
    omega
  | case4 n data notNil notTwo => simp [parseOptionsUpTo] at done

/-! ### The writes stay in the buffer -/

/-- Every write from the offset `i` on ends within `n` bytes. -/
def Fit (n : Nat) : List Field → Nat → Prop
  | [], _ => True
  | f :: rest, i => i + f.bytes.length ≤ n ∧ Fit n rest (i + f.advance)

theorem writeFields_fit {fields : List Field} {i : Nat} {data : List UInt8}
    (fit : Fit data.length fields i) :
    ∃ out, writeFields fields i data = some out ∧ out.length = data.length := by
  induction fields generalizing i data with
  | nil => exact ⟨data, rfl, rfl⟩
  | cons f rest ih =>
    obtain ⟨here, later⟩ := fit
    rw [writeFields, if_pos here]
    -- The buffer keeps its length, so what fits in it is the same after the write.
    have same : (data.take i ++ f.bytes ++ data.drop (i + f.bytes.length)).length
        = data.length := by
      simp only [List.length_append, List.length_take, List.length_drop]
      omega
    rw [← same] at later ⊢
    exact ih later

@[simp] theorem length_uint32 (n : BitVec 32) : (uint32 n).length = 4 := by
  simp [uint32, bigEndian]

@[simp] theorem length_uint16 (n : BitVec 16) : (uint16 n).length = 2 := by
  simp [uint16, bigEndian]

theorem fit_raFields (params : Icmpv6RA) (lla : List UInt8) :
    Fit (82 + lla.length) (raFields params lla) 0 := by
  simp [raFields, Fit]
  omega

/-- The link-layer address has a length divisible by eight, as its comment says. -/
theorem hwAddrToLinkLayerAddr_length {nu : Netutil} {hwa lla : List UInt8}
    (done : hwAddrToLinkLayerAddr nu hwa = .ok lla) : 8 ∣ lla.length := by
  unfold hwAddrToLinkLayerAddr at done
  split at done
  · cases done
  · split at done
    all_goals
      cases done
      simp [goCopy]
      omega

/-- The packet is built for every valid hardware address, and its last 66 bytes and the
link-layer address come after the header. -/
theorem createICMPv6RAPacket_length {nu : Netutil} {params : Icmpv6RA}
    (valid : nu.validateMAC params.sourceLinkLayerAddress = none)
    (long : 8 ≤ params.prefixIP.length) :
    ∃ data lla, createICMPv6RAPacket nu params = some (.ok data) ∧
      hwAddrToLinkLayerAddr nu params.sourceLinkLayerAddress = .ok lla ∧
      data.length = 82 + lla.length := by
  obtain ⟨lla, converted⟩ :
      ∃ lla, hwAddrToLinkLayerAddr nu params.sourceLinkLayerAddress = .ok lla := by
    simp only [hwAddrToLinkLayerAddr, valid]
    split
    · exact ⟨_, rfl⟩
    · exact ⟨_, rfl⟩
  have fit := fit_raFields params lla
  rw [← List.length_replicate (n := 82 + lla.length) (a := (0 : UInt8))] at fit
  obtain ⟨data, written, size⟩ := writeFields_fit fit
  refine ⟨data, lla, ?_, converted, by simpa using size⟩
  simp only [createICMPv6RAPacket, converted, if_neg (Nat.not_lt.mpr long), written,
    Option.map_some]

/-- The source link-layer option says that it takes eight bytes and takes two more than
the address, so what follows the header is no sequence of options. -/
theorem createICMPv6RAPacket_malformed (nu : Netutil) (params : Icmpv6RA)
    (valid : nu.validateMAC params.sourceLinkLayerAddress = none)
    (long : 8 ≤ params.prefixIP.length) :
    ∃ data, createICMPv6RAPacket nu params = some (.ok data) ∧
      ¬ ∃ options, parseOptions (data.drop 16) = some options ∧ Recovers params options := by
  obtain ⟨data, lla, made, converted, size⟩ := createICMPv6RAPacket_length valid long
  refine ⟨data, made, ?_⟩
  rintro ⟨options, parsed, -⟩
  have units := hwAddrToLinkLayerAddr_length converted
  have multiple := parseOptionsUpTo_length parsed
  rw [List.length_drop] at multiple
  omega

/-- The advertisement of `2001:db8::1/64` by a router with a 6-byte address. -/
def sampleRA : Icmpv6RA where
  prefixIP := [0x20, 0x01, 0x0d, 0xb8, 0, 0, 0, 0, 0, 0, 0, 0, 0, 0, 0, 1]
  prefixLen := 64
  sourceLinkLayerAddress := [2, 0, 0, 0, 0, 1]
  recursiveDNSServer := [0xfe, 0x80, 0, 0, 0, 0, 0, 0, 0, 0, 0, 0, 0, 0, 0, 1]
  mtu := 1500

theorem sampleRA_malformed :
    ∃ data, createICMPv6RAPacket .ascii sampleRA = some (.ok data) ∧
      ¬ ∃ options, parseOptions (data.drop 16) = some options ∧ Recovers sampleRA options :=
  createICMPv6RAPacket_malformed .ascii sampleRA rfl (by decide)

theorem sampleRA_not_parsed :
    sampleRA.sourceLinkLayerAddress.length = 6 ∧ sampleRA.prefixIP.length = 16 ∧
      sampleRA.recursiveDNSServer.length = 16 ∧
      ∃ data, createICMPv6RAPacket .ascii sampleRA = some (.ok data) ∧ data.length = 90 ∧
        parseOptions (data.drop 16) = none := by
  refine ⟨rfl, rfl, rfl, _, rfl, by decide +kernel, by decide +kernel⟩

end FirewallCore.Dhcpd
