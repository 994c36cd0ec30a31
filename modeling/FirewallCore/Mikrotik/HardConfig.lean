import FirewallCore.Mikrotik.Lz77

/-!
The hard configuration of RouterBoot (`drivers/platform/mikrotik/rb_hardconfig.c`): the tags that
are published, and the WLAN calibration data in one of them.

`lzo1x_decompress_safe` is a parameter: from an input and the size of the output it gives a code
without its sign, and the output. It may read all of its input. `hc_lzor_prefix` is only given to
it, and any bytes stand for it. `kmalloc` succeeds, and what is in its memory is any bytes.
-/

namespace FirewallCore.Mikrotik

open FirewallCore.Lib

/-- `RB_MAGIC_HARD`, `RB_MAGIC_LZOR`, `RB_MAGIC_LZ77` and `RB_MAGIC_ERD`. -/
def magicHard : Nat := 0x64726148
def magicLzor : Nat := 0x524f5a4c
def magicLz77 : Nat := 0x4c5a3737
def magicErd : Nat := 0x455244

/-- `RB_ART_SIZE`. -/
def artSize : Nat := 0x10000

/-- `RB_WLAN_ERD_ID_SOLO`. -/
def erdSolo : Nat := 0x0001

/-- `lzo1x_decompress_safe`: the code and the output. -/
abbrev Lzo := List UInt8 → Nat → Nat × List UInt8

/-- What the kernel and the processor give. -/
structure Machine where
  endian : Endian
  /-- A `size_t` has 64 bits, and not 32. -/
  wide : Bool
  lzo : Lzo
  lzorPrefix : List UInt8
  /-- What is in memory that `kmalloc` gives. -/
  memory : Nat → UInt8

/-- One more than the largest `size_t`. -/
def Machine.sizes (m : Machine) : Nat := if m.wide then 2 ^ 64 else 2 ^ 32

/-- `LZO_E_INPUT_NOT_CONSUMED`. -/
def lzoInputNotConsumed : Nat := 8

/-! ### Unpacking WLAN data -/

section Unpack

variable (m : Machine)

/-- `hc_wlan_data_unpack_erd`. -/
def hcWlanDataUnpackErd (tagId : Nat) (inbuf : List UInt8) (outlen : Nat) :
    Checked Errno (List UInt8) := do
  let (ofs, len) ← routerbootTagFind m.endian inbuf inbuf.length tagId
  if inbuf.length < len then .error (.error .einval)
  else if inbuf.length < ofs + len then .error .outside
  else
    let (code, out) := m.lzo ((inbuf.drop ofs).take len) outlen
    if code = 0 then return out else .error (.error (.lzo code))

/-- The temporary buffer with the output of a decompressor at its start. -/
def tempbuf (size : Nat) (out : List UInt8) : List UInt8 :=
  out ++ (List.range (size - out.length)).map fun i => m.memory (out.length + i)

/-- The search for the magic number, from a position on: the position behind it. -/
def findErd (temp : List UInt8) (templen pos : Nat) : Checked Errno Nat :=
  match readWord m.endian temp pos with
  | .error fault => .error fault
  | .ok word =>
    if word = magicErd then .ok (pos + 4)
    else if templen ≤ pos + 4 then .error (.error .enodata)
    else findErd temp templen (pos + 4)
termination_by templen - pos

/-- The decompression in `hc_wlan_data_unpack_lzor_lz77`. -/
def decompressWlan (inbuf : List UInt8) (outlen magic : Nat) : Checked Errno (List UInt8) :=
  if magic = magicLzor then
    if outlen < m.lzorPrefix.length + inbuf.length then .error (.error .efbig)
    else
      let (code, out) := m.lzo (m.lzorPrefix ++ inbuf) outlen
      if code = 0 ∨ code = lzoInputNotConsumed then .ok out else .error (.error (.lzo code))
  else if outlen < inbuf.length then .error (.error .efbig)
  -- More rounds than these are never needed.
  else (Lz77.rbLz77Decompress inbuf (8 * inbuf.length + 1) outlen).getD (.error (.error .einval))

/-- The rest of `hc_wlan_data_unpack_lzor_lz77`, for what has been decompressed. -/
def unpackErdTags (tagId : Nat) (out : List UInt8) (outlen : Nat) : Checked Errno (List UInt8) := do
  let temp := tempbuf m outlen out
  let needle ← findErd m temp out.length 0
  -- The magic number may end behind the output.
  let templen := (out.length + m.sizes - needle) % m.sizes
  let (ofs, len) ← routerbootTagFind m.endian (temp.drop needle) templen tagId
  if templen < len then .error (.error .einval)
  else routerbootRleDecode (temp.drop (needle + ofs)) len outlen

/-- `hc_wlan_data_unpack_lzor_lz77`. -/
def hcWlanDataUnpackLzorLz77 (tagId : Nat) (inbuf : List UInt8) (outlen magic : Nat) :
    Checked Errno (List UInt8) := do
  let out ← decompressWlan m inbuf outlen magic
  unpackErdTags m tagId out outlen

/-- `hc_wlan_data_unpack` on the payload of a tag: the output, where it returns 0. -/
def unpackPayload (tagId : Nat) (payload : List UInt8) (outlen : Nat) :
    Checked Errno (List UInt8) := do
  let magic ← readWord m.endian payload 0
  if magic = magicLz77 ∧ tagId = erdSolo then .error (.error .enodata)
  else if magic = magicLz77 ∨ magic = magicLzor then
    hcWlanDataUnpackLzorLz77 m tagId (payload.drop 4) outlen magic
  else if magic = magicErd then hcWlanDataUnpackErd m tagId (payload.drop 4) outlen
  else if tagId = erdSolo then routerbootRleDecode payload payload.length outlen
  else .error (.error .enodata)

/-- `hc_wlan_data_unpack`. -/
def hcWlanDataUnpack (conf : List UInt8) (tagId tofs tlen outlen : Nat) :
    Checked Errno (List UInt8) :=
  if conf.length < tofs + tlen then .error (.error .eio)
  else unpackPayload m tagId ((conf.drop tofs).take tlen) outlen

end Unpack

/-! ### Tags -/

/-- Looks for a tag behind the first bytes: the offset of the payload, which is a `u16`, and its
length. -/
def locate (e : Endian) (conf : List UInt8) (skip tagId : Nat) :
    Checked Errno (Option (Nat × Nat)) :=
  -- The length that is left wraps around, and the search starts outside.
  if conf.length < skip then .error .outside
  else
    match routerbootTagFind e (conf.drop skip) (conf.length - skip) tagId with
    | .error .outside => .error .outside
    | .error (.error _) => .ok none
    | .ok (ofs, len) => .ok (some ((ofs + skip) % 2 ^ 16, len))

/-- An attribute that is published. -/
structure Published where
  name : String
  pldOfs : Nat
  pldLen : Nat
  deriving DecidableEq, Repr

/-- `RB_ID_WLAN_DATA`. -/
def wlanData : Nat := 0x16

/-- `hc_attrs`: the tags, and the attributes that have a name. -/
def hcAttrs : List (Nat × Option String) :=
  [(0x03, some "flash_info"), (0x04, some "mac_base"), (0x05, some "board_product_code"),
    (0x06, some "booter_version"), (0x0b, some "board_serial"), (0x0d, some "mem_size"),
    (0x0e, some "mac_count"), (0x15, some "hw_options"), (wlanData, none),
    (0x17, some "board_identifier"), (0x21, some "product_name"), (0x26, some "defconf"),
    (0x27, some "board_revision")]

/-- `hc_wd_multi_battrs`. -/
def hcWdMultiBattrs : List (Nat × String) := [(0x8001, "data_0"), (0x8201, "data_2")]

section Init

variable (m : Machine) (conf : List UInt8)

/-- `hc_wlan_data_unpack` returns 0. -/
def unpacks (ofs len tagId : Nat) : Checked Errno Bool :=
  match hcWlanDataUnpack m conf tagId ofs len artSize with
  | .ok _ => .ok true
  | .error (.error _) => .ok false
  | .error .outside => .error .outside

/-- The attribute for one identification of WLAN data, if it can be unpacked. -/
def publishUnpacked (ofs len : Nat) (attr : Nat × String) : Checked Errno (List Published) := do
  if ← unpacks m conf ofs len attr.1 then return [⟨attr.2, ofs, len⟩] else return []

/-- The attributes for the WLAN data. -/
def publishWlan (ofs len : Nat) : Checked Errno (List Published) := do
  match ← publishUnpacked m conf ofs len (erdSolo, "wlan_data") with
  | [] =>
    let published ← hcWdMultiBattrs.mapM (publishUnpacked m conf ofs len)
    return published.flatten
  | solo => return solo

/-- One round of the loop of `rb_hardconfig_init` over the known tags. -/
def publishTag (attr : Nat × Option String) : Checked Errno (List Published) := do
  match ← locate m.endian conf 4 attr.1 with
  | none => return []
  | some (ofs, len) =>
    if attr.1 = wlanData ∧ len ≠ 0 then publishWlan m conf ofs len
    else return attr.2.toList.map fun name => ⟨name, ofs, len⟩

/-- `rb_hardconfig_init` on what is read from the partition: the attributes that are published, all
of which `sysfs` takes. -/
def rbHardconfigInit : Checked Errno (List Published) := do
  let magic ← readWord m.endian conf 0
  if magic ≠ magicHard then .error (.error .einval)
  else
    let published ← hcAttrs.mapM (publishTag m conf)
    return published.flatten

end Init

end FirewallCore.Mikrotik
