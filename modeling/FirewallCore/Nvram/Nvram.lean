import FirewallCore.Lib.Checked
import FirewallCore.Lib.Chains
import FirewallCore.Lib.Runes

/-!
NVRAM variables in a flash partition (`nvram.c`, `crc.c`).

The partition is mapped into memory. Behind a header it holds the variables, each as `name=value` with
a NUL, and a NUL behind the last one. A handle has them in a hash table with chains too, which
`nvram_commit` writes out and then builds again from what it wrote.
-/

namespace FirewallCore.Nvram

open FirewallCore.Lib HashChains

/-- A string of C without its NUL. -/
abbrev CStr := List UInt8

/-- What the code depends on: the order of bytes, the sign of `char`, the bits of `unsigned long`. -/
structure Machine where
  endian : Endian
  signedChar : Bool
  longBits : Nat

/-! ### Constants -/

def NVRAM_MIN_SPACE : Nat := 0x8000
def NVRAM_MAGIC : Nat := 0x48534c46
def NVRAM_VERSION : Nat := 1
def NVRAM_CRC_START_POSITION : Nat := 9
def SDRAM_INIT : Nat := 0x419
def SDRAM_CONFIG : Nat := 0
def SDRAM_REFRESH : Nat := 0x8040

/-- `sizeof(nvram_header_t)`. -/
def headerSize : Nat := 20

/-- `NVRAM_ARRAYSIZE(h->nvram_hash)`. -/
def arraySize : Nat := 257

/-- `NVRAM_ROUNDUP` to 4. -/
def roundUp (x : Nat) : Nat := (x + 3) / 4 * 4

def equals : UInt8 := 61

/-- `crc8_table`. -/
def crc8Table : List UInt8 := [
  0x00, 0xf7, 0xb9, 0x4e, 0x25, 0xd2, 0x9c, 0x6b, 0x4a, 0xbd, 0xf3, 0x04, 0x6f, 0x98, 0xd6, 0x21,
  0x94, 0x63, 0x2d, 0xda, 0xb1, 0x46, 0x08, 0xff, 0xde, 0x29, 0x67, 0x90, 0xfb, 0x0c, 0x42, 0xb5,
  0x7f, 0x88, 0xc6, 0x31, 0x5a, 0xad, 0xe3, 0x14, 0x35, 0xc2, 0x8c, 0x7b, 0x10, 0xe7, 0xa9, 0x5e,
  0xeb, 0x1c, 0x52, 0xa5, 0xce, 0x39, 0x77, 0x80, 0xa1, 0x56, 0x18, 0xef, 0x84, 0x73, 0x3d, 0xca,
  0xfe, 0x09, 0x47, 0xb0, 0xdb, 0x2c, 0x62, 0x95, 0xb4, 0x43, 0x0d, 0xfa, 0x91, 0x66, 0x28, 0xdf,
  0x6a, 0x9d, 0xd3, 0x24, 0x4f, 0xb8, 0xf6, 0x01, 0x20, 0xd7, 0x99, 0x6e, 0x05, 0xf2, 0xbc, 0x4b,
  0x81, 0x76, 0x38, 0xcf, 0xa4, 0x53, 0x1d, 0xea, 0xcb, 0x3c, 0x72, 0x85, 0xee, 0x19, 0x57, 0xa0,
  0x15, 0xe2, 0xac, 0x5b, 0x30, 0xc7, 0x89, 0x7e, 0x5f, 0xa8, 0xe6, 0x11, 0x7a, 0x8d, 0xc3, 0x34,
  0xab, 0x5c, 0x12, 0xe5, 0x8e, 0x79, 0x37, 0xc0, 0xe1, 0x16, 0x58, 0xaf, 0xc4, 0x33, 0x7d, 0x8a,
  0x3f, 0xc8, 0x86, 0x71, 0x1a, 0xed, 0xa3, 0x54, 0x75, 0x82, 0xcc, 0x3b, 0x50, 0xa7, 0xe9, 0x1e,
  0xd4, 0x23, 0x6d, 0x9a, 0xf1, 0x06, 0x48, 0xbf, 0x9e, 0x69, 0x27, 0xd0, 0xbb, 0x4c, 0x02, 0xf5,
  0x40, 0xb7, 0xf9, 0x0e, 0x65, 0x92, 0xdc, 0x2b, 0x0a, 0xfd, 0xb3, 0x44, 0x2f, 0xd8, 0x96, 0x61,
  0x55, 0xa2, 0xec, 0x1b, 0x70, 0x87, 0xc9, 0x3e, 0x1f, 0xe8, 0xa6, 0x51, 0x3a, 0xcd, 0x83, 0x74,
  0xc1, 0x36, 0x78, 0x8f, 0xe4, 0x13, 0x5d, 0xaa, 0x8b, 0x7c, 0x32, 0xc5, 0xae, 0x59, 0x17, 0xe0,
  0x2a, 0xdd, 0x93, 0x64, 0x0f, 0xf8, 0xb6, 0x41, 0x60, 0x97, 0xd9, 0x2e, 0x45, 0xb2, 0xfc, 0x0b,
  0xbe, 0x49, 0x07, 0xf0, 0x9b, 0x6c, 0x22, 0xd5, 0xf4, 0x03, 0x4d, 0xba, 0xd1, 0x26, 0x68, 0x9f]

/-- `hndcrc8`. -/
def hndcrc8 (data : List UInt8) (crc : UInt8) : UInt8 :=
  data.foldl (fun crc b => crc8Table.getD (crc ^^^ b).toNat 0) crc

/-! ### Numbers and strings -/

def isSpace (c : UInt8) : Bool := c = 32 ∨ 9 ≤ c ∧ c ≤ 13

/-- The value of a digit in bases up to 16. -/
def digitValue (c : UInt8) : Nat :=
  if 48 ≤ c ∧ c ≤ 57 then c.toNat - 48
  else if 65 ≤ c ∧ c ≤ 70 then c.toNat - 55
  else if 97 ≤ c ∧ c ≤ 102 then c.toNat - 87
  else 16

/-- The number that the first digits of a text stand for. -/
def digitsNumber (base : Nat) (s : CStr) : Nat :=
  (s.takeWhile (digitValue · < base)).foldl (fun n c => base * n + digitValue c) 0

/-- A number in the base that its prefix tells: `strtoul` with base 0, without sign and limit. -/
def prefixedNumber : CStr → Nat
  | 48 :: x :: c :: s =>
    if (x = 120 ∨ x = 88) ∧ digitValue c < 16 then digitsNumber 16 (c :: s)
    else digitsNumber 8 (x :: c :: s)
  | 48 :: s => digitsNumber 8 s
  | s => digitsNumber 10 s

/-- `strtoul` with base 0. -/
def strtoul (m : Machine) (s : CStr) : Nat :=
  let s := s.dropWhile isSpace
  let unsigned := if s.head? = some 43 ∨ s.head? = some 45 then s.tail else s
  let n := prefixedNumber unsigned
  if 2 ^ m.longBits ≤ n then 2 ^ m.longBits - 1
  else if s.head? = some 45 then (2 ^ m.longBits - n) % 2 ^ m.longBits
  else n

/-- `sprintf` with `0x%04X` or `0x%08X`. -/
def hexText (width n : Nat) : CStr :=
  48 :: 120 :: (List.range width).reverse.map fun i =>
    let d := n / 16 ^ i % 16
    UInt8.ofNat (if d < 10 then 48 + d else 55 + d)

/-- `hash`. -/
def hash (m : Machine) (s : CStr) : Nat :=
  s.foldl (fun hash c =>
    let c := if m.signedChar ∧ 128 ≤ c then 2 ^ 32 - 256 + c.toNat else c.toNat
    (31 * hash + c) % 2 ^ 32) 0

/-- The index of the chain for a name. -/
def place (m : Machine) (name : CStr) : Nat := hash m name % arraySize

def sdramInit : CStr := utf8 "sdram_init"
def sdramConfig : CStr := utf8 "sdram_config"
def sdramRefresh : CStr := utf8 "sdram_refresh"
def sdramNcdl : CStr := utf8 "sdram_ncdl"

/-- The variables that `_nvram_rehash` makes from the header. -/
def sdramNames : List CStr := [sdramInit, sdramConfig, sdramRefresh, sdramNcdl]

/-! ### Handles -/

/-- `nvram_handle_t`. The tuples that are dead are only freed. -/
structure Handle where
  /-- The mapped partition, and its address. -/
  mmap : List UInt8
  addr : Nat
  offset : Nat
  /-- The mapping is a private one. -/
  rdonly : Bool
  table : Table CStr CStr

/-- `nvram_get`. -/
def nvramGet (m : Machine) (h : Handle) (name : CStr) : Option CStr := h.table.get (place m) name

/-- `nvram_set` with `_nvram_realloc`, which leaves a tuple that is there in its place. -/
def nvramSet (m : Machine) (h : Handle) (name value : CStr) : Int × Handle :=
  if value.length + 1 > h.mmap.length - h.offset then (-12, h)
  else (0, { h with table := h.table.set (place m) name value })

/-- `nvram_unset`. -/
def nvramUnset (m : Machine) (h : Handle) (name : CStr) : Handle :=
  { h with table := h.table.unset (place m) name }

/-- `nvram_getall`, which has the memory it asks for. -/
def nvramGetall (h : Handle) : List (CStr × CStr) :=
  (List.range arraySize).foldl (fun l i => (h.table i).foldl (fun l t => t :: l) l) []

/-! ### Reading -/

/-- The loop of `_nvram_rehash`: the tuples in a text, which ends with the mapping at the latest. -/
def parseText : Nat → List UInt8 → Checked Unit (List (CStr × CStr))
  | 0, _ => .error .outside
  | fuel + 1, text =>
    match text with
    | [] => .error .outside
    | c :: _ =>
      if c = 0 then .ok []
      else
        let name := text.takeWhile fun c => c ≠ equals ∧ c ≠ 0
        match text.drop name.length with
        | [] => .error .outside
        | eq :: rest =>
          if eq = 0 then .ok []
          else
            let value := rest.takeWhile (· ≠ 0)
            match rest.drop value.length with
            | [] => .error .outside
            | _ :: later => (parseText fuel later).map ((name, value) :: ·)

/-- A variable is set if it is not there. -/
def setMissing (m : Machine) (h : Handle) (name value : CStr) : Handle :=
  if (nvramGet m h name).isSome then h else (nvramSet m h name value).2

/-- Sets the tuples of the text. -/
def setAll (m : Machine) (h : Handle) (tuples : List (CStr × CStr)) : Handle :=
  tuples.foldl (fun h t => (nvramSet m h t.1 t.2).2) h

/-- The variables that are made from words of the header. -/
def setSdram (m : Machine) (h : Handle) (crcVerInit configRefresh configNcdl : Nat) : Handle :=
  let h := setMissing m h sdramInit (hexText 4 (crcVerInit / 2 ^ 16 % 2 ^ 16))
  let h := setMissing m h sdramConfig (hexText 4 (configRefresh % 2 ^ 16))
  let h := setMissing m h sdramRefresh (hexText 4 (configRefresh / 2 ^ 16 % 2 ^ 16))
  setMissing m h sdramNcdl (hexText 8 configNcdl)

/-- The text behind the header. -/
def textOf (h : Handle) : List UInt8 := h.mmap.drop (h.offset + headerSize)

/-- `_nvram_rehash`, which returns 0. -/
def rehash (m : Machine) (h : Handle) : Checked Unit Handle := do
  let tuples ← parseText h.mmap.length (textOf h)
  let h := setAll m { h with table := .empty } tuples
  let crcVerInit ← readWord m.endian h.mmap (h.offset + 8)
  let configRefresh ← readWord m.endian h.mmap (h.offset + 12)
  let configNcdl ← readWord m.endian h.mmap (h.offset + 16)
  return setSdram m h crcVerInit configRefresh configNcdl

/-! ### Writing -/

/-- Writes to the mapping. -/
def store (buf : List UInt8) (pos : Nat) (bytes : List UInt8) : Checked Unit (List UInt8) :=
  if pos + bytes.length ≤ buf.length then
    .ok (buf.take pos ++ bytes ++ buf.drop (pos + bytes.length))
  else .error .outside

/-- `name=value` with its NUL. -/
def encode (t : CStr × CStr) : List UInt8 := t.1 ++ equals :: t.2 ++ [0]

/-- Writes the tuples of a chain, until one does not fit. -/
def writeChain (stop : Nat) : List (CStr × CStr) → List UInt8 × Nat → Checked Unit (List UInt8 × Nat)
  | [], out => .ok out
  | t :: chain, out =>
    if out.2 + t.1.length + 1 + t.2.length + 1 > stop then .ok out
    else do
      let buf ← store out.1 out.2 (encode t)
      writeChain stop chain (buf, out.2 + (encode t).length)

/-- Writes the tuples of all chains. -/
def writeChains (stop : Nat) : List (List (CStr × CStr)) → List UInt8 × Nat → Checked Unit (List UInt8 × Nat)
  | [], out => .ok out
  | chain :: chains, out => do
    let out ← writeChain stop chain out
    writeChains stop chains out

/-- `(int)ptr % 4`. -/
def intRem (ptr : Nat) : Int := ((ptr : Int).bmod (2 ^ 32)).tmod 4

/-- The padding behind the last NUL, unless the pointer is aligned. -/
def pad (addr ptr : Nat) (buf : List UInt8) : Checked Unit (List UInt8) :=
  if intRem (addr + ptr) = 0 then .ok buf
  else store buf ptr (List.replicate (4 - intRem (addr + ptr)).toNat 0)

/-- The words of the header behind its length, without the checksum. -/
structure HeaderWords where
  crcVerInit : Nat
  configRefresh : Nat
  configNcdl : Nat

/-- The part of `nvram_commit` that makes the header. -/
def headerWords (m : Machine) (h : Handle) : HeaderWords :=
  match nvramGet m h sdramInit, nvramGet m h sdramConfig, nvramGet m h sdramRefresh,
    nvramGet m h sdramNcdl with
  | some init, some config, some refresh, some ncdl =>
    ⟨NVRAM_VERSION * 2 ^ 8 + strtoul m init % 2 ^ 16 * 2 ^ 16,
      strtoul m config % 2 ^ 16 + strtoul m refresh % 2 ^ 16 * 2 ^ 16, strtoul m ncdl % 2 ^ 32⟩
  | _, _, _, _ =>
    ⟨NVRAM_VERSION * 2 ^ 8 + SDRAM_INIT * 2 ^ 16, SDRAM_CONFIG + SDRAM_REFRESH * 2 ^ 16, 0⟩

/-- The bytes of the words. -/
def HeaderWords.bytes (m : Machine) (w : HeaderWords) : List UInt8 :=
  m.endian.bytes w.crcVerInit ++ m.endian.bytes w.configRefresh ++ m.endian.bytes w.configNcdl

/-- The header with its length and the checksum of its last bytes and the data. -/
def headerBytes (m : Machine) (w : HeaderWords) (len : Nat) (data : List UInt8) : List UInt8 :=
  let crc := hndcrc8 data (hndcrc8 ((w.bytes m).drop (NVRAM_CRC_START_POSITION - 8)) 0xff)
  m.endian.bytes NVRAM_MAGIC ++ m.endian.bytes len ++
    { w with crcVerInit := w.crcVerInit + crc.toNat }.bytes m

/-- Reads from the mapping. -/
def load (buf : List UInt8) (pos len : Nat) : Checked Unit (List UInt8) :=
  if pos + len ≤ buf.length then .ok ((buf.drop pos).take len) else .error .outside

/-- The part of `nvram_commit` that writes the partition. -/
def writeOut (m : Machine) (h : Handle) : Checked Unit (List UInt8) := do
  let start := h.offset + headerSize
  let buf ← store h.mmap start (List.replicate (h.mmap.length - start) 0xff)
  let out ← writeChains (h.mmap.length - 2) ((List.range arraySize).map h.table) (buf, start)
  let buf ← store out.1 out.2 [0]
  let buf ← pad h.addr (out.2 + 1) buf
  let len := roundUp (out.2 + 2 - h.offset)
  let data ← load buf start (len - headerSize)
  store buf h.offset (headerBytes m (headerWords m h) len data)

/-- `nvram_commit`, with what it returns. -/
def nvramCommit (m : Machine) (h : Handle) : Checked Unit (Int × Handle) := do
  let buf ← writeOut m h
  let h ← rehash m { h with mmap := buf }
  return (0, h)

/-! ### Opening -/

/-- The word at a position of the mapping. -/
def wordAt (m : Machine) (buf : List UInt8) (pos : Nat) : Nat := m.endian.number ((buf.drop pos).take 4)

/-- The first place of the magic number with `NVRAM_MIN_SPACE` bytes from there on. -/
def findMagic (m : Machine) (buf : List UInt8) : Option Nat :=
  ((List.range (buf.length / 4)).find? fun i =>
    4 * i + NVRAM_MIN_SPACE ≤ buf.length ∧ wordAt m buf (4 * i) = NVRAM_MAGIC).map (4 * ·)

/-- `nvram_open` of a file that is mapped at an address; an error stands for `NULL`. -/
def nvramOpen (m : Machine) (addr : Nat) (file : List UInt8) (rdonly : Bool) : Checked Unit Handle :=
  match findMagic m file with
  | none => .error (.error ())
  | some offset =>
    if rdonly ∨ wordAt m file (offset + 4) < file.length - offset then
      rehash m ⟨file, addr, offset, rdonly, .empty⟩
    else .error (.error ())

/-- The file behind a handle after its mapping was written. -/
def fileAfter (file : List UInt8) (h : Handle) : List UInt8 := if h.rdonly then file else h.mmap

end FirewallCore.Nvram
