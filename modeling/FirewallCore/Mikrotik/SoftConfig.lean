import FirewallCore.Lib.Checksums
import FirewallCore.Lib.Run
import FirewallCore.Mikrotik.HardConfig

/-!
The soft configuration of RouterBoot (`drivers/platform/mikrotik/rb_softconfig.c`): the attributes
in a buffer, and the file `commit` that writes the buffer to flash or reads it back.

The word behind the magic number is the checksum, and 0 for a buffer with changes that are not on
flash. An access outside of the buffer is no step: `none`.
-/

namespace FirewallCore.Mikrotik.SoftConfig

open FirewallCore.Lib

/-- `RB_MAGIC_SOFT`. -/
def magicSoft : Nat := 0x74666f53

/-- `RB_SC_CRC32_OFFSET`. -/
def crc32Offset : Nat := 4

/-! ### Attributes -/

/-- The processor, where `CONFIG_ATH79` is set. -/
inductive Soc where
  | other
  | ar7161
  | ar71xx
  | ar724x
  | ar9344
  | qca953x
  | qca9556
  | qca9558
  | ath79
  deriving DecidableEq, Repr

/-- The processor, and the functions of the kernel that read input. -/
structure Kernel where
  endian : Endian
  soc : Soc
  kstrtobool : List UInt8 → Except Errno Bool
  kstrtou32 : List UInt8 → Except Errno Nat
  sysfsStreq : List UInt8 → List UInt8 → Bool

/-- How a tag is shown and stored. -/
inductive Kind where
  /-- The values and their texts, nothing where they are not known for the processor. -/
  | u32tvs (tvs : Option (List (Nat × String)))
  | boolts (strfalse strtrue : String)
  | bootdelays
  | string
  | u32s
  deriving DecidableEq, Repr

def uartspeeds : List (Nat × String) :=
  [(8, "off"), (7, "1200"), (6, "2400"), (5, "4800"), (4, "9600"), (3, "19200"), (2, "38400"),
    (1, "57600"), (0, "115200")]

def bootdevices : List (Nat × String) :=
  [(0, "eth"), (1, "flasheth"), (3, "ethonce"), (5, "flash"), (7, "cfg"), (8, "cfgonce")]

/-- `sc_cpufreq_indexes_ath79_9x`. -/
def cpufreqIndexes9x : List (Nat × String) :=
  [(0, "a"), (8, "b"), (16, "c"), (24, "d"), (32, "e"), (40, "f")]

/-- `sc_cpufreq_indexes_ath79_7x`. -/
def cpufreqIndexes7x : List (Nat × String) :=
  [(0, "a"), (144, "b"), (288, "c"), (432, "d"), (576, "e"), (720, "f"), (864, "g"), (1008, "h")]

/-- `sc_tag_show_cpufreq_indexes` and `sc_tag_store_cpufreq_indexes`. -/
def cpufreqIndexes : Soc → Kind
  | .other => .u32s
  | .ar7161 => .u32tvs (some (cpufreqIndexes7x.take 8))
  | .ar724x => .u32tvs (some (cpufreqIndexes7x.take 4))
  | .ar9344 => .u32tvs (some (cpufreqIndexes9x.take 6))
  | .qca953x => .u32tvs (some (cpufreqIndexes9x.take 5))
  | .qca9556 => .u32tvs (some (cpufreqIndexes9x.take 3))
  | .qca9558 => .u32tvs (some (cpufreqIndexes9x.take 4))
  | .ar71xx | .ath79 => .u32tvs none

structure Attr where
  tagId : Nat
  name : String
  kind : Kind
  deriving DecidableEq, Repr

/-- `sc_attrs`. -/
def scAttrs (soc : Soc) : List Attr :=
  [⟨0x01, "uart_speed", .u32tvs (some uartspeeds)⟩,
    ⟨0x02, "boot_delay", .bootdelays⟩,
    ⟨0x03, "boot_device", .u32tvs (some bootdevices)⟩,
    ⟨0x04, "boot_key", .boolts "any" "del"⟩,
    ⟨0x05, "cpu_mode", .boolts "powersave" "regular"⟩,
    ⟨0x06, "bios_version", .string⟩,
    ⟨0x09, "boot_proto", .boolts "bootp" "dhcp"⟩,
    ⟨0x0c, "cpufreq_index", cpufreqIndexes soc⟩,
    ⟨0x0d, "booter", .boolts "regular" "backup"⟩,
    ⟨0x0f, "silent_boot", .boolts "off" "on"⟩]

/-- An attribute with the place of its payload, which has no length where the tag is missing. -/
structure Placed extends Attr where
  pldOfs : Nat
  pldLen : Nat
  deriving DecidableEq, Repr

/-! ### Showing -/

section Show

/-- A number with eight hexadecimal digits. -/
def hex8 (n : Nat) : String := String.ofList ((List.range 8).map fun i => (n / 16 ^ (7 - i) % 16).digitChar)

variable (e : Endian) (buf : List UInt8)

/-- The loop of `routerboot_tag_show_u32s`. -/
def showU32sFrom : Nat → Nat → Checked Errno (List UInt8)
  | 0, _ => .ok []
  | n + 1, ofs => do
    let data ← readWord e buf ofs
    let rest ← showU32sFrom n (ofs + 4)
    return utf8 ("0x" ++ hex8 data ++ "\n") ++ rest

/-- `routerboot_tag_show_u32s`. -/
def showU32s (ofs len : Nat) : Checked Errno (List UInt8) :=
  if len % 4 ≠ 0 then .error (.error .einval) else showU32sFrom e buf (len / 4) ofs

/-- `routerboot_tag_show_string`: the bytes before the first 0, which has to come, and a line break,
no more than `len` bytes. -/
def showString (ofs len : Nat) : Checked Errno (List UInt8) :=
  if 0 ∈ buf.drop ofs then .ok (((buf.drop ofs).takeWhile (· ≠ 0) ++ [10]).take len)
  else .error .outside

/-- A text, in brackets if it is chosen. -/
def mark (chosen : Bool) (text : String) : String := if chosen then "[" ++ text ++ "]" else text

/-- `tshow`. -/
def Kind.tshow (ofs len : Nat) : Kind → Checked Errno (List UInt8)
  | .u32tvs none | .u32s => showU32s e buf ofs len
  | .u32tvs (some tvs) =>
    if len ≠ 4 then .error (.error .einval)
    else do
      let data ← readWord e buf ofs
      return tvs.flatMap (fun tv => utf8 (mark (tv.1 = data) tv.2 ++ " ")) ++ utf8 "\n"
  | .boolts strfalse strtrue =>
    if len ≠ 4 then .error (.error .einval)
    else do
      let data ← readWord e buf ofs
      return utf8 (mark (data = 0) strfalse ++ " " ++ mark (data ≠ 0) strtrue ++ "\n")
  | .bootdelays =>
    if len ≠ 4 then .error (.error .einval)
    else do
      let data ← readWord e buf ofs
      return ((List.range' 1 9).flatMap fun i => utf8 (mark (i = data) (toString i) ++ " ")) ++
        utf8 "\n"
  | .string => showString buf ofs len

/-- `sc_attr_show`, of an attribute of the buffer. -/
def scAttrShow (attr : Placed) : Checked Errno (List UInt8) :=
  if attr.pldLen = 0 then .error (.error .enoent)
  else attr.kind.tshow e buf attr.pldOfs attr.pldLen

end Show

/-! ### Storing -/

section Store

variable (k : Kernel) (buf : List UInt8)

/-- Writes a value and clears the checksum. -/
def storeData (ofs value : Nat) : Checked Errno (List UInt8) := do
  let buf ← writeWord k.endian buf ofs value
  writeWord k.endian buf crc32Offset 0

/-- `tstore`: the buffer afterwards. -/
def Kind.tstore (ofs len : Nat) (text : List UInt8) : Kind → Checked Errno (List UInt8)
  | .u32tvs none | .u32s | .string => .error (.error .eopnotsupp)
  | .u32tvs (some tvs) =>
    if len ≠ 4 then .error (.error .einval)
    else
      match tvs.find? fun tv => k.sysfsStreq text (utf8 tv.2) with
      | none => .error (.error .einval)
      | some tv => storeData k buf ofs tv.1
  | .boolts strfalse strtrue =>
    if len ≠ 4 then .error (.error .einval)
    else if k.sysfsStreq text (utf8 strfalse) then storeData k buf ofs 0
    else if k.sysfsStreq text (utf8 strtrue) then storeData k buf ofs 1
    else .error (.error .einval)
  | .bootdelays =>
    if len ≠ 4 then .error (.error .einval)
    else
      match k.kstrtou32 text with
      | .error e => .error (.error e)
      | .ok data =>
        if data < 1 ∨ 9 < data then .error (.error .einval) else storeData k buf ofs data

/-- The attribute has no function to store it. -/
def Kind.readOnly : Kind → Bool
  | .string | .u32s => true
  | _ => false

/-- `sc_attr_store`, for a caller with `CAP_SYS_ADMIN` or without. -/
def scAttrStore (capable : Bool) (attr : Placed) (text : List UInt8) : Checked Errno (List UInt8) :=
  if !capable then .error (.error .eacces)
  else if attr.kind.readOnly then .error (.error .eopnotsupp)
  else if attr.pldLen = 0 then .error (.error .enoent)
  else attr.kind.tstore k buf attr.pldOfs attr.pldLen text

end Store

/-! ### The file `commit` -/

/-- How an operation on the whole flash ends. One that returns an error, or 0 for some of the bytes
only, leaves any bytes. -/
inductive MtdResult where
  | done
  | short (left : List UInt8)
  | error (code : Nat) (left : List UInt8)
  deriving DecidableEq, Repr

/-- What is there afterwards, where an operation should have put something. -/
def MtdResult.leaves (result : MtdResult) (contents : List UInt8) : List UInt8 :=
  match result with
  | done => contents
  | short left | error _ left => (left ++ contents.drop left.length).take contents.length

/-- The error that `sc_commit_store` makes of it. -/
def MtdResult.ret : MtdResult → Option Errno
  | done => none
  | short _ => some .eio
  | error code _ => some (.mtd code)

/-- The flash during a call. -/
structure Mtd where
  /-- `get_mtd_device_nm` finds it. -/
  found : Bool
  read : MtdResult
  /-- Nothing for an erasure that succeeds. -/
  erase : Option (Nat × List UInt8)
  write : MtdResult

structure State where
  /-- `sc_buf`. -/
  buf : List UInt8
  flash : List UInt8
  attrs : List Placed
  deriving DecidableEq, Repr

/-- `RB_SC_GETCRC`. -/
def getCrc (k : Kernel) (buf : List UInt8) : Checked Errno Nat := readWord k.endian buf crc32Offset

/-- `sc_commit_show`: the file reads clean. -/
def Clean (k : Kernel) (s : State) : Prop := ∃ crc, getCrc k s.buf = .ok crc ∧ crc ≠ 0

/-- The rereading in `sc_commit_store`: the buffer, and the error. -/
def reread (mtd : Mtd) (s : State) : State × Option Errno :=
  ({ s with buf := mtd.read.leaves s.flash }, mtd.read.ret)

/-- The writing in `sc_commit_store`. -/
def flush (k : Kernel) (mtd : Mtd) (s : State) : Checked Errno (State × Option Errno) := do
  let buf ← writeWord k.endian s.buf crc32Offset (ethernetCrc32 s.buf).toNat
  match mtd.erase with
  | some (code, left) =>
    let flash := (MtdResult.error code left).leaves s.flash
    return ({ s with buf := buf, flash := flash }, some (.mtd code))
  | none => return ({ s with buf := buf, flash := mtd.write.leaves buf }, mtd.write.ret)

/-- What `sc_commit_store` does with the flash. -/
def commitMtd (k : Kernel) (mtd : Mtd) (s : State) (doFlush : Bool) :
    Checked Errno (State × Option Errno) :=
  if doFlush then flush k mtd s else .ok (reread mtd s)

/-- `sc_commit_store`. -/
def scCommitStore (k : Kernel) (mtd : Mtd) (s : State) (text : List UInt8) :
    Checked Errno (State × Option Errno) := do
  let crc ← getCrc k s.buf
  if crc ≠ 0 then return (s, none)
  else
    match k.kstrtobool text with
    | .error e => return (s, some e)
    | .ok doFlush =>
      if !mtd.found then return (s, some .enodev)
      else
        let (s, ret) ← commitMtd k mtd s doFlush
        match ret with
        | none => return (s, none)
        | some ret =>
          let buf ← writeWord k.endian s.buf crc32Offset 0
          return ({ s with buf := buf }, some ret)

/-! ### Steps -/

/-- The calls that change something. -/
inductive Op where
  | store (attr : Placed) (capable : Bool) (text : List UInt8)
  | commit (mtd : Mtd) (text : List UInt8)

/-- A call, and the error that it returns. -/
def step (k : Kernel) (s : State) : Op → Option (State × Option Errno)
  | .store attr capable text =>
    if attr ∈ s.attrs then
      match scAttrStore k s.buf capable attr text with
      | .ok buf => some ({ s with buf := buf }, none)
      | .error (.error e) => some (s, some e)
      | .error .outside => none
    else none
  | .commit mtd text => (scCommitStore k mtd s text).toOption

/-- One round of the loop of `rb_softconfig_init` over the known tags. -/
def placeTag (k : Kernel) (conf : List UInt8) (attr : Attr) : Checked Errno Placed := do
  match ← locate k.endian conf 8 attr.tagId with
  | none => return ⟨attr, 0, 0⟩
  | some (ofs, len) => return ⟨attr, ofs, len⟩

/-- `rb_softconfig_init` on what is read from the partition; `sysfs` takes all attributes. -/
def rbSoftconfigInit (k : Kernel) (flash : List UInt8) : Checked Errno State := do
  let magic ← readWord k.endian flash 0
  if magic ≠ magicSoft then .error (.error .einval)
  else
    let attrs ← (scAttrs k.soc).mapM (placeTag k flash)
    return ⟨flash, flash, attrs⟩

end FirewallCore.Mikrotik.SoftConfig

/-!
What the file `commit` of the soft configuration promises, over every run.

The word of the checksum is 0 while the buffer may differ from the flash, so a buffer that reads
clean is on flash. A commit of a clean buffer does nothing, and does not look at the checksum.
-/

namespace FirewallCore.Mikrotik.SoftConfig

open FirewallCore.Lib

/-! ### What is promised -/

/-- The checksum on flash is that of the buffer with the word of the checksum zeroed. -/
def Checksummed (k : Kernel) (s : State) (crc : Nat) : Prop :=
  getCrc k s.flash = .ok crc ∧ ∃ zeroed : List UInt8,
    (writeWord k.endian s.buf crc32Offset 0 : Checked Errno (List UInt8)) = .ok zeroed ∧
      crc = (ethernetCrc32 zeroed).toNat

/-- Every attribute shows what is on flash. -/
def ShowsFlash (k : Kernel) (s : State) : Prop :=
  ∀ attr ∈ s.attrs, scAttrShow k.endian s.buf attr = scAttrShow k.endian s.flash attr

/-- What a call keeps to. -/
structure Keeps (k : Kernel) (s : State) (op : Op) (s' : State) (ret : Option Errno) : Prop where
  /-- A commit or revert of a clean buffer does nothing. -/
  noOp : ∀ mtd text, op = .commit mtd text → Clean k s → s' = s ∧ ret = none
  /-- A commit of changes that returns success writes them and their checksum. -/
  commit : ∀ mtd text, op = .commit mtd text → k.kstrtobool text = .ok true → ¬Clean k s →
    ret = none → ∃ crc, Checksummed k s' crc ∧ (crc ≠ 0 → Clean k s')
  /-- After a revert that returns success the attributes are those on flash. -/
  revert : ∀ mtd text, op = .commit mtd text → k.kstrtobool text = .ok false → ret = none →
    ShowsFlash k s'

/-- The buffer has its checksum, and is on flash if it reads clean. -/
structure Inv (k : Kernel) (s : State) : Prop where
  length : s.buf.length = s.flash.length
  room : crc32Offset + 4 ≤ s.buf.length
  clean : Clean k s → s.buf = s.flash

section Steps

variable {k : Kernel} {s s' : State} {ret : Option Errno} {op : Op} {buf buf' : List UInt8}

theorem MtdResult.length_leaves (result : MtdResult) (contents : List UInt8) :
    (result.leaves contents).length = contents.length := by
  cases result with
  | done => rfl
  | short left | error code left =>
    rw [MtdResult.leaves, List.length_take, List.length_append, List.length_drop]
    omega

theorem not_clean_of_zero (zero : getCrc k s.buf = .ok 0) : ¬Clean k s := by
  rintro ⟨crc, found, notZero⟩
  rw [zero] at found
  cases found
  exact notZero rfl

theorem clean_or_zero (room : crc32Offset + 4 ≤ s.buf.length) :
    Clean k s ∨ getCrc k s.buf = .ok 0 := by
  have found : getCrc k s.buf = _ := readWord_inside room
  by_cases zero : k.endian.number ((s.buf.drop crc32Offset).take 4) = 0
  · rw [zero] at found
    exact .inr found
  · exact .inl ⟨_, found, zero⟩

/-- A buffer whose checksum has been cleared. -/
theorem Inv.cleared (length : buf.length = s.flash.length)
    (written : (writeWord k.endian buf crc32Offset 0 : Checked Errno (List UInt8)) = .ok buf') :
    Inv k { s with buf := buf' } := by
  have same := writeWord_length written
  have inside := (writeWord_ok written).1
  refine ⟨same.trans length, by rw [same]; exact inside, fun clean => ?_⟩
  exact absurd clean (not_clean_of_zero (readWord_writeWord (by decide) written))

theorem storeData_ok {ofs value : Nat} (stored : storeData k buf ofs value = .ok buf') :
    ∃ changed : List UInt8, changed.length = buf.length ∧
      (writeWord k.endian changed crc32Offset 0 : Checked Errno (List UInt8)) = .ok buf' := by
  cases first : (writeWord k.endian buf ofs value : Checked Errno (List UInt8)) with
  | error fault =>
    rw [storeData, first] at stored
    cases stored
  | ok changed =>
    rw [storeData, first] at stored
    exact ⟨changed, writeWord_length first, stored⟩

/-- Whatever is stored, it is one value. -/
theorem tstore_ok {kind : Kind} {ofs len : Nat} {text : List UInt8}
    (stored : kind.tstore k buf ofs len text = .ok buf') :
    ∃ value, storeData k buf ofs value = .ok buf' := by
  unfold Kind.tstore at stored
  split at stored
  · cases stored
  · cases stored
  · cases stored
  · split at stored
    · cases stored
    · split at stored
      · cases stored
      · exact ⟨_, stored⟩
  · split at stored
    · cases stored
    · split at stored
      · exact ⟨_, stored⟩
      · split at stored
        · exact ⟨_, stored⟩
        · cases stored
  · split at stored
    · cases stored
    · split at stored
      · cases stored
      · split at stored
        · cases stored
        · exact ⟨_, stored⟩

theorem scAttrStore_ok {capable : Bool} {attr : Placed} {text : List UInt8}
    (stored : scAttrStore k buf capable attr text = .ok buf') :
    ∃ value, storeData k buf attr.pldOfs value = .ok buf' := by
  unfold scAttrStore at stored
  split at stored
  · cases stored
  · split at stored
    · cases stored
    · split at stored
      · cases stored
      · exact tstore_ok stored

theorem Inv.store {capable : Bool} {attr : Placed} {text : List UInt8} (inv : Inv k s)
    (stored : scAttrStore k s.buf capable attr text = .ok buf') : Inv k { s with buf := buf' } := by
  obtain ⟨value, stored⟩ := scAttrStore_ok stored
  obtain ⟨changed, length, cleared⟩ := storeData_ok stored
  exact Inv.cleared (length.trans inv.length) cleared

/-- The rereading, and what is cleared if it fails. -/
theorem reread_spec (mtd : Mtd) (s : State) :
    (reread mtd s).1.buf.length = s.flash.length ∧ (reread mtd s).1.flash = s.flash ∧
      ((reread mtd s).2 = none → (reread mtd s).1.buf = s.flash) := by
  refine ⟨MtdResult.length_leaves _ _, rfl, fun success => ?_⟩
  cases result : mtd.read with
  | done => rw [reread, result]; rfl
  | short left | error code left =>
    rw [reread, result] at success
    cases success

/-- The writing of a buffer with changes. -/
theorem flush_spec {mtd : Mtd} (inv : Inv k s) (zero : getCrc k s.buf = .ok 0)
    (flushed : flush k mtd s = .ok (s', ret)) :
    s'.buf.length = s'.flash.length ∧ s'.flash.length = s.flash.length ∧
      (ret = none → s'.buf = s'.flash ∧ ∃ crc, Checksummed k s' crc) := by
  unfold flush at flushed
  cases written : (writeWord k.endian s.buf crc32Offset (ethernetCrc32 s.buf).toNat :
      Checked Errno (List UInt8)) with
  | error fault =>
    rw [written] at flushed
    cases flushed
  | ok buf =>
    rw [written] at flushed
    have length := writeWord_length written
    cases erased : mtd.erase with
    | some failed =>
      obtain ⟨code, left⟩ := failed
      simp only [erased] at flushed
      cases flushed
      have same := MtdResult.length_leaves (.error code left) s.flash
      exact ⟨length.trans (inv.length.trans same.symm), same, fun success => nomatch success⟩
    | none =>
      simp only [erased] at flushed
      cases flushed
      have same := MtdResult.length_leaves mtd.write buf
      refine ⟨same.symm, same.trans (length.trans inv.length), fun success => ?_⟩
      cases result : mtd.write with
      | done =>
        refine ⟨rfl, (ethernetCrc32 s.buf).toNat, ?_, s.buf, writeWord_back zero written, rfl⟩
        exact readWord_writeWord (UInt32.toNat_lt _) written
      | short left | error code left =>
        rw [result] at success
        cases success

/-- A commit or revert of a buffer with changes. -/
theorem scCommitStore_zero {mtd : Mtd} {text : List UInt8} (zero : getCrc k s.buf = .ok 0)
    (done : scCommitStore k mtd s text = .ok (s', ret)) :
    (s' = s ∧ ret ≠ none) ∨
    ∃ (doFlush : Bool) (s₁ : State) (ret₁ : Option Errno), k.kstrtobool text = .ok doFlush ∧
      commitMtd k mtd s doFlush = .ok (s₁, ret₁) ∧ ret = ret₁ ∧
      (ret₁ = none ∧ s' = s₁ ∨ ret₁ ≠ none ∧ ∃ buf : List UInt8, s' = { s₁ with buf := buf } ∧
        (writeWord k.endian s₁.buf crc32Offset 0 : Checked Errno (List UInt8)) = .ok buf) := by
  unfold scCommitStore at done
  rw [zero] at done
  cases parsed : k.kstrtobool text with
  | error e =>
    rw [parsed] at done
    cases done
    exact .inl ⟨rfl, by simp⟩
  | ok doFlush =>
    rw [parsed] at done
    dsimp only at done
    split at done
    · cases done
      exact .inl ⟨rfl, by simp⟩
    · right
      cases moved : commitMtd k mtd s doFlush with
      | error fault =>
        rw [moved] at done
        cases done
      | ok out =>
        obtain ⟨s₁, ret₁⟩ := out
        rw [moved] at done
        refine ⟨doFlush, s₁, ret₁, rfl, moved, ?_⟩
        cases ret₁ with
        | none =>
          cases done
          exact ⟨rfl, .inl ⟨rfl, rfl⟩⟩
        | some e =>
          cases written : (writeWord k.endian s₁.buf crc32Offset 0 :
              Checked Errno (List UInt8)) with
          | error fault =>
            change (writeWord k.endian s₁.buf crc32Offset 0 >>= _) = _ at done
            rw [written] at done
            cases done
          | ok buf =>
            change (writeWord k.endian s₁.buf crc32Offset 0 >>= _) = _ at done
            rw [written] at done
            cases done
            exact ⟨rfl, .inr ⟨by simp, buf, rfl, rfl⟩⟩

theorem scCommitStore_clean {mtd : Mtd} {text : List UInt8} (clean : Clean k s)
    (done : scCommitStore k mtd s text = .ok (s', ret)) : s' = s ∧ ret = none := by
  obtain ⟨crc, found, notZero⟩ := clean
  unfold scCommitStore at done
  rw [found] at done
  change (if crc ≠ 0 then _ else _) = _ at done
  rw [if_pos notZero] at done
  cases done
  exact ⟨rfl, rfl⟩

theorem commit_spec {mtd : Mtd} {text : List UInt8} (inv : Inv k s)
    (done : scCommitStore k mtd s text = .ok (s', ret)) :
    Inv k s' ∧ Keeps k s (.commit mtd text) s' ret := by
  by_cases clean : Clean k s
  · obtain ⟨rfl, rfl⟩ := scCommitStore_clean clean done
    refine ⟨inv, ⟨fun _ _ _ _ => ⟨rfl, rfl⟩, fun _ _ _ _ dirty => absurd clean dirty, ?_⟩⟩
    intro _ _ _ _ _ attr _
    rw [inv.clean clean]
  · have zero := (clean_or_zero inv.room).resolve_left clean
    rcases scCommitStore_zero zero done with
      ⟨rfl, failed⟩ | ⟨doFlush, s₁, ret₁, parsed, moved, rfl, ends⟩
    · exact ⟨inv, ⟨fun _ _ _ now => absurd now clean, fun _ _ _ _ _ success => absurd success failed,
        fun _ _ _ _ success => absurd success failed⟩⟩
    · cases doFlush with
      | true =>
        obtain ⟨length, sameFlash, written⟩ := flush_spec inv zero moved
        have notFalse : ∀ mtd' text', Op.commit mtd text = .commit mtd' text' →
            k.kstrtobool text' ≠ .ok false := by
          rintro _ _ same found
          cases same
          rw [parsed] at found
          cases found
        rcases ends with ⟨success, rfl⟩ | ⟨failed, buf, rfl, cleared⟩
        · obtain ⟨equal, crc, sum⟩ := written success
          have room : crc32Offset + 4 ≤ s'.buf.length := by
            rw [length, sameFlash, ← inv.length]
            exact inv.room
          refine ⟨⟨length, room, fun _ => equal⟩, ⟨fun _ _ _ now => absurd now clean, ?_,
            fun _ _ same found => absurd found (notFalse _ _ same)⟩⟩
          intro _ _ _ _ _ _
          exact ⟨crc, sum, fun notZero => ⟨crc, by rw [equal]; exact sum.1, notZero⟩⟩
        · exact ⟨Inv.cleared length cleared, ⟨fun _ _ _ now => absurd now clean,
            fun _ _ _ _ _ success => absurd success failed,
            fun _ _ _ _ success => absurd success failed⟩⟩
      | false =>
        cases moved
        obtain ⟨length, sameFlash, equal⟩ := reread_spec mtd s
        have notTrue : ∀ mtd' text', Op.commit mtd text = .commit mtd' text' →
            k.kstrtobool text' ≠ .ok true := by
          rintro _ _ same found
          cases same
          rw [parsed] at found
          cases found
        rw [← sameFlash] at length
        rcases ends with ⟨success, rfl⟩ | ⟨failed, buf, rfl, cleared⟩
        · have equal := (equal success).trans sameFlash.symm
          have room : crc32Offset + 4 ≤ (reread mtd s).1.buf.length := by
            rw [length, sameFlash, ← inv.length]
            exact inv.room
          refine ⟨⟨length, room, fun _ => equal⟩, ⟨fun _ _ _ now => absurd now clean,
            fun _ _ same found => absurd found (notTrue _ _ same), ?_⟩⟩
          intro _ _ _ _ _ attr _
          exact congrArg (scAttrShow k.endian · attr) equal
        · exact ⟨Inv.cleared length cleared, ⟨fun _ _ _ now => absurd now clean,
            fun _ _ _ _ _ success => absurd success failed,
            fun _ _ _ _ success => absurd success failed⟩⟩

/-- One call keeps the invariant, and keeps to what is promised. -/
theorem step_spec (inv : Inv k s) (taken : step k s op = some (s', ret)) :
    Inv k s' ∧ Keeps k s op s' ret := by
  cases op with
  | store attr capable text =>
    have noCommit : Keeps k s (.store attr capable text) s' ret :=
      ⟨nofun, nofun, nofun⟩
    refine ⟨?_, noCommit⟩
    unfold step at taken
    dsimp only at taken
    split at taken
    · split at taken
      · rename_i stored
        cases taken
        exact inv.store stored
      · cases taken
        exact inv
      · cases taken
    · cases taken
  | commit mtd text =>
    unfold step at taken
    dsimp only at taken
    cases done : scCommitStore k mtd s text with
    | error fault =>
      rw [done] at taken
      cases taken
    | ok out =>
      rw [done] at taken
      cases taken
      exact commit_spec inv done

theorem init_inv {flash : List UInt8} (started : rbSoftconfigInit k flash = .ok s) : Inv k s := by
  unfold rbSoftconfigInit at started
  cases magic : (readWord k.endian flash 0 : Checked Errno Nat) with
  | error fault =>
    rw [magic] at started
    cases started
  | ok found =>
    rw [magic] at started
    change (if found ≠ magicSoft then _ else _) = _ at started
    split at started
    · cases started
    · by_cases short : flash.length < 8
      · have lost : (scAttrs k.soc).mapM (placeTag k flash) = .error .outside := by
          rw [scAttrs, List.mapM_cons, placeTag, locate, if_pos short]
          rfl
        rw [lost] at started
        cases started
      · cases placed : (scAttrs k.soc).mapM (placeTag k flash) with
        | error fault =>
          rw [placed] at started
          cases started
        | ok attrs =>
          rw [placed] at started
          cases started
          exact ⟨rfl, Nat.not_lt.mp short, fun _ => rfl⟩

/-- In every run a file that reads clean means a buffer that is on flash, and every call keeps to
what is promised. -/
theorem commit_protocol {flash : List UInt8} (started : rbSoftconfigInit k flash = .ok s)
    (run : Reaches (step k) (fun _ _ => True) s s') :
    (Clean k s' → s'.buf = s'.flash) ∧
      ∀ op s'' ret, step k s' op = some (s'', ret) → Keeps k s' op s'' ret := by
  have inv : Inv k s' := run.invariant (init_inv started)
    fun _ _ _ _ inv _ taken => (step_spec inv taken).1
  exact ⟨inv.clean, fun _ _ _ taken => (step_spec inv taken).2⟩

end Steps

/-! ### Two partitions -/

/-- A processor with the least byte first, and input functions that know one text each. -/
def plain : Kernel where
  endian := .little
  soc := .other
  kstrtobool text := if text = utf8 "1" then .ok true else .error .einval
  kstrtou32 _ := .error .einval
  sysfsStreq text known := text = known

/-- A partition without tags, with the word behind the magic number. -/
def untagged (word : UInt8) : List UInt8 := [0x53, 0x6f, 0x66, 0x74, word, 0, 0, 0]

/-- What is loaded of it. -/
def loaded (word : UInt8) : State :=
  ⟨untagged word, untagged word, (scAttrs .other).map fun attr => ⟨attr, 0, 0⟩⟩

/-- A flash that works. -/
def working : Mtd := ⟨true, .done, none, .done⟩

theorem init_untagged (word : UInt8) : rbSoftconfigInit plain (untagged word) = .ok (loaded word) := by
  have none : ∀ attr, placeTag plain (untagged word) attr = .ok ⟨attr, 0, 0⟩ := by
    intro attr
    have missing : locate plain.endian (untagged word) 8 attr.tagId = .ok none := by
      have found : ∃ e, routerbootTagFind plain.endian [] 0 attr.tagId = .error (.error e) := by
        unfold routerbootTagFind tagFindFrom
        split
        · exact ⟨_, rfl⟩
        · exact ⟨_, rfl⟩
      obtain ⟨e, found⟩ := found
      have rest : (untagged word).drop 8 = [] ∧ (untagged word).length - 8 = 0 := ⟨rfl, rfl⟩
      unfold locate
      rw [rest.1, rest.2, found]
      rfl
    rw [placeTag, missing]
    rfl
  have magic : (readWord plain.endian (untagged word) 0 : Checked Errno Nat) = .ok magicSoft := by
    simp [readWord, plain, untagged, Endian.number, magicSoft]
  have placed : (scAttrs plain.soc).mapM (placeTag plain (untagged word)) =
      .ok ((scAttrs .other).map fun attr => ⟨attr, 0, 0⟩) := by
    rw [funext none]
    exact List.mapM_pure
  rw [rbSoftconfigInit, magic]
  simp only [bind, Except.bind, ne_eq, not_true_eq_false, if_false]
  rw [placed]
  rfl

/-- What is committed from a partition whose checksum is 0. -/
def committed : State :=
  { loaded 0 with
    buf := (untagged 0).take 4 ++ Endian.little.bytes (ethernetCrc32 (untagged 0)).toNat
    flash := (untagged 0).take 4 ++ Endian.little.bytes (ethernetCrc32 (untagged 0)).toNat }

theorem commit_protocol_untagged :
    (Clean plain committed → committed.buf = committed.flash) ∧
      ∀ op s'' ret, step plain committed op = some (s'', ret) → Keeps plain committed op s'' ret := by
  have taken : step plain (loaded 0) (.commit working (utf8 "1")) = some (committed, none) := by
    decide +kernel
  exact commit_protocol (init_untagged 0) (Reaches.refl.tail trivial taken)

/-- A commit of a buffer that reads clean returns success, and leaves a checksum that is not that of
the buffer. -/
theorem commit_unsummed :
    ¬∀ flash s s' mtd s'', rbSoftconfigInit plain flash = .ok s →
      Reaches (step plain) (fun _ _ => True) s s' →
      step plain s' (.commit mtd (utf8 "1")) = some (s'', none) →
      ∃ crc, Checksummed plain s'' crc ∧ Clean plain s'' := by
  intro claimed
  obtain ⟨crc, ⟨found, zeroed, written, sum⟩, -⟩ := claimed (untagged 1) (loaded 1) (loaded 1) working
    (loaded 1) (init_untagged 1) .refl rfl
  have one : crc = 1 := (Except.ok.inj found).symm
  have cleared : zeroed = untagged 0 := (Except.ok.inj written).symm
  rw [one, cleared] at sum
  exact absurd sum (by decide +kernel)

end FirewallCore.Mikrotik.SoftConfig
