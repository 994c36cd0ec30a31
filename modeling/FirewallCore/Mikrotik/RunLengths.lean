import FirewallCore.Mikrotik.HardConfig
import FirewallCore.Mikrotik.Lz77Bounds
import FirewallCore.Mikrotik.Routerboot
import FirewallCore.Mikrotik.TagFind

/-!
The run lengths of MikroTik: what `routerboot_rle_decode` writes, and where it reads.

Its input has a length, and what may be read of it ends elsewhere. A run that starts before the end
of the length is decoded, and there is no check that its bytes may be read.
-/

namespace FirewallCore.Mikrotik.Rle

open FirewallCore.Lib

/-! ### Runs -/

/-- A run: bytes that stand as they are, or a byte that is repeated. -/
inductive Run where
  | verbatim (bytes : List UInt8)
  | fill (n : Nat) (byte : UInt8)
  deriving DecidableEq, Repr

/-- Its length can be written. -/
def Run.Coded : Run → Prop
  | verbatim bytes => bytes ≠ [] ∧ bytes.length ≤ 128
  | fill n _ => n < 128

/-- The run as it is written. -/
def Run.code : Run → List UInt8
  | verbatim bytes => UInt8.ofNat (256 - bytes.length) :: bytes
  | fill n byte => [UInt8.ofNat n, byte]

/-- What the run stands for. -/
def Run.expand : Run → List UInt8
  | verbatim bytes => bytes
  | fill n byte => List.replicate n byte

def code (runs : List Run) : List UInt8 := runs.flatMap Run.code

def expand (runs : List Run) : List UInt8 := runs.flatMap Run.expand

/-- What may be read ends inside of a run, which the length that is left and the room for the output
allow. -/
def CutsRun (left room : Nat) (rest : List UInt8) : Prop :=
  rest = [] ∨ (∃ run, rest = [run] ∧ run.toNat < 128) ∨
    ∃ run later, rest = run :: later ∧ 128 ≤ run.toNat ∧ later.length < 256 - run.toNat ∧
      256 - run.toNat < left ∧ 256 - run.toNat ≤ room

/-- What may be read ends inside of a run, behind whole runs. -/
def Breaks (input : List UInt8) (inlen outlen : Nat) : Prop :=
  ∃ (runs : List Run) (rest : List UInt8), (∀ run ∈ runs, run.Coded) ∧ input = code runs ++ rest ∧
    (code runs).length + 2 ≤ inlen ∧ (expand runs).length ≤ outlen ∧
    CutsRun (inlen - (code runs).length) (outlen - (expand runs).length) rest

/-! ### Decoding -/

section Decode

variable {input out result : List UInt8} {inlen outlen : Nat} {r : Run}

@[simp] theorem code_nil : code [] = [] := rfl

@[simp] theorem code_cons (r : Run) (runs : List Run) : code (r :: runs) = r.code ++ code runs := rfl

@[simp] theorem expand_nil : expand [] = [] := rfl

@[simp] theorem expand_cons (r : Run) (runs : List Run) :
    expand (r :: runs) = r.expand ++ expand runs := rfl

theorem rleDecodeFrom_verbatim {run : UInt8} (later : List UInt8) (more : 2 ≤ inlen)
    (verbatim : 128 ≤ run.toNat) :
    rleDecodeFrom outlen inlen (run :: later) out =
      if inlen - 1 < 256 - run.toNat then .error (.error .enospc)
      else if outlen < out.length + (256 - run.toNat) then .error (.error .enospc)
      else if later.length < 256 - run.toNat then .error .outside
      else rleDecodeFrom outlen (inlen - 1 - (256 - run.toNat)) (later.drop (256 - run.toNat))
        (out ++ later.take (256 - run.toNat)) := by
  rw [rleDecodeFrom.eq_def, if_neg (by omega)]
  simp only [if_pos verbatim]

theorem rleDecodeFrom_fill {run byte : UInt8} (later : List UInt8) (more : 2 ≤ inlen)
    (fill : run.toNat < 128) :
    rleDecodeFrom outlen inlen (run :: byte :: later) out =
      if outlen < out.length + run.toNat then .error (.error .enospc)
      else rleDecodeFrom outlen (inlen - 2) later (out ++ List.replicate run.toNat byte) := by
  rw [rleDecodeFrom.eq_def, if_neg (by omega)]
  simp only [if_neg (Nat.not_le.mpr fill)]

/-- One run that the length and the output have room for. -/
theorem rleDecodeFrom_run (rest : List UInt8) (coded : r.Coded)
    (inside : r.code.length ≤ inlen) (room : out.length + r.expand.length ≤ outlen) :
    rleDecodeFrom outlen inlen (r.code ++ rest) out =
      rleDecodeFrom outlen (inlen - r.code.length) rest (out ++ r.expand) := by
  cases r with
  | verbatim bytes =>
    obtain ⟨some, small⟩ := coded
    have pos := List.length_pos_iff.mpr some
    have run : (UInt8.ofNat (256 - bytes.length)).toNat = 256 - bytes.length := by
      rw [UInt8.toNat_ofNat', Nat.mod_eq_of_lt (by omega)]
    have size : 256 - (256 - bytes.length) = bytes.length := by omega
    rw [Run.code, List.length_cons] at inside
    rw [Run.expand] at room
    rw [Run.code, List.cons_append, rleDecodeFrom_verbatim _ (by omega) (by omega), run, size,
      if_neg (by omega), if_neg (by omega), if_neg (by rw [List.length_append]; omega),
      List.drop_left, List.take_left, List.length_cons, Run.expand]
    congr 1
    omega
  | fill n byte =>
    have small : n < 128 := coded
    have run : (UInt8.ofNat n).toNat = n := by
      rw [UInt8.toNat_ofNat', Nat.mod_eq_of_lt (by omega)]
    have inside : 2 ≤ inlen := inside
    rw [Run.expand, List.length_replicate] at room
    rw [Run.code, List.cons_append, List.cons_append, List.nil_append,
      rleDecodeFrom_fill _ inside (by omega), run, if_neg (by omega)]
    rfl

theorem rleDecodeFrom_runs {runs : List Run} (rest : List UInt8) (coded : ∀ r ∈ runs, r.Coded)
    (inside : (code runs).length ≤ inlen) (room : out.length + (expand runs).length ≤ outlen) :
    rleDecodeFrom outlen inlen (code runs ++ rest) out =
      rleDecodeFrom outlen (inlen - (code runs).length) rest (out ++ expand runs) := by
  induction runs generalizing inlen out with
  | nil => simp
  | cons r runs ih =>
    rw [code_cons, List.length_append] at inside
    rw [expand_cons, List.length_append] at room
    rw [code_cons, List.append_assoc,
      rleDecodeFrom_run _ (coded r List.mem_cons_self) (by omega) (by omega),
      ih (fun r mem => coded r (List.mem_cons_of_mem _ mem)) (by omega)
        (by rw [List.length_append]; omega),
      expand_cons, List.length_append, Nat.sub_sub, List.append_assoc]

theorem rleDecodeFrom_cuts {rest : List UInt8} (more : 2 ≤ inlen)
    (room : out.length ≤ outlen) (cuts : CutsRun inlen (outlen - out.length) rest) :
    rleDecodeFrom outlen inlen rest out = .error .outside := by
  rcases cuts with rfl | ⟨run, rfl, fill⟩ | ⟨run, later, rfl, verbatim, short, inside, fits⟩
  · rw [rleDecodeFrom.eq_def, if_neg (by omega)]
  · rw [rleDecodeFrom.eq_def, if_neg (by omega)]
    simp only [if_neg (Nat.not_le.mpr fill)]
  · rw [rleDecodeFrom_verbatim _ more verbatim, if_neg (by omega), if_neg (by omega), if_pos short]

/-- What is decoded fits. -/
theorem length_rleDecodeFrom (room : out.length ≤ outlen)
    (decoded : rleDecodeFrom outlen inlen input out = .ok result) : result.length ≤ outlen := by
  fun_induction rleDecodeFrom outlen inlen input out with
  | case1 inlen input out few =>
    cases decoded
    exact room
  | case6 inlen out more byte input verbatim run inside fits there ih =>
    refine ih ?_ decoded
    rw [List.length_append, List.length_take]
    omega
  | case9 inlen out more run fill byte input fits ih =>
    refine ih ?_ decoded
    rw [List.length_append, List.length_replicate]
    omega
  | case2 | case3 | case4 | case5 | case7 | case8 => cases decoded

/-- A decoder that reads outside is behind whole runs then. -/
theorem rleDecodeFrom_outside (room : out.length ≤ outlen)
    (outside : rleDecodeFrom outlen inlen input out = .error .outside) :
    ∃ (runs : List Run) (rest : List UInt8), (∀ run ∈ runs, run.Coded) ∧ input = code runs ++ rest ∧
      (code runs).length + 2 ≤ inlen ∧ out.length + (expand runs).length ≤ outlen ∧
      CutsRun (inlen - (code runs).length) (outlen - (out.length + (expand runs).length)) rest := by
  have here : ∀ {inlen : Nat} {input : List UInt8} {out : List UInt8}, 2 ≤ inlen →
      out.length ≤ outlen → CutsRun inlen (outlen - out.length) input →
      ∃ (runs : List Run) (rest : List UInt8), (∀ run ∈ runs, run.Coded) ∧
        input = code runs ++ rest ∧ (code runs).length + 2 ≤ inlen ∧
        out.length + (expand runs).length ≤ outlen ∧
        CutsRun (inlen - (code runs).length) (outlen - (out.length + (expand runs).length)) rest :=
    fun more room cuts => ⟨[], _, by simp, rfl, by simpa using more, by simpa using room, by simpa using cuts⟩
  fun_induction rleDecodeFrom outlen inlen input out with
  | case2 inlen out more => exact here (by omega) room (.inl rfl)
  | case5 inlen out more byte input verbatim run inside fits missing =>
    exact here (by omega) room (.inr (.inr ⟨byte, input, rfl, verbatim, missing, by omega, by omega⟩))
  | case7 inlen out more run fill =>
    exact here (by omega) room (.inr (.inl ⟨run, rfl, by omega⟩))
  | case6 inlen out more byte input verbatim run inside fits there ih =>
    have top := byte.toNat_lt
    have size : (input.take run).length = run := by
      rw [List.length_take]
      omega
    obtain ⟨runs, rest, coded, split, short, fits', cuts⟩ :=
      ih (by rw [List.length_append, size]; omega) outside
    have first : (Run.verbatim (input.take run)).code = byte :: input.take run := by
      rw [Run.code, size, Nat.sub_sub_self top.le, UInt8.ofNat_toNat]
    rw [List.length_append, size] at fits' cuts
    refine ⟨.verbatim (input.take run) :: runs, rest, ?_, ?_, ?_, ?_, ?_⟩
    · intro r mem
      rcases List.mem_cons.mp mem with rfl | mem
      · refine ⟨?_, by omega⟩
        intro empty
        rw [empty, List.length_nil] at size
        omega
      · exact coded r mem
    · rw [code_cons, first, List.cons_append, List.cons_append, List.append_assoc, ← split, List.take_append_drop]
    · rw [code_cons, first, List.length_append, List.length_cons, size]
      omega
    · rw [expand_cons, Run.expand, List.length_append, size]
      omega
    · rw [code_cons, first, expand_cons, Run.expand, List.length_append, List.length_append,
        List.length_cons, size, ← Nat.add_assoc, ← Nat.sub_sub, Nat.add_comm run 1, ← Nat.sub_sub]
      exact cuts
  | case9 inlen out more run fill byte input fits ih =>
    obtain ⟨runs, rest, coded, split, short, fits', cuts⟩ :=
      ih (by rw [List.length_append, List.length_replicate]; omega) outside
    have first : (Run.fill run.toNat byte).code = [run, byte] := by
      rw [Run.code, UInt8.ofNat_toNat]
    rw [List.length_append, List.length_replicate] at fits' cuts
    refine ⟨.fill run.toNat byte :: runs, rest, ?_, ?_, ?_, ?_, ?_⟩
    · intro r mem
      rcases List.mem_cons.mp mem with rfl | mem
      · exact Nat.not_le.mp fill
      · exact coded r mem
    · rw [code_cons, first, List.append_assoc, ← split]
      rfl
    · rw [code_cons, first, List.length_append]
      change 2 + _ + 2 ≤ _
      omega
    · rw [expand_cons, Run.expand, List.length_append, List.length_replicate]
      omega
    · rw [code_cons, first, expand_cons, Run.expand, List.length_append, List.length_append,
        List.length_replicate, ← Nat.add_assoc, ← Nat.sub_sub]
      exact cuts
  | case1 | case3 | case4 | case8 => cases outside

theorem rleDecode_outside_iff :
    Outside (routerbootRleDecode input inlen outlen) ↔ Breaks input inlen outlen := by
  constructor
  · intro outside
    unfold routerbootRleDecode at outside
    split at outside
    · cases outside
    · obtain ⟨runs, rest, coded, split, short, fits, cuts⟩ :=
        rleDecodeFrom_outside (Nat.zero_le _) outside
      rw [List.length_nil, Nat.zero_add] at fits cuts
      exact ⟨runs, rest, coded, split, short, fits, cuts⟩
  · rintro ⟨runs, rest, coded, rfl, short, fits, cuts⟩
    unfold Outside routerbootRleDecode
    rw [if_neg (by omega), rleDecodeFrom_runs rest coded (by omega) (by simpa using fits)]
    exact rleDecodeFrom_cuts (by omega) (by simpa using fits) (by simpa using cuts)

theorem length_rleDecode (decoded : routerbootRleDecode input inlen outlen = .ok result) :
    result.length ≤ outlen := by
  unfold routerbootRleDecode at decoded
  split at decoded
  · cases decoded
  · exact length_rleDecodeFrom (Nat.zero_le _) decoded

/-- Where all of the length may be read, the decoder stays inside. -/
theorem not_breaks (there : inlen ≤ input.length) : ¬Breaks input inlen outlen := by
  rintro ⟨runs, rest, -, rfl, short, -, cuts⟩
  rw [List.length_append] at there
  rcases cuts with rfl | ⟨run, rfl, -⟩ | ⟨run, later, rfl, -, missing, inside, -⟩
  · rw [List.length_nil] at there
    omega
  · rw [List.length_singleton] at there
    omega
  · rw [List.length_cons] at there
    omega

end Decode

end FirewallCore.Mikrotik.Rle

/-!
Where `hc_wlan_data_unpack` reads, for any payload.

Offsets of tags are cut to 16 bits, and lengths are compared with a whole buffer and not with what
is behind the offset. The exact conditions are stated for each of the formats that are nested.
-/

namespace FirewallCore.Mikrotik

open FirewallCore.Lib

/-! ### Conditions -/

/-- The payload of a tag, as it is compared with the length of a buffer, is inside of it. -/
structure ErdInside (e : Endian) (tagId : Nat) (buf : List UInt8) : Prop where
  search : ¬LeadsOut e buf buf.length tagId 0
  payload : ∀ ofs len, Leads e buf buf.length tagId 0 ofs len → len ≤ buf.length →
    ofs % 2 ^ 16 + len ≤ buf.length

/-- The magic number of ERD data is the word with this index, and no earlier one. -/
structure ErdAt (e : Endian) (temp : List UInt8) (templen i : Nat) : Prop where
  here : (readWord e temp (4 * i) : Checked Errno Nat) = .ok magicErd
  first : ∀ j < i, (readWord e temp (4 * j) : Checked Errno Nat) ≠ .ok magicErd
  near : i = 0 ∨ 4 * i < templen

/-- What is left behind a word, a `size_t`. -/
def Machine.behind (m : Machine) (templen i : Nat) : Nat :=
  (templen + m.sizes - 4 * (i + 1)) % m.sizes

/-- Behind the magic number in the temporary buffer, the search and the run lengths stay inside. -/
structure TempInside (m : Machine) (tagId : Nat) (out : List UInt8) (i : Nat) : Prop where
  search : ¬LeadsOut m.endian ((tempbuf m artSize out).drop (4 * (i + 1)))
    (m.behind out.length i) tagId 0
  runs : ∀ ofs len, Leads m.endian ((tempbuf m artSize out).drop (4 * (i + 1)))
      (m.behind out.length i) tagId 0 ofs len → len ≤ m.behind out.length i →
    ¬Rle.Breaks ((tempbuf m artSize out).drop (4 * (i + 1) + ofs % 2 ^ 16)) len artSize

/-- The checks of the decompressor miss nothing. -/
def Lz77Inside (input : List UInt8) : Prop :=
  ∀ groups more, Lz77.Valid groups 0 [] → bits input = Lz77.groupBits groups ++ more →
    (Lz77.expand groups 0 []).length ≤ artSize → Lz77.Clear input.length 0 groups →
    ¬Lz77.Breaks input.length artSize (Lz77.groupBits groups).length
      (Lz77.expand groups 0 []).length more

/-- A payload from which data with an identification is unpacked. -/
structure PayloadInside (m : Machine) (tagId : Nat) (payload : List UInt8) : Prop where
  word : 4 ≤ payload.length
  erd : m.endian.number (payload.take 4) = magicErd → tagId ≠ 0 →
    ErdInside m.endian tagId (payload.drop 4)
  lz77 : m.endian.number (payload.take 4) = magicLz77 → tagId ≠ erdSolo →
    (payload.drop 4).length ≤ artSize → Lz77Inside (payload.drop 4)
  temp : ∀ magic, m.endian.number (payload.take 4) = magic →
    magic = magicLzor ∨ magic = magicLz77 ∧ tagId ≠ erdSolo → tagId ≠ 0 →
    ∀ out i, decompressWlan m (payload.drop 4) artSize magic = .ok out →
      ErdAt m.endian (tempbuf m artSize out) out.length i → TempInside m tagId out i

section Unpack

variable {m : Machine} {e : Endian} {buf payload out temp result : List UInt8}
  {tagId buflen templen i k : Nat}

/-! ### Looking for tags -/

theorem outside_tagFind_iff : Outside (routerbootTagFind e buf buflen tagId) ↔
    tagId ≠ 0 ∧ LeadsOut e buf buflen tagId 0 := by
  unfold routerbootTagFind
  split
  · rename_i none
    simp [none]
  · rename_i given
    rw [tagFindFrom_outside_iff, and_iff_right given]

theorem tagFind_eq_ok_iff {place : Nat × Nat} : routerbootTagFind e buf buflen tagId = .ok place ↔
    tagId ≠ 0 ∧ ∃ ofs len, Leads e buf buflen tagId 0 ofs len ∧ place = (ofs % 2 ^ 16, len) := by
  unfold routerbootTagFind
  split
  · rename_i none
    simp [none]
  · rename_i given
    rw [tagFindFrom_ok_iff, and_iff_right given]

/-- A search, and what is done with the tag. -/
theorem outside_tagFind_bind_iff {f : Nat × Nat → Checked Errno (List UInt8)} :
    Outside (routerbootTagFind e buf buflen tagId >>= f) ↔ tagId ≠ 0 ∧
      (LeadsOut e buf buflen tagId 0 ∨
        ∃ ofs len, Leads e buf buflen tagId 0 ofs len ∧ Outside (f (ofs % 2 ^ 16, len))) := by
  rw [outside_bind_iff, outside_tagFind_iff]
  constructor
  · rintro (⟨given, out⟩ | ⟨place, found, lost⟩)
    · exact ⟨given, .inl out⟩
    · obtain ⟨given, ofs, len, leads, rfl⟩ := tagFind_eq_ok_iff.mp found
      exact ⟨given, .inr ⟨ofs, len, leads, lost⟩⟩
  · rintro ⟨given, out | ⟨ofs, len, leads, lost⟩⟩
    · exact .inl ⟨given, out⟩
    · exact .inr ⟨_, tagFind_eq_ok_iff.mpr ⟨given, ofs, len, leads, rfl⟩, lost⟩

/-! ### ERD data -/

theorem outside_unpackErd_iff : Outside (hcWlanDataUnpackErd m tagId buf artSize) ↔
    tagId ≠ 0 ∧ ¬ErdInside m.endian tagId buf := by
  have checked : ∀ ofs len, Outside (
      if buf.length < len then .error (.error .einval)
      else if buf.length < ofs + len then .error .outside
      else
        let out := m.lzo ((buf.drop ofs).take len) artSize
        if out.1 = 0 then pure out.2 else .error (.error (.lzo out.1)) : Checked Errno (List UInt8)) ↔
      len ≤ buf.length ∧ buf.length < ofs + len := by
    intro ofs len
    split
    · simp
      omega
    · split
      · simp
        omega
      · dsimp only
        split <;> simp [pure, Except.pure] <;> omega
  unfold hcWlanDataUnpackErd
  rw [outside_tagFind_bind_iff]
  refine and_congr_right fun given => ?_
  constructor
  · rintro (out | ⟨ofs, len, leads, lost⟩) inside
    · exact inside.search out
    · obtain ⟨fits, past⟩ := (checked _ _).mp lost
      have bound := inside.payload ofs len leads fits
      omega
  · intro not
    by_contra none
    rw [not_or] at none
    refine not ⟨none.1, fun ofs len leads fits => ?_⟩
    by_contra past
    exact none.2 ⟨ofs, len, leads, (checked _ _).mpr ⟨fits, Nat.not_le.mp past⟩⟩

/-! ### The temporary buffer -/

theorem length_tempbuf (fits : out.length ≤ artSize) : (tempbuf m artSize out).length = artSize := by
  rw [tempbuf, List.length_append, List.length_map, List.length_range]
  omega

/-- The search for the magic number stays inside of the temporary buffer. -/
theorem not_outside_findErd (whole : templen ≤ temp.length) (aligned : temp.length % 4 = 0)
    {pos : Nat} (at' : pos % 4 = 0) (inside : pos < temp.length) :
    ¬Outside (findErd m temp templen pos) := by
  fun_induction findErd m temp templen pos with
  | case1 pos fault word =>
    rw [readWord_inside (by omega)] at word
    cases word
  | case2 pos word => exact not_outside_ok
  | case3 pos word read other done => exact not_outside_error
  | case4 pos word read other more ih => exact ih (by omega) (by omega)

/-- Where the search for the magic number ends, from a word on. -/
theorem findErd_from_iff {pos needle : Nat} (at' : pos = 4 * k) :
    findErd m temp templen pos = .ok needle ↔
      ∃ i, k ≤ i ∧ needle = 4 * (i + 1) ∧
        (readWord m.endian temp (4 * i) : Checked Errno Nat) = .ok magicErd ∧
        (∀ j, k ≤ j → j < i → (readWord m.endian temp (4 * j) : Checked Errno Nat) ≠ .ok magicErd) ∧
        (i = k ∨ 4 * i < templen) := by
  fun_induction findErd m temp templen pos generalizing k with
  | case1 pos fault word =>
    refine iff_of_false nofun ?_
    rintro ⟨i, later, -, here, -⟩
    have bound := readWord_bounds here
    rw [readWord_inside (by omega)] at word
    cases word
  | case2 pos word =>
    subst at'
    constructor
    · intro same
      cases same
      exact ⟨k, Nat.le_refl k, rfl, word, fun j _ before => by omega, .inl rfl⟩
    · rintro ⟨i, later, rfl, -, first, -⟩
      rcases Nat.eq_or_lt_of_le later with rfl | later
      · rfl
      · exact absurd word (first k (Nat.le_refl k) later)
  | case3 pos word read other done =>
    subst at'
    refine iff_of_false nofun ?_
    rintro ⟨i, later, -, here, -, near⟩
    rcases near with rfl | near
    · rw [here] at read
      cases read
      exact other rfl
    · have same : i = k := by omega
      rw [same, read] at here
      cases here
      exact other rfl
  | case4 pos word read other more ih =>
    subst at'
    rw [ih (k := k + 1) rfl]
    constructor
    · rintro ⟨i, later, same, here, first, near⟩
      refine ⟨i, by omega, same, here, ?_, by omega⟩
      · intro j from' before
        rcases Nat.eq_or_lt_of_le from' with rfl | from'
        · rw [read]
          intro same
          cases same
          exact other rfl
        · exact first j from' before
    · rintro ⟨i, later, same, here, first, near⟩
      have notHere : i ≠ k := by
        rintro rfl
        rw [here] at read
        cases read
        exact other rfl
      exact ⟨i, by omega, same, here, fun j from' before => first j (by omega) before, by omega⟩

theorem findErd_iff {needle : Nat} : findErd m temp templen 0 = .ok needle ↔
    ∃ i, needle = 4 * (i + 1) ∧ ErdAt m.endian temp templen i := by
  rw [findErd_from_iff (k := 0) rfl]
  constructor
  · rintro ⟨i, -, same, here, first, near⟩
    exact ⟨i, same, ⟨here, fun j before => first j (Nat.zero_le j) before, near⟩⟩
  · rintro ⟨i, same, here, first, near⟩
    exact ⟨i, Nat.zero_le i, same, here, fun j _ before => first j before, near⟩

/-- What is behind the magic number. -/
theorem outside_unpackErdTags_iff (fits : out.length ≤ artSize) :
    Outside (unpackErdTags m tagId out artSize) ↔ tagId ≠ 0 ∧
      ∃ i, ErdAt m.endian (tempbuf m artSize out) out.length i ∧ ¬TempInside m tagId out i := by
  have size : (tempbuf m artSize out).length = artSize := length_tempbuf fits
  have found : ¬Outside (findErd m (tempbuf m artSize out) out.length 0) :=
    not_outside_findErd (by omega) (by rw [size]; rfl) rfl (by rw [size]; decide)
  have behind : ∀ i, Outside (routerbootTagFind m.endian ((tempbuf m artSize out).drop (4 * (i + 1)))
        (m.behind out.length i) tagId >>= fun place =>
      if m.behind out.length i < place.2 then .error (.error .einval)
      else routerbootRleDecode ((tempbuf m artSize out).drop (4 * (i + 1) + place.1)) place.2
        artSize) ↔ tagId ≠ 0 ∧ ¬TempInside m tagId out i := by
    intro i
    rw [outside_tagFind_bind_iff]
    refine and_congr_right fun given => ?_
    constructor
    · rintro (lost | ⟨ofs, len, leads, lost⟩) inside
      · exact inside.search lost
      · dsimp only at lost
        split at lost
        · cases lost
        · exact inside.runs ofs len leads (by omega) (Rle.rleDecode_outside_iff.mp lost)
    · intro not
      by_contra none
      rw [not_or] at none
      refine not ⟨none.1, fun ofs len leads shorter breaks => none.2 ⟨ofs, len, leads, ?_⟩⟩
      rw [if_neg (by omega)]
      exact Rle.rleDecode_outside_iff.mpr breaks
  unfold unpackErdTags
  dsimp only
  rw [outside_bind_iff, or_iff_right found]
  constructor
  · rintro ⟨needle, ends, lost⟩
    obtain ⟨i, rfl, first⟩ := findErd_iff.mp ends
    obtain ⟨given, past⟩ := (behind i).mp lost
    exact ⟨given, i, first, past⟩
  · rintro ⟨given, i, first, past⟩
    exact ⟨_, findErd_iff.mpr ⟨i, rfl, first⟩, (behind i).mpr ⟨given, past⟩⟩

/-! ### Decompression -/

theorem length_decompressWlan {magic : Nat} (respects : ∀ input n, (m.lzo input n).2.length ≤ n)
    (done : decompressWlan m buf artSize magic = .ok out) : out.length ≤ artSize := by
  unfold decompressWlan at done
  split at done
  · split at done
    · cases done
    · have short := respects (m.lzorPrefix ++ buf) artSize
      dsimp only at done
      split at done
      · cases done
        exact short
      · cases done
  · split at done
    · cases done
    · obtain ⟨answer, returned⟩ := Lz77.decompress_returns (Nat.lt_succ_self (8 * buf.length)) artSize
      rw [returned, Option.getD_some] at done
      exact Lz77.length_decompressFrom (returned.trans (congrArg some done))

theorem outside_decompressWlan_iff {magic : Nat} : Outside (decompressWlan m buf artSize magic) ↔
    magic ≠ magicLzor ∧ buf.length ≤ artSize ∧ ¬Lz77Inside buf := by
  unfold decompressWlan
  by_cases lzor : magic = magicLzor
  · rw [if_pos lzor]
    refine iff_of_false ?_ (fun all => all.1 lzor)
    split
    · exact not_outside_error
    · dsimp only
      split
      · exact not_outside_ok
      · exact not_outside_error
  · rw [if_neg lzor, and_iff_right lzor]
    split
    · rename_i large
      exact iff_of_false not_outside_error (fun all => absurd all.1 (by omega))
    · rename_i fits
      have enough := Nat.lt_succ_self (8 * buf.length)
      rw [and_iff_right (Nat.not_lt.mp fits)]
      obtain ⟨answer, returned⟩ := Lz77.decompress_returns enough artSize
      have breaks : Lz77.rbLz77Decompress buf _ artSize = _ ↔ _ := Lz77.decompress_outside_iff enough
      rw [returned, Option.some.injEq] at breaks
      rw [returned, Option.getD_some, Outside, breaks, Lz77Inside]
      constructor
      · rintro ⟨groups, more, valid, encoded, room, clear, lost⟩ inside
        exact inside groups more valid encoded room clear lost
      · intro not
        by_contra none
        exact not fun groups more valid encoded room clear lost =>
          none ⟨groups, more, valid, encoded, room, clear, lost⟩

/-! ### Payloads -/

/-- The formats that are decompressed. -/
theorem outside_unpackLzorLz77_iff {magic : Nat} (respects : ∀ input n, (m.lzo input n).2.length ≤ n) :
    Outside (hcWlanDataUnpackLzorLz77 m tagId buf artSize magic) ↔
      magic ≠ magicLzor ∧ buf.length ≤ artSize ∧ ¬Lz77Inside buf ∨
        tagId ≠ 0 ∧ ∃ out i, decompressWlan m buf artSize magic = .ok out ∧
          ErdAt m.endian (tempbuf m artSize out) out.length i ∧ ¬TempInside m tagId out i := by
  unfold hcWlanDataUnpackLzorLz77
  rw [outside_bind_iff, outside_decompressWlan_iff]
  refine or_congr_right ?_
  constructor
  · rintro ⟨out, done, lost⟩
    have fits := length_decompressWlan respects done
    obtain ⟨given, i, first, past⟩ := (outside_unpackErdTags_iff fits).mp lost
    exact ⟨given, out, i, done, first, past⟩
  · rintro ⟨given, out, i, done, first, past⟩
    have fits := length_decompressWlan respects done
    exact ⟨out, done, (outside_unpackErdTags_iff fits).mpr ⟨given, i, first, past⟩⟩

/-- The unpacking of a payload stays inside exactly where every format in it does. -/
theorem outside_unpackPayload_iff (respects : ∀ input n, (m.lzo input n).2.length ≤ n) :
    Outside (unpackPayload m tagId payload artSize) ↔ ¬PayloadInside m tagId payload := by
  unfold unpackPayload
  by_cases short : payload.length < 4
  · rw [readWord_outside (by omega)]
    exact iff_of_true rfl fun inside => absurd inside.word (by omega)
  · rw [readWord_inside (by omega), List.drop_zero]
    generalize given : m.endian.number (payload.take 4) = magic
    change Outside (if magic = magicLz77 ∧ tagId = erdSolo then _ else _) ↔ _
    split
    · rename_i solo
      obtain ⟨rfl, rfl⟩ := solo
      refine iff_of_false not_outside_error (not_not.mpr ⟨by omega, ?_, ?_, ?_⟩)
      · rw [given]
        exact fun same => absurd same (by decide)
      · exact fun _ other => absurd rfl other
      · rw [given]
        rintro magic rfl (same | ⟨-, other⟩)
        · exact absurd same (by decide)
        · exact absurd rfl other
    · rename_i notSolo
      split
      · rename_i packed
        rw [outside_unpackLzorLz77_iff respects]
        have allowed : magic = magicLzor ∨ magic = magicLz77 ∧ tagId ≠ erdSolo :=
          packed.elim (fun same => .inr ⟨same, fun solo => notSolo ⟨same, solo⟩⟩) .inl
        have notErd : magic ≠ magicErd := by
          rintro rfl
          exact packed.elim (absurd · (by decide)) (absurd · (by decide))
        constructor
        · rintro (⟨notLzor, small, lost⟩ | ⟨some, out, i, done, first, lost⟩) inside
          · obtain ⟨same, other⟩ := allowed.resolve_left notLzor
            exact lost (inside.lz77 (given.trans same) other small)
          · exact lost (inside.temp magic given allowed some out i done first)
        · intro not
          by_contra none
          rw [not_or] at none
          refine not ⟨by omega, fun erd => absurd (given.symm.trans erd) notErd, ?_, ?_⟩
          · intro same other small
            by_contra lost
            exact none.1 ⟨by rw [← given, same]; decide, small, lost⟩
          · intro magic' found _ some out i done first
            by_contra lost
            rw [given] at found
            exact none.2 ⟨some, out, i, found ▸ done, first, lost⟩
      · rename_i notPacked
        rw [not_or] at notPacked
        have vacuous : (magic = magicErd → tagId ≠ 0 → ErdInside m.endian tagId (payload.drop 4)) →
            PayloadInside m tagId payload := by
          intro erd
          refine ⟨by omega, fun same => erd (given.symm.trans same), ?_, ?_⟩
          · exact fun same => absurd (given.symm.trans same) notPacked.1
          · rintro magic' found (same | ⟨same, -⟩)
            · exact absurd (given.symm.trans (found.trans same)) notPacked.2
            · exact absurd (given.symm.trans (found.trans same)) notPacked.1
        split
        · rename_i erd
          rw [outside_unpackErd_iff]
          constructor
          · rintro ⟨some, lost⟩ inside
            exact lost (inside.erd (given.trans erd) some)
          · intro not
            by_contra none
            exact not (vacuous fun _ some => by_contra fun lost => none ⟨some, lost⟩)
        · rename_i notErd
          refine iff_of_false ?_ (not_not.mpr (vacuous fun same => absurd same notErd))
          split
          · rw [Rle.rleDecode_outside_iff]
            exact Rle.not_breaks (Nat.le_refl _)
          · exact not_outside_error

theorem length_unpackErd (respects : ∀ input n, (m.lzo input n).2.length ≤ n)
    (done : hcWlanDataUnpackErd m tagId buf artSize = .ok out) : out.length ≤ artSize := by
  obtain ⟨⟨ofs, len⟩, -, done⟩ := bind_eq_ok_iff.mp done
  have short := respects ((buf.drop ofs).take len) artSize
  dsimp only at done
  split at done
  · cases done
  · split at done
    · cases done
    · split at done
      · cases done
        exact short
      · cases done

theorem length_unpackErdTags (done : unpackErdTags m tagId buf artSize = .ok out) :
    out.length ≤ artSize := by
  obtain ⟨needle, -, done⟩ := bind_eq_ok_iff.mp done
  obtain ⟨⟨ofs, len⟩, -, done⟩ := bind_eq_ok_iff.mp done
  dsimp only at done
  split at done
  · cases done
  · exact Rle.length_rleDecode done

/-- What is unpacked fits. -/
theorem length_unpackPayload (respects : ∀ input n, (m.lzo input n).2.length ≤ n)
    (done : unpackPayload m tagId payload artSize = .ok out) : out.length ≤ artSize := by
  obtain ⟨magic, -, done⟩ := bind_eq_ok_iff.mp done
  split at done
  · cases done
  · split at done
    · obtain ⟨unpacked, -, done⟩ := bind_eq_ok_iff.mp done
      exact length_unpackErdTags done
    · split at done
      · exact length_unpackErd respects done
      · split at done
        · exact Rle.length_rleDecode done
        · cases done

end Unpack

end FirewallCore.Mikrotik
