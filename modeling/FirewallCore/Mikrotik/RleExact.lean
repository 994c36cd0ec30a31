import FirewallCore.Mikrotik.RunLengths

/-!
`routerboot_rle_decode` with its counter as it is: an `int` that is compared with a `size_t`.

From 2^31 on the counter is negative, and more than every capacity when it is compared. So the
function decodes as one with unbounded numbers would (`rleLoop_runs`), but gives up at 2^31
bytes, whatever the capacity (`decodesExactly_iff`).
-/

namespace FirewallCore.Mikrotik.Rle

open FirewallCore.Lib

/-- The number of bits of a `size_t`. -/
inductive SizeT where
  | bits32
  | bits64
  deriving DecidableEq, Repr

def SizeT.bits : SizeT → Nat
  | bits32 => 32
  | bits64 => 64

/-- An `int` that is converted to a `size_t`. -/
def SizeT.ofInt (t : SizeT) (n : BitVec 32) : Nat := (n.signExtend t.bits).toNat

/-- What the function returns, what it has written to `out`, and what it leaves in `*outlen`. -/
structure Decoded where
  ret : Int
  out : List UInt8
  outlen : Nat
  deriving DecidableEq, Repr

def einval : Int := -22

def enospc : Int := -28

/-- The loop, with what is left of the input; `none` is a read or a write outside. -/
def rleLoop (t : SizeT) (outlen inlen : Nat) (input : List UInt8) (nbytes : BitVec 32) (out : List UInt8) :
    Option Decoded :=
  if inlen < 2 then some ⟨0, out, t.ofInt nbytes⟩
  else
    match input with
    | [] => none
    | run :: input =>
      if 128 ≤ run.toNat then
        let run := 256 - run.toNat
        if inlen - 1 < run then some ⟨enospc, out, t.ofInt nbytes⟩
        else
          let nbytes := nbytes + BitVec.ofNat 32 run
          if outlen < t.ofInt nbytes then some ⟨enospc, out, t.ofInt nbytes⟩
          else if input.length < run ∨ outlen < out.length + run then none
          else rleLoop t outlen (inlen - 1 - run) (input.drop run) nbytes (out ++ input.take run)
      else
        match input with
        | [] => none
        | byte :: input =>
          let nbytes := nbytes + BitVec.ofNat 32 run.toNat
          if outlen < t.ofInt nbytes then some ⟨enospc, out, t.ofInt nbytes⟩
          else if outlen < out.length + run.toNat then none
          else rleLoop t outlen (inlen - 2) input nbytes (out ++ List.replicate run.toNat byte)
termination_by inlen

/-- `routerboot_rle_decode`, for buffers that are not null. -/
def routerbootRleDecodeInt (t : SizeT) (input : List UInt8) (outlen : Nat) : Option Decoded :=
  if input.length < 2 then some ⟨einval, [], outlen⟩ else rleLoop t outlen input.length input 0 []

/-- Some runs are decoded exactly if they fit, and then as they are. -/
def DecodesExactly (t : SizeT) (runs : List Run) (outlen : Nat) : Prop :=
  ∃ d, routerbootRleDecodeInt t (code runs) outlen = some d ∧ (d.ret = 0 ↔ (expand runs).length ≤ outlen) ∧
    (d.ret = 0 → d.out = expand runs ∧ d.outlen = (expand runs).length)

section Exact

variable {t : SizeT} {outlen inlen run : Nat} {input out : List UInt8} {nbytes : BitVec 32} {runs : List Run}

theorem ofInt_of_small (t : SizeT) (small : nbytes.toNat < 2 ^ 31) : t.ofInt nbytes = nbytes.toNat := by
  have positive : nbytes.msb = false := BitVec.msb_eq_false_iff_two_mul_lt.mpr (by omega)
  rw [SizeT.ofInt, BitVec.signExtend_eq_setWidth_of_msb_false positive, BitVec.toNat_setWidth]
  cases t with
  | bits32 => exact Nat.mod_eq_of_lt nbytes.isLt
  | bits64 => exact Nat.mod_eq_of_lt (Nat.lt_trans nbytes.isLt (by decide))

theorem ofInt_of_big (t : SizeT) (big : 2 ^ 31 ≤ nbytes.toNat) : 2 ^ (t.bits - 1) ≤ t.ofInt nbytes := by
  have negative : nbytes.msb = true := BitVec.msb_eq_true_iff_two_mul_ge.mpr (by omega)
  rw [SizeT.ofInt, BitVec.toNat_signExtend, if_pos negative, BitVec.toNat_setWidth]
  cases t with
  | bits32 =>
    change 2 ^ 31 ≤ nbytes.toNat % 2 ^ 32 + (2 ^ 32 - 2 ^ 32)
    omega
  | bits64 =>
    change 2 ^ 63 ≤ nbytes.toNat % 2 ^ 64 + (2 ^ 64 - 2 ^ 32)
    omega

/-- A run is refused if it does not fit, and from 2^31 on. -/
theorem refused_iff (run : Nat) (object : outlen < 2 ^ (t.bits - 1)) (counts : nbytes.toNat = out.length)
    (below : out.length < 2 ^ 31) (short : run ≤ 128) :
    (outlen < t.ofInt (nbytes + BitVec.ofNat 32 run) ↔ outlen < out.length + run ∨ 2 ^ 31 ≤ out.length + run) ∧
      (nbytes + BitVec.ofNat 32 run).toNat = out.length + run := by
  have total : (nbytes + BitVec.ofNat 32 run).toNat = out.length + run := by
    rw [BitVec.toNat_add, BitVec.toNat_ofNat, counts]
    omega
  refine ⟨?_, total⟩
  rcases Nat.lt_or_ge (out.length + run) (2 ^ 31) with small | big
  · rw [ofInt_of_small t (by omega), total]
    omega
  · have high := ofInt_of_big t (show 2 ^ 31 ≤ (nbytes + BitVec.ofNat 32 run).toNat by omega)
    omega

/-- For every input nothing is read outside, nor written beyond the capacity. -/
theorem rleLoop_inside (object : outlen < 2 ^ (t.bits - 1)) (there : input.length = inlen)
    (counts : nbytes.toNat = out.length) (below : out.length < 2 ^ 31) (fits : out.length ≤ outlen) :
    ∃ d, rleLoop t outlen inlen input nbytes out = some d ∧ d.out.length ≤ outlen := by
  fun_induction rleLoop t outlen inlen input nbytes out with
  | case1 => exact ⟨_, rfl, fits⟩
  | case2 inlen _ _ more => exact absurd there (by simp; omega)
  | case3 => exact ⟨_, rfl, fits⟩
  | case4 => exact ⟨_, rfl, fits⟩
  | case5 inlen nbytes out more byte input verbatim run shorter sum accepted outside =>
    exfalso
    rw [List.length_cons] at there
    have refused := refused_iff run object counts below (by omega)
    have := mt refused.1.mpr accepted
    omega
  | case6 inlen nbytes out more byte input verbatim run shorter sum accepted inside ih =>
    rw [List.length_cons] at there
    have refused := refused_iff run object counts below (by omega)
    have small := mt refused.1.mpr accepted
    have length : (out ++ input.take run).length = out.length + run := by
      rw [List.length_append, List.length_take]
      omega
    refine ih (by rw [List.length_drop]; omega) (by rw [length]; exact refused.2) (by omega) (by omega)
  | case7 inlen nbytes out more byte fill =>
    rw [List.length_singleton] at there
    omega
  | case8 => exact ⟨_, rfl, fits⟩
  | case9 inlen nbytes out more run fill byte input sum accepted outside =>
    exfalso
    have refused := refused_iff run.toNat object counts below (by omega)
    have := mt refused.1.mpr accepted
    omega
  | case10 inlen nbytes out more run fill byte input sum accepted inside ih =>
    rw [List.length_cons, List.length_cons] at there
    have refused := refused_iff run.toNat object counts below (by omega)
    have small := mt refused.1.mpr accepted
    have length : (out ++ List.replicate run.toNat byte).length = out.length + run.toNat := by
      rw [List.length_append, List.length_replicate]
    refine ih (by omega) (by rw [length]; exact refused.2) (by omega) (by omega)

/-- Runs that fit into the capacity and are less than 2^31 bytes are expanded, others refused. -/
theorem rleLoop_runs (object : outlen < 2 ^ (t.bits - 1)) (coded : ∀ r ∈ runs, r.Coded)
    (counts : nbytes.toNat = out.length) (below : out.length < 2 ^ 31) (fits : out.length ≤ outlen) :
    if out.length + (expand runs).length ≤ outlen ∧ out.length + (expand runs).length < 2 ^ 31 then
      rleLoop t outlen (code runs).length (code runs) nbytes out =
        some ⟨0, out ++ expand runs, out.length + (expand runs).length⟩
    else ∃ d, rleLoop t outlen (code runs).length (code runs) nbytes out = some d ∧ d.ret ≠ 0 := by
  induction runs generalizing nbytes out with
  | nil =>
    rw [if_pos ⟨fits, below⟩, code_nil, List.length_nil, rleLoop, if_pos (by decide), ofInt_of_small t (by omega), counts,
      expand_nil, List.append_nil]
    rfl
  | cons r runs ih =>
    rw [List.forall_mem_cons] at coded
    have length : (expand (r :: runs)).length = r.expand.length + (expand runs).length := by
      rw [expand_cons, List.length_append]
    have short : r.expand.length ≤ 128 := by
      cases r with
      | verbatim bytes => exact coded.1.2
      | fill n byte =>
        have small : n < 128 := coded.1
        rw [Run.expand, List.length_replicate]
        omega
    obtain ⟨refused, total⟩ := refused_iff _ object counts below short
    -- one round refuses the run, or goes on behind it
    have round : rleLoop t outlen (code (r :: runs)).length (code (r :: runs)) nbytes out =
        if outlen < t.ofInt (nbytes + BitVec.ofNat 32 r.expand.length) then
          some ⟨enospc, out, t.ofInt (nbytes + BitVec.ofNat 32 r.expand.length)⟩
        else rleLoop t outlen (code runs).length (code runs) (nbytes + BitVec.ofNat 32 r.expand.length) (out ++ r.expand) := by
      cases r with
      | verbatim bytes =>
        obtain ⟨some, small⟩ := coded.1
        have pos := List.length_pos_iff.mpr some
        have run : (UInt8.ofNat (256 - bytes.length)).toNat = 256 - bytes.length := by
          rw [UInt8.toNat_ofNat', Nat.mod_eq_of_lt (by omega)]
        have size : 256 - (256 - bytes.length) = bytes.length := by omega
        have expanded : (Run.verbatim bytes).expand = bytes := rfl
        rw [expanded] at refused ⊢
        rw [code_cons, Run.code, List.cons_append, rleLoop.eq_def, List.length_cons, List.length_append, if_neg (by omega)]
        dsimp only
        rw [run, if_pos (by omega), size, if_neg (by omega), List.drop_left, List.take_left]
        split
        · rfl
        · rename_i accepted
          have room := mt refused.mpr accepted
          have left : bytes.length + (code runs).length + 1 - 1 - bytes.length = (code runs).length := by omega
          rw [if_neg (by rw [List.length_append]; omega), left]
      | fill n byte =>
        have small : n < 128 := coded.1
        have run : (UInt8.ofNat n).toNat = n := by
          rw [UInt8.toNat_ofNat', Nat.mod_eq_of_lt (by omega)]
        have size : (Run.fill n byte).expand.length = n := List.length_replicate
        rw [size] at refused ⊢
        rw [code_cons, Run.code, List.cons_append, List.cons_append, List.nil_append, rleLoop.eq_def, List.length_cons,
          List.length_cons, if_neg (by omega)]
        dsimp only
        rw [run, if_neg (by omega)]
        split
        · rfl
        · rename_i accepted
          have room := mt refused.mpr accepted
          rw [if_neg (by omega)]
          rfl
    rw [round, length]
    by_cases beyond : outlen < out.length + r.expand.length ∨ 2 ^ 31 ≤ out.length + r.expand.length
    · rw [if_neg (by omega), if_pos (refused.mpr beyond)]
      exact ⟨_, rfl, (by decide : enospc ≠ 0)⟩
    · have length' : (out ++ r.expand).length = out.length + r.expand.length := List.length_append
      have counts' : (nbytes + BitVec.ofNat 32 r.expand.length).toNat = (out ++ r.expand).length := by
        rw [length']
        exact total
      have later := ih coded.2 counts' (by omega) (by omega)
      rw [if_neg (mt refused.mp beyond)]
      rw [length', Nat.add_assoc] at later
      rw [expand_cons, ← List.append_assoc]
      exact later

theorem decode_runs (object : outlen < 2 ^ (t.bits - 1)) (coded : ∀ r ∈ runs, r.Coded) (two : 2 ≤ (code runs).length) :
    if (expand runs).length ≤ outlen ∧ (expand runs).length < 2 ^ 31 then
      routerbootRleDecodeInt t (code runs) outlen = some ⟨0, expand runs, (expand runs).length⟩
    else ∃ d, routerbootRleDecodeInt t (code runs) outlen = some d ∧ d.ret ≠ 0 := by
  have start : (0 : BitVec 32).toNat = ([] : List UInt8).length := rfl
  have run := rleLoop_runs object coded start (by decide) (Nat.zero_le _)
  rw [List.length_nil, Nat.zero_add, List.nil_append] at run
  have whole : routerbootRleDecodeInt t (code runs) outlen = rleLoop t outlen (code runs).length (code runs) 0 [] :=
    if_neg (Nat.not_lt.mpr two)
  rw [whole]
  exact run

/-- Runs are decoded exactly unless they fit into the capacity and are 2^31 bytes or more; for every input the
function returns, reads inside of it and writes below the capacity. -/
theorem decodesExactly_iff (object : outlen < 2 ^ (t.bits - 1)) (coded : ∀ r ∈ runs, r.Coded)
    (two : 2 ≤ (code runs).length) :
    (DecodesExactly t runs outlen ↔ ¬(2 ^ 31 ≤ (expand runs).length ∧ (expand runs).length ≤ outlen)) ∧
      ∀ input, ∃ d, routerbootRleDecodeInt t input outlen = some d ∧ d.out.length ≤ outlen := by
  constructor
  · have run := decode_runs object coded two
    split at run
    · rename_i small
      refine ⟨fun _ => by omega, fun _ => ⟨_, run, iff_of_true rfl small.1, fun _ => ⟨rfl, rfl⟩⟩⟩
    · rename_i large
      obtain ⟨d, decoded, failed⟩ := run
      constructor
      · rintro ⟨d', same, exact', -⟩ ⟨-, fits⟩
        rw [decoded] at same
        cases same
        exact failed (exact'.mpr fits)
      · intro other
        exact ⟨d, decoded, iff_of_false failed (by omega), fun done => absurd done failed⟩
  · intro input
    rw [routerbootRleDecodeInt]
    split
    · exact ⟨_, rfl, Nat.zero_le _⟩
    · exact rleLoop_inside object rfl rfl (by decide) (Nat.zero_le _)

end Exact

instance (r : Run) : Decidable r.Coded :=
  match r with
  | .verbatim _ => inferInstanceAs (Decidable (_ ∧ _))
  | .fill n _ => inferInstanceAs (Decidable (n < 128))

/-- Three bytes as they are and four zeros. -/
theorem sample_decodes : DecodesExactly .bits64 [.verbatim [1, 2, 3], .fill 4 0] 16 :=
  (decodesExactly_iff (by decide) (by decide) (by decide)).1.mpr (by decide)

/-- Zeros in runs of 127. -/
def zeros (n : Nat) : List Run := List.replicate n (.fill 127 0)

theorem length_zeros (n : Nat) : (code (zeros n)).length = 2 * n ∧ (expand (zeros n)).length = 127 * n := by
  induction n with
  | zero => exact ⟨rfl, rfl⟩
  | succ n ih =>
    have head : zeros (n + 1) = .fill 127 0 :: zeros n := rfl
    rw [head, code_cons, expand_cons, List.length_append, List.length_append, ih.1, ih.2, Run.code, Run.expand,
      List.length_replicate]
    exact ⟨by rw [List.length_cons, List.length_singleton]; omega, by omega⟩

theorem zeros_refused {n : Nat} (many : 2 ^ 31 ≤ 127 * n) (fits : 127 * n ≤ 3 * 2 ^ 30) :
    ¬DecodesExactly .bits64 (zeros n) (3 * 2 ^ 30) := by
  have coded : ∀ r ∈ zeros n, r.Coded := fun r member => by
    rw [List.eq_of_mem_replicate member]
    decide
  obtain ⟨length, length'⟩ := length_zeros n
  have object : 3 * 2 ^ 30 < 2 ^ (SizeT.bits64.bits - 1) := by decide
  have run := decode_runs object coded (by omega)
  rw [if_neg (by omega)] at run
  obtain ⟨d, decoded, failed⟩ := run
  rintro ⟨d', decoded', exact', -⟩
  rw [decoded] at decoded'
  cases decoded'
  exact failed (exact'.mpr (by omega))

/-- 2^31 and 119 zeros fit into three GiB, but are refused. -/
theorem manyZeros_refused : ¬DecodesExactly .bits64 (zeros 16909321) (3 * 2 ^ 30) :=
  zeros_refused (by decide) (by decide)

end FirewallCore.Mikrotik.Rle
