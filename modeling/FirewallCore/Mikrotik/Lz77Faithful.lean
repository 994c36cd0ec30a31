import FirewallCore.Mikrotik.Lz77

/-!
The format that `rb_lz77_decompress` reads: groups of literal bytes and of matches, and what the
decoder makes of the bits of one group.

A counter has a first shift `s`. It starts with `u` ones and a zero, and `s + u` bits follow: it
counts `2 ^ s + ... + 2 ^ (s + u - 1)` and the number of these bits.
-/

namespace FirewallCore.Mikrotik.Lz77

open FirewallCore.Lib

/-! ### The format -/

/-- The ones at the start of the counter for a value. -/
def ones (shift value : Nat) : Nat := Nat.log2 (value + 2 ^ shift) - shift

/-- A counter. -/
def counter (shift value : Nat) : List Bool :=
  let u := ones shift value
  List.replicate u true ++ false :: highBits (shift + u) (value + 2 ^ shift - 2 ^ (shift + u))

inductive Group where
  /-- One byte. -/
  | byte (b : UInt8)
  /-- Twelve bytes or more. -/
  | bytes (bs : List UInt8)
  /-- A match with its offset. -/
  | matched (offset length : Nat)
  /-- A match with the offset of the last one. -/
  | again (length : Nat)
  deriving DecidableEq, Repr

namespace Group

/-- The instruction and its counters. -/
def header : Group → List Bool
  | byte _ => [false]
  | bytes bs => true :: true :: (counter 4 0 ++ counter 4 (bs.length - 12))
  | matched offset length => true :: true :: (counter 4 offset ++ counter 0 (length - 2))
  | again length => true :: false :: counter 0 (length - 1)

/-- The bytes that are literal. -/
def literal : Group → List UInt8
  | byte b => [b]
  | bytes bs => bs
  | matched _ _ => []
  | again _ => []

/-- The bits of a group. Each literal byte has its highest bit first. -/
def bits (g : Group) : List Bool := g.header ++ g.literal.flatMap fun b => highBits 8 b.toNat

/-- The offset of the last match, 0 for none. -/
def offset (last : Nat) : Group → Nat
  | matched offset _ => offset
  | _ => last

/-- How many bytes a match copies. -/
def copies : Group → Nat
  | matched _ length => length
  | again length => length
  | _ => 0

/-- No fewer bytes than a counter starts with, and counters of at most 27 bits. -/
def Coded : Group → Prop
  | byte _ => True
  | bytes bs => 12 ≤ bs.length ∧ (counter 4 (bs.length - 12)).length ≤ maxCountBitLen
  | matched offset length => 1 ≤ offset ∧ (counter 4 offset).length ≤ maxCountBitLen ∧
      2 ≤ length ∧ (counter 0 (length - 2)).length ≤ maxCountBitLen
  | again length => 1 ≤ length ∧ (counter 0 (length - 1)).length ≤ maxCountBitLen

instance (g : Group) : Decidable g.Coded :=
  match g with
  | byte _ => inferInstanceAs (Decidable True)
  | bytes _ | again _ => inferInstanceAs (Decidable (_ ∧ _))
  | matched _ _ => inferInstanceAs (Decidable (_ ∧ _ ∧ _ ∧ _))

/-- A match is within the output that there is. -/
def Valid (last : Nat) (out : List UInt8) (g : Group) : Prop :=
  g.Coded ∧ (g.copies ≠ 0 → 1 ≤ g.offset last ∧ g.offset last ≤ out.length)

end Group

/-- Bytes copied one by one from `offset` before the end, as far as they are there by then. -/
def copyBytes (offset : Nat) : Nat → List UInt8 → List UInt8
  | 0, out => out
  | n + 1, out => copyBytes offset n (out ++ (out[out.length - offset]?).toList)

/-- What a group makes of the output. -/
def Group.expand (last : Nat) (out : List UInt8) (g : Group) : List UInt8 :=
  copyBytes (g.offset last) g.copies (out ++ g.literal)

/-- What groups make of the output. -/
def expand : List Group → Nat → List UInt8 → List UInt8
  | [], _, out => out
  | g :: later, last, out => expand later (g.offset last) (g.expand last out)

/-- Every group is valid where it stands. -/
def Valid : List Group → Nat → List UInt8 → Prop
  | [], _, _ => True
  | g :: later, last, out => g.Valid last out ∧ Valid later (g.offset last) (g.expand last out)

instance decidableValid : (groups : List Group) → (last : Nat) → (out : List UInt8) →
    Decidable (Valid groups last out)
  | [], _, _ => inferInstanceAs (Decidable True)
  | g :: later, last, out =>
    have := decidableValid later (g.offset last) (g.expand last out)
    inferInstanceAs (Decidable ((_ ∧ (_ → _ ∧ _)) ∧ _))

/-- The bits of groups. -/
def groupBits (groups : List Group) : List Bool := groups.flatMap Group.bits

/-- The final marker: a long group without a match whose counter is 0. -/
def endMarker : List Bool := true :: true :: (counter 4 0 ++ counter 4 0)

example : counter 0 4 = [true, true, false, false, true] := by decide

/-! ### Reading -/

section Reading

variable {input : List UInt8} {pos shift count left u r : Nat} {ds more : List Bool}

theorem getBit_eq (input : List UInt8) (pos : Nat) :
    getBit input pos = match (bits input)[pos]? with
      | none => .error .outside
      | some bit => .ok bit := by
  rw [getBit, getElem?_bits]
  cases input[pos / 8]? <;> rfl

theorem getBit_cons {bit : Bool} (rest : (bits input).drop pos = bit :: more) :
    getBit input pos = .ok bit := by
  have here : (bits input)[pos]? = some bit := by
    rw [← Nat.add_zero pos, ← List.getElem?_drop, rest]
    rfl
  rw [getBit_eq, here]

theorem getBit_nil (rest : (bits input).drop pos = []) : getBit input pos = .error .outside := by
  rw [getBit_eq, List.getElem?_eq_none (List.drop_eq_nil_iff.mp rest)]

theorem drop_append_right (rest : (bits input).drop pos = ds ++ more) :
    (bits input).drop (pos + ds.length) = more := by
  rw [← List.drop_drop, rest, List.drop_left]

theorem drop_cons_right {bit : Bool} (rest : (bits input).drop pos = bit :: more) :
    (bits input).drop (pos + 1) = more :=
  drop_append_right (show _ = [bit] ++ more from rest)

theorem drop_two {bit bit' : Bool} (rest : (bits input).drop pos = bit :: bit' :: more) :
    (bits input).drop (pos + 2) = more :=
  drop_append_right (show _ = [bit, bit'] ++ more from rest)

theorem drop_length (rest : (bits input).drop pos = ds) : ds.length = 8 * input.length - pos := by
  rw [← rest, List.length_drop, length_bits]

theorem getByteFrom_bits (buf : Nat) (rest : (bits input).drop pos = ds ++ more) :
    getByteFrom input ds.length pos buf = .ok (buf + bitsNumber ds) := by
  induction ds generalizing pos buf with
  | nil => rfl
  | cons bit ds ih =>
    rw [List.length_cons, getByteFrom, getBit_cons rest]
    exact (ih _ (drop_cons_right rest)).trans (by rw [bitsNumber, Nat.add_assoc])

theorem getByteFrom_short {n buf : Nat} (short : ((bits input).drop pos).length < n) :
    getByteFrom input n pos buf = .error .outside := by
  induction n generalizing pos buf with
  | zero => omega
  | succ n ih =>
    cases rest : (bits input).drop pos with
    | nil => rw [getByteFrom, getBit_nil rest]; rfl
    | cons bit more =>
      rw [getByteFrom, getBit_cons rest]
      refine ih ?_
      rw [rest, List.length_cons] at short
      rw [drop_cons_right rest]
      omega

theorem getByte_bits {b : UInt8} (rest : (bits input).drop pos = highBits 8 b.toNat ++ more) :
    getByte input pos = .ok b := by
  have read := getByteFrom_bits 0 rest
  rw [length_highBits, Nat.zero_add, bitsNumber_highBits b.toNat_lt] at read
  rw [getByte, read]
  exact congrArg Except.ok UInt8.ofNat_toNat

theorem getByte_short (short : ((bits input).drop pos).length < 8) :
    getByte input pos = .error .outside := by
  rw [getByte, getByteFrom_short short]
  rfl

/-- Eight bits are a byte. -/
theorem exists_byte (eight : ds.length = 8) : ∃ b : UInt8, ds = highBits 8 b.toNat := by
  have small := bitsNumber_lt ds
  rw [eight] at small
  refine ⟨UInt8.ofNat (bitsNumber ds), ?_⟩
  have same := highBits_bitsNumber ds
  rw [UInt8.toNat_ofNat', Nat.mod_eq_of_lt small]
  rwa [eight, eq_comm] at same

/-! ### Counters -/

theorem counter_eq (small : r < 2 ^ (shift + u)) :
    counter shift (2 ^ (shift + u) - 2 ^ shift + r) =
      List.replicate u true ++ false :: highBits (shift + u) r := by
  have order : 2 ^ shift ≤ 2 ^ (shift + u) := Nat.pow_le_pow_right (by decide) (by omega)
  have sum : 2 ^ (shift + u) - 2 ^ shift + r + 2 ^ shift = 2 ^ (shift + u) + r := by omega
  have log : Nat.log2 (2 ^ (shift + u) + r) = shift + u := by
    rw [Nat.log2_eq_iff (by omega), Nat.pow_succ]
    omega
  have rise : ones shift (2 ^ (shift + u) - 2 ^ shift + r) = u := by
    rw [ones, sum, log]
    omega
  simp only [counter, rise, sum, Nat.add_sub_cancel_left]

theorem exists_counter (shift value : Nat) : ∃ u r, r < 2 ^ (shift + u) ∧
    value = 2 ^ (shift + u) - 2 ^ shift + r := by
  have notZero : value + 2 ^ shift ≠ 0 := by
    have := Nat.two_pow_pos shift
    omega
  obtain ⟨low, high⟩ := (Nat.log2_eq_iff notZero).mp rfl
  have atLeast : shift ≤ Nat.log2 (value + 2 ^ shift) := (Nat.le_log2 notZero).mpr (by omega)
  obtain ⟨u, same⟩ := Nat.exists_eq_add_of_le atLeast
  rw [same] at low high
  rw [Nat.pow_succ] at high
  have order : 2 ^ shift ≤ 2 ^ (shift + u) := Nat.pow_le_pow_right (by decide) (by omega)
  exact ⟨u, value + 2 ^ shift - 2 ^ (shift + u), by omega, by omega⟩

theorem length_counter (shift : Nat) (small : r < 2 ^ (shift + u)) :
    (counter shift (2 ^ (shift + u) - 2 ^ shift + r)).length = u + 1 + (shift + u) := by
  rw [counter_eq small, List.length_append, List.length_replicate, List.length_cons,
    length_highBits]
  omega

/-- One bit of a counter. -/
theorem decodeCountFrom_cons {bit : Bool} (up : Bool) (rest : (bits input).drop pos = bit :: more) :
    decodeCountFrom input (left + 1) pos shift count up =
      let count := if bit then count + 2 ^ shift else count
      if up && bit then decodeCountFrom input left (pos + 1) (shift + 1) count (up && bit)
      else if shift = 0 then .ok (count, pos + 1)
      else decodeCountFrom input left (pos + 1) (shift - 1) count (up && bit) := by
  rw [decodeCountFrom, getBit_cons rest]
  rfl

/-- The bits behind the zero. -/
theorem decodeCountFrom_down (count : Nat) (rest : (bits input).drop pos = ds ++ more)
    (size : ds.length = shift + 1) (room : shift + 1 ≤ left) :
    decodeCountFrom input left pos shift count false =
      .ok (count + bitsNumber ds, pos + (shift + 1)) := by
  induction shift generalizing pos count left ds with
  | zero =>
    obtain ⟨bit, rfl⟩ := List.length_eq_one_iff.mp size
    obtain ⟨left, rfl⟩ : ∃ n, left = n + 1 := ⟨left - 1, by omega⟩
    rw [decodeCountFrom_cons false rest]
    cases bit <;> simp [bitsNumber]
  | succ shift ih =>
    obtain ⟨bit, ds, rfl⟩ := List.exists_cons_of_length_eq_add_one size
    obtain ⟨left, rfl⟩ : ∃ n, left = n + 1 := ⟨left - 1, by omega⟩
    rw [List.length_cons, Nat.add_right_cancel_iff] at size
    rw [decodeCountFrom_cons false rest, Bool.false_and, if_neg (by decide), if_neg (by omega)]
    refine (ih _ (drop_cons_right rest) size (by omega)).trans ?_
    rw [bitsNumber, size]
    cases bit <;> simp <;> omega

/-- The ones of a counter, the zero and the bits behind it. -/
theorem decodeCountFrom_up (count : Nat) (small : r < 2 ^ (shift + u)) (room : u + 1 + (shift + u) ≤ left)
    (rest : (bits input).drop pos =
      List.replicate u true ++ false :: highBits (shift + u) r ++ more) :
    decodeCountFrom input left pos shift count true =
      .ok (count + (2 ^ (shift + u) - 2 ^ shift) + r, pos + (u + 1 + (shift + u))) := by
  induction u generalizing pos shift count left with
  | zero =>
    obtain ⟨left, rfl⟩ : ∃ n, left = n + 1 := ⟨left - 1, by omega⟩
    rw [decodeCountFrom_cons true (by simpa using rest)]
    rcases Nat.eq_zero_or_pos shift with rfl | positive
    · have zero : r = 0 := by omega
      simp [zero]
    · obtain ⟨shift, rfl⟩ : ∃ n, shift = n + 1 := ⟨shift - 1, by omega⟩
      rw [List.replicate_zero, List.nil_append, List.cons_append] at rest
      have read := decodeCountFrom_down count (drop_cons_right rest) (length_highBits _ _)
        (show shift + 1 ≤ left by omega)
      rw [bitsNumber_highBits (by simpa using small)] at read
      simp [read]
      omega
  | succ u ih =>
    obtain ⟨left, rfl⟩ : ∃ n, left = n + 1 := ⟨left - 1, by omega⟩
    rw [List.replicate_succ, List.cons_append, List.cons_append] at rest
    rw [decodeCountFrom_cons true rest]
    have same : shift + (u + 1) = shift + 1 + u := by omega
    rw [same] at rest small room ⊢
    have read := ih (count + 2 ^ shift) small (show _ ≤ left by omega) (drop_cons_right rest)
    have order : 2 ^ (shift + 1) ≤ 2 ^ (shift + 1 + u) :=
      Nat.pow_le_pow_right (by decide) (by omega)
    have twice : 2 ^ (shift + 1) = 2 * 2 ^ shift := Nat.pow_succ'
    refine Eq.trans read ?_
    rw [twice] at order ⊢
    congr 2 <;> omega

/-- A counter is read as what it stands for. -/
theorem decodeCount_counter {value base maxBits : Nat}
    (rest : (bits input).drop pos = counter shift value ++ more)
    (fits : (counter shift value).length ≤ maxBits) :
    decodeCount input pos shift base maxBits =
      .ok (base + value, (counter shift value).length) := by
  obtain ⟨u, r, small, rfl⟩ := exists_counter shift value
  have size := length_counter shift small
  have inside := drop_length rest
  rw [List.length_append, size] at inside
  rw [size] at fits ⊢
  rw [counter_eq small] at rest
  have read := decodeCountFrom_up base small
    (show _ ≤ min (pos + maxBits) (8 * input.length) - pos by omega) rest
  rw [decodeCount, read]
  change Except.ok (_, _) = _
  rw [Nat.add_sub_cancel_left, Nat.add_assoc]

theorem exists_bit (inside : left + 1 ≤ ((bits input).drop pos).length) :
    ∃ bit more, (bits input).drop pos = bit :: more ∧ left ≤ ((bits input).drop (pos + 1)).length := by
  cases rest : (bits input).drop pos with
  | nil =>
    rw [rest] at inside
    cases inside
  | cons bit more =>
    rw [rest, List.length_cons] at inside
    exact ⟨bit, more, rfl, by rw [drop_cons_right rest]; omega⟩

theorem decodeCountFrom_short (inside : left ≤ ((bits input).drop pos).length) (short : left ≤ shift) :
    decodeCountFrom input left pos shift count false = .error (.error .efbig) := by
  induction left generalizing pos shift count with
  | zero => rfl
  | succ left ih =>
    obtain ⟨bit, more, rest, inside⟩ := exists_bit inside
    rw [decodeCountFrom_cons false rest, Bool.false_and, if_neg (by decide), if_neg (by omega)]
    exact ih inside (by omega)

/-- A counter is complete within the bits that are left, or the decoder gives up. -/
theorem decodeCountFrom_cases (shift count : Nat) (inside : left ≤ ((bits input).drop pos).length) :
    (∃ u r more, r < 2 ^ (shift + u) ∧ u + 1 + (shift + u) ≤ left ∧
      (bits input).drop pos = List.replicate u true ++ false :: highBits (shift + u) r ++ more) ∨
    decodeCountFrom input left pos shift count true = .error (.error .efbig) := by
  induction left generalizing pos shift count with
  | zero => exact .inr rfl
  | succ left ih =>
    obtain ⟨bit, more, rest, later⟩ := exists_bit inside
    rw [decodeCountFrom_cons true rest]
    cases bit with
    | true =>
      rcases ih (shift + 1) (count + 2 ^ shift) later with
        ⟨u, r, more', small, room, found⟩ | stops
      · left
        refine ⟨u + 1, r, more', ?_, by omega, ?_⟩
        · rwa [show shift + (u + 1) = shift + 1 + u by omega]
        · rw [show shift + (u + 1) = shift + 1 + u by omega, List.replicate_succ,
            List.cons_append, List.cons_append, ← found, drop_cons_right rest, rest]
      · exact .inr stops
    | false =>
      rcases Nat.lt_or_ge left shift with short | enough
      · right
        rw [Bool.and_false, if_neg (by decide), if_neg (by omega)]
        exact decodeCountFrom_short later (by omega)
      · left
        have behind := drop_cons_right rest
        rw [behind] at later
        have size : (more.take shift).length = shift := by
          rw [List.length_take]
          omega
        have small := bitsNumber_lt (more.take shift)
        have same := highBits_bitsNumber (more.take shift)
        rw [size] at small same
        refine ⟨0, bitsNumber (more.take shift), more.drop shift, small, by omega, ?_⟩
        rw [Nat.add_zero, same, rest]
        simp

theorem decodeCount_cases (input : List UInt8) (pos shift base maxBits : Nat) :
    (∃ value more, (bits input).drop pos = counter shift value ++ more ∧
      (counter shift value).length ≤ maxBits) ∨
    decodeCount input pos shift base maxBits = .error (.error .efbig) := by
  have inside : min (pos + maxBits) (8 * input.length) - pos ≤ ((bits input).drop pos).length := by
    rw [List.length_drop, length_bits]
    omega
  rcases decodeCountFrom_cases shift base inside with
    ⟨u, r, more, small, room, rest⟩ | stops
  · left
    refine ⟨2 ^ (shift + u) - 2 ^ shift + r, more, ?_, ?_⟩
    · rw [counter_eq small]
      exact rest
    · rw [length_counter shift small]
      omega
  · right
    rw [decodeCount, stops]
    rfl

/-! ### Instructions -/

/-- What the decoder makes of a header. -/
def Group.opcode (last : Nat) (g : Group) : Opcode :=
  match g with
  | byte _ => ⟨.literalByte, 0, 1, g.header.length⟩
  | bytes bs => ⟨.long, 0, bs.length, g.header.length⟩
  | matched offset length => ⟨.long, offset, length, g.header.length⟩
  | again length => ⟨.previousOffset, last, length, g.header.length⟩

theorem decodeInstruction_literal (rest : (bits input).drop pos = false :: more) :
    decodeInstruction input pos = .ok (.literalByte, 1) := by
  rw [decodeInstruction, getBit_cons rest]
  rfl

theorem decodeInstruction_two {bit : Bool} (rest : (bits input).drop pos = true :: bit :: more) :
    decodeInstruction input pos = .ok (if bit then .long else .previousOffset, 2) := by
  rw [decodeInstruction, getBit_cons rest]
  change (getBit input (pos + 1) >>= _) = _
  rw [getBit_cons (drop_cons_right rest)]
  cases bit <;> rfl

theorem decodeInstruction_outside
    (rest : (bits input).drop pos = [] ∨ (bits input).drop pos = [true]) :
    decodeInstruction input pos = .error .outside := by
  rcases rest with rest | rest
  · rw [decodeInstruction, getBit_nil rest]
    rfl
  · rw [decodeInstruction, getBit_cons rest]
    change (getBit input (pos + 1) >>= _) = _
    rw [getBit_nil (drop_cons_right rest)]
    rfl

theorem length_counter_zero : (counter 4 0).length ≤ maxCountBitLen := by decide

theorem decode_header {g : Group} (last : Nat) (coded : g.Coded)
    (rest : (bits input).drop pos = g.header ++ more) :
    decodeInstructionOperators input pos last = .ok (g.opcode last) := by
  cases g with
  | byte b =>
    rw [decodeInstructionOperators, decodeInstruction_literal rest]
    rfl
  | bytes bs =>
    obtain ⟨long, fits⟩ := coded
    simp only [Group.header, List.cons_append, List.append_assoc] at rest
    have first := drop_two rest
    have second := drop_append_right first
    rw [decodeInstructionOperators, decodeInstruction_two rest]
    change (decodeCount input (pos + 2) 4 0 maxCountBitLen >>= _) = _
    rw [decodeCount_counter first length_counter_zero]
    change (decodeCount input (pos + (2 + (counter 4 0).length)) 4 12 maxCountBitLen >>= _) = _
    rw [← Nat.add_assoc, decodeCount_counter second fits]
    change Except.ok _ = Except.ok _
    rw [Group.opcode, Group.header]
    congr 2
    · omega
    · simp only [List.length_cons, List.length_append]
      omega
  | matched offset length =>
    obtain ⟨positive, offsetFits, atLeast, fits⟩ := coded
    simp only [Group.header, List.cons_append, List.append_assoc] at rest
    have first := drop_two rest
    have second := drop_append_right first
    rw [decodeInstructionOperators, decodeInstruction_two rest]
    change (decodeCount input (pos + 2) 4 0 maxCountBitLen >>= _) = _
    rw [decodeCount_counter first offsetFits]
    change (if 0 + offset = 0 then _ else
      (decodeCount input (pos + (2 + (counter 4 offset).length)) 0 2 maxCountBitLen >>= _)) = _
    rw [if_neg (by omega), ← Nat.add_assoc, decodeCount_counter second fits]
    change Except.ok _ = Except.ok _
    rw [Group.opcode, Group.header]
    congr 2
    · omega
    · omega
    · simp only [List.length_cons, List.length_append]
      omega
  | again length =>
    obtain ⟨positive, fits⟩ := coded
    simp only [Group.header, List.cons_append] at rest
    have first := drop_two rest
    rw [decodeInstructionOperators, decodeInstruction_two rest]
    change (decodeCount input (pos + 2) 0 1 maxCountBitLen >>= _) = _
    rw [decodeCount_counter first fits]
    change Except.ok _ = Except.ok _
    rw [Group.opcode, Group.header]
    congr 2
    · omega
    · simp only [List.length_cons]
      omega

/-- A header is next, or there is no instruction any more, or a counter is not complete. -/
theorem decode_cases (input : List UInt8) (pos last : Nat) :
    (((bits input).drop pos = [] ∨ (bits input).drop pos = [true]) ∧
      decodeInstructionOperators input pos last = .error .outside) ∨
    (∃ (g : Group) (more : List Bool), g.Coded ∧ (bits input).drop pos = g.header ++ more) ∨
    decodeInstructionOperators input pos last = .error (.error .efbig) := by
  match rest : (bits input).drop pos with
  | [] | [true] =>
    refine .inl ⟨by simp, ?_⟩
    rw [decodeInstructionOperators, decodeInstruction_outside (by simp [rest])]
    rfl
  | false :: more => exact .inr (.inl ⟨.byte 0, more, trivial, rfl⟩)
  | true :: false :: more =>
    right
    have behind := drop_two rest
    rw [decodeInstructionOperators, decodeInstruction_two rest]
    change _ ∨ (decodeCount input (pos + 2) 0 1 maxCountBitLen >>= _) = _
    rcases decodeCount_cases input (pos + 2) 0 1 maxCountBitLen with
      ⟨value, after, found, fits⟩ | stops
    · left
      rw [← behind, found]
      exact ⟨.again (value + 1), after, ⟨by omega, fits⟩, rfl⟩
    · right
      rw [stops]
      rfl
  | true :: true :: more =>
    right
    have behind := drop_two rest
    rw [decodeInstructionOperators, decodeInstruction_two rest]
    change _ ∨ (decodeCount input (pos + 2) 4 0 maxCountBitLen >>= _) = _
    rcases decodeCount_cases input (pos + 2) 4 0 maxCountBitLen with
      ⟨offset, after, found, offsetFits⟩ | stops
    · have second := drop_append_right found
      rw [decodeCount_counter found offsetFits, ← behind, found, ← second]
      change _ ∨ (if 0 + offset = 0 then
        (decodeCount input (pos + (2 + (counter 4 offset).length)) 4 12 maxCountBitLen >>= _) else
        (decodeCount input (pos + (2 + (counter 4 offset).length)) 0 2 maxCountBitLen >>= _)) = _
      rw [← Nat.add_assoc, Nat.zero_add]
      by_cases none : offset = 0
      · subst none
        rw [if_pos rfl]
        rcases decodeCount_cases input (pos + 2 + (counter 4 0).length) 4 12 maxCountBitLen with
          ⟨value, after, found, fits⟩ | stops
        · left
          refine ⟨.bytes (List.replicate (value + 12) 0), after, ?_, ?_⟩
          · exact ⟨by simp, by simpa using fits⟩
          · simp [Group.header, found]
        · right
          rw [stops]
          rfl
      · rw [if_neg none]
        rcases decodeCount_cases input (pos + 2 + (counter 4 offset).length) 0 2 maxCountBitLen with
          ⟨value, after, found, fits⟩ | stops
        · left
          refine ⟨.matched offset (value + 2), after, ?_, ?_⟩
          · exact ⟨by omega, offsetFits, by omega, fits⟩
          · simp [Group.header, found]
        · right
          rw [stops]
          rfl
    · right
      rw [stops]
      rfl

end Reading

end FirewallCore.Mikrotik.Lz77

/-!
What `rb_lz77_decompress` makes of groups, one after the other.

The test for the final marker compares a number of bits with the number of bytes of the input. A
group of twelve literal bytes that ends behind the first eighth of the input is taken for it.
-/

namespace FirewallCore.Mikrotik.Lz77

open FirewallCore.Lib

/-! ### Writing -/

section Writing

variable {input out : List UInt8} {pos outLen offset n k : Nat} {more : List Bool}

theorem length_literalBits (bs : List UInt8) :
    (bs.flatMap fun b => highBits 8 b.toNat).length = 8 * bs.length := by
  induction bs with
  | nil => rfl
  | cons b bs ih =>
    rw [List.flatMap_cons, List.length_append, ih, length_highBits, List.length_cons]
    omega

theorem copyLiterals_bits {bs : List UInt8}
    (rest : (bits input).drop pos = (bs.flatMap fun b => highBits 8 b.toNat) ++ more)
    (room : out.length + bs.length ≤ outLen) :
    copyLiterals input outLen bs.length pos out = .ok (out ++ bs) := by
  induction bs generalizing pos out with
  | nil => rw [List.append_nil]; rfl
  | cons b bs ih =>
    rw [List.flatMap_cons, List.append_assoc] at rest
    rw [List.length_cons] at room ⊢
    have later := drop_append_right rest
    rw [length_highBits] at later
    rw [copyLiterals, getByte_bits rest]
    change (if out.length < outLen then
      copyLiterals input outLen bs.length (pos + 8) (out ++ [b]) else _) = _
    rw [if_pos (by omega), ih later (by rw [List.length_append, List.length_singleton]; omega),
      List.append_assoc]
    rfl

/-- Literal bytes are all there and fit, or the loop reaches outside of a buffer. -/
theorem copyLiterals_cases (input : List UInt8) (n pos : Nat) (room : out.length ≤ outLen) :
    (∃ (bs : List UInt8) (more : List Bool), bs.length = n ∧ out.length + n ≤ outLen ∧
      (bits input).drop pos = (bs.flatMap fun b => highBits 8 b.toNat) ++ more) ∨
    (((bits input).drop pos).length < 8 * n ∨ outLen < out.length + n) ∧
      copyLiterals input outLen n pos out = .error .outside := by
  induction n generalizing pos out with
  | zero => exact .inl ⟨[], _, rfl, room, rfl⟩
  | succ n ih =>
    rw [copyLiterals]
    rcases Nat.lt_or_ge ((bits input).drop pos).length 8 with short | enough
    · rw [getByte_short short]
      exact .inr ⟨.inl (by omega), rfl⟩
    · have eight : (((bits input).drop pos).take 8).length = 8 := by
        rw [List.length_take]
        omega
      obtain ⟨b, first⟩ := exists_byte eight
      have rest : (bits input).drop pos = highBits 8 b.toNat ++ ((bits input).drop pos).drop 8 := by
        rw [← first, List.take_append_drop]
      rw [getByte_bits rest]
      change _ ∨ _ ∧ (if out.length < outLen then
        copyLiterals input outLen n (pos + 8) (out ++ [b]) else _) = _
      rw [List.drop_drop] at rest
      split
      · rename_i room
        have less : (out ++ [b]).length ≤ outLen := by
          rw [List.length_append, List.length_singleton]
          omega
        rcases ih (pos + 8) less with
          ⟨bs, more, size, fits, later⟩ | ⟨missing, outside⟩
        · left
          rw [List.length_append, List.length_singleton] at fits
          refine ⟨b :: bs, more, by simp [size], by omega, ?_⟩
          rw [rest, later, List.flatMap_cons, List.append_assoc]
        · right
          rw [List.length_append, List.length_singleton] at missing
          have split := congrArg List.length rest
          rw [List.length_append, length_highBits] at split
          exact ⟨by omega, outside⟩
      · exact .inr ⟨.inr (by omega), rfl⟩

theorem length_copyBytes (positive : 1 ≤ offset) (inside : offset ≤ out.length) :
    (copyBytes offset n out).length = out.length + n := by
  induction n generalizing out with
  | zero => rfl
  | succ n ih =>
    have there : (out[out.length - offset]?).toList.length = 1 := by
      rw [List.getElem?_eq_getElem (by omega)]
      rfl
    rw [copyBytes, ih (by rw [List.length_append]; omega), List.length_append, there]
    omega

theorem copyBytes_add (offset n k : Nat) (out : List UInt8) :
    copyBytes offset (n + k) out = copyBytes offset k (copyBytes offset n out) := by
  induction n generalizing out with
  | zero => rw [Nat.zero_add, copyBytes]
  | succ n ih => rw [Nat.succ_add, copyBytes, copyBytes, ih]

/-- As many bytes as there are behind the offset are copied at once. -/
theorem copyBytes_at_once (inside : offset ≤ out.length) (atMost : n ≤ offset) :
    copyBytes offset n out = out ++ (out.drop (out.length - offset)).take n := by
  induction n with
  | zero => rw [List.take_zero, List.append_nil, copyBytes]
  | succ n ih =>
    have size : (out ++ (out.drop (out.length - offset)).take n).length = out.length + n := by
      rw [List.length_append, List.length_take, List.length_drop]
      omega
    have source : (out ++ (out.drop (out.length - offset)).take n)[out.length + n - offset]? =
        (out.drop (out.length - offset))[n]? := by
      rw [List.getElem?_append_left (by omega), List.getElem?_drop]
      congr 1
      omega
    rw [copyBytes_add, ih (by omega), copyBytes, copyBytes, size, source, List.append_assoc,
      ← List.take_add_one]

theorem copyMatch_eq (positive : 1 ≤ offset) (inside : offset ≤ out.length)
    (room : out.length + n ≤ outLen) :
    copyMatch outLen offset n out = .ok (copyBytes offset n out) := by
  induction n using Nat.strongRecOn generalizing out with
  | ind n ih =>
    rw [copyMatch]
    split
    · rename_i more
      rw [copyBack, if_pos ⟨inside, by omega⟩, ← copyBytes_at_once inside (Nat.le_refl _)]
      have size := length_copyBytes (n := offset) positive inside
      have later : copyMatch outLen offset (n - offset) (copyBytes offset offset out) = _ :=
        ih (n - offset) (by omega) (by omega) (by omega)
      dsimp only
      rw [later, ← copyBytes_add, Nat.add_sub_cancel' (by omega)]
    · rw [copyBack, if_pos ⟨inside, room⟩, copyBytes_at_once inside (by omega)]

end Writing

/-! ### One round -/

/-- The group is taken for the final marker: twelve literal bytes that end behind as many bits as
the input has bytes. -/
def Group.Cut (inLen pos : Nat) (g : Group) : Prop :=
  g.literal.length = 12 ∧ inLen < pos + g.bits.length

section Round

variable {input out : List UInt8} {pos last outLen rounds : Nat} {more : List Bool} {g : Group}

theorem Group.length_bits (g : Group) : g.bits.length = g.header.length + 8 * g.literal.length := by
  rw [Group.bits, List.length_append, length_literalBits]

theorem Group.header_pos (g : Group) : 0 < g.header.length := by
  cases g <;> simp [Group.header]

theorem Group.length_expand (valid : g.Valid last out) :
    (g.expand last out).length = out.length + g.literal.length + g.copies := by
  rw [Group.expand]
  rcases Nat.eq_zero_or_pos g.copies with none | some
  · rw [none, copyBytes, List.length_append, Nat.add_zero]
  · obtain ⟨positive, inside⟩ := valid.2 (by omega)
    rw [length_copyBytes positive (by rw [List.length_append]; omega), List.length_append]

/-- The start of a round, in which a header is next. -/
theorem decompressFrom_header (rounds last : Nat) (coded : g.Coded)
    (rest : (bits input).drop pos = g.header ++ more) (room : out.length ≤ outLen) :
    decompressFrom input outLen (rounds + 1) pos last out =
      let inputBit := pos + g.header.length
      if g.copies = 0 then
        if g.literal.length = 12 ∧ input.length < inputBit + g.literal.length * 8 then some (.ok out)
        else
          match copyLiterals input outLen g.literal.length inputBit out with
          | .error fault => some (.error fault)
          | .ok out =>
            decompressFrom input outLen rounds (inputBit + 8 * g.literal.length) last out
      else if g.offset last = 0 then some (.error (.error .ebadmsg))
      else if outLen < out.length + g.copies then some (.error (.error .enobufs))
      else if out.length < g.offset last then some (.error (.error .espipe))
      else
        match copyMatch outLen (g.offset last) g.copies out with
        | .error fault => some (.error fault)
        | .ok out => decompressFrom input outLen rounds inputBit (g.offset last) out := by
  have inside := drop_length rest
  have size := g.header_pos
  rw [List.length_append] at inside
  rw [decompressFrom, if_neg (by omega), if_neg (by omega), decode_header last coded rest]
  cases g with
  | byte b | bytes bs =>
    simp only [Group.opcode, Group.copies, Group.literal, if_true]
    rfl
  | matched offset length =>
    obtain ⟨positive, -, atLeast, -⟩ := coded
    have notZero : ¬length = 0 := by omega
    have offsetNotZero : ¬offset = 0 := by omega
    simp [Group.opcode, Group.copies, Group.offset, notZero, offsetNotZero]
    rfl
  | again length =>
    have notZero : ¬length = 0 := by
      have := coded.1
      omega
    simp [Group.opcode, Group.copies, Group.offset, notZero]
    rfl

/-- A group is expanded. -/
theorem decompressFrom_group (valid : g.Valid last out) (rest : (bits input).drop pos = g.bits ++ more)
    (room : (g.expand last out).length ≤ outLen) (clear : ¬g.Cut input.length pos) :
    decompressFrom input outLen (rounds + 1) pos last out =
      decompressFrom input outLen rounds (pos + g.bits.length) (g.offset last)
        (g.expand last out) := by
  rw [Group.length_expand valid] at room
  rw [Group.bits, List.append_assoc] at rest
  have behind := drop_append_right rest
  rw [decompressFrom_header _ _ valid.1 rest (by omega)]
  have size := g.length_bits
  unfold Group.Cut at clear
  by_cases none : g.copies = 0
  · have same : g.offset last = last := by
      cases g with
      | matched offset length => 
          have := valid.1.2.2.1
          simp only [Group.copies] at none
          omega
      | _ => rfl
    rw [if_pos none, if_neg (by omega), copyLiterals_bits behind (by omega), Group.expand, none, copyBytes, same]
    dsimp only
    congr 1
    omega
  · obtain ⟨positive, inside⟩ := valid.2 none
    have empty : g.literal = [] := by
      cases g with
      | matched offset length | again length => rfl
      | byte b | bytes bs => exact absurd rfl none
    rw [if_neg none, if_neg (by omega), if_neg (by omega), if_neg (by omega),
      copyMatch_eq positive inside (by omega), Group.expand, empty, List.append_nil]
    rw [empty, List.length_nil, Nat.mul_zero, Nat.add_zero] at size
    rw [size]

/-- A group that is taken for the final marker ends the output. -/
theorem decompressFrom_cut (coded : g.Coded) (rest : (bits input).drop pos = g.header ++ more)
    (room : out.length ≤ outLen) (cut : g.Cut input.length pos) :
    decompressFrom input outLen (rounds + 1) pos last out = some (.ok out) := by
  have size := g.length_bits
  obtain ⟨twelve, ends⟩ := cut
  have none : g.copies = 0 := by
    cases g with
    | matched offset length | again length => cases twelve
    | byte b | bytes bs => rfl
  rw [decompressFrom_header _ _ coded rest room]
  exact (if_pos none).trans (if_pos ⟨twelve, by omega⟩)

end Round

/-! ### Whole runs -/

/-- No group is taken for the final marker. -/
def Clear (inLen : Nat) : Nat → List Group → Prop
  | _, [] => True
  | pos, g :: later => ¬g.Cut inLen pos ∧ Clear inLen (pos + g.bits.length) later

instance decidableClear (inLen : Nat) : (pos : Nat) → (groups : List Group) →
    Decidable (Clear inLen pos groups)
  | _, [] => inferInstanceAs (Decidable True)
  | pos, g :: later =>
    have := decidableClear inLen (pos + g.bits.length) later
    inferInstanceAs (Decidable (¬(_ ∧ _) ∧ _))

/-- The offset of the last match of groups. -/
def lastOffset (groups : List Group) (last : Nat) : Nat :=
  groups.foldl (fun last g => g.offset last) last

section Runs

variable {input out : List UInt8} {pos last outLen rounds inLen : Nat} {more : List Bool}
  {groups before after : List Group} {g : Group}

theorem le_length_expand (valid : Valid groups last out) :
    out.length ≤ (expand groups last out).length := by
  induction groups generalizing last out with
  | nil => exact Nat.le_refl _
  | cons g later ih =>
    have first := Group.length_expand valid.1
    have rest := ih valid.2
    rw [expand]
    omega

theorem expand_append (before after : List Group) (last : Nat) (out : List UInt8) :
    expand (before ++ after) last out =
      expand after (lastOffset before last) (expand before last out) := by
  induction before generalizing last out with
  | nil => rfl
  | cons g before ih => exact ih (g.offset last) (g.expand last out)

theorem valid_append : Valid (before ++ after) last out ↔
    Valid before last out ∧ Valid after (lastOffset before last) (expand before last out) := by
  induction before generalizing last out with
  | nil => exact (and_iff_right trivial).symm
  | cons g before ih =>
    rw [List.cons_append, Valid, ih, Valid, and_assoc]
    rfl

theorem length_le_groupBits (groups : List Group) : groups.length ≤ (groupBits groups).length := by
  induction groups with
  | nil => exact Nat.le_refl _
  | cons g later ih =>
    have size := g.length_bits
    have header := g.header_pos
    rw [groupBits, List.flatMap_cons, List.length_append, ← groupBits, List.length_cons]
    omega

/-- Groups are expanded one after the other. -/
theorem decompressFrom_groups (valid : Valid groups last out)
    (rest : (bits input).drop pos = groupBits groups ++ more)
    (room : (expand groups last out).length ≤ outLen) (clear : Clear input.length pos groups) :
    decompressFrom input outLen (rounds + groups.length) pos last out =
      decompressFrom input outLen rounds (pos + (groupBits groups).length) (lastOffset groups last)
        (expand groups last out) := by
  induction groups generalizing pos last out with
  | nil => rfl
  | cons g later ih =>
    rw [groupBits, List.flatMap_cons, ← groupBits, List.append_assoc] at rest
    have fits := le_length_expand valid.2
    rw [expand] at room
    rw [List.length_cons, ← Nat.add_assoc,
      decompressFrom_group valid.1 rest (fits.trans room) clear.1,
      ih valid.2 (drop_append_right rest) room clear.2]
    simp only [groupBits, List.flatMap_cons, List.length_append, Nat.add_assoc]
    rfl

/-- The final marker, with less than a byte behind it. -/
theorem decompressFrom_end {padding : List Bool}
    (rest : (bits input).drop pos = endMarker ++ padding) (padded : padding.length < 8)
    (room : out.length ≤ outLen) :
    decompressFrom input outLen (rounds + 1) pos last out = some (.ok out) := by
  have size := drop_length rest
  have twelve : endMarker.length = 12 := by decide
  rw [List.length_append, twelve] at size
  apply decompressFrom_cut (g := .bytes (List.replicate 12 0)) ⟨by decide, by decide⟩ rest room
  have long : (Group.bytes (List.replicate 12 0)).bits.length = 108 := by decide
  exact ⟨rfl, by omega⟩

/-- The first group that is taken for the final marker. -/
theorem exists_cut (cut : ¬Clear inLen pos groups) : ∃ before g after,
    groups = before ++ g :: after ∧ Clear inLen pos before ∧
      g.Cut inLen (pos + (groupBits before).length) := by
  induction groups generalizing pos with
  | nil => exact absurd trivial cut
  | cons g later ih =>
    by_cases here : g.Cut inLen pos
    · exact ⟨[], g, later, rfl, trivial, here⟩
    · obtain ⟨before, g', after, rfl, clear, cut⟩ := ih fun clear => cut ⟨here, clear⟩
      refine ⟨g :: before, g', after, rfl, ⟨here, clear⟩, ?_⟩
      rw [groupBits, List.flatMap_cons, List.length_append, ← Nat.add_assoc]
      exact cut

/-- The decompressor expands valid groups if and only if it takes none for the final marker. -/
theorem decompress_faithful_iff {padding : List Bool} (valid : Valid groups 0 [])
    (encoded : bits input = groupBits groups ++ (endMarker ++ padding)) (padded : padding.length < 8)
    (room : (expand groups 0 []).length ≤ outLen) :
    (∀ rounds, 8 * input.length < rounds →
      rbLz77Decompress input rounds outLen = some (.ok (expand groups 0 []))) ↔
    Clear input.length 0 groups := by
  have size := congrArg List.length encoded
  have count := length_le_groupBits groups
  have encoded : (bits input).drop 0 = groupBits groups ++ (endMarker ++ padding) := encoded
  rw [length_bits, List.length_append, List.length_append] at size
  constructor
  · intro faithful
    by_contra cut
    obtain ⟨before, g, after, rfl, clear, cut⟩ := exists_cut cut
    obtain ⟨validBefore, validG, validAfter⟩ := valid_append.mp valid
    -- The output ends before the group, which has twelve bytes.
    have shorter := le_length_expand validAfter
    rw [Group.length_expand validG, cut.1] at shorter
    rw [expand_append, expand] at room faithful
    have result := faithful (8 * input.length - before.length + 1 + before.length) (by omega)
    rw [groupBits, List.flatMap_append, List.flatMap_cons, Group.bits, ← groupBits] at encoded
    simp only [List.append_assoc] at encoded
    have fits : (expand before 0 []).length ≤ outLen := by omega
    rw [rbLz77Decompress, decompressFrom_groups validBefore encoded fits clear,
      decompressFrom_cut validG.1 (drop_append_right encoded) fits (by simpa using cut),
      Option.some.injEq, Except.ok.injEq] at result
    have same := congrArg List.length result
    omega
  · intro clear rounds enough
    obtain ⟨n, rfl⟩ : ∃ n, rounds = n + 1 + groups.length := ⟨rounds - groups.length - 1, by omega⟩
    rw [rbLz77Decompress, decompressFrom_groups valid encoded room clear]
    exact decompressFrom_end (drop_append_right encoded) padded room

end Runs

/-- Groups of every kind; the first match overlaps itself. -/
def sampleGroups : List Group :=
  [.byte 0x61, .byte 0x62, .matched 2 5, .again 2, .bytes [0, 1, 2, 3, 4, 5, 6, 7, 8, 9, 10, 11, 12]]

def sampleInput : List UInt8 :=
  [12, 25, 141, 70, 25, 64, 0, 64, 32, 96, 16, 80, 48, 112, 8, 72, 40, 104, 152, 1, 0]

theorem decompress_faithful_sample :
    rbLz77Decompress sampleInput 169 22 = some (.ok
      [97, 98, 97, 98, 97, 98, 97, 98, 97, 0, 1, 2, 3, 4, 5, 6, 7, 8, 9, 10, 11, 12]) := by
  have valid : Valid sampleGroups 0 [] := by decide +kernel
  have encoded : bits sampleInput =
      groupBits sampleGroups ++ (endMarker ++ List.replicate 5 false) := by decide +kernel
  have faithful : ∀ rounds, 8 * sampleInput.length < rounds → rbLz77Decompress sampleInput rounds 22 =
      some (.ok (expand sampleGroups 0 [])) :=
    (decompress_faithful_iff valid encoded (by decide) (by decide)).mpr (by decide +kernel)
  exact faithful 169 (by decide)

/-- Twelve literal bytes, and one more. -/
def cutGroups : List Group := [.bytes [1, 2, 3, 4, 5, 6, 7, 8, 9, 10, 11, 12], .byte 7]

def cutInput : List UInt8 := [3, 0, 8, 4, 12, 2, 10, 6, 14, 1, 9, 5, 13, 3, 124, 0, 0]

/-- The twelve bytes are taken for the final marker, and the output is empty. -/
theorem decompress_cut :
    Valid cutGroups 0 [] ∧
      bits cutInput = groupBits cutGroups ++ (endMarker ++ List.replicate 7 false) ∧
      (expand cutGroups 0 []).length = 13 ∧
      ¬∀ rounds, 8 * cutInput.length < rounds →
        rbLz77Decompress cutInput rounds 13 = some (.ok (expand cutGroups 0 [])) := by
  refine ⟨by decide +kernel, by decide +kernel, by decide +kernel, fun faithful => ?_⟩
  have result := faithful 137 (by decide)
  have empty : rbLz77Decompress cutInput 137 13 = some (.ok []) := by decide +kernel
  rw [empty] at result
  revert result
  decide +kernel

end FirewallCore.Mikrotik.Lz77
