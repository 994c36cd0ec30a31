import FirewallCore.Lib.Strings

/-!
Base64 with the standard alphabet and padding (`base64.StdEncoding`).
-/

namespace FirewallCore.Lib.Base64

/-- The digit with a value below 64. -/
def digit (n : Nat) : UInt8 :=
  if n < 26 then UInt8.ofNat (65 + n)
  else if n < 52 then UInt8.ofNat (71 + n)
  else if n < 62 then UInt8.ofNat (n - 4)
  else if n = 62 then 43
  else 47

/-- The value of a digit. -/
def value (b : UInt8) : Option Nat :=
  if 65 ≤ b ∧ b ≤ 90 then some (b.toNat - 65)
  else if 97 ≤ b ∧ b ≤ 122 then some (b.toNat - 71)
  else if 48 ≤ b ∧ b ≤ 57 then some (b.toNat + 4)
  else if b = 43 then some 62
  else if b = 47 then some 63
  else none

/-- `EncodeToString`. -/
def encode : List UInt8 → List UInt8
  | [] => []
  | [a] => [digit (a.toNat / 4), digit (a.toNat % 4 * 16), 61, 61]
  | [a, b] =>
    [digit (a.toNat / 4), digit (a.toNat % 4 * 16 + b.toNat / 16), digit (b.toNat % 16 * 4), 61]
  | a :: b :: c :: rest =>
    digit (a.toNat / 4) :: digit (a.toNat % 4 * 16 + b.toNat / 16) ::
      digit (b.toNat % 16 * 4 + c.toNat / 64) :: digit (c.toNat % 64) :: encode rest

/-- Groups of four digits; only the last one may be padded. Bits that are left over are dropped. -/
def decodeGroups : List UInt8 → Option (List UInt8)
  | [] => some []
  | [w, x, 61, 61] => do
    let w ← value w
    let x ← value x
    return [UInt8.ofNat (w * 4 + x / 16)]
  | [w, x, y, 61] => do
    let w ← value w
    let x ← value x
    let y ← value y
    return [UInt8.ofNat (w * 4 + x / 16), UInt8.ofNat (x % 16 * 16 + y / 4)]
  | w :: x :: y :: z :: rest => do
    let w ← value w
    let x ← value x
    let y ← value y
    let z ← value z
    let rest ← decodeGroups rest
    return UInt8.ofNat (w * 4 + x / 16) :: UInt8.ofNat (x % 16 * 16 + y / 4) ::
      UInt8.ofNat (y % 4 * 64 + z) :: rest
  | _ => none

/-- `DecodeString`. Line breaks are left out. -/
def decode (s : List UInt8) : Option (List UInt8) :=
  decodeGroups (s.filter fun b => b ≠ 10 ∧ b ≠ 13)

theorem value_digit {n : Nat} (small : n < 64) : value (digit n) = some n := by
  have all : ∀ n < 64, value (digit n) = some n := by decide
  exact all n small

/-- A digit is neither padding nor a line break. -/
theorem digit_ne {n : Nat} (small : n < 64) : digit n ≠ 61 ∧ digit n ≠ 10 ∧ digit n ≠ 13 := by
  have all : ∀ n < 64, digit n ≠ 61 ∧ digit n ≠ 10 ∧ digit n ≠ 13 := by decide
  exact all n small

/-- A digit is an ASCII character. -/
theorem digit_ascii {n : Nat} (small : n < 64) : (digit n).toNat < 128 := by
  have all : ∀ n < 64, (digit n).toNat < 128 := by decide
  exact all n small

theorem decodeGroups_encode (s : List UInt8) : decodeGroups (encode s) = some s := by
  have byte : ∀ (b : UInt8) n, n = b.toNat → UInt8.ofNat n = b := by
    rintro b n rfl
    exact UInt8.ofNat_toNat
  fun_induction encode s with
  | case1 => rfl
  | case2 a =>
    have ha := a.toNat_lt
    rw [decodeGroups, value_digit (by omega), value_digit (by omega)]
    simp only [Option.bind_eq_bind, Option.bind_some, Option.pure_def]
    rw [byte a _ (by omega)]
  | case3 a b =>
    have ha := a.toNat_lt
    have hb := b.toNat_lt
    rw [decodeGroups, value_digit (by omega), value_digit (by omega), value_digit (by omega)]
    · simp only [Option.bind_eq_bind, Option.bind_some, Option.pure_def]
      rw [byte a _ (by omega), byte b _ (by omega)]
    · exact (digit_ne (by omega)).1
  | case4 a b c rest ih =>
    have ha := a.toNat_lt
    have hb := b.toNat_lt
    have hc := c.toNat_lt
    rw [decodeGroups, value_digit (by omega), value_digit (by omega), value_digit (by omega),
      value_digit (by omega), ih]
    · simp only [Option.bind_eq_bind, Option.bind_some, Option.pure_def]
      rw [byte a _ (by omega), byte b _ (by omega), byte c _ (by omega)]
    · intro _ padding _
      exact (digit_ne (by omega)).1 padding
    · intro padding _
      exact (digit_ne (by omega)).1 padding

theorem encode_bytes (s : List UInt8) :
    ∀ b ∈ encode s, b ≠ 10 ∧ b ≠ 13 ∧ b.toNat < 128 := by
  have ofDigit : ∀ n < 64, digit n ≠ 10 ∧ digit n ≠ 13 ∧ (digit n).toNat < 128 := fun n small =>
    ⟨(digit_ne small).2.1, (digit_ne small).2.2, digit_ascii small⟩
  have padding : (61 : UInt8) ≠ 10 ∧ (61 : UInt8) ≠ 13 ∧ (61 : UInt8).toNat < 128 := by decide
  fun_induction encode s with
  | case1 => simp
  | case2 a =>
    have ha := a.toNat_lt
    intro b member
    simp only [List.mem_cons, List.not_mem_nil, or_false] at member
    rcases member with rfl | rfl | rfl | rfl
    · exact ofDigit _ (by omega)
    · exact ofDigit _ (by omega)
    · exact padding
    · exact padding
  | case3 a b =>
    have ha := a.toNat_lt
    have hb := b.toNat_lt
    intro b member
    simp only [List.mem_cons, List.not_mem_nil, or_false] at member
    rcases member with rfl | rfl | rfl | rfl
    · exact ofDigit _ (by omega)
    · exact ofDigit _ (by omega)
    · exact ofDigit _ (by omega)
    · exact padding
  | case4 a b c rest ih =>
    have ha := a.toNat_lt
    have hb := b.toNat_lt
    have hc := c.toNat_lt
    intro b member
    simp only [List.mem_cons] at member
    rcases member with rfl | rfl | rfl | rfl | later
    · exact ofDigit _ (by omega)
    · exact ofDigit _ (by omega)
    · exact ofDigit _ (by omega)
    · exact ofDigit _ (by omega)
    · exact ih b later

/-- What was encoded is decoded. -/
theorem decode_encode (s : List UInt8) : decode (encode s) = some s := by
  have same : (encode s).filter (fun b => b ≠ 10 ∧ b ≠ 13) = encode s := by
    rw [List.filter_eq_self]
    intro b member
    obtain ⟨lf, cr, -⟩ := encode_bytes s b member
    exact decide_eq_true ⟨lf, cr⟩
  rw [decode, same, decodeGroups_encode]

end FirewallCore.Lib.Base64
