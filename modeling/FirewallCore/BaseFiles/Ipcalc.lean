import FirewallCore.Lib.Bits

/-!
The shell functions for IPv4 addresses (`lib/functions/ipv4.sh`). Shell variables hold texts, lists of
characters here; arithmetic is in 64 bits.
-/

namespace FirewallCore.BaseFiles

open FirewallCore.Lib

abbrev Text := List Char

def uintMax : Nat := 4294967295

/-- A number as the shell writes it. -/
def decimal (n : Nat) : Text := Nat.toDigits 10 n

/-- The number that a text of digits stands for. -/
def number (text : Text) : Nat := Nat.ofDigitChars 10 text 0

/-- `~`, in 64 bits. -/
def complement (n : Nat) : Nat := 2 ^ 64 - 1 - n

/-- Whether a text is a decimal number of 32 bits. One with a leading zero is read as octal, and is never
written so again. -/
def assertUint32 (text : Text) : Bool :=
  text ≠ [] ∧ text.all Char.isDigit ∧ number text ≤ uintMax ∧ decimal (number text) = text

def bitcount (n : Nat) : Option Nat :=
  if assertUint32 (decimal n) then
    let c := ((n >>> 1) &&& 0x55555555) + (n &&& 0x55555555)
    let c := ((c >>> 2) &&& 0x33333333) + (c &&& 0x33333333)
    let c := ((c >>> 4) &&& 0x0f0f0f0f) + (c &&& 0x0f0f0f0f)
    let c := ((c >>> 8) &&& 0x00ff00ff) + (c &&& 0x00ff00ff)
    some (((c >>> 16) &&& 0x0000ffff) + (c &&& 0x0000ffff))
  else none

/-! ### Dotted quads -/

/-- Whether a text is characters of some ranges, with a dot and anything behind them (`[0-9].*`) or, at the
end of an address, nothing. -/
def fits (last : Bool) : List (Char × Char) → Text → Bool
  | [], ip => if last then ip.isEmpty else ip.head? == some '.'
  | range :: ranges, c :: ip => (range.1 ≤ c && c ≤ range.2) && fits last ranges ip
  | _ :: _, [] => false

/-- How many digits the next number has. -/
def octetWidth (last : Bool) (ip : Text) : Option Nat :=
  if fits last [('0', '9')] ip then some 1
  else if fits last [('1', '9'), ('0', '9')] ip then some 2
  else if fits last [('1', '1'), ('0', '9'), ('0', '9')] ip || fits last [('2', '2'), ('0', '4'), ('0', '9')] ip ||
      fits last [('2', '2'), ('5', '5'), ('0', '5')] ip then some 3
  else none

/-- The next number and what is behind it and its dot. -/
def octet (last : Bool) (ip : Text) : Option (Nat × Text) :=
  (octetWidth last ip).map fun width => (number (ip.take width), ip.drop (if last then width else width + 1))

def str2ip (ip : Text) : Option Nat := do
  let (a, ip) ← octet false ip
  let (b, ip) ← octet false ip
  let (c, ip) ← octet false ip
  let (d, ip) ← octet true ip
  if ip = [] then some ((a <<< 24) + (b <<< 16) + (c <<< 8) + d) else none

/-- `ip2str`, for a number that is written as a text. -/
def ip2str (text : Text) : Option Text :=
  if assertUint32 text then
    let n := number text
    some (decimal (n >>> 24) ++ '.' :: decimal ((n >>> 16) &&& 255) ++ '.' :: decimal ((n >>> 8) &&& 255) ++
      '.' :: decimal (n &&& 255))
  else none

/-! ### Netmasks -/

def prefix2netmask (text : Text) : Option Nat :=
  if assertUint32 text then
    if 32 < number text then none else some (complement (uintMax >>> number text) &&& uintMax)
  else none

def isContiguous (x : Nat) : Option Bool :=
  if assertUint32 (decimal x) then
    let y := complement x &&& uintMax
    let z := (y + 1) &&& uintMax
    some (z &&& y = 0)
  else none

def netmask2Prefix (n : Nat) : Option Nat := do
  if ← isContiguous n then bitcount n else none

/-! ### Texts of numbers -/

section Texts

variable {n d : Nat} {last : Bool} {rest : Text}

@[simp] theorem number_decimal (n : Nat) : number (decimal n) = n := Nat.ofDigitChars_ten_toDigits

theorem decimal_ne_nil (n : Nat) : decimal n ≠ [] := Nat.toDigits_ne_nil

theorem isDigit_decimal {c : Char} (member : c ∈ decimal n) : c.isDigit :=
  Nat.isDigit_of_mem_toDigits (by decide) (by decide) member

theorem assertUint32_decimal : assertUint32 (decimal n) = decide (n < 2 ^ 32) := by
  have digits : (decimal n).all Char.isDigit = true := List.all_eq_true.mpr fun c member => isDigit_decimal member
  unfold assertUint32 uintMax
  simp only [decimal_ne_nil, digits, number_decimal, ne_eq, not_false_eq_true, true_and, and_true]
  exact decide_eq_decide.mpr (by omega)

theorem assertUint32_of_lt (small : n < 2 ^ 32) : assertUint32 (decimal n) = true := by
  rw [assertUint32_decimal, decide_eq_true small]

/-! A number below 256 is read back with what is behind it. -/

theorem digitChar_le : ∀ a < 10, ∀ b < 10, (Nat.digitChar a ≤ Nat.digitChar b ↔ a ≤ b) := by decide

theorem not_digitChar_le_dot : ∀ a < 10, ¬Nat.digitChar a ≤ '.' := by decide

theorem digitChar_ne_dot : ∀ a < 10, Nat.digitChar a ≠ '.' := by decide

/-- What may be behind a number. -/
def Ends (last : Bool) (rest : Text) : Prop := if last then rest = [] else rest.head? = some '.'

theorem fits_nil : fits last [] rest = true ↔ Ends last rest := by
  unfold Ends
  rw [fits]
  cases last <;> simp

/-- The digits of a number, and the ranges that they are in. -/
def within : List (Nat × Nat) → List Nat → Bool
  | [], [] => true
  | range :: ranges, d :: ds => (range.1 ≤ d && d ≤ range.2) && within ranges ds
  | _, _ => false

def charRange (range : Nat × Nat) : Char × Char := (Nat.digitChar range.1, Nat.digitChar range.2)

theorem fits_digits (ranges : List (Nat × Nat)) {ds : List Nat} (digits : ∀ d ∈ ds, d < 10)
    (bounds : ∀ range ∈ ranges, range.1 < 10 ∧ range.2 < 10) (ends : Ends last rest) :
    fits last (ranges.map charRange) (ds.map Nat.digitChar ++ rest) = within ranges ds := by
  induction ranges generalizing ds with
  | nil =>
    cases ds with
    | nil => exact fits_nil.mpr ends
    | cons d ds =>
      have other := digitChar_ne_dot d (digits d List.mem_cons_self)
      cases last <;> simp [fits, within, other]
  | cons range ranges ih =>
    rw [List.forall_mem_cons] at bounds
    cases ds with
    | nil =>
      have outside := not_digitChar_le_dot range.1 bounds.1.1
      cases rest with
      | nil => rfl
      | cons c rest =>
        cases last with
        | true => cases ends
        | false =>
          obtain rfl : c = '.' := Option.some.inj ends
          simp [fits, within, charRange, outside]
    | cons d ds =>
      rw [List.forall_mem_cons] at digits
      rw [List.map_cons, List.map_cons, List.cons_append, fits, within, ih digits.2 bounds.2]
      simp only [charRange, digitChar_le _ bounds.1.1 d digits.1, digitChar_le d digits.1 _ bounds.1.2]

theorem decimal_step (n : Nat) : decimal n =
    if n < 10 then [Nat.digitChar n] else decimal (n / 10) ++ [Nat.digitChar (n % 10)] :=
  Nat.toDigits_eq_if (by decide)

/-- A number below 256 has one to three digits. -/
theorem decimal_digits (small : n < 256) : ∃ ds, decimal n = ds.map Nat.digitChar ∧ (∀ d ∈ ds, d < 10) ∧
    (ds = [n] ∨ 10 ≤ n ∧ n < 100 ∧ ds = [n / 10, n % 10] ∨ 100 ≤ n ∧ ds = [n / 100, n / 10 % 10, n % 10]) := by
  rcases Nat.lt_or_ge n 10 with one | two
  · exact ⟨[n], by rw [decimal_step, if_pos one]; rfl, by simpa using one, .inl rfl⟩
  · rcases Nat.lt_or_ge n 100 with less | three
    · refine ⟨[n / 10, n % 10], ?_, by simp; omega, .inr (.inl ⟨two, less, rfl⟩)⟩
      rw [decimal_step, if_neg (by omega), decimal_step, if_pos (by omega)]
      rfl
    · refine ⟨[n / 100, n / 10 % 10, n % 10], ?_, by simp; omega, .inr (.inr ⟨three, rfl⟩)⟩
      rw [decimal_step, if_neg (by omega), decimal_step (n / 10), if_neg (by omega), decimal_step (n / 10 / 10),
        if_pos (by omega), Nat.div_div_eq_div_mul]
      rfl

/-- These are as many as are taken. -/
theorem octetWidth_decimal (small : n < 256) (ends : Ends last rest) :
    octetWidth last (decimal n ++ rest) = some (decimal n).length := by
  obtain ⟨ds, digits, below, cases⟩ := decimal_digits small
  have one : fits last [('0', '9')] (ds.map Nat.digitChar ++ rest) = within [(0, 9)] ds :=
    fits_digits [(0, 9)] below (by decide) ends
  have two : fits last [('1', '9'), ('0', '9')] (ds.map Nat.digitChar ++ rest) = within [(1, 9), (0, 9)] ds :=
    fits_digits [(1, 9), (0, 9)] below (by decide) ends
  have hundred : fits last [('1', '1'), ('0', '9'), ('0', '9')] (ds.map Nat.digitChar ++ rest) =
      within [(1, 1), (0, 9), (0, 9)] ds :=
    fits_digits [(1, 1), (0, 9), (0, 9)] below (by decide) ends
  have twoHundred : fits last [('2', '2'), ('0', '4'), ('0', '9')] (ds.map Nat.digitChar ++ rest) =
      within [(2, 2), (0, 4), (0, 9)] ds :=
    fits_digits [(2, 2), (0, 4), (0, 9)] below (by decide) ends
  have fifty : fits last [('2', '2'), ('5', '5'), ('0', '5')] (ds.map Nat.digitChar ++ rest) =
      within [(2, 2), (5, 5), (0, 5)] ds :=
    fits_digits [(2, 2), (5, 5), (0, 5)] below (by decide) ends
  rw [octetWidth, digits, one, two, hundred, twoHundred, fifty, List.length_map]
  rcases cases with rfl | ⟨least, most, rfl⟩ | ⟨least, rfl⟩
  · have digit := below n List.mem_cons_self
    rw [if_pos (by simp [within]; omega)]
    rfl
  · rw [if_neg (by simp [within]), if_pos (by simp [within]; omega)]
    rfl
  · rw [if_neg (by simp [within]), if_neg (by simp [within]), if_pos (by simp [within]; omega)]
    rfl

theorem octet_decimal (small : n < 256) (ends : Ends last rest) :
    octet last (decimal n ++ rest) = some (n, rest.tail) := by
  rw [octet, octetWidth_decimal small ends, Option.map_some, List.take_left, number_decimal]
  congr 2
  cases last with
  | true =>
    rw [Ends, if_pos rfl] at ends
    rw [ends, if_pos rfl, List.drop_left]
    rfl
  | false => rw [if_neg Bool.false_ne_true, ← List.drop_drop, List.drop_left, List.drop_one]

/-- The dotted quad of an address. -/
def quad (n : Nat) : Text :=
  decimal (n / 2 ^ 24 % 256) ++ '.' :: decimal (n / 2 ^ 16 % 256) ++ '.' :: decimal (n / 2 ^ 8 % 256) ++
    '.' :: decimal (n % 256)

theorem ip2str_decimal (small : n < 2 ^ 32) : ip2str (decimal n) = some (quad n) := by
  have low (x : Nat) : x &&& 255 = x % 256 := Nat.and_two_pow_sub_one_eq_mod x 8
  have high : n / 2 ^ 24 % 256 = n / 2 ^ 24 := Nat.mod_eq_of_lt (by omega)
  rw [ip2str, if_pos (assertUint32_of_lt small), number_decimal, quad, high]
  simp only [low, Nat.shiftRight_eq_div_pow]

/-- An address is read back. -/
theorem str2ip_quad (small : n < 2 ^ 32) : str2ip (quad n) = some n := by
  have byte (x : Nat) : x % 256 < 256 := Nat.mod_lt _ (by decide)
  have dot (text : Text) : Ends false ('.' :: text) := rfl
  unfold str2ip quad
  rw [List.append_assoc, List.append_assoc, List.cons_append, List.cons_append, octet_decimal (byte _) (dot _)]
  simp only [Option.bind_eq_bind, Option.bind_some, List.tail_cons]
  rw [octet_decimal (byte _) (dot _)]
  simp only [Option.bind_some, List.tail_cons]
  rw [octet_decimal (byte _) (dot _)]
  simp only [Option.bind_some, List.tail_cons]
  rw [← List.append_nil (decimal (n % 256)), octet_decimal (byte _) (show Ends true [] from rfl)]
  simp only [Option.bind_some, List.tail_nil, if_true, Nat.shiftLeft_eq]
  congr 1
  omega

/-! Only these texts are read, with nothing else in front of what is left. -/

/-- The characters between two digits are the digits between them. -/
theorem digit_between {lo hi : Nat} (least : lo < 10) (most : hi < 10) {c : Char} (low : Nat.digitChar lo ≤ c)
    (high : c ≤ Nat.digitChar hi) : ∃ d, c = Nat.digitChar d ∧ lo ≤ d ∧ d ≤ hi := by
  have digits : ∀ d < 10, (Nat.digitChar d).toNat = 48 + d := by decide
  have low : (Nat.digitChar lo).toNat ≤ c.toNat := low
  have high : c.toNat ≤ (Nat.digitChar hi).toNat := high
  rw [digits lo least] at low
  rw [digits hi most] at high
  refine ⟨c.toNat - 48, ?_, by omega, by omega⟩
  rw [← Char.toNat_inj, digits _ (by omega)]
  omega

theorem fits_split {ranges : List (Nat × Nat)} {ip : Text} (bounds : ∀ range ∈ ranges, range.1 < 10 ∧ range.2 < 10)
    (fit : fits last (ranges.map charRange) ip = true) :
    ∃ ds, ip = ds.map Nat.digitChar ++ ip.drop ds.length ∧ Ends last (ip.drop ds.length) ∧
      within ranges ds = true := by
  induction ranges generalizing ip with
  | nil => exact ⟨[], rfl, fits_nil.mp fit, rfl⟩
  | cons range ranges ih =>
    rw [List.forall_mem_cons] at bounds
    cases ip with
    | nil => cases fit
    | cons c ip =>
      rw [List.map_cons, fits, Bool.and_eq_true, Bool.and_eq_true, decide_eq_true_eq, decide_eq_true_eq] at fit
      obtain ⟨d, rfl, low, high⟩ := digit_between bounds.1.1 bounds.1.2 fit.1.1 fit.1.2
      obtain ⟨ds, split, ends, inside⟩ := ih bounds.2 fit.2
      refine ⟨d :: ds, ?_, ends, ?_⟩
      · rw [List.map_cons, List.cons_append, List.length_cons, List.drop_succ_cons, ← split]
      · rw [within, inside, decide_eq_true low, decide_eq_true high]
        rfl

theorem decimal_snoc {high : Nat} (positive : 0 < high) (digit : d < 10) :
    decimal (10 * high + d) = decimal high ++ [Nat.digitChar d] := by
  rw [decimal_step, if_neg (by omega), Nat.mul_add_div (by decide), Nat.div_eq_of_lt digit, Nat.mul_add_mod,
    Nat.mod_eq_of_lt digit, Nat.add_zero]

theorem decimal_digit (digit : d < 10) : decimal d = [Nat.digitChar d] := by
  rw [decimal_step, if_pos digit]

theorem within_length {ranges : List (Nat × Nat)} {ds : List Nat} (inside : within ranges ds = true) :
    ds.length = ranges.length := by
  induction ranges generalizing ds with
  | nil =>
    cases ds with
    | nil => rfl
    | cons d ds => cases inside
  | cons range ranges ih =>
    cases ds with
    | nil => cases inside
    | cons d ds =>
      rw [within, Bool.and_eq_true] at inside
      rw [List.length_cons, List.length_cons, ih inside.2]

/-- The digits in the ranges of one of the patterns are those of a number below 256. -/
theorem decimal_of_within {ds : List Nat}
    (inside : within [(0, 9)] ds = true ∨ within [(1, 9), (0, 9)] ds = true ∨
      within [(1, 1), (0, 9), (0, 9)] ds = true ∨ within [(2, 2), (0, 4), (0, 9)] ds = true ∨
      within [(2, 2), (5, 5), (0, 5)] ds = true) : ∃ v < 256, decimal v = ds.map Nat.digitChar := by
  rcases ds with _ | ⟨a, _ | ⟨b, _ | ⟨c, _ | ⟨d, ds⟩⟩⟩⟩ <;> simp [within] at inside
  · exact ⟨a, by omega, decimal_digit (by omega)⟩
  · refine ⟨10 * a + b, by omega, ?_⟩
    rw [decimal_snoc (by omega) (by omega), decimal_digit (by omega)]
    rfl
  · refine ⟨10 * (10 * a + b) + c, by omega, ?_⟩
    rw [decimal_snoc (by omega) (by omega), decimal_snoc (by omega) (by omega), decimal_digit (by omega)]
    rfl

theorem octetWidth_some {ip : Text} {width : Nat} (read : octetWidth last ip = some width) :
    ∃ v < 256, ip = decimal v ++ ip.drop width ∧ (decimal v).length = width ∧ Ends last (ip.drop width) := by
  have pattern : ∃ ranges : List (Nat × Nat), ranges.length = width ∧ fits last (ranges.map charRange) ip = true ∧
      ranges ∈ [[(0, 9)], [(1, 9), (0, 9)], [(1, 1), (0, 9), (0, 9)], [(2, 2), (0, 4), (0, 9)],
        [(2, 2), (5, 5), (0, 5)]] := by
    unfold octetWidth at read
    split at read
    · rename_i fit
      exact ⟨[(0, 9)], Option.some.inj read, fit, by decide⟩
    · split at read
      · rename_i fit
        exact ⟨[(1, 9), (0, 9)], Option.some.inj read, fit, by decide⟩
      · split at read
        · rename_i fit
          rw [Bool.or_eq_true, Bool.or_eq_true] at fit
          rcases fit with (fit | fit) | fit
          · exact ⟨[(1, 1), (0, 9), (0, 9)], Option.some.inj read, fit, by decide⟩
          · exact ⟨[(2, 2), (0, 4), (0, 9)], Option.some.inj read, fit, by decide⟩
          · exact ⟨[(2, 2), (5, 5), (0, 5)], Option.some.inj read, fit, by decide⟩
        · cases read
  obtain ⟨ranges, length, fit, one⟩ := pattern
  have bounds : ∀ ranges ∈ [[(0, 9)], [(1, 9), (0, 9)], [(1, 1), (0, 9), (0, 9)], [(2, 2), (0, 4), (0, 9)],
      [(2, 2), (5, 5), (0, 5)]], ∀ range ∈ ranges, range.1 < 10 ∧ range.2 < 10 := by decide
  obtain ⟨ds, split, ends, inside⟩ := fits_split (bounds ranges one) fit
  have same : ds.length = width := by
    rw [← length]
    exact within_length inside
  rw [same] at split ends
  obtain ⟨v, small, text⟩ : ∃ v < 256, decimal v = ds.map Nat.digitChar := by
    apply decimal_of_within
    simp only [List.mem_cons, List.not_mem_nil, or_false] at one
    rcases one with rfl | rfl | rfl | rfl | rfl
    · exact .inl inside
    · exact .inr (.inl inside)
    · exact .inr (.inr (.inl inside))
    · exact .inr (.inr (.inr (.inl inside)))
    · exact .inr (.inr (.inr (.inr inside)))
  refine ⟨v, small, ?_, ?_, ends⟩
  · rw [text]
    exact split
  · rw [text, List.length_map, same]

theorem octet_some {ip : Text} {v : Nat} (read : octet last ip = some (v, rest)) :
    v < 256 ∧ ip = decimal v ++ (if last then [] else '.' :: rest) ∧ (last = true → rest = []) := by
  rw [octet, Option.map_eq_some_iff] at read
  obtain ⟨width, found, pair⟩ := read
  obtain ⟨w, small, split, length, ends⟩ := octetWidth_some found
  obtain ⟨value, tail⟩ := Prod.mk.inj pair
  have taken : ip.take width = decimal w := by
    rw [split, ← length, List.take_left]
  rw [taken, number_decimal] at value
  subst value
  refine ⟨small, ?_⟩
  cases last with
  | true =>
    have ends : ip.drop width = [] := ends
    rw [if_pos rfl, ends] at tail
    refine ⟨?_, fun _ => tail.symm⟩
    rw [if_pos rfl, ← ends]
    exact split
  | false =>
    have ends : (ip.drop width).head? = some '.' := ends
    rw [if_neg Bool.false_ne_true, ← List.drop_drop, List.drop_one] at tail
    refine ⟨?_, fun never => by cases never⟩
    rw [if_neg Bool.false_ne_true, ← tail, List.cons_head?_tail ends]
    exact split

/-- What is read as an address is its dotted quad. -/
theorem str2ip_some {ip : Text} (read : str2ip ip = some n) : n < 2 ^ 32 ∧ ip = quad n := by
  unfold str2ip at read
  simp only [Option.bind_eq_bind, Option.bind_eq_some_iff] at read
  obtain ⟨⟨a, ip1⟩, first, ⟨b, ip2⟩, second, ⟨c, ip3⟩, third, ⟨d, ip4⟩, fourth, value⟩ := read
  obtain ⟨aSmall, rfl, -⟩ := octet_some first
  obtain ⟨bSmall, rfl, -⟩ := octet_some second
  obtain ⟨cSmall, rfl, -⟩ := octet_some third
  obtain ⟨dSmall, rfl, none⟩ := octet_some fourth
  obtain rfl : ip4 = [] := none rfl
  dsimp only at value
  rw [if_pos rfl, Nat.shiftLeft_eq, Nat.shiftLeft_eq, Nat.shiftLeft_eq, Option.some_inj] at value
  have bytes : n / 2 ^ 24 % 256 = a ∧ n / 2 ^ 16 % 256 = b ∧ n / 2 ^ 8 % 256 = c ∧ n % 256 = d := by omega
  refine ⟨by omega, ?_⟩
  rw [quad, bytes.1, bytes.2.1, bytes.2.2.1, bytes.2.2.2]
  simp

end Texts

/-! ### The masks of prefix lengths -/

section Masks

variable {x length : Nat}

/-- The netmask of a prefix length. -/
def netmaskOf (length : Nat) : Nat := upperBits 32 (32 - length)

theorem prefix2netmask_decimal (valid : length ≤ 32) : prefix2netmask (decimal length) = some (netmaskOf length) := by
  have mask : ∀ length < 33, complement (uintMax >>> length) &&& uintMax = netmaskOf length := by decide
  rw [prefix2netmask, if_pos (assertUint32_of_lt (by omega)), number_decimal, if_neg (by omega),
    mask length (by omega)]

theorem complement_and (small : x < 2 ^ 32) : complement x &&& uintMax = 2 ^ 32 - 1 - x := by
  have ones := Nat.and_two_pow_sub_one_eq_mod (complement x) 32
  refine ones.trans ?_
  unfold complement
  omega

theorem isContiguous_iff (small : x < 2 ^ 32) : isContiguous x = some true ↔ ∃ length ≤ 32, x = netmaskOf length := by
  have below : 2 ^ 32 - 1 - x < 2 ^ 32 := by omega
  have ones := Nat.and_two_pow_sub_one_eq_mod (2 ^ 32 - 1 - x + 1) 32
  rw [isContiguous, if_pos (assertUint32_of_lt small), complement_and small, Option.some_inj, decide_eq_true_iff]
  unfold uintMax
  rw [show 4294967295 = 2 ^ 32 - 1 from rfl, ones, succ_and_eq_zero_iff below]
  constructor
  · rintro ⟨low, le, lower⟩
    have most : 2 ^ low ≤ 2 ^ 32 := Nat.pow_le_pow_right (by decide) le
    have positive := Nat.two_pow_pos low
    refine ⟨32 - low, Nat.sub_le _ _, ?_⟩
    rw [netmaskOf, Nat.sub_sub_self le, upperBits]
    omega
  · rintro ⟨length, _, rfl⟩
    refine ⟨32 - length, Nat.sub_le _ _, ?_⟩
    have most : 2 ^ (32 - length) ≤ 2 ^ 32 := Nat.pow_le_pow_right (by decide) (Nat.sub_le _ _)
    have positive := Nat.two_pow_pos (32 - length)
    unfold netmaskOf upperBits
    omega

theorem netmaskOf_lt (length : Nat) : netmaskOf length < 2 ^ 32 := upperBits_lt

theorem bitcount_netmaskOf (valid : length ≤ 32) : bitcount (netmaskOf length) = some length := by
  have counts : ∀ length < 33, bitcount (netmaskOf length) = some length := by decide
  exact counts length (by omega)

/-- The masks that are taken are those of prefix lengths. -/
theorem netmask2Prefix_netmaskOf (valid : length ≤ 32) : netmask2Prefix (netmaskOf length) = some length := by
  rw [netmask2Prefix, (isContiguous_iff (netmaskOf_lt length)).mpr ⟨length, valid, rfl⟩]
  exact bitcount_netmaskOf valid

theorem netmask2Prefix_none (small : x < 2 ^ 32) (other : ¬∃ length ≤ 32, x = netmaskOf length) :
    netmask2Prefix x = none := by
  unfold netmask2Prefix
  cases contiguous : isContiguous x with
  | none => rfl
  | some yes =>
    cases yes with
    | false => rfl
    | true => exact absurd ((isContiguous_iff small).mp contiguous) other

/-- Addresses and netmasks have one text each, and no other text is read. -/
theorem canonical_texts :
    (∀ (s : Text) (n : UInt32), str2ip s = some n.toNat ↔ ip2str (decimal n.toNat) = some s) ∧
      ∀ (m : UInt32) (p : Nat), netmask2Prefix m.toNat = some p ↔
        p ≤ 32 ∧ prefix2netmask (decimal p) = some m.toNat := by
  constructor
  · intro s n
    rw [ip2str_decimal n.toNat_lt, Option.some_inj]
    constructor
    · intro read
      exact (str2ip_some read).2.symm
    · rintro rfl
      exact str2ip_quad n.toNat_lt
  · intro m p
    constructor
    · intro read
      by_cases mask : ∃ length ≤ 32, m.toNat = netmaskOf length
      · obtain ⟨length, valid, isMask⟩ := mask
        rw [isMask, netmask2Prefix_netmaskOf valid, Option.some_inj] at read
        subst read
        exact ⟨valid, by rw [prefix2netmask_decimal valid, isMask]⟩
      · rw [netmask2Prefix_none m.toNat_lt mask] at read
        cases read
    · rintro ⟨valid, made⟩
      rw [prefix2netmask_decimal valid, Option.some_inj] at made
      rw [← made]
      exact netmask2Prefix_netmaskOf valid

end Masks

end FirewallCore.BaseFiles

/-!
`ipcalc.sh`: a network, and the part of it that a DHCP pool may take.
-/

namespace FirewallCore.BaseFiles

open FirewallCore.Lib

/-- How addresses are written: as dotted quads, with `-d` or with `-x`. -/
inductive Style where
  | quads
  | decimal
  | hexadecimal
  deriving DecidableEq, Repr

/-- The lines that are printed, and the exit status. -/
structure Run where
  lines : List Text
  status : Nat
  deriving DecidableEq

def usage : Run := ⟨[], 1⟩

/-- `_ip2str`, of a number that is written as a text; `none` if it exits. -/
def ip2strIn (style : Style) (text : Text) : Option Text :=
  if assertUint32 text then
    match style with
    | .decimal => some text
    | .hexadecimal => some (Nat.toDigits 16 (number text))
    | .quads => ip2str text
  else none

/-- `${text%/*}` -/
def beforeLast (c : Char) (text : Text) : Text := (text.reverse.dropWhile (· ≠ c)).tail.reverse

/-- `${text#*/}` -/
def afterFirst (c : Char) (text : Text) : Text := (text.dropWhile (· ≠ c)).tail

/-- What the arguments name, and those that are left. -/
structure Parsed where
  ipaddr : Nat
  netmask : Nat
  length : Text
  rest : List Text

/-- The address and the mask. -/
def parse : List Text → Option Parsed
  | [] => none
  | first :: rest =>
    if '/' ∈ first then
      if '.' ∈ afterFirst '/' first then do
        let ipaddr ← str2ip (beforeLast '/' first)
        let netmask ← str2ip (afterFirst '/' first)
        let length ← netmask2Prefix netmask
        some ⟨ipaddr, netmask, decimal length, rest⟩
      else do
        let ipaddr ← str2ip (beforeLast '/' first)
        let length := afterFirst '/' first
        if assertUint32 length then
          if 32 < number length then none
          else
            let netmask ← prefix2netmask length
            some ⟨ipaddr, netmask, length, rest⟩
        else none
    else do
      let ipaddr ← str2ip first
      let netmask ← str2ip (rest.headD [])
      let length ← netmask2Prefix netmask
      some ⟨ipaddr, netmask, decimal length, rest.tail⟩

/-- The options, and the arguments behind them. -/
def options : List Text → Style × List Text
  | ['-', 'd'] :: rest => (.decimal, rest)
  | ['-', 'x'] :: rest => (.hexadecimal, rest)
  | args => (.quads, args)

def hostmask (netmask : Nat) : Nat := netmask ^^^ 0xffffffff

def line (name : String) (value : Text) : Text := name.toList ++ '=' :: value

/-- The lines about the network. -/
def printNetwork (style : Style) (p : Parsed) : Run :=
  let network := p.ipaddr &&& p.netmask
  let broadcast := network ||| hostmask p.netmask
  let count := hostmask p.netmask + 1
  match ip2strIn style (decimal p.ipaddr), ip2strIn style (decimal p.netmask), ip2strIn style (decimal network) with
  | some ip, some netmask, some net =>
    let front := [line "IP" ip, line "NETMASK" netmask]
    let back := [line "NETWORK" net, line "PREFIX" p.length, line "COUNT" (decimal count)]
    if number p.length ≤ 30 then
      match ip2strIn style (decimal broadcast) with
      | some text => ⟨front ++ line "BROADCAST" text :: back, 0⟩
      | none => ⟨front, 1⟩
    else ⟨front ++ back, 0⟩
  | _, _, _ => ⟨[], 1⟩

/-! ### The range -/

section Range

variable (p : Parsed)

def lower : Nat :=
  let network := p.ipaddr &&& p.netmask
  if number p.length ≤ 30 then network + 1 else network

def upper : Nat :=
  let network := p.ipaddr &&& p.netmask
  if number p.length ≤ 30 then (network ||| hostmask p.netmask) - 1
  else if number p.length = 31 then network ||| hostmask p.netmask
  else network

def rangeStart (start : Nat) : Nat :=
  let start := (p.ipaddr &&& p.netmask) ||| (start &&& hostmask p.netmask)
  let start := if start < lower p then lower p else start
  if start = p.ipaddr then start + 1 else start

def rangeEnd (start range : Nat) : Int :=
  let last : Int := start + range - 1
  let last := if upper p < last then (upper p : Int) else last
  if last = p.ipaddr then last - 1 else last

/-- A number as the shell writes it. -/
def signed (n : Int) : Text := if n < 0 then '-' :: decimal n.natAbs else decimal n.toNat

/-- The lines about the range, behind those about the network. -/
def printRange (style : Style) (before : List Text) (start range : Text) : Run :=
  if ¬assertUint32 start then ⟨before, 1⟩
  else if ¬assertUint32 range then ⟨before, 1⟩
  else
    let first := rangeStart p (number start)
    let last := rangeEnd p first (number range)
    if last < first then ⟨before, 1⟩
    else
      match ip2strIn style (decimal first), ip2strIn style (signed last) with
      | some startText, some endText =>
        if first ≤ p.ipaddr ∧ p.ipaddr ≤ last then ⟨before, 1⟩
        else ⟨before ++ [line "START" startText, line "END" endText], 0⟩
      | _, _ => ⟨before, 1⟩

end Range

def ipcalc (args : List Text) : Run :=
  match options args with
  | (_, []) => usage
  | (style, args) =>
    match parse args with
    | none => ⟨[], 1⟩
    | some p =>
      if p.rest.length ≠ 0 ∧ p.rest.length ≠ 2 then usage
      else
        let net := printNetwork style p
        if net.status ≠ 0 then net
        else
          match p.rest with
          | [start, range] => if start = [] ∧ range = [] then net else printRange p style net.lines start range
          | _ => net

end FirewallCore.BaseFiles
