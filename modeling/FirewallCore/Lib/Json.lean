import FirewallCore.Lib.Runes
import FirewallCore.Lib.Strings

/-!
JSON as `encoding/json` writes and reads it.

The writer is the one of an `Encoder` with its default settings: a value has no
space in it, and quotes, backslashes, control characters, `<`, `>`, `&` and the
two line separators of Unicode are escaped in strings. Numbers are integers.

The reader is `Decoder.Token`: the tokens of a text are those before the first
error. `tokens_render` says that the tokens of what was written are those of the
value.
-/

namespace FirewallCore.Lib.Json

/-! ### Strings -/

/-- A hexadecimal digit. -/
def hexDigit (n : Nat) : UInt8 := UInt8.ofNat (Nat.digitChar n).toNat

/-- The four digits behind `\u`. -/
def hex4 (n : Nat) : List UInt8 :=
  [hexDigit (n / 4096 % 16), hexDigit (n / 256 % 16), hexDigit (n / 16 % 16), hexDigit (n % 16)]

/-- The characters that have an escape of two bytes, with the second of them. -/
def shortEscapes : List (Char × UInt8) :=
  [('"', 34), ('\\', 92), ('\x08', 98), ('\x0c', 102), ('\n', 110), ('\r', 114), ('\t', 116)]

/-- The characters besides these that are not written as they are. -/
def hasLongEscape (c : Char) : Bool :=
  c < ' ' || c = '<' || c = '>' || c = '&' || c = '\u2028' || c = '\u2029'

/-- A rune in a string. -/
def escapeRune : Rune → List UInt8
  | .stray _ => 92 :: 117 :: hex4 0xfffd
  | .char c =>
    match shortEscapes.lookup c with
    | some b => [92, b]
    | none => if hasLongEscape c then 92 :: 117 :: hex4 c.toNat else String.utf8EncodeChar c

/-- A string without its quotes. -/
def escape (s : List UInt8) : List UInt8 := (runes s).flatMap escapeRune

/-- `appendString`. -/
def quote (s : List UInt8) : List UInt8 := 34 :: escape s ++ [34]

/-- The value of four hexadecimal digits. -/
def getu4 (a b c d : UInt8) : Option Nat := do
  let a ← hexVal (Char.ofNat a.toNat)
  let b ← hexVal (Char.ofNat b.toNat)
  let c ← hexVal (Char.ofNat c.toNat)
  let d ← hexVal (Char.ofNat d.toNat)
  return 4096 * a + 256 * b + 16 * c + d

/-- The escapes of two bytes that are read: a slash may also be escaped. -/
def unescape (b : UInt8) : Option Char :=
  if b = 47 then some '/' else (shortEscapes.map Prod.swap).lookup b

/-- The second half of a surrogate pair at the start of a text. -/
def lowSurrogate : List UInt8 → Option Nat
  | 92 :: 117 :: a :: b :: c :: d :: _ => do
    let low ← getu4 a b c d
    if 0xdc00 ≤ low ∧ low < 0xe000 then return low else none
  | _ => none

/-- The character at the start of a text in a string, and the number of its bytes. -/
def readChar : List UInt8 → Option (Char × Nat)
  | [] => none
  | [92] => none
  | 92 :: 117 :: a :: b :: c :: d :: rest => do
    let n ← getu4 a b c d
    if 0xd800 ≤ n ∧ n < 0xe000 then
      match lowSurrogate rest with
      | some low =>
        if n < 0xdc00 then
          return (Char.ofNat (0x10000 + 0x400 * (n - 0xd800) + (low - 0xdc00)), 12)
        else return ('\uFFFD', 6)
      | none => return ('\uFFFD', 6)
    else return (Char.ofNat n, 6)
  | 92 :: b :: _ => (unescape b).map (·, 2)
  | b :: rest =>
    if b < 32 then none
    else
      match decodeRune (b :: rest) with
      | some c => some (c, c.utf8Size)
      | none => some ('\uFFFD', 1)

/-- A string behind its opening quote and the first `skip` bytes, which belong to a character
before: the characters, and what stands behind the closing quote. -/
def unquote : Nat → List UInt8 → Option (List Char × List UInt8)
  | _, [] => none
  | skip + 1, _ :: rest => unquote skip rest
  | 0, b :: rest =>
    if b = 34 then some ([], rest)
    else
      match readChar (b :: rest) with
      | none => none
      | some (c, n) => (unquote (n - 1) rest).map fun (cs, after) => (c :: cs, after)

/-! ### Numbers -/

def isDigit (b : UInt8) : Bool := 48 ≤ b && b ≤ 57

/-- A number in decimal. -/
def natText (n : Nat) : List UInt8 := (Nat.toDigits 10 n).map fun c => UInt8.ofNat c.toNat

/-- `strconv.AppendInt`. -/
def intText (n : Int) : List UInt8 := if n < 0 then 45 :: natText n.natAbs else natText n.natAbs

/-- The number of bytes of the integer at the start of a text. -/
def scanInt : List UInt8 → Option Nat
  | 48 :: _ => some 1
  | s => if (s.takeWhile isDigit).length = 0 then none else some (s.takeWhile isDigit).length

/-- The number of bytes of the fraction at the start of a text. -/
def scanFrac : List UInt8 → Option Nat
  | 46 :: rest =>
    let digits := (rest.takeWhile isDigit).length
    if digits = 0 then none else some (digits + 1)
  | _ => some 0

/-- The number of bytes of the exponent at the start of a text. -/
def scanExp : List UInt8 → Option Nat
  | [] => some 0
  | b :: rest =>
    if b = 101 ∨ b = 69 then
      let sign := if rest.head? = some 43 ∨ rest.head? = some 45 then 1 else 0
      let digits := ((rest.drop sign).takeWhile isDigit).length
      if digits = 0 then none else some (1 + sign + digits)
    else some 0

/-- The number of bytes of the number at the start of a text. -/
def scanNumber (s : List UInt8) : Option Nat := do
  let sign := if s.head? = some 45 then 1 else 0
  let int ← scanInt (s.drop sign)
  let frac ← scanFrac (s.drop (sign + int))
  let exp ← scanExp (s.drop (sign + int + frac))
  return sign + int + frac + exp

/-- A number from its digits. -/
def readNat (digits : List UInt8) : Option Nat :=
  if digits = [] then none
  else digits.foldlM (fun acc b => if isDigit b then some (10 * acc + (b.toNat - 48)) else none) 0

/-- A number with an optional sign. -/
def readInt : List UInt8 → Option Int
  | 45 :: digits => (readNat digits).map fun n : Nat => -Int.ofNat n
  | 43 :: digits => (readNat digits).map Int.ofNat
  | digits => (readNat digits).map Int.ofNat

/-- `Number.Int64`. -/
def parseInt64 (s : List UInt8) : Option Int64 :=
  (readInt s).bind fun n => if -2 ^ 63 ≤ n ∧ n < 2 ^ 63 then some (Int64.ofInt n) else none

/-- The value of `Number.Int64` besides an error: the nearest one in range, or zero. -/
def int64Value (s : List UInt8) : Int64 :=
  match readInt s with
  | none => 0
  | some n =>
    if n < -2 ^ 63 then Int64.minValue
    else if n < 2 ^ 63 then Int64.ofInt n
    else Int64.maxValue

/-! ### Tokens -/

inductive Delim where
  | openArray
  | closeArray
  | openObject
  | closeObject
  deriving DecidableEq, Repr

/-- `json.Token`; a number is its text, because of `UseNumber`. -/
inductive Token where
  | delim (d : Delim)
  | null
  | bool (b : Bool)
  | num (text : List UInt8)
  | str (s : String)
  deriving DecidableEq, Repr

inductive TokenState where
  | topValue
  | arrayStart
  | arrayValue
  | arrayComma
  | objectStart
  | objectKey
  | objectColon
  | objectValue
  | objectComma
  deriving DecidableEq, Repr

/-- `tokenValueAllowed`. -/
def TokenState.valueAllowed : TokenState → Bool
  | topValue | arrayStart | arrayValue | objectValue => true
  | _ => false

/-- `tokenValueEnd`. -/
def TokenState.valueEnd : TokenState → TokenState
  | arrayStart | arrayValue => arrayComma
  | objectValue => objectComma
  | st => st

/-- A literal or a number at the start of a text, and the number of its bytes. -/
def scanAtom (s : List UInt8) : Option (Token × Nat) :=
  if utf8 "true" <+: s then some (.bool true, 4)
  else if utf8 "false" <+: s then some (.bool false, 5)
  else if utf8 "null" <+: s then some (.null, 4)
  else (scanNumber s).map fun n => (.num (s.take n), n)

/-- The tokens of a text that `Decoder.Token` returns before an error, from a state on and behind
the first `skip` bytes. -/
def tokens : Nat → TokenState → List TokenState → List UInt8 → List Token
  | _, _, _, [] => []
  | skip + 1, st, stack, _ :: rest => tokens skip st stack rest
  | 0, st, stack, b :: rest =>
    if b = 32 ∨ b = 9 ∨ b = 10 ∨ b = 13 then tokens 0 st stack rest
    else if b = 91 then
      if st.valueAllowed then .delim .openArray :: tokens 0 .arrayStart (st :: stack) rest else []
    else if b = 93 then
      match st, stack with
      | .arrayStart, outer :: stack | .arrayComma, outer :: stack =>
        .delim .closeArray :: tokens 0 outer.valueEnd stack rest
      | _, _ => []
    else if b = 123 then
      if st.valueAllowed then
        .delim .openObject :: tokens 0 .objectStart (st :: stack) rest
      else []
    else if b = 125 then
      match st, stack with
      | .objectStart, outer :: stack | .objectComma, outer :: stack =>
        .delim .closeObject :: tokens 0 outer.valueEnd stack rest
      | _, _ => []
    else if b = 58 then
      if st = .objectColon then tokens 0 .objectValue stack rest else []
    else if b = 44 then
      match st with
      | .arrayComma => tokens 0 .arrayValue stack rest
      | .objectComma => tokens 0 .objectKey stack rest
      | _ => []
    else if b = 34 then
      if st = .objectStart ∨ st = .objectKey ∨ st.valueAllowed then
        match unquote 0 rest with
        | none => []
        | some (cs, after) =>
          .str (String.ofList cs) :: tokens (rest.length - after.length)
            (if st = .objectStart ∨ st = .objectKey then .objectColon else st.valueEnd)
            stack rest
      else []
    else if st.valueAllowed then
      match scanAtom (b :: rest) with
      | none => []
      | some (t, n) => t :: tokens (n - 1) st.valueEnd stack rest
    else []

/-! ### Values -/

end Json

/-- A JSON value. -/
inductive Json where
  | null
  | bool (b : Bool)
  | num (n : Int)
  | str (s : List UInt8)
  | arr (items : List Json)
  | obj (members : List (List UInt8 × Json))

namespace Json

mutual
/-- A value as the encoder writes it. -/
def render : Json → List UInt8
  | null => utf8 "null"
  | bool true => utf8 "true"
  | bool false => utf8 "false"
  | num n => intText n
  | str s => quote s
  | arr items => 91 :: renderItems false items ++ [93]
  | obj members => 123 :: renderMembers false members ++ [125]

/-- The items of an array, with a comma before each but the first. -/
def renderItems : Bool → List Json → List UInt8
  | _, [] => []
  | more, j :: items => (if more then [44] else []) ++ j.render ++ renderItems true items

/-- The members of an object, with a comma before each but the first. -/
def renderMembers : Bool → List (List UInt8 × Json) → List UInt8
  | _, [] => []
  | more, (key, j) :: members =>
    (if more then [44] else []) ++ quote key ++ 58 :: j.render ++ renderMembers true members
end

mutual
/-- The tokens of a value. -/
def toks : Json → List Token
  | null => [.null]
  | bool b => [.bool b]
  | num n => [.num (intText n)]
  | str s => [.str (coerce s)]
  | arr items => .delim .openArray :: toksItems items ++ [.delim .closeArray]
  | obj members => .delim .openObject :: toksMembers members ++ [.delim .closeObject]

def toksItems : List Json → List Token
  | [] => []
  | j :: items => j.toks ++ toksItems items

def toksMembers : List (List UInt8 × Json) → List Token
  | [] => []
  | (key, j) :: members => .str (coerce key) :: j.toks ++ toksMembers members
end

/-! ### Strings are read back -/

theorem hexVal_hexDigit {n : Nat} (small : n < 16) :
    hexVal (Char.ofNat (hexDigit n).toNat) = some n := by
  interval_cases n <;> decide

theorem getu4_hex4 {n : Nat} (small : n < 65536) :
    getu4 (hexDigit (n / 4096 % 16)) (hexDigit (n / 256 % 16)) (hexDigit (n / 16 % 16))
      (hexDigit (n % 16)) = some n := by
  simp only [getu4, hexVal_hexDigit (Nat.mod_lt _ (by decide : 0 < 16)), Option.bind_eq_bind,
    Option.bind_some, Option.pure_def, Option.some.injEq]
  omega

theorem mem_of_lookup {c : Char} {b : UInt8} (found : shortEscapes.lookup c = some b) :
    (c, b) ∈ shortEscapes := by
  obtain ⟨before, after, eq, -⟩ := List.lookup_eq_some_iff.mp found
  rw [eq]
  exact List.mem_append_right _ List.mem_cons_self

/-- Every other escape reads as the character that it is written for. -/
theorem readChar_short {c : Char} {b : UInt8} (found : shortEscapes.lookup c = some b)
    (rest : List UInt8) : readChar (92 :: b :: rest) = some (c, 2) := by
  have member := mem_of_lookup found
  simp only [shortEscapes, List.mem_cons, Prod.mk.injEq, List.not_mem_nil, or_false] at member
  rcases member with ⟨rfl, rfl⟩ | ⟨rfl, rfl⟩ | ⟨rfl, rfl⟩ | ⟨rfl, rfl⟩ | ⟨rfl, rfl⟩ | ⟨rfl, rfl⟩ |
    ⟨rfl, rfl⟩ <;> rfl

theorem readChar_unicode {n : Nat} (small : n < 65536) (single : ¬(0xd800 ≤ n ∧ n < 0xe000))
    (rest : List UInt8) : readChar (92 :: 117 :: hex4 n ++ rest) = some (Char.ofNat n, 6) := by
  simp only [hex4, List.cons_append, List.nil_append, readChar, getu4_hex4 small,
    Option.bind_eq_bind, Option.bind_some, if_neg single, Option.pure_def]

theorem hasLongEscape_iff (c : Char) : hasLongEscape c = true ↔
    c.toNat < 32 ∨ c = '<' ∨ c = '>' ∨ c = '&' ∨ c = '\u2028' ∨ c = '\u2029' := by
  have space : c < ' ' ↔ c.toNat < 32 := Iff.rfl
  simp only [hasLongEscape, Bool.or_eq_true, decide_eq_true_eq, or_assoc, space]

theorem toNat_of_hasLongEscape {c : Char} (h : hasLongEscape c = true) : c.toNat < 0xd800 := by
  rcases (hasLongEscape_iff c).mp h with small | rfl | rfl | rfl | rfl | rfl
  · omega
  all_goals decide

/-- The bytes of a character that is written as it is. -/
theorem plain_bytes {c : Char} (long : shortEscapes.lookup c = none)
    (safe : hasLongEscape c = false) :
    ∀ b ∈ String.utf8EncodeChar c, b ≠ 34 ∧ b ≠ 92 ∧ ¬b < 32 := by
  intro b member
  by_cases ascii : c.toNat < 128
  · rw [utf8EncodeChar_ascii ascii, List.mem_singleton] at member
    have value : c.toNat = b.toNat := by
      rw [member, UInt8.toNat_ofNat_of_lt' (Nat.lt_trans ascii (by decide))]
    have back : c = Char.ofNat b.toNat := by rw [← value, Char.ofNat_toNat]
    constructor
    · rintro rfl
      rw [back] at long
      exact absurd long (by decide)
    constructor
    · rintro rfl
      rw [back] at long
      exact absurd long (by decide)
    · intro control
      have small : c.toNat < 32 := by
        rw [value]
        exact UInt8.lt_iff_toNat_lt.mp control
      exact absurd ((hasLongEscape_iff c).mpr (.inl small)) (by simp [safe])
  · have wide := utf8EncodeChar_wide (Nat.le_of_not_lt ascii) b member
    rw [UInt8.le_iff_toNat_le] at wide
    constructor
    · rintro rfl
      exact absurd wide (by decide)
    constructor
    · rintro rfl
      exact absurd wide (by decide)
    · rw [UInt8.lt_iff_toNat_lt]
      exact Nat.not_lt.mpr (Nat.le_trans (by decide) wide)

/-- The three forms in which a rune is written. -/
theorem escapeRune_cases (r : Rune) :
    (∃ c b, r = .char c ∧ shortEscapes.lookup c = some b ∧ escapeRune r = [92, b]) ∨
    (∃ n, n < 65536 ∧ ¬(0xd800 ≤ n ∧ n < 0xe000) ∧ r.value = Char.ofNat n ∧
      escapeRune r = 92 :: 117 :: hex4 n) ∨
    (∃ c, r = .char c ∧ escapeRune r = String.utf8EncodeChar c ∧
      ∀ b ∈ String.utf8EncodeChar c, b ≠ 34 ∧ b ≠ 92 ∧ ¬b < 32) := by
  cases r with
  | stray b => exact .inr (.inl ⟨0xfffd, by decide, by decide, rfl, rfl⟩)
  | char c =>
    cases short : shortEscapes.lookup c with
    | some b => exact .inl ⟨c, b, rfl, short, by simp [escapeRune, short]⟩
    | none =>
      cases long : hasLongEscape c with
      | true =>
        have small := toNat_of_hasLongEscape long
        exact .inr (.inl ⟨c.toNat, by omega, by omega, (Char.ofNat_toNat c).symm,
          by simp [escapeRune, short, long]⟩)
      | false => exact .inr (.inr ⟨c, rfl, by simp [escapeRune, short, long],
          plain_bytes short long⟩)

theorem readChar_plain {c : Char} {rest : List UInt8}
    (plain : ∀ b ∈ String.utf8EncodeChar c, b ≠ 34 ∧ b ≠ 92 ∧ ¬b < 32) :
    readChar (String.utf8EncodeChar c ++ rest) = some (c, c.utf8Size) := by
  obtain ⟨b, bytes, eq, -⟩ := utf8EncodeChar_cons c
  obtain ⟨-, backslash, control⟩ := plain b (eq ▸ List.mem_cons_self)
  have found := decodeRune_char c rest
  rw [eq, List.cons_append] at found ⊢
  generalize bytes ++ rest = tail at found ⊢
  unfold readChar
  split
  · rename_i h
    cases h
  · rename_i h
    cases h
    exact absurd rfl backslash
  · rename_i h
    cases h
    exact absurd rfl backslash
  · rename_i h
    cases h
    exact absurd rfl backslash
  · rename_i h
    cases h
    rw [if_neg control, found]

/-- What a rune is written as is read as its value. -/
theorem readChar_escapeRune (r : Rune) (rest : List UInt8) :
    readChar (escapeRune r ++ rest) = some (r.value, (escapeRune r).length) := by
  rcases escapeRune_cases r with
    ⟨c, b, rfl, short, eq⟩ | ⟨n, small, single, value, eq⟩ | ⟨c, rfl, eq, plain⟩
  · rw [eq]
    exact readChar_short short rest
  · rw [eq, value]
    exact readChar_unicode small single rest
  · rw [eq, String.length_utf8EncodeChar]
    exact readChar_plain plain

/-- The written form of a rune starts with another byte than a quote. -/
theorem escapeRune_cons (r : Rune) : ∃ b bytes, escapeRune r = b :: bytes ∧ b ≠ 34 := by
  rcases escapeRune_cases r with ⟨c, b, -, -, eq⟩ | ⟨n, -, -, -, eq⟩ | ⟨c, -, eq, plain⟩
  · exact ⟨92, _, eq, by decide⟩
  · exact ⟨92, _, eq, by decide⟩
  · obtain ⟨b, bytes, cons, -⟩ := utf8EncodeChar_cons c
    exact ⟨b, bytes, eq.trans cons, (plain b (cons ▸ List.mem_cons_self)).1⟩

theorem unquote_eq_drop (skip : Nat) (s : List UInt8) :
    unquote skip s = unquote 0 (s.drop skip) := by
  induction s generalizing skip with
  | nil => simp [unquote]
  | cons b rest ih =>
    cases skip with
    | zero => rfl
    | succ skip => rw [unquote, ih, List.drop_succ_cons]

theorem unquote_escapeRune (r : Rune) (rest : List UInt8) :
    unquote 0 (escapeRune r ++ rest) =
      (unquote 0 rest).map fun (cs, after) => (r.value :: cs, after) := by
  obtain ⟨b, bytes, eq, quote⟩ := escapeRune_cons r
  have read := readChar_escapeRune r rest
  rw [eq, List.cons_append] at read ⊢
  rw [unquote, if_neg quote, read]
  dsimp only
  rw [unquote_eq_drop, List.length_cons, Nat.add_sub_cancel, List.drop_left]

/-- A string that was written is read as its runes. -/
theorem unquote_escape (s rest : List UInt8) :
    unquote 0 (escape s ++ 34 :: rest) = some ((runes s).map Rune.value, rest) := by
  unfold escape
  induction runes s with
  | nil => rfl
  | cons r rs ih =>
    rw [List.flatMap_cons, List.append_assoc, unquote_escapeRune, ih]
    rfl

/-! ### Numbers are read back -/

theorem natText_eq (n : Nat) :
    natText n = if n < 10 then [UInt8.ofNat (48 + n)]
      else natText (n / 10) ++ [UInt8.ofNat (48 + n % 10)] := by
  have digit : ∀ d < 10, (Nat.digitChar d).toNat = 48 + d := by decide
  rw [natText, Nat.toDigits_eq_if (by decide)]
  split
  · rename_i small
    rw [List.map_singleton, digit n small]
  · rw [List.map_append, List.map_singleton, digit _ (Nat.mod_lt _ (by decide))]
    rfl

theorem toNat_digit {d : Nat} (small : d < 10) : (UInt8.ofNat (48 + d)).toNat = 48 + d :=
  UInt8.toNat_ofNat_of_lt' (Nat.lt_trans (Nat.add_lt_add_left small 48) (by decide))

theorem isDigit_digit {d : Nat} (small : d < 10) : isDigit (UInt8.ofNat (48 + d)) = true := by
  simp only [isDigit, Bool.and_eq_true, decide_eq_true_eq, UInt8.le_iff_toNat_le, toNat_digit small]
  constructor
  · exact Nat.le_add_right 48 d
  · change 48 + d ≤ 57
    omega

theorem natText_digits (n : Nat) : ∀ b ∈ natText n, isDigit b = true := by
  induction n using Nat.strong_induction_on with
  | _ n ih =>
    rw [natText_eq]
    intro b member
    split at member
    · rename_i small
      rw [List.mem_singleton.mp member]
      exact isDigit_digit small
    · rcases List.mem_append.mp member with high | low
      · exact ih (n / 10) (by omega) b high
      · rw [List.mem_singleton.mp low]
        exact isDigit_digit (Nat.mod_lt _ (by decide))

theorem natText_ne_nil (n : Nat) : natText n ≠ [] := by
  rw [natText_eq]
  split <;> simp

/-- Only zero starts with a zero. -/
theorem natText_head {n : Nat} (zero : (natText n).head? = some 48) : n = 0 := by
  induction n using Nat.strong_induction_on with
  | _ n ih =>
    rw [natText_eq] at zero
    split at zero
    · rename_i small
      have digit := congrArg UInt8.toNat (Option.some.inj zero)
      rw [toNat_digit small] at digit
      exact Nat.add_left_cancel digit
    · rename_i large
      rw [List.head?_append_of_ne_nil _ (natText_ne_nil _)] at zero
      have := ih (n / 10) (by omega) zero
      omega

theorem readNat_natText (n : Nat) : readNat (natText n) = some n := by
  have fold : (natText n).foldlM
      (fun acc b => if isDigit b then some (10 * acc + (b.toNat - 48)) else none) 0
      = some n := by
    induction n using Nat.strong_induction_on with
    | _ n ih =>
      rw [natText_eq]
      split
      · rename_i small
        simp only [List.foldlM_cons, List.foldlM_nil, isDigit_digit small, if_true,
          toNat_digit small]
        simp
      · rename_i large
        have low : n % 10 < 10 := Nat.mod_lt _ (by decide)
        rw [List.foldlM_append, ih (n / 10) (by omega)]
        simp only [List.foldlM_cons, List.foldlM_nil, isDigit_digit low, if_true, toNat_digit low]
        simp only [Option.bind_eq_bind, Option.bind_some, Option.pure_def, Option.some.injEq]
        omega
  rw [readNat, if_neg (natText_ne_nil n), fold]

theorem readInt_intText (n : Int) : readInt (intText n) = some n := by
  have digit : ∀ b rest, natText n.natAbs = b :: rest → b ≠ 45 ∧ b ≠ 43 := by
    intro b rest eq
    have := natText_digits n.natAbs b (eq ▸ List.mem_cons_self)
    constructor <;> (rintro rfl; revert this; decide)
  unfold intText
  split
  · rw [readInt, readNat_natText, Option.map_some, Int.ofNat_eq_natCast]
    congr 1
    omega
  · cases text : natText n.natAbs with
    | nil => exact absurd text (natText_ne_nil _)
    | cons b rest =>
      obtain ⟨minus, plus⟩ := digit b rest text
      unfold readInt
      split
      · rename_i h
        cases h
        exact absurd rfl minus
      · rename_i h
        cases h
        exact absurd rfl plus
      · rw [← text, readNat_natText, Option.map_some, Int.ofNat_eq_natCast]
        congr 1
        omega

/-- `Int64` reads a number that `AppendInt` has written. -/
theorem parseInt64_intText (n : Int64) : parseInt64 (intText n.toInt) = some n := by
  have range : -2 ^ 63 ≤ n.toInt ∧ n.toInt < 2 ^ 63 := ⟨n.le_toInt, n.toInt_lt⟩
  rw [parseInt64, readInt_intText, Option.bind_some, if_pos range, Int64.ofInt_toInt]

theorem int64Value_intText (n : Int64) : int64Value (intText n.toInt) = n := by
  have low : ¬n.toInt < -2 ^ 63 := Int.not_lt.mpr n.le_toInt
  rw [int64Value, readInt_intText]
  dsimp only
  rw [if_neg low, if_pos n.toInt_lt, Int64.ofInt_toInt]

/-- A text that does not go on with a number. -/
def Ends (rest : List UInt8) : Prop :=
  ∀ b, rest.head? = some b → isDigit b = false ∧ b ≠ 46 ∧ b ≠ 101 ∧ b ≠ 69

theorem takeWhile_natText {n : Nat} {rest : List UInt8} (ends : Ends rest) :
    (natText n ++ rest).takeWhile isDigit = natText n := by
  rw [List.takeWhile_append_of_pos (natText_digits n)]
  cases rest with
  | nil => rw [List.takeWhile_nil, List.append_nil]
  | cons b rest =>
    rw [List.takeWhile_cons_of_neg (by rw [(ends b rfl).1]; exact Bool.false_ne_true),
      List.append_nil]

theorem scanInt_natText {n : Nat} {rest : List UInt8} (ends : Ends rest) :
    scanInt (natText n ++ rest) = some (natText n).length := by
  cases text : natText n with
  | nil => exact absurd text (natText_ne_nil _)
  | cons b tail =>
    by_cases zero : b = 48
    · have : n = 0 := natText_head (by rw [text, zero]; rfl)
      subst this
      cases text
      rfl
    · have digits := takeWhile_natText (n := n) ends
      rw [text] at digits
      unfold scanInt
      split
      · rename_i h
        cases h
        exact absurd rfl zero
      · rw [digits, if_neg (by simp)]

theorem scanFrac_ends {rest : List UInt8} (ends : Ends rest) : scanFrac rest = some 0 := by
  unfold scanFrac
  split
  · exact absurd rfl (ends 46 rfl).2.1
  · rfl

theorem scanExp_ends {rest : List UInt8} (ends : Ends rest) : scanExp rest = some 0 := by
  cases rest with
  | nil => rfl
  | cons b rest =>
    have := ends b rfl
    rw [scanExp, if_neg (by tauto)]

theorem scanNumber_intText {n : Int} {rest : List UInt8} (ends : Ends rest) :
    scanNumber (intText n ++ rest) = some (intText n).length := by
  unfold intText
  split
  · simp only [scanNumber, List.cons_append, List.head?_cons, if_true, List.drop_succ_cons,
      List.drop_zero, scanInt_natText ends, Option.bind_eq_bind, Option.bind_some, Nat.add_comm 1,
      List.drop_left,
      scanFrac_ends ends, Nat.add_zero, scanExp_ends ends, Option.pure_def, List.length_cons]
  · have positive : (natText n.natAbs ++ rest).head? ≠ some 45 := by
      rw [List.head?_append_of_ne_nil _ (natText_ne_nil _)]
      intro head
      have := natText_digits n.natAbs 45 (List.mem_of_head? head)
      revert this
      decide
    simp only [scanNumber, if_neg positive, List.drop_zero, scanInt_natText ends,
      Option.bind_eq_bind, Option.bind_some, Nat.zero_add, List.drop_left, scanFrac_ends ends,
      Nat.add_zero,
      scanExp_ends ends, Option.pure_def]

/-! ### Tokens are read back -/

section Tokens

variable {st : TokenState} {stack : List TokenState} {rest : List UInt8}

theorem tokens_eq_drop (skip : Nat) (st : TokenState) (stack : List TokenState) (s : List UInt8) :
    tokens skip st stack s = tokens 0 st stack (s.drop skip) := by
  induction s generalizing skip with
  | nil => simp [tokens]
  | cons b rest ih =>
    cases skip with
    | zero => rfl
    | succ skip => rw [tokens, ih, List.drop_succ_cons]

theorem tokens_openArray (allowed : st.valueAllowed = true) :
    tokens 0 st stack (91 :: rest) =
      .delim .openArray :: tokens 0 .arrayStart (st :: stack) rest := if_pos allowed

theorem tokens_openObject (allowed : st.valueAllowed = true) :
    tokens 0 st stack (123 :: rest) =
      .delim .openObject :: tokens 0 .objectStart (st :: stack) rest := if_pos allowed

theorem tokens_colon :
    tokens 0 .objectColon stack (58 :: rest) = tokens 0 .objectValue stack rest := rfl

theorem tokens_quotation {cs : List Char} {s after : List UInt8}
    (read : unquote 0 s = some (cs, after))
    (string : st = .objectStart ∨ st = .objectKey ∨ st.valueAllowed) :
    tokens 0 st stack (34 :: s) = .str (String.ofList cs) :: tokens (s.length - after.length)
      (if st = .objectStart ∨ st = .objectKey then .objectColon else st.valueEnd) stack s := by
  have string' : tokens 0 st stack (34 :: s) =
      match unquote 0 s with
      | none => []
      | some (cs, after) => .str (String.ofList cs) :: tokens (s.length - after.length)
          (if st = .objectStart ∨ st = .objectKey then .objectColon else st.valueEnd) stack s :=
    if_pos string
  rw [string', read]

theorem tokens_quote (s : List UInt8)
    (string : st = .objectStart ∨ st = .objectKey ∨ st.valueAllowed) :
    tokens 0 st stack (quote s ++ rest) = .str (coerce s) ::
      tokens 0 (if st = .objectStart ∨ st = .objectKey then .objectColon else st.valueEnd)
        stack rest := by
  have text : quote s ++ rest = 34 :: (escape s ++ 34 :: rest) := by
    simp [quote]
  have length : (escape s ++ 34 :: rest).length - rest.length = (escape s ++ [34]).length := by
    simp only [List.length_append, List.length_cons, List.length_nil]
    omega
  rw [text, tokens_quotation (unquote_escape s rest) string, tokens_eq_drop, length,
    List.append_cons _ _ rest, List.drop_left]
  rfl

theorem tokens_text (s : List UInt8) (allowed : st.valueAllowed = true) :
    tokens 0 st stack (quote s ++ rest) = .str (coerce s) :: tokens 0 st.valueEnd stack rest := by
  rw [tokens_quote s (.inr (.inr allowed)), if_neg]
  rintro (rfl | rfl) <;> exact absurd allowed (by decide)

theorem tokens_key (s : List UInt8) (key : st = .objectStart ∨ st = .objectKey) :
    tokens 0 st stack (quote s ++ 58 :: rest) =
      .str (coerce s) :: tokens 0 .objectValue stack rest := by
  rw [tokens_quote s (key.elim .inl fun h => .inr (.inl h)), if_pos key, tokens_colon]

/-- The bytes with which no literal or number begins. -/
def punctuation : List UInt8 := [32, 9, 10, 13, 91, 93, 123, 125, 58, 44, 34]

theorem tokens_atom {t : Token} (b : UInt8) (bytes : List UInt8) (allowed : st.valueAllowed = true)
    (other : b ∉ punctuation) (scan : scanAtom (b :: bytes ++ rest) = some (t, bytes.length + 1)) :
    tokens 0 st stack (b :: bytes ++ rest) = t :: tokens 0 st.valueEnd stack rest := by
  simp only [punctuation, List.mem_cons, List.not_mem_nil, or_false, not_or] at other
  rw [List.cons_append] at scan ⊢
  rw [tokens.eq_def]
  simp only [other, or_self, if_false, allowed, if_true, scan]
  rw [tokens_eq_drop, Nat.add_sub_cancel, List.drop_left]

theorem tokens_num (n : Int) (allowed : st.valueAllowed = true) (ends : Ends rest) :
    tokens 0 st stack (intText n ++ rest) =
      .num (intText n) :: tokens 0 st.valueEnd stack rest := by
  have first : ∃ b bytes, intText n = b :: bytes ∧ (b = 45 ∨ isDigit b = true) := by
    unfold intText
    split
    · exact ⟨45, _, rfl, .inl rfl⟩
    · cases text : natText n.natAbs with
      | nil => exact absurd text (natText_ne_nil _)
      | cons b bytes => exact ⟨b, bytes, rfl, .inr (natText_digits _ b (text ▸ List.mem_cons_self))⟩
  obtain ⟨b, bytes, text, digit⟩ := first
  have noLetter : ∀ c : UInt8, c ≠ 45 → isDigit c = false → c ≠ b := by
    rintro c minus letter rfl
    rcases digit with rfl | digit
    · exact minus rfl
    · rw [letter] at digit
      cases digit
  have other : b ∉ punctuation := by
    intro member
    have : ∀ c ∈ punctuation, c ≠ 45 ∧ isDigit c = false := by decide +kernel
    exact noLetter b (this b member).1 (this b member).2 rfl
  have scan := scanNumber_intText (n := n) ends
  have literal : ∀ c text, c ≠ 45 → isDigit c = false → ¬(c :: text) <+: b :: (bytes ++ rest) := by
    intro c text minus letter same
    exact noLetter c minus letter (List.cons_prefix_cons.mp same).1
  rw [text] at scan ⊢
  apply tokens_atom b bytes allowed other
  have bytesTrue : utf8 "true" = [116, 114, 117, 101] := by decide
  have bytesFalse : utf8 "false" = [102, 97, 108, 115, 101] := by decide
  have bytesNull : utf8 "null" = [110, 117, 108, 108] := by decide
  rw [scanAtom, bytesTrue, bytesFalse, bytesNull, List.cons_append,
    if_neg (literal _ _ (by decide) (by decide)), if_neg (literal _ _ (by decide) (by decide)),
    if_neg (literal _ _ (by decide) (by decide)), ← List.cons_append, scan, Option.map_some,
    List.take_left, List.length_cons]

/-- What stands behind a value in a text: nothing, or a comma or a bracket. -/
def Closed (rest : List UInt8) : Prop := ∀ b, rest.head? = some b → b = 44 ∨ b = 93 ∨ b = 125

theorem Closed.ends (closed : Closed rest) : Ends rest := by
  intro b head
  rcases closed b head with rfl | rfl | rfl <;> decide

theorem closed_items (items : List Json) (rest : List UInt8) :
    Closed (renderItems true items ++ 93 :: rest) := by
  intro b head
  cases items with
  | nil => exact .inr (.inl (Option.some.inj head).symm)
  | cons j items =>
    rw [renderItems] at head
    exact .inl (Option.some.inj head).symm

theorem closed_members (members : List (List UInt8 × Json)) (rest : List UInt8) :
    Closed (renderMembers true members ++ 125 :: rest) := by
  intro b head
  cases members with
  | nil => exact .inr (.inr (Option.some.inj head).symm)
  | cons member members =>
    rw [renderMembers] at head
    exact .inl (Option.some.inj head).symm

/-- The state before an item or the end of an array. -/
def itemState (more : Bool) : TokenState := if more then .arrayComma else .arrayStart

/-- The state before a member or the end of an object. -/
def memberState (more : Bool) : TokenState := if more then .objectComma else .objectStart

end Tokens

mutual
/-- The tokens of what was written are those of the value. -/
theorem tokens_render (j : Json) {st : TokenState} (allowed : st.valueAllowed = true)
    (stack : List TokenState) {rest : List UInt8} (closed : Closed rest) :
    tokens 0 st stack (j.render ++ rest) = j.toks ++ tokens 0 st.valueEnd stack rest := by
  match j with
  | .null => exact tokens_atom 110 [117, 108, 108] allowed (by decide) rfl
  | .bool true => exact tokens_atom 116 [114, 117, 101] allowed (by decide) rfl
  | .bool false => exact tokens_atom 102 [97, 108, 115, 101] allowed (by decide) rfl
  | .num n =>
    rw [render, toks]
    exact tokens_num n allowed closed.ends
  | .str s =>
    rw [render, toks]
    exact tokens_text s allowed
  | .arr items =>
    simp only [render, toks, List.cons_append, List.append_assoc, List.nil_append]
    rw [tokens_openArray allowed]
    exact congrArg _ (tokens_items items false st stack rest)
  | .obj members =>
    simp only [render, toks, List.cons_append, List.append_assoc, List.nil_append]
    rw [tokens_openObject allowed]
    exact congrArg _ (tokens_members members false st stack rest)

theorem tokens_items (items : List Json) (more : Bool) (outer : TokenState)
    (stack : List TokenState)
    (rest : List UInt8) :
    tokens 0 (itemState more) (outer :: stack) (renderItems more items ++ 93 :: rest) =
      toksItems items ++ .delim .closeArray :: tokens 0 outer.valueEnd stack rest := by
  match items with
  | [] => cases more <;> rfl
  | j :: items =>
    have later := tokens_items items true outer stack rest
    have closed := closed_items items rest
    rw [renderItems, toksItems, List.append_assoc, List.append_assoc, List.append_assoc, ← later]
    cases more with
    | false => exact tokens_render j rfl (outer :: stack) closed
    | true => exact tokens_render j rfl (outer :: stack) closed

theorem tokens_members (members : List (List UInt8 × Json)) (more : Bool) (outer : TokenState)
    (stack : List TokenState) (rest : List UInt8) :
    tokens 0 (memberState more) (outer :: stack) (renderMembers more members ++ 125 :: rest) =
      toksMembers members ++ .delim .closeObject :: tokens 0 outer.valueEnd stack rest := by
  match members with
  | [] => cases more <;> rfl
  | (key, j) :: members =>
    have later := tokens_members members true outer stack rest
    have value := tokens_render j (rfl : TokenState.objectValue.valueAllowed = true)
      (outer :: stack)
      (closed_members members rest)
    have first : ∀ st, st = .objectStart ∨ st = .objectKey → tokens 0 st (outer :: stack)
        (quote key ++ 58 :: (j.render ++ (renderMembers true members ++ 125 :: rest))) =
        .str (coerce key) :: j.toks ++ (toksMembers members ++ .delim .closeObject ::
          tokens 0 outer.valueEnd stack rest) := by
      intro st string
      rw [tokens_key key string, value, ← later, List.cons_append]
      rfl
    rw [renderMembers, toksMembers, List.append_assoc, List.append_assoc, List.append_assoc,
      List.append_assoc, List.cons_append]
    cases more with
    | false => exact first _ (.inl rfl)
    | true => exact first _ (.inr rfl)
end

theorem toksMembers_append (members more : List (List UInt8 × Json)) :
    toksMembers (members ++ more) = toksMembers members ++ toksMembers more := by
  induction members with
  | nil => rfl
  | cons member members ih =>
    obtain ⟨key, j⟩ := member
    rw [List.cons_append, toksMembers, toksMembers, ih]
    simp

/-- The tokens of a text that holds one value. -/
theorem tokens_line (j : Json) : tokens 0 .topValue [] j.render = j.toks := by
  have closed : Closed [] := by
    intro b head
    cases head
  have := tokens_render j (rfl : TokenState.topValue.valueAllowed = true) [] closed
  rwa [List.append_nil, tokens, List.append_nil] at this

end Json

end FirewallCore.Lib

/-!
Looking for a member of a JSON object in its text, without reading it.

The name is looked for with its quotes, the colon and the quote that opens the
value. In a text that the encoder has written, a quote inside a string stands
behind a backslash, so the place found is the name of a member whose value is a
string: its own name, or the end of a longer one that has a quote before it. The
value is then taken up to the next quote, in its written form.
-/

namespace FirewallCore.Lib.Json

/-- What is looked for: `"name":"`. -/
def pattern (name : List UInt8) : List UInt8 := 34 :: name ++ [34, 58, 34]

/-- What stands behind the first occurrence of `pat`. -/
def behind (pat s : List UInt8) : Option (List UInt8) :=
  (indexOf pat s).map fun i => s.drop (i + pat.length)

/-- The value of a member that is taken for the one of this name. -/
def textAt (name key : List UInt8) : Json → Option (List UInt8)
  | str s => if 34 :: name <:+ 34 :: escape key then some s else none
  | _ => none

mutual
/-- The first such member of a value, in the order of its text. -/
def firstText (name : List UInt8) : Json → Option (List UInt8)
  | arr items => firstTextItems name items
  | obj members => firstTextMembers name members
  | _ => none

def firstTextItems (name : List UInt8) : List Json → Option (List UInt8)
  | [] => none
  | j :: items => (firstText name j).or (firstTextItems name items)

def firstTextMembers (name : List UInt8) : List (List UInt8 × Json) → Option (List UInt8)
  | [] => none
  | (key, j) :: members =>
    (textAt name key j).or ((firstText name j).or (firstTextMembers name members))
end

/-- A name that can be looked for: it needs no escapes, and it does not start like what may
stand behind a string. -/
structure Plain (name : List UInt8) : Prop where
  letters : ∀ b ∈ name, b ≠ 34 ∧ b ≠ 92
  head : ∃ b, name.head? = some b ∧ b ∉ punctuation

/-! ### Passing over text -/

section Passing

variable {pat s rest : List UInt8}

theorem behind_pass {b : UInt8} (other : ¬pat <+: b :: rest) :
    behind pat (b :: rest) = behind pat rest := by
  rw [behind, indexOf, if_neg other, Option.map_map, behind]
  congr 1
  funext i
  simp [Nat.succ_add]

theorem behind_match (nonempty : pat ≠ []) : behind pat (pat ++ rest) = some rest := by
  cases pat with
  | nil => exact absurd rfl nonempty
  | cons b pat =>
    have here : b :: pat <+: b :: (pat ++ rest) := List.prefix_append (b :: pat) rest
    rw [behind, List.cons_append, indexOf, if_pos here]
    simp

/-- Text in which no occurrence begins is passed over. -/
theorem behind_append
    (none : ∀ before after, s = before ++ after → after ≠ [] → ¬pat <+: after ++ rest) :
    behind pat (s ++ rest) = behind pat rest := by
  induction s with
  | nil => rfl
  | cons b s ih =>
    have here := none [] (b :: s) rfl (List.cons_ne_nil b s)
    rw [List.cons_append] at here ⊢
    rw [behind_pass here]
    apply ih
    intro before after eq
    exact none (b :: before) after (by rw [eq]; rfl)

variable {name : List UInt8}

theorem behind_noQuote (quote : 34 ∉ s) :
    behind (pattern name) (s ++ rest) = behind (pattern name) rest := by
  apply behind_append
  rintro before after rfl nonempty starts
  cases after with
  | nil => exact nonempty rfl
  | cons b after =>
    rw [pattern, List.cons_append, List.cons_append] at starts
    have := (List.cons_prefix_cons.mp starts).1
    subst this
    simp at quote

end Passing

/-! ### Quotes in a string -/

/-- Every quote stands behind a backslash. -/
def QuotesEscaped (text : List UInt8) : Prop :=
  ∀ before after, text = before ++ 34 :: after → before.getLast? = some 92

theorem quotesEscaped_append {s t : List UInt8} (first : QuotesEscaped s)
    (second : QuotesEscaped t) : QuotesEscaped (s ++ t) := by
  intro before after eq
  rcases List.append_eq_append_iff.mp eq with ⟨mid, rfl, rest⟩ | ⟨mid, left, right⟩
  · have := second mid after rest
    rw [List.getLast?_append, this]
    rfl
  · cases mid with
    | nil =>
      have := second [] after right.symm
      cases this
    | cons b mid =>
      rw [List.cons_append, List.cons.injEq] at right
      obtain ⟨rfl, rfl⟩ := right
      exact first before mid left

theorem quotesEscaped_escapeRune (r : Rune) : QuotesEscaped (escapeRune r) := by
  have noQuote : ∀ text : List UInt8, 34 ∉ text → QuotesEscaped text := by
    rintro text without before after rfl
    simp at without
  have unicode : ∀ n, QuotesEscaped (92 :: 117 :: hex4 n) := by
    intro n
    apply noQuote
    have digit : ∀ d < 16, hexDigit d ≠ 34 := by decide
    intro member
    simp only [hex4, List.mem_cons, List.not_mem_nil, or_false] at member
    rcases member with h | h | h | h | h | h
    · exact absurd h (by decide)
    · exact absurd h (by decide)
    all_goals exact digit _ (Nat.mod_lt _ (by decide)) h.symm
  rcases escapeRune_cases r with ⟨c, b, -, -, eq⟩ | ⟨n, -, -, -, eq⟩ | ⟨c, -, eq, plain⟩
  · rw [eq]
    intro before after split
    cases before with
    | nil => cases split
    | cons x before =>
      rw [List.cons_append, List.cons.injEq] at split
      obtain ⟨rfl, split⟩ := split
      cases before with
      | nil => rfl
      | cons x before => simp at split
  · rw [eq]
    exact unicode n
  · rw [eq]
    exact noQuote _ fun member => (plain 34 member).1 rfl

theorem quotesEscaped_escape (s : List UInt8) : QuotesEscaped (escape s) := by
  unfold escape
  induction runes s with
  | nil =>
    intro before after eq
    simp at eq
  | cons r rs ih =>
    rw [List.flatMap_cons]
    exact quotesEscaped_append (quotesEscaped_escapeRune r) ih

/-- In the rest of a string with its closing quote, a name without quotes that is followed by a
quote is all that is left. -/
theorem name_before_quote {name text tail more rest : List UInt8} (plain : Plain name)
    (escaped : QuotesEscaped text) (suffix : tail <:+ text)
    (eq : name ++ 34 :: more = tail ++ 34 :: rest) : name = tail ∧ more = rest := by
  rcases List.append_eq_append_iff.mp eq with ⟨mid, rfl, right⟩ | ⟨mid, rfl, right⟩
  · cases mid with
    | nil => exact ⟨(List.append_nil _).symm, by simpa using right⟩
    | cons b mid =>
      rw [List.cons_append, List.cons.injEq] at right
      obtain ⟨rfl, -⟩ := right
      obtain ⟨before, whole⟩ := suffix
      have last := escaped (before ++ name) mid (by rw [← whole, List.append_assoc])
      rw [List.getLast?_append_of_ne_nil] at last
      · exact absurd rfl (plain.letters 92 (List.mem_of_getLast? last)).2
      · obtain ⟨b, head, -⟩ := plain.head
        rintro rfl
        cases head
  · cases mid with
    | nil => exact ⟨List.append_nil _, by simpa using right.symm⟩
    | cons b mid =>
      rw [List.cons_append, List.cons.injEq] at right
      obtain ⟨rfl, -⟩ := right
      exact absurd rfl (plain.letters 34 (by simp)).1

/-! ### The first place -/

section First

variable {name s key rest : List UInt8}

/-- An occurrence that begins in a string ends with it, and a value that is a string follows. -/
theorem match_in_quote {after : List UInt8} (plain : Plain name)
    (follows : ∀ b, rest.head? = some b → b ∈ punctuation) (suffix : after <:+ quote s)
    (nonempty : after ≠ []) (starts : pattern name <+: after ++ rest) :
    after = 34 :: name ++ [34] ∧ [58, 34] <+: rest := by
  obtain ⟨more, eq⟩ := starts
  cases after with
  | nil => exact absurd rfl nonempty
  | cons b tail =>
    simp only [pattern, List.cons_append, List.append_assoc, List.nil_append,
      List.cons.injEq] at eq
    obtain ⟨rfl, eq⟩ := eq
    -- the rest of the string behind the quote where the occurrence begins
    have inside : tail <:+ escape s ++ [34] := by
      rcases List.suffix_cons_iff.mp suffix with whole | later
      · rw [(List.cons.inj whole).2]
        exact List.suffix_refl _
      · exact (List.suffix_cons 34 tail).trans later
    rcases List.suffix_concat_iff.mp inside with rfl | ⟨text, rfl, before⟩
    · obtain ⟨c, head, other⟩ := plain.head
      have : rest.head? = some c := by
        rw [← List.nil_append rest, ← eq, List.head?_append, head]
        rfl
      exact absurd (follows c this) other
    · rw [List.append_assoc] at eq
      obtain ⟨rfl, rfl⟩ := name_before_quote plain (quotesEscaped_escape s) before eq
      exact ⟨rfl, more, rfl⟩

theorem behind_quote (plain : Plain name) (follows : ∀ b, rest.head? = some b → b ∈ punctuation)
    (other : ¬[58, 34] <+: rest) :
    behind (pattern name) (quote s ++ rest) = behind (pattern name) rest := by
  apply behind_append
  intro before after eq nonempty starts
  have suffix : after <:+ quote s := ⟨before, eq.symm⟩
  exact other (match_in_quote plain follows suffix nonempty starts).2

/-- The name of a member is passed over, unless it is the one and a string follows. -/
theorem behind_key_other (plain : Plain name)
    (other : 34 :: name <:+ 34 :: escape key → ∀ text, rest ≠ 34 :: text) :
    behind (pattern name) (quote key ++ 58 :: rest) = behind (pattern name) rest := by
  have colon : behind (pattern name) (58 :: rest) = behind (pattern name) rest :=
    behind_noQuote (s := [58]) (by decide)
  rw [← colon]
  apply behind_append
  intro before after eq nonempty starts
  have suffix : after <:+ quote key := ⟨before, eq.symm⟩
  have follows : ∀ b, (58 :: rest).head? = some b → b ∈ punctuation := by
    rintro b head
    cases head
    decide
  obtain ⟨whole, text, value⟩ := match_in_quote plain follows suffix nonempty starts
  rw [List.cons_append, List.cons.injEq] at value
  have end' : 34 :: name <:+ 34 :: escape key := by
    rw [whole] at suffix
    obtain ⟨front, eq⟩ := suffix
    exact ⟨front, List.append_cancel_right (by rw [List.append_assoc]; exact eq)⟩
  exact other end' text value.2.symm

theorem behind_key_this (plain : Plain name) (this : 34 :: name <:+ 34 :: escape key)
    (text : List UInt8) :
    behind (pattern name) (quote key ++ 58 :: 34 :: text) = some text := by
  obtain ⟨front, eq⟩ := this
  have split : quote key ++ 58 :: 34 :: text = front ++ (pattern name ++ text) := by
    rw [quote, ← eq]
    simp [pattern]
  rw [split, behind_append, behind_match (by simp [pattern])]
  intro before after parts nonempty starts
  have follows : ∀ b, (58 :: 34 :: text).head? = some b → b ∈ punctuation := by
    rintro b head
    cases head
    decide
  have suffix : after ++ (34 :: name ++ [34]) <:+ quote key := by
    refine ⟨before, ?_⟩
    rw [quote, ← eq, parts]
    simp
  have starts' : pattern name <+: (after ++ (34 :: name ++ [34])) ++ 58 :: 34 :: text := by
    rw [List.append_assoc]
    simpa [pattern] using starts
  have whole := (match_in_quote plain follows suffix (by simp) starts').1
  exact nonempty (List.append_left_eq_self.mp whole)

end First

/-- What a search finds: the value of the first member, or what is in the text behind. -/
def Found (name : List UInt8) (first : Option (List UInt8)) (text rest : List UInt8) : Prop :=
  match first with
  | none => behind (pattern name) (text ++ rest) = behind (pattern name) rest
  | some s => ∃ more, behind (pattern name) (text ++ rest) = some (escape s ++ 34 :: more)

section Found

variable {name rest : List UInt8}

theorem found_append {f g : Option (List UInt8)} {s t : List UInt8}
    (first : Found name f s (t ++ rest)) (second : Found name g t rest) :
    Found name (f.or g) (s ++ t) rest := by
  unfold Found at *
  rw [List.append_assoc]
  cases f with
  | some v => exact first
  | none =>
    rw [Option.none_or]
    rw [first]
    exact second

/-- Text without a quote has no member in it. -/
theorem found_noQuote {s : List UInt8} (quote : 34 ∉ s) : Found name none s rest :=
  behind_noQuote quote

theorem found_after {f : Option (List UInt8)} {s t : List UInt8} (quote : 34 ∉ s)
    (later : Found name f t rest) : Found name f (s ++ t) rest := by
  have := found_append (found_noQuote quote) later
  rwa [Option.none_or] at this

theorem noQuote_intText (n : Int) : 34 ∉ intText n := by
  have digits : 34 ∉ natText n.natAbs := fun member =>
    absurd (natText_digits _ 34 member) (by decide)
  unfold intText
  split
  · exact List.not_mem_cons_of_ne_of_not_mem (by decide) digits
  · exact digits

/-- Only a string begins with a quote. -/
theorem render_quote {j : Json} {text : List UInt8} (quote : j.render ++ rest = 34 :: text) :
    ∃ s, j = str s := by
  cases j with
  | str s => exact ⟨s, rfl⟩
  | num n =>
    cases digits : intText n with
    | nil =>
      unfold intText at digits
      split at digits
      · cases digits
      · exact absurd digits (natText_ne_nil _)
    | cons b bytes =>
      rw [render, digits, List.cons_append, List.cons.injEq] at quote
      exact absurd (quote.1 ▸ digits ▸ List.mem_cons_self) (noQuote_intText n)
  | null => cases (List.cons.inj quote).1
  | bool b => cases b <;> cases (List.cons.inj quote).1
  | arr items => cases (List.cons.inj quote).1
  | obj members => cases (List.cons.inj quote).1

theorem Closed.punctuation (closed : Closed rest) : ∀ b, rest.head? = some b → b ∈ punctuation := by
  intro b head
  rcases closed b head with rfl | rfl | rfl <;> decide

theorem Closed.noString (closed : Closed rest) : ¬[58, 34] <+: rest := by
  rintro ⟨more, rfl⟩
  rcases closed 58 rfl with h | h | h <;> exact absurd h (by decide)

theorem found_key (plain : Plain name) {key : List UInt8} {j : Json}
    (other : textAt name key j = none) :
    Found name none (quote key ++ [58]) (j.render ++ rest) := by
  unfold Found
  rw [List.append_assoc, List.cons_append, List.nil_append]
  apply behind_key_other plain
  intro suffix text quote
  obtain ⟨s, rfl⟩ := render_quote quote
  rw [textAt, if_pos suffix] at other
  cases other

theorem found_member (plain : Plain name) {key value : List UInt8} {j : Json} {text : List UInt8}
    (this : textAt name key j = some value) :
    Found name (some value) (quote key ++ 58 :: (j.render ++ text)) rest := by
  unfold textAt at this
  split at this
  · rename_i s
    split at this
    · rename_i suffix
      cases this
      refine ⟨text ++ rest, ?_⟩
      have split : quote key ++ 58 :: (render (str value) ++ text) ++ rest =
          quote key ++ 58 :: 34 :: (escape value ++ 34 :: (text ++ rest)) := by
        simp [render, quote]
      rw [split, behind_key_this plain suffix]
    · cases this
  · cases this

end Found

mutual
/-- A search in the text of a value finds its first member of the name. -/
theorem found_render {name : List UInt8} (plain : Plain name) (j : Json) {rest : List UInt8}
    (closed : Closed rest) : Found name (firstText name j) j.render rest := by
  match j with
  | .null => exact found_noQuote (s := [110, 117, 108, 108]) (by decide)
  | .bool true => exact found_noQuote (s := [116, 114, 117, 101]) (by decide)
  | .bool false => exact found_noQuote (s := [102, 97, 108, 115, 101]) (by decide)
  | .num n => exact found_noQuote (noQuote_intText n)
  | .str s => exact behind_quote plain closed.punctuation closed.noString
  | .arr items =>
    have inside := found_items plain items false rest
    exact found_after (s := [91]) (by decide) inside
  | .obj members =>
    have inside := found_members plain members false rest
    exact found_after (s := [123]) (by decide) inside

theorem found_items {name : List UInt8} (plain : Plain name) (items : List Json) (more : Bool)
    (rest : List UInt8) :
    Found name (firstTextItems name items) (renderItems more items ++ [93]) rest := by
  match items with
  | [] => exact found_noQuote (s := [93]) (by decide)
  | j :: items =>
    have later := found_items plain items true rest
    have closed : Closed ((renderItems true items ++ [93]) ++ rest) := by
      rw [List.append_assoc]
      exact closed_items items rest
    have value := found_append (found_render plain j closed) later
    rw [renderItems, firstTextItems, List.append_assoc, List.append_assoc]
    cases more with
    | false => exact value
    | true => exact found_after (s := [44]) (by decide) value

theorem found_members {name : List UInt8} (plain : Plain name) (members : List (List UInt8 × Json))
    (more : Bool) (rest : List UInt8) :
    Found name (firstTextMembers name members) (renderMembers more members ++ [125]) rest := by
  match members with
  | [] => exact found_noQuote (s := [125]) (by decide)
  | (key, j) :: members =>
    have later := found_members plain members true rest
    have closed : Closed ((renderMembers true members ++ [125]) ++ rest) := by
      rw [List.append_assoc]
      exact closed_members members rest
    have value := found_append (found_render plain j closed) later
    have member : Found name (firstTextMembers name ((key, j) :: members))
        (quote key ++ 58 :: (j.render ++ (renderMembers true members ++ [125]))) rest := by
      rw [firstTextMembers]
      cases this : textAt name key j with
      | none =>
        have key := @found_key _ (renderMembers true members ++ [125] ++ rest) plain key j this
        rw [← List.append_assoc] at key
        rw [List.append_cons]
        exact found_append key value
      | some s => exact found_member plain this
    rw [renderMembers, List.append_assoc, List.append_assoc, List.append_assoc, List.cons_append]
    cases more with
    | false => exact member
    | true => exact found_after (s := [44]) (by decide) member
end

end FirewallCore.Lib.Json
