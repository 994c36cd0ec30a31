import Mathlib.Data.List.TakeWhile
import FirewallCore.Net.Addr

/-!
The text of IP addresses and prefixes: `Addr.String`, `netip.ParseAddr`,
`Prefix.String` and `netip.ParsePrefix`.

An IPv6 address is handled by its eight groups of 16 bits. The loop that reads
them counts bytes in the library and groups here.
-/

namespace FirewallCore.Net

open FirewallCore.Lib

/-! ### Numbers -/

/-- `appendDecimal`, for a number below a thousand. -/
def decimalChars (x : Nat) : List Char :=
  (if 100 ≤ x then [Nat.digitChar (x / 100)] else []) ++
    (if 10 ≤ x then [Nat.digitChar (x / 10 % 10)] else []) ++ [Nat.digitChar (x % 10)]

/-- `appendHex`, for a number of 16 bits. -/
def hexChars (x : Nat) : List Char :=
  (if 0x1000 ≤ x then [Nat.digitChar (x / 0x1000)] else []) ++
    (if 0x100 ≤ x then [Nat.digitChar (x / 0x100 % 16)] else []) ++
    (if 0x10 ≤ x then [Nat.digitChar (x / 0x10 % 16)] else []) ++ [Nat.digitChar (x % 16)]

/-! ### Writing -/

/-- The bytes of an IPv4 address. -/
def octets (n : BitVec 32) : List Nat := [24, 16, 8, 0].map fun sh => n.toNat / 2 ^ sh % 256

/-- The groups of an IPv6 address. -/
def groups (n : BitVec 128) : List Nat :=
  [112, 96, 80, 64, 48, 32, 16, 0].map fun sh => n.toNat / 2 ^ sh % 2 ^ 16

/-- `string4`. -/
def string4 (n : BitVec 32) : List Char := ['.'].intercalate ((octets n).map decimalChars)

/-- The number of zero groups from a group on. -/
def zerosFrom (groups : List Nat) (i : Nat) : Nat := ((groups.drop i).takeWhile (· = 0)).length

/-- The first loop of `appendTo6`: where the longest run of at least two zero groups starts, and
its length. -/
def longestZeros (groups : List Nat) : Option (Nat × Nat) :=
  (List.range 8).foldl (fun longest i =>
    let l := zerosFrom groups i
    if 2 ≤ l ∧ (longest.map (·.2)).getD 0 < l then some (i, l) else longest) none

def joinGroups (groups : List Nat) : List Char := [':'].intercalate (groups.map hexChars)

/-- `appendTo6` without the zone. -/
def appendTo6 (groups : List Nat) : List Char :=
  match longestZeros groups with
  | none => joinGroups groups
  | some (start, length) =>
    joinGroups (groups.take start) ++ ':' :: ':' :: joinGroups (groups.drop (start + length))

/-- `Is4In6`. -/
def is4In6 (n : BitVec 128) : Bool := n.toNat / 2 ^ 32 = mappedHigh

/-- `Addr.String`. -/
def Addr.chars : Addr → List Char
  | zero => "invalid IP".toList
  | v4 n => string4 n
  | v6 n zone =>
    (if is4In6 n then "::ffff:".toList ++ string4 (n.setWidth 32) else appendTo6 (groups n)) ++
      if zone = "" then [] else '%' :: zone.toList

def Addr.string (a : Addr) : String := String.ofList a.chars

/-- `Prefix.String`. -/
def Prefix.string (p : Prefix) : String :=
  match p.bits with
  | none => "invalid Prefix"
  | some bits => String.ofList (p.addr.chars ++ '/' :: decimalChars bits)

/-! ### Reading -/

/-- The loop of `parseIPv4Fields`, with the fields so far, the value and the number of digits of
the current one. -/
def parseIPv4Fields : List Char → List Nat → Nat → Nat → Option (List Nat)
  | [], fields, val, _ => if fields.length < 3 then none else some (fields ++ [val])
  | c :: rest, fields, val, digLen =>
    match digitVal c with
    | some d =>
      -- a leading zero
      if digLen = 1 ∧ val = 0 then none
      else if 255 < val * 10 + d then none
      else parseIPv4Fields rest fields (val * 10 + d) (digLen + 1)
    | none =>
      if c = '.' then
        if digLen = 0 ∨ rest = [] then none
        else if fields.length = 3 then none
        else parseIPv4Fields rest (fields ++ [val]) 0 0
      else none

/-- The fields of an IPv4 address from a whole text. -/
def parseFields (s : List Char) : Option (List Nat) := parseIPv4Fields s [] 0 0

/-- A number in base `2 ^ w` from its digits. -/
def ofDigits (w : Nat) (digits : List Nat) : Nat := digits.foldl (fun acc d => acc * 2 ^ w + d) 0

/-- `parseIPv4`. -/
def parseIPv4 (s : List Char) : Option Addr :=
  (parseFields s).map fun fields => .v4 (BitVec.ofNat 32 (ofDigits 8 fields))

/-- The hexadecimal number at the start of a text, the number of its digits and the rest. -/
def readHex : List Char → Nat → Nat → Option (Nat × Nat × List Char)
  | [], off, acc => some (acc, off, [])
  | c :: rest, off, acc =>
    match hexVal c with
    | none => some (acc, off, c :: rest)
    | some d =>
      if 3 < off then none
      else if 0xffff < acc * 16 + d then none
      else readHex rest (off + 1) (acc * 16 + d)

/-- The loop of `parseIPv6`, with the number of groups for which there is room, those so far and
the position of the ellipsis among them. -/
def readGroups : Nat → List Nat → Option Nat → List Char →
    Option (List Nat × Option Nat × List Char)
  | 0, groups, ellipsis, s => some (groups, ellipsis, s)
  | room + 1, groups, ellipsis, s =>
    match readHex s 0 0 with
    | none => none
    | some (acc, off, rest) =>
      if off = 0 then none
      else if rest.head? = some '.' then
        -- an embedded IPv4 address
        if ellipsis = none ∧ groups.length ≠ 6 then none
        else if 6 < groups.length then none
        else
          match parseFields s with
          | some [a, b, c, d] => some (groups ++ [256 * a + b, 256 * c + d], ellipsis, [])
          | _ => none
      else
        match rest with
        | [] => some (groups ++ [acc], ellipsis, [])
        | [_] => none
        | c :: next :: rest =>
          if c ≠ ':' then none
          else if next = ':' then
            if ellipsis.isSome then none
            else if rest = [] then some (groups ++ [acc], some (groups.length + 1), [])
            else readGroups room (groups ++ [acc]) (some (groups.length + 1)) rest
          else readGroups room (groups ++ [acc]) ellipsis (next :: rest)

/-- The end of `parseIPv6`: the ellipsis is expanded. -/
def expand : List Nat × Option Nat × List Char → Option (List Nat)
  | (groups, ellipsis, rest) =>
    if rest ≠ [] then none
    else if groups.length < 8 then
      ellipsis.map fun e => groups.take e ++ List.replicate (8 - groups.length) 0 ++ groups.drop e
    else if ellipsis.isSome then none
    else some groups

/-- `parseIPv6` on a text without zone. -/
def parseGroups : List Char → Option (List Nat)
  | [':', ':'] => some (List.replicate 8 0)
  | ':' :: ':' :: rest => (readGroups 8 [] (some 0) rest).bind expand
  | s => (readGroups 8 [] none s).bind expand

/-- `parseIPv6`. The zone starts at the first percent sign. -/
def parseIPv6 (s : List Char) : Option Addr :=
  match s.span (· ≠ '%') with
  | (_, ['%']) => none
  | (s, zone) =>
    (parseGroups s).map fun groups =>
      .v6 (BitVec.ofNat 128 (ofDigits 16 groups)) (String.ofList (zone.drop 1))

/-- `netip.ParseAddr`. -/
def parseAddrChars (s : List Char) : Option Addr :=
  match s.find? fun c => c = '.' || c = ':' || c = '%' with
  | some '.' => parseIPv4 s
  | some ':' => parseIPv6 s
  | _ => none

def parseAddr (s : String) : Option Addr := parseAddrChars s.toList

/-- `strconv.Atoi` for the number of bits: digits without a sign or leading zeroes. A number that is
too large for an `int` is out of range in any case. -/
def readBits (s : List Char) : Option Nat :=
  if s = [] ∨ 1 < s.length ∧ s.head? = some '0' then none
  else (s.mapM digitVal).map fun digits => digits.foldl (fun acc d => acc * 10 + d) 0

/-- `netip.ParsePrefix`. The number of bits stands behind the last slash. -/
def parsePrefixChars (s : List Char) : Option Prefix :=
  match s.reverse.span (· ≠ '/') with
  | (_, []) => none
  | (bits, _ :: addr) => do
    let ip ← parseAddrChars addr.reverse
    -- zones are not allowed
    if ip ≠ ip.withoutZone then none
    else
      let bits ← readBits bits.reverse
      if ip.bitLen < bits then none else some (.ofAddr ip bits)

def parsePrefix (s : String) : Option Prefix := parsePrefixChars s.toList

/-! ### IPv4 -/

section V4

variable {x val digLen : Nat} {rest : List Char} {fields : List Nat}

theorem parseIPv4Fields_digit {d : Nat} (digit : d < 10) (noZero : ¬(digLen = 1 ∧ val = 0))
    (small : val * 10 + d ≤ 255) :
    parseIPv4Fields (Nat.digitChar d :: rest) fields val digLen =
      parseIPv4Fields rest fields (val * 10 + d) (digLen + 1) := by
  have fits : ¬255 < val * 10 + d := by omega
  rw [parseIPv4Fields, digitVal_digitChar digit]
  simp only [if_neg noZero, if_neg fits]

/-- A field that is written is read. -/
theorem parseIPv4Fields_decimal (small : x < 256) :
    ∃ digits, digits ≠ 0 ∧ parseIPv4Fields (decimalChars x ++ rest) fields 0 0 =
      parseIPv4Fields rest fields x digits := by
  unfold decimalChars
  by_cases two : 10 ≤ x
  · by_cases three : 100 ≤ x
    · refine ⟨3, by simp, ?_⟩
      simp only [if_pos two, if_pos three, List.cons_append, List.nil_append]
      rw [parseIPv4Fields_digit (by omega) (by omega) (by omega),
        parseIPv4Fields_digit (by omega) (by omega) (by omega),
        parseIPv4Fields_digit (by omega) (by omega) (by omega)]
      congr 1
      omega
    · refine ⟨2, by simp, ?_⟩
      simp only [if_pos two, if_neg three, List.cons_append, List.nil_append]
      rw [parseIPv4Fields_digit (by omega) (by omega) (by omega),
        parseIPv4Fields_digit (by omega) (by omega) (by omega)]
      congr 1
      omega
  · have one : ¬100 ≤ x := by omega
    refine ⟨1, by simp, ?_⟩
    simp only [if_neg two, if_neg one, List.cons_append, List.nil_append]
    rw [parseIPv4Fields_digit (by omega) (by omega) (by omega)]
    congr 1
    omega

theorem decimalChars_ne_nil (x : Nat) : decimalChars x ≠ [] := by
  simp [decimalChars]

/-- A field with the dot behind it. -/
theorem parseIPv4Fields_dot (small : x < 256) (more : rest ≠ []) (room : fields.length < 3) :
    parseIPv4Fields (decimalChars x ++ '.' :: rest) fields 0 0 =
      parseIPv4Fields rest (fields ++ [x]) 0 0 := by
  obtain ⟨digits, some, read⟩ := @parseIPv4Fields_decimal x ('.' :: rest) fields small
  have notFull : fields.length ≠ 3 := by omega
  rw [read, parseIPv4Fields, show digitVal '.' = none from rfl]
  simp [some, more, notFull]

theorem octets_small {n : BitVec 32} {x : Nat} (member : x ∈ octets n) : x < 256 := by
  obtain ⟨sh, -, rfl⟩ := List.mem_map.mp member
  exact Nat.mod_lt _ (by decide)

theorem parseFields_string4 (n : BitVec 32) : parseFields (string4 n) = some (octets n) := by
  have small := @octets_small n
  obtain ⟨a, b, c, d, fields⟩ : ∃ a b c d, octets n = [a, b, c, d] := ⟨_, _, _, _, rfl⟩
  simp only [fields, List.mem_cons, List.not_mem_nil, or_false, forall_eq_or_imp, forall_eq] at small
  obtain ⟨smallA, smallB, smallC, smallD⟩ := small
  obtain ⟨digits, -, last⟩ := @parseIPv4Fields_decimal d [] [a, b, c] smallD
  have text : string4 n = decimalChars a ++ '.' :: (decimalChars b ++ '.' :: (decimalChars c ++
      '.' :: decimalChars d)) := by
    simp [string4, fields, List.intercalate]
  rw [text, parseFields, parseIPv4Fields_dot smallA (by simp [decimalChars_ne_nil]) (by simp),
    parseIPv4Fields_dot smallB (by simp [decimalChars_ne_nil]) (by simp),
    parseIPv4Fields_dot smallC (decimalChars_ne_nil d) (by simp)]
  rw [List.append_nil] at last
  simp only [List.nil_append, List.cons_append, last, fields]
  simp [parseIPv4Fields]

theorem ofDigits_octets (n : BitVec 32) : BitVec.ofNat 32 (ofDigits 8 (octets n)) = n := by
  apply BitVec.eq_of_toNat_eq
  have small := n.isLt
  simp only [ofDigits, octets, List.map_cons, List.map_nil, List.foldl_cons, List.foldl_nil,
    BitVec.toNat_ofNat]
  omega

theorem parseIPv4_string4 (n : BitVec 32) : parseIPv4 (string4 n) = some (.v4 n) := by
  rw [parseIPv4, parseFields_string4, Option.map_some, ofDigits_octets]

end V4

/-! ### Groups of hexadecimal digits -/

section Groups

variable {rest tail text : List Char} {groups : List Nat} {ellipsis : Option Nat} {room off acc g : Nat}

/-- Text that cannot go on with a hexadecimal digit. -/
def NoHex (rest : List Char) : Prop := ∀ c, rest.head? = some c → hexVal c = none

/-- A text stands for a group. -/
structure Spells (text : List Char) (g : Nat) : Prop where
  digit : ∃ c later, text = c :: later ∧ hexVal c ≠ none
  read : ∀ rest, NoHex rest → ∃ off, off ≠ 0 ∧ readHex (text ++ rest) 0 0 = some (g, off, rest)

theorem readHex_end (ends : NoHex rest) : readHex rest off acc = some (acc, off, rest) := by
  cases rest with
  | nil => rfl
  | cons c rest => rw [readHex, ends c rfl]

theorem readHex_digits {digits : List Nat} (hex : ∀ d ∈ digits, d < 16) (few : off + digits.length ≤ 4)
    (small : acc < 16 ^ off) (ends : NoHex rest) :
    readHex (digits.map Nat.digitChar ++ rest) off acc =
      some (digits.foldl (fun a d => a * 16 + d) acc, off + digits.length, rest) := by
  induction digits generalizing off acc with
  | nil => exact readHex_end ends
  | cons d digits ih =>
    rw [List.forall_mem_cons] at hex
    rw [List.length_cons] at few
    have next : acc * 16 + d < 16 ^ (off + 1) := by
      rw [Nat.pow_succ]
      omega
    have most : 16 ^ (off + 1) ≤ 16 ^ 4 := Nat.pow_le_pow_right (by decide) (by omega)
    have room : ¬3 < off := by omega
    have fits : ¬0xffff < acc * 16 + d := by omega
    rw [List.map_cons, List.cons_append, readHex, hexVal_digitChar hex.1]
    simp only [if_neg room, if_neg fits]
    rw [ih hex.2 (by omega) next, List.foldl_cons, List.length_cons, Nat.add_assoc, Nat.add_comm 1]

/-- One to four digits stand for their value. -/
theorem spells_digits (d : Nat) (digits : List Nat) (hex : ∀ x ∈ d :: digits, x < 16)
    (few : digits.length ≤ 3) (value : (d :: digits).foldl (fun a d => a * 16 + d) 0 = g) :
    Spells ((d :: digits).map Nat.digitChar) g where
  digit := ⟨_, _, rfl, by simp [hexVal_digitChar (hex d List.mem_cons_self)]⟩
  read := by
    intro rest ends
    have short : 0 + (d :: digits).length ≤ 4 := by
      rw [List.length_cons]
      omega
    have read := @readHex_digits rest 0 0 (d :: digits) hex short (by decide) ends
    rw [value] at read
    exact ⟨_, by simp, read⟩

theorem spells_hexChars (small : g < 2 ^ 16) : Spells (hexChars g) g := by
  unfold hexChars
  by_cases two : 0x10 ≤ g
  · by_cases three : 0x100 ≤ g
    · by_cases four : 0x1000 ≤ g
      · simp only [if_pos two, if_pos three, if_pos four]
        apply spells_digits (g / 0x1000) [g / 0x100 % 16, g / 0x10 % 16, g % 16]
        · simp
          omega
        · simp
        · simp
          omega
      · simp only [if_pos two, if_pos three, if_neg four]
        apply spells_digits (g / 0x100 % 16) [g / 0x10 % 16, g % 16]
        · simp
          omega
        · simp
        · simp
          omega
    · have four : ¬0x1000 ≤ g := by omega
      simp only [if_pos two, if_neg three, if_neg four]
      apply spells_digits (g / 0x10 % 16) [g % 16]
      · simp
        omega
      · simp
      · simp
        omega
  · have three : ¬0x100 ≤ g := by omega
    have four : ¬0x1000 ≤ g := by omega
    simp only [if_neg two, if_neg three, if_neg four]
    apply spells_digits (g % 16) []
    · simp
      omega
    · simp
    · simp
      omega

/-- The digits of a field. -/
theorem decimalChars_digits {x : Nat} (small : x < 256) :
    ∃ d digits, decimalChars x = (d :: digits).map Nat.digitChar ∧ digits.length ≤ 2 ∧
      (∀ y ∈ d :: digits, y < 10) ∧ (d :: digits).foldl (fun a d => a * 10 + d) 0 = x ∧
      (digits ≠ [] → d ≠ 0) := by
  unfold decimalChars
  by_cases two : 10 ≤ x
  · by_cases three : 100 ≤ x
    · refine ⟨x / 100, [x / 10 % 10, x % 10], by simp [two, three], by simp, ?_, ?_, ?_⟩
      · simp
        omega
      · simp
        omega
      · omega
    · refine ⟨x / 10 % 10, [x % 10], by simp [two, three], by simp, ?_, ?_, ?_⟩
      · simp
        omega
      · simp
        omega
      · omega
  · have three : ¬100 ≤ x := by omega
    refine ⟨x % 10, [], by simp [two, three], by simp, ?_, ?_, by simp⟩
    · simp
      omega
    · simp
      omega

/-- A field of an IPv4 address starts like a group. -/
theorem spells_decimalChars {x : Nat} (small : x < 256) : ∃ g, Spells (decimalChars x) g := by
  obtain ⟨d, digits, text, few, decimal, -, -⟩ := decimalChars_digits small
  have hex : ∀ y ∈ d :: digits, y < 16 := by
    intro y member
    have digit := decimal y member
    omega
  rw [text]
  exact ⟨_, spells_digits d digits hex (by omega) rfl⟩

theorem intercalate_cons (sep text next : List Char) (texts : List (List Char)) :
    sep.intercalate (text :: next :: texts) = text ++ sep ++ sep.intercalate (next :: texts) := by
  simp [List.intercalate]

/-- A group with a colon and more behind it. -/
theorem readGroups_colon {c : Char} (spells : Spells text g) (more : c ≠ ':') :
    readGroups (room + 1) groups ellipsis (text ++ ':' :: c :: rest) =
      readGroups room (groups ++ [g]) ellipsis (c :: rest) := by
  obtain ⟨off, digits, read⟩ := spells.read (':' :: c :: rest) (by simp [NoHex]; decide)
  rw [readGroups, read]
  simp [digits, more]

/-- A group with an ellipsis behind it. -/
theorem readGroups_ellipsis (spells : Spells text g) :
    readGroups (room + 1) groups none (text ++ ':' :: ':' :: rest) =
      if rest = [] then some (groups ++ [g], some (groups.length + 1), [])
      else readGroups room (groups ++ [g]) (some (groups.length + 1)) rest := by
  obtain ⟨off, digits, read⟩ := spells.read (':' :: ':' :: rest) (by simp [NoHex]; decide)
  rw [readGroups, read]
  simp [digits]

/-- The last group. -/
theorem readGroups_end (spells : Spells text g) :
    readGroups (room + 1) groups ellipsis text = some (groups ++ [g], ellipsis, []) := by
  obtain ⟨off, digits, read⟩ := spells.read [] (by simp [NoHex])
  rw [List.append_nil] at read
  rw [readGroups, read]
  simp [digits]

theorem not_colon {c : Char} (digit : hexVal c ≠ none) : c ≠ ':' := by
  rintro rfl
  exact digit rfl

/-- What starts with a group does not start with a colon. -/
theorem join_head (spells : Spells text g) (texts : List (List Char)) :
    ∃ c later, [':'].intercalate (text :: texts) = c :: later ∧ c ≠ ':' := by
  obtain ⟨c, later, rfl, digit⟩ := spells.digit
  cases texts with
  | nil => exact ⟨c, later, by simp [List.intercalate], not_colon digit⟩
  | cons next texts =>
    rw [intercalate_cons]
    exact ⟨c, _, rfl, not_colon digit⟩

/-- Groups between colons are read up to the room for them. -/
theorem readGroups_join {texts : List (List Char)} {gs : List Nat} (spell : List.Forall₂ Spells texts gs)
    (any : texts ≠ []) :
    readGroups room groups ellipsis ([':'].intercalate texts) =
      some (groups ++ gs.take room, ellipsis, [':'].intercalate (texts.drop room)) := by
  induction spell generalizing room groups with
  | nil => exact absurd rfl any
  | @cons text g texts gs first others ih =>
    cases room with
    | zero => simp [readGroups]
    | succ room =>
      cases others with
      | nil =>
        have single : [':'].intercalate [text] = text := by simp [List.intercalate]
        rw [single, readGroups_end first]
        simp [List.intercalate]
      | @cons next h texts hs second others =>
        obtain ⟨c, later, head, more⟩ := join_head second texts
        have read := @ih (groups ++ [g]) room (by simp)
        rw [head] at read
        rw [intercalate_cons, head, List.append_assoc, List.singleton_append,
          readGroups_colon first more, read]
        simp

/-- Groups up to an ellipsis, when there is room for them. -/
theorem readGroups_upTo {texts : List (List Char)} {gs : List Nat} (spell : List.Forall₂ Spells texts gs)
    (any : texts ≠ []) :
    readGroups (gs.length + room) groups none ([':'].intercalate texts ++ ':' :: ':' :: rest) =
      if rest = [] then some (groups ++ gs, some (groups ++ gs).length, [])
      else readGroups room (groups ++ gs) (some (groups ++ gs).length) rest := by
  induction spell generalizing groups with
  | nil => exact absurd rfl any
  | @cons text g texts gs first others ih =>
    rw [List.length_cons, Nat.add_right_comm]
    cases others with
    | nil =>
      have single : [':'].intercalate [text] = text := by simp [List.intercalate]
      rw [single, readGroups_ellipsis first]
      simp
    | @cons next h texts hs second others =>
      obtain ⟨c, later, head, more⟩ := join_head second texts
      have read := @ih (groups ++ [g]) (by simp)
      rw [head, List.cons_append] at read
      rw [intercalate_cons, head, List.append_assoc, List.append_assoc, List.singleton_append,
        List.cons_append, readGroups_colon first more, read]
      simp

end Groups

/-! ### IPv6 -/

section V6

variable {gs : List Nat} {start length : Nat}

theorem zerosFrom_spec (gs : List Nat) (i : Nat) :
    gs = gs.take i ++ (List.replicate (zerosFrom gs i) 0 ++ gs.drop (i + zerosFrom gs i)) := by
  have zeros : (gs.drop i).take (zerosFrom gs i) = List.replicate (zerosFrom gs i) 0 := by
    have whole : (gs.drop i).take (zerosFrom gs i) = (gs.drop i).takeWhile (· = 0) :=
      (List.prefix_iff_eq_take.mp (List.takeWhile_prefix _)).symm
    rw [whole, List.eq_replicate_iff]
    refine ⟨rfl, ?_⟩
    intro g member
    simpa using List.all_eq_true.mp List.all_takeWhile g member
  rw [← zeros, ← List.drop_drop, List.take_append_drop, List.take_append_drop]

theorem longestZeros_spec (found : longestZeros gs = some (start, length)) :
    2 ≤ length ∧ length = zerosFrom gs start := by
  have loop : ∀ (indices : List Nat) (longest : Option (Nat × Nat)),
      (∀ i l, longest = some (i, l) → 2 ≤ l ∧ l = zerosFrom gs i) →
      ∀ i l, indices.foldl (fun longest i =>
        let l := zerosFrom gs i
        if 2 ≤ l ∧ (longest.map (·.2)).getD 0 < l then some (i, l) else longest) longest = some (i, l) →
        2 ≤ l ∧ l = zerosFrom gs i := by
    intro indices
    induction indices with
    | nil => exact fun longest known => known
    | cons index indices ih =>
      intro longest known
      apply ih
      intro i l next
      dsimp only at next
      split at next
      · rename_i longer
        cases next
        exact ⟨longer.1, rfl⟩
      · exact known i l next
  exact loop (List.range 8) none (by simp) start length found

theorem spell_groups (small : ∀ g ∈ gs, g < 2 ^ 16) : List.Forall₂ Spells (gs.map hexChars) gs := by
  induction gs with
  | nil => exact .nil
  | cons g gs ih =>
    rw [List.forall_mem_cons] at small
    exact .cons (spells_hexChars small.1) (ih small.2)

theorem parseGroups_other {c : Char} {later : List Char} (other : c ≠ ':') :
    parseGroups (c :: later) = (readGroups 8 [] none (c :: later)).bind expand := by
  unfold parseGroups
  split
  · rename_i same
    cases same
    exact absurd rfl other
  · rename_i same
    cases same
    exact absurd rfl other
  · rfl

theorem parseGroups_double {later : List Char} (more : later ≠ []) :
    parseGroups (':' :: ':' :: later) = (readGroups 8 [] (some 0) later).bind expand := by
  unfold parseGroups
  split
  · rename_i same
    cases same
    exact absurd rfl more
  · rename_i same
    cases same
    rfl
  · rename_i no
    exact absurd rfl (no later)

theorem joinGroups_nil (small : ∀ g ∈ gs, g < 2 ^ 16) : joinGroups gs = [] ↔ gs = [] := by
  constructor
  · intro empty
    cases gs with
    | nil => rfl
    | cons g gs =>
      obtain ⟨c, later, head, -⟩ := join_head (spells_hexChars (small g List.mem_cons_self)) (gs.map hexChars)
      rw [joinGroups, List.map_cons, head] at empty
      cases empty
  · rintro rfl
    rfl

/-- What is read when there are groups. -/
theorem readGroups_joinGroups {groups : List Nat} {ellipsis : Option Nat} {room : Nat}
    (small : ∀ g ∈ gs, g < 2 ^ 16) (any : gs ≠ []) (fits : gs.length ≤ room) :
    readGroups room groups ellipsis (joinGroups gs) = some (groups ++ gs, ellipsis, []) := by
  rw [joinGroups, readGroups_join (spell_groups small) (by simpa using any), List.take_of_length_le fits,
    List.drop_eq_nil_of_le (by simpa using fits)]
  rfl

theorem joinGroups_head (small : ∀ g ∈ gs, g < 2 ^ 16) (any : gs ≠ []) :
    ∃ c later, joinGroups gs = c :: later ∧ c ≠ ':' := by
  obtain ⟨g, gs, rfl⟩ := List.exists_cons_of_ne_nil any
  exact join_head (spells_hexChars (small g List.mem_cons_self)) (gs.map hexChars)

/-- The ellipsis stands for the missing groups. -/
theorem expand_ellipsis {front back : List Nat} {n : Nat} (any : 0 < n)
    (eight : front.length + (n + back.length) = 8) :
    expand (front ++ back, some front.length, []) = some (front ++ (List.replicate n 0 ++ back)) := by
  have short : front.length + back.length < 8 := by omega
  have missing : 8 - (front.length + back.length) = n := by omega
  simp [expand, short, missing]

/-- The groups of an address are read back. -/
theorem parseGroups_appendTo6 (small : ∀ g ∈ gs, g < 2 ^ 16) (eight : gs.length = 8) :
    parseGroups (appendTo6 gs) = some gs := by
  have any : gs ≠ [] := by
    rintro rfl
    cases eight
  unfold appendTo6
  split
  · obtain ⟨c, later, head, other⟩ := joinGroups_head small any
    have read := @readGroups_joinGroups gs [] none 8 small any (by omega)
    rw [head] at read ⊢
    rw [parseGroups_other other, read, Option.bind_some]
    simp [expand, eight]
  · rename_i start length found
    obtain ⟨two, run⟩ := longestZeros_spec found
    have parts := zerosFrom_spec gs start
    rw [← run] at parts
    generalize gs.take start = front at parts
    generalize gs.drop (start + length) = back at parts
    subst parts
    have smallFront : ∀ g ∈ front, g < 2 ^ 16 := fun g member => small g (by simp [member])
    have smallBack : ∀ g ∈ back, g < 2 ^ 16 := fun g member => small g (by simp [member])
    simp only [List.length_append, List.length_replicate] at eight
    by_cases noFront : front = []
    · subst noFront
      by_cases noBack : back = []
      · subst noBack
        obtain rfl : length = 8 := by simpa using eight
        simp [joinGroups, List.intercalate, parseGroups]
      · have more : joinGroups back ≠ [] := by rwa [Ne, joinGroups_nil smallBack]
        have read := @readGroups_joinGroups back [] (some 0) 8 smallBack noBack (by omega)
        rw [show joinGroups [] = [] from rfl, List.nil_append, parseGroups_double more, read,
          Option.bind_some]
        exact expand_ellipsis (by omega) eight
    · obtain ⟨c, later, head, other⟩ := joinGroups_head smallFront noFront
      obtain ⟨room, size⟩ : ∃ room, 8 = front.length + room := ⟨8 - front.length, by omega⟩
      have texts : front.map hexChars ≠ [] := by simpa using noFront
      have read := @readGroups_upTo (joinGroups back) [] room _ front (spell_groups smallFront) texts
      rw [← size, List.nil_append] at read
      have upTo : readGroups 8 [] none (joinGroups front ++ ':' :: ':' :: joinGroups back) =
          some (front ++ back, some front.length, []) := by
        rw [joinGroups, read]
        by_cases noBack : back = []
        · subst noBack
          simp [joinGroups, List.intercalate]
        · have more : joinGroups back ≠ [] := by rwa [Ne, joinGroups_nil smallBack]
          rw [if_neg more, readGroups_joinGroups smallBack noBack (by omega)]
      rw [head, List.cons_append] at upTo ⊢
      rw [parseGroups_other other, upTo, Option.bind_some]
      exact expand_ellipsis (by omega) eight

end V6

/-! ### Characters -/

section Characters

variable {s rest : List Char} {c : Char}

/-- The characters of an address without its zone. -/
def AddrChar (c : Char) : Prop := hexVal c ≠ none ∨ c = ':' ∨ c = '.'

theorem hexVal_of_digitVal {d : Nat} (digit : digitVal c = some d) : hexVal c = some d := by
  unfold digitVal at digit
  split at digit
  · rename_i decimal
    rw [hexVal, if_pos decimal]
    exact digit
  · cases digit

theorem parseIPv4Fields_chars {fields parsed : List Nat} {val digLen : Nat}
    (done : parseIPv4Fields s fields val digLen = some parsed) : ∀ c ∈ s, AddrChar c := by
  induction s generalizing fields val digLen with
  | nil => simp
  | cons c s ih =>
    rw [parseIPv4Fields] at done
    rw [List.forall_mem_cons]
    cases digit : digitVal c with
    | some d =>
      simp only [digit] at done
      split at done
      · cases done
      split at done
      · cases done
      · exact ⟨.inl (by simp [hexVal_of_digitVal digit]), ih done⟩
    | none =>
      simp only [digit] at done
      split at done
      · rename_i dot
        split at done
        · cases done
        split at done
        · cases done
        · exact ⟨.inr (.inr dot), ih done⟩
      · cases done

theorem readHex_chars {off acc g digits : Nat} (done : readHex s off acc = some (g, digits, rest)) :
    ∀ c ∈ s, AddrChar c ∨ c ∈ rest := by
  induction s generalizing off acc with
  | nil => simp
  | cons c s ih =>
    rw [readHex] at done
    cases digit : hexVal c with
    | none =>
      simp only [digit, Option.some.injEq, Prod.mk.injEq] at done
      rw [← done.2.2]
      exact fun _ member => .inr member
    | some d =>
      simp only [digit] at done
      split at done
      · cases done
      split at done
      · cases done
      · rw [List.forall_mem_cons]
        exact ⟨.inl (.inl (by simp [digit])), ih done⟩

theorem readGroups_chars {room : Nat} {groups parsed : List Nat} {ellipsis ellipsis' : Option Nat}
    (done : readGroups room groups ellipsis s = some (parsed, ellipsis', rest)) :
    ∀ c ∈ s, AddrChar c ∨ c ∈ rest := by
  induction room generalizing groups ellipsis s with
  | zero =>
    cases done
    exact fun _ member => .inr member
  | succ room ih =>
    rw [readGroups] at done
    split at done
    · cases done
    rename_i acc off later read
    have chars := readHex_chars read
    split at done
    · cases done
    split at done
    · -- an embedded IPv4 address
      split at done
      · cases done
      split at done
      · cases done
      split at done
      · rename_i fields
        exact fun c member => .inl (parseIPv4Fields_chars fields c member)
      · cases done
    have colon : AddrChar ':' := .inr (.inl rfl)
    have behind : (∀ c ∈ later, AddrChar c ∨ c ∈ rest) → ∀ c ∈ s, AddrChar c ∨ c ∈ rest := by
      intro known c member
      rcases chars c member with digit | later
      · exact .inl digit
      · exact known c later
    split at done
    · cases done
      exact behind (by simp)
    · cases done
    split at done
    · cases done
    rename_i isColon
    rw [Classical.not_not] at isColon
    subst isColon
    split at done
    · rename_i double
      subst double
      split at done
      · cases done
      split at done
      · rename_i ended
        subst ended
        exact behind (by simp [colon])
      · have known := ih done
        exact behind (by simpa [colon] using known)
    · have known := ih done
      exact behind (by simpa [colon] using known)

/-- A text is split at the first separator, if it has one. -/
theorem span_append {sep : Char} {text later : List Char} (without : sep ∉ text)
    (starts : later = [] ∨ ∃ more, later = sep :: more) :
    (text ++ later).span (· ≠ sep) = (text, later) := by
  have all : ∀ c ∈ text, decide (c ≠ sep) = true := by
    intro c member
    simp only [decide_eq_true_eq]
    rintro rfl
    exact without member
  rw [List.span_eq_takeWhile_dropWhile, List.takeWhile_append_of_pos all, List.dropWhile_append_of_pos all]
  rcases starts with rfl | ⟨more, rfl⟩
  · simp
  · simp

theorem expand_rest {groups parsed : List Nat} {ellipsis : Option Nat}
    (done : expand (groups, ellipsis, rest) = some parsed) : rest = [] := by
  by_contra more
  rw [expand, if_pos more] at done
  cases done

theorem parseGroups_chars {parsed : List Nat} (done : parseGroups s = some parsed) :
    ∀ c ∈ s, AddrChar c := by
  have read : ∀ {ellipsis : Option Nat} {s : List Char},
      (readGroups 8 [] ellipsis s).bind expand = some parsed → ∀ c ∈ s, AddrChar c := by
    intro ellipsis s done c member
    obtain ⟨⟨groups, ellipsis', rest⟩, read, expanded⟩ := Option.bind_eq_some_iff.mp done
    obtain rfl := expand_rest expanded
    exact (readGroups_chars read c member).resolve_right (by simp)
  have colon : AddrChar ':' := .inr (.inl rfl)
  unfold parseGroups at done
  split at done
  · simp [colon]
  · simpa [colon] using read done
  · exact read done

/-- An address without a percent sign has the characters of numbers, colons and dots only. -/
theorem parseAddrChars_chars {a : Addr} (done : parseAddrChars s = some a) (noZone : '%' ∉ s) :
    ∀ c ∈ s, AddrChar c := by
  unfold parseAddrChars at done
  split at done
  · obtain ⟨fields, parsed, -⟩ := Option.map_eq_some_iff.mp done
    exact parseIPv4Fields_chars parsed
  · have whole : s.span (· ≠ '%') = (s, []) := by simpa using span_append noZone (.inl rfl)
    rw [parseIPv6, whole] at done
    obtain ⟨groups, parsed, -⟩ := Option.map_eq_some_iff.mp done
    exact parseGroups_chars parsed
  · cases done

end Characters

/-! ### Addresses -/

section Address

variable {s : List Char} {gs : List Nat}

theorem hexChars_hex {g : Nat} {c : Char} (small : g < 2 ^ 16) (member : c ∈ hexChars g) :
    hexVal c ≠ none := by
  have digit : ∀ d, d < 16 → hexVal (Nat.digitChar d) ≠ none := by
    intro d digit
    simp [hexVal_digitChar digit]
  simp only [hexChars, List.mem_append, List.mem_singleton, List.mem_ite_nil_right] at member
  rcases member with ((⟨-, rfl⟩ | ⟨-, rfl⟩) | ⟨-, rfl⟩) | rfl
  · exact digit _ (by omega)
  · exact digit _ (by omega)
  · exact digit _ (by omega)
  · exact digit _ (by omega)

theorem mem_intercalate {sep c : Char} {texts : List (List Char)} (member : c ∈ [sep].intercalate texts) :
    c = sep ∨ ∃ text ∈ texts, c ∈ text := by
  induction texts with
  | nil => simp [List.intercalate] at member
  | cons text texts ih =>
    cases texts with
    | nil => exact .inr ⟨text, by simp, by simpa [List.intercalate] using member⟩
    | cons next texts =>
      rw [intercalate_cons, List.mem_append, List.mem_append] at member
      rcases member with (inText | atSep) | later
      · exact .inr ⟨text, List.mem_cons_self, inText⟩
      · exact .inl (List.mem_singleton.mp atSep)
      · rcases ih later with atSep | ⟨other, found, inOther⟩
        · exact .inl atSep
        · exact .inr ⟨other, List.mem_cons_of_mem _ found, inOther⟩

theorem joinGroups_chars (small : ∀ g ∈ gs, g < 2 ^ 16) {c : Char} (member : c ∈ joinGroups gs) :
    hexVal c ≠ none ∨ c = ':' := by
  rcases mem_intercalate member with atColon | ⟨text, inTexts, inText⟩
  · exact .inr atColon
  · obtain ⟨g, inGroups, rfl⟩ := List.mem_map.mp inTexts
    exact .inl (hexChars_hex (small g inGroups) inText)

/-- Which parser is chosen when colons come first. -/
theorem parseAddrChars_colon {text later : List Char} (colon : ':' ∈ text)
    (chars : ∀ c ∈ text, hexVal c ≠ none ∨ c = ':') :
    parseAddrChars (text ++ later) = parseIPv6 (text ++ later) := by
  have first : (text ++ later).find? (fun c => c = '.' || c = ':' || c = '%') = some ':' := by
    induction text with
    | nil => simp at colon
    | cons c text ih =>
      rw [List.forall_mem_cons] at chars
      by_cases here : c = ':'
      · subst here
        rfl
      · have digit := chars.1.resolve_right here
        have plain : (c = '.' || c = ':' || c = '%') = false := by
          simp only [here, Bool.or_eq_false_iff, decide_eq_false_iff_not]
          refine ⟨⟨?_, by simp⟩, ?_⟩
          · rintro rfl
            exact digit rfl
          · rintro rfl
            exact digit rfl
        rw [List.cons_append, List.find?_cons_of_neg (by simp [plain])]
        exact ih ((List.mem_cons.mp colon).resolve_left (Ne.symm here)) chars.2
  rw [parseAddrChars, first]
  rfl

theorem parseAddrChars_first (later : List Char) :
    parseAddrChars (':' :: later) = parseIPv6 (':' :: later) := rfl

/-- The text of an address with its zone. -/
theorem parseIPv6_zone {text : List Char} (parsed : parseGroups text = some gs) (zone : String) :
    parseIPv6 (text ++ if zone = "" then [] else '%' :: zone.toList) =
      some (.v6 (BitVec.ofNat 128 (ofDigits 16 gs)) zone) := by
  have noPercent : '%' ∉ text := by
    intro member
    rcases parseGroups_chars parsed _ member with digit | colon | dot
    · exact digit rfl
    · exact absurd colon (by decide)
    · exact absurd dot (by decide)
  by_cases empty : zone = ""
  · subst empty
    have parts := @span_append '%' text [] noPercent (.inl rfl)
    rw [if_pos rfl, parseIPv6, parts]
    simp [parsed]
  · have parts := @span_append '%' text ('%' :: zone.toList) noPercent (.inr ⟨_, rfl⟩)
    have some : zone.toList ≠ [] := by
      intro none
      exact empty (String.toList_eq_nil_iff.mp none)
    rw [if_neg empty, parseIPv6, parts]
    split
    · rename_i same
      exact absurd (List.cons.inj (Prod.mk.inj same).2).2 some
    · rename_i same
      obtain ⟨rfl, rfl⟩ := Prod.mk.inj same
      simp [parsed]

theorem groups_small {n : BitVec 128} : ∀ g ∈ groups n, g < 2 ^ 16 := by
  intro g member
  obtain ⟨sh, -, rfl⟩ := List.mem_map.mp member
  exact Nat.mod_lt _ (by decide)

/-- The next digit of a number behind its higher ones. -/
theorem div_mul_add_mod (w n k : Nat) :
    n / 2 ^ (k + w) * 2 ^ w + n / 2 ^ k % 2 ^ w = n / 2 ^ k := by
  rw [Nat.pow_add, ← Nat.div_div_eq_div_mul, Nat.div_add_mod']

theorem ofDigits_groups (n : BitVec 128) : BitVec.ofNat 128 (ofDigits 16 (groups n)) = n := by
  apply BitVec.eq_of_toNat_eq
  have first : n.toNat / 2 ^ 112 % 2 ^ 16 = n.toNat / 2 ^ 112 :=
    Nat.mod_eq_of_lt (Nat.div_lt_of_lt_mul n.isLt)
  have step := div_mul_add_mod 16 n.toNat
  simp only [ofDigits, groups, List.map_cons, List.map_nil, List.foldl_cons, List.foldl_nil,
    BitVec.toNat_ofNat, Nat.zero_mul, Nat.zero_add, first, step 96, step 80, step 64, step 48,
    step 32, step 16, step 0]
  rw [pow_zero, Nat.div_one, Nat.mod_eq_of_lt n.isLt]

theorem mem_joinGroups {g h : Nat} (rest : List Nat) : ':' ∈ joinGroups (g :: h :: rest) := by
  rw [joinGroups, List.map_cons, List.map_cons, intercalate_cons]
  simp

/-- An address that is not a mapped one. -/
theorem parseAddrChars_appendTo6 (n : BitVec 128) (zone : String) :
    parseAddrChars (appendTo6 (groups n) ++ if zone = "" then [] else '%' :: zone.toList) =
      some (.v6 n zone) := by
  have parsed := parseGroups_appendTo6 (@groups_small n) rfl
  have front := fun k g member => @groups_small n g (List.mem_of_mem_take (i := k) member)
  have back := fun k g member => @groups_small n g (List.mem_of_mem_drop (i := k) member)
  have read := parseIPv6_zone parsed zone
  rw [ofDigits_groups] at read
  rw [← read]
  apply parseAddrChars_colon
  · unfold appendTo6
    split
    · exact mem_joinGroups _
    · simp
  · intro c member
    unfold appendTo6 at member
    split at member
    · exact joinGroups_chars groups_small member
    · rename_i start length found
      rw [List.mem_append, List.mem_cons, List.mem_cons] at member
      rcases member with inFront | atColon | atColon | inBack
      · exact joinGroups_chars (front start) inFront
      · exact .inr atColon
      · exact .inr atColon
      · exact joinGroups_chars (back (start + length)) inBack

/-- The first field of an IPv4 address and what follows it. -/
theorem string4_first (n : BitVec 32) :
    ∃ x later, x < 256 ∧ string4 n = decimalChars x ++ '.' :: later := by
  obtain ⟨a, b, c, d, fields⟩ : ∃ a b c d, octets n = [a, b, c, d] := ⟨_, _, _, _, rfl⟩
  have small : a < 256 := octets_small (n := n) (by simp [fields])
  refine ⟨a, ['.'].intercalate [decimalChars b, decimalChars c, decimalChars d], small, ?_⟩
  rw [string4, fields, List.map_cons, List.map_cons, intercalate_cons, List.append_assoc,
    List.singleton_append]
  rfl

theorem parseAddrChars_string4 (n : BitVec 32) : parseAddrChars (string4 n) = some (.v4 n) := by
  obtain ⟨x, later, small, text⟩ := string4_first n
  obtain ⟨d, digits, decimal, -, small, -, -⟩ := decimalChars_digits small
  have plain : ∀ c ∈ decimalChars x, (c = '.' || c = ':' || c = '%') = false := by
    intro c member
    rw [decimal] at member
    obtain ⟨y, inDigits, rfl⟩ := List.mem_map.mp member
    have digit := small y inDigits
    interval_cases y <;> decide
  have first : (string4 n).find? (fun c => c = '.' || c = ':' || c = '%') = some '.' := by
    rw [text, List.find?_append, List.find?_eq_none.mpr fun c member => by simp [plain c member]]
    rfl
  rw [parseAddrChars, first, ← parseIPv4_string4]
  rfl

/-- The groups of a mapped address are read back. -/
theorem parseGroups_mapped (n : BitVec 32) :
    parseGroups ("::ffff:".toList ++ string4 n) =
      some (List.replicate 5 0 ++ [0xffff, n.toNat / 2 ^ 16, n.toNat % 2 ^ 16]) := by
  obtain ⟨x, later, small, text⟩ := string4_first n
  obtain ⟨g, spells⟩ := spells_decimalChars small
  obtain ⟨off, digits, read⟩ := spells.read ('.' :: later) (by simp [NoHex]; decide)
  rw [← text] at read
  obtain ⟨c, first, head, digit⟩ := spells.digit
  have embedded : readGroups 7 [0xffff] (some 0) (string4 n) =
      some ([0xffff, n.toNat / 2 ^ 16, n.toNat % 2 ^ 16], some 0, []) := by
    have bytes : 256 * (n.toNat / 2 ^ 24 % 256) + n.toNat / 2 ^ 16 % 256 = n.toNat / 2 ^ 16 ∧
        256 * (n.toNat / 2 ^ 8 % 256) + n.toNat / 2 ^ 0 % 256 = n.toNat % 2 ^ 16 := by
      have fits := n.isLt
      omega
    rw [readGroups, read]
    simpa [digits, parseFields_string4, octets] using bytes
  have mapped : readGroups 8 [] (some 0) ("ffff:".toList ++ string4 n) =
      some ([0xffff, n.toNat / 2 ^ 16, n.toNat % 2 ^ 16], some 0, []) := by
    have group : Spells (hexChars 0xffff) 0xffff := spells_hexChars (by decide)
    have step := @readGroups_colon (first ++ '.' :: later) _ [] (some 0) 7 0xffff c group
      (not_colon digit)
    rw [← List.cons_append, ← head, ← text] at step
    exact step.trans embedded
  have more : "ffff:".toList ++ string4 n ≠ [] := by simp
  have double := parseGroups_double more
  rw [mapped, Option.bind_some] at double
  have start : "::ffff:".toList ++ string4 n = ':' :: ':' :: ("ffff:".toList ++ string4 n) := rfl
  rw [start, double]
  exact @expand_ellipsis [] [0xffff, n.toNat / 2 ^ 16, n.toNat % 2 ^ 16] 5 (by decide) rfl

theorem ofDigits_mapped {n : BitVec 128} (mapped : is4In6 n = true) :
    BitVec.ofNat 128 (ofDigits 16 (List.replicate 5 0 ++ [0xffff, (n.setWidth 32).toNat / 2 ^ 16,
      (n.setWidth 32).toNat % 2 ^ 16])) = n := by
  apply BitVec.eq_of_toNat_eq
  have small := n.isLt
  have high : n.toNat / 2 ^ 32 = 0xffff := of_decide_eq_true mapped
  simp only [ofDigits, List.replicate, List.cons_append, List.nil_append, List.foldl_cons,
    List.foldl_nil, BitVec.toNat_ofNat, BitVec.toNat_setWidth]
  omega

/-- A mapped address. -/
theorem parseAddrChars_mapped {n : BitVec 128} (mapped : is4In6 n = true) (zone : String) :
    parseAddrChars ("::ffff:".toList ++ string4 (n.setWidth 32) ++
      if zone = "" then [] else '%' :: zone.toList) = some (.v6 n zone) := by
  have read := parseIPv6_zone (parseGroups_mapped (n.setWidth 32)) zone
  rw [ofDigits_mapped mapped] at read
  rw [← read]
  have start : "::ffff:".toList = ':' :: ":ffff:".toList := rfl
  rw [start, List.cons_append, List.cons_append]
  exact parseAddrChars_first _

theorem chars_v6 (n : BitVec 128) (zone : String) : (Addr.v6 n zone).chars =
    (if is4In6 n then "::ffff:".toList ++ string4 (n.setWidth 32) else appendTo6 (groups n)) ++
      if zone = "" then [] else '%' :: zone.toList := rfl

theorem parseAddrChars_v6 (n : BitVec 128) (zone : String) :
    parseAddrChars (Addr.v6 n zone).chars = some (.v6 n zone) := by
  rw [chars_v6]
  by_cases mapped : is4In6 n = true
  · rw [if_pos mapped]
    exact parseAddrChars_mapped mapped zone
  · rw [if_neg mapped]
    exact parseAddrChars_appendTo6 n zone

/-- Every valid address is read back. -/
theorem parseAddrChars_chars_self {a : Addr} (valid : a.isValid = true) :
    parseAddrChars a.chars = some a := by
  cases a with
  | zero => cases valid
  | v4 n => exact parseAddrChars_string4 n
  | v6 n zone => exact parseAddrChars_v6 n zone

theorem parseAddr_string {a : Addr} (valid : a.isValid = true) : parseAddr a.string = some a := by
  rw [parseAddr, Addr.string, String.toList_ofList]
  exact parseAddrChars_chars_self valid

end Address

/-! ### Prefixes -/

section Prefixes

variable {s : List Char}

/-- A valid prefix, as `ParsePrefix` returns it. -/
def Prefix.Parsed (p : Prefix) : Prop :=
  ∃ a bits, a.isValid = true ∧ a = a.withoutZone ∧ bits ≤ a.bitLen ∧ p = ⟨a, some bits⟩

theorem ofAddr_parsed {a : Addr} {bits : Nat} (valid : a.isValid = true) (noZone : a = a.withoutZone)
    (fits : bits ≤ a.bitLen) : Prefix.ofAddr a bits = ⟨a, some bits⟩ := by
  rw [Prefix.ofAddr, if_pos ⟨valid, fits⟩, ← noZone]

theorem parseAddrChars_valid {a : Addr} (done : parseAddrChars s = some a) : a.isValid = true := by
  unfold parseAddrChars at done
  split at done
  · obtain ⟨fields, -, rfl⟩ := Option.map_eq_some_iff.mp done
    rfl
  · unfold parseIPv6 at done
    split at done
    · cases done
    · obtain ⟨groups, -, rfl⟩ := Option.map_eq_some_iff.mp done
      rfl
  · cases done

theorem parsePrefixChars_parsed {p : Prefix} (done : parsePrefixChars s = some p) : p.Parsed := by
  unfold parsePrefixChars at done
  split at done
  · cases done
  obtain ⟨a, found, done⟩ := Option.bind_eq_some_iff.mp done
  split at done
  · cases done
  rename_i noZone
  rw [Classical.not_not] at noZone
  obtain ⟨bits, -, done⟩ := Option.bind_eq_some_iff.mp done
  split at done
  · cases done
  · rename_i allowed
    cases done
    have valid := parseAddrChars_valid found
    have fits : bits ≤ a.bitLen := Nat.not_lt.mp allowed
    exact ⟨a, bits, valid, noZone, fits, ofAddr_parsed valid noZone fits⟩

theorem parsePrefixChars_none (noSlash : '/' ∉ s) : parsePrefixChars s = none := by
  have whole := @span_append '/' s.reverse [] (by simpa using noSlash) (.inl rfl)
  rw [List.append_nil] at whole
  rw [parsePrefixChars, whole]

theorem not_addrChar : ¬AddrChar '/' ∧ ¬AddrChar '%' := by
  unfold AddrChar
  decide

/-- The text of an address without a zone. -/
theorem chars_addrChar {a : Addr} (valid : a.isValid = true) (noZone : a = a.withoutZone) :
    ∀ c ∈ a.chars, AddrChar c := by
  cases a with
  | zero => cases valid
  | v4 n => exact parseIPv4Fields_chars (parseFields_string4 n)
  | v6 n zone =>
    obtain rfl : zone = "" := (Addr.v6.inj noZone).2
    rw [chars_v6, if_pos rfl, List.append_nil]
    split
    · exact parseGroups_chars (parseGroups_mapped _)
    · exact parseGroups_chars (parseGroups_appendTo6 groups_small rfl)

/-- The digits of a number of bits are not signs of an address. -/
theorem decimalChars_digitVal {x : Nat} {c : Char} (small : x < 256) (member : c ∈ decimalChars x) :
    digitVal c ≠ none := by
  obtain ⟨d, digits, text, -, decimal, -, -⟩ := decimalChars_digits small
  rw [text] at member
  obtain ⟨y, inDigits, rfl⟩ := List.mem_map.mp member
  simp [digitVal_digitChar (decimal y inDigits)]

theorem mapM_digitVal {digits : List Nat} (decimal : ∀ d ∈ digits, d < 10) :
    (digits.map Nat.digitChar).mapM digitVal = some digits := by
  induction digits with
  | nil => rfl
  | cons d digits ih =>
    rw [List.forall_mem_cons] at decimal
    rw [List.map_cons, List.mapM_cons, digitVal_digitChar decimal.1, ih decimal.2]
    rfl

theorem readBits_decimalChars {bits : Nat} (small : bits < 256) : readBits (decimalChars bits) = some bits := by
  obtain ⟨d, digits, text, -, decimal, value, leading⟩ := decimalChars_digits small
  have allowed : ¬((d :: digits).map Nat.digitChar = [] ∨
      1 < ((d :: digits).map Nat.digitChar).length ∧ ((d :: digits).map Nat.digitChar).head? = some '0') := by
    rintro (none | ⟨more, zero⟩)
    · cases none
    · have first : Nat.digitChar d = '0' := by simpa using zero
      have read := digitVal_digitChar (decimal d List.mem_cons_self)
      rw [first] at read
      have zero : d = 0 := (Option.some.inj read).symm
      refine leading ?_ zero
      rintro rfl
      simp at more
  rw [text, readBits, if_neg allowed, mapM_digitVal decimal, Option.map_some, value]

theorem bits_small {a : Addr} {bits : Nat} (fits : bits ≤ a.bitLen) : bits < 256 := by
  cases a with
  | zero => exact Nat.lt_of_le_of_lt fits (Nat.zero_lt_succ 255)
  | v4 n => exact Nat.lt_of_le_of_lt fits (show 32 < 256 by decide)
  | v6 n zone => exact Nat.lt_of_le_of_lt fits (show 128 < 256 by decide)

theorem parsePrefix_string {p : Prefix} (parsed : p.Parsed) : parsePrefix p.string = some p := by
  obtain ⟨a, bits, valid, noZone, fits, rfl⟩ := parsed
  have small := bits_small fits
  have noSlash : '/' ∉ (decimalChars bits).reverse := by
    rw [List.mem_reverse]
    intro member
    exact decimalChars_digitVal small member rfl
  have parts := @span_append '/' (decimalChars bits).reverse ('/' :: a.chars.reverse) noSlash (.inr ⟨_, rfl⟩)
  have text : (a.chars ++ '/' :: decimalChars bits).reverse =
      (decimalChars bits).reverse ++ '/' :: a.chars.reverse := by simp
  have notMore : ¬a.bitLen < bits := Nat.not_lt.mpr fits
  rw [parsePrefix, Prefix.string, String.toList_ofList, parsePrefixChars, text, parts]
  simp only [List.reverse_reverse, parseAddrChars_chars_self valid, readBits_decimalChars small,
    Option.bind_eq_bind, Option.bind_some, ← noZone, ne_eq, not_true, if_false, notMore,
    ofAddr_parsed valid noZone fits]

/-- A prefix is not an address. -/
theorem parseAddr_prefix {p : Prefix} (parsed : p.Parsed) : parseAddr p.string = none := by
  obtain ⟨a, bits, valid, noZone, fits, rfl⟩ := parsed
  have chars := chars_addrChar valid noZone
  rw [parseAddr, Prefix.string, String.toList_ofList]
  cases read : parseAddrChars (a.chars ++ '/' :: decimalChars bits) with
  | none => rfl
  | some other =>
    have noPercent : '%' ∉ a.chars ++ '/' :: decimalChars bits := by
      rw [List.mem_append, List.mem_cons]
      rintro (inAddr | slash | inBits)
      · exact not_addrChar.2 (chars _ inAddr)
      · exact absurd slash (by decide)
      · exact decimalChars_digitVal (bits_small fits) inBits rfl
    exact absurd (parseAddrChars_chars read noPercent '/' (by simp)) not_addrChar.1

end Prefixes

/-! ### Hardware addresses -/

section Mac

variable {mac : HardwareAddr}

/-- The two digits of a byte. -/
def byteChars (b : UInt8) : List Char := [Nat.digitChar (b.toNat / 16), Nat.digitChar (b.toNat % 16)]

theorem macChars_eq : ∀ mac : HardwareAddr, macChars mac = [':'].intercalate (mac.map byteChars)
  | [] => rfl
  | [b] => rfl
  | b :: c :: rest => by
    rw [List.map_cons, List.map_cons, intercalate_cons, ← List.map_cons, ← macChars_eq (c :: rest)]
    rfl

theorem spells_byteChars (b : UInt8) : Spells (byteChars b) b.toNat := by
  have small := b.toNat_lt
  apply spells_digits (b.toNat / 16) [b.toNat % 16]
  · simp
    omega
  · simp
  · simp
    omega

theorem spell_bytes (mac : HardwareAddr) :
    List.Forall₂ Spells (mac.map byteChars) (mac.map (·.toNat)) := by
  induction mac with
  | nil => exact .nil
  | cons b rest ih => exact .cons (spells_byteChars b) ih

theorem macChars_chars {c : Char} (member : c ∈ macChars mac) : hexVal c ≠ none ∨ c = ':' := by
  rw [macChars_eq] at member
  rcases mem_intercalate member with atColon | ⟨text, inTexts, inText⟩
  · exact .inr atColon
  · obtain ⟨b, -, rfl⟩ := List.mem_map.mp inTexts
    have small := b.toNat_lt
    simp only [byteChars, List.mem_cons, List.not_mem_nil, or_false] at inText
    rcases inText with rfl | rfl
    · exact .inl (by simp [hexVal_digitChar (show b.toNat / 16 < 16 by omega)])
    · exact .inl (by simp [hexVal_digitChar (show b.toNat % 16 < 16 by omega)])

theorem noPercent_macChars : '%' ∉ macChars mac := by
  intro member
  rcases macChars_chars member with digit | colon
  · exact digit rfl
  · exact absurd colon (by decide)

theorem noSlash_macChars : '/' ∉ macChars mac := by
  intro member
  rcases macChars_chars member with digit | colon
  · exact digit rfl
  · exact absurd colon (by decide)

/-- The bytes of a hardware address are tried as groups. -/
theorem parseAddr_macString (many : 2 ≤ mac.length) :
    parseAddr (macString mac) = (expand ((mac.map (·.toNat)).take 8, none,
      [':'].intercalate ((mac.map byteChars).drop 8))).map fun groups =>
        .v6 (BitVec.ofNat 128 (ofDigits 16 groups)) "" := by
  obtain ⟨b, c, rest, rfl⟩ : ∃ b c rest, mac = b :: c :: rest := by
    match mac, many with
    | b :: c :: rest, _ => exact ⟨b, c, rest, rfl⟩
  have colon : ':' ∈ macChars (b :: c :: rest) := by simp [macChars]
  have chosen := @parseAddrChars_colon _ [] colon fun _ => macChars_chars
  have whole := @span_append '%' (macChars (b :: c :: rest)) [] noPercent_macChars (.inl rfl)
  have read := @readGroups_join [] none 8 _ _ (spell_bytes (b :: c :: rest)) (by simp)
  obtain ⟨d, later, head, other⟩ := join_head (spells_byteChars b) ((c :: rest).map byteChars)
  have text : macChars (b :: c :: rest) = d :: later := (macChars_eq _).trans head
  rw [← macChars_eq, List.nil_append] at read
  rw [List.append_nil] at chosen whole
  rw [parseAddr, macString, String.toList_ofList, chosen, parseIPv6, whole]
  simp only [List.drop_nil]
  rw [text] at read ⊢
  rw [parseGroups_other other, read]
  rfl

/-- A hardware address of 6 or 20 bytes is not an IP address. -/
theorem parseAddr_macString_none (length : mac.length = 6 ∨ mac.length = 20) :
    parseAddr (macString mac) = none := by
  rw [parseAddr_macString (by omega)]
  rcases length with six | twenty
  · have all : (mac.map byteChars).drop 8 = [] := List.drop_eq_nil_of_le (by simp [six])
    rw [all]
    simp [expand, six]
  · have more : [':'].intercalate ((mac.map byteChars).drop 8) ≠ [] := by
      obtain ⟨b, rest, behind⟩ := List.exists_cons_of_length_pos (show 0 < (mac.drop 8).length by
        rw [List.length_drop]
        omega)
      obtain ⟨c, later, head, -⟩ := join_head (spells_byteChars b) (rest.map byteChars)
      rw [← List.map_drop, behind, List.map_cons, head]
      simp
    rw [expand, if_pos more]
    rfl

/-- One of 8 bytes is. -/
theorem parseAddr_macString_eight (length : mac.length = 8) :
    parseAddr (macString mac) = some (.v6 (BitVec.ofNat 128 (ofDigits 16 (mac.map (·.toNat)))) "") := by
  have all : (mac.map byteChars).drop 8 = [] := List.drop_eq_nil_of_le (by simp [length])
  have taken : (mac.map (·.toNat)).take 8 = mac.map (·.toNat) := List.take_of_length_le (by simp [length])
  rw [parseAddr_macString (by omega), all, taken]
  simp [expand, length, List.intercalate]

theorem parsePrefix_macString (mac : HardwareAddr) : parsePrefix (macString mac) = none := by
  rw [parsePrefix, macString, String.toList_ofList]
  exact parsePrefixChars_none noSlash_macChars

end Mac

end FirewallCore.Net
