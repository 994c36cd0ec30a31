import FirewallCore.Lib.Strings
import Mathlib.Data.List.DropRight
import Mathlib.Data.Nat.Find

/-!
Times in the format of RFC 3339, to the second. The proleptic Gregorian calendar
repeats every 400 years; a day is a cycle and the number of a day in it.

Seconds are counted from the beginning of the year zero, in any direction. A time
is written in local time with an offset in minutes. Years before zero and after
9999 are written with a sign or with more than four digits, which cannot be
read back.
-/

namespace FirewallCore.Lib.Rfc3339

/-! ### The calendar -/

/-- The days of a cycle. -/
def cycleDays : Nat := 146097

def isLeap (y : Nat) : Bool := y % 4 == 0 && y % 100 != 0 || y % 400 == 0

/-- The days from the beginning of a cycle to that of its `y`-th year. -/
def daysBeforeYear (y : Nat) : Nat := 365 * y + (y + 3) / 4 - (y + 99) / 100 + (y + 399) / 400

def monthLengths (y : Nat) : List Nat :=
  [31, if isLeap y then 29 else 28, 31, 30, 31, 30, 31, 31, 30, 31, 30, 31]

/-- The year of a cycle to which a day of it belongs. -/
def yearOf (day : Nat) : Nat := Nat.findGreatest (fun y => daysBeforeYear y ≤ day) (day / 365)

/-- Splits the number of a day of a year into the numbers of its month and of the day
there. -/
def splitMonth : List Nat → Nat → Nat × Nat
  | [], day => (0, day)
  | len :: rest, day =>
    if day < len then (0, day)
    else ((splitMonth rest (day - len)).1 + 1, (splitMonth rest (day - len)).2)

theorem daysBeforeYear_succ (y : Nat) :
    daysBeforeYear (y + 1) = daysBeforeYear y + (monthLengths y).sum := by
  have sum : (monthLengths y).sum = if isLeap y then 366 else 365 := by
    unfold monthLengths
    split <;> rfl
  have four : (y + 1 + 3) / 4 = (y + 3) / 4 + if y % 4 = 0 then 1 else 0 := by
    split <;> omega
  have hundred : (y + 1 + 99) / 100 = (y + 99) / 100 + if y % 100 = 0 then 1 else 0 := by
    split <;> omega
  have cycle : (y + 1 + 399) / 400 = (y + 399) / 400 + if y % 400 = 0 then 1 else 0 := by
    split <;> omega
  have fewer : (y + 99) / 100 ≤ (y + 3) / 4 := by omega
  have of400 : y % 400 = 0 → y % 100 = 0 := by omega
  have of100 : y % 100 = 0 → y % 4 = 0 := by omega
  have leap : isLeap y = decide (y % 4 = 0 ∧ ¬y % 100 = 0 ∨ y % 400 = 0) := by
    simp [isLeap, bne, Bool.decide_or, Bool.decide_and, beq_eq_decide]
  rw [sum, leap, daysBeforeYear, four, hundred, cycle, daysBeforeYear]
  generalize (y + 3) / 4 = a at *
  generalize (y + 99) / 100 = b at *
  generalize (y + 399) / 400 = c at *
  by_cases h4 : y % 4 = 0
  · by_cases h100 : y % 100 = 0
    · by_cases h400 : y % 400 = 0
      · simp only [h4, h100, h400, not_true, and_false, or_true, decide_true, if_true]
        omega
      · simp only [h4, h100, h400, not_true, and_false, or_false, decide_false, if_true, if_false,
          Bool.false_eq_true]
        omega
    · have h400 : ¬y % 400 = 0 := fun h => h100 (of400 h)
      simp only [h4, h100, h400, not_false_eq_true, and_true, or_false, decide_true, if_true,
        if_false]
      omega
  · have h100 : ¬y % 100 = 0 := fun h => h4 (of100 h)
    have h400 : ¬y % 400 = 0 := fun h => h100 (of400 h)
    simp only [h4, h100, h400, false_and, or_false, decide_false, if_false, Bool.false_eq_true]
    omega

/-- The day lies in its year. -/
theorem yearOf_spec {day : Nat} (inCycle : day < cycleDays) :
    yearOf day < 400 ∧ daysBeforeYear (yearOf day) ≤ day ∧
      day < daysBeforeYear (yearOf day) + (monthLengths (yearOf day)).sum := by
  have begun : daysBeforeYear (yearOf day) ≤ day :=
    Nat.findGreatest_spec (P := fun y => daysBeforeYear y ≤ day) (Nat.zero_le _)
      (show daysBeforeYear 0 ≤ day from Nat.zero_le _)
  have notOver : day < daysBeforeYear (yearOf day + 1) := by
    by_contra beyond
    by_cases inside : yearOf day + 1 ≤ day / 365
    · exact Nat.findGreatest_is_greatest (P := fun y => daysBeforeYear y ≤ day)
        (Nat.lt_succ_self _) inside (Nat.le_of_not_lt beyond)
    · unfold daysBeforeYear at beyond
      omega
  refine ⟨?_, begun, ?_⟩
  · unfold daysBeforeYear cycleDays at *
    omega
  · rwa [← daysBeforeYear_succ]

theorem splitMonth_spec {lengths : List Nat} {day : Nat} (inside : day < lengths.sum) :
    ∃ len, lengths[(splitMonth lengths day).1]? = some len ∧ (splitMonth lengths day).2 < len ∧
      (lengths.take (splitMonth lengths day).1).sum + (splitMonth lengths day).2 = day := by
  induction lengths generalizing day with
  | nil => simp at inside
  | cons len rest ih =>
    unfold splitMonth
    split
    · rename_i here
      exact ⟨len, rfl, here, by simp⟩
    · rename_i later
      simp only [List.sum_cons] at inside
      have shorter : day - len < rest.sum := by omega
      obtain ⟨len', found, fits, total⟩ := ih shorter
      refine ⟨len', by simpa using found, fits, ?_⟩
      simp only [List.take_succ_cons, List.sum_cons]
      omega

/-! ### Writing -/

/-- A number below ten thousand, in four digits. -/
def fourDigits (n : Nat) : List Char := twoDigits (n / 100) ++ twoDigits (n % 100)

/-- The text of a year: at least four digits. -/
def yearChars (year : Int) : List Char :=
  if 0 ≤ year ∧ year ≤ 9999 then fourDigits year.toNat
  else if year < 0 then '-' :: Nat.toDigits 10 (year.natAbs / 10000) ++ fourDigits (year.natAbs % 10000)
  else Nat.toDigits 10 (year.toNat / 10000) ++ fourDigits (year.toNat % 10000)

/-- The text of an offset in minutes. -/
def zoneChars (offset : Int) : List Char :=
  if offset = 0 then ['Z']
  else (if offset < 0 then '-' else '+') :: twoDigits (offset.natAbs / 60) ++
    ':' :: twoDigits (offset.natAbs % 60)

/-- The local year of a time. -/
def localYear (offset secs : Int) : Int :=
  let days := (secs + offset * 60) / 86400
  400 * (days / cycleDays) + yearOf (days % cycleDays).toNat

/-- The text of a time. -/
def format (offset secs : Int) : List Char :=
  let localSecs := secs + offset * 60
  let days := localSecs / 86400
  let clock := (localSecs % 86400).toNat
  let day := (days % cycleDays).toNat
  let date := splitMonth (monthLengths (yearOf day)) (day - daysBeforeYear (yearOf day))
  yearChars (localYear offset secs) ++ '-' :: twoDigits (date.1 + 1) ++
    '-' :: twoDigits (date.2 + 1) ++ 'T' :: twoDigits (clock / 3600) ++
    ':' :: twoDigits (clock / 60 % 60) ++ ':' :: twoDigits (clock % 60) ++ zoneChars offset

/-! ### Reading -/

/-- Reads an offset, in minutes. -/
def parseZone : List Char → Option Int
  | ['Z'] => some 0
  | [sign, a, b, ':', c, d] => do
    let hours ← readTwo a b
    let minutes ← readTwo c d
    if 24 < hours ∨ 60 < minutes then none
    else if sign = '+' then return hours * 60 + minutes
    else if sign = '-' then return -(hours * 60 + minutes : Int)
    else none
  | _ => none

/-- Reads a time without a fraction of a second, as `Format` writes it. -/
def parse : List Char → Option Int
  | y₁ :: y₂ :: y₃ :: y₄ :: '-' :: m₁ :: m₂ :: '-' :: d₁ :: d₂ :: 'T' :: h₁ :: h₂ :: ':' ::
      n₁ :: n₂ :: ':' :: s₁ :: s₂ :: zone => do
      let century ← readTwo y₁ y₂
      let inCentury ← readTwo y₃ y₄
      let month ← readTwo m₁ m₂
      let day ← readTwo d₁ d₂
      let hour ← readTwo h₁ h₂
      let minute ← readTwo n₁ n₂
      let second ← readTwo s₁ s₂
      let offset ← parseZone zone
      let year := 100 * century + inCentury
      let lengths := monthLengths (year % 400)
      let len ← if month = 0 then none else lengths[month - 1]?
      if day = 0 ∨ len < day ∨ 24 ≤ hour ∨ 60 ≤ minute ∨ 60 ≤ second then none
      else
        let days := cycleDays * (year / 400) + daysBeforeYear (year % 400) +
          (lengths.take (month - 1)).sum + (day - 1)
        return 86400 * days + 3600 * hour + 60 * minute + second - offset * 60
  | _ => none

/-! ### What is written is read back -/

theorem parseZone_zoneChars {offset : Int} (small : offset.natAbs < 1440) :
    parseZone (zoneChars offset) = some offset := by
  unfold zoneChars
  split
  · rename_i zero
    rw [zero]
    rfl
  · have hours : readTwo (Nat.digitChar (offset.natAbs / 60 / 10))
        (Nat.digitChar (offset.natAbs / 60 % 10)) = some (offset.natAbs / 60) :=
      readTwo_twoDigits (by omega)
    have minutes : readTwo (Nat.digitChar (offset.natAbs % 60 / 10))
        (Nat.digitChar (offset.natAbs % 60 % 10)) = some (offset.natAbs % 60) :=
      readTwo_twoDigits (by omega)
    have inRange : ¬(24 < offset.natAbs / 60 ∨ 60 < offset.natAbs % 60) := by omega
    simp only [twoDigits, List.cons_append, List.nil_append, parseZone, hours, minutes,
      Option.bind_eq_bind, Option.bind_some, inRange, if_false]
    split
    · simp only [Char.reduceEq, if_false, if_true]
      congr 1
      omega
    · simp only [if_true]
      congr 1
      omega

/-- A time of a year from 0 to 9999 is read back. -/
theorem parse_format {offset secs : Int} (small : offset.natAbs < 1440)
    (year : 0 ≤ localYear offset secs ∧ localYear offset secs ≤ 9999) :
    parse (format offset secs) = some secs := by
  have cycle : (cycleDays : Int) = 146097 := rfl
  unfold format
  dsimp only
  obtain ⟨days, hdays⟩ : ∃ days, days = (secs + offset * 60) / 86400 := ⟨_, rfl⟩
  obtain ⟨clock, hclock⟩ : ∃ clock, clock = ((secs + offset * 60) % 86400).toNat := ⟨_, rfl⟩
  obtain ⟨day, hday⟩ : ∃ day, day = (days % cycleDays).toNat := ⟨_, rfl⟩
  have inCycle : day < cycleDays := by
    have := Int.emod_lt_of_pos days (b := cycleDays) (by decide)
    have := Int.emod_nonneg days (b := cycleDays) (by decide)
    omega
  obtain ⟨before400, begun, notOver⟩ := yearOf_spec inCycle
  have total : localYear offset secs = 400 * (days / cycleDays) + yearOf day := by
    rw [localYear, hday, hdays]
  rw [← hdays, ← hclock, ← hday]
  generalize yearOf day = Y at *
  have inYear : day - daysBeforeYear Y < (monthLengths Y).sum := by omega
  obtain ⟨len, found, fits, sum⟩ := splitMonth_spec inYear
  generalize splitMonth (monthLengths Y) (day - daysBeforeYear Y) = date at *
  obtain ⟨m, d⟩ := date
  have twelve : m < 12 := (List.getElem?_eq_some_iff.mp found).1
  have short : len ≤ 31 := by
    have member := List.mem_of_getElem? found
    simp only [monthLengths, List.mem_cons, List.not_mem_nil, or_false] at member
    split at member <;> omega
  dsimp only at fits sum
  obtain ⟨y, hy⟩ : ∃ y, y = (localYear offset secs).toNat := ⟨_, rfl⟩
  have yearChars_eq : yearChars (localYear offset secs) = fourDigits y := by
    rw [yearChars, if_pos year, hy]
  have ofYear : y % 400 = Y ∧ (y : Int) / 400 = days / cycleDays := by
    rw [total] at year hy
    omega
  have valid : ¬(len < d + 1 ∨ 24 ≤ clock / 3600 ∨ 60 ≤ clock / 60 % 60 ∨ 60 ≤ clock % 60) := by
    omega
  rw [yearChars_eq]
  simp only [fourDigits, twoDigits, List.cons_append, List.nil_append, parse, Option.bind_eq_bind]
  rw [readTwo_twoDigits (n := y / 100) (by omega), readTwo_twoDigits (n := y % 100) (by omega),
    readTwo_twoDigits (n := m + 1) (by omega), readTwo_twoDigits (n := d + 1) (by omega),
    readTwo_twoDigits (n := clock / 3600) (by omega),
    readTwo_twoDigits (n := clock / 60 % 60) (by omega),
    readTwo_twoDigits (n := clock % 60) (by omega), parseZone_zoneChars small]
  simp only [Option.bind_some, Nat.div_add_mod, ofYear.1, Nat.add_sub_cancel, Nat.succ_ne_zero,
    if_false, false_or, found]
  rw [if_neg valid]
  apply congrArg some
  have dayOf : cycleDays * (y / 400) + daysBeforeYear Y + (List.take m (monthLengths Y)).sum + d =
      cycleDays * (y / 400) + day := by omega
  rw [dayOf]
  push_cast
  rw [ofYear.2]
  rw [cycle] at hday ⊢
  omega

/-- A text that does not have a hyphen behind four characters is no time. -/
theorem parse_none {s : List Char} (noHyphen : s[4]? ≠ some '-') : parse s = none := by
  unfold parse
  split
  · exact absurd rfl noHyphen
  · rfl

theorem isDigit_fourDigits {n : Nat} (small : n < 10000) :
    ∀ c ∈ fourDigits n, c.isDigit = true := by
  have digit : ∀ k < 10, (Nat.digitChar k).isDigit = true := by decide
  intro c member
  simp only [fourDigits, twoDigits, List.cons_append, List.nil_append, List.mem_cons,
    List.not_mem_nil, or_false] at member
  rcases member with rfl | rfl | rfl | rfl
  · exact digit _ (by omega)
  · exact digit _ (by omega)
  · exact digit _ (by omega)
  · exact digit _ (by omega)

/-- A time of another year is not read back. -/
theorem parse_format_none {offset secs : Int}
    (year : ¬(0 ≤ localYear offset secs ∧ localYear offset secs ≤ 9999)) :
    parse (format offset secs) = none := by
  -- the fifth character is a digit of the year
  have fifth : ∃ c, (yearChars (localYear offset secs))[4]? = some c ∧ c.isDigit = true := by
    have digits : ∀ n, ∀ c ∈ Nat.toDigits 10 (n / 10000) ++ fourDigits (n % 10000),
        c.isDigit = true := by
      intro n c member
      rcases List.mem_append.mp member with high | low
      · exact Nat.isDigit_of_mem_toDigits (by decide) (by decide) high
      · exact isDigit_fourDigits (Nat.mod_lt _ (by decide)) c low
    have long : ∀ n, 4 < (Nat.toDigits 10 (n / 10000) ++ fourDigits (n % 10000)).length := by
      intro n
      have : 0 < (Nat.toDigits 10 (n / 10000)).length := Nat.length_toDigits_pos
      simp only [List.length_append, fourDigits, twoDigits, List.length_cons, List.length_nil]
      omega
    unfold yearChars
    rw [if_neg year]
    split
    · have entry := List.getElem?_eq_getElem (Nat.lt_of_succ_lt (long (localYear offset secs).natAbs))
      exact ⟨_, entry, digits _ _ (List.mem_of_getElem? entry)⟩
    · exact ⟨_, List.getElem?_eq_getElem (long _), digits _ _ (List.getElem_mem _)⟩
  obtain ⟨c, entry, digit⟩ := fifth
  apply parse_none
  unfold format
  simp only [List.append_assoc]
  rw [List.getElem?_append_left (List.getElem?_eq_some_iff.mp entry).1, entry]
  rintro ⟨⟩
  revert digit
  decide

end FirewallCore.Lib.Rfc3339

/-!
Times in the format of RFC 3339 with a fraction of a second, up to nanoseconds, for the
years that the format allows. Zeroes at the end of the fraction are not written.
-/

namespace FirewallCore.Lib.Rfc3339

/-- A number below `10 ^ n`, in `n` digits. -/
def digitsOf : Nat → Nat → List Char
  | 0, _ => []
  | n + 1, k => digitsOf n (k / 10) ++ [Nat.digitChar (k % 10)]

/-- The value of digits. -/
def ofDigits (digits : List Char) : Nat :=
  digits.foldl (fun acc c => 10 * acc + (digitVal c).getD 0) 0

/-- The text of a fraction, in nanoseconds. -/
def fraction (nanos : Nat) : List Char :=
  if nanos = 0 then [] else '.' :: (digitsOf 9 nanos).rdropWhile (· = '0')

/-- The text of a time: `RFC3339Nano`. -/
def formatNano (offset secs : Int) (nanos : Nat) : List Char :=
  (format offset secs).take 19 ++ fraction nanos ++ (format offset secs).drop 19

/-- Reads a time with or without a fraction, of which nine digits count. -/
def parseNano (s : List Char) : Option (Int × Nat) :=
  match s.drop 19 with
  | '.' :: rest =>
    let digits := rest.takeWhile fun c => (digitVal c).isSome
    if digits = [] then none
    else (parse (s.take 19 ++ rest.drop digits.length)).map fun secs =>
      (secs, ofDigits ((digits ++ List.replicate 9 '0').take 9))
  | _ => (parse s).map fun secs => (secs, 0)

/-! ### Fractions -/

theorem length_digitsOf (n k : Nat) : (digitsOf n k).length = n := by
  induction n generalizing k with
  | zero => rfl
  | succ n ih => rw [digitsOf, List.length_append, ih, List.length_singleton]

theorem ofDigits_digitsOf {n k : Nat} (small : k < 10 ^ n) : ofDigits (digitsOf n k) = k := by
  induction n generalizing k with
  | zero =>
    rw [Nat.pow_zero] at small
    rw [digitsOf, ofDigits, List.foldl_nil]
    omega
  | succ n ih =>
    have high : k / 10 < 10 ^ n := by
      rw [Nat.pow_succ] at small
      omega
    have := ih high
    rw [ofDigits] at this
    rw [ofDigits, digitsOf, List.foldl_append, this, List.foldl_cons, List.foldl_nil,
      digitVal_digitChar (Nat.mod_lt _ (by decide)), Option.getD_some]
    omega

theorem digitsOf_digits (n k : Nat) : ∀ c ∈ digitsOf n k, (digitVal c).isSome = true := by
  induction n generalizing k with
  | zero => simp [digitsOf]
  | succ n ih =>
    intro c member
    rw [digitsOf] at member
    rcases List.mem_append.mp member with high | low
    · exact ih (k / 10) c high
    · rw [List.mem_singleton.mp low, digitVal_digitChar (Nat.mod_lt _ (by decide))]
      rfl

/-- What is dropped at the end are zeroes. -/
theorem rdropWhile_zeroes (digits : List Char) :
    ∃ k, digits = digits.rdropWhile (· = '0') ++ List.replicate k '0' := by
  refine ⟨(digits.rtakeWhile (· = '0')).length, ?_⟩
  have zeroes : digits.rtakeWhile (· = '0') =
      List.replicate (digits.rtakeWhile (· = '0')).length '0' := by
    rw [List.eq_replicate_iff]
    refine ⟨rfl, fun c member => ?_⟩
    simpa using List.mem_rtakeWhile_imp member
  rw [← zeroes, List.rdropWhile_append_rtakeWhile]

theorem take_padded {digits trimmed : List Char} {k n : Nat}
    (all : digits = trimmed ++ List.replicate k '0') (length : digits.length = n) :
    (trimmed ++ List.replicate n '0').take n = digits := by
  rw [all, List.length_append, List.length_replicate] at length
  have room : min (n - trimmed.length) n = k := by omega
  rw [List.take_append, List.take_of_length_le (by omega), List.take_replicate, room, all]

section

variable {offset secs : Int} {nanos : Nat}

theorem fraction_pos (any : nanos ≠ 0) (small : nanos < 10 ^ 9) :
    ∃ digits, fraction nanos = '.' :: digits ∧ digits ≠ [] ∧
      (∀ c ∈ digits, (digitVal c).isSome = true) ∧
      ofDigits ((digits ++ List.replicate 9 '0').take 9) = nanos := by
  obtain ⟨k, all⟩ := rdropWhile_zeroes (digitsOf 9 nanos)
  have length := congrArg List.length all
  rw [length_digitsOf, List.length_append, List.length_replicate] at length
  refine ⟨(digitsOf 9 nanos).rdropWhile (· = '0'), by rw [fraction, if_neg any], ?_, ?_, ?_⟩
  · intro none
    rw [none, List.nil_append] at all
    apply any
    have value := ofDigits_digitsOf small
    rw [all] at value
    rw [none, List.length_nil, Nat.zero_add] at length
    rw [← value, ← length]
    rfl
  · intro c member
    apply digitsOf_digits 9 nanos c
    rw [all]
    exact List.mem_append_left _ member
  · rw [take_padded all (length_digitsOf 9 nanos), ofDigits_digitsOf small]

theorem zoneChars_head (offset : Int) :
    ∃ c rest, zoneChars offset = c :: rest ∧ c ≠ '.' ∧ digitVal c = none := by
  unfold zoneChars
  split
  · exact ⟨'Z', [], rfl, by decide, by decide⟩
  · split
    · exact ⟨'-', _, rfl, by decide, by decide⟩
    · exact ⟨'+', _, rfl, by decide, by decide⟩

/-- A time is written as nineteen characters and the offset. -/
theorem format_split (year : 0 ≤ localYear offset secs ∧ localYear offset secs ≤ 9999) :
    ∃ date, format offset secs = date ++ zoneChars offset ∧ date.length = 19 := by
  refine ⟨_, rfl, ?_⟩
  rw [yearChars, if_pos year]
  rfl

/-- A time of a year from 0 to 9999 is read back. -/
theorem parseNano_formatNano (zone : offset.natAbs < 1440)
    (year : 0 ≤ localYear offset secs ∧ localYear offset secs ≤ 9999) (small : nanos < 10 ^ 9) :
    parseNano (formatNano offset secs nanos) = some (secs, nanos) := by
  obtain ⟨date, split, length⟩ := format_split year
  obtain ⟨c, rest, head, period, noDigit⟩ := zoneChars_head offset
  have read := parse_format zone year
  have take : ∀ t, (date ++ t).take 19 = date := fun t => by rw [← length, List.take_left]
  have drop : ∀ t, (date ++ t).drop 19 = t := fun t => by rw [← length, List.drop_left]
  rw [formatNano, split, take, drop, List.append_assoc, parseNano, drop, take]
  rw [split] at read
  by_cases zero : nanos = 0
  · rw [fraction, if_pos zero, List.nil_append, head]
    split
    · rename_i h
      cases h
      exact absurd rfl period
    · rw [← head, read, zero]
      rfl
  · obtain ⟨digits, written, nonempty, all, value⟩ := fraction_pos zero small
    have prefix' : (digits ++ zoneChars offset).takeWhile (fun c => (digitVal c).isSome) =
        digits := by
      rw [List.takeWhile_append_of_pos all, head, List.takeWhile_cons_of_neg (by simp [noDigit]),
        List.append_nil]
    rw [written, List.cons_append]
    simp only [prefix', if_neg nonempty, List.drop_left, read, Option.map_some, value]

end

end FirewallCore.Lib.Rfc3339
