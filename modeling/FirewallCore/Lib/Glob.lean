import FirewallCore.Lib.Runes
import Mathlib.Data.List.TakeWhile

/-!
Patterns for the paths of files, as `filepath.Match` of Go reads them on Unix.

A pattern is cut into chunks, each possibly behind a star. A chunk is matched where it can be
first, and only the last one is tried further on. That is enough as long as there are no classes
of characters: each chunk takes as many separators as it has, so what an earlier place leaves for
the next star has none.
-/

namespace FirewallCore.Lib.Glob

open FirewallCore.Lib

/-! ### Patterns -/

def separator : UInt8 := 47
def asterisk : UInt8 := 42
def question : UInt8 := 63
def openBracket : UInt8 := 91
def backslash : UInt8 := 92
def closeBracket : UInt8 := 93
def caret : UInt8 := 94
def hyphen : UInt8 := 45

/-- An operator for one character. -/
inductive Elem where
  | literal (b : UInt8)
  | any
  | chars (negated : Bool) (ranges : List (Char × Char))
  deriving DecidableEq, Repr

/-- A chunk of a pattern, and whether it is behind a star. -/
structure Segment where
  star : Bool
  chunk : List Elem
  deriving DecidableEq, Repr

/-- The number of bytes of the first rune. -/
def runeLen (s : List UInt8) : Nat :=
  match decodeRune s with
  | some c => c.utf8Size
  | none => 1

/-- The first rune. -/
def firstRune (s : List UInt8) : Char := (decodeRune s).getD '\uFFFD'

/-- The loop of `scanChunk`: a star in brackets does not end the chunk. -/
def scanTo : Bool → List UInt8 → List UInt8 × List UInt8
  | _, [] => ([], [])
  | inrange, b :: rest =>
    if b = backslash then
      match rest with
      | [] => ([b], [])
      | c :: rest =>
        let (chunk, rest) := scanTo inrange rest
        (b :: c :: chunk, rest)
    else if b = asterisk ∧ ¬inrange then ([], b :: rest)
    else
      let inrange := if b = openBracket then true else if b = closeBracket then false else inrange
      let (chunk, rest) := scanTo inrange rest
      (b :: chunk, rest)

/-- `getEsc`: a character of a class, unless the pattern is malformed. -/
def getEsc (chunk : List UInt8) : Option (Char × List UInt8) :=
  match chunk with
  | [] => none
  | b :: rest =>
    if b = hyphen ∨ b = closeBracket then none
    else
      let chunk := if b = backslash then rest else chunk
      match decodeRune chunk with
      | none => none
      | some c =>
        match chunk.drop c.utf8Size with
        | [] => none
        | later => some (c, later)

/-- The ranges of a class, of which there is at least one. -/
def parseRanges : Nat → List UInt8 → Option (List (Char × Char) × List UInt8)
  | 0, _ => none
  | fuel + 1, chunk =>
    match getEsc chunk with
    | none => none
    | some (lo, chunk) =>
      let last := if chunk.head? = some hyphen then getEsc chunk.tail else some (lo, chunk)
      match last with
      | none => none
      | some (hi, chunk) =>
        if chunk.head? = some closeBracket then some ([(lo, hi)], chunk.tail)
        else (parseRanges fuel chunk).map fun (ranges, rest) => ((lo, hi) :: ranges, rest)

/-- The operators of a chunk, unless it is malformed. -/
def parseChunk : Nat → List UInt8 → Option (List Elem)
  | _, [] => some []
  | 0, _ :: _ => none
  | fuel + 1, b :: rest =>
    if b = openBracket then
      let negated := rest.head? = some caret
      match parseRanges rest.length (if negated then rest.tail else rest) with
      | none => none
      | some (ranges, rest) => (parseChunk fuel rest).map (.chars negated ranges :: ·)
    else if b = question then (parseChunk fuel rest).map (.any :: ·)
    else if b = backslash then
      match rest with
      | [] => none
      | c :: rest => (parseChunk fuel rest).map (.literal c :: ·)
    else (parseChunk fuel rest).map (.literal b :: ·)

/-- The chunks of a pattern: `scanChunk` again and again. -/
def parse : Nat → List UInt8 → Option (List Segment)
  | _, [] => some []
  | 0, _ :: _ => none
  | fuel + 1, pattern =>
    let (chunk, rest) := scanTo false (pattern.dropWhile (· = asterisk))
    match parseChunk chunk.length chunk, parse fuel rest with
    | some elems, some later => some (⟨pattern.head? = some asterisk, elems⟩ :: later)
    | _, _ => none

/-! ### Matching -/

/-- `matchChunk`: the rest of the text behind the chunk, if it matches. -/
def matchChunk : List Elem → List UInt8 → Option (List UInt8)
  | [], s => some s
  | _ :: _, [] => none
  | .literal b :: chunk, c :: s => if b = c then matchChunk chunk s else none
  | .any :: chunk, c :: s =>
    if c = separator then none else matchChunk chunk ((c :: s).drop (runeLen (c :: s)))
  | .chars negated ranges :: chunk, c :: s =>
    let r := firstRune (c :: s)
    let found := ranges.any fun (lo, hi) => lo ≤ r ∧ r ≤ hi
    if found = negated then none else matchChunk chunk ((c :: s).drop (runeLen (c :: s)))

/-- The rest behind a chunk that a match can go on with: the last chunk is to take everything. -/
def matchHere (chunk : List Elem) (last : Bool) (name : List UInt8) : Option (List UInt8) :=
  match matchChunk chunk name with
  | some rest => if rest = [] ∨ ¬last then some rest else none
  | none => none

/-- The loop that skips bytes other than separators. -/
def skipTo (chunk : List Elem) (last : Bool) : List UInt8 → Option (List UInt8)
  | [] => none
  | c :: name =>
    if c = separator then none
    else
      match matchHere chunk last name with
      | some rest => some rest
      | none => skipTo chunk last name

/-- The loop of `filepath.Match` over the chunks. -/
def matchSegments : List Segment → List UInt8 → Bool
  | [], name => name = []
  | seg :: later, name =>
    if seg.star ∧ seg.chunk = [] then separator ∉ name
    else
      match matchHere seg.chunk later.isEmpty name with
      | some rest => matchSegments later rest
      | none =>
        if seg.star then
          match skipTo seg.chunk later.isEmpty name with
          | some rest => matchSegments later rest
          | none => false
        else false

/-- `filepath.Match`; nothing for `ErrBadPattern`, which depends on the pattern only. -/
def filepathMatch (pattern name : List UInt8) : Option Bool :=
  (parse pattern.length pattern).map (matchSegments · name)

example : filepathMatch (utf8 "/etc/*.txt") (utf8 "/etc/ads.txt") = some true := by decide +kernel
example : filepathMatch (utf8 "/etc/a[0].txt") (utf8 "/etc/a[0].txt") = some false := by decide +kernel
example : filepathMatch (utf8 "/etc/a[.txt") (utf8 "/etc/a[.txt") = none := by decide +kernel

/-! ### Patterns without classes and escapes -/

/-- No byte has a meaning in brackets, or is escaped. -/
def Plain (pattern : List UInt8) : Prop := openBracket ∉ pattern ∧ backslash ∉ pattern

instance (pattern : List UInt8) : Decidable (Plain pattern) := inferInstanceAs (Decidable (_ ∧ _))

/-- The operator of a byte of a plain pattern. -/
def elem (b : UInt8) : Elem := if b = question then .any else .literal b

section Plain

variable {pattern text chunk rest pre s name : List UInt8} {b : UInt8} {fuel : Nat} {last : Bool}

theorem Plain.cons (plain : Plain (b :: rest)) : b ≠ openBracket ∧ b ≠ backslash ∧ Plain rest := by
  obtain ⟨bracket, escape⟩ := plain
  rw [List.mem_cons, not_or] at bracket escape
  exact ⟨Ne.symm bracket.1, Ne.symm escape.1, bracket.2, escape.2⟩

theorem Plain.append (plain : Plain (chunk ++ rest)) : Plain chunk ∧ Plain rest := by
  obtain ⟨bracket, escape⟩ := plain
  rw [List.mem_append, not_or] at bracket escape
  exact ⟨⟨bracket.1, escape.1⟩, ⟨bracket.2, escape.2⟩⟩

theorem scanTo_plain (plain : Plain s) :
    scanTo false s = (s.takeWhile (· ≠ asterisk), s.dropWhile (· ≠ asterisk)) := by
  induction s with
  | nil => rfl
  | cons b s ih =>
    obtain ⟨bracket, escape, plain⟩ := plain.cons
    rw [scanTo.eq_def]
    dsimp only
    rw [if_neg escape, if_neg bracket]
    by_cases star : b = asterisk
    · simp [star]
    · rw [ite_self, ih plain]
      simp [star]

theorem parseChunk_plain (plain : Plain chunk) (enough : chunk.length ≤ fuel) :
    parseChunk fuel chunk = some (chunk.map elem) := by
  induction chunk generalizing fuel with
  | nil =>
    cases fuel with
    | zero => rfl
    | succ fuel => rfl
  | cons b chunk ih =>
    obtain ⟨bracket, escape, plain⟩ := plain.cons
    cases fuel with
    | zero => cases enough
    | succ fuel =>
      rw [parseChunk.eq_def]
      dsimp only
      rw [if_neg bracket, if_neg escape, ih plain (Nat.le_of_succ_le_succ enough)]
      by_cases wild : b = question
      · simp [wild, elem]
      · simp [wild, elem]

/-- A rune ends before the next ASCII character. -/
theorem runeLen_le {ascii : UInt8} (small : ascii.toNat < 128) (some' : pre ≠ []) :
    runeLen (pre ++ ascii :: rest) ≤ pre.length := by
  have positive := List.length_pos_iff.mpr some'
  unfold runeLen
  cases found : decodeRune (pre ++ ascii :: rest) with
  | none => exact positive
  | some c =>
    dsimp only
    obtain ⟨tail, split⟩ := exists_of_decodeRune found
    rcases Nat.lt_or_ge c.toNat 128 with low | wide
    · rw [← String.length_utf8EncodeChar, utf8EncodeChar_ascii low]
      exact positive
    · by_contra long
      rw [← String.length_utf8EncodeChar, not_le] at long
      have here := congrArg (·[pre.length]?) split
      simp only [List.getElem?_append_right (Nat.le_refl _), Nat.sub_self, List.getElem?_cons_zero,
        List.getElem?_append_left long] at here
      have member := List.mem_of_getElem? here.symm
      have high := UInt8.le_iff_toNat_le.mp (utf8EncodeChar_wide wide ascii member)
      exact absurd small (not_lt.mpr high)

theorem runeLen_ascii (small : b.toNat < 128) : runeLen (b :: rest) = 1 := by
  unfold runeLen
  cases found : decodeRune (b :: rest) with
  | none => rfl
  | some c =>
    dsimp only
    obtain ⟨tail, split⟩ := exists_of_decodeRune found
    rcases Nat.lt_or_ge c.toNat 128 with low | wide
    · rw [← String.length_utf8EncodeChar, utf8EncodeChar_ascii low]
      rfl
    · obtain ⟨first, bytes, encoded, -⟩ := utf8EncodeChar_cons c
      rw [encoded, List.cons_append] at split
      obtain ⟨rfl, -⟩ := List.cons.inj split
      have high := utf8EncodeChar_wide wide b (encoded ▸ List.mem_cons_self)
      exact absurd small (not_lt.mpr (UInt8.le_iff_toNat_le.mp high))

/-! ### Matching of one chunk -/

/-- How many bytes the operator of a byte takes. -/
def width (b : UInt8) (name : List UInt8) : Nat := if b = question then runeLen name else 1

/-- An operator takes a byte, or a rune that is not a separator. -/
theorem matchChunk_elem {later : List Elem} (found : matchChunk (elem b :: later) name = some s) :
    matchChunk later (name.drop (width b name)) = some s ∧
      ∃ c text, name = c :: text ∧ if b = question then c ≠ separator else c = b := by
  unfold elem at found
  unfold width
  cases name with
  | nil =>
    split at found
    · cases found
    · cases found
  | cons c text =>
    split at found
    · rename_i wild
      rw [if_pos wild]
      rw [matchChunk] at found
      split at found
      · cases found
      · rename_i other
        exact ⟨found, c, text, rfl, by rwa [if_pos wild]⟩
    · rename_i plain
      rw [if_neg plain]
      rw [matchChunk] at found
      split at found
      · rename_i same
        exact ⟨found, c, text, rfl, by rw [if_neg plain, same]⟩
      · cases found

theorem width_self : width b (b :: rest) = 1 := by
  unfold width
  split
  · rename_i wild
    subst wild
    exact runeLen_ascii (by decide)
  · rfl

theorem width_le (some' : pre ≠ []) : width b (pre ++ b :: rest) ≤ pre.length := by
  unfold width
  split
  · rename_i wild
    subst wild
    exact runeLen_le (by decide) some'
  · exact List.length_pos_iff.mpr some'

/-- What is left behind a chunk is at least what is left where the chunk stands itself. -/
theorem matchChunk_suffix (found : matchChunk (chunk.map elem) (pre ++ chunk ++ rest) = some s) :
    ∃ extra, s = extra ++ rest := by
  induction chunk generalizing pre with
  | nil =>
    cases found
    exact ⟨pre, by rw [List.append_nil]⟩
  | cons b chunk ih =>
    rw [List.map_cons, List.append_assoc, List.cons_append] at found
    obtain ⟨later, -⟩ := matchChunk_elem found
    rcases List.eq_nil_or_concat pre with rfl | ⟨_, _, some'⟩
    · rw [List.nil_append, width_self, List.drop_one, List.tail_cons] at later
      exact @ih [] later
    · have short : width b (pre ++ b :: (chunk ++ rest)) ≤ pre.length :=
        width_le (by simp [some'])
      rw [List.drop_append_of_le_length short] at later
      apply @ih (pre.drop (width b (pre ++ b :: (chunk ++ rest))) ++ [b])
      simpa using later

/-- A rune that does not start with a separator has none. -/
theorem count_drop_runeLen {c : UInt8} (other : c ≠ separator) :
    ((c :: name).drop (runeLen (c :: name))).count separator = (c :: name).count separator := by
  unfold runeLen
  cases found : decodeRune (c :: name) with
  | none =>
    rw [List.drop_one, List.tail_cons, List.count_cons_of_ne other]
  | some r =>
    dsimp only
    obtain ⟨tail, split⟩ := exists_of_decodeRune found
    have none : (String.utf8EncodeChar r).count separator = 0 := by
      rw [List.count_eq_zero]
      rcases Nat.lt_or_ge r.toNat 128 with low | wide
      · rw [utf8EncodeChar_ascii low] at split ⊢
        rw [List.mem_singleton]
        obtain ⟨same, -⟩ := List.cons.inj split
        exact fun equal => other (same.trans equal.symm)
      · intro member
        have high := UInt8.le_iff_toNat_le.mp (utf8EncodeChar_wide wide separator member)
        exact absurd high (by decide)
    rw [split, ← String.length_utf8EncodeChar, List.drop_left, List.count_append, none,
      Nat.zero_add]

/-- A chunk takes as many separators as it has. -/
theorem count_matchChunk (found : matchChunk (chunk.map elem) name = some s) :
    name.count separator = chunk.count separator + s.count separator := by
  induction chunk generalizing name with
  | nil =>
    cases found
    rw [List.count_nil, Nat.zero_add]
  | cons b chunk ih =>
    obtain ⟨later, c, text, rfl, taken⟩ := matchChunk_elem found
    have rest := ih later
    unfold width at rest
    split at taken
    · rename_i wild
      subst wild
      rw [if_pos rfl, count_drop_runeLen taken] at rest
      rw [rest, List.count_cons_of_ne (by decide)]
    · rename_i plain
      subst taken
      rw [if_neg plain, List.drop_one, List.tail_cons] at rest
      rw [List.count_cons, List.count_cons, rest]
      omega

/-- A chunk matches itself. -/
theorem matchChunk_self : matchChunk (chunk.map elem) (chunk ++ rest) = some rest := by
  induction chunk with
  | nil => rfl
  | cons b chunk ih =>
    rw [List.map_cons, List.cons_append]
    by_cases wild : b = question
    · have operator : elem b = .any := if_pos wild
      subst wild
      rw [operator, matchChunk, if_neg (by decide), runeLen_ascii (by decide), List.drop_one,
        List.tail_cons, ih]
    · have operator : elem b = .literal b := if_neg wild
      rw [operator, matchChunk, if_pos rfl, ih]

/-! ### Matching of a pattern -/

/-- What is left where a chunk matches: nothing but more bytes for the next star. -/
theorem matchChunk_extra (found : matchChunk (chunk.map elem) (pre ++ chunk ++ rest) = some s)
    (none : separator ∉ pre) : ∃ extra, s = extra ++ rest ∧ separator ∉ extra := by
  obtain ⟨extra, rfl⟩ := matchChunk_suffix found
  have count := count_matchChunk found
  rw [List.count_append, List.count_append, List.count_append, List.count_eq_zero.mpr none] at count
  exact ⟨extra, rfl, List.count_eq_zero.mp (by omega)⟩

theorem matchHere_some (found : matchHere (chunk.map elem) last name = some s) :
    matchChunk (chunk.map elem) name = some s ∧ (last = true → s = []) := by
  unfold matchHere at found
  split at found
  · rename_i rest here
    split at found
    · rename_i enough
      cases found
      exact ⟨here, fun ends => enough.resolve_right fun more => by simp [ends] at more⟩
    · cases found
  · cases found

theorem matchHere_self (ends : last = true → rest = []) :
    matchHere (chunk.map elem) last (chunk ++ rest) = some rest := by
  unfold matchHere
  rw [matchChunk_self]
  dsimp only
  apply if_pos
  cases last with
  | false => exact .inr Bool.false_ne_true
  | true => exact .inl (ends rfl)

/-- The loop over the bytes ends at the chunk itself at the latest. -/
theorem skipTo_some (none : separator ∉ pre) (some' : pre ≠ []) (ends : last = true → rest = []) :
    ∃ s pre', skipTo (chunk.map elem) last (pre ++ chunk ++ rest) = some s ∧ separator ∉ pre' ∧
      matchHere (chunk.map elem) last (pre' ++ chunk ++ rest) = some s := by
  induction pre with
  | nil => exact absurd rfl some'
  | cons c pre ih =>
    rw [List.mem_cons, not_or] at none
    rw [List.cons_append, List.cons_append, skipTo, if_neg (Ne.symm none.1)]
    cases here : matchHere (chunk.map elem) last (pre ++ chunk ++ rest) with
    | some s => exact ⟨s, pre, rfl, none.2, here⟩
    | none =>
      apply ih none.2
      rintro rfl
      rw [List.nil_append, matchHere_self ends] at here
      cases here

theorem parse_eq_nil (parsed : parse fuel pattern = some []) : pattern = [] := by
  cases pattern with
  | nil => rfl
  | cons b rest =>
    cases fuel with
    | zero => cases parsed
    | succ fuel =>
      rw [parse.eq_def] at parsed
      dsimp only at parsed
      split at parsed
      · cases parsed
      · cases parsed

/-- The first chunk of a plain pattern, with the stars before it. -/
theorem exists_chunk (plain : Plain (b :: text)) : ∃ stars chunk rest,
    b :: text = stars ++ chunk ++ rest ∧ separator ∉ stars ∧ (b = asterisk ↔ stars ≠ []) ∧
      (chunk = [] → rest = []) ∧ (rest ≠ [] → rest.head? = some asterisk) ∧
        ∀ fuel, parse (fuel + 1) (b :: text) =
          (parse fuel rest).map (⟨b = asterisk, chunk.map elem⟩ :: ·) := by
  have split : (b :: text).takeWhile (· = asterisk) ++ (b :: text).dropWhile (· = asterisk) =
      b :: text := List.takeWhile_append_dropWhile
  have notStar := List.head?_dropWhile_not (· = asterisk) (b :: text)
  have plainBody := (split.symm ▸ plain).append.2
  have parsed : ∀ fuel, parse (fuel + 1) (b :: text) = _ := fun _ => parse.eq_def _ _
  dsimp only at parsed
  rw [scanTo_plain plainBody] at parsed
  generalize (b :: text).dropWhile (· = asterisk) = body at *
  have splitBody : body.takeWhile (· ≠ asterisk) ++ body.dropWhile (· ≠ asterisk) = body :=
    List.takeWhile_append_dropWhile
  have star := List.head?_dropWhile_not (· ≠ asterisk) body
  refine ⟨(b :: text).takeWhile (· = asterisk), body.takeWhile (· ≠ asterisk),
    body.dropWhile (· ≠ asterisk), ?_, ?_, ?_, ?_, ?_, fun fuel => ?_⟩
  · rw [List.append_assoc, splitBody, split]
  · exact fun member => absurd (List.mem_takeWhile_imp member) (by decide)
  · by_cases star : b = asterisk
    · simp [star]
    · simp [star]
  · intro empty
    cases body with
    | nil => rfl
    | cons c body =>
      have other : c ≠ asterisk := by simpa using notStar
      simp [other] at empty
  · intro some'
    cases rest_def : body.dropWhile (· ≠ asterisk) with
    | nil => exact absurd rest_def some'
    | cons c rest =>
      rw [rest_def] at star
      simpa using star
  · have plainChunk : Plain (body.takeWhile (· ≠ asterisk)) := (splitBody.symm ▸ plainBody).append.1
    rw [parsed, parseChunk_plain plainChunk (Nat.le_refl _)]
    cases parse fuel (body.dropWhile (· ≠ asterisk)) with
    | none => rfl
    | some later => simp

/-- A chunk that stands in the text, behind what its star takes. -/
theorem matchSegments_cons {star : Bool} {later : List Segment} (none : separator ∉ pre)
    (starts : star = true ↔ pre ≠ []) (ends : later = [] ↔ rest = [])
    (only : star = true → chunk = [] → rest = [])
    (goes : ∀ extra, separator ∉ extra → (rest = [] → extra = []) →
      matchSegments later (extra ++ rest) = true) :
    matchSegments (⟨star, chunk.map elem⟩ :: later) (pre ++ chunk ++ rest) = true := by
  have last : later.isEmpty = true → rest = [] := fun empty => ends.mp (List.isEmpty_iff.mp empty)
  have goesOn : ∀ {s pre'}, separator ∉ pre' →
      matchHere (chunk.map elem) later.isEmpty (pre' ++ chunk ++ rest) = some s →
      matchSegments later s = true := by
    intro s pre' none' here
    obtain ⟨found, whole⟩ := matchHere_some here
    obtain ⟨extra, rfl, fine⟩ := matchChunk_extra found none'
    refine goes extra fine fun empty => ?_
    exact (List.append_eq_nil_iff.mp (whole (List.isEmpty_iff.mpr (ends.mpr empty)))).1
  rw [matchSegments]
  split
  · rename_i trailing
    obtain rfl := List.map_eq_nil_iff.mp trailing.2
    rw [only trailing.1 rfl]
    simpa using none
  · cases here : matchHere (chunk.map elem) later.isEmpty (pre ++ chunk ++ rest) with
    | some s => exact goesOn none here
    | none =>
      dsimp only
      cases star with
      | false =>
        obtain rfl : pre = [] := of_not_not fun some' => absurd (starts.mpr some') (by simp)
        rw [List.nil_append, matchHere_self last] at here
        cases here
      | true =>
        obtain ⟨s, pre', skipped, none', found⟩ := skipTo_some none (starts.mp rfl) last
        rw [if_pos rfl, skipped]
        exact goesOn none' found

/-- A plain pattern matches itself, and its first star takes more. -/
theorem matchSegments_self (plain : Plain pattern) (enough : pattern.length ≤ fuel)
    (none : separator ∉ pre) (starts : pattern.head? ≠ some asterisk → pre = []) :
    ∃ segs, parse fuel pattern = some segs ∧ matchSegments segs (pre ++ pattern) = true := by
  induction fuel generalizing pattern pre with
  | zero =>
    obtain rfl := List.length_eq_zero_iff.mp (Nat.le_zero.mp enough)
    obtain rfl := starts (by simp)
    exact ⟨[], rfl, rfl⟩
  | succ fuel ih =>
    cases pattern with
    | nil =>
      obtain rfl := starts (by simp)
      exact ⟨[], rfl, rfl⟩
    | cons b text =>
      obtain ⟨stars, chunk, rest, split, clear, starred, only, next, parsed⟩ := exists_chunk plain
      have shorter : rest.length ≤ fuel := by
        have lengths := congrArg List.length split
        simp only [List.length_append, List.length_cons] at lengths enough
        cases chunk with
        | nil => simp [only rfl]
        | cons c chunk =>
          rw [List.length_cons] at lengths
          omega
      have plainRest : Plain rest := (split ▸ plain).append.2
      have goes := fun extra => @ih rest extra plainRest shorter
      obtain ⟨later, found, -⟩ := goes [] List.not_mem_nil fun _ => rfl
      rw [parsed, found]
      refine ⟨_, rfl, ?_⟩
      rw [split, ← List.append_assoc, ← List.append_assoc]
      apply matchSegments_cons
      · rw [List.mem_append, not_or]
        exact ⟨none, clear⟩
      · rw [decide_eq_true_iff, starred, ne_eq, ne_eq, List.append_eq_nil_iff, not_and]
        refine ⟨fun some' _ => some', fun some' empty => ?_⟩
        have other : (b :: text).head? ≠ some asterisk := by
          simpa [empty] using starred
        exact some' (starts other) empty
      · refine ⟨fun empty => parse_eq_nil (empty ▸ found), ?_⟩
        rintro rfl
        cases fuel with
        | zero => exact (Option.some.inj found).symm
        | succ fuel => exact (Option.some.inj found).symm
      · exact fun _ => only
      · intro extra fine ends
        obtain ⟨again, found', matched⟩ := goes extra fine fun other =>
          ends (of_not_not fun some' => other (next some'))
        rw [found] at found'
        obtain rfl := Option.some.inj found'
        exact matched

theorem filepathMatch_self (plain : Plain pattern) : filepathMatch pattern pattern = some true := by
  obtain ⟨segs, parsed, matched⟩ :=
    matchSegments_self plain (Nat.le_refl _) List.not_mem_nil fun _ => rfl
  rw [filepathMatch, parsed, Option.map_some]
  exact congrArg some matched

end Plain

end FirewallCore.Lib.Glob
