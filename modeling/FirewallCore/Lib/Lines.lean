import Mathlib.Algebra.Order.Ring.Nat
import Mathlib.Data.List.Infix
import Mathlib.Data.UInt

/-!
Lines in a string of bytes, by the positions of their line breaks.

A line is a pair of positions: where it starts and where its line break is. The
two scans look for the start of the line to the left of a position and for its
line break to the right. They see a part of the text only, so what they find is
stated by single bytes and not by the text as a whole.
-/

namespace FirewallCore.Lib

/-- The bytes of lines, each with its line break. -/
def unlines (lines : List (List UInt8)) : List UInt8 := lines.flatMap (· ++ [10])

/-- The line from `start` on has its line break at `stop`. -/
structure IsLine (text : List UInt8) (start stop : Nat) : Prop where
  le : start ≤ stop
  begins : start = 0 ∨ text[start - 1]? = some 10
  inside : ∀ i, start ≤ i → i < stop → text[i]? ≠ some 10
  ends : text[stop]? = some 10

/-- The bytes from one position to another. -/
def between (text : List UInt8) (start stop : Nat) : List UInt8 := (text.take stop).drop start

/-- The buffer has the bytes of the text from `offset` on, `n` of them or as many as there
are. -/
def Window (text buffer : List UInt8) (offset n : Nat) : Prop :=
  ∀ i, i < n → offset + i < text.length → buffer[i]? = text[offset + i]?

/-- Goes left from a position to the start of its line. -/
def lineStart (buffer : List UInt8) : Nat → Nat
  | 0 => 0
  | i + 1 => if buffer[i]? = some 10 then i + 1 else lineStart buffer i

/-- Goes right from a position to the next line break. -/
def lineEnd (buffer : List UInt8) (n : Nat) : Option Nat :=
  ((buffer.drop n).findIdx? (· == 10)).map (n + ·)

section Lines

variable {text buffer : List UInt8} {start stop n : Nat}

@[simp] theorem unlines_nil : unlines [] = [] := rfl

theorem unlines_append (A B : List (List UInt8)) : unlines (A ++ B) = unlines A ++ unlines B := by
  simp [unlines]

theorem unlines_cons (line : List UInt8) (rest : List (List UInt8)) :
    unlines (line :: rest) = line ++ 10 :: unlines rest := by
  simp [unlines]

theorem unlines_concat (A : List (List UInt8)) (line : List UInt8) :
    (unlines (A ++ [line])).length = (unlines A).length + line.length + 1 := by
  rw [unlines_append, unlines_cons]
  simp
  omega

/-- Lines end in a line break. -/
theorem unlines_last (A : List (List UInt8)) :
    (unlines A).length = 0 ∨ (unlines A)[(unlines A).length - 1]? = some 10 := by
  rcases List.eq_nil_or_concat A with rfl | ⟨front, line, rfl⟩
  · exact .inl rfl
  · right
    rw [List.concat_eq_append, unlines_concat, unlines_append, unlines_cons]
    simp

theorem isLine_unlines (A : List (List UInt8)) {line : List UInt8} (single : 10 ∉ line)
    (C : List (List UInt8)) :
    IsLine (unlines (A ++ line :: C)) (unlines A).length ((unlines A).length + line.length) := by
  have split_ : unlines (A ++ line :: C) = unlines A ++ (line ++ 10 :: unlines C) := by
    rw [unlines_append, unlines_cons]
  refine ⟨Nat.le_add_right _ _, ?_, ?_, ?_⟩
  · rcases unlines_last A with empty | break_
    · exact .inl empty
    · right
      have inside : (unlines A).length - 1 < (unlines A).length := by
        by_contra outside
        rw [List.getElem?_eq_none (by omega)] at break_
        cases break_
      rw [split_, List.getElem?_append_left inside]
      exact break_
  · intro i low high
    rw [split_, List.getElem?_append_right low, List.getElem?_append_left (by omega)]
    intro found
    exact single (List.mem_of_getElem? found)
  · rw [split_, List.getElem?_append_right (by omega), List.getElem?_append_right (by omega)]
    simp

theorem between_unlines (A : List (List UInt8)) (line : List UInt8) (C : List (List UInt8)) :
    between (unlines (A ++ line :: C)) (unlines A).length ((unlines A).length + line.length) = line := by
  rw [unlines_append, unlines_cons, between, List.take_length_add_append, List.drop_left,
    List.take_left]

/-- The scan to the left stops behind the line break that it meets first. -/
theorem lineStart_eq (le : start ≤ n) (begins : start = 0 ∨ buffer[start - 1]? = some 10)
    (inside : ∀ i, start ≤ i → i < n → buffer[i]? ≠ some 10) : lineStart buffer n = start := by
  induction n with
  | zero => exact (Nat.le_zero.mp le).symm
  | succ n ih =>
    rcases Nat.lt_or_ge n start with here | later
    · have same : start = n + 1 := by omega
      subst same
      rcases begins with zero | break_
      · cases zero
      · rw [lineStart, if_pos (by simpa using break_)]
    · rw [lineStart, if_neg (inside n later (Nat.lt_succ_self n))]
      exact ih later fun i low high => inside i low (by omega)

theorem lineEnd_eq (le : n ≤ stop) (inside : ∀ i, n ≤ i → i < stop → buffer[i]? ≠ some 10)
    (ends : buffer[stop]? = some 10) : lineEnd buffer n = some stop := by
  have found : (buffer.drop n).findIdx? (· == 10) = some (stop - n) := by
    obtain ⟨fits, value⟩ := List.getElem?_eq_some_iff.mp ends
    rw [List.findIdx?_eq_some_iff_getElem]
    refine ⟨by simp; omega, by simp [show n + (stop - n) = stop by omega, value], ?_⟩
    intro j earlier
    have other := inside (n + j) (by omega) (by omega)
    rw [List.getElem?_eq_getElem (by omega)] at other
    simpa using other
  rw [lineEnd, found, Option.map_some, Nat.add_sub_cancel' le]

theorem lineEnd_none (inside : ∀ i, n ≤ i → buffer[i]? ≠ some 10) : lineEnd buffer n = none := by
  rw [lineEnd, Option.map_eq_none_iff, List.findIdx?_eq_none_iff]
  intro byte member
  obtain ⟨i, found⟩ := List.mem_iff_getElem?.mp member
  rw [List.getElem?_drop] at found
  have other := inside (n + i) (Nat.le_add_right _ _)
  rw [found] at other
  simpa using other

/-! ### Lines that lie in a window -/

section Windows

variable {offset p : Nat}

theorem Window.getElem? (window : Window text buffer offset n) {i : Nat} (low : offset ≤ i)
    (high : i < offset + n) (present : i < text.length) : buffer[i - offset]? = text[i]? := by
  rw [window _ (by omega) (by omega)]
  congr 1
  omega

theorem IsLine.stop_lt (line : IsLine text start stop) : stop < text.length :=
  (List.getElem?_eq_some_iff.mp line.ends).1

theorem Window.lineStart (window : Window text buffer offset n) (line : IsLine text start stop)
    (low : offset ≤ start) (left_ : start ≤ p) (right_ : p ≤ stop) (high : p ≤ offset + n) :
    lineStart buffer (p - offset) = start - offset := by
  have present := line.stop_lt
  apply lineStart_eq (by omega)
  · rcases line.begins with zero | break_
    · left
      omega
    · by_cases first : start - offset = 0
      · exact .inl first
      · right
        rw [← break_, ← window.getElem? (i := start - 1) (by omega) (by omega) (by omega)]
        congr 1
        omega
  · intro i above below
    have inside := line.inside (offset + i) (by omega) (by omega)
    rwa [← window i (by omega) (by omega)] at inside

theorem Window.lineEnd (window : Window text buffer offset n) (line : IsLine text start stop)
    (low : offset ≤ p) (left_ : start ≤ p) (right_ : p ≤ stop) (high : stop < offset + n) :
    lineEnd buffer (p - offset) = some (stop - offset) := by
  have present := line.stop_lt
  apply lineEnd_eq (by omega)
  · intro i above below
    have inside := line.inside (offset + i) (by omega) (by omega)
    rwa [← window i (by omega) (by omega)] at inside
  · rw [window.getElem? (by omega) high present]
    exact line.ends

theorem Window.between (window : Window text buffer offset n) (line : IsLine text start stop)
    (low : offset ≤ start) (high : stop ≤ offset + n) :
    between buffer (start - offset) (stop - offset) = between text start stop := by
  have present := line.stop_lt
  apply List.ext_getElem?
  intro i
  unfold Lib.between
  rw [List.getElem?_drop, List.getElem?_drop]
  by_cases below : start + i < stop
  · rw [List.getElem?_take_of_lt (by omega), List.getElem?_take_of_lt below,
      ← window.getElem? (i := start + i) (by omega) (by omega) (by omega)]
    congr 1
    omega
  · rw [List.getElem?_take_eq_none (by omega), List.getElem?_take_eq_none (by omega)]

end Windows

end Lines

end FirewallCore.Lib

/-!
The lines that a text is read as, and what is trimmed from the ends of a line.

A text is read line by line; the last line need not have a line break. What is
trimmed is given by the words that it consists of, so that white space of several
bytes is trimmed as a whole. Both are stable: the lines of a text that is made of
lines are these lines, and what is trimmed is trimmed.
-/

namespace FirewallCore.Lib

/-- The lines of a text, without their line breaks. -/
def textLines : List UInt8 → List (List UInt8)
  | [] => []
  | b :: rest =>
    if b = 10 then [] :: textLines rest
    else
      match textLines rest with
      | [] => [[b]]
      | line :: lines => (b :: line) :: lines

section TextLines

variable {line rest : List UInt8}

theorem textLines_break : textLines (10 :: rest) = [] :: textLines rest := by
  rw [textLines, if_pos rfl]

/-- A line ends at its line break. -/
theorem textLines_append (single : 10 ∉ line) (rest : List UInt8) :
    textLines (line ++ 10 :: rest) = line :: textLines rest := by
  induction line with
  | nil => exact textLines_break
  | cons b line ih =>
    rw [List.mem_cons, not_or] at single
    rw [List.cons_append, textLines, if_neg (Ne.symm single.1), ih single.2]

theorem textLines_unlines {lines : List (List UInt8)} (single : ∀ line ∈ lines, 10 ∉ line) :
    textLines (unlines lines) = lines := by
  induction lines with
  | nil => rfl
  | cons line lines ih =>
    rw [List.forall_mem_cons] at single
    rw [unlines_cons, textLines_append single.1, ih single.2]

theorem no_break_of_mem_textLines {text : List UInt8} (mem : line ∈ textLines text) :
    10 ∉ line := by
  induction text generalizing line with
  | nil => cases mem
  | cons b text ih =>
    rw [textLines] at mem
    split at mem
    · rcases List.mem_cons.mp mem with rfl | later
      · exact List.not_mem_nil
      · exact ih later
    · rename_i other
      split at mem
      · rw [List.mem_singleton.mp mem]
        simpa using Ne.symm other
      · rename_i first lines found
        rw [found] at ih
        rcases List.mem_cons.mp mem with rfl | later
        · rw [List.mem_cons, not_or]
          exact ⟨Ne.symm other, ih List.mem_cons_self⟩
        · exact ih (List.mem_cons_of_mem _ later)

end TextLines

/-! ### The end of a text -/

/-- A text that is empty or ends with a line break. -/
def Terminated (text : List UInt8) : Prop := text = [] ∨ text.getLast? = some 10

instance (text : List UInt8) : Decidable (Terminated text) := inferInstanceAs (Decidable (_ ∨ _))

/-- The lines of a text that are kept. A last line without a line break is written without one. -/
def keepLines (keep : List UInt8 → Bool) (text : List UInt8) : List UInt8 :=
  let lines := textLines text
  if Terminated text then unlines (lines.filter keep)
  else unlines (lines.dropLast.filter keep) ++ (lines.getLast?.filter keep).getD []

section Terminated

variable {text : List UInt8}

theorem terminated_cons (b : UInt8) :
    Terminated (b :: text) ↔ text = [] ∧ b = 10 ∨ text ≠ [] ∧ Terminated text := by
  cases text with
  | nil => simp [Terminated]
  | cons b' text => simp [Terminated, List.getLast?_cons_cons]

theorem textLines_eq_nil_iff : textLines text = [] ↔ text = [] := by
  cases text with
  | nil => simp [textLines]
  | cons b text =>
    rw [textLines]
    split
    · simp
    · split <;> simp

/-- What is behind a terminated text makes lines of its own. -/
theorem textLines_append_terminated (ended : Terminated text) (rest : List UInt8) :
    textLines (text ++ rest) = textLines text ++ textLines rest := by
  induction text with
  | nil => rfl
  | cons b text ih =>
    rcases (terminated_cons b).mp ended with ⟨rfl, rfl⟩ | ⟨more, ended⟩
    · rw [List.singleton_append, textLines_break]
      rfl
    · rw [List.cons_append, textLines, textLines, ih ended]
      split
      · rfl
      · cases first : textLines text with
        | nil => exact absurd (textLines_eq_nil_iff.mp first) more
        | cons line lines => rfl

/-- The line breaks count the lines, but for a last line without one. -/
theorem length_textLines (text : List UInt8) :
    (textLines text).length = text.count 10 + if Terminated text then 0 else 1 := by
  induction text with
  | nil => simp [textLines, Terminated]
  | cons b text ih =>
    have ended : Terminated (b :: text) ↔ text = [] ∧ b = 10 ∨ text ≠ [] ∧ Terminated text :=
      terminated_cons b
    rw [textLines]
    by_cases here : b = 10
    · have same : Terminated (b :: text) ↔ Terminated text := by
        rw [ended]
        by_cases empty : text = [] <;> simp [empty, here, Terminated]
      simp only [here, if_true, List.length_cons, ih, List.count_cons_self, ← same]
      omega
    · rw [if_neg here, List.count_cons_of_ne here]
      cases first : textLines text with
      | nil =>
        have empty := textLines_eq_nil_iff.mp first
        have unended : ¬Terminated (b :: text) := by
          rw [ended]
          rintro (⟨-, rfl⟩ | ⟨more, -⟩)
          · exact here rfl
          · exact more empty
        rw [if_neg unended, empty]
        rfl
      | cons line lines =>
        have more : text ≠ [] := by
          rintro rfl
          cases first
        rw [first] at ih
        simp only [ended, more, here, and_false, ne_eq, not_false_eq_true, true_and, false_or]
        exact ih

/-- A text without a line break at its end ends with a line that is not empty. -/
theorem getLast?_textLines (ended : ¬Terminated text) :
    ∃ lines line, textLines text = lines ++ [line] ∧ line ≠ [] := by
  induction text with
  | nil => exact absurd (.inl rfl) ended
  | cons b text ih =>
    rw [terminated_cons, not_or, not_and, not_and] at ended
    rw [textLines]
    by_cases empty : text = []
    · rw [empty, if_neg (ended.1 empty)]
      exact ⟨[], [b], rfl, List.cons_ne_nil _ _⟩
    · obtain ⟨lines, line, found, nonempty⟩ := ih (ended.2 empty)
      rw [found]
      split
      · exact ⟨[] :: lines, line, rfl, nonempty⟩
      · cases lines with
        | nil => exact ⟨[], b :: line, rfl, List.cons_ne_nil _ _⟩
        | cons first lines => exact ⟨(b :: first) :: lines, line, rfl, nonempty⟩

theorem textLines_single {line : List UInt8} (single : 10 ∉ line) (nonempty : line ≠ []) :
    textLines line = [line] := by
  induction line with
  | nil => exact absurd rfl nonempty
  | cons b line ih =>
    rw [List.mem_cons, not_or] at single
    rw [textLines, if_neg (Ne.symm single.1)]
    by_cases empty : line = []
    · rw [empty]
      rfl
    · rw [ih single.2 empty]

theorem terminated_unlines (lines : List (List UInt8)) : Terminated (unlines lines) := by
  rcases List.eq_nil_or_concat lines with rfl | ⟨A, line, rfl⟩
  · exact .inl rfl
  · right
    rw [List.concat_eq_append, unlines_append, unlines_cons]
    simp

/-- The lines that are kept are the lines of what is written. -/
theorem textLines_keepLines (keep : List UInt8 → Bool) (text : List UInt8) :
    textLines (keepLines keep text) = (textLines text).filter keep := by
  have single : ∀ line ∈ textLines text, 10 ∉ line := fun _ => no_break_of_mem_textLines
  unfold keepLines
  split
  · exact textLines_unlines fun line mem => single line (List.mem_of_mem_filter mem)
  · rename_i ended
    obtain ⟨lines, line, found, nonempty⟩ := getLast?_textLines ended
    rw [found] at single ⊢
    have before : ∀ l ∈ lines.filter keep, 10 ∉ l := fun l mem =>
      single l (List.mem_append_left _ (List.mem_of_mem_filter mem))
    have last : textLines (((some line).filter keep).getD []) = [line].filter keep := by
      by_cases kept : keep line = true
      · simpa [Option.filter, kept] using
          textLines_single (single line (List.mem_append_right _ List.mem_cons_self)) nonempty
      · simp [Option.filter, kept, textLines]
    dsimp only
    rw [List.dropLast_concat, List.getLast?_concat,
      textLines_append_terminated (terminated_unlines _), textLines_unlines before, last,
      List.filter_append]

end Terminated

/-! ### Trimming -/

section Trim

variable {α : Type} [DecidableEq α]

/-- The length of a word that a text begins with, and zero if there is none. -/
def wordAt (words : List (List α)) (s : List α) : Nat :=
  ((words.find? fun word => word.isPrefixOf s).getD []).length

/-- Drops a number of letters and then the words that the text begins with. -/
def dropWords (words : List (List α)) : Nat → List α → List α
  | _, [] => []
  | skip + 1, _ :: rest => dropWords words skip rest
  | 0, c :: rest =>
    match wordAt words (c :: rest) with
    | 0 => c :: rest
    | skip + 1 => dropWords words skip rest

/-- Trims words from the start. -/
def trimStart (words : List (List α)) (s : List α) : List α := dropWords words 0 s

/-- Trims words from the end. -/
def trimEnd (words : List (List α)) (s : List α) : List α :=
  (trimStart (words.map List.reverse) s.reverse).reverse

/-- Trims words from both ends. -/
def trimWords (words : List (List α)) (s : List α) : List α := trimEnd words (trimStart words s)

variable {words : List (List α)} {s t : List α}

theorem dropWords_suffix (skip : Nat) (s : List α) : dropWords words skip s <:+ s := by
  induction s generalizing skip with
  | nil => cases skip <;> exact List.suffix_refl _
  | cons c s ih =>
    cases skip with
    | succ skip => exact (ih skip).trans (List.suffix_cons c s)
    | zero =>
      unfold dropWords
      split
      · exact List.suffix_refl _
      · exact (ih _).trans (List.suffix_cons c s)

/-- What is left does not begin with a word. -/
theorem wordAt_dropWords (skip : Nat) (s : List α) (any : dropWords words skip s ≠ []) :
    wordAt words (dropWords words skip s) = 0 := by
  induction s generalizing skip with
  | nil => cases skip <;> exact absurd rfl any
  | cons c s ih =>
    cases skip with
    | succ skip => exact ih skip any
    | zero =>
      unfold dropWords at any ⊢
      split
      · assumption
      · rename_i skip word
        rw [word] at any
        exact ih skip any

theorem trimStart_of_wordAt (none : s = [] ∨ wordAt words s = 0) : trimStart words s = s := by
  cases s with
  | nil => rfl
  | cons c s =>
    have none := none.resolve_left (List.cons_ne_nil c s)
    unfold trimStart dropWords
    rw [none]

theorem trimStart_trimStart (s : List α) :
    trimStart words (trimStart words s) = trimStart words s := by
  apply trimStart_of_wordAt
  by_cases empty : trimStart words s = []
  · exact .inl empty
  · exact .inr (wordAt_dropWords 0 s empty)

theorem trimStart_suffix (s : List α) : trimStart words s <:+ s := dropWords_suffix 0 s

theorem trimEnd_isPrefix (s : List α) : trimEnd words s <+: s := by
  rw [trimEnd, ← List.reverse_suffix, List.reverse_reverse]
  exact trimStart_suffix _

theorem trimEnd_trimEnd (s : List α) : trimEnd words (trimEnd words s) = trimEnd words s := by
  rw [trimEnd, trimEnd, List.reverse_reverse, trimStart_trimStart]

theorem wordAt_eq_zero (proper : [] ∉ words) :
    wordAt words s = 0 ↔ ∀ word ∈ words, ¬word <+: s := by
  unfold wordAt
  cases found : words.find? fun word => word.isPrefixOf s with
  | none => simpa using found
  | some word =>
    have member := List.mem_of_find?_eq_some found
    have begins : word.isPrefixOf s = true := 
      List.find?_some (p := fun word : List α => word.isPrefixOf s) found
    have first := List.isPrefixOf_iff_prefix.mp begins
    have nonempty : word ≠ [] := by
      rintro rfl
      exact proper member
    constructor
    · intro empty
      exact absurd (List.eq_nil_of_length_eq_zero empty) nonempty
    · intro others
      exact absurd first (others word member)

/-- What is trimmed at both ends does not change when it is trimmed again. -/
theorem trimWords_trimWords (proper : [] ∉ words) (s : List α) :
    trimWords words (trimWords words s) = trimWords words s := by
  have start : trimStart words (trimWords words s) = trimWords words s := by
    apply trimStart_of_wordAt
    by_cases empty : trimStart words s = []
    · left
      rw [trimWords, empty]
      rfl
    · right
      have none := (wordAt_eq_zero proper).mp (wordAt_dropWords 0 s empty)
      rw [wordAt_eq_zero proper]
      intro word member begins
      exact none word member (begins.trans (trimEnd_isPrefix (trimStart words s)))
  rw [trimWords, start]
  exact trimEnd_trimEnd (trimStart words s)

/-- No word is left at the end. -/
theorem not_suffix_trimWords (proper : [] ∉ words) (any : trimWords words s ≠ []) :
    ∀ word ∈ words, ¬word <:+ trimWords words s := by
  intro word member ends
  have mirrored : [] ∉ words.map List.reverse := by simpa using proper
  have left : trimStart (words.map List.reverse) (trimStart words s).reverse ≠ [] := by
    simpa [trimWords, trimEnd] using any
  have none := (wordAt_eq_zero mirrored).mp (wordAt_dropWords 0 _ left)
  apply none word.reverse (List.mem_map_of_mem member)
  rw [trimWords, trimEnd, ← List.reverse_prefix, List.reverse_reverse] at ends
  exact ends

theorem trimWords_isInfix (s : List α) : trimWords words s <:+: s :=
  (trimEnd_isPrefix _).isInfix.trans (trimStart_suffix s).isInfix

end Trim

end FirewallCore.Lib
