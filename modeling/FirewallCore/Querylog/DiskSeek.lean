import FirewallCore.Lib.Rfc3339
import FirewallCore.Querylog.Entry
import FirewallCore.Querylog.DiskReader

/-!
The binary search for a record in a log file, by its bytes (`seekTS`).

A probe reads two maximal entries around a position and takes the line there. The
scope of the search is always bounded by two lines: the lines before it are too
early, the lines behind it are too late, and the line that was probed last is
outside. A scope without lines is left over if there is no record, and then a line
is probed twice, or the end of the file is reached.
-/

namespace FirewallCore.Querylog.Disk

open FirewallCore.Lib
open FirewallCore.Querylog.Search (maxEntrySize)

/-- The errors of `seekTS`. A search that is too deep is also `errTSNotFound` for callers, and
is kept apart here. -/
inductive SeekErr where
  | tooEarly
  | notFound
  | tooLate
  | emptyTimestamp
  | tooDeep
  | read (err : ReadErr)
  deriving DecidableEq, Repr

/-- `readProbeLine`: the line at a position, where it starts, and where the next one does. -/
def readProbeLine (file : List UInt8) (position : Nat) : Except ReadErr (List UInt8 × Nat × Nat) :=
  let seekPosition := if maxEntrySize < position then position - maxEntrySize else 0
  let relativePos := if maxEntrySize < position then maxEntrySize else position
  match readAt file seekPosition (maxEntrySize * 2) with
  | none => .error .eof
  | some data =>
    let buffer := data ++ List.replicate (maxEntrySize * 2 - data.length) 0
    let startLine := lineStart buffer relativePos
    let (endLine, lineEndIdx) :=
      match lineEnd data relativePos with
      | some i => (i, i + seekPosition + 1)
      | none => (data.length, data.length + seekPosition)
    if endLine < startLine then .error .panic
    else .ok (between buffer startLine endLine, startLine + seekPosition, lineEndIdx)

/-- `validateQLogLineIdx`. There is no last probe in the first round. -/
def validateQLogLineIdx (lineIdx : Nat) (lastProbeLineIdx : Option Nat) (fSize : Nat) : Option SeekErr :=
  if lastProbeLineIdx = some lineIdx then
    if lineIdx = 0 then some .tooEarly else some .notFound
  else if lineIdx = fSize then some .tooLate
  else none

/-- The loop of `seekTS`, with the number of rounds up to the greatest depth. It returns the
position behind the line. -/
def seekLoop (timeParse : List UInt8 → Option Int) (file : List UInt8) (timestamp : Int) :
    Nat → Nat → Nat → Option Nat → Except SeekErr Nat
  | 0, _, _, _ => .error .tooDeep
  | rounds + 1, start, stop, lastProbeLineIdx =>
    match readProbeLine file (start + (stop - start) / 2) with
    | .error err => .error (.read err)
    | .ok (line, lineIdx, lineEndIdx) =>
      match validateQLogLineIdx lineIdx lastProbeLineIdx file.length with
      | some err => .error err
      | none =>
        let ts := readQLogTimestamp timeParse line
        if ts = 0 then .error .emptyTimestamp
        else if ts = timestamp then .ok (lineIdx + line.length)
        else if timestamp < ts then seekLoop timeParse file timestamp rounds start lineIdx (some lineIdx)
        else seekLoop timeParse file timestamp rounds lineEndIdx stop (some lineIdx)

/-- `seekTS`. -/
def QLogFile.seekTS (timeParse : List UInt8 → Option Int) (q : QLogFile) (timestamp : Int) :
    QLogFile × Except SeekErr Nat :=
  let q := { q with buffer := none }
  match seekLoop timeParse q.file timestamp 100 0 q.file.length none with
  | .error err => (q, .error err)
  | .ok position => ({ q with position }, .ok position)

/-! ### Probes -/

section Probe

variable {file : List UInt8} {start stop p : Nat}

/-- What a probe reads. -/
def probeData (file : List UInt8) (p : Nat) : List UInt8 :=
  (file.drop (p - maxEntrySize)).take (maxEntrySize * 2)

/-- The buffer that a probe reads into. -/
def probeBuffer (file : List UInt8) (p : Nat) : List UInt8 :=
  probeData file p ++ List.replicate (maxEntrySize * 2 - (probeData file p).length) 0

theorem window_probeBuffer : Window file (probeBuffer file p) (p - maxEntrySize) (maxEntrySize * 2) :=
  window_readAt _ _ _ _

theorem window_probeData : Window file (probeData file p) (p - maxEntrySize) (maxEntrySize * 2) := by
  have data := window_readAt file [] (p - maxEntrySize) (maxEntrySize * 2)
  rwa [List.append_nil] at data

theorem seekPosition_eq : (if maxEntrySize < p then p - maxEntrySize else 0) = p - maxEntrySize := by
  split <;> omega

theorem relativePos_eq : (if maxEntrySize < p then maxEntrySize else p) = p - (p - maxEntrySize) := by
  split <;> omega

/-- A position in the file, or at its end, can be probed. -/
theorem readAt_probe (some_ : 0 < file.length) (inside : p ≤ file.length) :
    readAt file (p - maxEntrySize) (maxEntrySize * 2) = some (probeData file p) := by
  have room : 0 < maxEntrySize := by decide
  exact readAt_some (by omega) (by omega)

/-- A probe finds the line that the position is in, also on its line break. -/
theorem readProbeLine_line (line : IsLine file start stop) (short : stop - start < maxEntrySize)
    (left_ : start ≤ p) (right_ : p ≤ stop) :
    readProbeLine file p = .ok (between file start stop, start, stop + 1) := by
  have present := line.stop_lt
  have room : 0 < maxEntrySize := by decide
  have near : p - maxEntrySize ≤ start ∧ p ≤ p - maxEntrySize + maxEntrySize := by omega
  have read : readAt file (p - maxEntrySize) (maxEntrySize * 2) = some (probeData file p) :=
    readAt_probe (by omega) (by omega)
  have buffer := @window_probeBuffer file p
  have data := @window_probeData file p
  unfold readProbeLine
  simp only [seekPosition_eq, relativePos_eq]
  generalize p - maxEntrySize = offset at near read buffer data ⊢
  rw [read]
  dsimp only
  rw [← probeBuffer, buffer.lineStart line near.1 left_ right_ (by omega),
    data.lineEnd line (by omega) left_ right_ (by omega)]
  dsimp only
  rw [if_neg (by omega), buffer.between line near.1 (by omega)]
  congr 3 <;> omega

/-- A probe behind the last line finds nothing there. -/
theorem readProbeLine_end (ends : file[file.length - 1]? = some 10) :
    readProbeLine file file.length = .ok ([], file.length, file.length) := by
  obtain ⟨some_, -⟩ := List.getElem?_eq_some_iff.mp ends
  have room : 0 < maxEntrySize := by decide
  have near : file.length - maxEntrySize < file.length ∧
      file.length ≤ file.length - maxEntrySize + maxEntrySize := by omega
  have read := readAt_probe (by omega) (Nat.le_refl file.length)
  have buffer := @window_probeBuffer file file.length
  have length : (probeData file file.length).length = file.length - (file.length - maxEntrySize) := by
    simp only [probeData, List.length_take, List.length_drop]
    omega
  unfold readProbeLine
  simp only [seekPosition_eq, relativePos_eq]
  generalize file.length - maxEntrySize = offset at near read buffer length ⊢
  have behind : lineEnd (probeData file file.length) (file.length - offset) = none := by
    apply lineEnd_none
    intro i above
    rw [List.getElem?_eq_none (by omega)]
    exact (Option.some_ne_none _).symm
  have first : lineStart (probeBuffer file file.length) (file.length - offset) =
      file.length - offset := by
    refine lineStart_eq (Nat.le_refl _) (.inr ?_) fun i above below => by omega
    have last : offset + (file.length - offset - 1) = file.length - 1 := by omega
    rw [buffer _ (by omega) (by omega), last, ends]
  have whole : file.length - offset + offset = file.length := by omega
  rw [read]
  dsimp only
  rw [← probeBuffer, first, behind, length]
  dsimp only
  rw [if_neg (by omega), between, List.drop_take_self, whole]

/-- An empty file cannot be probed. -/
theorem readProbeLine_empty : readProbeLine [] p = .error .eof := by
  simp [readProbeLine, readAt]

end Probe

/-! ### The search -/

section Seek

variable {timeParse : List UInt8 → Option Int} {timestamp : Int} {A B C lines : List (List UInt8)}
  {last : Option Nat}

/-- The size of lines with their line breaks. -/
def size (lines : List (List UInt8)) : Nat := (unlines lines).length

theorem length_unlines (lines : List (List UInt8)) : (unlines lines).length = size lines := rfl

@[simp] theorem size_nil : size [] = 0 := rfl

theorem size_append (A B : List (List UInt8)) : size (A ++ B) = size A + size B := by
  unfold size
  rw [unlines_append, List.length_append]

theorem size_cons (line : List UInt8) (rest : List (List UInt8)) :
    size (line :: rest) = line.length + 1 + size rest := by
  unfold size
  rw [unlines_cons, List.length_append, List.length_cons]
  omega

/-- A position inside lines falls into one of them or on its line break. -/
theorem split_at {p : Nat} (inside : p < size B) :
    ∃ b line b', B = b ++ line :: b' ∧ size b ≤ p ∧ p ≤ size b + line.length := by
  induction B generalizing p with
  | nil => exact absurd inside (Nat.not_lt_zero p)
  | cons line rest ih =>
    by_cases here : p ≤ line.length
    · exact ⟨[], line, rest, rfl, Nat.zero_le p, by simpa using here⟩
    · rw [size_cons] at inside
      obtain ⟨b, found, b', split_, low, high⟩ := ih (p := p - (line.length + 1)) (by omega)
      refine ⟨line :: b, found, b', by rw [split_, List.cons_append], ?_, ?_⟩
      · rw [size_cons]
        omega
      · rw [size_cons]
        omega

/-- What lines of a log are: without line breaks inside, and with theirs not larger than an
entry may be. -/
def Entries (lines : List (List UInt8)) : Prop := ∀ line ∈ lines, 10 ∉ line ∧ line.length + 1 ≤ maxEntrySize

/-- A probe in lines of which one is known to be at the position. -/
theorem readProbeLine_unlines {b b' : List (List UInt8)} {line : List UInt8} {p : Nat}
    (good : Entries (b ++ line :: b')) (low : size b ≤ p) (high : p ≤ size b + line.length) :
    readProbeLine (unlines (b ++ line :: b')) p = .ok (line, size b, size b + line.length + 1) := by
  obtain ⟨single, short⟩ := good line (by simp)
  rw [readProbeLine_line (isLine_unlines b single b') (by omega) low high, between_unlines]
  rfl

/-- What the search should end with. A record of the time zero counts as one without a time. -/
inductive Outcome (timeParse : List UInt8 → Option Int) (timestamp : Int) (lines : List (List UInt8)) :
    Except SeekErr Nat → Prop where
  | found (b : List (List UInt8)) (line : List UInt8) (b' : List (List UInt8)) (split_ : lines = b ++ line :: b')
      (here : readQLogTimestamp timeParse line = timestamp) (some_ : timestamp ≠ 0) :
      Outcome timeParse timestamp lines (.ok (size b + line.length))
  | zero (line : List UInt8) (member : line ∈ lines) (here : readQLogTimestamp timeParse line = timestamp)
      (none : timestamp = 0) : Outcome timeParse timestamp lines (.error .emptyTimestamp)
  | early (some_ : lines ≠ []) (all : ∀ line ∈ lines, timestamp < readQLogTimestamp timeParse line) :
      Outcome timeParse timestamp lines (.error .tooEarly)
  | late (some_ : lines ≠ []) (all : ∀ line ∈ lines, readQLogTimestamp timeParse line < timestamp) :
      Outcome timeParse timestamp lines (.error .tooLate)
  | absent (A C : List (List UInt8)) (split_ : lines = A ++ C) (someA : A ≠ []) (someC : C ≠ [])
      (below : ∀ line ∈ A, readQLogTimestamp timeParse line < timestamp)
      (above : ∀ line ∈ C, timestamp < readQLogTimestamp timeParse line) :
      Outcome timeParse timestamp lines (.error .notFound)

/-- What holds of the scope in every round: the lines before it are earlier, those behind it are
later, and the last probe was outside of it. -/
structure Scope (timeParse : List UInt8 → Option Int) (timestamp : Int) (A B C : List (List UInt8))
    (last : Option Nat) : Prop where
  good : Entries (A ++ B ++ C)
  nonempty : A ++ B ++ C ≠ []
  below : ∀ line ∈ A, readQLogTimestamp timeParse line < timestamp
  above : ∀ line ∈ C, timestamp < readQLogTimestamp timeParse line
  zero : ∀ line ∈ A ++ B ++ C, readQLogTimestamp timeParse line = 0 → timestamp = 0
  outside : ∀ idx, last = some idx → (idx < size A ∨ size A + size B ≤ idx) ∧ idx < size (A ++ B ++ C)

theorem size_pos (some_ : A ≠ []) : 0 < size A := by
  obtain ⟨line, rest, rfl⟩ := List.exists_cons_of_ne_nil some_
  rw [size_cons]
  omega

/-- The line behind an empty scope was probed last. -/
theorem seekLoop_twice {line : List UInt8} (scope : Scope timeParse timestamp A [] (line :: C) last)
    (again : last = some (size A)) (rounds : Nat) :
    Outcome timeParse timestamp (A ++ line :: C)
      (seekLoop timeParse (unlines (A ++ line :: C)) timestamp (rounds + 1) (size A) (size A) last) := by
  have good := scope.good
  rw [List.append_nil] at good
  rw [seekLoop, Nat.sub_self, Nat.zero_div, Nat.add_zero,
    readProbeLine_unlines good (Nat.le_refl _) (Nat.le_add_right _ _)]
  dsimp only
  rw [validateQLogLineIdx, if_pos again]
  by_cases first : A = []
  · subst first
    rw [if_pos size_nil]
    exact .early (by simp) scope.above
  · rw [if_neg (Nat.pos_iff_ne_zero.mp (size_pos first))]
    exact .absent A (line :: C) rfl first (by simp) scope.below scope.above

/-- The end of the search in a scope without lines. -/
theorem seekLoop_empty (scope : Scope timeParse timestamp A [] C last) (rounds : Nat) :
    Outcome timeParse timestamp (A ++ C)
      (seekLoop timeParse (unlines (A ++ C)) timestamp (rounds + 2) (size A) (size A) last) := by
  have good := scope.good
  have outside := scope.outside
  rw [List.append_nil] at good outside
  cases C with
  | nil =>
    -- behind the last line
    have some_ : A ≠ [] := by simpa using scope.nonempty
    have ends := (unlines_last A).resolve_left (Nat.pos_iff_ne_zero.mp (size_pos some_))
    have notLast : last ≠ some (size A) := by
      intro same
      have before := (outside _ same).2
      rw [List.append_nil] at before
      omega
    have probe : readProbeLine (unlines A) (size A) = .ok ([], size A, size A) := readProbeLine_end ends
    rw [List.append_nil, seekLoop, Nat.sub_self, Nat.zero_div, Nat.add_zero, probe]
    dsimp only
    rw [length_unlines, validateQLogLineIdx, if_neg notLast, if_pos rfl]
    exact .late some_ scope.below
  | cons line C =>
    by_cases again : last = some (size A)
    · exact seekLoop_twice scope again _
    · have later := scope.above line List.mem_cons_self
      have dated : readQLogTimestamp timeParse line ≠ 0 := by
        intro none
        have zero := scope.zero line (by simp) none
        omega
      have notEnd : size A ≠ size (A ++ line :: C) := by
        rw [size_append, size_cons]
        omega
      rw [seekLoop, Nat.sub_self, Nat.zero_div, Nat.add_zero,
        readProbeLine_unlines good (Nat.le_refl _) (Nat.le_add_right _ _)]
      dsimp only
      rw [length_unlines, validateQLogLineIdx, if_neg again, if_neg notEnd]
      dsimp only
      rw [if_neg dated, if_neg (by omega), if_pos later]
      refine seekLoop_twice ⟨scope.good, scope.nonempty, scope.below, scope.above, scope.zero, ?_⟩ rfl _
      rintro idx ⟨⟩
      refine ⟨.inr (by simp), ?_⟩
      rw [List.append_nil, size_append, size_cons]
      omega

/-- One round in a scope that has lines. -/
theorem seekLoop_step (scope : Scope timeParse timestamp A B C last) (some_ : B ≠ [])
    (rounds : Nat) :
    ∃ b line b', B = b ++ line :: b' ∧ size b ≤ size B / 2 ∧ size b' ≤ size B / 2 ∧
      seekLoop timeParse (unlines (A ++ B ++ C)) timestamp (rounds + 1) (size A) (size A + size B) last =
        if readQLogTimestamp timeParse line = 0 then .error .emptyTimestamp
        else if readQLogTimestamp timeParse line = timestamp then .ok (size (A ++ b) + line.length)
        else if timestamp < readQLogTimestamp timeParse line then
          seekLoop timeParse (unlines (A ++ B ++ C)) timestamp rounds (size A) (size A + size b)
            (some (size A + size b))
        else
          seekLoop timeParse (unlines (A ++ B ++ C)) timestamp rounds (size (A ++ b ++ [line]))
            (size (A ++ b ++ [line]) + size b') (some (size A + size b)) := by
  have positive := size_pos some_
  obtain ⟨b, line, b', split_, low, high⟩ := split_at (show size B / 2 < size B by omega)
  have whole : size B = size b + (line.length + 1) + size b' := by
    rw [split_, size_append, size_cons]
    omega
  have shape : A ++ B ++ C = (A ++ b) ++ line :: (b' ++ C) := by
    rw [split_]
    simp
  have next : size (A ++ b ++ [line]) = size A + size b + line.length + 1 := by
    rw [size_append, size_append, size_cons, size_nil]
    omega
  have notLast : last ≠ some (size (A ++ b)) := by
    intro same
    have apart := (scope.outside _ same).1
    rw [size_append] at apart
    omega
  have notEnd : size (A ++ b) ≠ size (A ++ B ++ C) := by
    rw [shape, size_append (A ++ b), size_cons]
    omega
  have probe : readProbeLine (unlines (A ++ B ++ C)) (size A + (size A + size B - size A) / 2) =
      .ok (line, size (A ++ b), size (A ++ b) + line.length + 1) := by
    rw [shape]
    apply readProbeLine_unlines (shape ▸ scope.good)
    · rw [size_append]
      omega
    · rw [size_append]
      omega
  have ends : size (A ++ b) + line.length + 1 = size (A ++ b ++ [line]) := by
    rw [next, size_append]
  have stop : size A + size B = size (A ++ b ++ [line]) + size b' := by
    rw [next]
    omega
  refine ⟨b, line, b', split_, low, by omega, ?_⟩
  rw [seekLoop, probe]
  dsimp only
  rw [length_unlines, validateQLogLineIdx, if_neg notLast, if_neg notEnd]
  dsimp only
  rw [ends, stop, size_append A b]

/-- The scope to the left of a line that is too late. -/
theorem Scope.left {b b' : List (List UInt8)} {line : List UInt8}
    (scope : Scope timeParse timestamp A (b ++ line :: b') C last)
    (sorted : (A ++ (b ++ line :: b') ++ C).Pairwise fun x y =>
      readQLogTimestamp timeParse x < readQLogTimestamp timeParse y)
    (late : timestamp < readQLogTimestamp timeParse line) :
    Scope timeParse timestamp A b (line :: (b' ++ C)) (some (size A + size b)) := by
  have shape : A ++ b ++ line :: (b' ++ C) = A ++ (b ++ line :: b') ++ C := by simp
  refine ⟨shape ▸ scope.good, by simp, scope.below, ?_, shape ▸ scope.zero, ?_⟩
  · rw [← shape] at sorted
    have behind := (List.pairwise_cons.mp (List.pairwise_append.mp sorted).2.1).1
    intro other member
    rcases List.mem_cons.mp member with rfl | later
    · exact late
    · exact Int.lt_trans late (behind other later)
  · rintro idx ⟨⟩
    refine ⟨.inr (Nat.le_refl _), ?_⟩
    rw [size_append, size_append, size_cons]
    omega

/-- The scope to the right of a line that is too early. -/
theorem Scope.right {b b' : List (List UInt8)} {line : List UInt8}
    (scope : Scope timeParse timestamp A (b ++ line :: b') C last)
    (sorted : (A ++ (b ++ line :: b') ++ C).Pairwise fun x y =>
      readQLogTimestamp timeParse x < readQLogTimestamp timeParse y)
    (early : readQLogTimestamp timeParse line < timestamp) :
    Scope timeParse timestamp (A ++ b ++ [line]) b' C (some (size A + size b)) := by
  have shape : A ++ b ++ [line] ++ b' ++ C = A ++ (b ++ line :: b') ++ C := by simp
  refine ⟨shape ▸ scope.good, by simp, ?_, scope.above, shape ▸ scope.zero, ?_⟩
  · have apart : (A ++ b ++ line :: (b' ++ C)).Pairwise fun x y =>
        readQLogTimestamp timeParse x < readQLogTimestamp timeParse y := by simpa using sorted
    intro other member
    rcases List.mem_append.mp member with before | here
    · exact Int.lt_trans ((List.pairwise_append.mp apart).2.2 other before line List.mem_cons_self) early
    · rw [List.mem_singleton.mp here]
      exact early
  · rintro idx ⟨⟩
    rw [size_append (A ++ b ++ [line] ++ b'), size_append (A ++ b ++ [line]), size_append (A ++ b),
      size_append A, size_cons]
    omega

/-- The search ends as it should, two rounds after the scope could be halved no more. -/
theorem seekLoop_outcome {rounds : Nat} (scope : Scope timeParse timestamp A B C last)
    (small : size B < 2 ^ rounds)
    (sorted : (A ++ B ++ C).Pairwise fun x y => readQLogTimestamp timeParse x < readQLogTimestamp timeParse y) :
    Outcome timeParse timestamp (A ++ B ++ C)
      (seekLoop timeParse (unlines (A ++ B ++ C)) timestamp (rounds + 2) (size A) (size A + size B) last) := by
  induction rounds generalizing A B C last with
  | zero =>
    have empty : B = [] := by
      by_contra some_
      have positive := size_pos some_
      omega
    subst empty
    simpa using seekLoop_empty scope 0
  | succ rounds ih =>
    by_cases empty : B = []
    · subst empty
      simpa using seekLoop_empty scope (rounds + 1)
    · obtain ⟨b, line, b', rfl, low, high, next⟩ := seekLoop_step scope empty (rounds + 2)
      have member : line ∈ A ++ (b ++ line :: b') ++ C := by simp
      rw [next]
      split
      case isTrue none =>
        have zero := scope.zero line member none
        exact .zero line member (none.trans zero.symm) zero
      case isFalse dated =>
        split
        case isTrue here =>
          exact .found (A ++ b) line (b' ++ C) (by simp) here (here ▸ dated)
        case isFalse other =>
          split
          case isTrue late =>
            have shape : A ++ (b ++ line :: b') ++ C = A ++ b ++ line :: (b' ++ C) := by simp
            have left_ := scope.left sorted late
            rw [shape] at sorted ⊢
            exact ih left_ (by omega) sorted
          case isFalse notLate =>
            have shape : A ++ (b ++ line :: b') ++ C = A ++ b ++ [line] ++ b' ++ C := by simp
            have right_ := scope.right sorted (by omega)
            rw [shape] at sorted ⊢
            exact ih right_ (by omega) sorted

end Seek

/-! ### What `seekTS` returns -/

section Exact

variable {timeParse : List UInt8 → Option Int} {lines : List (List UInt8)} {q : QLogFile}

/-- A log file: lines of at most `maxEntrySize` bytes with their line breaks, whose timestamps can be
parsed and increase. Its size is an `int64`. -/
structure IsLog (timeParse : List UInt8 → Option Int) (lines : List (List UInt8)) : Prop where
  entries : Entries lines
  parsed : ∀ line ∈ lines, (readQLogTime timeParse line).isSome = true
  sorted : lines.Pairwise fun x y => readQLogTimestamp timeParse x < readQLogTimestamp timeParse y
  fits : size lines < 2 ^ 63

/-- The search for a timestamp is exact. -/
structure SeeksExactly (timeParse : List UInt8 → Option Int) (q : QLogFile) (lines : List (List UInt8))
    (timestamp : Int) : Prop where
  succeeds : (∃ position, (q.seekTS timeParse timestamp).2 = .ok position) ↔
    ∃ line ∈ lines, readQLogTimestamp timeParse line = timestamp
  next : ∀ line ∈ lines, readQLogTimestamp timeParse line = timestamp →
    (q.seekTS timeParse timestamp).1.readNext.2 = .ok line
  early : ∀ first, lines.head? = some first → timestamp < readQLogTimestamp timeParse first →
    (q.seekTS timeParse timestamp).2 = .error .tooEarly
  late : ∀ last, lines.getLast? = some last → readQLogTimestamp timeParse last < timestamp →
    (q.seekTS timeParse timestamp).2 = .error .tooLate
  absent : (∀ line ∈ lines, readQLogTimestamp timeParse line ≠ timestamp) →
    (∃ line ∈ lines, readQLogTimestamp timeParse line < timestamp) →
    (∃ line ∈ lines, timestamp < readQLogTimestamp timeParse line) →
    (q.seekTS timeParse timestamp).2 = .error .notFound
  shallow : (q.seekTS timeParse timestamp).2 ≠ .error .tooDeep

theorem seekTS_snd (timestamp : Int) : (q.seekTS timeParse timestamp).2 =
    seekLoop timeParse q.file timestamp 100 0 q.file.length none := by
  unfold QLogFile.seekTS
  dsimp only
  split
  case h_1 err failed => exact failed.symm
  case h_2 position found => exact found.symm

/-- The whole file is the scope of the first round. -/
theorem seekTS_outcome (log : IsLog timeParse lines) (contents : q.file = unlines lines) (some_ : lines ≠ [])
    {timestamp : Int} (zero : ∀ line ∈ lines, readQLogTimestamp timeParse line = 0 → timestamp = 0) :
    Outcome timeParse timestamp lines (q.seekTS timeParse timestamp).2 := by
  have scope : Scope timeParse timestamp [] lines [] none :=
    ⟨by simpa using log.entries, by simpa using some_, by simp, by simp, by simpa using zero, by simp⟩
  have small : size lines < 2 ^ 98 := Nat.lt_trans log.fits (by decide)
  have outcome := seekLoop_outcome scope small (by simpa using log.sorted)
  rw [seekTS_snd, contents, length_unlines]
  simpa using outcome

/-- The record that the search stops at is read next. -/
theorem seekTS_next {b b' : List (List UInt8)} {line : List UInt8} {timestamp : Int}
    (log : IsLog timeParse lines) (contents : q.file = unlines lines) (split_ : lines = b ++ line :: b')
    (dated : readQLogTimestamp timeParse line ≠ 0)
    (found : (q.seekTS timeParse timestamp).2 = .ok (size b + line.length)) :
    (q.seekTS timeParse timestamp).1.readNext.2 = .ok line := by
  obtain ⟨single, short⟩ := log.entries line (by simp [split_])
  have nonempty : line ≠ [] := by
    rintro rfl
    exact dated rfl
  have state : (q.seekTS timeParse timestamp).1 =
      { q with buffer := none, position := size b + line.length } := by
    rw [seekTS_snd] at found
    unfold QLogFile.seekTS
    dsimp only
    rw [found]
  have waiting : (q.seekTS timeParse timestamp).1.Waiting (b ++ [line]) := by
    rw [state]
    refine ⟨⟨b', ?_⟩, ?_, fun buffer held => by cases held⟩
    · rw [List.append_assoc, List.singleton_append, ← split_]
      exact contents
    · rw [unlines_concat]
      rfl
  have good : LinesUpTo maxEntrySize [line] := by
    intro text member
    rw [List.mem_singleton.mp member]
    exact ⟨nonempty, single, by omega⟩
  obtain ⟨q', read, -, -⟩ := QLogFile.readNext_concat waiting good
  rw [read]

/-- No two records have the same time. -/
theorem IsLog.unique {b b' : List (List UInt8)} {line other : List UInt8} (log : IsLog timeParse lines)
    (split_ : lines = b ++ line :: b') (member : other ∈ lines)
    (same : readQLogTimestamp timeParse other = readQLogTimestamp timeParse line) : other = line := by
  have sorted := log.sorted
  rw [split_, List.pairwise_append, List.pairwise_cons] at sorted
  rw [split_, List.mem_append, List.mem_cons] at member
  rcases member with before | here | behind
  · have earlier := sorted.2.2 other before line List.mem_cons_self
    omega
  · exact here
  · have later := sorted.2.1.1 other behind
    omega

theorem IsLog.first_le {first line : List UInt8} (log : IsLog timeParse lines) (head : lines.head? = some first)
    (member : line ∈ lines) : readQLogTimestamp timeParse first ≤ readQLogTimestamp timeParse line := by
  obtain ⟨rest, rfl⟩ := List.head?_eq_some_iff.mp head
  have behind := (List.pairwise_cons.mp log.sorted).1
  rcases List.mem_cons.mp member with rfl | later
  · exact Int.le_refl _
  · exact Int.le_of_lt (behind line later)

theorem IsLog.le_last {last line : List UInt8} (log : IsLog timeParse lines) (tail : lines.getLast? = some last)
    (member : line ∈ lines) : readQLogTimestamp timeParse line ≤ readQLogTimestamp timeParse last := by
  obtain ⟨front, rfl⟩ := List.getLast?_eq_some_iff.mp tail
  have before := (List.pairwise_append.mp log.sorted).2.2
  rcases List.mem_append.mp member with earlier | here
  · exact Int.le_of_lt (before line earlier last (by simp))
  · rw [List.mem_singleton.mp here]

/-- A search without a record is exact if it fails with the right error. -/
theorem SeeksExactly.of_error {timestamp : Int} {err : SeekErr} (log : IsLog timeParse lines)
    (returned : (q.seekTS timeParse timestamp).2 = .error err) (shallow : err ≠ .tooDeep)
    (noneHere : ∀ line ∈ lines, readQLogTimestamp timeParse line ≠ timestamp)
    (early : ∀ line ∈ lines, (∀ line ∈ lines, timestamp < readQLogTimestamp timeParse line) → err = .tooEarly)
    (late : ∀ line ∈ lines, (∀ line ∈ lines, readQLogTimestamp timeParse line < timestamp) → err = .tooLate)
    (absent : (∃ line ∈ lines, readQLogTimestamp timeParse line < timestamp) →
      (∃ line ∈ lines, timestamp < readQLogTimestamp timeParse line) → err = .notFound) :
    SeeksExactly timeParse q lines timestamp where
  succeeds := by
    rw [returned]
    constructor
    · rintro ⟨position, same⟩
      cases same
    · rintro ⟨line, member, here⟩
      exact absurd here (noneHere line member)
  next line member here := absurd here (noneHere line member)
  early first head before := by
    rw [returned, early first (List.mem_of_mem_head? head)]
    intro line member
    exact Int.lt_of_lt_of_le before (log.first_le head member)
  late last tail behind := by
    rw [returned, late last (List.mem_of_getLast? tail)]
    intro line member
    exact Int.lt_of_le_of_lt (log.le_last tail member) behind
  absent _ below above := by rw [returned, absent below above]
  shallow := by
    rw [returned]
    simpa using shallow

theorem seeksExactly_empty (contents : q.file = unlines []) (timestamp : Int) :
    SeeksExactly timeParse q [] timestamp := by
  have result : (q.seekTS timeParse timestamp).2 = .error (.read .eof) := by
    rw [seekTS_snd, contents, unlines_nil, seekLoop, readProbeLine_empty]
  have log : IsLog timeParse [] := ⟨by simp [Entries], by simp, .nil, by simp⟩
  exact .of_error log result (by simp) (by simp) (by simp) (by simp) (by simp)

/-- From what the search ends with to what it should do. -/
theorem Outcome.exactly (log : IsLog timeParse lines) (contents : q.file = unlines lines) {timestamp : Int}
    (dated : ∀ line ∈ lines, readQLogTimestamp timeParse line ≠ 0) {result : Except SeekErr Nat}
    (returned : (q.seekTS timeParse timestamp).2 = result) (outcome : Outcome timeParse timestamp lines result) :
    SeeksExactly timeParse q lines timestamp := by
  cases outcome with
  | found b line b' split_ here some_ =>
    have member : line ∈ lines := by simp [split_]
    refine ⟨⟨fun _ => ⟨line, member, here⟩, fun _ => ⟨_, returned⟩⟩, ?_, ?_, ?_, ?_, by simp [returned]⟩
    · intro other otherMember same
      rw [log.unique split_ otherMember (same.trans here.symm)]
      exact seekTS_next log contents split_ (dated line member) returned
    · intro first head before
      have least := log.first_le head member
      omega
    · intro last tail behind
      have greatest := log.le_last tail member
      omega
    · intro noneHere
      exact absurd here (noneHere line member)
  | zero line member here none => exact absurd (here.trans none) (dated line member)
  | early some_ all =>
    refine .of_error log returned (by simp) ?_ (fun _ _ _ => rfl) ?_ ?_
    · exact fun line member => (Int.ne_of_lt (all line member)).symm
    · exact fun line member below => absurd (below line member) (Int.lt_asymm (all line member))
    · rintro ⟨line, member, below⟩
      exact absurd below (Int.lt_asymm (all line member))
  | late some_ all =>
    refine .of_error log returned (by simp) ?_ ?_ (fun _ _ _ => rfl) ?_
    · exact fun line member => Int.ne_of_lt (all line member)
    · exact fun line member above => absurd (above line member) (Int.lt_asymm (all line member))
    · rintro - ⟨line, member, above⟩
      exact absurd above (Int.lt_asymm (all line member))
  | absent A C split_ someA someC below above =>
    subst split_
    obtain ⟨a, inA⟩ := List.exists_mem_of_ne_nil A someA
    obtain ⟨c, inC⟩ := List.exists_mem_of_ne_nil C someC
    refine .of_error log returned (by simp) ?_ ?_ ?_ (fun _ _ => rfl)
    · intro line member
      rcases List.mem_append.mp member with first | second
      · exact Int.ne_of_lt (below line first)
      · exact (Int.ne_of_lt (above line second)).symm
    · exact fun _ _ all => absurd (all a (List.mem_append_left _ inA)) (Int.lt_asymm (below a inA))
    · exact fun _ _ all => absurd (all c (List.mem_append_right _ inC)) (Int.lt_asymm (above c inC))

/-- A record of the time zero is taken for one without a time. -/
theorem seekTS_zero (log : IsLog timeParse lines) (contents : q.file = unlines lines) {line : List UInt8}
    (member : line ∈ lines) (zero : readQLogTimestamp timeParse line = 0) :
    (q.seekTS timeParse 0).2 = .error .emptyTimestamp := by
  have outcome := seekTS_outcome log contents (List.ne_nil_of_mem member) fun _ _ _ => rfl
  generalize (q.seekTS timeParse 0).2 = result at outcome
  cases outcome with
  | found b line b' split_ here some_ => exact absurd rfl some_
  | zero => rfl
  | early some_ all => exact absurd zero (Int.ne_of_lt (all line member)).symm
  | late some_ all => exact absurd zero (Int.ne_of_lt (all line member))
  | absent A C split_ someA someC below above =>
    rw [split_] at member
    rcases List.mem_append.mp member with first | second
    · exact absurd zero (Int.ne_of_lt (below line first))
    · exact absurd zero (Int.ne_of_lt (above line second)).symm

end Exact

/-- `time.Parse` for times without a fraction, in nanoseconds after 1970. -/
def parseSeconds (val : List UInt8) : Option Int :=
  (Rfc3339.parse (val.map fun b => Char.ofNat b.toNat)).map fun secs => (secs - 62167219200) * 1000000000

/-- Lines with a time at the beginning of 1970, and a second later. -/
def epochRecord : List UInt8 := utf8 "\x7b\"T\":\"1970-01-01T00:00:00Z\"\x7d"
def secondRecord : List UInt8 := utf8 "\x7b\"T\":\"1970-01-01T00:00:01Z\"\x7d"

end FirewallCore.Querylog.Disk
