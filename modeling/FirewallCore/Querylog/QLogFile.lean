import Mathlib.Algebra.BigOperators.Group.List.Basic
import Mathlib.Algebra.Order.Ring.Nat

/-!
Log files and the binary search for a record by its time (`qlogfile.go`).

A file is a list of lines, oldest first, each with its size in bytes. The
search works on byte positions; it looks at the line that a position falls
into. The position of a reader is the number of lines that it has not read.
-/

namespace FirewallCore.Querylog.Search

/-- `maxEntrySize`, the maximum size of an entry. -/
def maxEntrySize : Nat := 16 * 1024

inductive Reason where
  | notFilteredNotFound
  | notFilteredAllowList
  | notFilteredError
  | filteredBlockList
  | filteredSafeBrowsing
  | filteredParental
  | filteredInvalid
  | filteredSafeSearch
  | filteredBlockedService
  | rewritten
  | rewrittenAutoHosts
  | rewrittenRule
  deriving DecidableEq, Repr

/-- `logEntry`, as far as a search reads it. Times are in nanoseconds after 1970. -/
structure LogEntry where
  time : Nat
  qHost : String
  clientID : String
  ip : String
  reason : Reason
  isFiltered : Bool
  positive : 0 < time
  deriving DecidableEq, Repr

/-- A line of a log file: its size with the line break, the values of `QH`, `IP` and `CID` as
they stand in it, and the entry that it decodes to. -/
structure Line where
  size : Nat
  host : String
  ip : String
  clientID : String
  entry : LogEntry
  nonempty : 1 < size
  short : size ≤ maxEntrySize
  deriving DecidableEq

/-- The time of a line, as `readQLogTimestamp` finds it. -/
abbrev Line.time (line : Line) : Nat := line.entry.time

/-- The size of lines. -/
def bytes (lines : List Line) : Nat := (lines.map (·.size)).sum

/-- Errors of `seekTS`. -/
inductive SeekError where
  | notFound
  | tooLate
  | tooEarly
  deriving DecidableEq, Repr

/-- `readProbeLine`: the lines before the one at a position, and the rest from that line on.
A line and the bytes around it that are read fit into the buffer. -/
def readProbeLine : Nat → List Line → List Line × List Line
  | _, [] => ([], [])
  | position, line :: rest =>
    if position < line.size then ([], line :: rest)
    else
      let (before, found) := readProbeLine (position - line.size) rest
      (line :: before, found)

/-- The loop of `seekTS` with the number of times that it may still go on. It returns the position
behind the line with the timestamp. -/
def seekLoop (lines : List Line) (timestamp : Nat) :
    Nat → Nat → Nat → Option Nat → Except SeekError Nat
  | 0, _, _, _ => .error .notFound
  | tries + 1, start, stop, lastProbeLineIdx =>
    let probe := start + (stop - start) / 2
    let (before, rest) := readProbeLine probe lines
    let lineIdx := bytes before
    -- `validateQLogLineIdx`
    if lastProbeLineIdx = some lineIdx then
      if lineIdx = 0 then .error .tooEarly else .error .notFound
    else if lineIdx = bytes lines then .error .tooLate
    else
      match rest with
      | [] => .error .tooLate
      | line :: _ =>
        if line.time = timestamp then .ok (before.length + 1)
        else if timestamp < line.time then seekLoop lines timestamp tries start lineIdx (some lineIdx)
        else seekLoop lines timestamp tries (lineIdx + line.size) stop (some lineIdx)

/-- An existing log file: it has entries, their times increase, and its size is an `int64`. -/
structure QLogFile where
  lines : List Line
  nonempty : lines ≠ []
  sorted : lines.Pairwise (·.time < ·.time)
  fits : bytes lines < 2 ^ 63

/-- `seekTS`. -/
def QLogFile.seekTS (q : QLogFile) (timestamp : Nat) : Except SeekError Nat :=
  seekLoop q.lines timestamp 100 0 (bytes q.lines) none

/-! ### Positions and lines -/

section Probe

variable {A B C : List Line}

theorem bytes_append (A B : List Line) : bytes (A ++ B) = bytes A + bytes B := by
  simp [bytes]

theorem bytes_cons (line : Line) (rest : List Line) : bytes (line :: rest) = line.size + bytes rest := by
  simp [bytes]

theorem bytes_pos (nonempty : B ≠ []) : 0 < bytes B := by
  obtain ⟨line, rest, rfl⟩ := List.exists_cons_of_ne_nil nonempty
  have positive := line.nonempty
  rw [bytes_cons]
  omega

theorem readProbeLine_append (A rest : List Line) (q : Nat) :
    readProbeLine (bytes A + q) (A ++ rest) =
      (A ++ (readProbeLine q rest).1, (readProbeLine q rest).2) := by
  induction A with
  | nil => simp [bytes]
  | cons line A ih =>
    have far : ¬bytes (line :: A) + q < line.size := by
      rw [bytes_cons]
      omega
    have left : bytes (line :: A) + q - line.size = bytes A + q := by
      rw [bytes_cons]
      omega
    rw [List.cons_append, readProbeLine, if_neg far, left, ih]
    rfl

/-- A position inside lines falls into one of them. -/
theorem readProbeLine_inside {q : Nat} (inside : q < bytes B) (C : List Line) :
    ∃ b line b', B = b ++ line :: b' ∧ readProbeLine q (B ++ C) = (b, line :: (b' ++ C)) ∧
      bytes b ≤ q ∧ q < bytes b + line.size := by
  induction B generalizing q with
  | nil => exact absurd inside (Nat.not_lt_zero q)
  | cons line rest ih =>
    by_cases here : q < line.size
    · exact ⟨[], line, rest, rfl, by rw [List.cons_append, readProbeLine, if_pos here],
        Nat.zero_le q, by simpa [bytes] using here⟩
    · rw [bytes_cons] at inside
      obtain ⟨b, found, b', split, read, low, high⟩ := ih (q := q - line.size) (by omega)
      refine ⟨line :: b, found, b', by rw [split, List.cons_append], ?_, ?_, ?_⟩
      · rw [List.cons_append, readProbeLine, if_neg here, read]
      · rw [bytes_cons]
        omega
      · rw [bytes_cons]
        omega

/-- The position behind all lines. -/
theorem readProbeLine_end (A : List Line) : readProbeLine (bytes A) A = (A, []) := by
  have all := readProbeLine_append A [] 0
  simpa [readProbeLine] using all

end Probe

/-! ### The search -/

section Seek

variable {A B C : List Line} {timestamp tries : Nat} {last : Option Nat}

/-- The scope of the search is between two lines, and the line that was probed last is outside. -/
def Outside (A B : List Line) (last : Option Nat) : Prop :=
  ∀ idx, last = some idx → idx < bytes A ∨ bytes A + bytes B ≤ idx

/-- One round in a scope that is not empty: the line that is probed leaves at most half of it on
either side. -/
theorem seekLoop_step (nonempty : B ≠ []) (outside : Outside A B last) (timestamp tries : Nat) :
    ∃ b line b', B = b ++ line :: b' ∧ bytes b ≤ bytes B / 2 ∧ bytes b' ≤ bytes B / 2 ∧
      seekLoop (A ++ B ++ C) timestamp (tries + 1) (bytes A) (bytes A + bytes B) last =
        if line.time = timestamp then .ok ((A ++ b).length + 1)
        else if timestamp < line.time then
          seekLoop (A ++ B ++ C) timestamp tries (bytes A) (bytes A + bytes b) (some (bytes A + bytes b))
        else
          seekLoop (A ++ B ++ C) timestamp tries (bytes A + bytes b + line.size) (bytes A + bytes B)
            (some (bytes A + bytes b)) := by
  have positive := bytes_pos nonempty
  have inside : bytes B / 2 < bytes B := by omega
  obtain ⟨b, line, b', split, read, low, high⟩ := readProbeLine_inside inside C
  have whole : bytes B = bytes b + line.size + bytes b' := by
    rw [split, bytes_append, bytes_cons]
    omega
  have probe : readProbeLine (bytes A + (bytes A + bytes B - bytes A) / 2) (A ++ B ++ C) =
      (A ++ b, line :: (b' ++ C)) := by
    rw [Nat.add_sub_cancel_left, List.append_assoc, readProbeLine_append, read]
  have notLast : last ≠ some (bytes A + bytes b) := by
    intro same
    have apart := outside _ same
    have size := line.nonempty
    omega
  have notEnd : bytes A + bytes b ≠ bytes (A ++ B ++ C) := by
    have size := line.nonempty
    rw [bytes_append, bytes_append]
    omega
  have right : bytes b' ≤ bytes B / 2 := by omega
  refine ⟨b, line, b', split, low, right, ?_⟩
  rw [seekLoop]
  simp only [probe, bytes_append A b, if_neg notLast, if_neg notEnd]

theorem outside_left {b : List Line} : Outside A b (some (bytes A + bytes b)) := by
  rintro idx ⟨⟩
  exact .inr (Nat.le_refl _)

theorem outside_right {b b' : List Line} {line : Line} :
    Outside (A ++ b ++ [line]) b' (some (bytes A + bytes b)) := by
  rintro idx ⟨⟩
  have size := line.nonempty
  left
  rw [bytes_append, bytes_append, bytes_cons]
  omega

theorem bytes_right (A b : List Line) (line : Line) (b' : List Line) :
    bytes (A ++ b ++ [line]) = bytes A + bytes b + line.size ∧
      bytes (A ++ b ++ [line]) + bytes b' = bytes A + bytes (b ++ line :: b') := by
  simp only [bytes_append, bytes_cons]
  simp [bytes]
  omega

/-- Records further on are later. -/
theorem time_lt_of_split {D E F : List Line} {x y : Line}
    (sorted : (D ++ x :: (E ++ y :: F)).Pairwise (·.time < ·.time)) : x.time < y.time := by
  have behind := (List.pairwise_cons.mp (List.pairwise_append.mp sorted).2.1).1
  exact behind y (by simp)

/-- The search has come to the end of the file. -/
theorem seekLoop_atEnd (before : ∀ idx, last = some idx → idx < bytes A) :
    seekLoop (A ++ []) timestamp (tries + 1) (bytes A) (bytes A + bytes []) last =
      .error .tooLate := by
  have notLast : last ≠ some (bytes A) := fun same => Nat.lt_irrefl _ (before _ same)
  have empty : bytes [] = 0 := rfl
  rw [List.append_nil, seekLoop]
  simp only [empty, Nat.add_zero, Nat.sub_self, Nat.zero_div, readProbeLine_end, if_neg notLast,
    if_true]

/-- The search has come to the first line for the second time. -/
theorem seekLoop_atStart (nonempty : C ≠ []) :
    seekLoop C timestamp (tries + 1) 0 0 (some 0) = .error .tooEarly := by
  obtain ⟨line, rest, rfl⟩ := List.exists_cons_of_ne_nil nonempty
  have first : readProbeLine 0 (line :: rest) = ([], line :: rest) := by
    have size := line.nonempty
    rw [readProbeLine, if_pos (by omega)]
  simp [seekLoop, first, bytes]

/-- A record in the scope is found. -/
theorem seekLoop_found {b b' : List Line} {target : Line} (split : B = b ++ target :: b')
    (sorted : (A ++ B ++ C).Pairwise (·.time < ·.time)) (scope : bytes B < 2 ^ tries)
    (outside : Outside A B last) :
    seekLoop (A ++ B ++ C) target.time tries (bytes A) (bytes A + bytes B) last =
      .ok ((A ++ b).length + 1) := by
  induction tries generalizing A B C b b' last with
  | zero =>
    have positive : 0 < bytes B := bytes_pos (by simp [split])
    omega
  | succ tries ih =>
    obtain ⟨d, line, d', split', low, high, next⟩ :=
      seekLoop_step (C := C) (by simp [split]) outside target.time tries
    rw [next]
    rcases List.append_eq_append_iff.mp (split.symm.trans split') with
      ⟨mid, rfl, tail⟩ | ⟨mid, rfl, tail⟩
    · rcases mid with _ | ⟨first, mid⟩
      · obtain ⟨rfl, -⟩ := List.cons.inj tail
        rw [if_pos rfl, List.append_nil]
      · -- the record is before the probed line
        rw [List.cons_append] at tail
        obtain ⟨rfl, rfl⟩ := List.cons.inj tail
        have whole : A ++ B ++ C = A ++ (b ++ target :: mid) ++ (line :: d' ++ C) := by
          rw [split]
          simp
        have before : target.time < line.time := by
          rw [split] at sorted
          apply time_lt_of_split (D := A ++ b) (E := mid) (F := d' ++ C)
          simpa using sorted
        rw [if_neg (by omega), if_pos before, whole]
        exact ih rfl (whole ▸ sorted) (by omega) outside_left
    · rcases mid with _ | ⟨first, mid⟩
      · obtain ⟨rfl, -⟩ := List.cons.inj tail
        rw [if_pos rfl, List.append_nil]
      · -- the record is behind the probed line
        rw [List.cons_append] at tail
        obtain ⟨rfl, rfl⟩ := List.cons.inj tail
        have whole : A ++ B ++ C = A ++ d ++ [line] ++ (mid ++ target :: b') ++ C := by
          rw [split]
          simp
        have behind : line.time < target.time := by
          rw [split] at sorted
          apply time_lt_of_split (D := A ++ d) (E := mid) (F := b' ++ C)
          simpa using sorted
        obtain ⟨start, stop⟩ := bytes_right A d line (mid ++ target :: b')
        rw [if_neg (by omega), if_neg (by omega), whole, ← start, split', ← stop]
        rw [ih rfl (whole ▸ sorted) (by omega) outside_right]
        simp

/-- A timestamp later than all records. -/
theorem seekLoop_tooLate (later : ∀ line ∈ A ++ B, line.time < timestamp)
    (scope : bytes B < 2 ^ tries) (before : ∀ idx, last = some idx → idx < bytes A) :
    seekLoop (A ++ B) timestamp (tries + 1) (bytes A) (bytes A + bytes B) last = .error .tooLate := by
  induction tries generalizing A B last with
  | zero =>
    have empty : B = [] := by
      by_contra some
      have positive := bytes_pos some
      omega
    subst empty
    exact seekLoop_atEnd before
  | succ tries ih =>
    by_cases empty : B = []
    · subst empty
      exact seekLoop_atEnd before
    · obtain ⟨b, line, b', rfl, low, high, next⟩ :=
        seekLoop_step (C := []) empty (fun idx same => .inl (before idx same)) timestamp (tries + 1)
      rw [List.append_nil] at next
      have passed := later line (by simp)
      have whole : A ++ (b ++ line :: b') = A ++ b ++ [line] ++ b' := by simp
      obtain ⟨start, stop⟩ := bytes_right A b line b'
      rw [next, if_neg (by omega), if_neg (by omega), whole, ← start, ← stop]
      apply ih (whole ▸ later) (by omega)
      rintro idx ⟨⟩
      have size := line.nonempty
      omega

/-- A timestamp before all records. -/
theorem seekLoop_tooEarly (nonempty : B ++ C ≠ []) (earlier : ∀ line ∈ B ++ C, timestamp < line.time)
    (scope : bytes B < 2 ^ tries) (outside : Outside [] B last) (probed : B = [] → last = some 0) :
    seekLoop (B ++ C) timestamp (tries + 1) 0 (bytes B) last = .error .tooEarly := by
  induction tries generalizing B C last with
  | zero =>
    have empty : B = [] := by
      by_contra some
      have positive := bytes_pos some
      omega
    subst empty
    rw [probed rfl]
    exact seekLoop_atStart nonempty
  | succ tries ih =>
    by_cases empty : B = []
    · subst empty
      rw [probed rfl]
      exact seekLoop_atStart nonempty
    · obtain ⟨b, line, b', rfl, low, high, next⟩ :=
        seekLoop_step (A := []) (C := C) empty outside timestamp (tries + 1)
      have passed := earlier line (by simp)
      have whole : b ++ line :: b' ++ C = b ++ (line :: (b' ++ C)) := by simp
      simp only [List.nil_append, show bytes [] = 0 from rfl, Nat.zero_add] at next
      rw [next, if_neg (by omega), if_pos passed, whole]
      rw [whole] at earlier
      refine ih (by simp) earlier (by omega) ?_ ?_
      · intro idx same
        right
        simp only [Option.some.injEq] at same
        simp [bytes, ← same]
      · rintro rfl
        rfl

end Seek

/-! ### What `seekTS` returns -/

namespace QLogFile

variable {q : QLogFile} {timestamp : Nat}

theorem seekTS_found {b b' : List Line} {target : Line} (split : q.lines = b ++ target :: b') :
    q.seekTS target.time = .ok (b.length + 1) := by
  have fits := q.fits
  have found : seekLoop ([] ++ q.lines ++ []) target.time 100 (bytes []) (bytes [] + bytes q.lines) none =
      .ok (([] ++ b).length + 1) :=
    seekLoop_found split (by simpa using q.sorted) (by omega) (by simp [Outside])
  simpa [seekTS, bytes] using found

theorem seekTS_tooLate (later : ∀ line ∈ q.lines, line.time < timestamp) :
    q.seekTS timestamp = .error .tooLate := by
  have fits := q.fits
  have late : seekLoop ([] ++ q.lines) timestamp 100 (bytes []) (bytes [] + bytes q.lines) none =
      .error .tooLate := seekLoop_tooLate later (by omega) (by simp)
  simpa [seekTS, bytes] using late

theorem seekTS_tooEarly (earlier : ∀ line ∈ q.lines, timestamp < line.time) :
    q.seekTS timestamp = .error .tooEarly := by
  have fits := q.fits
  have early : seekLoop (q.lines ++ []) timestamp 100 0 (bytes q.lines) none = .error .tooEarly :=
    seekLoop_tooEarly (by simpa using q.nonempty) (by simpa using earlier) (by omega)
      (by simp [Outside]) (fun empty => absurd empty q.nonempty)
  simpa [seekTS] using early

end QLogFile

end FirewallCore.Querylog.Search

/-!
Reading several log files in the reverse order (`qlogreader.go`, `seekRecord`).

The files are in the order from oldest to newest. `currentFile` is the number
of files that are not read to their end, so that the current one is the last of
them. Only the position in the current file matters: a file is read from its
end when the reader comes to it.
-/

namespace FirewallCore.Querylog.Search

/-- `qLogReader`. -/
structure QLogReader where
  qFiles : List QLogFile
  currentFile : Nat
  position : Nat

namespace QLogReader

/-- The lines of a file by its number. -/
def linesOf (qFiles : List QLogFile) (i : Nat) : List Line :=
  match qFiles[i]? with
  | none => []
  | some q => q.lines

/-- `SeekStart`. -/
def seekStart (qFiles : List QLogFile) : QLogReader :=
  ⟨qFiles, qFiles.length, (linesOf qFiles (qFiles.length - 1)).length⟩

/-- The loop of `ReadNext` over the files; `none` is `io.EOF`. -/
def readNextFrom (qFiles : List QLogFile) : Nat → Nat → Option (Line × QLogReader)
  | 0, _ => none
  | i + 1, position =>
    let lines := (linesOf qFiles i).take position
    match lines.getLast? with
    | some line => some (line, ⟨qFiles, i + 1, lines.length - 1⟩)
    | none => readNextFrom qFiles i (linesOf qFiles (i - 1)).length

/-- `ReadNext`. -/
def readNext (r : QLogReader) : Option (Line × QLogReader) :=
  readNextFrom r.qFiles r.currentFile r.position

/-- The loop of `seekTS` over the files, from the newest on. -/
def seekTSFrom (qFiles : List QLogFile) (timestamp : Nat) : Nat → Except SeekError QLogReader
  | 0 => .error .notFound
  | i + 1 =>
    match qFiles[i]? with
    | none => .error .notFound
    | some q =>
      match q.seekTS timestamp with
      | .ok position => .ok ⟨qFiles, i + 1, position⟩
      | .error .tooEarly => seekTSFrom qFiles timestamp i
      | .error .tooLate => .ok (seekStart qFiles)
      | .error .notFound => .error .notFound

/-- `seekTS`; there is nothing to seek without files. -/
def seekTS (qFiles : List QLogFile) (timestamp : Nat) : Except SeekError QLogReader :=
  if qFiles = [] then .ok ⟨qFiles, 0, 0⟩ else seekTSFrom qFiles timestamp qFiles.length

/-- `seekRecord`; `none` when it fails. -/
def seekRecord (qFiles : List QLogFile) : Option Nat → Option QLogReader
  | none => some (seekStart qFiles)
  | some olderThan =>
    match seekTS qFiles olderThan with
    | .error _ => none
    | .ok r => r.readNext.map (·.2)

/-- The lines that a reader will give, from the newest on. -/
def unread (r : QLogReader) : List Line :=
  match r.currentFile with
  | 0 => []
  | i + 1 => ((linesOf r.qFiles i).take r.position).reverse ++
      ((r.qFiles.take i).flatMap (·.lines)).reverse

/-- All lines, from the newest on. -/
def newestFirst (qFiles : List QLogFile) : List Line := (qFiles.flatMap (·.lines)).reverse

/-! ### Reading -/

section Reading

variable {qFiles : List QLogFile} {i position : Nat} {line target : Line} {D E : List Line}

/-- The lines up to a file, and those of the file. -/
theorem flatMap_take_succ (qFiles : List QLogFile) (i : Nat) :
    (qFiles.take (i + 1)).flatMap (·.lines) = (qFiles.take i).flatMap (·.lines) ++ linesOf qFiles i := by
  unfold linesOf
  rw [List.take_add_one, List.flatMap_append]
  cases qFiles[i]? <;> simp

theorem unread_succ (qFiles : List QLogFile) (i : Nat) :
    unread ⟨qFiles, i + 1, (linesOf qFiles i).length⟩ =
      ((qFiles.take (i + 1)).flatMap (·.lines)).reverse := by
  simp only [unread]
  rw [List.take_length, flatMap_take_succ, List.reverse_append]

theorem unread_seekStart (qFiles : List QLogFile) : (seekStart qFiles).unread = newestFirst qFiles := by
  cases count : qFiles.length with
  | zero =>
    rw [List.length_eq_zero_iff] at count
    subst count
    rfl
  | succ n =>
    rw [seekStart, count, Nat.add_sub_cancel, unread_succ, ← count, List.take_length, newestFirst]

/-- A reader gives the next line and goes on behind it. -/
theorem readNextFrom_eq (qFiles : List QLogFile) (i position : Nat) :
    (unread ⟨qFiles, i, position⟩ = [] ∧ readNextFrom qFiles i position = none) ∨
      ∃ line r, readNextFrom qFiles i position = some (line, r) ∧
        unread ⟨qFiles, i, position⟩ = line :: r.unread := by
  induction i generalizing position with
  | zero => exact .inl ⟨rfl, rfl⟩
  | succ i ih =>
    rcases List.eq_nil_or_concat ((linesOf qFiles i).take position) with empty | ⟨lines, line, some⟩
    · have next : readNextFrom qFiles (i + 1) position =
          readNextFrom qFiles i (linesOf qFiles (i - 1)).length := by
        simp [readNextFrom, empty]
      have same : unread ⟨qFiles, i + 1, position⟩ =
          unread ⟨qFiles, i, (linesOf qFiles (i - 1)).length⟩ := by
        cases i with
        | zero => simp [unread, empty]
        | succ i =>
          rw [Nat.add_sub_cancel, unread_succ]
          simp [unread, empty]
      rw [next, same]
      exact ih _
    · right
      rw [List.concat_eq_append] at some
      refine ⟨line, ⟨qFiles, i + 1, lines.length⟩, ?_, ?_⟩
      · simp [readNextFrom, some]
      · have before : (linesOf qFiles i).take lines.length = lines := by
          have shorter := congrArg (List.take lines.length) some
          rwa [List.take_take, List.take_left, Nat.min_eq_left] at shorter
          have lengths := congrArg List.length some
          simp only [List.length_take, List.length_append, List.length_singleton] at lengths
          omega
        simp only [unread, before, some]
        simp

theorem readNext_nil {r : QLogReader} (done : r.unread = []) : r.readNext = none := by
  rcases readNextFrom_eq r.qFiles r.currentFile r.position with ⟨-, eof⟩ | ⟨line, r', -, more⟩
  · exact eof
  · exact absurd (done.symm.trans more) (by simp)

theorem readNext_cons {r : QLogReader} {rest : List Line} (left : r.unread = line :: rest) :
    ∃ r', r.readNext = some (line, r') ∧ r'.unread = rest := by
  rcases readNextFrom_eq r.qFiles r.currentFile r.position with ⟨empty, -⟩ | ⟨line', r', next, more⟩
  · exact absurd (left.symm.trans empty) (by simp)
  · obtain ⟨rfl, same⟩ := List.cons.inj (left.symm.trans more)
    exact ⟨r', next, same.symm⟩

/-! ### Seeking -/

/-- The times of all lines increase. -/
def Sorted (qFiles : List QLogFile) : Prop := (qFiles.flatMap (·.lines)).Pairwise (·.time < ·.time)

theorem seekTSFrom_found (sorted : Sorted (qFiles.take i)) (inside : i ≤ qFiles.length)
    (split : (qFiles.take i).flatMap (·.lines) = D ++ target :: E) :
    ∃ r, seekTSFrom qFiles target.time i = .ok r ∧ r.unread = target :: D.reverse := by
  induction i generalizing E with
  | zero => exact absurd split (by simp)
  | succ i ih =>
    have some : qFiles[i]? = some qFiles[i] := List.getElem?_eq_getElem inside
    have lines : linesOf qFiles i = qFiles[i].lines := by rw [linesOf, some]
    unfold Sorted at sorted
    rw [flatMap_take_succ, lines] at split sorted
    have here : ∀ b, D = (qFiles.take i).flatMap (·.lines) ++ b → qFiles[i].lines = b ++ target :: E →
        ∃ r, seekTSFrom qFiles target.time (i + 1) = .ok r ∧ r.unread = target :: D.reverse := by
      rintro b rfl here
      simp only [seekTSFrom, some, QLogFile.seekTS_found here]
      refine ⟨_, rfl, ?_⟩
      have read : (linesOf qFiles i).take (b.length + 1) = b ++ [target] := by
        rw [lines, here]
        simp [List.take_append]
      simp only [unread, read]
      simp
    rcases List.append_eq_append_iff.mp split with ⟨b, before, behind⟩ | ⟨mid, before, behind⟩
    · exact here b before behind
    · cases mid with
      | nil => exact here [] (by simpa using before.symm) behind.symm
      | cons first mid =>
        obtain ⟨rfl, -⟩ := List.cons.inj behind
        have early : qFiles[i].seekTS target.time = .error .tooEarly := by
          apply QLogFile.seekTS_tooEarly
          intro line member
          exact (List.pairwise_append.mp sorted).2.2 target (by simp [before]) line member
        simp only [seekTSFrom, some, early]
        exact ih (List.pairwise_append.mp sorted).1 (by omega) before

/-- A timestamp later than all records leads to the newest one. -/
theorem seekTS_late {timestamp : Nat} (nonempty : qFiles ≠ [])
    (later : ∀ line ∈ newestFirst qFiles, line.time < timestamp) :
    seekTS qFiles timestamp = .ok (seekStart qFiles) := by
  obtain ⟨older, newest, rfl⟩ := (List.eq_nil_or_concat qFiles).resolve_left nonempty
  rw [List.concat_eq_append] at later ⊢
  have late : newest.seekTS timestamp = .error .tooLate := by
    apply QLogFile.seekTS_tooLate
    intro line member
    apply later
    simp [newestFirst, member]
  rw [seekTS, if_neg (by simp), List.length_append, List.length_singleton, seekTSFrom]
  simp [late]

/-- A reader for all lines. -/
theorem seekRecord_none (qFiles : List QLogFile) :
    ∃ r, seekRecord qFiles none = some r ∧ r.unread = newestFirst qFiles :=
  ⟨_, rfl, unread_seekStart qFiles⟩

/-- A reader for the lines older than one of them. -/
theorem seekRecord_found (sorted : Sorted qFiles) {newer older : List Line}
    (split : newestFirst qFiles = newer ++ target :: older) :
    ∃ r, seekRecord qFiles (some target.time) = some r ∧ r.unread = older := by
  have lines : qFiles.flatMap (·.lines) = older.reverse ++ target :: newer.reverse := by
    have mirrored := congrArg List.reverse split
    simpa [newestFirst] using mirrored
  have nonempty : qFiles ≠ [] := by
    rintro rfl
    exact absurd lines (by simp)
  obtain ⟨r, found, left⟩ := seekTSFrom_found (i := qFiles.length) (by simpa using sorted) (Nat.le_refl _)
    (by simpa using lines)
  obtain ⟨r', read, rest⟩ := readNext_cons left
  refine ⟨r', ?_, by simpa using rest⟩
  simp only [seekRecord, seekTS, if_neg nonempty, found, read, Option.map_some]

/-- A timestamp later than all records costs the newest one. -/
theorem seekRecord_late {timestamp : Nat} {older : List Line}
    (later : ∀ line ∈ newestFirst qFiles, line.time < timestamp)
    (split : newestFirst qFiles = line :: older) :
    ∃ r, seekRecord qFiles (some timestamp) = some r ∧ r.unread = older := by
  have nonempty : qFiles ≠ [] := by
    rintro rfl
    exact absurd split (by simp [newestFirst])
  obtain ⟨r', read, rest⟩ := readNext_cons ((unread_seekStart qFiles).trans split)
  refine ⟨r', ?_, rest⟩
  simp only [seekRecord, seekTS_late nonempty later, read, Option.map_some]

end Reading

end QLogReader

end FirewallCore.Querylog.Search
