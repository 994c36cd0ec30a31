import FirewallCore.Lib.Lines
import FirewallCore.Querylog.QLogFile

/-!
A log file by its bytes (`qlogfile.go`): reading lines backwards through a buffer.

The buffer holds a part of the file that ends at the position or behind it. It is
read again when the position comes within one maximal entry of its start, so that
the line before the position is always in it as a whole. `file.Read` fills the
buffer up to the end of the file; what it does not fill keeps its old bytes.
-/

namespace FirewallCore.Querylog.Disk

open FirewallCore.Lib
open FirewallCore.Querylog.Search (maxEntrySize)

/-- `bufferSize`. -/
def bufferSize : Nat := 100 * maxEntrySize

/-- What reading ends with if it returns no line: `io.EOF`, or a panic for an index behind
the end of the buffer. -/
inductive ReadErr where
  | eof
  | panic
  deriving DecidableEq, Repr

/-- `qLogFile`, with the contents of its file. The buffer may be nil. -/
structure QLogFile where
  file : List UInt8
  buffer : Option (List UInt8)
  position : Nat
  bufferStart : Nat
  bufferLen : Nat

/-- `newQLogFile`. -/
def newQLogFile (file : List UInt8) : QLogFile := ⟨file, none, 0, 0, 0⟩

/-- `file.Seek` and `file.Read` into a buffer of `n` bytes: what was read, or `io.EOF`. -/
def readAt (file : List UInt8) (offset n : Nat) : Option (List UInt8) :=
  let data := (file.drop offset).take n
  if data.length = 0 then none else some data

theorem readAt_some {file : List UInt8} {offset n : Nat} (inside : offset < file.length) (room : 0 < n) :
    readAt file offset n = some ((file.drop offset).take n) := by
  unfold readAt
  rw [if_neg]
  simp only [List.length_take, List.length_drop]
  omega

/-- What is read is a part of the file, whatever follows it in the buffer. -/
theorem window_readAt (file rest : List UInt8) (offset n : Nat) :
    Window file ((file.drop offset).take n ++ rest) offset n := by
  intro i fits present
  rw [List.getElem?_append_left, List.getElem?_take_of_lt fits, List.getElem?_drop]
  simp only [List.length_take, List.length_drop]
  omega

namespace QLogFile

variable {q : QLogFile}

/-- `SeekStart`. The position in an empty file is zero. -/
def seekStart (q : QLogFile) : QLogFile :=
  { q with buffer := none, position := q.file.length - 1 }

/-- `initBuffer`. -/
def initBuffer (q : QLogFile) (position : Nat) : QLogFile × Option ReadErr :=
  let bufferStart := if bufferSize < position then position - bufferSize else 0
  let buffer := q.buffer.getD (List.replicate bufferSize 0)
  match readAt q.file bufferStart buffer.length with
  | none => ({ q with buffer := some buffer, bufferStart, bufferLen := 0 }, some .eof)
  | some data =>
    let buffer := data ++ buffer.drop data.length
    ({ q with buffer := some buffer, bufferStart, bufferLen := data.length }, none)

/-- Whether `readNextLine` has to read the buffer again: `relativePos < maxEntrySize`, for a
relative position that may be negative. -/
def stale (q : QLogFile) (position : Nat) : Bool :=
  q.buffer.isNone || decide (position < q.bufferStart + maxEntrySize ∧ q.bufferStart ≠ 0)

/-- `readNextLine`: the line that ends at a position, and where it starts. -/
def readNextLine (q : QLogFile) (position : Nat) :
    QLogFile × Except ReadErr (List UInt8 × Nat) :=
  let (q, err) := if q.stale position then q.initBuffer position else (q, none)
  match err with
  | some err => (q, .error err)
  | none =>
    let buffer := q.buffer.getD []
    let relativePos := position - q.bufferStart
    if buffer.length < relativePos then (q, .error .panic)
    else
      let startLine := lineStart buffer relativePos
      (q, .ok (between buffer startLine relativePos, q.bufferStart + startLine))

/-- `ReadNext`. -/
def readNext (q : QLogFile) : QLogFile × Except ReadErr (List UInt8) :=
  if q.position = 0 then (q, .error .eof)
  else
    match q.readNextLine q.position with
    | (q, .error err) => (q, .error err)
    | (q, .ok (line, lineIdx)) =>
      -- there is a line break before every line but the first
      ({ q with position := if lineIdx = 0 then 0 else lineIdx - 1 }, .ok line)

/-! ### The buffer -/

/-- The buffer holds the bytes of the file from `bufferStart` on, and reaches up to the
position. -/
structure Holds (q : QLogFile) (buffer : List UInt8) (position : Nat) : Prop where
  size : buffer.length = bufferSize
  reaches : position ≤ q.bufferStart + bufferSize
  bytes : Window q.file buffer q.bufferStart bufferSize

/-- The buffer, if there is one, is good for a position. -/
def Ready (q : QLogFile) (position : Nat) : Prop := ∀ buffer, q.buffer = some buffer → q.Holds buffer position

/-- A buffer that is read again holds the bytes before the position. -/
theorem initBuffer_holds {position : Nat} (ready : ∀ buffer, q.buffer = some buffer → buffer.length = bufferSize)
    (inside : position < q.file.length) :
    ∃ q' buffer, q.initBuffer position = (q', none) ∧ q'.file = q.file ∧ q'.buffer = some buffer ∧
      q'.Holds buffer position ∧ (q'.bufferStart = 0 ∨ q'.bufferStart + bufferSize = position) := by
  have size : (q.buffer.getD (List.replicate bufferSize 0)).length = bufferSize := by
    cases held : q.buffer with
    | none => simp
    | some buffer => exact ready buffer held
  have room : 0 < bufferSize := by decide
  have start : (if bufferSize < position then position - bufferSize else 0) < q.file.length := by
    split <;> omega
  unfold initBuffer
  dsimp only
  rw [size, readAt_some start room]
  refine ⟨_, _, rfl, rfl, rfl, ⟨?_, ?_, ?_⟩, ?_⟩
  · simp only [List.length_append, List.length_drop, List.length_take, size]
    omega
  · dsimp only
    split <;> omega
  · exact window_readAt _ _ _ _
  · dsimp only
    split
    · right
      omega
    · exact .inl rfl

/-- A line that lies in the buffer is found there. -/
theorem Holds.line {buffer : List UInt8} {start stop : Nat} (holds : q.Holds buffer stop)
    (line : IsLine q.file start stop) (low : q.bufferStart ≤ start) :
    lineStart buffer (stop - q.bufferStart) = start - q.bufferStart ∧
      between buffer (start - q.bufferStart) (stop - q.bufferStart) = between q.file start stop :=
  ⟨holds.bytes.lineStart line low line.le (Nat.le_refl _) holds.reaches,
    holds.bytes.between line low holds.reaches⟩

/-- A line of at most `maxEntrySize` bytes is read as a whole, wherever its ends lie in the
buffer. -/
theorem readNextLine_line {start stop : Nat} (line : IsLine q.file start stop)
    (short : stop - start ≤ maxEntrySize) (ready : q.Ready stop) :
    ∃ q', q.readNextLine stop = (q', .ok (between q.file start stop, start)) ∧ q'.file = q.file ∧
      q'.Ready stop := by
  have le := line.le
  have present : stop < q.file.length := (List.getElem?_eq_some_iff.mp line.ends).1
  have one : maxEntrySize ≤ bufferSize := by decide
  -- with a good buffer that contains the line there is nothing to read
  have fromBuffer : ∀ (q' : QLogFile) (buffer : List UInt8), q'.file = q.file → q'.buffer = some buffer →
      q'.Holds buffer stop → q'.bufferStart ≤ start →
      ¬(q'.buffer.getD []).length < stop - q'.bufferStart ∧
        between (q'.buffer.getD []) (lineStart (q'.buffer.getD []) (stop - q'.bufferStart))
          (stop - q'.bufferStart) = between q.file start stop ∧
        q'.bufferStart + lineStart (q'.buffer.getD []) (stop - q'.bufferStart) = start := by
    intro q' buffer sameFile held holds low
    obtain ⟨first, whole⟩ := holds.line (sameFile ▸ line) low
    rw [held, Option.getD_some, first, whole, sameFile, holds.size]
    have reaches := holds.reaches
    exact ⟨by omega, rfl, by omega⟩
  unfold readNextLine
  by_cases again : q.stale stop = true
  · obtain ⟨q', buffer, read, sameFile, held, holds, where_⟩ :=
      initBuffer_holds (fun buffer held => (ready buffer held).size) present
    obtain ⟨fits, text, idx⟩ := fromBuffer q' buffer sameFile held holds (by omega)
    refine ⟨q', ?_, sameFile, ?_⟩
    · rw [if_pos again, read]
      dsimp only
      rw [if_neg fits, text, idx]
    · intro other held'
      rw [held] at held'
      cases held'
      exact holds
  · simp only [stale, Bool.or_eq_true, Option.isNone_iff_eq_none, decide_eq_true_eq, not_or,
      not_and_or, not_not] at again
    obtain ⟨some_, far⟩ := again
    obtain ⟨buffer, held⟩ := Option.ne_none_iff_exists'.mp some_
    obtain ⟨fits, text, idx⟩ := fromBuffer q buffer rfl held (ready buffer held) (by omega)
    refine ⟨q, ?_, rfl, ready⟩
    rw [if_neg (by simp [stale, held]; omega)]
    dsimp only
    rw [if_neg fits, text, idx]

end QLogFile

end FirewallCore.Querylog.Disk

/-!
Reading several log files by their bytes, backwards (`qlogreader.go`).

The files are in the order from oldest to newest. `currentFile` is the number of
files that are not read to their end, so that the current one is the last of
them and zero stands for the index -1.
-/

namespace FirewallCore.Querylog.Disk

open FirewallCore.Lib
open FirewallCore.Querylog.Search (maxEntrySize)

/-- `qLogReader`. -/
structure QLogReader where
  qFiles : List QLogFile
  currentFile : Nat

/-- `newQLogReader`, for files that exist. -/
def newQLogReader (files : List (List UInt8)) : QLogReader := ⟨files.map newQLogFile, files.length⟩

namespace QLogReader

/-- `SeekStart`. -/
def seekStart (r : QLogReader) : QLogReader :=
  if r.qFiles.length = 0 then r
  else ⟨r.qFiles.modify (r.qFiles.length - 1) QLogFile.seekStart, r.qFiles.length⟩

/-- The loop of `ReadNext`. -/
def readNextFrom : Nat → List QLogFile → QLogReader × Except ReadErr (List UInt8)
  | 0, qFiles => (⟨qFiles, 0⟩, .error .eof)
  | i + 1, qFiles =>
    match qFiles[i]? with
    | none => (⟨qFiles, i + 1⟩, .error .panic)
    | some q =>
      match q.readNext with
      | (q, .ok line) => (⟨qFiles.set i q, i + 1⟩, .ok line)
      | (q, .error .panic) => (⟨qFiles.set i q, i + 1⟩, .error .panic)
      | (q, .error .eof) =>
        -- shift to the older file, whose position is set to its end right away
        let qFiles := qFiles.set i q
        readNextFrom i (if i = 0 then qFiles else qFiles.modify (i - 1) QLogFile.seekStart)

/-- `ReadNext`. -/
def readNext (r : QLogReader) : QLogReader × Except ReadErr (List UInt8) :=
  if r.qFiles.length = 0 then (r, .error .eof) else readNextFrom r.currentFile r.qFiles

/-- What `n` calls of `ReadNext` return. -/
def reads : Nat → QLogReader → List (Except ReadErr (List UInt8))
  | 0, _ => []
  | n + 1, r => r.readNext.2 :: reads n r.readNext.1

end QLogReader

/-- Lines of a log: not empty, and of at most `limit` bytes without the line break. -/
def LinesUpTo (limit : Nat) (lines : List (List UInt8)) : Prop :=
  ∀ line ∈ lines, line ≠ [] ∧ 10 ∉ line ∧ line.length ≤ limit

instance (limit : Nat) (lines : List (List UInt8)) : Decidable (LinesUpTo limit lines) :=
  inferInstanceAs (Decidable (∀ line ∈ lines, _ ∧ _ ∧ _))

/-! ### One file -/

namespace QLogFile

variable {q : QLogFile} {lines : List (List UInt8)}

/-- The reader of a file has these lines still to read. -/
structure Waiting (q : QLogFile) (lines : List (List UInt8)) : Prop where
  contents : ∃ later, q.file = unlines (lines ++ later)
  position : q.position = (unlines lines).length - 1
  ready : q.Ready q.position

theorem waiting_seekStart (contents : q.file = unlines lines) : q.seekStart.Waiting lines where
  contents := ⟨[], by rw [List.append_nil]; exact contents⟩
  position := by simp only [seekStart, contents]
  ready buffer held := by cases held

theorem readNext_nil (waiting : q.Waiting []) : q.readNext = (q, .error .eof) := by
  have position : q.position = 0 := waiting.position
  rw [readNext, if_pos position]

theorem readNext_concat {line : List UInt8} (waiting : q.Waiting (lines ++ [line]))
    (good : LinesUpTo maxEntrySize [line]) :
    ∃ q', q.readNext = (q', .ok line) ∧ q'.file = q.file ∧ q'.Waiting lines := by
  obtain ⟨nonempty, single, short⟩ := good line (by simp)
  obtain ⟨later, contents⟩ := waiting.contents
  rw [List.append_assoc, List.singleton_append] at contents
  have some_ : 0 < line.length := List.length_pos_iff.mpr nonempty
  have position : q.position = (unlines lines).length + line.length := by
    rw [waiting.position, unlines_concat]
    omega
  have isLine := isLine_unlines lines single later
  have text := between_unlines lines line later
  rw [← contents] at isLine text
  have ready := waiting.ready
  rw [position] at ready
  obtain ⟨q', read, sameFile, ready'⟩ := readNextLine_line isLine (by omega) ready
  rw [text] at read
  unfold readNext
  rw [if_neg (by omega), position, read]
  refine ⟨_, rfl, sameFile, ⟨line :: later, ?_⟩, ?_, ?_⟩
  · rw [← contents]
    exact sameFile
  · dsimp only
    split <;> omega
  · -- the position has only moved to the left
    intro buffer held
    have holds := ready' buffer held
    refine ⟨holds.size, ?_, holds.bytes⟩
    have reaches := holds.reaches
    dsimp only
    split <;> omega

end QLogFile

/-! ### All files -/

namespace QLogReader

open QLogFile

variable {r : QLogReader} {older : List (List (List UInt8))} {current : List (List UInt8)}

/-- The files consist of these lines. -/
def Contain (qFiles : List QLogFile) (logs : List (List (List UInt8))) : Prop :=
  ∀ (i : Nat) (lines : List (List UInt8)), logs[i]? = some lines → ∃ q : QLogFile, qFiles[i]? = some q ∧ q.file = unlines lines

/-- The current file has the lines `current` still to read, and the files before it are
`older`. -/
structure Pending (r : QLogReader) (older : List (List (List UInt8))) (current : List (List UInt8)) :
    Prop where
  index : r.currentFile = older.length + 1
  contents : Contain r.qFiles older
  file : ∃ q : QLogFile, r.qFiles[older.length]? = some q ∧ q.Waiting current

/-- The reader has these lines still to read. -/
def Left (r : QLogReader) (lines : List (List UInt8)) : Prop :=
  (lines = [] ∧ (r.currentFile = 0 ∨ r.qFiles = [])) ∨
    ∃ older current, r.Pending older current ∧ lines = older.flatten ++ current

theorem Contain.set {qFiles : List QLogFile} (contain : Contain qFiles older) {i : Nat}
    (behind : older.length ≤ i) (q : QLogFile) : Contain (qFiles.set i q) older := by
  intro j lines found
  obtain ⟨before, -⟩ := List.getElem?_eq_some_iff.mp found
  rw [List.getElem?_set_ne (by omega)]
  exact contain j lines found

/-- Going on in the newest of the files, which is read from its end. -/
theorem Contain.pending {qFiles : List QLogFile} {lines : List (List UInt8)}
    (contain : Contain qFiles (older ++ [lines])) :
    Pending ⟨qFiles.modify older.length QLogFile.seekStart, older.length + 1⟩ older lines where
  index := rfl
  contents i log found := by
    obtain ⟨before, -⟩ := List.getElem?_eq_some_iff.mp found
    have other : older.length ≠ i := by omega
    dsimp only
    simp only [List.getElem?_modify, other, if_false, Option.map_eq_map, Option.map_id_fun', id]
    apply contain i log
    rw [List.getElem?_append_left before]
    exact found
  file := by
    obtain ⟨q, at_, sameFile⟩ := contain older.length lines (by simp)
    refine ⟨q.seekStart, ?_, waiting_seekStart sameFile⟩
    rw [List.getElem?_modify_eq, at_]
    rfl

theorem readNextFrom_concat {qFiles : List QLogFile} {line : List UInt8}
    (pending : Pending ⟨qFiles, older.length + 1⟩ older (current ++ [line]))
    (good : LinesUpTo maxEntrySize [line]) :
    ∃ r', readNextFrom (older.length + 1) qFiles = (r', .ok line) ∧ r'.Pending older current := by
  obtain ⟨q, at_, waiting⟩ := pending.file
  obtain ⟨q', read, -, waiting'⟩ := QLogFile.readNext_concat waiting good
  dsimp only at at_
  refine ⟨⟨qFiles.set older.length q', older.length + 1⟩, ?_, rfl, ?_, q', ?_, waiting'⟩
  · rw [readNextFrom, at_]
    dsimp only
    rw [read]
  · exact pending.contents.set (Nat.le_refl _) q'
  · obtain ⟨inside, -⟩ := List.getElem?_eq_some_iff.mp at_
    exact List.getElem?_set_self inside

/-- `ReadNext` returns the last of the lines that are left, or `io.EOF`. -/
theorem readNextFrom_left {qFiles : List QLogFile}
    (pending : Pending ⟨qFiles, older.length + 1⟩ older current)
    (good : LinesUpTo maxEntrySize (older.flatten ++ current)) :
    (older.flatten ++ current = [] ∧
        ∃ r', readNextFrom (older.length + 1) qFiles = (r', .error .eof) ∧ r'.Left []) ∨
      ∃ lines line r', older.flatten ++ current = lines ++ [line] ∧
        readNextFrom (older.length + 1) qFiles = (r', .ok line) ∧ r'.Left lines := by
  induction older using List.reverseRecOn generalizing qFiles current with
  | nil =>
    rcases List.eq_nil_or_concat current with rfl | ⟨front, line, rfl⟩
    · left
      obtain ⟨q, at_, waiting⟩ := pending.file
      dsimp only at at_
      refine ⟨rfl, ⟨qFiles.set 0 q, 0⟩, ?_, .inl ⟨rfl, .inl rfl⟩⟩
      rw [readNextFrom, at_]
      dsimp only
      rw [readNext_nil waiting]
      rfl
    · right
      rw [List.concat_eq_append] at pending good ⊢
      have own : LinesUpTo maxEntrySize [line] := fun text member => good text (by simp_all)
      obtain ⟨r', read, pending'⟩ := readNextFrom_concat pending own
      exact ⟨front, line, r', rfl, read, .inr ⟨[], front, pending', rfl⟩⟩
  | append_singleton older log ih =>
    rcases List.eq_nil_or_concat current with rfl | ⟨front, line, rfl⟩
    · -- the current file is read to its end, and the loop goes on with the older one
      obtain ⟨q, at_, waiting⟩ := pending.file
      have contain := pending.contents.set (Nat.le_refl _) q
      dsimp only at at_ contain
      have next : readNextFrom ((older ++ [log]).length + 1) qFiles =
          readNextFrom (older.length + 1)
            ((qFiles.set (older ++ [log]).length q).modify older.length QLogFile.seekStart) := by
        rw [readNextFrom, at_]
        dsimp only
        rw [readNext_nil waiting]
        simp
      have rest := ih contain.pending (by simpa using good)
      rw [next]
      simpa using rest
    · right
      rw [List.concat_eq_append] at pending good ⊢
      have own : LinesUpTo maxEntrySize [line] := fun text member => good text (by simp_all)
      obtain ⟨r', read, pending'⟩ := readNextFrom_concat pending own
      refine ⟨(older ++ [log]).flatten ++ front, line, r', ?_, read, .inr ⟨_, front, pending', rfl⟩⟩
      rw [List.append_assoc]

theorem readNext_left {lines : List (List UInt8)} (left_ : r.Left lines)
    (good : LinesUpTo maxEntrySize lines) :
    (lines = [] ∧ ∃ r', r.readNext = (r', .error .eof) ∧ r'.Left []) ∨
      ∃ front line r', lines = front ++ [line] ∧ r.readNext = (r', .ok line) ∧ r'.Left front := by
  unfold readNext
  rcases left_ with ⟨rfl, done⟩ | ⟨older, current, pending, rfl⟩
  · left
    refine ⟨rfl, r, ?_, .inl ⟨rfl, done⟩⟩
    split
    · rfl
    · rename_i some_
      rcases done with zero | none
      · obtain ⟨qFiles, currentFile⟩ := r
        dsimp only at zero
        subst zero
        rfl
      · simp [none] at some_
  · obtain ⟨q, at_, -⟩ := pending.file
    obtain ⟨inside, -⟩ := List.getElem?_eq_some_iff.mp at_
    obtain ⟨qFiles, currentFile⟩ := r
    have index := pending.index
    dsimp only at index inside ⊢
    subst index
    rw [if_neg (by omega)]
    exact readNextFrom_left pending good

/-- Repeated reading gives the lines that are left, from the last one on, and then `io.EOF`. -/
theorem reads_left {lines : List (List UInt8)} (left_ : r.Left lines)
    (good : LinesUpTo maxEntrySize lines) (n : Nat) :
    r.reads n = (lines.reverse.map Except.ok ++ List.replicate n (Except.error ReadErr.eof)).take n := by
  induction n generalizing r lines with
  | zero => rfl
  | succ n ih =>
    rcases readNext_left left_ good with ⟨rfl, r', read, left'⟩ | ⟨front, line, r', rfl, read, left'⟩
    · rw [reads, read, ih left' good]
      simp [List.replicate_succ]
    · have shorter : LinesUpTo maxEntrySize front :=
        fun text member => good text (List.mem_append_left _ member)
      rw [reads, read, ih left' shorter]
      simp [List.replicate_succ', ← List.append_assoc, List.take_append]

/-- From `SeekStart` on all lines are left. -/
theorem left_seekStart {logs : List (List (List UInt8))}
    (contents : r.qFiles.map QLogFile.file = logs.map unlines) : r.seekStart.Left logs.flatten := by
  have length : r.qFiles.length = logs.length := by simpa using congrArg List.length contents
  have contain : Contain r.qFiles logs := by
    intro i lines found
    have same := congrArg (·[i]?) contents
    simp only [List.getElem?_map, found, Option.map_some, Option.map_eq_some_iff] at same
    exact same
  unfold seekStart
  rcases List.eq_nil_or_concat logs with rfl | ⟨older, current, rfl⟩
  · have none : r.qFiles = [] := List.eq_nil_of_length_eq_zero length
    rw [if_pos (List.length_eq_zero_iff.mpr none)]
    exact .inl ⟨rfl, .inr none⟩
  · rw [List.concat_eq_append] at contain length ⊢
    rw [List.length_append, List.length_singleton] at length
    rw [if_neg (by omega), length, Nat.add_sub_cancel]
    exact .inr ⟨older, current, contain.pending, by simp⟩

/-- Reading backwards loses nothing. In whatever state the reader and its files are, after
`SeekStart` it returns every line of every file once and whole, from the last line of the newest
file to the first line of the oldest, and then `io.EOF` for good. -/
theorem reads_lossless (r : QLogReader) (logs : List (List (List UInt8)))
    (contents : r.qFiles.map QLogFile.file = logs.map unlines)
    (good : ∀ lines ∈ logs, LinesUpTo maxEntrySize lines) (n : Nat) :
    r.seekStart.reads n =
      (logs.flatten.reverse.map Except.ok ++ List.replicate n (Except.error ReadErr.eof)).take n := by
  refine reads_left (left_seekStart contents) ?_ n
  intro line member
  obtain ⟨lines, listed, inLines⟩ := List.mem_flatten.mp member
  exact good lines listed line inLines

/-- Two files around an empty one, of two lines and one. -/
theorem reads_lossless_three : (newQLogReader ([[[65], [66, 67]], [], [[68]]].map unlines)).seekStart.reads 5 =
    [.ok [68], .ok [66, 67], .ok [65], .error .eof, .error .eof] :=
  reads_lossless (newQLogReader ([[[65], [66, 67]], [], [[68]]].map unlines)) [[[65], [66, 67]], [], [[68]]]
    rfl (by decide) 5

end QLogReader

end FirewallCore.Querylog.Disk
