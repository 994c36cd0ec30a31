import Mathlib.Data.List.Nodup
import Mathlib.Data.List.Perm.Subperm
import FirewallCore.Lib.Run
import FirewallCore.Lib.RingBuffer

/-!
Adding to the query log and flushing it (`qlog.go`, `querylogfile.go`).

`Add` pushes to the ring buffer under `bufferLock`. A flush takes the entries
out of it under the same lock and then writes them to the file, and holds
`fileFlushLock` from the first to the last of this, so that there is at most
one batch at a time. Who calls `flushLogBuffer` and when is left open. Neither
the encoding nor the content of an entry matters; an entry is the pointer that
`newLogEntry` has allocated.
-/

namespace FirewallCore.Querylog

open FirewallCore.Lib

/-- A `*logEntry`: its allocation number. -/
abbrev LogEntry := Nat

/-- The part of `AddParams` that is validated. -/
structure AddParams where
  /-- The names in the questions of the request, if there is one. -/
  question : Option (List String)
  hasClientIP : Bool
  deriving DecidableEq, Repr

/-- `validate`. -/
def AddParams.validate (p : AddParams) : Option String :=
  match p.question with
  | none => some "question is nil"
  | some [name] =>
    if name = "" then some "no host in question"
    else if !p.hasClientIP then some "no client ip"
    else none
  | some _ => some "more than one question"

/-- `Config`, as far as `Add` and the flush read it. -/
structure Config where
  memSize : Nat
  enabled : Bool
  fileEnabled : Bool
  deriving DecidableEq, Repr

structure QueryLog where
  conf : Config
  buffer : RingBuffer LogEntry
  flushPending : Bool
  /-- The entries of a flush that holds `fileFlushLock`. -/
  batch : Option (List LogEntry)
  logFile : List LogEntry
  /-- The number of entries that have been allocated. -/
  next : LogEntry

namespace QueryLog

/-- `newQueryLog`. -/
def newQueryLog (conf : Config) : QueryLog :=
  { conf := conf
    buffer :=
      if memory : conf.memSize = 0 then .empty 1 Nat.one_pos
      else .empty conf.memSize (Nat.pos_of_ne_zero memory)
    flushPending := false
    batch := none
    logFile := []
    next := 0 }

/-- The steps of the goroutines. -/
inductive Event where
  | add (params : AddParams)
  | encodeEntries
  | flushToFile
  | search

inductive Answer where
  /-- Logging is disabled. -/
  | ignored
  /-- "adding record" -/
  | invalid (text : String)
  /-- The entry, and whether a flush was started after it. -/
  | added (entry : LogEntry) (flush : Bool)
  /-- "nothing to write to a file" -/
  | nothingToWrite
  | encoded
  | flushed
  | searched
  deriving DecidableEq, Repr

/-- An `Add` is accepted: logging is enabled and the parameters are valid. -/
def Accepts (l : QueryLog) (params : AddParams) : Prop :=
  l.conf.enabled = true ∧ params.validate = none

/-- The critical section of `Add`. -/
def push (l : QueryLog) : QueryLog × Answer :=
  let buffer := l.buffer.push l.next
  let flush := !l.flushPending && l.conf.fileEnabled && decide (l.conf.memSize ≤ buffer.len)
  ({ l with buffer := buffer, flushPending := l.flushPending || flush, next := l.next + 1 },
    .added l.next flush)

/-- One step; `none` when a lock is held by another flush or no flush is there to go on. -/
def step (l : QueryLog) : Event → Option (QueryLog × Answer)
  | .add params =>
    if !l.conf.enabled then some (l, .ignored)
    else
      match params.validate with
      | some text => some (l, .invalid text)
      | none => some l.push
  | .encodeEntries =>
    if l.batch.isSome then none
    else if l.buffer.len = 0 then some (l, .nothingToWrite)
    else some ({ l with batch := some l.buffer.elems, buffer := l.buffer.clear
                        flushPending := false }, .encoded)
  | .flushToFile =>
    match l.batch with
    | none => none
    | some entries => some ({ l with logFile := l.logFile ++ entries, batch := none }, .flushed)
  | .search => some (l, .searched)

/-- `flushLogBuffer` on its own: both steps one after the other. -/
def flushLogBuffer (l : QueryLog) : Option QueryLog :=
  match l.step .encodeEntries with
  | none => none
  | some (l', .encoded) => (l'.step .flushToFile).map (·.1)
  | some (l', _) => some l'

/-- Where the entries are, from the oldest on. -/
def held (l : QueryLog) : List LogEntry := l.logFile ++ l.batch.getD [] ++ l.buffer.elems

/-- Every accepted entry is in the file, in the batch or in the buffer, and in one of them
only. -/
def Conserved (l : QueryLog) : Prop := ∀ entry, entry < l.next → l.held.count entry = 1

/-- An accepted entry finds room in the buffer. -/
def HasRoom (l : QueryLog) : Event → Prop
  | .add params => l.Accepts params → l.buffer.len < l.buffer.cap
  | _ => True

/-- The invariant: all entries are there, in the order in which they were added. -/
def Inv (l : QueryLog) : Prop := l.held = List.range l.next

section Steps

variable {l l' : QueryLog} {answer : Answer}

theorem held_push_of_room (room : l.buffer.len < l.buffer.cap) :
    l.push.1.held = l.held ++ [l.next] := by
  unfold push held
  dsimp only
  rw [RingBuffer.elems_push_of_room room, ← List.append_assoc]

/-- A full buffer loses an entry for each one it gets. -/
theorem length_held_push_of_full (full : ¬l.buffer.len < l.buffer.cap) :
    l.push.1.held.length = l.held.length := by
  have same : (l.buffer.push l.next).elems.length = l.buffer.elems.length :=
    RingBuffer.len_push_of_full full l.next
  unfold push held
  dsimp only
  simp only [List.length_append, same]

theorem newQueryLog_inv (conf : Config) : Inv (newQueryLog conf) := by
  unfold Inv newQueryLog held
  dsimp only
  split <;> rfl

theorem Inv.conserved (inv : Inv l) : Conserved l := by
  intro entry allocated
  rw [inv]
  exact List.count_eq_one_of_mem List.nodup_range (List.mem_range.mpr allocated)

theorem Inv.step (inv : Inv l) {e : Event} (room : l.HasRoom e)
    (taken : l.step e = some (l', answer)) : Inv l' := by
  cases e with
  | add params =>
    simp only [QueryLog.step] at taken
    split at taken
    · cases taken
      exact inv
    rename_i enabled
    split at taken
    · cases taken
      exact inv
    · rename_i valid
      have room := room ⟨by simpa using enabled, valid⟩
      cases taken
      change l.push.1.held = List.range (l.next + 1)
      rw [held_push_of_room room, inv, List.range_succ]
  | encodeEntries =>
    simp only [QueryLog.step] at taken
    split at taken
    · cases taken
    rename_i idle
    split at taken
    · cases taken
      exact inv
    · cases taken
      have none : l.batch = none := by simpa using idle
      unfold Inv held at inv ⊢
      rw [none] at inv
      simpa [RingBuffer.clear, RingBuffer.empty] using inv
  | flushToFile =>
    simp only [QueryLog.step] at taken
    split at taken
    · cases taken
    · rename_i entries batch
      cases taken
      unfold Inv held at inv ⊢
      rw [batch] at inv
      simpa using inv
  | search =>
    cases taken
    exact inv

/-- An accepted entry without room costs another one its place. -/
theorem Inv.loses (inv : Inv l) {e : Event} (full : ¬l.HasRoom e)
    (taken : l.step e = some (l', answer)) : ¬Conserved l' := by
  intro conserved
  cases e with
  | add params =>
    simp only [HasRoom, Classical.not_imp] at full
    obtain ⟨⟨enabled, valid⟩, full⟩ := full
    simp only [QueryLog.step, enabled, Bool.not_true, Bool.false_eq_true, if_false, valid] at taken
    cases taken
    have all : List.range (l.next + 1) ⊆ l.push.1.held := by
      intro entry member
      have once : l.push.1.held.count entry = 1 := conserved entry (List.mem_range.mp member)
      exact List.count_pos_iff.mp (by omega)
    have long := (List.nodup_range.subperm all).length_le
    rw [length_held_push_of_full full, inv, List.length_range, List.length_range] at long
    omega
  | encodeEntries => exact full trivial
  | flushToFile => exact full trivial
  | search => exact full trivial

theorem step_add (l : QueryLog) (params : AddParams) :
    ∃ l' answer, l.step (.add params) = some (l', answer) := by
  simp only [QueryLog.step]
  split
  · exact ⟨_, _, rfl⟩
  · split
    · exact ⟨_, _, rfl⟩
    · exact ⟨_, _, rfl⟩

/-- Entries that were added are conserved in every state of an interleaving exactly when each
of them found room in the buffer; and then a last flush leaves all of them in the file, once
and in order. -/
theorem entries_conserved_iff (conf : Config) (events : List Event) :
    (Always QueryLog.step Conserved (newQueryLog conf) events ↔
      Meets QueryLog.step HasRoom (newQueryLog conf) events) ∧
    ∀ l, Reaches QueryLog.step HasRoom (newQueryLog conf) l → l.batch = none →
      ∃ l', l.flushLogBuffer = some l' ∧ l'.logFile = List.range l.next := by
  constructor
  · refine always_iff_meets (I := Inv) (fun _ inv => inv.conserved)
      (fun _ _ _ _ inv taken room => inv.step room taken)
      (fun _ _ _ _ inv taken full => inv.loses full taken) ?_ (newQueryLog_inv conf)
    intro l e _ full
    cases e with
    | add params => exact step_add l params
    | encodeEntries => exact absurd trivial full
    | flushToFile => exact absurd trivial full
    | search => exact absurd trivial full
  · intro l run idle
    have inv : Inv l := run.invariant (newQueryLog_inv conf)
      fun _ _ _ _ inv room taken => inv.step room taken
    unfold Inv held at inv
    rw [idle, Option.getD_none, List.append_nil] at inv
    by_cases empty : l.buffer.len = 0
    · refine ⟨l, ?_, ?_⟩
      · simp [flushLogBuffer, QueryLog.step, idle, empty]
      · rwa [List.eq_nil_of_length_eq_zero empty, List.append_nil] at inv
    · refine ⟨{ l with logFile := l.logFile ++ l.buffer.elems, batch := none
                       buffer := l.buffer.clear, flushPending := false }, ?_, inv⟩
      simp [flushLogBuffer, QueryLog.step, idle, empty]

/-- A buffer for one entry, and a valid request. -/
def smallConf : Config := { memSize := 1, enabled := true, fileEnabled := true }

def request : AddParams := { question := some ["example.org."], hasClientIP := true }

theorem entries_conserved_iff_one :
    Always QueryLog.step Conserved (newQueryLog smallConf) [.add request, .encodeEntries] ∧
    ∃ l', (newQueryLog smallConf).push.1.flushLogBuffer = some l' ∧ l'.logFile = [0] := by
  have room : HasRoom (newQueryLog smallConf) (.add request) := fun _ => by decide
  have run : Reaches QueryLog.step HasRoom (newQueryLog smallConf) (newQueryLog smallConf).push.1 :=
    Reaches.refl.tail room rfl
  constructor
  · refine (entries_conserved_iff smallConf [.add request, .encodeEntries]).1.mpr ⟨room, ?_⟩
    intro l' answer _
    exact ⟨trivial, fun _ _ _ => trivial⟩
  · exact (entries_conserved_iff smallConf []).2 _ run rfl

/-- The second of two entries takes the place of the first when the flush is late. -/
theorem entries_not_conserved : ¬∀ (conf : Config) (events : List Event),
    Always QueryLog.step Conserved (newQueryLog conf) events := by
  intro always
  obtain ⟨-, later⟩ := always smallConf [.add request, .add request]
  obtain ⟨-, last⟩ := later _ _ rfl
  have conserved : Conserved (newQueryLog smallConf).push.1.push.1 := last _ _ rfl
  exact absurd (conserved 0 (by decide)) (by decide)

end Steps

end QueryLog

end FirewallCore.Querylog
