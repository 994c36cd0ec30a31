import Mathlib.Data.List.Sort
import FirewallCore.Querylog.Search

/-!
Listing the query log page by page.

The lines of the files are taken from the newest on. A page lists the entries
in memory and the hits among the lines that it reads. Where the next page
starts to read depends on the last entry of a page, or on the last line read if
there is none.
-/

namespace FirewallCore.Querylog.Search

open QLogReader

section Paging

variable (env : Env) (l : QueryLog) (criteria : List SearchCriterion) (limit budget : Nat)

/-- The parameters of a page. -/
def pageParams (olderThan : Option Nat) : SearchParams := ⟨olderThan, criteria, 0, limit, budget⟩

/-- An entry that is to be listed. -/
def wanted (entry : LogEntry) : Bool := criteria.all (·.matches env entry) && !isIgnored env entry

/-- A line that a page lists. -/
def hit (line : Line) : Bool := criteria.all (·.quickMatch env line) && wanted env criteria line.entry

/-- A line that is read without a timestamp. -/
def stale (line : Line) : Bool := criteria.all (·.quickMatch env line) && isIgnored env line.entry

/-- The entries that pages list of some lines. -/
def hits (lines : List Line) : List LogEntry := (lines.filter (hit env criteria)).map (·.entry)

/-- The time that a page without entries returns. -/
def scanTime (lines : List Line) : Option Nat :=
  match lines[budget - 1]? with
  | none => none
  | some line => if stale env criteria line then none else some line.time

/-- The entries that pages list of the buffer, from the newest on. -/
def memoryHits : List LogEntry :=
  if l.memSize = 0 then [] else l.buffer.reverse.filter fun e => criteria.all (·.matches env e)

/-- The lines of the log files, from the newest on. -/
def fileLines : List Line := newestFirst l.files

/-- What is to be listed, from the newest on. -/
def expected : List LogEntry := (l.buffer.reverse ++ (fileLines l).map (·.entry)).filter (wanted env criteria)

/-- No line at the end of a budget between two hits is without a timestamp. -/
def Budgeted (lines : List Line) : Prop :=
  ∀ before gap line after k last, lines = before ++ gap ++ line :: after →
    (∀ x, before.getLast? = some x → hit env criteria x = true) →
    (∀ x ∈ gap, hit env criteria x = false) → hit env criteria line = true →
    gap[(k + 1) * budget - 1]? = some last → stale env criteria last = false

/-- The logs that are listed completely. -/
structure Pageable : Prop where
  memory : l.memSize = 0 → ∀ entry ∈ l.buffer, wanted env criteria entry = false
  quick : ∀ line ∈ fileLines l, wanted env criteria line.entry = true →
    criteria.all (·.quickMatch env line) = true
  first : limit ≤ (memoryHits env l criteria).length → ∀ line older, fileLines l = line :: older →
    hit env criteria line = false
  budgeted : Budgeted env criteria budget
    ((fileLines l).drop (if memoryHits env l criteria = [] then 0 else 1))

/-- What a page for a time has to do with: the matching entries in memory and the lines behind the
position in the files. -/
structure At (olderThan : Option Nat) (mem : List LogEntry) (lines : List Line) : Prop where
  inMemory : searchMemory env l (pageParams criteria limit budget olderThan) = mem
  older : ∀ line ∈ lines, isOlder olderThan line.entry = true
  reader : (∃ r, seekRecord l.files olderThan = some r ∧ r.unread = lines) ∨
    seekRecord l.files olderThan = none ∧ lines = []
  ordered : (mem ++ lines.map (·.entry)).Pairwise (fun a b => b.time ≤ a.time)

end Paging

/-! ### One page -/

section Page

variable {env : Env} {l : QueryLog} {criteria : List SearchCriterion} {limit budget : Nat}
  {olderThan : Option Nat}

/-- What becomes of a line that is old enough. -/
theorem readNextEntry_eq {line : Line} (older : isOlder olderThan line.entry = true) :
    readNextEntry env (pageParams criteria limit budget olderThan) line =
      if hit env criteria line then (some line.entry, line.time)
      else (none, if stale env criteria line then 0 else line.time) := by
  simp only [readNextEntry, SearchParams.quickMatch, SearchParams.matches, pageParams, older, hit,
    stale, wanted]
  by_cases quick : criteria.all (·.quickMatch env line) = true <;>
    by_cases ignored : isIgnored env line.entry = true <;>
    by_cases found : criteria.all (·.matches env line.entry) = true <;> simp [quick, ignored, found]

/-- The loop reads lines up to the budget and lists the hits up to the limit. -/
theorem readEntries_eq {r : QLogReader} {lines : List Line} {rounds total oldest : Nat}
    {entries : List LogEntry} (unread : r.unread = lines) (enough : lines.length < rounds)
    (older : ∀ line ∈ lines, isOlder olderThan line.entry = true) (within : total ≤ budget)
    (positive : 0 < budget) (room : entries.length < limit) :
    ∃ nano, readEntries env (pageParams criteria limit budget olderThan) limit rounds r total entries
        oldest = (entries ++ (hits env criteria (lines.take (budget - total))).take
          (limit - entries.length), nano) ∧
      (hits env criteria (lines.take (budget - total)) = [] →
        nano = if total = budget then oldest
          else match lines[budget - total - 1]? with
            | none => 0
            | some line => if stale env criteria line then 0 else line.time) := by
  induction rounds generalizing r lines total entries oldest with
  | zero => omega
  | succ rounds ih =>
    have scans : (pageParams criteria limit budget olderThan).maxFileScanEntries = budget := rfl
    rw [readEntries, scans]
    by_cases full : total = budget
    · have spent : ¬(total < budget ∨ budget = 0) := by omega
      rw [if_neg spent]
      exact ⟨oldest, by simp [full, hits], fun _ => (if_pos full).symm⟩
    have unspent : total < budget ∨ budget = 0 := by omega
    rw [if_pos unspent]
    cases lines with
    | nil =>
      rw [readNext_nil unread]
      exact ⟨0, by simp [hits], fun _ => by simp [full]⟩
    | cons line rest =>
      obtain ⟨r', read, unread'⟩ := readNext_cons unread
      obtain ⟨left, spend⟩ : ∃ left, budget - total = left + 1 := ⟨budget - total - 1, by omega⟩
      have later : budget - (total + 1) = left := by omega
      have olderRest : ∀ line ∈ rest, isOlder olderThan line.entry = true :=
        fun line member => older line (List.mem_cons_of_mem _ member)
      rw [List.length_cons] at enough
      simp only [read, readNextEntry_eq (older line List.mem_cons_self), spend, List.take_succ_cons]
      by_cases here : hit env criteria line = true
      · have first : hits env criteria (line :: rest.take left) =
            line.entry :: hits env criteria (rest.take left) := by simp [hits, here]
        have more : (entries ++ [line.entry]).length = entries.length + 1 := by simp
        rw [if_pos here, first]
        by_cases done : entries.length + 1 = limit
        · refine ⟨line.time, ?_, by simp⟩
          have one : limit - entries.length = 1 := by omega
          simp [more, done, one]
        · obtain ⟨nano, result, -⟩ := @ih r' rest (total + 1) line.time (entries ++ [line.entry])
            unread' (by omega) olderRest (by omega) (by omega)
          refine ⟨nano, ?_, by simp⟩
          have fewer : limit - entries.length = limit - (entries.length + 1) + 1 := by omega
          simp only [more, if_neg done, result, later, fewer, List.take_succ_cons]
          simp
      · have none : hits env criteria (line :: rest.take left) = hits env criteria (rest.take left) := by
          simp [hits, here]
        obtain ⟨nano, result, time⟩ := @ih r' rest (total + 1)
          (if stale env criteria line then 0 else line.time) entries unread' (by omega) olderRest
          (by omega) room
        rw [later] at result time
        rw [if_neg here, none]
        refine ⟨nano, result, ?_⟩
        intro empty
        rw [time empty, if_neg full, Nat.add_sub_cancel]
        by_cases last : total + 1 = budget
        · have zero : left = 0 := by omega
          simp [last, zero]
        · obtain ⟨left', rfl⟩ : ∃ left', left = left' + 1 := ⟨left - 1, by omega⟩
          simp [last]

theorem searchFiles_at {mem : List LogEntry} {lines : List Line}
    (here : At env l criteria limit budget olderThan mem lines)
    (someLimit : 0 < limit) (someBudget : 0 < budget) :
    ∃ oldest, searchFiles env l (pageParams criteria limit budget olderThan) =
        ((hits env criteria (lines.take budget)).take limit, oldest) ∧
      (hits env criteria (lines.take budget) = [] → oldest = scanTime env criteria budget lines) := by
  have asked : (pageParams criteria limit budget olderThan).olderThan = olderThan := rfl
  have total : (pageParams criteria limit budget olderThan).offset +
      (pageParams criteria limit budget olderThan).limit = limit := Nat.zero_add limit
  rcases here.reader with ⟨r, found, unread⟩ | ⟨missing, rfl⟩
  · obtain ⟨nano, result, time⟩ := @readEntries_eq env criteria limit budget olderThan r lines
      (lines.length + 1) 0 0 [] unread (Nat.lt_succ_self _) here.older (Nat.zero_le budget) someBudget
      someLimit
    simp only [searchFiles, asked, total, found, unread, result]
    refine ⟨_, rfl, ?_⟩
    intro empty
    have notSpent : 0 ≠ budget := by omega
    rw [time empty, if_neg notSpent, scanTime, Nat.sub_zero]
    cases lines[budget - 1]? with
    | none => rfl
    | some line =>
      by_cases old : stale env criteria line = true
      · simp [old]
      · simp [old, Nat.ne_of_gt line.entry.positive]
  · simp only [searchFiles, asked, missing]
    exact ⟨none, by simp [hits], by simp [scanTime]⟩

theorem hits_sublist (lines : List Line) (n : Nat) :
    (hits env criteria (lines.take n)).Sublist (lines.map (·.entry)) := by
  unfold hits
  exact ((List.filter_sublist).trans (List.take_sublist n lines)).map _

/-- A page lists the entries in memory, then the hits among the lines it reads. -/
theorem search_at {mem : List LogEntry} {lines : List Line}
    (here : At env l criteria limit budget olderThan mem lines)
    (someLimit : 0 < limit) (someBudget : 0 < budget) :
    search env l (pageParams criteria limit budget olderThan) =
      ((mem ++ hits env criteria (lines.take budget)).take limit,
        match ((mem ++ hits env criteria (lines.take budget)).take limit).getLast? with
        | none => scanTime env criteria budget lines
        | some entry => some entry.time) := by
  obtain ⟨oldest, files, time⟩ := searchFiles_at here someLimit someBudget
  have nonzero : (pageParams criteria limit budget olderThan).limit ≠ 0 := by
    change limit ≠ 0
    omega
  have same : (pageParams criteria limit budget olderThan).limit = limit := rfl
  have noOffset : (pageParams criteria limit budget olderThan).offset = 0 := rfl
  have cut : (mem ++ (hits env criteria (lines.take budget)).take limit).take limit =
      (mem ++ hits env criteria (lines.take budget)).take limit := by
    rw [List.take_append, List.take_append, List.take_take, Nat.min_eq_left (Nat.sub_le _ _)]
  have sorted : ((mem ++ hits env criteria (lines.take budget)).take limit).mergeSort
      (fun a b => decide (b.time ≤ a.time)) = (mem ++ hits env criteria (lines.take budget)).take limit := by
    apply List.mergeSort_of_pairwise
    have part : (hits env criteria (lines.take budget)).Sublist (lines.map (·.entry)) :=
      hits_sublist lines budget
    have ordered := here.ordered.sublist ((List.Sublist.refl mem).append part)
    simpa using ordered.sublist (List.take_sublist limit _)
  rw [search, if_neg nonzero]
  simp only [here.inMemory, files, same, noOffset, Nat.zero_add, cut, sorted, if_true]
  generalize listed : (mem ++ hits env criteria (lines.take budget)).take limit = entries
  cases last : entries.getLast? with
  | some entry => simp
  | none =>
    have empty : hits env criteria (lines.take budget) = [] := by
      rw [List.getLast?_eq_none_iff] at last
      rw [last, List.take_eq_nil_iff] at listed
      rcases listed with zero | nothing
      · omega
      · exact (List.append_eq_nil_iff.mp nothing).2
    simp [time empty]

/-! ### Where pages start -/

/-- All entries from the newest on. -/
theorem newest_sorted (l : QueryLog) :
    (l.buffer.reverse ++ (fileLines l).map (·.entry)).Pairwise (fun a b => b.time < a.time) := by
  have mirrored := List.pairwise_reverse.mpr l.sorted
  simpa [fileLines, newestFirst, QueryLog.files, Function.flip_def] using mirrored

theorem files_sorted (l : QueryLog) : Sorted l.files := by
  have lines := (List.pairwise_append.mp l.sorted).1
  rw [List.pairwise_map] at lines
  exact lines

theorem fileLines_nil (none : fileLines l = []) : l.files = [] := by
  rw [fileLines, newestFirst, List.reverse_eq_nil_iff, List.flatMap_eq_nil_iff] at none
  rw [List.eq_nil_iff_forall_not_mem]
  intro q member
  exact q.nonempty (none q member)

theorem searchMemory_eq :
    searchMemory env l (pageParams criteria limit budget olderThan) =
      (memoryHits env l criteria).filter (isOlder olderThan) := by
  unfold searchMemory memoryHits
  split
  · rfl
  · rw [List.filter_filter]
    rfl

theorem memoryHits_sublist : (memoryHits env l criteria).Sublist l.buffer.reverse := by
  unfold memoryHits
  split
  · exact List.nil_sublist _
  · exact List.filter_sublist

/-- The entries that pages can list, from the newest on. -/
theorem listed_sorted (env : Env) (l : QueryLog) (criteria : List SearchCriterion) :
    (memoryHits env l criteria ++ (fileLines l).map (·.entry)).Pairwise (fun a b => b.time < a.time) :=
  (newest_sorted l).sublist (memoryHits_sublist.append (List.Sublist.refl _))

theorem at_none : At env l criteria limit budget none (memoryHits env l criteria) (fileLines l) where
  inMemory := by
    rw [searchMemory_eq]
    exact List.filter_eq_self.mpr fun _ _ => rfl
  older := fun _ _ => rfl
  reader := .inl (seekRecord_none l.files)
  ordered := (listed_sorted env l criteria).imp fun less => Nat.le_of_lt less

/-- Behind an entry in memory. -/
theorem at_memory {newer rest : List LogEntry} {entry : LogEntry}
    (split : memoryHits env l criteria = newer ++ entry :: rest) :
    At env l criteria limit budget (some entry.time) rest ((fileLines l).drop 1) := by
  have ordered := listed_sorted env l criteria
  rw [split] at ordered
  obtain ⟨inMem, -, across⟩ := List.pairwise_append.mp ordered
  obtain ⟨-, behind, between⟩ := List.pairwise_append.mp inMem
  obtain ⟨afterEntry, -⟩ := List.pairwise_cons.mp behind
  have filesOlder : ∀ line ∈ fileLines l, line.time < entry.time := by
    intro line member
    exact across entry (by simp) line.entry (List.mem_map_of_mem member)
  constructor
  case inMemory =>
    rw [searchMemory_eq, split, List.filter_append, List.filter_cons]
    have newerOut : newer.filter (isOlder (some entry.time)) = [] := by
      rw [List.filter_eq_nil_iff]
      intro e member
      have later := between e member entry (by simp)
      simp [isOlder]
      omega
    have restIn : rest.filter (isOlder (some entry.time)) = rest := by
      rw [List.filter_eq_self]
      intro e member
      simpa [isOlder] using afterEntry e member
    rw [newerOut, restIn]
    simp [isOlder]
  case older =>
    intro line member
    simpa [isOlder] using filesOlder line (List.mem_of_mem_drop member)
  case reader =>
    cases lines : fileLines l with
    | nil => exact .inr ⟨by rw [fileLines_nil lines]; rfl, rfl⟩
    | cons line older => exact .inl (seekRecord_late filesOlder lines)
  case ordered =>
    have tail : rest.Sublist (newer ++ entry :: rest) :=
      (List.sublist_cons_self entry rest).trans (List.sublist_append_right newer _)
    have later := ordered.sublist (tail.append ((List.drop_sublist 1 (fileLines l)).map _))
    exact later.imp fun less => Nat.le_of_lt less

/-- Behind a line of the files. -/
theorem at_file {newer older : List Line} {line : Line} (split : fileLines l = newer ++ line :: older) :
    At env l criteria limit budget (some line.time) [] older := by
  have ordered := newest_sorted l
  rw [split, List.map_append, List.map_cons] at ordered
  obtain ⟨-, files, across⟩ := List.pairwise_append.mp ordered
  obtain ⟨-, behind, -⟩ := List.pairwise_append.mp files
  obtain ⟨afterLine, rest⟩ := List.pairwise_cons.mp behind
  constructor
  case inMemory =>
    rw [searchMemory_eq, List.filter_eq_nil_iff]
    intro e member
    have later := across e (memoryHits_sublist.subset member) line.entry (by simp)
    simp only [isOlder, Line.time, decide_eq_true_eq]
    omega
  case older =>
    intro line' member
    simpa [isOlder] using afterLine line'.entry (List.mem_map_of_mem member)
  case reader => exact .inl (seekRecord_found (files_sorted l) split)
  case ordered => exact rest.imp fun less => Nat.le_of_lt less

end Page

/-! ### Budgets -/

section Budget

variable {env : Env} {criteria : List SearchCriterion} {budget limit : Nat} {lines A R : List Line}
  {line : Line}

theorem hits_append (A B : List Line) : hits env criteria (A ++ B) = hits env criteria A ++ hits env criteria B := by
  simp [hits]

theorem hits_nil : hits env criteria lines = [] ↔ ∀ x ∈ lines, hit env criteria x = false := by
  simp [hits]

theorem budgeted_of_none (none : hits env criteria lines = []) : Budgeted env criteria budget lines := by
  intro before gap line after k last split _ _ found _
  rw [hits_nil] at none
  have missed := none line (by simp [split])
  rw [missed] at found
  exact absurd found (by simp)

theorem getLast?_of_append {α : Type} {A B : List α} {x : α} (final : B.getLast? = some x) :
    (A ++ B).getLast? = some x := by
  rw [List.getLast?_append, final]
  rfl

/-- What ends behind a hit, or behind something that ends so. -/
theorem ends_append {B : List Line} (ends : ∀ x, A.getLast? = some x → hit env criteria x = true)
    (ends' : ∀ x, B.getLast? = some x → hit env criteria x = true) :
    ∀ x, (A ++ B).getLast? = some x → hit env criteria x = true := by
  intro x final
  rw [List.getLast?_append] at final
  cases last : B.getLast? with
  | none =>
    rw [last] at final
    exact ends x final
  | some y =>
    rw [last] at final
    exact ends' x (last.trans final)

/-- A hit within the budget starts it again. -/
theorem budgeted_hit (found : hit env criteria line = true) (near : A.length < budget) :
    Budgeted env criteria budget (A ++ line :: R) ↔ Budgeted env criteria budget R := by
  constructor
  · intro all before gap next after k last split ends misses hits
    apply all (A ++ [line] ++ before) gap next after k last
    · rw [split]
      simp
    · refine ends_append ?_ ends
      intro x final
      rw [List.getLast?_concat] at final
      cases final
      exact found
    · exact misses
    · exact hits
  · intro all before gap next after k last split ends misses hits read
    have long : budget ≤ gap.length := by
      have inside := (List.getElem?_eq_some_iff.mp read).1
      have least : budget ≤ (k + 1) * budget := Nat.le_mul_of_pos_left budget (Nat.succ_pos k)
      omega
    have notInGap : line ∉ gap := by
      intro member
      have missed := misses line member
      rw [found] at missed
      exact absurd missed (by simp)
    rw [List.append_assoc] at split
    rcases List.append_eq_append_iff.mp split with ⟨mid, rfl, tail⟩ | ⟨mid, rfl, tail⟩
    · cases mid with
      | nil =>
        obtain ⟨first, gap, rfl⟩ := List.exists_cons_of_length_pos (show 0 < gap.length by omega)
        obtain ⟨rfl, -⟩ := List.cons.inj tail
        exact absurd List.mem_cons_self notInGap
      | cons first mid =>
        obtain ⟨rfl, rest⟩ := List.cons.inj tail
        apply all mid gap next after k last (rest.trans (List.append_assoc mid _ _).symm) _ misses hits read
        intro x final
        exact ends x (getLast?_of_append (A := A) (getLast?_of_append (A := [line]) final))
    · -- the gap would reach over the hit
      rw [List.length_append] at near
      have here : gap[mid.length]? = some line := by
        have at_ := congrArg (·[mid.length]?) tail
        simp only [List.getElem?_append_left (show mid.length < gap.length by omega)] at at_
        simpa using at_
      exact absurd (List.mem_of_getElem? here) notInGap

/-- Lines with a hit, up to the first one. -/
theorem exists_first_hit {D : List Line} (some : hits env criteria D ≠ []) :
    ∃ gap line after, D = gap ++ line :: after ∧ (∀ x ∈ gap, hit env criteria x = false) ∧
      hit env criteria line = true := by
  induction D with
  | nil => exact absurd rfl some
  | cons line rest ih =>
    by_cases here : hit env criteria line = true
    · exact ⟨[], line, rest, rfl, by simp, here⟩
    · have later : hits env criteria rest ≠ [] := by simpa [hits, here] using some
      obtain ⟨gap, found, after, split, misses, hits⟩ := ih later
      refine ⟨line :: gap, found, after, by rw [split, List.cons_append], ?_, hits⟩
      intro x member
      rcases List.mem_cons.mp member with rfl | inGap
      · simpa using here
      · exact misses x inGap

/-- Without a hit in a budget, its last line must have a timestamp if there is a hit later. -/
theorem budgeted_miss {T D : List Line} (positive : 0 < budget) (length : T.length = budget)
    (none : hits env criteria T = []) (later : hits env criteria D ≠ []) :
    Budgeted env criteria budget (T ++ D) ↔
      (∀ x, T[budget - 1]? = some x → stale env criteria x = false) ∧ Budgeted env criteria budget D := by
  rw [hits_nil] at none
  have succ : ∀ k, (k + 1 + 1) * budget - 1 - T.length = (k + 1) * budget - 1 := by
    intro k
    rw [Nat.succ_mul (k + 1)]
    omega
  have beyond : ∀ k, T.length ≤ (k + 1 + 1) * budget - 1 := by
    intro k
    have least : budget ≤ (k + 1) * budget := Nat.le_mul_of_pos_left budget (Nat.succ_pos k)
    rw [Nat.succ_mul (k + 1)]
    omega
  have missesAppend : ∀ gap : List Line, (∀ x ∈ gap, hit env criteria x = false) →
      ∀ x ∈ T ++ gap, hit env criteria x = false := by
    intro gap misses x member
    rcases List.mem_append.mp member with inT | inGap
    · exact none x inT
    · exact misses x inGap
  constructor
  · intro all
    constructor
    · intro x read
      obtain ⟨gap, next, after, rfl, misses, found⟩ := exists_first_hit later
      apply all [] (T ++ gap) next after 0 x (by simp) (by simp) (missesAppend gap misses) found
      rw [Nat.zero_add, Nat.one_mul, List.getElem?_append_left (List.getElem?_eq_some_iff.mp read).1]
      exact read
    · intro before gap next after k last split ends misses hits read
      rcases List.eq_nil_or_concat' before with rfl | ⟨init, final, rfl⟩
      · apply all [] (T ++ gap) next after (k + 1) last (by simp [split]) (by simp)
          (missesAppend gap misses) hits
        rw [List.getElem?_append_right (beyond k), succ]
        exact read
      · apply all (T ++ (init ++ [final])) gap next after k last (by simp [split]) _ misses hits read
        intro x last
        rw [← List.append_assoc, List.getLast?_concat] at last
        exact ends x (List.getLast?_concat.trans last)
  · rintro ⟨fresh, all⟩ before gap next after k last split ends misses hits read
    rw [List.append_assoc] at split
    rcases List.append_eq_append_iff.mp split with ⟨mid, rfl, tail⟩ | ⟨mid, rfl, tail⟩
    · rcases List.eq_nil_or_concat' mid with rfl | ⟨init, final, rfl⟩
      · exact all [] gap next after k last tail (by simp) misses hits read
      · apply all (init ++ [final]) gap next after k last (by simp [tail]) _ misses
          hits read
        intro x last
        exact ends x (getLast?_of_append last)
    · -- nothing before the gap, since no line of the budget is a hit
      rcases List.eq_nil_or_concat' before with rfl | ⟨init, final, rfl⟩
      · rw [List.nil_append] at fresh none length succ beyond
        rcases List.append_eq_append_iff.mp tail with ⟨rest, rfl, parted⟩ | ⟨rest, rfl, parted⟩
        · cases rest with
          | nil =>
            rw [List.append_nil] at fresh length
            have inside := (List.getElem?_eq_some_iff.mp read).1
            cases k with
            | zero =>
              rw [Nat.zero_add, Nat.one_mul] at read
              exact fresh last read
            | succ k => exact absurd inside (Nat.not_lt.mpr (by simpa using beyond k))
          | cons line rest =>
            obtain ⟨rfl, -⟩ := List.cons.inj parted
            have missed := none next (by simp)
            rw [hits] at missed
            exact absurd missed (by simp)
        · cases k with
          | zero =>
            rw [Nat.zero_add, Nat.one_mul, List.getElem?_append_left (by omega)] at read
            exact fresh last read
          | succ k =>
            rw [List.getElem?_append_right (beyond k), succ] at read
            apply all [] rest next after k last parted (by simp) _ hits read
            intro x member
            exact misses x (List.mem_append_right _ member)
      · have missed := none final (by simp)
        rw [ends final List.getLast?_concat] at missed
        exact absurd missed (by simp)

/-- The last hit that a page lists. -/
theorem page_split {n m : Nat} (some : (hits env criteria (lines.take n)).take m ≠ []) :
    ∃ A line R, lines = A ++ line :: R ∧ hit env criteria line = true ∧ A.length < n ∧
      (hits env criteria (lines.take n)).take m = hits env criteria (A ++ [line]) := by
  induction lines generalizing n m with
  | nil => exact absurd some (by simp [hits])
  | cons line rest ih =>
    cases n with
    | zero => exact absurd some (by simp [hits])
    | succ n =>
      rw [List.take_succ_cons] at some ⊢
      by_cases here : hit env criteria line = true
      · have first : hits env criteria (line :: rest.take n) =
            line.entry :: hits env criteria (rest.take n) := by simp [hits, here]
        rw [first] at some ⊢
        cases m with
        | zero => exact absurd some (by simp)
        | succ m =>
          rw [List.take_succ_cons]
          by_cases more : (hits env criteria (rest.take n)).take m = []
          · refine ⟨[], line, rest, rfl, here, Nat.succ_pos n, ?_⟩
            rw [more]
            simp [hits, here]
          · obtain ⟨A, y, R, split, found, near, listed⟩ := ih more
            refine ⟨line :: A, y, R, by rw [split, List.cons_append], found, ?_, ?_⟩
            · simpa using near
            · rw [listed]
              simp [hits, here]
      · have same : hits env criteria (line :: rest.take n) = hits env criteria (rest.take n) := by
          simp [hits, here]
        rw [same] at some ⊢
        obtain ⟨A, y, R, split, found, near, listed⟩ := ih some
        refine ⟨line :: A, y, R, by rw [split, List.cons_append], found, ?_, ?_⟩
        · simpa using near
        · rw [listed]
          simp [hits, here]

end Budget

/-! ### All pages -/

section Pages

variable {env : Env} {l : QueryLog} {criteria : List SearchCriterion} {limit budget : Nat}
  {olderThan : Option Nat}

/-- Pages that have come to the lines of the files. -/
theorem files_phase (someLimit : 0 < limit) (someBudget : 0 < budget) {newer lines : List Line}
    (split : fileLines l = newer ++ lines) (here : At env l criteria limit budget olderThan [] lines) :
    ∃ listing, Paged env l (pageParams criteria limit budget none) olderThan listing ∧
      listing.Sublist (hits env criteria lines) ∧
      (listing = hits env criteria lines ↔ Budgeted env criteria budget lines) := by
  induction length : lines.length using Nat.strongRecOn generalizing newer lines olderThan with
  | ind n ih =>
    have page := search_at here someLimit someBudget
    rw [List.nil_append] at page
    by_cases empty : (hits env criteria (lines.take budget)).take limit = []
    · rw [empty] at page
      have missed : hits env criteria (lines.take budget) = [] := by
        rcases List.take_eq_nil_iff.mp empty with zero | none
        · omega
        · exact none
      have parts : hits env criteria lines = hits env criteria (lines.drop budget) := by
        rw [← List.take_append_drop budget lines, hits_append, missed, List.nil_append,
          List.take_append_drop]
      cases read : lines[budget - 1]? with
      | none =>
        have short : lines.drop budget = [] := by
          rw [List.getElem?_eq_none_iff] at read
          exact List.drop_eq_nil_of_le (by omega)
        have nothing : hits env criteria lines = [] := by rw [parts, short]; rfl
        have ended : search env l (pageParams criteria limit budget olderThan) = ([], none) := by
          simpa [scanTime, read] using page
        refine ⟨[], .last ended, List.nil_sublist _, ?_⟩
        rw [nothing]
        exact iff_of_true rfl (budgeted_of_none nothing)
      | some line =>
        have inside := (List.getElem?_eq_some_iff.mp read).1
        have scanned : (lines.take budget).length = budget := List.length_take_of_le (by omega)
        have final : (lines.take budget)[budget - 1]? = some line := by
          rw [List.getElem?_take_of_lt (by omega)]
          exact read
        have miss : hits env criteria (lines.drop budget) ≠ [] →
            (Budgeted env criteria budget lines ↔ stale env criteria line = false ∧
              Budgeted env criteria budget (lines.drop budget)) := by
          intro later
          have parted := budgeted_miss someBudget scanned missed later
          rw [List.take_append_drop, final] at parted
          simpa using parted
        by_cases old : stale env criteria line = true
        · have ended : search env l (pageParams criteria limit budget olderThan) = ([], none) := by
            simpa [scanTime, read, old] using page
          refine ⟨[], .last ended, List.nil_sublist _, ?_⟩
          by_cases nothing : hits env criteria (lines.drop budget) = []
          · rw [parts, nothing]
            exact iff_of_true rfl (budgeted_of_none (parts.trans nothing))
          · rw [miss nothing, parts]
            exact iff_of_false (fun same => nothing same.symm) (fun fresh => by simp [old] at fresh)
        · have behind : lines = lines.take (budget - 1) ++ line :: lines.drop budget := by
            have next := List.drop_eq_getElem_cons inside
            rw [(List.getElem?_eq_some_iff.mp read).2, Nat.sub_add_cancel someBudget] at next
            rw [← next, List.take_append_drop]
          have split' : fileLines l = (newer ++ lines.take (budget - 1)) ++ line :: lines.drop budget := by
            rw [List.append_assoc, ← behind]
            exact split
          obtain ⟨listing, pages, part, complete⟩ := ih (lines.drop budget).length
            (by rw [List.length_drop]; omega)
            (split'.trans (List.append_cons _ _ _)) (at_file split') rfl
          have found : search env l (pageParams criteria limit budget olderThan) = ([], some line.time) := by
            simpa [scanTime, read, old] using page
          refine ⟨listing, .more found pages, ?_, ?_⟩
          · rw [parts]
            exact part
          · rw [parts, complete]
            by_cases nothing : hits env criteria (lines.drop budget) = []
            · exact iff_of_true (budgeted_of_none nothing) (budgeted_of_none (parts.trans nothing))
            · rw [miss nothing]
              simp [old]
    · obtain ⟨A, line, R, rfl, found, near, listed⟩ := page_split empty
      have split' : fileLines l = (newer ++ A) ++ line :: R := by
        rw [List.append_assoc]
        exact split
      obtain ⟨listing, pages, part, complete⟩ := ih R.length (by simp at length; omega)
        (split'.trans (List.append_cons _ _ _)) (at_file split') rfl
      have all : hits env criteria (A ++ line :: R) =
          hits env criteria (A ++ [line]) ++ hits env criteria R := by
        rw [← hits_append, List.append_assoc, List.singleton_append]
      have final : (hits env criteria (A ++ [line])).getLast? = some line.entry := by
        simp [hits, found]
      rw [listed, final] at page
      refine ⟨hits env criteria (A ++ [line]) ++ listing, .more page pages, ?_, ?_⟩
      · rw [all]
        exact (List.Sublist.refl _).append part
      · rw [all, List.append_cancel_left_eq, complete, budgeted_hit found near]

/-- Pages behind the last entry in memory. -/
theorem memory_end (someLimit : 0 < limit) (someBudget : 0 < budget) {newer : List LogEntry}
    {entry : LogEntry} (split : memoryHits env l criteria = newer ++ [entry]) :
    ∃ listing, Paged env l (pageParams criteria limit budget none) (some entry.time) listing ∧
      listing.Sublist (hits env criteria ((fileLines l).drop 1)) ∧
      (listing = hits env criteria ((fileLines l).drop 1) ↔
        Budgeted env criteria budget ((fileLines l).drop 1)) :=
  files_phase someLimit someBudget (List.take_append_drop 1 _).symm (at_memory split)

/-- What is listed without some lines is complete if these have no hit. -/
theorem listed_without {listing : List LogEntry} {skipped rest : List Line} {P : Prop}
    (part : listing.Sublist (hits env criteria rest)) (complete : listing = hits env criteria rest ↔ P) :
    listing = hits env criteria (skipped ++ rest) ↔ hits env criteria skipped = [] ∧ P := by
  rw [hits_append]
  constructor
  · intro same
    have fewer := part.length_le
    rw [same, List.length_append] at fewer
    have none : hits env criteria skipped = [] := List.length_eq_zero_iff.mp (by omega)
    rw [none, List.nil_append] at same
    exact ⟨none, complete.mp same⟩
  · rintro ⟨none, rest⟩
    rw [none, List.nil_append]
    exact complete.mpr rest

/-- The budget starts again at a hit behind at most one line. -/
theorem budgeted_skip {skipped rest A R : List Line} {line : Line} (short : skipped.length ≤ 1)
    (parted : skipped ++ rest = A ++ line :: R) (found : hit env criteria line = true)
    (near : A.length < budget) : Budgeted env criteria budget rest ↔ Budgeted env criteria budget R := by
  rcases List.append_eq_append_iff.mp parted with ⟨mid, rfl, rfl⟩ | ⟨mid, rfl, tail⟩
  · rw [List.length_append] at near
    exact budgeted_hit found (by omega)
  · cases mid with
    | nil =>
      rw [List.nil_append] at tail
      rw [← tail]
      exact budgeted_hit (A := []) found (Nat.zero_lt_of_lt near)
    | cons first mid =>
      obtain ⟨-, rest⟩ := List.cons.inj tail
      simp only [List.length_append, List.length_cons] at short
      obtain rfl : mid = [] := List.length_eq_zero_iff.mp (by omega)
      rw [rest]
      rfl

/-- Pages that still have entries in memory. Behind the last of them that is listed, the first line
of the files is skipped. -/
theorem memory_phase (someLimit : 0 < limit) (someBudget : 0 < budget)
    {newer mem : List LogEntry} {front skipped rest : List Line} (tail : (fileLines l).drop 1 = rest)
    (split : memoryHits env l criteria = newer ++ mem) (any : mem ≠ [])
    (lines : fileLines l = front ++ (skipped ++ rest)) (short : skipped.length ≤ 1)
    (here : At env l criteria limit budget olderThan mem (skipped ++ rest)) :
    ∃ listing, Paged env l (pageParams criteria limit budget none) olderThan (mem ++ listing) ∧
      listing.Sublist (hits env criteria (skipped ++ rest)) ∧
      (listing = hits env criteria (skipped ++ rest) ↔
        (limit ≤ mem.length → hits env criteria skipped = []) ∧ Budgeted env criteria budget rest) := by
  induction length : mem.length using Nat.strongRecOn
    generalizing newer mem front skipped olderThan with
  | ind n ih =>
    have page := search_at here someLimit someBudget
    by_cases enough : limit ≤ mem.length
    · -- the page ends within memory
      rw [List.take_append_of_le_length enough] at page
      obtain ⟨init, entry, listed⟩ : ∃ init entry, mem.take limit = init ++ [entry] := by
        rcases List.eq_nil_or_concat' (mem.take limit) with empty | found
        · rcases List.take_eq_nil_iff.mp empty with zero | none
          · omega
          · exact absurd none any
        · exact found
      rw [listed, List.getLast?_concat] at page
      have parts : mem = init ++ entry :: mem.drop limit := by
        rw [List.append_cons, ← listed, List.take_append_drop]
      have split' : memoryHits env l criteria = (newer ++ init) ++ entry :: mem.drop limit := by
        rw [split, List.append_assoc, ← parts]
      obtain ⟨listing, pages, part, complete⟩ : ∃ listing,
          Paged env l (pageParams criteria limit budget none) (some entry.time)
            (mem.drop limit ++ listing) ∧
          listing.Sublist (hits env criteria rest) ∧
          (listing = hits env criteria rest ↔ Budgeted env criteria budget rest) := by
        by_cases last : mem.drop limit = []
        · rw [last] at split' ⊢
          rw [← tail]
          exact memory_end someLimit someBudget split'
        · have next : At env l criteria limit budget (some entry.time) (mem.drop limit) ([] ++ rest) :=
            tail ▸ at_memory split'
          have behind : fileLines l = (fileLines l).take 1 ++ ([] ++ rest) := by
            rw [← tail, List.nil_append, List.take_append_drop]
          obtain ⟨listing, pages, part, complete⟩ := ih (mem.drop limit).length
            (by rw [List.length_drop]; omega) (split'.trans (List.append_cons _ _ _)) last behind
            (Nat.zero_le 1) next rfl
          exact ⟨listing, pages, part, by simpa [hits] using complete⟩
      have all : mem ++ listing = (init ++ [entry]) ++ (mem.drop limit ++ listing) := by
        rw [← listed, ← List.append_assoc, List.take_append_drop]
      refine ⟨listing, all ▸ .more page pages, ?_, ?_⟩
      · rw [hits_append]
        exact part.trans (List.sublist_append_right _ _)
      · rw [← length, listed_without part complete, forall_prop_of_true enough]
    · have cut : (mem ++ hits env criteria ((skipped ++ rest).take budget)).take limit =
          mem ++ (hits env criteria ((skipped ++ rest).take budget)).take (limit - mem.length) := by
        rw [List.take_append, List.take_of_length_le (by omega)]
      rw [cut] at page
      by_cases none : (hits env criteria ((skipped ++ rest).take budget)).take (limit - mem.length) = []
      · -- all of memory and no line
        obtain ⟨init, entry, rfl⟩ := (List.eq_nil_or_concat' mem).resolve_left any
        rw [none, List.append_nil, List.getLast?_concat] at page
        obtain ⟨listing, pages, part, complete⟩ := @memory_end env l criteria limit budget someLimit
          someBudget (newer ++ init) entry (split.trans (List.append_assoc _ _ _).symm)
        rw [tail] at part complete
        have clean : hits env criteria skipped = [] := by
          rcases List.take_eq_nil_iff.mp none with zero | none
          · omega
          · rw [List.take_append, hits_append, List.append_eq_nil_iff] at none
            rw [← none.1, List.take_of_length_le (by omega)]
        refine ⟨listing, .more page pages, ?_, ?_⟩
        · rw [hits_append]
          exact part.trans (List.sublist_append_right _ _)
        · rw [listed_without part complete]
          simp [clean]
      · obtain ⟨A, line, R, parted, found, near, listed⟩ := page_split none
        have split' : fileLines l = (front ++ A) ++ line :: R := by
          rw [List.append_assoc, ← parted]
          exact lines
        obtain ⟨listing, pages, part, complete⟩ := files_phase someLimit someBudget
          (split'.trans (List.append_cons _ _ _)) (@at_file env l criteria limit budget _ _ _ split')
        have final : (mem ++ hits env criteria (A ++ [line])).getLast? = some line.entry :=
          getLast?_of_append (by simp [hits, found])
        have all : hits env criteria (skipped ++ rest) =
            hits env criteria (A ++ [line]) ++ hits env criteria R := by
          rw [parted, ← hits_append, List.append_assoc, List.singleton_append]
        have more : mem ++ (hits env criteria (A ++ [line]) ++ listing) =
            (mem ++ hits env criteria (A ++ [line])) ++ listing := (List.append_assoc _ _ _).symm
        rw [listed, final] at page
        refine ⟨hits env criteria (A ++ [line]) ++ listing, more ▸ .more page pages, ?_, ?_⟩
        · rw [all]
          exact (List.Sublist.refl _).append part
        · rw [← length, all, List.append_cancel_left_eq, complete, budgeted_skip short parted found near]
          simp [enough]
/-- All pages, from the newest entry on. -/
theorem all_pages (env : Env) (l : QueryLog) (criteria : List SearchCriterion) (someLimit : 0 < limit)
    (someBudget : 0 < budget) :
    ∃ listing, Paged env l (pageParams criteria limit budget none) none
        (memoryHits env l criteria ++ listing) ∧
      listing.Sublist (hits env criteria (fileLines l)) ∧
      (listing = hits env criteria (fileLines l) ↔
        (limit ≤ (memoryHits env l criteria).length → hits env criteria ((fileLines l).take 1) = []) ∧
          Budgeted env criteria budget
            ((fileLines l).drop (if memoryHits env l criteria = [] then 0 else 1))) := by
  have start := @at_none env l criteria limit budget
  have whole : (fileLines l).take 1 ++ (fileLines l).drop 1 = fileLines l := List.take_append_drop 1 _
  by_cases empty : memoryHits env l criteria = []
  · rw [empty] at start ⊢
    obtain ⟨listing, pages, part, complete⟩ := files_phase someLimit someBudget
      (List.nil_append (fileLines l)).symm start
    refine ⟨listing, pages, part, ?_⟩
    rw [complete, if_pos rfl, List.drop_zero, List.length_nil]
    exact ⟨fun all => ⟨fun zero => by omega, all⟩, And.right⟩
  · have started : At env l criteria limit budget none (memoryHits env l criteria)
        ((fileLines l).take 1 ++ (fileLines l).drop 1) := whole.symm ▸ start
    have found := memory_phase someLimit someBudget rfl (List.nil_append _).symm empty
      (whole.symm.trans (List.nil_append _).symm) (List.length_take_le 1 _) started
    rw [whole] at found
    rw [if_neg empty]
    exact found

/-- A query log has one listing. -/
theorem Paged.unique {params : SearchParams} {one other : List LogEntry}
    (pages : Paged env l params olderThan one) (others : Paged env l params olderThan other) :
    other = one := by
  induction pages generalizing other with
  | last found =>
    cases others with
    | last found' => exact congrArg Prod.fst (found'.symm.trans found)
    | more found' _ => exact absurd (congrArg Prod.snd (found'.symm.trans found)) (by simp)
  | more found _ ih =>
    cases others with
    | last found' => exact absurd (congrArg Prod.snd (found'.symm.trans found)) (by simp)
    | more found' rest =>
      have same := found'.symm.trans found
      obtain ⟨rfl, oldest⟩ := Prod.mk.inj same
      obtain rfl := Option.some.inj oldest
      rw [ih rest]

end Pages

/-! ### Completeness -/

section Complete

variable {env : Env} {l : QueryLog} {criteria : List SearchCriterion} {limit budget : Nat}

theorem append_eq_iff_of_sublist {α : Type} {A A' B B' : List α} (first : A.Sublist A')
    (second : B.Sublist B') : A ++ B = A' ++ B' ↔ A = A' ∧ B = B' := by
  constructor
  · intro same
    have total := congrArg List.length same
    rw [List.length_append, List.length_append] at total
    have shorter := first.length_le
    have shorter' := second.length_le
    exact ⟨first.eq_of_length (by omega), second.eq_of_length (by omega)⟩
  · rintro ⟨rfl, rfl⟩
    rfl

/-- What is listed of memory. -/
theorem memoryHits_listed :
    ((memoryHits env l criteria).filter fun e => !isIgnored env e).Sublist
        (l.buffer.reverse.filter (wanted env criteria)) ∧
      ((memoryHits env l criteria).filter (fun e => !isIgnored env e) =
          l.buffer.reverse.filter (wanted env criteria) ↔
        (l.memSize = 0 → ∀ entry ∈ l.buffer, wanted env criteria entry = false)) := by
  by_cases zero : l.memSize = 0
  · have none : memoryHits env l criteria = [] := if_pos zero
    rw [none, List.filter_nil, eq_comm, List.filter_eq_nil_iff]
    exact ⟨List.nil_sublist _, by simp [zero]⟩
  · have same : (memoryHits env l criteria).filter (fun e => !isIgnored env e) =
        l.buffer.reverse.filter (wanted env criteria) := by
      rw [memoryHits, if_neg zero, List.filter_filter]
      exact List.filter_congr fun e _ => Bool.and_comm _ _
    rw [same]
    exact ⟨List.Sublist.refl _, by simp [zero]⟩

/-- What is listed of the files. -/
theorem hits_listed (lines : List Line) :
    (hits env criteria lines).Sublist ((lines.map (·.entry)).filter (wanted env criteria)) ∧
      (hits env criteria lines = (lines.map (·.entry)).filter (wanted env criteria) ↔
        ∀ line ∈ lines, wanted env criteria line.entry = true →
          criteria.all (·.quickMatch env line) = true) := by
  induction lines with
  | nil => simp [hits]
  | cons line rest ih =>
    obtain ⟨part, complete⟩ := ih
    rw [List.forall_mem_cons, List.map_cons, List.filter_cons]
    by_cases want : wanted env criteria line.entry = true
    · by_cases quick : criteria.all (·.quickMatch env line) = true
      · have more : hits env criteria (line :: rest) = line.entry :: hits env criteria rest := by
          simp [hits, hit, want, quick]
        rw [more, if_pos want, List.cons_eq_cons, complete]
        exact ⟨part.cons_cons _, by simp [quick]⟩
      · have missed : hits env criteria (line :: rest) = hits env criteria rest := by
          simp [hits, hit, quick]
        rw [missed, if_pos want]
        refine ⟨part.cons _, iff_of_false ?_ (fun all => quick (all.1 want))⟩
        intro same
        have fewer := part.length_le
        rw [same, List.length_cons] at fewer
        omega
    · have skipped : hits env criteria (line :: rest) = hits env criteria rest := by
        simp [hits, hit, want]
      rw [skipped, if_neg want, complete]
      exact ⟨part, by simp [want]⟩

/-- Non-ignored entries of a listing. -/
theorem hits_visible (lines : List Line) :
    (hits env criteria lines).filter (fun e => !isIgnored env e) = hits env criteria lines := by
  rw [List.filter_eq_self]
  intro e member
  obtain ⟨line, found, rfl⟩ := List.mem_map.mp member
  have want := (List.mem_filter.mp found).2
  simp only [hit, wanted, Bool.and_eq_true] at want
  exact want.2.2

/-- The pages list what is to be listed if and only if the log is pageable. -/
theorem listing_complete {listing : List LogEntry}
    (part : listing.Sublist (hits env criteria (fileLines l)))
    (complete : listing = hits env criteria (fileLines l) ↔
      (limit ≤ (memoryHits env l criteria).length → hits env criteria ((fileLines l).take 1) = []) ∧
        Budgeted env criteria budget
          ((fileLines l).drop (if memoryHits env l criteria = [] then 0 else 1))) :
    (memoryHits env l criteria ++ listing).filter (fun e => !isIgnored env e) = expected env l criteria ↔
      Pageable env l criteria limit budget := by
  have visible : listing.filter (fun e => !isIgnored env e) = listing := by
    rw [List.filter_eq_self]
    intro e member
    have found := List.mem_filter.mp ((hits_visible (fileLines l)).symm ▸ part.subset member)
    exact found.2
  obtain ⟨memPart, memComplete⟩ := @memoryHits_listed env l criteria
  obtain ⟨filePart, fileComplete⟩ := @hits_listed env criteria (fileLines l)
  have fileParts : listing = ((fileLines l).map (·.entry)).filter (wanted env criteria) ↔
      listing = hits env criteria (fileLines l) ∧
        hits env criteria (fileLines l) = ((fileLines l).map (·.entry)).filter (wanted env criteria) := by
    constructor
    · intro same
      have whole := filePart.antisymm (same ▸ part)
      exact ⟨same.trans whole.symm, whole⟩
    · rintro ⟨first, second⟩
      exact first.trans second
  have firstLine : hits env criteria ((fileLines l).take 1) = [] ↔
      ∀ line older, fileLines l = line :: older → hit env criteria line = false := by
    cases fileLines l with
    | nil => simp [hits]
    | cons line older => simp [hits]
  rw [expected, List.filter_append, List.filter_append, visible, append_eq_iff_of_sublist memPart
    (part.trans filePart), memComplete, fileParts, fileComplete, complete, firstLine]
  constructor
  · rintro ⟨memory, ⟨first, budgeted⟩, quick⟩
    exact ⟨memory, quick, first, budgeted⟩
  · rintro ⟨memory, quick, first, budgeted⟩
    exact ⟨memory, ⟨first, budgeted⟩, quick⟩

end Complete

/-! ### A log with one entry in memory and one in a file -/

/-- No clients and nothing to ignore. -/
def plainEnv : Env := ⟨fun _ _ => none, fun _ => false, fun a b => a == b, fun a b => a == b⟩

def writtenLine : Line :=
  ⟨180, "example.org", "192.168.1.2", "", ⟨1000, "example.org", "192.168.1.2", "",
    .notFilteredNotFound, false, by decide⟩, by decide, by decide⟩

def bufferedEntry : LogEntry :=
  ⟨2000, "example.com", "192.168.1.2", "", .notFilteredNotFound, false, by decide⟩

def smallLog : QueryLog where
  memSize := 1000
  buffer := [bufferedEntry]
  rotated := none
  logFile := some ⟨[writtenLine], by simp, by simp, by decide⟩
  sorted := by decide

theorem smallLog_pageable : Pageable plainEnv smallLog [] 2 1 where
  memory := by decide
  quick := by decide
  first := fun many => absurd many (by decide)
  budgeted := budgeted_of_none (by decide)

end FirewallCore.Querylog.Search
