import Mathlib.Algebra.Order.Ring.Nat
import FirewallCore.Querylog.QLogFile

/-!
Searching the query log (`search.go`, `searchparams.go`, `searchcriterion.go`).

What the search asks of other parts is given by an `Env`: the client that
belongs to a ClientID and an IP address, the hosts to ignore, and the folding
comparisons of strings. The zero time is `none`, or zero nanoseconds.
-/

namespace FirewallCore.Querylog.Search

/-- `Client`, as far as a search reads it. -/
structure Client where
  name : String
  ignoreQueryLog : Bool

/-- What is asked of other parts. -/
structure Env where
  findClient : String → String → Option Client
  ignored : String → Bool
  equalFold : String → String → Bool
  containsFold : String → String → Bool

inductive CriterionType where
  | term
  | filteringStatus
  deriving DecidableEq, Repr

/-- `searchCriterion`. -/
structure SearchCriterion where
  value : String
  asciiVal : String
  criterionType : CriterionType
  strict : Bool
  deriving DecidableEq, Repr

/-- `searchParams`. -/
structure SearchParams where
  olderThan : Option Nat
  searchCriteria : List SearchCriterion
  offset : Nat
  limit : Nat
  maxFileScanEntries : Nat

/-- The buffer, oldest entry first, and the log files; the times of all entries increase. -/
structure QueryLog where
  memSize : Nat
  buffer : List LogEntry
  rotated : Option QLogFile
  logFile : Option QLogFile
  sorted : (((rotated.toList ++ logFile.toList).flatMap (·.lines)).map (·.entry) ++ buffer).Pairwise
    (·.time < ·.time)

/-- The existing log files. -/
def QueryLog.files (l : QueryLog) : List QLogFile := l.rotated.toList ++ l.logFile.toList

/-! ### Criteria -/

section Criteria

variable (env : Env)

def ctDomainOrClientCaseStrict (term asciiTerm clientID name host ip : String) : Bool :=
  env.equalFold host term || (asciiTerm ≠ "" && env.equalFold host asciiTerm) ||
    env.equalFold clientID term || env.equalFold ip term || env.equalFold name term

def ctDomainOrClientCaseNonStrict (term asciiTerm clientID name host ip : String) : Bool :=
  env.containsFold clientID term || env.containsFold host term ||
    (asciiTerm ≠ "" && env.containsFold host asciiTerm) || env.containsFold ip term ||
    env.containsFold name term

/-- Both of them, with the client found by its ClientID and address. -/
def ctTerm (c : SearchCriterion) (clientID host ip : String) : Bool :=
  let name :=
    match env.findClient clientID ip with
    | none => ""
    | some cli => cli.name
  if c.strict then ctDomainOrClientCaseStrict env c.value c.asciiVal clientID name host ip
  else ctDomainOrClientCaseNonStrict env c.value c.asciiVal clientID name host ip

/-- `isFilteredWithReason`; other values do not come here. -/
def isFilteredWithReason (value : String) (reason : Reason) : Bool :=
  if value = "blocked" then reason = .filteredBlockList || reason = .filteredBlockedService
  else if value = "blocked_parental" then reason = .filteredParental
  else if value = "blocked_safebrowsing" then reason = .filteredSafeBrowsing
  else if value = "blocked_services" then reason = .filteredBlockedService
  else reason = .filteredSafeSearch

/-- `ctFilteringStatusCase`. -/
def ctFilteringStatusCase (value : String) (reason : Reason) (isFiltered : Bool) : Bool :=
  let rewrites := reason = .rewritten || reason = .rewrittenAutoHosts || reason = .rewrittenRule
  if value = "all" then true
  else if value = "filtered" then isFiltered || reason = .notFilteredAllowList || rewrites
  else if value ∈ ["blocked", "blocked_parental", "blocked_safebrowsing", "blocked_services",
      "safe_search"] then
    isFiltered && isFilteredWithReason value reason
  else if value = "whitelisted" then reason = .notFilteredAllowList
  else if value = "rewritten" then rewrites
  else if value = "processed" then
    !(reason = .filteredBlockList || reason = .filteredBlockedService ||
      reason = .notFilteredAllowList)
  else false

/-- `searchCriterion.quickMatch`. -/
def SearchCriterion.quickMatch (c : SearchCriterion) (line : Line) : Bool :=
  match c.criterionType with
  | .term => ctTerm env c line.clientID line.host line.ip
  | .filteringStatus => true

/-- `searchCriterion.match`. -/
def SearchCriterion.matches (c : SearchCriterion) (entry : LogEntry) : Bool :=
  match c.criterionType with
  | .term => ctTerm env c entry.clientID entry.qHost entry.ip
  | .filteringStatus => ctFilteringStatusCase c.value entry.reason entry.isFiltered

/-- The entry is older than what was asked for. -/
def isOlder (olderThan : Option Nat) (entry : LogEntry) : Bool :=
  match olderThan with
  | none => true
  | some olderThan => entry.time < olderThan

/-- `searchParams.match`. -/
def SearchParams.matches (params : SearchParams) (entry : LogEntry) : Bool :=
  isOlder params.olderThan entry && params.searchCriteria.all (·.matches env entry)

/-- `searchParams.quickMatch`. -/
def SearchParams.quickMatch (params : SearchParams) (line : Line) : Bool :=
  params.searchCriteria.all (·.quickMatch env line)

/-- The host or the client of an entry is to be ignored. -/
def isIgnored (entry : LogEntry) : Bool :=
  env.ignored entry.qHost || (env.findClient entry.clientID entry.ip).any (·.ignoreQueryLog)

/-! ### The search -/

/-- `searchMemory`. -/
def searchMemory (l : QueryLog) (params : SearchParams) : List LogEntry :=
  if l.memSize = 0 then [] else l.buffer.reverse.filter (params.matches env)

/-- `readNextEntry` on a line that has been read: the entry, if it matches, and the timestamp. -/
def readNextEntry (params : SearchParams) (line : Line) : Option LogEntry × Nat :=
  if !params.quickMatch env line then (none, line.time)
  else if isIgnored env line.entry then (none, 0)
  else if !params.matches env line.entry then (none, line.time)
  else (some line.entry, line.time)

/-- The loop of `readEntries`, with the number of rounds it can take, the number of entries that
were read and what it has found. -/
def readEntries (params : SearchParams) (totalLimit : Nat) :
    Nat → QLogReader → Nat → List LogEntry → Nat → List LogEntry × Nat
  | 0, _, _, entries, oldestNano => (entries, oldestNano)
  | rounds + 1, r, total, entries, oldestNano =>
    if total < params.maxFileScanEntries ∨ params.maxFileScanEntries = 0 then
      match r.readNext with
      | none => (entries, 0)
      | some (line, r) =>
        match readNextEntry env params line with
        | (none, ts) => readEntries params totalLimit rounds r (total + 1) entries ts
        | (some ent, ts) =>
          if (entries ++ [ent]).length = totalLimit then (entries ++ [ent], ts)
          else readEntries params totalLimit rounds r (total + 1) (entries ++ [ent]) ts
    else (entries, oldestNano)

/-- `searchFiles`. A round reads a line or comes to the end. -/
def searchFiles (l : QueryLog) (params : SearchParams) : List LogEntry × Option Nat :=
  match QLogReader.seekRecord l.files params.olderThan with
  | none => ([], none)
  | some r =>
    let (entries, oldestNano) :=
      readEntries env params (params.offset + params.limit) (r.unread.length + 1) r 0 [] 0
    (entries, if oldestNano = 0 then none else some oldestNano)

/-- `search`. -/
def search (l : QueryLog) (params : SearchParams) : List LogEntry × Option Nat :=
  if params.limit = 0 then ([], none)
  else
    let memoryEntries := searchMemory env l params
    let (fileEntries, oldest) := searchFiles env l params
    let entries := (memoryEntries ++ fileEntries).take (params.offset + params.limit)
    let entries := entries.mergeSort fun a b => b.time ≤ a.time
    let (entries, oldest) :=
      if params.offset = 0 then (entries, oldest)
      else if params.offset < entries.length then (entries.drop params.offset, oldest)
      else ([], none)
    match entries.getLast? with
    | none => (entries, oldest)
    | some entry => (entries, some entry.time)

/-- The entries listed by pages, each asking for what is older than the last one found, until a
page has no oldest time. -/
inductive Paged (l : QueryLog) (params : SearchParams) : Option Nat → List LogEntry → Prop where
  | last {olderThan : Option Nat} {entries : List LogEntry} :
      search env l { params with olderThan := olderThan } = (entries, none) →
      Paged l params olderThan entries
  | more {olderThan : Option Nat} {oldest : Nat} {entries rest : List LogEntry} :
      search env l { params with olderThan := olderThan } = (entries, some oldest) →
      Paged l params (some oldest) rest → Paged l params olderThan (entries ++ rest)

end Criteria

end FirewallCore.Querylog.Search
