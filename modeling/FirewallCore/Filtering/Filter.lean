import FirewallCore.Lib.Fallible
import FirewallCore.Lib.Glob
import FirewallCore.Lib.Run
import Mathlib.Algebra.Order.Ring.Nat
import Mathlib.Data.List.Nodup

/-!
Filter lists and their refresh (`filtering/filter.go`).

A refresh copies the records of the lists that are due, downloads each without
the lock, and writes the results back. Users change the records meanwhile. Both
replace the file that is stored under the ID of a list.

A call of `filterSetProperties` has the lock from its first access to the records
to its last, and nobody else reads what it downloads. All that others can see
before it unlocks is that it replaces a file, so it is one step, taken at that
time. A download by the refresh is one step for the same reason.
-/

namespace FirewallCore.Filtering

open FirewallCore.Lib

/-! ### Lists and files -/

/-- `FilterYAML`. -/
structure FilterYAML where
  id : Nat
  url : String
  name : String
  enabled : Bool
  rulesCount : Nat
  lastUpdated : Nat
  checksum : UInt32
  deriving DecidableEq, Repr

/-- A stored file, with the URL that it was downloaded from. -/
structure StoredFile where
  url : String
  rules : List String
  deriving DecidableEq, Repr

/-- What comes of reading a list. -/
inductive Download where
  /-- There is no temporary file, or the list is not read or parsed. -/
  | failed (err : String)
  /-- The rules are in the temporary file. `closed` is the error of its replacement or removal. -/
  | parsed (title : String) (rules : List String) (closed : Option String)
  deriving DecidableEq, Repr

/-- The error of an update with this download. -/
def Download.err : Download → Option String
  | .failed err => some err
  | .parsed _ _ closed => closed

namespace FilterYAML

/-- `unload`. -/
def unload (flt : FilterYAML) : FilterYAML := { flt with rulesCount := 0, checksum := 0 }

/-- `ensureName`. -/
def ensureName (flt : FilterYAML) (title : String) : String :=
  if flt.name ≠ "" then flt.name
  else if title ≠ "" then title
  else "List " ++ Nat.repr flt.id

end FilterYAML

/-- The outcome of `update`: the record after it, whether the list has changed, the error, and the
file if it is replaced. -/
structure Updated where
  flt : FilterYAML
  updated : Bool
  err : Option String
  file : Option StoredFile
  deriving DecidableEq, Repr

section Update

-- The checksum of rules, as the parser computes it.
variable (crc32 : List String → UInt32)

/-- `updateIntl` with `finalizeUpdate`. -/
def updateIntl (flt : FilterYAML) : Download → Updated
  | .failed err => ⟨flt, false, some err, none⟩
  | .parsed title rules closed =>
    if crc32 rules = flt.checksum then ⟨flt, false, closed, none⟩
    else
      match closed with
      | some err => ⟨flt, true, some ("finalizing update: " ++ err), none⟩
      | none =>
        ⟨{ flt with name := flt.ensureName title, checksum := crc32 rules, rulesCount := rules.length },
          true, none, some ⟨flt.url, rules⟩⟩

/-- `update`. -/
def update (flt : FilterYAML) (download : Download) (now : Nat) : Updated :=
  let u := updateIntl crc32 flt download
  { u with flt := { u.flt with lastUpdated := now } }

/-! ### Calls of users -/

/-- What a user sets. -/
structure Props where
  name : String
  url : String
  enabled : Bool
  deriving DecidableEq, Repr

/-- The deferred function of `filterSetProperties`. -/
def restore (old flt : FilterYAML) : FilterYAML :=
  { flt with
    url := old.url
    name := old.name
    enabled := old.enabled
    lastUpdated := old.lastUpdated
    rulesCount := old.rulesCount }

/-- The record with the new properties, before it is updated. -/
def withProps (flt : FilterYAML) (newList : Props) : FilterYAML :=
  let flt := { flt with name := newList.name }
  let flt := if flt.url ≠ newList.url then { flt.unload with url := newList.url, lastUpdated := 0 } else flt
  { flt with enabled := newList.enabled }

/-- The list is downloaded, if it is enabled. -/
def shouldRestart (flt : FilterYAML) (newList : Props) : Bool :=
  flt.url ≠ newList.url ∨ flt.enabled ≠ newList.enabled

/-- `filterSetProperties` on the record that it finds: the record, the file and the result.
`isTaken` tells whether another list has the new URL. -/
def setRecord (isTaken : Bool) (flt : FilterYAML) (newList : Props) (download : Download) (now : Nat) :
    FilterYAML × Option StoredFile × Except String Bool :=
  if flt.url ≠ newList.url ∧ isTaken then (flt, none, .error "url already exists")
  else
    let set := withProps flt newList
    if newList.enabled then
      if shouldRestart flt newList then
        let u := update crc32 set download now
        match u.err with
        | some err => (restore flt u.flt, u.file, .error err)
        | none => (u.flt, u.file, .ok u.updated)
      else (set, none, .ok false)
    else (set.unload, none, .ok (shouldRestart flt newList))

end Update

/-! ### The two parties -/

/-- The records, the files and the refresh that is going on. -/
structure State where
  filters : List FilterYAML
  whitelistFilters : List FilterYAML
  files : Nat → Option StoredFile
  /-- Which lists are refreshed: the allowlists? -/
  refreshing : Option Bool
  /-- The copies that are not updated yet, and the outcomes for the others. -/
  todo : List FilterYAML
  results : List Updated
  /-- Recorded of the run: the IDs whose file is the one that this refresh put there. -/
  stored : List Nat
  /-- Recorded of the run: the names that calls have left since the refresh began. -/
  named : Nat → Option String

namespace State

variable (s : State)

/-- `Filters` or `WhitelistFilters`. -/
def array (white : Bool) : List FilterYAML := if white then s.whitelistFilters else s.filters

def setArray (white : Bool) (array : List FilterYAML) : State :=
  if white then { s with whitelistFilters := array } else { s with filters := array }

/-- The records of all lists. -/
def all : List FilterYAML := s.filters ++ s.whitelistFilters

/-- `filterExistsLocked`. -/
def filterExists (url : String) : Bool := s.all.any (·.url = url)

/-- The file of a list, if it is replaced. -/
def putFile (id : Nat) : Option StoredFile → Nat → Option StoredFile
  | none => s.files
  | some file => fun other => if other = id then some file else s.files other

end State

/-- The steps of the users and of the refresh. -/
inductive Action where
  | filterSetProperties (listURL : String) (newList : Props) (isAllowlist : Bool) (download : Download) (now : Nat)
  | startRefresh (white force : Bool) (interval now : Nat)
  | refreshNext (download : Download) (now : Nat)
  | finishRefresh
  deriving DecidableEq, Repr

/-- What a step returns. -/
inductive Answer where
  | call (res : Except String Bool)
  | going
  | refreshed (updateCount : Nat) (isNetworkErr : Bool)

/-- `listsToUpdate`. -/
def listsToUpdate (filters : List FilterYAML) (force : Bool) (interval now : Nat) : List FilterYAML :=
  let due := filters.filter fun flt => flt.enabled ∧ (force ∨ flt.lastUpdated + interval ≤ now)
  due.map fun flt => ⟨flt.id, flt.url, flt.name, false, 0, 0, flt.checksum⟩

/-- One pass of the inner loop that writes back. -/
def writeRecord (u : Updated) (f : FilterYAML) : FilterYAML :=
  if f.id ≠ u.flt.id ∨ f.url ≠ u.flt.url then f
  else if !u.updated then { f with lastUpdated := u.flt.lastUpdated }
  else
    { f with
      lastUpdated := u.flt.lastUpdated
      name := u.flt.name
      rulesCount := u.flt.rulesCount
      checksum := u.flt.checksum }

/-- The loops that write back. -/
def writeBack (filters : List FilterYAML) (results : List Updated) : List FilterYAML :=
  results.foldl (fun filters u => filters.map (writeRecord u)) filters

/-- `updateCount`. -/
def updateCount (filters : List FilterYAML) (results : List Updated) : Nat :=
  ((results.filter (·.updated)).map fun u =>
    (filters.filter fun f => f.id = u.flt.id ∧ f.url = u.flt.url).length).sum

/-- Every update of the refresh failed. -/
def allFailed (results : List Updated) : Bool := results.all (·.err.isSome)

/-! ### Checksums -/

/-- One bit of `crc32.Update` with the IEEE table. -/
def crcBit (crc : UInt32) : UInt32 := if crc &&& 1 = 1 then (crc >>> 1) ^^^ 0xedb88320 else crc >>> 1

/-- One byte, between the complements. -/
def crcByte (crc : UInt32) (b : UInt8) : UInt32 := Nat.repeat crcBit 8 (crc ^^^ b.toUInt32)

/-- The checksum of the parser: `crc32.Update` over the rules. -/
def ieee (rules : List String) : UInt32 :=
  rules.foldl (fun crc rule => ~~~(rule.toUTF8.data.toList.foldl crcByte (~~~crc))) 0

section Step

variable (crc32 : List String → UInt32)

/-- The refresh is over. -/
def State.rest (s : State) : State := { s with refreshing := none, todo := [], results := [], stored := [] }

/-- A call with the record that it finds at an index. -/
def callAt (s : State) (isAllowlist : Bool) (i : Nat) (flt : FilterYAML) (newList : Props) (download : Download)
    (now : Nat) : State × Answer :=
  let out := setRecord crc32 (s.filterExists newList.url) flt newList download now
  let s' := s.setArray isAllowlist ((s.array isAllowlist).set i out.1)
  ({ s' with
      files := s.putFile flt.id out.2.1
      stored := if out.2.1.isSome then s.stored.filter (· ≠ flt.id) else s.stored
      named := match out.2.2 with
        | .error _ => s.named
        | .ok _ => fun id => if id = flt.id then some out.1.name else s.named id }, .call out.2.2)

/-- A step. The refresh goes on only if there is one, and one is started only if there is none. -/
def step (s : State) : Action → Option (State × Answer)
  | .filterSetProperties listURL newList isAllowlist download now =>
    match (s.array isAllowlist).findIdx? (·.url = listURL) with
    | none => some (s, .call (.error "url doesn't exist"))
    | some i =>
      match (s.array isAllowlist)[i]? with
      | none => none
      | some flt => some (callAt crc32 s isAllowlist i flt newList download now)
  | .startRefresh white force interval now =>
    if s.refreshing.isSome then none
    else
      let toUpd := listsToUpdate (s.array white) force interval now
      let s := { s with named := fun _ => none }
      if toUpd = [] then some (s, .refreshed 0 false)
      else some ({ s with refreshing := some white, todo := toUpd, results := [], stored := [] }, .going)
  | .refreshNext download now =>
    match s.refreshing, s.todo with
    | some _, uf :: todo =>
      let u := update crc32 uf download now
      some ({ s with
        todo := todo
        results := s.results ++ [u]
        files := s.putFile uf.id u.file
        stored := if u.file.isSome then uf.id :: s.stored else s.stored }, .going)
    | _, _ => none
  | .finishRefresh =>
    match s.refreshing, s.todo with
    | some white, [] =>
      if allFailed s.results then some (s.rest, .refreshed 0 true)
      else
        some ((s.setArray white (writeBack (s.array white) s.results)).rest,
          .refreshed (updateCount (s.array white) s.results) false)
    | _, _ => none

end Step

end FirewallCore.Filtering

/-!
Which local files may be filter lists (`filtering/path.go`, `DNSFilter.reader`).
-/

namespace FirewallCore.Filtering

open FirewallCore.Lib FirewallCore.Lib.Glob

/-! ### Paths -/

/-- `filepath.IsAbs`. -/
def isAbs (path : String) : Bool := path.toList.head? = some '/'

/-- One more segment of a path in `filepath.Clean`. -/
def cleanSegment (rooted : Bool) (out : List (List Char)) (segment : List Char) : List (List Char) :=
  if segment = [] ∨ segment = ['.'] then out
  else if segment = ['.', '.'] then
    if out ≠ [] ∧ out.getLast? ≠ some ['.', '.'] then out.dropLast
    else if rooted then out
    else out ++ [segment]
  else out ++ [segment]

/-- `filepath.Clean`. -/
def clean (path : String) : String :=
  let out := (path.toList.splitOn '/').foldl (cleanSegment (isAbs path)) []
  let text := ['/'].intercalate out
  if isAbs path then String.ofList ('/' :: text)
  else if out = [] then "."
  else String.ofList text

example : clean "/etc//adguard/./lists/../ads.txt" = "/etc/adguard/ads.txt" := by decide +kernel
example : clean "../../lists/" = "../../lists" := by decide +kernel

/-- `filepath.Match`, where an error is no value. -/
def fileMatch (pattern name : String) : Option Bool := filepathMatch (utf8 pattern) (utf8 name)

/-! ### The patterns of a filter -/

/-- The part of `New` that validates the patterns. -/
def newSafeFSPatterns : Nat → List String → Fallible (List String)
  | _, [] => .ok []
  | i, p :: patterns =>
    match fileMatch p "test" with
    | none => .error (.error
        ("safe_fs_patterns: at index " ++ Nat.repr i ++ ": syntax error in pattern"))
    | some _ => (newSafeFSPatterns (i + 1) patterns).map (p :: ·)

/-- The loop of `pathMatchesAny`. -/
def anyMatches : List String → String → Fallible Bool
  | [], _ => .ok false
  | g :: globs, filePath =>
    match fileMatch g filePath with
    | none => .error .panic
    | some ok => if ok then .ok true else anyMatches globs filePath

/-- `pathMatchesAny`. -/
def pathMatchesAny (globs : List String) (filePath : String) : Fallible Bool :=
  if globs = [] then .ok false
  else if ¬isAbs filePath ∨ clean filePath ≠ filePath then .error .panic
  else anyMatches globs filePath

/-- Where a list is read from. -/
inductive Source where
  | url (url : String)
  | file (path : String)
  deriving DecidableEq, Repr

/-- `DNSFilter.reader` until it opens what it reads. -/
def reader (safeFSPatterns : List String) (fltURL : String) : Fallible Source :=
  if ¬isAbs fltURL then .ok (.url fltURL)
  else do
    let path := clean fltURL
    let ok ← pathMatchesAny safeFSPatterns path
    if ok then .ok (.file path)
    else .error (.error ("path " ++ path.quote ++ " does not match safe patterns"))

/-- A filter with these patterns can be made, and reads the list. -/
def Accepts (patterns : List String) (fltURL : String) : Prop :=
  ∃ safe, newSafeFSPatterns 0 patterns = .ok safe ∧ reader safe fltURL = .ok (.file fltURL)

/-! ### What is accepted -/

/-- The pattern is not malformed. -/
def WellFormed (pattern : String) : Prop := (fileMatch pattern "test").isSome

def MatchesFile (pattern name : String) : Prop := fileMatch pattern name = some true

instance (pattern : String) : Decidable (WellFormed pattern) := inferInstanceAs (Decidable (_ = true))

instance (pattern name : String) : Decidable (MatchesFile pattern name) :=
  inferInstanceAs (Decidable (_ = some true))

section Accepted

variable {patterns safe globs : List String} {pattern path fltURL : String} {i : Nat}

/-- Whether a pattern is malformed does not depend on the name. -/
theorem exists_match (fine : WellFormed pattern) (name : String) :
    ∃ ok, fileMatch pattern name = some ok := by
  unfold WellFormed fileMatch filepathMatch at *
  rw [Option.isSome_map] at fine
  obtain ⟨segs, parsed⟩ := Option.isSome_iff_exists.mp fine
  exact ⟨_, congrArg (Option.map _) parsed⟩

/-- A pattern without classes and escapes matches itself. -/
theorem matches_self (plain : Plain (utf8 pattern)) : MatchesFile pattern pattern :=
  filepathMatch_self plain

theorem newSafeFSPatterns_ok :
    newSafeFSPatterns i patterns = .ok safe ↔ safe = patterns ∧ ∀ p ∈ patterns, WellFormed p := by
  induction patterns generalizing i safe with
  | nil =>
    rw [newSafeFSPatterns, Except.ok.injEq, eq_comm]
    simp
  | cons p patterns ih =>
    rw [newSafeFSPatterns, List.forall_mem_cons, WellFormed]
    cases fileMatch p "test" with
    | none => simp
    | some ok =>
      dsimp only
      cases later : newSafeFSPatterns (i + 1) patterns with
      | error stop =>
        refine iff_of_false (by rintro ⟨⟩) fun valid => ?_
        have returned := (ih (i := i + 1)).mpr ⟨rfl, valid.2.2⟩
        rw [later] at returned
        cases returned
      | ok rest =>
        obtain ⟨rfl, valid⟩ := ih.mp later
        simp only [Except.map, Except.ok.injEq, Option.isSome_some, true_and]
        exact ⟨fun same => ⟨same.symm, valid⟩, fun same => same.1.symm⟩

theorem anyMatches_ok (fine : ∀ g ∈ globs, WellFormed g) :
    anyMatches globs path = .ok true ↔ ∃ g ∈ globs, MatchesFile g path := by
  induction globs with
  | nil => simp [anyMatches]
  | cons g globs ih =>
    rw [List.forall_mem_cons] at fine
    obtain ⟨ok, here⟩ := exists_match fine.1 path
    rw [anyMatches, here, List.exists_mem_cons_iff, MatchesFile, here]
    cases ok with
    | true => simp
    | false => simpa using ih fine.2

/-- The lists that are read are those that a pattern matches. -/
theorem accepts_iff (abs : isAbs path) (isClean : clean path = path) :
    Accepts patterns path ↔ (∀ p ∈ patterns, WellFormed p) ∧ ∃ p ∈ patterns, MatchesFile p path := by
  have read : ∀ globs, (∀ g ∈ globs, WellFormed g) →
      (reader globs path = .ok (.file path) ↔ ∃ g ∈ globs, MatchesFile g path) := by
    intro globs fine
    rw [reader, if_neg (not_not.mpr abs)]
    dsimp only
    rw [isClean, pathMatchesAny]
    by_cases none : globs = []
    · subst none
      refine iff_of_false ?_ (by simp)
      rintro ⟨⟩
    · rw [if_neg none, if_neg (by simp [abs, isClean]), ← anyMatches_ok fine]
      cases anyMatches globs path with
      | error stop => exact iff_of_false (by rintro ⟨⟩) (by rintro ⟨⟩)
      | ok ok =>
        cases ok with
        | false => exact iff_of_false (by rintro ⟨⟩) (by rintro ⟨⟩)
        | true => exact iff_of_true rfl rfl
  constructor
  · rintro ⟨safe, made, opened⟩
    obtain ⟨rfl, fine⟩ := newSafeFSPatterns_ok.mp made
    exact ⟨fine, (read _ fine).mp opened⟩
  · rintro ⟨fine, matched⟩
    exact ⟨patterns, newSafeFSPatterns_ok.mpr ⟨rfl, fine⟩, (read _ fine).mpr matched⟩

end Accepted

end FirewallCore.Filtering
