import Mathlib.Algebra.Order.Ring.Nat
import Mathlib.Data.List.AList
import Mathlib.Logic.Function.Basic

/-!
Units of statistics (`stats/unit.go`): what one hour has counted, the form in
which it is stored, and the totals over several units.

Counters are unbounded. A unit's `nResult` is a slice of `resultLast` counters.
Which of several equal counts survive a cut to the top hundred is left open by
the source; here it is those that were counted first.
-/

namespace FirewallCore.Stats

/-- `resultLast`; the results are 1 (not filtered) to 5 (parental). -/
def resultLast : Nat := 6

abbrev RFiltered : Fin resultLast := ⟨2, by decide⟩
abbrev RSafeBrowsing : Fin resultLast := ⟨3, by decide⟩
abbrev RSafeSearch : Fin resultLast := ⟨4, by decide⟩
abbrev RParental : Fin resultLast := ⟨5, by decide⟩

/-- `proxy.UpstreamStatistics`; durations are in microseconds. -/
structure UpstreamStatistics where
  address : String
  isCached : Bool
  failed : Bool
  queryDuration : Nat

/-- `Entry`. -/
structure Entry where
  client : String
  domain : String
  upstreamStats : List UpstreamStatistics
  result : Int
  processingTime : Nat

/-- `Entry.validate`. -/
def Entry.validate (e : Entry) : Except String Unit :=
  if e.result = 0 then .error "result code is not set"
  else if (resultLast : Int) ≤ e.result then .error s!"unknown result code {e.result}"
  else if e.domain = "" then .error "domain is empty"
  else if e.client = "" then .error "client is empty"
  else .ok ()

/-- A map from names to counters. -/
abbrev Counts := AList fun _ : String => Nat

/-- `m[name] += n` -/
def Counts.add (m : Counts) (name : String) (n : Nat) : Counts :=
  m.insert name ((m.lookup name).getD 0 + n)

/-- `unit`. -/
structure StatsUnit where
  domains : Counts
  blockedDomains : Counts
  clients : Counts
  upstreamsResponses : Counts
  upstreamsTimeSum : Counts
  nResult : Fin resultLast → Nat
  id : BitVec 32
  nTotal : Nat
  timeSum : Nat

/-- `newUnit`. -/
def newUnit (id : BitVec 32) : StatsUnit :=
  { domains := ∅, blockedDomains := ∅, clients := ∅, upstreamsResponses := ∅, upstreamsTimeSum := ∅
    nResult := fun _ => 0, id := id, nTotal := 0, timeSum := 0 }

structure CountPair where
  name : String
  count : Nat
  deriving DecidableEq, Repr

/-- `unitDB`. -/
structure UnitDB where
  nResult : Fin resultLast → Nat
  domains : List CountPair
  blockedDomains : List CountPair
  clients : List CountPair
  upstreamsResponses : List CountPair
  upstreamsTimeSum : List CountPair
  nTotal : Nat
  timeAvg : Nat

/-- The unit that stands for an hour without a record. -/
def emptyUnitDB : UnitDB :=
  { nResult := fun _ => 0, domains := [], blockedDomains := [], clients := []
    upstreamsResponses := [], upstreamsTimeSum := [], nTotal := 0, timeAvg := 0 }

/-- `maxDomains`, `maxClients` and `maxUpstreams`. -/
def maxTop : Nat := 100

/-- `convertMapToSlice`. -/
def convertMapToSlice (m : Counts) (maxVal : Nat) : List CountPair :=
  ((m.entries.map fun entry => (⟨entry.1, entry.2⟩ : CountPair)).mergeSort
    fun a b => b.count ≤ a.count).take maxVal

/-- `convertSliceToMap`. -/
def convertSliceToMap (a : List CountPair) : Counts :=
  a.foldl (fun m it => m.insert it.name it.count) ∅

namespace StatsUnit

/-- `serialize`. -/
def serialize (u : StatsUnit) : UnitDB :=
  { nTotal := u.nTotal
    nResult := u.nResult
    domains := convertMapToSlice u.domains maxTop
    blockedDomains := convertMapToSlice u.blockedDomains maxTop
    clients := convertMapToSlice u.clients maxTop
    upstreamsResponses := convertMapToSlice u.upstreamsResponses maxTop
    upstreamsTimeSum := convertMapToSlice u.upstreamsTimeSum maxTop
    timeAvg := if u.nTotal = 0 then 0 else u.timeSum / u.nTotal % 2 ^ 32 }

/-- `deserialize`. -/
def deserialize (u : StatsUnit) : Option UnitDB → StatsUnit
  | none => u
  | some udb =>
    { u with
      nTotal := udb.nTotal
      nResult := udb.nResult
      domains := convertSliceToMap udb.domains
      blockedDomains := convertSliceToMap udb.blockedDomains
      clients := convertSliceToMap udb.clients
      upstreamsResponses := convertSliceToMap udb.upstreamsResponses
      upstreamsTimeSum := convertSliceToMap udb.upstreamsTimeSum
      timeSum := udb.timeAvg * udb.nTotal }

/-- The part of `add` over the upstreams. -/
def addUpstream (u : StatsUnit) (s : UpstreamStatistics) : StatsUnit :=
  if s.isCached || s.failed then u
  else
    { u with
      upstreamsResponses := u.upstreamsResponses.add s.address 1
      upstreamsTimeSum := u.upstreamsTimeSum.add s.address s.queryDuration }

/-- `add`; `none` is the panic of a result that is no index. -/
def add (u : StatsUnit) (e : Entry) : Option StatsUnit :=
  if inside : 0 ≤ e.result ∧ e.result < resultLast then
    let result : Fin resultLast := ⟨e.result.toNat, by omega⟩
    let u := { u with nResult := Function.update u.nResult result (u.nResult result + 1) }
    let u :=
      if e.result = 1 then { u with domains := u.domains.add e.domain 1 }
      else { u with blockedDomains := u.blockedDomains.add e.domain 1 }
    let u :=
      { u with
        clients := u.clients.add e.client 1
        timeSum := u.timeSum + e.processingTime
        nTotal := u.nTotal + 1 }
    some (e.upstreamStats.foldl addUpstream u)
  else none

theorem addUpstream_counters (u : StatsUnit) (stats : List UpstreamStatistics) :
    (stats.foldl addUpstream u).id = u.id ∧ (stats.foldl addUpstream u).nTotal = u.nTotal ∧
      (stats.foldl addUpstream u).nResult = u.nResult := by
  induction stats generalizing u with
  | nil => exact ⟨rfl, rfl, rfl⟩
  | cons s rest ih =>
    have first : (u.addUpstream s).id = u.id ∧ (u.addUpstream s).nTotal = u.nTotal ∧
        (u.addUpstream s).nResult = u.nResult := by
      unfold addUpstream
      split <;> exact ⟨rfl, rfl, rfl⟩
    obtain ⟨id, total, result⟩ := ih (u.addUpstream s)
    exact ⟨id.trans first.1, total.trans first.2.1, result.trans first.2.2⟩

/-- An entry is counted once, under its result. -/
theorem add_counters {u u' : StatsUnit} {e : Entry} (added : u.add e = some u') :
    ∃ r : Fin resultLast, (r : Int) = e.result ∧ u'.id = u.id ∧ u'.nTotal = u.nTotal + 1 ∧
      u'.nResult = Function.update u.nResult r (u.nResult r + 1) := by
  unfold add at added
  split at added
  · rename_i inside
    have same := Option.some.inj added
    refine ⟨⟨e.result.toNat, by omega⟩, Int.toNat_of_nonneg inside.1, ?_⟩
    subst same
    obtain ⟨id, total, result⟩ := addUpstream_counters _ e.upstreamStats
    rw [id, total, result]
    split <;> exact ⟨rfl, rfl, rfl⟩
  · exact absurd added (by simp)

end StatsUnit

/-! ### Totals -/

/-- The total counters of `StatsResp`. -/
structure StatsResp where
  numDNSQueries : Nat
  numBlockedFiltering : Nat
  numReplacedSafebrowsing : Nat
  numReplacedSafesearch : Nat
  numReplacedParental : Nat
  deriving DecidableEq, Repr

/-- The sum of a result's counters over units. -/
def sumResult (units : List UnitDB) (r : Fin resultLast) : Nat := (units.map (·.nResult r)).sum

/-- The total counters of `dataFromUnits`. -/
def dataFromUnits (units : List UnitDB) : StatsResp where
  numDNSQueries := (units.map (·.nTotal)).sum
  numBlockedFiltering := sumResult units RFiltered
  numReplacedSafebrowsing := sumResult units RSafeBrowsing
  numReplacedSafesearch := sumResult units RSafeSearch
  numReplacedParental := sumResult units RParental

end FirewallCore.Stats
