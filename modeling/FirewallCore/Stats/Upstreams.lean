import FirewallCore.Stats.Storage
import Mathlib.Algebra.Order.Field.Rat
import Mathlib.Algebra.Order.Ring.Rat
import Mathlib.Algebra.BigOperators.Ring.Finset
import Mathlib.Algebra.Order.BigOperators.Group.List
import Mathlib.Data.List.Sort
import Mathlib.Tactic.NormNum

/-!
The average duration of the queries to each upstream (`topUpstreamsPairs` of
`stats/unit.go`), as an exact ratio of microseconds.

An hour stores how many queries each upstream answered and how long they took in two lists, and
each list is cut to its own largest hundred entries. An upstream with many short queries may
be in the first list and not in the second; then its queries are counted and their time is not
(`crowded_wrong`). An average is right exactly if what is missing of the time in some hours
is made up by what is too much in others (`averages_right_iff`), as it is if no hour has more
than a hundred upstreams.
-/

namespace FirewallCore.Stats

open FirewallCore.Lib

/-! ### The averages -/

/-- `Update`, on the current unit: entries that are not valid are not counted. -/
def StatsUnit.update (u : StatsUnit) (e : Entry) : Option StatsUnit :=
  match e.validate with
  | .ok _ => u.add e
  | .error _ => some u

/-- The unit of an hour with some calls of `Update`. -/
def hourUnit (entries : List Entry) : Option StatsUnit := entries.foldlM StatsUnit.update (newUnit 0)

/-- What is stored of some hours, with equal counts in any order. -/
def Recorded (hours : List (List Entry)) (units : List UnitDB) : Prop :=
  List.Forall₂ (fun entries udb => ∃ u, hourUnit entries = some u ∧ Serialized u udb) hours units

/-- `for _, cp := range pairs { m[cp.Name] += cp.Count }` -/
def Counts.addPairs (m : Counts) (pairs : List CountPair) : Counts :=
  pairs.foldl (fun m cp => m.add cp.name cp.count) m

/-- The upstreams with the most responses, and those with their averages, the largest first. -/
structure UpstreamTops where
  responses : List CountPair
  avgTime : List (String × Rat)

/-- `topUpstreamsPairs`. The sums of times are exact here. -/
def topUpstreamsPairs (units : List UnitDB) : UpstreamTops :=
  let upstreamsResponses := units.foldl (fun m u => m.addPairs u.upstreamsResponses) (∅ : Counts)
  let upstreamsTimeSum := units.foldl (fun m u => m.addPairs u.upstreamsTimeSum) (∅ : Counts)
  let upstreamsAvgTime := upstreamsResponses.pairs.filterMap fun cp =>
    let total := (upstreamsTimeSum.lookup cp.name).getD 0
    if total ≠ 0 then some (cp.name, (total : Rat) / cp.count) else none
  ⟨convertMapToSlice upstreamsResponses maxTop, upstreamsAvgTime.mergeSort fun a b => b.2 ≤ a.2⟩

/-! ### The queries behind them -/

/-- The durations of the queries to an upstream that are counted: neither cached nor failed. -/
def durations (name : String) (stats : List UpstreamStatistics) : List Nat :=
  (stats.filter fun s => s.address = name && !(s.isCached || s.failed)).map (·.queryDuration)

/-- Those of the valid entries of an hour. -/
def queriesTo (name : String) (entries : List Entry) : List Nat :=
  entries.flatMap fun e => if e.validate.isOk then durations name e.upstreamStats else []

def names (pairs : List CountPair) : List String := pairs.map (·.name)

/-- The queries that the number of responses of an upstream stands for: those of the hours whose list has it. -/
def countedQueries (name : String) (hours : List (List Entry)) (units : List UnitDB) : List Nat :=
  (hours.zip units).flatMap fun hour =>
    if name ∈ names hour.2.upstreamsResponses then queriesTo name hour.1 else []

/-- The durations in the hours in which an upstream is in one list and not in the other. -/
def timeOnlyIn (list other : UnitDB → List CountPair) (name : String) (hours : List (List Entry)) (units : List UnitDB) :
    Nat :=
  ((hours.zip units).map fun hour =>
    if name ∈ names (list hour.2) ∧ name ∉ names (other hour.2) then (queriesTo name hour.1).sum else 0).sum

/-- The time that is missing is as much as the time that is too much. -/
def Balanced (name : String) (hours : List (List Entry)) (units : List UnitDB) : Prop :=
  timeOnlyIn (·.upstreamsResponses) (·.upstreamsTimeSum) name hours units =
    timeOnlyIn (·.upstreamsTimeSum) (·.upstreamsResponses) name hours units

/-- An average of some queries: their total duration by their number, and so between the shortest and the longest. -/
structure AverageOf (queries : List Nat) (avg : Rat) : Prop where
  ratio : avg = (queries.sum : Rat) / queries.length
  least : ∃ d ∈ queries, (d : Rat) ≤ avg
  most : ∃ d ∈ queries, avg ≤ d

/-- Every average that is reported is that of the queries counted. -/
def AveragesRight (hours : List (List Entry)) (units : List UnitDB) : Prop :=
  ∀ name avg, (name, avg) ∈ (topUpstreamsPairs units).avgTime → AverageOf (countedQueries name hours units) avg

/-- An upstream is listed among the responses of some hour, and with some time in one. -/
def Listed (name : String) (units : List UnitDB) : Prop :=
  (∃ udb ∈ units, name ∈ names udb.upstreamsResponses) ∧
    ∃ udb ∈ units, ∃ cp ∈ udb.upstreamsTimeSum, cp.name = name ∧ cp.count ≠ 0

/-! ### What an hour counts -/

section Hour

variable {u u' : StatsUnit} {q : String → List Nat} {name : String} {n : Nat}

/-- The two maps of upstreams hold the numbers and the sums of some queries. -/
structure UpstreamTally (u : StatsUnit) (q : String → List Nat) : Prop where
  responses : ∀ name, u.upstreamsResponses.lookup name = if q name = [] then none else some (q name).length
  times : ∀ name, u.upstreamsTimeSum.lookup name = if q name = [] then none else some (q name).sum

theorem lookup_add (m : Counts) (name other : String) (n : Nat) :
    (m.add name n).lookup other = if other = name then some ((m.lookup name).getD 0 + n) else m.lookup other := by
  split
  · rename_i same
    rw [same]
    exact AList.lookup_insert m
  · rename_i different
    exact AList.lookup_insert_ne different

theorem durations_one (name : String) (s : UpstreamStatistics) :
    durations name [s] = if s.isCached || s.failed then [] else if name = s.address then [s.queryDuration] else [] := by
  rw [durations, List.filter_singleton]
  by_cases same : s.address = name
  · cases left : s.isCached || s.failed <;> simp [same]
  · have other : name ≠ s.address := Ne.symm same
    cases left : s.isCached || s.failed <;> simp [same, other]

theorem UpstreamTally.addUpstream (tally : UpstreamTally u q) (s : UpstreamStatistics) :
    UpstreamTally (u.addUpstream s) fun name => q name ++ durations name [s] := by
  simp only [durations_one]
  unfold StatsUnit.addUpstream
  split
  · simpa only [List.append_nil] using tally
  · constructor <;> intro name
    · change (u.upstreamsResponses.add s.address 1).lookup name = _
      rw [lookup_add]
      by_cases same : name = s.address
      · rw [if_pos same, if_pos same, tally.responses, same]
        cases empty : q s.address <;> simp
      · rw [if_neg same, if_neg same, List.append_nil]
        exact tally.responses name
    · change (u.upstreamsTimeSum.add s.address s.queryDuration).lookup name = _
      rw [lookup_add]
      by_cases same : name = s.address
      · rw [if_pos same, if_pos same, tally.times, same]
        cases empty : q s.address <;> simp [Nat.add_assoc]
      · rw [if_neg same, if_neg same, List.append_nil]
        exact tally.times name

theorem durations_cons (name : String) (s : UpstreamStatistics) (stats : List UpstreamStatistics) :
    durations name (s :: stats) = durations name [s] ++ durations name stats := by
  rw [durations, durations, durations, ← List.map_append, ← List.filter_append, List.singleton_append]

theorem UpstreamTally.addUpstreams (tally : UpstreamTally u q) (stats : List UpstreamStatistics) :
    UpstreamTally (stats.foldl StatsUnit.addUpstream u) fun name => q name ++ durations name stats := by
  induction stats generalizing u q with
  | nil =>
    have none : ∀ name, durations name [] = [] := fun _ => rfl
    simpa only [none, List.append_nil, List.foldl_nil] using tally
  | cons s stats ih =>
    have later := ih (tally.addUpstream s)
    simpa only [List.append_assoc, ← durations_cons, List.foldl_cons] using later

theorem UpstreamTally.add (tally : UpstreamTally u q) {e : Entry} (added : u.add e = some u') :
    UpstreamTally u' fun name => q name ++ durations name e.upstreamStats := by
  unfold StatsUnit.add at added
  split at added
  · dsimp only at added
    rw [← Option.some.inj added]
    refine UpstreamTally.addUpstreams ?_ e.upstreamStats
    split
    · exact ⟨tally.responses, tally.times⟩
    · exact ⟨tally.responses, tally.times⟩
  · cases added

theorem UpstreamTally.update (tally : UpstreamTally u q) {e : Entry} (updated : u.update e = some u') :
    UpstreamTally u' fun name => q name ++ queriesTo name [e] := by
  have one : ∀ name, queriesTo name [e] = if e.validate.isOk then durations name e.upstreamStats else [] :=
    fun _ => List.flatMap_singleton _ _
  simp only [one]
  unfold StatsUnit.update at updated
  split at updated
  · rename_i valid
    simpa [valid, Except.isOk, Except.toBool] using tally.add updated
  · rename_i invalid
    rw [← Option.some.inj updated]
    simpa [invalid, Except.isOk, Except.toBool] using tally

theorem UpstreamTally.updates {entries : List Entry} (tally : UpstreamTally u q)
    (done : entries.foldlM StatsUnit.update u = some u') :
    UpstreamTally u' fun name => q name ++ queriesTo name entries := by
  induction entries generalizing u q with
  | nil =>
    rw [← Option.some.inj done]
    have none : ∀ name, queriesTo name [] = [] := fun _ => rfl
    simpa only [none, List.append_nil] using tally
  | cons e entries ih =>
    rw [List.foldlM_cons, Option.bind_eq_bind, Option.bind_eq_some_iff] at done
    obtain ⟨u1, first, rest⟩ := done
    have later := ih (tally.update first) rest
    have cons : ∀ name, queriesTo name (e :: entries) = queriesTo name [e] ++ queriesTo name entries := by
      intro name
      rw [queriesTo, queriesTo, queriesTo, ← List.flatMap_append, List.singleton_append]
    simpa only [List.append_assoc, ← cons] using later

theorem hourUnit_tally {entries : List Entry} (made : hourUnit entries = some u) :
    UpstreamTally u fun name => queriesTo name entries := by
  have start : UpstreamTally (newUnit 0) fun _ => [] :=
    ⟨fun name => AList.lookup_empty name, fun name => AList.lookup_empty name⟩
  exact start.updates made

end Hour

/-! ### What the lists of some hours add up to -/

/-- What a list has under a name. -/
def countOf (name : String) (pairs : List CountPair) : Nat :=
  ((pairs.filter fun cp => cp.name = name).map (·.count)).sum

section Sums

variable {m : Counts} {s : List CountPair} {u : StatsUnit} {udb : UnitDB} {units : List UnitDB} {entries : List Entry}
  {hours : List (List Entry)} {name : String} {avg : Rat} {queries : List Nat} {n : Nat}

theorem mem_names {cp : CountPair} (member : cp ∈ s) : cp.name ∈ names s := List.mem_map.mpr ⟨cp, member, rfl⟩

theorem countOf_cons (name : String) (cp : CountPair) (s : List CountPair) :
    countOf name (cp :: s) = (if cp.name = name then cp.count else 0) + countOf name s := by
  unfold countOf
  by_cases same : cp.name = name
  · rw [List.filter_cons, if_pos (decide_eq_true same), List.map_cons, List.sum_cons, if_pos same]
  · rw [List.filter_cons, if_neg (by simpa using same), if_neg same, Nat.zero_add]

theorem countOf_of_not_mem (absent : name ∉ names s) : countOf name s = 0 := by
  have none : (s.filter fun cp => decide (cp.name = name)) = [] := by
    rw [List.filter_eq_nil_iff]
    intro cp member same
    exact absent (of_decide_eq_true same ▸ mem_names member)
  rw [countOf, none]
  rfl

theorem lookup_addPairs (m : Counts) (s : List CountPair) (name : String) :
    (m.addPairs s).lookup name =
      if name ∈ names s then some ((m.lookup name).getD 0 + countOf name s) else m.lookup name := by
  induction s generalizing m with
  | nil => rfl
  | cons cp s ih =>
    have step : m.addPairs (cp :: s) = (m.add cp.name cp.count).addPairs s := rfl
    have names_cons : names (cp :: s) = cp.name :: names s := rfl
    rw [step, ih, lookup_add, names_cons]
    by_cases same : name = cp.name
    · have there : name ∈ cp.name :: names s := by
        rw [same]
        exact List.mem_cons_self
      rw [if_pos same, if_pos there, countOf_cons, if_pos same.symm, same, Option.getD_some]
      split
      · rw [Nat.add_assoc]
      · rename_i absent
        rw [countOf_of_not_mem absent, Nat.add_zero]
    · rw [if_neg same, countOf_cons, if_neg (Ne.symm same), Nat.zero_add]
      simp only [List.mem_cons, same, false_or]

/-- The sums over some units. -/
theorem lookup_units (list : UnitDB → List CountPair) (units : List UnitDB) (m : Counts) (name : String) :
    (units.foldl (fun m u => m.addPairs (list u)) m).lookup name =
      if ∃ u ∈ units, name ∈ names (list u) then
        some ((m.lookup name).getD 0 + (units.map fun u => countOf name (list u)).sum)
      else m.lookup name := by
  induction units generalizing m with
  | nil => simp
  | cons u units ih =>
    rw [List.foldl_cons, ih, lookup_addPairs, List.map_cons, List.sum_cons]
    by_cases here : name ∈ names (list u)
    · have some_ : ∃ v ∈ u :: units, name ∈ names (list v) := ⟨u, List.mem_cons_self, here⟩
      rw [if_pos here, if_pos some_, Option.getD_some]
      split
      · rw [Nat.add_assoc]
      · rename_i none
        have zero : (units.map fun v => countOf name (list v)).sum = 0 := by
          rw [List.sum_eq_zero_iff]
          intro count member
          obtain ⟨v, inside, rfl⟩ := List.mem_map.mp member
          exact countOf_of_not_mem fun there => none ⟨v, inside, there⟩
        rw [zero, Nat.add_zero]
    · rw [if_neg here, countOf_of_not_mem here, Nat.zero_add]
      simp only [List.mem_cons, exists_eq_or_imp, here, false_or]

theorem countOf_of_mem (nodup : (names s).Nodup) {cp : CountPair} (member : cp ∈ s) : countOf cp.name s = cp.count := by
  induction s with
  | nil => exact absurd member List.not_mem_nil
  | cons other s ih =>
    rw [names, List.map_cons, List.nodup_cons] at nodup
    rw [countOf_cons]
    rcases List.mem_cons.mp member with rfl | member
    · rw [if_pos rfl, countOf_of_not_mem nodup.1, Nat.add_zero]
    · have different : other.name ≠ cp.name := by
        intro same
        rw [same] at nodup
        exact nodup.1 (mem_names member)
      rw [if_neg different, Nat.zero_add]
      exact ih nodup.2 member

/-- A list has what its map holds under the names in it, and those have been queried. -/
theorem countOf_top (found : m.lookup name = if queries = [] then none else some n)
    (top : IsTop CountsDown maxTop m.pairs s) :
    countOf name s = (if name ∈ names s then n else 0) ∧ (name ∈ names s → queries ≠ []) := by
  by_cases listed : name ∈ names s
  · obtain ⟨cp, member, rfl⟩ := List.mem_map.mp listed
    have inside := mem_pairs.mp (top.mem member)
    rw [found] at inside
    split at inside
    · cases inside
    · rename_i some
      rw [if_pos listed, countOf_of_mem (IsTop.nodup_names top) member]
      exact ⟨(Option.some.inj inside).symm, fun _ => some⟩
  · rw [if_neg listed, countOf_of_not_mem listed]
    exact ⟨rfl, fun there => absurd there listed⟩

/-- The number and the time that the lists of an hour have of an upstream. -/
theorem hour_counts (made : hourUnit entries = some u) (stored : Serialized u udb) (name : String) :
    (countOf name udb.upstreamsResponses =
        if name ∈ names udb.upstreamsResponses then (queriesTo name entries).length else 0) ∧
      (countOf name udb.upstreamsTimeSum =
        if name ∈ names udb.upstreamsTimeSum then (queriesTo name entries).sum else 0) ∧
      (name ∈ names udb.upstreamsResponses → queriesTo name entries ≠ []) := by
  have tally := hourUnit_tally made
  obtain ⟨number, some⟩ := countOf_top (tally.responses name) (stored.top .upstreamsResponses)
  exact ⟨number, (countOf_top (tally.times name) (stored.top .upstreamsTimeSum)).1, some⟩

/-- The number of responses is that of the queries it stands for; the total time differs from theirs by what is in
one list of an hour only. -/
theorem Recorded.sums (recorded : Recorded hours units) (name : String) :
    (units.map fun u => countOf name u.upstreamsResponses).sum = (countedQueries name hours units).length ∧
      (units.map fun u => countOf name u.upstreamsTimeSum).sum +
          timeOnlyIn (·.upstreamsResponses) (·.upstreamsTimeSum) name hours units =
        (countedQueries name hours units).sum +
          timeOnlyIn (·.upstreamsTimeSum) (·.upstreamsResponses) name hours units ∧
      ((∃ u ∈ units, name ∈ names u.upstreamsResponses) → countedQueries name hours units ≠ []) := by
  induction recorded with
  | nil => exact ⟨rfl, rfl, fun ⟨u, member, _⟩ => absurd member List.not_mem_nil⟩
  | @cons entries udb hours units hour _ ih =>
    obtain ⟨u, made, stored⟩ := hour
    obtain ⟨number, time, queried⟩ := hour_counts made stored name
    have counted : countedQueries name (entries :: hours) (udb :: units) =
        (if name ∈ names udb.upstreamsResponses then queriesTo name entries else []) ++
          countedQueries name hours units := rfl
    have only : ∀ list other : UnitDB → List CountPair, timeOnlyIn list other name (entries :: hours) (udb :: units) =
        (if name ∈ names (list udb) ∧ name ∉ names (other udb) then (queriesTo name entries).sum else 0) +
          timeOnlyIn list other name hours units := fun _ _ => rfl
    obtain ⟨numbers, times, some⟩ := ih
    rw [List.map_cons, List.sum_cons, List.map_cons, List.sum_cons, counted, only, only, List.length_append,
      List.sum_append, number, time, numbers]
    refine ⟨?_, ?_, ?_⟩
    · split <;> rfl
    · by_cases first : name ∈ names udb.upstreamsResponses <;> by_cases second : name ∈ names udb.upstreamsTimeSum <;>
        simp only [first, second, if_true, if_false, not_true_eq_false, not_false_eq_true, and_true, and_false,
          List.sum_nil] <;> omega
    · rintro ⟨v, member, listed⟩
      rcases List.mem_cons.mp member with rfl | member
      · rw [if_pos listed]
        exact fun empty => queried listed (List.append_eq_nil_iff.mp empty).1
      · exact fun empty => some ⟨v, member, listed⟩ (List.append_eq_nil_iff.mp empty).2

/-! ### When the averages are right -/

/-- The sum of the times that the lists have of an upstream. -/
def totalTime (name : String) (units : List UnitDB) : Nat := (units.map fun u => countOf name u.upstreamsTimeSum).sum

theorem mem_avgTime : (name, avg) ∈ (topUpstreamsPairs units).avgTime ↔
    (∃ u ∈ units, name ∈ names u.upstreamsResponses) ∧ totalTime name units ≠ 0 ∧
      avg = (totalTime name units : Rat) / ((units.map fun u => countOf name u.upstreamsResponses).sum : Nat) := by
  have responses := lookup_units (·.upstreamsResponses) units ∅ name
  have times := lookup_units (·.upstreamsTimeSum) units ∅ name
  rw [AList.lookup_empty, Option.getD_none, Nat.zero_add] at responses times
  have total : ((units.foldl (fun m u => m.addPairs u.upstreamsTimeSum) (∅ : Counts)).lookup name).getD 0 = totalTime name units := by
    rw [times]
    split
    · rfl
    · rename_i none
      have zero : (units.map fun v => countOf name v.upstreamsTimeSum).sum = 0 := by
        rw [List.sum_eq_zero_iff]
        intro count member
        obtain ⟨v, inside, rfl⟩ := List.mem_map.mp member
        exact countOf_of_not_mem fun there => none ⟨v, inside, there⟩
      exact zero.symm
  unfold topUpstreamsPairs
  dsimp only
  rw [List.mem_mergeSort, List.mem_filterMap]
  constructor
  · rintro ⟨cp, member, made⟩
    split at made
    · rename_i nonzero
      obtain ⟨rfl, rfl⟩ := Prod.mk.inj (Option.some.inj made)
      rw [mem_pairs, responses] at member
      rw [total] at nonzero ⊢
      split at member
      · rename_i listed
        exact ⟨listed, nonzero, by rw [Option.some.inj member]⟩
      · cases member
    · cases made
  · rintro ⟨listed, nonzero, rfl⟩
    rw [if_pos listed] at responses
    refine ⟨⟨name, _⟩, mem_pairs.mpr responses, ?_⟩
    rewrite [total, if_pos nonzero]
    rfl

theorem averageOf_of_ratio (some : queries ≠ []) (ratio : avg = (queries.sum : Rat) / queries.length) :
    AverageOf queries avg := by
  have positive : (0 : Rat) < queries.length := Nat.cast_pos.mpr (List.length_pos_iff.mpr some)
  have sum : (queries.map fun d : Nat => (d : Rat)).sum = (queries.map fun _ => avg).sum := by
    rw [List.map_const', List.sum_replicate, nsmul_eq_mul, ratio, mul_div_cancel₀ _ positive.ne', ← Nat.cast_list_sum]
  obtain ⟨least, inside, le⟩ := List.exists_le_of_sum_le some _ _ sum.le
  obtain ⟨most, inside', ge⟩ := List.exists_le_of_sum_le some _ _ sum.ge
  exact ⟨ratio, ⟨least, inside, le⟩, ⟨most, inside', ge⟩⟩

theorem Recorded.balanced_iff (recorded : Recorded hours units) :
    Balanced name hours units ↔ totalTime name units = (countedQueries name hours units).sum := by
  have times := (recorded.sums name).2.1
  change totalTime name units + _ = _ at times
  unfold Balanced
  omega

theorem totalTime_ne_zero (some : ∃ udb ∈ units, ∃ cp ∈ udb.upstreamsTimeSum, cp.name = name ∧ cp.count ≠ 0) :
    totalTime name units ≠ 0 := by
  obtain ⟨udb, member, cp, inside, same, nonzero⟩ := some
  intro zero
  have none := List.sum_eq_zero_iff.mp zero _ (List.mem_map_of_mem member)
  have part := List.sum_eq_zero_iff.mp none cp.count
    (List.mem_map_of_mem (List.mem_filter.mpr ⟨inside, decide_eq_true same⟩))
  exact nonzero part

theorem exists_ne_zero_of_sum {counts : List Nat} (nonzero : counts.sum ≠ 0) : ∃ count ∈ counts, count ≠ 0 := by
  by_contra none
  exact nonzero (List.sum_eq_zero_iff.mpr fun count member => by_contra fun other => none ⟨count, member, other⟩)

theorem listed_iff : Listed name units ↔
    (∃ u ∈ units, name ∈ names u.upstreamsResponses) ∧ totalTime name units ≠ 0 := by
  refine and_congr_right fun _ => ⟨totalTime_ne_zero, fun nonzero => ?_⟩
  obtain ⟨part, member, nonzero⟩ := exists_ne_zero_of_sum nonzero
  obtain ⟨udb, inside, rfl⟩ := List.mem_map.mp member
  obtain ⟨count, member, nonzero⟩ := exists_ne_zero_of_sum nonzero
  obtain ⟨cp, filtered, rfl⟩ := List.mem_map.mp member
  obtain ⟨there, same⟩ := List.mem_filter.mp filtered
  exact ⟨udb, inside, cp, there, of_decide_eq_true same, nonzero⟩

/-- An upstream that has been queried is in a list that is not full. -/
theorem mem_of_short {m : Counts} (found : m.lookup name = if queries = [] then none else some n) (some : queries ≠ [])
    (top : IsTop CountsDown maxTop m.pairs s) (short : s.length < maxTop) : name ∈ names s := by
  rw [if_neg some] at found
  have there : (⟨name, n⟩ : CountPair) ∈ m.pairs := mem_pairs.mpr found
  by_contra absent
  have full := top.length_of_dropped there fun listed => absent (mem_names listed)
  exact Nat.ne_of_lt short full

/-- Nothing is missing if no list is full. -/
theorem Recorded.balanced_of_short (recorded : Recorded hours units)
    (short : ∀ udb ∈ units, udb.upstreamsResponses.length < maxTop ∧ udb.upstreamsTimeSum.length < maxTop)
    (name : String) : Balanced name hours units := by
  have none : timeOnlyIn (·.upstreamsResponses) (·.upstreamsTimeSum) name hours units = 0 ∧
      timeOnlyIn (·.upstreamsTimeSum) (·.upstreamsResponses) name hours units = 0 := by
    induction recorded with
    | nil => exact ⟨rfl, rfl⟩
    | @cons entries udb hours units hour _ ih =>
      obtain ⟨u, made, stored⟩ := hour
      rw [List.forall_mem_cons] at short
      have tally := hourUnit_tally made
      have inBoth : name ∈ names udb.upstreamsResponses ↔ name ∈ names udb.upstreamsTimeSum := by
        have responses := countOf_top (tally.responses name) (stored.top .upstreamsResponses)
        have times := countOf_top (tally.times name) (stored.top .upstreamsTimeSum)
        constructor
        · intro listed
          exact mem_of_short (tally.times name) (responses.2 listed) (stored.top .upstreamsTimeSum) short.1.2
        · intro listed
          exact mem_of_short (tally.responses name) (times.2 listed) (stored.top .upstreamsResponses) short.1.1
      have zero : ∀ list other : UnitDB → List CountPair,
          (name ∈ names (list udb) → name ∈ names (other udb)) →
            timeOnlyIn list other name (entries :: hours) (udb :: units) = timeOnlyIn list other name hours units := by
        intro list other same
        have never : ¬(name ∈ names (list udb) ∧ name ∉ names (other udb)) := fun ⟨here, absent⟩ => absent (same here)
        change (if _ then _ else 0) + _ = _
        rw [if_neg never, Nat.zero_add]
        rfl
      obtain ⟨first, second⟩ := ih short.2
      exact ⟨(zero _ _ inBoth.mp).trans first, (zero _ _ inBoth.mpr).trans second⟩
  exact none.1.trans none.2.symm

/-- The averages that are reported are right exactly if, for each upstream that one is reported of, the time that is
missing in some hours is as much as the time that is too much in others. -/
theorem averages_right_iff (recorded : Recorded hours units) :
    AveragesRight hours units ↔ ∀ name, Listed name units → Balanced name hours units := by
  constructor
  · intro right name listed
    have counted := (recorded.sums name).2.2 listed.1
    have ratio := (right name _ (mem_avgTime.mpr ⟨listed.1, (listed_iff.mp listed).2, rfl⟩)).ratio
    have positive : ((countedQueries name hours units).length : Rat) ≠ 0 :=
      Nat.cast_ne_zero.mpr (List.length_pos_iff.mpr counted).ne'
    rw [(recorded.sums name).1, div_left_inj' positive, Nat.cast_inj] at ratio
    exact recorded.balanced_iff.mpr ratio
  · intro balanced name avg reported
    obtain ⟨listed, nonzero, rfl⟩ := mem_avgTime.mp reported
    apply averageOf_of_ratio ((recorded.sums name).2.2 listed)
    rw [(recorded.sums name).1, recorded.balanced_iff.mp (balanced name (listed_iff.mpr ⟨listed, nonzero⟩))]

/-- A unit only fails to count a negative result. -/
theorem hourUnit_some (results : ∀ e ∈ entries, 0 ≤ e.result) : ∃ u, hourUnit entries = some u := by
  unfold hourUnit
  generalize newUnit 0 = u
  induction entries generalizing u with
  | nil => exact ⟨u, rfl⟩
  | cons e entries ih =>
    rw [List.forall_mem_cons] at results
    obtain ⟨u', updated⟩ : ∃ u', u.update e = some u' := by
      unfold StatsUnit.update
      split
      · rename_i valid
        have below : e.result < resultLast := by
          unfold Entry.validate at valid
          split at valid
          · cases valid
          · split at valid
            · cases valid
            · omega
        rw [StatsUnit.add, dif_pos ⟨results.1, below⟩]
        exact ⟨_, rfl⟩
      · exact ⟨u, rfl⟩
    rw [List.foldlM_cons, updated]
    exact ih results.2 u'

/-- What is stored of some hours. -/
theorem recorded_map {hours : List (List Entry)} {store : StatsUnit → UnitDB} (stores : ∀ u, Serialized u (store u))
    (results : ∀ entries ∈ hours, ∀ e ∈ entries, 0 ≤ e.result) :
    Recorded hours (hours.map fun entries => store ((hourUnit entries).getD (newUnit 0))) := by
  rw [Recorded, List.forall₂_map_right_iff, List.forall₂_same]
  intro entries member
  obtain ⟨u, made⟩ := hourUnit_some (results entries member)
  rw [made]
  exact ⟨u, rfl, stores u⟩

/-- An hour with a query to "v". -/
def quietHour : List Entry := [⟨"192.168.10.2", "example.org", [⟨"v", false, false, 10⟩], 1, 100⟩]

def quietUnits : List UnitDB := [quietHour].map fun entries => ((hourUnit entries).getD (newUnit 0)).serialize

theorem quiet_right : AveragesRight [quietHour] quietUnits := by
  have recorded : Recorded [quietHour] quietUnits := recorded_map serialize_serialized (by decide)
  refine (averages_right_iff recorded).mpr fun name _ => recorded.balanced_of_short ?_ name
  intro udb member
  obtain rfl := List.mem_singleton.mp member
  have length : ∀ m : Counts, (convertMapToSlice m maxTop).length ≤ m.entries.length := by
    intro m
    rw [convertMapToSlice, List.length_take, List.length_mergeSort, List.length_map]
    exact Nat.min_le_right _ _
  exact ⟨Nat.lt_of_le_of_lt (length _) (by decide), Nat.lt_of_le_of_lt (length _) (by decide)⟩

end Sums

/-! ### More than a hundred upstreams -/

section Crowded

instance : DecidableRel CountsDown := fun a b => inferInstanceAs (Decidable (b.count ≤ a.count))

/-- The sort of `serialize` as an insertion, which runs here. -/
def insertionTop (m : Counts) : List CountPair := (m.pairs.insertionSort CountsDown).take maxTop

def insertionUnit (u : StatsUnit) : UnitDB :=
  { u.serialize with
    upstreamsResponses := insertionTop u.upstreamsResponses
    upstreamsTimeSum := insertionTop u.upstreamsTimeSum }

theorem insertionTop_isTop (m : Counts) : IsTop CountsDown maxTop m.pairs (insertionTop m) := by
  have total : Std.Total CountsDown := ⟨fun a b => Nat.le_total b.count a.count⟩
  have trans : IsTrans CountPair CountsDown := ⟨fun a b c ab bc => Nat.le_trans bc ab⟩
  exact ⟨_, List.perm_insertionSort CountsDown _, List.pairwise_insertionSort CountsDown _, rfl⟩

theorem serialized_insertionUnit (u : StatsUnit) : Serialized u (insertionUnit u) where
  nTotal := rfl
  nResult := rfl
  timeAvg := rfl
  top map := by
    cases map with
    | upstreamsResponses => exact insertionTop_isTop _
    | upstreamsTimeSum => exact insertionTop_isTop _
    | domains => exact (serialize_serialized u).top .domains
    | blockedDomains => exact (serialize_serialized u).top .blockedDomains
    | clients => exact (serialize_serialized u).top .clients

/-- The upstreams "u", "uu", "uuu" and so on. -/
def slowUpstream (i : Nat) : String := String.ofList (List.replicate (i + 1) 'u')

/-- A hundred upstreams with one query of a millisecond each, and "v" with two of 10 microseconds. -/
def crowdedHour : List Entry :=
  [⟨"192.168.10.2", "example.org",
    (List.range maxTop).map (fun i => ⟨slowUpstream i, false, false, 1000⟩) ++ List.replicate 2 ⟨"v", false, false, 10⟩,
    1, 100⟩]

def crowdedUnits : List UnitDB :=
  [crowdedHour, quietHour].map fun entries => insertionUnit ((hourUnit entries).getD (newUnit 0))

/-- All queries to "v" take 10 microseconds, and their average is a third of that. -/
theorem crowded_wrong : Recorded [crowdedHour, quietHour] crowdedUnits ∧
    ¬AveragesRight [crowdedHour, quietHour] crowdedUnits ∧
      ∃ avg, ("v", avg) ∈ (topUpstreamsPairs crowdedUnits).avgTime ∧
        ∀ entries ∈ [crowdedHour, quietHour], ∀ d ∈ queriesTo "v" entries, avg < d := by
  -- "v" is among the hundred largest counts of the first hour, and not among the largest times
  have reported : ("v", (10 : Rat) / 3) ∈ (topUpstreamsPairs crowdedUnits).avgTime := by
    unfold topUpstreamsPairs
    rw [List.mem_mergeSort]
    decide +kernel
  have durations : ∀ entries ∈ [crowdedHour, quietHour], ∀ d ∈ queriesTo "v" entries, (10 : Rat) / 3 < d := by
    decide +kernel
  refine ⟨recorded_map serialized_insertionUnit (by decide +kernel), fun right => ?_, _, reported, durations⟩
  obtain ⟨d, member, le⟩ := (right "v" _ reported).least
  obtain ⟨⟨entries, udb⟩, hour, inside⟩ := List.mem_flatMap.mp member
  split at inside
  · exact absurd le (not_le.mpr (durations entries (List.of_mem_zip hour).1 d inside))
  · exact absurd inside List.not_mem_nil

end Crowded

end FirewallCore.Stats
