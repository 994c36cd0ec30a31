import FirewallCore.Lib.Tops
import FirewallCore.Stats.StatsUnit

/-!
What is left of a unit of statistics when it is stored and loaded again. Each map of a unit
is stored as the list of its largest counts, with equal counts in any order (`Serialized`;
`serialize` is one choice). Storing twice stores the same, up to that order
(`stored_stable`), for a list of at most a hundred pairs is stored whole, and the time that is
computed back from an average has that average.
-/

namespace FirewallCore.Stats

open FirewallCore.Lib

/-- The five maps of a unit that names count in. -/
inductive NameMap where
  | domains
  | blockedDomains
  | clients
  | upstreamsResponses
  | upstreamsTimeSum
  deriving DecidableEq, Repr

def StatsUnit.counts (u : StatsUnit) : NameMap → Counts
  | .domains => u.domains
  | .blockedDomains => u.blockedDomains
  | .clients => u.clients
  | .upstreamsResponses => u.upstreamsResponses
  | .upstreamsTimeSum => u.upstreamsTimeSum

def UnitDB.pairs (udb : UnitDB) : NameMap → List CountPair
  | .domains => udb.domains
  | .blockedDomains => udb.blockedDomains
  | .clients => udb.clients
  | .upstreamsResponses => udb.upstreamsResponses
  | .upstreamsTimeSum => udb.upstreamsTimeSum

/-- The pairs of a map, in the order of some iteration. -/
def Counts.pairs (m : Counts) : List CountPair := m.entries.map fun entry => ⟨entry.1, entry.2⟩

/-- `compareCount` does not put the second pair first. -/
def CountsDown (a b : CountPair) : Prop := b.count ≤ a.count

/-- What `serialize` may make of a unit, with equal counts in any order. -/
structure Serialized (u : StatsUnit) (udb : UnitDB) : Prop where
  nTotal : udb.nTotal = u.nTotal
  nResult : udb.nResult = u.nResult
  timeAvg : udb.timeAvg = if u.nTotal = 0 then 0 else u.timeSum / u.nTotal % 2 ^ 32
  top : ∀ map, IsTop CountsDown maxTop (u.counts map).pairs (udb.pairs map)

/-- Two stored units that differ in the order of equal counts. -/
structure SameUpToTies (udb udb' : UnitDB) : Prop where
  nTotal : udb'.nTotal = udb.nTotal
  nResult : udb'.nResult = udb.nResult
  timeAvg : udb'.timeAvg = udb.timeAvg
  perm : ∀ map, (udb'.pairs map).Perm (udb.pairs map)
  counts : ∀ map, (udb'.pairs map).map (·.count) = (udb.pairs map).map (·.count)

/-! ### Maps and their pairs -/

section Pairs

variable {m : Counts} {s : List CountPair} {p : CountPair} {name : String} {most : Nat}

theorem convertMapToSlice_isTop (m : Counts) (most : Nat) : IsTop CountsDown most m.pairs (convertMapToSlice m most) := by
  refine ⟨_, List.mergeSort_perm m.pairs _, ?_, rfl⟩
  have order : (m.pairs.mergeSort fun a b => decide (b.count ≤ a.count)).Pairwise fun a b => decide (b.count ≤ a.count) :=
    List.pairwise_mergeSort (fun a b c ab bc => by simp only [decide_eq_true_eq] at *; omega)
    (fun a b => by simp only [Bool.or_eq_true, decide_eq_true_eq]; omega) m.pairs
  exact order.imp fun le => of_decide_eq_true le

/-- The code's choice is one of those possible. -/
theorem serialize_serialized (u : StatsUnit) : Serialized u u.serialize where
  nTotal := rfl
  nResult := rfl
  timeAvg := rfl
  top map := by
    cases map with
    | domains => exact convertMapToSlice_isTop _ _
    | blockedDomains => exact convertMapToSlice_isTop _ _
    | clients => exact convertMapToSlice_isTop _ _
    | upstreamsResponses => exact convertMapToSlice_isTop _ _
    | upstreamsTimeSum => exact convertMapToSlice_isTop _ _

theorem mem_pairs : p ∈ m.pairs ↔ m.lookup p.name = some p.count := by
  rw [Counts.pairs, List.mem_map]
  constructor
  · rintro ⟨entry, member, rfl⟩
    exact AList.mem_lookup_iff.mpr member
  · intro found
    exact ⟨⟨p.name, p.count⟩, AList.mem_lookup_iff.mp found, rfl⟩

theorem pairs_names (m : Counts) : m.pairs.map (·.name) = m.keys := by
  rw [Counts.pairs, List.map_map]
  rfl

theorem nodup_names (m : Counts) : (m.pairs.map (·.name)).Nodup := by
  rw [pairs_names]
  exact m.keys_nodup

theorem nodup_pairs (m : Counts) : m.pairs.Nodup := (nodup_names m).of_map

/-- A map that is loaded has the pairs of the list, whose names are different. -/
theorem mem_convertSliceToMap (nodup : (s.map (·.name)).Nodup) :
    p ∈ (convertSliceToMap s).pairs ↔ p ∈ s := by
  have from_ : ∀ m : Counts, (∀ q ∈ s, m.lookup q.name = none) →
      ((s.foldl (fun m it => m.insert it.name it.count) m).lookup p.name = some p.count ↔
        p ∈ s ∨ m.lookup p.name = some p.count) := by
    induction s with
    | nil => exact fun m _ => ⟨.inr, fun found => found.resolve_left List.not_mem_nil⟩
    | cons q s ih =>
      intro m fresh
      rw [List.map_cons, List.nodup_cons] at nodup
      rw [List.forall_mem_cons] at fresh
      have later : ∀ r ∈ s, (m.insert q.name q.count).lookup r.name = none := by
        intro r member
        have other : r.name ≠ q.name := fun same => nodup.1 (List.mem_map.mpr ⟨r, member, same⟩)
        rw [AList.lookup_insert_ne other]
        exact fresh.2 r member
      rw [List.foldl_cons, ih nodup.2 _ later, List.mem_cons]
      by_cases same : p.name = q.name
      · rw [same, AList.lookup_insert, fresh.1]
        have notThere : p ∉ s := fun member => nodup.1 (List.mem_map.mpr ⟨p, member, same⟩)
        simp only [notThere, Option.some_inj, reduceCtorEq, or_false, false_or]
        obtain ⟨name, count⟩ := p
        obtain ⟨name', count'⟩ := q
        simp only [CountPair.mk.injEq]
        exact ⟨fun eq => ⟨same, eq.symm⟩, fun eq => eq.2.symm⟩
      · rw [AList.lookup_insert_ne same]
        have other : p ≠ q := fun eq => same (congrArg CountPair.name eq)
        simp only [other, false_or]
  rw [mem_pairs, convertSliceToMap, from_ ∅ (fun q _ => AList.lookup_empty q.name), AList.lookup_empty]
  simp

theorem convertSliceToMap_perm (nodup : (s.map (·.name)).Nodup) : (convertSliceToMap s).pairs.Perm s :=
  (List.perm_ext_iff_of_nodup (nodup_pairs _) nodup.of_map).mpr fun _ => mem_convertSliceToMap nodup

theorem IsTop.nodup_names (top : IsTop CountsDown most m.pairs s) : (s.map (·.name)).Nodup := by
  obtain ⟨sorted, perm, -, rfl⟩ := top
  have nodup := (perm.map (·.name)).nodup_iff.mpr (Stats.nodup_names m)
  exact nodup.sublist ((List.take_sublist most sorted).map _)

end Pairs

/-! ### Stored units -/

section Stored

variable {u base : StatsUnit} {udb udb' : UnitDB}

theorem deserialize_counts (base : StatsUnit) (udb : UnitDB) (map : NameMap) :
    (base.deserialize (some udb)).counts map = convertSliceToMap (udb.pairs map) := by
  cases map <;> rfl

namespace Serialized

/-- The time that an average stands for is not more than the one it was computed from. -/
theorem timeSum_le (stored : Serialized u udb) : udb.timeAvg * udb.nTotal ≤ u.timeSum := by
  rw [stored.timeAvg, stored.nTotal]
  split
  · rw [Nat.zero_mul]
    exact Nat.zero_le _
  · calc u.timeSum / u.nTotal % 2 ^ 32 * u.nTotal
        ≤ u.timeSum / u.nTotal * u.nTotal := Nat.mul_le_mul_right _ (Nat.mod_le _ _)
      _ ≤ u.timeSum := Nat.div_mul_le_self _ _

/-- A map that fits in its list is loaded as it was. -/
theorem lookup (stored : Serialized u udb) (base : StatsUnit) {map : NameMap} (fits : (u.counts map).pairs.length ≤ maxTop)
    (name : String) : ((base.deserialize (some udb)).counts map).lookup name = (u.counts map).lookup name := by
  rw [deserialize_counts]
  have top := stored.top map
  ext count
  have loaded := mem_convertSliceToMap (p := ⟨name, count⟩) (IsTop.nodup_names top)
  rw [(top.perm fits).mem_iff, mem_pairs, mem_pairs] at loaded
  exact loaded

theorem again (stored : Serialized u udb) (stored' : Serialized (base.deserialize (some udb)) udb') :
    SameUpToTies udb udb' := by
  have perm : ∀ map, (udb'.pairs map).Perm (udb.pairs map) := by
    intro map
    have top := stored'.top map
    rw [deserialize_counts] at top
    exact (stored.top map).again (convertSliceToMap_perm (IsTop.nodup_names (stored.top map))) top
  refine ⟨stored'.nTotal, stored'.nResult, ?_, perm, fun map => ?_⟩
  · have avg := stored'.timeAvg
    change udb'.timeAvg = if udb.nTotal = 0 then 0 else udb.timeAvg * udb.nTotal / udb.nTotal % 2 ^ 32 at avg
    rw [avg, stored.timeAvg, stored.nTotal]
    split
    · rfl
    · rename_i some
      rw [Nat.mul_div_cancel _ (Nat.pos_of_ne_zero some), Nat.mod_mod]
  · have down : ∀ {s : List CountPair}, s.Pairwise CountsDown → (s.map (·.count)).Pairwise (· ≥ ·) :=
      fun order => List.pairwise_map.mpr order
    exact ((perm map).map _).eq_of_pairwise (fun a b _ _ le ge => Nat.le_antisymm ge le)
      (down (stored'.top map).pairwise) (down (stored.top map).pairwise)

end Serialized

/-- Of a unit that is stored and loaded the totals are kept, each map with at most a hundred names, and the largest
counts of the others; stored again it is the same, up to the order of equal counts. The time is not more than before,
so that it is a number of 64 bits again. -/
theorem stored_stable (base u : StatsUnit) (udb : UnitDB) (stored : Serialized u udb) :
    (base.deserialize (some udb)).nTotal = u.nTotal ∧ (base.deserialize (some udb)).nResult = u.nResult ∧
      (∀ map, (u.counts map).pairs.length ≤ maxTop → ∀ name,
        ((base.deserialize (some udb)).counts map).lookup name = (u.counts map).lookup name) ∧
      (∀ udb', Serialized (base.deserialize (some udb)) udb' → SameUpToTies udb udb') ∧
      (∀ map, ∀ kept ∈ udb.pairs map, ∀ dropped ∈ (u.counts map).pairs, dropped ∉ udb.pairs map →
        dropped.count ≤ kept.count) ∧
      (base.deserialize (some udb)).timeSum ≤ u.timeSum := by
  refine ⟨stored.nTotal, stored.nResult, fun map fits name => stored.lookup base fits name, fun udb' again => ?_, ?_,
    stored.timeSum_le⟩
  · exact stored.again again
  · intro map kept member dropped there absent
    exact (stored.top map).before_of_dropped member there absent

/-- A unit that has counted one query. -/
def countedUnit : StatsUnit := ((newUnit 0).add ⟨"192.168.10.2", "example.org", [], 1, 100⟩).getD (newUnit 0)

theorem countedUnit_stable : SameUpToTies countedUnit.serialize
    ((newUnit 0).deserialize (some countedUnit.serialize)).serialize :=
  (stored_stable (newUnit 0) countedUnit _ (serialize_serialized _)).2.2.2.1 _ (serialize_serialized _)

end Stored

end FirewallCore.Stats
