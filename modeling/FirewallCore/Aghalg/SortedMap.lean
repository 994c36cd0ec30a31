import Mathlib.Logic.Function.Basic
import FirewallCore.Lib.BinarySearch

/-!
`SortedMap` of package `aghalg`: a map that keeps its keys in order. The sorted
slice of keys is searched by bisection on every change; its order and its
agreement with the map are fields of the structure.
-/

namespace FirewallCore.Aghalg

open FirewallCore.Lib

/-- `SortedMap`, for a comparison that is part of its type. -/
structure SortedMap (K V : Type) (cmp : K → K → Ordering) where
  vals : K → Option V
  keys : List K
  sorted : keys.Pairwise (cmp · · = .lt)
  mem_keys : ∀ k, k ∈ keys ↔ (vals k).isSome = true

namespace SortedMap

variable {K V : Type} {cmp : K → K → Ordering}

/-- `NewSortedMap`. -/
def new : SortedMap K V cmp := ⟨fun _ => none, [], .nil, by simp⟩

/-- `Get`. -/
def get (m : SortedMap K V cmp) (key : K) : Option V := m.vals key

/-- `Range` with a callback that stops at the first key that meets `p`. -/
def rangeFirst (m : SortedMap K V cmp) (p : K → Bool) : Option V :=
  (m.keys.find? p).bind m.vals

@[simp] theorem get_new (k : K) : (new : SortedMap K V cmp).get k = none := rfl

/-- A walk over the keys for one of them finds what `Get` finds. -/
theorem rangeFirst_eq_get [DecidableEq K] (m : SortedMap K V cmp) (key : K) :
    m.rangeFirst (key == ·) = m.get key := by
  unfold rangeFirst get
  by_cases member : key ∈ m.keys
  · have found : m.keys.find? (key == ·) = some key := by
      cases h : m.keys.find? (key == ·) with
      | none =>
        have miss := List.find?_eq_none.mp h key member
        simp at miss
      | some k =>
        have same := List.find?_some h
        simp only [beq_iff_eq] at same
        rw [same]
    rw [found, Option.bind_some]
  · have missing : m.keys.find? (key == ·) = none := by
      refine List.find?_eq_none.mpr ?_
      rintro k listed same
      simp only [beq_iff_eq] at same
      exact member (same ▸ listed)
    rw [missing, Option.bind_none]
    rw [m.mem_keys] at member
    cases found : m.vals key with
    | none => rfl
    | some v => simp [found] at member

/-- The first key that meets `p` is the least of those that do. -/
theorem rangeFirst_some {m : SortedMap K V cmp} {p : K → Bool} {v : V} (found : m.rangeFirst p = some v) :
    ∃ k, m.get k = some v ∧ p k = true ∧
      ∀ k', (m.get k').isSome = true → p k' = true → k' = k ∨ cmp k k' = .lt := by
  obtain ⟨k, first, value⟩ := Option.bind_eq_some_iff.mp found
  obtain ⟨meets, A, B, split_, earlier⟩ := List.find?_eq_some_iff_append.mp first
  refine ⟨k, value, meets, ?_⟩
  intro k' there meets'
  have member := (m.mem_keys k').mpr there
  have sorted := m.sorted
  rw [split_, List.mem_append, List.mem_cons] at member
  rw [split_, List.pairwise_append, List.pairwise_cons] at sorted
  rcases member with before | same | behind
  · exact absurd meets' (by simpa using earlier k' before)
  · exact .inl same
  · exact .inr (sorted.2.1.1 k' behind)

theorem rangeFirst_none {m : SortedMap K V cmp} {p : K → Bool} (missed : m.rangeFirst p = none) :
    ∀ k, (m.get k).isSome = true → ¬p k = true := by
  intro k there
  have member := (m.mem_keys k).mpr there
  unfold rangeFirst at missed
  cases first : m.keys.find? p with
  | none => exact List.find?_eq_none.mp first k member
  | some k' =>
    have stored := (m.mem_keys k').mp (List.mem_of_find?_eq_some first)
    rw [first, Option.bind_some] at missed
    simp [missed] at stored

variable [Std.TransCmp cmp] [Std.LawfulEqCmp cmp]

/-- The slice of keys is determined by the map. -/
theorem rangeFirst_congr {m m' : SortedMap K V cmp} (same : m.get = m'.get) (p : K → Bool) :
    m.rangeFirst p = m'.rangeFirst p := by
  have irrefl : ∀ k, cmp k k ≠ .lt := by simp [Std.ReflCmp.compare_self]
  have vals : m.vals = m'.vals := same
  have nodup : ∀ m : SortedMap K V cmp, m.keys.Nodup := by
    intro m
    refine m.sorted.imp ?_
    rintro a b less rfl
    exact irrefl a less
  have perm : m.keys.Perm m'.keys := by
    refine (List.perm_ext_iff_of_nodup (nodup m) (nodup m')).mpr fun k => ?_
    rw [m.mem_keys, m'.mem_keys, vals]
  have keys : m.keys = m'.keys := by
    refine perm.eq_of_pairwise ?_ m.sorted m'.sorted
    intro a b _ _ ab ba
    exact absurd (Std.TransCmp.lt_trans ab ba) (irrefl a)
  unfold rangeFirst
  rw [keys, vals]

/-- The keys after `Set`. -/
def setKeys (cmp : K → K → Ordering) (keys : List K) (key : K) : List K :=
  let found := binarySearchFunc keys key cmp
  if found.2 then keys.set found.1 key else keys.insertIdx found.1 key

/-- A new key is inserted in order, and an old one is written over itself. -/
theorem setKeys_spec {keys : List K} {key : K} (sorted : keys.Pairwise (cmp · · = .lt)) :
    (setKeys cmp keys key).Pairwise (cmp · · = .lt) ∧
      ∀ k, k ∈ setKeys cmp keys key ↔ k = key ∨ k ∈ keys := by
  by_cases member : key ∈ keys
  · obtain ⟨A, B, rfl, found⟩ := binarySearchFunc_mem sorted member
    have same : setKeys cmp (A ++ key :: B) key = A ++ key :: B := by
      simp [setKeys, found]
    rw [same]
    refine ⟨sorted, fun k => ?_⟩
    constructor
    · exact .inr
    · rintro (rfl | old)
      · exact member
      · exact old
  · obtain ⟨A, B, rfl, found, low, high⟩ := binarySearchFunc_notMem sorted member
    have inserted : setKeys cmp (A ++ B) key = A ++ key :: B := by
      simp [setKeys, found, insertIdx_length_append]
    rw [inserted]
    obtain ⟨left, right, apart⟩ := List.pairwise_append.mp sorted
    constructor
    · refine List.pairwise_append.mpr ⟨left, List.pairwise_cons.mpr ⟨high, right⟩, ?_⟩
      intro a before b behind
      rcases List.mem_cons.mp behind with rfl | later
      · exact low a before
      · exact apart a before b later
    · intro k
      simp only [List.mem_append, List.mem_cons]
      tauto

/-- The keys after `Del` of a key that is there. -/
def delKeys (cmp : K → K → Ordering) (keys : List K) (key : K) : List K :=
  keys.eraseIdx (binarySearchFunc keys key cmp).1

theorem delKeys_spec {keys : List K} {key : K} (sorted : keys.Pairwise (cmp · · = .lt))
    (member : key ∈ keys) :
    (delKeys cmp keys key).Pairwise (cmp · · = .lt) ∧
      ∀ k, k ∈ delKeys cmp keys key ↔ k ≠ key ∧ k ∈ keys := by
  obtain ⟨A, B, rfl, found⟩ := binarySearchFunc_mem sorted member
  have erased : delKeys cmp (A ++ key :: B) key = A ++ B := by
    simp [delKeys, found, List.eraseIdx_append_of_length_le]
  rw [erased]
  refine ⟨sorted.sublist ((List.sublist_cons_self key B).append_left A), ?_⟩
  have irrefl : cmp key key ≠ .lt := by simp [Std.ReflCmp.compare_self]
  obtain ⟨-, tail, apart⟩ := List.pairwise_append.mp sorted
  intro k
  simp only [List.mem_append, List.mem_cons]
  constructor
  · rintro (before | behind)
    · refine ⟨?_, .inl before⟩
      rintro rfl
      exact irrefl (apart k before k (by simp))
    · refine ⟨?_, .inr (.inr behind)⟩
      rintro rfl
      exact irrefl ((List.pairwise_cons.mp tail).1 k behind)
  · rintro ⟨ne, before | same | behind⟩
    · exact .inl before
    · exact absurd same ne
    · exact .inr behind

variable [DecidableEq K]

/-- `Set`. -/
def set (m : SortedMap K V cmp) (key : K) (val : V) : SortedMap K V cmp where
  vals := Function.update m.vals key (some val)
  keys := setKeys cmp m.keys key
  sorted := (setKeys_spec m.sorted).1
  mem_keys k := by
    rw [(setKeys_spec m.sorted).2 k, m.mem_keys]
    by_cases here : k = key
    · simp [here]
    · simp [here]

/-- `Del`. -/
def del (m : SortedMap K V cmp) (key : K) : SortedMap K V cmp :=
  if h : key ∈ m.keys then
    { vals := Function.update m.vals key none
      keys := delKeys cmp m.keys key
      sorted := (delKeys_spec m.sorted h).1
      mem_keys := fun k => by
        rw [(delKeys_spec m.sorted h).2 k, m.mem_keys]
        by_cases here : k = key
        · simp [here]
        · simp [here] }
  else m

theorem get_set (m : SortedMap K V cmp) (key k : K) (val : V) :
    (m.set key val).get k = if k = key then some val else m.get k :=
  Function.update_apply ..

theorem get_del (m : SortedMap K V cmp) (key k : K) :
    (m.del key).get k = if k = key then none else m.get k := by
  unfold del
  by_cases member : key ∈ m.keys
  · rw [dif_pos member]
    exact Function.update_apply ..
  · rw [dif_neg member]
    by_cases here : k = key
    · subst here
      rw [m.mem_keys] at member
      rw [if_pos rfl]
      simpa [get] using member
    · rw [if_neg here]

end SortedMap

end FirewallCore.Aghalg
