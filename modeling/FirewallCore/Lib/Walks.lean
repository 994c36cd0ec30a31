import Mathlib.Data.Set.Finite.Basic
import Mathlib.Order.Interval.Set.Infinite

/-!
Walks: from a start on, each step leads to one place or to none. A walk through finitely many places
ends exactly when it never leads back.
-/

namespace FirewallCore.Lib.Walks

variable {α : Type} {next : α → Option α} {start : Option α} {i j k m n : Nat} {x : α}

/-- Where a walk is after a number of steps, if it has not ended. -/
def place (next : α → Option α) (start : Option α) : Nat → Option α
  | 0 => start
  | n + 1 => (place next start n).bind next

/-- The walk comes to an end. -/
def Ends (next : α → Option α) (start : Option α) : Prop := ∃ n, place next start n = none

/-- The walk leads to no place a second time. -/
def NeverBack (next : α → Option α) (start : Option α) : Prop :=
  ∀ i j x, i < j → place next start i = some x → place next start j ≠ some x

theorem place_add : place next start (m + n) = place next (place next start m) n := by
  induction n with
  | zero => rfl
  | succ n ih =>
    change (place next start (m + n)).bind next = _
    rw [ih]
    rfl

theorem place_succ : place next (some x) (n + 1) = place next (next x) n := by
  rw [Nat.add_comm, place_add]
  rfl

theorem place_none : place next none n = none := by
  induction n with
  | zero => rfl
  | succ n ih =>
    change (place next none n).bind next = none
    rw [ih, Option.bind_none]

theorem ended (le : m ≤ n) (ended : place next start m = none) : place next start n = none := by
  obtain ⟨k, rfl⟩ := Nat.exists_eq_add_of_le le
  rw [place_add, ended, place_none]

/-- A walk that leads back goes around. -/
theorem place_around (first : place next start i = some x) (again : place next start (i + k) = some x) :
    place next start (i + n * k) = some x := by
  induction n with
  | zero => rw [Nat.zero_mul, Nat.add_zero, first]
  | succ n ih => rw [Nat.succ_mul, ← Nat.add_assoc, place_add, ih, ← first, ← place_add, again, first]

theorem Ends.neverBack (ends : Ends next start) : NeverBack next start := by
  intro i j x before first again
  obtain ⟨n, ending⟩ := ends
  obtain ⟨k, rfl⟩ := Nat.exists_eq_add_of_le before.le
  have around : place next start (i + n * k) = some x := place_around first again
  have late : n ≤ i + n * k := (Nat.le_mul_of_pos_right n (by omega)).trans (Nat.le_add_left _ _)
  rw [ended late ending] at around
  cases around

theorem NeverBack.ends (never : NeverBack next start)
    (finite : {x | ∃ n, place next start n = some x}.Finite) : Ends next start := by
  by_contra endless
  have there : ∀ n, ∃ x, place next start n = some x :=
    fun n => Option.ne_none_iff_exists'.mp fun ending => endless ⟨n, ending⟩
  choose visit visits using there
  have injective : Function.Injective visit := by
    intro i j same
    by_contra differs
    rcases Nat.lt_or_gt_of_ne differs with before | before
    · exact never i j _ before (visits i) (same ▸ visits j)
    · exact never j i _ before (visits j) (same ▸ visits i)
  have visited : ∀ n, visit n ∈ {x | ∃ n, place next start n = some x} := fun n => ⟨n, visits n⟩
  exact Set.infinite_of_injective_forall_mem injective visited finite

/-- Among finitely many places, a walk ends exactly when it never leads back. -/
theorem ends_iff_neverBack (finite : {x | ∃ n, place next start n = some x}.Finite) :
    Ends next start ↔ NeverBack next start :=
  ⟨Ends.neverBack, fun never => never.ends finite⟩

/-- What is visited from a place on: the place, and what is visited from the next one on. -/
theorem forall_visited {P : α → Prop} : (∀ n y, place next (some x) n = some y → P y) ↔
    P x ∧ ∀ n y, place next (next x) n = some y → P y := by
  constructor
  · exact fun all => ⟨all 0 x rfl, fun n y visits => all (n + 1) y (place_succ.trans visits)⟩
  · rintro ⟨here, later⟩ n y visits
    cases n with
    | zero =>
      cases visits
      exact here
    | succ n => exact later n y (place_succ.symm.trans visits)

theorem ends_some : Ends next (some x) ↔ Ends next (next x) := by
  constructor
  · rintro ⟨n, ending⟩
    cases n with
    | zero => cases ending
    | succ n => exact ⟨n, place_succ.symm.trans ending⟩
  · rintro ⟨n, ending⟩
    exact ⟨n + 1, place_succ.trans ending⟩

theorem ends_none : Ends next none := ⟨0, rfl⟩

/-- The walk leads to a place. -/
def Visits (next : α → Option α) (start : Option α) (x : α) : Prop := ∃ n, place next start n = some x

theorem not_visits_none : ¬Visits next none x := by
  rintro ⟨n, visits⟩
  rw [place_none] at visits
  cases visits

theorem visits_some_iff {y : α} : Visits next (some x) y ↔ y = x ∨ Visits next (next x) y := by
  constructor
  · rintro ⟨n, visits⟩
    cases n with
    | zero =>
      cases visits
      exact .inl rfl
    | succ n => exact .inr ⟨n, place_succ.symm.trans visits⟩
  · rintro (rfl | ⟨n, visits⟩)
    · exact ⟨0, rfl⟩
    · exact ⟨n + 1, place_succ.trans visits⟩

end FirewallCore.Lib.Walks
