import Mathlib.Algebra.Order.Ring.Nat
import Mathlib.Data.List.Sort

/-!
Deletion of list entries by their numbers, which count from one.

Numbers that are deleted from the highest to the lowest keep their meaning, as
an entry moves only when one before it goes. The exception is a number that
comes twice: the second time it stands for the next entry.
-/

namespace FirewallCore.Lib

variable {α : Type}

/-- Deletes the entry with a number, if there is one. -/
def deleteAt (l : List α) (num : Nat) : List α :=
  if 0 < num ∧ num ≤ l.length then l.eraseIdx (num - 1) else l

/-- Deletes one entry after the other. -/
def deleteEach (l : List α) (nums : List Nat) : List α := nums.foldl deleteAt l

/-- The entries whose numbers are not listed. -/
def without (l : List α) (nums : List Nat) : List α :=
  ((l.zipIdx 1).filter fun entry => entry.2 ∉ nums).map (·.1)

/-- Behind a number that comes twice, every entry is listed. -/
def RepeatsLast (length : Nat) (nums : List Nat) : Prop :=
  ∀ num, 0 < num → 2 ≤ nums.count num → ∀ later, num < later → later ≤ length → later ∈ nums

section Lists

variable {l before rest : List α} {a : α} {num : Nat} {nums : List Nat}

theorem deleteAt_of_out_of_range (out : ¬(0 < num ∧ num ≤ l.length)) : deleteAt l num = l :=
  if_neg out

theorem deleteAt_append_cons :
    deleteAt (before ++ a :: rest) (before.length + 1) = before ++ rest := by
  have inRange : 0 < before.length + 1 ∧ before.length + 1 ≤ (before ++ a :: rest).length := by
    simp only [List.length_append, List.length_cons]
    omega
  rw [deleteAt, if_pos inRange, Nat.add_sub_cancel,
    List.eraseIdx_append_of_length_le (Nat.le_refl _), Nat.sub_self]
  rfl

/-- An entry with its number, and what is around it. -/
theorem exists_append_cons (inRange : 0 < num ∧ num ≤ l.length) :
    ∃ before a rest, l = before ++ a :: rest ∧ num = before.length + 1 := by
  have bound : num - 1 < l.length := by omega
  refine ⟨l.take (num - 1), l[num - 1], l.drop num, ?_, ?_⟩
  · calc l = l.take (num - 1) ++ l.drop (num - 1) := (List.take_append_drop _ _).symm
      _ = l.take (num - 1) ++ l[num - 1] :: l.drop num := by
        rw [List.drop_eq_getElem_cons bound, Nat.sub_add_cancel inRange.1]
  · rw [List.length_take]
    omega

/-! ### What is left -/

theorem mem_zipIdx_bounds {entry : α × Nat} {start : Nat} (member : entry ∈ l.zipIdx start) :
    start ≤ entry.2 ∧ entry.2 < start + l.length := by
  obtain ⟨b, i⟩ := entry
  exact ⟨List.le_snd_of_mem_zipIdx member, List.snd_lt_add_of_mem_zipIdx member⟩

/-- Only the listed numbers that are in range matter. -/
theorem without_congr {nums' : List Nat}
    (same : ∀ num, 0 < num → num ≤ l.length → (num ∈ nums ↔ num ∈ nums')) :
    without l nums = without l nums' := by
  unfold without
  congr 1
  apply List.filter_congr
  intro entry member
  have bounds := mem_zipIdx_bounds member
  exact decide_eq_decide.mpr (not_congr (same entry.2 (by omega) (by omega)))

theorem without_append_eq (before rest : List α) (nums : List Nat) :
    without (before ++ rest) nums = without before nums ++
      ((rest.zipIdx (1 + before.length)).filter fun entry => entry.2 ∉ nums).map (·.1) := by
  unfold without
  rw [List.zipIdx_append, List.filter_append, List.map_append]

theorem without_append_sublist (before rest : List α) (nums : List Nat) :
    (without (before ++ rest) nums).Sublist (without before nums ++ rest) := by
  rw [without_append_eq]
  apply List.Sublist.append_left
  have kept := (List.filter_sublist (p := fun entry => decide (entry.2 ∉ nums))
    (l := rest.zipIdx (1 + before.length))).map (·.1)
  rwa [List.zipIdx_map_fst] at kept

/-- Entries behind all the numbers stay. -/
theorem without_append (low : ∀ num ∈ nums, num ≤ before.length) :
    without (before ++ rest) nums = without before nums ++ rest := by
  rw [without_append_eq, List.filter_eq_self.mpr, List.zipIdx_map_fst]
  intro entry member
  have bounds := mem_zipIdx_bounds member
  rw [decide_eq_true_iff]
  intro listed
  have := low _ listed
  omega

theorem without_concat (listed : before.length + 1 ∈ nums) :
    without (before ++ [a]) nums = without before nums := by
  have listed' : 1 + before.length ∈ nums := by rwa [Nat.add_comm]
  rw [without_append_eq]
  simp [listed']

/-- The entry with the highest number goes. -/
theorem without_append_cons (low : ∀ num ∈ nums, num ≤ before.length + 1) :
    without (before ++ a :: rest) ((before.length + 1) :: nums) = without before nums ++ rest := by
  have split : before ++ a :: rest = (before ++ [a]) ++ rest := by simp
  rw [split, without_append]
  · congr 1
    rw [without_concat List.mem_cons_self]
    apply without_congr
    intro num _ inRange
    rw [List.mem_cons, or_iff_right (by omega)]
  · intro num listed
    rw [List.length_append, List.length_singleton]
    rcases List.mem_cons.mp listed with rfl | listed
    · exact Nat.le_refl _
    · exact low num listed

theorem without_cons_of_out_of_range (out : ¬(0 < num ∧ num ≤ l.length)) :
    without l (num :: nums) = without l nums := by
  apply without_congr
  intro other positive inRange
  have apart : other ≠ num := by
    rintro rfl
    exact out ⟨positive, inRange⟩
  rw [List.mem_cons, or_iff_right apart]

end Lists

/-! ### Repeats -/

section Repeats

variable {length num : Nat} {nums : List Nat}

theorem repeatsLast_of_nodup (length : Nat) (distinct : nums.Nodup) : RepeatsLast length nums := by
  intro num _ twice
  have once := List.nodup_iff_count_le_one.mp distinct num
  omega

theorem count_le_cons (num other : Nat) (nums : List Nat) :
    nums.count other ≤ (num :: nums).count other :=
  (List.sublist_cons_self num nums).count_le other

theorem repeatsLast_cons_of_out_of_range (out : ¬(0 < num ∧ num ≤ length)) :
    RepeatsLast length (num :: nums) ↔ RepeatsLast length nums := by
  constructor
  · intro repeats other positive twice later after inRange
    have listed := repeats other positive
      (twice.trans (count_le_cons num other nums)) later after inRange
    rcases List.mem_cons.mp listed with rfl | listed
    · omega
    · exact listed
  · intro repeats other positive twice later after inRange
    have apart : num ≠ other := by omega
    rw [List.count_cons_of_ne apart] at twice
    exact List.mem_cons_of_mem _ (repeats other positive twice later after inRange)

/-- The last entry can be listed as often as one likes. -/
theorem repeatsLast_cons_last (length : Nat) (nums : List Nat) :
    RepeatsLast (length + 1) ((length + 1) :: nums) ↔ RepeatsLast length nums := by
  constructor
  · intro repeats other positive twice later after inRange
    have listed := repeats other positive (twice.trans (count_le_cons _ other nums))
      later after (by omega)
    rcases List.mem_cons.mp listed with rfl | listed
    · omega
    · exact listed
  · intro repeats other positive twice later after inRange
    rcases Nat.lt_or_eq_of_le inRange with inner | rfl
    · have apart : length + 1 ≠ other := by omega
      rw [List.count_cons_of_ne apart] at twice
      exact List.mem_cons_of_mem _ (repeats other positive twice later after (by omega))
    · exact List.mem_cons_self

/-- An entry before the last that is listed once does not matter. -/
theorem repeatsLast_cons_of_lt (high : ∀ other ∈ nums, other < num) (inRange : num ≤ length) :
    RepeatsLast (length + 1) (num :: nums) ↔ RepeatsLast length nums := by
  have once : nums.count num = 0 :=
    List.count_eq_zero.mpr fun member => absurd (high num member) (Nat.lt_irrefl num)
  constructor
  · intro repeats other positive twice
    have member : other ∈ nums := List.count_pos_iff.mp (by omega)
    have below := high other member
    have last := repeats other positive (twice.trans (count_le_cons num other nums))
      (length + 1) (by omega) (Nat.le_refl _)
    rcases List.mem_cons.mp last with same | last
    · omega
    · have := high _ last
      omega
  · intro repeats other positive twice
    have apart : num ≠ other := by
      rintro rfl
      rw [List.count_cons_self] at twice
      omega
    rw [List.count_cons_of_ne apart] at twice
    have member : other ∈ nums := List.count_pos_iff.mp (by omega)
    have below := high other member
    have last := high _ (repeats other positive twice length (by omega) (Nat.le_refl _))
    omega

/-- An entry before the last that is listed twice does. -/
theorem not_repeatsLast_of_mem (high : ∀ other ∈ nums, other ≤ num)
    (inRange : 0 < num ∧ num < length)
    (listed : num ∈ nums) : ¬RepeatsLast length (num :: nums) := by
  intro repeats
  have twice : 2 ≤ (num :: nums).count num := by
    have once := List.count_pos_iff.mpr listed
    rw [List.count_cons_self]
    omega
  have last := repeats num inRange.1 twice length inRange.2 (Nat.le_refl _)
  rcases List.mem_cons.mp last with same | last
  · omega
  · have := high _ last
    omega

end Repeats

/-! ### The result -/

section Result

variable {l before rest : List α} {a : α} {num : Nat} {nums : List Nat}

/-- No listed entry stays. -/
theorem deleteEach_sublist (sorted : nums.Pairwise (· ≥ ·)) :
    (deleteEach l nums).Sublist (without l nums) := by
  induction nums generalizing l with
  | nil => simp [deleteEach, without]
  | cons num nums ih =>
    obtain ⟨high, lower⟩ := List.pairwise_cons.mp sorted
    change (deleteEach (deleteAt l num) nums).Sublist _
    by_cases inRange : 0 < num ∧ num ≤ l.length
    · obtain ⟨before, a, rest, rfl, rfl⟩ := exists_append_cons inRange
      rw [deleteAt_append_cons, without_append_cons high]
      exact (ih lower).trans (without_append_sublist before rest nums)
    · rw [deleteAt_of_out_of_range inRange, without_cons_of_out_of_range inRange]
      exact ih lower

/-- The second time, the entry behind goes. -/
theorem deleteEach_ne_of_mem (high : ∀ other ∈ nums, other ≤ before.length + 1)
    (sorted : nums.Pairwise (· ≥ ·)) (listed : before.length + 1 ∈ nums) :
    deleteEach (before ++ a :: rest) nums ≠ without before nums ++ a :: rest := by
  intro same
  have least := (deleteEach_sublist (l := before ++ a :: rest) sorted).length_le
  have again : without (before ++ a :: rest) nums = without before nums ++ rest := by
    rw [← without_append_cons high]
    apply without_congr
    intro num _ _
    rw [List.mem_cons]
    constructor
    · exact .inr
    · rintro (rfl | member)
      · exact listed
      · exact member
  rw [same, again, List.length_append, List.length_append, List.length_cons] at least
  omega

/-- Deletion from the highest number to the lowest leaves what is not listed, if and only if only
the last entries are listed twice. -/
theorem deleteEach_eq_without_iff (sorted : nums.Pairwise (· ≥ ·)) :
    deleteEach l nums = without l nums ↔ RepeatsLast l.length nums := by
  induction nums generalizing l with
  | nil => simp [deleteEach, without, RepeatsLast]
  | cons num nums ih =>
    obtain ⟨high, lower⟩ := List.pairwise_cons.mp sorted
    change deleteEach (deleteAt l num) nums = _ ↔ _
    by_cases inRange : 0 < num ∧ num ≤ l.length
    · obtain ⟨before, a, rest, rfl, rfl⟩ := exists_append_cons inRange
      rw [deleteAt_append_cons, without_append_cons high]
      cases rest with
      | nil =>
        have length : (before ++ [a]).length = before.length + 1 := by simp
        rw [length, List.append_nil, List.append_nil, repeatsLast_cons_last]
        exact ih lower
      | cons b rest =>
        have length : (before ++ a :: b :: rest).length = (before ++ b :: rest).length + 1 := by
          simp only [List.length_append, List.length_cons]
          omega
        have inner : before.length + 1 ≤ (before ++ b :: rest).length := by
          simp only [List.length_append, List.length_cons]
          omega
        rw [length]
        by_cases listed : before.length + 1 ∈ nums
        · apply iff_of_false
          · exact deleteEach_ne_of_mem high lower listed
          · exact not_repeatsLast_of_mem high ⟨Nat.succ_pos _, by omega⟩ listed
        · have strict : ∀ other ∈ nums, other < before.length + 1 := by
            intro other member
            refine Nat.lt_of_le_of_ne (high other member) ?_
            rintro rfl
            exact listed member
          rw [repeatsLast_cons_of_lt strict inner, ← ih lower, without_append]
          exact fun other member => Nat.le_of_lt_succ (strict other member)
    · rw [deleteAt_of_out_of_range inRange, without_cons_of_out_of_range inRange,
        repeatsLast_cons_of_out_of_range inRange]
      exact ih lower

end Result

end FirewallCore.Lib
