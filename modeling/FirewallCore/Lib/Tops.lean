import Mathlib.Data.List.Perm.Basic

/-!
The first elements of a list under an order that leaves ties: what a sort, stable or not, and
a cut behind the first so many may give.
-/

namespace FirewallCore.Lib

/-- `s` is the beginning, of at most `most` elements, of some sorted arrangement of `l`. -/
def IsTop {α : Type} (before : α → α → Prop) (most : Nat) (l s : List α) : Prop :=
  ∃ sorted : List α, sorted.Perm l ∧ sorted.Pairwise before ∧ s = sorted.take most

namespace IsTop

variable {α : Type} {before : α → α → Prop} {most : Nat} {l l' s s' : List α} {a b : α}

theorem mem (top : IsTop before most l s) (member : a ∈ s) : a ∈ l := by
  obtain ⟨sorted, perm, -, rfl⟩ := top
  exact perm.subset (List.mem_of_mem_take member)

theorem length_le (top : IsTop before most l s) : s.length ≤ most := by
  obtain ⟨sorted, -, -, rfl⟩ := top
  exact List.length_take_le most sorted

theorem pairwise (top : IsTop before most l s) : s.Pairwise before := by
  obtain ⟨sorted, -, order, rfl⟩ := top
  exact order.sublist (List.take_sublist most sorted)

/-- Nothing is cut from a short list. -/
theorem perm (top : IsTop before most l s) (short : l.length ≤ most) : s.Perm l := by
  obtain ⟨sorted, perm, -, rfl⟩ := top
  rw [List.take_of_length_le (by rw [perm.length_eq]; exact short)]
  exact perm

/-- What is kept comes before what is dropped. -/
theorem before_of_dropped (top : IsTop before most l s) (kept : a ∈ s) (member : b ∈ l) (dropped : b ∉ s) :
    before a b := by
  obtain ⟨sorted, perm, order, rfl⟩ := top
  rw [← List.take_append_drop most sorted, List.pairwise_append] at order
  have there : b ∈ sorted.take most ++ sorted.drop most := by
    rw [List.take_append_drop]
    exact perm.symm.subset member
  exact order.2.2 a kept b ((List.mem_append.mp there).resolve_left dropped)

/-- A cut is full if anything is dropped. -/
theorem length_of_dropped (top : IsTop before most l s) (member : b ∈ l) (dropped : b ∉ s) : s.length = most := by
  rcases Nat.lt_or_ge most l.length with long | short
  · obtain ⟨sorted, perm, -, rfl⟩ := top
    rw [List.length_take, perm.length_eq]
    exact Nat.min_eq_left (Nat.le_of_lt long)
  · exact absurd ((top.perm short).symm.subset member) dropped

/-- The first elements of the first elements are the same ones. -/
theorem again (top : IsTop before most l s) (same : l'.Perm s) (top' : IsTop before most l' s') : s'.Perm s :=
  (top'.perm (same.length_eq ▸ top.length_le)).trans same

end IsTop

end FirewallCore.Lib
