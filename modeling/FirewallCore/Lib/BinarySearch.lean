import Mathlib.Data.List.Basic

/-!
Binary search in a slice, as the loop computes it: the window from `i` to `j` is
halved until it is empty. On a list that is split by the comparison into a part
below the target and a rest, the loop ends at the split, whatever the lengths.
-/

namespace FirewallCore.Lib

variable {α : Type}

/-- The loop of a binary search for the first element that is not `below`, in the
window from `i` to `j`, for at most `n` rounds. -/
def searchLoop (below : α → Bool) (l : List α) : Nat → Nat → Nat → Nat
  | 0, i, _ => i
  | n + 1, i, j =>
    if i < j then
      let h := (i + j) / 2
      match l[h]? with
      | none => i
      | some x => if below x then searchLoop below l n (h + 1) j else searchLoop below l n i h
    else i

/-- The position of the target, or where it would be inserted, and whether it is
there. -/
def binarySearchFunc {β : Type} (l : List α) (target : β) (cmp : α → β → Ordering) :
    Nat × Bool :=
  let i := searchLoop (fun x => cmp x target == .lt) l l.length 0 l.length
  (i, l[i]?.any fun x => cmp x target == .eq)

/-- The loop finds the split. -/
theorem searchLoop_eq {below : α → Bool} {A B : List α} (low : ∀ a ∈ A, below a = true)
    (high : ∀ b ∈ B, below b = false) {n i j : Nat} (left : i ≤ A.length) (right : A.length ≤ j)
    (inside : j ≤ (A ++ B).length) (enough : j - i ≤ n) :
    searchLoop below (A ++ B) n i j = A.length := by
  induction n generalizing i j with
  | zero =>
    rw [searchLoop]
    omega
  | succ n ih =>
    rw [searchLoop]
    by_cases open_ : i < j
    · rw [if_pos open_]
      have bound : (i + j) / 2 < (A ++ B).length := by omega
      simp only [List.getElem?_eq_getElem bound]
      by_cases before : (i + j) / 2 < A.length
      · have isBelow : below (A ++ B)[(i + j) / 2] = true := by
          rw [List.getElem_append_left before]
          exact low _ (List.getElem_mem before)
        simp only [isBelow, if_true]
        exact ih (by omega) right inside (by omega)
      · have notBelow : below (A ++ B)[(i + j) / 2] = false := by
          rw [List.getElem_append_right (by omega)]
          exact high _ (List.getElem_mem _)
        simp only [notBelow, Bool.false_eq_true, if_false]
        exact ih left (by omega) (by omega) (by omega)
    · rw [if_neg open_]
      omega

/-- The search in a list that the comparison splits ends at the split. -/
theorem binarySearchFunc_split {β : Type} {cmp : α → β → Ordering} {A B : List α} {k : β}
    (low : ∀ a ∈ A, cmp a k = .lt) (high : ∀ b ∈ B, cmp b k ≠ .lt) :
    binarySearchFunc (A ++ B) k cmp = (A.length, B.head?.any fun x => cmp x k == .eq) := by
  have found : searchLoop (fun x => cmp x k == .lt) (A ++ B) (A ++ B).length 0 (A ++ B).length = A.length := by
    refine searchLoop_eq ?_ ?_ (Nat.zero_le _) (by simp) (Nat.le_refl _) (by omega)
    · intro a before
      simpa using low a before
    · intro b behind
      simpa using high b behind
  have head : (A ++ B)[A.length]? = B.head? := by
    rw [List.getElem?_append_right (Nat.le_refl _), Nat.sub_self, List.head?_eq_getElem?]
  simp only [binarySearchFunc, found, head]

theorem insertIdx_length_append (A B : List α) (x : α) : (A ++ B).insertIdx A.length x = A ++ x :: B := by
  induction A with
  | nil => rfl
  | cons a A ih => simp [ih]

section Sorted

variable {cmp : α → α → Ordering} [Std.TransCmp cmp] [Std.LawfulEqCmp cmp] {l : List α} {k : α}

/-- In a sorted list an element is found where it stands. -/
theorem binarySearchFunc_mem (sorted : l.Pairwise (cmp · · = .lt)) (member : k ∈ l) :
    ∃ A B, l = A ++ k :: B ∧ binarySearchFunc l k cmp = (A.length, true) := by
  obtain ⟨A, B, rfl⟩ := List.append_of_mem member
  obtain ⟨-, tail, apart⟩ := List.pairwise_append.mp sorted
  refine ⟨A, B, rfl, ?_⟩
  rw [binarySearchFunc_split (fun a before => apart a before k (by simp))]
  · simp [Std.ReflCmp.compare_self]
  · intro b behind
    rcases List.mem_cons.mp behind with rfl | later
    · simp [Std.ReflCmp.compare_self]
    · have after := (List.pairwise_cons.mp tail).1 b later
      simp [Std.OrientedCmp.gt_of_lt after]

/-- Elsewhere the search ends between the smaller and the larger elements. -/
theorem binarySearchFunc_notMem (sorted : l.Pairwise (cmp · · = .lt)) (absent : k ∉ l) :
    ∃ A B, l = A ++ B ∧ binarySearchFunc l k cmp = (A.length, false) ∧
      (∀ a ∈ A, cmp a k = .lt) ∧ ∀ b ∈ B, cmp k b = .lt := by
  obtain ⟨A, B, rfl, low, high⟩ : ∃ A B, l = A ++ B ∧ (∀ a ∈ A, cmp a k = .lt) ∧
      ∀ b ∈ B, cmp k b = .lt := by
    induction l with
    | nil => exact ⟨[], [], rfl, by simp, by simp⟩
    | cons x l ih =>
      obtain ⟨first, rest⟩ := List.pairwise_cons.mp sorted
      by_cases before : cmp x k = .lt
      · obtain ⟨A, B, rfl, low, high⟩ := ih rest fun member => absent (by simp [member])
        refine ⟨x :: A, B, rfl, ?_, high⟩
        intro a member
        rcases List.mem_cons.mp member with rfl | later
        · exact before
        · exact low a later
      · have other : cmp x k ≠ .eq := by
          intro same
          exact absent (by simp [Std.LawfulEqCmp.eq_of_compare same])
        have after : cmp k x = .lt := by
          rw [← Std.OrientedCmp.gt_iff_lt]
          cases h : cmp x k with
          | lt => exact absurd h before
          | eq => exact absurd h other
          | gt => rfl
        refine ⟨[], x :: l, rfl, by simp, ?_⟩
        intro b member
        rcases List.mem_cons.mp member with rfl | later
        · exact after
        · exact Std.TransCmp.lt_trans after (first b later)
  have above : ∀ b ∈ B, cmp b k = .gt := fun b behind => Std.OrientedCmp.gt_of_lt (high b behind)
  refine ⟨A, B, rfl, ?_, low, high⟩
  rw [binarySearchFunc_split low fun b behind => by simp [above b behind]]
  cases B with
  | nil => rfl
  | cons b B => simp [above b List.mem_cons_self]

end Sorted

end FirewallCore.Lib
