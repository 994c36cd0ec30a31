import Mathlib.Data.List.Basic

/-!
Slices of a garbage-collected systems language: a window of `elems` on a shared
backing array, with `spare` the cells between the window's length and its
capacity. Deleting in place (`append(s[:i], s[i+1:]...)`) shifts the cells
behind the hole to the left but leaves the last cell of the window as it was,
so that a loop which fixed its bound before the deletion still reads that cell.
-/

namespace FirewallCore.Lib

structure Slice (α : Type) where
  elems : List α
  spare : List α
  deriving DecidableEq, Repr

namespace Slice

variable {α : Type}

def nil : Slice α := ⟨[], []⟩

/-- The cells of the backing array, in order. -/
def cells (s : Slice α) : List α := s.elems ++ s.spare

def len (s : Slice α) : Nat := s.elems.length

/-- `append(s, x)`: in place while there is spare capacity, and into a new array
otherwise. The zero cells of a new array are never read before being written. -/
def push (s : Slice α) (x : α) : Slice α := ⟨s.elems ++ [x], s.spare.tail⟩

/-- `append(s[:i], s[i+1:]...)` for `i` inside the window. -/
def removeAt (s : Slice α) (i : Nat) : Slice α :=
  ⟨s.elems.eraseIdx i, s.elems.getLast?.toList ++ s.spare⟩

@[simp] theorem elems_nil : (nil : Slice α).elems = [] := rfl

@[simp] theorem elems_push (s : Slice α) (x : α) : (s.push x).elems = s.elems ++ [x] := rfl

@[simp] theorem elems_removeAt (s : Slice α) (i : Nat) :
    (s.removeAt i).elems = s.elems.eraseIdx i := rfl

/-- Inside the window a cell is the window's own element. -/
theorem cells_getElem?_lt (s : Slice α) {i : Nat} (h : i < s.len) :
    s.cells[i]? = s.elems[i]? := by
  simp only [cells, len] at *
  rw [List.getElem?_append_left h]

/-- A deletion frees one cell, which still holds the old last element. -/
theorem spare_removeAt (s : Slice α) (i : Nat) :
    (s.removeAt i).spare = s.elems.getLast?.toList ++ s.spare := rfl

/-- The first cells of the backing array, from the window's length on. -/
theorem cells_take (s : Slice α) {n : Nat} (h : s.len ≤ n) :
    s.cells.take n = s.elems ++ s.spare.take (n - s.len) := by
  rw [cells, List.take_append, List.take_of_length_le h]
  rfl

/-- A deletion brings no new pointer into the first cells. -/
theorem mem_take_cells_removeAt {s : Slice α} {i n : Nat} {x : α} (inside : i < s.len)
    (h : s.len ≤ n) (member : x ∈ (s.removeAt i).cells.take n) : x ∈ s.cells.take n := by
  obtain ⟨last, isLast⟩ : ∃ last, s.elems.getLast? = some last := by
    have nonempty : s.elems ≠ [] := List.ne_nil_of_length_pos (Nat.zero_lt_of_lt inside)
    exact ⟨_, List.getLast?_eq_some_getLast nonempty⟩
  have shorter : (s.removeAt i).len = s.len - 1 := by
    simp only [len, elems_removeAt] at inside ⊢
    rw [List.length_eraseIdx_of_lt inside]
  rw [cells_take _ (by omega), spare_removeAt, isLast, shorter] at member
  rw [cells_take _ h]
  have fits : n - (s.len - 1) = (n - s.len) + 1 := by omega
  simp only [elems_removeAt, Option.toList_some, List.cons_append, List.nil_append, fits,
    List.take_succ_cons, List.mem_append, List.mem_cons] at member ⊢
  rcases member with kept | rfl | stale
  · exact .inl (List.mem_of_mem_eraseIdx kept)
  · exact .inl (List.mem_of_getLast? isLast)
  · exact .inr stale

end Slice

/-! ### Swap removal -/

section RemoveSwap

variable {α : Type}

/-- Removes the element at `i` by moving the last one into its place. -/
def removeSwap (l : List α) (i : Nat) : List α :=
  match l.getLast? with
  | none => l
  | some last => (l.set i last).dropLast

@[simp] theorem removeSwap_last (A : List α) (x : α) : removeSwap (A ++ [x]) A.length = A := by
  simp [removeSwap]

@[simp] theorem removeSwap_inner (A B : List α) (x z : α) :
    removeSwap (A ++ x :: (B ++ [z])) A.length = A ++ z :: B := by
  have last : (A ++ x :: (B ++ [z])).getLast? = some z := by
    rw [← List.cons_append, ← List.append_assoc, List.getLast?_concat]
  have moved : (A ++ x :: (B ++ [z])).set A.length z = A ++ z :: B ++ [z] := by simp
  simp only [removeSwap, last, moved, List.dropLast_concat]

/-- Up to the order, a swap removal removes just that element. -/
theorem cons_removeSwap_perm {l : List α} {i : Nat} {x : α} (entry : l[i]? = some x) :
    (x :: removeSwap l i).Perm l := by
  obtain ⟨A, B, rfl, rfl⟩ : ∃ A B, l = A ++ x :: B ∧ A.length = i := by
    obtain ⟨inside, rfl⟩ := List.getElem?_eq_some_iff.mp entry
    exact ⟨l.take i, l.drop (i + 1), by simp, by simp [Nat.le_of_lt inside]⟩
  rcases List.eq_nil_or_concat B with rfl | ⟨B, z, rfl⟩
  · rw [removeSwap_last]
    exact (List.perm_append_singleton x A).symm
  · rw [List.concat_eq_append, removeSwap_inner]
    have moved : (A ++ z :: B).Perm (A ++ (B ++ [z])) :=
      (List.perm_append_singleton z B).symm.append_left A
    exact (moved.cons x).trans List.perm_middle.symm

end RemoveSwap

end FirewallCore.Lib
