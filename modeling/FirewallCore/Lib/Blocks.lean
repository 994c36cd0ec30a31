import Mathlib.Algebra.Order.Group.Nat
import Mathlib.Data.List.Nodup

/-!
Blocks: a list cut into blocks of one size, of which the last one is filled up, and the numbers of a
range that a test selects.
-/

namespace FirewallCore.Lib.Blocks

variable {α : Type} {size a b n limit : Nat} {fill : α} {l c : List α} {select : Nat → Bool}
  {later : List Nat}

/-! ### Cutting -/

/-- The blocks of a list. -/
def blocksOf (size : Nat) (fill : α) (l : List α) : List (List α) :=
  if l = [] ∨ size = 0 then []
  else (l.take size ++ List.replicate (size - l.length) fill) :: blocksOf size fill (l.drop size)
termination_by l.length
decreasing_by
  rename_i some
  rw [not_or] at some
  have positive := List.length_pos_of_ne_nil some.1
  rw [List.length_drop]
  omega

@[simp] theorem blocksOf_nil : blocksOf size fill ([] : List α) = [] := by
  rw [blocksOf, if_pos (.inl rfl)]

theorem blocksOf_cons (positive : 0 < size) (some : l ≠ []) : blocksOf size fill l =
    (l.take size ++ List.replicate (size - l.length) fill) :: blocksOf size fill (l.drop size) := by
  rw [blocksOf, if_neg (not_or.mpr ⟨some, positive.ne'⟩)]

/-- The number of blocks. -/
theorem length_blocksOf (positive : 0 < size) :
    (blocksOf size fill l).length = (l.length + size - 1) / size := by
  induction l using blocksOf.induct size with
  | case1 l none =>
    obtain rfl := none.resolve_right positive.ne'
    rw [blocksOf_nil]
    exact (Nat.div_eq_of_lt (by simp; omega)).symm
  | case2 l some ih =>
    rw [not_or] at some
    have more := List.length_pos_of_ne_nil some.1
    rw [blocksOf_cons positive some.1, List.length_cons, ih, List.length_drop]
    by_cases short : l.length ≤ size
    · rw [Nat.sub_eq_zero_of_le short, Nat.zero_add, Nat.div_eq_of_lt (by omega)]
      exact (Nat.div_eq_of_lt_le (by omega) (by omega)).symm
    · rw [← Nat.add_div_right _ positive]
      congr 1
      omega

theorem length_of_mem_blocksOf (member : c ∈ blocksOf size fill l) : c.length = size := by
  induction l using blocksOf.induct size with
  | case1 l none =>
    rw [blocksOf, if_pos none] at member
    cases member
  | case2 l some ih =>
    rw [blocksOf, if_neg some] at member
    rcases List.mem_cons.mp member with rfl | member
    · rw [List.length_append, List.length_take, List.length_replicate]
      omega
    · exact ih member

theorem length_flatten_blocks {cs : List (List α)} (lengths : ∀ c ∈ cs, c.length = size) :
    cs.flatten.length = cs.length * size := by
  induction cs with
  | nil => exact (Nat.zero_mul _).symm
  | cons c cs ih =>
    rw [List.forall_mem_cons] at lengths
    rw [List.flatten_cons, List.length_append, lengths.1, ih lengths.2, List.length_cons, Nat.succ_mul,
      Nat.add_comm]

/-- The list filled up to whole blocks. -/
def filled (size : Nat) (fill : α) (l : List α) : List α :=
  l ++ List.replicate ((size - l.length % size) % size) fill

theorem flatten_blocksOf (positive : 0 < size) : (blocksOf size fill l).flatten = filled size fill l := by
  induction l using blocksOf.induct size with
  | case1 l none =>
    obtain rfl := none.resolve_right positive.ne'
    simp [filled]
  | case2 l some ih =>
    rw [not_or] at some
    have more := List.length_pos_of_ne_nil some.1
    rw [blocksOf_cons positive some.1, List.flatten_cons, ih, filled, filled, List.length_drop]
    by_cases short : l.length ≤ size
    · rw [List.take_of_length_le short, List.drop_eq_nil_of_le short, Nat.sub_eq_zero_of_le short]
      rcases short.lt_or_eq with less | same
      · rw [Nat.zero_mod, Nat.sub_zero, Nat.mod_self, Nat.mod_eq_of_lt less,
          Nat.mod_eq_of_lt (show size - l.length < size by omega)]
        simp
      · simp [same]
    · have full : size - l.length = 0 := by omega
      have wrap : (l.length - size) % size = l.length % size := (Nat.mod_eq_sub_mod (by omega)).symm
      rw [full, List.replicate_zero, List.append_nil, wrap, ← List.append_assoc, List.take_append_drop]

/-! ### Selecting -/

/-- The selected numbers from one on, up to a limit. -/
def selected (select : Nat → Bool) (a limit : Nat) : List Nat :=
  (List.range' a (limit - a)).filter select

theorem mem_selected : b ∈ selected select a limit ↔ a ≤ b ∧ b < limit ∧ select b = true := by
  rw [selected, List.mem_filter, List.mem_range'_1]
  constructor
  · rintro ⟨⟨least, most⟩, chosen⟩
    exact ⟨least, by omega, chosen⟩
  · rintro ⟨least, most, chosen⟩
    exact ⟨⟨least, by omega⟩, chosen⟩

theorem selected_pairwise : (selected select a limit).Pairwise (· < ·) :=
  (List.pairwise_lt_range' 1 Nat.one_pos).filter _

theorem selected_of_le (le : limit ≤ a) : selected select a limit = [] := by
  rw [selected, Nat.sub_eq_zero_of_le le, List.range'_zero, List.filter_nil]

theorem selected_succ (less : a < limit) : selected select a limit =
    if select a then a :: selected select (a + 1) limit else selected select (a + 1) limit := by
  rw [selected, show limit - a = limit - (a + 1) + 1 by omega, List.range'_succ, List.filter_cons, selected]

/-- The first selected number, with none before it. -/
theorem selected_eq_cons (eq : selected select a limit = b :: later) :
    a ≤ b ∧ b < limit ∧ select b = true ∧ (∀ i, a ≤ i → i < b → select i = false) ∧
      later = selected select (b + 1) limit := by
  induction n_def : limit - a generalizing a with
  | zero =>
    rw [selected_of_le (by omega)] at eq
    cases eq
  | succ n ih =>
    rw [selected_succ (by omega)] at eq
    split at eq
    · rename_i here
      cases eq
      exact ⟨le_rfl, by omega, here, fun i least most => absurd most (Nat.not_lt.mpr least), rfl⟩
    · rename_i other
      obtain ⟨least, most, chosen, before, rest⟩ := ih eq (by omega)
      refine ⟨by omega, most, chosen, fun i from_a to_b => ?_, rest⟩
      rcases from_a.eq_or_lt with rfl | past
      · simpa using other
      · exact before i past to_b

theorem selected_eq_nil (eq : selected select a limit = []) : ∀ i, a ≤ i → i < limit → select i = false := by
  intro i least most
  by_contra chosen
  have member : i ∈ selected select a limit := mem_selected.mpr ⟨least, most, by simpa using chosen⟩
  rw [eq] at member
  cases member

/-- A smaller limit leaves the first ones. -/
theorem selected_begins {limit' : Nat} (le : limit ≤ limit') :
    selected select a limit <+: selected select a limit' := by
  unfold selected
  refine List.IsPrefix.filter _ ⟨List.range' (a + (limit - a)) (limit' - a - (limit - a)), ?_⟩
  rw [List.range'_append_1]
  congr 1
  omega

theorem selected_append (first : a ≤ b) (second : b ≤ limit) :
    selected select a limit = selected select a b ++ selected select b limit := by
  rw [selected, selected, selected, ← List.filter_append]
  congr 1
  obtain ⟨m, rfl⟩ := Nat.exists_eq_add_of_le first
  obtain ⟨n, rfl⟩ := Nat.exists_eq_add_of_le second
  rw [Nat.add_sub_cancel_left, Nat.add_sub_cancel_left, List.range'_append_1]
  congr 1
  omega

theorem length_selected_le : (selected select a limit).length ≤ limit - a := by
  rw [selected]
  exact (List.length_filter_le _ _).trans (List.length_range').le

/-- A selected number is where as many are before it. -/
theorem getElem?_selected (first : a ≤ b) (second : b < limit) (chosen : select b = true) :
    (selected select a limit)[(selected select a b).length]? = some b := by
  rw [selected_append first second.le, List.getElem?_append_right le_rfl, Nat.sub_self,
    selected_succ second, if_pos chosen]
  rfl

/-- The number behind some numbers, from one on. -/
def behind (a : Nat) (ns : List Nat) : Nat := (ns.map (· + 1)).getLastD a

theorem behind_cons {ns : List Nat} : behind a (b :: ns) = behind (b + 1) ns := by
  rw [behind, List.map_cons, List.getLastD_cons, behind]

/-- Behind the first selected numbers the others are left. -/
theorem selected_behind {ns : List Nat} (eq : selected select a limit = ns ++ later) :
    selected select (behind a ns) limit = later := by
  induction ns generalizing a with
  | nil => exact eq
  | cons b ns ih =>
    obtain ⟨-, -, -, -, rest⟩ := selected_eq_cons eq
    rw [behind_cons]
    exact ih rest.symm

end FirewallCore.Lib.Blocks
