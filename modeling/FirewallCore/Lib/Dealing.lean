import Mathlib.Data.Int.ConditionallyCompleteOrder
import Mathlib.Data.Int.Interval
import Mathlib.Data.List.Nodup
import Mathlib.Data.Set.Finite.Basic
import Mathlib.Data.Set.Function
import Mathlib.Order.ConditionallyCompleteLattice.Indexed

/-!
Numbers that are dealt in their order, without those that are taken.
-/

namespace FirewallCore.Lib

open Finset

variable {taken : Finset Int} {current last : Int} {n : Nat}

theorem exists_untaken (taken : Finset Int) (current : Int) : ∃ k : Nat, current + 1 + k ∉ taken := by
  have injective : Function.Injective fun k : Nat => current + 1 + (k : Int) := by
    intro i j same
    simpa using same
  obtain ⟨_, ⟨k, rfl⟩, untaken⟩ := (Set.infinite_range_of_injective injective).exists_notMem_finset taken
  exact ⟨k, untaken⟩

/-- The next number that is not taken. -/
def nextUntaken (taken : Finset Int) (current : Int) : Int :=
  current + 1 + Nat.find (exists_untaken taken current)

theorem nextUntaken_notMem (taken : Finset Int) (current : Int) : nextUntaken taken current ∉ taken :=
  Nat.find_spec (exists_untaken taken current)

theorem lt_nextUntaken (taken : Finset Int) (current : Int) : current < nextUntaken taken current := by
  unfold nextUntaken
  omega

theorem mem_of_lt_nextUntaken {i : Int} (after : current < i) (before : i < nextUntaken taken current) :
    i ∈ taken := by
  unfold nextUntaken at before
  have earlier : (i - current - 1).toNat < Nat.find (exists_untaken taken current) := by omega
  have passed := not_not.mp (Nat.find_min (exists_untaken taken current) earlier)
  rwa [show current + 1 + ((i - current - 1).toNat : Int) = i by omega] at passed

theorem eq_nextUntaken {next : Int} (after : current < next) (untaken : next ∉ taken)
    (between : ∀ i, current < i → i < next → i ∈ taken) : next = nextUntaken taken current := by
  rcases lt_trichotomy next (nextUntaken taken current) with less | same | more
  · exact absurd (mem_of_lt_nextUntaken after less) untaken
  · exact same
  · exact absurd (between _ (lt_nextUntaken _ _) more) (nextUntaken_notMem _ _)

theorem nextUntaken_of_notMem (untaken : current + 1 ∉ taken) :
    nextUntaken taken current = current + 1 :=
  (eq_nextUntaken (Int.lt_succ current) untaken fun i after before => by omega).symm

/-- A taken number is passed over. -/
theorem nextUntaken_succ_of_mem (passed : current + 1 ∈ taken) :
    nextUntaken taken (current + 1) = nextUntaken taken current := by
  apply eq_nextUntaken
  · exact (Int.lt_succ current).trans (lt_nextUntaken _ _)
  · exact nextUntaken_notMem _ _
  · intro i after before
    rcases lt_or_ge (current + 1) i with later | first
    · exact mem_of_lt_nextUntaken later before
    · rwa [show i = current + 1 by omega]

/-- The last of `n` numbers that are dealt behind the current one. -/
def dealt (taken : Finset Int) (current : Int) : Nat → Int
  | 0 => current
  | n + 1 => nextUntaken taken (dealt taken current n)

theorem le_dealt (taken : Finset Int) (current : Int) (n : Nat) : current ≤ dealt taken current n := by
  induction n with
  | zero => exact Int.le_refl _
  | succ n ih => exact ih.trans (lt_nextUntaken _ _).le

/-- Only numbers that are not taken are counted. -/
theorem card_dealt (taken : Finset Int) (current : Int) (n : Nat) :
    (Ioc current (dealt taken current n) \ taken).card = n := by
  induction n with
  | zero => simp [dealt]
  | succ n ih =>
    have low := le_dealt taken current n
    have step : Ioc current (dealt taken current (n + 1)) \ taken =
        insert (dealt taken current (n + 1)) (Ioc current (dealt taken current n) \ taken) := by
      have more : dealt taken current n < dealt taken current (n + 1) := lt_nextUntaken _ _
      ext i
      rw [mem_sdiff, mem_Ioc, mem_insert, mem_sdiff, mem_Ioc]
      constructor
      · rintro ⟨⟨after, atMost⟩, free⟩
        rcases atMost.lt_or_eq with before | last
        · by_cases earlier : i ≤ dealt taken current n
          · exact .inr ⟨⟨after, earlier⟩, free⟩
          · exact absurd (mem_of_lt_nextUntaken (not_le.mp earlier) before) free
        · exact .inl last
      · rintro (rfl | ⟨⟨after, atMost⟩, free⟩)
        · exact ⟨⟨low.trans_lt more, Int.le_refl _⟩, nextUntaken_notMem _ _⟩
        · exact ⟨⟨after, atMost.trans more.le⟩, free⟩
    have new : dealt taken current (n + 1) ∉ Ioc current (dealt taken current n) \ taken := by
      rw [mem_sdiff, mem_Ioc]
      rintro ⟨⟨-, atMost⟩, -⟩
      exact absurd (lt_nextUntaken taken (dealt taken current n)) (not_lt.mpr atMost)
    rw [step, card_insert_of_notMem new, ih]

theorem dealt_eq_or_notMem (taken : Finset Int) (current : Int) (n : Nat) :
    dealt taken current n = current ∨ dealt taken current n ∉ taken := by
  cases n with
  | zero => exact .inl rfl
  | succ n => exact .inr (nextUntaken_notMem _ _)

/-- Of two that count the same, neither is behind the other. -/
theorem card_lt_of_untaken {last' : Int} (low : current ≤ last) (more : last < last')
    (untaken : last' ∉ taken) : (Ioc current last \ taken).card < (Ioc current last' \ taken).card := by
  apply card_lt_card
  rw [ssubset_iff_of_subset]
  · refine ⟨last', ?_, ?_⟩
    · rw [mem_sdiff, mem_Ioc]
      exact ⟨⟨low.trans_lt more, Int.le_refl _⟩, untaken⟩
    · rw [mem_sdiff, mem_Ioc]
      rintro ⟨⟨-, atMost⟩, -⟩
      exact absurd more (not_lt.mpr atMost)
  · exact sdiff_subset_sdiff (Ioc_subset_Ioc_right more.le) (Subset.refl _)

/-- The last number is determined by how many were dealt. -/
theorem eq_dealt (count : (Ioc current last \ taken).card = n) (low : current ≤ last)
    (untaken : last = current ∨ last ∉ taken) : last = dealt taken current n := by
  have count' := card_dealt taken current n
  have low' := le_dealt taken current n
  rcases lt_trichotomy last (dealt taken current n) with less | same | more
  · have free := (dealt_eq_or_notMem taken current n).resolve_left fun none => by omega
    have fewer := card_lt_of_untaken low less free
    omega
  · exact same
  · have free := untaken.resolve_left fun none => by omega
    have fewer := card_lt_of_untaken low' more free
    omega

end FirewallCore.Lib

/-!
A range of numbers with those that are marked behind those that are not.

Both parts keep their order, so the numbers of the range are only permuted, and what is
counted from the start of the range comes to each of them once.
-/

namespace FirewallCore.Lib

/-- `n` numbers from `lo` on. -/
def numbers (lo : Int) (n : Nat) : List Int := (List.range n).map fun i : Nat => lo + i

/-- The numbers of a range that are not marked. -/
def unmarked (mark : Int → Bool) (lo : Int) (n : Nat) : List Int := (numbers lo n).filter (!mark ·)

/-- The numbers of a range that are marked. -/
def marked (mark : Int → Bool) (lo : Int) (n : Nat) : List Int := (numbers lo n).filter mark

/-- No marked number stands before one that is not. -/
def MarkedLast (mark : Int → Bool) (lo : Int) (n : Nat) : Prop :=
  ∀ i j : Nat, i < j → j < n → mark (lo + i) = true → mark (lo + j) = true

section Numbers

variable {mark : Int → Bool} {lo : Int} {n : Nat}

@[simp] theorem numbers_zero (lo : Int) : numbers lo 0 = [] := rfl

theorem numbers_succ (lo : Int) (n : Nat) : numbers lo (n + 1) = lo :: numbers (lo + 1) n := by
  simp only [numbers, List.range_succ_eq_map, List.map_cons, List.map_map]
  congr 1
  · simp
  · apply List.map_congr_left
    intro i _
    simp only [Function.comp, Nat.succ_eq_add_one, Nat.cast_add, Nat.cast_one]
    omega

theorem numbers_concat (lo : Int) (n : Nat) : numbers lo (n + 1) = numbers lo n ++ [lo + n] := by
  simp [numbers, List.range_succ]

@[simp] theorem length_numbers (lo : Int) (n : Nat) : (numbers lo n).length = n := by
  simp [numbers]

theorem mem_numbers {i : Int} : i ∈ numbers lo n ↔ lo ≤ i ∧ i < lo + n := by
  simp only [numbers, List.mem_map, List.mem_range]
  constructor
  · rintro ⟨k, small, rfl⟩
    omega
  · rintro ⟨low, high⟩
    exact ⟨(i - lo).toNat, by omega, by omega⟩

theorem nodup_numbers (lo : Int) (n : Nat) : (numbers lo n).Nodup := by
  apply List.nodup_range.map
  intro i j same
  simpa using same

theorem mem_marked {i : Int} : i ∈ marked mark lo n ↔ (lo ≤ i ∧ i < lo + n) ∧ mark i = true := by
  rw [marked, List.mem_filter, mem_numbers]

theorem mem_unmarked {i : Int} :
    i ∈ unmarked mark lo n ↔ (lo ≤ i ∧ i < lo + n) ∧ mark i = false := by
  rw [unmarked, List.mem_filter, mem_numbers, Bool.not_eq_true']

theorem arranged_perm (mark : Int → Bool) (lo : Int) (n : Nat) :
    (unmarked mark lo n ++ marked mark lo n).Perm (numbers lo n) := by
  have split := List.filter_append_perm (fun i => !mark i) (numbers lo n)
  simp only [Bool.not_not] at split
  exact split

theorem length_arranged (mark : Int → Bool) (lo : Int) (n : Nat) :
    (unmarked mark lo n).length + (marked mark lo n).length = n := by
  rw [← List.length_append, (arranged_perm mark lo n).length_eq, length_numbers]

theorem marked_eq_nil_iff : marked mark lo n = [] ↔ ∀ i, lo ≤ i → i < lo + n → mark i = false := by
  rw [marked, List.filter_eq_nil_iff]
  simp only [mem_numbers, Bool.not_eq_true, and_imp]

/-- A function that follows the arranged list permutes the range. -/
theorem bijOn_arranged {f : Nat → Int}
    (follows : ∀ k < n, (unmarked mark lo n ++ marked mark lo n)[k]? = some (f k)) :
    Set.BijOn f (Set.Iio n) (Set.Ico lo (lo + n)) := by
  have perm := arranged_perm mark lo n
  have nodup := perm.nodup_iff.mpr (nodup_numbers lo n)
  have size : (unmarked mark lo n ++ marked mark lo n).length = n := by
    rw [perm.length_eq, length_numbers]
  refine ⟨?_, ?_, ?_⟩
  · intro k small
    have mem := List.mem_of_getElem? (follows k small)
    exact Set.mem_Ico.mpr (mem_numbers.mp (perm.mem_iff.mp mem))
  · intro i small j small' same
    have first := follows i small
    rw [same, ← follows j small'] at first
    exact (List.getElem?_inj (by rwa [size]) nodup).mp first
  · intro i inside
    have mem := perm.mem_iff.mpr (mem_numbers.mpr (Set.mem_Ico.mp inside))
    obtain ⟨k, small, here⟩ := List.getElem_of_mem mem
    rw [size] at small
    refine ⟨k, small, ?_⟩
    have found := follows k small
    rw [List.getElem?_eq_getElem (by omega), here] at found
    exact (Option.some.inj found).symm

theorem markedLast_concat (last : MarkedLast mark lo (n + 1)) : MarkedLast mark lo n :=
  fun i j before small => last i j before (by omega)

/-- What stands last stays in its place. -/
theorem arranged_of_markedLast (last : MarkedLast mark lo n) :
    unmarked mark lo n ++ marked mark lo n = numbers lo n := by
  induction n with
  | zero => rfl
  | succ n ih =>
    have kept := ih (markedLast_concat last)
    unfold unmarked marked at kept ⊢
    rw [numbers_concat, List.filter_append, List.filter_append]
    cases here : mark (lo + n) with
    | true => simp [here, ← List.append_assoc, kept]
    | false =>
      have none : (numbers lo n).filter mark = [] := by
        rw [List.filter_eq_nil_iff]
        intro i mem marked
        obtain ⟨low, high⟩ := mem_numbers.mp mem
        have later := last (i - lo).toNat n (by omega) (by omega) (by
          rwa [show lo + ((i - lo).toNat : Int) = i by omega])
        rw [here] at later
        cases later
      rw [none, List.append_nil] at kept
      simp [here, none, kept]

end Numbers

end FirewallCore.Lib
