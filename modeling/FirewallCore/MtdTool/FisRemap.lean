import FirewallCore.MtdTool.Fis

/-!
Replacing the old descriptors: the table is moved, the new ones are laid out, and when this is right.
-/

namespace FirewallCore.MtdTool.Fis

open FirewallCore.Lib

/-! ### Moving the table -/

section Moving

variable {m : Machine} {before olds tail front room rest : List (List UInt8)} {n : Nat}

theorem Machine.toSize_of_nonneg {length : Nat} (small : length < 2 ^ 31) : m.toSize length = length := by
  have wide : (2 : Int) ^ 32 ≤ 2 ^ m.sizeBits := mod_cast Nat.pow_le_pow_right (by decide) m.wide
  rw [Machine.toSize, Int.emod_eq_of_lt (Int.natCast_nonneg _) (by omega), Int.toNat_natCast]

/-- A negative length is taken for a large one. -/
theorem Machine.toSize_of_neg {length : Nat} (some : 0 < length) (small : length < 2 ^ 31) :
    2 ^ 32 ≤ m.toSize (-length) + length := by
  have wide : (2 : Int) ^ 32 ≤ 2 ^ m.sizeBits := mod_cast Nat.pow_le_pow_right (by decide) m.wide
  have wraps : (-(length : Int)) % 2 ^ m.sizeBits = 2 ^ m.sizeBits - length := by
    rw [← Int.add_emod_right, Int.emod_eq_of_lt (by omega) (by omega)]
    omega
  rw [Machine.toSize, wraps]
  omega

theorem flatten_length (widths : ∀ x ∈ before ++ olds ++ tail, x.length = descSize) :
    (before ++ olds ++ tail).flatten.length = descSize * (before.length + olds.length + tail.length) := by
  rw [length_slots widths, List.length_append, List.length_append]

/-- For at least as many new partitions as there are old ones, the rest of the table is moved up, and its
end is lost. -/
theorem moveTable_grow (widths : ∀ x ∈ before ++ olds ++ tail, x.length = descSize)
    (small : descSize * (before.length + olds.length + tail.length) < 2 ^ 31) (more : olds.length ≤ n)
    (inside : n ≤ olds.length + tail.length) :
    moveTable m (before ++ olds ++ tail).flatten (before.length + n) (before.length + olds.length) =
      .ok (before ++ (olds ++ tail).take n ++ tail.take (olds.length + tail.length - n)).flatten := by
  have stop := flatten_length widths
  rw [moveTable]
  rcases Nat.lt_or_eq_of_le more with grows | rfl
  · have length : ((before ++ olds ++ tail).flatten.length : Int) - (descSize * (before.length + n) : Nat) =
        (descSize * (olds.length + tail.length - n) : Nat) := by
      rw [stop]
      unfold descSize
      omega
    have short : descSize * (olds.length + tail.length - n) < 2 ^ 31 := by
      unfold descSize at small ⊢
      omega
    have widths' : ∀ {l : List (List UInt8)}, (∀ x ∈ l, x ∈ before ++ olds ++ tail) → ∀ x ∈ l, x.length = descSize :=
      fun sub x member => widths x (sub x member)
    have source : (before ++ olds ++ tail).flatten =
        (before ++ olds).flatten ++ (tail.take (olds.length + tail.length - n)).flatten ++
          (tail.drop (olds.length + tail.length - n)).flatten := by
      rw [← List.flatten_append, ← List.flatten_append, List.append_assoc (before ++ olds), List.take_append_drop]
    have target : (before ++ olds ++ tail).flatten =
        (before ++ (olds ++ tail).take n).flatten ++ ((olds ++ tail).drop n).flatten ++ [] := by
      rw [← List.flatten_append, List.append_nil, List.append_assoc before ((olds ++ tail).take n),
        List.take_append_drop, List.append_assoc]
    have moved : (tail.take (olds.length + tail.length - n)).flatten.length =
        descSize * (olds.length + tail.length - n) := by
      rw [length_slots (widths' fun x member => List.mem_append_right _ (List.mem_of_mem_take member)),
        List.length_take, Nat.min_eq_left (by omega)]
    have from_last : (before ++ olds).flatten.length = descSize * (before.length + olds.length) := by
      rw [length_slots (widths' fun x member => List.mem_append_left _ member), List.length_append]
    have to_desc : (before ++ (olds ++ tail).take n).flatten.length = descSize * (before.length + n) := by
      rw [length_slots, List.length_append, List.length_take, List.length_append, Nat.min_eq_left inside]
      refine widths' fun x member => ?_
      rw [List.append_assoc]
      rcases List.mem_append.mp member with first | later
      · exact List.mem_append_left _ first
      · exact List.mem_append_right _ (List.mem_of_mem_take later)
    have room : ((olds ++ tail).drop n).flatten.length = descSize * (olds.length + tail.length - n) := by
      rw [length_slots, List.length_drop, List.length_append]
      refine widths' fun x member => ?_
      rw [List.append_assoc]
      exact List.mem_append_right _ (List.mem_of_mem_drop member)
    have loaded : (load (before ++ olds ++ tail).flatten (descSize * (before.length + olds.length))
        (descSize * (olds.length + tail.length - n)) : Checked Unit (List UInt8)) =
          .ok (tail.take (olds.length + tail.length - n)).flatten := by
      rw [source]
      exact load_part from_last moved
    have stored : (store (before ++ olds ++ tail).flatten (descSize * (before.length + n))
        (tail.take (olds.length + tail.length - n)).flatten : Checked Unit (List UInt8)) =
          .ok ((before ++ (olds ++ tail).take n).flatten ++ (tail.take (olds.length + tail.length - n)).flatten ++
            []) := by
      rw [target]
      exact store_part to_desc (moved.trans room.symm)
    rw [if_pos (by omega)]
    dsimp only
    rw [if_pos (by omega), length, Machine.toSize_of_nonneg short, memmove, loaded, ok_bind,
      stored, ok_bind, if_neg (by omega), List.append_nil, ← List.flatten_append]
  · rw [if_neg (by omega), List.take_left' rfl, Nat.add_sub_cancel_left, List.take_length]

/-- For fewer new partitions, the fill of the end has a negative length. -/
theorem moveTable_shrink (widths : ∀ x ∈ before ++ olds ++ tail, x.length = descSize)
    (small : descSize * (before.length + olds.length + tail.length) < 2 ^ 31) (fewer : n < olds.length) :
    moveTable m (before ++ olds ++ tail).flatten (before.length + n) (before.length + olds.length) =
      .error .outside := by
  have stop := flatten_length widths
  have length : ((before ++ olds ++ tail).flatten.length : Int) - (descSize * (before.length + olds.length) : Nat) =
      (descSize * tail.length : Nat) := by
    rw [stop]
    unfold descSize
    omega
  have short : descSize * tail.length < 2 ^ 31 := by
    unfold descSize at small ⊢
    omega
  obtain ⟨mem, moved⟩ : ∃ mem, (memmove (before ++ olds ++ tail).flatten (descSize * (before.length + n))
      (descSize * (before.length + olds.length)) (descSize * tail.length) : Checked Unit (List UInt8)) =
        .ok mem := by
    have inside : descSize * (before.length + olds.length) + descSize * tail.length ≤
        (before ++ olds ++ tail).flatten.length := by
      rw [stop]
      unfold descSize
      omega
    have same : (((before ++ olds ++ tail).flatten.drop (descSize * (before.length + olds.length))).take
        (descSize * tail.length)).length = descSize * tail.length := by
      rw [List.length_take, List.length_drop]
      omega
    refine ⟨_, (congrArg (· >>= _) (load_inside inside)).trans (store_inside ?_)⟩
    rw [same, stop]
    unfold descSize
    omega
  have kept : mem.length = descSize * (before.length + olds.length + tail.length) := by
    obtain ⟨bytes, -, stored⟩ := bind_eq_ok_iff.mp moved
    rw [store_length stored, stop]
  rw [moveTable, if_pos (by omega)]
  dsimp only
  rw [if_neg (by omega), length, Machine.toSize_of_nonneg short, moved, ok_bind, if_pos (by omega)]
  refine memset_outside ?_
  have gap : (((before ++ olds ++ tail).flatten.length - (before.length + olds.length - (before.length + n)) *
      descSize : Nat) : Int) - ((before ++ olds ++ tail).flatten.length : Nat) =
        -(descSize * (olds.length - n) : Nat) := by
    rw [stop]
    unfold descSize
    omega
  have large := @Machine.toSize_of_neg m (descSize * (olds.length - n)) (by unfold descSize; omega)
    (by unfold descSize at small ⊢; omega)
  rw [gap, kept, stop]
  unfold descSize at large small ⊢
  omega

end Moving

/-! ### Laying out -/

/-- The descriptors that are written for the new partitions. -/
def newsOf (e : Endian) : List FisPart → Nat → Nat → List (List UInt8)
  | [], _, _ => []
  | part :: parts, offset, size =>
    let partSize := if part.size > 0 then part.size.toNat else size
    descOf e part offset partSize ::
      newsOf e parts ((offset + partSize) % 2 ^ 32) ((size + 2 ^ 32 - partSize) % 2 ^ 32)

/-- Descriptors with the names, load addresses, checksums and sizes of partitions, laid end to end. Only a
partition without a size may get any. -/
inductive Laid (e : Endian) : Nat → List FisPart → List (List UInt8) → Prop where
  | nil {base : Nat} : Laid e base [] []
  | cons {base : Nat} {part : FisPart} {parts : List FisPart} {x : List UInt8} {xs : List (List UInt8)}
      (desc : x = descOf e part base (partSize e x)) (sized : part.size ≠ 0 → partSize e x = part.size.toNat)
      (placed : flashBase e x = base) (later : Laid e (base + partSize e x) parts xs) :
      Laid e base (part :: parts) (x :: xs)

/-- The sum of the sizes that are given. -/
def sizes (parts : List FisPart) : Nat := (parts.map fun part => part.size.toNat).sum

section Laying

variable {e : Endian} {part : FisPart} {parts : List FisPart} {front room rest news : List (List UInt8)}
  {base offset size : Nat}

theorem length_descOf : (descOf e part offset size).length = descSize := by
  simp only [descOf, List.length_append, part.sixteen, length_bytes, List.length_replicate]
  rfl

theorem flashBase_descOf (small : offset < 2 ^ 32) : flashBase e (descOf e part offset size) = offset := by
  simp only [descOf, flashBase, List.append_assoc]
  rw [← List.append_assoc]
  exact numberAt_bytes part.sixteen small

theorem partSize_descOf (small : size < 2 ^ 32) : partSize e (descOf e part offset size) = size := by
  have before : (part.name ++ e.bytes offset ++ e.bytes part.loadaddr.toNat).length = 24 := by
    simp only [List.length_append, part.sixteen, length_bytes]
  have split : descOf e part offset size = part.name ++ e.bytes offset ++ e.bytes part.loadaddr.toNat ++
      e.bytes size ++ (e.bytes part.loadaddr.toNat ++
        e.bytes (if part.length > 0 then part.length.toNat else size) ++ List.replicate 212 0 ++ e.bytes 0 ++
          e.bytes part.crc.toNat) := by
    simp only [descOf, List.append_assoc]
  rw [partSize, split, numberAt_bytes before small]

theorem length_newsOf : (newsOf e parts offset size).length = parts.length := by
  induction parts generalizing offset size with
  | nil => rfl
  | cons part parts ih => exact congrArg (· + 1) ih

theorem widths_newsOf : ∀ x ∈ newsOf e parts offset size, x.length = descSize := by
  induction parts generalizing offset size with
  | nil => exact fun x member => absurd member List.not_mem_nil
  | cons part parts ih => exact List.forall_mem_cons.mpr ⟨length_descOf, ih⟩

/-- The new descriptors replace as many slots. -/
theorem fillTable_eq (widths : ∀ x ∈ front ++ room ++ rest, x.length = descSize)
    (count : room.length = parts.length) :
    fillTable e parts (front ++ room ++ rest).flatten front.length offset size =
      .ok (front ++ newsOf e parts offset size ++ rest).flatten := by
  induction parts generalizing front room offset size with
  | nil =>
    obtain rfl := List.length_eq_zero_iff.mp count
    rfl
  | cons part parts ih =>
    obtain ⟨x, room, rfl⟩ : ∃ x xs, room = x :: xs :=
      List.exists_cons_of_length_pos (by rw [count]; exact Nat.succ_pos _)
    generalize partSize_eq : (if part.size > 0 then part.size.toNat else size) = partSize
    have split : (front ++ x :: room ++ rest).flatten = front.flatten ++ x ++ (room ++ rest).flatten := by
      rw [List.append_assoc, List.flatten_append, List.cons_append, List.flatten_cons, List.append_assoc]
    have before : front.flatten.length = descSize * front.length :=
      length_slots fun y member => widths y (List.mem_append_left _ (List.mem_append_left _ member))
    have width : x.length = descSize :=
      widths x (List.mem_append_left _ (List.mem_append_right _ List.mem_cons_self))
    have stored : (store (front ++ x :: room ++ rest).flatten (descSize * front.length)
        (descOf e part offset partSize) : Checked Unit (List UInt8)) =
          .ok (front ++ [descOf e part offset partSize] ++ room ++ rest).flatten := by
      rw [split, store_part before (length_descOf.trans width.symm)]
      simp only [List.flatten_append, List.flatten_cons, List.flatten_nil, List.append_nil, List.append_assoc]
    have widths' : ∀ y ∈ front ++ [descOf e part offset partSize] ++ room ++ rest, y.length = descSize := by
      intro y member
      simp only [List.mem_append, List.mem_singleton] at member
      rcases member with ((first | rfl) | later) | behind
      · exact widths y (List.mem_append_left _ (List.mem_append_left _ first))
      · exact length_descOf
      · exact widths y (List.mem_append_left _ (List.mem_append_right _ (List.mem_cons_of_mem _ later)))
      · exact widths y (List.mem_append_right _ behind)
    have next : front.length + 1 = (front ++ [descOf e part offset partSize]).length := by
      rw [List.length_append, List.length_singleton]
    rw [fillTable, partSize_eq, stored, ok_bind, next, ih widths' (by simpa using count), newsOf]
    rw [partSize_eq, List.append_assoc front]
    rfl

theorem size_pos (part : FisPart) : part.size ≠ 0 ↔ 0 < part.size.toNat := by
  rw [Ne, ← UInt32.toNat_inj, Nat.pos_iff_ne_zero]
  rfl

theorem sizes_pos (some : parts ≠ []) (sized : ∀ part ∈ parts, part.size ≠ 0) : 0 < sizes parts := by
  obtain ⟨part, parts, rfl⟩ := List.exists_cons_of_ne_nil some
  have first := (size_pos part).mp (sized part List.mem_cons_self)
  rw [sizes, List.map_cons, List.sum_cons]
  omega

/-- Where the sizes that are given fit in 32 bits, the descriptors are laid end to end. -/
theorem laid_newsOf (sized : ∀ part ∈ parts.dropLast, part.size ≠ 0) (small : size < 2 ^ 32)
    (fits : base + sizes parts < 2 ^ 32 ∨ base + sizes parts ≤ 2 ^ 32 ∧ ∀ part ∈ parts, part.size ≠ 0) :
    Laid e base parts (newsOf e parts base size) := by
  induction parts generalizing base size with
  | nil => exact .nil
  | cons part parts ih =>
    have total : sizes (part :: parts) = part.size.toNat + sizes parts := by
      rw [sizes, List.map_cons, List.sum_cons, sizes]
    have given := size_pos part
    have low : base < 2 ^ 32 := by
      rcases fits with less | ⟨le, all⟩
      · omega
      · have := sizes_pos (List.cons_ne_nil _ _) all
        omega
    have own : (if part.size > 0 then part.size.toNat else size) < 2 ^ 32 := by
      split
      · exact part.size.toNat_lt
      · exact small
    rw [newsOf]
    refine .cons ?_ ?_ (flashBase_descOf low) ?_
    · rw [partSize_descOf own]
    · intro some
      rw [partSize_descOf own, if_pos (UInt32.pos_iff_ne_zero.mpr some)]
    · rw [partSize_descOf own]
      by_cases last : parts = []
      · subst last
        exact .nil
      · have some : part.size ≠ 0 := by
          refine sized part ?_
          rw [List.dropLast_cons_of_ne_nil last]
          exact List.mem_cons_self
        have sized' : ∀ part ∈ parts.dropLast, part.size ≠ 0 := by
          intro part member
          refine sized part ?_
          rw [List.dropLast_cons_of_ne_nil last]
          exact List.mem_cons_of_mem _ member
        rw [if_pos (UInt32.pos_iff_ne_zero.mpr some)]
        have next : base + part.size.toNat < 2 ^ 32 := by
          rcases fits with less | ⟨le, all⟩
          · omega
          · have := sizes_pos last fun part member => all part (List.mem_cons_of_mem _ member)
            omega
        rw [Nat.mod_eq_of_lt next]
        refine ih sized' (Nat.mod_lt _ (by decide)) ?_
        rcases fits with less | ⟨le, all⟩
        · left
          omega
        · exact .inr ⟨by omega, fun part member => all part (List.mem_cons_of_mem _ member)⟩

theorem sum_newsOf_sized (sized : ∀ part ∈ parts, part.size ≠ 0) :
    ((newsOf e parts offset size).map (partSize e)).sum = sizes parts := by
  induction parts generalizing offset size with
  | nil => rfl
  | cons part parts ih =>
    rw [List.forall_mem_cons] at sized
    rw [newsOf]
    rw [if_pos (UInt32.pos_iff_ne_zero.mpr sized.1), List.map_cons, List.sum_cons,
      partSize_descOf part.size.toNat_lt, ih sized.2, sizes, sizes, List.map_cons, List.sum_cons]

/-- A partition without a size gets what is left, modulo `2 ^ 32`. -/
theorem sum_newsOf_automatic (sized : ∀ part ∈ parts.dropLast, part.size ≠ 0)
    (automatic : ∃ part ∈ parts.getLast?, part.size = 0) (small : size < 2 ^ 32) :
    ∃ left < 2 ^ 32, ((newsOf e parts offset size).map (partSize e)).sum = sizes parts + left ∧
      (sizes parts + left) % 2 ^ 32 = size := by
  induction parts generalizing offset size with
  | nil =>
    obtain ⟨part, last, -⟩ := automatic
    cases last
  | cons part parts ih =>
    have total : sizes (part :: parts) = part.size.toNat + sizes parts := by
      rw [sizes, List.map_cons, List.sum_cons, sizes]
    rw [newsOf]
    by_cases last : parts = []
    · subst last
      obtain ⟨part', same, zero⟩ := automatic
      obtain rfl : part = part' := by simpa using same
      have none : sizes [part] = 0 := by
        rw [total, zero]
        rfl
      refine ⟨size, small, ?_, ?_⟩
      · rw [if_neg (by rw [zero]; decide), none, newsOf, List.map_cons, List.map_nil, List.sum_cons,
          List.sum_nil, partSize_descOf small]
        omega
      · rw [none, Nat.zero_add, Nat.mod_eq_of_lt small]
    · have some : part.size ≠ 0 := by
        refine sized part ?_
        rw [List.dropLast_cons_of_ne_nil last]
        exact List.mem_cons_self
      have sized' : ∀ part ∈ parts.dropLast, part.size ≠ 0 := by
        intro part member
        refine sized part ?_
        rw [List.dropLast_cons_of_ne_nil last]
        exact List.mem_cons_of_mem _ member
      obtain ⟨y, ys, rfl⟩ := List.exists_cons_of_ne_nil last
      rw [List.getLast?_cons_cons] at automatic
      have own := part.size.toNat_lt
      rw [if_pos (UInt32.pos_iff_ne_zero.mpr some)]
      obtain ⟨left, less, sum, rest⟩ := @ih ((offset + part.size.toNat) % 2 ^ 32)
        ((size + 2 ^ 32 - part.size.toNat) % 2 ^ 32) sized' automatic (Nat.mod_lt _ (by decide))
      refine ⟨left, less, ?_, ?_⟩
      · rw [List.map_cons, List.sum_cons, partSize_descOf own, sum, total]
        omega
      · rw [total]
        omega

end Laying

end FirewallCore.MtdTool.Fis
