import FirewallCore.Lib.Chains
import FirewallCore.MtdTool.Rounds
import Mathlib.Data.List.GetD
import Mathlib.Data.List.Perm.Subperm

/-!
What a device has after blocks of an image were written, and what it means that an image is laid out
on the good blocks of a device.
-/

namespace FirewallCore.MtdTool

open FirewallCore.Lib Blocks HashChains

/-! ### Blocks that are erased and written -/

/-- Each block is erased and then written. -/
def Device.fill (d : Device) (pairs : List (Nat × List UInt8)) : List Op :=
  pairs.flatMap fun t => [.erase (t.1 * d.erasesize), .write (t.1 * d.erasesize) t.2]

/-- The contents of a block. -/
def Device.block (d : Device) (i : Nat) : List UInt8 := d.read (i * d.erasesize) d.erasesize

/-- The bytes that something is done to. -/
def Op.Touches (d : Device) : Op → Nat → Prop
  | .erase start, i => start ≤ i ∧ i < start + d.erasesize
  | .write pos bytes, i => pos ≤ i ∧ i < pos + bytes.length

/-- A block of which something is done to a byte. -/
def Op.TouchesBlock (d : Device) (op : Op) (b : Nat) : Prop := ∃ i, op.Touches d i ∧ i / d.erasesize = b

section Contents

variable {d : Device} {b g i k n pos len : Nat} {op : Op} {log : List Op} {c : List UInt8} {cs : List (List UInt8)}
  {gs : List Nat} {t : Nat × List UInt8} {pairs : List (Nat × List UInt8)}

@[simp] theorem erasesize_apply : (d.apply op).erasesize = d.erasesize := by cases op <;> rfl

@[simp] theorem size_apply : (d.apply op).size = d.size := by cases op <;> rfl

@[simp] theorem erasesize_applyAll : (d.applyAll log).erasesize = d.erasesize := by
  induction log generalizing d with
  | nil => rfl
  | cons op log ih => exact ih.trans erasesize_apply

@[simp] theorem size_applyAll : (d.applyAll log).size = d.size := by
  induction log generalizing d with
  | nil => rfl
  | cons op log ih => exact ih.trans size_apply

theorem div_eq_iff : i / d.erasesize = g ↔ g * d.erasesize ≤ i ∧ i < g * d.erasesize + d.erasesize := by
  have positive := d.positive
  rw [Nat.div_eq_iff positive]
  omega

/-- A block that was erased and written has what was written. -/
theorem data_fillOne (length : c.length = d.erasesize) :
    ((d.apply (.erase (g * d.erasesize))).apply (.write (g * d.erasesize) c)).data i =
      if i / d.erasesize = g then c.getD (i % d.erasesize) 0 else d.data i := by
  simp only [Device.apply, length, ← div_eq_iff]
  split
  · rename_i here
    have place : i - g * d.erasesize = i % d.erasesize := by
      rw [← here, Nat.mod_eq_sub, Nat.mul_comm]
    rw [place, show (255 : UInt8) = -1 from rfl, UInt8.neg_one_and]
  · rfl

/-- What a device has when blocks were written, each once. -/
theorem data_fill (distinct : (pairs.map Prod.fst).Nodup) (lengths : ∀ t ∈ pairs, t.2.length = d.erasesize) :
    (d.applyAll (d.fill pairs)).data i =
      ((find (i / d.erasesize) pairs).map (·.getD (i % d.erasesize) 0)).getD (d.data i) := by
  induction pairs generalizing d with
  | nil => rfl
  | cons t pairs ih =>
    rw [List.forall_mem_cons] at lengths
    rw [List.map_cons, List.nodup_cons] at distinct
    have rest : d.applyAll (d.fill (t :: pairs)) =
        ((d.apply (.erase (t.1 * d.erasesize))).apply (.write (t.1 * d.erasesize) t.2)).applyAll
          (((d.apply (.erase (t.1 * d.erasesize))).apply (.write (t.1 * d.erasesize) t.2)).fill pairs) := rfl
    rw [rest, ih distinct.2 (by simpa using lengths.2), data_fillOne lengths.1, find]
    simp only [erasesize_apply]
    by_cases here : i / d.erasesize = t.1
    · rw [if_pos here, if_pos here.symm, here, find_eq_none.mpr distinct.1]
      rfl
    · rw [if_neg here, if_neg (Ne.symm here)]

theorem length_read : (d.read pos len).length = min len (d.size - pos) := by
  rw [Device.read, List.length_map, List.length_range]

theorem block_of_data (inside : b < d.blocks) (length : c.length = d.erasesize)
    (same : ∀ j < d.erasesize, d.data (b * d.erasesize + j) = c.getD j 0) : d.block b = c := by
  have room : min d.erasesize (d.size - b * d.erasesize) = d.erasesize := by
    have le := Nat.mul_le_mul_right d.erasesize inside
    rw [Nat.succ_mul] at le
    unfold Device.size
    omega
  refine List.ext_getElem ?_ fun j left right => ?_
  · rw [Device.block, length_read, room, length]
  · simp only [Device.block, Device.read, List.getElem_map, List.getElem_range]
    rw [same j (length ▸ right), List.getD_eq_getElem _ _ right]

@[simp] theorem blocks_apply : (d.apply op).blocks = d.blocks := by cases op <;> rfl

@[simp] theorem blocks_applyAll : (d.applyAll log).blocks = d.blocks := by
  induction log generalizing d with
  | nil => rfl
  | cons op log ih => exact ih.trans blocks_apply

/-- The blocks that were written. -/
theorem block_fill (distinct : (pairs.map Prod.fst).Nodup) (lengths : ∀ t ∈ pairs, t.2.length = d.erasesize)
    (member : t ∈ pairs) (inside : t.1 < d.blocks) : (d.applyAll (d.fill pairs)).block t.1 = t.2 := by
  refine block_of_data (by simpa using inside) (by simpa using lengths t member) fun j less => ?_
  simp only [erasesize_applyAll] at less ⊢
  have quotient : (t.1 * d.erasesize + j) / d.erasesize = t.1 :=
    div_eq_iff.mpr ⟨Nat.le_add_right _ _, Nat.add_lt_add_left less _⟩
  have remainder : (t.1 * d.erasesize + j) % d.erasesize = j := by
    rw [Nat.mul_comm, Nat.mul_add_mod, Nat.mod_eq_of_lt less]
  rw [data_fill distinct lengths, quotient, remainder, (find_eq_some distinct).mpr member]
  rfl

/-- The blocks that were written, one after another. -/
theorem map_block_fill (distinct : (pairs.map Prod.fst).Nodup)
    (lengths : ∀ t ∈ pairs, t.2.length = d.erasesize) (inside : ∀ t ∈ pairs, t.1 < d.blocks) :
    (pairs.map Prod.fst).map (d.applyAll (d.fill pairs)).block = pairs.map Prod.snd := by
  rw [List.map_map]
  exact List.map_congr_left fun t member => block_fill distinct lengths member (inside t member)

/-! ### What is touched -/

/-- Something done to one whole block touches no other block. -/
theorem touchesBlock_fill (lengths : ∀ t ∈ pairs, t.2.length = d.erasesize) (member : op ∈ d.fill pairs) :
    ∃ t ∈ pairs, op.TouchesBlock d t.1 ∧ ∀ b, op.TouchesBlock d b → b = t.1 := by
  have positive := d.positive
  obtain ⟨t, inside, member⟩ := List.mem_flatMap.mp member
  have range : ∀ i, op.Touches d i ↔ i / d.erasesize = t.1 := by
    intro i
    rw [div_eq_iff]
    simp only [List.mem_cons, List.not_mem_nil, or_false] at member
    rcases member with rfl | rfl
    · exact Iff.rfl
    · rw [Op.Touches, lengths t inside]
  refine ⟨t, inside, ⟨t.1 * d.erasesize, ?_, ?_⟩, fun b touched => ?_⟩
  · exact (range _).mpr (Nat.mul_div_cancel _ positive)
  · exact Nat.mul_div_cancel _ positive
  · obtain ⟨i, touched, rfl⟩ := touched
    exact (range i).mp touched

/-- Blocks are erased before they are written. -/
theorem erased_before {before after : List Op} {bytes : List UInt8}
    (lengths : ∀ t ∈ pairs, t.2.length = d.erasesize)
    (split : d.fill pairs = before ++ .write pos bytes :: after)
    (touched : (Op.write pos bytes).TouchesBlock d b) : .erase (b * d.erasesize) ∈ before := by
  induction pairs generalizing before with
  | nil => exact absurd (congrArg List.length split) (by simp [Device.fill])
  | cons t pairs ih =>
    have shape : d.fill (t :: pairs) =
        .erase (t.1 * d.erasesize) :: .write (t.1 * d.erasesize) t.2 :: d.fill pairs := rfl
    rw [List.forall_mem_cons] at lengths
    rw [shape] at split
    cases before with
    | nil => cases split
    | cons first before =>
      rw [List.cons_append, List.cons.injEq] at split
      obtain ⟨rfl, split⟩ := split
      cases before with
      | nil =>
        cases split
        obtain ⟨i, touched, rfl⟩ := touched
        rw [Op.Touches, lengths.1, ← div_eq_iff] at touched
        rw [touched]
        exact List.mem_cons_self
      | cons second before =>
        rw [List.cons_append, List.cons.injEq] at split
        exact List.mem_cons_of_mem _ (List.mem_cons_of_mem _ (ih lengths.2 split.2))

/-! ### Blocks at a distance -/

/-- On a device that reaches so far, blocks are erased where they are written. -/
theorem ops_eq_fill (seek : k ≤ d.blocks) (takes : ∀ t ∈ pairs, d.Takes k t.1) :
    d.ops k pairs = d.fill (pairs.map fun t => (t.1 + k, t.2)) := by
  unfold Device.ops Device.fill
  rw [List.flatMap_map]
  refine List.flatMap_congr fun t member => ?_
  obtain ⟨-, inside⟩ := takes t member
  rw [Device.seekBlock, if_pos seek] at inside ⊢
  rw [Nat.mod_eq_of_lt (Device.mul_lt (by omega)), Nat.add_comm k]

theorem takes_iff (seek : k ≤ d.blocks) : d.Takes k g ↔ g + k < d.blocks := by
  rw [Device.Takes, Device.seekBlock, if_pos seek, Nat.add_comm k]
  refine ⟨And.right, fun inside => ⟨?_, inside⟩⟩
  rw [Nat.mod_eq_of_lt (Device.mul_lt inside.le), ← Nat.succ_mul]
  exact Nat.mul_le_mul_right _ inside

/-- Increasing numbers with the same members are the same. -/
theorem eq_of_increasing {l l' : List Nat} (increasing : l.Pairwise (· < ·)) (increasing' : l'.Pairwise (· < ·))
    (subset : l ⊆ l') (enough : l'.length ≤ l.length) : l = l' := by
  have distinct : l.Nodup := increasing.imp fun less => less.ne
  have same : l.Perm l' := (List.subperm_of_subset distinct subset).perm_of_length_le enough
  exact same.eq_of_pairwise (fun a b _ _ less more => absurd less (Nat.lt_asymm more)) increasing increasing'

end Contents

/-! ### An image on good blocks -/

/-- The first good blocks from a block on, as many as there are blocks of the image. -/
def Device.target (d : Device) (k n : Nat) : List Nat := (selected d.isGood k d.blocks).take n

/-- The blocks that are taken, counted from the start of the device. -/
def Device.taken (d : Device) (n : Nat) : List Nat := (selected d.isGood 0 d.reach).take n

/-- The number of blocks of an image. -/
def Device.imageBlocks (d : Device) (image : List UInt8) : Nat :=
  (image.length + d.erasesize - 1) / d.erasesize

/-- An image is on the first good blocks from a block on, which were erased before, and nothing else was
done to the device. -/
structure LaidOut (d : Device) (k : Nat) (image : List UInt8) (log : List Op) : Prop where
  reads : (d.target k (d.imageBlocks image)).flatMap (d.applyAll log).block = filled d.erasesize 0xff image
  erasedFirst : ∀ before pos bytes after b, log = before ++ .write pos bytes :: after →
    (Op.write pos bytes).TouchesBlock d b → .erase (b * d.erasesize) ∈ before
  good : ∀ op ∈ log, ∀ b, op.TouchesBlock d b → d.isGood b = true
  inside : ∀ start, .erase start ∈ log → ∀ b, (Op.erase start).TouchesBlock d b →
    b ∈ d.target k (d.imageBlocks image)

end FirewallCore.MtdTool
