import FirewallCore.Mtd.BmtV2

/-!
No two logical blocks are mapped to the same physical block, nor any to the one
with the tables.

Three kinds of physical blocks must not meet: the good blocks that the scan
gives to the data in their order, the blocks of the pool that replace others,
and the blocks outside of the remap ranges, which stand for themselves.
-/

namespace FirewallCore.Mtd.BmtV2

open FirewallCore.Lib

/-- A block that the scan takes for a good one. The first block is not looked at. -/
def Chip.Good (c : Chip) (block : Nat) : Prop := block = 0 ∨ c.bad block = false

instance (c : Chip) : DecidablePred c.Good := fun _ => inferInstanceAs (Decidable (_ ∨ _))

/-! ### The scan -/

section Scan

variable {c : Chip} {skips block found prev n fuel : Nat}

theorem findValidBlock_spec (result : findValidBlock c skips block = found) (some : found ≠ 0) :
    block ≤ found ∧ found < c.totalBlks ∧ c.bad found = false ∧ ∀ k, block ≤ k → k < found → c.bad k = true := by
  induction skips generalizing block with
  | zero =>
    rw [findValidBlock] at result
    split at result
    · exact absurd result.symm some
    · split at result
      · exact absurd result.symm some
      · rename_i inside good
        subst result
        exact ⟨Nat.le_refl _, by omega, by simpa using good, fun k low high => by omega⟩
  | succ skips ih =>
    rw [findValidBlock] at result
    split at result
    · exact absurd result.symm some
    · split at result
      · rename_i bad
        obtain ⟨low, high, good, between⟩ := ih result
        refine ⟨by omega, high, good, ?_⟩
        intro k atLeast below
        rcases Nat.eq_or_lt_of_le atLeast with rfl | more
        · exact bad
        · exact between k more below
      · rename_i inside good
        subst result
        exact ⟨Nat.le_refl _, by omega, by simpa using good, fun k low high => by omega⟩

/-- The next good block has one more good block before it. -/
theorem count_next (good : c.Good prev) (more : prev < block)
    (between : ∀ k, prev < k → k < block → c.bad k = true) :
    Nat.count c.Good block = Nat.count c.Good prev + 1 := by
  induction block, more using Nat.le_induction with
  | base => rw [Nat.count_succ, if_pos good]
  | succ block more ih =>
    have notGood : ¬c.Good block := by
      rintro (rfl | good)
      · omega
      · rw [between block (by omega) (by omega)] at good
        cases good
    rw [Nat.count_succ, if_neg notGood, ih fun k low high => between k low (by omega)]

/-- The entries that the scan makes for the data: each is a good block, with as many good blocks before it as
there are entries. -/
theorem scanData_spec {blocks : List Nat} (scanned : scanData c n prev = some blocks) (good : c.Good prev) :
    blocks.length = n ∧ ∀ (i b : Nat), (prev :: blocks)[i]? = some b →
      c.Good b ∧ Nat.count c.Good b = Nat.count c.Good prev + i := by
  induction n generalizing prev blocks with
  | zero =>
    cases scanned
    refine ⟨rfl, ?_⟩
    intro i b entry
    cases i with
    | zero =>
      cases entry
      exact ⟨good, rfl⟩
    | succ i => cases entry
  | succ n ih =>
    rw [scanData] at scanned
    split at scanned
    · cases scanned
    · rename_i result notZero
      obtain ⟨later, rest, rfl⟩ := Option.map_eq_some_iff.mp scanned
      obtain ⟨low, -, notBad, between⟩ := findValidBlock_spec rfl notZero
      obtain ⟨length, entries⟩ := ih rest (.inr notBad)
      refine ⟨by rw [List.length_cons, length], ?_⟩
      intro i b entry
      cases i with
      | zero =>
        cases entry
        exact ⟨good, rfl⟩
      | succ i =>
        obtain ⟨goodB, count⟩ := entries i b entry
        refine ⟨goodB, ?_⟩
        rw [count, count_next good (by omega) fun k low' high => between k (by omega) high]
        omega

theorem scanPool_spec : (scanPool c fuel block).Pairwise (· < ·) ∧
    ∀ b ∈ scanPool c fuel block, block ≤ b ∧ b ≠ 0 := by
  induction fuel generalizing block with
  | zero => exact ⟨List.Pairwise.nil, by simp [scanPool]⟩
  | succ fuel ih =>
    rw [scanPool]
    split
    · exact ⟨List.Pairwise.nil, by simp⟩
    · rename_i result notZero
      obtain ⟨low, -⟩ := findValidBlock_spec rfl notZero
      obtain ⟨sorted, behind⟩ := @ih (findValidBlock c c.bbMax block + 1)
      constructor
      · refine List.pairwise_cons.mpr ⟨?_, sorted⟩
        intro b member
        exact (behind b member).1
      · intro b member
        rcases List.mem_cons.mp member with rfl | later
        · exact ⟨low, notZero⟩
        · exact ⟨by have := (behind b later).1; omega, (behind b later).2⟩

end Scan

/-! ### Uploads -/

section Uploads

variable {attempt : Nat → Attempt} {bbt bbt' : Bbbt} {flash flash' : Flash} {n m k : Nat}

/-- The tables after an upload that ended at an entry: entries that are in use are as they were, others may
have been given up. -/
structure Uploaded (n : Nat) (bbt bbt' : Bbbt) (m : Nat) : Prop where
  data : bbt'.bbTbl = bbt.bbTbl
  entries : ∀ k : Nat, bbt'.bmtTbl[k]? = bbt.bmtTbl[k]? ∨ ∃ entry : Bbmt, bbt.bmtTbl[k]? = some entry ∧
    entry.mapped ≠ .normalMapped ∧ bbt'.bmtTbl[k]? = some { entry with block := 0 }
  kept : ∀ k : Nat, (m = 0xffff ∨ m < k) ∧ k < n ∨ bbt'.bmtTbl[k]? = bbt.bmtTbl[k]?
  ends : m = 0xffff ∨ m < n ∧ ∃ entry : Bbmt, bbt.bmtTbl[m]? = some entry ∧ entry.mapped ≠ .normalMapped

theorem Uploaded.refl (ends : m = 0xffff ∨ m < n ∧ ∃ entry : Bbmt, bbt.bmtTbl[m]? = some entry ∧
    entry.mapped ≠ .normalMapped) : Uploaded n bbt bbt m :=
  ⟨rfl, fun _ => .inl rfl, fun _ => .inr rfl, ends⟩

theorem giveUp_entry {entry : Bbmt} (found : bbt.bmtTbl[n]? = some entry) (k : Nat) :
    (bbt.giveUp n entry).bmtTbl[k]? = if k = n then some { entry with block := 0 } else bbt.bmtTbl[k]? := by
  have bound := (List.getElem?_eq_some_iff.mp found).1
  rw [Bbbt.giveUp, List.getElem?_set]
  by_cases same : n = k
  · subst same
    simp [bound]
  · rw [if_neg same, if_neg (Ne.symm same)]

/-- The entry that was tried last is given up before the others are tried. -/
theorem Uploaded.giveUp {entry : Bbmt} (found : bbt.bmtTbl[n]? = some entry)
    (free : entry.mapped ≠ .normalMapped) (later : Uploaded n (bbt.giveUp n entry) bbt' m) :
    Uploaded (n + 1) bbt bbt' m where
  data := later.data
  entries := by
    intro k
    have entries := later.entries k
    rw [giveUp_entry found] at entries
    by_cases same : k = n
    · subst same
      simp only [if_pos] at entries
      refine .inr ⟨entry, found, free, ?_⟩
      rcases entries with kept | ⟨given, gave, -, again⟩
      · exact kept
      · cases gave
        exact again
    · rwa [if_neg same] at entries
  kept := by
    intro k
    have kept := later.kept k
    rw [giveUp_entry found] at kept
    have ends := later.ends
    by_cases same : k = n
    · subst same
      refine .inl ⟨?_, by omega⟩
      omega
    · rw [if_neg same] at kept
      rcases kept with ⟨last, below⟩ | kept
      · exact .inl ⟨last, by omega⟩
      · exact .inr kept
  ends := by
    rcases later.ends with failed | ⟨below, last, foundLast, freeLast⟩
    · exact .inl failed
    · rw [giveUp_entry found, if_neg (by omega)] at foundLast
      exact .inr ⟨by omega, last, foundLast, freeLast⟩

theorem uploadBmt_spec (done : uploadBmt attempt n bbt flash = some (bbt', flash', m)) : Uploaded n bbt bbt' m := by
  induction n generalizing bbt flash with
  | zero =>
    cases done
    exact .refl (.inl rfl)
  | succ n ih =>
    rw [uploadBmt] at done
    split at done
    · cases done
    · rename_i entry found
      split at done
      · cases done
        exact .refl (.inl rfl)
      · rename_i free
        split at done
        · exact .giveUp found free (ih done)
        · split at done
          · exact .giveUp found free (ih done)
          · cases done
            exact .refl (.inr ⟨by omega, entry, found, free⟩)

end Uploads

/-! ### The invariant -/

section Invariant

variable {c : Chip} {poolPba : Nat} {bbt bbt' : Bbbt} {s s' : State} {n m i block : Nat}

/-- The pool: blocks behind the data, each listed once. A block that was given up is listed as 0. -/
structure PoolInv (poolPba : Nat) (pool : List Bbmt) : Prop where
  behind : ∀ (k : Nat) (entry : Bbmt), pool[k]? = some entry → entry.block = 0 ∨ poolPba ≤ entry.block
  once : ∀ (k k' : Nat) (entry entry' : Bbmt), pool[k]? = some entry → pool[k']? = some entry' → entry.block ≠ 0 →
    entry.block = entry'.block → k = k'

/-- The tables: a block of the data is in front of the pool or one of the pool that is in use. -/
structure Inv (c : Chip) (poolPba : Nat) (bbt : Bbbt) : Prop where
  pool : PoolInv poolPba bbt.bmtTbl
  lba : c.pmtBlock < c.poolLba ∧ c.poolLba ≤ poolPba
  length : c.poolLba ≤ bbt.bbTbl.length
  places : ∀ i < c.pmtBlock, getMappingBlockIndex c bbt i < poolPba ∨
    ∃ k : Nat, bbt.bmtTbl[k]? = some ⟨getMappingBlockIndex c bbt i, .normalMapped⟩
  injective : ∀ i < c.pmtBlock, ∀ j < c.pmtBlock,
    getMappingBlockIndex c bbt i = getMappingBlockIndex c bbt j → i = j

/-- The entry of the tables, which have been written, and those before it have not been given up. -/
structure Written (bbt : Bbbt) (idx : Nat) : Prop where
  blocks : ∀ k ≤ idx, ∃ entry : Bbmt, bbt.bmtTbl[k]? = some entry ∧ entry.block ≠ 0
  free : ∀ entry : Bbmt, bbt.bmtTbl[idx]? = some entry → entry.mapped ≠ .normalMapped

/-- Distinct logical blocks have distinct physical ones, none of which holds the tables. -/
def Separate (c : Chip) (s : State) : Prop :=
  (∀ i < c.pmtBlock, ∀ j < c.pmtBlock,
    getMappingBlockIndex c s.bbt i = getMappingBlockIndex c s.bbt j → i = j) ∧
  (s.bmtBlkIdx ≠ 0xffff → ∀ i < c.pmtBlock, ∀ entry : Bbmt, s.bbt.bmtTbl[s.bmtBlkIdx]? = some entry →
    getMappingBlockIndex c s.bbt i ≠ entry.block)

theorem Inv.separate (inv : Inv c poolPba s.bbt) (written : s.bmtBlkIdx ≠ 0xffff → Written s.bbt s.bmtBlkIdx) :
    Separate c s := by
  refine ⟨inv.injective, ?_⟩
  intro stored i bound entry found same
  have written := written stored
  obtain ⟨entry', found', notGivenUp⟩ := written.blocks _ (Nat.le_refl _)
  obtain rfl : entry' = entry := Option.some.inj (found'.symm.trans found)
  rcases inv.places i bound with front | ⟨k, used⟩
  · rcases inv.pool.behind _ _ found with gone | behind
    · exact notGivenUp gone
    · omega
  · have atIdx : s.bmtBlkIdx = k := inv.pool.once _ _ _ _ found used notGivenUp same.symm
    subst atIdx
    exact written.free _ used rfl

theorem getMappingBlockIndex_congr (same : bbt'.bbTbl = bbt.bbTbl) :
    getMappingBlockIndex c bbt' i = getMappingBlockIndex c bbt i := by
  rw [getMappingBlockIndex, getMappingBlockIndex, same]

theorem PoolInv.of_entries {pool pool' : List Bbmt} (inv : PoolInv poolPba pool)
    (entries : ∀ (k : Nat) (entry' : Bbmt), pool'[k]? = some entry' → ∃ entry : Bbmt, pool[k]? = some entry ∧
      (entry'.block = entry.block ∨ entry'.block = 0)) : PoolInv poolPba pool' where
  behind := by
    intro k entry' found
    obtain ⟨entry, old, same | gone⟩ := entries k entry' found
    · rw [same]
      exact inv.behind k entry old
    · exact .inl gone
  once := by
    intro k k' entry entry' found found' notZero same
    obtain ⟨old, foundOld, sameOld | gone⟩ := entries k entry found
    · obtain ⟨old', foundOld', sameOld' | gone'⟩ := entries k' entry' found'
      · exact inv.once k k' old old' foundOld foundOld' (sameOld ▸ notZero) (by rw [← sameOld, ← sameOld', same])
      · exact absurd (same.trans gone') notZero
    · exact absurd gone notZero

theorem Inv.uploaded (inv : Inv c poolPba bbt) (up : Uploaded n bbt bbt' m) : Inv c poolPba bbt' where
  pool := by
    refine inv.pool.of_entries fun k entry' found => ?_
    rcases up.entries k with same | ⟨entry, old, -, gaveUp⟩
    · exact ⟨entry', same ▸ found, .inl rfl⟩
    · rw [gaveUp] at found
      cases found
      exact ⟨entry, old, .inr rfl⟩
  lba := inv.lba
  length := by
    rw [up.data]
    exact inv.length
  places := by
    intro i bound
    rw [getMappingBlockIndex_congr up.data]
    refine (inv.places i bound).imp id ?_
    rintro ⟨k, used⟩
    refine ⟨k, ?_⟩
    rcases up.entries k with same | ⟨entry, old, free, -⟩
    · rw [same]
      exact used
    · rw [used] at old
      cases old
      exact absurd rfl free
  injective := by
    intro i boundI j boundJ
    rw [getMappingBlockIndex_congr up.data, getMappingBlockIndex_congr up.data]
    exact inv.injective i boundI j boundJ

theorem Written.uploaded (written : ∀ k < n, ∃ entry : Bbmt, bbt.bmtTbl[k]? = some entry ∧ entry.block ≠ 0)
    (up : Uploaded n bbt bbt' m) (stored : m ≠ 0xffff) : Written bbt' m := by
  obtain ⟨below, last, found, free⟩ := up.ends.resolve_left stored
  have same : ∀ k ≤ m, bbt'.bmtTbl[k]? = bbt.bmtTbl[k]? := fun k atMost =>
    (up.kept k).resolve_left (by omega)
  constructor
  · intro k atMost
    rw [same k atMost]
    exact written k (by omega)
  · intro entry found'
    rw [same m (Nat.le_refl m), found] at found'
    cases found'
    exact free

end Invariant

/-! ### Steps -/

section Steps

variable {c : Chip} {poolPba : Nat} {bbt : Bbbt} {s s' : State} {i block place k : Nat} {pool : List Bbmt}
  {answer : Bool}

theorem getMappingBlockIndex_set (bound : block < bbt.bbTbl.length) :
    getMappingBlockIndex c ⟨bbt.bbTbl.set block place, pool⟩ i =
      if i = block ∧ i < c.poolLba ∧ c.inRange i = true then place else getMappingBlockIndex c bbt i := by
  unfold getMappingBlockIndex
  by_cases outside : i ≥ c.poolLba
  · rw [if_pos outside, if_pos outside, if_neg (by omega)]
  · rw [if_neg outside, if_neg outside]
    by_cases ranged : c.inRange i = true
    · simp only [ranged, Bool.not_true, Bool.false_eq_true, if_false, and_true]
      by_cases same : i = block
      · subst same
        rw [if_pos ⟨rfl, by omega⟩]
        simp [bound]
      · rw [if_neg fun both => same both.1]
        simp [List.getElem?_set_ne (Ne.symm same)]
    · simp [ranged]

/-- A block gets a place that no other block has. -/
theorem Inv.set (inv : Inv c poolPba bbt) (bound : block < bbt.bbTbl.length) (poolInv : PoolInv poolPba pool)
    (used : ∀ (k : Nat) (b : Nat), bbt.bmtTbl[k]? = some ⟨b, .normalMapped⟩ → pool[k]? = some ⟨b, .normalMapped⟩)
    (placed : block < c.pmtBlock → place < poolPba ∨ ∃ k : Nat, pool[k]? = some ⟨place, .normalMapped⟩)
    (alone : block < c.pmtBlock → ∀ i < c.pmtBlock, i ≠ block → getMappingBlockIndex c bbt i ≠ place) :
    Inv c poolPba ⟨bbt.bbTbl.set block place, pool⟩ where
  pool := poolInv
  lba := inv.lba
  length := by
    rw [List.length_set]
    exact inv.length
  places := by
    intro i bound'
    rw [getMappingBlockIndex_set bound]
    split
    · rename_i own
      exact placed (own.1 ▸ bound')
    · exact (inv.places i bound').imp id fun ⟨k, old⟩ => ⟨k, used k _ old⟩
  injective := by
    intro i boundI j boundJ
    rw [getMappingBlockIndex_set bound, getMappingBlockIndex_set bound]
    split
    · rename_i first
      split
      · rename_i second
        exact fun _ => first.1.trans second.1.symm
      · intro same
        by_cases equal : j = block
        · exact first.1.trans equal.symm
        · exact absurd same.symm (alone (first.1 ▸ boundI) j boundJ equal)
    · split
      · rename_i second
        intro same
        by_cases equal : i = block
        · exact equal.trans second.1.symm
        · exact absurd same (alone (second.1 ▸ boundJ) i boundI equal)
      · exact inv.injective i boundI j boundJ

/-- Both parts of what a run keeps. -/
structure Safe (c : Chip) (poolPba : Nat) (s : State) : Prop where
  inv : Inv c poolPba s.bbt
  written : s.bmtBlkIdx ≠ 0xffff → Written s.bbt s.bmtBlkIdx

theorem freeEntry_some {pool : List Bbmt} (found : freeEntry (pool.take i) = some k) :
    k < i ∧ ∃ entry : Bbmt, pool[k]? = some entry ∧ entry.block ≠ 0 ∧ entry.mapped = .noMapped := by
  rw [freeEntry, List.findIdx?_eq_some_iff_getElem] at found
  obtain ⟨bound, holds, -⟩ := found
  rw [List.length_take] at bound
  refine ⟨by omega, pool[k], List.getElem?_eq_getElem (by omega), ?_⟩
  simpa using holds

/-- The pool after an entry is used. -/
theorem getElem?_use {pool : List Bbmt} {k : Nat} {entry : Bbmt} (found : pool[k]? = some entry)
    (k' : Nat) :
    (pool.set k { entry with mapped := .normalMapped })[k']? =
      if k' = k then some { entry with mapped := .normalMapped } else pool[k']? := by
  have inside := (List.getElem?_eq_some_iff.mp found).1
  rw [List.getElem?_set]
  by_cases same : k = k'
  · subst same
    simp [inside]
  · rw [if_neg same, if_neg (Ne.symm same)]

theorem Safe.remapBlock {attempt : Nat → Attempt} {copied : Contents} (safe : Safe c poolPba s)
    (stored : s.bmtBlkIdx ≠ 0xffff) (taken : remapBlock attempt copied s block = some (s', answer)) :
    Safe c poolPba s' := by
  unfold BmtV2.remapBlock at taken
  split at taken
  · split at taken
    · cases taken
      exact safe
    · cases taken
  · rename_i k free
    obtain ⟨below, entry, found, notZero, unused⟩ := freeEntry_some free
    rw [found] at taken
    simp only at taken
    split at taken
    · rename_i bound
      obtain ⟨⟨bbt', flash', m⟩, up, done⟩ := Option.bind_eq_some_iff.mp taken
      cases done
      have uploaded := uploadBmt_spec up
      have written := safe.written stored
      have marked := getElem?_use found
      have inv : Inv c poolPba ⟨s.bbt.bbTbl.set block entry.block,
          s.bbt.bmtTbl.set k { entry with mapped := .normalMapped }⟩ := by
        refine safe.inv.set bound ?_ ?_ ?_ ?_
        · refine safe.inv.pool.of_entries fun k' entry' found' => ?_
          rw [marked] at found'
          split at found'
          · rename_i same
            subst same
            cases found'
            exact ⟨entry, found, .inl rfl⟩
          · exact ⟨entry', found', .inl rfl⟩
        · intro k' b used
          rw [marked, if_neg ?_]
          · exact used
          · rintro rfl
            rw [found] at used
            cases used
            cases unused
        · refine fun _ => .inr ⟨k, ?_⟩
          rw [marked, if_pos rfl]
        · intro _ i boundI _ same
          rcases safe.inv.places i boundI with front | ⟨k', used⟩
          · rcases safe.inv.pool.behind k entry found with gone | behind
            · exact notZero gone
            · omega
          · have equal := safe.inv.pool.once _ _ _ _ found used notZero same.symm
            subst equal
            rw [found] at used
            cases used
            cases unused
      refine ⟨inv.uploaded uploaded, Written.uploaded ?_ uploaded⟩
      intro k' atMost
      rw [marked]
      split
      · exact ⟨_, rfl, notZero⟩
      · exact written.blocks k' (by omega)
    · cases taken

theorem Safe.unmapBlock {attempt : Nat → Attempt} (safe : Safe c poolPba s) (stored : s.bmtBlkIdx ≠ 0xffff)
    (alone : block < c.pmtBlock → ∀ i < c.pmtBlock, i ≠ block → getMappingBlockIndex c s.bbt i ≠ block)
    (taken : unmapBlock attempt s block = some (s', answer)) : Safe c poolPba s' := by
  unfold BmtV2.unmapBlock at taken
  split at taken
  · rename_i bound
    obtain ⟨⟨bbt', flash', m⟩, up, done⟩ := Option.bind_eq_some_iff.mp taken
    cases done
    have uploaded := uploadBmt_spec up
    have front : block < c.pmtBlock → block < poolPba := by
      have := safe.inv.lba
      omega
    have inv : Inv c poolPba ⟨s.bbt.bbTbl.set block block, s.bbt.bmtTbl⟩ :=
      safe.inv.set bound safe.inv.pool (fun _ _ used => used) (fun inside => .inl (front inside)) alone
    refine ⟨inv.uploaded uploaded, Written.uploaded ?_ uploaded⟩
    intro k below
    exact (safe.written stored).blocks k (by omega)
  · cases taken

/-- What each call needs: the last upload has not failed, and a block that is to stand for itself is not the
place of another one. -/
def Allowed (c : Chip) (s : State) : Op → Prop
  | .remap block _ _ => block < c.poolLba ∧ s.bmtBlkIdx ≠ 0xffff
  | .unmap block _ => s.bmtBlkIdx ≠ 0xffff ∧
      (block < c.pmtBlock → ∀ i < c.pmtBlock, i ≠ block → getMappingBlockIndex c s.bbt i ≠ block)

theorem Safe.step {op : Op} (safe : Safe c poolPba s) (allowed : Allowed c s op)
    (taken : step c s op = some (s', answer)) : Safe c poolPba s' := by
  cases op with
  | remap block attempt copied =>
    unfold BmtV2.step mtkBmtRemapBlock at taken
    simp only at taken
    split at taken
    · exact safe.remapBlock allowed.2 taken
    · cases taken
      exact safe
  | unmap block attempt => exact safe.unmapBlock allowed.1 allowed.2 taken

end Steps

/-! ### The start -/

section Start

variable {c : Chip} {poolPba : Nat} {bbt : Bbbt} {s s' : State} {attempt : Nat → Attempt} {flash : Flash}
  {idx : Nat}

/-- A chip with room for the pool. -/
def Chip.Fits (c : Chip) : Prop := c.bmtPoolSize + 2 ≤ c.totalBlks ∧ c.totalBlks < 2 ^ 16

/-- A good block outside of the remap ranges is left to itself: the logical block that has as many good blocks
before it is outside of the ranges too. -/
def Chip.RangesKept (c : Chip) : Prop :=
  ∀ j < c.pmtBlock, c.inRange j = false → c.Good j → c.inRange (Nat.count c.Good j) = false

theorem Chip.Fits.lba (fits : c.Fits) : c.poolLba = c.pmtBlock + 2 := by
  obtain ⟨room, small⟩ := fits
  have pmt : c.pmtBlock = c.totalBlks - c.bmtPoolSize - 2 := by
    unfold Chip.pmtBlock
    omega
  unfold Chip.poolLba
  omega

theorem map_newPool (blocks : List Nat) : (newPool blocks).map (·.block) = blocks := by
  cases blocks using List.reverseRecOn with
  | nil => rfl
  | append_singleton blocks last => simp [newPool, Function.comp_def]

theorem newPool_free {blocks : List Nat} {entry : Bbmt} (member : entry ∈ newPool blocks) :
    entry.mapped ≠ .normalMapped := by
  rcases List.mem_append.mp member with front | last
  · obtain ⟨_, -, rfl⟩ := List.mem_map.mp front
    simp
  · obtain ⟨_, -, rfl⟩ := List.mem_map.mp last
    simp

/-- The entries of a new pool: its blocks, and then zeros. -/
theorem newPool_entry {blocks : List Nat} {zeros k : Nat} {entry : Bbmt}
    (found : (newPool blocks ++ List.replicate zeros ⟨0, .noMapped⟩)[k]? = some entry) :
    entry.mapped ≠ .normalMapped ∧ (blocks[k]? = some entry.block ∨ entry.block = 0) := by
  rw [List.getElem?_append] at found
  split at found
  · have block : (blocks[k]? : Option Nat) = some entry.block := by
      rw [← map_newPool blocks, List.getElem?_map, found]
      rfl
    exact ⟨newPool_free (List.mem_of_getElem? found), .inl block⟩
  · rw [List.getElem?_replicate] at found
    split at found
    · cases found
      exact ⟨by simp, .inr rfl⟩
    · cases found

/-- The blocks of a new pool are not 0. -/
theorem newPool_blocks {blocks : List Nat} {zeros k : Nat} (given : ∀ b ∈ blocks, b ≠ 0)
    (inside : k < blocks.length) : ∃ entry : Bbmt,
      (newPool blocks ++ List.replicate zeros ⟨0, .noMapped⟩)[k]? = some entry ∧ entry.block ≠ 0 := by
  have length : (newPool blocks).length = blocks.length := by
    rw [← List.length_map (·.block), map_newPool]
  have block : ((newPool blocks)[k]?).map (·.block) = blocks[k]? := by
    rw [← List.getElem?_map, map_newPool]
  rw [List.getElem?_append_left (by omega)]
  rw [List.getElem?_eq_getElem inside] at block
  obtain ⟨entry, found, same⟩ := Option.map_eq_some_iff.mp block
  refine ⟨entry, found, ?_⟩
  rw [same]
  exact given _ (List.getElem_mem inside)

theorem newPool_inv {blocks : List Nat} {zeros : Nat} (sorted : blocks.Pairwise (· < ·))
    (behind : ∀ b ∈ blocks, poolPba ≤ b) :
    PoolInv poolPba (newPool blocks ++ List.replicate zeros ⟨0, .noMapped⟩) where
  behind := by
    intro k entry found
    rcases (newPool_entry found).2 with listed | gone
    · exact .inr (behind _ (List.mem_of_getElem? listed))
    · exact .inl gone
  once := by
    intro k k' entry entry' found found' notZero same
    have listed := (newPool_entry found).2.resolve_right notZero
    have listed' := (newPool_entry found').2.resolve_right (same ▸ notZero)
    have nodup : blocks.Nodup := sorted.imp fun less => Nat.ne_of_lt less
    have inside := (List.getElem?_eq_some_iff.mp listed).1
    exact (List.getElem?_inj inside nodup).mp (by rw [listed, listed', same])

/-- The tables of a scan. -/
theorem scanBadBlocks_some (scanned : scanBadBlocks c = some (bbt, idx)) :
    ∃ rest pool poolPba, scanData c (c.poolLba - 1) 0 = some rest ∧
      (0 :: rest).getLast? = some (poolPba - 1) ∧ 0 < poolPba ∧
      pool = scanPool c c.totalBlks poolPba ∧ pool ≠ [] ∧ idx = pool.length - 1 ∧
      (∃ fill, bbt.bbTbl = 0 :: rest ++ fill) ∧
      ∃ zeros, bbt.bmtTbl = newPool pool ++ List.replicate zeros ⟨0, .noMapped⟩ := by
  obtain ⟨rest, scan, done⟩ := Option.bind_eq_some_iff.mp scanned
  simp only at done
  split at done
  · cases done
  · rename_i room
    split at done
    · cases done
    · cases done
      refine ⟨rest, _, _, scan, ?_, Nat.succ_pos _, rfl, ?_, rfl, ⟨_, rfl⟩, ⟨_, rfl⟩⟩
      · exact List.getLast?_eq_some_getLast _
      · exact fun empty => room (.inr empty)

/-- The last entry for the data has as many good blocks before it as there are others. -/
theorem scanData_last {rest : List Nat} (scan : scanData c (c.poolLba - 1) 0 = some rest)
    (last : (0 :: rest).getLast? = some (poolPba - 1)) :
    c.Good (poolPba - 1) ∧ Nat.count c.Good (poolPba - 1) = c.poolLba - 1 := by
  obtain ⟨length, blocks⟩ := scanData_spec scan (.inl rfl)
  rw [List.getLast?_eq_getElem?, List.length_cons, length] at last
  simpa using blocks _ _ last

/-- The pool is behind as many blocks as the data has. -/
theorem poolLba_le {rest : List Nat} (scan : scanData c (c.poolLba - 1) 0 = some rest)
    (last : (0 :: rest).getLast? = some (poolPba - 1)) (positive : 0 < poolPba) : c.poolLba ≤ poolPba := by
  have count := (scanData_last scan last).2
  have atMost : Nat.count c.Good (poolPba - 1) ≤ poolPba - 1 := Nat.count_le _
  omega

/-- The tables of a scan, if the blocks outside of the remap ranges are left to themselves. -/
theorem scanBadBlocks_safe (fits : c.Fits) (kept : c.RangesKept) (scanned : scanBadBlocks c = some (bbt, idx)) :
    ∃ poolPba, Inv c poolPba bbt ∧
      ∀ k < idx + 1, ∃ entry : Bbmt, bbt.bmtTbl[k]? = some entry ∧ entry.block ≠ 0 := by
  obtain ⟨rest, pool, poolPba, scan, last, positive, rfl, some, rfl, ⟨fill, data⟩, zeros, entries⟩ :=
    scanBadBlocks_some scanned
  obtain ⟨length, blocks⟩ := scanData_spec scan (.inl rfl)
  obtain ⟨sorted, behind⟩ := @scanPool_spec c poolPba c.totalBlks
  have lba := fits.lba
  -- the i-th entry has i good blocks before it
  have counts : ∀ (i b : Nat), (0 :: rest)[i]? = .some b → c.Good b ∧ Nat.count c.Good b = i := by
    intro i b found
    simpa using blocks i b found
  have mapping : ∀ i < c.pmtBlock, c.inRange i = true → (0 :: rest)[i]? = .some (getMappingBlockIndex c bbt i) := by
    intro i bound ranged
    have inside : i < (0 :: rest).length := by
      rw [List.length_cons, length]
      omega
    rw [getMappingBlockIndex, if_neg (by omega), ranged, data, List.getD_eq_getElem?_getD,
      List.getElem?_append_left inside, List.getElem?_eq_getElem inside]
    simp
  have self : ∀ i < c.pmtBlock, ¬c.inRange i = true → getMappingBlockIndex c bbt i = i := by
    intro i bound outside
    rw [getMappingBlockIndex, if_neg (by omega)]
    simp [outside]
  have lastCount := scanData_last scan last
  have front := poolLba_le scan last positive
  refine ⟨poolPba, ⟨?_, ?_, ?_, ?_, ?_⟩, ?_⟩
  · rw [entries]
    exact newPool_inv sorted fun b member => (behind b member).1
  · exact ⟨by omega, front⟩
  · rw [data, List.length_append, List.length_cons, length]
    omega
  · intro i bound
    left
    by_cases ranged : c.inRange i = true
    · have count := (counts _ _ (mapping i bound ranged)).2
      by_contra far
      have more := Nat.count_strict_mono lastCount.1 (show poolPba - 1 < getMappingBlockIndex c bbt i by omega)
      omega
    · rw [self i bound ranged]
      omega
  · intro i boundI j boundJ same
    by_cases rangedI : c.inRange i = true
    · obtain ⟨goodI, countI⟩ := counts _ _ (mapping i boundI rangedI)
      by_cases rangedJ : c.inRange j = true
      · have countJ := (counts _ _ (mapping j boundJ rangedJ)).2
        rw [← countI, ← countJ, same]
      · rw [same, self j boundJ rangedJ] at goodI countI
        have outside := kept j boundJ (by simpa using rangedJ) goodI
        rw [countI, rangedI] at outside
        cases outside
    · by_cases rangedJ : c.inRange j = true
      · obtain ⟨goodJ, countJ⟩ := counts _ _ (mapping j boundJ rangedJ)
        rw [← same, self i boundI rangedI] at goodJ countJ
        have outside := kept i boundI (by simpa using rangedI) goodJ
        rw [countJ, rangedJ] at outside
        cases outside
      · rw [self i boundI rangedI, self j boundJ rangedJ] at same
        exact same
  · intro k below
    rw [entries]
    refine newPool_blocks (fun b member => (behind b member).2) ?_
    have := List.length_pos_iff.mpr some
    omega

/-- A chip without a table is scanned, and the table uploaded. -/
theorem init_new (started : init c attempt flash = some (s, false)) :
    ∃ bbt idx, scanBadBlocks c = some (bbt, idx) ∧
      uploadBmt attempt (idx + 1) bbt flash = some (s.bbt, s.flash, s.bmtBlkIdx) := by
  unfold init at started
  split at started
  · cases started
  · split at started
    · cases started
    · obtain ⟨⟨bbt, idx⟩, scanned, later⟩ := Option.bind_eq_some_iff.mp started
      obtain ⟨⟨bbt', flash', n⟩, up, done⟩ := Option.bind_eq_some_iff.mp later
      simp only at done
      split at done
      · cases done
      · cases done
        exact ⟨bbt, idx, scanned, up⟩

theorem init_safe (fits : c.Fits) (kept : c.RangesKept) (started : init c attempt flash = some (s, false)) :
    ∃ poolPba, Safe c poolPba s := by
  obtain ⟨bbt, idx, scanned, up⟩ := init_new started
  obtain ⟨poolPba, inv, blocks⟩ := scanBadBlocks_safe fits kept scanned
  have uploaded := uploadBmt_spec up
  exact ⟨poolPba, inv.uploaded uploaded, Written.uploaded blocks uploaded⟩

/-- No run maps two logical blocks to one physical block, or one to the block with the tables, if the scan
leaves the blocks outside of the remap ranges to themselves and each call is allowed. -/
theorem mapping_separate (fits : c.Fits) (kept : c.RangesKept)
    (started : init c attempt flash = some (s, false)) (run : Reaches (step c) (Allowed c) s s') :
    Separate c s' := by
  obtain ⟨poolPba, safe⟩ := init_safe fits kept started
  have last : Safe c poolPba s' := run.invariant safe fun _ _ _ _ before allowed taken => before.step allowed taken
  exact last.inv.separate last.written

end Start

/-! ### A chip with one bad block -/

/-- A chip of 100 blocks, of which block 2 is bad, with a pool of 10 blocks. -/
def smallChip (remapRange : List (Nat × Nat)) : Chip where
  totalBlks := 100
  bmtPoolSize := 10
  tableSize := 0x80
  blkShift := 17
  remapRange := remapRange
  bad := fun block => block = 2

/-- A flash without tables. -/
def blankFlash : Flash := fun _ => .other

/-- Nothing fails. -/
def noFailures : Nat → Attempt := fun _ => .succeeds

theorem smallChip_fits (remapRange : List (Nat × Nat)) : (smallChip remapRange).Fits := by
  constructor
  · show 10 + 2 ≤ 100
    omega
  · show 100 < 2 ^ 16
    omega

/-- With no remap ranges, no block is outside of them. -/
theorem mapping_separate_remapped :
    ∃ s s', init (smallChip []) noFailures blankFlash = some (s, false) ∧
      step (smallChip []) s (.remap 5 noFailures .other) = some (s', true) ∧ Separate (smallChip []) s' := by
  have ends : ((init (smallChip []) noFailures blankFlash).bind fun out =>
      (step (smallChip []) out.1 (.remap 5 noFailures .other)).map fun next =>
        (out.2, decide (out.1.bmtBlkIdx ≠ 0xffff), next.2)) = some (false, true, true) := by
    decide +kernel
  obtain ⟨⟨s, found⟩, started, later⟩ := Option.bind_eq_some_iff.mp ends
  obtain ⟨⟨s', answer⟩, taken, values⟩ := Option.map_eq_some_iff.mp later
  simp only [Prod.mk.injEq, decide_eq_true_eq] at values
  obtain ⟨rfl, stored, rfl⟩ := values
  have kept : (smallChip []).RangesKept := fun j _ outside => nomatch outside
  have allowed : Allowed (smallChip []) s (.remap 5 noFailures .other) := ⟨by decide, stored⟩
  exact ⟨s, s', started, taken, mapping_separate (smallChip_fits []) kept started (Reaches.refl.tail allowed taken)⟩

/-- With a range of the first ten blocks, the last of them gets the place of the block behind it. -/
theorem mapping_collides :
    ∃ s, init (smallChip [(0, 0x140000)]) noFailures blankFlash = some (s, false) ∧
      ¬Separate (smallChip [(0, 0x140000)]) s := by
  have ends : ((init (smallChip [(0, 0x140000)]) noFailures blankFlash).map fun out =>
      (out.2, getMappingBlockIndex (smallChip [(0, 0x140000)]) out.1.bbt 9,
        getMappingBlockIndex (smallChip [(0, 0x140000)]) out.1.bbt 10)) = some (false, 10, 10) := by
    decide +kernel
  obtain ⟨⟨s, found⟩, started, values⟩ := Option.map_eq_some_iff.mp ends
  simp only [Prod.mk.injEq] at values
  obtain ⟨rfl, nine, ten⟩ := values
  refine ⟨s, started, ?_⟩
  rintro ⟨injective, -⟩
  exact absurd (injective 9 (by decide) 10 (by decide) (nine.trans ten.symm)) (by decide)

end FirewallCore.Mtd.BmtV2
