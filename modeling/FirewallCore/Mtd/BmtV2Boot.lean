import FirewallCore.Mtd.BmtV2Map

/-!
What the next start finds on the flash.

The mark of the block with the tables is set by the scan and never moved. If a
block fails, the tables are written to the entry before it, but the entry of
the failed block, which has the mark, is listed as 0, and the search for the
mark ends there: tables that have moved are not found any more.
-/

namespace FirewallCore.Mtd.BmtV2

open FirewallCore.Lib

/-- The next start finds the tables and the index as they are in memory, and does not scan. -/
def Recovers (c : Chip) (s : State) : Prop := ∀ attempt, init c attempt s.flash = some (s, true)

/-- The blocks that are searched hold no tables. -/
def NoTables (c : Chip) (flash : Flash) : Prop :=
  ∀ block, c.poolLba ≤ block → block < c.totalBlks → ∀ bbt, flash block ≠ .table bbt

/-- The erasure and the write succeed. -/
def Attempt.Ok (attempt : Attempt) : Prop := attempt.eraseFails = none ∧ attempt.writeFails = none

/-- An upload that a call makes goes to the entry that has the tables. -/
def AtOnce (c : Chip) (s : State) : Op → Prop
  | .remap block attempt _ => c.inRange block = true →
      freeEntry (s.bbt.bmtTbl.take s.bmtBlkIdx) ≠ none → (attempt s.bmtBlkIdx).Ok
  | .unmap _ attempt => (attempt s.bmtBlkIdx).Ok

/-- The scan finds two blocks for the pool or more, and the first upload goes to the last of them. -/
def FirstAtOnce (c : Chip) (attempt : Nat → Attempt) : Prop :=
  ∃ bbt idx, scanBadBlocks c = some (bbt, idx) ∧ 1 ≤ idx ∧ (attempt idx).Ok

/-! ### The search -/

section Search

variable {c : Chip} {flash : Flash} {bbt : Bbbt} {pool : List Bbmt} {idx i block n : Nat}

/-- The mark is at an index, behind blocks in use. -/
structure MarkedAt (pool : List Bbmt) (idx : Nat) : Prop where
  before : ∀ k < idx, ∃ entry : Bbmt, pool[k]? = some entry ∧ entry.block ≠ 0 ∧ entry.mapped ≠ .bmtMapped
  mark : ∃ entry : Bbmt, pool[idx]? = some entry ∧ entry.block ≠ 0 ∧ entry.mapped = .bmtMapped

/-- The mark is not found, or at the first entry. -/
def MarkLost (pool : List Bbmt) : Prop :=
  ∃ (m : Nat) (entry : Bbmt), pool[m]? = some entry ∧
    (∀ k < m, ∀ earlier : Bbmt, pool[k]? = some earlier → earlier.mapped ≠ .bmtMapped) ∧
    (entry.block = 0 ∨ m = 0 ∧ entry.mapped = .bmtMapped)

theorem getBmtIndex_marked (marked : MarkedAt pool idx) : getBmtIndex pool i = i + idx := by
  induction pool generalizing idx i with
  | nil =>
    obtain ⟨entry, found, -⟩ := marked.mark
    cases found
  | cons first later ih =>
    rw [getBmtIndex]
    cases idx with
    | zero =>
      obtain ⟨entry, found, notZero, mark⟩ := marked.mark
      cases found
      rw [if_neg notZero, if_pos mark, Nat.add_zero]
    | succ idx =>
      obtain ⟨entry, found, notZero, noMark⟩ := marked.before 0 (by omega)
      cases found
      have rest : MarkedAt later idx := ⟨fun k below => marked.before (k + 1) (by omega), marked.mark⟩
      rw [if_neg notZero, if_neg noMark, ih rest]
      omega

theorem getBmtIndex_lost (lost : MarkLost pool) : getBmtIndex pool 0 = 0 := by
  have ends : ∀ {pool : List Bbmt} {m i : Nat} {entry : Bbmt}, pool[m]? = some entry → entry.block = 0 →
      (∀ k < m, ∀ earlier : Bbmt, pool[k]? = some earlier → earlier.mapped ≠ .bmtMapped) →
      getBmtIndex pool i = 0 := by
    intro pool
    induction pool with
    | nil =>
      intro m i entry found
      cases found
    | cons first later ih =>
      intro m i entry found gone earlier
      rw [getBmtIndex]
      cases m with
      | zero =>
        cases found
        rw [if_pos gone]
      | succ m =>
        split
        · rfl
        · rw [if_neg (earlier 0 (by omega) first rfl)]
          exact ih found gone fun k below => earlier (k + 1) (by omega)
  obtain ⟨m, entry, found, earlier, gone | ⟨rfl, mark⟩⟩ := lost
  · exact ends found gone earlier
  · cases pool with
    | nil => cases found
    | cons first later =>
      cases found
      rw [getBmtIndex, if_pos mark, ite_self]

theorem searchBmt_some (found : searchBmt c flash n = some (bbt, i)) : getBmtIndex bbt.bmtTbl 0 = i ∧ i ≠ 0 := by
  induction n with
  | zero => cases found
  | succ n ih =>
    rw [searchBmt] at found
    split at found
    · cases found
    · split at found
      · split at found
        · cases found
        · rename_i notZero
          cases found
          exact ⟨rfl, notZero⟩
      · exact ih found

/-- The first tables from the end are those that are searched for. -/
theorem searchBmt_first (below : block < n) (atLeast : c.poolLba ≤ block) (here : flash block = .table bbt)
    (above : ∀ b, block < b → b < n → ∀ other, flash b ≠ .table other) (marked : MarkedAt bbt.bmtTbl idx)
    (more : 1 ≤ idx) : searchBmt c flash n = some (bbt, idx) := by
  induction n with
  | zero => omega
  | succ n ih =>
    rw [searchBmt, if_neg (by omega)]
    rcases Nat.eq_or_lt_of_le (Nat.lt_succ_iff.mp below) with rfl | less
    · rw [here]
      simp only [getBmtIndex_marked marked, Nat.zero_add]
      cases idx with
      | zero => omega
      | succ idx => rfl
    · have none := above n less (by omega)
      cases contents : flash n with
      | table other => exact absurd contents (none other)
      | unreadable => exact ih less fun b low high => above b low (by omega)
      | other => exact ih less fun b low high => above b low (by omega)

end Search

/-! ### Uploads -/

section Uploads

variable {c : Chip} {attempt : Nat → Attempt} {bbt bbt' : Bbbt} {flash flash' : Flash} {pool pool' : List Bbmt}
  {s s' : State} {answer : Bool} {n m k block : Nat} {entry : Bbmt}

/-- An upload that succeeds at once. -/
theorem uploadBmt_ok (found : bbt.bmtTbl[n]? = some entry) (free : entry.mapped ≠ .normalMapped)
    (ok : (attempt n).Ok) :
    uploadBmt attempt (n + 1) bbt flash = some (bbt, flash.write entry.block (.table bbt), n) := by
  rw [uploadBmt, found]
  simp only [if_neg free, ok.1, ok.2]

/-- Marks stay, and a block that was given up stays so. -/
theorem MarkLost.of_entries (lost : MarkLost pool)
    (entries : ∀ (k : Nat) (entry : Bbmt), pool[k]? = some entry → ∃ entry' : Bbmt, pool'[k]? = some entry' ∧
      (entry'.mapped = .bmtMapped ↔ entry.mapped = .bmtMapped) ∧ (entry.block = 0 → entry'.block = 0))
    (length : pool'.length ≤ pool.length) : MarkLost pool' := by
  obtain ⟨m, entry, found, earlier, gone⟩ := lost
  obtain ⟨entry', found', marks, stays⟩ := entries m entry found
  refine ⟨m, entry', found', ?_, ?_⟩
  · intro k below other' foundOther'
    have inside : k < pool.length := lt_of_lt_of_le (List.getElem?_eq_some_iff.mp foundOther').1 length
    obtain ⟨again, foundAgain, marksOther, -⟩ := entries k _ (List.getElem?_eq_getElem inside)
    obtain rfl : again = other' := Option.some.inj (foundAgain.symm.trans foundOther')
    rw [Ne, marksOther]
    exact earlier k below _ (List.getElem?_eq_getElem inside)
  · exact gone.imp stays fun ⟨first, mark⟩ => ⟨first, marks.mpr mark⟩

theorem uploadBmt_length (done : uploadBmt attempt n bbt flash = some (bbt', flash', m)) :
    bbt'.bmtTbl.length = bbt.bmtTbl.length := by
  induction n generalizing bbt flash with
  | zero =>
    cases done
    rfl
  | succ n ih =>
    rw [uploadBmt] at done
    split at done
    · cases done
    · rename_i entry found
      have givenUp : (bbt.giveUp n entry).bmtTbl.length = bbt.bmtTbl.length := List.length_set
      split at done
      · cases done
        rfl
      · split at done
        · rw [ih done, givenUp]
        · split at done
          · rw [ih done, givenUp]
          · cases done
            rfl

theorem MarkLost.uploaded (lost : MarkLost bbt.bmtTbl)
    (done : uploadBmt attempt n bbt flash = some (bbt', flash', m)) : MarkLost bbt'.bmtTbl := by
  refine lost.of_entries ?_ (uploadBmt_length done).le
  intro k entry found
  rcases (uploadBmt_spec done).entries k with same | ⟨old, foundOld, -, gaveUp⟩
  · exact ⟨entry, same.trans found, Iff.rfl, id⟩
  · obtain rfl : old = entry := Option.some.inj (foundOld.symm.trans found)
    exact ⟨_, gaveUp, Iff.rfl, fun _ => rfl⟩

/-- An upload that does not succeed at once loses the mark. -/
theorem uploadBmt_loses (marked : MarkedAt bbt.bmtTbl n) (failed : ¬(attempt n).Ok)
    (done : uploadBmt attempt (n + 1) bbt flash = some (bbt', flash', m)) : MarkLost bbt'.bmtTbl := by
  obtain ⟨entry, found, notZero, mark⟩ := marked.mark
  have lost : MarkLost (bbt.giveUp n entry).bmtTbl := by
    refine ⟨n, { entry with block := 0 }, ?_, ?_, .inl rfl⟩
    · rw [giveUp_entry found, if_pos rfl]
    · intro k below earlier foundEarlier
      rw [giveUp_entry found, if_neg (by omega)] at foundEarlier
      obtain ⟨other, foundOther, -, noMark⟩ := marked.before k below
      obtain rfl : other = earlier := Option.some.inj (foundOther.symm.trans foundEarlier)
      exact noMark
  have free : entry.mapped ≠ .normalMapped := by
    rw [mark]
    simp
  rw [uploadBmt, found] at done
  simp only [if_neg free] at done
  split at done
  · exact lost.uploaded done
  · rename_i erased
    split at done
    · exact lost.uploaded done
    · rename_i written
      exact absurd ⟨erased, written⟩ failed

end Uploads

/-! ### Runs -/

section Runs

variable {c : Chip} {attempt : Nat → Attempt} {flash : Flash} {s s' : State} {answer : Bool} {op : Op}

/-- The tables in memory are the last ones on the flash, and marked. -/
structure Stored (c : Chip) (s : State) : Prop where
  marked : MarkedAt s.bbt.bmtTbl s.bmtBlkIdx
  more : 1 ≤ s.bmtBlkIdx
  found : ∃ entry : Bbmt, s.bbt.bmtTbl[s.bmtBlkIdx]? = some entry ∧ c.poolLba ≤ entry.block ∧
    entry.block < c.totalBlks ∧ s.flash entry.block = .table s.bbt ∧
    (∀ b, entry.block < b → b < c.totalBlks → ∀ bbt, s.flash b ≠ .table bbt) ∧
    ∀ k < s.bmtBlkIdx, ∀ earlier : Bbmt, s.bbt.bmtTbl[k]? = some earlier → earlier.block < entry.block

theorem Stored.recovers (stored : Stored c s) : Recovers c s := by
  obtain ⟨entry, -, atLeast, below, here, above, -⟩ := stored.found
  intro attempt
  rw [init, searchBmt_first below atLeast here above stored.marked stored.more]

theorem MarkLost.not_recovers (lost : MarkLost s.bbt.bmtTbl) : ¬Recovers c s := by
  intro recovers
  have found := recovers noFailures
  unfold init at found
  split at found
  · rename_i bbt i search
    have same : bbt = s.bbt := congrArg State.bbt (Prod.mk.inj (Option.some.inj found)).1
    obtain ⟨index, notZero⟩ := searchBmt_some search
    rw [same, getBmtIndex_lost lost] at index
    exact notZero index.symm
  · split at found
    · cases found
    · obtain ⟨scan, -, later⟩ := Option.bind_eq_some_iff.mp found
      obtain ⟨up, -, done⟩ := Option.bind_eq_some_iff.mp later
      simp only at done
      split at done
      · cases done
      · cases done

/-- Tables that are uploaded at once are stored, if the entries in front are as before. -/
theorem Stored.upload {bbt : Bbbt} {flash : Flash} (stored : Stored c s)
    (marked : MarkedAt bbt.bmtTbl s.bmtBlkIdx)
    (same : ∀ k ≤ s.bmtBlkIdx, ∀ entry : Bbmt, bbt.bmtTbl[k]? = some entry →
      ∃ old : Bbmt, s.bbt.bmtTbl[k]? = some old ∧ old.block = entry.block)
    (behind : ∀ b, (∀ entry : Bbmt, bbt.bmtTbl[s.bmtBlkIdx]? = some entry → entry.block < b) →
      flash b = s.flash b) :
    ∃ entry : Bbmt, bbt.bmtTbl[s.bmtBlkIdx]? = some entry ∧ entry.mapped ≠ .normalMapped ∧
      Stored c ⟨bbt, s.bmtBlkIdx, flash.write entry.block (.table bbt)⟩ := by
  obtain ⟨last, foundLast, atLeast, below, -, above, earlier⟩ := stored.found
  obtain ⟨entry, found, notZero, mark⟩ := marked.mark
  obtain ⟨old, foundOld, block⟩ := same _ (Nat.le_refl _) entry found
  obtain rfl : old = last := Option.some.inj (foundOld.symm.trans foundLast)
  refine ⟨entry, found, by rw [mark]; simp, marked, stored.more, entry, found, block ▸ atLeast, block ▸ below, ?_,
    ?_, ?_⟩
  · exact Function.update_self _ _ _
  · intro b more inside
    have kept := behind b fun entry' found' => by
      obtain rfl : entry' = entry := Option.some.inj (found'.symm.trans found)
      exact more
    have unchanged : (flash.write entry.block (.table bbt)) b = s.flash b := by
      rw [Flash.write, Function.update_of_ne (by omega), kept]
    intro other written
    exact above b (by omega) inside other (unchanged.symm.trans written)
  · intro k before earlier' found'
    obtain ⟨other, foundOther, sameBlock⟩ := same k (Nat.le_of_lt before) earlier' found'
    rw [← sameBlock, ← block]
    exact earlier k before other foundOther

/-- An entry of the pool comes into use. -/
theorem MarkedAt.use {pool : List Bbmt} {idx k : Nat} {entry : Bbmt} (marked : MarkedAt pool idx)
    (below : k < idx) (found : pool[k]? = some entry) (notZero : entry.block ≠ 0) :
    MarkedAt (pool.set k { entry with mapped := .normalMapped }) idx where
  before := by
    intro k' below'
    rw [getElem?_use found]
    split
    · exact ⟨_, rfl, notZero, by simp⟩
    · exact marked.before k' below'
  mark := by
    rw [getElem?_use found, if_neg (by omega)]
    exact marked.mark

theorem MarkLost.use {pool : List Bbmt} {k : Nat} {entry : Bbmt} (lost : MarkLost pool)
    (found : pool[k]? = some entry) (notZero : entry.block ≠ 0) (unused : entry.mapped = .noMapped) :
    MarkLost (pool.set k { entry with mapped := .normalMapped }) := by
  refine lost.of_entries ?_ List.length_set.le
  intro k' other foundOther
  rw [getElem?_use found]
  split
  · rename_i same
    subst same
    obtain rfl : entry = other := Option.some.inj (found.symm.trans foundOther)
    exact ⟨_, rfl, by simp [unused], fun gone => absurd gone notZero⟩
  · exact ⟨other, foundOther, Iff.rfl, id⟩

/-- What a call does: nothing, or an upload of changed tables. -/
theorem step_cases (taken : step c s op = some (s', answer)) :
    (s' = s ∧ AtOnce c s op) ∨
    ∃ (attempt : Nat → Attempt) (bbt : Bbbt) (flash : Flash),
      uploadBmt attempt (s.bmtBlkIdx + 1) bbt flash = some (s'.bbt, s'.flash, s'.bmtBlkIdx) ∧
      (AtOnce c s op ↔ (attempt s.bmtBlkIdx).Ok) ∧
      ((bbt.bmtTbl = s.bbt.bmtTbl ∧ flash = s.flash) ∨
        ∃ (k : Nat) (entry : Bbmt) (copied : Contents), k < s.bmtBlkIdx ∧ s.bbt.bmtTbl[k]? = some entry ∧
          entry.block ≠ 0 ∧ entry.mapped = .noMapped ∧
          bbt.bmtTbl = s.bbt.bmtTbl.set k { entry with mapped := .normalMapped } ∧
          flash = s.flash.write entry.block copied) := by
  cases op with
  | remap block attempt copied =>
    unfold BmtV2.step mtkBmtRemapBlock at taken
    simp only at taken
    split at taken
    · rename_i ranged
      unfold remapBlock at taken
      split at taken
      · rename_i none
        split at taken
        · cases taken
          exact .inl ⟨rfl, fun _ free => absurd none free⟩
        · cases taken
      · rename_i k free
        obtain ⟨below, entry, found, notZero, unused⟩ := freeEntry_some free
        rw [found] at taken
        simp only at taken
        split at taken
        · obtain ⟨⟨bbt', flash', m⟩, up, done⟩ := Option.bind_eq_some_iff.mp taken
          cases done
          refine .inr ⟨attempt, _, _, up, ?_, .inr ⟨k, entry, copied, below, found, notZero, unused, rfl, rfl⟩⟩
          constructor
          · exact fun once => once ranged (by rw [free]; simp)
          · exact fun ok _ _ => ok
        · cases taken
    · rename_i outside
      cases taken
      exact .inl ⟨rfl, fun ranged => absurd ranged outside⟩
  | unmap block attempt =>
    unfold BmtV2.step unmapBlock at taken
    simp only at taken
    split at taken
    · obtain ⟨⟨bbt', flash', m⟩, up, done⟩ := Option.bind_eq_some_iff.mp taken
      cases done
      exact .inr ⟨attempt, _, _, up, Iff.rfl, .inl ⟨rfl, rfl⟩⟩
    · cases taken

theorem MarkLost.step (lost : MarkLost s.bbt.bmtTbl) (taken : step c s op = some (s', answer)) :
    MarkLost s'.bbt.bmtTbl := by
  rcases step_cases taken with ⟨rfl, -⟩ | ⟨attempt, bbt, flash, up, -, ⟨same, -⟩ | ⟨k, entry, copied, -, found,
    notZero, unused, used, -⟩⟩
  · exact lost
  · exact MarkLost.uploaded (same ▸ lost) up
  · exact MarkLost.uploaded (used ▸ lost.use found notZero unused) up

/-- A call that does not upload at once loses the mark; after any other the tables are stored. -/
theorem Stored.step (stored : Stored c s) (taken : step c s op = some (s', answer)) :
    (AtOnce c s op → Stored c s') ∧ (¬AtOnce c s op → MarkLost s'.bbt.bmtTbl) := by
  rcases step_cases taken with ⟨rfl, once⟩ | ⟨attempt, bbt, flash, up, once, tables⟩
  · exact ⟨fun _ => stored, fun not => absurd once not⟩
  · have marked : MarkedAt bbt.bmtTbl s.bmtBlkIdx := by
      rcases tables with ⟨same, -⟩ | ⟨k, entry, copied, below, found, notZero, -, used, -⟩
      · exact same ▸ stored.marked
      · exact used ▸ stored.marked.use below found notZero
    constructor
    · intro holds
      have same : ∀ k ≤ s.bmtBlkIdx, ∀ entry : Bbmt, bbt.bmtTbl[k]? = some entry →
          ∃ old : Bbmt, s.bbt.bmtTbl[k]? = some old ∧ old.block = entry.block := by
        intro k _ entry found
        rcases tables with ⟨same, -⟩ | ⟨k', entry', copied, -, found', -, -, used, -⟩
        · exact ⟨entry, same ▸ found, rfl⟩
        · rw [used, getElem?_use found'] at found
          split at found
          · rename_i equal
            subst equal
            cases found
            exact ⟨entry', found', rfl⟩
          · exact ⟨entry, found, rfl⟩
      have behind : ∀ b, (∀ entry : Bbmt, bbt.bmtTbl[s.bmtBlkIdx]? = some entry → entry.block < b) →
          flash b = s.flash b := by
        intro b far
        rcases tables with ⟨-, same⟩ | ⟨k, entry, copied, below, found, -, -, -, copy⟩
        · rw [same]
        · obtain ⟨last, foundLast, -, -⟩ := marked.mark
          obtain ⟨old, foundOld, sameBlock⟩ := same _ (Nat.le_refl _) last foundLast
          obtain ⟨own, foundOwn, -, -, -, -, earlier⟩ := stored.found
          obtain rfl : old = own := Option.some.inj (foundOld.symm.trans foundOwn)
          have first := earlier k below entry found
          have second := far last foundLast
          rw [copy, Flash.write, Function.update_of_ne (by omega)]
      obtain ⟨entry, found, free, result⟩ := stored.upload marked same behind
      rw [uploadBmt_ok found free (once.mp holds)] at up
      obtain ⟨bbt', idx', flash'⟩ := s'
      simp only [Option.some.injEq, Prod.mk.injEq] at up
      obtain ⟨rfl, rfl, rfl⟩ := up
      exact result
    · exact fun not => uploadBmt_loses marked (fun ok => not (once.mpr ok)) up

/-- The mark of a new pool is at its end. -/
theorem newPool_marked {front : List Nat} {last zeros : Nat} (given : ∀ b ∈ front ++ [last], b ≠ 0) :
    MarkedAt (newPool (front ++ [last]) ++ List.replicate zeros ⟨0, .noMapped⟩) front.length := by
  have pool : newPool (front ++ [last]) = front.map (⟨·, .noMapped⟩) ++ [⟨last, .bmtMapped⟩] := by
    simp [newPool]
  rw [pool, List.append_assoc]
  constructor
  · intro k below
    refine ⟨⟨front[k], .noMapped⟩, ?_, ?_, by simp⟩
    · rw [List.getElem?_append_left (by simpa using below), List.getElem?_map, List.getElem?_eq_getElem below]
      rfl
    · exact given _ (List.mem_append_left _ (List.getElem_mem below))
  · refine ⟨⟨last, .bmtMapped⟩, ?_, given last (by simp), rfl⟩
    rw [List.getElem?_append_right (by simp), List.length_map, Nat.sub_self]
    rfl

theorem scanPool_lt {fuel block b : Nat} (member : b ∈ scanPool c fuel block) : b < c.totalBlks := by
  induction fuel generalizing block with
  | zero => cases member
  | succ fuel ih =>
    rw [scanPool] at member
    split at member
    · cases member
    · rename_i notZero
      rcases List.mem_cons.mp member with rfl | later
      · exact (findValidBlock_spec rfl notZero).2.1
      · exact ih later

/-- The tables of a scan, as they are before the first upload. -/
theorem scanBadBlocks_marked {bbt : Bbbt} {idx : Nat} (scanned : scanBadBlocks c = some (bbt, idx)) :
    MarkedAt bbt.bmtTbl idx ∧ ∃ entry : Bbmt, bbt.bmtTbl[idx]? = some entry ∧ c.poolLba ≤ entry.block ∧
      entry.block < c.totalBlks ∧
      ∀ k < idx, ∀ earlier : Bbmt, bbt.bmtTbl[k]? = some earlier → earlier.block < entry.block := by
  obtain ⟨rest, pool, poolPba, scan, last, positive, isPool, some, rfl, -, zeros, entries⟩ :=
    scanBadBlocks_some scanned
  obtain ⟨sorted, behind⟩ := @scanPool_spec c poolPba c.totalBlks
  rw [← isPool] at sorted behind
  have front := poolLba_le scan last positive
  have inside : ∀ b ∈ pool, b < c.totalBlks := fun b member => scanPool_lt (isPool ▸ member)
  obtain ⟨init, final, rfl⟩ := (List.eq_nil_or_concat' pool).resolve_left some
  have length : (init ++ [final]).length - 1 = init.length := by simp
  rw [length, entries]
  have marked : MarkedAt (newPool (init ++ [final]) ++ List.replicate zeros ⟨0, .noMapped⟩) init.length :=
    newPool_marked fun b member => (behind b member).2
  refine ⟨marked, ?_⟩
  obtain ⟨entry, found, notZero, -⟩ := marked.mark
  have listed := (newPool_entry found).2.resolve_right notZero
  have member := List.mem_of_getElem? listed
  have block : entry.block = final := by
    rw [List.getElem?_append_right (Nat.le_refl _), Nat.sub_self] at listed
    exact (Option.some.inj listed).symm
  refine ⟨entry, found, front.trans (behind _ member).1, inside _ member, ?_⟩
  intro k below earlier foundEarlier
  obtain ⟨own, foundOwn, notZeroOwn, -⟩ := marked.before k below
  obtain rfl : own = earlier := Option.some.inj (foundOwn.symm.trans foundEarlier)
  have listedOwn := (newPool_entry foundOwn).2.resolve_right notZeroOwn
  rw [List.getElem?_append_left below] at listedOwn
  rw [block]
  exact (List.pairwise_append.mp sorted).2.2 _ (List.mem_of_getElem? listedOwn) _ (by simp)

theorem init_stored (blank : NoTables c flash) (started : init c attempt flash = some (s, false)) :
    (FirstAtOnce c attempt → Stored c s) ∧ (¬FirstAtOnce c attempt → MarkLost s.bbt.bmtTbl) := by
  obtain ⟨bbt, idx, scanned, up⟩ := init_new started
  obtain ⟨bbt', n, flash'⟩ := s
  obtain ⟨marked, entry, found, atLeast, below, earlier⟩ := scanBadBlocks_marked scanned
  have free : entry.mapped ≠ .normalMapped := by
    obtain ⟨own, foundOwn, -, mark⟩ := marked.mark
    obtain rfl : own = entry := Option.some.inj (foundOwn.symm.trans found)
    rw [mark]
    simp
  constructor
  · rintro ⟨_, _, again, more, ok⟩
    rw [scanned] at again
    cases again
    rw [uploadBmt_ok found free ok, Option.some.injEq, Prod.mk.injEq, Prod.mk.injEq] at up
    obtain ⟨rfl, rfl, rfl⟩ := up
    refine ⟨marked, more, entry, found, atLeast, below, Function.update_self _ _ _, ?_, earlier⟩
    intro b above inside other written
    have unchanged : (flash.write entry.block (.table bbt)) b = flash b :=
      Function.update_of_ne (by omega) _ _
    exact blank b (by omega) inside other (unchanged.symm.trans written)
  · intro failed
    by_cases ok : (attempt idx).Ok
    · have first : idx = 0 := by
        by_contra more
        exact failed ⟨bbt, idx, scanned, by omega, ok⟩
      subst first
      refine MarkLost.uploaded ⟨0, entry, found, fun k below => absurd below (by omega), .inr ⟨rfl, ?_⟩⟩ up
      obtain ⟨own, foundOwn, -, mark⟩ := marked.mark
      obtain rfl : own = entry := Option.some.inj (foundOwn.symm.trans found)
      exact mark
    · exact uploadBmt_loses marked ok up

theorem MarkLost.exec {ops : List Op} (lost : MarkLost s.bbt.bmtTbl)
    (ran : Lib.exec (BmtV2.step c) s ops = some s') : MarkLost s'.bbt.bmtTbl := by
  induction ops generalizing s with
  | nil =>
    cases ran
    exact lost
  | cons op rest ih =>
    obtain ⟨⟨next, answer⟩, taken, later⟩ := Option.bind_eq_some_iff.mp ran
    exact ih (lost.step taken) later

/-- What the next start finds after a run from stored tables. -/
theorem Stored.restored_iff {ops : List Op} (stored : Stored c s) (ran : exec (BmtV2.step c) s ops = some s') :
    Recovers c s' ↔ Meets (BmtV2.step c) (AtOnce c) s ops := by
  induction ops generalizing s with
  | nil =>
    cases ran
    exact iff_of_true stored.recovers trivial
  | cons op rest ih =>
    obtain ⟨⟨next, answer⟩, taken, later⟩ := Option.bind_eq_some_iff.mp ran
    by_cases once : AtOnce c s op
    · rw [ih ((stored.step taken).1 once) later]
      constructor
      · intro meets
        refine ⟨once, ?_⟩
        intro other answer' again
        rw [taken] at again
        cases again
        exact meets
      · exact fun meets => meets.2 next answer taken
    · have lost := (stored.step taken).2 once
      exact iff_of_false (lost.exec later).not_recovers fun meets => once meets.1

end Runs

/-! ### A chip with one bad block -/

/-- The erasure of the last block of the pool fails. -/
def lastEraseFails : Nat → Attempt := fun n => if n = 8 then ⟨some .other, none⟩ else .succeeds

theorem blankFlash_noTables (c : Chip) : NoTables c blankFlash := by
  rintro block - - bbt ⟨⟩

end FirewallCore.Mtd.BmtV2
