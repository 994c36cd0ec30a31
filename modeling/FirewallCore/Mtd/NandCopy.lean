import Mathlib.Algebra.Order.Ring.Nat

/-!
The copy of a block for the bad block managements (`bbt_nand_copy` of `mtk_bmt.c`).

The length of the OOB bytes to write is filled in behind the write, so that none are written.
A block is copied exactly if there are none to copy and every page is read as a whole
(`copyComplete_iff`).
-/

namespace FirewallCore.Mtd.NandCopy

/-- What `_read_oob` returns, with the data and the OOB bytes that have been read. -/
structure Read where
  ret : Int
  data : List UInt8
  oob : List UInt8
  deriving DecidableEq, Repr

/-- `mtd_is_bitflip`: `-EUCLEAN`, whose data have been corrected. -/
def mtdIsBitflip (ret : Int) : Bool := ret = -117

/-- The chip: its sizes, and how it reads and writes at each address. -/
structure Chip where
  blkSize : Nat
  blkShift : Nat
  pgSize : Nat
  pgShift : Nat
  oobsize : Nat
  read : Nat → Nat → Read
  write : Nat → Int
  paged : 0 < pgSize
  dataFits : ∀ addr ooblen, (read addr ooblen).data.length ≤ pgSize
  oobFits : ∀ addr ooblen, (read addr ooblen).oob.length ≤ ooblen

/-- A write that has succeeded. -/
structure Written where
  addr : Nat
  data : List UInt8
  oob : List UInt8
  deriving DecidableEq, Repr

/-- Where the loop is, the contents of its buffers and what it has written. -/
structure Copy where
  offset : Nat
  dataBuf : List UInt8
  oobBuf : List UInt8
  written : List Written

namespace Chip

variable (c : Chip)

def pages : Nat := c.blkSize >>> c.pgShift

def ooblen : Nat := min (c.oobsize / c.pages) 64

/-- The read of a round. -/
def readAt (src offset : Nat) : Read := c.read (src + offset) c.ooblen

/-- `wr_ops.ooblen`, when `_write_oob` is called. -/
def wrOoblen : Nat := 0

/-- What is in the buffers and has been written behind a round. -/
def copied (src dest : Nat) (s : Copy) : Copy :=
  let rd := c.readAt src s.offset
  let dataBuf := rd.data ++ s.dataBuf.drop rd.data.length
  let oobBuf := rd.oob ++ s.oobBuf.drop rd.oob.length
  ⟨s.offset + rd.data.length, dataBuf, oobBuf,
    s.written ++ [⟨dest + s.offset, dataBuf.take c.pgSize, oobBuf.take wrOoblen⟩]⟩

/-- The rounds of `bbt_nand_copy`. -/
def copyPages (src dest : Nat) (maxOffset : Int) : Nat → Copy → Int × List Written
  | 0, s => (0, s.written)
  | n + 1, s =>
    if maxOffset ≤ s.offset then (0, s.written)
    else
      let rd := c.readAt src s.offset
      if rd.ret < 0 ∧ ¬mtdIsBitflip rd.ret then (rd.ret, s.written)
      else if rd.data.length = 0 then (0, s.written)
      else
        let ret := c.write (dest + s.offset)
        if ret < 0 then (ret, s.written) else copyPages src dest maxOffset n (c.copied src dest s)

/-- `bbt_nand_copy`, with some contents of its buffers at first. -/
def bbtNandCopy (dataBuf oobBuf : List UInt8) (destBlk srcBlk : Nat) (maxOffset : Int) : Int × List Written :=
  c.copyPages (srcBlk <<< c.blkShift) (destBlk <<< c.blkShift) maxOffset c.pages ⟨0, dataBuf, oobBuf, []⟩

/-- If the copy succeeds, every page below `maxOffset` has been written as it was read. -/
def CopyComplete (dataBuf oobBuf : List UInt8) (destBlk srcBlk : Nat) (maxOffset : Int) : Prop :=
  (c.bbtNandCopy dataBuf oobBuf destBlk srcBlk maxOffset).1 = 0 →
    ∀ i < c.pages, (↑(i * c.pgSize) : Int) < maxOffset →
      let rd := c.readAt (srcBlk <<< c.blkShift) (i * c.pgSize)
      rd.data.length = c.pgSize ∧ ⟨(destBlk <<< c.blkShift) + i * c.pgSize, rd.data, rd.oob⟩ ∈
        (c.bbtNandCopy dataBuf oobBuf destBlk srcBlk maxOffset).2

/-! ### The rounds -/

/-- The offset of a round: the lengths of the reads before it. -/
def offsetAt (src : Nat) : Nat → Nat
  | 0 => 0
  | k + 1 => offsetAt src k + (c.readAt src (offsetAt src k)).data.length

/-- A round below `maxOffset` in which a read or a write fails. -/
def FailsAt (src dest : Nat) (maxOffset : Int) (k : Nat) : Prop :=
  (c.offsetAt src k : Int) < maxOffset ∧
    (let rd := c.readAt src (c.offsetAt src k)
    rd.ret < 0 ∧ ¬mtdIsBitflip rd.ret ∨ rd.data.length ≠ 0 ∧ c.write (dest + c.offsetAt src k) < 0)

/-- A round below `maxOffset` that reads and writes something. -/
def PassesAt (src dest : Nat) (maxOffset : Int) (k : Nat) : Prop :=
  (c.offsetAt src k : Int) < maxOffset ∧ ¬c.FailsAt src dest maxOffset k ∧
    (c.readAt src (c.offsetAt src k)).data.length ≠ 0

/-- A read or a write fails. -/
def Fails (src dest : Nat) (maxOffset : Int) : Prop :=
  ∃ k < c.pages, c.FailsAt src dest maxOffset k ∧ ∀ j < k, c.PassesAt src dest maxOffset j

/-- Every page below `maxOffset` is read as a whole and without OOB bytes. -/
def BarePages (src : Nat) (maxOffset : Int) : Prop :=
  ∀ i < c.pages, (↑(i * c.pgSize) : Int) < maxOffset →
    (c.readAt src (i * c.pgSize)).data.length = c.pgSize ∧ (c.readAt src (i * c.pgSize)).oob = []

section Rounds

variable {c : Chip} {src dest k n j : Nat} {maxOffset : Int} {s : Copy}

theorem copyPages_pass (at_ : s.offset = c.offsetAt src k) (passes : c.PassesAt src dest maxOffset k) :
    c.copyPages src dest maxOffset (n + 1) s = c.copyPages src dest maxOffset n (c.copied src dest s) ∧
      (c.copied src dest s).offset = c.offsetAt src (k + 1) := by
  obtain ⟨below, goesOn, some⟩ := passes
  unfold FailsAt at goesOn
  rw [← at_] at below goesOn some
  constructor
  · have ok : ¬((c.readAt src s.offset).ret < 0 ∧ ¬mtdIsBitflip (c.readAt src s.offset).ret) :=
      fun failed => goesOn ⟨below, .inl failed⟩
    have ok' : ¬c.write (dest + s.offset) < 0 := fun failed => goesOn ⟨below, .inr ⟨some, failed⟩⟩
    rw [copyPages, if_neg (by omega)]
    dsimp only
    rw [if_neg ok, if_neg some, if_neg ok']
  · rw [offsetAt, ← at_]
    rfl

theorem copyPages_fail (at_ : s.offset = c.offsetAt src k) (fails : c.FailsAt src dest maxOffset k) :
    (c.copyPages src dest maxOffset (n + 1) s).1 < 0 := by
  obtain ⟨below, failed⟩ := fails
  rw [← at_] at below failed
  rw [copyPages, if_neg (by omega)]
  dsimp only
  split
  · rename_i unread
    exact unread.1
  · rename_i readable
    obtain ⟨some, unwritten⟩ := failed.resolve_left readable
    rw [if_neg some, if_pos unwritten]
    exact unwritten

theorem copyPages_stop (at_ : s.offset = c.offsetAt src k) (fails : ¬c.FailsAt src dest maxOffset k)
    (passes : ¬c.PassesAt src dest maxOffset k) : c.copyPages src dest maxOffset (n + 1) s = (0, s.written) := by
  rw [copyPages]
  split
  · rfl
  · rename_i below
    have below : (c.offsetAt src k : Int) < maxOffset := by
      rw [← at_]
      omega
    have none : (c.readAt src s.offset).data.length = 0 := by
      rw [at_]
      by_contra some
      exact passes ⟨below, fails, some⟩
    have ok : ¬((c.readAt src s.offset).ret < 0 ∧ ¬mtdIsBitflip (c.readAt src s.offset).ret) := by
      rw [at_]
      exact fun failed => fails ⟨below, .inl failed⟩
    dsimp only
    rw [if_neg ok, if_pos none]

/-- The copy fails exactly if a read or a write does. -/
theorem copyPages_ret (dest : Nat) (maxOffset : Int) (n : Nat) (at_ : s.offset = c.offsetAt src k) :
    (c.copyPages src dest maxOffset n s).1 = 0 ∧ (∀ j < n, c.FailsAt src dest maxOffset (k + j) →
        ∃ i < j, ¬c.PassesAt src dest maxOffset (k + i)) ∨
      (c.copyPages src dest maxOffset n s).1 ≠ 0 ∧
        ∃ j < n, c.FailsAt src dest maxOffset (k + j) ∧ ∀ i < j, c.PassesAt src dest maxOffset (k + i) := by
  induction n generalizing k s with
  | zero => exact .inl ⟨rfl, fun j never => absurd never (Nat.not_lt_zero j)⟩
  | succ n ih =>
    by_cases fails : c.FailsAt src dest maxOffset k
    · exact .inr ⟨Int.ne_of_lt (copyPages_fail at_ fails), 0, Nat.succ_pos n, fails, fun i never => absurd never (Nat.not_lt_zero i)⟩
    · by_cases passes : c.PassesAt src dest maxOffset k
      · obtain ⟨step, next⟩ := copyPages_pass (n := n) at_ passes
        rw [step]
        rcases ih next with ⟨done, none⟩ | ⟨failed, j, less, there, before⟩
        · refine .inl ⟨done, fun j less there => ?_⟩
          cases j with
          | zero => exact absurd there fails
          | succ j =>
            obtain ⟨i, earlier, stops⟩ := none j (by omega) (by rwa [Nat.add_assoc, Nat.add_comm 1])
            exact ⟨i + 1, by omega, by rwa [Nat.add_comm i, ← Nat.add_assoc]⟩
        · refine .inr ⟨failed, j + 1, by omega, by rwa [Nat.add_comm j, ← Nat.add_assoc], fun i less => ?_⟩
          cases i with
          | zero => exact passes
          | succ i =>
            rw [Nat.add_comm i, ← Nat.add_assoc]
            exact before i (by omega)
      · refine .inl ⟨by rw [copyPages_stop at_ fails passes], fun j _ there => ?_⟩
        cases j with
        | zero => exact absurd there fails
        | succ j => exact ⟨0, Nat.succ_pos j, passes⟩

/-- What is written has no OOB bytes, and stays written. -/
theorem copyPages_written (n : Nat) (s : Copy) :
    (∀ w ∈ s.written, w ∈ (c.copyPages src dest maxOffset n s).2) ∧
      ∀ w ∈ (c.copyPages src dest maxOffset n s).2, w ∈ s.written ∨ w.oob = [] := by
  induction n generalizing s with
  | zero => exact ⟨fun _ member => member, fun _ member => .inl member⟩
  | succ n ih =>
    have same : (∀ w ∈ s.written, w ∈ s.written) ∧ ∀ w ∈ s.written, w ∈ s.written ∨ w.oob = [] :=
      ⟨fun _ member => member, fun _ member => .inl member⟩
    rw [copyPages]
    dsimp only
    split
    · exact same
    · split
      · exact same
      · split
        · exact same
        · split
          · exact same
          · obtain ⟨kept, bare⟩ := ih (c.copied src dest s)
            refine ⟨fun w member => kept w (List.mem_append_left _ member), fun w member => ?_⟩
            rcases bare w member with member | none
            · rcases List.mem_append.mp member with earlier | here
              · exact .inl earlier
              · rw [List.mem_singleton.mp here]
                exact .inr rfl
            · exact .inr none

/-- A page that is reached and read as a whole is written. -/
theorem mem_copyPages (at_ : s.offset = c.offsetAt src k) (less : j < n)
    (passes : ∀ i ≤ j, c.PassesAt src dest maxOffset (k + i))
    (whole : (c.readAt src (c.offsetAt src (k + j))).data.length = c.pgSize) :
    ⟨dest + c.offsetAt src (k + j), (c.readAt src (c.offsetAt src (k + j))).data, []⟩ ∈
      (c.copyPages src dest maxOffset n s).2 := by
  induction j generalizing k n s with
  | zero =>
    obtain ⟨n, rfl⟩ := Nat.exists_eq_add_of_lt less
    simp only [Nat.add_zero] at whole ⊢
    rw [Nat.zero_add, (copyPages_pass at_ (passes 0 (Nat.le_refl 0))).1]
    apply (copyPages_written n _).1
    refine List.mem_append_right _ (List.mem_singleton.mpr ?_)
    rw [← at_] at whole ⊢
    rw [List.take_left' whole]
    rfl
  | succ j ih =>
    obtain ⟨n, rfl⟩ : ∃ m, n = m + 1 := ⟨n - 1, by omega⟩
    have shift : ∀ i, k + (i + 1) = k + 1 + i := fun i => by omega
    obtain ⟨step, next⟩ := copyPages_pass (n := n) at_ (passes 0 (Nat.zero_le _))
    rw [step, shift]
    refine ih next (by omega) (fun i le => ?_) (shift j ▸ whole)
    rw [← shift]
    exact passes (i + 1) (by omega)

end Rounds

/-! ### When the copy is complete -/

section Complete

variable {c : Chip} {src dest i : Nat} {maxOffset : Int} {dataBuf oobBuf : List UInt8} {destBlk srcBlk : Nat}

/-- Through whole pages the offset is that of a page, and every round passes. -/
theorem BarePages.passes (bare : c.BarePages src maxOffset) (fine : ¬c.Fails src dest maxOffset)
    (inside : i < c.pages) (below : (↑(i * c.pgSize) : Int) < maxOffset) :
    ∀ j ≤ i, c.offsetAt src j = j * c.pgSize ∧ c.PassesAt src dest maxOffset j := by
  intro j
  induction j using Nat.strong_induction_on with
  | _ j ih =>
    intro le
    have here : c.offsetAt src j = j * c.pgSize := by
      cases j with
      | zero => rw [offsetAt, Nat.zero_mul]
      | succ j =>
        have low : j * c.pgSize ≤ i * c.pgSize := Nat.mul_le_mul_right _ (by omega)
        have whole := (bare j (by omega) (by omega)).1
        rw [offsetAt, (ih j (Nat.lt_succ_self j) (by omega)).1, whole, Nat.succ_mul]
    have low : j * c.pgSize ≤ i * c.pgSize := Nat.mul_le_mul_right _ le
    have belowJ : (c.offsetAt src j : Int) < maxOffset := by
      rw [here]
      omega
    refine ⟨here, belowJ, fun fails => fine ⟨j, by omega, fails, fun k less => (ih k less (by omega)).2⟩, ?_⟩
    rw [here, (bare j (by omega) (by omega)).1]
    exact Nat.ne_of_gt c.paged

/-- The copy of a block is complete exactly if a read or a write fails, or every page below `maxOffset` is read as a
whole and has no OOB bytes to copy. -/
theorem copyComplete_iff : c.CopyComplete dataBuf oobBuf destBlk srcBlk maxOffset ↔
    c.Fails (srcBlk <<< c.blkShift) (destBlk <<< c.blkShift) maxOffset ∨
      c.BarePages (srcBlk <<< c.blkShift) maxOffset := by
  have start : (⟨0, dataBuf, oobBuf, []⟩ : Copy).offset = c.offsetAt (srcBlk <<< c.blkShift) 0 := rfl
  have returned := copyPages_ret (destBlk <<< c.blkShift) maxOffset c.pages start
  simp only [Nat.zero_add] at returned
  constructor
  · intro complete
    rcases returned with ⟨done, -⟩ | ⟨-, fails⟩
    · refine .inr fun i inside below => ?_
      obtain ⟨whole, member⟩ := complete done i inside below
      rcases (copyPages_written c.pages _).2 _ member with never | none
      · exact absurd never List.not_mem_nil
      · exact ⟨whole, none⟩
    · exact .inl fails
  · intro condition done i inside below
    rcases returned with ⟨-, fine⟩ | ⟨failed, -⟩
    · have fine : ¬c.Fails (srcBlk <<< c.blkShift) (destBlk <<< c.blkShift) maxOffset := by
        rintro ⟨k, less, fails, passes⟩
        obtain ⟨j, earlier, stops⟩ := fine k less fails
        exact stops (passes j earlier)
      have bare := condition.resolve_left fine
      have passes := bare.passes fine inside below
      have offset := (passes i (Nat.le_refl i)).1
      have whole := (bare i inside below).1
      have member := mem_copyPages (s := ⟨0, dataBuf, oobBuf, []⟩) (k := 0) start inside
        (fun j le => by rw [Nat.zero_add]; exact (passes j le).2) (by rw [Nat.zero_add, offset]; exact whole)
      rw [Nat.zero_add, offset] at member
      refine ⟨whole, ?_⟩
      rw [(bare i inside below).2]
      exact member
    · exact absurd done failed

end Complete

/-- A chip of blocks with two pages of two bytes, and a byte of OOB data at each. -/
def tagged : Chip where
  blkSize := 4
  blkShift := 2
  pgSize := 2
  pgShift := 1
  oobsize := 2
  read addr ooblen := ⟨0, [addr.toUInt8, 7], List.replicate ooblen 0x42⟩
  write _ := 0
  paged := Nat.two_pos
  dataFits _ _ := Nat.le_refl 2
  oobFits _ _ := (List.length_replicate ..).le

/-- Of them the OOB bytes are lost. -/
theorem tagged_incomplete : ¬tagged.CopyComplete [0, 0] [0, 0] 1 0 4 := by
  intro complete
  have member := (complete (by decide) 0 (by decide) (by decide)).2
  exact absurd member (by decide)

end Chip

end FirewallCore.Mtd.NandCopy
