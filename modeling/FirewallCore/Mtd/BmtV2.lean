import Mathlib.Algebra.Order.Ring.Nat
import Mathlib.Data.Nat.Count
import FirewallCore.Lib.Run

/-!
Bad block management of MediaTek NAND flash, version 2
(`drivers/mtd/nand/mtk_bmt_v2.c`, with the controls of `mtk_bmt.c`).

Logical blocks are mapped through `bb_tbl`. The spare blocks behind the data
are the pool, listed in `bmt_tbl`; one of them holds both tables. A block that
goes bad at runtime is replaced by one of the pool.

Of the flash, only what a search for the tables finds in a block is kept. An
access outside of a table is no step: `none`.
-/

namespace FirewallCore.Mtd.BmtV2

open FirewallCore.Lib

/-- The marks of the pool. -/
inductive Mapped where
  | noMapped
  | normalMapped
  | bmtMapped
  | unknown (mark : Nat)
  deriving DecidableEq, Repr

/-- `struct bbmt`. -/
structure Bbmt where
  block : Nat
  mapped : Mapped
  deriving DecidableEq, Repr

/-- `struct bbbt`: both tables. The signature and the version are those of every table that is written. -/
structure Bbbt where
  bbTbl : List Nat
  bmtTbl : List Bbmt
  deriving DecidableEq, Repr

/-- The chip and its settings. -/
structure Chip where
  /-- All blocks of the chip, a `u16`. -/
  totalBlks : Nat
  /-- `mediatek,bmt-pool-size`. -/
  bmtPoolSize : Nat
  /-- `mediatek,bmt-table-size`. -/
  tableSize : Nat
  blkShift : Nat
  /-- `mediatek,bmt-remap-range`. -/
  remapRange : List (Nat × Nat)
  /-- The blocks that cannot be read or have a bad block mark. -/
  bad : Nat → Bool

namespace Chip

variable (c : Chip)

/-- `pmt_block`, which is also the number of blocks of the MTD. -/
def pmtBlock : Nat := (((c.totalBlks : Int) - c.bmtPoolSize - 2) % 2 ^ 16).toNat

/-- `pool_lba`. -/
def poolLba : Nat := (c.pmtBlock + 2) % 2 ^ 16

/-- `bb_max`. -/
def bbMax : Nat := c.totalBlks * 2 / 100

/-- `mapping_block_in_range`. -/
def inRange (block : Nat) : Bool :=
  let addr := block * 2 ^ c.blkShift % 2 ^ 32
  c.remapRange.isEmpty || c.remapRange.any fun range => range.1 ≤ addr && addr < range.2

end Chip

/-! ### Scanning -/

/-- `find_valid_block` with the number of bad blocks that it may still skip. -/
def findValidBlock (c : Chip) (skips block : Nat) : Nat :=
  if block ≥ c.totalBlks then 0
  else if c.bad block then
    match skips with
    | 0 => 0
    | skips + 1 => findValidBlock c skips (block + 1)
  else block

/-- The loop of `scan_bad_blocks` over the data: the next entries of `bb_tbl`. -/
def scanData (c : Chip) : Nat → Nat → Option (List Nat)
  | 0, _ => some []
  | n + 1, prev =>
    match findValidBlock c c.bbMax (prev + 1) with
    | 0 => none
    | block => (scanData c n block).map (block :: ·)

/-- The loop of `scan_bad_blocks` over the pool. -/
def scanPool (c : Chip) : Nat → Nat → List Nat
  | 0, _ => []
  | fuel + 1, block =>
    match findValidBlock c c.bbMax block with
    | 0 => []
    | found => found :: scanPool c fuel (found + 1)

/-- The pool as it is at first: the last block of it is for the tables. -/
def newPool (blocks : List Nat) : List Bbmt :=
  blocks.dropLast.map (⟨·, .noMapped⟩) ++ (blocks.getLast?.toList.map (⟨·, .bmtMapped⟩))

/-- `scan_bad_blocks`: the tables and the index of the block that is to hold them. -/
def scanBadBlocks (c : Chip) : Option (Bbbt × Nat) := do
  let rest ← scanData c (c.poolLba - 1) 0
  let data := 0 :: rest
  let poolPba := data.getLast (by simp) + 1
  let pool := scanPool c c.totalBlks poolPba
  if poolPba + 2 ≥ c.totalBlks ∨ pool = [] then none
  else if data.length > c.tableSize ∨ pool.length > c.tableSize then none
  else
    let bbTbl := data ++ List.replicate (c.tableSize - data.length) 0xffff
    let bmtTbl := newPool pool ++ List.replicate (c.tableSize - pool.length) ⟨0, .noMapped⟩
    some (⟨bbTbl, bmtTbl⟩, pool.length - 1)

/-! ### The flash -/

/-- What is found in a block. -/
inductive Contents where
  | unreadable
  /-- Something without the signatures. -/
  | other
  | table (bbt : Bbbt)

/-- The contents of each block. -/
abbrev Flash := Nat → Contents

def Flash.write (flash : Flash) (block : Nat) (contents : Contents) : Flash :=
  Function.update flash block contents

/-- How an erasure and a write of a block end. One that fails leaves any contents. -/
structure Attempt where
  eraseFails : Option Contents
  writeFails : Option Contents

/-- An attempt that succeeds. -/
def Attempt.succeeds : Attempt := ⟨none, none⟩

/-- The tables with the block of a pool entry given up. -/
def Bbbt.giveUp (bbt : Bbbt) (n : Nat) (entry : Bbmt) : Bbbt :=
  { bbt with bmtTbl := bbt.bmtTbl.set n { entry with block := 0 } }

/-- `upload_bmt` into the entry before the given one, or one before that. Each entry is tried once. -/
def uploadBmt (attempt : Nat → Attempt) : Nat → Bbbt → Flash → Option (Bbbt × Flash × Nat)
  | 0, bbt, flash => some (bbt, flash, 0xffff)
  | n + 1, bbt, flash =>
    match bbt.bmtTbl[n]? with
    | none => none
    | some entry =>
      if entry.mapped = .normalMapped then some (bbt, flash, 0xffff)
      else
        match (attempt n).eraseFails with
        | some left => uploadBmt attempt n (bbt.giveUp n entry) (flash.write entry.block left)
        | none =>
          match (attempt n).writeFails with
          | some left => uploadBmt attempt n (bbt.giveUp n entry) (flash.write entry.block left)
          | none => some (bbt, flash.write entry.block (.table bbt), n)

/-! ### Starting -/

/-- The tables and the index in memory, and the flash. -/
structure State where
  bbt : Bbbt
  bmtBlkIdx : Nat
  flash : Flash

/-- `get_bmt_index`. -/
def getBmtIndex : List Bbmt → Nat → Nat
  | [], _ => 0
  | entry :: later, i =>
    if entry.block = 0 then 0
    else if entry.mapped = .bmtMapped then i
    else getBmtIndex later (i + 1)

/-- The search of `mtk_bmt_init_v2` for tables, downwards from a block: the first valid ones, if their index
is not 0. -/
def searchBmt (c : Chip) (flash : Flash) : Nat → Option (Bbbt × Nat)
  | 0 => none
  | block + 1 =>
    if block < c.poolLba then none
    else
      match flash block with
      | .table bbt =>
        match getBmtIndex bbt.bmtTbl 0 with
        | 0 => none
        | i => some (bbt, i)
      | _ => searchBmt c flash block

/-- `mtk_bmt_init_v2`: the state and whether the tables were found. `none` when it fails. -/
def init (c : Chip) (attempt : Nat → Attempt) (flash : Flash) : Option (State × Bool) :=
  match searchBmt c flash c.totalBlks with
  | some (bbt, i) => some (⟨bbt, i, flash⟩, true)
  | none =>
    if c.totalBlks > c.tableSize + c.tableSize * 2 / 100 then none
    else do
      let (bbt, idx) ← scanBadBlocks c
      let (bbt, flash, n) ← uploadBmt attempt (idx + 1) bbt flash
      if n = 0xffff then none else some (⟨bbt, n, flash⟩, false)

/-! ### Remapping -/

/-- `find_valid_block_in_pool`: the entry that is free. -/
def freeEntry (pool : List Bbmt) : Option Nat :=
  pool.findIdx? fun entry => entry.block ≠ 0 ∧ entry.mapped = .noMapped

/-- `remap_block_v2`: whether the block was remapped. The copy leaves any contents in its new block. -/
def remapBlock (attempt : Nat → Attempt) (copied : Contents) (s : State) (block : Nat) : Option (State × Bool) :=
  match freeEntry (s.bbt.bmtTbl.take s.bmtBlkIdx) with
  | none => if s.bmtBlkIdx ≤ s.bbt.bmtTbl.length then some (s, false) else none
  | some k =>
    match s.bbt.bmtTbl[k]? with
    | none => none
    | some entry =>
      if block < s.bbt.bbTbl.length then do
        let bbt : Bbbt := ⟨s.bbt.bbTbl.set block entry.block,
          s.bbt.bmtTbl.set k { entry with mapped := .normalMapped }⟩
        let (bbt, flash, n) ← uploadBmt attempt (s.bmtBlkIdx + 1) bbt (s.flash.write entry.block copied)
        some (⟨bbt, n, flash⟩, true)
      else none

/-- `mtk_bmt_remap_block`. -/
def mtkBmtRemapBlock (c : Chip) (attempt : Nat → Attempt) (copied : Contents) (s : State) (block : Nat) :
    Option (State × Bool) :=
  if c.inRange block then remapBlock attempt copied s block else some (s, false)

/-- `unmap_block_v2`, which the controls `repair` and `mark_good` call. -/
def unmapBlock (attempt : Nat → Attempt) (s : State) (block : Nat) : Option (State × Bool) :=
  if block < s.bbt.bbTbl.length then do
    let bbt : Bbbt := { s.bbt with bbTbl := s.bbt.bbTbl.set block block }
    let (bbt, flash, n) ← uploadBmt attempt (s.bmtBlkIdx + 1) bbt s.flash
    some (⟨bbt, n, flash⟩, true)
  else none

/-- `get_mapping_block_index_v2`. -/
def getMappingBlockIndex (c : Chip) (bbt : Bbbt) (block : Nat) : Nat :=
  if block ≥ c.poolLba then block
  else if !c.inRange block then block
  else bbt.bbTbl.getD block 0

/-- The calls that change the mapping. -/
inductive Op where
  | remap (block : Nat) (attempt : Nat → Attempt) (copied : Contents)
  | unmap (block : Nat) (attempt : Nat → Attempt)

def step (c : Chip) (s : State) : Op → Option (State × Bool)
  | .remap block attempt copied => mtkBmtRemapBlock c attempt copied s block
  | .unmap block attempt => unmapBlock attempt s block

end FirewallCore.Mtd.BmtV2
