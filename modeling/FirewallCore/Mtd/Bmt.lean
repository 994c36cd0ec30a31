import FirewallCore.Mtd.BmtV2

/-!
Reading, writing and erasing through the bad block management of MediaTek NAND flash
(`mtk_bmt.c`), with the back ends `bbt` (`mtk_bmt_bbt.c`) and `v2` (`mtk_bmt_v2.c`).

The pages of the chip are kept by physical block and page. A step of the machine is the
start of a call or one round of its loop; how the operations of the chip end comes with
the step. Of OOB data nothing is kept.

`written` is not in the source: it records for each logical page what was last written
there successfully since its block was last to be erased.
-/

namespace FirewallCore.Mtd.Bmt

open FirewallCore.Lib

/-- The pages of the chip, by physical block and page. -/
abbrev Pages (δ : Type) := Nat → Nat → δ

/-- How the copy of a page ends. -/
inductive CopyResult (δ : Type) where
  | copied
  | unreadable
  | notWritten (left : δ)

/-- What the chip does during a remapping. -/
structure RemapEnv (δ : Type) where
  /-- What a failed erasure of the new block leaves in it. -/
  eraseFails : Option (Nat → δ) := none
  copy : Nat → CopyResult δ := fun _ => .copied
  /-- What is in the blocks that tables are written to, afterwards. -/
  tables : Pages δ
  /-- How the attempts of `upload_bmt` end. -/
  attempt : Nat → BmtV2.Attempt := fun _ => .succeeds

section Chip

variable {δ : Type}

/-- An erasure of a block; one that fails leaves any contents. -/
def eraseBlock (blank : δ) (fails : Option (Nat → δ)) (pages : Pages δ) (block : Nat) : Pages δ :=
  Function.update pages block (fails.getD fun _ => blank)

/-- The loop of `bbt_nand_copy` over the pages from `i` on. -/
def nandCopy (copy : Nat → CopyResult δ) (dest src : Nat) : Nat → Nat → Pages δ → Pages δ
  | 0, _, pages => pages
  | n + 1, i, pages =>
    match copy i with
    | .copied =>
      nandCopy copy dest src n (i + 1)
        (Function.update pages dest (Function.update (pages dest) i (pages src i)))
    | .unreadable => pages
    | .notWritten left => Function.update pages dest (Function.update (pages dest) i left)

/-- A write of tables, whether it succeeds or not. -/
def writeTables (tables : Pages δ) (blocks : List Nat) (pages : Pages δ) : Pages δ :=
  fun block => if block ∈ blocks then tables block else pages block

/-- What a read of `n` pages within a block delivers. -/
def readPages (pages : Pages δ) (block offset n : Nat) : List δ :=
  (List.range n).map fun i => pages block (offset + i)

/-- A write of pages within a block. -/
def writePages (pages : Pages δ) (block offset : Nat) (contents : List δ) : Pages δ :=
  Function.update pages block fun i =>
    if offset ≤ i then contents.getD (i - offset) (pages block i) else pages block i

/-- A write of `n` pages within a block that fails. -/
def spoilPages (pages : Pages δ) (block offset n : Nat) (left : Nat → δ) : Pages δ :=
  Function.update pages block fun i =>
    if offset ≤ i ∧ i < offset + n then left i else pages block i

end Chip

/-! ### The back ends -/

/-- What `remap_block` does: the tables in memory, the block that is taken, and the blocks
that tables are written to before and after it is filled. -/
structure Remapped (β : Type) where
  back : β
  newBlock : Nat
  before : List Nat := []
  after : List Nat := []

/-- The functions of a back end. `remapBlock` is `none` for an access outside of a table,
and gives nothing where the source returns false. -/
structure BackEnd (β δ : Type) where
  getMappingBlock : β → Nat → Int
  remapBlock : RemapEnv δ → β → Nat → Nat → Option (Option (Remapped β))

/-- The place of a block. A call ends with an error where `get_mapping_block` is negative. -/
def BackEnd.place {β δ : Type} (be : BackEnd β δ) (back : β) (block : Nat) : Nat :=
  (be.getMappingBlock back block).toNat

/-- The pages after `remap_block`: the new block is erased, and `copyLen` pages are copied
into it. -/
def Remapped.fill {β δ : Type} (r : Remapped β) (blank : δ) (env : RemapEnv δ)
    (mapped copyLen : Nat) (pages : Pages δ) : Pages δ :=
  let pages := writeTables env.tables r.before pages
  let pages := eraseBlock blank env.eraseFails pages r.newBlock
  writeTables env.tables r.after (nandCopy env.copy r.newBlock mapped copyLen 0 pages)

/-- The settings of a chip and its blocks that are marked bad, for the back end `bbt`. -/
structure Bbt where
  totalBlks : Nat
  blkShift : Nat
  remapRange : List (Nat × Nat)
  /-- `bmt_blk_idx`, the block with the table. -/
  bmtBlkIdx : Nat
  bad : Nat → Bool

/-- A 32-bit word as an `int`. -/
def toInt (word : Nat) : Int := if word < 2 ^ 31 then word else (word : Int) - 2 ^ 32

/-- An `int` as a `u16`. -/
def toU16 (i : Int) : Nat := (i % 2 ^ 16).toNat

/-- `mapping_block_in_range`: the range of a block. Without ranges it ends at the number of
blocks, where ranges have addresses. -/
def mappingBlockInRange (s : Bbt) (block : Nat) : Option (Int × Int) :=
  let addr := block * 2 ^ s.blkShift % 2 ^ 32
  if s.remapRange.isEmpty then some (0, s.totalBlks)
  else
    (s.remapRange.find? fun range => range.1 ≤ addr ∧ addr < range.2).map fun range =>
      (toInt range.1, toInt range.2)

/-- The first loop of `get_mapping_block_index_bbt` over `n` blocks from `i` on: the block
where it stops, or what is left of `ofs` and the number of bad blocks. -/
def skipBad (bad : Int → Bool) : Nat → Int → Nat → Nat → Int ⊕ Nat × Nat
  | 0, _, ofs, badBlocks => .inr (ofs, badBlocks)
  | n + 1, i, ofs, badBlocks =>
    if bad i then skipBad bad n (i + 1) ofs (badBlocks + 1)
    else
      match ofs with
      | 0 => .inl i
      | ofs + 1 => skipBad bad n (i + 1) ofs badBlocks

/-- The second loop, downwards from the block before `i`. It stops within the range, which has
as many bad blocks as were counted. -/
def overflowBad (bad : Int → Bool) : Nat → Int → Nat → Nat → Option Int
  | 0, _, _, _ => none
  | n + 1, i, badBlocks, ofs =>
    match badBlocks with
    | 0 => none
    | badBlocks + 1 =>
      if !bad (i - 1) then overflowBad bad n (i - 1) (badBlocks + 1) ofs
      else if badBlocks ≤ ofs then some (i - 1)
      else overflowBad bad n (i - 1) badBlocks ofs

/-- `get_mapping_block_index_bbt`. -/
def getMappingBlockIndexBbt (s : Bbt) (block : Nat) : Int :=
  match mappingBlockInRange s block with
  | none => block
  | some (start, stop) =>
    let start := start / 2 ^ s.blkShift
    let stop := stop / 2 ^ s.blkShift
    let n := (stop - start).toNat
    let isBad i := s.bad (toU16 i)
    match skipBad isBad n start (block - start).toNat 0 with
    | .inl i => i
    | .inr (ofs, badBlocks) => (overflowBad isBad n stop badBlocks ofs).getD block

/-- `remap_block_bbt`. The results of writing the table, of the erasure and of the copy are
not looked at. -/
def remapBlockBbt {δ : Type} (_ : RemapEnv δ) (s : Bbt) (block mapped : Nat) :
    Option (Option (Remapped Bbt)) :=
  match mappingBlockInRange s block with
  | none => some none
  | some _ =>
    let marked := { s with bad := Function.update s.bad mapped true }
    some (some ⟨marked, toU16 (getMappingBlockIndexBbt marked block), [s.bmtBlkIdx], []⟩)

/-- The back end `bbt`. -/
def bbtBackEnd (δ : Type) : BackEnd Bbt δ where
  getMappingBlock := getMappingBlockIndexBbt
  remapBlock := remapBlockBbt

/-- The blocks that `upload_bmt` tries. -/
def uploadBlocks (attempt : Nat → BmtV2.Attempt) : Nat → BmtV2.Bbbt → List Nat
  | 0, _ => []
  | n + 1, bbt =>
    match bbt.bmtTbl[n]? with
    | none => []
    | some entry =>
      if entry.mapped = .normalMapped then []
      else if (attempt n).eraseFails.isSome ∨ (attempt n).writeFails.isSome then
        entry.block :: uploadBlocks attempt n (bbt.giveUp n entry)
      else [entry.block]

/-- `remap_block_v2` behind the check of `mtk_bmt_remap_block`. -/
def remapBlockV2 {δ : Type} (c : BmtV2.Chip) (env : RemapEnv δ) (s : BmtV2.State) (block _mapped : Nat) :
    Option (Option (Remapped BmtV2.State)) :=
  match BmtV2.mtkBmtRemapBlock c env.attempt .other s block with
  | none => none
  | some (_, false) => some none
  | some (s', true) =>
    match BmtV2.freeEntry (s.bbt.bmtTbl.take s.bmtBlkIdx) with
    | none => none
    | some k =>
      match s.bbt.bmtTbl[k]? with
      | none => none
      | some entry =>
        let used := s.bbt.bmtTbl.set k { entry with mapped := .normalMapped }
        some (some ⟨s', entry.block, [],
          uploadBlocks env.attempt (s.bmtBlkIdx + 1) ⟨s.bbt.bbTbl.set block entry.block, used⟩⟩)

/-- The back end `v2`. -/
def v2BackEnd (c : BmtV2.Chip) (δ : Type) : BackEnd BmtV2.State δ where
  getMappingBlock s block := BmtV2.getMappingBlockIndex c s.bbt block
  remapBlock := remapBlockV2 c

/-! ### The calls -/

/-- The settings that the calls read. -/
structure Geometry (δ : Type) where
  pages : Nat
  /-- `bitflip_threshold`, 0 for none. -/
  threshold : Nat
  /-- The contents of an erased page. -/
  blank : δ
  positive : 0 < pages

/-- What `_read_oob` returns: corrected bitflips, `-EUCLEAN`, or another error. -/
inductive ReadResult where
  | bitflips (n : Nat)
  | euclean
  | error
  deriving DecidableEq, Repr

/-- A call that has not returned yet, with the variables of its loop. -/
inductive Call (δ : Type) where
  | idle
  | read (start len : Nat) (got : List δ) (retries : Nat) (failed : Bool) (maxBitflips : Nat)
  | write (dst : Nat) (data : List δ) (retries : Nat)
  | erase (block count : Nat) (retries : Nat)

/-- How the operations of the chip end in one round. -/
structure Round (δ : Type) where
  read : ReadResult := .bitflips 0
  writeFails : Option (Nat → δ) := none
  eraseFails : Option (Nat → δ) := none
  remap : RemapEnv δ

/-- What happens next. -/
inductive Action (δ : Type) where
  | read (start len : Nat)
  | write (dst : Nat) (data : List δ)
  | erase (block count : Nat)
  | round (io : Round δ)

/-- What a call returns; nothing while it is going on. A read gives its bitflips, or
nothing for a negative value, with the pages that it has read. -/
inductive Answer (δ : Type) where
  | none
  | read (start len : Nat) (ret : Option Nat) (got : List δ)
  | write (done : Bool)
  | erase (done : Bool)
  deriving DecidableEq

/-- The tables in memory, the pages, the call under way and what was written. -/
structure State (β δ : Type) where
  back : β
  pages : Pages δ
  call : Call δ := .idle
  written : Nat → Option δ := fun _ => .none

section Calls

variable {β δ : Type} (be : BackEnd β δ) (g : Geometry δ)

/-- The pages of one round: from the page on to the end of its block or of what is asked. -/
def chunk (page len : Nat) : Nat := min (g.pages - page % g.pages) len

/-- `mtk_bmt_remap_block`: the state after it and whether the block was remapped. -/
def remap (env : RemapEnv δ) (s : State β δ) (block mapped copyLen : Nat) :
    Option (State β δ × Bool) :=
  match be.remapBlock env s.back block mapped with
  | none => none
  | some none => some (s, false)
  | some (some r) =>
    some ({ s with back := r.back, pages := r.fill g.blank env mapped copyLen s.pages }, true)

/-- A round of `mtk_bmt_read`. -/
def readRound (io : Round δ) (s : State β δ) (start len : Nat) (got : List δ) (retries : Nat)
    (failed : Bool) (maxBitflips : Nat) : Option (State β δ × Answer δ) :=
  if len ≤ got.length then
    some ({ s with call := .idle },
      .read start len (if failed then .none else some maxBitflips) got)
  else if be.getMappingBlock s.back ((start + got.length) / g.pages) < 0 then
    some ({ s with call := .idle }, .read start len .none got)
  else
    let page := start + got.length
    let block := page / g.pages
    let cur := be.place s.back block
    let read := readPages s.pages cur (page % g.pages) (chunk g page (len - got.length))
    match io.read with
    | .error =>
      match remap be g io.remap s block cur g.pages with
      | .none => .none
      | some (s, done) =>
        if done ∧ retries < 10 then
          some ({ s with call := .read start len got (retries + 1) true maxBitflips }, .none)
        else some ({ s with call := .idle }, .read start len .none got)
    | .euclean => some ({ s with call := .read start len (got ++ read) 0 true maxBitflips }, .none)
    | .bitflips n =>
      let next : Call δ := .read start len (got ++ read) 0 failed (max maxBitflips n)
      if g.threshold ≠ 0 ∧ g.threshold ≤ n then
        match remap be g io.remap s block cur g.pages with
        | .none => .none
        | some (s, _) => some ({ s with call := next }, .none)
      else some ({ s with call := next }, .none)

/-- A round of `mtk_bmt_write`. -/
def writeRound (io : Round δ) (s : State β δ) (dst : Nat) (data : List δ) (retries : Nat) :
    Option (State β δ × Answer δ) :=
  if data = [] then some ({ s with call := .idle }, .write true)
  else if be.getMappingBlock s.back (dst / g.pages) < 0 then
    some ({ s with call := .idle }, .write false)
  else
    let block := dst / g.pages
    let offset := dst % g.pages
    let n := chunk g dst data.length
    let cur := be.place s.back block
    match io.writeFails with
    | .none =>
      some ({ s with
        pages := writePages s.pages cur offset (data.take n)
        written := fun page => if dst ≤ page ∧ page < dst + n then data[page - dst]? else s.written page
        call := .write (dst + n) (data.drop n) 0 }, .none)
    | some left =>
      let spoiled := { s with pages := spoilPages s.pages cur offset n left }
      match remap be g io.remap spoiled block cur offset with
      | .none => .none
      | some (s, done) =>
        if done ∧ retries < 10 then
          some ({ s with call := .write dst data (retries + 1) }, .none)
        else some ({ s with call := .idle }, .write false)

/-- A round of `mtk_bmt_mtd_erase`. -/
def eraseRound (io : Round δ) (s : State β δ) (block count retries : Nat) :
    Option (State β δ × Answer δ) :=
  match count with
  | 0 => some ({ s with call := .idle }, .erase true)
  | count + 1 =>
    if be.getMappingBlock s.back block < 0 then some ({ s with call := .idle }, .erase false)
    else
      let cur := be.place s.back block
      let given : State β δ := { s with
        pages := eraseBlock g.blank io.eraseFails s.pages cur
        written := fun page => if page / g.pages = block then .none else s.written page }
      match io.eraseFails with
      | .none => some ({ given with call := .erase (block + 1) count 0 }, .none)
      | some _ =>
        match remap be g io.remap given block cur 0 with
        | .none => .none
        | some (s, done) =>
          if done ∧ retries < 10 then
            some ({ s with call := .erase block (count + 1) (retries + 1) }, .none)
          else some ({ s with call := .idle }, .erase false)

/-- One step. A call starts when no other one is going on. -/
def step (s : State β δ) (a : Action δ) : Option (State β δ × Answer δ) :=
  match s.call, a with
  | .idle, .read start len => some ({ s with call := .read start len [] 0 false 0 }, .none)
  | .idle, .write dst data => some ({ s with call := .write dst data 0 }, .none)
  | .idle, .erase block count => some ({ s with call := .erase block count 0 }, .none)
  | .read start len got retries failed maxBitflips, .round io =>
    readRound be g io s start len got retries failed maxBitflips
  | .write dst data retries, .round io => writeRound be g io s dst data retries
  | .erase block count retries, .round io => eraseRound be g io s block count retries
  | _, _ => .none

end Calls

end FirewallCore.Mtd.Bmt
