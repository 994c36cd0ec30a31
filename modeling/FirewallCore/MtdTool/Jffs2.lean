import FirewallCore.Lib.Checked
import FirewallCore.Lib.Walks

/-!
JFFS2 nodes and the search through an eraseblock of them (`jffs2.h`, `mtd_parse_jffs2data` in
`jffs2.c`).

The program keeps the numbers that it found as `int`, assigned from and compared as 32 unsigned bits.
-/

namespace FirewallCore.MtdTool.Jffs2

open FirewallCore.Lib FirewallCore.Lib.Walks

/-! ### Nodes -/

def JFFS2_MAGIC_BITMASK : Nat := 0x1985

def JFFS2_NODETYPE_DIRENT : Nat := 0xe001

/-- `sizeof(struct jffs2_unknown_node)` -/
def unknownSize : Nat := 12

/-- `sizeof(struct jffs2_raw_dirent)` -/
def direntSize : Nat := 40

/-- `PAD`, in 32 bits. -/
def PAD (x : Nat) : Nat := (x + 3) % 2 ^ 32 / 4 * 4

/-! ### The search -/

/-- The statics `target_ino`, `last_ino` and `last_version`. -/
structure Found where
  targetIno : Nat
  lastIno : Nat
  lastVersion : Nat
  deriving DecidableEq, Repr

/-- The loop has not ended within the rounds that are counted. -/
inductive Unfinished where
  | unfinished
  deriving DecidableEq, Repr

/-- `strncmp` of memory with a string, which is given without the zero at its end. -/
def strncmp : List UInt8 → List UInt8 → Nat → Checked Unfinished Int
  | _, _, 0 => .ok 0
  | [], _, _ + 1 => .error .outside
  | c :: _, [], _ + 1 => .ok c.toNat
  | c :: cs, d :: ds, n + 1 => if c = d then strncmp cs ds n else .ok (c.toNat - d.toNat)

/-- The entry is in the root directory and has the right name. -/
def isTarget (e : Endian) (buf dir : List UInt8) (de : Nat) : Checked Unfinished Bool :=
  if dir = [] then .ok false
  else do
    let pino ← readWord e buf (de + 12)
    if pino ≠ 1 then .ok false
    else do
      let nsize ← readNumber e 1 buf (de + 28)
      let order ← strncmp (buf.drop (de + 40)) dir nsize
      .ok (decide (order = 0))

def takeDirent (e : Endian) (buf dir : List UInt8) (de : Nat) (s : Found) : Checked Unfinished Found := do
  let target ← isTarget e buf dir de
  let ino ← readWord e buf (de + 20)
  let version ← readWord e buf (de + 16)
  .ok ⟨if target then ino else s.targetIno, if s.lastIno < ino then ino else s.lastIno,
    if s.lastVersion < version then version else s.lastVersion⟩

def takeNode (e : Endian) (buf dir : List UInt8) (ofs nodetype : Nat) (s : Found) :
    Checked Unfinished Found :=
  if nodetype = JFFS2_NODETYPE_DIRENT then takeDirent e buf dir ofs s else .ok s

def parseLoop (e : Endian) (buf dir : List UInt8) : Nat → Nat → Found → Checked Unfinished Found
  | 0, _, _ => .error (.error .unfinished)
  | fuel + 1, ofs, s =>
    if ofs < buf.length then do
      let magic ← readNumber e 2 buf ofs
      if magic ≠ 0x1985 then .ok s
      else do
        let totlen ← readWord e buf (ofs + 4)
        let nodetype ← readNumber e 2 buf (ofs + 2)
        let s ← takeNode e buf dir ofs nodetype s
        parseLoop e buf dir fuel ((ofs + PAD totlen) % 2 ^ 32) s
    else .ok s

/-- `mtd_parse_jffs2data`, with a number of rounds. -/
def mtdParseJffs2data (e : Endian) (buf dir : List UInt8) (fuel : Nat) (s : Found) :
    Checked Unfinished Found :=
  parseLoop e buf dir fuel 0 s

/-! ### Comparing names -/

section Names

variable {mem dir : List UInt8} {n : Nat}

/-- What the comparison takes for the name of a directory: also what the name begins with, and what
goes on after a zero. -/
def Accepts (name dir : List UInt8) : Prop := name <+: dir ∨ dir ++ [0] <+: name

instance : Decidable (Accepts mem dir) := inferInstanceAs (Decidable (_ ∨ _))

/-- The comparison goes on behind the memory exactly when all of that agrees. -/
theorem outside_strncmp_iff : Outside (strncmp mem dir n) ↔ mem.length < n ∧ mem <+: dir := by
  induction mem, dir, n using strncmp.induct with
  | case1 => simp [strncmp]
  | case2 dir n => simp [strncmp]
  | case3 c cs n => simp [strncmp]
  | case4 c cs n ds ih => simp [strncmp, ih, List.cons_prefix_cons]
  | case5 c cs d ds n differs => simp [strncmp, differs, List.cons_prefix_cons]

theorem strncmp_ne_error : strncmp mem dir n ≠ .error (.error .unfinished) := by
  induction mem, dir, n using strncmp.induct with
  | case1 => simp [strncmp]
  | case2 dir n => simp [strncmp]
  | case3 c cs n => simp [strncmp]
  | case4 c cs n ds ih => simpa [strncmp] using ih
  | case5 c cs d ds n differs => simp [strncmp, differs]

theorem strncmp_spec (inside : n ≤ mem.length) :
    ∃ order, strncmp mem dir n = .ok order ∧ (order = 0 ↔ Accepts (mem.take n) dir) := by
  unfold Accepts
  induction mem, dir, n using strncmp.induct with
  | case1 => exact ⟨0, by rw [strncmp], by simp⟩
  | case2 dir n => cases inside
  | case3 c cs n =>
    refine ⟨c.toNat, rfl, ?_⟩
    simp only [List.take_succ_cons, List.prefix_nil, reduceCtorEq, List.nil_append, List.cons_prefix_cons,
      List.nil_prefix, ← UInt8.toNat_inj, false_or, and_true, UInt8.toNat_zero]
    omega
  | case4 c cs n ds ih =>
    obtain ⟨order, gives, zero⟩ := ih (Nat.le_of_succ_le_succ inside)
    refine ⟨order, by rw [strncmp, if_pos rfl, gives], ?_⟩
    simpa [List.cons_prefix_cons] using zero
  | case5 c cs d ds n differs =>
    refine ⟨c.toNat - d.toNat, by rw [strncmp, if_neg differs], ?_⟩
    have numbers : (c.toNat : Int) - d.toNat ≠ 0 := by
      intro same
      exact differs (UInt8.toNat_inj.mp (by omega))
    simp [List.cons_prefix_cons, differs, numbers, Ne.symm differs]

end Names

end FirewallCore.MtdTool.Jffs2

/-!
Sequences of JFFS2 nodes, as the kernel lays them out: each starts at a multiple of four bytes, and behind
the last one there is none.
-/

namespace FirewallCore.MtdTool.Jffs2

open FirewallCore.Lib

/-- The bytes up to the next multiple of four. -/
def gap (length : Nat) : Nat := (length + 3) / 4 * 4 - length

/-- The bytes of a node, in which its length and that of a name are right. -/
structure IsNode (e : Endian) (node : List UInt8) : Prop where
  magic : e.numberAt node 0 2 = JFFS2_MAGIC_BITMASK
  totlen : e.numberAt node 4 4 = node.length
  header : unknownSize ≤ node.length
  dirent : e.numberAt node 2 2 = JFFS2_NODETYPE_DIRENT →
    node.length = direntSize + e.numberAt node 28 1

/-- The nodes of a buffer. The bytes behind a node may be missing at the end of the buffer. -/
inductive IsSequence (e : Endian) : List UInt8 → List (List UInt8) → Prop where
  | free {rest : List UInt8} (free : e.numberAt rest 0 2 ≠ JFFS2_MAGIC_BITMASK) : IsSequence e rest []
  | node {node padding rest : List UInt8} {nodes : List (List UInt8)} (isNode : IsNode e node)
      (padded : padding.length = gap node.length ∨ padding.length < gap node.length ∧ rest = [])
      (later : IsSequence e rest nodes) : IsSequence e (node ++ padding ++ rest) (node :: nodes)

/-- A directory entry. -/
structure Entry where
  pino : Nat
  version : Nat
  ino : Nat
  name : List UInt8
  deriving DecidableEq, Repr

def entryOf (e : Endian) (node : List UInt8) : Entry :=
  ⟨e.numberAt node 12 4, e.numberAt node 16 4, e.numberAt node 20 4, (node.drop 40).take (e.numberAt node 28 1)⟩

/-- The directory entries among nodes. -/
def entries (e : Endian) (nodes : List (List UInt8)) : List Entry :=
  (nodes.filter fun node => e.numberAt node 2 2 = JFFS2_NODETYPE_DIRENT).map (entryOf e)

section Sequences

variable {e : Endian} {buf node padding rest : List UInt8} {nodes nodes' : List (List UInt8)} {n : Nat}

theorem numberAt_nil {pos size : Nat} : e.numberAt [] pos size = 0 := by
  rw [Endian.numberAt, List.drop_nil, List.take_nil]
  cases e <;> rfl

theorem PAD_eq (small : n < 2 ^ 31) : PAD n = n + gap n := by
  unfold PAD gap
  omega

/-- A field of a node at the start of a buffer. -/
theorem IsNode.numberAt_append (isNode : IsNode e node) {pos size : Nat} (field : pos + size ≤ unknownSize) :
    e.numberAt (node ++ padding ++ rest) pos size = e.numberAt node pos size := by
  rw [List.append_assoc]
  exact numberAt_append_left (field.trans isNode.header)

/-- A buffer has one sequence of nodes. -/
theorem IsSequence.unique (one : IsSequence e buf nodes) (other : IsSequence e buf nodes') : nodes = nodes' := by
  induction one generalizing nodes' with
  | @free rest free =>
    cases other with
    | free => rfl
    | node isNode _ _ =>
      rw [isNode.numberAt_append (by decide)] at free
      exact absurd isNode.magic free
  | @node node padding rest nodes isNode padded later ih =>
    generalize buf_eq : node ++ padding ++ rest = buf at other
    cases other with
    | free free =>
      rw [← buf_eq, isNode.numberAt_append (by decide)] at free
      exact absurd isNode.magic free
    | @node node' padding' rest' nodes' isNode' padded' later' =>
      have length : node.length = node'.length := by
        have read : e.numberAt (node ++ padding ++ rest) 4 4 = node.length := by
          rw [isNode.numberAt_append (by decide), isNode.totlen]
        rw [← read, buf_eq, isNode'.numberAt_append (by decide), isNode'.totlen]
      rw [List.append_assoc, List.append_assoc] at buf_eq
      obtain ⟨rfl, behind⟩ := List.append_inj buf_eq length
      have same : rest = rest' := by
        have lengths := congrArg List.length behind
        rw [List.length_append, List.length_append] at lengths
        rcases padded with whole | ⟨short, rfl⟩
        · rcases padded' with whole' | ⟨short', rfl⟩
          · exact (List.append_inj behind (whole.trans whole'.symm)).2
          · rw [List.length_nil] at lengths
            omega
        · rcases padded' with whole' | ⟨short', rfl⟩
          · rw [List.length_nil] at lengths
            omega
          · rfl
      subst same
      rw [ih later']

/-- Erased flash has no nodes. -/
theorem isSequence_erased (n : Nat) : IsSequence e (List.replicate n 0xff) [] := by
  refine .free ?_
  have first : (List.replicate n (0xff : UInt8)).take 2 = List.replicate (min 2 n) 0xff := List.take_replicate
  have few : min 2 n = 0 ∨ min 2 n = 1 ∨ min 2 n = 2 := by omega
  rw [Endian.numberAt, List.drop_zero, first]
  rcases few with none | one | two
  · rw [none]
    cases e <;> decide
  · rw [one]
    cases e <;> decide
  · rw [two]
    cases e <;> decide

theorem isSequence_nil : IsSequence e [] nodes ↔ nodes = [] := by
  have free : IsSequence e [] [] := .free (by rw [numberAt_nil]; decide)
  constructor
  · exact fun sequence => sequence.unique free
  · rintro rfl
    exact free

end Sequences

end FirewallCore.MtdTool.Jffs2
