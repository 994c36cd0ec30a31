import FirewallCore.Lib.Walks
import FirewallCore.Mtdsplit.Wfi
import Mathlib.Order.Interval.Finset.Nat

/-!
When the search for a file comes to an end and looks only at bytes of the
eraseblock, and what it finds.

In an eraseblock the search is a walk along the nodes; the eraseblocks that a
search arrives at are those behind skipped ones and ones without the name.
-/

namespace FirewallCore.Mtdsplit

open FirewallCore.Lib FirewallCore.Lib.Walks

/-! ### A node -/

section Node

variable (e : Endian) (buf name : List UInt8) (node : Nat)

/-- A directory entry that is valid. -/
def DirentRight : Prop :=
  e.numberAt buf node 2 = JFFS2_MAGIC_BITMASK ∧ e.numberAt buf (node + 2) 2 = JFFS2_NODETYPE_DIRENT ∧
    e.numberAt buf (node + 20) 4 ≠ 0 ∧
      e.numberAt buf (node + 32) 4 = (crc32 0 ((buf.drop node).take 32)).toNat

instance : Decidable (DirentRight e buf node) := inferInstanceAs (Decidable (_ ∧ _ ∧ _ ∧ _))

/-- The name of an entry begins so. -/
def NameAt (s : List UInt8) : Prop := (buf.drop (node + 40)).take s.length = s

instance (s : List UInt8) : Decidable (NameAt buf node s) := inferInstanceAs (Decidable (_ = _))

/-- What there is at an offset. -/
def nodeAt : Node :=
  if ¬DirentRight e buf node then .invalid
  else if NameAt buf node OPENWRT_NAME then .openwrt
  else if NameAt buf node name then .named
  else .other

/-- What is looked at of the head of an entry is inside of the buffer: each field for which the ones
before are right. -/
structure HeadInside : Prop where
  magic : node + 2 ≤ buf.length
  nodetype : e.numberAt buf node 2 = JFFS2_MAGIC_BITMASK → node + 4 ≤ buf.length
  ino : e.numberAt buf node 2 = JFFS2_MAGIC_BITMASK →
    e.numberAt buf (node + 2) 2 = JFFS2_NODETYPE_DIRENT → node + 24 ≤ buf.length
  nodeCrc : e.numberAt buf node 2 = JFFS2_MAGIC_BITMASK →
    e.numberAt buf (node + 2) 2 = JFFS2_NODETYPE_DIRENT → e.numberAt buf (node + 20) 4 ≠ 0 →
      node + 36 ≤ buf.length

/-- And so is what is looked at of the name of a valid one. -/
structure NodeInside : Prop extends HeadInside e buf node where
  openwrt : DirentRight e buf node → node + 40 + OPENWRT_NAME.length ≤ buf.length
  name : DirentRight e buf node → ¬NameAt buf node OPENWRT_NAME →
    node + 40 + name.length ≤ buf.length

variable {e buf name node}

theorem load_eq_ok {pos size : Nat} {bytes : List UInt8} :
    (load buf pos size : Checked Unfinished (List UInt8)) = .ok bytes ↔
      pos + size ≤ buf.length ∧ (buf.drop pos).take size = bytes := by
  unfold load
  split
  · rename_i inside
    rw [Except.ok.injEq, and_iff_right inside]
  · rename_i outside
    simp only [reduceCtorEq, outside, false_and]

theorem isString_eq_ok {s : List UInt8} {same : Bool} : isString buf (node + 40) s = .ok same ↔
    node + 40 + s.length ≤ buf.length ∧ decide (NameAt buf node s) = same := by
  simp only [isString, bind_eq_ok_iff, load_eq_ok, Except.ok.injEq, and_assoc, exists_and_left,
    exists_eq_left']
  rfl

theorem jffs2DirentValid_eq_ok {valid : Bool} : jffs2DirentValid e buf node = .ok valid ↔
    HeadInside e buf node ∧ decide (DirentRight e buf node) = valid := by
  simp only [jffs2DirentValid, bind_eq_ok_iff, readNumber_eq_ok, and_assoc, exists_and_left,
    exists_eq_left']
  by_cases magic : e.numberAt buf node 2 = JFFS2_MAGIC_BITMASK
  · rw [if_neg (not_not.mpr magic)]
    simp only [bind_eq_ok_iff, readNumber_eq_ok, and_assoc, exists_and_left, exists_eq_left']
    by_cases nodetype : e.numberAt buf (node + 2) 2 = JFFS2_NODETYPE_DIRENT
    · rw [if_neg (not_not.mpr nodetype)]
      simp only [bind_eq_ok_iff, readNumber_eq_ok, and_assoc, exists_and_left, exists_eq_left']
      by_cases ino : e.numberAt buf (node + 20) 4 = 0
      · rw [if_pos ino, Except.ok.injEq, decide_eq_false fun right => right.2.2.1 ino]
        constructor
        · rintro ⟨first, second, third, same⟩
          exact ⟨⟨first, fun _ => by omega, fun _ _ => by omega, fun _ _ set => absurd ino set⟩, same⟩
        · rintro ⟨inside, same⟩
          have third := inside.ino magic nodetype
          exact ⟨by omega, by omega, by omega, same⟩
      · rw [if_neg ino]
        simp only [bind_eq_ok_iff, readNumber_eq_ok, load_eq_ok, Except.ok.injEq, and_assoc,
          exists_and_left, exists_eq_left']
        have check : DirentRight e buf node ↔
            e.numberAt buf (node + 32) 4 = (crc32 0 ((buf.drop node).take 32)).toNat := by
          unfold DirentRight
          rw [and_iff_right magic, and_iff_right nodetype, and_iff_right ino]
        rw [decide_eq_decide.mpr check]
        constructor
        · rintro ⟨first, second, third, crc, all, same⟩
          exact ⟨⟨first, fun _ => by omega, fun _ _ => by omega, fun _ _ _ => by omega⟩, same⟩
        · rintro ⟨inside, same⟩
          have crc := inside.nodeCrc magic nodetype ino
          exact ⟨by omega, by omega, by omega, by omega, by omega, same⟩
    · rw [if_pos nodetype, Except.ok.injEq, decide_eq_false fun right => nodetype right.2.1]
      constructor
      · rintro ⟨first, second, same⟩
        exact ⟨⟨first, fun _ => by omega, fun _ type => absurd type nodetype,
          fun _ type => absurd type nodetype⟩, same⟩
      · rintro ⟨inside, same⟩
        have second := inside.nodetype magic
        exact ⟨by omega, by omega, same⟩
  · rw [if_pos magic, Except.ok.injEq, decide_eq_false fun right => magic right.1]
    constructor
    · rintro ⟨first, same⟩
      exact ⟨⟨first, fun right => absurd right magic, fun right => absurd right magic,
        fun right => absurd right magic⟩, same⟩
    · exact fun ⟨inside, same⟩ => ⟨inside.magic, same⟩

theorem lookAt_eq_ok {found : Node} : lookAt e buf name node = .ok found ↔
    NodeInside e buf name node ∧ nodeAt e buf name node = found := by
  simp only [lookAt, bind_eq_ok_iff, jffs2DirentValid_eq_ok, and_assoc, exists_and_left, exists_eq_left']
  unfold nodeAt
  by_cases right : DirentRight e buf node
  · rw [if_neg (by simp [right]), if_neg (not_not.mpr right)]
    simp only [bind_eq_ok_iff, isString_eq_ok, and_assoc, exists_and_left, exists_eq_left']
    by_cases openwrt : NameAt buf node OPENWRT_NAME
    · rw [if_pos (decide_eq_true openwrt), if_pos openwrt, Except.ok.injEq]
      constructor
      · exact fun ⟨head, inside, same⟩ => ⟨⟨head, fun _ => inside, fun _ other => absurd openwrt other⟩, same⟩
      · exact fun ⟨inside, same⟩ => ⟨inside.toHeadInside, inside.openwrt right, same⟩
    · rw [if_neg (by simp [openwrt]), if_neg openwrt]
      simp only [bind_eq_ok_iff, isString_eq_ok, and_assoc, exists_and_left, exists_eq_left',
        decide_eq_true_eq, Except.ok.injEq]
      constructor
      · exact fun ⟨head, first, inside, same⟩ => ⟨⟨head, fun _ => first, fun _ _ => inside⟩, same⟩
      · exact fun ⟨inside, same⟩ =>
          ⟨inside.toHeadInside, inside.openwrt right, inside.name right openwrt, same⟩
  · rw [if_pos (decide_eq_false right), if_pos right, Except.ok.injEq]
    constructor
    · exact fun ⟨head, same⟩ => ⟨⟨head, fun valid => absurd valid right, fun valid => absurd valid right⟩, same⟩
    · exact fun ⟨inside, same⟩ => ⟨inside.toHeadInside, same⟩

end Node

/-! ### An eraseblock -/

section Walk

variable (e : Endian) (buf name : List UInt8)

/-- An offset, unless it is behind the buffer. -/
def inBlock (blockOffs : Nat) : Option Nat := if blockOffs < buf.length then some blockOffs else none

/-- Where the search goes on behind an offset. -/
def leadsTo (node : Nat) : Option Nat :=
  match nodeAt e buf name node with
  | .invalid => inBlock buf ((node + 4) % 2 ^ 32)
  | .named => none
  | _ => inBlock buf (nextNode e buf node)

/-- The search leads to no offset a second time, and looks only at bytes of the buffer. -/
structure BlockGood : Prop where
  never : NeverBack (leadsTo e buf name) (inBlock buf 0)
  inside : ∀ node, Visits (leadsTo e buf name) (inBlock buf 0) node → NodeInside e buf name node

/-- How the search ends: the first entry with the name, and whether one for OpenWrt is before it. -/
structure EndsWith (start : Option Nat) (valid : Bool) (block : BlockEnd) : Prop where
  named : ∀ node, block.named = some node ↔
    Visits (leadsTo e buf name) start node ∧ nodeAt e buf name node = .named
  valid : block.valid = true ↔ valid = true ∨
    ∃ node, Visits (leadsTo e buf name) start node ∧ nodeAt e buf name node = .openwrt

variable {e buf name} {start : Option Nat} {blockOffs fuel fuel' : Nat} {valid : Bool} {block block' : BlockEnd}

theorem inBlock_some (inside : blockOffs < buf.length) : inBlock buf blockOffs = some blockOffs := if_pos inside

theorem inBlock_none (behind : ¬blockOffs < buf.length) : inBlock buf blockOffs = none := if_neg behind

/-- The walk has finitely many places. -/
theorem finite_nodes : {x | ∃ n, place (leadsTo e buf name) (inBlock buf blockOffs) n = some x}.Finite := by
  have inside : ∀ {x y : Nat}, inBlock buf x = some y → y < buf.length := by
    intro x y some
    unfold inBlock at some
    split at some
    · cases some
      assumption
    · cases some
  have later : ∀ {x y : Nat}, leadsTo e buf name x = some y → y < buf.length := by
    intro x y leads
    unfold leadsTo at leads
    split at leads
    · exact inside leads
    · cases leads
    · exact inside leads
  refine (Set.finite_lt_nat buf.length).subset ?_
  rintro x ⟨n, visits⟩
  cases n with
  | zero => exact inside visits
  | succ n =>
    obtain ⟨y, -, leads⟩ := Option.bind_eq_some_iff.mp visits
    exact later leads

theorem EndsWith.unique (ends : EndsWith e buf name start valid block)
    (ends' : EndsWith e buf name start valid block') : block = block' := by
  have named : block.named = block'.named :=
    Option.ext fun node => (ends.named node).trans (ends'.named node).symm
  have same : block.valid = block'.valid := Bool.eq_iff_iff.mpr (ends.valid.trans ends'.valid.symm)
  cases block
  cases block'
  cases named
  cases same
  rfl

theorem endsWith_none : EndsWith e buf name none valid ⟨none, valid⟩ := by
  constructor
  · exact fun node => ⟨nofun, fun visits => absurd visits.1 not_visits_none⟩
  · exact ⟨.inl, fun ends => ends.resolve_right fun ⟨_, visits, _⟩ => not_visits_none visits⟩

theorem endsWith_named (named : nodeAt e buf name blockOffs = .named) :
    EndsWith e buf name (some blockOffs) valid ⟨some blockOffs, valid⟩ := by
  have ending : leadsTo e buf name blockOffs = none := by
    unfold leadsTo
    rw [named]
  have only : ∀ {node}, Visits (leadsTo e buf name) (some blockOffs) node ↔ node = blockOffs := by
    intro node
    rw [visits_some_iff, ending, or_iff_left not_visits_none]
  constructor
  · intro node
    rw [only, Option.some.injEq, eq_comm]
    exact ⟨fun same => ⟨same, same ▸ named⟩, And.left⟩
  · refine ⟨.inl, fun ends => ends.resolve_right ?_⟩
    rintro ⟨node, visits, openwrt⟩
    rw [only.mp visits, named] at openwrt
    cases openwrt

/-- What is found from a node on that does not have the name is found behind it. -/
theorem endsWith_some_iff (unnamed : nodeAt e buf name blockOffs ≠ .named) :
    EndsWith e buf name (some blockOffs) valid block ↔ EndsWith e buf name (leadsTo e buf name blockOffs)
      (valid || decide (nodeAt e buf name blockOffs = .openwrt)) block := by
  have named : ∀ node, (Visits (leadsTo e buf name) (some blockOffs) node ∧ nodeAt e buf name node = .named) ↔
      Visits (leadsTo e buf name) (leadsTo e buf name blockOffs) node ∧ nodeAt e buf name node = .named := by
    intro node
    rw [visits_some_iff]
    refine ⟨fun ⟨visits, named⟩ => ⟨visits.resolve_left ?_, named⟩, fun ⟨visits, named⟩ => ⟨.inr visits, named⟩⟩
    rintro rfl
    exact unnamed named
  have openwrt : (∃ node, Visits (leadsTo e buf name) (some blockOffs) node ∧ nodeAt e buf name node = .openwrt) ↔
      nodeAt e buf name blockOffs = .openwrt ∨ ∃ node,
        Visits (leadsTo e buf name) (leadsTo e buf name blockOffs) node ∧ nodeAt e buf name node = .openwrt := by
    simp only [visits_some_iff, or_and_right, exists_or, exists_eq_left]
  constructor
  · rintro ⟨first, flag⟩
    refine ⟨fun node => (first node).trans (named node), ?_⟩
    rw [flag, openwrt, Bool.or_eq_true, decide_eq_true_eq, or_assoc]
  · rintro ⟨first, flag⟩
    refine ⟨fun node => (first node).trans (named node).symm, ?_⟩
    rw [flag, openwrt, Bool.or_eq_true, decide_eq_true_eq, or_assoc]

/-- A round at a node that does not have the name. -/
theorem searchBlock_unnamed (inside : blockOffs < buf.length) (looked : NodeInside e buf name blockOffs)
    (unnamed : nodeAt e buf name blockOffs ≠ .named) : ∃ next,
      leadsTo e buf name blockOffs = inBlock buf next ∧ ∀ fuel, searchBlock e buf name (fuel + 1) blockOffs valid =
        searchBlock e buf name fuel next (valid || decide (nodeAt e buf name blockOffs = .openwrt)) := by
  have looks := lookAt_eq_ok.mpr ⟨looked, rfl⟩
  unfold leadsTo
  cases found : nodeAt e buf name blockOffs with
  | invalid =>
    refine ⟨_, rfl, fun fuel => ?_⟩
    rw [searchBlock, if_pos inside, looks, found, ok_bind]
    simp
  | openwrt =>
    refine ⟨_, rfl, fun fuel => ?_⟩
    rw [searchBlock, if_pos inside, looks, found, ok_bind]
    simp
  | named => exact absurd found unnamed
  | other =>
    refine ⟨_, rfl, fun fuel => ?_⟩
    rw [searchBlock, if_pos inside, looks, found, ok_bind]
    simp

theorem searchBlock_named (inside : blockOffs < buf.length) (looked : NodeInside e buf name blockOffs)
    (named : nodeAt e buf name blockOffs = .named) :
    searchBlock e buf name (fuel + 1) blockOffs valid = .ok ⟨some blockOffs, valid⟩ := by
  rw [searchBlock, if_pos inside, lookAt_eq_ok.mpr ⟨looked, rfl⟩, named, ok_bind]

theorem searchBlock_behind (behind : ¬blockOffs < buf.length) :
    searchBlock e buf name (fuel + 1) blockOffs valid = .ok ⟨none, valid⟩ := by
  rw [searchBlock, if_neg behind]

/-- A round that returns has looked at bytes of the buffer only. -/
theorem searchBlock_inside (inside : blockOffs < buf.length)
    (searched : searchBlock e buf name (fuel + 1) blockOffs valid = .ok block) : NodeInside e buf name blockOffs := by
  rw [searchBlock, if_pos inside, bind_eq_ok_iff] at searched
  obtain ⟨node, looks, -⟩ := searched
  exact (lookAt_eq_ok.mp looks).1

theorem searchBlock_mono (more : fuel ≤ fuel') (searched : searchBlock e buf name fuel blockOffs valid = .ok block) :
    searchBlock e buf name fuel' blockOffs valid = .ok block := by
  induction fuel generalizing blockOffs valid fuel' with
  | zero => cases searched
  | succ fuel ih =>
    obtain ⟨fuel', rfl⟩ : ∃ n, fuel' = n + 1 := ⟨fuel' - 1, by omega⟩
    by_cases inside : blockOffs < buf.length
    · have looked := searchBlock_inside inside searched
      by_cases named : nodeAt e buf name blockOffs = .named
      · rwa [searchBlock_named inside looked named] at searched ⊢
      · obtain ⟨next, -, round⟩ := @searchBlock_unnamed e buf name blockOffs valid inside looked named
        rw [round] at searched ⊢
        exact ih (by omega) searched
    · rwa [searchBlock_behind inside] at searched ⊢

/-- The search returns with some number of rounds if the walk ends and looks only at bytes of the buffer,
and then it ends as it should. -/
theorem searchBlock_iff : (∃ fuel, searchBlock e buf name fuel blockOffs valid = .ok block) ↔
    Ends (leadsTo e buf name) (inBlock buf blockOffs) ∧
      (∀ node, Visits (leadsTo e buf name) (inBlock buf blockOffs) node → NodeInside e buf name node) ∧
        EndsWith e buf name (inBlock buf blockOffs) valid block := by
  constructor
  · rintro ⟨fuel, searched⟩
    induction fuel generalizing blockOffs valid with
    | zero => cases searched
    | succ fuel ih =>
      by_cases inside : blockOffs < buf.length
      · have looked := searchBlock_inside inside searched
        rw [inBlock_some inside]
        by_cases named : nodeAt e buf name blockOffs = .named
        · rw [searchBlock_named inside looked named] at searched
          cases searched
          have ending : leadsTo e buf name blockOffs = none := by
            unfold leadsTo
            rw [named]
          refine ⟨ends_some.mpr (ending ▸ ends_none), fun node visits => ?_, endsWith_named named⟩
          rw [visits_some_iff, ending, or_iff_left not_visits_none] at visits
          exact visits ▸ looked
        · obtain ⟨next, leads, round⟩ := @searchBlock_unnamed e buf name blockOffs valid inside looked named
          rw [round] at searched
          obtain ⟨ends, later, found⟩ := ih searched
          rw [← leads] at ends later found
          refine ⟨ends_some.mpr ends, fun node visits => ?_, (endsWith_some_iff named).mpr found⟩
          rcases visits_some_iff.mp visits with rfl | visits
          · exact looked
          · exact later node visits
      · rw [searchBlock_behind inside] at searched
        cases searched
        rw [inBlock_none inside]
        exact ⟨ends_none, fun node visits => absurd visits not_visits_none, endsWith_none⟩
  · rintro ⟨⟨n, ending⟩, looked, found⟩
    induction n generalizing blockOffs valid with
    | zero =>
      by_cases inside : blockOffs < buf.length
      · rw [inBlock_some inside] at ending
        cases ending
      · rw [inBlock_none inside] at found
        exact ⟨1, (searchBlock_behind inside).trans (congrArg _ (endsWith_none.unique found))⟩
    | succ n ih =>
      by_cases inside : blockOffs < buf.length
      · rw [inBlock_some inside] at ending looked found
        have here := looked blockOffs (visits_some_iff.mpr (.inl rfl))
        by_cases named : nodeAt e buf name blockOffs = .named
        · exact ⟨1, (searchBlock_named inside here named).trans (congrArg _ ((endsWith_named named).unique found))⟩
        · obtain ⟨next, leads, round⟩ := @searchBlock_unnamed e buf name blockOffs valid inside here named
          rw [endsWith_some_iff named, leads] at found
          rw [place_succ, leads] at ending
          obtain ⟨fuel, searched⟩ := ih ending
            (fun node visits => looked node (visits_some_iff.mpr (.inr (leads ▸ visits)))) found
          exact ⟨fuel + 1, (round fuel).trans searched⟩
      · rw [inBlock_none inside] at found
        exact ⟨1, (searchBlock_behind inside).trans (congrArg _ (endsWith_none.unique found))⟩

/-- From the beginning of an eraseblock on. -/
theorem searchBlock_ok_iff : (∃ fuel, searchBlock e buf name fuel 0 valid = .ok block) ↔
    BlockGood e buf name ∧ EndsWith e buf name (inBlock buf 0) valid block := by
  rw [searchBlock_iff, ends_iff_neverBack finite_nodes, ← and_assoc]
  exact and_congr_left fun _ => ⟨fun ⟨never, inside⟩ => ⟨never, inside⟩, fun good => ⟨good.never, good.inside⟩⟩

/-- The head of a valid entry is inside of the buffer. -/
theorem BlockGood.entry_inside {node : Nat} (good : BlockGood e buf name)
    (visits : Visits (leadsTo e buf name) (inBlock buf 0) node) (valid : nodeAt e buf name node ≠ .invalid) :
    node + 36 ≤ buf.length := by
  have right : DirentRight e buf node := by
    by_contra wrong
    exact valid (if_pos wrong)
  exact (good.inside node visits).nodeCrc right.1 right.2.1 right.2.2.1

theorem BlockGood.exists_endsWith (good : BlockGood e buf name) (valid : Bool) :
    ∃ block, EndsWith e buf name (inBlock buf 0) valid block := by
  obtain ⟨n, ending⟩ := (ends_iff_neverBack finite_nodes).mpr good.never
  generalize inBlock buf 0 = start at ending
  induction n generalizing start valid with
  | zero =>
    cases ending
    exact ⟨_, endsWith_none⟩
  | succ n ih =>
    cases start with
    | none => exact ⟨_, endsWith_none⟩
    | some node =>
      by_cases named : nodeAt e buf name node = .named
      · exact ⟨_, endsWith_named named⟩
      · obtain ⟨block, later⟩ := ih _ _ (place_succ.symm.trans ending)
        exact ⟨block, (endsWith_some_iff named).mpr later⟩

end Walk

/-! ### The name of a file -/

/-- The string that is copied ends inside of the memory. -/
def StringInside (mem : List UInt8) (max : Nat) : Prop := max ≤ mem.length ∨ 0 ∈ mem

theorem returns_kstrndup_iff {mem : List UInt8} {max : Nat} :
    Returns (kstrndup mem max) ↔ StringInside mem max := by
  unfold StringInside
  induction mem, max using kstrndup.induct with
  | case1 => simp [kstrndup]
  | case2 max => simp [kstrndup]
  | case3 cs max => simp [kstrndup]
  | case4 c cs max rest ih =>
    rw [kstrndup, if_neg rest, returns_bind_iff]
    simp only [returns_ok, and_true, List.length_cons, Nat.succ_le_succ_iff, List.mem_cons, Ne.symm rest,
      false_or]
    exact ih

theorem returns_takeFile_iff {e : Endian} {buf : List UInt8} {outName : Bool} {offs node : Nat}
    (inside : node + 36 ≤ buf.length) : Returns (takeFile e buf outName offs node) ↔
      (outName = true → StringInside (buf.drop (node + 40)) (e.numberAt buf (node + 28) 1)) := by
  cases outName with
  | false => simp [takeFile]
  | true =>
    rw [takeFile, if_pos rfl, returns_readNumber_iff, returns_bind_iff]
    simp only [returns_ok, and_true, forall_const]
    rw [and_iff_right (by omega)]
    exact returns_kstrndup_iff

/-! ### The eraseblocks -/

section Search

variable (mtd : Mtd) (name : List UInt8)

/-- The search arrives at an eraseblock from another one: those between are skipped, or searched without
finding the name. The flags say whether an entry for OpenWrt has been seen. -/
inductive Arrives (stop : Int) (pos : Nat) (flag : Bool) : Nat → Bool → Prop
  | here : (pos : Int) < stop → Arrives stop pos flag pos flag
  | skip {offs : Nat} {valid : Bool} : (offs : Int) < stop → mtd.readBlock offs = .skipped →
      Arrives stop pos flag (offs + mtd.erasesize) valid → Arrives stop pos flag offs valid
  | pass {offs : Nat} {valid valid' : Bool} {buf : List UInt8} : (offs : Int) < stop →
      mtd.readBlock offs = .loaded buf → BlockGood mtd.endian buf name →
      EndsWith mtd.endian buf name (inBlock buf 0) valid ⟨none, valid'⟩ →
      Arrives stop pos flag (offs + mtd.erasesize) valid' → Arrives stop pos flag offs valid

/-- Each eraseblock that the search arrives at is good, and so is the name of the file where that is
asked for. -/
def SearchGood (outName : Bool) (stop : Int) (offs : Nat) (valid : Bool) : Prop :=
  ∀ pos flag buf, Arrives mtd name stop pos flag offs valid → mtd.readBlock pos = .loaded buf →
    BlockGood mtd.endian buf name ∧ ∀ node,
      EndsWith mtd.endian buf name (inBlock buf 0) flag ⟨some node, true⟩ → outName = true →
        StringInside (buf.drop (node + 40)) (mtd.endian.numberAt buf (node + 28) 1)

/-- The search arrives at an eraseblock where it finds the file. -/
def Finds (outName : Bool) (stop : Int) (offs : Nat) (valid : Bool) (file : FoundFile) : Prop :=
  ∃ flag buf node, Arrives mtd name stop file.offs flag offs valid ∧ mtd.readBlock file.offs = .loaded buf ∧
    BlockGood mtd.endian buf name ∧ EndsWith mtd.endian buf name (inBlock buf 0) flag ⟨some node, true⟩ ∧
      takeFile mtd.endian buf outName file.offs node = .ok file

variable {mtd name} {stop : Int} {pos offs fuel fuel' : Nat} {flag valid outName : Bool} {buf : List UInt8}
  {file : FoundFile} {found : Except Errno FoundFile}

theorem Arrives.beforeStop (arrives : Arrives mtd name stop pos flag offs valid) : (offs : Int) < stop := by
  cases arrives with
  | here below => exact below
  | skip below => exact below
  | pass below => exact below

theorem Arrives.between (arrives : Arrives mtd name stop pos flag offs valid) :
    offs ≤ pos ∧ (pos : Int) < stop := by
  induction arrives with
  | here below => exact ⟨le_rfl, below⟩
  | skip below skipped later ih => exact ⟨by omega, ih.2⟩
  | pass below loaded good ends later ih => exact ⟨by omega, ih.2⟩

theorem arrives_skipped_iff (below : (offs : Int) < stop) (skipped : mtd.readBlock offs = .skipped) :
    Arrives mtd name stop pos flag offs valid ↔
      pos = offs ∧ flag = valid ∨ Arrives mtd name stop pos flag (offs + mtd.erasesize) valid := by
  constructor
  · intro arrives
    cases arrives with
    | here below => exact .inl ⟨rfl, rfl⟩
    | skip below skipped later => exact .inr later
    | pass below loaded good ends later =>
      rw [skipped] at loaded
      cases loaded
  · rintro (⟨rfl, rfl⟩ | later)
    · exact .here below
    · exact .skip below skipped later

theorem arrives_failed_iff {err : Errno} (below : (offs : Int) < stop) (failed : mtd.readBlock offs = .failed err) :
    Arrives mtd name stop pos flag offs valid ↔ pos = offs ∧ flag = valid := by
  constructor
  · intro arrives
    cases arrives with
    | here below => exact ⟨rfl, rfl⟩
    | skip below skipped later =>
      rw [failed] at skipped
      cases skipped
    | pass below loaded good ends later =>
      rw [failed] at loaded
      cases loaded
  · rintro ⟨rfl, rfl⟩
    exact .here below

theorem arrives_loaded_iff (below : (offs : Int) < stop) (loaded : mtd.readBlock offs = .loaded buf) :
    Arrives mtd name stop pos flag offs valid ↔ pos = offs ∧ flag = valid ∨ BlockGood mtd.endian buf name ∧
      ∃ valid', EndsWith mtd.endian buf name (inBlock buf 0) valid ⟨none, valid'⟩ ∧
        Arrives mtd name stop pos flag (offs + mtd.erasesize) valid' := by
  constructor
  · intro arrives
    cases arrives with
    | here below => exact .inl ⟨rfl, rfl⟩
    | skip below skipped later =>
      rw [loaded] at skipped
      cases skipped
    | pass below loaded' good ends later =>
      rw [loaded] at loaded'
      cases loaded'
      exact .inr ⟨good, _, ends, later⟩
  · rintro (⟨rfl, rfl⟩ | ⟨good, valid', ends, later⟩)
    · exact .here below
    · exact .pass below loaded good ends later

/-! ### When the search returns -/

theorem searchGood_skipped_iff (below : (offs : Int) < stop) (skipped : mtd.readBlock offs = .skipped) :
    SearchGood mtd name outName stop offs valid ↔
      SearchGood mtd name outName stop (offs + mtd.erasesize) valid := by
  constructor
  · exact fun good pos flag buf arrives => good pos flag buf ((arrives_skipped_iff below skipped).mpr (.inr arrives))
  · intro good pos flag buf arrives loaded
    rcases (arrives_skipped_iff below skipped).mp arrives with ⟨rfl, rfl⟩ | later
    · rw [skipped] at loaded
      cases loaded
    · exact good pos flag buf later loaded

theorem searchGood_failed {err : Errno} (below : (offs : Int) < stop) (failed : mtd.readBlock offs = .failed err) :
    SearchGood mtd name outName stop offs valid := by
  intro pos flag buf arrives loaded
  obtain ⟨rfl, rfl⟩ := (arrives_failed_iff below failed).mp arrives
  rw [failed] at loaded
  cases loaded

theorem searchGood_behind (behind : ¬(offs : Int) < stop) : SearchGood mtd name outName stop offs valid :=
  fun _ _ _ arrives => absurd arrives.beforeStop behind

theorem searchGood_loaded_iff (below : (offs : Int) < stop) (loaded : mtd.readBlock offs = .loaded buf) :
    SearchGood mtd name outName stop offs valid ↔ BlockGood mtd.endian buf name ∧
      (∀ node, EndsWith mtd.endian buf name (inBlock buf 0) valid ⟨some node, true⟩ → outName = true →
        StringInside (buf.drop (node + 40)) (mtd.endian.numberAt buf (node + 28) 1)) ∧
      ∀ valid', EndsWith mtd.endian buf name (inBlock buf 0) valid ⟨none, valid'⟩ →
        SearchGood mtd name outName stop (offs + mtd.erasesize) valid' := by
  constructor
  · intro good
    obtain ⟨here, named⟩ := good offs valid buf (.here below) loaded
    refine ⟨here, named, fun valid' ends pos flag buf' arrives => ?_⟩
    exact good pos flag buf' (.pass below loaded here ends arrives)
  · rintro ⟨here, named, later⟩ pos flag buf' arrives loaded'
    rcases (arrives_loaded_iff below loaded).mp arrives with ⟨rfl, rfl⟩ | ⟨-, valid', ends, arrives⟩
    · rw [loaded] at loaded'
      cases loaded'
      exact ⟨here, named⟩
    · exact later valid' ends pos flag buf' arrives loaded'

/-- The round at an eraseblock that is searched. -/
theorem findFrom_loaded (below : (offs : Int) < stop) (loaded : mtd.readBlock offs = .loaded buf) :
    mtd.findFrom name outName fuel stop offs valid = searchBlock mtd.endian buf name fuel 0 valid >>= fun block =>
      match block.named with
      | none => mtd.findFrom name outName fuel stop (offs + mtd.erasesize) block.valid
      | some node =>
        if block.valid = false then .ok (.error .einval)
        else takeFile mtd.endian buf outName offs node >>= fun file => .ok (.ok file) := by
  rewrite [Mtd.findFrom, if_pos below, loaded]
  rfl

theorem findFrom_skipped (below : (offs : Int) < stop) (skipped : mtd.readBlock offs = .skipped) :
    mtd.findFrom name outName fuel stop offs valid =
      mtd.findFrom name outName fuel stop (offs + mtd.erasesize) valid := by
  rw [Mtd.findFrom, if_pos below, skipped]

theorem findFrom_failed {err : Errno} (below : (offs : Int) < stop) (failed : mtd.readBlock offs = .failed err) :
    mtd.findFrom name outName fuel stop offs valid = .ok (.error err) := by
  rw [Mtd.findFrom, if_pos below, failed]

theorem findFrom_behind (behind : ¬(offs : Int) < stop) :
    mtd.findFrom name outName fuel stop offs valid = .ok (.error .enoent) := by
  rw [Mtd.findFrom, if_neg behind]

/-- The eraseblocks from an offset on, one after the other. -/
theorem block_induction (mtd : Mtd) (stop : Int) {P : Nat → Prop}
    (behind : ∀ offs : Nat, ¬(offs : Int) < stop → P offs)
    (step : ∀ offs : Nat, (offs : Int) < stop → P (offs + mtd.erasesize) → P offs) (offs : Nat) : P offs := by
  by_cases below : (offs : Int) < stop
  · exact step offs below (block_induction mtd stop behind step (offs + mtd.erasesize))
  · exact behind offs below
termination_by (stop - offs).toNat
decreasing_by
  have := mtd.positive
  omega

/-- More rounds lead to the same. -/
theorem findFrom_mono (more : fuel ≤ fuel') (done : mtd.findFrom name outName fuel stop offs valid = .ok found) :
    mtd.findFrom name outName fuel' stop offs valid = .ok found := by
  induction offs using block_induction mtd stop generalizing valid with
  | behind offs behind => rwa [findFrom_behind behind] at done ⊢
  | step offs below ih =>
    cases read : mtd.readBlock offs with
    | skipped =>
      rw [findFrom_skipped below read] at done ⊢
      exact ih done
    | failed err => rwa [findFrom_failed below read] at done ⊢
    | loaded buf =>
      rw [findFrom_loaded below read] at done ⊢
      obtain ⟨block, searched, done⟩ := bind_eq_ok_iff.mp done
      rw [searchBlock_mono more searched, ok_bind]
      cases named : block.named with
      | none =>
        rw [named] at done
        exact ih done
      | some node => rwa [named] at done

/-- The search returns, with some number of rounds, if it is good. -/
theorem findFrom_returns_iff : (∃ fuel, Returns (mtd.findFrom name outName fuel stop offs valid)) ↔
    SearchGood mtd name outName stop offs valid := by
  induction offs using block_induction mtd stop generalizing valid with
  | behind offs behind =>
    simp only [findFrom_behind behind, returns_ok, exists_const, searchGood_behind behind]
  | step offs below ih =>
    cases read : mtd.readBlock offs with
    | skipped =>
      rw [searchGood_skipped_iff below read, ← ih]
      simp only [findFrom_skipped below read]
    | failed err =>
      simp only [findFrom_failed below read, returns_ok, exists_const, searchGood_failed below read]
    | loaded buf =>
      rw [searchGood_loaded_iff below read]
      simp only [findFrom_loaded below read, ← ih]
      constructor
      · rintro ⟨fuel, found, done⟩
        obtain ⟨block, searched, done⟩ := bind_eq_ok_iff.mp done
        obtain ⟨good, ends⟩ := searchBlock_ok_iff.mp ⟨fuel, searched⟩
        refine ⟨good, fun node named asked => ?_, fun valid' passed => ?_⟩
        · rw [ends.unique named] at done
          obtain ⟨file, taken, -⟩ := bind_eq_ok_iff.mp done
          have entry := ((named.named node).mp rfl)
          exact (returns_takeFile_iff (good.entry_inside entry.1 (by rw [entry.2]; decide))).mp ⟨file, taken⟩ asked
        · rw [ends.unique passed] at done
          exact ⟨fuel, found, done⟩
      · rintro ⟨good, named, later⟩
        obtain ⟨block, ends⟩ := good.exists_endsWith valid
        obtain ⟨fuel, searched⟩ := searchBlock_ok_iff.mpr ⟨good, ends⟩
        obtain ⟨first, flag⟩ := block
        cases first with
        | none =>
          obtain ⟨fuel', found, done⟩ := later flag ends
          refine ⟨max fuel fuel', found, ?_⟩
          rw [searchBlock_mono (le_max_left _ _) searched, ok_bind]
          exact findFrom_mono (le_max_right _ _) done
        | some node =>
          refine ⟨fuel, ?_⟩
          rw [searched, ok_bind]
          cases flag with
          | false => exact returns_ok
          | true =>
            have entry := ((ends.named node).mp rfl)
            obtain ⟨file, taken⟩ := (returns_takeFile_iff
              (good.entry_inside entry.1 (by rw [entry.2]; decide))).mpr (named node ends)
            refine ⟨.ok file, ?_⟩
            change takeFile mtd.endian buf outName offs node >>= _ = _
            rw [taken]
            rfl

/-! ### What the search finds -/

theorem takeFile_offs {e : Endian} {node : Nat} (taken : takeFile e buf outName offs node = .ok file) :
    file.offs = offs := by
  unfold takeFile at taken
  split at taken
  · obtain ⟨nsize, -, taken⟩ := bind_eq_ok_iff.mp taken
    obtain ⟨name, -, taken⟩ := bind_eq_ok_iff.mp taken
    cases taken
    rfl
  · cases taken
    rfl

theorem finds_skipped_iff (below : (offs : Int) < stop) (skipped : mtd.readBlock offs = .skipped) :
    Finds mtd name outName stop offs valid file ↔
      Finds mtd name outName stop (offs + mtd.erasesize) valid file := by
  constructor
  · rintro ⟨flag, buf, node, arrives, loaded, found⟩
    rcases (arrives_skipped_iff below skipped).mp arrives with ⟨here, -⟩ | later
    · rw [here, skipped] at loaded
      cases loaded
    · exact ⟨flag, buf, node, later, loaded, found⟩
  · rintro ⟨flag, buf, node, later, found⟩
    exact ⟨flag, buf, node, .skip below skipped later, found⟩

theorem not_finds_failed {err : Errno} (below : (offs : Int) < stop) (failed : mtd.readBlock offs = .failed err) :
    ¬Finds mtd name outName stop offs valid file := by
  rintro ⟨flag, buf, node, arrives, loaded, -⟩
  rw [((arrives_failed_iff below failed).mp arrives).1, failed] at loaded
  cases loaded

theorem not_finds_behind (behind : ¬(offs : Int) < stop) : ¬Finds mtd name outName stop offs valid file :=
  fun ⟨_, _, _, arrives, _⟩ => behind arrives.beforeStop

theorem finds_loaded_iff (below : (offs : Int) < stop) (loaded : mtd.readBlock offs = .loaded buf) :
    Finds mtd name outName stop offs valid file ↔ BlockGood mtd.endian buf name ∧
      ((∃ node, EndsWith mtd.endian buf name (inBlock buf 0) valid ⟨some node, true⟩ ∧
        takeFile mtd.endian buf outName offs node = .ok file) ∨
      ∃ valid', EndsWith mtd.endian buf name (inBlock buf 0) valid ⟨none, valid'⟩ ∧
        Finds mtd name outName stop (offs + mtd.erasesize) valid' file) := by
  constructor
  · rintro ⟨flag, buf', node, arrives, loaded', good, ends, taken⟩
    rcases (arrives_loaded_iff below loaded).mp arrives with ⟨here, rfl⟩ | ⟨first, valid', passed, later⟩
    · rw [here, loaded] at loaded'
      cases loaded'
      exact ⟨good, .inl ⟨node, ends, here ▸ taken⟩⟩
    · exact ⟨first, .inr ⟨valid', passed, flag, buf', node, later, loaded', good, ends, taken⟩⟩
  · rintro ⟨good, ⟨node, ends, taken⟩ | ⟨valid', passed, flag, buf', node, later, found⟩⟩
    · obtain rfl := takeFile_offs taken
      exact ⟨valid, buf, node, .here below, loaded, good, ends, taken⟩
    · exact ⟨flag, buf', node, .pass below loaded good passed later, found⟩

theorem findFrom_ok_iff : (∃ fuel, mtd.findFrom name outName fuel stop offs valid = .ok (.ok file)) ↔
    Finds mtd name outName stop offs valid file := by
  induction offs using block_induction mtd stop generalizing valid with
  | behind offs behind =>
    simp only [findFrom_behind behind, Except.ok.injEq, reduceCtorEq, exists_const, not_finds_behind behind]
  | step offs below ih =>
    cases read : mtd.readBlock offs with
    | skipped =>
      rw [finds_skipped_iff below read, ← ih]
      simp only [findFrom_skipped below read]
    | failed err =>
      simp only [findFrom_failed below read, Except.ok.injEq, reduceCtorEq, exists_const,
        not_finds_failed below read]
    | loaded buf =>
      rw [finds_loaded_iff below read]
      simp only [findFrom_loaded below read, ← ih]
      constructor
      · rintro ⟨fuel, done⟩
        obtain ⟨⟨first, flag⟩, searched, done⟩ := bind_eq_ok_iff.mp done
        obtain ⟨good, ends⟩ := searchBlock_ok_iff.mp ⟨fuel, searched⟩
        refine ⟨good, ?_⟩
        cases first with
        | none => exact .inr ⟨flag, ends, fuel, done⟩
        | some node =>
          cases flag with
          | false => cases done
          | true =>
            obtain ⟨file', taken, same⟩ := bind_eq_ok_iff.mp done
            cases same
            exact .inl ⟨node, ends, taken⟩
      · rintro ⟨good, ⟨node, ends, taken⟩ | ⟨valid', ends, fuel', done⟩⟩
        · obtain ⟨fuel, searched⟩ := searchBlock_ok_iff.mpr ⟨good, ends⟩
          refine ⟨fuel, ?_⟩
          rw [searched, ok_bind]
          change takeFile mtd.endian buf outName offs node >>= _ = _
          rw [taken]
          rfl
        · obtain ⟨fuel, searched⟩ := searchBlock_ok_iff.mpr ⟨good, ends⟩
          refine ⟨max fuel fuel', ?_⟩
          rw [searchBlock_mono (le_max_left _ _) searched, ok_bind]
          exact findFrom_mono (le_max_right _ _) done

end Search

end FirewallCore.Mtdsplit
