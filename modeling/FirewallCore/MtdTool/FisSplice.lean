import FirewallCore.MtdTool.FisRemap

/-!
When `fis_remap` replaces the old partitions by the new ones and changes nothing else.
-/

namespace FirewallCore.MtdTool.Fis

open FirewallCore.Lib

/-! ### The space of partitions -/

section Space

/-- The lowest flash base. -/
def lowest (e : Endian) (olds : List (List UInt8)) : Nat := ((olds.map (flashBase e)).min?).getD 0

/-- The highest flash base. -/
def highest (e : Endian) (olds : List (List UInt8)) : Nat := ((olds.map (flashBase e)).max?).getD 0

/-- Where the space of some of the partitions ends: at the next flash base behind them, or if there is none
where they end themselves. -/
def spaceEnd (e : Endian) (entries olds : List (List UInt8)) : Nat :=
  (((entries.map (flashBase e)).filter (highest e olds < ·)).min?).getD
    (((olds.map fun x => flashBase e x + partSize e x).max?).getD 0)

variable {e : Endian} {entries olds : List (List UInt8)} {x : List UInt8} {high : Nat} {bases : List Nat}

theorem flashBase_lt : flashBase e x < 2 ^ 32 := numberAt_lt 4

theorem partSize_lt : partSize e x < 2 ^ 32 := numberAt_lt 4

theorem max_spec (some : bases ≠ []) : bases.max?.getD 0 ∈ bases ∧ ∀ base ∈ bases, base ≤ bases.max?.getD 0 := by
  cases greatest : bases.max? with
  | none => exact absurd (List.max?_eq_none_iff.mp greatest) some
  | some base => exact List.max?_eq_some_iff.mp greatest

/-- The next flash base is that of a partition behind, or there is none. -/
theorem nextBase_spec (high : Nat) (bases : List Nat) :
    (nextBase high bases = high ∧ ∀ base ∈ bases, base ≤ high) ∨
      (high < nextBase high bases ∧ nextBase high bases ∈ bases ∧
        ∀ base ∈ bases, high < base → nextBase high bases ≤ base) := by
  unfold nextBase
  cases least : (bases.filter (high < ·)).min? with
  | none =>
    left
    refine ⟨rfl, fun base member => ?_⟩
    have none := List.filter_eq_nil_iff.mp (List.min?_eq_none_iff.mp least) base member
    simpa using none
  | some base =>
    right
    obtain ⟨member, lower⟩ := List.min?_eq_some_iff.mp least
    rw [List.mem_filter, decide_eq_true_eq] at member
    refine ⟨member.2, member.1, fun other there behind => lower other ?_⟩
    rw [List.mem_filter, decide_eq_true_eq]
    exact ⟨there, behind⟩

theorem spaceEnd_eq : spaceEnd e entries olds =
    if ∀ base ∈ entries.map (flashBase e), base ≤ highest e olds then
      ((olds.map fun x => flashBase e x + partSize e x).max?).getD 0
    else nextBase (highest e olds) (entries.map (flashBase e)) := by
  unfold spaceEnd
  split
  · rename_i last
    have none : (entries.map (flashBase e)).filter (highest e olds < ·) = [] := by
      rw [List.filter_eq_nil_iff]
      intro base member
      simpa using last base member
    rw [none]
    rfl
  · rename_i behind
    push Not at behind
    obtain ⟨base, member, above⟩ := behind
    unfold nextBase
    cases least : ((entries.map (flashBase e)).filter (highest e olds < ·)).min? with
    | none =>
      have none := List.filter_eq_nil_iff.mp (List.min?_eq_none_iff.mp least) base member
      simp [Nat.not_le.mpr above] at none
    | some least => rfl

/-- The space ends within the addresses, and not before the next flash base behind any one of the
partitions. -/
theorem spaceEnd_spec (some : olds ≠ []) (sub : ∀ x ∈ olds, x ∈ entries)
    (ranges : ∀ x ∈ entries, flashBase e x + partSize e x ≤ 2 ^ 32) (there : high ∈ olds.map (flashBase e)) :
    spaceEnd e entries olds ≤ 2 ^ 32 ∧ nextBase high (entries.map (flashBase e)) ≤ spaceEnd e entries olds ∧
      spaceEnd e entries olds < nextBase high (entries.map (flashBase e)) + 2 ^ 32 := by
  obtain ⟨attained, upper⟩ := @max_spec (olds.map (flashBase e)) (by simpa using some)
  rw [← highest] at attained upper
  have below : high ≤ highest e olds := upper high there
  have known : ∀ base ∈ entries.map (flashBase e), base < 2 ^ 32 := by
    intro base member
    obtain ⟨x, -, rfl⟩ := List.mem_map.mp member
    exact flashBase_lt
  have mapped : ∀ base ∈ olds.map (flashBase e), base ∈ entries.map (flashBase e) := by
    intro base member
    obtain ⟨x, old, rfl⟩ := List.mem_map.mp member
    exact List.mem_map_of_mem (sub x old)
  rw [spaceEnd_eq]
  split
  · rename_i last
    obtain ⟨ends, greatest⟩ := @max_spec (olds.map fun x => flashBase e x + partSize e x)
      (by simpa using some)
    obtain ⟨x, old, same⟩ := List.mem_map.mp ends
    have size : partSize e x < 2 ^ 32 := partSize_lt
    have range := ranges x (sub x old)
    have top := last _ (List.mem_map_of_mem (sub x old))
    have reach : highest e olds ≤ ((olds.map fun x => flashBase e x + partSize e x).max?).getD 0 := by
      obtain ⟨y, old', same'⟩ := List.mem_map.mp attained
      have := greatest _ (List.mem_map_of_mem old')
      omega
    rcases nextBase_spec high (entries.map (flashBase e)) with ⟨same', none⟩ | ⟨above, member, -⟩
    · have same'' := none _ (mapped _ attained)
      omega
    · have := last _ member
      omega
  · rename_i behind
    rcases nextBase_spec (highest e olds) (entries.map (flashBase e)) with ⟨-, none⟩ | ⟨above, member, -⟩
    · exact absurd none behind
    · have less := known _ member
      refine ⟨less.le, ?_, by omega⟩
      rcases nextBase_spec high (entries.map (flashBase e)) with ⟨same, -⟩ | ⟨-, -, lower⟩
      · omega
      · exact lower _ member (by omega)

end Space

/-! ### Replacements -/

/-- A directory, partitions of it that are next to each other in the table, and accepted lists of old and
new partitions, of which the new ones fit the table and the space. -/
structure Replacement (m : Machine) where
  directory : Directory m.order
  before : List (List UInt8)
  olds : List (List UInt8)
  after : List (List UInt8)
  old : List FisPart
  new : List FisPart
  entries : directory.entries = before ++ olds ++ after
  isOlds : ∀ x ∈ olds, isOld old (nameOf x) = true
  others : ∀ x ∈ before ++ after, isOld old (nameOf x) = false
  accepted : fisValidate (some directory.mem) old new = .ok 1
  room : before.length + new.length + after.length ≤ (directory.entries ++ directory.rest).length
  space : lowest m.order olds + sizes new ≤ spaceEnd m.order directory.entries olds

namespace Replacement

variable {m : Machine} {r : Replacement m}

/-- The new descriptors are in the place of the old ones, end to end from the lowest old flash base on and
within the space, the others are as they were, and what is left of the table is blank. -/
def Splices (r : Replacement m) : Prop :=
  ∃ news blanks, fisRemap m (some r.directory.mem) r.old r.new =
      .ok (0, some (r.before ++ news ++ r.after ++ blanks).flatten) ∧
    (r.before ++ news ++ r.after ++ blanks).length = (r.directory.entries ++ r.directory.rest).length ∧
    Laid m.order (lowest m.order r.olds) r.new news ∧
    lowest m.order r.olds + (news.map (partSize m.order)).sum ≤
      spaceEnd m.order r.directory.entries r.olds ∧
    ∀ x ∈ blanks, x = blank

/-- The lower flash base of the first and the last old partition in the table. -/
def lowBase (r : Replacement m) : Nat :=
  min ((r.olds.head?.map (flashBase m.order)).getD 0) ((r.olds.getLast?.map (flashBase m.order)).getD 0)

/-- The higher one. -/
def highBase (r : Replacement m) : Nat :=
  max ((r.olds.head?.map (flashBase m.order)).getD 0) ((r.olds.getLast?.map (flashBase m.order)).getD 0)

/-- The size that `fis_remap` takes for the space: up to the next flash base behind both. -/
def size (r : Replacement m) : Nat :=
  nextBase r.highBase (r.directory.entries.map (flashBase m.order)) - r.lowBase

theorem olds_sub (r : Replacement m) : ∀ x ∈ r.olds, x ∈ r.directory.entries := by
  intro x member
  rw [r.entries]
  exact List.mem_append_left _ (List.mem_append_right _ member)

theorem length_olds (r : Replacement m) : r.olds.length = r.old.length := by
  rw [← (fisValidate_eq.mp r.accepted).2, oldAmong, r.entries, List.filter_append, List.filter_append]
  have none : ∀ l : List (List UInt8), (∀ x ∈ l, isOld r.old (nameOf x) = false) →
      l.filter (fun x => isOld r.old (nameOf x)) = [] := by
    intro l others
    rw [List.filter_eq_nil_iff]
    intro x member
    rw [others x member]
    decide
  rw [none _ fun x member => r.others x (List.mem_append_left _ member),
    none _ fun x member => r.others x (List.mem_append_right _ member), List.nil_append, List.append_nil,
    List.filter_eq_self.mpr r.isOlds]

theorem bases_mem (some : r.olds ≠ []) : r.lowBase ∈ r.olds.map (flashBase m.order) ∧
    r.highBase ∈ r.olds.map (flashBase m.order) := by
  have first : (r.olds.head?.map (flashBase m.order)).getD 0 ∈ r.olds.map (flashBase m.order) := by
    rw [List.head?_eq_some_head some]
    exact List.mem_map_of_mem (List.head_mem some)
  have last : (r.olds.getLast?.map (flashBase m.order)).getD 0 ∈ r.olds.map (flashBase m.order) := by
    rw [List.getLast?_eq_some_getLast some]
    exact List.mem_map_of_mem (List.getLast_mem some)
  constructor
  · unfold lowBase
    rcases min_choice ((r.olds.head?.map (flashBase m.order)).getD 0)
      ((r.olds.getLast?.map (flashBase m.order)).getD 0) with same | same
    · rwa [same]
    · rwa [same]
  · unfold highBase
    rcases max_choice ((r.olds.head?.map (flashBase m.order)).getD 0)
      ((r.olds.getLast?.map (flashBase m.order)).getD 0) with same | same
    · rwa [same]
    · rwa [same]

/-- The first loop over the table. -/
theorem seesAll (r : Replacement m) :
    forEach r.directory.mem (seeDesc m r.directory.mem r.old) r.directory.mem.length 0 ⟨0, none, none⟩ =
      .ok (seeAll m.order r.old 0 r.directory.entries ⟨0, none, none⟩) := by
  have steps : ∀ k x s, r.directory.entries[k]? = Option.some x →
      seeDesc m r.directory.mem r.old k s = .ok (seeStep m.order r.old k x s) := by
    intro k x s entry
    have base : (readNumber m.order 4 r.directory.mem (descSize * k + 16) : Checked Unit Nat) =
        .ok (flashBase m.order x) :=
      readNumber_slot r.directory.widths (r.directory.slot entry) (by decide)
    have name : (load r.directory.mem (descSize * k) 16 : Checked Unit (List UInt8)) = .ok (nameOf x) :=
      load_slot r.directory.widths (r.directory.slot entry) (by decide)
    rw [seeDesc, readWord_eq, base, ok_bind, name, ok_bind, seeStep]
  rw [forEach_eq steps (Nat.zero_le _) r.directory.entries_le, List.drop_zero]
  rfl

/-- What it finds. -/
theorem sees (some : r.olds ≠ []) :
    forEach r.directory.mem (seeDesc m r.directory.mem r.old) r.directory.mem.length 0 ⟨0, none, none⟩ =
      .ok ⟨raise (r.directory.entries.map (flashBase m.order)) 0, Option.some r.before.length,
        Option.some (r.before.length + r.olds.length - 1)⟩ := by
  have all := @seeAll_eq m.order r.old r.before r.olds r.after r.others r.isOlds some
  rw [← r.entries] at all
  rw [seesAll, all]

/-- The second loop finds the next flash base. -/
theorem lowers (some : r.olds ≠ []) :
    forEach r.directory.mem (lowerOffset m r.directory.mem r.highBase) r.directory.mem.length 0
        (raise (r.directory.entries.map (flashBase m.order)) 0) =
      .ok (nextBase r.highBase (r.directory.entries.map (flashBase m.order))) := by
  have steps : ∀ k x offset, r.directory.entries[k]? = Option.some x →
      lowerOffset m r.directory.mem r.highBase k offset =
        .ok (if flashBase m.order x > r.highBase ∧ flashBase m.order x < offset then flashBase m.order x
          else offset) := by
    intro k x offset entry
    have base : (readNumber m.order 4 r.directory.mem (descSize * k + 16) : Checked Unit Nat) =
        .ok (flashBase m.order x) :=
      readNumber_slot r.directory.widths (r.directory.slot entry) (by decide)
    rw [lowerOffset, readWord_eq, base, ok_bind]
  have there : r.highBase ∈ r.directory.entries.map (flashBase m.order) := by
    obtain ⟨x, member, same⟩ := List.mem_map.mp (bases_mem some).2
    rw [← same]
    exact List.mem_map_of_mem (r.olds_sub x member)
  rw [forEach_eq steps (Nat.zero_le _) r.directory.entries_le, List.drop_zero,
    foldl_zipIdx fun x offset => if flashBase m.order x > r.highBase ∧ flashBase m.order x < offset then
      flashBase m.order x else offset, ← lower_raise there, lower, List.foldl_map]

/-- The flash base of an old partition is read. -/
theorem reads {k : Nat} {x : List UInt8} (entry : r.olds[k]? = some x) :
    (readWord m.order r.directory.mem (descSize * (r.before.length + k) + 16) : Checked Unit Nat) =
      .ok (flashBase m.order x) := by
  have inside := (List.getElem?_eq_some_iff.mp entry).1
  have slot : r.directory.entries[r.before.length + k]? = some x := by
    rw [r.entries, List.append_assoc, List.getElem?_append_right (Nat.le_add_right _ _), Nat.add_sub_cancel_left,
      List.getElem?_append_left inside, entry]
  exact readNumber_slot r.directory.widths (r.directory.slot slot) (by decide)

theorem size_eq (some : r.olds ≠ []) :
    r.lowBase ≤ nextBase r.highBase (r.directory.entries.map (flashBase m.order)) ∧
      nextBase r.highBase (r.directory.entries.map (flashBase m.order)) < 2 ^ 32 ∧
      (nextBase r.highBase (r.directory.entries.map (flashBase m.order)) + 2 ^ 32 - r.lowBase) % 2 ^ 32 =
        r.size := by
  have low : r.lowBase ≤ r.highBase := min_le_max
  have high : r.highBase < 2 ^ 32 := by
    obtain ⟨x, -, same⟩ := List.mem_map.mp (bases_mem some).2
    rw [← same]
    exact flashBase_lt
  have next : r.highBase ≤ nextBase r.highBase (r.directory.entries.map (flashBase m.order)) ∧
      nextBase r.highBase (r.directory.entries.map (flashBase m.order)) < 2 ^ 32 := by
    rcases nextBase_spec r.highBase (r.directory.entries.map (flashBase m.order)) with ⟨same, -⟩ | ⟨above, member, -⟩
    · omega
    · obtain ⟨x, -, same⟩ := List.mem_map.mp member
      rw [← same] at above ⊢
      exact ⟨above.le, flashBase_lt⟩
  unfold size
  omega

/-- The run up to the table. -/
theorem fisRemap_eq (some : r.olds ≠ []) : fisRemap m (Option.some r.directory.mem) r.old r.new =
    (moveTable m r.directory.mem (r.before.length + r.new.length) (r.before.length + r.olds.length) >>= fun mem =>
      fillTable m.order r.new mem r.before.length r.lowBase r.size >>= fun mem => .ok (0, Option.some mem)) := by
  have positive := List.length_pos_iff.mpr some
  have first : r.olds[0]? = Option.some (r.olds.head some) := by
    rw [← List.head?_eq_getElem?, List.head?_eq_some_head some]
  have last : r.olds[r.olds.length - 1]? = Option.some (r.olds.getLast some) := by
    rw [← List.getLast?_eq_getElem?, List.getLast?_eq_some_getLast some]
  have read_first := reads first
  have read_last := reads last
  have place : r.before.length + (r.olds.length - 1) = r.before.length + r.olds.length - 1 := by omega
  rw [Nat.add_zero r.before.length] at read_first
  rw [place] at read_last
  have low : (if flashBase m.order (r.olds.head some) > flashBase m.order (r.olds.getLast some) then
      flashBase m.order (r.olds.getLast some) else flashBase m.order (r.olds.head some)) = r.lowBase := by
    rw [lowBase, List.head?_eq_some_head some, List.getLast?_eq_some_getLast some, Option.map_some,
      Option.map_some, Option.getD_some, Option.getD_some]
    split <;> omega
  have high : (if flashBase m.order (r.olds.head some) > flashBase m.order (r.olds.getLast some) then
      flashBase m.order (r.olds.head some) else flashBase m.order (r.olds.getLast some)) = r.highBase := by
    rw [highBase, List.head?_eq_some_head some, List.getLast?_eq_some_getLast some, Option.map_some,
      Option.map_some, Option.getD_some, Option.getD_some]
    split <;> omega
  have behind : r.before.length + r.olds.length - 1 + 1 = r.before.length + r.olds.length := by omega
  rw [fisRemap]
  dsimp only
  rw [sees some, ok_bind]
  dsimp only
  rw [read_first, ok_bind, read_last, ok_bind, low, high, lowers some, ok_bind, (size_eq some).2.2, behind]

theorem table_eq (r : Replacement m) :
    r.directory.mem = (r.before ++ r.olds ++ (r.after ++ r.directory.rest)).flatten := by
  rw [Directory.mem, r.entries]
  simp only [List.append_assoc]

theorem widths (r : Replacement m) :
    ∀ x ∈ r.before ++ r.olds ++ (r.after ++ r.directory.rest), x.length = descSize := by
  intro x member
  refine r.directory.widths x ?_
  rw [r.entries]
  simpa only [List.append_assoc] using member

theorem slots_eq (r : Replacement m) : (r.directory.entries ++ r.directory.rest).length =
    r.before.length + r.olds.length + (r.after.length + r.directory.rest.length) := by
  rw [List.length_append, r.entries]
  simp only [List.length_append]
  omega

/-- With fewer new partitions than old ones, the memory behind the table is written. -/
theorem fisRemap_fewer (some : r.olds ≠ []) (fewer : r.new.length < r.olds.length) :
    fisRemap m (Option.some r.directory.mem) r.old r.new = .error .outside := by
  have small := r.directory.small
  rw [slots_eq] at small
  rw [fisRemap_eq some, table_eq, moveTable_shrink r.widths (by simpa using small) fewer]
  rfl

/-- The slots that stay behind the entries. -/
def blanks (r : Replacement m) : List (List UInt8) :=
  r.directory.rest.take (r.directory.rest.length - (r.new.length - r.old.length))

/-- Otherwise the new descriptors replace the old ones, and the table is moved up. -/
theorem fisRemap_more (some : r.olds ≠ []) (more : r.olds.length ≤ r.new.length) :
    fisRemap m (Option.some r.directory.mem) r.old r.new = .ok (0, Option.some
      (r.before ++ newsOf m.order r.new r.lowBase r.size ++ r.after ++ r.blanks).flatten) := by
  have small := r.directory.small
  have room := r.room
  rw [slots_eq] at small room
  have inside : r.new.length ≤ r.olds.length + (r.after ++ r.directory.rest).length := by
    rw [List.length_append]
    omega
  have kept : (r.after ++ r.directory.rest).take
      (r.olds.length + (r.after ++ r.directory.rest).length - r.new.length) = r.after ++ r.blanks := by
    rw [List.take_append, List.take_of_length_le (by rw [List.length_append]; omega), blanks, ← r.length_olds,
      List.length_append]
    congr 2
    omega
  have count : ((r.olds ++ (r.after ++ r.directory.rest)).take r.new.length).length = r.new.length := by
    rw [List.length_take, List.length_append]
    omega
  have widths' : ∀ x ∈ r.before ++ (r.olds ++ (r.after ++ r.directory.rest)).take r.new.length ++
      (r.after ++ r.blanks), x.length = descSize := by
    intro x member
    refine r.widths x ?_
    rw [← kept] at member
    rw [List.append_assoc]
    rcases List.mem_append.mp member with early | late
    · rcases List.mem_append.mp early with first | middle
      · exact List.mem_append_left _ first
      · exact List.mem_append_right _ (List.mem_of_mem_take middle)
    · exact List.mem_append_right _ (List.mem_append_right _ (List.mem_of_mem_take late))
  rw [fisRemap_eq some, table_eq, moveTable_grow r.widths (by simpa using small) more inside, ok_bind, kept,
    fillTable_eq widths' count, ok_bind, List.append_assoc _ r.after]

/-- The descriptors of a table are known from its bytes. -/
theorem flatten_inj {l l' : List (List UInt8)} (widths : ∀ x ∈ l, x.length = descSize)
    (widths' : ∀ x ∈ l', x.length = descSize) (same : l.flatten = l'.flatten) : l = l' := by
  induction l generalizing l' with
  | nil =>
    cases l' with
    | nil => rfl
    | cons y l' =>
      have length := congrArg List.length same
      rw [List.flatten_cons, List.length_append, widths' y List.mem_cons_self, List.flatten_nil,
        List.length_nil] at length
      unfold descSize at length
      omega
  | cons x l ih =>
    rw [List.forall_mem_cons] at widths
    cases l' with
    | nil =>
      have length := congrArg List.length same
      rw [List.flatten_cons, List.length_append, widths.1, List.flatten_nil, List.length_nil] at length
      unfold descSize at length
      omega
    | cons y l' =>
      rw [List.forall_mem_cons] at widths'
      rw [List.flatten_cons, List.flatten_cons] at same
      obtain ⟨rfl, later⟩ := List.append_inj same (widths.1.trans widths'.1.symm)
      rw [ih widths.2 widths'.2 later]

/-- Without old partitions, a null pointer is followed. -/
theorem fisRemap_none (none : r.olds = []) :
    fisRemap m (some r.directory.mem) r.old r.new = .error .outside := by
  have others : ∀ x ∈ r.directory.entries, isOld r.old (nameOf x) = false := by
    rw [r.entries, none, List.append_nil]
    exact r.others
  have seen := (@seeAll_others m.order r.old r.directory.entries 0 ⟨0, Option.none, Option.none⟩ others).1
  rw [fisRemap]
  dsimp only
  rw [seesAll, ok_bind, seen]

/-- Of descriptors that are laid out, the first one starts where it should. -/
theorem base_eq {e : Endian} {parts : List FisPart} {base offset size : Nat} (some : parts ≠ [])
    (laid : Laid e base parts (newsOf e parts offset size)) (small : offset < 2 ^ 32) : base = offset := by
  obtain ⟨part, parts, rfl⟩ := List.exists_cons_of_ne_nil some
  rw [newsOf] at laid
  cases laid with
  | cons desc sized placed later => rw [← placed, flashBase_descOf small]

theorem widths_laid {e : Endian} {base : Nat} {parts : List FisPart} {xs : List (List UInt8)}
    (laid : Laid e base parts xs) : xs.length = parts.length ∧ ∀ x ∈ xs, x.length = descSize := by
  induction laid with
  | nil => exact ⟨rfl, fun x member => absurd member List.not_mem_nil⟩
  | cons desc sized placed later ih =>
    exact ⟨congrArg (· + 1) ih.1, List.forall_mem_cons.mpr ⟨by rw [desc, length_descOf], ih.2⟩⟩

/-- What the slices of a table are made of. -/
theorem splice_inj {news news' blanks blanks' : List (List UInt8)} (count : news.length = news'.length)
    (widths : ∀ x ∈ news ++ blanks, x.length = descSize) (widths' : ∀ x ∈ news' ++ blanks', x.length = descSize)
    (same : (r.before ++ news ++ r.after ++ blanks).flatten = (r.before ++ news' ++ r.after ++ blanks').flatten) :
    news = news' ∧ blanks = blanks' := by
  have outer : ∀ x ∈ r.before ++ r.after, x.length = descSize := by
    intro x member
    refine r.widths x ?_
    rcases List.mem_append.mp member with first | later
    · exact List.mem_append_left _ (List.mem_append_left _ first)
    · exact List.mem_append_right _ (List.mem_append_left _ later)
  have all : ∀ news blanks : List (List UInt8), (∀ x ∈ news ++ blanks, x.length = descSize) →
      ∀ x ∈ r.before ++ news ++ r.after ++ blanks, x.length = descSize := by
    intro news blanks widths x member
    simp only [List.mem_append] at member widths outer
    rcases member with ((first | new) | later) | behind
    · exact outer x (.inl first)
    · exact widths x (.inl new)
    · exact outer x (.inr later)
    · exact widths x (.inr behind)
  have lists := flatten_inj (all _ _ widths) (all _ _ widths') same
  simp only [List.append_assoc] at lists
  obtain ⟨first, later⟩ := List.append_inj (List.append_cancel_left lists) count
  exact ⟨first, List.append_cancel_left later⟩

theorem all_sized (sized : ∀ part ∈ r.new.dropLast, part.size ≠ 0)
    (last : ¬∃ part ∈ r.new.getLast?, part.size = 0) : ∀ part ∈ r.new, part.size ≠ 0 := by
  intro part member zero
  have some : r.new ≠ [] := List.ne_nil_of_mem member
  rw [← List.dropLast_concat_getLast some, List.mem_append, List.mem_singleton] at member
  rcases member with early | rfl
  · exact sized part early zero
  · exact last ⟨_, List.getLast?_eq_some_getLast some, zero⟩

/-- The table is spliced exactly if there are old partitions and not fewer new ones, the lowest flash base is
that of the first or the last old one in the table, a size that is left open is not negative, and the slots
that stay behind the entries are blank. -/
theorem splices_iff (r : Replacement m) : r.Splices ↔
    r.old ≠ [] ∧ r.old.length ≤ r.new.length ∧ lowest m.order r.olds = r.lowBase ∧
      ((∃ part ∈ r.new.getLast?, part.size = 0) → sizes r.new ≤ r.size) ∧ ∀ x ∈ r.blanks, x = blank := by
  have sized := (fisValidate_eq.mp r.accepted).1
  by_cases none : r.olds = []
  · have empty : r.old = [] := by
      rw [← List.length_eq_zero_iff, ← r.length_olds, none]
      rfl
    constructor
    · rintro ⟨news, blanks, run, -⟩
      rw [fisRemap_none none] at run
      cases run
    · exact fun right => absurd empty right.1
  have nonempty : r.old ≠ [] := by
    rw [Ne, ← List.length_eq_zero_iff, ← r.length_olds, List.length_eq_zero_iff]
    exact none
  rw [and_iff_right nonempty, ← r.length_olds]
  by_cases more : r.olds.length ≤ r.new.length
  swap
  · constructor
    · rintro ⟨news, blanks, run, -⟩
      rw [fisRemap_fewer none (Nat.not_le.mp more)] at run
      cases run
    · exact fun right => absurd right.1 more
  rw [and_iff_right more]
  have new_some : r.new ≠ [] := List.ne_nil_of_length_pos ((List.length_pos_iff.mpr none).trans_le more)
  obtain ⟨low, next, -⟩ := size_eq none
  obtain ⟨ends, reaches, strict⟩ := spaceEnd_spec none r.olds_sub r.directory.ranges (bases_mem none).2
  have space := r.space
  have size_def : r.size = nextBase r.highBase (r.directory.entries.map (flashBase m.order)) - r.lowBase := rfl
  have small : r.size < 2 ^ 32 := by omega
  have blank_width : ∀ x ∈ r.blanks, x.length = descSize := fun x member =>
    r.directory.widths x (List.mem_append_right _ (List.mem_of_mem_take member))
  constructor
  · rintro ⟨news, blanks, run, -, laid, total, empty⟩
    rw [fisRemap_more none more] at run
    have same := Option.some.inj (Prod.mk.inj (Except.ok.inj run)).2
    obtain ⟨count, news_width⟩ := widths_laid laid
    obtain ⟨rfl, rfl⟩ := splice_inj (length_newsOf.trans count.symm)
      (List.forall_mem_append.mpr ⟨widths_newsOf, blank_width⟩)
      (List.forall_mem_append.mpr ⟨news_width, fun x member => by rw [empty x member, blank, List.length_replicate]⟩) same
    have start := base_eq new_some laid (low.trans_lt next)
    refine ⟨start, fun automatic => ?_, empty⟩
    obtain ⟨left, less, sum, rest⟩ := @sum_newsOf_automatic m.order r.new r.lowBase r.size sized automatic small
    rw [sum] at total
    omega
  · rintro ⟨start, open_size, empty⟩
    have room := r.room
    rw [slots_eq, ← Nat.add_assoc] at room
    have count : (r.before ++ newsOf m.order r.new r.lowBase r.size ++ r.after ++ r.blanks).length =
        (r.directory.entries ++ r.directory.rest).length := by
      rw [slots_eq]
      simp only [List.length_append, length_newsOf, blanks, List.length_take, ← r.length_olds]
      omega
    by_cases automatic : ∃ part ∈ r.new.getLast?, part.size = 0
    · have fits := open_size automatic
      refine ⟨_, r.blanks, fisRemap_more none more, count, ?_, ?_, empty⟩
      · rw [start]
        exact laid_newsOf sized small (.inl (by omega))
      · obtain ⟨left, less, sum, rest⟩ := @sum_newsOf_automatic m.order r.new r.lowBase r.size sized automatic small
        rw [sum, start]
        omega
    · have all := all_sized sized automatic
      refine ⟨_, r.blanks, fisRemap_more none more, count, ?_, ?_, empty⟩
      · rw [start]
        exact laid_newsOf sized small (.inr ⟨by omega, all⟩)
      · rw [sum_newsOf_sized all]
        exact space

end Replacement

/-! ### A smaller number of partitions -/

def machine : Machine := ⟨.little, 32, le_rfl⟩

/-- `linux` -/
def linux : FisPart := ⟨[0x6c, 0x69, 0x6e, 0x75, 0x78] ++ List.replicate 11 0, 0, 0x100000, 0, 0, rfl⟩

/-- `rootfs` -/
def rootfs : FisPart := ⟨[0x72, 0x6f, 0x6f, 0x74, 0x66, 0x73] ++ List.replicate 10 0, 0, 0x6a0000, 0, 0, rfl⟩

/-- `firmware` -/
def firmware : FisPart :=
  ⟨[0x66, 0x69, 0x72, 0x6d, 0x77, 0x61, 0x72, 0x65] ++ List.replicate 8 0, 0, 0x7a0000, 0, 0, rfl⟩

/-- A directory of 64 KiB with `linux` and `rootfs`. -/
def smallDirectory : Directory .little where
  entries := [descOf .little linux 0x40000 0x100000, descOf .little rootfs 0x140000 0x6a0000]
  rest := List.replicate 254 blank
  widths := by
    intro x member
    rcases List.mem_append.mp member with entry | rest
    · simp only [List.mem_cons, List.not_mem_nil, or_false] at entry
      rcases entry with rfl | rfl
      · exact length_descOf
      · exact length_descOf
    · rw [List.eq_of_mem_replicate rest, blank, List.length_replicate]
  small := by
    rw [List.length_append, List.length_replicate]
    decide
  used := by
    simp only [List.forall_mem_cons]
    exact ⟨by decide, by decide, fun x member => absurd member List.not_mem_nil⟩
  ended := by
    intro x first
    obtain rfl : blank = x := Option.some.inj first
    rfl
  ranges := by
    simp only [List.forall_mem_cons]
    refine ⟨?_, ?_, fun x member => absurd member List.not_mem_nil⟩
    · rw [flashBase_descOf (by decide), partSize_descOf (by decide)]
      decide
    · rw [flashBase_descOf (by decide), partSize_descOf (by decide)]
      decide

/-- `linux` and `rootfs` become `firmware`. -/
def merged : Replacement machine where
  directory := smallDirectory
  before := []
  olds := smallDirectory.entries
  after := []
  old := [linux, rootfs]
  new := [firmware]
  entries := (List.append_nil _).symm
  isOlds := by decide
  others := fun x member => absurd member List.not_mem_nil
  accepted := fisValidate_eq.mpr ⟨fun part member => absurd member List.not_mem_nil, by decide⟩
  room := by
    have two : smallDirectory.entries.length = 2 := rfl
    rw [List.length_append, two]
    exact (show 0 + 1 + 0 ≤ 2 by decide).trans (Nat.le_add_right 2 _)
  space := by
    have first : flashBase .little (descOf .little linux 0x40000 0x100000) = 0x40000 := flashBase_descOf (by decide)
    have second : flashBase .little (descOf .little rootfs 0x140000 0x6a0000) = 0x140000 :=
      flashBase_descOf (by decide)
    have length : partSize .little (descOf .little linux 0x40000 0x100000) = 0x100000 := partSize_descOf (by decide)
    have length' : partSize .little (descOf .little rootfs 0x140000 0x6a0000) = 0x6a0000 :=
      partSize_descOf (by decide)
    have bases : smallDirectory.entries.map (flashBase .little) = [0x40000, 0x140000] := by
      rw [smallDirectory, List.map_cons, List.map_cons, first, second]
      rfl
    have ends : smallDirectory.entries.map (fun x => flashBase .little x + partSize .little x) =
        [0x40000 + 0x100000, 0x140000 + 0x6a0000] := by
      rw [smallDirectory, List.map_cons, List.map_cons, first, second, length, length']
      rfl
    change lowest .little smallDirectory.entries + sizes [firmware] ≤
      spaceEnd .little smallDirectory.entries smallDirectory.entries
    rw [lowest, spaceEnd, highest, bases, ends]
    decide

/-- The memory behind the directory is written. -/
theorem not_splices : ¬merged.Splices := by
  rintro ⟨news, blanks, run, -⟩
  have some : merged.olds ≠ [] := List.cons_ne_nil _ _
  have fewer : merged.new.length < merged.olds.length := Nat.lt_succ_self 1
  rw [Replacement.fisRemap_fewer some fewer] at run
  cases run

end FirewallCore.MtdTool.Fis
