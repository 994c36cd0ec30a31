import FirewallCore.Lib.Checked
import Mathlib.Algebra.BigOperators.Group.List.Basic
import Mathlib.Data.List.MinMax

/-!
Replacing partitions in the FIS directory of RedBoot (`fis.c`).

The directory is an eraseblock that is mapped into memory, a table of descriptors of 256 bytes. Pointers
to descriptors are their numbers, and those to bytes are positions.
-/

namespace FirewallCore.MtdTool.Fis

open FirewallCore.Lib

/-! ### Descriptors -/

/-- `struct fis_part`, without the offset, which is not used. -/
structure FisPart where
  name : List UInt8
  loadaddr : UInt32
  size : UInt32
  length : UInt32
  crc : UInt32
  sixteen : name.length = 16

/-- The byte order of the processor and the bits of its `size_t`. -/
structure Machine where
  order : Endian
  sizeBits : Nat
  wide : 32 ≤ sizeBits

/-- `sizeof(struct fis_image_desc)` -/
def descSize : Nat := 256

/-- A length that may be negative, as a `size_t`. -/
def Machine.toSize (m : Machine) (length : Int) : Nat := (length % 2 ^ m.sizeBits).toNat

/-- `strncmp` of two arrays with the size of both. -/
def strncmp : List UInt8 → List UInt8 → Int
  | c :: cs, d :: ds => if c ≠ d then c.toNat - d.toNat else if c = 0 then 0 else strncmp cs ds
  | _, _ => 0

/-- A descriptor as `fis_remap` fills it. -/
def descOf (e : Endian) (part : FisPart) (flashBase size : Nat) : List UInt8 :=
  part.name ++ e.bytes flashBase ++ e.bytes part.loadaddr.toNat ++ e.bytes size ++
    e.bytes part.loadaddr.toNat ++ e.bytes (if part.length > 0 then part.length.toNat else size) ++
    List.replicate 212 0 ++ e.bytes 0 ++ e.bytes part.crc.toNat

/-! ### Walking through the table -/

/-- The loops over the descriptors, up to one whose name starts with 0 or 0xff. -/
def forEach {σ : Type} (mem : List UInt8) (body : Nat → σ → Checked Unit σ) : Nat → Nat → σ → Checked Unit σ
  | 0, _, s => .ok s
  | fuel + 1, desc, s =>
    if desc * descSize < mem.length then do
      let first ← load mem (descSize * desc) 1
      if first = [0] ∨ first = [0xff] then .ok s
      else do
        let s ← body desc s
        forEach mem body fuel (desc + 1) s
    else .ok s

/-- The descriptor has the name of one of the old partitions. -/
def isOld (old : List FisPart) (name : List UInt8) : Bool := old.any fun part => strncmp name part.name = 0

def countOld (mem : List UInt8) (old : List FisPart) (desc found : Nat) : Checked Unit Nat := do
  let name ← load mem (descSize * desc) 16
  .ok (if isOld old name then found + 1 else found)

/-- `fis_validate`, with the directory if it could be mapped. -/
def fisValidate (directory : Option (List UInt8)) (old new : List FisPart) : Checked Unit Int :=
  match directory with
  | none => .ok (-1)
  | some mem =>
    if new.dropLast.any fun part => part.size = 0 then .ok (-1)
    else do
      let found ← forEach mem (countOld mem old) mem.length 0 0
      .ok (if found = old.length then 1 else -1)

/-- What the first loop of `fis_remap` finds: the greatest flash base, and the first and the last of the
old partitions. -/
structure Seen where
  offset : Nat
  first : Option Nat
  last : Option Nat

def seeDesc (m : Machine) (mem : List UInt8) (old : List FisPart) (desc : Nat) (s : Seen) :
    Checked Unit Seen := do
  let base ← readWord m.order mem (descSize * desc + 16)
  let name ← load mem (descSize * desc) 16
  let offset := if s.offset < base then base else s.offset
  .ok (if isOld old name then ⟨offset, some (s.first.getD desc), some desc⟩ else { s with offset })

/-- The second loop looks for the next flash base behind the old partitions. -/
def lowerOffset (m : Machine) (mem : List UInt8) (lastBase : Nat) (desc offset : Nat) : Checked Unit Nat := do
  let base ← readWord m.order mem (descSize * desc + 16)
  .ok (if base > lastBase ∧ base < offset then base else offset)

/-- Makes room for the new descriptors, or closes the gap that they leave. -/
def moveTable (m : Machine) (mem : List UInt8) (desc last : Nat) : Checked Unit (List UInt8) :=
  if desc ≠ last then do
    let stop := mem.length
    let tmp := if desc > last then descSize * desc else descSize * last
    let mem ← memmove mem (descSize * desc) (descSize * last) (m.toSize ((stop : Int) - tmp))
    if desc < last then
      let tmp := stop - (last - desc) * descSize
      memset mem tmp 0xff (m.toSize ((tmp : Int) - stop))
    else .ok mem
  else .ok mem

/-- The loop over the new partitions. -/
def fillTable (e : Endian) : List FisPart → List UInt8 → Nat → Nat → Nat → Checked Unit (List UInt8)
  | [], mem, _, _, _ => .ok mem
  | part :: parts, mem, desc, offset, size => do
    let partSize := if part.size > 0 then part.size.toNat else size
    let mem ← store mem (descSize * desc) (descOf e part offset partSize)
    fillTable e parts mem (desc + 1) ((offset + partSize) % 2 ^ 32) ((size + 2 ^ 32 - partSize) % 2 ^ 32)

/-- `fis_remap`: the result and the directory. -/
def fisRemap (m : Machine) (directory : Option (List UInt8)) (old new : List FisPart) :
    Checked Unit (Int × Option (List UInt8)) :=
  match directory with
  | none => .ok (-1, none)
  | some mem => do
    let seen ← forEach mem (seeDesc m mem old) mem.length 0 ⟨0, none, none⟩
    match seen.first, seen.last with
    | some first, some last => do
      let base ← readWord m.order mem (descSize * first + 16)
      let base' ← readWord m.order mem (descSize * last + 16)
      let firstBase := if base > base' then base' else base
      let lastBase := if base > base' then base else base'
      let offset ← forEach mem (lowerOffset m mem lastBase) mem.length 0 seen.offset
      let mem ← moveTable m mem (first + new.length) (last + 1)
      let mem ← fillTable m.order new mem first firstBase ((offset + 2 ^ 32 - firstBase) % 2 ^ 32)
      .ok (0, some mem)
    -- the pointers are still null
    | _, _ => .error .outside

end FirewallCore.MtdTool.Fis

/-!
What `fis_remap` makes of a directory: the new descriptors in the place of the old ones.
-/

namespace FirewallCore.MtdTool.Fis

open FirewallCore.Lib

/-! ### Directories -/

def flashBase (e : Endian) (x : List UInt8) : Nat := e.numberAt x 16 4

def partSize (e : Endian) (x : List UInt8) : Nat := e.numberAt x 24 4

def nameOf (x : List UInt8) : List UInt8 := x.take 16

/-- A descriptor that was never written. -/
def blank : List UInt8 := List.replicate descSize 0xff

/-- A directory: descriptors in use, and behind them those from the first one on whose name starts with
0xff. Its size is an `int`. -/
structure Directory (e : Endian) where
  entries : List (List UInt8)
  rest : List (List UInt8)
  widths : ∀ x ∈ entries ++ rest, x.length = descSize
  small : descSize * (entries ++ rest).length < 2 ^ 31
  used : ∀ x ∈ entries, x.take 1 ≠ [0] ∧ x.take 1 ≠ [0xff]
  ended : ∀ x ∈ rest.head?, x.take 1 = [0xff]
  ranges : ∀ x ∈ entries, flashBase e x + partSize e x ≤ 2 ^ 32

def Directory.mem {e : Endian} (d : Directory e) : List UInt8 := (d.entries ++ d.rest).flatten

section Walking

variable {e : Endian} {d : Directory e} {σ : Type} {body : Nat → σ → Checked Unit σ} {k fuel : Nat} {s : σ}
  {x : List UInt8} {old new : List FisPart}

theorem Directory.length_mem (d : Directory e) : d.mem.length = descSize * (d.entries ++ d.rest).length :=
  length_slots d.widths

theorem Directory.slot (d : Directory e) (entry : d.entries[k]? = some x) : (d.entries ++ d.rest)[k]? = some x := by
  obtain ⟨inside, -⟩ := List.getElem?_eq_some_iff.mp entry
  rw [List.getElem?_append_left inside, entry]

/-- A loop over the table goes over the descriptors in use. -/
theorem forEach_eq {step : Nat → List UInt8 → σ → σ}
    (takes : ∀ k x s, d.entries[k]? = some x → body k s = .ok (step k x s)) (le : k ≤ d.entries.length)
    (enough : d.entries.length ≤ fuel + k) :
    forEach d.mem body fuel k s = .ok (((d.entries.drop k).zipIdx k).foldl (fun s p => step p.2 p.1 s) s) := by
  induction fuel generalizing k s with
  | zero =>
    rw [List.drop_eq_nil_of_le (by omega)]
    rfl
  | succ fuel ih =>
    rw [forEach]
    rcases Nat.lt_or_eq_of_le le with used | rfl
    · have entry : d.entries[k]? = some d.entries[k] := List.getElem?_eq_getElem used
      have inside : k * descSize < d.mem.length := by
        rw [d.length_mem, Nat.mul_comm, List.length_append]
        exact Nat.mul_lt_mul_of_pos_left (by omega) (by decide)
      obtain ⟨zero, erased⟩ := d.used _ (List.getElem_mem used)
      rw [if_pos inside, Directory.mem, load_slot d.widths (d.slot entry) (by decide), ok_bind,
        if_neg (not_or.mpr ⟨zero, erased⟩), takes k _ s entry, ok_bind, ← Directory.mem, ih used (by omega),
        List.drop_eq_getElem_cons used, List.zipIdx_cons, List.foldl_cons]
    · rw [List.drop_length]
      cases rest : d.rest with
      | nil =>
        have all : d.mem.length = descSize * d.entries.length := by
          rw [d.length_mem, rest, List.append_nil]
        rw [if_neg (by rw [all, Nat.mul_comm]; exact Nat.lt_irrefl _)]
        rfl
      | cons y later =>
        have slot : (d.entries ++ d.rest)[d.entries.length]? = some y := by
          rw [rest, List.getElem?_append_right le_rfl, Nat.sub_self]
          rfl
        have inside : d.entries.length * descSize < d.mem.length := by
          rw [d.length_mem, Nat.mul_comm, rest, List.length_append, List.length_cons]
          exact Nat.mul_lt_mul_of_pos_left (by omega) (by decide)
        have ended := d.ended y (by rw [rest]; rfl)
        rw [if_pos inside, Directory.mem, load_slot d.widths slot (by decide), ok_bind, if_pos (.inr ended)]
        rfl

theorem foldl_zipIdx {α β : Type} (f : α → β → β) (l : List α) (k : Nat) (b : β) :
    (l.zipIdx k).foldl (fun s p => f p.1 s) b = l.foldl (fun s x => f x s) b := by
  induction l generalizing k b with
  | nil => rfl
  | cons x l ih => exact ih (k + 1) (f x b)

theorem Directory.entries_le (d : Directory e) : d.entries.length ≤ d.mem.length + 0 := by
  rw [d.length_mem, List.length_append]
  unfold descSize
  omega

/-- The old partitions among descriptors. -/
def oldAmong (old : List FisPart) (entries : List (List UInt8)) : List (List UInt8) :=
  entries.filter fun x => isOld old (nameOf x)

theorem fisValidate_eq : fisValidate (some d.mem) old new = .ok 1 ↔
    (∀ part ∈ new.dropLast, part.size ≠ 0) ∧ (oldAmong old d.entries).length = old.length := by
  have counts : ∀ k x n, d.entries[k]? = some x →
      countOld d.mem old k n = .ok (if isOld old (nameOf x) then n + 1 else n) := by
    intro k x n entry
    rw [countOld, Directory.mem, load_slot d.widths (d.slot entry) (by decide), ok_bind]
    rfl
  have total : ∀ (l : List (List UInt8)) (n : Nat),
      l.foldl (fun n x => if isOld old (nameOf x) then n + 1 else n) n = n + (oldAmong old l).length := by
    intro l
    induction l with
    | nil => exact fun n => rfl
    | cons x l ih =>
      intro n
      rw [List.foldl_cons, ih, oldAmong, oldAmong, List.filter_cons]
      split
      · rw [List.length_cons]
        omega
      · rfl
  rw [fisValidate]
  by_cases automatic : (new.dropLast.any fun part => part.size = 0) = true
  · rw [if_pos automatic]
    obtain ⟨part, member, zero⟩ := List.any_eq_true.mp automatic
    constructor
    · intro same
      cases same
    · exact fun ⟨sized, _⟩ => absurd (of_decide_eq_true zero) (sized part member)
  · rw [if_neg automatic, forEach_eq counts (Nat.zero_le _) d.entries_le, ok_bind, List.drop_zero,
      foldl_zipIdx (fun x n => if isOld old (nameOf x) then n + 1 else n), total, Nat.zero_add]
    have sized : ∀ part ∈ new.dropLast, part.size ≠ 0 := by
      intro part member zero
      exact automatic (List.any_eq_true.mpr ⟨part, member, decide_eq_true zero⟩)
    rw [and_iff_right sized]
    split
    · rename_i all
      exact ⟨fun _ => all, fun _ => rfl⟩
    · rename_i missing
      constructor
      · intro same
        cases same
      · exact fun all => absurd all missing

end Walking

/-! ### What the loops find -/

section Finding

variable {e : Endian} {d : Directory e} {m : Machine} {old : List FisPart} {xs before olds after : List (List UInt8)}
  {bases : List Nat} {k low high limit : Nat} {s : Seen}

/-- The greatest of numbers. -/
def raise (bases : List Nat) (offset : Nat) : Nat :=
  bases.foldl (fun offset base => if offset < base then base else offset) offset

/-- The numbers behind `high` pull the offset down. -/
def lower (high : Nat) (bases : List Nat) (offset : Nat) : Nat :=
  bases.foldl (fun offset base => if base > high ∧ base < offset then base else offset) offset

/-- The next of the numbers behind `high`, or `high` if it is the last one. -/
def nextBase (high : Nat) (bases : List Nat) : Nat := ((bases.filter (high < ·)).min?).getD high

theorem le_raise (offset : Nat) : offset ≤ raise bases offset ∧ ∀ base ∈ bases, base ≤ raise bases offset := by
  induction bases generalizing offset with
  | nil => exact ⟨le_rfl, fun base member => absurd member List.not_mem_nil⟩
  | cons b bases ih =>
    obtain ⟨least, upper⟩ := ih (if offset < b then b else offset)
    rw [raise, List.foldl_cons, ← raise]
    refine ⟨le_trans (by split <;> omega) least, fun base member => ?_⟩
    rcases List.mem_cons.mp member with rfl | later
    · exact le_trans (by split <;> omega) least
    · exact upper base later

theorem raise_mem (offset : Nat) : raise bases offset = offset ∨ raise bases offset ∈ bases := by
  induction bases generalizing offset with
  | nil => exact .inl rfl
  | cons b bases ih =>
    rw [raise, List.foldl_cons, ← raise]
    rcases ih (if offset < b then b else offset) with same | later
    · rw [same]
      split
      · exact .inr List.mem_cons_self
      · exact .inl rfl
    · exact .inr (List.mem_cons_of_mem _ later)

theorem lower_spec {offset : Nat} (behind : high < offset) : high < lower high bases offset ∧
    (lower high bases offset = offset ∨ lower high bases offset ∈ bases) ∧
    lower high bases offset ≤ offset ∧ ∀ base ∈ bases, high < base → lower high bases offset ≤ base := by
  induction bases generalizing offset with
  | nil => exact ⟨behind, .inl rfl, le_rfl, fun base member => absurd member List.not_mem_nil⟩
  | cons b bases ih =>
    have step : lower high (b :: bases) offset =
        lower high bases (if b > high ∧ b < offset then b else offset) := rfl
    have behind' : high < if b > high ∧ b < offset then b else offset := by split <;> omega
    obtain ⟨above, place, least, upper⟩ := ih behind'
    rw [step]
    refine ⟨above, ?_, least.trans (by split <;> omega), fun base member high => ?_⟩
    · rcases place with same | later
      · rw [same]
        split
        · exact .inr List.mem_cons_self
        · exact .inl rfl
      · exact .inr (List.mem_cons_of_mem _ later)
    · rcases List.mem_cons.mp member with rfl | later
      · exact least.trans (by split <;> omega)
      · exact upper base later high

/-- The two loops find the next flash base. -/
theorem lower_raise (member : high ∈ bases) : lower high bases (raise bases 0) = nextBase high bases := by
  have greatest := (@le_raise bases 0).2
  have reached := @raise_mem bases 0
  unfold nextBase
  by_cases last : ∀ base ∈ bases, base ≤ high
  · have same : raise bases 0 = high := by
      refine le_antisymm ?_ (greatest high member)
      rcases reached with zero | there
      · omega
      · exact last _ there
    have none : bases.filter (high < ·) = [] := by
      rw [List.filter_eq_nil_iff]
      intro base there
      simpa using last base there
    have unchanged : ∀ bases : List Nat, (∀ base ∈ bases, base ≤ high) → lower high bases high = high := by
      intro bases low
      induction bases with
      | nil => rfl
      | cons b bases ih =>
        rw [List.forall_mem_cons] at low
        rw [lower, List.foldl_cons, if_neg (by omega), ← lower]
        exact ih low.2
    rw [same, none, unchanged bases last]
    rfl
  · push Not at last
    obtain ⟨base, there, behind⟩ := last
    have above : high < raise bases 0 := behind.trans_le (greatest base there)
    obtain ⟨above', place, -, least⟩ := @lower_spec bases high _ above
    have found : lower high bases (raise bases 0) ∈ bases.filter (high < ·) := by
      rw [List.mem_filter, decide_eq_true_eq]
      refine ⟨?_, above'⟩
      rcases place with same | there
      · rw [same]
        exact reached.resolve_left fun zero => by omega
      · exact there
    have minimum : (bases.filter (high < ·)).min? = some (lower high bases (raise bases 0)) := by
      rw [List.min?_eq_some_iff]
      refine ⟨found, fun base member => ?_⟩
      rw [List.mem_filter, decide_eq_true_eq] at member
      exact least base member.1 member.2
    rw [minimum]
    rfl

/-- A descriptor in the first loop. -/
def seeStep (e : Endian) (old : List FisPart) (k : Nat) (x : List UInt8) (s : Seen) : Seen :=
  if isOld old (nameOf x) then
    ⟨if s.offset < flashBase e x then flashBase e x else s.offset, some (s.first.getD k), some k⟩
  else { s with offset := if s.offset < flashBase e x then flashBase e x else s.offset }

/-- The first loop over descriptors that are numbered from `k` on. -/
def seeAll (e : Endian) (old : List FisPart) (k : Nat) (xs : List (List UInt8)) (s : Seen) : Seen :=
  (xs.zipIdx k).foldl (fun s p => seeStep e old p.2 p.1 s) s

theorem seeAll_cons {x : List UInt8} :
    seeAll e old k (x :: xs) s = seeAll e old (k + 1) xs (seeStep e old k x s) := rfl

theorem seeAll_append {ys : List (List UInt8)} :
    seeAll e old k (xs ++ ys) s = seeAll e old (k + xs.length) ys (seeAll e old k xs s) := by
  rw [seeAll, List.zipIdx_append, List.foldl_append]
  rfl

theorem seeAll_offset : (seeAll e old k xs s).offset = raise (xs.map (flashBase e)) s.offset := by
  induction xs generalizing k s with
  | nil => rfl
  | cons x xs ih =>
    rw [seeAll_cons, ih]
    unfold seeStep
    split <;> rfl

theorem seeAll_others (others : ∀ x ∈ xs, isOld old (nameOf x) = false) :
    (seeAll e old k xs s).first = s.first ∧ (seeAll e old k xs s).last = s.last := by
  induction xs generalizing k s with
  | nil => exact ⟨rfl, rfl⟩
  | cons x xs ih =>
    rw [List.forall_mem_cons] at others
    rw [seeAll_cons, seeStep, if_neg (by rw [others.1]; decide)]
    exact ih others.2

theorem seeAll_olds (all : ∀ x ∈ xs, isOld old (nameOf x) = true) (some : xs ≠ []) :
    (seeAll e old k xs s).first = Option.some (s.first.getD k) ∧
      (seeAll e old k xs s).last = Option.some (k + xs.length - 1) := by
  induction xs generalizing k s with
  | nil => exact absurd rfl some
  | cons x xs ih =>
    rw [List.forall_mem_cons] at all
    rw [seeAll_cons, seeStep, if_pos all.1]
    by_cases none : xs = []
    · subst none
      exact ⟨rfl, rfl⟩
    · obtain ⟨first, last⟩ := @ih (k + 1) ⟨if s.offset < flashBase e x then flashBase e x else s.offset,
        Option.some (s.first.getD k), Option.some k⟩ all.2 none
      refine ⟨first, last.trans (congrArg Option.some ?_)⟩
      rw [List.length_cons]
      omega

/-- The first loop finds the old partitions that are next to each other. -/
theorem seeAll_eq (others : ∀ x ∈ before ++ after, isOld old (nameOf x) = false)
    (all : ∀ x ∈ olds, isOld old (nameOf x) = true) (some : olds ≠ []) :
    seeAll e old 0 (before ++ olds ++ after) ⟨0, none, none⟩ =
      ⟨raise ((before ++ olds ++ after).map (flashBase e)) 0, Option.some before.length,
        Option.some (before.length + olds.length - 1)⟩ := by
  have offset := @seeAll_offset e old (before ++ olds ++ after) 0 ⟨0, none, none⟩
  have both : (seeAll e old 0 (before ++ olds ++ after) ⟨0, none, none⟩).first = Option.some before.length ∧
      (seeAll e old 0 (before ++ olds ++ after) ⟨0, none, none⟩).last =
        Option.some (before.length + olds.length - 1) := by
    rw [seeAll_append, seeAll_append, Nat.zero_add, Nat.zero_add]
    have first := @seeAll_others e old before 0 ⟨0, none, none⟩ fun x member =>
      others x (List.mem_append_left _ member)
    have found := @seeAll_olds e old olds before.length (seeAll e old 0 before ⟨0, none, none⟩) all some
    have later := fun s => @seeAll_others e old after (before ++ olds).length s fun x member =>
      others x (List.mem_append_right _ member)
    rw [(later _).1, (later _).2, found.1, found.2, first.1]
    exact ⟨rfl, rfl⟩
  generalize seeAll e old 0 (before ++ olds ++ after) ⟨0, none, none⟩ = seen at offset both ⊢
  obtain ⟨o, f, l⟩ := seen
  obtain ⟨rfl, rfl⟩ := both
  subst offset
  rfl

end Finding

end FirewallCore.MtdTool.Fis
