import FirewallCore.Nvram.Text

/-!
Handles: the variables of one, what setting variables keeps, and what opening a partition gives.
-/

namespace FirewallCore.Nvram

open FirewallCore.Lib HashChains

/-! ### Sizes -/

/-- The variables of a handle, chain by chain. -/
def tuplesOf (h : Handle) : List (CStr × CStr) := h.table.entries arraySize

/-- Where the text of all variables ends, behind the start of the header. -/
def textEnd (h : Handle) : Nat := headerSize + (encodeAll (tuplesOf h)).length

/-- The size of the partition behind the start of the header. -/
def space (h : Handle) : Nat := h.mmap.length - h.offset

/-- The variables that are written. -/
def written (h : Handle) : List (CStr × CStr) :=
  fittingAll (h.mmap.length - 2 - (h.offset + headerSize)) ((List.range arraySize).map h.table)

/-! ### Valid handles -/

/-- Strings in their chains. -/
structure Strings (m : Machine) (t : Table CStr CStr) : Prop where
  placed : t.WellPlaced (place m)
  terminated : ∀ i, ∀ e ∈ t i, Terminated e

/-- A partition with its header at an offset. -/
structure HeaderAt (m : Machine) (buf : List UInt8) (offset : Nat) : Prop where
  aligned : offset % 4 = 0
  room : offset + NVRAM_MIN_SPACE ≤ buf.length
  magic : wordAt m buf offset = NVRAM_MAGIC
  first : ∀ i, 4 * i < offset → wordAt m buf (4 * i) ≠ NVRAM_MAGIC

structure Valid (m : Machine) (h : Handle) : Prop where
  size : h.mmap.length % 4 = 0
  small : h.mmap.length < 2 ^ 31
  page : h.addr % 4 = 0
  header : HeaderAt m h.mmap h.offset
  strings : Strings m h.table

section Valid

variable {m : Machine} {h h' : Handle} {t : Table CStr CStr} {buf file : List UInt8} {name value : CStr}
  {tuples : List (CStr × CStr)} {offset : Nat}

theorem strings_empty : Strings m .empty := ⟨Table.wellPlaced_empty, fun _ _ member => nomatch member⟩

theorem Strings.set (strings : Strings m t) (string : Terminated (name, value)) :
    Strings m (t.set (place m) name value) := by
  refine ⟨strings.placed.set, fun i e member => ?_⟩
  unfold Table.set at member
  by_cases here : i = place m name
  · subst here
    rw [Table.put_same] at member
    split at member
    · rcases Table.mem_keys_replace member with member | rfl
      · exact strings.terminated _ e member
      · exact string
    · rcases List.mem_cons.mp member with rfl | member
      · exact string
      · exact strings.terminated _ e member
  · rw [Table.put_other here] at member
    exact strings.terminated i e member

theorem Strings.unset (strings : Strings m t) : Strings m (t.unset (place m) name) := by
  refine ⟨strings.placed.unset, fun i e member => ?_⟩
  unfold Table.unset at member
  by_cases here : i = place m name
  · subst here
    rw [Table.put_same] at member
    exact strings.terminated _ e (erase_sublist.subset member)
  · rw [Table.put_other here] at member
    exact strings.terminated i e member

theorem place_lt (name : CStr) : place m name < arraySize := Nat.mod_lt _ (by decide)

theorem mem_tuplesOf (strings : Strings m h.table) : (name, value) ∈ tuplesOf h ↔ nvramGet m h name = some value :=
  Table.mem_entries strings.placed place_lt

theorem terminated_tuplesOf (strings : Strings m h.table) : ∀ t ∈ tuplesOf h, Terminated t := by
  intro t member
  obtain ⟨i, -, member⟩ := List.mem_flatMap.mp member
  exact strings.terminated i t member

/-! ### Sets -/

/-- A handle that differs in its table only. -/
def SameMapping (h h' : Handle) : Prop :=
  h'.mmap = h.mmap ∧ h'.addr = h.addr ∧ h'.offset = h.offset ∧ h'.rdonly = h.rdonly

theorem space_at_start (start : h.offset = 0) : space h = h.mmap.length := by
  rw [space, start, Nat.sub_zero]

theorem nvramSet_short (short : value.length + 1 ≤ space h) :
    nvramSet m h name value = (0, { h with table := h.table.set (place m) name value }) :=
  if_neg (Nat.not_lt.mpr short)

theorem nvramSet_same : SameMapping h (nvramSet m h name value).2 := by
  unfold nvramSet
  split
  · exact ⟨rfl, rfl, rfl, rfl⟩
  · exact ⟨rfl, rfl, rfl, rfl⟩

theorem nvramSet_strings (strings : Strings m h.table) (string : Terminated (name, value)) :
    Strings m (nvramSet m h name value).2.table := by
  unfold nvramSet
  split
  · exact strings
  · exact strings.set string

theorem setMissing_same : SameMapping h (setMissing m h name value) := by
  unfold setMissing
  split
  · exact ⟨rfl, rfl, rfl, rfl⟩
  · exact nvramSet_same

theorem setMissing_strings (strings : Strings m h.table) (string : Terminated (name, value)) :
    Strings m (setMissing m h name value).table := by
  unfold setMissing
  split
  · exact strings
  · exact nvramSet_strings strings string

theorem SameMapping.trans {h'' : Handle} (first : SameMapping h h') (second : SameMapping h' h'') :
    SameMapping h h'' :=
  ⟨second.1.trans first.1, second.2.1.trans first.2.1, second.2.2.1.trans first.2.2.1,
    second.2.2.2.trans first.2.2.2⟩

theorem setAll_same : SameMapping h (setAll m h tuples) := by
  induction tuples generalizing h with
  | nil => exact ⟨rfl, rfl, rfl, rfl⟩
  | cons t tuples ih => exact nvramSet_same.trans ih

theorem setAll_strings (strings : Strings m h.table) (each : ∀ t ∈ tuples, Terminated t) :
    Strings m (setAll m h tuples).table := by
  induction tuples generalizing h with
  | nil => exact strings
  | cons t tuples ih =>
    rw [List.forall_mem_cons] at each
    exact ih (nvramSet_strings strings each.1) each.2

/-- Short values are all set. -/
theorem setAll_table (short : ∀ t ∈ tuples, t.2.length + 1 ≤ space h) :
    (setAll m h tuples).table = tuples.foldl (fun table t => table.set (place m) t.1 t.2) h.table := by
  induction tuples generalizing h with
  | nil => rfl
  | cons t tuples ih =>
    rw [List.forall_mem_cons] at short
    rw [setAll, List.foldl_cons, nvramSet_short short.1]
    exact ih short.2

/-- A variable that is missing is made, and no other changes. -/
theorem setMissing_get (n : CStr) : nvramGet m (setMissing m h name value) n = nvramGet m h n ∨
    n = name ∧ nvramGet m h n = none := by
  unfold setMissing
  split
  · exact .inl rfl
  · rename_i missing
    unfold nvramSet
    split
    · exact .inl rfl
    · by_cases same : name = n
      · subst same
        exact .inr ⟨rfl, by simpa using missing⟩
      · left
        unfold nvramGet
        rw [Table.get_set, if_neg same]

theorem hexText_terminated (width n : Nat) : 0 ∉ hexText width n := by
  unfold hexText
  rw [List.mem_cons, List.mem_cons, List.mem_map]
  rintro (zero | x | ⟨i, -, digit⟩)
  · exact absurd zero (by decide)
  · exact absurd x (by decide)
  · have small : n / 16 ^ i % 16 < 16 := Nat.mod_lt _ (by decide)
    have value := congrArg UInt8.toNat digit
    dsimp only at value
    rw [UInt8.toNat_ofNat', Nat.mod_eq_of_lt (by split <;> omega), UInt8.toNat_zero] at value
    split at value
    · omega
    · omega

/-- The four variables of the header have names without a NUL. -/
theorem sdramNames_terminated : ∀ name ∈ sdramNames, (0 : UInt8) ∉ name := by decide +kernel

theorem setSdram_same {a b c : Nat} : SameMapping h (setSdram m h a b c) :=
  setMissing_same.trans (setMissing_same.trans (setMissing_same.trans setMissing_same))

theorem setSdram_strings {a b c : Nat} (strings : Strings m h.table) :
    Strings m (setSdram m h a b c).table := by
  have named : ∀ name ∈ sdramNames, ∀ width n, Terminated (name, hexText width n) :=
    fun name member width n => ⟨sdramNames_terminated name member, hexText_terminated width n⟩
  unfold setSdram
  apply setMissing_strings _ (named _ (by simp [sdramNames]) _ _)
  apply setMissing_strings _ (named _ (by simp [sdramNames]) _ _)
  apply setMissing_strings _ (named _ (by simp [sdramNames]) _ _)
  exact setMissing_strings strings (named _ (by simp [sdramNames]) _ _)

/-- The variables are those of the first handle, but for some of the four that it does not have. -/
def SameVariables (m : Machine) (h h' : Handle) : Prop :=
  ∀ name, nvramGet m h' name = nvramGet m h name ∨ name ∈ sdramNames ∧ nvramGet m h name = none

theorem SameVariables.trans {h'' : Handle} (first : SameVariables m h h') (second : SameVariables m h' h'') :
    SameVariables m h h'' := by
  intro n
  rcases first n with same | made
  · rcases second n with same' | made'
    · exact .inl (same'.trans same)
    · exact .inr ⟨made'.1, same.symm.trans made'.2⟩
  · exact .inr made

theorem setMissing_sameVariables (sdram : name ∈ sdramNames) : SameVariables m h (setMissing m h name value) := by
  intro n
  rcases @setMissing_get m h name value n with same | ⟨rfl, missing⟩
  · exact .inl same
  · exact .inr ⟨sdram, missing⟩

theorem setSdram_sameVariables {a b c : Nat} : SameVariables m h (setSdram m h a b c) := by
  have made : ∀ {h : Handle} {name value : CStr}, name ∈ sdramNames →
    SameVariables m h (setMissing m h name value) := setMissing_sameVariables
  exact (made (by simp [sdramNames])).trans ((made (by simp [sdramNames])).trans
    ((made (by simp [sdramNames])).trans (made (by simp [sdramNames]))))

/-! ### Reading a partition -/

/-- What is read of a text are strings. -/
theorem parseText_terminated {fuel : Nat} {text : List UInt8} (parsed : parseText fuel text = .ok tuples) :
    ∀ t ∈ tuples, Terminated t := by
  induction fuel generalizing text tuples with
  | zero => cases parsed
  | succ fuel ih =>
    rw [parseText.eq_def] at parsed
    dsimp only at parsed
    split at parsed
    · cases parsed
    · split at parsed
      · cases parsed
        exact fun t member => nomatch member
      · split at parsed
        · cases parsed
        · split at parsed
          · cases parsed
            exact fun t member => nomatch member
          · split at parsed
            · cases parsed
            · rename_i later _
              cases rest : parseText fuel later with
              | error fault =>
                rw [rest] at parsed
                cases parsed
              | ok more =>
                rw [rest] at parsed
                cases parsed
                rw [List.forall_mem_cons]
                refine ⟨⟨fun member => ?_, fun member => ?_⟩, ih rest⟩
                · exact absurd (List.mem_takeWhile_imp member) (by simp)
                · exact absurd (List.mem_takeWhile_imp member) (by simp)

/-- What rebuilding the table gives. -/
theorem rehash_ok {h' : Handle} (done : rehash m h = .ok h') :
    ∃ tuples a b c, parseText h.mmap.length (textOf h) = .ok tuples ∧
      h' = setSdram m (setAll m { h with table := .empty } tuples) a b c := by
  obtain ⟨tuples, parsed, done⟩ := bind_eq_ok_iff.mp done
  obtain ⟨a, -, done⟩ := bind_eq_ok_iff.mp done
  obtain ⟨b, -, done⟩ := bind_eq_ok_iff.mp done
  obtain ⟨c, -, done⟩ := bind_eq_ok_iff.mp done
  cases done
  exact ⟨tuples, a, b, c, parsed, rfl⟩

theorem rehash_returns (inside : h.offset + headerSize ≤ h.mmap.length)
    (parsed : parseText h.mmap.length (textOf h) = .ok tuples) :
    ∃ a b c, rehash m h = .ok (setSdram m (setAll m { h with table := .empty } tuples) a b c) := by
  obtain ⟨mmap, -, offset, -⟩ : SameMapping { h with table := .empty }
    (setAll m { h with table := .empty } tuples) := setAll_same
  have words : ∀ i ≤ 16, (setAll m { h with table := .empty } tuples).offset + i + 4 ≤
      (setAll m { h with table := .empty } tuples).mmap.length := by
    intro i within
    rw [mmap, offset]
    exact (Nat.add_le_add_left (Nat.add_le_add_right within 4) h.offset).trans inside
  exact ⟨_, _, _, bind_eq_ok_iff.mpr ⟨tuples, parsed,
    bind_eq_ok_iff.mpr ⟨_, readWord_inside (words 8 (by decide)),
      bind_eq_ok_iff.mpr ⟨_, readWord_inside (words 12 (by decide)),
        bind_eq_ok_iff.mpr ⟨_, readWord_inside (words 16 (by decide)), rfl⟩⟩⟩⟩⟩

theorem rehash_valid {h' : Handle} (done : rehash m h = .ok h') :
    SameMapping h h' ∧ Strings m h'.table := by
  obtain ⟨tuples, a, b, c, parsed, rfl⟩ := rehash_ok done
  have mapped : SameMapping h { h with table := .empty } := ⟨rfl, rfl, rfl, rfl⟩
  refine ⟨mapped.trans (setAll_same.trans setSdram_same), ?_⟩
  exact setSdram_strings (setAll_strings strings_empty (parseText_terminated parsed))

/-! ### Opening -/

/-- The header is found where it is. -/
theorem findMagic_eq_some : findMagic m buf = some offset ↔ HeaderAt m buf offset := by
  have positive : 4 ≤ NVRAM_MIN_SPACE := by decide
  unfold findMagic
  rw [Option.map_eq_some_iff]
  constructor
  · rintro ⟨i, found, rfl⟩
    rw [List.find?_range_eq_some] at found
    obtain ⟨magic, member, before⟩ := found
    obtain ⟨room, magic⟩ := of_decide_eq_true magic
    refine ⟨Nat.mul_mod_right 4 i, room, magic, fun j less same => ?_⟩
    have less' : j < i := Nat.lt_of_mul_lt_mul_left less
    have room' : 4 * j + NVRAM_MIN_SPACE ≤ buf.length :=
      (Nat.add_le_add_right (Nat.mul_le_mul_left 4 less'.le) _).trans room
    have skipped := before j less'
    simp [room', same] at skipped
  · rintro ⟨aligned, room, magic, first⟩
    obtain ⟨i, rfl⟩ := Nat.dvd_of_mod_eq_zero aligned
    refine ⟨i, List.find?_range_eq_some.mpr ⟨decide_eq_true ⟨room, magic⟩, ?_, fun j less => ?_⟩, rfl⟩
    · rw [List.mem_range, Nat.lt_div_iff_mul_lt (by decide)]
      omega
    · have other := first j (Nat.mul_lt_mul_of_pos_left less (by decide))
      simp [other]

/-- What an opened partition is. -/
theorem nvramOpen_ok {addr : Nat} {rdonly : Bool} (done : nvramOpen m addr file rdonly = .ok h) :
    HeaderAt m file h.offset ∧ h.mmap = file ∧ h.addr = addr ∧ h.rdonly = rdonly ∧ Strings m h.table := by
  unfold nvramOpen at done
  split at done
  · cases done
  · rename_i offset found
    split at done
    · obtain ⟨⟨mmap, addr, offset', rdonly⟩, strings⟩ := rehash_valid done
      rw [offset', mmap, addr, rdonly]
      exact ⟨findMagic_eq_some.mp found, rfl, rfl, rfl, strings⟩
    · cases done

/-- A partition with a header is opened for reading, and for writing if its length is small. -/
theorem nvramOpen_eq {addr : Nat} {rdonly : Bool} (header : HeaderAt m file offset) :
    nvramOpen m addr file rdonly = if rdonly ∨ wordAt m file (offset + 4) < file.length - offset then
      rehash m ⟨file, addr, offset, rdonly, .empty⟩ else .error (.error ()) := by
  unfold nvramOpen
  rw [findMagic_eq_some.mpr header]

end Valid

/-! ### Runs -/

/-- The files and handles of all runs: opening a partition, setting and taking out variables, and
committing them. Mappings are on whole pages. -/
inductive Reached (m : Machine) : List UInt8 → Handle → Prop
  | opened {file : List UInt8} {addr : Nat} {rdonly : Bool} {h : Handle}
      (enough : NVRAM_MIN_SPACE ≤ file.length) (size : file.length % 4 = 0) (small : file.length < 2 ^ 31)
      (page : addr % 4096 = 0) (done : nvramOpen m addr file rdonly = .ok h) : Reached m file h
  | set {file : List UInt8} {h : Handle} {name value : CStr} (before : Reached m file h)
      (string : Terminated (name, value)) : Reached m file (nvramSet m h name value).2
  | unset {file : List UInt8} {h : Handle} {name : CStr} (before : Reached m file h) :
      Reached m file (nvramUnset m h name)
  | commit {file : List UInt8} {h h' : Handle} {code : Int} (before : Reached m file h)
      (done : nvramCommit m h = .ok (code, h')) : Reached m (fileAfter file h') h'

end FirewallCore.Nvram
