import FirewallCore.Nvram.Commit

/-!
What a commit stores: where the variables of a handle come back, and where all of them are kept.

`nvram_set` looks at one value only. A commit returns 0 always, also when variables did not fit.
-/

namespace FirewallCore.Nvram

open FirewallCore.Lib HashChains

variable {m : Machine} {file : List UInt8} {h h' : Handle} {tuples : List (CStr × CStr)} {name value : CStr}

/-! ### All or nothing -/

/-- The text and the table of a handle have every variable of another one. -/
def HasAll (m : Machine) (h h' : Handle) : Prop :=
  ∃ tuples, parseText h'.mmap.length (textOf h') = .ok tuples ∧
    ∀ t ∈ tuplesOf h, t ∈ tuples ∧ nvramGet m h' t.1 = some t.2

/-- A commit returns 0 with every variable stored, or an error with nothing changed. -/
def AllOrNothing (m : Machine) (h : Handle) : Prop :=
  ∃ code h', nvramCommit m h = .ok (code, h') ∧
    (code = 0 ∧ HasAll m h h' ∨ code ≠ 0 ∧ h'.mmap = h.mmap ∧ h'.table = h.table)

/-- Variables with names that are read again, that fit and are padded inside. -/
structure Storable (h : Handle) : Prop where
  plain : ∀ t ∈ tuplesOf h, equals ∉ t.1
  fits : textEnd h + 2 ≤ space h
  pads : PadsInside h

theorem Committed.get_all (committed : Committed m h h') (valid : Valid m h)
    (plain : ∀ t ∈ tuplesOf h, equals ∉ t.1) (fits : textEnd h + 2 ≤ space h) : SameVariables m h h' := by
  obtain ⟨a, b, c, same⟩ := committed.table
  have short := short_of_fits fits
  have same_space : space h = space h' := by rw [space, space, committed.length, committed.offset]
  rw [same_space] at short
  rw [written_all fits, resplit_all plain] at same
  have rebuilt := @sameVariables_rebuilt m h h' a b c valid.strings short
  rwa [← same] at rebuilt

/-- A text that has all variables was written of all of them. -/
theorem written_of_hasAll (committed : Committed m h h') (valid : Valid m h) (all : HasAll m h h') :
    (∀ t ∈ tuplesOf h, equals ∉ t.1) ∧ written h = tuplesOf h := by
  obtain ⟨tuples, text, all⟩ := all
  rw [committed.text] at text
  cases text
  have plain : ∀ t ∈ tuplesOf h, equals ∉ t.1 := by
    intro t member
    obtain ⟨u, -, rfl⟩ := List.mem_map.mp (all t member).1
    exact equals_notMem_resplit
  have subset : tuplesOf h ⊆ written h := by
    intro t member
    have stored := (all t member).1
    rwa [resplit_all fun u member => plain u (written_sublist.subset member)] at stored
  have distinct : (tuplesOf h).Nodup := .of_map _ (nodup_tuplesOf valid.strings)
  exact ⟨plain, written_sublist.eq_of_length_le (List.subperm_of_subset distinct subset).length_le⟩

theorem fits_of_written (valid : Valid m h) (all : written h = tuplesOf h) : textEnd h + 2 ≤ space h := by
  have ends := writtenEnd_le valid
  have room := valid.header.room
  rw [writtenEnd, all] at ends
  unfold textEnd space
  omega

/-- Where a commit is all or nothing. -/
theorem Valid.storable_iff (valid : Valid m h) : AllOrNothing m h ↔ Storable h := by
  constructor
  · rintro ⟨code, h', done, result⟩
    obtain ⟨rfl, pads, committed⟩ := committed_of_ok valid done
    obtain ⟨-, all⟩ | ⟨failed, -⟩ := result
    · obtain ⟨plain, all⟩ := written_of_hasAll committed valid all
      have fits := fits_of_written valid all
      exact ⟨plain, fits, (pads_iff valid fits).mp pads⟩
    · exact absurd rfl failed
  · rintro ⟨plain, fits, pads⟩
    obtain ⟨h', done, committed⟩ := nvramCommit_ok valid ((pads_iff valid fits).mpr pads)
    refine ⟨0, h', done, .inl ⟨rfl, tuplesOf h, committed.text_all plain fits, fun t member => ⟨member, ?_⟩⟩⟩
    have held : nvramGet m h t.1 = some t.2 := (mem_tuplesOf valid.strings).mp member
    rcases committed.get_all valid plain fits t.1 with same | ⟨-, missing⟩
    · exact same.trans held
    · rw [held] at missing
      cases missing

/-! ### A partition without variables -/

def device : Machine := ⟨.little, false, 32⟩

/-- A partition of the smallest size, with the magic number only. -/
def blank : List UInt8 := Endian.little.bytes NVRAM_MAGIC ++ List.replicate (NVRAM_MIN_SPACE - 4) 0

/-- Its handle when the variables of the header were taken out. -/
def bare : Handle := ⟨blank, 0, 0, false, .empty⟩

/-- The handle with one variable. -/
def single (name value : CStr) : Handle :=
  { bare with table := bare.table.set (place device) name value }

theorem length_blank : blank.length = NVRAM_MIN_SPACE := by
  rw [blank, List.length_append, length_bytes, List.length_replicate]
  rfl

theorem headerAt_blank : HeaderAt device blank 0 where
  aligned := rfl
  room := by rw [length_blank, Nat.zero_add]
  magic := by
    have front : ([] : List UInt8).length = 0 := rfl
    exact wordAt_bytes front (by decide)
  first := fun i before => absurd before (Nat.not_lt_zero _)

theorem textOf_bare : textOf bare = encodeAll [] ++ 0 :: List.replicate (NVRAM_MIN_SPACE - 21) 0 := by
  have magic : (Endian.little.bytes NVRAM_MAGIC).length = 4 := length_bytes _ _
  have count : NVRAM_MIN_SPACE - 4 - (0 + headerSize - 4) = NVRAM_MIN_SPACE - 21 + 1 := by decide
  rw [textOf, bare, blank, List.drop_append, magic, List.drop_eq_nil_of_le (by rw [magic]; decide),
    List.drop_replicate, count, List.replicate_succ, encodeAll_nil]

/-- The partition opens with the variables of the header alone. -/
theorem nvramOpen_blank : ∃ h, nvramOpen device 0 blank false = .ok h ∧ SameMapping bare h ∧
    Strings device h.table ∧ SameVariables device bare h := by
  have none : parseText blank.length (textOf bare) = .ok [] := by
    rw [textOf_bare]
    exact parseText_encodeAll (fun t member => nomatch member) (by rw [length_blank]; decide)
  obtain ⟨a, b, c, done⟩ := @rehash_returns device bare [] (by rw [bare, length_blank]; decide) none
  have valid := rehash_valid done
  refine ⟨_, (nvramOpen_eq headerAt_blank).trans ((if_pos (.inr ?_)).trans done), valid.1, valid.2,
    setSdram_sameVariables⟩
  have zero : wordAt device blank (0 + 4) = 0 := by
    rw [wordAt, blank, List.drop_left' (length_bytes _ _), List.take_replicate]
    decide
  rw [zero, length_blank]
  decide

theorem bare_reached : Reached device blank bare := by
  obtain ⟨h, opened, same, strings, vars⟩ := nvramOpen_blank
  have start : Reached device blank h := .opened length_blank.ge (by rw [length_blank]; decide)
    (by rw [length_blank]; decide) (by decide) opened
  have cleared : (((h.table.unset (place device) sdramInit).unset (place device) sdramConfig).unset
      (place device) sdramRefresh).unset (place device) sdramNcdl = .empty := by
    have placed := strings.placed
    apply Table.eq_empty placed.unset.unset.unset.unset
    intro name
    rw [Table.get_unset placed.unset.unset.unset, Table.get_unset placed.unset.unset,
      Table.get_unset placed.unset, Table.get_unset placed]
    by_cases member : name ∈ sdramNames
    · simp only [sdramNames, List.mem_cons, List.not_mem_nil, or_false] at member
      rcases member with rfl | rfl | rfl | rfl
      all_goals simp
    · rcases vars name with missing | ⟨sdram, -⟩
      · change nvramGet device h name = none at missing
        rw [nvramGet] at missing
        simp [missing]
      · exact absurd sdram member
  have emptied : Reached device blank (nvramUnset device (nvramUnset device (nvramUnset device
      (nvramUnset device h sdramInit) sdramConfig) sdramRefresh) sdramNcdl) := start.unset.unset.unset.unset
  obtain ⟨mmap, addr, offset, rdonly⟩ := same
  have whole : nvramUnset device (nvramUnset device (nvramUnset device (nvramUnset device h sdramInit)
      sdramConfig) sdramRefresh) sdramNcdl = bare := by
    obtain ⟨hmmap, haddr, hoffset, hrdonly, htable⟩ := h
    simp only [nvramUnset] at *
    rw [cleared, mmap, addr, offset, rdonly]
    rfl
  rwa [whole] at emptied

theorem space_bare : space bare = NVRAM_MIN_SPACE := (space_at_start rfl).trans length_blank

theorem nvramSet_bare (short : value.length + 1 ≤ NVRAM_MIN_SPACE) :
    nvramSet device bare name value = (0, single name value) :=
  nvramSet_short (by rwa [space_bare])

theorem single_reached (string : Terminated (name, value)) (short : value.length + 1 ≤ NVRAM_MIN_SPACE) :
    Reached device blank (single name value) := by
  have set := bare_reached.set string
  rwa [nvramSet_bare short] at set

theorem tuplesOf_single (string : Terminated (name, value)) (short : value.length + 1 ≤ NVRAM_MIN_SPACE) :
    tuplesOf (single name value) = [(name, value)] := by
  have strings := (single_reached string short).valid.strings
  have same : (tuplesOf (single name value)).Perm [(name, value)] := by
    refine (List.perm_ext_iff_of_nodup (.of_map _ (nodup_tuplesOf strings)) (List.nodup_singleton _)).mpr ?_
    rintro ⟨n, v⟩
    rw [mem_tuplesOf strings, nvramGet, single, Table.get_set, List.mem_singleton]
    have missing : bare.table.get (place device) n = none := rfl
    rw [missing]
    split
    · rename_i same
      rw [Option.some_inj, same, Prod.mk.injEq]
      exact ⟨fun same => ⟨rfl, same.symm⟩, fun same => same.2.symm⟩
    · rename_i other
      rw [Prod.mk.injEq]
      constructor
      · intro found
        cases found
      · exact fun same => absurd same.1.symm other
  exact List.perm_singleton.mp same

theorem textEnd_single (string : Terminated (name, value)) (short : value.length + 1 ≤ NVRAM_MIN_SPACE) :
    textEnd (single name value) = headerSize + (name.length + value.length + 2) := by
  rw [textEnd, tuplesOf_single string short, encodeAll_cons, encodeAll_nil, List.append_nil, length_encode]

theorem space_single : space (single name value) = NVRAM_MIN_SPACE :=
  (space_at_start rfl).trans length_blank

/-- The address of the text is not negative. -/
theorem padsInside_single (string : Terminated (name, value))
    (short : name.length + value.length + 1 ≤ NVRAM_MIN_SPACE) : PadsInside (single name value) := by
  right
  have least : NVRAM_MIN_SPACE ≤ 2 ^ 16 := by decide
  rw [textEnd_single string (by omega)]
  change (0 : Int) ≤ ((0 + 0 + (headerSize + (name.length + value.length + 2)) + 1 : Nat) : Int).bmod (2 ^ 32)
  unfold headerSize
  rw [Int.bmod_eq_of_le (by omega) (by omega)]
  omega

/-! ### Committing and opening again -/

/-- What is committed of a run is read again, for reading and for writing, if the padding stays inside, a
word is left where it is opened for writing, and a private mapping was of these variables. -/
theorem Reached.commitsAndReopens_iff (reached : Reached m file h) (plain : ∀ t ∈ tuplesOf h, equals ∉ t.1)
    (fits : textEnd h + 2 ≤ space h) (rdonly : Bool) : CommitsAndReopens m file h rdonly ↔
      PadsInside h ∧ (h.rdonly = true → Reopens m file h rdonly) ∧
        (h.rdonly = false → rdonly = false → textEnd h + 6 ≤ space h) :=
  reached.valid.reopening_iff plain fits

/-- A name of one letter with a long value. -/
def longValue (n : Nat) : Handle := single [97] (List.replicate n 98)

theorem terminated_long (n : Nat) : Terminated ([97], List.replicate n 98) :=
  ⟨show (0 : UInt8) ∉ [97] by decide, fun member =>
    absurd (List.eq_of_mem_replicate member) (by decide)⟩

theorem textEnd_longValue {n : Nat} (short : n + 1 ≤ NVRAM_MIN_SPACE) : textEnd (longValue n) = n + 23 := by
  rw [longValue, textEnd_single (terminated_long n) (by rwa [List.length_replicate]), List.length_replicate]
  unfold headerSize
  simp
  omega

theorem plain_longValue {n : Nat} (short : n + 1 ≤ NVRAM_MIN_SPACE) :
    ∀ t ∈ tuplesOf (longValue n), equals ∉ t.1 := by
  rw [longValue, tuplesOf_single (terminated_long n) (by rwa [List.length_replicate])]
  rintro t member
  rw [List.mem_singleton.mp member]
  exact show equals ∉ [97] by decide

theorem longValue_reached {n : Nat} (short : n + 1 ≤ NVRAM_MIN_SPACE) :
    Reached device blank (longValue n) :=
  single_reached (terminated_long n) (by rwa [List.length_replicate])

theorem commitsAndReopens_short : CommitsAndReopens device blank (longValue 1) false := by
  have short : 1 + 1 ≤ NVRAM_MIN_SPACE := by decide
  refine ((longValue_reached short).commitsAndReopens_iff (plain_longValue short) ?_ false).mpr ⟨?_, ?_, ?_⟩
  · rw [textEnd_longValue short, longValue, space_single]
    decide
  · exact padsInside_single (terminated_long 1) (by decide)
  · exact fun own => nomatch own
  · intro _ _
    rw [textEnd_longValue short, longValue, space_single]
    decide

/-- A partition that is full but for two bytes is committed and not opened for writing again. -/
theorem full_not_reopened : ∃ h, Reached device blank h ∧ h.rdonly = false ∧
    (∀ t ∈ tuplesOf h, equals ∉ t.1) ∧ textEnd h + 2 ≤ space h ∧ ¬CommitsAndReopens device blank h false := by
  have short : 32741 + 1 ≤ NVRAM_MIN_SPACE := by decide
  have text := textEnd_longValue short
  have room : space (longValue 32741) = NVRAM_MIN_SPACE := space_single
  have fits : textEnd (longValue 32741) + 2 ≤ space (longValue 32741) := by
    rw [text, room]
    decide
  refine ⟨longValue 32741, longValue_reached short, rfl, plain_longValue short, fits, fun stored => ?_⟩
  have left := (((longValue_reached short).valid.reopening_iff (plain_longValue short) fits).mp stored).2.2
    rfl rfl
  rw [text, room] at left
  exact absurd left (by decide)

/-! ### All or nothing -/

/-- A commit of a run keeps all variables, or nothing changes, if no name has an equals sign, all of them
fit, and the padding stays inside. -/
theorem Reached.allOrNothing_iff (reached : Reached m file h) : AllOrNothing m h ↔ Storable h :=
  reached.valid.storable_iff

theorem allOrNothing_short : AllOrNothing device (longValue 1) := by
  have short : 1 + 1 ≤ NVRAM_MIN_SPACE := by decide
  refine (longValue_reached short).allOrNothing_iff.mpr ⟨plain_longValue short, ?_, ?_⟩
  · rw [textEnd_longValue short, longValue, space_single]
    decide
  · exact padsInside_single (terminated_long 1) (by decide)

/-- A value as long as the partition is set, and a commit that returns 0 leaves it out. -/
theorem long_value_dropped : ∃ h, Reached device blank h ∧ ¬AllOrNothing device h := by
  have short : 32767 + 1 ≤ NVRAM_MIN_SPACE := by decide
  refine ⟨longValue 32767, longValue_reached short, fun stored => ?_⟩
  have fits := ((longValue_reached short).valid.storable_iff.mp stored).fits
  rw [textEnd_longValue short, longValue, space_single] at fits
  exact absurd fits (by decide)

/-! ### Changes -/

/-- `nvram_set` with a value, or `nvram_unset`. -/
abbrev Change := CStr × Option CStr

def change (m : Machine) (h : Handle) : Change → Handle
  | (name, some value) => (nvramSet m h name value).2
  | (name, none) => nvramUnset m h name

/-- What a change should do to the variables: a value that does not fit is refused. -/
def record (space : Nat) (vars : CStr → Option CStr) : Change → CStr → Option CStr
  | (name, some value) =>
    if value.length + 1 > space then vars else Function.update vars name (some value)
  | (name, none) => Function.update vars name none

theorem nvramGetall_eq (h : Handle) : nvramGetall h = (tuplesOf h).reverse := by
  unfold nvramGetall tuplesOf Table.entries
  rw [← List.foldl_flatMap]
  simp

theorem Valid.change (valid : Valid m h) {c : Change} (name : 0 ∉ c.1) (value : ∀ v ∈ c.2, 0 ∉ v) :
    Valid m (change m h c) ∧ space (change m h c) = space h ∧
      nvramGet m (change m h c) = record (space h) (nvramGet m h) c := by
  obtain ⟨n, v⟩ := c
  cases v with
  | none =>
    refine ⟨⟨valid.size, valid.small, valid.page, valid.header, valid.strings.unset⟩, rfl, ?_⟩
    funext k
    simp [Nvram.change, nvramUnset, nvramGet, record, Function.update_apply,
      Table.get_unset valid.strings.placed, eq_comm]
  | some v =>
    refine ⟨valid.set ⟨name, value v rfl⟩, ?_, ?_⟩
    · obtain ⟨mmap, -, offset, -⟩ : SameMapping h (nvramSet m h n v).2 := nvramSet_same
      simp [Nvram.change, space, mmap, offset]
    · by_cases big : v.length + 1 > space h
      · have refused : nvramSet m h n v = (-12, h) := if_pos big
        rw [record, if_pos big, Nvram.change, refused]
      · rw [record, if_neg big, Nvram.change, nvramSet_short (Nat.not_lt.mp big)]
        funext k
        simp [nvramGet, Table.get_set, Function.update_apply, eq_comm]

/-- After any changes of a handle of a run, its variables are those that the changes should
leave, and `nvram_getall` lists each of them once. -/
theorem Reached.getall_exact (reached : Reached m file h) {changes : List Change}
    (strings : ∀ c ∈ changes, 0 ∉ c.1 ∧ ∀ v ∈ c.2, 0 ∉ v) :
    nvramGet m (changes.foldl (change m) h) = changes.foldl (record (space h)) (nvramGet m h) ∧
      ((nvramGetall (changes.foldl (change m) h)).map Prod.fst).Nodup ∧
      ∀ name value, (name, value) ∈ nvramGetall (changes.foldl (change m) h) ↔
        nvramGet m (changes.foldl (change m) h) name = some value := by
  have changed : ∀ h, Valid m h → Valid m (changes.foldl (change m) h) ∧
      nvramGet m (changes.foldl (change m) h) =
        changes.foldl (record (space h)) (nvramGet m h) := by
    induction changes with
    | nil => exact fun h valid => ⟨valid, rfl⟩
    | cons c rest ih =>
      intro h valid
      obtain ⟨⟨name, value⟩, strings⟩ := List.forall_mem_cons.mp strings
      obtain ⟨valid', same, vars⟩ := valid.change name value
      have later := ih strings (change m h c) valid'
      rwa [same, vars] at later
  obtain ⟨valid', vars⟩ := changed h reached.valid
  simp only [nvramGetall_eq, List.map_reverse, List.nodup_reverse, List.mem_reverse]
  exact ⟨vars, nodup_tuplesOf valid'.strings, fun _ _ => mem_tuplesOf valid'.strings⟩

theorem getall_exact_unset : ([99], [100]) ∈ nvramGetall
    ([([97], some [98]), ([99], some [100]), ([97], none)].foldl (change device) bare) := by
  have strings : ∀ c ∈ ([([97], some [98]), ([99], some [100]), ([97], none)] : List Change),
      0 ∉ c.1 ∧ ∀ v ∈ c.2, 0 ∉ v := by decide
  obtain ⟨vars, -, listed⟩ := bare_reached.getall_exact strings
  rw [listed, vars]
  simp [record, space_bare, NVRAM_MIN_SPACE]

end FirewallCore.Nvram
