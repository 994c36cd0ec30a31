import FirewallCore.Nvram.Handles

/-!
Committing the variables of a handle, and opening the partition again.

`nvram_commit` leaves out what does not fit. Behind the last variable it pads with zeros, more of them
where the address of the text is negative as an `int`.
-/

namespace FirewallCore.Nvram

open FirewallCore.Lib HashChains

/-! ### The partition that is written -/

/-- The padding stays inside: there is some room, or the address behind the text is not negative. -/
def PadsInside (h : Handle) : Prop :=
  textEnd h + 5 ≤ space h ∨ 0 ≤ ((h.addr + h.offset + textEnd h + 1 : Nat) : Int).bmod (2 ^ 32)

section Written

variable {m : Machine} {h : Handle} {front back : List UInt8} {addr : Nat}

theorem length_headerBytes (w : HeaderWords) (len : Nat) (data : List UInt8) :
    (headerBytes m w len data).length = headerSize := by
  simp [headerBytes, HeaderWords.bytes, headerSize]

theorem pad_inside (inside : intRem (addr + front.length) = 0 ∨
      (4 - intRem (addr + front.length)).toNat ≤ back.length) :
    ∃ fill, pad addr front.length (front ++ back) = .ok (front ++ fill) ∧ fill.length = back.length := by
  unfold pad
  split
  · exact ⟨back, rfl, rfl⟩
  · rename_i unaligned
    have fits := inside.resolve_left unaligned
    rw [store_append (by rwa [List.length_replicate]), List.append_assoc]
    refine ⟨_, rfl, ?_⟩
    rw [List.length_append, List.length_drop, List.length_replicate]
    omega

theorem pad_outside (unaligned : intRem (addr + front.length) ≠ 0)
    (long : back.length < (4 - intRem (addr + front.length)).toNat) :
    pad addr front.length (front ++ back) = .error .outside := by
  unfold pad
  rw [if_neg unaligned, store, if_neg]
  rw [List.length_append, List.length_replicate]
  omega

theorem load_inside {buf : List UInt8} {pos len : Nat} (inside : pos + len ≤ buf.length) :
    ∃ data, load buf pos len = .ok data := ⟨_, if_pos inside⟩

/-- The partition when the text is written, with its NUL. -/
def closed (h : Handle) : List UInt8 :=
  h.mmap.take (h.offset + headerSize) ++ encodeAll (written h) ++ [0] ++
    List.replicate (h.mmap.length - (h.offset + headerSize + (encodeAll (written h)).length + 1)) 0xff

/-- Where the text that is written ends. -/
def writtenEnd (h : Handle) : Nat := h.offset + headerSize + (encodeAll (written h)).length

theorem writtenEnd_le (valid : Valid m h) : writtenEnd h + 2 ≤ h.mmap.length := by
  have fits : (encodeAll (written h)).length ≤ _ := length_fittingAll _ _
  have room := valid.header.room
  have least : 22 ≤ NVRAM_MIN_SPACE := by decide
  unfold writtenEnd headerSize at *
  omega

theorem writeOut_closed (valid : Valid m h) : writeOut m h = (do
    let buf ← pad h.addr (writtenEnd h + 1) (closed h)
    let len := roundUp (writtenEnd h + 2 - h.offset)
    let data ← load buf (h.offset + headerSize) (len - headerSize)
    store buf h.offset (headerBytes m (headerWords m h) len data)) := by
  have ends := writtenEnd_le valid
  have start : h.offset + headerSize ≤ h.mmap.length := by
    unfold writtenEnd at ends
    omega
  have front : (h.mmap.take (h.offset + headerSize)).length = h.offset + headerSize :=
    List.length_take_of_le start
  have clear : store h.mmap (h.offset + headerSize)
      (List.replicate (h.mmap.length - (h.offset + headerSize)) 0xff) =
      .ok (h.mmap.take (h.offset + headerSize) ++
        List.replicate (h.mmap.length - (h.offset + headerSize)) 0xff) := by
    rw [store, if_pos (by rw [List.length_replicate]; omega), List.length_replicate,
      Nat.add_sub_cancel' start, List.drop_length, List.append_nil]
  have chains : writeChains (h.mmap.length - 2) ((List.range arraySize).map h.table)
      (h.mmap.take (h.offset + headerSize) ++
        List.replicate (h.mmap.length - (h.offset + headerSize)) 0xff, h.offset + headerSize) =
      .ok (h.mmap.take (h.offset + headerSize) ++ encodeAll (written h) ++
        (List.replicate (h.mmap.length - (h.offset + headerSize)) 0xff).drop
          (encodeAll (written h)).length, writtenEnd h) := by
    have all := @writeChains_eq (h.mmap.take (h.offset + headerSize))
      (List.replicate (h.mmap.length - (h.offset + headerSize)) 0xff)
      ((List.range arraySize).map h.table) (h.mmap.length - 2)
      (by rw [front, List.length_replicate]; omega)
    rw [front] at all
    exact all
  have text : (h.mmap.take (h.offset + headerSize) ++ encodeAll (written h)).length = writtenEnd h := by
    rw [List.length_append, front]
    rfl
  rw [List.drop_replicate] at chains
  have nul : store (h.mmap.take (h.offset + headerSize) ++ encodeAll (written h) ++
      List.replicate (h.mmap.length - (h.offset + headerSize) - (encodeAll (written h)).length) 0xff)
        (writtenEnd h) [0] = .ok (closed h) := by
    rw [← text, store_append (by rw [List.length_replicate]; unfold writtenEnd at ends; simp; omega),
      List.drop_replicate, closed, List.length_singleton, Nat.sub_sub, Nat.sub_sub, ← Nat.add_assoc]
  unfold writeOut
  dsimp only
  rw [clear, ok_bind, chains, ok_bind]
  dsimp only
  rw [nul, ok_bind]

/-- The padding of what is written stays inside. -/
def Pads (h : Handle) : Prop :=
  intRem (h.addr + (writtenEnd h + 1)) = 0 ∨
    (4 - intRem (h.addr + (writtenEnd h + 1))).toNat ≤ h.mmap.length - (writtenEnd h + 1)

theorem length_closed (valid : Valid m h) :
    (h.mmap.take (h.offset + headerSize) ++ encodeAll (written h) ++ [0]).length = writtenEnd h + 1 := by
  have ends := writtenEnd_le valid
  unfold writtenEnd at *
  rw [List.length_append, List.length_append, List.length_take_of_le (by omega)]
  rfl

theorem roundUp_le {x n : Nat} (whole : n % 4 = 0) (fits : x ≤ n) : roundUp x ≤ n := by
  unfold roundUp
  omega

theorem writeOut_eq (valid : Valid m h) (pads : Pads h) : ∃ data fill,
    writeOut m h = .ok (h.mmap.take h.offset ++
      headerBytes m (headerWords m h) (roundUp (writtenEnd h + 2 - h.offset)) data ++
        (encodeAll (written h) ++ 0 :: fill)) ∧
      fill.length = h.mmap.length - (writtenEnd h + 1) := by
  have ends := writtenEnd_le valid
  have length := length_closed valid
  have room := valid.header.room
  have whole : (h.mmap.length - h.offset) % 4 = 0 := by
    have size := valid.size
    have aligned := valid.header.aligned
    omega
  have rounded : roundUp (writtenEnd h + 2 - h.offset) ≤ h.mmap.length - h.offset :=
    roundUp_le whole (by omega)
  have start : h.offset + headerSize ≤ writtenEnd h := Nat.le_add_right _ _
  unfold headerSize at start
  have padded := @pad_inside (h.mmap.take (h.offset + headerSize) ++ encodeAll (written h) ++ [0])
    (List.replicate (h.mmap.length - (writtenEnd h + 1)) 0xff) h.addr
    (by rwa [length, List.length_replicate])
  obtain ⟨fill, padded, filled⟩ := padded
  rw [length] at padded
  rw [List.length_replicate] at filled
  have whole_length : (h.mmap.take (h.offset + headerSize) ++ encodeAll (written h) ++ [0] ++ fill).length =
      h.mmap.length := by
    rw [List.length_append, length, filled]
    omega
  have front : (h.mmap.take (h.offset + headerSize)).length = h.offset + headerSize :=
    List.length_take_of_le (by unfold headerSize; omega)
  have shape : h.mmap.take (h.offset + headerSize) ++ encodeAll (written h) ++ [0] ++ fill =
      h.mmap.take (h.offset + headerSize) ++ (encodeAll (written h) ++ 0 :: fill) := by simp
  rw [shape] at padded whole_length
  obtain ⟨data, loaded⟩ : ∃ data, load (h.mmap.take (h.offset + headerSize) ++
      (encodeAll (written h) ++ 0 :: fill)) (h.offset + headerSize)
        (roundUp (writtenEnd h + 2 - h.offset) - headerSize) = .ok data := by
    apply load_inside
    rw [whole_length]
    unfold headerSize
    omega
  refine ⟨data, fill, ?_, filled⟩
  rw [writeOut_closed valid, closed, ← writtenEnd, padded, ok_bind]
  dsimp only
  rw [loaded, ok_bind, store,
    if_pos (by rw [whole_length, length_headerBytes]; unfold headerSize; omega), length_headerBytes,
    List.take_append_of_le_length (by rw [front]; exact Nat.le_add_right _ _), List.take_take,
    Nat.min_eq_left (Nat.le_add_right _ _), List.drop_left' front]

theorem writeOut_outside (valid : Valid m h) (outside : ¬Pads h) : writeOut m h = .error .outside := by
  have ends := writtenEnd_le valid
  have length := length_closed valid
  obtain ⟨unaligned, long⟩ := not_or.mp outside
  have lost := @pad_outside (h.mmap.take (h.offset + headerSize) ++ encodeAll (written h) ++ [0])
    (List.replicate (h.mmap.length - (writtenEnd h + 1)) 0xff) h.addr
    (by rwa [length]) (by rw [length, List.length_replicate]; omega)
  rw [length] at lost
  rw [writeOut_closed valid]
  change pad h.addr (writtenEnd h + 1) (closed h) >>= _ = _
  rw [closed, ← writtenEnd, lost]
  rfl

end Written

/-! ### The handle after a commit -/

section Committed

variable {m : Machine} {h h' : Handle} {front rest buf file : List UInt8} {pos word : Nat}
  {tuples : List (CStr × CStr)} {t : CStr × CStr} {code : Int}

theorem wordAt_bytes (before : front.length = pos) (small : word < 2 ^ 32) :
    wordAt m (front ++ (m.endian.bytes word ++ rest)) pos = word := by
  rw [wordAt, List.drop_left' before, List.take_left' (length_bytes _ _), number_bytes _ small]

theorem wordAt_headerBytes {len : Nat} (before : front.length = pos) (small : len < 2 ^ 32)
    (w : HeaderWords) (data : List UInt8) :
    wordAt m (front ++ headerBytes m w len data ++ rest) pos = NVRAM_MAGIC ∧
      wordAt m (front ++ headerBytes m w len data ++ rest) (pos + 4) = len := by
  constructor
  · rw [headerBytes, List.append_assoc, List.append_assoc, List.append_assoc]
    exact wordAt_bytes before (by decide)
  · have shape : front ++ headerBytes m w len data ++ rest = (front ++ m.endian.bytes NVRAM_MAGIC) ++
        (m.endian.bytes len ++ (HeaderWords.bytes m { w with crcVerInit := w.crcVerInit +
          (hndcrc8 data (hndcrc8 ((w.bytes m).drop (NVRAM_CRC_START_POSITION - 8)) 0xff)).toNat } ++
            rest)) := by
      rw [headerBytes]
      simp only [List.append_assoc]
    rw [shape]
    exact wordAt_bytes (by rw [List.length_append, before, length_bytes]) small

theorem wordAt_take {len : Nat} (inside : pos + 4 ≤ len) (short : len ≤ buf.length) :
    wordAt m (buf.take len ++ rest) pos = wordAt m buf pos := by
  have front : (buf.take len).length = len := List.length_take_of_le short
  rw [wordAt, List.drop_append_of_le_length (by omega), List.take_append_of_le_length
    (by rw [List.length_drop]; omega), List.drop_take, List.take_take, Nat.min_eq_left (by omega), wordAt]

theorem written_sublist : (written h).Sublist (tuplesOf h) := by
  have sublist : (written h).Sublist ((List.range arraySize).map h.table).flatten := fittingAll_sublist
  rwa [← List.flatMap_def] at sublist

theorem length_le_encodeAll (tuples : List (CStr × CStr)) : tuples.length ≤ (encodeAll tuples).length := by
  induction tuples with
  | nil => exact Nat.zero_le _
  | cons t tuples ih =>
    rw [encodeAll_cons, List.length_append, length_encode, List.length_cons]
    omega

/-- What `nvram_commit` leaves: the variables that were written, in the text and in the table. -/
structure Committed (m : Machine) (h h' : Handle) : Prop where
  addr : h'.addr = h.addr
  offset : h'.offset = h.offset
  rdonly : h'.rdonly = h.rdonly
  length : h'.mmap.length = h.mmap.length
  header : HeaderAt m h'.mmap h'.offset
  len : wordAt m h'.mmap (h'.offset + 4) = roundUp (writtenEnd h + 2 - h.offset)
  text : parseText h'.mmap.length (textOf h') = .ok ((written h).map resplit)
  table : ∃ a b c, h' = setSdram m
    (setAll m { h' with table := .empty } ((written h).map resplit)) a b c

theorem Committed.strings (committed : Committed m h h') : Strings m h'.table := by
  obtain ⟨a, b, c, same⟩ := committed.table
  rw [same]
  exact setSdram_strings (setAll_strings strings_empty (parseText_terminated committed.text))

theorem nvramCommit_ok (valid : Valid m h) (pads : Pads h) :
    ∃ h', nvramCommit m h = .ok (0, h') ∧ Committed m h h' := by
  obtain ⟨data, fill, wrote, filled⟩ := writeOut_eq valid pads
  have ends := writtenEnd_le valid
  have room := valid.header.room
  have least : headerSize ≤ NVRAM_MIN_SPACE := by decide
  have prefix_length : (h.mmap.take h.offset).length = h.offset := List.length_take_of_le (by omega)
  have size := valid.size
  have small := valid.small
  have header_length := length_headerBytes (m := m) (headerWords m h)
    (roundUp (writtenEnd h + 2 - h.offset)) data
  have front_length : (h.mmap.take h.offset ++ headerBytes m (headerWords m h)
      (roundUp (writtenEnd h + 2 - h.offset)) data).length = h.offset + headerSize := by
    rw [List.length_append, prefix_length, header_length]
  have words := @wordAt_headerBytes m (h.mmap.take h.offset) (encodeAll (written h) ++ 0 :: fill) h.offset
    (roundUp (writtenEnd h + 2 - h.offset)) prefix_length (by unfold roundUp; omega) (headerWords m h) data
  obtain ⟨buf, buf_def⟩ : ∃ buf, h.mmap.take h.offset ++ headerBytes m (headerWords m h)
    (roundUp (writtenEnd h + 2 - h.offset)) data ++ (encodeAll (written h) ++ 0 :: fill) = buf := ⟨_, rfl⟩
  have length : buf.length = h.mmap.length := by
    rw [← buf_def, List.length_append, front_length, List.length_append, List.length_cons, filled]
    unfold writtenEnd at *
    omega
  have text : textOf { h with mmap := buf } = encodeAll (written h) ++ 0 :: fill := by
    rw [textOf, ← buf_def, List.drop_left' front_length]
  have parsed : parseText buf.length (textOf { h with mmap := buf }) =
      .ok ((written h).map resplit) := by
    rw [text]
    apply parseText_encodeAll
    · exact fun t member => terminated_tuplesOf valid.strings t (written_sublist.subset member)
    · have shorter := length_le_encodeAll (written h)
      rw [length]
      unfold writtenEnd at ends
      omega
  have inside : h.offset + headerSize ≤ buf.length := by
    rw [length]
    omega
  obtain ⟨a, b, c, done⟩ := @rehash_returns m { h with mmap := buf } _ inside parsed
  obtain ⟨mmap, addr, offset, rdonly⟩ := (rehash_valid done).1
  rw [buf_def] at wrote
  refine ⟨_, bind_eq_ok_iff.mpr ⟨buf, wrote, bind_eq_ok_iff.mpr ⟨_, done, rfl⟩⟩, addr, offset, rdonly,
    (congrArg List.length mmap).trans length, ?_, ?_, ?_, ?_⟩
  · rw [mmap, offset]
    change HeaderAt m buf h.offset
    have aligned := valid.header.aligned
    refine ⟨aligned, by rw [length]; exact room, by rw [← buf_def]; exact words.1, fun i before => ?_⟩
    rw [← buf_def, List.append_assoc, wordAt_take (by omega) (by omega)]
    exact valid.header.first i before
  · rw [mmap, offset]
    change wordAt m buf (h.offset + 4) = _
    rw [← buf_def]
    exact words.2
  · have same : textOf (setSdram m (setAll m { h with mmap := buf, table := .empty }
        ((written h).map resplit)) a b c) = textOf { h with mmap := buf } := by
      rw [textOf, mmap, offset, textOf]
    rw [same, mmap, parsed]
  · refine ⟨a, b, c, ?_⟩
    rw [mmap, addr, offset, rdonly]

theorem nvramCommit_outside (valid : Valid m h) (outside : ¬Pads h) :
    nvramCommit m h = .error .outside := by
  rw [nvramCommit, writeOut_outside valid outside]
  rfl

theorem Committed.valid (committed : Committed m h h') (valid : Valid m h) : Valid m h' where
  size := by rw [committed.length]; exact valid.size
  small := by rw [committed.length]; exact valid.small
  page := by rw [committed.addr]; exact valid.page
  header := committed.header
  strings := committed.strings

theorem committed_of_ok (valid : Valid m h) (done : nvramCommit m h = .ok (code, h')) :
    code = 0 ∧ Pads h ∧ Committed m h h' := by
  by_cases pads : Pads h
  · obtain ⟨h'', same, committed⟩ := nvramCommit_ok valid pads
    rw [same] at done
    cases done
    exact ⟨rfl, pads, committed⟩
  · rw [nvramCommit_outside valid pads] at done
    cases done

theorem Valid.set {name value : CStr} (valid : Valid m h) (string : Terminated (name, value)) :
    Valid m (nvramSet m h name value).2 := by
  unfold nvramSet
  split
  · exact valid
  · exact ⟨valid.size, valid.small, valid.page, valid.header, valid.strings.set string⟩

/-- Handles of runs are valid. -/
theorem Reached.valid (reached : Reached m file h) : Valid m h := by
  induction reached with
  | opened enough size small page done =>
    obtain ⟨header, mmap, addr, -, strings⟩ := nvramOpen_ok done
    rw [← mmap] at size small header
    exact ⟨size, small, by omega, header, strings⟩
  | set before string ih => exact ih.set string
  | unset before ih => exact ⟨ih.size, ih.small, ih.page, ih.header, ih.strings.unset⟩
  | commit before done ih => exact (committed_of_ok ih done).2.2.valid ih

/-! ### Variables that fit -/

/-- Variables that fit are all written. -/
theorem written_all (fits : textEnd h + 2 ≤ space h) : written h = tuplesOf h := by
  have flat : ((List.range arraySize).map h.table).flatten = tuplesOf h := (List.flatMap_def ..).symm
  rw [written, fittingAll_all, flat]
  rw [flat]
  unfold textEnd space at fits
  omega

theorem writtenEnd_all (fits : textEnd h + 2 ≤ space h) : writtenEnd h = h.offset + textEnd h := by
  rw [writtenEnd, written_all fits, textEnd, Nat.add_assoc]

/-- The remainder of an address, which may be negative as an `int`. -/
theorem intRem_eq (ptr : Nat) : intRem ptr = if 0 ≤ (ptr : Int).bmod (2 ^ 32) ∨ ptr % 4 = 0 then
    ((ptr % 4 : Nat) : Int) else ((ptr % 4 : Nat) : Int) - 4 := by
  unfold intRem
  rw [Int.tmod_eq_emod]
  have same : (ptr : Int).bmod (2 ^ 32) % 4 = (ptr % 4 : Nat) := by
    rw [Int.bmod_def]
    split <;> omega
  rw [same]
  have divides : (4 : Int) ∣ (ptr : Int).bmod (2 ^ 32) ↔ ptr % 4 = 0 := by omega
  simp only [divides]
  split
  · simp
  · simp

theorem pads_iff (valid : Valid m h) (fits : textEnd h + 2 ≤ space h) : Pads h ↔ PadsInside h := by
  have size := valid.size
  have aligned := valid.header.aligned
  have page := valid.page
  have rest : (h.addr + (h.offset + textEnd h + 1)) % 4 = (textEnd h + 1) % 4 := by omega
  have place : h.addr + (h.offset + textEnd h + 1) = h.addr + h.offset + textEnd h + 1 := by omega
  rw [Pads, PadsInside, writtenEnd_all fits, intRem_eq, rest, place]
  unfold space at *
  split
  · rename_i positive
    refine iff_of_true ?_ ?_
    · omega
    · rcases positive with positive | zero
      · exact .inr positive
      · left
        omega
  · rename_i negative
    rw [not_or] at negative
    constructor
    · rintro (zero | inside)
      · omega
      · left
        omega
    · rintro (short | positive)
      · right
        omega
      · exact absurd positive negative.1

theorem nodup_tuplesOf (strings : Strings m h.table) : ((tuplesOf h).map Prod.fst).Nodup :=
  Table.nodup_entries strings.placed

/-- A table that is built from the variables of a handle. -/
theorem sameVariables_rebuilt {g : Handle} {a b c : Nat} (strings : Strings m h.table)
    (short : ∀ t ∈ tuplesOf h, t.2.length + 1 ≤ space g) :
    SameVariables m h (setSdram m (setAll m { g with table := .empty } (tuplesOf h)) a b c) := by
  refine SameVariables.trans (fun n => .inl ?_) setSdram_sameVariables
  have built := @setAll_table m { g with table := .empty } (tuplesOf h) short
  have found : Table.get (place m) ((tuplesOf h).foldl (fun t e => t.set (place m) e.1 e.2) .empty) n =
    (find n (tuplesOf h)).or (Table.get (place m) .empty n) := Table.get_foldl_set (nodup_tuplesOf strings)
  have none : Table.get (place m) (.empty : Table CStr CStr) n = none := rfl
  rw [none, Option.or_none] at found
  rw [nvramGet, built]
  refine found.trans (Option.ext fun v => ?_)
  rw [find_eq_some (nodup_tuplesOf strings)]
  exact mem_tuplesOf strings

theorem resplit_all (plain : ∀ t ∈ tuples, equals ∉ t.1) : tuples.map resplit = tuples :=
  (List.map_congr_left fun t member => resplit_self (plain t member)).trans (List.map_id _)

theorem length_encode_le (member : t ∈ tuples) : (encode t).length ≤ (encodeAll tuples).length := by
  obtain ⟨before, after, rfl⟩ := List.append_of_mem member
  rw [encodeAll_append, encodeAll_cons, List.length_append, List.length_append]
  omega

theorem short_of_fits (fits : textEnd h + 2 ≤ space h) : ∀ t ∈ tuplesOf h, t.2.length + 1 ≤ space h := by
  intro t member
  have within := length_encode_le member
  rw [length_encode] at within
  unfold textEnd at fits
  omega

/-- The length in the header covers the text with its two NULs. -/
theorem Committed.len_all (committed : Committed m h h') (fits : textEnd h + 2 ≤ space h) :
    wordAt m h'.mmap (h'.offset + 4) = roundUp (textEnd h + 2) := by
  rw [committed.len, writtenEnd_all fits, Nat.add_assoc, Nat.add_sub_cancel_left]

theorem le_roundUp (n : Nat) : n ≤ roundUp n := by
  unfold roundUp
  omega

theorem Committed.text_all (committed : Committed m h h') (plain : ∀ t ∈ tuplesOf h, equals ∉ t.1)
    (fits : textEnd h + 2 ≤ space h) : parseText h'.mmap.length (textOf h') = .ok (tuplesOf h) := by
  rw [committed.text, written_all fits, resplit_all plain]

/-- Opening a partition again gives the variables of a handle. -/
def Reopens (m : Machine) (file : List UInt8) (h : Handle) (rdonly : Bool) : Prop :=
  ∀ addr, ∃ h', nvramOpen m addr file rdonly = .ok h' ∧ SameVariables m h h'

theorem Committed.reopens (committed : Committed m h h') (valid : Valid m h)
    (plain : ∀ t ∈ tuplesOf h, equals ∉ t.1) (fits : textEnd h + 2 ≤ space h) {rdonly : Bool}
    (room : rdonly ∨ textEnd h + 6 ≤ space h) : Reopens m h'.mmap h rdonly := by
  intro addr
  have size := valid.size
  have aligned := valid.header.aligned
  have shorter : roundUp (textEnd h + 2) < h'.mmap.length - h'.offset ↔ textEnd h + 6 ≤ space h := by
    rw [committed.length, committed.offset]
    unfold roundUp space
    omega
  have inside : h'.offset + headerSize ≤ h'.mmap.length :=
    (Nat.add_le_add_left (by decide) _).trans committed.header.room
  obtain ⟨a, b, c, done⟩ := @rehash_returns m ⟨h'.mmap, addr, h'.offset, rdonly, .empty⟩ _ inside
    (committed.text_all plain fits)
  have short := short_of_fits fits
  have same_space : space h = space ⟨h'.mmap, addr, h'.offset, rdonly, .empty⟩ := by
    rw [space, space, committed.length, committed.offset]
  rw [same_space] at short
  refine ⟨_, (nvramOpen_eq committed.header).trans ((if_pos ?_).trans done),
    sameVariables_rebuilt valid.strings short⟩
  rwa [committed.len_all fits, shorter]

theorem Committed.not_reopens (committed : Committed m h h') (valid : Valid m h)
    (fits : textEnd h + 2 ≤ space h) (full : ¬textEnd h + 6 ≤ space h) :
    ¬Reopens m h'.mmap h false := by
  intro reopens
  obtain ⟨h'', opened, -⟩ := reopens 0
  have size := valid.size
  have aligned := valid.header.aligned
  rw [nvramOpen_eq committed.header, committed.len_all fits, if_neg] at opened
  · cases opened
  · rw [committed.length, committed.offset]
    unfold roundUp space at *
    simp
    omega

/-- A commit returns 0 with a length that covers the text, writes inside the mapping, and the partition
opens again with the variables. -/
def CommitsAndReopens (m : Machine) (file : List UInt8) (h : Handle) (rdonly : Bool) : Prop :=
  ∃ h', nvramCommit m h = .ok (0, h') ∧ textEnd h + 2 ≤ wordAt m h'.mmap (h'.offset + 4) ∧
    Reopens m (fileAfter file h') h rdonly

/-- Where variables that fit are committed and read again: the padding stays inside, a private mapping
was of a file with these variables, and for writing a word is left. -/
theorem Valid.reopening_iff (valid : Valid m h) (plain : ∀ t ∈ tuplesOf h, equals ∉ t.1)
    (fits : textEnd h + 2 ≤ space h) {rdonly : Bool} : CommitsAndReopens m file h rdonly ↔
      PadsInside h ∧ (h.rdonly = true → Reopens m file h rdonly) ∧
        (h.rdonly = false → rdonly = false → textEnd h + 6 ≤ space h) := by
  constructor
  · rintro ⟨h', done, -, reopens⟩
    obtain ⟨-, pads, committed⟩ := committed_of_ok valid done
    refine ⟨(pads_iff valid fits).mp pads, fun own => ?_, fun shared writing => ?_⟩
    · rwa [fileAfter, committed.rdonly, own, if_pos rfl] at reopens
    · by_contra full
      rw [fileAfter, committed.rdonly, shared, if_neg (by decide), writing] at reopens
      exact committed.not_reopens valid fits full reopens
  · rintro ⟨pads, own, writing⟩
    obtain ⟨h', done, committed⟩ := nvramCommit_ok valid ((pads_iff valid fits).mpr pads)
    refine ⟨h', done, (le_roundUp _).trans (committed.len_all fits).ge, ?_⟩
    rw [fileAfter, committed.rdonly]
    cases kept : h.rdonly with
    | true => exact own kept
    | false =>
      apply committed.reopens valid plain fits
      cases rdonly with
      | true => exact .inl rfl
      | false => exact .inr (writing kept rfl)

end Committed

end FirewallCore.Nvram
