import FirewallCore.Lib.Checked

/-!
Resetting the boot counter of a Linksys router (`linksys_bootcount.c`), a log of records in slots of one
size, and the boot loader that reads it.
-/

namespace FirewallCore.MtdTool.BootCount

open FirewallCore.Lib

def BOOTCOUNT_MAGIC : Nat := 0x20110811

def BC_OFFSET_INCREMENT_MIN : Nat := 16

/-- `sizeof(struct bootcounter)` -/
def counterSize : Nat := 12

/-! ### The log -/

/-- The partition with the log. Its size is given in 32 bits. -/
structure Partition where
  bytes : List UInt8
  writesize : Nat
  small : bytes.length < 2 ^ 32

/-- `bc_offset_increment`, the size of a slot. -/
def Partition.increment (p : Partition) : Nat :=
  if p.writesize < BC_OFFSET_INCREMENT_MIN then BC_OFFSET_INCREMENT_MIN else p.writesize

/-- `num_bc` -/
def Partition.slots (p : Partition) : Nat := p.bytes.length / p.increment

section Records

variable (e : Endian) (log : List UInt8) (inc k : Nat)

def magicAt : Nat := e.numberAt log (k * inc) 4

def countAt : Nat := e.numberAt log (k * inc + 4) 4

def checksumAt : Nat := e.numberAt log (k * inc + 8) 4

/-- Nothing was written to the slot yet, going by its magic number. -/
def IsErased : Prop := magicAt e log inc k = 0xffffffff

def IsValid : Prop :=
  magicAt e log inc k = BOOTCOUNT_MAGIC ∧
    checksumAt e log inc k = (magicAt e log inc k + countAt e log inc k) % 2 ^ 32

instance : Decidable (IsErased e log inc k) := inferInstanceAs (Decidable (_ = _))

instance : Decidable (IsValid e log inc k) := inferInstanceAs (Decidable (_ ∧ _))

/-- All bytes of the slot are erased. -/
def IsBlank : Prop := (log.drop (k * inc)).take inc = List.replicate inc 0xff

end Records

/-- The boot loader: of the records up to the first erased slot, the last valid one counts. -/
def bootCount (e : Endian) (log : List UInt8) (inc : Nat) : Nat → Nat → Nat → Nat
  | 0, _, count => count
  | n + 1, k, count =>
    if IsErased e log inc k then count
    else bootCount e log inc n (k + 1) (if IsValid e log inc k then countAt e log inc k else count)

/-! ### The program -/

/-- What the system answers. -/
structure Env where
  /-- Whether `MEMGETINFO` works. Without an open device the program exits. -/
  info : Bool
  malloc : Bool
  /-- Whether a slot can be read. -/
  pread : Nat → Bool
  /-- What an erasure that fails leaves, or nothing if it works. -/
  erase : Option (List UInt8)
  /-- What `pwrite` returns. -/
  pwrite : Int

/-- The loop over the records: the slot where it stops and the last count. -/
def readLog (e : Endian) (p : Partition) (env : Env) : Nat → Nat → Nat → Except Int (Nat × Nat)
  | 0, i, last => .ok (i, last)
  | n + 1, i, last =>
    if env.pread i = false ∨ p.bytes.length < i * p.increment + counterSize then .error (-5)
    else if IsErased e p.bytes p.increment i then .ok (i, last)
    else if ¬IsValid e p.bytes p.increment i then .error (-2)
    else readLog e p env n (i + 1) (countAt e p.bytes p.increment i)

/-- The new record, with the rest of its slot. -/
def record (e : Endian) (inc : Nat) : List UInt8 :=
  e.bytes BOOTCOUNT_MAGIC ++ e.bytes 0 ++ e.bytes BOOTCOUNT_MAGIC ++ List.replicate (inc - counterSize) 0xff

/-- Writing clears bits. -/
def program (log : List UInt8) (pos : Nat) (bytes : List UInt8) : List UInt8 :=
  log.take pos ++ List.zipWith (· &&& ·) ((log.drop pos).take bytes.length) bytes ++ log.drop (pos + bytes.length)

/-- What is left when the program returns: the log, whether it was erased and the slot that was written. -/
structure Outcome where
  code : Int
  log : List UInt8
  erased : Bool
  slot : Option Nat

/-- The write of the new record. -/
def writeRecord (e : Endian) (p : Partition) (env : Env) (log : List UInt8) (erased : Bool) (i : Nat) : Outcome :=
  if env.pwrite < 0 then ⟨-4, log, erased, none⟩
  else ⟨0, program log (i * p.increment) ((record e p.increment).take env.pwrite.toNat), erased, some i⟩

def mtdResetbc (e : Endian) (p : Partition) (env : Env) : Outcome :=
  if env.info = false then ⟨-1, p.bytes, false, none⟩
  else if env.malloc = false then ⟨-6, p.bytes, false, none⟩
  else
    match readLog e p env p.slots 0 0 with
    | .error code => ⟨code, p.bytes, false, none⟩
    | .ok (i, last) =>
      if last = 0 then ⟨0, p.bytes, false, none⟩
      else if i = p.slots then
        match env.erase with
        | some log => ⟨-3, log, false, none⟩
        | none => writeRecord e p env (List.replicate p.bytes.length 0xff) true 0
      else writeRecord e p env p.bytes false i

/-! ### Reading the log -/

section Reading

variable {e : Endian} {p : Partition} {env : Env} {log log' : List UInt8} {inc i k n last count : Nat}

theorem Partition.least (p : Partition) : BC_OFFSET_INCREMENT_MIN ≤ p.increment := by
  unfold Partition.increment
  split <;> omega

theorem Partition.slot_inside (p : Partition) (slot : k < p.slots) :
    k * p.increment + p.increment ≤ p.bytes.length := by
  rw [← Nat.succ_mul]
  exact (Nat.le_div_iff_mul_le (by have := p.least; unfold BC_OFFSET_INCREMENT_MIN at this; omega)).mp slot

/-- The log up to a slot: records, all of them valid. -/
def Records (e : Endian) (log : List UInt8) (inc i : Nat) : Prop :=
  ∀ k < i, ¬IsErased e log inc k ∧ IsValid e log inc k

/-- The count of the last record before a slot. -/
def lastCount (e : Endian) (log : List UInt8) (inc : Nat) : Nat → Nat
  | 0 => 0
  | i + 1 => countAt e log inc i

/-- The loop stops behind records, at an erased slot or at the end. -/
theorem readLog_ok (records : Records e p.bytes p.increment k)
    (stops : readLog e p env n k (lastCount e p.bytes p.increment k) = .ok (i, last)) :
    k ≤ i ∧ i ≤ k + n ∧ Records e p.bytes p.increment i ∧ last = lastCount e p.bytes p.increment i ∧
      (i < k + n → IsErased e p.bytes p.increment i) := by
  induction n generalizing k with
  | zero =>
    cases stops
    exact ⟨le_rfl, le_rfl, records, rfl, fun less => absurd less (Nat.lt_irrefl _)⟩
  | succ n ih =>
    rw [readLog] at stops
    split at stops
    · cases stops
    · split at stops
      · rename_i erased
        cases stops
        exact ⟨le_rfl, Nat.le_add_right _ _, records, rfl, fun _ => erased⟩
      · rename_i used
        split at stops
        · cases stops
        · rename_i valid
          have records' : Records e p.bytes p.increment (k + 1) := by
            intro j less
            rcases Nat.lt_succ_iff_lt_or_eq.mp less with before | rfl
            · exact records j before
            · exact ⟨used, not_not.mp valid⟩
          obtain ⟨least, most, all, counted, stopped⟩ := ih records' stops
          exact ⟨by omega, by omega, all, counted, fun less => stopped (by omega)⟩

/-- It stops there when nothing fails. -/
theorem readLog_records (records : Records e p.bytes p.increment i) (le : k ≤ i) (inside : i ≤ k + n)
    (slots : k + n ≤ p.slots) (reads : ∀ k, env.pread k = true) (erased : i < k + n → IsErased e p.bytes p.increment i) :
    readLog e p env n k (lastCount e p.bytes p.increment k) = .ok (i, lastCount e p.bytes p.increment i) := by
  induction n generalizing k with
  | zero =>
    obtain rfl : k = i := by omega
    rfl
  | succ n ih =>
    have inside' := p.slot_inside (show k < p.slots by omega)
    have least := p.least
    have read : ¬(env.pread k = false ∨ p.bytes.length < k * p.increment + counterSize) := by
      rw [reads k]
      unfold BC_OFFSET_INCREMENT_MIN at least
      unfold counterSize
      simp only [Bool.true_eq_false, false_or]
      omega
    rw [readLog, if_neg read]
    rcases Nat.lt_or_eq_of_le le with before | rfl
    · obtain ⟨used, valid⟩ := records k before
      rw [if_neg used, if_neg (not_not.mpr valid)]
      exact ih before (by omega) (by omega) fun less => erased (by omega)
    · rw [if_pos (erased (by omega))]

/-- The boot loader goes over records. -/
theorem bootCount_records (records : ∀ j, k ≤ j → j < i → ¬IsErased e log inc j ∧ IsValid e log inc j) (le : k ≤ i) :
    bootCount e log inc (i - k + n) k (lastCount e log inc k) = bootCount e log inc n i (lastCount e log inc i) := by
  induction gap : i - k generalizing k with
  | zero =>
    obtain rfl : k = i := by omega
    rw [Nat.zero_add]
  | succ d ih =>
    obtain ⟨used, valid⟩ := records k le_rfl (by omega)
    have step : d + 1 + n = (d + n) + 1 := by omega
    rw [step, bootCount, if_neg used, if_pos valid]
    exact ih (fun j least less => records j (by omega) less) (by omega) (by omega)

/-- What the boot loader finds depends on the slots that it may look at. -/
theorem bootCount_congr (same : ∀ j, k ≤ j → j < k + n → magicAt e log inc j = magicAt e log' inc j ∧
    countAt e log inc j = countAt e log' inc j ∧ checksumAt e log inc j = checksumAt e log' inc j) :
    bootCount e log inc n k count = bootCount e log' inc n k count := by
  induction n generalizing k count with
  | zero => rfl
  | succ n ih =>
    obtain ⟨magic, counts, checksum⟩ := same k le_rfl (by omega)
    have erased : IsErased e log inc k ↔ IsErased e log' inc k := by rw [IsErased, IsErased, magic]
    have valid : IsValid e log inc k ↔ IsValid e log' inc k := by
      rw [IsValid, IsValid, magic, counts, checksum]
    rw [bootCount, bootCount]
    simp only [erased, valid, counts]
    split
    · rfl
    · exact ih fun j least less => same j (by omega) (by omega)

/-- The boot loader stops where the loop does. -/
theorem bootCount_stops (records : Records e log inc i) (inside : i ≤ n) (erased : i < n → IsErased e log inc i) :
    bootCount e log inc n 0 0 = lastCount e log inc i := by
  have behind := bootCount_records (n := n - i) (fun j _ less => records j less) (Nat.zero_le i)
  have all : i - 0 + (n - i) = n := by omega
  rw [all] at behind
  refine behind.trans ?_
  rcases Nat.lt_or_eq_of_le inside with before | rfl
  · obtain ⟨d, more⟩ := Nat.exists_eq_succ_of_ne_zero (Nat.sub_ne_zero_of_lt before)
    rw [more, bootCount, if_pos (erased before)]
  · rw [Nat.sub_self]
    rfl

theorem bootCount_erased (erased : ∀ j, k ≤ j → j < k + n → IsErased e log inc j) :
    bootCount e log inc n k count = count := by
  cases n with
  | zero => rfl
  | succ n => rw [bootCount, if_pos (erased k le_rfl (by omega))]

/-- An error of the loop has a code. -/
theorem readLog_error {code : Int} (failed : readLog e p env n k last = .error code) : code ≠ 0 := by
  induction n generalizing k last with
  | zero => cases failed
  | succ n ih =>
    rw [readLog] at failed
    split at failed
    · cases failed
      decide
    · split at failed
      · cases failed
      · split at failed
        · cases failed
          decide
        · exact ih failed

end Reading

/-! ### The new record -/

section Writing

variable {e : Endian} {p : Partition} {env : Env} {log : List UInt8} {inc i last : Nat}

/-- A log with the new record in a slot. -/
def placed (e : Endian) (log : List UInt8) (inc i : Nat) : List UInt8 :=
  log.take (i * inc) ++ record e inc ++ log.drop (i * inc + inc)

theorem length_record (least : counterSize ≤ inc) : (record e inc).length = inc := by
  simp only [record, List.length_append, length_bytes, List.length_replicate]
  unfold counterSize at *
  omega

/-- A write to erased bytes leaves what is written. -/
theorem and_unwritten (bytes : List UInt8) :
    List.zipWith (· &&& ·) (List.replicate bytes.length 0xff) bytes = bytes := by
  induction bytes with
  | nil => rfl
  | cons b bytes ih =>
    have same : (0xff : UInt8) &&& b = b := by
      rw [UInt8.and_comm]
      exact UInt8.and_neg_one
    rw [List.length_cons, List.replicate_succ, List.zipWith_cons_cons, same, ih]

theorem program_blank (least : counterSize ≤ inc) (blank : IsBlank log inc i) :
    program log (i * inc) (record e inc) = placed e log inc i := by
  have written := and_unwritten (record e inc)
  rw [length_record least] at written
  rw [program, length_record least, blank, written, placed]

/-- The numbers away from the slot stay. -/
theorem numberAt_placed {pos : Nat} (least : counterSize ≤ inc) (inside : i * inc + inc ≤ log.length)
    (away : pos + 4 ≤ i * inc ∨ i * inc + inc ≤ pos) :
    e.numberAt (placed e log inc i) pos 4 = e.numberAt log pos 4 := by
  have parts : log.take (i * inc) ++ (log.drop (i * inc)).take inc ++ log.drop (i * inc + inc) = log := by
    rw [List.append_assoc, ← List.drop_drop, List.take_append_drop, List.take_append_drop]
  have slot : ((log.drop (i * inc)).take inc).length = inc := by
    rw [List.length_take, List.length_drop]
    omega
  have front : (log.take (i * inc)).length = i * inc := List.length_take_of_le (by omega)
  have replaced : e.numberAt (placed e log inc i) pos 4 = e.numberAt (log.take (i * inc) ++
      (log.drop (i * inc)).take inc ++ log.drop (i * inc + inc)) pos 4 :=
    numberAt_replace ((length_record least).trans slot.symm) (by rw [front, slot]; exact away)
  rw [replaced, parts]

/-- The other slots keep what they had. -/
theorem slot_placed {k : Nat} (least : counterSize ≤ inc) (inside : i * inc + inc ≤ log.length) (other : k ≠ i) :
    magicAt e (placed e log inc i) inc k = magicAt e log inc k ∧
      countAt e (placed e log inc i) inc k = countAt e log inc k ∧
      checksumAt e (placed e log inc i) inc k = checksumAt e log inc k := by
  unfold counterSize at least
  have away : k * inc + inc ≤ i * inc ∨ i * inc + inc ≤ k * inc := by
    rw [← Nat.succ_mul, ← Nat.succ_mul]
    rcases Nat.lt_or_gt_of_ne other with before | behind
    · exact .inl (Nat.mul_le_mul_right inc before)
    · exact .inr (Nat.mul_le_mul_right inc behind)
  exact ⟨numberAt_placed least inside (by omega), numberAt_placed least inside (by omega),
    numberAt_placed least inside (by omega)⟩

/-- The slot has the record. -/
theorem record_placed (inside : i * inc ≤ log.length) :
    magicAt e (placed e log inc i) inc i = BOOTCOUNT_MAGIC ∧ countAt e (placed e log inc i) inc i = 0 ∧
      checksumAt e (placed e log inc i) inc i = BOOTCOUNT_MAGIC := by
  have front : (log.take (i * inc)).length = i * inc := List.length_take_of_le inside
  unfold magicAt countAt checksumAt placed record
  refine ⟨?_, ?_, ?_⟩
  · simp only [List.append_assoc]
    rw [← List.append_assoc]
    exact numberAt_bytes front (by decide)
  · simp only [List.append_assoc]
    rw [← List.append_assoc, ← List.append_assoc]
    exact numberAt_bytes (by rw [List.length_append, front, length_bytes]) (by decide)
  · simp only [List.append_assoc]
    rw [← List.append_assoc, ← List.append_assoc, ← List.append_assoc]
    exact numberAt_bytes (by simp only [List.length_append, front, length_bytes]) (by decide)

/-- The boot loader reads the new record and then what is behind it. -/
theorem bootCount_placed {slots : Nat} (least : counterSize ≤ inc) (inside : slots * inc ≤ log.length)
    (slot : i < slots) (records : Records e log inc i) :
    bootCount e (placed e log inc i) inc slots 0 0 = bootCount e log inc (slots - (i + 1)) (i + 1) 0 := by
  have within : i * inc + inc ≤ log.length := by
    rw [← Nat.succ_mul]
    exact (Nat.mul_le_mul_right inc slot).trans inside
  obtain ⟨magic, count, checksum⟩ := @record_placed e log inc i (by omega)
  have records' : Records e (placed e log inc i) inc (i + 1) := by
    intro k less
    rcases Nat.lt_succ_iff_lt_or_eq.mp less with before | rfl
    · obtain ⟨magic', count', checksum'⟩ := slot_placed (e := e) least within before.ne
      rw [IsErased, IsValid, magic', count', checksum']
      exact records k before
    · rw [IsErased, IsValid, magic, count, checksum]
      decide
  have behind := bootCount_records (n := slots - (i + 1)) (fun k _ less => records' k less) (Nat.zero_le (i + 1))
  have all : i + 1 - 0 + (slots - (i + 1)) = slots := by omega
  rw [all, lastCount, lastCount, count] at behind
  rw [behind]
  exact bootCount_congr fun k after _ => slot_placed least within (by omega)

end Writing

/-! ### The reset -/

section Reset

variable {e : Endian} {p : Partition} {env : Env} {log : List UInt8} {erased : Bool} {i : Nat} {x : Outcome}

/-- What is written: nothing, or the record to an erased slot, in the log as it was or, as it was full, in
one that was erased as a whole. -/
def Outcome.Kept (e : Endian) (p : Partition) (o : Outcome) : Prop :=
  (o.slot = none ∧ o.log = p.bytes) ∨
    ∃ i log, o.slot = some i ∧ i < p.slots ∧ IsBlank log p.increment i ∧ o.log = placed e log p.increment i ∧
      (o.erased = false ∧ log = p.bytes ∨
        o.erased = true ∧ Records e p.bytes p.increment p.slots ∧ log = List.replicate p.bytes.length 0xff)

/-- Success without a short write means that the boot loader reads 0, and an error that is neither about an
erasure nor after one that nothing changed. -/
structure Outcome.Right (e : Endian) (p : Partition) (env : Env) (o : Outcome) : Prop where
  reset : o.code = 0 → (o.slot ≠ none → env.pwrite = p.increment) →
    bootCount e o.log p.increment p.slots 0 0 = 0 ∧ o.Kept e p
  unchanged : o.code ≠ 0 → o.code ≠ -3 → o.erased = false → o.log = p.bytes

def ResetsRight (e : Endian) (p : Partition) : Prop := ∀ env, (mtdResetbc e p env).Right e p env

/-- Where a record would be written, the slot is erased to its end, and what is behind it does not count. -/
def LogEnds (e : Endian) (p : Partition) : Prop :=
  ∀ i < p.slots, Records e p.bytes p.increment i → IsErased e p.bytes p.increment i →
    lastCount e p.bytes p.increment i ≠ 0 →
      IsBlank p.bytes p.increment i ∧ bootCount e p.bytes p.increment (p.slots - (i + 1)) (i + 1) 0 = 0

theorem Partition.counter_le (p : Partition) : counterSize ≤ p.increment :=
  (show counterSize ≤ BC_OFFSET_INCREMENT_MIN by decide).trans p.least

theorem Partition.slots_mul (p : Partition) : p.slots * p.increment ≤ p.bytes.length :=
  Nat.div_mul_le_self _ _

theorem writeRecord_code (o : writeRecord e p env log erased i = x) (failed : x.code ≠ 0) :
    x.log = log ∧ x.erased = erased := by
  subst o
  unfold writeRecord at failed ⊢
  split
  · exact ⟨rfl, rfl⟩
  · rename_i done
    rw [if_neg done] at failed
    exact absurd rfl failed

theorem writeRecord_whole (whole : env.pwrite = p.increment) :
    writeRecord e p env log erased i = ⟨0, program log (i * p.increment) (record e p.increment), erased, some i⟩ := by
  have all : (record e p.increment).take env.pwrite.toNat = record e p.increment := by
    rw [whole, Int.toNat_natCast]
    exact List.take_of_length_le (length_record p.counter_le).le
  rw [writeRecord, if_neg (by omega), all]

/-- A record that is written to an erased slot behind records is right, if what is behind it does not count. -/
theorem right_writeRecord (length : log.length = p.bytes.length) (slot : i < p.slots)
    (records : Records e log p.increment i) (blank : IsBlank log p.increment i)
    (behind : bootCount e log p.increment (p.slots - (i + 1)) (i + 1) 0 = 0)
    (origin : erased = false ∧ log = p.bytes ∨ erased = true ∧ Records e p.bytes p.increment p.slots ∧
      log = List.replicate p.bytes.length 0xff) :
    (writeRecord e p env log erased i).Right e p env := by
  constructor
  · intro done whole
    have written : env.pwrite = p.increment := by
      apply whole
      unfold writeRecord at done ⊢
      split at done
      · cases done
      · rename_i wrote
        rw [if_neg wrote]
        exact Option.some_ne_none _
    rw [writeRecord_whole written, program_blank p.counter_le blank]
    refine ⟨?_, .inr ⟨i, log, rfl, slot, blank, rfl, origin⟩⟩
    rw [bootCount_placed p.counter_le (by rw [length]; exact p.slots_mul) slot records, behind]
  · intro failed _ kept
    obtain ⟨same, erased'⟩ := writeRecord_code rfl failed
    rw [erased'] at kept
    rcases origin with ⟨_, rfl⟩ | ⟨was, _⟩
    · exact same
    · cases kept.symm.trans was

theorem isErased_blank (least : counterSize ≤ p.increment) (blank : IsBlank log p.increment i) :
    IsErased e log p.increment i := by
  have magic : (log.drop (i * p.increment)).take 4 = List.replicate 4 0xff := by
    have four : min 4 p.increment = 4 := by unfold counterSize at least; omega
    rw [← four, ← List.take_take, blank, List.take_replicate, four]
  unfold IsErased magicAt Endian.numberAt
  rw [magic]
  cases e <;> rfl

theorem isBlank_erased (slot : i < p.slots) : IsBlank (List.replicate p.bytes.length 0xff) p.increment i := by
  have inside := p.slot_inside slot
  rw [IsBlank, List.drop_replicate, List.take_replicate, Nat.min_eq_left (by omega)]

/-- A log that ends right gets a record that is right. -/
theorem LogEnds.resetsRight (ends : LogEnds e p) : ResetsRight e p := by
  intro env
  unfold mtdResetbc
  split
  · exact ⟨fun done => (by cases done), fun _ _ _ => rfl⟩
  · split
    · exact ⟨fun done => (by cases done), fun _ _ _ => rfl⟩
    · split
      · rename_i code failed
        exact ⟨fun done => absurd done (readLog_error failed), fun _ _ _ => rfl⟩
      · rename_i i last stops
        obtain ⟨_, most, records, rfl, erased⟩ :=
          readLog_ok (k := 0) (fun k less => absurd less (Nat.not_lt_zero k)) stops
        rw [Nat.zero_add] at most erased
        split
        · rename_i zero
          exact ⟨fun _ _ => ⟨(bootCount_stops records most erased).trans zero, .inl ⟨rfl, rfl⟩⟩, fun _ _ _ => rfl⟩
        · rename_i counts
          split
          · rename_i full
            subst full
            split
            · exact ⟨fun done => (by cases done), fun _ other _ => absurd rfl other⟩
            · rcases Nat.eq_zero_or_pos p.slots with none | some
              · rw [none] at counts
                exact absurd rfl counts
              · refine right_writeRecord (List.length_replicate ..) some (fun k less => absurd less (Nat.not_lt_zero k))
                  (isBlank_erased some) ?_ (.inr ⟨rfl, records, rfl⟩)
                exact bootCount_erased fun k _ less => isErased_blank p.counter_le (isBlank_erased (by omega))
          · rename_i room
            have slot : i < p.slots := by omega
            obtain ⟨blank, behind⟩ := ends i slot records (erased (by omega)) counts
            exact right_writeRecord rfl slot records blank behind (.inl ⟨rfl, rfl⟩)

/-- A reset in which nothing fails. -/
def works (p : Partition) : Env := ⟨true, true, fun _ => true, none, p.increment⟩

/-- The reset is right for exactly the logs that end right. -/
theorem resetsRight_iff : ResetsRight e p ↔ LogEnds e p := by
  refine ⟨fun right i slot records erased counts => ?_, LogEnds.resetsRight⟩
  have stops : readLog e p (works p) p.slots 0 0 = .ok (i, lastCount e p.bytes p.increment i) :=
    readLog_records (k := 0) records (Nat.zero_le i) (by omega) (by omega) (fun _ => rfl) fun _ => erased
  have run : mtdResetbc e p (works p) = writeRecord e p (works p) p.bytes false i := by
    unfold mtdResetbc
    rw [stops]
    simp only [works, Bool.true_eq_false, if_false, if_neg counts, if_neg slot.ne]
  have outcome := right (works p)
  rw [run, writeRecord_whole rfl] at outcome
  obtain ⟨zero, kept⟩ := outcome.reset rfl fun _ => rfl
  rcases kept with ⟨unwritten, _⟩ | ⟨j, log, same, _, blank, _, origin⟩
  · cases unwritten
  · cases same
    rcases origin with ⟨_, rfl⟩ | ⟨was, _⟩
    · refine ⟨blank, ?_⟩
      rw [program_blank p.counter_le blank, bootCount_placed p.counter_le p.slots_mul slot records] at zero
      exact zero
    · cases was

/-- A record with count 3 and one that was torn before its magic number was written. -/
def torn : Partition where
  bytes := [0x11, 0x08, 0x11, 0x20, 3, 0, 0, 0, 0x14, 0x08, 0x11, 0x20, 0xff, 0xff, 0xff, 0xff,
    0xff, 0xff, 0xff, 0xff, 0, 0, 0, 0, 0, 0, 0, 0, 0xff, 0xff, 0xff, 0xff]
  writesize := 1
  small := by decide

/-- The program writes its record over the torn one, and the boot loader goes on with count 3. -/
theorem not_resetsRight : ¬ResetsRight .little torn := by
  intro right
  obtain ⟨zero, _⟩ := (right (works torn)).reset (by decide) fun _ => rfl
  revert zero
  decide

end Reset

end FirewallCore.MtdTool.BootCount
