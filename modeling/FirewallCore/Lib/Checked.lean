import Mathlib.Algebra.Order.Ring.Nat

/-!
Computations on buffers as C makes them: they return a value or an error, or they reach
outside of a buffer, where nothing more is said of them.

A buffer is the list of its bytes. A word has four of them, in the order of the processor.
-/

namespace FirewallCore.Lib

/-- Why a computation returns no value. -/
inductive Fault (ε : Type) where
  | error (e : ε)
  | outside
  deriving DecidableEq, Repr

abbrev Checked (ε α : Type) := Except (Fault ε) α

section Rules

variable {ε α β : Type} {x : Checked ε α} {f : α → Checked ε β}

/-- The computation reaches outside of a buffer. -/
def Outside (x : Checked ε α) : Prop := x = .error .outside

@[simp] theorem not_outside_ok {a : α} : ¬Outside (.ok a : Checked ε α) := by
  intro outside
  cases outside

@[simp] theorem not_outside_error {e : ε} : ¬Outside (.error (.error e) : Checked ε α) := by
  intro outside
  cases outside

@[simp] theorem outside_outside : Outside (.error .outside : Checked ε α) := rfl

@[simp] theorem ok_bind (a : α) (f : α → Checked ε β) : (.ok a : Checked ε α) >>= f = f a := rfl

theorem bind_eq_ok_iff {b : β} : x >>= f = .ok b ↔ ∃ a, x = .ok a ∧ f a = .ok b := by
  cases x with
  | error fault =>
    change (.error fault : Checked ε β) = .ok b ↔ _
    simp
  | ok a =>
    change f a = .ok b ↔ _
    simp

theorem bind_eq_error_iff {fault : Fault ε} :
    x >>= f = .error fault ↔ x = .error fault ∨ ∃ a, x = .ok a ∧ f a = .error fault := by
  cases x with
  | error fault' =>
    change (.error fault' : Checked ε β) = .error fault ↔ _
    simp
  | ok a =>
    change f a = .error fault ↔ _
    simp

/-- Of two computations in a row, one reaches outside. -/
theorem outside_bind_iff : Outside (x >>= f) ↔ Outside x ∨ ∃ a, x = .ok a ∧ Outside (f a) :=
  bind_eq_error_iff

/-- The computation returns a value. -/
def Returns (x : Checked ε α) : Prop := ∃ a, x = .ok a

@[simp] theorem returns_ok {a : α} : Returns (.ok a : Checked ε α) := ⟨a, rfl⟩

@[simp] theorem not_returns_error {fault : Fault ε} : ¬Returns (.error fault : Checked ε α) := by
  rintro ⟨a, same⟩
  cases same

theorem returns_bind_iff : Returns (x >>= f) ↔ ∃ a, x = .ok a ∧ Returns (f a) := by
  unfold Returns
  simp only [bind_eq_ok_iff]
  exact ⟨fun ⟨b, a, done, later⟩ => ⟨a, done, b, later⟩, fun ⟨a, done, b, later⟩ => ⟨b, a, done, later⟩⟩

theorem mapM_ne_error {f : α → Checked ε β} {l : List α}
    (returns : ∀ a ∈ l, ∀ e, f a ≠ .error (.error e)) (e : ε) : l.mapM f ≠ .error (.error e) := by
  induction l with
  | nil => nofun
  | cons a l ih =>
    intro failed
    rw [List.mapM_cons, bind_eq_error_iff] at failed
    rcases failed with first | ⟨b, -, failed⟩
    · exact returns a List.mem_cons_self e first
    · rcases bind_eq_error_iff.mp failed with later | ⟨bs, -, failed⟩
      · exact ih (fun a mem => returns a (List.mem_cons_of_mem _ mem)) later
      · cases failed

/-- A list of computations, each of which returns or reaches outside. -/
theorem outside_mapM_iff {f : α → Checked ε β} {l : List α}
    (returns : ∀ a ∈ l, ∀ e, f a ≠ .error (.error e)) :
    Outside (l.mapM f) ↔ ∃ a ∈ l, Outside (f a) := by
  induction l with
  | nil => simp [pure, Except.pure]
  | cons a l ih =>
    have later := ih fun a mem => returns a (List.mem_cons_of_mem _ mem)
    have rest : ∀ b, Outside (l.mapM f >>= fun bs => pure (b :: bs)) ↔ ∃ a ∈ l, Outside (f a) := by
      intro b
      rw [outside_bind_iff, later]
      simp [pure, Except.pure]
    rw [List.mapM_cons, outside_bind_iff]
    simp only [rest, List.mem_cons, exists_eq_or_imp]
    constructor
    · rintro (first | ⟨b, -, later⟩)
      · exact .inl first
      · exact .inr later
    · rintro (first | later)
      · exact .inl first
      · cases first : f a with
        | error fault =>
          cases fault with
          | error e => exact absurd first (returns a List.mem_cons_self e)
          | outside => exact .inl rfl
        | ok b => exact .inr ⟨b, rfl, later⟩

theorem mapM_returns {f : α → Checked ε β} {l : List α}
    (returns : ∀ a ∈ l, ∀ e, f a ≠ .error (.error e)) (inside : ∀ a ∈ l, ¬Outside (f a)) :
    ∃ bs, l.mapM f = .ok bs := by
  cases done : l.mapM f with
  | ok bs => exact ⟨bs, rfl⟩
  | error fault =>
    cases fault with
    | error e => exact absurd done (mapM_ne_error returns e)
    | outside =>
      obtain ⟨a, mem, lost⟩ := (outside_mapM_iff returns).mp done
      exact absurd lost (inside a mem)

/-- What a list of computations returns. -/
theorem mapM_ok {f : α → Checked ε β} {l : List α} {bs : List β} (done : l.mapM f = .ok bs) :
    (∀ b ∈ bs, ∃ a ∈ l, f a = .ok b) ∧ ∀ a ∈ l, ∃ b ∈ bs, f a = .ok b := by
  induction l generalizing bs with
  | nil =>
    cases done
    simp
  | cons a l ih =>
    rw [List.mapM_cons] at done
    obtain ⟨b, first, later⟩ := bind_eq_ok_iff.mp done
    obtain ⟨rest, more, same⟩ := bind_eq_ok_iff.mp later
    cases same
    obtain ⟨back, forth⟩ := ih more
    constructor
    · intro b' mem
      rcases List.mem_cons.mp mem with rfl | mem
      · exact ⟨a, List.mem_cons_self, first⟩
      · obtain ⟨a', mem, gives⟩ := back b' mem
        exact ⟨a', List.mem_cons_of_mem _ mem, gives⟩
    · intro a' mem
      rcases List.mem_cons.mp mem with rfl | mem
      · exact ⟨b, List.mem_cons_self, first⟩
      · obtain ⟨b', mem, gives⟩ := forth a' mem
        exact ⟨b', List.mem_cons_of_mem _ mem, gives⟩

end Rules

/-! ### Words -/

/-- The order of the bytes of a word. -/
inductive Endian where
  | little
  | big
  deriving DecidableEq, Repr

/-- The number that bytes stand for. -/
def Endian.number (e : Endian) (bytes : List UInt8) : Nat :=
  match e with
  | little => bytes.foldr (fun b n => b.toNat + 256 * n) 0
  | big => bytes.foldl (fun n b => 256 * n + b.toNat) 0

/-- The word at a position. -/
def readWord {ε : Type} (e : Endian) (buf : List UInt8) (pos : Nat) : Checked ε Nat :=
  if pos + 4 ≤ buf.length then .ok (e.number ((buf.drop pos).take 4)) else .error .outside

/-- The number of some bytes at a position, as far as there are any. -/
def Endian.numberAt (e : Endian) (buf : List UInt8) (pos size : Nat) : Nat :=
  e.number ((buf.drop pos).take size)

/-- A number of some bytes. -/
def readNumber {ε : Type} (e : Endian) (size : Nat) (buf : List UInt8) (pos : Nat) : Checked ε Nat :=
  if pos + size ≤ buf.length then .ok (e.numberAt buf pos size) else .error .outside

/-- The bytes of a word. -/
def Endian.bytes (e : Endian) (word : Nat) : List UInt8 :=
  let little := (List.range 4).map fun i => UInt8.ofNat (word / 256 ^ i)
  match e with
  | .little => little
  | .big => little.reverse

/-- A buffer with a word written to a position. -/
def writeWord {ε : Type} (e : Endian) (buf : List UInt8) (pos word : Nat) : Checked ε (List UInt8) :=
  if pos + 4 ≤ buf.length then .ok (buf.take pos ++ e.bytes word ++ buf.drop (pos + 4))
  else .error .outside

section Words

variable {ε : Type} {e : Endian} {buf buf' : List UInt8} {pos word : Nat}

theorem readWord_inside (inside : pos + 4 ≤ buf.length) :
    (readWord e buf pos : Checked ε Nat) = .ok (e.number ((buf.drop pos).take 4)) :=
  if_pos inside

theorem readWord_outside (outside : buf.length < pos + 4) :
    (readWord e buf pos : Checked ε Nat) = .error .outside :=
  if_neg (Nat.not_le.mpr outside)

theorem readWord_eq : (readWord e buf pos : Checked ε Nat) = readNumber e 4 buf pos := rfl

theorem readNumber_inside {size : Nat} (inside : pos + size ≤ buf.length) :
    (readNumber e size buf pos : Checked ε Nat) = .ok (e.numberAt buf pos size) :=
  if_pos inside

theorem readNumber_eq_ok {size n : Nat} : (readNumber e size buf pos : Checked ε Nat) = .ok n ↔
    pos + size ≤ buf.length ∧ e.numberAt buf pos size = n := by
  unfold readNumber
  split
  · rename_i inside
    rw [Except.ok.injEq, and_iff_right inside]
  · rename_i outside
    simp only [reduceCtorEq, outside, false_and]

/-- What begins with reading a number returns if that is inside and the rest returns. -/
theorem returns_readNumber_iff {α : Type} {size : Nat} {f : Nat → Checked ε α} :
    Returns (readNumber e size buf pos >>= f) ↔
      pos + size ≤ buf.length ∧ Returns (f (e.numberAt buf pos size)) := by
  simp only [returns_bind_iff, readNumber_eq_ok, and_assoc, exists_and_left, exists_eq_left']

theorem numberAt_append {size : Nat} (front : List UInt8) :
    e.numberAt (front ++ buf) (front.length + pos) size = e.numberAt buf pos size := by
  rw [Endian.numberAt, List.drop_append, List.drop_eq_nil_of_le (Nat.le_add_right _ _),
    Nat.add_sub_cancel_left, List.nil_append]
  rfl

theorem numberAt_append_left {size : Nat} {rest : List UInt8} (inside : pos + size ≤ buf.length) :
    e.numberAt (buf ++ rest) pos size = e.numberAt buf pos size := by
  unfold Endian.numberAt
  rw [List.drop_append_of_le_length (by omega), List.take_append_of_le_length]
  rw [List.length_drop]
  omega

/-- A word behind a first part is one of the rest. -/
theorem readWord_append (front : List UInt8) (pos : Nat) :
    (readWord e (front ++ buf) (front.length + pos) : Checked ε Nat) = readWord e buf pos := by
  unfold readWord
  rw [List.length_append, List.drop_append, List.drop_eq_nil_of_le (Nat.le_add_right _ _),
    Nat.add_sub_cancel_left, List.nil_append]
  simp only [Nat.add_assoc, Nat.add_le_add_iff_left]

@[simp] theorem length_bytes (e : Endian) (word : Nat) : (e.bytes word).length = 4 := by
  cases e <;> simp [Endian.bytes]

theorem number_bytes (e : Endian) (small : word < 2 ^ 32) : e.number (e.bytes word) = word := by
  cases e <;> simp [Endian.bytes, Endian.number, List.range_succ] <;> omega

theorem number_lt (bs : List UInt8) : e.number bs < 256 ^ bs.length := by
  cases e with
  | little =>
    induction bs with
    | nil => decide
    | cons b bs ih =>
      have byte := b.toNat_lt
      rw [Endian.number, List.foldr_cons, List.length_cons, Nat.pow_succ]
      rw [Endian.number] at ih
      omega
  | big =>
    have all : ∀ (bs : List UInt8) (n : Nat),
        bs.foldl (fun n b => 256 * n + b.toNat) n < (n + 1) * 256 ^ bs.length := by
      intro bs
      induction bs with
      | nil => exact fun n => by simp
      | cons b bs ih =>
        intro n
        have byte := b.toNat_lt
        refine (ih _).trans_le ?_
        rw [List.length_cons, Nat.pow_succ, Nat.mul_comm (256 ^ bs.length), ← Nat.mul_assoc]
        exact Nat.mul_le_mul_right _ (show 256 * n + b.toNat + 1 ≤ (n + 1) * 256 by omega)
    have total := all bs 0
    rwa [Nat.zero_add, Nat.one_mul] at total

theorem numberAt_lt (size : Nat) : e.numberAt buf pos size < 256 ^ size := by
  refine (number_lt _).trans_le (Nat.pow_le_pow_right (by decide) ?_)
  rw [List.length_take]
  exact Nat.min_le_left _ _

/-- A word that is written behind a first part. -/
theorem numberAt_bytes {front rest : List UInt8} (before : front.length = pos) (small : word < 2 ^ 32) :
    e.numberAt (front ++ e.bytes word ++ rest) pos 4 = word := by
  subst before
  rw [Endian.numberAt, List.append_assoc, List.drop_left, List.take_left' (length_bytes e word),
    number_bytes e small]

theorem bytes_number {bs : List UInt8} (four : bs.length = 4) : e.bytes (e.number bs) = bs := by
  match bs with
  | [a, b, c, d] =>
    have ha := a.toNat_lt
    have hb := b.toNat_lt
    have hc := c.toNat_lt
    have hd := d.toNat_lt
    cases e <;> simp [Endian.bytes, Endian.number, List.range_succ, ← UInt8.toNat_inj] <;> omega

theorem writeWord_ok (written : (writeWord e buf pos word : Checked ε (List UInt8)) = .ok buf') :
    pos + 4 ≤ buf.length ∧ buf' = buf.take pos ++ e.bytes word ++ buf.drop (pos + 4) := by
  unfold writeWord at written
  split at written
  · rename_i inside
    cases written
    exact ⟨inside, rfl⟩
  · cases written

theorem writeWord_length (written : (writeWord e buf pos word : Checked ε (List UInt8)) = .ok buf') :
    buf'.length = buf.length := by
  obtain ⟨inside, rfl⟩ := writeWord_ok written
  simp only [List.length_append, List.length_take, List.length_drop, length_bytes]
  omega

/-- What has been written is read. -/
theorem readWord_writeWord (small : word < 2 ^ 32)
    (written : (writeWord e buf pos word : Checked ε (List UInt8)) = .ok buf') :
    (readWord e buf' pos : Checked ε Nat) = .ok word := by
  have length := writeWord_length written
  obtain ⟨inside, rfl⟩ := writeWord_ok written
  have front : (buf.take pos).length = pos := by
    rw [List.length_take]
    omega
  rw [readWord_inside (by omega), List.append_assoc, List.drop_append_of_le_length (by omega),
    List.drop_of_length_le (by omega), List.nil_append, List.take_left' (length_bytes e word),
    number_bytes e small]

/-- A word that is written back restores the buffer. -/
theorem writeWord_back {old : Nat} (before : (readWord e buf pos : Checked ε Nat) = .ok old)
    (written : (writeWord e buf pos word : Checked ε (List UInt8)) = .ok buf') :
    (writeWord e buf' pos old : Checked ε (List UInt8)) = .ok buf := by
  have length := writeWord_length written
  obtain ⟨inside, rfl⟩ := writeWord_ok written
  rw [readWord_inside inside, Except.ok.injEq] at before
  have front : (buf.take pos).length = pos := by
    rw [List.length_take]
    omega
  have four : ((buf.drop pos).take 4).length = 4 := by
    rw [List.length_take, List.length_drop]
    omega
  have both : (buf.take pos ++ e.bytes word).length = pos + 4 := by
    rw [List.length_append, front, length_bytes]
  have kept : (buf.take pos ++ e.bytes word ++ buf.drop (pos + 4)).take pos = buf.take pos := by
    rw [List.append_assoc, List.take_left' front]
  rw [writeWord, if_pos (by omega), ← before, bytes_number four, List.drop_left' both, kept,
    List.append_assoc, ← List.drop_drop, List.take_append_drop, List.take_append_drop]

end Words

end FirewallCore.Lib

/-!
Moving and filling parts of a buffer, as `memmove`, `memcpy` and `memset` do, and buffers that are made of
slots of one size.
-/

namespace FirewallCore.Lib

section Operations

variable {ε : Type}

/-- Some bytes at a position. -/
def load (mem : List UInt8) (pos size : Nat) : Checked ε (List UInt8) :=
  if pos + size ≤ mem.length then .ok ((mem.drop pos).take size) else .error .outside

/-- The buffer with bytes written to a position. -/
def store (mem : List UInt8) (pos : Nat) (bytes : List UInt8) : Checked ε (List UInt8) :=
  if pos + bytes.length ≤ mem.length then .ok (mem.take pos ++ bytes ++ mem.drop (pos + bytes.length))
  else .error .outside

def memset (mem : List UInt8) (pos : Nat) (c : UInt8) (size : Nat) : Checked ε (List UInt8) :=
  if pos + size ≤ mem.length then store mem pos (List.replicate size c) else .error .outside

def memmove (mem : List UInt8) (dst src size : Nat) : Checked ε (List UInt8) :=
  load mem src size >>= store mem dst

variable {mem front part part' rest : List UInt8} {pos size : Nat} {c : UInt8}

theorem load_inside (inside : pos + size ≤ mem.length) :
    (load mem pos size : Checked ε (List UInt8)) = .ok ((mem.drop pos).take size) :=
  if_pos inside

theorem store_inside {bytes : List UInt8} (inside : pos + bytes.length ≤ mem.length) :
    (store mem pos bytes : Checked ε (List UInt8)) =
      .ok (mem.take pos ++ bytes ++ mem.drop (pos + bytes.length)) :=
  if_pos inside

/-- A part of a buffer is read. -/
theorem load_part (before : front.length = pos) (length : part.length = size) :
    (load (front ++ part ++ rest) pos size : Checked ε (List UInt8)) = .ok part := by
  subst before length
  rw [load_inside (by simp), List.append_assoc, List.drop_left, List.take_left]

/-- A part of a buffer is replaced by another of its length. -/
theorem store_part (before : front.length = pos) (length : part'.length = part.length) :
    (store (front ++ part ++ rest) pos part' : Checked ε (List UInt8)) = .ok (front ++ part' ++ rest) := by
  subst before
  have behind : front.length + part'.length = (front ++ part).length := by rw [List.length_append, length]
  rw [store, if_pos (by simp [length]), behind, List.drop_left, List.append_assoc front, List.take_left]

theorem memset_outside (outside : mem.length < pos + size) :
    (memset mem pos c size : Checked ε (List UInt8)) = .error .outside :=
  if_neg (Nat.not_le.mpr outside)

theorem store_length {bytes mem' : List UInt8} (stored : (store mem pos bytes : Checked ε _) = .ok mem') :
    mem'.length = mem.length := by
  unfold store at stored
  split at stored
  · cases stored
    simp only [List.length_append, List.length_take, List.length_drop]
    omega
  · cases stored

/-- A number away from a part that is replaced. -/
theorem numberAt_replace {e : Endian} (length : part'.length = part.length)
    (away : pos + size ≤ front.length ∨ front.length + part.length ≤ pos) :
    e.numberAt (front ++ part' ++ rest) pos size = e.numberAt (front ++ part ++ rest) pos size := by
  rcases away with before | behind
  · rw [List.append_assoc, List.append_assoc, numberAt_append_left before, numberAt_append_left before]
  · obtain ⟨d, rfl⟩ := Nat.exists_eq_add_of_le behind
    have same : front.length + part.length + d = (front ++ part).length + d := by rw [List.length_append]
    have same' : front.length + part.length + d = (front ++ part').length + d := by
      rw [List.length_append, length]
    rw [same, numberAt_append, ← same, same', numberAt_append]

end Operations

section Slots

variable {e : Endian} {slots : List (List UInt8)} {width k : Nat} {x : List UInt8}

theorem length_slots (widths : ∀ x ∈ slots, x.length = width) :
    slots.flatten.length = width * slots.length := by
  induction slots with
  | nil => rfl
  | cons x slots ih =>
    rw [List.forall_mem_cons] at widths
    rw [List.flatten_cons, List.length_append, widths.1, ih widths.2, List.length_cons, Nat.mul_succ,
      Nat.add_comm]

/-- A slot with what is before it and what is behind. -/
theorem slots_split (widths : ∀ x ∈ slots, x.length = width) (slot : slots[k]? = some x) :
    slots.flatten = (slots.take k).flatten ++ x ++ (slots.drop (k + 1)).flatten ∧
      (slots.take k).flatten.length = width * k ∧ x.length = width := by
  obtain ⟨inside, rfl⟩ := List.getElem?_eq_some_iff.mp slot
  refine ⟨?_, ?_, widths _ (List.getElem_mem inside)⟩
  · rw [List.append_assoc, ← List.flatten_cons, ← List.drop_eq_getElem_cons inside, ← List.flatten_append,
      List.take_append_drop]
  · rw [length_slots fun x member => widths x (List.mem_of_mem_take member), List.length_take,
      Nat.min_eq_left inside.le]

/-- A number in a slot. -/
theorem readNumber_slot {ε : Type} {field size : Nat} (widths : ∀ x ∈ slots, x.length = width)
    (slot : slots[k]? = some x) (inside : field + size ≤ width) :
    (readNumber e size slots.flatten (width * k + field) : Checked ε Nat) = .ok (e.numberAt x field size) := by
  obtain ⟨split, before, length⟩ := slots_split widths slot
  rw [split, ← before, List.append_assoc, readNumber_inside, numberAt_append,
    numberAt_append_left (by omega)]
  simp only [List.length_append]
  omega

/-- The first bytes of a slot. -/
theorem load_slot {ε : Type} {size : Nat} (widths : ∀ x ∈ slots, x.length = width)
    (slot : slots[k]? = some x) (inside : size ≤ width) :
    (load slots.flatten (width * k) size : Checked ε (List UInt8)) = .ok (x.take size) := by
  obtain ⟨split, before, length⟩ := slots_split widths slot
  have parts : slots.flatten = (slots.take k).flatten ++ x.take size ++
      (x.drop size ++ (slots.drop (k + 1)).flatten) := by
    rw [split, List.append_assoc, List.append_assoc, ← List.append_assoc (x.take size), List.take_append_drop]
  rw [parts, load_part before]
  rw [List.length_take]
  omega

end Slots

end FirewallCore.Lib
