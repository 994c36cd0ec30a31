import FirewallCore.Lib.Strings

/-!
Strings as Go reads them, rune by rune. A string is any sequence of bytes; where
the bytes do not encode a character, the first of them is a rune of its own and
counts as the replacement character.
-/

namespace FirewallCore.Lib

/-- `utf8.DecodeRune`: the character at the start of a text, if its bytes encode one. -/
def decodeRune (s : List UInt8) : Option Char := ByteArray.utf8DecodeChar? ⟨s.toArray⟩ 0

/-- A rune of a string: a character, or a byte that is not part of one. -/
inductive Rune where
  | char (c : Char)
  | stray (b : UInt8)
  deriving DecidableEq, Repr

/-- The value of a rune; `utf8.RuneError` for a stray byte. -/
def Rune.value : Rune → Char
  | char c => c
  | stray _ => '\uFFFD'

/-- The runes of a text behind the first `skip` bytes, which belong to a rune before. -/
def runesFrom : Nat → List UInt8 → List Rune
  | _, [] => []
  | skip + 1, _ :: rest => runesFrom skip rest
  | 0, b :: rest =>
    match decodeRune (b :: rest) with
    | some c => .char c :: runesFrom (c.utf8Size - 1) rest
    | none => .stray b :: runesFrom 0 rest

/-- The runes of a text. -/
def runes (s : List UInt8) : List Rune := runesFrom 0 s

/-- The text with every stray byte replaced (`strings.ToValidUTF8`, as `encoding/json` does it). -/
def coerce (s : List UInt8) : String := String.ofList ((runes s).map Rune.value)

/-! ### Characters and their bytes -/

section

variable {s rest : List UInt8} {c : Char}

theorem decodeRune_char (c : Char) (rest : List UInt8) :
    decodeRune (String.utf8EncodeChar c ++ rest) = some c := by
  have bytes : (⟨(String.utf8EncodeChar c ++ rest).toArray⟩ : ByteArray) =
      (String.utf8EncodeChar c).toByteArray ++ (⟨rest.toArray⟩ : ByteArray) := by
    apply ByteArray.ext
    simp
  rw [decodeRune, bytes]
  exact ByteArray.utf8DecodeChar?_utf8EncodeChar_append

theorem exists_of_decodeRune (found : decodeRune s = some c) :
    ∃ rest, s = String.utf8EncodeChar c ++ rest := by
  obtain ⟨tail, split⟩ := ByteArray.exists_of_utf8DecodeChar?_eq_some found
  have bytes := congrArg (fun b : ByteArray => b.data.toList) split
  exact ⟨tail.data.toList, by simpa [List.utf8Encode] using bytes⟩

theorem runesFrom_eq_drop (skip : Nat) (s : List UInt8) :
    runesFrom skip s = runes (s.drop skip) := by
  induction s generalizing skip with
  | nil => simp [runes, runesFrom]
  | cons b rest ih =>
    cases skip with
    | zero => rfl
    | succ skip => rw [runesFrom, ih, List.drop_succ_cons]

@[simp] theorem runes_nil : runes [] = [] := rfl

theorem utf8EncodeChar_cons (c : Char) :
    ∃ b bytes, String.utf8EncodeChar c = b :: bytes ∧ bytes.length = c.utf8Size - 1 := by
  have length := String.length_utf8EncodeChar c
  have pos := c.utf8Size_pos
  cases bytes : String.utf8EncodeChar c with
  | nil => simp [bytes] at length; omega
  | cons b tail =>
    rw [bytes, List.length_cons] at length
    exact ⟨b, tail, rfl, by omega⟩

theorem utf8EncodeChar_ascii {c : Char} (ascii : c.toNat < 128) :
    String.utf8EncodeChar c = [UInt8.ofNat c.toNat] := by
  have small : c.val.toNat ≤ 0x7f := by
    change c.toNat ≤ 127
    omega
  rw [String.utf8EncodeChar]
  exact if_pos small

theorem utf8EncodeChar_wide {c : Char} (wide : 128 ≤ c.toNat) :
    ∀ b ∈ String.utf8EncodeChar c, 128 ≤ b := by
  have big : ¬c.val.toNat ≤ 0x7f := by
    change ¬c.toNat ≤ 127
    omega
  have high : ∀ n, 128 ≤ n → n < 256 → (128 : UInt8) ≤ UInt8.ofNat n := by
    intro n low high
    rw [UInt8.le_iff_toNat_le, UInt8.toNat_ofNat_of_lt' high]
    exact low
  have bound : c.val.toNat < 0x110000 := by
    have := c.valid
    rcases this with h | h
    · change c.val.toNat < _ at h; omega
    · exact h.2
  intro b member
  unfold String.utf8EncodeChar at member
  dsimp only at member
  rw [if_neg big] at member
  split at member
  · simp only [List.mem_cons, List.not_mem_nil, or_false] at member
    rcases member with rfl | rfl <;> exact high _ (by omega) (by omega)
  · split at member
    · simp only [List.mem_cons, List.not_mem_nil, or_false] at member
      rcases member with rfl | rfl | rfl <;> exact high _ (by omega) (by omega)
    · simp only [List.mem_cons, List.not_mem_nil, or_false] at member
      rcases member with rfl | rfl | rfl | rfl <;> exact high _ (by omega) (by omega)

@[simp] theorem runes_char (c : Char) (rest : List UInt8) :
    runes (String.utf8EncodeChar c ++ rest) = .char c :: runes rest := by
  obtain ⟨b, bytes, eq, length⟩ := utf8EncodeChar_cons c
  have found := decodeRune_char c rest
  rw [eq, List.cons_append] at found ⊢
  rw [runes, runesFrom, found]
  simp only [runesFrom_eq_drop, ← length, List.drop_left]

end

/-! ### Texts of characters -/

theorem utf8_ofList (cs : List Char) :
    utf8 (String.ofList cs) = cs.flatMap String.utf8EncodeChar := by
  rw [utf8, String.toByteArray_ofList, List.utf8Encode]
  simp

theorem utf8_eq (s : String) : utf8 s = s.toList.flatMap String.utf8EncodeChar := by
  rw [← utf8_ofList, String.ofList_toList]

theorem runes_flatMap (cs : List Char) (rest : List UInt8) :
    runes (cs.flatMap String.utf8EncodeChar ++ rest) = cs.map .char ++ runes rest := by
  induction cs with
  | nil => rfl
  | cons c cs ih =>
    rw [List.flatMap_cons, List.append_assoc, runes_char, ih]
    rfl

theorem runes_utf8 (s : String) : runes (utf8 s) = s.toList.map .char := by
  have := runes_flatMap s.toList []
  rwa [List.append_nil, ← utf8_eq, runes_nil, List.append_nil] at this

/-- Text of characters is left as it is. -/
@[simp] theorem coerce_utf8 (s : String) : coerce (utf8 s) = s := by
  rw [coerce, runes_utf8, List.map_map]
  have : Rune.value ∘ Rune.char = id := rfl
  rw [this, List.map_id, String.ofList_toList]

/-- ASCII is text of characters. -/
theorem exists_utf8_ascii {s : List UInt8} (ascii : ∀ b ∈ s, b.toNat < 128) : ∃ t, s = utf8 t := by
  refine ⟨String.ofList (s.map fun b => Char.ofNat b.toNat), ?_⟩
  rw [utf8_ofList]
  induction s with
  | nil => rfl
  | cons b s ih =>
    have small : b.toNat < 128 := ascii b List.mem_cons_self
    have value : (Char.ofNat b.toNat).toNat = b.toNat := by
      rw [Char.ofNat, dif_pos (.inl (Nat.lt_trans small (by decide)))]
      rfl
    rw [List.map_cons, List.flatMap_cons,
      ← ih fun c member => ascii c (List.mem_cons_of_mem b member),
      utf8EncodeChar_ascii (by rw [value]; exact small), value, UInt8.ofNat_toNat]
    rfl

end FirewallCore.Lib
