import FirewallCore.Dhcpd.Config
import FirewallCore.Lib.Runes

/-!
`normalizeHostname` on the bytes that a client sends, which need not be text. Lower-casing
leaves only text: a stray byte becomes the replacement character, which separates the parts
of a name like every other character that is not a letter, a digit or a dot.

The fields of a text have no separators and are not empty, so that the text joined from
them is split into the same fields again (`fieldsFunc_intercalate`); all that is known of a
normalized name follows from that (`normalizeHostname_normal`).
-/

namespace FirewallCore.Dhcpd

open FirewallCore.Lib

/-! ### Fields -/

section Fields

variable {sep : Char → Bool} {s field : List Char} {c : Char} {fields : List (List Char)}

theorem of_mem_splitOnP (member : field ∈ s.splitOnP sep) : ∀ c ∈ field, c ∈ s ∧ sep c = false := by
  induction s generalizing field with
  | nil =>
    rw [List.splitOnP_nil, List.mem_singleton] at member
    subst member
    exact fun c never => absurd never List.not_mem_nil
  | cons d s ih =>
    have later : ∀ {field}, field ∈ s.splitOnP sep → ∀ c ∈ field, c ∈ d :: s ∧ sep c = false :=
      fun member c inside => ⟨List.mem_cons_of_mem d (ih member c inside).1, (ih member c inside).2⟩
    rw [List.splitOnP_cons_eq_if_modifyHead] at member
    split at member
    · rcases List.mem_cons.mp member with rfl | member
      · exact fun c never => absurd never List.not_mem_nil
      · exact later member
    · rename_i keeps
      obtain ⟨first, rest, eq⟩ := List.exists_cons_of_ne_nil (List.splitOnP_ne_nil sep s)
      rw [eq] at member later
      rw [List.modifyHead_cons] at member
      rcases List.mem_cons.mp member with rfl | member
      · intro c inside
        rcases List.mem_cons.mp inside with rfl | inside
        · exact ⟨List.mem_cons_self, by simpa using keeps⟩
        · exact later List.mem_cons_self c inside
      · exact later (List.mem_cons_of_mem first member)

/-- A field is not empty, and its characters are no separators. -/
theorem of_mem_fieldsFunc (member : field ∈ fieldsFunc sep s) : field ≠ [] ∧ ∀ c ∈ field, c ∈ s ∧ sep c = false := by
  obtain ⟨member, filled⟩ := List.mem_filter.mp member
  exact ⟨by simpa using filled, of_mem_splitOnP member⟩

/-- Fields that are joined by a separator are split there again. -/
theorem splitOnP_intercalate (some : fields ≠ []) (keep : ∀ field ∈ fields, ∀ c ∈ field, sep c = false)
    (separates : sep c = true) : (List.intercalate [c] fields).splitOnP sep = fields := by
  induction fields with
  | nil => exact absurd rfl some
  | cons field fields ih =>
    rw [List.forall_mem_cons] at keep
    cases fields with
    | nil => rw [List.intercalate_singleton, List.splitOnP_eq_singleton keep.1]
    | cons next fields =>
      rw [List.intercalate_cons_cons, List.append_assoc, List.singleton_append,
        List.splitOnP_append_cons_of_forall_mem keep.1 c separates, ih (List.cons_ne_nil _ _) keep.2]

theorem fieldsFunc_intercalate (some : fields ≠ []) (filled : [] ∉ fields)
    (keep : ∀ field ∈ fields, ∀ c ∈ field, sep c = false) (separates : sep c = true) :
    fieldsFunc sep (List.intercalate [c] fields) = fields := by
  rw [fieldsFunc, splitOnP_intercalate some keep separates, List.filter_eq_self]
  intro field member
  have : field ≠ [] := fun empty => filled (empty ▸ member)
  simpa using this

/-- A text without an empty piece has no separator at an end, nor two in a row. -/
theorem not_infix_of_splitOnP (filled : [] ∉ s.splitOnP sep) (separates : sep c = true) (before behind : List Char) :
    s ≠ c :: behind ∧ s ≠ before ++ [c] ∧ s ≠ before ++ c :: c :: behind := by
  have start : ∀ behind, [] ∈ (c :: behind).splitOnP sep := by
    intro behind
    rw [List.splitOnP_cons_eq_if_modifyHead, if_pos separates]
    exact List.mem_cons_self
  refine ⟨?_, ?_, ?_⟩
  · rintro rfl
    exact filled (start behind)
  · rintro rfl
    rw [List.splitOnP_append_cons _ _ separates] at filled
    exact filled (List.mem_append_right _ (by rw [List.splitOnP_nil]; exact List.mem_cons_self))
  · rintro rfl
    rw [List.splitOnP_append_cons _ _ separates] at filled
    exact filled (List.mem_append_right _ (start behind))

theorem mem_intercalate {d : Char} (member : d ∈ List.intercalate [c] fields) :
    d = c ∨ ∃ field ∈ fields, d ∈ field := by
  induction fields with
  | nil => exact absurd member List.not_mem_nil
  | cons field fields ih =>
    cases fields with
    | nil =>
      rw [List.intercalate_singleton] at member
      exact .inr ⟨field, List.mem_cons_self, member⟩
    | cons next fields =>
      rw [List.intercalate_cons_cons, List.append_assoc, List.singleton_append, List.mem_append, List.mem_cons] at member
      rcases member with here | rfl | later
      · exact .inr ⟨field, List.mem_cons_self, here⟩
      · exact .inl rfl
      · rcases ih later with eq | ⟨other, inside, there⟩
        · exact .inl eq
        · exact .inr ⟨other, List.mem_cons_of_mem field inside, there⟩

end Fields

/-! ### Normalized names -/

/-- What separates the parts of a name. -/
def separates (nu : Netutil) (c : Char) : Bool := c != '.' && !nu.isValidHostOuterRune c

/-- `normalizeHostname`, on the bytes of a Go string. -/
def normalizeHostnameBytes (nu : Netutil) (hostname : List UInt8) : Except (List UInt8) (List UInt8) :=
  if hostname = [] then .ok []
  else
    let norm := (runes hostname).map fun rune => nu.toLower rune.value
    let parts := fieldsFunc (separates nu) norm
    if parts.isEmpty then .error hostname
    else .ok (utf8 (String.ofList (trimHyphen (List.intercalate ['-'] parts))))

/-- What `unicode.ToLower` and `netutil.IsValidHostOuterRune` do: outer runes are ASCII letters and digits, ASCII
is lower-cased as usual, and nothing becomes an upper-case letter. -/
structure Netutil.Lawful (nu : Netutil) : Prop where
  outer : ∀ c, nu.isValidHostOuterRune c = c.isAlphanum
  ascii : ∀ c, c.toNat < 128 → nu.toLower c = c.toLower
  lower : ∀ c, (nu.toLower c).isUpper = false

/-- The characters of a normalized name. -/
def hostChar (c : Char) : Bool := c.isLower || c.isDigit || c == '.' || c == '-'

/-- A name as `normalizeHostname` makes it. -/
structure Normal (name : List UInt8) : Prop where
  chars : ∀ b ∈ name, hostChar (Char.ofNat b.toNat) = true
  head : name.head? ≠ some 45
  last : name.getLast? ≠ some 45
  adjacent : ¬[45, 45] <:+: name

section Names

variable {nu : Netutil} {hostname name : List UInt8} {parts : List (List Char)} {text : List Char} {c : Char}

theorem hostChar_ascii (host : hostChar c = true) : c.toNat < 128 ∧ c.toLower = c ∧ Char.ofNat c.toNat = c := by
  have range : c.toNat < 128 ∧ (c.toNat < 65 ∨ 90 < c.toNat) := by
    unfold hostChar Char.isLower Char.isDigit at host
    simp only [Bool.or_eq_true, Bool.and_eq_true, decide_eq_true_eq, beq_iff_eq] at host
    rcases host with ((⟨low, high⟩ | ⟨low, high⟩) | rfl) | rfl
    · have low : 97 ≤ c.toNat := low
      have high : c.toNat ≤ 122 := high
      omega
    · have low : 48 ≤ c.toNat := low
      have high : c.toNat ≤ 57 := high
      omega
    · decide
    · decide
  refine ⟨range.1, ?_, Char.ofNat_toNat c⟩
  unfold Char.toLower
  split
  · rename_i upper
    have low : 65 ≤ c.toNat := upper.1
    have high : c.toNat ≤ 90 := upper.2
    omega
  · rfl

/-- Text of a normalized name is ASCII, one byte a character. -/
theorem utf8_hostChars (host : ∀ c ∈ text, hostChar c = true) :
    utf8 (String.ofList text) = text.map fun c => UInt8.ofNat c.toNat := by
  rw [utf8_ofList]
  induction text with
  | nil => rfl
  | cons c text ih =>
    rw [List.forall_mem_cons] at host
    rw [List.flatMap_cons, utf8EncodeChar_ascii (hostChar_ascii host.1).1, ih host.2]
    rfl

theorem hyphen_of_byte (host : hostChar c = true) (byte : UInt8.ofNat c.toNat = 45) : c = '-' := by
  have small := (hostChar_ascii host).1
  have value : (UInt8.ofNat c.toNat).toNat = c.toNat := UInt8.toNat_ofNat_of_lt' (Nat.lt_trans small (by decide))
  rw [byte] at value
  exact Char.toNat_inj.mp value.symm

/-- The parts of a lower-cased text: there are no separators in them, and what there is belongs to a host name. -/
theorem of_mem_parts (lawful : nu.Lawful) {field : List Char}
    (member : field ∈ fieldsFunc (separates nu) ((runes hostname).map fun rune => nu.toLower rune.value)) :
    field ≠ [] ∧ ∀ c ∈ field, separates nu c = false ∧ hostChar c = true := by
  obtain ⟨filled, keep⟩ := of_mem_fieldsFunc member
  refine ⟨filled, fun c inside => ⟨(keep c inside).2, ?_⟩⟩
  obtain ⟨lowered, kept⟩ := keep c inside
  obtain ⟨rune, -, rfl⟩ := List.mem_map.mp lowered
  have small := lawful.lower rune.value
  rw [separates, lawful.outer] at kept
  unfold Char.isAlphanum Char.isAlpha at kept
  simp only [small, Bool.false_or, Bool.and_eq_false_iff, bne_eq_false_iff_eq,
    Bool.not_eq_false', Bool.or_eq_true] at kept
  simp only [hostChar, Bool.or_eq_true, beq_iff_eq]
  rcases kept with dot | lowerCase | digit
  · exact .inl (.inr dot)
  · exact .inl (.inl (.inl lowerCase))
  · exact .inl (.inl (.inr digit))

theorem separates_hyphen (lawful : nu.Lawful) : separates nu '-' = true := by
  rw [separates, lawful.outer]
  rfl

/-- The text of some parts joined. -/
structure Joined (nu : Netutil) (parts : List (List Char)) (text : List Char) : Prop where
  text : text = List.intercalate ['-'] parts
  some : parts ≠ []
  filled : [] ∉ parts
  keep : ∀ part ∈ parts, ∀ c ∈ part, separates nu c = false ∧ hostChar c = true

namespace Joined

theorem splitOnP (joined : Joined nu parts text) (lawful : nu.Lawful) : text.splitOnP (separates nu) = parts := by
  rw [joined.text]
  exact splitOnP_intercalate joined.some (fun part member c inside => (joined.keep part member c inside).1)
    (separates_hyphen lawful)

theorem hyphens (joined : Joined nu parts text) (lawful : nu.Lawful) (before behind : List Char) :
    text ≠ '-' :: behind ∧ text ≠ before ++ ['-'] ∧ text ≠ before ++ '-' :: '-' :: behind :=
  not_infix_of_splitOnP (joined.splitOnP lawful ▸ joined.filled) (separates_hyphen lawful) before behind

theorem hostChars (joined : Joined nu parts text) : ∀ c ∈ text, hostChar c = true := by
  rw [joined.text]
  intro c member
  rcases mem_intercalate member with rfl | ⟨part, inside, there⟩
  · decide
  · exact (joined.keep part inside c there).2

theorem trimHyphen (joined : Joined nu parts text) (lawful : nu.Lawful) : trimHyphen text = text := by
  rw [Dhcpd.trimHyphen, if_neg]
  intro last
  obtain ⟨before, eq⟩ := List.getLast?_eq_some_iff.mp last
  exact (joined.hyphens lawful before []).2.1 eq

/-- Such a text is split into the same parts again, and joined from them. -/
theorem again (joined : Joined nu parts text) (lawful : nu.Lawful) :
    normalizeHostnameBytes nu (utf8 (String.ofList text)) = .ok (utf8 (String.ofList text)) := by
  have lowered : (runes (utf8 (String.ofList text))).map (fun rune => nu.toLower rune.value) = text := by
    rw [runes_utf8, String.toList_ofList, List.map_map]
    have keeps : ∀ c ∈ text, ((fun rune : Rune => nu.toLower rune.value) ∘ Rune.char) c = id c := by
      intro c member
      obtain ⟨ascii, lower, -⟩ := hostChar_ascii (joined.hostChars c member)
      exact (lawful.ascii c ascii).trans lower
    rw [List.map_congr_left keeps, List.map_id]
  have split : fieldsFunc (separates nu) text = parts := by
    rw [joined.text]
    exact fieldsFunc_intercalate joined.some joined.filled
      (fun part member c inside => (joined.keep part member c inside).1) (separates_hyphen lawful)
  rw [normalizeHostnameBytes]
  split
  · rename_i empty
    rw [empty]
  · dsimp only
    rw [lowered, split, if_neg (mt List.isEmpty_iff.mp joined.some), ← joined.text, joined.trimHyphen lawful]

theorem normal (joined : Joined nu parts text) (lawful : nu.Lawful) : Normal (utf8 (String.ofList text)) := by
  have host := joined.hostChars
  rw [utf8_hostChars host]
  refine ⟨?_, ?_, ?_, ?_⟩
  · intro b member
    obtain ⟨c, inside, rfl⟩ := List.mem_map.mp member
    obtain ⟨ascii, -, same⟩ := hostChar_ascii (host c inside)
    rw [UInt8.toNat_ofNat_of_lt' (Nat.lt_trans ascii (by decide)), same]
    exact host c inside
  · intro first
    rw [List.head?_map, Option.map_eq_some_iff] at first
    obtain ⟨c, first, byte⟩ := first
    obtain ⟨behind, rfl⟩ := List.head?_eq_some_iff.mp first
    obtain rfl := hyphen_of_byte (host c List.mem_cons_self) byte
    exact (joined.hyphens lawful [] behind).1 rfl
  · intro last
    rw [List.getLast?_map, Option.map_eq_some_iff] at last
    obtain ⟨c, last, byte⟩ := last
    obtain ⟨before, rfl⟩ := List.getLast?_eq_some_iff.mp last
    obtain rfl := hyphen_of_byte (host c (by simp)) byte
    exact (joined.hyphens lawful before []).2.1 rfl
  · rintro ⟨before, behind, eq⟩
    obtain ⟨front, tail, rfl, front_eq, -⟩ := List.map_eq_append_iff.mp eq.symm
    obtain ⟨start, pair, rfl, -, pair_eq⟩ := List.map_eq_append_iff.mp front_eq
    obtain ⟨c, pair, rfl, first, pair_eq⟩ := List.map_eq_cons_iff.mp pair_eq
    obtain ⟨d, pair, rfl, second, pair_eq⟩ := List.map_eq_cons_iff.mp pair_eq
    obtain rfl := List.map_eq_nil_iff.mp pair_eq
    obtain rfl := hyphen_of_byte (host c (by simp)) first
    obtain rfl := hyphen_of_byte (host d (by simp)) second
    exact (joined.hyphens lawful start tail).2.2 (by simp)

end Joined

/-- What `normalizeHostname` returns is empty, for the empty name, or joined from parts. -/
theorem joined_of_normalizeHostnameBytes (lawful : nu.Lawful) (done : normalizeHostnameBytes nu hostname = .ok name) :
    hostname = [] ∧ name = [] ∨ ∃ parts text, Joined nu parts text ∧ name = utf8 (String.ofList text) := by
  rw [normalizeHostnameBytes] at done
  split at done
  · rename_i empty
    exact .inl ⟨empty, (Except.ok.inj done).symm⟩
  · dsimp only at done
    split at done
    · cases done
    · rename_i some
      have joined : Joined nu _ _ :=
        { text := rfl
          some := mt List.isEmpty_iff.mpr some
          filled := fun member => (of_mem_parts lawful member).1 rfl
          keep := fun part member => (of_mem_parts lawful member).2 }
      rw [joined.trimHyphen lawful] at done
      exact .inr ⟨_, _, joined, (Except.ok.inj done).symm⟩

/-- A name that is normalized has none but the characters of a host name, no hyphens at its ends or in a row, and
stays as it is. -/
theorem normalizeHostname_normal (lawful : nu.Lawful) (done : normalizeHostnameBytes nu hostname = .ok name) :
    Normal name ∧ normalizeHostnameBytes nu name = .ok name ∧ (name = [] → hostname = []) := by
  rcases joined_of_normalizeHostnameBytes lawful done with ⟨rfl, rfl⟩ | ⟨parts, text, joined, rfl⟩
  · exact ⟨⟨by simp, by simp, by simp, by simp⟩, done, fun _ => rfl⟩
  · refine ⟨joined.normal lawful, joined.again lawful, fun empty => ?_⟩
    rw [utf8_hostChars joined.hostChars, List.map_eq_nil_iff] at empty
    have parts_eq := joined.splitOnP lawful
    rw [empty, List.splitOnP_nil] at parts_eq
    exact absurd (parts_eq ▸ List.mem_cons_self) joined.filled

/-- On text this is the function of the server. -/
theorem normalizeHostnameBytes_utf8 (nu : Netutil) (s : String) :
    normalizeHostnameBytes nu (utf8 s) = ((normalizeHostname nu s).map utf8).mapError utf8 := by
  have lowered : (runes (utf8 s)).map (fun rune => nu.toLower rune.value) = (nu.lower s).toList := by
    rw [runes_utf8, List.map_map, Netutil.lower, String.toList_ofList]
    rfl
  have empty : utf8 s = [] ↔ s = "" := by
    constructor
    · intro none
      rw [← coerce_utf8 s, none]
      rfl
    · rintro rfl
      rfl
  rw [normalizeHostnameBytes, normalizeHostname, lowered]
  by_cases none : s = ""
  · rw [if_pos (empty.mpr none), if_pos none]
    rfl
  · rw [if_neg (mt empty.mp none), if_neg none]
    dsimp only
    change (if (fieldsFunc (separates nu) (nu.lower s).toList).isEmpty = true then _ else _) =
      ((if (fieldsFunc (separates nu) (nu.lower s).toList).isEmpty = true then _ else _ : Except _ _).map utf8).mapError _
    split <;> rfl

theorem isUpper_toLower (c : Char) : c.toLower.isUpper = false := by
  unfold Char.toLower
  split
  · rename_i upper
    have low : 65 ≤ c.toNat := upper.1
    have high : c.toNat ≤ 90 := upper.2
    unfold Char.isUpper
    rw [decide_eq_false_iff_not]
    rintro ⟨-, below⟩
    have below : (c.val + 32).toNat ≤ 90 := below
    rw [UInt32.toNat_add] at below
    have value : c.val.toNat = c.toNat := rfl
    have shift : UInt32.toNat 32 = 32 := rfl
    omega
  · rename_i other
    unfold Char.isUpper
    rw [decide_eq_false_iff_not]
    exact other

theorem ascii_lawful : Netutil.ascii.Lawful :=
  ⟨fun _ => rfl, fun _ _ => rfl, isUpper_toLower⟩

end Names

/-- A name with a stray byte, spaces and upper-case letters: "My Ph", 0xff, "one". -/
def mixedName : List UInt8 := [77, 121, 32, 80, 104, 255, 111, 110, 101]

/-- It becomes "my-ph-one". -/
theorem mixedName_normal : Normal [109, 121, 45, 112, 104, 45, 111, 110, 101] := by
  have done : normalizeHostnameBytes .ascii mixedName = .ok [109, 121, 45, 112, 104, 45, 111, 110, 101] := by
    decide
  exact (normalizeHostname_normal ascii_lawful done).1

end FirewallCore.Dhcpd
