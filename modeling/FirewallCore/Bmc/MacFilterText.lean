import FirewallCore.Bmc.MacFilter
import FirewallCore.Lib.Lines
import FirewallCore.Lib.Runes
import FirewallCore.Lib.Strings

/-!
The commands `add` and `delete` of the MAC filter script (`mac_filter.sh`) on the bytes of its
file, for any argument.

The argument is put into the pattern of `grep` and into the script of `sed` as it is, so both
programs are parameters: how they read a regular expression, and what `sed` does with a script
that is not an address and `d`. `apply_rules` only reads the file.
-/

namespace FirewallCore.Bmc.MacFilter

open FirewallCore.Lib

/-! ### The programs -/

/-- `grep` and `sed`. A regular expression is refused, or it is the lines that it matches. -/
structure Tools where
  grepRegex : List UInt8 → Option (List UInt8 → Bool)
  sedRegex : List UInt8 → Option (List UInt8 → Bool)
  /-- `sed -i` with any other script. -/
  sedOther : List UInt8 → List UInt8 → List UInt8

/-- Whether `grep` selects a line: a pattern with line breaks is a list of patterns. -/
def Tools.selects (t : Tools) (pattern line : List UInt8) : Bool :=
  match (textLines pattern).mapM t.grepRegex with
  | none => false
  | some found => found.any (· line)

/-- `grep -q`. -/
def Tools.grep (t : Tools) (pattern text : List UInt8) : Bool :=
  (textLines text).any (t.selects pattern)

/-- `sed -i` with the pattern as an address, and `d`. A slash ends the address, and a line break
the command. -/
def Tools.sedDelete (t : Tools) (pattern text : List UInt8) : List UInt8 :=
  if 47 ∈ pattern ∨ 10 ∈ pattern then t.sedOther (47 :: pattern ++ utf8 "/d") text
  else
    match t.sedRegex pattern with
    | none => text
    | some drops => keepLines (fun line => !drops line) text

/-! ### The script -/

/-- `maclist=$mac`. -/
def entry (mac : List UInt8) : List UInt8 := utf8 "maclist=" ++ mac

/-- `^maclist=$mac$`. -/
def entryPattern (mac : List UInt8) : List UInt8 := utf8 "^maclist=" ++ mac ++ utf8 "$"

/-- `add_mac`, up to `apply_rules`; it returns 1 where there is no text. -/
def addMac (t : Tools) (text mac : List UInt8) : Option (List UInt8) :=
  if t.grep (entryPattern mac) text then none else some (text ++ (entry mac ++ [10]))

/-- `delete_mac`, up to `apply_rules`. -/
def deleteMac (t : Tools) (text mac : List UInt8) : Option (List UInt8) :=
  if t.grep (entryPattern mac) text then some (t.sedDelete (entryPattern mac) text) else none

/-- What the script prints, with the status -1 or 0. -/
abbrev Message := Except (List UInt8) (List UInt8)

/-- `mac_filter.sh add`: the file after it and the message. -/
def add (t : Tools) (text mac : List UInt8) : List UInt8 × Message :=
  if mac = [] then (text, .error (utf8 "Missing MAC address"))
  else
    match addMac t text mac with
    | some text' => (text', .ok (utf8 "MAC " ++ mac ++ utf8 " added"))
    | none => (text, .error (utf8 "MAC " ++ mac ++ utf8 " already exists"))

/-- `mac_filter.sh delete`. -/
def delete (t : Tools) (text mac : List UInt8) : List UInt8 × Message :=
  if mac = [] then (text, .error (utf8 "Missing MAC address"))
  else
    match deleteMac t text mac with
    | some text' => (text', .ok (utf8 "MAC " ++ mac ++ utf8 " removed"))
    | none => (text, .error (utf8 "MAC " ++ mac ++ utf8 " not found"))

/-! ### Exactness -/

/-- `add` fails exactly if the entry is there, and appends it otherwise. -/
structure AddExact (t : Tools) (text mac : List UInt8) : Prop where
  fails : entry mac ∈ textLines text → ∃ message, add t text mac = (text, .error message)
  appends : entry mac ∉ textLines text → ∃ text' message,
    add t text mac = (text', .ok message) ∧ textLines text' = textLines text ++ [entry mac]

/-- `delete` fails exactly if the entry is not there, and removes it everywhere otherwise. -/
structure DeleteExact (t : Tools) (text mac : List UInt8) : Prop where
  fails : entry mac ∉ textLines text → ∃ message, delete t text mac = (text, .error message)
  removes : entry mac ∈ textLines text → ∃ text' message,
    delete t text mac = (text', .ok message) ∧
      textLines text' = (textLines text).filter (· ≠ entry mac)

/-- The argument stands for itself in the file. -/
structure Literal (t : Tools) (text mac : List UInt8) : Prop where
  /-- No line is taken for an entry that is not there, -/
  apart : entry mac ∉ textLines text →
    ∀ line ∈ textLines text, t.selects (entryPattern mac) line = false
  /-- and one that is there is found. -/
  found : entry mac ∈ textLines text →
    ∃ line ∈ textLines text, t.selects (entryPattern mac) line = true
  /-- A new entry becomes a line of its own. -/
  room : entry mac ∉ textLines text → Terminated text ∧ 10 ∉ mac
  /-- Without a slash, the address is for the lines of the entry, -/
  address : entry mac ∈ textLines text → 47 ∉ mac → ∃ drops,
    t.sedRegex (entryPattern mac) = some drops ∧
      ∀ line ∈ textLines text, drops line = true ↔ line = entry mac
  /-- and with one, the commands that it ends in leave the other lines. -/
  commands : entry mac ∈ textLines text → 47 ∈ mac →
    textLines (t.sedOther (47 :: entryPattern mac ++ utf8 "/d") text) =
      (textLines text).filter (· ≠ entry mac)

section Exact

variable {t : Tools} {text mac : List UInt8}

theorem entry_single_iff : 10 ∉ entry mac ↔ 10 ∉ mac := by
  have tag : (10 : UInt8) ∉ utf8 "maclist=" := by decide
  simp [entry, tag]

theorem mem_entryPattern_iff {b : UInt8} (plain : b ∉ utf8 "^maclist=" ∧ b ∉ utf8 "$") :
    b ∈ entryPattern mac ↔ b ∈ mac := by
  simp [entryPattern, plain]

theorem grep_iff {pattern : List UInt8} :
    t.grep pattern text = true ↔ ∃ line ∈ textLines text, t.selects pattern line = true :=
  List.any_eq_true

theorem not_grep_iff {pattern : List UInt8} :
    t.grep pattern text = false ↔ ∀ line ∈ textLines text, t.selects pattern line = false := by
  simp [Tools.grep]

/-- The lines of the file with the new entry. -/
theorem textLines_appended_iff :
    textLines (text ++ (entry mac ++ [10])) = textLines text ++ [entry mac] ↔
      Terminated text ∧ 10 ∉ mac := by
  constructor
  · intro appended
    have last : entry mac ∈ textLines (text ++ (entry mac ++ [10])) := by
      rw [appended]
      exact List.mem_append_right _ List.mem_cons_self
    have single : 10 ∉ entry mac := no_break_of_mem_textLines last
    refine ⟨?_, entry_single_iff.mp single⟩
    by_contra unended
    have ended : Terminated (text ++ (entry mac ++ [10])) := by
      right
      rw [← List.append_assoc, List.getLast?_concat]
    have sizes := congrArg List.length appended
    rw [length_textLines, if_pos ended, List.length_append, length_textLines, if_neg unended,
      List.count_append, List.count_append, List.count_eq_zero_of_not_mem single] at sizes
    simp at sizes
  · rintro ⟨ended, single⟩
    rw [textLines_append_terminated ended, textLines_append (entry_single_iff.mpr single)]
    rfl

theorem add_of_grep (nonempty : mac ≠ []) (found : t.grep (entryPattern mac) text = true) :
    ∃ message, add t text mac = (text, .error message) := by
  rw [add, if_neg nonempty, addMac, if_pos found]
  exact ⟨_, rfl⟩

theorem add_of_not_grep (nonempty : mac ≠ []) (missed : t.grep (entryPattern mac) text = false) :
    ∃ message, add t text mac = (text ++ (entry mac ++ [10]), .ok message) := by
  rw [add, if_neg nonempty, addMac, missed, if_neg Bool.false_ne_true]
  exact ⟨_, rfl⟩

theorem delete_of_grep (nonempty : mac ≠ []) (found : t.grep (entryPattern mac) text = true) :
    ∃ message, delete t text mac = (t.sedDelete (entryPattern mac) text, .ok message) := by
  rw [delete, if_neg nonempty, deleteMac, if_pos found]
  exact ⟨_, rfl⟩

theorem delete_of_not_grep (nonempty : mac ≠ []) (missed : t.grep (entryPattern mac) text = false) :
    ∃ message, delete t text mac = (text, .error message) := by
  rw [delete, if_neg nonempty, deleteMac, missed, if_neg Bool.false_ne_true]
  exact ⟨_, rfl⟩

/-- What `sed` leaves is what is asked for, if its address is read as the entry. -/
theorem textLines_sedDelete_iff (there : entry mac ∈ textLines text) (plain : 47 ∉ mac) :
    textLines (t.sedDelete (entryPattern mac) text) = (textLines text).filter (· ≠ entry mac) ↔
      ∃ drops, t.sedRegex (entryPattern mac) = some drops ∧
        ∀ line ∈ textLines text, drops line = true ↔ line = entry mac := by
  have single : 10 ∉ mac := entry_single_iff.mp (no_break_of_mem_textLines there)
  have slash : (47 : UInt8) ∉ entryPattern mac := by
    rwa [mem_entryPattern_iff (by decide)]
  have break' : (10 : UInt8) ∉ entryPattern mac := by
    rwa [mem_entryPattern_iff (by decide)]
  have address : ¬(47 ∈ entryPattern mac ∨ 10 ∈ entryPattern mac) := not_or.mpr ⟨slash, break'⟩
  rw [Tools.sedDelete, if_neg address]
  cases read : t.sedRegex (entryPattern mac) with
  | none =>
    constructor
    · intro same
      dsimp only at same
      rw [same] at there
      simp at there
    · rintro ⟨drops, ⟨⟩, -⟩
  | some drops =>
    dsimp only
    rw [textLines_keepLines]
    constructor
    · intro same
      refine ⟨drops, rfl, ?_⟩
      intro line mem
      have kept : line ∈ (textLines text).filter (fun line => !drops line) ↔
          line ∈ (textLines text).filter (· ≠ entry mac) := by rw [same]
      simp only [List.mem_filter, mem, true_and, Bool.not_eq_true', decide_eq_true_eq] at kept
      rw [← not_iff_not, Bool.not_eq_true]
      exact kept
    · rintro ⟨drops', ⟨⟩, reads⟩
      apply List.filter_congr
      intro line mem
      rw [Bool.eq_iff_iff, Bool.not_eq_true', decide_eq_true_eq, ne_eq, ← reads line mem,
        Bool.not_eq_true]

/-- The same for an argument with a slash, whose script is not an address and `d`. -/
theorem sedDelete_of_slash (slash : 47 ∈ mac) :
    t.sedDelete (entryPattern mac) text =
      t.sedOther (47 :: entryPattern mac ++ utf8 "/d") text := by
  rw [Tools.sedDelete, if_pos (.inl ((mem_entryPattern_iff (by decide)).mpr slash))]

theorem addExact_iff (nonempty : mac ≠ []) :
    AddExact t text mac ↔
      (t.grep (entryPattern mac) text = true ↔ entry mac ∈ textLines text) ∧
        (entry mac ∉ textLines text → Terminated text ∧ 10 ∉ mac) := by
  cases read : t.grep (entryPattern mac) text with
  | true =>
    obtain ⟨message, failed⟩ := add_of_grep nonempty read
    simp only [true_iff]
    constructor
    · intro exact'
      have there : entry mac ∈ textLines text := by
        by_contra missing
        obtain ⟨text', message', appended, -⟩ := exact'.appends missing
        rw [failed] at appended
        cases appended
      exact ⟨there, fun missing => absurd there missing⟩
    · rintro ⟨there, -⟩
      exact ⟨fun _ => ⟨message, failed⟩, fun missing => absurd there missing⟩
  | false =>
    obtain ⟨message, done⟩ := add_of_not_grep nonempty read
    simp only [Bool.false_eq_true, false_iff]
    constructor
    · intro exact'
      have missing : entry mac ∉ textLines text := by
        intro there
        obtain ⟨message', failed⟩ := exact'.fails there
        rw [done] at failed
        cases (Prod.mk.inj failed).2
      obtain ⟨text', message', appended, lines⟩ := exact'.appends missing
      rw [done] at appended
      rw [← (Prod.mk.inj appended).1] at lines
      exact ⟨missing, fun _ => textLines_appended_iff.mp lines⟩
    · rintro ⟨missing, room⟩
      refine ⟨fun there => absurd there missing, fun _ => ⟨_, message, done, ?_⟩⟩
      exact textLines_appended_iff.mpr (room missing)

theorem deleteExact_iff (nonempty : mac ≠ []) :
    DeleteExact t text mac ↔
      (t.grep (entryPattern mac) text = true ↔ entry mac ∈ textLines text) ∧
        (entry mac ∈ textLines text → textLines (t.sedDelete (entryPattern mac) text) =
          (textLines text).filter (· ≠ entry mac)) := by
  cases read : t.grep (entryPattern mac) text with
  | true =>
    obtain ⟨message, done⟩ := delete_of_grep nonempty read
    simp only [true_iff]
    constructor
    · intro exact'
      have there : entry mac ∈ textLines text := by
        by_contra missing
        obtain ⟨message', failed⟩ := exact'.fails missing
        rw [done] at failed
        cases (Prod.mk.inj failed).2
      obtain ⟨text', message', removed, lines⟩ := exact'.removes there
      rw [done] at removed
      rw [← (Prod.mk.inj removed).1] at lines
      exact ⟨there, fun _ => lines⟩
    · rintro ⟨there, removed⟩
      exact ⟨fun missing => absurd there missing, fun _ => ⟨_, message, done, removed there⟩⟩
  | false =>
    obtain ⟨message, failed⟩ := delete_of_not_grep nonempty read
    simp only [Bool.false_eq_true, false_iff]
    constructor
    · intro exact'
      have missing : entry mac ∉ textLines text := by
        intro there
        obtain ⟨text', message', removed, -⟩ := exact'.removes there
        rw [failed] at removed
        cases removed
      exact ⟨missing, fun there => absurd there missing⟩
    · rintro ⟨missing, -⟩
      exact ⟨fun _ => ⟨message, failed⟩, fun there => absurd there missing⟩

theorem literal_of_exact (nonempty : mac ≠ []) (added : AddExact t text mac)
    (deleted : DeleteExact t text mac) : Literal t text mac := by
  obtain ⟨grep, room⟩ := (addExact_iff nonempty).mp added
  obtain ⟨-, removed⟩ := (deleteExact_iff nonempty).mp deleted
  constructor
  case apart =>
    intro missing
    rw [← not_grep_iff, ← Bool.not_eq_true]
    exact fun read => missing (grep.mp read)
  case found => exact fun there => grep_iff.mp (grep.mpr there)
  case room => exact room
  case address =>
    intro there plain
    exact (textLines_sedDelete_iff there plain).mp (removed there)
  case commands =>
    intro there slash
    rw [← sedDelete_of_slash slash]
    exact removed there

theorem Literal.exact (literal : Literal t text mac) (nonempty : mac ≠ []) :
    AddExact t text mac ∧ DeleteExact t text mac := by
  have grep : t.grep (entryPattern mac) text = true ↔ entry mac ∈ textLines text := by
    constructor
    · intro read
      by_contra missing
      rw [not_grep_iff.mpr (literal.apart missing)] at read
      cases read
    · exact fun there => grep_iff.mpr (literal.found there)
  refine ⟨(addExact_iff nonempty).mpr ⟨grep, literal.room⟩,
    (deleteExact_iff nonempty).mpr ⟨grep, ?_⟩⟩
  intro there
  by_cases slash : 47 ∈ mac
  · rw [sedDelete_of_slash slash]
    exact literal.commands there slash
  · exact (textLines_sedDelete_iff there slash).mpr (literal.address there slash)

end Exact

/-- Both commands are exact for a file and an argument if and only if the argument stands for
itself there. -/
theorem edits_exact_iff (t : Tools) (text mac : List UInt8) (nonempty : mac ≠ []) :
    AddExact t text mac ∧ DeleteExact t text mac ↔ Literal t text mac := by
  constructor
  · rintro ⟨added, deleted⟩
    exact literal_of_exact nonempty added deleted
  · exact fun literal => literal.exact nonempty

/-! ### Plain arguments -/

/-- A text whose bytes stand for themselves in a basic regular expression and in a script. -/
def Plain (text : List UInt8) : Prop := ∀ b ∈ text, b ∉ utf8 ".[*\\^$/" ∧ b ≠ 10

/-- What is relied on: a plain text between anchors matches that line only. -/
structure Tools.Documented (t : Tools) : Prop where
  grep : ∀ text, Plain text → ∃ selects, t.grepRegex (94 :: text ++ [36]) = some selects ∧
    ∀ line, selects line = true ↔ line = text
  sed : ∀ text, Plain text → ∃ drops, t.sedRegex (94 :: text ++ [36]) = some drops ∧
    ∀ line, drops line = true ↔ line = text

/-- The lines of the file that `MacFilter.step` keeps. -/
def Key.text : Key → String
  | .mode => "mode"
  | .status => "status"
  | .maclist => "maclist"

def ConfLine.text (line : ConfLine) : List UInt8 := utf8 line.key.text ++ 61 :: utf8 line.value

def confText (conf : List ConfLine) : List UInt8 := unlines (conf.map ConfLine.text)

section Plain

variable {t : Tools} {text mac : List UInt8}

theorem Plain.entry (plain : Plain mac) : Plain (entry mac) := by
  intro b mem
  rcases List.mem_append.mp mem with tag | own
  · have letters : ((utf8 "maclist=").all fun b =>
        !(utf8 ".[*\\^$/").contains b && b != 10) = true := by
      decide
    simpa using List.all_eq_true.mp letters b tag
  · exact plain b own

theorem selects_iff (documented : t.Documented) (plain : Plain mac) (line : List UInt8) :
    t.selects (entryPattern mac) line = true ↔ line = entry mac := by
  have single : 10 ∉ entryPattern mac := by
    rw [mem_entryPattern_iff (by decide)]
    exact fun mem => (plain 10 mem).2 rfl
  obtain ⟨selects, read, reads⟩ := documented.grep (entry mac) plain.entry
  have read' : t.grepRegex (entryPattern mac) = some selects := read
  have nonempty : entryPattern mac ≠ [] := List.cons_ne_nil _ _
  rw [Tools.selects, textLines_single single nonempty]
  simp [read', reads]

/-- A plain argument stands for itself in every file that ends with a line break. -/
theorem literal_of_plain (documented : t.Documented) (plain : Plain mac) (ended : Terminated text) :
    Literal t text mac := by
  constructor
  case apart =>
    intro missing line mem
    rw [← Bool.not_eq_true, selects_iff documented plain]
    rintro rfl
    exact missing mem
  case found => exact fun there => ⟨_, there, (selects_iff documented plain _).mpr rfl⟩
  case room => exact fun _ => ⟨ended, fun mem => (plain 10 mem).2 rfl⟩
  case address =>
    intro _ _
    obtain ⟨drops, read, reads⟩ := documented.sed (entry mac) plain.entry
    exact ⟨drops, read, fun line _ => reads line⟩
  case commands =>
    intro _ slash
    exact absurd (show (47 : UInt8) ∈ utf8 ".[*\\^$/" by decide) (plain 47 slash).1

theorem mem_utf8_of_ascii {s : String} (ascii : ∀ c ∈ s.toList, c.toNat < 128) {b : UInt8}
    (mem : b ∈ utf8 s) : ∃ c ∈ s.toList, b = UInt8.ofNat c.toNat := by
  have bytes : utf8 s = s.toList.flatMap String.utf8EncodeChar := by
    conv_lhs => rw [← String.ofList_toList (s := s)]
    exact List.toList_data_toByteArray
  rw [bytes, List.mem_flatMap] at mem
  obtain ⟨c, listed, mem⟩ := mem
  rw [utf8EncodeChar_ascii (ascii c listed), List.mem_singleton] at mem
  exact ⟨c, listed, mem⟩

theorem MAC.char_bounds (mac : MAC) {c : Char} (mem : c ∈ mac.text.toList) :
    48 ≤ c.toNat ∧ c.toNat ≤ 58 ∨ 65 ≤ c.toNat ∧ c.toNat ≤ 70 ∨ 97 ≤ c.toNat ∧ c.toNat ≤ 102 := by
  have valid := mac.valid
  simp only [isMAC, Bool.and_eq_true, List.all_eq_true] at valid
  obtain ⟨i, small, here⟩ := List.getElem_of_mem mem
  have checked := valid.2 (c, i) (by
    rw [List.mem_zipIdx_iff_getElem?]
    rw [List.getElem?_eq_getElem small, here])
  dsimp only at checked
  split at checked
  · left
    rw [eq_of_beq checked]
    decide
  · unfold hexVal at checked
    split at checked
    · rename_i range
      exact .inl ⟨range.1, Nat.le_trans range.2 (by decide)⟩
    · split at checked
      · rename_i range
        exact .inr (.inr range)
      · split at checked
        · rename_i range
          exact .inr (.inl range)
        · cases checked

theorem MAC.plain (mac : MAC) : Plain (utf8 mac.text) := by
  have ascii : ∀ c ∈ mac.text.toList, c.toNat < 128 := by
    intro c mem
    have bounds := mac.char_bounds mem
    omega
  intro b mem
  obtain ⟨c, listed, rfl⟩ := mem_utf8_of_ascii ascii mem
  have bounds := mac.char_bounds listed
  have value : (UInt8.ofNat c.toNat).toNat = c.toNat :=
    UInt8.toNat_ofNat_of_lt' (Nat.lt_trans (ascii c listed) (by decide))
  constructor
  · intro special
    have codes : (UInt8.ofNat c.toNat).toNat ∈ (utf8 ".[*\\^$/").map UInt8.toNat :=
      List.mem_map_of_mem special
    rw [value] at codes
    have listing : (utf8 ".[*\\^$/").map UInt8.toNat = [46, 91, 42, 92, 94, 36, 47] := by decide
    simp only [listing, List.mem_cons, List.not_mem_nil, or_false] at codes
    omega
  · intro break'
    rw [break'] at value
    change 10 = c.toNat at value
    omega

theorem ConfLine.text_inj {line line' : ConfLine} (same : line.text = line'.text) :
    line = line' := by
  obtain ⟨key, value⟩ := line
  obtain ⟨key', value'⟩ := line'
  have keys : key = key' := by
    have second := congrArg (·[1]?) same
    cases key <;> cases key' <;> first | rfl | cases second
  cases keys
  have values : value = value' := utf8_inj (List.cons.inj (List.append_cancel_left same)).2
  rw [values]

theorem entry_eq_text (value : String) :
    entry (utf8 value) = (ConfLine.mk .maclist value).text := rfl

/-- Tools that know plain texts between anchors. -/
def plainTools : Tools :=
  let regex pattern := some fun line => 94 :: line ++ [36] == pattern
  ⟨regex, regex, fun _ text => text⟩

end Plain

/-! ### Samples -/

/-- An engine for expressions with anchors at both ends, in which only the period is special. -/
def periodRegex (pattern : List UInt8) : Option (List UInt8 → Bool) :=
  some fun line => line.length + 2 == pattern.length &&
    (line.zip pattern.tail).all fun (b, p) => p == 46 || p == b

def periodTools : Tools := ⟨periodRegex, periodRegex, fun _ text => text⟩

/-- A file with a mode and two entries. -/
def sampleText : List UInt8 :=
  utf8 "mode=whitelist\nmaclist=02:00:00:00:00:01\nmaclist=02:00:00:00:00:02\n"

/-- An entry is found and can be deleted. -/
theorem edits_exact_sample : AddExact periodTools sampleText (utf8 "02:00:00:00:00:02") ∧
    DeleteExact periodTools sampleText (utf8 "02:00:00:00:00:02") := by
  apply (edits_exact_iff periodTools sampleText (utf8 "02:00:00:00:00:02") (by decide)).mpr
  constructor
  case apart => exact fun missing => absurd (by decide) missing
  case found => exact fun _ => ⟨utf8 "maclist=02:00:00:00:00:02", by decide, by decide⟩
  case room => exact fun missing => absurd (by decide) missing
  case address => exact fun _ _ => ⟨_, rfl, by decide⟩
  case commands => exact fun _ slash => absurd slash (by decide)

/-- A period in the argument stands for any byte: nothing is on the list under that name, and all
of the list is deleted. -/
theorem edits_not_exact :
    entry (utf8 "02:00:00:00:00:0.") ∉ textLines sampleText ∧
      ¬(AddExact periodTools sampleText (utf8 "02:00:00:00:00:0.") ∧
        DeleteExact periodTools sampleText (utf8 "02:00:00:00:00:0.")) ∧
      (delete periodTools sampleText (utf8 "02:00:00:00:00:0.")).1 = utf8 "mode=whitelist\n" := by
  refine ⟨by decide, ?_, by decide⟩
  rintro ⟨-, deleted⟩
  obtain ⟨message, failed⟩ := deleted.fails (by decide)
  have changed : (delete periodTools sampleText (utf8 "02:00:00:00:00:0.")).1 ≠ sampleText := by
    decide
  exact changed (congrArg Prod.fst failed)

end FirewallCore.Bmc.MacFilter
