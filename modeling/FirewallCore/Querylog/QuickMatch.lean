import FirewallCore.Querylog.Entry
import FirewallCore.Querylog.RoundTrip
import FirewallCore.Querylog.Search

/-!
Matching the lines of the query log without decoding them (`quickMatch` of
`searchcriterion.go` and `searchparams.go`), against matching the decoded entries.

A quick match takes the values of three keys as they are written. They differ
from the decoded ones where the encoder writes an escape, for an entry without an
address, and for one without a ClientID whose rewrite has a parameter of that
name. Elsewhere both see the same values, and in every other case there is a
search that finds the entry only when it is decoded.

The tables of Unicode are a parameter: `fold` gives the same character for those
that `unicode.SimpleFold` takes into each other. `stringutil.ContainsFold` and the
client finder are parameters too. Strings are compared by their characters.
-/

namespace FirewallCore.Querylog.File

open FirewallCore.Lib FirewallCore.Net
open FirewallCore.Lib.Json (escape escapeRune quote pattern behind firstText firstTextItems
  firstTextMembers textAt Found Plain)
open FirewallCore.Querylog.Search (Env SearchCriterion ctTerm ctFilteringStatusCase Reason)

/-- What a search asks of other parts, with `strings.EqualFold` over the folding. -/
def searchEnv (fold : Char → Char) (containsFold : String → String → Bool)
    (findClient : String → String → Option Search.Client) : Env where
  findClient := findClient
  ignored := fun _ => false
  equalFold := fun s t => s.toList.map fold = t.toList.map fold
  containsFold := containsFold

/-- `searchParams`, as far as a match reads it. -/
structure SearchParams where
  olderThan : Option Time
  searchCriteria : List SearchCriterion

/-- `Before`. -/
def Time.before (t u : Time) : Bool := t.secs < u.secs || t.secs = u.secs && t.nanos < u.nanos

/-- The reason with a number; other numbers are in none of the groups that are searched for. -/
def reasonOf (n : Int64) : Reason :=
  ([.notFilteredNotFound, .notFilteredAllowList, .notFilteredError, .filteredBlockList,
    .filteredSafeBrowsing, .filteredParental, .filteredInvalid, .filteredSafeSearch,
    .filteredBlockedService, .rewritten, .rewrittenAutoHosts,
    .rewrittenRule][n.toInt.toNat]?).getD .notFilteredNotFound

section Matching

variable (env : Env)

/-- `searchCriterion.quickMatch`. -/
def quickMatch (c : SearchCriterion) (line : GoString) : Bool :=
  match c.criterionType with
  | .term =>
    let host := readJSONValue line (utf8 "\"QH\":\"")
    let ip := readJSONValue line (utf8 "\"IP\":\"")
    let clientID := readJSONValue line (utf8 "\"CID\":\"")
    ctTerm env c (coerce clientID) (coerce host) (coerce ip)
  | .filteringStatus => true

/-- `searchCriterion.match`. -/
def matchEntry (c : SearchCriterion) (entry : LogEntry) : Bool :=
  match c.criterionType with
  | .term => ctTerm env c (coerce entry.clientID) (coerce entry.qHost) entry.ip.string
  | .filteringStatus =>
    ctFilteringStatusCase c.value (reasonOf entry.result.reason) entry.result.isFiltered

namespace SearchParams

/-- `searchParams.quickMatch`. -/
def quickMatch (s : SearchParams) (line : GoString) : Bool :=
  s.searchCriteria.all (File.quickMatch env · line)

/-- `searchParams.match`. -/
def matchEntry (s : SearchParams) (entry : LogEntry) : Bool :=
  (s.olderThan.all fun olderThan => entry.time.before olderThan) &&
    s.searchCriteria.all (File.matchEntry env · entry)

end SearchParams

end Matching

/-! ### Runes that the encoder escapes -/

/-- The encoder does not write the rune as it is. -/
def isEscaped : Rune → Bool
  | .stray _ => true
  | .char c => (Json.shortEscapes.lookup c).isSome || Json.hasLongEscape c

/-- A string as it stands in a line, up to the next quote. -/
def raw (s : GoString) : GoString := (escape s).takeWhile (· ≠ 34)

/-- The same for runes. -/
def rawRunes (rs : List Rune) : GoString := (rs.flatMap escapeRune).takeWhile (· ≠ 34)

theorem rawRunes_runes (s : GoString) : rawRunes (runes s) = raw s := rfl

theorem escapeRune_plain {r : Rune} (plain : isEscaped r = false) :
    ∃ c, r = .char c ∧ escapeRune r = String.utf8EncodeChar c ∧ 34 ∉ String.utf8EncodeChar c := by
  cases r with
  | stray b => cases plain
  | char c =>
    simp only [isEscaped, Bool.or_eq_false_iff, Option.isSome_eq_false_iff,
      Option.isNone_iff_eq_none] at plain
    refine ⟨c, rfl, by simp [escapeRune, plain], fun member => ?_⟩
    exact (Json.plain_bytes plain.1 plain.2 34 member).1 rfl

/-- An escape begins with a backslash. -/
theorem escapeRune_escaped {r : Rune} (escaped : isEscaped r = true) :
    ∃ rest, escapeRune r = 92 :: rest := by
  cases r with
  | stray b => exact ⟨_, rfl⟩
  | char c =>
    cases short : Json.shortEscapes.lookup c with
    | some b => exact ⟨[b], by simp only [escapeRune, short]⟩
    | none =>
      simp only [isEscaped, short, Option.isSome_none, Bool.false_or] at escaped
      exact ⟨117 :: Json.hex4 c.toNat, by simp only [escapeRune, short, escaped, if_true]⟩

theorem rawRunes_plain {r : Rune} {c : Char} {rs : List Rune}
    (eq : escapeRune r = String.utf8EncodeChar c)
    (quote : 34 ∉ String.utf8EncodeChar c) :
    runes (rawRunes (r :: rs)) = .char c :: runes (rawRunes rs) := by
  have pass : ∀ b ∈ String.utf8EncodeChar c, decide (b ≠ 34) = true := by
    intro b member
    apply decide_eq_true
    rintro rfl
    exact quote member
  rw [rawRunes, List.flatMap_cons, eq, List.takeWhile_append_of_pos pass, runes_char]
  rfl

theorem runes_backslash (s : GoString) : runes (92 :: s) = .char '\\' :: runes s :=
  runes_char '\\' s

theorem rawRunes_backslash (rs : List Rune) :
    runes (rawRunes (.char '\\' :: rs)) = .char '\\' :: .char '\\' :: runes (rawRunes rs) := by
  rw [← runes_backslash, ← runes_backslash]
  rfl

/-- A text without escapes stands in the line as it is. -/
theorem raw_plain {s : GoString} (plain : ∀ r ∈ runes s, isEscaped r = false) :
    coerce (raw s) = coerce s := by
  have same : ∀ rs : List Rune, (∀ r ∈ rs, isEscaped r = false) → runes (rawRunes rs) = rs := by
    intro rs
    induction rs with
    | nil => intro _; rfl
    | cons r rs ih =>
      intro plain
      obtain ⟨c, rfl, eq, quote⟩ := escapeRune_plain (plain r List.mem_cons_self)
      rw [rawRunes_plain eq quote, ih fun r member => plain r (List.mem_cons_of_mem _ member)]
  rw [coerce, ← rawRunes_runes, same _ plain, ← coerce]

section Folding

variable {fold : Char → Char}

/-- The runes are equal under the folding. -/
def Folded (fold : Char → Char) (rs ts : List Rune) : Prop :=
  rs.map (fun r => fold r.value) = ts.map fun r => fold r.value

/-- Only a backslash can stand for one. -/
theorem eq_backslash (alone : ∀ c, fold '\\' = fold c → c = '\\') {r : Rune}
    (same : fold '\\' = fold r.value) : r = .char '\\' := by
  have value := alone _ same
  cases r with
  | char c => rw [show c = '\\' from value]
  | stray b => exact absurd value (show '\uFFFD' ≠ '\\' by decide)

/-- Behind more backslashes, the written form is another text. -/
theorem not_folded_backslashes (alone : ∀ c, fold '\\' = fold c → c = '\\') (rs : List Rune)
    (k : Nat) : ¬Folded fold (List.replicate (k + 1) (.char '\\') ++ runes (rawRunes rs)) rs := by
  induction rs generalizing k with
  | nil =>
    intro same
    exact absurd (congrArg List.length same) (by simp)
  | cons r rs ih =>
    intro same
    rw [List.replicate_succ, List.cons_append, Folded, List.map_cons, List.map_cons,
      List.cons.injEq] at same
    obtain rfl := eq_backslash alone same.1
    apply ih (k + 1)
    have shift : List.replicate k (Rune.char '\\') ++ runes (rawRunes (.char '\\' :: rs)) =
        List.replicate (k + 1 + 1) (.char '\\') ++ runes (rawRunes rs) := by
      rw [rawRunes_backslash, List.replicate_succ', List.replicate_succ']
      simp
    rw [shift] at same
    exact same.2

/-- The written form of a text with an escape is another text. -/
theorem plain_of_folded (alone : ∀ c, fold '\\' = fold c → c = '\\') {rs : List Rune}
    (same : Folded fold (runes (rawRunes rs)) rs) : ∀ r ∈ rs, isEscaped r = false := by
  induction rs with
  | nil => simp
  | cons r rs ih =>
    cases escaped : isEscaped r with
    | true =>
      obtain ⟨rest, eq⟩ := escapeRune_escaped escaped
      have head : ∃ later, runes (rawRunes (r :: rs)) = .char '\\' :: later := by
        refine ⟨runes ((rest ++ rs.flatMap escapeRune).takeWhile (· ≠ 34)), ?_⟩
        rw [rawRunes, List.flatMap_cons, eq, ← runes_backslash]
        rfl
      obtain ⟨later, head⟩ := head
      rw [Folded, head, List.map_cons, List.map_cons, List.cons.injEq] at same
      obtain rfl := eq_backslash alone same.1
      rw [rawRunes_backslash, List.cons.injEq] at head
      rw [← head.2] at same
      exact absurd same.2 (not_folded_backslashes alone rs 0)
    | false =>
      obtain ⟨c, rfl, eq, quote⟩ := escapeRune_plain escaped
      rw [rawRunes_plain eq quote, Folded, List.map_cons, List.map_cons,
        List.cons.injEq] at same
      intro r member
      rcases List.mem_cons.mp member with rfl | later
      · exact escaped
      · exact ih same.2 r later

end Folding

/-! ### The values in a line -/

theorem indexOf_quote (text more : GoString) :
    ∃ j, indexOf [34] (text ++ 34 :: more) = some j ∧
      (text ++ 34 :: more).take j = text.takeWhile (· ≠ 34) := by
  induction text with
  | nil => exact ⟨0, rfl, rfl⟩
  | cons b text ih =>
    rw [List.cons_append, indexOf]
    by_cases quote : b = 34
    · exact ⟨0, if_pos (by simp [quote]), by simp [quote]⟩
    · obtain ⟨j, found, value⟩ := ih
      refine ⟨j + 1, ?_, ?_⟩
      · rw [if_neg (by simpa using Ne.symm quote), found]
        rfl
      · rw [List.take_succ_cons, value, List.takeWhile_cons_of_pos (by simpa using quote)]

/-- A value as `readJSONValue` finds it. -/
theorem readJSONValue_render {name : GoString} (plain : Plain name) (j : Json) :
    readJSONValue j.render (pattern name) = ((firstText name j).map raw).getD [] := by
  have closed : Json.Closed [] := by
    intro b head
    cases head
  have found := Json.found_render plain j closed
  unfold Found at found
  rw [List.append_nil] at found
  unfold readJSONValue
  cases first : firstText name j with
  | none =>
    rw [first] at found
    have none : indexOf (pattern name) j.render = none := by
      simpa [behind, indexOf] using found
    rw [none]
    rfl
  | some s =>
    rw [first] at found
    obtain ⟨more, found⟩ := found
    obtain ⟨i, index, tail⟩ := Option.map_eq_some_iff.mp found
    obtain ⟨k, quote, value⟩ := indexOf_quote (escape s) more
    rw [index]
    dsimp only
    rw [tail, quote]
    exact value

theorem firstTextMembers_append (name : GoString) (members more : Members) :
    firstTextMembers name (members ++ more) =
      (firstTextMembers name members).or (firstTextMembers name more) := by
  induction members with
  | nil => simp [firstTextMembers]
  | cons member members ih =>
    obtain ⟨key, j⟩ := member
    rw [List.cons_append, firstTextMembers, firstTextMembers, ih, Option.or_assoc,
      Option.or_assoc]

section Fields

variable {name : GoString} {key : String}

/-- The member is not taken for the one that is looked for. -/
def Other (name : GoString) (key : String) : Prop := ¬34 :: name <:+ 34 :: escape (utf8 key)

instance (name : GoString) (key : String) : Decidable (Other name key) :=
  inferInstanceAs (Decidable ¬_)

theorem firstText_field {value : Json} (other : Other name key) :
    firstTextMembers name (field key value) = firstText name value := by
  have text : textAt name (utf8 key) value = none := by
    unfold textAt
    split
    · exact if_neg other
    · rfl
  rw [field, firstTextMembers, text, firstTextMembers, Option.none_or, Option.or_none]

theorem firstText_omit {empty : Bool} {value : Json} (other : Other name key)
    (nothing : firstText name value = none) :
    firstTextMembers name (omitEmpty empty key value) = none := by
  unfold omitEmpty
  split
  · rfl
  · rw [firstText_field other, nothing]

theorem firstText_str (other : Other name key) (s : GoString) :
    firstTextMembers name (field key (.str s)) = none :=
  firstText_field other

theorem firstText_num (other : Other name key) (n : Int) :
    firstTextMembers name (field key (.num n)) = none :=
  firstText_field other

theorem firstText_omitString (other : Other name key) (s : GoString) :
    firstTextMembers name (omitString key s) = none :=
  firstText_omit other rfl

theorem firstText_omitBytes (other : Other name key) (bytes : List UInt8) :
    firstTextMembers name (omitBytes key bytes) = none :=
  firstText_omit other rfl

theorem firstText_omitNumber (other : Other name key) (n : Int64) :
    firstTextMembers name (omitNumber key n) = none :=
  firstText_omit other rfl

theorem firstText_omitBool (other : Other name key) (b : Bool) :
    firstTextMembers name (omitBool key b) = none :=
  firstText_omit other rfl

theorem firstText_this {s : GoString} (this : ¬Other name key) :
    firstTextMembers name (field key (.str s)) = some s := by
  have text : textAt name (utf8 key) (.str s) = some s := if_pos (Decidable.not_not.mp this)
  rw [field, firstTextMembers, text, Option.some_or]

theorem firstTextItems_none {items : List Json} (nothing : ∀ j ∈ items, firstText name j = none) :
    firstTextItems name items = none := by
  induction items with
  | nil => rfl
  | cons j items ih =>
    rw [firstTextItems, nothing j List.mem_cons_self, Option.none_or]
    exact ih fun j member => nothing j (List.mem_cons_of_mem _ member)

end Fields

theorem plain_qh : Plain (utf8 "QH") := ⟨by decide +kernel, 81, rfl, by decide +kernel⟩

theorem plain_ip : Plain (utf8 "IP") := ⟨by decide +kernel, 73, rfl, by decide +kernel⟩

theorem plain_cid : Plain (utf8 "CID") := ⟨by decide +kernel, 67, rfl, by decide +kernel⟩

section Values

variable {e : LogEntry} {time ip : String}

theorem firstText_addr (name : GoString) (ip : Addr) : firstText name (addrJSON ip) = none := by
  cases ip <;> rfl

theorem firstText_qh : firstText (utf8 "QH") (.obj (e.members time ip)) = some e.qHost := by
  have this : firstTextMembers (utf8 "QH") (field "QH" (.str e.qHost)) = some e.qHost :=
    firstText_this (by decide)
  rw [firstText, LogEntry.members]
  simp (disch := decide) only [firstTextMembers_append, firstText_str, this, Option.none_or,
    Option.some_or]

theorem firstText_ip : firstText (utf8 "IP") (.obj (e.members time ip)) = some (utf8 ip) := by
  have this : firstTextMembers (utf8 "IP") (field "IP" (.str (utf8 ip))) = some (utf8 ip) :=
    firstText_this (by decide)
  rw [firstText, LogEntry.members]
  simp (disch := decide) only [firstTextMembers_append, firstText_str, firstText_omitString,
    firstText_omitBytes, this, Option.none_or, Option.some_or]

/-- What is found for the ClientID of an entry without one. -/
def rewriteCID (e : LogEntry) : Option GoString :=
  e.result.dnsRewriteResult.bind fun rewrite => firstText (utf8 "CID") rewrite.toJSON

theorem firstText_rule (rule : ResultRule) : firstText (utf8 "CID") rule.toJSON = none := by
  rw [ResultRule.toJSON, firstText]
  simp (disch := decide) only [firstTextMembers_append, firstText_omitString, firstText_field,
    firstText_addr, firstText_omitNumber, Option.none_or]

theorem firstText_result : firstText (utf8 "CID") e.result.toJSON = rewriteCID e := by
  have rewrite : firstTextMembers (utf8 "CID")
      (omitRewrite "DNSRewriteResult" e.result.dnsRewriteResult) = rewriteCID e := by
    unfold rewriteCID
    cases e.result.dnsRewriteResult with
    | none => rfl
    | some rewrite => exact firstText_field (by decide)
  have ips : firstTextMembers (utf8 "CID") (omitEmpty e.result.ipList.isEmpty "IPList"
      (.arr (e.result.ipList.map addrJSON))) = none := by
    apply firstText_omit (by decide)
    rw [firstText]
    apply firstTextItems_none
    intro j member
    obtain ⟨ip, -, rfl⟩ := List.mem_map.mp member
    exact firstText_addr _ ip
  have rules : firstTextMembers (utf8 "CID") (omitEmpty e.result.rules.isEmpty "Rules"
      (.arr (e.result.rules.map ResultRule.toJSON))) = none := by
    apply firstText_omit (by decide)
    rw [firstText]
    apply firstTextItems_none
    intro j member
    obtain ⟨rule, -, rfl⟩ := List.mem_map.mp member
    exact firstText_rule rule
  rw [Result.toJSON, firstText]
  simp (disch := decide) only [firstTextMembers_append, rewrite, ips, rules, firstText_omitString,
    firstText_omitNumber, firstText_omitBool, Option.or_none]

theorem firstText_cid : firstText (utf8 "CID") (.obj (e.members time ip)) =
    if e.clientID = [] then rewriteCID e else some e.clientID := by
  have this : firstTextMembers (utf8 "CID") (omitString "CID" e.clientID) =
      if e.clientID = [] then none else some e.clientID := by
    rw [omitString, omitEmpty]
    by_cases empty : e.clientID = []
    · rw [empty]
      rfl
    · rw [if_neg (by simpa using empty), if_neg empty]
      exact firstText_this (by decide)
  have result : firstTextMembers (utf8 "CID") (field "Result" e.result.toJSON) = rewriteCID e := by
    rw [firstText_field (by decide), firstText_result]
  rw [firstText, LogEntry.members]
  simp (disch := decide) only [firstTextMembers_append, firstText_str, firstText_omitString,
    firstText_omitBytes, firstText_num, firstText_omitBool, this, result, Option.none_or,
    Option.or_none]
  split <;> rfl

end Values

/-! ### What both matches see -/

/-- The ClientID that a quick match finds. -/
def quickCID (e : LogEntry) : GoString :=
  if e.clientID = [] then ((rewriteCID e).map raw).getD [] else raw e.clientID

/-- The characters that are escaped, besides control characters. -/
theorem escaped_cases {c : Char} (escaped : isEscaped (.char c) = true) :
    c.toNat < 32 ∨ c ∈ ['"', '\\', '<', '>', '&', '\u2028', '\u2029'] := by
  simp only [isEscaped, Bool.or_eq_true] at escaped
  rcases escaped with short | long
  · obtain ⟨b, found⟩ := Option.isSome_iff_exists.mp short
    have member := Json.mem_of_lookup found
    simp only [Json.shortEscapes, List.mem_cons, Prod.mk.injEq, List.not_mem_nil,
      or_false] at member
    rcases member with h | h | h | h | h | h | h <;> rw [h.1] <;> decide
  · rcases (Json.hasLongEscape_iff c).mp long with small | h | h | h | h | h
    · exact .inl small
    all_goals rw [h]; decide

/-- No character of an address is escaped. -/
theorem addrChar_plain {c : Char} (char : AddrChar c) : isEscaped (.char c) = false := by
  have control : ∀ n < 32,
      hexVal (Char.ofNat n) = none ∧ Char.ofNat n ≠ ':' ∧ Char.ofNat n ≠ '.' := by
    decide
  have special : ['"', '\\', '<', '>', '&', '\u2028', '\u2029'].all fun c =>
      hexVal c = none ∧ c ≠ ':' ∧ c ≠ '.' := by
    decide
  have notAddr : ∀ c, hexVal c = none ∧ c ≠ ':' ∧ c ≠ '.' → ¬AddrChar c := by
    rintro c ⟨hex, colon, period⟩ (h | h | h)
    · exact h hex
    · exact colon h
    · exact period h
  cases escaped : isEscaped (.char c) with
  | false => rfl
  | true =>
    rcases escaped_cases escaped with small | member
    · have other := control c.toNat small
      rw [Char.ofNat_toNat] at other
      exact absurd char (notAddr c other)
    · exact absurd char (notAddr c (of_decide_eq_true (List.all_eq_true.mp special c member)))

theorem string_plain {ip : IP} (slice : ∃ addr, addrFromSlice ip = some addr) :
    ∀ r ∈ runes (utf8 ip.string), isEscaped r = false := by
  have text : ∀ a : Addr, a.isValid = true → a = a.withoutZone →
      ∀ r ∈ runes (utf8 a.string), isEscaped r = false := by
    intro a valid noZone r member
    rw [runes_utf8, Addr.string, String.toList_ofList] at member
    obtain ⟨c, char, rfl⟩ := List.mem_map.mp member
    exact addrChar_plain (chars_addrChar valid noZone c char)
  obtain ⟨addr, slice⟩ := slice
  cases ip with
  | nil => cases slice
  | four n => exact text (.v4 n) rfl rfl
  | sixteen n =>
    rw [IP.string]
    split
    · exact text _ rfl rfl
    · exact text _ rfl rfl
  | other bytes => cases slice

/-- The values that a quick match takes are those of the decoded entry. -/
structure Transparent (e : LogEntry) : Prop where
  qHost : ∀ r ∈ runes e.qHost, isEscaped r = false
  clientID : ∀ r ∈ runes e.clientID, isEscaped r = false
  parameter : e.clientID = [] → ∀ value, rewriteCID e = some value → value = []
  ip : ∃ addr, addrFromSlice e.ip = some addr

section Property

variable {fold : Char → Char} {containsFold : String → String → Bool} {env : Env} {denv : DecodeEnv}
  {e : LogEntry} {line : GoString}

/-- The values that a quick match takes from the line of an entry. -/
theorem quickMatch_encode (done : e.encode = some line) : ∃ ip, e.ip.marshalText = some ip ∧
    ∀ env c, quickMatch env c line =
      match c.criterionType with
      | .term => ctTerm env c (coerce (quickCID e)) (coerce (raw e.qHost)) (coerce (raw (utf8 ip)))
      | .filteringStatus => true := by
  obtain ⟨time, ip, -, ipText, rfl⟩ := exists_of_encode done
  refine ⟨ip, ipText, fun env c => ?_⟩
  have host : readJSONValue (Json.obj (e.members time ip)).render (utf8 "\"QH\":\"") =
      raw e.qHost := by
    rw [show utf8 "\"QH\":\"" = pattern (utf8 "QH") by decide, readJSONValue_render plain_qh,
      firstText_qh]
    rfl
  have addr : readJSONValue (Json.obj (e.members time ip)).render (utf8 "\"IP\":\"") =
      raw (utf8 ip) := by
    rw [show utf8 "\"IP\":\"" = pattern (utf8 "IP") by decide, readJSONValue_render plain_ip,
      firstText_ip]
    rfl
  have cid : readJSONValue (Json.obj (e.members time ip)).render (utf8 "\"CID\":\"") =
      quickCID e := by
    rw [show utf8 "\"CID\":\"" = pattern (utf8 "CID") by decide, readJSONValue_render plain_cid,
      firstText_cid, quickCID]
    split <;> rfl
  rw [quickMatch, host, addr, cid]

/-- The values of the decoded entry. -/
theorem matchEntry_restored (denv : DecodeEnv) (env : Env) (c : SearchCriterion) {ip : String}
    (done : e.ip.marshalText = some ip) : matchEntry env c (e.restored denv) =
      match c.criterionType with
      | .term => ctTerm env c (coerce e.clientID) (coerce e.qHost) e.ip.string
      | .filteringStatus => ctFilteringStatusCase c.value (reasonOf (e.restored denv).result.reason)
          (e.restored denv).result.isFiltered := by
  have cid : coerce (e.restored denv).clientID = coerce e.clientID := coerce_utf8 _
  have host : coerce (e.restored denv).qHost = coerce e.qHost := coerce_utf8 _
  have ip : (e.restored denv).ip.string = e.ip.string := IP.string_canonical done
  rw [matchEntry, cid, host, ip]

theorem quickCID_transparent (transparent : Transparent e) :
    coerce (quickCID e) = coerce e.clientID := by
  unfold quickCID
  by_cases empty : e.clientID = []
  · rw [if_pos empty, empty]
    cases found : rewriteCID e with
    | none => rfl
    | some value =>
      rw [transparent.parameter empty value found]
      rfl
  · rw [if_neg empty, raw_plain transparent.clientID]

theorem marshalText_string {ip : IP} {text : String} (slice : ∃ addr, addrFromSlice ip = some addr)
    (done : ip.marshalText = some text) : text = ip.string := by
  obtain ⟨addr, slice⟩ := slice
  cases ip with
  | nil => cases slice
  | four n => exact (Option.some.inj done).symm
  | sixteen n => exact (Option.some.inj done).symm
  | other bytes => cases slice

/-- What is found by matching the decoded entry is found by a quick match. -/
theorem quickMatch_of_transparent (transparent : Transparent e) (done : e.encode = some line)
    {params : SearchParams} {ent : LogEntry} (decoded : decodeLogEntry denv line = some ent)
    (matched : params.matchEntry env ent = true) : params.quickMatch env line = true := by
  obtain ⟨ip, ipText, quick⟩ := quickMatch_encode done
  rw [decodeLogEntry_encode done] at decoded
  cases decoded
  have host := raw_plain transparent.qHost
  have cid := quickCID_transparent transparent
  have addr : coerce (raw (utf8 ip)) = e.ip.string := by
    rw [marshalText_string transparent.ip ipText, raw_plain (string_plain transparent.ip),
      coerce_utf8]
  have all := (Bool.and_eq_true_iff.mp matched).2
  apply List.all_eq_true.mpr
  intro c member
  have one := List.all_eq_true.mp all c member
  rw [matchEntry_restored denv env c ipText] at one
  rw [quick, host, cid, addr]
  cases type : c.criterionType with
  | term =>
    rw [type] at one
    exact one
  | filteringStatus => rfl

/-- Whatever is searched for, an entry that a match finds is not lost to a quick match. -/
def NeverHidden (fold : Char → Char) (containsFold : String → String → Bool) (denv : DecodeEnv)
    (line : GoString) : Prop :=
  ∀ (findClient : String → String → Option Search.Client) (params : SearchParams) (ent : LogEntry),
    decodeLogEntry denv line = some ent →
      params.matchEntry (searchEnv fold containsFold findClient) ent = true →
        params.quickMatch (searchEnv fold containsFold findClient) line = true

/-! ### Searches that tell the two apart -/

theorem ctTerm_of_neverHidden (never : NeverHidden fold containsFold denv line)
    (done : e.encode = some line) {ip : String} (ipText : e.ip.marshalText = some ip)
    (findClient : String → String → Option Search.Client) (value asciiVal : String) (strict : Bool)
    (matched : ctTerm (searchEnv fold containsFold findClient) ⟨value, asciiVal, .term, strict⟩
      (coerce e.clientID) (coerce e.qHost) e.ip.string = true) :
    ctTerm (searchEnv fold containsFold findClient) ⟨value, asciiVal, .term, strict⟩
      (coerce (quickCID e)) (coerce (raw e.qHost)) (coerce (raw (utf8 ip))) = true := by
  obtain ⟨ip', ipText', quick⟩ := quickMatch_encode done
  obtain rfl : ip = ip' := Option.some.inj (ipText.symm.trans ipText')
  have one := never findClient ⟨none, [⟨value, asciiVal, .term, strict⟩]⟩ _
    (decodeLogEntry_encode done)
  simp only [SearchParams.matchEntry, SearchParams.quickMatch, Option.all_none, Bool.true_and,
    List.all_cons, List.all_nil, Bool.and_true, matchEntry_restored denv _ _ ipText, quick] at one
  exact one matched

/-- The texts are equal under the folding. -/
def SameFold (fold : Char → Char) (s t : String) : Prop := s.toList.map fold = t.toList.map fold

/-- What a strict search looks at. -/
theorem ctTerm_strict {findClient : String → String → Option Search.Client}
    {value asciiVal clientID host ip : String} :
    ctTerm (searchEnv fold containsFold findClient) ⟨value, asciiVal, .term, true⟩
      clientID host ip = true ↔
      SameFold fold host value ∨ (asciiVal ≠ "" ∧ SameFold fold host asciiVal) ∨
        SameFold fold clientID value ∨ SameFold fold ip value ∨
        SameFold fold ((findClient clientID ip).elim "" (·.name)) value := by
  cases found : findClient clientID ip <;>
    simp only [ctTerm, searchEnv, found, if_true, Search.ctDomainOrClientCaseStrict,
      Bool.or_eq_true,
      Bool.and_eq_true, decide_eq_true_eq, SameFold, Option.elim, or_assoc]

/-- A text that is longer than some others. -/
def longer (s t u : String) : String :=
  String.ofList (List.replicate (s.toList.length + t.toList.length + u.toList.length + 1) 'x')

theorem length_longer (s t u : String) :
    s.toList.length < (longer s t u).toList.length ∧
      t.toList.length < (longer s t u).toList.length ∧
      u.toList.length < (longer s t u).toList.length := by
  rw [longer, String.toList_ofList, List.length_replicate]
  omega

theorem not_sameFold {s long : String} (short : s.toList.length < long.toList.length) :
    ¬SameFold fold s long := by
  intro same
  have := congrArg List.length same
  rw [List.length_map, List.length_map] at this
  omega

/-- A client with a name like nothing else, whom only the values of the decoded entry find. -/
theorem sameKeys_of_neverHidden (never : NeverHidden fold containsFold denv line)
    (done : e.encode = some line) {ip : String} (ipText : e.ip.marshalText = some ip) :
    coerce (quickCID e) = coerce e.clientID ∧ coerce (raw (utf8 ip)) = e.ip.string := by
  obtain ⟨cidShort, hostShort, ipShort⟩ :=
    length_longer (coerce (quickCID e)) (coerce (raw e.qHost)) (coerce (raw (utf8 ip)))
  generalize longer (coerce (quickCID e)) (coerce (raw e.qHost)) (coerce (raw (utf8 ip))) = name
    at cidShort hostShort ipShort
  let findClient : String → String → Option Search.Client := fun clientID addr =>
    if clientID = coerce e.clientID ∧ addr = e.ip.string then some ⟨name, false⟩ else none
  have own : findClient (coerce e.clientID) e.ip.string = some ⟨name, false⟩ := if_pos ⟨rfl, rfl⟩
  have matched :
      SameFold fold ((findClient (coerce e.clientID) e.ip.string).elim "" (·.name)) name := by
    rw [own]
    exact rfl
  have quick := ctTerm_of_neverHidden never done ipText findClient name "" true
    (ctTerm_strict.mpr (.inr (.inr (.inr (.inr matched)))))
  by_contra differ
  have lost : findClient (coerce (quickCID e)) (coerce (raw (utf8 ip))) = none := if_neg differ
  rw [ctTerm_strict, lost] at quick
  rcases quick with host | ⟨some, -⟩ | cid | addr | nobody
  · exact not_sameFold hostShort host
  · exact some rfl
  · exact not_sameFold cidShort cid
  · exact not_sameFold ipShort addr
  · exact not_sameFold (s := "") (Nat.zero_lt_of_lt cidShort) nobody

/-- A search for the decoded host, as the second form of a text like nothing else. -/
theorem sameHost_of_neverHidden (never : NeverHidden fold containsFold denv line)
    (done : e.encode = some line) {ip : String} (ipText : e.ip.marshalText = some ip)
    (any : coerce e.qHost ≠ "") : SameFold fold (coerce (raw e.qHost)) (coerce e.qHost) := by
  obtain ⟨cidShort, hostShort, ipShort⟩ :=
    length_longer (coerce (quickCID e)) (coerce (raw e.qHost)) (coerce (raw (utf8 ip)))
  generalize longer (coerce (quickCID e)) (coerce (raw e.qHost)) (coerce (raw (utf8 ip))) = value
    at cidShort hostShort ipShort
  have quick := ctTerm_of_neverHidden never done ipText (fun _ _ => none) value (coerce e.qHost)
    true (ctTerm_strict.mpr (.inr (.inl ⟨any, rfl⟩)))
  rw [ctTerm_strict] at quick
  rcases quick with host | ⟨-, host⟩ | cid | addr | nobody
  · exact absurd host (not_sameFold hostShort)
  · exact host
  · exact absurd cid (not_sameFold cidShort)
  · exact absurd addr (not_sameFold ipShort)
  · exact absurd nobody (not_sameFold (s := "") (Nat.zero_lt_of_lt cidShort))

theorem folded_of_sameFold {s : GoString} (same : SameFold fold (coerce (raw s)) (coerce s)) :
    Folded fold (runes (rawRunes (runes s))) (runes s) := by
  rw [SameFold, coerce, coerce, String.toList_ofList, String.toList_ofList, List.map_map,
    List.map_map, ← rawRunes_runes] at same
  exact same

theorem runes_ne_nil {s : GoString} (any : s ≠ []) : runes s ≠ [] := by
  cases s with
  | nil => exact absurd rfl any
  | cons b rest =>
    rw [runes, runesFrom]
    split <;> exact List.cons_ne_nil _ _

theorem coerce_ne_empty {s : GoString} (any : s ≠ []) : coerce s ≠ "" := by
  intro empty
  have := congrArg String.toList empty
  rw [coerce, String.toList_ofList] at this
  exact runes_ne_nil any (List.map_eq_nil_iff.mp this)

theorem raw_ne_nil {s : GoString} (any : s ≠ []) : raw s ≠ [] := by
  rw [raw, escape]
  cases rs : runes s with
  | nil => exact absurd rs (runes_ne_nil any)
  | cons r rs =>
    obtain ⟨b, bytes, eq, other⟩ := Json.escapeRune_cons r
    rw [List.flatMap_cons, eq, List.cons_append,
      List.takeWhile_cons_of_pos (by simpa using other)]
    exact List.cons_ne_nil _ _

/-- Where a quick match never hides the entry, it takes the values of the decoded one. -/
theorem transparent_of_neverHidden (alone : ∀ c, fold '\\' = fold c → c = '\\')
    (never : NeverHidden fold containsFold denv line) (done : e.encode = some line) :
    Transparent e := by
  obtain ⟨ip, ipText, -⟩ := quickMatch_encode done
  obtain ⟨cid, addr⟩ := sameKeys_of_neverHidden never done ipText
  refine ⟨?_, ?_, ?_, ?_⟩
  · by_cases any : e.qHost = []
    · simp [any]
    · have same := sameHost_of_neverHidden never done ipText (coerce_ne_empty any)
      exact plain_of_folded alone (folded_of_sameFold same)
  · by_cases any : e.clientID = []
    · simp [any]
    · rw [quickCID, if_neg any] at cid
      have same : SameFold id (coerce (raw e.clientID)) (coerce e.clientID) := by rw [cid]; rfl
      exact plain_of_folded (fun c same => same.symm) (folded_of_sameFold same)
  · intro empty value found
    rw [quickCID, if_pos empty, found, empty] at cid
    by_contra any
    exact coerce_ne_empty (raw_ne_nil any) cid
  · cases form : e.ip with
    | nil =>
      rw [form] at ipText addr
      cases ipText
      exact absurd addr (by decide)
    | four n => exact ⟨_, rfl⟩
    | sixteen n => exact ⟨_, rfl⟩
    | other bytes =>
      rw [form] at ipText addr
      cases bytes with
      | nil =>
        cases ipText
        exact absurd addr (by decide)
      | cons b bytes => cases ipText

theorem neverHidden_iff_transparent (alone : ∀ c, fold '\\' = fold c → c = '\\')
    (done : e.encode = some line) : NeverHidden fold containsFold denv line ↔ Transparent e := by
  refine ⟨fun never => transparent_of_neverHidden alone never done, fun transparent => ?_⟩
  intro findClient params ent decoded matched
  exact quickMatch_of_transparent transparent done decoded matched

/-! ### Searching a file -/

/-- The entry of a line, if it is decoded and matches; entries to ignore are left out elsewhere. -/
def found (env : Env) (denv : DecodeEnv) (params : SearchParams) (line : GoString) :
    Option LogEntry :=
  (decodeLogEntry denv line).filter (params.matchEntry env ·)

/-- The same behind a quick match, as `readNextEntry` does it. -/
def foundQuickly (env : Env) (denv : DecodeEnv) (params : SearchParams) (line : GoString) :
    Option LogEntry :=
  if params.quickMatch env line then found env denv params line else none

theorem foundQuickly_eq_iff {params : SearchParams} :
    foundQuickly env denv params line = found env denv params line ↔
      ∀ ent, decodeLogEntry denv line = some ent → params.matchEntry env ent = true →
        params.quickMatch env line = true := by
  unfold foundQuickly found
  cases params.quickMatch env line with
  | true => simp
  | false => simp [eq_comm (a := none), Option.filter_eq_none_iff]

theorem neverHidden_iff : NeverHidden fold containsFold denv line ↔ ∀ findClient params,
    foundQuickly (searchEnv fold containsFold findClient) denv params line =
      found (searchEnv fold containsFold findClient) denv params line := by
  simp only [foundQuickly_eq_iff]
  exact Iff.rfl

theorem foundQuickly_less {params : SearchParams} (line : GoString) :
    foundQuickly env denv params line = none ∨
      foundQuickly env denv params line = found env denv params line := by
  unfold foundQuickly
  split
  · exact .inr rfl
  · exact .inl rfl

section FilterMap

variable {α β : Type} {f g : α → Option β}

theorem length_filterMap_le (less : ∀ x, f x = none ∨ f x = g x) (l : List α) :
    (l.filterMap f).length ≤ (l.filterMap g).length := by
  induction l with
  | nil => exact Nat.le_refl 0
  | cons x l ih =>
    rcases less x with none | same
    · rw [List.filterMap_cons_none none]
      exact ih.trans (List.Sublist.length_le ((List.sublist_cons_self x l).filterMap g))
    · cases value : g x with
      | none => rwa [List.filterMap_cons_none (same.trans value), List.filterMap_cons_none value]
      | some y =>
        rw [List.filterMap_cons_some (same.trans value), List.filterMap_cons_some value]
        exact Nat.succ_le_succ ih

/-- Of two searches, one finds less, element by element: they find the same where no element
differs. -/
theorem filterMap_eq_iff (less : ∀ x, f x = none ∨ f x = g x) (l : List α) :
    l.filterMap f = l.filterMap g ↔ ∀ x ∈ l, f x = g x := by
  refine ⟨fun same => ?_, fun same => List.filterMap_congr same⟩
  induction l with
  | nil => simp
  | cons x l ih =>
    have shorter := length_filterMap_le less l
    cases value : g x with
    | none =>
      have none : f x = none := (less x).elim id fun same => same.trans value
      rw [List.filterMap_cons_none none, List.filterMap_cons_none value] at same
      exact List.forall_mem_cons.mpr ⟨none.trans value.symm, ih same⟩
    | some y =>
      rcases less x with none | here
      · rw [List.filterMap_cons_none none, List.filterMap_cons_some value] at same
        rw [same, List.length_cons] at shorter
        omega
      · rw [List.filterMap_cons_some (here.trans value), List.filterMap_cons_some value] at same
        exact List.forall_mem_cons.mpr ⟨here, ih (List.cons.inj same).2⟩

end FilterMap

/-- In a file written by the encoder, a quick match hides no entry from any search, and every
search finds what it finds without quick matches, just where it takes the decoded values. -/
theorem quickMatch_hides_iff (containsFold : String → String → Bool) (denv : DecodeEnv)
    (alone : ∀ c, fold '\\' = fold c → c = '\\') {entries : List LogEntry} {lines : List GoString}
    (written : List.Forall₂ (fun e line => e.encode = some line) entries lines) :
    ((∀ line ∈ lines, NeverHidden fold containsFold denv line) ↔ ∀ e ∈ entries, Transparent e) ∧
    ((∀ findClient params,
      lines.filterMap (foundQuickly (searchEnv fold containsFold findClient) denv params) =
        lines.filterMap (found (searchEnv fold containsFold findClient) denv params)) ↔
      ∀ e ∈ entries, Transparent e) := by
  have entry : (∀ line ∈ lines, NeverHidden fold containsFold denv line) ↔
      ∀ e ∈ entries, Transparent e := by
    induction written with
    | nil => simp
    | cons done written ih =>
      rw [List.forall_mem_cons, List.forall_mem_cons, ih, neverHidden_iff_transparent alone done]
  refine ⟨entry, ?_⟩
  rw [← entry]
  simp only [filterMap_eq_iff foundQuickly_less, neverHidden_iff]
  constructor
  · intro same line member findClient params
    exact same findClient params line member
  · intro same findClient params line member
    exact same line member findClient params

end Property

/-- No other letter has the lower case of a backslash. -/
theorem toLower_backslash (c : Char) (same : Char.toLower '\\' = Char.toLower c) : c = '\\' := by
  rw [show Char.toLower '\\' = '\\' by decide] at same
  delta Char.toLower at same
  split at same
  · rename_i upper
    have value : (92 : UInt32) = c.val + ('a'.val - 'A'.val) := congrArg Char.val same
    have high : c.val ≤ (90 : UInt32) := upper.2
    have low : (65 : UInt32) ≤ c.val := upper.1
    have nat := congrArg UInt32.toNat value
    rw [UInt32.toNat_add] at nat
    rw [UInt32.le_iff_toNat_le] at high low
    change 92 = (c.val.toNat + 32) % 2 ^ 32 at nat
    change c.val.toNat ≤ 90 at high
    change 65 ≤ c.val.toNat at low
    omega
  · exact same.symm

/-- Containment of the texts in lower case. -/
def containsLower (s t : String) : Bool := t.toList.map Char.toLower <:+: s.toList.map Char.toLower

theorem quickMatch_hides_nothing :
    ∃ line, (blockedEntry (utf8 "||ads.example^")).encode = some line ∧
    NeverHidden Char.toLower containsLower plainEnv line := by
  obtain ⟨line, -, encoded, -⟩ := (addable_blockedEntry (utf8 "||ads.example^")).encode
  have both := quickMatch_hides_iff containsLower plainEnv toLower_backslash (.cons encoded .nil)
  have transparent : Transparent (blockedEntry (utf8 "||ads.example^")) := by
    refine ⟨by decide +kernel, by decide +kernel, ?_, ⟨_, rfl⟩⟩
    intro empty
    exact absurd empty (by decide +kernel)
  have never := both.1.mpr (List.forall_mem_singleton.mpr transparent)
  exact ⟨line, encoded, never line List.mem_cons_self⟩

/-- A request for a host with a character that is written as an escape. -/
def ampersandEntry : LogEntry :=
  { blockedEntry (utf8 "||ads.example^") with qHost := utf8 "a&b.example" }

theorem addable_ampersandEntry : Addable ampersandEntry where
  year := (addable_blockedEntry (utf8 "||ads.example^")).year
  ip := ⟨_, rfl⟩
  valid := (addable_blockedEntry (utf8 "||ads.example^")).valid
  listed := (addable_blockedEntry (utf8 "||ads.example^")).listed

/-- The host is found by what the user sees, but a quick match looks for it in
`a\u0026b.example`. -/
theorem quickMatch_hides_ampersand : ∃ line ent, ampersandEntry.encode = some line ∧
    decodeLogEntry plainEnv line = some ent ∧
    SearchParams.matchEntry (searchEnv Char.toLower containsLower fun _ _ => none)
      ⟨none, [⟨"a&b.example", "", .term, false⟩]⟩ ent = true ∧
    SearchParams.quickMatch (searchEnv Char.toLower containsLower fun _ _ => none)
      ⟨none, [⟨"a&b.example", "", .term, false⟩]⟩ line = false := by
  obtain ⟨line, -, encoded, -⟩ := addable_ampersandEntry.encode
  obtain ⟨ip, ipText, quick⟩ := quickMatch_encode encoded
  cases ipText
  refine ⟨line, _, encoded, decodeLogEntry_encode encoded, ?_, ?_⟩
  · decide +kernel
  · rw [SearchParams.quickMatch, List.all_cons, List.all_nil, quick]
    decide +kernel

end FirewallCore.Querylog.File
