import FirewallCore.Lib.Lines
import FirewallCore.Lib.Strings
import FirewallCore.Filtering.Filter

/-!
The parser of filter lists (`filtering/rulelist/parser.go`), and what a filter
does with its results (`updateIntl` and `load` in `filtering/filter.go`).

The scanner gives the lines one by one and stops at a line that does not fit into
its buffer. Of the lines that it is given, the parser writes the rules to `dst`,
trimmed and each with a line break, and adds them to the checksum without one.
-/

namespace FirewallCore.Rulelist

open FirewallCore.Lib

abbrev Bytes := List UInt8

/-! ### Lines -/

/-- The encodings of the characters of `unicode.IsSpace`. -/
def whiteSpace : List Bytes :=
  [[9], [10], [11], [12], [13], [32], [0xc2, 0x85], [0xc2, 0xa0], [0xe1, 0x9a, 0x80],
    [0xe2, 0x80, 0x80], [0xe2, 0x80, 0x81], [0xe2, 0x80, 0x82], [0xe2, 0x80, 0x83],
    [0xe2, 0x80, 0x84], [0xe2, 0x80, 0x85], [0xe2, 0x80, 0x86], [0xe2, 0x80, 0x87],
    [0xe2, 0x80, 0x88], [0xe2, 0x80, 0x89], [0xe2, 0x80, 0x8a], [0xe2, 0x80, 0xa8],
    [0xe2, 0x80, 0xa9], [0xe2, 0x80, 0xaf], [0xe2, 0x81, 0x9f], [0xe3, 0x80, 0x80]]

/-- `bytes.TrimSpace`. -/
def trimSpace (s : Bytes) : Bytes := trimWords whiteSpace s

/-- `dropCR` of `bufio.ScanLines`. -/
def dropCR (data : Bytes) : Bytes := if data.getLast? = some 13 then data.dropLast else data

/-- A byte in lower case, of those that are letters. -/
def lowerByte (b : UInt8) : UInt8 := if 65 ≤ b ∧ b ≤ 90 then b + 32 else b

/-- `hasPrefixFold`, for a prefix without letters that other characters fold to. -/
def hasPrefixFold (b start : Bytes) : Bool :=
  start.length ≤ b.length && (b.take start.length).map lowerByte == start

/-- `isHTMLLine`: `<html` or `<!doctype`. -/
def isHTMLLine (line : Bytes) : Bool :=
  hasPrefixFold line [60, 104, 116, 109, 108] ||
    hasPrefixFold line [60, 33, 100, 111, 99, 116, 121, 112, 101]

/-- `likelyBinary`. -/
def likelyBinary (b : UInt8) : Bool := (b < 32 || b = 0x7f) && b ≠ 10 && b ≠ 13 && b ≠ 9

/-- `parseLine`: the index of a bad character, and whether the line is a rule. -/
def parseLine (line : Bytes) : Option Nat × Bool :=
  if line = [] ∨ line.head? = some 35 ∨ line.head? = some 33 then (none, false)
  else
    let badIdx := line.findIdx? likelyBinary
    (badIdx, badIdx.isNone)

/-- `! Title: `. -/
def titlePattern : Bytes := [33, 32, 84, 105, 116, 108, 101, 58, 32]

/-! ### The parser -/

/-- `Parser`, with what it has written to `dst`. -/
structure Parser where
  title : Bytes
  rulesCount : Nat
  written : Nat
  checksum : UInt32
  titleFound : Bool
  dst : Bytes
  deriving DecidableEq, Repr

/-- `NewParser`, with nothing written. -/
def newParser : Parser := ⟨[], 0, 0, 0, false, []⟩

/-- `ParseResult`. -/
structure ParseResult where
  title : Bytes
  rulesCount : Nat
  bytesWritten : Nat
  checksum : UInt32
  deriving DecidableEq, Repr

inductive ParseError where
  /-- "data is HTML, not plain text" -/
  | html
  /-- "line %d: character %d: likely binary character %q" -/
  | binary (line char : Nat) (c : UInt8)
  /-- "writing rule line: %w" -/
  | writing (err : String)
  /-- "scanning filter contents: %w" -/
  | scanning (err : String)
  deriving DecidableEq, Repr

/-- Where the rules are written to. A write that fails tells how many bytes it has taken. What has
been written before is given. -/
abbrev Writer := Bytes → Bytes → Option (Nat × String)

/-- A writer that never fails, as `io.Discard` does not. -/
def discard : Writer := fun _ _ => none

/-- What a list is read from: the bytes, and the error behind them unless it is the end. -/
structure Source where
  data : Bytes
  err : Option String

/-- `crc32.Update` with the IEEE table. -/
def crcUpdate (crc : UInt32) (p : Bytes) : UInt32 := ~~~(p.foldl Filtering.crcByte (~~~crc))

namespace Parser

/-- `parseLineTitle`. -/
def parseLineTitle (p : Parser) (line : Bytes) : Parser × Option Nat × Bool :=
  if line = [] ∨ line.head? = some 35 then (p, none, false)
  else if line.head? ≠ some 33 then
    let badIdx := line.findIdx? likelyBinary
    (p, badIdx, badIdx.isNone)
  else if !titlePattern.isPrefixOf line then (p, none, false)
  else
    let title := trimSpace (line.drop titlePattern.length)
    if title ≠ [] then ({ p with title := title, titleFound := true }, none, false)
    else (p, none, false)

/-- What `processLine` looks for in a line, the title only until there is one. -/
def classify (p : Parser) (line : Bytes) : Parser × Option Nat × Bool :=
  if p.titleFound then (p, parseLine line) else p.parseLineTitle line

/-- The end of `processLine`. -/
def writeRule (write : Writer) (p : Parser) (trimmed : Bytes) : Parser × Nat × Option ParseError :=
  let p := { p with
    rulesCount := p.rulesCount + 1
    checksum := crcUpdate p.checksum trimmed }
  let chunk := trimmed ++ [10]
  match write p.dst chunk with
  | none => ({ p with dst := p.dst ++ chunk }, chunk.length, none)
  | some (n, err) => ({ p with dst := p.dst ++ chunk.take n }, n, some (.writing err))

/-- `processLine`. -/
def processLine (write : Writer) (p : Parser) (line : Bytes) (lineNum : Nat) :
    Parser × Nat × Option ParseError :=
  let trimmed := trimSpace line
  if p.written = 0 ∧ isHTMLLine trimmed then (p, 0, some .html)
  else
    match p.classify trimmed with
    | (p, some badIdx, _) =>
      let char := badIdx + (indexOf trimmed line).getD 0 + 1
      (p, 0, some (.binary lineNum char (trimmed.getD badIdx 0)))
    | (p, none, false) => (p, 0, none)
    | (p, none, true) => p.writeRule write trimmed

/-- The loop of `Parse` over the lines of the source. A line that fills the buffer ends it. -/
def scan (write : Writer) (limit : Nat) : Nat → List Bytes → Parser → Parser × Option ParseError
  | _, [], p => (p, none)
  | lineNum, line :: lines, p =>
    if limit ≤ line.length then (p, some (.scanning "bufio.Scanner: token too long"))
    else
      let (p, n, err) := p.processLine write (dropCR line) lineNum
      let p := { p with written := p.written + n }
      match err with
      | some err => (p, some err)
      | none => scan write limit (lineNum + 1) lines p

/-- `result`. -/
def result (p : Parser) : ParseResult := ⟨p.title, p.rulesCount, p.written, p.checksum⟩

end Parser

/-- `bufio.MaxScanTokenSize`. -/
def maxScanTokenSize : Nat := 65536

/-- `Parse` of a new parser, with the capacity of `buf`: what is in `dst`, the result and the
error. -/
def parse (write : Writer) (bufCap : Nat) (src : Source) :
    Bytes × ParseResult × Option ParseError :=
  let (p, err) := newParser.scan write (max bufCap maxScanTokenSize) 1 (textLines src.data)
  (p.dst, p.result, err.or (src.err.map .scanning))

/-- The first result of `updateIntl`, for the checksum of the filter. -/
def isUpdate (checksum : UInt32) (res : ParseResult) (err : Option ParseError) : Bool :=
  res.checksum ≠ checksum && err.isNone

/-! ### Rules -/

/-- A trimmed line that is not empty and no comment. -/
def isRule (line : Bytes) : Bool := !(line = [] ∨ line.head? = some 35 ∨ line.head? = some 33)

/-- The rules among the lines of a text, trimmed. -/
def ruleLines (lines : List Bytes) : List Bytes :=
  (lines.map fun line => trimSpace (dropCR line)).filter isRule

/-- A trimmed line that can be written. -/
structure GoodRule (line : Bytes) : Prop where
  trimmed : trimSpace line = line
  rule : isRule line = true
  printable : line.findIdx? likelyBinary = none

section Lines

variable {line : Bytes} {lines : List Bytes}

theorem whiteSpace_proper : [] ∉ whiteSpace := by decide

theorem trimSpace_trimSpace (s : Bytes) : trimSpace (trimSpace s) = trimSpace s :=
  trimWords_trimWords whiteSpace_proper s

theorem dropCR_isPrefix (s : Bytes) : dropCR s <+: s := by
  unfold dropCR
  split
  · exact List.dropLast_prefix s
  · exact List.prefix_refl s

/-- A line lies in the line that it is trimmed from. -/
theorem trimmed_isInfix (s : Bytes) : trimSpace (dropCR s) <:+: s :=
  (trimWords_isInfix _).trans (dropCR_isPrefix s).isInfix

/-- A trimmed line does not end in a carriage return. -/
theorem dropCR_of_trimmed (trimmed : trimSpace line = line) : dropCR line = line := by
  unfold dropCR
  split
  · rename_i last
    obtain ⟨front, split_⟩ := List.getLast?_eq_some_iff.mp last
    have any : trimSpace line ≠ [] := by
      rw [trimmed, split_]
      simp
    refine absurd ?_ (not_suffix_trimWords whiteSpace_proper any [13] (by decide))
    rw [show trimWords whiteSpace line = line from trimmed, split_]
    exact List.suffix_append front [13]
  · rfl

theorem mem_ruleLines : line ∈ ruleLines lines ↔
    isRule line = true ∧ ∃ l ∈ lines, trimSpace (dropCR l) = line := by
  simp [ruleLines, and_comm]

theorem ruleLines_cons (first : Bytes) (lines : List Bytes) :
    ruleLines (first :: lines) =
      (if isRule (trimSpace (dropCR first)) then [trimSpace (dropCR first)] else []) ++
        ruleLines lines := by
  unfold ruleLines
  rw [List.map_cons, List.filter_cons]
  split <;> rfl

theorem ruleLines_of_good (good : ∀ line ∈ lines, GoodRule line) : ruleLines lines = lines := by
  have same : lines.map (fun line => trimSpace (dropCR line)) = lines := by
    conv_rhs => rw [← List.map_id lines]
    apply List.map_congr_left
    intro line mem
    rw [dropCR_of_trimmed (good line mem).trimmed, (good line mem).trimmed]
    rfl
  rw [ruleLines, same, List.filter_eq_self]
  exact fun line mem => (good line mem).rule

end Lines

/-! ### Lines that are processed -/

/-- Two states of the parser that differ in the title only. -/
structure SameButTitle (p q : Parser) : Prop where
  rulesCount : p.rulesCount = q.rulesCount
  written : p.written = q.written
  checksum : p.checksum = q.checksum
  dst : p.dst = q.dst

/-- The parser has come from `p` by writing rules. -/
structure Wrote (rules : List Bytes) (p q : Parser) : Prop where
  rulesCount : q.rulesCount = p.rulesCount + rules.length
  written : q.written = p.written + (unlines rules).length
  checksum : q.checksum = rules.foldl crcUpdate p.checksum
  dst : q.dst = p.dst ++ unlines rules

section Process

variable {write : Writer} {p q r : Parser} {line : Bytes} {lineNum n limit : Nat}

theorem SameButTitle.refl (p : Parser) : SameButTitle p p := ⟨rfl, rfl, rfl, rfl⟩

theorem Wrote.trans {rules more : List Bytes} (first : Wrote rules p q) (second : Wrote more q r) :
    Wrote (rules ++ more) p r where
  rulesCount := by
    rw [second.rulesCount, first.rulesCount, List.length_append]
    omega
  written := by
    rw [second.written, first.written, unlines_append, List.length_append]
    omega
  checksum := by rw [second.checksum, first.checksum, List.foldl_append]
  dst := by rw [second.dst, first.dst, unlines_append, List.append_assoc]

/-- A line is classified in the same way whether or not a title is looked for. -/
theorem classify_spec (p : Parser) (line : Bytes) :
    (p.classify line).2 = parseLine line ∧ SameButTitle (p.classify line).1 p := by
  unfold Parser.classify
  split
  · exact ⟨rfl, .refl p⟩
  · unfold Parser.parseLineTitle
    split
    · rename_i comment
      have plain : parseLine line = (none, false) := if_pos (by tauto)
      exact ⟨plain.symm, .refl p⟩
    · rename_i other
      split
      · rename_i ordinary
        have rule : parseLine line = (line.findIdx? likelyBinary,
            (line.findIdx? likelyBinary).isNone) :=
          if_neg (by tauto)
        exact ⟨rule.symm, .refl p⟩
      · rename_i special
        have plain : parseLine line = (none, false) := if_pos (by tauto)
        rw [plain]
        split
        · exact ⟨rfl, .refl p⟩
        · simp only
          split
          · exact ⟨rfl, ⟨rfl, rfl, rfl, rfl⟩⟩
          · exact ⟨rfl, .refl p⟩

theorem isRule_iff : isRule line = true ↔
    ¬(line = [] ∨ line.head? = some 35 ∨ line.head? = some 33) := by
  unfold isRule
  rw [Bool.not_eq_true', decide_eq_false_iff_not]

theorem parseLine_of_rule (rule : isRule line = true) :
    parseLine line = (line.findIdx? likelyBinary, (line.findIdx? likelyBinary).isNone) :=
  if_neg (isRule_iff.mp rule)

theorem parseLine_of_comment (comment : ¬isRule line = true) : parseLine line = (none, false) :=
  if_pos (not_not.mp (mt isRule_iff.mpr comment))

theorem SameButTitle.wrote {rules : List Bytes} (same : SameButTitle q p)
    (wrote : Wrote rules q r) : Wrote rules p r where
  rulesCount := by rw [wrote.rulesCount, same.rulesCount]
  written := by rw [wrote.written, same.written]
  checksum := by rw [wrote.checksum, same.checksum]
  dst := by rw [wrote.dst, same.dst]

theorem writeRule_ok (done : p.writeRule write line = (q, n, none)) :
    Wrote [line] p { q with written := q.written + n } := by
  unfold Parser.writeRule at done
  simp only at done
  split at done
  · cases done
    refine ⟨rfl, ?_, rfl, ?_⟩
    · simp [unlines]
    · simp [unlines]
  · cases done

/-- What is written of a line that is processed without an error. -/
theorem processLine_ok (done : p.processLine write line lineNum = (q, n, none)) :
    ¬(p.written = 0 ∧ isHTMLLine (trimSpace line) = true) ∧
      (isRule (trimSpace line) = true → (trimSpace line).findIdx? likelyBinary = none) ∧
      Wrote (if isRule (trimSpace line) then [trimSpace line] else []) p
        { q with written := q.written + n } := by
  unfold Parser.processLine at done
  simp only at done
  split at done
  · cases done
  · rename_i plain
    obtain ⟨kind, same⟩ := classify_spec p (trimSpace line)
    refine ⟨plain, ?_⟩
    by_cases rule : isRule (trimSpace line) = true
    · rw [parseLine_of_rule rule] at kind
      rw [if_pos rule]
      cases bad : (trimSpace line).findIdx? likelyBinary with
      | some i =>
        rw [← Prod.eta (p.classify (trimSpace line)), kind, bad] at done
        cases done
      | none =>
        rw [← Prod.eta (p.classify (trimSpace line)), kind, bad] at done
        exact ⟨fun _ => rfl, same.wrote (writeRule_ok done)⟩
    · rw [parseLine_of_comment rule] at kind
      rw [if_neg rule]
      rw [← Prod.eta (p.classify (trimSpace line)), kind] at done
      cases done
      exact ⟨fun isRule => absurd isRule rule, same.rulesCount, same.written, same.checksum,
        by simpa using same.dst⟩

/-- A rule is processed without an error if it need not be taken for HTML and can be written. -/
theorem processLine_good (good : GoodRule line) (plain : p.written = 0 → isHTMLLine line = false)
    (accepts : ∀ before chunk, write before chunk = none) (lineNum : Nat) :
    ∃ q n, p.processLine write line lineNum = (q, n, none) := by
  have kind := (classify_spec p line).1
  rw [parseLine_of_rule good.rule, good.printable] at kind
  unfold Parser.processLine
  simp only [good.trimmed]
  rw [if_neg (fun html => by rw [plain html.1] at html; cases html.2),
    ← Prod.eta (p.classify line), kind]
  unfold Parser.writeRule
  simp only [accepts]
  exact ⟨_, _, rfl⟩

/-- What a scan without an error has written, and what it has seen. -/
structure Scanned (limit : Nat) (lines : List Bytes) (p q : Parser) : Prop where
  wrote : Wrote (ruleLines lines) p q
  short : ∀ line ∈ lines, line.length < limit
  printable : ∀ line ∈ ruleLines lines, line.findIdx? likelyBinary = none
  plain : p.written = 0 → ∀ line, (ruleLines lines).head? = some line → isHTMLLine line = false

theorem scan_ok {lines : List Bytes} (done : p.scan write limit lineNum lines = (q, none)) :
    Scanned limit lines p q := by
  induction lines generalizing p lineNum with
  | nil =>
    cases done
    exact ⟨⟨rfl, rfl, rfl, by simp [ruleLines]⟩, by simp, by simp [ruleLines], by simp [ruleLines]⟩
  | cons line lines ih =>
    unfold Parser.scan at done
    split at done
    · cases done
    · rename_i fits
      simp only at done
      cases here : p.processLine write (dropCR line) lineNum with
      | mk r rest =>
        obtain ⟨n, err⟩ := rest
        rw [here] at done
        cases err with
        | some err => cases done
        | none =>
          obtain ⟨plain, printable, wrote⟩ := processLine_ok here
          have later := ih done
          constructor
          · rw [ruleLines_cons]
            exact wrote.trans later.wrote
          · exact List.forall_mem_cons.mpr ⟨by omega, later.short⟩
          · rw [ruleLines_cons]
            intro rule mem
            rcases List.mem_append.mp mem with first | mem
            · split at first
              · rename_i isRule
                rw [List.mem_singleton.mp first]
                exact printable isRule
              · cases first
            · exact later.printable rule mem
          · intro start rule head
            rw [ruleLines_cons] at head
            by_cases isRule : isRule (trimSpace (dropCR line)) = true
            · rw [if_pos isRule] at head
              cases head
              exact Bool.eq_false_iff.mpr fun html => plain ⟨start, html⟩
            · rw [if_neg isRule] at head wrote
              exact later.plain (wrote.written.trans (by simp [start])) rule head

/-- Rules are scanned without an error. -/
theorem scan_good {rules : List Bytes} (good : ∀ rule ∈ rules, GoodRule rule)
    (short : ∀ rule ∈ rules, rule.length < limit)
    (plain : p.written = 0 → ∀ rule, rules.head? = some rule → isHTMLLine rule = false)
    (accepts : ∀ before chunk, write before chunk = none) (lineNum : Nat) :
    ∃ q, p.scan write limit lineNum rules = (q, none) := by
  induction rules generalizing p lineNum with
  | nil => exact ⟨p, rfl⟩
  | cons rule rules ih =>
    rw [List.forall_mem_cons] at good short
    obtain ⟨q, n, done⟩ :=
      processLine_good good.1 (fun start => plain start rule rfl) accepts lineNum
    have wrote := (processLine_ok done).2.2
    rw [good.1.trimmed, if_pos good.1.rule] at wrote
    unfold Parser.scan
    rw [if_neg (by omega), dropCR_of_trimmed good.1.trimmed]
    simp only [done]
    refine ih good.2 short.2 (fun start => ?_) (lineNum + 1)
    have some : 0 < q.written + n := by
      have length : q.written + n = _ := wrote.written
      rw [length]
      simp [unlines]
    exact absurd start (Nat.ne_of_gt some)

end Process

/-! ### Results -/

/-- The bytes that the checksum of a list is computed over. -/
def checksummed (src : Source) : Bytes := (ruleLines (textLines src.data)).flatten

section Results

variable {write : Writer} {bufCap : Nat} {src : Source} {text : Bytes} {res : ParseResult}

theorem crcUpdate_append (crc : UInt32) (a b : Bytes) :
    crcUpdate crc (a ++ b) = crcUpdate (crcUpdate crc a) b := by
  simp [crcUpdate, List.foldl_append]

theorem foldl_crcUpdate (rules : List Bytes) (crc : UInt32) :
    rules.foldl crcUpdate crc = crcUpdate crc rules.flatten := by
  induction rules generalizing crc with
  | nil => simp [crcUpdate]
  | cons rule rules ih => rw [List.foldl_cons, ih, List.flatten_cons, crcUpdate_append]

/-- What is known of an accepted list. -/
structure Accepted (bufCap : Nat) (src : Source) (text : Bytes) (res : ParseResult) : Prop where
  dst : text = unlines (ruleLines (textLines src.data))
  rulesCount : res.rulesCount = (ruleLines (textLines src.data)).length
  bytesWritten : res.bytesWritten = text.length
  checksum : res.checksum = crcUpdate 0 (checksummed src)
  good : ∀ rule ∈ ruleLines (textLines src.data), GoodRule rule
  single : ∀ rule ∈ ruleLines (textLines src.data), 10 ∉ rule
  short : ∀ rule ∈ ruleLines (textLines src.data), rule.length < max bufCap maxScanTokenSize
  plain : ∀ rule, (ruleLines (textLines src.data)).head? = some rule → isHTMLLine rule = false

theorem accepted_of_parse (accepted : parse write bufCap src = (text, res, none)) :
    Accepted bufCap src text res := by
  unfold parse at accepted
  cases done : newParser.scan write (max bufCap maxScanTokenSize) 1 (textLines src.data) with
  | mk p err =>
    simp only [done, Prod.mk.injEq, Option.or_eq_none_iff] at accepted
    obtain ⟨rfl, rfl, rfl, -⟩ := accepted
    obtain ⟨wrote, short, printable, plain⟩ := scan_ok done
    refine ⟨wrote.dst, ?_, ?_, ?_, ?_, ?_, ?_, plain rfl⟩
    · exact wrote.rulesCount.trans (Nat.zero_add _)
    · rw [wrote.dst]
      exact wrote.written.trans (Nat.zero_add _)
    · exact wrote.checksum.trans (foldl_crcUpdate _ _)
    · intro rule mem
      obtain ⟨isRule, line, -, rfl⟩ := mem_ruleLines.mp mem
      exact ⟨trimSpace_trimSpace _, isRule, printable _ mem⟩
    · intro rule mem break_
      obtain ⟨-, line, listed, rfl⟩ := mem_ruleLines.mp mem
      exact no_break_of_mem_textLines listed ((trimmed_isInfix line).subset break_)
    · intro rule mem
      obtain ⟨-, line, listed, rfl⟩ := mem_ruleLines.mp mem
      exact Nat.lt_of_le_of_lt (trimmed_isInfix line).length_le (short line listed)

/-- A text that has been written is accepted. -/
theorem Accepted.again (accepted : Accepted bufCap src text res) :
    ∃ text' res', parse discard bufCap ⟨text, none⟩ = (text', res', none) := by
  have lines : textLines text = ruleLines (textLines src.data) := by
    rw [accepted.dst]
    exact textLines_unlines accepted.single
  have accepts : ∀ before chunk, discard before chunk = none := fun _ _ => rfl
  obtain ⟨p, done⟩ := scan_good (p := newParser) accepted.good accepted.short
    (fun _ => accepted.plain) accepts 1
  refine ⟨p.dst, p.result, ?_⟩
  unfold parse
  simp only [lines, done, Option.map_none, Option.or_none]

/-- The rules of a text that has been written are those that it was written from. -/
theorem Accepted.rules_again (accepted : Accepted bufCap src text res) :
    ruleLines (textLines text) = ruleLines (textLines src.data) := by
  rw [accepted.dst, textLines_unlines accepted.single]
  exact ruleLines_of_good accepted.good

end Results

/-- Comments, blanks, a title and a carriage return. -/
def sample : Bytes :=
  [33, 32, 84, 105, 116, 108, 101, 58, 32, 84, 10, 32, 97, 98, 13, 10, 10, 35, 120, 10, 99, 32]

/-- Two different byte strings with one checksum. -/
def Collision (a b : Bytes) : Prop := a ≠ b ∧ crcUpdate 0 a = crcUpdate 0 b

/-- A list is noticed to be another one, unless the bytes that were summed collide, if and only if
the rules of the two lists differ when they are put together without line breaks. -/
theorem update_noticed_iff {writeA writeB : Writer} {capA capB : Nat} {a b : Source}
    {textA textB : Bytes} {resA resB : ParseResult}
    (acceptedA : parse writeA capA a = (textA, resA, none))
    (acceptedB : parse writeB capB b = (textB, resB, none)) :
    (isUpdate resA.checksum resB none = true ∨ Collision (checksummed a) (checksummed b)) ↔
      (ruleLines (textLines a.data)).flatten ≠ (ruleLines (textLines b.data)).flatten := by
  have sumA : resA.checksum = crcUpdate 0 (checksummed a) := (accepted_of_parse acceptedA).checksum
  have sumB : resB.checksum = crcUpdate 0 (checksummed b) := (accepted_of_parse acceptedB).checksum
  have update : isUpdate resA.checksum resB none = true ↔
      crcUpdate 0 (checksummed b) ≠ crcUpdate 0 (checksummed a) := by
    simp [isUpdate, sumA, sumB]
  rw [update]
  constructor
  · rintro (differ | ⟨differ, -⟩)
    · intro same
      exact differ (congrArg (crcUpdate 0) same.symm)
    · exact differ
  · intro differ
    by_cases same : crcUpdate 0 (checksummed a) = crcUpdate 0 (checksummed b)
    · exact .inr ⟨differ, same⟩
    · exact .inl (Ne.symm same)

/-- Two rules, and the same bytes as one rule. -/
def twoRules : Bytes := [97, 98, 10, 99, 10]
def movedBreak : Bytes := [97, 10, 98, 99, 10]

theorem movedBreak_unnoticed : ∃ resA resB,
    parse discard 1024 ⟨twoRules, none⟩ = (twoRules, resA, none) ∧
    parse discard 1024 ⟨movedBreak, none⟩ = (movedBreak, resB, none) ∧
    ruleLines (textLines twoRules) ≠ ruleLines (textLines movedBreak) ∧
    ¬(isUpdate resA.checksum resB none = true ∨
      Collision (checksummed ⟨twoRules, none⟩) (checksummed ⟨movedBreak, none⟩)) := by
  have first : parse discard 1024 ⟨twoRules, none⟩ =
      (twoRules, ⟨[], 2, 5, crcUpdate 0 [97, 98, 99]⟩, none) := by decide +kernel
  have second : parse discard 1024 ⟨movedBreak, none⟩ =
      (movedBreak, ⟨[], 2, 5, crcUpdate 0 [97, 98, 99]⟩, none) := by decide +kernel
  have same : checksummed ⟨twoRules, none⟩ = checksummed ⟨movedBreak, none⟩ := by decide +kernel
  refine ⟨_, _, first, second, by decide +kernel, ?_⟩
  rintro (update | ⟨differ, -⟩)
  · simp [isUpdate] at update
  · exact differ same

theorem update_noticed_iff_order :
    let a : Source := ⟨[97, 10, 98, 10], none⟩
    let b : Source := ⟨[98, 10, 97, 10], none⟩
    ∃ resA resB, parse discard 1024 a = (a.data, resA, none) ∧
      parse discard 1024 b = (b.data, resB, none) ∧
      ((isUpdate resA.checksum resB none = true ∨ Collision (checksummed a) (checksummed b)) ↔
        (ruleLines (textLines a.data)).flatten ≠ (ruleLines (textLines b.data)).flatten) := by
  have first : parse discard 1024 ⟨[97, 10, 98, 10], none⟩ =
      ([97, 10, 98, 10], ⟨[], 2, 4, crcUpdate 0 [97, 98]⟩, none) := by decide +kernel
  have second : parse discard 1024 ⟨[98, 10, 97, 10], none⟩ =
      ([98, 10, 97, 10], ⟨[], 2, 4, crcUpdate 0 [98, 97]⟩, none) := by decide +kernel
  exact ⟨_, _, first, second, update_noticed_iff first second⟩

end FirewallCore.Rulelist
