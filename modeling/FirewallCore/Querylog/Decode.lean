import FirewallCore.Querylog.Entry

/-!
Reading the entries of the query log from their lines (`decode.go`).

The decoder goes through the tokens of a line and looks up every key in a table. A
function that reads a part of the line returns what it has read and the tokens
that are left. `none` stands for an index out of range, which stops the program.

What `Decode` makes of the records of a rewrite, and `dns.Fqdn`, are parameters.
-/

namespace FirewallCore.Querylog.File

open FirewallCore.Lib FirewallCore.Net
open FirewallCore.Lib.Json (Token Delim parseInt64 int64Value)

/-- What is asked of other parts. -/
structure DecodeEnv where
  /-- `Decode` for the records of a rewrite, with `parseDNSRewriteResultIPs`. -/
  decodeResponse : List Token → List (Nat × List Json) → List (Nat × List Json)
  fqdn : String → String

/-! ### Handlers of an entry -/

/-- `logEntryHandler`: what a value changes, and whether there was no error. A value of
another type changes nothing. -/
abbrev Handler (α : Type) := Token → α → α × Bool

/-- A handler of strings. -/
def stringHandler {α : Type} (set : GoString → α → α) : Handler α := fun t ent =>
  match t with
  | .str v => (set (utf8 v) ent, true)
  | _ => (ent, true)

/-- A handler of flags. -/
def boolHandler {α : Type} (set : Bool → α → α) : Handler α := fun t ent =>
  match t with
  | .bool v => (set v ent, true)
  | _ => (ent, true)

/-- A handler of numbers. -/
def numberHandler {α : Type} (set : Int64 → α → α) : Handler α := fun t ent =>
  match t with
  | .num v =>
    match parseInt64 v with
    | some i => (set i ent, true)
    | none => (ent, false)
  | _ => (ent, true)

/-- A handler of strings in base64. What stands before an error is not kept. -/
def base64Handler (set : List UInt8 → LogEntry → LogEntry) : Handler LogEntry := fun t ent =>
  match t with
  | .str v =>
    match Base64.decode (utf8 v) with
    | some bytes => (set bytes ent, true)
    | none => (set [] ent, false)
  | _ => (ent, true)

/-- The first address of a line counts. -/
def ipHandler : Handler LogEntry := fun t ent =>
  match t with
  | .str v => (if ent.ip.isNil then { ent with ip := IP.parse v } else ent, true)
  | _ => (ent, true)

/-- `time.Parse` for `RFC3339`, in UTC. -/
def Time.parse (s : String) : Option Time :=
  (Rfc3339.parseNano s.toList).bind fun (secs, nanos) =>
    if small : nanos < 10 ^ 9 then some ⟨secs, nanos, small⟩ else none

def timeHandler : Handler LogEntry := fun t ent =>
  match t with
  | .str v =>
    match Time.parse v with
    | some time => ({ ent with time := time }, true)
    | none => ({ ent with time := .zero }, false)
  | _ => (ent, true)

/-- `NewClientProto`. -/
def newClientProto (s : String) : Option ClientProto :=
  if s = "doh" then some .doh
  else if s = "doq" then some .doq
  else if s = "dot" then some .dot
  else if s = "dnscrypt" then some .dnscrypt
  else if s = "" then some .plain
  else none

def protoHandler : Handler LogEntry := fun t ent =>
  match t with
  | .str v =>
    match newClientProto v with
    | some proto => ({ ent with clientProto := proto }, true)
    | none => ({ ent with clientProto := .plain }, false)
  | _ => (ent, true)

/-- `logEntryHandlers`. -/
def logEntryHandlers (key : String) : Option (Handler LogEntry) :=
  if key = "CID" then some (stringHandler fun v ent => { ent with clientID := v })
  else if key = "IP" then some ipHandler
  else if key = "T" then some timeHandler
  else if key = "QH" then some (stringHandler fun v ent => { ent with qHost := v })
  else if key = "QT" then some (stringHandler fun v ent => { ent with qType := v })
  else if key = "QC" then some (stringHandler fun v ent => { ent with qClass := v })
  else if key = "CP" then some protoHandler
  else if key = "Answer" then some (base64Handler fun v ent => { ent with answer := v })
  else if key = "OrigAnswer" then some (base64Handler fun v ent => { ent with origAnswer := v })
  else if key = "ECS" then some (stringHandler fun v ent => { ent with reqECS := v })
  else if key = "Cached" then some (boolHandler fun v ent => { ent with cached := v })
  else if key = "AD" then some (boolHandler fun v ent => { ent with authenticatedData := v })
  else if key = "Upstream" then some (stringHandler fun v ent => { ent with upstream := v })
  else if key = "Elapsed" then some (numberHandler fun v ent => { ent with elapsed := v })
  else none

/-! ### Rules -/

/-- `filtering.ResultRule{}`. -/
def ResultRule.empty : ResultRule := ⟨[], .zero, 0⟩

/-- The change to a rule by the value of a key of `decodeResultRuleKey`. -/
def ruleHandlers (key : String) : Option (Token → Option (ResultRule → ResultRule)) :=
  if key = "FilterListID" then some fun t =>
    match t with
    | .num n => some fun rule => { rule with filterListID := int64Value n }
    | _ => none
  else if key = "IP" then some fun t =>
    match t with
    | .str s => (parseAddr s).map fun ip rule => { rule with ip := ip }
    | _ => none
  else if key = "Text" then some fun t =>
    match t with
    | .str s => some fun rule => { rule with text := utf8 s }
    | _ => none
  else none

/-- The rules after `decodeVTokenAndAddRule` for the rule with an index. -/
def addRule (i : Nat) (rules : List ResultRule) : List ResultRule :=
  if rules.length < i + 1 then rules ++ [.empty] else rules

/-- The rules after `decodeResultRuleKey`. -/
def setRule (i : Nat) (change : Option (ResultRule → ResultRule)) (rules : List ResultRule) :
    Option (List ResultRule) :=
  match change with
  | none => some (addRule i rules)
  | some f => if i < (addRule i rules).length then some ((addRule i rules).modify i f) else none

/-- `decodeResultRuleToken`, from the rule with an index on. -/
def decodeResultRuleToken : Nat → List Token → List ResultRule →
    Option (List ResultRule × List Token)
  | _, [], rules => some (rules, [])
  | i, .delim .closeObject :: ts, rules => decodeResultRuleToken (i + 1) ts rules
  | _, .delim .closeArray :: ts, rules => some (rules, ts)
  | i, .delim _ :: ts, rules => decodeResultRuleToken i ts rules
  | i, .str key :: ts, rules =>
    match ruleHandlers key with
    | none => decodeResultRuleToken i ts rules
    | some handler =>
      match ts with
      | [] => some (rules, [])
      | t :: ts =>
        (setRule i (handler t) rules).bind fun rules => decodeResultRuleToken i ts rules
  | _, _ :: ts, rules => some (rules, ts)

/-- `decodeResultRules`. Its loop ends with the first list. -/
def decodeResultRules (ts : List Token) (r : Result) : Option (Result × List Token) :=
  match ts with
  | [] => some (r, [])
  | .delim _ :: ts =>
    (decodeResultRuleToken 0 ts r.rules).map fun (rules, ts) => ({ r with rules := rules }, ts)
  | _ :: ts => some (r, ts)

/-! ### Other parts of a result -/

/-- The loop over a list of strings. -/
def decodeResultStrings (add : String → Result → Result) : List Token → Result → Result × List Token
  | [], r => (r, [])
  | .delim .openArray :: ts, r => decodeResultStrings add ts r
  | .delim _ :: ts, r => (r, ts)
  | .str v :: ts, r => decodeResultStrings add ts (add v r)
  | _ :: ts, r => decodeResultStrings add ts r

/-- The record type of PTR, A and AAAA records. -/
def typePTR : Nat := 12
def typeA : Nat := 1
def typeAAAA : Nat := 28

/-- Adds a record to those of its type. -/
def addRecord (rrType : Nat) (value : Json) : List (Nat × List Json) → List (Nat × List Json)
  | [] => [(rrType, [value])]
  | (t, values) :: response =>
    if t = rrType then (t, values ++ [value]) :: response
    else (t, values) :: addRecord rrType value response

/-- `decodeResultReverseHosts`. -/
def decodeResultReverseHosts (env : DecodeEnv) : List Token → Result → Result × List Token :=
  decodeResultStrings fun v r =>
    let rewrite := r.dnsRewriteResult.getD ⟨[], 0⟩
    let response := addRecord typePTR (.str (utf8 (env.fqdn v))) rewrite.response
    { r with dnsRewriteResult := some ⟨response, 0⟩ }

/-- `decodeResultIPList`. -/
def decodeResultIPList : List Token → Result → Result × List Token :=
  decodeResultStrings fun v r =>
    match parseAddr v with
    | some ip => { r with ipList := r.ipList ++ [ip] }
    | none => r

/-- The number of open brackets after a token. -/
def depthAfter (depth : Nat) : Token → Nat
  | .delim .openArray | .delim .openObject => depth + 1
  | .delim .closeArray | .delim .closeObject => depth - 1
  | _ => depth

/-- The tokens of the value at the start, inside of so many brackets, and those behind it. -/
def takeValue : Nat → List Token → List Token × List Token
  | _, [] => ([], [])
  | depth, t :: ts =>
    if depthAfter depth t = 0 then ([t], ts)
    else
      let (value, rest) := takeValue (depthAfter depth t) ts
      (t :: value, rest)

theorem length_takeValue (depth : Nat) (ts : List Token) :
    (takeValue depth ts).2.length ≤ ts.length := by
  induction ts generalizing depth with
  | nil => exact Nat.le_refl _
  | cons t ts ih =>
    rw [takeValue]
    split
    · exact Nat.le_succ _
    · exact Nat.le_trans (ih _) (Nat.le_succ _)

/-- `decodeResultDNSRewriteResult` with `decodeResultDNSRewriteResultKey`. -/
def decodeResultDNSRewriteResult (env : DecodeEnv) (ts : List Token) (r : Result) :
    Result × List Token :=
  let rewrite := r.dnsRewriteResult.getD ⟨[], 0⟩
  match ts with
  | [] => (r, [])
  | .delim .closeObject :: ts => (r, ts)
  | .delim _ :: ts => decodeResultDNSRewriteResult env ts r
  | .str key :: ts =>
    if key = "RCode" then
      match ts with
      | [] => (r, [])
      | .num n :: ts =>
        decodeResultDNSRewriteResult env ts
          { r with dnsRewriteResult := some { rewrite with rCode := int64Value n } }
      | _ :: ts => decodeResultDNSRewriteResult env ts { r with dnsRewriteResult := some rewrite }
    else if key = "Response" then
      let response := env.decodeResponse (takeValue 0 ts).1 rewrite.response
      have := length_takeValue 0 ts
      decodeResultDNSRewriteResult env (takeValue 0 ts).2
        { r with dnsRewriteResult := some { rewrite with response := response } }
    else decodeResultDNSRewriteResult env ts r
  | _ :: ts => (r, ts)
termination_by ts.length

/-- `RewrittenAutoHosts`. -/
def rewrittenAutoHosts : Int64 := 10

/-- `translateResult`. -/
def translateResult (r : Result) : Result :=
  if r.reason ≠ rewrittenAutoHosts ∨ r.ipList = [] then r
  else
    let rewrite := r.dnsRewriteResult.getD ⟨[], 0⟩
    let response := r.ipList.foldl
      (fun response ip => addRecord (if ip.is4 then typeA else typeAAAA) (addrJSON ip) response)
      rewrite.response
    { r with dnsRewriteResult := some { rewrite with response := response }, ipList := [] }

/-! ### Results -/

/-- The change to the last rule by a key of a result, which had a single rule once. -/
def setLastRule (f : ResultRule → ResultRule) (r : Result) : Result :=
  let rules := if r.rules = [] then [ResultRule.empty] else r.rules
  { r with rules := rules.modify (rules.length - 1) f }

/-- `resultHandlers`. -/
def resultHandlers (key : String) : Option (Handler Result) :=
  if key = "IsFiltered" then some (boolHandler fun v r => { r with isFiltered := v })
  else if key = "Rule" then
    some (stringHandler fun v => setLastRule fun rule => { rule with text := v })
  else if key = "FilterID" then
    some (numberHandler fun v => setLastRule fun rule => { rule with filterListID := v })
  else if key = "Reason" then some (numberHandler fun v r => { r with reason := v })
  else if key = "ServiceName" then some (stringHandler fun v r => { r with serviceName := v })
  else if key = "CanonName" then some (stringHandler fun v r => { r with canonName := v })
  else none

/-- `resultDecHandler`: the decoders of keys whose value is not a single token. -/
def resultDecHandler (env : DecodeEnv) (key : String) :
    Option (List Token → Result → Option (Result × List Token)) :=
  if key = "ReverseHosts" then some fun ts r => some (decodeResultReverseHosts env ts r)
  else if key = "IPList" then some fun ts r => some (decodeResultIPList ts r)
  else if key = "Rules" then some decodeResultRules
  else if key = "DNSRewriteResult" then
    some fun ts r => some (decodeResultDNSRewriteResult env ts r)
  else none

theorem length_decodeResultRuleToken {i : Nat} {ts rest : List Token}
    {rules rules' : List ResultRule}
    (done : decodeResultRuleToken i ts rules = some (rules', rest)) : rest.length ≤ ts.length := by
  fun_induction decodeResultRuleToken i ts rules with
  | case1 | case3 | case8 =>
    cases done
    simp
  | case2 _ _ _ ih | case4 _ _ _ _ _ _ ih | case5 _ _ _ _ _ ih => exact Nat.le_succ_of_le (ih done)
  | case6 =>
    cases done
    exact Nat.zero_le _
  | case7 i key rules handler found t ts ih =>
    obtain ⟨changed, -, done⟩ := Option.bind_eq_some_iff.mp done
    exact Nat.le_succ_of_le (Nat.le_succ_of_le (ih changed done))

theorem length_decodeResultRules {ts rest : List Token} {r r' : Result}
    (done : decodeResultRules ts r = some (r', rest)) : rest.length ≤ ts.length := by
  unfold decodeResultRules at done
  split at done
  · cases done
    exact Nat.le_refl _
  · obtain ⟨⟨rules, ts'⟩, rule, eq⟩ := Option.map_eq_some_iff.mp done
    cases eq
    exact Nat.le_succ_of_le (length_decodeResultRuleToken rule)
  · cases done
    exact Nat.le_succ _

theorem length_decodeResultStrings (add : String → Result → Result) (ts : List Token) (r : Result) :
    (decodeResultStrings add ts r).2.length ≤ ts.length := by
  fun_induction decodeResultStrings add ts r with
  | case1 => exact Nat.le_refl _
  | case2 ts r ih => exact Nat.le_succ_of_le ih
  | case3 => exact Nat.le_succ _
  | case4 v ts r ih => exact Nat.le_succ_of_le ih
  | case5 t ts r _ _ _ ih => exact Nat.le_succ_of_le ih

theorem length_decodeResultDNSRewriteResult (env : DecodeEnv) (ts : List Token) (r : Result) :
    (decodeResultDNSRewriteResult env ts r).2.length ≤ ts.length := by
  fun_induction decodeResultDNSRewriteResult env ts r with
  | case1 => exact Nat.le_refl _
  | case2 => exact Nat.le_succ _
  | case3 _ _ _ _ ih | case8 _ _ _ _ _ ih => exact Nat.le_succ_of_le ih
  | case4 => exact Nat.zero_le _
  | case5 _ _ _ _ ih | case6 _ _ _ _ _ ih => exact Nat.le_succ_of_le (Nat.le_succ_of_le ih)
  | case7 _ _ ts _ value _ ih => exact Nat.le_succ_of_le (Nat.le_trans ih (length_takeValue 0 ts))
  | case9 => exact Nat.le_succ _

/-- A decoder of a part leaves a rest of the tokens. -/
theorem length_resultDecHandler {env : DecodeEnv} {key : String} {ts rest : List Token}
    {r r' : Result} {decode : List Token → Result → Option (Result × List Token)}
    (found : resultDecHandler env key = some decode) (done : decode ts r = some (r', rest)) :
    rest.length ≤ ts.length := by
  have part : ∀ {result : Result × List Token}, result.2.length ≤ ts.length →
      some result = some (r', rest) → rest.length ≤ ts.length := by
    rintro result short eq
    rw [Option.some.inj eq] at short
    exact short
  unfold resultDecHandler at found
  split at found
  · cases found
    exact part (length_decodeResultStrings _ ts r) done
  split at found
  · cases found
    exact part (length_decodeResultStrings _ ts r) done
  split at found
  · cases found
    exact length_decodeResultRules done
  split at found
  · cases found
    exact part (length_decodeResultDNSRewriteResult env ts r) done
  · cases found

/-- The loop of `decodeResult`. -/
def decodeResultLoop (env : DecodeEnv) (ts : List Token) (r : Result) :
    Option (Result × List Token) :=
  match ts with
  | [] => some (r, [])
  | .delim .closeObject :: ts => some (r, ts)
  | .delim _ :: ts => decodeResultLoop env ts r
  | .str key :: ts =>
    if key = "" then decodeResultLoop env ts r
    else
      match found : resultDecHandler env key with
      | some decode =>
        match done : decode ts r with
        | none => none
        | some (r, rest) =>
          have := length_resultDecHandler found done
          decodeResultLoop env rest r
      | none =>
        match resultHandlers key with
        | none => decodeResultLoop env ts r
        | some handler =>
          match ts with
          | [] => some (r, [])
          | val :: ts =>
            if (handler val r).2 then decodeResultLoop env ts (handler val r).1
            else some ((handler val r).1, ts)
  | _ :: ts => some (r, ts)
termination_by ts.length

/-- `decodeResult`. -/
def decodeResult (env : DecodeEnv) (ts : List Token) (r : Result) : Option (Result × List Token) :=
  (decodeResultLoop env ts r).map fun (r, rest) => (translateResult r, rest)

theorem length_decodeResultLoop {env : DecodeEnv} {ts rest : List Token} {r r' : Result}
    (done : decodeResultLoop env ts r = some (r', rest)) : rest.length ≤ ts.length := by
  fun_induction decodeResultLoop env ts r with
  | case1 | case8 =>
    cases done
    exact Nat.zero_le _
  | case2 | case11 =>
    cases done
    exact Nat.le_succ _
  | case3 _ _ _ _ ih | case4 _ _ ih | case7 _ _ _ _ _ _ ih => exact Nat.le_succ_of_le (ih done)
  | case5 => cases done
  | case6 _ _ _ _ _ _ _ _ _ shorter ih => exact Nat.le_succ_of_le (Nat.le_trans (ih done) shorter)
  | case9 _ _ _ _ _ _ _ _ _ ih => exact Nat.le_succ_of_le (Nat.le_succ_of_le (ih done))
  | case10 =>
    cases done
    exact Nat.le_succ_of_le (Nat.le_succ _)

theorem length_decodeResult {env : DecodeEnv} {ts rest : List Token} {r r' : Result}
    (done : decodeResult env ts r = some (r', rest)) : rest.length ≤ ts.length := by
  obtain ⟨⟨r, ts'⟩, loop, eq⟩ := Option.map_eq_some_iff.mp done
  cases eq
  exact length_decodeResultLoop loop

/-! ### Entries -/

/-- The loop of `decodeLogEntry`. -/
def decodeTokens (env : DecodeEnv) (ts : List Token) (ent : LogEntry) : Option LogEntry :=
  match ts with
  | [] => some ent
  | .delim _ :: ts => decodeTokens env ts ent
  | .str key :: ts =>
    if key = "Result" then
      match done : decodeResult env ts ent.result with
      | none => none
      | some (result, rest) =>
        have := length_decodeResult done
        decodeTokens env rest { ent with result := result }
    else
      match logEntryHandlers key with
      | none => decodeTokens env ts ent
      | some handler =>
        match ts with
        | [] => some ent
        | val :: ts =>
          if (handler val ent).2 then decodeTokens env ts (handler val ent).1
          else some (handler val ent).1
  | _ :: _ => some ent
termination_by ts.length

/-- `decodeLogEntry`, to an empty entry. -/
def decodeLogEntry (env : DecodeEnv) (line : GoString) : Option LogEntry :=
  decodeTokens env (Json.tokens 0 .topValue [] line) .empty

end FirewallCore.Querylog.File
