import FirewallCore.Querylog.Decode

/-!
What is decoded from the line of an entry.

The decoder meets the fields of an entry in the order in which they are written, and every
field that is left out has the value that the decoder starts with. What differs after the
round trip is the form of the IP address, strings that are not valid UTF-8, addresses in a
result that are not valid, and what `translateResult` and `Decode` make of rewrites.
-/

namespace FirewallCore.Querylog.File

open FirewallCore.Lib FirewallCore.Net
open FirewallCore.Lib.Json (Token Delim toksMembers toksItems parseInt64 int64Value)

/-! ### What is restored -/

/-- A string as it is decoded. -/
def coerced (s : GoString) : GoString := utf8 (coerce s)

/-- A rule as it is decoded. -/
def ResultRule.restored (r : ResultRule) : ResultRule := { r with text := coerced r.text }

/-- A rewrite as it is decoded; an empty one is no rewrite. -/
def DNSRewriteResult.restored (env : DecodeEnv) (r : DNSRewriteResult) : Option DNSRewriteResult :=
  if r.response = [] ∧ r.rCode = 0 then none
  else some
    { response :=
        if r.response = [] then []
        else env.decodeResponse
          (Json.obj (r.response.map fun (rrType, values) =>
            (Json.natText rrType, .arr values))).toks []
      rCode := r.rCode }

/-- A result as it is decoded. -/
def Result.restored (env : DecodeEnv) (r : Result) : Result :=
  translateResult
    { dnsRewriteResult := r.dnsRewriteResult.bind (·.restored env)
      canonName := coerced r.canonName
      serviceName := coerced r.serviceName
      ipList := r.ipList.filter (·.isValid)
      rules := r.rules.map ResultRule.restored
      reason := r.reason
      isFiltered := r.isFiltered }

/-- An entry as it is decoded. -/
def LogEntry.restored (env : DecodeEnv) (e : LogEntry) : LogEntry :=
  { e with
    qHost := coerced e.qHost
    qType := coerced e.qType
    qClass := coerced e.qClass
    reqECS := coerced e.reqECS
    clientID := coerced e.clientID
    upstream := coerced e.upstream
    ip := e.ip.canonical
    result := e.result.restored env }

theorem coerced_nil : coerced [] = [] := by
  decide

/-! ### Reading fields one after another -/

/-- A decoder reads these members and goes on behind them with another value. -/
def Reads {α β : Type} (decode : List Token → α → β) (members : Members) (a a' : α) : Prop :=
  ∀ ts, decode (toksMembers members ++ ts) a = decode ts a'

section Reads

variable {α β : Type} {decode : List Token → α → β} {a b c : α}

theorem Reads.append {members more : Members} (first : Reads decode members a b)
    (second : Reads decode more b c) : Reads decode (members ++ more) a c := by
  intro ts
  rw [Json.toksMembers_append, List.append_assoc, first, second]

theorem Reads.omit {empty : Bool} {name : String} {value : Json} (left : empty = true → b = a)
    (read : empty = false → Reads decode (field name value) a b) :
    Reads decode (omitEmpty empty name value) a b := by
  cases empty with
  | true =>
    rw [left rfl]
    intro ts
    rfl
  | false => exact read rfl

/-- A string that is left out when it is empty. -/
theorem Reads.omitString {set : GoString → α → α} {name : String} {s : GoString}
    (same : set [] a = a) (read : Reads decode (field name (.str s)) a (set (coerced s) a)) :
    Reads decode (omitString name s) a (set (coerced s) a) := by
  apply Reads.omit
  · intro empty
    rw [List.isEmpty_iff.mp empty, coerced_nil, same]
  · intro _
    exact read

theorem toks_field (name : String) (value : Json) :
    toksMembers (field name value) = .str name :: value.toks := by
  rw [field, toksMembers, coerce_utf8, toksMembers, List.append_nil]

end Reads

/-! ### Fields of an entry -/

section Entry

variable {env : DecodeEnv} {ent : LogEntry} {name : String}

theorem decodeTokens_field {handler : Handler LogEntry} {t : Token} {ent' : LogEntry} {value : Json}
    (other : name ≠ "Result") (found : logEntryHandlers name = some handler)
    (token : value.toks = [t]) (handled : handler t ent = (ent', true)) :
    Reads (decodeTokens env) (field name value) ent ent' := by
  intro ts
  rw [toks_field, token, List.cons_append, List.cons_append, List.nil_append, decodeTokens,
    if_neg other, found]
  simp only [handled, if_true]

theorem read_string {set : GoString → LogEntry → LogEntry} (s : GoString) (other : name ≠ "Result")
    (found : logEntryHandlers name = some (stringHandler set)) :
    Reads (decodeTokens env) (field name (.str s)) ent (set (coerced s) ent) :=
  decodeTokens_field other found (by rw [Json.toks]) rfl

theorem read_omitString {set : GoString → LogEntry → LogEntry} (s : GoString)
    (other : name ≠ "Result") (found : logEntryHandlers name = some (stringHandler set))
    (same : set [] ent = ent) :
    Reads (decodeTokens env) (omitString name s) ent (set (coerced s) ent) :=
  Reads.omitString same (read_string s other found)

theorem read_omitBytes {set : List UInt8 → LogEntry → LogEntry} (bytes : List UInt8)
    (other : name ≠ "Result") (found : logEntryHandlers name = some (base64Handler set))
    (same : set [] ent = ent) :
    Reads (decodeTokens env) (omitBytes name bytes) ent (set bytes ent) := by
  apply Reads.omit
  · intro empty
    rw [List.isEmpty_iff.mp empty, same]
  · intro _
    apply decodeTokens_field other found (by rw [Json.toks])
    obtain ⟨text, eq⟩ := exists_utf8_ascii fun b member => (Base64.encode_bytes bytes b member).2.2
    simp only [base64Handler]
    rw [eq, coerce_utf8, ← eq, Base64.decode_encode]

theorem read_omitBool {set : Bool → LogEntry → LogEntry} (b : Bool) (other : name ≠ "Result")
    (found : logEntryHandlers name = some (boolHandler set)) (same : set false ent = ent) :
    Reads (decodeTokens env) (omitBool name b) ent (set b ent) := by
  apply Reads.omit
  · intro empty
    cases b with
    | false => exact same
    | true => cases empty
  · intro _
    exact decodeTokens_field other found (by rw [Json.toks]) rfl

theorem read_number {set : Int64 → LogEntry → LogEntry} (n : Int64) (other : name ≠ "Result")
    (found : logEntryHandlers name = some (numberHandler set)) :
    Reads (decodeTokens env) (field name (.num n.toInt)) ent (set n ent) := by
  apply decodeTokens_field other found (by rw [Json.toks])
  simp only [numberHandler, Json.parseInt64_intText]

end Entry

/-! ### Rules -/

section Rules

variable {i : Nat} {ts : List Token} {rules : List ResultRule}

theorem modify_concat {α : Type} (f : α → α) (l : List α) (x : α) :
    (l ++ [x]).modify l.length f = l ++ [f x] := by
  induction l with
  | nil => rfl
  | cons y l ih =>
    rw [List.cons_append, List.length_cons, List.modify_succ_cons, ih, List.cons_append]

/-- The rules after a value of the one with the next index, of which this much is read. -/
theorem setRule_next (change : Option (ResultRule → ResultRule)) {begun : List ResultRule}
    (next : rules.length = i) (one : begun = [] ∨ ∃ rule, begun = [rule]) :
    setRule i change (rules ++ begun) =
      some (rules ++ [(change.getD id) (begun.headD .empty)]) := by
  have added : addRule i (rules ++ begun) = rules ++ [begun.headD .empty] := by
    unfold addRule
    rcases one with rfl | ⟨rule, rfl⟩
    · rw [List.append_nil, if_pos (by omega)]
      rfl
    · rw [if_neg (by simp [next])]
      rfl
  unfold setRule
  rw [added]
  cases change with
  | none => rfl
  | some f =>
    dsimp only
    rw [if_pos (by simp [next]), ← next, modify_concat]
    rfl

theorem addrJSON_token (ip : Addr) :
    ∃ text, (addrJSON ip).toks = [.str text] ∧
      parseAddr text = if ip.isValid then some ip else none := by
  have written : ∀ text, (Json.str (utf8 text)).toks = [.str text] := by
    intro text
    rw [Json.toks, coerce_utf8]
  cases ip with
  | zero => exact ⟨"", written "", by decide⟩
  | v4 n => exact ⟨_, written (Addr.v4 n).string, parseAddr_string rfl⟩
  | v6 n zone => exact ⟨_, written (Addr.v6 n zone).string, parseAddr_string rfl⟩

theorem read_ruleField {name : String} (value : Json) {t : Token} (begun : List ResultRule)
    {handler : Token → Option (ResultRule → ResultRule)} (found : ruleHandlers name = some handler)
    (token : value.toks = [t]) (next : rules.length = i)
    (one : begun = [] ∨ ∃ rule, begun = [rule]) :
    Reads (decodeResultRuleToken i) (field name value) (rules ++ begun)
      (rules ++ [((handler t).getD id) (begun.headD .empty)]) := by
  intro ts
  rw [toks_field, token, List.cons_append, List.cons_append, List.nil_append, decodeResultRuleToken,
    found]
  dsimp only
  rw [setRule_next _ next one, Option.bind_some]

theorem read_rule (rule : ResultRule) (next : rules.length = i) (ts : List Token) :
    decodeResultRuleToken i (rule.toJSON.toks ++ ts) rules =
      decodeResultRuleToken (i + 1) ts (rules ++ [rule.restored]) := by
  -- what is read of the rule before its address
  obtain ⟨begun, one, text, head⟩ : ∃ begun : List ResultRule,
      (begun = [] ∨ ∃ rule, begun = [rule]) ∧
      Reads (decodeResultRuleToken i) (omitString "Text" rule.text) rules (rules ++ begun) ∧
      begun.headD .empty = { ResultRule.empty with text := coerced rule.text } := by
    unfold omitString omitEmpty
    split
    · rename_i empty
      refine ⟨[], .inl rfl, ?_, ?_⟩
      · intro ts
        rw [List.append_nil]
        rfl
      · rw [List.isEmpty_iff.mp empty, coerced_nil]
        rfl
    · refine ⟨[{ ResultRule.empty with text := coerced rule.text }], .inr ⟨_, rfl⟩, ?_, rfl⟩
      have := read_ruleField (.str rule.text) [] (rfl : ruleHandlers "Text" = some _)
        (by rw [Json.toks]) next (.inl rfl)
      rwa [List.append_nil] at this
  obtain ⟨addr, token, parsed⟩ := addrJSON_token rule.ip
  have ip : Reads (decodeResultRuleToken i) (field "IP" (addrJSON rule.ip)) (rules ++ begun)
      (rules ++ [{ rule.restored with filterListID := 0 }]) := by
    have read := read_ruleField _ begun (rfl : ruleHandlers "IP" = some _) token next one
    dsimp only at read
    rw [parsed, head] at read
    cases valid : rule.ip.isValid with
    | true =>
      rw [valid] at read
      exact read
    | false =>
      have zero : rule.ip = .zero := by
        cases rule_ip : rule.ip with
        | zero => rfl
        | v4 n => rw [rule_ip] at valid; cases valid
        | v6 n zone => rw [rule_ip] at valid; cases valid
      rw [valid] at read
      have restored : { rule.restored with filterListID := 0 } =
          { ResultRule.empty with text := coerced rule.text } := by
        rw [ResultRule.restored, zero]
        rfl
      rw [restored]
      exact read
  have id : Reads (decodeResultRuleToken i) (omitNumber "FilterListID" rule.filterListID)
      (rules ++ [{ rule.restored with filterListID := 0 }]) (rules ++ [rule.restored]) := by
    apply Reads.omit
    · intro zero
      have : rule.filterListID = 0 := by simpa using zero
      rw [ResultRule.restored, this]
    · intro _
      have read := read_ruleField (.num rule.filterListID.toInt)
        [{ rule.restored with filterListID := 0 }] (rfl : ruleHandlers "FilterListID" = some _)
        (by rw [Json.toks]) next (.inr ⟨_, rfl⟩)
      dsimp only at read
      rw [Json.int64Value_intText] at read
      exact read
  have whole := (text.append ip).append id
  have opened : ∀ ts, decodeResultRuleToken i (.delim .openObject :: ts) rules =
      decodeResultRuleToken i ts rules := fun _ => rfl
  rw [ResultRule.toJSON, Json.toks, List.append_assoc, List.cons_append, opened, whole]
  rfl

/-- The list of rules. -/
theorem read_rules (later : List ResultRule) (next : rules.length = i) (ts : List Token) :
    decodeResultRuleToken i
      (toksItems (later.map ResultRule.toJSON) ++ .delim .closeArray :: ts) rules =
      some (rules ++ later.map ResultRule.restored, ts) := by
  induction later generalizing i rules with
  | nil =>
    rw [List.map_nil, List.map_nil, List.append_nil]
    rfl
  | cons rule later ih =>
    rw [List.map_cons, toksItems, List.append_assoc, read_rule rule next, ih (by simp [next]),
      List.append_assoc]
    rfl

end Rules

/-! ### Other parts of a result -/

section Parts

variable {env : DecodeEnv} {ts : List Token}

theorem read_ipList (ips : List Addr) (r : Result) :
    decodeResultIPList
      (.delim .openArray :: toksItems (ips.map addrJSON) ++ .delim .closeArray :: ts) r =
      ({ r with ipList := r.ipList ++ ips.filter (·.isValid) }, ts) := by
  have items : ∀ r : Result,
      decodeResultIPList (toksItems (ips.map addrJSON) ++ .delim .closeArray :: ts) r =
      ({ r with ipList := r.ipList ++ ips.filter (·.isValid) }, ts) := by
    induction ips with
    | nil =>
      intro r
      rw [List.filter_nil, List.append_nil]
      rfl
    | cons ip ips ih =>
      intro r
      obtain ⟨text, token, parsed⟩ := addrJSON_token ip
      rw [List.map_cons, toksItems, token, List.cons_append, List.nil_append, List.cons_append,
        decodeResultIPList, decodeResultStrings, ← decodeResultIPList, ih, parsed]
      cases valid : ip.isValid with
      | true => simp [valid]
      | false => simp [valid]
  exact items r

end Parts

/-- The rest of a value that is open in so many brackets, and what is behind it. -/
def restOf (depth : Nat) (ts : List Token) : List Token × List Token :=
  if depth = 0 then ([], ts) else takeValue depth ts

theorem takeValue_cons (t : Token) (depth : Nat) (ts : List Token) :
    takeValue depth (t :: ts) =
      (t :: (restOf (depthAfter depth t) ts).1, (restOf (depthAfter depth t) ts).2) := by
  rw [takeValue, restOf]
  split <;> rfl

mutual
/-- The tokens of a value are taken together. -/
theorem takeValue_toks (j : Json) (depth : Nat) (ts : List Token) :
    takeValue depth (j.toks ++ ts) = (j.toks ++ (restOf depth ts).1, (restOf depth ts).2) := by
  match j with
  | .null | .bool _ | .num _ | .str _ =>
    simp only [Json.toks, List.cons_append, List.nil_append]
    exact takeValue_cons _ depth ts
  | .arr items =>
    have inside := takeItems_toks items depth (.delim .closeArray :: ts)
    simp only [Json.toks, List.cons_append, List.append_assoc, List.nil_append, takeValue_cons]
    rw [depthAfter, restOf, if_neg (Nat.succ_ne_zero depth), inside, takeValue_cons]
    rfl
  | .obj members =>
    have inside := takeMembers_toks members depth (.delim .closeObject :: ts)
    simp only [Json.toks, List.cons_append, List.append_assoc, List.nil_append, takeValue_cons]
    rw [depthAfter, restOf, if_neg (Nat.succ_ne_zero depth), inside, takeValue_cons]
    rfl

theorem takeItems_toks (items : List Json) (depth : Nat) (ts : List Token) :
    takeValue (depth + 1) (toksItems items ++ ts) =
      (toksItems items ++ (takeValue (depth + 1) ts).1, (takeValue (depth + 1) ts).2) := by
  match items with
  | [] => rfl
  | j :: items =>
    rw [toksItems, List.append_assoc, takeValue_toks j, restOf, if_neg (Nat.succ_ne_zero depth),
      takeItems_toks items depth ts, List.append_assoc]

theorem takeMembers_toks (members : Members) (depth : Nat) (ts : List Token) :
    takeValue (depth + 1) (toksMembers members ++ ts) =
      (toksMembers members ++ (takeValue (depth + 1) ts).1, (takeValue (depth + 1) ts).2) := by
  match members with
  | [] => rfl
  | (key, j) :: members =>
    have same : depthAfter (depth + 1) (.str (coerce key)) = depth + 1 := rfl
    rw [toksMembers, List.append_assoc, List.cons_append, takeValue_cons, same, restOf,
      if_neg (Nat.succ_ne_zero depth), takeValue_toks j, restOf, if_neg (Nat.succ_ne_zero depth),
      takeMembers_toks members depth ts]
    simp
end

theorem takeValue_value (j : Json) (ts : List Token) :
    takeValue 0 (j.toks ++ ts) = (j.toks, ts) := by
  rw [takeValue_toks, restOf, if_pos rfl, List.append_nil]

section Rewrites

variable {env : DecodeEnv} {r : Result}

theorem read_response (env : DecodeEnv) (value : Json) :
    Reads (decodeResultDNSRewriteResult env) (field "Response" value) r
      { r with dnsRewriteResult := some { r.dnsRewriteResult.getD ⟨[], 0⟩ with
          response := env.decodeResponse value.toks
            (r.dnsRewriteResult.getD ⟨[], 0⟩).response } } := by
  intro ts
  rw [toks_field, List.cons_append, decodeResultDNSRewriteResult.eq_def]
  dsimp only
  rw [if_neg (by decide), if_pos rfl, takeValue_value]

theorem read_rCode (n : Int64) :
    Reads (decodeResultDNSRewriteResult env) (field "RCode" (.num n.toInt)) r
      { r with dnsRewriteResult := some { r.dnsRewriteResult.getD ⟨[], 0⟩ with rCode := n } } := by
  intro ts
  rw [toks_field, Json.toks, List.cons_append, List.cons_append, List.nil_append,
    decodeResultDNSRewriteResult, if_pos rfl]
  dsimp only
  rw [Json.int64Value_intText]

/-- A rewrite, for a result without one. -/
theorem read_rewrite (rewrite : DNSRewriteResult) (fresh : r.dnsRewriteResult = none)
    (ts : List Token) :
    decodeResultDNSRewriteResult env (rewrite.toJSON.toks ++ ts) r =
      ({ r with dnsRewriteResult := rewrite.restored env }, ts) := by
  have opened : ∀ ts, decodeResultDNSRewriteResult env (.delim .openObject :: ts) r =
      decodeResultDNSRewriteResult env ts r := by
    intro ts
    rw [decodeResultDNSRewriteResult]
    rintro ⟨⟩
  have closed : ∀ r', decodeResultDNSRewriteResult env (.delim .closeObject :: ts) r' =
      (r', ts) := by
    intro r'
    rw [decodeResultDNSRewriteResult]
  rw [DNSRewriteResult.toJSON, Json.toks, List.append_assoc, List.cons_append, opened,
    DNSRewriteResult.restored]
  have response : Reads (decodeResultDNSRewriteResult env)
      (omitEmpty rewrite.response.isEmpty "Response"
        (.obj (rewrite.response.map fun (rrType, values) =>
        (Json.natText rrType, .arr values)))) r
      { r with
        dnsRewriteResult := ({ rewrite with rCode := 0 } : DNSRewriteResult).restored env } := by
    apply Reads.omit
    · intro empty
      rw [DNSRewriteResult.restored, if_pos ⟨List.isEmpty_iff.mp empty, rfl⟩, ← fresh]
    · intro some'
      have any : rewrite.response ≠ [] := by
        intro none
        rw [none] at some'
        cases some'
      have read := read_response (r := r) env
        (.obj (rewrite.response.map fun (rrType, values) => (Json.natText rrType, .arr values)))
      rw [fresh] at read
      rw [DNSRewriteResult.restored, if_neg (fun h => any h.1), if_neg any]
      exact read
  have rCode : Reads (decodeResultDNSRewriteResult env) (omitNumber "RCode" rewrite.rCode)
      { r with dnsRewriteResult := ({ rewrite with rCode := 0 } : DNSRewriteResult).restored env }
      { r with dnsRewriteResult := rewrite.restored env } := by
    apply Reads.omit
    · intro empty
      have zero : rewrite.rCode = 0 := by simpa using empty
      rw [← zero]
    · intro some'
      have any : rewrite.rCode ≠ 0 := by simpa using some'
      have combined :
          some { (({ rewrite with rCode := 0 } : DNSRewriteResult).restored env).getD ⟨[], 0⟩ with
            rCode := rewrite.rCode } = rewrite.restored env := by
        by_cases none : rewrite.response = []
        · simp [DNSRewriteResult.restored, none, any]
        · simp [DNSRewriteResult.restored, none]
      rw [← combined]
      exact read_rCode rewrite.rCode
  have whole := response.append rCode
  rw [whole]
  exact closed _

end Rewrites

/-! ### A result -/

section Results

variable {env : DecodeEnv} {r : Result} {name : String}

theorem decodeResultLoop_field {handler : Handler Result} {t : Token} {r' : Result} {value : Json}
    (named : name ≠ "") (single : resultDecHandler env name = none)
    (found : resultHandlers name = some handler) (token : value.toks = [t])
    (handled : handler t r = (r', true)) :
    Reads (decodeResultLoop env) (field name value) r r' := by
  intro ts
  rw [toks_field, token, List.cons_append, List.cons_append, List.nil_append,
    decodeResultLoop.eq_def]
  dsimp only
  rw [if_neg named]
  split
  · rename_i decode this
    rw [single] at this
    cases this
  · rw [found]
    simp only [handled, if_true]

theorem decodeResultLoop_part {decode : List Token → Result → Option (Result × List Token)}
    {r' : Result} {value : Json} (named : name ≠ "")
    (found : resultDecHandler env name = some decode)
    (decoded : ∀ ts, decode (value.toks ++ ts) r = some (r', ts)) :
    Reads (decodeResultLoop env) (field name value) r r' := by
  intro ts
  rw [toks_field, List.cons_append, decodeResultLoop.eq_def]
  dsimp only
  rw [if_neg named]
  split
  · rename_i decode' this
    rw [found] at this
    cases this
    split
    · rename_i bad
      rw [decoded ts] at bad
      cases bad
    · rename_i r'' rest good
      rw [decoded ts] at good
      cases good
      rfl
  · rename_i this
    rw [found] at this
    cases this

theorem read_resultString {set : GoString → Result → Result} (s : GoString) (named : name ≠ "")
    (single : resultDecHandler env name = none)
    (found : resultHandlers name = some (stringHandler set)) (same : set [] r = r) :
    Reads (decodeResultLoop env) (omitString name s) r (set (coerced s) r) :=
  Reads.omitString same (decodeResultLoop_field named single found (by rw [Json.toks]) rfl)

theorem read_ips (ips : List Addr) (fresh : r.ipList = []) :
    Reads (decodeResultLoop env) (omitEmpty ips.isEmpty "IPList" (.arr (ips.map addrJSON))) r
      { r with ipList := ips.filter (·.isValid) } := by
  apply Reads.omit
  · intro empty
    rw [List.isEmpty_iff.mp empty, List.filter_nil, ← fresh]
  · intro _
    apply decodeResultLoop_part (by decide) (rfl : resultDecHandler env "IPList" = some _)
    intro ts
    have read := @read_ipList ts ips r
    rw [fresh, List.nil_append] at read
    rw [Json.toks, List.append_assoc]
    exact congrArg some read

theorem read_resultRules (rules : List ResultRule) (fresh : r.rules = []) :
    Reads (decodeResultLoop env) (omitEmpty rules.isEmpty "Rules"
      (.arr (rules.map ResultRule.toJSON))) r
      { r with rules := rules.map ResultRule.restored } := by
  apply Reads.omit
  · intro empty
    rw [List.isEmpty_iff.mp empty, List.map_nil, ← fresh]
  · intro _
    apply decodeResultLoop_part (by decide) (rfl : resultDecHandler env "Rules" = some _)
    intro ts
    have read := read_rules rules (rfl : ([] : List ResultRule).length = 0) ts
    rw [Json.toks, List.append_assoc, List.cons_append, decodeResultRules, fresh]
    exact congrArg _ read

theorem read_reason (reason : Int64) (fresh : r.reason = 0) :
    Reads (decodeResultLoop env) (omitNumber "Reason" reason) r { r with reason := reason } := by
  apply Reads.omit
  · intro empty
    have zero : reason = 0 := by simpa using empty
    rw [zero, ← fresh]
  · intro _
    apply decodeResultLoop_field (by decide) rfl (rfl : resultHandlers "Reason" = some _)
      (by rw [Json.toks])
    simp only [numberHandler, Json.parseInt64_intText]

theorem read_isFiltered (b : Bool) (fresh : r.isFiltered = false) :
    Reads (decodeResultLoop env) (omitBool "IsFiltered" b) r { r with isFiltered := b } := by
  apply Reads.omit
  · intro empty
    cases b with
    | false => rw [← fresh]
    | true => cases empty
  · intro _
    exact decodeResultLoop_field (by decide) rfl (rfl : resultHandlers "IsFiltered" = some _)
      (by rw [Json.toks]) rfl

/-- The fields of a result, and what `translateResult` does with them. -/
theorem read_result (result : Result) (ts : List Token) :
    decodeResult env (result.toJSON.toks ++ ts) .empty = some (result.restored env, ts) := by
  have rewrite : Reads (decodeResultLoop env)
      (omitRewrite "DNSRewriteResult" result.dnsRewriteResult) .empty
      { Result.empty with dnsRewriteResult := result.dnsRewriteResult.bind (·.restored env) } := by
    cases result.dnsRewriteResult with
    | none => intro ts; rfl
    | some rewrite =>
      apply decodeResultLoop_part (by decide)
        (rfl : resultDecHandler env "DNSRewriteResult" = some _)
      intro ts
      exact congrArg some (read_rewrite rewrite rfl ts)
  have canonName := rewrite.append (read_resultString result.canonName (by decide) rfl
    (rfl : resultHandlers "CanonName" = some _) rfl)
  have serviceName := canonName.append (read_resultString result.serviceName (by decide) rfl
    (rfl : resultHandlers "ServiceName" = some _) rfl)
  have ipList := serviceName.append (read_ips result.ipList rfl)
  have rules := ipList.append (read_resultRules result.rules rfl)
  have reason := rules.append (read_reason result.reason rfl)
  have whole := reason.append (read_isFiltered result.isFiltered rfl)
  have opened : ∀ ts, decodeResultLoop env (.delim .openObject :: ts) .empty =
      decodeResultLoop env ts .empty := by
    intro ts
    rw [decodeResultLoop]
    rintro ⟨⟩
  have closed : ∀ r', decodeResultLoop env (.delim .closeObject :: ts) r' = some (r', ts) := by
    intro r'
    rw [decodeResultLoop]
  rw [decodeResult, Result.toJSON, Json.toks, List.append_assoc, List.cons_append, opened, whole,
    List.cons_append, List.nil_append, closed]
  rfl

end Results

/-! ### An entry -/

section Whole

variable {env : DecodeEnv} {ent : LogEntry}

theorem parse_marshal {t : Time} {text : String} (done : t.marshal = some text) :
    Time.parse text = some t := by
  unfold Time.marshal at done
  dsimp only at done
  split at done
  · rename_i year
    rw [← Option.some.inj done, Time.parse, String.toList_ofList,
      Rfc3339.parseNano_formatNano (by decide) year t.small, Option.bind_some]
    exact dif_pos t.small
  · cases done

theorem read_time {t : Time} {text : String} (done : t.marshal = some text) :
    Reads (decodeTokens env) (field "T" (.str (utf8 text))) ent { ent with time := t } := by
  apply decodeTokens_field (by decide) (rfl : logEntryHandlers "T" = some _) (by rw [Json.toks])
  simp only [timeHandler, coerce_utf8, parse_marshal done]

theorem newClientProto_name (proto : ClientProto) : newClientProto proto.name = some proto := by
  cases proto <;> rfl

theorem read_proto (proto : ClientProto) :
    Reads (decodeTokens env) (field "CP" (.str (utf8 proto.name))) ent
      { ent with clientProto := proto } := by
  apply decodeTokens_field (by decide) (rfl : logEntryHandlers "CP" = some _) (by rw [Json.toks])
  simp only [protoHandler, coerce_utf8, newClientProto_name]

theorem read_ip {ip : IP} {text : String} (done : ip.marshalText = some text)
    (fresh : ent.ip = .nil) :
    Reads (decodeTokens env) (field "IP" (.str (utf8 text))) ent
      { ent with ip := ip.canonical } := by
  apply decodeTokens_field (by decide) (rfl : logEntryHandlers "IP" = some _) (by rw [Json.toks])
  have nil : ent.ip.isNil = true := by rw [fresh]; rfl
  simp only [ipHandler, coerce_utf8, nil, if_true, IP.parse_marshalText done]

theorem decodeTokens_result (result : Result) (fresh : ent.result = .empty) :
    Reads (decodeTokens env) (field "Result" result.toJSON) ent
      { ent with result := result.restored env } := by
  intro ts
  have read := @read_result env result ts
  rw [toks_field, List.cons_append, decodeTokens.eq_def]
  dsimp only
  rw [if_pos rfl]
  split
  · rename_i bad
    rw [fresh, read] at bad
    cases bad
  · rename_i r rest good
    rw [fresh, read] at good
    cases good
    rfl

/-- What is decoded from the line of an entry. -/
theorem decodeLogEntry_encode {e : LogEntry} {line : GoString} (done : e.encode = some line) :
    decodeLogEntry env line = some (e.restored env) := by
  obtain ⟨time, ip, timeText, ipText, rfl⟩ := exists_of_encode done
  have t := @read_time env .empty _ _ timeText
  have qh := t.append (read_string e.qHost (by decide) (rfl : logEntryHandlers "QH" = some _))
  have qt := qh.append (read_string e.qType (by decide) (rfl : logEntryHandlers "QT" = some _))
  have qc := qt.append (read_string e.qClass (by decide) (rfl : logEntryHandlers "QC" = some _))
  have ecs := qc.append (read_omitString e.reqECS (by decide)
    (rfl : logEntryHandlers "ECS" = some _) rfl)
  have cid := ecs.append (read_omitString e.clientID (by decide)
    (rfl : logEntryHandlers "CID" = some _) rfl)
  have cp := cid.append (read_proto e.clientProto)
  have upstream := cp.append (read_omitString e.upstream (by decide)
    (rfl : logEntryHandlers "Upstream" = some _) rfl)
  have answer := upstream.append (read_omitBytes e.answer (by decide)
    (rfl : logEntryHandlers "Answer" = some _) rfl)
  have orig := answer.append (read_omitBytes e.origAnswer (by decide)
    (rfl : logEntryHandlers "OrigAnswer" = some _) rfl)
  have addr := orig.append (read_ip ipText rfl)
  have result := addr.append (decodeTokens_result e.result rfl)
  have elapsed := result.append (read_number e.elapsed (by decide)
    (rfl : logEntryHandlers "Elapsed" = some _))
  have cached := elapsed.append (read_omitBool e.cached (by decide)
    (rfl : logEntryHandlers "Cached" = some _) rfl)
  have whole := cached.append (read_omitBool e.authenticatedData (by decide)
    (rfl : logEntryHandlers "AD" = some _) rfl)
  have opened : ∀ ts, decodeTokens env (.delim .openObject :: ts) .empty =
      decodeTokens env ts .empty := by
    intro ts
    rw [decodeTokens]
  have closed : ∀ ent, decodeTokens env [.delim .closeObject] ent = some ent := by
    intro ent
    rw [decodeTokens, decodeTokens]
  rw [decodeLogEntry, Json.tokens_line, Json.toks, List.cons_append, opened, LogEntry.members,
    whole, closed]
  rfl

end Whole

/-! ### Entries that the server adds -/

/-- `Rewritten`. -/
def rewritten : Int64 := 9

/-- What the server keeps to: a clock that shows years of four digits, an address of 4 or 16
bytes, and an address list only with rewritten requests, whose addresses are valid. -/
structure Addable (e : LogEntry) : Prop where
  year : 0 ≤ Rfc3339.localYear 0 e.time.secs ∧ Rfc3339.localYear 0 e.time.secs ≤ 9999
  ip : ∃ addr, addrFromSlice e.ip = some addr
  valid : ∀ ip ∈ e.result.ipList, ip.isValid = true
  listed : e.result.ipList ≠ [] → e.result.reason = rewritten

/-- A string of valid UTF-8. -/
def IsText (s : GoString) : Prop := ∃ t, s = utf8 t

theorem coerced_text {s : GoString} (text : IsText s) : coerced s = s := by
  obtain ⟨t, rfl⟩ := text
  rw [coerced, coerce_utf8]

/-- The strings of an entry that are written as they are. -/
structure LogEntry.IsText (e : LogEntry) : Prop where
  qHost : File.IsText e.qHost
  qType : File.IsText e.qType
  qClass : File.IsText e.qClass
  reqECS : File.IsText e.reqECS
  clientID : File.IsText e.clientID
  upstream : File.IsText e.upstream
  canonName : File.IsText e.result.canonName
  serviceName : File.IsText e.result.serviceName
  rules : ∀ rule ∈ e.result.rules, File.IsText rule.text

/-- An entry with its address in the form that is read, and with valid strings. -/
def LogEntry.sanitized (e : LogEntry) : LogEntry :=
  { e with
    qHost := coerced e.qHost
    qType := coerced e.qType
    qClass := coerced e.qClass
    reqECS := coerced e.reqECS
    clientID := coerced e.clientID
    upstream := coerced e.upstream
    ip := e.ip.canonical
    result :=
      { e.result with
        canonName := coerced e.result.canonName
        serviceName := coerced e.result.serviceName
        rules := e.result.rules.map ResultRule.restored } }

section Addable

variable {e : LogEntry}

theorem Addable.encode (addable : Addable e) :
    ∃ line ip, e.encode = some line ∧ e.ip.marshalText = some ip := by
  obtain ⟨addr, slice⟩ := addable.ip
  have time : ∃ text, e.time.marshal = some text := ⟨_, if_pos addable.year⟩
  have ip : ∃ text, e.ip.marshalText = some text := by
    cases h : e.ip with
    | nil => rw [h] at slice; cases slice
    | four n => exact ⟨_, rfl⟩
    | sixteen n => exact ⟨_, rfl⟩
    | other bytes => rw [h] at slice; cases slice
  obtain ⟨time, timeText⟩ := time
  obtain ⟨ip, ipText⟩ := ip
  refine ⟨(Json.obj (e.members time ip)).render, ip, ?_, ipText⟩
  rw [LogEntry.encode, LogEntry.toJSON, timeText, ipText]
  rfl

theorem Addable.restored (addable : Addable e) (env : DecodeEnv)
    (noRewrite : e.result.dnsRewriteResult = none) : e.restored env = e.sanitized := by
  have all : e.result.ipList.filter (·.isValid) = e.result.ipList :=
    List.filter_eq_self.mpr addable.valid
  have same : ∀ r : Result, r.ipList = e.result.ipList → r.reason = e.result.reason →
      translateResult r = r := by
    intro r list reason
    apply if_pos
    rw [list, reason]
    by_cases empty : e.result.ipList = []
    · exact .inr empty
    · rw [addable.listed empty]
      exact .inl (by decide)
  have none' : e.result.dnsRewriteResult.bind (·.restored env) = e.result.dnsRewriteResult := by
    rw [noRewrite]
    rfl
  rw [LogEntry.restored, LogEntry.sanitized, Result.restored, all, none', same]
  all_goals rfl

theorem sanitized_text (text : e.IsText) : e.sanitized = { e with ip := e.ip.canonical } := by
  have rules : e.result.rules.map ResultRule.restored = e.result.rules := by
    rw [List.map_congr_left (g := id), List.map_id]
    intro rule member
    rw [ResultRule.restored, coerced_text (text.rules rule member)]
    rfl
  rw [LogEntry.sanitized, rules, coerced_text text.qHost, coerced_text text.qType,
    coerced_text text.qClass, coerced_text text.reqECS, coerced_text text.clientID,
    coerced_text text.upstream, coerced_text text.canonName, coerced_text text.serviceName]

/-- An entry is read back from its line with every field, up to the form of its address and up
to strings that are not valid UTF-8. -/
theorem decodeLogEntry_restores (env : DecodeEnv) (addable : Addable e)
    (noRewrite : e.result.dnsRewriteResult = none) :
    ∃ line, e.encode = some line ∧ decodeLogEntry env line = some e.sanitized ∧
      e.ip.canonical.equal e.ip = true ∧ e.ip.canonical.string = e.ip.string ∧
      (e.IsText → e.sanitized = { e with ip := e.ip.canonical }) := by
  obtain ⟨line, ip, encoded, ipText⟩ := addable.encode
  refine ⟨line, encoded, ?_, IP.canonical_equal addable.ip, IP.string_canonical ipText,
    sanitized_text⟩
  rw [decodeLogEntry_encode encoded, addable.restored env noRewrite]

end Addable

/-- Other parts for a result without rewrites. -/
def plainEnv : DecodeEnv := ⟨fun _ response => response, fun s => s ++ "."⟩

/-- A request that a rule in the syntax of a hosts file has blocked. -/
def blockedEntry (text : GoString) : LogEntry :=
  { LogEntry.empty with
    time := ⟨63845366400, 5000000, by decide⟩
    qHost := utf8 "ads.example"
    qType := utf8 "A"
    qClass := utf8 "IN"
    clientID := utf8 "cli42"
    clientProto := .dot
    upstream := utf8 "https://dns.example/dns-query"
    answer := [0, 1, 129, 128]
    ip := .four 0xc0000201
    result :=
      { Result.empty with
        rules := [⟨text, .v4 0, 1⟩]
        reason := 3
        isFiltered := true }
    elapsed := 837429
    cached := true }

theorem addable_blockedEntry (text : GoString) : Addable (blockedEntry text) where
  year := by
    change 0 ≤ Rfc3339.localYear 0 63845366400 ∧ Rfc3339.localYear 0 63845366400 ≤ 9999
    decide +kernel
  ip := ⟨_, rfl⟩
  valid := by simp [blockedEntry, Result.empty]
  listed := fun any => absurd rfl any

theorem decodeLogEntry_restores_blocked :
    ∃ line, (blockedEntry (utf8 "0.0.0.0 ads.example")).encode = some line ∧
      decodeLogEntry plainEnv line = some (blockedEntry (utf8 "0.0.0.0 ads.example")).sanitized ∧
      (IP.canonical (.four 0xc0000201)).equal (.four 0xc0000201) = true ∧
      (IP.canonical (.four 0xc0000201)).string = (IP.four 0xc0000201).string ∧
      ((blockedEntry (utf8 "0.0.0.0 ads.example")).IsText →
        (blockedEntry (utf8 "0.0.0.0 ads.example")).sanitized =
          { blockedEntry (utf8 "0.0.0.0 ads.example") with
            ip := IP.canonical (.four 0xc0000201) }) :=
  decodeLogEntry_restores plainEnv (addable_blockedEntry _) rfl

/-- A byte of Latin-1 in the comment behind a rule is not restored, nor are four bytes of an
address. -/
theorem decodeLogEntry_latin1 :
    Addable (blockedEntry (utf8 "0.0.0.0 ads.example # caf" ++ [233])) ∧
    ∃ line ent, (blockedEntry (utf8 "0.0.0.0 ads.example # caf" ++ [233])).encode = some line ∧
      decodeLogEntry plainEnv line = some ent ∧
      ent.result.rules ≠ (blockedEntry (utf8 "0.0.0.0 ads.example # caf" ++ [233])).result.rules ∧
      ent.ip ≠ (blockedEntry (utf8 "0.0.0.0 ads.example # caf" ++ [233])).ip := by
  have addable := addable_blockedEntry (utf8 "0.0.0.0 ads.example # caf" ++ [233])
  obtain ⟨line, -, encoded, -⟩ := addable.encode
  refine ⟨addable, line, _, encoded, decodeLogEntry_encode encoded, ?_, ?_⟩
  · decide +kernel
  · decide +kernel

end FirewallCore.Querylog.File
