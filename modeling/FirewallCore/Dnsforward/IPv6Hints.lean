import FirewallCore.Dnsforward.Process

/-!
Which IPv6 hints of upstream responses are removed (`removeIPv6Hints`).

They are removed where the answers of a response are checked: record by record, until a check fails
or blocks the response.
-/

namespace FirewallCore.Dnsforward

open FirewallCore.Client

/-! ### Hints -/

def isIPv6Hint : SVCBKeyValue → Bool
  | .ipv6Hint _ => true
  | _ => false

/-- An HTTPS record with an IPv6 hint. -/
def RR.hinted (rr : RR) : Bool :=
  match rr.data with
  | .https _ _ value => value.any isIPv6Hint
  | _ => false

/-- No section has an HTTPS record with an IPv6 hint. -/
def Msg.HintFree (msg : Msg) : Prop := ∀ rr ∈ msg.answer ++ msg.ns ++ msg.extra, rr.hinted = false

/-- A response that is set has no hints, unless the server put it in the place of another. -/
def DnsContext.HintFree (dctx : DnsContext) : Prop :=
  dctx.origResp = none → ∀ resp, dctx.res = some resp → resp.HintFree

namespace Server

variable (s : Server)

/-- What the check of a record comes to. -/
inductive Verdict where
  | passed
  | blocked
  | failed
  deriving DecidableEq, Repr

/-- The check of a record in `filterDNSResponse`, which comes after its hints are removed. -/
def verdict (setts : Settings) (rr : RR) : Verdict :=
  match s.filterAnswer setts (s.withoutIPv6Hints rr) with
  | .error _ => .failed
  | .ok none => .passed
  | .ok (some res) => if res.isFiltered then .blocked else .passed

/-- A record is blocked, and none fails before. -/
def Blocks (setts : Settings) (answer : List RR) : Prop :=
  ∃ rr, answer.find? (s.verdict setts · ≠ .passed) = some rr ∧ s.verdict setts rr = .blocked

/-- The records behind the first one that does not pass. -/
def unchecked (setts : Settings) (answer : List RR) : List RR :=
  (answer.dropWhile (s.verdict setts · = .passed)).tail

/-! ### Requests to upstreams -/

/-- The context that a request is resolved in. -/
def asking (c : ClientRequest) (res : Result) : DnsContext :=
  if isRewrittenCNAME res then s.renamed c res
  else { s.unanswered c with setts := s.filterSettings c, result := res }

/-- The upstreams are asked: there is no response before, and the filters give none. -/
structure Asks (c : ClientRequest) (res : Result) : Prop where
  reached : s.Unanswered c
  unnamed : s.dhcpHostFromRequest c.req.question = ""
  checked : s.checkHost (trimDot c.req.question.name) c.req.question.qtype (s.filterSettings c) = .ok res
  passes : isRewrittenCNAME res ∨ ¬res.isFiltered ∧
    res.reason ∉ [.rewritten, .filteredSafeSearch, .rewrittenRule, .rewrittenAutoHosts]

/-- The context after the response of the upstreams. -/
def responded (c : ClientRequest) (res : Result) (resp : Msg) : DnsContext :=
  let wants := (s.setReqAD (s.asking c res).req).2
  { s.asking c res with
    req := s.setRespAD wants (s.setReqAD (s.asking c res).req).1
    res := some (s.setRespAD wants resp)
    responseFromUpstream := true
    responseAD := resp.authenticatedData }

/-- The response to a request is checked: protection and filtering are on, and the request is neither
allowed nor renamed. -/
def ChecksResponse (c : ClientRequest) (res : Result) : Prop :=
  res.reason ∉ [.notFilteredAllowList, .rewritten, .rewrittenRule, .filteredSafeSearch] ∧
    s.protection = true ∧ (s.filterSettings c).filteringEnabled = true

instance (c : ClientRequest) (res : Result) : Decidable (s.ChecksResponse c res) :=
  inferInstanceAs (Decidable (_ ∧ _ ∧ _))

/-- A response has no hints in records that are not checked, or is blocked. -/
def Reaches (c : ClientRequest) (res : Result) (resp : Msg) : Prop :=
  if s.ChecksResponse c res then
    s.Blocks (s.filterSettings c) resp.answer ∨
      ∀ rr ∈ s.unchecked (s.filterSettings c) resp.answer ++ resp.ns ++ resp.extra, rr.hinted = false
  else resp.HintFree

/-- A response that is passed on from an upstream has no hints. -/
def HintsRemoved (c : ClientRequest) : Prop :=
  (s.handleDNSRequest c).1.responseFromUpstream = true → (s.handleDNSRequest c).1.HintFree

section Answers

variable {s : Server} {setts : Settings} {rr : RR} {answer : List RR} {i : Nat}

theorem hinted_withoutIPv6Hints (off : s.aaaaDisabled = true) :
    (s.withoutIPv6Hints rr).hinted = false := by
  unfold withoutIPv6Hints
  split
  · rename_i priority target value _
    rw [if_pos off, RR.hinted, List.any_eq_false]
    rintro kv member
    have other := (List.mem_filter.mp member).2
    cases kv with
    | ipv6Hint hint => cases other
    | _ => exact Bool.false_ne_true
  · rename_i other
    unfold RR.hinted
    split
    · rename_i priority target value https
      exact absurd https (other priority target value)
    · rfl

/-- What one round of the loop does, by the verdict on the record. -/
theorem filterAnswers_cons (s : Server) (setts : Settings) (i : Nat) (rr : RR) (answer : List RR) :
    (s.verdict setts rr = .failed ∧ ∃ err, s.filterAnswers setts i (rr :: answer) =
        (s.withoutIPv6Hints rr :: answer, .error err)) ∨
      (s.verdict setts rr = .blocked ∧ ∃ res, s.filterAnswers setts i (rr :: answer) =
        (s.withoutIPv6Hints rr :: answer, .ok (some res))) ∨
      (s.verdict setts rr = .passed ∧ s.filterAnswers setts i (rr :: answer) =
        (s.withoutIPv6Hints rr :: (s.filterAnswers setts (i + 1) answer).1,
          (s.filterAnswers setts (i + 1) answer).2)) := by
  unfold verdict
  rw [filterAnswers]
  dsimp only
  cases s.filterAnswer setts (s.withoutIPv6Hints rr) with
  | error err => exact .inl ⟨rfl, _, rfl⟩
  | ok found =>
    cases found with
    | none => exact .inr (.inr ⟨rfl, rfl⟩)
    | some res =>
      dsimp only
      by_cases filtered : res.isFiltered
      · rw [if_pos filtered, if_pos filtered]
        exact .inr (.inl ⟨rfl, res, rfl⟩)
      · rw [if_neg filtered, if_neg filtered]
        exact .inr (.inr ⟨rfl, rfl⟩)

/-- The checks leave hints behind the first record that does not pass. -/
theorem filterAnswers_hints (off : s.aaaaDisabled = true) (setts : Settings) (i : Nat) (answer : List RR) :
    (∀ a ∈ (s.filterAnswers setts i answer).1, a.hinted = false) ↔
      ∀ a ∈ s.unchecked setts answer, a.hinted = false := by
  induction answer generalizing i with
  | nil => exact iff_of_true (by simp [filterAnswers]) (by simp [unchecked])
  | cons rr answer ih =>
    have bare : (s.withoutIPv6Hints rr).hinted = false := hinted_withoutIPv6Hints off
    rcases filterAnswers_cons s setts i rr answer with
      ⟨verdict, err, checked⟩ | ⟨verdict, res, checked⟩ | ⟨verdict, checked⟩
    · rw [checked, List.forall_mem_cons, unchecked, List.dropWhile_cons_of_neg (by simp [verdict])]
      exact and_iff_right bare
    · rw [checked, List.forall_mem_cons, unchecked, List.dropWhile_cons_of_neg (by simp [verdict])]
      exact and_iff_right bare
    · rw [checked, List.forall_mem_cons, unchecked, List.dropWhile_cons_of_pos (by simp [verdict])]
      exact (and_iff_right bare).trans (ih (i + 1))

theorem filterAnswers_blocks (s : Server) (setts : Settings) (i : Nat) (answer : List RR) :
    (∃ res, (s.filterAnswers setts i answer).2 = .ok (some res)) ↔ s.Blocks setts answer := by
  induction answer generalizing i with
  | nil => exact iff_of_false (by simp [filterAnswers]) (by simp [Blocks])
  | cons rr answer ih =>
    rcases filterAnswers_cons s setts i rr answer with
      ⟨verdict, err, checked⟩ | ⟨verdict, res, checked⟩ | ⟨verdict, checked⟩
    · rw [checked, Blocks, List.find?_cons_of_pos (by simp [verdict])]
      simp [verdict]
    · rw [checked, Blocks, List.find?_cons_of_pos (by simp [verdict])]
      simp [verdict]
    · rw [checked, Blocks, List.find?_cons_of_neg (by simp [verdict])]
      exact ih (i + 1)

end Answers

/-! ### Stages that ask no upstream -/

/-- A stage that leaves the mark of responses from upstreams as it is. -/
def KeepsMark (process : Stage) : Prop :=
  ∀ dctx, (process dctx).2.responseFromUpstream = dctx.responseFromUpstream

section Marks

variable {s : Server} {mods : List Stage}

theorem keepsMark_processInitial : KeepsMark s.processInitial := by
  intro dctx
  unfold processInitial
  dsimp only
  split
  · rfl
  · split
    · rfl
    · split
      · rfl
      · rfl

theorem keepsMark_processDDRQuery : KeepsMark s.processDDRQuery := by
  intro dctx
  unfold processDDRQuery
  split
  · rfl
  · rfl

theorem keepsMark_processDHCPHosts : KeepsMark s.processDHCPHosts := by
  intro dctx
  unfold processDHCPHosts
  dsimp only
  split
  · rfl
  · split
    · rfl
    · split
      · rfl
      · rfl

theorem keepsMark_processDHCPAddrs : KeepsMark s.processDHCPAddrs := by
  intro dctx
  unfold processDHCPAddrs
  split
  · rfl
  · rfl

theorem filterDNSRequest_mark {dctx next : DnsContext} (done : s.filterDNSRequest dctx = .ok next) :
    next.responseFromUpstream = dctx.responseFromUpstream := by
  unfold filterDNSRequest at done
  dsimp only at done
  split at done
  · cases done
  · split at done
    · cases done
      rfl
    · split at done
      · cases done
        rfl
      · split at done
        · cases done
          rfl
        · cases done
          rfl
        · obtain ⟨resp, -, rfl⟩ := map_ok done
          rfl
        · obtain ⟨resp, -, rfl⟩ := map_ok done
          rfl
        · cases done
          rfl

theorem keepsMark_processFilteringBeforeRequest : KeepsMark s.processFilteringBeforeRequest := by
  intro dctx
  unfold processFilteringBeforeRequest
  dsimp only
  split
  · rfl
  · split
    · rfl
    · rename_i next done
      have kept := filterDNSRequest_mark done
      exact kept

theorem keepsMark_filterAfterResponse : KeepsMark s.filterAfterResponse := by
  intro dctx
  unfold filterAfterResponse
  split
  · rfl
  · split
    · rfl
    · dsimp only
      split
      · rfl
      · rfl
      · rfl

theorem keepsMark_processFilteringAfterResponse : KeepsMark s.processFilteringAfterResponse := by
  intro dctx
  have readd : (if dctx.origQuestion.name = "" then (ResultCode.success, dctx)
      else (ResultCode.success, s.readdQuestion dctx)).2.responseFromUpstream =
        dctx.responseFromUpstream := by
    split
    · rfl
    · rfl
  unfold processFilteringAfterResponse
  split
  · rfl
  · exact readd
  · exact readd
  · exact readd
  · exact keepsMark_filterAfterResponse dctx

theorem keepsMark_runStages (each : ∀ process ∈ mods, KeepsMark process) : KeepsMark (runStages mods) := by
  induction mods with
  | nil => exact fun _ => rfl
  | cons process mods ih =>
    intro dctx
    have kept := each process List.mem_cons_self dctx
    have later := ih fun process' mem => each process' (List.mem_cons_of_mem _ mem)
    unfold runStages
    split
    · rename_i next ran
      rw [ran] at kept
      exact (later next).trans kept
    · exact kept

theorem keepsMark_modsBefore : KeepsMark (runStages s.modsBefore) := by
  refine keepsMark_runStages fun process mem => ?_
  simp only [modsBefore, List.mem_cons, List.not_mem_nil, or_false] at mem
  rcases mem with rfl | rfl | rfl | rfl
  · exact keepsMark_processInitial
  · exact keepsMark_processDDRQuery
  · exact keepsMark_processDHCPHosts
  · exact keepsMark_processDHCPAddrs

/-- The stages behind the upstreams come to what the filtering of the response does. -/
theorem runStages_after (dctx : DnsContext) :
    (runStages [s.processFilteringAfterResponse, processReadOnly, processReadOnly] dctx).2 =
      (s.processFilteringAfterResponse dctx).2 := by
  rcases went : s.processFilteringAfterResponse dctx with ⟨code, next⟩
  cases code with
  | success => simp only [runStages, went, processReadOnly]
  | finish => simp only [runStages, went]
  | error => simp only [runStages, went]

end Marks

/-! ### Requests that upstreams answer -/

section Asked

variable {s : Server} {c : ClientRequest} {res : Result} {resolve : Msg → Except ResolveError Msg}
  {resp : Msg} {dctx next : DnsContext}

theorem asking_res : (s.asking c res).res = none := by
  unfold asking
  split
  · rfl
  · rfl

theorem asking_isDHCPHost :
    (s.asking c res).isDHCPHost = decide (s.dhcpHostFromRequest c.req.question ≠ "") := by
  unfold asking
  split
  · rfl
  · rfl

/-- What filtering leaves without a response is resolved. -/
theorem filterDNSRequest_asking
    (done : s.filterDNSRequest { s.unanswered c with setts := s.filterSettings c } = .ok next)
    (unset : next.res = none) :
    ∃ res, s.checkHost (trimDot c.req.question.name) c.req.question.qtype (s.filterSettings c) = .ok res ∧
      (isRewrittenCNAME res ∨ ¬res.isFiltered ∧
        res.reason ∉ [.rewritten, .filteredSafeSearch, .rewrittenRule, .rewrittenAutoHosts]) ∧
      next = s.asking c res := by
  unfold filterDNSRequest at done
  dsimp only at done
  split at done
  · cases done
  · rename_i res checked
    refine ⟨res, checked, ?_⟩
    split at done
    · rename_i isCNAME
      cases done
      refine ⟨.inl isCNAME, ?_⟩
      rw [asking, if_pos isCNAME]
      rfl
    · rename_i notCNAME
      split at done
      · cases done
        cases unset
      · rename_i notFiltered
        split at done
        · cases done
          cases unset
        · cases done
          cases unset
        · obtain ⟨msg, -, rfl⟩ := map_ok done
          cases unset
        · obtain ⟨msg, -, rfl⟩ := map_ok done
          cases unset
        · rename_i one two three four
          cases done
          refine ⟨.inr ⟨notFiltered, ?_⟩, ?_⟩
          · simp only [List.mem_cons, List.not_mem_nil, or_false, not_or]
            exact ⟨one, two, three, four⟩
          · rw [asking, if_neg notCNAME]

theorem processFilteringBeforeRequest_asks (asks : s.Asks c res) :
    s.processFilteringBeforeRequest (s.unanswered c) = (.success, s.asking c res) := by
  have filtered : s.filterDNSRequest { s.unanswered c with setts := s.filterSettings c } =
      .ok (s.asking c res) := by
    have checked : s.checkHost (trimDot (s.unanswered c).req.question.name)
      (s.unanswered c).req.question.qtype (s.filterSettings c) = .ok res := asks.checked
    unfold filterDNSRequest asking
    simp only [checked]
    by_cases isCNAME : isRewrittenCNAME res = true
    · rw [if_pos isCNAME, if_pos isCNAME]
      rfl
    · obtain ⟨notFiltered, reason⟩ := asks.passes.resolve_left isCNAME
      rw [if_neg isCNAME, if_neg isCNAME, if_neg notFiltered]
      simp only [List.mem_cons, List.not_mem_nil, or_false, not_or] at reason
      split
      · exact absurd ‹_› reason.1
      · exact absurd ‹_› reason.2.1
      · exact absurd ‹_› reason.2.2.1
      · exact absurd ‹_› reason.2.2.2
      · rfl
  unfold processFilteringBeforeRequest
  simp only
  rw [if_neg (by simp [unanswered, enriched, newContext])]
  have adjusted : { s.unanswered c with
      setts := withoutRedundantFilters (s.unanswered c).requestedPrivateRDNS (s.unanswered c).setts } =
        { s.unanswered c with setts := s.filterSettings c } := rfl
  rw [adjusted, filtered]

theorem processUpstream_responds (asks : s.Asks c res) (opened : s.resolve = some resolve)
    (answered : resolve (s.setReqAD (s.asking c res).req).1 = .ok resp) :
    s.processUpstream (s.asking c res) = (.success, s.responded c res resp) := by
  have notHost : ¬(s.asking c res).isDHCPHost = true := by
    rw [asking_isDHCPHost]
    simp [asks.unnamed]
  unfold processUpstream
  rw [if_neg (by simp [asking_res]), if_neg notHost, opened]
  simp only [answered]
  rfl

/-- Only a resolved request gets the mark. -/
theorem processUpstream_mark (off : dctx.responseFromUpstream = false)
    (on : (s.processUpstream dctx).2.responseFromUpstream = true) :
    dctx.res = none ∧ dctx.isDHCPHost = false ∧ ∃ resolve resp, s.resolve = some resolve ∧
      resolve (s.setReqAD dctx.req).1 = .ok resp := by
  unfold processUpstream at on
  split at on
  · exact absurd on (by simp [off])
  · rename_i unset
    split at on
    · exact absurd on (by simp [off])
    · rename_i notHost
      simp only at on
      split at on
      · exact absurd on (by simp [off])
      · rename_i resolve opened
        split at on
        · exact absurd on (by simp [off])
        · rename_i resp answered
          exact ⟨by simpa using unset, by simpa using notHost, resolve, resp, opened, answered⟩

theorem runStages_append_success {first second : List Stage} (ran : runStages first dctx = (.success, next)) :
    runStages (first ++ second) dctx = runStages second next := by
  rw [runStages_append, ran]

/-- The request is filtered, resolved, and its response is filtered. -/
theorem mods_responded (asks : s.Asks c res) (opened : s.resolve = some resolve)
    (answered : resolve (s.setReqAD (s.asking c res).req).1 = .ok resp) :
    (runStages s.mods (newContext c)).2 =
      (s.processFilteringAfterResponse (s.responded c res resp)).2 := by
  rw [mods, runStages_append_success (modsBefore_unanswered asks.reached)]
  simp only [runStages, modsAfter, processFilteringBeforeRequest_asks asks,
    processUpstream_responds asks opened answered]
  exact runStages_after _

theorem runStages_cons {process : Stage} {mods : List Stage} (unmarked : KeepsMark process)
    (off : dctx.responseFromUpstream = false)
    (on : (runStages (process :: mods) dctx).2.responseFromUpstream = true) :
    ∃ next, process dctx = (.success, next) ∧ next.responseFromUpstream = false ∧
      (runStages mods next).2.responseFromUpstream = true := by
  have kept := (unmarked dctx).trans off
  rcases went : process dctx with ⟨code, next⟩
  rw [went] at kept
  cases code with
  | success =>
    simp only [runStages, went] at on
    exact ⟨next, rfl, kept, on⟩
  | finish =>
    simp only [runStages, went] at on
    exact absurd (kept.symm.trans on) Bool.false_ne_true
  | error =>
    simp only [runStages, went] at on
    exact absurd (kept.symm.trans on) Bool.false_ne_true

/-- A response that has the mark is one to a request that was resolved. -/
theorem asks_of_mark (on : (runStages s.mods (newContext c)).2.responseFromUpstream = true) :
    ∃ res resolve resp, s.Asks c res ∧ s.resolve = some resolve ∧
      resolve (s.setReqAD (s.asking c res).req).1 = .ok resp := by
  rcases ran : runStages s.modsBefore (newContext c) with ⟨code, before⟩
  have off : before.responseFromUpstream = false := by
    have kept := keepsMark_modsBefore (s := s) (newContext c)
    rw [ran] at kept
    exact kept
  have stopped : code = .success := by
    by_contra other
    rw [mods, runStages_append, ran] at on
    cases code with
    | success => exact other rfl
    | finish => exact absurd on (by simp [off])
    | error => exact absurd on (by simp [off])
  subst stopped
  rw [mods, runStages_append_success ran] at on
  obtain ⟨next, filtered, off, on⟩ := runStages_cons keepsMark_processFilteringBeforeRequest off on
  have marked : (s.processUpstream next).2.responseFromUpstream = true := by
    rcases went : s.processUpstream next with ⟨code, after⟩
    cases code with
    | success =>
      simp only [modsAfter, runStages, went] at on
      have kept := keepsMark_processFilteringAfterResponse (s := s) after
      rw [← runStages_after] at kept
      exact kept.symm.trans on
    | finish =>
      simp only [modsAfter, runStages, went] at on
      exact on
    | error =>
      simp only [modsAfter, runStages, went] at on
      exact on
  obtain ⟨unset, notHost, resolve, resp, opened, answered⟩ := processUpstream_mark off marked
  unfold processFilteringBeforeRequest at filtered
  dsimp only at filtered
  split at filtered
  · rename_i answeredBefore
    cases filtered
    exact absurd unset (Option.isSome_iff_ne_none.mp answeredBefore)
  · rename_i free
    have reached := unanswered_of_success ran (by simpa using free)
    obtain ⟨-, rfl⟩ := Prod.mk.inj ((modsBefore_unanswered reached).symm.trans ran)
    split at filtered
    · cases filtered
    · rename_i passed done
      cases filtered
      obtain ⟨res, checked, passes, rfl⟩ := filterDNSRequest_asking done unset
      rw [asking_isDHCPHost, decide_eq_false_iff_not, not_not] at notHost
      exact ⟨res, resolve, resp, ⟨reached, notHost, checked, passes⟩, opened, answered⟩

theorem handleDNSRequest_mark : (s.handleDNSRequest c).1.responseFromUpstream =
    (runStages s.mods (newContext c)).2.responseFromUpstream := by
  unfold handleDNSRequest
  split
  · rename_i ran
    rw [ran]
  · rename_i ran
    rw [ran]
  · rename_i ran
    rw [ran]

/-- The response has its sections from the stages. -/
theorem handleDNSRequest_hintFree :
    (s.handleDNSRequest c).1.HintFree ↔ (runStages s.mods (newContext c)).2.HintFree := by
  unfold handleDNSRequest
  split
  · rename_i dctx ran
    rw [ran, DnsContext.HintFree, DnsContext.HintFree]
    dsimp only
    cases dctx.res with
    | none => simp
    | some resp =>
      simp only [Option.map_some, Option.some.injEq, forall_eq']
      rfl
  · rename_i ran
    rw [ran]
  · rename_i ran
    rw [ran]

theorem hintFree_of_set (set : dctx.res = some resp) (fresh : dctx.origResp = none) :
    dctx.HintFree ↔ resp.HintFree := by
  simp [DnsContext.HintFree, set, fresh]

/-- What the check of a response leaves. -/
theorem filterAfterResponse_hintFree (off : s.aaaaDisabled = true) (set : dctx.res = some resp)
    (fresh : dctx.origResp = none) (marked : dctx.responseFromUpstream = true) :
    (s.filterAfterResponse dctx).2.HintFree ↔
      if dctx.protectionEnabled = true ∧ dctx.setts.filteringEnabled = true then
        s.Blocks dctx.setts resp.answer ∨
          ∀ rr ∈ s.unchecked dctx.setts resp.answer ++ resp.ns ++ resp.extra, rr.hinted = false
      else resp.HintFree := by
  unfold filterAfterResponse
  rw [set]
  dsimp only
  by_cases checks : dctx.protectionEnabled = true ∧ dctx.setts.filteringEnabled = true
  · rw [if_pos checks, if_neg (by simp [checks, marked])]
    have blocks := filterAnswers_blocks s dctx.setts 0 resp.answer
    have sections : Msg.HintFree { resp with answer := (s.filterAnswers dctx.setts 0 resp.answer).1 } ↔
        ∀ rr ∈ s.unchecked dctx.setts resp.answer ++ resp.ns ++ resp.extra, rr.hinted = false := by
      simp only [Msg.HintFree, List.forall_mem_append, filterAnswers_hints off dctx.setts 0 resp.answer]
    have kept (err : Option String) : DnsContext.HintFree { dctx with
        res := some { resp with answer := (s.filterAnswers dctx.setts 0 resp.answer).1 }, err := err } ↔
          ∀ rr ∈ s.unchecked dctx.setts resp.answer ++ resp.ns ++ resp.extra, rr.hinted = false := by
      refine Iff.trans ?_ sections
      exact hintFree_of_set rfl fresh
    rw [← blocks]
    split
    · rename_i err failed
      rw [failed]
      exact (kept (some err)).trans (by simp)
    · rename_i passed
      rw [passed]
      exact (kept dctx.err).trans (by simp)
    · rename_i result blocked
      exact iff_of_true (fun none => by cases none) (.inl ⟨result, blocked⟩)
  · have unchecked : (!dctx.protectionEnabled || !dctx.responseFromUpstream ||
        !dctx.setts.filteringEnabled) = true := by
      cases protection : dctx.protectionEnabled with
      | false => rfl
      | true => simp [marked, Bool.eq_false_iff.mpr fun filtering => checks ⟨protection, filtering⟩]
    rw [if_neg checks, if_pos unchecked]
    exact hintFree_of_set set fresh

/-- A question that is put back comes with a record for the name. -/
theorem readdQuestion_hintFree (set : dctx.res = some resp) (fresh : dctx.origResp = none) :
    (s.readdQuestion dctx).HintFree ↔ resp.HintFree := by
  have now : (s.readdQuestion dctx).res = some { resp with
      question := dctx.origQuestion
      answer := s.record { dctx.req with question := dctx.origQuestion }
        (.cname (s.fqdn dctx.result.canonName)) :: resp.answer } := by
    unfold readdQuestion
    rw [set]
    rfl
  rw [hintFree_of_set now fresh, Msg.HintFree, Msg.HintFree, List.cons_append, List.cons_append,
    List.forall_mem_cons]
  exact and_iff_right rfl

theorem setRespAD_sections (wants : Bool) (msg : Msg) : (s.setRespAD wants msg).answer = msg.answer ∧
    (s.setRespAD wants msg).ns = msg.ns ∧ (s.setRespAD wants msg).extra = msg.extra := by
  unfold setRespAD
  split
  · exact ⟨rfl, rfl, rfl⟩
  · exact ⟨rfl, rfl, rfl⟩

/-- What the filtering of a response leaves. -/
theorem responded_hintFree_iff (off : s.aaaaDisabled = true) :
    (s.processFilteringAfterResponse (s.responded c res resp)).2.HintFree ↔ s.Reaches c res resp := by
  obtain ⟨result, fresh, protection, setts⟩ : (s.responded c res resp).result = res ∧
      (s.responded c res resp).origResp = none ∧
        (s.responded c res resp).protectionEnabled = s.protection ∧
          (s.responded c res resp).setts = s.filterSettings c := by
    unfold responded asking
    dsimp only
    split
    · exact ⟨rfl, rfl, rfl, rfl⟩
    · exact ⟨rfl, rfl, rfl, rfl⟩
  have set : (s.responded c res resp).res =
    some (s.setRespAD (s.setReqAD (s.asking c res).req).2 resp) := rfl
  have marked : (s.responded c res resp).responseFromUpstream = true := rfl
  obtain ⟨answer, ns, extra⟩ := setRespAD_sections (s := s) (s.setReqAD (s.asking c res).req).2 resp
  generalize s.setRespAD (s.setReqAD (s.asking c res).req).2 resp = msg at *
  generalize s.responded c res resp = dctx at *
  have same : msg.HintFree ↔ resp.HintFree := by
    rw [Msg.HintFree, Msg.HintFree, answer, ns, extra]
  have skipped (reason : res.reason ∈ [.notFilteredAllowList, .rewritten, .rewrittenRule, .filteredSafeSearch]) :
      msg.HintFree ↔ s.Reaches c res resp := by
    rw [Reaches, if_neg fun checks => checks.1 reason, same]
  have readd : (if dctx.origQuestion.name = "" then (ResultCode.success, dctx)
      else (ResultCode.success, s.readdQuestion dctx)).2.HintFree ↔ msg.HintFree := by
    split
    · exact hintFree_of_set set fresh
    · exact readdQuestion_hintFree set fresh
  unfold processFilteringAfterResponse
  rw [result]
  split
  · rename_i reason
    exact (hintFree_of_set set fresh).trans (skipped (by simp [reason]))
  · rename_i reason
    exact readd.trans (skipped (by simp [reason]))
  · rename_i reason
    exact readd.trans (skipped (by simp [reason]))
  · rename_i reason
    exact readd.trans (skipped (by simp [reason]))
  · rename_i allowed renamed rule search
    have checks : s.ChecksResponse c res ↔
        s.protection = true ∧ (s.filterSettings c).filteringEnabled = true := by
      rw [ChecksResponse]
      refine and_iff_right ?_
      simp only [List.mem_cons, List.not_mem_nil, or_false, not_or]
      exact ⟨allowed, renamed, rule, search⟩
    rw [filterAfterResponse_hintFree off set fresh marked, Reaches, protection, setts, answer, ns, extra, same]
    simp only [checks]

/-- With IPv6 off, no hint in a response from an upstream is passed on exactly if each response that
the upstreams may give to the request has its hints where the checks remove them. -/
theorem hintsRemoved_iff (s : Server) (c : ClientRequest) (off : s.aaaaDisabled = true) :
    s.HintsRemoved c ↔ ∀ res resolve resp, s.Asks c res → s.resolve = some resolve →
      resolve (s.setReqAD (s.asking c res).req).1 = .ok resp → s.Reaches c res resp := by
  unfold HintsRemoved
  rw [handleDNSRequest_mark, handleDNSRequest_hintFree]
  constructor
  · intro removed res resolve resp asks opened answered
    rw [mods_responded asks opened answered] at removed
    exact (responded_hintFree_iff off).mp (removed (keepsMark_processFilteringAfterResponse _))
  · intro reaches on
    obtain ⟨res, resolve, resp, asks, opened, answered⟩ := asks_of_mark on
    rw [mods_responded asks opened answered]
    exact (responded_hintFree_iff off).mpr (reaches res resolve resp asks opened answered)

end Asked

/-! ### A response with a hint -/

/-- The only record of the response. -/
def hintRecord (req : Msg) : RR := ⟨req.question.name, 10, .https 1 "." [.ipv6Hint [.v6 1 ""]]⟩

/-- An upstream that answers with a hint. -/
def hinting (req : Msg) : Except ResolveError Msg :=
  .ok { reply req rcodeSuccess with answer := [hintRecord req] }

/-- A server without IPv6 whose filters block nothing. -/
def withoutIPv6 (protection : Bool) : Server :=
  { rewriting hinting with
    aaaaDisabled := true, protection := protection, checkHost := fun _ _ _ => .ok emptyResult }

/-- A request for the HTTPS records of a name. -/
def httpsRequest : ClientRequest where
  req := Replies.requestFor "cdn.example." typeHTTPS
  named := by decide
  isPrivateClient := true
  requestedPrivateRDNS := none

theorem hintsRemoved_protected : (withoutIPv6 true).HintsRemoved httpsRequest := by
  refine (hintsRemoved_iff (withoutIPv6 true) httpsRequest rfl).mpr ?_
  intro res resolve resp asks opened answered
  cases asks.checked
  cases opened
  cases answered
  exact .inr (by decide +kernel)

/-- The hint is passed on while the protection is off. -/
theorem hints_not_removed :
    ¬∀ (s : Server) (c : ClientRequest), s.aaaaDisabled = true → s.HintsRemoved c := by
  intro removed
  have free := removed (withoutIPv6 false) httpsRequest rfl (by decide +kernel) (by decide +kernel) _ rfl
  exact absurd (free (hintRecord httpsRequest.req) (by decide +kernel)) (by decide)

end Server

end FirewallCore.Dnsforward
