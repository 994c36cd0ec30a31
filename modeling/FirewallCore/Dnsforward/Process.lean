import FirewallCore.Dnsforward.Access
import FirewallCore.Dnsforward.Msg

/-!
The processing of a DNS request (`dnsforward/process.go`, `filter.go`).

A request goes through nine stages, and each may finish or fail. A rewrite that
gives only a canonical name replaces the name in the request in one stage, and a
later stage puts the client's question back.
-/

namespace FirewallCore.Dnsforward

open FirewallCore.Net FirewallCore.Client

/-- `filtering.Settings`. -/
structure Settings where
  protectionEnabled : Bool
  filteringEnabled : Bool
  parentalEnabled : Bool
  safeBrowsingEnabled : Bool
  safeSearchEnabled : Bool
  servicesRules : List String
  deriving DecidableEq, Repr

/-- The server, with what it asks of other packages. -/
structure Server extends Replies where
  aaaaDisabled : Bool
  handleDDR : Bool
  serverName : String
  httpsPorts : List Nat
  tlsPorts : List Nat
  quicPorts : List Nat
  hasIPAddrs : Bool
  enableDNSSEC : Bool
  localDomainSuffix : String
  /-- `netutil.IsImmediateSubdomain`. -/
  isImmediateSubdomain : String → String → Bool
  dhcpEnabled : Bool
  ipByHost : String → Addr
  hostByIP : Addr → String
  /-- `mapDNS64`, if there is a prefix. -/
  mapDNS64 : Option (Addr → Addr)
  /-- `UpdatedProtectionStatus`. -/
  protection : Bool
  /-- `clientRequestFilteringSettings` for the client. -/
  clientSettings : Bool → Settings
  /-- `CheckHost` and `CheckHostRules` of the filter. -/
  checkHost : String → Nat → Settings → Except String Result
  checkHostRules : String → Nat → Settings → Except String Result

/-- A request from a client. Names that are read from a message have at least the last dot. -/
structure ClientRequest where
  req : Msg
  named : req.question.name ≠ ""
  isPrivateClient : Bool
  /-- The address that is asked for with a private PTR name. -/
  requestedPrivateRDNS : Option Addr

/-- `dnsContext`, with the fields of its `proxyCtx`. -/
structure DnsContext where
  req : Msg
  res : Option Msg
  isPrivateClient : Bool
  requestedPrivateRDNS : Option Addr
  /-- Set by `processInitial`. -/
  setts : Settings
  /-- Nil after an error of filtering, when no stage follows. -/
  result : Result
  origResp : Option Msg
  err : Option String
  origQuestion : Question
  protectionEnabled : Bool
  responseFromUpstream : Bool
  responseAD : Bool
  isDHCPHost : Bool

/-- `resultCode`. -/
inductive ResultCode where
  | success
  | finish
  | error
  deriving DecidableEq, Repr

/-- A stage of the processing. -/
abbrev Stage := DnsContext → ResultCode × DnsContext

def ddrHostFQDN : String := "_dns.resolver.arpa."
def mozillaFQDN : String := "use-application-dns.net."
def healthcheckFQDN : String := "healthcheck.adguardhome.test."

namespace Server

variable (s : Server)

/-! ### Before the filters -/

/-- `processInitial`. -/
def processInitial : Stage := fun dctx =>
  let q := dctx.req.question
  if s.aaaaDisabled ∧ q.qtype = typeAAAA then
    (.finish, { dctx with res := some (s.newMsgNODATA dctx.req) })
  else if (q.qtype = typeA ∨ q.qtype = typeAAAA) ∧ q.name = mozillaFQDN then
    (.finish, { dctx with res := some (s.newMsgNXDOMAIN dctx.req) })
  else if q.name = healthcheckFQDN then
    (.finish, { dctx with res := some (replyCompressed dctx.req) })
  else (.success, { dctx with protectionEnabled := s.protection, setts := s.clientSettings s.protection })

/-- A record of `makeDDRResponse`. -/
def ddrRecord (req : Msg) (value : List SVCBKeyValue) : RR := s.record req (.svcb 1 (s.fqdn s.serverName) value)

/-- `makeDDRResponse`. -/
def makeDDRResponse (req : Msg) : Msg :=
  let resp := replyCompressed req
  if req.question.qtype ≠ typeSVCB then resp
  else
    let https := s.httpsPorts.map fun port =>
      s.ddrRecord req [.alpn ["h2"], .port port, .dohPath "/dns-query\x7b?dns\x7d"]
    let tls := if s.hasIPAddrs then s.tlsPorts.map fun port => s.ddrRecord req [.alpn ["dot"], .port port] else []
    let quic := s.quicPorts.map fun port => s.ddrRecord req [.alpn ["doq"], .port port]
    { resp with answer := https ++ tls ++ quic }

/-- `processDDRQuery`. -/
def processDDRQuery : Stage := fun dctx =>
  if s.handleDDR ∧ dctx.req.question.name = ddrHostFQDN then
    (.finish, { dctx with res := some (s.makeDDRResponse dctx.req) })
  else (.success, dctx)

/-- `dhcpHostFromRequest`: the name of a DHCP client, or an empty text. -/
def dhcpHostFromRequest (q : Question) : String :=
  if !s.dhcpEnabled then ""
  else if q.qtype ≠ typeA ∧ q.qtype ≠ typeAAAA then ""
  else
    let reqHost := toLower (String.ofList q.name.toList.dropLast)
    if !s.isImmediateSubdomain reqHost s.localDomainSuffix then ""
    else String.ofList (reqHost.toList.take (reqHost.toList.length - s.localDomainSuffix.toList.length - 1))

/-- The answers of `processDHCPHosts`. -/
def dhcpAnswers (req : Msg) (ip : Addr) : List RR :=
  if req.question.qtype = typeA then [s.record req (.a ip)]
  else if req.question.qtype = typeAAAA then
    match s.mapDNS64 with
    | some map => [s.record req (.aaaa (map ip))]
    | none => []
  else []

/-- `processDHCPHosts`. -/
def processDHCPHosts : Stage := fun dctx =>
  let dhcpHost := s.dhcpHostFromRequest dctx.req.question
  let dctx := { dctx with isDHCPHost := decide (dhcpHost ≠ "") }
  if dhcpHost = "" then (.success, dctx)
  else if !dctx.isPrivateClient then (.finish, { dctx with res := some (s.newMsgNXDOMAIN dctx.req) })
  else
    let ip := s.ipByHost dhcpHost
    if ip = .zero then (.success, dctx)
    else
      let resp := { replyCompressed dctx.req with answer := s.dhcpAnswers dctx.req ip }
      (.success, { dctx with res := some resp })

/-- The response of `processDHCPAddrs`, if it has one. -/
def dhcpPTR (req : Msg) (requestedPrivateRDNS : Option Addr) : Option Msg :=
  match requestedPrivateRDNS with
  | none => none
  | some addr =>
    if req.question.qtype ≠ typePTR then none
    else
      let host := s.hostByIP addr
      if host = "" then none
      else some { replyCompressed req with
        answer := [s.record req (.ptr (s.fqdn (host ++ "." ++ s.localDomainSuffix)))] }

/-- `processDHCPAddrs`. -/
def processDHCPAddrs : Stage := fun dctx =>
  if dctx.res.isSome then (.success, dctx)
  else (.success, { dctx with res := s.dhcpPTR dctx.req dctx.requestedPrivateRDNS })

/-! ### Filtering of requests -/

/-- `isRewrittenCNAME`. -/
def isRewrittenCNAME (res : Result) : Bool :=
  (res.reason = .rewritten ∨ res.reason = .rewrittenRule ∨ res.reason = .filteredSafeSearch) ∧
    res.canonName ≠ "" ∧ res.ipList = []

/-- `strings.TrimSuffix(name, ".")`. -/
def trimDot (name : String) : String :=
  if name.toList.getLast? = some '.' then String.ofList name.toList.dropLast else name

/-- `filterDNSRequest`. -/
def filterDNSRequest (dctx : DnsContext) : Except String DnsContext :=
  let req := dctx.req
  let q := req.question
  let host := trimDot q.name
  match s.checkHost host q.qtype dctx.setts with
  | .error err => .error ("checking host " ++ host.quote ++ ": " ++ err)
  | .ok res =>
    let dctx := { dctx with result := res }
    if isRewrittenCNAME res then
      .ok { dctx with
        origQuestion := q, req := { req with question := { q with name := s.fqdn res.canonName } } }
    else if res.isFiltered then .ok { dctx with res := some (s.genDNSFilterMessage req res) }
    else
      match res.reason with
      | .rewritten => .ok { dctx with res := some (s.getCNAMEWithIPs req res.ipList res.canonName) }
      | .filteredSafeSearch =>
        .ok { dctx with res := some (s.getCNAMEWithIPs req res.ipList res.canonName) }
      | .rewrittenRule => (s.filterDNSRewrite req res).map fun resp => { dctx with res := some resp }
      | .rewrittenAutoHosts => (s.filterDNSRewrite req res).map fun resp => { dctx with res := some resp }
      | _ => .ok dctx

/-- The settings that requests for private PTR names are filtered with. -/
def withoutRedundantFilters (requestedPrivateRDNS : Option Addr) (setts : Settings) : Settings :=
  if requestedPrivateRDNS.isSome then
    { setts with
      parentalEnabled := false, safeBrowsingEnabled := false, safeSearchEnabled := false, servicesRules := [] }
  else setts

/-- `processFilteringBeforeRequest`. -/
def processFilteringBeforeRequest : Stage := fun dctx =>
  let dctx := { dctx with setts := withoutRedundantFilters dctx.requestedPrivateRDNS dctx.setts }
  if dctx.res.isSome then (.success, dctx)
  else
    match s.filterDNSRequest dctx with
    | .error err => (.error, { dctx with err := some err })
    | .ok dctx => (.success, dctx)

/-! ### Upstreams -/

/-- `setReqAD`: the request for the upstreams, and whether the client wants DNSSEC. -/
def setReqAD (req : Msg) : Msg × Bool :=
  if !s.enableDNSSEC then (req, false)
  else ({ req with authenticatedData := true }, req.authenticatedData || req.dnssecOK)

/-- `setRespAD`: the flag of the request or the response. -/
def setRespAD (reqWantsDNSSEC : Bool) (msg : Msg) : Msg :=
  if s.enableDNSSEC && !reqWantsDNSSEC then { msg with authenticatedData := false } else msg

/-- `processUpstream`. -/
def processUpstream : Stage := fun dctx =>
  if dctx.res.isSome then (.success, dctx)
  else if dctx.isDHCPHost then (.finish, { dctx with res := some (s.newMsgNXDOMAIN dctx.req) })
  else
    let (req, reqWantsDNSSEC) := s.setReqAD dctx.req
    match s.resolve with
    | none => (.error, { dctx with req := req, err := some "server is closed" })
    | some resolve =>
      match resolve req with
      | .error err => (.error, { dctx with req := req, res := err.res, err := some err.text })
      | .ok res =>
        (.success, { dctx with
          req := s.setRespAD reqWantsDNSSEC req
          res := some (s.setRespAD reqWantsDNSSEC res)
          responseFromUpstream := true
          responseAD := res.authenticatedData })

/-! ### Filtering of responses -/

/-- `filterSVCBHint`. -/
def filterSVCBHint (setts : Settings) : List Addr → Except String (Option Result)
  | [] => .ok none
  | h :: hint =>
    match s.checkHostRules h.unmap.string typeHTTPS setts with
    | .error err => .error ("checking rules for " ++ h.unmap.string ++ ": " ++ err)
    | .ok res => if res.isFiltered then .ok (some res) else filterSVCBHint setts hint

/-- The addresses of a hint. -/
def hintIPs : SVCBKeyValue → List Addr
  | .ipv4Hint hint => hint
  | .ipv6Hint hint => hint
  | _ => []

/-- `filterHTTPSRecords`, after the hints are removed. -/
def filterHTTPSRecords (setts : Settings) : List SVCBKeyValue → Except String (Option Result)
  | [] => .ok none
  | kv :: values =>
    match s.filterSVCBHint setts (hintIPs kv) with
    | .error err => .error ("filtering svcb hints: " ++ err)
    | .ok (some res) => .ok (some res)
    | .ok none => filterHTTPSRecords setts values

/-- A record as it is left by its check: `removeIPv6Hints`. -/
def withoutIPv6Hints (rr : RR) : RR :=
  match rr.data with
  | .https priority target value =>
    if s.aaaaDisabled then
      { rr with data := .https priority target (value.filter fun kv => match kv with
        | .ipv6Hint _ => false
        | _ => true) }
    else rr
  | _ => rr

/-- The check of one record in `filterDNSResponse`. -/
def filterAnswer (setts : Settings) (rr : RR) : Except String (Option Result) :=
  match rr.data with
  | .cname target => (s.checkHostRules (trimDot target) typeCNAME setts).map some
  | .a ip => (s.checkHostRules ip.unmap.string typeA setts).map some
  | .aaaa ip => (s.checkHostRules ip.unmap.string typeAAAA setts).map some
  | .https _ _ value => s.filterHTTPSRecords setts value
  | _ => .ok none

/-- The loop of `filterDNSResponse`: the records as they are left, and the result that filters one. -/
def filterAnswers (setts : Settings) : Nat → List RR → List RR × Except String (Option Result)
  | _, [] => ([], .ok none)
  | i, a :: answer =>
    let rr := s.withoutIPv6Hints a
    match s.filterAnswer setts rr with
    | .error err => (rr :: answer, .error ("filtering answer at index " ++ Nat.repr i ++ ": " ++ err))
    | .ok (some res) =>
      if res.isFiltered then (rr :: answer, .ok (some res))
      else
        let (later, found) := filterAnswers setts (i + 1) answer
        (rr :: later, found)
    | .ok none =>
      let (later, found) := filterAnswers setts (i + 1) answer
      (rr :: later, found)

/-- `filterAfterResponse` with `filterDNSResponse`. -/
def filterAfterResponse : Stage := fun dctx =>
  match dctx.res with
  | none => (.success, dctx)
  | some res =>
    if !dctx.protectionEnabled || !dctx.responseFromUpstream || !dctx.setts.filteringEnabled then
      (.success, dctx)
    else
      let (answer, found) := s.filterAnswers dctx.setts 0 res.answer
      let checked := { res with answer := answer }
      match found with
      | .error err => (.error, { dctx with res := some checked, err := some err })
      | .ok none => (.success, { dctx with res := some checked })
      | .ok (some result) =>
        (.success, { dctx with
          result := result
          origResp := some checked
          res := some (s.genDNSFilterMessage dctx.req result) })

/-- The client's question is put back, with a record for the canonical name. -/
def readdQuestion (dctx : DnsContext) : DnsContext :=
  let req := { dctx.req with question := dctx.origQuestion }
  let rr := s.record req (.cname (s.fqdn dctx.result.canonName))
  { dctx with
    req := req
    res := dctx.res.map fun res => { res with question := dctx.origQuestion, answer := rr :: res.answer } }

/-- `processFilteringAfterResponse`. A response is set when a question is put back. -/
def processFilteringAfterResponse : Stage := fun dctx =>
  match dctx.result.reason with
  | .notFilteredAllowList => (.success, dctx)
  | .rewritten => if dctx.origQuestion.name = "" then (.success, dctx) else (.success, s.readdQuestion dctx)
  | .rewrittenRule => if dctx.origQuestion.name = "" then (.success, dctx) else (.success, s.readdQuestion dctx)
  | .filteredSafeSearch =>
    if dctx.origQuestion.name = "" then (.success, dctx) else (.success, s.readdQuestion dctx)
  | _ => s.filterAfterResponse dctx

/-! ### The chain -/

/-- `process` of the ipset handler and `processQueryLogsAndStats` read the messages only. -/
def processReadOnly : Stage := fun dctx => (.success, dctx)

/-- The loop of `handleDNSRequest`. -/
def runStages : List Stage → Stage
  | [], dctx => (.success, dctx)
  | process :: mods, dctx =>
    match process dctx with
    | (.success, dctx) => runStages mods dctx
    | stopped => stopped

/-- The stages before the filters. -/
def modsBefore : List Stage :=
  [s.processInitial, s.processDDRQuery, s.processDHCPHosts, s.processDHCPAddrs]

/-- The stages after the request is filtered. -/
def modsAfter : List Stage :=
  [s.processUpstream, s.processFilteringAfterResponse, processReadOnly, processReadOnly]

def mods : List Stage := s.modsBefore ++ s.processFilteringBeforeRequest :: s.modsAfter

/-- The zero values of a context. -/
def emptySettings : Settings := ⟨false, false, false, false, false, []⟩
def emptyResult : Result := ⟨.notFilteredNotFound, "", [], [], false, none⟩

/-- The context that a request is processed in. -/
def newContext (c : ClientRequest) : DnsContext where
  req := c.req
  res := none
  isPrivateClient := c.isPrivateClient
  requestedPrivateRDNS := c.requestedPrivateRDNS
  setts := emptySettings
  result := emptyResult
  origResp := none
  err := none
  origQuestion := ⟨"", 0, 0⟩
  protectionEnabled := false
  responseFromUpstream := false
  responseAD := false
  isDHCPHost := false

/-- `handleDNSRequest`: the context after it, and its error. -/
def handleDNSRequest (c : ClientRequest) : DnsContext × Option String :=
  match runStages s.mods (newContext c) with
  | (.success, dctx) => ({ dctx with res := dctx.res.map fun res => { res with compress := true } }, none)
  | (.finish, dctx) => (dctx, none)
  | (.error, dctx) => (dctx, dctx.err)

/-! ### Contexts with one question -/

/-- Nothing in the context has another question than `q`. -/
structure Clean (q : Question) (dctx : DnsContext) : Prop where
  req : dctx.req.question = q
  res : ∀ resp, dctx.res = some resp → resp.question = q
  orig : dctx.origQuestion.name = "" ∨ dctx.origQuestion = q

/-- A response that `proxy.Resolve` sets is one to the question that it is called with. -/
def KeepsQuestion : Prop :=
  ∀ resolve, s.resolve = some resolve → ∀ req,
    (∀ resp, resolve req = .ok resp → resp.question = req.question) ∧
      ∀ err resp, resolve req = .error err → err.res = some resp → resp.question = req.question

/-- A stage that brings no other question. -/
def Keeps (q : Question) (process : Stage) : Prop := ∀ dctx, Clean q dctx → Clean q (process dctx).2

section Stages

variable {s : Server} {q : Question}

theorem Clean.answered {dctx dctx' : DnsContext} {resp : Msg} (clean : Clean q dctx)
    (res : dctx'.res = some resp) (req : dctx'.req = dctx.req) (orig : dctx'.origQuestion = dctx.origQuestion)
    (same : resp.question = dctx.req.question) : Clean q dctx' where
  req := by
    rw [req]
    exact clean.req
  res := fun resp' found => by
    rw [res] at found
    cases found
    exact same.trans clean.req
  orig := by
    rw [orig]
    exact clean.orig

theorem keeps_processInitial : Keeps q s.processInitial := by
  intro dctx clean
  unfold processInitial
  simp only
  split
  · exact clean.answered rfl rfl rfl rfl
  · split
    · exact clean.answered rfl rfl rfl rfl
    · split
      · exact clean.answered rfl rfl rfl rfl
      · exact ⟨clean.req, clean.res, clean.orig⟩

theorem makeDDRResponse_question (req : Msg) : (s.makeDDRResponse req).question = req.question := by
  unfold makeDDRResponse
  simp only
  split
  · rfl
  · rfl

theorem keeps_processDDRQuery : Keeps q s.processDDRQuery := by
  intro dctx clean
  unfold processDDRQuery
  split
  · exact clean.answered rfl rfl rfl (makeDDRResponse_question _)
  · exact clean

theorem keeps_processDHCPHosts : Keeps q s.processDHCPHosts := by
  intro dctx clean
  unfold processDHCPHosts
  simp only
  split
  · exact ⟨clean.req, clean.res, clean.orig⟩
  · split
    · exact clean.answered rfl rfl rfl rfl
    · split
      · exact ⟨clean.req, clean.res, clean.orig⟩
      · exact clean.answered rfl rfl rfl rfl

theorem dhcpPTR_question {req resp : Msg} {rdns : Option Addr} (found : s.dhcpPTR req rdns = some resp) :
    resp.question = req.question := by
  unfold dhcpPTR at found
  split at found
  · cases found
  · simp only at found
    split at found
    · cases found
    · split at found
      · cases found
      · cases found
        rfl

theorem keeps_processDHCPAddrs : Keeps q s.processDHCPAddrs := by
  intro dctx clean
  unfold processDHCPAddrs
  split
  · exact clean
  · exact ⟨clean.req, fun resp found => (dhcpPTR_question found).trans clean.req, clean.orig⟩

theorem setReqAD_question (req : Msg) : (s.setReqAD req).1.question = req.question := by
  unfold setReqAD
  split
  · rfl
  · rfl

theorem setRespAD_question (wants : Bool) (msg : Msg) : (s.setRespAD wants msg).question = msg.question := by
  unfold setRespAD
  split
  · rfl
  · rfl

theorem keeps_processUpstream (kept : s.KeepsQuestion) : Keeps q s.processUpstream := by
  intro dctx clean
  have asked : (s.setReqAD dctx.req).1.question = q := (setReqAD_question _).trans clean.req
  unfold processUpstream
  split
  · exact clean
  · split
    · exact clean.answered rfl rfl rfl rfl
    · simp only
      split
      · exact ⟨asked, clean.res, clean.orig⟩
      · rename_i resolve opened
        obtain ⟨onOk, onError⟩ := kept resolve opened (s.setReqAD dctx.req).1
        split
        · rename_i err failed
          exact ⟨asked, fun resp found => (onError err resp failed found).trans asked, clean.orig⟩
        · rename_i res done
          constructor
          · exact (setRespAD_question _ _).trans asked
          · intro resp found
            cases found
            exact ((setRespAD_question _ _).trans (onOk res done)).trans asked
          · exact clean.orig

theorem keeps_filterAfterResponse : Keeps q s.filterAfterResponse := by
  intro dctx clean
  unfold filterAfterResponse
  split
  · exact clean
  · rename_i res answered
    split
    · exact clean
    · have checked (answer : List RR) : ({ res with answer := answer } : Msg).question = dctx.req.question :=
        (clean.res res answered).trans clean.req.symm
      simp only
      split
      · exact clean.answered rfl rfl rfl (checked _)
      · exact clean.answered rfl rfl rfl (checked _)
      · exact clean.answered rfl rfl rfl Replies.genDNSFilterMessage_question

theorem readdQuestion_clean {dctx : DnsContext} (orig : dctx.origQuestion = q) : Clean q (s.readdQuestion dctx) where
  req := orig
  res := fun resp found => by
    obtain ⟨res, -, rfl⟩ := Option.map_eq_some_iff.mp found
    exact orig
  orig := .inr orig

/-- The client's question is put back if another one was set. -/
theorem readd_keeps {dctx : DnsContext} (clean : Clean q dctx) :
    Clean q (if dctx.origQuestion.name = "" then (ResultCode.success, dctx)
      else (ResultCode.success, s.readdQuestion dctx)).2 := by
  split
  · exact clean
  · rename_i named
    exact readdQuestion_clean (clean.orig.resolve_left named)

theorem keeps_processFilteringAfterResponse : Keeps q s.processFilteringAfterResponse := by
  intro dctx clean
  unfold processFilteringAfterResponse
  split
  · exact clean
  · exact readd_keeps clean
  · exact readd_keeps clean
  · exact readd_keeps clean
  · exact keeps_filterAfterResponse dctx clean

theorem keeps_processReadOnly : Keeps q processReadOnly := fun _ clean => clean

theorem keeps_runStages {mods : List Stage} (each : ∀ process ∈ mods, Keeps q process) : Keeps q (runStages mods) := by
  induction mods with
  | nil => exact fun _ clean => clean
  | cons process mods ih =>
    intro dctx clean
    have kept := each process List.mem_cons_self dctx clean
    have later := ih fun process' mem => each process' (List.mem_cons_of_mem _ mem)
    unfold runStages
    split
    · rename_i dctx' ran
      rw [ran] at kept
      exact later dctx' kept
    · exact kept

theorem keeps_modsBefore : Keeps q (runStages s.modsBefore) := by
  refine keeps_runStages fun process mem => ?_
  simp only [modsBefore, List.mem_cons, List.not_mem_nil, or_false] at mem
  rcases mem with rfl | rfl | rfl | rfl
  · exact keeps_processInitial
  · exact keeps_processDDRQuery
  · exact keeps_processDHCPHosts
  · exact keeps_processDHCPAddrs

theorem keeps_modsAfter (kept : s.KeepsQuestion) : Keeps q (runStages s.modsAfter) := by
  refine keeps_runStages fun process mem => ?_
  simp only [modsAfter, List.mem_cons, List.not_mem_nil, or_false] at mem
  rcases mem with rfl | rfl | rfl | rfl
  · exact keeps_processUpstream kept
  · exact keeps_processFilteringAfterResponse
  · exact keeps_processReadOnly
  · exact keeps_processReadOnly

theorem runStages_append (first second : List Stage) (dctx : DnsContext) :
    runStages (first ++ second) dctx =
      match runStages first dctx with
      | (.success, dctx) => runStages second dctx
      | stopped => stopped := by
  induction first generalizing dctx with
  | nil => rfl
  | cons process first ih =>
    rcases ran : process dctx with ⟨code, dctx'⟩
    cases code with
    | success => simp only [List.cons_append, runStages, ran, ih]
    | finish => simp only [List.cons_append, runStages, ran]
    | error => simp only [List.cons_append, runStages, ran]

theorem runStages_cons_success {process : Stage} {mods : List Stage} {dctx dctx' : DnsContext}
    (ran : runStages (process :: mods) dctx = (.success, dctx')) :
    ∃ next, process dctx = (.success, next) ∧ runStages mods next = (.success, dctx') := by
  unfold runStages at ran
  split at ran
  · rename_i next went
    exact ⟨next, went, ran⟩
  · rename_i other
    exact absurd ran (other dctx')

end Stages

/-! ### Requests that reach the filters -/

/-- The request has no response yet when it is filtered. -/
structure Unanswered (c : ClientRequest) : Prop where
  aaaa : ¬(s.aaaaDisabled ∧ c.req.question.qtype = typeAAAA)
  mozilla : ¬((c.req.question.qtype = typeA ∨ c.req.question.qtype = typeAAAA) ∧ c.req.question.name = mozillaFQDN)
  healthcheck : c.req.question.name ≠ healthcheckFQDN
  ddr : ¬(s.handleDDR ∧ c.req.question.name = ddrHostFQDN)
  host : s.dhcpHostFromRequest c.req.question ≠ "" →
    c.isPrivateClient = true ∧ s.ipByHost (s.dhcpHostFromRequest c.req.question) = .zero
  ptr : s.dhcpPTR c.req c.requestedPrivateRDNS = none

/-- The context after `processInitial`. -/
def enriched (c : ClientRequest) : DnsContext :=
  { newContext c with protectionEnabled := s.protection, setts := s.clientSettings s.protection }

/-- The context that such a request is filtered in. -/
def unanswered (c : ClientRequest) : DnsContext :=
  { s.enriched c with isDHCPHost := decide (s.dhcpHostFromRequest c.req.question ≠ "") }

/-- The settings that the request is filtered with. -/
def filterSettings (c : ClientRequest) : Settings :=
  withoutRedundantFilters c.requestedPrivateRDNS (s.clientSettings s.protection)

/-- The request with the name of a rewrite. -/
def renamedReq (c : ClientRequest) (res : Result) : Msg :=
  { c.req with question := { c.req.question with name := s.fqdn res.canonName } }

/-- The context after a rewrite that gives only a name. -/
def renamed (c : ClientRequest) (res : Result) : DnsContext :=
  { s.unanswered c with
    setts := s.filterSettings c
    result := res
    origQuestion := c.req.question
    req := s.renamedReq c res }

/-- The request gets another name from a rewrite. -/
structure Rewrites (c : ClientRequest) (res : Result) : Prop where
  checked : s.checkHost (trimDot c.req.question.name) c.req.question.qtype (s.filterSettings c) = .ok res
  isCNAME : isRewrittenCNAME res = true
  other : s.fqdn res.canonName ≠ c.req.question.name

section Before

variable {s : Server} {c : ClientRequest} {dctx : DnsContext}

theorem newContext_clean : Clean c.req.question (newContext c) where
  req := rfl
  res := fun resp found => by cases found
  orig := .inl rfl

theorem modsBefore_unanswered (reached : s.Unanswered c) :
    runStages s.modsBefore (newContext c) = (.success, s.unanswered c) := by
  have initial : s.processInitial (newContext c) = (.success, s.enriched c) := by
    unfold processInitial
    exact (if_neg reached.aaaa).trans ((if_neg reached.mozilla).trans (if_neg reached.healthcheck))
  have ddr : s.processDDRQuery (s.enriched c) = (.success, s.enriched c) := by
    unfold processDDRQuery
    exact if_neg reached.ddr
  have hosts : s.processDHCPHosts (s.enriched c) = (.success, s.unanswered c) := by
    unfold processDHCPHosts
    simp only
    split
    · rfl
    · rename_i named
      obtain ⟨isPrivate, zero⟩ := reached.host named
      rw [if_neg (by simp [enriched, newContext, isPrivate])]
      exact if_pos zero
  have addrs : s.processDHCPAddrs (s.unanswered c) = (.success, s.unanswered c) := by
    unfold processDHCPAddrs
    have free : s.dhcpPTR (s.unanswered c).req (s.unanswered c).requestedPrivateRDNS = none := reached.ptr
    rw [if_neg (by simp [unanswered, enriched, newContext]), free]
    rfl
  simp only [modsBefore, runStages, initial, ddr, hosts, addrs]

theorem processInitial_success {next : DnsContext} (ran : s.processInitial (newContext c) = (.success, next)) :
    ¬(s.aaaaDisabled ∧ c.req.question.qtype = typeAAAA) ∧
      ¬((c.req.question.qtype = typeA ∨ c.req.question.qtype = typeAAAA) ∧ c.req.question.name = mozillaFQDN) ∧
      c.req.question.name ≠ healthcheckFQDN ∧
      next = s.enriched c := by
  unfold processInitial at ran
  simp only at ran
  split at ran
  · cases ran
  · rename_i aaaa
    split at ran
    · cases ran
    · rename_i mozilla
      split at ran
      · cases ran
      · rename_i healthcheck
        cases ran
        exact ⟨aaaa, mozilla, healthcheck, rfl⟩

theorem processDDRQuery_success {next : DnsContext} (ran : s.processDDRQuery dctx = (.success, next)) :
    ¬(s.handleDDR ∧ dctx.req.question.name = ddrHostFQDN) ∧ next = dctx := by
  unfold processDDRQuery at ran
  split at ran
  · cases ran
  · rename_i ddr
    cases ran
    exact ⟨ddr, rfl⟩

theorem processDHCPHosts_success {next : DnsContext} (ran : s.processDHCPHosts dctx = (.success, next))
    (unset : next.res = none) :
    (s.dhcpHostFromRequest dctx.req.question ≠ "" →
        dctx.isPrivateClient = true ∧ s.ipByHost (s.dhcpHostFromRequest dctx.req.question) = .zero) ∧
      next.req = dctx.req ∧ next.requestedPrivateRDNS = dctx.requestedPrivateRDNS := by
  unfold processDHCPHosts at ran
  simp only at ran
  split at ran
  · rename_i unnamed
    cases ran
    exact ⟨fun named => absurd unnamed named, rfl, rfl⟩
  · split at ran
    · cases ran
    · rename_i isPrivate
      split at ran
      · rename_i zero
        cases ran
        exact ⟨fun _ => ⟨by simpa using isPrivate, zero⟩, rfl, rfl⟩
      · cases ran
        cases unset

theorem processDHCPAddrs_success {next : DnsContext} (ran : s.processDHCPAddrs dctx = (.success, next))
    (unset : next.res = none) : dctx.res = none ∧ s.dhcpPTR dctx.req dctx.requestedPrivateRDNS = none := by
  unfold processDHCPAddrs at ran
  split at ran
  · rename_i set
    cases ran
    rw [unset] at set
    cases set
  · rename_i free
    cases ran
    exact ⟨by simpa using free, unset⟩

/-- A request that reaches the filters without a response passed all conditions. -/
theorem unanswered_of_success (ran : runStages s.modsBefore (newContext c) = (.success, dctx))
    (unset : dctx.res = none) : s.Unanswered c := by
  obtain ⟨first, initial, ran⟩ := runStages_cons_success ran
  obtain ⟨second, ddr, ran⟩ := runStages_cons_success ran
  obtain ⟨third, hosts, ran⟩ := runStages_cons_success ran
  obtain ⟨fourth, addrs, ran⟩ := runStages_cons_success ran
  cases ran
  obtain ⟨aaaa, mozilla, healthcheck, rfl⟩ := processInitial_success initial
  obtain ⟨noDDR, rfl⟩ := processDDRQuery_success ddr
  obtain ⟨unset', ptr⟩ := processDHCPAddrs_success addrs unset
  obtain ⟨host, sameReq, sameRDNS⟩ := processDHCPHosts_success hosts unset'
  rw [sameReq, sameRDNS] at ptr
  exact ⟨aaaa, mozilla, healthcheck, noDDR, host, ptr⟩

end Before

/-! ### Requests that are renamed -/

section Renamed

variable {s : Server} {c : ClientRequest} {res : Result} {q : Question} {dctx : DnsContext}

theorem map_ok {resp : Except String Msg} {f : Msg → DnsContext} {next : DnsContext} (done : resp.map f = .ok next) :
    ∃ msg, resp = .ok msg ∧ f msg = next := by
  cases resp with
  | error err => cases done
  | ok msg => exact ⟨msg, rfl, Except.ok.inj done⟩

/-- Unless the request gets another name, filtering brings no other question. -/
theorem filterDNSRequest_clean {next : DnsContext} (clean : Clean q dctx)
    (same : ∀ res, s.checkHost (trimDot dctx.req.question.name) dctx.req.question.qtype dctx.setts = .ok res →
      isRewrittenCNAME res = true → s.fqdn res.canonName = q.name)
    (done : s.filterDNSRequest dctx = .ok next) : Clean q next := by
  unfold filterDNSRequest at done
  simp only at done
  split at done
  · cases done
  · rename_i res checked
    split at done
    · rename_i isCNAME
      cases done
      have sameQuestion : ({ dctx.req.question with name := s.fqdn res.canonName } : Question) = q := by
        rw [same res checked isCNAME, clean.req]
      exact ⟨sameQuestion, clean.res, .inr clean.req⟩
    · split at done
      · cases done
        exact clean.answered rfl rfl rfl Replies.genDNSFilterMessage_question
      · split at done
        · cases done
          exact clean.answered rfl rfl rfl (Replies.getCNAMEWithIPs_question _ _)
        · cases done
          exact clean.answered rfl rfl rfl (Replies.getCNAMEWithIPs_question _ _)
        · obtain ⟨resp, made, rfl⟩ := map_ok done
          exact clean.answered rfl rfl rfl (Replies.filterDNSRewrite_question made)
        · obtain ⟨resp, made, rfl⟩ := map_ok done
          exact clean.answered rfl rfl rfl (Replies.filterDNSRewrite_question made)
        · cases done
          exact ⟨clean.req, clean.res, clean.orig⟩

theorem processFilteringBeforeRequest_clean (clean : Clean q dctx)
    (same : dctx.res = none → ∀ res, s.checkHost (trimDot dctx.req.question.name) dctx.req.question.qtype
      (withoutRedundantFilters dctx.requestedPrivateRDNS dctx.setts) = .ok res →
      isRewrittenCNAME res = true → s.fqdn res.canonName = q.name) :
    Clean q (s.processFilteringBeforeRequest dctx).2 := by
  have adjusted : Clean q { dctx with setts := withoutRedundantFilters dctx.requestedPrivateRDNS dctx.setts } :=
    ⟨clean.req, clean.res, clean.orig⟩
  unfold processFilteringBeforeRequest
  simp only
  split
  · exact adjusted
  · rename_i unset
    split
    · exact ⟨clean.req, clean.res, clean.orig⟩
    · rename_i next done
      exact filterDNSRequest_clean adjusted (same (by simpa using unset)) done

theorem processFilteringBeforeRequest_renames (rewrites : s.Rewrites c res) :
    s.processFilteringBeforeRequest (s.unanswered c) = (.success, s.renamed c res) := by
  have checked : s.checkHost (trimDot (s.unanswered c).req.question.name) (s.unanswered c).req.question.qtype
      (withoutRedundantFilters (s.unanswered c).requestedPrivateRDNS (s.unanswered c).setts) = .ok res :=
    rewrites.checked
  have filtered : s.filterDNSRequest { s.unanswered c with
      setts := withoutRedundantFilters (s.unanswered c).requestedPrivateRDNS (s.unanswered c).setts } =
      .ok (s.renamed c res) := by
    unfold filterDNSRequest
    simp only [checked, rewrites.isCNAME, if_true]
    rfl
  unfold processFilteringBeforeRequest
  simp only
  rw [if_neg (by simp [unanswered, enriched, newContext]), filtered]

/-- The client's question is put back if the chain gets so far. -/
theorem processFilteringAfterResponse_readds (isCNAME : isRewrittenCNAME dctx.result = true)
    (named : dctx.origQuestion.name ≠ "") :
    s.processFilteringAfterResponse dctx = (.success, s.readdQuestion dctx) := by
  unfold isRewrittenCNAME at isCNAME
  obtain ⟨reason, -⟩ := of_decide_eq_true isCNAME
  unfold processFilteringAfterResponse
  rcases reason with reason | reason | reason
  · rw [reason]
    exact if_neg named
  · rw [reason]
    exact if_neg named
  · rw [reason]
    exact if_neg named

end Renamed

/-! ### The client's own question -/

/-- A response that is set is one to the question, and after an error the request has the question again. -/
def AnswersOwn (q : Question) (handled : DnsContext × Option String) : Prop :=
  (∀ resp, handled.1.res = some resp → resp.question = q) ∧ (handled.2 ≠ none → handled.1.req.question = q)

/-- The upstreams give no response to a request: the server is closed, or `proxy.Resolve` fails. -/
def Unresolved (req : Msg) : Prop :=
  ∀ resolve, s.resolve = some resolve → ∃ err, resolve (s.setReqAD req).1 = .error err

/-- The request gets another name, and the chain ends before the question is put back. -/
def Stranded (c : ClientRequest) : Prop :=
  s.Unanswered c ∧
    ∃ res, s.Rewrites c res ∧ (s.dhcpHostFromRequest c.req.question ≠ "" ∨ s.Unresolved (s.renamedReq c res))

section Own

variable {s : Server} {c : ClientRequest} {res : Result}

theorem answersOwn_of_clean (clean : Clean c.req.question (runStages s.mods (newContext c)).2) :
    AnswersOwn c.req.question (s.handleDNSRequest c) := by
  unfold handleDNSRequest
  split
  · rename_i dctx ran
    rw [ran] at clean
    constructor
    · intro resp found
      obtain ⟨res, set, rfl⟩ := Option.map_eq_some_iff.mp found
      exact clean.res res set
    · exact fun failed => absurd rfl failed
  · rename_i dctx ran
    rw [ran] at clean
    exact ⟨clean.res, fun _ => clean.req⟩
  · rename_i dctx ran
    rw [ran] at clean
    exact ⟨clean.res, fun _ => clean.req⟩

/-- Only a rewrite of a request that reaches the filters brings another question. -/
theorem mods_clean (kept : s.KeepsQuestion) (own : s.Unanswered c → ∀ res, ¬s.Rewrites c res) :
    Clean c.req.question (runStages s.mods (newContext c)).2 := by
  have before := keeps_modsBefore (s := s) _ (newContext_clean (c := c))
  unfold mods
  rw [runStages_append]
  split
  · rename_i dctx ran
    rw [ran] at before
    have filtered : Clean c.req.question (s.processFilteringBeforeRequest dctx).2 := by
      refine processFilteringBeforeRequest_clean before fun unset res checked isCNAME => ?_
      have reached := unanswered_of_success ran unset
      obtain ⟨-, rfl⟩ := Prod.mk.inj ((modsBefore_unanswered reached).symm.trans ran)
      by_contra other
      exact own reached res ⟨checked, isCNAME, other⟩
    rcases went : s.processFilteringBeforeRequest dctx with ⟨code, next⟩
    rw [went] at filtered
    cases code with
    | success =>
      simp only [runStages, went]
      exact keeps_modsAfter kept next filtered
    | finish =>
      simp only [runStages, went]
      exact filtered
    | error =>
      simp only [runStages, went]
      exact filtered
  · exact before

theorem mods_renamed (reached : s.Unanswered c) (rewrites : s.Rewrites c res) :
    runStages s.mods (newContext c) = runStages s.modsAfter (s.renamed c res) := by
  unfold mods
  rw [runStages_append, modsBefore_unanswered reached]
  simp only [runStages, processFilteringBeforeRequest_renames rewrites]

theorem renamed_isDHCPHost : (s.renamed c res).isDHCPHost = decide (s.dhcpHostFromRequest c.req.question ≠ "") := rfl

/-- A name of a DHCP client that has another name now is not found. -/
theorem modsAfter_dhcpHost (named : s.dhcpHostFromRequest c.req.question ≠ "") :
    runStages s.modsAfter (s.renamed c res) =
      (.finish, { s.renamed c res with res := some (s.newMsgNXDOMAIN (s.renamedReq c res)) }) := by
  have upstream : s.processUpstream (s.renamed c res) =
      (.finish, { s.renamed c res with res := some (s.newMsgNXDOMAIN (s.renamedReq c res)) }) := by
    unfold processUpstream
    rw [if_neg (by simp [renamed, unanswered, enriched, newContext]),
      if_pos (renamed_isDHCPHost.trans (decide_eq_true named))]
    rfl
  simp only [modsAfter, runStages, upstream]

/-- After a failure of the upstreams the request has the other name. -/
theorem modsAfter_unresolved (unnamed : s.dhcpHostFromRequest c.req.question = "")
    (unresolved : s.Unresolved (s.renamedReq c res)) :
    ∃ dctx, runStages s.modsAfter (s.renamed c res) = (.error, dctx) ∧ dctx.err ≠ none ∧
      dctx.req.question = (s.renamedReq c res).question := by
  have asked : (s.setReqAD (s.renamed c res).req).1.question = (s.renamedReq c res).question := setReqAD_question _
  have notHost : ¬(s.renamed c res).isDHCPHost = true := by
    rw [renamed_isDHCPHost]
    simp [unnamed]
  have upstream : ∃ dctx, s.processUpstream (s.renamed c res) = (.error, dctx) ∧ dctx.err ≠ none ∧
      dctx.req.question = (s.renamedReq c res).question := by
    unfold processUpstream
    rw [if_neg (by simp [renamed, unanswered, enriched, newContext]), if_neg notHost]
    simp only
    split
    · exact ⟨_, rfl, Option.some_ne_none _, asked⟩
    · rename_i resolve opened
      obtain ⟨err, failed⟩ := unresolved resolve opened
      have failed : resolve (s.setReqAD (s.renamed c res).req).1 = .error err := failed
      rw [failed]
      exact ⟨_, rfl, Option.some_ne_none _, asked⟩
  obtain ⟨dctx, went, err, question⟩ := upstream
  refine ⟨dctx, ?_, err, question⟩
  simp only [modsAfter, runStages, went]

/-- After a response the client's question is put back. -/
theorem modsAfter_resolved (rewrites : s.Rewrites c res) (unnamed : s.dhcpHostFromRequest c.req.question = "")
    (resolved : ¬s.Unresolved (s.renamedReq c res)) :
    Clean c.req.question (runStages s.modsAfter (s.renamed c res)).2 := by
  have notHost : ¬(s.renamed c res).isDHCPHost = true := by
    rw [renamed_isDHCPHost]
    simp [unnamed]
  have upstream : ∃ dctx, s.processUpstream (s.renamed c res) = (.success, dctx) ∧ dctx.result = res ∧
      dctx.origQuestion = c.req.question := by
    unfold processUpstream
    rw [if_neg (by simp [renamed, unanswered, enriched, newContext]), if_neg notHost]
    simp only
    split
    · rename_i closed
      exact absurd (fun resolve opened => by rw [closed] at opened; cases opened) resolved
    · rename_i resolve opened
      split
      · rename_i err failed
        refine absurd (fun resolve' opened' => ?_) resolved
        rw [opened] at opened'
        cases opened'
        exact ⟨err, failed⟩
      · exact ⟨_, rfl, rfl, rfl⟩
  obtain ⟨dctx, went, result, orig⟩ := upstream
  have isCNAME : isRewrittenCNAME dctx.result = true := by
    rw [result]
    exact rewrites.isCNAME
  have named : dctx.origQuestion.name ≠ "" := by
    rw [orig]
    exact c.named
  simp only [modsAfter, runStages, went, processFilteringAfterResponse_readds isCNAME named, processReadOnly]
  exact readdQuestion_clean orig

theorem renamedReq_question_ne (rewrites : s.Rewrites c res) : (s.renamedReq c res).question ≠ c.req.question :=
  fun same => rewrites.other (congrArg Question.name same)

theorem not_answersOwn_of_stranded (stranded : s.Stranded c) : ¬AnswersOwn c.req.question (s.handleDNSRequest c) := by
  obtain ⟨reached, res, rewrites, left⟩ := stranded
  have other := renamedReq_question_ne rewrites
  rintro ⟨ofResponse, ofError⟩
  by_cases named : s.dhcpHostFromRequest c.req.question = ""
  · obtain ⟨dctx, ran, err, question⟩ := modsAfter_unresolved named (left.resolve_left fun host => host named)
    unfold handleDNSRequest at ofError
    rw [mods_renamed reached rewrites, ran] at ofError
    exact other (question.symm.trans (ofError err))
  · unfold handleDNSRequest at ofResponse
    rw [mods_renamed reached rewrites, modsAfter_dhcpHost named] at ofResponse
    exact other (ofResponse (s.newMsgNXDOMAIN (s.renamedReq c res)) rfl)

/-- The client gets an answer to its own question, and has it back after an error, unless the chain
ends between a rewrite that gives only a name and the stage that puts the question back. -/
theorem answersOwn_iff (s : Server) (c : ClientRequest) (kept : s.KeepsQuestion) :
    AnswersOwn c.req.question (s.handleDNSRequest c) ↔ ¬s.Stranded c := by
  constructor
  · exact fun own stranded => not_answersOwn_of_stranded stranded own
  · intro notStranded
    apply answersOwn_of_clean
    by_cases renames : s.Unanswered c ∧ ∃ res, s.Rewrites c res
    · obtain ⟨reached, res, rewrites⟩ := renames
      rw [mods_renamed reached rewrites]
      have unnamed : s.dhcpHostFromRequest c.req.question = "" := by
        by_contra named
        exact notStranded ⟨reached, res, rewrites, .inl named⟩
      exact modsAfter_resolved rewrites unnamed
        fun unresolved => notStranded ⟨reached, res, rewrites, .inr unresolved⟩
    · exact mods_clean kept fun reached res rewrites => renames ⟨reached, res, rewrites⟩

end Own

/-- A server that rewrites every name to `new.lan`, with the given upstreams. -/
def rewriting (resolve : Msg → Except ResolveError Msg) : Server where
  fqdn := fun name => name ++ "."
  blockedResponseTTL := 10
  blockingMode := .default
  safeBrowsingBlockHost := ""
  parentalBlockHost := ""
  svcbKeyHandlers := fun _ _ => none
  resolve := some resolve
  aaaaDisabled := false
  handleDDR := true
  serverName := ""
  httpsPorts := []
  tlsPorts := []
  quicPorts := []
  hasIPAddrs := false
  enableDNSSEC := false
  localDomainSuffix := "lan"
  isImmediateSubdomain := fun _ _ => false
  dhcpEnabled := false
  ipByHost := fun _ => .zero
  hostByIP := fun _ => ""
  mapDNS64 := none
  protection := true
  clientSettings := fun _ => ⟨true, true, false, false, false, []⟩
  checkHost := fun _ _ _ => .ok ⟨.rewritten, "new.lan", [], [], false, none⟩
  checkHostRules := fun _ _ _ => .ok emptyResult

/-- A request for `old.lan`. -/
def oldRequest : ClientRequest where
  req := Replies.requestFor "old.lan." typeA
  named := by decide
  isPrivateClient := true
  requestedPrivateRDNS := none

/-- Upstreams that answer, and upstreams that fail. -/
def answering (req : Msg) : Except ResolveError Msg := .ok (reply req rcodeSuccess)
def failing (req : Msg) : Except ResolveError Msg := .error ⟨"no upstreams", some (newMsgSERVFAIL req)⟩

theorem answering_answersOwn : AnswersOwn oldRequest.req.question ((rewriting answering).handleDNSRequest oldRequest) := by
  have kept : (rewriting answering).KeepsQuestion := by
    intro resolve opened req
    cases opened
    constructor
    · intro resp answered
      cases answered
      rfl
    · intro err resp failed
      cases failed
  refine (answersOwn_iff (rewriting answering) oldRequest kept).mpr ?_
  rintro ⟨-, res, -, named | unresolved⟩
  · exact named (by decide)
  · obtain ⟨err, failed⟩ := unresolved answering rfl
    cases failed

/-- The client of a renamed request gets the failure of another question. -/
theorem failing_not_answersOwn :
    ¬AnswersOwn oldRequest.req.question ((rewriting failing).handleDNSRequest oldRequest) := by
  rintro ⟨ofResponse, -⟩
  have other := ofResponse (newMsgSERVFAIL (Replies.requestFor "new.lan." typeA)) (by decide +kernel)
  exact absurd (congrArg Question.name other) (by decide)

end Server

end FirewallCore.Dnsforward
