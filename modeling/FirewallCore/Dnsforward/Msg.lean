import FirewallCore.Net.AddrText

/-!
DNS messages and the replies that the server makes itself
(`dnsforward/msg.go`, `dnsrewrite.go`).

A message has one question. Every reply is made from the request and has a copy
of the question that the request has at the time.
-/

namespace FirewallCore.Dnsforward

open FirewallCore.Net

/-! ### Messages -/

/-- The types of records that are looked at. -/
def typeA : Nat := 1
def typeCNAME : Nat := 5
def typePTR : Nat := 12
def typeMX : Nat := 15
def typeTXT : Nat := 16
def typeAAAA : Nat := 28
def typeSRV : Nat := 33
def typeSVCB : Nat := 64
def typeHTTPS : Nat := 65

/-- The response codes that are set. -/
def rcodeSuccess : Nat := 0
def rcodeServerFailure : Nat := 2
def rcodeNameError : Nat := 3
def rcodeRefused : Nat := 5

/-- `dns.Question`. -/
structure Question where
  name : String
  qtype : Nat
  qclass : Nat
  deriving DecidableEq, Repr

/-- `dns.SVCBKeyValue`. -/
inductive SVCBKeyValue where
  | alpn (alpn : List String)
  | port (port : Nat)
  | dohPath (template : String)
  | ipv4Hint (hint : List Addr)
  | ipv6Hint (hint : List Addr)
  | other (key : String) (value : String)
  deriving DecidableEq, Repr

/-- The data of a record. -/
inductive RData where
  | a (ip : Addr)
  | aaaa (ip : Addr)
  | cname (target : String)
  | ptr (ptr : String)
  | txt (txt : List String)
  | mx (preference : Nat) (mx : String)
  | srv (priority weight port : Nat) (target : String)
  | svcb (priority : Nat) (target : String) (value : List SVCBKeyValue)
  | https (priority : Nat) (target : String) (value : List SVCBKeyValue)
  | soa (ns mbox : String)
  | other (rrtype : Nat)
  deriving DecidableEq, Repr

/-- `dns.RR`. -/
structure RR where
  name : String
  ttl : Nat
  data : RData
  deriving DecidableEq, Repr

/-- `dns.Msg` with one question. -/
structure Msg where
  question : Question
  rcode : Nat
  answer : List RR
  ns : List RR
  extra : List RR
  recursionAvailable : Bool
  authenticatedData : Bool
  /-- The DO flag of the EDNS options, if there are any. -/
  dnssecOK : Bool
  compress : Bool
  deriving DecidableEq, Repr

/-! ### Results of filtering -/

/-- `filtering.Reason`. -/
inductive Reason where
  | notFilteredNotFound
  | notFilteredAllowList
  | notFilteredError
  | filteredBlockList
  | filteredSafeBrowsing
  | filteredParental
  | filteredInvalid
  | filteredSafeSearch
  | filteredBlockedService
  | rewritten
  | rewrittenAutoHosts
  | rewrittenRule
  deriving DecidableEq, Repr

/-- `rules.RRValue`: the values of a `$dnsrewrite` rule. -/
inductive RRValue where
  | addr (ip : Addr)
  | text (s : String)
  | mx (preference : Nat) (exchange : String)
  | svcb (priority : Nat) (target : String) (params : List (String × String))
  | srv (priority weight port : Nat) (target : String)
  deriving DecidableEq, Repr

/-- `DNSRewriteResult`. -/
structure DNSRewriteResult where
  rcode : Nat
  response : Option (Nat → List RRValue)

/-- `filtering.Result`. -/
structure Result where
  reason : Reason
  canonName : String
  ipList : List Addr
  /-- The addresses of the rules that were applied, in their order. -/
  ruleIPs : List Addr
  isFiltered : Bool
  dnsRewriteResult : Option DNSRewriteResult

/-- `filtering.BlockingMode` with its addresses. -/
inductive BlockingMode where
  | default
  | nullIP
  | nxdomain
  | refused
  | customIP (ipv4 ipv6 : Addr)
  deriving DecidableEq, Repr

/-- A failure of `proxy.Resolve`, with the response that it sets all the same. -/
structure ResolveError where
  text : String
  res : Option Msg

/-- What the replies are made with. -/
structure Replies where
  /-- `dns.Fqdn`. -/
  fqdn : String → String
  blockedResponseTTL : Nat
  blockingMode : BlockingMode
  safeBrowsingBlockHost : String
  parentalBlockHost : String
  /-- `svcbKeyHandlers`: the value of a parameter, unless it is unknown or invalid. -/
  svcbKeyHandlers : String → String → Option SVCBKeyValue
  /-- `proxy.Resolve`, unless the server is closed. -/
  resolve : Option (Msg → Except ResolveError Msg)

/-! ### Replies -/

/-- `reply`. -/
def reply (req : Msg) (code : Nat) : Msg where
  question := req.question
  rcode := code
  answer := []
  ns := []
  extra := []
  recursionAvailable := true
  authenticatedData := false
  dnssecOK := false
  compress := false

/-- `replyCompressed`. -/
def replyCompressed (req : Msg) : Msg := { reply req rcodeSuccess with compress := true }

/-- `NewMsgSERVFAIL`. -/
def newMsgSERVFAIL (req : Msg) : Msg := reply req rcodeServerFailure

namespace Replies

variable (s : Replies)

/-- A record for the name that the request asks for. -/
def record (req : Msg) (data : RData) : RR := ⟨req.question.name, s.blockedResponseTTL, data⟩

/-- `genSOA`. -/
def genSOA (req : Msg) : List RR :=
  let zone := req.question.name
  let ttl := if s.blockedResponseTTL = 0 then 3600 else s.blockedResponseTTL
  let mbox := if zone = "." then "hostmaster." else "hostmaster." ++ zone
  [⟨zone, ttl, .soa "fake-for-negative-caching.adguard.com." mbox⟩]

/-- `NewMsgNXDOMAIN`. -/
def newMsgNXDOMAIN (req : Msg) : Msg := { reply req rcodeNameError with ns := s.genSOA req }

/-- `NewMsgNODATA`. -/
def newMsgNODATA (req : Msg) : Msg := { reply req rcodeSuccess with ns := s.genSOA req }

/-- `genAnswersWithIPv4s`. -/
def genAnswersWithIPv4s (req : Msg) (ips : List Addr) : List RR :=
  if ips.all (·.is4) then ips.map fun ip => s.record req (.a ip) else []

/-- The answers of `genResponseWithIPs` and `getCNAMEWithIPs`. -/
def answersWithIPs (req : Msg) (ips : List Addr) : List RR :=
  if req.question.qtype = typeA then s.genAnswersWithIPv4s req ips
  else if req.question.qtype = typeAAAA then (ips.filter (·.is6)).map fun ip => s.record req (.aaaa ip)
  else []

/-- `genResponseWithIPs`. -/
def genResponseWithIPs (req : Msg) (ips : List Addr) : Msg :=
  { replyCompressed req with answer := s.answersWithIPs req ips }

/-- `getCNAMEWithIPs`. The name of the question is another one while the addresses are added. -/
def getCNAMEWithIPs (req : Msg) (ips : List Addr) (cname : String) : Msg :=
  let resp := replyCompressed req
  if cname = "" then { resp with answer := s.answersWithIPs req ips }
  else
    let renamed := { req with question := { req.question with name := s.fqdn cname } }
    { resp with answer := s.record req (.cname (s.fqdn cname)) :: s.answersWithIPs renamed ips }

/-- `makeResponseNullIP`. -/
def makeResponseNullIP (req : Msg) : Msg :=
  if req.question.qtype = typeA then s.genResponseWithIPs req [.v4 0]
  else if req.question.qtype = typeAAAA then s.genResponseWithIPs req [.v6 0 ""]
  else replyCompressed req

/-- `makeResponseCustomIP`. -/
def makeResponseCustomIP (req : Msg) (ipv4 ipv6 : Addr) : Msg :=
  if req.question.qtype = typeA then { replyCompressed req with answer := [s.record req (.a ipv4)] }
  else if req.question.qtype = typeAAAA then { replyCompressed req with answer := [s.record req (.aaaa ipv6)] }
  else replyCompressed req

/-- `genForBlockingMode`. -/
def genForBlockingMode (req : Msg) (ips : List Addr) : Msg :=
  match s.blockingMode with
  | .customIP ipv4 ipv6 => s.makeResponseCustomIP req ipv4 ipv6
  | .default => if ips ≠ [] then s.genResponseWithIPs req ips else s.makeResponseNullIP req
  | .nullIP => s.makeResponseNullIP req
  | .nxdomain => s.newMsgNXDOMAIN req
  | .refused => reply req rcodeRefused

/-- A request for another name. -/
def requestFor (name : String) (qtype : Nat) : Msg where
  question := ⟨name, qtype, 1⟩
  rcode := rcodeSuccess
  answer := []
  ns := []
  extra := []
  recursionAvailable := false
  authenticatedData := false
  dnssecOK := false
  compress := false

/-- `genBlockedHost`. -/
def genBlockedHost (req : Msg) (newAddr : String) : Msg :=
  if newAddr = "" then newMsgSERVFAIL req
  else
    match parseAddr newAddr with
    | some ip => s.genResponseWithIPs req [ip]
    | none =>
      match s.resolve with
      | none => newMsgSERVFAIL req
      | some resolve =>
        match resolve (requestFor (s.fqdn newAddr) req.question.qtype) with
        | .error _ => newMsgSERVFAIL req
        | .ok res => { replyCompressed req with
            answer := res.answer.map fun rr => { rr with name := req.question.name } }

/-- `genDNSFilterMessage`. -/
def genDNSFilterMessage (req : Msg) (res : Result) : Msg :=
  let qt := req.question.qtype
  let ips := res.ruleIPs.eraseDups.filter (· ≠ .zero)
  if qt ≠ typeA ∧ qt ≠ typeAAAA ∧ qt ≠ typeHTTPS then
    if s.blockingMode = .nullIP then replyCompressed req else s.newMsgNODATA req
  else
    match res.reason with
    | .filteredSafeBrowsing => s.genBlockedHost req s.safeBrowsingBlockHost
    | .filteredParental => s.genBlockedHost req s.parentalBlockHost
    | .filteredSafeSearch => s.getCNAMEWithIPs req ips res.canonName
    | _ => s.genForBlockingMode req ips

/-! ### Rewrites -/

/-- The values of `genAnswerSVCB`. -/
def svcbValues (params : List (String × String)) : List SVCBKeyValue :=
  params.filterMap fun param => s.svcbKeyHandlers param.1 param.2

/-- `filterDNSRewriteResponse`: the record for a value, if the type is known. -/
def filterDNSRewriteResponse (req : Msg) (rr : Nat) (v : RRValue) : Except String (Option RR) :=
  let wrong (want : String) : Except String (Option RR) :=
    .error ("value for rr type " ++ Nat.repr rr ++ " has the wrong type, not " ++ want)
  if rr = typeA ∨ rr = typeAAAA then
    match v with
    | .addr ip => .ok (some (s.record req (if rr = typeA then .a ip else .aaaa ip)))
    | _ => wrong "netip.Addr"
  else if rr = typePTR ∨ rr = typeTXT then
    match v with
    | .text str => .ok (some (s.record req (if rr = typeTXT then .txt [str] else .ptr (s.fqdn str))))
    | _ => wrong "string"
  else if rr = typeMX then
    match v with
    | .mx preference exchange => .ok (some (s.record req (.mx preference (s.fqdn exchange))))
    | _ => wrong "*rules.DNSMX"
  else if rr = typeHTTPS ∨ rr = typeSVCB then
    match v with
    | .svcb priority target params => .ok (some (s.record req
        (if rr = typeHTTPS then .https priority (s.fqdn target) (s.svcbValues params)
          else .svcb priority (s.fqdn target) (s.svcbValues params))))
    | _ => wrong "*rules.DNSSVCB"
  else if rr = typeSRV then
    match v with
    | .srv priority weight port target =>
      .ok (some (s.record req (.srv priority weight port (s.fqdn target))))
    | _ => wrong "*rules.DNSSRV"
  else .ok none

/-- The loop of `filterDNSRewrite` over the values of a type. Rules have no values of a type that is
not known, and a nil record for one is left out. -/
def rewriteAnswers (req : Msg) (qtype : Nat) : Nat → List RRValue → Except String (List RR)
  | _, [] => .ok []
  | i, v :: values =>
    match s.filterDNSRewriteResponse req qtype v with
    | .error err => .error
        ("dns rewrite response for " ++ Nat.repr qtype ++ "[" ++ Nat.repr i ++ "]: " ++ err)
    | .ok ans => do
      let later ← rewriteAnswers req qtype (i + 1) values
      return ans.toList ++ later

/-- `filterDNSRewrite`: the response. -/
def filterDNSRewrite (req : Msg) (res : Result) : Except String Msg :=
  match res.dnsRewriteResult with
  | none => .error "no dns rewrite rule content"
  | some dnsrr =>
    let resp := { replyCompressed req with rcode := dnsrr.rcode }
    if dnsrr.rcode ≠ rcodeSuccess then .ok resp
    else
      match dnsrr.response with
      | none => .error "no dns rewrite rule responses"
      | some response => do
        let answer ← s.rewriteAnswers req req.question.qtype 0 (response req.question.qtype)
        return { resp with answer := answer }

/-! ### Questions of replies -/

section Questions

variable {s : Replies} {req : Msg} {res : Result}

@[simp] theorem reply_question (code : Nat) : (reply req code).question = req.question := rfl

@[simp] theorem replyCompressed_question : (replyCompressed req).question = req.question := rfl

@[simp] theorem newMsgNXDOMAIN_question : (s.newMsgNXDOMAIN req).question = req.question := rfl

@[simp] theorem newMsgNODATA_question : (s.newMsgNODATA req).question = req.question := rfl

@[simp] theorem genResponseWithIPs_question (ips : List Addr) :
    (s.genResponseWithIPs req ips).question = req.question := rfl

@[simp] theorem getCNAMEWithIPs_question (ips : List Addr) (cname : String) :
    (s.getCNAMEWithIPs req ips cname).question = req.question := by
  unfold getCNAMEWithIPs
  simp only
  split
  · rfl
  · rfl

@[simp] theorem makeResponseNullIP_question : (s.makeResponseNullIP req).question = req.question := by
  unfold makeResponseNullIP
  split
  · rfl
  · split
    · rfl
    · rfl

theorem makeResponseCustomIP_question (ipv4 ipv6 : Addr) :
    (s.makeResponseCustomIP req ipv4 ipv6).question = req.question := by
  unfold makeResponseCustomIP
  split
  · rfl
  · split
    · rfl
    · rfl

theorem genForBlockingMode_question (ips : List Addr) :
    (s.genForBlockingMode req ips).question = req.question := by
  unfold genForBlockingMode
  cases s.blockingMode with
  | customIP ipv4 ipv6 => exact makeResponseCustomIP_question ipv4 ipv6
  | default =>
    simp only
    split
    · rfl
    · exact makeResponseNullIP_question
  | nullIP => exact makeResponseNullIP_question
  | nxdomain => rfl
  | refused => rfl

theorem genBlockedHost_question (newAddr : String) : (s.genBlockedHost req newAddr).question = req.question := by
  unfold genBlockedHost
  split
  · rfl
  · split
    · rfl
    · split
      · rfl
      · split
        · rfl
        · rfl

@[simp] theorem genDNSFilterMessage_question : (s.genDNSFilterMessage req res).question = req.question := by
  unfold genDNSFilterMessage
  simp only
  split
  · split
    · rfl
    · rfl
  · split
    · exact genBlockedHost_question _
    · exact genBlockedHost_question _
    · exact getCNAMEWithIPs_question _ _
    · exact genForBlockingMode_question _

theorem filterDNSRewrite_question {resp : Msg} (done : s.filterDNSRewrite req res = .ok resp) :
    resp.question = req.question := by
  unfold filterDNSRewrite at done
  split at done
  · cases done
  · simp only at done
    split at done
    · cases done
      rfl
    · split at done
      · cases done
      · rename_i response _
        cases answers : s.rewriteAnswers req req.question.qtype 0 (response req.question.qtype) with
        | error err =>
          rw [answers] at done
          cases done
        | ok answer =>
          rw [answers] at done
          cases done
          rfl

end Questions

end Replies

end FirewallCore.Dnsforward
