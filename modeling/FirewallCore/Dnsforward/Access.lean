import FirewallCore.Client.Identifiers

/-!
The access lists of the DNS server (`dnsforward/access.go`,
`Server.IsBlockedClient`) and the ClientID of a request
(`dnsforward/clientid.go`, `beforerequest.go`).

A list has addresses, networks and ClientIDs. The ClientID of a request is
turned to lower case, those of a list are stored as they are. Blocked hosts,
which a filtering engine decides, are left out.
-/

namespace FirewallCore.Dnsforward

open FirewallCore.Net FirewallCore.Client

/-! ### Lists -/

/-- The sets and networks that one list of clients fills. -/
structure AccessClients where
  ips : List Addr
  nets : List Prefix
  clientIDs : List String
  deriving DecidableEq, Repr

/-- `processAccessClients` from an index on. -/
def processAccessClients (validateHostnameLabel : String → Option String) :
    Nat → List String → AccessClients → Except String AccessClients
  | _, [], clients => .ok clients
  | i, s :: clientStrs, clients =>
    match parseAddr s with
    | some ip => processAccessClients validateHostnameLabel (i + 1) clientStrs
        { clients with ips := clients.ips ++ [ip] }
    | none =>
      match parsePrefix s with
      | some ipnet => processAccessClients validateHostnameLabel (i + 1) clientStrs
          { clients with nets := clients.nets ++ [ipnet] }
      | none =>
        match validateClientID validateHostnameLabel s with
        | some _ => .error
            ("value " ++ s.quote ++ " at index " ++ Nat.repr i ++ ": bad ip, cidr, or clientid")
        | none => processAccessClients validateHostnameLabel (i + 1) clientStrs
            { clients with clientIDs := clients.clientIDs ++ [s] }

/-- `accessManager`. -/
structure AccessManager where
  allowed : AccessClients
  blocked : AccessClients
  deriving DecidableEq, Repr

/-- `newAccessCtx`. -/
def newAccessCtx (validateHostnameLabel : String → Option String) (allowed blocked : List String) :
    Except String AccessManager :=
  match processAccessClients validateHostnameLabel 0 allowed ⟨[], [], []⟩ with
  | .error err => .error ("adding allowed: " ++ err)
  | .ok allowedClients =>
    match processAccessClients validateHostnameLabel 0 blocked ⟨[], [], []⟩ with
    | .error err => .error ("adding blocked: " ++ err)
    | .ok blockedClients => .ok ⟨allowedClients, blockedClients⟩

namespace AccessManager

/-- `allowlistMode`. -/
def allowlistMode (a : AccessManager) : Bool :=
  a.allowed.ips.length != 0 || a.allowed.clientIDs.length != 0 || a.allowed.nets.length != 0

/-- `isBlockedClientID`. -/
def isBlockedClientID (a : AccessManager) (id : String) : Bool :=
  if id = "" then a.allowlistMode
  else if a.allowlistMode then !a.allowed.clientIDs.contains id
  else a.blocked.clientIDs.contains id

/-- The rule of a list that an address meets. -/
def ruleOf (clients : AccessClients) (ip : Addr) : Option String :=
  if clients.ips.contains ip then some ip.string
  else (clients.nets.find? (·.contains ip.withoutZone)).map (·.string)

/-- `isBlockedIP`. -/
def isBlockedIP (a : AccessManager) (ip : Addr) : Bool × String :=
  let blocked := !a.allowlistMode
  let clients := if a.allowlistMode then a.allowed else a.blocked
  match ruleOf clients ip with
  | some rule => (blocked, rule)
  | none => (!blocked, "")

/-- `Server.IsBlockedClient`. -/
def isBlockedClient (a : AccessManager) (ip : Addr) (clientID : String) : Bool × String :=
  let (blockedByIP, rule) := if ip ≠ .zero then a.isBlockedIP ip else (false, "")
  let blockedByClientID := a.isBlockedClientID clientID
  if a.allowlistMode && blockedByIP && blockedByClientID then (true, rule)
  else (!a.allowlistMode && (blockedByIP || blockedByClientID), if rule ≠ "" then rule else clientID)

end AccessManager

/-! ### Requests -/

/-- `proxy.Proto`. -/
inductive Proto where
  | udp
  | tcp
  | tls
  | https
  | quic
  | dnscrypt
  deriving DecidableEq, Repr

/-- `http.Request`, as far as it is read. -/
structure HTTPRequest where
  path : String
  /-- The server name of the TLS connection, if there is one. -/
  tlsServerName : Option String
  host : String
  deriving DecidableEq, Repr

/-- `proxy.DNSContext`, as far as it is read. -/
structure DNSContext where
  proto : Proto
  httpRequest : Option HTTPRequest
  /-- The server name of the connection, or its type if it is not one of its protocol. -/
  connServerName : Except String String

/-- What is asked of other packages, and the settings. -/
structure ClientIDEnv where
  /-- `netutil.ValidateHostnameLabel`: the text of the error. -/
  validateHostnameLabel : String → Option String
  /-- `netutil.IsImmediateSubdomain`. -/
  isImmediateSubdomain : String → String → Bool
  /-- `netutil.SplitHost`. -/
  splitHost : String → Except String String
  /-- `ServerName` of the configuration. -/
  serverName : String
  /-- `StrictSNICheck` of the configuration. -/
  strictSNICheck : Bool

/-- `path.Clean`: one more segment of a path; the segments so far are in reverse. -/
def cleanSegment (rooted : Bool) (resolved : List String) (segment : String) : List String :=
  if segment = "" ∨ segment = "." then resolved
  else if segment = ".." then
    match resolved with
    | [] => if rooted then [] else [".."]
    | last :: rest => if last = ".." then ".." :: resolved else rest
  else segment :: resolved

/-- `strings.Split(s, "/")`. -/
def splitSlash (s : String) : List String := (s.toList.splitOn '/').map String.ofList

/-- The parts of `path.Clean(path)` between slashes, without the empty one before the first slash. -/
def cleanParts (path : String) : List String :=
  let rooted := path.toList.head? = some '/'
  match (splitSlash path).foldl (cleanSegment rooted) [] with
  | [] => if rooted then [""] else ["."]
  | last :: rest => (last :: rest).reverse

/-- `clientIDFromDNSContextHTTPS` for a request. -/
def clientIDFromPath (validateHostnameLabel : String → Option String) (origPath : String) : Except String String :=
  match cleanParts origPath with
  | ["dns-query"] => .ok ""
  | ["dns-query", clientID] =>
    match validateClientID validateHostnameLabel clientID with
    | some err => .error ("clientid check: " ++ err)
    | none => .ok (toLower clientID)
  | "dns-query" :: _ => .error ("clientid check: invalid path " ++ origPath.quote ++ ": extra parts")
  | _ => .error ("clientid check: invalid path " ++ origPath.quote)

/-- `clientIDFromClientServerName`. -/
def clientIDFromClientServerName (env : ClientIDEnv) (hostSrvName cliSrvName : String) (strict : Bool) :
    Except String String :=
  if hostSrvName = cliSrvName then .ok ""
  else if !env.isImmediateSubdomain cliSrvName hostSrvName then
    if !strict then .ok ""
    else .error ("client server name " ++ cliSrvName.quote ++ " doesn't match host server name " ++
      hostSrvName.quote)
  else
    let clientID := String.ofList (cliSrvName.toList.take (cliSrvName.toList.length - hostSrvName.toList.length - 1))
    match validateClientID env.validateHostnameLabel clientID with
    | some err => .error err
    | none => .ok (toLower clientID)

/-- `clientServerNameFromHTTP`. -/
def clientServerNameFromHTTP (env : ClientIDEnv) (r : HTTPRequest) : Except String String :=
  match r.tlsServerName with
  | some serverName => .ok serverName
  | none =>
    if r.host = "" then .ok ""
    else
      match env.splitHost r.host with
      | .error err => .error ("parsing host: " ++ err)
      | .ok srvName => .ok srvName

/-- `clientServerName` for the protocols that it is called for. -/
def clientServerName (env : ClientIDEnv) (pctx : DNSContext) : Except String String :=
  match pctx.proto, pctx.httpRequest, pctx.connServerName with
  | .https, some r, _ =>
    match clientServerNameFromHTTP env r with
    | .error err => .error ("from http: " ++ err)
    | .ok srvName => .ok srvName
  | .quic, _, .error type => .error ("pctx conn of proto quic is " ++ type ++ ", want quic.Connection")
  | .quic, _, .ok srvName => .ok srvName
  | .tls, _, .error type => .error ("pctx conn of proto tls is " ++ type ++ ", want *tls.Conn")
  | .tls, _, .ok srvName => .ok srvName
  | _, _, _ => .ok ""

/-- The part of `clientIDFromDNSContext` that looks at the server name. -/
def clientIDFromServerName (env : ClientIDEnv) (pctx : DNSContext) : Except String String :=
  if env.serverName = "" then .ok ""
  else
    match clientServerName env pctx with
    | .error err => .error ("getting client server-name: " ++ err)
    | .ok cliSrvName =>
      match clientIDFromClientServerName env env.serverName cliSrvName env.strictSNICheck with
      | .error err => .error ("clientid check: " ++ err)
      | .ok clientID => .ok clientID

/-- `clientIDFromDNSContext`. -/
def clientIDFromDNSContext (env : ClientIDEnv) (pctx : DNSContext) : Except String String :=
  match pctx.proto with
  | .https =>
    match pctx.httpRequest with
    | none => .error "checking url: proxy ctx http request of proto https is nil"
    | some r =>
      match clientIDFromPath env.validateHostnameLabel r.path with
      | .error err => .error ("checking url: " ++ err)
      | .ok clientID => if clientID ≠ "" then .ok clientID else clientIDFromServerName env pctx
  | .tls => clientIDFromServerName env pctx
  | .quic => clientIDFromServerName env pctx
  | _ => .ok ""

/-! ### What a list says -/

/-- The entry of a list is a ClientID. -/
def IsClientID (s : String) : Prop := parseAddr s = none ∧ parsePrefix s = none

instance (s : String) : Decidable (IsClientID s) := inferInstanceAs (Decidable (_ ∧ _))

/-- The address is one of a list, or in a network of it. -/
def AddressIn (clients : List String) (ip : Addr) : Prop :=
  ∃ s ∈ clients, parseAddr s = some ip ∨
    parseAddr s = none ∧ ∃ ipnet, parsePrefix s = some ipnet ∧ ipnet.contains ip.withoutZone = true

/-- The ClientID is one of a list, in whatever case. -/
def ClientIDIn (clients : List String) (id : String) : Prop :=
  id ≠ "" ∧ ∃ s ∈ clients, IsClientID s ∧ toLower s = toLower id

/-- The ClientID is one of a list, in lower case. -/
def LowerIn (clients : List String) (id : String) : Prop :=
  ∃ s ∈ clients, IsClientID s ∧ toLower s = s ∧ toLower s = toLower id

/-- Who is to be blocked: anyone who is not in the allowed list, or, if that one is empty, anyone who is in
the disallowed list. -/
def Blocks (allowed blocked : List String) (ip : Addr) (id : String) : Prop :=
  if allowed = [] then AddressIn blocked ip ∨ ClientIDIn blocked id
  else ¬AddressIn allowed ip ∧ ¬ClientIDIn allowed id

/-- The list that decides. -/
def inEffect (allowed blocked : List String) : List String := if allowed = [] then blocked else allowed

section Lists

variable {validateHostnameLabel : String → Option String} {clientStrs allowed blocked : List String}
  {clients clients' : AccessClients} {a : AccessManager} {i : Nat} {ip : Addr} {id : String}

/-- The sets and networks are those of a list. -/
structure Filled (clientStrs : List String) (clients : AccessClients) : Prop where
  ips : clients.ips = clientStrs.filterMap parseAddr
  nets : clients.nets = (clientStrs.filter (parseAddr · = none)).filterMap parsePrefix
  clientIDs : clients.clientIDs = clientStrs.filter (IsClientID ·)

theorem processAccessClients_ok
    (done : processAccessClients validateHostnameLabel i clientStrs clients = .ok clients') :
    clients'.ips = clients.ips ++ clientStrs.filterMap parseAddr ∧
      clients'.nets = clients.nets ++ (clientStrs.filter (parseAddr · = none)).filterMap parsePrefix ∧
      clients'.clientIDs = clients.clientIDs ++ clientStrs.filter (IsClientID ·) := by
  induction clientStrs generalizing i clients with
  | nil =>
    cases done
    simp
  | cons s clientStrs ih =>
    rw [processAccessClients] at done
    cases addr : parseAddr s with
    | some ip =>
      rw [addr] at done
      obtain ⟨ips, nets, ids⟩ := ih done
      simp [ips, nets, ids, addr, IsClientID]
    | none =>
      rw [addr] at done
      cases net : parsePrefix s with
      | some ipnet =>
        rw [net] at done
        obtain ⟨ips, nets, ids⟩ := ih done
        simp [ips, nets, ids, addr, net, IsClientID]
      | none =>
        rw [net] at done
        simp only at done
        split at done
        · cases done
        · obtain ⟨ips, nets, ids⟩ := ih done
          simp [ips, nets, ids, addr, net, IsClientID]

theorem newAccessCtx_ok (done : newAccessCtx validateHostnameLabel allowed blocked = .ok a) :
    Filled allowed a.allowed ∧ Filled blocked a.blocked := by
  have filled : ∀ {clientStrs : List String} {clients : AccessClients},
      processAccessClients validateHostnameLabel 0 clientStrs ⟨[], [], []⟩ = .ok clients →
        Filled clientStrs clients := by
    intro clientStrs clients read
    obtain ⟨ips, nets, ids⟩ := processAccessClients_ok read
    exact ⟨ips, nets, ids⟩
  unfold newAccessCtx at done
  split at done
  · cases done
  · rename_i allowedClients readAllowed
    split at done
    · cases done
    · rename_i blockedClients readBlocked
      cases done
      exact ⟨filled readAllowed, filled readBlocked⟩

theorem Filled.mem_clientIDs (filled : Filled clientStrs clients) :
    id ∈ clients.clientIDs ↔ id ∈ clientStrs ∧ IsClientID id := by
  rw [filled.clientIDs, List.mem_filter, decide_eq_true_eq]

theorem Filled.ruleOf_isSome (filled : Filled clientStrs clients) :
    (AccessManager.ruleOf clients ip).isSome = true ↔ AddressIn clientStrs ip := by
  have listed : ip ∈ clients.ips ↔ ∃ s ∈ clientStrs, parseAddr s = some ip := by
    rw [filled.ips, List.mem_filterMap]
  have inNet : (∃ ipnet ∈ clients.nets, ipnet.contains ip.withoutZone = true) ↔
      ∃ s ∈ clientStrs, parseAddr s = none ∧
        ∃ ipnet, parsePrefix s = some ipnet ∧ ipnet.contains ip.withoutZone = true := by
    simp only [filled.nets, List.mem_filterMap, List.mem_filter, decide_eq_true_eq]
    constructor
    · rintro ⟨ipnet, ⟨s, ⟨member, addr⟩, net⟩, inside⟩
      exact ⟨s, member, addr, ipnet, net, inside⟩
    · rintro ⟨s, member, addr, ipnet, net, inside⟩
      exact ⟨ipnet, ⟨s, ⟨member, addr⟩, net⟩, inside⟩
  have either : (AccessManager.ruleOf clients ip).isSome = true ↔
      ip ∈ clients.ips ∨ ∃ ipnet ∈ clients.nets, ipnet.contains ip.withoutZone = true := by
    unfold AccessManager.ruleOf
    split
    · rename_i found
      exact iff_of_true rfl (.inl (List.contains_iff_mem.mp found))
    · rename_i missing
      rw [List.contains_iff_mem] at missing
      simp [missing]
  rw [either, listed, inNet]
  constructor
  · rintro (⟨s, member, addr⟩ | ⟨s, member, net⟩)
    · exact ⟨s, member, .inl addr⟩
    · exact ⟨s, member, .inr net⟩
  · rintro ⟨s, member, addr | net⟩
    · exact .inl ⟨s, member, addr⟩
    · exact .inr ⟨s, member, net⟩

/-- Each entry of a list fills one of its sets. -/
theorem Filled.allowlistMode (filled : Filled allowed a.allowed) :
    a.allowlistMode = true ↔ allowed ≠ [] := by
  have empty : a.allowlistMode = false ↔
      a.allowed.ips = [] ∧ a.allowed.clientIDs = [] ∧ a.allowed.nets = [] := by
    simp [AccessManager.allowlistMode, and_assoc]
  rw [← Bool.not_eq_false, not_iff_not, empty, filled.ips, filled.nets, filled.clientIDs]
  constructor
  · rintro ⟨ips, ids, nets⟩
    rw [List.eq_nil_iff_forall_not_mem]
    intro s member
    rw [List.filterMap_eq_nil_iff] at ips nets
    rw [List.filter_eq_nil_iff] at ids
    have noAddr := ips s member
    have noNet := nets s (List.mem_filter.mpr ⟨member, by simpa using noAddr⟩)
    exact ids s member (by simp [IsClientID, noAddr, noNet])
  · rintro rfl
    simp

/-- The list has the ClientID as it is spelled. -/
def SpelledIn (clientStrs : List String) (id : String) : Prop := id ≠ "" ∧ id ∈ clientStrs ∧ IsClientID id

theorem Filled.contains_clientID (filled : Filled clientStrs clients) (given : id ≠ "") :
    clients.clientIDs.contains id = true ↔ SpelledIn clientStrs id := by
  rw [List.contains_iff_mem, filled.mem_clientIDs, SpelledIn]
  exact ⟨fun listed => ⟨given, listed⟩, fun spelled => spelled.2⟩

theorem isBlockedIP_fst (a : AccessManager) (ip : Addr) : (a.isBlockedIP ip).1 =
    if a.allowlistMode then !(AccessManager.ruleOf a.allowed ip).isSome
    else (AccessManager.ruleOf a.blocked ip).isSome := by
  unfold AccessManager.isBlockedIP
  cases a.allowlistMode with
  | true => cases found : AccessManager.ruleOf a.allowed ip <;> simp [found]
  | false => cases found : AccessManager.ruleOf a.blocked ip <;> simp [found]

theorem isBlockedClient_fst (address : ip ≠ .zero) : (a.isBlockedClient ip id).1 =
    if a.allowlistMode then (a.isBlockedIP ip).1 && a.isBlockedClientID id
    else (a.isBlockedIP ip).1 || a.isBlockedClientID id := by
  unfold AccessManager.isBlockedClient
  rw [if_pos address]
  obtain ⟨blockedByIP, rule⟩ := a.isBlockedIP ip
  cases a.allowlistMode with
  | true => cases blockedByIP <;> cases a.isBlockedClientID id <;> rfl
  | false => rfl

theorem Filled.isBlockedClientID_allowed (filled : Filled allowed a.allowed) (mode : a.allowlistMode = true) :
    a.isBlockedClientID id = true ↔ ¬SpelledIn allowed id := by
  unfold AccessManager.isBlockedClientID
  split
  · rename_i empty
    exact iff_of_true mode fun spelled => spelled.1 empty
  · rename_i given
    rw [← filled.contains_clientID given, Bool.not_eq_true', Bool.not_eq_true]

theorem Filled.isBlockedClientID_blocked (filled : Filled blocked a.blocked) (mode : ¬a.allowlistMode = true) :
    a.isBlockedClientID id = true ↔ SpelledIn blocked id := by
  unfold AccessManager.isBlockedClientID
  split
  · rename_i empty
    exact iff_of_false mode fun spelled => spelled.1 empty
  · rename_i given
    rw [← filled.contains_clientID given]

/-- What the code decides for an address. -/
theorem isBlockedClient_iff (made : newAccessCtx validateHostnameLabel allowed blocked = .ok a)
    (address : ip ≠ .zero) : (a.isBlockedClient ip id).1 = true ↔
      if allowed = [] then AddressIn blocked ip ∨ SpelledIn blocked id
      else ¬AddressIn allowed ip ∧ ¬SpelledIn allowed id := by
  obtain ⟨filledAllowed, filledBlocked⟩ := newAccessCtx_ok made
  rw [isBlockedClient_fst address, isBlockedIP_fst]
  by_cases mode : a.allowlistMode = true
  · rw [if_pos mode, if_pos mode, if_neg (filledAllowed.allowlistMode.mp mode), Bool.and_eq_true,
      Bool.not_eq_true', ← Bool.not_eq_true, filledAllowed.ruleOf_isSome,
      filledAllowed.isBlockedClientID_allowed mode]
  · have empty : allowed = [] := by
      apply Classical.byContradiction
      exact fun more => mode (filledAllowed.allowlistMode.mpr more)
    rw [if_neg mode, if_neg mode, if_pos empty, Bool.or_eq_true, filledBlocked.ruleOf_isSome,
      filledBlocked.isBlockedClientID_blocked mode]

end Lists

/-! ### Decisions -/

section Decisions

variable {env : ClientIDEnv} {pctx : DNSContext} {validateHostnameLabel : String → Option String}
  {clientStrs allowed blocked : List String} {a : AccessManager} {ip : Addr} {id : String}

theorem lower_of_path {path : String} (extracted : clientIDFromPath validateHostnameLabel path = .ok id) :
    toLower id = id := by
  unfold clientIDFromPath at extracted
  split at extracted
  · cases extracted
    rfl
  · split at extracted
    · cases extracted
    · cases extracted
      exact toLower_toLower _
  · cases extracted
  · cases extracted

theorem lower_of_serverName (extracted : clientIDFromServerName env pctx = .ok id) : toLower id = id := by
  unfold clientIDFromServerName at extracted
  split at extracted
  · cases extracted
    rfl
  · split at extracted
    · cases extracted
    · split at extracted
      · cases extracted
      · rename_i found
        cases extracted
        unfold clientIDFromClientServerName at found
        split at found
        · cases found
          rfl
        · split at found
          · split at found
            · cases found
              rfl
            · cases found
          · simp only at found
            split at found
            · cases found
            · rw [← Except.ok.inj found]
              exact toLower_toLower _

/-- The ClientID of a request is in lower case. -/
theorem lower_of_request (extracted : clientIDFromDNSContext env pctx = .ok id) : toLower id = id := by
  unfold clientIDFromDNSContext at extracted
  split at extracted
  · split at extracted
    · cases extracted
    · split at extracted
      · cases extracted
      · rename_i found
        split at extracted
        · cases extracted
          exact lower_of_path found
        · exact lower_of_serverName extracted
  · exact lower_of_serverName extracted
  · exact lower_of_serverName extracted
  · cases extracted
    rfl

theorem spelledIn_iff (lower : toLower id = id) : SpelledIn clientStrs id ↔ id ≠ "" ∧ LowerIn clientStrs id := by
  constructor
  · rintro ⟨given, member, isID⟩
    exact ⟨given, id, member, isID, lower, rfl⟩
  · rintro ⟨given, s, member, isID, sLower, same⟩
    obtain rfl : s = id := by rw [← sLower, same, lower]
    exact ⟨given, member, isID⟩

/-- The access lists decide by identity exactly when the address is itself in the list in effect, or that list
has the ClientID in lower case, if it has it at all. -/
theorem isBlockedClient_blocks_iff (made : newAccessCtx validateHostnameLabel allowed blocked = .ok a)
    (address : ip ≠ .zero) (extracted : clientIDFromDNSContext env pctx = .ok id) :
    ((a.isBlockedClient ip id).1 = true ↔ Blocks allowed blocked ip id) ↔
      AddressIn (inEffect allowed blocked) ip ∨
        (ClientIDIn (inEffect allowed blocked) id → LowerIn (inEffect allowed blocked) id) := by
  have lower := lower_of_request extracted
  have spelled : ∀ {clientStrs : List String}, SpelledIn clientStrs id → ClientIDIn clientStrs id := by
    rintro clientStrs ⟨given, member, isID⟩
    exact ⟨given, id, member, isID, rfl⟩
  have needed : ∀ {clientStrs : List String}, (ClientIDIn clientStrs id → SpelledIn clientStrs id) ↔
      (ClientIDIn clientStrs id → LowerIn clientStrs id) := by
    intro clientStrs
    rw [spelledIn_iff lower]
    exact ⟨fun f listed => (f listed).2, fun f listed => ⟨listed.1, f listed⟩⟩
  rw [isBlockedClient_iff made address, Blocks, inEffect]
  by_cases empty : allowed = []
  · simp only [if_pos empty]
    rw [← needed]
    have := @spelled blocked
    tauto
  · simp only [if_neg empty]
    rw [← needed]
    have := @spelled allowed
    tauto

/-- A server with no name of its own. -/
def plainServer : ClientIDEnv where
  validateHostnameLabel := hostnameLabel
  isImmediateSubdomain := fun sub top => (sub.toList.splitOn '.').tail == top.toList.splitOn '.'
  splitHost := fun host => .ok host
  serverName := ""
  strictSNICheck := false

/-- A request over HTTPS with a ClientID in its path. -/
def phoneRequest : DNSContext where
  proto := .https
  httpRequest := some ⟨"/dns-query/Phone", some "dns.example", "dns.example"⟩
  connServerName := .error "*tls.Conn"

/-- Only the phone is allowed. -/
def phoneOnly (id : String) : AccessManager := ⟨⟨[], [], [id]⟩, ⟨[], [], []⟩⟩

theorem phoneRequest_id : clientIDFromDNSContext plainServer phoneRequest = .ok "phone" := by
  decide +kernel

theorem phoneOnly_lower_decides :
    ((phoneOnly "phone").isBlockedClient (.v4 0xc0a80105#32) "phone").1 = true ↔
      Blocks ["phone"] [] (.v4 0xc0a80105#32) "phone" := by
  have made : newAccessCtx hostnameLabel ["phone"] [] = .ok (phoneOnly "phone") := by decide +kernel
  refine (isBlockedClient_blocks_iff made (by decide) phoneRequest_id).mpr (.inr fun _ => ?_)
  exact ⟨"phone", by decide, by decide +kernel, by decide +kernel, by decide +kernel⟩

theorem phoneOnly_upper_blocks :
    newAccessCtx hostnameLabel ["Phone"] [] = .ok (phoneOnly "Phone") ∧
      clientIDFromDNSContext plainServer phoneRequest = .ok "phone" ∧
      ((phoneOnly "Phone").isBlockedClient (.v4 0xc0a80105#32) "phone").1 = true ∧
      ¬Blocks ["Phone"] [] (.v4 0xc0a80105#32) "phone" := by
  refine ⟨by decide +kernel, by decide +kernel, by decide +kernel, ?_⟩
  rintro ⟨-, missing⟩
  exact missing ⟨by decide, "Phone", by decide, by decide +kernel, by decide +kernel⟩

end Decisions

end FirewallCore.Dnsforward
