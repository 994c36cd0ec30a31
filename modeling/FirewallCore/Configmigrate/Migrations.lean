import FirewallCore.Configmigrate.Yaml
import FirewallCore.Net.AddrText

/-!
The migrations of the configuration file, from one schema version to the next
(`configmigrate/v1.go` to `v29.go`).

A migration works on the document in memory. What it asks of other packages is
given by an `Env`. Removing old files from the working directory, which the
first two do, has no effect on the document and is left out.
-/

namespace FirewallCore.Configmigrate

open FirewallCore.Lib FirewallCore.Net

/-- `url.URL`, as far as it is used, with its text for another host. -/
structure URL where
  scheme : String
  host : String
  withHost : String → String

/-- What is asked of other packages. -/
structure Env where
  /-- `bcrypt.GenerateFromPassword`. -/
  generateFromPassword : String → Except String String
  /-- `url.Parse`. -/
  parseURL : String → Option URL
  /-- `netutil.SplitHost`. -/
  splitHost : String → Option String
  /-- `timeutil.Duration.String`. -/
  durationString : Int → String
  /-- `filepath.Join(dataDir, "userfilters", "*")`. -/
  userFilters : String

/-- A migration sets the schema version first. -/
def atVersion (version : Nat) (migrate : Yobj → Fallible Yobj) (diskConf : Yobj) : Fallible Yobj := do
  let diskConf ← diskConf.set "schema_version" (.int version)
  migrate diskConf

/-- An object of its fields. -/
def object (fields : List (String × YVal)) : YVal := .obj (some fields)

/-- Durations of whole hours in an `int64`. -/
def hours (n : Int) : Int := (n * 3600000000000).bmod (2 ^ 64)

def days (n : Int) : Int := (n * 86400000000000).bmod (2 ^ 64)

/-! ### Versions 1 to 10 -/

def migrateTo1 : Yobj → Fallible Yobj := atVersion 1 pure

def migrateTo2 : Yobj → Fallible Yobj := atVersion 2 fun diskConf =>
  moveWithin YVal diskConf "coredns" "dns"

def migrateTo3 : Yobj → Fallible Yobj := atVersion 3 fun diskConf =>
  inObject diskConf "dns" fun dns => do
    match ← field YVal dns "bootstrap_dns" with
    | none => return dns
    | some bootstrapDNS => dns.set "bootstrap_dns" (.arr (some [bootstrapDNS]))

def migrateTo4 : Yobj → Fallible Yobj := atVersion 4 fun diskConf =>
  match fieldOpt Yarr diskConf "clients" with
  | none => pure diskConf
  | some clients => do
    let clients ← changeArr (fun _ client =>
      match client with
      | .obj c => do
        let c ← Yobj.set c "use_global_blocked_services" (.bool true)
        return .obj c
      | client => pure client) clients
    return diskConf.updateArr "clients" clients

def migrateTo5 (env : Env) : Yobj → Fallible Yobj := atVersion 5 fun diskConf => do
  let (diskConf, user) ← moveVal String "auth_name" "name" (diskConf, some [])
  match ← field String diskConf "auth_pass" with
  | none => return diskConf
  | some pass =>
    let diskConf := diskConf.delete "auth_pass"
    match env.generateFromPassword pass with
    | .error err => .error (.error ("generating password hash: " ++ err))
    | .ok hash =>
      let user ← user.set "password" (.str hash)
      diskConf.set "users" (.arr (some [.obj user]))

/-- The identifiers of a client: its address and its MAC, if they are there. -/
def clientIDs (i : Nat) (c : Yobj) : List String → Fallible (List YVal)
  | [] => .ok []
  | id :: ids =>
    match fieldVal String c id with
    | .error err => .error (.error ("client at index " ++ Nat.repr i ++ ": " ++ err))
    | .ok val => do
      let later ← clientIDs i c ids
      return if val.getD "" = "" then later else .str (val.getD "") :: later

def migrateTo6 : Yobj → Fallible Yobj := atVersion 6 fun diskConf => do
  match ← field Yarr diskConf "clients" with
  | none => return diskConf
  | some clients =>
    let clients ← changeArr (fun i client =>
      match client with
      | .obj c => do
        let ids ← clientIDs i c ["ip", "mac"]
        let c ← Yobj.set c "ids" (.arr (some ids))
        return .obj c
      | client => .error (.error
          ("unexpected type of client at index " ++ Nat.repr i ++ ": " ++ client.goType))) clients
    return diskConf.updateArr "clients" clients

def migrateTo7 : Yobj → Fallible Yobj := atVersion 7 fun diskConf =>
  match fieldOpt Yobj diskConf "dhcp" with
  | none => pure diskConf
  | some dhcp => do
    let (dhcp, dhcpv4) ← joinMoves [
      .same .string "gateway_ip",
      .same .string "subnet_mask",
      .same .string "range_start",
      .same .string "range_end",
      .same .int "lease_duration",
      .same .int "icmp_timeout_msec"] (dhcp, some []) []
    let dhcp ← dhcp.set "dhcpv4" (.obj dhcpv4)
    return diskConf.update "dhcp" dhcp

def migrateTo8 : Yobj → Fallible Yobj := atVersion 8 fun diskConf =>
  inObject diskConf "dns" fun dns => do
    match ← field String dns "bind_host" with
    | none => return dns
    | some bindHost => (dns.delete "bind_host").set "bind_hosts" (.arr (some [.str bindHost]))

def migrateTo9 : Yobj → Fallible Yobj := atVersion 9 fun diskConf =>
  inObject diskConf "dns" fun dns => moveWithin String dns "autohost_tld" "local_domain_name"

/-- `strings.Split(s, "/]")`. -/
def splitDomains : List Char → List (List Char)
  | [] => [[]]
  | '/' :: ']' :: rest => [] :: splitDomains rest
  | c :: rest =>
    match splitDomains rest with
    | [] => [[c]]
    | first :: others => (c :: first) :: others

/-- `strings.Contains`. -/
def containsText (part text : List Char) : Bool := text.tails.any (part.isPrefixOf ·)

/-- The part of `addQUICPort` behind the domains: the text with a port, if one is to be added. -/
def quicWithPort (env : Env) (ups : String) (port : Nat) : Option String :=
  if containsText "://".toList ups.toList then do
    let upsURL ← env.parseURL ups
    let host ← env.splitHost upsURL.host
    if upsURL.scheme ≠ "quic" ∨ host ≠ upsURL.host then none
    else some (upsURL.withHost (host ++ ":" ++ Nat.repr port))
  else none

/-- `addQUICPort`. -/
def addQUICPort (env : Env) (ups : String) (port : Nat) : String :=
  match ups.toList with
  | [] => ups
  | '#' :: _ => ups
  | '[' :: '/' :: rest =>
    match splitDomains rest with
    | [doms, withPort] =>
      match quicWithPort env (String.ofList withPort) port with
      | none => ups
      | some url => "[/" ++ String.ofList doms ++ "/]" ++ url
    | _ => ups
  | _ => (quicWithPort env ups port).getD ups

/-- `addQUICPorts`. -/
def addQUICPorts (env : Env) (port : Nat) : Yarr → Fallible Yarr :=
  changeArr fun _ uVal =>
    match uVal with
    | .str u => pure (.str (addQUICPort env u port))
    | uVal => .error (.error ("unexpected type of upstream field: " ++ uVal.goType))

/-- The upstreams under a key with their ports. -/
def migrateUpstreams (env : Env) (dns : Yobj) (key : String) : Fallible Yobj := do
  match ← field Yarr dns key with
  | none => return dns
  | some ups =>
    let ups ← addQUICPorts env 784 ups
    dns.set key (.arr ups)

def migrateTo10 (env : Env) : Yobj → Fallible Yobj := atVersion 10 fun diskConf =>
  inObject diskConf "dns" fun dns => do
    let dns ← migrateUpstreams env dns "upstream_dns"
    migrateUpstreams env dns "local_ptr_upstreams"

/-! ### Versions 11 to 20 -/

def migrateTo11 : Yobj → Fallible Yobj := atVersion 11 fun diskConf => do
  let rlimit ← field Int diskConf "rlimit_nofile"
  (diskConf.delete "rlimit_nofile").set "os" (object [
    ("group", .str ""),
    ("rlimit_nofile", .int (rlimit.getD 0)),
    ("user", .str "")])

def migrateTo12 : Yobj → Fallible Yobj := atVersion 12 fun diskConf =>
  inObject diskConf "dns" fun dns => do
    let qlogIvl ← field Int dns "querylog_interval"
    dns.set "querylog_interval" (.duration (days (qlogIvl.getD 90)))

def migrateTo13 : Yobj → Fallible Yobj := atVersion 13 fun diskConf => do
  match ← field Yobj diskConf "dns" with
  | none => return diskConf
  | some dns =>
    match ← field Yobj diskConf "dhcp" with
    | none => return diskConf
    | some dhcp =>
      let (dns, dhcp) ← moveSameVal String "local_domain_name" (dns, dhcp)
      return (diskConf.update "dns" dns).update "dhcp" dhcp

/-- The clients object of `migrateTo14`. -/
def clientsObject (persistent : Yarr) (runtimeClients : Yobj) : YVal :=
  object [("persistent", .arr persistent), ("runtime_sources", .obj runtimeClients)]

def migrateTo14 : Yobj → Fallible Yobj := atVersion 14 fun diskConf => do
  let persistent := (← field Yarr diskConf "clients").getD (some [])
  let runtimeClients : Yobj := some [
    ("whois", .bool true),
    ("arp", .bool true),
    ("rdns", .bool false),
    ("dhcp", .bool true),
    ("hosts", .bool true)]
  let diskConf ← diskConf.set "clients" (clientsObject persistent runtimeClients)
  match ← field Yobj diskConf "dns" with
  | none => return diskConf
  | some dns =>
    let (dns, runtimeClients) ← moveVal Bool "resolve_clients" "rdns" (dns, runtimeClients)
    (diskConf.update "dns" dns).set "clients" (clientsObject persistent runtimeClients)

def migrateTo15 : Yobj → Fallible Yobj := atVersion 15 fun diskConf => do
  match ← field Yobj diskConf "dns" with
  | none => return diskConf
  | some dns =>
    let qlog : Yobj := some [
      ("ignored", .arr (some [])),
      ("enabled", .bool true),
      ("file_enabled", .bool true),
      ("interval", .str "2160h"),
      ("size_memory", .int 1000)]
    let (dns, qlog) ← joinMoves [
      ⟨.bool, "querylog_enabled", "enabled"⟩,
      ⟨.bool, "querylog_file_enabled", "file_enabled"⟩,
      ⟨.any, "querylog_interval", "interval"⟩,
      ⟨.int, "querylog_size_memory", "size_memory"⟩] (dns, qlog) []
    (diskConf.update "dns" dns).set "querylog" (.obj qlog)

def migrateTo16 : Yobj → Fallible Yobj := atVersion 16 fun diskConf => do
  match ← field Yobj diskConf "dns" with
  | none => return diskConf
  | some dns =>
    let stats : Yobj := some [
      ("enabled", .bool true),
      ("interval", .int 1),
      ("ignored", .arr (some []))]
    let diskConf ← diskConf.set "statistics" (.obj stats)
    match ← field Int dns "statistics_interval" with
    | none => return diskConf
    | some statsIvl =>
      let stats ← (if statsIvl = 0 then stats.set "enabled" (.bool false)
        else stats.set "interval" (.int statsIvl))
      let diskConf ← diskConf.set "statistics" (.obj stats)
      return diskConf.update "dns" (dns.delete "statistics_interval")

def migrateTo17 : Yobj → Fallible Yobj := atVersion 17 fun diskConf =>
  inObject diskConf "dns" fun dns =>
    dns.set "edns_client_subnet" (object [
      ("enabled", .bool ((fieldOpt Bool dns "edns_client_subnet").getD false)),
      ("use_custom", .bool false),
      ("custom_ip", .str "")])

/-- The settings of `migrateTo18` and `migrateTo19`. -/
def safeSearchFields : List (String × YVal) := [
  ("enabled", .bool true),
  ("bing", .bool true),
  ("duckduckgo", .bool true),
  ("google", .bool true),
  ("pixabay", .bool true),
  ("yandex", .bool true),
  ("youtube", .bool true)]

def migrateTo18 : Yobj → Fallible Yobj := atVersion 18 fun diskConf =>
  inObject diskConf "dns" fun dns => do
    let dns ← dns.set "safe_search" (object safeSearchFields)
    let (dns, safeSearch) ← moveVal Bool "safesearch_enabled" "enabled" (dns, some safeSearchFields)
    dns.set "safe_search" (.obj safeSearch)

/-- A move whose error is only logged. -/
def tryMove (move : Yobj × Yobj → Fallible (Yobj × Yobj)) (objs : Yobj × Yobj) : Fallible (Yobj × Yobj) :=
  match move objs with
  | .error (.error _) => .ok objs
  | result => result

def migrateTo19 : Yobj → Fallible Yobj := atVersion 19 fun diskConf =>
  inObject diskConf "clients" fun clients =>
    match fieldOpt Yarr clients "persistent" with
    | none => pure clients
    | some persistent => do
      let persistent ← changeArr (fun _ p =>
        match p with
        | .obj c => do
          let (c, safeSearch) ← tryMove (moveVal Bool "safesearch_enabled" "enabled")
            (c, some safeSearchFields)
          let c ← Yobj.set c "safe_search" (.obj safeSearch)
          return .obj c
        | p => pure p) persistent
      return clients.updateArr "persistent" persistent

def migrateTo20 : Yobj → Fallible Yobj := atVersion 20 fun diskConf =>
  inObject diskConf "statistics" fun stats => do
    let ivl := (← field Int stats "interval").getD 0
    stats.set "interval" (.duration (days (if ivl = 0 then 1 else ivl)))

/-! ### Versions 21 to 29 -/

/-- The schedule of `migrateTo21` and `migrateTo22`. -/
def localSchedule : String × YVal := ("schedule", object [("time_zone", .str "Local")])

def migrateTo21 : Yobj → Fallible Yobj := atVersion 21 fun diskConf =>
  inObject diskConf "dns" fun dns => do
    let (dns, svcs) ← moveVal Yarr "blocked_services" "ids" (dns, some [localSchedule])
    dns.set "blocked_services" (.obj svcs)

def migrateTo22 : Yobj → Fallible Yobj := atVersion 22 fun diskConf =>
  inObject diskConf "clients" fun clients => do
    match ← field Yarr clients "persistent" with
    | none => return clients
    | some persistent =>
      let persistent ← changeArr (fun i p =>
        match p with
        | .obj c =>
          match fieldVal Yarr c "blocked_services" with
          | .error err => .error (.error
              ("persistent client at index " ++ Nat.repr i ++ ": " ++ err))
          | .ok none => pure p
          | .ok (some services) => do
            let c ← Yobj.set c "blocked_services" (object [("ids", .arr services), localSchedule])
            return .obj c
        | p => .error (.error
            ("persistent client at index " ++ Nat.repr i ++ ": unexpected type " ++ p.goType)))
        persistent
      return clients.updateArr "persistent" persistent

/-- `AddrPort.String`, for a port of 16 bits. -/
def addrPortString (addr : Addr) (port : Int) : String :=
  let port := Nat.repr (port % 2 ^ 16).toNat
  match addr with
  | .zero => "invalid AddrPort"
  | .v4 _ => addr.string ++ ":" ++ port
  | .v6 _ _ => "[" ++ addr.string ++ "]:" ++ port

def migrateTo23 (env : Env) : Yobj → Fallible Yobj := atVersion 23 fun diskConf => do
  match ← field String diskConf "bind_host" with
  | none => return diskConf
  | some bindHost =>
    match parseAddr bindHost with
    | none => .error (.error ("invalid bind_host value: " ++ bindHost))
    | some bindHostAddr =>
      let bindPort ← field Int diskConf "bind_port"
      let sessionTTL ← field Int diskConf "web_session_ttl"
      let diskConf ← diskConf.set "http" (object [
        ("address", .str (addrPortString bindHostAddr (bindPort.getD 0))),
        ("session_ttl", .str (env.durationString (hours (sessionTTL.getD 0))))])
      return ((diskConf.delete "bind_host").delete "bind_port").delete "web_session_ttl"

def migrateTo24 : Yobj → Fallible Yobj := atVersion 24 fun diskConf => do
  let (diskConf, logObj) ← joinMoves [
    ⟨.string, "log_file", "file"⟩,
    ⟨.int, "log_max_backups", "max_backups"⟩,
    ⟨.int, "log_max_size", "max_size"⟩,
    ⟨.int, "log_max_age", "max_age"⟩,
    ⟨.bool, "log_compress", "compress"⟩,
    ⟨.bool, "log_localtime", "local_time"⟩,
    ⟨.bool, "verbose", "verbose"⟩] (diskConf, some []) []
  if logObj.len ≠ 0 then diskConf.set "log" (.obj logObj) else return diskConf

def migrateTo25 : Yobj → Fallible Yobj := atVersion 25 fun diskConf => do
  match ← field Yobj diskConf "http" with
  | none => return diskConf
  | some httpObj =>
    let (diskConf, pprofObj) ← moveVal Bool "debug_pprof" "enabled"
      (diskConf, some [("enabled", .bool false), ("port", .int 6060)])
    let httpObj ← httpObj.set "pprof" (.obj pprofObj)
    return diskConf.update "http" httpObj

def migrateTo26 : Yobj → Fallible Yobj := atVersion 26 fun diskConf => do
  match ← field Yobj diskConf "dns" with
  | none => return diskConf
  | some dns =>
    let (dns, filteringObj) ← joinMoves [
      .same .bool "filtering_enabled",
      .same .int "filters_update_interval",
      .same .bool "parental_enabled",
      .same .bool "safebrowsing_enabled",
      .same .int "safebrowsing_cache_size",
      .same .int "safesearch_cache_size",
      .same .int "parental_cache_size",
      .same .obj "safe_search",
      .same .arr "rewrites",
      .same .obj "blocked_services",
      .same .bool "protection_enabled",
      .same .string "blocking_mode",
      .same .string "blocking_ipv4",
      .same .string "blocking_ipv6",
      .same .int "blocked_response_ttl",
      .same .any "protection_disabled_until",
      .same .string "parental_block_host",
      .same .string "safebrowsing_block_host"] (dns, some []) []
    let diskConf := diskConf.update "dns" dns
    if filteringObj.len ≠ 0 then diskConf.set "filtering" (.obj filteringObj) else return diskConf

/-- `replaceDot`. -/
def replaceDot (diskConf : Yobj) (key : String) : Fallible Yobj :=
  inObject diskConf key fun obj => do
    match ← field Yarr obj "ignored" with
    | none => return obj
    | some ignored =>
      let ignored ← changeArr (fun _ hostVal =>
        match hostVal with
        | .str host => pure (.str (if host = "." then "|.^" else host))
        | hostVal => pure hostVal) ignored
      return obj.updateArr "ignored" ignored

def migrateTo27 : Yobj → Fallible Yobj := atVersion 27 fun diskConf => do
  let diskConf ← replaceDot diskConf "querylog"
  replaceDot diskConf "statistics"

def migrateTo28 : Yobj → Fallible Yobj := atVersion 28 fun diskConf =>
  inObject diskConf "dns" fun dns => do
    let allServers := (fieldOpt Bool dns "all_servers").getD false
    let fastestAddr := (fieldOpt Bool dns "fastest_addr").getD false
    let dns ← dns.set "upstream_mode" (.upstreamMode (
      if allServers then "parallel" else if fastestAddr then "fastest_addr" else "load_balance"))
    return (dns.delete "all_servers").delete "fastest_addr"

/-- The absolute paths among the filters. -/
def filterPaths : Nat → List YVal → Fallible (List String)
  | _, [] => .ok []
  | i, .obj f :: filters => do
    let later ← filterPaths (i + 1) filters
    match fieldOpt String f "url" with
    | some u => return if u.toList.head? = some '/' then u :: later else later
    | none => return later
  | i, v :: _ => .error (.error
      ("filters: at index " ++ Nat.repr i ++ ": expected object, got " ++ v.goType))

def migrateTo29 (env : Env) : Yobj → Fallible Yobj := atVersion 29 fun diskConf => do
  match ← field Yarr diskConf "filters" with
  | none => return diskConf
  | some filterVals =>
    let paths ← filterPaths 0 (filterVals.getD [])
    inObject diskConf "filtering" fun fltConf =>
      fltConf.set "safe_fs_patterns" (.strings (env.userFilters :: paths))

/-! ### All versions -/

/-- `upgrades`: the migration from each version to the next. -/
def upgrades (env : Env) : List (Yobj → Fallible Yobj) := [
  migrateTo1,
  migrateTo2,
  migrateTo3,
  migrateTo4,
  migrateTo5 env,
  migrateTo6,
  migrateTo7,
  migrateTo8,
  migrateTo9,
  migrateTo10 env,
  migrateTo11,
  migrateTo12,
  migrateTo13,
  migrateTo14,
  migrateTo15,
  migrateTo16,
  migrateTo17,
  migrateTo18,
  migrateTo19,
  migrateTo20,
  migrateTo21,
  migrateTo22,
  migrateTo23 env,
  migrateTo24,
  migrateTo25,
  migrateTo26,
  migrateTo27,
  migrateTo28,
  migrateTo29 env]

/-- `LastSchemaVersion`. -/
def LastSchemaVersion : Nat := 29

end FirewallCore.Configmigrate
