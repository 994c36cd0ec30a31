import FirewallCore.Configmigrate.AlikeSteps

/-!
The settings of a document: what it holds at its places, and where a migration
puts them.

A migration that renames, moves or wraps a key has a rule for it in `Moves`. A
setting that no rule is for has to stay where it is.
-/

namespace FirewallCore.Configmigrate

open FirewallCore.Lib FirewallCore.Net

/-! ### Places -/

/-- A step of a place: the name of a field, or the index of an element. -/
inductive Key where
  | name (k : String)
  | index (i : Nat)
  deriving DecidableEq, Repr

instance : Coe String Key := ⟨.name⟩

/-- A place in a document. -/
abbrev Place := List Key

/-- The value at a place. -/
def YVal.at : Place → YVal → Option YVal
  | [], v => some v
  | .name k :: p, .obj (some fields) => (fields.lookup k).bind (YVal.at p)
  | .index i :: p, .arr (some items) => items[i]?.bind (YVal.at p)
  | _, _ => none

/-- Whether a value is a scalar, and not one that holds others. -/
def YVal.isScalar : YVal → Bool
  | .arr (some _) => false
  | .obj (some _) => false
  | .strings _ => false
  | _ => true

/-- The document has a scalar at the place. -/
def YVal.Sets (doc : YVal) (p : Place) (v : YVal) : Prop := doc.at p = some v ∧ v.isScalar = true

/-- Nothing is set by the value of a field. -/
def Vacant (field : Option YVal) : Prop := ∀ u p v, field = some u → ¬u.Sets p v

/-- What a value is when it is read as a type, which for a null is the zero value. -/
def readAs (T : Type) [GoType T] : YVal → Option T
  | .null => some GoType.zero
  | v => GoType.cast v

/-! ### Rules -/

/-- Where a setting is afterwards, and its value there. -/
abbrev Rule := Place → YVal → Place → YVal → Prop

/-- The same value, or the zero value of the type if the whole of what is moved is a null. -/
def Same (zero : YVal) (p : Place) (v v' : YVal) : Prop := v' = v ∨ p = [] ∧ v = .null ∧ v' = zero

def Kind.zero : Kind → YVal
  | .any => .null
  | .bool => .bool false
  | .int => .int 0
  | .string => .str ""
  | .arr => .arr none
  | .obj => .obj none

/-- The moves of `migrateTo7`, from `dhcp` to `dhcp.dhcpv4`. -/
def dhcpMoves : List Move := [
  .same .string "gateway_ip",
  .same .string "subnet_mask",
  .same .string "range_start",
  .same .string "range_end",
  .same .int "lease_duration",
  .same .int "icmp_timeout_msec"]

/-- The moves of `migrateTo15`, from `dns` to `querylog`. -/
def querylogMoves : List Move := [
  ⟨.bool, "querylog_enabled", "enabled"⟩,
  ⟨.bool, "querylog_file_enabled", "file_enabled"⟩,
  ⟨.any, "querylog_interval", "interval"⟩,
  ⟨.int, "querylog_size_memory", "size_memory"⟩]

/-- The moves of `migrateTo24`, to `log`. -/
def logMoves : List Move := [
  ⟨.string, "log_file", "file"⟩,
  ⟨.int, "log_max_backups", "max_backups"⟩,
  ⟨.int, "log_max_size", "max_size"⟩,
  ⟨.int, "log_max_age", "max_age"⟩,
  ⟨.bool, "log_compress", "compress"⟩,
  ⟨.bool, "log_localtime", "local_time"⟩,
  ⟨.bool, "verbose", "verbose"⟩]

/-- The moves of `migrateTo26`, from `dns` to `filtering`. -/
def filteringMoves : List Move := [
  .same .bool "filtering_enabled",
  .same .int "filters_update_interval",
  .same .bool "parental_enabled",
  .same .bool "safebrowsing_enabled",
  .same .int "safebrowsing_cache_size",
  .same .int "safesearch_cache_size",
  .same .int "parental_cache_size",
  .same .obj "safe_search",
  .same .arr "rewrites",
  .same .obj "blocked_services",
  .same .bool "protection_enabled",
  .same .string "blocking_mode",
  .same .string "blocking_ipv4",
  .same .string "blocking_ipv6",
  .same .int "blocked_response_ttl",
  .same .any "protection_disabled_until",
  .same .string "parental_block_host",
  .same .string "safebrowsing_block_host"]

/-- The mode that stands for the two flags of `migrateTo28`. -/
def upstreamModeOf (allServers fastestAddr : Bool) : String :=
  if allServers then "parallel" else if fastestAddr then "fastest_addr" else "load_balance"

/-- The new places of the keys that the migration to a version renames, moves or wraps. -/
inductive Moves (env : Env) : Nat → Rule
  | schemaVersion {n : Nat} {p : Place} {v : YVal} : Moves env n ("schema_version" :: p) v ["schema_version"] (.int n)
  | coredns {p : Place} {v : YVal} : Moves env 2 ("coredns" :: p) v ("dns" :: p) v
  | bootstrapDNS {p : Place} {v : YVal} :
      Moves env 3 ("dns" :: "bootstrap_dns" :: p) v ("dns" :: "bootstrap_dns" :: .index 0 :: p) v
  | authName {p : Place} {v v' : YVal} (same : Same (.str "") p v v') :
      Moves env 5 ("auth_name" :: p) v ("users" :: .index 0 :: "name" :: p) v'
  | authPass {v : YVal} {pass hash : String} (read : readAs String v = some pass)
      (hashed : env.generateFromPassword pass = .ok hash) :
      Moves env 5 ["auth_pass"] v ["users", .index 0, "password"] (.str hash)
  | dhcpv4 {move : Move} {p : Place} {v v' : YVal} (listed : move ∈ dhcpMoves) (same : Same move.kind.zero p v v') :
      Moves env 7 ("dhcp" :: move.srcKey :: p) v ("dhcp" :: "dhcpv4" :: move.dstKey :: p) v'
  | dnsBindHost {p : Place} {v v' : YVal} (same : Same (.str "") p v v') :
      Moves env 8 ("dns" :: "bind_host" :: p) v ("dns" :: "bind_hosts" :: .index 0 :: p) v'
  | autohostTLD {p : Place} {v v' : YVal} (same : Same (.str "") p v v') :
      Moves env 9 ("dns" :: "autohost_tld" :: p) v ("dns" :: "local_domain_name" :: p) v'
  | upstreams {key : String} {v v' : YVal} (listed : key ∈ ["upstream_dns", "local_ptr_upstreams"])
      (same : Same (.arr none) [] v v') : Moves env 10 ["dns", key] v ["dns", key] v'
  | upstream {key u : String} {i : Nat} (listed : key ∈ ["upstream_dns", "local_ptr_upstreams"]) :
      Moves env 10 ["dns", key, .index i] (.str u) ["dns", key, .index i] (.str (addQUICPort env u 784))
  | rlimit {p : Place} {v v' : YVal} (same : Same (.int 0) p v v') :
      Moves env 11 ("rlimit_nofile" :: p) v ("os" :: "rlimit_nofile" :: p) v'
  | querylogInterval {v : YVal} {n : Int} (read : readAs Int v = some n) :
      Moves env 12 ["dns", "querylog_interval"] v ["dns", "querylog_interval"] (.duration (n * 86400000000000))
  | localDomainName {p : Place} {v v' : YVal} (same : Same (.str "") p v v') :
      Moves env 13 ("dns" :: "local_domain_name" :: p) v ("dhcp" :: "local_domain_name" :: p) v'
  | clients {p : Place} {v v' : YVal} (same : Same (.arr none) p v v') :
      Moves env 14 ("clients" :: p) v ("clients" :: "persistent" :: p) v'
  | resolveClients {p : Place} {v v' : YVal} (same : Same (.bool false) p v v') :
      Moves env 14 ("dns" :: "resolve_clients" :: p) v ("clients" :: "runtime_sources" :: "rdns" :: p) v'
  | querylog {move : Move} {p : Place} {v v' : YVal} (listed : move ∈ querylogMoves) (same : Same move.kind.zero p v v') :
      Moves env 15 ("dns" :: move.srcKey :: p) v ("querylog" :: move.dstKey :: p) v'
  | statisticsInterval {p : Place} {v v' : YVal} (same : Same (.int 0) p v v') :
      Moves env 16 ("dns" :: "statistics_interval" :: p) v ("statistics" :: "interval" :: p) v'
  | noStatistics {v : YVal} (read : readAs Int v = some 0) :
      Moves env 16 ["dns", "statistics_interval"] v ["statistics", "enabled"] (.bool false)
  | ednsClientSubnet {p : Place} {v v' : YVal} (same : Same (.bool false) p v v') :
      Moves env 17 ("dns" :: "edns_client_subnet" :: p) v ("dns" :: "edns_client_subnet" :: "enabled" :: p) v'
  | safeSearch {p : Place} {v v' : YVal} (same : Same (.bool false) p v v') :
      Moves env 18 ("dns" :: "safesearch_enabled" :: p) v ("dns" :: "safe_search" :: "enabled" :: p) v'
  | clientSafeSearch {i : Nat} {p : Place} {v v' : YVal} (same : Same (.bool false) p v v') :
      Moves env 19 ("clients" :: "persistent" :: .index i :: "safesearch_enabled" :: p) v
        ("clients" :: "persistent" :: .index i :: "safe_search" :: "enabled" :: p) v'
  | interval {v : YVal} {n : Int} (read : readAs Int v = some n) :
      Moves env 20 ["statistics", "interval"] v ["statistics", "interval"]
        (.duration ((if n = 0 then 1 else n) * 86400000000000))
  | blockedServices {p : Place} {v v' : YVal} (same : Same (.arr none) p v v') :
      Moves env 21 ("dns" :: "blocked_services" :: p) v ("dns" :: "blocked_services" :: "ids" :: p) v'
  | clientBlockedServices {i : Nat} {p : Place} {v v' : YVal} (same : Same (.arr none) p v v') :
      Moves env 22 ("clients" :: "persistent" :: .index i :: "blocked_services" :: p) v
        ("clients" :: "persistent" :: .index i :: "blocked_services" :: "ids" :: p) v'
  | bindHost {v : YVal} {host : String} {addr : Addr} {port : Int} (read : readAs String v = some host)
      (parsed : parseAddr host = some addr) :
      Moves env 23 ["bind_host"] v ["http", "address"] (.str (addrPortString addr port))
  | bindPort {v : YVal} {host : String} {addr : Addr} {port : Int} (read : readAs Int v = some port)
      (parsed : parseAddr host = some addr) (low : 0 ≤ port) (high : port < 2 ^ 16) :
      Moves env 23 ["bind_port"] v ["http", "address"] (.str (addrPortString addr port))
  | webSessionTTL {v : YVal} {n : Int} (read : readAs Int v = some n) :
      Moves env 23 ["web_session_ttl"] v ["http", "session_ttl"] (.str (env.durationString (n * 3600000000000)))
  | log {move : Move} {p : Place} {v v' : YVal} (listed : move ∈ logMoves) (same : Same move.kind.zero p v v') :
      Moves env 24 (move.srcKey :: p) v ("log" :: move.dstKey :: p) v'
  | debugPprof {p : Place} {v v' : YVal} (same : Same (.bool false) p v v') :
      Moves env 25 ("debug_pprof" :: p) v ("http" :: "pprof" :: "enabled" :: p) v'
  | filtering {move : Move} {p : Place} {v v' : YVal} (listed : move ∈ filteringMoves)
      (same : Same move.kind.zero p v v') :
      Moves env 26 ("dns" :: move.srcKey :: p) v ("filtering" :: move.dstKey :: p) v'
  | ignoredDot {key : String} {i : Nat} (listed : key ∈ ["querylog", "statistics"]) :
      Moves env 27 [key, "ignored", .index i] (.str ".") [key, "ignored", .index i] (.str "|.^")
  | allServers {v : YVal} {allServers fastestAddr : Bool} (read : readAs Bool v = some allServers) :
      Moves env 28 ["dns", "all_servers"] v ["dns", "upstream_mode"]
        (.upstreamMode (upstreamModeOf allServers fastestAddr))
  | fastestAddr {v : YVal} {allServers fastestAddr : Bool} (read : readAs Bool v = some fastestAddr) :
      Moves env 28 ["dns", "fastest_addr"] v ["dns", "upstream_mode"]
        (.upstreamMode (upstreamModeOf allServers fastestAddr))

/-- A setting is at its new place, or still at its old one. -/
inductive Carries (env : Env) (version : Nat) : Rule
  | stays (p : Place) (v : YVal) : Carries env version p v p v
  | moves {p p' : Place} {v v' : YVal} (moves : Moves env version p v p' v') : Carries env version p v p' v'

/-- What becomes of a setting in the migrations from one version to another. -/
inductive Carried (env : Env) : Nat → Nat → Rule
  | here (n : Nat) (p : Place) (v : YVal) : Carried env n n p v p v
  | next {n m : Nat} {p p' p'' : Place} {v v' v'' : YVal} (before : Carried env n m p v p' v')
      (step : Carries env (m + 1) p' v' p'' v'') : Carried env n (m + 1) p v p'' v''

/-- All settings of a value are in another one, at the places that a rule gives. -/
def Keeps (rule : Rule) (u u' : YVal) : Prop :=
  ∀ p v, u.Sets p v → ∃ p' v', rule p v p' v' ∧ u'.Sets p' v'

/-! ### What is overwritten or dropped -/

/-- Something of the object under a key, if there is one. -/
def InObject (d : Yobj) (key : String) (P : Yobj → Prop) : Prop := ∀ inner, d.get key = some (.obj inner) → P inner

/-- Something of the objects in the array under a key. -/
def InObjects (d : Yobj) (key : String) (P : Yobj → Prop) : Prop :=
  ∀ items inner, d.get key = some (.arr (some items)) → .obj inner ∈ items → P inner

/-- A number of nanoseconds that a duration can be. -/
def IsDuration (ns : Int) : Prop := -2 ^ 63 ≤ ns ∧ ns < 2 ^ 63

/-- A flag whose error is dropped is one, or sets nothing. -/
def IsFlag (field : Option YVal) : Prop := ∀ v, field = some v → readAs Bool v = none → Vacant field

/-- What a migration to a version writes to sets nothing yet, and it drops nothing that it has read. -/
def Lossless (version : Nat) (d : Yobj) : Prop :=
  match version with
  | 2 => d.get "coredns" ≠ none → Vacant (d.get "dns")
  | 4 => InObjects d "clients" fun c => Vacant (c.get "use_global_blocked_services")
  | 5 => (d.get "auth_name" ≠ none → d.get "auth_pass" ≠ none) ∧ (d.get "auth_pass" ≠ none → Vacant (d.get "users"))
  | 6 => InObjects d "clients" fun c => Vacant (c.get "ids")
  | 7 => InObject d "dhcp" fun dhcp => Vacant (dhcp.get "dhcpv4")
  | 8 => InObject d "dns" fun dns => dns.get "bind_host" ≠ none → Vacant (dns.get "bind_hosts")
  | 9 => InObject d "dns" fun dns => dns.get "autohost_tld" ≠ none → Vacant (dns.get "local_domain_name")
  | 11 => Vacant (d.get "os")
  | 12 => InObject d "dns" fun dns =>
    ∀ n, dns.get "querylog_interval" = some (.int n) → IsDuration (n * 86400000000000)
  | 13 => InObject d "dns" fun dns => InObject d "dhcp" fun dhcp =>
    dns.get "local_domain_name" ≠ none → Vacant (dhcp.get "local_domain_name")
  | 15 => d.get "dns" ≠ none → Vacant (d.get "querylog")
  | 16 => d.get "dns" ≠ none → Vacant (d.get "statistics")
  | 17 => InObject d "dns" fun dns => IsFlag (dns.get "edns_client_subnet")
  | 18 => InObject d "dns" fun dns => Vacant (dns.get "safe_search")
  | 19 => InObject d "clients" fun clients => InObjects clients "persistent" fun c => Vacant (c.get "safe_search")
  | 20 => InObject d "statistics" fun stats =>
    ∀ n, stats.get "interval" = some (.int n) → IsDuration (n * 86400000000000)
  | 23 => d.get "bind_host" ≠ none → Vacant (d.get "http") ∧
      (∀ port, d.get "bind_port" = some (.int port) → 0 ≤ port ∧ port < 2 ^ 16) ∧
      ∀ n, d.get "web_session_ttl" = some (.int n) → IsDuration (n * 3600000000000)
  | 24 => (∃ move ∈ logMoves, d.get move.srcKey ≠ none) → Vacant (d.get "log")
  | 25 => InObject d "http" fun http => Vacant (http.get "pprof")
  | 26 => InObject d "dns" fun dns =>
    (∃ move ∈ filteringMoves, dns.get move.srcKey ≠ none) → Vacant (d.get "filtering")
  | 28 => InObject d "dns" fun dns =>
    Vacant (dns.get "upstream_mode") ∧ IsFlag (dns.get "all_servers") ∧ IsFlag (dns.get "fastest_addr")
  | 29 => d.get "filters" ≠ none → InObject d "filtering" fun filtering => Vacant (filtering.get "safe_fs_patterns")
  | _ => True

/-! ### Reading -/

section Reading

variable {T : Type} [GoType T] {d d' : Yobj} {key : String} {u v : YVal} {p : Place} {rule : Rule}

/-- The types of which a value that has them is boxed as itself. -/
class LawfulType (T : Type) [GoType T] : Prop where
  box_cast : ∀ {v : YVal} {x : T}, GoType.cast v = some x → GoType.box x = v

instance : LawfulType YVal := ⟨by
  intro v x cast
  cases cast
  rfl⟩

instance : LawfulType Bool := ⟨by
  intro v x cast
  cases cast_bool.mp cast
  rfl⟩

instance : LawfulType Int := ⟨by
  intro v x cast
  cases cast_int.mp cast
  rfl⟩

instance : LawfulType String := ⟨by
  intro v x cast
  cases cast_string.mp cast
  rfl⟩

instance : LawfulType Yarr := ⟨by
  intro v x cast
  cases cast_arr.mp cast
  rfl⟩

instance : LawfulType Yobj := ⟨by
  intro v x cast
  cases cast_obj.mp cast
  rfl⟩

theorem get_none_of_fieldVal (read : fieldVal T d key = .ok none) : d.get key = none := by
  unfold fieldVal at read
  split at read
  · assumption
  · cases read
  · split at read
    · cases read
    · cases read

theorem get_of_fieldVal {x : T} (read : fieldVal T d key = .ok (some x)) :
    ∃ u, d.get key = some u ∧ readAs T u = some x := by
  unfold fieldVal at read
  split at read
  · cases read
  · rename_i found
    cases read
    exact ⟨.null, found, rfl⟩
  · rename_i u notNull found
    split at read
    · cases read
    · rename_i cast
      cases read
      refine ⟨u, found, ?_⟩
      unfold readAs
      split
      · exact absurd rfl notNull
      · exact cast

/-- A field whose error is dropped. -/
theorem fieldOpt_eq (d : Yobj) (key : String) : fieldOpt T d key = (d.get key).bind (readAs T) := by
  unfold fieldOpt fieldVal
  cases d.get key with
  | none => rfl
  | some v =>
    cases v with
    | null => rfl
    | _ =>
      simp only [Option.bind_some, readAs]
      split
      · rename_i err
        split at err
        · rename_i cast
          rw [cast]
        · cases err
      · rename_i read
        split at read
        · cases read
        · rename_i cast
          cases read
          rw [cast]

/-- What is boxed after it was read as a type. -/
def Boxed (zero u u' : YVal) : Prop := u' = u ∨ u = .null ∧ u' = zero

theorem boxed_of_readAs [LawfulType T] {x : T} (read : readAs T u = some x) :
    Boxed (GoType.box (GoType.zero : T)) u (GoType.box x) := by
  unfold readAs at read
  split at read
  · cases read
    exact .inr ⟨rfl, rfl⟩
  · exact .inl (LawfulType.box_cast read)

theorem isScalar_of_int {n : Int} (read : readAs Int u = some n) : u.isScalar = true := by
  unfold readAs at read
  split at read
  · rfl
  · rw [cast_int.mp read]
    rfl

theorem isScalar_of_string {s : String} (read : readAs String u = some s) : u.isScalar = true := by
  unfold readAs at read
  split at read
  · rfl
  · rw [cast_string.mp read]
    rfl

theorem isScalar_of_bool {b : Bool} (read : readAs Bool u = some b) : u.isScalar = true := by
  unfold readAs at read
  split at read
  · rfl
  · rw [cast_bool.mp read]
    rfl

end Reading

/-! ### Settings of objects and arrays -/

section Sets

variable {d d' : Yobj} {k k' : String} {u u' v : YVal} {p : Place} {rule : Rule} {items items' : List YVal}

theorem sets_name : (YVal.obj d).Sets (.name k :: p) v ↔ ∃ u, d.get k = some u ∧ u.Sets p v := by
  unfold YVal.Sets
  cases d with
  | none => simp [YVal.at, Yobj.get]
  | some fields =>
    simp only [YVal.at, Yobj.get, Option.bind_some, Option.bind_eq_some_iff]
    constructor
    · rintro ⟨⟨u, found, at_⟩, scalar⟩
      exact ⟨u, found, at_, scalar⟩
    · rintro ⟨u, found, at_, scalar⟩
      exact ⟨⟨u, found, at_⟩, scalar⟩

theorem sets_index {i : Nat} : (YVal.arr (some items)).Sets (.index i :: p) v ↔ ∃ u, items[i]? = some u ∧ u.Sets p v := by
  unfold YVal.Sets
  simp only [YVal.at, Option.bind_eq_some_iff]
  constructor
  · rintro ⟨⟨u, found, at_⟩, scalar⟩
    exact ⟨u, found, at_, scalar⟩
  · rintro ⟨u, found, at_, scalar⟩
    exact ⟨⟨u, found, at_⟩, scalar⟩

/-- A scalar is set at its own place only. -/
theorem sets_of_scalar (scalar : u.isScalar = true) (sets : u.Sets p v) : p = [] ∧ v = u := by
  obtain ⟨at_, -⟩ := sets
  cases p with
  | nil =>
    cases at_
    exact ⟨rfl, rfl⟩
  | cons key p =>
    unfold YVal.at at at_
    split at at_
    · contradiction
    · cases scalar
    · cases scalar
    · cases at_

theorem sets_scalar (scalar : v.isScalar = true) : v.Sets [] v := ⟨rfl, scalar⟩

/-- The settings of a value that is boxed. -/
theorem Boxed.sets {zero : YVal} (boxed : Boxed zero u u') (scalar : zero.isScalar = true) (sets : u.Sets p v) :
    ∃ v', Same zero p v v' ∧ u'.Sets p v' := by
  rcases boxed with rfl | ⟨rfl, rfl⟩
  · exact ⟨v, .inl rfl, sets⟩
  · obtain ⟨rfl, rfl⟩ := sets_of_scalar rfl sets
    exact ⟨_, .inr ⟨rfl, rfl, rfl⟩, sets_scalar scalar⟩

/-- The rule below a step of a place. -/
def Under (key : Key) (rule : Rule) : Rule := fun p v p' v' => rule (key :: p) v (key :: p') v'

/-- The settings of a field are in another object. -/
def Survives (rule : Rule) (d : Yobj) (k : String) (d' : Yobj) : Prop :=
  ∀ u p v, d.get k = some u → u.Sets p v → ∃ k' u' p' v',
    rule (.name k :: p) v (.name k' :: p') v' ∧ d'.get k' = some u' ∧ u'.Sets p' v'

theorem keeps_obj (doc : d ≠ none) (each : ∀ k, Survives rule d k d') : Keeps rule (.obj d) (.obj d') := by
  intro p v sets
  cases p with
  | nil =>
    obtain ⟨at_, scalar⟩ := sets
    cases at_
    cases d with
    | none => exact absurd rfl doc
    | some fields => cases scalar
  | cons key p =>
    cases key with
    | name k =>
      obtain ⟨u, found, sets⟩ := sets_name.mp sets
      obtain ⟨k', u', p', v', carried, found', sets'⟩ := each k u p v found sets
      exact ⟨.name k' :: p', v', carried, sets_name.mpr ⟨u', found', sets'⟩⟩
    | index i =>
      obtain ⟨at_, -⟩ := sets
      cases at_

theorem keeps_arr (each : ∀ (i : Nat) u, items[i]? = some u → ∃ u', items'[i]? = some u' ∧ Keeps (Under (.index i) rule) u u') :
    Keeps rule (.arr (some items)) (.arr (some items')) := by
  intro p v sets
  cases p with
  | nil =>
    obtain ⟨at_, scalar⟩ := sets
    cases at_
    cases scalar
  | cons key p =>
    cases key with
    | name k =>
      obtain ⟨at_, -⟩ := sets
      cases at_
    | index i =>
      obtain ⟨u, found, sets⟩ := sets_index.mp sets
      obtain ⟨u', found', keeps⟩ := each i u found
      obtain ⟨p', v', carried, sets'⟩ := keeps p v sets
      exact ⟨.index i :: p', v', carried, sets_index.mpr ⟨u', found', sets'⟩⟩

theorem keeps_refl (stays : ∀ p v, rule p v p v) (u : YVal) : Keeps rule u u :=
  fun p v sets => ⟨p, v, stays p v, sets⟩

theorem survives_same (stays : ∀ p v, rule p v p v) (same : d'.get k = d.get k) : Survives rule d k d' :=
  fun u p v found sets => ⟨k, u, p, v, stays _ v, same.trans found, sets⟩

theorem survives_vacant (vacant : Vacant (d.get k)) : Survives rule d k d' :=
  fun u p v found sets => absurd sets (vacant u p v found)

theorem survives_absent (absent : d.get k = none) : Survives rule d k d' := by
  intro u p v found
  rw [absent] at found
  cases found

/-- What was in a field is in another one. -/
theorem survives_moved (found : d.get k = some u) (found' : d'.get k' = some u')
    (each : ∀ p v, u.Sets p v → ∃ p' v', rule (.name k :: p) v (.name k' :: p') v' ∧ u'.Sets p' v') :
    Survives rule d k d' := by
  intro w p v foundW sets
  rw [found] at foundW
  cases foundW
  obtain ⟨p', v', carried, sets'⟩ := each p v sets
  exact ⟨k', u', p', v', carried, found', sets'⟩

end Sets

end FirewallCore.Configmigrate
