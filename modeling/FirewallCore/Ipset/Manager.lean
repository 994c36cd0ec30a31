import FirewallCore.Dhcpd.Options
import FirewallCore.Net.Addr
import Mathlib.Logic.Function.Basic

/-!
The ipset manager of `ipset_linux.go`: the configuration lines, the lookup of a
host and the sending of addresses to the sets of the kernel. `process` is the
caller in `dnsforward/ipset.go`.

The kernel is a parameter. It lists its sets, answers header queries, and takes
or refuses each request to add entries; the answers to the requests of one
`Add` are part of the call.
-/

namespace FirewallCore.Ipset

open FirewallCore.Net
open FirewallCore.Dhcpd (trimSpace)

abbrev Host := List Char

/-- `netfilter.ProtoFamily`. -/
inductive ProtoFamily where
  | ipv4
  | ipv6
  | other (value : UInt8)
  deriving DecidableEq, Repr

/-- `props`. -/
structure Props where
  name : List Char
  typeName : List Char
  family : ProtoFamily
  isPersistent : Bool
  deriving DecidableEq, Repr

/-- `ipset.HeaderPolicy`, as far as it is read. -/
structure HeaderPolicy where
  family : Option ProtoFamily
  typeName : List Char
  deriving DecidableEq, Repr

inductive Error where
  /-- `expected one slash`, in a line. -/
  | oneSlash (confStr : List Char)
  /-- `empty ipset name`, in a line. -/
  | emptyName (confStr : List Char)
  | unknownIpset (n : List Char)
  /-- What the kernel answered. -/
  | kernel (text : String)
  /-- `empty response or no family data`. -/
  | noFamilyData
  | headerFamily (family : ProtoFamily)
  /-- `making header query`, with the name and the type of the set. -/
  | headerQuery (name typeName : List Char) (err : Error)
  | configLine (idx : Nat) (err : Error)
  /-- `getting ipsets from config line`. -/
  | gettingIpsets (idx : Nat) (err : Error)
  | unexpectedFamily (name typeName : List Char) (family : ProtoFamily)
  /-- `adding` the addresses of a host to a set. -/
  | adding (host : Host) (ips : List IP) (name typeName : List Char)
  deriving DecidableEq, Repr

/-- The queries that the manager makes while it reads its configuration. -/
structure Kernel where
  listAll : Except String (List Props)
  header : List Char → Except String (Option HeaderPolicy)

/-- `manager`, as the configuration leaves it. -/
structure Manager where
  nameToIpset : List Char → Option Props
  domainToIpsets : Host → List Props

def Manager.empty : Manager := ⟨fun _ => none, fun _ => []⟩

/-! ### The configuration -/

section Config

variable (toLower : Char → Char) (kernel : Kernel)

/-- `parseIpsetConfigLine`: the hosts and the names of the sets. -/
def parseIpsetConfigLine (confStr : List Char) :
    Except Error (List Host × List (List Char)) :=
  let confStr := trimSpace confStr
  match confStr.splitOn '/' with
  | [hosts, ipsetNames] =>
    let ipsetNames := (ipsetNames.splitOn ',').map trimSpace
    if ipsetNames.any (·.isEmpty) then .error (.emptyName confStr)
    else .ok ((hosts.splitOn ',').map fun host => (trimSpace host).map toLower, ipsetNames)
  | _ => .error (.oneSlash confStr)

/-- `ipsetProps`. -/
def ipsetProps (name : List Char) : Except Error Props :=
  match kernel.header name with
  | .error text => .error (.kernel text)
  | .ok none => .error .noFamilyData
  | .ok (some res) =>
    match res.family with
    | none => .error .noFamilyData
    | some (.other value) => .error (.headerFamily (.other value))
    | some family => .ok ⟨name, res.typeName, family, false⟩

/-- `currentlyKnown[n]`: of several entries under one name the last one counts. -/
def currentlyKnown (all : List Props) (n : List Char) : Option Props :=
  all.reverse.find? fun p => p.name == n

/-- One name in the loop of `ipsets`. -/
def setProps (all : List Props) (n : List Char) : Except Error Props :=
  match currentlyKnown all n with
  | none => .error (.unknownIpset n)
  | some p =>
    match p.family with
    | .other _ =>
      match ipsetProps kernel n with
      | .error err => .error (.headerQuery p.name p.typeName err)
      | .ok p => .ok p
    | _ => .ok p

/-- `ipsets`. The new entries of `nameToIpset` come with the sets. -/
def ipsets (all : List Props) (m : Manager) : List (List Char) → Except Error (List Props × Manager)
  | [] => .ok ([], m)
  | n :: names =>
    match setProps kernel all n with
    | .error err => .error err
    | .ok p =>
      let m := { m with nameToIpset := Function.update m.nameToIpset n (some p) }
      match ipsets all m names with
      | .error err => .error err
      | .ok (sets, m) => .ok (p :: sets, m)

/-- The inner loop of `parseIpsetConfig`: the sets are appended to what the host had. -/
def addHosts (sets : List Props) (m : Manager) (hosts : List Host) : Manager :=
  hosts.foldl (fun m host =>
    { m with domainToIpsets :=
        Function.update m.domainToIpsets host (m.domainToIpsets host ++ sets) }) m

/-- The outer loop of `parseIpsetConfig`, from the line at index `i`. -/
def parseLines (all : List Props) (i : Nat) (m : Manager) : List (List Char) → Except Error Manager
  | [] => .ok m
  | confStr :: rest =>
    match parseIpsetConfigLine toLower confStr with
    | .error err => .error (.configLine i err)
    | .ok (hosts, ipsetNames) =>
      match ipsets kernel all m ipsetNames with
      | .error err => .error (.gettingIpsets i err)
      | .ok (sets, m) => parseLines all (i + 1) (addHosts sets m hosts) rest

/-- `parseIpsetConfig`, on a manager without sets. -/
def parseIpsetConfig (ipsetConf : List (List Char)) : Except Error Manager :=
  match kernel.listAll with
  | .error text => .error (.kernel text)
  | .ok all => parseLines toLower kernel all 0 .empty ipsetConf

end Config

/-! ### Adding addresses -/

/-- `ipInIpsetEntry`. Bytes that are no address leave the array at zeroes. -/
structure IpInIpsetEntry where
  ipsetName : List Char
  ipArr : Nat
  deriving DecidableEq, Repr

def entryOf (ipsetName : List Char) (ip : IP) : IpInIpsetEntry :=
  ⟨ipsetName, ip.to16.getD 0⟩

/-- The two connections to the kernel. -/
inductive Conn where
  | ipv4Conn
  | ipv6Conn
  deriving DecidableEq, Repr

def connOf : ProtoFamily → Option Conn
  | .ipv4 => some .ipv4Conn
  | .ipv6 => some .ipv6Conn
  | .other _ => none

/-- One `conn.Add`. -/
structure Request where
  conn : Conn
  ipsetName : List Char
  entries : List IP
  deriving DecidableEq, Repr

/-- The cache of the manager, and the members of the sets of the kernel. -/
structure State where
  addedIPs : List IpInIpsetEntry
  members : List IpInIpsetEntry
  deriving DecidableEq, Repr

/-- The addresses that are not cached for a set. -/
def State.unsent (s : State) (name : List Char) (ips : List IP) : List IP :=
  ips.filter fun ip => entryOf name ip ∉ s.addedIPs

/-- What `addIPs`, `addToSets` and `Add` return, and the requests they made. -/
structure Outcome where
  n : Nat
  err : Option Error
  requests : List Request
  deriving DecidableEq, Repr

namespace Manager

variable (m : Manager)

/-- The loop of `lookupHost`: the entry of the host, or of the host after its next dot. -/
def lookupLoop (host : Host) : Option (List Props) :=
  if m.domainToIpsets host ≠ [] then some (m.domainToIpsets host)
  else
    match index : host.findIdx? (· == '.') with
    | none => none
    | some i => lookupLoop (host.drop (i + 1))
termination_by host.length
decreasing_by
  obtain ⟨small, -, -⟩ := List.findIdx?_eq_some_iff_getElem.mp index
  simp only [List.length_drop]
  omega

/-- `lookupHost`; in the end there is the root catch-all. -/
def lookupHost (host : Host) : List Props :=
  (m.lookupLoop host).getD (m.domainToIpsets [])

/-- `m.nameToIpset[name].isPersistent`. -/
def isPersistent (e : IpInIpsetEntry) : Bool :=
  (m.nameToIpset e.ipsetName).any (·.isPersistent)

/-- `addIPs`. `fails` is whether the kernel refuses the request, if one is made. Only what was
sent to a set without a timeout is cached. -/
def addIPs (fails : Bool) (host : Host) (set : Props) (ips : List IP) (s : State) :
    Outcome × State :=
  let entries := s.unsent set.name ips
  let newAddedEntries := entries.map (entryOf set.name)
  if entries.length = 0 then (⟨0, none, []⟩, s)
  else
    match connOf set.family with
    | none => (⟨0, some (.unexpectedFamily set.name set.typeName set.family), []⟩, s)
    | some conn =>
      let request := ⟨conn, set.name, entries⟩
      if fails then (⟨0, some (.adding host ips set.name set.typeName), [request]⟩, s)
      else (⟨entries.length, none, [request]⟩,
        { addedIPs := s.addedIPs ++ newAddedEntries.filter m.isPersistent
          members := s.members ++ newAddedEntries })

/-- `addToSets`; `fails i` is for the `i`-th of the sets. It stops at the first error. -/
def addToSets (host : Host) (ip4s ip6s : List IP) :
    (Nat → Bool) → List Props → State → Outcome × State
  | _, [], s => (⟨0, none, []⟩, s)
  | fails, set :: rest, s =>
    let go (ips : List IP) : Outcome × State :=
      let (first, s) := m.addIPs (fails 0) host set ips s
      match first.err with
      | some err => (⟨0, some err, first.requests⟩, s)
      | none =>
        let (later, s) := addToSets host ip4s ip6s (fun i => fails (i + 1)) rest s
        (⟨first.n + later.n, later.err, first.requests ++ later.requests⟩, s)
    match set.family with
    | .ipv4 => go ip4s
    | .ipv6 => go ip6s
    | .other _ => (⟨0, some (.unexpectedFamily set.name set.typeName set.family), []⟩, s)

end Manager

/-- A call of `Add`, and what the kernel answers to its requests. The addresses come split by
family. -/
structure Call where
  host : Host
  ip4s : List IP
  ip6s : List IP
  fails : Nat → Bool
  is4 : ∀ ip ∈ ip4s, ip.to4.isSome
  is6 : ∀ ip ∈ ip6s, ip.to4 = none ∧ ip.to16.isSome

/-- `Add`. -/
def Manager.add (m : Manager) (call : Call) (s : State) : Outcome × State :=
  let sets := m.lookupHost call.host
  if sets.length = 0 then (⟨0, none, []⟩, s)
  else m.addToSets call.host call.ip4s call.ip6s call.fails sets s

/-! ### The caller -/

/-- `dns.RR`, as far as `ipFromRR` tells records apart. -/
inductive RR where
  | a (ip : IP)
  | aaaa (ip : IP)
  | other
  deriving DecidableEq, Repr

def ipFromRR : RR → IP
  | .a ip => ip
  | .aaaa ip => ip
  | .other => .nil

/-- `ipsFromAnswer`. -/
def ipsFromAnswer : List RR → List IP × List IP
  | [] => ([], [])
  | rr :: ans =>
    let ip := ipFromRR rr
    let (ip4s, ip6s) := ipsFromAnswer ans
    if ip.isNil then (ip4s, ip6s)
    else if ip.to4 = none then (ip4s, ip :: ip6s)
    else (ip :: ip4s, ip6s)

/-- The host that `process` passes to `Add`. -/
def processHost (toLower : Char → Char) (name : List Char) : Host :=
  (if name.getLast? = some '.' then name.dropLast else name).map toLower

/-- The parser of messages leaves addresses of 4 or 16 bytes in the records, or none at all. -/
def RR.Parsed (rr : RR) : Prop := (ipFromRR rr).isNil = true ∨ (ipFromRR rr).to16.isSome = true

theorem ipsFromAnswer_fst (ans : List RR) : ∀ ip ∈ (ipsFromAnswer ans).1, ip.to4.isSome := by
  induction ans with
  | nil => simp [ipsFromAnswer]
  | cons rr ans ih =>
    intro ip member
    simp only [ipsFromAnswer] at member
    split at member
    · exact ih ip member
    split at member
    · exact ih ip member
    next is4 =>
      rcases List.mem_cons.mp member with rfl | later
      · exact Option.isSome_iff_ne_none.mpr is4
      · exact ih ip later

theorem ipsFromAnswer_snd (ans : List RR) (parsed : ∀ rr ∈ ans, rr.Parsed) :
    ∀ ip ∈ (ipsFromAnswer ans).2, ip.to4 = none ∧ ip.to16.isSome := by
  induction ans with
  | nil => simp [ipsFromAnswer]
  | cons rr ans ih =>
    have later := ih fun rr member => parsed rr (List.mem_cons_of_mem _ member)
    intro ip member
    simp only [ipsFromAnswer] at member
    split at member
    · exact later ip member
    next notNil =>
      split at member
      next not4 =>
        rcases List.mem_cons.mp member with rfl | member
        · exact ⟨not4, (parsed rr (by simp)).resolve_left (by simpa using notNil)⟩
        · exact later ip member
      · exact later ip member

/-- The call of `Add` that `process` makes for the answer to a query. -/
def process (toLower : Char → Char) (name : List Char) (ans : List RR) (fails : Nat → Bool)
    (parsed : ∀ rr ∈ ans, rr.Parsed) : Call where
  host := processHost toLower name
  ip4s := (ipsFromAnswer ans).1
  ip6s := (ipsFromAnswer ans).2
  fails := fails
  is4 := ipsFromAnswer_fst ans
  is6 := ipsFromAnswer_snd ans parsed

end FirewallCore.Ipset

/-!
Which sets a host goes to: the sets that the lines configure for the longest
configured domain which is the host or a parent of it, and those of the
catch-all when there is none (`lookupHost_routed`).
-/

namespace FirewallCore.Ipset

/-- `d` is `h`, or what is left of `h` after one of its dots. -/
def IsDomainOf (d h : Host) : Prop := d = h ∨ ∃ front, h = front ++ '.' :: d

/-- Some line configures the set for the domain. -/
def SetFor (toLower : Char → Char) (lines : List (List Char)) (d : Host) (n : List Char) : Prop :=
  ∃ line ∈ lines, ∃ hosts names, parseIpsetConfigLine toLower line = .ok (hosts, names) ∧
    d ∈ hosts ∧ n ∈ names

/-- The domain whose sets are for `h`. -/
def RoutedTo (toLower : Char → Char) (lines : List (List Char)) (h d : Host) : Prop :=
  (∃ n, SetFor toLower lines d n) ∧ IsDomainOf d h ∧
      (∀ e n, SetFor toLower lines e n → IsDomainOf e h → e.length ≤ d.length) ∨
    (∀ e n, SetFor toLower lines e n → ¬IsDomainOf e h) ∧ d = []

/-- The sets as the kernel lists them. -/
def Kernel.sets (kernel : Kernel) : List Props := kernel.listAll.toOption.getD []

/-- The properties of a set as the manager takes them, from the list or by a header query. -/
def Kernel.props (kernel : Kernel) (n : List Char) : Option Props :=
  (setProps kernel kernel.sets n).toOption

/-- The kernel lists the set, with its family, as one without a timeout. -/
def Kernel.Lasting (kernel : Kernel) (n : List Char) : Prop :=
  ∃ p, currentlyKnown kernel.sets n = some p ∧ p.isPersistent = true ∧
    (p.family = .ipv4 ∨ p.family = .ipv6)

section Domains

variable {d h : Host} {i : Nat}

theorem isDomainOf_undotted (index : h.findIdx? (· == '.') = none) : IsDomainOf d h ↔ d = h := by
  constructor
  · rintro (same | ⟨front, rfl⟩)
    · exact same
    · have none := List.findIdx?_eq_none_iff.mp index '.' (by simp)
      simp at none
  · exact .inl

theorem isDomainOf_dotted (index : h.findIdx? (· == '.') = some i) :
    IsDomainOf d h ↔ d = h ∨ IsDomainOf d (h.drop (i + 1)) := by
  obtain ⟨small, dot, earlier⟩ := List.findIdx?_eq_some_iff_getElem.mp index
  have cut : h = h.take i ++ '.' :: h.drop (i + 1) := by
    have at_dot : h[i] = '.' := by simpa using dot
    rw [← at_dot, ← List.drop_eq_getElem_cons small, List.take_append_drop]
  constructor
  · rintro (same | ⟨front, whole⟩)
    · exact .inl same
    right
    have first : i ≤ front.length := by
      by_contra beyond
      have undotted := earlier front.length (by omega)
      simp [whole] at undotted
    rcases Nat.lt_or_eq_of_le first with inside | rfl
    · right
      exact ⟨front.drop (i + 1), by rw [whole, List.drop_append_of_le_length (by omega)]⟩
    · left
      rw [whole, ← List.drop_drop, List.drop_left]
      rfl
  · rintro (same | rfl | ⟨front, rest⟩)
    · exact .inl same
    · exact .inr ⟨h.take i, cut⟩
    · refine .inr ⟨h.take i ++ '.' :: front, ?_⟩
      rw [List.append_assoc, List.cons_append, ← rest]
      exact cut

end Domains

/-! ### The loop of the lookup -/

section Lookup

variable (m : Manager) (h : Host)

theorem lookupLoop_some {sets : List Props} (found : m.lookupLoop h = some sets) :
    ∃ d, IsDomainOf d h ∧ m.domainToIpsets d ≠ [] ∧ sets = m.domainToIpsets d ∧
      ∀ e, IsDomainOf e h → m.domainToIpsets e ≠ [] → e.length ≤ d.length := by
  fun_induction Manager.lookupLoop m h with
  | case1 host here =>
    refine ⟨host, .inl rfl, here, (Option.some.inj found).symm, ?_⟩
    rintro e (rfl | ⟨front, rfl⟩) -
    · exact Nat.le_refl _
    · simp only [List.length_append, List.length_cons]
      omega
  | case2 => cases found
  | case3 host here i index ih =>
    obtain ⟨d, domain, configured, same, longest⟩ := ih found
    refine ⟨d, (isDomainOf_dotted index).mpr (.inr domain), configured, same, ?_⟩
    intro e other nonempty
    rcases (isDomainOf_dotted index).mp other with rfl | later
    · exact absurd nonempty here
    · exact longest e later nonempty

theorem lookupLoop_none (missed : m.lookupLoop h = none) (e : Host) (domain : IsDomainOf e h) :
    m.domainToIpsets e = [] := by
  fun_induction Manager.lookupLoop m h with
  | case1 => cases missed
  | case2 host here index =>
    rw [(isDomainOf_undotted index).mp domain]
    exact not_not.mp here
  | case3 host here i index ih =>
    rcases (isDomainOf_dotted index).mp domain with rfl | later
    · exact not_not.mp here
    · exact ih missed later

end Lookup

/-! ### What the configuration leaves -/

section Config

variable {toLower : Char → Char} {kernel : Kernel} {all : List Props} {lines : List (List Char)}
  {m m' : Manager} {n : List Char} {p : Props}

theorem currentlyKnown_name (known : currentlyKnown all n = some p) : p.name = n := by
  simpa using List.find?_some known

theorem ipsetProps_ok (done : ipsetProps kernel n = .ok p) :
    p.name = n ∧ (p.family = .ipv4 ∨ p.family = .ipv6) ∧ p.isPersistent = false := by
  unfold ipsetProps at done
  split at done
  · cases done
  · cases done
  split at done
  · cases done
  · cases done
  next family notOther _ =>
    cases done
    cases family with
    | ipv4 => exact ⟨rfl, .inl rfl, rfl⟩
    | ipv6 => exact ⟨rfl, .inr rfl, rfl⟩
    | other value => exact absurd rfl (notOther value)

/-- The name of a set is the one it was asked for, its family is one of the two, and it is held
to be persistent only if the list of the kernel says so. -/
theorem setProps_ok (done : setProps kernel all n = .ok p) :
    p.name = n ∧ (p.family = .ipv4 ∨ p.family = .ipv6) ∧
      (p.isPersistent = true → currentlyKnown all n = some p) := by
  unfold setProps at done
  split at done
  · cases done
  next q known =>
    split at done
    · split at done
      · cases done
      next header =>
        cases done
        obtain ⟨name, family, temporary⟩ := ipsetProps_ok header
        refine ⟨name, family, ?_⟩
        intro persistent
        rw [temporary] at persistent
        cases persistent
    next notOther =>
      cases done
      refine ⟨currentlyKnown_name known, ?_, fun _ => known⟩
      cases family : p.family with
      | ipv4 => exact .inl rfl
      | ipv6 => exact .inr rfl
      | other value => exact absurd family (notOther value)

theorem ipsets_ok {names : List (List Char)} {sets : List Props}
    (done : ipsets kernel all m names = .ok (sets, m')) :
    m'.domainToIpsets = m.domainToIpsets ∧
      (∀ p, p ∈ sets ↔ ∃ n ∈ names, setProps kernel all n = .ok p) ∧
      (∀ n ∈ names, ∃ p, setProps kernel all n = .ok p) ∧
      ∀ n p, m'.nameToIpset n = some p → m.nameToIpset n = some p ∨ setProps kernel all n = .ok p := by
  induction names generalizing m sets with
  | nil =>
    cases done
    exact ⟨rfl, by simp, by simp, fun _ _ => .inl⟩
  | cons first names ih =>
    unfold ipsets at done
    split at done
    · cases done
    next q named =>
      simp only at done
      split at done
      · cases done
      next rest m'' later =>
        cases done
        obtain ⟨domains, sets, every, known⟩ := ih later
        refine ⟨domains, ?_, ?_, ?_⟩
        · intro p
          simp [sets, named, eq_comm]
        · simpa [named] using every
        · intro n p entry
          rcases known n p entry with before | now
          · by_cases same : n = first
            · subst same
              simp only [Function.update_self, Option.some.injEq] at before
              exact .inr (before ▸ named)
            · exact .inl (by simpa [same] using before)
          · exact .inr now

theorem addHosts_nameToIpset (sets : List Props) (m : Manager) (hosts : List Host) :
    (addHosts sets m hosts).nameToIpset = m.nameToIpset := by
  unfold addHosts
  induction hosts generalizing m with
  | nil => rfl
  | cons host hosts ih => exact ih _

theorem mem_addHosts (sets : List Props) (m : Manager) (hosts : List Host) (d : Host) :
    p ∈ (addHosts sets m hosts).domainToIpsets d ↔
      p ∈ m.domainToIpsets d ∨ d ∈ hosts ∧ p ∈ sets := by
  unfold addHosts
  induction hosts generalizing m with
  | nil => simp
  | cons host hosts ih =>
    rw [List.foldl_cons, ih]
    by_cases same : d = host
    · subst same
      simp only [Function.update_self, List.mem_append, List.mem_cons, true_or, true_and]
      tauto
    · simp [same]

/-- What the lines so far have put into the manager. -/
structure Built (toLower : Char → Char) (kernel : Kernel) (all : List Props)
    (lines : List (List Char)) (m : Manager) : Prop where
  sets : ∀ d p, p ∈ m.domainToIpsets d ↔
    ∃ n, SetFor toLower lines d n ∧ setProps kernel all n = .ok p
  found : ∀ d n, SetFor toLower lines d n → ∃ p, setProps kernel all n = .ok p
  known : ∀ n p, m.nameToIpset n = some p → setProps kernel all n = .ok p

theorem built_empty : Built toLower kernel all [] .empty where
  sets := by simp [SetFor, Manager.empty]
  found := by simp [SetFor]
  known := by simp [Manager.empty]

theorem setFor_append {line : List Char} {hosts : List Host} {names : List (List Char)} {d : Host}
    (parsed : parseIpsetConfigLine toLower line = .ok (hosts, names)) :
    SetFor toLower (lines ++ [line]) d n ↔ SetFor toLower lines d n ∨ d ∈ hosts ∧ n ∈ names := by
  unfold SetFor
  constructor
  · rintro ⟨other, member, hosts', names', parsed', host, name⟩
    rcases List.mem_append.mp member with before | last
    · exact .inl ⟨other, before, hosts', names', parsed', host, name⟩
    · rw [List.mem_singleton.mp last, parsed] at parsed'
      cases parsed'
      exact .inr ⟨host, name⟩
  · rintro (⟨other, member, parts⟩ | ⟨host, name⟩)
    · exact ⟨other, List.mem_append_left _ member, parts⟩
    · exact ⟨line, by simp, hosts, names, parsed, host, name⟩

theorem Built.line (built : Built toLower kernel all lines m) {line : List Char}
    {hosts : List Host} {names : List (List Char)} {sets : List Props}
    (parsed : parseIpsetConfigLine toLower line = .ok (hosts, names))
    (done : ipsets kernel all m names = .ok (sets, m')) :
    Built toLower kernel all (lines ++ [line]) (addHosts sets m' hosts) := by
  obtain ⟨domains, members, every, known⟩ := ipsets_ok done
  refine ⟨?_, ?_, ?_⟩
  · intro d p
    rw [mem_addHosts, domains, built.sets, members]
    simp only [setFor_append parsed]
    constructor
    · rintro (⟨n, before, named⟩ | ⟨host, n, name, named⟩)
      · exact ⟨n, .inl before, named⟩
      · exact ⟨n, .inr ⟨host, name⟩, named⟩
    · rintro ⟨n, before | ⟨host, name⟩, named⟩
      · exact .inl ⟨n, before, named⟩
      · exact .inr ⟨host, n, name, named⟩
  · intro d n configured
    rcases (setFor_append parsed).mp configured with before | ⟨-, name⟩
    · exact built.found d n before
    · exact every n name
  · intro n p entry
    rw [addHosts_nameToIpset] at entry
    exact (known n p entry).elim (built.known n p) id

theorem Built.parseLines (built : Built toLower kernel all lines m) {i : Nat}
    {rest : List (List Char)} (done : parseLines toLower kernel all i m rest = .ok m') :
    Built toLower kernel all (lines ++ rest) m' := by
  induction rest generalizing i m lines with
  | nil =>
    cases done
    simpa using built
  | cons line rest ih =>
    unfold Ipset.parseLines at done
    split at done
    · cases done
    next parsed =>
      split at done
      · cases done
      next found =>
        have later := ih (built.line parsed found) done
        simpa using later

/-- What an accepted configuration leaves in the manager. -/
theorem built_of_accepted (accepted : parseIpsetConfig toLower kernel lines = .ok m) :
    Built toLower kernel kernel.sets lines m := by
  unfold parseIpsetConfig at accepted
  split at accepted
  · cases accepted
  next all listed =>
    have sets : kernel.sets = all := by simp [Kernel.sets, listed, Except.toOption]
    rw [sets]
    simpa using built_empty.parseLines accepted

end Config

section Built

variable {toLower : Char → Char} {kernel : Kernel} {lines : List (List Char)} {m : Manager}

theorem Built.domainToIpsets_ne_nil (built : Built toLower kernel kernel.sets lines m) (d : Host) :
    m.domainToIpsets d ≠ [] ↔ ∃ n, SetFor toLower lines d n := by
  constructor
  · intro nonempty
    obtain ⟨p, member⟩ := List.exists_mem_of_ne_nil _ nonempty
    obtain ⟨n, configured, -⟩ := (built.sets d p).mp member
    exact ⟨n, configured⟩
  · rintro ⟨n, configured⟩
    obtain ⟨p, named⟩ := built.found d n configured
    exact List.ne_nil_of_mem ((built.sets d p).mpr ⟨n, configured, named⟩)

/-- **The lookup**: it answers with the sets of the domain that the host is routed to. -/
theorem Built.lookupHost_routed (built : Built toLower kernel kernel.sets lines m) (h : Host) :
    ∃ d, RoutedTo toLower lines h d ∧ m.lookupHost h = m.domainToIpsets d := by
  unfold Manager.lookupHost
  cases looked : m.lookupLoop h with
  | some sets =>
    obtain ⟨d, domain, configured, same, longest⟩ := lookupLoop_some m h looked
    refine ⟨d, .inl ⟨(built.domainToIpsets_ne_nil d).mp configured, domain, ?_⟩, same⟩
    intro e n other below
    exact longest e below ((built.domainToIpsets_ne_nil e).mpr ⟨n, other⟩)
  | none =>
    refine ⟨[], .inr ⟨?_, rfl⟩, rfl⟩
    intro e n other below
    exact (built.domainToIpsets_ne_nil e).mpr ⟨n, other⟩ (lookupLoop_none m h looked e below)

/-- A set that is held to be persistent is listed as one without a timeout. -/
theorem Built.lasting (built : Built toLower kernel kernel.sets lines m) {e : IpInIpsetEntry}
    (persistent : m.isPersistent e = true) : kernel.Lasting e.ipsetName := by
  unfold Manager.isPersistent at persistent
  cases entry : m.nameToIpset e.ipsetName with
  | none => simp [entry] at persistent
  | some p =>
    obtain ⟨-, family, listed⟩ := setProps_ok (built.known _ p entry)
    have flag : p.isPersistent = true := by simpa [entry] using persistent
    exact ⟨p, listed flag, flag, family⟩

end Built

end FirewallCore.Ipset
