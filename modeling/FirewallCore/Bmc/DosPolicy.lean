import Mathlib.Data.List.Induction
import Mathlib.Logic.Function.Basic
import FirewallCore.Lib.Chains
import FirewallCore.Lib.Limits

/-!
The flood and brute-force rules (`ddos_protect.sh`) and the packets that meet
them.

Each `enable` appends the rules once more. A table is taken to start with an
empty `INPUT`, and the counters of its rules are new when the trace starts:
each rule with `limit` has a bucket, and each name of `recent` has a table.
-/

namespace FirewallCore.Bmc

open FirewallCore.Lib

namespace DosPolicy

/-! ### Packets and matchers -/

inductive Proto where
  | tcp
  | udp
  | icmp
  | other
  deriving DecidableEq, Repr

structure TcpFlags where
  syn : Bool
  ack : Bool
  rst : Bool
  fin : Bool
  deriving DecidableEq, Repr

/-- A packet and when it arrives, in milliseconds. -/
structure Packet where
  iface : String
  proto : Proto
  flags : TcpFlags
  dport : Nat
  src : BitVec 32
  time : Nat
  deriving DecidableEq, Repr

inductive Matcher where
  | proto (proto : Proto)
  | inIface (name : String)
  | syn
  | dport (port : Nat)
  | limit (perSecond burst : Nat)
  | recentSet (name : String)
  | recentUpdate (name : String) (seconds hitcount : Nat)
  deriving DecidableEq, Repr

/-- Of the flags that `--syn` looks at only SYN is set. -/
def Packet.isSyn (p : Packet) : Bool := p.flags.syn && !p.flags.ack && !p.flags.rst && !p.flags.fin

/-- The buckets by chain and place, and the tables of sources by name. -/
structure Counters where
  buckets : String × Nat → Option Bucket
  recent : String → Recent (BitVec 32)

/-- Counters that have not been used. -/
def newCounters : Counters := ⟨fun _ => none, fun _ => []⟩

/-- Tries one matcher of a rule. -/
def test (chain : String) (place : Nat) : Matcher → Packet → Counters → Bool × Counters
  | .proto proto, p, s => (p.proto = proto, s)
  | .inIface name, p, s => (p.iface = name, s)
  | .syn, p, s => (p.isSyn, s)
  | .dport port, p, s => (p.dport = port, s)
  | .limit rate burst, p, s =>
    let (ok, bucket) := (Limit.perSecond rate burst).take (s.buckets (chain, place)) p.time
    (ok, { s with buckets := Function.update s.buckets (chain, place) (some bucket) })
  | .recentSet name, p, s =>
    (true, { s with recent := Function.update s.recent name ((s.recent name).touch p.src p.time) })
  | .recentUpdate name seconds hitcount, p, s =>
    let (ok, table) := (s.recent name).update p.src seconds hitcount p.time
    (ok, { s with recent := Function.update s.recent name table })

/-! ### The script -/

/-- `CHAIN`. -/
def chain : String := "FW_DOS_POLICY"

inductive Command where
  | enable
  | disable
  deriving DecidableEq, Repr

/-- `-j FW_DOS_POLICY`. -/
def jumpRule : Rule Matcher := ⟨[], some (.jump chain)⟩

/-- What all rules of the chain start with. -/
def fromEth0 (proto : Proto) (more : List Matcher) (target : Option Target) : Rule Matcher :=
  ⟨.proto proto :: .inIface "eth0" :: more, target⟩

/-- The rules that `enable_dos_policy` appends. -/
def policyRules : List (Rule Matcher) := [
  -- SYN Flood
  fromEth0 .tcp [.syn, .limit 20 40] (some .leave),
  fromEth0 .tcp [.syn] (some (.log "[DDOS] SYN DROP: ")),
  fromEth0 .tcp [.syn] (some .drop),
  -- UDP Flood
  fromEth0 .udp [.limit 100 150] (some .leave),
  fromEth0 .udp [] (some (.log "[DDOS] UDP DROP: ")),
  fromEth0 .udp [] (some .drop),
  -- ICMP Flood
  fromEth0 .icmp [.limit 1 5] (some .leave),
  fromEth0 .icmp [] (some (.log "[DDOS] ICMP DROP: ")),
  fromEth0 .icmp [] (some .drop),
  -- SSH Brute-force
  fromEth0 .tcp [.dport 22, .recentSet "ssh"] none,
  fromEth0 .tcp [.dport 22, .recentUpdate "ssh" 60 5] (some (.log "[BRUTE SSH]: ")),
  fromEth0 .tcp [.dport 22, .recentUpdate "ssh" 60 5] (some .drop)]

/-- `-A FW_DOS_POLICY`. -/
def appendRule (fw : Chains Matcher) (r : Rule Matcher) : Chains Matcher := (fw.append chain r).getD fw

/-- `enable_dos_policy`. -/
def enableDosPolicy (fw : Chains Matcher) : Chains Matcher :=
  let fw := (fw.newChain chain).getD fw
  let fw := if fw.check "INPUT" jumpRule then fw else (fw.append "INPUT" jumpRule).getD fw
  policyRules.foldl appendRule fw

/-- `disable_dos_policy`. -/
def disableDosPolicy (fw : Chains Matcher) : Chains Matcher :=
  let fw := (fw.delete "INPUT" jumpRule).getD fw
  let fw := (fw.flush chain).getD fw
  (fw.deleteChain chain).getD fw

/-- One call of the script. -/
def step (fw : Chains Matcher) : Command → Chains Matcher
  | .enable => enableDosPolicy fw
  | .disable => disableDosPolicy fw

/-- Calls of the script one after the other. -/
def runCommands (fw : Chains Matcher) (commands : List Command) : Chains Matcher :=
  commands.foldl step fw

/-- Runs a packet through `INPUT`; jumps nest at most sixteen deep. -/
def inspect (fw : Chains Matcher) : Packet → Counters → Verdict × Counters :=
  runChain test fw 16 "INPUT"

/-- The verdicts on a trace. -/
def verdicts (fw : Chains Matcher) (trace : List Packet) : List Verdict :=
  runTrace (inspect fw) trace newCounters

/-! ### What the policy is for -/

/-- A new SSH connection from `eth0`. -/
def Attempt (p : Packet) : Prop :=
  p.iface = "eth0" ∧ p.proto = .tcp ∧ p.isSyn = true ∧ p.dport = 22

instance : DecidablePred Attempt := fun _ => inferInstanceAs (Decidable (_ ∧ _))

/-- Four attempts of the same source came in the last sixty seconds. -/
def Repeated (before : List Packet) (p : Packet) : Prop :=
  4 ≤ before.countP fun q => Attempt q ∧ q.src = p.src ∧ p.time ≤ q.time + 60000

instance (before : List Packet) (p : Packet) : Decidable (Repeated before p) :=
  inferInstanceAs (Decidable (4 ≤ _))

/-- The fifth and every later attempt of a source within sixty seconds is dropped. -/
def DropsRepeated (fw : Chains Matcher) (trace : List Packet) : Prop :=
  ∀ before p later, trace = before ++ p :: later → Attempt p → Repeated before p →
    (verdicts fw trace)[before.length]? = some .dropped

/-- Enabling the policy again changes no verdict. -/
def Idempotent (fw : Chains Matcher) (trace : List Packet) : Prop :=
  ∀ n, verdicts (runCommands fw (List.replicate n .enable)) trace = verdicts fw trace

/-- A table with an empty `INPUT` that does not know the policy. -/
structure Fresh (fw : Chains Matcher) : Prop where
  input : fw.lookup "INPUT" = some []
  noChain : fw.lookup chain = none

/-- How often the policy has been enabled since it was last disabled. -/
def copies (commands : List Command) : Nat := (commands.reverse.takeWhile (· = .enable)).length

/-- A SYN packet that the first rule looks at. -/
def isSynFlood (p : Packet) : Bool := p.iface = "eth0" && p.proto = .tcp && p.isSyn

/-- The bucket of a limit after the packets it looks at. -/
def synBucket (trace : List Packet) : Option Bucket :=
  (trace.filter isSynFlood).foldl
    (fun bucket p => some ((Limit.perSecond 20 40).take bucket p.time).2) none

/-- The SYN packets before have used up the limit of 20 per second and a burst of 40. -/
def Exhausted (before : List Packet) (p : Packet) : Prop :=
  (Limit.perSecond 20 40).credit (synBucket before) p.time < (Limit.perSecond 20 40).cost

/-- A packet of an SSH connection from `eth0` that does not open it. -/
def WithinSSH (p : Packet) : Prop :=
  p.iface = "eth0" ∧ p.proto = .tcp ∧ p.isSyn = false ∧ p.dport = 22

instance : DecidablePred WithinSSH := fun _ => inferInstanceAs (Decidable (_ ∧ _))

/-! ### Every command sequence -/

/-- The rules of a chain after `k` times `enable`. -/
def policyCopies (k : Nat) : List (Rule Matcher) := (List.replicate k policyRules).flatten

/-- A table in which the policy is enabled `k` times. -/
structure Installed (k : Nat) (fw : Chains Matcher) : Prop where
  input : fw.lookup "INPUT" = some (if k = 0 then [] else [jumpRule])
  rules : (fw.lookup chain).getD [] = policyCopies k
  there : 0 < k → (fw.lookup chain).isSome = true

section Commands

variable {fw : Chains Matcher} {k : Nat}

theorem policyCopies_succ (k : Nat) : policyCopies (k + 1) = policyRules ++ policyCopies k := rfl

theorem policyCopies_append (k : Nat) : policyCopies k ++ policyRules = policyCopies (k + 1) := by
  unfold policyCopies
  rw [List.replicate_succ', List.flatten_append, List.flatten_singleton]

theorem resolves_jumpRule : fw.resolves jumpRule = (fw.lookup chain).isSome := rfl

theorem plain_of_mem {r : Rule Matcher} (member : r ∈ policyRules) (name : String) :
    r.target ≠ some (.jump name) := by
  simp only [policyRules, List.mem_cons, List.not_mem_nil, or_false] at member
  rcases member with rfl | rfl | rfl | rfl | rfl | rfl | rfl | rfl | rfl | rfl | rfl | rfl <;>
    simp [fromEth0]

/-- The rules are appended in order. -/
theorem foldl_appendRule {added rules : List (Rule Matcher)}
    (plain : ∀ r ∈ added, ∀ name, r.target ≠ some (.jump name))
    (found : fw.lookup chain = some rules) :
    (added.foldl appendRule fw).lookup chain = some (rules ++ added) ∧
      (added.foldl appendRule fw).lookup "INPUT" = fw.lookup "INPUT" := by
  induction added generalizing fw rules with
  | nil => simp [found]
  | cons r rest ih =>
    have appended : appendRule fw r = fw.insert chain (rules ++ [r]) := by
      have known : fw.resolves r = true := Chains.resolves_of_target (plain r (by simp))
      rw [appendRule, Chains.append, Chains.change_some found known, Option.getD_some]
    have plain' : ∀ r ∈ rest, ∀ name, r.target ≠ some (.jump name) :=
      fun r member => plain r (List.mem_cons_of_mem _ member)
    obtain ⟨here, input⟩ := ih plain' (AList.lookup_insert (s := fw) (a := chain) (b := rules ++ [r]))
    rw [List.foldl_cons, appended, here, input, AList.lookup_insert_ne (by decide)]
    simp

/-- The table after `-N`. -/
theorem Installed.newChain (installed : Installed k fw) :
    ((fw.newChain chain).getD fw).lookup chain = some (policyCopies k) ∧
      ((fw.newChain chain).getD fw).lookup "INPUT" = fw.lookup "INPUT" := by
  have rules := installed.rules
  unfold Chains.newChain
  split
  · rename_i there
    obtain ⟨present, found⟩ := Option.isSome_iff_exists.mp there
    rw [found, Option.getD_some] at rules
    exact ⟨by rw [Option.getD_none, found, rules], rfl⟩
  · rename_i missing
    rw [Option.not_isSome_iff_eq_none] at missing
    rw [missing, Option.getD_none] at rules
    rw [Option.getD_some, AList.lookup_insert, AList.lookup_insert_ne (by decide), rules]
    exact ⟨rfl, rfl⟩

theorem Installed.enable (installed : Installed k fw) : Installed (k + 1) (enableDosPolicy fw) := by
  obtain ⟨found, input⟩ := installed.newChain
  rw [installed.input] at input
  have known : ((fw.newChain chain).getD fw).resolves jumpRule = true := by
    rw [resolves_jumpRule, found, Option.isSome_some]
  unfold enableDosPolicy
  generalize (fw.newChain chain).getD fw = fw at found input known
  have jumped : ∃ fw', (if fw.check "INPUT" jumpRule then fw
        else (fw.append "INPUT" jumpRule).getD fw) = fw' ∧
      fw'.lookup chain = some (policyCopies k) ∧ fw'.lookup "INPUT" = some [jumpRule] := by
    refine ⟨_, rfl, ?_⟩
    by_cases first : k = 0
    · subst first
      have unchecked : ¬fw.check "INPUT" jumpRule = true := by simp [Chains.check, input]
      rw [if_neg unchecked, Chains.append, Chains.change_some input known, Option.getD_some,
        AList.lookup_insert, AList.lookup_insert_ne (by decide), found]
      exact ⟨rfl, rfl⟩
    · rw [if_neg first] at input
      have checked : fw.check "INPUT" jumpRule = true := by simp [Chains.check, input, known]
      rw [if_pos checked]
      exact ⟨found, input⟩
  obtain ⟨fw', same, found', input'⟩ := jumped
  dsimp only
  rw [same]
  obtain ⟨here, others⟩ := foldl_appendRule (fun _ member => plain_of_mem member) found'
  constructor
  case input => rw [others, input', if_neg (Nat.succ_ne_zero k)]
  case rules => rw [here, Option.getD_some, policyCopies_append]
  case there => exact fun _ => by rw [here, Option.isSome_some]

theorem Installed.delete (installed : Installed k fw) :
    ((fw.delete "INPUT" jumpRule).getD fw).lookup "INPUT" = some [] := by
  have input := installed.input
  by_cases first : k = 0
  · subst first
    have unchecked : ¬fw.check "INPUT" jumpRule = true := by simp [Chains.check, input]
    rw [Chains.delete, if_neg unchecked, Option.getD_none, input]
    rfl
  · rw [if_neg first] at input
    have known : fw.resolves jumpRule = true := installed.there (Nat.pos_of_ne_zero first)
    have checked : fw.check "INPUT" jumpRule = true := by simp [Chains.check, input, known]
    rw [Chains.delete, if_pos checked, Chains.change_some input known, Option.getD_some,
      AList.lookup_insert]
    simp

theorem Installed.disable (installed : Installed k fw) : Installed 0 (disableDosPolicy fw) := by
  have deleted := installed.delete
  unfold disableDosPolicy
  generalize (fw.delete "INPUT" jumpRule).getD fw = fw at deleted
  have flushed : ((fw.flush chain).getD fw).lookup "INPUT" = some [] ∧
      (((fw.flush chain).getD fw).lookup chain).getD [] = [] := by
    unfold Chains.flush
    split
    · rename_i missing
      rw [Option.getD_none, missing, deleted]
      exact ⟨rfl, rfl⟩
    · rw [Option.getD_some, AList.lookup_insert_ne (by decide), AList.lookup_insert, deleted]
      exact ⟨rfl, rfl⟩
  dsimp only
  generalize (fw.flush chain).getD fw = fw at flushed
  unfold Chains.deleteChain
  split
  · rw [Option.getD_some]
    constructor
    case input => rw [AList.lookup_erase_ne (by decide), flushed.1, if_pos rfl]
    case rules => rw [AList.lookup_erase, Option.getD_none]; rfl
    case there => exact fun positive => absurd positive (lt_irrefl 0)
  · rw [Option.getD_none]
    exact ⟨flushed.1, flushed.2, fun positive => absurd positive (lt_irrefl 0)⟩

theorem Fresh.installed (fresh : Fresh fw) : Installed 0 fw where
  input := fresh.input
  rules := by rw [fresh.noChain, Option.getD_none]; rfl
  there := fun positive => absurd positive (lt_irrefl 0)

theorem copies_enable (commands : List Command) : copies (commands ++ [.enable]) = copies commands + 1 := by
  simp [copies]

theorem copies_disable (commands : List Command) : copies (commands ++ [.disable]) = 0 := by
  simp [copies]

/-- After any commands the policy is there as often as it was enabled since it was last disabled. -/
theorem Fresh.runCommands (fresh : Fresh fw) (commands : List Command) :
    Installed (copies commands) (runCommands fw commands) := by
  induction commands using List.reverseRecOn with
  | nil => exact fresh.installed
  | append_singleton before command ih =>
    rw [DosPolicy.runCommands, List.foldl_append, List.foldl_cons, List.foldl_nil]
    cases command with
    | enable =>
      rw [copies_enable]
      exact ih.enable
    | disable =>
      rw [copies_disable]
      exact ih.disable

theorem Installed.enableMore (installed : Installed k fw) (n : Nat) :
    Installed (k + n) (DosPolicy.runCommands fw (List.replicate n .enable)) := by
  induction n with
  | zero => exact installed
  | succ n ih =>
    rw [List.replicate_succ', DosPolicy.runCommands, List.foldl_append, List.foldl_cons,
      List.foldl_nil]
    exact ih.enable

end Commands

/-! ### Every packet -/

abbrev Buckets := String × Nat → Option Bucket

/-- A rule with a limit and the rules behind it, which drop the rest. -/
def limited (place rate burst : Nat) (p : Packet) (buckets : Buckets) : Verdict × Buckets :=
  let (ok, bucket) := (Limit.perSecond rate burst).take (buckets (chain, place)) p.time
  (if ok then .passed else .dropped, Function.update buckets (chain, place) (some bucket))

/-- What happens to a packet when the policy has been enabled five times or more. -/
def fullPolicy (p : Packet) (buckets : Buckets) : Verdict × Buckets :=
  if p.iface ≠ "eth0" then (.passed, buckets)
  else match p.proto with
    | .tcp =>
      if p.isSyn then limited 0 20 40 p buckets
      else if p.dport = 22 then (.dropped, buckets)
      else (.passed, buckets)
    | .udp => limited 3 100 150 p buckets
    | .icmp => limited 6 1 5 p buckets
    | .other => (.passed, buckets)

section Packets

variable {fw : Chains Matcher} {k : Nat} {p : Packet} {s : Counters}
  {call : String → Packet → Counters → Verdict × Counters}

/-- How `INPUT` ends, given how the policy ends. -/
def atInput : Verdict × Counters → Verdict × Counters
  | (.accepted, s) => (.accepted, s)
  | (.dropped, s) => (.dropped, s)
  | (_, s) => (.passed, s)

theorem atInput_counters (out : Verdict × Counters) : (atInput out).2 = out.2 := by
  obtain ⟨verdict, s⟩ := out
  cases verdict <;> rfl

theorem atInput_dropped {out : Verdict × Counters} (dropped : out.1 = .dropped) :
    (atInput out).1 = .dropped := by
  obtain ⟨verdict, s⟩ := out
  cases dropped
  rfl

theorem atInput_passed {out : Verdict × Counters} (passed : out.1 = .passed) :
    (atInput out).1 = .passed := by
  obtain ⟨verdict, s⟩ := out
  cases passed
  rfl

theorem Installed.inspect_eq (installed : Installed (k + 1) fw) :
    inspect fw p s =
      atInput (runRules (test chain) (runChain test fw 14) 0 (policyCopies (k + 1)) p s) := by
  have input := installed.input
  rw [if_neg (Nat.succ_ne_zero k)] at input
  rw [inspect, runChain, input, Option.getD_some]
  simp only [runRules, jumpRule, testAll]
  rw [runChain, installed.rules]
  unfold atInput
  split <;> simp_all

/-- A SYN packet, a UDP packet and an ICMP packet are decided by the first copy. -/
theorem run_syn (eth : p.iface = "eth0") (tcp : p.proto = .tcp) (syn : p.isSyn = true)
    (rest : List (Rule Matcher)) :
    atInput (runRules (test chain) call 0 (policyRules ++ rest) p s) =
      ((limited 0 20 40 p s.buckets).1, { s with buckets := (limited 0 20 40 p s.buckets).2 }) := by
  rcases taken : (Limit.perSecond 20 40).take (s.buckets (chain, 0)) p.time with ⟨ok, bucket⟩
  cases ok <;>
    simp [policyRules, fromEth0, runRules, testAll, test, eth, tcp, syn, taken, limited, atInput]

theorem run_udp (eth : p.iface = "eth0") (udp : p.proto = .udp) (rest : List (Rule Matcher)) :
    atInput (runRules (test chain) call 0 (policyRules ++ rest) p s) =
      ((limited 3 100 150 p s.buckets).1, { s with buckets := (limited 3 100 150 p s.buckets).2 }) := by
  rcases taken : (Limit.perSecond 100 150).take (s.buckets (chain, 3)) p.time with ⟨ok, bucket⟩
  cases ok <;>
    simp [policyRules, fromEth0, runRules, testAll, test, eth, udp, taken, limited, atInput]

theorem run_icmp (eth : p.iface = "eth0") (icmp : p.proto = .icmp) (rest : List (Rule Matcher)) :
    atInput (runRules (test chain) call 0 (policyRules ++ rest) p s) =
      ((limited 6 1 5 p s.buckets).1, { s with buckets := (limited 6 1 5 p s.buckets).2 }) := by
  rcases taken : (Limit.perSecond 1 5).take (s.buckets (chain, 6)) p.time with ⟨ok, bucket⟩
  cases ok <;>
    simp [policyRules, fromEth0, runRules, testAll, test, eth, icmp, taken, limited, atInput]

/-- No rule speaks of the packet. -/
def Unmatched (p : Packet) : Prop :=
  p.iface ≠ "eth0" ∨ p.proto = .other ∨ p.proto = .tcp ∧ p.isSyn = false ∧ p.dport ≠ 22

theorem run_unmatched (free : Unmatched p) (k : Nat) :
    runRules (test chain) call 0 (policyCopies k) p s = (.passed, s) := by
  apply runRules_pass
  intro r member i
  unfold policyCopies at member
  obtain ⟨rules, copied, listed⟩ := List.mem_flatten.mp member
  rw [List.eq_of_mem_replicate copied] at listed
  simp only [policyRules, List.mem_cons, List.not_mem_nil, or_false] at listed
  rcases free with other | other | ⟨tcp, plain, port⟩
  · rcases listed with rfl | rfl | rfl | rfl | rfl | rfl | rfl | rfl | rfl | rfl | rfl | rfl <;>
      cases proto : p.proto <;> simp [fromEth0, testAll, test, other, proto]
  · rcases listed with rfl | rfl | rfl | rfl | rfl | rfl | rfl | rfl | rfl | rfl | rfl | rfl <;>
      simp [fromEth0, testAll, test, other]
  · rcases listed with rfl | rfl | rfl | rfl | rfl | rfl | rfl | rfl | rfl | rfl | rfl | rfl <;>
      by_cases eth : p.iface = "eth0" <;> simp [fromEth0, testAll, test, tcp, plain, port, eth]

theorem inspect_decided (installed : Installed (k + 1) fw) (other : ¬WithinSSH p) :
    inspect fw p s = ((fullPolicy p s.buckets).1, { s with buckets := (fullPolicy p s.buckets).2 }) := by
  rw [installed.inspect_eq]
  by_cases eth : p.iface = "eth0"
  · unfold fullPolicy
    rw [if_neg (not_not.mpr eth), policyCopies_succ]
    cases proto : p.proto with
    | tcp =>
      cases syn : p.isSyn with
      | true => exact run_syn eth proto syn _
      | false =>
        have port : p.dport ≠ 22 := fun port => other ⟨eth, proto, syn, port⟩
        rw [← policyCopies_succ, run_unmatched (.inr (.inr ⟨proto, syn, port⟩))]
        simp [atInput, port]
    | udp => exact run_udp eth proto _
    | icmp => exact run_icmp eth proto _
    | other =>
      rw [← policyCopies_succ, run_unmatched (.inr (.inl proto))]
      rfl
  · unfold fullPolicy
    rw [if_pos eth, run_unmatched (.inl eth)]
    rfl

/-! ### Packets of SSH connections -/

/-- The counters with another table of SSH sources. -/
def Counters.withSSH (s : Counters) (table : Recent (BitVec 32)) : Counters :=
  { s with recent := Function.update s.recent "ssh" table }

/-- What the last three rules of a copy make of the table, and whether they drop the packet. -/
def sshRules (p : Packet) (table : Recent (BitVec 32)) : Bool × Recent (BitVec 32) :=
  ((table.touch p.src p.time).update p.src 60 5 p.time).2.update p.src 60 5 p.time

theorem run_ssh (ssh : WithinSSH p) (i : Nat) (rest : List (Rule Matcher)) :
    runRules (test chain) call i (policyRules ++ rest) p s =
      match sshRules p (s.recent "ssh") with
      | (true, table) => (.dropped, s.withSSH table)
      | (false, table) => runRules (test chain) call (i + 12) rest p (s.withSSH table) := by
  obtain ⟨eth, tcp, syn, port⟩ := ssh
  rcases logged : ((s.recent "ssh").touch p.src p.time).update p.src 60 5 p.time with ⟨ok, table⟩
  rcases dropped : table.update p.src 60 5 p.time with ⟨ok', table'⟩
  unfold sshRules
  cases ok <;> cases ok' <;>
    simp [policyRules, fromEth0, runRules, testAll, test, eth, tcp, syn, port, logged, dropped,
      Counters.withSSH]

/-- Wherever the rules end, only the table of SSH sources has changed. -/
theorem run_ssh_buckets (ssh : WithinSSH p) (i k : Nat) :
    (runRules (test chain) call i (policyCopies k) p s).2.buckets = s.buckets := by
  induction k generalizing i s with
  | zero => rfl
  | succ k ih =>
    rw [policyCopies_succ, run_ssh ssh]
    split
    · rfl
    · exact ih _

/-- A copy that sees the source for the fifth time drops the packet. -/
theorem sshRules_drops {n : Nat} {table : Recent (BitVec 32)}
    (seen : table.SeenNow p.src p.time n) (many : 4 ≤ n) (few : n < 18) :
    (sshRules p table).1 = true := by
  have touched := seen.touch (show n < Recent.maxStamps by unfold Recent.maxStamps; omega)
  have short : n + 1 < Recent.maxStamps := by unfold Recent.maxStamps; omega
  have logged : Recent.SeenNow ((table.touch p.src p.time).update p.src 60 5 p.time).2 p.src p.time
      (n + 1) := touched.update short
  unfold sshRules
  rw [Recent.update, if_pos (le_trans (by omega) logged.hits)]

/-- A copy that does not drop the packet has seen the source once more. -/
theorem sshRules_seen {n : Nat} {table : Recent (BitVec 32)}
    (seen : table.SeenNow p.src p.time n) (few : n < 18) :
    (sshRules p table).2.SeenNow p.src p.time (n + 1) := by
  have touched := seen.touch (show n < Recent.maxStamps by unfold Recent.maxStamps; omega)
  have short : n + 1 < Recent.maxStamps := by unfold Recent.maxStamps; omega
  exact (touched.update short).update short

/-- Five copies drop every packet of an SSH connection. -/
theorem run_ssh_drops {n : Nat} (ssh : WithinSSH p)
    (seen : (s.recent "ssh").SeenNow p.src p.time n) (few : n < 5) (i k : Nat) (enough : 5 ≤ n + k) :
    (runRules (test chain) call i (policyCopies k) p s).1 = .dropped := by
  induction k generalizing n i s with
  | zero => omega
  | succ k ih =>
    rw [policyCopies_succ, run_ssh ssh]
    by_cases last : n = 4
    · have drops := sshRules_drops seen (by omega) (by omega)
      split
      · rfl
      · simp_all
    · have again := sshRules_seen seen (by omega)
      split
      · rfl
      · rename_i table result
        rw [result] at again
        apply ih (n := n + 1) _ (by omega) _ (by omega)
        simpa [Counters.withSSH] using again

/-- Fewer copies let the first packet of a source pass. -/
theorem run_ssh_passes {n : Nat} (ssh : WithinSSH p)
    (stamps : (s.recent "ssh").stampsOf p.src = List.replicate n p.time) (i k : Nat) (few : n + k < 5) :
    (runRules (test chain) call i (policyCopies k) p s).1 = .passed := by
  induction k generalizing n i s with
  | zero => rfl
  | succ k ih =>
    have touched : ((s.recent "ssh").touch p.src p.time).stampsOf p.src =
        List.replicate (n + 1) p.time := by
      rw [Recent.stampsOf_touch, stamps, ← List.replicate_succ, List.take_of_length_le]
      rw [List.length_replicate, Recent.maxStamps]
      omega
    have quiet : sshRules p (s.recent "ssh") = (false, (s.recent "ssh").touch p.src p.time) := by
      have seldom : ((s.recent "ssh").touch p.src p.time).hits p.src 60 p.time < 5 := by
        rw [Recent.hits_replicate touched]
        omega
      unfold sshRules
      rw [Recent.update_few seldom, Recent.update_few seldom]
    rw [policyCopies_succ, run_ssh ssh, quiet]
    apply ih (n := n + 1) _ _ (by omega)
    simpa [Counters.withSSH] using touched

theorem inspect_ssh_buckets (installed : Installed (k + 1) fw) (ssh : WithinSSH p) :
    (inspect fw p s).2.buckets = s.buckets := by
  rw [installed.inspect_eq, atInput_counters]
  exact run_ssh_buckets ssh 0 (k + 1)

theorem inspect_ssh_drops (installed : Installed (k + 1) fw) (ssh : WithinSSH p)
    (enough : 5 ≤ k + 1) : (inspect fw p s).1 = .dropped := by
  have unseen : (s.recent "ssh").SeenNow p.src p.time 0 := List.nil_prefix
  rw [installed.inspect_eq, atInput_dropped]
  exact run_ssh_drops ssh unseen (by omega) 0 (k + 1) (by omega)

theorem inspect_ssh_passes (installed : Installed (k + 1) fw) (ssh : WithinSSH p)
    (new : (s.recent "ssh").stampsOf p.src = []) (few : k + 1 < 5) : (inspect fw p s).1 = .passed := by
  rw [installed.inspect_eq, atInput_passed]
  exact run_ssh_passes ssh (n := 0) new 0 (k + 1) (by omega)

end Packets

/-! ### Every trace -/

section Traces

variable {fw : Chains Matcher} {k : Nat} {trace : List Packet}

theorem inspect_buckets (installed : Installed (k + 1) fw) (p : Packet) (s : Counters) :
    (inspect fw p s).2.buckets = (fullPolicy p s.buckets).2 := by
  by_cases ssh : WithinSSH p
  · rw [inspect_ssh_buckets installed ssh]
    obtain ⟨eth, tcp, syn, port⟩ := ssh
    simp [fullPolicy, eth, tcp, syn, port]
  · rw [inspect_decided installed ssh]

/-- The policy enabled often enough, or a trace that does not tell the difference. -/
theorem verdicts_eq_full (installed : Installed (k + 1) fw)
    (settled : 5 ≤ k + 1 ∨ ∀ p ∈ trace, ¬WithinSSH p) :
    verdicts fw trace = runTrace fullPolicy trace newCounters.buckets := by
  apply runTrace_eq_of_view Counters.buckets
  · exact fun p _ s => inspect_buckets installed p s
  · intro p member s
    by_cases ssh : WithinSSH p
    · rcases settled with enough | none
      · rw [inspect_ssh_drops installed ssh enough]
        obtain ⟨eth, tcp, syn, port⟩ := ssh
        simp [fullPolicy, eth, tcp, syn, port]
      · exact absurd ssh (none p member)
    · rw [inspect_decided installed ssh]

/-- The first packet of an SSH connection finds no stamp of its source. -/
theorem recent_of_quiet (installed : Installed (k + 1) fw) (quiet : ∀ p ∈ trace, ¬WithinSSH p) :
    (countersAfter (inspect fw) trace newCounters).recent = newCounters.recent := by
  apply countersAfter_keeps (fun s : Counters => s.recent = newCounters.recent) rfl
  intro p member s same
  rw [inspect_decided installed (quiet p member)]
  exact same

/-- A packet of an SSH connection that comes first tells one copy of the rules from five. -/
theorem verdicts_differ (installed : Installed (k + 1) fw) (few : k + 1 < 5) {before later : List Packet}
    {p : Packet} (quiet : ∀ q ∈ before, ¬WithinSSH q) (ssh : WithinSSH p) :
    verdicts (runCommands fw (List.replicate 5 .enable)) (before ++ p :: later) ≠
      verdicts fw (before ++ p :: later) := by
  have new : ((countersAfter (inspect fw) before newCounters).recent "ssh").stampsOf p.src = [] := by
    rw [recent_of_quiet installed quiet]
    rfl
  have more : Installed (k + 5 + 1) (runCommands fw (List.replicate 5 .enable)) := by
    rw [Nat.add_right_comm]
    exact installed.enableMore 5
  intro same
  have here := congrArg (·[before.length]?) same
  simp only [verdicts, runTrace_at, inspect_ssh_passes installed ssh new few,
    inspect_ssh_drops more ssh (by omega)] at here
  exact absurd here (by decide)

/-- The rules appended again are seen by packets of SSH connections, until there are five copies. -/
theorem idempotent_iff (installed : Installed (k + 1) fw) :
    Idempotent fw trace ↔ 5 ≤ k + 1 ∨ ∀ p ∈ trace, ¬WithinSSH p := by
  constructor
  · intro idempotent
    by_cases few : k + 1 < 5
    · right
      intro p member ssh
      obtain ⟨q, found⟩ := Option.isSome_iff_exists.mp
        (List.find?_isSome.mpr ⟨p, member, decide_eq_true ssh⟩ :
          (trace.find? (decide <| WithinSSH ·)).isSome = true)
      obtain ⟨first, before, later, rfl, quiet⟩ := List.find?_eq_some_iff_append.mp found
      have quiet' : ∀ q ∈ before, ¬WithinSSH q := by
        intro q member
        simpa using quiet q member
      exact verdicts_differ installed few quiet' (of_decide_eq_true first) (idempotent 5)
    · exact .inl (Nat.not_lt.mp few)
  · intro settled n
    have more := installed.enableMore n
    rw [Nat.add_right_comm] at more
    rw [verdicts_eq_full installed settled, verdicts_eq_full more (settled.imp_left (by omega))]

/-- What a packet does to the bucket of the first rule. -/
theorem fullPolicy_bucket (p : Packet) (buckets : Buckets) :
    (fullPolicy p buckets).2 (chain, 0) =
      if isSynFlood p then some ((Limit.perSecond 20 40).take (buckets (chain, 0)) p.time).2
      else buckets (chain, 0) := by
  by_cases eth : p.iface = "eth0"
  · cases proto : p.proto <;> cases syn : p.isSyn <;> by_cases port : p.dport = 22 <;>
      simp [fullPolicy, isSynFlood, limited, eth, proto, syn, port]
  · simp [fullPolicy, isSynFlood, eth]

/-- The first bucket is that of all SYN packets from `eth0`. -/
theorem bucket_eq (installed : Installed (k + 1) fw) (trace : List Packet) :
    (countersAfter (inspect fw) trace newCounters).buckets (chain, 0) = synBucket trace := by
  have alone : (countersAfter (inspect fw) trace newCounters).buckets (chain, 0) = _ :=
    view_countersAfter (fun s : Counters => s.buckets (chain, 0)) (fun p bucket => (Verdict.passed,
      if isSynFlood p then some ((Limit.perSecond 20 40).take bucket p.time).2 else bucket))
      fun p _ s => by rw [inspect_buckets installed, fullPolicy_bucket]
  rw [alone, countersAfter, synBucket, List.foldl_filter]
  rfl

theorem limited_dropped {place rate burst : Nat} {p : Packet} {buckets : Buckets} :
    (limited place rate burst p buckets).1 = .dropped ↔
      (Limit.perSecond rate burst).credit (buckets (chain, place)) p.time <
        (Limit.perSecond rate burst).cost := by
  simp only [limited, Limit.take]
  split <;> simp_all

/-- An attempt to connect is left to the limit of SYN packets. -/
theorem attempt_dropped (installed : Installed (k + 1) fw) {before later : List Packet} {p : Packet}
    (attempt : Attempt p) :
    (verdicts fw (before ++ p :: later))[before.length]? = some .dropped ↔ Exhausted before p := by
  obtain ⟨eth, tcp, syn, -⟩ := attempt
  have other : ¬WithinSSH p := fun ssh => by simp [ssh.2.2.1] at syn
  rw [verdicts, runTrace_at, inspect_decided installed other, Option.some_inj, Exhausted,
    ← bucket_eq installed, ← limited_dropped]
  simp [fullPolicy, eth, tcp, syn]

theorem dropsRepeated_iff (installed : Installed (k + 1) fw) :
    DropsRepeated fw trace ↔ ∀ before p later, trace = before ++ p :: later → Attempt p →
      Repeated before p → Exhausted before p := by
  constructor
  · intro drops before p later split attempt again
    have dropped := drops before p later split attempt again
    rw [split] at dropped
    exact (attempt_dropped installed attempt).mp dropped
  · intro exhausted before p later split attempt again
    rw [split]
    exact (attempt_dropped installed attempt).mpr (exhausted before p later split attempt again)

end Traces

/-- For every sequence of commands that ends with `enable` and every trace: repeated attempts are
dropped and further `enable`s change nothing exactly when each repeated attempt comes while the
limit of SYN packets is used up, and there are five copies of the rules or no packets that could
tell. -/
theorem policy_effective_iff (fw : Chains Matcher) (fresh : Fresh fw) (commands : List Command)
    (trace : List Packet) :
    DropsRepeated (runCommands fw (commands ++ [.enable])) trace ∧
        Idempotent (runCommands fw (commands ++ [.enable])) trace ↔
      (∀ before p later, trace = before ++ p :: later → Attempt p → Repeated before p →
        Exhausted before p) ∧
        (5 ≤ copies (commands ++ [.enable]) ∨ ∀ p ∈ trace, ¬WithinSSH p) := by
  have installed := fresh.runCommands (commands ++ [.enable])
  rw [copies_enable] at installed ⊢
  rw [dropsRepeated_iff installed, idempotent_iff installed]

/-- The table after boot. -/
def emptyTable : Chains Matcher := AList.insert "INPUT" [] ∅

/-- A packet from one source to the SSH port. -/
def sshPacket (syn : Bool) (time : Nat) : Packet :=
  ⟨"eth0", .tcp, ⟨syn, !syn, false, false⟩, 22, 0x0a000001, time⟩

/-- Disabled and enabled again, with a SYN packet and a UDP packet. -/
theorem policy_effective_iff_restart : Fresh emptyTable ∧
    Idempotent (runCommands emptyTable [.enable, .disable, .enable])
      [sshPacket true 0, ⟨"eth0", .udp, ⟨false, false, false, false⟩, 53, 0x0a000001, 5⟩] := by
  have fresh : Fresh emptyTable := ⟨by decide, by decide⟩
  refine ⟨fresh, ((policy_effective_iff emptyTable fresh [.enable, .disable] _).mpr ⟨?_, ?_⟩).2⟩
  · intro before p later split _ again
    have short : before.length < 2 := by
      have lengths := congrArg List.length split
      simp only [List.length_cons, List.length_nil, List.length_append] at lengths
      omega
    have many : 4 ≤ before.length := le_trans again List.countP_le_length
    omega
  · right
    decide

/-- Five attempts at once all pass the rules, and one packet of an SSH connection that passes one
copy of the rules is dropped by five. -/
theorem policy_not_effective : Fresh emptyTable ∧
    ¬DropsRepeated (runCommands emptyTable [.enable]) (List.replicate 5 (sshPacket true 0)) ∧
      ¬Idempotent (runCommands emptyTable [.enable]) [sshPacket false 0] := by
  refine ⟨⟨by decide, by decide⟩, ?_, ?_⟩
  · intro drops
    have dropped := drops (List.replicate 4 (sshPacket true 0)) (sshPacket true 0) [] rfl (by decide)
      (by decide)
    revert dropped
    decide +kernel
  · intro idempotent
    have same := idempotent 4
    revert same
    decide +kernel

end DosPolicy

end FirewallCore.Bmc
