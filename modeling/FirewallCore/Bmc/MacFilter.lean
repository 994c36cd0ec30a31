import FirewallCore.Lib.Chains
import FirewallCore.Lib.Strings
import FirewallCore.Lib.Run

/-!
The MAC filter script (`mac_filter.sh`): its configuration file and the chain
`MAC_FILTER` it keeps in the packet filter.

A line of the file is a key and a value; the file starts empty and only lines
`mode=`, `status=` and `maclist=` are written to it. `$(...)` of a getter is
the list of its lines.
-/

namespace FirewallCore.Bmc

open FirewallCore.Lib

namespace MacFilter

/-! ### The script -/

/-- `CHAIN`. -/
def chain : String := "MAC_FILTER"

inductive Key where
  | mode
  | status
  | maclist
  deriving DecidableEq, Repr

/-- A line of `/etc/mac-filter.conf`. -/
structure ConfLine where
  key : Key
  value : String
  deriving DecidableEq, Repr

/-- The matchers of rules: `-m mac --mac-source`, and whatever else the table has. -/
inductive Matcher where
  | macSource (mac : String)
  | other (text : String)
  deriving DecidableEq, Repr

/-- Six pairs of hexadecimal digits with colons between them. -/
def isMAC (s : String) : Bool :=
  s.length == 17 && s.toList.zipIdx.all fun (c, i) =>
    if i % 3 = 2 then c == ':' else (hexVal c).isSome

/-- A syntactically valid MAC address. -/
structure MAC where
  text : String
  valid : isMAC text = true

inductive Mode where
  | whitelist
  | blacklist
  deriving DecidableEq, Repr

def Mode.text : Mode → String
  | whitelist => "whitelist"
  | blacklist => "blacklist"

/-- The commands that change something. -/
inductive Command where
  | mode (mode : Mode)
  | enable
  | disable
  | add (mac : MAC)
  | delete (mac : MAC)

/-- The configuration file and the packet filter. `applied` notes that `apply_rules` has run. -/
structure State where
  conf : List ConfLine
  fw : Chains Matcher
  applied : Bool

/-- The values of a key, in file order. -/
def values (key : Key) (conf : List ConfLine) : List String :=
  (conf.filter (·.key = key)).map (·.value)

/-- `get_mode`. -/
def getMode (conf : List ConfLine) : List String := values .mode conf

/-- `get_status`. -/
def getStatus (conf : List ConfLine) : List String := values .status conf

/-- `get_maclist`. -/
def getMaclist (conf : List ConfLine) : List String := values .maclist conf

/-- `sed -i '/^key=/d'` and `echo "key=value" >>`. -/
def setValue (key : Key) (value : String) (conf : List ConfLine) : List ConfLine :=
  conf.filter (·.key ≠ key) ++ [⟨key, value⟩]

/-- `-j MAC_FILTER`. -/
def jumpRule : Rule Matcher := ⟨[], some (.jump chain)⟩

/-- `-m mac --mac-source "$mac" -j ACCEPT` or `DROP`. -/
def macRule (mode : List String) (mac : String) : Rule Matcher :=
  ⟨[.macSource mac], some (if mode = ["whitelist"] then .accept else .drop)⟩

/-- `-j DROP`. -/
def dropRule : Rule Matcher := ⟨[], some .drop⟩

/-- `init_chain`. -/
def initChain (fw : Chains Matcher) : Chains Matcher :=
  if (fw.lookup chain).isSome then fw else (fw.newChain chain).getD fw

/-- The loop of `flush_chain`, which deletes the first rule until that fails. -/
def flushLoop : Nat → Chains Matcher → Chains Matcher
  | 0, fw => fw
  | rounds + 1, fw =>
    match fw.deleteFirst chain with
    | none => fw
    | some fw => flushLoop rounds fw

/-- `flush_chain`; the loop takes a round for each rule. -/
def flushChain (fw : Chains Matcher) : Chains Matcher :=
  flushLoop ((fw.lookup chain).getD []).length fw

/-- One line of `enable_chain`. -/
def enableIn (builtin : String) (fw : Chains Matcher) : Chains Matcher :=
  if fw.check builtin jumpRule then fw else (fw.insertFirst builtin jumpRule).getD fw

/-- `enable_chain`. -/
def enableChain (fw : Chains Matcher) : Chains Matcher := enableIn "FORWARD" (enableIn "INPUT" fw)

/-- One line of `disable_chain`. -/
def disableIn (builtin : String) (fw : Chains Matcher) : Chains Matcher :=
  (fw.delete builtin jumpRule).getD fw

/-- `disable_chain`. -/
def disableChain (fw : Chains Matcher) : Chains Matcher :=
  disableIn "FORWARD" (disableIn "INPUT" fw)

/-- The body of the loop over the MAC addresses in `apply_rules`. -/
def appendMAC (mode : List String) (fw : Chains Matcher) (mac : String) : Chains Matcher :=
  if mac = "" then fw else (fw.append chain (macRule mode mac)).getD fw

/-- `apply_rules`. -/
def applyRules (s : State) : State :=
  let mode := getMode s.conf
  let fw := flushChain (initChain s.fw)
  let fw := (getMaclist s.conf).foldl (appendMAC mode) fw
  { s with fw := if mode = ["whitelist"] then (fw.append chain dropRule).getD fw else fw
           applied := true }

/-- One call of the script, with the message it prints. -/
def step (s : State) : Command → Option (State × Except String String)
  | .mode mode =>
    some (applyRules { s with conf := setValue .mode mode.text s.conf },
      .ok s!"Mode set to {mode.text}")
  | .enable =>
    some ({ s with conf := setValue .status "enable" s.conf, fw := enableChain s.fw },
      .ok "MAC filter enabled")
  | .disable =>
    some ({ s with conf := setValue .status "disable" s.conf, fw := disableChain s.fw },
      .ok "MAC filter disabled")
  | .add mac =>
    if ⟨.maclist, mac.text⟩ ∈ s.conf then some (s, .error s!"MAC {mac.text} already exists")
    else
      some (applyRules { s with conf := s.conf ++ [⟨.maclist, mac.text⟩] },
        .ok s!"MAC {mac.text} added")
  | .delete mac =>
    if ⟨.maclist, mac.text⟩ ∈ s.conf then
      some (applyRules { s with conf := s.conf.filter (· ≠ ⟨.maclist, mac.text⟩) },
        .ok s!"MAC {mac.text} removed")
    else some (s, .error s!"MAC {mac.text} not found")

/-! ### The file and the packet filter -/

/-- The number of jumps to the chain in a built-in chain. -/
def jumps (fw : Chains Matcher) (builtin : String) : Nat :=
  ((fw.lookup builtin).getD []).count jumpRule

/-- What the chain has to hold. -/
def expectedRules (conf : List ConfLine) : List (Rule Matcher) :=
  (getMaclist conf).map (macRule (getMode conf)) ++
    if getMode conf = ["whitelist"] then [dropRule] else []

/-- The status in the file says whether packets are led through the chain, and once rules have
been applied the chain holds those of the file. -/
structure Agrees (s : State) : Prop where
  enabled : getStatus s.conf = ["enable"] ↔ jumps s.fw "INPUT" = 1 ∧ jumps s.fw "FORWARD" = 1
  rules : s.applied = true → s.fw.lookup chain = some (expectedRules s.conf)

/-- A table with the built-in chains that does not know the filter. -/
structure Fresh (fw : Chains Matcher) : Prop where
  input : ∃ rules, fw.lookup "INPUT" = some rules ∧ jumpRule ∉ rules
  forward : ∃ rules, fw.lookup "FORWARD" = some rules ∧ jumpRule ∉ rules
  noChain : fw.lookup chain = none

/-- The filter is enabled only after a mode has been set or a MAC address added. -/
def EnabledLate (s : State) : Command → Prop
  | .enable => s.applied = true
  | _ => True

/-! ### The configuration file -/

section Conf

variable {key other : Key} {conf : List ConfLine}

theorem values_setValue (key : Key) (value : String) (conf : List ConfLine) :
    values key (setValue key value conf) = [value] := by
  simp [values, setValue, List.filter_append]

theorem values_setValue_of_ne (apart : key ≠ other) (value : String) :
    values key (setValue other value conf) = values key conf := by
  have kept : (conf.filter (·.key ≠ other)).filter (·.key = key) = conf.filter (·.key = key) := by
    rw [List.filter_filter]
    apply List.filter_congr
    intro line _
    by_cases here : line.key = key
    · simp [here, apart]
    · simp [here]
  unfold values setValue
  rw [List.filter_append, kept]
  simp [apart.symm]

theorem values_append (line : ConfLine) :
    values key (conf ++ [line]) = values key conf ++ if line.key = key then [line.value] else [] := by
  by_cases here : line.key = key <;> simp [values, List.filter_append, here]

theorem values_filter_of_ne {line : ConfLine} (apart : line.key ≠ key) :
    values key (conf.filter (· ≠ line)) = values key conf := by
  unfold values
  rw [List.filter_filter]
  congr 1
  apply List.filter_congr
  intro line' _
  by_cases here : line'.key = key
  · have other : line' ≠ line := by
      rintro rfl
      exact apart here
    simp [here, other]
  · simp [here]

theorem values_filter_subset (line : ConfLine) :
    values key (conf.filter (· ≠ line)) ⊆ values key conf := by
  intro value member
  simp only [values, List.mem_map, List.mem_filter] at member ⊢
  obtain ⟨line', ⟨⟨listed, -⟩, here⟩, same⟩ := member
  exact ⟨line', ⟨listed, here⟩, same⟩

end Conf

/-! ### The helpers -/

section Helpers

variable {fw : Chains Matcher} {builtin : String} {rules : List (Rule Matcher)}

theorem resolves_jumpRule : fw.resolves jumpRule = (fw.lookup chain).isSome := rfl

/-- The loop ends with an empty chain, and changes no other. -/
theorem flushLoop_spec (found : fw.lookup chain = some rules) :
    (flushLoop rules.length fw).lookup chain = some [] ∧
      ∀ other, other ≠ chain → (flushLoop rules.length fw).lookup other = fw.lookup other := by
  induction rules generalizing fw with
  | nil => exact ⟨found, fun _ _ => rfl⟩
  | cons r rest ih =>
    have deleted : fw.deleteFirst chain = some (fw.insert chain rest) := by
      simp only [Chains.deleteFirst, found]
    obtain ⟨empty, others⟩ := ih (AList.lookup_insert fw)
    simp only [List.length_cons, flushLoop, deleted]
    refine ⟨empty, ?_⟩
    intro other apart
    rw [others other apart, AList.lookup_insert_ne apart]

theorem initChain_spec (fw : Chains Matcher) :
    (∃ rules, (initChain fw).lookup chain = some rules) ∧
      ∀ other, other ≠ chain → (initChain fw).lookup other = fw.lookup other := by
  unfold initChain
  split
  · rename_i there
    exact ⟨Option.isSome_iff_exists.mp there, fun _ _ => rfl⟩
  · rename_i missing
    simp only [Chains.newChain, if_neg missing, Option.getD_some]
    refine ⟨⟨[], AList.lookup_insert fw⟩, ?_⟩
    intro other apart
    exact AList.lookup_insert_ne apart

theorem flushed_spec (fw : Chains Matcher) :
    (flushChain (initChain fw)).lookup chain = some [] ∧
      ∀ other, other ≠ chain → (flushChain (initChain fw)).lookup other = fw.lookup other := by
  obtain ⟨⟨rules, found⟩, others⟩ := initChain_spec fw
  obtain ⟨empty, others'⟩ := flushLoop_spec found
  unfold flushChain
  rw [found, Option.getD_some]
  refine ⟨empty, ?_⟩
  intro other apart
  rw [others' other apart, others other apart]

theorem append_spec {r : Rule Matcher} (plain : ∀ chain, r.target ≠ some (.jump chain))
    (found : fw.lookup chain = some rules) :
    ((fw.append chain r).getD fw).lookup chain = some (rules ++ [r]) ∧
      ∀ other, other ≠ chain → ((fw.append chain r).getD fw).lookup other = fw.lookup other := by
  have appended : fw.append chain r = some (fw.insert chain (rules ++ [r])) :=
    Chains.change_some found (Chains.resolves_of_target plain)
  rw [appended, Option.getD_some]
  refine ⟨AList.lookup_insert fw, ?_⟩
  intro other apart
  exact AList.lookup_insert_ne apart

theorem macRule_plain (mode : List String) (mac : String) (name : String) :
    (macRule mode mac).target ≠ some (.jump name) := by
  unfold macRule
  split <;> simp

/-- Every MAC address gets its rule, in order. -/
theorem foldl_appendMAC {mode macs : List String} (nonempty : "" ∉ macs)
    (found : fw.lookup chain = some rules) :
    (macs.foldl (appendMAC mode) fw).lookup chain = some (rules ++ macs.map (macRule mode)) ∧
      ∀ other, other ≠ chain → (macs.foldl (appendMAC mode) fw).lookup other = fw.lookup other := by
  induction macs generalizing fw rules with
  | nil => simp [found]
  | cons mac rest ih =>
    rw [List.mem_cons, not_or] at nonempty
    obtain ⟨here, others⟩ := append_spec (macRule_plain mode mac) found
    obtain ⟨here', others'⟩ := ih nonempty.2 here
    have first : appendMAC mode fw mac = (fw.append chain (macRule mode mac)).getD fw :=
      if_neg (Ne.symm nonempty.1)
    rw [List.foldl_cons, first]
    constructor
    · rw [here', List.map_cons, List.append_assoc, List.singleton_append]
    · intro other apart
      rw [others' other apart, others other apart]

/-- `apply_rules` makes the chain what the file says. -/
theorem applyRules_spec {s : State} (nonempty : "" ∉ getMaclist s.conf) :
    (applyRules s).fw.lookup chain = some (expectedRules s.conf) ∧
      ∀ other, other ≠ chain → (applyRules s).fw.lookup other = s.fw.lookup other := by
  obtain ⟨empty, others⟩ := flushed_spec s.fw
  obtain ⟨macs, others'⟩ := foldl_appendMAC nonempty empty
  unfold applyRules expectedRules
  dsimp only
  split
  · obtain ⟨last, others''⟩ := append_spec (r := dropRule) (by simp [dropRule]) macs
    refine ⟨last, ?_⟩
    intro other apart
    rw [others'' other apart, others' other apart, others other apart]
  · rw [List.append_nil]
    refine ⟨macs, ?_⟩
    intro other apart
    rw [others' other apart, others other apart]

/-- A jump is entered once when the chain is there. -/
theorem enableIn_spec (there : (fw.lookup chain).isSome = true)
    (found : fw.lookup builtin = some rules) (few : rules.count jumpRule ≤ 1) :
    (∃ rules', (enableIn builtin fw).lookup builtin = some rules' ∧ rules'.count jumpRule = 1) ∧
      ∀ other, other ≠ builtin → (enableIn builtin fw).lookup other = fw.lookup other := by
  unfold enableIn
  by_cases member : jumpRule ∈ rules
  · have checked : fw.check builtin jumpRule = true := by
      simp [Chains.check, found, resolves_jumpRule, there, member]
    have positive := List.count_pos_iff.mpr member
    rw [if_pos checked]
    exact ⟨⟨rules, found, by omega⟩, fun _ _ => rfl⟩
  · have unchecked : ¬fw.check builtin jumpRule = true := by
      simp [Chains.check, found, member]
    have inserted : fw.insertFirst builtin jumpRule = some (fw.insert builtin (jumpRule :: rules)) :=
      Chains.change_some found (resolves_jumpRule.trans there)
    rw [if_neg unchecked, inserted, Option.getD_some]
    refine ⟨⟨jumpRule :: rules, AList.lookup_insert fw, ?_⟩, ?_⟩
    · rw [List.count_cons_self, List.count_eq_zero_of_not_mem member]
    · intro other apart
      exact AList.lookup_insert_ne apart

/-- Nothing is entered when the chain is missing. -/
theorem enableIn_missing (missing : fw.lookup chain = none) : enableIn builtin fw = fw := by
  have unknown : fw.resolves jumpRule = false := by rw [resolves_jumpRule, missing, Option.isSome_none]
  unfold enableIn
  split
  · rfl
  · rw [Chains.insertFirst, Chains.change_unresolved unknown, Option.getD_none]

/-- A single jump is deleted. -/
theorem disableIn_spec (there : jumpRule ∈ rules → (fw.lookup chain).isSome = true)
    (found : fw.lookup builtin = some rules) (few : rules.count jumpRule ≤ 1) :
    (∃ rules', (disableIn builtin fw).lookup builtin = some rules' ∧ rules'.count jumpRule = 0) ∧
      ∀ other, other ≠ builtin → (disableIn builtin fw).lookup other = fw.lookup other := by
  unfold disableIn
  by_cases member : jumpRule ∈ rules
  · have known : fw.resolves jumpRule = true := resolves_jumpRule.trans (there member)
    have checked : fw.check builtin jumpRule = true := by
      simp [Chains.check, found, known, member]
    have deleted : fw.delete builtin jumpRule = some (fw.insert builtin (rules.erase jumpRule)) := by
      rw [Chains.delete, if_pos checked]
      exact Chains.change_some found known
    rw [deleted, Option.getD_some]
    refine ⟨⟨rules.erase jumpRule, AList.lookup_insert fw, ?_⟩, ?_⟩
    · rw [List.count_erase_self]
      omega
    · intro other apart
      exact AList.lookup_insert_ne apart
  · have unchecked : ¬fw.check builtin jumpRule = true := by
      simp [Chains.check, found, member]
    rw [Chains.delete, if_neg unchecked, Option.getD_none]
    exact ⟨⟨rules, found, List.count_eq_zero_of_not_mem member⟩, fun _ _ => rfl⟩

end Helpers

/-! ### Every command sequence -/

/-- The built-in chains that lead packets to the filter. -/
def builtins : List String := ["INPUT", "FORWARD"]

/-- What holds between commands, as long as the filter is enabled late. -/
structure Inv (s : State) : Prop where
  jumped : ∀ builtin ∈ builtins, ∃ rules, s.fw.lookup builtin = some rules ∧
    rules.count jumpRule = if getStatus s.conf = ["enable"] then 1 else 0
  rules : s.fw.lookup chain = if s.applied then some (expectedRules s.conf) else none
  late : getStatus s.conf = ["enable"] → s.applied = true
  nonempty : "" ∉ getMaclist s.conf

section Invariant

variable {s : State}

theorem ne_chain_of_builtin {builtin : String} (member : builtin ∈ builtins) : builtin ≠ chain := by
  rintro rfl
  revert member
  decide

theorem MAC.text_ne (mac : MAC) : mac.text ≠ "" := by
  intro empty
  have valid := mac.valid
  rw [empty] at valid
  revert valid
  decide

theorem Inv.jumps_eq (inv : Inv s) {builtin : String} (member : builtin ∈ builtins) :
    jumps s.fw builtin = if getStatus s.conf = ["enable"] then 1 else 0 := by
  obtain ⟨rules, found, count⟩ := inv.jumped builtin member
  rw [jumps, found, Option.getD_some, count]

theorem Inv.agrees (inv : Inv s) : Agrees s where
  enabled := by
    have input : "INPUT" ∈ builtins := by decide
    have forward : "FORWARD" ∈ builtins := by decide
    rw [inv.jumps_eq input, inv.jumps_eq forward]
    split <;> simp_all
  rules := by
    intro applied
    rw [inv.rules, if_pos applied]

theorem inv_start {fw : Chains Matcher} (fresh : Fresh fw) : Inv ⟨[], fw, false⟩ where
  jumped := by
    obtain ⟨input, foundIn, freeIn⟩ := fresh.input
    obtain ⟨forward, foundFw, freeFw⟩ := fresh.forward
    intro builtin member
    simp only [builtins, List.mem_cons, List.not_mem_nil, or_false] at member
    rcases member with rfl | rfl
    · exact ⟨input, foundIn, List.count_eq_zero_of_not_mem freeIn⟩
    · exact ⟨forward, foundFw, List.count_eq_zero_of_not_mem freeFw⟩
  rules := fresh.noChain
  late := by simp [getStatus, values]
  nonempty := by simp [getMaclist, values]

/-- A new file with the same status, and its rules applied. -/
theorem Inv.applyRules (inv : Inv s) {conf : List ConfLine}
    (status : getStatus conf = getStatus s.conf) (nonempty : "" ∉ getMaclist conf) :
    Inv (applyRules { s with conf := conf }) := by
  obtain ⟨rules, others⟩ := applyRules_spec (s := { s with conf := conf }) nonempty
  constructor
  case jumped =>
    intro builtin member
    obtain ⟨rules, found, count⟩ := inv.jumped builtin member
    refine ⟨rules, (others builtin (ne_chain_of_builtin member)).trans found, ?_⟩
    rw [count, ← status]
    rfl
  case rules => exact rules
  case late => exact fun _ => rfl
  case nonempty => exact nonempty

theorem getMode_setStatus (value : String) (conf : List ConfLine) :
    getMode (setValue .status value conf) = getMode conf :=
  values_setValue_of_ne (by decide) value

theorem getMaclist_setStatus (value : String) (conf : List ConfLine) :
    getMaclist (setValue .status value conf) = getMaclist conf :=
  values_setValue_of_ne (by decide) value

theorem expectedRules_setStatus (value : String) (conf : List ConfLine) :
    expectedRules (setValue .status value conf) = expectedRules conf := by
  rw [expectedRules, getMode_setStatus, getMaclist_setStatus, ← expectedRules]

/-- A new status, with a packet filter whose built-in chains have the jumps for it. -/
theorem Inv.setStatus (inv : Inv s) {value : String} {fw : Chains Matcher}
    (late : value = "enable" → s.applied = true)
    (jumped : ∀ builtin ∈ builtins, ∃ rules, fw.lookup builtin = some rules ∧
      rules.count jumpRule = if value = "enable" then 1 else 0)
    (same : fw.lookup chain = s.fw.lookup chain) :
    Inv { s with conf := setValue .status value s.conf, fw := fw } := by
  have status : getStatus (setValue .status value s.conf) = [value] := values_setValue _ _ _
  constructor
  case jumped =>
    intro builtin member
    obtain ⟨rules, found, count⟩ := jumped builtin member
    refine ⟨rules, found, ?_⟩
    simpa [status] using count
  case rules =>
    change fw.lookup chain = _
    rw [same, inv.rules, expectedRules_setStatus]
  case late =>
    intro enabled
    apply late
    simpa [status] using enabled
  case nonempty =>
    rw [getMaclist_setStatus]
    exact inv.nonempty

/-- The built-in chains one after the other, each changed by a helper that leaves the others. -/
theorem jumped_both {fw : Chains Matcher} {n : Nat} {helper : String → Chains Matcher → Chains Matcher}
    (here : ∀ builtin ∈ builtins, ∀ fw', fw'.lookup chain = fw.lookup chain →
      fw'.lookup builtin = fw.lookup builtin →
      (∃ rules, (helper builtin fw').lookup builtin = some rules ∧ rules.count jumpRule = n) ∧
        ∀ other, other ≠ builtin → (helper builtin fw').lookup other = fw'.lookup other) :
    (∀ builtin ∈ builtins, ∃ rules,
      (helper "FORWARD" (helper "INPUT" fw)).lookup builtin = some rules ∧
        rules.count jumpRule = n) ∧
      (helper "FORWARD" (helper "INPUT" fw)).lookup chain = fw.lookup chain := by
  obtain ⟨⟨input, foundIn, countIn⟩, others⟩ := here "INPUT" (by decide) fw rfl rfl
  have same := others chain (by decide)
  obtain ⟨⟨forward, foundFw, countFw⟩, others'⟩ :=
    here "FORWARD" (by decide) _ same (others "FORWARD" (by decide))
  constructor
  · intro builtin member
    simp only [builtins, List.mem_cons, List.not_mem_nil, or_false] at member
    rcases member with rfl | rfl
    · exact ⟨input, ( others' "INPUT" (by decide)).trans foundIn, countIn⟩
    · exact ⟨forward, foundFw, countFw⟩
  · rw [others' chain (by decide), same]

theorem Inv.enableChain (inv : Inv s) (applied : s.applied = true) :
    (∀ builtin ∈ builtins, ∃ rules, (enableChain s.fw).lookup builtin = some rules ∧
      rules.count jumpRule = 1) ∧ (enableChain s.fw).lookup chain = s.fw.lookup chain := by
  have there : (s.fw.lookup chain).isSome = true := by
    rw [inv.rules, if_pos applied, Option.isSome_some]
  apply jumped_both
  intro builtin member fw same found
  obtain ⟨rules, listed, count⟩ := inv.jumped builtin member
  have few : rules.count jumpRule ≤ 1 := by
    rw [count]
    split <;> omega
  exact enableIn_spec (same ▸ there) (found.trans listed) few

theorem Inv.disableChain (inv : Inv s) :
    (∀ builtin ∈ builtins, ∃ rules, (disableChain s.fw).lookup builtin = some rules ∧
      rules.count jumpRule = 0) ∧ (disableChain s.fw).lookup chain = s.fw.lookup chain := by
  apply jumped_both
  intro builtin member fw same found
  obtain ⟨rules, listed, count⟩ := inv.jumped builtin member
  have few : rules.count jumpRule ≤ 1 := by
    rw [count]
    split <;> omega
  have there : jumpRule ∈ rules → (fw.lookup chain).isSome = true := by
    intro member
    have positive := List.count_pos_iff.mpr member
    have enabled : getStatus s.conf = ["enable"] := by
      by_contra other
      rw [count, if_neg other] at positive
      omega
    rw [same, inv.rules, if_pos (inv.late enabled), Option.isSome_some]
  exact disableIn_spec there (found.trans listed) few

theorem Inv.step {command : Command} {s' : State} {answer : Except String String} (inv : Inv s)
    (taken : step s command = some (s', answer)) (late : EnabledLate s command) : Inv s' := by
  cases command with
  | mode mode =>
    cases taken
    apply inv.applyRules
    · exact values_setValue_of_ne (by decide) _
    · rw [getMaclist, values_setValue_of_ne (by decide)]
      exact inv.nonempty
  | enable =>
    cases taken
    obtain ⟨jumped, same⟩ := inv.enableChain late
    exact inv.setStatus (fun _ => late) jumped same
  | disable =>
    cases taken
    obtain ⟨jumped, same⟩ := inv.disableChain
    exact inv.setStatus (by simp) jumped same
  | add mac =>
    simp only [MacFilter.step] at taken
    split at taken
    · cases taken
      exact inv
    · cases taken
      apply inv.applyRules
      · simp [getStatus, values_append]
      · rw [getMaclist, values_append, List.mem_append, not_or]
        refine ⟨inv.nonempty, ?_⟩
        simpa using mac.text_ne.symm
  | delete mac =>
    simp only [MacFilter.step] at taken
    split at taken
    · cases taken
      apply inv.applyRules
      · exact values_filter_of_ne (by simp)
      · exact fun member => inv.nonempty (values_filter_subset _ member)
    · cases taken
      exact inv

/-- Without the chain, the status is written and the jumps cannot be. -/
theorem Inv.disagrees {s' : State} {answer : Except String String} (inv : Inv s)
    (early : ¬s.applied = true) (taken : MacFilter.step s .enable = some (s', answer)) :
    ¬Agrees s' := by
  have missing : s.fw.lookup chain = none := by rw [inv.rules, if_neg early]
  have unchanged : MacFilter.enableChain s.fw = s.fw := by
    rw [MacFilter.enableChain, enableIn_missing missing, enableIn_missing missing]
  have disabled : getStatus s.conf ≠ ["enable"] := fun enabled => early (inv.late enabled)
  cases taken
  intro agrees
  have entered := (agrees.enabled.mp (values_setValue _ _ _)).1
  rw [unchanged, inv.jumps_eq (by decide), if_neg disabled] at entered
  omega

end Invariant

/-- The file and the packet filter agree after every command exactly when every `enable` comes
after the first `mode` or `add`. -/
theorem filter_agrees_iff (fw : Chains Matcher) (fresh : Fresh fw) (commands : List Command) :
    Always step Agrees ⟨[], fw, false⟩ commands ↔ Meets step EnabledLate ⟨[], fw, false⟩ commands := by
  apply always_iff_meets (I := Inv)
  · exact fun _ inv => inv.agrees
  · exact fun _ _ _ _ inv taken late => inv.step taken late
  · intro s command s' answer inv taken early
    cases command with
    | enable => exact inv.disagrees early taken
    | _ => exact absurd trivial early
  · intro s command _ early
    cases command with
    | enable => exact ⟨_, _, rfl⟩
    | _ => exact absurd trivial early
  · exact inv_start fresh

/-- Two empty built-in chains. -/
def emptyTable : Chains Matcher := (AList.insert "INPUT" [] ∅).insert "FORWARD" []

theorem fresh_emptyTable : Fresh emptyTable where
  input := ⟨[], by decide, by simp⟩
  forward := ⟨[], by decide, by simp⟩
  noChain := by decide

/-- A mode, a MAC address, enabling and disabling: the file and the packet filter agree. -/
theorem filter_agrees_iff_session :
    Fresh emptyTable ∧ Always step Agrees ⟨[], emptyTable, false⟩
      [.mode .whitelist, .add ⟨"02:00:00:00:00:01", by decide⟩, .enable, .disable] := by
  refine ⟨fresh_emptyTable, (filter_agrees_iff _ fresh_emptyTable _).mpr ?_⟩
  refine ⟨trivial, ?_⟩
  rintro s answer ⟨⟩
  refine ⟨trivial, ?_⟩
  intro s' answer' added
  have applied : s'.applied = true := by
    cases added
    rfl
  refine ⟨applied, ?_⟩
  rintro s'' answer'' ⟨⟩
  exact ⟨trivial, fun _ _ _ => trivial⟩

/-- Enabling the filter first leaves a file that says so and no jump. -/
theorem filter_disagrees :
    Fresh emptyTable ∧ ¬Always step Agrees ⟨[], emptyTable, false⟩ [.enable] := by
  refine ⟨fresh_emptyTable, ?_⟩
  rintro ⟨-, after⟩
  have entered := ((after _ _ rfl).enabled.mp (by decide)).1
  revert entered
  decide

end MacFilter

end FirewallCore.Bmc
