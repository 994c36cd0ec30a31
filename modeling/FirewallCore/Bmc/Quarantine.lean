import FirewallCore.Bmc.MacFilter
import Mathlib.Data.List.Induction

/-!
The script that accepts or drops what a MAC address sends (`quaratine.sh` with
two arguments), as the web backend calls it for `/update-mac-status`.

The packet filter keeps the address and not its text. A rule is deleted by what
it says, so that the first rule like it goes, and a failure to delete is ignored.
-/

namespace FirewallCore.Bmc

open FirewallCore.Lib

namespace Quarantine

open MacFilter (MAC)

/-! ### The script -/

/-- The matchers of rules: `-m mac --mac-source`, and whatever else the table has. -/
inductive Matcher where
  | macSource (mac : BitVec 48)
  | other (text : String)
  deriving DecidableEq, Repr

/-- The address that a text stands for. -/
def address (mac : MAC) : BitVec 48 :=
  BitVec.ofNat 48
    ((mac.text.toList.filterMap hexVal).foldl (fun value digit => 16 * value + digit) 0)

/-- `-m mac --mac-source $MAC_ADDRESS -j $ACTION`. -/
def macRule (mac : BitVec 48) (target : Target) : Rule Matcher := ⟨[.macSource mac], some target⟩

/-- The two arguments. -/
structure Call where
  mac : MAC
  action : String

/-- The actions that the script takes. -/
def Call.target (call : Call) : Option Target :=
  if call.action = "ACCEPT" then some .accept
  else if call.action = "DROP" then some .drop
  else none

/-- One call of the script, with what it prints. -/
def update (fw : Chains Matcher) (call : Call) : Chains Matcher × Except String String :=
  match call.target with
  | none =>
    (fw, .error "\x7b\"error\": \"Hành động không hợp lệ. Chỉ chấp nhận ACCEPT hoặc DROP.\"\x7d")
  | some target =>
    let mac := address call.mac
    let fw := (fw.delete "FORWARD" (macRule mac .accept)).getD fw
    let fw := (fw.delete "FORWARD" (macRule mac .drop)).getD fw
    let fw := (fw.insertFirst "FORWARD" (macRule mac target)).getD fw
    (fw, .ok ("\x7b\"success\": \"Cập nhật thành công địa chỉ MAC " ++ call.mac.text ++
      " với hành động " ++ call.action ++ "\"\x7d"))

/-- The calls one after the other. -/
def updates (fw : Chains Matcher) (calls : List Call) : Chains Matcher :=
  calls.foldl (fun fw call => (update fw call).1) fw

/-! ### What the calls are for -/

/-- The address of a rule that accepts or drops what one MAC address sends. -/
def ruleMac : Rule Matcher → Option (BitVec 48)
  | ⟨[.macSource mac], some .accept⟩ => some mac
  | ⟨[.macSource mac], some .drop⟩ => some mac
  | _ => none

/-- A packet from the address can match the rule. -/
def canMatch (mac : BitVec 48) (r : Rule Matcher) : Bool :=
  r.matchers.all fun
    | .macSource other => other == mac
    | .other _ => true

/-- The latest action for an address. -/
def latest (calls : List Call) (mac : BitVec 48) : Option Target :=
  calls.reverse.findSome? fun call => if address call.mac = mac then call.target else none

/-- No call is for the address of the rule. -/
def untouched (calls : List Call) (r : Rule Matcher) : Bool :=
  (ruleMac r).all fun mac => (latest calls mac).isNone

/-- Each address has at most one rule that accepts and at most one that drops. -/
def AtMostOne (rules : List (Rule Matcher)) : Prop :=
  ∀ mac, rules.count (macRule mac .accept) ≤ 1 ∧ rules.count (macRule mac .drop) ≤ 1

/-- What the calls have to leave of the rules `before`. -/
structure Quarantined (calls : List Call) (before after : List (Rule Matcher)) : Prop where
  /-- An address that was updated has one rule, with the latest action. -/
  single : ∀ mac target, latest calls mac = some target →
    after.filter (ruleMac · = some mac) = [macRule mac target]
  /-- It is the first rule that a packet from the address can match. -/
  first : ∀ mac target, latest calls mac = some target →
    after.find? (canMatch mac) = some (macRule mac target)
  /-- It stands before all that is left of the rules before. -/
  precedes : ∃ inserted, after = inserted ++ before.filter (untouched calls) ∧
    ∀ mac target, latest calls mac = some target → macRule mac target ∈ inserted
  /-- Rules of other kinds are left alone. -/
  others : after.filter (ruleMac · = none) = before.filter (ruleMac · = none)

/-- The rules after a call, as the calls are meant. -/
def put (mac : BitVec 48) (target : Target) (rules : List (Rule Matcher)) : List (Rule Matcher) :=
  macRule mac target :: rules.filter (ruleMac · ≠ some mac)

/-! ### Rules -/

section Rules

variable {mac other : BitVec 48} {target : Target} {rules : List (Rule Matcher)} {r : Rule Matcher}

theorem Call.target_cases {call : Call} (acts : call.target = some target) :
    target = .accept ∨ target = .drop := by
  unfold Call.target at acts
  split at acts
  · exact .inl (Option.some.inj acts).symm
  · split at acts
    · exact .inr (Option.some.inj acts).symm
    · cases acts

theorem ruleMac_eq_some_iff :
    ruleMac r = some mac ↔ r = macRule mac .accept ∨ r = macRule mac .drop := by
  constructor
  · intro isMac
    unfold ruleMac at isMac
    split at isMac
    · cases isMac
      exact .inl rfl
    · cases isMac
      exact .inr rfl
    · cases isMac
  · rintro (rfl | rfl)
    · rfl
    · rfl

theorem ruleMac_macRule (acts : target = .accept ∨ target = .drop) :
    ruleMac (macRule mac target) = some mac := by
  rcases acts with rfl | rfl
  · rfl
  · rfl

theorem canMatch_macRule : canMatch other (macRule mac target) = true ↔ mac = other := by
  simp [canMatch, macRule]

/-- A rule for one address is not for another. -/
theorem canMatch_of_ruleMac (isMac : ruleMac r = some mac) (matched : canMatch other r = true) :
    mac = other := by
  rcases ruleMac_eq_some_iff.mp isMac with rfl | rfl
  · exact canMatch_macRule.mp matched
  · exact canMatch_macRule.mp matched

/-- What occurs once is gone when it is erased. -/
theorem erase_eq_filter_of_count_le_one (few : rules.count r ≤ 1) :
    rules.erase r = rules.filter (· ≠ r) := by
  induction rules with
  | nil => rfl
  | cons head rest ih =>
    by_cases same : head = r
    · subst same
      rw [List.count_cons_self] at few
      have gone : head ∉ rest := List.count_eq_zero.mp (by omega)
      rw [List.erase_cons_head, List.filter_cons_of_neg (by simp), List.filter_eq_self.mpr]
      intro other member
      rw [decide_eq_true_iff]
      rintro rfl
      exact gone member
    · rw [List.count_cons_of_ne same] at few
      rw [List.erase_cons_tail (by simpa using same),
        List.filter_cons_of_pos (by simpa using same), ih few]

/-- Both deletions together. -/
theorem erase_both (few : AtMostOne rules) :
    (rules.erase (macRule mac .accept)).erase (macRule mac .drop) =
      rules.filter (ruleMac · ≠ some mac) := by
  have dropped : (rules.erase (macRule mac .accept)).count (macRule mac .drop) ≤ 1 :=
    (List.erase_sublist.count_le _).trans (few mac).2
  rw [erase_eq_filter_of_count_le_one dropped, erase_eq_filter_of_count_le_one (few mac).1,
    List.filter_filter]
  apply List.filter_congr
  intro r _
  simp only [ne_eq, ruleMac_eq_some_iff, not_or, Bool.decide_and, decide_not, Bool.and_comm]

/-- What is meant keeps the bound. -/
theorem AtMostOne.put (few : AtMostOne rules) (acts : target = .accept ∨ target = .drop) :
    AtMostOne (put mac target rules) := by
  have count_le (action : Target) (isAction : action = .accept ∨ action = .drop) (other : BitVec 48)
      (once : rules.count (macRule other action) ≤ 1) :
      (Quarantine.put mac target rules).count (macRule other action) ≤ 1 := by
    unfold Quarantine.put
    by_cases same : mac = other
    · subst same
      have gone : macRule mac action ∉ rules.filter (ruleMac · ≠ some mac) := by
        intro member
        have kept := of_decide_eq_true (List.mem_filter.mp member).2
        exact kept (ruleMac_macRule isAction)
      rw [List.count_cons, List.count_eq_zero.mpr gone]
      split <;> omega
    · have apart : macRule mac target ≠ macRule other action := by
        intro equal
        have macs := congrArg ruleMac equal
        rw [ruleMac_macRule acts, ruleMac_macRule isAction] at macs
        exact same (Option.some.inj macs)
      rw [List.count_cons_of_ne apart]
      exact (List.filter_sublist.count_le _).trans once
  exact fun other => ⟨count_le .accept (.inl rfl) other (few other).1,
    count_le .drop (.inr rfl) other (few other).2⟩

end Rules

/-! ### One call -/

section Call

variable {fw : Chains Matcher} {rules : List (Rule Matcher)} {call : Call} {mac : BitVec 48}
  {target : Target}

theorem resolves_macRule (acts : target = .accept ∨ target = .drop) :
    fw.resolves (macRule mac target) = true := by
  rcases acts with rfl | rfl
  · rfl
  · rfl

/-- A deletion whose failure is ignored. -/
theorem delete_spec (acts : target = .accept ∨ target = .drop)
    (found : fw.lookup "FORWARD" = some rules) :
    ((fw.delete "FORWARD" (macRule mac target)).getD fw).lookup "FORWARD" =
        some (rules.erase (macRule mac target)) ∧
      ∀ other, other ≠ "FORWARD" →
        ((fw.delete "FORWARD" (macRule mac target)).getD fw).lookup other = fw.lookup other := by
  have known : fw.resolves (macRule mac target) = true := resolves_macRule acts
  unfold Chains.delete
  by_cases member : macRule mac target ∈ rules
  · have checked : fw.check "FORWARD" (macRule mac target) = true := by
      simp [Chains.check, found, known, member]
    rw [if_pos checked, Chains.change_some found known, Option.getD_some]
    refine ⟨AList.lookup_insert fw, ?_⟩
    intro other apart
    exact AList.lookup_insert_ne apart
  · have unchecked : ¬fw.check "FORWARD" (macRule mac target) = true := by
      simp [Chains.check, found, member]
    rw [if_neg unchecked, Option.getD_none, List.erase_of_not_mem member]
    exact ⟨found, fun _ _ => rfl⟩

/-- The script does what is meant, and touches no other chain. -/
theorem update_spec (few : AtMostOne rules) (found : fw.lookup "FORWARD" = some rules)
    (acts : call.target = some target) :
    (update fw call).1.lookup "FORWARD" = some (put (address call.mac) target rules) ∧
      ∀ other, other ≠ "FORWARD" → (update fw call).1.lookup other = fw.lookup other := by
  unfold update
  rw [acts]
  obtain ⟨accepts, others⟩ := @delete_spec _ _ (address call.mac) _ (.inl rfl) found
  obtain ⟨drops, others'⟩ := @delete_spec _ _ (address call.mac) _ (.inr rfl) accepts
  dsimp only
  rw [Chains.insertFirst, Chains.change_some drops (resolves_macRule (Call.target_cases acts)),
    Option.getD_some, erase_both few]
  refine ⟨AList.lookup_insert _, ?_⟩
  intro other apart
  rw [AList.lookup_insert_ne apart, others' other apart, others other apart]

theorem update_refused (refused : call.target = none) : (update fw call).1 = fw := by
  unfold update
  rw [refused]

end Call

/-! ### Every sequence of calls -/

section Calls

variable {calls : List Call} {call : Call} {before after : List (Rule Matcher)} {mac : BitVec 48}
  {target : Target}

theorem latest_concat (calls : List Call) (call : Call) (mac : BitVec 48) :
    latest (calls ++ [call]) mac =
      (if address call.mac = mac then call.target else none).or (latest calls mac) := by
  unfold latest
  rw [List.reverse_append, List.findSome?_append, List.reverse_singleton, List.findSome?_singleton]

theorem latest_concat_self (acts : call.target = some target) :
    latest (calls ++ [call]) (address call.mac) = some target := by
  rw [latest_concat, if_pos rfl, acts]
  rfl

theorem latest_concat_of_ne (apart : address call.mac ≠ mac) :
    latest (calls ++ [call]) mac = latest calls mac := by
  rw [latest_concat, if_neg apart]
  rfl

theorem latest_concat_refused (refused : call.target = none) :
    latest (calls ++ [call]) mac = latest calls mac := by
  rw [latest_concat, refused, ite_self]
  rfl

theorem latest_cases (found : latest calls mac = some target) :
    target = .accept ∨ target = .drop := by
  obtain ⟨call, -, acts⟩ := List.exists_of_findSome?_eq_some found
  split at acts
  · exact Call.target_cases acts
  · cases acts

/-- One more call leaves fewer rules untouched. -/
theorem untouched_concat (acts : call.target = some target) (r : Rule Matcher) :
    untouched (calls ++ [call]) r =
      (decide (ruleMac r ≠ some (address call.mac)) && untouched calls r) := by
  unfold untouched
  cases isMac : ruleMac r with
  | none => rfl
  | some mac =>
    by_cases same : address call.mac = mac
    · subst same
      simp [latest_concat_self acts]
    · simp [latest_concat_of_ne same, Ne.symm same]

theorem Quarantined.nil (rules : List (Rule Matcher)) : Quarantined [] rules rules where
  single := fun mac target found => by cases found
  first := fun mac target found => by cases found
  precedes := by
    refine ⟨[], ?_, fun mac target found => by cases found⟩
    rw [List.nil_append, List.filter_eq_self.mpr]
    intro r _
    cases isMac : ruleMac r with
    | none => simp [untouched, isMac]
    | some mac => simp [untouched, isMac, latest]
  others := rfl

theorem Quarantined.refuse (done : Quarantined calls before after) (refused : call.target = none) :
    Quarantined (calls ++ [call]) before after := by
  have same : latest (calls ++ [call]) = latest calls :=
    funext fun mac => latest_concat_refused refused
  have same' : untouched (calls ++ [call]) = untouched calls := by
    unfold untouched
    rw [same]
  constructor
  · rw [same]
    exact done.single
  · rw [same]
    exact done.first
  · rw [same, same']
    exact done.precedes
  · exact done.others

/-- One call as it is meant. -/
theorem Quarantined.put (done : Quarantined calls before after) (acts : call.target = some target) :
    Quarantined (calls ++ [call]) before (put (address call.mac) target after) := by
  have isMac : ruleMac (macRule (address call.mac) target) = some (address call.mac) :=
    ruleMac_macRule (Call.target_cases acts)
  constructor
  case single =>
    intro mac action found
    unfold Quarantine.put
    by_cases same : address call.mac = mac
    · subst same
      rw [latest_concat_self acts] at found
      cases found
      rw [List.filter_cons_of_pos (by simpa using isMac), List.filter_filter,
        List.filter_eq_nil_iff.mpr]
      intro r _
      simp
    · rw [latest_concat_of_ne same] at found
      rw [List.filter_cons_of_neg (by simpa [isMac] using same), List.filter_filter,
        ← done.single mac action found]
      apply List.filter_congr
      intro r _
      by_cases isRule : ruleMac r = some mac
      · simp [isRule, Ne.symm same]
      · simp [isRule]
  case first =>
    intro mac action found
    unfold Quarantine.put
    by_cases same : address call.mac = mac
    · subst same
      rw [latest_concat_self acts] at found
      cases found
      exact List.find?_cons_of_pos (canMatch_macRule.mpr rfl)
    · rw [latest_concat_of_ne same] at found
      rw [List.find?_cons_of_neg fun matched => same (canMatch_macRule.mp matched),
        List.find?_filter,
        ← done.first mac action found]
      congr 1
      funext r
      by_cases isRule : ruleMac r = some (address call.mac)
      · have misses : canMatch mac r = false :=
          Bool.eq_false_iff.mpr fun matched => same (canMatch_of_ruleMac isRule matched)
        simp [misses]
      · simp [isRule]
  case precedes =>
    obtain ⟨inserted, split, members⟩ := done.precedes
    refine ⟨Quarantine.put (address call.mac) target inserted, ?_, ?_⟩
    · unfold Quarantine.put
      rw [split, List.filter_append, List.filter_filter, List.cons_append,
        funext (untouched_concat acts)]
    · intro mac action found
      unfold Quarantine.put
      by_cases same : address call.mac = mac
      · subst same
        rw [latest_concat_self acts] at found
        cases found
        exact List.mem_cons_self
      · rw [latest_concat_of_ne same] at found
        refine List.mem_cons_of_mem _ (List.mem_filter.mpr ⟨members mac action found, ?_⟩)
        rw [ruleMac_macRule (latest_cases found)]
        simpa using Ne.symm same
  case others =>
    unfold Quarantine.put
    rw [List.filter_cons_of_neg (by simp [isMac]), List.filter_filter, ← done.others]
    apply List.filter_congr
    intro r _
    by_cases isRule : ruleMac r = none
    · simp [isRule]
    · simp [isRule]

end Calls

section Runs

variable {fw : Chains Matcher} {rules : List (Rule Matcher)}

theorem updates_concat (fw : Chains Matcher) (calls : List Call) (call : Call) :
    updates fw (calls ++ [call]) = (update (updates fw calls) call).1 := by
  unfold updates
  rw [List.foldl_append]
  rfl

/-- Every sequence of calls leaves what it has to of `FORWARD`, and does not touch other chains. -/
theorem updates_spec (few : AtMostOne rules) (found : fw.lookup "FORWARD" = some rules)
    (calls : List Call) :
    (∃ after, (updates fw calls).lookup "FORWARD" = some after ∧
      AtMostOne after ∧ Quarantined calls rules after) ∧
      ∀ other, other ≠ "FORWARD" → (updates fw calls).lookup other = fw.lookup other := by
  induction calls using List.reverseRecOn with
  | nil => exact ⟨⟨rules, found, few, .nil rules⟩, fun _ _ => rfl⟩
  | append_singleton calls call ih =>
    obtain ⟨⟨after, here, bounded, done⟩, others⟩ := ih
    rw [updates_concat]
    cases acts : call.target with
    | none =>
      rw [update_refused acts]
      exact ⟨⟨after, here, bounded, done.refuse acts⟩, others⟩
    | some target =>
      obtain ⟨here', others'⟩ := update_spec bounded here acts
      refine ⟨⟨_, here', bounded.put (Call.target_cases acts), done.put acts⟩, ?_⟩
      intro other apart
      rw [others' other apart, others other apart]

/-- After every sequence of calls, each address that was updated has one rule. It carries the latest
action, it is the first that a packet from the address can match, and it stands before all rules
that were in the chain. Rules of other kinds stay in their order. -/
theorem updates_quarantine (few : AtMostOne rules) (found : fw.lookup "FORWARD" = some rules)
    (calls : List Call) :
    ∃ after, (updates fw calls).lookup "FORWARD" = some after ∧ Quarantined calls rules after := by
  obtain ⟨⟨after, here, -, done⟩, -⟩ := updates_spec few found calls
  exact ⟨after, here, done⟩

end Runs

/-- A chain that drops what one address sends and logs what is left. -/
def sampleRules : List (Rule Matcher) :=
  [macRule 0x020000000001#48 .drop, ⟨[.other "-p tcp"], some (.log "")⟩]

/-- Two addresses, one of which is written in two ways. -/
def sampleCalls : List Call :=
  [⟨⟨"02:00:00:00:00:0a", by decide⟩, "DROP"⟩, ⟨⟨"02:00:00:00:00:01", by decide⟩, "ACCEPT"⟩,
    ⟨⟨"02:00:00:00:00:0A", by decide⟩, "ACCEPT"⟩]

theorem updates_quarantine_sample :
    ∃ after, (updates (AList.insert "FORWARD" sampleRules ∅) sampleCalls).lookup "FORWARD" =
      some after ∧
      Quarantined sampleCalls sampleRules after := by
  refine updates_quarantine ?_ (AList.lookup_insert ∅) sampleCalls
  have distinct : sampleRules.Nodup := by decide
  exact fun mac => ⟨List.nodup_iff_count_le_one.mp distinct _,
    List.nodup_iff_count_le_one.mp distinct _⟩

end Quarantine

end FirewallCore.Bmc
