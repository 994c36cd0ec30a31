import FirewallCore.Filtering.Rewrites
import Mathlib.Data.List.Dedup
import Mathlib.Data.List.Perm.Subperm
import Mathlib.Logic.Relation

/-!
The walk along CNAME rewrites (`processRewrites` in `filtering/filtering.go`).

A pass of the loop looks at the first of the entries found for the host. Unless
that is one of the exceptions, its answer becomes the host, and the entries for
the answer are looked up. The loop has a budget of lookups and gives nothing when
the budget is used up, so a result says how many lookups there were at most.
-/

namespace FirewallCore.Filtering

open FirewallCore.Lib FirewallCore.Net FirewallCore.Dnsforward

/-! ### The loop -/

/-- `Result{}`. -/
def noResult : Result := ⟨.notFilteredNotFound, "", [], [], false, none⟩

/-- The variables of the loop of `processRewrites`. -/
structure Walk where
  host : String
  /-- `cnames`, with the last one first. -/
  cnames : List String
  canonName : String
  rewrites : List LegacyRewrite
  matched : Bool
  deriving DecidableEq, Repr

/-- Where a pass of the loop leads: out of the loop, out of the function, or to an answer. -/
inductive Pass where
  | leaves (canonName : String)
  | returns (res : Result)
  | follows (rwAns : String)

namespace Walk

/-- `res` inside the loop. -/
def res (w : Walk) : Result := { noResult with reason := .rewritten, canonName := w.canonName }

/-- The condition of the loop and its body up to the lookup. -/
def pass (origHost : String) (w : Walk) : Pass :=
  match w.matched, w.rewrites with
  | true, rw :: _ =>
    if rw.type ≠ typeCNAME then .leaves w.canonName
    -- a request for the host itself, or a pattern onto itself
    else if origHost = rw.answer ∨ rw.domain = rw.answer then .returns noResult
    -- a wildcard that matches its own answer
    else if w.host = rw.answer ∧ isWildcard rw.domain then .leaves w.host
    else if rw.answer ∈ w.cnames then .returns w.res
    else .follows rw.answer
  | _, _ => .leaves w.canonName

/-- What follows the loop. -/
def finish (qtype : Nat) (w : Walk) (canonName : String) : Result :=
  let set := setRewriteResult qtype w.rewrites ⟨false, []⟩
  { noResult with
    reason := if set.notFiltered then .notFilteredNotFound else .rewritten
    canonName := canonName
    ipList := set.ipList }

end Walk

section Loop

variable (sortFunc : SortFunc LegacyRewrite.compare) (entries : List LegacyRewrite) (qtype : Nat)

/-- A lookup. -/
def look (host : String) (cnames : List String) (canonName : String) : Walk :=
  let (rewrites, matched) := findRewrites sortFunc entries host qtype
  ⟨host, cnames, canonName, rewrites, matched⟩

/-- The walk when an answer is followed. -/
def Walk.follow (w : Walk) (rwAns : String) : Walk :=
  look sortFunc entries qtype rwAns (rwAns :: w.cnames) rwAns

/-- The loop and what follows it, with a number of lookups that are left. -/
def walk (origHost : String) (lookups : Nat) (w : Walk) : Option Result :=
  match w.pass origHost with
  | .returns res => some res
  | .leaves canonName => some (w.finish qtype canonName)
  | .follows rwAns =>
    match lookups with
    | 0 => none
    | lookups + 1 => walk origHost lookups (w.follow sortFunc entries qtype rwAns)

/-- The walk before the first pass. -/
def startWalk (host : String) : Walk := look sortFunc entries qtype host [] ""

/-- `processRewrites`, with a budget of lookups. -/
def processRewrites (lookups : Nat) (host : String) : Option Result :=
  match lookups with
  | 0 => none
  | lookups + 1 =>
    let w := startWalk sortFunc entries qtype host
    if !w.matched then some noResult else walk sortFunc entries qtype host lookups w

/-! ### What the walk is for -/

/-- The distinct answers of the CNAME entries. -/
def cnameAnswers : List String := ((entries.filter fun e => decide e.IsCNAME).map (·.answer)).dedup

/-- Some CNAME entry for a host has the answer. -/
def CnameStep (host rwAns : String) : Prop :=
  ∃ e ∈ entries, e.IsCNAME ∧ matchesHost host e = true ∧ e.answer = rwAns

/-- The first entry found for a host is a CNAME. -/
def appliesCNAME (host : String) : Bool :=
  (findRewrites sortFunc entries host qtype).1.head?.any fun e => decide e.IsCNAME

/-- The result ends a chain of CNAME entries, and has addresses of its last host only. -/
structure Walked (host : String) (res : Result) : Prop where
  chain : res.reason = .rewritten →
    res.canonName ≠ "" ∨ appliesCNAME sortFunc entries qtype host = true →
    Relation.TransGen (CnameStep entries) host res.canonName
  addresses : ∀ ip ∈ res.ipList, ∃ e ∈ entries, e.Counts qtype ∧ e.ip = ip ∧
    matchesHost (if appliesCNAME sortFunc entries qtype host then res.canonName else host) e = true

end Loop

/-! ### Passes -/

section Passes

variable {sortFunc : SortFunc LegacyRewrite.compare} {entries : List LegacyRewrite} {qtype : Nat}
variable {host origHost : String} {w : Walk}

theorem mem_findRewrites {e : LegacyRewrite}
    (found : e ∈ (findRewrites sortFunc entries host qtype).1) :
    e ∈ entries ∧ applies host qtype e = true := by
  rw [findRewrites_list] at found
  obtain ⟨rest, split_⟩ :=
    cutAtWildcard_isPrefix (sortFunc.run (entries.filter (applies host qtype)))
  apply mem_run.mp
  rw [split_]
  exact List.mem_append_left _ found

theorem matchesHost_of_found {e : LegacyRewrite}
    (found : e ∈ (findRewrites sortFunc entries host qtype).1) : matchesHost host e = true := by
  have on := (mem_findRewrites found).2
  simp only [applies, Bool.and_eq_true] at on
  exact on.1

theorem mem_cnameAnswers {a : String} :
    a ∈ cnameAnswers entries ↔ ∃ e ∈ entries, e.IsCNAME ∧ e.answer = a := by
  simp [cnameAnswers, and_assoc]

/-- A pass that follows an answer, or leaves through the break, has a CNAME entry for it. -/
theorem pass_cases (w : Walk) (origHost : String) :
    (∃ rw rest, w.matched = true ∧ w.rewrites = rw :: rest ∧ rw.IsCNAME ∧
      (w.pass origHost = .returns noResult ∨
        (w.pass origHost = .leaves w.host ∧ w.host = rw.answer) ∨
        (w.pass origHost = .returns w.res ∧ rw.answer ∈ w.cnames) ∨
        (w.pass origHost = .follows rw.answer ∧ rw.answer ∉ w.cnames))) ∨
    (w.pass origHost = .leaves w.canonName ∧
      (w.matched = true → w.rewrites.head?.any (fun e => decide e.IsCNAME) = false)) := by
  unfold Walk.pass
  cases matched : w.matched with
  | false => exact .inr ⟨rfl, by simp⟩
  | true =>
    cases list : w.rewrites with
    | nil => exact .inr ⟨rfl, by simp⟩
    | cons rw rest =>
      by_cases cname : rw.type = typeCNAME
      · refine .inl ⟨rw, rest, rfl, rfl, cname, ?_⟩
        simp only [cname, ne_eq, not_true_eq_false, if_false]
        split
        · exact .inl rfl
        · split
          case isTrue own => exact .inr (.inl ⟨rfl, own.1⟩)
          case isFalse =>
            split
            case isTrue seen => exact .inr (.inr (.inl ⟨rfl, seen⟩))
            case isFalse fresh => exact .inr (.inr (.inr ⟨rfl, fresh⟩))
      · right
        simp only [cname, ne_eq, not_false_eq_true, if_true, true_and]
        intro _
        exact decide_eq_false cname

/-- Entries are found for a host that is matched only. -/
theorem matched_of_found {e : LegacyRewrite}
    (found : e ∈ (findRewrites sortFunc entries host qtype).1) :
    (findRewrites sortFunc entries host qtype).2 = true := by
  rw [findRewrites_matched, List.any_eq_true]
  exact ⟨e, (mem_findRewrites found).1, matchesHost_of_found found⟩

theorem finish_ipList (canonName : String) :
    (w.finish qtype canonName).ipList = resultIPs qtype w.rewrites := rfl

/-- An address in the result is that of an entry. -/
theorem exists_of_mem_resultIPs {rewrites : List LegacyRewrite} {ip : Addr}
    (mem : ip ∈ resultIPs qtype rewrites) : ∃ e ∈ rewrites, e.Counts qtype ∧ e.ip = ip := by
  induction rewrites with
  | nil => cases mem
  | cons e rewrites ih =>
    rw [resultIPs_cons] at mem
    split at mem
    case isFalse =>
      obtain ⟨e', later, counts⟩ := ih mem
      exact ⟨e', List.mem_cons_of_mem _ later, counts⟩
    case isTrue counts =>
      split at mem
      · cases mem
      · rcases List.mem_cons.mp mem with rfl | mem
        · exact ⟨e, List.mem_cons_self, counts, rfl⟩
        · obtain ⟨e', later, counts⟩ := ih mem
          exact ⟨e', List.mem_cons_of_mem _ later, counts⟩

end Passes

/-! ### The walk -/

section Walks

variable {sortFunc : SortFunc LegacyRewrite.compare} {entries : List LegacyRewrite} {qtype : Nat}
variable {host : String} {w : Walk}

/-- A walk that has come from the host along CNAME entries, to distinct answers. -/
structure Walk.Sound (sortFunc : SortFunc LegacyRewrite.compare) (entries : List LegacyRewrite)
    (qtype : Nat) (host : String) (w : Walk) : Prop where
  nodup : w.cnames.Nodup
  answers : w.cnames ⊆ cnameAnswers entries
  found : findRewrites sortFunc entries w.host qtype = (w.rewrites, w.matched)
  way : (w.host = host ∧ w.canonName = "" ∧ w.cnames = []) ∨
    (appliesCNAME sortFunc entries qtype host = true ∧ w.canonName = w.host ∧
      Relation.TransGen (CnameStep entries) host w.host)

theorem sound_start : (startWalk sortFunc entries qtype host).Sound sortFunc entries qtype host :=
  ⟨List.nodup_nil, List.nil_subset _, rfl, .inl ⟨rfl, rfl, rfl⟩⟩

namespace Walk.Sound

variable (sound : w.Sound sortFunc entries qtype host)

include sound

/-- The entry at the head of the list leads a step further. -/
theorem step {rw : LegacyRewrite} {rest : List LegacyRewrite} (list : w.rewrites = rw :: rest)
    (cname : rw.IsCNAME) : CnameStep entries w.host rw.answer := by
  have found : rw ∈ (findRewrites sortFunc entries w.host qtype).1 := by
    rw [sound.found, list]
    exact List.mem_cons_self
  exact ⟨rw, (mem_findRewrites found).1, cname, matchesHost_of_found found, rfl⟩

/-- A walk at a CNAME has a CNAME for its first host. -/
theorem applies {rw : LegacyRewrite} {rest : List LegacyRewrite} (list : w.rewrites = rw :: rest)
    (cname : rw.IsCNAME) : appliesCNAME sortFunc entries qtype host = true := by
  rcases sound.way with ⟨same, -, -⟩ | ⟨there, -, -⟩
  · rw [appliesCNAME, ← same, sound.found, list]
    exact decide_eq_true cname
  · exact there

theorem reach {rw : LegacyRewrite} {rest : List LegacyRewrite} (list : w.rewrites = rw :: rest)
    (cname : rw.IsCNAME) : Relation.TransGen (CnameStep entries) host rw.answer := by
  have next := sound.step list cname
  rcases sound.way with ⟨same, -, -⟩ | ⟨-, -, way⟩
  · rw [same] at next
    exact .single next
  · exact way.tail next

/-- A step of the loop keeps the walk sound. -/
theorem follow {rw : LegacyRewrite} {rest : List LegacyRewrite} (list : w.rewrites = rw :: rest)
    (cname : rw.IsCNAME) (fresh : rw.answer ∉ w.cnames) :
    (w.follow sortFunc entries qtype rw.answer).Sound sortFunc entries qtype host where
  nodup := List.nodup_cons.mpr ⟨fresh, sound.nodup⟩
  answers := by
    obtain ⟨e, member, isCNAME, -, same⟩ := sound.step list cname
    exact List.cons_subset.mpr ⟨mem_cnameAnswers.mpr ⟨e, member, isCNAME, same⟩, sound.answers⟩
  found := rfl
  way := .inr ⟨sound.applies list cname, rfl, sound.reach list cname⟩

/-- The addresses are those of the last host. -/
theorem addresses {canonName : String}
    (name : canonName = if appliesCNAME sortFunc entries qtype host then w.host else "") :
    ∀ ip ∈ (w.finish qtype canonName).ipList, ∃ e ∈ entries, e.Counts qtype ∧ e.ip = ip ∧
      matchesHost (if appliesCNAME sortFunc entries qtype host then canonName else host) e =
        true := by
  intro ip mem
  rw [finish_ipList] at mem
  obtain ⟨e, listed, counts, same⟩ := exists_of_mem_resultIPs mem
  have found : e ∈ (findRewrites sortFunc entries w.host qtype).1 := by
    rw [sound.found]
    exact listed
  refine ⟨e, (mem_findRewrites found).1, counts, same, ?_⟩
  have on := matchesHost_of_found found
  by_cases cname : appliesCNAME sortFunc entries qtype host = true
  · rw [if_pos cname, name, if_pos cname]
    exact on
  · rw [if_neg cname]
    rcases sound.way with ⟨start, -, -⟩ | ⟨there, -, -⟩
    · rwa [start] at on
    · exact absurd there cname

end Walk.Sound

theorem walked_noResult : Walked sortFunc entries qtype host noResult where
  chain rewritten := by cases rewritten
  addresses ip mem := by cases mem

/-- A walk that ends at an entry that is no CNAME. -/
theorem Walk.Sound.walked_end (sound : w.Sound sortFunc entries qtype host)
    (ends : w.matched = true → w.rewrites.head?.any (fun e => decide e.IsCNAME) = false) :
    Walked sortFunc entries qtype host (w.finish qtype w.canonName) := by
  have stays : w.host = host → appliesCNAME sortFunc entries qtype host = false := by
    intro same
    rw [appliesCNAME, ← same, sound.found]
    cases matched : w.matched with
    | true => exact ends matched
    | false =>
      have empty : w.rewrites = [] := by
        rw [List.eq_nil_iff_forall_not_mem]
        intro e listed
        have found : e ∈ (findRewrites sortFunc entries w.host qtype).1 := by
          rw [sound.found]
          exact listed
        have there := matched_of_found found
        rw [sound.found, matched] at there
        cases there
      rw [empty]
      rfl
  constructor
  · intro _ named
    rcases sound.way with ⟨same, nameless, -⟩ | ⟨-, name, way⟩
    · rcases named with named | cname
      · exact absurd nameless named
      · rw [stays same] at cname
        cases cname
    · change Relation.TransGen _ host w.canonName
      rw [name]
      exact way
  · apply sound.addresses
    rcases sound.way with ⟨same, nameless, -⟩ | ⟨there, name, -⟩
    · rw [stays same, nameless]
      rfl
    · rw [there, name]
      rfl

/-- A walk that has come back to an answer. -/
theorem Walk.Sound.walked_loop (sound : w.Sound sortFunc entries qtype host) {rwAns : String}
    (seen : rwAns ∈ w.cnames) : Walked sortFunc entries qtype host w.res := by
  constructor
  · intro _ _
    rcases sound.way with ⟨-, -, first⟩ | ⟨-, name, way⟩
    · rw [first] at seen
      cases seen
    · change Relation.TransGen _ host w.canonName
      rw [name]
      exact way
  · intro ip mem
    cases mem

theorem walk_returns {res : Result} (pass : w.pass host = .returns res) (lookups : Nat) :
    walk sortFunc entries qtype host lookups w = some res := by
  rw [walk.eq_def, pass]

theorem walk_leaves {canonName : String} (pass : w.pass host = .leaves canonName) (lookups : Nat) :
    walk sortFunc entries qtype host lookups w = some (w.finish qtype canonName) := by
  rw [walk.eq_def, pass]

theorem walk_follows {rwAns : String} (pass : w.pass host = .follows rwAns) (lookups : Nat) :
    walk sortFunc entries qtype host (lookups + 1) w =
      walk sortFunc entries qtype host lookups (w.follow sortFunc entries qtype rwAns) := by
  rw [walk.eq_def, pass]

/-- A pass of the loop ends the walk well, or follows an answer that is new. -/
theorem Walk.Sound.pass_spec (sound : w.Sound sortFunc entries qtype host) :
    (∃ res, Walked sortFunc entries qtype host res ∧
      ∀ lookups, walk sortFunc entries qtype host lookups w = some res) ∨
    ∃ rwAns, w.pass host = .follows rwAns ∧
      (w.follow sortFunc entries qtype rwAns).Sound sortFunc entries qtype host := by
  rcases pass_cases w host with ⟨rw, rest, -, list, cname, cases_⟩ | ⟨pass, ends⟩
  · rcases cases_ with pass | ⟨pass, own⟩ | ⟨pass, seen⟩ | ⟨pass, fresh⟩
    · exact .inl ⟨noResult, walked_noResult, walk_returns pass⟩
    · left
      refine ⟨w.finish qtype w.host, ⟨?_, ?_⟩, walk_leaves pass⟩
      · intro _ _
        have way := sound.reach list cname
        rwa [← own] at way
      · exact sound.addresses (if_pos (sound.applies list cname)).symm
    · left
      exact ⟨w.res, sound.walked_loop seen, walk_returns pass⟩
    · exact .inr ⟨rw.answer, pass, sound.follow list cname fresh⟩
  · exact .inl ⟨w.finish qtype w.canonName, sound.walked_end ends, walk_leaves pass⟩

/-- A walk with enough lookups left ends well, and more lookups change nothing. -/
theorem walk_spec (lookups : Nat) (sound : w.Sound sortFunc entries qtype host)
    (enough : (cnameAnswers entries).length ≤ lookups + w.cnames.length) :
    ∃ res, Walked sortFunc entries qtype host res ∧
      ∀ more, lookups ≤ more → walk sortFunc entries qtype host more w = some res := by
  induction lookups generalizing w with
  | zero =>
    rcases sound.pass_spec with ⟨res, walked, ends⟩ | ⟨rwAns, -, next⟩
    · exact ⟨res, walked, fun more _ => ends more⟩
    · -- there is no answer left to follow
      have bound := (next.nodup.subperm next.answers).length_le
      change (rwAns :: w.cnames).length ≤ _ at bound
      rw [List.length_cons] at bound
      omega
  | succ lookups ih =>
    rcases sound.pass_spec with ⟨res, walked, ends⟩ | ⟨rwAns, pass, next⟩
    · exact ⟨res, walked, fun more _ => ends more⟩
    · obtain ⟨res, walked, ends⟩ := ih next (by
        change _ ≤ lookups + (rwAns :: w.cnames).length
        rw [List.length_cons]
        omega)
      refine ⟨res, walked, fun more le => ?_⟩
      obtain ⟨more, rfl⟩ := Nat.exists_eq_add_of_le' (Nat.le_of_add_left_le le)
      rw [walk_follows pass]
      exact ends more (by omega)

end Walks

/-- `processRewrites` ends after at most one lookup more than there are answers of CNAME
entries, and its result is that of a walk along them. -/
theorem processRewrites_walks (sortFunc : SortFunc LegacyRewrite.compare)
    (entries : List LegacyRewrite)
    (qtype : Nat) (host : String) :
    ∃ res, Walked sortFunc entries qtype host res ∧
      ∀ lookups, (cnameAnswers entries).length + 1 ≤ lookups →
        processRewrites sortFunc entries qtype lookups host = some res := by
  by_cases matched : (startWalk sortFunc entries qtype host).matched = true
  · have start : (startWalk sortFunc entries qtype host).Sound sortFunc entries qtype host :=
      sound_start
    obtain ⟨res, walked, ends⟩ :=
      walk_spec (cnameAnswers entries).length start (Nat.le_add_right _ _)
    refine ⟨res, walked, fun lookups le => ?_⟩
    obtain ⟨lookups, rfl⟩ := Nat.exists_eq_add_of_le' (Nat.le_of_add_left_le le)
    simp only [processRewrites, matched, Bool.not_true, Bool.false_eq_true, if_false]
    exact ends lookups (by omega)
  · refine ⟨noResult, walked_noResult, fun lookups le => ?_⟩
    obtain ⟨lookups, rfl⟩ := Nat.exists_eq_add_of_le' (Nat.le_of_add_left_le le)
    simp only [processRewrites, matched, Bool.not_false, if_true]

end FirewallCore.Filtering
