import FirewallCore.Filtering.CnameWalk
import Mathlib.Data.List.Forall2

/-!
Letter case in rewrites (`CheckHost` and `normalize`).

The host of a request and the domains of the entries are put into lower case,
the answers of CNAME entries are not. An answer is both the canonical name in the
result and the key of the next lookup, so a table with an answer in mixed case
misses the entries that the table in lower case finds.

The two tables are walked at the same time. They stay in step as long as the
answers that are followed are spelled alike (`AnswersAlike`).
-/

namespace FirewallCore.Filtering

open FirewallCore.Lib FirewallCore.Net FirewallCore.Dnsforward

/-- A sort that sees the items through the comparison only moves the same positions of two
lists that compare alike. -/
def SortFunc.Blind {α : Type} {cmp : α → α → Int} (sortFunc : SortFunc cmp) : Prop :=
  ∀ l : List (α × α), (∀ p ∈ l, ∀ q ∈ l, cmp p.1 q.1 = cmp p.2 q.2) →
    ∃ m : List (α × α), m.Perm l ∧
      sortFunc.run (l.map Prod.fst) = m.map Prod.fst ∧
      sortFunc.run (l.map Prod.snd) = m.map Prod.snd

/-- `strings.ToLower`, over `unicode.ToLower`. -/
def lowerString (toLower : Char → Char) (s : String) : String := s.map toLower

section Stage

variable (toLower : Char → Char) (sortFunc : SortFunc LegacyRewrite.compare)

/-- `prepareRewrites`. -/
def prepareRewrites (entries : List LegacyRewrite) : List LegacyRewrite :=
  entries.map (LegacyRewrite.normalize (lowerString toLower))

/-- `CheckHost` up to the host checkers, with a budget of lookups. -/
def rewriteStage (entries : List LegacyRewrite) (filteringEnabled : Bool) (qtype lookups : Nat)
    (host : String) : Option Result :=
  if host = "" then some noResult
  else if filteringEnabled then
    processRewrites sortFunc entries qtype lookups (lowerString toLower host)
  else some noResult

/-- Two configured entries differ only in the letter case of the domain and, if they are
CNAME entries, of the answer. -/
structure SameButCase (a b : LegacyRewrite) : Prop where
  domain : lowerString toLower a.domain = lowerString toLower b.domain
  ip : a.ip = b.ip
  type : a.type = b.type
  answer : a.answer = b.answer ∨
    (a.normalize (lowerString toLower)).IsCNAME ∧ (b.normalize (lowerString toLower)).IsCNAME ∧
      lowerString toLower a.answer = lowerString toLower b.answer

/-- The same result, up to the letter case of the canonical name. -/
structure Agree (r₁ r₂ : Result) : Prop where
  reason : r₁.reason = r₂.reason
  ipList : r₁.ipList = r₂.ipList
  canonName : lowerString toLower r₁.canonName = lowerString toLower r₂.canonName

variable (entries₁ entries₂ : List LegacyRewrite) (qtype : Nat)

/-- The loop follows an answer. -/
def Follows (origHost : String) (w w' : Walk) : Prop :=
  ∃ rwAns, w.pass origHost = .follows rwAns ∧ w' = w.follow sortFunc entries₁ qtype rwAns

/-- A host has no CNAME answer, or one that the two tables spell alike, or one for which
neither of them has an entry. -/
def AlikeAt (host : String) : Prop :=
  ∀ rw₁ rw₂, (findRewrites sortFunc entries₁ host qtype).1.head? = some rw₁ →
    (findRewrites sortFunc entries₂ host qtype).1.head? = some rw₂ → rw₁.IsCNAME →
    rw₁.answer = rw₂.answer ∨
      (findRewrites sortFunc entries₁ rw₁.answer qtype).1 = [] ∧
        (findRewrites sortFunc entries₂ rw₂.answer qtype).1 = []

/-- The walk from a host comes only to hosts whose answers are alike. -/
def AnswersAlike (host : String) : Prop :=
  ∀ w, Relation.ReflTransGen (Follows sortFunc entries₁ qtype host)
      (startWalk sortFunc entries₁ qtype host) w →
    AlikeAt sortFunc entries₁ entries₂ qtype w.host

end Stage

/-! ### Entries that are alike -/

/-- Two entries that differ in the letter case of a CNAME answer only. -/
structure Alike (toLower : Char → Char) (a b : LegacyRewrite) : Prop where
  domain : a.domain = b.domain
  type : a.type = b.type
  ip : a.ip = b.ip
  answer : a.answer = b.answer ∨ lowerString toLower a.answer = lowerString toLower b.answer

section Entries

variable {toLower : Char → Char} {a b c d : LegacyRewrite} {host : String} {qtype : Nat}

theorem normalize_domain (a : LegacyRewrite) :
    (a.normalize (lowerString toLower)).domain = lowerString toLower a.domain := by
  unfold LegacyRewrite.normalize
  simp only
  split
  · rfl
  · split
    · rfl
    · split <;> rfl

theorem normalize_answer (a : LegacyRewrite) :
    (a.normalize (lowerString toLower)).answer = a.answer := by
  unfold LegacyRewrite.normalize
  simp only
  split
  · rfl
  · split
    · rfl
    · split <;> rfl

/-- An entry becomes a CNAME because its answer is no address, and keeps its own one. -/
theorem normalize_ip_of_cname (cname : (a.normalize (lowerString toLower)).IsCNAME) :
    (a.normalize (lowerString toLower)).ip = a.ip := by
  unfold LegacyRewrite.normalize LegacyRewrite.IsCNAME at *
  simp only at *
  split
  · rename_i exception
    rw [if_pos exception] at cname
    cases cname
  · rename_i noAAAA
    rw [if_neg noAAAA] at cname
    split
    · rename_i exception
      rw [if_pos exception] at cname
      cases cname
    · rename_i noA
      rw [if_neg noA] at cname
      split
      · rfl
      · rename_i ip parsed
        rw [parsed] at cname
        simp only at cname
        split at cname <;> cases cname

theorem normalize_alike (same : SameButCase toLower a b) :
    Alike toLower (a.normalize (lowerString toLower)) (b.normalize (lowerString toLower)) := by
  rcases same.answer with answer | ⟨cnameA, cnameB, answer⟩
  · have equal : a.normalize (lowerString toLower) = b.normalize (lowerString toLower) := by
      unfold LegacyRewrite.normalize
      rw [same.domain, same.ip, same.type, answer]
    rw [equal]
    exact ⟨rfl, rfl, rfl, .inl rfl⟩
  · constructor
    · rw [normalize_domain, normalize_domain, same.domain]
    · rw [cnameA, cnameB]
    · rw [normalize_ip_of_cname cnameA, normalize_ip_of_cname cnameB, same.ip]
    · rw [normalize_answer, normalize_answer]
      exact .inr answer

namespace Alike

theorem cname (alike : Alike toLower a b) : a.IsCNAME ↔ b.IsCNAME := by
  rw [LegacyRewrite.IsCNAME, LegacyRewrite.IsCNAME, alike.type]

theorem matchesHost (alike : Alike toLower a b) : matchesHost host a = matchesHost host b := by
  rw [Filtering.matchesHost, Filtering.matchesHost, alike.domain]

theorem applies (alike : Alike toLower a b) : applies host qtype a = applies host qtype b := by
  rw [Filtering.applies, Filtering.applies, alike.matchesHost, LegacyRewrite.matchesQType,
    LegacyRewrite.matchesQType, alike.type, alike.ip]

theorem compare (first : Alike toLower a b) (second : Alike toLower c d) :
    a.compare c = b.compare d := by
  unfold LegacyRewrite.compare
  rw [first.type, first.domain, second.type, second.domain]

theorem counts (alike : Alike toLower a b) : a.Counts qtype ↔ b.Counts qtype := by
  rw [LegacyRewrite.Counts, LegacyRewrite.Counts, alike.type]

end Alike

end Entries

/-! ### Lookups in tables that are alike -/

section Lookups

variable {toLower : Char → Char} {sortFunc : SortFunc LegacyRewrite.compare}
variable {entries₁ entries₂ l₁ l₂ : List LegacyRewrite} {host : String} {qtype : Nat}

/-- Two lists that are alike, as a list of pairs. -/
theorem exists_pairs (alike : List.Forall₂ (Alike toLower) l₁ l₂) :
    ∃ l : List (LegacyRewrite × LegacyRewrite), l.map Prod.fst = l₁ ∧ l.map Prod.snd = l₂ ∧
      ∀ p ∈ l, Alike toLower p.1 p.2 := by
  induction alike with
  | nil => exact ⟨[], rfl, rfl, fun p mem => by cases mem⟩
  | cons first _ ih =>
    obtain ⟨l, rfl, rfl, all⟩ := ih
    exact ⟨(_, _) :: l, rfl, rfl, List.forall_mem_cons.mpr ⟨first, all⟩⟩

theorem forall₂_pairs {l : List (LegacyRewrite × LegacyRewrite)}
    (all : ∀ p ∈ l, Alike toLower p.1 p.2) :
    List.Forall₂ (Alike toLower) (l.map Prod.fst) (l.map Prod.snd) := by
  rw [List.forall₂_map_left_iff, List.forall₂_map_right_iff, List.forall₂_same]
  exact all

theorem filter_alike (alike : List.Forall₂ (Alike toLower) l₁ l₂) :
    List.Forall₂ (Alike toLower) (l₁.filter (applies host qtype))
      (l₂.filter (applies host qtype)) := by
  induction alike with
  | nil => exact .nil
  | @cons a b _ _ first _ ih =>
    by_cases on : applies host qtype b = true
    · rw [List.filter_cons_of_pos on, List.filter_cons_of_pos (first.applies.trans on)]
      exact .cons first ih
    · rw [List.filter_cons_of_neg on, List.filter_cons_of_neg (by rwa [first.applies])]
      exact ih

theorem run_alike (blind : sortFunc.Blind) (alike : List.Forall₂ (Alike toLower) l₁ l₂) :
    List.Forall₂ (Alike toLower) (sortFunc.run l₁) (sortFunc.run l₂) := by
  obtain ⟨l, rfl, rfl, all⟩ := exists_pairs alike
  obtain ⟨m, perm, first, second⟩ := blind l fun p hp q hq => (all p hp).compare (all q hq)
  rw [first, second]
  exact forall₂_pairs fun p mem => all p (perm.mem_iff.mp mem)

theorem domains_alike (alike : List.Forall₂ (Alike toLower) l₁ l₂) :
    l₁.map (·.domain) = l₂.map (·.domain) := by
  induction alike with
  | nil => rfl
  | cons first _ ih => rw [List.map_cons, List.map_cons, first.domain, ih]

theorem cutAtWildcard_alike (alike : List.Forall₂ (Alike toLower) l₁ l₂) :
    List.Forall₂ (Alike toLower) (cutAtWildcard l₁) (cutAtWildcard l₂) := by
  have byDomain : ∀ l : List LegacyRewrite, l.findIdx? (fun r => isWildcard r.domain) =
      (l.map (·.domain)).findIdx? isWildcard := by
    intro l
    rw [List.findIdx?_map]
    rfl
  unfold cutAtWildcard
  rw [byDomain l₁, byDomain l₂, domains_alike alike]
  split
  · exact List.forall₂_take _ alike
  · exact alike

/-- The lookups of a host in two tables that are alike. -/
theorem findRewrites_alike (qtype : Nat) (blind : sortFunc.Blind)
    (alike : List.Forall₂ (Alike toLower) entries₁ entries₂) (host : String) :
    List.Forall₂ (Alike toLower) (findRewrites sortFunc entries₁ host qtype).1
      (findRewrites sortFunc entries₂ host qtype).1 ∧
    (findRewrites sortFunc entries₁ host qtype).2 =
      (findRewrites sortFunc entries₂ host qtype).2 := by
  constructor
  · rw [findRewrites_list, findRewrites_list]
    exact cutAtWildcard_alike (run_alike blind (filter_alike alike))
  · rw [findRewrites_matched, findRewrites_matched]
    induction alike with
    | nil => rfl
    | cons first _ ih => rw [List.any_cons, List.any_cons, first.matchesHost, ih]

theorem setRewriteResult_alike (alike : List.Forall₂ (Alike toLower) l₁ l₂) (res : RewriteResult) :
    setRewriteResult qtype l₁ res = setRewriteResult qtype l₂ res := by
  induction alike generalizing res with
  | nil => rfl
  | cons first _ ih =>
    unfold setRewriteResult
    simp only [first.counts, first.ip, ih]

/-- An entry that applies to a host makes its lookup find something. -/
theorem found_of_applies {e : LegacyRewrite} (member : e ∈ entries₁)
    (on : applies host qtype e = true) : (findRewrites sortFunc entries₁ host qtype).1 ≠ [] := by
  rw [findRewrites_list]
  have some : e ∈ sortFunc.run (entries₁.filter (applies host qtype)) := mem_run.mpr ⟨member, on⟩
  cases sorted : sortFunc.run (entries₁.filter (applies host qtype)) with
  | nil =>
    rw [sorted] at some
    cases some
  | cons r rest =>
    rw [cutAtWildcard_cons]
    split <;> exact List.cons_ne_nil _ _

end Lookups

/-! ### The two walks -/

section Walks

variable {toLower : Char → Char} {sortFunc : SortFunc LegacyRewrite.compare}
variable {entries entries₁ entries₂ : List LegacyRewrite} {origHost : String} {qtype : Nat}
variable {w w₁ w₂ : Walk}

/-- Two walks that have looked up the same hosts, and have found something for each but the last. -/
structure InStep (toLower : Char → Char) (sortFunc : SortFunc LegacyRewrite.compare)
    (entries₁ entries₂ : List LegacyRewrite) (qtype : Nat) (origHost : String) (w₁ w₂ : Walk) :
    Prop where
  host : w₁.host = w₂.host
  cnames : w₁.cnames = w₂.cnames
  canonName : w₁.canonName = w₂.canonName
  rewrites : List.Forall₂ (Alike toLower) w₁.rewrites w₂.rewrites
  matched : w₁.matched = w₂.matched
  found₁ : findRewrites sortFunc entries₁ w₁.host qtype = (w₁.rewrites, w₁.matched)
  found₂ : findRewrites sortFunc entries₂ w₂.host qtype = (w₂.rewrites, w₂.matched)
  earlier : ∀ c ∈ origHost :: w₁.cnames,
    c = w₁.host ∨ (findRewrites sortFunc entries₁ c qtype).1 ≠ []

theorem look_inStep (blind : sortFunc.Blind)
    (alike : List.Forall₂ (Alike toLower) entries₁ entries₂) {host canonName : String}
    {cnames : List String} (earlier : ∀ c ∈ origHost :: cnames, c = host ∨
      (findRewrites sortFunc entries₁ c qtype).1 ≠ []) :
    InStep toLower sortFunc entries₁ entries₂ qtype origHost
      (look sortFunc entries₁ qtype host cnames canonName)
      (look sortFunc entries₂ qtype host cnames canonName) := by
  obtain ⟨rewrites, matched⟩ := findRewrites_alike qtype blind alike host
  exact ⟨rfl, rfl, rfl, rewrites, matched, rfl, rfl, earlier⟩

theorem alike_symm (alike : List.Forall₂ (Alike toLower) entries₁ entries₂) :
    List.Forall₂ (Alike toLower) entries₂ entries₁ :=
  (alike.imp fun a b alike => (⟨alike.domain.symm, alike.type.symm, alike.ip.symm,
    alike.answer.imp Eq.symm Eq.symm⟩ : Alike toLower b a)).flip

theorem InStep.symm (blind : sortFunc.Blind)
    (alike : List.Forall₂ (Alike toLower) entries₁ entries₂)
    (step : InStep toLower sortFunc entries₁ entries₂ qtype origHost w₁ w₂) :
    InStep toLower sortFunc entries₂ entries₁ qtype origHost w₂ w₁ where
  host := step.host.symm
  cnames := step.cnames.symm
  canonName := step.canonName.symm
  rewrites := alike_symm step.rewrites
  matched := step.matched.symm
  found₁ := step.found₂
  found₂ := step.found₁
  earlier c mem := by
    rw [← step.cnames] at mem
    rw [← step.host]
    refine (step.earlier c mem).imp_right fun found empty => found ?_
    have both := (findRewrites_alike qtype blind alike c).1
    rwa [empty, List.forall₂_nil_right_iff] at both

theorem rewrites_of_follows {rwAns : String} (pass : w.pass origHost = .follows rwAns) :
    w.rewrites ≠ [] := by
  intro empty
  unfold Walk.pass at pass
  rw [empty] at pass
  split at pass
  · contradiction
  · cases pass

theorem Agree.refl (res : Result) : Agree toLower res res := ⟨rfl, rfl, rfl⟩

theorem finish_eq (rewrites : List.Forall₂ (Alike toLower) w₁.rewrites w₂.rewrites)
    (canonName : String) : w₁.finish qtype canonName = w₂.finish qtype canonName := by
  unfold Walk.finish
  rw [setRewriteResult_alike rewrites]

/-- A walk that has found nothing ends with the canonical name that it has. -/
theorem walk_of_empty (empty : w.rewrites = []) (lookups : Nat) :
    walk sortFunc entries qtype origHost lookups w =
      some { noResult with reason := .rewritten, canonName := w.canonName } := by
  have pass : w.pass origHost = .leaves w.canonName := by
    unfold Walk.pass
    rw [empty]
    split
    · contradiction
    · rfl
  rw [walk_leaves pass, Walk.finish, empty]
  rfl

namespace InStep

variable (step : InStep toLower sortFunc entries₁ entries₂ qtype origHost w₁ w₂)

include step

/-- Where the answers are spelled alike, the two passes lead to the same place. -/
theorem pass_eq (spelled : ∀ rw₁ rw₂, w₁.rewrites.head? = some rw₁ → w₂.rewrites.head? = some rw₂ →
    rw₁.IsCNAME → rw₁.answer = rw₂.answer) : w₁.pass origHost = w₂.pass origHost := by
  have result : w₁.res = w₂.res := by rw [Walk.res, Walk.res, step.canonName]
  unfold Walk.pass
  rw [← step.matched, ← step.host, ← step.cnames, ← step.canonName, ← result]
  cases list₁ : w₁.rewrites with
  | nil =>
    have list₂ : w₂.rewrites = [] := by
      have both := step.rewrites
      rwa [list₁, List.forall₂_nil_left_iff] at both
    rw [list₂]
  | cons rw₁ rest₁ =>
    have both := step.rewrites
    rw [list₁, List.forall₂_cons_left_iff] at both
    obtain ⟨rw₂, rest₂, alike, -, list₂⟩ := both
    rw [list₂]
    cases w₁.matched with
    | false => rfl
    | true =>
      dsimp only
      rw [← alike.type, ← alike.domain]
      by_cases cname : rw₁.type = typeCNAME
      · rw [← spelled rw₁ rw₂ (by rw [list₁]; rfl) (by rw [list₂]; rfl) cname]
      · rw [if_pos cname, if_pos cname]

/-- An answer for which nothing is found is followed. -/
theorem follows_unknown {rw₁ : LegacyRewrite} (head : w₁.rewrites.head? = some rw₁)
    (cname : rw₁.IsCNAME) (unknown : (findRewrites sortFunc entries₁ rw₁.answer qtype).1 = []) :
    w₁.pass origHost = .follows rw₁.answer := by
  obtain ⟨rest, list⟩ := List.head?_eq_some_iff.mp head
  have listed : rw₁ ∈ (findRewrites sortFunc entries₁ w₁.host qtype).1 := by
    rw [step.found₁, list]
    exact List.mem_cons_self
  have matched : w₁.matched = true := by
    have there := matched_of_found listed
    rwa [step.found₁] at there
  have known : ∀ c ∈ origHost :: w₁.cnames, rw₁.answer ≠ c := by
    rintro c mem rfl
    rcases step.earlier _ mem with here | found
    · rw [here] at unknown
      rw [unknown] at listed
      cases listed
    · exact found unknown
  have host : w₁.host ≠ rw₁.answer := by
    intro same
    rw [same, unknown] at listed
    cases listed
  have domain : rw₁.domain ≠ rw₁.answer := by
    intro same
    refine found_of_applies (mem_findRewrites listed).1 ?_ unknown
    have type : rw₁.type = typeCNAME := cname
    simp [applies, matchesHost, LegacyRewrite.matchesQType, same, type]
  obtain ⟨origin, fresh⟩ := List.forall_mem_cons.mp known
  have fresh : rw₁.answer ∉ w₁.cnames := fun mem => fresh _ mem rfl
  unfold Walk.pass
  have type : rw₁.type = typeCNAME := cname
  simp only [matched, list, type, ne_eq, not_true_eq_false, if_false, origin.symm, domain, host,
    fresh, or_self, false_and]

end InStep

/-- What a pass does to two walks in step. -/
theorem inStep_cases (blind : sortFunc.Blind)
    (alike : List.Forall₂ (Alike toLower) entries₁ entries₂)
    (step : InStep toLower sortFunc entries₁ entries₂ qtype origHost w₁ w₂)
    (here : AlikeAt sortFunc entries₁ entries₂ qtype w₁.host) :
    (∃ res, ∀ lookups, walk sortFunc entries₁ qtype origHost lookups w₁ = some res ∧
      walk sortFunc entries₂ qtype origHost lookups w₂ = some res) ∨
    (∃ rwAns, w₁.pass origHost = .follows rwAns ∧ w₂.pass origHost = .follows rwAns ∧
      InStep toLower sortFunc entries₁ entries₂ qtype origHost
        (w₁.follow sortFunc entries₁ qtype rwAns) (w₂.follow sortFunc entries₂ qtype rwAns)) ∨
    ∃ rwAns₁ rwAns₂, w₁.pass origHost = .follows rwAns₁ ∧ w₂.pass origHost = .follows rwAns₂ ∧
      lowerString toLower rwAns₁ = lowerString toLower rwAns₂ ∧
      (findRewrites sortFunc entries₁ rwAns₁ qtype).1 = [] ∧
      (findRewrites sortFunc entries₂ rwAns₂ qtype).1 = [] := by
  by_cases spelled : ∀ rw₁ rw₂, w₁.rewrites.head? = some rw₁ → w₂.rewrites.head? = some rw₂ →
      rw₁.IsCNAME → rw₁.answer = rw₂.answer
  · have same := step.pass_eq spelled
    cases pass : w₁.pass origHost with
    | returns res =>
      have pass₂ := same.symm.trans pass
      exact .inl ⟨res, fun lookups => ⟨walk_returns pass lookups, walk_returns pass₂ lookups⟩⟩
    | leaves canonName =>
      refine .inl ⟨w₁.finish qtype canonName, fun lookups => ⟨walk_leaves pass lookups, ?_⟩⟩
      rw [walk_leaves (same ▸ pass), finish_eq step.rewrites]
    | follows rwAns =>
      refine .inr (.inl ⟨rwAns, rfl, same ▸ pass, ?_⟩)
      rw [Walk.follow, Walk.follow, ← step.cnames]
      apply look_inStep blind alike
      intro c mem
      by_cases new : c = rwAns
      · exact .inl new
      · right
        have old : c ∈ origHost :: w₁.cnames := by
          simpa [new] using mem
        rcases step.earlier c old with this | found
        · rw [this, step.found₁]
          exact rewrites_of_follows pass
        · exact found
  · -- the answers differ, so nothing is found for either
    push Not at spelled
    obtain ⟨rw₁, rw₂, head₁, head₂, cname, differ⟩ := spelled
    have both := here rw₁ rw₂ (by rw [step.found₁]; exact head₁)
      (by rw [step.host, step.found₂]; exact head₂) cname
    obtain ⟨unknown₁, unknown₂⟩ := both.resolve_left differ
    have pair : Alike toLower rw₁ rw₂ := by
      obtain ⟨rest₁, list₁⟩ := List.head?_eq_some_iff.mp head₁
      obtain ⟨rest₂, list₂⟩ := List.head?_eq_some_iff.mp head₂
      have lists := step.rewrites
      rw [list₁, list₂, List.forall₂_cons] at lists
      exact lists.1
    refine .inr (.inr ⟨rw₁.answer, rw₂.answer, step.follows_unknown head₁ cname unknown₁, ?_,
      pair.answer.resolve_left differ, unknown₁, unknown₂⟩)
    exact (step.symm blind alike).follows_unknown head₂ (pair.cname.mp cname) unknown₂

/-- Two walks in step agree on the result, if the answers ahead of them are alike. -/
theorem walk_agree (blind : sortFunc.Blind)
    (alike : List.Forall₂ (Alike toLower) entries₁ entries₂) (lookups : Nat)
    (step : InStep toLower sortFunc entries₁ entries₂ qtype origHost w₁ w₂)
    (ahead : ∀ w, Relation.ReflTransGen (Follows sortFunc entries₁ qtype origHost) w₁ w →
      AlikeAt sortFunc entries₁ entries₂ qtype w.host) :
    Option.Rel (Agree toLower) (walk sortFunc entries₁ qtype origHost lookups w₁)
      (walk sortFunc entries₂ qtype origHost lookups w₂) := by
  induction lookups generalizing w₁ w₂ with
  | zero =>
    rcases inStep_cases blind alike step (ahead w₁ .refl) with
      ⟨res, ends⟩ | ⟨rwAns, pass₁, pass₂, -⟩ | ⟨rwAns₁, rwAns₂, pass₁, pass₂, -⟩
    · rw [(ends 0).1, (ends 0).2]
      exact .some (.refl res)
    · rw [walk.eq_def, walk.eq_def, pass₁, pass₂]
      exact .none
    · rw [walk.eq_def, walk.eq_def, pass₁, pass₂]
      exact .none
  | succ lookups ih =>
    rcases inStep_cases blind alike step (ahead w₁ .refl) with
      ⟨res, ends⟩ | ⟨rwAns, pass₁, pass₂, next⟩ | ⟨rwAns₁, rwAns₂, pass₁, pass₂, same, none₁, none₂⟩
    · rw [(ends _).1, (ends _).2]
      exact .some (.refl res)
    · rw [walk_follows pass₁, walk_follows pass₂]
      exact ih next fun w way => ahead w (.head ⟨rwAns, pass₁, rfl⟩ way)
    · rw [walk_follows pass₁, walk_follows pass₂, walk_of_empty none₁, walk_of_empty none₂]
      exact .some ⟨rfl, rfl, same⟩

end Walks

theorem lowerString_eq_empty (toLower : Char → Char) {s : String} :
    lowerString toLower s = "" ↔ s = "" := by
  rw [lowerString, String.map_eq_empty]

theorem processRewrites_agree {toLower : Char → Char} {sortFunc : SortFunc LegacyRewrite.compare}
    {entries₁ entries₂ : List LegacyRewrite} {qtype : Nat} {host : String} (blind : sortFunc.Blind)
    (alike : List.Forall₂ (Alike toLower) entries₁ entries₂)
    (answers : AnswersAlike sortFunc entries₁ entries₂ qtype host) (lookups : Nat) :
    Option.Rel (Agree toLower) (processRewrites sortFunc entries₁ qtype lookups host)
      (processRewrites sortFunc entries₂ qtype lookups host) := by
  cases lookups with
  | zero => exact .none
  | succ lookups =>
    have step : InStep toLower sortFunc entries₁ entries₂ qtype host
        (startWalk sortFunc entries₁ qtype host) (startWalk sortFunc entries₂ qtype host) :=
      look_inStep blind alike (by simp)
    simp only [processRewrites, ← step.matched]
    split
    · exact .some (.refl noResult)
    · exact walk_agree blind alike lookups step answers

/-- Two tables that differ in letter case only give results that differ in the letter case of
the canonical name only, if the CNAME answers that are followed are alike. -/
theorem rewriteStage_agrees (toLower : Char → Char) {sortFunc : SortFunc LegacyRewrite.compare}
    (blind : sortFunc.Blind) {entries₁ entries₂ : List LegacyRewrite}
    (same : List.Forall₂ (SameButCase toLower) entries₁ entries₂) {host₁ host₂ : String}
    (sameHost : lowerString toLower host₁ = lowerString toLower host₂) (filteringEnabled : Bool)
    (qtype : Nat)
    (answers : AnswersAlike sortFunc (prepareRewrites toLower entries₁)
      (prepareRewrites toLower entries₂) qtype (lowerString toLower host₁)) :
    ∃ r₁ r₂, Agree toLower r₁ r₂ ∧ ∀ lookups,
      (cnameAnswers (prepareRewrites toLower entries₁)).length + 1 ≤ lookups →
      (cnameAnswers (prepareRewrites toLower entries₂)).length + 1 ≤ lookups →
      rewriteStage toLower sortFunc
        (prepareRewrites toLower entries₁) filteringEnabled qtype lookups
          host₁ = some r₁ ∧
        rewriteStage toLower sortFunc (prepareRewrites toLower entries₂) filteringEnabled qtype
          lookups host₂ = some r₂ := by
  have alike : List.Forall₂ (Alike toLower) (prepareRewrites toLower entries₁)
      (prepareRewrites toLower entries₂) := by
    rw [prepareRewrites, prepareRewrites, List.forall₂_map_left_iff, List.forall₂_map_right_iff]
    exact same.imp fun a b => normalize_alike
  have empty : host₁ = "" ↔ host₂ = "" := by
    rw [← lowerString_eq_empty toLower, sameHost, lowerString_eq_empty]
  by_cases none : host₁ = ""
  · refine ⟨noResult, noResult, .refl noResult, fun lookups _ _ => ?_⟩
    rw [rewriteStage, rewriteStage, if_pos none, if_pos (empty.mp none)]
    exact ⟨rfl, rfl⟩
  · have none₂ : host₂ ≠ "" := fun other => none (empty.mpr other)
    simp only [rewriteStage, if_neg none, if_neg none₂, ← sameHost]
    cases filteringEnabled with
    | false => exact ⟨noResult, noResult, .refl noResult, fun lookups _ _ => ⟨rfl, rfl⟩⟩
    | true =>
      obtain ⟨r₁, -, ends₁⟩ :=
        processRewrites_walks sortFunc (prepareRewrites toLower entries₁) qtype
        (lowerString toLower host₁)
      obtain ⟨r₂, -, ends₂⟩ :=
        processRewrites_walks sortFunc (prepareRewrites toLower entries₂) qtype
        (lowerString toLower host₁)
      have related := processRewrites_agree blind alike answers
        (max (cnameAnswers (prepareRewrites toLower entries₁)).length
          (cnameAnswers (prepareRewrites toLower entries₂)).length + 1)
      rw [ends₁ _ (by omega), ends₂ _ (by omega)] at related
      cases related with
      | some agree =>
        refine ⟨r₁, r₂, agree, fun lookups enough₁ enough₂ => ?_⟩
        exact ⟨ends₁ lookups enough₁, ends₂ lookups enough₂⟩

/-! ### Tables -/

theorem stableSort_blind : stableSort.Blind := by
  intro l same
  refine ⟨l.mergeSort fun p q => mayPrecede p.1 q.1, List.mergeSort_perm _ _, ?_, ?_⟩
  · exact (List.map_mergeSort (s := mayPrecede) (f := Prod.fst) fun p _ q _ => rfl).symm
  · refine (List.map_mergeSort (s := mayPrecede) (f := Prod.snd) fun p hp q hq => ?_).symm
    rw [mayPrecede, mayPrecede, same p hp q hq]

/-- A name with an address, and a CNAME to it in the spelling of a zone file. -/
def mixedCase : List LegacyRewrite :=
  [⟨"www.example.org", "Host.example.net", .zero, 0⟩, ⟨"host.example.net", "1.2.3.4", .zero, 0⟩]

/-- The same in lower case. -/
def lowerCase : List LegacyRewrite :=
  [⟨"www.example.org", "host.example.net", .zero, 0⟩, ⟨"host.example.net", "1.2.3.4", .zero, 0⟩]

/-- A lookup that finds at most one entry does not depend on the sort. -/
theorem look_single {sortFunc : SortFunc LegacyRewrite.compare} {entries found : List LegacyRewrite}
    {host canonName : String} {cnames : List String} {qtype : Nat} {matched : Bool}
    (filtered : entries.filter (applies host qtype) = found) (single : found.length ≤ 1)
    (any : entries.any (matchesHost host) = matched) :
    look sortFunc entries qtype host cnames canonName =
      ⟨host, cnames, canonName, found, matched⟩ := by
  have lookup : findRewrites sortFunc entries host qtype = (found, matched) := by
    rw [Prod.ext_iff, findRewrites_list, findRewrites_matched, filtered, any]
    refine ⟨?_, rfl⟩
    match found, single with
    | [], _ =>
      rw [(sortFunc.perm []).eq_nil]
      rfl
    | [e], _ =>
      rw [List.perm_singleton.mp (sortFunc.perm [e]), cutAtWildcard_cons]
      split <;> rfl
  rw [look, lookup]

/-- A host with one CNAME, whose answer has none. -/
theorem processRewrites_one {sortFunc : SortFunc LegacyRewrite.compare}
    {entries : List LegacyRewrite} {e : LegacyRewrite} {host : String} {qtype : Nat}
    {found : List LegacyRewrite} {matched : Bool}
    (first : startWalk sortFunc entries qtype host = ⟨host, [], "", [e], true⟩)
    (cname : e.IsCNAME) (own : ¬(host = e.answer ∨ e.domain = e.answer))
    (second : look sortFunc entries qtype e.answer [e.answer] e.answer =
      ⟨e.answer, [e.answer], e.answer, found, matched⟩)
    (last : found.head?.any (fun e => decide e.IsCNAME) = false) (lookups : Nat) :
    processRewrites sortFunc entries qtype (lookups + 2) host =
      some (Walk.finish qtype ⟨e.answer, [e.answer], e.answer, found, matched⟩ e.answer) := by
  have type : e.type = typeCNAME := cname
  have go : (⟨host, [], "", [e], true⟩ : Walk).pass host = .follows e.answer := by
    obtain ⟨other, domain⟩ := not_or.mp own
    simp [Walk.pass, type, other, domain]
  have stop : (⟨e.answer, [e.answer], e.answer, found, matched⟩ : Walk).pass host =
      .leaves e.answer := by
    rcases pass_cases ⟨e.answer, [e.answer], e.answer, found, matched⟩ host with
      ⟨rw, rest, -, list, isCNAME, -⟩ | ⟨leaves, -⟩
    · have list : found = rw :: rest := list
      rw [list, List.head?_cons, Option.any_some, decide_eq_false_iff_not] at last
      exact absurd isCNAME last
    · exact leaves
  rw [processRewrites, first]
  dsimp only
  rw [Bool.not_true, if_neg Bool.false_ne_true, walk_follows go, Walk.follow, second,
    walk_leaves stop]

/-- The lookup of the answer in mixed case finds nothing. -/
theorem mixedCase_result (sortFunc : SortFunc LegacyRewrite.compare) :
    rewriteStage Char.toLower sortFunc (prepareRewrites Char.toLower mixedCase) true typeA 3
      "www.example.org" =
        some { noResult with reason := .rewritten, canonName := "Host.example.net" } := by
  have table : prepareRewrites Char.toLower mixedCase =
      [⟨"www.example.org", "Host.example.net", .zero, typeCNAME⟩,
        ⟨"host.example.net", "1.2.3.4", .v4 0x01020304, typeA⟩] := by decide +kernel
  have host : lowerString Char.toLower "www.example.org" = "www.example.org" := by decide +kernel
  have first : startWalk sortFunc (prepareRewrites Char.toLower mixedCase) typeA "www.example.org" =
      ⟨"www.example.org", [], "", [⟨"www.example.org", "Host.example.net", .zero, typeCNAME⟩],
        true⟩ := by
    rw [table]
    exact look_single (by decide +kernel) (by decide) (by decide +kernel)
  have second : look sortFunc (prepareRewrites Char.toLower mixedCase) typeA "Host.example.net"
      ["Host.example.net"] "Host.example.net" =
        ⟨"Host.example.net", ["Host.example.net"], "Host.example.net", [], false⟩ := by
    rw [table]
    exact look_single (by decide +kernel) (by decide) (by decide +kernel)
  rw [rewriteStage, if_neg (by decide), if_pos rfl, host,
    processRewrites_one first rfl (by decide) second rfl 1]
  rfl

/-- The lookup of the answer in lower case finds the address. -/
theorem lowerCase_result (sortFunc : SortFunc LegacyRewrite.compare) :
    rewriteStage Char.toLower sortFunc (prepareRewrites Char.toLower lowerCase) true typeA 3
      "www.example.org" =
        some { noResult with
          reason := .rewritten
          canonName := "host.example.net"
          ipList := [.v4 0x01020304] } := by
  have table : prepareRewrites Char.toLower lowerCase =
      [⟨"www.example.org", "host.example.net", .zero, typeCNAME⟩,
        ⟨"host.example.net", "1.2.3.4", .v4 0x01020304, typeA⟩] := by decide +kernel
  have host : lowerString Char.toLower "www.example.org" = "www.example.org" := by decide +kernel
  have first : startWalk sortFunc (prepareRewrites Char.toLower lowerCase) typeA "www.example.org" =
      ⟨"www.example.org", [], "", [⟨"www.example.org", "host.example.net", .zero, typeCNAME⟩],
        true⟩ := by
    rw [table]
    exact look_single (by decide +kernel) (by decide) (by decide +kernel)
  have second : look sortFunc (prepareRewrites Char.toLower lowerCase) typeA "host.example.net"
      ["host.example.net"] "host.example.net" =
        ⟨"host.example.net", ["host.example.net"], "host.example.net",
          [⟨"host.example.net", "1.2.3.4", .v4 0x01020304, typeA⟩], true⟩ := by
    rw [table]
    exact look_single (by decide +kernel) (by decide) (by decide +kernel)
  rw [rewriteStage, if_neg (by decide), if_pos rfl, host,
    processRewrites_one first rfl (by decide) second rfl 1]
  rfl

theorem mixedCase_disagrees : List.Forall₂ (SameButCase Char.toLower) mixedCase lowerCase ∧
    ∀ sortFunc, ∃ r₁ r₂,
      rewriteStage Char.toLower sortFunc (prepareRewrites Char.toLower mixedCase) true typeA 3
          "www.example.org" = some r₁ ∧
        rewriteStage Char.toLower sortFunc (prepareRewrites Char.toLower lowerCase) true typeA 3
          "www.example.org" = some r₂ ∧ ¬Agree Char.toLower r₁ r₂ := by
  constructor
  · refine .cons ⟨rfl, rfl, rfl, .inr ⟨?_, ?_, ?_⟩⟩ (.cons ⟨rfl, rfl, rfl, .inl rfl⟩ .nil)
    all_goals decide +kernel
  · intro sortFunc
    refine ⟨_, _, mixedCase_result sortFunc, lowerCase_result sortFunc, ?_⟩
    intro agree
    have addresses : [] = [Addr.v4 0x01020304] := agree.ipList
    exact absurd addresses (List.cons_ne_nil _ _).symm

/-- A table with one CNAME. -/
def outside (domain answer : String) : List LegacyRewrite := [⟨domain, answer, .zero, 0⟩]

/-- A name without entries may be spelled in any way. -/
theorem outside_alike : AnswersAlike stableSort
    [⟨"www.example.org", "Host.example.net", .zero, typeCNAME⟩]
    [⟨"www.example.org", "host.example.net", .zero, typeCNAME⟩] typeA "www.example.org" := by
  intro w _ rw₁ rw₂ head₁ head₂ _
  have first := List.mem_singleton.mp (mem_findRewrites (List.mem_of_mem_head? head₁)).1
  have second := List.mem_singleton.mp (mem_findRewrites (List.mem_of_mem_head? head₂)).1
  rw [first, second]
  right
  constructor
  · apply nothing_selected
    decide +kernel
  · apply nothing_selected
    decide +kernel

theorem rewriteStage_agrees_outside : ∃ r₁ r₂, Agree Char.toLower r₁ r₂ ∧ ∀ lookups, 2 ≤ lookups →
    rewriteStage Char.toLower stableSort
        (prepareRewrites Char.toLower
          (outside "WWW.example.org" "Host.example.net")) true typeA lookups
        "www.example.ORG" = some r₁ ∧
      rewriteStage Char.toLower stableSort
        (prepareRewrites Char.toLower
          (outside "www.example.org" "host.example.net")) true typeA lookups
        "www.example.org" = some r₂ := by
  have plain : lowerString Char.toLower "www.example.org" = "www.example.org" := by decide +kernel
  have host : lowerString Char.toLower "www.example.ORG" = "www.example.org" := by decide +kernel
  have domain : lowerString Char.toLower "WWW.example.org" = "www.example.org" := by decide +kernel
  have answer : lowerString Char.toLower "host.example.net" =
      "host.example.net" := by decide +kernel
  have spelled : lowerString Char.toLower "Host.example.net" =
      "host.example.net" := by decide +kernel
  have same : List.Forall₂ (SameButCase Char.toLower) (outside "WWW.example.org" "Host.example.net")
      (outside "www.example.org" "host.example.net") := by
    refine .cons ⟨domain.trans plain.symm, rfl, rfl, .inr ⟨?_, ?_, spelled.trans answer.symm⟩⟩ .nil
    all_goals decide +kernel
  have upper : prepareRewrites Char.toLower (outside "WWW.example.org" "Host.example.net") =
      [⟨"www.example.org", "Host.example.net", .zero, typeCNAME⟩] := by decide +kernel
  have lower : prepareRewrites Char.toLower (outside "www.example.org" "host.example.net") =
      [⟨"www.example.org", "host.example.net", .zero, typeCNAME⟩] := by decide +kernel
  have answers : AnswersAlike stableSort
      (prepareRewrites Char.toLower (outside "WWW.example.org" "Host.example.net"))
      (prepareRewrites Char.toLower (outside "www.example.org" "host.example.net")) typeA
      (lowerString Char.toLower "www.example.ORG") := by
    rw [upper, lower, host]
    exact outside_alike
  obtain ⟨r₁, r₂, agree, ends⟩ :=
    rewriteStage_agrees Char.toLower stableSort_blind same
      (host.trans plain.symm) true typeA answers
  refine ⟨r₁, r₂, agree, fun lookups enough => ends lookups ?_ ?_⟩
  · rw [upper]
    exact enough
  · rw [lower]
    exact enough

end FirewallCore.Filtering
