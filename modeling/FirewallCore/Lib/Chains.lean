import Mathlib.Data.List.AList
import Mathlib.Data.List.Nodup

/-!
Chains of packet filter rules, the commands that change them, and the way of a
packet through them.

A rule has matchers, which are tried in order until one fails, and may have a
target. Commands fail (`none`) as `iptables` exits with an error: when the
chain is missing, when a rule jumps to a missing chain, when there is no such
rule to delete. What the matchers test and the counters they keep are
parameters of the evaluation.
-/

namespace FirewallCore.Lib

/-- What a rule does with a packet. -/
inductive Target where
  | accept
  | drop
  /-- `RETURN` -/
  | leave
  | log (text : String)
  | jump (chain : String)
  deriving DecidableEq, Repr

structure Rule (μ : Type) where
  matchers : List μ
  target : Option Target
  deriving DecidableEq, Repr

/-- The chains of a table by name. -/
abbrev Chains (μ : Type) := AList fun _ : String => List (Rule μ)

namespace Chains

variable {μ : Type} {fw fw' : Chains μ} {chain other : String} {r : Rule μ}

/-- The chain a rule jumps to is there. -/
def resolves (fw : Chains μ) (r : Rule μ) : Bool :=
  match r.target with
  | some (.jump chain) => (fw.lookup chain).isSome
  | _ => true

/-- `-N` -/
def newChain (fw : Chains μ) (chain : String) : Option (Chains μ) :=
  if (fw.lookup chain).isSome then none else some (fw.insert chain [])

/-- Replaces the rules of a chain that a rule can be entered into. -/
def change (fw : Chains μ) (chain : String) (r : Rule μ)
    (f : List (Rule μ) → List (Rule μ)) : Option (Chains μ) :=
  match fw.lookup chain with
  | none => none
  | some rules => if fw.resolves r then some (fw.insert chain (f rules)) else none

/-- `-A` -/
def append (fw : Chains μ) (chain : String) (r : Rule μ) : Option (Chains μ) :=
  fw.change chain r (· ++ [r])

/-- `-I` -/
def insertFirst (fw : Chains μ) (chain : String) (r : Rule μ) : Option (Chains μ) :=
  fw.change chain r (r :: ·)

/-- `-C` -/
def check [DecidableEq μ] (fw : Chains μ) (chain : String) (r : Rule μ) : Bool :=
  match fw.lookup chain with
  | none => false
  | some rules => fw.resolves r && decide (r ∈ rules)

/-- `-D` with a rule: the first rule like it goes. -/
def delete [DecidableEq μ] (fw : Chains μ) (chain : String) (r : Rule μ) : Option (Chains μ) :=
  if fw.check chain r then fw.change chain r (·.erase r) else none

/-- `-D` with the number 1. -/
def deleteFirst (fw : Chains μ) (chain : String) : Option (Chains μ) :=
  match fw.lookup chain with
  | some (_ :: rules) => some (fw.insert chain rules)
  | _ => none

/-- `-D` with a number. -/
def deleteNum (fw : Chains μ) (chain : String) (num : Nat) : Option (Chains μ) :=
  match fw.lookup chain with
  | none => none
  | some rules => if 0 < num ∧ num ≤ rules.length then some (fw.insert chain (rules.eraseIdx (num - 1))) else none

/-- `-F` -/
def flush (fw : Chains μ) (chain : String) : Option (Chains μ) :=
  match fw.lookup chain with
  | none => none
  | some _ => some (fw.insert chain [])

/-- Some rule jumps to the chain. -/
def referenced (fw : Chains μ) (chain : String) : Bool :=
  fw.entries.any fun entry => entry.2.any fun r => decide (r.target = some (.jump chain))

/-- `-X`: the chain must be empty and not referenced. -/
def deleteChain (fw : Chains μ) (chain : String) : Option (Chains μ) :=
  if (fw.lookup chain).any List.isEmpty && !fw.referenced chain then some (fw.erase chain) else none

theorem change_some {rules : List (Rule μ)} {f : List (Rule μ) → List (Rule μ)}
    (found : fw.lookup chain = some rules) (known : fw.resolves r = true) :
    fw.change chain r f = some (fw.insert chain (f rules)) := by
  simp only [change, found, known, if_true]

/-- A rule that jumps to a missing chain cannot be entered. -/
theorem change_unresolved {f : List (Rule μ) → List (Rule μ)} (unknown : fw.resolves r = false) :
    fw.change chain r f = none := by
  unfold change
  split
  · rfl
  · simp [unknown]

/-- A rule that jumps nowhere can be entered. -/
theorem resolves_of_target (plain : ∀ chain, r.target ≠ some (.jump chain)) :
    fw.resolves r = true := by
  unfold resolves
  split
  · rename_i chain jump
    exact absurd jump (plain chain)
  · rfl

end Chains

/-! ### The way of a packet -/

/-- How a chain is left: `returned` by a rule with the target `leave`, `passed` at its end. -/
inductive Verdict where
  | accepted
  | dropped
  | returned
  | passed
  deriving DecidableEq, Repr

section Evaluation

variable {μ π σ : Type}

/-- Tries matchers in order; one that is not reached keeps its counters. -/
def testAll (test : μ → π → σ → Bool × σ) : List μ → π → σ → Bool × σ
  | [], _, s => (true, s)
  | m :: rest, p, s =>
    match test m p s with
    | (true, s) => testAll test rest p s
    | (false, s) => (false, s)

/-- Runs a packet through the rules of a chain from the one with number `i` on. The counters
of a matcher may depend on the place of its rule. -/
def runRules (test : Nat → μ → π → σ → Bool × σ) (call : String → π → σ → Verdict × σ) :
    Nat → List (Rule μ) → π → σ → Verdict × σ
  | _, [], _, s => (.passed, s)
  | i, r :: rest, p, s =>
    match testAll (test i) r.matchers p s with
    | (false, s) => runRules test call (i + 1) rest p s
    | (true, s) =>
      match r.target with
      | none => runRules test call (i + 1) rest p s
      | some (.log _) => runRules test call (i + 1) rest p s
      | some .accept => (.accepted, s)
      | some .drop => (.dropped, s)
      | some .leave => (.returned, s)
      | some (.jump chain) =>
        match call chain p s with
        | (.accepted, s) => (.accepted, s)
        | (.dropped, s) => (.dropped, s)
        | (_, s) => runRules test call (i + 1) rest p s

/-- Runs a packet through a chain, with jumps up to a depth. -/
def runChain (test : String → Nat → μ → π → σ → Bool × σ) (fw : Chains μ) :
    Nat → String → π → σ → Verdict × σ
  | 0, _, _, s => (.passed, s)
  | depth + 1, chain, p, s =>
    runRules (test chain) (runChain test fw depth) 0 ((fw.lookup chain).getD []) p s

variable {test : Nat → μ → π → σ → Bool × σ} {call : String → π → σ → Verdict × σ}

/-- A rule that does not match leaves the packet to the next. -/
theorem runRules_skip {i : Nat} {r : Rule μ} {rest : List (Rule μ)} {p : π} {s s' : σ}
    (misses : testAll (test i) r.matchers p s = (false, s')) :
    runRules test call i (r :: rest) p s = runRules test call (i + 1) rest p s' := by
  simp only [runRules, misses]

/-- Rules that neither match nor count let the packet pass. -/
theorem runRules_pass {i : Nat} {rules : List (Rule μ)} {p : π} {s : σ}
    (misses : ∀ r ∈ rules, ∀ i, testAll (test i) r.matchers p s = (false, s)) :
    runRules test call i rules p s = (.passed, s) := by
  induction rules generalizing i with
  | nil => rfl
  | cons r rest ih =>
    rw [runRules_skip (misses r (by simp) i)]
    exact ih fun r member => misses r (List.mem_cons_of_mem _ member)

/-! ### Traces -/

/-- The counters after packets that came one after the other. -/
def countersAfter (run : π → σ → Verdict × σ) (trace : List π) (s : σ) : σ :=
  trace.foldl (fun s p => (run p s).2) s

/-- The verdicts on packets that come one after the other. -/
def runTrace (run : π → σ → Verdict × σ) : List π → σ → List Verdict
  | [], _ => []
  | p :: rest, s => (run p s).1 :: runTrace run rest (run p s).2

section Traces

variable {τ : Type} {run : π → σ → Verdict × σ}

theorem runTrace_at (before : List π) (p : π) (later : List π) (s : σ) :
    (runTrace run (before ++ p :: later) s)[before.length]? =
      some (run p (countersAfter run before s)).1 := by
  induction before generalizing s with
  | nil => rfl
  | cons q rest ih => exact ih _

/-- What every packet keeps, a trace keeps. -/
theorem countersAfter_keeps (I : σ → Prop) {trace : List π} {s : σ} (start : I s)
    (keeps : ∀ p ∈ trace, ∀ s, I s → I (run p s).2) : I (countersAfter run trace s) := by
  induction trace generalizing s with
  | nil => exact start
  | cons p rest ih =>
    exact ih (keeps p (by simp) s start) fun q member => keeps q (List.mem_cons_of_mem _ member)

/-- Counters of which a part develops on its own. -/
theorem view_countersAfter (view : σ → τ) (spec : π → τ → Verdict × τ) {trace : List π} {s : σ}
    (next : ∀ p ∈ trace, ∀ s, view (run p s).2 = (spec p (view s)).2) :
    view (countersAfter run trace s) = countersAfter spec trace (view s) := by
  induction trace generalizing s with
  | nil => rfl
  | cons p rest ih =>
    have first := next p (by simp) s
    have later := ih (s := (run p s).2) fun q member => next q (List.mem_cons_of_mem _ member)
    rw [first] at later
    exact later

/-- Verdicts that a part of the counters decides. -/
theorem runTrace_eq_of_view (view : σ → τ) (spec : π → τ → Verdict × τ) {trace : List π} {s : σ}
    (next : ∀ p ∈ trace, ∀ s, view (run p s).2 = (spec p (view s)).2)
    (same : ∀ p ∈ trace, ∀ s, (run p s).1 = (spec p (view s)).1) :
    runTrace run trace s = runTrace spec trace (view s) := by
  induction trace generalizing s with
  | nil => rfl
  | cons p rest ih =>
    have later := ih (s := (run p s).2) (fun q member => next q (List.mem_cons_of_mem _ member))
      (fun q member => same q (List.mem_cons_of_mem _ member))
    rw [next p (by simp) s] at later
    simp only [runTrace]
    rw [same p (by simp) s, later, ← next p (by simp) s]

end Traces

end Evaluation

end FirewallCore.Lib

/-!
Hash tables with chains, as maps.

A chain is searched from its head. A new key goes to the head of the chain that it is placed in, and a
key that is there keeps its place.
-/

namespace FirewallCore.Lib.HashChains

section Chains

variable {K V : Type} [DecidableEq K]

/-- The value of the first entry for a key. -/
def find (k : K) : List (K × V) → Option V
  | [] => none
  | e :: chain => if e.1 = k then some e.2 else find k chain

/-- The first entry for a key gets another value. -/
def replace (k : K) (v : V) : List (K × V) → List (K × V)
  | [] => []
  | e :: chain => if e.1 = k then (k, v) :: chain else e :: replace k v chain

/-- The first entry for a key is taken out. -/
def erase (k : K) : List (K × V) → List (K × V)
  | [] => []
  | e :: chain => if e.1 = k then chain else e :: erase k chain

variable {chain : List (K × V)} {k k' : K} {v : V}

theorem find_eq_none : find k chain = none ↔ k ∉ chain.map Prod.fst := by
  induction chain with
  | nil => simp [find]
  | cons e chain ih =>
    rw [find, List.map_cons, List.mem_cons, not_or, ← ih]
    split
    · rename_i same
      exact iff_of_false (Option.some_ne_none _) fun both => both.1 same.symm
    · rename_i other
      exact (and_iff_right (Ne.symm other)).symm

theorem mem_of_find (found : find k chain = some v) : (k, v) ∈ chain := by
  induction chain with
  | nil => cases found
  | cons e chain ih =>
    rw [find] at found
    split at found
    · rename_i same
      cases found
      rw [← same]
      exact List.mem_cons_self
    · exact List.mem_cons_of_mem _ (ih found)

theorem find_eq_some (distinct : (chain.map Prod.fst).Nodup) : find k chain = some v ↔ (k, v) ∈ chain := by
  refine ⟨mem_of_find, fun member => ?_⟩
  induction chain with
  | nil => cases member
  | cons e chain ih =>
    rw [List.map_cons, List.nodup_cons] at distinct
    rw [find]
    rcases List.mem_cons.mp member with rfl | member
    · exact if_pos rfl
    · rw [if_neg, ih distinct.2 member]
      intro same
      exact distinct.1 (same ▸ List.mem_map_of_mem member)

theorem map_replace : (replace k v chain).map Prod.fst = chain.map Prod.fst := by
  induction chain with
  | nil => rfl
  | cons e chain ih =>
    rw [replace]
    split
    · rename_i same
      rw [List.map_cons, List.map_cons, same]
    · rw [List.map_cons, List.map_cons, ih]

theorem find_replace (there : k ∈ chain.map Prod.fst) :
    find k' (replace k v chain) = if k = k' then some v else find k' chain := by
  induction chain with
  | nil => cases there
  | cons e chain ih =>
    rw [replace]
    split
    · rename_i same
      rw [find, find, same]
      split
      · rfl
      · rfl
    · rename_i other
      rw [List.map_cons, List.mem_cons] at there
      rw [find, find, ih (there.resolve_left (Ne.symm other))]
      by_cases same : k = k'
      · rw [if_pos same, if_pos same, if_neg (same ▸ other)]
      · rw [if_neg same, if_neg same]

theorem erase_sublist : (erase k chain).Sublist chain := by
  induction chain with
  | nil => exact List.Sublist.refl []
  | cons e chain ih =>
    rw [erase]
    split
    · exact List.sublist_cons_self e chain
    · exact ih.cons_cons e

theorem find_erase (distinct : (chain.map Prod.fst).Nodup) :
    find k' (erase k chain) = if k = k' then none else find k' chain := by
  induction chain with
  | nil => simp [erase, find]
  | cons e chain ih =>
    rw [List.map_cons, List.nodup_cons] at distinct
    rw [erase, find]
    by_cases first : e.1 = k
    · rw [if_pos first]
      by_cases same : k = k'
      · rw [if_pos same, find_eq_none, ← same, ← first]
        exact distinct.1
      · rw [if_neg same, if_neg (first ▸ same)]
    · rw [if_neg first, find, ih distinct.2]
      by_cases same : k = k'
      · rw [if_pos same, if_neg (same ▸ first), if_pos same]
      · rw [if_neg same, if_neg same]

end Chains

/-! ### Tables -/

/-- A table: the chain at each index. -/
abbrev Table (K V : Type) := Nat → List (K × V)

namespace Table

section Tables

variable {K V : Type} (place : K → Nat)

def empty : Table K V := fun _ => []

/-- A table with another chain at an index. -/
def put (t : Table K V) (i : Nat) (chain : List (K × V)) : Table K V :=
  fun j => if j = i then chain else t j

/-- The entries of the first `n` chains. -/
def entries (n : Nat) (t : Table K V) : List (K × V) := (List.range n).flatMap t

/-- Each key is in its own chain, once. -/
structure WellPlaced (t : Table K V) : Prop where
  distinct : ∀ i, ((t i).map Prod.fst).Nodup
  placed : ∀ i, ∀ e ∈ t i, place e.1 = i

section Put

variable {place} {t : Table K V} {i j n : Nat} {chain : List (K × V)}

theorem put_same : t.put i chain i = chain := if_pos rfl

theorem put_other (other : j ≠ i) : t.put i chain j = t j := if_neg other

theorem wellPlaced_empty : WellPlaced place (empty : Table K V) :=
  ⟨fun _ => List.nodup_nil, fun _ _ member => nomatch member⟩

theorem WellPlaced.put (well : WellPlaced place t) (distinct : (chain.map Prod.fst).Nodup)
    (placed : ∀ e ∈ chain, place e.1 = i) : WellPlaced place (t.put i chain) := by
  constructor
  · intro j
    by_cases same : j = i
    · subst same
      rwa [put_same]
    · rw [put_other same]
      exact well.distinct j
  · intro j
    by_cases same : j = i
    · subst same
      rwa [put_same]
    · rw [put_other same]
      exact well.placed j

theorem nodup_entries (well : WellPlaced place t) : ((entries n t).map Prod.fst).Nodup := by
  rw [entries, List.map_flatMap, List.nodup_flatMap]
  refine ⟨fun i _ => well.distinct i, List.nodup_range.imp fun {i j} other => ?_⟩
  intro k left right
  obtain ⟨e, member, rfl⟩ := List.mem_map.mp left
  obtain ⟨e', member', same⟩ := List.mem_map.mp right
  apply other
  rw [← well.placed i e member, ← well.placed j e' member', same]

end Put

variable [DecidableEq K]

def get (t : Table K V) (k : K) : Option V := find k (t (place k))

def set (t : Table K V) (k : K) (v : V) : Table K V :=
  let chain := t (place k)
  t.put (place k) (if (find k chain).isSome then replace k v chain else (k, v) :: chain)

def unset (t : Table K V) (k : K) : Table K V := t.put (place k) (erase k (t (place k)))

variable {place} {t : Table K V} {k k' : K} {v : V} {n : Nat} {chain l : List (K × V)}

theorem mem_keys_replace {e : K × V} (member : e ∈ replace k v chain) : e ∈ chain ∨ e = (k, v) := by
  induction chain with
  | nil => cases member
  | cons e' chain ih =>
    rw [replace] at member
    split at member
    · rcases List.mem_cons.mp member with rfl | member
      · exact .inr rfl
      · exact .inl (List.mem_cons_of_mem _ member)
    · rcases List.mem_cons.mp member with rfl | member
      · exact .inl List.mem_cons_self
      · exact (ih member).imp_left (List.mem_cons_of_mem _)

theorem WellPlaced.set (well : WellPlaced place t) : WellPlaced place (t.set place k v) := by
  apply well.put
  · split
    · rw [map_replace]
      exact well.distinct _
    · rename_i absent
      rw [List.map_cons, List.nodup_cons]
      exact ⟨find_eq_none.mp (by simpa using absent), well.distinct _⟩
  · intro e member
    split at member
    · rcases mem_keys_replace member with member | rfl
      · exact well.placed _ e member
      · rfl
    · rcases List.mem_cons.mp member with rfl | member
      · rfl
      · exact well.placed _ e member

theorem WellPlaced.unset (well : WellPlaced place t) : WellPlaced place (t.unset place k) := by
  apply well.put
  · exact (well.distinct _).sublist (erase_sublist.map _)
  · exact fun e member => well.placed _ e (erase_sublist.subset member)

theorem get_set : (t.set place k v).get place k' = if k = k' then some v else t.get place k' := by
  unfold get
  by_cases near : place k' = place k
  · rw [near, set, put_same]
    split
    · rename_i there
      refine find_replace (Classical.not_not.mp fun absent => ?_)
      rw [find_eq_none.mpr absent] at there
      cases there
    · rfl
  · rw [set, put_other near, if_neg fun same => near (congrArg place same.symm)]

theorem get_unset (well : WellPlaced place t) :
    (t.unset place k).get place k' = if k = k' then none else t.get place k' := by
  unfold get
  by_cases near : place k' = place k
  · rw [near, unset, put_same, find_erase (well.distinct _)]
  · rw [unset, put_other near, if_neg fun same => near (congrArg place same.symm)]

/-- The entries are those of the map. -/
theorem mem_entries (well : WellPlaced place t) (bounded : ∀ k, place k < n) :
    (k, v) ∈ entries n t ↔ t.get place k = some v := by
  rw [entries, List.mem_flatMap, get, find_eq_some (well.distinct _)]
  constructor
  · rintro ⟨i, -, member⟩
    rwa [well.placed i _ member]
  · exact fun member => ⟨place k, List.mem_range.mpr (bounded k), member⟩

theorem eq_empty (well : WellPlaced place t) (none : ∀ k, t.get place k = none) : t = empty := by
  refine funext fun i => List.eq_nil_iff_forall_not_mem.mpr fun e member => ?_
  have found : t.get place e.1 = some e.2 := by
    rw [get, well.placed i e member]
    exact (find_eq_some (well.distinct i)).mpr member
  rw [none] at found
  cases found

/-- Entries with distinct keys, set one after another. -/
theorem get_foldl_set (distinct : (l.map Prod.fst).Nodup) :
    (l.foldl (fun t e => t.set place e.1 e.2) t).get place k = (find k l).or (t.get place k) := by
  induction l generalizing t with
  | nil => rfl
  | cons e l ih =>
    rw [List.map_cons, List.nodup_cons] at distinct
    rw [List.foldl_cons, ih distinct.2, get_set, find]
    split
    · rename_i same
      rw [find_eq_none.mpr (same ▸ distinct.1)]
      rfl
    · rfl

end Tables

end Table

end FirewallCore.Lib.HashChains
