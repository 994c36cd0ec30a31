import FirewallCore.Lib.Chains
import FirewallCore.Lib.Positions
import Mathlib.Logic.Function.Basic

/-!
The script that deletes rules by their positions (`fixiptables.sh`), as the web
backend calls it for `/delete-firewall-rule`.

A name is one word, and positions are not negative. The rules that the script
lists afterwards are left out.
-/

namespace FirewallCore.Bmc

open FirewallCore.Lib

namespace RuleDeletion

variable {μ : Type}

/-! ### The script -/

/-- `VALID_TABLES`. -/
def validTables : List String := ["nat", "mangle", "filter"]

/-- `VALID_CHAINS`. -/
def validChains : String → List String
  | "nat" => ["PREROUTING", "INPUT", "OUTPUT", "POSTROUTING"]
  | "filter" => ["INPUT", "FORWARD", "OUTPUT"]
  | "mangle" => ["PREROUTING", "INPUT", "FORWARD", "OUTPUT", "POSTROUTING"]
  | _ => []

inductive Status where
  | deleted
  | error
  deriving DecidableEq, Repr

/-- An entry of `delete_results`. -/
structure DeleteResult where
  ruleIndex : Nat
  status : Status
  deriving DecidableEq, Repr

/-- The tables by name. -/
abbrev Tables (μ : Type) := String → Chains μ

/-- The body of the loop. -/
def deleteRule (chainName : String) (out : Chains μ × List DeleteResult) (idx : Nat) :
    Chains μ × List DeleteResult :=
  match out.1.deleteNum chainName idx with
  | some fw => (fw, out.2 ++ [⟨idx, .deleted⟩])
  | none => (out.1, out.2 ++ [⟨idx, .error⟩])

/-- `sort -r -n`. -/
def sortedIndexes (ruleIndexes : List Nat) : List Nat := ruleIndexes.insertionSort (· ≥ ·)

/-- The script with its arguments, and what it prints: an error, or the results. -/
def fixiptables (tables : Tables μ) (tableName chainName : String) (ruleIndexes : List Nat) :
    Tables μ × Except String (List DeleteResult) :=
  if ruleIndexes = [] then
    (tables, .error "\x7b\"error\": \"Thiếu tham số đầu vào: cần bảng, chain, rule_indexes\"\x7d")
  else if tableName ∉ validTables then
    (tables, .error "\x7b\"error\": \"Tên bảng không hợp lệ\"\x7d")
  else if chainName ∉ validChains tableName then
    (tables, .error ("\x7b\"error\": \"Chain không hợp lệ cho bảng " ++ tableName ++ "\"\x7d"))
  else
    let out := (sortedIndexes ruleIndexes).foldl (deleteRule chainName) (tables tableName, [])
    (Function.update tables tableName out.1, .ok out.2)

/-! ### The loop -/

section Loop

variable {chainName : String} {out : Chains μ × List DeleteResult} {rules : List (Rule μ)}
  {indexes : List Nat}

/-- A round deletes the rule at the position, and touches no other chain. -/
theorem deleteRule_spec (found : out.1.lookup chainName = some rules) (idx : Nat) :
    (deleteRule chainName out idx).1.lookup chainName = some (deleteAt rules idx) ∧
      ∀ other, other ≠ chainName →
        (deleteRule chainName out idx).1.lookup other = out.1.lookup other := by
  unfold deleteRule Chains.deleteNum deleteAt
  rw [found]
  by_cases inRange : 0 < idx ∧ idx ≤ rules.length
  · simp only [if_pos inRange]
    refine ⟨AList.lookup_insert _, ?_⟩
    intro other apart
    exact AList.lookup_insert_ne apart
  · simp only [if_neg inRange]
    exact ⟨found, fun _ _ => trivial⟩

theorem foldl_deleteRule_spec (found : out.1.lookup chainName = some rules) (indexes : List Nat) :
    (indexes.foldl (deleteRule chainName) out).1.lookup chainName =
      some (deleteEach rules indexes) ∧
      ∀ other, other ≠ chainName →
        (indexes.foldl (deleteRule chainName) out).1.lookup other = out.1.lookup other := by
  induction indexes generalizing out rules with
  | nil => exact ⟨found, fun _ _ => rfl⟩
  | cons idx rest ih =>
    obtain ⟨here, others⟩ := deleteRule_spec found idx
    obtain ⟨here', others'⟩ := ih here
    refine ⟨here', ?_⟩
    intro other apart
    rw [List.foldl_cons, others' other apart, others other apart]

theorem sortedIndexes_pairwise (indexes : List Nat) : (sortedIndexes indexes).Pairwise (· ≥ ·) :=
  List.pairwise_insertionSort (· ≥ ·) indexes

theorem sortedIndexes_perm (indexes : List Nat) : (sortedIndexes indexes).Perm indexes :=
  List.perm_insertionSort (· ≥ ·) indexes

/-- The order in which positions are listed does not matter. -/
theorem without_sortedIndexes (rules : List (Rule μ)) (indexes : List Nat) :
    without rules (sortedIndexes indexes) = without rules indexes :=
  without_congr fun _ _ _ => (sortedIndexes_perm indexes).mem_iff

theorem repeatsLast_sortedIndexes (length : Nat) (indexes : List Nat) :
    RepeatsLast length (sortedIndexes indexes) ↔ RepeatsLast length indexes := by
  unfold RepeatsLast
  simp only [(sortedIndexes_perm indexes).count_eq, (sortedIndexes_perm indexes).mem_iff]

end Loop

/-! ### The script as a whole -/

section Script

variable {tables : Tables μ} {tableName chainName : String} {rules : List (Rule μ)}
  {ruleIndexes : List Nat}

/-- What the script leaves of a chain. -/
theorem fixiptables_spec (table : tableName ∈ validTables)
    (chain : chainName ∈ validChains tableName)
    (found : (tables tableName).lookup chainName = some rules) :
    ((fixiptables tables tableName chainName ruleIndexes).1 tableName).lookup chainName =
      some (deleteEach rules (sortedIndexes ruleIndexes)) := by
  unfold fixiptables
  split
  · rename_i empty
    rw [empty]
    exact found
  · simp only [Function.update_self]
    exact (foldl_deleteRule_spec found _).1

/-- No other chain is touched. -/
theorem fixiptables_others {otherTable other : String}
    (found : (tables tableName).lookup chainName = some rules)
    (apart : otherTable ≠ tableName ∨ other ≠ chainName) :
    ((fixiptables tables tableName chainName ruleIndexes).1 otherTable).lookup other =
      (tables otherTable).lookup other := by
  unfold fixiptables
  split
  · rfl
  · split
    · rfl
    · split
      · rfl
      · by_cases same : otherTable = tableName
        · subst same
          simp only [Function.update_self]
          exact (foldl_deleteRule_spec found _).2 other
            (apart.resolve_left fun differs => differs rfl)
        · simp only [Function.update_of_ne same]

/-- The listed rules go and the others stay in their order, if and only if a position that is
listed twice has only listed ones behind it. -/
theorem fixiptables_removes_iff (table : tableName ∈ validTables)
    (chain : chainName ∈ validChains tableName)
    (found : (tables tableName).lookup chainName = some rules) :
    ((fixiptables tables tableName chainName ruleIndexes).1 tableName).lookup chainName =
        some (without rules ruleIndexes) ↔
      RepeatsLast rules.length ruleIndexes := by
  rw [fixiptables_spec table chain found, Option.some_inj, ← without_sortedIndexes,
    ← repeatsLast_sortedIndexes]
  exact deleteEach_eq_without_iff (sortedIndexes_pairwise ruleIndexes)

end Script

/-! ### A position that is listed twice -/

/-- Three rules in `FORWARD`, which log different texts. -/
def threeRules : List (Rule String) :=
  [⟨[], some (.log "a")⟩, ⟨[], some (.log "b")⟩, ⟨[], some (.log "c")⟩]

def threeRuleTables : Tables String := fun _ => AList.insert "FORWARD" threeRules ∅

/-- Positions in any order, one of them out of range. -/
theorem fixiptables_removes_unsorted :
    ((fixiptables threeRuleTables "filter" "FORWARD" [1, 7, 3]).1 "filter").lookup "FORWARD" =
      some [⟨[], some (.log "b")⟩] := by
  have found : (threeRuleTables "filter").lookup "FORWARD" = some threeRules := rfl
  have distinct : [1, 7, 3].Nodup := by decide
  exact (fixiptables_removes_iff (by decide) (by decide) found).mpr
    (repeatsLast_of_nodup _ distinct)

/-- The rule behind a position that is listed twice goes too. -/
theorem fixiptables_removes_unlisted :
    ((fixiptables threeRuleTables "filter" "FORWARD" [2, 2]).1 "filter").lookup "FORWARD" =
        some [⟨[], some (.log "a")⟩] ∧
      without threeRules [2, 2] = [⟨[], some (.log "a")⟩, ⟨[], some (.log "c")⟩] := by
  constructor
  · rfl
  · rfl

end RuleDeletion

end FirewallCore.Bmc
