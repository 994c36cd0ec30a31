import Mathlib.Algebra.Order.Ring.Nat
import Mathlib.Data.List.Basic
import Mathlib.Logic.Relation

/-!
Runs of a deterministic machine whose steps may fail to return. `step s a` is
`none` when the call never comes back (a crash, or a loop that is still going),
and otherwise the state it leaves together with what it answers.

`Reaches step ok` is reachability through steps that each meet the guard `ok`
in the state they are taken from; with the guard `fun _ _ => True` it is plain
reachability. `exec` is the executable counterpart over a list of inputs.
-/

namespace FirewallCore.Lib

variable {σ α β : Type}

/-- One guarded step. -/
def Guarded (step : σ → α → Option (σ × β)) (ok : σ → α → Prop) (s s' : σ) : Prop :=
  ∃ a b, ok s a ∧ step s a = some (s', b)

/-- The states a machine reaches from `s` by guarded steps. -/
def Reaches (step : σ → α → Option (σ × β)) (ok : σ → α → Prop) : σ → σ → Prop :=
  Relation.ReflTransGen (Guarded step ok)

/-- Runs the machine over a list of inputs, dropping the answers. -/
def exec (step : σ → α → Option (σ × β)) : σ → List α → Option σ
  | s, [] => some s
  | s, a :: rest => (step s a).bind fun out => exec step out.1 rest

/-- What the machine answers over a list of inputs, each answer with its input. -/
def answers (step : σ → α → Option (σ × β)) : σ → List α → Option (List (α × β))
  | _, [] => some []
  | s, a :: rest => (step s a).bind fun out => (answers step out.1 rest).map ((a, out.2) :: ·)

/-- Every input of a list meets the guard in the state that the machine is in by then. -/
def Meets (step : σ → α → Option (σ × β)) (ok : σ → α → Prop) : σ → List α → Prop
  | _, [] => True
  | s, a :: rest => ok s a ∧ ∀ s' b, step s a = some (s', b) → Meets step ok s' rest

/-- A property holds in every state that the machine passes over a list of inputs. -/
def Always (step : σ → α → Option (σ × β)) (P : σ → Prop) : σ → List α → Prop
  | s, [] => P s
  | s, a :: rest => P s ∧ ∀ s' b, step s a = some (s', b) → Always step P s' rest

section Rules

variable {step : σ → α → Option (σ × β)} {ok ok' : σ → α → Prop} {s s' s'' : σ}

theorem Reaches.refl : Reaches step ok s s := Relation.ReflTransGen.refl

theorem Reaches.tail {a : α} {b : β} (before : Reaches step ok s s') (guard : ok s' a)
    (taken : step s' a = some (s'', b)) : Reaches step ok s s'' :=
  Relation.ReflTransGen.tail before ⟨a, b, guard, taken⟩

/-- The invariant rule: what one guarded step keeps, a whole run keeps. -/
theorem Reaches.invariant {I : σ → Prop} (run : Reaches step ok s s') (start : I s)
    (keeps : ∀ x a y b, I x → ok x a → step x a = some (y, b) → I y) : I s' := by
  induction run with
  | refl => exact start
  | tail _ last ih =>
    obtain ⟨a, b, guard, taken⟩ := last
    exact keeps _ a _ b ih guard taken

/-- A guard that is exact for an invariant, step by step, is exact for whole lists of inputs. -/
theorem always_iff_meets {I P : σ → Prop} (holds : ∀ x, I x → P x)
    (keeps : ∀ x a y b, I x → step x a = some (y, b) → ok x a → I y)
    (breaks : ∀ x a y b, I x → step x a = some (y, b) → ¬ok x a → ¬P y)
    (moves : ∀ x a, I x → ¬ok x a → ∃ y b, step x a = some (y, b)) {inputs : List α} (start : I s) :
    Always step P s inputs ↔ Meets step ok s inputs := by
  induction inputs generalizing s with
  | nil => exact iff_of_true (holds s start) trivial
  | cons a rest ih =>
    constructor
    · rintro ⟨-, later⟩
      have guard : ok s a := by
        apply Classical.byContradiction
        intro bad
        obtain ⟨y, b, taken⟩ := moves s a start bad
        have after := later y b taken
        cases rest with
        | nil => exact breaks s a y b start taken bad after
        | cons a' rest => exact breaks s a y b start taken bad after.1
      refine ⟨guard, ?_⟩
      intro y b taken
      exact (ih (keeps s a y b start taken guard)).mp (later y b taken)
    · rintro ⟨guard, later⟩
      refine ⟨holds s start, ?_⟩
      intro y b taken
      exact (ih (keeps s a y b start taken guard)).mpr (later y b taken)

/-- An executed list of inputs that meet the guard everywhere is a run. -/
theorem reaches_of_exec {inputs : List α} (allowed : ∀ a ∈ inputs, ∀ x, ok x a)
    (done : exec step s inputs = some s') : Reaches step ok s s' := by
  induction inputs generalizing s with
  | nil =>
    cases done
    exact .refl
  | cons a rest ih =>
    obtain ⟨⟨mid, b⟩, taken, later⟩ := Option.bind_eq_some_iff.mp done
    exact Relation.ReflTransGen.head ⟨a, b, allowed a (by simp) s, taken⟩
      (ih (fun a member => allowed a (List.mem_cons_of_mem _ member)) later)

/-- A run that ends in a state where the decidable `P` fails. -/
theorem exec_refutes (step : σ → α → Option (σ × β)) (s : σ) (inputs : List α) (P : σ → Prop)
    [DecidablePred P] (ends : ((exec step s inputs).map fun x => decide (P x)) = some false) :
    ∃ x, exec step s inputs = some x ∧ ¬P x := by
  obtain ⟨x, done, fails⟩ := Option.map_eq_some_iff.mp ends
  exact ⟨x, done, of_decide_eq_false fails⟩

/-- A step that can be evaluated, into a state where the decidable `P` holds. -/
theorem exists_step (step : σ → α → Option (σ × β)) (s : σ) (a : α) (P : σ → Prop)
    [DecidablePred P] (ends : ((step s a).map fun out => decide (P out.1)) = some true) :
    ∃ x b, step s a = some (x, b) ∧ P x := by
  obtain ⟨⟨x, b⟩, taken, holds⟩ := Option.map_eq_some_iff.mp ends
  exact ⟨x, b, taken, of_decide_eq_true holds⟩

end Rules

end FirewallCore.Lib

/-!
Counters against replays. A sender numbers what it sends in rising order; a receiver
takes a message only if its number is above that of the last one it took. What it has
taken is then a subsequence of what was sent, whatever the network delivers.

Both lists run from the newest entry to the oldest.
-/

namespace FirewallCore.Lib

variable {ι α : Type} [LinearOrder ι]

/-- The numbers of what was sent fall from the newest to the oldest. -/
def Numbered (sent : List (ι × α)) : Prop := sent.Pairwise fun newer older => older.1 < newer.1

/-- What was sent up to a number. -/
def upTo (last : ι) (sent : List (ι × α)) : List (ι × α) := sent.filter (·.1 ≤ last)

theorem upTo_mono {last next : ι} (le : last ≤ next) (sent : List (ι × α)) :
    (upTo last sent).Sublist (upTo next sent) := by
  apply List.monotone_filter_right
  intro entry here
  have before := of_decide_eq_true here
  exact decide_eq_true (before.trans le)

theorem upTo_sublist (last : ι) (sent : List (ι × α)) : (upTo last sent).Sublist sent :=
  List.filter_sublist

theorem Numbered.cons {sent : List (ι × α)} {next : ι} (numbered : Numbered sent)
    (above : ∀ entry ∈ sent, entry.1 < next) (a : α) : Numbered ((next, a) :: sent) :=
  List.pairwise_cons.mpr ⟨above, numbered⟩

/-- Taking a message that is ahead of the last one puts it behind all that was taken. -/
theorem upTo_take {sent : List (ι × α)} {last next : ι} {a : α} (numbered : Numbered sent)
    (member : (next, a) ∈ sent) (ahead : last < next) :
    ((next, a) :: upTo last sent).Sublist (upTo next sent) := by
  induction sent with
  | nil => cases member
  | cons entry older ih =>
    obtain ⟨above, rest⟩ := List.pairwise_cons.mp numbered
    obtain rfl | later := List.mem_cons.mp member
    · have skip : upTo last ((next, a) :: older) = upTo last older := by
        simp [upTo, not_le.mpr ahead]
      have keep : upTo next ((next, a) :: older) = (next, a) :: upTo next older := by
        simp [upTo]
      rw [skip, keep]
      exact (upTo_mono ahead.le older).cons_cons _
    · have newer : next < entry.1 := above _ later
      have skip : ∀ bound, bound ≤ next → upTo bound (entry :: older) = upTo bound older := by
        intro bound le
        simp [upTo, not_le.mpr (le.trans_lt newer)]
      rw [skip last ahead.le, skip next le_rfl]
      exact ih rest later

end FirewallCore.Lib
