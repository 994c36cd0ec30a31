import Mathlib.Logic.Basic

/-!
Computations that may return an error or panic, with rules for what holds when
they return a value and for when they panic.
-/

namespace FirewallCore.Lib

/-- Why a computation returns no value. -/
inductive Stop where
  | error (text : String)
  | panic
  deriving DecidableEq, Repr

abbrev Fallible (α : Type) := Except Stop α

section Rules

variable {α β : Type} {x : Fallible α} {f : α → Fallible β} {P : α → Prop} {Q : β → Prop}

/-- What holds of a value that is returned. -/
def Post (x : Fallible α) (P : α → Prop) : Prop := ∀ a, x = .ok a → P a

/-- The computation panics. -/
def Panics (x : Fallible α) : Prop := x = .error .panic

theorem post_ok {a : α} (holds : P a) : Post (.ok a) P := by
  intro b same
  cases same
  exact holds

theorem post_error {stop : Stop} : Post (.error stop : Fallible α) P := by
  intro a same
  cases same

theorem post_bind (first : Post x P) (second : ∀ a, P a → Post (f a) Q) : Post (x >>= f) Q := by
  cases x with
  | error stop => exact post_error
  | ok a => exact second a (first a rfl)

/-- The rule for what follows a computation, given what it returned. -/
theorem post_then (second : ∀ a, x = .ok a → Post (f a) Q) : Post (x >>= f) Q :=
  post_bind (P := fun a => x = .ok a) (fun _ returned => returned) second

theorem post_mono {P' : α → Prop} (post : Post x P) (weaker : ∀ a, P a → P' a) : Post x P' :=
  fun a returned => weaker a (post a returned)

@[simp] theorem not_panics_ok {a : α} : ¬Panics (.ok a : Fallible α) := by
  intro panics
  cases panics

@[simp] theorem not_panics_pure {a : α} : ¬Panics (pure a : Fallible α) := not_panics_ok

@[simp] theorem not_panics_error {text : String} : ¬Panics (.error (.error text) : Fallible α) := by
  intro panics
  cases panics

theorem panics_bind_iff : Panics (x >>= f) ↔ Panics x ∨ ∃ a, x = .ok a ∧ Panics (f a) := by
  cases x with
  | error stop =>
    constructor
    · exact fun panics => .inl (congrArg Except.error (Except.error.inj panics))
    · rintro (panics | ⟨a, returned, -⟩)
      · exact congrArg Except.error (Except.error.inj panics)
      · cases returned
  | ok a =>
    constructor
    · exact fun panics => .inr ⟨a, rfl, panics⟩
    · rintro (panics | ⟨b, returned, panics⟩)
      · cases panics
      · cases returned
        exact panics

/-- Nothing panics if no part does. -/
theorem not_panics_bind (first : ¬Panics x) (post : Post x P) (second : ∀ a, P a → ¬Panics (f a)) :
    ¬Panics (x >>= f) := by
  rw [panics_bind_iff]
  rintro (panics | ⟨a, returned, panics⟩)
  · exact first panics
  · exact second a (post a returned) panics

end Rules

section Relational

variable {α β γ δ : Type} {x : Fallible α} {y : Fallible β} {f : α → Fallible γ} {g : β → Fallible δ}
  {R : α → β → Prop} {S : γ → δ → Prop}

/-- What holds of the two values when both computations return one. -/
def Both (x : Fallible α) (y : Fallible β) (R : α → β → Prop) : Prop := ∀ a b, x = .ok a → y = .ok b → R a b

theorem both_ok {a : α} {b : β} (holds : R a b) : Both (.ok a) (.ok b) R := by
  intro a' b' left right
  cases left
  cases right
  exact holds

theorem both_error_left {stop : Stop} : Both (.error stop : Fallible α) y R := by
  intro a b left
  cases left

theorem both_error_right {stop : Stop} : Both x (.error stop : Fallible β) R := by
  intro a b _ right
  cases right

theorem both_bind (first : Both x y R) (second : ∀ a b, R a b → Both (f a) (g b) S) : Both (x >>= f) (y >>= g) S := by
  cases x with
  | error stop => exact both_error_left
  | ok a =>
    cases y with
    | error stop => exact both_error_right
    | ok b => exact second a b (first a b rfl rfl)

end Relational

end FirewallCore.Lib
