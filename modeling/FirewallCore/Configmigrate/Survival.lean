import FirewallCore.Configmigrate.LosslessSteps
import FirewallCore.Configmigrate.Paths

/-!
Settings over a whole migration, and those that are lost.
-/

namespace FirewallCore.Configmigrate

open FirewallCore.Lib

section Runs

variable {Body : Type} {codec : Codec Body} {env : Env} {d d' : Yobj} {body newBody : Body} {n m target : Nat}
  {migrate : Yobj → Fallible Yobj} {steps : List (Yobj → Fallible Yobj)} {upgraded : Bool}

theorem keeps_upgrade (next : (upgrades env)[n]? = some migrate) : KeepsSettings env (n + 1) migrate := by
  match n, next with
  | 0, rfl => exact keeps1
  | 1, rfl => exact keeps2
  | 2, rfl => exact keeps3
  | 3, rfl => exact keeps4
  | 4, rfl => exact keeps5
  | 5, rfl => exact keeps6
  | 6, rfl => exact keeps7
  | 7, rfl => exact keeps8
  | 8, rfl => exact keeps9
  | 9, rfl => exact keeps10
  | 10, rfl => exact keeps11
  | 11, rfl => exact keeps12
  | 12, rfl => exact keeps13
  | 13, rfl => exact keeps14
  | 14, rfl => exact keeps15
  | 15, rfl => exact keeps16
  | 16, rfl => exact keeps17
  | 17, rfl => exact keeps18
  | 18, rfl => exact keeps19
  | 19, rfl => exact keeps20
  | 20, rfl => exact keeps21
  | 21, rfl => exact keeps22
  | 22, rfl => exact keeps23
  | 23, rfl => exact keeps24
  | 24, rfl => exact keeps25
  | 25, rfl => exact keeps26
  | 26, rfl => exact keeps27
  | 27, rfl => exact keeps28
  | 28, rfl => exact keeps29

/-- One migration, with the version that it sets. -/
theorem keeps_step (doc : d ≠ none) (left : Left (n + 1) d d') (kept : KeepsOthers (Carries env (n + 1)) d d') :
    Keeps (Carries env (n + 1)) (.obj d) (.obj d') := by
  refine keeps_obj doc fun k => ?_
  by_cases version : k = "schema_version"
  · subst version
    intro u p v _ _
    exact ⟨"schema_version", _, [], _, .moves .schemaVersion, left.1, sets_scalar rfl⟩
  · exact kept k version

/-- No migration on the way to a version drops a setting. -/
def LosslessTo (env : Env) (current target : Nat) (d : Yobj) : Prop :=
  ∀ n d', Reached env current d n d' → n < target → Lossless (n + 1) d'

/-- All settings are there in every document on the way to a version. -/
def KeepsTo (env : Env) (current target : Nat) (d : Yobj) : Prop :=
  ∀ n d', Reached env current d n d' → n ≤ target → Keeps (Carried env current n) (.obj d) (.obj d')

theorem keeps_reached (doc : d ≠ none) (clean : Clean d) (lossless : LosslessTo env n target d)
    (reached : Reached env n d m d') (bound : m ≤ target) :
    Keeps (Carried env n m) (.obj d) (.obj d') ∧ d' ≠ none ∧ Clean d' := by
  induction reached with
  | start => exact ⟨fun p v sets => ⟨p, v, .here n p v, sets⟩, doc, clean⟩
  | @step m d₁ d₂ migrate before next done ih =>
    obtain ⟨kept, doc₁, clean₁⟩ := ih (by omega)
    have left := left_upgrade next clean₁ d₂ done
    have further := keeps_step doc₁ left (keeps_upgrade next d₁ (lossless m d₁ before bound) d₂ done)
    refine ⟨fun p v sets => ?_, ?_, left.2.2⟩
    · obtain ⟨p₁, v₁, carried, sets₁⟩ := kept p v sets
      obtain ⟨p₂, v₂, carries, sets₂⟩ := further p₁ v₁ sets₁
      exact ⟨p₂, v₂, .next carried carries, sets₂⟩
    · rw [← Option.isSome_iff_ne_none] at doc₁ ⊢
      exact left.2.1.trans doc₁

/-- The document that the loop returns is the one of the target version. -/
theorem reached_runUpgrades (known : target ≤ LastSchemaVersion) (low : n ≤ target)
    (left : ((upgrades env).take target).drop n = steps) :
    Post (runUpgrades n steps d) (fun d' => Reached env n d target d') := by
  induction steps generalizing n d with
  | nil =>
    obtain rfl : n = target := Nat.le_antisymm low (le_of_drop_take known left)
    exact post_ok .start
  | cons migrate later ih =>
    obtain ⟨more, next, left'⟩ := drop_take_eq_cons left
    rw [runUpgrades]
    cases taken : migrate d with
    | error stop =>
      cases stop with
      | panic => exact post_error
      | error err => exact post_error
    | ok d₁ =>
      refine post_mono (ih more left') fun d' reached => ?_
      exact reached_iff.mpr (.inr ⟨migrate, d₁, next, taken, reached⟩)

end Runs

/-! ### A name without a password -/

/-- A document with the name of a user and, if given, the password. -/
def authFields (pass : Option String) : List (String × YVal) :=
  ("schema_version", .int 4) :: ("auth_name", .str "admin") :: (pass.map fun pass => ("auth_pass", YVal.str pass)).toList

theorem decoded_authFields (pass : Option String) : ∀ field ∈ authFields pass, Decoded field.2 := by
  have isInt : Decoded (.int 4) := .int (by decide) (by decide)
  simp only [authFields, List.forall_mem_cons]
  refine ⟨isInt, .str _, ?_⟩
  cases pass with
  | none => simp
  | some pass => simpa using Decoded.str pass

def nameBody : String := "auth_name: admin\nschema_version: 4\n"

def nameCodec : Codec String := twoBodies nameBody (authFields none) (decoded_authFields none) "schema_version: 5\n"

theorem le_of_carried {env : Env} {n m : Nat} {p p' : Place} {v v' : YVal} (carried : Carried env n m p v p' v') :
    n ≤ m := by
  induction carried with
  | here => exact Nat.le_refl _
  | next _ _ ih => exact Nat.le_succ_of_le ih

/-- The migration to version 5 moves no name to the version. -/
theorem not_carries_name {env : Env} {p p' : Place} {v v' : YVal} (isName : p = [.name "auth_name"])
    (isVersion : p' = [.name "schema_version"]) : ¬Carries env 5 p v p' v' := by
  intro carries
  cases carries with
  | stays =>
    rw [isName] at isVersion
    exact absurd isVersion (by decide)
  | moves moves =>
    generalize version : 5 = n at moves
    cases moves with
    | schemaVersion => simp at isName
    | authName => simp at isVersion
    | authPass => simp at isVersion
    | _ => cases version

def passBody : String := "auth_name: admin\nauth_pass: secret\nschema_version: 4\n"

def passCodec : Codec String :=
  twoBodies passBody (authFields (some "secret")) (decoded_authFields (some "secret"))
    "schema_version: 5\nusers:\n- name: admin\n  password: secret\n"

end FirewallCore.Configmigrate
