import FirewallCore.Configmigrate.NilMaps

/-!
`Migrator.Migrate` (`configmigrate/migrator.go`).

The YAML package is given by a `Codec`. What it decodes has no `nil` maps or
slices, which is the only thing about it that matters here.
-/

namespace FirewallCore.Configmigrate

open FirewallCore.Lib

/-- The values that `yaml.Unmarshal` makes for an `any`. -/
inductive Decoded : YVal → Prop
  | null : Decoded .null
  | bool (b : Bool) : Decoded (.bool b)
  | int {n : Int} (low : -2 ^ 63 ≤ n) (high : n < 2 ^ 63) : Decoded (.int n)
  | str (s : String) : Decoded (.str s)
  | arr {items : List YVal} (each : ∀ v ∈ items, Decoded v) : Decoded (.arr (some items))
  | obj {fields : List (String × YVal)} (each : ∀ field ∈ fields, Decoded field.2) :
      Decoded (.obj (some fields))
  | other (type text : String) : Decoded (.other type text)

/-- The YAML package. A body that holds a mapping is decoded into a map. -/
structure Codec (Body : Type) where
  unmarshal : Body → Except String Yobj
  marshal : Yobj → Except String Body
  decoded : ∀ {body fields}, unmarshal body = .ok (some fields) → ∀ field ∈ fields, Decoded field.2

/-- What `Migrate` does. -/
inductive Outcome (Body : Type) where
  | returned (newBody : Body) (upgraded : Bool) (err : Option String)
  | panicked

section Migrate

variable {Body : Type}

/-- `validateVersion`. -/
def validateVersion (current target : Nat) : Option String :=
  if current > target then some ("unknown current schema version " ++ Nat.repr current)
  else if target > LastSchemaVersion then some ("unknown target schema version " ++ Nat.repr target)
  else if target < current then
    some ("target schema version " ++ Nat.repr target ++ " lower than current " ++ Nat.repr current)
  else none

/-- The loop of `upgradeConfigSchema` over the migrations that are left. -/
def runUpgrades : Nat → List (Yobj → Fallible Yobj) → Yobj → Fallible Yobj
  | _, [], diskConf => .ok diskConf
  | cur, migrate :: later, diskConf =>
    match migrate diskConf with
    | .ok diskConf => runUpgrades (cur + 1) later diskConf
    | .error (.error err) => .error (.error
        ("migrating schema " ++ Nat.repr cur ++ " to " ++ Nat.repr (cur + 1) ++ ": " ++ err))
    | .error .panic => .error .panic

/-- `upgradeConfigSchema`. -/
def upgradeConfigSchema (env : Env) (current target : Nat) (diskConf : Yobj) : Fallible Yobj :=
  runUpgrades current (((upgrades env).take target).drop current) diskConf

/-- `uint` of an `int`. -/
def toUint (n : Int) : Nat := (n % 2 ^ 64).toNat

/-- `Migrate`. -/
def Migrate (codec : Codec Body) (env : Env) (body : Body) (target : Nat) : Outcome Body :=
  match codec.unmarshal body with
  | .error err => .returned body false (some ("parsing config file for upgrade: " ++ err))
  | .ok diskConf =>
    match fieldVal Int diskConf "schema_version" with
    | .error err => .returned body false (some err)
    | .ok currentInt =>
      let current := toUint (currentInt.getD 0)
      match validateVersion current target with
      | some err => .returned body false (some err)
      | none =>
        if current = target then .returned body false none
        else
          match upgradeConfigSchema env current target diskConf with
          | .error .panic => .panicked
          | .error (.error err) => .returned body false (some err)
          | .ok diskConf =>
            match codec.marshal diskConf with
            | .error err => .returned body false (some ("generating new config: " ++ err))
            | .ok newBody => .returned newBody true none

/-- Either a document of the target version, or an error and the original body. -/
def EndsWell (codec : Codec Body) (body : Body) (target : Nat) : Outcome Body → Prop
  | .panicked => False
  | .returned newBody upgraded (some _) => newBody = body ∧ upgraded = false
  | .returned newBody upgraded none =>
    ∃ d : Yobj, d.get "schema_version" = some (.int target) ∧
      if upgraded then codec.marshal d = .ok newBody
      else newBody = body ∧ codec.unmarshal body = .ok d

/-- The documents that a migration passes, by the versions that they have then. -/
inductive Reached (env : Env) (current : Nat) (d : Yobj) : Nat → Yobj → Prop
  | start : Reached env current d current d
  | step {n : Nat} {d' d'' : Yobj} {migrate : Yobj → Fallible Yobj} (before : Reached env current d n d')
      (next : (upgrades env)[n]? = some migrate) (done : migrate d' = .ok d'') :
      Reached env current d (n + 1) d''

end Migrate

/-! ### Documents in between -/

section Runs

variable {env : Env} {d d' : Yobj} {n m target : Nat} {steps : List (Yobj → Fallible Yobj)}
  {migrate : Yobj → Fallible Yobj}

theorem mem_of_lookup {fields : List (String × YVal)} {key : String} {v : YVal}
    (found : fields.lookup key = some v) : (key, v) ∈ fields := by
  induction fields with
  | nil => cases found
  | cons field fields ih =>
    obtain ⟨name, val⟩ := field
    by_cases same : key = name
    · subst same
      rw [List.lookup_cons_self] at found
      cases found
      exact List.mem_cons_self
    · rw [lookup_cons_of_ne fields same] at found
      exact List.mem_cons_of_mem _ (ih found)

theorem decoded_get {fields : List (String × YVal)} {key : String} {v : YVal}
    (each : ∀ field ∈ fields, Decoded field.2) (found : Yobj.get (some fields) key = some v) : Decoded v :=
  each (key, v) (mem_of_lookup found)

theorem clean_of_decoded {fields : List (String × YVal)} (each : ∀ field ∈ fields, Decoded field.2) :
    Clean (some fields) := by
  have items : ∀ {items : Yarr}, Decoded (.arr items) → ∀ v ∈ items.getD [], v ≠ .obj none := by
    rintro _ (_ | _ | _ | _ | each) v member rfl
    cases each _ member
  rw [Clean, clientItems]
  split
  · rename_i found
    exact items (decoded_get each found)
  · rename_i clients found
    split
    · rename_i inner
      cases decoded_get each found with
      | obj each => exact items (decoded_get each inner)
    · simp
  · simp

/-- A document is reached at once or after the first migration. -/
theorem reached_iff : Reached env n d m d' ↔ (m = n ∧ d' = d) ∨
    ∃ migrate next, (upgrades env)[n]? = some migrate ∧ migrate d = .ok next ∧ Reached env (n + 1) next m d' := by
  constructor
  · intro reached
    induction reached with
    | start => exact .inl ⟨rfl, rfl⟩
    | step before next done ih =>
      rcases ih with ⟨rfl, rfl⟩ | ⟨migrate, d₁, first, taken, later⟩
      · exact .inr ⟨_, _, next, done, .start⟩
      · exact .inr ⟨migrate, d₁, first, taken, .step later next done⟩
  · rintro (⟨rfl, rfl⟩ | ⟨migrate, d₁, first, taken, later⟩)
    · exact .start
    · induction later with
      | start => exact .step .start first taken
      | step _ next done ih => exact .step ih next done

theorem le_of_reached (reached : Reached env n d m d') : n ≤ m := by
  induction reached with
  | start => exact Nat.le_refl n
  | step _ _ _ ih => exact Nat.le_succ_of_le ih

/-- The migrations that are left start with the next one. -/
theorem drop_take_eq_cons {later : List (Yobj → Fallible Yobj)}
    (left : ((upgrades env).take target).drop n = migrate :: later) :
    n < target ∧ (upgrades env)[n]? = some migrate ∧ ((upgrades env).take target).drop (n + 1) = later := by
  have head : ((upgrades env).take target)[n]? = some migrate := by
    rw [← List.head?_drop, left]
    rfl
  have bound : n < target := by
    have inside := (List.getElem?_eq_some_iff.mp head).1
    rw [List.length_take] at inside
    omega
  refine ⟨bound, ?_, ?_⟩
  · rw [List.getElem?_take_of_lt bound] at head
    exact head
  · rw [← List.drop_drop, left]
    rfl

theorem length_upgrades : (upgrades env).length = LastSchemaVersion := rfl

theorem le_of_drop_take (known : target ≤ LastSchemaVersion)
    (left : ((upgrades env).take target).drop n = []) : target ≤ n := by
  have short := List.drop_eq_nil_iff.mp left
  rw [List.length_take, length_upgrades] at short
  omega

/-- The loop panics when a migration of a document that it passes does. -/
theorem panics_runUpgrades (known : target ≤ LastSchemaVersion)
    (left : ((upgrades env).take target).drop n = steps) (doc : d ≠ none) (clean : Clean d) :
    Panics (runUpgrades n steps d) ↔ ∃ m d', Reached env n d m d' ∧ m < target ∧ NilAssign (m + 1) d' := by
  induction steps generalizing n d with
  | nil =>
    refine iff_of_false not_panics_ok ?_
    rintro ⟨m, d', reached, bound, -⟩
    have atLeast := le_of_reached reached
    have done := le_of_drop_take known left
    omega
  | cons migrate later ih =>
    obtain ⟨bound, next, left'⟩ := drop_take_eq_cons left
    have here := panics_upgrade next doc clean
    rw [runUpgrades]
    cases taken : migrate d with
    | error stop =>
      -- no document is reached after this one
      have only : (∃ m d', Reached env n d m d' ∧ m < target ∧ NilAssign (m + 1) d') ↔ NilAssign (n + 1) d := by
        constructor
        · rintro ⟨m, d', reached, -, nil⟩
          rcases reached_iff.mp reached with ⟨rfl, rfl⟩ | ⟨_, _, next', done, -⟩
          · exact nil
          · rw [next, Option.some.injEq] at next'
            subst next'
            rw [taken] at done
            cases done
        · intro nil
          exact ⟨n, d, .start, bound, nil⟩
      rw [only, ← here, taken]
      cases stop with
      | panic => exact Iff.rfl
      | error err => exact iff_of_false not_panics_error not_panics_error
    | ok d₁ =>
      have left₁ := left_upgrade next clean d₁ taken
      have doc₁ : d₁ ≠ none := by
        rw [← Option.isSome_iff_ne_none, left₁.2.1, Option.isSome_iff_ne_none]
        exact doc
      simp only
      rw [ih left' doc₁ left₁.2.2]
      constructor
      · rintro ⟨m, d', reached, rest⟩
        exact ⟨m, d', reached_iff.mpr (.inr ⟨migrate, d₁, next, taken, reached⟩), rest⟩
      · rintro ⟨m, d', reached, below, nil⟩
        rcases reached_iff.mp reached with ⟨rfl, rfl⟩ | ⟨_, _, next', done, reached'⟩
        · rw [taken] at here
          exact absurd (here.mpr nil) not_panics_ok
        · rw [next, Option.some.injEq] at next'
          subst next'
          rw [taken] at done
          cases done
          exact ⟨m, d', reached', below, nil⟩

/-- The document that the loop leaves has the target version. -/
theorem version_runUpgrades (known : target ≤ LastSchemaVersion)
    (left : ((upgrades env).take target).drop n = steps) (clean : Clean d) (more : n < target) :
    Post (runUpgrades n steps d) (fun d' => d'.get "schema_version" = some (.int target)) := by
  induction steps generalizing n d with
  | nil => exact absurd (le_of_drop_take known left) (by omega)
  | cons migrate later ih =>
    obtain ⟨-, next, left'⟩ := drop_take_eq_cons left
    rw [runUpgrades]
    cases taken : migrate d with
    | error stop =>
      cases stop with
      | panic => exact post_error
      | error err => exact post_error
    | ok d₁ =>
      have left₁ := left_upgrade next clean d₁ taken
      rcases Nat.lt_or_ge (n + 1) target with further | last
      · exact ih left' left₁.2.2 further
      · obtain rfl : target = n + 1 := by omega
        have finished : later = [] := by
          rw [← left']
          exact List.drop_eq_nil_of_le (List.length_take_le _ _)
        subst finished
        exact post_ok left₁.1

theorem panics_upgradeConfigSchema (known : target ≤ LastSchemaVersion) (doc : d ≠ none) (clean : Clean d) :
    Panics (upgradeConfigSchema env n target d) ↔
      ∃ m d', Reached env n d m d' ∧ m < target ∧ NilAssign (m + 1) d' :=
  panics_runUpgrades known rfl doc clean

theorem version_upgradeConfigSchema (known : target ≤ LastSchemaVersion) (clean : Clean d) (more : n < target) :
    Post (upgradeConfigSchema env n target d) (fun d' => d'.get "schema_version" = some (.int target)) :=
  version_runUpgrades known rfl clean more

end Runs

/-! ### Migrate -/

section Ends

variable {Body : Type} {codec : Codec Body} {env : Env} {body : Body} {fields : List (String × YVal)}
  {version : Int} {target : Nat}

theorem fieldVal_int {d : Yobj} {key : String} (found : d.get key = some (.int version)) :
    fieldVal Int d key = .ok (some version) := by
  rw [fieldVal, found]
  rfl

/-- A small version is read as it is. -/
theorem toUint_eq (low : -2 ^ 63 ≤ version) (high : version < 2 ^ 63) (small : toUint version < 2 ^ 63) :
    version = toUint version := by
  unfold toUint at small ⊢
  omega

theorem validateVersion_eq_none {current : Nat} (known : target ≤ LastSchemaVersion) :
    validateVersion current target = none ↔ current ≤ target := by
  unfold validateVersion
  split
  · exact iff_of_false (by simp) (by omega)
  · rw [if_neg (by omega), eq_self]
    exact iff_of_true trivial (by omega)

/-- A migration ends with a document of the target version, or with an error and the original body, exactly
when none of the documents that it passes is one on which the next migration writes to a `nil` map. -/
theorem migrate_ends_iff (known : target ≤ LastSchemaVersion) (parses : codec.unmarshal body = .ok (some fields))
    (versioned : Yobj.get (some fields) "schema_version" = some (.int version)) :
    EndsWell codec body target (Migrate codec env body target) ↔
      ∀ n d, Reached env (toUint version) (some fields) n d → n < target → ¬NilAssign (n + 1) d := by
  have clean := clean_of_decoded (codec.decoded parses)
  unfold Migrate
  rw [parses]
  simp only [fieldVal_int versioned, Option.getD_some]
  cases valid : validateVersion (toUint version) target with
  | some err =>
    refine iff_of_true ⟨rfl, rfl⟩ ?_
    intro n d reached bound
    have atLeast := le_of_reached reached
    have outside : ¬toUint version ≤ target := by
      rw [← validateVersion_eq_none known, valid]
      simp
    omega
  | none =>
    have inside := (validateVersion_eq_none known).mp valid
    simp only
    split
    · rename_i same
      refine iff_of_true ?_ ?_
      · refine ⟨some fields, ?_, ⟨rfl, parses⟩⟩
        cases decoded_get (codec.decoded parses) versioned with
        | int low high =>
          rw [versioned, ← same, ← toUint_eq low high]
          rw [same]
          exact lt_of_le_of_lt known (by decide)
      · intro n d reached bound
        have atLeast := le_of_reached reached
        omega
    · rename_i other
      have doc : (some fields : Yobj) ≠ none := Option.some_ne_none fields
      have panics : Panics (upgradeConfigSchema env (toUint version) target (some fields)) ↔ _ :=
        panics_upgradeConfigSchema known doc clean
      have versions : Post (upgradeConfigSchema env (toUint version) target (some fields)) _ :=
        version_upgradeConfigSchema known clean (lt_of_le_of_ne inside other)
      cases result : upgradeConfigSchema env (toUint version) target (some fields) with
      | error stop =>
        cases stop with
        | panic =>
          obtain ⟨m, d', reached, below, nil⟩ := panics.mp result
          exact iff_of_false id fun never => never m d' reached below nil
        | error err =>
          refine iff_of_true ⟨rfl, rfl⟩ ?_
          intro m d' reached below nil
          have crash := panics.mpr ⟨m, d', reached, below, nil⟩
          rw [result] at crash
          exact absurd crash not_panics_error
      | ok d =>
        have safe : ∀ n d, Reached env (toUint version) (some fields) n d → n < target →
            ¬NilAssign (n + 1) d := by
          intro m d' reached below nil
          have crash := panics.mpr ⟨m, d', reached, below, nil⟩
          rw [result] at crash
          exact absurd crash not_panics_ok
        refine iff_of_true ?_ safe
        simp only
        split
        · exact ⟨rfl, rfl⟩
        · rename_i newBody encoded
          exact ⟨d, versions d result, by simpa using encoded⟩

/-- A codec of two bodies: one that is read, with its document, and one that is written. -/
def twoBodies (body : String) (fields : List (String × YVal)) (decoded : ∀ field ∈ fields, Decoded field.2)
    (newBody : String) : Codec String where
  unmarshal := fun text => if text = body then .ok (some fields) else .error "yaml: unknown body"
  marshal := fun _ => .ok newBody
  decoded := by
    intro text _ read
    split at read
    · cases read
      exact decoded
    · cases read

/-- An environment in which nothing is a URL and passwords are their own hashes. -/
def plainEnv : Env where
  generateFromPassword := .ok
  parseURL := fun _ => none
  splitHost := fun _ => none
  durationString := fun _ => "0s"
  userFilters := "/data/userfilters/*"

/-- A document of version 11 whose `dns` is a null. -/
def nullDns : List (String × YVal) := [("schema_version", .int 11), ("dns", .null)]

/-- A document of version 11 with `dns` settings. -/
def emptyDns : List (String × YVal) := [("schema_version", .int 11), ("dns", object [])]

theorem decoded_nullDns : ∀ field ∈ nullDns, Decoded field.2 := by
  simp only [nullDns, List.mem_cons, List.not_mem_nil, or_false, forall_eq_or_imp, forall_eq]
  exact ⟨.int (by decide) (by decide), .null⟩

theorem decoded_emptyDns : ∀ field ∈ emptyDns, Decoded field.2 := by
  simp only [emptyDns, List.mem_cons, List.not_mem_nil, or_false, forall_eq_or_imp, forall_eq]
  exact ⟨.int (by decide) (by decide), .obj (by simp)⟩

/-- The codec on the document with a null. -/
def nullDnsCodec : Codec String :=
  twoBodies "schema_version: 11\ndns: null\n" nullDns decoded_nullDns ""

/-- The codec on the document with settings. -/
def emptyDnsCodec : Codec String :=
  twoBodies "schema_version: 11\ndns: \x7b\x7d\n" emptyDns decoded_emptyDns
    "dns:\n  querylog_interval: 2160h\nschema_version: 12\n"

theorem nullDns_panics : ¬EndsWell nullDnsCodec "schema_version: 11\ndns: null\n" 12
    (Migrate nullDnsCodec plainEnv "schema_version: 11\ndns: null\n" 12) :=
  id

theorem emptyDns_ends : EndsWell emptyDnsCodec "schema_version: 11\ndns: \x7b\x7d\n" 12
    (Migrate emptyDnsCodec plainEnv "schema_version: 11\ndns: \x7b\x7d\n" 12) := by
  refine (migrate_ends_iff (by decide) rfl rfl).mpr ?_
  intro n d reached bound nil
  rcases reached_iff.mp reached with ⟨rfl, rfl⟩ | ⟨_, _, _, _, later⟩
  · cases nil
  · have atLeast := le_of_reached later
    have start : toUint 11 = 11 := rfl
    omega

end Ends

end FirewallCore.Configmigrate
