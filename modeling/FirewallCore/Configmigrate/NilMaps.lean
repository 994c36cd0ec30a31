import FirewallCore.Configmigrate.Steps

/-!
When a migration writes to a `nil` map.

Most migrations that write to a nested object do so without a look at whether
there is one: a null under its key is taken for a `nil` map. The clients, which
are written to one by one, are never `nil` maps: a decoded document has none
and no migration makes one (`Clean`).
-/

namespace FirewallCore.Configmigrate

open FirewallCore.Lib

/-! ### Clients -/

/-- The clients of a document: an array up to version 13, and a field of an object from version 14 on. -/
def clientItems (d : Yobj) : List YVal :=
  match d.get "clients" with
  | some (.arr items) => items.getD []
  | some (.obj clients) =>
    match Yobj.get clients "persistent" with
    | some (.arr items) => items.getD []
    | _ => []
  | _ => []

/-- No client is a `nil` map. -/
def Clean (d : Yobj) : Prop := ∀ v ∈ clientItems d, v ≠ .obj none

section Clients

variable {d d' : Yobj} {clients : Yobj} {items : Yarr}

theorem clean_of_same (same : d'.get "clients" = d.get "clients") (clean : Clean d) : Clean d' := by
  rw [Clean, clientItems, same]
  exact clean

theorem clean_of_stepped {version : Nat} {keys : List String} (other : "clients" ∉ "schema_version" :: keys)
    (clean : Clean d) (stepped : Stepped version keys d d') : Clean d' :=
  clean_of_same (stepped.2.get other) clean

theorem clientItems_arr (found : d.get "clients" = some (.arr items)) : clientItems d = items.getD [] := by
  rw [clientItems, found]

theorem clientItems_obj (found : d.get "clients" = some (.obj clients))
    (inner : clients.get "persistent" = some (.arr items)) : clientItems d = items.getD [] := by
  rw [clientItems, found]
  simp only [inner]

/-- What a read of an array finds: the array itself, or nothing for a null. -/
theorem fieldVal_arr {key : String} (read : fieldVal Yarr d key = .ok (some items)) :
    d.get key = some (.arr items) ∨ items = none := by
  rw [fieldVal] at read
  split at read
  · cases read
  · cases read
    exact .inr rfl
  · rename_i val _ found
    rw [found]
    cases val with
    | arr own =>
      cases read
      exact .inl rfl
    | _ => cases read

theorem fieldVal_obj {key : String} (read : fieldVal Yobj d key = .ok (some clients)) :
    d.get key = some (.obj clients) ∨ clients = none := by
  rw [fieldVal] at read
  split at read
  · cases read
  · cases read
    exact .inr rfl
  · rename_i val _ found
    rw [found]
    cases val with
    | obj own =>
      cases read
      exact .inl rfl
    | _ => cases read

theorem clean_read (clean : Clean d) (read : fieldVal Yarr d "clients" = .ok (some items)) :
    ∀ v ∈ items.getD [], v ≠ .obj none := by
  rcases fieldVal_arr read with found | rfl
  · rw [← clientItems_arr found]
    exact clean
  · simp

theorem clean_read_persistent (clean : Clean d) (read : fieldVal Yobj d "clients" = .ok (some clients))
    (inner : fieldVal Yarr clients "persistent" = .ok (some items)) :
    ∀ v ∈ items.getD [], v ≠ .obj none := by
  rcases fieldVal_arr inner with foundInner | rfl
  · rcases fieldVal_obj read with found | rfl
    · rw [← clientItems_obj found foundInner]
      exact clean
    · cases foundInner
  · simp

theorem get_updateArr_self {fields : List (String × YVal)} {key : String} {new : List YVal} :
    (Yobj.updateArr (some fields) key (some new)).get key = some (.arr (some new)) := by
  have set : Yobj.set (some fields) key (.arr (some new)) = .ok (Yobj.updateArr (some fields) key (some new)) :=
    rfl
  rw [get_set set, if_pos rfl]

theorem get_update_self {fields new : List (String × YVal)} {key : String} :
    (Yobj.update (some fields) key (some new)).get key = some (.obj (some new)) := by
  have set : Yobj.set (some fields) key (.obj (some new)) = .ok (Yobj.update (some fields) key (some new)) :=
    rfl
  rw [get_set set, if_pos rfl]

/-- Clients that are written back, none of which is a `nil` map. -/
theorem clean_updateArr (clean : Clean d) (each : ∀ v ∈ items.getD [], v ≠ .obj none) :
    Clean (d.updateArr "clients" items) := by
  cases items with
  | none => exact clean
  | some items =>
    cases d with
    | none => exact clean
    | some fields =>
      rw [Clean, clientItems_arr get_updateArr_self]
      exact each

/-- A client object that has been written to. -/
theorem post_client {c : Yobj} {key : String} {v : YVal} :
    Post (do let c ← c.set key v; return YVal.obj c) (fun client => client ≠ .obj none) := by
  refine post_bind set_ne_none fun c notNil => ?_
  refine post_ok ?_
  intro nil
  exact notNil (YVal.obj.inj nil)

theorem clean4 (clean : Clean d) : Post (migrateTo4 d) Clean := by
  refine post_atVersion fun d' same => ?_
  have clean' := clean_of_same (same "clients" (by decide)) clean
  split
  · exact post_ok clean'
  · rename_i clients found
    refine post_bind (P := fun items => ∀ v ∈ items.getD [], v ≠ .obj none) ?_ fun items each => ?_
    · refine post_changeArr fun client member _ => ?_
      have notNil := clean_read clean' (fieldOpt_eq_some found) client member
      split
      · exact post_client
      · exact post_ok notNil
    · exact post_ok (clean_updateArr clean' each)

theorem not_panics4 (doc : d ≠ none) (clean : Clean d) : ¬Panics (migrateTo4 d) := by
  refine not_panics_atVersion doc fun d' _ same => ?_
  have clean' := clean_of_same (same "clients" (by decide)) clean
  split
  · exact not_panics_pure
  · rename_i clients found
    refine not_panics_then (not_panics_changeArr fun client member _ => ?_) fun _ => not_panics_pure
    have notNil := clean_read clean' (fieldOpt_eq_some found) client member
    split
    · refine not_panics_then (not_panics_set ?_) fun _ => not_panics_pure
      rintro rfl
      exact notNil rfl
    · exact not_panics_pure

theorem clean6 (clean : Clean d) : Post (migrateTo6 d) Clean := by
  refine post_atVersion fun d' same => ?_
  have clean' := clean_of_same (same "clients" (by decide)) clean
  refine post_present (post_ok clean') fun clients read => ?_
  refine post_bind (P := fun items => ∀ v ∈ items.getD [], v ≠ .obj none) ?_ fun items each => ?_
  · refine post_changeArr fun client _ _ => ?_
    split
    · exact post_bind (P := fun _ => True) (fun _ _ => trivial) fun _ _ => post_client
    · exact post_error
  · exact post_ok (clean_updateArr clean' each)

theorem not_panics_clientIDs {i : Nat} {c : Yobj} {ids : List String} : ¬Panics (clientIDs i c ids) := by
  induction ids with
  | nil => exact not_panics_ok
  | cons id ids ih =>
    rw [clientIDs]
    split
    · exact not_panics_error
    · exact not_panics_then ih fun _ => not_panics_pure

theorem not_panics6 (doc : d ≠ none) (clean : Clean d) : ¬Panics (migrateTo6 d) := by
  refine not_panics_atVersion doc fun d' _ same => ?_
  have clean' := clean_of_same (same "clients" (by decide)) clean
  refine not_panics_present not_panics_pure fun clients read => ?_
  refine not_panics_then (not_panics_changeArr fun client member _ => ?_) fun _ => not_panics_pure
  have notNil := clean_read clean' read client member
  split
  · refine not_panics_then not_panics_clientIDs fun _ => not_panics_then (not_panics_set ?_) fun _ =>
      not_panics_pure
    rintro rfl
    exact notNil rfl
  · exact not_panics_error

/-- The clients object of `migrateTo14`. -/
theorem clean_clientsObject {persistent : Yarr} {runtimeClients : Yobj} (each : ∀ v ∈ persistent.getD [], v ≠ .obj none)
    (found : d.get "clients" = some (clientsObject persistent runtimeClients)) : Clean d := by
  rw [Clean, clientItems_obj found rfl]
  exact each

theorem clean14 (clean : Clean d) : Post (migrateTo14 d) Clean := by
  refine post_atVersion fun d' same => post_field fun clients read => ?_
  have clean' := clean_of_same (same "clients" (by decide)) clean
  have each : ∀ v ∈ (clients.getD (some [])).getD [], v ≠ .obj none := by
    cases clients with
    | none => simp
    | some clients => exact clean_read clean' read
  have written : ∀ {d : Yobj} {runtimeClients : Yobj},
      Post (d.set "clients" (clientsObject (clients.getD (some [])) runtimeClients)) Clean := by
    intro d runtimeClients d'' set
    exact clean_clientsObject each (by rw [get_set set, if_pos rfl])
  refine post_bind written fun d'' clean'' => post_field fun dns _ => ?_
  cases dns with
  | none => exact post_ok clean''
  | some dns => exact post_bind (P := fun _ => True) (fun _ _ => trivial) fun _ _ => written

/-- The items of a clients object. -/
def CleanObject (clients : Yobj) : Prop :=
  ∀ items, clients.get "persistent" = some (.arr items) → ∀ v ∈ items.getD [], v ≠ .obj none

theorem cleanObject_read (clean : Clean d) (read : fieldVal Yobj d "clients" = .ok (some clients)) :
    CleanObject clients := by
  intro items inner
  rcases fieldVal_obj read with found | rfl
  · rw [← clientItems_obj found inner]
    exact clean
  · cases inner

theorem clean_update (clean : Clean d) (object : CleanObject clients) : Clean (d.update "clients" clients) := by
  cases clients with
  | none => exact clean
  | some fields =>
    cases d with
    | none => exact clean
    | some outer =>
      rw [Clean, clientItems, get_update_self]
      simp only
      split
      · rename_i items inner
        exact object items inner
      · simp

theorem cleanObject_updateArr (object : CleanObject clients) (each : ∀ v ∈ items.getD [], v ≠ .obj none) :
    CleanObject (clients.updateArr "persistent" items) := by
  cases items with
  | none => exact object
  | some items =>
    cases clients with
    | none => exact object
    | some fields =>
      intro own found
      rw [get_updateArr_self] at found
      cases found
      exact each

theorem clean19 (clean : Clean d) : Post (migrateTo19 d) Clean := by
  refine post_atVersion fun d' same => ?_
  have clean' := clean_of_same (same "clients" (by decide)) clean
  refine post_present (post_ok clean') fun clients read => ?_
  have object := cleanObject_read clean' read
  refine post_bind (P := CleanObject) ?_ fun clients' object' => post_ok (clean_update clean' object')
  simp only
  split
  · exact post_ok object
  · rename_i persistent found
    refine post_bind (P := fun items => ∀ v ∈ items.getD [], v ≠ .obj none) ?_ fun items each => ?_
    · refine post_changeArr fun p member _ => ?_
      have notNil := clean_read_persistent clean' read (fieldOpt_eq_some found) p member
      split
      · exact post_bind (P := fun _ => True) (fun _ _ => trivial) fun _ _ => post_client
      · exact post_ok notNil
    · exact post_ok (cleanObject_updateArr object each)

theorem not_panics19 (doc : d ≠ none) (clean : Clean d) : ¬Panics (migrateTo19 d) := by
  refine not_panics_atVersion doc fun d' _ same => ?_
  have clean' := clean_of_same (same "clients" (by decide)) clean
  refine not_panics_present not_panics_pure fun clients read => ?_
  refine not_panics_then ?_ fun _ => not_panics_pure
  simp only
  split
  · exact not_panics_pure
  · rename_i persistent found
    refine not_panics_then (not_panics_changeArr fun p member _ => ?_) fun _ => not_panics_pure
    have notNil := clean_read_persistent clean' read (fieldOpt_eq_some found) p member
    split
    · rename_i c
      have cSome : c ≠ none := by
        rintro rfl
        exact notNil rfl
      refine not_panics_bind (P := fun objs => objs.1 ≠ none) not_panics_tryMove (some_tryMove cSome) ?_
      rintro ⟨c', safeSearch⟩ still
      exact not_panics_then (not_panics_set still) fun _ => not_panics_pure
    · exact not_panics_pure

theorem clean22 (clean : Clean d) : Post (migrateTo22 d) Clean := by
  refine post_atVersion fun d' same => ?_
  have clean' := clean_of_same (same "clients" (by decide)) clean
  refine post_present (post_ok clean') fun clients read => ?_
  have object := cleanObject_read clean' read
  refine post_bind (P := CleanObject) ?_ fun clients' object' => post_ok (clean_update clean' object')
  refine post_present (post_ok object) fun persistent inner => ?_
  refine post_bind (P := fun items => ∀ v ∈ items.getD [], v ≠ .obj none) ?_ fun items each => ?_
  · refine post_changeArr fun p member _ => ?_
    have notNil := clean_read_persistent clean' read inner p member
    split
    · split
      · exact post_error
      · exact post_ok notNil
      · exact post_client
    · exact post_error
  · exact post_ok (cleanObject_updateArr object each)

theorem not_panics22 (doc : d ≠ none) (clean : Clean d) : ¬Panics (migrateTo22 d) := by
  refine not_panics_atVersion doc fun d' _ same => ?_
  have clean' := clean_of_same (same "clients" (by decide)) clean
  refine not_panics_present not_panics_pure fun clients read => ?_
  refine not_panics_then ?_ fun _ => not_panics_pure
  refine not_panics_present not_panics_pure fun persistent inner => ?_
  refine not_panics_then (not_panics_changeArr fun p member _ => ?_) fun _ => not_panics_pure
  have notNil := clean_read_persistent clean' read inner p member
  split
  · split
    · exact not_panics_error
    · exact not_panics_pure
    · refine not_panics_then (not_panics_set ?_) fun _ => not_panics_pure
      rintro rfl
      exact notNil rfl
  · exact not_panics_error

end Clients

/-! ### Every migration -/

/-- The documents on which a migration writes to a `nil` map, by the version that it leads to. -/
def NilAssign (version : Nat) (d : Yobj) : Prop :=
  match version with
  | 7 => NilObject d "dhcp"
  | 12 => NilObject d "dns"
  | 13 => NilObject d "dhcp" ∧ MovesName d
  | 17 => NilObject d "dns"
  | 18 => NilObject d "dns"
  | 20 => NilObject d "statistics"
  | 21 => NilObject d "dns"
  | 25 => NilObject d "http" ∧ ∃ v, fieldVal Bool d "debug_pprof" = .ok v
  | 28 => NilObject d "dns"
  | 29 => NilObject d "filtering" ∧ FilterObjects d
  | _ => False

section Upgrades

variable {env : Env} {d : Yobj} {migrate : Yobj → Fallible Yobj} {n : Nat}

theorem panics_upgrade (at_ : (upgrades env)[n]? = some migrate) (doc : d ≠ none) (clean : Clean d) :
    Panics (migrate d) ↔ NilAssign (n + 1) d := by
  match n, at_ with
  | 0, rfl => exact iff_of_false (not_panics1 doc) id
  | 1, rfl => exact iff_of_false (not_panics2 doc) id
  | 2, rfl => exact iff_of_false (not_panics3 doc) id
  | 3, rfl => exact iff_of_false (not_panics4 doc clean) id
  | 4, rfl => exact iff_of_false (not_panics5 doc) id
  | 5, rfl => exact iff_of_false (not_panics6 doc clean) id
  | 6, rfl => exact panics7 doc
  | 7, rfl => exact iff_of_false (not_panics8 doc) id
  | 8, rfl => exact iff_of_false (not_panics9 doc) id
  | 9, rfl => exact iff_of_false (not_panics10 doc) id
  | 10, rfl => exact iff_of_false (not_panics11 doc) id
  | 11, rfl => exact panics12 doc
  | 12, rfl => exact panics13 doc
  | 13, rfl => exact iff_of_false (not_panics14 doc) id
  | 14, rfl => exact iff_of_false (not_panics15 doc) id
  | 15, rfl => exact iff_of_false (not_panics16 doc) id
  | 16, rfl => exact panics17 doc
  | 17, rfl => exact panics18 doc
  | 18, rfl => exact iff_of_false (not_panics19 doc clean) id
  | 19, rfl => exact panics20 doc
  | 20, rfl => exact panics21 doc
  | 21, rfl => exact iff_of_false (not_panics22 doc clean) id
  | 22, rfl => exact iff_of_false (not_panics23 doc) id
  | 23, rfl => exact iff_of_false (not_panics24 doc) id
  | 24, rfl => exact panics25 doc
  | 25, rfl => exact iff_of_false (not_panics26 doc) id
  | 26, rfl => exact iff_of_false (not_panics27 doc) id
  | 27, rfl => exact panics28 doc
  | 28, rfl => exact panics29 doc

/-- A document that a migration to a version leaves. -/
def Left (version : Nat) (d d' : Yobj) : Prop :=
  d'.get "schema_version" = some (.int version) ∧ d'.isSome = d.isSome ∧ Clean d'

theorem left2 (clean : Clean d) : Post (migrateTo2 d) (Left 2 d) := by
  cases d with
  | none => exact post_error
  | some fields =>
    have set : Yobj.set (some fields) "schema_version" (.int (2 : Nat)) =
        .ok (some (Yobj.assign fields "schema_version" (.int (2 : Nat)))) := rfl
    refine post_mono others_moveWithin ?_
    rintro d' ⟨same, frame⟩
    refine ⟨?_, same, clean_of_same ?_ clean⟩
    · rw [frame _ (by decide) (by decide), get_set set, if_pos rfl]
    · rw [frame _ (by decide) (by decide), get_set set, if_neg (by decide)]

theorem left_of_stepped {version : Nat} {keys : List String} {x : Fallible Yobj} (clean : Clean d)
    (other : "clients" ∉ "schema_version" :: keys) (stepped : Post x (Stepped version keys d)) :
    Post x (Left version d) :=
  post_mono stepped fun _ done => ⟨done.1, done.2.some, clean_of_stepped other clean done⟩

theorem left_of_clean {version : Nat} {keys : List String} {x : Fallible Yobj}
    (stepped : Post x (Stepped version keys d)) (clean : Post x Clean) : Post x (Left version d) :=
  fun d' done => ⟨(stepped d' done).1, (stepped d' done).2.some, clean d' done⟩

theorem left_upgrade (at_ : (upgrades env)[n]? = some migrate) (clean : Clean d) :
    Post (migrate d) (Left (n + 1) d) := by
  match n, at_ with
  | 0, rfl => exact left_of_stepped clean (by decide) stepped1
  | 1, rfl => exact left2 clean
  | 2, rfl => exact left_of_stepped clean (by decide) stepped3
  | 3, rfl => exact left_of_clean stepped4 (clean4 clean)
  | 4, rfl => exact left_of_stepped clean (by decide) stepped5
  | 5, rfl => exact left_of_clean stepped6 (clean6 clean)
  | 6, rfl => exact left_of_stepped clean (by decide) stepped7
  | 7, rfl => exact left_of_stepped clean (by decide) stepped8
  | 8, rfl => exact left_of_stepped clean (by decide) stepped9
  | 9, rfl => exact left_of_stepped clean (by decide) stepped10
  | 10, rfl => exact left_of_stepped clean (by decide) stepped11
  | 11, rfl => exact left_of_stepped clean (by decide) stepped12
  | 12, rfl => exact left_of_stepped clean (by decide) stepped13
  | 13, rfl => exact left_of_clean stepped14 (clean14 clean)
  | 14, rfl => exact left_of_stepped clean (by decide) stepped15
  | 15, rfl => exact left_of_stepped clean (by decide) stepped16
  | 16, rfl => exact left_of_stepped clean (by decide) stepped17
  | 17, rfl => exact left_of_stepped clean (by decide) stepped18
  | 18, rfl => exact left_of_clean stepped19 (clean19 clean)
  | 19, rfl => exact left_of_stepped clean (by decide) stepped20
  | 20, rfl => exact left_of_stepped clean (by decide) stepped21
  | 21, rfl => exact left_of_clean stepped22 (clean22 clean)
  | 22, rfl => exact left_of_stepped clean (by decide) stepped23
  | 23, rfl => exact left_of_stepped clean (by decide) stepped24
  | 24, rfl => exact left_of_stepped clean (by decide) stepped25
  | 25, rfl => exact left_of_stepped clean (by decide) stepped26
  | 26, rfl => exact left_of_stepped clean (by decide) stepped27
  | 27, rfl => exact left_of_stepped clean (by decide) stepped28
  | 28, rfl => exact left_of_stepped clean (by decide) stepped29

end Upgrades

end FirewallCore.Configmigrate
