import FirewallCore.Configmigrate.Migrations

/-!
What the parts of a migration do to a document, and when they panic.

The only panic is a write to a `nil` map. What a part leaves alone is stated by
`Kept`: every field is as it was, or is one of the named ones and holds
something else than a null.
-/

namespace FirewallCore.Configmigrate

open FirewallCore.Lib

/-- Not a null, nor a `nil` map. -/
def Solid : Option YVal → Prop
  | some .null => False
  | some (.obj none) => False
  | _ => True

/-- The fields other than the named ones are as they were. -/
structure Kept (keys : List String) (d d' : Yobj) : Prop where
  some : d'.isSome = d.isSome
  fields : ∀ k, d'.get k = d.get k ∨ k ∈ keys ∧ Solid (d'.get k)

/-! ### Fields -/

section Fields

variable {T : Type} [GoType T] {keys keys' : List String} {d d' d'' : Yobj} {key srcKey dstKey : String}
  {v : YVal}

theorem Kept.refl (d : Yobj) : Kept keys d d := ⟨rfl, fun _ => .inl rfl⟩

theorem Kept.trans (first : Kept keys d d') (second : Kept keys d' d'') : Kept keys d d'' where
  some := second.some.trans first.some
  fields := by
    intro k
    rcases second.fields k with same | changed
    · rw [same]
      exact first.fields k
    · exact .inr changed

theorem Kept.mono (kept : Kept keys d d') (more : keys ⊆ keys') : Kept keys' d d' :=
  ⟨kept.some, fun k => (kept.fields k).imp id fun changed => ⟨more changed.1, changed.2⟩⟩

/-- A field that is not named. -/
theorem Kept.get (kept : Kept keys d d') (other : key ∉ keys) : d'.get key = d.get key :=
  (kept.fields key).resolve_right fun changed => other changed.1

theorem kept_set (solid : Solid (some v)) (member : key ∈ keys) : Post (d.set key v) (Kept keys d) := by
  intro d' done
  have fields := get_set done
  constructor
  · cases d with
    | none => cases done
    | some _ =>
      cases done
      rfl
  · intro k
    rw [fields k]
    by_cases same : k = key
    · subst same
      exact .inr ⟨member, by simpa using solid⟩
    · exact .inl (if_neg same)

theorem kept_delete (d : Yobj) (member : key ∈ keys) : Kept keys d (d.delete key) where
  some := by simp [Yobj.delete]
  fields := by
    intro k
    rw [get_delete]
    by_cases same : k = key
    · subst same
      exact .inr ⟨member, by simp [Solid]⟩
    · exact .inl (if_neg same)

theorem kept_assign (d : Yobj) (solid : Solid (some v)) (member : key ∈ keys) :
    Kept keys d (d.map (Yobj.assign · key v)) := by
  cases d with
  | none => exact .refl none
  | some fields =>
    have set : Yobj.set (some fields) key v = .ok (some (Yobj.assign fields key v)) := rfl
    exact kept_set solid member _ set

theorem kept_update (d inner : Yobj) (member : key ∈ keys) : Kept keys d (d.update key inner) := by
  cases inner with
  | none => exact .refl d
  | some fields => exact kept_assign d trivial member

theorem kept_updateArr (d : Yobj) (inner : Yarr) (member : key ∈ keys) :
    Kept keys d (d.updateArr key inner) := by
  cases inner with
  | none => exact .refl d
  | some items => exact kept_assign d trivial member

/-! ### Moves -/

/-- The two objects of a move: the first loses at most the named fields, and neither becomes or
ceases to be `nil`. -/
def Moved (keys : List String) (objs objs' : Yobj × Yobj) : Prop :=
  Kept keys objs.1 objs'.1 ∧ objs'.2.isSome = objs.2.isSome

theorem moved_moveVal {objs : Yobj × Yobj} (member : srcKey ∈ keys) :
    Post (moveVal T srcKey dstKey objs) (Moved keys objs) := by
  unfold moveVal
  refine post_bind (P := fun _ => True) (fun _ _ => trivial) fun found _ => ?_
  cases found with
  | none => exact post_ok ⟨.refl _, rfl⟩
  | some newVal =>
    intro objs' done
    cases dst : objs.2 with
    | none =>
      simp only [dst] at done
      cases done
    | some fields =>
      simp only [dst] at done
      cases done
      exact ⟨kept_delete _ member, by simp [dst]⟩

theorem panics_moveVal {objs : Yobj × Yobj} :
    Panics (moveVal T srcKey dstKey objs) ↔
      objs.2 = none ∧ ∃ v, fieldVal T objs.1 srcKey = .ok (some v) := by
  unfold moveVal
  rw [panics_bind_iff]
  constructor
  · rintro (panics | ⟨found, read, panics⟩)
    · exact absurd panics not_panics_field
    · cases found with
      | none => exact absurd panics not_panics_pure
      | some newVal =>
        rw [panics_bind_iff, panics_set] at panics
        rcases panics with nil | ⟨dst, -, panics⟩
        · exact ⟨nil, newVal, field_ok.mp read⟩
        · exact absurd panics not_panics_pure
  · rintro ⟨nil, newVal, read⟩
    refine .inr ⟨some newVal, field_ok.mpr read, ?_⟩
    rw [panics_bind_iff, panics_set]
    exact .inl nil

/-- A move into an object that is not `nil` needs only the type to be right. -/
theorem returns_moveVal {fields : List (String × YVal)} :
    (∃ objs, moveVal T srcKey dstKey (d, some fields) = .ok objs) ↔ ∃ v, fieldVal T d srcKey = .ok v := by
  unfold moveVal
  constructor
  · rintro ⟨objs, moved⟩
    cases read : field T d srcKey with
    | error stop =>
      rw [read] at moved
      cases moved
    | ok v => exact ⟨v, field_ok.mp read⟩
  · rintro ⟨v, read⟩
    rw [field_ok.mpr read]
    cases v with
    | none => exact ⟨_, rfl⟩
    | some newVal => exact ⟨_, rfl⟩

theorem not_panics_tryMove {fields : List (String × YVal)} :
    ¬Panics (tryMove (moveVal T srcKey dstKey) (d, some fields)) := by
  unfold tryMove
  split
  · exact not_panics_ok
  · intro panics
    exact absurd (panics_moveVal.mp panics).1 (by simp)

theorem some_tryMove {objs : Yobj × Yobj} (src : objs.1 ≠ none) :
    Post (tryMove (moveVal T srcKey dstKey) objs) (fun objs' => objs'.1 ≠ none) := by
  unfold tryMove
  split
  · exact post_ok src
  · have moved : Post (moveVal T srcKey dstKey objs) (Moved [srcKey] objs) := moved_moveVal List.mem_cons_self
    refine post_mono moved ?_
    rintro objs' ⟨kept, -⟩
    rw [← Option.isSome_iff_ne_none, kept.some, Option.isSome_iff_ne_none]
    exact src

theorem moved_run {move : Move} {objs : Yobj × Yobj} (member : move.srcKey ∈ keys) :
    Post (move.run objs) (Moved keys objs) := by
  obtain ⟨kind, srcKey, dstKey⟩ := move
  cases kind with
  | any => exact moved_moveVal member
  | bool => exact moved_moveVal member
  | int => exact moved_moveVal member
  | string => exact moved_moveVal member
  | arr => exact moved_moveVal member
  | obj => exact moved_moveVal member

theorem not_panics_run {move : Move} {objs : Yobj × Yobj} (dst : objs.2 ≠ none) : ¬Panics (move.run objs) := by
  have never : ∀ {T : Type} [GoType T], ¬Panics (moveVal T move.srcKey move.dstKey objs) := by
    intro T _ panics
    exact dst (panics_moveVal.mp panics).1
  obtain ⟨kind, srcKey, dstKey⟩ := move
  cases kind with
  | any => exact never
  | bool => exact never
  | int => exact never
  | string => exact never
  | arr => exact never
  | obj => exact never

theorem moved_joinMoves {moves : List Move} {objs : Yobj × Yobj} {errs : List String}
    (each : ∀ move ∈ moves, move.srcKey ∈ keys) : Post (joinMoves moves objs errs) (Moved keys objs) := by
  induction moves generalizing objs errs with
  | nil =>
    rw [joinMoves]
    split
    · exact post_ok ⟨.refl _, rfl⟩
    · exact post_error
  | cons move moves ih =>
    rw [List.forall_mem_cons] at each
    rw [joinMoves]
    split
    · rename_i next done
      obtain ⟨kept, dst⟩ := moved_run each.1 next done
      refine post_mono (ih each.2) ?_
      rintro last ⟨kept', dst'⟩
      exact ⟨kept.trans kept', dst'.trans dst⟩
    · exact ih each.2
    · exact post_error

/-- An object that is not `nil` stays so. -/
theorem some_joinMoves {moves : List Move} {objs : Yobj × Yobj} {errs : List String}
    (dst : objs.2 ≠ none) : Post (joinMoves moves objs errs) (fun objs' => objs'.2 ≠ none) := by
  have moved : Post (joinMoves moves objs errs) (Moved (moves.map (·.srcKey)) objs) :=
    moved_joinMoves fun move member => List.mem_map_of_mem member
  refine post_mono moved ?_
  rintro objs' ⟨-, same⟩
  rw [← Option.isSome_iff_ne_none] at dst ⊢
  rw [same]
  exact dst

/-- Moves into an object that is not `nil`. -/
theorem not_panics_joinMoves {moves : List Move} {objs : Yobj × Yobj} {errs : List String}
    (dst : objs.2 ≠ none) : ¬Panics (joinMoves moves objs errs) := by
  induction moves generalizing objs errs with
  | nil =>
    rw [joinMoves]
    split
    · exact not_panics_ok
    · exact not_panics_error
  | cons move moves ih =>
    rw [joinMoves]
    split
    · rename_i next done
      have moved : Moved [move.srcKey] objs next := moved_run List.mem_cons_self next done
      have still : next.2 ≠ none := by
        rw [← Option.isSome_iff_ne_none] at dst ⊢
        rw [moved.2]
        exact dst
      exact ih still
    · exact ih dst
    · rename_i panics
      exact absurd panics (not_panics_run dst)

theorem not_panics_moveWithin : ¬Panics (moveWithin T d srcKey dstKey) := by
  unfold moveWithin
  cases d with
  | none => exact not_panics_pure
  | some fields =>
    refine not_panics_bind (P := fun _ => True) not_panics_field (fun _ _ => trivial) fun found _ => ?_
    cases found with
    | none => exact not_panics_pure
    | some newVal => exact not_panics_pure

/-- What a move within an object leaves alone, whatever is moved. -/
theorem others_moveWithin : Post (moveWithin T d srcKey dstKey) (fun d' =>
    d'.isSome = d.isSome ∧ ∀ k, k ≠ srcKey → k ≠ dstKey → d'.get k = d.get k) := by
  unfold moveWithin
  refine post_bind (P := fun _ => True) (fun _ _ => trivial) fun found _ => ?_
  cases found with
  | none => exact post_ok ⟨rfl, fun _ _ _ => rfl⟩
  | some newVal =>
    cases d with
    | none => exact post_error
    | some fields =>
      refine post_ok ⟨rfl, fun k src dst => ?_⟩
      rw [get_delete, if_neg src]
      exact (lookup_assign fields dstKey k (GoType.box newVal)).trans (if_neg dst)

end Fields

/-! ### Parts of a migration -/

section Parts

variable {T : Type} [GoType T] {keys : List String} {d : Yobj} {key : String}
  {change : Yobj → Fallible Yobj} {changeItem : Nat → YVal → Fallible YVal}

/-- The rule for what follows the reading of a field. -/
theorem post_field {β : Type} {f : Option T → Fallible β} {Q : β → Prop}
    (each : ∀ v, fieldVal T d key = .ok v → Post (f v) Q) : Post (field T d key >>= f) Q :=
  post_bind (P := fun v => fieldVal T d key = .ok v) (fun _ read => field_ok.mp read) each

/-- The rule where an absent field needs no change. -/
theorem post_present {β : Type} {f : Option T → Fallible β} {Q : β → Prop} (absent : Post (f none) Q)
    (present : ∀ x, fieldVal T d key = .ok (some x) → Post (f (some x)) Q) : Post (field T d key >>= f) Q := by
  refine post_field fun found read => ?_
  cases found with
  | none => exact absent
  | some x => exact present x read

theorem panics_field {β : Type} {f : Option T → Fallible β} :
    Panics (field T d key >>= f) ↔ ∃ v, fieldVal T d key = .ok v ∧ Panics (f v) := by
  rw [panics_bind_iff]
  constructor
  · rintro (panics | ⟨v, read, panics⟩)
    · exact absurd panics not_panics_field
    · exact ⟨v, field_ok.mp read, panics⟩
  · rintro ⟨v, read, panics⟩
    exact .inr ⟨v, field_ok.mpr read, panics⟩

theorem kept_inObject (member : key ∈ keys) : Post (inObject d key change) (Kept keys d) := by
  refine post_field fun found _ => ?_
  cases found with
  | none => exact post_ok (.refl d)
  | some inner =>
    refine post_bind (P := fun _ => True) (fun _ _ => trivial) fun inner' _ => ?_
    exact post_ok (kept_update d inner' member)

theorem panics_inObject : Panics (inObject d key change) ↔
    ∃ inner, fieldVal Yobj d key = .ok (some inner) ∧ Panics (change inner) := by
  unfold inObject
  rw [panics_field]
  constructor
  · rintro ⟨found, read, panics⟩
    cases found with
    | none => exact absurd panics not_panics_pure
    | some inner =>
      rw [panics_bind_iff] at panics
      rcases panics with panics | ⟨_, _, panics⟩
      · exact ⟨inner, read, panics⟩
      · exact absurd panics not_panics_pure
  · rintro ⟨inner, read, panics⟩
    refine ⟨some inner, read, ?_⟩
    rw [panics_bind_iff]
    exact .inl panics

/-- The object under a key is a null, or a `nil` map. -/
def NilObject (d : Yobj) (key : String) : Prop := fieldVal Yobj d key = .ok (some none)

/-- A change that always writes to its object panics on a `nil` one. -/
theorem panics_inObject_of_writes (onNil : Panics (change none))
    (other : ∀ fields, ¬Panics (change (some fields))) :
    Panics (inObject d key change) ↔ NilObject d key := by
  rw [panics_inObject]
  constructor
  · rintro ⟨inner, read, panics⟩
    cases inner with
    | none => exact read
    | some fields => exact absurd panics (other fields)
  · intro read
    exact ⟨none, read, onNil⟩

theorem not_panics_inObject (never : ∀ inner, ¬Panics (change inner)) : ¬Panics (inObject d key change) := by
  rw [panics_inObject]
  rintro ⟨inner, -, panics⟩
  exact never inner panics

theorem not_panics_changeItems {i : Nat} {items : List YVal}
    (each : ∀ item ∈ items, ∀ i, ¬Panics (changeItem i item)) : ¬Panics (changeItems changeItem i items) := by
  induction items generalizing i with
  | nil => exact not_panics_ok
  | cons item items ih =>
    rw [List.forall_mem_cons] at each
    rw [changeItems]
    refine not_panics_bind (P := fun _ => True) (each.1 i) (fun _ _ => trivial) fun _ _ => ?_
    refine not_panics_bind (P := fun _ => True) (ih each.2) (fun _ _ => trivial) fun _ _ => ?_
    exact not_panics_pure

theorem not_panics_changeArr {items : Yarr} (each : ∀ item ∈ items.getD [], ∀ i, ¬Panics (changeItem i item)) :
    ¬Panics (changeArr changeItem items) := by
  cases items with
  | none => exact not_panics_ok
  | some items =>
    refine not_panics_bind (P := fun _ => True) (not_panics_changeItems each) (fun _ _ => trivial) fun _ _ => ?_
    exact not_panics_pure

/-- What holds of every changed element. -/
theorem post_changeItems {P : YVal → Prop} {i : Nat} {items : List YVal}
    (each : ∀ item ∈ items, ∀ i, Post (changeItem i item) P) :
    Post (changeItems changeItem i items) (fun items' => ∀ item ∈ items', P item) := by
  induction items generalizing i with
  | nil => exact post_ok (by simp)
  | cons item items ih =>
    rw [List.forall_mem_cons] at each
    rw [changeItems]
    refine post_bind (each.1 i) fun item' holds => ?_
    refine post_bind (ih each.2) fun items' all => ?_
    exact post_ok (List.forall_mem_cons.mpr ⟨holds, all⟩)

theorem post_changeArr {P : YVal → Prop} {items : Yarr}
    (each : ∀ item ∈ items.getD [], ∀ i, Post (changeItem i item) P) :
    Post (changeArr changeItem items) (fun items' => ∀ item ∈ items'.getD [], P item) := by
  cases items with
  | none => exact post_ok (by simp)
  | some items =>
    refine post_bind (post_changeItems each) fun items' all => ?_
    exact post_ok all

/-- A document after a migration to a version that changes the named fields. -/
def Stepped (version : Nat) (keys : List String) (d d' : Yobj) : Prop :=
  d'.get "schema_version" = some (.int version) ∧ Kept ("schema_version" :: keys) d d'

theorem stepped_atVersion {version : Nat} (each : ∀ d, Post (change d) (Kept keys d))
    (other : "schema_version" ∉ keys) : Post (atVersion version change d) (Stepped version keys d) := by
  unfold atVersion
  cases d with
  | none => exact post_error
  | some fields =>
    intro d' done
    have set : Yobj.set (some fields) "schema_version" (.int version) =
        .ok (some (Yobj.assign fields "schema_version" (.int version))) := rfl
    have changed : change (some (Yobj.assign fields "schema_version" (.int version))) = .ok d' := done
    have kept := each _ d' changed
    constructor
    · rw [kept.get other, get_set set, if_pos rfl]
    · have solid : Solid (some (.int version)) := trivial
      exact (kept_set solid List.mem_cons_self _ set).trans (kept.mono (List.subset_cons_self _ _))

/-- What holds after the own part of a migration, which starts with all other fields as they were. -/
theorem post_atVersion {version : Nat} {P : Yobj → Prop}
    (each : ∀ d' : Yobj, (∀ k, k ≠ "schema_version" → d'.get k = d.get k) → Post (change d') P) :
    Post (atVersion version change d) P := by
  refine post_bind (P := fun d' => ∀ k, k ≠ "schema_version" → d'.get k = d.get k) ?_ each
  intro d' set k other
  rw [get_set set, if_neg other]

/-- A migration of a document panics when its own part does. -/
theorem panics_atVersion {version : Nat} {P : Prop} (doc : d ≠ none)
    (each : ∀ d' : Yobj, d' ≠ none → (∀ k, k ≠ "schema_version" → d'.get k = d.get k) → (Panics (change d') ↔ P)) :
    Panics (atVersion version change d) ↔ P := by
  cases d with
  | none => exact absurd rfl doc
  | some fields =>
    have set : Yobj.set (some fields) "schema_version" (.int version) =
        .ok (some (Yobj.assign fields "schema_version" (.int version))) := rfl
    refine each (some (Yobj.assign fields "schema_version" (.int version))) (by simp) ?_
    intro k other
    rw [get_set set, if_neg other]

theorem not_panics_atVersion {version : Nat} (doc : d ≠ none)
    (each : ∀ d' : Yobj, d' ≠ none → (∀ k, k ≠ "schema_version" → d'.get k = d.get k) → ¬Panics (change d')) :
    ¬Panics (atVersion version change d) := by
  have never : Panics (atVersion version change d) ↔ False :=
    panics_atVersion doc fun d' doc' same => iff_of_false (each d' doc' same) id
  exact never.mp

theorem not_panics_set {v : YVal} (doc : d ≠ none) : ¬Panics (d.set key v) := by
  rw [panics_set]
  exact doc

/-- Nothing else than the last part can panic. -/
theorem not_panics_then {α β : Type} {x : Fallible α} {f : α → Fallible β} (first : ¬Panics x)
    (second : ∀ a, ¬Panics (f a)) : ¬Panics (x >>= f) :=
  not_panics_bind (P := fun _ => True) first (fun _ _ => trivial) fun a _ => second a

theorem not_panics_field_then {β : Type} {f : Option T → Fallible β}
    (each : ∀ v, fieldVal T d key = .ok v → ¬Panics (f v)) : ¬Panics (field T d key >>= f) := by
  rw [panics_field]
  rintro ⟨v, read, panics⟩
  exact each v read panics

theorem not_panics_present {β : Type} {f : Option T → Fallible β} (absent : ¬Panics (f none))
    (present : ∀ x, fieldVal T d key = .ok (some x) → ¬Panics (f (some x))) : ¬Panics (field T d key >>= f) := by
  refine not_panics_field_then fun found read => ?_
  cases found with
  | none => exact absent
  | some x => exact present x read

theorem ne_none_delete (doc : d ≠ none) : d.delete key ≠ none := by
  simpa [Yobj.delete] using doc

theorem ne_none_update {inner : Yobj} (doc : d ≠ none) : d.update key inner ≠ none := by
  cases inner with
  | none => exact doc
  | some fields => simpa [Yobj.update] using doc

theorem set_ne_none {v : YVal} : Post (d.set key v) (fun d' => d' ≠ none) := by
  intro d' done
  cases d with
  | none => cases done
  | some fields =>
    cases done
    simp

end Parts

end FirewallCore.Configmigrate
