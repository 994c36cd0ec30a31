import FirewallCore.Configmigrate.Alike
import FirewallCore.Configmigrate.Migrator
import FirewallCore.Configmigrate.Settings
import FirewallCore.Filtering.Filter

/-!
What the parts of a migration do to settings. A field that is written to should
set nothing before, and one that is deleted should have been moved.
-/

namespace FirewallCore.Configmigrate

open FirewallCore.Lib FirewallCore.Net

/-! ### Moves -/

section Moves

variable {T : Type} [GoType T] [LawfulType T] {d : Yobj} {objs objs' : Yobj × Yobj} {srcKey dstKey : String}

/-- A move has done nothing, or has moved a value. -/
theorem moveVal_cases : Post (moveVal T srcKey dstKey objs) (fun objs' =>
    (objs.1.get srcKey = none ∧ objs' = objs) ∨
      ∃ u u', objs.1.get srcKey = some u ∧ Boxed (GoType.box (GoType.zero : T)) u u' ∧
        objs'.1 = objs.1.delete srcKey ∧ objs.2.set dstKey u' = .ok objs'.2) := by
  refine post_field fun found read => ?_
  cases found with
  | none => exact post_ok (.inl ⟨get_none_of_fieldVal read, rfl⟩)
  | some newVal =>
    obtain ⟨u, found, readAs⟩ := get_of_fieldVal read
    refine post_then fun dst set => ?_
    exact post_ok (.inr ⟨u, _, found, boxed_of_readAs readAs, rfl, set⟩)

theorem moveWithin_cases : Post (moveWithin T d srcKey dstKey) (fun d' =>
    (d.get srcKey = none ∧ d' = d) ∨
      ∃ u u' new, d.get srcKey = some u ∧ Boxed (GoType.box (GoType.zero : T)) u u' ∧
        d.set dstKey u' = .ok new ∧ d' = new.delete srcKey) := by
  refine post_field fun found read => ?_
  cases found with
  | none => exact post_ok (.inl ⟨get_none_of_fieldVal read, rfl⟩)
  | some newVal =>
    obtain ⟨u, found, readAs⟩ := get_of_fieldVal read
    refine post_then fun new set => ?_
    exact post_ok (.inr ⟨u, _, new, found, boxed_of_readAs readAs, set, rfl⟩)

theorem run_cases {move : Move} : Post (move.run objs) (fun objs' =>
    (objs.1.get move.srcKey = none ∧ objs' = objs) ∨
      ∃ u u', objs.1.get move.srcKey = some u ∧ Boxed move.kind.zero u u' ∧
        objs'.1 = objs.1.delete move.srcKey ∧ objs.2.set move.dstKey u' = .ok objs'.2) := by
  obtain ⟨kind, srcKey, dstKey⟩ := move
  cases kind with
  | any => exact moveVal_cases
  | bool => exact moveVal_cases
  | int => exact moveVal_cases
  | string => exact moveVal_cases
  | arr => exact moveVal_cases
  | obj => exact moveVal_cases

theorem Kind.isScalar_zero (kind : Kind) : kind.zero.isScalar = true := by
  cases kind <;> rfl

/-- What moves from one object to another do, all of which have succeeded. -/
structure Joined (moves : List Move) (objs objs' : Yobj × Yobj) : Prop where
  left : ∀ k, k ∉ moves.map (·.srcKey) → objs'.1.get k = objs.1.get k
  right : ∀ k, k ∉ moves.map (·.dstKey) → objs'.2.get k = objs.2.get k
  moved : ∀ move ∈ moves, ∀ u, objs.1.get move.srcKey = some u →
    ∃ u', Boxed move.kind.zero u u' ∧ objs'.2.get move.dstKey = some u'
  unmoved : (∀ move ∈ moves, objs.1.get move.srcKey = none) → objs' = objs

theorem joined_joinMoves {moves : List Move} {errs : List String} (srcs : (moves.map (·.srcKey)).Nodup)
    (dsts : (moves.map (·.dstKey)).Nodup) (done : joinMoves moves objs errs = .ok objs') : Joined moves objs objs' := by
  induction moves generalizing objs errs with
  | nil =>
    unfold joinMoves at done
    split at done
    · cases done
      exact ⟨fun _ _ => rfl, fun _ _ => rfl, fun _ member => absurd member List.not_mem_nil, fun _ => rfl⟩
    · cases done
  | cons move moves ih =>
    obtain ⟨next, ran, later⟩ := joinMoves_cons done
    rw [List.map_cons, List.nodup_cons] at srcs dsts
    have joined := ih srcs.2 dsts.2 later
    have left : ∀ k, k ≠ move.srcKey → next.1.get k = objs.1.get k := by
      intro k other
      rcases run_cases next ran with ⟨-, rfl⟩ | ⟨u, u', -, -, src, -⟩
      · rfl
      · rw [src, get_delete, if_neg other]
    have right : ∀ k, k ≠ move.dstKey → next.2.get k = objs.2.get k := by
      intro k other
      rcases run_cases next ran with ⟨-, rfl⟩ | ⟨u, u', -, -, -, dst⟩
      · rfl
      · rw [get_set dst, if_neg other]
    constructor
    · intro k other
      rw [List.map_cons, List.mem_cons, not_or] at other
      rw [joined.left k other.2, left k other.1]
    · intro k other
      rw [List.map_cons, List.mem_cons, not_or] at other
      rw [joined.right k other.2, right k other.1]
    · intro one member u found
      rcases List.mem_cons.mp member with rfl | later
      · rcases run_cases next ran with ⟨absent, -⟩ | ⟨w, w', foundW, boxed, -, dst⟩
        · rw [absent] at found
          cases found
        · rw [foundW] at found
          cases found
          refine ⟨w', boxed, ?_⟩
          rw [joined.right _ dsts.1, get_set dst, if_pos rfl]
      · refine joined.moved one later u ?_
        rw [left one.srcKey, found]
        rintro same
        exact srcs.1 (same ▸ List.mem_map_of_mem later)
    · intro absent
      rw [List.forall_mem_cons] at absent
      rcases run_cases next ran with ⟨-, rfl⟩ | ⟨u, u', found, -⟩
      · exact joined.unmoved absent.2
      · rw [absent.1] at found
        cases found

theorem Joined.source {moves : List Move} {k : String} {u : YVal} (joined : Joined moves objs objs')
    (found : objs.1.get k = some u) :
    (∃ move ∈ moves, k = move.srcKey ∧ ∃ u', Boxed move.kind.zero u u' ∧ objs'.2.get move.dstKey = some u') ∨
      objs'.1.get k = some u := by
  by_cases listed : k ∈ moves.map (·.srcKey)
  · obtain ⟨move, member, rfl⟩ := List.mem_map.mp listed
    exact .inl ⟨move, member, rfl, joined.moved move member u found⟩
  · rw [joined.left k listed]
    exact .inr found

/-- Something has been moved to an object that was empty if and only if it is not empty any more. -/
theorem Joined.len {moves : List Move} {d d' dst : Yobj} (joined : Joined moves (d, some []) (d', dst)) :
    dst.len ≠ 0 ↔ ∃ move ∈ moves, d.get move.srcKey ≠ none := by
  constructor
  · intro filled
    by_contra none
    simp only [not_exists, not_and, not_not] at none
    cases joined.unmoved none
    exact filled rfl
  · rintro ⟨move, member, present⟩ empty
    obtain ⟨u, found⟩ := Option.ne_none_iff_exists'.mp present
    obtain ⟨u', -, moved⟩ := joined.moved move member u found
    have nil : dst.getD [] = [] := List.eq_nil_of_length_eq_zero empty
    cases dst with
    | none => cases moved
    | some fields =>
      obtain rfl : fields = [] := nil
      cases moved

end Moves

/-! ### Parts of a migration -/

section Parts

variable {rule : Rule} {d d' : Yobj} {key k : String} {u v : YVal}

/-- What is in every field is kept. -/
def KeepsFields (rule : Rule) (d d' : Yobj) : Prop := ∀ k, Survives rule d k d'

theorem keepsFields_refl (stays : ∀ p v, rule p v p v) (d : Yobj) : KeepsFields rule d d := fun _ => survives_same stays rfl

/-- A document without the field is left as it is. -/
theorem keeps_present {T : Type} [GoType T] {key : String} {f : Option T → Fallible Yobj} (stays : ∀ p v, rule p v p v)
    (absent : f none = .ok d)
    (present : ∀ x u, d.get key = some u → readAs T u = some x → Post (f (some x)) (KeepsFields rule d)) :
    Post (field T d key >>= f) (KeepsFields rule d) := by
  refine post_present ?_ fun x read => ?_
  · rw [absent]
    exact post_ok (keepsFields_refl stays d)
  · obtain ⟨u, found, value⟩ := get_of_fieldVal read
    exact present x u found value

theorem readAs_obj {inner : Yobj} (read : readAs Yobj u = some inner) : u = .null ∧ inner = none ∨ u = .obj inner := by
  unfold readAs at read
  split at read
  · cases read
    exact .inl ⟨rfl, rfl⟩
  · exact .inr (cast_obj.mp read)

theorem readAs_arr {items : Yarr} (read : readAs Yarr u = some items) : u = .null ∧ items = none ∨ u = .arr items := by
  unfold readAs at read
  split at read
  · cases read
    exact .inl ⟨rfl, rfl⟩
  · exact .inr (cast_arr.mp read)

/-- A field that sets nothing is written. -/
theorem keeps_set (stays : ∀ p v, rule p v p v) (vacant : Vacant (d.get key)) :
    Post (d.set key v) (KeepsFields rule d) := by
  intro d' set k
  by_cases same : k = key
  · subst same
    exact survives_vacant vacant
  · refine survives_same stays ?_
    rw [get_set set, if_neg same]

theorem some_of_set (set : d.set key v = .ok d') : ∃ fields, d' = some fields := by
  cases d with
  | none => cases set
  | some fields =>
    cases set
    exact ⟨_, rfl⟩

/-- A field is renamed to one that sets nothing. -/
theorem keeps_moveWithin {T : Type} [GoType T] [LawfulType T] {srcKey dstKey : String} (stays : ∀ p v, rule p v p v)
    (other : srcKey ≠ dstKey) (scalar : (GoType.box (GoType.zero : T)).isScalar = true)
    (vacant : d.get srcKey ≠ none → Vacant (d.get dstKey))
    (moves : ∀ p v v', Same (GoType.box (GoType.zero : T)) p v v' → rule (srcKey :: p) v (dstKey :: p) v') :
    Post (moveWithin T d srcKey dstKey) (KeepsFields rule d) := by
  refine post_mono moveWithin_cases ?_
  rintro d' (⟨-, rfl⟩ | ⟨u, u', new, found, boxed, set, rfl⟩) k
  · exact survives_same stays rfl
  · by_cases src : k = srcKey
    · subst src
      have moved : (new.delete k).get dstKey = some u' := by
        rw [get_delete, if_neg other.symm, get_set set, if_pos rfl]
      refine survives_moved found moved fun p v sets => ?_
      obtain ⟨v', same, sets'⟩ := boxed.sets scalar sets
      exact ⟨p, v', moves p v v' same, sets'⟩
    · by_cases dst : k = dstKey
      · subst dst
        refine survives_vacant (vacant ?_)
        rw [found]
        simp
      · refine survives_same stays ?_
        rw [get_delete, if_neg src, get_set set, if_neg dst]

/-- The settings of an object within go to fields of the whole. -/
theorem survives_fields (stays : ∀ p v, rule p v p v) {inner : Yobj} (found : d.get key = some (.obj inner))
    (nil : inner = none → d'.get key = d.get key)
    (each : ∀ k u p v, inner.get k = some u → u.Sets p v → ∃ k' u' p' v',
      rule (.name key :: .name k :: p) v (.name k' :: p') v' ∧ d'.get k' = some u' ∧ u'.Sets p' v') :
    Survives rule d key d' := by
  cases inner with
  | none => exact survives_same stays (nil rfl)
  | some fields =>
    intro u p v foundU sets
    rw [found] at foundU
    cases foundU
    cases p with
    | nil => cases sets.2.symm.trans (congrArg YVal.isScalar (Option.some.inj sets.1)).symm
    | cons step p =>
      cases step with
      | name k =>
        obtain ⟨w, foundW, setsW⟩ := sets_name.mp sets
        exact each k w p v foundW setsW
      | index i => cases sets.1

/-- One field is taken out of an object within. -/
theorem survives_taken (stays : ∀ p v, rule p v p v) {inner : Yobj} {name : String} {w : YVal}
    (found : d.get key = some (.obj inner)) (taken : inner.get name = some w)
    (here : d'.get key = some (.obj (inner.delete name)))
    (moved : ∀ p v, w.Sets p v → ∃ k' u' p' v',
      rule (.name key :: .name name :: p) v (.name k' :: p') v' ∧ d'.get k' = some u' ∧ u'.Sets p' v') :
    Survives rule d key d' := by
  refine survives_fields stays found (fun nil => ?_) fun k u p v foundU sets => ?_
  · rw [nil] at taken
    cases taken
  · by_cases named : k = name
    · subst named
      rw [taken] at foundU
      cases foundU
      exact moved p v sets
    · refine ⟨key, _, k :: p, v, stays _ v, here, sets_name.mpr ⟨u, ?_, sets⟩⟩
      rw [get_delete, if_neg named]
      exact foundU

theorem keeps_inObject {change : Yobj → Fallible Yobj} (stays : ∀ p v, rule p v p v)
    (nil : Post (change none) (fun inner => inner = none))
    (each : ∀ fields, d.get key = some (.obj (some fields)) →
      Post (change (some fields)) (KeepsFields (Under key rule) (some fields))) :
    Post (inObject d key change) (KeepsFields rule d) := by
  refine post_field fun found read => ?_
  cases found with
  | none => exact post_ok (keepsFields_refl stays d)
  | some inner =>
    obtain ⟨u, found, value⟩ := get_of_fieldVal read
    refine post_then fun inner' changed => ?_
    cases inner' with
    | none => exact post_ok (keepsFields_refl stays d)
    | some fields' =>
      refine post_ok fun k => ?_
      have update : ∀ k, (d.update key (some fields')).get k = _ := get_update (ne_none_of_get found)
      by_cases same : k = key
      · subst same
        cases inner with
        | none => cases nil _ changed
        | some fields =>
          rcases readAs_obj value with ⟨-, none⟩ | rfl
          · cases none
          · have kept := each fields found _ changed
            refine survives_moved found ?_ (keeps_obj (by simp) kept)
            rw [update, if_pos rfl]
      · refine survives_same stays ?_
        rw [update, if_neg same]

/-- An object that is written back as it was read. -/
theorem get_update_read {inner : Yobj} (found : d.get key = some u) (read : readAs Yobj u = some inner) (k : String) :
    (d.update key inner).get k = d.get k := by
  cases inner with
  | none => rfl
  | some fields =>
    rcases readAs_obj read with ⟨-, none⟩ | rfl
    · cases none
    · rw [get_update (ne_none_of_get found)]
      split
      · rename_i same
        rw [same, found]
      · rfl

/-- The settings that moves take from an object within are in the other object. -/
theorem survives_joined {moves : List Move} {inner inner' dst dst' : Yobj} {dstKey : String}
    (stays : ∀ p v, rule p v p v) (found : d.get key = some u) (read : readAs Yobj u = some inner)
    (joined : Joined moves (inner, dst) (inner', dst')) (keptNil : inner'.isSome = inner.isSome)
    (here : d'.get key = (d.update key inner').get key)
    (there : (∃ move ∈ moves, inner.get move.srcKey ≠ none) → d'.get dstKey = some (.obj dst'))
    (each : ∀ move ∈ moves, ∀ p v v', Same move.kind.zero p v v' →
      rule (key :: move.srcKey :: p) v (dstKey :: move.dstKey :: p) v') : Survives rule d key d' := by
  rcases readAs_obj read with ⟨rfl, rfl⟩ | rfl
  · obtain rfl : inner' = none := by simpa using keptNil
    exact survives_same stays here
  · rw [get_update_of_obj found keptNil, if_pos rfl] at here
    refine survives_fields stays found ?_ ?_
    · rintro rfl
      obtain rfl : inner' = none := by simpa using keptNil
      rw [here, found]
    · intro k w p v foundW sets
      rcases joined.source foundW with ⟨move, member, rfl, w', boxed, moved⟩ | stayed
      · obtain ⟨v', same, sets'⟩ := boxed.sets move.kind.isScalar_zero sets
        refine ⟨dstKey, _, move.dstKey :: p, v', each move member p v v' same, there ⟨move, member, ?_⟩,
          sets_name.mpr ⟨w', moved, sets'⟩⟩
        rw [foundW]
        simp
      · exact ⟨key, _, k :: p, v, stays _ v, here, sets_name.mpr ⟨w, stayed, sets⟩⟩

theorem get_changeItems {change : Nat → YVal → Fallible YVal} {i : Nat} {items : List YVal} :
    Post (changeItems change i items) (fun items' => ∀ (j : Nat) v, items[j]? = some v →
      ∃ v', items'[j]? = some v' ∧ change (i + j) v = .ok v') := by
  induction items generalizing i with
  | nil => exact post_ok fun j v found => by cases found
  | cons item items ih =>
    refine post_then fun item' changed => ?_
    refine post_bind ih fun items' later => ?_
    refine post_ok fun j v found => ?_
    cases j with
    | zero =>
      cases found
      exact ⟨item', rfl, changed⟩
    | succ j =>
      obtain ⟨v', found', changed'⟩ := later j v found
      exact ⟨v', found', by rwa [Nat.add_right_comm] at changed'⟩

theorem keeps_changeArr {change : Nat → YVal → Fallible YVal} {items : Yarr} (stays : ∀ p v, rule p v p v)
    (found : d.get key = some u) (read : readAs Yarr u = some items)
    (each : ∀ list i v, d.get key = some (.arr (some list)) → v ∈ list →
      Post (change i v) (Keeps (Under (.index i) (Under key rule)) v)) :
    Post (changeArr change items) (fun items' => KeepsFields rule d (d.updateArr key items')) := by
  cases items with
  | none => exact post_ok (keepsFields_refl stays d)
  | some list =>
    rcases readAs_arr read with ⟨-, none⟩ | rfl
    · cases none
    refine post_bind get_changeItems fun list' changed => ?_
    refine post_ok fun k => ?_
    have update : ∀ k, (d.updateArr key (some list')).get k = _ := get_updateArr (ne_none_of_get found)
    by_cases same : k = key
    · subst same
      refine survives_moved found (by rw [update, if_pos rfl]) (keeps_arr fun i v at_ => ?_)
      obtain ⟨v', at', changed'⟩ := changed i v at_
      rw [Nat.zero_add] at changed'
      exact ⟨v', at', each list i v found (List.mem_of_getElem? at_) v' changed'⟩
    · refine survives_same stays ?_
      rw [update, if_neg same]

/-- What is in the fields other than the version is kept. -/
def KeepsOthers (rule : Rule) (d d' : Yobj) : Prop := ∀ k, k ≠ "schema_version" → Survives rule d k d'

theorem keeps_atVersion {version : Nat} {change : Yobj → Fallible Yobj}
    (each : ∀ e : Yobj, (∀ k, k ≠ "schema_version" → d.get k = e.get k) → Post (change e) (KeepsFields rule e)) :
    Post (atVersion version change d) (KeepsOthers rule d) := by
  refine post_atVersion fun e same => ?_
  refine post_mono (each e fun k other => (same k other).symm) fun d' kept k other => ?_
  intro u p v found sets
  exact kept k u p v ((same k other).trans found) sets

end Parts

end FirewallCore.Configmigrate

/-!
Whether filter lists in local files are still read after `migrateTo29`, which makes patterns of the
paths of some of them.
-/

namespace FirewallCore.Configmigrate

open FirewallCore.Lib FirewallCore.Filtering

/-! ### Filter lists of a configuration -/

/-- The `url` of a filter list. -/
def urlOf : YVal → Option String
  | .obj f => fieldOpt String f "url"
  | _ => none

/-- The URLs of the lists under a key. -/
def listURLs (d : Yobj) (key : String) : List String :=
  (((fieldOpt Yarr d key).bind id).getD []).filterMap urlOf

/-- The paths of the lists of both kinds, where they are absolute and clean. -/
def localLists (d : Yobj) : List String :=
  (listURLs d "filters" ++ listURLs d "whitelist_filters").filter fun u => isAbs u ∧ clean u = u

/-- The patterns of a configuration; `decode` is how the YAML package reads a list of texts. -/
def safeFSPatterns (decode : YVal → Option (List String)) (d : Yobj) : List String :=
  ((((fieldOpt Yobj d "filtering").bind id).bind (·.lookup "safe_fs_patterns")).bind decode).getD []

/-- The paths among the filters, all of which become patterns. -/
def filterPatterns (d : Yobj) : List String := (listURLs d "filters").filter fun u => isAbs u

/-- The patterns are not malformed, and cover the lists. -/
structure Covered (patterns lists : List String) : Prop where
  wellFormed : ∀ p ∈ patterns, WellFormed p
  each : ∀ u ∈ lists, ∃ p ∈ patterns, MatchesFile p u

/-- The lists of a configuration without filters are those that its own patterns cover. Else each is
a filter whose path has no `[` and no `\`, or is matched by the pattern for the user's filters or by
the path of a filter, and no path is malformed as a pattern. -/
def StaysReadable (decode : YVal → Option (List String)) (env : Env) (d : Yobj) : Prop :=
  localLists d = [] ∨
    if (fieldOpt Yarr d "filters").isNone then Covered (safeFSPatterns decode d) (localLists d)
    else
      WellFormed env.userFilters ∧ (∀ p ∈ filterPatterns d, WellFormed p) ∧
        ∀ u ∈ localLists d, (u ∈ listURLs d "filters" ∧ Glob.Plain (utf8 u)) ∨
          MatchesFile env.userFilters u ∨ ∃ p ∈ filterPatterns d, MatchesFile p u

section Migrated

variable {decode : YVal → Option (List String)} {env : Env} {d d' : Yobj} {i : Nat}
  {filters : List YVal} {paths patterns lists : List String} {u : String}

theorem filterPaths_ok (found : filterPaths i filters = .ok paths) :
    paths = (filters.filterMap urlOf).filter fun u => isAbs u := by
  induction filters generalizing i paths with
  | nil => exact (Except.ok.inj found).symm
  | cons v filters ih =>
    cases v with
    | obj f =>
      cases later : filterPaths (i + 1) filters with
      | error stop =>
        rw [filterPaths, later] at found
        cases found
      | ok rest =>
        rw [filterPaths, later] at found
        obtain rfl := ih later
        cases read : fieldOpt String f "url" with
        | none =>
          rw [read] at found
          rw [List.filterMap_cons_none (show urlOf (.obj f) = none from read)]
          exact (Except.ok.inj found).symm
        | some u =>
          rw [read] at found
          obtain rfl := Except.ok.inj found
          rw [List.filterMap_cons_some (show urlOf (.obj f) = some u from read), List.filter_cons]
          by_cases abs : u.toList.head? = some '/'
          · simp [isAbs, abs]
          · simp [isAbs, abs]
    | _ => cases found

theorem accepts_all_iff (abs : ∀ u ∈ lists, isAbs u ∧ clean u = u) :
    (∀ u ∈ lists, Accepts patterns u) ↔ lists = [] ∨ Covered patterns lists := by
  constructor
  · intro accepted
    rcases List.eq_nil_or_concat lists with none | ⟨before, last, some'⟩
    · exact .inl none
    · have member : last ∈ lists := by simp [some']
      have both := fun u among => (accepts_iff (abs u among).1 (abs u among).2).mp (accepted u among)
      exact .inr ⟨(both last member).1, fun u among => (both u among).2⟩
  · rintro (rfl | covered) u member
    · cases member
    · exact (accepts_iff (abs u member).1 (abs u member).2).mpr
        ⟨covered.wellFormed, covered.each u member⟩

theorem localLists_clean (member : u ∈ localLists d) : isAbs u ∧ clean u = u := by
  simpa using List.of_mem_filter member

theorem safeFSPatterns_congr (same : d'.get "filtering" = d.get "filtering") :
    safeFSPatterns decode d' = safeFSPatterns decode d := by
  unfold safeFSPatterns fieldOpt
  rw [fieldVal_congr same]

theorem listURLs_congr {key : String} (same : d'.get key = d.get key) :
    listURLs d' key = listURLs d key := by
  unfold listURLs fieldOpt
  rw [fieldVal_congr same]

/-- The patterns that are written, if any are. -/
theorem migrateTo29_patterns {fields : List (String × YVal)}
    (strings : ∀ texts, decode (.strings texts) = some texts)
    (filtering : d.get "filtering" = some (.obj (some fields))) :
    Post (migrateTo29 env d) fun d' =>
      safeFSPatterns decode d' = if (fieldOpt Yarr d "filters").isNone then safeFSPatterns decode d
        else env.userFilters :: filterPatterns d := by
  refine post_atVersion fun d' same => ?_
  have isObject := (same "filtering" (by decide)).trans filtering
  refine post_field fun found read => ?_
  have opt : fieldOpt Yarr d "filters" = found := by
    rw [fieldVal_congr (same "filters" (by decide))] at read
    rw [fieldOpt, read]
  rw [opt]
  cases found with
  | none => exact post_ok (safeFSPatterns_congr (same _ (by decide)))
  | some filterVals =>
    refine post_then fun paths returned => ?_
    have patterns : paths = filterPatterns d := by
      rw [filterPaths_ok returned, filterPatterns, listURLs, opt]
      rfl
    refine post_field fun inner readInner => ?_
    rw [fieldVal, isObject] at readInner
    obtain rfl := Except.ok.inj readInner
    refine post_then fun written set => post_ok ?_
    cases set
    have now : (d'.update "filtering" (some (Yobj.assign fields "safe_fs_patterns"
        (.strings (env.userFilters :: paths))))).get "filtering" = _ :=
      get_update (ne_none_of_get isObject) "filtering"
    rw [if_pos rfl] at now
    rw [if_neg (by simp), ← patterns, safeFSPatterns, fieldOpt, fieldVal, now]
    simp [GoType.cast, lookup_assign, strings]

/-- The patterns that are written cover the lists if the condition holds. -/
theorem covered_iff : Covered (env.userFilters :: filterPatterns d) (localLists d) ↔
    WellFormed env.userFilters ∧ (∀ p ∈ filterPatterns d, WellFormed p) ∧
      ∀ u ∈ localLists d, (u ∈ listURLs d "filters" ∧ Glob.Plain (utf8 u)) ∨
        MatchesFile env.userFilters u ∨ ∃ p ∈ filterPatterns d, MatchesFile p u := by
  constructor
  · rintro ⟨wellFormed, each⟩
    rw [List.forall_mem_cons] at wellFormed
    refine ⟨wellFormed.1, wellFormed.2, fun u member => .inr ?_⟩
    simpa using each u member
  · rintro ⟨own, paths, each⟩
    refine ⟨List.forall_mem_cons.mpr ⟨own, paths⟩, fun u member => ?_⟩
    rw [List.exists_mem_cons_iff]
    rcases each u member with ⟨among, plain⟩ | matched
    · have abs := (localLists_clean member).1
      exact .inr ⟨u, List.mem_filter.mpr ⟨among, abs⟩, matches_self plain⟩
    · exact matched

/-- Each local list is read after the migration exactly if the condition holds before it. -/
theorem migrateTo29_readable_iff {fields : List (String × YVal)}
    (strings : ∀ texts, decode (.strings texts) = some texts)
    (filtering : d.get "filtering" = some (.obj (some fields)))
    (migrated : migrateTo29 env d = .ok d') :
    (∀ u ∈ localLists d', Accepts (safeFSPatterns decode d') u) ↔ StaysReadable decode env d := by
  have stays : ∀ key, key ∉ ["schema_version", "filtering"] → d'.get key = d.get key :=
    fun _ => (stepped29 d' migrated).2.get
  have same : localLists d' = localLists d := by
    unfold localLists
    rw [listURLs_congr (stays "filters" (by decide)),
      listURLs_congr (stays "whitelist_filters" (by decide))]
  rw [same, accepts_all_iff fun u member => localLists_clean member,
    migrateTo29_patterns strings filtering d' migrated, StaysReadable]
  split
  · rfl
  · rw [covered_iff]

end Migrated

/-! ### Lists of one configuration -/

/-- A configuration with a list of each kind. -/
def twoLists (filter allow : String) : Yobj := some [
  ("schema_version", .int 28),
  ("filters", .arr (some [object [("enabled", .bool true), ("url", .str filter)]])),
  ("whitelist_filters", .arr (some [object [("enabled", .bool true), ("url", .str allow)]])),
  ("filtering", object [("protection_enabled", .bool true)])]

/-- The configuration after the migration. -/
def twoListsMigrated (filter allow : String) (paths : List String) : Yobj := some [
  ("filtering", object [("safe_fs_patterns", .strings (plainEnv.userFilters :: paths)),
    ("protection_enabled", .bool true)]),
  ("schema_version", .int 29),
  ("filters", .arr (some [object [("enabled", .bool true), ("url", .str filter)]])),
  ("whitelist_filters", .arr (some [object [("enabled", .bool true), ("url", .str allow)]]))]

/-- A list of allowed names among the filters of the user is read. -/
theorem migrateTo29_readable_own :
    Accepts (safeFSPatterns YVal.textsOf
        (twoListsMigrated "/etc/ads.txt" "/data/userfilters/allow.txt" ["/etc/ads.txt"]))
      "/data/userfilters/allow.txt" := by
  have stays : StaysReadable YVal.textsOf plainEnv
      (twoLists "/etc/ads.txt" "/data/userfilters/allow.txt") → _ :=
    (migrateTo29_readable_iff (fun _ => rfl) rfl rfl).mpr
  refine stays (.inr ?_) "/data/userfilters/allow.txt" (by decide +kernel)
  have lists : localLists (twoLists "/etc/ads.txt" "/data/userfilters/allow.txt") =
    ["/etc/ads.txt", "/data/userfilters/allow.txt"] := by decide +kernel
  have patterns : filterPatterns (twoLists "/etc/ads.txt" "/data/userfilters/allow.txt") =
    ["/etc/ads.txt"] := by decide +kernel
  rw [if_neg (by decide +kernel), lists, patterns]
  refine ⟨by decide +kernel, List.forall_mem_singleton.mpr (by decide +kernel), ?_⟩
  rw [List.forall_mem_cons, List.forall_mem_singleton]
  exact ⟨.inl (by decide +kernel), .inr (.inl (by decide +kernel))⟩

/-- A list of allowed names is not read after the migration. -/
theorem migrateTo29_not_readable : ¬∀ (decode : YVal → Option (List String)) (env : Env) (d d' : Yobj)
    (fields : List (String × YVal)), (∀ texts, decode (.strings texts) = some texts) →
      d.get "filtering" = some (.obj (some fields)) → migrateTo29 env d = .ok d' →
        ∀ u ∈ localLists d', Accepts (safeFSPatterns decode d') u := by
  intro readable
  have accepted := readable YVal.textsOf plainEnv (twoLists "/etc/ads.txt" "/etc/allow.txt")
    (twoListsMigrated "/etc/ads.txt" "/etc/allow.txt" ["/etc/ads.txt"]) _ (fun _ => rfl) rfl rfl
    "/etc/allow.txt" (by decide +kernel)
  obtain ⟨-, p, among, matched⟩ := (accepts_iff rfl (by decide +kernel)).mp accepted
  have patterns : safeFSPatterns YVal.textsOf
      (twoListsMigrated "/etc/ads.txt" "/etc/allow.txt" ["/etc/ads.txt"]) =
        ["/data/userfilters/*", "/etc/ads.txt"] := rfl
  rw [patterns, List.mem_cons, List.mem_singleton] at among
  rcases among with rfl | rfl
  · exact absurd matched (by decide +kernel)
  · exact absurd matched (by decide +kernel)

end FirewallCore.Configmigrate
