import FirewallCore.Configmigrate.NilMaps
import Mathlib.Data.List.Forall2

/-!
Documents in memory that are written alike.

A migration leaves durations, modes and lists of texts as values of their own
types, and `nil` slices and maps. In a file these are texts and empty
collections. Values of such types are only under some keys, so that where a
migration asks for a type two documents that are written alike give the same
answer.
-/

namespace FirewallCore.Configmigrate

open FirewallCore.Lib

/-- The keys under which values may be of a type that is written as a text or as a list of texts. -/
def typedKeys : List String := ["querylog_interval", "interval", "upstream_mode", "safe_fs_patterns"]

def isTyped (key : String) : Bool := key ∈ typedKeys

/-- The text that a scalar is written as. -/
def YVal.textOf (env : Env) : YVal → Option String
  | .str s => some s
  | .duration ns => some (env.durationString ns)
  | .upstreamMode name => some name
  | _ => none

def YVal.strOf : YVal → Option String
  | .str s => some s
  | _ => none

/-- The texts that a list is written as. -/
def YVal.textsOf : YVal → Option (List String)
  | .strings texts => some texts
  | .arr items => (items.getD []).mapM YVal.strOf
  | _ => none

/-- Values that are written alike. Those of other types are alike only under a key for them. -/
inductive Alike (env : Env) : Bool → YVal → YVal → Prop
  | null {typed : Bool} : Alike env typed .null .null
  | bool {typed : Bool} (b : Bool) : Alike env typed (.bool b) (.bool b)
  | int {typed : Bool} (n : Int) : Alike env typed (.int n) (.int n)
  | str {typed : Bool} (s : String) : Alike env typed (.str s) (.str s)
  | other {typed : Bool} (type text : String) : Alike env typed (.other type text) (.other type text)
  | arr {typed : Bool} {items items' : Yarr} (length : (items.getD []).length = (items'.getD []).length)
      (each : ∀ i h h', Alike env false ((items.getD []).get ⟨i, h⟩) ((items'.getD []).get ⟨i, h'⟩)) :
      Alike env typed (.arr items) (.arr items')
  | obj {typed : Bool} {fields fields' : Yobj} (domain : ∀ k, (fields.get k).isSome = (fields'.get k).isSome)
      (each : ∀ k v v', fields.get k = some v → fields'.get k = some v' → Alike env (isTyped k) v v') :
      Alike env typed (.obj fields) (.obj fields')
  | text {v v' : YVal} {text : String} (left : v.textOf env = some text) (right : v'.textOf env = some text) :
      Alike env true v v'
  | texts {v v' : YVal} {texts : List String} (left : v.textsOf = some texts) (right : v'.textsOf = some texts) :
      Alike env true v v'

/-- Objects that are written alike. -/
def AlikeObj (env : Env) (d d' : Yobj) : Prop := ∀ k, Option.Rel (Alike env (isTyped k)) (d.get k) (d'.get k)

/-- Arrays that are written alike. -/
def AlikeArr (env : Env) (items items' : Yarr) : Prop := List.Forall₂ (Alike env false) (items.getD []) (items'.getD [])

section Shapes

variable {env : Env} {typed : Bool} {d d' inner inner' : Yobj} {items items' : Yarr} {v v' : YVal} {key : String}

theorem rel_isSome {α β : Type} {R : α → β → Prop} {a : Option α} {b : Option β} (related : Option.Rel R a b) :
    a.isSome = b.isSome := by
  cases related with
  | none => rfl
  | some _ => rfl

theorem AlikeObj.alike (alike : AlikeObj env d d') : Alike env typed (.obj d) (.obj d') := by
  refine .obj (fun k => rel_isSome (alike k)) fun k v v' found found' => ?_
  have related := alike k
  rw [found, found'] at related
  cases related with
  | some related => exact related

theorem AlikeArr.alike (alike : AlikeArr env items items') : Alike env typed (.arr items) (.arr items') :=
  .arr (List.forall₂_iff_get.mp alike).1 (List.forall₂_iff_get.mp alike).2

theorem alikeObj_of_alike (alike : Alike env false (.obj d) (.obj d')) : AlikeObj env d d' := by
  intro k
  cases alike with
  | obj domain each =>
    have sameDomain := domain k
    cases left : d.get k with
    | none =>
      rw [left] at sameDomain
      rw [Option.isSome_eq_false_iff.mp sameDomain.symm |> Option.isNone_iff_eq_none.mp]
      exact .none
    | some v =>
      rw [left] at sameDomain
      obtain ⟨v', right⟩ := Option.isSome_iff_exists.mp sameDomain.symm
      rw [right]
      exact .some (each k v v' left right)

theorem AlikeObj.nil : AlikeObj env none none := fun _ => .none

/-- Fields that are given one by one. -/
theorem AlikeObj.cons {fields fields' : List (String × YVal)} (value : Alike env (isTyped key) v v')
    (rest : AlikeObj env (some fields) (some fields')) :
    AlikeObj env (some ((key, v) :: fields)) (some ((key, v') :: fields')) := by
  intro k
  by_cases same : k = key
  · subst same
    simp only [Yobj.get, Option.bind_some, List.lookup_cons_self]
    exact .some value
  · have related := rest k
    simp only [Yobj.get, Option.bind_some] at related ⊢
    rw [lookup_cons_of_ne fields same, lookup_cons_of_ne fields' same]
    exact related

theorem AlikeObj.empty : AlikeObj env (some []) (some []) := fun _ => .none

/-! ### Types that are asked for -/

/-- Values of a type that are written alike. -/
class AlikeType (T : Type) [GoType T] where
  rel : Env → Bool → T → T → Prop
  zero : ∀ {env typed}, rel env typed GoType.zero GoType.zero
  box : ∀ {env typed} {a b : T}, rel env typed a b → Alike env typed (GoType.box a) (GoType.box b)
  cast : ∀ {env typed v v'} {a b : T}, Alike env typed v v' → GoType.cast v = some a → GoType.cast v' = some b →
    rel env typed a b

/-- A type of which values that are alike are or are not, when they are not typed. -/
class AlikeShape (T : Type) [GoType T] : Prop where
  shape : ∀ {env v v'}, Alike env false v v' → (GoType.cast v : Option T).isSome = (GoType.cast v' : Option T).isSome

end Shapes

section Instances

variable {env : Env} {typed : Bool} {v v' : YVal} {d d' : Yobj} {items items' : Yarr}

theorem cast_bool {b : Bool} : (GoType.cast v : Option Bool) = some b ↔ v = .bool b := by
  cases v <;> simp [GoType.cast]

theorem cast_int {n : Int} : (GoType.cast v : Option Int) = some n ↔ v = .int n := by
  cases v <;> simp [GoType.cast]

theorem cast_string {s : String} : (GoType.cast v : Option String) = some s ↔ v = .str s := by
  cases v <;> simp [GoType.cast]

theorem cast_arr : (GoType.cast v : Option Yarr) = some items ↔ v = .arr items := by
  cases v <;> simp [GoType.cast]

theorem cast_obj : (GoType.cast v : Option Yobj) = some d ↔ v = .obj d := by
  cases v <;> simp [GoType.cast]

theorem eq_map_str {items : List YVal} {texts : List String} (all : items.mapM YVal.strOf = some texts) :
    items = texts.map .str := by
  induction items generalizing texts with
  | nil =>
    cases all
    rfl
  | cons item items ih =>
    rw [List.mapM_cons] at all
    cases item with
    | str s =>
      obtain ⟨text, first, rest⟩ := Option.bind_eq_some_iff.mp all
      obtain ⟨later, found, same⟩ := Option.bind_eq_some_iff.mp rest
      cases first
      cases same
      rw [ih found]
      rfl
    | null => cases all
    | bool b => cases all
    | int n => cases all
    | arr items => cases all
    | obj fields => cases all
    | duration ns => cases all
    | upstreamMode name => cases all
    | strings texts => cases all
    | other type text => cases all

theorem mapM_strOf (texts : List String) : (texts.map YVal.str).mapM YVal.strOf = some texts := by
  induction texts with
  | nil => rfl
  | cons text texts ih =>
    rw [List.map_cons, List.mapM_cons, ih]
    rfl

theorem alikeArr_texts {texts : List String} (left : items.getD [] = texts.map .str)
    (right : items'.getD [] = texts.map .str) : AlikeArr env items items' := by
  unfold AlikeArr
  rw [left, right]
  clear left right
  induction texts with
  | nil => exact .nil
  | cons text texts ih => exact .cons (.str text) ih

/-- Arrays are alike also under a key for lists of texts. -/
theorem alikeArr_of_typed (alike : Alike env typed (.arr items) (.arr items')) : AlikeArr env items items' := by
  cases alike with
  | arr length each => exact List.forall₂_iff_get.mpr ⟨length, each⟩
  | text left right => cases left
  | texts left right => exact alikeArr_texts (eq_map_str left) (eq_map_str right)

theorem alikeObj_of_typed (alike : Alike env typed (.obj d) (.obj d')) : AlikeObj env d d' := by
  cases alike with
  | obj domain each => exact alikeObj_of_alike (.obj domain each)
  | text left right => cases left
  | texts left right => cases left

instance : AlikeType YVal where
  rel := Alike
  zero := .null
  box := id
  cast := by
    intro env typed v v' a b alike left right
    cases left
    cases right
    exact alike

instance : AlikeType Bool where
  rel _ _ a b := a = b
  zero := rfl
  box same := same ▸ .bool _
  cast := by
    intro env typed v v' a b alike left right
    rw [cast_bool.mp left, cast_bool.mp right] at alike
    cases alike with
    | bool _ => rfl
    | text left _ => cases left
    | texts left _ => cases left

instance : AlikeType Int where
  rel _ _ a b := a = b
  zero := rfl
  box same := same ▸ .int _
  cast := by
    intro env typed v v' a b alike left right
    rw [cast_int.mp left, cast_int.mp right] at alike
    cases alike with
    | int _ => rfl
    | text left _ => cases left
    | texts left _ => cases left

instance : AlikeType String where
  rel _ _ a b := a = b
  zero := rfl
  box same := same ▸ .str _
  cast := by
    intro env typed v v' a b alike left right
    rw [cast_string.mp left, cast_string.mp right] at alike
    cases alike with
    | str _ => rfl
    | text left right =>
      cases left
      exact Option.some.inj right.symm
    | texts left _ => cases left

instance : AlikeType Yarr where
  rel env _ := AlikeArr env
  zero := .nil
  box := AlikeArr.alike
  cast := by
    intro env typed v v' a b alike left right
    rw [cast_arr.mp left, cast_arr.mp right] at alike
    exact alikeArr_of_typed alike

instance : AlikeType Yobj where
  rel env _ := AlikeObj env
  zero := AlikeObj.nil
  box := AlikeObj.alike
  cast := by
    intro env typed v v' a b alike left right
    rw [cast_obj.mp left, cast_obj.mp right] at alike
    exact alikeObj_of_typed alike

instance : AlikeShape Bool where
  shape alike := by cases alike <;> rfl

instance : AlikeShape String where
  shape alike := by cases alike <;> rfl

instance : AlikeShape Yarr where
  shape alike := by cases alike <;> rfl

instance : AlikeShape Yobj where
  shape alike := by cases alike <;> rfl

theorem alike_goNull (alike : Alike env typed v v') : v = .null ↔ v' = .null := by
  cases alike with
  | null => exact Iff.rfl
  | text left right =>
    constructor
    · rintro rfl
      cases left
    · rintro rfl
      cases right
  | texts left right =>
    constructor
    · rintro rfl
      cases left
    · rintro rfl
      cases right
  | _ => simp

end Instances

/-! ### Reading -/

section Reading

variable {env : Env} {T : Type} [GoType T] {d d' : Yobj} {key srcKey dstKey : String}

/-- `fieldVal` of a value that is there and is not a null. -/
def readVal (T : Type) [GoType T] (key : String) (v : YVal) : Except String (Option T) :=
  match GoType.cast v with
  | none => .error ("unexpected type of " ++ key.quote ++ ": " ++ v.goType)
  | some a => .ok (some a)

theorem fieldVal_of_get {v : YVal} (found : d.get key = some v) (notNull : v ≠ .null) :
    fieldVal T d key = readVal T key v := by
  unfold fieldVal
  rw [found]
  cases v <;> first | rfl | exact absurd rfl notNull

/-- Where one document has a value, the other has one that is alike. -/
theorem AlikeObj.get_some {v : YVal} (alike : AlikeObj env d d') (found : d.get key = some v) :
    ∃ v', d'.get key = some v' ∧ Alike env (isTyped key) v v' := by
  have related := alike key
  rw [found] at related
  generalize d'.get key = other at related
  cases related with
  | some alikeVals => exact ⟨_, rfl, alikeVals⟩

/-- Under a key of two documents that are alike there is nothing, a null or two values. -/
theorem fieldVal_cases (alike : AlikeObj env d d') (key : String) :
    (fieldVal T d key = .ok none ∧ fieldVal T d' key = .ok none) ∨
    (fieldVal T d key = .ok (some GoType.zero) ∧ fieldVal T d' key = .ok (some GoType.zero)) ∨
    ∃ v v', Alike env (isTyped key) v v' ∧ fieldVal T d key = readVal T key v ∧ fieldVal T d' key = readVal T key v' := by
  have related := alike key
  cases found : d.get key with
  | none =>
    rw [found] at related
    have found' : d'.get key = none := by
      generalize d'.get key = other at related
      cases related
      rfl
    left
    rw [fieldVal, fieldVal, found, found']
    exact ⟨rfl, rfl⟩
  | some v =>
    obtain ⟨v', found', alikeVals⟩ := alike.get_some found
    right
    by_cases null : v = .null
    · have null' := (alike_goNull alikeVals).mp null
      subst null null'
      left
      rw [fieldVal, fieldVal, found, found']
      exact ⟨rfl, rfl⟩
    · have notNull' : v' ≠ .null := fun null' => null ((alike_goNull alikeVals).mpr null')
      exact .inr ⟨v, v', alikeVals, fieldVal_of_get found null, fieldVal_of_get found' notNull'⟩

theorem readVal_ok {v : YVal} {a : Option T} (read : readVal T key v = .ok a) :
    ∃ t, GoType.cast v = some t ∧ a = some t := by
  unfold readVal at read
  split at read
  · cases read
  · rename_i t casted
    cases read
    exact ⟨t, casted, rfl⟩

theorem both_fieldVal [AlikeType T] (alike : AlikeObj env d d') {a b : Option T} (left : fieldVal T d key = .ok a)
    (right : fieldVal T d' key = .ok b) : Option.Rel (AlikeType.rel env (isTyped key)) a b := by
  rcases fieldVal_cases (T := T) alike key with ⟨none, none'⟩ | ⟨zero, zero'⟩ | ⟨v, v', alikeVals, read, read'⟩
  · rw [none] at left
    rw [none'] at right
    cases left
    cases right
    exact .none
  · rw [zero] at left
    rw [zero'] at right
    cases left
    cases right
    exact .some AlikeType.zero
  · rw [read] at left
    rw [read'] at right
    obtain ⟨t, casted, rfl⟩ := readVal_ok left
    obtain ⟨t', casted', rfl⟩ := readVal_ok right
    exact .some (AlikeType.cast alikeVals casted casted')

theorem both_field [AlikeType T] (alike : AlikeObj env d d') :
    Both (field T d key) (field T d' key) (Option.Rel (AlikeType.rel env (isTyped key))) := by
  intro a b left right
  exact both_fieldVal alike (field_ok.mp left) (field_ok.mp right)

/-- A read, with what is read. -/
theorem both_field_bind [AlikeType T] {β : Type} {f g : Option T → Fallible β} {S : β → β → Prop}
    (alike : AlikeObj env d d')
    (each : ∀ a b, fieldVal T d key = .ok a → fieldVal T d' key = .ok b →
      Option.Rel (AlikeType.rel env (isTyped key)) a b → Both (f a) (g b) S) :
    Both (field T d key >>= f) (field T d' key >>= g) S := by
  refine both_bind (R := fun a b => fieldVal T d key = .ok a ∧ fieldVal T d' key = .ok b) ?_ ?_
  · exact fun a b left right => ⟨field_ok.mp left, field_ok.mp right⟩
  · exact fun a b read => each a b read.1 read.2 (both_fieldVal alike read.1 read.2)

/-- A document without the field is left as it is. -/
theorem both_present [AlikeType T] {f g : Option T → Fallible Yobj} (alike : AlikeObj env d d') (absent : f none = .ok d)
    (absent' : g none = .ok d')
    (present : ∀ a b, fieldVal T d key = .ok (some a) → fieldVal T d' key = .ok (some b) →
      AlikeType.rel env (isTyped key) a b → Both (f (some a)) (g (some b)) (AlikeObj env)) :
    Both (field T d key >>= f) (field T d' key >>= g) (AlikeObj env) := by
  refine both_field_bind alike fun a b read read' related => ?_
  cases related with
  | none =>
    rw [absent, absent']
    exact both_ok alike
  | some related => exact present _ _ read read' related

/-- A read whose error is dropped is dropped in both. -/
theorem rel_fieldOpt [AlikeType T] [AlikeShape T] (alike : AlikeObj env d d') (plain : isTyped key = false) :
    Option.Rel (AlikeType.rel (T := T) env false) (fieldOpt T d key) (fieldOpt T d' key) := by
  have same : (∃ a, fieldVal T d key = .ok a) ↔ ∃ b, fieldVal T d' key = .ok b := by
    rcases fieldVal_cases (T := T) alike key with ⟨none, none'⟩ | ⟨zero, zero'⟩ | ⟨v, v', alikeVals, read, read'⟩
    · exact iff_of_true ⟨_, none⟩ ⟨_, none'⟩
    · exact iff_of_true ⟨_, zero⟩ ⟨_, zero'⟩
    · rw [plain] at alikeVals
      have shape := AlikeShape.shape (T := T) alikeVals
      rw [read, read']
      unfold readVal
      cases casted : (GoType.cast v : Option T) with
      | none =>
        rw [casted] at shape
        rw [Option.isNone_iff_eq_none.mp (Option.isSome_eq_false_iff.mp shape.symm)]
        exact iff_of_false (by simp) (by simp)
      | some t =>
        rw [casted] at shape
        obtain ⟨t', casted'⟩ := Option.isSome_iff_exists.mp shape.symm
        rw [casted']
        exact iff_of_true ⟨_, rfl⟩ ⟨_, rfl⟩
  unfold fieldOpt
  cases left : fieldVal T d key with
  | error err =>
    cases right : fieldVal T d' key with
    | error err' => exact .none
    | ok b => exact absurd (same.mpr ⟨b, right⟩) (by simp [left])
  | ok a =>
    cases right : fieldVal T d' key with
    | error err' => exact absurd (same.mp ⟨a, left⟩) (by simp [right])
    | ok b =>
      rw [← plain]
      exact both_fieldVal alike left right

end Reading

/-! ### Writing -/

section Writing

variable {env : Env} {T : Type} [GoType T] {d d' : Yobj} {v v' : YVal} {key srcKey dstKey : String}
  {objs objs' : Yobj × Yobj}

/-- The same field is changed in both. -/
theorem AlikeObj.of_get {e e' : Yobj} (alike : AlikeObj env d d') (value : Alike env (isTyped key) v v')
    (left : ∀ k, e.get k = if k = key then some v else d.get k)
    (right : ∀ k, e'.get k = if k = key then some v' else d'.get k) : AlikeObj env e e' := by
  intro k
  rw [left, right]
  by_cases same : k = key
  · rw [if_pos same, if_pos same, same]
    exact .some value
  · rw [if_neg same, if_neg same]
    exact alike k

theorem both_set (alike : AlikeObj env d d') (value : Alike env (isTyped key) v v') :
    Both (d.set key v) (d'.set key v') (AlikeObj env) :=
  fun _ _ left right => alike.of_get value (get_set left) (get_set right)

theorem AlikeObj.delete (alike : AlikeObj env d d') (key : String) : AlikeObj env (d.delete key) (d'.delete key) := by
  intro k
  rw [get_delete, get_delete]
  by_cases same : k = key
  · rw [if_pos same, if_pos same]
    exact .none
  · rw [if_neg same, if_neg same]
    exact alike k

/-- Two pairs of objects, alike one by one. -/
def AlikePair (env : Env) (objs objs' : Yobj × Yobj) : Prop := AlikeObj env objs.1 objs'.1 ∧ AlikeObj env objs.2 objs'.2

theorem both_moveVal [AlikeType T] (alike : AlikePair env objs objs') (same : isTyped srcKey = isTyped dstKey) :
    Both (moveVal T srcKey dstKey objs) (moveVal T srcKey dstKey objs') (AlikePair env) := by
  unfold moveVal
  refine both_bind (both_field alike.1) fun found found' related => ?_
  cases related with
  | none => exact both_ok alike
  | some related =>
    rw [same] at related
    refine both_bind (both_set alike.2 (AlikeType.box related)) fun dst dst' alikeDst => ?_
    exact both_ok ⟨alike.1.delete srcKey, alikeDst⟩

theorem both_moveWithin [AlikeType T] (alike : AlikeObj env d d') (same : isTyped srcKey = isTyped dstKey) :
    Both (moveWithin T d srcKey dstKey) (moveWithin T d' srcKey dstKey) (AlikeObj env) := by
  unfold moveWithin
  refine both_bind (both_field alike) fun found found' related => ?_
  cases related with
  | none => exact both_ok alike
  | some related =>
    rw [same] at related
    refine both_bind (both_set alike (AlikeType.box related)) fun obj obj' alikeObj => ?_
    exact both_ok (alikeObj.delete srcKey)

theorem both_run {move : Move} (alike : AlikePair env objs objs') (same : isTyped move.srcKey = isTyped move.dstKey) :
    Both (move.run objs) (move.run objs') (AlikePair env) := by
  unfold Move.run
  cases move.kind with
  | any => exact both_moveVal alike same
  | bool => exact both_moveVal alike same
  | int => exact both_moveVal alike same
  | string => exact both_moveVal alike same
  | arr => exact both_moveVal alike same
  | obj => exact both_moveVal alike same

/-- Moves that are joined return only if there was no error before. -/
theorem joinMoves_errs {moves : List Move} {errs : List String} {result : Yobj × Yobj}
    (done : joinMoves moves objs errs = .ok result) : errs = [] := by
  induction moves generalizing objs errs with
  | nil =>
    unfold joinMoves at done
    split at done
    · assumption
    · cases done
  | cons move moves ih =>
    unfold joinMoves at done
    split at done
    · exact ih done
    · have empty := ih done
      simp at empty
    · cases done

theorem joinMoves_cons {move : Move} {moves : List Move} {errs : List String} {result : Yobj × Yobj}
    (done : joinMoves (move :: moves) objs errs = .ok result) :
    ∃ next, move.run objs = .ok next ∧ joinMoves moves next errs = .ok result := by
  unfold joinMoves at done
  split at done
  · rename_i next ran
    exact ⟨next, ran, done⟩
  · have empty := joinMoves_errs done
    simp at empty
  · cases done

theorem both_joinMoves {moves : List Move} {errs errs' : List String} (alike : AlikePair env objs objs')
    (same : ∀ move ∈ moves, isTyped move.srcKey = isTyped move.dstKey) :
    Both (joinMoves moves objs errs) (joinMoves moves objs' errs') (AlikePair env) := by
  induction moves generalizing objs objs' with
  | nil =>
    intro a b left right
    unfold joinMoves at left right
    split at left
    · split at right
      · cases left
        cases right
        exact alike
      · cases right
    · cases left
  | cons move moves ih =>
    intro a b left right
    obtain ⟨next, ran, left⟩ := joinMoves_cons left
    obtain ⟨next', ran', right⟩ := joinMoves_cons right
    have alikeNext := both_run alike (same move List.mem_cons_self) next next' ran ran'
    exact ih alikeNext (fun move' mem => same move' (List.mem_cons_of_mem _ mem)) a b left right

/-! ### Objects and arrays within -/

theorem get_update {inner : List (String × YVal)} (doc : d ≠ none) (k : String) :
    (d.update key (some inner)).get k = if k = key then some (.obj (some inner)) else d.get k := by
  cases d with
  | none => exact absurd rfl doc
  | some fields => exact lookup_assign fields key k _

theorem get_updateArr {inner : List YVal} (doc : d ≠ none) (k : String) :
    (d.updateArr key (some inner)).get k = if k = key then some (.arr (some inner)) else d.get k := by
  cases d with
  | none => exact absurd rfl doc
  | some fields => exact lookup_assign fields key k _

theorem ne_none_of_get (found : d.get key = some v) : d ≠ none := by
  rintro rfl
  cases found

/-- An object that was there has been changed. -/
theorem get_update_of_obj {inner inner' : Yobj} (found : d.get key = some (.obj inner))
    (keeps : inner'.isSome = inner.isSome) (k : String) :
    (d.update key inner').get k = if k = key then some (.obj inner') else d.get k := by
  cases inner' with
  | some fields => exact get_update (ne_none_of_get found) k
  | none =>
    rw [Option.isNone_iff_eq_none.mp (Option.isSome_eq_false_iff.mp keeps.symm)] at found
    by_cases same : k = key
    · rw [if_pos same, same]
      exact found
    · rw [if_neg same]
      rfl

/-- An array that was there has been changed. -/
theorem get_updateArr_of_arr {inner inner' : Yarr} (found : d.get key = some (.arr inner))
    (keeps : inner'.isSome = inner.isSome) (k : String) :
    (d.updateArr key inner').get k = if k = key then some (.arr inner') else d.get k := by
  cases inner' with
  | some items => exact get_updateArr (ne_none_of_get found) k
  | none =>
    rw [Option.isNone_iff_eq_none.mp (Option.isSome_eq_false_iff.mp keeps.symm)] at found
    by_cases same : k = key
    · rw [if_pos same, same]
      exact found
    · rw [if_neg same]
      rfl

section Within

variable {inner inner' new new' : Yobj} {items items' newItems newItems' : Yarr}

/-- What is read under a key of both documents is there in both, or a null in both. -/
theorem AlikeObj.both_read {T : Type} [GoType T] {a b : T} (alike : AlikeObj env d d')
    (read : fieldVal T d key = .ok (some a)) (read' : fieldVal T d' key = .ok (some b)) :
    (a = GoType.zero ∧ b = GoType.zero) ∨ ∃ v v', d.get key = some v ∧ d'.get key = some v' ∧
      GoType.cast v = some a ∧ GoType.cast v' = some b := by
  cases found : d.get key with
  | none =>
    rw [fieldVal, found] at read
    cases read
  | some v =>
    obtain ⟨v', found', alikeVals⟩ := alike.get_some found
    by_cases null : v = .null
    · have null' := (alike_goNull alikeVals).mp null
      subst null null'
      rw [fieldVal, found] at read
      rw [fieldVal, found'] at read'
      cases read
      cases read'
      exact .inl ⟨rfl, rfl⟩
    · have notNull' : v' ≠ .null := fun null' => null ((alike_goNull alikeVals).mpr null')
      rw [fieldVal_of_get found null] at read
      rw [fieldVal_of_get found' notNull'] at read'
      obtain ⟨t, casted, same⟩ := readVal_ok read
      obtain ⟨t', casted', same'⟩ := readVal_ok read'
      cases same
      cases same'
      exact .inr ⟨v, v', rfl, found', casted, casted'⟩

theorem eq_none_of_isSome {α : Type} {a : Option α} (same : a.isSome = (none : Option α).isSome) : a = none :=
  Option.isNone_iff_eq_none.mp (Option.isSome_eq_false_iff.mp same)

/-- The objects that were read under a key have been changed. -/
theorem AlikeObj.update (alike : AlikeObj env d d')
    (read : fieldVal Yobj d key = .ok (some inner)) (read' : fieldVal Yobj d' key = .ok (some inner'))
    (keeps : new.isSome = inner.isSome) (keeps' : new'.isSome = inner'.isSome) (related : AlikeObj env new new') :
    AlikeObj env (d.update key new) (d'.update key new') := by
  rcases alike.both_read read read' with ⟨rfl, rfl⟩ | ⟨v, v', found, found', isObj, isObj'⟩
  · rw [eq_none_of_isSome keeps, eq_none_of_isSome keeps']
    exact alike
  · rw [cast_obj.mp isObj] at found
    rw [cast_obj.mp isObj'] at found'
    exact alike.of_get related.alike (get_update_of_obj found keeps) (get_update_of_obj found' keeps')

/-- The arrays that were read under a key have been changed. -/
theorem AlikeObj.updateArr (alike : AlikeObj env d d')
    (read : fieldVal Yarr d key = .ok (some items)) (read' : fieldVal Yarr d' key = .ok (some items'))
    (keeps : newItems.isSome = items.isSome) (keeps' : newItems'.isSome = items'.isSome)
    (related : AlikeArr env newItems newItems') :
    AlikeObj env (d.updateArr key newItems) (d'.updateArr key newItems') := by
  rcases alike.both_read read read' with ⟨rfl, rfl⟩ | ⟨v, v', found, found', isArr, isArr'⟩
  · rw [eq_none_of_isSome keeps, eq_none_of_isSome keeps']
    exact alike
  · rw [cast_arr.mp isArr] at found
    rw [cast_arr.mp isArr'] at found'
    exact alike.of_get related.alike (get_updateArr_of_arr found keeps) (get_updateArr_of_arr found' keeps')

/-- A change that makes no map `nil` and no `nil` map another. -/
def KeepsNil (change : Yobj → Fallible Yobj) : Prop := ∀ inner, Post (change inner) (fun new => new.isSome = inner.isSome)

theorem both_inObject {change : Yobj → Fallible Yobj} (alike : AlikeObj env d d')
    (keeps : KeepsNil change)
    (each : ∀ inner inner', AlikeObj env inner inner' → Both (change inner) (change inner') (AlikeObj env)) :
    Both (inObject d key change) (inObject d' key change) (AlikeObj env) := by
  refine both_present alike rfl rfl fun inner inner' read read' related => ?_
  refine both_bind (R := fun new new' => AlikeObj env new new' ∧ new.isSome = inner.isSome ∧
    new'.isSome = inner'.isSome) ?_ ?_
  · intro new new' changed changed'
    exact ⟨each inner inner' related new new' changed changed', keeps inner new changed,
      keeps inner' new' changed'⟩
  · rintro new new' ⟨alikeNew, same, same'⟩
    exact both_ok (alike.update read read' same same' alikeNew)

end Within

/-- The elements of two arrays are changed one by one. -/
theorem both_changeItems {change change' : Nat → YVal → Fallible YVal} {i : Nat} {items items' : List YVal}
    (alike : List.Forall₂ (Alike env false) items items')
    (each : ∀ i v v', Alike env false v v' → Both (change i v) (change' i v') (Alike env false)) :
    Both (changeItems change i items) (changeItems change' i items') (List.Forall₂ (Alike env false)) := by
  induction alike generalizing i with
  | nil => exact both_ok .nil
  | cons head _ ih =>
    unfold changeItems
    refine both_bind (each i _ _ head) fun item item' alikeItem => ?_
    refine both_bind ih fun items items' alikeItems => ?_
    exact both_ok (.cons alikeItem alikeItems)

theorem both_changeArr {change : Nat → YVal → Fallible YVal} {items items' : Yarr} (alike : AlikeArr env items items')
    (each : ∀ i v v', Alike env false v v' → Both (change i v) (change i v') (Alike env false)) :
    Both (changeArr change items) (changeArr change items') (fun new new' =>
      AlikeArr env new new' ∧ new.isSome = items.isSome ∧ new'.isSome = items'.isSome) := by
  -- a slice that is `nil` stays so, and is written like an empty one
  have asItems (items : Yarr) : ∃ result : Fallible (List YVal),
      changeItems change 0 (items.getD []) = result ∧
        ∀ new, changeArr change items = .ok new → new.isSome = items.isSome ∧ result = .ok (new.getD []) := by
    cases items with
    | none =>
      refine ⟨.ok [], rfl, ?_⟩
      rintro new ⟨⟩
      exact ⟨rfl, rfl⟩
    | some items =>
      refine ⟨_, rfl, fun new done => ?_⟩
      cases changed : changeItems change 0 items with
      | error stop =>
        simp only [changeArr, changed] at done
        cases done
      | ok newItems =>
        simp only [changeArr, changed] at done
        cases done
        exact ⟨rfl, changed⟩
  intro new new' done done'
  obtain ⟨result, ran, spec⟩ := asItems items
  obtain ⟨result', ran', spec'⟩ := asItems items'
  obtain ⟨same, isNew⟩ := spec new done
  obtain ⟨same', isNew'⟩ := spec' new' done'
  exact ⟨both_changeItems alike each _ _ (ran.trans isNew) (ran'.trans isNew'), same, same'⟩

theorem both_atVersion {version : Nat} {migrate : Yobj → Fallible Yobj}
    (each : ∀ d d', AlikeObj env d d' → Both (migrate d) (migrate d') (AlikeObj env)) (alike : AlikeObj env d d') :
    Both (atVersion version migrate d) (atVersion version migrate d') (AlikeObj env) :=
  both_bind (both_set alike (.int _)) each

end Writing

end FirewallCore.Configmigrate
