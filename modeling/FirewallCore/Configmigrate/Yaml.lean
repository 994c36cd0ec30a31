import FirewallCore.Lib.Fallible

/-!
YAML values in memory and how the migrations read and move them
(`configmigrate/yaml.go`).

A value is what an `any` holds. Maps and slices may be `nil` of their type,
which is not the same as an `any` that is `nil`: a migration that takes a null
for an object gets a `nil` map, and writing to it is a panic.
-/

namespace FirewallCore.Configmigrate

open FirewallCore.Lib

/-- The values of an `any`. -/
inductive YVal where
  | null
  | bool (b : Bool)
  | int (n : Int)
  | str (s : String)
  | arr (items : Option (List YVal))
  | obj (fields : Option (List (String × YVal)))
  /-- `timeutil.Duration`, in nanoseconds. -/
  | duration (ns : Int)
  /-- `dnsforward.UpstreamMode`. -/
  | upstreamMode (name : String)
  /-- `[]string`. -/
  | strings (texts : List String)
  /-- A value of another type, with its text: a floating-point number, a time, a map with other keys. -/
  | other (type text : String)

/-- `yarr`. -/
abbrev Yarr := Option (List YVal)

/-- `yobj`. The order of the fields has no meaning. -/
abbrev Yobj := Option (List (String × YVal))

/-- `%T`. -/
def YVal.goType : YVal → String
  | null => "<nil>"
  | bool _ => "bool"
  | int _ => "int"
  | str _ => "string"
  | arr _ => "[]interface \x7b\x7d"
  | obj _ => "map[string]interface \x7b\x7d"
  | duration _ => "timeutil.Duration"
  | upstreamMode _ => "dnsforward.UpstreamMode"
  | strings _ => "[]string"
  | other type _ => type

namespace Yobj

/-- `obj[key]`. -/
def get (obj : Yobj) (key : String) : Option YVal := obj.bind (·.lookup key)

def assign (fields : List (String × YVal)) (key : String) (val : YVal) : List (String × YVal) :=
  (key, val) :: fields.filter (·.1 ≠ key)

/-- `obj[key] = val`. -/
def set (obj : Yobj) (key : String) (val : YVal) : Fallible Yobj :=
  match obj with
  | none => .error .panic
  | some fields => .ok (some (assign fields key val))

/-- `delete(obj, key)`. -/
def delete (obj : Yobj) (key : String) : Yobj := obj.map (·.filter (·.1 ≠ key))

/-- The object under a key has been changed. A `nil` map cannot have been. -/
def update (obj : Yobj) (key : String) (inner : Yobj) : Yobj :=
  match inner with
  | none => obj
  | some fields => obj.map (assign · key (.obj (some fields)))

/-- The elements of the array under a key have been changed. -/
def updateArr (obj : Yobj) (key : String) (inner : Yarr) : Yobj :=
  match inner with
  | none => obj
  | some items => obj.map (assign · key (.arr (some items)))

/-- `len(obj)`. -/
def len (obj : Yobj) : Nat := (obj.getD []).length

end Yobj

/-- The types that are asked for. -/
class GoType (T : Type) where
  zero : T
  cast : YVal → Option T
  box : T → YVal

instance : GoType YVal := ⟨.null, some, id⟩

instance : GoType Bool := ⟨false, fun v => match v with | .bool b => some b | _ => none, .bool⟩

instance : GoType Int := ⟨0, fun v => match v with | .int n => some n | _ => none, .int⟩

instance : GoType String := ⟨"", fun v => match v with | .str s => some s | _ => none, .str⟩

instance : GoType Yarr := ⟨none, fun v => match v with | .arr items => some items | _ => none, .arr⟩

instance : GoType Yobj := ⟨none, fun v => match v with | .obj fields => some fields | _ => none, .obj⟩

section Fields

variable (T : Type) [GoType T]

/-- `fieldVal`: nothing for an absent key, and the zero value for a null. -/
def fieldVal (obj : Yobj) (key : String) : Except String (Option T) :=
  match obj.get key with
  | none => .ok none
  | some .null => .ok (some GoType.zero)
  | some val =>
    match GoType.cast val with
    | none => .error ("unexpected type of " ++ key.quote ++ ": " ++ val.goType)
    | some v => .ok (some v)

/-- `fieldVal` where an error is returned. -/
def field (obj : Yobj) (key : String) : Fallible (Option T) :=
  match fieldVal T obj key with
  | .error err => .error (.error err)
  | .ok v => .ok v

/-- `fieldVal` where an error is dropped. -/
def fieldOpt (obj : Yobj) (key : String) : Option T :=
  match fieldVal T obj key with
  | .error _ => none
  | .ok v => v

/-- `moveVal` between two objects. -/
def moveVal (srcKey dstKey : String) (objs : Yobj × Yobj) : Fallible (Yobj × Yobj) := do
  match ← field T objs.1 srcKey with
  | none => return objs
  | some newVal =>
    let dst ← objs.2.set dstKey (GoType.box newVal)
    return (objs.1.delete srcKey, dst)

/-- `moveSameVal`. -/
def moveSameVal (key : String) (objs : Yobj × Yobj) : Fallible (Yobj × Yobj) := moveVal T key key objs

/-- `moveVal` within an object. -/
def moveWithin (obj : Yobj) (srcKey dstKey : String) : Fallible Yobj := do
  match ← field T obj srcKey with
  | none => return obj
  | some newVal =>
    let obj ← obj.set dstKey (GoType.box newVal)
    return obj.delete srcKey

end Fields

/-- The types of fields that are moved. -/
inductive Kind where
  | any
  | bool
  | int
  | string
  | arr
  | obj
  deriving DecidableEq, Repr

/-- A call of `moveVal`. -/
structure Move where
  kind : Kind
  srcKey : String
  dstKey : String
  deriving DecidableEq, Repr

/-- A call of `moveSameVal`. -/
def Move.same (kind : Kind) (key : String) : Move := ⟨kind, key, key⟩

def Move.run (move : Move) : Yobj × Yobj → Fallible (Yobj × Yobj) :=
  match move.kind with
  | .any => moveVal YVal move.srcKey move.dstKey
  | .bool => moveVal Bool move.srcKey move.dstKey
  | .int => moveVal Int move.srcKey move.dstKey
  | .string => moveVal String move.srcKey move.dstKey
  | .arr => moveVal Yarr move.srcKey move.dstKey
  | .obj => moveVal Yobj move.srcKey move.dstKey

/-- `errors.Join` of moves from one object to another, all of which are tried. -/
def joinMoves : List Move → Yobj × Yobj → List String → Fallible (Yobj × Yobj)
  | [], objs, errs => if errs = [] then .ok objs else .error (.error ("\n".intercalate errs))
  | move :: moves, objs, errs =>
    match move.run objs with
    | .ok objs => joinMoves moves objs errs
    | .error (.error err) => joinMoves moves objs (errs ++ [err])
    | .error .panic => .error .panic

/-- What is done to the object under a key, if it is there. -/
def inObject (obj : Yobj) (key : String) (change : Yobj → Fallible Yobj) : Fallible Yobj := do
  match ← field Yobj obj key with
  | none => return obj
  | some inner =>
    let inner ← change inner
    return obj.update key inner

/-- The elements of an array, each changed in turn. -/
def changeItems (change : Nat → YVal → Fallible YVal) : Nat → List YVal → Fallible (List YVal)
  | _, [] => .ok []
  | i, item :: items => do
    let item ← change i item
    let items ← changeItems change (i + 1) items
    return item :: items

/-- The elements of an array that may be `nil`. -/
def changeArr (change : Nat → YVal → Fallible YVal) (items : Yarr) : Fallible Yarr :=
  match items with
  | none => .ok none
  | some items => do
    let items ← changeItems change 0 items
    return some items

/-! ### Reading and writing -/

section Access

variable {T : Type} [GoType T] {d d' : Yobj} {key k : String} {v : YVal}

theorem lookup_cons_of_ne {name : String} (fields : List (String × YVal)) (other : k ≠ name) :
    ((name, v) :: fields).lookup k = fields.lookup k := by
  rw [List.lookup_cons, beq_false_of_ne other]

theorem lookup_filter_ne (fields : List (String × YVal)) (key k : String) :
    (fields.filter (·.1 ≠ key)).lookup k = if k = key then none else fields.lookup k := by
  induction fields with
  | nil => simp
  | cons field fields ih =>
    obtain ⟨name, val⟩ := field
    by_cases removed : name = key
    · rw [List.filter_cons_of_neg (by simpa using removed), ih]
      by_cases same : k = key
      · rw [if_pos same, if_pos same]
      · rw [if_neg same, if_neg same, lookup_cons_of_ne fields (removed ▸ same)]
    · rw [List.filter_cons_of_pos (by simpa using removed)]
      by_cases same : k = name
      · subst same
        simp [removed]
      · rw [lookup_cons_of_ne _ same, lookup_cons_of_ne _ same, ih]

theorem lookup_assign (fields : List (String × YVal)) (key k : String) (v : YVal) :
    (Yobj.assign fields key v).lookup k = if k = key then some v else fields.lookup k := by
  by_cases same : k = key
  · subst same
    simp [Yobj.assign]
  · rw [Yobj.assign, lookup_cons_of_ne _ same, lookup_filter_ne, if_neg same, if_neg same]

theorem get_set (done : d.set key v = .ok d') (k : String) :
    d'.get k = if k = key then some v else d.get k := by
  cases d with
  | none => cases done
  | some fields =>
    cases done
    exact lookup_assign fields key k v

theorem get_delete (d : Yobj) (key k : String) :
    (d.delete key).get k = if k = key then none else d.get k := by
  cases d with
  | none => simp [Yobj.delete, Yobj.get]
  | some fields => exact lookup_filter_ne fields key k

theorem fieldVal_congr (same : d'.get key = d.get key) : fieldVal T d' key = fieldVal T d key := by
  rw [fieldVal, fieldVal, same]

theorem panics_set : Panics (d.set key v) ↔ d = none := by
  cases d with
  | none => exact iff_of_true rfl rfl
  | some fields => exact iff_of_false not_panics_ok (by simp)

theorem not_panics_field : ¬Panics (field T d key) := by
  unfold field
  split
  · exact not_panics_error
  · exact not_panics_ok

theorem field_ok {v : Option T} : field T d key = .ok v ↔ fieldVal T d key = .ok v := by
  unfold field
  split
  · rename_i err
    rw [err]
    exact iff_of_false (by simp) (by simp)
  · rename_i found
    rw [found]
    constructor
    · intro same
      exact congrArg Except.ok (Except.ok.inj same)
    · intro same
      exact congrArg Except.ok (Except.ok.inj same)

theorem fieldOpt_eq_some {v : T} (found : fieldOpt T d key = some v) : fieldVal T d key = .ok (some v) := by
  unfold fieldOpt at found
  split at found
  · cases found
  · rename_i read
    rw [read, found]

end Access

end FirewallCore.Configmigrate
