import Mathlib.Logic.Function.Basic
import Mathlib.Data.List.Basic

/-!
A registry: members, each under a key of its own, and a directory that leads
from every identifier to the key of the member it belongs to. An identifier
belongs to one member at most.

`Coherent` says that the directory holds the identifiers of the stored members
and nothing else. Entering a member whose identifiers are free and removing a
stored one keep it. `setAll` and `delAll` are the loops by which a directory
that is spread over several maps is changed.
-/

namespace FirewallCore.Lib

/-! ### Loops over the keys of a map -/

section Loops

variable {K V : Type} [DecidableEq K]

/-- `for _, k := range keys { m[k] = v }`. -/
def setAll (m : K → Option V) (keys : List K) (v : V) : K → Option V :=
  keys.foldl (fun m k => Function.update m k (some v)) m

/-- `for _, k := range keys { delete(m, k) }`. -/
def delAll (m : K → Option V) (keys : List K) : K → Option V :=
  keys.foldl (fun m k => Function.update m k none) m

theorem setAll_apply (m : K → Option V) (keys : List K) (v : V) (k : K) :
    setAll m keys v k = if k ∈ keys then some v else m k := by
  unfold setAll
  induction keys generalizing m with
  | nil => simp
  | cons x keys ih =>
    rw [List.foldl_cons, ih]
    by_cases later : k ∈ keys
    · simp [later]
    · by_cases here : k = x
      · simp [here]
      · simp [later, here]

theorem delAll_apply (m : K → Option V) (keys : List K) (k : K) :
    delAll m keys k = if k ∈ keys then none else m k := by
  unfold delAll
  induction keys generalizing m with
  | nil => simp
  | cons x keys ih =>
    rw [List.foldl_cons, ih]
    by_cases later : k ∈ keys
    · simp [later]
    · by_cases here : k = x
      · simp [here]
      · simp [later, here]

end Loops

/-! ### Registries -/

/-- Members under their keys, and the directory of identifiers. -/
structure Registry (Id Key Member : Type) where
  owner : Id → Option Key
  members : Key → Option Member

namespace Registry

variable {Id Key Member : Type} {ids : Member → List Id} {key : Member → Key}
  {r : Registry Id Key Member} {m : Member}

def empty : Registry Id Key Member := ⟨fun _ => none, fun _ => none⟩

/-- Every member is stored under its own key, and an identifier leads to a key
exactly when the member there has it. -/
structure Coherent (ids : Member → List Id) (key : Member → Key)
    (r : Registry Id Key Member) : Prop where
  keyed : ∀ u m, r.members u = some m → key m = u
  exact : ∀ i u, r.owner i = some u ↔ ∃ m, r.members u = some m ∧ i ∈ ids m

theorem Coherent.empty : Coherent ids key (empty : Registry Id Key Member) := by
  constructor
  · intro u m stored
    cases stored
  · intro i u
    simp [Registry.empty]

/-- No identifier belongs to two stored members. -/
theorem Coherent.unshared (coherent : Coherent ids key r) {u v : Key} {m n : Member} {i : Id}
    (atU : r.members u = some m) (atV : r.members v = some n) (hm : i ∈ ids m) (hn : i ∈ ids n) :
    u = v := by
  have first := (coherent.exact i u).mpr ⟨m, atU, hm⟩
  have second := (coherent.exact i v).mpr ⟨n, atV, hn⟩
  rw [first] at second
  exact Option.some.inj second

variable [DecidableEq Id] [DecidableEq Key]

/-- Enters a member under its key and its identifiers. -/
def insert (ids : Member → List Id) (key : Member → Key) (r : Registry Id Key Member)
    (m : Member) : Registry Id Key Member :=
  ⟨fun i => if i ∈ ids m then some (key m) else r.owner i,
    Function.update r.members (key m) (some m)⟩

/-- Removes a member with its identifiers. -/
def erase (ids : Member → List Id) (key : Member → Key) (r : Registry Id Key Member)
    (m : Member) : Registry Id Key Member :=
  ⟨fun i => if i ∈ ids m then none else r.owner i, Function.update r.members (key m) none⟩

theorem members_insert (u : Key) :
    (r.insert ids key m).members u = if u = key m then some m else r.members u :=
  Function.update_apply ..

theorem members_erase (u : Key) :
    (r.erase ids key m).members u = if u = key m then none else r.members u :=
  Function.update_apply ..

theorem owner_insert (i : Id) :
    (r.insert ids key m).owner i = if i ∈ ids m then some (key m) else r.owner i := rfl

theorem owner_erase (i : Id) :
    (r.erase ids key m).owner i = if i ∈ ids m then none else r.owner i := rfl

/-- Entering a member under a free key, with identifiers that are free. -/
theorem Coherent.insert (coherent : Coherent ids key r) (fresh : r.members (key m) = none)
    (free : ∀ i ∈ ids m, r.owner i = none) : Coherent ids key (r.insert ids key m) := by
  constructor
  · intro u n stored
    rw [members_insert] at stored
    split at stored
    · rename_i here
      cases stored
      exact here.symm
    · exact coherent.keyed u n stored
  · intro i u
    rw [owner_insert]
    simp only [members_insert]
    constructor
    · intro found
      split at found
      · rename_i his
        cases found
        exact ⟨m, if_pos rfl, his⟩
      · obtain ⟨n, stored, hers⟩ := (coherent.exact i u).mp found
        refine ⟨n, ?_, hers⟩
        rw [if_neg]
        · exact stored
        · rintro rfl
          rw [fresh] at stored
          cases stored
    · rintro ⟨n, stored, hers⟩
      split at stored
      · rename_i here
        cases stored
        rw [if_pos hers, here]
      · have known := (coherent.exact i u).mpr ⟨n, stored, hers⟩
        rw [if_neg]
        · exact known
        · intro his
          rw [free i his] at known
          cases known

/-- Removing a stored member. -/
theorem Coherent.erase (coherent : Coherent ids key r) (stored : r.members (key m) = some m) :
    Coherent ids key (r.erase ids key m) := by
  constructor
  · intro u n left
    rw [members_erase] at left
    split at left
    · cases left
    · exact coherent.keyed u n left
  · intro i u
    rw [owner_erase]
    simp only [members_erase]
    constructor
    · intro found
      split at found
      · cases found
      · rename_i notHis
        obtain ⟨n, left, hers⟩ := (coherent.exact i u).mp found
        refine ⟨n, ?_, hers⟩
        rw [if_neg]
        · exact left
        · rintro rfl
          rw [stored] at left
          cases left
          exact notHis hers
    · rintro ⟨n, left, hers⟩
      split at left
      · cases left
      · rename_i elsewhere
        rw [if_neg]
        · exact (coherent.exact i u).mpr ⟨n, left, hers⟩
        · intro his
          exact elsewhere (coherent.unshared left stored hers his)

/-- A member may take the place of a stored one when each of its identifiers, and its
key, is free or belongs to the stored one. -/
theorem Coherent.exchange {old : Member} (coherent : Coherent ids key r)
    (stored : r.members (key old) = some old)
    (fresh : ∀ n, r.members (key m) = some n → key m = key old)
    (free : ∀ i ∈ ids m, ∀ u, r.owner i = some u → u = key old) :
    Coherent ids key ((r.erase ids key old).insert ids key m) := by
  refine (coherent.erase stored).insert ?_ ?_
  · rw [members_erase]
    split
    · rfl
    · rename_i other
      cases there : r.members (key m) with
      | none => rfl
      | some n => exact absurd (fresh n there) other
  · intro i his
    rw [owner_erase]
    by_cases hers : i ∈ ids old
    · rw [if_pos hers]
    · rw [if_neg hers]
      cases known : r.owner i with
      | none => rfl
      | some u =>
        obtain ⟨n, there, hasIt⟩ := (coherent.exact i u).mp known
        rw [free i his u known, stored] at there
        cases there
        exact absurd hasIt hers

/-- The exchange under one key. -/
theorem Coherent.replace {old : Member} (coherent : Coherent ids key r)
    (stored : r.members (key m) = some old)
    (free : ∀ i ∈ ids m, ∀ u, r.owner i = some u → u = key m) :
    Coherent ids key ((r.erase ids key old).insert ids key m) := by
  have sameKey : key old = key m := coherent.keyed _ old stored
  rw [← sameKey] at stored free
  exact coherent.exchange stored (fun _ _ => sameKey.symm) free

end Registry

end FirewallCore.Lib
