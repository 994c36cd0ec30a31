import Mathlib.Data.List.Basic

/-!
Caches that may drop entries.

To set an entry can cost any other, or can fail. A read gives what was set last
or nothing, but may change which entries go next. `lru` is a cache of bounded
size that drops the entries that were used least recently.
-/

namespace FirewallCore.Lib

/-- A cache of values by their keys. -/
structure Cache (κ υ : Type) where
  State : Type
  empty : State
  get : State → κ → Option υ × State
  set : State → κ → υ → State
  get_empty : ∀ k, (get empty k).1 = none
  get_get : ∀ s k other, (get (get s k).2 other).1 = (get s other).1
  get_set : ∀ s k v other, (get (set s k v) other).1 = none ∨
    (get (set s k v) other).1 = (get s other).1 ∨
    other = k ∧ (get (set s k v) other).1 = some v

namespace Cache

variable {κ υ : Type}

/-! ### Sound contents -/

section Sound

variable {c : Cache κ υ} {R : κ → υ → Prop} {s : c.State} {k : κ} {v : υ}

/-- Every entry is in the relation. -/
def Sound (c : Cache κ υ) (R : κ → υ → Prop) (s : c.State) : Prop :=
  ∀ k v, (c.get s k).1 = some v → R k v

theorem Sound.empty (c : Cache κ υ) (R : κ → υ → Prop) : c.Sound R c.empty := by
  intro k v found
  rw [c.get_empty] at found
  cases found

theorem Sound.get (sound : c.Sound R s) (k : κ) : c.Sound R (c.get s k).2 := by
  intro other v found
  rw [c.get_get] at found
  exact sound other v found

theorem Sound.set (sound : c.Sound R s) (right : R k v) : c.Sound R (c.set s k v) := by
  intro other w found
  rcases c.get_set s k v other with gone | same | ⟨rfl, set⟩
  · rw [gone] at found
    cases found
  · exact sound other w (same ▸ found)
  · rw [set] at found
    cases found
    exact right

end Sound

/-! ### No cache -/

/-- The cache that keeps nothing. -/
def none (κ υ : Type) : Cache κ υ where
  State := Unit
  empty := ()
  get := fun _ _ => (.none, ())
  set := fun _ _ _ => ()
  get_empty := fun _ => rfl
  get_get := fun _ _ _ => rfl
  get_set := fun _ _ _ _ => .inl rfl

/-! ### The least recently used go first -/

section Lru

variable [DecidableEq κ]

/-- The first entries, as many as there is room for. -/
def keep (size : κ → υ → Nat) : Nat → List (κ × υ) → List (κ × υ)
  | _, [] => []
  | room, e :: rest => if size e.1 e.2 ≤ room then e :: keep size (room - size e.1 e.2) rest else []

/-- The entry of a key. -/
def find (entries : List (κ × υ)) (k : κ) : Option υ := (entries.find? (·.1 = k)).map (·.2)

/-- To the front with an entry. -/
def touch (entries : List (κ × υ)) (k : κ) (v : υ) : List (κ × υ) :=
  (k, v) :: entries.filter (·.1 ≠ k)

omit [DecidableEq κ] in
theorem keep_isPrefix (size : κ → υ → Nat) (room : Nat) (entries : List (κ × υ)) :
    keep size room entries <+: entries := by
  induction entries generalizing room with
  | nil => exact List.prefix_rfl
  | cons e rest ih =>
    unfold keep
    split
    · exact List.cons_prefix_cons.mpr ⟨rfl, ih _⟩
    · exact List.nil_prefix

theorem find_touch_self (entries : List (κ × υ)) (k : κ) (v : υ) :
    find (touch entries k v) k = some v := by
  simp [find, touch]

theorem find_touch_of_ne (entries : List (κ × υ)) {k other : κ} (v : υ) (apart : other ≠ k) :
    find (touch entries k v) other = find entries other := by
  unfold find touch
  rw [List.find?_cons_of_neg (by simpa using apart.symm), List.find?_filter]
  congr 2
  funext e
  by_cases here : e.1 = other
  · simp [here, apart]
  · simp [here]

/-- The front of a list has the same entry for a key, or none. -/
theorem find_of_prefix {entries front : List (κ × υ)} (isPrefix : front <+: entries) (k : κ) :
    find front k = .none ∨ find front k = find entries k := by
  obtain ⟨rest, rfl⟩ := isPrefix
  unfold find
  rw [List.find?_append]
  cases front.find? (·.1 = k) with
  | none => exact .inl rfl
  | some e => exact .inr rfl

theorem lru_get_get (entries : List (κ × υ)) (k other : κ) :
    find (match find entries k with | .none => entries | some v => touch entries k v) other =
      find entries other := by
  cases found : find entries k with
  | none => rfl
  | some v =>
    by_cases same : other = k
    · subst same
      exact (find_touch_self entries other v).trans found.symm
    · exact find_touch_of_ne entries v same

/-- The cache whose entries have at most `maxSize` together; most recently used first. -/
def lru (size : κ → υ → Nat) (maxSize : Nat) : Cache κ υ where
  State := List (κ × υ)
  empty := []
  get := fun s k => (find s k, match find s k with | .none => s | some v => touch s k v)
  set := fun s k v => if size k v ≤ maxSize then touch (keep size (maxSize - size k v) s) k v else s
  get_empty := fun _ => rfl
  get_get := lru_get_get
  get_set := by
    intro s k v other
    dsimp only
    split
    · by_cases same : other = k
      · subst same
        exact .inr (.inr ⟨rfl, find_touch_self _ _ _⟩)
      · rw [find_touch_of_ne _ _ same]
        rcases find_of_prefix (keep_isPrefix size (maxSize - size k v) s) other with gone | kept
        · exact .inl gone
        · exact .inr (.inl kept)
    · exact .inr (.inl rfl)

end Lru

end Cache

end FirewallCore.Lib
