import FirewallCore.Lib.Run
import FirewallCore.Stats.StatsUnit
import Mathlib.Algebra.BigOperators.Group.Finset.Basic
import Mathlib.Algebra.BigOperators.Group.Finset.Piecewise
import Mathlib.Algebra.BigOperators.Group.List.Basic

/-!
The statistics context (`stats/stats.go`): the unit of the current hour in
memory, the units of earlier hours in a database, and what a restart makes of
them.

The database maps unit identifiers to stored units. Each call runs under the
context's locks and is one step. Beside the context the state keeps the list of
counted entries, each with the unit it was counted in.
-/

namespace FirewallCore.Stats

open FirewallCore.Lib

/-- The buckets of the database by the identifier in their names. -/
abbrev DB := BitVec 32 → Option UnitDB

/-- The settings: the limit in whole hours, as `validateIvl` lets it pass, and whether
entries are counted. -/
structure Config where
  limit : BitVec 32
  enabled : Bool
  positive : 1 ≤ limit.toNat
  yearAtMost : limit.toNat ≤ 365 * 24

/-- The database file, the context and whether it is open. `counted` is what has been counted. -/
structure StatsCtx where
  file : DB
  running : Bool
  curr : Option StatsUnit
  counted : List (BitVec 32 × Nat)

inductive Event where
  | new (id : BitVec 32)
  | update (e : Entry)
  | flush (id : BitVec 32)
  | close

/-- `deleteOldUnits`: buckets are walked in the order of their names, up to the first
identifier. -/
def deleteOldUnits (file : DB) (firstID : BitVec 32) : DB :=
  fun id => if id < firstID then none else file id

/-- `flushUnitToDB`. -/
def flushUnitToDB (file : DB) (u : StatsUnit) : DB := Function.update file u.id (some u.serialize)

namespace StatsCtx

/-- No database file and no context yet. -/
def start : StatsCtx := ⟨fun _ => none, false, none, []⟩

/-- `New`. The database file is locked while another context is open. -/
def new (conf : Config) (s : StatsCtx) (id : BitVec 32) : Option StatsCtx :=
  if s.running then none
  else
    let file := deleteOldUnits s.file (id - conf.limit - 1)
    some { s with file := file, running := true, curr := some ((newUnit id).deserialize (file id)) }

/-- `Close`. -/
def close (s : StatsCtx) : StatsCtx :=
  match s.running, s.curr with
  | true, some u => { s with file := flushUnitToDB s.file u, running := false }
  | _, _ => s

/-- `Update`; `none` is the panic of a negative result. -/
def update (conf : Config) (s : StatsCtx) (e : Entry) : Option StatsCtx :=
  match conf.enabled, e.validate, s.curr with
  | true, .ok _, some u =>
    (u.add e).map fun u' =>
      { s with curr := some u', counted := s.counted ++ [(u.id, e.result.toNat)] }
  | _, _, _ => some s

/-- `flush` and `flushDB`. -/
def flush (conf : Config) (s : StatsCtx) (id : BitVec 32) : StatsCtx :=
  match s.curr with
  | none => s
  | some u =>
    if u.id = id || !s.running then s
    else
      { s with
        curr := some (newUnit id)
        file := Function.update (flushUnitToDB s.file u) (id - conf.limit) none }

/-- One call. -/
def step (conf : Config) (s : StatsCtx) : Event → Option (StatsCtx × Unit)
  | .new id => (s.new conf id).map (·, ())
  | .update e => (s.update conf e).map (·, ())
  | .flush id => some (s.flush conf id, ())
  | .close => some (s.close, ())

/-- The loop of `loadUnits`. -/
def loadLoop (file : DB) (curID i : BitVec 32) : List UnitDB :=
  if i = curID then [] else (file i).getD emptyUnitDB :: loadLoop file curID (i + 1)
termination_by (curID - i).toNat
decreasing_by bv_omega

/-- `loadUnits` of a context that has a current unit; the outer `none` is its panic, the inner
one says that the database is closed. -/
def loadUnits (s : StatsCtx) (u : StatsUnit) (limit : BitVec 32) : Option (Option (List UnitDB)) :=
  if s.running then
    let units := loadLoop s.file u.id (u.id - limit + 1) ++ [u.serialize]
    if units.length = limit.toNat then some (some units) else none
  else some none

/-- `getData` for the limit of the settings. -/
def getData (conf : Config) (s : StatsCtx) (u : StatsUnit) : Option (Option StatsResp) :=
  (s.loadUnits u conf.limit).map fun units => units.map dataFromUnits

/-! ### What the statistics are for -/

/-- The entries counted in the last hours, up to the current one. -/
def inWindow (hours : Nat) (curID : BitVec 32) (counted : List (BitVec 32 × Nat)) :
    List (BitVec 32 × Nat) :=
  counted.filter fun c => c.1.toNat ≤ curID.toNat ∧ curID.toNat < c.1.toNat + hours

/-- What is known of an hour: the current unit, or what is stored. -/
def unitOf (s : StatsCtx) (u : StatsUnit) (id : BitVec 32) : UnitDB :=
  if id = u.id then u.serialize else (s.file id).getD emptyUnitDB

/-- The hours before one, as far as identifiers go, and that one. -/
def hoursUpTo (limit curID : BitVec 32) : List (BitVec 32) :=
  (List.range limit.toNat).map fun i => curID - limit + 1 + BitVec.ofNat 32 i

/-- The totals reported are those of the entries counted in the window. -/
def Conserved (conf : Config) (s : StatsCtx) : Prop :=
  ∀ u, s.curr = some u → s.running = true → ∃ units,
    s.loadUnits u conf.limit = some (some units) ∧
      s.getData conf u = some (some (dataFromUnits units)) ∧
      (dataFromUnits units).numDNSQueries = (inWindow conf.limit.toNat u.id s.counted).length ∧
      (∀ r, sumResult units r = (inWindow conf.limit.toNat u.id s.counted).countP (·.2 = r.val)) ∧
      ((List.finRange resultLast).map (sumResult units)).sum = (dataFromUnits units).numDNSQueries

/-- Unit identifiers do not decrease. -/
def Ordered (s : StatsCtx) : Event → Prop
  | .new id => ∀ u, s.curr = some u → u.id ≤ id
  | .flush id => ∀ u, s.curr = some u → u.id ≤ id
  | _ => True

instance (s : StatsCtx) (event : Event) : Decidable (Ordered s event) :=
  match event with
  | .new id | .flush id =>
    decidable_of_iff (s.curr.all (·.id ≤ id) = true) (by simp [Ordered, Option.all_eq_true])
  | .update _ | .close => isTrue trivial

/-- A context is opened when identifiers are beyond the limit or the window is empty, and valid
entries come while it is open. -/
def StatsOp (conf : Config) (s : StatsCtx) : Event → Prop
  | .new id => conf.limit.toNat < id.toNat ∨ inWindow conf.limit.toNat id s.counted = []
  | .update e => conf.enabled = true → e.validate.isOk = true → s.running = true
  | _ => True

instance (conf : Config) (s : StatsCtx) (event : Event) : Decidable (StatsOp conf s event) :=
  match event with
  | .new _ => inferInstanceAs (Decidable (_ ∨ _))
  | .update _ => inferInstanceAs (Decidable (_ → _))
  | .flush _ | .close => isTrue trivial

/-! ### Loading units -/

section Load

variable {s : StatsCtx} {u : StatsUnit} {limit : BitVec 32}

theorem loadLoop_eq (file : DB) (curID : BitVec 32) (n : Nat) (small : n < 2 ^ 32) :
    loadLoop file curID (curID - BitVec.ofNat 32 n) =
      (List.range n).map fun i =>
        (file (curID - BitVec.ofNat 32 n + BitVec.ofNat 32 i)).getD emptyUnitDB := by
  induction n with
  | zero =>
    rw [loadLoop, if_pos (by simp)]
    rfl
  | succ n ih =>
    have apart : curID - BitVec.ofNat 32 (n + 1) ≠ curID := by bv_omega
    have next : curID - BitVec.ofNat 32 (n + 1) + 1 = curID - BitVec.ofNat 32 n := by bv_omega
    rw [loadLoop, if_neg apart, next, ih (by omega), List.range_succ_eq_map, List.map_cons,
      List.map_map]
    congr 1
    · simp
    · apply List.map_congr_left
      intro i _
      have same : curID - BitVec.ofNat 32 n + BitVec.ofNat 32 i =
          curID - BitVec.ofNat 32 (n + 1) + BitVec.ofNat 32 (i + 1) := by bv_omega
      simp only [Function.comp, same]

theorem hoursUpTo_eq {n : Nat} (count : limit.toNat = n + 1) (curID : BitVec 32) :
    hoursUpTo limit curID =
      (List.range n).map (fun i => curID - BitVec.ofNat 32 n + BitVec.ofNat 32 i) ++ [curID] := by
  have first : curID - limit + 1 = curID - BitVec.ofNat 32 n := by bv_omega
  rw [hoursUpTo, count, List.range_succ, List.map_append, first, List.map_singleton]
  congr 2
  bv_omega

/-- Exactly `limit` units with consecutive identifiers are loaded, the last of them the current
one. -/
theorem loadUnits_eq (running : s.running = true) (u : StatsUnit) (positive : 1 ≤ limit.toNat) :
    s.loadUnits u limit = some (some ((hoursUpTo limit u.id).map (s.unitOf u))) := by
  obtain ⟨n, count⟩ : ∃ n, limit.toNat = n + 1 := ⟨limit.toNat - 1, by omega⟩
  have first : u.id - limit + 1 = u.id - BitVec.ofNat 32 n := by bv_omega
  have units : loadLoop s.file u.id (u.id - limit + 1) ++ [u.serialize] =
      (hoursUpTo limit u.id).map (s.unitOf u) := by
    rw [hoursUpTo_eq count, first, loadLoop_eq _ _ n (by omega), List.map_append, List.map_map,
      List.map_singleton, unitOf, if_pos rfl]
    congr 1
    apply List.map_congr_left
    intro i member
    have before := List.mem_range.mp member
    have apart : u.id - BitVec.ofNat 32 n + BitVec.ofNat 32 i ≠ u.id := by bv_omega
    simp only [Function.comp, unitOf, if_neg apart]
  have length : ((hoursUpTo limit u.id).map (s.unitOf u)).length = limit.toNat := by
    simp [hoursUpTo]
  simp only [loadUnits, running, if_true, units, length]

theorem mem_hoursUpTo {curID id : BitVec 32} (positive : 1 ≤ limit.toNat) :
    id ∈ hoursUpTo limit curID ↔ (curID - id).toNat < limit.toNat := by
  simp only [hoursUpTo, List.mem_map, List.mem_range]
  constructor
  · rintro ⟨i, less, rfl⟩
    bv_omega
  · intro near
    exact ⟨limit.toNat - 1 - (curID - id).toNat, by omega, by bv_omega⟩

theorem nodup_hoursUpTo (limit curID : BitVec 32) : (hoursUpTo limit curID).Nodup := by
  apply List.Nodup.map_on _ List.nodup_range
  intro i hi j hj same
  rw [List.mem_range] at hi hj
  bv_omega

end Load

/-! ### What is known of each hour -/

/-- A unit holds what was counted under its identifier. -/
structure Tally (counted : List (BitVec 32 × Nat)) (id : BitVec 32) (udb : UnitDB) : Prop where
  total : udb.nTotal = counted.countP (·.1 = id)
  result : ∀ r, udb.nResult r = counted.count (id, r.val)

/-- What will be known of an hour when the context is open. -/
def known (s : StatsCtx) (u : StatsUnit) (id : BitVec 32) : UnitDB :=
  if s.running then s.unitOf u id else (s.file id).getD emptyUnitDB

/-- What holds between calls. -/
structure Inv (conf : Config) (s : StatsCtx) : Prop where
  results : ∀ c ∈ s.counted, c.2 < resultLast
  empty : s.curr = none → s.file = (fun _ => none) ∧ s.counted = [] ∧ s.running = false
  later : ∀ u, s.curr = some u → ∀ id, u.id < id → s.file id = none ∧ ∀ c ∈ s.counted, c.1 ≠ id
  tallied : ∀ u, s.curr = some u → ∀ id, (u.id - id).toNat < conf.limit.toNat →
    Tally s.counted id (s.known u id)

section Invariant

variable {conf : Config} {s s' : StatsCtx} {u : StatsUnit} {id : BitVec 32}
  {counted : List (BitVec 32 × Nat)}

theorem tally_empty (none : ∀ c ∈ counted, c.1 ≠ id) : Tally counted id emptyUnitDB where
  total := by
    symm
    rw [emptyUnitDB, List.countP_eq_zero]
    simpa using none
  result := by
    intro r
    symm
    exact List.count_eq_zero_of_not_mem fun member => none _ member rfl

/-- Only the two counters matter. -/
theorem Tally.congr {udb udb' : UnitDB} (tally : Tally counted id udb) (total : udb'.nTotal = udb.nTotal)
    (result : udb'.nResult = udb.nResult) : Tally counted id udb' where
  total := total.trans tally.total
  result := by
    intro r
    rw [result]
    exact tally.result r

theorem deserialize_tally {udb : Option UnitDB} (tally : Tally counted id (udb.getD emptyUnitDB)) :
    Tally counted id ((newUnit id).deserialize udb).serialize := by
  cases udb with
  | none => exact tally.congr rfl rfl
  | some udb => exact tally.congr rfl rfl

theorem deserialize_id (id : BitVec 32) (udb : Option UnitDB) :
    ((newUnit id).deserialize udb).id = id := by
  cases udb <;> rfl

/-- A stored unit is what was known of its hour. -/
theorem flushUnitToDB_getD (s : StatsCtx) (u : StatsUnit) (id : BitVec 32) :
    (flushUnitToDB s.file u id).getD emptyUnitDB = s.unitOf u id := by
  rw [flushUnitToDB, Function.update_apply, unitOf]
  split <;> rfl

theorem flushUnitToDB_of_lt {file : DB} (after : u.id < id) : flushUnitToDB file u id = file id :=
  Function.update_of_ne (by bv_omega) _ _

theorem inv_start : Inv conf start where
  results := by simp [start]
  empty := fun _ => ⟨rfl, rfl, rfl⟩
  later := by simp [start]
  tallied := by simp [start]

/-- What is stored of an hour that is not later than the current one and in the window. -/
theorem Inv.stored (inv : Inv conf s) (closed : s.running = false) (curr : s.curr = some u)
    (near : (u.id - id).toNat < conf.limit.toNat) : Tally s.counted id ((s.file id).getD emptyUnitDB) := by
  have tally := inv.tallied u curr id near
  rwa [known, if_neg (by simp [closed])] at tally

theorem not_mem_of_inWindow {hours : Nat} {curID : BitVec 32}
    (none : inWindow hours curID counted = []) (before : id.toNat ≤ curID.toNat)
    (near : curID.toNat < id.toNat + hours) : ∀ c ∈ counted, c.1 ≠ id := by
  rintro c member rfl
  have inside : c ∈ inWindow hours curID counted :=
    List.mem_filter.mpr ⟨member, by simpa using ⟨before, near⟩⟩
  rw [none] at inside
  exact absurd inside List.not_mem_nil

/-- What `New` keeps of the stored hours. -/
theorem Inv.kept (inv : Inv conf s) (closed : s.running = false) (curr : s.curr = some u)
    {newID : BitVec 32} (ordered : u.id ≤ newID)
    (safe : conf.limit.toNat < newID.toNat ∨ inWindow conf.limit.toNat newID s.counted = [])
    (near : (newID - id).toNat < conf.limit.toNat) :
    Tally s.counted id ((deleteOldUnits s.file (newID - conf.limit - 1) id).getD emptyUnitDB) := by
  have bound := conf.yearAtMost
  unfold deleteOldUnits
  by_cases later : u.id < id
  · obtain ⟨missing, none⟩ := inv.later u curr id later
    rw [missing, ite_self]
    exact tally_empty none
  · rcases safe with beyond | none
    · rw [if_neg (by bv_omega)]
      exact inv.stored closed curr (by bv_omega)
    · by_cases beyond : conf.limit.toNat < newID.toNat
      · rw [if_neg (by bv_omega)]
        exact inv.stored closed curr (by bv_omega)
      · rw [if_pos (by bv_omega)]
        exact tally_empty (not_mem_of_inWindow none (by bv_omega) (by bv_omega))

theorem Inv.new (inv : Inv conf s) (ordered : ∀ u, s.curr = some u → u.id ≤ id)
    (safe : conf.limit.toNat < id.toNat ∨ inWindow conf.limit.toNat id s.counted = [])
    (opened : s.new conf id = some s') : Inv conf s' := by
  unfold StatsCtx.new at opened
  split at opened
  · exact absurd opened (by simp)
  rename_i notRunning
  have closed : s.running = false := by simpa using notRunning
  cases opened
  constructor
  case results => exact inv.results
  case empty => simp
  case later =>
    rintro _ ⟨⟩ id' after
    rw [deserialize_id] at after
    cases curr : s.curr with
    | none =>
      obtain ⟨file, counted, -⟩ := inv.empty curr
      simp [deleteOldUnits, file, counted]
    | some u =>
      have before := ordered u curr
      obtain ⟨missing, none⟩ := inv.later u curr id' (by bv_omega)
      exact ⟨by simp [deleteOldUnits, missing], none⟩
  case tallied =>
    rintro _ ⟨⟩ id' near
    rw [deserialize_id] at near
    have stored : ∀ i, (id - i).toNat < conf.limit.toNat → Tally s.counted i
        ((deleteOldUnits s.file (id - conf.limit - 1) i).getD emptyUnitDB) := by
      intro i near
      cases curr : s.curr with
      | none =>
        obtain ⟨file, counted, -⟩ := inv.empty curr
        simp only [deleteOldUnits, file, ite_self, Option.getD_none, counted]
        exact tally_empty (by simp)
      | some u => exact inv.kept closed curr (ordered u curr) safe near
    simp only [known, if_true, unitOf, deserialize_id]
    split
    · rename_i same
      subst same
      exact deserialize_tally (stored id' near)
    · exact stored id' near

theorem Inv.close (inv : Inv conf s) : Inv conf s.close := by
  unfold StatsCtx.close
  split
  · rename_i u running curr
    constructor
    case results => exact inv.results
    case empty => simp [curr]
    case later =>
      intro u' curr' id after
      have same : u' = u := by simpa [curr] using curr'.symm
      subst same
      obtain ⟨missing, none⟩ := inv.later u' curr id after
      exact ⟨(flushUnitToDB_of_lt after).trans missing, none⟩
    case tallied =>
      intro u' curr' id near
      have same : u' = u := by simpa [curr] using curr'.symm
      subst same
      have tally := inv.tallied u' curr id near
      rw [known, if_pos running, ← flushUnitToDB_getD] at tally
      exact tally
  · exact inv

theorem Inv.flush (inv : Inv conf s) (ordered : ∀ u, s.curr = some u → u.id ≤ id) :
    Inv conf (s.flush conf id) := by
  unfold StatsCtx.flush
  split
  · exact inv
  rename_i u curr
  split
  · exact inv
  rename_i due
  simp only [Bool.or_eq_true, decide_eq_true_eq, Bool.not_eq_true', not_or, Bool.not_eq_false] at due
  obtain ⟨apart, running⟩ := due
  have before := ordered u curr
  have bound := conf.yearAtMost
  have later : ∀ id', id < id' → flushUnitToDB s.file u id' = none ∧ ∀ c ∈ s.counted, c.1 ≠ id' := by
    intro id' after
    obtain ⟨missing, none⟩ := inv.later u curr id' (by bv_omega)
    exact ⟨(flushUnitToDB_of_lt (by bv_omega)).trans missing, none⟩
  constructor
  case results => exact inv.results
  case empty => simp
  case later =>
    rintro _ ⟨⟩ id' after
    obtain ⟨missing, none⟩ := later id' after
    refine ⟨?_, none⟩
    simp only [Function.update_apply]
    rw [missing, ite_self]
  case tallied =>
    rintro _ ⟨⟩ id' near
    change (id - id').toNat < _ at near
    simp only [known, running, if_true, unitOf]
    split
    · rename_i here
      obtain ⟨-, none⟩ := inv.later u curr id' (by rw [here]; change u.id < id; bv_omega)
      exact (tally_empty none).congr rfl rfl
    · have kept : id' ≠ id - conf.limit := by bv_omega
      rw [Function.update_of_ne kept, flushUnitToDB_getD]
      by_cases after : u.id < id'
      · obtain ⟨missing, none⟩ := inv.later u curr id' after
        rw [unitOf, if_neg (by bv_omega), missing]
        exact tally_empty none
      · have tally := inv.tallied u curr id' (by bv_omega)
        rwa [known, if_pos running] at tally

/-- One more entry in the current unit. -/
theorem Inv.add (inv : Inv conf s) (running : s.running = true) (curr : s.curr = some u) {e : Entry}
    {u' : StatsUnit} (added : u.add e = some u') :
    Inv conf { s with curr := some u', counted := s.counted ++ [(u.id, e.result.toNat)] } := by
  obtain ⟨r, result, sameID, total, results⟩ := StatsUnit.add_counters added
  have index : e.result.toNat = r.val := by omega
  constructor
  case results =>
    intro c member
    rw [List.mem_append, List.mem_singleton] at member
    rcases member with old | rfl
    · exact inv.results c old
    · rw [index]
      exact r.isLt
  case empty => simp
  case later =>
    rintro _ ⟨⟩ id after
    rw [sameID] at after
    obtain ⟨missing, none⟩ := inv.later u curr id after
    refine ⟨missing, ?_⟩
    intro c member
    rw [List.mem_append, List.mem_singleton] at member
    rcases member with old | rfl
    · exact none c old
    · exact fun same => by bv_omega
  case tallied =>
    rintro _ ⟨⟩ id near
    rw [sameID] at near
    have tally := inv.tallied u curr id near
    simp only [known, running, if_true, unitOf, sameID] at tally ⊢
    split at tally
    · rename_i here
      subst here
      rw [if_pos rfl]
      constructor
      · simpa [StatsUnit.serialize, total] using tally.total
      · intro r'
        have before := tally.result r'
        simp only [StatsUnit.serialize, results, index, List.count_append, Function.update_apply]
          at before ⊢
        by_cases same : r' = r
        · subst same
          simp [before]
        · have differ : (u.id, r.val) ≠ (u.id, r'.val) := by
            intro equal
            exact same (Fin.ext (Prod.mk.inj equal).2.symm)
          simp [before, same, differ]
    · rename_i other
      rw [if_neg other]
      constructor
      · rw [tally.total, List.countP_append]
        simp [Ne.symm other]
      · intro r'
        rw [tally.result r', List.count_append]
        have differ : (u.id, e.result.toNat) ≠ (id, r'.val) := by
          intro equal
          exact other (Prod.mk.inj equal).1.symm
        simp [differ]

theorem Inv.update (inv : Inv conf s) {e : Entry} (safe : StatsOp conf s (.update e))
    (updated : s.update conf e = some s') : Inv conf s' := by
  unfold StatsCtx.update at updated
  split at updated
  · rename_i enabled valid curr
    obtain ⟨u', added, rfl⟩ := Option.map_eq_some_iff.mp updated
    exact inv.add (safe enabled (by rw [valid]; rfl)) curr added
  · cases updated
    exact inv

theorem Inv.step {event : Event} {answer : Unit} (inv : Inv conf s)
    (ok : Ordered s event ∧ StatsOp conf s event) (taken : s.step conf event = some (s', answer)) :
    Inv conf s' := by
  obtain ⟨ordered, safe⟩ := ok
  cases event with
  | new id =>
    obtain ⟨_, opened, ⟨⟩⟩ := Option.map_eq_some_iff.mp taken
    exact inv.new ordered safe opened
  | update e =>
    obtain ⟨_, updated, ⟨⟩⟩ := Option.map_eq_some_iff.mp taken
    exact inv.update safe updated
  | flush id =>
    cases taken
    exact inv.flush ordered
  | close =>
    cases taken
    exact inv.close

end Invariant

/-! ### The totals -/

/-- Counts by the values of a key add up to a count of the values. -/
theorem sum_countP {α β : Type} [DecidableEq β] (f : α → β) (l : List α) {keys : List β}
    (nodup : keys.Nodup) : (keys.map fun k => l.countP (f · = k)).sum = l.countP (f · ∈ keys) := by
  induction l with
  | nil => simp
  | cons a rest ih =>
    have here : (keys.map fun k => if f a = k then 1 else 0).sum = if f a ∈ keys then 1 else 0 := by
      clear ih
      induction keys with
      | nil => rfl
      | cons k keys ih =>
        obtain ⟨fresh, nodup⟩ := List.nodup_cons.mp nodup
        rw [List.map_cons, List.sum_cons, ih nodup]
        by_cases first : f a = k
        · simp [first, fresh]
        · simp [first]
    simp only [List.countP_cons, decide_eq_true_eq]
    rw [List.sum_map_add, ih, here]

section Totals

variable {conf : Config} {s s' : StatsCtx} {u : StatsUnit}

/-- The window of the loaded units is that of the counted entries. -/
theorem Inv.mem_window (inv : Inv conf s) (curr : s.curr = some u) {c : BitVec 32 × Nat}
    (member : c ∈ s.counted) :
    c.1 ∈ hoursUpTo conf.limit u.id ↔
      c.1.toNat ≤ u.id.toNat ∧ u.id.toNat < c.1.toNat + conf.limit.toNat := by
  have positive := conf.positive
  have bound := conf.yearAtMost
  have before : ¬u.id < c.1 := fun after => (inv.later u curr c.1 after).2 c member rfl
  rw [mem_hoursUpTo positive]
  constructor
  · intro near
    constructor <;> bv_omega
  · intro near
    bv_omega

theorem Inv.sum_total (inv : Inv conf s) (running : s.running = true) (curr : s.curr = some u) :
    (((hoursUpTo conf.limit u.id).map (s.unitOf u)).map (·.nTotal)).sum =
      (inWindow conf.limit.toNat u.id s.counted).length := by
  have each : ∀ id ∈ hoursUpTo conf.limit u.id,
      (s.unitOf u id).nTotal = s.counted.countP (·.1 = id) := by
    intro id member
    have tally := inv.tallied u curr id ((mem_hoursUpTo conf.positive).mp member)
    rw [known, if_pos running] at tally
    exact tally.total
  calc (((hoursUpTo conf.limit u.id).map (s.unitOf u)).map (·.nTotal)).sum
      = ((hoursUpTo conf.limit u.id).map fun id => s.counted.countP (·.1 = id)).sum := by
        rw [List.map_map]
        exact congrArg List.sum (List.map_congr_left each)
    _ = s.counted.countP (·.1 ∈ hoursUpTo conf.limit u.id) := sum_countP _ _ (nodup_hoursUpTo _ _)
    _ = (inWindow conf.limit.toNat u.id s.counted).length := by
        rw [inWindow, ← List.countP_eq_length_filter]
        apply List.countP_congr
        intro c member
        simpa using inv.mem_window curr member

theorem Inv.sum_result (inv : Inv conf s) (running : s.running = true) (curr : s.curr = some u)
    (r : Fin resultLast) :
    sumResult ((hoursUpTo conf.limit u.id).map (s.unitOf u)) r =
      (inWindow conf.limit.toNat u.id s.counted).countP (·.2 = r.val) := by
  have each : ∀ id ∈ hoursUpTo conf.limit u.id,
      (s.unitOf u id).nResult r = (s.counted.filter (·.2 = r.val)).countP (·.1 = id) := by
    intro id member
    have tally := inv.tallied u curr id ((mem_hoursUpTo conf.positive).mp member)
    rw [known, if_pos running] at tally
    rw [tally.result, List.countP_filter, List.count_eq_countP]
    apply List.countP_congr
    intro c _
    simp [Prod.ext_iff]
  calc sumResult ((hoursUpTo conf.limit u.id).map (s.unitOf u)) r
      = ((hoursUpTo conf.limit u.id).map fun id =>
          (s.counted.filter (·.2 = r.val)).countP (·.1 = id)).sum := by
        rw [sumResult, List.map_map]
        exact congrArg List.sum (List.map_congr_left each)
    _ = (s.counted.filter (·.2 = r.val)).countP (·.1 ∈ hoursUpTo conf.limit u.id) :=
        sum_countP _ _ (nodup_hoursUpTo _ _)
    _ = (inWindow conf.limit.toNat u.id s.counted).countP (·.2 = r.val) := by
        rw [inWindow, List.countP_filter, List.countP_filter]
        apply List.countP_congr
        intro c member
        have window := inv.mem_window curr member
        simp only [Bool.and_eq_true, decide_eq_true_eq, window]
        exact and_comm

/-- Every entry has one of the results. -/
theorem sum_results {entries : List (BitVec 32 × Nat)} (results : ∀ c ∈ entries, c.2 < resultLast) :
    ((List.finRange resultLast).map fun r => entries.countP (·.2 = r.val)).sum = entries.length := by
  have sum := sum_countP Prod.snd entries (List.nodup_range (n := resultLast))
  rw [← List.map_coe_finRange_eq_range, List.map_map] at sum
  refine Eq.trans sum (List.countP_eq_length.mpr ?_)
  intro c member
  simpa using results c member

theorem Inv.conserved (inv : Inv conf s) : Conserved conf s := by
  intro u curr running
  have loaded := loadUnits_eq running u conf.positive
  refine ⟨_, loaded, ?_, inv.sum_total running curr, inv.sum_result running curr, ?_⟩
  · rw [getData, loaded]
    rfl
  · have sums := funext (inv.sum_result running curr)
    rw [sums, sum_results]
    · exact (inv.sum_total running curr).symm
    · exact fun c member => inv.results c (List.mem_of_mem_filter member)

/-- A context opened at an identifier within the limit finds nothing of the hours before. -/
theorem Inv.lost (inv : Inv conf s) {id : BitVec 32} (ordered : Ordered s (.new id))
    (opened : s.new conf id = some s') (conserved : Conserved conf s') : StatsOp conf s (.new id) := by
  have bound := conf.yearAtMost
  by_contra bad
  simp only [StatsOp, not_or, not_lt] at bad
  obtain ⟨within, counted⟩ := bad
  unfold StatsCtx.new at opened
  split at opened
  · exact absurd opened (by simp)
  cases opened
  have deleted : ∀ i ∈ hoursUpTo conf.limit id, deleteOldUnits s.file (id - conf.limit - 1) i = none := by
    intro i member
    have near := (mem_hoursUpTo conf.positive).mp member
    unfold deleteOldUnits
    by_cases before : i ≤ id
    · rw [if_pos (by bv_omega)]
    · cases curr : s.curr with
      | none => rw [(inv.empty curr).1, ite_self]
      | some u =>
        have earlier : u.id ≤ id := ordered u curr
        rw [(inv.later u curr i (by bv_omega)).1, ite_self]
  obtain ⟨units, loaded, -, total, -⟩ := conserved _ rfl rfl
  rw [loadUnits_eq rfl _ conf.positive] at loaded
  cases loaded
  rw [deserialize_id] at total
  have empty : (inWindow conf.limit.toNat id s.counted).length = 0 := by
    rw [← total]
    apply List.sum_eq_zero
    intro n member
    simp only [List.mem_map, exists_exists_and_eq_and] at member
    obtain ⟨i, hour, rfl⟩ := member
    unfold unitOf
    rw [deserialize_id]
    split
    · rename_i here
      subst here
      rw [deleted i hour]
      rfl
    · dsimp only
      rw [deleted i hour]
      rfl
  exact counted (List.length_eq_zero_iff.mp empty)

end Totals

/-- In every run the totals reported are those of the entries counted in the window, and each
loading of units gives one for each hour of the window; and the next context is opened without a
loss exactly when identifiers are beyond the limit or the window is empty. -/
theorem stats_conserved (conf : Config) {s : StatsCtx}
    (run : Reaches (step conf) (fun s event => Ordered s event ∧ StatsOp conf s event) start s) :
    Conserved conf s ∧
      (∀ u limit, s.curr = some u → s.running = true → 1 ≤ limit.toNat →
        s.loadUnits u limit = some (some ((hoursUpTo limit u.id).map (s.unitOf u)))) ∧
      ∀ id s', Ordered s (.new id) → s.new conf id = some s' →
        (Conserved conf s' ↔ StatsOp conf s (.new id)) := by
  have inv : Inv conf s := run.invariant inv_start fun _ _ _ _ inv ok taken => inv.step ok taken
  refine ⟨inv.conserved, ?_, ?_⟩
  · intro u limit _ running positive
    exact loadUnits_eq running u positive
  · intro id s' ordered opened
    constructor
    · exact inv.lost ordered opened
    · intro safe
      exact (inv.new ordered safe opened).conserved

/-- One hour is reported. -/
def hourly : Config := ⟨1, true, by decide, by decide⟩

/-- An entry that is not filtered. -/
def plainEntry : Entry := ⟨"192.168.10.2", "example.org", [], 1, 100⟩

/-- A run over a flush and a restart. -/
theorem stats_conserved_restart : ∃ s, s.running = true ∧ s.counted.length = 2 ∧ Conserved hourly s := by
  have run : Reaches (step hourly)
      (fun s event => Ordered s event ∧ StatsOp hourly s event) start _ :=
    (((((Reaches.refl.tail (a := .new 480000) (by decide) rfl).tail (a := .update plainEntry)
      (by decide) rfl).tail (a := .flush 480001) (by decide) rfl).tail (a := .update plainEntry)
      (by decide) rfl).tail (a := .close) (by decide) rfl).tail (a := .new 480001) (by decide) rfl
  exact ⟨_, rfl, rfl, (stats_conserved hourly run).1⟩

/-- In the first hours of 1970 a restart loses what was counted. -/
theorem stats_not_conserved : ∃ s, Reaches (step hourly) Ordered start s ∧ ¬Conserved hourly s := by
  have run : Reaches (step hourly) Ordered start _ :=
    (((Reaches.refl.tail (a := .new 1) (by decide) rfl).tail (a := .update plainEntry)
      (by decide) rfl).tail (a := .close) (by decide) rfl).tail (a := .new 1) (by decide) rfl
  refine ⟨_, run, ?_⟩
  intro conserved
  obtain ⟨units, loaded, -, total, -⟩ := conserved _ rfl rfl
  rw [loadUnits_eq rfl _ (by decide)] at loaded
  cases loaded
  revert total
  decide +kernel

end StatsCtx

end FirewallCore.Stats

/-!
What the dashboard shows of units (`dataFromUnits` and `fillCollectedStats` of
`stats/unit.go`): the average processing time, and the counters by hour or by day.

Averages of units are added up in 32 bits, which a year of slow answers overflows
(`average_right_iff`). For days, the hours are cut off so that the first day is a whole
one. The current hour counts as the number of hours of the current day, but hours are
counted from zero: every day begins at one o'clock (`daily_shifted`).
-/

namespace FirewallCore.Stats

open Finset

/-! ### The average processing time -/

/-- `sum.TimeAvg` of `dataFromUnits`, a `uint32`. -/
def timeAvgSum (units : List UnitDB) : Nat := units.foldl (fun sum u => (sum + u.timeAvg) % 2 ^ 32) 0

/-- `timeN` of `dataFromUnits`, a `uint32`. -/
def timeN (units : List UnitDB) : Nat := units.foldl (fun n u => if u.timeAvg ≠ 0 then (n + 1) % 2 ^ 32 else n) 0

/-- `AvgProcessingTime` of `dataFromUnits` before it is converted to seconds. -/
def avgProcessingTime (units : List UnitDB) : Nat :=
  if timeN units ≠ 0 then timeAvgSum units / timeN units else 0

/-- A unit that has counted something. -/
def UnitDB.NonEmpty (u : UnitDB) : Prop := u.nTotal ≠ 0 ∨ u.timeAvg ≠ 0

/-- The average is between those of the units, and no sum on the way to it overflows. -/
structure AverageRight (units : List UnitDB) : Prop where
  empty : (∀ u ∈ units, ¬u.NonEmpty) → avgProcessingTime units = 0
  low : ∀ least, (∀ u ∈ units, u.NonEmpty → least ≤ u.timeAvg) → (∃ u ∈ units, u.NonEmpty) →
    least ≤ avgProcessingTime units
  high : ∀ most, (∀ u ∈ units, u.NonEmpty → u.timeAvg ≤ most) → avgProcessingTime units ≤ most
  unwrapped : ∀ part, part <+: units → (part.map (·.timeAvg)).sum < 2 ^ 32

section Average

variable {units : List UnitDB}

theorem timeAvgSum_eq (units : List UnitDB) : timeAvgSum units = (units.map (·.timeAvg)).sum % 2 ^ 32 := by
  induction units using List.reverseRecOn with
  | nil => rfl
  | append_singleton units u ih =>
    rw [timeAvgSum, List.foldl_append, List.foldl_cons, List.foldl_nil, ← timeAvgSum, ih, Nat.mod_add_mod]
    simp

theorem timeN_eq (short : units.length < 2 ^ 32) : timeN units = units.countP (·.timeAvg ≠ 0) := by
  induction units using List.reverseRecOn with
  | nil => rfl
  | append_singleton units u ih =>
    rw [List.length_append, List.length_singleton] at short
    have bound : units.countP (·.timeAvg ≠ 0) ≤ units.length := List.countP_le_length
    rw [timeN, List.foldl_append, List.foldl_cons, List.foldl_nil, ← timeN, ih (by omega), List.countP_append]
    by_cases zero : u.timeAvg = 0
    · simp [zero]
    · rw [if_pos zero, Nat.mod_eq_of_lt (by omega)]
      simp [zero]

/-- The sum of averages is at most that of as many of the largest. -/
theorem sum_le_count_mul {most : Nat} (high : ∀ u ∈ units, u.NonEmpty → u.timeAvg ≤ most) :
    (units.map (·.timeAvg)).sum ≤ units.countP (·.timeAvg ≠ 0) * most := by
  induction units with
  | nil => simp
  | cons u units ih =>
    rw [List.forall_mem_cons] at high
    have rest := ih high.2
    rw [List.map_cons, List.sum_cons, List.countP_cons]
    by_cases zero : u.timeAvg = 0
    · simpa [zero] using rest
    · have first := high.1 (.inr zero)
      simp only [zero, ne_eq, not_false_eq_true, decide_true, if_true, Nat.add_mul, Nat.one_mul] at rest ⊢
      omega

theorem count_mul_le_sum {least : Nat} (low : ∀ u ∈ units, u.NonEmpty → least ≤ u.timeAvg) :
    units.countP (·.timeAvg ≠ 0) * least ≤ (units.map (·.timeAvg)).sum := by
  induction units with
  | nil => simp
  | cons u units ih =>
    rw [List.forall_mem_cons] at low
    have rest := ih low.2
    rw [List.map_cons, List.sum_cons, List.countP_cons]
    by_cases zero : u.timeAvg = 0
    · simpa [zero] using rest
    · have first := low.1 (.inr zero)
      simp only [zero, ne_eq, not_false_eq_true, decide_true, if_true, Nat.add_mul, Nat.one_mul] at rest ⊢
      omega

/-- The average of a year at most is right if and only if the averages add up to less than 2^32. -/
theorem average_right_iff (conf : Config) (loaded : units.length = conf.limit.toNat) :
    AverageRight units ↔ (units.map (·.timeAvg)).sum < 2 ^ 32 := by
  constructor
  · intro right
    exact right.unwrapped units List.prefix_rfl
  · intro fits
    have year := conf.yearAtMost
    have n : timeN units = units.countP (·.timeAvg ≠ 0) := timeN_eq (by omega)
    have sum : timeAvgSum units = (units.map (·.timeAvg)).sum := by
      rw [timeAvgSum_eq, Nat.mod_eq_of_lt fits]
    refine ⟨fun empty => ?_, fun least low some => ?_, fun most high => ?_, fun part isPart => ?_⟩
    · have none : units.countP (·.timeAvg ≠ 0) = 0 := by
        refine List.countP_eq_zero.mpr fun u member => ?_
        have := empty u member
        rw [UnitDB.NonEmpty, not_or] at this
        simpa using this.2
      rw [avgProcessingTime, n, none, if_neg (by simp)]
    · rw [avgProcessingTime, n, sum]
      by_cases zero : units.countP (·.timeAvg ≠ 0) = 0
      · obtain ⟨u, member, nonEmpty⟩ := some
        have first := low u member nonEmpty
        have isZero : u.timeAvg = 0 := by simpa using List.countP_eq_zero.mp zero u member
        rw [if_neg (by simpa using zero)]
        omega
      · rw [if_pos zero, Nat.le_div_iff_mul_le (Nat.pos_of_ne_zero zero), Nat.mul_comm]
        exact count_mul_le_sum low
    · rw [avgProcessingTime, n, sum]
      split
      · exact Nat.div_le_of_le_mul (sum_le_count_mul high)
      · exact Nat.zero_le _
    · obtain ⟨rest, rfl⟩ := isPart
      rw [List.map_append, List.sum_append] at fits
      omega

/-- The average of units that are all the same. -/
theorem avgProcessingTime_replicate {n : Nat} {u : UnitDB} (short : n < 2 ^ 32) (slow : u.timeAvg ≠ 0) :
    avgProcessingTime (List.replicate n u) = n * u.timeAvg % 2 ^ 32 / n := by
  have all : timeN (List.replicate n u) = n := by
    rw [timeN_eq (by rwa [List.length_replicate]), List.countP_replicate, if_pos (by simpa using slow)]
  have sum : timeAvgSum (List.replicate n u) = n * u.timeAvg % 2 ^ 32 := by
    rw [timeAvgSum_eq, List.map_replicate, List.sum_replicate_nat]
  rw [avgProcessingTime, all, sum]
  split
  · rfl
  · rename_i zero
    rw [not_not.mp zero, Nat.div_zero]

/-- A unit with one query that took half a second. -/
def slowUnit : UnitDB := { emptyUnitDB with nTotal := 1, timeAvg := 500000 }

/-- A year of them is too much. -/
theorem slow_year_wraps : ¬AverageRight (List.replicate (365 * 24) slowUnit) := by
  intro right
  have low := right.low 500000 (fun u member _ => (List.eq_of_mem_replicate member).symm ▸ Nat.le_refl _)
    ⟨slowUnit, List.mem_replicate.mpr ⟨by omega, rfl⟩, .inl Nat.one_ne_zero⟩
  rw [avgProcessingTime_replicate (by omega) (by decide)] at low
  revert low
  decide

/-- The averages of a day of them add up. -/
theorem slow_day_right : AverageRight (List.replicate 24 slowUnit) :=
  (average_right_iff ⟨24, true, by decide, by decide⟩ List.length_replicate).mpr (by decide)

end Average

/-! ### Counters by hour or by day -/

inductive TimeUnits where
  | hours
  | days
  deriving DecidableEq, Repr

/-- What `fillCollectedStats` sets of `StatsResp`. -/
structure CollectedStats where
  timeUnits : TimeUnits
  dnsQueries : List Nat
  blockedFiltering : List Nat
  replacedSafebrowsing : List Nat
  replacedParental : List Nat

/-- The loop over units for one of the counters, with the place of each unit. -/
def fillSeries (place : Nat → Nat) (size : Nat) (units : List UnitDB) (value : UnitDB → Nat) : List Nat :=
  units.zipIdx.foldl (fun data entry => data.modify (place entry.2) (· + value entry.1)) (List.replicate size 0)

/-- All counters. -/
def collect (timeUnits : TimeUnits) (place : Nat → Nat) (size : Nat) (units : List UnitDB) : CollectedStats where
  timeUnits := timeUnits
  dnsQueries := fillSeries place size units (·.nTotal)
  blockedFiltering := fillSeries place size units (·.nResult RFiltered)
  replacedSafebrowsing := fillSeries place size units (·.nResult RSafeBrowsing)
  replacedParental := fillSeries place size units (·.nResult RParental)

/-- `countHours`. -/
def countHours (curHour days : Nat) : Nat :=
  let hoursInCurDay := if curHour % 24 = 0 then 24 else curHour % 24
  (days - 1) * 24 + hoursInCurDay

/-- `fillCollectedStatsDaily`. -/
def fillCollectedStatsDaily (units : List UnitDB) (curHour days : Nat) : CollectedStats :=
  collect .days (· / 24) days (units.drop (units.length - countHours curHour days))

/-- `fillCollectedStats`. -/
def fillCollectedStats (units : List UnitDB) (curID : BitVec 32) : CollectedStats :=
  if 7 < units.length / 24 then fillCollectedStatsDaily units curID.toNat (units.length / 24)
  else collect .hours id units.length units

/-- A counter by time, with the field of units that it is made of. -/
structure Series where
  read : CollectedStats → List Nat
  value : UnitDB → Nat

def dnsQueriesSeries : Series := ⟨(·.dnsQueries), (·.nTotal)⟩

/-- All of them. -/
def allSeries : List Series :=
  [dnsQueriesSeries, ⟨(·.blockedFiltering), (·.nResult RFiltered)⟩,
    ⟨(·.replacedSafebrowsing), (·.nResult RSafeBrowsing)⟩, ⟨(·.replacedParental), (·.nResult RParental)⟩]

/-- The hour of a unit in a list that ends with the current one, counted from 1970. -/
def hourOf (curID : BitVec 32) (units : List UnitDB) (i : Nat) : Int := curID.toNat - (units.length - 1 - i : Int)

/-- The sum over the units of some hours. -/
def sumHours (value : UnitDB → Nat) (curID : BitVec 32) (units : List UnitDB) (inHours : Int → Prop) [DecidablePred inHours] :
    Nat :=
  ∑ i ∈ (range units.length).filter (fun i => inHours (hourOf curID units i)), value (units.getD i emptyUnitDB)

/-- Each bucket is the sum over the units of one day, the last one that of the current day, and together they are the
sum over these days. -/
structure Aligned (curID : BitVec 32) (n : Nat) (units : List UnitDB) : Prop where
  bucket : ∀ s ∈ allSeries, ∀ k < n, (s.read (fillCollectedStats units curID))[k]? =
    some (sumHours s.value curID units fun hour => hour / 24 = curID.toNat / 24 - (n - 1 - k : Int))
  total : ∀ s ∈ allSeries, (s.read (fillCollectedStats units curID)).sum =
    sumHours s.value curID units fun hour => curID.toNat / 24 - n < hour / 24

section Daily

variable {curID : BitVec 32} {n : Nat} {units : List UnitDB} {value : UnitDB → Nat}

theorem fillSeries_concat (place : Nat → Nat) (size : Nat) (units : List UnitDB) (u : UnitDB) (value : UnitDB → Nat) :
    fillSeries place size (units ++ [u]) value =
      (fillSeries place size units value).modify (place units.length) (· + value u) := by
  simp [fillSeries, List.zipIdx_append]

/-- A place has the sum over the units that are put there. -/
theorem getElem?_fillSeries (place : Nat → Nat) {size k : Nat} (here : k < size) (units : List UnitDB) (value : UnitDB → Nat) :
    (fillSeries place size units value)[k]? =
      some (∑ i ∈ (range units.length).filter (place · = k), value (units.getD i emptyUnitDB)) := by
  induction units using List.reverseRecOn with
  | nil => simp [fillSeries, here]
  | append_singleton units u ih =>
    have old : ∀ i ∈ (range units.length).filter (place · = k),
        value ((units ++ [u]).getD i emptyUnitDB) = value (units.getD i emptyUnitDB) := by
      intro i member
      have bound : i < units.length := mem_range.mp (mem_filter.mp member).1
      rw [List.getD_eq_getElem?_getD, List.getElem?_append_left bound, ← List.getD_eq_getElem?_getD]
    have last : (units ++ [u]).getD units.length emptyUnitDB = u := by
      simp
    rw [fillSeries_concat, List.getElem?_modify, ih, List.length_append, List.length_singleton, range_add_one,
      filter_insert]
    by_cases same : place units.length = k
    · rw [if_pos same, sum_insert (by simp), last, sum_congr rfl old]
      simp [same, Nat.add_comm]
    · rw [if_neg same, sum_congr rfl old]
      simp [same]

theorem countHours_le (curHour : Nat) (positive : 0 < n) : countHours curHour n ≤ 24 * n := by
  unfold countHours
  have : curHour % 24 < 24 := Nat.mod_lt _ (by omega)
  simp only
  split <;> omega

theorem read_daily {s : Series} (listed : s ∈ allSeries) (units : List UnitDB) (curHour days : Nat) :
    s.read (fillCollectedStatsDaily units curHour days) =
      fillSeries (· / 24) days (units.drop (units.length - countHours curHour days)) s.value := by
  simp only [allSeries, List.mem_cons, List.not_mem_nil, or_false] at listed
  rcases listed with rfl | rfl | rfl | rfl <;> rfl

/-- The buckets are the days that begin at one o'clock, an hour after the days of the calendar. -/
theorem daily_shifted (days : 7 < n) (loaded : units.length = 24 * n) {s : Series} (listed : s ∈ allSeries) {k : Nat}
    (bucket : k < n) :
    (s.read (fillCollectedStats units curID))[k]? =
      some (sumHours s.value curID units fun hour => (hour - 1) / 24 = (curID.toNat - 1 : Int) / 24 - (n - 1 - k : Int)) := by
  have count : units.length / 24 = n := by omega
  have hours := countHours_le curID.toNat (n := n) (by omega)
  rw [fillCollectedStats, count, if_pos days, read_daily listed, getElem?_fillSeries _ bucket, sumHours]
  congr 1
  have skipped : (units.length - countHours curID.toNat n : Int) = 23 - (curID.toNat - 1 : Int) % 24 := by
    unfold countHours
    simp only
    split <;> omega
  refine sum_nbij' (units.length - countHours curID.toNat n + ·) (· - (units.length - countHours curID.toNat n)) ?_ ?_ ?_ ?_ ?_
  · intro i member
    obtain ⟨bound, day⟩ := mem_filter.mp member
    rw [mem_range, List.length_drop] at bound
    refine mem_filter.mpr ⟨mem_range.mpr (by omega), ?_⟩
    unfold hourOf
    omega
  · intro i member
    obtain ⟨bound, day⟩ := mem_filter.mp member
    rw [mem_range] at bound
    unfold hourOf at day
    refine mem_filter.mpr ⟨mem_range.mpr ?_, ?_⟩
    · rw [List.length_drop]
      omega
    · omega
  · intro i member
    simp
  · intro i member
    obtain ⟨-, day⟩ := mem_filter.mp member
    unfold hourOf at day
    omega
  · intro i member
    simp [List.getD_eq_getElem?_getD]

/-- Units of `n` days with one query in one of the hours. -/
def oneQuery (n hour : Nat) : List UnitDB :=
  (List.range (24 * n)).map fun i => if i = hour then { emptyUnitDB with nTotal := 1 } else emptyUnitDB

theorem length_oneQuery (n hour : Nat) : (oneQuery n hour).length = 24 * n := by
  simp [oneQuery]

theorem sumHours_oneQuery {hour : Nat} (inHours : Int → Prop) [DecidablePred inHours] (inside : hour < 24 * n) :
    sumHours (·.nTotal) curID (oneQuery n hour) inHours =
      if inHours (hourOf curID (oneQuery n hour) hour) then 1 else 0 := by
  have value : ∀ i ∈ (range (oneQuery n hour).length).filter (fun i => inHours (hourOf curID (oneQuery n hour) i)),
      ((oneQuery n hour).getD i emptyUnitDB).nTotal = if i = hour then 1 else 0 := by
    intro i member
    have bound := mem_range.mp (mem_filter.mp member).1
    rw [length_oneQuery] at bound
    have unit : (oneQuery n hour).getD i emptyUnitDB = if i = hour then { emptyUnitDB with nTotal := 1 } else emptyUnitDB := by
      simp [oneQuery, List.getD_eq_getElem?_getD, bound]
    rw [unit]
    split <;> rfl
  rw [sumHours, sum_congr rfl value, sum_ite_eq']
  simp [length_oneQuery, inside]

/-- The bucket of the current day, for one query in an hour, counted in the two ways. -/
theorem Aligned.current_iff {hour : Nat} (days : 7 < n) (inside : hour < 24 * n) (aligned : Aligned curID n (oneQuery n hour)) :
    (hourOf curID (oneQuery n hour) hour - 1) / 24 = (curID.toNat - 1 : Int) / 24 ↔
      hourOf curID (oneQuery n hour) hour / 24 = curID.toNat / 24 := by
  have listed : dnsQueriesSeries ∈ allSeries := List.mem_cons_self
  have bucket := aligned.bucket _ listed (n - 1) (by omega)
  rw [daily_shifted days (length_oneQuery n hour) listed (by omega)] at bucket
  have same := Option.some.inj bucket
  simp only [dnsQueriesSeries] at same
  have last : ((n : Int) - 1 - ((n - 1 : Nat) : Int)) = 0 := by omega
  rw [sumHours_oneQuery _ inside, sumHours_oneQuery _ inside, last, Int.sub_zero, Int.sub_zero] at same
  split at same <;> split at same <;> simp_all

/-- No buckets are the days of the calendar: a query between midnight and one o'clock is on the day before, and in the
first hour of a day the last bucket is the day before. -/
theorem daily_misaligned (curID : BitVec 32) (days : 7 < n) : ¬∀ units, units.length = 24 * n → Aligned curID n units := by
  intro aligned
  have agree : ∀ hour < 24 * n,
      ((hourOf curID (oneQuery n hour) hour - 1) / 24 = (curID.toNat - 1 : Int) / 24 ↔
        hourOf curID (oneQuery n hour) hour / 24 = curID.toNat / 24) :=
    fun hour inside => (aligned _ (length_oneQuery n hour)).current_iff days inside
  by_cases midnight : curID.toNat % 24 = 0
  · have before := agree (24 * n - 2) (by omega)
    rw [hourOf, length_oneQuery] at before
    omega
  · have first := agree (24 * n - 1 - curID.toNat % 24) (by omega)
    rw [hourOf, length_oneQuery] at first
    omega

/-- So for a month. -/
theorem month_misaligned : 7 < 30 ∧ ¬∀ units, units.length = 24 * 30 → Aligned 490000 30 units :=
  ⟨by decide, daily_misaligned 490000 (by decide)⟩

/-- At four in the afternoon, a query of half past midnight is not on the current day. -/
theorem midnight_query_misplaced : ¬Aligned 490000 30 (oneQuery 30 703) := by
  intro aligned
  have agree := aligned.current_iff (by decide) (by decide)
  rw [hourOf, length_oneQuery] at agree
  revert agree
  decide

end Daily

end FirewallCore.Stats
