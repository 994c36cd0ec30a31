import FirewallCore.Dhcpd.V4Hosts

/-!
Which failed edits of static leases leave the lease table as it was.

`AddStaticLease` removes and renames dynamic leases before it knows that the new lease
can be entered, and `UpdateStaticLease` removes the old lease before it enters the new
one. `sweep` says which entries the removing loop takes out and when it stops at a
static lease; with it the outcome of a call is a condition on the table
(`AddSafe`, `UpdateSafe`).
-/

namespace FirewallCore.Dhcpd.V4Server

open FirewallCore.Net FirewallCore.Lib

variable {nu : Netutil} {s s' : V4Server} {l : Lease}

/-- The invariants of the table and its indexes, with each lease listed once. -/
structure Indexed (s : V4Server) : Prop extends HostsInv s where
  nodup : s.leases.elems.Nodup

/-- The leases with what is stored in them, the two indexes and the bit set are as
they were. -/
structure Unchanged (s s' : V4Server) : Prop where
  leases : s'.leases.elems = s.leases.elems
  stored : ∀ p ∈ s.leases.elems, s'.heap p = s.heap p
  hosts : s'.hostsIndex = s.hostsIndex
  ips : s'.ipIndex = s.ipIndex
  offsets : s'.leasedOffsets = s.leasedOffsets

theorem Unchanged.refl (s : V4Server) : Unchanged s s := ⟨rfl, fun _ _ => rfl, rfl, rfl, rfl⟩

theorem Unchanged.new (bounded : ∀ p ∈ s.leases.elems, p < s.next) (l : Lease) :
    Unchanged s (s.new l) :=
  ⟨rfl, fun p listed => heap_new_of_lt s l (bounded p listed), rfl, rfl, rfl⟩

/-! ### The removing loop, by the entries it looks at -/

section Sweep

variable {α : Type} (hit fixed : α → Bool)

/-- The entries that the loop of `rmDynamicLease` takes out, or `none` when it stops at
a fixed one. The loop passes over the entry behind one that it takes out; the last
entry of the table is looked at all the same, in a cell that the removal left over. -/
def sweep : List α → Option (List α)
  | [] => some []
  | x :: rest =>
    if hit x then
      if fixed x then none
      else
        match rest with
        | [] => some [x]
        | [y] => if hit y && fixed y then none else some [x]
        | _ :: z :: rest => (sweep (z :: rest)).map (x :: ·)
    else sweep rest

end Sweep

@[simp] theorem blankHostname_hostsIndex (s : V4Server) (lease p : Ptr) :
    (s.blankHostname lease p).hostsIndex = s.hostsIndex := by
  rcases blankHostname_cases s lease p with same | ⟨-, blanked⟩
  · rw [same]
  · rw [blanked, modify_hostsIndex]

section Loop

variable {hit fixed : Ptr → Bool} {name : Ptr → String} {lease last b d : Ptr}
  {A B rest : List Ptr} {k : Nat}

/-- The state of the loop with `A` behind it and `B` before it, after `k` removals: the
cells that the removals left over all hold the last entry. -/
structure Sweeping (hit fixed : Ptr → Bool) (name : Ptr → String) (lease last : Ptr)
    (A B : List Ptr) (k : Nat) (s : V4Server) : Prop where
  parts : s.leases.elems = A ++ B
  hits : ∀ p ∈ A ++ B, sameProperties (s.heap p) (s.heap lease) = hit p
  statics : ∀ p ∈ A ++ B, (s.heap p).isStatic = fixed p
  names : ∀ p ∈ B, (s.heap p).hostname = name p
  once : B.Nodup
  apart : lease ∉ A ++ B
  isLast : (A ++ B).getLast? = some last
  stale : s.leases.spare.take k = List.replicate k last

namespace Sweeping

theorem blank (at_ : Sweeping hit fixed name lease last A B k s) {q : Ptr} (passed : q ∉ B) :
    Sweeping hit fixed name lease last A B k (s.blankHostname lease q) := by
  refine ⟨by rw [blankHostname_leases, at_.parts], ?_, ?_, ?_, at_.once, at_.apart,
    at_.isLast, ?_⟩
  · intro p listed
    rw [sameProperties_blankHostname, at_.hits p listed]
  · intro p listed
    rw [blankHostname_isStatic, at_.statics p listed]
  · intro p listed
    have ne : p ≠ q := fun same => passed (same ▸ listed)
    rcases blankHostname_cases s lease q with same | ⟨-, blanked⟩
    · rw [same, at_.names p listed]
    · rw [blanked, heap_modify_of_ne s _ ne, at_.names p listed]
  · rw [blankHostname_leases, at_.stale]

theorem pass (at_ : Sweeping hit fixed name lease last A (b :: rest) k s) :
    Sweeping hit fixed name lease last (A ++ [b]) rest k s :=
  ⟨by simpa using at_.parts, by simpa using at_.hits, by simpa using at_.statics,
    fun p listed => at_.names p (List.mem_cons_of_mem b listed), (List.nodup_cons.mp at_.once).2,
    by simpa using at_.apart, by simpa using at_.isLast, at_.stale⟩

theorem remove (at_ : Sweeping hit fixed name lease last A (b :: d :: rest) k s) :
    Sweeping hit fixed name lease last A (d :: rest) (k + 1) (s.rmLeaseByIndex A.length) := by
  have inside : A.length < s.leases.len := by simp [Slice.len, at_.parts]
  have kept : (A ++ d :: rest).getLast? = (A ++ b :: d :: rest).getLast? := by
    simp [List.getLast?_append]
  have fewer : ∀ p ∈ A ++ d :: rest, p ∈ A ++ b :: d :: rest := fun p listed =>
    ((List.sublist_cons_self b (d :: rest)).append_left A).subset listed
  refine ⟨elems_rmLeaseByIndex at_.parts, ?_, ?_, ?_, (List.nodup_cons.mp at_.once).2,
    fun listed => at_.apart (fewer lease listed), kept.trans at_.isLast, ?_⟩
  · intro p listed
    rw [rmLeaseByIndex_heap, at_.hits p (fewer p listed)]
  · intro p listed
    rw [rmLeaseByIndex_heap, at_.statics p (fewer p listed)]
  · intro p listed
    rw [rmLeaseByIndex_heap, at_.names p (List.mem_cons_of_mem b listed)]
  · rw [rmLeaseByIndex_leases inside, Slice.spare_removeAt, at_.parts, at_.isLast,
      Option.toList_some, List.singleton_append, List.take_succ_cons, at_.stale,
      List.replicate_succ]

theorem mem_last (at_ : Sweeping hit fixed name lease last A B k s) : last ∈ A ++ B :=
  List.mem_of_getLast? at_.isLast

/-- Blanking the hostname of an entry leaves the lease itself alone. -/
theorem heap_blank (at_ : Sweeping hit fixed name lease last A B k s) {q : Ptr}
    (listed : q ∈ A ++ B) : (s.blankHostname lease q).heap lease = s.heap lease := by
  have ne : lease ≠ q := fun same => at_.apart (same ▸ listed)
  rcases blankHostname_cases s lease q with same | ⟨-, blanked⟩
  · rw [same]
  · rw [blanked, heap_modify_of_ne s _ ne]

/-- A left-over cell holds the last entry. -/
theorem cell (at_ : Sweeping hit fixed name lease last A [] k s) {j : Nat} (bound : j < k) :
    s.leases.cells[A.length + j]? = some last := by
  have parts := at_.parts
  rw [List.append_nil] at parts
  have inside : (s.leases.spare.take k)[j]? = some last := by
    rw [at_.stale, List.getElem?_replicate, if_pos bound]
  rw [List.getElem?_take_of_lt bound] at inside
  rw [Slice.cells, parts, List.getElem?_append_right (Nat.le_add_right _ _),
    Nat.add_sub_cancel_left, inside]

end Sweeping

/-- What the loop comes to, by `sweep`: an error at a static lease, or the hostnames of
the removed leases taken out of the index. -/
def Swept (name : Ptr → String) (lease : Ptr) (s : V4Server) (out : Option (V4Server × Option V4Err)) :
    Option (List Ptr) → Prop
  | none => ∃ s', out = some (s', some .staticLeaseExists)
  | some removed => ∃ s', out = some (s', none) ∧ s'.heap lease = s.heap lease ∧
      ∀ h, s'.hostsIndex h = if h ∈ removed.map name then none else s.hostsIndex h

theorem Swept.congr {t : V4Server} {out : Option (V4Server × Option V4Err)}
    {res : Option (List Ptr)} (swept : Swept name lease t out res)
    (stays : t.heap lease = s.heap lease) (same : t.hostsIndex = s.hostsIndex) :
    Swept name lease s out res := by
  cases res with
  | none => exact swept
  | some removed =>
    obtain ⟨s', done, stored, hosts⟩ := swept
    exact ⟨s', done, stored.trans stays, fun h => by rw [hosts, same]⟩

/-- One removal before the others. -/
theorem Swept.cons {t : V4Server} {out : Option (V4Server × Option V4Err)}
    {res : Option (List Ptr)} (swept : Swept name lease t out res)
    (stays : t.heap lease = s.heap lease)
    (first : ∀ h, t.hostsIndex h = if h = name b then none else s.hostsIndex h) :
    Swept name lease s out (res.map (b :: ·)) := by
  cases res with
  | none => exact swept
  | some removed =>
    obtain ⟨s', done, stored, hosts⟩ := swept
    refine ⟨s', done, stored.trans stays, fun h => ?_⟩
    change s'.hostsIndex h = if h ∈ (b :: removed).map name then none else s.hostsIndex h
    rw [hosts, first, List.map_cons]
    by_cases isFirst : h = name b
    · simp [isFirst]
    · simp [isFirst]

/-- The rounds in left-over cells change no index when the last entry is not a hit. -/
theorem rmDynamicLoop_tail (at_ : Sweeping hit fixed name lease last A [] k s)
    (miss : hit last = false) (m j : Nat) (rounds : m + j = k) :
    ∃ s', rmDynamicLoop lease m (A.length + j) s = some (s', none) ∧
      s'.heap lease = s.heap lease ∧ s'.hostsIndex = s.hostsIndex := by
  induction m generalizing s j with
  | zero => exact ⟨s, rfl, rfl, rfl⟩
  | succ m ih =>
    have miss' : sameProperties (s.heap last) (s.heap lease) = false := by
      rw [at_.hits last at_.mem_last, miss]
    rw [rmDynamicLoop_miss (at_.cell (by omega)) miss', Nat.add_assoc]
    split
    · exact ih at_ (j + 1) (by omega)
    · obtain ⟨s', done, stored, same⟩ := ih (at_.blank (q := last) (by simp)) (j + 1) (by omega)
      exact ⟨s', done, stored.trans (at_.heap_blank at_.mem_last),
        by rw [same, blankHostname_hostsIndex]⟩

/-- The loop behind the last entry, which it has passed over. -/
theorem rmDynamicLoop_passedOver (at_ : Sweeping hit fixed name lease last A [] (k + 1) s) :
    Swept name lease s (rmDynamicLoop lease (k + 1) A.length s)
      (if hit last && fixed last then none else some []) := by
  have here : s.leases.cells[A.length]? = some last := at_.cell (Nat.succ_pos k)
  cases isHit : hit last with
  | false =>
    obtain ⟨s', done, stored, same⟩ := rmDynamicLoop_tail at_ isHit (k + 1) 0 rfl
    exact ⟨s', done, stored, fun h => by simp [same]⟩
  | true =>
    have hits : sameProperties (s.heap last) (s.heap lease) = true := by
      rw [at_.hits last at_.mem_last, isHit]
    cases isFixed : fixed last with
    | true =>
      have isStatic : (s.heap last).isStatic = true := by
        rw [at_.statics last at_.mem_last, isFixed]
      exact ⟨s, rmDynamicLoop_static here hits isStatic⟩
    | false =>
      have isDynamic : (s.heap last).isStatic = false := by
        rw [at_.statics last at_.mem_last, isFixed]
      have atEnd : A.length = s.leases.len := by simp [Slice.len, at_.parts]
      -- The removal at the end of the slice does nothing, and the loop is left.
      have nothing : s.rmLeaseByIndex A.length = s := by
        rcases rmLeaseByIndex_cases s A.length with ⟨-, same⟩ | ⟨p, entry, -⟩
        · exact same
        · have := (List.getElem?_eq_some_iff.mp entry).1
          simp only [Slice.len] at atEnd
          omega
      refine ⟨s, ?_, rfl, fun h => by simp⟩
      simp only [rmDynamicLoop, here, hits, isDynamic, Bool.false_eq_true, if_false, if_true,
        nothing, if_pos atEnd]

theorem hostsIndex_rmLeaseByIndex (parts : s.leases.elems = A ++ b :: rest) (h : String) :
    (s.rmLeaseByIndex A.length).hostsIndex h =
      if h = (s.heap b).hostname then none else s.hostsIndex h := by
  rcases rmLeaseByIndex_cases s A.length with ⟨outside, -⟩ | ⟨p, entry, removed⟩
  · simp [parts] at outside
  · obtain rfl : b = p := by simpa [parts] using entry
    rw [removed]
    simp [Function.update_apply]

theorem Sweeping.hosts_removed (at_ : Sweeping hit fixed name lease last A (b :: rest) k s)
    (h : String) : (s.rmLeaseByIndex A.length).hostsIndex h =
      if h = name b then none else s.hostsIndex h := by
  rw [hostsIndex_rmLeaseByIndex at_.parts, at_.names b (by simp)]

/-- A removal inside the table, with the entry behind it passed over. -/
theorem Sweeping.skip (at_ : Sweeping hit fixed name lease last A (b :: d :: rest) k s) :
    Sweeping hit fixed name lease last (A ++ [d]) rest (k + 1)
      ((s.rmLeaseByIndex A.length).blankHostname lease d) :=
  at_.remove.pass.blank (List.nodup_cons.mp (List.nodup_cons.mp at_.once).2).1

/-- After a removal inside the table the loop goes on behind the next entry. -/
theorem Sweeping.swept_skip (at_ : Sweeping hit fixed name lease last A (b :: d :: rest) k s)
    (isHit : hit b = true) (isDynamic : fixed b = false) {res : Option (List Ptr)}
    (swept : Swept name lease ((s.rmLeaseByIndex A.length).blankHostname lease d)
      (rmDynamicLoop lease (rest.length + (k + 1)) (A ++ [d]).length
        ((s.rmLeaseByIndex A.length).blankHostname lease d)) res) :
    Swept name lease s (rmDynamicLoop lease ((b :: d :: rest).length + k) A.length s)
      (res.map (b :: ·)) := by
  have rounds : (b :: d :: rest).length + k = (rest.length + (k + 1)) + 1 := by
    simp only [List.length_cons]
    omega
  rw [rounds, rmDynamicLoop_removed at_.parts ((at_.hits b (by simp)).trans isHit)
    ((at_.statics b (by simp)).trans isDynamic)]
  rw [List.length_append, List.length_singleton] at swept
  have stays := at_.remove.heap_blank (q := d) (by simp)
  rw [rmLeaseByIndex_heap] at stays
  refine swept.cons stays fun h => ?_
  rw [blankHostname_hostsIndex, at_.hosts_removed]

/-- The loop does what `sweep` says. -/
theorem rmDynamicLoop_swept (at_ : Sweeping hit fixed name lease last A B k s)
    (settled : B = [] → 0 < k → hit last = false) :
    Swept name lease s (rmDynamicLoop lease (B.length + k) A.length s) (sweep hit fixed B) := by
  fun_induction sweep hit fixed B generalizing A k s with
  | case1 =>
    cases k with
    | zero => exact ⟨s, rfl, rfl, fun h => by simp⟩
    | succ k =>
      obtain ⟨s', done, stored, same⟩ :=
        rmDynamicLoop_tail at_ (settled rfl (Nat.succ_pos k)) (k + 1) 0 rfl
      exact ⟨s', by simpa using done, stored, fun h => by simp [same]⟩
  | case2 x rest isHit isFixed =>
    have hits := (at_.hits x (by simp)).trans isHit
    have isStatic := (at_.statics x (by simp)).trans isFixed
    rw [List.length_cons, Nat.succ_add]
    exact ⟨s, rmDynamicLoop_static (cells_here at_.parts) hits isStatic⟩
  | case3 x isHit isFixed =>
    have hits := (at_.hits x (by simp)).trans isHit
    have isDynamic := (at_.statics x (by simp)).trans (Bool.eq_false_iff.mpr isFixed)
    have done : rmDynamicLoop lease ([x].length + k) A.length s =
        some (s.rmLeaseByIndex A.length, none) := by
      rw [List.length_singleton, Nat.add_comm 1 k]
      exact rmDynamicLoop_last at_.parts hits isDynamic
    refine ⟨_, done, by rw [rmLeaseByIndex_heap], fun h => by simpa using at_.hosts_removed h⟩
  | case4 x isHit isFixed y stops =>
    have isLast : last = y := by simpa using at_.isLast.symm
    have tail := rmDynamicLoop_passedOver at_.skip
    rw [isLast, if_pos stops] at tail
    exact at_.swept_skip isHit (Bool.eq_false_iff.mpr isFixed) (by simpa using tail)
  | case5 x isHit isFixed y goes =>
    have isLast : last = y := by simpa using at_.isLast.symm
    have tail := rmDynamicLoop_passedOver at_.skip
    rw [isLast, if_neg goes] at tail
    exact at_.swept_skip isHit (Bool.eq_false_iff.mpr isFixed) (by simpa using tail)
  | case6 x isHit isFixed y z rest ih =>
    exact at_.swept_skip isHit (Bool.eq_false_iff.mpr isFixed)
      (ih at_.skip fun none => by cases none)
  | case7 x rest isMiss ih =>
    have miss := (at_.hits x (by simp)).trans (Bool.eq_false_iff.mpr isMiss)
    have settled' : rest = [] → 0 < k → hit last = false := by
      rintro rfl -
      have isLast : last = x := by simpa using at_.isLast.symm
      rw [isLast]
      exact Bool.eq_false_iff.mpr isMiss
    rw [List.length_cons, Nat.succ_add, rmDynamicLoop_miss (cells_here at_.parts) miss]
    have passed := at_.pass
    have there : A.length + 1 = (A ++ [x]).length := by simp
    rw [there]
    split
    · exact ih passed settled'
    · have fresh : x ∉ rest := (List.nodup_cons.mp at_.once).1
      exact (ih (passed.blank fresh) settled').congr (at_.heap_blank (by simp))
        (blankHostname_hostsIndex s lease x)

end Loop

/-! ### When the loop changes nothing -/

/-- The first lease with the hardware address or the IP of `l`, if there is one, is
static, and no dynamic lease before it has the hostname of `l`. -/
def leavesAlone (l : Lease) : List Lease → Bool
  | [] => true
  | x :: rest =>
    if sameProperties x l then x.isStatic
    else (x.isStatic || l.hostname == "" || x.hostname != l.hostname) && leavesAlone l rest

theorem Trimmed.rmDynamicLoop {lease : Ptr} {n i : Nat} {err : Option V4Err}
    (done : V4Server.rmDynamicLoop lease n i s = some (s', err)) : Trimmed s s' :=
  rmDynamicLoop_preserves (fun _ i _ h _ _ _ => h.trans (rmLeaseByIndex _ i))
    (fun _ q h => h.trans (blankHostname _ lease q)) done (refl s)

section Alone

variable {lease : Ptr} {A B : List Ptr} {err : Option V4Err}

/-- What the miss of a table that is left alone does: nothing. -/
theorem miss_eq_self {b : Ptr} (named : ((s.heap b).isStatic || (s.heap lease).hostname == "" ||
      (s.heap b).hostname != (s.heap lease).hostname) = true) :
    (if (s.heap b).isStatic then s else s.blankHostname lease b) = s := by
  split
  · rfl
  · rename_i isDynamic
    refine blankHostname_eq_self fun nonempty => ?_
    simpa [isDynamic, nonempty] using named

theorem rmDynamicLoop_alone (parts : s.leases.elems = A ++ B)
    (alone : leavesAlone (s.heap lease) (B.map s.heap) = true) :
    ∃ err, rmDynamicLoop lease B.length A.length s = some (s, err) := by
  induction B generalizing A with
  | nil => exact ⟨none, rfl⟩
  | cons b rest ih =>
    rw [List.map_cons, leavesAlone] at alone
    split at alone
    · rename_i hit
      exact ⟨_, rmDynamicLoop_static (cells_here parts) hit alone⟩
    · rename_i miss
      rw [Bool.and_eq_true] at alone
      rw [List.length_cons, rmDynamicLoop_miss (cells_here parts) (Bool.eq_false_iff.mpr miss),
        miss_eq_self alone.1]
      have there : A.length + 1 = (A ++ [b]).length := by simp
      rw [there]
      exact ih (by simpa using parts) alone.2

/-- A table that the loop does not leave alone is shorter after it, or a lease in it has
lost its hostname. -/
theorem rmDynamicLoop_touches (parts : s.leases.elems = A ++ B)
    (touched : leavesAlone (s.heap lease) (B.map s.heap) = false)
    (done : rmDynamicLoop lease B.length A.length s = some (s', err)) :
    s'.leases.elems.length < s.leases.elems.length ∨
      ∃ q ∈ s.leases.elems, s'.heap q ≠ s.heap q := by
  induction B generalizing A with
  | nil => cases touched
  | cons b rest ih =>
    rw [List.map_cons, leavesAlone] at touched
    split at touched
    · rename_i hit
      left
      have shorter : (s.rmLeaseByIndex A.length).leases.elems.length < s.leases.elems.length := by
        simp [elems_rmLeaseByIndex parts, parts]
      cases rest with
      | nil =>
        rw [List.length_singleton, rmDynamicLoop_last parts hit touched] at done
        cases done
        exact shorter
      | cons d rest =>
        rw [List.length_cons, rmDynamicLoop_removed parts hit touched] at done
        have trim := Trimmed.rmDynamicLoop done
        have kept := trim.sub.length_le
        rw [blankHostname_leases] at kept
        exact Nat.lt_of_le_of_lt kept shorter
    · rename_i miss
      rw [List.length_cons,
        rmDynamicLoop_miss (cells_here parts) (Bool.eq_false_iff.mpr miss)] at done
      cases named : (s.heap b).isStatic || (s.heap lease).hostname == "" ||
          (s.heap b).hostname != (s.heap lease).hostname with
      | true =>
        rw [named, Bool.true_and] at touched
        rw [miss_eq_self named, show A.length + 1 = (A ++ [b]).length by simp] at done
        exact ih (by simpa using parts) touched done
      | false =>
        simp only [Bool.or_eq_false_iff, beq_eq_false_iff_ne, bne_eq_false_iff_eq] at named
        obtain ⟨⟨isDynamic, nonempty⟩, same⟩ := named
        rw [isDynamic, if_neg Bool.false_ne_true, blankHostname, if_pos same] at done
        right
        refine ⟨b, by simp [parts], fun stays => nonempty ?_⟩
        have trim := Trimmed.rmDynamicLoop done
        by_contra named
        have kept : (s'.heap b).hostname = "" := by
          rw [trim.hostname (by rw [stays, same]; exact named), heap_modify_self]
        rw [stays, same] at kept
        exact named kept

end Alone

/-! ### The three edits -/

/-- A failed `AddStaticLease` leaves the table as it was. -/
def AtomicAdd (nu : Netutil) (s : V4Server) (l : Lease) : Prop :=
  ∀ s' err, s.addStaticLease nu l = some (s', some err) → Unchanged s s'

def AtomicUpdate (nu : Netutil) (s : V4Server) (l : Lease) : Prop :=
  ∀ s' err, s.updateStaticLease nu l = (s', some err) → Unchanged s s'

def AtomicRemove (nu : Netutil) (s : V4Server) (l : Lease) : Prop :=
  ∀ s' err, s.removeStaticLease nu l = (s', some err) → Unchanged s s'

/-- The edit of the table for the checked lease `l` goes through: the loop stops at no
static lease, the address is in the subnet, and the hostname is empty, unused, or that
of a lease which is removed. -/
def GoesThrough (s : V4Server) (l : Lease) : Prop :=
  ∃ removed, sweep (fun p => sameProperties (s.heap p) l) (fun p => (s.heap p).isStatic)
      s.leases.elems = some removed ∧
    s.subnet.contains l.ip = true ∧
    (l.hostname = "" ∨ s.hostsIndex l.hostname = none ∨
      l.hostname ∈ removed.map fun p => (s.heap p).hostname)

/-- When `AddStaticLease` is atomic: its argument fails the first checks, the loop
touches nothing, or the edit goes through. -/
def AddSafe (nu : Netutil) (s : V4Server) (l : Lease) : Prop :=
  ∀ l', checkStatic nu s l = .ok l' →
    leavesAlone l' (s.leases.elems.map s.heap) = true ∨ GoesThrough s l'

/-- When `UpdateStaticLease` is atomic: a validated argument is static or in the range,
and its hostname is empty, unused or that of the lease it replaces. -/
def UpdateSafe (nu : Netutil) (s : V4Server) (l : Lease) : Prop :=
  ∀ found l', s.findLease l.hwAddr = some found → s.validateStaticLease nu l = .ok l' →
    (l'.isStatic = true ∨ (s.offset l'.ip).2 = true) ∧
      (l'.hostname = "" ∨ s.hostsIndex l'.hostname = none ∨
        l'.hostname = (s.heap found).hostname)

/-- `addLease` fails exactly when one of its three checks does. -/
theorem addLease_isOk_iff {p : Ptr} :
    (∃ s', s.addLease p = .ok s') ↔
      ((s.heap p).isStatic = true → s.subnet.contains (s.heap p).ip = true) ∧
        ((s.heap p).isStatic = false → (s.offset (s.heap p).ip).2 = true) ∧
        ((s.heap p).hostname = "" ∨ s.hostsIndex (s.heap p).hostname = none) := by
  constructor
  · rintro ⟨s', done⟩
    obtain ⟨-, inSubnet, inRange, free⟩ := addLease_ok done
    refine ⟨inSubnet, inRange, ?_⟩
    by_cases empty : (s.heap p).hostname = ""
    · exact .inl empty
    · exact .inr (free empty)
  · rintro ⟨inSubnet, inRange, free⟩
    refine ⟨s.insertLease p, ?_⟩
    unfold addLease
    dsimp only
    rw [if_neg, if_neg, if_neg]
    · rintro ⟨nonempty, used⟩
      rcases free with empty | none
      · exact nonempty empty
      · simp [none] at used
    · cases isStatic : (s.heap p).isStatic with
      | true => simp
      | false => simp [inRange isStatic]
    · cases isStatic : (s.heap p).isStatic with
      | true => simp [inSubnet isStatic]
      | false => simp

section Add

variable {l' : Lease}

/-- What the removing loop of `AddStaticLease` comes to. -/
theorem Indexed.swept (inv : Indexed s) (l' : Lease) :
    Swept (fun p => (s.heap p).hostname) s.next (s.new l') ((s.new l').rmDynamicLease s.next)
      (sweep (fun p => sameProperties (s.heap p) l') (fun p => (s.heap p).isStatic)
        s.leases.elems) := by
  have stored : ∀ p ∈ s.leases.elems, (s.new l').heap p = s.heap p := fun p listed =>
    heap_new_of_lt s l' (inv.wf.bounded p listed)
  cases isLast : s.leases.elems.getLast? with
  | none =>
    have empty := List.getLast?_eq_none_iff.mp isLast
    rw [empty]
    refine ⟨s.new l', ?_, rfl, fun h => rfl⟩
    simp [V4Server.rmDynamicLease, Slice.len, empty, rmDynamicLoop]
  | some last =>
    have at_ : Sweeping (fun p => sameProperties (s.heap p) l') (fun p => (s.heap p).isStatic)
        (fun p => (s.heap p).hostname) s.next last [] s.leases.elems 0 (s.new l') := by
      refine ⟨rfl, fun p listed => ?_, fun p listed => ?_, fun p listed => ?_, inv.nodup,
        fun listed => Nat.lt_irrefl _ (inv.wf.bounded _ listed), isLast, rfl⟩
      · rw [heap_new_self, stored p listed]
      · rw [stored p listed]
      · rw [stored p listed]
    exact rmDynamicLoop_swept at_ fun _ none => absurd none (Nat.lt_irrefl 0)

/-- The edit of the table reports no error exactly when it goes through; if it does not,
the table is as the removing loop left it. -/
theorem Indexed.updateStaticLeaseInner_cases (inv : Indexed s) (isStatic : l'.isStatic = true) :
    (GoesThrough s l' ∧ ∃ s', s.updateStaticLeaseInner l' = some (s', none)) ∨
      (¬GoesThrough s l' ∧ ∃ s₁ err₁ err, (s.new l').rmDynamicLease s.next = some (s₁, err₁) ∧
        s.updateStaticLeaseInner l' = some (s₁, some err)) := by
  have swept := inv.swept l'
  cases looked : sweep (fun p => sameProperties (s.heap p) l') (fun p => (s.heap p).isStatic)
      s.leases.elems with
  | none =>
    rw [looked] at swept
    obtain ⟨s₁, done⟩ := swept
    refine .inr ⟨?_, s₁, _, .wrapped "removing dynamic leases" .staticLeaseExists, done,
      by simp [updateStaticLeaseInner, done]⟩
    rintro ⟨removed, found, -⟩
    rw [looked] at found
    cases found
  | some removed =>
    rw [looked] at swept
    obtain ⟨s₁, done, stored, hosts⟩ := swept
    rw [heap_new_self] at stored
    have conf : s₁.conf = s.conf := (Trimmed.rmDynamicLease done).conf
    have free : s₁.hostsIndex l'.hostname = none ↔ s.hostsIndex l'.hostname = none ∨
        l'.hostname ∈ removed.map fun p => (s.heap p).hostname := by
      rw [hosts]
      split
      · rename_i goes
        simp [goes]
      · rename_i stays
        simp [stays]
    have through : (∃ s', s₁.addLease s.next = .ok s') ↔ GoesThrough s l' := by
      rw [addLease_isOk_iff, stored, subnet_congr conf, free]
      unfold GoesThrough
      simp [looked, isStatic]
    by_cases goes : GoesThrough s l'
    · obtain ⟨s', added⟩ := through.mpr goes
      exact .inl ⟨goes, s', by simp [updateStaticLeaseInner, done, added]⟩
    · cases added : s₁.addLease s.next with
      | ok s' => exact absurd (through.mp ⟨s', added⟩) goes
      | error err =>
        exact .inr ⟨goes, s₁, _, .wrapped "adding static lease" err, done,
          by simp [updateStaticLeaseInner, done, added]⟩

/-- The loop of `AddStaticLease` over a table that it leaves alone. -/
theorem Indexed.map_heap_new (inv : Indexed s) (l' : Lease) :
    s.leases.elems.map (s.new l').heap = s.leases.elems.map s.heap :=
  List.map_congr_left fun p listed => heap_new_of_lt s l' (inv.wf.bounded p listed)

theorem Indexed.atomicAdd_iff (inv : Indexed s) : AtomicAdd nu s l ↔ AddSafe nu s l := by
  constructor
  · intro atomic l' checked
    have isStatic : l'.isStatic = true := (checkStatic_ok checked).2.2.2.1
    rcases inv.updateStaticLeaseInner_cases isStatic with ⟨goes, -⟩ | ⟨-, s₁, err₁, err, removed, failed⟩
    · exact .inr goes
    left
    have same : Unchanged s s₁ := atomic s₁ err (by simp [addStaticLease, checked, failed])
    by_contra touched
    have touched : leavesAlone ((s.new l').heap s.next)
        (s.leases.elems.map (s.new l').heap) = false := by
      rw [heap_new_self, inv.map_heap_new]
      exact Bool.eq_false_iff.mpr touched
    rcases rmDynamicLoop_touches (s := s.new l') (A := []) rfl touched removed with
      shorter | ⟨q, listed, differs⟩
    · rw [same.leases] at shorter
      exact Nat.lt_irrefl _ shorter
    · rw [heap_new_of_lt s l' (inv.wf.bounded q listed)] at differs
      exact differs (same.stored q listed)
  · intro safe s' err done
    unfold addStaticLease at done
    split at done
    · cases done
      exact .refl s
    rename_i l' checked
    have isStatic : l'.isStatic = true := (checkStatic_ok checked).2.2.2.1
    rcases inv.updateStaticLeaseInner_cases isStatic with ⟨-, s₂, fine⟩ |
      ⟨stuck, s₁, err₁, err', removed, failed⟩
    · rw [fine] at done
      cases done
    rw [failed] at done
    cases done
    rcases safe l' checked with alone | goes
    · have alone : leavesAlone ((s.new l').heap s.next)
          (s.leases.elems.map (s.new l').heap) = true := by
        rw [heap_new_self, inv.map_heap_new, alone]
      obtain ⟨err₂, kept⟩ := rmDynamicLoop_alone (s := s.new l') (A := []) rfl alone
      have same : some (s', err₁) = some (s.new l', err₂) := removed.symm.trans kept
      cases same
      exact .new inv.wf.bounded l'
    · exact absurd goes stuck

end Add

section Update

variable {found : Ptr} {l' : Lease}

/-- The lease that `UpdateStaticLease` has found can be removed. -/
theorem Indexed.rmLease_found (inv : Indexed s) (listed : found ∈ s.leases.elems) :
    ∃ A rest, s.leases.elems = A ++ found :: rest ∧
      s.rmLease (s.heap found) = .ok (s.rmLeaseByIndex A.length) := by
  have nonempty : s.leases.elems.isEmpty = false := by
    cases parts : s.leases.elems with
    | nil =>
      rw [parts] at listed
      cases listed
    | cons p rest => rfl
  unfold rmLease
  rw [nonempty, if_neg Bool.false_ne_true]
  cases lookup : s.leases.elems.findIdx? fun p => (s.heap p).ip == (s.heap found).ip with
  | none =>
    have absent := List.findIdx?_eq_none_iff.mp lookup found listed
    simp at absent
  | some i =>
    obtain ⟨inside, same, -⟩ := List.findIdx?_eq_some_iff_getElem.mp lookup
    have isFound : s.leases.elems[i] = found :=
      inv.addr.eq_of_ip_eq (List.getElem_mem inside) listed (by simpa using same)
    have entry : s.leases.elems[i]? = some found := by
      rw [List.getElem?_eq_getElem inside, isFound]
    refine ⟨s.leases.elems.take i, s.leases.elems.drop (i + 1), ?_, ?_⟩
    · rw [← isFound]
      simp
    · have atIndex : (s.leases.elems.take i).length = i := by
        rw [List.length_take]
        omega
      simp [entry, atIndex]

/-- The last step of `UpdateStaticLease` enters the validated lease exactly under the
condition of `UpdateSafe`. -/
theorem update_addLease_iff {A rest : List Ptr} (parts : s.leases.elems = A ++ found :: rest)
    (valid : s.validateStaticLease nu l = .ok l') :
    (∃ s', ((s.rmLeaseByIndex A.length).new l').addLease (s.rmLeaseByIndex A.length).next =
        .ok s') ↔
      (l'.isStatic = true ∨ (s.offset l'.ip).2 = true) ∧
        (l'.hostname = "" ∨ s.hostsIndex l'.hostname = none ∨
          l'.hostname = (s.heap found).hostname) := by
  obtain ⟨⟨hostname, sameLease, -⟩, -, inside⟩ := validateStaticLease_ok valid
  have inSubnet : s.subnet.contains l'.ip = true := by rw [sameLease, inside]
  have conf : (s.rmLeaseByIndex A.length).conf = s.conf := rmLeaseByIndex_conf s A.length
  rw [addLease_isOk_iff, heap_new_self, subnet_new, offset_new, new_hostsIndex,
    subnet_congr conf, offset_congr conf, hostsIndex_rmLeaseByIndex parts]
  have ranged : (l'.isStatic = false → (s.offset l'.ip).2 = true) ↔
      (l'.isStatic = true ∨ (s.offset l'.ip).2 = true) := by
    cases l'.isStatic <;> simp
  have free : (if l'.hostname = (s.heap found).hostname then none
      else s.hostsIndex l'.hostname) = none ↔
        (s.hostsIndex l'.hostname = none ∨ l'.hostname = (s.heap found).hostname) := by
    split
    · rename_i own
      simp [own]
    · rename_i other
      simp [other]
  rw [ranged, free]
  simp [inSubnet]

theorem Indexed.atomicUpdate_iff (inv : Indexed s) :
    AtomicUpdate nu s l ↔ UpdateSafe nu s l := by
  constructor
  · intro atomic found l' lookup valid
    obtain ⟨A, rest, parts, removed⟩ := inv.rmLease_found (List.mem_of_find?_eq_some lookup)
    rw [← update_addLease_iff parts valid]
    cases added : ((s.rmLeaseByIndex A.length).new l').addLease
        (s.rmLeaseByIndex A.length).next with
    | ok s' => exact ⟨s', rfl⟩
    | error err =>
      have same : Unchanged s ((s.rmLeaseByIndex A.length).new l') :=
        atomic _ (.wrapped "adding updated static lease" err) (by
          simp only [updateStaticLease, lookup, valid, removed, added])
      have shorter := congrArg List.length same.leases
      rw [new_leases, elems_rmLeaseByIndex parts, parts] at shorter
      simp at shorter
  · intro safe s' err done
    unfold updateStaticLease at done
    split at done
    · cases done
      exact .refl s
    rename_i found lookup
    split at done
    · cases done
      exact .refl s
    rename_i l' valid
    obtain ⟨A, rest, parts, removed⟩ := inv.rmLease_found (List.mem_of_find?_eq_some lookup)
    obtain ⟨s₂, added⟩ := (update_addLease_iff parts valid).mpr (safe found l' lookup valid)
    simp only [removed, added] at done
    cases done

end Update

theorem atomicRemove (nu : Netutil) (s : V4Server) (l : Lease) : AtomicRemove nu s l := by
  intro s' err done
  unfold removeStaticLease at done
  split at done
  · cases done
    exact .refl s
  split at done
  · cases done
    exact .refl s
  split at done
  · cases done
    exact .refl s
  split at done
  · cases done
    exact .refl s
  · cases done

/-- The static lease `192.168.10.51`, named after the printer. -/
def namesake : Lease := { ip := hostAddr 51, hostname := "printer", hwAddr := clientMAC 2 }

end FirewallCore.Dhcpd.V4Server
