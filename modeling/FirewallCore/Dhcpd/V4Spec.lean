import Mathlib.Data.List.Chain
import FirewallCore.Dhcpd.V4Server

/-!
What each operation of the DHCPv4 server can do: one inversion lemma for each
function, saying from which states and arguments it returns and what it leaves.
The invariants of the lease table are derived from these and never unfold the
operations themselves.
-/

namespace FirewallCore.Dhcpd.V4Server

open FirewallCore.Net FirewallCore.Lib

variable {nu : Netutil} {s s' : V4Server} {p q : Ptr} {i : Nat}

/-! ### Heap and frame lemmas -/

@[simp] theorem heap_new_self (s : V4Server) (l : Lease) : (s.new l).heap s.next = l :=
  Function.update_self ..

theorem heap_new_of_lt (s : V4Server) (l : Lease) (h : p < s.next) :
    (s.new l).heap p = s.heap p :=
  Function.update_of_ne (Nat.ne_of_lt h) ..

@[simp] theorem new_conf (s : V4Server) (l : Lease) : (s.new l).conf = s.conf := rfl
@[simp] theorem new_next (s : V4Server) (l : Lease) : (s.new l).next = s.next + 1 := rfl
@[simp] theorem new_leases (s : V4Server) (l : Lease) : (s.new l).leases = s.leases := rfl
@[simp] theorem new_hostsIndex (s : V4Server) (l : Lease) :
    (s.new l).hostsIndex = s.hostsIndex := rfl
@[simp] theorem new_ipIndex (s : V4Server) (l : Lease) : (s.new l).ipIndex = s.ipIndex := rfl
@[simp] theorem new_leasedOffsets (s : V4Server) (l : Lease) :
    (s.new l).leasedOffsets = s.leasedOffsets := rfl

@[simp] theorem heap_modify_self (s : V4Server) (p : Ptr) (f : Lease → Lease) :
    (s.modify p f).heap p = f (s.heap p) :=
  Function.update_self ..

theorem heap_modify_of_ne (s : V4Server) (f : Lease → Lease) (h : q ≠ p) :
    (s.modify p f).heap q = s.heap q :=
  Function.update_of_ne h ..

theorem heap_modify (s : V4Server) (p q : Ptr) (f : Lease → Lease) :
    (s.modify p f).heap q = if q = p then f (s.heap q) else s.heap q := by
  by_cases h : q = p
  · subst h
    simp
  · rw [heap_modify_of_ne s f h, if_neg h]

@[simp] theorem modify_conf (s : V4Server) (p : Ptr) (f : Lease → Lease) :
    (s.modify p f).conf = s.conf := rfl
@[simp] theorem modify_next (s : V4Server) (p : Ptr) (f : Lease → Lease) :
    (s.modify p f).next = s.next := rfl
@[simp] theorem modify_leases (s : V4Server) (p : Ptr) (f : Lease → Lease) :
    (s.modify p f).leases = s.leases := rfl
@[simp] theorem modify_hostsIndex (s : V4Server) (p : Ptr) (f : Lease → Lease) :
    (s.modify p f).hostsIndex = s.hostsIndex := rfl
@[simp] theorem modify_ipIndex (s : V4Server) (p : Ptr) (f : Lease → Lease) :
    (s.modify p f).ipIndex = s.ipIndex := rfl
@[simp] theorem modify_leasedOffsets (s : V4Server) (p : Ptr) (f : Lease → Lease) :
    (s.modify p f).leasedOffsets = s.leasedOffsets := rfl

/-- The derived readings depend on the configuration alone. -/
theorem offset_congr (h : s'.conf = s.conf) (ip : Addr) : s'.offset ip = s.offset ip := by
  unfold offset
  rw [h]

theorem subnet_congr (h : s'.conf = s.conf) : s'.subnet = s.subnet := by
  unfold subnet
  rw [h]

theorem leaseTime_congr (h : s'.conf = s.conf) : s'.leaseTime = s.leaseTime := by
  unfold leaseTime
  rw [h]

@[simp] theorem offset_new (s : V4Server) (l : Lease) (ip : Addr) :
    (s.new l).offset ip = s.offset ip := rfl
@[simp] theorem subnet_new (s : V4Server) (l : Lease) : (s.new l).subnet = s.subnet := rfl
@[simp] theorem offset_modify (s : V4Server) (p : Ptr) (f : Lease → Lease) (ip : Addr) :
    (s.modify p f).offset ip = s.offset ip := rfl
@[simp] theorem leaseTime_modify (s : V4Server) (p : Ptr) (f : Lease → Lease) :
    (s.modify p f).leaseTime = s.leaseTime := rfl

theorem offset_eq_true {ip : Addr} {o : Nat} (h : s.offset ip = (o, true)) :
    ∃ r, s.conf.bind (·.ipRange) = some r ∧ ip.as16 = r.start + o ∧ ip.as16 ≤ r.stop := by
  unfold offset at h
  split at h
  · simp at h
  · rename_i r found
    exact ⟨r, found, IPRange.offset_eq_true.mp h⟩

/-- Outside of the range the offset is zero. -/
theorem offset_fst_eq_zero {ip : Addr} (outside : (s.offset ip).2 = false) :
    (s.offset ip).1 = 0 := by
  unfold offset at outside ⊢
  split at outside
  · rfl
  · exact IPRange.offset_eq_false (Prod.ext rfl outside)

/-- Two addresses of one family at the same offset are the same address. -/
theorem eq_of_offset_eq {a b : Addr} {o : Nat} (ha : a.is4 = true) (hb : b.is4 = true)
    (offA : s.offset a = (o, true)) (offB : s.offset b = (o, true)) : a = b := by
  obtain ⟨r, found, atA, -⟩ := offset_eq_true offA
  obtain ⟨r', found', atB, -⟩ := offset_eq_true offB
  rw [found] at found'
  cases found'
  cases a with
  | v4 m =>
    cases b with
    | v4 n => rw [Addr.as16_v4_inj (atA.trans atB.symm)]
    | zero => simp [Addr.is4] at hb
    | v6 n zone => simp [Addr.is4] at hb
  | zero => simp [Addr.is4] at ha
  | v6 n zone => simp [Addr.is4] at ha

/-! ### Removing -/

/-- `rmLeaseByIndex` does nothing behind the end of the slice, and inside it
takes one entry out of every structure. -/
theorem rmLeaseByIndex_cases (s : V4Server) (i : Nat) :
    (s.leases.elems[i]? = none ∧ s.rmLeaseByIndex i = s) ∨
      ∃ p, s.leases.elems[i]? = some p ∧ s.rmLeaseByIndex i =
        { s with
          leases := s.leases.removeAt i
          leasedOffsets :=
            if (s.offset (s.heap p).ip).2 then
              s.leasedOffsets.set (s.offset (s.heap p).ip).1 false
            else s.leasedOffsets
          hostsIndex := Function.update s.hostsIndex (s.heap p).hostname none
          ipIndex := Function.update s.ipIndex (s.heap p).ip none } := by
  cases h : s.leases.elems[i]? with
  | none => exact .inl ⟨rfl, by simp [rmLeaseByIndex, h]⟩
  | some p => exact .inr ⟨p, rfl, by simp [rmLeaseByIndex, h]⟩

@[simp] theorem rmLeaseByIndex_heap (s : V4Server) (i : Nat) :
    (s.rmLeaseByIndex i).heap = s.heap := by
  rcases rmLeaseByIndex_cases s i with ⟨-, same⟩ | ⟨p, -, removed⟩
  · rw [same]
  · rw [removed]

@[simp] theorem rmLeaseByIndex_conf (s : V4Server) (i : Nat) :
    (s.rmLeaseByIndex i).conf = s.conf := by
  rcases rmLeaseByIndex_cases s i with ⟨-, same⟩ | ⟨p, -, removed⟩
  · rw [same]
  · rw [removed]

@[simp] theorem rmLeaseByIndex_next (s : V4Server) (i : Nat) :
    (s.rmLeaseByIndex i).next = s.next := by
  rcases rmLeaseByIndex_cases s i with ⟨-, same⟩ | ⟨p, -, removed⟩
  · rw [same]
  · rw [removed]

theorem rmLeaseByIndex_leases (h : i < s.leases.len) :
    (s.rmLeaseByIndex i).leases = s.leases.removeAt i := by
  rcases rmLeaseByIndex_cases s i with ⟨outside, -⟩ | ⟨p, -, removed⟩
  · exact absurd h (Nat.not_lt.mpr (List.getElem?_eq_none_iff.mp outside))
  · rw [removed]

/-- `blankHostname` writes at most the hostname of one lease. -/
theorem blankHostname_cases (s : V4Server) (lease p : Ptr) :
    s.blankHostname lease p = s ∨
      ((s.heap p).hostname = (s.heap lease).hostname ∧
        s.blankHostname lease p = s.modify p fun l => { l with hostname := "" }) := by
  unfold blankHostname
  split
  · rename_i same
    exact .inr ⟨same, rfl⟩
  · exact .inl rfl

@[simp] theorem blankHostname_leases (s : V4Server) (lease p : Ptr) :
    (s.blankHostname lease p).leases = s.leases := by
  rcases blankHostname_cases s lease p with same | ⟨-, blanked⟩
  · rw [same]
  · rw [blanked, modify_leases]

@[simp] theorem blankHostname_conf (s : V4Server) (lease p : Ptr) :
    (s.blankHostname lease p).conf = s.conf := by
  rcases blankHostname_cases s lease p with same | ⟨-, blanked⟩
  · rw [same]
  · rw [blanked, modify_conf]

@[simp] theorem blankHostname_leasedOffsets (s : V4Server) (lease p : Ptr) :
    (s.blankHostname lease p).leasedOffsets = s.leasedOffsets := by
  rcases blankHostname_cases s lease p with same | ⟨-, blanked⟩
  · rw [same]
  · rw [blanked, modify_leasedOffsets]

@[simp] theorem blankHostname_ipIndex (s : V4Server) (lease p : Ptr) :
    (s.blankHostname lease p).ipIndex = s.ipIndex := by
  rcases blankHostname_cases s lease p with same | ⟨-, blanked⟩
  · rw [same]
  · rw [blanked, modify_ipIndex]

/-- `blankHostname` keeps everything but hostnames, and these it empties. -/
theorem blankHostname_lease (s : V4Server) (lease p q : Ptr) :
    ∃ hostname, (s.blankHostname lease p).heap q = { s.heap q with hostname := hostname } ∧
      (hostname = (s.heap q).hostname ∨ hostname = "") := by
  rcases blankHostname_cases s lease p with same | ⟨-, blanked⟩
  · exact ⟨_, by rw [same], .inl rfl⟩
  · rw [blanked, heap_modify]
    split
    · exact ⟨_, rfl, .inr rfl⟩
    · exact ⟨_, rfl, .inl rfl⟩

/-- A lease whose hostname is not that of `lease`, or is empty already, stays. -/
theorem blankHostname_eq_self {lease : Ptr}
    (safe : (s.heap lease).hostname ≠ "" → (s.heap q).hostname ≠ (s.heap lease).hostname) :
    s.blankHostname lease q = s := by
  rcases blankHostname_cases s lease q with same | ⟨named, blanked⟩
  · exact same
  · have empty : (s.heap q).hostname = "" := by
      by_contra nonempty
      exact safe (by rwa [← named]) named
    have unchanged : ({ s.heap q with hostname := "" } : Lease) = s.heap q := by rw [← empty]
    rw [blanked, modify, unchanged, Function.update_eq_self]

@[simp] theorem blankHostname_ip (s : V4Server) (lease p q : Ptr) :
    ((s.blankHostname lease p).heap q).ip = (s.heap q).ip := by
  obtain ⟨hostname, same, -⟩ := blankHostname_lease s lease p q
  rw [same]

@[simp] theorem blankHostname_hwAddr (s : V4Server) (lease p q : Ptr) :
    ((s.blankHostname lease p).heap q).hwAddr = (s.heap q).hwAddr := by
  obtain ⟨hostname, same, -⟩ := blankHostname_lease s lease p q
  rw [same]

@[simp] theorem blankHostname_isStatic (s : V4Server) (lease p q : Ptr) :
    ((s.blankHostname lease p).heap q).isStatic = (s.heap q).isStatic := by
  obtain ⟨hostname, same, -⟩ := blankHostname_lease s lease p q
  rw [same]

@[simp] theorem sameProperties_blankHostname (s : V4Server) (lease p q q' : Ptr) :
    sameProperties ((s.blankHostname lease p).heap q) ((s.blankHostname lease p).heap q') =
      sameProperties (s.heap q) (s.heap q') := by
  simp [sameProperties]

/-- The dynamic leases that `rmDynamicLease` removes for this pair. -/
def DynamicFor (mac : HardwareAddr) (ip : Addr) (l : Lease) : Prop :=
  l.isStatic = false ∧ (l.hwAddr = mac ∨ l.ip = ip)

/-- A rule for the loop of `rmDynamicLease`: what the deletion of a dynamic entry
with the properties of `lease` and a blanked hostname keep, the loop keeps,
wherever it starts. -/
theorem rmDynamicLoop_preserves {I : V4Server → Prop} {lease : Ptr}
    (removal : ∀ s i p, I s → s.leases.elems[i]? = some p → (s.heap p).isStatic = false →
      sameProperties (s.heap p) (s.heap lease) = true → I (s.rmLeaseByIndex i))
    (blank : ∀ s q, I s → I (s.blankHostname lease q)) {n : Nat} {err : Option V4Err}
    (done : rmDynamicLoop lease n i s = some (s', err)) (start : I s) : I s' := by
  induction n generalizing i s with
  | zero =>
    cases done
    exact start
  | succ n ih =>
    simp only [rmDynamicLoop] at done
    split at done
    · cases done
    · rename_i p cell
      split at done
      · rename_i hit
        split at done
        · cases done
          exact start
        · rename_i isDynamic
          have removed : I (s.rmLeaseByIndex i) := by
            rcases rmLeaseByIndex_cases s i with ⟨-, same⟩ | ⟨q, entry, -⟩
            · rwa [same]
            · have inside := (List.getElem?_eq_some_iff.mp entry).1
              rw [Slice.cells_getElem?_lt _ inside, entry] at cell
              cases cell
              exact removal s i p start entry (by simpa using isDynamic) hit
          split at done
          · cases done
            exact removed
          · split at done
            · cases done
            · exact ih done (blank _ _ removed)
      · split at done
        · exact ih done start
        · exact ih done (blank _ _ start)

theorem rmDynamicLease_preserves {I : V4Server → Prop} {lease : Ptr}
    (removal : ∀ s i p, I s → s.leases.elems[i]? = some p → (s.heap p).isStatic = false →
      sameProperties (s.heap p) (s.heap lease) = true → I (s.rmLeaseByIndex i))
    (blank : ∀ s q, I s → I (s.blankHostname lease q)) {err : Option V4Err}
    (done : s.rmDynamicLease lease = some (s', err)) (start : I s) : I s' :=
  rmDynamicLoop_preserves removal blank done start

/-- What a removal does to the rest of the server: entries go, and hostnames may be
emptied, but nothing else of a lease changes. -/
structure Trimmed (s s' : V4Server) : Prop where
  conf : s'.conf = s.conf
  next : s'.next = s.next
  sub : s'.leases.elems.Sublist s.leases.elems
  lease : ∀ p, ∃ hostname, s'.heap p = { s.heap p with hostname := hostname } ∧
    (hostname = (s.heap p).hostname ∨ hostname = "")

namespace Trimmed

theorem refl (s : V4Server) : Trimmed s s := ⟨rfl, rfl, .refl _, fun _ => ⟨_, rfl, .inl rfl⟩⟩

theorem trans {s s' s'' : V4Server} (first : Trimmed s s') (second : Trimmed s' s'') :
    Trimmed s s'' := by
  refine ⟨second.conf.trans first.conf, second.next.trans first.next,
    second.sub.trans first.sub, ?_⟩
  intro p
  obtain ⟨name, here, known⟩ := first.lease p
  obtain ⟨name', there, known'⟩ := second.lease p
  refine ⟨name', by rw [there, here], ?_⟩
  rw [here] at known'
  rcases known' with rfl | empty
  · exact known
  · exact .inr empty

theorem ip (h : Trimmed s s') (p : Ptr) : (s'.heap p).ip = (s.heap p).ip := by
  obtain ⟨hostname, same, -⟩ := h.lease p
  rw [same]

theorem hwAddr (h : Trimmed s s') (p : Ptr) : (s'.heap p).hwAddr = (s.heap p).hwAddr := by
  obtain ⟨hostname, same, -⟩ := h.lease p
  rw [same]

theorem isStatic (h : Trimmed s s') (p : Ptr) : (s'.heap p).isStatic = (s.heap p).isStatic := by
  obtain ⟨hostname, same, -⟩ := h.lease p
  rw [same]

theorem expiry (h : Trimmed s s') (p : Ptr) : (s'.heap p).expiry = (s.heap p).expiry := by
  obtain ⟨hostname, same, -⟩ := h.lease p
  rw [same]

/-- A hostname that is still there is the old one. -/
theorem hostname (h : Trimmed s s') (named : (s'.heap p).hostname ≠ "") :
    (s'.heap p).hostname = (s.heap p).hostname := by
  obtain ⟨hostname, same, known⟩ := h.lease p
  rw [same] at named ⊢
  exact known.resolve_right named

theorem rmLeaseByIndex (s : V4Server) (i : Nat) : Trimmed s (s.rmLeaseByIndex i) := by
  refine ⟨rmLeaseByIndex_conf s i, rmLeaseByIndex_next s i, ?_, ?_⟩
  · rcases rmLeaseByIndex_cases s i with ⟨-, same⟩ | ⟨p, -, removed⟩
    · rw [same]
    · rw [removed]
      exact List.eraseIdx_sublist ..
  · intro p
    exact ⟨_, by rw [rmLeaseByIndex_heap], .inl rfl⟩

theorem blankHostname (s : V4Server) (lease p : Ptr) : Trimmed s (s.blankHostname lease p) := by
  refine ⟨blankHostname_conf s lease p, ?_, ?_, blankHostname_lease s lease p⟩
  · rcases blankHostname_cases s lease p with same | ⟨-, blanked⟩
    · rw [same]
    · rw [blanked, modify_next]
  · rw [blankHostname_leases]

theorem rmDynamicLease {lease : Ptr} {err : Option V4Err}
    (done : s.rmDynamicLease lease = some (s', err)) : Trimmed s s' :=
  rmDynamicLease_preserves (fun _ i _ h _ _ _ => h.trans (rmLeaseByIndex _ i))
    (fun _ q h => h.trans (blankHostname _ lease q)) done (refl s)

end Trimmed

theorem rmLeaseByIndex_outside (outside : s.leases.len ≤ i) : s.rmLeaseByIndex i = s := by
  rcases rmLeaseByIndex_cases s i with ⟨-, same⟩ | ⟨p, entry, -⟩
  · exact same
  · exact absurd outside (Nat.not_le.mpr (List.getElem?_eq_some_iff.mp entry).1)

section Step

variable {lease b d : Ptr} {n : Nat} {err : Option V4Err} {A rest : List Ptr}

theorem rmDynamicLoop_static {i : Nat} (here : s.leases.cells[i]? = some b)
    (hit : sameProperties (s.heap b) (s.heap lease) = true)
    (isStatic : (s.heap b).isStatic = true) :
    rmDynamicLoop lease (n + 1) i s = some (s, some .staticLeaseExists) := by
  simp only [rmDynamicLoop, here, hit, isStatic, if_true]

theorem rmDynamicLoop_miss {i : Nat} (here : s.leases.cells[i]? = some b)
    (miss : sameProperties (s.heap b) (s.heap lease) = false) :
    rmDynamicLoop lease (n + 1) i s = rmDynamicLoop lease n (i + 1)
      (if (s.heap b).isStatic then s else s.blankHostname lease b) := by
  simp only [rmDynamicLoop, here, miss, Bool.false_eq_true, if_false]

theorem elems_rmLeaseByIndex (parts : s.leases.elems = A ++ b :: rest) :
    (s.rmLeaseByIndex A.length).leases.elems = A ++ rest := by
  rw [rmLeaseByIndex_leases (by simp [Slice.len, parts]), Slice.elems_removeAt, parts]
  simp [List.eraseIdx_append_of_length_le]

theorem cells_here (parts : s.leases.elems = A ++ b :: rest) :
    s.leases.cells[A.length]? = some b := by
  rw [Slice.cells_getElem?_lt _ (by simp [Slice.len, parts]), parts]
  simp

theorem rmDynamicLoop_last (parts : s.leases.elems = A ++ [b])
    (hit : sameProperties (s.heap b) (s.heap lease) = true)
    (isDynamic : (s.heap b).isStatic = false) :
    rmDynamicLoop lease (n + 1) A.length s = some (s.rmLeaseByIndex A.length, none) := by
  have atEnd : A.length = (s.rmLeaseByIndex A.length).leases.len := by
    simp [Slice.len, elems_rmLeaseByIndex parts]
  simp only [rmDynamicLoop, cells_here parts, hit, isDynamic, Bool.false_eq_true, if_false,
    if_true, if_pos atEnd]

theorem rmDynamicLoop_removed (parts : s.leases.elems = A ++ b :: d :: rest)
    (hit : sameProperties (s.heap b) (s.heap lease) = true)
    (isDynamic : (s.heap b).isStatic = false) :
    rmDynamicLoop lease (n + 1) A.length s = rmDynamicLoop lease n (A.length + 1)
      ((s.rmLeaseByIndex A.length).blankHostname lease d) := by
  have left := elems_rmLeaseByIndex parts
  have inside : A.length ≠ (s.rmLeaseByIndex A.length).leases.len := by
    simp [Slice.len, left]
  have next : (s.rmLeaseByIndex A.length).leases.elems[A.length]? = some d := by
    simp [left]
  simp only [rmDynamicLoop, cells_here parts, hit, isDynamic, Bool.false_eq_true, if_false,
    if_true, if_neg inside, next]

/-- Behind the end of the slice the loop only reads stale cells, and deletes nothing. -/
theorem rmDynamicLoop_stale {I : V4Server → Prop} {N : Ptr → Prop}
    (blank : ∀ s q, I s → (q ∈ s.leases.elems → ¬N q) → I (s.blankHostname lease q))
    (done : rmDynamicLoop lease n i s = some (s', err))
    (start : I s) (outside : s.leases.len ≤ i)
    (statics : ∀ q ∈ s.leases.elems, N q → (s.heap q).isStatic = true) : I s' := by
  induction n generalizing i s with
  | zero =>
    cases done
    exact start
  | succ n ih =>
    simp only [rmDynamicLoop, rmLeaseByIndex_outside outside] at done
    split at done
    · cases done
    rename_i p _
    split at done
    · split at done
      · cases done
        exact start
      · split at done
        · cases done
          exact start
        · split at done
          · cases done
          · rename_i q entry
            exact absurd outside (Nat.not_le.mpr (List.getElem?_eq_some_iff.mp entry).1)
    · split at done
      · exact ih done start (by omega) statics
      · rename_i isDynamic
        have safe : p ∈ s.leases.elems → ¬N p := fun member named =>
          isDynamic (statics p member named)
        refine ih done (blank s p start safe) (by rw [blankHostname_leases]; omega) ?_
        simpa using statics

/-- The loop, entry by entry: `A` is the part it has passed, and `B` what it comes to. -/
theorem rmDynamicLoop_induct {J : List Ptr → List Ptr → V4Server → Prop}
    {Q : V4Server → Option V4Err → Prop}
    (parts : ∀ {A B s}, J A B s → s.leases.elems = A ++ B)
    (stale : ∀ {A s n}, J A [] s → rmDynamicLoop lease n A.length s = some (s', err) → Q s' err)
    (fixed : ∀ {A b rest s}, J A (b :: rest) s → (s.heap b).isStatic = true →
      Q s (some .staticLeaseExists))
    (last : ∀ {A b s}, J A [b] s → sameProperties (s.heap b) (s.heap lease) = true →
      (s.heap b).isStatic = false → Q (s.rmLeaseByIndex A.length) none)
    (removed : ∀ {A b d rest s}, J A (b :: d :: rest) s →
      sameProperties (s.heap b) (s.heap lease) = true → (s.heap b).isStatic = false →
      J (A ++ [d]) rest ((s.rmLeaseByIndex A.length).blankHostname lease d))
    (missed : ∀ {A b rest s}, J A (b :: rest) s →
      sameProperties (s.heap b) (s.heap lease) = false →
      J (A ++ [b]) rest (if (s.heap b).isStatic then s else s.blankHostname lease b))
    {A B : List Ptr} (start : J A B s) (enough : B.length ≤ n)
    (done : rmDynamicLoop lease n A.length s = some (s', err)) : Q s' err := by
  induction n generalizing s A B with
  | zero =>
    obtain rfl := List.length_eq_zero_iff.mp (Nat.le_zero.mp enough)
    exact stale start done
  | succ n ih =>
    cases B with
    | nil => exact stale start done
    | cons b rest =>
      have here := parts start
      have later : rest.length ≤ n := Nat.le_of_succ_le_succ enough
      cases hit : sameProperties (s.heap b) (s.heap lease) with
      | false =>
        rw [rmDynamicLoop_miss (cells_here here) hit] at done
        exact ih (missed start hit) later (by simpa using done)
      | true =>
        cases isStatic : (s.heap b).isStatic with
        | true =>
          rw [rmDynamicLoop_static (cells_here here) hit isStatic] at done
          cases done
          exact fixed start isStatic
        | false =>
          cases rest with
          | nil =>
            rw [rmDynamicLoop_last here hit isStatic] at done
            cases done
            exact last start hit isStatic
          | cons d rest =>
            rw [rmDynamicLoop_removed here hit isStatic] at done
            exact ih (removed start hit isStatic) (Nat.le_of_succ_le later) (by simpa using done)

/-- What the deletions leave: as long as no `bad` entry stands directly behind one that is
removed, every `bad` entry is looked at, and none is left. -/
theorem rmDynamicLease_survivors (bad : Ptr → Prop)
    (done : s.rmDynamicLease lease = some (s', none))
    (hits : ∀ p, bad p → sameProperties (s.heap p) (s.heap lease) = true)
    (spaced : s.leases.elems.IsChain fun b c =>
      sameProperties (s.heap b) (s.heap lease) = true → (s.heap b).isStatic = false → ¬bad c) :
    ∀ p ∈ s'.leases.elems, ¬bad p := by
  refine rmDynamicLoop_induct (J := fun A B t => t.leases.elems = A ++ B ∧ (∀ p ∈ A, ¬bad p) ∧
      (∀ p, bad p → sameProperties (t.heap p) (t.heap lease) = true) ∧
      B.IsChain fun b c => sameProperties (t.heap b) (t.heap lease) = true →
        (t.heap b).isStatic = false → ¬bad c)
    (Q := fun t err => err = none → ∀ p ∈ t.leases.elems, ¬bad p) (fun j => j.1) ?_ nofun ?_ ?_ ?_
    (A := []) ⟨rfl, by simp, hits, spaced⟩ le_rfl done rfl
  · rintro A t n ⟨parts, passed, -⟩ done -
    have same := rmDynamicLoop_stale (I := (·.leases = t.leases)) (N := fun _ => False)
      (fun _ _ same _ => (blankHostname_leases ..).trans same) done rfl (by simp [Slice.len, parts])
      nofun
    simpa [same, parts] using passed
  · rintro A b t ⟨parts, passed, -⟩ - - -
    simpa [elems_rmLeaseByIndex parts] using passed
  · rintro A b d rest t ⟨parts, passed, hits, spaced⟩ hit isDynamic
    obtain ⟨skipped, later⟩ := List.isChain_cons_cons.mp spaced
    exact ⟨by simp [elems_rmLeaseByIndex parts],
      List.forall_mem_append.mpr ⟨passed, by simpa using skipped hit isDynamic⟩,
      by simpa using hits, by simpa using later.of_cons⟩
  · rintro A b rest t ⟨parts, passed, hits, spaced⟩ miss
    have unhurt : ∀ p ∈ A ++ [b], ¬bad p := by
      refine List.forall_mem_append.mpr ⟨passed, List.forall_mem_singleton.mpr fun isBad => ?_⟩
      simp [hits b isBad] at miss
    split
    · exact ⟨by simp [parts], unhurt, hits, spaced.of_cons⟩
    · exact ⟨by simp [parts], unhurt, by simpa using hits, by simpa using spaced.of_cons⟩

/-- A rule for the loop that follows the entries `N` whose hostname must not be
emptied: each of them is static or has to go, and none stands directly behind
one that goes. -/
theorem rmDynamicLease_rule {I : V4Server → Prop} {N : Ptr → Prop}
    (removal : ∀ s i p, I s → s.leases.elems[i]? = some p → (s.heap p).isStatic = false →
      sameProperties (s.heap p) (s.heap lease) = true → I (s.rmLeaseByIndex i))
    (blank : ∀ s q, I s → (q ∈ s.leases.elems → ¬N q) → I (s.blankHostname lease q))
    (done : s.rmDynamicLease lease = some (s', err)) (start : I s)
    (go : ∀ q ∈ s.leases.elems, N q → (s.heap q).isStatic = false →
      sameProperties (s.heap q) (s.heap lease) = true)
    (spaced : s.leases.elems.IsChain fun b c =>
      sameProperties (s.heap b) (s.heap lease) = true → (s.heap b).isStatic = false → ¬N c) :
    I s' := by
  refine rmDynamicLoop_induct (J := fun A B t => t.leases.elems = A ++ B ∧ I t ∧
      (∀ q ∈ A, N q → (t.heap q).isStatic = true) ∧
      (∀ q ∈ B, N q → (t.heap q).isStatic = false →
        sameProperties (t.heap q) (t.heap lease) = true) ∧
      B.IsChain fun b c => sameProperties (t.heap b) (t.heap lease) = true →
        (t.heap b).isStatic = false → ¬N c)
    (Q := fun t _ => I t) (fun j => j.1) ?_ (fun j _ => j.2.1) ?_ ?_ ?_
    (A := []) ⟨rfl, start, by simp, go, spaced⟩ le_rfl done
  · rintro A t n ⟨parts, inv, passed, -⟩ done
    exact rmDynamicLoop_stale blank done inv (by simp [Slice.len, parts]) (by simpa [parts] using passed)
  · rintro A b t ⟨parts, inv, -⟩ hit isDynamic
    exact removal t A.length b inv (by simp [parts]) isDynamic hit
  · rintro A b d rest t ⟨parts, inv, passed, coming, spaced⟩ hit isDynamic
    obtain ⟨skipped, later⟩ := List.isChain_cons_cons.mp spaced
    have unnamed : ¬N d := skipped hit isDynamic
    have inv := removal t A.length b inv (by simp [parts]) isDynamic hit
    refine ⟨by simp [elems_rmLeaseByIndex parts], blank _ d inv fun _ => unnamed, ?_,
      fun q member => by simpa using coming q (by simp [member]), by simpa using later.of_cons⟩
    simpa [or_imp, forall_and, unnamed] using passed
  · rintro A b rest t ⟨parts, inv, passed, coming, spaced⟩ miss
    split
    · rename_i isStatic
      refine ⟨by simp [parts], inv, ?_, fun q member => coming q (by simp [member]), spaced.of_cons⟩
      simpa [or_imp, forall_and, isStatic] using passed
    · rename_i isDynamic
      have unnamed : ¬N b := fun named => by
        simp [coming b (by simp) named (by simpa using isDynamic)] at miss
      refine ⟨by simp [parts], blank t b inv fun _ => unnamed, ?_,
        fun q member => by simpa using coming q (by simp [member]), by simpa using spaced.of_cons⟩
      simpa [or_imp, forall_and, unnamed] using passed

end Step

/-- `rmDynamicLease` removes dynamic entries with the properties of `lease` only. -/
theorem rmDynamicLease_keeps {lease : Ptr} {err : Option V4Err}
    (done : s.rmDynamicLease lease = some (s', err)) (member : p ∈ s.leases.elems)
    (spared : (s.heap p).isStatic = false →
      sameProperties (s.heap p) (s.heap lease) = false) : p ∈ s'.leases.elems := by
  have kept : p ∈ s'.leases.elems ∧ ((s'.heap p).isStatic = false →
      sameProperties (s'.heap p) (s'.heap lease) = false) := by
    refine rmDynamicLease_preserves (I := fun t => p ∈ t.leases.elems ∧
      ((t.heap p).isStatic = false → sameProperties (t.heap p) (t.heap lease) = false))
      ?_ ?_ done ⟨member, spared⟩
    · rintro t i q ⟨member, spared⟩ entry isDynamic hit
      rw [rmLeaseByIndex_leases (List.getElem?_eq_some_iff.mp entry).1, rmLeaseByIndex_heap]
      obtain ⟨j, atJ⟩ := List.mem_iff_getElem?.mp member
      refine ⟨List.mem_eraseIdx_iff_getElem?.mpr ⟨j, ?_, atJ⟩, spared⟩
      rintro rfl
      rw [entry] at atJ
      cases atJ
      rw [spared isDynamic] at hit
      cases hit
    · rintro t q ⟨member, spared⟩
      simpa using And.intro member spared
  exact kept.1

/-- `rmLease` leaves the table alone or takes out the first entry of that IP,
which agrees with the argument in hardware address and hostname. -/
theorem rmLease_ok {lease : Lease} (done : s.rmLease lease = .ok s') :
    (s.leases.elems = [] ∧ s' = s) ∨
      ∃ i p, s.leases.elems[i]? = some p ∧ (s.heap p).ip = lease.ip ∧
        (s.heap p).hwAddr = lease.hwAddr ∧ (s.heap p).hostname = lease.hostname ∧
        s' = s.rmLeaseByIndex i := by
  unfold rmLease at done
  split at done
  · rename_i empty
    cases done
    exact .inl ⟨List.isEmpty_iff.mp empty, rfl⟩
  · split at done
    · cases done
    · rename_i i found
      split at done
      · cases done
      · rename_i p entry
        dsimp only at done
        split at done
        · cases done
        · rename_i same
          cases done
          simp only [ne_eq, not_or, not_not] at same
          refine .inr ⟨i, p, entry, ?_, same.1, same.2, rfl⟩
          obtain ⟨bound, hit, -⟩ := List.findIdx?_eq_some_iff_getElem.mp found
          rw [List.getElem?_eq_getElem bound] at entry
          cases entry
          simpa using hit

theorem rmLease_preserves {I : V4Server → Prop} {lease : Lease}
    (removal : ∀ s i, I s → I (s.rmLeaseByIndex i))
    (done : s.rmLease lease = .ok s') (start : I s) : I s' := by
  rcases rmLease_ok done with ⟨-, rfl⟩ | ⟨i, p, -, -, -, -, rfl⟩
  · exact start
  · exact removal s i start

theorem Trimmed.rmLease {l : Lease} (done : s.rmLease l = .ok s') : Trimmed s s' :=
  rmLease_preserves (fun _ i h => h.trans (.rmLeaseByIndex _ i)) done (.refl s)

/-! ### Adding -/

/-- `addLease` succeeds by `insertLease`, for a static lease in the subnet or a
dynamic one in the range, whose hostname no lease has. -/
theorem addLease_ok (done : s.addLease p = .ok s') :
    s' = s.insertLease p ∧
      ((s.heap p).isStatic = true → s.subnet.contains (s.heap p).ip = true) ∧
      ((s.heap p).isStatic = false → (s.offset (s.heap p).ip).2 = true) ∧
      ((s.heap p).hostname ≠ "" → s.hostsIndex (s.heap p).hostname = none) := by
  unfold addLease at done
  dsimp only at done
  split at done
  · cases done
  · rename_i inSubnet
    split at done
    · cases done
    · rename_i inRange
      split at done
      · cases done
      · rename_i fresh
        cases done
        refine ⟨rfl, ?_, ?_, ?_⟩
        · intro isStatic
          simpa [isStatic] using inSubnet
        · intro isDynamic
          simpa [isDynamic] using inRange
        · intro named
          simpa [named] using fresh

@[simp] theorem insertLease_heap (s : V4Server) (p : Ptr) : (s.insertLease p).heap = s.heap := rfl
@[simp] theorem insertLease_conf (s : V4Server) (p : Ptr) : (s.insertLease p).conf = s.conf := rfl
@[simp] theorem insertLease_next (s : V4Server) (p : Ptr) : (s.insertLease p).next = s.next := rfl
@[simp] theorem insertLease_elems (s : V4Server) (p : Ptr) :
    (s.insertLease p).leases.elems = s.leases.elems ++ [p] := rfl

/-! ### The administrator's calls -/

/-- A lease that passes the checks of `AddStaticLease` is a static lease of an
IPv4 address with the hardware address of the argument. -/
theorem checkStatic_ok {l l' : Lease} (done : checkStatic nu s l = .ok l') :
    s.conf.isSome = true ∧ l'.ip = l.ip.unmap ∧ l'.ip.is4 = true ∧ l'.isStatic = true ∧
      l'.hwAddr = l.hwAddr ∧ nu.validateMAC l.hwAddr = none := by
  unfold checkStatic at done
  split at done
  · cases done
  rename_i conf
  split at done
  · cases done
  rename_i is4
  split at done
  · cases done
  split at done
  · cases done
  rename_i mac
  have facts : s.conf.isSome = true ∧ l.ip.unmap.is4 = true := by
    constructor
    · cases h : s.conf with
      | none => simp [h] at conf
      | some c => rfl
    · simpa using is4
  split at done
  · cases done
    exact ⟨facts.1, rfl, facts.2, rfl, rfl, mac⟩
  · split at done
    · cases done
    · cases done
      exact ⟨facts.1, rfl, facts.2, rfl, rfl, mac⟩

/-- `AddStaticLease` is refused without effect, or removes the dynamic leases in
the way and then either stops or enters the new lease. -/
theorem addStaticLease_inv {l : Lease} {err : Option V4Err}
    (done : s.addStaticLease nu l = some (s', err)) :
    s' = s ∨ ∃ l' s₁ err₁, checkStatic nu s l = .ok l' ∧
      (s.new l').rmDynamicLease s.next = some (s₁, err₁) ∧
      (s' = s₁ ∨ (err₁ = none ∧ s₁.addLease s.next = .ok s')) := by
  unfold addStaticLease at done
  split at done
  · cases done
    exact .inl rfl
  · rename_i l' checked
    obtain ⟨⟨s₁, err₁⟩, removed, rest⟩ := Option.bind_eq_some_iff.mp done
    refine .inr ⟨l', s₁, err₁, checked, removed, ?_⟩
    cases err₁ with
    | some e =>
      cases rest
      exact .inl rfl
    | none =>
      dsimp only at rest
      split at rest
      · cases rest
        exact .inl rfl
      · rename_i added
        cases rest
        exact .inr ⟨rfl, added⟩

/-- A lease that passes `validateStaticLease` only has its hostname changed, and
neither that hostname nor its IP is indexed for another hardware address. -/
theorem validateStaticLease_ok {l l' : Lease} (done : s.validateStaticLease nu l = .ok l') :
    (∃ hostname, l' = { l with hostname := hostname } ∧
        ∀ dup, s.hostsIndex hostname = some dup → (s.heap dup).hwAddr = l.hwAddr) ∧
      (∀ dup, s.ipIndex l.ip = some dup → (s.heap dup).hwAddr = l.hwAddr) ∧
      s.subnet.contains l.ip = true := by
  unfold validateStaticLease at done
  split at done
  · cases done
  rename_i hostname _
  split at done
  · cases done
  rename_i freeName
  split at done
  · cases done
  rename_i freeIP
  split at done
  · cases done
  split at done
  · cases done
  rename_i inSubnet
  cases done
  refine ⟨⟨hostname, rfl, ?_⟩, ?_, by simpa using inSubnet⟩
  · intro dup found
    simpa [usedByOther, found] using freeName
  · intro dup found
    simpa [usedByOther, found] using freeIP

/-- `UpdateStaticLease` is refused without effect, or removes the lease found by
hardware address and then either stops or enters the new one. -/
theorem updateStaticLease_inv {l : Lease} {err : Option V4Err}
    (done : s.updateStaticLease nu l = (s', err)) :
    s' = s ∨ ∃ found l' s₁, s.findLease l.hwAddr = some found ∧
      s.validateStaticLease nu l = .ok l' ∧ s.rmLease (s.heap found) = .ok s₁ ∧
      (s' = s₁.new l' ∨ (s₁.new l').addLease s₁.next = .ok s') := by
  unfold updateStaticLease at done
  split at done
  · cases done
    exact .inl rfl
  rename_i found lookup
  split at done
  · cases done
    exact .inl rfl
  rename_i l' valid
  split at done
  · cases done
    exact .inl rfl
  rename_i s₁ removed
  refine .inr ⟨found, l', s₁, lookup, valid, removed, ?_⟩
  dsimp only at done
  split at done
  · cases done
    exact .inl rfl
  · rename_i added
    cases done
    exact .inr added

theorem removeStaticLease_inv {l : Lease} {err : Option V4Err}
    (done : s.removeStaticLease nu l = (s', err)) : s' = s ∨ s.rmLease l = .ok s' := by
  unfold removeStaticLease at done
  split at done
  · cases done
    exact .inl rfl
  split at done
  · cases done
    exact .inl rfl
  split at done
  · cases done
    exact .inl rfl
  split at done
  · cases done
    exact .inl rfl
  · rename_i removed
    cases done
    exact .inr removed

/-- A rule for the loop of `ResetLeases`: each lease is allocated with its new
hostname and then either skipped or entered. -/
theorem readdLeases_preserves {I : V4Server → Prop} {leases : List Lease}
    (skip : ∀ s l, l ∈ leases → ∀ hostname, I s → I (s.new { l with hostname := hostname }))
    (enter : ∀ s l s', l ∈ leases → ∀ hostname, I s →
      (s.new { l with hostname := hostname }).addLease s.next = .ok s' → I s')
    (done : readdLeases nu s leases = some s') (start : I s) : I s' := by
  induction leases generalizing s with
  | nil =>
    cases done
    exact start
  | cons l rest ih =>
    simp only [readdLeases] at done
    obtain ⟨hostname, -, later⟩ := Option.bind_eq_some_iff.mp done
    have skip' := fun s l member => skip s l (List.mem_cons_of_mem _ member)
    have enter' := fun s l s' member => enter s l s' (List.mem_cons_of_mem _ member)
    split at later
    · exact ih skip' enter' later (skip s l (by simp) hostname start)
    · rename_i added
      exact ih skip' enter' later (enter s l _ (by simp) hostname start added)

theorem resetLeases_inv {leases : List Lease} (done : s.resetLeases nu leases = some s') :
    s' = s ∨ readdLeases nu s.cleared leases = some s' := by
  unfold resetLeases at done
  split at done
  · cases done
    exact .inl rfl
  · exact .inr done

end FirewallCore.Dhcpd.V4Server
