import FirewallCore.Dhcpd.V6Map

/-!
Unique leases of the DHCPv6 server: in a table without repeated IP or hardware
addresses, `AddStaticLease` is to leave one lease with the new MAC and one with
the new IP, and `UpdateStaticLease` is to keep the IPs apart.

`rmDynamicLease` moves the last lease into the place of a removed one. After a
removal by MAC it still compares the IP of the moved lease; after a removal by
IP it goes on to the next index, so that the moved lease is never compared. It
is missed exactly when it has the MAC of the new lease. `UpdateStaticLease`
does not look at the other leases at all.
-/

namespace FirewallCore.Dhcpd.V6Server

open FirewallCore.Net FirewallCore.Lib

variable {nu : Netutil} {s s' : V6Server} {lease l : Lease} {n : Nat} {A B : List Lease}

/-- No two leases share an IP or a hardware address. -/
structure UniqueLeases (leases : List Lease) : Prop where
  ips : leases.Pairwise (·.ip ≠ ·.ip)
  macs : leases.Pairwise (·.hwAddr ≠ ·.hwAddr)

theorem UniqueLeases.sublist {leases leases' : List Lease} (unique : UniqueLeases leases)
    (sub : leases'.Sublist leases) : UniqueLeases leases' :=
  ⟨unique.ips.sublist sub, unique.macs.sublist sub⟩

/-- The first of some unique leases shares nothing with the others. -/
theorem UniqueLeases.head {b : Lease} {R : List Lease} (unique : UniqueLeases (b :: R)) :
    ∀ m ∈ R, m.ip ≠ b.ip ∧ m.hwAddr ≠ b.hwAddr := by
  intro m member
  exact ⟨((List.pairwise_cons.mp unique.ips).1 m member).symm,
    ((List.pairwise_cons.mp unique.macs).1 m member).symm⟩

/-- The lease has the MAC or the IP of `lease`. -/
def Clash (lease m : Lease) : Prop := m.hwAddr = lease.hwAddr ∨ m.ip = lease.ip

/-- The last lease has the MAC of `lease`, and an earlier dynamic one has its IP. -/
def Skips (lease : Lease) (leases : List Lease) : Prop :=
  ∃ z, leases.getLast? = some z ∧ z.hwAddr = lease.hwAddr ∧
    ∃ d ∈ leases.dropLast, d.isStatic = false ∧ d.ip = lease.ip

/-! ### The loop -/

/-- The slice after a removal: the last lease has taken the place. -/
theorem leases_remove {b : Lease} (parts : s.leases = A ++ b :: B) :
    (B = [] ∧ (s.leaseRemoveSwapByIndex A.length).leases = A) ∨
      ∃ R z, B = R ++ [z] ∧ (s.leaseRemoveSwapByIndex A.length).leases = A ++ z :: R := by
  have entry : s.leases[A.length]? = some b := by simp [parts]
  rw [leaseRemoveSwapByIndex_some entry, parts]
  rcases List.eq_nil_or_concat B with rfl | ⟨R, z, rfl⟩
  · exact .inl ⟨rfl, removeSwap_last A b⟩
  · rw [List.concat_eq_append]
    exact .inr ⟨R, z, rfl, removeSwap_inner A R b z⟩

/-- Where nothing clashes the loop changes nothing. -/
theorem rmDynamicLoop_noClash {i : Nat}
    (clear : ∀ j m, i ≤ j → s.leases[j]? = some m → ¬Clash lease m) :
    rmDynamicLoop lease n i s = (s, none) := by
  induction n generalizing i with
  | zero => rfl
  | succ n ih =>
    cases entry : s.leases[i]? with
    | none => simp [rmDynamicLoop, rmDynamicRound, entry]
    | some l =>
      have other := clear i l (Nat.le_refl i) entry
      simp only [Clash, not_or] at other
      have round : rmDynamicRound lease i s = (s, .next) := by
        simp [rmDynamicRound, rmSameIP, entry, other.1, other.2]
      simp only [rmDynamicLoop, round]
      exact ih fun j m later => clear j m (by omega)

/-- The outcome of the loop that is meant: an error about a static lease, or a
table without the MAC and the IP of `lease`. -/
def Settled (lease : Lease) (B : List Lease) : V6Server × Option V6Err → Prop
  | (_, some err) => err = .staticLeaseExists ∧ ∃ m ∈ B, m.isStatic = true ∧ Clash lease m
  | (s, none) => ∀ m ∈ s.leases, ¬Clash lease m

theorem Settled.mono {B' : List Lease} {out : V6Server × Option V6Err}
    (settled : Settled lease B out) (sub : ∀ m ∈ B, m ∈ B') : Settled lease B' out := by
  obtain ⟨t, err⟩ := out
  cases err with
  | none => exact settled
  | some e =>
    obtain ⟨same, m, member, clash⟩ := settled
    exact ⟨same, m, sub m member, clash⟩

theorem settled_of_clear {i : Nat} (clear : ∀ m ∈ s.leases, ¬Clash lease m) :
    Settled lease B (rmDynamicLoop lease n i s) := by
  rw [rmDynamicLoop_noClash fun j m _ entry => clear m (List.mem_of_getElem? entry)]
  exact clear

/-- What a round does when `b` is the lease under the index, `A` are the leases
before it and the third list those behind it. -/
inductive RoundOf (lease : Lease) (s : V6Server) (A : List Lease) (b : Lease) :
    List Lease → V6Server × RoundEnd → Prop
  | refuses {B : List Lease} {t : V6Server} {m : Lease} (listed : m ∈ b :: B)
      (isStatic : m.isStatic = true) (clash : Clash lease m) :
      RoundOf lease s A b B (t, .stop (some .staticLeaseExists))
  | passes {B : List Lease} (apart : ¬Clash lease b) : RoundOf lease s A b B (s, .next)
  | removesLast {t : V6Server} {ended : RoundEnd} (left : t.leases = A)
      (ends : ended = .next ∨ ended = .stop none) : RoundOf lease s A b [] (t, ended)
  | removesByIP {R : List Lease} {z : Lease} {t : V6Server} (mac : b.hwAddr ≠ lease.hwAddr)
      (ip : b.ip = lease.ip) (isDynamic : b.isStatic = false) (left : t.leases = A ++ z :: R) :
      RoundOf lease s A b (R ++ [z]) (t, .next)
  | removesByMAC {R : List Lease} {z : Lease} {t : V6Server} (mac : b.hwAddr = lease.hwAddr)
      (ip : z.ip ≠ lease.ip) (left : t.leases = A ++ z :: R) :
      RoundOf lease s A b (R ++ [z]) (t, .next)
  | removesBoth {R : List Lease} {z : Lease} {t : V6Server} (mac : b.hwAddr = lease.hwAddr)
      (ip : z.ip = lease.ip) (left : ∀ m ∈ t.leases, m ∈ A ∨ m ∈ R) :
      RoundOf lease s A b (R ++ [z]) (t, .next)

theorem rmDynamicRound_spec {b : Lease} (parts : s.leases = A ++ b :: B) :
    RoundOf lease s A b B (rmDynamicRound lease A.length s) := by
  have entry : s.leases[A.length]? = some b := by simp [parts]
  by_cases mac : b.hwAddr = lease.hwAddr
  · by_cases isStatic : b.isStatic = true
    · have round : rmDynamicRound lease A.length s = (s, .stop (some .staticLeaseExists)) := by
        simp [rmDynamicRound, entry, mac, isStatic]
      rw [round]
      exact .refuses (by simp) isStatic (.inl mac)
    rcases leases_remove parts with ⟨rfl, left⟩ | ⟨R, z, rfl, left⟩
    · have round : rmDynamicRound lease A.length s =
          (s.leaseRemoveSwapByIndex A.length, .stop none) := by
        simp [rmDynamicRound, entry, mac, isStatic, left]
      rw [round]
      exact .removesLast left (.inr rfl)
    · have round : rmDynamicRound lease A.length s =
          rmSameIP lease z A.length (s.leaseRemoveSwapByIndex A.length) := by
        simp [rmDynamicRound, entry, mac, isStatic, left]
      rw [round]
      unfold rmSameIP
      by_cases ip : z.ip = lease.ip
      · rw [if_pos ip]
        by_cases isStatic' : z.isStatic = true
        · rw [if_pos isStatic']
          exact .refuses (by simp) isStatic' (.inr ip)
        · rw [if_neg isStatic']
          refine .removesBoth mac ip ?_
          intro m member
          rcases leases_remove left with ⟨rfl, left'⟩ | ⟨R', y, rfl, left'⟩
          · rw [left'] at member
            exact .inl member
          · rw [left'] at member
            simp only [List.mem_append, List.mem_cons, List.not_mem_nil, or_false] at member ⊢
            rcases member with old | rfl | new
            · exact .inl old
            · exact .inr (.inr rfl)
            · exact .inr (.inl new)
      · rw [if_neg ip]
        exact .removesByMAC mac ip left
  · have round : rmDynamicRound lease A.length s = rmSameIP lease b A.length s := by
      simp [rmDynamicRound, entry, mac]
    rw [round]
    unfold rmSameIP
    by_cases ip : b.ip = lease.ip
    · rw [if_pos ip]
      by_cases isStatic : b.isStatic = true
      · rw [if_pos isStatic]
        exact .refuses (by simp) isStatic (.inr ip)
      · rw [if_neg isStatic]
        rcases leases_remove parts with ⟨rfl, left⟩ | ⟨R, z, rfl, left⟩
        · exact .removesLast left (.inl rfl)
        · exact .removesByIP mac ip (by simpa using isStatic) left
    · rw [if_neg ip]
      refine .passes ?_
      rintro (same | same)
      · exact mac same
      · exact ip same

/-- Unless the last lease has the MAC and an earlier dynamic one the IP, the loop
settles the clashes. `A` is the part it has passed. -/
theorem rmDynamicLoop_settled (parts : s.leases = A ++ B) (enough : B.length ≤ n)
    (passed : ∀ a ∈ A, ¬Clash lease a) (unique : UniqueLeases B) (fine : ¬Skips lease B) :
    Settled lease B (rmDynamicLoop lease n A.length s) := by
  induction n generalizing s A B with
  | zero =>
    obtain rfl := List.length_eq_zero_iff.mp (Nat.le_zero.mp enough)
    intro m member
    exact passed m (by simpa [parts] using member)
  | succ n ih =>
    cases B with
    | nil =>
      refine settled_of_clear ?_
      simpa [parts] using passed
    | cons b B =>
      have others := unique.head
      -- the loop goes on behind `z`, which it has not compared with the MAC
      have goOn : ∀ (t : V6Server) (z : Lease) (R : List Lease), t.leases = A ++ z :: R →
          (z :: R).Perm B → ¬Clash lease z → UniqueLeases R → ¬Skips lease R →
          Settled lease (b :: B) (rmDynamicLoop lease n (A.length + 1) t) := by
        intro t z R left perm apart unique' fine'
        have shorter := perm.length_eq
        simp only [List.length_cons] at enough shorter
        have settled := @ih t (A ++ [z]) R (by simp [left]) (by omega) (by
          intro a member
          rcases List.mem_append.mp member with old | new
          · exact passed a old
          · rw [List.mem_singleton.mp new]
            exact apart) unique' fine'
        simp only [List.length_append, List.length_singleton] at settled
        refine settled.mono fun m member => List.mem_cons_of_mem b ?_
        exact perm.mem_iff.mp (List.mem_cons_of_mem z member)
      have round : RoundOf lease s A b B (rmDynamicRound lease A.length s) :=
        rmDynamicRound_spec parts
      simp only [rmDynamicLoop]
      generalize rmDynamicRound lease A.length s = out at round
      cases round with
      | refuses listed isStatic clash => exact ⟨rfl, _, listed, isStatic, clash⟩
      | passes apart =>
        cases B with
        | nil =>
          refine settled_of_clear ?_
          intro m member
          rw [parts] at member
          rcases List.mem_append.mp member with old | new
          · exact passed m old
          · rwa [List.mem_singleton.mp new]
        | cons c R =>
          have settled := @ih s (A ++ [b]) (c :: R) (by simp [parts])
            (by simpa using enough) (by
              intro a member
              rcases List.mem_append.mp member with old | new
              · exact passed a old
              · rwa [List.mem_singleton.mp new])
            (unique.sublist (List.sublist_cons_self ..)) (by
              rintro ⟨z, last, mac, d, member, rest⟩
              refine fine ⟨z, by simpa using last, mac, d, ?_, rest⟩
              simp [member])
          simp only [List.length_append, List.length_singleton] at settled
          exact settled.mono fun m member => List.mem_cons_of_mem b member
      | @removesLast t ended left ends =>
        have clear : ∀ m ∈ t.leases, ¬Clash lease m := by rwa [left]
        rcases ends with rfl | rfl
        · exact settled_of_clear clear
        · exact clear
      | @removesByIP R z t mac ip isDynamic left =>
        refine goOn t z R left (List.perm_append_singleton z R).symm ?_
          (unique.sublist ((List.sublist_append_left R [z]).cons b)) ?_
        · rintro (same | same)
          · refine fine ⟨z, ?_, same, b, ?_, isDynamic, ip⟩
            · rw [← List.cons_append, List.getLast?_concat]
            · rw [← List.cons_append, List.dropLast_concat]
              exact List.mem_cons_self ..
          · exact (others z (by simp)).1 (same.trans ip.symm)
        · rintro ⟨-, -, -, d, member, -, same⟩
          exact (others d (by simp [List.mem_of_mem_dropLast member])).1
            (same.trans ip.symm)
      | @removesByMAC R z t mac ip left =>
        refine goOn t z R left (List.perm_append_singleton z R).symm ?_
          (unique.sublist ((List.sublist_append_left R [z]).cons b)) ?_
        · rintro (same | same)
          · exact (others z (by simp)).2 (same.trans mac.symm)
          · exact ip same
        · rintro ⟨y, last, same, -⟩
          exact (others y (by simp [List.mem_of_getLast? last])).2 (same.trans mac.symm)
      | @removesBoth R z t mac ip left =>
        refine settled_of_clear ?_
        intro m member
        rcases left m member with old | new
        · exact passed m old
        · have zOthers : ∀ m ∈ R, m.ip ≠ z.ip := by
            have ips := (unique.sublist (List.sublist_cons_self ..)).ips
            intro m member
            exact (List.pairwise_append.mp ips).2.2 m member z (by simp)
          rintro (same | same)
          · exact (others m (by simp [new])).2 (same.trans mac.symm)
          · exact zOthers m new (same.trans ip.symm)

/-- If the last lease has the MAC and an earlier dynamic one the IP, the loop ends
without an error and leaves the last lease in the table. -/
theorem rmDynamicLoop_skips (parts : s.leases = A ++ B) (enough : B.length ≤ n)
    (unique : UniqueLeases B) (skips : Skips lease B) :
    ∃ s', rmDynamicLoop lease n A.length s = (s', none) ∧
      ∃ m ∈ s'.leases, m.hwAddr = lease.hwAddr := by
  induction n generalizing s A B with
  | zero =>
    obtain rfl := List.length_eq_zero_iff.mp (Nat.le_zero.mp enough)
    obtain ⟨z, last, -⟩ := skips
    cases last
  | succ n ih =>
    obtain ⟨z, last, mac, d, member, isDynamic, ip⟩ := skips
    obtain ⟨b, R, rfl⟩ : ∃ b R, B = b :: R ++ [z] := by
      obtain ⟨R, rfl⟩ := List.getLast?_eq_some_iff.mp last
      rw [List.dropLast_concat] at member
      cases R with
      | nil => cases member
      | cons b R => exact ⟨b, R, rfl⟩
    rw [List.dropLast_concat] at member
    rw [List.cons_append] at parts unique
    have others := unique.head
    have zMAC := (others z (by simp)).2
    have bMAC : b.hwAddr ≠ lease.hwAddr := fun same => zMAC (mac.trans same.symm)
    have entry : s.leases[A.length]? = some b := by simp [parts]
    by_cases here : b.ip = lease.ip
    · -- `b` is the earlier lease; `z` takes its place and is passed over
      have isB : d = b := by
        rcases List.mem_cons.mp member with same | later
        · exact same
        · exact absurd (ip.trans here.symm) (others d (by simp [later])).1
      subst isB
      obtain ⟨none, -⟩ | ⟨R', z', same, left⟩ := leases_remove parts
      · simp at none
      obtain ⟨rfl, last⟩ := List.append_inj' same rfl
      cases last
      have round : rmDynamicRound lease A.length s =
          (s.leaseRemoveSwapByIndex A.length, .next) := by
        simp [rmDynamicRound, rmSameIP, entry, bMAC, here, isDynamic]
      refine ⟨s.leaseRemoveSwapByIndex A.length, ?_, z, by simp [left], mac⟩
      simp only [rmDynamicLoop, round]
      refine rmDynamicLoop_noClash ?_
      intro j m behind found
      have member : m ∈ R := by
        rw [left, List.append_cons, List.getElem?_append_right (by simpa using behind)] at found
        exact List.mem_of_getElem? found
      have apart := (List.pairwise_append.mp (List.pairwise_cons.mp unique.macs).2).2.2
      rintro (same | same)
      · exact apart m member z (by simp) (same.trans mac.symm)
      · exact (others m (by simp [member])).1 (same.trans here.symm)
    · have round : rmDynamicRound lease A.length s = (s, .next) := by
        simp [rmDynamicRound, rmSameIP, entry, bMAC, here]
      have isLater : d ∈ R := by
        rcases List.mem_cons.mp member with same | later
        · rw [same] at ip
          exact absurd ip here
        · exact later
      simp only [rmDynamicLoop, round]
      have next := @ih s (A ++ [b]) (R ++ [z]) (by simp [parts])
        (by simp only [List.length_append, List.length_cons] at enough ⊢; omega)
        (unique.sublist (List.sublist_cons_self ..))
        ⟨z, by simp, mac, d, by simpa using isLater, isDynamic, ip⟩
      simpa using next

/-! ### The administrator's calls -/

/-- `AddStaticLease` is refused because of a static lease, or leaves the new lease
as the only one with its MAC and the only one with its IP. -/
def AddsUniquely (nu : Netutil) (s : V6Server) (l : Lease) : Prop :=
  match s.addStaticLease nu l with
  | (_, some err) =>
    err = .staticLeaseExists ∧ ∃ m ∈ s.leases, m.isStatic = true ∧ Clash l m
  | (s', none) => s'.leases.filter (·.hwAddr == l.hwAddr) = [{ l with isStatic := true }] ∧
      s'.leases.filter (·.ip == l.ip) = [{ l with isStatic := true }]

instance (lease m : Lease) : Decidable (Clash lease m) := inferInstanceAs (Decidable (_ ∨ _))

instance (nu : Netutil) (s : V6Server) (l : Lease) : Decidable (AddsUniquely nu s l) :=
  match h : s.addStaticLease nu l with
  | (_, some err) => decidable_of_iff
      (err = .staticLeaseExists ∧ ∃ m ∈ s.leases, m.isStatic = true ∧ Clash l m)
      (by rw [AddsUniquely, h])
  | (s', none) => decidable_of_iff
      (s'.leases.filter (·.hwAddr == l.hwAddr) = [{ l with isStatic := true }] ∧
        s'.leases.filter (·.ip == l.ip) = [{ l with isStatic := true }])
      (by rw [AddsUniquely, h])

/-- `UpdateStaticLease` leaves no two leases with one IP. -/
def UpdatesUniquely (s : V6Server) (l : Lease) : Prop :=
  (s.updateStaticLease l).1.leases.Pairwise (·.ip ≠ ·.ip)

theorem addsUniquely_iff (unique : UniqueLeases s.leases) (is6 : l.ip.is6 = true)
    (mac : nu.validateMAC l.hwAddr = none) : AddsUniquely nu s l ↔ ¬Skips l s.leases := by
  have added : s.addStaticLease nu l =
      match s.rmDynamicLease { l with isStatic := true } with
      | (s, some err) => (s, some err)
      | (s, none) => (s.addLease { l with isStatic := true }, none) := by
    unfold addStaticLease
    rw [is6, mac]
    rfl
  unfold AddsUniquely
  rw [added]
  constructor
  · intro adds skips
    obtain ⟨t, done, m, member, same⟩ : ∃ t, s.rmDynamicLease { l with isStatic := true } =
        (t, none) ∧ ∃ m ∈ t.leases, m.hwAddr = l.hwAddr :=
      rmDynamicLoop_skips (A := []) (List.nil_append _).symm (Nat.le_refl _) unique skips
    rw [done] at adds
    -- the skipped lease and the new one have the MAC
    have two := congrArg List.length adds.1
    have one : 0 < (t.leases.filter (·.hwAddr == l.hwAddr)).length :=
      List.length_pos_of_mem (List.mem_filter.mpr ⟨member, by simpa using same⟩)
    have new : ([({ l with isStatic := true } : Lease)].filter
        (·.hwAddr == l.hwAddr)).length = 1 := by simp
    rw [V6Server.addLease, List.filter_append, List.length_append, new] at two
    simp only [List.length_singleton] at two
    omega
  · intro fine
    have settled : Settled { l with isStatic := true } s.leases
        (s.rmDynamicLease { l with isStatic := true }) :=
      rmDynamicLoop_settled (A := []) (List.nil_append _).symm (Nat.le_refl _) (by simp) unique fine
    generalize s.rmDynamicLease { l with isStatic := true } = out at settled
    obtain ⟨t, err⟩ := out
    cases err with
    | some e => exact settled
    | none =>
      have clear : ∀ m ∈ t.leases, ¬Clash l m := settled
      have noMAC : t.leases.filter (·.hwAddr == l.hwAddr) = [] := by
        refine List.filter_eq_nil_iff.mpr fun m member same => clear m member (.inl ?_)
        simpa using same
      have noIP : t.leases.filter (·.ip == l.ip) = [] := by
        refine List.filter_eq_nil_iff.mpr fun m member same => clear m member (.inr ?_)
        simpa using same
      simp [V6Server.addLease, List.filter_append, noMAC, noIP]

/-- Among unique leases `rmLease` finds the lease it is given. -/
theorem rmLease_found {i : Nat} {found : Lease} (unique : UniqueLeases s.leases)
    (entry : s.leases[i]? = some found) :
    s.rmLease found = .ok (s.leaseRemoveSwapByIndex i) := by
  obtain ⟨bound, rfl⟩ := List.getElem?_eq_some_iff.mp entry
  have pairs := List.pairwise_iff_getElem.mp unique.ips
  have first : s.leases.findIdx? (·.ip == s.leases[i].ip) = some i := by
    refine List.findIdx?_eq_some_iff_getElem.mpr ⟨bound, by simp, ?_⟩
    intro j earlier
    simpa using pairs j i (by omega) bound earlier
  simp [rmLease, first, bound]

theorem updatesUniquely_iff (unique : UniqueLeases s.leases) :
    UpdatesUniquely s l ↔ ∀ i, s.findLease l.hwAddr = some i →
      ∀ m ∈ s.leases, m.ip = l.ip → m.hwAddr = l.hwAddr := by
  unfold UpdatesUniquely updateStaticLease
  cases lookup : s.findLease l.hwAddr with
  | none => simpa using unique.ips
  | some i =>
    obtain ⟨bound, hit, -⟩ := List.findIdx?_eq_some_iff_getElem.mp lookup
    have entry : s.leases[i]? = some s.leases[i] := List.getElem?_eq_getElem bound
    have hisMAC : s.leases[i].hwAddr = l.hwAddr := by
      simp only [beq_iff_eq] at hit
      exact hit.symm
    have perm := cons_removeSwap_perm entry
    have ips := (perm.pairwise_iff fun h => Ne.symm h).mpr unique.ips
    have macs := (perm.pairwise_iff fun h => Ne.symm h).mpr unique.macs
    simp only [Option.bind_some, entry, rmLease_found unique entry,
      leaseRemoveSwapByIndex_some entry, V6Server.addLease, Option.some.injEq, forall_eq']
    rw [List.pairwise_append]
    constructor
    · rintro ⟨-, -, apart⟩ m member same
      rcases List.mem_cons.mp (perm.mem_iff.mpr member) with rfl | left
      · exact hisMAC
      · exact absurd same (apart m left l (by simp))
    · intro sameMAC
      refine ⟨(List.pairwise_cons.mp ips).2, List.pairwise_singleton .., ?_⟩
      intro m left k isL same
      rw [List.mem_singleton.mp isL] at same
      have member := perm.mem_iff.mp (List.mem_cons_of_mem _ left)
      have other := (List.pairwise_cons.mp macs).1 m left
      exact other (hisMAC.trans (sameMAC m member same).symm)

/-- In a table of unique leases, adding a static lease does what it is meant to do
unless the last lease has its MAC and an earlier dynamic one its IP, and updating
one keeps the IPs apart unless another lease than the updated one has the IP. -/
theorem staticLease_unique_iff (unique : UniqueLeases s.leases) (is6 : l.ip.is6 = true)
    (mac : nu.validateMAC l.hwAddr = none) :
    (AddsUniquely nu s l ↔ ¬Skips l s.leases) ∧
      (UpdatesUniquely s l ↔ ∀ i, s.findLease l.hwAddr = some i →
        ∀ m ∈ s.leases, m.ip = l.ip → m.hwAddr = l.hwAddr) :=
  ⟨addsUniquely_iff unique is6 mac, updatesUniquely_iff unique⟩

/-- A table with two dynamic leases. -/
def twoClients : V6Server :=
  { conf := smallConf6
    leases := [{ ip := hostAddr6 0xfe, hwAddr := [2, 0, 0, 0, 0, 1] },
               { ip := hostAddr6 0xff, hwAddr := [2, 0, 0, 0, 0, 2] }]
    ipAddrs := fun b => if 0xfe ≤ b then 1 else 0 }

/-- The first client's lease becomes static. -/
theorem staticLease_unique_first :
    UniqueLeases twoClients.leases ∧
      AddsUniquely .ascii twoClients { ip := hostAddr6 0xfe, hwAddr := [2, 0, 0, 0, 0, 1] } ∧
      UpdatesUniquely twoClients { ip := hostAddr6 0xfe, hwAddr := [2, 0, 0, 0, 0, 1] } := by
  have unique : UniqueLeases twoClients.leases := ⟨by decide, by decide⟩
  have mac : Netutil.ascii.validateMAC [2, 0, 0, 0, 0, 1] = none := by decide
  obtain ⟨adds, updates⟩ := staticLease_unique_iff
    (l := { ip := hostAddr6 0xfe, hwAddr := [2, 0, 0, 0, 0, 1] }) unique (by decide) mac
  refine ⟨unique, adds.mpr ?_, updates.mpr ?_⟩
  · rintro ⟨z, last, same, -⟩
    cases last
    revert same
    decide
  · intro i _
    decide

/-- The second client is given the first one's address as a static lease: its own
dynamic lease moves to the front and stays. -/
theorem staticLease_not_unique : ¬∀ (nu : Netutil) (conf : V6ServerConf) (s : V6Server)
    (l : Lease), Reaches (V6Server.step nu) (fun _ _ => True) (v6Create conf).1 s →
      UniqueLeases s.leases → l.ip.is6 = true → nu.validateMAC l.hwAddr = none →
      AddsUniquely nu s l ∧ UpdatesUniquely s l := by
  intro always
  let l : Lease := { ip := hostAddr6 0xfe, hwAddr := [2, 0, 0, 0, 0, 2] }
  obtain ⟨s, done, fails⟩ := exec_refutes (V6Server.step .ascii) (v6Create smallConf6).1
    [solicit 1, solicit 2]
    (fun s => (s.leases.Pairwise (·.ip ≠ ·.ip) ∧ s.leases.Pairwise (·.hwAddr ≠ ·.hwAddr)) →
      AddsUniquely .ascii s l) (by decide)
  apply fails
  rintro ⟨ips, macs⟩
  exact (always .ascii smallConf6 s l (reaches_of_exec (by simp) done) ⟨ips, macs⟩
    (by decide) (by decide)).1

end FirewallCore.Dhcpd.V6Server
