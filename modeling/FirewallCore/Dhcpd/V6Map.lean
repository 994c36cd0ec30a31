import FirewallCore.Dhcpd.V6Server

/-!
The map of the last bytes in use: `ipAddrs[b]` is to be one exactly when some
lease has the prefix of `ipStart` and the last byte `b`.

The map is written by last byte alone. A static lease with another prefix
marks, and its removal frees, a byte of the range that is not its own;
`ResetLeases` empties the table but not the map. `MapOp` excludes these.
-/

namespace FirewallCore.Dhcpd.V6Server

open FirewallCore.Net FirewallCore.Lib

variable {nu : Netutil} {s s' : V6Server} {l : Lease} {i : Nat}

/-! ### What the operations do -/

theorem leaseRemoveSwapByIndex_conf (s : V6Server) (i : Nat) :
    (s.leaseRemoveSwapByIndex i).conf = s.conf := by
  unfold leaseRemoveSwapByIndex
  split
  · rfl
  · rfl

theorem leaseRemoveSwapByIndex_some (entry : s.leases[i]? = some l) :
    s.leaseRemoveSwapByIndex i =
      { s with
        leases := removeSwap s.leases i
        ipAddrs := Function.update s.ipAddrs (lastByte l.ip) 0 } := by
  simp [leaseRemoveSwapByIndex, entry]

/-- The dynamic leases that `rmDynamicLease` removes for `lease`. -/
def DynamicFor (lease l : Lease) : Prop :=
  l.isStatic = false ∧ (l.hwAddr = lease.hwAddr ∨ l.ip = lease.ip)

/-- A rule for the loop of `rmDynamicLease`: what the removal of a dynamic lease
with the properties of `lease` keeps, the loop keeps. -/
theorem rmDynamicLoop_preserves {I : V6Server → Prop} {lease : Lease}
    (removal : ∀ s i l, I s → s.leases[i]? = some l → DynamicFor lease l →
      I (s.leaseRemoveSwapByIndex i)) {n : Nat} (start : I s) :
    I (rmDynamicLoop lease n i s).1 := by
  have sameIP : ∀ s l i, I s → s.leases[i]? = some l → I (rmSameIP lease l i s).1 := by
    intro s l i inv entry
    unfold rmSameIP
    split
    · rename_i ip
      split
      · exact inv
      · rename_i isDynamic
        exact removal s i l inv entry ⟨by simpa using isDynamic, .inr ip⟩
    · exact inv
  have round : ∀ s i, I s → I (rmDynamicRound lease i s).1 := by
    intro s i inv
    unfold rmDynamicRound
    split
    · exact inv
    rename_i l entry
    split
    · rename_i mac
      split
      · exact inv
      rename_i isDynamic
      have removed := removal s i l inv entry ⟨by simpa using isDynamic, .inl mac⟩
      dsimp only
      split
      · exact removed
      · rename_i next entry'
        exact sameIP _ next i removed entry'
    · exact sameIP s l i inv entry
  induction n generalizing i s with
  | zero => exact start
  | succ n ih =>
    have kept := round s i start
    simp only [rmDynamicLoop]
    split
    · rename_i t err ended
      rwa [ended] at kept
    · rename_i t ended
      rw [ended] at kept
      exact ih kept

theorem rmDynamicLease_preserves {I : V6Server → Prop} {lease : Lease}
    (removal : ∀ s i l, I s → s.leases[i]? = some l → DynamicFor lease l →
      I (s.leaseRemoveSwapByIndex i)) (start : I s) : I (s.rmDynamicLease lease).1 :=
  rmDynamicLoop_preserves removal start

/-- `AddStaticLease` is refused, or removes dynamic leases and then either stops or
adds the lease. -/
theorem addStaticLease_cases (nu : Netutil) (s : V6Server) (l : Lease) :
    (s.addStaticLease nu l).1 = s ∨
      (l.ip.is6 = true ∧ nu.validateMAC l.hwAddr = none ∧
        ((s.addStaticLease nu l).1 = (s.rmDynamicLease { l with isStatic := true }).1 ∨
          (s.addStaticLease nu l).1 =
            (s.rmDynamicLease { l with isStatic := true }).1.addLease
              { l with isStatic := true })) := by
  unfold addStaticLease
  split
  · exact .inl rfl
  rename_i is6
  split
  · exact .inl rfl
  rename_i mac
  refine .inr ⟨by simpa using is6, mac, ?_⟩
  dsimp only
  split
  · rename_i t err removed
    exact .inl (by rw [removed])
  · rename_i t removed
    exact .inr (by rw [removed])

/-- `rmLease` removes the first lease of that IP. -/
theorem rmLease_ok {lease : Lease} (done : s.rmLease lease = .ok s') :
    ∃ i l, s.leases[i]? = some l ∧ l.ip = lease.ip ∧ l.hwAddr = lease.hwAddr ∧
      l.hostname = lease.hostname ∧ s' = s.leaseRemoveSwapByIndex i := by
  unfold rmLease at done
  split at done
  · cases done
  rename_i i found
  split at done
  · cases done
  rename_i l entry
  split at done
  · cases done
  rename_i same
  cases done
  simp only [ne_eq, not_or, not_not] at same
  refine ⟨i, l, entry, ?_, same.1, same.2, rfl⟩
  obtain ⟨bound, hit, -⟩ := List.findIdx?_eq_some_iff_getElem.mp found
  rw [List.getElem?_eq_getElem bound] at entry
  cases entry
  simpa using hit

theorem updateStaticLease_cases (s : V6Server) (l : Lease) :
    (s.updateStaticLease l).1 = s ∨ ∃ i found t, s.findLease l.hwAddr = some i ∧
      s.leases[i]? = some found ∧ s.rmLease found = .ok t ∧
      (s.updateStaticLease l).1 = t.addLease l := by
  unfold updateStaticLease
  split
  · exact .inl rfl
  rename_i found lookup
  obtain ⟨i, first, entry⟩ := Option.bind_eq_some_iff.mp lookup
  split
  · exact .inl rfl
  · rename_i t removed
    exact .inr ⟨i, found, t, first, entry, removed, rfl⟩

theorem removeStaticLease_cases (nu : Netutil) (s : V6Server) (l : Lease) :
    (s.removeStaticLease nu l).1 = s ∨
      ∃ t, s.rmLease l = .ok t ∧ (s.removeStaticLease nu l).1 = t := by
  unfold removeStaticLease
  split
  · exact .inl rfl
  split
  · exact .inl rfl
  split
  · exact .inl rfl
  · rename_i t removed
    exact .inr ⟨t, removed, rfl⟩

/-- A change of hardware addresses and expiries in place. -/
structure SameIPs (s s' : V6Server) : Prop where
  conf : s'.conf = s.conf
  ipAddrs : s'.ipAddrs = s.ipAddrs
  ips : s'.leases.map (·.ip) = s.leases.map (·.ip)

theorem SameIPs.refl (s : V6Server) : SameIPs s s := ⟨rfl, rfl, rfl⟩

theorem SameIPs.modify (s : V6Server) (i : Nat) {f : Lease → Lease} (ip : ∀ l, (f l).ip = l.ip) :
    SameIPs s { s with leases := s.leases.modify i f } := by
  refine ⟨rfl, rfl, ?_⟩
  apply List.ext_getElem?
  intro j
  simp only [List.getElem?_map, List.getElem?_modify]
  cases s.leases[j]? with
  | none => rfl
  | some l =>
    by_cases here : i = j
    · simp [here, ip]
    · simp [here]

/-- The answer to a message changes at most an expiry. -/
theorem SameIPs.answer (s : V6Server) (msg : V6Msg) (i : Nat) (now : Time) :
    SameIPs s (s.answer msg i now).1 := by
  unfold V6Server.answer
  split
  · exact .refl s
  split
  · exact .refl s
  dsimp only
  unfold commitLease
  split
  · exact .refl s
  · split
    · exact .refl s
    · exact .modify s i fun _ => rfl
  · split
    · exact .refl s
    · exact .modify s i fun _ => rfl
  · split
    · exact .refl s
    · exact .modify s i fun _ => rfl
  · exact .refl s

/-- The free address that `findFreeIP` returns: its last byte is not in use. -/
theorem findFreeIP_some {ip : IP} (found : s.findFreeIP = some ip) :
    ∃ start, s.conf.ipStart = .sixteen start ∧
      ((ip = .nil ∧ ∀ b, start.toNat % 256 ≤ b → b < 256 → s.ipAddrs (UInt8.ofNat b) ≠ 0) ∨
        ∃ n b, ip = .sixteen n ∧ b < 256 ∧ start.toNat % 256 ≤ b ∧
          n.toNat = start.toNat / 256 * 256 + b ∧ s.ipAddrs (UInt8.ofNat b) = 0) := by
  unfold findFreeIP at found
  split at found
  · rename_i start range
    refine ⟨start, range, ?_⟩
    split at found
    · rename_i b first
      cases found
      obtain ⟨k, bound, rfl⟩ := List.mem_range'.mp (List.mem_of_find?_eq_some first)
      have free := List.find?_some first
      have small := start.isLt
      refine .inr ⟨_, start.toNat % 256 + 1 * k, rfl, by omega, by omega, ?_, by simpa using free⟩
      rw [BitVec.toNat_ofNat, Nat.mod_eq_of_lt (by omega)]
    · rename_i none
      cases found
      refine .inl ⟨rfl, ?_⟩
      intro b low high
      have used := List.find?_eq_none.mp none b
        (List.mem_range'.mpr ⟨b - start.toNat % 256, by omega, by omega⟩)
      simpa using used
  · cases found

/-- A message changes hardware addresses and expiries in place, or adds a lease with
a free address. -/
theorem process_cases {msg : V6Msg} {now later : Time} {r : Option (IP × Duration)}
    (done : s.process msg now later = some (s', r)) :
    SameIPs s s' ∨ ∃ n mac, s.findFreeIP = some (.sixteen n) ∧
      SameIPs (s.addLease { ip := .v6 n "", hwAddr := mac }) s' := by
  unfold process at done
  split at done
  · cases done
    exact .inl (.refl s)
  · cases done
    exact .inl (.refl s)
  rename_i mac _ _
  have answered : ∀ t i, some (V6Server.answer t msg i later) = some (s', r) → SameIPs t s' := by
    intro t i same
    have last := SameIPs.answer t msg i later
    rwa [Option.some.inj same] at last
  split at done
  · exact .inl (answered s _ done)
  split at done
  · obtain ⟨⟨t, res⟩, reserved, same⟩ := Option.map_eq_some_iff.mp done
    have last : SameIPs t s' := by
      cases res with
      | none =>
        cases same
        exact .refl t
      | some i => exact answered t i (congrArg some same)
    unfold reserveLease at reserved
    split at reserved
    · cases reserved
    · split at reserved
      · cases reserved
        exact .inl last
      · rename_i i _
        cases reserved
        have first := SameIPs.modify s i (f := fun l => { l with hwAddr := goCopy l.hwAddr mac })
          fun _ => rfl
        exact .inl ⟨last.conf.trans first.conf, last.ipAddrs.trans first.ipAddrs,
          last.ips.trans first.ips⟩
    · rename_i ip notNil free
      obtain ⟨start, -, ⟨rfl, -⟩ | ⟨n, b, rfl, -⟩⟩ := findFreeIP_some free
      · exact (notNil rfl).elim
      · cases reserved
        exact .inr ⟨n, mac, free, last⟩
  · cases done
    exact .inl (.refl s)

/-! ### The map -/

/-- The first fifteen bytes of a 16-byte slice, as a number. -/
def startPrefix : IP → Option Nat
  | .sixteen start => some (start.toNat / 256)
  | _ => none

/-- The address has the first fifteen bytes of `ipStart`. -/
def InPrefix (s : V6Server) (ip : Addr) : Prop :=
  startPrefix s.conf.ipStart = some (ip.as16 / 256)

instance (s : V6Server) (ip : Addr) : Decidable (s.InPrefix ip) :=
  inferInstanceAs (Decidable (_ = _))

theorem InPrefix.congr {ip : Addr} (conf : s'.conf = s.conf) :
    s'.InPrefix ip ↔ s.InPrefix ip := by
  unfold InPrefix
  rw [conf]

/-- Some lease has this prefix and the last byte `b`. -/
def Holds (s : V6Server) (leases : List Lease) (b : UInt8) : Prop :=
  ∃ l ∈ leases, s.InPrefix l.ip ∧ lastByte l.ip = b

instance (s : V6Server) (leases : List Lease) (b : UInt8) : Decidable (s.Holds leases b) :=
  inferInstanceAs (Decidable (∃ l ∈ leases, s.InPrefix l.ip ∧ lastByte l.ip = b))

/-- The map is exact: a byte is one when some lease has it, and zero otherwise. -/
def ExactMap (s : V6Server) : Prop :=
  ∀ b, s.ipAddrs b = if s.Holds s.leases b then 1 else 0

/-! ### The condition on a step -/

/-- No lease with `P` shares its last byte with another lease of the prefix. -/
def LoneBytes (s : V6Server) (P : Lease → Prop) : Prop :=
  s.leases.Pairwise fun l m => lastByte l.ip = lastByte m.ip →
    (P l → ¬s.InPrefix m.ip) ∧ (P m → ¬s.InPrefix l.ip)

/-- A new lease marks a byte that is to be marked: it has the prefix, or a lease
that is spared by the removal of those with `P` holds the byte. -/
def AddsExactly (s : V6Server) (ip : Addr) (P : Lease → Prop) : Prop :=
  s.InPrefix ip ∨ ∃ m ∈ s.leases, ¬P m ∧ s.InPrefix m.ip ∧ lastByte m.ip = lastByte ip

/-- The leases that `ResetLeases` adds. -/
def readded (s : V6Server) (leases : List Lease) : List Lease :=
  leases.filter fun l => l.isStatic || ip6InRange s.conf.ipStart l.ip.asSlice == some true

/-- The condition on an operation. -/
def MapOp (s : V6Server) : Op → Prop
  | .addStaticLease l => LoneBytes s (DynamicFor { l with isStatic := true }) ∧
      AddsExactly s l.ip (DynamicFor { l with isStatic := true })
  | .updateStaticLease l => ∀ i found, s.findLease l.hwAddr = some i →
      s.leases[i]? = some found → LoneBytes s (·.ip = found.ip) ∧
        AddsExactly s l.ip (·.ip = found.ip)
  | .removeStaticLease l => LoneBytes s (·.ip = l.ip)
  | .resetLeases leases => (∀ b, s.Holds s.leases b → s.Holds (s.readded leases) b) ∧
      ∀ l ∈ s.readded leases, s.Holds (s.readded leases) (lastByte l.ip)
  | .process _ _ _ => True

namespace ExactMap

theorem sameIPs (exact : ExactMap s) (same : SameIPs s s') : ExactMap s' := by
  intro b
  have holds : s'.Holds s'.leases b ↔ s.Holds s.leases b := by
    have byIP : ∀ t : V6Server, t.Holds t.leases b ↔
        ∃ ip ∈ t.leases.map (·.ip), t.InPrefix ip ∧ lastByte ip = b := by
      intro t
      simp [Holds]
    rw [byIP, byIP, same.ips]
    simp only [InPrefix.congr same.conf]
  rw [same.ipAddrs, exact b]
  simp only [holds]

/-- A removal frees the byte of the removed lease. -/
theorem remove (exact : ExactMap s) {P : Lease → Prop} (lone : LoneBytes s P)
    (entry : s.leases[i]? = some l) (removed : P l) :
    ExactMap (s.leaseRemoveSwapByIndex i) ∧ LoneBytes (s.leaseRemoveSwapByIndex i) P := by
  have perm := cons_removeSwap_perm entry
  have pairs : (l :: removeSwap s.leases i).Pairwise fun l m => lastByte l.ip = lastByte m.ip →
      (P l → ¬s.InPrefix m.ip) ∧ (P m → ¬s.InPrefix l.ip) := by
    refine (perm.pairwise_iff ?_).mpr lone
    intro x y apart same
    exact (apart same.symm).symm
  obtain ⟨alone, rest⟩ := List.pairwise_cons.mp pairs
  rw [leaseRemoveSwapByIndex_some entry]
  refine ⟨?_, rest⟩
  intro b
  change Function.update s.ipAddrs (lastByte l.ip) 0 b =
    if s.Holds (removeSwap s.leases i) b then 1 else 0
  by_cases here : b = lastByte l.ip
  · subst here
    rw [Function.update_self, if_neg]
    rintro ⟨m, member, inside, byte⟩
    exact (alone m member byte.symm).1 removed inside
  · rw [Function.update_of_ne here, exact b]
    have holds : s.Holds s.leases b ↔ s.Holds (removeSwap s.leases i) b := by
      constructor
      · rintro ⟨m, member, inside, byte⟩
        rcases List.mem_cons.mp (perm.mem_iff.mpr member) with rfl | left
        · exact absurd byte.symm here
        · exact ⟨m, left, inside, byte⟩
      · rintro ⟨m, member, inside, byte⟩
        exact ⟨m, perm.mem_iff.mp (List.mem_cons_of_mem _ member), inside, byte⟩
    simp only [holds]

/-- A new lease of a byte that is held anyway, or by itself. -/
theorem addLease (exact : ExactMap s)
    (held : s.Holds (s.leases ++ [l]) (lastByte l.ip)) : ExactMap (s.addLease l) := by
  intro b
  change Function.update s.ipAddrs (lastByte l.ip) 1 b =
    if s.Holds (s.leases ++ [l]) b then 1 else 0
  by_cases here : b = lastByte l.ip
  · subst here
    rw [Function.update_self, if_pos held]
  · rw [Function.update_of_ne here, exact b]
    have holds : s.Holds s.leases b ↔ s.Holds (s.leases ++ [l]) b := by
      constructor
      · rintro ⟨m, member, inside, byte⟩
        exact ⟨m, by simp [member], inside, byte⟩
      · rintro ⟨m, member, inside, byte⟩
        rcases List.mem_append.mp member with old | new
        · exact ⟨m, old, inside, byte⟩
        · rw [List.mem_singleton.mp new] at byte
          exact absurd byte.symm here
    simp only [holds]

/-- What a loop of removals leaves is exact, and the leases it spares stay. -/
theorem rmDynamicLease (exact : ExactMap s) {lease : Lease}
    (lone : LoneBytes s (DynamicFor lease)) :
    ExactMap (s.rmDynamicLease lease).1 ∧ (s.rmDynamicLease lease).1.conf = s.conf ∧
      ∀ m ∈ s.leases, ¬DynamicFor lease m → m ∈ (s.rmDynamicLease lease).1.leases := by
  let kept : V6Server → Prop := fun t => (ExactMap t ∧ LoneBytes t (DynamicFor lease)) ∧
    t.conf = s.conf ∧ ∀ m ∈ s.leases, ¬DynamicFor lease m → m ∈ t.leases
  suffices kept (s.rmDynamicLease lease).1 from ⟨this.1.1, this.2⟩
  apply rmDynamicLease_preserves (I := kept) ?_ ⟨⟨exact, lone⟩, rfl, fun m member _ => member⟩
  rintro t i l ⟨⟨exact, lone⟩, conf, spared⟩ entry hit
  refine ⟨exact.remove lone entry hit, ?_, ?_⟩
  · rw [leaseRemoveSwapByIndex_conf, conf]
  · intro m member other
    have listed := (cons_removeSwap_perm entry).mem_iff.mpr (spared m member other)
    rw [leaseRemoveSwapByIndex_some entry]
    rcases List.mem_cons.mp listed with rfl | left
    · exact absurd hit other
    · exact left

theorem rmLease (exact : ExactMap s) {lease : Lease} (lone : LoneBytes s (·.ip = lease.ip))
    (done : s.rmLease lease = .ok s') :
    ExactMap s' ∧ s'.conf = s.conf ∧ ∀ m ∈ s.leases, ¬m.ip = lease.ip → m ∈ s'.leases := by
  obtain ⟨i, l, entry, ip, -, -, rfl⟩ := rmLease_ok done
  refine ⟨(exact.remove lone entry ip).1, leaseRemoveSwapByIndex_conf s i, ?_⟩
  intro m member other
  have listed := (cons_removeSwap_perm entry).mem_iff.mpr member
  rw [leaseRemoveSwapByIndex_some entry]
  rcases List.mem_cons.mp listed with rfl | left
  · exact absurd ip other
  · exact left

/-- Adding a lease after a removal that spares the leases without `P`. -/
theorem addAfter (exact : ExactMap s') {P : Lease → Prop} (conf : s'.conf = s.conf)
    (spared : ∀ m ∈ s.leases, ¬P m → m ∈ s'.leases) (adds : AddsExactly s l.ip P) :
    ExactMap (s'.addLease l) := by
  apply exact.addLease
  rcases adds with inside | ⟨m, member, other, inside, byte⟩
  · exact ⟨l, by simp, (InPrefix.congr conf).mpr inside, rfl⟩
  · exact ⟨m, by simp [spared m member other], (InPrefix.congr conf).mpr inside, byte⟩

/-- The loop of `ResetLeases` adds its leases to the table and their bytes to the map. -/
theorem readdLeases_some {leases : List Lease} (done : readdLeases s leases = some s') :
    s'.conf = s.conf ∧ s'.leases = s.leases ++ s.readded leases ∧
      ∀ b, s'.ipAddrs b = if ∃ l ∈ s.readded leases, lastByte l.ip = b then 1 else s.ipAddrs b := by
  induction leases generalizing s with
  | nil =>
    cases done
    simp [readded]
  | cons l rest ih =>
    have added : ∀ kept : s.readded (l :: rest) = l :: s.readded rest,
        readdLeases (s.addLease l) rest = some s' → s'.conf = s.conf ∧
          s'.leases = s.leases ++ s.readded (l :: rest) ∧ ∀ b, s'.ipAddrs b =
            if ∃ m ∈ s.readded (l :: rest), lastByte m.ip = b then 1 else s.ipAddrs b := by
      intro kept later
      obtain ⟨conf, leases, bytes⟩ := ih later
      refine ⟨conf, ?_, ?_⟩
      · rw [leases, kept]
        simp [V6Server.addLease, readded]
      · intro b
        rw [bytes b, kept]
        change (if ∃ m ∈ s.readded rest, lastByte m.ip = b then 1
          else Function.update s.ipAddrs (lastByte l.ip) 1 b) = _
        by_cases here : lastByte l.ip = b
        · subst here
          simp
        · simp [here, Function.update_of_ne (Ne.symm here)]
    simp only [readdLeases] at done
    split at done
    · rename_i isStatic
      exact added (by simp [readded, isStatic]) done
    rename_i isDynamic
    split at done
    · cases done
    · rename_i outside
      have skipped : s.readded (l :: rest) = s.readded rest := by
        simp [readded, isDynamic, outside]
      rw [skipped]
      exact ih done
    · rename_i inside
      exact added (by simp [readded, inside]) done

theorem resetLeases (exact : ExactMap s) {leases : List Lease}
    (guard : MapOp s (.resetLeases leases)) (done : s.resetLeases leases = some s') :
    ExactMap s' := by
  obtain ⟨covered, held⟩ := guard
  obtain ⟨conf, elems, bytes⟩ := readdLeases_some done
  have elems : s'.leases = s.readded leases := elems
  have conf : s'.conf = s.conf := conf
  intro b
  have holds : s'.Holds s'.leases b ↔ s.Holds (s.readded leases) b := by
    rw [elems]
    simp only [Holds, InPrefix.congr conf]
  simp only [holds]
  rw [bytes b]
  change (if ∃ l ∈ s.readded leases, lastByte l.ip = b then 1 else s.ipAddrs b) = _
  by_cases marked : ∃ l ∈ s.readded leases, lastByte l.ip = b
  · obtain ⟨l, member, rfl⟩ := marked
    rw [if_pos ⟨l, member, rfl⟩, if_pos (held l member)]
  · have unheld : ¬s.Holds (s.readded leases) b := by
      rintro ⟨l, member, -, byte⟩
      exact marked ⟨l, member, byte⟩
    rw [if_neg marked, if_neg unheld, exact b, if_neg fun old => unheld (covered b old)]

/-- A free address has the prefix. -/
theorem process (exact : ExactMap s) {msg : V6Msg} {now later : Time}
    {r : Option (IP × Duration)} (done : s.process msg now later = some (s', r)) :
    ExactMap s' := by
  rcases process_cases done with same | ⟨n, mac, free, same⟩
  · exact exact.sameIPs same
  · refine ExactMap.sameIPs (exact.addLease ⟨_, by simp, ?_, rfl⟩) same
    obtain ⟨start, range, ⟨none, -⟩ | ⟨m, b, here, bound, -, value, -⟩⟩ := findFreeIP_some free
    · cases none
    · cases here
      unfold InPrefix
      rw [range]
      simp only [startPrefix, Addr.as16, Option.some.injEq]
      omega

theorem step (exact : ExactMap s) {op : Op} {answer : Answer} (guard : MapOp s op)
    (done : V6Server.step nu s op = some (s', answer)) : ExactMap s' := by
  cases op with
  | addStaticLease l =>
    cases done
    obtain ⟨lone, adds⟩ := guard
    obtain ⟨exact₁, conf, spared⟩ := exact.rmDynamicLease lone
    rcases addStaticLease_cases nu s l with same | ⟨-, -, same | same⟩
    · rwa [same]
    · rwa [same]
    · rw [same]
      exact exact₁.addAfter conf spared adds
  | updateStaticLease l =>
    cases done
    rcases updateStaticLease_cases s l with same | ⟨i, found, t, first, entry, removed, same⟩
    · rwa [same]
    · rw [same]
      obtain ⟨lone, adds⟩ := guard i found first entry
      obtain ⟨exact₁, conf, spared⟩ := exact.rmLease lone removed
      exact exact₁.addAfter conf spared adds
  | removeStaticLease l =>
    cases done
    rcases removeStaticLease_cases nu s l with same | ⟨t, removed, same⟩
    · rwa [same]
    · rw [same]
      exact (exact.rmLease guard removed).1
  | resetLeases leases =>
    obtain ⟨t, reset, same⟩ := Option.map_eq_some_iff.mp done
    cases same
    exact exact.resetLeases guard reset
  | process msg now later =>
    obtain ⟨⟨t, r⟩, processed, same⟩ := Option.map_eq_some_iff.mp done
    cases same
    exact exact.process processed

end ExactMap

/-- What the map is for: a byte is one exactly when some lease of the prefix has it,
no free address is found only when all addresses from `ipStart` on are leased,
and a free address is not leased. -/
structure AddressMap (s : V6Server) : Prop where
  exact : ∀ b, s.ipAddrs b = 1 ↔ s.Holds s.leases b
  full : s.findFreeIP = some .nil → ∀ start, s.conf.ipStart = .sixteen start →
    ∀ b, start.toNat % 256 ≤ b → b < 256 →
      ∃ l ∈ s.leases, l.ip.as16 = start.toNat / 256 * 256 + b
  free : ∀ n, s.findFreeIP = some (.sixteen n) → ∀ l ∈ s.leases, l.ip.as16 ≠ n.toNat

/-- The address of a byte of the prefix. -/
theorem holds_iff {start : BitVec 128} (range : s.conf.ipStart = .sixteen start) {b : Nat}
    (bound : b < 256) : s.Holds s.leases (UInt8.ofNat b) ↔
      ∃ l ∈ s.leases, l.ip.as16 = start.toNat / 256 * 256 + b := by
  have byte : ∀ n : Nat, UInt8.ofNat n = UInt8.ofNat b ↔ n % 256 = b := by
    intro n
    rw [← UInt8.toNat_inj, UInt8.toNat_ofNat', UInt8.toNat_ofNat']
    omega
  constructor
  · rintro ⟨l, member, inside, last⟩
    refine ⟨l, member, ?_⟩
    unfold InPrefix at inside
    rw [range] at inside
    simp only [startPrefix, Option.some.injEq] at inside
    have rest := (byte l.ip.as16).mp last
    omega
  · rintro ⟨l, member, value⟩
    refine ⟨l, member, ?_, (byte l.ip.as16).mpr (by omega)⟩
    unfold InPrefix
    rw [range]
    simp only [startPrefix, Option.some.injEq]
    omega

theorem ExactMap.addressMap (exact : ExactMap s) : AddressMap s := by
  refine ⟨?_, ?_, ?_⟩
  · intro b
    rw [exact b]
    by_cases held : s.Holds s.leases b
    · simp [held]
    · simp [held]
  · intro none start range b low high
    obtain ⟨start', range', ⟨-, used⟩ | ⟨n, -, here, -⟩⟩ := findFreeIP_some none
    · rw [range] at range'
      cases range'
      have marked := used b low high
      rw [exact (UInt8.ofNat b)] at marked
      by_cases held : s.Holds s.leases (UInt8.ofNat b)
      · exact (holds_iff range high).mp held
      · simp [held] at marked
    · cases here
  · intro n found l member same
    obtain ⟨start, range, ⟨none, -⟩ | ⟨m, b, here, bound, -, value, unused⟩⟩ :=
      findFreeIP_some found
    · cases none
    · cases here
      have held := (holds_iff range bound).mpr ⟨l, member, same.trans value⟩
      rw [exact (UInt8.ofNat b), if_pos held] at unused
      cases unused

theorem v6Create_exactMap (conf : V6ServerConf) : ExactMap (v6Create conf).1 := by
  have empty : (v6Create conf).1.leases = [] ∧ ∀ b, (v6Create conf).1.ipAddrs b = 0 := by
    unfold v6Create
    dsimp only
    split
    · exact ⟨rfl, fun _ => rfl⟩
    split
    · exact ⟨rfl, fun _ => rfl⟩
    split
    · exact ⟨rfl, fun _ => rfl⟩
    · exact ⟨rfl, fun _ => rfl⟩
  intro b
  rw [empty.2 b, empty.1, if_neg]
  rintro ⟨l, member, -⟩
  cases member

/-- In every run whose operations meet `MapOp`, the map of addresses is exact. -/
theorem ipAddrs_exact (conf : V6ServerConf)
    (run : Reaches (V6Server.step nu) MapOp (v6Create conf).1 s) : AddressMap s :=
  (run.invariant (v6Create_exactMap conf)
    fun _ _ _ _ exact guard taken => exact.step guard taken).addressMap

/-! ### A small network -/

/-- The addresses from `2001:db8::fe` on. -/
def smallConf6 : V6ServerConf := { rangeStart := .sixteen 0x20010db80000000000000000000000fe }

/-- The address `2001:db8::n`. -/
def hostAddr6 (n : Nat) : Addr := .v6 (0x20010db8000000000000000000000000 + BitVec.ofNat 128 n) ""

/-- The first message of the `n`-th client. -/
def solicit (n : UInt8) : Op := .process { messageType := .solicit, mac := some [2, 0, 0, 0, 0, n] }
  10 10

/-- Two clients take the two addresses there are. -/
theorem ipAddrs_exact_full :
    ∃ s, Reaches (V6Server.step .ascii) MapOp (v6Create smallConf6).1 s ∧
      (s.leases.map (·.ip) = [hostAddr6 0xfe, hostAddr6 0xff] ∧ s.findFreeIP = some .nil) ∧
      AddressMap s := by
  obtain ⟨s₁, _, taken₁, next⟩ := exists_step (V6Server.step .ascii) (v6Create smallConf6).1
    (solicit 1) (fun s => ((V6Server.step .ascii s (solicit 2)).map fun out => decide
      (out.1.leases.map (·.ip) = [hostAddr6 0xfe, hostAddr6 0xff] ∧
        out.1.findFreeIP = some .nil)) = some true) (by decide)
  obtain ⟨s₂, _, taken₂, full⟩ := exists_step (V6Server.step .ascii) s₁ (solicit 2)
    (fun s => s.leases.map (·.ip) = [hostAddr6 0xfe, hostAddr6 0xff] ∧ s.findFreeIP = some .nil)
    next
  have run := (Reaches.refl.tail (show MapOp (v6Create smallConf6).1 (solicit 1) from trivial)
    taken₁).tail (show MapOp s₁ (solicit 2) from trivial) taken₂
  exact ⟨s₂, run, full, ipAddrs_exact smallConf6 run⟩

/-- After a reset the address of a lease that is gone is still marked. -/
theorem ipAddrs_not_exact : ¬∀ (nu : Netutil) (conf : V6ServerConf) (start : BitVec 128)
    (s : V6Server), conf.enabled = true → conf.rangeStart = .sixteen start →
    Reaches (V6Server.step nu) (fun _ _ => True) (v6Create conf).1 s → AddressMap s := by
  intro always
  obtain ⟨s, done, fails⟩ := exec_refutes (V6Server.step .ascii) (v6Create smallConf6).1
    [solicit 1, .resetLeases []]
    (fun s => s.ipAddrs 0xfe = 1 ↔ s.Holds s.leases 0xfe) (by decide)
  exact fails ((always .ascii smallConf6 _ s rfl rfl (reaches_of_exec (by simp) done)).exact 0xfe)

end FirewallCore.Dhcpd.V6Server
