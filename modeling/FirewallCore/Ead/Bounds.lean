import FirewallCore.Ead.Accesses

/-!
When the daemon stays inside of what was captured and of its buffers. The numbers of a login have the length
of the modulus at most, whatever packets came before.
-/

namespace FirewallCore.Ead

open Lib Server

/-! ### The lengths of numbers -/

section Lengths

variable {n k : Nat}

theorem ofBytes_lt (bytes : List UInt8) : ofBytes bytes < 256 ^ bytes.length := number_lt (e := .big) bytes

theorem ofBytes_lt_of_length {bytes : List UInt8} (short : bytes.length ≤ k) : ofBytes bytes < 256 ^ k :=
  (ofBytes_lt bytes).trans_le (Nat.pow_le_pow_right (by decide) short)

theorem length_bytesOfNat (small : n < 256 ^ k) : (bytesOfNat n).length ≤ k := by
  unfold bytesOfNat
  split
  · exact Nat.zero_le k
  · rename_i positive
    have bits : n < 2 ^ (8 * k) := by
      rw [Nat.pow_mul]
      exact small
    have log : n.log2 < 8 * k := (Nat.log2_lt positive).mpr bits
    rw [toBytes, List.length_map, List.length_reverse, List.length_range]
    omega

end Lengths

/-- The parameters of a login fit in the buffers of the source. -/
structure Usable (tce : TConfent) : Prop where
  modulus : tce.modulus.length ≤ maxParamLen
  positive : 0 < ofBytes tce.modulus

/-- What is kept of a login. -/
structure Sized (ts : TServer) : Prop where
  salt : ts.s = []
  modulus : ts.n.length ≤ maxParamLen
  positive : 0 < ofBytes ts.n
  verifier : ts.v.length ≤ maxParamLen
  number : ∀ B, ts.B = some B → B.length ≤ maxParamLen

/-- The numbers of a server are sized. -/
structure Fits (s : Server) : Prop where
  usable : Usable s.preParam
  sized : ∀ ts, s.ts = some ts → Sized ts

section Invariant

variable {p : Platform} {env : Env} {s s' : Server} {ts : TServer} {msg : Msg} {nstate kind : EadType}

theorem Usable.verifierOf {tce : TConfent} (usable : Usable tce) (p : Platform) (username password : List UInt8) :
    (verifierOf p tce username password).length ≤ maxParamLen :=
  length_bytesOfNat ((Nat.mod_lt _ usable.positive).trans (ofBytes_lt_of_length usable.modulus))

theorem Sized.genExp (sized : Sized ts) (random : List UInt8) : Sized (ts.genExp random) := by
  refine ⟨sized.salt, sized.modulus, sized.positive, sized.verifier, ?_⟩
  rintro B same
  obtain rfl := Option.some.inj same
  apply length_bytesOfNat
  have modulus := ofBytes_lt_of_length sized.modulus
  have verifier := ofBytes_lt_of_length sized.verifier
  have power := Nat.mod_lt (ofBytes ts.g ^ ofBytes (random.take (min ts.n.length 32))) sized.positive
  split <;> omega

theorem Sized.getKey (sized : Sized ts) (p : Platform) (A : List UInt8) : Sized (ts.getKey p A).1 := by
  unfold TServer.getKey
  dsimp only
  split <;> exact ⟨sized.salt, sized.modulus, sized.positive, sized.verifier, sized.number⟩

theorem Sized.verify (sized : Sized ts) (p : Platform) (resp : List UInt8) : Sized (ts.verify p resp).1 := by
  unfold TServer.verify
  dsimp only
  split_ifs <;> exact ⟨sized.salt, sized.modulus, sized.positive, sized.verifier, sized.number⟩

/-- A server with other contents but the same parameters and a context that is sized. -/
theorem Fits.with (fits : Fits s) (same : s'.preParam = s.preParam) (sized : ∀ ts, s'.ts = some ts → Sized ts) :
    Fits s' :=
  ⟨same ▸ fits.usable, sized⟩

theorem preparePassword_sized (fits : Fits s) {found : Bool} (done : s.preparePassword p env = (s', found)) :
    s'.preParam = s.preParam ∧ s'.ts = s.ts ∧
      (found = true → s'.tce = some s.preParam ∧ s'.pwbuf.length ≤ maxParamLen) := by
  unfold preparePassword at done
  split at done
  · cases done
    exact ⟨rfl, rfl, fun yes => absurd yes Bool.false_ne_true⟩
  · split at done
    · cases done
      exact ⟨rfl, rfl, fun yes => absurd yes Bool.false_ne_true⟩
    · cases done
      exact ⟨rfl, rfl, fun _ => ⟨rfl, fits.usable.verifierOf p _ _⟩⟩

theorem Fits.openContext (fits : Fits s) (done : s.openContext p env nstate = .ok s') : Fits s' := by
  unfold Server.openContext at done
  split at done
  case h_1 between failed =>
    obtain ⟨same, kept, _⟩ := preparePassword_sized fits failed
    cases done
    exact fits.with same fun ts here => fits.sized ts (kept ▸ here)
  case h_2 between found =>
    obtain ⟨same, kept, sized⟩ := preparePassword_sized fits found
    obtain ⟨tce, verifier⟩ := sized rfl
    rw [tce] at done
    dsimp only at done
    split at done
    · cases done
      refine fits.with same ?_
      rintro ts here
      obtain rfl := Option.some.inj here
      exact ⟨rfl, fits.usable.modulus, fits.usable.positive, verifier, fun B none => by cases none⟩
    · cases done
      exact fits.with same fun ts none => by cases none

theorem Fits.setState (fits : Fits s) (done : s.setState p env nstate = .ok s') : Fits s' := by
  unfold Server.setState at done
  split at done
  · cases done
    exact fits
  · split at done
    · split at done
      · split at done
        · cases done
        · cases done
          exact fits.with rfl fun ts none => by cases none
      · cases done
        exact fits.with rfl fits.sized
    · split at done
      · exact fits.openContext done
      · split at done
        · cases done
        · rename_i ts here
          cases done
          refine fits.with rfl ?_
          rintro ts' same
          obtain rfl := Option.some.inj same
          exact (fits.sized ts here).genExp env.random
      · split at done
        · cases done
        · rename_i ts here
          have sized := (fits.sized ts here).getKey p s.A
          split at done
          · rename_i ts' got
            rw [got] at sized
            cases done
            refine fits.with rfl ?_
            rintro ts'' same
            obtain rfl := Option.some.inj same
            exact sized
          · rename_i ts' key got
            rw [got] at sized
            cases done
            refine fits.with rfl ?_
            rintro ts'' same
            obtain rfl := Option.some.inj same
            exact sized
      · cases done
        exact fits.with rfl fits.sized

theorem sendResult_kept (p : Platform) (env : Env) (s : Server) (normal : Bool) :
    (s.sendResult p env normal).server.preParam = s.preParam ∧ (s.sendResult p env normal).server.ts = s.ts := by
  unfold sendResult
  dsimp only
  split <;> exact ⟨rfl, rfl⟩

theorem handleSendCmd_kept (p : Platform) (env : Env) (s : Server) (msg : Msg) :
    (s.handleSendCmd p env msg).server.preParam = s.preParam ∧ (s.handleSendCmd p env msg).server.ts = s.ts := by
  unfold handleSendCmd
  dsimp only
  split_ifs
  · exact ⟨rfl, rfl⟩
  · exact sendResult_kept p env _ true
  · exact ⟨rfl, rfl⟩
  · exact sendResult_kept p env _ false
  · exact ⟨rfl, rfl⟩
  · exact ⟨rfl, rfl⟩

theorem Fits.handleSetUsername (fits : Fits s) {h : Handled} (done : s.handleSetUsername p env msg = .ok h) :
    Fits h.server := by
  unfold Server.handleSetUsername at done
  split at done
  · cases done
  · rename_i between cleared
    cases done
    exact (fits.setState cleared).with rfl (fits.setState cleared).sized

theorem Fits.handleSendAuth (fits : Fits s) {h : Handled} (done : s.handleSendAuth p msg = .ok h) :
    Fits h.server := by
  unfold Server.handleSendAuth at done
  split at done
  · cases done
  · rename_i ts here
    have sized := (fits.sized ts here).verify p (msg.data.take 20)
    split at done
    · rename_i ts' checked
      rw [checked] at sized
      cases done
      exact fits.with rfl fun ts'' same => Option.some.inj same ▸ sized
    · rename_i ts' checked
      rw [checked] at sized
      cases done
      exact fits.with rfl fun ts'' same => Option.some.inj same ▸ sized

theorem Fits.handle (fits : Fits s) {h : Handled} (done : s.handle p env msg kind = .ok h) : Fits h.server := by
  unfold Server.handle at done
  split at done
  · exact fits.handleSetUsername done
  · unfold handleGetPrime at done
    split at done <;> cases done
    exact fits
  · unfold handleSendA at done
    dsimp only at done
    split_ifs at done
    · cases done
      exact fits
    · split at done <;> cases done
      exact fits.with rfl fits.sized
  · exact fits.handleSendAuth done
  · cases done
    obtain ⟨same, kept⟩ := handleSendCmd_kept p env s msg
    exact fits.with same fun ts here => fits.sized ts (kept ▸ here)
  · cases done
    exact fits

theorem Fits.handlePacket (fits : Fits s) {pkt : Packet} {sent : List (List UInt8)}
    (done : s.handlePacket p env pkt = .ok (s', sent)) : Fits s' := by
  obtain ignored | parsed := handlePacket_cases p env s pkt
  · rw [ignored] at done
    cases done
    exact fits
  · rw [parsed] at done
    obtain ignored | ⟨kind, called, _⟩ := parseMessage_cases p env s pkt
    · rw [ignored] at done
      cases done
      exact fits
    · rw [called, dispatch] at done
      split at done
      · cases done
      · rename_i h handled
        split at done
        · cases done
        · rename_i next moved
          cases done
          exact (fits.handle handled).setState moved

end Invariant

/-! ### Accesses inside of buffers -/

/-- All accesses are inside. -/
def AllInside (f : Frame) (l : List Access) : Prop := ∀ a ∈ l, a.Inside f

instance (f : Frame) (l : List Access) : Decidable (AllInside f l) := inferInstanceAs (Decidable (∀ a ∈ l, _))

section Inside

variable {p : Platform} {env : Env} {s : Server} {f : Frame} {l l' : List Access} {pos n : Nat}

@[simp] theorem allInside_nil : AllInside f [] := fun _ member => absurd member List.not_mem_nil

@[simp] theorem allInside_cons {a : Access} : AllInside f (a :: l) ↔ a.Inside f ∧ AllInside f l :=
  List.forall_mem_cons

@[simp] theorem allInside_append : AllInside f (l ++ l') ↔ AllInside f l ∧ AllInside f l' := List.forall_mem_append

theorem guarded_inside {checks : List (Access × Bool)} (inside : ∀ check ∈ checks, check.1.Inside f) :
    AllInside f (guarded checks l) ↔ (checks.all (·.2) = true → AllInside f l) := by
  induction checks with
  | nil => simp [guarded]
  | cons check checks ih =>
    obtain ⟨a, ok⟩ := check
    rw [List.forall_mem_cons] at inside
    rw [guarded, allInside_cons, and_iff_right inside.1]
    cases ok with
    | true => simpa using ih inside.2
    | false => simp

theorem length_bytes_frame (f : Frame) : f.bytes.length = min pcapMru f.wire.length := List.length_take

theorem sendAccesses_inside (head : packetSize ≤ f.bytes.length) (fits : packetSize + n ≤ pcapMru) :
    AllInside f (sendAccesses n) := by
  unfold packetSize pcapMru at *
  simp only [sendAccesses, allInside_cons, allInside_nil, and_true, Access.Inside, Buffer.size, packetSize, pcapMru]
  omega

/-- An encrypted message takes whole blocks of the hash. -/
theorem sealedLength_whole (n : Nat) : 64 * ((sealedLength n + 63) / 64) = sealedLength n ∧
    16 * ((sealedLength n + 15) / 16) = sealedLength n ∧ sealedLength n ≤ n + 88 ∧ 62 + 20 ≤ 62 + sealedLength n := by
  have pad := padOf_lt n
  unfold sealedLength
  unfold padOf encPad encSize at *
  omega

theorem encryptAccesses_inside (fits : n ≤ 1025) : AllInside f (encryptAccesses n) := by
  obtain ⟨hash, cipher, most, least⟩ := sealedLength_whole n
  simp only [encryptAccesses, allInside_cons, allInside_nil, and_true, Access.Inside, Buffer.size, pcapMru, hash, cipher]
  omega

theorem resultAccesses_inside (head : packetSize ≤ f.bytes.length) (normal : Bool) :
    AllInside f (resultAccesses env normal).accesses ∧
      ∀ n, (resultAccesses env normal).reply = some n → AllInside f (sendAccesses n) := by
  have rounds : ∀ chunks : List (List UInt8), AllInside f (chunks.flatMap fun chunk =>
      [⟨.reply, 87, 1⟩, ⟨.reply, 88, 1024⟩] ++ encryptAccesses (1 + (chunk.take 1024).length) ++
        sendAccesses (sealedLength (1 + (chunk.take 1024).length))) := by
    intro chunks a member
    obtain ⟨chunk, _, member⟩ := List.mem_flatMap.mp member
    have short : 1 + (chunk.take 1024).length ≤ 1025 := by
      rw [List.length_take]
      omega
    have most := (sealedLength_whole (1 + (chunk.take 1024).length)).2.2.1
    have console : AllInside f [⟨.reply, 87, 1⟩, ⟨.reply, 88, 1024⟩] := by
      simp only [allInside_cons, allInside_nil, and_true, Access.Inside, Buffer.size, pcapMru]
      omega
    have sent := sendAccesses_inside (n := sealedLength (1 + (chunk.take 1024).length)) head
      (by unfold packetSize pcapMru; omega)
    rw [List.mem_append, List.mem_append] at member
    rcases member with (member | member) | member
    · exact console a member
    · exact encryptAccesses_inside short a member
    · exact sent a member
  have last : AllInside f (⟨.reply, 87, 1⟩ :: encryptAccesses 1) := by
    rw [allInside_cons]
    refine ⟨?_, encryptAccesses_inside (by decide)⟩
    simp only [Access.Inside, Buffer.size, pcapMru]
    omega
  unfold resultAccesses
  dsimp only
  split
  · exact ⟨rounds _, fun n none => by cases none⟩
  · refine ⟨allInside_append.mpr ⟨rounds _, last⟩, ?_⟩
    rintro n same
    obtain rfl := Option.some.inj same
    exact sendAccesses_inside head (by decide)

/-! ### Which packets reach a handler -/

/-- By how much the packets of a type are longer than `struct ead_packet`. -/
def extraOf : EadType → Nat
  | .setUsername => 32
  | .sendA => 1
  | .sendAuth => 20
  | .sendCmd => 3 + encSize
  | _ => 0

theorem handlerOf_extra {type : Int} {kind : EadType} {extra : Nat} (found : handlerOf type = some (kind, extra)) :
    extra = extraOf kind := by
  unfold handlerOf at found
  split_ifs at found
  all_goals
    cases found
    rfl

/-- A handler is reached by packets that are long enough and, but for two, in its state. -/
theorem parseSelects_some {kind : EadType} (found : parseSelects s f = some kind) :
    packetSize + extraOf kind ≤ f.wire.length ∧
      kind ∈ [.ping, .setUsername, .getPrime, .sendA, .sendAuth, .sendCmd] ∧
      (EadType.getPrime.num ≤ kind.num → s.state = kind) := by
  unfold parseSelects at found
  dsimp only at found
  split at found
  · cases found
  · rename_i gate
    split at found
    · cases found
    · split at found
      · cases found
      · rename_i kind' extra known
        split at found
        · cases found
        · rename_i long
          cases found
          obtain ⟨type, member⟩ := handlerOf_some known
          refine ⟨?_, member, fun far => ?_⟩
          · rw [← handlerOf_extra known]
            exact Nat.not_lt.mp long
          · by_contra other
            rw [type] at gate
            exact gate ⟨by exact_mod_cast far, fun same => other (EadType.num_injective (by exact_mod_cast same))⟩

theorem parseSelects_captured {kind : EadType} (found : parseSelects s f = some kind) :
    packetSize + extraOf kind ≤ f.bytes.length := by
  have long := (parseSelects_some found).1
  have few : extraOf kind ≤ 32 := by
    unfold extraOf encSize
    split <;> decide
  rw [length_bytes_frame]
  unfold packetSize pcapMru at *
  omega

/-- What a packet makes the daemon access is inside if it is inside of the handler that it reaches. -/
theorem accesses_inside : AllInside f (accesses p env s f) ↔ ∀ kind, selects p s f = some kind →
    AllInside f (handlerAccesses p env s f kind).accesses ∧
      ∀ n, (handlerAccesses p env s f kind).reply = some n → AllInside f (sendAccesses n) := by
  unfold accesses selects
  by_cases long : f.packet.hlen < packetSize
  · rw [if_pos long, if_neg fun all => absurd all.1 (Nat.not_le.mpr long)]
    exact iff_of_true allInside_nil fun kind none => by cases none
  · have head : packetSize ≤ f.bytes.length := by
      rw [length_bytes_frame]
      exact le_min (by decide) (Nat.not_lt.mp long)
    have fields : ∀ check ∈ packetChecks p s f, check.1.Inside f := by
      unfold packetSize at head
      simp only [packetChecks, List.forall_mem_cons, Access.Inside, Buffer.size]
      refine ⟨?_, ?_, ?_, ?_, ?_, ?_, ?_, fun check none => absurd none List.not_mem_nil⟩ <;> omega
    rw [if_neg long, guarded_inside fields]
    by_cases all : (packetChecks p s f).all (·.2) = true
    · rw [if_pos ⟨Nat.not_lt.mp long, all⟩, parseAccesses]
      have front : AllInside f [⟨.packet, 50, 4⟩, ⟨.packet, 56, 2⟩, ⟨.reply, 42, 4⟩, ⟨.reply, 50, 4⟩,
          ⟨.reply, 54, 2⟩, ⟨.reply, 56, 2⟩, ⟨.reply, 46, 4⟩] := by
        unfold packetSize at head
        simp only [allInside_cons, allInside_nil, and_true, Access.Inside, Buffer.size, pcapMru]
        omega
      simp only [allInside_cons, allInside_nil] at front
      obtain ⟨type, sid, magic, type', nid, sid', len, _⟩ := front
      cases found : parseSelects s f with
      | none =>
        simp only [allInside_cons, type, sid, allInside_nil, all]
        simp
      | some kind =>
        simp only [allInside_cons, allInside_append, type, sid, magic, type', nid, sid', len, allInside_nil, all,
          true_and, true_imp_iff, Option.some.injEq, forall_eq']
        refine and_congr_right fun _ => ?_
        cases (handlerAccesses p env s f kind).reply <;> simp
    · rw [if_neg fun both => all both.2]
      exact iff_of_true (fun yes => absurd yes all) fun kind none => by cases none

/-- The handler is the one that the daemon calls. -/
theorem handlePacket_selects (p : Platform) (env : Env) (s : Server) (f : Frame) :
    s.handlePacket p env f.packet = match selects p s f with
      | none => .ok (s, [])
      | some kind => s.dispatch p env f.packet.msg kind := by
  have parsed : s.parseMessage p env f.packet = match parseSelects s f with
      | none => .ok (s, [])
      | some kind => s.dispatch p env f.packet.msg kind := by
    unfold parseMessage parseSelects
    dsimp only
    split_ifs
    · rfl
    · rfl
    · cases handlerOf f.packet.msg.type.toInt with
      | none => rfl
      | some found =>
        obtain ⟨kind, extra⟩ := found
        dsimp only
        split_ifs <;> rfl
  unfold handlePacket selects packetChecks
  rw [parsed]
  simp only [List.all_cons, List.all_nil, Bool.and_true, Bool.and_eq_true, decide_eq_true_eq]
  split_ifs <;> simp_all
  omega

/-! ### The handlers -/

theorem pingAccesses_inside (head : packetSize ≤ f.bytes.length) : AllInside f (pingAccesses s).accesses ∧
    ∀ n, (pingAccesses s).reply = some n → AllInside f (sendAccesses n) := by
  have most : min s.devName.length 1024 ≤ 1024 := Nat.min_le_right _ _
  constructor
  · simp only [pingAccesses, allInside_cons, allInside_nil, and_true, Access.Inside, Buffer.size, pcapMru]
    omega
  · rintro n same
    obtain rfl := Option.some.inj same
    refine sendAccesses_inside head ?_
    unfold packetSize pcapMru
    omega

theorem setUsernameAccesses_inside (captured : packetSize + 32 ≤ f.bytes.length) :
    AllInside f (setUsernameAccesses f).accesses ∧
      ∀ n, (setUsernameAccesses f).reply = some n → AllInside f (sendAccesses n) := by
  have most := Nat.min_le_right (((f.packet.msg.data.take 32).takeWhile (· != 0)).length + 1) 32
  constructor
  · unfold packetSize at captured
    simp only [setUsernameAccesses, allInside_cons, allInside_nil, and_true, Access.Inside, Buffer.size, pcapMru]
    omega
  · rintro n same
    obtain rfl := Option.some.inj same
    exact sendAccesses_inside (by omega) (by decide)

theorem getPrimeAccesses_inside (head : packetSize ≤ f.bytes.length) (fits : Fits s) {ts : TServer}
    (opened : HasContext s ts) : AllInside f (getPrimeAccesses s).accesses ∧
      ∀ n, (getPrimeAccesses s).reply = some n → AllInside f (sendAccesses n) := by
  obtain ⟨here, _, conf, _⟩ := opened
  obtain ⟨tce, conf⟩ := Option.isSome_iff_exists.mp conf
  have salt := (fits.sized ts here).salt
  unfold getPrimeAccesses
  rw [here, conf]
  constructor
  · simp only [allInside_cons, allInside_nil, and_true, Access.Inside, Buffer.size, pcapMru, salt, List.length_nil,
      maxSaltLen]
    omega
  · rintro n same
    obtain rfl := Option.some.inj same
    exact sendAccesses_inside head (by decide)

/-- A length that is not negative when one is taken off. -/
theorem toInt_sub_one {x : BitVec 32} (positive : 0 ≤ (x - 1).toInt) : (x.toNat : Int) = (x - 1).toInt + 1 := by
  have bound := x.isLt
  have one : (1 : BitVec 32).toNat = 1 := rfl
  rw [BitVec.toInt_eq_toNat_cond, BitVec.toNat_sub, one] at positive ⊢
  split at positive
  · rename_i low
    rw [if_pos low]
    omega
  · omega

/-- A number that fits in `abuf` is in the packet. -/
theorem sendAAccesses_inside_iff (captured : packetSize + 1 ≤ f.bytes.length) (fits : Fits s) {ts : TServer}
    (opened : HasContext s ts) (made : HasNumber s ts)
    (whole : ¬f.packet.hlen < (packetSize + f.packet.msg.len.toNat) % 2 ^ p.sizeBits) (wide : 32 ≤ p.sizeBits) :
    (AllInside f (sendAAccesses s f).accesses ∧
        ∀ n, (sendAAccesses s f).reply = some n → AllInside f (sendAccesses n)) ↔
      0 ≤ (f.packet.msg.len - 1).toInt := by
  obtain ⟨B, points⟩ := made.derefB opened
  have number : B.length ≤ maxParamLen := by
    obtain ⟨points', made'⟩ := made
    obtain ⟨B', here⟩ := Option.isSome_iff_exists.mp made'
    have same : s.derefB = some B' := by simp [derefB, opened.1, points', here]
    rw [points] at same
    cases same
    exact (fits.sized ts opened.1).number B here
  unfold packetSize at captured
  unfold maxParamLen at number
  unfold sendAAccesses
  dsimp only
  split
  · rename_i long
    refine iff_of_true ⟨?_, fun n none => by cases none⟩ (by omega)
    simp only [allInside_cons, allInside_nil, and_true, Access.Inside, Buffer.size]
    omega
  · rename_i short
    rw [points]
    dsimp only
    constructor
    · rintro ⟨inside, _⟩
      simp only [allInside_append, allInside_cons, Access.Inside] at inside
      exact inside.1.2.1.1
    · rintro positive
      have length := toInt_sub_one positive
      have modulus : 2 ^ 32 ≤ 2 ^ p.sizeBits := Nat.pow_le_pow_right (by decide) wide
      have fitted : 63 + (f.packet.msg.len - 1).toInt ≤ f.bytes.length := by
        unfold maxParamLen at short
        unfold packetSize at whole
        rw [Nat.mod_eq_of_lt (by omega)] at whole
        rw [length_bytes_frame]
        change ¬f.wire.length < _ at whole
        unfold pcapMru
        omega
      constructor
      · unfold maxParamLen at short
        simp only [allInside_append, allInside_cons, allInside_nil, and_true, Access.Inside, Buffer.size, pcapMru,
          maxParamLen]
        omega
      · rintro n same
        obtain rfl := Option.some.inj same
        exact sendAccesses_inside (by unfold packetSize; omega) (by unfold packetSize pcapMru; omega)

theorem sendAuthAccesses_inside (captured : packetSize + 20 ≤ f.bytes.length) {ts : TServer}
    (opened : HasContext s ts) : AllInside f (sendAuthAccesses p s f).accesses ∧
      ∀ n, (sendAuthAccesses p s f).reply = some n → AllInside f (sendAccesses n) := by
  unfold packetSize at captured
  unfold sendAuthAccesses
  rw [opened.1]
  dsimp only
  split
  · constructor
    · simp only [allInside_cons, allInside_nil, and_true, Access.Inside, Buffer.size, pcapMru]
      omega
    · rintro n same
      obtain rfl := Option.some.inj same
      exact sendAccesses_inside (by unfold packetSize; omega) (by decide)
  · refine ⟨?_, fun n none => by cases none⟩
    simp only [allInside_cons, allInside_nil, and_true, Access.Inside, Buffer.size]
    omega

/-! ### Commands -/

/-- The message is a valid one: its padding, its counter and its hash are right. -/
def Opens (p : Platform) (c : Crypt) (f : Frame) : Prop :=
  padding (deciphered p c f) < encPad ∧ c.fresh (counter (deciphered p c f)) = true ∧
    (deciphered p c f).take 20 = hashMessage p (deciphered p c f) f.len

instance (p : Platform) (c : Crypt) (f : Frame) : Decidable (Opens p c f) :=
  inferInstanceAs (Decidable (_ ∧ _ ∧ _))

/-- A command message that is not a whole number of blocks is not decrypted. Otherwise it must have been
captured to its end and, if it is valid, have padding, in which the NUL behind the command is written. One with a
negative length must be refused for its padding or its counter. -/
def CommandFits (p : Platform) (c : Crypt) (f : Frame) : Prop :=
  (f.len = 0 ∨ 0 < f.len.tmod encPad) ∨
    (0 < f.len ∧ packetSize + f.len ≤ f.bytes.length ∧ ¬(Opens p c f ∧ padding (deciphered p c f) = 0)) ∨
    (f.len < 0 ∧ ¬(padding (deciphered p c f) < encPad ∧ c.fresh (counter (deciphered p c f)) = true))

theorem decryptMessage_result {c : Crypt} : (c.decryptMessage p f.len f.packet.msg.data).2.1 =
    if ¬(f.len = 0 ∨ 0 < f.len.tmod encPad) ∧ Opens p c f then
      f.len - (padding (deciphered p c f) + encSize : Nat)
    else 0 := by
  have checks : (c.decryptMessage p f.len f.packet.msg.data).2.1 =
      if f.len = 0 ∨ 0 < f.len.tmod encPad then 0
      else if encPad ≤ padding (deciphered p c f) then 0
      else if !c.fresh (counter (deciphered p c f)) then 0
      else if (deciphered p c f).take 20 ≠ hashMessage p (deciphered p c f) f.len then 0
      else f.len - (padding (deciphered p c f) + encSize : Nat) := by
    unfold Crypt.decryptMessage padding counter deciphered
    dsimp only
    split_ifs <;> rfl
  rw [checks]
  by_cases opens : ¬(f.len = 0 ∨ 0 < f.len.tmod encPad) ∧ Opens p c f
  · obtain ⟨whole, small, fresh, hash⟩ := id opens
    rw [if_pos opens, if_neg whole, if_neg (Nat.not_le.mpr small), if_neg (by rw [fresh]; decide),
      if_neg (not_not.mpr hash)]
  · rw [if_neg opens]
    split_ifs with whole large stale hash
    · rfl
    · rfl
    · rfl
    · rfl
    · rw [Bool.not_eq_true, Bool.not_eq_false'] at stale
      exact absurd ⟨whole, Nat.not_le.mp large, stale, not_not.mp hash⟩ opens

/-- A length that is decrypted is negative, or so many blocks. -/
theorem blocks_cases (whole : ¬(f.len = 0 ∨ 0 < f.len.tmod encPad)) : f.len < 0 ∨ 0 < f.len ∧ 64 ∣ f.len := by
  rw [not_or] at whole
  rcases Int.lt_or_gt_of_ne whole.1 with negative | positive
  · exact .inl negative
  · refine .inr ⟨positive, ?_⟩
    have rest := whole.2
    unfold encPad at rest
    rw [Int.tmod_eq_emod_of_nonneg positive.le] at rest
    omega

theorem decryptAccesses_inside_iff {c : Crypt} (captured : packetSize + 28 ≤ f.bytes.length)
    (whole : ¬(f.len = 0 ∨ 0 < f.len.tmod encPad)) : AllInside f (decryptAccesses p c f) ↔
      (0 < f.len ∧ packetSize + f.len ≤ f.bytes.length) ∨
        (f.len < 0 ∧ ¬(padding (deciphered p c f) < encPad ∧ c.fresh (counter (deciphered p c f)) = true)) := by
  have fields : ∀ check ∈ [((⟨.packet, 86, 1⟩ : Access), decide (padding (deciphered p c f) < encPad)),
      (⟨.packet, 82, 4⟩, c.fresh (counter (deciphered p c f)))], check.1.Inside f := by
    unfold packetSize at captured
    simp only [List.forall_mem_cons, Access.Inside, Buffer.size]
    refine ⟨?_, ?_, fun check none => absurd none List.not_mem_nil⟩ <;> omega
  have first : Access.Inside f ⟨.packet, 46, 4⟩ := by
    unfold packetSize at captured
    simp only [Access.Inside, Buffer.size]
    omega
  rw [decryptAccesses, if_neg whole, allInside_cons, and_iff_right first, allInside_append, guarded_inside fields]
  simp only [List.all_cons, List.all_nil, Bool.and_true, Bool.and_eq_true, decide_eq_true_eq, allInside_cons,
    allInside_nil, and_true, Access.Inside, Buffer.size]
  unfold packetSize at *
  rcases blocks_cases whole with negative | ⟨positive, blocks⟩
  · have none : f.len.toNat = 0 := Int.toNat_eq_zero.mpr negative.le
    rw [none]
    by_cases taken : padding (deciphered p c f) < encPad ∧ c.fresh (counter (deciphered p c f)) = true
    · refine iff_of_false (fun both => ?_) ?_
      · have outside := both.2 taken
        omega
      · rintro (⟨positive, _⟩ | ⟨_, refused⟩)
        · omega
        · exact refused taken
    · exact iff_of_true ⟨by omega, fun yes => absurd yes taken⟩ (.inr ⟨negative, taken⟩)
  · have exactly : 16 * ((f.len.toNat + 15) / 16) = f.len.toNat ∧ 64 * ((f.len.toNat + 63) / 64) = f.len.toNat := by
      omega
    rw [exactly.1, exactly.2]
    constructor
    · rintro ⟨message, _⟩
      exact .inl ⟨positive, by omega⟩
    · rintro (⟨_, fits⟩ | ⟨negative, _⟩)
      · exact ⟨by omega, fun _ => by omega⟩
      · omega

theorem encPad_blocks (whole : ¬(f.len = 0 ∨ 0 < f.len.tmod encPad)) : f.len < 0 ∨ 64 ≤ f.len := by
  have cases := blocks_cases whole
  omega

theorem sendCmdAccesses_inside_iff (captured : packetSize + 28 ≤ f.bytes.length) :
    (AllInside f (sendCmdAccesses p env s f).accesses ∧
        ∀ n, (sendCmdAccesses p env s f).reply = some n → AllInside f (sendAccesses n)) ↔
      CommandFits p s.crypt f := by
  have head : packetSize ≤ f.bytes.length := by omega
  have result := decryptMessage_result (p := p) (c := s.crypt) (f := f)
  unfold sendCmdAccesses CommandFits
  dsimp only
  by_cases whole : f.len = 0 ∨ 0 < f.len.tmod encPad
  · rw [if_neg fun both => both.1 whole] at result
    rw [result, if_pos (by decide)]
    refine iff_of_true ⟨?_, fun n none => by cases none⟩ (.inl whole)
    unfold packetSize at captured
    rw [decryptAccesses, if_pos whole]
    simp only [allInside_cons, allInside_nil, and_true, Access.Inside, Buffer.size]
    omega
  · have decrypt := decryptAccesses_inside_iff (p := p) (c := s.crypt) captured whole
    rw [or_iff_right whole]
    have small := encPad_blocks whole
    by_cases data : (s.crypt.decryptMessage p f.len f.packet.msg.data).2.1 - 3 ≤ 0
    · rw [if_pos data]
      dsimp only
      have ends : 0 < f.len → ¬(Opens p s.crypt f ∧ padding (deciphered p s.crypt f) = 0) := by
        rintro positive ⟨opens, none⟩
        rw [if_pos ⟨whole, opens⟩, none] at result
        unfold encSize at result
        omega
      rw [decrypt]
      constructor
      · rintro ⟨⟨positive, fits⟩ | negative, _⟩
        · exact .inl ⟨positive, fits, ends positive⟩
        · exact .inr negative
      · rintro (⟨positive, fits, _⟩ | negative)
        · exact ⟨.inl ⟨positive, fits⟩, fun n none => by cases none⟩
        · exact ⟨.inr negative, fun n none => by cases none⟩
    · have opens : Opens p s.crypt f := by
        by_contra invalid
        rw [if_neg fun both => invalid both.2] at result
        omega
      rw [if_pos ⟨whole, opens⟩] at result
      rw [if_neg data]
      generalize datalen : (s.crypt.decryptMessage p f.len f.packet.msg.data).2.1 - 3 = n at *
      unfold encSize at result
      have positive : 0 < f.len := by omega
      have front : AllInside f (decryptAccesses p s.crypt f ++
          [⟨.packet, 87, 1⟩, ⟨.packet, 88, 2⟩, ⟨.message, 28 + n.toNat, 1⟩]) ↔
            packetSize + f.len ≤ f.bytes.length ∧ padding (deciphered p s.crypt f) ≠ 0 := by
        rw [allInside_append, decrypt]
        simp only [allInside_cons, allInside_nil, and_true, Access.Inside, Buffer.size]
        unfold packetSize at *
        constructor
        · rintro ⟨⟨_, fits⟩ | ⟨negative, _⟩, _, _, nul⟩
          · exact ⟨fits, by omega⟩
          · omega
        · rintro ⟨fits, pad⟩
          exact ⟨.inl ⟨positive, fits⟩, by omega⟩
      have fits : (0 < f.len ∧ packetSize + f.len ≤ f.bytes.length ∧
            ¬(Opens p s.crypt f ∧ padding (deciphered p s.crypt f) = 0)) ∨
          (f.len < 0 ∧ ¬(padding (deciphered p s.crypt f) < encPad ∧
            s.crypt.fresh (counter (deciphered p s.crypt f)) = true)) ↔
          packetSize + f.len ≤ f.bytes.length ∧ padding (deciphered p s.crypt f) ≠ 0 := by
        constructor
        · rintro (⟨_, fits, pad⟩ | ⟨negative, _⟩)
          · exact ⟨fits, fun none => pad ⟨opens, none⟩⟩
          · omega
        · rintro ⟨fits, pad⟩
          exact .inl ⟨positive, fits, fun both => pad both.2⟩
      have system : ∀ text : List UInt8, packetSize + f.len ≤ f.bytes.length ∧ padding (deciphered p s.crypt f) ≠ 0 →
          Access.Inside f ⟨.packet, 90, (((text.take n.toNat).takeWhile (· != 0)).length + 1 : Nat)⟩ := by
        rintro text ⟨fits, pad⟩
        have short := (List.takeWhile_sublist (· != 0) (l := text.take n.toNat)).length_le
        rw [List.length_take] at short
        unfold packetSize at fits
        simp only [Access.Inside, Buffer.size]
        omega
      rw [fits]
      split_ifs
      · obtain ⟨rounds, sent⟩ := @resultAccesses_inside env _ head true
        dsimp only
        rw [allInside_append, front, allInside_cons]
        exact ⟨fun both => both.1.1, fun inside => ⟨⟨inside, system _ inside, rounds⟩, sent⟩⟩
      · exact ⟨fun both => front.mp both.1, fun inside => ⟨front.mpr inside, fun n none => by cases none⟩⟩
      · obtain ⟨rounds, sent⟩ := @resultAccesses_inside env _ head false
        dsimp only
        rw [allInside_append, front, allInside_cons]
        exact ⟨fun both => both.1.1, fun inside => ⟨⟨inside, system _ inside, rounds⟩, sent⟩⟩
      · exact ⟨fun both => front.mp both.1, fun inside => ⟨front.mpr inside, fun n none => by cases none⟩⟩
      · exact ⟨fun both => front.mp both.1, fun inside => ⟨front.mpr inside, fun n none => by cases none⟩⟩

/-! ### Packets -/

/-- The number of a client has a length that is not negative when its type is taken off, and a command fits.
Packets that are for other handlers or for none are harmless. -/
def Harmless (p : Platform) (s : Server) (f : Frame) : Prop :=
  match selects p s f with
  | some .sendA => 0 ≤ (f.packet.msg.len - 1).toInt
  | some .sendCmd => CommandFits p s.crypt f
  | _ => True

theorem selects_parse {kind : EadType} (found : selects p s f = some kind) : parseSelects s f = some kind ∧
    ¬f.packet.hlen < (packetSize + f.packet.msg.len.toNat) % 2 ^ p.sizeBits := by
  unfold selects at found
  split at found
  · rename_i checked
    simp only [packetChecks, List.all_cons, List.all_nil, Bool.and_true, Bool.and_eq_true, decide_eq_true_eq] at checked
    obtain ⟨_, _, _, _, _, _, whole, _⟩ := checked
    exact ⟨found, whole⟩
  · cases found

/-- A packet makes the daemon leave its buffers exactly if it is not harmless. -/
theorem accesses_inside_iff (wide : 32 ≤ p.sizeBits) (inv : Inv p s) (fits : Fits s) :
    AllInside f (accesses p env s f) ↔ Harmless p s f := by
  rw [accesses_inside]
  unfold Harmless
  cases found : selects p s f with
  | none => exact iff_of_true (fun kind none => by cases none) trivial
  | some kind =>
    obtain ⟨parsed, whole⟩ := selects_parse found
    obtain ⟨_, member, state⟩ := parseSelects_some parsed
    have captured := parseSelects_captured parsed
    simp only [Option.some.injEq, forall_eq']
    simp only [List.mem_cons, List.not_mem_nil, or_false] at member
    obtain rfl | rfl | rfl | rfl | rfl | rfl := member
    · exact iff_of_true (pingAccesses_inside captured) trivial
    · exact iff_of_true (setUsernameAccesses_inside captured) trivial
    · obtain ⟨ts, opened⟩ := inv.ready.context (by rw [state le_rfl])
      exact iff_of_true (getPrimeAccesses_inside captured fits opened) trivial
    · obtain ⟨ts, opened, made⟩ := inv.ready.number (by rw [state (by decide)])
      exact sendAAccesses_inside_iff captured fits opened made whole wide
    · obtain ⟨ts, opened⟩ := inv.ready.context (by rw [state (by decide)]; decide)
      exact iff_of_true (sendAuthAccesses_inside captured opened) trivial
    · exact sendCmdAccesses_inside_iff captured

end Inside

/-! ### Runs -/

section Runs

variable {p : Platform} {start s : Server}

theorem reached_inv (initial : Initial start) (usable : Usable start.preParam)
    (run : Reaches (receive p) (fun _ _ => True) start s) : Inv p s ∧ Fits s := by
  have idle : ∀ ts, start.ts = some ts → Sized ts := by
    rintro ts here
    rw [initial.2.2.1] at here
    cases here
  refine run.invariant (I := fun s => Inv p s ∧ Fits s) ⟨initial.inv, usable, idle⟩ ?_
  rintro x ⟨env, pkt⟩ y sent ⟨kept, fits⟩ - taken
  have safe := handlePacket_safe kept env pkt
  have done := receive_inv taken
  rw [done] at safe
  exact ⟨safe, fits.handlePacket done⟩

end Runs

/-! ### A number without its type -/

/-- A broadcast of a message for the first instance. -/
def broadcast (len type : Nat) (data : List UInt8) : List UInt8 :=
  List.replicate 6 0xff ++ List.replicate 6 0 ++ [8, 0] ++ List.replicate 9 0 ++ [17] ++ List.replicate 12 0 ++
    [0xda, 0xda] ++ List.replicate 4 0 ++ toBytes 4 3671771902 ++ toBytes 4 len ++ toBytes 4 type ++
    [0xff, 0xff, 0x10, 0] ++ List.replicate 4 0 ++ data

/-- A packet of the type `EAD_TYPE_SEND_A` whose message has the length 0. -/
def emptyNumber : Frame := ⟨broadcast 0 6 [0], by decide⟩

/-- The packets before it: the name `root` and the request for the prime. -/
def beforeNumber : List (Env × Packet) :=
  [({ passwd := some [root ++ [58, 36, 49, 36, 97, 36, 120, 58]] },
      (⟨broadcast 32 2 (field 32 root), by decide⟩ : Frame).packet),
    ({ random := [7] }, (⟨broadcast 0 4 [], by decide⟩ : Frame).packet)]

end FirewallCore.Ead
