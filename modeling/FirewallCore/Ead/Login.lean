import Mathlib.Data.UInt
import FirewallCore.Ead.Server
import FirewallCore.Lib.Run

/-!
The login of the emergency access daemon over whole runs: what the state of an instance
says about its globals, whatever packets come in and however the password lookup, the
key derivation and the verification go.

The invariant is read off the state: every state asks for what the ones before it asked
for and one thing more. A handler above `EAD_TYPE_SET_USERNAME` is called only in its
own state, so each is a step from one state to the next, or back to the start.
-/

namespace FirewallCore.Ead

namespace Server

/-- What happened since the context was opened. -/
def inContext (log : List Event) : List Event := log.takeWhile (· ≠ .opened)

/-- Whether an event is the setting of a username. -/
def Event.isNamed : Event → Bool
  | .named _ => true
  | _ => false

/-- What happened since a username was set. -/
def sinceNamed (log : List Event) : List Event := log.takeWhile (! Event.isNamed ·)

/-- No command was executed after a username was set without a verification in between. -/
def Authenticated : List Event → Prop
  | [] => True
  | e :: earlier =>
    Authenticated earlier ∧ ((∃ command, e = .executed command) → .verified ∈ sinceNamed earlier)

/-- What the state of an instance promises. -/
structure LoginOrder (p : Platform) (s : Server) : Prop where
  context : EadType.getPrime.num ≤ s.state.num → ∃ ts, s.ts = some ts ∧ ts.name = s.username
  number : EadType.sendA.num ≤ s.state.num → ∃ B, s.derefB = some B
  key : EadType.sendAuth.num ≤ s.state.num → ∃ ts A key, s.ts = some ts ∧
    .received A ∈ inContext s.log ∧ ts.keyFrom p A = some key ∧ s.skey = some key
  verified : s.state = .sendCmd → .verified ∈ inContext s.log
  commands : Authenticated s.log

/-! ### The invariant -/

/-- A context is open for the current username. -/
def HasContext (s : Server) (ts : TServer) : Prop :=
  s.ts = some ts ∧ ts.name = s.username ∧ s.tce.isSome ∧
    ∀ e ∈ inContext s.log, Event.isNamed e = false

/-- The number `B` of the context exists. -/
def HasNumber (s : Server) (ts : TServer) : Prop := s.B = some ts.id ∧ ts.B.isSome

/-- The session key comes from a number that was received in the context. -/
def HasKey (p : Platform) (s : Server) (ts : TServer) : Prop :=
  ∃ A key, .received A ∈ inContext s.log ∧ ts.keyFrom p A = some key ∧ s.skey = some key

/-- What holds in each state. -/
def Ready (p : Platform) (s : Server) : Prop :=
  match s.state with
  | .setUsername => s.ts = none
  | .getPrime => ∃ ts, HasContext s ts
  | .sendA => ∃ ts, HasContext s ts ∧ HasNumber s ts
  | .sendAuth => ∃ ts, HasContext s ts ∧ HasNumber s ts ∧ HasKey p s ts
  | .sendCmd => ∃ ts, HasContext s ts ∧ HasNumber s ts ∧ HasKey p s ts ∧
      .verified ∈ inContext s.log
  | _ => False

/-- The invariant. -/
structure Inv (p : Platform) (s : Server) : Prop where
  ready : Ready p s
  commands : Authenticated s.log

/-- A step that keeps the invariant, or ends in a copy of a bad length. -/
def Safe (p : Platform) (r : Except Fault (Server × List (List UInt8))) : Prop :=
  match r with
  | .ok (s, _) => Inv p s
  | .error fault => fault = .overrun

section Reading

variable {p : Platform} {s : Server}

/-- From `EAD_TYPE_GET_PRIME` on there is a context. -/
theorem Ready.context (ready : Ready p s) (far : EadType.getPrime.num ≤ s.state.num) :
    ∃ ts, HasContext s ts := by
  unfold Ready at ready
  split at ready
  case h_1 state => simp [state, EadType.num] at far
  case h_2 => exact ready
  case h_6 => exact ready.elim
  all_goals
    obtain ⟨ts, opened, -⟩ := ready
    exact ⟨ts, opened⟩

/-- From `EAD_TYPE_SEND_A` on it has its number. -/
theorem Ready.number (ready : Ready p s) (far : EadType.sendA.num ≤ s.state.num) :
    ∃ ts, HasContext s ts ∧ HasNumber s ts := by
  unfold Ready at ready
  split at ready
  case h_1 state => simp [state, EadType.num] at far
  case h_2 state => simp [state, EadType.num] at far
  case h_3 => exact ready
  case h_6 => exact ready.elim
  all_goals
    obtain ⟨ts, opened, made, -⟩ := ready
    exact ⟨ts, opened, made⟩

/-- From `EAD_TYPE_SEND_AUTH` on it has a key. -/
theorem Ready.key (ready : Ready p s) (far : EadType.sendAuth.num ≤ s.state.num) :
    ∃ ts, HasContext s ts ∧ HasNumber s ts ∧ HasKey p s ts := by
  unfold Ready at ready
  split at ready
  case h_1 state => simp [state, EadType.num] at far
  case h_2 state => simp [state, EadType.num] at far
  case h_3 state => simp [state, EadType.num] at far
  case h_4 => exact ready
  case h_5 =>
    obtain ⟨ts, opened, made, derived, -⟩ := ready
    exact ⟨ts, opened, made, derived⟩
  case h_6 => exact ready.elim

theorem HasNumber.derefB {ts : TServer} (made : HasNumber s ts) (opened : HasContext s ts) :
    ∃ B, s.derefB = some B := by
  obtain ⟨points, made⟩ := made
  obtain ⟨B, made⟩ := Option.isSome_iff_exists.mp made
  exact ⟨B, by simp [Server.derefB, opened.1, points, made]⟩

theorem Inv.loginOrder (inv : Inv p s) : LoginOrder p s where
  context far := by
    obtain ⟨ts, opened, name, -⟩ := inv.ready.context far
    exact ⟨ts, opened, name⟩
  number far := by
    obtain ⟨ts, opened, made⟩ := inv.ready.number far
    exact made.derefB opened
  key far := by
    obtain ⟨ts, opened, -, A, key, received, derived, kept⟩ := inv.ready.key far
    exact ⟨ts, A, key, opened.1, received, derived, kept⟩
  verified last := by
    have ready := inv.ready
    simp only [Ready, last] at ready
    obtain ⟨ts, -, -, -, verified⟩ := ready
    exact verified
  commands := inv.commands

end Reading

/-! ### The log -/

/-- What happened in a context in which no username was set happened since the last one
was. -/
theorem mem_sinceNamed {log : List Event} {e : Event}
    (quiet : ∀ e ∈ inContext log, Event.isNamed e = false) (member : e ∈ inContext log) :
    e ∈ sinceNamed log := by
  induction log with
  | nil => exact member
  | cons first rest ih =>
    simp only [inContext, List.takeWhile_cons] at quiet member
    split at member
    case isFalse => simp at member
    case isTrue open' =>
      rw [if_pos open'] at quiet
      have here := quiet first List.mem_cons_self
      simp only [sinceNamed, List.takeWhile_cons, here, Bool.not_false, if_true]
      obtain rfl | later := List.mem_cons.mp member
      · exact List.mem_cons_self
      · exact List.mem_cons_of_mem _ (ih (fun e known => quiet e (List.mem_cons_of_mem _ known)) later)

theorem inContext_cons {e : Event} {log : List Event} (other : e ≠ .opened) :
    inContext (e :: log) = e :: inContext log := by
  simp [inContext, other]

@[simp] theorem inContext_opened {log : List Event} : inContext (.opened :: log) = [] := by
  simp [inContext]

/-- An event that is no execution keeps the log in order. -/
theorem Authenticated.cons {e : Event} {log : List Event} (ok : Authenticated log)
    (other : ∀ command, e ≠ .executed command) : Authenticated (e :: log) := by
  refine ⟨ok, ?_⟩
  rintro ⟨command, rfl⟩
  exact absurd rfl (other command)

/-- An event of a context keeps it open. -/
theorem HasContext.record {s : Server} {ts : TServer} {e : Event} (opened : HasContext s ts)
    (other : e ≠ .opened) (quiet : Event.isNamed e = false) : HasContext (s.record e) ts := by
  obtain ⟨open', name, conf, silent⟩ := opened
  refine ⟨open', name, conf, ?_⟩
  show ∀ x ∈ inContext (e :: s.log), Event.isNamed x = false
  rw [inContext_cons other, List.forall_mem_cons]
  exact ⟨quiet, silent⟩

/-! ### The handlers -/

section Handlers

variable {p : Platform} {env : Env} {s : Server} {msg : Msg}

theorem setState_same : s.setState p env s.state = .ok s := by
  simp [setState]

/-- A failed lookup leaves the salt, a successful one the password and the parameters. -/
theorem preparePassword_cases {s' : Server} {found : Bool}
    (done : s.preparePassword p env = (s', found)) :
    ∃ salt password pwbuf tce, s' = { s with
        pwSaltbuf := salt, password := password, pwbuf := pwbuf, tce := tce } ∧
      (found = true → tce.isSome) := by
  unfold preparePassword at done
  split at done
  · cases done
    exact ⟨s.pwSaltbuf, s.password, s.pwbuf, s.tce, rfl, by simp⟩
  · split at done
    · cases done
      exact ⟨_, s.password, s.pwbuf, s.tce, rfl, by simp⟩
    · cases done
      exact ⟨_, _, _, _, rfl, by simp⟩

/-- The way back to the start closes what there is. -/
theorem setState_setUsername (inv : Inv p s) :
    s.setState p env .setUsername = .ok { s with ts := none, state := .setUsername } := by
  by_cases start : s.state = .setUsername
  · have idle := inv.ready
    simp only [Ready, start] at idle
    rw [setState, if_pos start]
    congr
    cases s
    simp_all
  · have far : EadType.getPrime.num ≤ s.state.num := by
      have ready := inv.ready
      unfold Ready at ready
      split at ready <;> simp_all [EadType.num]
    obtain ⟨ts, opened, -⟩ := inv.ready.context far
    simp only [EadType.num] at far
    have back : EadType.setUsername.num < s.state.num := by
      simp only [EadType.num]
      omega
    rw [setState, if_neg start, if_pos back, if_pos ⟨by decide, far⟩, opened]

theorem setState_getPrime (start : s.state = .setUsername) :
    s.setState p env .getPrime = s.openContext p env .getPrime := by
  simp [setState, start, EadType.num]

/-- From the start, either a context is opened for the username or nothing is. -/
theorem setState_open (p : Platform) (env : Env) (start : s.state = .setUsername)
    (idle : s.ts = none) (ordered : Authenticated s.log) :
    ∃ s', s.setState p env .getPrime = .ok s' ∧ Inv p s' := by
  rw [setState_getPrime start, openContext]
  split
  case h_1 s' failed =>
    obtain ⟨salt, password, pwbuf, tce, rfl, -⟩ := preparePassword_cases failed
    exact ⟨_, rfl, by simpa [Ready, start] using idle, ordered⟩
  case h_2 s' found =>
    obtain ⟨salt, password, pwbuf, tce, rfl, conf⟩ := preparePassword_cases found
    obtain ⟨tce, rfl⟩ := Option.isSome_iff_exists.mp (conf rfl)
    dsimp only
    split
    · refine ⟨_, rfl, ?_, ordered.cons (by simp)⟩
      exact ⟨_, rfl, rfl, rfl, by simp [record]⟩
    · exact ⟨_, rfl, by simp [Ready, start], ordered⟩

theorem safe_setUsername (inv : Inv p s) : Safe p (s.dispatch p env msg .setUsername) := by
  simp only [dispatch, handle, handleSetUsername, setState_setUsername inv]
  obtain ⟨s', done, kept⟩ := setState_open p env
    (s := { ({ s with ts := none, state := .setUsername } : Server).record
        (.named (((msg.data.take 32).takeWhile (· != 0)).take 31)) with
      username := ((msg.data.take 32).takeWhile (· != 0)).take 31 })
    rfl rfl (inv.commands.cons (by simp))
  rw [done]
  exact kept

theorem safe_ping (inv : Inv p s) : Safe p (s.dispatch p env msg .ping) := by
  simp only [dispatch, handle, handlePing, setState_same]
  exact inv

theorem safe_getPrime (inv : Inv p s) (state : s.state = .getPrime) :
    Safe p (s.dispatch p env msg .getPrime) := by
  obtain ⟨ts, opened, name, conf, quiet⟩ := inv.ready.context (by simp [state])
  obtain ⟨tce, conf⟩ := Option.isSome_iff_exists.mp conf
  simp only [dispatch, handle, handleGetPrime, conf, opened, setState, state, EadType.num]
  refine ⟨⟨ts.genExp env.random, ⟨rfl, name, ?_, quiet⟩, rfl, rfl⟩, inv.commands⟩
  simp

/-- `t_servergetkey` returns the key for the number, or nothing, and keeps the rest that
the invariant speaks of. -/
theorem getKey_cases (p : Platform) (ts : TServer) (A : List UInt8) :
    ∃ ts', ts.getKey p A = (ts', ts.keyFrom p A) ∧ ts'.id = ts.id ∧ ts'.name = ts.name ∧
      ts'.B = ts.B ∧ ts'.keyFrom p = ts.keyFrom p := by
  cases derived : ts.keyFrom p A with
  | none =>
    simp only [TServer.getKey, derived]
    exact ⟨_, rfl, rfl, rfl, rfl, rfl⟩
  | some key =>
    simp only [TServer.getKey, derived]
    exact ⟨_, rfl, rfl, rfl, rfl, rfl⟩

/-- With a number from the client, either the key is derived or the state stays. -/
theorem setState_key (p : Platform) (env : Env) {ts : TServer} (state : s.state = .sendA)
    (opened : HasContext s ts) (made : HasNumber s ts) (received : .received s.A ∈ inContext s.log)
    (ordered : Authenticated s.log) :
    ∃ s', s.setState p env .sendAuth = .ok s' ∧ Inv p s' := by
  obtain ⟨open', name, conf, quiet⟩ := opened
  obtain ⟨points, made⟩ := made
  obtain ⟨ts', done, sameId, sameName, sameB, sameKey⟩ := getKey_cases p ts s.A
  rw [← sameId] at points
  rw [← sameB] at made
  rw [← sameName] at name
  cases derived : ts.keyFrom p s.A with
  | none =>
    simp only [setState, state, EadType.num, open', done, derived]
    refine ⟨_, rfl, ?_, ordered⟩
    exact ⟨ts', ⟨rfl, name, conf, quiet⟩, points, made⟩
  | some key =>
    simp only [setState, state, EadType.num, open', done, derived]
    refine ⟨_, rfl, ⟨ts', ⟨rfl, name, conf, quiet⟩, ⟨points, made⟩, s.A, key, received, ?_, rfl⟩,
      ordered⟩
    rw [sameKey, derived]

theorem safe_sendA (inv : Inv p s) (state : s.state = .sendA) :
    Safe p (s.dispatch p env msg .sendA) := by
  obtain ⟨ts, opened, made⟩ := inv.ready.number (by simp [state])
  obtain ⟨B, points⟩ := made.derefB opened
  simp only [dispatch, handle, handleSendA, points]
  by_cases long : (maxParamLen + 1 : Nat) < (msg.len - 1).toInt
  · simp only [long, if_true, setState_same]
    exact inv
  by_cases negative : (msg.len - 1).toInt < 0
  · simp only [long, negative, if_false, if_true]
    rfl
  simp only [long, negative, if_false]
  let A := (msg.data.drop 1).take (msg.len - 1).toInt.toNat
  obtain ⟨s', done, kept⟩ := setState_key p env
    (s := { s.record (.received A) with A := A }) state (opened.record (by simp) rfl) made
    (by simp [record, inContext_cons]) (inv.commands.cons (by simp))
  rw [done]
  exact kept

/-- `t_serververify` keeps what the invariant speaks of. -/
theorem verify_cases (p : Platform) (ts : TServer) (resp : List UInt8) :
    ∃ ts' ok, ts.verify p resp = (ts', ok) ∧ ts'.id = ts.id ∧ ts'.name = ts.name ∧
      ts'.B = ts.B ∧ ts'.keyFrom p = ts.keyFrom p := by
  unfold TServer.verify
  dsimp only
  split
  · exact ⟨_, _, rfl, rfl, rfl, rfl, rfl⟩
  · split
    · exact ⟨_, _, rfl, rfl, rfl, rfl, rfl⟩
    · exact ⟨_, _, rfl, rfl, rfl, rfl, rfl⟩

theorem safe_sendAuth (inv : Inv p s) (state : s.state = .sendAuth) :
    Safe p (s.dispatch p env msg .sendAuth) := by
  obtain ⟨ts, ⟨opened, name, conf, quiet⟩, ⟨points, made⟩, A, key, received, derived, kept⟩ :=
    inv.ready.key (by simp [state])
  obtain ⟨ts', ok, done, sameId, sameName, sameB, sameKey⟩ := verify_cases p ts (msg.data.take 20)
  rw [← sameId] at points
  rw [← sameB] at made
  rw [← sameName] at name
  rw [← sameKey] at derived
  simp only [dispatch, handle, handleSendAuth, opened, done]
  cases ok with
  | false =>
    -- The context is closed, and the login starts again.
    simp only [setState, state, EadType.num]
    exact ⟨rfl, inv.commands⟩
  | true =>
    simp only [setState, record, state, EadType.num]
    have quiet' : ∀ e ∈ inContext (.verified :: s.log), Event.isNamed e = false := by
      rw [inContext_cons (by simp), List.forall_mem_cons]
      exact ⟨rfl, quiet⟩
    refine ⟨⟨ts', ⟨rfl, name, conf, quiet'⟩, ⟨points, made⟩, ⟨A, key, ?_, derived, kept⟩, ?_⟩,
      inv.commands.cons (by simp)⟩
    · rw [inContext_cons (by simp)]
      exact List.mem_cons_of_mem _ received
    · rw [inContext_cons (by simp)]
      exact List.mem_cons_self

theorem sendResult_cases (p : Platform) (env : Env) (s : Server) (normal : Bool) :
    ∃ c, (s.sendResult p env normal).server = { s with crypt := c } ∧
      (s.sendResult p env normal).nstate = s.state := by
  unfold sendResult
  dsimp only
  split
  · exact ⟨_, rfl, rfl⟩
  · exact ⟨_, rfl, rfl⟩

/-- A command message executes a command or does not, and changes nothing but the
counters besides. -/
theorem handleSendCmd_cases (p : Platform) (env : Env) (s : Server) (msg : Msg) :
    ∃ c, ((s.handleSendCmd p env msg).server = { s with crypt := c } ∨
        ∃ command, (s.handleSendCmd p env msg).server =
          { s.record (.executed command) with crypt := c }) ∧
      (s.handleSendCmd p env msg).nstate = s.state := by
  unfold handleSendCmd
  dsimp only
  split
  · exact ⟨_, .inl rfl, rfl⟩
  split
  · split
    · obtain ⟨c, server, nstate⟩ := sendResult_cases p env (record _ _) true
      exact ⟨c, .inr ⟨_, server⟩, nstate⟩
    · exact ⟨_, .inl rfl, rfl⟩
  split
  · split
    · obtain ⟨c, server, nstate⟩ := sendResult_cases p env (record _ _) false
      exact ⟨c, .inr ⟨_, server⟩, nstate⟩
    · exact ⟨_, .inl rfl, rfl⟩
  · exact ⟨_, .inl rfl, rfl⟩

theorem safe_sendCmd (inv : Inv p s) (state : s.state = .sendCmd) :
    Safe p (s.dispatch p env msg .sendCmd) := by
  obtain ⟨c, server, nstate⟩ := handleSendCmd_cases p env s msg
  have ready := inv.ready
  simp only [Ready, state] at ready
  obtain ⟨ts, opened, made, ⟨A, key, received, derived, kept⟩, verified⟩ := ready
  simp only [dispatch, handle]
  rw [nstate]
  obtain server | ⟨command, server⟩ := server
  · rw [server]
    have stays : ({ s with crypt := c } : Server).setState p env s.state
        = .ok { s with crypt := c } := setState_same
    rw [stays]
    refine ⟨?_, inv.commands⟩
    simp only [Ready, state]
    exact ⟨ts, opened, made, ⟨A, key, received, derived, kept⟩, verified⟩
  · rw [server]
    have stays : ({ s.record (.executed command) with crypt := c } : Server).setState p env s.state
        = .ok { s.record (.executed command) with crypt := c } := setState_same
    rw [stays]
    -- The verification is behind the last username, for the context was opened after it.
    have authenticated := mem_sinceNamed opened.2.2.2 verified
    refine ⟨?_, inv.commands, fun _ => authenticated⟩
    have grown : ∀ e ∈ inContext s.log, e ∈ inContext (.executed command :: s.log) := by
      intro e member
      rw [inContext_cons (by simp)]
      exact List.mem_cons_of_mem _ member
    simp only [Ready, state, record]
    exact ⟨ts, opened.record (by simp) rfl, made,
      ⟨A, key, grown _ received, derived, kept⟩, grown _ verified⟩

theorem EadType.num_injective {a b : EadType} (same : a.num = b.num) : a = b := by
  cases a <;> cases b <;> first | rfl | cases same

theorem handlerOf_some {type : Int} {kind : EadType} {extra : Nat}
    (found : handlerOf type = some (kind, extra)) :
    type = kind.num ∧ kind ∈ [.ping, .setUsername, .getPrime, .sendA, .sendAuth, .sendCmd] := by
  unfold handlerOf at found
  split_ifs at found
  all_goals
    cases found
    exact ⟨‹_›, by simp⟩

/-- A message is ignored, or given to the handler of its type in the state that the
handler is for. -/
theorem parseMessage_cases (p : Platform) (env : Env) (s : Server) (pkt : Packet) :
    s.parseMessage p env pkt = .ok (s, []) ∨
      ∃ kind, s.parseMessage p env pkt = s.dispatch p env pkt.msg kind ∧
        pkt.msg.type.toInt = kind.num ∧
        (kind = .ping ∨ kind = .setUsername ∨
          s.state = kind ∧ kind ∈ [.getPrime, .sendA, .sendAuth, .sendCmd]) := by
  unfold parseMessage
  dsimp only
  split
  · exact .inl rfl
  rename_i gate
  split
  · exact .inl rfl
  split
  · exact .inl rfl
  · rename_i kind extra found
    split
    · exact .inl rfl
    obtain ⟨type, known⟩ := handlerOf_some found
    refine .inr ⟨kind, rfl, type, ?_⟩
    have inState (far : EadType.getPrime.num ≤ kind.num) : s.state = kind := by
      rw [type] at gate
      by_contra other
      refine gate ⟨by exact_mod_cast far, ?_⟩
      intro same
      exact other (EadType.num_injective (by exact_mod_cast same))
    simp only [List.mem_cons, List.not_mem_nil, or_false] at known
    obtain rfl | rfl | rfl | rfl | rfl | rfl := known
    · exact .inl rfl
    · exact .inr (.inl rfl)
    all_goals exact .inr (.inr ⟨inState (by decide), by simp⟩)

theorem handlePacket_cases (p : Platform) (env : Env) (s : Server) (pkt : Packet) :
    s.handlePacket p env pkt = .ok (s, []) ∨
      s.handlePacket p env pkt = s.parseMessage p env pkt := by
  unfold handlePacket
  split_ifs
  all_goals first | exact .inl rfl | exact .inr rfl

theorem parseMessage_safe (inv : Inv p s) (env : Env) (pkt : Packet) :
    Safe p (s.parseMessage p env pkt) := by
  obtain ignored | ⟨kind, called, -, rfl | rfl | ⟨state, known⟩⟩ := parseMessage_cases p env s pkt
  · rw [ignored]
    exact inv
  · rw [called]
    exact safe_ping inv
  · rw [called]
    exact safe_setUsername inv
  · rw [called]
    simp only [List.mem_cons, List.not_mem_nil, or_false] at known
    obtain rfl | rfl | rfl | rfl := known
    · exact safe_getPrime inv state
    · exact safe_sendA inv state
    · exact safe_sendAuth inv state
    · exact safe_sendCmd inv state

theorem handlePacket_safe (inv : Inv p s) (env : Env) (pkt : Packet) :
    Safe p (s.handlePacket p env pkt) := by
  obtain ignored | parsed := handlePacket_cases p env s pkt
  · rw [ignored]
    exact inv
  · rw [parsed]
    exact parseMessage_safe inv env pkt

end Handlers

/-! ### Runs -/

/-- One step: the next packet, with what the system does meanwhile. `none` is the end of
the process. -/
def receive (p : Platform) (s : Server) (input : Env × Packet) :
    Option (Server × List (List UInt8)) :=
  (s.handlePacket p input.1 input.2).toOption

theorem receive_inv {p : Platform} {s s' : Server} {input : Env × Packet} {sent : List (List UInt8)}
    (taken : receive p s input = some (s', sent)) : s.handlePacket p input.1 input.2 = .ok (s', sent) := by
  unfold receive at taken
  cases done : s.handlePacket p input.1 input.2 with
  | error fault => simp [done, Except.toOption] at taken
  | ok out =>
    simp only [done, Except.toOption, Option.some.injEq] at taken
    rw [taken]

/-- The globals as the program starts with them. -/
def Initial (s : Server) : Prop :=
  s.username = [] ∧ s.state = .setUsername ∧ s.ts = none ∧ s.B = none ∧ s.log = []

theorem Initial.inv {p : Platform} {s : Server} (start : Initial s) : Inv p s := by
  obtain ⟨-, state, idle, -, log⟩ := start
  constructor
  · simp [Ready, state, idle]
  · simp [log, Authenticated]

/-- In every state that an instance reaches, its state has what it promises, and the next
packet makes no handler follow a pointer that is missing. -/
theorem login_ordered (p : Platform) {start s : Server} (initial : Initial start)
    (run : Lib.Reaches (receive p) (fun _ _ => True) start s) :
    LoginOrder p s ∧ ∀ env pkt, s.handlePacket p env pkt ≠ .error .missing := by
  have inv : Inv p s := by
    refine run.invariant (I := Inv p) initial.inv ?_
    rintro x ⟨env, pkt⟩ y sent kept - taken
    have safe := handlePacket_safe kept env pkt
    rw [receive_inv taken] at safe
    exact safe
  refine ⟨inv.loginOrder, ?_⟩
  intro env pkt missing
  have safe := handlePacket_safe inv env pkt
  rw [missing] at safe
  cases safe

/-- A platform with a checksum for a hash and without encryption, to run the daemon on. -/
def checksumPlatform : Platform where
  bigEndian := false
  sizeBits := 64
  rijndaelEncrypt _ block := block
  rijndaelDecrypt _ block := block
  shaInit := List.replicate 20 0
  shaTransform hash block := List.replicate 19 0 ++ [(hash ++ block).sum]
  sha1 bytes := List.replicate 19 0 ++ [bytes.sum]

/-- An instance before its first packet. -/
def sampleServer : Server where
  nid := 0x1234
  instanceId := 1
  devName := [114, 111, 117, 116, 101, 114]
  preParam := ⟨1, [23], [5]⟩

/-- A packet with the given type and data, for the first instance. -/
def packetOf (type : BitVec 32) (data : List UInt8) : Packet where
  hlen := packetSize + data.length
  msg := { len := BitVec.ofNat 32 data.length, type := type, sid := 0x1000, data := data }

/-- The bytes of `root`. -/
def root : List UInt8 := [114, 111, 111, 116]

/-- A login of `root`, whose password is `$1$a$x`, with the right response. -/
def sampleLogin : List (Env × Packet) :=
  [({ passwd := some [root ++ [58, 36, 49, 36, 97, 36, 120, 58]] },
      packetOf 2 (field 32 root)),
    ({ random := [7] }, packetOf 4 []),
    ({}, packetOf 6 [0, 2]),
    ({}, packetOf 8 (field 19 [] ++ [2]))]

/-- The instance after the login. -/
theorem sampleLogin_ordered :
    Initial sampleServer ∧
      ∃ s, Lib.Reaches (receive checksumPlatform) (fun _ _ => True) sampleServer s ∧
        s.state = .sendCmd ∧ LoginOrder checksumPlatform s ∧
        ∀ env pkt, s.handlePacket checksumPlatform env pkt ≠ .error .missing := by
  have initial : Initial sampleServer := ⟨rfl, rfl, rfl, rfl, rfl⟩
  obtain ⟨s, done, last⟩ := Lib.exec_refutes (receive checksumPlatform) sampleServer sampleLogin
    (fun s => s.state ≠ .sendCmd) (by decide +kernel)
  have run : Lib.Reaches (receive checksumPlatform) (fun _ _ => True) sampleServer s :=
    Lib.reaches_of_exec (fun _ _ _ => trivial) done
  exact ⟨initial, s, run, not_not.mp last, login_ordered checksumPlatform initial run⟩

end Server

end FirewallCore.Ead
