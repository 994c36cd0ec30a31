import FirewallCore.Ead.Crypt

/-!
The emergency access daemon (`ead.c`): the globals of one instance, `set_state`, the
handlers and `parse_message`.

A step is the handling of one packet. What the system does meanwhile (the password file,
memory, random numbers, child processes) comes with the packet as an `Env`. A pointer
that is null or dangling when it is followed ends the process, and so does a copy over
the end of `abuf`. The log of events is not in the source: it records what the handlers
did, newest first.
-/

namespace FirewallCore.Ead

/-- `enum ead_type`. -/
inductive EadType where
  | ping | pong | setUsername | ackUsername | getPrime | prime | sendA | sendB
  | sendAuth | doneAuth | sendCmd | resultCmd
  deriving DecidableEq, Repr

/-- The number of a type. -/
def EadType.num : EadType → Nat
  | .ping => 0 | .pong => 1 | .setUsername => 2 | .ackUsername => 3 | .getPrime => 4
  | .prime => 5 | .sendA => 6 | .sendB => 7 | .sendAuth => 8 | .doneAuth => 9
  | .sendCmd => 10 | .resultCmd => 11

/-- The fields of `struct ead_msg` that are read, in host order, and the data behind them. -/
structure Msg where
  magic : BitVec 32 := 3671771902
  len : BitVec 32
  type : BitVec 32
  nid : BitVec 16 := 0xffff
  sid : BitVec 16 := 0
  data : List UInt8
  deriving DecidableEq

/-- The fields of `struct ead_packet` that are read, with the length of the packet. -/
structure Packet where
  hlen : Nat
  etherType : BitVec 16 := 0x0800
  etherDhost : List UInt8 := List.replicate 6 0xff
  proto : UInt8 := 17
  destport : BitVec 16 := 56026
  msg : Msg
  deriving DecidableEq

/-- What the system does while a packet is handled. -/
structure Env where
  /-- The lines of the password file, `none` where it cannot be opened. -/
  passwd : Option (List (List UInt8)) := none
  /-- `malloc` has memory for a context. -/
  memory : Bool := true
  random : List UInt8 := []
  pipe : Bool := true
  fork : Bool := true
  /-- What `read` returns in the rounds of the loop that send it, empty for a keepalive. -/
  chunks : List (List UInt8) := []
  /-- The child is still there when the time is up. -/
  pending : Bool := false
  /-- The rest of the message buffer. -/
  buffer : List UInt8 := []

/-- What the handlers have done. -/
inductive Event where
  | named (username : List UInt8)
  | opened
  | received (A : List UInt8)
  | verified
  | executed (command : List UInt8)
  deriving DecidableEq, Repr

/-- Why the process ends. -/
inductive Fault where
  | missing
  | overrun
  deriving DecidableEq, Repr

/-- The globals of an instance. `B` points into the context with the given `id`. -/
structure Server where
  nid : BitVec 16
  instanceId : Int
  devName : List UInt8
  /-- What `gettcid` returns for the index 1. -/
  preParam : TConfent
  username : List UInt8 := []
  state : EadType := .setUsername
  password : List UInt8 := []
  pwbuf : List UInt8 := []
  pwSaltbuf : List UInt8 := []
  tce : Option TConfent := none
  ts : Option TServer := none
  A : List UInt8 := []
  B : Option Nat := none
  skey : Option (List UInt8) := none
  crypt : Crypt := ⟨[], 0, 0, 0, 0⟩
  /-- The number of contexts so far. -/
  contexts : Nat := 0
  log : List Event := []
  deriving DecidableEq

namespace Server

/-- Records an event. -/
def record (s : Server) (e : Event) : Server := { s with log := e :: s.log }

/-- `prepare_password`. The loop around `t_random` is left at once: it compares the salt
with an uninitialised digest. -/
def preparePassword (p : Platform) (env : Env) (s : Server) : Server × Bool :=
  match env.passwd with
  | none => (s, false)
  | some lines =>
    match readLines s.username lines s.pwSaltbuf with
    | (salt, none) => ({ s with pwSaltbuf := salt }, false)
    | (salt, some password) =>
      ({ s with
          pwSaltbuf := salt, password := password, tce := some s.preParam
          pwbuf := verifierOf p s.preParam s.username password }, true)

/-- The branch of `set_state` that opens a context. -/
def openContext (p : Platform) (env : Env) (s : Server) (nstate : EadType) : Except Fault Server :=
  match s.preparePassword p env with
  | (s, false) => .ok s
  | (s, true) =>
    match s.tce with
    | none => .error .missing
    | some tce =>
      if env.memory then
        let ts := tServerOpenRaw p s.contexts ⟨s.username, s.pwbuf, []⟩ tce
        .ok { s.record .opened with
          ts := some ts, contexts := s.contexts + 1, state := nstate }
      else .ok { s with ts := none }

/-- `set_state`. -/
def setState (p : Platform) (env : Env) (s : Server) (nstate : EadType) : Except Fault Server :=
  if s.state = nstate then .ok s
  else if nstate.num < s.state.num then
    if nstate.num < EadType.getPrime.num ∧ EadType.getPrime.num ≤ s.state.num then
      match s.ts with
      | none => .error .missing
      | some _ => .ok { s with ts := none, state := nstate }
    else .ok { s with state := nstate }
  else
    match s.state with
    | .setUsername => s.openContext p env nstate
    | .getPrime =>
      match s.ts with
      | none => .error .missing
      | some ts =>
        .ok { s with ts := some (ts.genExp env.random), B := some ts.id, state := nstate }
    | .sendA =>
      match s.ts with
      | none => .error .missing
      | some ts =>
        match ts.getKey p s.A with
        | (ts, none) => .ok { s with ts := some ts, skey := none }
        | (ts, some key) =>
          .ok { s with
            ts := some ts, skey := some key, crypt := s.crypt.setKey p key
            state := nstate }
    | _ => .ok { s with state := nstate }

/-- What a handler leaves: the globals, the next state, the data of the response if it
returns true, and the encrypted bodies that it has sent before. -/
structure Handled where
  server : Server
  nstate : EadType
  reply : Option (List UInt8)
  sent : List (List UInt8) := []

/-- `handle_ping`. -/
def handlePing (s : Server) : Handled :=
  ⟨s, s.state, some (toBytes 2 1 ++ s.devName.take 1024), []⟩

/-- `handle_set_username`. -/
def handleSetUsername (p : Platform) (env : Env) (s : Server) (msg : Msg) : Except Fault Handled :=
  match s.setState p env .setUsername with
  | .error fault => .error fault
  | .ok s =>
    let username := ((msg.data.take 32).takeWhile (· != 0)).take 31
    .ok ⟨{ s.record (.named username) with username := username }, .getPrime, some [], []⟩

/-- A field of `w` bytes. -/
def field (w : Nat) (bytes : List UInt8) : List UInt8 := (bytes ++ List.replicate w 0).take w

/-- `handle_get_prime`. -/
def handleGetPrime (s : Server) : Except Fault Handled :=
  match s.tce, s.ts with
  | some tce, some ts =>
    let salt := [(tce.index - 1).toUInt8, ts.s.length.toUInt8] ++
      field maxSaltLen ts.s ++ field maxSaltLen s.pwSaltbuf
    .ok ⟨s, .sendA, some salt, []⟩
  | _, _ => .error .missing

/-- The number that `B` points to, where the context it belongs to is open. -/
def derefB (s : Server) : Option (List UInt8) :=
  match s.ts with
  | none => none
  | some ts => if s.B = some ts.id then ts.B else none

/-- `handle_send_a`. The length may be negative, and is given to `memcpy` then. -/
def handleSendA (s : Server) (msg : Msg) : Except Fault Handled :=
  let len := (msg.len - 1).toInt
  if (maxParamLen + 1 : Nat) < len then .ok ⟨s, s.state, none, []⟩
  else if len < 0 then .error .overrun
  else
    let A := (msg.data.drop 1).take len.toNat
    match s.derefB with
    | none => .error .missing
    | some B => .ok ⟨{ s.record (.received A) with A := A }, .sendAuth, some (0 :: B), []⟩

/-- `handle_send_auth`. -/
def handleSendAuth (p : Platform) (s : Server) (msg : Msg) : Except Fault Handled :=
  match s.ts with
  | none => .error .missing
  | some ts =>
    match ts.verify p (msg.data.take 20) with
    | (ts, false) => .ok ⟨{ s with ts := some ts }, .setUsername, none, []⟩
    | (ts, true) =>
      .ok ⟨{ s.record .verified with ts := some ts }, .sendCmd,
        some (ts.sessionResponse.getD []), []⟩

/-- `ntohs` of a single byte. -/
def ntohs (p : Platform) (b : UInt8) : Nat := if p.bigEndian then b.toNat else 256 * b.toNat

/-- The rounds of the loop in `handle_send_cmd` that send console data. -/
def stream (p : Platform) (buffer : List UInt8) : Crypt → List (List UInt8) →
    Crypt × List (List UInt8)
  | c, [] => (c, [])
  | c, chunk :: rest =>
    let out := c.encryptMessage p (0 :: chunk.take 1024) buffer
    let later := stream p buffer out.1 rest
    (later.1, out.2 :: later.2)

/-- The end of `handle_send_cmd`, once the command is running: console data for a command
of the type `EAD_CMD_NORMAL`, and the last message. -/
def sendResult (p : Platform) (env : Env) (s : Server) (normal : Bool) : Handled :=
  let out := stream p env.buffer s.crypt (if normal then env.chunks else [])
  if normal ∧ env.pending then ⟨{ s with crypt := out.1 }, s.state, none, out.2⟩
  else
    let last := out.1.encryptMessage p [1] env.buffer
    ⟨{ s with crypt := last.1 }, s.state, some last.2, out.2⟩

/-- `handle_send_cmd`. -/
def handleSendCmd (p : Platform) (env : Env) (s : Server) (msg : Msg) : Handled :=
  let out := s.crypt.decryptMessage p msg.len.toInt msg.data
  let s := { s with crypt := out.1 }
  let datalen := out.2.1 - 3
  if datalen ≤ 0 then ⟨s, s.state, none, []⟩
  else
    let cmd := out.2.2.drop encSize
    let command := ((cmd.drop 3).take datalen.toNat).takeWhile (· != 0)
    let type := ntohs p (cmd.getD 0 0)
    if type = 0 then
      if env.pipe ∧ env.fork then (s.record (.executed command)).sendResult p env true
      else ⟨s, s.state, none, []⟩
    else if type = 1 then
      if env.fork then (s.record (.executed command)).sendResult p env false
      else ⟨s, s.state, none, []⟩
    else ⟨s, s.state, none, []⟩

/-- The `switch` of `parse_message`: the type and by how much a packet has to be longer
than `struct ead_packet`. -/
def handlerOf (type : Int) : Option (EadType × Nat) :=
  if type = 0 then some (.ping, 0)
  else if type = 2 then some (.setUsername, 32)
  else if type = 4 then some (.getPrime, 0)
  else if type = 6 then some (.sendA, 1)
  else if type = 8 then some (.sendAuth, 20)
  else if type = 10 then some (.sendCmd, 3 + encSize)
  else none

/-- The call of the handler. -/
def handle (p : Platform) (env : Env) (s : Server) (msg : Msg) : EadType → Except Fault Handled
  | .setUsername => s.handleSetUsername p env msg
  | .getPrime => s.handleGetPrime
  | .sendA => s.handleSendA msg
  | .sendAuth => s.handleSendAuth p msg
  | .sendCmd => .ok (s.handleSendCmd p env msg)
  | _ => .ok s.handlePing

/-- The end of `parse_message`: the handler, its response and the change of the state. -/
def dispatch (p : Platform) (env : Env) (s : Server) (msg : Msg) (kind : EadType) :
    Except Fault (Server × List (List UInt8)) :=
  match s.handle p env msg kind with
  | .error fault => .error fault
  | .ok h =>
    match h.server.setState p env h.nstate with
    | .error fault => .error fault
    | .ok s => .ok (s, h.sent ++ h.reply.toList)

/-- `sizeof(struct ead_packet)`. -/
def packetSize : Nat := 62

/-- `parse_message`: the globals after it and the data of the packets it sends. -/
def parseMessage (p : Platform) (env : Env) (s : Server) (pkt : Packet) :
    Except Fault (Server × List (List UInt8)) :=
  let type := pkt.msg.type.toInt
  if EadType.getPrime.num ≤ type ∧ (s.state.num : Int) ≠ type then .ok (s, [])
  else if type ≠ EadType.ping.num ∧
      (((pkt.msg.sid &&& 0xf000) >>> 12).toNat : Int) ≠ s.instanceId then .ok (s, [])
  else
    match handlerOf type with
    | none => .ok (s, [])
    | some (kind, extra) =>
      if pkt.hlen < packetSize + extra then .ok (s, [])
      else s.dispatch p env pkt.msg kind

/-- `handle_packet`. -/
def handlePacket (p : Platform) (env : Env) (s : Server) (pkt : Packet) :
    Except Fault (Server × List (List UInt8)) :=
  if pkt.hlen < packetSize then .ok (s, [])
  else if pkt.etherType ≠ 0x0800 then .ok (s, [])
  else if pkt.etherDhost ≠ List.replicate 6 0xff then .ok (s, [])
  else if pkt.proto ≠ 17 then .ok (s, [])
  else if pkt.destport ≠ 56026 then .ok (s, [])
  else if pkt.msg.magic ≠ 3671771902 then .ok (s, [])
  else if pkt.hlen < (packetSize + pkt.msg.len.toNat) % 2 ^ p.sizeBits then .ok (s, [])
  else if pkt.msg.nid ≠ 0xffff ∧ pkt.msg.nid ≠ s.nid then .ok (s, [])
  else s.parseMessage p env pkt

end Server

end FirewallCore.Ead
