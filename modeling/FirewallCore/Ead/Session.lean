import FirewallCore.Ead.Login
import FirewallCore.Lib.Run

/-!
One session of the emergency access daemon: a client and a server that have set the same
key, and a network that delivers any packet to either side, in any order and as often as
it likes. A packet that the server takes for a command carries a body that one of the two
sides has encrypted in the session, for nobody else has the key.

The type of a message is not encrypted and both sides count from the same number, so the
server takes its own answers for commands where their counter is ahead.
-/

namespace FirewallCore.Ead

open Server

/-- A message of the client, with the counter and the data that went into it. -/
structure Sealed where
  iv : BitVec 32
  data : List UInt8
  body : List UInt8

/-- The two sides of a session, and what each has encrypted, newest first. -/
structure Session where
  client : Crypt
  server : Server
  encrypted : List Sealed := []
  answers : List (List UInt8) := []

/-- What happens in a session. -/
inductive Action where
  | send (command tail buffer : List UInt8)
  | toServer (env : Env) (pkt : Packet)
  | toClient (len : Int) (body : List UInt8)

/-- The data of `send_command` in `ead-client.c`; behind 1024 characters follows what lies
in the message buffer. -/
def cmdMessage (command tail : List UInt8) : List UInt8 :=
  [0, 0, 10] ++ field (command.length + 1)
    (command.take 1024 ++ if command.length < 1024 then [] else tail)

/-- The command in the data of a message. -/
def commandOf (data : List UInt8) : List UInt8 := (data.drop 3).takeWhile (· != 0)

/-- The message of a packet is the body. -/
def carries (pkt : Packet) (body : List UInt8) : Bool :=
  pkt.msg.len.toInt = body.length && body.isPrefixOf pkt.msg.data

/-- The packet is of the type `EAD_TYPE_SEND_CMD`. -/
def isCommand (pkt : Packet) : Bool := pkt.msg.type.toInt = EadType.sendCmd.num

/-- The network can make the packet: as a command it carries an encrypted body. -/
def Session.canSend (w : Session) (pkt : Packet) : Bool :=
  !isCommand pkt || w.encrypted.any (carries pkt ·.body) || w.answers.any (carries pkt)

/-- One step of a session. It is over when the server leaves `EAD_TYPE_SEND_CMD`. -/
def Session.step (p : Platform) (w : Session) : Action → Option (Session × Unit)
  | .send command tail buffer =>
    let data := cmdMessage command tail
    let out := w.client.encryptMessage p data buffer
    some ({ w with client := out.1, encrypted := ⟨out.1.txIv, data, out.2⟩ :: w.encrypted }, ())
  | .toServer env pkt =>
    if w.server.state ≠ .sendCmd ∨ !w.canSend pkt then none
    else
      match w.server.handlePacket p env pkt with
      | .error _ => none
      | .ok (server, sent) =>
        let answers := if isCommand pkt then sent else []
        some ({ w with server := server, answers := answers ++ w.answers }, ())
  | .toClient len body => some ({ w with client := (w.client.decryptMessage p len body).1 }, ())

/-- The start of a session: `ead_set_key` on both sides. The log is that of the session. -/
def Session.Start (p : Platform) (w : Session) : Prop :=
  ∃ client server skey, w.client = Crypt.setKey p client skey ∧
    w.server.crypt = Crypt.setKey p server skey ∧ w.server.state = .sendCmd ∧
    w.server.log = [] ∧ w.encrypted = [] ∧ w.answers = []

/-- The commands in a log. -/
def commandsOf (log : List Event) : List (List UInt8) :=
  log.filterMap fun
    | .executed command => some command
    | _ => none

/-- The commands that the server has executed and the client has encrypted, in order. -/
def Session.executed (w : Session) : List (List UInt8) := (commandsOf w.server.log).reverse

def Session.commands (w : Session) : List (List UInt8) :=
  (w.encrypted.map (commandOf ·.data)).reverse

/-- The client's counter does not overflow, and what the server takes for a command was
encrypted by the client, or by the server itself but with a counter that is not ahead or
with no more than two bytes of console data. -/
def Session.NotReflected (p : Platform) (w : Session) : Action → Prop
  | .send .. => w.client.txIv.toNat + w.client.ofs.toNat < 2 ^ 32
  | .toServer _ pkt => isCommand pkt →
      (∃ r ∈ w.encrypted, carries pkt r.body) ∨
        ∃ iv data buffer, sealBody p w.server.crypt.key iv data buffer ∈ w.answers ∧
          carries pkt (sealBody p w.server.crypt.key iv data buffer) ∧
          (data.length ≤ 3 ∨ ¬ w.server.crypt.fresh iv)
  | .toClient .. => True

/-! ### What the steps keep -/

section Frames

variable {p : Platform} {env : Env} {s : Server}

theorem decryptMessage_frame (p : Platform) (c : Crypt) (len : Int) (body : List UInt8) :
    (c.decryptMessage p len body).1.key = c.key ∧ (c.decryptMessage p len body).1.txIv = c.txIv := by
  unfold Crypt.decryptMessage
  dsimp only
  split_ifs
  all_goals exact ⟨rfl, rfl⟩

/-- Console data leave the key and the counter of the receiver. -/
theorem stream_frame (p : Platform) (buffer : List UInt8) (c : Crypt) (chunks : List (List UInt8)) :
    (stream p buffer c chunks).1.key = c.key ∧ (stream p buffer c chunks).1.rxIv = c.rxIv := by
  induction chunks generalizing c with
  | nil => exact ⟨rfl, rfl⟩
  | cons chunk rest ih => exact ih (c.encryptMessage p _ buffer).1

theorem sendResult_frame (p : Platform) (env : Env) (s : Server) (normal : Bool) :
    (s.sendResult p env normal).server.crypt.key = s.crypt.key ∧
      (s.sendResult p env normal).server.crypt.rxIv = s.crypt.rxIv ∧
      (s.sendResult p env normal).server.log = s.log := by
  obtain ⟨key, rxIv⟩ := stream_frame p env.buffer s.crypt (if normal then env.chunks else [])
  unfold sendResult
  dsimp only
  split
  · exact ⟨key, rxIv, rfl⟩
  · exact ⟨key, rxIv, rfl⟩

/-- What `handle_send_cmd` does with what the decryption returns. -/
theorem handleSendCmd_decrypted (env : Env) {msg : Msg} {c : Crypt} {len : Int} {plain : List UInt8}
    (opened : s.crypt.decryptMessage p msg.len.toInt msg.data = (c, len, plain)) :
    (s.handleSendCmd p env msg).server.crypt.key = c.key ∧
      (s.handleSendCmd p env msg).server.crypt.rxIv = c.rxIv ∧
      ((s.handleSendCmd p env msg).server.log = s.log ∨
        0 < len - 3 ∧ (s.handleSendCmd p env msg).server.log =
          .executed ((((plain.drop encSize).drop 3).take (len - 3).toNat).takeWhile (· != 0)) ::
            s.log) := by
  unfold handleSendCmd
  simp only [opened]
  split
  · exact ⟨rfl, rfl, .inl rfl⟩
  rename_i some'
  rw [not_le] at some'
  split
  · split
    · obtain ⟨key, rxIv, log⟩ := sendResult_frame p env (record _ _) true
      exact ⟨key, rxIv, .inr ⟨some', log⟩⟩
    · exact ⟨rfl, rfl, .inl rfl⟩
  split
  · split
    · obtain ⟨key, rxIv, log⟩ := sendResult_frame p env (record _ _) false
      exact ⟨key, rxIv, .inr ⟨some', log⟩⟩
    · exact ⟨rfl, rfl, .inl rfl⟩
  · exact ⟨rfl, rfl, .inl rfl⟩

/-- What the server does with a body that was encrypted under its key: nothing, or it
takes the counter and may execute the command in the data, if there is one. -/
theorem handleSendCmd_sealed (env : Env) (sound : p.Sound) {pkt : Packet} {iv : BitVec 32}
    {data buffer : List UInt8} (carried : carries pkt (sealBody p s.crypt.key iv data buffer)) :
    (s.handleSendCmd p env pkt.msg).server.crypt.key = s.crypt.key ∧
      (((s.handleSendCmd p env pkt.msg).server.crypt.rxIv = s.crypt.rxIv ∧
          (s.handleSendCmd p env pkt.msg).server.log = s.log) ∨
        s.crypt.fresh iv ∧ (s.handleSendCmd p env pkt.msg).server.crypt.rxIv = iv ∧
          ((s.handleSendCmd p env pkt.msg).server.log = s.log ∨
            3 < data.length ∧
              (s.handleSendCmd p env pkt.msg).server.log = .executed (commandOf data) :: s.log)) := by
  simp only [carries, Bool.and_eq_true, decide_eq_true_eq, List.isPrefixOf_iff_prefix] at carried
  obtain ⟨len, junk, whole⟩ := carried
  obtain ⟨plain, padding, read, opened⟩ :=
    decryptMessage_sealBody sound s.crypt iv data buffer junk
  rw [← len, whole] at opened
  by_cases ahead : s.crypt.fresh iv
  · rw [if_pos ahead] at opened
    obtain ⟨key, rxIv, log⟩ := handleSendCmd_decrypted env opened
    refine ⟨key, .inr ⟨ahead, rxIv, ?_⟩⟩
    obtain log | ⟨some', log⟩ := log
    · exact .inl log
    · refine .inr ⟨by omega, ?_⟩
      have count : ((data.length : Int) - 3).toNat = (data.drop 3).length := by
        rw [List.length_drop]
        omega
      rw [log, read, commandOf, List.drop_append_of_le_length (by omega), count, List.take_left]
  · rw [if_neg ahead] at opened
    obtain ⟨key, rxIv, log⟩ := handleSendCmd_decrypted env opened
    refine ⟨key, .inl ⟨rxIv, ?_⟩⟩
    obtain log | ⟨some', -⟩ := log
    · exact log
    · omega

theorem openContext_frame {s' : Server} {nstate : EadType}
    (done : s.openContext p env nstate = .ok s') :
    s'.crypt = s.crypt ∧ commandsOf s'.log = commandsOf s.log := by
  unfold openContext at done
  split at done
  case h_1 failed =>
    obtain ⟨salt, password, pwbuf, tce, rfl, -⟩ := preparePassword_cases failed
    cases done
    exact ⟨rfl, rfl⟩
  case h_2 found =>
    obtain ⟨salt, password, pwbuf, tce, rfl, -⟩ := preparePassword_cases found
    split at done
    · cases done
    · split at done
      all_goals
        cases done
        exact ⟨rfl, rfl⟩

/-- A new username ends the session: the encryption stays as it is, and nothing is
executed. -/
theorem dispatch_setUsername_frame {msg : Msg} {s' : Server} {sent : List (List UInt8)}
    (live : s.state = .sendCmd) (done : s.dispatch p env msg .setUsername = .ok (s', sent)) :
    s'.crypt = s.crypt ∧ commandsOf s'.log = commandsOf s.log := by
  cases opened : s.ts with
  | none =>
    simp [dispatch, handle, handleSetUsername, setState, live, EadType.num, opened] at done
  | some ts =>
    have back : s.setState p env .setUsername
        = .ok { s with ts := none, state := .setUsername } := by
      simp [setState, live, EadType.num, opened]
    simp only [dispatch, handle, handleSetUsername, back] at done
    rw [setState_getPrime rfl] at done
    split at done
    · cases done
    · rename_i again
      cases done
      have kept := openContext_frame again
      exact kept

/-- What a packet does to the encryption and the log of a server in a session: it is a
command message, or it does nothing. -/
theorem handlePacket_frame {pkt : Packet} {s' : Server} {sent : List (List UInt8)}
    (live : s.state = .sendCmd) (done : s.handlePacket p env pkt = .ok (s', sent)) :
    (s'.crypt = s.crypt ∧ commandsOf s'.log = commandsOf s.log) ∨
      isCommand pkt ∧ s' = (s.handleSendCmd p env pkt.msg).server := by
  obtain ignored | parsed := handlePacket_cases p env s pkt
  · rw [ignored] at done
    cases done
    exact .inl ⟨rfl, rfl⟩
  rw [parsed] at done
  obtain ignored | ⟨kind, called, type, rfl | rfl | ⟨state, -⟩⟩ := parseMessage_cases p env s pkt
  · rw [ignored] at done
    cases done
    exact .inl ⟨rfl, rfl⟩
  · rw [called] at done
    simp only [dispatch, handle, handlePing, setState_same] at done
    cases done
    exact .inl ⟨rfl, rfl⟩
  · rw [called] at done
    exact .inl (dispatch_setUsername_frame live done)
  · rw [live] at state
    subst state
    rw [called] at done
    obtain ⟨c, server, nstate⟩ := handleSendCmd_cases p env s pkt.msg
    have stays : (s.handleSendCmd p env pkt.msg).server.setState p env s.state
        = .ok (s.handleSendCmd p env pkt.msg).server := by
      obtain server | ⟨command, server⟩ := server
      all_goals
        rw [server]
        exact setState_same
    simp only [dispatch, handle, nstate, stays] at done
    cases done
    exact .inr ⟨decide_eq_true type, rfl⟩

end Frames

/-! ### Whole sessions -/

/-- What holds throughout a session: the commands executed are among those of the client
up to the counter of the server, in the order of the client. -/
structure Session.Inv (p : Platform) (w : Session) : Prop where
  key : w.server.crypt.key = w.client.key
  sealed : ∀ r ∈ w.encrypted, ∃ buffer, r.body = sealBody p w.client.key r.iv r.data buffer
  numbered : Lib.Numbered (w.encrypted.map fun r => (r.iv.toNat, r))
  below : ∀ r ∈ w.encrypted, r.iv.toNat ≤ w.client.txIv.toNat
  ordered : (commandsOf w.server.log).Sublist
    ((Lib.upTo w.server.crypt.rxIv.toNat (w.encrypted.map fun r => (r.iv.toNat, r))).map
      fun entry => commandOf entry.2.data)

section Runs

variable {p : Platform} {w w' : Session}

theorem Session.Start.inv (start : w.Start p) : w.Inv p := by
  obtain ⟨client, server, skey, onClient, onServer, -, log, encrypted, -⟩ := start
  constructor
  · rw [onClient, onServer]
    rfl
  · simp [encrypted]
  · simp [encrypted, Lib.Numbered]
  · simp [encrypted]
  · simp [log, commandsOf]

/-- The counter of the client goes up by what it adds, where it does not overflow. -/
theorem nextTxIv_toNat {c : Crypt} (fits : c.txIv.toNat + c.ofs.toNat < 2 ^ 32) :
    c.txIv.toNat < c.nextTxIv.txIv.toNat := by
  have positive : 0 < c.ofs.toNat := by
    unfold Crypt.ofs
    have small : ((c.ivofsVec >>> (2 * c.ivofsIdx)) &&& 3).toNat ≤ 3 := by
      rw [BitVec.toNat_and]
      exact Nat.and_le_right
    have one : (1 : BitVec 32).toNat = 1 := rfl
    rw [BitVec.toNat_add, one]
    omega
  simp only [Crypt.nextTxIv, BitVec.toNat_add]
  omega

theorem Session.Inv.send (inv : w.Inv p) {command tail buffer : List UInt8}
    (fits : w.client.txIv.toNat + w.client.ofs.toNat < 2 ^ 32)
    (taken : w.step p (.send command tail buffer) = some (w', ())) : w'.Inv p := by
  have ahead := nextTxIv_toNat fits
  simp only [step, Option.some.injEq, Prod.mk.injEq, and_true] at taken
  subst taken
  constructor
  · exact inv.key
  · rw [List.forall_mem_cons]
    exact ⟨⟨buffer, rfl⟩, inv.sealed⟩
  · refine inv.numbered.cons ?_ _
    intro entry member
    obtain ⟨r, here, rfl⟩ := List.mem_map.mp member
    exact (inv.below r here).trans_lt ahead
  · rw [List.forall_mem_cons]
    refine ⟨le_rfl, ?_⟩
    intro r member
    exact (inv.below r member).trans ahead.le
  · refine inv.ordered.trans (List.Sublist.map _ ?_)
    exact (List.sublist_cons_self _ _).filter _

/-- Taking a counter that is ahead, without an execution. -/
theorem Session.Inv.advance (inv : w.Inv p) {server : Server} {answers : List (List UInt8)}
    (key : server.crypt.key = w.server.crypt.key)
    (ahead : w.server.crypt.rxIv.toNat ≤ server.crypt.rxIv.toNat)
    (quiet : commandsOf server.log = commandsOf w.server.log) :
    ({ w with server := server, answers := answers } : Session).Inv p where
  key := key.trans inv.key
  sealed := inv.sealed
  numbered := inv.numbered
  below := inv.below
  ordered := by
    show (commandsOf server.log).Sublist _
    rw [quiet]
    exact inv.ordered.trans ((Lib.upTo_mono ahead _).map _)

/-- Executing a command of the client whose counter is ahead. -/
theorem Session.Inv.execute (inv : w.Inv p) {server : Server} {answers : List (List UInt8)}
    {r : Sealed} (member : r ∈ w.encrypted) (key : server.crypt.key = w.server.crypt.key)
    (ahead : w.server.crypt.rxIv.toNat < r.iv.toNat) (taken : server.crypt.rxIv = r.iv)
    (log : server.log = .executed (commandOf r.data) :: w.server.log) :
    ({ w with server := server, answers := answers } : Session).Inv p where
  key := key.trans inv.key
  sealed := inv.sealed
  numbered := inv.numbered
  below := inv.below
  ordered := by
    have entry : (r.iv.toNat, r) ∈ w.encrypted.map fun r => (r.iv.toNat, r) :=
      List.mem_map_of_mem member
    have grown := (Lib.upTo_take inv.numbered entry ahead).map
      fun entry => commandOf entry.2.data
    show (commandsOf server.log).Sublist _
    rw [log, taken]
    exact (inv.ordered.cons_cons _).trans grown

theorem fresh_ahead {c : Crypt} {iv : BitVec 32} (fresh : c.fresh iv) :
    c.rxIv.toNat < iv.toNat := by
  simp only [Crypt.fresh, Bool.and_eq_true, Bool.not_eq_true', decide_eq_false_iff_not] at fresh
  have above := fresh.1
  rw [BitVec.le_def] at above
  omega

theorem Session.Inv.toServer (sound : p.Sound) (inv : w.Inv p) {env : Env} {pkt : Packet}
    (guard : w.NotReflected p (.toServer env pkt))
    (taken : w.step p (.toServer env pkt) = some (w', ())) : w'.Inv p := by
  simp only [step] at taken
  split at taken
  · cases taken
  rename_i live
  have state : w.server.state = .sendCmd := by
    by_contra other
    exact live (.inl other)
  split at taken
  · cases taken
  rename_i server sent done
  simp only [Option.some.injEq, Prod.mk.injEq, and_true] at taken
  subst taken
  obtain ⟨crypt, log⟩ | ⟨command, rfl⟩ := handlePacket_frame state done
  · exact inv.advance (by rw [crypt]) (by rw [crypt]) log
  obtain ⟨r, member, carried⟩ | ⟨iv, data, buffer, -, carried, harmless⟩ := guard command
  · obtain ⟨buffer, body⟩ := inv.sealed r member
    rw [body, ← inv.key] at carried
    obtain ⟨key, ⟨rxIv, log⟩ | ⟨fresh, rxIv, log | ⟨-, log⟩⟩⟩ :=
      handleSendCmd_sealed env sound carried
    · exact inv.advance key (by rw [rxIv]) (by rw [log])
    · exact inv.advance key (by rw [rxIv]; exact (fresh_ahead fresh).le) (by rw [log])
    · exact inv.execute member key (fresh_ahead fresh) rxIv log
  · obtain ⟨key, ⟨rxIv, log⟩ | ⟨fresh, rxIv, log | ⟨long, -⟩⟩⟩ :=
      handleSendCmd_sealed env sound carried
    · exact inv.advance key (by rw [rxIv]) (by rw [log])
    · exact inv.advance key (by rw [rxIv]; exact (fresh_ahead fresh).le) (by rw [log])
    · -- An answer of the server that is ahead holds no command.
      obtain short | stale := harmless
      · omega
      · exact absurd fresh stale

theorem Session.Inv.toClient (inv : w.Inv p) {len : Int} {body : List UInt8}
    (taken : w.step p (.toClient len body) = some (w', ())) : w'.Inv p := by
  simp only [step, Option.some.injEq, Prod.mk.injEq, and_true] at taken
  subst taken
  obtain ⟨key, txIv⟩ := decryptMessage_frame p w.client len body
  constructor
  · exact inv.key.trans key.symm
  · intro r member
    rw [key]
    exact inv.sealed r member
  · exact inv.numbered
  · intro r member
    rw [txIv]
    exact inv.below r member
  · exact inv.ordered

end Runs

/-! ### A session in which the server runs its own output -/

theorem checksumPlatform_sound : checksumPlatform.Sound where
  length_encrypt _ _ size := size
  decrypt_encrypt _ _ _ := rfl
  length_init := rfl
  length_transform _ _ _ := by simp [checksumPlatform]

/-- A session of `root` at its start. -/
def sampleSession : Session :=
  let crypt := Crypt.setKey checksumPlatform ⟨[], 0, 0, 0, 0⟩ (List.replicate 40 0)
  let ts := tServerOpenRaw checksumPlatform 0 ⟨root, [9], []⟩ sampleServer.preParam
  { client := crypt
    server := { sampleServer with
      username := root, state := .sendCmd, tce := some sampleServer.preParam, ts := some ts
      crypt := crypt } }

theorem sampleSession_start : sampleSession.Start checksumPlatform :=
  ⟨_, _, _, rfl, rfl, rfl, rfl, rfl, rfl⟩

/-- The client sends `ls`. -/
def sendLs : Action := .send [108, 115] [] []

/-- The session after it. -/
def lsSent : Session :=
  let data := cmdMessage [108, 115] []
  let out := sampleSession.client.encryptMessage checksumPlatform data []
  { sampleSession with client := out.1, encrypted := [⟨out.1.txIv, data, out.2⟩] }

/-- The packet with the command reaches the server, whose child writes `ok reboot` after
the first keepalive. -/
def deliverLs : Action :=
  .toServer { chunks := [[], [111, 107, 114, 101, 98, 111, 111, 116]] }
    (packetOf 10 (sealBody checksumPlatform lsSent.client.key 1 (cmdMessage [108, 115] []) []))

/-- The console data come back to the server as a command. -/
def reflectAnswer : Action :=
  .toServer {}
    (packetOf 10 (sealBody checksumPlatform lsSent.client.key 2
      [0, 111, 107, 114, 101, 98, 111, 111, 116] []))

end FirewallCore.Ead
