import FirewallCore.Ead.Login
import FirewallCore.Lib.Checked

/-!
What the emergency access daemon reads and writes while it handles a packet: the captured bytes, and the
buffers of the daemon itself.
-/

namespace FirewallCore.Ead

open Lib Server

/-- `PCAP_MRU`: so many bytes of a packet are captured, and so many fit in `pktbuf`. -/
def pcapMru : Nat := 1600

/-- A packet on the wire. Its length is `len` of the `pcap_pkthdr`. -/
structure Frame where
  wire : List UInt8
  short : wire.length < 2 ^ 31

namespace Frame

variable (f : Frame)

/-- What is captured. -/
def bytes : List UInt8 := f.wire.take pcapMru

def field (w pos size : Nat) : BitVec w := BitVec.ofNat w (Endian.big.numberAt f.bytes pos size)

/-- `struct ead_packet` -/
def packet : Packet where
  hlen := f.wire.length
  etherType := f.field 16 12 2
  etherDhost := f.bytes.take 6
  proto := f.bytes.getD 23 0
  destport := f.field 16 36 2
  msg :=
    { magic := f.field 32 42 4
      len := f.field 32 46 4
      type := f.field 32 50 4
      nid := f.field 16 54 2
      sid := f.field 16 56 2
      data := f.bytes.drop packetSize }

/-- `ntohl(msg->len)` as an `int`. -/
def len : Int := f.packet.msg.len.toInt

end Frame

/-- What is accessed: the captured packet, the message in it that is decrypted in place, and the buffers of
the daemon. `bbuf` holds the number `B`, and nothing is behind a pointer that is null. -/
inductive Buffer where
  | packet
  | message
  | abuf
  | username
  | reply
  | saltbuf
  | pwSaltbuf
  | bbuf
  | response
  | null
  deriving DecidableEq, Repr

def Buffer.size (f : Frame) : Buffer → Nat
  | .packet => f.bytes.length
  | .message => min f.len.toNat (f.bytes.length - packetSize)
  | .abuf => maxParamLen + 1
  | .username => 32
  | .reply => pcapMru
  | .saltbuf => maxSaltLen
  | .pwSaltbuf => maxSaltLen
  | .bbuf => maxParamLen
  | .response => 20
  | .null => 0

/-- So many bytes from a position on are read or written. -/
structure Access where
  buffer : Buffer
  pos : Nat
  length : Int
  deriving DecidableEq, Repr

def Access.Inside (f : Frame) (a : Access) : Prop := 0 ≤ a.length ∧ a.pos + a.length ≤ a.buffer.size f

instance (f : Frame) (a : Access) : Decidable (a.Inside f) := inferInstanceAs (Decidable (_ ∧ _))

/-- Fields that are read one after the other until one does not fit, and what follows if all do. -/
def guarded : List (Access × Bool) → List Access → List Access
  | [], rest => rest
  | (a, ok) :: checks, rest => a :: if ok then guarded checks rest else []

/-! ### Messages -/

/-- The length of an encrypted message with so many bytes of data. -/
def sealedLength (n : Nat) : Nat := n + encSize + padOf n

/-- `ead_encrypt_message`, in the reply. -/
def encryptAccesses (n : Nat) : List Access :=
  [⟨.reply, 86, 1⟩, ⟨.reply, 46, 4⟩, ⟨.reply, 82, 4⟩, ⟨.reply, 62, 20⟩,
    ⟨.reply, 62, (64 * ((sealedLength n + 63) / 64) : Nat)⟩, ⟨.reply, 62, (16 * ((sealedLength n + 15) / 16) : Nat)⟩]

/-- `ead_send_packet_clone`, with so many bytes of data in the reply. -/
def sendAccesses (n : Nat) : List Access :=
  [⟨.packet, 0, 42⟩, ⟨.reply, 0, 42⟩, ⟨.packet, 6, 6⟩, ⟨.packet, 58, 4⟩, ⟨.packet, 26, 4⟩, ⟨.packet, 34, 4⟩,
    ⟨.reply, 14, 20⟩, ⟨.reply, 26, 8⟩, ⟨.reply, 34, (28 + n : Nat)⟩, ⟨.reply, 0, (packetSize + n : Nat)⟩]

/-- The message in place after its decryption. -/
def deciphered (p : Platform) (c : Crypt) (f : Frame) : List UInt8 :=
  mapBlocks (p.rijndaelDecrypt c.key) ((f.len.toNat + 15) / 16) f.packet.msg.data

/-- The length of the padding, and the counter. -/
def padding (plain : List UInt8) : Nat := (plain.getD 24 0).toNat

def counter (plain : List UInt8) : BitVec 32 := ntohl ((plain.drop 20).take 4)

/-- `ead_decrypt_message` -/
def decryptAccesses (p : Platform) (c : Crypt) (f : Frame) : List Access :=
  ⟨.packet, 46, 4⟩ ::
    if f.len = 0 ∨ 0 < f.len.tmod encPad then []
    else
      [⟨.message, 0, (16 * ((f.len.toNat + 15) / 16) : Nat)⟩] ++
        guarded [(⟨.packet, 86, 1⟩, padding (deciphered p c f) < encPad),
          (⟨.packet, 82, 4⟩, c.fresh (counter (deciphered p c f)))]
        [⟨.packet, 62, 20⟩, ⟨.message, 0, 20⟩, ⟨.packet, 62, (64 * ((f.len.toNat + 63) / 64) : Nat)⟩,
          ⟨.packet, 86, 1⟩]

/-! ### Handlers -/

/-- What a handler accesses, and the length of its reply if it returns true. -/
structure Handling where
  accesses : List Access
  reply : Option Nat

section Handlers

variable (p : Platform) (env : Env) (s : Server) (f : Frame)

/-- `handle_ping` -/
def pingAccesses : Handling :=
  let slen := min s.devName.length 1024
  ⟨[⟨.reply, 46, 4⟩, ⟨.reply, 64, slen⟩, ⟨.reply, 64 + slen, 1⟩, ⟨.reply, 62, 2⟩], some (2 + slen)⟩

/-- `handle_set_username`. `strncpy` reads up to a NUL. -/
def setUsernameAccesses : Handling :=
  let read := min (((f.packet.msg.data.take 32).takeWhile (· != 0)).length + 1) 32
  ⟨[⟨.packet, 62, read⟩, ⟨.username, 0, 32⟩, ⟨.username, 31, 1⟩, ⟨.reply, 46, 4⟩], some 0⟩

/-- `handle_get_prime` -/
def getPrimeAccesses : Handling :=
  match s.tce, s.ts with
  | some _, some ts =>
    ⟨[⟨.reply, 46, 4⟩, ⟨.reply, 62, 1⟩, ⟨.reply, 63, 1⟩, ⟨.saltbuf, 0, ts.s.length⟩, ⟨.reply, 64, ts.s.length⟩,
      ⟨.pwSaltbuf, 0, maxSaltLen⟩, ⟨.reply, 96, maxSaltLen⟩], some 66⟩
  | _, _ => ⟨[⟨.null, 0, 1⟩], none⟩

/-- `handle_send_a` -/
def sendAAccesses : Handling :=
  let len := (f.packet.msg.len - 1).toInt
  if (maxParamLen + 1 : Nat) < len then ⟨[⟨.packet, 46, 4⟩], none⟩
  else
    let copy := [⟨.packet, 46, 4⟩, ⟨.packet, 63, len⟩, ⟨.abuf, 0, len⟩]
    match s.derefB with
    | none => ⟨copy ++ [⟨.null, 0, 1⟩], none⟩
    | some B => ⟨copy ++ [⟨.reply, 46, 4⟩, ⟨.bbuf, 0, B.length⟩, ⟨.reply, 63, B.length⟩], some (1 + B.length)⟩

/-- `handle_send_auth` -/
def sendAuthAccesses : Handling :=
  match s.ts with
  | none => ⟨[⟨.null, 0, 1⟩], none⟩
  | some ts =>
    if (ts.verify p (f.packet.msg.data.take 20)).2 then
      ⟨[⟨.packet, 62, 20⟩, ⟨.reply, 46, 4⟩, ⟨.response, 0, 20⟩, ⟨.reply, 62, 20⟩], some 20⟩
    else ⟨[⟨.packet, 62, 20⟩], none⟩

/-- The end of `handle_send_cmd`, once the command is running. -/
def resultAccesses (normal : Bool) : Handling :=
  let rounds := (if normal then env.chunks else []).flatMap fun chunk =>
    let n := 1 + (chunk.take 1024).length
    [⟨.reply, 87, 1⟩, ⟨.reply, 88, 1024⟩] ++ encryptAccesses n ++ sendAccesses (sealedLength n)
  if normal ∧ env.pending then ⟨rounds, none⟩
  else ⟨rounds ++ ⟨.reply, 87, 1⟩ :: encryptAccesses 1, some (sealedLength 1)⟩

/-- `handle_send_cmd`. The NUL behind the command is written at `datalen`, and the child reads up to it. -/
def sendCmdAccesses : Handling :=
  let out := s.crypt.decryptMessage p f.len f.packet.msg.data
  let datalen := out.2.1 - 3
  let decrypt := decryptAccesses p s.crypt f
  if datalen ≤ 0 then ⟨decrypt, none⟩
  else
    let cmd := out.2.2.drop encSize
    let command := ((cmd.drop 3).take datalen.toNat).takeWhile (· != 0)
    let type := ntohs p (cmd.getD 0 0)
    let front := decrypt ++ [⟨.packet, 87, 1⟩, ⟨.packet, 88, 2⟩, ⟨.message, 28 + datalen.toNat, 1⟩]
    let system : Access := ⟨.packet, 90, (command.length + 1 : Nat)⟩
    if type = 0 then
      if env.pipe ∧ env.fork then
        ⟨front ++ system :: (resultAccesses env true).accesses, (resultAccesses env true).reply⟩
      else ⟨front, none⟩
    else if type = 1 then
      if env.fork then ⟨front ++ system :: (resultAccesses env false).accesses, (resultAccesses env false).reply⟩
      else ⟨front, none⟩
    else ⟨front, none⟩

/-- The call of the handler. -/
def handlerAccesses : EadType → Handling
  | .setUsername => setUsernameAccesses f
  | .getPrime => getPrimeAccesses s
  | .sendA => sendAAccesses s f
  | .sendAuth => sendAuthAccesses p s f
  | .sendCmd => sendCmdAccesses p env s f
  | _ => pingAccesses s

/-- The handler that `parse_message` selects. -/
def parseSelects : Option EadType :=
  let type := f.packet.msg.type.toInt
  if EadType.getPrime.num ≤ type ∧ (s.state.num : Int) ≠ type then none
  else if type ≠ EadType.ping.num ∧ (((f.packet.msg.sid &&& 0xf000) >>> 12).toNat : Int) ≠ s.instanceId then none
  else
    match handlerOf type with
    | none => none
    | some (kind, extra) => if f.packet.hlen < packetSize + extra then none else some kind

/-- `parse_message` -/
def parseAccesses : List Access :=
  ⟨.packet, 50, 4⟩ :: ⟨.packet, 56, 2⟩ ::
    match parseSelects s f with
    | none => []
    | some kind =>
      [⟨.reply, 42, 4⟩, ⟨.reply, 50, 4⟩, ⟨.reply, 54, 2⟩, ⟨.reply, 56, 2⟩, ⟨.reply, 46, 4⟩] ++
        (handlerAccesses p env s f kind).accesses ++
        ((handlerAccesses p env s f kind).reply.map sendAccesses).getD []

/-- The checks of `handle_packet`. -/
def packetChecks : List (Access × Bool) :=
  [(⟨.packet, 12, 2⟩, f.packet.etherType = 0x0800),
    (⟨.packet, 0, 6⟩, f.packet.etherDhost = List.replicate 6 0xff),
    (⟨.packet, 23, 1⟩, f.packet.proto = 17),
    (⟨.packet, 36, 2⟩, f.packet.destport = 56026),
    (⟨.packet, 42, 4⟩, f.packet.msg.magic = 3671771902),
    (⟨.packet, 46, 4⟩, ¬f.packet.hlen < (packetSize + f.packet.msg.len.toNat) % 2 ^ p.sizeBits),
    (⟨.packet, 54, 2⟩, f.packet.msg.nid = 0xffff ∨ f.packet.msg.nid = s.nid)]

/-- `handle_packet` -/
def accesses : List Access :=
  if f.packet.hlen < packetSize then [] else guarded (packetChecks p s f) (parseAccesses p env s f)

/-- The handler that a packet reaches. -/
def selects : Option EadType :=
  if packetSize ≤ f.packet.hlen ∧ (packetChecks p s f).all (·.2) then parseSelects s f else none

end Handlers

end FirewallCore.Ead
