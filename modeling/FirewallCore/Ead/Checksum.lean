import FirewallCore.Ead.Accesses
import FirewallCore.Lib.OnesComplement

/-!
The checksums of the replies of the emergency access daemon (`ead_send_packet_clone`).

The headers are those of the packet that is answered, with addresses and ports exchanged.
`chksum` sums words in 16 bits and adds each carry in at once; what a receiver sums up, over
the bytes that are sent, is a multiple of 65535 (`reply_verifies`).
-/

namespace FirewallCore.Ead

open FirewallCore.Lib Server

/-- `chksum` -/
def chksum (sum : UInt16) : List UInt8 → UInt16
  | [] => sum
  | [a] => addCarry sum (a.toUInt16 <<< 8)
  | a :: b :: rest => chksum (addCarry sum ((a.toUInt16 <<< 8) + b.toUInt16)) rest

/-- The fields of a `struct ead_packet` before the message. Those of 16 bits are the values of their two bytes in
network order. -/
structure Headers where
  etherDhost : Vector UInt8 6
  etherShost : Vector UInt8 6
  etherType : UInt16
  vhl : UInt8
  tos : UInt8
  len : UInt16
  ipid : UInt16
  ipoffset : UInt16
  ttl : UInt8
  proto : UInt8
  ipchksum : UInt16
  srcipaddr : UInt16 × UInt16
  destipaddr : UInt16 × UInt16
  srcport : UInt16
  destport : UInt16
  udplen : UInt16
  udpchksum : UInt16

namespace Headers

variable (h : Headers)

def etherHeader : List UInt8 := h.etherDhost.toList ++ h.etherShost.toList ++ be16 h.etherType

def addresses : List UInt8 :=
  be16 h.srcipaddr.1 ++ (be16 h.srcipaddr.2 ++ (be16 h.destipaddr.1 ++ be16 h.destipaddr.2))

def ipHeader : List UInt8 :=
  h.vhl :: h.tos :: (be16 h.len ++ (be16 h.ipid ++ (be16 h.ipoffset ++ h.ttl :: h.proto ::
    (be16 h.ipchksum ++ h.addresses))))

def udpHeader : List UInt8 := be16 h.srcport ++ (be16 h.destport ++ (be16 h.udplen ++ be16 h.udpchksum))

end Headers

/-- The message in `pktbuf`: the 20 bytes of its header, the value of its field `len`, and the bytes of the buffer
behind it. It fits into a packet. -/
structure ReplyMsg where
  header : Vector UInt8 20
  len : UInt32
  data : List UInt8
  buffer : data.length = pcapMru - packetSize
  fits : packetSize + len.toNat ≤ pcapMru

/-- `UIP_PROTO_UDP` -/
def uipProtoUdp : UInt16 := 17

/-- `UIP_IPH_LEN` -/
def uipIphLen : UInt16 := 20

/-- What is stored as a checksum. -/
def complementSum (sum : UInt16) : UInt16 := ~~~(if sum = 0 then 0xffff else sum)

/-- The headers of a reply to a packet with some headers, whose message has the address `ip`. -/
def replyHeaders (ethmac : Vector UInt8 6) (pkt : Headers) (ip : UInt16 × UInt16) (msg : ReplyMsg) : Headers :=
  let h := { pkt with etherShost := ethmac, etherDhost := pkt.etherShost }
  let len : UInt16 := UInt16.ofNat (packetSize - 14 + msg.len.toNat)
  let h := { h with len := len, srcipaddr := ip, destipaddr := pkt.srcipaddr, ipchksum := 0 }
  let h := { h with ipchksum := complementSum (chksum 0 h.ipHeader) }
  let h := { h with srcport := pkt.destport, destport := pkt.srcport }
  let len := len - uipIphLen
  let h := { h with udplen := len, udpchksum := 0 }
  let sum := chksum (len + uipProtoUdp) h.addresses
  let sum := chksum sum ((h.udpHeader ++ (msg.header.toList ++ msg.data)).take len.toNat)
  { h with udpchksum := complementSum sum }

/-- `ead_send_packet_clone`: the bytes that are sent. -/
def eadSendPacketClone (ethmac : Vector UInt8 6) (pkt : Headers) (ip : UInt16 × UInt16) (msg : ReplyMsg) : List UInt8 :=
  let h := replyHeaders ethmac pkt ip msg
  (h.etherHeader ++ (h.ipHeader ++ (h.udpHeader ++ (msg.header.toList ++ msg.data)))).take (packetSize + msg.len.toNat)

/-! ### What a receiver sums up -/

/-- The IP header of a packet. -/
def ipHeaderOf (packet : List UInt8) : List UInt8 := (packet.drop 14).take 20

/-- The header of UDP, and all behind it. -/
def datagramOf (packet : List UInt8) : List UInt8 := packet.drop 34

/-- The addresses, the protocol and the length of UDP. -/
def pseudoHeaderOf (packet : List UInt8) : List UInt8 := (packet.drop 26).take 8 ++ ([0, 17] ++ (packet.drop 38).take 2)

section

variable {ethmac : Vector UInt8 6} {pkt : Headers} {ip : UInt16 × UInt16} {msg : ReplyMsg} {sum : UInt16}

theorem toUInt16_shift (a : UInt8) : (a.toUInt16 <<< 8).toNat = 256 * a.toNat := by
  have bound := a.toNat_lt
  rw [UInt16.toNat_shiftLeft, UInt8.toNat_toUInt16]
  change (a.toNat <<< 8) % 65536 = _
  rw [Nat.shiftLeft_eq]
  omega

/-- The words are summed up, and carries added in. -/
theorem chksum_toNat (sum : UInt16) (data : List UInt8) :
    (chksum sum data).toNat = foldCarries (sum.toNat + wordSum data) := by
  induction data using wordSum.induct generalizing sum with
  | case1 => exact (foldCarries_of_small sum.toNat_lt).symm
  | case2 a => rw [chksum, addCarry_toNat, toUInt16_shift, wordSum]
  | case3 a b rest ih =>
    have word : (a.toUInt16 <<< 8 + b.toUInt16).toNat = 256 * a.toNat + b.toNat := by
      have boundA := a.toNat_lt
      have boundB := b.toNat_lt
      rw [UInt16.toNat_add, toUInt16_shift, UInt8.toNat_toUInt16]
      omega
    rw [chksum, ih, addCarry_toNat, word, foldCarries_add, wordSum, Nat.add_assoc]

/-- The complement of a sum that is not 0. -/
theorem complementSum_toNat {n : Nat} (value : sum.toNat = foldCarries n) (positive : 0 < n) :
    (complementSum sum).toNat = 65535 - foldCarries n := by
  have nonzero : sum ≠ 0 := by
    rintro rfl
    exact Nat.ne_of_gt positive ((foldCarries_spec n).2.2.mp value.symm)
  rw [complementSum, if_neg nonzero, UInt16.toNat_not, value]
  rfl

/-! The parts of a packet. -/

/-- What is sent of one part after the other. -/
theorem take_drop_take {packet before part behind : List UInt8} {size pos n : Nat}
    (split : packet = before ++ (part ++ behind)) (length : before.length = pos) (length' : part.length = n)
    (sent : pos + n ≤ size) : ((packet.take size).drop pos).take n = part := by
  rw [split, List.drop_take, List.drop_left' length, List.take_take, Nat.min_eq_left (by omega), List.take_left' length']

theorem length_etherHeader (h : Headers) : h.etherHeader.length = 14 := by
  simp [Headers.etherHeader, be16]

theorem wordSum_ipHeader (h : Headers) : wordSum h.ipHeader =
    256 * h.vhl.toNat + h.tos.toNat + (h.len.toNat + (h.ipid.toNat + (h.ipoffset.toNat +
      (256 * h.ttl.toNat + h.proto.toNat + (h.ipchksum.toNat + wordSum h.addresses))))) := by
  rw [Headers.ipHeader, wordSum, wordSum_be16_append, wordSum_be16_append, wordSum_be16_append, wordSum,
    wordSum_be16_append]

theorem wordSum_udpHeader_append (h : Headers) (rest : List UInt8) : wordSum (h.udpHeader ++ rest) =
    h.srcport.toNat + (h.destport.toNat + (h.udplen.toNat + (h.udpchksum.toNat + wordSum rest))) := by
  rw [Headers.udpHeader, List.append_assoc, List.append_assoc, List.append_assoc, wordSum_be16_append,
    wordSum_be16_append, wordSum_be16_append, wordSum_be16_append]

/-- The headers of a reply carry its lengths and the complements of the sums over the rest. -/
theorem replyHeaders_sums (ethmac : Vector UInt8 6) (pkt : Headers) (ip : UInt16 × UInt16) (msg : ReplyMsg) :
    let h := replyHeaders ethmac pkt ip msg
    let message := (msg.header.toList ++ msg.data).take (20 + msg.len.toNat)
    foldCarries (wordSum h.ipHeader) = 65535 ∧
      h.udplen.toNat = 28 + msg.len.toNat ∧
      foldCarries (wordSum h.addresses + (17 + h.udplen.toNat) + wordSum (h.udpHeader ++ message)) = 65535 := by
  intro h message
  have fits : 62 + msg.len.toNat ≤ 1600 := msg.fits
  have len : (UInt16.ofNat (packetSize - 14 + msg.len.toNat)).toNat = 48 + msg.len.toNat := by
    rw [UInt16.toNat_ofNat']
    change (48 + msg.len.toNat) % 65536 = _
    omega
  have udplen : (UInt16.ofNat (packetSize - 14 + msg.len.toNat) - uipIphLen).toNat = 28 + msg.len.toNat := by
    rw [UInt16.toNat_sub, len]
    change (65536 - 20 + (48 + msg.len.toNat)) % 65536 = _
    omega
  refine ⟨?_, udplen, ?_⟩
  · let blank := { h with ipchksum := 0 }
    have stored : h.ipchksum = complementSum (chksum 0 blank.ipHeader) := rfl
    have hLen : blank.len.toNat = 48 + msg.len.toNat := len
    have blankSum := wordSum_ipHeader blank
    have sum := wordSum_ipHeader h
    have zero : blank.ipchksum.toNat = 0 := rfl
    have value := chksum_toNat 0 blank.ipHeader
    rw [UInt16.toNat_zero, Nat.zero_add] at value
    rw [stored, complementSum_toNat value (by omega)] at sum
    have whole : wordSum h.ipHeader = wordSum blank.ipHeader + (65535 - foldCarries (wordSum blank.ipHeader)) := by
      rw [sum, blankSum, zero]
      change _ = 256 * h.vhl.toNat + h.tos.toNat + (h.len.toNat + (h.ipid.toNat + (h.ipoffset.toNat +
        (256 * h.ttl.toNat + h.proto.toNat + (0 + wordSum h.addresses))))) + _
      omega
    rw [whole]
    exact foldCarries_complement (by omega)
  · let blank := { h with udpchksum := 0 }
    have message_eq : ∀ h' : Headers, (h'.udpHeader ++ (msg.header.toList ++ msg.data)).take (28 + msg.len.toNat) =
        h'.udpHeader ++ message := by
      intro h'
      have length : h'.udpHeader.length = 8 := rfl
      rw [List.take_append, length, List.take_of_length_le (by omega), show 28 + msg.len.toNat - 8 = 20 + msg.len.toNat by omega]
    have stored : h.udpchksum = complementSum (chksum (chksum (h.udplen + uipProtoUdp) h.addresses)
        ((blank.udpHeader ++ (msg.header.toList ++ msg.data)).take h.udplen.toNat)) := rfl
    have start : (h.udplen + uipProtoUdp).toNat = 28 + msg.len.toNat + 17 := by
      rw [UInt16.toNat_add]
      change (h.udplen.toNat + 17) % 65536 = _
      rw [show h.udplen.toNat = 28 + msg.len.toNat from udplen]
      omega
    have hLen : h.udplen.toNat = 28 + msg.len.toNat := udplen
    rw [hLen, message_eq] at stored
    have value := chksum_toNat (chksum (h.udplen + uipProtoUdp) h.addresses) (blank.udpHeader ++ message)
    have addresses := chksum_toNat (h.udplen + uipProtoUdp) h.addresses
    rw [start] at addresses
    rw [addresses, foldCarries_add, wordSum_udpHeader_append] at value
    have zero : blank.udpchksum.toNat = 0 := rfl
    have same : blank.srcport = h.srcport ∧ blank.destport = h.destport ∧ blank.udplen = h.udplen := ⟨rfl, rfl, rfl⟩
    rw [zero, same.1, same.2.1, same.2.2, hLen] at value
    have checksum := congrArg UInt16.toNat stored
    rw [complementSum_toNat value (by omega)] at checksum
    rw [wordSum_udpHeader_append, checksum, hLen]
    have total := foldCarries_complement (n := 28 + msg.len.toNat + 17 + wordSum h.addresses + (h.srcport.toNat +
      (h.destport.toNat + (28 + msg.len.toNat + (0 + wordSum message))))) (by omega)
    rw [← total]
    congr 1
    omega

/-- A receiver sums up 65535, over the IP header and over the pseudo-header, the header of UDP and all behind it. -/
theorem reply_verifies (ethmac : Vector UInt8 6) (pkt : Headers) (ip : UInt16 × UInt16) (msg : ReplyMsg) :
    foldCarries (wordSum (ipHeaderOf (eadSendPacketClone ethmac pkt ip msg))) = 0xffff ∧
      foldCarries (wordSum (pseudoHeaderOf (eadSendPacketClone ethmac pkt ip msg) ++
        datagramOf (eadSendPacketClone ethmac pkt ip msg))) = 0xffff := by
  obtain ⟨ipSum, udplen, udpSum⟩ := replyHeaders_sums ethmac pkt ip msg
  have fits : 62 + msg.len.toNat ≤ 1600 := msg.fits
  unfold eadSendPacketClone
  dsimp only
  generalize replyHeaders ethmac pkt ip msg = h at *
  generalize rest_eq : msg.header.toList ++ msg.data = rest at *
  let start := h.vhl :: h.tos :: (be16 h.len ++ (be16 h.ipid ++ (be16 h.ipoffset ++ h.ttl :: h.proto :: be16 h.ipchksum)))
  have ipPart : ipHeaderOf ((h.etherHeader ++ (h.ipHeader ++ (h.udpHeader ++ rest))).take (packetSize + msg.len.toNat)) =
      h.ipHeader :=
    take_drop_take rfl (length_etherHeader h) rfl (by rw [packetSize]; omega)
  have addressPart : (((h.etherHeader ++ (h.ipHeader ++ (h.udpHeader ++ rest))).take
      (packetSize + msg.len.toNat)).drop 26).take 8 = h.addresses := by
    have split : h.etherHeader ++ (h.ipHeader ++ (h.udpHeader ++ rest)) =
        (h.etherHeader ++ start) ++ (h.addresses ++ (h.udpHeader ++ rest)) := by
      rw [List.append_assoc]
      rfl
    refine take_drop_take split ?_ rfl (by rw [packetSize]; omega)
    rw [List.length_append, length_etherHeader]
    rfl
  have lengthPart : (((h.etherHeader ++ (h.ipHeader ++ (h.udpHeader ++ rest))).take
      (packetSize + msg.len.toNat)).drop 38).take 2 = be16 h.udplen := by
    have split : h.etherHeader ++ (h.ipHeader ++ (h.udpHeader ++ rest)) =
        (h.etherHeader ++ (h.ipHeader ++ (be16 h.srcport ++ be16 h.destport))) ++
          (be16 h.udplen ++ (be16 h.udpchksum ++ rest)) := by
      simp only [Headers.udpHeader, List.append_assoc]
    refine take_drop_take split ?_ rfl (by rw [packetSize]; omega)
    rw [List.length_append, length_etherHeader]
    rfl
  have datagram : datagramOf ((h.etherHeader ++ (h.ipHeader ++ (h.udpHeader ++ rest))).take
      (packetSize + msg.len.toNat)) = h.udpHeader ++ rest.take (20 + msg.len.toNat) := by
    have headers : (h.etherHeader ++ h.ipHeader).length = 34 := by
      rw [List.length_append, length_etherHeader]
      rfl
    have length : h.udpHeader.length = 8 := rfl
    rw [datagramOf, ← List.append_assoc, List.drop_take, List.drop_left' headers, List.take_append, length,
      List.take_of_length_le (by rw [packetSize]; omega), packetSize]
    congr 2
    omega
  refine ⟨?_, ?_⟩
  · rw [ipPart]
    exact ipSum
  · have length : (h.addresses ++ ([0, 17] ++ be16 h.udplen)).length = 12 := rfl
    have even : (h.addresses ++ ([0, 17] ++ be16 h.udplen)).length % 2 = 0 := congrArg (· % 2) length
    have length' : h.addresses.length = 8 := rfl
    have even' : h.addresses.length % 2 = 0 := congrArg (· % 2) length'
    have pseudo : wordSum ([0, 17] ++ be16 h.udplen) = 17 + h.udplen.toNat := by
      have sum := wordSum_be16_append h.udplen []
      rw [List.append_nil] at sum
      change 256 * 0 + 17 + wordSum (be16 h.udplen) = _
      rw [sum]
      rfl
    rw [pseudoHeaderOf, addressPart, lengthPart, datagram, wordSum_append even, wordSum_append even', pseudo]
    exact udpSum

end

end FirewallCore.Ead
