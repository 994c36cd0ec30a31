import Mathlib.Algebra.Order.Ring.Nat
import Mathlib.Data.List.Basic

/-!
The message encryption of the emergency access daemon (`ead-crypt.c`).

A body is a hash, a counter, the length of the padding and the data, padded to a
multiple of 64 bytes and encrypted block by block. Both sides of a session start from
one key and one counter; the receiver takes a counter only if it is ahead of the last
one it took, by at most `EAD_MAX_IV_INCR`.
-/

namespace FirewallCore.Ead

/-- What the daemon is compiled with: the byte order and the width of `size_t`, the block
cipher (`aes.c`) and the hash (`sha1.c`, `t_sha.c`). A hash state is kept as its bytes. -/
structure Platform where
  bigEndian : Bool
  sizeBits : Nat
  /-- `rijndaelEncrypt` under the key of a session, on a block of 16 bytes. -/
  rijndaelEncrypt : List UInt8 → List UInt8 → List UInt8
  rijndaelDecrypt : List UInt8 → List UInt8 → List UInt8
  shaInit : List UInt8
  shaTransform : List UInt8 → List UInt8 → List UInt8
  /-- `SHA1Init`, `SHA1Update` and `SHA1Final` over all the bytes. -/
  sha1 : List UInt8 → List UInt8

/-- A number from its bytes, highest first. -/
def ofBytes (bytes : List UInt8) : Nat := bytes.foldl (fun n b => 256 * n + b.toNat) 0

/-- The `w` lowest bytes of a number, highest first. -/
def toBytes (w n : Nat) : List UInt8 := (List.range w).reverse.map fun i => (n >>> (8 * i)).toUInt8

/-- `htonl` of a number, as it lies in the message. -/
def htonl (n : BitVec 32) : List UInt8 := toBytes 4 n.toNat

/-- `ntohl` of four bytes of a message. -/
def ntohl (bytes : List UInt8) : BitVec 32 := BitVec.ofNat 32 (ofBytes bytes)

/-- The globals of `ead-crypt.c`: the key of both AES contexts, the counters and what
feeds their increments. -/
structure Crypt where
  key : List UInt8
  rxIv : BitVec 32
  txIv : BitVec 32
  ivofsVec : BitVec 32
  ivofsIdx : Nat
  deriving DecidableEq

/-- `EAD_MAX_IV_INCR`, `EAD_ENC_PAD` and `sizeof(struct ead_msg_encrypted)`. -/
def maxIvIncr : BitVec 32 := 128
def encPad : Nat := 64
def encSize : Nat := 25

/-- `ead_set_key`. `ivofs_idx` goes on from where the last session left it. -/
def Crypt.setKey (p : Platform) (c : Crypt) (skey : List UInt8) : Crypt :=
  let iv := ntohl ((skey.drop 32).take 4) &&& 0x00ffffff
  let ofs := (skey.drop 36).take 4
  { c with
    key := skey.take 32, rxIv := iv, txIv := iv,
    ivofsVec := ntohl (if p.bigEndian then ofs else ofs.reverse) }

/-- `ead_check_rx_iv`: whether the counter is taken. -/
def Crypt.fresh (c : Crypt) (iv : BitVec 32) : Bool :=
  !(iv ≤ c.rxIv) && !(iv > c.rxIv + maxIvIncr)

/-- The step of the next `ead_get_tx_iv`. -/
def Crypt.ofs (c : Crypt) : BitVec 32 := 1 + ((c.ivofsVec >>> (2 * c.ivofsIdx)) &&& 3)

/-- `ead_get_tx_iv`: the state after it. What it returns is the new counter. -/
def Crypt.nextTxIv (c : Crypt) : Crypt :=
  { c with ivofsIdx := (c.ivofsIdx + 1) % 16, txIv := c.txIv + c.ofs }

/-- The loop of the cipher over the first `n` blocks of 16 bytes. -/
def mapBlocks (f : List UInt8 → List UInt8) : Nat → List UInt8 → List UInt8
  | 0, data => data
  | n + 1, data => f (data.take 16) ++ mapBlocks f n (data.drop 16)

/-- The loop of the hash over the first `n` blocks of 64 bytes. -/
def hashBlocks (p : Platform) : Nat → List UInt8 → List UInt8 → List UInt8
  | 0, hash, _ => hash
  | n + 1, hash, data => hashBlocks p n (p.shaTransform hash (data.take 64)) (data.drop 64)

/-- `ead_hash_message` over `len` bytes, with the stored hash set to zero. -/
def hashMessage (p : Platform) (enc : List UInt8) (len : Int) : List UInt8 :=
  hashBlocks p ((len.toNat + 63) / 64) p.shaInit (List.replicate 20 0 ++ enc.drop 20)

/-- The length of the padding of a message with `n` bytes of data. -/
def padOf (n : Nat) : Nat := (encPad - (n + encSize) % encPad) % encPad

/-- A message with its hash in front of it. -/
def withHash (p : Platform) (body : List UInt8) : List UInt8 :=
  hashMessage p (List.replicate 20 0 ++ body) (20 + body.length : Nat) ++ body

/-- The bytes of `struct ead_msg_encrypted` before their encryption. `buffer` is what lies
behind the data in the message buffer and becomes the padding. -/
def plainMessage (p : Platform) (iv : BitVec 32) (data buffer : List UInt8) : List UInt8 :=
  let pad := padOf data.length
  let padding := (buffer ++ List.replicate pad 0).take pad
  withHash p (htonl iv ++ pad.toUInt8 :: (data ++ padding))

/-- The body of a message, encrypted. -/
def sealBody (p : Platform) (key : List UInt8) (iv : BitVec 32) (data buffer : List UInt8) :
    List UInt8 :=
  let plain := plainMessage p iv data buffer
  mapBlocks (p.rijndaelEncrypt key) (plain.length / 16) plain

/-- `ead_encrypt_message`: the state after it and the body of the message. -/
def Crypt.encryptMessage (p : Platform) (c : Crypt) (data buffer : List UInt8) :
    Crypt × List UInt8 :=
  (c.nextTxIv, sealBody p c.key c.nextTxIv.txIv data buffer)

/-- `ead_decrypt_message` on a message of the length `len`: what it returns, and the
data in the buffer as it leaves it. -/
def Crypt.decryptMessage (p : Platform) (c : Crypt) (len : Int) (body : List UInt8) :
    Crypt × Int × List UInt8 :=
  if len = 0 ∨ 0 < len.tmod encPad then (c, 0, body)
  else
    let plain := mapBlocks (p.rijndaelDecrypt c.key) ((len.toNat + 15) / 16) body
    let iv := ntohl ((plain.drop 20).take 4)
    let pad := (plain.getD 24 0).toNat
    if encPad ≤ pad then (c, 0, plain)
    else if !c.fresh iv then (c, 0, plain)
    else if plain.take 20 ≠ hashMessage p plain len then ({ c with rxIv := iv }, 0, plain)
    else ({ c with rxIv := iv }, len - (pad + encSize : Nat), plain)

/-! ### What is encrypted is read back -/

theorem toNat_toUInt8 (n : Nat) : n.toUInt8.toNat = n % 256 := UInt8.toNat_ofNat'

theorem ntohl_htonl (n : BitVec 32) : ntohl (htonl n) = n := by
  have bytes : htonl n = [(n.toNat / 2 ^ 24).toUInt8, (n.toNat / 2 ^ 16).toUInt8,
      (n.toNat / 2 ^ 8).toUInt8, n.toNat.toUInt8] := by
    simp [htonl, toBytes, List.range_succ, Nat.shiftRight_eq_div_pow]
  have bound := n.isLt
  apply BitVec.eq_of_toNat_eq
  rw [ntohl, bytes, BitVec.toNat_ofNat]
  simp only [ofBytes, List.foldl_cons, List.foldl_nil, toNat_toUInt8]
  omega

@[simp] theorem length_htonl (n : BitVec 32) : (htonl n).length = 4 := by simp [htonl, toBytes]

/-- What the proofs ask of the cipher and the hash: blocks stay blocks, decryption undoes
encryption, and a hash has twenty bytes. -/
structure Platform.Sound (p : Platform) : Prop where
  length_encrypt : ∀ key block, block.length = 16 → (p.rijndaelEncrypt key block).length = 16
  decrypt_encrypt : ∀ key block, block.length = 16 →
    p.rijndaelDecrypt key (p.rijndaelEncrypt key block) = block
  length_init : p.shaInit.length = 20
  length_transform : ∀ hash block, hash.length = 20 → (p.shaTransform hash block).length = 20

section Sound

variable {p : Platform}

theorem length_mapBlocks {f : List UInt8 → List UInt8}
    (blocks : ∀ block, block.length = 16 → (f block).length = 16) {n : Nat} {data : List UInt8}
    (size : 16 * n ≤ data.length) : (mapBlocks f n data).length = data.length := by
  induction n generalizing data with
  | zero => rfl
  | succ n ih =>
    rw [mapBlocks, List.length_append, blocks _ (by simp; omega),
      ih (by rw [List.length_drop]; omega), List.length_drop]
    omega

/-- Decrypting the blocks gives back the data, and leaves what is behind it. -/
theorem mapBlocks_inverse {f g : List UInt8 → List UInt8}
    (blocks : ∀ block, block.length = 16 → (f block).length = 16)
    (inverse : ∀ block, block.length = 16 → g (f block) = block) {n : Nat}
    {data junk : List UInt8} (size : data.length = 16 * n) :
    mapBlocks g n (mapBlocks f n data ++ junk) = data ++ junk := by
  induction n generalizing data with
  | zero => rfl
  | succ n ih =>
    have first : (data.take 16).length = 16 := by simp; omega
    have rest : (data.drop 16).length = 16 * n := by rw [List.length_drop]; omega
    rw [mapBlocks, mapBlocks, List.append_assoc]
    rw [List.take_left' (blocks _ first), List.drop_left' (blocks _ first), inverse _ first,
      ih rest, ← List.append_assoc, List.take_append_drop]

theorem length_hashBlocks (sound : p.Sound) {n : Nat} {hash data : List UInt8}
    (size : hash.length = 20) : (hashBlocks p n hash data).length = 20 := by
  induction n generalizing hash data with
  | zero => exact size
  | succ n ih => exact ih (sound.length_transform _ _ size)

theorem hashBlocks_append {n : Nat} {hash data junk : List UInt8} (size : data.length = 64 * n) :
    hashBlocks p n hash (data ++ junk) = hashBlocks p n hash data := by
  induction n generalizing hash data with
  | zero => rfl
  | succ n ih =>
    rw [hashBlocks, hashBlocks, List.take_append_of_le_length (by omega),
      List.drop_append_of_le_length (by omega), ih (by rw [List.length_drop]; omega)]

/-- The fields of `struct ead_msg_encrypted`. -/
theorem read_parts {hash iv : List UInt8} (twenty : hash.length = 20) (four : iv.length = 4)
    (pad : UInt8) (data : List UInt8) :
    (hash ++ (iv ++ pad :: data)).take 20 = hash ∧
      ((hash ++ (iv ++ pad :: data)).drop 20).take 4 = iv ∧
      (hash ++ (iv ++ pad :: data)).getD 24 0 = pad ∧
      (hash ++ (iv ++ pad :: data)).drop 25 = data := by
  refine ⟨List.take_left' twenty, ?_, ?_, ?_⟩
  · rw [List.drop_left' twenty, List.take_left' four]
  · simp [List.getElem?_append, twenty, four]
  · have header : (hash ++ (iv ++ [pad])).length = 25 := by simp [twenty, four]
    have regroup : hash ++ (iv ++ pad :: data) = hash ++ (iv ++ [pad]) ++ data := by simp
    rw [regroup, List.drop_left' header]

/-- The hash stops at the length of the message. -/
theorem hashMessage_append {enc junk : List UInt8} {n : Nat} (size : enc.length = 64 * n)
    (positive : 0 < n) :
    hashMessage p (enc ++ junk) enc.length = hashMessage p enc enc.length := by
  have blocks : ((enc.length : Int).toNat + 63) / 64 = n := by omega
  simp only [hashMessage, blocks]
  rw [List.drop_append_of_le_length (by omega), ← List.append_assoc]
  exact hashBlocks_append (by simp; omega)

/-- The hash is over the bytes behind it, so it does not matter what stands in its place. -/
theorem hashMessage_place {hash body : List UInt8} {len : Int} (twenty : hash.length = 20) :
    hashMessage p (hash ++ body) len = hashMessage p (List.replicate 20 0 ++ body) len := by
  simp only [hashMessage, List.drop_left' twenty, List.drop_left' List.length_replicate]

theorem withHash_parts (sound : p.Sound) (body : List UInt8) :
    ∃ hash, hash.length = 20 ∧ withHash p body = hash ++ body ∧
      hash = hashMessage p (hash ++ body) (20 + body.length : Nat) := by
  have twenty : (hashMessage p (List.replicate 20 0 ++ body) (20 + body.length : Nat)).length = 20 :=
    length_hashBlocks sound sound.length_init
  exact ⟨_, twenty, rfl, (hashMessage_place twenty).symm⟩

/-- The parts of a message before its encryption. -/
theorem plainMessage_parts (sound : p.Sound) (iv : BitVec 32) (data buffer : List UInt8) :
    ∃ hash padding, hash.length = 20 ∧ padding.length = padOf data.length ∧
      plainMessage p iv data buffer =
        hash ++ (htonl iv ++ (padOf data.length).toUInt8 :: (data ++ padding)) ∧
      hash = hashMessage p (plainMessage p iv data buffer)
        (plainMessage p iv data buffer).length := by
  obtain ⟨hash, twenty, parts, hashed⟩ := withHash_parts sound
    (htonl iv ++ (padOf data.length).toUInt8 ::
      (data ++ (buffer ++ List.replicate (padOf data.length) 0).take (padOf data.length)))
  refine ⟨hash, _, twenty, by simp, parts, ?_⟩
  rw [plainMessage, parts, List.length_append, twenty]
  exact hashed

theorem padOf_lt (n : Nat) : padOf n < 64 := Nat.mod_lt _ (by decide)

/-- A message takes whole blocks. -/
theorem length_plainMessage (sound : p.Sound) (iv : BitVec 32) (data buffer : List UInt8) :
    (plainMessage p iv data buffer).length = 25 + data.length + padOf data.length ∧
      64 ∣ (plainMessage p iv data buffer).length := by
  obtain ⟨hash, padding, twenty, pad, parts, -⟩ := plainMessage_parts sound iv data buffer
  have size : (plainMessage p iv data buffer).length = 25 + data.length + padOf data.length := by
    rw [parts]
    simp only [List.length_append, List.length_cons, length_htonl, twenty, pad]
    omega
  refine ⟨size, ?_⟩
  rw [size, padOf, encPad, encSize]
  omega

theorem length_sealBody (sound : p.Sound) (key : List UInt8) (iv : BitVec 32)
    (data buffer : List UInt8) :
    (sealBody p key iv data buffer).length = (plainMessage p iv data buffer).length := by
  have blocks := (length_plainMessage sound iv data buffer).2
  exact length_mapBlocks (sound.length_encrypt key) (by omega)

/-- A body that was encrypted under the key is taken if its counter is ahead, and its data
come out as they went in. -/
theorem decryptMessage_sealBody (sound : p.Sound) (c : Crypt) (iv : BitVec 32)
    (data buffer junk : List UInt8) :
    ∃ plain padding, plain.drop encSize = data ++ padding ∧
      c.decryptMessage p (sealBody p c.key iv data buffer).length
          (sealBody p c.key iv data buffer ++ junk) =
        if c.fresh iv then ({ c with rxIv := iv }, (data.length : Int), plain)
        else (c, 0, plain) := by
  obtain ⟨hash, padding, twenty, pad, parts, hashed⟩ := plainMessage_parts sound iv data buffer
  obtain ⟨size, blocks⟩ := length_plainMessage sound iv data buffer
  have small := padOf_lt data.length
  have readBack : mapBlocks (p.rijndaelDecrypt c.key)
      (((sealBody p c.key iv data buffer).length + 15) / 16)
      (sealBody p c.key iv data buffer ++ junk) = plainMessage p iv data buffer ++ junk := by
    rw [length_sealBody sound]
    have whole : ((plainMessage p iv data buffer).length + 15) / 16
        = (plainMessage p iv data buffer).length / 16 := by omega
    rw [whole]
    exact mapBlocks_inverse (sound.length_encrypt c.key) (sound.decrypt_encrypt c.key) (by omega)
  have hashSame : hashMessage p (plainMessage p iv data buffer ++ junk)
      (sealBody p c.key iv data buffer).length = hash := by
    rw [length_sealBody sound]
    obtain ⟨n, whole⟩ := blocks
    rw [hashMessage_append whole (by omega), ← hashed]
  have positive : ¬((sealBody p c.key iv data buffer).length : Int) = 0 ∧
      ¬ 0 < ((sealBody p c.key iv data buffer).length : Int).tmod encPad := by
    rw [length_sealBody sound, encPad]
    have exact' := Int.tmod_eq_zero_of_dvd (Int.natCast_dvd_natCast.mpr blocks)
    rw [exact']
    omega
  rw [parts, List.append_assoc, List.append_assoc, List.cons_append, List.append_assoc]
    at readBack hashSame
  obtain ⟨hashRead, ivRead, padRead, dataRead⟩ :=
    read_parts twenty (length_htonl iv) (padOf data.length).toUInt8 (data ++ (padding ++ junk))
  refine ⟨_, padding ++ junk, dataRead, ?_⟩
  have smallPad : ¬ encPad ≤ (padOf data.length).toUInt8.toNat := by
    rw [toNat_toUInt8, encPad]
    omega
  simp only [Crypt.decryptMessage, positive, or_self, if_false, Int.toNat_natCast, readBack, ivRead,
    ntohl_htonl, padRead, smallPad, hashRead, hashSame]
  cases c.fresh iv with
  | false => simp
  | true =>
    have length : ((sealBody p c.key iv data buffer).length : Int)
        - ((padOf data.length).toUInt8.toNat + encSize : Nat) = data.length := by
      rw [length_sealBody sound, size, toNat_toUInt8, encSize]
      omega
    simp only [Bool.not_true, Bool.false_eq_true, if_false, ne_eq, not_true_eq_false, length, if_true]

end Sound

end FirewallCore.Ead

/-!
The server side of the password authentication (`tinysrp/t_server.c`) and the lookup of
the password (`prepare_password` of `ead.c`). The big integers of the source are natural
numbers here, and a SHA-1 context is the bytes that were fed to it.
-/

namespace FirewallCore.Ead

/-- `BigIntegerToBytes`: the bytes of a number without leading zeros. -/
def bytesOfNat (n : Nat) : List UInt8 := if n = 0 then [] else toBytes (n.log2 / 8 + 1) n

/-- `struct t_confent`: the parameters that `gettcid` gives out. -/
structure TConfent where
  index : Nat
  modulus : List UInt8
  generator : List UInt8
  deriving DecidableEq

/-- `struct t_pwent`. -/
structure TPwent where
  name : List UInt8
  password : List UInt8
  salt : List UInt8
  deriving DecidableEq

/-- `struct t_server`. What a function has not filled in yet is `none`. The source keeps
the name only in the hash; `id` stands for the block that `malloc` returned. -/
structure TServer where
  id : Nat
  name : List UInt8
  n : List UInt8
  g : List UInt8
  v : List UInt8
  s : List UInt8
  b : List UInt8 := []
  B : Option (List UInt8) := none
  hash : List UInt8 := []
  ckhash : List UInt8
  oldhash : List UInt8 := []
  oldckhash : List UInt8 := []
  sessionKey : Option (List UInt8) := none
  sessionResponse : Option (List UInt8) := none
  deriving DecidableEq

/-- `t_serveropenraw`, where there is memory. -/
def tServerOpenRaw (p : Platform) (id : Nat) (ent : TPwent) (tce : TConfent) : TServer where
  id := id
  name := ent.name
  n := tce.modulus
  g := tce.generator
  v := ent.password
  s := ent.salt
  ckhash := List.zipWith (· ^^^ ·) (p.sha1 tce.modulus) (p.sha1 tce.generator) ++
    p.sha1 ent.name ++ ent.salt

/-- `t_servergenexp` with the bytes of `t_random`. It returns the address of `B`. -/
def TServer.genExp (ts : TServer) (random : List UInt8) : TServer :=
  let b := random.take (min ts.n.length 32)
  let n := ofBytes ts.n
  let sum := ofBytes ts.g ^ ofBytes b % n + ofBytes ts.v
  let B := bytesOfNat (if n < sum then sum - n else sum)
  { ts with b := b, B := some B, oldckhash := ts.oldckhash ++ B }

/-- `t_sessionkey`: the hashes of the odd and of the even bytes, interleaved. -/
def tSessionKey (p : Platform) (sk : List UInt8) : List UInt8 :=
  let sk := (sk.dropWhile (· == 0)).reverse
  let half := fun first => (List.range (sk.length / 2)).map fun i => sk.getD (2 * i + first) 0
  (List.zipWith (fun x y => [x, y]) (p.sha1 (half 0)) (p.sha1 (half 1))).flatten

/-- The key that `t_servergetkey` computes from the number of the client, if the number
is acceptable. -/
def TServer.keyFrom (p : Platform) (ts : TServer) (clientval : List UInt8) :
    Option (List UInt8) :=
  let n := ofBytes ts.n
  let u := ofBytes ((p.sha1 (ts.B.getD [])).take 4)
  let res := ofBytes ts.v ^ u % n * ofBytes clientval % n
  if res ≤ 1 ∨ res + 1 = n then none
  else some (tSessionKey p (bytesOfNat (res ^ ofBytes ts.b % n)))

/-- `t_servergetkey`: the context after it and what it returns. -/
def TServer.getKey (p : Platform) (ts : TServer) (clientval : List UInt8) :
    TServer × Option (List UInt8) :=
  let fed := { ts with
    ckhash := ts.ckhash ++ clientval ++ ts.B.getD []
    oldhash := ts.oldhash ++ clientval
    hash := ts.hash ++ clientval }
  match ts.keyFrom p clientval with
  | none => (fed, none)
  | some key =>
    ({ fed with
        sessionKey := some key
        oldhash := fed.oldhash ++ key
        oldckhash := fed.oldckhash ++ key
        ckhash := fed.ckhash ++ key }, some key)

/-- `t_serververify`, `true` for a response that is accepted. -/
def TServer.verify (p : Platform) (ts : TServer) (resp : List UInt8) : TServer × Bool :=
  let expected := p.sha1 ts.ckhash
  if p.sha1 ts.oldckhash = resp then
    ({ ts with sessionResponse := some (p.sha1 ts.oldhash) }, true)
  else if expected = resp then
    let proof := p.sha1 (ts.hash ++ expected ++ ts.sessionKey.getD [])
    ({ ts with sessionResponse := some proof }, true)
  else (ts, false)

/-! ### The password file -/

/-- `MAXSALTLEN` and `MAXPARAMLEN`. -/
def maxSaltLen : Nat := 32
def maxParamLen : Nat := 256

/-- What the loop of `prepare_password` does with a line: the salt that it leaves in
`pw_saltbuf`, if it gets that far, and the password, if the line has one. -/
def readLine (username line : List UInt8) : Option (List UInt8) × Option (List UInt8) :=
  let line := line.takeWhile (· != 0)
  if line.take username.length ≠ username then (none, none)
  else if line.getD username.length 0 ≠ 58 then (none, none)
  else
    let str := line.drop (username.length + 1)
    if str.take 3 ≠ [36, 49, 36] then (none, none)
    else
      match (str.drop 3).findIdx? (· == 36) with
      | none => (none, none)
      | some i =>
        if maxSaltLen ≤ i + 3 then (none, none)
        else
          match (str.drop (i + 3)).findIdx? (· == 58) with
          | none => (some (str.take (i + 3)), none)
          | some j =>
            if maxParamLen ≤ i + 3 + j then (some (str.take (i + 3)), none)
            else (some (str.take (i + 3)), some (str.take (i + 3 + j)))

/-- The loop over the lines of the file as `fgets` returns them, from the contents of
`pw_saltbuf` on. -/
def readLines (username : List UInt8) : List (List UInt8) → List UInt8 →
    List UInt8 × Option (List UInt8)
  | [], saltbuf => (saltbuf, none)
  | line :: rest, saltbuf =>
    let read := readLine username line
    match read.2 with
    | some password => (read.1.getD saltbuf, some password)
    | none => readLines username rest (read.1.getD saltbuf)

/-- The verifier `v` of `prepare_password`; `tpe.salt.len` is 0 throughout. -/
def verifierOf (p : Platform) (tce : TConfent) (username password : List UInt8) : List UInt8 :=
  let x := ofBytes (p.sha1 (p.sha1 (username ++ [58] ++ password)))
  bytesOfNat (ofBytes tce.generator ^ x % ofBytes tce.modulus)

end FirewallCore.Ead
