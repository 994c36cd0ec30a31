import FirewallCore.Lib.Cache
import FirewallCore.Lib.Checksums
import FirewallCore.Lib.Run
import FirewallCore.Net.Addr
import Mathlib.Algebra.Order.Ring.Nat
import Mathlib.Data.List.Dedup
import Mathlib.Data.Set.Defs

/-!
The checker of hosts against a server of blocked hashes (`filtering/hashprefix`).

The server is asked for the prefixes of hashes and answers with whole hashes.
What it answers is cached by prefix: the entry of a prefix has the time when it
expires and all hashes with the prefix, which may be none.

A call of `Check` comes with what it gets from outside: the times, the answers
of the server, and the order in which Go goes over a map.
-/

namespace FirewallCore.Hashprefix

open FirewallCore.Lib FirewallCore.Net

abbrev Bytes := List UInt8

/-! ### Hashes -/

/-- `hostnameHash`. -/
structure HostnameHash where
  bytes : Bytes
  size : bytes.length = 32
  deriving DecidableEq

namespace HostnameHash

/-- The first `prefixLen` bytes. -/
def pref (hash : HostnameHash) : Bytes := hash.bytes.take 2

/-- `copy` to a hash of zeros. -/
def copy (src : Bytes) : HostnameHash where
  bytes := (src ++ List.replicate 32 0).take 32
  size := by simp

/-- `sha256.Sum256`. -/
def sum256 (s : String) : HostnameHash := ⟨sha256 s.toUTF8.data.toList, length_sha256 _⟩

end HostnameHash

/-- `findMatch`. -/
def findMatch (a b : List HostnameHash) : Bool := a.any fun hash => b.contains hash

/-- `hex.EncodeToString`. -/
def encodeHex : Bytes → List Char
  | [] => []
  | b :: rest => Nat.digitChar (b.toNat / 16) :: Nat.digitChar (b.toNat % 16) :: encodeHex rest

/-- `hex.DecodeString`. -/
def decodeHex : List Char → Option Bytes
  | [] => some []
  | [_] => none
  | a :: b :: rest => do
    let x ← readByte a b
    let rest ← decodeHex rest
    return x :: rest

/-! ### Items of the cache -/

/-- `cacheItem`, with nanoseconds since 1970. -/
structure CacheItem where
  expiry : Int
  hashes : List HostnameHash

/-- `binary.BigEndian.AppendUint64` of a number of 64 bits, signed. -/
def putInt64 (n : Int) : Bytes :=
  let value := (n % 2 ^ 64).toNat
  (List.range 8).reverse.map fun i => UInt8.ofNat (value >>> (8 * i))

/-- `binary.BigEndian.Uint64`, signed. -/
def int64 (data : Bytes) : Int :=
  let value : Nat := data.foldl (fun n b => 256 * n + b.toNat) 0
  if value < 2 ^ 63 then value else (value : Int) - 2 ^ 64

/-- The loop of `toCacheItem`. -/
def readHashes : Nat → Bytes → List HostnameHash
  | 0, _ => []
  | n + 1, data => HostnameHash.copy (data.take 32) :: readHashes n (data.drop 32)

/-- `toCacheItem`. It crashes on data of a length that no item has. -/
def toCacheItem (data : Bytes) : Option CacheItem :=
  if data.length < 8 ∨ (data.length - 8) % 32 ≠ 0 then none
  else some ⟨1000000000 * int64 (data.take 8), readHashes ((data.length - 8) / 32) (data.drop 8)⟩

/-- `fromCacheItem`. -/
def fromCacheItem (item : CacheItem) : Bytes :=
  putInt64 (item.expiry / 1000000000) ++ item.hashes.flatMap (·.bytes)

/-! ### The checker -/

/-- Records of an answer. -/
inductive RR where
  | txt (txt : List String)
  | other

/-- `Checker` without its cache, and the two functions of packages that it uses. -/
structure Checker where
  txtSuffix : String
  cacheTime : Int
  /-- `publicsuffix.PublicSuffix`. -/
  publicSuffix : String → String × Bool
  /-- `netutil.Subdomains`. -/
  subdomains : String → List String

/-- What a call of `Check` gets. -/
structure Call where
  host : String
  now : Int
  /-- When the entry of a prefix is stored. -/
  storedAt : Bytes → Int
  exchange : String → Except String (List RR)
  /-- The order in which a map with these keys is iterated over. -/
  iterate : List Bytes → List Bytes

/-- `host` behind its fourth dot from the end; the characters come last first. -/
def lastLabels : Nat → List Char → List Char
  | _, [] => []
  | nDots, r :: rest =>
    let nDots := if r = '.' then nDots + 1 else nDots
    if nDots = 4 then [] else r :: lastLabels nDots rest

namespace Checker

variable (ck : Checker)

/-- `hostnameToHashes`. -/
def hostnameToHashes (host : String) : List HostnameHash :=
  let (pubSuf, icann) := ck.publicSuffix host
  let pubSuf := if icann then pubSuf else ""
  let host := String.ofList (lastLabels 0 host.toList.reverse).reverse
  ((ck.subdomains host).takeWhile (· ≠ pubSuf)).map HostnameHash.sum256

/-- `getQuestion`. -/
def getQuestion (hashes : List HostnameHash) : String :=
  String.ofList (hashes.flatMap fun hash => encodeHex hash.pref ++ ['.']) ++ ck.txtSuffix

end Checker

/-- `appendHashesFromTXT`. -/
def hashesFromTXT (txt : List String) : List HostnameHash :=
  txt.filterMap fun t =>
    if t.utf8ByteSize ≠ 64 then none
    else (decodeHex t.toList).map HostnameHash.copy

/-- The hashes of an answer. -/
def receivedHashes (resp : List RR) : List HostnameHash :=
  resp.flatMap fun
    | .txt txt => hashesFromTXT txt
    | .other => []

/-- `processAnswer`. -/
def processAnswer (hashesToRequest : List HostnameHash) (resp : List RR) :
    Bool × List HostnameHash :=
  (findMatch hashesToRequest (receivedHashes resp), receivedHashes resp)

/-- What `findInCache` finds. -/
inductive Found where
  | found (blocked : Bool)
  | request (hashesToRequest : List HostnameHash)
  deriving DecidableEq

section Cache

variable (c : Cache Bytes Bytes) (ck : Checker)

/-- The loop of `findInCache`. The first `i` places of `hashes` have been written to; they are
behind the one that is read. -/
def findLoop (now : Int) :
    List HostnameHash → Nat → List HostnameHash → c.State → Option (Found × c.State)
  | [], i, hashes, s => some (if i = 0 then .found false else .request (hashes.take i), s)
  | hash :: rest, i, hashes, s =>
    match c.get s hash.pref with
    | (none, s) => findLoop now rest (i + 1) (hashes.set i hash) s
    | (some data, s) =>
      match toCacheItem data with
      | none => none
      | some item =>
        if now > item.expiry then findLoop now rest (i + 1) (hashes.set i hash) s
        else if findMatch hashes item.hashes then some (.found true, s)
        else findLoop now rest i hashes s

/-- `findInCache`. -/
def findInCache (now : Int) (hashes : List HostnameHash) (s : c.State) : Option (Found × c.State) :=
  findLoop c now hashes 0 hashes s

/-- `setCache`. -/
def setCache (now : Int) (s : c.State) (pref : Bytes) (hashes : List HostnameHash) : c.State :=
  c.set s pref (fromCacheItem ⟨now + ck.cacheTime, hashes⟩)

/-- The keys of `hashToStore`. -/
def prefixes (respHashes : List HostnameHash) : List Bytes := (respHashes.map (·.pref)).dedup

/-- The first loops of `storeInCache`. -/
def storeAnswer (call : Call) (respHashes : List HostnameHash) (s : c.State) : c.State :=
  (call.iterate (prefixes respHashes)).foldl
    (fun s pref => setCache c ck (call.storedAt pref) s pref (respHashes.filter (·.pref = pref))) s

/-- The body of the last loop. -/
def storeEmpty (call : Call) (s : c.State) (hash : HostnameHash) : c.State :=
  match c.get s hash.pref with
  | (none, s) => setCache c ck (call.storedAt hash.pref) s hash.pref []
  | (some _, s) => s

/-- `storeInCache`. -/
def storeInCache (call : Call) (hashesToRequest respHashes : List HostnameHash) (s : c.State) :
    c.State :=
  hashesToRequest.foldl (storeEmpty c ck call) (storeAnswer c ck call respHashes s)

/-- `Check`. It does not return if it crashes. -/
def check (s : c.State) (call : Call) : Option (c.State × Except String Bool) :=
  match findInCache c call.now (ck.hostnameToHashes call.host) s with
  | none => none
  | some (.found blocked, s) => some (s, .ok blocked)
  | some (.request hashesToRequest, s) =>
    match call.exchange (ck.getQuestion hashesToRequest) with
    | .error err => some (s, .error ("getting hashes: " ++ err))
    | .ok resp =>
      let (matched, received) := processAnswer hashesToRequest resp
      some (storeInCache c ck call hashesToRequest received s, .ok matched)

end Cache

end FirewallCore.Hashprefix

/-!
What calls of `Check` answer, in every run.

The invariant says that the entry of a prefix has exactly the blocked hashes with
the prefix. `storeInCache` keeps it as long as its last loop finds an entry for
each prefix that the answer has hashes for (`KeepsAnswer`). If there is none,
because the cache has dropped or refused the entry that was set a moment ago, the
loop sets an empty one.
-/

namespace FirewallCore.Hashprefix

open FirewallCore.Lib FirewallCore.Net

/-! ### Texts and items -/

theorem decodeHex_encodeHex (bytes : Bytes) : decodeHex (encodeHex bytes) = some bytes := by
  induction bytes with
  | nil => rfl
  | cons b rest ih =>
    simp only [encodeHex, decodeHex, readByte_digits, ih]
    rfl

theorem length_encodeHex (bytes : Bytes) : (encodeHex bytes).length = 2 * bytes.length := by
  induction bytes with
  | nil => rfl
  | cons b rest ih =>
    simp only [encodeHex, List.length_cons, ih]
    omega

theorem utf8Size_digitChar {n : Nat} (small : n < 16) : (Nat.digitChar n).utf8Size = 1 := by
  interval_cases n <;> decide

theorem utf8Size_of_mem_encodeHex {bytes : Bytes} {c : Char} (member : c ∈ encodeHex bytes) :
    c.utf8Size = 1 := by
  induction bytes with
  | nil => cases member
  | cons b rest ih =>
    have bound := b.toNat_lt
    simp only [encodeHex, List.mem_cons] at member
    rcases member with rfl | rfl | member
    · exact utf8Size_digitChar (by omega)
    · exact utf8Size_digitChar (by omega)
    · exact ih member

/-- Characters of one byte each. -/
theorem utf8ByteSize_ofList {chars : List Char} (single : ∀ c ∈ chars, c.utf8Size = 1) :
    (String.ofList chars).utf8ByteSize = chars.length := by
  change chars.utf8Encode.size = chars.length
  induction chars with
  | nil => rfl
  | cons c rest ih =>
    rw [List.utf8Encode_cons, ByteArray.size_append,
      ih fun c member => single c (List.mem_cons_of_mem _ member)]
    rw [List.utf8Encode_singleton, List.size_toByteArray, String.length_utf8EncodeChar,
      single c (by simp)]
    rw [List.length_cons, Nat.add_comm]

theorem HostnameHash.copy_bytes (hash : HostnameHash) : HostnameHash.copy hash.bytes = hash := by
  have whole : (hash.bytes ++ List.replicate 32 0).take 32 = hash.bytes := by
    rw [List.take_append_of_le_length (Nat.le_of_eq hash.size.symm),
      List.take_of_length_le (Nat.le_of_eq hash.size)]
  cases hash with
  | mk bytes size => simp only [copy, whole]

theorem readHashes_flatMap (hashes : List HostnameHash) :
    readHashes hashes.length (hashes.flatMap (·.bytes)) = hashes := by
  induction hashes with
  | nil => rfl
  | cons hash rest ih =>
    rw [List.length_cons, readHashes, List.flatMap_cons, List.take_left' hash.size,
      List.drop_left' hash.size, ih,
      HostnameHash.copy_bytes]

theorem length_flatMap_bytes (hashes : List HostnameHash) :
    (hashes.flatMap (·.bytes)).length = 32 * hashes.length := by
  induction hashes with
  | nil => rfl
  | cons hash rest ih =>
    rw [List.flatMap_cons, List.length_append, hash.size, ih, List.length_cons]
    omega

theorem length_putInt64 (n : Int) : (putInt64 n).length = 8 := rfl

/-- What is stored comes back with all its hashes. -/
theorem toCacheItem_fromCacheItem (item : CacheItem) :
    ∃ expiry, toCacheItem (fromCacheItem item) = some ⟨expiry, item.hashes⟩ := by
  have length : (fromCacheItem item).length = 8 + 32 * item.hashes.length := by
    rw [fromCacheItem, List.length_append, length_putInt64, length_flatMap_bytes]
  have fits : ¬((fromCacheItem item).length < 8 ∨ ((fromCacheItem item).length - 8) % 32 ≠ 0) := by
    rw [length]
    omega
  have count : ((fromCacheItem item).length - 8) / 32 = item.hashes.length := by
    rw [length]
    omega
  have rest : (fromCacheItem item).drop 8 = item.hashes.flatMap (·.bytes) :=
    List.drop_left' (length_putInt64 _)
  exact ⟨1000000000 * int64 ((fromCacheItem item).take 8), by
    rw [toCacheItem, if_neg fits, count, rest, readHashes_flatMap]⟩

theorem findMatch_iff {a b : List HostnameHash} : findMatch a b = true ↔ ∃ hash ∈ a, hash ∈ b := by
  simp [findMatch]

/-! ### What is asked of the server and the cache -/

section Spec

variable (c : Cache Bytes Bytes) (ck : Checker) (blocked : Set HostnameHash)

/-- The answer has exactly the blocked hashes that have a requested prefix. -/
def Serves (hashesToRequest : List HostnameHash) (resp : List RR) : Prop :=
  ∀ text, (∃ txt, .txt txt ∈ resp ∧ text ∈ txt) ↔
    ∃ hash ∈ blocked, (∃ requested ∈ hashesToRequest, requested.pref = hash.pref) ∧
      text = String.ofList (encodeHex hash.bytes)

/-- The server answers the request that a call makes, if it makes one. -/
structure Served (s : c.State) (call : Call) : Prop where
  iterate : ∀ keys, (call.iterate keys).Perm keys
  exchange : ∀ hashesToRequest s', findInCache c call.now (ck.hostnameToHashes call.host) s =
    some (.request hashesToRequest, s') →
      ∃ resp, call.exchange (ck.getQuestion hashesToRequest) = .ok resp ∧
        Serves blocked hashesToRequest resp

/-- The last loop of `storeInCache` finds an entry for each prefix that the answer has hashes
for. -/
def Spares (call : Call) (respHashes : List HostnameHash) : List HostnameHash → c.State → Prop
  | [], _ => True
  | hash :: rest, s =>
    ((c.get s hash.pref).1 = none → ∀ received ∈ respHashes, received.pref ≠ hash.pref) ∧
      Spares call respHashes rest (storeEmpty c ck call s hash)

/-- A call in which the cache keeps the answer until all of it is stored. -/
def KeepsAnswer (s : c.State) (call : Call) : Prop :=
  ∀ hashesToRequest s' resp, findInCache c call.now (ck.hostnameToHashes call.host) s =
      some (.request hashesToRequest, s') →
    call.exchange (ck.getQuestion hashesToRequest) = .ok resp →
    Spares c ck call (receivedHashes resp) hashesToRequest
      (storeAnswer c ck call (receivedHashes resp) s')

/-- The server does what it has to, and the cache keeps the answer. -/
def Allowed (s : c.State) (call : Call) : Prop :=
  Served c ck blocked s call ∧ KeepsAnswer c ck s call

/-- The entry of a prefix has the blocked hashes with the prefix. -/
def Right (pref data : Bytes) : Prop :=
  ∃ item, toCacheItem data = some item ∧
    ∀ hash, hash ∈ item.hashes ↔ hash ∈ blocked ∧ hash.pref = pref

/-- What is found about some hashes is so. -/
def Correct (hashes : List HostnameHash) : Found → Prop
  | .found isBlocked => isBlocked = true ↔ ∃ hash ∈ hashes, hash ∈ blocked
  | .request hashesToRequest =>
    (∀ hash ∈ hashesToRequest, hash ∈ hashes) ∧
      ∀ hash ∈ hashes, hash ∈ blocked → hash ∈ hashesToRequest

end Spec

variable {c : Cache Bytes Bytes} {ck : Checker} {blocked : Set HostnameHash} {call : Call}

theorem right_fromCacheItem {pref : Bytes} {expiry : Int} {hashes : List HostnameHash}
    (whole : ∀ hash, hash ∈ hashes ↔ hash ∈ blocked ∧ hash.pref = pref) :
    Right blocked pref (fromCacheItem ⟨expiry, hashes⟩) := by
  obtain ⟨expiry', stored⟩ := toCacheItem_fromCacheItem ⟨expiry, hashes⟩
  exact ⟨⟨expiry', hashes⟩, stored, whole⟩

/-! ### Looking up -/

section Lookup

variable {s : c.State} {now : Int} {hashes rest : List HostnameHash}

theorem take_set_succ {i : Nat} (hash : HostnameHash) (inside : i < hashes.length) :
    (hashes.set i hash).take (i + 1) = hashes.take i ++ [hash] := by
  rw [List.take_add_one, List.getElem?_set_self inside, List.take_set_of_le (Nat.le_refl i)]
  rfl

/-- The loop, when the places from `k` on have not been written to. What is not left to read is not
blocked or will be requested. -/
theorem findLoop_correct {all : List HostnameHash} {k i : Nat} (sound : c.Sound (Right blocked) s)
    (unread : hashes.drop k = rest) (behind : i ≤ k) (subset : ∀ hash ∈ hashes, hash ∈ all)
    (covered : ∀ hash ∈ all, hash ∈ rest ∨ (hash ∈ blocked → hash ∈ hashes.take i)) :
    ∃ found s', findLoop c now rest i hashes s = some (found, s') ∧ c.Sound (Right blocked) s' ∧
      Correct blocked all found := by
  induction rest generalizing k i hashes s with
  | nil =>
    refine ⟨_, s, rfl, sound, ?_⟩
    have requested (hash : HostnameHash) (member : hash ∈ all) :
        hash ∈ blocked → hash ∈ hashes.take i :=
      (covered hash member).resolve_left List.not_mem_nil
    split
    · rename_i nothing
      subst nothing
      refine iff_of_false Bool.false_ne_true ?_
      rintro ⟨hash, member, isBlocked⟩
      cases requested hash member isBlocked
    · exact ⟨fun hash member => subset hash (List.mem_of_mem_take member), requested⟩
  | cons hash rest ih =>
    have bound : k < hashes.length := by
      by_contra outside
      rw [List.drop_eq_nil_of_le (Nat.le_of_not_lt outside)] at unread
      cases unread
    have here : hash ∈ hashes := List.mem_of_mem_drop (unread ▸ List.mem_cons_self)
    have unread' : hashes.drop (k + 1) = rest := by
      rw [← List.drop_drop, unread, List.drop_one, List.tail_cons]
    have missed {s' : c.State} (sound' : c.Sound (Right blocked) s') :
        ∃ found s'', findLoop c now rest (i + 1) (hashes.set i hash) s' = some (found, s'') ∧
          c.Sound (Right blocked) s'' ∧ Correct blocked all found := by
      apply ih sound' (k := k + 1)
      · rw [List.drop_set_of_lt (by omega), unread']
      · omega
      · intro other member
        rcases List.mem_or_eq_of_mem_set member with member | rfl
        · exact subset other member
        · exact subset other here
      · intro other member
        rw [take_set_succ hash (by omega), List.mem_append, List.mem_singleton]
        rcases covered other member with left | requested
        · rcases List.mem_cons.mp left with rfl | left
          · exact .inr fun _ => .inr rfl
          · exact .inl left
        · exact .inr fun isBlocked => .inl (requested isBlocked)
    have sound' := sound.get hash.pref
    unfold findLoop
    cases found : c.get s hash.pref with
    | mk entry s' =>
      rw [found] at sound'
      cases entry with
      | none => exact missed sound'
      | some data =>
        obtain ⟨item, stored, whole⟩ := sound hash.pref data (by rw [found])
        simp only [stored]
        split
        · exact missed sound'
        · split
          · rename_i matched
            obtain ⟨other, member, inItem⟩ := findMatch_iff.mp matched
            exact ⟨_, s', rfl, sound', iff_of_true rfl
              ⟨other, subset other member, ((whole other).mp inItem).1⟩⟩
          · rename_i unmatched
            apply ih sound' unread' (by omega) subset
            intro other member
            rcases covered other member with left | requested
            · rcases List.mem_cons.mp left with rfl | left
              · refine .inr fun isBlocked => ?_
                have inItem := (whole other).mpr ⟨isBlocked, rfl⟩
                exact absurd (findMatch_iff.mpr ⟨other, here, inItem⟩) unmatched
              · exact .inl left
            · exact .inr requested

theorem findInCache_correct (sound : c.Sound (Right blocked) s) (now : Int)
    (hashes : List HostnameHash) :
    ∃ found s', findInCache c now hashes s = some (found, s') ∧ c.Sound (Right blocked) s' ∧
      Correct blocked hashes found :=
  findLoop_correct sound rfl (Nat.zero_le 0) (fun _ member => member) fun _ member => .inl member

end Lookup

/-! ### Answers -/

section Answers

variable {s : c.State} {hashesToRequest : List HostnameHash} {resp : List RR}

/-- The text of a hash is read back. -/
theorem hashesFromTXT_text (hash : HostnameHash) :
    hashesFromTXT [String.ofList (encodeHex hash.bytes)] = [hash] := by
  have size : (String.ofList (encodeHex hash.bytes)).utf8ByteSize = 64 := by
    rw [utf8ByteSize_ofList fun c => utf8Size_of_mem_encodeHex, length_encodeHex, hash.size]
  simp [hashesFromTXT, size, decodeHex_encodeHex, HostnameHash.copy_bytes]

theorem mem_hashesFromTXT {txt : List String} {hash : HostnameHash} :
    hash ∈ hashesFromTXT txt ↔ ∃ text ∈ txt, hash ∈ hashesFromTXT [text] := by
  simp [hashesFromTXT]

theorem mem_receivedHashes (serves : Serves blocked hashesToRequest resp) (hash : HostnameHash) :
    hash ∈ receivedHashes resp ↔
      hash ∈ blocked ∧ ∃ requested ∈ hashesToRequest, requested.pref = hash.pref := by
  unfold receivedHashes
  rw [List.mem_flatMap]
  constructor
  · rintro ⟨record, member, received⟩
    cases record with
    | other => cases received
    | txt txt =>
      obtain ⟨text, listed, inText⟩ := mem_hashesFromTXT.mp received
      obtain ⟨other, isBlocked, requested, rfl⟩ := (serves text).mp ⟨txt, member, listed⟩
      rw [hashesFromTXT_text, List.mem_singleton] at inText
      subst inText
      exact ⟨isBlocked, requested⟩
  · rintro ⟨isBlocked, requested⟩
    obtain ⟨txt, member, listed⟩ := (serves (String.ofList (encodeHex hash.bytes))).mpr
      ⟨hash, isBlocked, requested, rfl⟩
    refine ⟨.txt txt, member, mem_hashesFromTXT.mpr ⟨_, listed, ?_⟩⟩
    rw [hashesFromTXT_text]
    exact List.mem_singleton_self hash

/-- The verdict on an answer. -/
theorem processAnswer_matched (serves : Serves blocked hashesToRequest resp) :
    (processAnswer hashesToRequest resp).1 = true ↔ ∃ hash ∈ hashesToRequest, hash ∈ blocked := by
  simp only [processAnswer, findMatch_iff, mem_receivedHashes serves]
  constructor
  · rintro ⟨hash, member, isBlocked, -⟩
    exact ⟨hash, member, isBlocked⟩
  · rintro ⟨hash, member, isBlocked⟩
    exact ⟨hash, member, isBlocked, hash, member, rfl⟩

end Answers

/-! ### Storing -/

section Store

variable {s : c.State} {hashesToRequest : List HostnameHash} {resp : List RR}

theorem mem_prefixes {hashes : List HostnameHash} {pref : Bytes} :
    pref ∈ prefixes hashes ↔ ∃ hash ∈ hashes, hash.pref = pref := by
  simp [prefixes]

/-- The entries of an answer are right. -/
theorem storeAnswer_sound (sound : c.Sound (Right blocked) s)
    (iterate : ∀ keys, (call.iterate keys).Perm keys)
    (serves : Serves blocked hashesToRequest resp) :
    c.Sound (Right blocked) (storeAnswer c ck call (receivedHashes resp) s) := by
  have keys : ∀ pref ∈ call.iterate (prefixes (receivedHashes resp)),
      ∃ hash ∈ receivedHashes resp, hash.pref = pref :=
    fun pref member => mem_prefixes.mp ((iterate _).mem_iff.mp member)
  unfold storeAnswer
  revert keys
  generalize call.iterate (prefixes (receivedHashes resp)) = prefs
  intro keys
  induction prefs generalizing s with
  | nil => exact sound
  | cons pref prefs ih =>
    refine ih (sound.set (right_fromCacheItem fun hash => ?_))
      fun other member => keys other (List.mem_cons_of_mem _ member)
    obtain ⟨first, received, samePref⟩ := keys pref List.mem_cons_self
    obtain ⟨-, requested, listed, isPref⟩ := (mem_receivedHashes serves first).mp received
    rw [List.mem_filter, mem_receivedHashes serves, decide_eq_true_iff]
    constructor
    · rintro ⟨⟨isBlocked, -⟩, same⟩
      exact ⟨isBlocked, same⟩
    · rintro ⟨isBlocked, same⟩
      exact ⟨⟨isBlocked, requested, listed, isPref.trans (samePref.trans same.symm)⟩, same⟩

/-- An empty entry is right if the answer has no hash with the prefix. -/
theorem storeEmpty_sound {hash : HostnameHash} (sound : c.Sound (Right blocked) s)
    (serves : Serves blocked hashesToRequest resp) (requested : hash ∈ hashesToRequest)
    (spared : (c.get s hash.pref).1 = none →
      ∀ received ∈ receivedHashes resp, received.pref ≠ hash.pref) :
    c.Sound (Right blocked) (storeEmpty c ck call s hash) := by
  have sound' := sound.get hash.pref
  unfold storeEmpty
  cases found : c.get s hash.pref with
  | mk entry s' =>
    rw [found] at sound' spared
    cases entry with
    | some data => exact sound'
    | none =>
      refine sound'.set (right_fromCacheItem fun other => iff_of_false List.not_mem_nil ?_)
      rintro ⟨isBlocked, same⟩
      exact spared rfl other ((mem_receivedHashes serves other).mpr
        ⟨isBlocked, hash, requested, same.symm⟩) same

theorem foldl_storeEmpty_sound {hashes : List HostnameHash} (sound : c.Sound (Right blocked) s)
    (serves : Serves blocked hashesToRequest resp)
    (requested : ∀ hash ∈ hashes, hash ∈ hashesToRequest)
    (spared : Spares c ck call (receivedHashes resp) hashes s) :
    c.Sound (Right blocked) (hashes.foldl (storeEmpty c ck call) s) := by
  induction hashes generalizing s with
  | nil => exact sound
  | cons hash rest ih =>
    obtain ⟨here, later⟩ := spared
    exact ih (storeEmpty_sound sound serves (requested hash List.mem_cons_self) here)
      (fun other member => requested other (List.mem_cons_of_mem _ member)) later

/-- No empty entry is set if there is an entry for each prefix. -/
theorem spares_of_present {hashes respHashes : List HostnameHash}
    (present : ∀ hash ∈ hashes, (c.get s hash.pref).1.isSome = true) :
    Spares c ck call respHashes hashes s := by
  induction hashes generalizing s with
  | nil => trivial
  | cons hash rest ih =>
    have here := present hash List.mem_cons_self
    constructor
    · intro missing
      rw [missing] at here
      cases here
    · apply ih
      intro other member
      have unchanged : storeEmpty c ck call s hash = (c.get s hash.pref).2 := by
        unfold storeEmpty
        cases found : c.get s hash.pref with
        | mk entry s' =>
          rw [found] at here
          cases entry with
          | none => cases here
          | some data => rfl
      rw [unchanged, c.get_get]
      exact present other (List.mem_cons_of_mem _ member)

end Store

/-! ### Calls -/

section Calls

variable {s s' : c.State}

/-- What a call answers, and what it leaves. -/
theorem check_spec (sound : c.Sound (Right blocked) s) (served : Served c ck blocked s call) :
    ∃ s' verdict, check c ck s call = some (s', .ok verdict) ∧
      (verdict = true ↔ ∃ hash ∈ ck.hostnameToHashes call.host, hash ∈ blocked) ∧
      (KeepsAnswer c ck s call → c.Sound (Right blocked) s') := by
  obtain ⟨found, s', looked, sound', correct⟩ :=
    findInCache_correct sound call.now (ck.hostnameToHashes call.host)
  unfold check
  rw [looked]
  cases found with
  | found isBlocked => exact ⟨s', isBlocked, rfl, correct, fun _ => sound'⟩
  | request hashesToRequest =>
    obtain ⟨subset, covered⟩ := correct
    obtain ⟨resp, answered, serves⟩ := served.exchange hashesToRequest s' looked
    simp only [answered]
    refine ⟨_, _, rfl, (processAnswer_matched serves).trans ⟨?_, ?_⟩, fun keeps => ?_⟩
    · rintro ⟨hash, member, isBlocked⟩
      exact ⟨hash, subset hash member, isBlocked⟩
    · rintro ⟨hash, member, isBlocked⟩
      exact ⟨hash, covered hash member isBlocked, isBlocked⟩
    · exact foldl_storeEmpty_sound (storeAnswer_sound sound' served.iterate serves) serves
        (fun _ member => member)
        (keeps hashesToRequest s' resp looked answered)

/-- In every run whose calls leave the answer in the cache until it is stored, a call answers as it
does without a cache: whether one of the hashes of the host is blocked. -/
theorem check_transparent (run : Reaches (check c ck) (Allowed c ck blocked) c.empty s)
    (served : Served c ck blocked s call) {uncached : Call} (sameHost : uncached.host = call.host)
    (served' : Served (Cache.none Bytes Bytes) ck blocked () uncached) :
    ∃ s' verdict, check c ck s call = some (s', .ok verdict) ∧
      check (Cache.none Bytes Bytes) ck () uncached = some ((), .ok verdict) ∧
      (verdict = true ↔ ∃ hash ∈ ck.hostnameToHashes call.host, hash ∈ blocked) := by
  have sound : c.Sound (Right blocked) s := by
    refine run.invariant (Cache.Sound.empty c _) fun x call y b before allowed taken => ?_
    obtain ⟨y', verdict, taken', -, keeps⟩ := check_spec before allowed.1
    rw [taken'] at taken
    cases taken
    exact keeps allowed.2
  obtain ⟨s', verdict, taken, isBlocked, -⟩ := check_spec sound served
  obtain ⟨_, verdict', taken', isBlocked', -⟩ :=
    check_spec (Cache.Sound.empty (Cache.none Bytes Bytes) _) served'
  rw [sameHost] at isBlocked'
  have same : verdict' = verdict := Bool.eq_iff_iff.mpr (isBlocked'.trans isBlocked.symm)
  exact ⟨s', verdict, taken, same ▸ taken', isBlocked⟩

end Calls

/-! ### A cache that is too small for an answer -/

/-- The cache of `New`: the sizes of keys and values count. -/
def newCache (cacheSize : Nat) : Cache Bytes Bytes :=
  .lru (fun key value => key.length + value.length) cacheSize

def www : String := "www.example.com"

/-- A checker, with what the two functions give for one host. -/
def sampleChecker : Checker :=
  ⟨"sb.dns.", 3600000000000, fun _ => ("com", true), fun _ => [www, "example.com", "com"]⟩

def wwwHash : HostnameHash where
  bytes :=
    [0x80, 0xfc, 0x0f, 0xb9, 0x26, 0x6d, 0xb7, 0xb8,
      0x3f, 0x85, 0x85, 0x0f, 0xa0, 0xe6, 0x54, 0x8b,
      0x6d, 0x70, 0xee, 0x68, 0xc8, 0xb5, 0xb4, 0x12,
      0xf1, 0xde, 0xea, 0x6e, 0xbd, 0xef, 0x04, 0x04]
  size := rfl

def parentHash : HostnameHash where
  bytes :=
    [0xa3, 0x79, 0xa6, 0xf6, 0xee, 0xaf, 0xb9, 0xa5,
      0x5e, 0x37, 0x8c, 0x11, 0x80, 0x34, 0xe2, 0x75,
      0x1e, 0x68, 0x2f, 0xab, 0x9f, 0x2d, 0x30, 0xab,
      0x13, 0xd2, 0x12, 0x55, 0x86, 0xce, 0x19, 0x47]
  size := rfl

/-- The hashes of the host and of its parent. -/
def bothHashes : List HostnameHash := [wwwHash, parentHash]

/-- Both hashes of the host are blocked. -/
def bothBlocked : Set HostnameHash := { hash | hash ∈ bothHashes }

def askWww : Call :=
  ⟨www, 0, fun _ => 0,
    fun _ => .ok [.txt (bothHashes.map fun hash => String.ofList (encodeHex hash.bytes))], id⟩

theorem askWww_serves :
    Serves bothBlocked bothHashes
      [.txt (bothHashes.map fun hash => String.ofList (encodeHex hash.bytes))] := by
  intro text
  simp only [List.mem_singleton, RR.txt.injEq, exists_eq_left, List.mem_map]
  constructor
  · rintro ⟨hash, member, rfl⟩
    exact ⟨hash, member, ⟨hash, member, rfl⟩, rfl⟩
  · rintro ⟨hash, member, -, rfl⟩
    exact ⟨hash, member, rfl⟩

theorem hostnameToHashes_www : sampleChecker.hostnameToHashes www = bothHashes := by decide +kernel

/-- The call, with the hashes at hand. -/
theorem check_askWww (s : c.State) :
    check c sampleChecker s askWww =
      match findInCache c askWww.now bothHashes s with
      | none => none
      | some (.found blocked, s) => some (s, .ok blocked)
      | some (.request hashesToRequest, s) =>
        let (matched, received) := processAnswer hashesToRequest
          [.txt (bothHashes.map fun hash => String.ofList (encodeHex hash.bytes))]
        some (storeInCache c sampleChecker askWww hashesToRequest received s, .ok matched) := by
  unfold check
  rw [show askWww.host = www from rfl, hostnameToHashes_www]
  rfl

instance (cacheSize : Nat) : DecidableEq (newCache cacheSize).State :=
  inferInstanceAs (DecidableEq (List (Bytes × Bytes)))

/-- Without entries, both hashes are asked for. -/
theorem findInCache_missed {s : c.State} (missing : ∀ key, c.get s key = (none, s)) :
    findInCache c askWww.now (sampleChecker.hostnameToHashes www) s =
      some (.request bothHashes, s) := by
  rw [hostnameToHashes_www]
  simp [findInCache, findLoop, bothHashes, missing]

theorem askWww_served {s : c.State} (missing : ∀ key, c.get s key = (none, s)) :
    Served c sampleChecker bothBlocked s askWww where
  iterate := fun keys => List.Perm.refl keys
  exchange := by
    intro hashesToRequest s' looked
    rw [show askWww.host = www from rfl, findInCache_missed missing] at looked
    cases looked
    exact ⟨_, rfl, askWww_serves⟩

/-- A call that is answered from the cache asks the server nothing. -/
theorem askWww_served_of_found {s s' : c.State} {isBlocked : Bool}
    (looked : findInCache c askWww.now bothHashes s = some (.found isBlocked, s')) :
    Served c sampleChecker bothBlocked s askWww where
  iterate := fun keys => List.Perm.refl keys
  exchange := by
    intro hashesToRequest s'' asked
    rw [show askWww.host = www from rfl, hostnameToHashes_www, looked] at asked
    cases asked

/-- The entries of the two hashes. -/
def storedWww : (newCache 1000).State :=
  let item (hash : HostnameHash) : Bytes := fromCacheItem ⟨sampleChecker.cacheTime, [hash]⟩
  bothHashes.reverse.map fun hash => (hash.pref, item hash)

/-- A cache that has room for the answer keeps it. -/
theorem askWww_keeps : KeepsAnswer (newCache 1000) sampleChecker (newCache 1000).empty askWww := by
  intro hashesToRequest s' resp looked answered
  rw [show askWww.host = www from rfl, findInCache_missed fun _ => rfl] at looked
  cases looked
  cases answered
  have stored : storeAnswer (newCache 1000) sampleChecker askWww
      (receivedHashes [.txt (bothHashes.map fun hash => String.ofList (encodeHex hash.bytes))])
      (newCache 1000).empty = storedWww := by
    decide +kernel
  have present : ∀ hash ∈ bothHashes,
      ((newCache 1000).get storedWww hash.pref).1.isSome = true := by
    decide +kernel
  rw [stored]
  exact spares_of_present present

/-- The second call finds its answer in the cache. -/
theorem check_transparent_www :
    ∃ s' verdict, check (newCache 1000) sampleChecker storedWww askWww = some (s', .ok verdict) ∧
      check (Cache.none Bytes Bytes) sampleChecker () askWww = some ((), .ok verdict) ∧
      (verdict = true ↔ ∃ hash ∈ sampleChecker.hostnameToHashes www, hash ∈ bothBlocked) := by
  have served : Served (newCache 1000) sampleChecker bothBlocked (newCache 1000).empty askWww :=
    askWww_served fun _ => rfl
  have taken : check (newCache 1000) sampleChecker (newCache 1000).empty askWww =
      some (storedWww, .ok true) := by
    rw [check_askWww]
    decide +kernel
  have looked : findInCache (newCache 1000) askWww.now bothHashes storedWww =
      some (.found true, ((newCache 1000).get storedWww wwwHash.pref).2) := by
    decide +kernel
  exact check_transparent (Reaches.refl.tail ⟨served, askWww_keeps⟩ taken)
    (askWww_served_of_found looked) rfl
    (askWww_served fun _ => rfl)

/-- The cache after the first call: an empty entry for each of the prefixes. -/
def emptied : (newCache 50).State :=
  let item := fromCacheItem ⟨sampleChecker.cacheTime, []⟩
  [(parentHash.pref, item), (wwwHash.pref, item)]

/-- With room for one of the two hashes only, the host is blocked at first and not blocked after. -/
theorem small_cache_unblocks :
    (∃ hash ∈ sampleChecker.hostnameToHashes www, hash ∈ bothBlocked) ∧
      Served (newCache 50) sampleChecker bothBlocked (newCache 50).empty askWww ∧
      check (newCache 50) sampleChecker (newCache 50).empty askWww = some (emptied, .ok true) ∧
      Served (newCache 50) sampleChecker bothBlocked emptied askWww ∧
      check (newCache 50) sampleChecker emptied askWww = some (emptied, .ok false) := by
  have looked : findInCache (newCache 50) askWww.now bothHashes emptied =
      some (.found false, emptied) := by
    decide +kernel
  have first : check (newCache 50) sampleChecker (newCache 50).empty askWww =
      some (emptied, .ok true) := by
    rw [check_askWww]
    decide +kernel
  have second : check (newCache 50) sampleChecker emptied askWww = some (emptied, .ok false) := by
    rw [check_askWww, looked]
  refine ⟨?_, askWww_served fun _ => rfl, first, askWww_served_of_found looked, second⟩
  rw [hostnameToHashes_www]
  exact ⟨wwwHash, List.mem_cons_self, List.mem_cons_self⟩

end FirewallCore.Hashprefix
