import Mathlib.Data.List.AList
import FirewallCore.Lib.Run
import FirewallCore.Net.Addr

/-!
The store of web sessions (`auth.go`).

Sessions are kept in memory under the hexadecimal text of their token and in a
bucket of the database under its bytes. The bucket is an association list, and
`ForEach` visits its records one after the other. Calls that the database
refuses are not modelled. A string of Go is a list of bytes where its bytes
matter, which is in the user name.
-/

namespace FirewallCore.Home

open FirewallCore.Lib FirewallCore.Net

abbrev Bytes := List UInt8

/-! ### Text and bytes -/

/-- The characters of `hex.EncodeToString`. -/
def hexChars : Bytes → List Char
  | [] => []
  | b :: rest => Nat.digitChar (b.toNat / 16) :: Nat.digitChar (b.toNat % 16) :: hexChars rest

/-- `hex.EncodeToString`. -/
def hexEncode (data : Bytes) : String := String.ofList (hexChars data)

/-- The loop of `hex.Decode`, which stops at the first pair that is not hexadecimal. -/
def decodePairs : List Char → Bytes
  | a :: b :: rest =>
    match readByte a b with
    | none => []
    | some x => x :: decodePairs rest
  | _ => []

/-- `hex.DecodeString` without its error: the bytes in front of the first bad character. -/
def hexDecode (s : String) : Bytes := decodePairs s.toList

/-- `binary.BigEndian.PutUint32`. -/
def putUint32 (n : UInt32) : Bytes :=
  [UInt8.ofNat (n.toNat / 2 ^ 24), UInt8.ofNat (n.toNat / 2 ^ 16), UInt8.ofNat (n.toNat / 2 ^ 8),
    UInt8.ofNat n.toNat]

/-- `binary.BigEndian.PutUint16` of `uint16(n)`. -/
def putUint16 (n : Nat) : Bytes := [UInt8.ofNat (n / 2 ^ 8), UInt8.ofNat n]

theorem hexDecode_hexEncode (data : Bytes) : hexDecode (hexEncode data) = data := by
  rw [hexDecode, hexEncode, String.toList_ofList]
  induction data with
  | nil => rfl
  | cons b rest ih => simp only [hexChars, decodePairs, readByte_digits, ih]

theorem hexEncode_inj {a b : Bytes} (same : hexEncode a = hexEncode b) : a = b := by
  rw [← hexDecode_hexEncode a, same, hexDecode_hexEncode]

/-! ### Sessions -/

/-- `sessionTokenSize`. -/
def sessionTokenSize : Nat := 16

/-- `session`. -/
structure Session where
  userName : Bytes
  expire : UInt32
  deriving DecidableEq, Repr

/-- `serialize`. -/
def Session.serialize (s : Session) : Bytes :=
  putUint32 s.expire ++ putUint16 s.userName.length ++ s.userName

/-- `deserialize`. -/
def Session.deserialize : Bytes → Option Session
  | a :: b :: c :: d :: e :: f :: data =>
    if data.length < e.toNat * 2 ^ 8 + f.toNat then none
    else some ⟨data, UInt32.ofNat
      (a.toNat * 2 ^ 24 + b.toNat * 2 ^ 16 + c.toNat * 2 ^ 8 + d.toNat)⟩
  | _ => none

/-- A stored session is read back, also when its name is longer than the length can say. -/
theorem Session.deserialize_serialize (s : Session) : deserialize s.serialize = some s := by
  obtain ⟨userName, expire⟩ := s
  have bytes := expire.toNat_lt
  have short : ¬userName.length < userName.length / 256 % 256 * 256 + userName.length % 256 := by
    omega
  have whole : expire.toNat / 16777216 % 256 * 16777216 + expire.toNat / 65536 % 256 * 65536 +
      expire.toNat / 256 % 256 * 256 + expire.toNat % 256 = expire.toNat := by
    omega
  simp [serialize, deserialize, putUint32, putUint16, short, whole]

/-- A session after a successful check: its expiration time moves once a day. -/
def Session.renew (s : Session) (newExpire : UInt32) : Session :=
  if s.expire / 86400 ≠ newExpire / 86400 then { s with expire := newExpire } else s

/-- A bucket of the database. -/
abbrev Bucket := AList fun _ : Bytes => Bytes

/-- The database: the bucket "sessions-2", and whether the old bucket "sessions" is there. -/
structure Database where
  sessions2 : Option Bucket
  sessions : Bool

/-- `Auth`, with the fields that sessions need. -/
structure Auth where
  db : Database
  sessions : String → Option Session
  sessionTTL : UInt32

/-- `checkSessionResult`. -/
inductive CheckSessionResult where
  | ok
  | notFound
  | expired
  deriving DecidableEq, Repr

namespace Auth

/-- The body of `ForEach` in `loadSessions`. -/
def loadRecord (now : UInt32) (acc : (String → Option Session) × Bucket)
    (record : (_ : Bytes) × Bytes) : (String → Option Session) × Bucket :=
  match Session.deserialize record.2 with
  | none => (acc.1, acc.2.erase record.1)
  | some s =>
    if s.expire ≤ now then (acc.1, acc.2.erase record.1)
    else (Function.update acc.1 (hexEncode record.1) (some s), acc.2)

/-- `loadSessions`. The transaction is rolled back if it has removed nothing. -/
def loadSessions (a : Auth) (now : UInt32) : Auth :=
  match a.db.sessions2 with
  | none => a
  | some bkt =>
    let loaded := bkt.entries.foldl (loadRecord now) (a.sessions, bkt)
    { a with db := ⟨some loaded.2, false⟩, sessions := loaded.1 }

/-- `InitAuth` at a time in seconds since 1970. -/
def initAuth (db : Database) (sessionTTL : UInt32) (unix : Nat) : Auth :=
  loadSessions ⟨db, fun _ => none, sessionTTL⟩ (UInt32.ofNat unix)

/-- `storeSession`. -/
def storeSession (a : Auth) (data : Bytes) (s : Session) : Auth :=
  { a with db.sessions2 := some ((a.db.sessions2.getD ∅).insert data s.serialize) }

/-- `removeSessionFromFile`. -/
def removeSessionFromFile (a : Auth) (sess : Bytes) : Auth :=
  { a with db.sessions2 := a.db.sessions2.map (·.erase sess) }

/-- `addSession`. -/
def addSession (a : Auth) (data : Bytes) (s : Session) : Auth :=
  { a with sessions := Function.update a.sessions (hexEncode data) (some s) }.storeSession data s

/-- The end of `newCookie`: a session for a user who has logged in. -/
def newSession (a : Auth) (token : Bytes) (userName : Bytes) (unix : Nat) : Auth :=
  a.addSession token ⟨userName, UInt32.ofNat unix + a.sessionTTL⟩

/-- `checkSession`. -/
def checkSession (a : Auth) (sess : String) (unix : Nat) : Auth × CheckSessionResult :=
  let now := UInt32.ofNat unix
  match a.sessions sess with
  | none => (a, .notFound)
  | some s =>
    if s.expire ≤ now then
      ({ a with sessions := Function.update a.sessions sess none }.removeSessionFromFile
        (hexDecode sess), .expired)
    else
      let newExpire := now + a.sessionTTL
      if s.expire / 86400 ≠ newExpire / 86400 then
        -- update expiration time once a day
        let s := { s with expire := newExpire }
        ({ a with sessions := Function.update a.sessions sess (some s) }.storeSession
          (hexDecode sess) s, .ok)
      else (a, .ok)

/-- `removeSession`. -/
def removeSession (a : Auth) (sess : String) : Auth :=
  { a with sessions := Function.update a.sessions sess none }.removeSessionFromFile
    (hexDecode sess)

/-! ### Memory and database -/

/-- The session that is stored under a key. -/
def record (a : Auth) (key : Bytes) : Option Session :=
  ((a.db.sessions2.getD ∅).lookup key).bind Session.deserialize

/-- The sessions in memory are those of the database, under the texts of their keys. -/
structure Mirrored (a : Auth) : Prop where
  same : ∀ key, a.sessions (hexEncode key) = a.record key
  texts : ∀ sess s, a.sessions sess = some s → hexEncode (hexDecode sess) = sess

section Mirror

variable {a : Auth} {now : UInt32}

/-- A record that `loadSessions` takes over. -/
def live (now : UInt32) (value : Bytes) : Option Session :=
  (Session.deserialize value).filter fun s => !decide (s.expire ≤ now)

theorem loadRecord_eq (acc : (String → Option Session) × Bucket) (key value : Bytes) :
    loadRecord now acc ⟨key, value⟩ = match live now value with
      | none => (acc.1, acc.2.erase key)
      | some s => (Function.update acc.1 (hexEncode key) (some s), acc.2) := by
  unfold loadRecord live
  cases Session.deserialize value with
  | none => rfl
  | some s => by_cases expired : s.expire ≤ now <;> simp [Option.filter, expired]

/-- What `ForEach` has done to the sessions and to the bucket. -/
theorem foldl_loadRecord {records : List ((_ : Bytes) × Bytes)} (once : records.NodupKeys)
    (acc : (String → Option Session) × Bucket) :
    (∀ key, (records.foldl (loadRecord now) acc).1 (hexEncode key) =
      ((records.dlookup key).bind (live now)).or (acc.1 (hexEncode key))) ∧
    (∀ sess, hexEncode (hexDecode sess) ≠ sess →
      (records.foldl (loadRecord now) acc).1 sess = acc.1 sess) ∧
    ∀ key, (records.foldl (loadRecord now) acc).2.lookup key =
      match records.dlookup key with
      | none => acc.2.lookup key
      | some value => if (live now value).isSome then acc.2.lookup key else none := by
  induction records generalizing acc with
  | nil => simp
  | cons record rest ih =>
    obtain ⟨k, v⟩ := record
    obtain ⟨fresh, once⟩ := List.nodupKeys_cons.mp once
    have absent : rest.dlookup k = none := List.dlookup_eq_none.mpr fresh
    obtain ⟨sessions, others, bucket⟩ := ih once (loadRecord now acc ⟨k, v⟩)
    rw [List.foldl_cons]
    refine ⟨?_, ?_, ?_⟩
    · intro key
      rw [sessions key, loadRecord_eq]
      by_cases here : key = k
      · subst here
        rw [absent, List.dlookup_cons_eq]
        cases kept : live now v <;> simp [kept]
      · rw [List.dlookup_cons_ne _ _ here]
        have apart : hexEncode key ≠ hexEncode k := fun same => here (hexEncode_inj same)
        cases live now v <;> simp [apart]
    · intro sess noText
      rw [others sess noText, loadRecord_eq]
      have apart : sess ≠ hexEncode k := by
        rintro rfl
        exact noText (by rw [hexDecode_hexEncode])
      cases live now v <;> simp [apart]
    · intro key
      rw [bucket key, loadRecord_eq]
      by_cases here : key = k
      · subst here
        rw [absent, List.dlookup_cons_eq]
        cases kept : live now v <;> simp [kept]
      · rw [List.dlookup_cons_ne _ _ here]
        cases live now v <;> simp [AList.lookup_erase_ne here]

theorem record_storeSession (a : Auth) (data key : Bytes) (s : Session) :
    (a.storeSession data s).record key = if key = data then some s else a.record key := by
  unfold record storeSession
  by_cases here : key = data
  · subst here
    simp [AList.lookup_insert, Session.deserialize_serialize]
  · simp [AList.lookup_insert_ne here, here]

theorem record_removeSessionFromFile (a : Auth) (sess key : Bytes) :
    (a.removeSessionFromFile sess).record key = if key = sess then none else a.record key := by
  unfold record removeSessionFromFile
  cases a.db.sessions2 with
  | none => simp
  | some bkt =>
    by_cases here : key = sess
    · subst here
      simp
    · simp [AList.lookup_erase_ne here, here]

/-- A reload keeps what has not expired, in memory and in the database. -/
theorem initAuth_spec (db : Database) (ttl : UInt32) (unix : Nat) :
    Mirrored (initAuth db ttl unix) ∧ ∀ key, (initAuth db ttl unix).record key =
      (record ⟨db, fun _ => none, ttl⟩ key).filter
        fun s => !decide (s.expire ≤ UInt32.ofNat unix) := by
  unfold initAuth loadSessions
  cases stored : db.sessions2 with
  | none => exact ⟨⟨by simp [record, stored], by simp⟩, by simp [record, stored]⟩
  | some bkt =>
    let now := UInt32.ofNat unix
    let loaded := bkt.entries.foldl (loadRecord now) (fun _ => none, bkt)
    obtain ⟨sessions, others, bucket⟩ : _ ∧ _ ∧ ∀ key, loaded.2.lookup key = _ :=
      foldl_loadRecord bkt.nodupKeys (fun _ => none, bkt)
    have kept : ∀ key, (loaded.2.lookup key).bind Session.deserialize =
        (bkt.lookup key).bind (live now) := by
      intro key
      rw [bucket key]
      change _ = (bkt.entries.dlookup key).bind (live now)
      cases found : bkt.entries.dlookup key with
      | none => simp [AList.lookup, found]
      | some value =>
        have here : bkt.lookup key = some value := found
        cases taken : live now value with
        | none => simp [taken]
        | some s => simp [taken, here, (Option.filter_eq_some_iff.mp taken).1]
    refine ⟨⟨?_, ?_⟩, ?_⟩
    · intro key
      change loaded.1 (hexEncode key) = (loaded.2.lookup key).bind Session.deserialize
      rw [sessions key, kept key, Option.or_none]
      rfl
    · intro sess s found
      by_contra noText
      have absent : loaded.1 sess = none := others sess noText
      cases absent.symm.trans found
    · intro key
      change (loaded.2.lookup key).bind Session.deserialize = _
      rw [kept key, record, stored, Option.getD_some]
      cases bkt.lookup key <;> rfl

theorem Mirrored.storeSession (mirrored : Mirrored a) (key : Bytes) (s : Session) :
    Mirrored ({ a with sessions := Function.update a.sessions (hexEncode key) (some s) }.storeSession
      key s) := by
  constructor
  · intro k
    rw [record_storeSession]
    change Function.update a.sessions (hexEncode key) (some s) (hexEncode k) = _
    by_cases here : k = key
    · simp [here]
    · have apart : hexEncode k ≠ hexEncode key := fun same => here (hexEncode_inj same)
      rw [Function.update_of_ne apart, if_neg here]
      exact mirrored.same k
  · intro sess s' found
    by_cases here : sess = hexEncode key
    · rw [here, hexDecode_hexEncode]
    · exact mirrored.texts sess s' (by simpa [Auth.storeSession, here] using found)

/-- A session is removed from both places if its text is the one of its key. -/
theorem Mirrored.removeSession (mirrored : Mirrored a) {sess : String}
    (text : hexEncode (hexDecode sess) = sess ∨ a.record (hexDecode sess) = none) :
    Mirrored (a.removeSession sess) := by
  constructor
  · intro k
    unfold Auth.removeSession
    rw [record_removeSessionFromFile]
    change Function.update a.sessions sess none (hexEncode k) = if _ then _ else a.record k
    by_cases here : hexEncode k = sess
    · rw [here, Function.update_self, ← here, hexDecode_hexEncode, if_pos rfl]
    · rw [Function.update_of_ne here, mirrored.same k]
      split
      · rename_i decoded
        rcases text with text | absent
        · rw [decoded] at here
          exact absurd text here
        · rw [decoded, absent]
      · rfl
  · intro sess' s found
    by_cases here : sess' = sess
    · simp [Auth.removeSession, removeSessionFromFile, here] at found
    · exact mirrored.texts sess' s
        (by simpa [Auth.removeSession, removeSessionFromFile, here] using found)

/-- The time of a reading that does not overflow. -/
theorem expire_le_iff {s : Session} {unix : Nat} (small : unix < 2 ^ 32) :
    s.expire ≤ UInt32.ofNat unix ↔ s.expire.toNat ≤ unix := by
  rw [UInt32.le_iff_toNat_le, UInt32.toNat_ofNat_of_lt' small]

theorem checkSession_absent {sess : String} {unix : Nat} (absent : a.sessions sess = none) :
    a.checkSession sess unix = (a, .notFound) := by
  simp only [checkSession, absent]

theorem checkSession_expired {sess : String} {unix : Nat} {s : Session}
    (found : a.sessions sess = some s) (small : unix < 2 ^ 32) (expired : s.expire.toNat ≤ unix) :
    a.checkSession sess unix = (a.removeSession sess, .expired) := by
  simp only [checkSession, found, if_pos ((expire_le_iff small).mpr expired)]
  rfl

/-- An accepted session is renewed in memory and in the database. -/
theorem Mirrored.checkSession_ok (mirrored : Mirrored a) {sess : String} {unix : Nat} {s : Session}
    (found : a.sessions sess = some s) (small : unix < 2 ^ 32) (valid : unix < s.expire.toNat) :
    (a.checkSession sess unix).2 = .ok ∧ Mirrored (a.checkSession sess unix).1 ∧
      (a.checkSession sess unix).1.sessions =
        Function.update a.sessions sess (some (s.renew (UInt32.ofNat unix + a.sessionTTL))) := by
  have notExpired : ¬s.expire ≤ UInt32.ofNat unix := by
    rw [expire_le_iff small]
    omega
  simp only [checkSession, found, if_neg notExpired, Session.renew]
  split
  · refine ⟨rfl, ?_, rfl⟩
    have text := mirrored.texts sess s found
    have stored := mirrored.storeSession (hexDecode sess)
      { s with expire := UInt32.ofNat unix + a.sessionTTL }
    rwa [text] at stored
  · refine ⟨rfl, mirrored, ?_⟩
    rw [← found, Function.update_eq_self]

end Mirror

end Auth

/-! ### Runs -/

/-- The calls on sessions. A login comes with the token that was drawn for it. -/
inductive SessionCall where
  | login (token userName : Bytes) (unix : Nat)
  | checkSession (sess : String) (unix : Nat)
  | removeSession (sess : String)
  | restart (sessionTTL : UInt32) (unix : Nat)

/-- The store together with its history: the sessions that were issued and not removed, as
they were after their latest successful check, and the latest time at which expired sessions
were dropped. -/
structure SessionRun where
  auth : Auth
  issued : String → Option Session
  dropped : Nat

namespace SessionRun

/-- A token should be accepted: it was issued, not removed, and has not expired. -/
def Accepts (r : SessionRun) (sess : String) (unix : Nat) : Prop :=
  ∃ s, r.issued sess = some s ∧ unix < s.expire.toNat

/-- The history after a check, whatever the store has answered. -/
def checked (r : SessionRun) (sess : String) (unix : Nat) : String → Option Session :=
  match r.issued sess with
  | none => r.issued
  | some s =>
    if unix < s.expire.toNat then
      Function.update r.issued sess
        (some (s.renew (UInt32.ofNat unix + r.auth.sessionTTL)))
    else r.issued

def step (r : SessionRun) : SessionCall → Option (SessionRun × Option CheckSessionResult)
  | .login token userName unix =>
    some (⟨r.auth.newSession token userName unix,
      Function.update r.issued (hexEncode token)
        (some ⟨userName, UInt32.ofNat unix + r.auth.sessionTTL⟩), r.dropped⟩, none)
  | .checkSession sess unix =>
    let out := r.auth.checkSession sess unix
    some (⟨out.1, r.checked sess unix,
      if out.2 = .expired then max r.dropped unix else r.dropped⟩, some out.2)
  | .removeSession sess =>
    some (⟨r.auth.removeSession sess, Function.update r.issued sess none, r.dropped⟩, none)
  | .restart ttl unix =>
    some (⟨Auth.initAuth r.auth.db ttl unix, r.issued, max r.dropped unix⟩, none)

/-- The first start, on a database without sessions. -/
def start (ttl : UInt32) (unix : Nat) (oldBucket : Bool) : SessionRun :=
  ⟨Auth.initAuth ⟨none, oldBucket⟩ ttl unix, fun _ => none, 0⟩

/-- The readings and tokens that a call gets: clock readings do not overflow, and tokens have
their length. -/
def Plain (r : SessionRun) : SessionCall → Prop
  | .login token _ unix =>
    token.length = sessionTokenSize ∧ unix + r.auth.sessionTTL.toNat < 2 ^ 32
  | .checkSession _ unix => unix + r.auth.sessionTTL.toNat < 2 ^ 32
  | .removeSession _ => True
  | .restart ttl unix => unix + ttl.toNat < 2 ^ 32

/-- What a call must be besides: a check is not made at a time before one at which expired
sessions were dropped, and a text that is removed is the one of its key, or no session is
stored under the bytes it begins with. -/
def SessionOp (r : SessionRun) (call : SessionCall) : Prop :=
  Plain r call ∧ match call with
    | .checkSession _ unix => r.dropped ≤ unix
    | .removeSession sess =>
      hexEncode (hexDecode sess) = sess ∨ r.auth.record (hexDecode sess) = none
    | _ => True

/-- Memory and database hold the same sessions, and a token is accepted exactly when it
should be. -/
structure Agrees (r : SessionRun) : Prop where
  mirrored : ∀ key s, r.auth.sessions (hexEncode key) = some s ↔ r.auth.record key = some s
  texts : ∀ sess s, r.auth.sessions sess = some s → hexEncode (hexDecode sess) = sess
  accepts : ∀ sess unix, unix + r.auth.sessionTTL.toNat < 2 ^ 32 → r.dropped ≤ unix →
    ((r.auth.checkSession sess unix).2 = .ok ↔ r.Accepts sess unix)

/-- The invariant: a session that was issued and is not in memory has expired. -/
structure Inv (r : SessionRun) : Prop where
  mirrored : r.auth.Mirrored
  held : ∀ sess, r.auth.sessions sess = r.issued sess ∨
    (r.auth.sessions sess = none ∧ ∃ s, r.issued sess = some s ∧ s.expire.toNat ≤ r.dropped)

section Steps

variable {r r' : SessionRun}

theorem Inv.start (ttl : UInt32) (unix : Nat) (oldBucket : Bool) :
    Inv (start ttl unix oldBucket) :=
  ⟨(Auth.initAuth_spec ⟨none, oldBucket⟩ ttl unix).1, fun _ => .inl rfl⟩

theorem Inv.login (inv : Inv r) (token : Bytes) (s : Session) :
    Inv ⟨r.auth.addSession token s, Function.update r.issued (hexEncode token) (some s),
      r.dropped⟩ := by
  constructor
  · exact inv.mirrored.storeSession token s
  · intro sess
    by_cases here : sess = hexEncode token
    · left
      simp [Auth.addSession, Auth.storeSession, here]
    · simpa [Auth.addSession, Auth.storeSession, here] using inv.held sess

theorem Inv.removeSession (inv : Inv r) {sess : String}
    (text : hexEncode (hexDecode sess) = sess ∨ r.auth.record (hexDecode sess) = none) :
    Inv ⟨r.auth.removeSession sess, Function.update r.issued sess none, r.dropped⟩ := by
  constructor
  · exact inv.mirrored.removeSession text
  · intro sess'
    by_cases here : sess' = sess
    · left
      simp [Auth.removeSession, Auth.removeSessionFromFile, here]
    · simpa [Auth.removeSession, Auth.removeSessionFromFile, here] using inv.held sess'

/-- What a reload leaves out has expired at the time of the reload. -/
theorem Inv.restart (inv : Inv r) (ttl : UInt32) {unix : Nat} (small : unix < 2 ^ 32) :
    Inv ⟨Auth.initAuth r.auth.db ttl unix, r.issued, max r.dropped unix⟩ := by
  obtain ⟨mirrored, records⟩ := Auth.initAuth_spec r.auth.db ttl unix
  constructor
  · exact mirrored
  intro sess
  have before : ∀ key, Auth.record ⟨r.auth.db, fun _ => none, ttl⟩ key =
      r.auth.sessions (hexEncode key) := fun key => (inv.mirrored.same key).symm
  by_cases text : hexEncode (hexDecode sess) = sess
  · have now := mirrored.same (hexDecode sess)
    rw [records, before, text] at now
    dsimp only
    rw [now]
    rcases inv.held sess with same | ⟨absent, s, issued, expired⟩
    · rw [same]
      cases issued : r.issued sess with
      | none => exact .inl rfl
      | some s =>
        by_cases expired : s.expire ≤ UInt32.ofNat unix
        · right
          refine ⟨by simp [Option.filter, expired], s, rfl, ?_⟩
          exact Nat.le_trans ((Auth.expire_le_iff small).mp expired) (Nat.le_max_right _ _)
        · left
          simp [Option.filter, expired]
    · right
      refine ⟨by rw [absent]; rfl, s, issued, ?_⟩
      exact Nat.le_trans expired (Nat.le_max_left _ _)
  · -- no session has a text of another form, before or after
    have absent : ∀ {a : Auth}, a.Mirrored → a.sessions sess = none := by
      intro a mirrored
      cases found : a.sessions sess with
      | none => rfl
      | some s => exact absurd (mirrored.texts sess s found) text
    rcases inv.held sess with same | ⟨-, s, issued, expired⟩
    · left
      rw [← same, absent inv.mirrored]
      exact absent mirrored
    · exact .inr ⟨absent mirrored, s, issued, Nat.le_trans expired (Nat.le_max_left _ _)⟩

theorem Inv.checkSession (inv : Inv r) {sess : String} {unix : Nat} (small : unix < 2 ^ 32)
    (late : r.dropped ≤ unix) :
    Inv ⟨(r.auth.checkSession sess unix).1, r.checked sess unix,
      if (r.auth.checkSession sess unix).2 = .expired then max r.dropped unix else r.dropped⟩ := by
  rcases inv.held sess with same | ⟨absent, s, issued, expired⟩
  · cases issued : r.issued sess with
    | none =>
      rw [Auth.checkSession_absent (same.trans issued), checked, issued]
      exact inv
    | some s =>
      have found := same.trans issued
      by_cases valid : unix < s.expire.toNat
      · obtain ⟨ok, mirrored, sessions⟩ := inv.mirrored.checkSession_ok found small valid
        constructor
        · exact mirrored
        · intro sess'
          simp only [ok, reduceCtorEq, if_false, sessions, checked, issued, if_pos valid]
          by_cases here : sess' = sess
          · simp [here]
          · simpa [here] using inv.held sess'
      · have text := inv.mirrored.texts sess s found
        rw [Auth.checkSession_expired found small (by omega), checked, issued]
        simp only [if_neg valid, if_true]
        constructor
        · exact inv.mirrored.removeSession (.inl text)
        · intro sess'
          by_cases here : sess' = sess
          · right
            subst here
            refine ⟨by simp [Auth.removeSession, Auth.removeSessionFromFile], s, issued, ?_⟩
            dsimp only
            omega
          · rcases inv.held sess' with same' | ⟨absent, s', issued', expired'⟩
            · left
              simpa [Auth.removeSession, Auth.removeSessionFromFile, here] using same'
            · right
              refine ⟨?_, s', issued', ?_⟩
              · simpa [Auth.removeSession, Auth.removeSessionFromFile, here] using absent
              · exact Nat.le_trans expired' (Nat.le_max_left _ _)
  · have invalid : ¬unix < s.expire.toNat := by omega
    rw [Auth.checkSession_absent absent, checked, issued]
    simp only [if_neg invalid]
    exact inv

theorem Inv.step (inv : Inv r) {call : SessionCall} {answer : Option CheckSessionResult}
    (guard : SessionOp r call) (taken : SessionRun.step r call = some (r', answer)) : Inv r' := by
  cases call with
  | login token userName unix =>
    cases taken
    exact inv.login token _
  | checkSession sess unix =>
    cases taken
    have small : unix < 2 ^ 32 := Nat.lt_of_le_of_lt (Nat.le_add_right _ _) guard.1
    exact inv.checkSession small guard.2
  | removeSession sess =>
    cases taken
    exact inv.removeSession guard.2
  | restart ttl unix =>
    cases taken
    exact inv.restart ttl (Nat.lt_of_le_of_lt (Nat.le_add_right _ _) guard.1)

theorem Inv.agrees (inv : Inv r) : Agrees r := by
  constructor
  · intro key s
    rw [inv.mirrored.same key]
  · exact inv.mirrored.texts
  · intro sess unix bound late
    have small : unix < 2 ^ 32 := Nat.lt_of_le_of_lt (Nat.le_add_right _ _) bound
    unfold Accepts
    rcases inv.held sess with same | ⟨absent, s, issued, expired⟩
    · cases issued : r.issued sess with
      | none => simp [Auth.checkSession_absent (same.trans issued)]
      | some s =>
        have found := same.trans issued
        by_cases valid : unix < s.expire.toNat
        · simp [(inv.mirrored.checkSession_ok found small valid).1, valid]
        · simp [Auth.checkSession_expired found small (by omega), valid]
    · have invalid : ¬unix < s.expire.toNat := by omega
      simp [Auth.checkSession_absent absent, issued, invalid]

/-- In every run whose calls meet `SessionOp`, memory and database hold the same sessions,
and a token is accepted exactly when it was issued, not removed, and has not expired. -/
theorem sessions_agree {ttl : UInt32} {unix : Nat} {oldBucket : Bool}
    (run : Reaches SessionRun.step SessionOp (start ttl unix oldBucket) r) : Agrees r :=
  (run.invariant (Inv.start ttl unix oldBucket)
    fun _ _ _ _ inv guard taken => inv.step guard taken).agrees

/-- A token of sixteen equal bytes. -/
def token : Bytes := List.replicate sessionTokenSize 0xab

/-- The store after one login. -/
def loggedIn : SessionRun :=
  ⟨(start 3600 0 false).auth.newSession token [0x61] 10,
    Function.update (start 3600 0 false).issued (hexEncode token) (some ⟨[0x61], 3610⟩), 0⟩

theorem sessions_agree_restart : ∃ r,
    Reaches SessionRun.step SessionOp (start 3600 0 false) r ∧ r.dropped = 30 ∧ Agrees r ∧
      r.Accepts (hexEncode token) 40 := by
  have run : Reaches SessionRun.step SessionOp (start 3600 0 false)
      ⟨Auth.initAuth loggedIn.auth.db 3600 30, loggedIn.issued, 30⟩ :=
    (Reaches.refl.tail (a := .login token [0x61] 10) ⟨⟨by decide, by decide⟩, trivial⟩ rfl).tail
      (a := .restart 3600 30) ⟨show 30 + 3600 < 2 ^ 32 by decide, trivial⟩ rfl
  have agrees := sessions_agree run
  refine ⟨_, run, rfl, agrees, (agrees.accepts (hexEncode token) 40 (by decide) (by decide)).mp ?_⟩
  decide +kernel

/-- Logging out with the token in upper case removes the stored session and keeps the one in
memory. -/
theorem sessions_not_agree : ¬∀ (ttl : UInt32) (unix : Nat) (oldBucket : Bool) (r : SessionRun),
    Reaches SessionRun.step Plain (start ttl unix oldBucket) r →
    ∀ key s now, now < s.expire.toNat →
      (r.auth.sessions (hexEncode key) = some s ↔ r.auth.record key = some s) := by
  intro agrees
  have run : Reaches SessionRun.step Plain (start 3600 0 false)
      ⟨loggedIn.auth.removeSession (hexEncode token).toUpper,
        Function.update loggedIn.issued (hexEncode token).toUpper none, 0⟩ :=
    (Reaches.refl.tail (a := .login token [0x61] 10) ⟨by decide, by decide⟩ rfl).tail
      (a := .removeSession (hexEncode token).toUpper) trivial rfl
  have same := agrees 3600 0 false _ run token ⟨[0x61], 3610⟩ 20 (by decide)
  revert same
  decide +kernel

end Steps

end SessionRun

end FirewallCore.Home
