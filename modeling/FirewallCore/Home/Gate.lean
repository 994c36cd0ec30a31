import FirewallCore.Lib.Glob
import FirewallCore.Home.Sessions

/-!
The gate in front of the handlers of the web server (`authhttp.go`, `authglinet.go`):
`optionalAuth`, over the store of sessions. The comparison of a password with a hash is
the parameter `bcryptMatches`.
-/

namespace FirewallCore.Home

open FirewallCore.Lib FirewallCore.Lib.Glob

/-- `webUser`. -/
structure WebUser where
  name : Bytes
  passwordHash : Bytes
  deriving DecidableEq, Repr

/-- What the gate reads of a request. -/
structure Request where
  path : Bytes
  cookie : Option String := none
  basicAuth : Option (Bytes × Bytes) := none
  glCookie : Option String := none

/-- What `Context` has for the gate. `tokenDate` is the date in the file of a GL-Inet token,
or nothing if there is no such file. -/
structure Gate where
  users : List WebUser
  bcryptMatches : Bytes → Bytes → Bool
  glMode : Bool := false
  tokenDate : String → Option UInt32 := fun _ => none

/-- What becomes of a request. -/
inductive Outcome where
  | handled
  /-- A redirect to the dashboard. -/
  | dashboard
  /-- A redirect to the login page, that of GL-Inet included. -/
  | login
  | forbidden
  deriving DecidableEq, Repr

namespace Gate

variable (g : Gate)

/-- `findUser`. -/
def findUser (login password : Bytes) : Option WebUser :=
  g.users.find? fun u => u.name == login && g.bcryptMatches u.passwordHash password

/-- `authRequired`. -/
def authRequired : Bool := g.glMode || g.users.length != 0

/-- `glProcessCookie`, with `glCheckToken`. -/
def glProcessCookie (r : Request) (unix : Nat) : Bool :=
  g.glMode && r.glCookie.any fun sess =>
    (g.tokenDate sess).any fun date => UInt32.ofNat unix ≤ date + 3600

/-- `isPublicResource`; nothing for a panic. -/
def isPublicResource (p : Bytes) : Option Bool := do
  let isAsset ← filepathMatch (utf8 "/assets/*") p
  let isLogin ← filepathMatch (utf8 "/login.*") p
  return isAsset || isLogin

/-- The variable `isAuthenticated` of `optionalAuthThird`, with the store after the check. -/
def isAuthenticated (a : Auth) (r : Request) (unix : Nat) : Auth × Bool :=
  match r.cookie with
  | none => (a, r.basicAuth.any fun basic => (g.findUser basic.1 basic.2).isSome)
  | some cookie =>
    let (a, res) := a.checkSession cookie unix
    (a, res == CheckSessionResult.ok)

/-- The pages from which `optionalAuthThird` leads to the login page. -/
def startPages : List Bytes := [utf8 "/", utf8 "/index.html"]

/-- `optionalAuthThird`, with what it answers to a user who should authenticate first. -/
def optionalAuthThird (a : Auth) (r : Request) (unix : Nat) : Auth × Option Outcome :=
  if g.glProcessCookie r unix then (a, none)
  else
    let (a, isAuthenticated) := g.isAuthenticated a r unix
    if isAuthenticated then (a, none)
    else if r.path ∈ startPages then (a, some .login)
    else (a, some .forbidden)

/-- `optionalAuth`. -/
def optionalAuth (a : Auth) (r : Request) (unix : Nat) : Option (Auth × Outcome) :=
  if r.path = utf8 "/login.html" then
    match r.cookie with
    | some cookie =>
      if g.authRequired then
        let (a, res) := a.checkSession cookie unix
        some (a, if res = .ok then .dashboard else .handled)
      else some (a, .handled)
    | none => some (a, .handled)
  else do
    if ← isPublicResource r.path then return (a, .handled)
    else if g.authRequired then
      let (a, mustAuth) := g.optionalAuthThird a r unix
      return (a, mustAuth.getD .handled)
    else return (a, .handled)

/-- Who holds a token that was issued, not removed, and has not expired, or, without a
cookie, knows the password of a user. -/
def Authenticated (s : SessionRun) (r : Request) (unix : Nat) : Prop :=
  match r.cookie with
  | some cookie => s.Accepts cookie unix
  | none => ∃ login password, r.basicAuth = some (login, password) ∧
      ∃ u ∈ g.users, u.name = login ∧ g.bcryptMatches u.passwordHash password = true

/-- Whom the gate lets through: everyone if there is nobody to log in, the holder of a
GL-Inet token, and who is authenticated. -/
def Admits (s : SessionRun) (r : Request) (unix : Nat) : Prop :=
  (g.glMode = false ∧ g.users = []) ∨ g.glProcessCookie r unix = true ∨ g.Authenticated s r unix

variable {g}

theorem findUser_isSome {login password : Bytes} : (g.findUser login password).isSome = true ↔
    ∃ u ∈ g.users, u.name = login ∧ g.bcryptMatches u.passwordHash password = true := by
  simp [findUser, List.find?_isSome]

/-- In every run of the store whose calls meet `SessionOp`, a request for a page that is not
public reaches its handler exactly when the gate should let it through, and gets a redirect
to the login page or a refusal otherwise. What the gate does to the store is a check. -/
theorem optionalAuth_admits {ttl : UInt32} {unix₀ unix : Nat} {oldBucket : Bool}
    {s : SessionRun}
    (run : Reaches SessionRun.step SessionRun.SessionOp (SessionRun.start ttl unix₀ oldBucket) s)
    {r : Request} (bound : unix + s.auth.sessionTTL.toNat < 2 ^ 32) (late : s.dropped ≤ unix)
    (page : r.path ≠ utf8 "/login.html") (guarded : isPublicResource r.path = some false) :
    ∃ a out, g.optionalAuth s.auth r unix = some (a, out) ∧ (out = .handled ↔ g.Admits s r unix) ∧
      (out = .handled ∨ out = if r.path ∈ startPages then .login else .forbidden) ∧
      (a = s.auth ∨ ∃ cookie, r.cookie = some cookie ∧ a = (s.auth.checkSession cookie unix).1) := by
  have inv : SessionRun.Inv s := run.invariant (SessionRun.Inv.start ttl unix₀ oldBucket)
    fun _ _ _ _ inv guard taken => inv.step guard taken
  have required : g.authRequired = false ↔ g.glMode = false ∧ g.users = [] := by
    simp [authRequired]
  have known : (g.isAuthenticated s.auth r unix).2 = true ↔ g.Authenticated s r unix := by
    unfold isAuthenticated Authenticated
    cases r.cookie with
    | none =>
      cases r.basicAuth with
      | none => simp
      | some basic =>
        simp only [Option.any_some, findUser_isSome]
        constructor
        · exact fun known => ⟨basic.1, basic.2, rfl, known⟩
        · rintro ⟨_, _, ⟨⟩, known⟩
          exact known
    | some cookie => simpa using inv.agrees.accepts cookie unix bound late
  have store : (g.isAuthenticated s.auth r unix).1 = s.auth ∨ ∃ cookie, r.cookie = some cookie ∧
      (g.isAuthenticated s.auth r unix).1 = (s.auth.checkSession cookie unix).1 := by
    unfold isAuthenticated
    cases r.cookie with
    | none => exact .inl rfl
    | some cookie => exact .inr ⟨cookie, rfl, rfl⟩
  unfold optionalAuth optionalAuthThird Admits
  rw [if_neg page, guarded, ← required, ← known]
  cases auth : g.authRequired with
  | false => exact ⟨s.auth, .handled, rfl, by simp, .inl rfl, .inl rfl⟩
  | true =>
    cases gl : g.glProcessCookie r unix with
    | true => exact ⟨s.auth, .handled, rfl, by simp, .inl rfl, .inl rfl⟩
    | false =>
      generalize g.isAuthenticated s.auth r unix = checked at store
      obtain ⟨a, isAuthenticated⟩ := checked
      cases isAuthenticated with
      | true => exact ⟨a, .handled, rfl, by simp, .inl rfl, store⟩
      | false =>
        by_cases start : r.path ∈ startPages
        · exact ⟨a, .login, by simp [start], by simp, .inr (if_pos start).symm, store⟩
        · exact ⟨a, .forbidden, by simp [start], by simp, .inr (if_neg start).symm, store⟩

def home : Gate := { users := [⟨[0x61], []⟩], bcryptMatches := fun _ _ => false }

def pageRequest : Request :=
  { path := utf8 "/control/status", cookie := hexEncode SessionRun.token }

/-- A page is shown to a user who has logged in. -/
theorem optionalAuth_admits_token : ∃ a,
    home.optionalAuth SessionRun.loggedIn.auth pageRequest 40 = some (a, .handled) := by
  have run : Reaches SessionRun.step SessionRun.SessionOp (SessionRun.start 3600 0 false)
      SessionRun.loggedIn :=
    Reaches.refl.tail (a := .login SessionRun.token [0x61] 10) ⟨⟨by decide, by decide⟩, trivial⟩ rfl
  obtain ⟨a, out, done, admits, -⟩ := optionalAuth_admits (g := home) run (r := pageRequest)
    (show 40 + SessionRun.loggedIn.auth.sessionTTL.toNat < 2 ^ 32 by decide +kernel) (by decide)
    (by decide +kernel) (by decide +kernel)
  have admitted : out = .handled := admits.mpr (.inr (.inr ⟨⟨[0x61], 3610⟩,
    by simp [SessionRun.loggedIn], by decide⟩))
  exact ⟨a, by rw [done, admitted]⟩

end Gate

end FirewallCore.Home
