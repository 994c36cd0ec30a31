import Mathlib.Algebra.Order.Ring.Nat
import Mathlib.Logic.Function.Basic
import FirewallCore.Lib.Run

/-!
The limit on failed logins (`authratelimiter.go`) and the requests that run
into it (`handleLogin`, `newCookie`).

A request asks `check`, compares the password, and then calls `inc` or
`remove`. Each of these is one atomic step, and requests interleave. Times and
durations are in nanoseconds. Beside the limiter the state keeps what an
observer would note of each address: the window of failures it is in.
-/

namespace FirewallCore.Home

open FirewallCore.Lib

/-- `failedAuthTTL`. -/
def failedAuthTTL : Nat := 60 * 10 ^ 9

/-- `failedAuth`. -/
structure FailedAuth where
  untilTime : Nat
  num : Nat
  deriving DecidableEq, Repr

/-- `authRateLimiter`. -/
structure AuthRateLimiter where
  failedAuths : String → Option FailedAuth
  blockDur : Nat
  maxAttempts : Nat

namespace AuthRateLimiter

/-- `newAuthRateLimiter`. -/
def newAuthRateLimiter (blockDur maxAttempts : Nat) : AuthRateLimiter :=
  ⟨fun _ => none, blockDur, maxAttempts⟩

/-- `cleanupLocked` removes the entries with expired TTL. -/
def cleanupLocked (ab : AuthRateLimiter) (now : Nat) : AuthRateLimiter :=
  { ab with failedAuths := fun usrID =>
      (ab.failedAuths usrID).filter fun a => !decide (a.untilTime < now) }

/-- `checkLocked`. -/
def checkLocked (ab : AuthRateLimiter) (usrID : String) (now : Nat) : Int :=
  match ab.failedAuths usrID with
  | none => 0
  | some a => if a.num < ab.maxAttempts then 0 else a.untilTime - now

/-- `check` returns the time left until unblocking. -/
def check (ab : AuthRateLimiter) (usrID : String) (now : Nat) : AuthRateLimiter × Int :=
  (ab.cleanupLocked now, (ab.cleanupLocked now).checkLocked usrID now)

/-- `inc`. -/
def inc (ab : AuthRateLimiter) (usrID : String) (now : Nat) : AuthRateLimiter :=
  let (untilTime, attNum) : Nat × Nat :=
    match ab.failedAuths usrID with
    | none => (now + failedAuthTTL, 1)
    | some a => (a.untilTime, a.num + 1)
  let untilTime := if ab.maxAttempts ≤ attNum then now + ab.blockDur else untilTime
  { ab with failedAuths := Function.update ab.failedAuths usrID (some ⟨untilTime, attNum⟩) }

/-- `remove` stops any tracking and any blocking of the user. -/
def remove (ab : AuthRateLimiter) (usrID : String) : AuthRateLimiter :=
  { ab with failedAuths := Function.update ab.failedAuths usrID none }

/-- The calls of `newCookie` on the limiter, once the password has been compared. -/
def newCookie (ab : AuthRateLimiter) (addr : String) (now : Nat) (ok : Bool) : AuthRateLimiter :=
  if ok then ab.remove addr else ab.inc addr now

theorem cleanupLocked_some {ab : AuthRateLimiter} {usrID : String} {now : Nat} {a : FailedAuth} :
    (ab.cleanupLocked now).failedAuths usrID = some a ↔
      ab.failedAuths usrID = some a ∧ now ≤ a.untilTime := by
  simp [cleanupLocked, Option.filter_eq_some_iff]

theorem cleanupLocked_none {ab : AuthRateLimiter} {usrID : String} {now : Nat} :
    (ab.cleanupLocked now).failedAuths usrID = none ↔
      ∀ a, ab.failedAuths usrID = some a → a.untilTime < now := by
  simp [cleanupLocked, Option.filter_eq_none_iff]

/-- Who passes the check has no entry, one with few failures, or one that ends now. -/
theorem check_nonpos {ab : AuthRateLimiter} {usrID : String} {now : Nat} {a : FailedAuth}
    (passed : (ab.check usrID now).2 ≤ 0)
    (found : (ab.cleanupLocked now).failedAuths usrID = some a)
    (many : ab.maxAttempts ≤ a.num) : a.untilTime ≤ now := by
  simp only [check, checkLocked, found] at passed
  have many : ¬a.num < (ab.cleanupLocked now).maxAttempts := Nat.not_lt.mpr many
  rw [if_neg many] at passed
  omega

theorem inc_failedAuths (ab : AuthRateLimiter) (usrID other : String) (now : Nat) :
    (ab.inc usrID now).failedAuths other =
      if other = usrID then
        match ab.failedAuths usrID with
        | none => some ⟨if ab.maxAttempts ≤ 1 then now + ab.blockDur else now + failedAuthTTL, 1⟩
        | some a => some
            ⟨if ab.maxAttempts ≤ a.num + 1 then now + ab.blockDur else a.untilTime, a.num + 1⟩
      else ab.failedAuths other := by
  by_cases here : other = usrID
  · subst here
    unfold inc
    cases ab.failedAuths other <;> simp
  · simp [inc, here]

theorem newCookie_blockDur (ab : AuthRateLimiter) (addr : String) (now : Nat) (ok : Bool) :
    (ab.newCookie addr now ok).blockDur = ab.blockDur := by
  cases ok <;> rfl

theorem newCookie_maxAttempts (ab : AuthRateLimiter) (addr : String) (now : Nat) (ok : Bool) :
    (ab.newCookie addr now ok).maxAttempts = ab.maxAttempts := by
  cases ok <;> rfl

theorem newCookie_of_ne (ab : AuthRateLimiter) {addr other : String} (apart : other ≠ addr)
    (now : Nat) (ok : Bool) :
    (ab.newCookie addr now ok).failedAuths other = ab.failedAuths other := by
  cases ok with
  | true => simp [newCookie, remove, apart]
  | false => simp [newCookie, inc_failedAuths, apart]

end AuthRateLimiter

/-! ### Requests -/

/-- A request between its check and its end: the password has not been compared yet, or it has
been found right or wrong. -/
structure Login where
  addr : String
  compared : Option Bool
  deriving DecidableEq, Repr

/-- The steps of the requests, each with its number and the remote address. -/
inductive LoginEvent where
  | check (id : Nat) (addr : String) (now : Nat)
  | compare (id : Nat) (addr : String) (now : Nat) (ok : Bool)
  | finish (id : Nat) (addr : String) (now : Nat)
  deriving DecidableEq, Repr

namespace LoginEvent

def addr : LoginEvent → String
  | check _ addr _ => addr
  | compare _ addr _ _ => addr
  | finish _ addr _ => addr

def now : LoginEvent → Nat
  | check _ _ now => now
  | compare _ _ now _ => now
  | finish _ _ now => now

end LoginEvent

/-- What a step shows. -/
inductive LoginAnswer where
  /-- "auth: blocked for %s" -/
  | blocked (left : Int)
  | allowed
  | compared (ok : Bool)
  | finished (ok : Bool)
  deriving DecidableEq, Repr

/-- A window of failures without a success in between. -/
structure Window where
  first : Nat
  fails : Nat
  last : Nat
  deriving DecidableEq, Repr

/-- A window is open for `failedAuthTTL` from its first failure, and once it has `maxAttempts`
failures, for `blockDur` from the last. -/
def Window.ends (ab : AuthRateLimiter) (w : Window) : Nat :=
  if ab.maxAttempts ≤ w.fails then w.last + ab.blockDur else w.first + failedAuthTTL

/-- The window after a failure. -/
def Window.failed (ab : AuthRateLimiter) (now : Nat) : Option Window → Window
  | none => ⟨now, 1, now⟩
  | some w => if now ≤ w.ends ab then ⟨w.first, w.fails + 1, now⟩ else ⟨now, 1, now⟩

structure LoginState where
  limiter : AuthRateLimiter
  logins : Nat → Option Login
  windows : String → Option Window
  clock : Nat

namespace LoginState

def start (blockDur maxAttempts : Nat) : LoginState :=
  ⟨.newAuthRateLimiter blockDur maxAttempts, fun _ => none, fun _ => none, 0⟩

/-- One step of a request; `none` when the request is not at that point. -/
def step (s : LoginState) : LoginEvent → Option (LoginState × LoginAnswer)
  | .check id addr now =>
    if s.logins id = none then
      let (limiter, left) := s.limiter.check addr now
      if 0 < left then some ({ s with limiter := limiter, clock := now }, .blocked left)
      else some ({ s with limiter := limiter, clock := now
                          logins := Function.update s.logins id (some ⟨addr, none⟩) }, .allowed)
    else none
  | .compare id addr now ok =>
    if s.logins id = some ⟨addr, none⟩ then
      some ({ s with clock := now
                     logins := Function.update s.logins id (some ⟨addr, some ok⟩) }, .compared ok)
    else none
  | .finish id addr now =>
    match (s.logins id).filter (·.addr = addr) with
    | some ⟨_, some ok⟩ =>
      some ({ s with clock := now
                     limiter := s.limiter.newCookie addr now ok
                     windows := Function.update s.windows addr
                       (if ok then none else some (.failed s.limiter now (s.windows addr)))
                     logins := Function.update s.logins id none }, .finished ok)
    | _ => none

/-- Some request of the address is between its check and its end. -/
def InFlight (s : LoginState) (addr : String) : Prop :=
  ∃ id login, s.logins id = some login ∧ login.addr = addr

/-- No comparison may be made for the address at this time. -/
def Blocked (s : LoginState) (addr : String) (now : Nat) : Prop :=
  ∃ w, s.windows addr = some w ∧ s.limiter.maxAttempts ≤ w.fails ∧
    now < w.last + s.limiter.blockDur

/-- Clock readings do not decrease. -/
def Timely (s : LoginState) (e : LoginEvent) : Prop := s.clock ≤ e.now

instance (s : LoginState) (e : LoginEvent) : Decidable (Timely s e) :=
  inferInstanceAs (Decidable (_ ≤ _))

/-- What a step must be besides: requests of one address do not overlap, and no entry expires
while a request of its address is in flight. -/
def LoginOp (s : LoginState) (e : LoginEvent) : Prop :=
  Timely s e ∧ match e with
    | .check _ addr now => ¬s.InFlight addr ∧
        ∀ other a, s.InFlight other → s.limiter.failedAuths other = some a → now ≤ a.untilTime
    | .compare .. => True
    | .finish _ addr now => ∀ a, s.limiter.failedAuths addr = some a → now ≤ a.untilTime

/-- The invariant. An entry is the window of its address and goes no earlier than the window
ends; who was allowed to compare found no block. -/
structure Inv (s : LoginState) : Prop where
  once : ∀ {i j l m}, s.logins i = some l → s.logins j = some m → l.addr = m.addr → i = j
  fresh : ∀ {addr}, s.windows addr = none → s.limiter.failedAuths addr = none
  tracked : ∀ {addr w}, s.windows addr = some w →
    s.limiter.failedAuths addr = some ⟨w.ends s.limiter, w.fails⟩ ∨
      (s.limiter.failedAuths addr = none ∧ w.ends s.limiter < s.clock)
  passed : ∀ {id addr a}, s.logins id = some ⟨addr, none⟩ →
    s.limiter.failedAuths addr = some a → s.limiter.maxAttempts ≤ a.num → a.untilTime ≤ s.clock

section Steps

variable {s s' : LoginState} {answer : LoginAnswer}

theorem Inv.start (blockDur maxAttempts : Nat) : Inv (start blockDur maxAttempts) := by
  constructor
  · intro i j l m found
    cases found
  · intro addr _
    rfl
  · intro addr w found
    cases found
  · intro id addr a found
    cases found

/-- The three ways a step can go. -/
theorem step_cases {e : LoginEvent} (taken : step s e = some (s', answer)) :
    (∃ id addr now, e = .check id addr now ∧ s.logins id = none ∧
      ((0 < (s.limiter.check addr now).2 ∧ answer = .blocked (s.limiter.check addr now).2 ∧
          s' = { s with limiter := s.limiter.cleanupLocked now, clock := now }) ∨
        ((s.limiter.check addr now).2 ≤ 0 ∧ answer = .allowed ∧
          s' = { s with limiter := s.limiter.cleanupLocked now, clock := now
                        logins := Function.update s.logins id (some ⟨addr, none⟩) }))) ∨
    (∃ id addr now ok, e = .compare id addr now ok ∧ s.logins id = some ⟨addr, none⟩ ∧
      answer = .compared ok ∧
      s' = { s with clock := now
                    logins := Function.update s.logins id (some ⟨addr, some ok⟩) }) ∨
    (∃ id addr now ok, e = .finish id addr now ∧ s.logins id = some ⟨addr, some ok⟩ ∧
      answer = .finished ok ∧
      s' = { s with
        clock := now
        limiter := s.limiter.newCookie addr now ok
        windows := Function.update s.windows addr
          (if ok then none else some (.failed s.limiter now (s.windows addr)))
        logins := Function.update s.logins id none }) := by
  cases e with
  | check id addr now =>
    left
    simp only [step] at taken
    split at taken
    · rename_i free
      refine ⟨id, addr, now, rfl, free, ?_⟩
      split at taken
      · rename_i left
        left
        cases taken
        exact ⟨left, rfl, rfl⟩
      · rename_i passed
        right
        cases taken
        exact ⟨Int.not_lt.mp passed, rfl, rfl⟩
    · cases taken
  | compare id addr now ok =>
    right
    left
    simp only [step] at taken
    split at taken
    · rename_i here
      cases taken
      exact ⟨id, addr, now, ok, rfl, here, rfl, rfl⟩
    · cases taken
  | finish id addr now =>
    right
    right
    simp only [step] at taken
    split at taken
    · rename_i addr' ok filtered
      obtain ⟨found, same⟩ := Option.filter_eq_some_iff.mp filtered
      have same : addr' = addr := of_decide_eq_true same
      subst same
      cases taken
      exact ⟨id, addr', now, ok, rfl, found, rfl, rfl⟩
    · cases taken

theorem Inv.check (inv : Inv s) {now : Nat} (timely : s.clock ≤ now) :
    Inv { s with limiter := s.limiter.cleanupLocked now, clock := now } := by
  constructor
  · exact inv.once
  · intro addr none
    have absent := inv.fresh none
    exact AuthRateLimiter.cleanupLocked_none.mpr (by simp [absent])
  · intro addr w window
    change (s.limiter.cleanupLocked now).failedAuths addr = some ⟨w.ends s.limiter, w.fails⟩ ∨
      ((s.limiter.cleanupLocked now).failedAuths addr = none ∧ w.ends s.limiter < now)
    rcases inv.tracked window with entry | ⟨absent, ended⟩
    · by_cases ended : w.ends s.limiter < now
      · exact .inr ⟨AuthRateLimiter.cleanupLocked_none.mpr (by simp [entry, ended]), ended⟩
      · exact .inl (AuthRateLimiter.cleanupLocked_some.mpr ⟨entry, Nat.not_lt.mp ended⟩)
    · right
      exact ⟨AuthRateLimiter.cleanupLocked_none.mpr (by simp [absent]),
        Nat.lt_of_lt_of_le ended timely⟩
  · intro id addr a login found many
    obtain ⟨found, -⟩ := AuthRateLimiter.cleanupLocked_some.mp found
    exact Nat.le_trans (inv.passed login found many) timely

theorem Inv.allow (inv : Inv s) {id : Nat} {addr : String} (alone : ¬s.InFlight addr)
    (unblocked : ∀ a, s.limiter.failedAuths addr = some a → s.limiter.maxAttempts ≤ a.num →
      a.untilTime ≤ s.clock) :
    Inv { s with logins := Function.update s.logins id (some ⟨addr, none⟩) } := by
  constructor
  · intro i j l m first second same
    by_cases hi : i = id
    · by_cases hj : j = id
      · rw [hi, hj]
      · subst hi
        obtain rfl : ⟨addr, none⟩ = l := by simpa using first
        exact absurd ⟨j, m, by simpa [hj] using second, same.symm⟩ alone
    · by_cases hj : j = id
      · subst hj
        obtain rfl : ⟨addr, none⟩ = m := by simpa using second
        exact absurd ⟨i, l, by simpa [hi] using first, same⟩ alone
      · exact inv.once (by simpa [hi] using first) (by simpa [hj] using second) same
  · exact inv.fresh
  · exact inv.tracked
  · intro i other a login found many
    by_cases hi : i = id
    · subst hi
      obtain rfl : addr = other := by simpa using login
      exact unblocked a found many
    · exact inv.passed (by simpa [hi] using login) found many

theorem Inv.compare (inv : Inv s) {id : Nat} {addr : String} {now : Nat} {ok : Bool}
    (timely : s.clock ≤ now) (login : s.logins id = some ⟨addr, none⟩) :
    Inv { s with clock := now
                 logins := Function.update s.logins id (some ⟨addr, some ok⟩) } := by
  -- the request keeps its number and its address
  have before : ∀ {i l}, Function.update s.logins id (some ⟨addr, some ok⟩) i = some l →
      ∃ l', s.logins i = some l' ∧ l'.addr = l.addr := by
    intro i l found
    by_cases hi : i = id
    · subst hi
      obtain rfl : ⟨addr, some ok⟩ = l := by simpa using found
      exact ⟨_, login, rfl⟩
    · exact ⟨l, by simpa [hi] using found, rfl⟩
  constructor
  · intro i j l m first second same
    obtain ⟨l', first, hl⟩ := before first
    obtain ⟨m', second, hm⟩ := before second
    exact inv.once first second (by rw [hl, hm, same])
  · exact inv.fresh
  · intro other w window
    rcases inv.tracked window with entry | ⟨absent, ended⟩
    · exact .inl entry
    · exact .inr ⟨absent, Nat.lt_of_lt_of_le ended timely⟩
  · intro i other a found entry many
    by_cases hi : i = id
    · subst hi
      simp at found
    · exact Nat.le_trans (inv.passed (by simpa [hi] using found) entry many) timely

theorem Inv.finish (inv : Inv s) {id : Nat} {addr : String} {now : Nat} {ok : Bool}
    (timely : s.clock ≤ now) (login : s.logins id = some ⟨addr, some ok⟩)
    (inTime : ∀ a, s.limiter.failedAuths addr = some a → now ≤ a.untilTime) :
    Inv { s with
      clock := now
      limiter := s.limiter.newCookie addr now ok
      windows := Function.update s.windows addr
        (if ok then none else some (.failed s.limiter now (s.windows addr)))
      logins := Function.update s.logins id none } := by
  have others : ∀ {i l}, Function.update s.logins id none i = some l →
      s.logins i = some l ∧ l.addr ≠ addr := by
    intro i l found
    by_cases hi : i = id
    · subst hi
      simp at found
    · have found : s.logins i = some l := by simpa [hi] using found
      exact ⟨found, fun same => hi (inv.once found login same)⟩
  have ends : ∀ w, Window.ends (s.limiter.newCookie addr now ok) w = w.ends s.limiter := by
    intro w
    simp only [Window.ends, AuthRateLimiter.newCookie_maxAttempts,
      AuthRateLimiter.newCookie_blockDur]
  constructor
  · intro i j l m first second same
    exact inv.once (others first).1 (others second).1 same
  · intro other none
    dsimp only at none ⊢
    by_cases here : other = addr
    · subst here
      cases ok with
      | true => simp [AuthRateLimiter.newCookie, AuthRateLimiter.remove]
      | false => simp at none
    · rw [s.limiter.newCookie_of_ne here]
      exact inv.fresh (by simpa [here] using none)
  · intro other w window
    dsimp only at window ⊢
    rw [ends]
    by_cases here : other = addr
    · subst here
      cases ok with
      | true => simp at window
      | false =>
        left
        obtain rfl : Window.failed s.limiter now (s.windows other) = w := by simpa using window
        simp only [AuthRateLimiter.newCookie, Bool.false_eq_true, if_false,
          AuthRateLimiter.inc_failedAuths, if_true]
        cases before : s.windows other with
        | none =>
          rw [inv.fresh before]
          rfl
        | some w =>
          rcases inv.tracked before with entry | ⟨absent, ended⟩
          · have notEnded : now ≤ w.ends s.limiter := inTime _ entry
            rw [entry, Window.failed, if_pos notEnded]
            simp only [Window.ends, Option.some.injEq, FailedAuth.mk.injEq, and_true]
            split
            · rfl
            · rename_i few
              rw [if_neg (by omega)]
          · have closed : ¬now ≤ w.ends s.limiter := by omega
            rw [absent, Window.failed, if_neg closed]
            rfl
    · rw [s.limiter.newCookie_of_ne here]
      rcases inv.tracked (show s.windows other = some w by simpa [here] using window) with
        entry | ⟨absent, ended⟩
      · exact .inl entry
      · exact .inr ⟨absent, Nat.lt_of_lt_of_le ended timely⟩
  · intro i other a found entry many
    obtain ⟨found, apart⟩ := others found
    dsimp only at entry many
    rw [s.limiter.newCookie_of_ne apart] at entry
    rw [AuthRateLimiter.newCookie_maxAttempts] at many
    exact Nat.le_trans (inv.passed found entry many) timely

theorem Inv.step (inv : Inv s) {e : LoginEvent} (guard : LoginOp s e)
    (taken : LoginState.step s e = some (s', answer)) : Inv s' := by
  obtain ⟨timely, guard⟩ := guard
  rcases step_cases taken with ⟨id, addr, now, rfl, -, rest⟩ | ⟨id, addr, now, ok, rfl, login, -, rfl⟩ |
    ⟨id, addr, now, ok, rfl, login, -, rfl⟩
  · have checked := inv.check timely
    rcases rest with ⟨-, -, rfl⟩ | ⟨passed, -, rfl⟩
    · exact checked
    · refine checked.allow guard.1 ?_
      intro a found many
      exact AuthRateLimiter.check_nonpos passed found many
  · exact inv.compare timely login
  · exact inv.finish timely login guard

/-- A comparison is made only when the address is not blocked. -/
theorem Inv.not_blocked (inv : Inv s) {id : Nat} {addr : String} {now : Nat} {ok : Bool}
    (timely : s.clock ≤ now)
    (taken : LoginState.step s (.compare id addr now ok) = some (s', answer)) :
    ¬s.Blocked addr now := by
  rintro ⟨w, window, many, early⟩
  rcases step_cases taken with ⟨_, _, _, event, -⟩ | ⟨_, _, _, _, event, login, -⟩ |
    ⟨_, _, _, _, event, -⟩
  · cases event
  · cases event
    have ends : w.ends s.limiter = w.last + s.limiter.blockDur := if_pos many
    rcases inv.tracked window with entry | ⟨-, ended⟩
    · have past := inv.passed login entry many
      dsimp only at past
      omega
    · omega
  · cases event

end Steps

/-! ### Other addresses -/

/-- To the requests of one address, `s` looks like `t`, in which no other address is seen. An
entry that only `t` has would be cleaned up by the next check. -/
structure LooksLike (addr : String) (s t : LoginState) : Prop where
  blockDur : t.limiter.blockDur = s.limiter.blockDur
  maxAttempts : t.limiter.maxAttempts = s.limiter.maxAttempts
  own : ∀ {id l}, t.logins id = some l → l.addr = addr ∧ s.logins id = some l
  seen : ∀ {id l}, s.logins id = some l → l.addr = addr → t.logins id = some l
  entry : t.limiter.failedAuths addr = s.limiter.failedAuths addr ∨
    (s.limiter.failedAuths addr = none ∧ ¬s.InFlight addr ∧
      ∃ a, t.limiter.failedAuths addr = some a ∧ a.untilTime < s.clock)

theorem LooksLike.refl_start (addr : String) (blockDur maxAttempts : Nat) :
    LooksLike addr (start blockDur maxAttempts) (start blockDur maxAttempts) := by
  constructor
  · rfl
  · rfl
  · intro id l found
    cases found
  · intro id l found
    cases found
  · exact .inl rfl

section Others

variable {s s' t : LoginState} {answer : LoginAnswer} {addr : String}

/-- A cleanup makes the entries of the address equal. -/
theorem LooksLike.cleanupLocked (looks : LooksLike addr s t) {now : Nat} (timely : s.clock ≤ now) :
    (t.limiter.cleanupLocked now).failedAuths addr =
      (s.limiter.cleanupLocked now).failedAuths addr := by
  rcases looks.entry with same | ⟨absent, -, a, stale, expired⟩
  · simp only [AuthRateLimiter.cleanupLocked, same]
  · have gone : a.untilTime < now := Nat.lt_of_lt_of_le expired timely
    simp [AuthRateLimiter.cleanupLocked, absent, stale, gone]

theorem LooksLike.check (looks : LooksLike addr s t) {now : Nat} (timely : s.clock ≤ now) :
    (t.limiter.check addr now).2 = (s.limiter.check addr now).2 := by
  have attempts : (t.limiter.cleanupLocked now).maxAttempts =
      (s.limiter.cleanupLocked now).maxAttempts := looks.maxAttempts
  simp only [AuthRateLimiter.check, AuthRateLimiter.checkLocked, looks.cleanupLocked timely,
    attempts]

/-- Whoever is in flight has its entry. -/
theorem LooksLike.entry_of_inFlight (looks : LooksLike addr s t) (inFlight : s.InFlight addr) :
    t.limiter.failedAuths addr = s.limiter.failedAuths addr := by
  rcases looks.entry with same | ⟨-, idle, -⟩
  · exact same
  · exact absurd inFlight idle

/-- A request of the address is entered, moved on or ended in both. -/
theorem LooksLike.update (looks : LooksLike addr s t) (id : Nat) {login : Option Login}
    (fits : ∀ l, login = some l → l.addr = addr) :
    (∀ {i l}, Function.update t.logins id login i = some l →
      l.addr = addr ∧ Function.update s.logins id login i = some l) ∧
    ∀ {i l}, Function.update s.logins id login i = some l → l.addr = addr →
      Function.update t.logins id login i = some l := by
  constructor
  · intro i l found
    by_cases hi : i = id
    · subst hi
      rw [Function.update_self] at found ⊢
      exact ⟨fits l found, found⟩
    · rw [Function.update_of_ne hi] at found ⊢
      exact looks.own found
  · intro i l found same
    by_cases hi : i = id
    · subst hi
      rw [Function.update_self] at found ⊢
      exact found
    · rw [Function.update_of_ne hi] at found ⊢
      exact looks.seen found same

/-- A step of the address itself is answered alike. -/
theorem LooksLike.step_own (looks : LooksLike addr s t) {e : LoginEvent} (guard : LoginOp s e)
    (mine : e.addr = addr) (taken : LoginState.step s e = some (s', answer)) :
    ∃ t', LoginState.step t e = some (t', answer) ∧ LooksLike addr s' t' := by
  subst mine
  obtain ⟨timely, -⟩ := guard
  rcases step_cases taken with ⟨id, addr, now, rfl, free, rest⟩ |
    ⟨id, addr, now, ok, rfl, login, rfl, rfl⟩ | ⟨id, addr, now, ok, rfl, login, rfl, rfl⟩
  · have timely : s.clock ≤ now := timely
    have looks : LooksLike addr s t := looks
    have free' : t.logins id = none := by
      cases found : t.logins id with
      | none => rfl
      | some l => cases (looks.own found).2.symm.trans free
    have left := looks.check timely
    have entry := looks.cleanupLocked timely
    rcases rest with ⟨blocked, rfl, rfl⟩ | ⟨passed, rfl, rfl⟩
    · refine ⟨{ t with limiter := t.limiter.cleanupLocked now, clock := now }, ?_, ?_⟩
      · simp only [LoginState.step, if_pos free', left, if_pos blocked]
        rfl
      · exact ⟨looks.blockDur, looks.maxAttempts, looks.own, looks.seen, .inl entry⟩
    · have fits : ∀ l, some (Login.mk addr none) = some l → l.addr = addr := by
        rintro l ⟨⟩
        rfl
      obtain ⟨own, seen⟩ := looks.update id fits
      refine ⟨{ t with limiter := t.limiter.cleanupLocked now, clock := now
                       logins := Function.update t.logins id (some ⟨addr, none⟩) }, ?_, ?_⟩
      · simp only [LoginState.step, if_pos free', left, if_neg (Int.not_lt.mpr passed)]
        rfl
      · exact ⟨looks.blockDur, looks.maxAttempts, own, seen, .inl entry⟩
  · have looks : LooksLike addr s t := looks
    have fits : ∀ l, some (Login.mk addr (some ok)) = some l → l.addr = addr := by
      rintro l ⟨⟩
      rfl
    obtain ⟨own, seen⟩ := looks.update id fits
    refine ⟨{ t with clock := now
                     logins := Function.update t.logins id (some ⟨addr, some ok⟩) }, ?_, ?_⟩
    · simp only [LoginState.step, if_pos (looks.seen login rfl)]
    · have entry := looks.entry_of_inFlight ⟨id, _, login, rfl⟩
      exact ⟨looks.blockDur, looks.maxAttempts, own, seen, .inl entry⟩
  · have looks : LooksLike addr s t := looks
    have fits : ∀ l : Login, none = some l → l.addr = addr := by
      rintro l ⟨⟩
    obtain ⟨own, seen⟩ := looks.update id fits
    have entry := looks.entry_of_inFlight ⟨id, _, login, rfl⟩
    have login' := looks.seen login rfl
    refine ⟨{ t with
      clock := now
      limiter := t.limiter.newCookie addr now ok
      windows := Function.update t.windows addr
        (if ok then none else some (.failed t.limiter now (t.windows addr)))
      logins := Function.update t.logins id none }, ?_, ?_⟩
    · simp [LoginState.step, login', Option.filter]
    · refine ⟨?_, ?_, own, seen, .inl ?_⟩
      · simp only [AuthRateLimiter.newCookie_blockDur, looks.blockDur]
      · simp only [AuthRateLimiter.newCookie_maxAttempts, looks.maxAttempts]
      · change (t.limiter.newCookie addr now ok).failedAuths addr =
          (s.limiter.newCookie addr now ok).failedAuths addr
        cases ok with
        | true => simp [AuthRateLimiter.newCookie, AuthRateLimiter.remove]
        | false => simp [AuthRateLimiter.newCookie, AuthRateLimiter.inc_failedAuths, entry,
            looks.maxAttempts, looks.blockDur]

/-- The requests of the address are not touched by a step of another one. -/
theorem LooksLike.others (looks : LooksLike addr s t) {id : Nat} {login : Option Login}
    (before : ∀ l, s.logins id = some l → l.addr ≠ addr)
    (after : ∀ l, login = some l → l.addr ≠ addr) :
    (∀ {i l}, t.logins i = some l →
      l.addr = addr ∧ Function.update s.logins id login i = some l) ∧
    (∀ {i l}, Function.update s.logins id login i = some l → l.addr = addr →
      t.logins i = some l) := by
  constructor
  · intro i l found
    obtain ⟨mine, there⟩ := looks.own found
    have hi : i ≠ id := by
      rintro rfl
      exact before l there mine
    rw [Function.update_of_ne hi]
    exact ⟨mine, there⟩
  · intro i l found same
    by_cases hi : i = id
    · subst hi
      rw [Function.update_self] at found
      exact absurd same (after l found)
    · rw [Function.update_of_ne hi] at found
      exact looks.seen found same

/-- The entry after a step that leaves it alone. -/
theorem LooksLike.entry_after (looks : LooksLike addr s t)
    (seen : ∀ {i l}, s'.logins i = some l → l.addr = addr → t.logins i = some l)
    (same : s'.limiter.failedAuths addr = s.limiter.failedAuths addr) (timely : s.clock ≤ s'.clock) :
    t.limiter.failedAuths addr = s'.limiter.failedAuths addr ∨
      (s'.limiter.failedAuths addr = none ∧ ¬s'.InFlight addr ∧
        ∃ a, t.limiter.failedAuths addr = some a ∧ a.untilTime < s'.clock) := by
  rw [same]
  rcases looks.entry with like | ⟨absent, idle, a, stale, expired⟩
  · exact .inl like
  · refine .inr ⟨absent, ?_, a, stale, Nat.lt_of_lt_of_le expired timely⟩
    rintro ⟨i, l, found, mine⟩
    exact idle ⟨i, l, (looks.own (seen found mine)).2, mine⟩

/-- A step of another address cannot be noticed. -/
theorem LooksLike.step_other (looks : LooksLike addr s t) {e : LoginEvent} (guard : LoginOp s e)
    (other : e.addr ≠ addr) (taken : LoginState.step s e = some (s', answer)) :
    LooksLike addr s' t := by
  obtain ⟨timely, guard⟩ := guard
  rcases step_cases taken with ⟨id, b, now, rfl, free, rest⟩ |
    ⟨id, b, now, ok, rfl, login, -, rfl⟩ | ⟨id, b, now, ok, rfl, login, -, rfl⟩
  · -- the cleanup may remove the entry, of which no request in flight then knows
    have timely : s.clock ≤ now := timely
    have entry : t.limiter.failedAuths addr = (s.limiter.cleanupLocked now).failedAuths addr ∨
        ((s.limiter.cleanupLocked now).failedAuths addr = none ∧ ¬s.InFlight addr ∧
          ∃ a, t.limiter.failedAuths addr = some a ∧ a.untilTime < now) := by
      rcases looks.entry with same | ⟨absent, idle, a, stale, expired⟩
      · cases found : s.limiter.failedAuths addr with
        | none =>
          left
          rw [same, found]
          exact (AuthRateLimiter.cleanupLocked_none.mpr (by simp [found])).symm
        | some a =>
          by_cases expired : a.untilTime < now
          · right
            refine ⟨AuthRateLimiter.cleanupLocked_none.mpr (by simp [found, expired]), ?_, a,
              same.trans found, expired⟩
            intro inFlight
            exact absurd (guard.2 addr a inFlight found) (Nat.not_le.mpr expired)
          · left
            rw [same, found]
            exact (AuthRateLimiter.cleanupLocked_some.mpr ⟨found, Nat.not_lt.mp expired⟩).symm
      · right
        exact ⟨AuthRateLimiter.cleanupLocked_none.mpr (by simp [absent]), idle, a, stale,
          Nat.lt_of_lt_of_le expired timely⟩
    rcases rest with ⟨-, -, rfl⟩ | ⟨-, -, rfl⟩
    · exact ⟨looks.blockDur, looks.maxAttempts, looks.own, looks.seen, entry⟩
    · have before : ∀ l, s.logins id = some l → l.addr ≠ addr := by
        intro l found
        cases free.symm.trans found
      have after : ∀ l, some (Login.mk b none) = some l → l.addr ≠ addr := by
        rintro l ⟨⟩
        exact other
      obtain ⟨own, seen⟩ := looks.others before after
      refine ⟨looks.blockDur, looks.maxAttempts, own, seen, ?_⟩
      rcases entry with same | ⟨absent, idle, stale⟩
      · exact .inl same
      · refine .inr ⟨absent, ?_, stale⟩
        rintro ⟨i, l, found, mine⟩
        exact idle ⟨i, l, (looks.own (seen found mine)).2, mine⟩
  · have timely : s.clock ≤ now := timely
    have before : ∀ l, s.logins id = some l → l.addr ≠ addr := by
      intro l found
      cases login.symm.trans found
      exact other
    have after : ∀ l, some (Login.mk b (some ok)) = some l → l.addr ≠ addr := by
      rintro l ⟨⟩
      exact other
    obtain ⟨own, seen⟩ := looks.others before after
    exact ⟨looks.blockDur, looks.maxAttempts, own, seen, looks.entry_after seen rfl timely⟩
  · have timely : s.clock ≤ now := timely
    have apart : addr ≠ b := fun same => other same.symm
    have before : ∀ l, s.logins id = some l → l.addr ≠ addr := by
      intro l found
      cases login.symm.trans found
      exact other
    have after : ∀ l : Login, none = some l → l.addr ≠ addr := by
      rintro l ⟨⟩
    obtain ⟨own, seen⟩ := looks.others before after
    refine ⟨?_, ?_, own, seen, looks.entry_after seen (s.limiter.newCookie_of_ne apart now ok) timely⟩
    · simp only [AuthRateLimiter.newCookie_blockDur, looks.blockDur]
    · simp only [AuthRateLimiter.newCookie_maxAttempts, looks.maxAttempts]

/-- The steps of an address are answered as if there were no other. -/
theorem LooksLike.answers (looks : LooksLike addr s t) {events : List LoginEvent}
    {outcome : List (LoginEvent × LoginAnswer)} (guarded : Meets LoginState.step LoginOp s events)
    (done : answers LoginState.step s events = some outcome) :
    answers LoginState.step t (events.filter (·.addr = addr)) =
      some (outcome.filter (·.1.addr = addr)) := by
  induction events generalizing s t outcome with
  | nil =>
    cases done
    rfl
  | cons e rest ih =>
    obtain ⟨guard, later⟩ := guarded
    obtain ⟨⟨s', answer⟩, taken, mapped⟩ := Option.bind_eq_some_iff.mp done
    obtain ⟨outcome, answered, rfl⟩ := Option.map_eq_some_iff.mp mapped
    by_cases mine : e.addr = addr
    · obtain ⟨t', taken', looks'⟩ := looks.step_own guard mine taken
      rw [List.filter_cons_of_pos (by simpa using mine),
        List.filter_cons_of_pos (by simpa using mine)]
      simp only [Lib.answers, taken', Option.bind_some,
        ih looks' (later s' answer taken) answered, Option.map_some]
    · rw [List.filter_cons_of_neg (by simpa using mine),
        List.filter_cons_of_neg (by simpa using mine)]
      exact ih (looks.step_other guard mine taken) (later s' answer taken) answered

end Others

/-- In every interleaving whose steps meet `LoginOp`, no password is compared for an address
that has `maxAttempts` failures in its window before `blockDur` has passed since the last of
them, and the steps of an address are answered as if there were no other. -/
theorem logins_limited (blockDur maxAttempts : Nat) :
    (∀ s s' id addr now ok answer,
      Reaches LoginState.step LoginOp (start blockDur maxAttempts) s →
      LoginOp s (.compare id addr now ok) →
      LoginState.step s (.compare id addr now ok) = some (s', answer) → ¬s.Blocked addr now) ∧
    ∀ events outcome addr, Meets LoginState.step LoginOp (start blockDur maxAttempts) events →
      answers LoginState.step (start blockDur maxAttempts) events = some outcome →
      answers LoginState.step (start blockDur maxAttempts) (events.filter (·.addr = addr)) =
        some (outcome.filter (·.1.addr = addr)) := by
  constructor
  · intro s s' id addr now ok answer run guard taken
    have inv := run.invariant (Inv.start blockDur maxAttempts)
      fun _ _ _ _ inv guard taken => inv.step guard taken
    exact inv.not_blocked guard.1 taken
  · intro events outcome addr guarded done
    exact (LooksLike.refl_start addr blockDur maxAttempts).answers guarded done

/-- One request of an address, and then one of another. -/
def twoLogins : List LoginEvent :=
  [.check 0 "a" 1, .compare 0 "a" 2 false, .finish 0 "a" 3, .check 1 "b" 4]

theorem logins_limited_two :
    (∃ s s', Reaches LoginState.step LoginOp (start 100 1) s ∧
      LoginState.step s (.compare 0 "a" 2 false) = some (s', .compared false) ∧
      ¬s.Blocked "a" 2) ∧
    answers LoginState.step (start 100 1) (twoLogins.filter (·.addr = "b")) =
      some [(.check 1 "b" 4, .allowed)] := by
  have idle : ∀ addr, ¬(start 100 1).InFlight addr := by
    rintro addr ⟨id, login, found, -⟩
    cases found
  have guard : LoginOp (start 100 1) (.check 0 "a" 1) :=
    ⟨Nat.zero_le _, idle "a", fun other _ inFlight _ => absurd inFlight (idle other)⟩
  constructor
  · have run : Reaches LoginState.step LoginOp (start 100 1) _ := Reaches.refl.tail guard rfl
    refine ⟨_, _, run, rfl, ?_⟩
    exact (logins_limited 100 1).1 _ _ 0 "a" 2 false _ run ⟨by decide, trivial⟩ rfl
  · have guarded : Meets LoginState.step LoginOp (start 100 1) twoLogins := by
      refine ⟨guard, ?_⟩
      rintro s₁ _ ⟨⟩
      refine ⟨⟨by decide, trivial⟩, ?_⟩
      rintro s₂ _ ⟨⟩
      refine ⟨⟨by decide, fun a found => ?_⟩, ?_⟩
      · cases found
      rintro s₃ _ ⟨⟩
      refine ⟨⟨by decide, ?_, ?_⟩, fun _ _ _ => trivial⟩
      · rintro ⟨id, login, found, -⟩
        simp [start, Function.update_apply] at found
        exact absurd found.2.1 found.1
      · rintro other a ⟨id, login, found, -⟩
        simp [start, Function.update_apply] at found
        exact absurd found.2.1 found.1
    exact (logins_limited 100 1).2 twoLogins _ "b" guarded rfl

/-- Two requests are checked before the first of them has failed, and both passwords are
compared. -/
theorem logins_not_limited : ¬∀ (blockDur maxAttempts : Nat) (s s' : LoginState) (id : Nat)
    (addr : String) (now : Nat) (ok : Bool) (answer : LoginAnswer),
    Reaches LoginState.step Timely (start blockDur maxAttempts) s →
    Timely s (.compare id addr now ok) →
    LoginState.step s (.compare id addr now ok) = some (s', answer) → ¬s.Blocked addr now := by
  intro limited
  have checked : Reaches LoginState.step Timely (start 100 1) _ :=
    (Reaches.refl.tail (a := .check 0 "a" 1) (by decide) rfl).tail
      (a := .check 1 "a" 2) (by decide) rfl
  have run : Reaches LoginState.step Timely (start 100 1) _ :=
    (checked.tail (a := .compare 0 "a" 3 false) (by decide) rfl).tail
      (a := .finish 0 "a" 4) (by decide) rfl
  refine limited 100 1 _ _ 1 "a" 5 false _ run (by decide) rfl ?_
  exact ⟨⟨4, 1, 4⟩, rfl, by decide, by decide⟩

end LoginState

end FirewallCore.Home
