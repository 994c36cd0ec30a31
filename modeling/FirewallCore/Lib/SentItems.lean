import Mathlib.Data.List.Basic

/-!
A store that takes items in batches, and a cache of items that are known to be there.

A batch is cut down to what is not cached, and is not sent at all when nothing
is left. The store takes all of a batch or none of it. Of what was taken, only
items that the store keeps for good may be cached. `Sound` is what the cache has
to satisfy; with it, a run through the cache is a run without it, against a store
that refuses less often (`exists_sendAllPlain`).
-/

namespace FirewallCore.Lib

variable {α : Type} [DecidableEq α]

/-- What the store has, and what the sender remembers of it. -/
structure SentItems (α : Type) where
  cached : List α
  members : List α

namespace SentItems

/-- The items of a batch that have to be sent. -/
def fresh (s : SentItems α) (batch : List α) : List α := batch.filter (· ∉ s.cached)

/-- Sends one batch; `none` when the store refuses it. -/
def send (keep : α → Bool) (fails : Bool) (s : SentItems α) (batch : List α) :
    Option (SentItems α) :=
  if s.fresh batch = [] then some s
  else if fails then none
  else some {
    cached := s.cached ++ (s.fresh batch).filter keep
    members := s.members ++ s.fresh batch }

/-- Sends batches up to the first one that is refused; `fails i` is for the `i`-th of them. The
answer is whether there was none. -/
def sendAll (keep : α → Bool) : (Nat → Bool) → SentItems α → List (List α) → Bool × SentItems α
  | _, s, [] => (true, s)
  | fails, s, batch :: rest =>
    match s.send keep (fails 0) batch with
    | none => (false, s)
    | some s' => sendAll keep (fun i => fails (i + 1)) s' rest

/-- The same without a cache. -/
def sendPlain (fails : Bool) (members batch : List α) : Option (List α) :=
  if batch = [] then some members
  else if fails then none
  else some (members ++ batch)

def sendAllPlain : (Nat → Bool) → List α → List (List α) → Bool × List α
  | _, members, [] => (true, members)
  | fails, members, batch :: rest =>
    match sendPlain (fails 0) members batch with
    | none => (false, members)
    | some members' => sendAllPlain (fun i => fails (i + 1)) members' rest

/-- The answers to a first batch and to those after it. -/
def firstThen (first : Bool) (later : Nat → Bool) : Nat → Bool
  | 0 => first
  | i + 1 => later i

/-- What is cached is in the store for good. -/
def Sound (keep : α → Bool) (s : SentItems α) : Prop :=
  ∀ x ∈ s.cached, x ∈ s.members ∧ keep x = true

section Rules

variable {keep : α → Bool} {fails : Nat → Bool} {failing : Bool} {s s' : SentItems α}
  {batch : List α} {batches : List (List α)} {members : List α} {x : α}

theorem mem_fresh : x ∈ s.fresh batch ↔ x ∈ batch ∧ x ∉ s.cached := by
  simp [fresh]

/-- A batch that went through: nothing was new, or the store took what was. -/
theorem send_some (sent : s.send keep failing batch = some s') :
    s.fresh batch = [] ∧ s' = s ∨
      failing = false ∧ s'.cached = s.cached ++ (s.fresh batch).filter keep ∧
        s'.members = s.members ++ s.fresh batch := by
  unfold send at sent
  split at sent
  next none_new => exact .inl ⟨none_new, (Option.some.inj sent).symm⟩
  next =>
    split at sent
    · cases sent
    next taken =>
      cases sent
      exact .inr ⟨by simpa using taken, rfl, rfl⟩

theorem send_none (refused : s.send keep failing batch = none) :
    s.fresh batch ≠ [] ∧ failing = true := by
  unfold send at refused
  split at refused
  · cases refused
  next new =>
    split at refused
    next fails => exact ⟨new, fails⟩
    · cases refused

theorem members_of_send (sent : s.send keep failing batch = some s') (there : x ∈ s.members) :
    x ∈ s'.members := by
  rcases send_some sent with ⟨-, rfl⟩ | ⟨-, -, members⟩
  · exact there
  · rw [members]
    exact List.mem_append_left _ there

theorem Sound.send (sound : s.Sound keep) (sent : s.send keep failing batch = some s') :
    s'.Sound keep := by
  intro x cached
  rcases send_some sent with ⟨-, rfl⟩ | ⟨-, now, members⟩
  · exact sound x cached
  rw [now, List.mem_append] at cached
  rw [members, List.mem_append]
  rcases cached with before | new
  · exact ⟨.inl (sound x before).1, (sound x before).2⟩
  · obtain ⟨new, kept⟩ := List.mem_filter.mp new
    exact ⟨.inr new, kept⟩

/-- After a batch that went through the store has all of it. -/
theorem Sound.mem_of_send (sound : s.Sound keep) (sent : s.send keep failing batch = some s')
    (member : x ∈ batch) : x ∈ s'.members := by
  by_cases cached : x ∈ s.cached
  · exact members_of_send sent (sound x cached).1
  have new : x ∈ s.fresh batch := mem_fresh.mpr ⟨member, cached⟩
  rcases send_some sent with ⟨none_new, -⟩ | ⟨-, -, members⟩
  · rw [none_new] at new
    cases new
  · rw [members]
    exact List.mem_append_right _ new

/-- What the store has after a batch is what it had, and the batch. -/
theorem Sound.mem_send_iff (sound : s.Sound keep) (sent : s.send keep failing batch = some s') :
    x ∈ s'.members ↔ x ∈ s.members ∨ x ∈ batch := by
  constructor
  · intro after
    rcases send_some sent with ⟨-, rfl⟩ | ⟨-, -, members⟩
    · exact .inl after
    · rw [members, List.mem_append] at after
      exact after.imp_right fun new => (mem_fresh.mp new).1
  · rintro (before | member)
    · exact members_of_send sent before
    · exact sound.mem_of_send sent member

theorem members_of_sendAll (there : x ∈ s.members) :
    x ∈ (sendAll keep fails s batches).2.members := by
  induction batches generalizing fails s with
  | nil => exact there
  | cons batch rest ih =>
    unfold sendAll
    split
    · exact there
    next s' sent => exact ih (members_of_send sent there)

theorem Sound.sendAll (sound : s.Sound keep) : (sendAll keep fails s batches).2.Sound keep := by
  induction batches generalizing fails s with
  | nil => exact sound
  | cons batch rest ih =>
    unfold SentItems.sendAll
    split
    · exact sound
    next s' sent => exact ih (sound.send sent)

/-- When no batch was refused, the store has all of each. -/
theorem Sound.mem_of_sendAll (sound : s.Sound keep)
    (done : (SentItems.sendAll keep fails s batches).1 = true) (listed : batch ∈ batches)
    (member : x ∈ batch) : x ∈ (SentItems.sendAll keep fails s batches).2.members := by
  induction batches generalizing fails s with
  | nil => cases listed
  | cons first rest ih =>
    unfold SentItems.sendAll at done ⊢
    cases sent : s.send keep (fails 0) first with
    | none => simp [sent] at done
    | some s' =>
      simp only [sent] at done ⊢
      rcases List.mem_cons.mp listed with rfl | later
      · exact members_of_sendAll (sound.mem_of_send sent member)
      · exact ih (sound.send sent) done later

/-- Losing an item that is not kept for good, or being given one. -/
theorem Sound.lose (sound : s.Sound keep) (lost : keep x = false) :
    Sound keep { s with members := s.members.filter (· ≠ x) } := by
  intro y cached
  obtain ⟨there, kept⟩ := sound y cached
  refine ⟨List.mem_filter.mpr ⟨there, decide_eq_true ?_⟩, kept⟩
  rintro rfl
  rw [lost] at kept
  cases kept

omit [DecidableEq α] in
theorem Sound.gain (sound : s.Sound keep) : Sound keep { s with members := x :: s.members } :=
  fun y cached => ⟨List.mem_cons_of_mem _ (sound y cached).1, (sound y cached).2⟩

/-- A batch that goes through, also goes through without the cache if the store then takes it. -/
theorem Sound.sendPlain (sound : s.Sound keep) (same : ∀ y, y ∈ s.members ↔ y ∈ members)
    (sent : s.send keep failing batch = some s') :
    ∃ members', SentItems.sendPlain false members batch = some members' ∧
      ∀ y, y ∈ s'.members ↔ y ∈ members' := by
  have both : ∀ y, y ∈ s'.members ↔ y ∈ members ++ batch := by
    intro y
    rw [sound.mem_send_iff sent, same, List.mem_append]
  by_cases empty : batch = []
  · subst empty
    exact ⟨members, rfl, by simpa using both⟩
  · exact ⟨members ++ batch, by simp [SentItems.sendPlain, empty], both⟩

/-- A batch that is refused, is one that there is something new in. -/
theorem sendPlain_refused (refused : s.send keep failing batch = none) :
    sendPlain failing members batch = none := by
  obtain ⟨new, fails⟩ := send_none refused
  have nonempty : batch ≠ [] := by
    rintro rfl
    exact new rfl
  simp [sendPlain, nonempty, fails]

/-- **The cache does not show.** What a sender with a cache leaves in the store, a sender without
one leaves there too, if the store refuses it no batch that it takes from the other. -/
theorem Sound.exists_sendAllPlain (sound : s.Sound keep)
    (same : ∀ y, y ∈ s.members ↔ y ∈ members) (batches : List (List α)) (fails : Nat → Bool) :
    ∃ softer : Nat → Bool, (∀ i, softer i = true → fails i = true) ∧
      (sendAllPlain softer members batches).1 = (SentItems.sendAll keep fails s batches).1 ∧
      ∀ y, y ∈ (SentItems.sendAll keep fails s batches).2.members ↔
        y ∈ (sendAllPlain softer members batches).2 := by
  induction batches generalizing fails s members with
  | nil => exact ⟨fails, fun _ => id, rfl, same⟩
  | cons batch rest ih =>
    cases sent : s.send keep (fails 0) batch with
    | none =>
      refine ⟨fails, fun _ => id, ?_, ?_⟩
      · simp [sendAllPlain, SentItems.sendAll, sent, sendPlain_refused sent]
      · simpa [sendAllPlain, SentItems.sendAll, sent, sendPlain_refused sent] using same
    | some s' =>
      obtain ⟨members', plain, same'⟩ := sound.sendPlain same sent
      obtain ⟨later, softer, done, after⟩ :=
        ih (sound.send sent) same' (fun i => fails (i + 1))
      refine ⟨firstThen false later, ?_, ?_, ?_⟩
      · intro i
        cases i with
        | zero => exact fun absurd => (Bool.false_ne_true absurd).elim
        | succ i => exact softer i
      · simpa [sendAllPlain, SentItems.sendAll, sent, firstThen, plain] using done
      · simpa [sendAllPlain, SentItems.sendAll, sent, firstThen, plain] using after

end Rules

end SentItems

end FirewallCore.Lib
