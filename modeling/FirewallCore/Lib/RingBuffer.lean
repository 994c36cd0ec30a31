import Mathlib.Data.List.Basic

/-!
A buffer of fixed size that overwrites its oldest element when it is full.
-/

namespace FirewallCore.Lib

/-- The elements are listed from the oldest on. -/
structure RingBuffer (α : Type) where
  cap : Nat
  elems : List α
  positive : 0 < cap
  bounded : elems.length ≤ cap

namespace RingBuffer

variable {α : Type}

def empty (cap : Nat) (positive : 0 < cap) : RingBuffer α := ⟨cap, [], positive, Nat.zero_le _⟩

def len (rb : RingBuffer α) : Nat := rb.elems.length

def push (rb : RingBuffer α) (a : α) : RingBuffer α :=
  if room : rb.len < rb.cap then
    { rb with elems := rb.elems ++ [a], bounded := by rw [List.length_append]; exact room }
  else
    { rb with
      elems := rb.elems.tail ++ [a]
      bounded := by
        have bounded := rb.bounded
        have positive := rb.positive
        simp only [List.length_append, List.length_tail, List.length_singleton]
        omega }

def clear (rb : RingBuffer α) : RingBuffer α := empty rb.cap rb.positive

theorem elems_push_of_room {rb : RingBuffer α} (room : rb.len < rb.cap) (a : α) :
    (rb.push a).elems = rb.elems ++ [a] := by
  rw [push, dif_pos room]

/-- A full buffer stays as long as it is. -/
theorem len_push_of_full {rb : RingBuffer α} (full : ¬rb.len < rb.cap) (a : α) :
    (rb.push a).len = rb.len := by
  have positive := rb.positive
  rw [push, dif_neg full]
  unfold len at full ⊢
  simp only [List.length_append, List.length_tail, List.length_singleton]
  omega

end RingBuffer

end FirewallCore.Lib
