import FirewallCore.Ead.Session
import Mathlib.Data.List.Infix

/-!
One direction of a session: what one side encrypts the other side decrypts, in order, where some messages are
lost. The counter goes up by at most four with each message, so that fewer than 32 losses in a row leave the
next one in the window of the receiver.
-/

namespace FirewallCore.Ead

open Server

/-- A message on its way: the data, what lies behind them in the buffer of the sender and behind the body in
that of the receiver, and whether it arrives. Its length is an `int`. -/
structure Passed where
  data : List UInt8
  buffer : List UInt8
  behind : List UInt8
  arrives : Bool
  small : data.length + encSize + encPad ≤ 2 ^ 31

/-- What happens: a message is sent, or the sides use the other direction. -/
inductive Turn where
  | message (m : Passed)
  | encrypts (data buffer : List UInt8)
  | decrypts (len : Int) (body : List UInt8)

/-- The message of a turn. -/
def Turn.message? : Turn → Option Passed
  | .message m => some m
  | _ => none

/-- The messages with what the receiver gets of them: the result, which is a length, and that many bytes of
the data. -/
def transfer (p : Platform) (sender receiver : Crypt) : List Turn → List (Int × List UInt8)
  | [] => []
  | .message m :: turns =>
    let (sender, body) := sender.encryptMessage p m.data m.buffer
    if m.arrives then
      let len := BitVec.ofNat 32 body.length
      let (receiver, result, plain) := receiver.decryptMessage p len.toInt (body ++ m.behind)
      (result, (plain.drop encSize).take result.toNat) :: transfer p sender receiver turns
    else transfer p sender receiver turns
  | .encrypts data buffer :: turns => transfer p sender (receiver.encryptMessage p data buffer).1 turns
  | .decrypts len body :: turns => transfer p (sender.decryptMessage p len body).1 receiver turns

/-- The messages of turns. -/
def messages (turns : List Turn) : List Passed := turns.filterMap Turn.message?

/-- What was sent and arrives. -/
def arriving (turns : List Turn) : List (Int × List UInt8) :=
  ((messages turns).filter (·.arrives)).map fun m => ((m.data.length : Int), m.data)

/-- So many messages are lost in a row. -/
def Lost (n : Nat) (arrivals : List Bool) : Prop := List.replicate n false <:+: arrivals

/-! ### Counters -/

section Counters

variable {c : Crypt} {iv : BitVec 32}

theorem ofs_bounds (c : Crypt) : 0 < c.ofs.toNat ∧ c.ofs.toNat ≤ 4 := by
  have small : ((c.ivofsVec >>> (2 * c.ivofsIdx)) &&& 3).toNat ≤ 3 := by
    rw [BitVec.toNat_and]
    exact Nat.and_le_right
  have one : (1 : BitVec 32).toNat = 1 := rfl
  rw [Crypt.ofs, BitVec.toNat_add, one]
  omega

/-- The next counter is one to four ahead. -/
theorem nextTxIv_step (room : c.txIv.toNat + 4 < 2 ^ 32) :
    c.txIv.toNat < c.nextTxIv.txIv.toNat ∧ c.nextTxIv.txIv.toNat ≤ c.txIv.toNat + 4 := by
  have bounds := ofs_bounds c
  simp only [Crypt.nextTxIv, BitVec.toNat_add]
  omega

theorem fresh_window (ahead : c.rxIv.toNat < iv.toNat) (near : iv.toNat ≤ c.rxIv.toNat + 128)
    (room : c.rxIv.toNat + 128 < 2 ^ 32) : c.fresh iv = true := by
  have incr : maxIvIncr.toNat = 128 := rfl
  simp only [Crypt.fresh, Bool.and_eq_true, Bool.not_eq_true', decide_eq_false_iff_not, BitVec.not_le,
    BitVec.not_lt, gt_iff_lt]
  rw [BitVec.lt_def, BitVec.le_def, BitVec.toNat_add, incr]
  omega

theorem setKey_txIv (p : Platform) (c : Crypt) (skey : List UInt8) : (c.setKey p skey).txIv.toNat < 2 ^ 24 := by
  have mask : (0x00ffffff : BitVec 32).toNat = 2 ^ 24 - 1 := rfl
  simp only [Crypt.setKey, BitVec.toNat_and, mask]
  exact Nat.lt_of_le_of_lt Nat.and_le_right (by decide)

end Counters

/-! ### Both sides -/

/-- The counters of the sides after some losses, with some messages still to come. -/
structure Aligned (losses left : Nat) (sender receiver : Crypt) : Prop where
  key : sender.key = receiver.key
  ahead : receiver.rxIv.toNat ≤ sender.txIv.toNat
  near : sender.txIv.toNat ≤ receiver.rxIv.toNat + 4 * losses
  room : sender.txIv.toNat + 4 * left + 128 < 2 ^ 32

section Sides

variable {p : Platform} {losses left : Nat} {sender receiver : Crypt} {m : Passed} {turns : List Turn}
  {arrivals : List Bool}

theorem Aligned.lose (aligned : Aligned losses (left + 1) sender receiver) :
    Aligned (losses + 1) left sender.nextTxIv receiver := by
  obtain ⟨key, ahead, near, room⟩ := aligned
  obtain ⟨least, most⟩ := nextTxIv_step (c := sender) (by omega)
  exact ⟨key, by omega, by omega, by omega⟩

theorem Aligned.receive (aligned : Aligned losses (left + 1) sender receiver) :
    Aligned 0 left sender.nextTxIv { receiver with rxIv := sender.nextTxIv.txIv } := by
  obtain ⟨key, ahead, near, room⟩ := aligned
  obtain ⟨least, most⟩ := nextTxIv_step (c := sender) (by omega)
  exact ⟨key, le_rfl, Nat.le_add_right _ _, by show sender.nextTxIv.txIv.toNat + _ + _ < _; omega⟩

/-- The next counter is in the window after fewer than 32 losses. -/
theorem Aligned.fresh (aligned : Aligned losses (left + 1) sender receiver) (few : losses < 32) :
    receiver.fresh sender.nextTxIv.txIv = true := by
  obtain ⟨key, ahead, near, room⟩ := aligned
  obtain ⟨least, most⟩ := nextTxIv_step (c := sender) (by omega)
  exact fresh_window (by omega) (by omega) (by omega)

/-- The length of a body fits in an `int`. -/
theorem wire_length (sound : p.Sound) (key : List UInt8) (iv : BitVec 32) (m : Passed) :
    (BitVec.ofNat 32 (sealBody p key iv m.data m.buffer).length).toInt = (sealBody p key iv m.data m.buffer).length := by
  have small := m.small
  have pad := padOf_lt m.data.length
  have length := (length_plainMessage sound iv m.data m.buffer).1
  rw [length_sealBody sound, length]
  unfold encSize encPad at small
  rw [BitVec.toInt_eq_toNat_of_lt (by rw [BitVec.toNat_ofNat]; omega), BitVec.toNat_ofNat,
    Nat.mod_eq_of_lt (by omega)]

/-- A message that arrives is read. -/
theorem decrypt_encrypted (sound : p.Sound) (aligned : Aligned losses (left + 1) sender receiver)
    (few : losses < 32) (m : Passed) :
    let body := (sender.encryptMessage p m.data m.buffer).2
    ∃ plain, receiver.decryptMessage p (BitVec.ofNat 32 body.length).toInt (body ++ m.behind) =
        ({ receiver with rxIv := sender.nextTxIv.txIv }, (m.data.length : Int), plain) ∧
      (plain.drop encSize).take m.data.length = m.data := by
  obtain ⟨plain, padding, dataRead, done⟩ :=
    decryptMessage_sealBody sound receiver sender.nextTxIv.txIv m.data m.buffer m.behind
  refine ⟨plain, ?_, by rw [dataRead, List.take_left]⟩
  rw [if_pos (aligned.fresh few)] at done
  have same : sender.nextTxIv.txIv = sender.nextTxIv.txIv := rfl
  simp only [Crypt.encryptMessage, aligned.key]
  rw [wire_length sound]
  exact done

theorem few_losses (few : ¬Lost 32 (List.replicate losses false ++ arrivals)) : losses < 32 := by
  by_contra many
  apply few
  obtain ⟨more, rfl⟩ := Nat.exists_eq_add_of_le (Nat.not_lt.mp many)
  refine ⟨[], List.replicate more false ++ arrivals, ?_⟩
  rw [List.nil_append, ← List.append_assoc, ← List.replicate_add]

/-- While fewer than 32 messages are lost in a row, all that arrives is read. -/
theorem transfer_arriving (sound : p.Sound) (aligned : Aligned losses (messages turns).length sender receiver)
    (few : ¬Lost 32 (List.replicate losses false ++ (messages turns).map (·.arrives))) :
    transfer p sender receiver turns = arriving turns := by
  induction turns generalizing losses sender receiver with
  | nil => rfl
  | cons turn turns ih =>
    cases turn with
    | message m =>
      have split : messages (.message m :: turns) = m :: messages turns := rfl
      rw [split, List.length_cons] at aligned
      rw [split, List.map_cons] at few
      cases arrives : m.arrives with
      | true =>
        obtain ⟨plain, done, dataRead⟩ := decrypt_encrypted sound aligned (few_losses few) m
        have rest : ¬Lost 32 (List.replicate 0 false ++ (messages turns).map (·.arrives)) := fun lost =>
          few (lost.trans ⟨List.replicate losses false ++ [m.arrives], [], by simp⟩)
        have received := ih aligned.receive rest
        simp only [transfer, arrives, if_true, done, arriving, split, List.filter_cons, List.map_cons,
          Int.toNat_natCast, dataRead]
        exact congrArg _ received
      | false =>
        have rest : ¬Lost 32 (List.replicate (losses + 1) false ++ (messages turns).map (·.arrives)) := by
          rw [arrives] at few
          rw [List.replicate_succ', List.append_assoc, List.singleton_append]
          exact few
        have received := ih aligned.lose rest
        simp only [transfer, arrives, Bool.false_eq_true, if_false, arriving, split, List.filter_cons]
        exact received
    | encrypts data buffer =>
      have kept : Aligned losses (messages turns).length sender (receiver.encryptMessage p data buffer).1 :=
        ⟨aligned.key, aligned.ahead, aligned.near, aligned.room⟩
      exact ih kept few
    | decrypts len body =>
      obtain ⟨key, txIv⟩ := decryptMessage_frame p sender len body
      have kept : Aligned losses (messages turns).length (sender.decryptMessage p len body).1 receiver := by
        obtain ⟨key', ahead, near, room⟩ := aligned
        rw [← txIv] at ahead near room
        exact ⟨key.trans key', ahead, near, room⟩
      exact ih kept few

end Sides

/-! ### A session -/

/-- What one side encrypts and what arrives is what the other side reads. -/
theorem transfer_setKey (p : Platform) (sound : p.Sound) (sender receiver : Crypt) (skey : List UInt8)
    (turns : List Turn) (few : (messages turns).length < 2 ^ 29)
    (losses : ¬Lost 32 ((messages turns).map (·.arrives))) :
    transfer p (sender.setKey p skey) (receiver.setKey p skey) turns = arriving turns := by
  have start := setKey_txIv p sender skey
  have aligned : Aligned 0 (messages turns).length (sender.setKey p skey) (receiver.setKey p skey) :=
    ⟨rfl, le_rfl, le_rfl, by omega⟩
  exact transfer_arriving sound aligned losses

/-- Three messages, of which the second is lost. -/
def sampleTurns : List Turn :=
  [.message ⟨[108, 115], [1], [], true, by decide⟩, .message ⟨[112], [], [], false, by decide⟩,
    .message ⟨[10], [], [7], true, by decide⟩]

theorem sampleTurns_transfer :
    transfer checksumPlatform (Crypt.setKey checksumPlatform ⟨[], 0, 0, 0, 3⟩ (List.replicate 40 5))
        (Crypt.setKey checksumPlatform ⟨[], 0, 0, 0, 0⟩ (List.replicate 40 5)) sampleTurns =
      [(2, [108, 115]), (1, [10])] :=
  (transfer_setKey checksumPlatform checksumPlatform_sound _ _ _ sampleTurns (by decide)
    fun lost => absurd lost.length_le (by decide)).trans rfl

end FirewallCore.Ead
