import Epx.Framing

/-!
# The record layer of one direction

Client and host keep the same state for what they send and for what they receive, and receive
through the same `open_checked`: the lambda of `reader_loop` in `src/client.cpp` and the one of
`handle_connection` in `src/host.cpp` are the same text.

A sender numbers its frames from zero under each key. A receiver accepts exactly the next number,
under its current key or, while it holds a pending key, number zero of the next epoch, which
makes the pending key current.

## Main definitions

* `TxState`, `SealCall` — a sender's key state, and one call of `seal` or `seal_v2`
* `RxState`, `openChecked` — a receiver's key state, and the check and opening of one frame

## Main results

* `openChecked_eq_some` — everything an accepted frame satisfies
* `Same`, `Ready`, `openChecked_of_ready` — a receiver that is ready for a sender's state opens its
  next frame
-/

namespace Epx

open Codec

/-! ### Counters and epochs -/

/-- The counter tells `2 ^ 64` frames apart. -/
theorem counter_injective :
    ∀ i < 2 ^ 64, ∀ j < 2 ^ 64, UInt64.ofNat i = UInt64.ofNat j → i = j := by
  intro i hi j hj heq
  have := congrArg UInt64.toNat heq
  rwa [UInt64.toNat_ofNat', UInt64.toNat_ofNat', Nat.mod_eq_of_lt hi, Nat.mod_eq_of_lt hj] at this

/-- The next epoch's number is one more, below the last. -/
theorem toNat_epoch_add_one {e : UInt8} (h : e < 255) : (e + 1).toNat = e.toNat + 1 := by
  have hlt : e.toNat < 255 := h
  rw [UInt8.toNat_add, show (1 : UInt8).toNat = 1 from rfl, Nat.mod_eq_of_lt (by omega)]

/-! ### Sending -/

/-- The key, epoch and counter that a side transmits with. -/
structure TxState where
  key : Block 32
  epoch : UInt8 := 0
  counter : UInt64 := 0
  deriving DecidableEq

/-- One call of `seal` or `seal_v2`. -/
structure SealCall where
  key : Block 32
  epoch : UInt8
  counter : UInt64
  type : FrameType
  plaintext : Bytes
  deriving DecidableEq

/-- What a call of `seal` is about. -/
def SealCall.content (c : SealCall) : FrameType × Bytes := (c.type, c.plaintext)

/-- The frame that a call of `seal` goes out in. -/
def SealCall.frame (S : Sodium) (v2 : Bool) (c : SealCall) : RawFrame :=
  { type := c.type
    counter := c.counter
    epoch := c.epoch
    body := sealFrame S v2 c.key c.counter c.epoch c.type c.plaintext }

@[simp] theorem SealCall.frame_type (S : Sodium) (v2 : Bool) (c : SealCall) :
    (c.frame S v2).type = c.type := rfl

namespace TxState

variable (tx : TxState)

/-- Sealing the next frame. -/
def call (type : FrameType) (plaintext : Bytes) : SealCall :=
  ⟨tx.key, tx.epoch, tx.counter, type, plaintext⟩

/-- `tx_counter++`. -/
def bump : TxState := { tx with counter := tx.counter + 1 }

/-- A rotation: the new key, the next epoch, and the counter back at zero. -/
def switch (key : Block 32) : TxState := ⟨key, tx.epoch + 1, 0⟩

@[simp] theorem bump_key : tx.bump.key = tx.key := rfl
@[simp] theorem bump_epoch : tx.bump.epoch = tx.epoch := rfl
@[simp] theorem bump_counter : tx.bump.counter = tx.counter + 1 := rfl

end TxState

/-! ### Receiving -/

/-- `rx_key`, `rx_epoch`, `rx_counter` and `rx_pending`. -/
structure RxState where
  key : Block 32
  epoch : UInt8 := 0
  counter : UInt64 := 0
  pending : Option (Block 32) := none
  deriving DecidableEq

/-- `rx_counter++`. -/
def RxState.bump (rx : RxState) : RxState := { rx with counter := rx.counter + 1 }

/-- The pending key has become current with the first frame under it. -/
def RxState.advance (rx : RxState) (key : Block 32) : RxState :=
  { key := key, epoch := rx.epoch + 1, counter := 1, pending := none }

/-- `rx_pending = key`. -/
def RxState.arm (rx : RxState) (key : Block 32) : RxState := { rx with pending := some key }

@[simp] theorem RxState.bump_key (rx : RxState) : rx.bump.key = rx.key := rfl
@[simp] theorem RxState.bump_epoch (rx : RxState) : rx.bump.epoch = rx.epoch := rfl
@[simp] theorem RxState.bump_counter (rx : RxState) : rx.bump.counter = rx.counter + 1 := rfl
@[simp] theorem RxState.bump_pending (rx : RxState) : rx.bump.pending = rx.pending := rfl

/-- A frame that `open_checked` accepted: the epoch it was accepted in, its type and what was in
it. -/
structure Opened where
  epoch : UInt8
  type : FrameType
  plaintext : Bytes
  deriving DecidableEq

/-- What an accepted frame was about. -/
def Opened.content (x : Opened) : FrameType × Bytes := (x.type, x.plaintext)

section

variable (S : Sodium) (v2 : Bool)

/-- `open_checked`: the plaintext and the new receive state, or `nullopt` with the state as it
was. -/
def openChecked (rx : RxState) (f : RawFrame) : Option (Bytes × RxState) :=
  if v2 = false then
    if f.counter ≠ rx.counter then none
    else (openV1 S rx.key f.counter f.type f.body).map fun o => (o, rx.bump)
  else if f.epoch = rx.epoch then
    if f.counter ≠ rx.counter then none
    else (openV2 S rx.key f.counter f.epoch f.type f.body).map fun o => (o, rx.bump)
  else
    match rx.pending with
    | none => none
    | some key =>
      if f.epoch = rx.epoch + 1 then
        if f.counter ≠ 0 then none -- new epoch starts a fresh counter space
        else (openV2 S key 0 f.epoch f.type f.body).map fun o => (o, rx.advance key)
      else none

variable {S v2} {rx rx' : RxState} {f : RawFrame} {o : Bytes}

/-- An accepted frame has the next counter of the current epoch, or opens the pending one; and it
was authentic under that key for its own type, counter and epoch. -/
theorem openChecked_eq_some (h : openChecked S v2 rx f = some (o, rx')) :
    (f.counter = rx.counter ∧ (v2 = true → f.epoch = rx.epoch) ∧
      openImpl S rx.key f.counter (frameAd v2 f.type f.counter f.epoch) f.body = some o ∧
      rx' = rx.bump) ∨
    (v2 = true ∧ f.counter = 0 ∧ f.epoch = rx.epoch + 1 ∧ ∃ key, rx.pending = some key ∧
      openImpl S key 0 (frameAd v2 f.type f.counter f.epoch) f.body = some o ∧
      rx' = rx.advance key) := by
  cases v2 with
  | false =>
    left
    simp only [openChecked, if_true] at h
    by_cases hc : f.counter = rx.counter
    · rw [if_neg (not_not.mpr hc), Option.map_eq_some_iff] at h
      obtain ⟨o', ho, heq⟩ := h
      cases heq
      exact ⟨hc, fun h => (by cases h), ho, rfl⟩
    · rw [if_pos hc] at h
      cases h
  | true =>
    simp only [openChecked, Bool.true_eq_false, if_false] at h
    by_cases he : f.epoch = rx.epoch
    · left
      rw [if_pos he] at h
      by_cases hc : f.counter = rx.counter
      · rw [if_neg (not_not.mpr hc), Option.map_eq_some_iff] at h
        obtain ⟨o', ho, heq⟩ := h
        cases heq
        exact ⟨hc, fun _ => he, ho, rfl⟩
      · rw [if_pos hc] at h
        cases h
    · right
      rw [if_neg he] at h
      cases hp : rx.pending with
      | none =>
        rw [hp] at h
        cases h
      | some key =>
        simp only [hp] at h
        by_cases hnext : f.epoch = rx.epoch + 1
        · rw [if_pos hnext] at h
          by_cases hc : f.counter = 0
          · rw [if_neg (not_not.mpr hc), Option.map_eq_some_iff] at h
            obtain ⟨o', ho, heq⟩ := h
            cases heq
            refine ⟨rfl, hc, hnext, key, rfl, ?_, rfl⟩
            rw [hc]
            exact ho
          · rw [if_pos hc] at h
            cases h
        · rw [if_neg hnext] at h
          cases h

end

/-! ### A receiver in step with a sender -/

/-- The receiver's current key, epoch and counter are the sender's. -/
structure Same (rx : RxState) (tx : TxState) : Prop where
  key : rx.key = tx.key
  epoch : rx.epoch = tx.epoch
  counter : rx.counter = tx.counter

/-- The receiver waits for the sender's next frame: under its current key, or as the first frame
under its pending one. -/
def Ready (v2 : Bool) (rx : RxState) (tx : TxState) : Prop :=
  Same rx tx ∨
    (v2 = true ∧ rx.pending = some tx.key ∧ tx.epoch = rx.epoch + 1 ∧ tx.counter = 0)

/-- A frame with the next counter of the current epoch is opened under the current key, whatever
key is pending. -/
theorem openChecked_current {S : Sodium} {v2 : Bool} {rx : RxState} {f : RawFrame} {o : Bytes}
    (hc : f.counter = rx.counter) (he : v2 = true → f.epoch = rx.epoch)
    (ho : openImpl S rx.key f.counter (frameAd v2 f.type f.counter f.epoch) f.body = some o) :
    openChecked S v2 rx f = some (o, rx.bump) := by
  cases v2 with
  | false =>
    rw [openChecked, if_pos rfl, if_neg (not_not.mpr hc)]
    exact congrArg (Option.map _) ho
  | true =>
    rw [openChecked, if_neg (by simp), if_pos (he rfl), if_neg (not_not.mpr hc)]
    exact congrArg (Option.map _) ho

/-- Frame zero of the next epoch is opened under the pending key. -/
theorem openChecked_next {S : Sodium} {v2 : Bool} {rx : RxState} {f : RawFrame} {o : Bytes}
    {key : Block 32} (hv : v2 = true) (hp : rx.pending = some key) (he : f.epoch = rx.epoch + 1)
    (hc : f.counter = 0)
    (ho : openImpl S key 0 (frameAd v2 f.type f.counter f.epoch) f.body = some o) :
    openChecked S v2 rx f = some (o, rx.advance key) := by
  subst hv
  have hne : f.epoch ≠ rx.epoch := by
    rw [he]
    simp
  rw [openChecked, if_neg (by simp), if_neg hne]
  simp only [hp]
  rw [if_pos he, if_neg (not_not.mpr hc)]
  rw [hc] at ho
  exact congrArg (Option.map _) ho

section

variable {S : Sodium} (hS : S.AeadCorrect) {v2 : Bool} {rx : RxState} {tx : TxState}
include hS

theorem openImpl_frame (x : SealCall) :
    openImpl S x.key x.counter (frameAd v2 x.type x.counter x.epoch) (x.frame S v2).body
      = some x.plaintext := by
  rw [SealCall.frame, sealFrame_eq]
  exact openImpl_encrypt hS ..

theorem openChecked_of_same (h : Same rx tx) (type : FrameType) (plaintext : Bytes) :
    openChecked S v2 rx ((tx.call type plaintext).frame S v2) = some (plaintext, rx.bump) := by
  refine openChecked_current h.counter.symm (fun _ => h.epoch.symm) ?_
  rw [h.key]
  exact openImpl_frame hS (tx.call type plaintext)

theorem openChecked_of_pending (hv : v2 = true) (hp : rx.pending = some tx.key)
    (he : tx.epoch = rx.epoch + 1) (hc : tx.counter = 0) (type : FrameType) (plaintext : Bytes) :
    openChecked S v2 rx ((tx.call type plaintext).frame S v2)
      = some (plaintext, rx.advance tx.key) := by
  refine openChecked_next hv hp he hc ?_
  rw [← hc]
  exact openImpl_frame hS (tx.call type plaintext)

/-- **A ready receiver opens the sender's next frame**, to the plaintext that was sealed, and is
then in step with the sender. -/
theorem openChecked_of_ready (h : Ready v2 rx tx) (type : FrameType) (plaintext : Bytes) :
    ∃ rx', openChecked S v2 rx ((tx.call type plaintext).frame S v2) = some (plaintext, rx') ∧
      Same rx' tx.bump ∧ (Same rx tx → rx'.pending = rx.pending) := by
  by_cases hsame : Same rx tx
  · exact ⟨rx.bump, openChecked_of_same hS hsame type plaintext,
      ⟨hsame.key, hsame.epoch, by simp [hsame.counter]⟩, fun _ => rfl⟩
  · obtain ⟨hv, hp, he, hc⟩ := h.resolve_left hsame
    exact ⟨rx.advance tx.key, openChecked_of_pending hS hv hp he hc type plaintext,
      ⟨rfl, he.symm, by simp [RxState.advance, hc]⟩, fun hs => absurd hs hsame⟩

end

end Epx
