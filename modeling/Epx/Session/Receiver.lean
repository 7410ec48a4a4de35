import Epx.RecordLayer
import Epx.Lib.Numbered

/-!
# The receive side over a session

What a receiver has accepted, compared with what its peer has sealed. The peer numbers its frames
from zero in every epoch; a receiver accepts exactly the next number of its epoch, so of each epoch
it has accepted a prefix. It moves to the next epoch only through a pending key, and it arms a
pending key only after it has accepted a rotation frame of its epoch: a REKEY at the host, a
REKEY_ACK at the client.

Nothing is assumed here about how frames travel. All that an accepted frame has to be is one that
the peer sealed with the counter, epoch, type and plaintext it is accepted with.

## Main definitions

* `SealCall.asOpened` — a call of `seal` as its receiver would record it
* `Follows` — the receiver follows the sender, epoch by epoch

## Main results

* `Follows.accept`, `Follows.advance`, `Follows.arm` — what a receiver does keeps it following
* `Follows.prefix_of_last` — where an epoch ends with its rotation frame, what was accepted is a
  prefix of what was sealed
-/

namespace Epx

open Codec Log

instance instPartialOrderUInt8 : PartialOrder UInt8 where
  le_refl := UInt8.le_refl
  le_trans _ _ _ := UInt8.le_trans
  le_antisymm _ _ := UInt8.le_antisymm
  lt_iff_le_not_ge := Std.LawfulOrderLT.lt_iff

/-- The record that accepting a sealed frame leaves. -/
def SealCall.asOpened (x : SealCall) : Opened := ⟨x.epoch, x.type, x.plaintext⟩

theorem segment_asOpened (sealed : List SealCall) (e : UInt8) :
    segment Opened.epoch (sealed.map SealCall.asOpened) e
      = (segment SealCall.epoch sealed e).map SealCall.asOpened :=
  segment_map fun _ => rfl

/-- A frame of type `t` has been accepted in epoch `e`. -/
def Accepted (t : FrameType) (opened : List Opened) (e : UInt8) : Prop :=
  ∃ x ∈ opened, x.epoch = e ∧ x.type = t

theorem Accepted.append {t : FrameType} {opened : List Opened} {e : UInt8}
    (h : Accepted t opened e) (more : List Opened) : Accepted t (opened ++ more) e := by
  obtain ⟨x, hx, hxe⟩ := h
  exact ⟨x, List.mem_append_left _ hx, hxe⟩

/-- A receiver in state `rx` has accepted a prefix of every epoch, in the order of epochs, and has
accepted a frame of type `t` in every epoch that it has left or is about to leave. -/
structure Follows (t : FrameType) (sealed : List SealCall) (opened : List Opened) (rx : RxState) :
    Prop where
  segments : ∀ e, segment Opened.epoch opened e
    <+: (segment SealCall.epoch sealed e).map SealCall.asOpened
  counter : rx.counter = UInt64.ofNat (segment Opened.epoch opened rx.epoch).length
  sorted : opened.Pairwise fun x y => x.epoch ≤ y.epoch
  epoch_le : ∀ x ∈ opened, x.epoch ≤ rx.epoch
  left : ∀ e < rx.epoch, Accepted t opened e
  armed : rx.pending ≠ none → Accepted t opened rx.epoch

namespace Follows

variable {t : FrameType} {sealed : List SealCall} {opened : List Opened} {rx : RxState}
variable {x : SealCall}

theorem start (key : Block 32) : Follows t [] [] { key := key } where
  segments e := by simp
  counter := rfl
  sorted := List.Pairwise.nil
  epoch_le := by simp
  left e he := absurd he (by simp)
  armed h := absurd rfl h

/-- The peer seals more. -/
theorem mono {sealed' : List SealCall} (h : Follows t sealed opened rx)
    (hle : sealed <+: sealed') : Follows t sealed' opened rx :=
  { h with segments := fun e => (h.segments e).trans ((segment_mono hle e).map _) }

/-- `rx_pending = key`, after a rotation frame. -/
theorem arm (h : Follows t sealed opened rx) (hacc : Accepted t opened rx.epoch) (key : Block 32) :
    Follows t sealed opened (rx.arm key) :=
  { h with armed := fun _ => hacc }

/-- The next frame of an epoch extends the prefix of it that has been accepted. -/
theorem segments_snoc (h : Follows t sealed opened rx)
    (hn : Numbered SealCall.epoch SealCall.counter UInt64.ofNat sealed)
    (hbound : ∀ e, (segment SealCall.epoch sealed e).length < 2 ^ 64) (hx : x ∈ sealed)
    (hc : x.counter = UInt64.ofNat (segment Opened.epoch opened x.epoch).length) (e : UInt8) :
    segment Opened.epoch (opened ++ [x.asOpened]) e
      <+: (segment SealCall.epoch sealed e).map SealCall.asOpened := by
  by_cases he : x.epoch = e
  swap
  · rw [segment_snoc_of_ne (show x.asOpened.epoch ≠ e from he)]
    exact h.segments e
  subst he
  have hle := (h.segments x.epoch).length_le
  rw [List.length_map] at hle
  obtain ⟨-, htake⟩ := hn.take_snoc counter_injective hx (hbound x.epoch).le
    (hle.trans_lt (hbound x.epoch)) hc
  have heq := List.prefix_iff_eq_take.mp (h.segments x.epoch)
  rw [← List.map_take] at heq
  rw [show segment Opened.epoch (opened ++ [x.asOpened]) x.epoch
    = segment Opened.epoch opened x.epoch ++ [x.asOpened] from segment_snoc_self]
  nth_rewrite 1 [heq]
  rw [show [x.asOpened] = [x].map SealCall.asOpened from rfl, ← List.map_append, htake]
  exact (List.take_prefix _ _).map _

/-- A later record keeps the order of epochs. -/
theorem sorted_snoc (h : Follows t sealed opened rx) (hle : rx.epoch ≤ x.epoch) :
    (opened ++ [x.asOpened]).Pairwise fun x y => x.epoch ≤ y.epoch := by
  refine List.pairwise_append.mpr ⟨h.sorted, List.pairwise_singleton _ _, fun y hy z hz => ?_⟩
  rw [List.mem_singleton.mp hz]
  exact (h.epoch_le y hy).trans hle

section

variable (hn : Numbered SealCall.epoch SealCall.counter UInt64.ofNat sealed)
variable (hbound : ∀ e, (segment SealCall.epoch sealed e).length < 2 ^ 64)
include hn hbound

/-- **Accepting a frame of the current epoch.** -/
theorem accept (h : Follows t sealed opened rx) (hx : x ∈ sealed) (he : x.epoch = rx.epoch)
    (hc : x.counter = rx.counter) : Follows t sealed (opened ++ [x.asOpened]) rx.bump where
  segments := h.segments_snoc hn hbound hx (by rw [hc, he, h.counter])
  counter := by
    have hself : segment Opened.epoch (opened ++ [x.asOpened]) x.epoch
        = segment Opened.epoch opened x.epoch ++ [x.asOpened] := segment_snoc_self
    rw [RxState.bump_epoch, RxState.bump_counter, ← he, hself, h.counter, he, List.length_append,
      UInt64.ofNat_add]
    rfl
  sorted := h.sorted_snoc he.ge
  epoch_le y hy := by
    rcases List.mem_append.mp hy with hy | hy
    · exact h.epoch_le y hy
    · rw [List.mem_singleton.mp hy]
      exact he.le
  left e hlt := (h.left e hlt).append _
  armed hp := (h.armed hp).append _

/-- **Accepting the first frame of the next epoch**, under the pending key. -/
theorem advance (h : Follows t sealed opened rx) (hx : x ∈ sealed) (he : x.epoch = rx.epoch + 1)
    (hc : x.counter = 0) (hpending : rx.pending ≠ none) (hlt : rx.epoch < 255) (key : Block 32) :
    Follows t sealed (opened ++ [x.asOpened]) (rx.advance key) := by
  have hnext := toNat_epoch_add_one hlt
  have hle : ∀ y ∈ opened, y.epoch.toNat ≤ rx.epoch.toNat := h.epoch_le
  have hempty : segment Opened.epoch opened (rx.epoch + 1) = [] := by
    refine segment_eq_nil fun y hy heq => ?_
    have := hle y hy
    rw [heq] at this
    omega
  have hup : rx.epoch ≤ x.epoch := by
    rw [he]
    change rx.epoch.toNat ≤ (rx.epoch + 1).toNat
    omega
  refine ⟨h.segments_snoc hn hbound hx ?_, ?_, h.sorted_snoc hup, ?_, ?_, fun hne => absurd rfl hne⟩
  · rw [hc, he, hempty]
    rfl
  · have hself : segment Opened.epoch (opened ++ [x.asOpened]) x.epoch
        = segment Opened.epoch opened x.epoch ++ [x.asOpened] := segment_snoc_self
    rw [show (rx.advance key).epoch = x.epoch from he.symm, hself, he, hempty]
    rfl
  · intro y hy
    rcases List.mem_append.mp hy with hy | hy
    · exact (h.epoch_le y hy).trans (hup.trans he.le)
    · rw [List.mem_singleton.mp hy]
      exact he.le
  · intro e hlt'
    have hlt'' : e.toNat < (rx.epoch + 1).toNat := hlt'
    refine Accepted.append ?_ _
    by_cases heq : e = rx.epoch
    · rw [heq]
      exact h.armed hpending
    · have hne : e.toNat ≠ rx.epoch.toNat := fun h' => heq (UInt8.toNat_inj.mp h')
      exact h.left e (show e.toNat < rx.epoch.toNat by omega)

end

/-- Frames may be missing, but none was accepted twice or out of order. -/
theorem sublist (h : Follows t sealed opened rx)
    (hsorted : sealed.Pairwise fun x y => x.epoch ≤ y.epoch) :
    opened.Sublist (sealed.map SealCall.asOpened) := by
  refine sublist_of_segments h.sorted (List.pairwise_map.mpr hsorted) fun e => ?_
  rw [segment_asOpened]
  exact h.segments e

/-- If no frame of an epoch that was left is missing, what was accepted is a prefix of what was
sealed. -/
theorem prefix_of_whole (h : Follows t sealed opened rx)
    (hsorted : sealed.Pairwise fun x y => x.epoch ≤ y.epoch)
    (hwhole : ∀ e < rx.epoch, segment Opened.epoch opened e
      = (segment SealCall.epoch sealed e).map SealCall.asOpened) :
    opened <+: sealed.map SealCall.asOpened := by
  refine prefix_of_segments h.sorted (List.pairwise_map.mpr hsorted) (fun e => ?_) ?_
  · rw [segment_asOpened]
    exact h.segments e
  · intro c hc e he
    rw [segment_asOpened]
    exact hwhole e (he.trans_le (h.epoch_le c hc))

/-- **Nothing is missing** where the rotation frame is the last that an epoch seals. -/
theorem prefix_of_last (h : Follows t sealed opened rx)
    (hsorted : sealed.Pairwise fun x y => x.epoch ≤ y.epoch)
    (hlast : ∀ e, ∀ x ∈ (segment SealCall.epoch sealed e).dropLast, x.type ≠ t) :
    opened <+: sealed.map SealCall.asOpened := by
  refine h.prefix_of_whole hsorted fun e he => ?_
  obtain ⟨x, hx, rfl, hxt⟩ := h.left e he
  obtain ⟨rest, hrest⟩ := h.segments x.epoch
  by_cases hnil : rest = []
  · rw [← hrest, hnil, List.append_nil]
  · -- Otherwise the rotation frame would not be the last of its epoch.
    have hmem : x ∈ ((segment SealCall.epoch sealed x.epoch).map SealCall.asOpened).dropLast := by
      rw [← hrest, List.dropLast_append_of_ne_nil hnil]
      exact List.mem_append_left _ (mem_segment.mpr ⟨hx, rfl⟩)
    rw [← List.map_dropLast] at hmem
    obtain ⟨y, hy, rfl⟩ := List.mem_map.mp hmem
    exact absurd hxt (hlast _ y hy)

/-- In the first epoch no epoch has been left. -/
theorem prefix_of_epoch_zero (h : Follows t sealed opened rx)
    (hsorted : sealed.Pairwise fun x y => x.epoch ≤ y.epoch) (hzero : rx.epoch = 0) :
    opened <+: sealed.map SealCall.asOpened := by
  refine h.prefix_of_whole hsorted fun e he => ?_
  rw [hzero] at he
  exact absurd he (by simp)

end Follows

end Epx
