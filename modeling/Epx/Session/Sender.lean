import Epx.RecordLayer
import Epx.Lib.Numbered

/-!
# The transmit side over a session

What a side has transmitted with, over all its epochs: every call of `seal`, and every key that was
installed together with the local ephemeral it was derived from. Client and host rotate at
different moments and for different reasons, but what they do to this record is the same: seal
under the current key and count, or install a key derived from an ephemeral not used before, move
to the next epoch and count from zero.

## Main definitions

* `Sender` — the transmit state with its history
* `Sender.Inv` — calls are numbered epoch by epoch, and each epoch has its own key

## Main results

* `Sender.Inv.seal`, `Sender.Inv.switch` — both operations keep the invariant
* `Sender.Inv.nonces` — no two calls share a key and a counter
-/

namespace Epx

open Codec Log

/-- A transmit state, the calls of `seal` made so far, and the keys installed so far. -/
structure Sender where
  tx : TxState
  sealed : List SealCall
  installed : List (EphemeralKeyPair × Block 32)

namespace Sender

/-- Frames sealed in an epoch. -/
def count (s : Sender) (epoch : UInt8) : ℕ := (segment SealCall.epoch s.sealed epoch).length

theorem count_le (s : Sender) (epoch : UInt8) : s.count epoch ≤ s.sealed.length :=
  List.length_filter_le _ _

/-- The history of a sender, where `derives e k` says that `k` is a transmit key derived with the
local ephemeral `e`. -/
structure Inv (derives : EphemeralKeyPair → Block 32 → Prop) (s : Sender) : Prop where
  numbered : Numbered SealCall.epoch SealCall.counter UInt64.ofNat s.sealed
  epoch_le : ∀ x ∈ s.sealed, x.epoch ≤ s.tx.epoch
  sorted : s.sealed.Pairwise fun x y => x.epoch ≤ y.epoch
  length_installed : s.installed.length = s.tx.epoch.toNat + 1
  current : ∃ e, s.installed[s.tx.epoch.toNat]? = some (e, s.tx.key)
  keyed : ∀ x ∈ s.sealed, ∃ e, s.installed[x.epoch.toNat]? = some (e, x.key)
  derived : ∀ p ∈ s.installed, derives p.1 p.2
  fresh : (s.installed.map fun p => p.1.publicKey).Nodup

variable {derives : EphemeralKeyPair → Block 32 → Prop} {s : Sender}

/-- The first key of a session. -/
theorem Inv.start {e : EphemeralKeyPair} {k : Block 32} (h : derives e k) :
    Inv derives ⟨{ key := k }, [], [(e, k)]⟩ where
  numbered := Numbered.nil
  epoch_le := by simp
  sorted := List.Pairwise.nil
  length_installed := rfl
  current := ⟨e, rfl⟩
  keyed := by simp
  derived := by simpa using h
  fresh := by simp

/-- Sealing one more frame under the current key. What the counter becomes afterwards is left
open: a host that could not write its REKEY_ACK does not count it. -/
theorem Inv.seal (h : s.Inv derives) {type : FrameType} {plaintext : Bytes} {counter : UInt64}
    (hcount : s.tx.counter = UInt64.ofNat (s.count s.tx.epoch)) :
    Inv derives ⟨{ s.tx with counter := counter }, s.sealed ++ [s.tx.call type plaintext],
      s.installed⟩ where
  numbered := h.numbered.snoc hcount
  epoch_le x hx := by
    rcases List.mem_append.mp hx with hx | hx
    · exact h.epoch_le x hx
    · rw [List.mem_singleton.mp hx]
      exact UInt8.le_refl _
  sorted := by
    refine List.pairwise_append.mpr ⟨h.sorted, List.pairwise_singleton _ _, fun x hx y hy => ?_⟩
    rw [List.mem_singleton.mp hy]
    exact h.epoch_le x hx
  length_installed := h.length_installed
  current := h.current
  keyed x hx := by
    rcases List.mem_append.mp hx with hx | hx
    · exact h.keyed x hx
    · rw [List.mem_singleton.mp hx]
      exact h.current
  derived := h.derived
  fresh := h.fresh

theorem count_seal (s : Sender) (type : FrameType) (plaintext : Bytes) (tx : TxState)
    (installed : List (EphemeralKeyPair × Block 32)) :
    count ⟨tx, s.sealed ++ [s.tx.call type plaintext], installed⟩ s.tx.epoch
      = s.count s.tx.epoch + 1 := by
  have hself : segment SealCall.epoch (s.sealed ++ [s.tx.call type plaintext]) s.tx.epoch
      = segment SealCall.epoch s.sealed s.tx.epoch ++ [s.tx.call type plaintext] :=
    segment_snoc_self
  rw [count, hself, List.length_append, List.length_singleton, count]

/-- No frame has been sealed in the next epoch yet. -/
theorem Inv.count_next (h : s.Inv derives) (hlt : s.tx.epoch < 255) :
    s.count (s.tx.epoch + 1) = 0 := by
  rw [count, segment_eq_nil, List.length_nil]
  intro x hx heq
  have hle : x.epoch.toNat ≤ s.tx.epoch.toNat := h.epoch_le x hx
  have := toNat_epoch_add_one hlt
  rw [heq] at hle
  omega

/-- Installing a key derived with an ephemeral that has not been used. -/
theorem Inv.switch (h : s.Inv derives) (hlt : s.tx.epoch < 255) {e : EphemeralKeyPair}
    {k : Block 32} (hk : derives e k) (he : e.publicKey ∉ s.installed.map fun p => p.1.publicKey) :
    Inv derives ⟨s.tx.switch k, s.sealed, s.installed ++ [(e, k)]⟩ := by
  have hnext := toNat_epoch_add_one hlt
  have hold : ∀ i p, s.installed[i]? = some p → (s.installed ++ [(e, k)])[i]? = some p :=
    fun i p hp => by rw [List.getElem?_append_left (List.getElem?_eq_some_iff.mp hp).1, hp]
  refine ⟨h.numbered, ?_, h.sorted, ?_, ?_, ?_, ?_, ?_⟩
  · intro x hx
    have hle : x.epoch.toNat ≤ s.tx.epoch.toNat := h.epoch_le x hx
    change x.epoch.toNat ≤ (s.tx.epoch + 1).toNat
    omega
  · change (s.installed ++ [(e, k)]).length = (s.tx.epoch + 1).toNat + 1
    rw [List.length_append, h.length_installed, hnext, List.length_singleton]
  · refine ⟨e, ?_⟩
    change (s.installed ++ [(e, k)])[(s.tx.epoch + 1).toNat]? = some (e, k)
    rw [hnext, ← h.length_installed, List.getElem?_concat_length]
  · intro x hx
    obtain ⟨e', he'⟩ := h.keyed x hx
    exact ⟨e', hold _ _ he'⟩
  · intro p hp
    rcases List.mem_append.mp hp with hp | hp
    · exact h.derived p hp
    · rw [List.mem_singleton.mp hp]
      exact hk
  · change ((s.installed ++ [(e, k)]).map fun p => p.1.publicKey).Nodup
    rw [List.map_append, List.map_singleton]
    refine List.nodup_append.mpr ⟨h.fresh, by simp, ?_⟩
    rintro a ha b hb rfl
    rw [List.mem_singleton.mp hb] at ha
    exact he ha

section

variable (hne : ∀ e e' k k', derives e k → derives e' k' → e.publicKey ≠ e'.publicKey → k ≠ k')
include hne

/-- Keys of different epochs are different. -/
theorem Inv.epoch_of_key (h : s.Inv derives) {i j : ℕ} {e e' : EphemeralKeyPair} {k : Block 32}
    (hi : s.installed[i]? = some (e, k)) (hj : s.installed[j]? = some (e', k)) : i = j := by
  have he : e.publicKey = e'.publicKey := by
    by_contra hdiff
    exact hne e e' k k (h.derived _ (List.mem_of_getElem? hi))
      (h.derived _ (List.mem_of_getElem? hj)) hdiff rfl
  have hlt : i < (s.installed.map fun p => p.1.publicKey).length := by
    rw [List.length_map]
    exact (List.getElem?_eq_some_iff.mp hi).1
  refine (List.getElem?_inj hlt h.fresh).mp ?_
  rw [List.getElem?_map, List.getElem?_map, hi, hj, Option.map_some, Option.map_some, he]

/-- **No nonce is used twice under a key**, in a session of fewer than `2 ^ 64` frames in each
epoch. -/
theorem Inv.nonces (h : s.Inv derives) (hbound : ∀ epoch, s.count epoch < 2 ^ 64) :
    s.sealed.Pairwise fun x y => (x.key, x.counter) ≠ (y.key, y.counter) := by
  refine (h.numbered.pairwise counter_injective fun e => (hbound e).le).imp_of_mem ?_
  intro x y hx hy hnum heq
  obtain ⟨hkey, hcounter⟩ := Prod.mk.inj heq
  obtain ⟨e, he⟩ := h.keyed x hx
  obtain ⟨e', he'⟩ := h.keyed y hy
  rw [← hkey] at he'
  exact hnum (UInt8.toNat_inj.mp (h.epoch_of_key hne he he')) hcounter

end

end Sender

end Epx
