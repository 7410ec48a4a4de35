import Epx.RecordLayer

/-!
# Frames in flight

One direction of a session: a receiver, the frames in flight to it, and the sender at the other
end. `Stream` says that the receiver will open the frames one after another, each to the plaintext
that was sealed, and gives the state it will then be in. A sender that this state is `Ready` for can
seal another frame and the stream goes on.

In each direction one frame does more than carry data: a REKEY on the way to the host, a REKEY_ACK
on the way to the client. When the client has opened the ack it arms the next key, so opening goes
on from another state than opening alone would give. A stream has at most one such frame in it.

## Main definitions

* `Stream` — the frames in flight will be opened
* `Special` — the rotation frame in a stream

## Main results

* `Stream.append_seal` — sealing one more frame
* `Stream.arm` — arming a key does not disturb frames of the current epoch
* `Stream.filter_eq` — what is in flight is what was sealed
-/

namespace Epx

open Codec

/-- A rotation frame in flight: its type and plaintext, the epoch it is opened in and the key that
its receiver arms on opening it. -/
structure Special where
  type : FrameType
  plaintext : Bytes
  epoch : UInt8
  arm : Option (Block 32)

/-- The receive state from which frames after a rotation frame are opened. -/
def Special.react (sp : Special) (rx : RxState) : RxState :=
  match sp.arm with
  | some key => rx.arm key
  | none => rx

/-- The types of the frames that are sent in the clear. -/
def isCleartext (type : FrameType) : Bool := type = .ping ∨ type = .pong

/-- From state `rx` the frames are opened in order, as the calls `calls` that sealed them, and leave
state `rx'`. Cleartext frames change nothing; data frames have types in `P`; the first index is the
rotation frame among them, if any. -/
inductive Stream (S : Sodium) (v2 : Bool) (P : FrameType → Prop) :
    Option Special → RxState → List RawFrame → List SealCall → RxState → Prop
  | nil {rx : RxState} : Stream S v2 P none rx [] [] rx
  | clear {o : Option Special} {rx rx' : RxState} {f : RawFrame} {fs : List RawFrame}
      {xs : List SealCall} :
      isCleartext f.type = true → Stream S v2 P o rx fs xs rx' → Stream S v2 P o rx (f :: fs) xs rx'
  | own {o : Option Special} {rx rx₁ rx' : RxState} {x : SealCall} {fs : List RawFrame}
      {xs : List SealCall} :
      P x.type → openChecked S v2 rx (x.frame S v2) = some (x.plaintext, rx₁) →
      Stream S v2 P o rx₁ fs xs rx' → Stream S v2 P o rx (x.frame S v2 :: fs) (x :: xs) rx'
  | special {sp : Special} {rx rx₁ rx' : RxState} {x : SealCall} {fs : List RawFrame}
      {xs : List SealCall} :
      x.type = sp.type → x.plaintext = sp.plaintext → rx₁.epoch = sp.epoch →
      openChecked S v2 rx (x.frame S v2) = some (x.plaintext, rx₁) →
      Stream S v2 P none (sp.react rx₁) fs xs rx' →
      Stream S v2 P (some sp) rx (x.frame S v2 :: fs) (x :: xs) rx'

namespace Stream

variable {S : Sodium} {v2 : Bool} {P : FrameType → Prop} {o : Option Special}
variable {rx rx' rx₁ : RxState} {fs : List RawFrame} {xs : List SealCall} {x : SealCall}

/-! ### Adding a frame at the end -/

theorem append_clear (h : Stream S v2 P o rx fs xs rx') {f : RawFrame}
    (hf : isCleartext f.type = true) :
    Stream S v2 P o rx (fs ++ [f]) xs rx' := by
  induction h with
  | nil => exact .clear hf .nil
  | clear hc _ ih => exact .clear hc ih
  | own hP ho _ ih => exact .own hP ho ih
  | special ht hp he ho _ ih => exact .special ht hp he ho ih

theorem append_own (h : Stream S v2 P o rx fs xs rx') (hP : P x.type)
    (ho : openChecked S v2 rx' (x.frame S v2) = some (x.plaintext, rx₁)) :
    Stream S v2 P o rx (fs ++ [x.frame S v2]) (xs ++ [x]) rx₁ := by
  induction h with
  | nil => exact .own hP ho .nil
  | clear hc _ ih => exact .clear hc (ih ho)
  | own hP' ho' _ ih => exact .own hP' ho' (ih ho)
  | special ht hp he ho' _ ih => exact .special ht hp he ho' (ih ho)

theorem append_special (sp : Special) (h : Stream S v2 P none rx fs xs rx')
    (ht : x.type = sp.type) (hp : x.plaintext = sp.plaintext) (he : rx₁.epoch = sp.epoch)
    (ho : openChecked S v2 rx' (x.frame S v2) = some (x.plaintext, rx₁)) :
    Stream S v2 P (some sp) rx (fs ++ [x.frame S v2]) (xs ++ [x]) (sp.react rx₁) := by
  generalize hnone : none = o at h
  induction h with
  | nil => exact .special ht hp he ho .nil
  | clear hc _ ih => exact .clear hc (ih ho hnone)
  | own hP' ho' _ ih => exact .own hP' ho' (ih ho hnone)
  | special => cases hnone

/-- **Sealing one more data frame.** -/
theorem append_seal (hS : S.AeadCorrect) {tx : TxState} (h : Stream S v2 P o rx fs xs rx')
    (hready : Ready v2 rx' tx) {type : FrameType} (hP : P type) (plaintext : Bytes) :
    ∃ rx₁, Stream S v2 P o rx (fs ++ [(tx.call type plaintext).frame S v2])
        (xs ++ [tx.call type plaintext]) rx₁ ∧
      Same rx₁ tx.bump ∧ (Same rx' tx → rx₁.pending = rx'.pending) := by
  obtain ⟨rx₁, ho, hsame, hpending⟩ := openChecked_of_ready hS hready type plaintext
  exact ⟨rx₁, h.append_own (show P (tx.call type plaintext).type from hP) ho, hsame, hpending⟩

/-! ### The pending key -/

/-- Opening does not arm a key, and without one the epoch stays. -/
theorem of_pending_none (h : Stream S v2 P none rx fs xs rx') (hnone : rx.pending = none) :
    rx'.epoch = rx.epoch ∧ rx'.pending = none := by
  generalize ho : none = o at h
  induction h with
  | nil => exact ⟨rfl, hnone⟩
  | clear _ _ ih => exact ih hnone ho
  | own _ hopen _ ih =>
    rcases openChecked_eq_some hopen with ⟨-, -, -, rfl⟩ | ⟨-, -, -, key, hsome, -⟩
    · exact ih hnone ho
    · rw [hnone] at hsome
      cases hsome
  | special => cases ho

/-- A key that is pending at the end was pending at the start. -/
theorem pending_of_pending {key : Block 32} (h : Stream S v2 P none rx fs xs rx')
    (hsome : rx'.pending = some key) : rx.pending = some key := by
  generalize ho : none = o at h
  induction h with
  | nil => exact hsome
  | clear _ _ ih => exact ih hsome ho
  | own _ hopen hrest ih =>
    subst ho
    rcases openChecked_eq_some hopen with ⟨-, -, -, rfl⟩ | ⟨-, -, -, key', -, -, rfl⟩
    · exact ih hsome rfl
    · rw [(hrest.of_pending_none rfl).2] at hsome
      cases hsome
  | special => cases ho

/-- **Arming a key** while the frames in flight are all of the current epoch. -/
theorem arm (h : Stream S v2 P none rx fs xs rx') (he : rx'.epoch = rx.epoch) (key : Block 32) :
    Stream S v2 P none (rx.arm key) fs xs (rx'.arm key) := by
  generalize ho : none = o at h
  induction h with
  | nil => exact .nil
  | clear hc _ ih => exact .clear hc (ih he ho)
  | @own _ rx rx₁ rx' x _ _ hP hopen hrest ih =>
    subst ho
    rcases openChecked_eq_some hopen with ⟨hc, hep, himpl, rfl⟩ | ⟨-, -, -, key', -, -, rfl⟩
    · exact .own hP (openChecked_current hc hep himpl) (ih he rfl)
    · -- Had the pending key been used, the epoch would have moved.
      rw [(hrest.of_pending_none rfl).1] at he
      exact absurd he (by simp [RxState.advance])
  | special => cases ho

/-! ### What is in flight -/

/-- The rotation frame of a stream is in it. -/
theorem exists_special {sp : Special} (h : Stream S v2 P (some sp) rx fs xs rx') :
    ∃ f ∈ fs, f.type = sp.type := by
  generalize ho : some sp = o at h
  induction h with
  | nil => cases ho
  | clear _ _ ih =>
    obtain ⟨f, hf, ht⟩ := ih ho
    exact ⟨f, List.mem_cons_of_mem _ hf, ht⟩
  | own _ _ _ ih =>
    obtain ⟨f, hf, ht⟩ := ih ho
    exact ⟨f, List.mem_cons_of_mem _ hf, ht⟩
  | special ht =>
    cases ho
    exact ⟨_, List.mem_cons_self, ht⟩

/-- The frames of a stream that are not cleartext are those of its calls. -/
theorem filter_eq (h : Stream S v2 P o rx fs xs rx') (hP : ∀ t, P t → isCleartext t = false)
    (ho : ∀ sp, o = some sp → isCleartext sp.type = false) :
    (fs.filter fun f => !isCleartext f.type) = xs.map (SealCall.frame S v2) := by
  induction h with
  | nil => rfl
  | clear hc _ ih =>
    rw [List.filter_cons_of_neg (by simp [hc])]
    exact ih ho
  | own hP' _ _ ih =>
    have htype := hP _ hP'
    rw [List.filter_cons_of_pos (by simpa using htype), List.map_cons, ih ho]
  | special ht _ _ _ _ ih =>
    have htype := ho _ rfl
    rw [← ht] at htype
    rw [List.filter_cons_of_pos (by simpa using htype), List.map_cons,
      ih fun sp hsp => by cases hsp]

/-- The next frame of a stream that is not cleartext is opened. -/
theorem head_opened {f : RawFrame} (h : Stream S v2 P o rx (f :: fs) xs rx')
    (hf : isCleartext f.type = false) : ∃ p, openChecked S v2 rx f = some p := by
  cases h with
  | clear hc _ => simp [hf] at hc
  | own _ hopen _ => exact ⟨_, hopen⟩
  | special _ _ _ hopen _ => exact ⟨_, hopen⟩

end Stream

end Epx
