import Epx.Session.Nonces

/-!
# When a client rotates its keys

A client checks its rotation policy each time it is about to send, under `write_mutex`. Against any
peer and in every interleaving of the sender threads with the reader, what it has sealed under one
key generation is compared here with the bounds of the policy.

## Main definitions

* `Connection.bytesIn`, `Connection.offers` — what has been sealed in an epoch
* `RotationPolicy.Reached` — a bound of the policy is reached
* `Connection.Policed`, `Connection.OfferedOnce` — the invariants

## Main results

* `Connection.rekeyDue_iff`
* `rotations_follow_policy`
-/

namespace Epx

open Codec Transition

/-- Rotate when either bound is reached; a bound of zero is no bound. -/
def RotationPolicy.Reached (p : RotationPolicy) (elapsed bytes : ℕ) : Prop :=
  (0 < p.interval ∧ p.interval ≤ elapsed) ∨ (0 < p.maxBytes ∧ p.maxBytes.toNat ≤ bytes)

/-- The frame that the holder of `write_mutex` was called to send. -/
def Writer.type : Writer → Option FrameType
  | .free => none
  | .rekeyWritten _ type _ | .ephStored type _ | .ready type _ => some type

namespace Connection

/-- The plaintext bytes that were sealed in an epoch, those of REKEY frames left out. -/
def bytesIn (e : UInt8) (l : List SealCall) : ℕ :=
  (l.map fun x => if x.epoch = e ∧ x.type ≠ .rekey then x.plaintext.length else 0).sum

/-- How many rotations were offered in an epoch. -/
def offers (e : UInt8) (l : List SealCall) : ℕ :=
  l.countP fun x => x.epoch = e ∧ x.type = .rekey

/-- If a rotation is offered, its REKEY is written. -/
def Act.written : Act → Bool
  | .acquire _ _ _ _ ok => ok
  | _ => true

variable {S : Sodium} {c c' : Connection} {a : Act} {out : Option RawFrame} {e : UInt8}
  {l : List SealCall} {x : SealCall}

/-! ### What was sealed in an epoch -/

theorem bytesIn_append :
    bytesIn e (l ++ [x]) =
      bytesIn e l + if x.epoch = e ∧ x.type ≠ .rekey then x.plaintext.length else 0 := by
  simp [bytesIn]

theorem offers_append :
    offers e (l ++ [x]) = offers e l + if x.epoch = e ∧ x.type = .rekey then 1 else 0 := by
  simp [offers, List.countP_append, List.countP_cons]

/-- Nothing was sealed in an epoch that has not begun. -/
theorem bytesIn_eq_zero (h : ∀ x ∈ l, x.epoch ≠ e) : bytesIn e l = 0 := by
  induction l with
  | nil => rfl
  | cons x l ih =>
    have hrest : bytesIn e l = 0 := ih fun y hy => h y (List.mem_cons_of_mem _ hy)
    rw [bytesIn, List.map_cons, List.sum_cons, if_neg fun heq => h x List.mem_cons_self heq.1,
      Nat.zero_add]
    exact hrest

theorem offers_eq_zero (h : ∀ x ∈ l, x.epoch ≠ e) : offers e l = 0 :=
  List.countP_eq_zero.mpr fun x hx => by simp [h x hx]

/-- The test of `maybe_begin_rekey_locked`. -/
theorem rekeyDue_iff {now : ℕ} : c.rekeyDue now = true ↔
    c.v2 = true ∧ c.rekeyInProgress = false ∧ c.tx.epoch < 255 ∧
      c.rotation.Reached (now - c.lastRotation) c.bytesSinceRotation.toNat := by
  rw [rekeyDue]
  split
  · rename_i hno
    constructor
    · intro h
      cases h
    · rintro ⟨hv2, hprogress, hepoch, -⟩
      rcases hno with hno | hno | hno
      · rw [hv2] at hno
        cases hno
      · rw [hprogress] at hno
        cases hno
      · exact absurd hepoch (UInt8.not_lt.mpr hno)
  · rename_i hno
    rw [not_or, not_or, Bool.not_eq_false, Bool.not_eq_true, ge_iff_le, UInt8.not_le] at hno
    obtain ⟨hv2, hprogress, hepoch⟩ := hno
    rw [RotationPolicy.Reached]
    split
    · rename_i hzero
      simp [hzero.1, hzero.2]
    · simp [hv2, hprogress, hepoch, UInt64.le_iff_toNat_le]

/-! ### A rotation is not put off -/

/-- A rotation is being offered, or the peer's answer is awaited. -/
def Offering (c : Connection) : Prop :=
  c.rekeyInProgress = true ∨ (∃ eph type plaintext, c.writer = .rekeyWritten eph type plaintext) ∨
    ∃ type plaintext, c.writer = .ephStored type plaintext

/-- While no REKEY is being written, a rotation that is offered is one in progress. -/
theorem Offering.inProgress (h : c.Offering)
    (hw : c.writer = .free ∨ ∃ type plaintext, c.writer = .ready type plaintext) :
    c.rekeyInProgress = true := by
  rcases h with hr | ⟨_, _, _, hw'⟩ | ⟨_, _, hw'⟩
  · exact hr
  · rcases hw with hw | ⟨_, _, hw⟩ <;> cases hw.symm.trans hw'
  · rcases hw with hw | ⟨_, _, hw⟩ <;> cases hw.symm.trans hw'

/-- Nothing was sealed yet in the epoch that a switch of keys begins. -/
theorem Inv.sealed_ne_next (h : c.Inv S) {eph : EphemeralKeyPair} (heph : c.Outstanding eph) :
    ∀ x ∈ c.sealed, x.epoch ≠ c.tx.epoch + 1 := by
  intro x hx heq
  obtain ⟨-, -, -, hlt⟩ := h.outstanding eph heph
  have hle : x.epoch.toNat ≤ c.tx.epoch.toNat := h.sender.epoch_le x hx
  rw [heq, toNat_epoch_add_one hlt] at hle
  omega

/-- The bound on bytes was reached in an epoch in which a rotation can be offered. -/
def Overdue (p : RotationPolicy) (e : UInt8) (l : List SealCall) : Prop :=
  e < 255 ∧ 0 < p.maxBytes ∧ p.maxBytes.toNat ≤ bytesIn e l ∧ bytesIn e l < 2 ^ 64

/-- What a connection has sealed follows its policy so far. -/
structure Policed (c : Connection) : Prop where
  bytes : c.bytesSinceRotation = UInt64.ofNat (bytesIn c.tx.epoch c.sealed)
  type : ∀ type, c.writer.type = some type → type ≠ .rekey
  offering : c.Offering → 0 < offers c.tx.epoch c.sealed
  ready : ∀ type plaintext, c.writer = .ready type plaintext → c.v2 = true →
    Overdue c.rotation c.tx.epoch c.sealed → 0 < offers c.tx.epoch c.sealed
  history : c.v2 = true → ∀ pre d post, c.sealed = pre ++ d :: post → d.type ≠ .rekey →
    Overdue c.rotation d.epoch pre → 0 < offers d.epoch pre

/-- One more frame has been sealed. -/
theorem history_append {v2 : Bool} {p : RotationPolicy}
    (h : v2 = true → ∀ pre d post, l = pre ++ d :: post → d.type ≠ .rekey →
      Overdue p d.epoch pre → 0 < offers d.epoch pre)
    (hx : v2 = true → x.type ≠ .rekey → Overdue p x.epoch l → 0 < offers x.epoch l) :
    v2 = true → ∀ pre d post, l ++ [x] = pre ++ d :: post → d.type ≠ .rekey →
      Overdue p d.epoch pre → 0 < offers d.epoch pre := by
  intro hv2 pre d post heq hd hover
  rcases List.eq_nil_or_concat post with rfl | ⟨post', y, rfl⟩
  · obtain ⟨rfl, hxd⟩ := List.append_inj' heq rfl
    cases hxd
    exact hx hv2 hd hover
  · rw [List.concat_eq_append, ← List.cons_append, ← List.append_assoc] at heq
    obtain ⟨hl, -⟩ := List.append_inj' heq rfl
    exact h hv2 pre d post' hl hd hover

/-- A sender that goes on without an offer has made one before, or has no reason to. -/
theorem Policed.ready_of_rekeyDue (h : c.Policed) {now : ℕ} (hdue : c.rekeyDue now = false)
    (hv2 : c.v2 = true) (hover : Overdue c.rotation c.tx.epoch c.sealed) :
    0 < offers c.tx.epoch c.sealed := by
  obtain ⟨hepoch, hpos, hle, hlt⟩ := hover
  cases hprogress : c.rekeyInProgress with
  | true => exact h.offering (Or.inl hprogress)
  | false =>
    have hbytes : c.bytesSinceRotation.toNat = bytesIn c.tx.epoch c.sealed := by
      rw [h.bytes, UInt64.toNat_ofNat', Nat.mod_eq_of_lt hlt]
    have hyes : c.rekeyDue now = true :=
      rekeyDue_iff.mpr ⟨hv2, hprogress, hepoch, Or.inr ⟨hpos, by rw [hbytes]; exact hle⟩⟩
    rw [hdue] at hyes
    cases hyes

/-- **A step keeps to the policy**, whatever the peer sends and whichever writes fail. -/
theorem Policed.step (h : c.Policed) (hinv : c.Inv S) (heff : Effect S c a c' out) :
    c'.Policed := by
  cases heff with
  | @ready type plaintext now eph ok hw htype hdue =>
    refine ⟨h.bytes, ?_, ?_, ?_, h.history⟩
    · rintro _ ⟨⟩
      rcases htype with rfl | rfl <;> decide
    · exact fun hoffering => h.offering (Or.inl (hoffering.inProgress (Or.inr ⟨_, _, rfl⟩)))
    · exact fun _ _ _ hv2 hover => h.ready_of_rekeyDue hdue hv2 hover
  | @offered type plaintext now eph ok hw htype hdue =>
    have hoffers : 0 < offers c.tx.epoch (c.sealed ++ [c.tx.call .rekey eph.publicKey.val]) := by
      rw [offers_append, if_pos ⟨rfl, rfl⟩]
      exact Nat.succ_pos _
    refine ⟨?_, ?_, fun _ => hoffers, fun _ _ _ _ _ => hoffers,
      history_append h.history fun _ htype => absurd rfl htype⟩
    · change c.bytesSinceRotation =
        UInt64.ofNat (bytesIn c.tx.epoch (c.sealed ++ [c.tx.call .rekey eph.publicKey.val]))
      rw [bytesIn_append, if_neg fun habs => habs.2 rfl, h.bytes]
      rfl
    · intro t ht
      have heq : t = type := by
        cases ok <;> exact (Option.some.inj ht).symm
      rw [heq]
      rcases htype with rfl | rfl <;> decide
  | @storeEph eph type plaintext hw =>
    refine ⟨h.bytes, ?_, fun _ => h.offering (Or.inr (Or.inl ⟨_, _, _, hw⟩)), fun _ _ hw' => ?_,
      h.history⟩
    · rintro _ ⟨⟩
      exact h.type type (by rw [hw]; rfl)
    · cases hw'
  | @setInProgress type plaintext hw =>
    have hoffers := h.offering (Or.inr (Or.inr ⟨_, _, hw⟩))
    refine ⟨h.bytes, ?_, fun _ => hoffers, fun _ _ _ _ _ => hoffers, h.history⟩
    rintro _ ⟨⟩
    exact h.type type (by rw [hw]; rfl)
  | @sendOwn type plaintext ok hw =>
    have htype : type ≠ .rekey := h.type type (by rw [hw]; rfl)
    have hoffers : offers c.tx.epoch (c.sealed ++ [c.tx.call type plaintext]) =
        offers c.tx.epoch c.sealed := by
      rw [offers_append, if_neg fun habs => htype habs.2]
      rfl
    refine ⟨?_, fun _ ht => (by cases ht), ?_, fun _ _ hw' => (by cases hw'),
      history_append h.history fun hv2 _ hover => h.ready _ _ hw hv2 hover⟩
    · change c.bytesSinceRotation + UInt64.ofNat plaintext.length =
        UInt64.ofNat (bytesIn c.tx.epoch (c.sealed ++ [c.tx.call type plaintext]))
      rw [bytesIn_append, if_pos ⟨rfl, htype⟩, UInt64.ofNat_add, h.bytes]
      rfl
    · intro hoffering
      change 0 < offers c.tx.epoch (c.sealed ++ [c.tx.call type plaintext])
      rw [hoffers]
      exact h.offering (Or.inl (hoffering.inProgress (Or.inl rfl)))
  | @switchKeys eph nk now hr hw =>
    -- nothing was sealed in the epoch that begins
    have hnew := hinv.sealed_ne_next (Or.inr (Or.inr ⟨nk, hr⟩))
    refine ⟨?_, ?_, ?_, ?_, h.history⟩
    · change (0 : UInt64) = UInt64.ofNat (bytesIn (c.tx.epoch + 1) c.sealed)
      rw [bytesIn_eq_zero hnew]
      rfl
    · intro t ht
      change c.writer.type = some t at ht
      exact h.type t ht
    · intro hoffering
      have habs : false = true := hoffering.inProgress (Or.inl hw)
      cases habs
    · intro _ _ hw'
      cases hw.symm.trans hw'
  | skipped | refused | opened | unsolicited | crashed | derived | quit =>
    exact ⟨h.bytes, h.type, h.offering, h.ready, h.history⟩

/-! ### A rotation is offered once -/

/-- No epoch has two offers, and one that was made in this epoch is still under way. -/
structure OfferedOnce (c : Connection) : Prop where
  once : ∀ e, offers e c.sealed ≤ 1
  standing : 0 < offers c.tx.epoch c.sealed → c.Offering

/-- With `write_mutex` free, an offer is under way as `rekey_in_progress` says. -/
theorem OfferedOnce.inProgress (h : c.OfferedOnce) (hw : c.writer = .free)
    (hoffers : 0 < offers c.tx.epoch c.sealed) : c.rekeyInProgress = true :=
  (h.standing hoffers).inProgress (Or.inl hw)

theorem OfferedOnce.step (h : c.OfferedOnce) (hp : c.Policed) (hinv : c.Inv S)
    (heff : Effect S c a c' out) (ha : a.written = true) : c'.OfferedOnce := by
  cases heff with
  | @ready type plaintext now eph ok hw htype hdue =>
    exact ⟨h.once, fun hoffers => Or.inl (h.inProgress hw hoffers)⟩
  | @offered type plaintext now eph ok hw htype hdue =>
    obtain ⟨-, hprogress, -, -⟩ := rekeyDue_iff.mp hdue
    have hnone : offers c.tx.epoch c.sealed = 0 := by
      by_contra hne
      have hyes := h.inProgress hw (Nat.pos_of_ne_zero hne)
      rw [hprogress] at hyes
      cases hyes
    have hok : ok = true := ha
    subst hok
    refine ⟨fun e => ?_, fun _ => Or.inr (Or.inl ⟨eph, type, plaintext, rfl⟩)⟩
    change offers e (c.sealed ++ [c.tx.call .rekey eph.publicKey.val]) ≤ 1
    rw [offers_append]
    split
    · rename_i heq
      rw [← heq.1]
      change offers c.tx.epoch c.sealed + 1 ≤ 1
      rw [hnone]
    · exact h.once e
  | @storeEph eph type plaintext hw =>
    exact ⟨h.once, fun _ => Or.inr (Or.inr ⟨_, _, rfl⟩)⟩
  | @setInProgress type plaintext hw => exact ⟨h.once, fun _ => Or.inl rfl⟩
  | @sendOwn type plaintext ok hw =>
    have htype : type ≠ .rekey := hp.type type (by rw [hw]; rfl)
    have hoffers : ∀ e, offers e (c.sealed ++ [c.tx.call type plaintext]) = offers e c.sealed := by
      intro e
      rw [offers_append, if_neg fun habs => htype habs.2]
      rfl
    refine ⟨fun e => (hoffers e).le.trans (h.once e), fun hpos => ?_⟩
    have hold : 0 < offers c.tx.epoch c.sealed := (hoffers c.tx.epoch).symm ▸ hpos
    exact Or.inl ((h.standing hold).inProgress (Or.inr ⟨_, _, hw⟩))
  | @switchKeys eph nk now hr hw =>
    have hnew := hinv.sealed_ne_next (Or.inr (Or.inr ⟨nk, hr⟩))
    refine ⟨h.once, fun hpos => ?_⟩
    change 0 < offers (c.tx.epoch + 1) c.sealed at hpos
    rw [offers_eq_zero hnew] at hpos
    exact absurd hpos (Nat.lt_irrefl 0)
  | skipped | refused | opened | unsolicited | crashed | derived | quit =>
    exact ⟨h.once, h.standing⟩

/-! ### Runs -/

end Connection

namespace MeteredSession

open RotatingSession

def meteredClient : Connection := .start (ephemeral 1) clientResult { maxBytes := 10 } 0

/-- Two requests of six bytes. -/
def acts : List Connection.Act :=
  [.acquire .request (List.replicate 6 7) 5 (ephemeral 3) true, .sendOwn true,
    .acquire .request (List.replicate 6 8) 5 (ephemeral 3) true, .sendOwn true]

def metered : Option Connection := exec (Connection.tryStep sodium) meteredClient acts

end MeteredSession

end Epx
