import Epx.Session.Rotation
import Epx.Session.HostWrites

/-!
# Following a session without failures

The two ends of a connection may part with the session that they would be if every write succeeded.
This file says how far they stay together.

A host that could not write is not alive any more: it writes nothing, and reads on as before until
it is asked to answer a REKEY. A client whose reader came for an ephemeral before it was stored has
no reader any more, and sends on as before.

## Main definitions

* `Mirrors` — a host and the host of a session in which no write fails
* `Lags` — a client and the client of such a session
* `Connection.outgoing` — the frame that a step of a client hands to the transport

## Main results

* `Mirrors.step`, `Mirrors.receive` — what the host does, that of the session does or waits
* `Connection.exists_step_of_sends` — what a sender does, that of the session does
-/

namespace Epx

open Codec

/-! ### The host -/

/-- The host `h` of a run, and the host `g` of a session in which no write fails. They part when a
write of `h` fails; then `h` is not alive, and reads on until it is asked to answer a REKEY. -/
structure Mirrors (h g : HostConn) : Prop where
  v2 : h.v2 = g.v2
  rx : h.rx = g.rx
  opened : h.opened = g.opened
  epoch : h.tx.epoch = g.tx.epoch
  drawn : h.drawn = g.drawn
  same : h = g ∨ h.alive = false ∧ (h.reader = g.reader ∨ h.reader = .exited)

namespace Mirrors

variable {S : Sodium} {h g h' : HostConn} {out : Option RawFrame}

theorem refl (h : HostConn) : Mirrors h h := ⟨rfl, rfl, rfl, rfl, rfl, Or.inl rfl⟩

theorem eq_of_alive (hm : Mirrors h g) (halive : h.alive = true) : h = g := by
  refine hm.same.resolve_right fun hdead => ?_
  rw [halive] at hdead
  cases hdead.1

/-- A step of the host that reads nothing is one of the session, or it writes nothing and the
session waits. -/
theorem step (hm : Mirrors h g) {a : HostConn.Act} (heff : HostConn.Effect S h a h' out)
    (hread : ∀ f eph ok, a ≠ .receive f eph ok) :
    (out = none ∧ Mirrors h' g) ∨ ∃ b g', g.step S b = some (g', out) ∧ b.ok = true ∧
      (∀ f eph ok, b ≠ .receive f eph ok) ∧ Mirrors h' g' := by
  cases heff with
  | dead _ => exact Or.inl ⟨rfl, hm⟩
  | @sent type plaintext ok halive htype =>
    obtain rfl := hm.eq_of_alive halive
    cases ok with
    | false => exact Or.inl ⟨rfl, rfl, rfl, rfl, rfl, rfl, Or.inr ⟨rfl, Or.inl rfl⟩⟩
    | true =>
      refine Or.inr ⟨.send type plaintext true, _, ?_, rfl, fun _ _ _ heq => (by cases heq), refl _⟩
      rw [HostConn.step, if_pos htype, HostConn.sendSealed, if_neg (by simp [halive])]
  | @pinged ok halive =>
    obtain rfl := hm.eq_of_alive halive
    cases ok with
    | false => exact Or.inl ⟨rfl, rfl, rfl, rfl, rfl, rfl, Or.inr ⟨rfl, Or.inl rfl⟩⟩
    | true =>
      refine Or.inr ⟨.ping true, _, ?_, rfl, fun _ _ _ heq => (by cases heq), refl _⟩
      rw [HostConn.step, HostConn.sendPing, if_neg (by simp [halive])]
  | ackDead _ halive =>
    exact Or.inl ⟨rfl, hm.v2, hm.rx, hm.opened, hm.epoch, hm.drawn, Or.inr ⟨halive, Or.inr rfl⟩⟩
  | ackFailed _ _ =>
    exact Or.inl ⟨rfl, hm.v2, hm.rx, hm.opened, hm.epoch, hm.drawn, Or.inr ⟨rfl, Or.inr rfl⟩⟩
  | switched hr halive =>
    obtain rfl := hm.eq_of_alive halive
    refine Or.inr ⟨.ackAndSwitch true, _, ?_, rfl, fun _ _ _ heq => (by cases heq), refl _⟩
    simp only [HostConn.step, hr]
    rw [HostConn.sendRekeyAckAndSwitch, if_neg (by simp [halive]), if_neg (by simp)]
  | quit hr =>
    rcases hm.same with rfl | ⟨hdead, -⟩
    · refine Or.inr ⟨.quit, _, ?_, rfl, fun _ _ _ heq => (by cases heq), refl _⟩
      simp only [HostConn.step, hr]
    · exact Or.inl ⟨rfl, hm.v2, hm.rx, hm.opened, hm.epoch, hm.drawn, Or.inr ⟨hdead, Or.inr rfl⟩⟩
  | shutdown hr =>
    rcases hm.same with rfl | ⟨-, hreader⟩
    · refine Or.inr ⟨.shutdown, _, ?_, rfl, fun _ _ _ heq => (by cases heq), refl _⟩
      simp only [HostConn.step, hr]
    · exact Or.inl ⟨rfl, hm.v2, hm.rx, hm.opened, hm.epoch, hm.drawn, Or.inr ⟨rfl, hreader⟩⟩
  | ponged _ _ | broke _ _ | skipped _ _ _ _ | refused _ _ _ | opened _ _ _ =>
    exact absurd rfl (hread _ _ _)

/-- A dead host reads a frame as the live one does. -/
theorem receive_dead (hm : Mirrors h g) (hdead : h.alive = false) {f : RawFrame}
    {eph : EphemeralKeyPair} (ok ok' : Bool) (hping : f.type ≠ .ping) :
    Mirrors (h.receive S f eph ok).1 (g.receive S f eph ok').1 := by
  have hbreaks : h.breaks f.type = g.breaks f.type := by
    rw [HostConn.breaks, HostConn.breaks, hm.v2]
  have hopens : h.opens f.type = g.opens f.type := by rw [HostConn.opens, HostConn.opens, hm.v2]
  have hopen : openChecked S h.v2 h.rx f = openChecked S g.v2 g.rx f := by rw [hm.v2, hm.rx]
  have hafter : ∀ o, h.afterOpen S f.type o eph = g.afterOpen S f.type o eph := by
    intro o
    rw [HostConn.afterOpen, HostConn.afterOpen, HostConn.afterRekey, HostConn.afterRekey, hm.epoch]
  rw [HostConn.receive, HostConn.receive, if_neg hping, if_neg hping, hbreaks, hopens, hopen]
  cases g.breaks f.type with
  | true => exact ⟨hm.v2, hm.rx, hm.opened, hm.epoch, hm.drawn, Or.inr ⟨hdead, Or.inl rfl⟩⟩
  | false =>
    cases g.opens f.type with
    | false => exact hm
    | true =>
      cases openChecked S g.v2 g.rx f with
      | none => exact ⟨hm.v2, hm.rx, hm.opened, hm.epoch, hm.drawn, Or.inr ⟨hdead, Or.inl rfl⟩⟩
      | some p =>
        refine ⟨hm.v2, rfl, ?_, hm.epoch, ?_, Or.inr ⟨hdead, Or.inl (hafter p.1)⟩⟩
        · exact congrArg (· ++ _) hm.opened
        · change (if f.type = .rekey then eph :: h.drawn else h.drawn) = _
          rw [hm.drawn]
          rfl

/-- What the host makes of a frame that calls for no answer does not depend on what it can write. -/
theorem receive (hm : Mirrors h g) {f : RawFrame} {eph : EphemeralKeyPair} {ok : Bool}
    (hstep : h.step S (.receive f eph ok) = some (h', out)) (hping : f.type ≠ .ping) :
    out = none ∧ ∃ g', g.step S (.receive f eph true) = some (g', none) ∧ Mirrors h' g' := by
  have hnone : ∀ {k k' : HostConn} {ok : Bool} {out : Option RawFrame},
      k.step S (.receive f eph ok) = some (k', out) → out = none := by
    intro k k' ok out hk
    cases HostConn.effect_of_step S hk with
    | ponged _ hf => exact absurd hf hping
    | dead _ | broke _ _ | skipped _ _ _ _ | refused _ _ _ | opened _ _ _ => rfl
  obtain ⟨hr, heq⟩ := HostConn.step_receive S hstep
  have hgr : g.reader = .running := by
    rcases hm.same with rfl | ⟨-, hreader | hreader⟩
    · exact hr
    · exact hreader.symm.trans hr
    · rw [hreader] at hr
      cases hr
  have hg : g.step S (.receive f eph true) = some (g.receive S f eph true) := by
    simp only [HostConn.step, hgr]
  refine ⟨hnone hstep, (g.receive S f eph true).1, ?_, ?_⟩
  · rw [hg, Option.some.injEq]
    exact Prod.ext rfl (hnone hg)
  · rw [show h' = (h.receive S f eph ok).1 from (congrArg Prod.fst heq).symm]
    rcases hm.same with rfl | ⟨hdead, -⟩
    · rw [HostConn.receive, HostConn.receive, if_neg hping, if_neg hping]
      exact refl _
    · exact hm.receive_dead hdead ok true hping

end Mirrors

/-! ### The client -/

namespace Connection

/-- Whether the write of a step succeeds. -/
def Act.ok : Act → Bool
  | .acquire _ _ _ _ ok | .sendOwn ok => ok
  | .storeEph | .setInProgress | .receive _ | .swapEph | .switchKeys _ | .quit => true

/-- The frame that a step hands to `write_frame`. -/
def outgoing (S : Sodium) (c : Connection) : Act → Option RawFrame
  | .acquire _ _ now eph _ =>
    if c.rekeyDue now then some ((c.tx.call .rekey eph.publicKey.val).frame S c.v2) else none
  | .sendOwn _ =>
    match c.writer with
    | .ready type plaintext => some ((c.tx.call type plaintext).frame S c.v2)
    | _ => none
  | .storeEph | .setInProgress | .receive _ | .swapEph | .switchKeys _ | .quit => none

section

variable {S : Sodium} {c c' d : Connection} {a : Act} {out : Option RawFrame}

/-- What a sender hands over: a REKEY of its own, or the frame it was called for. -/
theorem outgoing_eq_some {f : RawFrame}
    (h : c.outgoing S a = some f) :
    ∃ type plaintext, f = (c.tx.call type plaintext).frame S c.v2 ∧
      (type = .rekey ∨ c.writer = .ready type plaintext) := by
  cases a with
  | acquire type plaintext now eph ok =>
    obtain ⟨-, heq⟩ := Option.ite_none_right_eq_some.mp h
    exact ⟨_, _, (Option.some.inj heq).symm, Or.inl rfl⟩
  | sendOwn ok =>
    cases hw : c.writer with
    | ready type plaintext =>
      simp only [outgoing, hw, Option.some.injEq] at h
      exact ⟨_, _, h.symm, Or.inr rfl⟩
    | free | rekeyWritten _ _ _ | ephStored _ _ => simp [outgoing, hw] at h
  | storeEph | setInProgress | receive _ | swapEph | switchKeys _ | quit => cases h

/-- The steps under `write_mutex` of a thread in `seal_and_send`. -/
def Act.sends : Act → Bool
  | .acquire _ _ _ _ _ | .storeEph | .setInProgress | .sendOwn _ => true
  | .receive _ | .swapEph | .switchKeys _ | .quit => false

/-- A sender does not look at the reader. -/
theorem exists_step_of_sends (ha : a.sends = true) {r : ClientReader}
    (h : ({ d with reader := r } : Connection).step S a = some (c', out)) :
    ∃ d', d.step S a = some (d', out) ∧ d'.reader = d.reader ∧ c' = { d' with reader := r } := by
  cases effect_of_step S h with
  | @ready type plaintext now eph ok hw htype hdue =>
    refine ⟨{ d with writer := .ready type plaintext }, ?_, rfl, rfl⟩
    simp only [step, show d.writer = .free from hw, if_pos htype,
      show d.rekeyDue now = false from hdue, Bool.false_eq_true, if_false]
  | @offered type plaintext now eph ok hw htype hdue =>
    refine ⟨(d.offerRekey S type plaintext eph ok).1, ?_, rfl, rfl⟩
    simp only [step, show d.writer = .free from hw, if_pos htype,
      show d.rekeyDue now = true from hdue, if_true]
    rfl
  | @storeEph eph type plaintext hw =>
    refine ⟨{ d with pendingEph := some eph, writer := .ephStored type plaintext }, ?_, rfl, rfl⟩
    simp only [step, show d.writer = _ from hw]
  | @setInProgress type plaintext hw =>
    refine ⟨{ d with rekeyInProgress := true, writer := .ready type plaintext }, ?_, rfl, rfl⟩
    simp only [step, show d.writer = _ from hw]
  | @sendOwn type plaintext ok hw =>
    refine ⟨{ (d.sendFrameLocked S type plaintext).1 with
      bytesSinceRotation := d.bytesSinceRotation + UInt64.ofNat plaintext.length
      writer := .free }, ?_, rfl, rfl⟩
    simp only [step, show d.writer = _ from hw]
    rfl
  | skipped _ _ | refused _ _ _ | opened _ _ _ | unsolicited _ _ | crashed _ _ _ | derived _ _ _
  | switchKeys _ _ | quit _ => cases ha

/-- A step whose write succeeds, or that writes nothing, hands over what it reports as written. -/
theorem out_of_step (h : c.step S a = some (c', out)) (hok : c.outgoing S a = none ∨ a.ok = true) :
    out = c.outgoing S a := by
  cases effect_of_step S h with
  | ready _ _ hdue => simp [outgoing, hdue]
  | @offered type plaintext now eph ok _ _ hdue =>
    rw [outgoing, if_pos hdue] at hok ⊢
    cases ok with
    | false => simp [Act.ok] at hok
    | true => rfl
  | @sendOwn type plaintext ok hw =>
    simp only [outgoing, hw] at hok ⊢
    cases ok with
    | false => simp [Act.ok] at hok
    | true => rfl
  | storeEph _ | setInProgress _ | skipped _ _ | refused _ _ _ | opened _ _ _ | unsolicited _ _
  | crashed _ _ _ | derived _ _ _ | switchKeys _ _ | quit _ => rfl

/-- The same step with a write that succeeds. -/
def Act.succeeding : Act → Act
  | .acquire type plaintext now eph _ => .acquire type plaintext now eph true
  | .sendOwn _ => .sendOwn true
  | a => a

theorem step_succeeding (h : c.step S a = some (c', out))
    (hok : c.outgoing S a = none ∨ a.ok = true) : c.step S a.succeeding = some (c', out) := by
  cases a with
  | acquire type plaintext now eph ok =>
    cases ok with
    | true => exact h
    | false =>
      have hdue : ¬ c.rekeyDue now = true := by simpa [outgoing, Act.ok] using hok
      simp only [step, Act.succeeding, if_neg hdue] at h ⊢
      exact h
  | sendOwn ok =>
    cases ok with
    | true => exact h
    | false =>
      cases hw : c.writer with
      | ready _ _ => simp [outgoing, hw, Act.ok] at hok
      | free | rekeyWritten _ _ _ | ephStored _ _ => simp [step, hw] at h
  | storeEph | setInProgress | receive _ | swapEph | switchKeys _ | quit => exact h

/-- The reader hands nothing over. -/
theorem outgoing_of_reads (ha : a.sends = false) (c : Connection) : c.outgoing S a = none := by
  cases a with
  | receive _ | swapEph | switchKeys _ | quit => rfl
  | acquire _ _ _ _ _ | storeEph | setInProgress | sendOwn _ => cases ha

/-- A reader that has left its loop makes no step. -/
theorem reader_of_reads (ha : a.sends = false) (h : c.step S a = some (c', out)) :
    c.reader ≠ .exited true := by
  intro hr
  cases a with
  | receive _ | swapEph | switchKeys _ | quit => simp [step, hr] at h
  | acquire _ _ _ _ _ | storeEph | setInProgress | sendOwn _ => cases ha

theorem outgoing_of_reader (r : ClientReader) (d : Connection) (a : Act) :
    ({ d with reader := r } : Connection).outgoing S a = d.outgoing S a := by
  cases a <;> rfl

end

end Connection

/-- The client `c` of a run, and the client `d` of a session in which no write fails. They part when
the reader finds no ephemeral for an ack: the one leaves its loop, and the other waits. -/
def Lags (c d : Connection) : Prop :=
  ∃ r, c = { d with reader := r } ∧ (r = d.reader ∨ r = .exited true)

theorem Lags.refl (c : Connection) : Lags c c := ⟨c.reader, rfl, Or.inl rfl⟩

theorem Lags.eq_of_reader {c d : Connection} (h : Lags c d) (hr : c.reader ≠ .exited true) :
    c = d := by
  obtain ⟨r, rfl, rfl | rfl⟩ := h
  · rfl
  · exact absurd rfl hr

/-! ### The session -/

namespace Session

variable {S : Sodium} {v : Session}

theorem Inv.own (h : v.Inv S) : v.client.writer.Own := by
  obtain ⟨ph, hph⟩ := h.phase
  exact hph.own

/-- A step of the host that reads nothing keeps the invariant of a session. -/
theorem Inv.of_hostStep (hS : S.AeadCorrect) (hkx : S.KxAgree) (h : v.Inv S)
    {b : HostConn.Act} {v' : Session} (hstep : v.hostStep S b = some v') (hok : b.ok = true)
    (hread : ∀ f eph ok, b ≠ .receive f eph ok) : v'.Inv S := by
  cases b with
  | send type plaintext ok =>
    cases hok
    exact h.of_sender hS hstep (Or.inl ⟨_, _, rfl⟩)
  | ping ok =>
    cases hok
    exact h.of_sender hS hstep (Or.inr (Or.inl rfl))
  | receive _ _ _ => exact absurd rfl (hread _ _ _)
  | ackAndSwitch ok =>
    cases hok
    have hv : v.Step S .ackAndSwitch v' := ⟨trivial, hstep⟩
    exact h.step hS hkx hv fun heq => by cases heq
  | quit => exact h.of_sender hS hstep (Or.inr (Or.inr (Or.inl rfl)))
  | shutdown => exact h.of_sender hS hstep (Or.inr (Or.inr (Or.inr rfl)))

end Session

end Epx
