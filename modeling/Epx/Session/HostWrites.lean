import Epx.Session.Host
import Epx.Lib.TornStream
import Epx.Lib.Transition

/-!
# What a host puts on the wire

The bytes that the writers of a host connection hand to its transport. Each of them holds
`tx_mutex` from its look at `alive` to the end of its write, so their writes come one after the
other; but a write may fail after any number of its bytes, and nothing keeps the transport from
taking later ones.

`send_sealed`, `send_ping` and `send_rekey_ack_and_switch` clear `alive` when their write fails and
do not write without it. The answer to a PING does neither.

## Main definitions

* `HostWire`, `HostWire.Step` — a host connection and the bytes it has put on the wire
* `HostWire.FrameAligned` — complete frames, and at most one that was cut, after which there is
  nothing
* `HostWire.PongWritten` — a PONG is written while `alive` is set, and its write does not fail

## Main results

* `HostWire.attempt_of_step` — what a step reports as written is what it handed over
* `HostWire.Inv.step`
* `host_output_aligned`
-/

namespace Epx

open Codec Transition TornStream

namespace HostConn

/-- Whether the write of a step succeeds. -/
def Act.ok : Act → Bool
  | .send _ _ ok | .ping ok | .receive _ _ ok | .ackAndSwitch ok => ok
  | .quit | .shutdown => true

/-- The bytes that a step hands to the transport. -/
def attempt (S : Sodium) (h : HostConn) : Act → Option Bytes
  | .send type plaintext _ =>
    if h.alive then some (writeFrame h.v2 ((h.tx.call type plaintext).frame S h.v2)) else none
  | .ping _ => if h.alive then some (writeFrame h.v2 pingFrame) else none
  | .receive f _ _ => if f.type = .ping then some (writeFrame h.v2 pongFrame) else none
  | .ackAndSwitch _ =>
    match h.reader with
    | .rekeyDerived eph _ =>
      if h.alive then
        some (writeFrame true ((h.tx.call .rekeyAck eph.publicKey.val).frame S true))
      else none
    | _ => none
  | .quit | .shutdown => none

end HostConn

/-- A host connection and the bytes that its transport has taken since the handshake. -/
structure HostWire where
  conn : HostConn
  wire : Bytes := []
  deriving DecidableEq

namespace HostWire

/-- A step of the connection; `sent` is how many bytes of its frame a write puts on the wire that
fails. -/
structure Act where
  act : HostConn.Act
  sent : ℕ := 0
  deriving DecidableEq

def start (eph : EphemeralKeyPair) (hs : HandshakeResult) : HostWire := { conn := .start eph hs }

section

variable (S : Sodium)

/-- The bytes that a step puts on the wire. -/
def transmits (s : HostWire) (a : Act) : Bytes :=
  match s.conn.attempt S a.act with
  | none => []
  | some bytes => if a.act.ok then bytes else bytes.take a.sent

def step (s : HostWire) (a : Act) : Option HostWire :=
  (s.conn.step S a.act).map fun p => { conn := p.1, wire := s.wire ++ s.transmits S a }

def Step (s : HostWire) (a : Act) (s' : HostWire) : Prop := s.step S a = some s'

/-- The step writes a frame and its write succeeds. -/
def Succeeds (s : HostWire) (a : Act) : Prop :=
  (s.conn.attempt S a.act).isSome = true ∧ a.act.ok = true

end

/-- The bytes on the wire are complete frames followed by at most one that was cut; once one was
cut, nothing more is written in any run of `step`; and a write succeeds only behind complete
frames. -/
def FrameAligned (S : Sodium) (step : HostWire → Act → HostWire → Prop) (s : HostWire) : Prop :=
  (Whole (writeFrame s.conn.v2) s.wire ∨
    Torn (writeFrame s.conn.v2) s.wire ∧ ∀ more s', Run step s more s' → s'.wire = s.wire) ∧
  ∀ a s', step s a s' → s.Succeeds S a → Whole (writeFrame s.conn.v2) s.wire

/-- A PING is answered while `alive` is set, and the write of its PONG does not fail. -/
def PongWritten (s : HostWire) (a : Act) : Prop :=
  ∀ f eph ok, a.act = .receive f eph ok → f.type = .ping → s.conn.alive = true ∧ ok = true

/-! ### The invariant -/

/-- While the connection is alive every frame is complete. -/
structure Inv (s : HostWire) : Prop where
  whole : s.conn.alive = true → Whole (writeFrame s.conn.v2) s.wire
  torn : Whole (writeFrame s.conn.v2) s.wire ∨ Torn (writeFrame s.conn.v2) s.wire
  v2 : ∀ eph nk, s.conn.reader = .rekeyDerived eph nk → s.conn.v2 = true

section

variable {S : Sodium} {s s' : HostWire} {a : Act}

theorem inv_start (eph : EphemeralKeyPair) (hs : HandshakeResult) : (start eph hs).Inv where
  whole := fun _ => .nil
  torn := Or.inl .nil
  v2 := fun _ _ h => by cases h

theorem step_eq_some (h : s.Step S a s') :
    ∃ out, s.conn.step S a.act = some (s'.conn, out) ∧ s'.wire = s.wire ++ s.transmits S a := by
  obtain ⟨⟨conn, out⟩, hstep, rfl⟩ := Option.map_eq_some_iff.mp h
  exact ⟨out, hstep, rfl⟩

theorem v2_of_step (h : s.Step S a s') : s'.conn.v2 = s.conn.v2 := by
  obtain ⟨out, hstep, -⟩ := step_eq_some h
  have heff := HostConn.effect_of_step S hstep
  generalize a.act = act at heff
  generalize s'.conn = conn at heff
  cases heff <;> rfl

/-- `alive` is never set again. -/
theorem alive_of_step (h : s.Step S a s') (halive : s'.conn.alive = true) :
    s.conn.alive = true := by
  obtain ⟨out, hstep, -⟩ := step_eq_some h
  have heff := HostConn.effect_of_step S hstep
  generalize a.act = act at heff
  generalize s'.conn = conn at heff halive
  cases heff with
  | sent h _ | pinged h | switched _ h => exact h
  | ackFailed _ _ | shutdown _ => cases halive
  | dead _ | ponged _ _ | broke _ _ | skipped _ _ _ _ | refused _ _ _ | opened _ _ _ | ackDead _ _
  | quit _ => exact halive

/-- Without `alive` nothing is written, but for a PONG. -/
theorem transmits_dead (halive : s.conn.alive = false) (hpong : s.PongWritten a) :
    s.transmits S a = [] := by
  have hattempt : s.conn.attempt S a.act = none := by
    obtain ⟨act, sent⟩ := a
    cases act with
    | send _ _ _ | ping _ => simp [HostConn.attempt, halive]
    | receive f eph ok =>
      have hf : f.type ≠ .ping := fun hping => by
        have h := (hpong f eph ok rfl hping).1
        rw [halive] at h
        cases h
      simp [HostConn.attempt, hf]
    | ackAndSwitch ok =>
      simp only [HostConn.attempt, halive]
      split <;> rfl
    | quit | shutdown => rfl
  simp [transmits, hattempt]

/-- What is handed to the transport is a frame in the layout of the session. -/
theorem exists_frame (hinv : s.Inv) {bytes : Bytes}
    (h : s.conn.attempt S a.act = some bytes) : ∃ f, bytes = writeFrame s.conn.v2 f := by
  obtain ⟨act, sent⟩ := a
  cases act with
  | send type plaintext ok | ping ok | receive f eph ok =>
    simp only [HostConn.attempt] at h
    split at h
    · cases h
      exact ⟨_, rfl⟩
    · cases h
  | ackAndSwitch ok =>
    simp only [HostConn.attempt] at h
    split at h
    · next eph nk hr =>
      split at h
      · cases h
        rw [hinv.v2 eph nk hr]
        exact ⟨_, rfl⟩
      · cases h
    · cases h
  | quit | shutdown => cases h

/-- The frame that a step of the connection reports as written is the one it handed over. -/
theorem attempt_of_step (hinv : s.Inv) {conn : HostConn} {f : RawFrame}
    (h : s.conn.step S a.act = some (conn, some f)) :
    s.conn.attempt S a.act = some (writeFrame s.conn.v2 f) ∧ a.act.ok = true := by
  have heff := HostConn.effect_of_step S h
  obtain ⟨act, sent⟩ := a
  generalize hout : (some f : Option RawFrame) = out at heff
  cases heff with
  | @sent type plaintext ok halive _ =>
    cases ok with
    | false => cases hout
    | true =>
      cases hout
      exact ⟨by simp [HostConn.attempt, halive], rfl⟩
  | @pinged ok halive =>
    cases ok with
    | false => cases hout
    | true =>
      cases hout
      exact ⟨by simp [HostConn.attempt, halive], rfl⟩
  | @ponged _ _ ok _ hf =>
    cases ok with
    | false => cases hout
    | true =>
      cases hout
      exact ⟨by simp [HostConn.attempt, hf], rfl⟩
  | switched hr halive =>
    cases hout
    exact ⟨by simp [HostConn.attempt, hr, halive, hinv.v2 _ _ hr], rfl⟩
  | dead _ | broke _ _ | skipped _ _ _ _ | refused _ _ _ | opened _ _ _ | ackDead _ _
  | ackFailed _ _ | quit _ | shutdown _ => cases hout

/-- A write that fails clears `alive`, but for a PONG. -/
theorem alive_of_failed (h : s.Step S a s') (hpong : s.PongWritten a) {bytes : Bytes}
    (hattempt : s.conn.attempt S a.act = some bytes) (hok : a.act.ok = false) :
    s'.conn.alive = false := by
  obtain ⟨out, hstep, -⟩ := step_eq_some h
  obtain ⟨act, sent⟩ := a
  have heff := HostConn.effect_of_step S hstep
  generalize s'.conn = conn at heff
  cases act with
  | send type plaintext ok =>
    cases heff with
    | dead hdead => exact hdead
    | sent _ _ => exact hok
  | ping ok =>
    cases heff with
    | dead hdead => exact hdead
    | pinged _ => exact hok
  | receive f eph ok =>
    simp only [HostConn.attempt] at hattempt
    split at hattempt
    · next hf => exact absurd ((hpong f eph ok rfl hf).2.symm.trans hok) (by decide)
    · cases hattempt
  | ackAndSwitch ok =>
    cases heff with
    | dead hdead => exact hdead
    | ackDead _ hdead => exact hdead
    | ackFailed _ _ => rfl
    | switched _ _ => cases hok
  | quit | shutdown => cases hattempt

theorem v2_of_rekeyDerived (hinv : s.Inv) (h : s.Step S a s') {eph : EphemeralKeyPair}
    {nk : SessionKeys} (hr : s'.conn.reader = .rekeyDerived eph nk) : s'.conn.v2 = true := by
  obtain ⟨out, hstep, -⟩ := step_eq_some h
  have heff := HostConn.effect_of_step S hstep
  generalize a.act = act at heff
  generalize s'.conn = conn at heff hr ⊢
  cases heff with
  | opened _ hopens _ =>
    rw [(HostConn.afterOpen_eq_rekeyDerived hr).1] at hopens
    simpa [HostConn.opens, FrameType.rekey, FrameType.streamChunk, FrameType.request] using hopens
  | dead _ | sent _ _ | pinged _ | ponged _ _ | skipped _ _ _ _ => exact hinv.v2 eph nk hr
  | broke _ _ | refused _ _ _ | ackDead _ _ | ackFailed _ _ | switched _ _ | quit _ => cases hr
  | shutdown hexited => exact hinv.v2 eph nk hr

/-- **A step keeps the frames aligned**, as long as no PONG fails or comes after a failure. -/
theorem Inv.step (hinv : s.Inv) (h : s.Step S a s') (hpong : s.PongWritten a) : s'.Inv := by
  obtain ⟨-, -, hwire⟩ := step_eq_some h
  have hv := v2_of_step h
  refine ⟨?_, ?_, fun eph nk hr => v2_of_rekeyDerived hinv h hr⟩
  · intro halive'
    have hwhole := hinv.whole (alive_of_step h halive')
    rw [hwire, hv, transmits]
    cases hattempt : s.conn.attempt S a.act with
    | none => simpa using hwhole
    | some bytes =>
      obtain ⟨f, rfl⟩ := exists_frame hinv hattempt
      cases hok : a.act.ok with
      | true => exact hwhole.append f
      | false =>
        rw [alive_of_failed h hpong hattempt hok] at halive'
        cases halive'
  · rw [hwire, hv]
    cases halive : s.conn.alive with
    | false =>
      rw [transmits_dead halive hpong, List.append_nil]
      exact hinv.torn
    | true =>
      have hwhole := hinv.whole halive
      rw [transmits]
      cases hattempt : s.conn.attempt S a.act with
      | none => exact Or.inl (by simpa using hwhole)
      | some bytes =>
        obtain ⟨f, rfl⟩ := exists_frame hinv hattempt
        cases hok : a.act.ok with
        | true => exact Or.inl (hwhole.append f)
        | false => exact Or.inr (hwhole.cut f a.sent)

/-- Once `alive` is cleared the wire stays as it is. -/
theorem wire_of_dead {acts : List Act} (hrun : Run (Guarded (Step S) PongWritten) s acts s')
    (halive : s.conn.alive = false) : s'.wire = s.wire ∧ s'.conn.alive = false := by
  refine hrun.preserves (I := fun t => t.wire = s.wire ∧ t.conn.alive = false) ⟨rfl, halive⟩ ?_
  rintro t a t' ⟨hwire, hdead⟩ ⟨hstep, hpong⟩
  obtain ⟨-, -, hwire'⟩ := step_eq_some hstep
  rw [transmits_dead hdead hpong, List.append_nil] at hwire'
  refine ⟨hwire'.trans hwire, ?_⟩
  cases halive' : t'.conn.alive with
  | false => rfl
  | true => exact absurd (alive_of_step hstep halive') (by rw [hdead]; decide)

theorem Inv.frameAligned (hinv : s.Inv) :
    s.FrameAligned S (Guarded (Step S) PongWritten) := by
  cases halive : s.conn.alive with
  | true =>
    have hwhole := hinv.whole halive
    exact ⟨Or.inl hwhole, fun _ _ _ _ => hwhole⟩
  | false =>
    refine ⟨hinv.torn.imp_right fun htorn =>
      ⟨htorn, fun more s' hrun => (wire_of_dead hrun halive).1⟩, ?_⟩
    rintro a s' ⟨-, hpong⟩ ⟨hsome, hok⟩
    have hnone := transmits_dead (S := S) halive hpong
    obtain ⟨bytes, hattempt⟩ := Option.isSome_iff_exists.mp hsome
    obtain ⟨f, rfl⟩ := exists_frame hinv hattempt
    rw [transmits, hattempt] at hnone
    simp [hok, writeFrame, frameHeader] at hnone

end

end HostWire

/-- **The output of a host is aligned** in every run in which each PING is answered while `alive` is
set and the write of its PONG does not fail. -/
theorem host_output_aligned (S : Sodium) (eph : EphemeralKeyPair) (hs : HandshakeResult)
    (acts : List HostWire.Act) (s : HostWire)
    (hrun : Run (Guarded (HostWire.Step S) HostWire.PongWritten) (.start eph hs) acts s) :
    s.FrameAligned S (Guarded (HostWire.Step S) HostWire.PongWritten) := by
  have hinv := hrun.preserves (I := HostWire.Inv) (HostWire.inv_start eph hs)
    fun _ _ _ h hstep => h.step hstep.1 hstep.2
  exact hinv.frameAligned

/-! ### A PONG that fails -/

namespace FailedPong

def sodium : Sodium := .symbolic []

def ephemeral : EphemeralKeyPair := ⟨Block.fill 32 5, Block.fill 32 5⟩

def result : HandshakeResult :=
  { keys := ⟨Block.fill 32 2, Block.fill 32 3⟩, peerIdentity := Block.fill 32 1, version := 2 }

/-- The answer to a PING fails after three of its bytes. -/
def failing : HostWire.Act := { act := .receive pingFrame ephemeral false, sent := 3 }

/-- The answer to a PING is written. -/
def ponging : HostWire.Act := { act := .receive pingFrame ephemeral true }

/-- A response is written. -/
def replying : HostWire.Act := { act := .send .response [] true }

/-- A response fails after three of its bytes. -/
def cutting : HostWire.Act := { act := .send .response [] false, sent := 3 }

/-- The state that an act leads to. -/
def next (s : HostWire) (a : HostWire.Act) : HostWire := (s.step sodium a).getD s

def opening : HostWire := .start ephemeral result

def torn : HostWire := next opening failing

def ponged : HostWire := next opening ponging

def cut : HostWire := next ponged cutting

theorem step_torn : opening.Step sodium failing torn :=
  show opening.step sodium failing = some torn by decide +kernel

theorem step_replied : torn.Step sodium replying (next torn replying) :=
  show torn.step sodium replying = some (next torn replying) by decide +kernel

/-- A PONG is written, and then a response fails. -/
theorem run_cut : Run (Guarded (HostWire.Step sodium) HostWire.PongWritten) opening
    [ponging, cutting] cut := by
  have hpong : opening.Step sodium ponging ponged :=
    show opening.step sodium ponging = some ponged by decide +kernel
  have hcut : ponged.Step sodium cutting cut :=
    show ponged.step sodium cutting = some cut by decide +kernel
  refine (Run.nil.snoc ⟨hpong, ?_⟩).snoc ⟨hcut, ?_⟩
  · rintro f eph ok hact -
    cases hact
  · rintro f eph ok hact -
    cases hact
    exact ⟨rfl, rfl⟩

end FailedPong

open FailedPong

/-- After a response that was cut behind a PONG, the wire stays as it is. -/
theorem host_output_aligned_cut :
    cut.wire.length = 17 ∧
      cut.FrameAligned sodium (Guarded (HostWire.Step sodium) HostWire.PongWritten) :=
  ⟨by decide +kernel, host_output_aligned sodium ephemeral result _ _ run_cut⟩

/-- Behind the three bytes of a PONG that failed, a response is written and reported. -/
theorem failed_pong_misaligned :
    ¬ ∀ (S : Sodium) (eph : EphemeralKeyPair) (hs : HandshakeResult) (acts : List HostWire.Act)
        (s : HostWire), Run (HostWire.Step S) (.start eph hs) acts s →
      s.FrameAligned S (HostWire.Step S) := by
  intro hclaim
  have haligned := hclaim sodium ephemeral result [failing] torn (Run.nil.snoc step_torn)
  have hwhole := haligned.2 replying _ step_replied ⟨by decide +kernel, rfl⟩
  have hwire : torn.wire = [0, 0, 0] := by decide +kernel
  rw [hwire] at hwhole
  have hnil := hwhole.eq_nil fun f => by
    rw [length_writeFrame]
    simp
    omega
  cases hnil

end Epx
