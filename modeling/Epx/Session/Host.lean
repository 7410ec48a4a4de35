import Epx.Handshake
import Epx.Session.Sender

/-!
# A host connection

`ConnState` and the frame loop of `Host::Impl::handle_connection` in `src/host.cpp`, as a machine
with one step for each thing that another thread can see happen.

Any thread that reaches the `ConnState` may send on it; each send is one critical section of
`tx_mutex`. The connection's own thread reads frames and has a program counter `HostReader`: a
REKEY is opened and answered in two steps, because the answer waits for `tx_mutex`.

What the application's handlers reply and what other threads publish are sends like any other, so
the loop appears here with what it does to the keys. Whether a write succeeds, which ephemeral is
drawn and which frame is read are inputs of a step.

## Main definitions

* `HostConn`, `HostConn.step` — the machine
* `HostConn.Inv` — its invariant, whatever the peer sends

## Main results

* `HostConn.Inv.step` — every step keeps the invariant
* `HostConn.Inv.rx_step`, `HostConn.Inv.tx_step` — no step takes an epoch from 255 to 0
-/

namespace Epx

open Codec Log

/-- Where the connection's thread is in `handle_connection`. -/
inductive HostReader where
  | running
  /-- A REKEY was opened and the new keys derived; the answer is not sent yet. -/
  | rekeyDerived (eph : EphemeralKeyPair) (nk : SessionKeys)
  /-- The loop was left. -/
  | exited
  /-- An exception left `handle_connection`. -/
  | crashed
  deriving DecidableEq

/-- The reader has opened a REKEY and is not done with it. -/
def HostReader.midFrame : HostReader → Bool
  | .rekeyDerived _ _ => true
  | _ => false

/-- `ConnState`, with the local state of the thread in `handle_connection`. -/
structure HostConn where
  v2 : Bool
  tx : TxState
  alive : Bool := true
  rx : RxState
  reader : HostReader := .running
  sealed : List SealCall := []
  opened : List Opened := []
  drawn : List EphemeralKeyPair
  installed : List (EphemeralKeyPair × Block 32)
  deriving DecidableEq

/-- The cleartext liveness probe and its answer. -/
def pingFrame : RawFrame := { type := .ping, body := [] }

def pongFrame : RawFrame := { type := .pong, body := [] }

namespace HostConn

/-- The connection after a handshake with ephemeral `eph`. -/
def start (eph : EphemeralKeyPair) (hs : HandshakeResult) : HostConn :=
  { v2 := hs.version ≥ 2
    tx := { key := hs.keys.tx }
    rx := { key := hs.keys.rx }
    drawn := [eph]
    installed := [(eph, hs.keys.tx)] }

section

variable (S : Sodium)

/-- `send_sealed`. -/
def sendSealed (h : HostConn) (type : FrameType) (plaintext : Bytes) (ok : Bool) :
    HostConn × Option RawFrame :=
  if h.alive = false then (h, none)
  else
    ({ h with
        tx := h.tx.bump
        sealed := h.sealed ++ [h.tx.call type plaintext]
        alive := ok },
      if ok then some ((h.tx.call type plaintext).frame S h.v2) else none)

/-- `send_ping`: no counter is consumed. -/
def sendPing (h : HostConn) (ok : Bool) : HostConn × Option RawFrame :=
  if h.alive = false then (h, none)
  else ({ h with alive := ok }, if ok then some pingFrame else none)

/-- `send_rekey_ack_and_switch`, and `rx_pending = nk.rx` after it. A failing write leaves the
counter as it was. -/
def sendRekeyAckAndSwitch (h : HostConn) (eph : EphemeralKeyPair) (nk : SessionKeys) (ok : Bool) :
    HostConn × Option RawFrame :=
  if h.alive = false then ({ h with reader := .exited }, none)
  else if ok = false then
    ({ h with
        sealed := h.sealed ++ [h.tx.call .rekeyAck eph.publicKey.val]
        alive := false
        reader := .exited }, none)
  else
    ({ h with
        tx := h.tx.switch nk.tx
        sealed := h.sealed ++ [h.tx.call .rekeyAck eph.publicKey.val]
        rx := h.rx.arm nk.rx
        reader := .running
        installed := h.installed ++ [(eph, nk.tx)] },
      some ((h.tx.call .rekeyAck eph.publicKey.val).frame S true))

/-- The frame types the loop opens. -/
def opens (h : HostConn) (type : FrameType) : Bool :=
  (type = .rekey ∧ h.v2 = true) ∨ type = .streamChunk ∨ type = .request

/-- The frame types that end the loop unopened. -/
def breaks (h : HostConn) (type : FrameType) : Bool :=
  type = .bye ∨ (type = .rekey ∧ h.v2 = false) -- a REKEY is invalid in a v1 session

/-- What the loop does with an opened REKEY. -/
def afterRekey (h : HostConn) (opened : Bytes) (eph : EphemeralKeyPair) : HostReader :=
  if hlen : opened.length = 32 then
    if h.tx.epoch ≥ 255 then .exited -- epoch space exhausted; force a fresh connection
    else
      match serverSessionKeys S eph ⟨opened, hlen⟩ with
      | .error _ => .crashed
      | .ok nk => .rekeyDerived eph nk
  else .exited

/-- What the loop does with an opened frame. -/
def afterOpen (h : HostConn) (type : FrameType) (opened : Bytes) (eph : EphemeralKeyPair) :
    HostReader :=
  if type = .rekey then h.afterRekey S opened eph
  else if type = .streamChunk then
    match decodeStreamChunk opened with
    | .accept _ => .running
    | _ => .exited
  else
    match decodeRequest opened with
    | .accept _ => .running
    | _ => .exited

/-- One iteration of the loop up to what happens under `tx_mutex`. The ephemeral is drawn for a
REKEY only. -/
def receive (h : HostConn) (f : RawFrame) (eph : EphemeralKeyPair) (ok : Bool) :
    HostConn × Option RawFrame :=
  if f.type = .ping then (h, if ok then some pongFrame else none)
  else if h.breaks f.type then ({ h with reader := .exited }, none)
  else if h.opens f.type then
    match openChecked S h.v2 h.rx f with
    | none => ({ h with reader := .exited }, none)
    | some (o, rx') =>
      ({ h with
          rx := rx'
          opened := h.opened ++ [⟨rx'.epoch, f.type, o⟩]
          drawn := if f.type = .rekey then eph :: h.drawn else h.drawn
          reader := h.afterOpen S f.type o eph }, none)
  else (h, none)

/-- What the threads of a host connection can do next. -/
inductive Act where
  | send (type : FrameType) (plaintext : Bytes) (ok : Bool)
  | ping (ok : Bool)
  | receive (f : RawFrame) (eph : EphemeralKeyPair) (ok : Bool)
  | ackAndSwitch (ok : Bool)
  /-- The loop ends for another reason: end of stream, host stopping, rate limit. -/
  | quit
  /-- `cs->alive.store(false)` after the loop. -/
  | shutdown
  deriving DecidableEq

/-- One step: the state after it and the frame it wrote, if any. -/
def step (h : HostConn) : Act → Option (HostConn × Option RawFrame)
  | .send type plaintext ok =>
    if type = .response ∨ type = .streamChunk ∨ type = .error then
      some (h.sendSealed S type plaintext ok)
    else none
  | .ping ok => some (h.sendPing ok)
  | .receive f eph ok =>
    match h.reader with
    | .running => some (h.receive S f eph ok)
    | _ => none
  | .ackAndSwitch ok =>
    match h.reader with
    | .rekeyDerived eph nk => some (h.sendRekeyAckAndSwitch S eph nk ok)
    | _ => none
  | .quit =>
    match h.reader with
    | .running => some ({ h with reader := .exited }, none)
    | _ => none
  | .shutdown =>
    match h.reader with
    | .exited => some ({ h with alive := false }, none)
    | _ => none

/-- An ephemeral that a step draws is a key pair, and its public key was not drawn before. -/
def Draws (h : HostConn) : Act → Prop
  | .receive f eph _ =>
    f.type = .rekey → S.IsKxPair eph ∧ eph.publicKey ∉ h.drawn.map EphemeralKeyPair.publicKey
  | _ => True

instance [DecidablePred S.IsKxPair] (h : HostConn) (a : Act) : Decidable (h.Draws S a) :=
  match a with
  | .receive f eph _ =>
    inferInstanceAs (Decidable (f.type = .rekey →
      S.IsKxPair eph ∧ eph.publicKey ∉ h.drawn.map EphemeralKeyPair.publicKey))
  | .send _ _ _ | .ping _ | .ackAndSwitch _ | .quit | .shutdown => inferInstanceAs (Decidable True)

/-- A step that checks what it draws. -/
def tryStep [DecidablePred S.IsKxPair] (h : HostConn) (a : Act) : Option HostConn :=
  if h.Draws S a then (h.step S a).map Prod.fst else none

/-- The steps of a host connection on its own, with whatever frames its peer sends. -/
def Step (h : HostConn) (a : Act) (h' : HostConn) : Prop :=
  h.Draws S a ∧ ∃ out, h.step S a = some (h', out)

theorem step_of_tryStep [DecidablePred S.IsKxPair] {h h' : HostConn} {a : Act}
    (htry : h.tryStep S a = some h') : h.Step S a h' := by
  rw [tryStep] at htry
  by_cases hd : h.Draws S a
  · rw [if_pos hd, Option.map_eq_some_iff] at htry
    obtain ⟨⟨g, out⟩, hstep, rfl⟩ := htry
    exact ⟨hd, out, hstep⟩
  · rw [if_neg hd] at htry
    cases htry

/-! ### What a step can do -/

/-- One constructor for each way a step can go. -/
inductive Effect (h : HostConn) : Act → HostConn → Option RawFrame → Prop
  | dead {a : Act} : h.alive = false → Effect h a h none
  | sent {type : FrameType} {plaintext : Bytes} {ok : Bool} :
      h.alive = true → type = .response ∨ type = .streamChunk ∨ type = .error →
      Effect h (.send type plaintext ok)
        { h with
          tx := h.tx.bump
          sealed := h.sealed ++ [h.tx.call type plaintext]
          alive := ok }
        (if ok then some ((h.tx.call type plaintext).frame S h.v2) else none)
  | pinged {ok : Bool} :
      h.alive = true →
      Effect h (.ping ok) { h with alive := ok } (if ok then some pingFrame else none)
  | ponged {f : RawFrame} {eph : EphemeralKeyPair} {ok : Bool} :
      h.reader = .running → f.type = .ping →
      Effect h (.receive f eph ok) h (if ok then some pongFrame else none)
  | broke {f : RawFrame} {eph : EphemeralKeyPair} {ok : Bool} :
      h.reader = .running → h.breaks f.type = true →
      Effect h (.receive f eph ok) { h with reader := .exited } none
  | skipped {f : RawFrame} {eph : EphemeralKeyPair} {ok : Bool} :
      h.reader = .running → f.type ≠ .ping → h.breaks f.type = false → h.opens f.type = false →
      Effect h (.receive f eph ok) h none
  | refused {f : RawFrame} {eph : EphemeralKeyPair} {ok : Bool} :
      h.reader = .running → h.opens f.type = true → openChecked S h.v2 h.rx f = none →
      Effect h (.receive f eph ok) { h with reader := .exited } none
  | opened {f : RawFrame} {eph : EphemeralKeyPair} {ok : Bool} {o : Bytes} {rx' : RxState} :
      h.reader = .running → h.opens f.type = true → openChecked S h.v2 h.rx f = some (o, rx') →
      Effect h (.receive f eph ok)
        { h with
          rx := rx'
          opened := h.opened ++ [⟨rx'.epoch, f.type, o⟩]
          drawn := if f.type = .rekey then eph :: h.drawn else h.drawn
          reader := h.afterOpen S f.type o eph } none
  | ackDead {eph : EphemeralKeyPair} {nk : SessionKeys} {ok : Bool} :
      h.reader = .rekeyDerived eph nk → h.alive = false →
      Effect h (.ackAndSwitch ok) { h with reader := .exited } none
  | ackFailed {eph : EphemeralKeyPair} {nk : SessionKeys} :
      h.reader = .rekeyDerived eph nk → h.alive = true →
      Effect h (.ackAndSwitch false)
        { h with
          sealed := h.sealed ++ [h.tx.call .rekeyAck eph.publicKey.val]
          alive := false
          reader := .exited } none
  | switched {eph : EphemeralKeyPair} {nk : SessionKeys} :
      h.reader = .rekeyDerived eph nk → h.alive = true →
      Effect h (.ackAndSwitch true)
        { h with
          tx := h.tx.switch nk.tx
          sealed := h.sealed ++ [h.tx.call .rekeyAck eph.publicKey.val]
          rx := h.rx.arm nk.rx
          reader := .running
          installed := h.installed ++ [(eph, nk.tx)] }
        (some ((h.tx.call .rekeyAck eph.publicKey.val).frame S true))
  | quit : h.reader = .running → Effect h .quit { h with reader := .exited } none
  | shutdown : h.reader = .exited → Effect h .shutdown { h with alive := false } none

theorem receive_skipped {h : HostConn} {f : RawFrame} {eph : EphemeralKeyPair} {ok : Bool}
    (hping : f.type ≠ .ping) (hb : h.breaks f.type = false) (hf : h.opens f.type = false) :
    h.receive S f eph ok = (h, none) := by
  rw [receive, if_neg hping, hb, hf, if_neg (by simp), if_neg (by simp)]

theorem receive_opened {h : HostConn} {f : RawFrame} {eph : EphemeralKeyPair} {ok : Bool}
    {o : Bytes} {rx' : RxState} (hping : f.type ≠ .ping) (hb : h.breaks f.type = false)
    (hf : h.opens f.type = true) (ho : openChecked S h.v2 h.rx f = some (o, rx')) :
    h.receive S f eph ok =
      ({ h with
          rx := rx'
          opened := h.opened ++ [⟨rx'.epoch, f.type, o⟩]
          drawn := if f.type = .rekey then eph :: h.drawn else h.drawn
          reader := h.afterOpen S f.type o eph }, none) := by
  rw [receive, if_neg hping, hb, if_neg (by simp), if_pos hf, ho]

theorem effect_receive {h : HostConn} {f : RawFrame} {eph : EphemeralKeyPair} {ok : Bool}
    (hr : h.reader = .running) :
    Effect S h (.receive f eph ok) (h.receive S f eph ok).1 (h.receive S f eph ok).2 := by
  rw [receive]
  by_cases hping : f.type = .ping
  · rw [if_pos hping]
    exact .ponged hr hping
  rw [if_neg hping]
  cases hb : h.breaks f.type with
  | true => exact .broke hr hb
  | false =>
    cases hf : h.opens f.type with
    | false => exact .skipped hr hping hb hf
    | true =>
      cases ho : openChecked S h.v2 h.rx f with
      | none => exact .refused hr hf ho
      | some p => exact .opened hr hf ho

theorem effect_ack {h : HostConn} {eph : EphemeralKeyPair} {nk : SessionKeys} {ok : Bool}
    (hr : h.reader = .rekeyDerived eph nk) :
    Effect S h (.ackAndSwitch ok) (h.sendRekeyAckAndSwitch S eph nk ok).1
      (h.sendRekeyAckAndSwitch S eph nk ok).2 := by
  by_cases halive : h.alive = false
  · rw [sendRekeyAckAndSwitch, if_pos halive]
    exact .ackDead hr halive
  rw [sendRekeyAckAndSwitch, if_neg halive]
  rw [Bool.not_eq_false] at halive
  cases ok with
  | false => exact .ackFailed hr halive
  | true => exact .switched hr halive

theorem step_receive {h h' : HostConn} {f : RawFrame} {eph : EphemeralKeyPair} {ok : Bool}
    {out : Option RawFrame} (hstep : h.step S (.receive f eph ok) = some (h', out)) :
    h.reader = .running ∧ h.receive S f eph ok = (h', out) := by
  simp only [step] at hstep
  split at hstep
  · next hr => exact ⟨hr, Option.some.inj hstep⟩
  · cases hstep

theorem step_ackAndSwitch {h h' : HostConn} {ok : Bool} {out : Option RawFrame}
    (hstep : h.step S (.ackAndSwitch ok) = some (h', out)) :
    ∃ eph nk, h.reader = .rekeyDerived eph nk ∧
      h.sendRekeyAckAndSwitch S eph nk ok = (h', out) := by
  simp only [step] at hstep
  split at hstep
  · next hr => exact ⟨_, _, hr, Option.some.inj hstep⟩
  · cases hstep

/-- Every step is one of the effects. -/
theorem effect_of_step {h h' : HostConn} {a : Act} {out : Option RawFrame}
    (hstep : h.step S a = some (h', out)) : Effect S h a h' out := by
  cases a with
  | send type plaintext ok =>
    simp only [step] at hstep
    split at hstep
    · next htype =>
      by_cases halive : h.alive = false
      · rw [sendSealed, if_pos halive] at hstep
        cases hstep
        exact .dead halive
      · rw [sendSealed, if_neg halive] at hstep
        cases hstep
        exact .sent (by simpa using halive) htype
    · cases hstep
  | ping ok =>
    simp only [step] at hstep
    by_cases halive : h.alive = false
    · rw [sendPing, if_pos halive] at hstep
      cases hstep
      exact .dead halive
    · rw [sendPing, if_neg halive] at hstep
      cases hstep
      exact .pinged (by simpa using halive)
  | receive f eph ok =>
    obtain ⟨hr, heq⟩ := step_receive S hstep
    obtain ⟨rfl, rfl⟩ := Prod.mk.inj heq
    exact effect_receive S hr
  | ackAndSwitch ok =>
    obtain ⟨eph, nk, hr, heq⟩ := step_ackAndSwitch S hstep
    obtain ⟨rfl, rfl⟩ := Prod.mk.inj heq
    exact effect_ack S hr
  | quit =>
    simp only [step] at hstep
    split at hstep
    · next hr =>
      cases hstep
      exact .quit hr
    · cases hstep
  | shutdown =>
    simp only [step] at hstep
    split at hstep
    · next hr =>
      cases hstep
      exact .shutdown hr
    · cases hstep

end

/-! ### The invariant -/

/-- A key that `server_session_keys` gives as `tx` for a local ephemeral. -/
def Derives (S : Sodium) (e : EphemeralKeyPair) (k : Block 32) : Prop :=
  S.IsKxPair e ∧ ∃ p nk, S.kxServerSessionKeys e p = some nk ∧ nk.tx = k

theorem Derives.ne {S : Sodium} (hfresh : S.KxFresh) :
    ∀ e e' k k', Derives S e k → Derives S e' k' → e.publicKey ≠ e'.publicKey → k ≠ k' := by
  rintro e e' k k' ⟨he, p, nk, hnk, rfl⟩ ⟨he', p', nk', hnk', rfl⟩ hne
  exact hfresh.server he he' hne hnk hnk'

/-- The transmit side of a connection. -/
def sender (h : HostConn) : Sender := ⟨h.tx, h.sealed, h.installed⟩

/-- New keys wait for `tx_mutex`: they come from an ephemeral drawn for them, and the epoch can
still be counted up. -/
structure Switching (S : Sodium) (h : HostConn) (eph : EphemeralKeyPair) (nk : SessionKeys) :
    Prop where
  pair : S.IsKxPair eph
  drawn : eph ∈ h.drawn
  unused : eph.publicKey ∉ h.installed.map fun p => p.1.publicKey
  epoch : h.tx.epoch < 255
  v2 : h.v2 = true
  derived : ∃ p, S.kxServerSessionKeys eph p = some nk

/-- The invariant of a host connection, for any peer. The counter counts as long as the connection
is alive; after a REKEY_ACK that could not be written nothing is sealed any more. -/
structure Inv (S : Sodium) (h : HostConn) : Prop where
  sender : h.sender.Inv (Derives S)
  counter : h.alive = true → h.tx.counter = UInt64.ofNat (h.sender.count h.tx.epoch)
  drawn : ∀ p ∈ h.installed, p.1 ∈ h.drawn
  switching : ∀ eph nk, h.reader = .rekeyDerived eph nk → h.Switching S eph nk
  rx_le : h.rx.epoch ≤ h.tx.epoch
  rx_lt : h.rx.pending ≠ none → h.rx.epoch < h.tx.epoch

section

variable {S : Sodium} {h h' : HostConn} {a : Act} {out : Option RawFrame}

theorem inv_start {eph : EphemeralKeyPair} {hs : HandshakeResult} {p : Block 32}
    (hpair : S.IsKxPair eph) (hkeys : S.kxServerSessionKeys eph p = some hs.keys) :
    (start eph hs).Inv S where
  sender := Sender.Inv.start ⟨hpair, p, hs.keys, hkeys, rfl⟩
  counter := fun _ => rfl
  drawn := by simp [start]
  switching := by simp [start]
  rx_le := UInt8.le_refl _
  rx_lt := by simp [start]

/-- Only an opened REKEY derives keys, with the ephemeral drawn for it and below epoch 255. -/
theorem afterOpen_eq_rekeyDerived {type : FrameType} {o : Bytes} {eph eph' : EphemeralKeyPair}
    {nk : SessionKeys} (hr : h.afterOpen S type o eph = .rekeyDerived eph' nk) :
    type = .rekey ∧ eph' = eph ∧ h.tx.epoch < 255 ∧
      ∃ hlen : o.length = 32, S.kxServerSessionKeys eph ⟨o, hlen⟩ = some nk := by
  by_cases hrekey : type = .rekey
  swap
  · rw [afterOpen, if_neg hrekey] at hr
    by_cases hchunk : type = .streamChunk
    · rw [if_pos hchunk] at hr
      cases hdec : decodeStreamChunk o <;> simp [hdec] at hr
    · rw [if_neg hchunk] at hr
      cases hdec : decodeRequest o <;> simp [hdec] at hr
  rw [afterOpen, if_pos hrekey, afterRekey] at hr
  by_cases hlen : o.length = 32
  swap
  · rw [dif_neg hlen] at hr
    cases hr
  rw [dif_pos hlen] at hr
  by_cases hmax : h.tx.epoch ≥ 255
  · rw [if_pos hmax] at hr
    cases hr
  rw [if_neg hmax] at hr
  cases hk : S.kxServerSessionKeys eph ⟨o, hlen⟩ with
  | none => simp [serverSessionKeys, hk] at hr
  | some nk' =>
    simp only [serverSessionKeys, hk] at hr
    cases hr
    exact ⟨hrekey, rfl, UInt8.not_le.mp hmax, hlen, hk⟩

/-- Sealing a frame keeps the history of the transmit side. -/
theorem Inv.sender_seal (hinv : h.Inv S) (halive : h.alive = true) (type : FrameType)
    (plaintext : Bytes) (counter : UInt64) :
    Sender.Inv (Derives S)
      ⟨{ h.tx with counter := counter }, h.sealed ++ [h.tx.call type plaintext], h.installed⟩ :=
  hinv.sender.seal (hinv.counter halive)

theorem Inv.counter_seal (hinv : h.Inv S) (halive : h.alive = true) (type : FrameType)
    (plaintext : Bytes) :
    h.tx.bump.counter = UInt64.ofNat (Sender.count
      ⟨h.tx.bump, h.sealed ++ [h.tx.call type plaintext], h.installed⟩ h.tx.bump.epoch) := by
  rw [TxState.bump_counter, TxState.bump_epoch, hinv.counter halive]
  have hcount := Sender.count_seal h.sender type plaintext h.tx.bump h.installed
  rw [show h.sender.tx = h.tx from rfl, show h.sender.sealed = h.sealed from rfl] at hcount
  rw [hcount, UInt64.ofNat_add]
  rfl

/-- What a step does to the receive state. -/
theorem Inv.rx_step (hinv : h.Inv S) (heff : Effect S h a h' out) :
    h'.rx.epoch ≤ h'.tx.epoch ∧ (h'.rx.pending ≠ none → h'.rx.epoch < h'.tx.epoch) ∧
      (h.rx.epoch = 255 → h'.rx.epoch = 255) := by
  cases heff with
  | @opened f eph ok o rx' _ _ ho =>
    rcases openChecked_eq_some ho with ⟨-, -, -, rfl⟩ | ⟨-, -, -, key, hpending, -, rfl⟩
    · exact ⟨hinv.rx_le, hinv.rx_lt, id⟩
    · have hlt : h.rx.epoch.toNat < h.tx.epoch.toNat := hinv.rx_lt (by rw [hpending]; simp)
      have htx := h.tx.epoch.toNat_lt
      have hnext : (h.rx.epoch + 1).toNat = h.rx.epoch.toNat + 1 :=
        toNat_epoch_add_one (show h.rx.epoch.toNat < 255 by omega)
      refine ⟨?_, fun hne => absurd rfl hne, fun heq => ?_⟩
      · change (h.rx.epoch + 1).toNat ≤ h.tx.epoch.toNat
        omega
      · rw [heq] at hlt
        change 255 < h.tx.epoch.toNat at hlt
        omega
  | @switched eph nk hr halive =>
    have hnext := toNat_epoch_add_one (hinv.switching eph nk hr).epoch
    have hle : h.rx.epoch.toNat ≤ h.tx.epoch.toNat := hinv.rx_le
    have hlt : h.rx.epoch < h.tx.epoch + 1 := by
      change h.rx.epoch.toNat < (h.tx.epoch + 1).toNat
      omega
    exact ⟨UInt8.le_of_lt hlt, fun _ => hlt, id⟩
  | _ => exact ⟨hinv.rx_le, hinv.rx_lt, id⟩

/-- The transmit epoch moves only with a REKEY_ACK, and then not from 255. -/
theorem Inv.tx_step (hinv : h.Inv S) (heff : Effect S h a h' out) (hmax : h.tx.epoch = 255) :
    h'.tx.epoch = 255 := by
  cases heff with
  | @switched eph nk hr halive =>
    have hlt := (hinv.switching eph nk hr).epoch
    rw [hmax] at hlt
    exact absurd hlt (by decide)
  | _ => exact hmax

/-- **Every step keeps the invariant**, whatever the peer sends and whichever writes fail. -/
theorem Inv.step (hinv : h.Inv S) (heff : Effect S h a h' out) (hdraws : h.Draws S a) :
    h'.Inv S := by
  obtain ⟨hrx_le, hrx_lt, -⟩ := hinv.rx_step heff
  cases heff with
  | dead _ | ponged _ _ | skipped _ _ _ _ => exact hinv
  | @sent type plaintext ok halive _ =>
    refine ⟨hinv.sender_seal halive type plaintext _, fun _ =>
      hinv.counter_seal halive type plaintext, hinv.drawn, fun eph nk hr => ?_, hrx_le, hrx_lt⟩
    exact { hinv.switching eph nk hr with }
  | pinged halive =>
    exact ⟨hinv.sender, fun _ => hinv.counter halive, hinv.drawn,
      fun eph nk hr => { hinv.switching eph nk hr with }, hrx_le, hrx_lt⟩
  | broke _ _ | refused _ _ _ | ackDead _ _ | quit _ =>
    exact ⟨hinv.sender, hinv.counter, hinv.drawn, fun _ _ hr => (by cases hr), hrx_le, hrx_lt⟩
  | @opened f eph ok o rx' hr hopens ho =>
    refine ⟨hinv.sender, hinv.counter, fun p hp => ?_, fun eph' nk hr' => ?_, hrx_le, hrx_lt⟩
    · by_cases hrekey : f.type = .rekey
      · rw [if_pos hrekey]
        exact List.mem_cons_of_mem _ (hinv.drawn p hp)
      · rw [if_neg hrekey]
        exact hinv.drawn p hp
    · obtain ⟨hrekey, rfl, hlt, hlen, hk⟩ := afterOpen_eq_rekeyDerived hr'
      obtain ⟨hpair, hnew⟩ := hdraws hrekey
      have hv2 : h.v2 = true := by
        rw [opens, hrekey] at hopens
        simpa [show FrameType.rekey ≠ .streamChunk by decide,
          show FrameType.rekey ≠ .request by decide] using hopens
      refine ⟨hpair, by rw [if_pos hrekey]; exact List.mem_cons_self, fun hmem => ?_, hlt, hv2,
        _, hk⟩
      obtain ⟨p, hp, heq⟩ := List.mem_map.mp hmem
      exact hnew (List.mem_map.mpr ⟨p.1, hinv.drawn p hp, heq⟩)
  | @ackFailed eph nk hr halive =>
    refine ⟨hinv.sender_seal halive .rekeyAck eph.publicKey.val h.tx.counter,
      fun hc => (by cases hc), hinv.drawn, fun _ _ hr => (by cases hr), hrx_le, hrx_lt⟩
  | @switched eph nk hr halive =>
    have hsw := hinv.switching eph nk hr
    obtain ⟨p, hk⟩ := hsw.derived
    have hsealed := hinv.sender_seal halive .rekeyAck eph.publicKey.val h.tx.counter
    refine ⟨hsealed.switch hsw.epoch ⟨hsw.pair, p, nk, hk, rfl⟩ hsw.unused, fun _ => ?_,
      fun q hq => ?_, fun _ _ hr => (by cases hr), hrx_le, hrx_lt⟩
    · exact (congrArg UInt64.ofNat (hsealed.count_next hsw.epoch)).symm
    · rcases List.mem_append.mp hq with hq | hq
      · exact hinv.drawn q hq
      · rw [List.mem_singleton.mp hq]
        exact hsw.drawn
  | shutdown hr =>
    refine ⟨hinv.sender, fun hc => (by cases hc), hinv.drawn, fun eph nk hr' => ?_, hrx_le, hrx_lt⟩
    rw [show h.reader = .rekeyDerived eph nk from hr'] at hr
    cases hr

end

end HostConn

end Epx
