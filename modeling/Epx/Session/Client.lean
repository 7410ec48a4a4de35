import Epx.Handshake
import Epx.Session.Sender

/-!
# A client connection

`Connection`, `send_frame_locked`, `maybe_begin_rekey_locked`, `seal_and_send` and `reader_loop` of
`src/client.cpp`, as a machine with one step for each thing that another thread can see happen.

Sender threads exclude one another by `write_mutex`, so at most one of them is inside
`seal_and_send`; `Writer` says where. Offering a rotation takes three steps there: the REKEY frame
is written, `pending_eph` is stored, `rekey_in_progress` is set. The reader thread has its own
program counter `ClientReader`: after a REKEY_ACK is opened it takes `pending_eph`, which only
`rekey_mutex` guards, and then waits for `write_mutex` to switch keys.

Whether a write succeeds, what time it is, which ephemeral is drawn and which frame is read are
inputs of a step. The last four fields of the state record what has happened and are read by
nothing.

## Main definitions

* `Connection`, `Connection.step` — the machine
* `Connection.Step` — its steps when ephemerals are drawn freshly
* `Connection.Inv` — its invariant, whatever the peer sends

## Main results

* `Connection.Inv.step` — every step keeps the invariant
* `Connection.step_epochs` — no step takes an epoch from 255 to 0
-/

namespace Epx

open Codec Log

/-- `RotationPolicy`: a bound of zero is no bound. -/
structure RotationPolicy where
  interval : ℕ := 0
  maxBytes : UInt64 := 0
  deriving DecidableEq

/-- Where the holder of `write_mutex` is in `seal_and_send`. -/
inductive Writer where
  | free
  | rekeyWritten (eph : EphemeralKeyPair) (type : FrameType) (plaintext : Bytes)
  | ephStored (type : FrameType) (plaintext : Bytes)
  | ready (type : FrameType) (plaintext : Bytes)
  deriving DecidableEq

/-- Where the reader thread is in `reader_loop`. -/
inductive ClientReader where
  | running
  | ackOpened (serverEph : Block 32)
  | haveKeys (eph : EphemeralKeyPair) (nk : SessionKeys)
  /-- The loop was left, by `break` on an unsolicited REKEY_ACK or otherwise. -/
  | exited (unsolicited : Bool)
  /-- An exception left the thread function. -/
  | crashed
  deriving DecidableEq

/-- The reader has opened a REKEY_ACK and is not done with it. -/
def ClientReader.midFrame : ClientReader → Bool
  | .ackOpened _ | .haveKeys _ _ => true
  | _ => false

/-- `Connection`, with the local state of its reader thread. -/
structure Connection where
  version : UInt8
  tx : TxState
  rotation : RotationPolicy
  lastRotation : ℕ
  bytesSinceRotation : UInt64 := 0
  rekeyInProgress : Bool := false
  pendingEph : Option EphemeralKeyPair := none
  rx : RxState
  writer : Writer := .free
  reader : ClientReader := .running
  sealed : List SealCall := []
  opened : List Opened := []
  drawn : List EphemeralKeyPair
  installed : List (EphemeralKeyPair × Block 32)
  deriving DecidableEq

namespace Connection

/-- The connection that `get_or_connect` sets up from a handshake with ephemeral `eph`. -/
def start (eph : EphemeralKeyPair) (hs : HandshakeResult) (rotation : RotationPolicy) (now : ℕ) :
    Connection :=
  { version := hs.version
    tx := { key := hs.keys.tx }
    rotation := rotation
    lastRotation := now
    rx := { key := hs.keys.rx }
    drawn := [eph]
    installed := [(eph, hs.keys.tx)] }

/-- `conn.version >= 2`. -/
def v2 (c : Connection) : Bool := c.version ≥ 2

/-- The conditions under which `maybe_begin_rekey_locked` offers a rotation. -/
def rekeyDue (c : Connection) (now : ℕ) : Bool :=
  if c.v2 = false ∨ c.rekeyInProgress = true ∨ c.tx.epoch ≥ 255 then false
  else if c.rotation.interval = 0 ∧ c.rotation.maxBytes = 0 then false
  else
    (decide (c.rotation.interval > 0) && decide (now - c.lastRotation ≥ c.rotation.interval)) ||
      (decide (c.rotation.maxBytes > 0) &&
        decide (c.bytesSinceRotation ≥ c.rotation.maxBytes))

section

variable (S : Sodium)

/-- `send_frame_locked`: the frame that goes to the transport, and the state after it. -/
def sendFrameLocked (c : Connection) (type : FrameType) (plaintext : Bytes) :
    Connection × RawFrame :=
  ({ c with tx := c.tx.bump, sealed := c.sealed ++ [c.tx.call type plaintext] },
    (c.tx.call type plaintext).frame S c.v2)

/-- The REKEY of `maybe_begin_rekey_locked`. When its write fails the function returns, and
`seal_and_send` goes on to send the frame it was called for. -/
def offerRekey (c : Connection) (type : FrameType) (plaintext : Bytes) (eph : EphemeralKeyPair)
    (ok : Bool) : Connection × Option RawFrame :=
  let (c', frame) := c.sendFrameLocked S .rekey eph.publicKey.val
  ({ c' with
      drawn := eph :: c.drawn
      writer := if ok then .rekeyWritten eph type plaintext else .ready type plaintext },
    if ok then some frame else none)

/-- The frame types `reader_loop` opens; it skips every other. -/
def opens (type : FrameType) : Bool :=
  type = .rekeyAck ∨ type = .error ∨ type = .streamChunk ∨ type = .response

/-- What the reader does with an opened frame. -/
def afterOpen (type : FrameType) (opened : Bytes) : ClientReader :=
  if type = .rekeyAck then
    if h : opened.length = 32 then .ackOpened ⟨opened, h⟩ else .exited false
  else if type = .error then .exited false
  else if type = .streamChunk then
    match decodeStreamChunk opened with
    | .accept _ => .running
    | _ => .exited false
  else
    match decodeResponse opened with
    | .accept _ => .running
    | _ => .exited false

/-- One iteration of `reader_loop`. -/
def receive (c : Connection) (f : RawFrame) : Connection :=
  if opens f.type then
    match openChecked S c.v2 c.rx f with
    | none => { c with reader := .exited false }
    | some (o, rx') =>
      { c with
        rx := rx'
        opened := c.opened ++ [⟨rx'.epoch, f.type, o⟩]
        reader := afterOpen f.type o }
  else c

/-- `eph.swap(conn->pending_eph)`, and the derivation of the new keys. -/
def swapEph (c : Connection) (serverEph : Block 32) : Connection :=
  match c.pendingEph with
  | none => { c with reader := .exited true } -- unsolicited ack: protocol violation
  | some eph =>
    match clientSessionKeys S eph serverEph with
    | .error _ => { c with pendingEph := none, reader := .crashed }
    | .ok nk => { c with pendingEph := none, reader := .haveKeys eph nk }

/-- The switch to the new keys under `write_mutex`, and `rx_pending = nk.rx`. -/
def switchKeys (c : Connection) (eph : EphemeralKeyPair) (nk : SessionKeys) (now : ℕ) :
    Connection :=
  { c with
    tx := c.tx.switch nk.tx
    rekeyInProgress := false
    bytesSinceRotation := 0
    lastRotation := now
    rx := c.rx.arm nk.rx
    reader := .running
    installed := c.installed ++ [(eph, nk.tx)] }

/-- What the threads of a connection can do next. -/
inductive Act where
  /-- A sender takes `write_mutex` and runs `maybe_begin_rekey_locked` up to the write. -/
  | acquire (type : FrameType) (plaintext : Bytes) (now : ℕ) (eph : EphemeralKeyPair) (ok : Bool)
  | storeEph
  | setInProgress
  /-- The sender sends the frame it was called for and releases `write_mutex`. -/
  | sendOwn (ok : Bool)
  | receive (f : RawFrame)
  | swapEph
  | switchKeys (now : ℕ)
  /-- The reader finds the stream ended or `alive` cleared. -/
  | quit
  deriving DecidableEq

/-- One step: the state after it and the frame it wrote, if any. -/
def step (c : Connection) : Act → Option (Connection × Option RawFrame)
  | .acquire type plaintext now eph ok =>
    match c.writer with
    | .free =>
      if type = .request ∨ type = .streamChunk then
        if c.rekeyDue now then some (c.offerRekey S type plaintext eph ok)
        else some ({ c with writer := .ready type plaintext }, none)
      else none
    | _ => none
  | .storeEph =>
    match c.writer with
    | .rekeyWritten eph type plaintext =>
      some ({ c with pendingEph := some eph, writer := .ephStored type plaintext }, none)
    | _ => none
  | .setInProgress =>
    match c.writer with
    | .ephStored type plaintext =>
      some ({ c with rekeyInProgress := true, writer := .ready type plaintext }, none)
    | _ => none
  | .sendOwn ok =>
    match c.writer with
    | .ready type plaintext =>
      let (c', frame) := c.sendFrameLocked S type plaintext
      some ({ c' with
          bytesSinceRotation := c.bytesSinceRotation + UInt64.ofNat plaintext.length
          writer := .free }, if ok then some frame else none)
    | _ => none
  | .receive f =>
    match c.reader with
    | .running => some (c.receive S f, none)
    | _ => none
  | .swapEph =>
    match c.reader with
    | .ackOpened serverEph => some (c.swapEph S serverEph, none)
    | _ => none
  | .switchKeys now =>
    match c.reader, c.writer with
    | .haveKeys eph nk, .free => some (c.switchKeys eph nk now, none)
    | _, _ => none
  | .quit =>
    match c.reader with
    | .running => some ({ c with reader := .exited false }, none)
    | _ => none

/-- An ephemeral that a step draws is a key pair, and its public key was not drawn before. -/
def Draws (c : Connection) : Act → Prop
  | .acquire _ _ now eph _ =>
    c.rekeyDue now = true → S.IsKxPair eph ∧ eph.publicKey ∉ c.drawn.map EphemeralKeyPair.publicKey
  | _ => True

instance [DecidablePred S.IsKxPair] (c : Connection) (a : Act) : Decidable (c.Draws S a) :=
  match a with
  | .acquire _ _ now eph _ =>
    inferInstanceAs (Decidable (c.rekeyDue now = true →
      S.IsKxPair eph ∧ eph.publicKey ∉ c.drawn.map EphemeralKeyPair.publicKey))
  | .storeEph | .setInProgress | .sendOwn _ | .receive _ | .swapEph | .switchKeys _ | .quit =>
    inferInstanceAs (Decidable True)

/-- A step that checks what it draws. -/
def tryStep [DecidablePred S.IsKxPair] (c : Connection) (a : Act) : Option Connection :=
  if c.Draws S a then (c.step S a).map Prod.fst else none

/-- The steps of a connection on its own, with whatever frames its peer sends. -/
def Step (c : Connection) (a : Act) (c' : Connection) : Prop :=
  c.Draws S a ∧ ∃ out, c.step S a = some (c', out)

theorem step_of_tryStep [DecidablePred S.IsKxPair] {c c' : Connection} {a : Act}
    (h : c.tryStep S a = some c') : c.Step S a c' := by
  rw [tryStep] at h
  by_cases hd : c.Draws S a
  · rw [if_pos hd, Option.map_eq_some_iff] at h
    obtain ⟨⟨d, out⟩, hstep, rfl⟩ := h
    exact ⟨hd, out, hstep⟩
  · rw [if_neg hd] at h
    cases h

/-! ### What a step can do -/

/-- One constructor for each way a step can go. -/
inductive Effect (c : Connection) : Act → Connection → Option RawFrame → Prop
  | ready {type : FrameType} {plaintext : Bytes} {now : ℕ} {eph : EphemeralKeyPair} {ok : Bool} :
      c.writer = .free → type = .request ∨ type = .streamChunk → c.rekeyDue now = false →
      Effect c (.acquire type plaintext now eph ok) { c with writer := .ready type plaintext } none
  | offered {type : FrameType} {plaintext : Bytes} {now : ℕ} {eph : EphemeralKeyPair} {ok : Bool} :
      c.writer = .free → type = .request ∨ type = .streamChunk → c.rekeyDue now = true →
      Effect c (.acquire type plaintext now eph ok) (c.offerRekey S type plaintext eph ok).1
        (c.offerRekey S type plaintext eph ok).2
  | storeEph {eph : EphemeralKeyPair} {type : FrameType} {plaintext : Bytes} :
      c.writer = .rekeyWritten eph type plaintext →
      Effect c .storeEph { c with pendingEph := some eph, writer := .ephStored type plaintext } none
  | setInProgress {type : FrameType} {plaintext : Bytes} :
      c.writer = .ephStored type plaintext →
      Effect c .setInProgress { c with rekeyInProgress := true, writer := .ready type plaintext }
        none
  | sendOwn {type : FrameType} {plaintext : Bytes} {ok : Bool} :
      c.writer = .ready type plaintext →
      Effect c (.sendOwn ok)
        { (c.sendFrameLocked S type plaintext).1 with
          bytesSinceRotation := c.bytesSinceRotation + UInt64.ofNat plaintext.length
          writer := .free }
        (if ok then some ((c.tx.call type plaintext).frame S c.v2) else none)
  | skipped {f : RawFrame} :
      c.reader = .running → opens f.type = false → Effect c (.receive f) c none
  | refused {f : RawFrame} :
      c.reader = .running → opens f.type = true → openChecked S c.v2 c.rx f = none →
      Effect c (.receive f) { c with reader := .exited false } none
  | opened {f : RawFrame} {o : Bytes} {rx' : RxState} :
      c.reader = .running → opens f.type = true → openChecked S c.v2 c.rx f = some (o, rx') →
      Effect c (.receive f)
        { c with
          rx := rx'
          opened := c.opened ++ [⟨rx'.epoch, f.type, o⟩]
          reader := afterOpen f.type o } none
  | unsolicited {serverEph : Block 32} :
      c.reader = .ackOpened serverEph → c.pendingEph = none →
      Effect c .swapEph { c with reader := .exited true } none
  | crashed {serverEph : Block 32} {eph : EphemeralKeyPair} :
      c.reader = .ackOpened serverEph → c.pendingEph = some eph →
      S.kxClientSessionKeys eph serverEph = none →
      Effect c .swapEph { c with pendingEph := none, reader := .crashed } none
  | derived {serverEph : Block 32} {eph : EphemeralKeyPair} {nk : SessionKeys} :
      c.reader = .ackOpened serverEph → c.pendingEph = some eph →
      S.kxClientSessionKeys eph serverEph = some nk →
      Effect c .swapEph { c with pendingEph := none, reader := .haveKeys eph nk } none
  | switchKeys {eph : EphemeralKeyPair} {nk : SessionKeys} {now : ℕ} :
      c.reader = .haveKeys eph nk → c.writer = .free →
      Effect c (.switchKeys now) (c.switchKeys eph nk now) none
  | quit : c.reader = .running → Effect c .quit { c with reader := .exited false } none

theorem receive_skipped {c : Connection} {f : RawFrame} (hf : opens f.type = false) :
    c.receive S f = c := by
  rw [receive, hf, if_neg (by simp)]

theorem receive_opened {c : Connection} {f : RawFrame} {o : Bytes} {rx' : RxState}
    (hf : opens f.type = true) (ho : openChecked S c.v2 c.rx f = some (o, rx')) :
    c.receive S f =
      { c with
        rx := rx'
        opened := c.opened ++ [⟨rx'.epoch, f.type, o⟩]
        reader := afterOpen f.type o } := by
  rw [receive, if_pos hf, ho]

theorem effect_receive {c : Connection} {f : RawFrame} (hr : c.reader = .running) :
    Effect S c (.receive f) (c.receive S f) none := by
  rw [receive]
  cases hf : opens f.type with
  | false => exact .skipped hr hf
  | true =>
    cases ho : openChecked S c.v2 c.rx f with
    | none => exact .refused hr hf ho
    | some p => exact .opened hr hf ho

theorem effect_swapEph {c : Connection} {serverEph : Block 32}
    (hr : c.reader = .ackOpened serverEph) :
    Effect S c .swapEph (c.swapEph S serverEph) none := by
  cases hp : c.pendingEph with
  | none =>
    have heq : c.swapEph S serverEph = { c with reader := .exited true } := by
      rw [swapEph, hp]
    rw [heq]
    exact .unsolicited hr hp
  | some eph =>
    cases hk : S.kxClientSessionKeys eph serverEph with
    | none =>
      simp only [swapEph, hp, clientSessionKeys, hk]
      exact .crashed hr hp hk
    | some nk =>
      simp only [swapEph, hp, clientSessionKeys, hk]
      exact .derived hr hp hk

theorem step_receive {c c' : Connection} {f : RawFrame} {out : Option RawFrame}
    (h : c.step S (.receive f) = some (c', out)) :
    c.reader = .running ∧ c' = c.receive S f ∧ out = none := by
  simp only [step] at h
  split at h
  · next hr =>
    cases h
    exact ⟨hr, rfl, rfl⟩
  · cases h

theorem step_swapEph {c c' : Connection} {out : Option RawFrame}
    (h : c.step S .swapEph = some (c', out)) :
    ∃ serverEph, c.reader = .ackOpened serverEph ∧ c' = c.swapEph S serverEph ∧ out = none := by
  simp only [step] at h
  split at h
  · next hr =>
    cases h
    exact ⟨_, hr, rfl, rfl⟩
  · cases h

theorem step_switchKeys {c c' : Connection} {now : ℕ} {out : Option RawFrame}
    (h : c.step S (.switchKeys now) = some (c', out)) :
    ∃ eph nk, c.reader = .haveKeys eph nk ∧ c.writer = .free ∧ c' = c.switchKeys eph nk now ∧
      out = none := by
  simp only [step] at h
  split at h
  · next hr hw =>
    cases h
    exact ⟨_, _, hr, hw, rfl, rfl⟩
  · cases h

theorem step_quit {c c' : Connection} {out : Option RawFrame}
    (h : c.step S .quit = some (c', out)) :
    c.reader = .running ∧ c' = { c with reader := .exited false } ∧ out = none := by
  simp only [step] at h
  split at h
  · next hr =>
    cases h
    exact ⟨hr, rfl, rfl⟩
  · cases h

/-- Every step is one of the effects. -/
theorem effect_of_step {c c' : Connection} {a : Act} {out : Option RawFrame}
    (h : c.step S a = some (c', out)) : Effect S c a c' out := by
  cases a with
  | acquire type plaintext now eph ok =>
    simp only [step] at h
    split at h
    · next hw =>
      split at h
      · next htype =>
        cases hdue : c.rekeyDue now with
        | true =>
          rw [hdue, if_pos rfl, Option.some.injEq] at h
          obtain ⟨rfl, rfl⟩ := Prod.mk.inj h
          exact .offered hw htype hdue
        | false =>
          rw [hdue, if_neg (by simp)] at h
          cases h
          exact .ready hw htype hdue
      · cases h
    · cases h
  | storeEph =>
    simp only [step] at h
    split at h
    · next hw =>
      cases h
      exact .storeEph hw
    · cases h
  | setInProgress =>
    simp only [step] at h
    split at h
    · next hw =>
      cases h
      exact .setInProgress hw
    · cases h
  | sendOwn ok =>
    simp only [step] at h
    split at h
    · next hw =>
      cases h
      exact .sendOwn hw
    · cases h
  | receive f =>
    obtain ⟨hr, rfl, rfl⟩ := step_receive S h
    exact effect_receive S hr
  | swapEph =>
    obtain ⟨serverEph, hr, rfl, rfl⟩ := step_swapEph S h
    exact effect_swapEph S hr
  | switchKeys now =>
    obtain ⟨eph, nk, hr, hw, rfl, rfl⟩ := step_switchKeys S h
    exact .switchKeys hr hw
  | quit =>
    obtain ⟨hr, rfl, rfl⟩ := step_quit S h
    exact .quit hr

end

/-! ### The invariant -/

/-- A key that `client_session_keys` gives as `tx` for a local ephemeral. -/
def Derives (S : Sodium) (e : EphemeralKeyPair) (k : Block 32) : Prop :=
  S.IsKxPair e ∧ ∃ p nk, S.kxClientSessionKeys e p = some nk ∧ nk.tx = k

theorem Derives.ne {S : Sodium} (hfresh : S.KxFresh) :
    ∀ e e' k k', Derives S e k → Derives S e' k' → e.publicKey ≠ e'.publicKey → k ≠ k' := by
  rintro e e' k k' ⟨he, p, nk, hnk, rfl⟩ ⟨he', p', nk', hnk', rfl⟩ hne
  exact hfresh.client he he' hne hnk hnk'

/-- The transmit side of a connection. -/
def sender (c : Connection) : Sender := ⟨c.tx, c.sealed, c.installed⟩

/-- The reader holds new keys and waits for `write_mutex`. -/
def Switching (c : Connection) : Prop := ∃ eph nk, c.reader = .haveKeys eph nk

/-- The ephemerals that may still become a transmit key: offered and not yet stored, stored, or
taken by the reader. -/
def Outstanding (c : Connection) (eph : EphemeralKeyPair) : Prop :=
  (∃ type plaintext, c.writer = .rekeyWritten eph type plaintext) ∨ c.pendingEph = some eph ∨
    ∃ nk, c.reader = .haveKeys eph nk

/-- At most one rotation is under way. `rekey_in_progress` says so once it is set; before that, the
offering thread is still inside `seal_and_send`. -/
structure Control (c : Connection) : Prop where
  written : ∀ eph type plaintext, c.writer = .rekeyWritten eph type plaintext →
    c.pendingEph = none ∧ ¬ c.Switching ∧ c.rekeyInProgress = false
  busy : c.pendingEph ≠ none ∨ c.Switching →
    c.rekeyInProgress = true ∨ ∃ type plaintext, c.writer = .ephStored type plaintext
  exclusive : c.pendingEph ≠ none → ¬ c.Switching

/-- The invariant of a connection, for any peer. -/
structure Inv (S : Sodium) (c : Connection) : Prop where
  sender : c.sender.Inv (Derives S)
  counter : c.tx.counter = UInt64.ofNat (c.sender.count c.tx.epoch)
  drawn : ∀ p ∈ c.installed, p.1 ∈ c.drawn
  control : c.Control
  outstanding : ∀ eph, c.Outstanding eph → S.IsKxPair eph ∧ eph ∈ c.drawn ∧
    eph.publicKey ∉ (c.installed.map fun p => p.1.publicKey) ∧ c.tx.epoch < 255
  derived : ∀ eph nk, c.reader = .haveKeys eph nk → ∃ p, S.kxClientSessionKeys eph p = some nk
  rx_le : c.rx.epoch ≤ c.tx.epoch
  rx_lt : c.rx.pending ≠ none → c.rx.epoch < c.tx.epoch

section

variable {S : Sodium} {c c' : Connection} {a : Act} {out : Option RawFrame}

theorem inv_start {eph : EphemeralKeyPair} {hs : HandshakeResult} {rotation : RotationPolicy}
    {now : ℕ} {p : Block 32} (hpair : S.IsKxPair eph)
    (hkeys : S.kxClientSessionKeys eph p = some hs.keys) : (start eph hs rotation now).Inv S where
  sender := Sender.Inv.start ⟨hpair, p, hs.keys, hkeys, rfl⟩
  counter := rfl
  drawn := by simp [start]
  control := ⟨by simp [start], by simp [start, Switching], by simp [start]⟩
  outstanding := by simp [start, Outstanding]
  derived := by simp [start]
  rx_le := UInt8.le_refl _
  rx_lt := by simp [start]

theorem lt_of_rekeyDue {now : ℕ} (h : c.rekeyDue now = true) :
    c.v2 = true ∧ c.rekeyInProgress = false ∧ c.tx.epoch < 255 := by
  rw [rekeyDue] at h
  split at h
  · cases h
  · next hno =>
    rw [not_or, not_or, Bool.not_eq_false, Bool.not_eq_true] at hno
    exact ⟨hno.1, hno.2.1, UInt8.not_le.mp hno.2.2⟩

/-- An opened frame leaves the reader running, ends it, or is a REKEY_ACK to be processed. -/
theorem afterOpen_cases (type : FrameType) (o : Bytes) :
    afterOpen type o = .running ∨ afterOpen type o = .exited false ∨
      (type = .rekeyAck ∧ ∃ h : o.length = 32, afterOpen type o = .ackOpened ⟨o, h⟩) := by
  by_cases hack : type = .rekeyAck
  · by_cases hlen : o.length = 32
    · exact Or.inr (Or.inr ⟨hack, hlen, by rw [afterOpen, if_pos hack, dif_pos hlen]⟩)
    · exact Or.inr (Or.inl (by rw [afterOpen, if_pos hack, dif_neg hlen]))
  by_cases herr : type = .error
  · exact Or.inr (Or.inl (by rw [afterOpen, if_neg hack, if_pos herr]))
  rw [afterOpen, if_neg hack, if_neg herr]
  by_cases hchunk : type = .streamChunk
  · rw [if_pos hchunk]
    cases decodeStreamChunk o <;> simp
  · rw [if_neg hchunk]
    cases decodeResponse o <;> simp

theorem afterOpen_ne_haveKeys {type : FrameType} {o : Bytes} {eph : EphemeralKeyPair}
    {nk : SessionKeys} : afterOpen type o ≠ .haveKeys eph nk := by
  intro h
  rcases afterOpen_cases type o with hr | hr | ⟨-, _, hr⟩ <;> rw [hr] at h <;> cases h

theorem afterOpen_eq_ackOpened {type : FrameType} {o : Bytes} {serverEph : Block 32} :
    afterOpen type o = .ackOpened serverEph ↔ type = .rekeyAck ∧ o = serverEph.val := by
  constructor
  · intro h
    rcases afterOpen_cases type o with hr | hr | ⟨htype, _, hr⟩ <;> rw [hr] at h <;> cases h
    exact ⟨htype, rfl⟩
  · rintro ⟨rfl, rfl⟩
    rw [afterOpen, if_pos rfl, dif_pos serverEph.length_val]

/-- Sealing a frame keeps the history of the transmit side. -/
theorem Inv.sender_seal (h : c.Inv S) (type : FrameType) (plaintext : Bytes) :
    Sender.Inv (Derives S) ⟨c.tx.bump, c.sealed ++ [c.tx.call type plaintext], c.installed⟩ ∧
    c.tx.bump.counter = UInt64.ofNat (Sender.count
      ⟨c.tx.bump, c.sealed ++ [c.tx.call type plaintext], c.installed⟩ c.tx.bump.epoch) := by
  refine ⟨h.sender.seal h.counter, ?_⟩
  rw [TxState.bump_counter, TxState.bump_epoch, h.counter]
  have hcount := Sender.count_seal c.sender type plaintext c.tx.bump c.installed
  rw [show c.sender.tx = c.tx from rfl, show c.sender.sealed = c.sealed from rfl] at hcount
  rw [hcount, UInt64.ofNat_add]
  rfl

/-- No rotation is under way when one is due and `write_mutex` is free. -/
theorem Control.idle (h : c.Control) (hw : c.writer = .free) (hp : c.rekeyInProgress = false) :
    c.pendingEph = none ∧ ¬ c.Switching := by
  have hno : ¬ (c.pendingEph ≠ none ∨ c.Switching) := by
    intro hbusy
    rcases h.busy hbusy with hr | ⟨type, plaintext, hw'⟩
    · rw [hp] at hr
      cases hr
    · rw [hw] at hw'
      cases hw'
  rw [not_or, not_not] at hno
  exact hno

/-- A step never leaves a rotation without a trace, nor starts a second one. -/
theorem Control.step (h : c.Control) (heff : Effect S c a c' out) : c'.Control := by
  cases heff with
  | ready hw _ _ =>
    refine ⟨by simp, fun hbusy => ?_, h.exclusive⟩
    rcases h.busy hbusy with hr | ⟨_, _, hw'⟩
    · exact Or.inl hr
    · rw [hw] at hw'
      cases hw'
  | @offered type plaintext now eph ok hw _ hdue =>
    obtain ⟨-, hp, -⟩ := lt_of_rekeyDue hdue
    obtain ⟨hnone, hno⟩ := h.idle hw hp
    refine ⟨fun _ _ _ _ => ⟨hnone, hno, hp⟩, ?_, fun hsome => absurd hnone hsome⟩
    rintro (hsome | hs)
    · exact absurd hnone hsome
    · exact absurd hs hno
  | storeEph hw =>
    obtain ⟨-, hno, -⟩ := h.written _ _ _ hw
    exact ⟨by simp, fun _ => Or.inr ⟨_, _, rfl⟩, fun _ => hno⟩
  | setInProgress hw => exact ⟨by simp, fun _ => Or.inl rfl, h.exclusive⟩
  | sendOwn hw =>
    refine ⟨by simp, fun hbusy => ?_, h.exclusive⟩
    rcases h.busy hbusy with hr | ⟨_, _, hw'⟩
    · exact Or.inl hr
    · rw [hw] at hw'
      cases hw'
  | skipped _ _ => exact h
  | refused hr _ _ =>
    exact ⟨fun e t p hw => ⟨(h.written e t p hw).1, by simp [Switching], (h.written e t p hw).2.2⟩,
      fun hbusy => h.busy (hbusy.imp_right (by simp [Switching])), by simp [Switching]⟩
  | @opened f o rx' hr _ _ =>
    have hs : ¬ Switching
        { c with
          rx := rx'
          opened := c.opened ++ [⟨rx'.epoch, f.type, o⟩]
          reader := afterOpen f.type o } := by
      rintro ⟨eph, nk, hr'⟩
      exact afterOpen_ne_haveKeys hr'
    exact ⟨fun e t p hw => ⟨(h.written e t p hw).1, hs, (h.written e t p hw).2.2⟩,
      fun hbusy => h.busy (hbusy.imp_right fun hs' => absurd hs' hs), fun _ => hs⟩
  | unsolicited _ hp =>
    exact ⟨fun e t p hw => ⟨hp, by simp [Switching], (h.written e t p hw).2.2⟩,
      fun hbusy => h.busy (hbusy.imp_right (by simp [Switching])), by simp [Switching]⟩
  | crashed _ hp _ =>
    exact ⟨fun e t p hw => ⟨rfl, by simp [Switching], (h.written e t p hw).2.2⟩,
      by simp [Switching], by simp⟩
  | derived _ hp _ =>
    have hbusy := h.busy (Or.inl (by rw [hp]; simp))
    refine ⟨fun e t p hw => ?_, fun _ => hbusy, by simp⟩
    rw [(h.written e t p hw).1] at hp
    cases hp
  | switchKeys hr hw =>
    have hno : c.pendingEph = none := by
      by_contra hsome
      exact h.exclusive hsome ⟨_, _, hr⟩
    refine ⟨fun e t p hw' => ?_, ?_, fun hsome => absurd hno hsome⟩
    · rw [show (c.switchKeys _ _ _).writer = c.writer from rfl, hw] at hw'
      cases hw'
    · rintro (hsome | ⟨_, _, hr'⟩)
      · exact absurd hno hsome
      · cases hr'
  | quit _ =>
    exact ⟨fun e t p hw => ⟨(h.written e t p hw).1, by simp [Switching], (h.written e t p hw).2.2⟩,
      fun hbusy => h.busy (hbusy.imp_right (by simp [Switching])), by simp [Switching]⟩

/-- What a step does to the receive state: nothing, or what opening a frame or arming the next key
does. -/
theorem Inv.rx_step (h : c.Inv S) (heff : Effect S c a c' out) :
    c'.rx.epoch ≤ c'.tx.epoch ∧ (c'.rx.pending ≠ none → c'.rx.epoch < c'.tx.epoch) ∧
      (c.rx.epoch = 255 → c'.rx.epoch = 255) := by
  cases heff with
  | @opened f o rx' _ _ ho =>
    rcases openChecked_eq_some ho with ⟨-, -, -, rfl⟩ | ⟨-, -, -, key, hpending, -, rfl⟩
    · exact ⟨h.rx_le, h.rx_lt, id⟩
    · -- The pending key was armed below the transmit epoch.
      have hlt : c.rx.epoch.toNat < c.tx.epoch.toNat := h.rx_lt (by rw [hpending]; simp)
      have htx := c.tx.epoch.toNat_lt
      have hnext : (c.rx.epoch + 1).toNat = c.rx.epoch.toNat + 1 :=
        toNat_epoch_add_one (show c.rx.epoch.toNat < 255 by omega)
      refine ⟨?_, fun hne => absurd rfl hne, fun heq => ?_⟩
      · change (c.rx.epoch + 1).toNat ≤ c.tx.epoch.toNat
        omega
      · rw [heq] at hlt
        change 255 < c.tx.epoch.toNat at hlt
        omega
  | @switchKeys eph nk now hr hw =>
    obtain ⟨-, -, -, hlt⟩ := h.outstanding eph (Or.inr (Or.inr ⟨nk, hr⟩))
    have hnext := toNat_epoch_add_one hlt
    have hle : c.rx.epoch.toNat ≤ c.tx.epoch.toNat := h.rx_le
    have hlt' : c.rx.epoch < c.tx.epoch + 1 := by
      change c.rx.epoch.toNat < (c.tx.epoch + 1).toNat
      omega
    exact ⟨UInt8.le_of_lt hlt', fun _ => hlt', id⟩
  | _ => exact ⟨h.rx_le, h.rx_lt, id⟩

/-- The transmit epoch moves only when the reader switches keys, and then not from 255. -/
theorem Inv.tx_step (h : c.Inv S) (heff : Effect S c a c' out) (hmax : c.tx.epoch = 255) :
    c'.tx.epoch = 255 := by
  cases heff with
  | @switchKeys eph nk now hr hw =>
    obtain ⟨-, -, -, hlt⟩ := h.outstanding eph (Or.inr (Or.inr ⟨nk, hr⟩))
    rw [hmax] at hlt
    exact absurd hlt (by decide)
  | _ => exact hmax

/-- **Every step keeps the invariant**, whatever the peer sends and whichever writes fail. -/
theorem Inv.step (h : c.Inv S) (heff : Effect S c a c' out) (hdraws : c.Draws S a) :
    c'.Inv S := by
  have hcontrol := h.control.step heff
  obtain ⟨hrx_le, hrx_lt, -⟩ := h.rx_step heff
  cases heff with
  | ready hw _ _ =>
    refine ⟨h.sender, h.counter, h.drawn, hcontrol, ?_, h.derived, hrx_le, hrx_lt⟩
    rintro eph (⟨_, _, hw'⟩ | hout)
    · cases hw'
    · exact h.outstanding eph (Or.inr hout)
  | @offered type plaintext now eph ok hw _ hdue =>
    obtain ⟨-, hp, hlt⟩ := lt_of_rekeyDue hdue
    obtain ⟨hnone, hno⟩ := h.control.idle hw hp
    obtain ⟨hpair, hnew⟩ := hdraws hdue
    obtain ⟨hsender, hcounter⟩ := h.sender_seal .rekey eph.publicKey.val
    refine ⟨hsender, hcounter, fun p hp => List.mem_cons_of_mem _ (h.drawn p hp), hcontrol, ?_,
      h.derived, hrx_le, hrx_lt⟩
    rintro eph' (⟨type', plaintext', hw'⟩ | hsome | ⟨nk, hr⟩)
    · have heq : eph' = eph := by
        cases ok with
        | true =>
          cases hw'
          rfl
        | false => cases hw'
      subst heq
      refine ⟨hpair, List.mem_cons_self, ?_, hlt⟩
      intro hmem
      obtain ⟨p, hp, heq⟩ := List.mem_map.mp hmem
      exact hnew (List.mem_map.mpr ⟨p.1, h.drawn p hp, heq⟩)
    · rw [show (c.offerRekey S type plaintext eph ok).1.pendingEph = c.pendingEph from rfl,
        hnone] at hsome
      cases hsome
    · exact absurd ⟨_, _, hr⟩ hno
  | storeEph hw =>
    refine ⟨h.sender, h.counter, h.drawn, hcontrol, ?_, h.derived, hrx_le, hrx_lt⟩
    rintro eph' (⟨_, _, hw'⟩ | hsome | hr)
    · cases hw'
    · cases hsome
      exact h.outstanding _ (Or.inl ⟨_, _, hw⟩)
    · exact h.outstanding eph' (Or.inr (Or.inr hr))
  | setInProgress hw =>
    refine ⟨h.sender, h.counter, h.drawn, hcontrol, ?_, h.derived, hrx_le, hrx_lt⟩
    rintro eph' (⟨_, _, hw'⟩ | hout)
    · cases hw'
    · exact h.outstanding eph' (Or.inr hout)
  | @sendOwn type plaintext ok hw =>
    obtain ⟨hsender, hcounter⟩ := h.sender_seal type plaintext
    refine ⟨hsender, hcounter, h.drawn, hcontrol, ?_, h.derived, hrx_le, hrx_lt⟩
    rintro eph' (⟨_, _, hw'⟩ | hout)
    · cases hw'
    · exact h.outstanding eph' (Or.inr hout)
  | skipped _ _ => exact h
  | refused _ _ _ | quit _ | unsolicited _ _ =>
    refine ⟨h.sender, h.counter, h.drawn, hcontrol, ?_, fun _ _ hr => (by cases hr), hrx_le, hrx_lt⟩
    rintro eph' (hw | hsome | ⟨nk, hr⟩)
    · exact h.outstanding eph' (Or.inl hw)
    · exact h.outstanding eph' (Or.inr (Or.inl hsome))
    · cases hr
  | opened _ _ _ =>
    refine ⟨h.sender, h.counter, h.drawn, hcontrol, ?_,
      fun _ _ hr => absurd hr afterOpen_ne_haveKeys, hrx_le, hrx_lt⟩
    rintro eph' (hw | hsome | ⟨nk, hr⟩)
    · exact h.outstanding eph' (Or.inl hw)
    · exact h.outstanding eph' (Or.inr (Or.inl hsome))
    · exact absurd hr afterOpen_ne_haveKeys
  | crashed _ _ _ =>
    refine ⟨h.sender, h.counter, h.drawn, hcontrol, ?_, fun _ _ hr => (by cases hr), hrx_le, hrx_lt⟩
    rintro eph' (hw | hsome | ⟨nk, hr⟩)
    · exact h.outstanding eph' (Or.inl hw)
    · cases hsome
    · cases hr
  | @derived serverEph eph nk _ hp hk =>
    refine ⟨h.sender, h.counter, h.drawn, hcontrol, ?_, ?_, hrx_le, hrx_lt⟩
    · rintro eph' (hw | hsome | ⟨nk', hr⟩)
      · exact h.outstanding eph' (Or.inl hw)
      · cases hsome
      · cases hr
        exact h.outstanding _ (Or.inr (Or.inl hp))
    · intro eph' nk' hr
      cases hr
      exact ⟨serverEph, hk⟩
  | @switchKeys eph nk now hr hw =>
    obtain ⟨hpair, hdrawn, hnew, hlt⟩ := h.outstanding eph (Or.inr (Or.inr ⟨nk, hr⟩))
    obtain ⟨p, hk⟩ := h.derived eph nk hr
    refine ⟨h.sender.switch hlt ⟨hpair, p, nk, hk, rfl⟩ hnew, ?_, ?_, hcontrol, ?_,
      fun _ _ hr' => (by cases hr'), hrx_le, hrx_lt⟩
    · exact (congrArg UInt64.ofNat (h.sender.count_next hlt)).symm
    · intro q hq
      rcases List.mem_append.mp hq with hq | hq
      · exact h.drawn q hq
      · rw [List.mem_singleton.mp hq]
        exact hdrawn
    · rintro eph' (⟨_, _, hw'⟩ | hsome | ⟨nk', hr'⟩)
      · rw [show (c.switchKeys eph nk now).writer = c.writer from rfl, hw] at hw'
        cases hw'
      · exact absurd ⟨eph, nk, hr⟩ (h.control.exclusive (by
          rw [show c.pendingEph = some eph' from hsome]
          simp))
      · cases hr'

end

end Connection

end Epx
