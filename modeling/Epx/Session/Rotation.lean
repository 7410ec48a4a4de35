import Epx.Session.Client
import Epx.Session.Host
import Epx.Session.Channel
import Epx.Lib.Transition

/-!
# A session with rotations

A client connection and a host connection joined by two reliable streams of frames. Every step is a
step of one side; what it writes joins the end of a stream, and what it reads is taken from the
front of the other. No write fails here. A frame above the cap of `read_frame` ends its reader.

A rotation goes through phases. The client offers an ephemeral; the host opens the offer and
derives keys; it answers and switches in one critical section; the client opens the answer, takes
the ephemeral it stored and derives the same keys; and it switches. Each phase says what is in the
two streams and what either side will be able to open (`Phase`, `Session.PhaseInv`).

One interleaving breaks this. The offer is written before `pending_eph` is stored, and the reader
thread does not need `write_mutex` to take it: if the whole exchange fits between the two, the
answer finds nothing and the reader leaves its loop. `rotation_survives` says that in every run
where the reader does not take the ephemeral at such a moment, no rotation goes wrong, and
`rotation_race` is a run where it does.

## Main definitions

* `Session`, `Session.Step` — the two sides and the frames in flight
* `Phase`, `Session.PhaseInv` — the invariant
* `Session.OfferStored` — the reader takes `pending_eph` only after the offering thread stored it

## Main results

* `Session.PhaseInv.step`, `Session.inv_of_run`
* `rotation_survives`
-/

namespace Epx

open Codec Transition

/-- Both ends of an established connection and the frames in flight. -/
structure Session where
  client : Connection
  host : HostConn
  toHost : List RawFrame := []
  toClient : List RawFrame := []
  deriving DecidableEq

/-- The REKEY has been written and its ephemeral not stored yet. -/
def Writer.offering : Writer → Bool
  | .rekeyWritten _ _ _ => true
  | _ => false

theorem Writer.ne_of_offering {w : Writer} (h : w.offering = false) (eph : EphemeralKeyPair)
    (type : FrameType) (plaintext : Bytes) : w ≠ .rekeyWritten eph type plaintext := by
  rintro rfl
  cases h

/-- `read_frame` returns this frame, and does not give up at its length. -/
def Readable (v2 : Bool) (f : RawFrame) : Prop := headerLen v2 + f.body.length ≤ kMaxFrameBytes

instance (v2 : Bool) (f : RawFrame) : Decidable (Readable v2 f) :=
  inferInstanceAs (Decidable (_ ≤ _))

namespace Session

/-- A session right after a handshake that gave the client `keys`. -/
def start (clientEph hostEph : EphemeralKeyPair) (keys : SessionKeys)
    (clientIdentity hostIdentity : PublicKey) (version : UInt8) (rotation : RotationPolicy)
    (now : ℕ) : Session :=
  { client := .start clientEph ⟨keys, hostIdentity, version⟩ rotation now
    host := .start hostEph ⟨⟨keys.tx, keys.rx⟩, clientIdentity, version⟩ }

/-- The steps of both sides. -/
inductive Act where
  | acquire (type : FrameType) (plaintext : Bytes) (now : ℕ) (eph : EphemeralKeyPair)
  | storeEph
  | setInProgress
  | sendOwn
  | clientReceive
  | swapEph
  | switchKeys (now : ℕ)
  | clientQuit
  | hostSend (type : FrameType) (plaintext : Bytes)
  | ping
  | hostReceive (eph : EphemeralKeyPair)
  | ackAndSwitch
  | hostQuit
  | shutdown
  deriving DecidableEq

section

variable (S : Sodium)

/-- A step of the client, whose frame joins the stream to the host. -/
def clientStep (s : Session) (a : Connection.Act) : Option Session :=
  (s.client.step S a).map fun p =>
    { s with client := p.1, toHost := s.toHost ++ p.2.toList }

/-- A step of the host, whose frame joins the stream to the client. -/
def hostStep (s : Session) (a : HostConn.Act) : Option Session :=
  (s.host.step S a).map fun p =>
    { s with host := p.1, toClient := s.toClient ++ p.2.toList }

/-- One step. Readers take the frame at the front of their stream. -/
def step (s : Session) : Act → Option Session
  | .acquire type plaintext now eph => s.clientStep S (.acquire type plaintext now eph true)
  | .storeEph => s.clientStep S .storeEph
  | .setInProgress => s.clientStep S .setInProgress
  | .sendOwn => s.clientStep S (.sendOwn true)
  | .clientReceive =>
    match s.toClient with
    | [] => none
    | f :: rest =>
      if Readable s.client.v2 f then { s with toClient := rest }.clientStep S (.receive f)
      else s.clientStep S .quit
  | .swapEph => s.clientStep S .swapEph
  | .switchKeys now => s.clientStep S (.switchKeys now)
  | .clientQuit => s.clientStep S .quit
  | .hostSend type plaintext => s.hostStep S (.send type plaintext true)
  | .ping => s.hostStep S (.ping true)
  | .hostReceive eph =>
    match s.toHost with
    | [] => none
    | f :: rest =>
      if Readable s.host.v2 f then { s with toHost := rest }.hostStep S (.receive f eph true)
      else s.hostStep S .quit
  | .ackAndSwitch => s.hostStep S (.ackAndSwitch true)
  | .hostQuit => s.hostStep S .quit
  | .shutdown => s.hostStep S .shutdown

/-- Ephemerals are drawn freshly on both sides. -/
def Draws (s : Session) : Act → Prop
  | .acquire type plaintext now eph => s.client.Draws S (.acquire type plaintext now eph true)
  | .hostReceive eph =>
    match s.toHost with
    | [] => True
    | f :: _ => s.host.Draws S (.receive f eph true)
  | _ => True

instance [DecidablePred S.IsKxPair] (s : Session) (a : Act) : Decidable (s.Draws S a) :=
  match a with
  | .acquire type plaintext now eph =>
    inferInstanceAs (Decidable (s.client.Draws S (.acquire type plaintext now eph true)))
  | .hostReceive eph =>
    match hq : s.toHost with
    | [] => isTrue (by simp [Draws, hq])
    | f :: _ => decidable_of_iff (s.host.Draws S (.receive f eph true)) (by simp [Draws, hq])
  | .storeEph | .setInProgress | .sendOwn | .clientReceive | .swapEph | .switchKeys _
  | .clientQuit | .hostSend _ _ | .ping | .ackAndSwitch | .hostQuit | .shutdown =>
    inferInstanceAs (Decidable True)

/-- The steps of a session. -/
def Step (s : Session) (a : Act) (s' : Session) : Prop := s.Draws S a ∧ s.step S a = some s'

/-- A step that checks what it draws. -/
def tryStep [DecidablePred S.IsKxPair] (s : Session) (a : Act) : Option Session :=
  if s.Draws S a then s.step S a else none

theorem step_of_tryStep [DecidablePred S.IsKxPair] {s s' : Session} {a : Act}
    (h : s.tryStep S a = some s') : s.Step S a s' := by
  rw [tryStep] at h
  by_cases hd : s.Draws S a
  · rw [if_pos hd] at h
    exact ⟨hd, h⟩
  · rw [if_neg hd] at h
    cases h

end

/-- The reader takes `pending_eph` only at a moment when no sender is between the write of its
REKEY and the store of the ephemeral. -/
def OfferStored (s : Session) (a : Act) : Prop := a = .swapEph → s.client.writer.offering = false

instance (s : Session) (a : Act) : Decidable (s.OfferStored a) :=
  inferInstanceAs (Decidable (_ → _))

end Session

/-! ### Phases of a rotation -/

/-- Where a rotation is. The ephemerals are the client's and the host's, the keys the host's. -/
inductive Phase where
  | idle
  /-- A REKEY is on its way. -/
  | offered (eph : EphemeralKeyPair)
  /-- The host has opened it and derived keys. -/
  | answering (eph hostEph : EphemeralKeyPair) (nk : SessionKeys)
  /-- The host has switched and its REKEY_ACK is on its way. -/
  | acked (eph hostEph : EphemeralKeyPair) (nk : SessionKeys)
  /-- The client has opened the REKEY_ACK. -/
  | opening (eph hostEph : EphemeralKeyPair) (nk : SessionKeys)
  /-- The client has derived the keys and waits for `write_mutex`. -/
  | switching (eph hostEph : EphemeralKeyPair) (nk : SessionKeys)

/-- The types of the data frames a client seals. -/
def ClientType (t : FrameType) : Prop := t = .request ∨ t = .streamChunk

/-- The types of the data frames a host seals. -/
def HostType (t : FrameType) : Prop := t = .response ∨ t = .streamChunk ∨ t = .error

/-- An offer whose ephemeral the reader has not taken: it waits in the offering thread or in
`pending_eph`. -/
def Connection.Offers (c : Connection) (eph : EphemeralKeyPair) : Prop :=
  (∃ type plaintext, c.writer = .rekeyWritten eph type plaintext) ∨ c.pendingEph = some eph

/-- No offer is open. -/
structure Connection.NoOffer (c : Connection) : Prop where
  writer : ∀ eph type plaintext, c.writer ≠ .rekeyWritten eph type plaintext
  pendingEph : c.pendingEph = none

/-- The reader is between frames, or has left its loop for a reason other than an unsolicited
ack. -/
def ClientReader.Idle (r : ClientReader) : Prop := r = .running ∨ r = .exited false

def HostReader.Idle (r : HostReader) : Prop := r = .running ∨ r = .exited

/-- The frame that waits to be sent is a data frame. -/
def Writer.Own : Writer → Prop
  | .free => True
  | .rekeyWritten _ type _ | .ephStored type _ | .ready type _ => ClientType type

namespace Phase

/-- The client's side of a phase. -/
def Client (c : Connection) : Phase → Prop
  | idle => c.NoOffer ∧ c.reader.Idle
  | offered eph | answering eph _ _ | acked eph _ _ => c.Offers eph ∧ c.reader.Idle
  | opening eph hostEph _ => c.Offers eph ∧ c.reader = .ackOpened hostEph.publicKey
  | switching eph _ nk => c.NoOffer ∧ c.reader = .haveKeys eph ⟨nk.tx, nk.rx⟩

/-- The host's side of a phase. -/
def Host (h : HostConn) : Phase → Prop
  | answering _ hostEph nk => h.reader = .rekeyDerived hostEph nk
  | _ => h.reader.Idle

/-- The two ephemerals give both sides the same keys. -/
def Keys (S : Sodium) : Phase → Prop
  | idle | offered _ => True
  | answering eph hostEph nk | acked eph hostEph nk | opening eph hostEph nk
  | switching eph hostEph nk =>
    S.kxClientSessionKeys eph hostEph.publicKey = some ⟨nk.tx, nk.rx⟩

/-- The transmit epochs of client and host: the host is ahead once it has answered. -/
def Epochs (client host : UInt8) : Phase → Prop
  | idle | offered _ | answering _ _ _ => host = client
  | acked _ _ _ | opening _ _ _ | switching _ _ _ => host = client + 1

/-- The REKEY in flight, opened in the given epoch. -/
def rekey (epoch : UInt8) : Phase → Option Special
  | offered eph => some ⟨.rekey, eph.publicKey.val, epoch, none⟩
  | _ => none

/-- The REKEY_ACK in flight, opened in the given epoch; it makes the client arm the host's next
transmit key. -/
def rekeyAck (epoch : UInt8) : Phase → Option Special
  | acked _ hostEph nk => some ⟨.rekeyAck, hostEph.publicKey.val, epoch, some nk.tx⟩
  | _ => none

/-- How the host, in state `rx` now and `rx'` once it has opened what is in flight, stands to the
client's transmit state. -/
def HostReady (v2 : Bool) (rx rx' : RxState) (tx : TxState) : Phase → Prop
  | idle => Ready v2 rx' tx
  | offered _ => Same rx' tx
  | answering _ _ _ => Same rx' tx ∧ rx.epoch = tx.epoch
  | acked _ _ nk | opening _ _ nk | switching _ _ nk => Same rx' tx ∧ rx'.pending = some nk.rx

/-- The state from which the client will open what is in flight: once it has opened a REKEY_ACK, it
will arm the new key first. -/
def clientRx (rx : RxState) : Phase → RxState
  | opening _ _ nk | switching _ _ nk => rx.arm nk.tx
  | _ => rx

theorem HostReady.ready {ph : Phase} {v2 : Bool} {rx rx' : RxState} {tx : TxState}
    (h : ph.HostReady v2 rx rx' tx) : Ready v2 rx' tx := by
  cases ph with
  | idle => exact h
  | offered _ => exact Or.inl h
  | answering _ _ _ | acked _ _ _ | opening _ _ _ | switching _ _ _ => exact Or.inl h.1

/-- A reader between frames is not in the middle of a rotation. -/
theorem clientRx_of_running {ph : Phase} {c : Connection} (h : ph.Client c)
    (hr : c.reader = .running) (rx : RxState) : ph.clientRx rx = rx := by
  cases ph with
  | idle | offered _ | answering _ _ _ | acked _ _ _ => rfl
  | opening _ _ _ | switching _ _ _ =>
    rw [h.2] at hr
    cases hr

end Phase

namespace Session

/-- The stream to the host: it will be opened, and with what has been opened it is all that the
client has sealed. -/
def ToHost (S : Sodium) (ph : Phase) (s : Session) : Prop :=
  ∃ xs rx', Stream S s.client.v2 ClientType (ph.rekey s.client.tx.epoch) s.host.rx s.toHost xs rx' ∧
    ph.HostReady s.client.v2 s.host.rx rx' s.client.tx ∧
    s.client.sealed.map SealCall.content
      = s.host.opened.map Opened.content ++ xs.map SealCall.content

/-- The stream to the client. -/
def ToClient (S : Sodium) (ph : Phase) (s : Session) : Prop :=
  ∃ xs rx', Stream S s.client.v2 HostType (ph.rekeyAck s.client.tx.epoch)
      (ph.clientRx s.client.rx) s.toClient xs rx' ∧
    Ready s.client.v2 rx' s.host.tx ∧
    s.host.sealed.map SealCall.content
      = s.client.opened.map Opened.content ++ xs.map SealCall.content

/-- The invariant of a session in a phase. -/
structure PhaseInv (S : Sodium) (ph : Phase) (s : Session) : Prop where
  version : s.host.v2 = s.client.v2
  v2 : ph ≠ .idle → s.client.v2 = true
  alive : s.host.alive = false → s.host.reader = .exited
  own : s.client.writer.Own
  client : ph.Client s.client
  host : ph.Host s.host
  keys : ph.Keys S
  epochs : ph.Epochs s.client.tx.epoch s.host.tx.epoch
  toHost : s.ToHost S ph
  toClient : s.ToClient S ph

theorem phaseInv_start (S : Sodium) (clientEph hostEph : EphemeralKeyPair) (keys : SessionKeys)
    (clientIdentity hostIdentity : PublicKey) (version : UInt8) (rotation : RotationPolicy)
    (now : ℕ) :
    PhaseInv S .idle
      (start clientEph hostEph keys clientIdentity hostIdentity version rotation now) where
  version := rfl
  v2 := fun h => absurd rfl h
  alive := fun h => by cases h
  own := trivial
  client := ⟨⟨fun _ _ _ h => (by cases h), rfl⟩, Or.inl rfl⟩
  host := Or.inl rfl
  keys := trivial
  epochs := rfl
  toHost := ⟨[], _, .nil, Or.inl ⟨rfl, rfl, rfl⟩, rfl⟩
  toClient := ⟨[], _, .nil, Or.inl ⟨rfl, rfl, rfl⟩, rfl⟩

section

variable {S : Sodium} {ph : Phase} {s : Session}

/-! ### Steps inside a phase -/

/-- A step of the client that changes no key, no log and no stream. -/
theorem PhaseInv.of_client (h : s.PhaseInv S ph) {c : Connection}
    (hversion : c.version = s.client.version) (htx : c.tx = s.client.tx)
    (hrx : c.rx = s.client.rx) (hsealed : c.sealed = s.client.sealed)
    (hopened : c.opened = s.client.opened) (hown : c.writer.Own) (hclient : ph.Client c) :
    PhaseInv S ph { s with client := c } := by
  have hv2 : c.v2 = s.client.v2 := by rw [Connection.v2, Connection.v2, hversion]
  refine ⟨h.version.trans hv2.symm, fun hne => hv2.trans (h.v2 hne), h.alive, hown, hclient,
    h.host, h.keys, ?_, ?_, ?_⟩
  · simpa only [htx] using h.epochs
  · simpa only [ToHost, hv2, htx, hsealed] using h.toHost
  · simpa only [ToClient, hv2, htx, hrx, hopened] using h.toClient

/-- A step of the host that changes no key, no log and no stream. -/
theorem PhaseInv.of_host (h : s.PhaseInv S ph) {g : HostConn} (hversion : g.v2 = s.host.v2)
    (htx : g.tx = s.host.tx) (hrx : g.rx = s.host.rx) (hsealed : g.sealed = s.host.sealed)
    (hopened : g.opened = s.host.opened) (halive : g.alive = false → g.reader = .exited)
    (hhost : ph.Host g) : PhaseInv S ph { s with host := g } := by
  refine ⟨hversion.trans h.version, h.v2, halive, h.own, h.client, hhost, h.keys, ?_, ?_, ?_⟩
  · simpa only [htx] using h.epochs
  · simpa only [ToHost, hrx, hopened] using h.toHost
  · simpa only [ToClient, htx, hsealed] using h.toClient

/-- The client seals a data frame. -/
theorem ToHost.append_seal (hS : S.AeadCorrect) (h : s.ToHost S ph) {c : Connection}
    {type : FrameType} {plaintext : Bytes} (htype : ClientType type)
    (hversion : c.version = s.client.version) (htx : c.tx = s.client.tx.bump)
    (hsealed : c.sealed = s.client.sealed ++ [s.client.tx.call type plaintext]) :
    ToHost S ph { s with
      client := c
      toHost := s.toHost ++ [(s.client.tx.call type plaintext).frame S s.client.v2] } := by
  have hv2 : c.v2 = s.client.v2 := by rw [Connection.v2, Connection.v2, hversion]
  obtain ⟨xs, rx', hstream, hready, hlog⟩ := h
  obtain ⟨rx₁, hstream', hsame, hpending⟩ := hstream.append_seal hS
    (Phase.HostReady.ready hready) htype plaintext
  refine ⟨xs ++ [s.client.tx.call type plaintext], rx₁, ?_, ?_, ?_⟩
  · rw [hv2, htx]
    exact hstream'
  · rw [htx]
    cases ph with
    | idle => exact Or.inl hsame
    | offered _ => exact hsame
    | answering _ _ _ => exact ⟨hsame, hready.2⟩
    | acked _ _ _ | opening _ _ _ | switching _ _ _ =>
      exact ⟨hsame, (hpending hready.1).trans hready.2⟩
  · rw [hsealed, List.map_append, List.map_append, hlog, List.append_assoc]

/-- The host seals a data frame. -/
theorem ToClient.append_seal (hS : S.AeadCorrect) (h : s.ToClient S ph) {g : HostConn}
    {type : FrameType} {plaintext : Bytes} (htype : HostType type)
    (htx : g.tx = s.host.tx.bump)
    (hsealed : g.sealed = s.host.sealed ++ [s.host.tx.call type plaintext]) :
    ToClient S ph { s with
      host := g
      toClient := s.toClient ++ [(s.host.tx.call type plaintext).frame S s.client.v2] } := by
  obtain ⟨xs, rx', hstream, hready, hlog⟩ := h
  obtain ⟨rx₁, hstream', hsame, -⟩ := hstream.append_seal hS hready htype plaintext
  refine ⟨xs ++ [s.host.tx.call type plaintext], rx₁, hstream', ?_, ?_⟩
  · rw [htx]
    exact Or.inl hsame
  · rw [hsealed, List.map_append, List.map_append, hlog, List.append_assoc]

/-- A cleartext frame joins the stream to the client. -/
theorem ToClient.append_clear (h : s.ToClient S ph) {f : RawFrame}
    (hf : isCleartext f.type = true) :
    ToClient S ph { s with toClient := s.toClient ++ [f] } := by
  obtain ⟨xs, rx', hstream, hready, hlog⟩ := h
  exact ⟨xs, rx', hstream.append_clear hf, hready, hlog⟩

/-! ### Reading a frame -/

theorem opens_of_cleartext {t : FrameType} (h : isCleartext t = true) :
    Connection.opens t = false := by
  simp only [isCleartext, decide_eq_true_eq] at h
  rcases h with rfl | rfl <;> rfl

theorem opens_of_hostType {t : FrameType} (h : HostType t) : Connection.opens t = true := by
  rcases h with rfl | rfl | rfl <;> rfl

theorem afterOpen_idle {t : FrameType} (h : HostType t) (o : Bytes) :
    (Connection.afterOpen t o).Idle := by
  rcases Connection.afterOpen_cases t o with hrunning | hexited | ⟨rfl, -⟩
  · exact Or.inl hrunning
  · exact Or.inr hexited
  · rcases h with h | h | h <;> cases h

theorem afterOpen_rekeyAck (e : Block 32) :
    Connection.afterOpen .rekeyAck e.val = .ackOpened e := by
  rw [Connection.afterOpen, if_pos rfl, dif_pos e.length_val]

/-- The reader's side of a phase while it reads data frames. -/
theorem client_of_idle {c c' : Connection} (h : ph.Client c) (hr : c.reader = .running)
    (hwriter : c'.writer = c.writer) (hpending : c'.pendingEph = c.pendingEph)
    (hr' : c'.reader.Idle) : ph.Client c' := by
  cases ph with
  | idle => exact ⟨⟨hwriter ▸ h.1.writer, hpending.trans h.1.pendingEph⟩, hr'⟩
  | offered eph | answering eph _ _ | acked eph _ _ =>
    refine ⟨?_, hr'⟩
    rw [Connection.Offers, hwriter, hpending]
    exact h.1
  | opening _ _ _ | switching _ _ _ =>
    rw [h.2] at hr
    cases hr

/-- The client reads a frame: it opens it if it is sealed, and a REKEY_ACK takes the rotation one
phase further. -/
theorem PhaseInv.clientReceive (h : s.PhaseInv S ph) (hr : s.client.reader = .running)
    {f : RawFrame} {rest : List RawFrame} (hq : s.toClient = f :: rest) :
    ∃ ph', PhaseInv S ph' { s with client := s.client.receive S f, toClient := rest } := by
  obtain ⟨xs, rx', hstream, hready, hlog⟩ := h.toClient
  rw [hq, Phase.clientRx_of_running h.client hr] at hstream
  generalize hack : ph.rekeyAck s.client.tx.epoch = ack at hstream
  cases hstream with
  | clear hc hrest =>
    rw [Connection.receive_skipped S (opens_of_cleartext hc)]
    refine ⟨ph, { h with toClient := ⟨xs, rx', ?_, hready, hlog⟩ }⟩
    rw [Phase.clientRx_of_running h.client hr, hack]
    exact hrest
  | @own _ _ rx₁ _ x _ xs' hP hopen hrest =>
    rw [Connection.receive_opened S (f := x.frame S s.client.v2) (opens_of_hostType hP) hopen]
    refine ⟨ph, { h with
      client := client_of_idle h.client hr rfl rfl (afterOpen_idle hP _)
      toHost := h.toHost
      toClient := ⟨xs', rx', ?_, hready, ?_⟩ }⟩
    · rw [Phase.clientRx_of_running h.client hr, hack]
      exact hrest
    · rw [hlog, List.map_append, List.append_assoc]
      rfl
  | @special sp _ rx₁ _ x _ xs' htype hplain hepoch hopen hrest =>
    cases ph with
    | acked eph hostEph nk =>
      cases hack
      have hopens : Connection.opens (x.frame S s.client.v2).type = true := by
        rw [SealCall.frame_type, htype]
        rfl
      have hreader : Connection.afterOpen (x.frame S s.client.v2).type x.plaintext
          = .ackOpened hostEph.publicKey := by
        rw [SealCall.frame_type, htype, hplain]
        exact afterOpen_rekeyAck hostEph.publicKey
      rw [Connection.receive_opened S hopens hopen, hreader]
      refine ⟨.opening eph hostEph nk, { h with
        v2 := fun _ => h.v2 (by simp)
        client := ⟨h.client.1, rfl⟩
        toHost := h.toHost
        toClient := ⟨xs', rx', hrest, hready, ?_⟩ }⟩
      rw [hlog, List.map_append, List.append_assoc]
      rfl
    | idle | offered _ | answering _ _ _ | opening _ _ _ | switching _ _ _ => cases hack

theorem breaks_of_ne {h : HostConn} {t : FrameType} (hbye : t ≠ .bye) (hrekey : t ≠ .rekey) :
    h.breaks t = false := by
  simp [HostConn.breaks, hbye, hrekey]

theorem hostOpens_of_clientType {h : HostConn} {t : FrameType} (ht : ClientType t) :
    t ≠ .ping ∧ h.breaks t = false ∧ h.opens t = true := by
  rcases ht with rfl | rfl
  · exact ⟨by decide, breaks_of_ne (by decide) (by decide), by simp [HostConn.opens]⟩
  · exact ⟨by decide, breaks_of_ne (by decide) (by decide), by simp [HostConn.opens]⟩

theorem hostAfterOpen_idle {h : HostConn} {t : FrameType} (ht : ClientType t) (o : Bytes)
    (eph : EphemeralKeyPair) : (h.afterOpen S t o eph).Idle := by
  rcases ht with rfl | rfl
  · rw [HostConn.afterOpen, if_neg (by decide), if_neg (by decide)]
    cases decodeRequest o <;> simp [HostReader.Idle]
  · rw [HostConn.afterOpen, if_neg (by decide), if_pos rfl]
    cases decodeStreamChunk o <;> simp [HostReader.Idle]

/-- What the host makes of an honest offer. -/
theorem hostAfterOpen_rekey {h : HostConn} {eph hostEph : EphemeralKeyPair} {nk : SessionKeys}
    (hlt : h.tx.epoch < 255)
    (hk : S.kxServerSessionKeys hostEph eph.publicKey = some nk) :
    h.afterOpen S .rekey eph.publicKey.val hostEph = .rekeyDerived hostEph nk := by
  rw [HostConn.afterOpen, if_pos rfl, HostConn.afterRekey, dif_pos eph.publicKey.length_val,
    if_neg (UInt8.not_le.mpr hlt)]
  have hok : serverSessionKeys S hostEph eph.publicKey = .ok nk := serverSessionKeys_eq_ok.mpr hk
  rw [show (⟨eph.publicKey.val, eph.publicKey.length_val⟩ : Block 32) = eph.publicKey from rfl, hok]

/-- A cleartext frame that is no PING passes the host by. -/
theorem hostReceive_pong {h : HostConn} {f : RawFrame} (hclear : isCleartext f.type = true)
    (hping : f.type ≠ .ping) (hostEph : EphemeralKeyPair) (ok : Bool) :
    h.receive S f hostEph ok = (h, none) := by
  have hpong : f.type = .pong := by
    simp only [isCleartext, decide_eq_true_eq] at hclear
    exact hclear.resolve_left hping
  have hb : h.breaks f.type = false := by
    rw [hpong]
    exact breaks_of_ne (by decide) (by decide)
  have ho : h.opens f.type = false := by
    simp [HostConn.opens, hpong, show FrameType.pong ≠ .rekey by decide,
      show FrameType.pong ≠ .streamChunk by decide, show FrameType.pong ≠ .request by decide]
  rw [HostConn.receive_skipped S hping hb ho]

/-- The host opens an honest offer and derives its keys. -/
theorem hostReceive_rekey {h : HostConn} {x : SealCall} {eph hostEph : EphemeralKeyPair}
    {nk : SessionKeys} {rx : RxState} {ok : Bool} (hv2 : h.v2 = true) (hlt : h.tx.epoch < 255)
    (htype : x.type = .rekey) (hplain : x.plaintext = eph.publicKey.val)
    (hk : S.kxServerSessionKeys hostEph eph.publicKey = some nk)
    (hopen : openChecked S h.v2 h.rx (x.frame S h.v2) = some (x.plaintext, rx)) :
    h.receive S (x.frame S h.v2) hostEph ok =
      ({ h with
          rx := rx
          opened := h.opened ++ [⟨rx.epoch, x.type, x.plaintext⟩]
          drawn := hostEph :: h.drawn
          reader := .rekeyDerived hostEph nk }, none) := by
  have hrekey : (x.frame S h.v2).type = .rekey := htype
  have hping : (x.frame S h.v2).type ≠ .ping := by
    rw [hrekey]
    decide
  have hb : h.breaks (x.frame S h.v2).type = false := by
    rw [hrekey, HostConn.breaks, hv2]
    decide
  have ho : h.opens (x.frame S h.v2).type = true := by
    rw [hrekey, HostConn.opens, hv2]
    decide
  have hreader : h.afterOpen S (x.frame S h.v2).type x.plaintext hostEph
      = .rekeyDerived hostEph nk := by
    rw [hrekey, hplain]
    exact hostAfterOpen_rekey hlt hk
  rw [HostConn.receive_opened S hping hb ho hopen, hreader, SealCall.frame_type, if_pos htype]

/-- The host reads a frame: it opens it if it is sealed, and a REKEY takes the rotation one phase
further. -/
theorem PhaseInv.hostReceive (hkx : S.KxAgree) (h : s.PhaseInv S ph) (hc : s.client.Inv S)
    (hr : s.host.reader = .running) {f : RawFrame} {rest : List RawFrame}
    (hq : s.toHost = f :: rest) {hostEph : EphemeralKeyPair}
    (hdraws : s.host.Draws S (.receive f hostEph true)) :
    ∃ ph', PhaseInv S ph' { s with
      host := (s.host.receive S f hostEph true).1
      toHost := rest
      toClient := s.toClient ++ (s.host.receive S f hostEph true).2.toList } := by
  obtain ⟨xs, rx', hstream, hready, hlog⟩ := h.toHost
  rw [hq] at hstream
  generalize hoff : ph.rekey s.client.tx.epoch = offer at hstream
  have hpop : ∀ rx, ph.HostReady s.client.v2 rx rx' s.client.tx := by
    intro rx
    cases ph with
    | idle | offered _ | acked _ _ _ | opening _ _ _ | switching _ _ _ => exact hready
    | answering _ _ _ =>
      rw [h.host] at hr
      cases hr
  have hidle : ∀ g : HostConn, g.reader.Idle → ph.Host g := by
    intro g hg
    cases ph with
    | idle | offered _ | acked _ _ _ | opening _ _ _ | switching _ _ _ => exact hg
    | answering _ _ _ =>
      rw [h.host] at hr
      cases hr
  cases hstream with
  | clear hclear hrest =>
    have hto : ToHost S ph { s with toHost := rest } :=
      ⟨xs, rx', by rw [hoff]; exact hrest, hready, hlog⟩
    by_cases hping : f.type = .ping
    · rw [HostConn.receive, if_pos hping]
      exact ⟨ph, { h with toHost := hto, toClient := h.toClient.append_clear rfl }⟩
    · rw [hostReceive_pong hclear hping]
      refine ⟨ph, { h with toHost := hto, toClient := ?_ }⟩
      simp only [Option.toList_none, List.append_nil]
      exact h.toClient
  | @own _ _ rx₁ _ x _ xs' hP hopen hrest =>
    obtain ⟨hping, hb, ho⟩ := hostOpens_of_clientType (h := s.host) hP
    rw [← h.version] at hopen
    rw [← h.version, HostConn.receive_opened S (f := x.frame S s.host.v2) hping hb ho hopen]
    refine ⟨ph, { h with
      alive := fun halive => ?_
      host := hidle _ (hostAfterOpen_idle hP _ _)
      toHost := ⟨xs', rx', ?_, hpop _, ?_⟩
      toClient := ?_ }⟩
    · have := h.alive halive
      rw [hr] at this
      cases this
    · rw [hoff]
      exact hrest
    · rw [hlog, List.map_append, List.append_assoc]
      rfl
    · simp only [Option.toList_none, List.append_nil]
      exact h.toClient
  | @special sp _ rx₁ _ x _ xs' htype hplain hepoch hopen hrest =>
    cases ph with
    | offered eph =>
      cases hoff
      have hv2 := h.v2 (by simp)
      -- The offer is honest, so the host derives keys for it.
      obtain ⟨hpair, -, -, hlt⟩ := hc.outstanding eph (h.client.1.imp_right Or.inl)
      obtain ⟨hpairHost, -⟩ := hdraws htype
      obtain ⟨k₁, k₂, hk₁, hk₂⟩ := hkx eph hostEph hpair hpairHost
      have hhostlt : s.host.tx.epoch < 255 := by
        rw [show s.host.tx.epoch = s.client.tx.epoch from h.epochs]
        exact hlt
      rw [← h.version] at hopen
      rw [← h.version, hostReceive_rekey (h.version.trans hv2) hhostlt htype hplain hk₂ hopen]
      refine ⟨.answering eph hostEph ⟨k₂, k₁⟩, { h with
        v2 := fun _ => hv2
        alive := fun halive => ?_
        client := h.client
        host := rfl
        keys := hk₁
        epochs := h.epochs
        toHost := ⟨xs', rx', hrest, ⟨hready, hepoch⟩, ?_⟩
        toClient := ?_ }⟩
      · have := h.alive halive
        rw [hr] at this
        cases this
      · rw [hlog, List.map_append, List.append_assoc]
        rfl
      · simp only [Option.toList_none, List.append_nil]
        exact h.toClient
    | idle | answering _ _ _ | acked _ _ _ | opening _ _ _ | switching _ _ _ => cases hoff

/-! ### The steps of a rotation -/

/-- The client offers a rotation. -/
theorem PhaseInv.offer (hS : S.AeadCorrect) (h : s.PhaseInv S ph) (hc : s.client.Inv S)
    (hw : s.client.writer = .free) {type : FrameType} (htype : ClientType type)
    {plaintext : Bytes} {now : ℕ} (hdue : s.client.rekeyDue now = true)
    (eph : EphemeralKeyPair) :
    PhaseInv S (.offered eph) { s with
      client := (s.client.offerRekey S type plaintext eph true).1
      toHost := s.toHost ++ (s.client.offerRekey S type plaintext eph true).2.toList } := by
  obtain ⟨hv2, hp, -⟩ := Connection.lt_of_rekeyDue hdue
  obtain ⟨hnone, hno⟩ := hc.control.idle hw hp
  have hnot : ∀ eph', ¬ s.client.Offers eph' := by
    rintro eph' (⟨_, _, hw'⟩ | hsome)
    · rw [hw] at hw'
      cases hw'
    · rw [hnone] at hsome
      cases hsome
  -- No other rotation is under way.
  cases ph with
  | offered _ | answering _ _ _ | acked _ _ _ | opening _ _ _ => exact absurd h.client.1 (hnot _)
  | switching _ _ _ => exact absurd ⟨_, _, h.client.2⟩ hno
  | idle =>
    obtain ⟨xs, rx', hstream, hready, hlog⟩ := h.toHost
    obtain ⟨rx₁, hopen, hsame, -⟩ := openChecked_of_ready hS hready .rekey eph.publicKey.val
    refine { h with
      v2 := fun _ => hv2
      own := htype
      client := ⟨Or.inl ⟨_, _, rfl⟩, h.client.2⟩
      toHost := ⟨xs ++ [s.client.tx.call .rekey eph.publicKey.val], rx₁, ?_, hsame, ?_⟩ }
    · exact hstream.append_special ⟨.rekey, eph.publicKey.val, s.client.tx.epoch, none⟩
        rfl rfl hsame.epoch hopen
    · change (s.client.sealed ++ [_]).map _ = _
      rw [List.map_append, List.map_append, hlog, List.append_assoc]

/-- The host answers an offer and switches. -/
theorem PhaseInv.ackAndSwitch (hS : S.AeadCorrect) (h : s.PhaseInv S ph)
    {hostEph : EphemeralKeyPair} {nk : SessionKeys}
    (hr : s.host.reader = .rekeyDerived hostEph nk) :
    ∃ ph', PhaseInv S ph' { s with
      host := (s.host.sendRekeyAckAndSwitch S hostEph nk true).1
      toClient := s.toClient ++ (s.host.sendRekeyAckAndSwitch S hostEph nk true).2.toList } := by
  have halive : ¬ s.host.alive = false := by
    intro hdead
    rw [h.alive hdead] at hr
    cases hr
  cases ph with
  | idle | offered _ | acked _ _ _ | opening _ _ _ | switching _ _ _ =>
    rcases h.host with hidle | hidle <;>
    · rw [hidle] at hr
      cases hr
  | answering eph hostEph' nk' =>
    obtain ⟨rfl, rfl⟩ : hostEph' = hostEph ∧ nk' = nk := by
      have heq := h.host.symm.trans hr
      cases heq
      exact ⟨rfl, rfl⟩
    have hv2 := h.v2 (by simp)
    rw [HostConn.sendRekeyAckAndSwitch, if_neg halive, if_neg (by simp)]
    refine ⟨.acked eph hostEph' nk', { h with
      v2 := fun _ => hv2
      alive := fun hdead => absurd hdead halive
      client := h.client
      host := Or.inl rfl
      epochs := ?_
      toHost := ?_
      toClient := ?_ }⟩
    · change s.host.tx.epoch + 1 = s.client.tx.epoch + 1
      rw [show s.host.tx.epoch = s.client.tx.epoch from h.epochs]
    · -- What is in flight to the host is of the epoch it is in, so it can arm the next key.
      obtain ⟨xs, rx', hstream, ⟨hsame, hepoch⟩, hlog⟩ := h.toHost
      exact ⟨xs, rx'.arm nk'.rx, hstream.arm (hsame.epoch.trans hepoch.symm) nk'.rx,
        ⟨⟨hsame.key, hsame.epoch, hsame.counter⟩, rfl⟩, hlog⟩
    · obtain ⟨xs, rx', hstream, hready, hlog⟩ := h.toClient
      obtain ⟨rx₁, hopen, hsame, -⟩ :=
        openChecked_of_ready hS hready .rekeyAck hostEph'.publicKey.val
      have hepoch : rx₁.epoch = s.client.tx.epoch := hsame.epoch.trans h.epochs
      rw [hv2] at hstream hopen
      refine ⟨xs ++ [s.host.tx.call .rekeyAck hostEph'.publicKey.val], rx₁.arm nk'.tx, ?_, ?_, ?_⟩
      · rw [hv2]
        exact hstream.append_special
          ⟨.rekeyAck, hostEph'.publicKey.val, s.client.tx.epoch, some nk'.tx⟩ rfl rfl hepoch hopen
      · refine Or.inr ⟨hv2, rfl, ?_, rfl⟩
        change s.host.tx.epoch + 1 = rx₁.epoch + 1
        rw [hsame.epoch]
        rfl
      · change (s.host.sealed ++ [_]).map _ = _
        rw [List.map_append, List.map_append, hlog, List.append_assoc]

/-- The reader takes the stored ephemeral, when it has been stored: it is the one the host
answered, and both sides derive the same keys. -/
theorem PhaseInv.swapEph (h : s.PhaseInv S ph) {serverEph : Block 32}
    (hr : s.client.reader = .ackOpened serverEph)
    (hw : ∀ eph type plaintext, s.client.writer ≠ .rekeyWritten eph type plaintext) :
    ∃ eph hostEph nk, serverEph = hostEph.publicKey ∧ s.client.pendingEph = some eph ∧
      S.kxClientSessionKeys eph serverEph = some ⟨nk.tx, nk.rx⟩ ∧
      s.host.rx.pending = some nk.rx ∧
      PhaseInv S (.switching eph hostEph nk)
        { s with client := s.client.swapEph S serverEph } := by
  cases ph with
  | idle | offered _ | answering _ _ _ | acked _ _ _ =>
    rcases h.client.2 with hidle | hidle <;>
    · rw [hidle] at hr
      cases hr
  | switching _ _ _ =>
    rw [h.client.2] at hr
    cases hr
  | opening eph hostEph nk =>
    obtain rfl : hostEph.publicKey = serverEph := by
      have heq := h.client.2.symm.trans hr
      cases heq
      rfl
    have hpending : s.client.pendingEph = some eph :=
      h.client.1.resolve_left fun ⟨type, plaintext, hwritten⟩ => hw eph type plaintext hwritten
    have hkeys : S.kxClientSessionKeys eph hostEph.publicKey = some ⟨nk.tx, nk.rx⟩ := h.keys
    have hswap : s.client.swapEph S hostEph.publicKey =
        { s.client with pendingEph := none, reader := .haveKeys eph ⟨nk.tx, nk.rx⟩ } := by
      rw [Connection.swapEph]
      simp only [hpending, clientSessionKeys, hkeys]
    obtain ⟨xs, rx', hstream, hready, -⟩ := h.toHost
    refine ⟨eph, hostEph, nk, rfl, hpending, hkeys, hstream.pending_of_pending hready.2, ?_⟩
    rw [hswap]
    exact { h with
      v2 := fun _ => h.v2 (by simp)
      client := ⟨⟨hw, rfl⟩, rfl⟩
      toHost := h.toHost
      toClient := h.toClient }

/-- The client switches: the rotation is over. -/
theorem PhaseInv.switchKeys (h : s.PhaseInv S ph) {eph : EphemeralKeyPair} {nk : SessionKeys}
    (hr : s.client.reader = .haveKeys eph nk) (hw : s.client.writer = .free) (now : ℕ) :
    PhaseInv S .idle { s with client := s.client.switchKeys eph nk now } := by
  cases ph with
  | idle | offered _ | answering _ _ _ | acked _ _ _ =>
    rcases h.client.2 with hidle | hidle <;>
    · rw [hidle] at hr
      cases hr
  | opening _ _ _ =>
    rw [h.client.2] at hr
    cases hr
  | switching eph' hostEph nk' =>
    obtain ⟨rfl, rfl⟩ : eph' = eph ∧ nk = ⟨nk'.tx, nk'.rx⟩ := by
      have heq := h.client.2.symm.trans hr
      cases heq
      exact ⟨rfl, rfl⟩
    obtain ⟨xs, rx', hstream, ⟨hsame, hpending⟩, hlog⟩ := h.toHost
    refine { h with
      v2 := fun hne => absurd rfl hne
      client := ⟨⟨fun e t p hw' => ?_, h.client.1.pendingEph⟩, Or.inl rfl⟩
      keys := trivial
      epochs := h.epochs
      toHost := ⟨xs, rx', hstream, Or.inr ⟨h.v2 (by simp), hpending, ?_, rfl⟩, hlog⟩
      toClient := h.toClient }
    · rw [show (s.client.switchKeys _ _ now).writer = s.client.writer from rfl, hw] at hw'
      cases hw'
    · change s.client.tx.epoch + 1 = rx'.epoch + 1
      rw [hsame.epoch]

/-! ### The invariant over runs -/

/-- The invariant of a session. -/
structure Inv (S : Sodium) (s : Session) : Prop where
  client : s.client.Inv S
  phase : ∃ ph, s.PhaseInv S ph

theorem clientStep_eq_some {s' : Session} {a : Connection.Act}
    (hstep : s.clientStep S a = some s') :
    ∃ c out, s.client.step S a = some (c, out) ∧
      s' = { s with client := c, toHost := s.toHost ++ out.toList } := by
  obtain ⟨⟨c, out⟩, hc, rfl⟩ := Option.map_eq_some_iff.mp hstep
  exact ⟨c, out, hc, rfl⟩

theorem hostStep_eq_some {s' : Session} {a : HostConn.Act} (hstep : s.hostStep S a = some s') :
    ∃ g out, s.host.step S a = some (g, out) ∧
      s' = { s with host := g, toClient := s.toClient ++ out.toList } := by
  obtain ⟨⟨g, out⟩, hg, rfl⟩ := Option.map_eq_some_iff.mp hstep
  exact ⟨g, out, hg, rfl⟩

theorem append_toList_none (fs : List RawFrame) : fs ++ (none : Option RawFrame).toList = fs := by
  simp

/-- The client's reader leaves its loop between frames. -/
theorem PhaseInv.clientQuit (h : s.PhaseInv S ph) (hr : s.client.reader = .running) :
    PhaseInv S ph { s with client := { s.client with reader := .exited false } } :=
  h.of_client rfl rfl rfl rfl rfl h.own (client_of_idle h.client hr rfl rfl (Or.inr rfl))

theorem PhaseInv.hostQuit (h : s.PhaseInv S ph) (hr : s.host.reader = .running) :
    PhaseInv S ph { s with host := { s.host with reader := .exited } } := by
  refine h.of_host rfl rfl rfl rfl rfl (fun _ => rfl) ?_
  cases ph with
  | idle | offered _ | acked _ _ _ | opening _ _ _ | switching _ _ _ => exact Or.inr rfl
  | answering _ _ _ =>
    rw [h.host] at hr
    cases hr

/-- The client's side of a phase when the holder of `write_mutex` is not about to store an
ephemeral, before or after. -/
theorem client_of_writer {c c' : Connection} (h : ph.Client c)
    (hw : ∀ eph type plaintext, c.writer ≠ .rekeyWritten eph type plaintext)
    (hw' : ∀ eph type plaintext, c'.writer ≠ .rekeyWritten eph type plaintext)
    (hpending : c'.pendingEph = c.pendingEph) (hr : c'.reader = c.reader) : ph.Client c' := by
  have hoffers : ∀ eph, c.Offers eph → c'.Offers eph := by
    rintro eph (⟨type, plaintext, hwritten⟩ | hsome)
    · exact absurd hwritten (hw eph type plaintext)
    · exact Or.inr (hpending.trans hsome)
  cases ph with
  | idle => exact ⟨⟨hw', hpending.trans h.1.pendingEph⟩, hr ▸ h.2⟩
  | offered _ | answering _ _ _ | acked _ _ _ => exact ⟨hoffers _ h.1, hr ▸ h.2⟩
  | opening _ _ _ => exact ⟨hoffers _ h.1, hr.trans h.2⟩
  | switching _ _ _ => exact ⟨⟨hw', hpending.trans h.1.pendingEph⟩, hr.trans h.2⟩

/-- The client's steps under `write_mutex`. -/
theorem PhaseInv.writer_step (hS : S.AeadCorrect) (h : s.PhaseInv S ph) (hc : s.client.Inv S)
    {a : Connection.Act} {c' : Connection} {out : Option RawFrame}
    (heff : Connection.Effect S s.client a c' out)
    (ha : (∃ type plaintext now eph, a = .acquire type plaintext now eph true) ∨ a = .storeEph ∨
      a = .setInProgress ∨ a = .sendOwn true) :
    ∃ ph', PhaseInv S ph' { s with client := c', toHost := s.toHost ++ out.toList } := by
  cases heff with
  | @ready type plaintext now eph ok hw htype hdue =>
    rw [append_toList_none]
    refine ⟨ph, h.of_client rfl rfl rfl rfl rfl htype ?_⟩
    exact client_of_writer h.client (by simp [hw]) (by simp) rfl rfl
  | @offered type plaintext now eph ok hw htype hdue =>
    obtain ⟨_, _, _, _, heq⟩ | heq | heq | heq := ha
    · cases heq
      exact ⟨_, h.offer hS hc hw htype hdue eph⟩
    all_goals cases heq
  | @storeEph eph type plaintext hw =>
    rw [append_toList_none]
    have hown := h.own
    rw [hw] at hown
    refine ⟨ph, h.of_client rfl rfl rfl rfl rfl hown ?_⟩
    have hoffer : ∀ eph', s.client.Offers eph' → eph' = eph := by
      rintro eph' (⟨_, _, hw'⟩ | hsome)
      · rw [hw] at hw'
        cases hw'
        rfl
      · rw [(hc.control.written _ _ _ hw).1] at hsome
        cases hsome
    cases ph with
    | idle => exact absurd hw (h.client.1.writer _ _ _)
    | offered _ | answering _ _ _ | acked _ _ _ | opening _ _ _ =>
      exact ⟨Or.inr (congrArg some (hoffer _ h.client.1).symm), h.client.2⟩
    | switching _ _ _ => exact absurd hw (h.client.1.writer _ _ _)
  | @setInProgress type plaintext hw =>
    rw [append_toList_none]
    have hown := h.own
    rw [hw] at hown
    refine ⟨ph, h.of_client rfl rfl rfl rfl rfl hown ?_⟩
    exact client_of_writer h.client (by simp [hw]) (by simp) rfl rfl
  | @sendOwn type plaintext ok hw =>
    obtain ⟨_, _, _, _, heq⟩ | heq | heq | heq := ha
    all_goals cases heq
    have htype : ClientType type := by
      have hown := h.own
      rw [hw] at hown
      exact hown
    refine ⟨ph, ⟨h.version, h.v2, h.alive, trivial, ?_, h.host, h.keys, h.epochs,
      h.toHost.append_seal hS htype rfl rfl rfl, h.toClient⟩⟩
    exact client_of_writer h.client (by simp [hw]) (by simp) rfl rfl
  | skipped _ _ | refused _ _ _ | opened _ _ _ | unsolicited _ _ | crashed _ _ _ | derived _ _ _
  | switchKeys _ _ | quit _ => simp at ha

/-- The host's steps other than reading and answering. -/
theorem PhaseInv.sender_step (hS : S.AeadCorrect) (h : s.PhaseInv S ph) {a : HostConn.Act}
    {g : HostConn} {out : Option RawFrame} (heff : HostConn.Effect S s.host a g out)
    (ha : (∃ type plaintext, a = .send type plaintext true) ∨ a = .ping true ∨ a = .quit ∨
      a = .shutdown) :
    PhaseInv S ph { s with host := g, toClient := s.toClient ++ out.toList } := by
  cases heff with
  | dead _ =>
    rw [append_toList_none]
    exact h
  | @sent type plaintext ok halive htype =>
    obtain ⟨_, _, heq⟩ | heq | heq | heq := ha
    all_goals cases heq
    have hto := h.toClient.append_seal hS (g := { s.host with
      tx := s.host.tx.bump
      sealed := s.host.sealed ++ [s.host.tx.call type plaintext]
      alive := true }) htype rfl rfl
    refine { h with
      alive := fun hdead => (by cases hdead)
      host := ?_
      toHost := h.toHost
      toClient := ?_ }
    · cases ph with
      | idle | offered _ | answering _ _ _ | acked _ _ _ | opening _ _ _ | switching _ _ _ =>
        exact h.host
    · rw [h.version]
      exact hto
  | @pinged ok halive =>
    obtain ⟨_, _, heq⟩ | heq | heq | heq := ha
    all_goals cases heq
    refine { h with
      alive := fun hdead => (by cases hdead)
      host := ?_
      toHost := h.toHost
      toClient := h.toClient.append_clear rfl }
    cases ph with
    | idle | offered _ | answering _ _ _ | acked _ _ _ | opening _ _ _ | switching _ _ _ =>
      exact h.host
  | quit hr =>
    rw [append_toList_none]
    exact h.hostQuit hr
  | shutdown hr =>
    rw [append_toList_none]
    refine h.of_host rfl rfl rfl rfl rfl (fun _ => hr) ?_
    cases ph with
    | idle | offered _ | answering _ _ _ | acked _ _ _ | opening _ _ _ | switching _ _ _ =>
      exact h.host
  | ponged _ _ | broke _ _ | skipped _ _ _ _ | refused _ _ _ | opened _ _ _ | ackDead _ _
  | ackFailed _ _ | switched _ _ => simp at ha

/-- A step of the client that does not read. -/
theorem Inv.of_writer (hS : S.AeadCorrect) (h : s.Inv S) {a : Connection.Act} {s' : Session}
    (hstep : s.clientStep S a = some s') (hdraws : s.client.Draws S a)
    (ha : (∃ type plaintext now eph, a = .acquire type plaintext now eph true) ∨ a = .storeEph ∨
      a = .setInProgress ∨ a = .sendOwn true) : s'.Inv S := by
  obtain ⟨ph, hph⟩ := h.phase
  obtain ⟨c, out, hc, rfl⟩ := clientStep_eq_some hstep
  have heff := Connection.effect_of_step S hc
  exact ⟨h.client.step heff hdraws, hph.writer_step hS h.client heff ha⟩

/-- A step of the host that does not read or answer. -/
theorem Inv.of_sender (hS : S.AeadCorrect) (h : s.Inv S) {a : HostConn.Act} {s' : Session}
    (hstep : s.hostStep S a = some s')
    (ha : (∃ type plaintext, a = .send type plaintext true) ∨ a = .ping true ∨ a = .quit ∨
      a = .shutdown) : s'.Inv S := by
  obtain ⟨ph, hph⟩ := h.phase
  obtain ⟨g, out, hg, rfl⟩ := hostStep_eq_some hstep
  exact ⟨h.client, ph, hph.sender_step hS (HostConn.effect_of_step S hg) ha⟩

theorem Inv.of_clientQuit (h : s.Inv S) {s' : Session}
    (hstep : s.clientStep S .quit = some s') : s'.Inv S := by
  obtain ⟨ph, hph⟩ := h.phase
  obtain ⟨c, out, hc, rfl⟩ := clientStep_eq_some hstep
  have hinv := h.client.step (Connection.effect_of_step S hc) trivial
  obtain ⟨hr, rfl, rfl⟩ := Connection.step_quit S hc
  rw [append_toList_none]
  exact ⟨hinv, ph, hph.clientQuit hr⟩

/-- **Every step keeps the invariant**, when the reader takes the ephemeral only after it has been
stored. -/
theorem Inv.step (hS : S.AeadCorrect) (hkx : S.KxAgree) (h : s.Inv S) {a : Act} {s' : Session}
    (hstep : s.Step S a s') (hguard : s.OfferStored a) : s'.Inv S := by
  obtain ⟨hdraws, hstep⟩ := hstep
  obtain ⟨ph, hph⟩ := h.phase
  cases a with
  | acquire type plaintext now eph => exact h.of_writer hS hstep hdraws (Or.inl ⟨_, _, _, _, rfl⟩)
  | storeEph => exact h.of_writer hS hstep trivial (Or.inr (Or.inl rfl))
  | setInProgress => exact h.of_writer hS hstep trivial (Or.inr (Or.inr (Or.inl rfl)))
  | sendOwn => exact h.of_writer hS hstep trivial (Or.inr (Or.inr (Or.inr rfl)))
  | clientReceive =>
    simp only [Session.step] at hstep
    cases hq : s.toClient with
    | nil => simp [hq] at hstep
    | cons f rest =>
      simp only [hq] at hstep
      by_cases hread : Readable s.client.v2 f
      · rw [if_pos hread] at hstep
        obtain ⟨c, out, hc, rfl⟩ := clientStep_eq_some hstep
        have hinv := h.client.step (Connection.effect_of_step S hc) trivial
        obtain ⟨hr, rfl, rfl⟩ := Connection.step_receive S hc
        rw [append_toList_none]
        exact ⟨hinv, hph.clientReceive hr hq⟩
      · rw [if_neg hread] at hstep
        exact h.of_clientQuit hstep
  | swapEph =>
    obtain ⟨c, out, hc, rfl⟩ := clientStep_eq_some hstep
    have hinv := h.client.step (Connection.effect_of_step S hc) trivial
    obtain ⟨serverEph, hr, rfl, rfl⟩ := Connection.step_swapEph S hc
    obtain ⟨eph, hostEph, nk, -, -, -, -, hph'⟩ :=
      hph.swapEph hr (Writer.ne_of_offering (hguard rfl))
    rw [append_toList_none]
    exact ⟨hinv, _, hph'⟩
  | switchKeys now =>
    obtain ⟨c, out, hc, rfl⟩ := clientStep_eq_some hstep
    have hinv := h.client.step (Connection.effect_of_step S hc) trivial
    obtain ⟨eph, nk, hr, hw, rfl, rfl⟩ := Connection.step_switchKeys S hc
    rw [append_toList_none]
    exact ⟨hinv, _, hph.switchKeys hr hw now⟩
  | clientQuit => exact h.of_clientQuit hstep
  | hostSend type plaintext => exact h.of_sender hS hstep (Or.inl ⟨_, _, rfl⟩)
  | ping => exact h.of_sender hS hstep (Or.inr (Or.inl rfl))
  | hostReceive eph =>
    simp only [Session.step] at hstep
    simp only [Draws] at hdraws
    cases hq : s.toHost with
    | nil => simp [hq] at hstep
    | cons f rest =>
      simp only [hq] at hstep hdraws
      by_cases hread : Readable s.host.v2 f
      · rw [if_pos hread] at hstep
        obtain ⟨g, out, hg, rfl⟩ := hostStep_eq_some hstep
        obtain ⟨hr, heq⟩ := HostConn.step_receive S hg
        obtain ⟨ph', hph'⟩ := hph.hostReceive hkx h.client hr hq hdraws
        rw [heq] at hph'
        exact ⟨h.client, ph', hph'⟩
      · rw [if_neg hread] at hstep
        exact h.of_sender hS hstep (Or.inr (Or.inr (Or.inl rfl)))
  | ackAndSwitch =>
    obtain ⟨g, out, hg, rfl⟩ := hostStep_eq_some hstep
    obtain ⟨eph, nk, hr, heq⟩ := HostConn.step_ackAndSwitch S hg
    obtain ⟨ph', hph'⟩ := hph.ackAndSwitch hS hr
    rw [heq] at hph'
    exact ⟨h.client, ph', hph'⟩
  | hostQuit => exact h.of_sender hS hstep (Or.inr (Or.inr (Or.inl rfl)))
  | shutdown => exact h.of_sender hS hstep (Or.inr (Or.inr (Or.inr rfl)))

theorem inv_start {clientEph hostEph : EphemeralKeyPair} {keys : SessionKeys}
    {clientIdentity hostIdentity : PublicKey} {version : UInt8} {rotation : RotationPolicy}
    {now : ℕ} (hpair : S.IsKxPair clientEph)
    (hkeys : S.kxClientSessionKeys clientEph hostEph.publicKey = some keys) :
    (start clientEph hostEph keys clientIdentity hostIdentity version rotation now).Inv S :=
  ⟨Connection.inv_start hpair hkeys, .idle,
    phaseInv_start S clientEph hostEph keys clientIdentity hostIdentity version rotation now⟩

theorem inv_of_run (hS : S.AeadCorrect) (hkx : S.KxAgree) {acts : List Act} {s' : Session}
    (hrun : Run (Guarded (Step S) OfferStored) s acts s') (h : s.Inv S) : s'.Inv S :=
  hrun.preserves h fun _ _ _ hinv hstep => hinv.step hS hkx hstep.1 hstep.2

/-! ### What the invariant says of a state -/

/-- Each reader opens the next sealed frame that is in flight to it. -/
structure OpensNext (S : Sodium) (s : Session) : Prop where
  client : ∀ f rest, s.client.reader = .running → s.toClient = f :: rest →
    isCleartext f.type = false → ∃ p, openChecked S s.client.v2 s.client.rx f = some p
  host : ∀ f rest, s.toHost = f :: rest →
    isCleartext f.type = false → ∃ p, openChecked S s.host.v2 s.host.rx f = some p

theorem PhaseInv.opensNext (h : s.PhaseInv S ph) : s.OpensNext S := by
  refine ⟨fun f rest hr hq hf => ?_, fun f rest hq hf => ?_⟩
  · obtain ⟨xs, rx', hstream, -⟩ := h.toClient
    rw [hq, Phase.clientRx_of_running h.client hr] at hstream
    exact hstream.head_opened hf
  · obtain ⟨xs, rx', hstream, -⟩ := h.toHost
    rw [hq] at hstream
    rw [h.version]
    exact hstream.head_opened hf

/-- No reader has failed: none saw an unsolicited ack, and no exception left a thread. -/
structure ReadersOk (s : Session) : Prop where
  solicited : s.client.reader ≠ .exited true
  client : s.client.reader ≠ .crashed
  host : s.host.reader ≠ .crashed

theorem PhaseInv.readersOk (h : s.PhaseInv S ph) : s.ReadersOk := by
  have hclient : s.client.reader ≠ .exited true ∧ s.client.reader ≠ .crashed := by
    have hidle : s.client.reader.Idle → s.client.reader ≠ .exited true ∧
        s.client.reader ≠ .crashed := by
      rintro (hr | hr) <;> simp [hr]
    cases ph with
    | idle | offered _ | answering _ _ _ | acked _ _ _ => exact hidle h.client.2
    | opening _ _ _ | switching _ _ _ => simp [h.client.2]
  have hhost : s.host.reader ≠ .crashed := by
    have hidle : s.host.reader.Idle → s.host.reader ≠ .crashed := by
      rintro (hr | hr) <;> simp [hr]
    cases ph with
    | idle | offered _ | acked _ _ _ | opening _ _ _ | switching _ _ _ => exact hidle h.host
    | answering _ _ _ => simp [show s.host.reader = _ from h.host]
  exact ⟨hclient.1, hclient.2, hhost⟩

end

end Session

/-- **Rotations survive** every interleaving in which the reader does not take `pending_eph` while
a sender is between the write of its REKEY and the store: the reader never finds an ack unsolicited,
an ack finds the ephemeral it answers and both sides derive the same keys, when the client has
switched both sides are on the new epoch, and neither side refuses a frame. -/
theorem rotation_survives (S : Sodium) (hS : S.AeadCorrect) (hkx : S.KxAgree)
    (clientEph hostEph : EphemeralKeyPair) (keys : SessionKeys)
    (clientIdentity hostIdentity : PublicKey) (version : UInt8) (rotation : RotationPolicy)
    (now : ℕ) (hpair : S.IsKxPair clientEph)
    (hkeys : S.kxClientSessionKeys clientEph hostEph.publicKey = some keys)
    (acts : List Session.Act) (s : Session)
    (hrun : Run (Guarded (Session.Step S) Session.OfferStored)
      (.start clientEph hostEph keys clientIdentity hostIdentity version rotation now) acts s) :
    s.ReadersOk ∧
    (∀ serverEph, s.client.reader = .ackOpened serverEph → s.client.writer.offering = false →
      ∃ eph nk, s.client.pendingEph = some eph ∧
        S.kxClientSessionKeys eph serverEph = some nk ∧ s.host.rx.pending = some nk.tx) ∧
    (∀ now' s', s.Step S (.switchKeys now') s' →
      s'.client.tx.epoch = s.client.tx.epoch + 1 ∧ s'.host.tx.epoch = s'.client.tx.epoch) ∧
    s.OpensNext S := by
  have hinv := Session.inv_of_run hS hkx hrun (Session.inv_start hpair hkeys)
  obtain ⟨ph, hph⟩ := hinv.phase
  refine ⟨hph.readersOk, ?_, ?_, hph.opensNext⟩
  · intro serverEph hr hw
    obtain ⟨eph, -, nk, -, hpending, hk, hrx, -⟩ := hph.swapEph hr (Writer.ne_of_offering hw)
    exact ⟨eph, _, hpending, hk, hrx⟩
  · rintro now' s' ⟨-, hstep⟩
    obtain ⟨c, out, hc, rfl⟩ := Session.clientStep_eq_some hstep
    obtain ⟨eph, nk, hr, hw, rfl, rfl⟩ := Connection.step_switchKeys S hc
    exact ⟨rfl, (hph.switchKeys hr hw now').epochs⟩

/-! ### The race -/

namespace RekeyRace

abbrev sodium : Sodium := .symbolic []

def ephemeral (b : UInt8) : EphemeralKeyPair := ⟨Block.fill 32 b, Block.fill 32 b⟩

/-- A v2 session with a rotation due at once. -/
def session : Session :=
  .start (ephemeral 1) (ephemeral 2) ⟨Block.fill 32 2, Block.fill 32 1⟩ (Block.fill 32 8)
    (Block.fill 32 9) 2 { interval := 1 } 0

/-- The whole exchange between the write of the REKEY and the store of its ephemeral. -/
def racing : List Session.Act :=
  [.acquire .request [7] 5 (ephemeral 3), .hostReceive (ephemeral 4), .ackAndSwitch,
    .clientReceive, .swapEph]

/-- The same exchange after the store. -/
def orderly : List Session.Act :=
  [.acquire .request [7] 5 (ephemeral 3), .storeEph, .hostReceive (ephemeral 4), .ackAndSwitch,
    .clientReceive, .swapEph, .setInProgress, .sendOwn, .switchKeys 5]

def raceEnd : Option Session := exec (Session.tryStep sodium) session racing

/-- A step that also checks the order of store and swap. -/
def guardedStep (s : Session) (a : Session.Act) : Option Session :=
  if s.OfferStored a then s.tryStep sodium a else none

def orderlyEnd : Option Session := exec guardedStep session orderly

theorem raceEnd_isSome : raceEnd.isSome = true := by decide +kernel

theorem orderlyEnd_isSome : orderlyEnd.isSome = true := by decide +kernel

theorem race_run : Run (Session.Step sodium) session racing (raceEnd.get raceEnd_isSome) :=
  (run_of_exec (Option.some_get raceEnd_isSome).symm).mono fun _ _ _ =>
    Session.step_of_tryStep sodium

theorem orderly_run : Run (Guarded (Session.Step sodium) Session.OfferStored) session orderly
    (orderlyEnd.get orderlyEnd_isSome) := by
  refine (run_of_exec (Option.some_get orderlyEnd_isSome).symm).mono fun s a s' h => ?_
  change guardedStep s a = some s' at h
  by_cases hg : s.OfferStored a
  · rw [guardedStep, if_pos hg] at h
    exact ⟨Session.step_of_tryStep sodium h, hg⟩
  · rw [guardedStep, if_neg hg] at h
    cases h

end RekeyRace

open RekeyRace in
/-- An honest session in which the reader takes the unsolicited-ack exit: the host has switched to
epoch 1, and the client is left in epoch 0 without a reader. -/
theorem rotation_race :
    Run (Session.Step sodium) session racing (raceEnd.get raceEnd_isSome) ∧
    (raceEnd.get raceEnd_isSome).client.reader = .exited true ∧
    (raceEnd.get raceEnd_isSome).client.tx.epoch = 0 ∧
    (raceEnd.get raceEnd_isSome).host.tx.epoch = 1 :=
  ⟨race_run, by decide +kernel, by decide +kernel, by decide +kernel⟩

open RekeyRace in
/-- In the orderly run both sides reach epoch 1 and read on. -/
theorem rotation_survives_orderly :
    (orderlyEnd.get orderlyEnd_isSome).client.tx.epoch = 1 ∧
    (orderlyEnd.get orderlyEnd_isSome).host.tx.epoch = 1 ∧
    (orderlyEnd.get orderlyEnd_isSome).ReadersOk ∧
    (orderlyEnd.get orderlyEnd_isSome).OpensNext sodium := by
  have h := rotation_survives sodium (Sodium.symbolic_aeadCorrect []) (Sodium.symbolic_kxAgree [])
    (ephemeral 1) (ephemeral 2) ⟨Block.fill 32 2, Block.fill 32 1⟩ (Block.fill 32 8)
    (Block.fill 32 9) 2 { interval := 1 } 0 (by decide) (by decide) orderly _ orderly_run
  exact ⟨by decide +kernel, by decide +kernel, h.1, h.2.2.2⟩

end Epx
