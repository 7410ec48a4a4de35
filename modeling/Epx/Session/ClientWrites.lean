import Epx.Session.Faultless
import Epx.Session.Integrity

/-!
# What a client puts on the wire

A client connection that writes to a transport whose writes may fail, and the host that reads from
it. The stream to the host is one of bytes: a write that fails may have put any part of its frame
there, and nothing keeps the transport from taking later frames.

The three writers of the host that clear `alive` on a failed write do not write without it. Nothing
that the client writes calls for a PONG, so what follows a failed write of the host is nothing, and
the stream to the client is one of frames.

`seal_and_send` does not look at `alive`, and a failed write clears nothing. So the frame after a
failed one is sealed with the next counter and written behind the part that is on the wire, and its
caller is told that it was sent. `client_writes_accepted` is about the runs where the transport
stays down once it has failed.

## Main definitions

* `ClientWire`, `ClientWire.Step` — both ends, with the bytes and frames between them
* `Accepts` — `read_frame` and `open_checked` take frames off a stream of bytes
* `ClientWire.AllOrNothing` — what was reported as sent is accepted, and nothing is after a failure
* `ClientWire.StaysDown` — a transport that has failed takes nothing more

## Main results

* `Sim` — a run follows a session without failures, as far as its whole frames go
* `ClientWire.Inv.step`, `client_writes_accepted`
-/

namespace Epx

open Codec Transition

namespace Connection

/-- What a `seal_and_send` was called with that returns true in this step. -/
def reports (c : Connection) : Act → List (FrameType × Bytes)
  | .sendOwn true =>
    match c.writer with
    | .ready type plaintext => [(type, plaintext)]
    | _ => []
  | _ => []

end Connection

/-- A client connection and its host. The bytes and frames between them are those that have not been
read yet. -/
structure ClientWire where
  conn : Connection
  host : HostConn
  toHost : Bytes := []
  toClient : List RawFrame := []
  /-- `Connection::alive`. -/
  alive : Bool := true
  /-- A write on the connection has failed. -/
  failed : Bool := false
  /-- What `seal_and_send` has returned true for. -/
  reported : List (FrameType × Bytes) := []
  /-- How often `get_or_connect` has returned the connection. -/
  handedOut : ℕ := 0
  deriving DecidableEq

namespace ClientWire

def start (clientEph hostEph : EphemeralKeyPair) (keys : SessionKeys)
    (clientIdentity hostIdentity : PublicKey) (version : UInt8) (rotation : RotationPolicy)
    (now : ℕ) : ClientWire :=
  { conn := .start clientEph ⟨keys, hostIdentity, version⟩ rotation now
    host := .start hostEph ⟨⟨keys.tx, keys.rx⟩, clientIdentity, version⟩ }

inductive Act where
  /-- A step of the client; `sent` is how many bytes of its frame a write puts on the wire that
  fails. -/
  | client (a : Connection.Act) (sent : ℕ)
  | host (a : HostConn.Act)
  /-- `conn->alive.store(false)` after the loop of the reader. -/
  | readerDone
  /-- `close_connection`. -/
  | close
  /-- `get_or_connect` for the service of the connection. -/
  | getOrConnect
  deriving DecidableEq

section

variable (S : Sodium)

/-- The bytes that a step of the client puts on the wire. -/
def transmits (s : ClientWire) (a : Connection.Act) (sent : ℕ) : Bytes :=
  match s.conn.outgoing S a with
  | none => []
  | some f => if a.ok then writeFrame s.conn.v2 f else (writeFrame s.conn.v2 f).take sent

/-- A step of the client writes a frame and the write fails. -/
def fails (s : ClientWire) (a : Connection.Act) : Bool :=
  (s.conn.outgoing S a).isSome && !a.ok

/-- The stream to the client after a step of the client, which reads from its front. -/
def clientInput (s : ClientWire) : Connection.Act → Option (List RawFrame)
  | .receive f =>
    match s.toClient with
    | [] => none
    | g :: rest => if g = f ∧ Readable s.conn.v2 f then some rest else none
  | _ => some s.toClient

/-- The stream to the host after a step of the host, which reads a frame from its front. -/
def hostInput (s : ClientWire) : HostConn.Act → Option Bytes
  | .receive f _ _ =>
    match readFrame s.host.v2 s.toHost with
    | none => none
    | some (g, rest) => if g = f then some rest else none
  | _ => some s.toHost

/-- The state after a step that leaves the client and the stream to it like this. -/
def afterClient (s : ClientWire) (a : Connection.Act) (sent : ℕ) (conn : Connection)
    (toClient : List RawFrame) : ClientWire :=
  { s with
    conn, toClient
    toHost := s.toHost ++ s.transmits S a sent
    failed := s.failed || s.fails S a
    reported := s.reported ++ s.conn.reports a }

/-- One step. -/
def step (s : ClientWire) : Act → Option ClientWire
  | .client a sent => do
    let toClient ← s.clientInput a
    let (conn, _) ← s.conn.step S a
    some (s.afterClient S a sent conn toClient)
  | .host a => do
    let toHost ← s.hostInput a
    let (host, out) ← s.host.step S a
    some { s with host, toHost, toClient := s.toClient ++ out.toList }
  | .readerDone =>
    match s.conn.reader with
    | .exited _ => some { s with alive := false }
    | _ => none
  | .close => some { s with alive := false }
  | .getOrConnect => some { s with handedOut := s.handedOut + if s.alive then 1 else 0 }

/-- Ephemerals are drawn freshly on both sides. -/
def Draws (s : ClientWire) : Act → Prop
  | .client a _ => s.conn.Draws S a
  | .host a => s.host.Draws S a
  | .readerDone | .close | .getOrConnect => True

instance [DecidablePred S.IsKxPair] (s : ClientWire) (a : Act) : Decidable (s.Draws S a) :=
  match a with
  | .client a _ => inferInstanceAs (Decidable (s.conn.Draws S a))
  | .host a => inferInstanceAs (Decidable (s.host.Draws S a))
  | .readerDone | .close | .getOrConnect => inferInstanceAs (Decidable True)

/-- The steps of both sides. -/
def Step (s : ClientWire) (a : Act) (s' : ClientWire) : Prop :=
  s.Draws S a ∧ s.step S a = some s'

end

end ClientWire

/-- From receive state `rx` the host reads and opens frames with these contents, one after another,
off a stream that starts with `bytes`. -/
inductive Accepts (S : Sodium) (v2 : Bool) : RxState → Bytes → List (FrameType × Bytes) → Prop
  | nil {rx : RxState} {bytes : Bytes} : Accepts S v2 rx bytes []
  | cons {rx rx' : RxState} {bytes rest o : Bytes} {f : RawFrame} {cs : List (FrameType × Bytes)} :
      readFrame v2 bytes = some (f, rest) → openChecked S v2 rx f = some (o, rx') →
      Accepts S v2 rx' rest cs → Accepts S v2 rx bytes ((f.type, o) :: cs)

/-- The frames that `seal_and_send` is called for; a REKEY is one that it sends by itself. -/
def calledFor (cs : List (FrameType × Bytes)) : List (FrameType × Bytes) :=
  cs.filter fun c => c.1 ≠ .rekey

namespace ClientWire

/-- What has been reported as sent comes first in what the host has accepted and will accept off the
wire; and once a write has failed, in no run of `step` is anything more reported, nor is the
connection handed out. -/
def AllOrNothing (S : Sodium) (step : ClientWire → Act → ClientWire → Prop) (s : ClientWire) :
    Prop :=
  (∃ unread, Accepts S s.host.v2 s.host.rx s.toHost unread ∧
    s.reported <+: calledFor (s.host.opened.map Opened.content ++ unread)) ∧
  (s.failed = true → ∀ more s', Run step s more s' →
    s'.reported = s.reported ∧ s'.handedOut = s.handedOut)

/-- A write succeeds only on a connection where none has failed, and with a frame that `read_frame`
takes; and when a write has failed, `get_or_connect` is not called before `alive` is cleared. -/
def StaysDown (S : Sodium) (s : ClientWire) : Act → Prop
  | .client a _ => ∀ f, s.conn.outgoing S a = some f → a.ok = true →
      s.failed = false ∧ Readable s.conn.v2 f
  | .getOrConnect => s.failed = true → s.alive = false
  | .host _ | .readerDone | .close => True

section

variable {S : Sodium} {s s' : ClientWire}

theorem afterClient_toHost (a : Connection.Act) (sent : ℕ) (c : Connection) (rest : List RawFrame) :
    (s.afterClient S a sent c rest).toHost = s.toHost ++ s.transmits S a sent := rfl

theorem afterClient_failed (a : Connection.Act) (sent : ℕ) (c : Connection) (rest : List RawFrame) :
    (s.afterClient S a sent c rest).failed = (s.failed || s.fails S a) := rfl

theorem afterClient_reported (a : Connection.Act) (sent : ℕ) (c : Connection)
    (rest : List RawFrame) :
    (s.afterClient S a sent c rest).reported = s.reported ++ s.conn.reports a := rfl

theorem step_client {a : Connection.Act} {sent : ℕ}
    (h : s.step S (.client a sent) = some s') :
    ∃ rest c out, s.clientInput a = some rest ∧ s.conn.step S a = some (c, out) ∧
      s' = s.afterClient S a sent c rest := by
  obtain ⟨rest, hrest, h⟩ := Option.bind_eq_some_iff.mp h
  obtain ⟨⟨c, out⟩, hc, h⟩ := Option.bind_eq_some_iff.mp h
  cases h
  exact ⟨rest, c, out, hrest, hc, rfl⟩

theorem step_host {a : HostConn.Act} (h : s.step S (.host a) = some s') :
    ∃ rest g out, s.hostInput a = some rest ∧ s.host.step S a = some (g, out) ∧
      s' = { s with host := g, toHost := rest, toClient := s.toClient ++ out.toList } := by
  obtain ⟨rest, hrest, h⟩ := Option.bind_eq_some_iff.mp h
  obtain ⟨⟨g, out⟩, hg, h⟩ := Option.bind_eq_some_iff.mp h
  cases h
  exact ⟨rest, g, out, hrest, hg, rfl⟩

end

end ClientWire

/-! ### What is sealed and what is reported -/

namespace Connection

variable {S : Sodium} {c c' : Connection} {a : Act} {out : Option RawFrame}

/-- A sender seals a REKEY of its own, or the frame it was called for. -/
theorem calledFor_sealed (heff : Effect S c a c' out) (hown : c.writer.Own)
    (hok : c.outgoing S a = none ∨ a.ok = true) :
    calledFor (c'.sealed.map SealCall.content)
      = calledFor (c.sealed.map SealCall.content) ++ c.reports a := by
  cases heff with
  | @offered type plaintext now eph ok _ _ _ =>
    change calledFor ((c.sealed ++ [_]).map _) = _
    simp [calledFor, SealCall.content, TxState.call, reports]
  | @sendOwn type plaintext ok hw =>
    have htype : type ≠ .rekey := by
      rw [hw] at hown
      rcases hown with rfl | rfl <;> decide
    cases ok with
    | false => simp [outgoing, hw, Act.ok] at hok
    | true =>
      change calledFor ((c.sealed ++ [_]).map _) = _
      simp [calledFor, SealCall.content, TxState.call, reports, hw, htype]
  | ready _ _ _ | storeEph _ | setInProgress _ | skipped _ _ | refused _ _ _ | opened _ _ _
  | unsolicited _ _ | crashed _ _ _ | derived _ _ _ | switchKeys _ _ | quit _ =>
    exact (List.append_nil _).symm

theorem reports_of_reader (r : ClientReader) (d : Connection) (a : Act) :
    ({ d with reader := r } : Connection).reports a = d.reports a := by
  cases a with
  | sendOwn ok => cases ok <;> rfl
  | _ => rfl

end Connection

/-! ### The session that a run follows -/

/-- A frame that `read_frame` gives back as it was written, and that is sealed. -/
structure Sendable (v2 : Bool) (f : RawFrame) : Prop where
  readable : Readable v2 f
  epoch : v2 = false → f.epoch = 0
  sealed : isCleartext f.type = false

/-- The bytes of frames that were written one after another. -/
def written (v2 : Bool) (fs : List RawFrame) : Bytes := (fs.map (writeFrame v2)).flatten

theorem written_append (v2 : Bool) (fs gs : List RawFrame) :
    written v2 (fs ++ gs) = written v2 fs ++ written v2 gs := by
  simp [written]

theorem readFrame_written {v2 : Bool} {f : RawFrame} (hf : Sendable v2 f) (fs : List RawFrame)
    (torn : Bytes) :
    readFrame v2 (written v2 (f :: fs) ++ torn) = some (f, written v2 fs ++ torn) := by
  rw [written, List.map_cons, List.flatten_cons, List.append_assoc]
  exact readFrame_writeFrame v2 f _ hf.readable hf.epoch

/-- The frames of a stream are accepted off the bytes they were written as. -/
theorem Stream.accepts {S : Sodium} {v2 : Bool} {P : FrameType → Prop} {o : Option Special}
    {rx rx' : RxState} {fs : List RawFrame} {xs : List SealCall}
    (h : Stream S v2 P o rx fs xs rx') (hfs : ∀ f ∈ fs, Sendable v2 f)
    (harm : ∀ sp, o = some sp → sp.arm = none) (torn : Bytes) :
    Accepts S v2 rx (written v2 fs ++ torn) (xs.map SealCall.content) := by
  induction h with
  | nil => exact .nil
  | clear hc _ _ =>
    have hsealed := (hfs _ List.mem_cons_self).sealed
    rw [hc] at hsealed
    cases hsealed
  | own _ hopen _ ih =>
    obtain ⟨hf, hrest⟩ := List.forall_mem_cons.mp hfs
    exact .cons (readFrame_written hf _ torn) hopen (ih hrest harm)
  | @special sp rx rx₁ _ x fs xs _ _ _ hopen _ ih =>
    obtain ⟨hf, hrest⟩ := List.forall_mem_cons.mp hfs
    have hreact : sp.react rx₁ = rx₁ := by rw [Special.react, harm sp rfl]
    rw [hreact] at ih
    exact .cons (readFrame_written hf _ torn) hopen (ih hrest fun sp hsp => by cases hsp)

/-- A run follows a session in which no write fails. Until a write of the client has failed, the two
clients go together; after that the session's client does nothing, and what the host has not read of
its frames is on the wire ahead of what was torn. -/
structure Sim (S : Sodium) (s : ClientWire) (v : Session) : Prop where
  inv : v.Inv S
  unrotated : v.client.Unrotated
  host : Mirrors s.host v.host
  sendable : ∀ f ∈ v.toHost, Sendable v.client.v2 f
  toHost : ∃ torn, s.toHost = written v.client.v2 v.toHost ++ torn ∧ (s.failed = false → torn = [])
  reported : s.reported = calledFor (v.client.sealed.map SealCall.content)
  client : s.failed = false → Lags s.conn v.client ∧ s.toClient = v.toClient

/-- All that was reported has been accepted, and a write has failed since. -/
structure Settled (s : ClientWire) : Prop where
  failed : s.failed = true
  reported : s.reported <+: calledFor (s.host.opened.map Opened.content)

section

variable {S : Sodium} {s : ClientWire} {v : Session}

/-- What a sender hands over is sealed, in epoch 0 of a v1 session. -/
theorem Connection.sendable_of_outgoing {c : Connection} {a : Connection.Act} {f : RawFrame}
    (h : c.outgoing S a = some f) (hown : c.writer.Own) (hunrotated : c.Unrotated)
    (hread : Readable c.v2 f) : Sendable c.v2 f := by
  obtain ⟨type, plaintext, rfl, htype⟩ := outgoing_eq_some h
  refine ⟨hread, fun hv => (hunrotated hv).1, ?_⟩
  change isCleartext type = false
  rcases htype with rfl | hw
  · rfl
  · rw [hw] at hown
    rcases hown with rfl | rfl <;> rfl

namespace Sim

/-- A step of the client with which the session's client goes along. -/
theorem of_client (h : Sim S s v) (hfailed : s.failed = false) {a : Connection.Act} {sent : ℕ}
    {c d : Connection} {out : Option RawFrame} {rest : List RawFrame}
    (hlags : Lags s.conn v.client) (hstep : v.client.step S a = some (d, out))
    (hok : s.conn.outgoing S a = none ∨ a.ok = true)
    (hread : ∀ f, s.conn.outgoing S a = some f → Readable s.conn.v2 f)
    (hinv : Session.Inv S
      { v with client := d, toHost := v.toHost ++ out.toList, toClient := rest })
    (hlags' : Lags c d) :
    Sim S (s.afterClient S a sent c rest)
      { v with client := d, toHost := v.toHost ++ out.toList, toClient := rest } := by
  obtain ⟨r, hconn, -⟩ := hlags
  have hv2 : s.conn.v2 = v.client.v2 := by rw [hconn]; rfl
  have hout : s.conn.outgoing S a = v.client.outgoing S a := by
    rw [hconn, Connection.outgoing_of_reader]
  have hreports : s.conn.reports a = v.client.reports a := by
    rw [hconn, Connection.reports_of_reader]
  have heff := Connection.effect_of_step S hstep
  have hd2 : d.v2 = v.client.v2 := Connection.v2_of_effect heff
  rw [hout] at hok
  have houtgoing := Connection.out_of_step hstep hok
  have htransmits : s.transmits S a sent = written v.client.v2 out.toList := by
    rw [ClientWire.transmits, hout, hv2, ← houtgoing]
    cases hcase : out with
    | none => rfl
    | some f =>
      have hok' : a.ok = true := hok.resolve_left (by rw [← houtgoing, hcase]; simp)
      simp [hok', written]
  have hfails : s.fails S a = false := by
    rw [ClientWire.fails, hout]
    rcases hok with hnone | hok
    · simp [hnone]
    · simp [hok]
  obtain ⟨torn, hwire, htorn⟩ := h.toHost
  refine ⟨hinv, h.unrotated.step heff, h.host, ?_, ⟨[], ?_, fun _ => rfl⟩, ?_,
    fun _ => ⟨hlags', rfl⟩⟩
  · intro f hf
    rw [hd2]
    rcases List.mem_append.mp hf with hf | hf
    · exact h.sendable f hf
    · have hsome : v.client.outgoing S a = some f := by
        rw [← houtgoing]
        exact Option.mem_toList.mp hf
      refine Connection.sendable_of_outgoing hsome h.inv.own h.unrotated ?_
      rw [← hv2]
      exact hread f (hout.trans hsome)
  · rw [hd2, ClientWire.afterClient_toHost, htransmits, hwire, htorn hfailed, List.append_nil,
      List.append_nil, written_append]
  · rw [ClientWire.afterClient_reported, h.reported, hreports]
    exact (Connection.calledFor_sealed heff h.inv.own hok).symm

/-- A step of a sender whose write, if any, succeeds. -/
theorem of_sends (hS : S.AeadCorrect) (h : Sim S s v) (hfailed : s.failed = false)
    {a : Connection.Act} {sent : ℕ} {c : Connection} {out : Option RawFrame}
    (hsends : a.sends = true) (hstep : s.conn.step S a = some (c, out)) (hdraws : s.conn.Draws S a)
    (hok : s.conn.outgoing S a = none ∨ a.ok = true)
    (hread : ∀ f, s.conn.outgoing S a = some f → Readable s.conn.v2 f) :
    ∃ v', Sim S (s.afterClient S a sent c s.toClient) v' := by
  obtain ⟨hlags, hto⟩ := h.client hfailed
  obtain ⟨r, hconn, hr⟩ := hlags
  have hok' : v.client.outgoing S a = none ∨ a.ok = true := by
    rwa [hconn, Connection.outgoing_of_reader] at hok
  rw [hconn] at hstep
  obtain ⟨d, hd, hreader, rfl⟩ := Connection.exists_step_of_sends hsends hstep
  refine ⟨_, of_client h hfailed ⟨r, hconn, hr⟩ hd hok hread ?_ ⟨r, rfl, ?_⟩⟩
  · have hsucceeding := Connection.step_succeeding hd hok'
    have hv : v.clientStep S a.succeeding
        = some { v with client := d, toHost := v.toHost ++ out.toList } := by
      rw [Session.clientStep, hsucceeding]
      rfl
    rw [hto]
    refine h.inv.of_writer hS hv ?_ ?_
    · rw [hconn] at hdraws
      cases a with
      | acquire _ _ _ _ _ => exact hdraws
      | _ => trivial
    · cases a with
      | acquire type plaintext now eph ok => exact Or.inl ⟨_, _, _, _, rfl⟩
      | storeEph => exact Or.inr (Or.inl rfl)
      | setInProgress => exact Or.inr (Or.inr (Or.inl rfl))
      | sendOwn ok => exact Or.inr (Or.inr (Or.inr rfl))
      | receive _ | swapEph | switchKeys _ | quit => cases hsends
  · rw [hreader]
    exact hr

/-- The reader comes for the ephemeral before it is stored, and leaves its loop; the session's
reader waits. -/
theorem of_unsolicited (h : Sim S s v) (hfailed : s.failed = false) {c : Connection}
    {out : Option RawFrame} {sent : ℕ} (hstep : v.client.step S .swapEph = some (c, out))
    (hoffering : v.client.writer.offering = true) :
    Sim S (s.afterClient S .swapEph sent c s.toClient) v := by
  have hpending : v.client.pendingEph = none := by
    cases hw : v.client.writer with
    | rekeyWritten eph type plaintext => exact (h.inv.client.control.written _ _ _ hw).1
    | free | ephStored _ _ | ready _ _ =>
      rw [hw] at hoffering
      cases hoffering
  have hswap : c = { v.client with reader := .exited true } := by
    cases Connection.effect_of_step S hstep with
    | unsolicited _ _ => rfl
    | crashed _ hp _ | derived _ hp _ =>
      rw [hpending] at hp
      cases hp
  have hafter : s.afterClient S .swapEph sent c s.toClient = { s with conn := c } := by
    simp [ClientWire.afterClient, ClientWire.transmits, ClientWire.fails, Connection.outgoing,
      Connection.reports]
  rw [hafter, hswap]
  exact ⟨h.inv, h.unrotated, h.host, h.sendable, h.toHost, h.reported,
    fun _ => ⟨⟨_, rfl, Or.inr rfl⟩, (h.client hfailed).2⟩⟩

/-- A step of the client's reader. -/
theorem of_reads (hS : S.AeadCorrect) (hkx : S.KxAgree) (h : Sim S s v) (hfailed : s.failed = false)
    {a : Connection.Act} {sent : ℕ} {c : Connection} {out : Option RawFrame}
    {rest : List RawFrame} (hsends : a.sends = false) (hinput : s.clientInput a = some rest)
    (hstep : s.conn.step S a = some (c, out)) :
    ∃ v', Sim S (s.afterClient S a sent c rest) v' := by
  obtain ⟨hlags, hto⟩ := h.client hfailed
  have hconn := hlags.eq_of_reader (Connection.reader_of_reads hsends hstep)
  have hnone := Connection.outgoing_of_reads (S := S) hsends s.conn
  rw [hconn] at hstep
  have hgo : ∀ act, v.step S act = some { v with
        client := c, toHost := v.toHost ++ out.toList, toClient := rest } →
      v.Draws S act → v.OfferStored act → ∃ v', Sim S (s.afterClient S a sent c rest) v' := by
    intro act hv hdraws hstored
    refine ⟨_, of_client h hfailed hlags hstep (Or.inl hnone) (fun f hf => ?_)
      (h.inv.step hS hkx ⟨hdraws, hv⟩ hstored) (.refl c)⟩
    rw [hnone] at hf
    cases hf
  cases a with
  | receive f =>
    obtain ⟨hr, rfl, rfl⟩ := Connection.step_receive S hstep
    rw [ClientWire.clientInput, hto, hconn] at hinput
    cases hq : v.toClient with
    | nil => simp [hq] at hinput
    | cons g fs =>
      simp only [hq] at hinput
      obtain ⟨⟨rfl, hreadable⟩, heq⟩ := Option.ite_none_right_eq_some.mp hinput
      cases heq
      refine hgo .clientReceive ?_ trivial fun heq => (by cases heq)
      simp only [Session.step, hq, if_pos hreadable, Session.clientStep, hstep, Option.map_some]
  | swapEph =>
    cases hinput
    cases hoffering : v.client.writer.offering with
    | false =>
      refine hgo .swapEph ?_ trivial fun _ => hoffering
      simp only [Session.step, Session.clientStep, hstep, Option.map_some, hto]
    | true => exact ⟨v, h.of_unsolicited hfailed hstep hoffering⟩
  | switchKeys now =>
    cases hinput
    refine hgo (.switchKeys now) ?_ trivial fun heq => (by cases heq)
    simp only [Session.step, Session.clientStep, hstep, Option.map_some, hto]
  | quit =>
    cases hinput
    refine hgo .clientQuit ?_ trivial fun heq => (by cases heq)
    simp only [Session.step, Session.clientStep, hstep, Option.map_some, hto]
  | acquire _ _ _ _ _ | storeEph | setInProgress | sendOwn _ => cases hsends

/-- A step of the client with or after a write that fails. -/
theorem of_failed (h : Sim S s v) {a : Connection.Act} {sent : ℕ} {c : Connection}
    {rest : List RawFrame} (hfailed : (s.failed || s.fails S a) = true)
    (hreports : s.conn.reports a = []) :
    Sim S (s.afterClient S a sent c rest) v := by
  obtain ⟨torn, hwire, -⟩ := h.toHost
  have hno : (s.failed || s.fails S a) = false → False := by simp [hfailed]
  refine ⟨h.inv, h.unrotated, h.host, h.sendable, ⟨torn ++ s.transmits S a sent, ?_,
    fun hf => (hno hf).elim⟩, ?_, fun hf => (hno hf).elim⟩
  · rw [ClientWire.afterClient_toHost, hwire, List.append_assoc]
  · rw [ClientWire.afterClient_reported, hreports, List.append_nil, h.reported]

end Sim

/-- Nothing is reported with or after a write that fails, when the transport stays down. -/
theorem ClientWire.StaysDown.reports_nil {a : Connection.Act} {sent : ℕ}
    (h : s.StaysDown S (.client a sent)) (hfailed : (s.failed || s.fails S a) = true) :
    s.conn.reports a = [] := by
  cases a with
  | sendOwn ok =>
    cases ok with
    | false => rfl
    | true =>
      cases hw : s.conn.writer with
      | ready type plaintext =>
        have hout : s.conn.outgoing S (.sendOwn true)
            = some ((s.conn.tx.call type plaintext).frame S s.conn.v2) := by
          simp only [Connection.outgoing, hw]
        obtain ⟨hup, -⟩ := h _ hout rfl
        simp [hup, ClientWire.fails, Connection.Act.ok] at hfailed
      | free | rekeyWritten _ _ _ | ephStored _ _ => simp [Connection.reports, hw]
  | acquire _ _ _ _ _ | storeEph | setInProgress | receive _ | swapEph | switchKeys _ | quit => rfl

namespace Sim

/-- A step of the host that reads nothing. -/
theorem of_host (hS : S.AeadCorrect) (hkx : S.KxAgree) (h : Sim S s v) {a : HostConn.Act}
    {g : HostConn} {out : Option RawFrame} (hstep : s.host.step S a = some (g, out))
    (hread : ∀ f eph ok, a ≠ .receive f eph ok) :
    ∃ v', Sim S { s with host := g, toClient := s.toClient ++ out.toList } v' := by
  rcases h.host.step (HostConn.effect_of_step S hstep) hread with
    ⟨rfl, hmirrors⟩ | ⟨b, g', hb, hok, hread', hmirrors⟩
  · refine ⟨v, h.inv, h.unrotated, hmirrors, h.sendable, h.toHost, h.reported, fun hfailed => ?_⟩
    simpa using h.client hfailed
  · have hv : v.hostStep S b
        = some { v with host := g', toClient := v.toClient ++ out.toList } := by
      rw [Session.hostStep, hb]
      rfl
    refine ⟨_, h.inv.of_hostStep hS hkx hv hok hread', h.unrotated, hmirrors, h.sendable, h.toHost,
      h.reported, fun hfailed => ?_⟩
    obtain ⟨hlags, hto⟩ := h.client hfailed
    exact ⟨hlags, by rw [hto]⟩

/-- The host reads the next frame of the session. -/
theorem of_hostReads (hS : S.AeadCorrect) (hkx : S.KxAgree) (h : Sim S s v) {f : RawFrame}
    {eph : EphemeralKeyPair} {ok : Bool} {g : HostConn} {out : Option RawFrame} {rest : Bytes}
    {fs : List RawFrame} (hq : v.toHost = f :: fs)
    (hrest : readFrame s.host.v2 s.toHost = some (f, rest))
    (hstep : s.host.step S (.receive f eph ok) = some (g, out))
    (hdraws : s.host.Draws S (.receive f eph ok)) :
    ∃ v', Sim S { s with host := g, toHost := rest, toClient := s.toClient ++ out.toList } v' := by
  obtain ⟨ph, hph⟩ := h.inv.phase
  have hv2 : s.host.v2 = v.client.v2 := h.host.v2.trans hph.version
  have hf : Sendable v.client.v2 f := h.sendable f (by rw [hq]; exact List.mem_cons_self)
  have hping : f.type ≠ .ping := by
    intro heq
    have hsealed := hf.sealed
    rw [heq] at hsealed
    cases hsealed
  obtain ⟨rfl, g', hg', hmirrors⟩ := h.host.receive hstep hping
  obtain ⟨torn, hwire, htorn⟩ := h.toHost
  have htail : rest = written v.client.v2 fs ++ torn := by
    rw [hv2, hwire, hq, readFrame_written hf] at hrest
    cases hrest
    rfl
  have hv : v.Step S (.hostReceive eph) { v with host := g', toHost := fs } := by
    constructor
    · simp only [Session.Draws, hq]
      intro hrekey
      rw [← h.host.drawn]
      exact hdraws hrekey
    · have hreadable : Readable v.host.v2 f := by
        rw [hph.version]
        exact hf.readable
      simp only [Session.step, hq, if_pos hreadable, Session.hostStep, hg', Option.map_some,
        Option.toList_none, List.append_nil]
  refine ⟨_, h.inv.step hS hkx hv fun heq => (by cases heq), h.unrotated, hmirrors, ?_,
    ⟨torn, htail, htorn⟩, h.reported, fun hfailed => ?_⟩
  · intro f' hf'
    exact h.sendable f' (by rw [hq]; exact List.mem_cons_of_mem _ hf')
  · simpa using h.client hfailed

/-- Everything that was written has been accepted once the session has nothing in flight. -/
theorem reported_of_nil (h : Sim S s v) (hq : v.toHost = []) :
    s.reported = calledFor (s.host.opened.map Opened.content) := by
  obtain ⟨ph, hph⟩ := h.inv.phase
  obtain ⟨xs, rx', hstream, -, hlog⟩ := hph.toHost
  rw [hq] at hstream
  generalize ph.rekey v.client.tx.epoch = o at hstream
  cases hstream with
  | nil => rw [h.reported, hlog, h.host.opened, List.map_nil, List.append_nil]

end Sim

/-! ### Runs -/

theorem HostConn.opened_mono {h h' : HostConn} {a : HostConn.Act} {out : Option RawFrame}
    (heff : HostConn.Effect S h a h' out) : h.opened <+: h'.opened := by
  cases heff with
  | opened _ _ _ => exact List.prefix_append _ _
  | dead _ | sent _ _ | pinged _ | ponged _ _ | broke _ _ | skipped _ _ _ _ | refused _ _ _
  | ackDead _ _ | ackFailed _ _ | switched _ _ | quit _ | shutdown _ => exact List.prefix_refl _

theorem calledFor_mono {cs ds : List (FrameType × Bytes)} (h : cs <+: ds) :
    calledFor cs <+: calledFor ds := h.filter _

variable {s' : ClientWire}

theorem Settled.of_host (h : Settled s) {a : HostConn.Act} {g : HostConn} {out : Option RawFrame}
    (hstep : s.host.step S a = some (g, out)) (rest : Bytes) (toClient : List RawFrame) :
    Settled { s with host := g, toHost := rest, toClient := toClient } := by
  have hmono := HostConn.opened_mono (HostConn.effect_of_step S hstep)
  exact ⟨h.failed, h.reported.trans (calledFor_mono (hmono.map _))⟩

/-- A run follows a session, or all that was reported has been accepted. -/
def ClientWire.Inv (S : Sodium) (s : ClientWire) : Prop := (∃ v, Sim S s v) ∨ Settled s

/-- The client's steps, with the transport down or not. -/
theorem ClientWire.Inv.client_step (hS : S.AeadCorrect) (hkx : S.KxAgree) (h : s.Inv S)
    {a : Connection.Act} {sent : ℕ} (hstep : s.Step S (.client a sent) s')
    (hdown : s.StaysDown S (.client a sent)) : s'.Inv S := by
  obtain ⟨hdraws, hstep⟩ := hstep
  obtain ⟨rest, c, out, hinput, hc, rfl⟩ := step_client hstep
  cases hfailed : (s.failed || s.fails S a) with
  | true =>
    have hreports := hdown.reports_nil hfailed
    rcases h with ⟨v, hsim⟩ | hsettled
    · exact Or.inl ⟨v, hsim.of_failed hfailed hreports⟩
    · refine Or.inr ⟨hfailed, ?_⟩
      rw [afterClient_reported, hreports, List.append_nil]
      exact hsettled.reported
  | false =>
    obtain ⟨hup, hfails⟩ := Bool.or_eq_false_iff.mp hfailed
    rcases h with ⟨v, hsim⟩ | hsettled
    swap
    · have := hsettled.failed
      rw [hup] at this
      cases this
    have hok : s.conn.outgoing S a = none ∨ a.ok = true := by
      cases hout : s.conn.outgoing S a with
      | none => exact Or.inl rfl
      | some f =>
        rw [fails, hout] at hfails
        exact Or.inr (by simpa using hfails)
    cases hsends : a.sends with
    | true =>
      have hrest : s.toClient = rest := by
        cases a with
        | receive _ => cases hsends
        | _ => exact Option.some.inj hinput
      subst hrest
      refine Or.inl (hsim.of_sends hS hup hsends hc hdraws hok fun f hf => ?_)
      have hok' : a.ok = true := hok.resolve_left (by rw [hf]; simp)
      exact (hdown f hf hok').2
    | false => exact Or.inl (hsim.of_reads hS hkx hup hsends hinput hc)

/-- The host's steps. When it reads past the last whole frame, all that was reported has been
accepted. -/
theorem ClientWire.Inv.host_step (hS : S.AeadCorrect) (hkx : S.KxAgree) (h : s.Inv S)
    {a : HostConn.Act} (hstep : s.Step S (.host a) s') : s'.Inv S := by
  obtain ⟨hdraws, hstep⟩ := hstep
  obtain ⟨rest, g, out, hinput, hg, rfl⟩ := step_host hstep
  rcases h with ⟨v, hsim⟩ | hsettled
  swap
  · exact Or.inr (hsettled.of_host hg _ _)
  cases a with
  | receive f eph ok =>
    have hread : readFrame s.host.v2 s.toHost = some (f, rest) := by
      simp only [hostInput] at hinput
      split at hinput
      · cases hinput
      · next g' rest' hread =>
        obtain ⟨rfl, heq⟩ := Option.ite_none_right_eq_some.mp hinput
        cases heq
        exact hread
    obtain ⟨torn, hwire, htorn⟩ := hsim.toHost
    cases hq : v.toHost with
    | nil =>
      have hfailed : s.failed = true := by
        by_contra hup
        rw [hwire, hq, htorn (by simpa using hup)] at hread
        simp [written, readFrame_eq, recvBlock] at hread
      have hsettled : Settled s := by
        refine ⟨hfailed, [], ?_⟩
        rw [List.append_nil]
        exact hsim.reported_of_nil hq
      exact Or.inr (hsettled.of_host hg _ _)
    | cons f' fs =>
      obtain ⟨ph, hph⟩ := hsim.inv.phase
      have hf : Sendable v.client.v2 f' := hsim.sendable f' (by rw [hq]; exact List.mem_cons_self)
      have heq : f' = f := by
        have hnext := hread
        rw [hsim.host.v2, hph.version, hwire, hq, readFrame_written hf] at hnext
        cases hnext
        rfl
      subst heq
      exact Or.inl (hsim.of_hostReads hS hkx hq hread hg hdraws)
  | send _ _ _ | ping _ | ackAndSwitch _ | quit | shutdown =>
    cases hinput
    exact Or.inl (hsim.of_host hS hkx hg fun _ _ _ heq => by cases heq)

/-- **Every step keeps the invariant**, when the transport stays down once it has failed. -/
theorem ClientWire.Inv.step (hS : S.AeadCorrect) (hkx : S.KxAgree) (h : s.Inv S) {a : Act}
    (hstep : s.Step S a s') (hdown : s.StaysDown S a) : s'.Inv S := by
  have hother : ∀ alive handedOut, Inv S { s with alive := alive, handedOut := handedOut } := by
    intro alive handedOut
    rcases h with ⟨v, hsim⟩ | hsettled
    · exact Or.inl ⟨v, hsim.inv, hsim.unrotated, hsim.host, hsim.sendable, hsim.toHost,
        hsim.reported, hsim.client⟩
    · exact Or.inr ⟨hsettled.failed, hsettled.reported⟩
  cases a with
  | client a sent => exact h.client_step hS hkx hstep hdown
  | host a => exact h.host_step hS hkx hstep
  | readerDone =>
    have hstep := hstep.2
    simp only [ClientWire.step] at hstep
    split at hstep
    · cases hstep
      exact hother _ _
    · cases hstep
  | close | getOrConnect =>
    cases hstep.2
    exact hother _ _

/-- What was reported is accepted. -/
theorem ClientWire.Inv.accepted (h : s.Inv S) :
    ∃ unread, Accepts S s.host.v2 s.host.rx s.toHost unread ∧
      s.reported <+: calledFor (s.host.opened.map Opened.content ++ unread) := by
  rcases h with ⟨v, hsim⟩ | hsettled
  swap
  · refine ⟨[], .nil, ?_⟩
    rw [List.append_nil]
    exact hsettled.reported
  obtain ⟨ph, hph⟩ := hsim.inv.phase
  obtain ⟨xs, rx', hstream, -, hlog⟩ := hph.toHost
  obtain ⟨torn, hwire, -⟩ := hsim.toHost
  refine ⟨xs.map SealCall.content, ?_, ?_⟩
  · rw [hsim.host.v2, hph.version, hsim.host.rx, hwire]
    refine hstream.accepts hsim.sendable (fun sp hsp => ?_) torn
    cases ph with
    | offered _ =>
      cases hsp
      rfl
    | idle | answering _ _ _ | acked _ _ _ | opening _ _ _ | switching _ _ _ => cases hsp
  · refine ⟨[], ?_⟩
    rw [List.append_nil, hsim.reported, hlog, hsim.host.opened]

/-- Once a write has failed, nothing more is reported and the connection is not handed out. -/
theorem ClientWire.step_of_failed {a : Act} (hfailed : s.failed = true) (hstep : s.Step S a s')
    (hdown : s.StaysDown S a) :
    s'.failed = true ∧ s'.reported = s.reported ∧ s'.handedOut = s.handedOut := by
  cases a with
  | client a sent =>
    obtain ⟨rest, c, out, -, -, rfl⟩ := step_client hstep.2
    have hor : (s.failed || s.fails S a) = true := by rw [hfailed, Bool.true_or]
    refine ⟨?_, ?_, rfl⟩
    · rw [afterClient_failed, hor]
    · rw [afterClient_reported, hdown.reports_nil hor, List.append_nil]
  | host a =>
    obtain ⟨rest, g, out, -, -, rfl⟩ := step_host hstep.2
    exact ⟨hfailed, rfl, rfl⟩
  | readerDone =>
    have hstep := hstep.2
    simp only [ClientWire.step] at hstep
    split at hstep
    · cases hstep
      exact ⟨hfailed, rfl, rfl⟩
    · cases hstep
  | close =>
    cases hstep.2
    exact ⟨hfailed, rfl, rfl⟩
  | getOrConnect =>
    cases hstep.2
    refine ⟨hfailed, rfl, ?_⟩
    rw [hdown hfailed]
    rfl

theorem ClientWire.inv_start {clientEph hostEph : EphemeralKeyPair} {keys : SessionKeys}
    {clientIdentity hostIdentity : PublicKey} {version : UInt8} {rotation : RotationPolicy}
    {now : ℕ} (hpair : S.IsKxPair clientEph)
    (hkeys : S.kxClientSessionKeys clientEph hostEph.publicKey = some keys) :
    (start clientEph hostEph keys clientIdentity hostIdentity version rotation now).Inv S := by
  refine Or.inl ⟨.start clientEph hostEph keys clientIdentity hostIdentity version rotation now,
    Session.inv_start hpair hkeys, ?_, .refl _, ?_, ⟨[], rfl, fun _ => rfl⟩, rfl,
    fun _ => ⟨.refl _, rfl⟩⟩
  · intro _
    exact ⟨rfl, by simp [Session.start, Connection.start, Connection.Outstanding]⟩
  · intro f hf
    cases hf

end

/-- **Client writes are all or nothing** in every run in which the transport, once it has failed,
takes nothing more, every frame it takes is one that `read_frame` takes, and `get_or_connect` is not
called between a failed write and the reader's end. -/
theorem client_writes_accepted (S : Sodium) (hS : S.AeadCorrect) (hkx : S.KxAgree)
    (clientEph hostEph : EphemeralKeyPair) (keys : SessionKeys)
    (clientIdentity hostIdentity : PublicKey) (version : UInt8) (rotation : RotationPolicy)
    (now : ℕ) (hpair : S.IsKxPair clientEph)
    (hkeys : S.kxClientSessionKeys clientEph hostEph.publicKey = some keys)
    (acts : List ClientWire.Act) (s : ClientWire)
    (hrun : Run (Guarded (ClientWire.Step S) (ClientWire.StaysDown S))
      (.start clientEph hostEph keys clientIdentity hostIdentity version rotation now) acts s) :
    s.AllOrNothing S (Guarded (ClientWire.Step S) (ClientWire.StaysDown S)) := by
  have hinv := hrun.preserves (I := ClientWire.Inv S) (ClientWire.inv_start hpair hkeys)
    fun _ _ _ h hstep => h.step hS hkx hstep.1 hstep.2
  refine ⟨hinv.accepted, fun hfailed more s' hmore => ?_⟩
  have hstays := hmore.preserves
    (I := fun t => t.failed = true ∧ t.reported = s.reported ∧ t.handedOut = s.handedOut)
    ⟨hfailed, rfl, rfl⟩ ?_
  · exact hstays.2
  · rintro t a t' ⟨hf, hreported, hout⟩ ⟨hstep, hdown⟩
    obtain ⟨hf', hreported', hout'⟩ := ClientWire.step_of_failed hf hstep hdown
    exact ⟨hf', hreported'.trans hreported, hout'.trans hout⟩

/-! ### A write that fails -/

namespace FailedRequest

abbrev sodium : Sodium := .symbolic []

def ephemeral (b : UInt8) : EphemeralKeyPair := ⟨Block.fill 32 b, Block.fill 32 b⟩

/-- A v2 session that rotates after one unit of time. -/
def opening : ClientWire :=
  .start (ephemeral 1) (ephemeral 2) ⟨Block.fill 32 2, Block.fill 32 1⟩ (Block.fill 32 8)
    (Block.fill 32 9) 2 { interval := 1 } 0

def request (b : UInt8) : Bytes := encodeRequest { requestId := 1, data := [b] }

/-- `seal_and_send` for a request before a rotation is due; the write fails after three bytes unless
it is `ok`. -/
def sending (b : UInt8) (ok : Bool) : List ClientWire.Act :=
  [.client (.acquire .request (request b) 0 (ephemeral 3) true) 0, .client (.sendOwn ok) 3]

/-- A request fails, and the next one is written behind what is left of it. -/
def misaligning : List ClientWire.Act := sending 7 false ++ sending 8 true

/-- A request is sent with an offer, the next one fails after three bytes, and the one after it
after three more; then the host reads, the reader ends and `get_or_connect` looks for the
connection. -/
def failing : List ClientWire.Act :=
  [.client (.acquire .request (request 7) 5 (ephemeral 3) true) 0, .client .storeEph 0,
    .client .setInProgress 0, .client (.sendOwn true) 0] ++ sending 8 false ++ sending 9 false ++
  [.host (.receive ((opening.conn.tx.call .rekey (ephemeral 3).publicKey.val).frame sodium true)
      (ephemeral 4) true),
    .host (.ackAndSwitch true), .client .quit 0, .readerDone, .getOrConnect]

/-- A step that checks what it draws. -/
def tryStep (s : ClientWire) (a : ClientWire.Act) : Option ClientWire :=
  if s.Draws sodium a then s.step sodium a else none

theorem step_of_tryStep {s s' : ClientWire} {a : ClientWire.Act} (h : tryStep s a = some s') :
    s.Step sodium a s' := by
  obtain ⟨hdraws, hstep⟩ := Option.ite_none_right_eq_some.mp h
  exact ⟨hdraws, hstep⟩

/-- A check that the transport stays down. -/
def downCheck (s : ClientWire) : ClientWire.Act → Bool
  | .client a _ =>
    match s.conn.outgoing sodium a with
    | none => true
    | some f => !a.ok || (!s.failed && decide (Readable s.conn.v2 f))
  | .getOrConnect => !s.failed || !s.alive
  | .host _ | .readerDone | .close => true

theorem staysDown_of_check {s : ClientWire} {a : ClientWire.Act} (h : downCheck s a = true) :
    s.StaysDown sodium a := by
  cases a with
  | client a sent =>
    intro f hf hok
    simpa [downCheck, hf, hok] using h
  | getOrConnect =>
    intro hfailed
    simpa [downCheck, hfailed] using h
  | host _ | readerDone | close => trivial

def guardedStep (s : ClientWire) (a : ClientWire.Act) : Option ClientWire :=
  if downCheck s a then tryStep s a else none

def misaligned : Option ClientWire := exec tryStep opening misaligning

def failedEnd : Option ClientWire := exec guardedStep opening failing

theorem misaligned_isSome : misaligned.isSome = true := by decide +kernel

theorem failedEnd_isSome : failedEnd.isSome = true := by decide +kernel

theorem misaligned_run : Run (ClientWire.Step sodium) opening misaligning
    (misaligned.get misaligned_isSome) :=
  (run_of_exec (Option.some_get misaligned_isSome).symm).mono fun _ _ _ => step_of_tryStep

theorem failed_run : Run (Guarded (ClientWire.Step sodium) (ClientWire.StaysDown sodium)) opening
    failing (failedEnd.get failedEnd_isSome) := by
  refine (run_of_exec (Option.some_get failedEnd_isSome).symm).mono fun s a s' h => ?_
  obtain ⟨hcheck, hstep⟩ := Option.ite_none_right_eq_some.mp h
  exact ⟨step_of_tryStep hstep, staysDown_of_check hcheck⟩

end FailedRequest

open FailedRequest in
/-- After this run the host has opened the offer; the request that was reported is accepted off the
wire, ahead of what is left of the two that failed, and the connection was not handed out. -/
theorem client_writes_accepted_failed :
    (failedEnd.get failedEnd_isSome).reported = [(.request, request 7)] ∧
    (failedEnd.get failedEnd_isSome).host.opened.map Opened.type = [.rekey] ∧
    (failedEnd.get failedEnd_isSome).handedOut = 0 ∧
    (failedEnd.get failedEnd_isSome).AllOrNothing sodium
      (Guarded (ClientWire.Step sodium) (ClientWire.StaysDown sodium)) :=
  ⟨by decide +kernel, by decide +kernel, by decide +kernel,
    client_writes_accepted sodium (Sodium.symbolic_aeadCorrect []) (Sodium.symbolic_kxAgree [])
      (ephemeral 1) (ephemeral 2) ⟨Block.fill 32 2, Block.fill 32 1⟩ (Block.fill 32 8)
      (Block.fill 32 9) 2 { interval := 1 } 0 (by decide) (by decide) failing _ failed_run⟩

open FailedRequest in
/-- Behind the three bytes of a request that failed, the next one is written and reported, and
`read_frame` gives up on the stream. -/
theorem failed_request_misaligned :
    ¬ ∀ (S : Sodium), S.AeadCorrect → S.KxAgree →
      ∀ (clientEph hostEph : EphemeralKeyPair) (keys : SessionKeys)
        (clientIdentity hostIdentity : PublicKey) (version : UInt8) (rotation : RotationPolicy)
        (now : ℕ), S.IsKxPair clientEph →
        S.kxClientSessionKeys clientEph hostEph.publicKey = some keys →
      ∀ (acts : List ClientWire.Act) (s : ClientWire),
        Run (ClientWire.Step S)
          (.start clientEph hostEph keys clientIdentity hostIdentity version rotation now) acts s →
        s.AllOrNothing S (ClientWire.Step S) := by
  intro hclaim
  obtain ⟨⟨unread, haccepts, hreported⟩, -⟩ := hclaim sodium (Sodium.symbolic_aeadCorrect [])
    (Sodium.symbolic_kxAgree []) (ephemeral 1) (ephemeral 2) ⟨Block.fill 32 2, Block.fill 32 1⟩
    (Block.fill 32 8) (Block.fill 32 9) 2 { interval := 1 } 0 (by decide) (by decide) misaligning _
    misaligned_run
  have hread : readFrame (misaligned.get misaligned_isSome).host.v2
      (misaligned.get misaligned_isSome).toHost = none := by decide +kernel
  have hopened : (misaligned.get misaligned_isSome).host.opened = [] := by decide +kernel
  have hsent : (misaligned.get misaligned_isSome).reported = [(.request, request 8)] := by
    decide +kernel
  have hnone : unread = [] := by
    cases haccepts with
    | nil => rfl
    | cons hsome _ _ =>
      rw [hread] at hsome
      cases hsome
  rw [hsent, hopened, hnone] at hreported
  exact absurd (List.prefix_nil.mp hreported) (by simp)

end Epx
