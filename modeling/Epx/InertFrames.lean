import Epx.FrameStream
import Epx.HostLoop
import Epx.Lib.Transition

/-!
# Frames that a host passes over

Liveness probes travel in the clear, and so can anybody who reaches the stream put frames into it
that are neither opened nor obeyed. Here two runs of a host connection are compared: one on a
stream, one on the same stream with frames of such types put in between its frames, as many as one
likes and with any counter, epoch and body. Other threads send on the connection all the while, the
application answers what it likes, writes fail, and the host is stopped at any moment.

## Main definitions

* `Interposed` — a stream with frames put in at its frame boundaries
* `HostSide` — the thread of a connection with what it will be sent, among other threads
* `HostSide.Matches` — what the application and the peer see of two runs

## Main results

* `host_passes_over`
-/

namespace Epx

open Codec Exception Transition

/-! ### Streams -/

/-- `s'` is `s` with frames of inert types put in at frame boundaries. -/
inductive Interposed (v2 : Bool) (inert : FrameType → Bool) : Bytes → Bytes → Prop
  | tail (s : Bytes) : Interposed v2 inert s s
  | kept {w rest rest' : Bytes} {f : RawFrame} : readFrame v2 (w ++ rest) = some (f, rest) →
      Interposed v2 inert rest rest' → Interposed v2 inert (w ++ rest) (w ++ rest')
  | inserted {g : RawFrame} {s s' : Bytes} : inert g.type = true → Fits v2 g →
      Interposed v2 inert s s' → Interposed v2 inert s (writeFrame v2 g ++ s')

/-- The next frame of the stream has nothing put in before it. -/
def Aligned (v2 : Bool) (inert : FrameType → Bool) (s s' : Bytes) : Prop :=
  s = s' ∨ ∃ w f rest rest', readFrame v2 (w ++ rest) = some (f, rest) ∧
    Interposed v2 inert rest rest' ∧ s = w ++ rest ∧ s' = w ++ rest'

section

variable {v2 : Bool} {inert : FrameType → Bool} {s s' : Bytes} {f : RawFrame}

/-- The frame a stream starts with does not depend on what follows it. -/
theorem readFrame_append_right {w rest : Bytes} (h : readFrame v2 (w ++ rest) = some (f, rest))
    (rest' : Bytes) : readFrame v2 (w ++ rest') = some (f, rest') := by
  obtain ⟨n, bytes, hmin, hmax, hlen, hparse, heq⟩ := readFrame_eq_some.mp h
  rw [← List.append_assoc] at heq
  rw [List.append_cancel_right heq, List.append_assoc]
  exact readFrame_eq_some.mpr ⟨n, bytes, hmin, hmax, hlen, hparse, rfl⟩

/-- A frame was put in before the next one, or none was. -/
theorem Interposed.aligned_or (h : Interposed v2 inert s s') :
    Aligned v2 inert s s' ∨ ∃ g rest', inert g.type = true ∧ Fits v2 g ∧
      s' = writeFrame v2 g ++ rest' ∧ Interposed v2 inert s rest' := by
  cases h with
  | tail s => exact Or.inl (Or.inl rfl)
  | kept hread h => exact Or.inl (Or.inr ⟨_, _, _, _, hread, h, rfl, rfl⟩)
  | inserted hinert hfits h => exact Or.inr ⟨_, _, hinert, hfits, rfl, h⟩

theorem Aligned.interposed (h : Aligned v2 inert s s') : Interposed v2 inert s s' := by
  rcases h with rfl | ⟨w, f, rest, rest', hread, h, rfl, rfl⟩
  · exact .tail s
  · exact .kept hread h

/-- Between two frames of a stream there are finitely many that were put in. -/
theorem Interposed.split (h : Interposed v2 inert s s') :
    ∃ (gs : List RawFrame) (s'' : Bytes), s' = gs.flatMap (writeFrame v2) ++ s'' ∧
      Aligned v2 inert s s'' ∧
      ∀ g ∈ gs, inert g.type = true ∧ Fits v2 g := by
  induction h with
  | tail s => exact ⟨[], s, rfl, Or.inl rfl, fun _ hg => absurd hg List.not_mem_nil⟩
  | kept hread h _ =>
    exact ⟨[], _, rfl, Or.inr ⟨_, _, _, _, hread, h, rfl, rfl⟩,
      fun _ hg => absurd hg List.not_mem_nil⟩
  | @inserted g s s' hinert hfits _ ih =>
    obtain ⟨gs, s'', rfl, haligned, hgs⟩ := ih
    refine ⟨g :: gs, s'', ?_, haligned, fun g' hg' => ?_⟩
    · rw [List.flatMap_cons, List.append_assoc]
    · rcases List.mem_cons.mp hg' with rfl | hmem
      · exact ⟨hinert, hfits⟩
      · exact hgs g' hmem

/-- The next frame is the same on both streams. -/
theorem Aligned.read (h : Aligned v2 inert s s') {rest : Bytes}
    (hread : readFrame v2 s = some (f, rest)) :
    ∃ rest', readFrame v2 s' = some (f, rest') ∧ Interposed v2 inert rest rest' := by
  rcases h with rfl | ⟨w, f', r, r', hread', h, rfl, rfl⟩
  · exact ⟨rest, hread, .tail rest⟩
  · rw [hread'] at hread
    cases hread
    exact ⟨r', readFrame_append_right hread' r', h⟩

theorem Aligned.read_inv (h : Aligned v2 inert s s') {rest' : Bytes}
    (hread : readFrame v2 s' = some (f, rest')) :
    ∃ rest, readFrame v2 s = some (f, rest) ∧ Interposed v2 inert rest rest' := by
  rcases h with rfl | ⟨w, f', r, r', hread', h, rfl, rfl⟩
  · exact ⟨rest', hread, .tail rest'⟩
  · rw [readFrame_append_right hread' r'] at hread
    cases hread
    exact ⟨r, hread', h⟩

end

/-! ### What has been written does not matter -/

/-- The state with frames written before those it records. -/
def LoopState.before (o : List RawFrame) (st : LoopState) :
    LoopState := { st with out := o ++ st.out }

/-- The same in the state a pass ends in. -/
def Outcome.before (o : List RawFrame) : Outcome → Outcome
  | .next st => .next (st.before o)
  | .stop st => .stop (st.before o)

section

variable {S : Sodium} {cfg : HostConfig} {env : Pass} {st : LoopState} {f : RawFrame}
  {o : List RawFrame}

@[simp] theorem before_conn : (st.before o).conn = st.conn := rfl
@[simp] theorem before_peer : (st.before o).peer = st.peer := rfl
@[simp] theorem before_authzCache : (st.before o).authzCache = st.authzCache := rfl
@[simp] theorem before_mySubs : (st.before o).mySubs = st.mySubs := rfl
@[simp] theorem before_delayedInARow : (st.before o).delayedInARow = st.delayedInARow := rfl

theorem accept_before (opened : Bytes) (rx : RxState) :
    (st.before o).accept f opened rx = (st.accept f opened rx).before o := rfl

theorem rateLimit_before : rateLimit cfg env (st.before o) = (rateLimit cfg env st).before o := rfl

theorem sendSealed_before (type : FrameType) (plaintext : Bytes) (ok : Bool) :
    (st.before o).sendSealed S type plaintext ok = (st.sendSealed S type plaintext ok).before
    o := by
  simp only [LoopState.before, LoopState.sendSealed, List.append_assoc]

theorem reply_before (req : RequestPayload) (status : UInt8) (data : Bytes) (ok : Bool) :
    (st.before o).reply S req status data ok = (st.reply S req status data ok).before o := by
  rw [LoopState.reply, LoopState.reply]
  split
  · rfl
  · exact sendSealed_before ..

theorem sendChunks_before (requestId : UInt64) (chunks : List Bytes) (wrote : ℕ → Bool) :
    (st.before o).sendChunks S requestId chunks wrote =
      (st.sendChunks S requestId chunks wrote).before o := by
  have hfold : ∀ (l : List (Bytes × ℕ)) (st : LoopState),
      l.foldl (fun st p => st.sendChunk S requestId p.2 false p.1 (wrote p.2))
        (st.before o) =
        (l.foldl (fun st p => st.sendChunk S requestId p.2 false p.1 (wrote p.2)) st).before
          o := by
    intro l
    induction l with
    | nil => intro st; rfl
    | cons c l ih =>
      intro st
      rw [List.foldl_cons, List.foldl_cons, ← ih]
      congr 1
      exact sendSealed_before ..
  rw [LoopState.sendChunks, LoopState.sendChunks]
  dsimp only
  rw [hfold]
  exact sendSealed_before ..

theorem unsubscribe_before (data : Bytes) :
    (st.before o).unsubscribe data = (st.unsubscribe data).before o := by
  rw [LoopState.unsubscribe, LoopState.unsubscribe]
  split
  · next hlen =>
    rw [before_mySubs]
    cases st.mySubs.find? fun sub => sub.2 = getU64 ⟨data, hlen⟩ with
    | none => rfl
    | some sub => rfl
  · rfl

theorem serve_before (req : RequestPayload) (entry : EndpointEntry) :
    serve S cfg env (st.before o) req entry = (serve S cfg env st req entry).before o := by
  rw [serve, serve]
  cases entry.kind with
  | topic =>
    dsimp only
    change (if cfg.limits.maxSubscriptions > 0 ∧
      st.mySubs.length ≥ cfg.limits.maxSubscriptions.toNat then _ else _) = _
    split
    · exact reply_before ..
    · cases env.topics.lookup req.endpoint with
      | none => rfl
      | some topic => rfl
  | receive | send =>
    dsimp only
    change (if _ then ((st.called _).before o).reply .. else ((st.called _).before o).reply ..) = _
    split
    · exact reply_before ..
    · exact reply_before ..
  | streamSend =>
    change (((st.called _).before o).sendChunks ..) = _
    exact sendChunks_before ..
  | streamReceive => exact reply_before ..

theorem dispatch_before (req : RequestPayload) :
    dispatch S cfg env (st.before o) req =
      (dispatch S cfg env st req).map (LoopState.before o) := by
  rw [dispatch, dispatch]
  split
  · rw [unsubscribe_before]
    rfl
  · cases env.handlers.lookup req.endpoint with
    | none =>
      dsimp only
      rw [reply_before]
      rfl
    | some entry =>
      dsimp only
      rw [before_peer, before_authzCache]
      cases authorize cfg.serviceName env.view st.peer req.endpoint (cfg.accessOf entry)
          st.authzCache with
      | error e => rfl
      | ok p =>
        obtain ⟨allowed, cache⟩ := p
        cases allowed with
        | true =>
          change Except.ok (serve S cfg env
            (LoopState.before o { st with authzCache := cache }) req entry) = _
          rw [serve_before]
          rfl
        | false =>
          change Except.ok ((LoopState.before o { st with authzCache := cache }).reply ..) = _
          rw [reply_before]
          rfl

theorem handleRequest_before :
    handleRequest S cfg env (st.before o) f =
      (handleRequest S cfg env st f).map (Outcome.before o) := by
  rw [handleRequest, handleRequest, before_conn]
  cases openChecked S st.conn.v2 st.conn.rx f with
  | none => rfl
  | some p =>
    obtain ⟨opened, rx⟩ := p
    dsimp only
    rw [accept_before]
    cases decodeRequest opened with
    | oob | reject => rfl
    | accept req =>
      dsimp only
      rw [before_delayedInARow, rateLimit_before]
      split
      · rw [sendSealed_before]
        rfl
      · rw [dispatch_before]
        cases dispatch S cfg env (rateLimit cfg env (st.accept f opened rx)) req with
        | error e => rfl
        | ok st' => rfl

theorem handleChunk_before :
    handleChunk S cfg env (st.before o) f =
      (handleChunk S cfg env st f).map (Outcome.before o) := by
  rw [handleChunk, handleChunk, before_conn]
  cases openChecked S st.conn.v2 st.conn.rx f with
  | none => rfl
  | some p =>
    obtain ⟨opened, rx⟩ := p
    dsimp only
    rw [accept_before]
    cases decodeStreamChunk opened with
    | oob | reject => rfl
    | accept chunk =>
      dsimp only
      cases (env.handlers.lookup chunk.endpoint).filter fun e => e.kind = .streamReceive with
      | none => rfl
      | some entry =>
        dsimp only
        rw [before_peer, before_authzCache]
        cases authorize cfg.serviceName env.view (st.accept f opened rx).peer chunk.endpoint
            (cfg.accessOf entry) (st.accept f opened rx).authzCache with
        | error e => rfl
        | ok p =>
          obtain ⟨allowed, cache⟩ := p
          cases allowed with
          | true => rfl
          | false => rfl

theorem handleRekey_before :
    handleRekey S env (st.before o) f = (handleRekey S env st f).map (Outcome.before o) := by
  rw [handleRekey, handleRekey, before_conn]
  split
  · rfl
  · cases openChecked S st.conn.v2 st.conn.rx f with
    | none => rfl
    | some p =>
      obtain ⟨opened, rx⟩ := p
      dsimp only
      rw [accept_before]
      split
      · next hlen =>
        rw [before_conn]
        split
        · rfl
        · cases serverSessionKeys S env.eph ⟨opened, hlen⟩ with
          | error e => rfl
          | ok nk =>
            change Except.ok (if _ then Outcome.next _ else Outcome.stop _) =
              Except.ok (Outcome.before o (if _ then Outcome.next _ else Outcome.stop _))
            split
            · simp only [Outcome.before, LoopState.before, LoopState.accept, List.append_assoc]
            · simp only [Outcome.before, LoopState.before, LoopState.accept, List.append_assoc]
      · rfl

/-- **What has been written before a pass does not matter to it.** -/
theorem pass_before :
    pass S cfg env (st.before o) f = (pass S cfg env st f).map (Outcome.before o) := by
  rw [pass, pass]
  dsimp only
  have halive : ({ st.before o with conn :=
      { (st.before o).conn with alive := (st.before o).conn.alive && env.othersAlive } } :
        LoopState) =
      LoopState.before o { st with conn :=
        { st.conn with alive := st.conn.alive && env.othersAlive } } := rfl
  rw [halive]
  split
  · change Except.ok (Outcome.next _) = Except.ok (Outcome.before o (Outcome.next _))
    simp only [Outcome.before, LoopState.before, List.append_assoc]
  split
  · rfl
  split
  · rfl
  split
  · exact handleRekey_before
  split
  · exact handleChunk_before
  split
  · exact handleRequest_before
  · rfl

/-- The frame types that the loop passes over. -/
def hostInert (type : FrameType) : Bool :=
  !(type = .request ∨ type = .streamChunk ∨ type = .rekey ∨ type = .bye : Bool)

/-- What the loop writes when it passes over a frame. -/
def pongs (env : Pass) (f : RawFrame) : List RawFrame :=
  if f.type = .ping ∧ env.wrote 0 = true then [pongFrame] else []

/-- **A frame that the loop passes over changes nothing**, but for the answer to a PING. -/
theorem pass_inert (hinert : hostInert f.type = true) (halive : env.othersAlive = true) :
    pass S cfg env st f = .ok (.next { st with out := st.out ++ pongs env f }) := by
  simp only [hostInert, Bool.not_eq_true', decide_eq_false_iff_not, not_or] at hinert
  obtain ⟨hrequest, hchunk, hrekey, hbye⟩ := hinert
  have hsame : { st.conn with alive := st.conn.alive && env.othersAlive } = st.conn := by
    rw [halive, Bool.and_true]
  rw [pass, pongs]
  dsimp only
  rw [hsame]
  by_cases hping : f.type = .ping
  · cases hwrote : env.wrote 0 with
    | true => simp [hping, pure, Except.pure]
    | false => simp [hping, pure, Except.pure]
  · simp [hping, hbye, hrekey, hchunk, hrequest, pure, Except.pure]

end

/-! ### The thread of a connection -/

/-- Where the thread of a connection is. -/
inductive ThreadPlace where
  | looping
  /-- The loop was left. -/
  | left
  /-- An exception left the thread function. -/
  | crashed
  deriving DecidableEq

/-- The thread of a host connection, with what it has not read yet. -/
structure HostSide where
  /-- The local of `handle_connection` that says which layout and which cipher are in use. -/
  v2 : Bool
  st : LoopState
  input : Bytes
  place : ThreadPlace := .looping
  /-- The PINGs whose answer was written. -/
  answered : ℕ := 0

namespace HostSide

/-- What can happen next to a connection. What a pass finds of other threads is not in it: they take
steps of their own. -/
inductive Act where
  | read (f : RawFrame) (env : Pass)
  /-- `read_frame` gives nothing: the stream has ended, or the transport was closed. -/
  | cut
  /-- The loop condition fails: the host has been stopped. -/
  | stopped
  /-- `cs->alive.store(false)` after the loop. -/
  | detach
  /-- Another thread sends on the connection. -/
  | send (type : FrameType) (plaintext : Bytes) (ok : Bool)
  /-- `send_ping` of the heartbeat thread. -/
  | probe (ok : Bool)

/-- The state after a pass. -/
def passed (s : HostSide) (f : RawFrame) (env : Pass) (rest : Bytes) :
    Except Exn Outcome → HostSide
  | .ok (.next st) =>
    { s with st := st, input := rest, answered := s.answered + (pongs env f).length }
  | .ok (.stop st) => { s with st := st, input := rest, place := .left }
  | .error _ => { s with input := rest, place := .crashed }

section

variable (S : Sodium) (cfg : HostConfig)

def step (s : HostSide) : Act → Option HostSide
  | .read f env =>
    if s.place = .looping ∧ env.running = true ∧ env.othersAlive = true then
      match readFrame s.v2 s.input with
      | some (f', rest) =>
        if f' = f then some (s.passed f env rest (pass S cfg env s.st f)) else none
      | none => none
    else none
  | .cut | .stopped => if s.place = .looping then some { s with place := .left } else none
  | .detach =>
    if s.place = .left then
      some { s with st := { s.st with conn := { s.st.conn with alive := false } } }
    else none
  | .send type plaintext ok =>
    if s.place = .crashed then none
    else some { s with st := s.st.sendSealed S type plaintext ok }
  | .probe ok =>
    if s.place = .crashed then none
    else
      some { s with st := { s.st with
        conn := (s.st.conn.sendPing ok).1
        out := s.st.out ++ (s.st.conn.sendPing ok).2.toList } }

abbrev Step : HostSide → Act → HostSide → Prop := OfFun (step S cfg)

end

/-- The thread after the handshake. -/
def start (cfg : HostConfig) (run : ServerRun) (acc : Accept) (hs : HandshakeResult)
    (input : Bytes) : HostSide :=
  { v2 := hs.version ≥ 2, st := .start cfg run acc hs, input := input }

/-- The reads of frames that are passed over. -/
def Act.passesOver : Act → Bool
  | .read f _ => hostInert f.type
  | _ => false

/-- The same steps in the same order, and in the second list also reads of frames that are passed
over. -/
structure MoreReads (acts acts' : List Act) : Prop where
  sub : acts.Sublist acts'
  same : acts'.filter (fun a => !a.passesOver) = acts.filter fun a => !a.passesOver

/-- What was written in two runs: in the second one also PONGs. -/
structure MorePongs (out out' : List RawFrame) : Prop where
  sub : out.Sublist out'
  same : out'.filter (fun f => f ≠ pongFrame) = out.filter fun f => f ≠ pongFrame

/-- **The application and the peer see the same**: the same state of the connection, the same calls
of handlers, the same frames but for PONGs, and as many more PONGs as PINGs were answered more. -/
structure Matches (s s' : HostSide) : Prop where
  v2 : s'.v2 = s.v2
  place : s'.place = s.place
  state : s'.st = { s.st with out := s'.st.out }
  written : MorePongs s.st.out s'.st.out
  answers : s'.st.out.length + s.answered = s.st.out.length + s'.answered

section

variable {S : Sodium} {cfg : HostConfig} {s s' t : HostSide} {a : Act} {f : RawFrame} {env : Pass}
  {out out' : List RawFrame} {acts acts' : List Act}

theorem MorePongs.refl (out : List RawFrame) : MorePongs out out := ⟨List.Sublist.refl out, rfl⟩

theorem MorePongs.append (h : MorePongs out out') (fs : List RawFrame) :
    MorePongs (out ++ fs) (out' ++ fs) :=
  ⟨h.sub.append (List.Sublist.refl fs), by rw [List.filter_append, List.filter_append, h.same]⟩

theorem MorePongs.pongs (h : MorePongs out out') (env : Pass) (f : RawFrame) :
    MorePongs out (out' ++ pongs env f) where
  sub := h.sub.trans (List.sublist_append_left _ _)
  same := by
    rw [List.filter_append, h.same, Epx.pongs]
    split
    · simp
    · simp

theorem MoreReads.nil : MoreReads [] [] := ⟨List.Sublist.refl [], rfl⟩

theorem MoreReads.append {as as' bs bs' : List Act} (h : MoreReads as as') (h' : MoreReads bs bs') :
    MoreReads (as ++ bs) (as' ++ bs') :=
  ⟨h.sub.append h'.sub, by rw [List.filter_append, List.filter_append, h.same, h'.same]⟩

theorem MoreReads.refl (as : List Act) : MoreReads as as := ⟨List.Sublist.refl as, rfl⟩

/-- Reads of frames that are passed over. -/
theorem MoreReads.passedOver {bs : List Act} (h : ∀ b ∈ bs, b.passesOver = true) :
    MoreReads [] bs where
  sub := List.nil_sublist bs
  same := by
    rw [List.filter_nil, List.filter_eq_nil_iff]
    intro b hb
    simp [h b hb]

/-- The pass that reads the same frame. -/
theorem Matches.passed (h : s.Matches s') (f : RawFrame) (env : Pass) (rest rest' : Bytes) :
    (s.passed f env rest (pass S cfg env s.st f)).Matches
      (s'.passed f env rest' (pass S cfg env s'.st f)) := by
  -- both states are one state after what has been written
  let base : LoopState := { s.st with out := [] }
  have hs : s.st = base.before s.st.out := by simp [base, LoopState.before]
  have hs' : s'.st = base.before s'.st.out := by
    rw [h.state]
    simp [base, LoopState.before]
  have hpass : pass S cfg env s.st f = (pass S cfg env base f).map (Outcome.before s.st.out) := by
    rw [← pass_before, ← hs]
  have hpass' : pass S cfg env s'.st f =
      (pass S cfg env base f).map (Outcome.before s'.st.out) := by
    rw [← pass_before, ← hs']
  have hwritten : ∀ r : LoopState, MorePongs (r.before s.st.out).out (r.before s'.st.out).out :=
    fun r => h.written.append r.out
  have hanswers := h.answers
  rw [hpass, hpass']
  cases pass S cfg env base f with
  | error e => exact ⟨h.v2, rfl, h.state, h.written, h.answers⟩
  | ok o =>
    cases o with
    | next r =>
      refine ⟨h.v2, h.place, rfl, hwritten r, ?_⟩
      simp only [Except.map, Outcome.before, HostSide.passed, LoopState.before, List.length_append]
      omega
    | stop r =>
      refine ⟨h.v2, rfl, rfl, hwritten r, ?_⟩
      simp only [Except.map, Outcome.before, HostSide.passed, LoopState.before, List.length_append]
      omega

variable (S cfg) in
/-- A pass over a frame in the second run only. -/
theorem Matches.passedOver (h : s.Matches s') (hinert : hostInert f.type = true)
    (halive : env.othersAlive = true) (rest' : Bytes) :
    s.Matches (s'.passed f env rest' (pass S cfg env s'.st f)) := by
  rw [pass_inert hinert halive]
  refine ⟨h.v2, h.place, ?_, h.written.pongs env f, ?_⟩
  · change { s'.st with out := s'.st.out ++ pongs env f } =
      { s.st with out := s'.st.out ++ pongs env f }
    rw [h.state]
  · have hanswers := h.answers
    simp only [HostSide.passed, List.length_append]
    omega

theorem Matches.sent (h : s.Matches s') (type : FrameType) (plaintext : Bytes)
    (ok : Bool) :
    Matches { s with st := s.st.sendSealed S type plaintext ok }
      { s' with st := s'.st.sendSealed S type plaintext ok } := by
  have hconn : s'.st.conn = s.st.conn := by rw [h.state]
  have hout : (s'.st.sendSealed S type plaintext ok).out =
      s'.st.out ++ (s.st.conn.sendSealed S type plaintext ok).2.toList := by
    rw [LoopState.sendSealed, hconn]
  refine ⟨h.v2, h.place, ?_, ?_, ?_⟩
  · rw [h.state]
    rfl
  · change MorePongs _ (s'.st.sendSealed S type plaintext ok).out
    rw [hout]
    exact h.written.append _
  · have hanswers := h.answers
    change (s'.st.sendSealed S type plaintext ok).out.length + s.answered =
      (s.st.out ++ (s.st.conn.sendSealed S type plaintext ok).2.toList).length + s'.answered
    rw [hout, List.length_append, List.length_append]
    omega

theorem Matches.probed (h : s.Matches s') (ok : Bool) :
    Matches
      { s with st := { s.st with
        conn := (s.st.conn.sendPing ok).1, out := s.st.out ++ (s.st.conn.sendPing ok).2.toList } }
      { s' with st := { s'.st with
        conn := (s'.st.conn.sendPing ok).1
        out := s'.st.out ++ (s'.st.conn.sendPing ok).2.toList } } := by
  have hconn : s'.st.conn = s.st.conn := by rw [h.state]
  rw [hconn]
  refine ⟨h.v2, h.place, ?_, h.written.append _, ?_⟩
  · change LoopState.mk _ _ _ _ _ _ _ = LoopState.mk _ _ _ _ _ _ _
    rw [h.state]
  · have hanswers := h.answers
    simp only [List.length_append]
    omega

theorem Matches.detached (h : s.Matches s') :
    Matches { s with st := { s.st with conn := { s.st.conn with alive := false } } }
      { s' with st := { s'.st with conn := { s'.st.conn with alive := false } } } := by
  refine ⟨h.v2, h.place, ?_, h.written, h.answers⟩
  change LoopState.mk _ _ _ _ _ _ _ = LoopState.mk _ _ _ _ _ _ _
  rw [h.state]

/-- Two runs that match so far, on a stream and on the one with frames put in. -/
structure Sim (s s' : HostSide) : Prop where
  same : s.Matches s'
  streams : Interposed s.v2 hostInert s.input s'.input

theorem sim_start (cfg : HostConfig) (run : ServerRun) (acc : Accept) (hs : HandshakeResult)
    {input input' : Bytes} (h : Interposed (decide (hs.version ≥ 2)) hostInert input input') :
    (start cfg run acc hs input).Sim (start cfg run acc hs input') :=
  ⟨⟨rfl, rfl, rfl, .refl _, rfl⟩, h⟩

variable (S cfg) in
/-- Every step but a read goes in both runs or in neither. -/
theorem Sim.other (h : s.Sim s') (hread : ∀ f env, a ≠ .read f env) :
    (step S cfg s a = none ∧ step S cfg s' a = none) ∨
      ∃ t t', step S cfg s a = some t ∧ step S cfg s' a = some t' ∧ t.Sim t' := by
  obtain ⟨h, hstreams⟩ := h
  have hplace : ∀ p, s'.place = p ↔ s.place = p := fun p => by rw [h.place]
  cases a with
  | read f env => exact absurd rfl (hread f env)
  | cut | stopped =>
    rw [step, step]
    by_cases hlooping : s.place = .looping
    · rw [if_pos hlooping, if_pos ((hplace _).mpr hlooping)]
      exact Or.inr ⟨_, _, rfl, rfl, ⟨h.v2, rfl, h.state, h.written, h.answers⟩, hstreams⟩
    · rw [if_neg hlooping, if_neg fun hl => hlooping ((hplace _).mp hl)]
      exact Or.inl ⟨rfl, rfl⟩
  | detach =>
    rw [step, step]
    by_cases hleft : s.place = .left
    · rw [if_pos hleft, if_pos ((hplace _).mpr hleft)]
      exact Or.inr ⟨_, _, rfl, rfl, h.detached, hstreams⟩
    · rw [if_neg hleft, if_neg fun hl => hleft ((hplace _).mp hl)]
      exact Or.inl ⟨rfl, rfl⟩
  | send type plaintext ok =>
    rw [step, step]
    by_cases hcrashed : s.place = .crashed
    · rw [if_pos hcrashed, if_pos ((hplace _).mpr hcrashed)]
      exact Or.inl ⟨rfl, rfl⟩
    · rw [if_neg hcrashed, if_neg fun hl => hcrashed ((hplace _).mp hl)]
      exact Or.inr ⟨_, _, rfl, rfl, h.sent type plaintext ok, hstreams⟩
  | probe ok =>
    rw [step, step]
    by_cases hcrashed : s.place = .crashed
    · rw [if_pos hcrashed, if_pos ((hplace _).mpr hcrashed)]
      exact Or.inl ⟨rfl, rfl⟩
    · rw [if_neg hcrashed, if_neg fun hl => hcrashed ((hplace _).mp hl)]
      exact Or.inr ⟨_, _, rfl, rfl, h.probed ok, hstreams⟩

/-- A read, with the frame that is found. -/
theorem step_read :
    step S cfg s (.read f env) = some t ↔
      (s.place = .looping ∧ env.running = true ∧ env.othersAlive = true) ∧
        ∃ rest, readFrame s.v2 s.input = some (f, rest) ∧
          t = s.passed f env rest (pass S cfg env s.st f) := by
  rw [step, Option.ite_none_right_eq_some]
  refine and_congr_right fun _ => ?_
  cases readFrame s.v2 s.input with
  | none => simp
  | some p =>
    obtain ⟨f', rest⟩ := p
    simp only [Option.ite_none_right_eq_some, Option.some.injEq, Prod.mk.injEq]
    constructor
    · rintro ⟨rfl, rfl⟩
      exact ⟨rest, ⟨rfl, rfl⟩, rfl⟩
    · rintro ⟨_, ⟨rfl, rfl⟩, rfl⟩
      exact ⟨rfl, rfl⟩

@[simp] theorem passed_v2 (rest : Bytes) (r : Except Exn Outcome) :
    (s.passed f env rest r).v2 = s.v2 := by
  rcases r with e | ⟨st | st⟩ <;> rfl

@[simp] theorem passed_input (rest : Bytes) (r : Except Exn Outcome) :
    (s.passed f env rest r).input = rest := by
  rcases r with e | ⟨st | st⟩ <;> rfl

/-- The read of the next frame, in both runs. -/
theorem Sim.passed (h : s.Matches s') {rest rest' : Bytes}
    (hstreams : Interposed s.v2 hostInert rest rest') (f : RawFrame) (env : Pass) :
    (s.passed f env rest (pass S cfg env s.st f)).Sim
      (s'.passed f env rest' (pass S cfg env s'.st f)) :=
  ⟨h.passed f env rest rest', by rwa [passed_v2, passed_input, passed_input]⟩

/-- The first run goes on with the second. -/
theorem Sim.follow (h : s.Sim s') (hstep : Step S cfg s' a t) :
    ∃ as u, Run (Step S cfg) s as u ∧ MoreReads as [a] ∧ u.Sim t := by
  by_cases hread : ∃ f env, a = .read f env
  · obtain ⟨f, env, rfl⟩ := hread
    obtain ⟨⟨hplace, hrunning, halive⟩, rest', hnext, rfl⟩ := step_read.mp hstep
    rw [h.same.v2] at hnext
    rcases h.streams.aligned_or with haligned | ⟨g, r', hinert, hfits, heq, hrest⟩
    · obtain ⟨rest, hnext', hrest⟩ := haligned.read_inv hnext
      refine ⟨[.read f env], _, Run.nil.snoc (step_read.mpr ⟨⟨?_, hrunning, halive⟩, rest, hnext',
        rfl⟩), .refl _, .passed h.same hrest f env⟩
      rw [← h.same.place]
      exact hplace
    · rw [heq, readFrame_writeFrame _ g r' hfits.capped hfits.epoch] at hnext
      cases hnext
      refine ⟨[], s, .nil, .passedOver ?_, h.same.passedOver S cfg hinert halive _, ?_⟩
      · intro b hb
        rw [List.mem_singleton.mp hb]
        exact hinert
      · rw [passed_input]
        exact hrest
  · rcases h.other S cfg fun f env heq => hread ⟨f, env, heq⟩ with
      ⟨-, hnone⟩ | ⟨u, u', hu, hu', hsim⟩
    · rw [show Step S cfg s' a t = (step S cfg s' a = some t) from rfl, hnone] at hstep
      cases hstep
    · cases hu'.symm.trans hstep
      exact ⟨[a], u, Run.nil.snoc hu, .refl _, hsim⟩

variable (S cfg) in
/-- The second run reads the frames that were put in before the next one. -/
theorem run_over (hplace : s.place = .looping) (hrunning : env.running = true)
    (halive : env.othersAlive = true) (gs : List RawFrame) :
    ∀ {s' : HostSide} {rest : Bytes}, s.Matches s' →
      s'.input = gs.flatMap (writeFrame s.v2) ++ rest →
      (∀ g ∈ gs, hostInert g.type = true ∧ Fits s.v2 g) →
      ∃ bs t', Run (Step S cfg) s' bs t' ∧ (∀ b ∈ bs, b.passesOver = true) ∧ s.Matches t' ∧
        t'.input = rest := by
  induction gs with
  | nil =>
    intro s' rest h hinput _
    exact ⟨[], s', .nil, fun _ hb => absurd hb List.not_mem_nil, h, hinput⟩
  | cons g gs ih =>
    intro s' rest h hinput hgs
    obtain ⟨hinert, hfits⟩ := hgs g List.mem_cons_self
    rw [List.flatMap_cons, List.append_assoc] at hinput
    have hread : Step S cfg s' (.read g env)
        (s'.passed g env (gs.flatMap (writeFrame s.v2) ++ rest) (pass S cfg env s'.st g)) := by
      refine step_read.mpr ⟨⟨h.place.trans hplace, hrunning, halive⟩, _, ?_, rfl⟩
      rw [h.v2, hinput]
      exact readFrame_writeFrame _ g _ hfits.capped hfits.epoch
    obtain ⟨bs, t', hrun, hbs, hmatches, hrest⟩ :=
      ih (h.passedOver S cfg hinert halive _) (passed_input _ _)
        fun g' hg' => hgs g' (List.mem_cons_of_mem _ hg')
    refine ⟨.read g env :: bs, t', (Run.nil.snoc hread).trans hrun, fun b hb => ?_, hmatches, hrest⟩
    rcases List.mem_cons.mp hb with rfl | hb
    · exact hinert
    · exact hbs b hb

/-- The second run goes on with the first. -/
theorem Sim.lead (h : s.Sim s') (hstep : Step S cfg s a t) :
    ∃ as' t', Run (Step S cfg) s' as' t' ∧ MoreReads [a] as' ∧ t.Sim t' := by
  by_cases hread : ∃ f env, a = .read f env
  · obtain ⟨f, env, rfl⟩ := hread
    obtain ⟨⟨hplace, hrunning, halive⟩, rest, hnext, rfl⟩ := step_read.mp hstep
    obtain ⟨gs, input, hinput, haligned, hgs⟩ := h.streams.split
    obtain ⟨bs, u', hrun, hbs, hmatches, rfl⟩ :=
      run_over S cfg hplace hrunning halive gs h.same hinput hgs
    obtain ⟨rest', hnext', hrest⟩ := haligned.read hnext
    have hread : Step S cfg u' (.read f env)
        (u'.passed f env rest' (pass S cfg env u'.st f)) := by
      refine step_read.mpr ⟨⟨hmatches.place.trans hplace, hrunning, halive⟩, rest', ?_, rfl⟩
      rw [hmatches.v2]
      exact hnext'
    exact ⟨bs ++ [.read f env], _, hrun.snoc hread,
      (MoreReads.passedOver hbs).append (.refl [.read f env]), .passed hmatches hrest f env⟩
  · rcases h.other S cfg fun f env heq => hread ⟨f, env, heq⟩ with
      ⟨hnone, -⟩ | ⟨u, u', hu, hu', hsim⟩
    · rw [show Step S cfg s a t = (step S cfg s a = some t) from rfl, hnone] at hstep
      cases hstep
    · cases hu.symm.trans hstep
      exact ⟨[a], u', Run.nil.snoc hu', .refl _, hsim⟩

/-- **A host passes over the frames that were put in**: each run on one of the streams has a run on
the other one that makes the same steps but for reads of such frames, and the application and the
peer see the same of both. -/
theorem host_passes_over (h : s.Sim s') :
    (∀ acts' t', Run (Step S cfg) s' acts' t' →
      ∃ acts t, Run (Step S cfg) s acts t ∧ MoreReads acts acts' ∧ t.Matches t') ∧
    ∀ acts t, Run (Step S cfg) s acts t →
      ∃ acts' t', Run (Step S cfg) s' acts' t' ∧ MoreReads acts acts' ∧ t.Matches t' := by
  constructor
  · intro acts' t' hrun
    obtain ⟨acts, t, hrun', hmore, hsim⟩ := hrun.simulate (R := fun (u' u : HostSide) => u.Sim u')
      (L := fun as' as => MoreReads as as') h .nil .append fun _ _ _ _ hR hstep => hR.follow hstep
    exact ⟨acts, t, hrun', hmore, hsim.same⟩
  · intro acts t hrun
    obtain ⟨acts', t', hrun', hmore, hsim⟩ := hrun.simulate (R := Sim) (L := MoreReads) h .nil
      .append fun _ _ _ _ hR hstep => hR.lead hstep
    exact ⟨acts', t', hrun', hmore, hsim.same⟩

end

end HostSide

end Epx
