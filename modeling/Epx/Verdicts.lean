import Epx.HandlerOrder

/-!
# What the host decides about requests

A record beside a `Desk`: the requests of one connection that came to a decision, in the order in
which they were accepted, each with what was decided. No decision is made about a request to the
protocol's own endpoint and about one for which the peer is disconnected.

The handlers that requests have led to are those that the record says, in its order, and the
RESPONSEs on the connection are those that it asks for.

## Main definitions

* `Verdict`, `verdictOn` — what is decided about a request
* `docketOf`, `Desk.docketed` — the decision of a pass, and the record after a step
* `Desk.Judged` — the record is what was done

## Main results

* `settles_of_pass`
* `Desk.Judged.step`
-/

namespace Epx

open Codec Exception Transition LoopState

/-- What is decided about a request. -/
inductive Verdict where
  /-- There is no such endpoint. -/
  | notFound
  /-- `authorize` has said no. -/
  | denied
  /-- There are too many subscriptions. -/
  | limited
  /-- The endpoint takes chunks, not requests. -/
  | wrongShape
  /-- The handler was called, and has answered. -/
  | answered (resp : Response)
  | subscribed
  /-- The handler was called, and writes a stream. -/
  | streaming
  deriving DecidableEq

namespace Verdict

/-- The status and the data of the RESPONSE. -/
def reply : Verdict → Option (UInt8 × Bytes)
  | .notFound => some (2, [])
  | .denied => some (3, tagBytes "access denied".toList)
  | .limited => some (1, tagBytes "subscription limit exceeded".toList)
  | .wrongShape => some (1, tagBytes "wrong call shape".toList)
  | .answered resp => some (if resp.ok then (0, resp.data) else (1, resp.error))
  | .subscribed | .streaming => none

/-- The RESPONSE that is written, unless the request is oneway. -/
def responses (v : Verdict) (req : RequestPayload) : List (FrameType × Bytes) :=
  if req.oneway = true then [] else (v.reply.map fun p => responseTo req p.1 p.2).toList

/-- The handler that is called. -/
def calls (v : Verdict) (req : RequestPayload) : List HandlerCall :=
  match v with
  | .answered _ => [.unary req.endpoint req.data]
  | .streaming => [.streamSend req.endpoint req.data]
  | .notFound | .denied | .limited | .wrongShape | .subscribed => []

end Verdict

/-- The decision about a request that `authorize` has let through. -/
def ruling (cfg : HostConfig) (env : Pass) (st : LoopState) (req : RequestPayload)
    (entry : EndpointEntry) : Verdict :=
  match entry.kind with
  | .topic =>
    if cfg.limits.maxSubscriptions > 0 ∧ st.mySubs.length ≥ cfg.limits.maxSubscriptions.toNat then
      .limited
    else .subscribed
  | .receive | .send => .answered (env.unary req.data req.endpoint)
  | .streamSend => .streaming
  | .streamReceive => .wrongShape

/-- The decision about a request within the rate limit. -/
def verdictOn (cfg : HostConfig) (env : Pass) (st : LoopState) (req : RequestPayload) :
    Option Verdict :=
  if req.endpoint = kUnsubscribeEndpoint then none
  else
    match env.handlers.lookup req.endpoint with
    | none => some .notFound
    | some entry =>
      match authorize cfg.serviceName env.view st.peer req.endpoint (cfg.accessOf entry)
        st.authzCache with
      | .ok (allowed, _) => some (if allowed then ruling cfg env st req entry else .denied)
      | .error _ => none

/-- The requests that came to a decision, with what was decided. -/
abbrev Docket := List (RequestPayload × Verdict)

namespace Docket

/-- The RESPONSEs that are written. -/
def responses (l : Docket) : List (FrameType × Bytes) := l.flatMap fun p => p.2.responses p.1

/-- The handlers that are called. -/
def calls (l : Docket) : List HandlerCall := l.flatMap fun p => p.2.calls p.1

end Docket

/-- What a pass decides. -/
def docketOf (S : Sodium) (cfg : HostConfig) (env : Pass) (st : LoopState) (f : RawFrame) :
    Docket :=
  match requestIn S st f with
  | none => []
  | some req =>
    if saturated cfg env st.delayedInARow then []
    else ((verdictOn cfg env st req).map fun v => (req, v)).toList

/-- A call of the handler of a request. -/
def HandlerCall.serves : HandlerCall → Bool
  | .unary _ _ | .streamSend _ _ => true
  | .streamRecv _ _ _ | .subscribe _ _ _ | .unsubscribe _ _ => false

namespace LoopState

/-- The calls of the handlers of requests. -/
def served (st : LoopState) : List HandlerCall := st.calls.filter HandlerCall.serves

/-- From `st` to `st'` the decisions `l` were carried out: the handlers were called and the
RESPONSEs written, and no write has failed. -/
structure Settles (S : Sodium) (st st' : LoopState) (l : Docket) : Prop where
  synced : st.Synced S → st'.Synced S
  written : ∃ xs, (st.Synced S → st'.written = st.written ++ xs) ∧
    xs.filter (fun x => x.1 = .response) = l.responses
  served : st'.served = st.served ++ l.calls
  alive : st'.conn.alive = true

end LoopState

section

variable {S : Sodium} {cfg : HostConfig} {env : Pass} {st st' : LoopState} {f : RawFrame}
  {req : RequestPayload} {l l' : Docket}

theorem LoopState.Settles.trans {st'' : LoopState} (h : st.Settles S st' l)
    (h' : st'.Settles S st'' l') : st.Settles S st'' (l ++ l') where
  synced hs := h'.synced (h.synced hs)
  written := by
    obtain ⟨xs, hxs, hresponses⟩ := h.written
    obtain ⟨ys, hys, hresponses'⟩ := h'.written
    refine ⟨xs ++ ys, fun hs => ?_, ?_⟩
    · rw [hys (h.synced hs), hxs hs, List.append_assoc]
    · rw [List.filter_append, hresponses, hresponses', Docket.responses, Docket.responses,
        Docket.responses, List.flatMap_append]
  served := by
    rw [h'.served, h.served, List.append_assoc, Docket.calls, Docket.calls, Docket.calls,
      List.flatMap_append]
  alive := h'.alive

theorem settles_of_writes {xs : List (FrameType × Bytes)} (hwrites : Writes S st st' xs)
    (hresponses : xs.filter (fun x => x.1 = .response) = l.responses)
    (hserved : st'.served = st.served ++ l.calls) (halive : st'.conn.alive = true) :
    st.Settles S st' l :=
  ⟨hwrites.synced, ⟨xs, hwrites.written, hresponses⟩, hserved, halive⟩

/-- Nothing is decided, and no handler of a request is called. -/
theorem settles_aside {xs : List (FrameType × Bytes)} (hwrites : Writes S st st' xs)
    (hresponses : ∀ x ∈ xs, x.1 ≠ .response) (hserved : st'.served = st.served)
    (halive : st'.conn.alive = true) : st.Settles S st' [] := by
  refine settles_of_writes hwrites ?_ (hserved.trans (List.append_nil _).symm) halive
  exact List.filter_eq_nil_iff.mpr fun x hx htype => hresponses x hx (of_decide_eq_true htype)

theorem settles_quiet (hwrites : Writes S st st' []) (hserved : st'.served = st.served)
    (halive : st'.conn.alive = true) : st.Settles S st' [] :=
  settles_aside hwrites (fun _ hx => absurd hx List.not_mem_nil) hserved halive

/-- A frame is opened. -/
theorem settles_accept (f : RawFrame) (opened : Bytes) (rx : RxState)
    (h : (st.accept f opened rx).Settles S st' l) : st.Settles S st' l := by
  obtain ⟨xs, hxs, hresponses⟩ := h.written
  exact ⟨fun hs => h.synced ⟨hs.frames, hs.alive⟩, ⟨xs, fun hs => hxs ⟨hs.frames, hs.alive⟩,
    hresponses⟩, h.served, h.alive⟩

/-- The handler of a request is called. -/
theorem served_called (st : LoopState) {call : HandlerCall} (hserves : call.serves = true) :
    (st.called call).served = st.served ++ [call] := by
  rw [served, called, List.filter_append, List.filter_cons_of_pos hserves]
  rfl

/-- Another handler is called. -/
theorem served_called_aside (st : LoopState) {call : HandlerCall} (hserves : call.serves = false) :
    (st.called call).served = st.served := by
  rw [served, called, List.filter_append, List.filter_cons_of_neg (by rw [hserves]; decide)]
  exact List.append_nil _

/-- A request is answered with the RESPONSE of its verdict. -/
theorem settles_reply (hquiet : Writes S st st' []) {v : Verdict} {status : UInt8} {data : Bytes}
    (hserved : st'.served = st.served ++ v.calls req) (halive : st'.conn.alive = true)
    (hreply : v.reply = some (status, data)) :
    st.Settles S (st'.reply S req status data true) [(req, v)] := by
  have hdocket : Docket.responses [(req, v)]
      = if req.oneway = true then [] else [responseTo req status data] := by
    rw [Docket.responses, List.flatMap_singleton, Verdict.responses, hreply]
    rfl
  have hserved' : (st'.reply S req status data true).served
      = st.served ++ Docket.calls [(req, v)] := by
    rw [Docket.calls, List.flatMap_singleton, ← hserved, served,
      show (st'.reply S req status data true).calls = st'.calls from
        congrArg Books.calls (books_reply req status data true)]
    rfl
  cases hask : req.oneway with
  | true =>
    rw [hask, if_pos rfl] at hdocket
    have hsame : st'.reply S req status data true = st' := if_pos hask
    rw [hsame] at hserved' ⊢
    exact settles_of_writes hquiet hdocket.symm hserved' halive
  | false =>
    rw [hask, if_neg (by decide)] at hdocket
    obtain ⟨hwrites, hend⟩ := sends_reply (S := S) halive hask status data
    exact settles_of_writes (hquiet.trans hwrites) hdocket.symm hserved' hend

/-- A verdict that asks for no RESPONSE. -/
theorem responses_of_silent {v : Verdict} (hsilent : v.reply = none) (req : RequestPayload) :
    Docket.responses [(req, v)] = [] := by
  rw [Docket.responses, List.flatMap_singleton, Verdict.responses, hsilent]
  exact ite_self _

variable (cfg) in
/-- A request that is let through. -/
theorem settles_serve (hwrote : ∀ i, env.wrote i = true) (halive : st.conn.alive = true)
    (req : RequestPayload) (entry : EndpointEntry) :
    st.Settles S (serve S cfg env st req entry) [(req, ruling cfg env st req entry)] := by
  have hcalled : ∀ c, Writes S st (st.called c) [] := fun c => .quiet rfl rfl rfl rfl fun h => h
  have hnone : st.served = st.served ++ [] := (List.append_nil _).symm
  rw [serve, ruling]
  cases hkind : entry.kind with
  | topic =>
    simp only
    split
    · rw [hwrote]
      exact settles_reply (writes_same st) hnone halive rfl
    · cases env.topics.lookup req.endpoint with
      | none =>
        exact settles_of_writes (writes_same st) (responses_of_silent rfl req).symm hnone halive
      | some topic =>
        refine settles_of_writes (.quiet rfl rfl rfl rfl fun h => h)
          (responses_of_silent rfl req).symm ?_ halive
        exact (served_called_aside _ rfl).trans hnone
  | receive | send =>
    have hserved : (st.called (.unary req.endpoint req.data)).served = st.served ++
        Verdict.calls (.answered (env.unary req.data req.endpoint)) req := served_called st rfl
    simp only [hwrote]
    split
    · next hok =>
      refine settles_reply (hcalled _) hserved halive ?_
      rw [Verdict.reply, if_pos hok]
    · next hok =>
      refine settles_reply (hcalled _) hserved halive ?_
      rw [Verdict.reply, if_neg hok]
  | streamSend =>
    have halive' : (st.called (.streamSend req.endpoint req.data)).conn.alive = true := halive
    obtain ⟨hwrites, hend⟩ := sends_chunks (S := S) halive' req.requestId
      (env.streamSend req.data req.endpoint) hwrote
    refine settles_of_writes ((hcalled _).trans hwrites) ?_ ?_ hend
    · rw [responses_of_silent rfl]
      refine List.filter_eq_nil_iff.mpr fun x hx htype => ?_
      obtain ⟨chunk, -, rfl⟩ := List.mem_map.mp hx
      exact absurd (of_decide_eq_true htype) (by decide : FrameType.streamChunk ≠ .response)
    · have hcalls : (LoopState.sendChunks S (st.called (.streamSend req.endpoint req.data))
          req.requestId (env.streamSend req.data req.endpoint) env.wrote).calls
            = (st.called (.streamSend req.endpoint req.data)).calls :=
        congrArg Books.calls (books_sendChunks _ _ _)
      rw [served, hcalls]
      exact served_called st rfl
  | streamReceive =>
    simp only [hwrote]
    exact settles_reply (writes_same st) hnone halive rfl

/-- **A request within the rate limit is settled** as it was decided. -/
theorem settles_dispatch (hwrote : ∀ i, env.wrote i = true) (halive : st.conn.alive = true)
    (h : dispatch S cfg env st req = .ok st') :
    st.Settles S st' ((verdictOn cfg env st req).map fun v => (req, v)).toList := by
  rw [dispatch] at h
  rw [verdictOn]
  split at h
  · next hun =>
    cases h
    rw [if_pos hun]
    refine settles_quiet ?_ ?_ ?_
    · rw [LoopState.unsubscribe]
      split
      · split
        · exact .quiet rfl rfl rfl rfl fun h => h
        · exact writes_same st
      · exact writes_same st
    · rw [LoopState.unsubscribe]
      split
      · split
        · exact served_called_aside _ rfl
        · rfl
      · rfl
    · rw [LoopState.unsubscribe]
      split
      · split
        · exact halive
        · exact halive
      · exact halive
  · next hun =>
    rw [if_neg hun]
    have hnone : st.served = st.served ++ [] := (List.append_nil _).symm
    cases hentry : env.handlers.lookup req.endpoint with
    | none =>
      rw [hentry] at h
      cases h
      rw [hwrote]
      exact settles_reply (writes_same st) hnone halive rfl
    | some entry =>
      simp only [hentry] at h ⊢
      obtain ⟨⟨allowed, cache⟩, hauth, h⟩ := bind_eq_ok.mp h
      cases h
      simp only [hauth]
      have hcache : Writes S st { st with authzCache := cache } [] :=
        .quiet rfl rfl rfl rfl fun h => h
      cases allowed with
      | false =>
        rw [if_neg (by decide), if_neg (by decide), hwrote]
        exact settles_reply hcache hnone halive rfl
      | true =>
        have halive' : ({ st with authzCache := cache } : LoopState).conn.alive = true := halive
        have hserve : LoopState.Settles S { st with authzCache := cache } _
            [(req, ruling cfg env st req entry)] := settles_serve cfg hwrote halive' req entry
        rw [if_pos rfl, if_pos rfl]
        exact (settles_quiet hcache rfl halive).trans hserve

theorem docketOf_of_none (h : requestIn S st f = none) : docketOf S cfg env st f = [] := by
  rw [docketOf, h]

theorem settles_handleRequest (hwrote : ∀ i, env.wrote i = true) (halive : st.conn.alive = true)
    (hf : f.type = .request) {o : Outcome} (h : handleRequest S cfg env st f = .ok o) :
    st.Settles S o.state (docketOf S cfg env st f) := by
  rw [handleRequest] at h
  cases hopen : openChecked S st.conn.v2 st.conn.rx f with
  | none =>
    rw [hopen] at h
    cases h
    rw [docketOf_of_none (requestIn_of_closed hopen)]
    exact settles_quiet (writes_same st) rfl halive
  | some p =>
    obtain ⟨opened, rx⟩ := p
    have hin : requestIn S st f = requestOf (f.type, opened) := by simp [requestIn, hopen]
    simp only [hopen] at h
    cases hdec : decodeRequest opened with
    | oob | reject =>
      rw [hdec] at h
      cases h
      rw [docketOf_of_none (by rw [hin]; simp [requestOf, hf, hdec])]
      exact settles_accept f opened rx (settles_quiet (writes_same _) rfl halive)
    | accept req =>
      have hreq : requestIn S st f = some req := by rw [hin]; simp [requestOf, hf, hdec]
      simp only [hdec] at h
      simp only [docketOf, hreq]
      have hrate : (st.accept f opened rx).Settles S (rateLimit cfg env (st.accept f opened rx)) []
        := settles_quiet (.quiet rfl rfl rfl rfl fun h => h) rfl halive
      refine settles_accept f opened rx ?_
      split at h
      · next hsat =>
        cases h
        have hsat' : saturated cfg env st.delayedInARow = true := hsat
        rw [if_pos hsat', hwrote]
        have halive' : (rateLimit cfg env (st.accept f opened rx)).conn.alive = true := halive
        obtain ⟨hwrites, hend⟩ := sends_sealed (S := S) halive' .error (by decide)
          (encodeError (rateLimitError cfg))
        refine hrate.trans (settles_aside hwrites (fun x hx => ?_) rfl hend)
        rw [List.mem_singleton.mp hx]
        exact (by decide : FrameType.error ≠ .response)
      · next hsat =>
        obtain ⟨st', hdispatch, h⟩ := bind_eq_ok.mp h
        cases h
        have hsat' : ¬ saturated cfg env st.delayedInARow = true := hsat
        rw [if_neg hsat']
        exact hrate.trans (settles_dispatch hwrote halive hdispatch)

theorem settles_handleChunk (halive : st.conn.alive = true) {o : Outcome}
    (h : handleChunk S cfg env st f = .ok o) : st.Settles S o.state [] := by
  rw [handleChunk] at h
  cases hopen : openChecked S st.conn.v2 st.conn.rx f with
  | none =>
    rw [hopen] at h
    cases h
    exact settles_quiet (writes_same st) rfl halive
  | some p =>
    obtain ⟨opened, rx⟩ := p
    simp only [hopen] at h
    refine settles_accept f opened rx ?_
    cases hdec : decodeStreamChunk opened with
    | oob | reject =>
      rw [hdec] at h
      cases h
      exact settles_quiet (writes_same _) rfl halive
    | accept chunk =>
      simp only [hdec] at h
      cases hentry : (env.handlers.lookup chunk.endpoint).filter
          fun e => e.kind = .streamReceive with
      | none =>
        rw [hentry] at h
        cases h
        exact settles_quiet (writes_same _) rfl halive
      | some entry =>
        simp only [hentry] at h
        obtain ⟨⟨allowed, cache⟩, -, h⟩ := bind_eq_ok.mp h
        cases h
        cases allowed with
        | false => exact settles_quiet (.quiet rfl rfl rfl rfl fun h => h) rfl halive
        | true =>
          refine settles_quiet (.quiet rfl rfl rfl rfl fun h => h) ?_ halive
          exact served_called_aside _ rfl

theorem settles_handleRekey (hwrote : ∀ i, env.wrote i = true) (halive : st.conn.alive = true)
    {o : Outcome} (h : handleRekey S env st f = .ok o) : st.Settles S o.state [] := by
  rw [handleRekey] at h
  split at h
  · cases h
    exact settles_quiet (writes_same st) rfl halive
  · next hv2 =>
    cases hopen : openChecked S st.conn.v2 st.conn.rx f with
    | none =>
      rw [hopen] at h
      cases h
      exact settles_quiet (writes_same st) rfl halive
    | some p =>
      obtain ⟨opened, rx⟩ := p
      simp only [hopen] at h
      refine settles_accept f opened rx ?_
      split at h
      · split at h
        · cases h
          exact settles_quiet (writes_same _) rfl halive
        · obtain ⟨nk, -, h⟩ := bind_eq_ok.mp h
          have hv2' : (st.accept f opened rx).conn.v2 = true := Bool.eq_true_of_not_eq_false hv2
          have halive' : (st.accept f opened rx).conn.alive = true := halive
          rw [hwrote] at h
          simp only [HostConn.sendRekeyAckAndSwitch, halive', Bool.true_eq_false, if_false,
            if_true] at h
          cases h
          refine settles_aside
            (.frame (x := (st.accept f opened rx).conn.tx.call .rekeyAck env.eph.publicKey.val) rfl
              rfl halive' rfl (by rw [hv2']; rfl) (by rfl)) (fun x hx => ?_) rfl rfl
          rw [List.mem_singleton.mp hx]
          exact (by decide : FrameType.rekeyAck ≠ .response)
      · cases h
        exact settles_quiet (writes_same _) rfl halive

/-- **What a pass decides is what it does.** -/
theorem settles_of_pass (hothers : env.othersAlive = true) (hwrote : ∀ i, env.wrote i = true)
    (halive : st.conn.alive = true) {o : Outcome} (h : pass S cfg env st f = .ok o) :
    st.Settles S o.state (docketOf S cfg env st f) := by
  have hnone : ∀ {type : FrameType}, f.type = type → type ≠ .request →
      docketOf S cfg env st f = [] := fun hf hne =>
    docketOf_of_none (requestIn_of_type (by rw [hf]; exact hne))
  rw [pass_of_othersAlive hothers] at h
  split at h
  · next hf =>
    cases h
    rw [hnone hf (by decide)]
    refine settles_quiet (.quiet rfl rfl rfl ?_ fun h => h) rfl halive
    cases env.wrote 0 <;> simp [sealedOut, Outcome.state, pongFrame, isCleartext]
  split at h
  · next hf =>
    cases h
    rw [hnone hf (by decide)]
    exact settles_quiet (writes_same st) rfl halive
  split at h
  · next hf =>
    cases h
    rw [hnone hf (by decide)]
    exact settles_quiet (writes_same st) rfl halive
  split at h
  · next hf =>
    rw [hnone hf (by decide)]
    exact settles_handleRekey hwrote halive h
  split at h
  · next hf =>
    rw [hnone hf (by decide)]
    exact settles_handleChunk halive h
  split at h
  · next hf => exact settles_handleRequest hwrote halive hf h
  · next hf =>
    cases h
    rw [hnone rfl hf]
    exact settles_quiet (writes_same st) rfl halive

/-- A decision is made about the request of the frame, if at all. -/
theorem docketOf_requests (S : Sodium) (cfg : HostConfig) (env : Pass) (st : LoopState)
    (f : RawFrame) :
    ((docketOf S cfg env st f).map Prod.fst).Sublist (requestIn S st f).toList := by
  rw [docketOf]
  cases requestIn S st f with
  | none => exact List.Sublist.refl _
  | some req =>
    simp only
    split
    · exact List.nil_sublist _
    · cases verdictOn cfg env st req with
      | none => exact List.nil_sublist _
      | some v => exact List.Sublist.refl _

/-- The decision about a request whose handler is called to write a stream. -/
theorem docketOf_of_openStream (h : openStream S cfg env st f = .ok (some (req, st'))) :
    docketOf S cfg env st f = [(req, .streaming)] ∧ st'.served = st.served ++ [.streamSend
      req.endpoint req.data] := by
  obtain ⟨opened, rx, entry, cache, hopen, hreq, hsat, hun, hentry, hkind, hauth, rfl⟩ :=
    (streams_of_openStream h).exists_open
  have hin : requestIn S st f = some req := by
    rw [requestIn, hopen, Option.bind_some]
    exact hreq
  refine ⟨?_, served_called _ rfl⟩
  simp only [docketOf, hin, hsat, verdictOn, if_neg hun, hentry, hauth, ruling, hkind]
  rfl

end

/-! ### The record -/

namespace Desk

/-- The record of connection `c` after a step. -/
def docketed (S : Sodium) (cfg : HostConfig) (c : ℕ) (d : Desk) (a : Act) (l : Docket) : Docket :=
  match a with
  | .hub (.frame c' f env) => if c' = c then l ++ docketOf S cfg env (d.hub.conns c) f else l
  | _ => l

/-- The record says what was decided, and what was decided was done. -/
structure Judged (c : ℕ) (l : Docket) (d : Desk) : Prop where
  requests : (l.map Prod.fst).Sublist (d.requests c)
  served : (d.hub.conns c).served = l.calls
  responses : (d.hub.conns c).written.filter (fun x => x.1 = .response) = l.responses

theorem judged_start (cfg : HostConfig) (run : ℕ → ServerRun) (acc : ℕ → Accept)
    (hs : ℕ → HandshakeResult) (c : ℕ) : Judged c [] (start cfg run acc hs) where
  requests := List.nil_sublist _
  served := rfl
  responses := rfl

section

variable {S : Sodium} {cfg : HostConfig} {c : ℕ} {d d' : Desk} {a : Act} {l : Docket}

/-- **A step in which no frame is handled**: nothing is written but chunks. -/
theorem Judged.aside (h : d.Judged c l) (hrequests : d'.requests c = d.requests c)
    (hcalls : (d'.hub.conns c).calls = (d.hub.conns c).calls) {xs : List (FrameType × Bytes)}
    (hwritten : (d'.hub.conns c).written = (d.hub.conns c).written ++ xs)
    (hxs : ∀ x ∈ xs, x.1 ≠ .response) : d'.Judged c l where
  requests := by rw [hrequests]; exact h.requests
  served := by rw [LoopState.served, hcalls]; exact h.served
  responses := by
    have hnone : xs.filter (fun x => x.1 = .response) = [] :=
      List.filter_eq_nil_iff.mpr fun x hx htype => hxs x hx (of_decide_eq_true htype)
    rw [hwritten, List.filter_append, hnone, List.append_nil]
    exact h.responses

/-- What is written about a subscription is a chunk. -/
theorem type_of_subscription (hfed : d.hub.Fed S c) {x : FrameType × Bytes}
    (hx : x ∈ (d.hub.conns c).written) {id : UInt64} (hm : mentions id x = true)
    (hno : ¬ d.hub.Own c id) : x.1 = .streamChunk := by
  obtain ⟨t, hmem⟩ := not_forall_not.mp hno
  obtain ⟨s, hs, hkey⟩ := List.mem_map.mp hmem
  obtain ⟨rfl, rfl⟩ := Prod.mk.inj hkey
  have hin : x ∈ about s.requestId (d.hub.conns s.conn).written := List.mem_filter.mpr ⟨hx, hm⟩
  rw [hfed.fed t s hs rfl] at hin
  obtain ⟨chunk, -, rfl⟩ := List.mem_map.mp hin
  rfl

/-- A step that is not the handling of a frame of the connection. -/
theorem Judged.of_aside (h : d.Judged c l) (hfed : d'.hub.Fed S c)
    (haside : Hub.Aside c d.hub d'.hub) : d'.Judged c l := by
  obtain ⟨xs, hwritten, hxs⟩ := haside.written
  refine h.aside haside.requests haside.calls hwritten fun x hx => ?_
  obtain ⟨id, hm, hno⟩ := hxs x hx
  have htype : x.1 = .streamChunk := by
    refine type_of_subscription hfed ?_ hm fun hown => hno fun t hmem =>
      hown t ((haside.keys t id).mpr hmem)
    rw [hwritten]
    exact List.mem_append_right _ hx
  rw [htype]
  decide

/-- **A frame of the connection is handled.** -/
theorem Judged.settled (h : d.Judged c l) (hsynced : (d.hub.conns c).Synced S) {f : RawFrame}
    {env : Pass} (htakes : (d.hub.conns c).Takes S f (d'.hub.conns c))
    (hsettles : (d.hub.conns c).Settles S (d'.hub.conns c)
      (docketOf S cfg env (d.hub.conns c) f)) :
    d'.Judged c (l ++ docketOf S cfg env (d.hub.conns c) f) where
  requests := by
    rw [List.map_append, Desk.requests, htakes.requests]
    exact h.requests.append (docketOf_requests S cfg env _ f)
  served := by
    rw [hsettles.served, h.served, Docket.calls, Docket.calls, Docket.calls, List.flatMap_append]
  responses := by
    obtain ⟨xs, hxs, hresponses⟩ := hsettles.written
    rw [hxs hsynced, List.filter_append, h.responses, hresponses, Docket.responses,
      Docket.responses, Docket.responses, List.flatMap_append]

/-- A handler writes a chunk. -/
theorem Judged.chunk (h : d.Judged c l) (hanswering : d.Answering S cfg c)
    (chunk : StreamChunkPayload) (hs : d.streaming c = some (chunk.requestId, chunk.seq))
    (hendpoint : chunk.endpoint = []) (next : Option (UInt64 × UInt32)) :
    (afterChunk S d c chunk next).Judged c l := by
  obtain ⟨-, -, hadv⟩ := hanswering.advance_chunk chunk hs hendpoint next
  have hcalls : ((afterChunk S d c chunk next).hub.conns c).calls = (d.hub.conns c).calls := by
    rw [show (afterChunk S d c chunk next).hub.conns c = _ from Function.update_self _ _ _]
    rfl
  refine h.aside (hadv.requests.trans (List.append_nil _)) hcalls hadv.written fun x hx => ?_
  rw [List.mem_singleton.mp hx]
  exact (by decide : FrameType.streamChunk ≠ .response)

/-- **Every step of a connection whose writes succeed.** -/
theorem Judged.step (h : d.Judged c l) (hanswering : d.Answering S cfg c)
    (hanswering' : d'.Answering S cfg c) (hstep : Step S cfg d a d') (hsucceeds : d.Succeeds c a) :
    d'.Judged c (docketed S cfg c d a l) := by
  have hfed := hanswering'.fed
  cases effect_of_step hstep with
  | @aside b hub hhub hframe _ =>
    have hsame : docketed S cfg c d (.hub b) l = l := by
      cases b with
      | frame c' f env => exact absurd rfl (hframe c' f env)
      | _ => rfl
    rw [hsame]
    exact h.of_aside hfed (Hub.aside_of_step hanswering.fed.synced hhub fun f env => hframe c f env)
  | @frame c' f env o hfree hphase hpass =>
    by_cases hc : c' = c
    · subst hc
      obtain ⟨hothers, hwrote, -⟩ := hsucceeds rfl
      have halive : (d.hub.conns c').conn.alive = true :=
        hanswering.lasting.alive (by rw [hphase]; exact id)
      have hself : (d.hub.handled c' o).conns c' = o.state := Function.update_self _ _ _
      rw [docketed, if_pos rfl]
      refine h.settled hanswering.fed.synced ?_ ?_
      · rw [hself]
        exact takes_of_pass hpass
      · rw [hself]
        exact settles_of_pass hothers hwrote halive hpass
    · rw [docketed, if_neg hc]
      exact h.of_aside hfed (Hub.aside_handled (Ne.symm hc) o)
  | @opened c' f env req st hfree hphase hopen =>
    by_cases hc : c' = c
    · subst hc
      have hself : (d.hub.handled c' (.next st)).conns c' = st := Function.update_self _ _ _
      obtain ⟨hdocket, hserved⟩ := docketOf_of_openStream hopen
      obtain ⟨hwritten, -⟩ := streams_of_opened (hsucceeds rfl).1 hopen
      rw [docketed, if_pos rfl]
      refine ⟨?_, ?_, ?_⟩
      · rw [List.map_append, Desk.requests, hself, (takes_of_openStream hopen).requests]
        exact h.requests.append (docketOf_requests S cfg env _ f)
      · rw [hself, hserved, h.served, hdocket, Docket.calls, Docket.calls, List.flatMap_append]
        rfl
      · have hsilent := responses_of_silent (v := .streaming) rfl req
        rw [hself, hwritten hanswering.fed.synced, h.responses, hdocket, Docket.responses,
          Docket.responses, List.flatMap_append]
        exact (List.append_nil _).symm.trans (congrArg _ hsilent.symm)
    · rw [docketed, if_neg hc]
      exact h.of_aside hfed (Hub.aside_handled (Ne.symm hc) (.next st))
  | @chunk c' data ok id seq hs =>
    by_cases hc : c' = c
    · subst hc
      cases hsucceeds rfl
      exact h.chunk hanswering { requestId := id, seq := seq, isLast := false, data := data } hs rfl
        _
    · exact h.of_aside hfed
        (Hub.aside_of_same (Function.update_of_ne (Ne.symm hc) _ _) fun _ _ => Iff.rfl)
  | @ended c' ok id seq hs =>
    by_cases hc : c' = c
    · subst hc
      cases hsucceeds rfl
      exact h.chunk hanswering { requestId := id, seq := seq, isLast := true, data := [] } hs rfl _
    · exact h.of_aside hfed
        (Hub.aside_of_same (Function.update_of_ne (Ne.symm hc) _ _) fun _ _ => Iff.rfl)

end

end Desk

end Epx
