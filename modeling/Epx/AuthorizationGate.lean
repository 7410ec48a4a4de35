import Epx.HostLoop
import Epx.Lib.Transition

/-!
# The authorization gate

Every call that `handle_connection` makes into the application, and every subscription, is behind
`authorize`. It answers from a cache that the connection keeps for each endpoint, so an answer is as
good as the first one that was given for that endpoint on this connection, and this file follows the
passes of the loop back to it.

A run of the loop is the sequence of frames it has read, each with what its pass found (`Pass`).

## Main definitions

* `Grants` — why `authorize` says yes to an endpoint it has not been asked about
* `nextPass` — a pass after which the loop goes on
* `FirstAnswer` — the pass of a run that asked about an endpoint for the first time

## Main results

* `exists_firstAnswer` — every answer is the first one
* `authorization_gate` — what is called is authorized, and what is denied is not called
* `certificate_at_first_answer` — a certificate is looked at when the endpoint is first called
-/

namespace Epx

open Codec Exception Transition

/-! ### Reasons -/

/-- The reasons for which access is granted, one for each tier and two for a prompt. -/
inductive Grants (service : Bytes) (view : HostView) (peer : PeerInfo) (endpoint : Bytes)
    (policy : AccessPolicy) : Prop
  | openAccess : policy.tier = .openAccess → Grants service view peer endpoint policy
  | pinnedPeers : policy.tier = .pinnedPeers →
      peer.publicKey ∈ view.allowedPeers ∨ view.isKnownClient peer.publicKey = true →
      Grants service view peer endpoint policy
  | certificate {c : Credential} : policy.tier = .certificate → c ∈ view.creds →
      c.issuer ∈ view.issuers → covers c peer.publicKey service endpoint view.now = true →
      Grants service view peer endpoint policy
  | persisted : policy.tier = .promptUser →
      view.loadAuthzDecision peer.publicKey endpoint = some true →
      Grants service view peer endpoint policy
  | prompted {cb : PeerInfo → Bytes → Bytes → PromptDecision} : policy.tier = .promptUser →
      view.loadAuthzDecision peer.publicKey endpoint = none → view.prompt = some cb →
      cb peer endpoint policy.promptReason ≠ .deny → Grants service view peer endpoint policy

theorem grants_of_decideAccess {service : Bytes} {view : HostView} {peer : PeerInfo}
    {endpoint : Bytes} {policy : AccessPolicy}
    (h : decideAccess service view peer endpoint policy = .ok true) :
    Grants service view peer endpoint policy := by
  rw [decideAccess] at h
  cases htier : policy.tier with
  | openAccess => exact .openAccess htier
  | pinnedPeers =>
    simp only [htier] at h
    refine .pinnedPeers htier ?_
    simpa using Except.ok.inj h
  | certificate =>
    simp only [htier] at h
    obtain ⟨c, hc, hcover⟩ := List.any_eq_true.mp (Except.ok.inj h)
    rw [Bool.and_eq_true, List.contains_iff_mem] at hcover
    exact .certificate htier hc hcover.1 hcover.2
  | promptUser =>
    simp only [htier] at h
    cases hload : view.loadAuthzDecision peer.publicKey endpoint with
    | some allowed =>
      rw [hload] at h
      cases h
      exact .persisted htier hload
    | none =>
      simp only [hload] at h
      cases hprompt : view.prompt with
      | none =>
        rw [hprompt] at h
        cases h
      | some cb =>
        simp only [hprompt] at h
        refine .prompted htier hload hprompt fun hdeny => ?_
        -- A denial is saved, and the answer after that is no.
        rw [if_pos (Or.inr hdeny)] at h
        obtain ⟨_, -, hanswer⟩ := bind_eq_ok.mp h
        simp [hdeny, pure, Except.pure] at hanswer

/-- **What `authorize` does**: the answer is kept under its endpoint; it is the one kept there
before, or a new decision. -/
theorem authorize_eq_ok {service : Bytes} {view : HostView} {peer : PeerInfo} {endpoint : Bytes}
    {policy : AccessPolicy} {connCache cache : List (Bytes × Bool)} {allowed : Bool}
    (h : authorize service view peer endpoint policy connCache = .ok (allowed, cache)) :
    (connCache.lookup endpoint = some allowed ∧ cache = connCache) ∨
      (connCache.lookup endpoint = none ∧ cache = (endpoint, allowed) :: connCache ∧
        decideAccess service view peer endpoint policy = .ok allowed) := by
  rw [authorize] at h
  cases hcache : connCache.lookup endpoint with
  | some kept =>
    rw [hcache] at h
    cases h
    exact Or.inl ⟨rfl, rfl⟩
  | none =>
    simp only [hcache] at h
    obtain ⟨allowed', hdecide, h⟩ := bind_eq_ok.mp h
    cases h
    exact Or.inr ⟨rfl, rfl, hdecide⟩

/-- Afterwards the answer is in the cache, and the answers about other endpoints are as before. -/
theorem lookup_of_authorize {service : Bytes} {view : HostView} {peer : PeerInfo}
    {endpoint other : Bytes} {policy : AccessPolicy} {connCache cache : List (Bytes × Bool)}
    {allowed : Bool}
    (h : authorize service view peer endpoint policy connCache = .ok (allowed, cache)) :
    cache.lookup other = if other = endpoint then some allowed else connCache.lookup other := by
  obtain ⟨hkept, rfl⟩ | ⟨hnone, rfl, -⟩ := authorize_eq_ok h
  · split
    · next heq => rw [heq, hkept]
    · rfl
  · by_cases heq : other = endpoint
    · simp [heq]
    · simp [List.lookup_cons, heq, beq_eq_false_iff_ne.mpr heq]

/-! ### The pass that asks -/

/-- The state in which a pass has opened its frame, with the cache as `authorize` leaves it. -/
def LoopState.asked (cfg : HostConfig) (env : Pass) (st : LoopState) (f : RawFrame) (opened : Bytes)
    (rx : RxState) (cache : List (Bytes × Bool)) : LoopState :=
  let st := { st with conn := { st.conn with alive := st.conn.alive && env.othersAlive } }
  let st := st.accept f opened rx
  { (if f.type = .request then rateLimit cfg env st else st) with authzCache := cache }

section

variable {S : Sodium} {cfg : HostConfig} {env : Pass} {st : LoopState} {f : RawFrame} {o : Outcome}

@[simp] theorem books_asked {opened : Bytes} {rx : RxState} {cache : List (Bytes × Bool)} :
    (st.asked cfg env f opened rx cache).books = ⟨st.peer, cache, st.mySubs, st.calls⟩ := by
  rw [LoopState.asked]
  split <;> rfl

@[simp] theorem out_asked {opened : Bytes} {rx : RxState} {cache : List (Bytes × Bool)} :
    (st.asked cfg env f opened rx cache).out = st.out := by
  rw [LoopState.asked]
  split <;> rfl

@[simp] theorem conn_asked {opened : Bytes} {rx : RxState} {cache : List (Bytes × Bool)} :
    (st.asked cfg env f opened rx cache).conn =
      { st.conn with
        alive := st.conn.alive && env.othersAlive
        rx := rx
        opened := st.conn.opened ++ [⟨rx.epoch, f.type, opened⟩] } := by
  rw [LoopState.asked]
  split <;> rfl

theorem pass_of_chunk {opened : Bytes} {rx : RxState} {chunk : StreamChunkPayload}
    {entry : EndpointEntry} (hf : f.type = .streamChunk)
    (ho : openChecked S st.conn.v2 st.conn.rx f = some (opened, rx))
    (hdec : decodeStreamChunk opened = .accept chunk)
    (hentry : (env.handlers.lookup chunk.endpoint).filter (fun e => e.kind = .streamReceive)
      = some entry)
    (h : pass S cfg env st f = .ok o) :
    ∃ allowed cache, authorize cfg.serviceName env.view st.peer chunk.endpoint
        (cfg.accessOf entry) st.authzCache = .ok (allowed, cache) ∧
      o = .next (if allowed then (st.asked cfg env f opened rx cache).called
          (.streamRecv chunk.endpoint chunk.data chunk.isLast)
        else st.asked cfg env f opened rx cache) := by
  have hask : ∀ cache, st.asked cfg env f opened rx cache =
      { ({ st with conn := { st.conn with alive := st.conn.alive && env.othersAlive } }
        : LoopState).accept f opened rx with authzCache := cache } := by
    intro cache
    simp only [LoopState.asked, hf, show FrameType.streamChunk ≠ .request by decide, if_false]
  simp only [pass, hf, handleChunk, ho, hdec, hentry, show FrameType.streamChunk ≠ .ping by decide,
    show FrameType.streamChunk ≠ .pong by decide, show FrameType.streamChunk ≠ .bye by decide,
    show FrameType.streamChunk ≠ .rekey by decide, if_false, if_true] at h
  obtain ⟨⟨allowed, cache⟩, hauth, h⟩ := bind_eq_ok.mp h
  refine ⟨allowed, cache, hauth, ?_⟩
  cases h
  rw [hask]

theorem pass_of_request {opened : Bytes} {rx : RxState} {req : RequestPayload}
    {entry : EndpointEntry} (hf : f.type = .request)
    (ho : openChecked S st.conn.v2 st.conn.rx f = some (opened, rx))
    (hdec : decodeRequest opened = .accept req)
    (hrate : saturated cfg env st.delayedInARow = false)
    (hun : req.endpoint ≠ kUnsubscribeEndpoint)
    (hentry : env.handlers.lookup req.endpoint = some entry)
    (h : pass S cfg env st f = .ok o) :
    ∃ allowed cache, authorize cfg.serviceName env.view st.peer req.endpoint
        (cfg.accessOf entry) st.authzCache = .ok (allowed, cache) ∧
      o = .next (if allowed then serve S cfg env (st.asked cfg env f opened rx cache) req entry
        else (st.asked cfg env f opened rx cache).reply S req 3 (tagBytes "access denied".toList)
          (env.wrote 0)) := by
  have hask : ∀ cache, st.asked cfg env f opened rx cache =
      { rateLimit cfg env (({ st with conn := { st.conn with
          alive := st.conn.alive && env.othersAlive } } : LoopState).accept f opened rx) with
        authzCache := cache } := by
    intro cache
    simp only [LoopState.asked, hf, if_true]
  have hrate' : saturated cfg env (({ st with conn := { st.conn with
      alive := st.conn.alive && env.othersAlive } } : LoopState).accept f opened rx).delayedInARow
      = false := hrate
  simp only [pass, hf, handleRequest, dispatch, ho, hdec, hrate', hun, hentry,
    show FrameType.request ≠ .ping by decide, show FrameType.request ≠ .pong by decide,
    show FrameType.request ≠ .bye by decide, show FrameType.request ≠ .rekey by decide,
    show FrameType.request ≠ .streamChunk by decide, if_false, if_true, Bool.false_eq_true] at h
  obtain ⟨st', hdispatch, h⟩ := bind_eq_ok.mp h
  obtain ⟨⟨allowed, cache⟩, hauth, hst⟩ := bind_eq_ok.mp hdispatch
  refine ⟨allowed, cache, hauth, ?_⟩
  cases h
  cases hst
  rw [hask]

@[simp] theorem cache_reply (req : RequestPayload) (status : UInt8) (data : Bytes) (ok : Bool) :
    (st.reply S req status data ok).authzCache = st.authzCache :=
  congrArg Books.authzCache (books_reply req status data ok)

theorem cache_serve (req : RequestPayload) (entry : EndpointEntry) :
    (serve S cfg env st req entry).authzCache = st.authzCache := by
  rw [serve]
  cases entry.kind with
  | topic =>
    simp only
    split
    · exact cache_reply _ _ _ _
    · split <;> rfl
  | receive | send =>
    simp only
    split <;> exact cache_reply _ _ _ _
  | streamSend => exact congrArg Books.authzCache (books_sendChunks _ _ _)
  | streamReceive => exact cache_reply _ _ _ _

/-- **A pass that asks gets an answer and keeps it.** -/
theorem answers_of_asks {endpoint : Bytes} {policy : AccessPolicy}
    (hasks : Asks S cfg env st f endpoint policy) (h : pass S cfg env st f = .ok o) :
    ∃ entry allowed cache, policy = cfg.accessOf entry ∧
      Answers S cfg env st f endpoint entry allowed cache ∧ o.state.authzCache = cache := by
  have hasks' := hasks
  cases hasks with
  | @chunk opened rx chunk entry hf ho hdec hentry =>
    obtain ⟨allowed, cache, hauth, rfl⟩ := pass_of_chunk hf ho hdec hentry h
    refine ⟨entry, allowed, cache, rfl,
      ⟨hasks', (Option.filter_eq_some_iff.mp hentry).1, hauth⟩, ?_⟩
    cases allowed <;> rfl
  | @request opened rx req entry hf ho hdec hrate hun hentry =>
    obtain ⟨allowed, cache, hauth, rfl⟩ := pass_of_request hf ho hdec hrate hun hentry h
    refine ⟨entry, allowed, cache, rfl, ⟨hasks', hentry, hauth⟩, ?_⟩
    cases allowed with
    | false => exact cache_reply _ _ _ _
    | true => exact cache_serve _ _

/-- The cache after a pass, for one endpoint: a new entry if the pass asked about it, and what was
there before if not. -/
theorem lookup_pass (h : pass S cfg env st f = .ok o) (endpoint : Bytes) :
    (∃ entry allowed cache, Answers S cfg env st f endpoint entry allowed cache ∧
        o.state.authzCache.lookup endpoint = some allowed) ∨
      ((∀ policy, ¬ Asks S cfg env st f endpoint policy) ∧
        o.state.authzCache.lookup endpoint = st.authzCache.lookup endpoint) := by
  by_cases hasks : ∃ policy, Asks S cfg env st f endpoint policy
  · obtain ⟨policy, hasks⟩ := hasks
    obtain ⟨entry, allowed, cache, -, hans, hcache⟩ := answers_of_asks hasks h
    refine Or.inl ⟨entry, allowed, cache, hans, ?_⟩
    rw [hcache, lookup_of_authorize hans.answer, if_pos rfl]
  · have hother : ∀ {endpoint' entry allowed cache},
        Answers S cfg env st f endpoint' entry allowed cache →
          cache.lookup endpoint = st.authzCache.lookup endpoint := by
      intro endpoint' entry allowed cache hans
      rw [lookup_of_authorize hans.answer, if_neg]
      rintro rfl
      exact hasks ⟨_, hans.asks⟩
    refine Or.inr ⟨fun policy hask => hasks ⟨policy, hask⟩, ?_⟩
    have heff := effect_of_pass h
    generalize hb : o.state.books = b at heff
    have hcache : o.state.authzCache = b.authzCache := congrArg Books.authzCache hb
    rw [hcache]
    cases heff with
    | idle => rfl
    | unsubscribed _ => rfl
    | denied hans => exact hother hans
    | subscribed hans _ _ _ => exact hother hans
    | served hans _ => exact hother hans

theorem peer_pass (h : pass S cfg env st f = .ok o) : o.state.peer = st.peer := by
  have heff := effect_of_pass h
  generalize hb : o.state.books = b at heff
  have hpeer : o.state.peer = b.peer := congrArg Books.peer hb
  rw [hpeer]
  cases heff <;> rfl

end

/-! ### Runs of the loop -/

section

variable (S : Sodium) (cfg : HostConfig)

/-- A pass after which the loop goes on. -/
def nextPass (st : LoopState) (p : RawFrame × Pass) : Option LoopState :=
  if p.2.running = false then none
  else
    match pass S cfg p.2 st p.1 with
    | .ok (.next st') => some st'
    | _ => none

/-- The loop has gone through the passes and is in state `st`. -/
def Reaches (start : LoopState) (passes : List (RawFrame × Pass)) (st : LoopState) : Prop :=
  Run (OfFun (nextPass S cfg)) start passes st

/-- One of the passes has asked about the endpoint. -/
def Asked (start : LoopState) (passes : List (RawFrame × Pass)) (endpoint : Bytes) : Prop :=
  ∃ pre p post st policy, passes = pre ++ p :: post ∧ Reaches S cfg start pre st ∧
    Asks S cfg p.2 st p.1 endpoint policy

/-- Among the passes, `p` was the first to ask about the endpoint. It was made in state `st`, found
the endpoint with `entry`, and decided. -/
structure FirstAnswer (start : LoopState) (passes : List (RawFrame × Pass)) (endpoint : Bytes)
    (st : LoopState) (p : RawFrame × Pass) (entry : EndpointEntry) (allowed : Bool) : Prop where
  first : ∃ pre post, passes = pre ++ p :: post ∧ Reaches S cfg start pre st ∧
    ¬ Asked S cfg start pre endpoint
  answers : ∃ cache, Answers S cfg p.2 st p.1 endpoint entry allowed cache
  decided : decideAccess cfg.serviceName p.2.view start.peer endpoint (cfg.accessOf entry)
    = .ok allowed

end

section

variable {S : Sodium} {cfg : HostConfig} {start st st' : LoopState}
  {passes : List (RawFrame × Pass)}
  {p : RawFrame × Pass} {endpoint : Bytes}

theorem pass_of_nextPass (h : nextPass S cfg st p = some st') :
    pass S cfg p.2 st p.1 = .ok (.next st') := by
  rw [nextPass] at h
  split at h
  · cases h
  · split at h
    · next heq =>
      cases h
      exact heq
    · cases h

theorem asked_snoc (hreach : Reaches S cfg start passes st)
    (h : Asked S cfg start (passes ++ [p]) endpoint) :
    Asked S cfg start passes endpoint ∨ ∃ policy, Asks S cfg p.2 st p.1 endpoint policy := by
  obtain ⟨pre, q, post, t, policy, happ, hpre, hasks⟩ := h
  rcases List.eq_nil_or_concat post with rfl | ⟨post', r, rfl⟩
  · obtain ⟨rfl, hq⟩ := List.append_inj' happ rfl
    cases hq
    rw [hreach.unique hpre] at hasks
    exact Or.inr ⟨policy, hasks⟩
  · rw [List.concat_eq_append, ← List.cons_append, ← List.append_assoc] at happ
    obtain ⟨rfl, -⟩ := List.append_inj' happ rfl
    exact Or.inl ⟨pre, q, post', t, policy, rfl, hpre, hasks⟩

theorem FirstAnswer.snoc {t : LoopState} {q : RawFrame × Pass} {entry : EndpointEntry}
    {allowed : Bool} (h : FirstAnswer S cfg start passes endpoint t q entry allowed) :
    FirstAnswer S cfg start (passes ++ [p]) endpoint t q entry allowed := by
  obtain ⟨pre, post, rfl, hpre, hfirst⟩ := h.first
  exact ⟨⟨pre, post ++ [p], by simp, hpre, hfirst⟩, h.answers, h.decided⟩

/-- What a run keeps: the peer is the one it started with, and the cache holds the first answer
about every endpoint that was asked about. -/
structure CacheInv (S : Sodium) (cfg : HostConfig) (start : LoopState)
    (passes : List (RawFrame × Pass)) (st : LoopState) : Prop where
  peer : st.peer = start.peer
  fresh : ∀ endpoint, st.authzCache.lookup endpoint = none → ¬ Asked S cfg start passes endpoint
  first : ∀ endpoint allowed, st.authzCache.lookup endpoint = some allowed →
    ∃ t q entry, FirstAnswer S cfg start passes endpoint t q entry allowed

/-- An answer is the first one about its endpoint, wherever it was given. -/
theorem CacheInv.firstAnswer (hinv : CacheInv S cfg start passes st)
    (hreach : Reaches S cfg start passes st) {entry : EndpointEntry} {allowed : Bool}
    {cache : List (Bytes × Bool)} (hans : Answers S cfg p.2 st p.1 endpoint entry allowed cache) :
    ∃ t q entry', FirstAnswer S cfg start (passes ++ [p]) endpoint t q entry' allowed := by
  obtain ⟨hkept, -⟩ | ⟨hnone, -, hdecide⟩ := authorize_eq_ok hans.answer
  · obtain ⟨t, q, entry', hfirst⟩ := hinv.first endpoint allowed hkept
    exact ⟨t, q, entry', hfirst.snoc⟩
  · rw [hinv.peer] at hdecide
    exact ⟨st, p, entry, ⟨passes, [], rfl, hreach, hinv.fresh endpoint hnone⟩, ⟨cache, hans⟩,
      hdecide⟩

theorem cacheInv_of_reaches (hstart : start.authzCache = [])
    (hreach : Reaches S cfg start passes st) :
    CacheInv S cfg start passes st := by
  induction hreach with
  | nil =>
    refine ⟨rfl, ?_, ?_⟩
    · rintro endpoint - ⟨pre, q, post, -, -, happ, -⟩
      simp at happ
    · intro endpoint allowed h
      rw [hstart] at h
      cases h
  | @snoc passes p st st' hreach hstep ih =>
    have hpass := pass_of_nextPass hstep
    refine ⟨(peer_pass hpass).trans ih.peer, ?_, ?_⟩
    · intro endpoint hnone hasked
      obtain ⟨entry, allowed, cache, -, hsome⟩ | ⟨hquiet, hsame⟩ := lookup_pass hpass endpoint
      · exact Option.some_ne_none _ (hsome.symm.trans hnone)
      · obtain hbefore | ⟨policy, hnow⟩ := asked_snoc hreach hasked
        · exact ih.fresh endpoint (hsame.symm.trans hnone) hbefore
        · exact hquiet policy hnow
    · intro endpoint allowed hsome
      obtain ⟨entry, allowed', cache, hans, hnew⟩ | ⟨-, hsame⟩ := lookup_pass hpass endpoint
      · obtain rfl : allowed' = allowed := Option.some.inj (hnew.symm.trans hsome)
        exact ih.firstAnswer hreach hans
      · obtain ⟨t, q, entry, hfirst⟩ := ih.first endpoint allowed (hsame.symm.trans hsome)
        exact ⟨t, q, entry, hfirst.snoc⟩

end

/-! ### The gate -/

/-- The call runs a handler of `endpoint` or adds a subscription to it. -/
def HandlerCall.Enters (endpoint : Bytes) (c : HandlerCall) : Prop :=
  c.Handles endpoint ∨ ∃ topic requestId, c = .subscribe endpoint topic requestId

/-- The answer to a request that is denied. -/
def deniedFrame (S : Sodium) (st : LoopState) (req : RequestPayload) : RawFrame :=
  (st.conn.tx.call .response (encodeResponse
    { requestId := req.requestId, status := 3, data := tagBytes "access denied".toList })).frame S
    st.conn.v2

section

variable {S : Sodium} {cfg : HostConfig} {env : Pass} {st : LoopState} {f : RawFrame} {o : Outcome}
  {endpoint : Bytes} {entry : EndpointEntry} {cache : List (Bytes × Bool)}

theorem HandlerCall.Handles.endpoint_eq {e e' : Bytes} {c : HandlerCall} (h : c.Handles e)
    (h' : c.Handles e') : e' = e := by
  cases h <;> cases h' <;> rfl

/-- What a pass calls, it has asked for. -/
theorem calls_pass (h : pass S cfg env st f = .ok o) :
    ∃ new, o.state.calls = st.calls ++ new ∧ ∀ c ∈ new, ∀ endpoint, c.Enters endpoint →
      ∃ entry cache, Answers S cfg env st f endpoint entry true cache := by
  have heff := effect_of_pass h
  generalize hb : o.state.books = b at heff
  have hcalls : o.state.calls = b.calls := congrArg Books.calls hb
  rw [hcalls]
  cases heff with
  | idle | denied _ => exact ⟨[], (List.append_nil _).symm, fun _ hc => by simp at hc⟩
  | unsubscribed _ =>
    refine ⟨_, rfl, fun c hc endpoint henters => ?_⟩
    rw [List.mem_singleton] at hc
    subst hc
    obtain hcall | ⟨topic, id, hcall⟩ := henters
    · cases hcall
    · cases hcall
  | subscribed hans _ _ _ =>
    refine ⟨_, rfl, fun c hc endpoint henters => ?_⟩
    rw [List.mem_singleton] at hc
    subst hc
    obtain hcall | ⟨topic, id, hcall⟩ := henters
    · cases hcall
    · cases hcall
      exact ⟨_, _, hans⟩
  | served hans hhandles =>
    refine ⟨_, rfl, fun c hc endpoint henters => ?_⟩
    rw [Option.mem_toList] at hc
    obtain hcall | ⟨topic, id, rfl⟩ := henters
    · rw [(hhandles c hc).endpoint_eq hcall]
      exact ⟨_, _, hans⟩
    · cases hhandles _ hc

theorem out_reply (req : RequestPayload) (status : UInt8) (data : Bytes) (ok : Bool) :
    (st.reply S req status data ok).out = st.out ++
      if req.oneway = false ∧ st.conn.alive = true ∧ ok = true then
        [(st.conn.tx.call .response (encodeResponse
          { requestId := req.requestId, status := status, data := data })).frame S st.conn.v2]
      else [] := by
  rw [LoopState.reply]
  cases req.oneway with
  | true => simp
  | false =>
    cases halive : st.conn.alive with
    | false => simp [LoopState.sendSealed, HostConn.sendSealed, halive]
    | true => cases ok <;> simp [LoopState.sendSealed, HostConn.sendSealed, halive]

/-- **A call that is denied** leaves nothing but the answer to a request. -/
theorem pass_denied (hans : Answers S cfg env st f endpoint entry false cache)
    (h : pass S cfg env st f = .ok o) :
    ∃ st', o = .next st' ∧ st'.calls = st.calls ∧ st'.mySubs = st.mySubs ∧
      (f.type = .streamChunk → st'.out = st.out) ∧
      ∀ opened rx req, f.type = .request →
        openChecked S st.conn.v2 st.conn.rx f = some (opened, rx) →
        decodeRequest opened = .accept req →
        st'.out = st.out ++
          if req.oneway = false ∧ (st.conn.alive && env.othersAlive) = true ∧
            env.wrote 0 = true then
            [deniedFrame S st req]
          else [] := by
  obtain ⟨hasks, hfound, hauth⟩ := hans
  generalize cfg.accessOf entry = policy at hasks hauth
  cases hasks with
  | @chunk opened rx chunk entry' hf ho hdec hentry =>
    obtain ⟨allowed, cache', hauth', rfl⟩ := pass_of_chunk hf ho hdec hentry h
    cases hauth.symm.trans hauth'
    have hbooks : (st.asked cfg env f opened rx cache).books
        = ⟨st.peer, cache, st.mySubs, st.calls⟩ := books_asked
    refine ⟨_, rfl, congrArg Books.calls hbooks, congrArg Books.mySubs hbooks,
      fun _ => out_asked, ?_⟩
    intro _ _ _ hrequest
    rw [hf] at hrequest
    cases hrequest
  | @request opened rx req entry' hf ho hdec hrate hun hentry =>
    obtain ⟨allowed, cache', hauth', rfl⟩ := pass_of_request hf ho hdec hrate hun hentry h
    cases hauth.symm.trans hauth'
    have hbooks : ((st.asked cfg env f opened rx cache).reply S req 3
        (tagBytes "access denied".toList) (env.wrote 0)).books
        = ⟨st.peer, cache, st.mySubs, st.calls⟩ := by rw [books_reply, books_asked]
    refine ⟨_, rfl, congrArg Books.calls hbooks, congrArg Books.mySubs hbooks, ?_, ?_⟩
    · intro hchunk
      rw [hf] at hchunk
      cases hchunk
    · intro opened' rx' req' _ ho' hdec'
      cases ho.symm.trans ho'
      cases hdec.symm.trans hdec'
      simp only [Bool.false_eq_true, if_false, out_reply, out_asked, conn_asked]
      rfl

end

/-- **The authorization gate.** In every pass of every run of the loop after a handshake:

* a handler that is called, and a subscription that is added, is for an endpoint about which
  `authorize` says yes in this pass, for the peer of the handshake and the policy in force;
* where `authorize` says yes about an endpoint, it said so the first time the connection asked
  about it, and then had one of the reasons of `Grants`, under the policy in force at that time;
* a call that is denied runs no handler, adds no subscription and ends nothing: a chunk is dropped,
  and a request is answered with status 3, unless it is oneway or cannot be written. -/
theorem authorization_gate (S : Sodium) (cfg : HostConfig) (run : ServerRun) (acc : Accept)
    (hs : HandshakeResult) {passes : List (RawFrame × Pass)} {st : LoopState} {f : RawFrame}
    {env : Pass} {o : Outcome} (hreach : Reaches S cfg (.start cfg run acc hs) passes st)
    (hpass : pass S cfg env st f = .ok o) :
    st.peer.publicKey = hs.peerIdentity ∧
    (∃ new, o.state.calls = st.calls ++ new ∧ ∀ c ∈ new, ∀ endpoint, c.Enters endpoint →
      ∃ entry cache, Answers S cfg env st f endpoint entry true cache) ∧
    (∀ endpoint entry cache, Answers S cfg env st f endpoint entry true cache →
      ∃ t p entry₁, FirstAnswer S cfg (.start cfg run acc hs) (passes ++ [(f, env)]) endpoint t p
          entry₁ true ∧
        Grants cfg.serviceName p.2.view st.peer endpoint (cfg.accessOf entry₁)) ∧
    (∀ endpoint entry cache, Answers S cfg env st f endpoint entry false cache →
      ∃ st', o = .next st' ∧ st'.calls = st.calls ∧ st'.mySubs = st.mySubs ∧
        (f.type = .streamChunk → st'.out = st.out) ∧
        ∀ opened rx req, f.type = .request →
          openChecked S st.conn.v2 st.conn.rx f = some (opened, rx) →
          decodeRequest opened = .accept req →
          st'.out = st.out ++
            if req.oneway = false ∧ (st.conn.alive && env.othersAlive) = true ∧
              env.wrote 0 = true then [deniedFrame S st req] else []) := by
  have hinv := cacheInv_of_reaches rfl hreach
  refine ⟨by rw [hinv.peer]; rfl, calls_pass hpass, ?_, ?_⟩
  · intro endpoint entry cache hans
    obtain ⟨t, p, entry₁, hfirst⟩ := hinv.firstAnswer (p := (f, env)) hreach hans
    refine ⟨t, p, entry₁, hfirst, ?_⟩
    rw [hinv.peer]
    exact grants_of_decideAccess hfirst.decided
  · intro endpoint entry cache hans
    exact pass_denied hans hpass

/-- **Certificates are checked once a connection.** While an endpoint is of the certificate tier, a
call to it is served only if a credential of a trusted issuer covered the peer when the connection
first asked about the endpoint. -/
theorem certificate_at_first_answer (S : Sodium) (cfg : HostConfig) (run : ServerRun)
    (acc : Accept) (hs : HandshakeResult) {passes : List (RawFrame × Pass)} {st : LoopState}
    {f : RawFrame} {env : Pass} {o : Outcome} {endpoint : Bytes} {c : HandlerCall}
    {new : List HandlerCall} (hreach : Reaches S cfg (.start cfg run acc hs) passes st)
    (hpass : pass S cfg env st f = .ok o) (hnew : o.state.calls = st.calls ++ new) (hc : c ∈ new)
    (henters : c.Enters endpoint)
    (htier : ∀ p ∈ passes ++ [(f, env)], ∀ entry, p.2.handlers.lookup endpoint = some entry →
      (cfg.accessOf entry).tier = .certificate) :
    ∃ t p entry, FirstAnswer S cfg (.start cfg run acc hs) (passes ++ [(f, env)]) endpoint t p
        entry true ∧
      ∃ cred ∈ p.2.view.creds, cred.issuer ∈ p.2.view.issuers ∧
        covers cred hs.peerIdentity cfg.serviceName endpoint p.2.view.now = true := by
  have hinv := cacheInv_of_reaches rfl hreach
  obtain ⟨new', hcalls, hentered⟩ := calls_pass hpass
  obtain rfl : new' = new := List.append_cancel_left (hcalls.symm.trans hnew)
  obtain ⟨entry, cache, hans⟩ := hentered c hc endpoint henters
  obtain ⟨t, p, entry₁, hfirst⟩ := hinv.firstAnswer (p := (f, env)) hreach hans
  refine ⟨t, p, entry₁, hfirst, ?_⟩
  obtain ⟨pre, post, happ, -, -⟩ := hfirst.first
  obtain ⟨cache₁, hans₁⟩ := hfirst.answers
  have hcert := htier p (by rw [happ]; simp) entry₁ hans₁.found
  have hgrants := grants_of_decideAccess hfirst.decided
  cases hgrants with
  | openAccess h | pinnedPeers h _ | persisted h _ | prompted h _ _ _ =>
    rw [hcert] at h
    cases h
  | certificate _ hmem hissuer hcovers => exact ⟨_, hmem, hissuer, hcovers⟩

/-! ### A credential that expires between two calls -/

namespace ExpiringCredential

def sodium : Sodium := .symbolic []

def config : HostConfig :=
  { serviceName := [115], policy := .allowAll, defaultAccess := { tier := .certificate } }

def serverRun : ServerRun :=
  { self := ⟨Block.fill 32 4, Block.fill 64 4⟩, serviceName := [115], myMax := 2
    ephemeral := ⟨Block.fill 32 5, Block.fill 32 5⟩, serverNonce := Block.fill 16 6 }

def peerKey : PublicKey := Block.fill 32 1

/-- The peer's credential for the whole service, good until second 100. -/
def credential : Credential :=
  { peer := peerKey, scope := [115], expires := 100, issuer := Block.fill 32 9
    signature := Block.zero 64 }

/-- What the host finds at second `now`. -/
def view (now : UInt64) : HostView :=
  { allowedPeers := [], issuers := [Block.fill 32 9], creds := [credential], now := now
    prompt := none, isKnownClient := fun _ => false, loadAuthzDecision := fun _ _ => none
    knownClientsDir := .ok (), authzDir := .ok () }

def accept : Accept := { admitted := true, peerUid := 0, view := view 0, ackWritten := true }

def result : HandshakeResult :=
  { keys := ⟨Block.fill 32 2, Block.fill 32 3⟩, peerIdentity := peerKey, version := 2 }

def start : LoopState := .start config serverRun accept result

def passAt (now : UInt64) : Pass :=
  { running := true, othersAlive := true, view := view now
    handlers := [([101], { kind := .receive })], topics := [], token := true
    eph := serverRun.ephemeral, wrote := fun _ => true, unary := fun _ _ => ⟨true, [], []⟩
    streamSend := fun _ _ => [] }

/-- The request that the peer seals as its `n`-th. -/
def request (n : UInt64) : RawFrame :=
  ((⟨Block.fill 32 2, 0, n⟩ : TxState).call .request
    (encodeRequest { requestId := n, endpoint := [101] })).frame sodium true

/-- The state after a call at second 50. -/
def afterFirst : LoopState := (nextPass sodium config start (request 0, passAt 50)).getD start

/-- The state after another call at second 200. -/
def afterSecond : LoopState :=
  (nextPass sodium config afterFirst (request 1, passAt 200)).getD start

theorem reaches_afterFirst :
    Reaches sodium config start [(request 0, passAt 50)] afterFirst :=
  run_of_exec (by decide +kernel)

theorem pass_second :
    pass sodium config (passAt 200) afterFirst (request 1) = .ok (.next afterSecond) := by
  decide +kernel

theorem calls_second : afterSecond.calls = afterFirst.calls ++ [.unary [101] []] := by
  decide +kernel

theorem tier_of_mem (p : RawFrame × Pass)
    (hp : p ∈ [(request 0, passAt 50)] ++ [(request 1, passAt 200)]) (entry : EndpointEntry)
    (hentry : p.2.handlers.lookup [101] = some entry) :
    (config.accessOf entry).tier = .certificate := by
  simp only [List.cons_append, List.nil_append, List.mem_cons, List.not_mem_nil, or_false] at hp
  obtain rfl | rfl := hp
  · cases hentry
    rfl
  · cases hentry
    rfl

end ExpiringCredential

open ExpiringCredential

/-- The gate in the second pass of the run: its call was authorized from the cache. -/
theorem authorization_gate_cached :
    afterFirst.peer.publicKey = peerKey ∧
    ∃ new, afterSecond.calls = afterFirst.calls ++ new ∧ ∀ c ∈ new, ∀ endpoint,
      c.Enters endpoint →
      ∃ entry cache, Answers sodium config (passAt 200) afterFirst (request 1) endpoint entry true
        cache := by
  have hgate := authorization_gate sodium config serverRun accept result reaches_afterFirst
    pass_second
  exact ⟨hgate.1, hgate.2.1⟩

theorem certificate_at_first_answer_expired :
    ∃ t p entry, FirstAnswer sodium config start
        ([(request 0, passAt 50)] ++ [(request 1, passAt 200)]) [101] t p entry true ∧
      ∃ cred ∈ p.2.view.creds, cred.issuer ∈ p.2.view.issuers ∧
        covers cred peerKey [115] [101] p.2.view.now = true :=
  certificate_at_first_answer sodium config serverRun accept result reaches_afterFirst pass_second
    calls_second (List.mem_singleton.mpr rfl) (Or.inl .unary) tier_of_mem

/-- The call at second 200 is served although no credential covers it any more. -/
theorem expired_credential_served :
    ¬ ∀ (S : Sodium) (cfg : HostConfig) (run : ServerRun) (acc : Accept) (hs : HandshakeResult)
        (passes : List (RawFrame × Pass)) (st : LoopState) (f : RawFrame) (env : Pass) (o : Outcome)
        (endpoint : Bytes) (c : HandlerCall) (new : List HandlerCall),
      Reaches S cfg (.start cfg run acc hs) passes st → pass S cfg env st f = .ok o →
      o.state.calls = st.calls ++ new → c ∈ new → c.Enters endpoint →
      (∀ p ∈ passes ++ [(f, env)], ∀ entry, p.2.handlers.lookup endpoint = some entry →
        (cfg.accessOf entry).tier = .certificate) →
      ∃ cred ∈ env.view.creds, cred.issuer ∈ env.view.issuers ∧
        covers cred hs.peerIdentity cfg.serviceName endpoint env.view.now = true := by
  intro hclaim
  obtain ⟨cred, hcred, -, hcovers⟩ := hclaim sodium config serverRun accept result _ afterFirst
    (request 1) (passAt 200) _ [101] _ _ reaches_afterFirst pass_second calls_second
    (List.mem_singleton.mpr rfl) (Or.inl .unary) tier_of_mem
  rw [show (passAt 200).view.creds = [credential] from rfl, List.mem_singleton] at hcred
  subst hcred
  have hexpired : covers credential result.peerIdentity config.serviceName [101]
      (passAt 200).view.now = false := by decide +kernel
  rw [hexpired] at hcovers
  cases hcovers

end Epx
