import Epx.Access
import Epx.Session.Host

/-!
# The frame loop of a host connection

`handle_connection` of `src/host.cpp` from the first byte to the last: the handshake, and then the
loop that opens frames, answers rotations, limits the rate of requests, asks `authorize` and calls
the application's handlers.

The peer's bytes are fixed in advance. Everything else that a pass through the loop depends on is in
a record of its own (`Pass`): what the tables of the host and its keystore hold at that moment, what
the handlers answer, whether a token was there, which ephemeral is drawn, which writes succeed, and
whether a write of another thread on this connection has failed meanwhile. Handlers do not throw,
and those that are registered are not empty.

Frames that are written and calls that are made are kept in the state as a record.

## Main definitions

* `Pass`, `LoopState`, `pass` — one iteration of the loop
* `readFrames` — the frames of a byte stream
* `handleConnection`

## Main results

* `length_lt_of_readFrame` — every frame takes bytes off the stream, so the loop ends
-/

namespace Epx

open Codec Exception

/-! ### The host -/

/-- `kUnsubscribeEndpoint`. -/
def kUnsubscribeEndpoint : Bytes := tagBytes "$epx/unsubscribe".toList

/-- `EndpointKind`. -/
inductive EndpointKind where
  | receive
  | send
  | streamReceive
  | streamSend
  | topic
  deriving DecidableEq

/-- `EndpointEntry`; without a policy of its own the endpoint has the host's default. -/
structure EndpointEntry where
  kind : EndpointKind
  access : Option AccessPolicy := none
  deriving DecidableEq

/-- `Response`. -/
structure Response where
  ok : Bool
  data : Bytes := []
  error : Bytes := []
  deriving DecidableEq

/-- The part of `ConnectionLimits` that the loop reads; zero is no limit. -/
structure ConnectionLimits where
  maxRequestsPerSec : UInt32 := 0
  disconnectAfterDelayed : UInt32 := 100
  maxSubscriptions : UInt32 := 32
  deriving DecidableEq

/-- What a host is set up with. -/
structure HostConfig where
  serviceName : Bytes
  policy : TrustPolicy
  defaultAccess : AccessPolicy := {}
  limits : ConnectionLimits := {}
  deriving DecidableEq

/-- `entry.access ? *entry.access : default_access`. -/
def HostConfig.accessOf (cfg : HostConfig) (entry : EndpointEntry) : AccessPolicy :=
  entry.access.getD cfg.defaultAccess

/-- What one pass through the loop finds, draws and is told. -/
structure Pass where
  running : Bool
  /-- No other thread's write on this connection has failed. -/
  othersAlive : Bool
  view : HostView
  handlers : List (Bytes × EndpointEntry)
  /-- The topics that `find_topic` finds: an endpoint that is exposed again gets a new one. -/
  topics : List (Bytes × ℕ)
  /-- `req_bucket.try_take()`. -/
  token : Bool
  eph : EphemeralKeyPair
  /-- Whether the writes of this pass succeed, in order. -/
  wrote : ℕ → Bool
  /-- What `entry.unary` answers to data and endpoint. -/
  unary : Bytes → Bytes → Response
  /-- The chunks that `entry.stream_send` writes. -/
  streamSend : Bytes → Bytes → List Bytes

/-- A call into the application, or to a topic. -/
inductive HandlerCall where
  | unary (endpoint data : Bytes)
  | streamRecv (endpoint data : Bytes) (isLast : Bool)
  | streamSend (endpoint data : Bytes)
  | subscribe (endpoint : Bytes) (topic : ℕ) (requestId : UInt64)
  | unsubscribe (topic : ℕ) (requestId : UInt64)
  deriving DecidableEq

/-- The locals of `handle_connection`, with what has been written and called. -/
structure LoopState where
  conn : HostConn
  peer : PeerInfo
  authzCache : List (Bytes × Bool) := []
  mySubs : List (ℕ × UInt64) := []
  delayedInARow : UInt32 := 0
  out : List RawFrame := []
  calls : List HandlerCall := []
  deriving DecidableEq

/-- How a pass ends: the loop goes on, or `break`. -/
inductive Outcome where
  | next (st : LoopState)
  | stop (st : LoopState)
  deriving DecidableEq

section

variable (S : Sodium)

namespace LoopState

/-- `cs->send_sealed`. -/
def sendSealed (st : LoopState) (type : FrameType) (plaintext : Bytes) (ok : Bool) : LoopState :=
  { st with
    conn := (st.conn.sendSealed S type plaintext ok).1
    out := st.out ++ (st.conn.sendSealed S type plaintext ok).2.toList }

/-- The `reply` lambda. -/
def reply (st : LoopState) (req : RequestPayload) (status : UInt8) (data : Bytes) (ok : Bool) :
    LoopState :=
  if req.oneway then st
  else
    st.sendSealed S .response
      (encodeResponse { requestId := req.requestId, status := status, data := data }) ok

/-- `open_checked` has accepted a frame. -/
def accept (st : LoopState) (f : RawFrame) (opened : Bytes) (rx : RxState) : LoopState :=
  { st with
    conn := { st.conn with rx := rx, opened := st.conn.opened ++ [⟨rx.epoch, f.type, opened⟩] } }

def called (st : LoopState) (c : HandlerCall) : LoopState := { st with calls := st.calls ++ [c] }

/-- `send_stream_chunk`. -/
def sendChunk (st : LoopState) (requestId : UInt64) (seq : ℕ) (isLast : Bool) (data : Bytes)
    (ok : Bool) : LoopState :=
  st.sendSealed S .streamChunk (encodeStreamChunk
    { requestId := requestId, seq := UInt32.ofNat seq, isLast := isLast, data := data }) ok

/-- The chunks of a StreamSend handler and the end-of-stream marker. -/
def sendChunks (st : LoopState) (requestId : UInt64) (chunks : List Bytes) (wrote : ℕ → Bool) :
    LoopState :=
  let st :=
    chunks.zipIdx.foldl (fun st (chunk, i) => st.sendChunk S requestId i false chunk (wrote i)) st
  st.sendChunk S requestId chunks.length true [] (wrote chunks.length)

/-- The protocol-internal endpoint that drops the first subscription of this connection with the
request id in the data. -/
def unsubscribe (st : LoopState) (data : Bytes) : LoopState :=
  if h : data.length = 8 then
    match st.mySubs.find? fun sub => sub.2 = getU64 ⟨data, h⟩ with
    | some sub => { st with mySubs := st.mySubs.erase sub }.called (.unsubscribe sub.1 sub.2)
    | none => st
  else st

end LoopState

/-- A call that has been authorized. -/
def serve (cfg : HostConfig) (env : Pass) (st : LoopState) (req : RequestPayload)
    (entry : EndpointEntry) : LoopState :=
  match entry.kind with
  | .topic =>
    if cfg.limits.maxSubscriptions > 0 ∧ st.mySubs.length ≥ cfg.limits.maxSubscriptions.toNat then
      st.reply S req 1 (tagBytes "subscription limit exceeded".toList) (env.wrote 0)
    else
      match env.topics.lookup req.endpoint with
      | some topic =>
        { st with mySubs := st.mySubs ++ [(topic, req.requestId)] }.called
          (.subscribe req.endpoint topic req.requestId)
      | none => st
  | .receive | .send =>
    let resp := env.unary req.data req.endpoint
    let st := st.called (.unary req.endpoint req.data)
    if resp.ok then st.reply S req 0 resp.data (env.wrote 0)
    else st.reply S req 1 resp.error (env.wrote 0)
  | .streamSend =>
    (st.called (.streamSend req.endpoint req.data)).sendChunks S req.requestId
      (env.streamSend req.data req.endpoint) env.wrote
  | .streamReceive => st.reply S req 1 (tagBytes "wrong call shape".toList) (env.wrote 0)

/-- A request within the rate limit. -/
def dispatch (cfg : HostConfig) (env : Pass) (st : LoopState) (req : RequestPayload) :
    Except Exn LoopState :=
  if req.endpoint = kUnsubscribeEndpoint then pure (st.unsubscribe req.data)
  else
    match env.handlers.lookup req.endpoint with
    | none => pure (st.reply S req 2 [] (env.wrote 0)) -- not_found
    | some entry => do
      let (allowed, cache) ← authorize cfg.serviceName env.view st.peer req.endpoint
        (cfg.accessOf entry) st.authzCache
      let st := { st with authzCache := cache }
      pure (if allowed then serve S cfg env st req entry
        else st.reply S req 3 (tagBytes "access denied".toList) (env.wrote 0))

/-- The count of delayed requests after the rate limit; a request without a token is delayed. -/
def rateLimit (cfg : HostConfig) (env : Pass) (st : LoopState) : LoopState :=
  { st with
    delayedInARow :=
      if cfg.limits.maxRequestsPerSec = 0 then st.delayedInARow
      else if env.token then 0
      else st.delayedInARow + 1 }

/-- The request would be delayed once too often in a row: the peer is disconnected. -/
def saturated (cfg : HostConfig) (env : Pass) (delayedInARow : UInt32) : Bool :=
  cfg.limits.maxRequestsPerSec > 0 ∧ env.token = false ∧
    delayedInARow + 1 > cfg.limits.disconnectAfterDelayed

/-- The ERROR payload for a peer that is disconnected for its rate. -/
def rateLimitError (cfg : HostConfig) : ErrorPayload :=
  { reason := kErrRateLimited
    message := tagBytes ("request rate limit exceeded (".toList ++
      (toString cfg.limits.maxRequestsPerSec.toNat).toList ++ "/s)".toList) }

/-- A REQUEST frame. -/
def handleRequest (cfg : HostConfig) (env : Pass) (st : LoopState) (f : RawFrame) :
    Except Exn Outcome :=
  match openChecked S st.conn.v2 st.conn.rx f with
  | none => pure (.stop st)
  | some (opened, rx) =>
    let st := st.accept f opened rx
    match decodeRequest opened with
    | .accept req =>
      if saturated cfg env st.delayedInARow then
        pure (.stop ((rateLimit cfg env st).sendSealed S .error (encodeError (rateLimitError cfg))
          (env.wrote 0)))
      else do
        let st ← dispatch S cfg env (rateLimit cfg env st) req
        pure (.next st)
    | _ => pure (.stop st)

/-- A STREAM_CHUNK frame. Chunks that are denied or have no handler are dropped. -/
def handleChunk (cfg : HostConfig) (env : Pass) (st : LoopState) (f : RawFrame) :
    Except Exn Outcome :=
  match openChecked S st.conn.v2 st.conn.rx f with
  | none => pure (.stop st)
  | some (opened, rx) =>
    let st := st.accept f opened rx
    match decodeStreamChunk opened with
    | .accept chunk =>
      match (env.handlers.lookup chunk.endpoint).filter fun e => e.kind = .streamReceive with
      | none => pure (.next st)
      | some entry => do
        let (allowed, cache) ← authorize cfg.serviceName env.view st.peer chunk.endpoint
          (cfg.accessOf entry) st.authzCache
        let st := { st with authzCache := cache }
        pure (.next (if allowed then
          st.called (.streamRecv chunk.endpoint chunk.data chunk.isLast) else st))
    | _ => pure (.stop st)

/-- A REKEY frame. -/
def handleRekey (env : Pass) (st : LoopState) (f : RawFrame) : Except Exn Outcome :=
  if st.conn.v2 = false then pure (.stop st) -- invalid in a v1 session
  else
    match openChecked S st.conn.v2 st.conn.rx f with
    | none => pure (.stop st)
    | some (opened, rx) =>
      let st := st.accept f opened rx
      if h : opened.length = 32 then
        if st.conn.tx.epoch ≥ 255 then pure (.stop st) -- epoch space exhausted
        else do
          let nk ← serverSessionKeys S env.eph ⟨opened, h⟩
          let (conn, frame) := st.conn.sendRekeyAckAndSwitch S env.eph nk (env.wrote 0)
          let st := { st with conn := conn, out := st.out ++ frame.toList }
          pure (if conn.reader = .running then .next st else .stop st)
      else pure (.stop st)

/-- One pass through the loop, with the frame it has read. -/
def pass (cfg : HostConfig) (env : Pass) (st : LoopState) (f : RawFrame) : Except Exn Outcome :=
  let st := { st with conn := { st.conn with alive := st.conn.alive && env.othersAlive } }
  if f.type = .ping then
    pure (.next { st with out := st.out ++ if env.wrote 0 then [pongFrame] else [] })
  else if f.type = .pong then pure (.next st)
  else if f.type = .bye then pure (.stop st)
  else if f.type = .rekey then handleRekey S env st f
  else if f.type = .streamChunk then handleChunk S cfg env st f
  else if f.type = .request then handleRequest S cfg env st f
  else pure (.next st)

/-- The loop, over the frames that `read_frame` will give. -/
def frameLoop (cfg : HostConfig) : LoopState → List (RawFrame × Pass) → Except Exn LoopState
  | st, [] => pure st
  | st, (f, env) :: rest =>
    if env.running = false then pure st
    else do
      match ← pass S cfg env st f with
      | .next st => frameLoop cfg st rest
      | .stop st => pure st

/-! ### What a pass does to the tables of the connection -/

/-- The state a pass ends in. -/
def Outcome.state : Outcome → LoopState
  | .next st => st
  | .stop st => st

/-- The part of the state that the writes of a pass leave alone. -/
structure Books where
  peer : PeerInfo
  authzCache : List (Bytes × Bool)
  mySubs : List (ℕ × UInt64)
  calls : List HandlerCall

def LoopState.books (st : LoopState) : Books := ⟨st.peer, st.authzCache, st.mySubs, st.calls⟩

/-- The call is one to the handler of `endpoint`. -/
inductive HandlerCall.Handles (endpoint : Bytes) : HandlerCall → Prop
  | unary {data : Bytes} : Handles endpoint (.unary endpoint data)
  | streamRecv {data : Bytes} {isLast : Bool} : Handles endpoint (.streamRecv endpoint data isLast)
  | streamSend {data : Bytes} : Handles endpoint (.streamSend endpoint data)

variable (cfg : HostConfig)

/-- The frame makes the host ask `authorize` about an endpoint with this policy. -/
inductive Asks (env : Pass) (st : LoopState) (f : RawFrame) : Bytes → AccessPolicy → Prop
  | chunk {opened : Bytes} {rx : RxState} {chunk : StreamChunkPayload} {entry : EndpointEntry} :
      f.type = .streamChunk → openChecked S st.conn.v2 st.conn.rx f = some (opened, rx) →
      decodeStreamChunk opened = .accept chunk →
      (env.handlers.lookup chunk.endpoint).filter (fun e => e.kind = .streamReceive) = some entry →
      Asks env st f chunk.endpoint (cfg.accessOf entry)
  | request {opened : Bytes} {rx : RxState} {req : RequestPayload} {entry : EndpointEntry} :
      f.type = .request → openChecked S st.conn.v2 st.conn.rx f = some (opened, rx) →
      decodeRequest opened = .accept req → saturated cfg env st.delayedInARow = false →
      req.endpoint ≠ kUnsubscribeEndpoint → env.handlers.lookup req.endpoint = some entry →
      Asks env st f req.endpoint (cfg.accessOf entry)

/-- `authorize` gives its answer about an endpoint, which a pass has found with `entry`. -/
structure Answers (env : Pass) (st : LoopState) (f : RawFrame) (endpoint : Bytes)
    (entry : EndpointEntry) (allowed : Bool) (cache : List (Bytes × Bool)) : Prop where
  asks : Asks S cfg env st f endpoint (cfg.accessOf entry)
  found : env.handlers.lookup endpoint = some entry
  answer : authorize cfg.serviceName env.view st.peer endpoint (cfg.accessOf entry) st.authzCache
    = .ok (allowed, cache)

/-- One constructor for each way a pass can change the tables. -/
inductive PassEffect (env : Pass) (st : LoopState) (f : RawFrame) : Books → Prop
  | idle : PassEffect env st f st.books
  | unsubscribed {sub : ℕ × UInt64} : sub ∈ st.mySubs →
      PassEffect env st f ⟨st.peer, st.authzCache, st.mySubs.erase sub,
        st.calls ++ [.unsubscribe sub.1 sub.2]⟩
  | denied {endpoint : Bytes} {entry : EndpointEntry} {cache : List (Bytes × Bool)} :
      Answers S cfg env st f endpoint entry false cache →
      PassEffect env st f ⟨st.peer, cache, st.mySubs, st.calls⟩
  | subscribed {endpoint : Bytes} {entry : EndpointEntry} {cache : List (Bytes × Bool)}
      {topic : ℕ} {requestId : UInt64} :
      Answers S cfg env st f endpoint entry true cache → entry.kind = .topic →
      (cfg.limits.maxSubscriptions > 0 →
        st.mySubs.length < cfg.limits.maxSubscriptions.toNat) →
      env.topics.lookup endpoint = some topic →
      PassEffect env st f ⟨st.peer, cache, st.mySubs ++ [(topic, requestId)],
        st.calls ++ [.subscribe endpoint topic requestId]⟩
  /-- At most one handler is called; none for a subscription that is refused and for a request of
  the wrong shape. -/
  | served {endpoint : Bytes} {entry : EndpointEntry} {cache : List (Bytes × Bool)}
      {call : Option HandlerCall} :
      Answers S cfg env st f endpoint entry true cache →
      (∀ c ∈ call, c.Handles endpoint) →
      PassEffect env st f ⟨st.peer, cache, st.mySubs, st.calls ++ call.toList⟩

end

section

variable {S : Sodium} {cfg : HostConfig} {env : Pass} {st : LoopState} {f : RawFrame}

@[simp] theorem books_sendSealed (type : FrameType) (plaintext : Bytes) (ok : Bool) :
    (st.sendSealed S type plaintext ok).books = st.books := rfl

@[simp] theorem books_reply (req : RequestPayload) (status : UInt8) (data : Bytes) (ok : Bool) :
    (st.reply S req status data ok).books = st.books := by
  rw [LoopState.reply]
  split <;> rfl

@[simp] theorem books_accept (opened : Bytes) (rx : RxState) :
    (st.accept f opened rx).books = st.books := rfl

@[simp] theorem books_rateLimit : (rateLimit cfg env st).books = st.books := rfl

@[simp] theorem books_called (c : HandlerCall) :
    (st.called c).books = ⟨st.peer, st.authzCache, st.mySubs, st.calls ++ [c]⟩ := rfl

@[simp] theorem books_sendChunks (requestId : UInt64) (chunks : List Bytes) (wrote : ℕ → Bool) :
    (st.sendChunks S requestId chunks wrote).books = st.books := by
  have hfold : ∀ (l : List (Bytes × ℕ)) (s : LoopState),
      (l.foldl (fun s (chunk, i) => s.sendChunk S requestId i false chunk (wrote i)) s).books
        = s.books := by
    intro l
    induction l with
    | nil => intro s; rfl
    | cons c l ih => intro s; rw [List.foldl_cons, ih]; rfl
  exact hfold _ st

theorem effect_serve {req : RequestPayload} {entry : EndpointEntry} {st' : LoopState}
    {cache : List (Bytes × Bool)}
    (hans : Answers S cfg env st f req.endpoint entry true cache)
    (hbooks : st'.books = ⟨st.peer, cache, st.mySubs, st.calls⟩) :
    PassEffect S cfg env st f (serve S cfg env st' req entry).books := by
  obtain ⟨hpeer, hcache, hsubs, hcalls⟩ := Books.mk.inj hbooks
  have hquiet : PassEffect S cfg env st f st'.books := by
    rw [hbooks]
    have hserved : PassEffect S cfg env st f
        ⟨st.peer, cache, st.mySubs, st.calls ++ (none : Option HandlerCall).toList⟩ :=
      .served hans (by simp)
    simpa using hserved
  have hcalled : ∀ c : HandlerCall, c.Handles req.endpoint →
      PassEffect S cfg env st f (st'.called c).books := by
    intro c hc
    rw [books_called, hpeer, hcache, hsubs, hcalls]
    have hmem : ∀ c' ∈ some c, c'.Handles req.endpoint := by simpa using hc
    exact .served hans hmem
  rw [serve]
  cases hkind : entry.kind with
  | topic =>
    simp only
    split
    · rwa [books_reply]
    · next hlimit =>
      cases htopic : env.topics.lookup req.endpoint with
      | none => exact hquiet
      | some topic =>
        rw [books_called]
        simp only [hpeer, hcache, hsubs, hcalls]
        refine .subscribed hans hkind (fun hpos => ?_) htopic
        rw [← hsubs]
        exact Nat.lt_of_not_le fun hge => hlimit ⟨hpos, hge⟩
  | receive | send =>
    simp only
    split
    · rw [books_reply]
      exact hcalled _ .unary
    · rw [books_reply]
      exact hcalled _ .unary
  | streamSend =>
    simp only [books_sendChunks]
    exact hcalled _ .streamSend
  | streamReceive => simpa using hquiet

theorem effect_unsubscribe {st' : LoopState} (hbooks : st'.books = st.books) (data : Bytes) :
    PassEffect S cfg env st f (st'.unsubscribe data).books := by
  obtain ⟨hpeer, hcache, hsubs, hcalls⟩ := Books.mk.inj hbooks
  have hquiet : PassEffect S cfg env st f st'.books := by
    rw [hbooks]
    exact .idle
  rw [LoopState.unsubscribe]
  split
  · split
    · next sub hfind =>
      rw [books_called]
      simp only [hpeer, hcache, hsubs, hcalls] at hfind ⊢
      exact .unsubscribed (List.mem_of_find?_eq_some hfind)
    · exact hquiet
  · exact hquiet

theorem effect_dispatch {req : RequestPayload} {st' st'' : LoopState}
    (hbooks : st'.books = st.books)
    (hasks : req.endpoint ≠ kUnsubscribeEndpoint → ∀ entry,
      env.handlers.lookup req.endpoint = some entry →
      Asks S cfg env st f req.endpoint (cfg.accessOf entry))
    (h : dispatch S cfg env st' req = .ok st'') : PassEffect S cfg env st f st''.books := by
  obtain ⟨hpeer, hcache, hsubs, hcalls⟩ := Books.mk.inj hbooks
  rw [dispatch] at h
  by_cases hun : req.endpoint = kUnsubscribeEndpoint
  · rw [if_pos hun] at h
    cases h
    exact effect_unsubscribe hbooks req.data
  rw [if_neg hun] at h
  cases hentry : env.handlers.lookup req.endpoint with
  | none =>
    rw [hentry] at h
    cases h
    rw [books_reply, hbooks]
    exact .idle
  | some entry =>
    simp only [hentry] at h
    obtain ⟨⟨allowed, cache⟩, hauth, h⟩ := bind_eq_ok.mp h
    rw [hpeer, hcache] at hauth
    have hans : Answers S cfg env st f req.endpoint entry allowed cache :=
      ⟨hasks hun entry hentry, hentry, hauth⟩
    have hbooks' : ({ st' with authzCache := cache } : LoopState).books
        = ⟨st.peer, cache, st.mySubs, st.calls⟩ := by
      simp only [LoopState.books, hpeer, hsubs, hcalls]
    cases h
    cases allowed with
    | false =>
      simp only [Bool.false_eq_true, if_false, books_reply, hbooks']
      exact .denied hans
    | true =>
      simp only [if_true]
      exact effect_serve hans hbooks'

theorem effect_handleRequest {o : Outcome} (hf : f.type = .request)
    (h : handleRequest S cfg env st f = .ok o) : PassEffect S cfg env st f o.state.books := by
  rw [handleRequest] at h
  cases hopen : openChecked S st.conn.v2 st.conn.rx f with
  | none =>
    rw [hopen] at h
    cases h
    exact .idle
  | some p =>
    obtain ⟨opened, rx⟩ := p
    simp only [hopen] at h
    cases hdec : decodeRequest opened with
    | oob | reject =>
      rw [hdec] at h
      cases h
      exact .idle
    | accept req =>
      simp only [hdec] at h
      split at h
      · cases h
        exact .idle
      · next hsat =>
        obtain ⟨st', hdispatch, h⟩ := bind_eq_ok.mp h
        cases h
        have hbooks : (rateLimit cfg env (st.accept f opened rx)).books = st.books := rfl
        refine effect_dispatch hbooks (fun hun entry hentry => ?_) hdispatch
        exact .request hf hopen hdec (Bool.eq_false_of_not_eq_true hsat) hun hentry

theorem effect_handleChunk {o : Outcome} (hf : f.type = .streamChunk)
    (h : handleChunk S cfg env st f = .ok o) : PassEffect S cfg env st f o.state.books := by
  rw [handleChunk] at h
  cases hopen : openChecked S st.conn.v2 st.conn.rx f with
  | none =>
    rw [hopen] at h
    cases h
    exact .idle
  | some p =>
    obtain ⟨opened, rx⟩ := p
    simp only [hopen] at h
    cases hdec : decodeStreamChunk opened with
    | oob | reject =>
      rw [hdec] at h
      cases h
      exact .idle
    | accept chunk =>
      simp only [hdec] at h
      cases hentry : (env.handlers.lookup chunk.endpoint).filter
          fun e => e.kind = .streamReceive with
      | none =>
        rw [hentry] at h
        cases h
        exact .idle
      | some entry =>
        simp only [hentry] at h
        obtain ⟨⟨allowed, cache⟩, hauth, h⟩ := bind_eq_ok.mp h
        have hans : Answers S cfg env st f chunk.endpoint entry allowed cache :=
          ⟨.chunk hf hopen hdec hentry, (Option.filter_eq_some_iff.mp hentry).1, hauth⟩
        cases h
        cases allowed with
        | false => exact .denied hans
        | true =>
          have hmem : ∀ c ∈ some (HandlerCall.streamRecv chunk.endpoint chunk.data chunk.isLast),
              c.Handles chunk.endpoint := by simpa using .streamRecv
          exact .served hans hmem

theorem books_handleRekey {o : Outcome} (h : handleRekey S env st f = .ok o) :
    o.state.books = st.books := by
  rw [handleRekey] at h
  split at h
  · cases h
    rfl
  cases hopen : openChecked S st.conn.v2 st.conn.rx f with
  | none =>
    rw [hopen] at h
    cases h
    rfl
  | some p =>
    obtain ⟨opened, rx⟩ := p
    simp only [hopen] at h
    split at h
    · split at h
      · cases h
        rfl
      · obtain ⟨nk, -, h⟩ := bind_eq_ok.mp h
        cases h
        split <;> rfl
    · cases h
      rfl

/-- What is asked does not depend on the flag that other threads may have cleared. -/
theorem asks_alive_iff {alive : Bool} {endpoint : Bytes} {policy : AccessPolicy} :
    Asks S cfg env { st with conn := { st.conn with alive := alive } } f endpoint policy ↔
      Asks S cfg env st f endpoint policy := by
  constructor
  · rintro (⟨hf, ho, hdec, hentry⟩ | ⟨hf, ho, hdec, hrate, hun, hentry⟩)
    · exact .chunk hf ho hdec hentry
    · exact .request hf ho hdec hrate hun hentry
  · rintro (⟨hf, ho, hdec, hentry⟩ | ⟨hf, ho, hdec, hrate, hun, hentry⟩)
    · exact .chunk hf ho hdec hentry
    · exact .request hf ho hdec hrate hun hentry

theorem PassEffect.of_alive {alive : Bool} {b : Books}
    (h : PassEffect S cfg env { st with conn := { st.conn with alive := alive } } f b) :
    PassEffect S cfg env st f b := by
  have hanswers : ∀ {endpoint entry allowed cache},
      Answers S cfg env { st with conn := { st.conn with alive := alive } } f endpoint entry
        allowed cache → Answers S cfg env st f endpoint entry allowed cache := by
    rintro endpoint entry allowed cache ⟨hasks, hfound, hans⟩
    exact ⟨asks_alive_iff.mp hasks, hfound, hans⟩
  cases h with
  | idle => exact .idle
  | unsubscribed hsub => exact .unsubscribed hsub
  | denied hans => exact .denied (hanswers hans)
  | subscribed hans hkind hlimit htopic => exact .subscribed (hanswers hans) hkind hlimit htopic
  | served hans hcall => exact .served (hanswers hans) hcall

/-- **What a pass does** to the tables of its connection. -/
theorem effect_of_pass {o : Outcome} (h : pass S cfg env st f = .ok o) :
    PassEffect S cfg env st f o.state.books := by
  rw [pass] at h
  split at h
  · cases h
    exact .idle
  split at h
  · cases h
    exact .idle
  split at h
  · cases h
    exact .idle
  split at h
  · rw [books_handleRekey h]
    exact .idle
  split at h
  · next hf => exact (effect_handleChunk hf h).of_alive
  split at h
  · next hf => exact (effect_handleRequest hf h).of_alive
  · cases h
    exact .idle

end

/-! ### The frames of a stream -/

/-- **Reading a frame takes bytes off the stream.** -/
theorem length_lt_of_readFrame {v2 : Bool} {s rest : Bytes} {f : RawFrame}
    (h : readFrame v2 s = some (f, rest)) : rest.length < s.length := by
  obtain ⟨n, bytes, -, -, -, -, rfl⟩ := readFrame_eq_some.mp h
  have hlen : (putU32 n).length = 4 := rfl
  rw [List.length_append, List.length_append, hlen]
  omega

/-- The frames that `read_frame` gives until it gives none. -/
def readFrames (v2 : Bool) (s : Bytes) : List RawFrame :=
  match h : readFrame v2 s with
  | none => []
  | some (f, rest) =>
    have := length_lt_of_readFrame h
    f :: readFrames v2 rest
termination_by s.length

/-- Each frame with the pass that reads it. -/
def withPasses {α : Type} (envs : ℕ → α) (frames : List RawFrame) : List (RawFrame × α) :=
  frames.zipIdx.map fun p => (p.1, envs p.2)

/-! ### The whole connection -/

/-- What a connection finds before its loop. -/
structure Accept where
  /-- `admit_connection(t->peer_uid())`. -/
  admitted : Bool
  peerUid : ℤ
  view : HostView
  ackWritten : Bool

/-- The state in which the loop starts. -/
def LoopState.start (cfg : HostConfig) (run : ServerRun) (acc : Accept) (hs : HandshakeResult) :
    LoopState :=
  { conn := .start run.ephemeral hs
    peer :=
      { publicKey := hs.peerIdentity
        peerUid := acc.peerUid
        keyWasPinnedNow :=
          match isTrusted cfg.policy acc.view hs.peerIdentity with
          | .ok (_, pinnedNow) => pinnedNow
          | .error _ => false } }

/-- The stream after the frame of the handshake. -/
def afterHello (stream : Bytes) : Bytes :=
  match readFrame false stream with
  | some (_, rest) => rest
  | none => []

/-- `handle_connection` on everything the peer ever sends: the state in which the loop was left, or
`none` when there was no session. -/
def handleConnection (S : Sodium) (cfg : HostConfig) (run : ServerRun) (acc : Accept)
    (envs : ℕ → Pass) (stream : Bytes) : Except Exn (Option LoopState) :=
  if acc.admitted = false then pure none
  else do
    match ← serverHandshake S run (hostTrustFn cfg.policy acc.view) stream acc.ackWritten with
    | none => pure none
    | some hs => do
      let st ← frameLoop S cfg (.start cfg run acc hs)
        (withPasses envs (readFrames (hs.version ≥ 2) (afterHello stream)))
      pure (some st)

end Epx
