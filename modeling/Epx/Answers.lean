import Epx.ServiceDescription
import Epx.TopicFeed

/-!
# What a request is answered

The ways out of `handle_connection` for a request, on a connection whose writes succeed: nothing for
a oneway request and for one to the protocol's own endpoint, a RESPONSE, a subscription, the chunks
of a StreamSend handler, or an ERROR and the end of the loop.

A request for a topic whose endpoint is found but whose topic is not would be left without an
answer. `expose_topic` puts the topic in its table before the endpoint in the other, nothing is ever
taken out of either, and the loop looks in the opposite order; so that there is always a topic.

## Main definitions

* `HostTables` — the tables that `expose` and `expose_topic` fill
* `LoopState.requests` — the requests that a connection has accepted
* `Answer`, `PassAnswer` — the ways out

## Main results

* `topic_of_sees` — where there is an endpoint, there is a topic
* `passAnswer_of_pass`
-/

namespace Epx

open Codec Exception Transition LoopState

/-! ### Endpoints and topics -/

/-- `handlers` and `topics` of a host, and the topics whose endpoint is still to come. -/
structure HostTables where
  exposed : Exposed := {}
  topics : List (Bytes × ℕ) := []
  pending : List Bytes := []

namespace HostTables

inductive Act where
  /-- `expose`, `expose_stream_receive` and `expose_stream_send` with a policy. -/
  | expose (endpoint : Bytes) (entry : EndpointEntry)
  /-- `expose_topic` holds `topics_mutex`. -/
  | addTopic (endpoint : Bytes) (topic : ℕ)
  /-- And then `handlers_mutex`. -/
  | addEntry (endpoint : Bytes) (access : AccessPolicy)
  /-- What the overloads without a policy do last. -/
  | resetAccess (endpoint : Bytes)

def step (t : HostTables) : Act → Option HostTables
  | .expose endpoint entry =>
    if entry.kind = .topic then none
    else (t.exposed.expose endpoint entry).map fun x => { t with exposed := x }
  | .addTopic endpoint topic =>
    if checkEndpointName endpoint then
      some
        { t with
          topics := (endpoint, topic) :: t.topics.filter fun p => p.1 ≠ endpoint
          pending := endpoint :: t.pending }
    else none
  | .addEntry endpoint access =>
    if endpoint ∈ t.pending then
      (t.exposed.expose endpoint { kind := .topic, access := some access }).map fun x =>
        { t with exposed := x, pending := t.pending.erase endpoint }
    else none
  | .resetAccess endpoint =>
    let entry := (t.exposed.handlers.lookup endpoint).getD { kind := .receive }
    (t.exposed.expose endpoint { entry with access := none }).map fun x => { t with exposed := x }

/-- The tables from which a request takes its entry, and those in which it then looks for the
topic. -/
def Sees (env : Pass) : Prop :=
  ∃ acts before acts' after, Run (OfFun step) {} acts before ∧ Run (OfFun step) before acts' after ∧
    env.handlers = before.exposed.handlers ∧ env.topics = after.topics

/-- Every topic endpoint has its topic. -/
structure Backed (t : HostTables) : Prop where
  entries : ∀ endpoint entry, t.exposed.handlers.lookup endpoint = some entry →
    entry.kind = .topic → (t.topics.lookup endpoint).isSome = true
  pending : ∀ endpoint ∈ t.pending, (t.topics.lookup endpoint).isSome = true

theorem lookup_insert {β : Type} (l : List (Bytes × β)) (k k' : Bytes) (v : β) :
    ((k, v) :: l.filter fun p => p.1 ≠ k).lookup k' = if k' = k then some v else l.lookup k' := by
  rw [List.lookup_cons]
  by_cases hk : k' = k
  · simp [hk]
  · have hbeq : (k' == k) = false := beq_false_of_ne hk
    rw [hbeq, if_neg hk]
    simp only
    induction l with
    | nil => rfl
    | cons p l ih =>
      by_cases hp : p.1 = k
      · have hbeq' : (k' == p.1) = false := beq_false_of_ne (by rw [hp]; exact hk)
        rw [List.filter_cons_of_neg (by simp [hp]), ih, List.lookup_cons, hbeq']
      · rw [List.filter_cons_of_pos (by simp [hp]), List.lookup_cons, List.lookup_cons, ih]

theorem lookup_expose {x x' : Exposed} {endpoint : Bytes} {entry : EndpointEntry}
    (h : x.expose endpoint entry = some x') (k : Bytes) :
    x'.handlers.lookup k = if k = endpoint then some entry else x.handlers.lookup k := by
  rw [Exposed.expose] at h
  split at h
  · cases h
    exact lookup_insert _ _ _ _
  · cases h

variable {t t' : HostTables} {a : Act}

/-- No topic is ever taken out of its table. -/
theorem topics_of_step (h : t.step a = some t') {endpoint : Bytes}
    (hsome : (t.topics.lookup endpoint).isSome = true) :
    (t'.topics.lookup endpoint).isSome = true := by
  cases a with
  | expose _ _ =>
    simp only [step] at h
    split at h
    · cases h
    · obtain ⟨x, -, rfl⟩ := Option.map_eq_some_iff.mp h
      exact hsome
  | addTopic name topic =>
    simp only [step] at h
    split at h
    · cases h
      rw [lookup_insert]
      split
      · rfl
      · exact hsome
    · cases h
  | addEntry _ _ =>
    simp only [step] at h
    split at h
    · obtain ⟨x, -, rfl⟩ := Option.map_eq_some_iff.mp h
      exact hsome
    · cases h
  | resetAccess _ =>
    obtain ⟨x, -, rfl⟩ := Option.map_eq_some_iff.mp h
    exact hsome

theorem Backed.step (hback : t.Backed) (h : t.step a = some t') : t'.Backed := by
  have htopics : ∀ endpoint, (t.topics.lookup endpoint).isSome = true →
      (t'.topics.lookup endpoint).isSome = true := fun _ => topics_of_step h
  cases a with
  | expose name entry =>
    simp only [HostTables.step] at h
    split at h
    · cases h
    · next hkind =>
      obtain ⟨x, hx, rfl⟩ := Option.map_eq_some_iff.mp h
      refine ⟨fun k e hk he => ?_, hback.pending⟩
      rw [lookup_expose hx] at hk
      split at hk
      · cases hk
        exact absurd he hkind
      · exact hback.entries k e hk he
  | addTopic name topic =>
    simp only [HostTables.step] at h
    split at h
    · cases h
      refine ⟨fun k e hk he => htopics k (hback.entries k e hk he), fun k hk => ?_⟩
      rcases List.mem_cons.mp hk with rfl | hk
      · simp
      · exact htopics k (hback.pending k hk)
    · cases h
  | addEntry name access =>
    simp only [HostTables.step] at h
    split at h
    · next hpending =>
      obtain ⟨x, hx, rfl⟩ := Option.map_eq_some_iff.mp h
      refine ⟨fun k e hk he => ?_, fun k hk => hback.pending k (List.mem_of_mem_erase hk)⟩
      rw [lookup_expose hx] at hk
      split at hk
      · next heq =>
        rw [heq]
        exact hback.pending name hpending
      · exact hback.entries k e hk he
    · cases h
  | resetAccess name =>
    obtain ⟨x, hx, rfl⟩ := Option.map_eq_some_iff.mp h
    refine ⟨fun k e hk he => ?_, hback.pending⟩
    rw [lookup_expose hx] at hk
    split at hk
    · next heq =>
      cases hk
      subst heq
      cases hold : t.exposed.handlers.lookup k with
      | none =>
        rw [hold] at he
        cases he
      | some e =>
        rw [hold] at he
        exact hback.entries k e hold he
    · exact hback.entries k e hk he

end HostTables

/-- **A request that finds a topic endpoint finds the topic.** -/
theorem topic_of_sees {env : Pass} (h : HostTables.Sees env) {endpoint : Bytes}
    {entry : EndpointEntry} (hentry : env.handlers.lookup endpoint = some entry)
    (hkind : entry.kind = .topic) : ∃ topic, env.topics.lookup endpoint = some topic := by
  obtain ⟨acts, before, acts', after, hbefore, hafter, hhandlers, htopics⟩ := h
  have hback : before.Backed := by
    refine hbefore.preserves (I := HostTables.Backed) ⟨?_, ?_⟩ fun _ _ _ hI hstep => hI.step hstep
    · exact fun _ _ hlookup => by cases hlookup
    · exact fun _ hmem => absurd hmem List.not_mem_nil
  rw [hhandlers] at hentry
  have hlater : (after.topics.lookup endpoint).isSome = true :=
    hafter.preserves (I := fun t => (t.topics.lookup endpoint).isSome = true)
      (hback.entries endpoint entry hentry hkind) fun _ _ _ hI hstep =>
        HostTables.topics_of_step hstep hI
  rw [htopics]
  exact Option.isSome_iff_exists.mp hlater

/-! ### Requests and their answers -/

/-- The request in what was received. -/
def requestOf (x : FrameType × Bytes) : Option RequestPayload :=
  if x.1 = .request then
    match decodeRequest x.2 with
    | .accept req => some req
    | _ => none
  else none

theorem requestIdOf_eq (x : FrameType × Bytes) :
    requestIdOf x = (requestOf x).map RequestPayload.requestId := by
  rw [requestIdOf, requestOf]
  split
  · cases decodeRequest x.2 <;> rfl
  · rfl

/-- The requests that a connection has accepted. -/
def LoopState.requests (st : LoopState) : List RequestPayload :=
  (st.conn.opened.map Opened.content).filterMap requestOf

theorem requestIds_opened (st : LoopState) :
    requestIds (st.conn.opened.map Opened.content) = st.requests.map RequestPayload.requestId := by
  rw [requestIds, LoopState.requests, List.map_filterMap]
  congr 1
  funext x
  exact requestIdOf_eq x

theorem requests_accept (st : LoopState) (f : RawFrame) (opened : Bytes) (rx : RxState) :
    (st.accept f opened rx).requests = st.requests ++ (requestOf (f.type, opened)).toList := by
  have hopened : (st.accept f opened rx).conn.opened.map Opened.content
      = st.conn.opened.map Opened.content ++ [(f.type, opened)] := List.map_append
  rw [LoopState.requests, hopened, List.filterMap_append, List.filterMap_cons, List.filterMap_nil,
    LoopState.requests]
  cases requestOf (f.type, opened) <;> rfl

/-- A RESPONSE frame with the id of the request. -/
def responseTo (req : RequestPayload) (status : UInt8) (data : Bytes) : FrameType × Bytes :=
  (.response, encodeResponse { requestId := req.requestId, status := status, data := data })

/-- The chunks of some messages and the one that ends them. -/
def streamOf (requestId : UInt64) (messages : List Bytes) : List (FrameType × Bytes) :=
  (chunksOf requestId messages ++ [endChunk requestId messages.length]).map chunkContent

/-- What a peer is told that is disconnected for its rate. -/
def rateLimited (cfg : HostConfig) : FrameType × Bytes :=
  (.error, encodeError (rateLimitError cfg))

/-- From `st` to `st'` requests were accepted and contents written, and no write has failed. -/
structure Serves (S : Sodium) (st st' : LoopState) (reqs : List RequestPayload)
    (contents : List (FrameType × Bytes)) : Prop where
  requests : st'.requests = st.requests ++ reqs
  written : st.Synced S → st'.written = st.written ++ contents
  alive : st'.conn.alive = true

/-- What is written about a request, in one pass, and the subscription that may be added for it. -/
inductive Answer (env : Pass) (req : RequestPayload) (st st' : LoopState) :
    List (FrameType × Bytes) → Prop
  | silent : req.oneway = true ∨ req.endpoint = kUnsubscribeEndpoint → NoSubscribe st st' →
      Answer env req st st' []
  | response {status : UInt8} {data : Bytes} : req.oneway = false → NoSubscribe st st' →
      Answer env req st st' [responseTo req status data]
  | subscribed {topic : ℕ} :
      .subscribe req.endpoint topic req.requestId ∈ st'.calls.drop st.calls.length →
      Answer env req st st' []
  | chunks {entry : EndpointEntry} : env.handlers.lookup req.endpoint = some entry →
      entry.kind = .streamSend → NoSubscribe st st' →
      Answer env req st st' (streamOf req.requestId (env.streamSend req.data req.endpoint))

/-- The request that a pass accepts with the frame it has read. -/
def requestIn (S : Sodium) (st : LoopState) (f : RawFrame) : Option RequestPayload :=
  (openChecked S st.conn.v2 st.conn.rx f).bind fun p => requestOf (f.type, p.1)

/-- The request for which a pass disconnects the peer. -/
def overRate (S : Sodium) (cfg : HostConfig) (env : Pass) (st : LoopState) (f : RawFrame) :
    Option RequestPayload :=
  (requestIn S st f).filter fun _ => saturated cfg env st.delayedInARow

/-- What a pass does, with regard to requests. -/
inductive PassAnswer (S : Sodium) (cfg : HostConfig) (env : Pass) (st : LoopState) (f : RawFrame) :
    Outcome → Prop
  | idle {o : Outcome} {contents : List (FrameType × Bytes)} :
      overRate S cfg env st f = none → Serves S st o.state [] contents →
      (∀ x ∈ contents, x.1 = .rekeyAck) → NoSubscribe st o.state → PassAnswer S cfg env st f o
  | disconnected {st' : LoopState} {req : RequestPayload} : overRate S cfg env st f = some req →
      Serves S st st' [req] [rateLimited cfg] → NoSubscribe st st' →
      PassAnswer S cfg env st f (.stop st')
  | answered {st' : LoopState} {req : RequestPayload} {contents : List (FrameType × Bytes)} :
      overRate S cfg env st f = none → Serves S st st' [req] contents →
      Answer env req st st' contents → PassAnswer S cfg env st f (.next st')

section

variable {S : Sodium} {cfg : HostConfig} {env : Pass} {st st' : LoopState} {f : RawFrame}

/-- Nothing is received. -/
theorem serves_of_writes {contents : List (FrameType × Bytes)} (h : Writes S st st' contents)
    (halive : st'.conn.alive = true) : Serves S st st' [] contents where
  requests := by rw [LoopState.requests, h.opened, List.append_nil]; rfl
  written := h.written
  alive := halive

/-- A frame is sealed and written on a connection that is alive. -/
theorem sends_sealed (halive : st.conn.alive = true) (type : FrameType)
    (hclear : isCleartext type = false) (plaintext : Bytes) :
    Writes S st (st.sendSealed S type plaintext true) [(type, plaintext)] ∧
      (st.sendSealed S type plaintext true).conn.alive = true := by
  have hwrites : Writes S st (st.sendSealed S type plaintext true)
      (if st.conn.alive && true then [(type, plaintext)] else []) :=
    writes_sendSealed hclear plaintext true
  rw [halive] at hwrites
  refine ⟨hwrites, ?_⟩
  simp [LoopState.sendSealed, HostConn.sendSealed, halive]

theorem sends_reply (halive : st.conn.alive = true) {req : RequestPayload}
    (hask : req.oneway = false) (status : UInt8) (data : Bytes) :
    Writes S st (st.reply S req status data true) [responseTo req status data] ∧
      (st.reply S req status data true).conn.alive = true := by
  rw [LoopState.reply]
  rw [hask]
  exact sends_sealed halive .response (by decide) _

/-- The chunks of a handler that is not interrupted. -/
theorem sends_chunks (halive : st.conn.alive = true) (requestId : UInt64) (messages : List Bytes)
    {wrote : ℕ → Bool} (hwrote : ∀ i, wrote i = true) :
    Writes S st (st.sendChunks S requestId messages wrote) (streamOf requestId messages) ∧
      (st.sendChunks S requestId messages wrote).conn.alive = true := by
  have hfold : ∀ (l : List (Bytes × ℕ)) (s : LoopState), s.conn.alive = true →
      Writes S s (l.foldl (fun s p => s.sendChunk S requestId p.2 false p.1 (wrote p.2)) s)
        (l.map fun p => chunkContent
          { requestId := requestId, seq := UInt32.ofNat p.2, isLast := false, data := p.1 }) ∧
      (l.foldl (fun s p => s.sendChunk S requestId p.2 false p.1
        (wrote p.2)) s).conn.alive = true := by
    intro l
    induction l with
    | nil => exact fun s hs => ⟨writes_same s, hs⟩
    | cons p l ih =>
      intro s hs
      rw [List.foldl_cons, List.map_cons]
      simp only [hwrote] at ih ⊢
      obtain ⟨hfirst, hs'⟩ := sends_sealed (S := S) hs .streamChunk (by decide)
        (encodeStreamChunk
          { requestId := requestId, seq := UInt32.ofNat p.2, isLast := false, data := p.1 })
      obtain ⟨hrest, hend⟩ := ih _ hs'
      exact ⟨hfirst.trans hrest, hend⟩
  obtain ⟨hchunks, halive'⟩ := hfold messages.zipIdx st halive
  obtain ⟨hlast, hend⟩ := sends_sealed (S := S) halive' .streamChunk (by decide)
    (encodeStreamChunk (endChunk requestId messages.length))
  have hmap : messages.zipIdx.map (fun p => chunkContent
      { requestId := requestId, seq := UInt32.ofNat p.2, isLast := false, data := p.1 })
      = (chunksOf requestId messages).map chunkContent := by
    rw [chunksOf, List.mapIdx_eq_zipIdx_map, List.map_map]
    rfl
  rw [hmap] at hchunks
  rw [streamOf, List.map_append, LoopState.sendChunks]
  simp only [hwrote] at hchunks hlast hend ⊢
  exact ⟨hchunks.trans hlast, hend⟩

/-- A reply is written only when the caller waits for one. -/
theorem answer_reply (hwrote : ∀ i, env.wrote i = true) (hquiet : Writes S st st' [])
    (halive : st'.conn.alive = true) (hno : NoSubscribe st st') (req : RequestPayload)
    (status : UInt8) (data : Bytes) :
    ∃ contents, Writes S st (st'.reply S req status data (env.wrote 0)) contents ∧
      (st'.reply S req status data (env.wrote 0)).conn.alive = true ∧
      Answer env req st (st'.reply S req status data (env.wrote 0)) contents := by
  have hno' : NoSubscribe st (st'.reply S req status data (env.wrote 0)) := by
    intro endpoint t id hmem
    rw [show (st'.reply S req status data (env.wrote 0)).calls = st'.calls from
      congrArg Books.calls (books_reply req status data _)] at hmem
    exact hno endpoint t id hmem
  cases hask : req.oneway with
  | true =>
    refine ⟨[], ?_, ?_, .silent (Or.inl hask) hno'⟩
    · rw [LoopState.reply]
      rwa [if_pos hask]
    · rw [LoopState.reply]
      rwa [if_pos hask]
  | false =>
    rw [hwrote] at hno' ⊢
    obtain ⟨hwrites, hend⟩ := sends_reply (S := S) halive hask status data
    exact ⟨_, hquiet.trans hwrites, hend, .response hask hno'⟩

variable (cfg) in
/-- A request within the limits that is let through. -/
theorem answer_serve (hsees : HostTables.Sees env) (hwrote : ∀ i, env.wrote i = true)
    (halive : st.conn.alive = true) {req : RequestPayload} {entry : EndpointEntry}
    (hentry : env.handlers.lookup req.endpoint = some entry) :
    ∃ contents, Writes S st (serve S cfg env st req entry) contents ∧
      (serve S cfg env st req entry).conn.alive = true ∧
      Answer env req st (serve S cfg env st req entry) contents := by
  have hcalled : ∀ c, Writes S st (st.called c) [] := fun c => .quiet rfl rfl rfl rfl fun h => h
  have hunary : NoSubscribe st (st.called (.unary req.endpoint req.data)) :=
    noSubscribe_of_call rfl fun _ _ _ => by simp
  rw [serve]
  cases hkind : entry.kind with
  | topic =>
    simp only
    split
    · exact answer_reply hwrote (writes_same st) halive (noSubscribe_of_eq rfl) req 1 _
    · obtain ⟨topic, htopic⟩ := topic_of_sees hsees hentry hkind
      simp only [htopic]
      have hmem : HandlerCall.subscribe req.endpoint topic req.requestId ∈
          (st.calls ++ [HandlerCall.subscribe req.endpoint topic req.requestId]).drop
            st.calls.length := by
        simp
      exact ⟨[], .quiet rfl rfl rfl rfl fun h => h, halive, .subscribed hmem⟩
  | receive | send =>
    simp only
    split
    · exact answer_reply hwrote (hcalled _) halive hunary req 0 _
    · exact answer_reply hwrote (hcalled _) halive hunary req 1 _
  | streamSend =>
    have halive' : (st.called (.streamSend req.endpoint req.data)).conn.alive = true := halive
    obtain ⟨hwrites, hend⟩ := sends_chunks (S := S) halive' req.requestId
      (env.streamSend req.data req.endpoint) hwrote
    refine ⟨_, (hcalled _).trans hwrites, hend, .chunks hentry hkind ?_⟩
    exact noSubscribe_of_call (congrArg Books.calls (books_sendChunks _ _ _)) fun _ _ _ => by simp
  | streamReceive =>
    exact answer_reply hwrote (writes_same st) halive (noSubscribe_of_eq rfl) req 1 _

/-- Only the calls matter of the state in which a request is taken up. -/
theorem Answer.of_calls {st₀ : LoopState} {req : RequestPayload}
    {contents : List (FrameType × Bytes)} (h : Answer env req st st' contents)
    (hcalls : st.calls = st₀.calls) : Answer env req st₀ st' contents := by
  have hno : NoSubscribe st st' → NoSubscribe st₀ st' := by
    intro hno endpoint t id
    rw [← hcalls]
    exact hno endpoint t id
  cases h with
  | silent hsilent hquiet => exact .silent hsilent (hno hquiet)
  | response hask hquiet => exact .response hask (hno hquiet)
  | subscribed hmem => exact .subscribed (hcalls ▸ hmem)
  | chunks hentry hkind hquiet => exact .chunks hentry hkind (hno hquiet)

/-- **A request within the rate limit is answered.** -/
theorem answer_dispatch (hsees : HostTables.Sees env) (hwrote : ∀ i, env.wrote i = true)
    (halive : st.conn.alive = true) {req : RequestPayload}
    (h : dispatch S cfg env st req = .ok st') :
    ∃ contents, Writes S st st' contents ∧ st'.conn.alive = true ∧
      Answer env req st st' contents := by
  rw [dispatch] at h
  split at h
  · next hun =>
    cases h
    have hquiet : Writes S st (st.unsubscribe req.data) [] ∧
        (st.unsubscribe req.data).conn = st.conn ∧ NoSubscribe st (st.unsubscribe req.data) := by
      rw [LoopState.unsubscribe]
      split
      · split
        · exact ⟨.quiet rfl rfl rfl rfl fun h => h, rfl,
            noSubscribe_of_call rfl fun _ _ _ => by simp⟩
        · exact ⟨writes_same st, rfl, noSubscribe_of_eq rfl⟩
      · exact ⟨writes_same st, rfl, noSubscribe_of_eq rfl⟩
    obtain ⟨hwrites, hconn, hno⟩ := hquiet
    exact ⟨[], hwrites, by rwa [hconn], .silent (Or.inr hun) hno⟩
  · cases hentry : env.handlers.lookup req.endpoint with
    | none =>
      rw [hentry] at h
      cases h
      exact answer_reply hwrote (writes_same st) halive (noSubscribe_of_eq rfl) req 2 []
    | some entry =>
      simp only [hentry] at h
      obtain ⟨⟨allowed, cache⟩, -, h⟩ := bind_eq_ok.mp h
      cases h
      have hcache : Writes S st { st with authzCache := cache } [] :=
        .quiet rfl rfl rfl rfl fun h => h
      cases allowed with
      | false =>
        exact answer_reply hwrote hcache halive (noSubscribe_of_eq rfl) req 3 _
      | true =>
        have halive' : ({ st with authzCache := cache } : LoopState).conn.alive = true := halive
        obtain ⟨contents, hwrites, hend, hanswer⟩ :=
          answer_serve (S := S) cfg hsees hwrote halive' hentry
        exact ⟨contents, hcache.trans hwrites, hend, hanswer.of_calls rfl⟩

/-- A frame was opened, and then the contents were written. -/
theorem serves_accept {opened : Bytes} {rx : RxState} {contents : List (FrameType × Bytes)}
    (h : Writes S (st.accept f opened rx) st' contents) (halive : st'.conn.alive = true) :
    Serves S st st' (requestOf (f.type, opened)).toList contents where
  requests := by
    rw [← requests_accept st f opened rx, LoopState.requests, h.opened]
    rfl
  written hs := h.written ⟨hs.frames, hs.alive⟩
  alive := halive

theorem passAnswer_handleRequest (hsees : HostTables.Sees env)
    (hwrote : ∀ i, env.wrote i = true) (halive : st.conn.alive = true) (hf : f.type = .request)
    {o : Outcome} (h : handleRequest S cfg env st f = .ok o) : PassAnswer S cfg env st f o := by
  rw [handleRequest] at h
  cases hopen : openChecked S st.conn.v2 st.conn.rx f with
  | none =>
    rw [hopen] at h
    cases h
    have hserves : Serves S st (Outcome.stop st).state [] [] :=
      serves_of_writes (writes_same st) halive
    refine .idle ?_ hserves (by simp) (noSubscribe_of_eq rfl)
    simp [overRate, requestIn, hopen]
  | some p =>
    obtain ⟨opened, rx⟩ := p
    simp only [hopen] at h
    have hin : requestIn S st f = requestOf (f.type, opened) := by simp [requestIn, hopen]
    have hundecoded : ∀ {o}, requestOf (f.type, opened) = none →
        Except.ok (Outcome.stop (st.accept f opened rx)) = Except.ok (ε := Exn) o →
        PassAnswer S cfg env st f o := by
      intro o hnone ho
      cases ho
      have hserves : Serves S st (Outcome.stop (st.accept f opened rx)).state
          (requestOf (f.type, opened)).toList [] := serves_accept (writes_same _) halive
      rw [hnone] at hserves
      refine .idle ?_ hserves (by simp) (noSubscribe_of_eq rfl)
      simp [overRate, hin, hnone]
    cases hdec : decodeRequest opened with
    | oob | reject =>
      rw [hdec] at h
      exact hundecoded (by simp [requestOf, hf, hdec]) h
    | accept req =>
      have hreq : requestOf (f.type, opened) = some req := by simp [requestOf, hf, hdec]
      have hrate :
        Writes S (st.accept f opened rx) (rateLimit cfg env (st.accept f opened rx)) [] :=
        .quiet rfl rfl rfl rfl fun h => h
      have hover : overRate S cfg env st f
          = if saturated cfg env st.delayedInARow then some req else none := by
        rw [overRate, hin, hreq, Option.filter_some]
      simp only [hdec] at h
      split at h
      · next hsat =>
        cases h
        have halive' : (rateLimit cfg env (st.accept f opened rx)).conn.alive = true := halive
        obtain ⟨hwrites, hend⟩ := sends_sealed (S := S) halive' .error (by decide)
          (encodeError (rateLimitError cfg))
        rw [hwrote]
        have hserves := serves_accept (hrate.trans hwrites) hend
        rw [hreq] at hserves
        refine .disconnected ?_ hserves (noSubscribe_of_eq rfl)
        rw [hover]
        exact if_pos hsat
      · next hsat =>
        obtain ⟨st', hdispatch, h⟩ := bind_eq_ok.mp h
        cases h
        have halive' : (rateLimit cfg env (st.accept f opened rx)).conn.alive = true := halive
        obtain ⟨contents, hwrites, hend, hanswer⟩ :=
          answer_dispatch hsees hwrote halive' hdispatch
        have hserves := serves_accept (hrate.trans hwrites) hend
        rw [hreq] at hserves
        refine .answered ?_ hserves (hanswer.of_calls rfl)
        rw [hover]
        exact if_neg hsat

theorem overRate_of_type (hf : f.type ≠ .request) : overRate S cfg env st f = none := by
  have hno : ∀ opened : Bytes, requestOf (f.type, opened) = none := fun _ => if_neg hf
  rw [overRate, requestIn, Option.filter_eq_none_iff]
  intro req hreq
  obtain ⟨p, -, hp⟩ := Option.bind_eq_some_iff.mp hreq
  rw [hno] at hp
  cases hp

/-- A frame that is not a request was opened, and nothing was written. -/
theorem passAnswer_of_quiet (hf : f.type ≠ .request) {o : Outcome} {opened : Bytes} {rx : RxState}
    {contents : List (FrameType × Bytes)} (h : Writes S (st.accept f opened rx) o.state contents)
    (halive : o.state.conn.alive = true) (hcontents : ∀ x ∈ contents, x.1 = .rekeyAck)
    (hno : NoSubscribe st o.state) : PassAnswer S cfg env st f o := by
  have hserves := serves_accept h halive
  rw [show requestOf (f.type, opened) = none from if_neg hf] at hserves
  exact .idle (overRate_of_type hf) hserves hcontents hno

theorem passAnswer_handleChunk (halive : st.conn.alive = true) (hf : f.type ≠ .request)
    {o : Outcome} (h : handleChunk S cfg env st f = .ok o) : PassAnswer S cfg env st f o := by
  have hnil : ∀ x ∈ ([] : List (FrameType × Bytes)), x.1 = .rekeyAck := by simp
  rw [handleChunk] at h
  cases hopen : openChecked S st.conn.v2 st.conn.rx f with
  | none =>
    rw [hopen] at h
    cases h
    exact .idle (overRate_of_type hf) (serves_of_writes (writes_same st) halive) hnil
      (noSubscribe_of_eq rfl)
  | some p =>
    obtain ⟨opened, rx⟩ := p
    simp only [hopen] at h
    cases hdec : decodeStreamChunk opened with
    | oob | reject =>
      rw [hdec] at h
      cases h
      exact passAnswer_of_quiet hf (writes_same _) halive hnil (noSubscribe_of_eq rfl)
    | accept chunk =>
      simp only [hdec] at h
      cases hentry : (env.handlers.lookup chunk.endpoint).filter
          fun e => e.kind = .streamReceive with
      | none =>
        rw [hentry] at h
        cases h
        exact passAnswer_of_quiet hf (writes_same _) halive hnil (noSubscribe_of_eq rfl)
      | some entry =>
        simp only [hentry] at h
        obtain ⟨⟨allowed, cache⟩, -, h⟩ := bind_eq_ok.mp h
        cases h
        have hcache : ∀ s : LoopState, s.conn = (st.accept f opened rx).conn → s.out = st.out →
            Writes S (st.accept f opened rx) s [] ∧ s.conn.alive = true := by
          intro s hconn hout
          refine ⟨.quiet (by rw [hconn]) (by rw [hconn]) (by rw [hconn]) ?_ fun h => by
            rwa [hconn] at h, by rwa [hconn]⟩
          rw [sealedOut, hout, sealedOut]
          rfl
        cases allowed with
        | false =>
          obtain ⟨hwrites, hend⟩ := hcache { st.accept f opened rx with authzCache := cache } rfl
            rfl
          exact passAnswer_of_quiet hf hwrites hend hnil (noSubscribe_of_eq rfl)
        | true =>
          obtain ⟨hwrites, hend⟩ :=
            hcache ({ st.accept f opened rx with authzCache := cache }.called
            (.streamRecv chunk.endpoint chunk.data chunk.isLast)) rfl rfl
          exact passAnswer_of_quiet hf hwrites hend hnil
            (noSubscribe_of_call rfl fun _ _ _ => by simp)

theorem passAnswer_handleRekey (hwrote : ∀ i, env.wrote i = true) (halive : st.conn.alive = true)
    (hf : f.type ≠ .request) {o : Outcome} (h : handleRekey S env st f = .ok o) :
    PassAnswer S cfg env st f o := by
  have hnil : ∀ x ∈ ([] : List (FrameType × Bytes)), x.1 = .rekeyAck := by simp
  have hstay : PassAnswer S cfg env st f (.stop st) :=
    .idle (overRate_of_type hf) (serves_of_writes (writes_same st) halive) hnil
      (noSubscribe_of_eq rfl)
  rw [handleRekey] at h
  split at h
  · cases h
    exact hstay
  · next hv2 =>
    cases hopen : openChecked S st.conn.v2 st.conn.rx f with
    | none =>
      rw [hopen] at h
      cases h
      exact hstay
    | some p =>
      obtain ⟨opened, rx⟩ := p
      simp only [hopen] at h
      split at h
      · split at h
        · cases h
          exact passAnswer_of_quiet hf (writes_same _) halive hnil (noSubscribe_of_eq rfl)
        · obtain ⟨nk, -, h⟩ := bind_eq_ok.mp h
          have hv2' : (st.accept f opened rx).conn.v2 = true := Bool.eq_true_of_not_eq_false hv2
          have halive' : (st.accept f opened rx).conn.alive = true := halive
          rw [hwrote] at h
          simp only [HostConn.sendRekeyAckAndSwitch, halive', Bool.true_eq_false, if_false,
            if_true] at h
          cases h
          refine passAnswer_of_quiet hf
            (.frame (x := (st.accept f opened rx).conn.tx.call .rekeyAck env.eph.publicKey.val) rfl
              rfl halive' rfl (by rw [hv2']; rfl) (by rfl)) rfl ?_ (noSubscribe_of_eq rfl)
          intro x hx
          rw [List.mem_singleton.mp hx]
          rfl
      · cases h
        exact passAnswer_of_quiet hf (writes_same _) halive hnil (noSubscribe_of_eq rfl)

/-- A pass, when no write of another thread has failed. -/
theorem pass_of_othersAlive (hothers : env.othersAlive = true) :
    pass S cfg env st f =
      if f.type = .ping then
        pure (.next { st with out := st.out ++ if env.wrote 0 then [pongFrame] else [] })
      else if f.type = .pong then pure (.next st)
      else if f.type = .bye then pure (.stop st)
      else if f.type = .rekey then handleRekey S env st f
      else if f.type = .streamChunk then handleChunk S cfg env st f
      else if f.type = .request then handleRequest S cfg env st f
      else pure (.next st) := by
  rw [pass]
  rw [hothers, Bool.and_true]

/-- **What a pass does about requests**, when all writes succeed and the tables are those of the
host. -/
theorem passAnswer_of_pass (hsees : HostTables.Sees env) (hothers : env.othersAlive = true)
    (hwrote : ∀ i, env.wrote i = true) (halive : st.conn.alive = true) {o : Outcome}
    (h : pass S cfg env st f = .ok o) : PassAnswer S cfg env st f o := by
  have hnil : ∀ x ∈ ([] : List (FrameType × Bytes)), x.1 = .rekeyAck := by simp
  rw [pass_of_othersAlive hothers] at h
  split at h
  · next hf =>
    cases h
    have hout : sealedOut { st with out := st.out ++ if env.wrote 0 then [pongFrame] else [] }
        = st.sealedOut := by
      cases env.wrote 0 <;> simp [sealedOut, pongFrame, isCleartext]
    have hquiet : Writes S st { st with out := st.out ++ if env.wrote 0 then [pongFrame] else [] }
        [] := .quiet rfl rfl rfl hout fun h => h
    exact .idle (overRate_of_type (by rw [hf]; decide)) (serves_of_writes hquiet halive) hnil
      (noSubscribe_of_eq rfl)
  split at h
  · next hf =>
    cases h
    exact .idle (overRate_of_type (by rw [hf]; decide)) (serves_of_writes (writes_same st) halive)
      hnil (noSubscribe_of_eq rfl)
  split at h
  · next hf =>
    cases h
    exact .idle (overRate_of_type (by rw [hf]; decide)) (serves_of_writes (writes_same st) halive)
      hnil (noSubscribe_of_eq rfl)
  split at h
  · next hf => exact passAnswer_handleRekey hwrote halive (by rw [hf]; decide) h
  split at h
  · next hf => exact passAnswer_handleChunk halive (by rw [hf]; decide) h
  split at h
  · next hf => exact passAnswer_handleRequest hsees hwrote halive hf h
  · next hf =>
    cases h
    exact .idle (overRate_of_type hf) (serves_of_writes (writes_same st) halive) hnil
      (noSubscribe_of_eq rfl)

end

end Epx
