import Epx.Answers

/-!
# The handlers of StreamSend requests between other writes

In `Hub` the handling of a frame is one step. The handler of a StreamSend request writes chunk after
chunk, and between two of them publishers and the heartbeat may write to the same connection. Here
such a request is handled in several steps: the thread calls the handler, the handler writes its
chunks, and when it has returned the thread writes the last one. Every other frame is written about
at most once, and stays one step.

## Main definitions

* `openStream` — the way to the handler of a StreamSend request
* `Desk`, `Desk.step` — a hub, and the handlers that are running
* `Hub.Aside` — a step that is none of the thread of a connection, as far as that connection goes

## Main results

* `pass_of_openStream`, `run_stream` — a handler that is not interrupted is a pass
* `Hub.aside_of_step`
-/

namespace Epx

open Codec Exception Transition LoopState

/-- The request for a StreamSend endpoint that has been let through, and the state in which its
handler is called. -/
def openStream (S : Sodium) (cfg : HostConfig) (env : Pass) (st : LoopState) (f : RawFrame) :
    Except Exn (Option (RequestPayload × LoopState)) :=
  let st := { st with conn := { st.conn with alive := st.conn.alive && env.othersAlive } }
  match openChecked S st.conn.v2 st.conn.rx f with
  | none => pure none
  | some (opened, rx) =>
    match requestOf (f.type, opened) with
    | none => pure none
    | some req =>
      if saturated cfg env st.delayedInARow ∨ req.endpoint = kUnsubscribeEndpoint then pure none
      else
        match (env.handlers.lookup req.endpoint).filter fun e => e.kind = .streamSend with
        | none => pure none
        | some entry => do
          let (allowed, cache) ← authorize cfg.serviceName env.view st.peer req.endpoint
            (cfg.accessOf entry) st.authzCache
          let st := { rateLimit cfg env (st.accept f opened rx) with authzCache := cache }
          pure (if allowed then some (req, st.called (.streamSend req.endpoint req.data)) else none)

section

variable {S : Sodium} {cfg : HostConfig} {env : Pass} {st st' : LoopState} {f : RawFrame}
  {req : RequestPayload}

/-- What is known of a frame that leads to a handler. -/
structure Streams (S : Sodium) (cfg : HostConfig) (env : Pass) (st : LoopState) (f : RawFrame)
    (req : RequestPayload) (st' : LoopState) : Prop where
  intro ::
  exists_open : ∃ opened rx entry cache,
    openChecked S st.conn.v2 st.conn.rx f = some (opened, rx) ∧
    requestOf (f.type, opened) = some req ∧ saturated cfg env st.delayedInARow = false ∧
    req.endpoint ≠ kUnsubscribeEndpoint ∧ env.handlers.lookup req.endpoint = some entry ∧
    entry.kind = .streamSend ∧
    authorize cfg.serviceName env.view st.peer req.endpoint (cfg.accessOf entry) st.authzCache
      = .ok (true, cache) ∧
    st' = { rateLimit cfg env (LoopState.accept { st with conn := { st.conn with
      alive := st.conn.alive && env.othersAlive } } f opened rx) with
        authzCache := cache }.called (.streamSend req.endpoint req.data)

theorem streams_of_openStream (h : openStream S cfg env st f = .ok (some (req, st'))) :
    Streams S cfg env st f req st' := by
  rw [openStream] at h
  simp only at h
  cases hopen : openChecked S st.conn.v2 st.conn.rx f with
  | none =>
    rw [hopen] at h
    cases h
  | some p =>
    obtain ⟨opened, rx⟩ := p
    simp only [hopen] at h
    cases hreq : requestOf (f.type, opened) with
    | none =>
      rw [hreq] at h
      cases h
    | some req' =>
      simp only [hreq] at h
      split at h
      · cases h
      · next hlimits =>
        obtain ⟨hsat, hun⟩ := not_or.mp hlimits
        cases hentry : (env.handlers.lookup req'.endpoint).filter fun e => e.kind = .streamSend with
        | none =>
          rw [hentry] at h
          cases h
        | some entry =>
          simp only [hentry] at h
          obtain ⟨⟨allowed, cache⟩, hauth, h⟩ := bind_eq_ok.mp h
          obtain ⟨hlookup, hkind⟩ := Option.filter_eq_some_iff.mp hentry
          cases allowed with
          | false => cases h
          | true =>
            cases h
            exact ⟨opened, rx, entry, cache, hopen, hreq, Bool.eq_false_of_not_eq_true hsat, hun,
              hlookup, of_decide_eq_true hkind, hauth, rfl⟩

/-- **A handler that is not interrupted**: the pass goes on with its chunks. -/
theorem pass_of_openStream (h : openStream S cfg env st f = .ok (some (req, st'))) :
    pass S cfg env st f = .ok (.next (st'.sendChunks S req.requestId
      (env.streamSend req.data req.endpoint) env.wrote)) := by
  obtain ⟨opened, rx, entry, cache, hopen, hreq, hsat, hun, hentry, hkind, hauth, rfl⟩ :=
    (streams_of_openStream h).exists_open
  have hf : f.type = .request := by
    by_contra hne
    rw [requestOf, if_neg hne] at hreq
    cases hreq
  have hdec : decodeRequest opened = .accept req := by
    rw [requestOf, if_pos hf] at hreq
    cases hdec : decodeRequest opened with
    | oob | reject =>
      rw [hdec] at hreq
      cases hreq
    | accept req' =>
      rw [hdec] at hreq
      cases hreq
      rfl
  have hpass : pass S cfg env st f = handleRequest S cfg env { st with conn := { st.conn with
      alive := st.conn.alive && env.othersAlive } } f := by
    rw [pass]
    simp only
    rw [if_neg (by rw [hf]; decide), if_neg (by rw [hf]; decide), if_neg (by rw [hf]; decide),
      if_neg (by rw [hf]; decide), if_neg (by rw [hf]; decide), if_pos hf]
  rw [hpass, handleRequest]
  simp only [hopen, hdec]
  rw [if_neg (by simpa [LoopState.accept] using hsat)]
  simp only [dispatch, if_neg hun, hentry]
  rw [show authorize cfg.serviceName env.view (rateLimit cfg env (LoopState.accept { st with
    conn := { st.conn with alive := st.conn.alive && env.othersAlive } } f opened rx)).peer
    req.endpoint (cfg.accessOf entry) (rateLimit cfg env (LoopState.accept { st with
    conn := { st.conn with alive := st.conn.alive && env.othersAlive } } f opened rx)).authzCache
    = .ok (true, cache) from hauth]
  change Except.ok (Outcome.next (serve S cfg env _ req entry)) = _
  rw [serve]
  simp only [hkind]

end

/-! ### Steps that are not taken by the thread of a connection -/

namespace Hub

/-- The id belongs to no subscription that the connection has or had. -/
def Own (h : Hub) (c : ℕ) (id : UInt64) : Prop := ∀ t, (c, id) ∉ (h.topics t).allKeys

/-- No request of the connection is received, and what is written on it is about its
subscriptions. -/
structure Aside (c : ℕ) (h h' : Hub) : Prop where
  requests : (h'.conns c).requests = (h.conns c).requests
  calls : (h'.conns c).calls = (h.conns c).calls
  written : ∃ xs, (h'.conns c).written = (h.conns c).written ++ xs ∧
    ∀ x ∈ xs, ∃ id, mentions id x = true ∧ ¬ h.Own c id
  keys : ∀ t id, (c, id) ∈ (h'.topics t).allKeys ↔ (c, id) ∈ (h.topics t).allKeys

variable {S : Sodium} {cfg : HostConfig} {h h' : Hub} {c : ℕ}

theorem aside_of_same (hconns : h'.conns c = h.conns c)
    (hkeys : ∀ t id, (c, id) ∈ (h'.topics t).allKeys ↔ (c, id) ∈ (h.topics t).allKeys) :
    Aside c h h' := by
  refine ⟨by rw [hconns], by rw [hconns], ⟨[], ?_, by simp⟩, hkeys⟩
  rw [hconns, List.append_nil]

theorem allKeys_of_perm {topics topics' : ℕ → Topic}
    (hall : ∀ t, (topics' t).all.Perm (topics t).all) (t : ℕ) (k : ℕ × UInt64) :
    k ∈ (topics' t).allKeys ↔ k ∈ (topics t).allKeys :=
  ((hall t).map TopicSub.key).mem_iff

theorem aside_sweep {send : TopicSub → LoopState → Bool → Attempt} {g : TopicSub → TopicSub}
    {emit : TopicSub → List (FrameType × Bytes)} (hsynced : (h.conns c).Synced S)
    (hemit : Emits S send g emit) {topic : ℕ} {t' : Topic} {ok : ℕ → Bool} {w : Sweep}
    (hw : Epx.sweep send (h.topics topic).subs ok h.conns = w)
    (hall : t'.all.Perm (w.kept ++ w.erased ++ (h.topics topic).ended.map Prod.fst)) :
    Aside c h (h.setTopic topic t' w.conns) := by
  have hwrites := writes_sweep hemit (h.topics topic).subs ok h.conns c
  rw [hw] at hwrites
  refine ⟨?_, ?_, ⟨_, hwrites.written hsynced, fun x hx => ?_⟩, fun t id => ?_⟩
  · change (w.conns c).requests = _
    rw [LoopState.requests, hwrites.opened]
    rfl
  · have hbooks := books_sweep hemit.toTame (h.topics topic).subs ok h.conns c
    rw [hw] at hbooks
    exact congrArg Books.calls hbooks
  · obtain ⟨s, hs, hx⟩ := List.mem_flatMap.mp hx
    obtain ⟨hs, hc⟩ := List.mem_filter.mp hs
    obtain ⟨s₀, hs₀, rfl⟩ := exists_of_kept hemit hw hs
    refine ⟨(g s₀).requestId, (hemit.mentions s₀ x hx _).mpr rfl, fun hown => hown topic ?_⟩
    have hkey : (g s₀).key = s₀.key := congrArg Prod.fst (hemit.ticket_eq s₀)
    refine List.mem_map.mpr ⟨s₀, List.mem_append_left _ hs₀, ?_⟩
    rw [← hkey, TopicSub.key, of_decide_eq_true hc]
  · have hcount := count_allKeys_sweep hemit.toTame hw hall t (c, id)
    rw [← List.count_pos_iff, ← List.count_pos_iff]
    exact iff_of_eq (congrArg (0 < ·) hcount)

/-- A call that is no subscription of the connection with the id. -/
theorem mem_allKeys_onTopics {c' : ℕ} {id : UInt64} (topics : ℕ → Topic) (call : HandlerCall)
    (hne : ∀ endpoint topic, call = .subscribe endpoint topic id → c ≠ c') (t : ℕ) :
    (c, id) ∈ (call.onTopics c' topics t).allKeys ↔ (c, id) ∈ (topics t).allKeys := by
  cases call with
  | unary _ _ | streamRecv _ _ _ | streamSend _ _ => exact Iff.rfl
  | subscribe endpoint topic requestId =>
    simp only [HandlerCall.onTopics, Function.update_apply]
    split
    · next heq =>
      subst heq
      rw [Topic.allKeys, ((Topic.all_add c' requestId).map TopicSub.key).mem_iff, List.map_cons,
        List.mem_cons]
      refine or_iff_right fun heq => ?_
      obtain ⟨hc, hid⟩ := Prod.mk.inj heq
      exact hne endpoint t (by rw [hid]) hc
    · rfl
  | unsubscribe topic requestId =>
    simp only [HandlerCall.onTopics, Function.update_apply]
    split
    · next heq =>
      subst heq
      exact ((Topic.all_remove c' requestId).map TopicSub.key).mem_iff
    · rfl

theorem mem_allKeys_foldl {c' : ℕ} {id : UInt64} (calls : List HandlerCall) (topics : ℕ → Topic)
    (hne : ∀ endpoint topic, .subscribe endpoint topic id ∈ calls → c ≠ c') (t : ℕ) :
    (c, id) ∈ (calls.foldl (HandlerCall.onTopics c') topics t).allKeys ↔
      (c, id) ∈ (topics t).allKeys := by
  induction calls generalizing topics with
  | nil => exact Iff.rfl
  | cons call calls ih =>
    rw [List.foldl_cons, ih _ fun endpoint topic h => hne endpoint topic (List.mem_cons_of_mem _ h)]
    refine mem_allKeys_onTopics topics call (fun endpoint topic h => hne endpoint topic ?_) t
    rw [h]
    exact List.mem_cons_self

/-- A subscription that a topic has or had stays known. -/
theorem mem_allKeys_foldl_of_mem {c' : ℕ} {k : ℕ × UInt64} {t : ℕ} (calls : List HandlerCall)
    (topics : ℕ → Topic) (hk : k ∈ (topics t).allKeys) :
    k ∈ (calls.foldl (HandlerCall.onTopics c') topics t).allKeys := by
  induction calls generalizing topics with
  | nil => exact hk
  | cons call calls ih =>
    refine ih _ ?_
    cases call with
    | unary _ _ | streamRecv _ _ _ | streamSend _ _ => exact hk
    | subscribe endpoint topic id =>
      simp only [HandlerCall.onTopics, Function.update_apply]
      split
      · next heq =>
        subst heq
        exact ((Topic.all_add c' id).map TopicSub.key).mem_iff.mpr (List.mem_cons_of_mem _ hk)
      · exact hk
    | unsubscribe topic id =>
      simp only [HandlerCall.onTopics, Function.update_apply]
      split
      · next heq =>
        subst heq
        exact ((Topic.all_remove c' id).map TopicSub.key).mem_iff.mpr hk
      · exact hk

/-- A subscription is among those that its topic has or had. -/
theorem mem_allKeys_of_subscribe {endpoint : Bytes} {topic : ℕ} {id : UInt64}
    {calls : List HandlerCall} (hmem : .subscribe endpoint topic id ∈ calls) (topics : ℕ → Topic) :
    (c, id) ∈ (calls.foldl (HandlerCall.onTopics c) topics topic).allKeys := by
  induction calls generalizing topics with
  | nil => cases hmem
  | cons call calls ih =>
    rcases List.mem_cons.mp hmem with rfl | hmem
    · refine mem_allKeys_foldl_of_mem calls _ ?_
      simp only [HandlerCall.onTopics, Function.update_self]
      exact ((Topic.all_add c id).map TopicSub.key).mem_iff.mpr List.mem_cons_self
    · exact ih hmem _

/-- A frame of another connection is handled. -/
theorem aside_handled {c' : ℕ} (hne : c ≠ c') (o : Outcome) : Aside c h (h.handled c' o) :=
  aside_of_same (Function.update_of_ne hne _ _) fun t _ =>
    mem_allKeys_foldl _ h.topics (fun _ _ _ => hne) t

/-- **A step that is not the handling of a frame** of the connection. -/
theorem aside_of_step (hsynced : (h.conns c).Synced S) {a : Act} (hstep : Step S cfg h a h')
    (hframe : ∀ f env, a ≠ .frame c f env) : Aside c h h' := by
  cases effect_of_step hstep with
  | accept _ | refuse _ | quit _ | finish _ => exact aside_of_same rfl fun _ _ => Iff.rfl
  | @frame c' f env o _ hpass =>
    by_cases hc : c = c'
    · subst hc
      exact absurd rfl (hframe f env)
    · exact aside_handled hc o
  | @shutdown c' _ =>
    have hconns : ((h.kill c').conns c).requests = (h.conns c).requests ∧
        ((h.kill c').conns c).calls = (h.conns c).calls ∧
        ((h.kill c').conns c).written = (h.conns c).written := by
      by_cases hc : c = c'
      · subst hc
        have hself : (h.kill c).conns c =
            { h.conns c with conn := { (h.conns c).conn with alive := false } } :=
          Function.update_self _ _ _
        rw [hself]
        exact ⟨rfl, rfl, rfl⟩
      · rw [show (h.kill c').conns c = h.conns c from Function.update_of_ne hc _ _]
        exact ⟨rfl, rfl, rfl⟩
    obtain ⟨hrequests, hcalls, hwritten⟩ := hconns
    refine ⟨hrequests, hcalls, ⟨[], ?_, by simp⟩, fun _ _ => Iff.rfl⟩
    rw [List.append_nil]
    exact hwritten
  | detach _ =>
    exact aside_of_same rfl (fun t id => allKeys_of_perm (all_update (Topic.all_removeConn _)) t _)
  | publish => exact aside_sweep hsynced (emits_message _) rfl (Topic.all_of_ends _ _ _)
  | heartbeat => exact aside_sweep hsynced emits_heartbeat rfl (Topic.all_of_ends _ _ _)
  | closeAll => exact aside_sweep hsynced (emits_chunk true []) rfl (Topic.all_of_ends [] _ _)

end Hub

/-! ### The machine -/

/-- The connection whose thread takes a step of a hub. -/
def Hub.Act.thread : Hub.Act → Option ℕ
  | .accept c | .refuse c | .frame c _ _ | .quit c | .shutdown c | .detach c | .finish c => some c
  | .publish _ _ _ | .heartbeat _ _ | .closeAll _ _ => none

/-- A hub; of each connection the StreamSend request whose handler its thread is in, with `seq`; and
the ids of the requests for which it was disconnected. -/
structure Desk where
  hub : Hub
  streaming : ℕ → Option (UInt64 × UInt32) := fun _ => none
  refused : ℕ → List UInt64 := fun _ => []

namespace Desk

inductive Act where
  | hub (a : Hub.Act)
  /-- The handler writes a chunk. -/
  | chunk (c : ℕ) (data : Bytes) (ok : Bool)
  /-- The handler has returned, and the last chunk is written. -/
  | endStream (c : ℕ) (ok : Bool)

def start (cfg : HostConfig) (run : ℕ → ServerRun) (acc : ℕ → Accept)
    (hs : ℕ → HandshakeResult) : Desk :=
  { hub := .start cfg run acc hs }

section

variable (S : Sodium) (cfg : HostConfig)

/-- `send_stream_chunk(req.request_id, seq++, is_last, data)`. -/
def sendStreamChunk (h : Hub) (c : ℕ) (requestId : UInt64) (seq : UInt32) (isLast : Bool)
    (data : Bytes) (ok : Bool) : Hub :=
  { h with
    conns := Function.update h.conns c ((h.conns c).sendSealed S .streamChunk (encodeStreamChunk
      { requestId := requestId, seq := seq, isLast := isLast, data := data }) ok) }

/-- A frame was read. -/
def frame (d : Desk) (c : ℕ) (f : RawFrame) (env : Pass) : Option Desk :=
  match openStream S cfg env (d.hub.conns c) f with
  | .ok (some (req, st)) =>
    if d.hub.phase c = .serving then
      some
        { d with
          hub := d.hub.handled c (.next st)
          streaming := Function.update d.streaming c (some (req.requestId, 0)) }
    else none
  | _ =>
    (d.hub.step S cfg (.frame c f env)).map fun hub =>
      { d with
        hub := hub
        refused := Function.update d.refused c (d.refused c ++
          ((overRate S cfg env (d.hub.conns c) f).map RequestPayload.requestId).toList) }

def step (d : Desk) : Act → Option Desk
  | .hub a =>
    if a.thread.any fun c => (d.streaming c).isSome then none -- the thread is in a handler
    else
      match a with
      | .frame c f env => d.frame S cfg c f env
      | a => (d.hub.step S cfg a).map fun hub => { d with hub := hub }
  | .chunk c data ok =>
    match d.streaming c with
    | some (requestId, seq) =>
      some
        { d with
          hub := sendStreamChunk S d.hub c requestId seq false data ok
          streaming := Function.update d.streaming c (some (requestId, seq + 1)) }
    | none => none
  | .endStream c ok =>
    match d.streaming c with
    | some (requestId, seq) =>
      some
        { d with
          hub := sendStreamChunk S d.hub c requestId seq true [] ok
          streaming := Function.update d.streaming c none }
    | none => none

/-- The steps of a host whose StreamSend handlers take time. -/
def Step : Desk → Act → Desk → Prop := OfFun (step S cfg)

end

/-- One constructor for each step, with the conditions under which it is taken. -/
inductive Effect (S : Sodium) (cfg : HostConfig) (d : Desk) : Act → Desk → Prop
  | aside {a : Hub.Act} {h : Hub} : Hub.Step S cfg d.hub a h → (∀ c f env, a ≠ .frame c f env) →
      (∀ c, a.thread = some c → d.streaming c = none) → Effect S cfg d (.hub a) { d with hub := h }
  | frame {c : ℕ} {f : RawFrame} {env : Pass} {o : Outcome} : d.streaming c = none →
      d.hub.phase c = .serving → pass S cfg env (d.hub.conns c) f = .ok o →
      Effect S cfg d (.hub (.frame c f env))
        { d with
          hub := d.hub.handled c o
          refused := Function.update d.refused c (d.refused c ++
            ((overRate S cfg env (d.hub.conns c) f).map RequestPayload.requestId).toList) }
  | opened {c : ℕ} {f : RawFrame} {env : Pass} {req : RequestPayload} {st : LoopState} :
      d.streaming c = none → d.hub.phase c = .serving →
      openStream S cfg env (d.hub.conns c) f = .ok (some (req, st)) →
      Effect S cfg d (.hub (.frame c f env))
        { d with
          hub := d.hub.handled c (.next st)
          streaming := Function.update d.streaming c (some (req.requestId, 0)) }
  | chunk {c : ℕ} {data : Bytes} {ok : Bool} {requestId : UInt64} {seq : UInt32} :
      d.streaming c = some (requestId, seq) →
      Effect S cfg d (.chunk c data ok)
        { d with
          hub := sendStreamChunk S d.hub c requestId seq false data ok
          streaming := Function.update d.streaming c (some (requestId, seq + 1)) }
  | ended {c : ℕ} {ok : Bool} {requestId : UInt64} {seq : UInt32} :
      d.streaming c = some (requestId, seq) →
      Effect S cfg d (.endStream c ok)
        { d with
          hub := sendStreamChunk S d.hub c requestId seq true [] ok
          streaming := Function.update d.streaming c none }

theorem effect_of_frame {S : Sodium} {cfg : HostConfig} {d d' : Desk} {c : ℕ} {f : RawFrame}
    {env : Pass} (hidle : d.streaming c = none) (h : d.frame S cfg c f env = some d') :
    Effect S cfg d (.hub (.frame c f env)) d' := by
  have hpassed : ∀ {d'}, ((d.hub.step S cfg (.frame c f env)).map fun hub =>
      { d with
        hub := hub
        refused := Function.update d.refused c (d.refused c ++
          ((overRate S cfg env (d.hub.conns c) f).map RequestPayload.requestId).toList) })
        = some d' → Effect S cfg d (.hub (.frame c f env)) d' := by
    intro d' h
    obtain ⟨hub, hhub, rfl⟩ := Option.map_eq_some_iff.mp h
    cases Hub.effect_of_step hhub with
    | frame hphase hpass => exact .frame hidle hphase hpass
  rw [Desk.frame] at h
  cases hopen : openStream S cfg env (d.hub.conns c) f with
  | error e =>
    rw [hopen] at h
    exact hpassed h
  | ok r =>
    rw [hopen] at h
    cases r with
    | none => exact hpassed h
    | some p =>
      obtain ⟨req, st⟩ := p
      obtain ⟨hphase, h⟩ := Option.ite_none_right_eq_some.mp h
      cases h
      exact .opened hidle hphase hopen

theorem effect_of_step {S : Sodium} {cfg : HostConfig} {d d' : Desk} {a : Act}
    (h : Step S cfg d a d') : Effect S cfg d a d' := by
  rw [Step, OfFun] at h
  cases a with
  | hub a =>
    obtain ⟨hbusy, h⟩ := Option.ite_none_left_eq_some.mp h
    have hidle : ∀ c, a.thread = some c → d.streaming c = none := by
      intro c hc
      rw [hc] at hbusy
      simpa using hbusy
    cases a with
    | frame c f env => exact effect_of_frame (hidle c rfl) h
    | accept _ | refuse _ | quit _ | shutdown _ | detach _ | finish _ | publish _ _ _
    | heartbeat _ _ | closeAll _ _ =>
      obtain ⟨hub, hhub, rfl⟩ := Option.map_eq_some_iff.mp h
      exact .aside hhub (fun _ _ _ => by simp) hidle
  | chunk c data ok =>
    simp only [step] at h
    split at h
    · next hstream =>
      cases h
      exact .chunk hstream
    · cases h
  | endStream c ok =>
    simp only [step] at h
    split at h
    · next hstream =>
      cases h
      exact .ended hstream
    · cases h

/-! ### A handler that is not interrupted -/

section

variable {S : Sodium} {cfg : HostConfig} {d : Desk} {c : ℕ}

/-- The steps in which a handler writes its chunks, from number `i` on. -/
def chunkActs (c : ℕ) (wrote : ℕ → Bool) (messages : List Bytes) (i : ℕ) : List Act :=
  (messages.zipIdx i).map fun p => .chunk c p.1 (wrote p.2)

variable (S cfg) in
theorem run_chunks (wrote : ℕ → Bool) (d : Desk) {requestId : UInt64} (messages : List Bytes)
    (i : ℕ) (hstream : d.streaming c = some (requestId, UInt32.ofNat i)) :
    Run (Step S cfg) d (chunkActs c wrote messages i)
      { d with
        hub :=
          { d.hub with
            conns := Function.update d.hub.conns c ((messages.zipIdx i).foldl (fun st p =>
              st.sendChunk S requestId p.2 false p.1 (wrote p.2)) (d.hub.conns c)) }
        streaming := Function.update d.streaming c
          (some (requestId, UInt32.ofNat (i + messages.length))) } := by
  induction messages generalizing d i with
  | nil =>
    have hconns : Function.update d.hub.conns c (d.hub.conns c) = d.hub.conns :=
      Function.update_eq_self c _
    have hstreaming : Function.update d.streaming c (some (requestId, UInt32.ofNat i))
        = d.streaming := by rw [← hstream, Function.update_eq_self]
    simp only [chunkActs, List.zipIdx_nil, List.map_nil, List.foldl_nil, hconns, List.length_nil,
      Nat.add_zero, hstreaming]
    exact .nil
  | cons m messages ih =>
    have hfirst : Step S cfg d (.chunk c m (wrote i))
        { d with
          hub := sendStreamChunk S d.hub c requestId (UInt32.ofNat i) false m (wrote i)
          streaming := Function.update d.streaming c (some (requestId, UInt32.ofNat i + 1)) } := by
      simp only [Step, OfFun, step, hstream]
    have hrest := ih (d := { d with
        hub := sendStreamChunk S d.hub c requestId (UInt32.ofNat i) false m (wrote i)
        streaming := Function.update d.streaming c (some (requestId, UInt32.ofNat i + 1)) }) (i + 1)
      (by rw [UInt32.ofNat_add]; exact Function.update_self _ _ _)
    simp only [sendStreamChunk, Function.update_idem, Function.update_self] at hrest
    rw [List.length_cons, show i + (messages.length + 1) = i + 1 + messages.length by omega]
    exact Run.trans (Run.nil.snoc hfirst) hrest

/-- **A handler that is not interrupted** leaves the hub as the pass does. -/
theorem run_stream {f : RawFrame} {env : Pass} {req : RequestPayload} {st : LoopState}
    (hidle : d.streaming c = none) (hphase : d.hub.phase c = .serving)
    (hopen : openStream S cfg env (d.hub.conns c) f = .ok (some (req, st))) :
    Run (Step S cfg) d
      (.hub (.frame c f env) ::
        chunkActs c env.wrote (env.streamSend req.data req.endpoint) 0 ++
        [.endStream c (env.wrote (env.streamSend req.data req.endpoint).length)])
      { d with
        hub := d.hub.handled c (.next (st.sendChunks S req.requestId
          (env.streamSend req.data req.endpoint) env.wrote)) } := by
  have hfirst : Step S cfg d (.hub (.frame c f env))
      { d with
        hub := d.hub.handled c (.next st)
        streaming := Function.update d.streaming c (some (req.requestId, 0)) } := by
    simp [Step, OfFun, step, Hub.Act.thread, hidle, frame, hopen, hphase]
  have hchunks := run_chunks S cfg env.wrote { d with
      hub := d.hub.handled c (.next st)
      streaming := Function.update d.streaming c (some (req.requestId, 0)) }
    (env.streamSend req.data req.endpoint) 0 (Function.update_self _ _ _)
  have hopened : (d.hub.handled c (.next st)).conns c = st := Function.update_self _ _ _
  simp only [hopened, Function.update_idem, Nat.zero_add] at hchunks
  refine (Run.trans (Run.nil.snoc hfirst) hchunks).snoc ?_
  have hcalls : (st.sendChunks S req.requestId (env.streamSend req.data req.endpoint)
      env.wrote).calls = st.calls := congrArg Books.calls (books_sendChunks _ _ _)
  have hback : Function.update d.streaming c none = d.streaming := by
    rw [← hidle, Function.update_eq_self]
  simp only [Step, OfFun, step, Function.update_self, sendStreamChunk, Function.update_idem, hback]
  simp only [Hub.handled, Outcome.state, hcalls, Function.update_idem]
  rfl

end

end Desk

end Epx
