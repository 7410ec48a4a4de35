import Epx.HostStreams
import Epx.RequestAnswers
import Epx.TopicDelivery

/-!
# What the handlers of StreamSend requests write

A record beside a `Desk` of what the StreamSend handlers of one connection have written, by the id
of the request. What the connection has been sent under an id that belongs to no subscription, other
than a RESPONSE, are the chunks that the handler for it has written, in this order.

## Main definitions

* `HandlerRun` — what a handler has written
* `Desk.noted` — the record after a step
* `Desk.Handlers` — what was sent is what is recorded

## Main results

* `Desk.Handlers.step`
-/

namespace Epx

open Codec Exception Transition LoopState
open ClientTables (callback)

/-- What the receiver of a bounded stream is called with. -/
def boundedStream (written : List Bytes) (closed : Bool) : List (Bytes × Bool) :=
  written.map (fun data => (data, false)) ++ if closed = true then [([], true)] else []

theorem map_callback_chunksOf (id : UInt64) (messages : List Bytes) :
    (chunksOf id messages).map callback = messages.map fun data => (data, false) := by
  induction messages using List.reverseRecOn with
  | nil => rfl
  | append_singleton messages message ih =>
    rw [chunksOf_snoc, List.map_append, List.map_append, ih]
    rfl

/-- Only the last call of the receiver tells it that the stream is at its end. -/
theorem eq_boundedStream_of_last {xs : List (Bytes × Bool)} {written : List Bytes} {closed : Bool}
    (h : xs <+: boundedStream written closed) {last : Bytes} (hlast : (last, true) ∈ xs) :
    xs = boundedStream written closed := by
  have hopen : ¬ xs <+: written.map fun data => (data, false) := by
    intro hwritten
    obtain ⟨data, -, heq⟩ := List.mem_map.mp (hwritten.subset hlast)
    cases heq
  rw [boundedStream] at h ⊢
  by_cases hclosed : closed = true
  · rw [if_pos hclosed] at h ⊢
    exact (List.prefix_concat_iff.mp h).resolve_right hopen
  · rw [if_neg hclosed, List.append_nil] at h
    exact absurd h hopen

/-- A call of a StreamSend handler: what it has written, and whether it has returned. -/
structure HandlerRun where
  wrote : List Bytes := []
  returned : Bool := false

namespace HandlerRun

/-- The handler writes a chunk. -/
def write (r : HandlerRun) (data : Bytes) : HandlerRun := { r with wrote := r.wrote ++ [data] }

/-- The handler returns. -/
def finish (r : HandlerRun) : HandlerRun := { r with returned := true }

/-- What the caller of the stream is to be called with. -/
def stream (r : HandlerRun) : List (Bytes × Bool) := boundedStream r.wrote r.returned

/-- The chunks that are sent to the caller. -/
def chunks (r : HandlerRun) (id : UInt64) : List StreamChunkPayload :=
  chunksOf id r.wrote ++ if r.returned = true then [endChunk id r.wrote.length] else []

theorem map_callback_chunks (r : HandlerRun) (id : UInt64) :
    (r.chunks id).map callback = r.stream := by
  rw [chunks, List.map_append, map_callback_chunksOf, stream, boundedStream]
  split
  · rfl
  · rfl

theorem chunks_of_running {r : HandlerRun} (hrunning : r.returned = false) (id : UInt64) :
    r.chunks id = chunksOf id r.wrote := by
  rw [chunks, hrunning, if_neg (by decide), List.append_nil]

theorem chunks_write {r : HandlerRun} (hrunning : r.returned = false) (id : UInt64) (data : Bytes) :
    (r.write data).chunks id = r.chunks id ++
      [{ requestId := id, seq := UInt32.ofNat r.wrote.length, data := data }] := by
  have hrunning' : (r.write data).returned = false := hrunning
  rw [chunks_of_running hrunning, chunks_of_running hrunning']
  exact chunksOf_snoc id r.wrote data

theorem chunks_finish {r : HandlerRun} (hrunning : r.returned = false) (id : UInt64) :
    r.finish.chunks id = r.chunks id ++ [endChunk id r.wrote.length] := by
  rw [chunks_of_running hrunning]
  rfl

/-- The chunks carry the id, and no endpoint. -/
theorem mem_chunks {r : HandlerRun} {id : UInt64} {chunk : StreamChunkPayload}
    (h : chunk ∈ r.chunks id) : chunk.requestId = id ∧ chunk.endpoint = [] := by
  rcases List.mem_append.mp h with h | h
  · obtain ⟨i, hi, rfl⟩ := List.mem_mapIdx.mp h
    exact ⟨rfl, rfl⟩
  · split at h
    · rw [List.mem_singleton.mp h]
      exact ⟨rfl, rfl⟩
    · cases h

end HandlerRun

namespace Desk

/-- The calls of the handlers of connection `c` after a step from `d` to `d'`. -/
def noted (c : ℕ) (d : Desk) (a : Act) (d' : Desk) (runs : UInt64 → Option HandlerRun) :
    UInt64 → Option HandlerRun :=
  match a with
  | .hub _ =>
    if d.streaming c = none then
      (d'.streaming c).elim runs fun p => Function.update runs p.1 (some {})
    else runs
  | .chunk c' data _ =>
    if c' = c then
      (d.streaming c).elim runs fun p =>
        Function.update runs p.1 ((runs p.1).map fun r => r.write data)
    else runs
  | .endStream c' _ =>
    if c' = c then
      (d.streaming c).elim runs fun p => Function.update runs p.1 ((runs p.1).map HandlerRun.finish)
    else runs

/-- The chunks that a connection has been sent under an id. -/
def chunksSent (d : Desk) (c : ℕ) (id : UInt64) : List (FrameType × Bytes) :=
  (d.sentFor c id).filter fun x => x.1 = .streamChunk

/-- The handlers that were called are those for requests that were received, and what they have
written is what was sent. -/
structure Handlers (c : ℕ) (runs : UInt64 → Option HandlerRun) (d : Desk) : Prop where
  called : ∀ id r, runs id = some r → id ∈ d.hub.received c ∧ d.hub.Own c id
  running : ∀ id seq, d.streaming c = some (id, seq) →
    ∃ r, runs id = some r ∧ r.returned = false ∧ seq = UInt32.ofNat r.wrote.length
  sent : ∀ id, d.hub.Own c id →
    d.chunksSent c id = (runs id).elim [] fun r => (r.chunks id).map chunkContent

theorem handlers_start (cfg : HostConfig) (run : ℕ → ServerRun) (acc : ℕ → Accept)
    (hs : ℕ → HandshakeResult) (c : ℕ) : Handlers c (fun _ => none) (start cfg run acc hs) where
  called _ _ h := by cases h
  running _ _ h := by cases h
  sent _ _ := rfl

section

variable {S : Sodium} {cfg : HostConfig} {c : ℕ} {runs runs' : UInt64 → Option HandlerRun}
  {d d' : Desk} {a : Act}

/-- No chunk is written under an id that belongs to no subscription, and no handler is called. -/
theorem Handlers.same (h : d.Handlers c runs) {ids : List UInt64} {xs : List (FrameType × Bytes)}
    (hreceived : d'.hub.received c = d.hub.received c ++ ids)
    (hwritten : (d'.hub.conns c).written = (d.hub.conns c).written ++ xs)
    (hstreaming : d'.streaming c = d.streaming c)
    (hkeep : ∀ id ∈ d.hub.received c, d.hub.Own c id → d'.hub.Own c id)
    (hown : ∀ id, d'.hub.Own c id → d.hub.Own c id)
    (hxs : ∀ x ∈ xs, ∀ id, d.hub.Own c id → mentions id x = true → x.1 ≠ .streamChunk) :
    d'.Handlers c runs where
  called id r hr := by
    obtain ⟨hin, hmine⟩ := h.called id r hr
    rw [hreceived]
    exact ⟨List.mem_append_left _ hin, hkeep id hin hmine⟩
  running id seq hs := by
    rw [hstreaming] at hs
    exact h.running id seq hs
  sent id hmine := by
    have hnone : (about id xs).filter (fun x => x.1 = .streamChunk) = [] := by
      refine List.filter_eq_nil_iff.mpr fun x hx htype => ?_
      obtain ⟨hx, hm⟩ := List.mem_filter.mp hx
      exact hxs x hx id (hown id hmine) hm (of_decide_eq_true htype)
    rw [chunksSent, sentFor, hwritten, about_append, List.filter_append, hnone, List.append_nil]
    exact h.sent id (hown id hmine)

/-- **A step that is not the handling of a frame** of the connection. -/
theorem Handlers.aside (h : d.Handlers c runs) (haside : Hub.Aside c d.hub d'.hub)
    (hstreaming : d'.streaming c = d.streaming c) : d'.Handlers c runs := by
  obtain ⟨xs, hwritten, hxs⟩ := haside.written
  have hown : ∀ id, d'.hub.Own c id ↔ d.hub.Own c id := fun id =>
    forall_congr' fun t => not_congr (haside.keys t id)
  have hreceived : d'.hub.received c = d.hub.received c ++ [] := by
    rw [received_eq, received_eq, requests, haside.requests, List.append_nil]
    rfl
  refine h.same hreceived hwritten hstreaming (fun id _ => (hown id).mpr)
    (fun id => (hown id).mp) fun x hx id hmine hm => ?_
  obtain ⟨id', hm', hno⟩ := hxs x hx
  rw [mentions_unique hm hm'] at hmine
  exact absurd hmine hno

/-- No handler is called in a step of the hub. -/
theorem Handlers.of_hub {b : Hub.Act} (hstreaming : d'.streaming c = d.streaming c)
    (h : d'.Handlers c runs) : d'.Handlers c (noted c d (.hub b) d' runs) := by
  have hnoted : noted c d (.hub b) d' runs = runs := by
    rw [noted]
    split
    · next hnone =>
      rw [hstreaming, hnone]
      rfl
    · rfl
  rw [hnoted]
  exact h

/-- A frame that does not lead to a handler. -/
theorem openStream_ne_of_step {f : RawFrame} {env : Pass}
    (hstep : Step S cfg d (.hub (.frame c f env)) d') (hidle : d'.streaming c = none) :
    ∀ p, openStream S cfg env (d.hub.conns c) f ≠ .ok (some p) := by
  intro p hopen
  have hfun : d.step S cfg (.hub (.frame c f env)) = some d' := hstep
  obtain ⟨-, hfun⟩ := Option.ite_none_left_eq_some.mp hfun
  rw [Desk.frame, hopen] at hfun
  obtain ⟨-, hfun⟩ := Option.ite_none_right_eq_some.mp hfun
  rw [← Option.some.inj hfun] at hidle
  have hset : Function.update d.streaming c (some (p.1.requestId, 0)) c = none := hidle
  rw [Function.update_self] at hset
  cases hset

/-- **The handling of a frame** that does not lead to a handler. -/
theorem Handlers.pass (h : d.Handlers c runs) (hanswering : d.Answering S cfg c) {f : RawFrame}
    {env : Pass} {o : Outcome} (hphase : d.hub.phase c = .serving)
    (hpass : Epx.pass S cfg env (d.hub.conns c) f = .ok o)
    (hno : ∀ p, openStream S cfg env (d.hub.conns c) f ≠ .ok (some p))
    (hothers : env.othersAlive = true) (hwrote : ∀ i, env.wrote i = true)
    (hv2 : f.type = .rekey → (d.hub.conns c).conn.v2 = true)
    (hnodup : (((afterPass S cfg d c f env o).requests c).map RequestPayload.requestId).Nodup) :
    (afterPass S cfg d c f env o).Handlers c runs := by
  have halive : (d.hub.conns c).conn.alive = true :=
    hanswering.lasting.alive (by rw [hphase]; exact id)
  have hself : (afterPass S cfg d c f env o).hub.conns c = o.state := Function.update_self _ _ _
  obtain ⟨xs, hwritten, htypes⟩ := (keeps_of_pass hothers hwrote halive hv2 hno hpass).writes
  obtain ⟨ids, contents, hex⟩ := exchange_pass hpass
  have hreceived : (afterPass S cfg d c f env o).hub.received c = d.hub.received c ++ ids :=
    Hub.received_exchange hex hself
  have hsynced := hanswering.fed.synced
  have hwritten' : ((afterPass S cfg d c f env o).hub.conns c).written
      = (d.hub.conns c).written ++ xs := by
    rw [hself]
    exact hwritten hsynced
  refine h.same hreceived hwritten' rfl (fun id hin hmine t hmem => hmine t ?_)
    (fun id hmine t hmem => hmine t (Hub.mem_allKeys_foldl_of_mem _ _ hmem))
    fun x hx _ _ _ => htypes x hx
  -- the id was in use before, so that no new subscription has it
  refine (Hub.mem_allKeys_foldl _ d.hub.topics (fun endpoint topic hsub => ?_) t).mp hmem
  rw [← received_eq, hreceived, List.nodup_append] at hnodup
  exact absurd rfl (hnodup.2.2 id hin id (hex.subscribed endpoint topic id hsub).1)

/-- **The handler of a StreamSend request is called.** -/
theorem Handlers.opened (h : d.Handlers c runs) (hanswering : d.Answering S cfg c) {f : RawFrame}
    {env : Pass} {req : RequestPayload} {st : LoopState}
    (hopen : openStream S cfg env (d.hub.conns c) f = .ok (some (req, st)))
    (hothers : env.othersAlive = true) (hhub : d'.hub = d.hub.handled c (.next st))
    (hstreaming : d'.streaming c = some (req.requestId, 0))
    (hnodup : ((d'.requests c).map RequestPayload.requestId).Nodup) :
    d'.Handlers c (Function.update runs req.requestId (some {})) := by
  obtain ⟨hwritten, -⟩ := streams_of_opened hothers hopen
  obtain ⟨opened, rx, entry, cache, -, hreq, -, -, -, -, -, hst⟩ :=
    (streams_of_openStream hopen).exists_open
  have hself : d'.hub.conns c = st := by
    rw [hhub]
    exact Function.update_self _ _ _
  have hcalls : st.calls = (d.hub.conns c).calls ++ [.streamSend req.endpoint req.data] := by
    rw [hst]
    rfl
  have htopics : d'.hub.topics = d.hub.topics := by
    rw [hhub]
    simp only [Hub.handled, Outcome.state, hcalls, List.drop_left, List.foldl_cons, List.foldl_nil]
    rfl
  have hrequests : d'.requests c = d.requests c ++ [req] := by
    rw [requests, hself, hst]
    refine (requests_accept _ f opened rx).trans ?_
    rw [hreq]
    rfl
  have hown : ∀ id, d'.hub.Own c id ↔ d.hub.Own c id := fun id => by
    rw [Hub.Own, Hub.Own, htopics]
  have hreceived : d'.hub.received c = d.hub.received c ++ [req.requestId] := by
    rw [received_eq, received_eq, hrequests, List.map_append]
    rfl
  have hnew : req.requestId ∉ d.hub.received c := by
    rw [← received_eq, hreceived, List.nodup_append] at hnodup
    exact fun hin => hnodup.2.2 _ hin _ (List.mem_singleton_self _) rfl
  have hsent : ∀ id, d'.chunksSent c id = d.chunksSent c id := fun id => by
    rw [chunksSent, sentFor, hself, hwritten hanswering.fed.synced]
    rfl
  obtain ⟨hnothing, hfree⟩ := hanswering.fed.unknown _ hnew
  refine ⟨fun id r hr => ?_, fun id seq hs => ?_, fun id hmine => ?_⟩
  · rw [hreceived, hown]
    by_cases hid : id = req.requestId
    · rw [hid]
      exact ⟨List.mem_append_right _ (List.mem_singleton_self _), hfree⟩
    · rw [Function.update_of_ne hid] at hr
      exact (h.called id r hr).imp_left (List.mem_append_left _)
  · rw [hstreaming] at hs
    cases hs
    exact ⟨{}, Function.update_self _ _ _, rfl, rfl⟩
  · rw [hsent]
    by_cases hid : id = req.requestId
    · subst hid
      rw [Function.update_self, chunksSent, sentFor, hnothing]
      rfl
    · rw [Function.update_of_ne hid]
      exact h.sent id ((hown id).mp hmine)

/-- **A handler writes a chunk**, or returns. -/
theorem Handlers.chunk (h : d.Handlers c runs) (hanswering : d.Answering S cfg c)
    (chunk : StreamChunkPayload) (hs : d.streaming c = some (chunk.requestId, chunk.seq))
    (hendpoint : chunk.endpoint = []) {next : Option (UInt64 × UInt32)} {r r' : HandlerRun}
    (hr : runs chunk.requestId = some r)
    (hchunks : r'.chunks chunk.requestId = r.chunks chunk.requestId ++ [chunk])
    (hnext : ∀ id seq, next = some (id, seq) →
      id = chunk.requestId ∧ r'.returned = false ∧ seq = UInt32.ofNat r'.wrote.length) :
    (afterChunk S d c chunk next).Handlers c (Function.update runs chunk.requestId (some r')) := by
  obtain ⟨-, -, hadv⟩ := hanswering.advance_chunk chunk hs hendpoint next
  have hmention : ∀ id, mentions id (chunkContent chunk) = true ↔ id = chunk.requestId :=
    mentions_streamChunk chunk
  have hreceived : (afterChunk S d c chunk next).hub.received c = d.hub.received c := by
    rw [received_eq, received_eq, hadv.requests, List.append_nil]
  refine ⟨fun id r₁ hr₁ => ?_, fun id seq hs' => ?_, fun id hmine => ?_⟩
  · rw [hreceived]
    by_cases hid : id = chunk.requestId
    · rw [hid]
      exact h.called _ r hr
    · rw [Function.update_of_ne hid] at hr₁
      exact h.called id r₁ hr₁
  · have hstreaming : (afterChunk S d c chunk next).streaming c = next := Function.update_self _ _ _
    obtain ⟨rfl, hrunning, hseq⟩ := hnext id seq (hstreaming.symm.trans hs')
    exact ⟨r', Function.update_self _ _ _, hrunning, hseq⟩
  · have hold := h.sent id hmine
    rw [chunksSent] at hold ⊢
    rw [sentFor_append hadv, List.filter_append, hold]
    by_cases hid : id = chunk.requestId
    · subst hid
      have hone : about chunk.requestId [chunkContent chunk] = [chunkContent chunk] :=
        List.filter_cons_of_pos ((hmention _).mpr rfl)
      rw [hone, Function.update_self, hr]
      change (r.chunks chunk.requestId).map chunkContent ++ _
        = (r'.chunks chunk.requestId).map chunkContent
      rw [hchunks, List.map_append]
      rfl
    · have hnone : about id [chunkContent chunk] = [] :=
        List.filter_cons_of_neg fun hm => hid ((hmention id).mp hm)
      rw [hnone, Function.update_of_ne hid]
      exact List.append_nil _

/-- **Every step of a connection whose writes succeed.** -/
theorem Handlers.step (h : d.Handlers c runs) (hanswering : d.Answering S cfg c)
    (hstep : SmoothStep S cfg c d a d')
    (hv2 : ∀ f env, a = .hub (.frame c f env) → f.type = .rekey →
      (d.hub.conns c).conn.v2 = true) : d'.Handlers c (noted c d a d' runs) := by
  obtain ⟨hstep, hsucceeds, hnodup⟩ := hstep
  cases effect_of_step hstep with
  | @aside b hub hhub hframe _ =>
    have haside := Hub.aside_of_step hanswering.fed.synced hhub fun f env => hframe c f env
    exact Handlers.of_hub rfl (h.aside haside rfl)
  | @frame c' f env o hfree hphase hpass =>
    refine Handlers.of_hub rfl ?_
    by_cases hc : c' = c
    · subst hc
      obtain ⟨hothers, hwrote, -⟩ := hsucceeds rfl
      exact h.pass hanswering hphase hpass (openStream_ne_of_step hstep hfree) hothers hwrote
        (hv2 f env rfl) hnodup
    · exact h.aside (Hub.aside_handled (Ne.symm hc) o) rfl
  | @opened c' f env req st hfree hphase hopen =>
    by_cases hc : c' = c
    · subst hc
      have hstreaming : Function.update d.streaming c' (some (req.requestId, 0)) c'
          = some (req.requestId, 0) := Function.update_self _ _ _
      rw [noted, if_pos hfree]
      dsimp only
      rw [hstreaming]
      exact h.opened hanswering hopen (hsucceeds rfl).1 rfl hstreaming hnodup
    · have hother : Function.update d.streaming c' (some (req.requestId, 0)) c = d.streaming c :=
        Function.update_of_ne (Ne.symm hc) _ _
      exact Handlers.of_hub hother (h.aside (Hub.aside_handled (Ne.symm hc) (.next st)) hother)
  | @chunk c' data ok id seq hs =>
    by_cases hc : c' = c
    · subst hc
      cases hsucceeds rfl
      obtain ⟨r, hr, hrunning, hseq⟩ := h.running id seq hs
      rw [noted, if_pos rfl, hs, Option.elim_some, hr, Option.map_some]
      refine h.chunk hanswering { requestId := id, seq := seq, isLast := false, data := data } hs
        rfl hr ?_ fun id' seq' hnext => ?_
      · rw [HandlerRun.chunks_write hrunning, hseq]
      · cases hnext
        refine ⟨rfl, hrunning, ?_⟩
        rw [HandlerRun.write, List.length_append, List.length_singleton, UInt32.ofNat_add, ← hseq]
        rfl
    · rw [noted, if_neg hc]
      exact h.aside (Hub.aside_of_same (Function.update_of_ne (Ne.symm hc) _ _) fun _ _ => Iff.rfl)
        (Function.update_of_ne (Ne.symm hc) _ _)
  | @ended c' ok id seq hs =>
    by_cases hc : c' = c
    · subst hc
      cases hsucceeds rfl
      obtain ⟨r, hr, hrunning, hseq⟩ := h.running id seq hs
      rw [noted, if_pos rfl, hs, Option.elim_some, hr, Option.map_some]
      refine h.chunk hanswering { requestId := id, seq := seq, isLast := true, data := [] } hs
        rfl hr ?_ fun id' seq' hnext => ?_
      · rw [HandlerRun.chunks_finish hrunning, endChunk, hseq]
      · cases hnext
    · rw [noted, if_neg hc]
      exact h.aside (Hub.aside_of_same (Function.update_of_ne (Ne.symm hc) _ _) fun _ _ => Iff.rfl)
        (Function.update_of_ne (Ne.symm hc) _ _)

end

end Desk

end Epx
