import Epx.Link

/-!
# Streams arrive intact

Bounded streams in both directions on a connection that stays up. The chunks of output streams are
told apart by the endpoint at the host's end, those of StreamSend handlers by the request id at the
client's. What the StreamReceive handler of an endpoint is called with are the chunks to it in the
order in which they were sealed; what the callback of a `get_stream` is called with are the chunks
that the handler of its own request has written, in their order.

Request ids are counted in 64 bits. When they start over, the chunks of one `get_stream` can reach
the callback of another.

## Main definitions

* `Line.chunksTo`, `Line.contributed` — the chunks to an endpoint, and those of one output stream
* `Link.Inbound`, `Link.Outbound` — what holds of the streams in the two directions

## Main results

* `streams_intact`
* `streams_cross` — more than `2 ^ 64` request ids
-/

namespace Epx

open Codec Transition
open ClientTables (chunkOf chunksFor callback)

namespace Line

/-- The chunks to an endpoint, in the order in which they were sealed. -/
def chunksTo (l : Line) (endpoint : Bytes) : List StreamChunkPayload :=
  (l.sent.filterMap ClientFrame.asChunk).filter fun chunk => chunk.endpoint = endpoint

/-- What an output stream contributes to the chunks to its endpoint. -/
def contributed (l : Line) (o : OutputStream) : List StreamChunkPayload :=
  (l.chunksTo o.impl.endpoint).filter fun chunk => chunk.requestId = o.requestId

end Line

namespace Link

/-- The streams of the client's output streams arrive intact at the endpoints `E`. -/
structure Inbound (c : ℕ) (E : Set Bytes) (k : Link) : Prop where
  /-- A handler is called for the chunks to its endpoint in the order in which they were sealed. -/
  received : ∀ e ∈ E, (k.conn c).received e <+: (k.line.chunksTo e).map callback
  /-- For all of them, when nothing is in flight. -/
  complete : ∀ e ∈ E, k.line.toHost = [] →
    (k.conn c).received e = (k.line.chunksTo e).map callback
  /-- A stream contributes its chunks in order and then the end, and nobody else contributes. -/
  contributed : ∀ o ∈ k.line.outputs,
    (k.line.contributed o).map callback <+: boundedStream o.written o.impl.finished
  contributedAll : k.line.sending = none → ∀ o ∈ k.line.outputs,
    (k.line.contributed o).map callback = boundedStream o.written o.impl.finished
  others : ∀ e, ∀ chunk ∈ k.line.chunksTo e,
    ∃ o ∈ k.line.outputs, o.impl.endpoint = e ∧ chunk ∈ k.line.contributed o
  apart : (k.line.outputs.map OutputStream.requestId).Nodup

/-- The streams of the host's StreamSend handlers arrive intact at the callbacks of `get_stream`. -/
structure Outbound (c : ℕ) (k : Link) : Prop where
  /-- A callback is called for chunks with the id of its call, which no other call has; that of a
  subscription is told in addition that the feed is closed. -/
  own : ∀ i, ∀ p ∈ k.line.side.calls.invoked i, ∃ kind id,
    (k.line.side.calls.calls i).asks = some (kind, id) ∧
    (p ∈ (chunksFor id k.line.taken).map callback ∨ kind = .subscribe ∧ p = ([], true))
  apart : ∀ i j kind kind' id, (k.line.side.calls.calls i).asks = some (kind, id) →
    (k.line.side.calls.calls j).asks = some (kind', id) → i = j
  /-- Nothing reaches a callback before the host has the request of its call. -/
  unheard : ∀ i id, (k.line.side.calls.calls i).asks = some (.getStream, id) →
    k.line.request i id ∉ k.desk.requests c → k.line.side.calls.invoked i = []
  /-- Nor without a handler, unless the endpoint is a topic. -/
  unhandled : ∀ i id, (k.line.side.calls.calls i).asks = some (.getStream, id) →
    k.runs id = none → k.desk.hub.Own c id → k.line.side.calls.invoked i = []
  /-- A handler was called for the request of the call, and the callback is called for what it has
  written and then for its return. -/
  handled : ∀ i id r, (k.line.side.calls.calls i).asks = some (.getStream, id) →
    k.runs id = some r →
    k.line.request i id ∈ k.desk.requests c ∧ k.line.side.calls.invoked i <+: r.stream
  /-- For all of it, when nothing is in flight and the call has not given up. -/
  complete : ∀ i id r, (k.line.side.calls.calls i).under = some (.getStream, id) →
    k.runs id = some r → k.line.side.input = [] → k.line.side.calls.reader.unstarted i = [] →
    k.line.side.calls.invoked i = r.stream
  /-- For all of it, when the call has returned normally. -/
  returned : ∀ i id r data, k.line.side.calls.calls i = .over .getStream id (.returned data) →
    k.runs id = some r → k.line.side.calls.reader.unstarted i = [] →
    k.line.side.calls.invoked i = r.stream

/-- Streams arrive intact in both directions. -/
structure Intact (c : ℕ) (E : Set Bytes) (k : Link) : Prop where
  inbound : k.Inbound c E
  outbound : k.Outbound c

section

variable {S : Sodium} {cfg : HostConfig} {c : ℕ} {E : Set Bytes} {k : Link}

/-! ### Towards the host -/

theorem map_callback_chunks (o : OutputStream) :
    o.chunks.map callback = boundedStream o.written o.impl.finished := by
  rw [OutputStream.chunks, List.map_map, List.map_append, boundedStream]
  have hfirst : (chunksOf o.requestId o.written).map
      (callback ∘ fun chunk => { chunk with endpoint := o.impl.endpoint })
      = o.written.map fun data => (data, false) := map_callback_chunksOf o.requestId o.written
  rw [hfirst]
  congr 1
  split
  · rfl
  · rfl

theorem endpoint_of_mem_chunks {o : OutputStream} {chunk : StreamChunkPayload}
    (h : chunk ∈ o.chunks) : chunk.endpoint = o.impl.endpoint := by
  obtain ⟨ch, -, rfl⟩ := List.mem_map.mp h
  rfl

/-- The chunks with the id of an output stream that were sealed are the first of its chunks. -/
theorem Inv.sealed_chunks (h : k.Inv S cfg c E) {o : OutputStream} (ho : o ∈ k.line.outputs) :
    ∃ xs, o.chunks = k.line.contributed o ++ xs ∧ (k.line.sending = none → xs = []) := by
  have hchunks := h.outputs.chunks o ho
  rw [Line.chunksWith, Line.made, List.filterMap_append, List.filter_append] at hchunks
  have hsame : k.line.contributed o = (k.line.sent.filterMap ClientFrame.asChunk).filter
      fun chunk => chunk.requestId = o.requestId := by
    rw [Line.contributed, Line.chunksTo, List.filter_filter]
    refine List.filter_congr fun chunk hchunk => ?_
    by_cases hid : chunk.requestId = o.requestId
    · have hmem : chunk ∈ o.chunks := by
        rw [← hchunks]
        exact List.mem_append_left _ (List.mem_filter.mpr ⟨hchunk, by simpa using hid⟩)
      simp [hid, endpoint_of_mem_chunks hmem]
    · simp [hid]
  refine ⟨_, by rw [← hchunks, hsame], fun hnone => ?_⟩
  rw [hnone]
  rfl

theorem Inv.inbound (hS : S.AeadCorrect) (h : k.Inv S cfg c E) : k.Inbound c E := by
  obtain ⟨s, hend, hcarries⟩ := h.session
  obtain ⟨xs, hsealed, hflight⟩ := delivered_toHost hend hcarries
  have hchunks := Line.chunks_sealed h.seals h.short (h.up.client.fits hS)
  rw [hsealed, List.filterMap_append] at hchunks
  have hall : ∀ e ∈ E, (k.line.chunksTo e).map callback = (k.conn c).received e ++
      ((xs.filterMap chunkOf).filter fun chunk => chunk.endpoint = e).map callback := by
    intro e he
    rw [Line.chunksTo, ← hchunks, List.filter_append, List.map_append, h.received e he]
    rfl
  refine ⟨fun e he => ?_, fun e he hnone => ?_, fun o ho => ?_, fun hnone o ho => ?_,
    fun e chunk hchunk => ?_, h.ids.outputs_nodup⟩
  · rw [hall e he]
    exact List.prefix_append _ _
  · rw [hall e he, hflight hnone]
    exact (List.append_nil _).symm
  · obtain ⟨ys, hys, -⟩ := h.sealed_chunks ho
    rw [← map_callback_chunks, hys, List.map_append]
    exact List.prefix_append _ _
  · obtain ⟨ys, hys, hnone'⟩ := h.sealed_chunks ho
    rw [← map_callback_chunks, hys, hnone' hnone, List.append_nil]
  · obtain ⟨hsent, hendpoint⟩ := List.mem_filter.mp hchunk
    have hmade : chunk ∈ k.line.made.filterMap ClientFrame.asChunk := by
      rw [Line.made, List.filterMap_append]
      exact List.mem_append_left _ hsent
    obtain ⟨o, ho, hid⟩ := List.mem_map.mp (h.outputs.known chunk hmade)
    have hmem : chunk ∈ o.chunks := by
      rw [← h.outputs.chunks o ho]
      exact List.mem_filter.mpr ⟨hmade, by simpa using hid.symm⟩
    have heq : o.impl.endpoint = e :=
      (endpoint_of_mem_chunks hmem).symm.trans (of_decide_eq_true hendpoint)
    refine ⟨o, ho, heq, List.mem_filter.mpr ⟨?_, by simpa using hid.symm⟩⟩
    rw [heq]
    exact hchunk

/-! ### Towards the client -/

/-- What was written is short enough to be read back. -/
theorem Inv.written_short (hS : S.AeadCorrect) (h : k.Inv S cfg c E) :
    ∀ x ∈ (k.conn c).written, x.2.length < 2 ^ 32 := by
  intro x hx
  obtain ⟨y, hy, rfl⟩ := List.mem_map.mp hx
  have hout : y.frame S (k.conn c).conn.v2 ∈ (k.conn c).sealedOut := by
    have hframes : (k.conn c).sealedOut = _ := h.answering.fed.synced.frames
    rw [hframes]
    exact List.mem_map_of_mem hy
  have hlen := h.up.back _ (List.mem_filter.mp hout).1
  change headerLen (k.conn c).conn.v2 + (sealFrame S (k.conn c).conn.v2 y.key y.counter y.epoch
    y.type y.plaintext).length < 2 ^ 32 at hlen
  rw [sealFrame_eq, hS.length_encrypt] at hlen
  change y.plaintext.length < 2 ^ 32
  omega

/-- The chunks that were written under an id are those of its handler. -/
theorem Inv.chunksFor_written (hS : S.AeadCorrect) (h : k.Inv S cfg c E) {id : UInt64}
    (hown : k.desk.hub.Own c id) :
    chunksFor id (k.conn c).written = (k.runs id).elim [] fun r => r.chunks id := by
  have hsent := h.handlers.sent id hown
  -- a RESPONSE holds no chunk
  have hchunks : chunksFor id (k.conn c).written = chunksFor id (k.desk.chunksSent c id) := by
    rw [← Service.chunksFor_about, chunksFor, chunksFor, Desk.chunksSent, List.filterMap_filter]
    congr 1
    refine List.filterMap_congr fun x _ => ?_
    by_cases htype : x.1 = .streamChunk
    · simp [htype]
    · simp [htype, chunkOf]
  rw [hchunks, hsent]
  cases hr : k.runs id with
  | none => rfl
  | some r =>
    rw [hr] at hsent
    refine Service.chunksFor_chunkContent fun chunk hchunk => ?_
    obtain ⟨hid, hendpoint⟩ := HandlerRun.mem_chunks hchunk
    have hmem : chunkContent chunk ∈ k.desk.chunksSent c id := by
      rw [hsent]
      exact List.mem_map_of_mem hchunk
    have hwritten := (List.mem_filter.mp (List.mem_filter.mp hmem).1).1
    refine ⟨hid, chunkOf_content (f := .streamChunk chunk) ?_ (h.written_short hS _ hwritten)⟩
    change chunk.endpoint.length ≤ 255
    rw [hendpoint]
    exact Nat.zero_le _

theorem Inv.map_callback_written (hS : S.AeadCorrect) (h : k.Inv S cfg c E) {id : UInt64}
    {r : HandlerRun} (hr : k.runs id = some r) :
    (chunksFor id (k.conn c).written).map callback = r.stream := by
  rw [h.chunksFor_written hS (h.handlers.called id r hr).2, hr, Option.elim_some,
    HandlerRun.map_callback_chunks]

/-- The request with the id of a call that the host has accepted is that of the call. -/
theorem Inv.request_of_received (hS : S.AeadCorrect) (h : k.Inv S cfg c E) {i : ℕ}
    {kind : AskKind} {id : UInt64} (hi : (k.line.side.calls.calls i).asks = some (kind, id))
    (hid : id ∈ k.desk.hub.received c) : k.line.request i id ∈ k.desk.requests c := by
  obtain ⟨s, hend, hcarries⟩ := h.session
  rw [Desk.received_eq] at hid
  obtain ⟨req, hreq, rfl⟩ := List.mem_map.mp hid
  have hposed := ((requests_delivered hS hend hcarries h.seals h.short h.up.client).trans
    (sent_posed k.line)).subset hreq
  rw [← h.ids.calls req hposed i kind hi]
  exact hreq

/-- What the callback of a `get_stream` was called with was read under its id. -/
theorem Inv.invoked_read (h : k.Inv S cfg c E) {i : ℕ} {id : UInt64}
    (hi : (k.line.side.calls.calls i).asks = some (.getStream, id)) :
    k.line.side.calls.invoked i <+: (chunksFor id k.line.taken).map callback := by
  have hhanded : k.line.side.calls.invoked i <+: k.line.side.calls.handed i :=
    List.prefix_append _ _
  rw [(h.reads.handed i).streams id hi] at hhanded
  exact hhanded.trans (h.reads.known i _ id hi)

theorem Inv.taken_written (h : k.Inv S cfg c E) (id : UInt64) :
    chunksFor id k.line.taken <+: chunksFor id (k.conn c).written := by
  obtain ⟨s, hend, hcarries⟩ := h.session
  obtain ⟨xs, hwritten, -⟩ := delivered_toClient hend hcarries
  rw [hwritten, ClientTables.chunksFor_append]
  exact List.prefix_append _ _

/-- A callback is called for what was read under the id of its call. -/
theorem Inv.own (h : k.Inv S cfg c E) {i : ℕ} {p : Bytes × Bool}
    (hp : p ∈ k.line.side.calls.invoked i) :
    ∃ kind id, (k.line.side.calls.calls i).asks = some (kind, id) ∧
      (p ∈ (chunksFor id k.line.taken).map callback ∨ kind = .subscribe ∧ p = ([], true)) := by
  rcases (h.reads.handed i).own p (List.mem_append_left _ hp) with hfed | ⟨hlast, id, hi⟩
  · have hasks : ∃ x, (k.line.side.calls.calls i).asks = some x := by
      by_contra hno
      have hnone : (k.line.side.calls.calls i).under = none := by
        cases hunder : (k.line.side.calls.calls i).under with
        | none => rfl
        | some x => exact absurd ⟨x, CallPlace.asks_of_under hunder⟩ hno
      have hempty := ((h.reads.handed i).early hnone fun kind id o hover =>
        hno ⟨(kind, id), by rw [hover]; rfl⟩).1
      rw [hempty] at hfed
      cases hfed
    obtain ⟨⟨kind, id⟩, hi⟩ := hasks
    exact ⟨kind, id, hi, Or.inl ((h.reads.known i kind id hi).subset hfed)⟩
  · exact ⟨.subscribe, id, hi, Or.inr ⟨rfl, hlast⟩⟩

/-- What the callback of a `get_stream` was called with is what its handler has written. -/
theorem Inv.handled (hS : S.AeadCorrect) (h : k.Inv S cfg c E) {i : ℕ} {id : UInt64}
    {r : HandlerRun} (hi : (k.line.side.calls.calls i).asks = some (.getStream, id))
    (hr : k.runs id = some r) : k.line.side.calls.invoked i <+: r.stream := by
  have hwritten := (h.taken_written id).map callback
  rw [h.map_callback_written hS hr] at hwritten
  exact (h.invoked_read hi).trans hwritten

/-- What was read for a `get_stream` has reached its callback, when the reader owes it nothing. -/
theorem Inv.invoked_of_unstarted (h : k.Inv S cfg c E) {i : ℕ} {id : UInt64}
    (hi : (k.line.side.calls.calls i).asks = some (.getStream, id))
    (howed : k.line.side.calls.reader.unstarted i = []) :
    k.line.side.calls.fed i = k.line.side.calls.invoked i := by
  rw [← (h.reads.handed i).streams id hi, ClientCalls.handed, howed, List.append_nil]

theorem Inv.outbound (hS : S.AeadCorrect) (h : k.Inv S cfg c E) : k.Outbound c where
  own _ _ hp := h.own hp
  apart i j kind kind' id := h.reads.streams.ids.asks_inj i j kind kind' id
  unheard i id hi hno := by
    have hread := h.invoked_read hi
    rw [h.unread fun hin => hno (h.request_of_received hS hi (by rw [Desk.received_eq]; exact hin)),
      List.map_nil, List.prefix_nil] at hread
    exact hread
  unhandled i id hi hr hown := by
    have hread := (h.invoked_read hi).trans ((h.taken_written id).map callback)
    rw [h.chunksFor_written hS hown, hr, Option.elim_none, List.map_nil, List.prefix_nil] at hread
    exact hread
  handled i id r hi hr :=
    ⟨h.request_of_received hS hi (h.handlers.called id r hr).1, h.handled hS hi hr⟩
  complete i id r hi hr hinput howed := by
    obtain ⟨s, hend, hcarries⟩ := h.session
    obtain ⟨xs, hwritten, hflight⟩ := delivered_toClient hend hcarries
    rw [hflight hinput, List.append_nil] at hwritten
    rw [← h.invoked_of_unstarted (CallPlace.asks_of_under hi) howed, h.reads.under i _ id hi,
      ← hwritten, h.map_callback_written hS hr]
  returned i id r data hover hr howed := by
    have hi : (k.line.side.calls.calls i).asks = some (.getStream, id) := by rw [hover]; rfl
    obtain ⟨last, hlast⟩ := h.reads.lastRead i id data hover
    rw [h.invoked_of_unstarted hi howed] at hlast
    exact eq_boundedStream_of_last (h.handled hS hi hr) hlast

end

end Link

/-- **Streams arrive intact**, on a connection that stays up and has drawn fewer than `2 ^ 64`
request ids, however its streams, requests, topic messages, pings and key rotations follow each
other,

* the StreamReceive handler of an endpoint is called for the chunks to it that the client's output
  streams have written, in the order in which they were sealed, each stream contributing its chunks
  in order and then one call with empty data;
* the callback of a `get_stream` is called for the chunks that the StreamSend handler of its request
  has written, in order, and then once with empty data, for all of it if it returns normally and
  otherwise up to the point where it gives up;
* the callback of a call is called for nothing that was not sent under the call's own id. -/
theorem streams_intact (S : Sodium) (hS : S.AeadCorrect) (hkx : S.KxAgree) (cfg : HostConfig)
    (c : ℕ) (E : Set Bytes) (run : ℕ → ServerRun) (acc : ℕ → Accept) (hs : ℕ → HandshakeResult)
    (eph : EphemeralKeyPair) (client : HandshakeResult) (rotation : RotationPolicy) (now : ℕ)
    (hpaired : Paired S eph client (run c) (hs c)) (acts : List Link.Act) (k : Link)
    (hrun : Run (Link.SteadyStep c S cfg E)
      (.start cfg run acc hs eph client rotation now) acts k)
    (hlt : k.line.side.calls.drawn.length < 2 ^ 64) : k.Intact c E := by
  have hinv := Link.inv_of_run hS hkx (Link.inv_start hpaired rotation now E) hrun hlt
  exact ⟨hinv.inbound hS, hinv.outbound hS⟩

/-! ### Streams in both directions, and a rotation -/

section

variable (S : Sodium)

instance [DecidablePred S.IsKxPair] (l : Line) : (a : Line.Act) → Decidable (a.Succeeds S l)
  | .acquire _ now eph ok => inferInstanceAs (Decidable (ok = true ∧
      (l.side.conn.rekeyDue now = true → S.IsKxPair eph ∧
        eph.publicKey ∉ l.side.conn.drawn.map EphemeralKeyPair.publicKey)))
  | .sendOwn ok => inferInstanceAs (Decidable (ok = true))
  | .side _ | .ask _ _ _ _ | .post _ _ | .openStream _ | .unsubscribeReturn _ | .storeEph
  | .setInProgress => inferInstanceAs (Decidable True)

instance : (a : Line.Act) → Decidable a.Short
  | .ask _ _ endpoint _ | .post endpoint _ | .openStream endpoint =>
    inferInstanceAs (Decidable (endpoint.length ≤ 255))
  | .side _ | .unsubscribeReturn _ | .acquire _ _ _ _ | .storeEph | .setInProgress | .sendOwn _ =>
    inferInstanceAs (Decidable True)

instance (l : Line) : Decidable (l.Up S) :=
  decidable_of_iff ((∀ unsolicited, l.side.conn.reader ≠ .exited unsolicited) ∧
      l.side.conn.reader ≠ .crashed ∧ ∀ x ∈ l.side.conn.sealed,
        headerLen l.side.v2 + (x.frame S l.side.v2).body.length < 2 ^ 32)
    ⟨fun h => ⟨h.1, h.2.1, h.2.2⟩, fun h => ⟨h.stays, h.lasts, h.carried⟩⟩

instance (c : ℕ) (k : Link) : Decidable (k.Up c S) :=
  decidable_of_iff ((k.conn c).conn.alive = true ∧ k.line.Up S ∧ ∀ f ∈ (k.conn c).out,
      headerLen (k.conn c).conn.v2 + f.body.length < 2 ^ 32)
    ⟨fun h => ⟨h.1, h.2.1, h.2.2⟩, fun h => ⟨h.host, h.client, h.back⟩⟩

end

namespace BusyLink

open RotatedSession (sodium ephemeral)

def config : HostConfig := { serviceName := [115], policy := .allowAll }

/-- The endpoint `r` receives streams, and `s` writes one. -/
def env (eph : EphemeralKeyPair) : Pass :=
  { SameRequestId.env with
    handlers := [([114], { kind := .streamReceive }), ([115], { kind := .streamSend })]
    topics := []
    eph := eph }

def tableActs : List HostTables.Act :=
  [.expose [115] { kind := .streamSend }, .expose [114] { kind := .streamReceive }]

def tables : Option HostTables := exec HostTables.step {} tableActs

theorem tables_isSome : tables.isSome = true := by decide

theorem sees (eph : EphemeralKeyPair) : HostTables.Sees (env eph) := by
  refine ⟨tableActs, tables.get tables_isSome, [], tables.get tables_isSome,
    run_of_exec (Option.some_get tables_isSome).symm, .nil, ?_, ?_⟩
  · exact (by decide :
      (env (ephemeral 0)).handlers = (tables.get tables_isSome).exposed.handlers)
  · exact (by decide : (env (ephemeral 0)).topics = (tables.get tables_isSome).topics)

def serverRun : ServerRun := { SameRequestId.serverRun with ephemeral := ephemeral 2 }

/-- The results at the client's and at the host's end. -/
def clientResult : HandshakeResult :=
  { keys := ⟨Block.fill 32 2, Block.fill 32 1⟩, peerIdentity := Block.fill 32 9, version := 2 }

def hostResult : HandshakeResult :=
  { keys := ⟨Block.fill 32 1, Block.fill 32 2⟩, peerIdentity := Block.fill 32 8, version := 2 }

theorem paired : Paired sodium (ephemeral 1) clientResult serverRun hostResult where
  isPair := by decide
  keys := by decide
  swapped := rfl
  version := rfl

/-- A connection that rotates after one unit of time. -/
def link : Link :=
  .start config (fun _ => serverRun) (fun _ => SameRequestId.accept) (fun _ => hostResult)
    (ephemeral 1) clientResult { interval := 1 } 0

/-- What happens next on the link. -/
inductive Move where
  | accept
  /-- The host handles the next frame. -/
  | serve (eph : EphemeralKeyPair)
  | chunk (data : Bytes)
  | endStream
  | client (a : Line.Act)
  | call (a : ClientCalls.Act)
  /-- The reader of the client reads the next frame. -/
  | read

/-- The next frame of a stream. -/
def front (s : Bytes) : RawFrame := (readFrame true s).elim pingFrame Prod.fst

namespace Move

def act (k : Link) : Move → Link.Act
  | accept => .host (.hub (.accept 0))
  | serve eph => .host (.hub (.frame 0 (front k.line.toHost) (env eph)))
  | chunk data => .host (.chunk 0 data true)
  | endStream => .host (.endStream 0 true)
  | client a => .client a
  | call a => .client (.side (.call a))
  | read => .client (.side (.read (front k.line.side.input)))

/-- The endpoint `r` takes streams from the peer. -/
def admitted (st : LoopState) (eph : EphemeralKeyPair) : Bool :=
  match authorize config.serviceName (env eph).view st.peer [114] {} st.authzCache with
  | .ok (allowed, _) => allowed
  | .error _ => false

def checked (k : Link) : Move → Bool
  | serve eph => admitted (k.conn 0) eph && decide (sodium.IsKxPair eph)
  | client a => decide (a.Succeeds sodium k.line) && decide a.Short
  | _ => true

end Move

def play (k : Link) (m : Move) : Option Link :=
  if m.checked k = true then
    (k.step 0 sodium config (m.act k)).filter fun k' => decide (k'.Up 0 sodium)
  else none

theorem admits {k : Link} {f : RawFrame} {eph : EphemeralKeyPair}
    (h : Move.admitted (k.conn 0) eph = true) :
    ∀ e ∈ ({[114]} : Set Bytes), Admits sodium config (env eph) (k.conn 0) f e := by
  rintro e rfl opened rx chunk - - -
  rw [Move.admitted] at h
  cases hauth : authorize config.serviceName (env eph).view (k.conn 0).peer [114] {}
      (k.conn 0).authzCache with
  | error e =>
    rw [hauth] at h
    cases h
  | ok p =>
    rw [hauth] at h
    obtain ⟨allowed, cache⟩ := p
    have hallowed : allowed = true := h
    subst hallowed
    exact ⟨{ kind := .streamReceive }, cache, rfl, rfl, hauth⟩

/-- A move that is checked is a step of a connection that stays up. -/
theorem steady_of_play {k k' : Link} {m : Move} (h : play k m = some k') :
    Link.SteadyStep 0 sodium config {[114]} k (m.act k) k' := by
  obtain ⟨hchecked, h⟩ := Option.ite_none_right_eq_some.mp h
  obtain ⟨hstep, hup⟩ := Option.filter_eq_some_iff.mp h
  refine ⟨hstep, ?_, of_decide_eq_true hup⟩
  cases m with
  | accept => exact ⟨trivial, fun f env heq => by cases heq⟩
  | serve eph =>
    obtain ⟨hadmitted, hpair⟩ := Bool.and_eq_true_iff.mp hchecked
    refine ⟨fun _ => ⟨rfl, fun _ => rfl, sees eph⟩, fun f env' heq => ?_⟩
    cases heq
    exact ⟨fun _ => of_decide_eq_true hpair, admits hadmitted⟩
  | chunk _ | endStream => exact ⟨fun _ => rfl, fun f env heq => by cases heq⟩
  | client a =>
    obtain ⟨hsucceeds, hshort⟩ := Bool.and_eq_true_iff.mp hchecked
    exact ⟨of_decide_eq_true hsucceeds, of_decide_eq_true hshort⟩
  | call _ | read => exact ⟨trivial, trivial⟩

theorem run_of_play {k k' : Link} {moves : List Move} (h : exec play k moves = some k') :
    ∃ acts, Run (Link.SteadyStep 0 sodium config {[114]}) k acts k' := by
  have hrun := run_of_exec h
  clear h
  induction hrun with
  | nil => exact ⟨[], .nil⟩
  | snoc hfirst hlast ih =>
    obtain ⟨acts, hrun⟩ := ih
    exact ⟨_, hrun.snoc (steady_of_play hlast)⟩

/-- The client writes a stream and asks for one, and the keys are rotated in the middle of both. -/
def moves : List Move :=
  [.accept, .client (.openStream [114]), .client (.acquire (.write 0 [1]) 0 (ephemeral 3) true),
    .client (.sendOwn true), .client (.ask 0 .getStream [115] [7]), .call (.draw 0),
    .call (.register 0), .client (.acquire (.call 0) 5 (ephemeral 3) true), .client .storeEph,
    .client .setInProgress, .client (.sendOwn true), .serve (ephemeral 4), .serve (ephemeral 4),
    .serve (ephemeral 4), .chunk [5], .client (.side .loop), .read, .client (.side .swapEph),
    .client (.side (.switchKeys 5)), .client (.side .loop), .read, .call .invoke,
    .call .callbackReturns, .client (.acquire (.finish 0) 5 (ephemeral 5) true),
    .client (.sendOwn true), .endStream, .serve (ephemeral 4), .client (.side .loop), .read,
    .call .invoke]

def linkEnd : Option Link := exec play link moves

theorem linkEnd_isSome : linkEnd.isSome = true := by decide +kernel

end BusyLink

open BusyLink RotatedSession in
/-- In this run the stream of the client and that of the handler have arrived, across a rotation. -/
theorem streams_intact_rotated :
    ((linkEnd.get linkEnd_isSome).conn 0).received [114] = boundedStream [[1]] true ∧
    (linkEnd.get linkEnd_isSome).line.side.calls.invoked 0 = boundedStream [[5]] true ∧
    (linkEnd.get linkEnd_isSome).line.side.conn.tx.epoch = 1 ∧
    (linkEnd.get linkEnd_isSome).Intact 0 {[114]} := by
  obtain ⟨acts, hrun⟩ := run_of_play (Option.some_get linkEnd_isSome).symm
  refine ⟨by decide +kernel, by decide +kernel, by decide +kernel, ?_⟩
  exact streams_intact sodium (Sodium.symbolic_aeadCorrect []) (Sodium.symbolic_kxAgree []) config 0
    {[114]} (fun _ => serverRun) (fun _ => SameRequestId.accept) (fun _ => hostResult) (ephemeral 1)
    clientResult { interval := 1 } 0 paired acts _ hrun (by decide +kernel)

/-! ### More calls than ids -/

namespace CrossedStreams

open BusyLink RotatedSession

/-- A `get_stream` times out while a chunk for it is in flight, and another one looks the connection
up. -/
def opening : List Move :=
  [.accept, .client (.ask 0 .getStream [115] [7]), .call (.draw 0), .call (.register 0),
    .client (.acquire (.call 0) 0 (ephemeral 3) true), .client (.sendOwn true),
    .serve (ephemeral 4), .chunk [5], .call (.streamBegin 0), .call (.streamWake 0 true),
    .client (.ask 1 .getStream [116] [])]

def opened : Option Link := exec play link opening

theorem opened_isSome : opened.isSome = true := by decide +kernel

/-- The link at the time of the second lookup. -/
def crossing : Link := opened.get opened_isSome

/-- The chunk that is in flight. -/
def chunk : StreamChunkPayload := { requestId := 1, data := [5] }

/-- The reader has read it. -/
def heardSide : ClientSide :=
  { crossing.line.side with
    conn := crossing.line.side.conn.receive sodium (front crossing.line.side.input)
    input := [] }

/-- Output streams were opened, and the calls have gone on. -/
def later (side : ClientSide) (calls : ClientCalls) (outputs : List OutputStream) : Link :=
  { crossing with line := { crossing.line with
      outputs := outputs
      side := { side with calls := calls } } }

theorem up_later {side : ClientSide} (h : Line.Up sodium { crossing.line with side := side })
    (calls : ClientCalls) (outputs : List OutputStream) :
    (later side calls outputs).Up 0 sodium := by
  have hup : crossing.Up 0 sodium := by decide +kernel
  exact ⟨hup.host, ⟨h.stays, h.lasts, h.carried⟩, hup.back⟩

theorem up_before : Line.Up sodium { crossing.line with side := crossing.line.side } := by
  decide +kernel

theorem up_after : Line.Up sodium { crossing.line with side := heardSide } := by decide +kernel

/-- The calls after `n` ids were drawn. -/
def counted (n : ℕ) (drawn : List UInt64) : ClientCalls :=
  { crossing.line.side.calls with
    nextRequestId := crossing.line.side.calls.nextRequestId + UInt64.ofNat n
    drawn := drawn }

/-- Output streams draw ids, one after the other. -/
theorem run_openStreams (n : ℕ) :
    ∃ outputs drawn, Run (Link.SteadyStep 0 sodium config {[114]}) crossing
      (List.replicate n (.client (.openStream [])))
      (later crossing.line.side (counted n drawn) outputs) := by
  induction n with
  | zero =>
    refine ⟨crossing.line.outputs, crossing.line.side.calls.drawn, ?_⟩
    have hzero : crossing.line.side.calls.nextRequestId + UInt64.ofNat 0
        = crossing.line.side.calls.nextRequestId := UInt64.add_zero _
    rw [counted, hzero]
    exact .nil
  | succ n ih =>
    obtain ⟨outputs, drawn, hrun⟩ := ih
    have hsucc : crossing.line.side.calls.nextRequestId + UInt64.ofNat (n + 1)
        = crossing.line.side.calls.nextRequestId + UInt64.ofNat n + 1 := by
      rw [UInt64.ofNat_add, ← UInt64.add_assoc]
      rfl
    rw [List.replicate_succ']
    simp only [counted, hsucc]
    exact ⟨_, _, hrun.snoc ⟨rfl, ⟨trivial, Nat.zero_le 255⟩, up_later up_before _ _⟩⟩

/-- A step of the calls alone. -/
theorem steady_call {side : ClientSide} (hup : Line.Up sodium { crossing.line with side := side })
    {calls calls' : ClientCalls} (outputs : List OutputStream) {a : ClientCalls.Act}
    (hstep : calls.Step a calls') (hlooks : a.looks = false)
    (hsubmits : (ClientSide.Act.call a).submits = false) :
    Link.SteadyStep 0 sodium config {[114]} (later side calls outputs) (.client (.side (.call a)))
      (later side calls' outputs) := by
  refine ⟨?_, ⟨trivial, trivial⟩, up_later hup _ _⟩
  have hcalls : calls.step a = some calls' := hstep
  simp only [Link.Step, OfFun, Link.step, Line.step, hsubmits, ClientSide.step, later, hlooks,
    hcalls]
  rfl

/-- The reader reads the chunk. -/
theorem steady_read {calls : ClientCalls} (outputs : List OutputStream)
    (hreader : calls.reader = .reading) :
    Link.SteadyStep 0 sodium config {[114]} (later crossing.line.side calls outputs)
      (.client (.side (.read (front crossing.line.side.input))))
      (later heardSide (calls.readChunk chunk) outputs) := by
  refine ⟨?_, ⟨trivial, trivial⟩, up_later up_after _ _⟩
  have hrunning : crossing.line.side.conn.reader = .running := by decide +kernel
  have hread : readFrame crossing.line.side.v2 crossing.line.side.input
      = some (front crossing.line.side.input, []) := by decide +kernel
  have hheard : ClientSide.heard sodium crossing.line.side.conn (front crossing.line.side.input)
      = some (.readChunk chunk) := by decide +kernel
  have hcalls : calls.step (.readChunk chunk) = some (calls.readChunk chunk) := if_pos hreader
  simp only [Link.Step, OfFun, Link.step, Line.step, ClientSide.Act.submits, ClientSide.step, later,
    hreader, hrunning, hread, hheard, ClientSide.told, hcalls]
  rfl

/-- The reader looks for a frame. -/
theorem steady_loop {calls : ClientCalls} (outputs : List OutputStream)
    (halive : calls.alive = true) (hreader : calls.reader = .top) :
    Link.SteadyStep 0 sodium config {[114]} (later crossing.line.side calls outputs)
      (.client (.side .loop)) (later crossing.line.side (calls.withReader .reading) outputs) := by
  refine ⟨?_, ⟨trivial, trivial⟩, up_later up_before _ _⟩
  have hrunning : crossing.line.side.conn.reader = .running := by decide +kernel
  have hloop : ClientSide.step sodium { crossing.line.side with calls := calls } .loop
      = some { crossing.line.side with
          calls := calls.withReader (if calls.alive = true then .reading else .left) } :=
    ClientSide.step_loop hrunning hreader
  rw [if_pos halive] at hloop
  simp only [Link.Step, OfFun, Link.step, Line.step, ClientSide.Act.submits, later]
  rw [hloop]
  rfl

/-- The other call draws the same id, and the chunk reaches its callback. -/
theorem run_closing (calls : ClientCalls) (outputs : List OutputStream)
    (halive : calls.alive = true) (hreader : calls.reader = .top)
    (hcall : calls.calls 1 = .found .getStream) (hnext : calls.nextRequestId = 1)
    (hinvoked : calls.invoked 1 = []) :
    ∃ acts calls', Run (Link.SteadyStep 0 sodium config {[114]})
      (later crossing.line.side calls outputs) acts (later heardSide calls' outputs) ∧
      (calls'.calls 1).asks = some (.getStream, 1) ∧ calls'.invoked 1 = [([5], false)] := by
  let drew : ClientCalls := calls.draw.move 1 (.drawn .getStream 1)
  let registered : ClientCalls := (drew.register 1 1 .getStream).move 1 (.registered .getStream 1)
  let reads : ClientCalls := registered.withReader .reading
  let sink : StreamSink := { callback := 1 }
  have hdrew : calls.Step (.draw 1) drew := by
    simp only [ClientCalls.Step, OfFun, ClientCalls.step, hcall, hnext, drew]
  have hregistered : drew.Step (.register 1) registered := by
    simp only [ClientCalls.Step, OfFun, ClientCalls.step, drew, ClientCalls.move_calls_self]
    rfl
  -- the sink of the second call is under the id of the chunk
  have hsink : reads.streamSinks chunk.requestId = some sink := by
    change Function.update drew.streamSinks 1 (some sink) 1 = _
    exact Function.update_self _ _ _
  have htook : (reads.readChunk chunk).reader
      = .delivering (ClientCalls.chunkDelivery sink chunk) .copied [] := by
    simp only [ClientCalls.readChunk, hsink]
    rfl
  have hcalls : (reads.readChunk chunk).calls 1 = .registered .getStream 1 := by
    simp only [ClientCalls.readChunk, hsink]
    change registered.calls 1 = _
    exact ClientCalls.move_calls_self _
  have hbefore : (reads.readChunk chunk).invoked 1 = [] := by
    simp only [ClientCalls.readChunk, hsink]
    exact hinvoked
  have hinvoke : (reads.readChunk chunk).Step .invoke { reads.readChunk chunk with
      invoked := Function.update (reads.readChunk chunk).invoked 1
        ((reads.readChunk chunk).invoked 1 ++ [([5], false)])
      reader := .delivering (ClientCalls.chunkDelivery sink chunk) .running [] } := by
    simp only [ClientCalls.Step, OfFun, ClientCalls.step, htook]
    rfl
  refine ⟨_, _, ((((Run.nil.snoc (steady_call up_before outputs hdrew rfl rfl)).snoc
    (steady_call up_before outputs hregistered rfl rfl)).snoc
    (steady_loop outputs halive hreader)).snoc (steady_read outputs rfl)).snoc
    (steady_call up_after outputs hinvoke rfl rfl), ?_, ?_⟩
  · change ((reads.readChunk chunk).calls 1).asks = _
    rw [hcalls]
    rfl
  · change Function.update (reads.readChunk chunk).invoked 1 _ 1 = _
    rw [Function.update_self, hbefore]
    rfl

end CrossedStreams

open BusyLink CrossedStreams in
/-- When the ids start over, a chunk for a `get_stream` that has given up reaches the callback of
another one, which the host has not heard of. -/
theorem streams_cross :
    ¬ ∀ (S : Sodium), S.AeadCorrect → S.KxAgree → ∀ (cfg : HostConfig) (c : ℕ) (E : Set Bytes)
      (run : ℕ → ServerRun) (acc : ℕ → Accept) (hs : ℕ → HandshakeResult) (eph : EphemeralKeyPair)
      (client : HandshakeResult) (rotation : RotationPolicy) (now : ℕ),
      Paired S eph client (run c) (hs c) → ∀ (acts : List Link.Act) (k : Link),
      Run (Link.SteadyStep c S cfg E) (.start cfg run acc hs eph client rotation now) acts k →
      k.Intact c E := by
  intro hclaim
  obtain ⟨first, hfirst⟩ := run_of_play (Option.some_get opened_isSome).symm
  obtain ⟨outputs, drawn, hdraws⟩ := run_openStreams (2 ^ 64 - 1)
  obtain ⟨last, calls, hlast, hasks, hinvoked⟩ := run_closing (counted (2 ^ 64 - 1) drawn) outputs
    (by decide +kernel : crossing.line.side.calls.alive = true)
    (by decide +kernel : crossing.line.side.calls.reader = .top)
    (by decide +kernel : crossing.line.side.calls.calls 1 = .found .getStream)
    (by decide +kernel : crossing.line.side.calls.nextRequestId + UInt64.ofNat (2 ^ 64 - 1) = 1)
    (by decide +kernel : crossing.line.side.calls.invoked 1 = [])
  have hintact := hclaim RotatedSession.sodium (Sodium.symbolic_aeadCorrect [])
    (Sodium.symbolic_kxAgree []) config 0 {[114]} (fun _ => serverRun)
    (fun _ => SameRequestId.accept) (fun _ => hostResult) (RotatedSession.ephemeral 1) clientResult
    { interval := 1 } 0 paired _ _ ((hfirst.trans hdraws).trans hlast)
  have hnone := hintact.outbound.unheard 1 1 hasks
    (by decide +kernel : crossing.line.request 1 1 ∉ crossing.desk.requests 0)
  rw [show (later heardSide calls outputs).line.side.calls.invoked 1 = _ from hinvoked] at hnone
  cases hnone

end Epx
