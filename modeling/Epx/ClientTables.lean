import Epx.HostContents
import Epx.Lib.Transition
import Epx.PayloadRoundTrip
import Epx.Session.Client
import Mathlib.Data.List.Perm.Subperm

/-!
# The calls of a client connection

`pending` and `stream_sinks` of a client `Connection` in `src/client.cpp`, with the calls that
register in them and the part of `reader_loop` that looks things up in them. Request ids come from
one counter, and everything that a call sends or is answered is told apart by its id.

A call draws its id, registers, and then sends its request; calls of other threads may come in
between. What is sent and what is read are contents: the types and plaintexts of frames. The record
of the callbacks that were made is kept by request id.

## Main definitions

* `ClientTables`, `ClientTables.step` — the machine
* `ClientTables.Ids` — ids are used once
* `ClientTables.Calls` — the callbacks made under an id are those of its chunks

## Main results

* `ClientTables.Ids.step`, `ClientTables.Calls.step`
-/

namespace Epx

open Codec Transition

/-- What a request was made by. -/
inductive CallKind where
  | get
  | send
  | getStream
  | subscribe
  | unsubscribe
  deriving DecidableEq

/-- Where the reader thread is. -/
inductive TableReader where
  | running
  /-- The loop was left. -/
  | left
  /-- The subscriptions were told. -/
  | exited
  deriving DecidableEq

/-- The tables of a client connection, with a record of what has happened on it. -/
structure ClientTables where
  nextRequestId : UInt64 := 1
  /-- The requests that a `get` waits for. -/
  pending : UInt64 → Bool := fun _ => false
  /-- `stream_sinks`: whether a sink is that of a subscription. -/
  streamSinks : UInt64 → Option Bool := fun _ => none
  /-- `Subscription::active`. -/
  active : UInt64 → Bool := fun _ => false
  /-- Requests whose calls have not got to `seal_and_send` yet. -/
  unsent : List (CallKind × RequestPayload) := []
  reader : TableReader := .running
  drawn : List UInt64 := []
  /-- The ids of `get_stream` calls and of subscriptions. -/
  streams : List UInt64 := []
  subscribed : List UInt64 := []
  unsubscribed : List UInt64 := []
  sent : List (FrameType × Bytes) := []
  taken : List (FrameType × Bytes) := []
  callbacks : UInt64 → List (Bytes × Bool) := fun _ => []

namespace ClientTables

/-- `next_request_id.fetch_add(1)`. -/
def draw (k : ClientTables) : ClientTables :=
  { k with nextRequestId := k.nextRequestId + 1, drawn := k.drawn ++ [k.nextRequestId] }

/-- A request under the id that was just drawn. -/
def request (k : ClientTables) (kind : CallKind) (oneway : Bool) (endpoint data : Bytes) :
    CallKind × RequestPayload :=
  (kind, { requestId := k.nextRequestId, oneway := oneway, endpoint := endpoint, data := data })

/-- A call draws its id, and its request is yet to be sent. -/
def call (k : ClientTables) (kind : CallKind) (oneway : Bool) (endpoint data : Bytes) :
    ClientTables :=
  { k.draw with unsent := k.unsent ++ [k.request kind oneway endpoint data] }

/-- `stream_sinks.erase(request_id)`. -/
def eraseSink (k : ClientTables) (id : UInt64) : ClientTables :=
  { k with streamSinks := Function.update k.streamSinks id none }

/-- The callback of a sink. That of a subscription marks it when it is closed. -/
def invoke (k : ClientTables) (id : UInt64) (data : Bytes) (closed : Bool) : ClientTables :=
  { k with
    callbacks := Function.update k.callbacks id (k.callbacks id ++ [(data, closed)])
    active := if closed then Function.update k.active id false else k.active }

/-- A call whose request could not be sent takes its registration back. -/
def takeBack (k : ClientTables) (id : UInt64) : CallKind → ClientTables
  | .get => { k with pending := Function.update k.pending id false }
  | .getStream | .subscribe => k.eraseSink id
  | .send | .unsubscribe => k

/-- A STREAM_CHUNK was opened. -/
def readChunk (k : ClientTables) (plaintext : Bytes) : ClientTables :=
  match decodeStreamChunk plaintext with
  | .accept chunk =>
    match k.streamSinks chunk.requestId with
    | some subscription =>
      let k := k.invoke chunk.requestId chunk.data chunk.isLast
      if chunk.isLast && subscription then k.eraseSink chunk.requestId else k
    | none => k
  | _ => { k with reader := .left }

/-- A RESPONSE was opened. One that no `get` waits for may be the refusal of a subscription. -/
def readResponse (k : ClientTables) (plaintext : Bytes) : ClientTables :=
  match decodeResponse plaintext with
  | .accept resp =>
    if k.pending resp.requestId then k
    else
      match k.streamSinks resp.requestId with
      | some true => (k.eraseSink resp.requestId).invoke resp.requestId [] true
      | _ => k
  | _ => { k with reader := .left }

/-- The reader has opened a frame. -/
def read (k : ClientTables) (type : FrameType) (plaintext : Bytes) : ClientTables :=
  let k := { k with taken := k.taken ++ [(type, plaintext)] }
  if type = .streamChunk then k.readChunk plaintext
  else if type = .response then k.readResponse plaintext
  else if type = .error then { k with reader := .left }
  else k

/-- The reader is on its way out, and every subscription is told. -/
def closeSinks (k : ClientTables) : ClientTables :=
  { k with
    reader := .exited
    callbacks := fun id =>
      if k.streamSinks id = some true then k.callbacks id ++ [([], true)] else k.callbacks id
    active := fun id => if k.streamSinks id = some true then false else k.active id
    streamSinks := fun id => if k.streamSinks id = some true then none else k.streamSinks id }

/-- What the threads of a client can do next on a connection. -/
inductive Act where
  | get (endpoint data : Bytes)
  | send (endpoint data : Bytes)
  | getStream (endpoint data : Bytes)
  | openStream
  | subscribe (topic : Bytes)
  /-- `Subscription::unsubscribe` on an active subscription. -/
  | unsubscribe (id : UInt64) (alive : Bool)
  /-- `seal_and_send` of a request, and what its call does when that fails. -/
  | transmit (request : CallKind × RequestPayload) (ok : Bool)
  /-- A frame that is not a request is sent: a chunk of an `OutputStream`, or a REKEY. -/
  | transmitOther (type : FrameType) (plaintext : Bytes)
  /-- A `get` is over. -/
  | getDone (id : UInt64)
  /-- A `get_stream` is over. -/
  | streamDone (id : UInt64)
  /-- The reader has read a frame and opened it. -/
  | read (type : FrameType) (plaintext : Bytes)
  /-- The reader leaves its loop for another reason. -/
  | quit
  | exit

def step (k : ClientTables) : Act → Option ClientTables
  | .get endpoint data =>
    some { k.call .get false endpoint data with
      pending := Function.update k.pending k.nextRequestId true }
  | .send endpoint data => some (k.call .send true endpoint data)
  | .getStream endpoint data =>
    some { k.call .getStream false endpoint data with
      streamSinks := Function.update k.streamSinks k.nextRequestId (some false)
      streams := k.streams ++ [k.nextRequestId] }
  | .openStream => some k.draw
  | .subscribe topic =>
    some { k.call .subscribe false topic [] with
      streamSinks := Function.update k.streamSinks k.nextRequestId (some true)
      active := Function.update k.active k.nextRequestId true
      subscribed := k.subscribed ++ [k.nextRequestId] }
  | .unsubscribe id alive =>
    if k.active id then
      let k := { k.eraseSink id with
        active := Function.update k.active id false
        unsubscribed := k.unsubscribed ++ [id] }
      some (if alive then k.call .unsubscribe true kUnsubscribeEndpoint (putU64 id) else k)
    else none
  | .transmit request ok =>
    if request ∈ k.unsent then
      let k := { k with unsent := k.unsent.erase request }
      some (if ok then { k with sent := k.sent ++ [(.request, encodeRequest request.2)] }
        else k.takeBack request.2.requestId request.1)
    else none
  | .transmitOther type plaintext =>
    if type = .streamChunk ∨ type = .rekey then
      some { k with sent := k.sent ++ [(type, plaintext)] }
    else none
  | .getDone id => some { k with pending := Function.update k.pending id false }
  | .streamDone id => if id ∈ k.streams then some (k.eraseSink id) else none
  | .read type plaintext =>
    -- a longer frame is not read
    if k.reader = .running ∧ Connection.opens type = true ∧ plaintext.length ≤ kMaxFrameBytes then
      some (k.read type plaintext)
    else none
  | .quit => if k.reader = .running then some { k with reader := .left } else none
  | .exit => if k.reader = .left then some k.closeSinks else none

/-- The steps of a client on a connection. -/
def Step : ClientTables → Act → ClientTables → Prop := OfFun step

/-! ### What a step can do -/

/-- One constructor for each way a step can go. -/
inductive Effect (k : ClientTables) : Act → ClientTables → Prop
  | get {endpoint data : Bytes} :
      Effect k (.get endpoint data) { k.call .get false endpoint data with
        pending := Function.update k.pending k.nextRequestId true }
  | send {endpoint data : Bytes} :
      Effect k (.send endpoint data) (k.call .send true endpoint data)
  | getStream {endpoint data : Bytes} :
      Effect k (.getStream endpoint data) { k.call .getStream false endpoint data with
        streamSinks := Function.update k.streamSinks k.nextRequestId (some false)
        streams := k.streams ++ [k.nextRequestId] }
  | openStream : Effect k .openStream k.draw
  | subscribe {topic : Bytes} :
      Effect k (.subscribe topic) { k.call .subscribe false topic [] with
        streamSinks := Function.update k.streamSinks k.nextRequestId (some true)
        active := Function.update k.active k.nextRequestId true
        subscribed := k.subscribed ++ [k.nextRequestId] }
  | unsubscribe {id : UInt64} :
      Effect k (.unsubscribe id false) { k.eraseSink id with
        active := Function.update k.active id false
        unsubscribed := k.unsubscribed ++ [id] }
  | unsubscribeAlive {id : UInt64} :
      Effect k (.unsubscribe id true) (ClientTables.call { k.eraseSink id with
        active := Function.update k.active id false
        unsubscribed := k.unsubscribed ++ [id] } .unsubscribe true kUnsubscribeEndpoint (putU64 id))
  | transmitted {request : CallKind × RequestPayload} : request ∈ k.unsent →
      Effect k (.transmit request true) { k with
        unsent := k.unsent.erase request
        sent := k.sent ++ [(.request, encodeRequest request.2)] }
  | notTransmitted {request : CallKind × RequestPayload} : request ∈ k.unsent →
      Effect k (.transmit request false)
        (takeBack { k with unsent := k.unsent.erase request } request.2.requestId request.1)
  | transmitOther {type : FrameType} {plaintext : Bytes} : type = .streamChunk ∨ type = .rekey →
      Effect k (.transmitOther type plaintext) { k with sent := k.sent ++ [(type, plaintext)] }
  | getDone {id : UInt64} :
      Effect k (.getDone id) { k with pending := Function.update k.pending id false }
  | streamDone {id : UInt64} : id ∈ k.streams → Effect k (.streamDone id) (k.eraseSink id)
  | read {type : FrameType} {plaintext : Bytes} : plaintext.length ≤ kMaxFrameBytes →
      Effect k (.read type plaintext) (k.read type plaintext)
  | quit : Effect k .quit { k with reader := .left }
  | exit : Effect k .exit k.closeSinks

theorem effect_of_step {k k' : ClientTables} {a : Act} (h : k.Step a k') : Effect k a k' := by
  change k.step a = some k' at h
  cases a with
  | get _ _ =>
    cases h
    exact .get
  | send _ _ =>
    cases h
    exact .send
  | getStream _ _ =>
    cases h
    exact .getStream
  | openStream =>
    cases h
    exact .openStream
  | subscribe _ =>
    cases h
    exact .subscribe
  | unsubscribe id alive =>
    obtain ⟨-, heq⟩ := Option.ite_none_right_eq_some.mp h
    cases heq
    cases alive with
    | false => exact .unsubscribe
    | true => exact .unsubscribeAlive
  | transmit request ok =>
    obtain ⟨hin, heq⟩ := Option.ite_none_right_eq_some.mp h
    cases heq
    cases ok with
    | false => exact .notTransmitted hin
    | true => exact .transmitted hin
  | transmitOther _ _ =>
    obtain ⟨htype, heq⟩ := Option.ite_none_right_eq_some.mp h
    cases heq
    exact .transmitOther htype
  | getDone _ =>
    cases h
    exact .getDone
  | streamDone _ =>
    obtain ⟨hin, heq⟩ := Option.ite_none_right_eq_some.mp h
    cases heq
    exact .streamDone hin
  | read _ _ =>
    obtain ⟨hguard, heq⟩ := Option.ite_none_right_eq_some.mp h
    cases heq
    exact .read hguard.2.2
  | quit =>
    obtain ⟨-, heq⟩ := Option.ite_none_right_eq_some.mp h
    cases heq
    exact .quit
  | exit =>
    obtain ⟨-, heq⟩ := Option.ite_none_right_eq_some.mp h
    cases heq
    exact .exit

/-! ### The chunks that were read -/

/-- The chunk in what was read. -/
def chunkOf (x : FrameType × Bytes) : Option StreamChunkPayload :=
  if x.1 = .streamChunk then
    match decodeStreamChunk x.2 with
    | .accept chunk => some chunk
    | _ => none
  else none

/-- The chunks under a request id. -/
def chunksFor (id : UInt64) (contents : List (FrameType × Bytes)) : List StreamChunkPayload :=
  (contents.filterMap chunkOf).filter fun c => c.requestId = id

/-- What a callback is given of a chunk. -/
def callback (c : StreamChunkPayload) : Bytes × Bool := (c.data, c.isLast)

theorem chunksFor_append (id : UInt64) (xs ys : List (FrameType × Bytes)) :
    chunksFor id (xs ++ ys) = chunksFor id xs ++ chunksFor id ys := by
  rw [chunksFor, List.filterMap_append, List.filter_append]
  rfl

theorem chunksFor_of_chunkOf {id : UInt64} {x : FrameType × Bytes} {c : StreamChunkPayload}
    (h : chunkOf x = some c) : chunksFor id [x] = if c.requestId = id then [c] else [] := by
  rw [chunksFor, List.filterMap_cons_some h, List.filterMap_nil, List.filter_singleton]
  by_cases hid : c.requestId = id <;> simp [hid]

theorem chunksFor_of_none {id : UInt64} {x : FrameType × Bytes} (h : chunkOf x = none) :
    chunksFor id [x] = [] := by
  rw [chunksFor, List.filterMap_cons_none h]
  rfl

/-! ### The invariant -/

/-- The ids of the requests that were made. -/
def requests (k : ClientTables) : List UInt64 :=
  requestIds k.sent ++ k.unsent.map fun r => r.2.requestId

/-- The last callback said that the subscription is closed. -/
def Closed (k : ClientTables) (id : UInt64) : Prop :=
  ∃ calls data, k.callbacks id = calls ++ [(data, true)]

/-- Ids are drawn from a counter, and each is used once. -/
structure Ids (k : ClientTables) : Prop where
  next : k.nextRequestId = UInt64.ofNat (k.drawn.length + 1)
  drawn : k.drawn = (List.range k.drawn.length).map fun i => UInt64.ofNat (i + 1)
  requests : k.requests.Nodup
  requests_drawn : ∀ id ∈ k.requests, id ∈ k.drawn
  sinks : ∀ id b, k.streamSinks id = some b → id ∈ k.drawn ∧ (b = false → id ∉ k.subscribed)
  subscribed : ∀ id ∈ k.subscribed, id ∈ k.drawn
  streams : ∀ id ∈ k.streams, id ∈ k.drawn ∧ id ∉ k.subscribed
  callbacks : ∀ id, k.callbacks id ≠ [] → id ∈ k.drawn
  /-- A subscription is registered, unless it was unsubscribed, was closed, or could not be made. -/
  finished : ∀ id ∈ k.subscribed, k.streamSinks id = some true ∨ id ∈ k.unsubscribed ∨ k.Closed id ∨
    id ∉ k.requests

/-- The callbacks of a sink are those of the chunks that were read, in their order; those of a
subscription that was closed otherwise have the closing one at the end. -/
structure Calls (k : ClientTables) : Prop where
  registered : ∀ id b, k.streamSinks id = some b →
    k.callbacks id = (chunksFor id k.taken).map callback
  order : ∀ id, ∃ done, done <+: chunksFor id k.taken ∧ (k.callbacks id = done.map callback ∨
    k.callbacks id = done.map callback ++ [([], true)] ∧ k.streamSinks id = none)

variable {k k' : ClientTables}

theorem ids_start : Ids {} where
  next := rfl
  drawn := rfl
  requests := List.nodup_nil
  requests_drawn _ h := absurd h List.not_mem_nil
  sinks _ _ h := by cases h
  subscribed _ h := absurd h List.not_mem_nil
  streams _ h := absurd h List.not_mem_nil
  callbacks _ h := absurd rfl h
  finished _ h := absurd h List.not_mem_nil

theorem calls_start : Calls {} where
  registered _ _ h := by cases h
  order _ := ⟨[], List.nil_prefix, Or.inl rfl⟩

/-- The id that is drawn next is a new one, within `2 ^ 64` draws. -/
theorem Ids.fresh (h : k.Ids) (hlt : k.drawn.length + 1 < 2 ^ 64) : k.nextRequestId ∉ k.drawn := by
  rw [h.drawn, List.mem_map]
  rintro ⟨i, hi, heq⟩
  rw [h.next, ← UInt64.toNat_inj, UInt64.toNat_ofNat', UInt64.toNat_ofNat'] at heq
  rw [List.mem_range] at hi
  omega

/-- Nothing happens to what is recorded. -/
theorem Ids.congr (h : k.Ids) (hnext : k'.nextRequestId = k.nextRequestId)
    (hdrawn : k'.drawn = k.drawn) (hunsent : k'.unsent = k.unsent) (hsent : k'.sent = k.sent)
    (hsinks : k'.streamSinks = k.streamSinks) (hstreams : k'.streams = k.streams)
    (hsubscribed : k'.subscribed = k.subscribed) (hunsubscribed : k'.unsubscribed = k.unsubscribed)
    (hcallbacks : k'.callbacks = k.callbacks) : k'.Ids := by
  cases k
  cases k'
  simp only at *
  subst hnext hdrawn hunsent hsent hsinks hstreams hsubscribed hunsubscribed hcallbacks
  exact ⟨h.next, h.drawn, h.requests, h.requests_drawn, h.sinks, h.subscribed, h.streams,
    h.callbacks, h.finished⟩

/-- An id that was drawn, and of which nothing has been made yet. -/
structure Unused (k : ClientTables) (id : UInt64) : Prop where
  drawn : id ∈ k.drawn
  requests : id ∉ k.requests
  subscribed : id ∉ k.subscribed
  streams : id ∉ k.streams

theorem Ids.draw (h : k.Ids) (hlt : k.drawn.length + 1 < 2 ^ 64) :
    k.draw.Ids ∧ k.draw.Unused k.nextRequestId := by
  have hfresh := h.fresh hlt
  have hmono : ∀ {id}, id ∈ k.drawn → id ∈ k.draw.drawn := List.mem_append_left _
  refine ⟨⟨?_, ?_, h.requests, fun id hid => hmono (h.requests_drawn id hid),
    fun id b hb => ⟨hmono (h.sinks id b hb).1, (h.sinks id b hb).2⟩,
    fun id hid => hmono (h.subscribed id hid),
    fun id hid => ⟨hmono (h.streams id hid).1, (h.streams id hid).2⟩,
    fun id hid => hmono (h.callbacks id hid), h.finished⟩, ?_⟩
  · change k.nextRequestId + 1 = UInt64.ofNat ((k.drawn ++ [k.nextRequestId]).length + 1)
    rw [h.next, List.length_append, List.length_singleton]
    exact (UInt64.ofNat_add (k.drawn.length + 1) 1).symm
  · change k.drawn ++ [k.nextRequestId] = _
    rw [show k.draw.drawn.length = k.drawn.length + 1 from List.length_append, List.range_succ,
      List.map_append, List.map_singleton, ← h.drawn, h.next]
  · exact ⟨List.mem_append_right _ (List.mem_singleton_self _),
      fun hin => hfresh (h.requests_drawn _ hin), fun hin => hfresh (h.subscribed _ hin),
      fun hin => hfresh (h.streams _ hin).1⟩

/-- A request is made under an unused id. -/
theorem Ids.request (h : k.Ids) {r : CallKind × RequestPayload} (hid : k.Unused r.2.requestId) :
    Ids { k with unsent := k.unsent ++ [r] } := by
  have hrequests : ClientTables.requests { k with unsent := k.unsent ++ [r] }
      = k.requests ++ [r.2.requestId] := by
    rw [ClientTables.requests, ClientTables.requests, List.map_append, List.append_assoc]
    rfl
  refine ⟨h.next, h.drawn, ?_, ?_, h.sinks, h.subscribed, h.streams, h.callbacks, ?_⟩
  · rw [hrequests]
    refine List.nodup_append.mpr ⟨h.requests, List.pairwise_singleton _ _, ?_⟩
    rintro a ha b hb rfl
    exact hid.requests (List.mem_singleton.mp hb ▸ ha)
  · intro id hin
    rw [hrequests] at hin
    rcases List.mem_append.mp hin with hin | hin
    · exact h.requests_drawn id hin
    · rw [List.mem_singleton.mp hin]
      exact hid.drawn
  · intro id hin
    refine (h.finished id hin).imp_right (Or.imp_right (Or.imp_right fun hno hin' => ?_))
    rw [hrequests] at hin'
    rcases List.mem_append.mp hin' with hin' | hin'
    · exact hno hin'
    · exact hid.subscribed (List.mem_singleton.mp hin' ▸ hin)

/-- The sink of a `get_stream` is registered. -/
theorem Ids.addStream (h : k.Ids) {id : UInt64} (hdrawn : id ∈ k.drawn) (hid : id ∉ k.subscribed) :
    Ids { k with
      streamSinks := Function.update k.streamSinks id (some false)
      streams := k.streams ++ [id] } := by
  refine ⟨h.next, h.drawn, h.requests, h.requests_drawn, ?_, h.subscribed, ?_, h.callbacks, ?_⟩
  · intro id' b hb
    by_cases heq : id' = id
    · rw [heq]
      exact ⟨hdrawn, fun _ => hid⟩
    · exact h.sinks id' b ((Function.update_of_ne heq _ _).symm.trans hb)
  · intro id' hin
    rcases List.mem_append.mp hin with hin | hin
    · exact h.streams id' hin
    · rw [List.mem_singleton.mp hin]
      exact ⟨hdrawn, hid⟩
  · intro id' hin
    have hne : id' ≠ id := fun heq => hid (heq ▸ hin)
    refine (h.finished id' hin).imp_left fun hsink => ?_
    exact (Function.update_of_ne hne _ _).trans hsink

/-- The sink of a subscription is registered. -/
theorem Ids.addSubscription (h : k.Ids) {id : UInt64} (hdrawn : id ∈ k.drawn)
    (hstreams : id ∉ k.streams) :
    Ids { k with
      streamSinks := Function.update k.streamSinks id (some true)
      subscribed := k.subscribed ++ [id] } := by
  have hold : ∀ {id'}, id' ≠ id → id' ∈ k.subscribed ++ [id] → id' ∈ k.subscribed := by
    intro id' hne hin
    exact (List.mem_append.mp hin).resolve_right fun hin' => hne (List.mem_singleton.mp hin')
  refine ⟨h.next, h.drawn, h.requests, h.requests_drawn, ?_, ?_, ?_, h.callbacks, ?_⟩
  · intro id' b hb
    by_cases heq : id' = id
    · subst heq
      have hb' := (Function.update_self id' (some true) k.streamSinks).symm.trans hb
      cases hb'
      exact ⟨hdrawn, fun hfalse => (by cases hfalse)⟩
    · obtain ⟨hin, hfalse⟩ := h.sinks id' b ((Function.update_of_ne heq _ _).symm.trans hb)
      exact ⟨hin, fun hb' hin' => hfalse hb' (hold heq hin')⟩
  · intro id' hin
    by_cases heq : id' = id
    · rw [heq]
      exact hdrawn
    · exact h.subscribed id' (hold heq hin)
  · intro id' hin
    have hne : id' ≠ id := fun heq => hstreams (heq ▸ hin)
    exact ⟨(h.streams id' hin).1, fun hin' => (h.streams id' hin).2 (hold hne hin')⟩
  · intro id' hin
    by_cases heq : id' = id
    · rw [heq]
      exact Or.inl (Function.update_self _ _ _)
    · refine (h.finished id' (hold heq hin)).imp_left fun hsink => ?_
      exact (Function.update_of_ne heq _ _).trans hsink

/-- A call draws its id and makes its request. -/
theorem Ids.call (h : k.Ids) (hlt : k.drawn.length + 1 < 2 ^ 64) (kind : CallKind)
    (oneway : Bool) (endpoint data : Bytes) :
    (k.call kind oneway endpoint data).Ids ∧ k.draw.Unused k.nextRequestId := by
  obtain ⟨hids, hunused⟩ := h.draw hlt
  exact ⟨hids.request hunused, hunused⟩

@[simp] theorem eraseSink_self (k : ClientTables) (id : UInt64) :
    (k.eraseSink id).streamSinks id = none := Function.update_self _ _ _

theorem eraseSink_of_ne {id id' : UInt64} (hne : id' ≠ id) :
    (k.eraseSink id).streamSinks id' = k.streamSinks id' := Function.update_of_ne hne _ _

/-- What was registered after a sink was erased was registered before. -/
theorem sink_of_eraseSink {id id' : UInt64} {b : Bool}
    (h : (k.eraseSink id).streamSinks id' = some b) : id' ≠ id ∧ k.streamSinks id' = some b := by
  by_cases hid : id' = id
  · rw [hid, eraseSink_self] at h
    cases h
  · rw [eraseSink_of_ne hid] at h
    exact ⟨hid, h⟩

/-- A sink is erased, for a reason. -/
theorem Ids.eraseSink (h : k.Ids) {id : UInt64}
    (hover : id ∈ k.subscribed → id ∈ k.unsubscribed ∨ k.Closed id ∨ id ∉ k.requests) :
    (k.eraseSink id).Ids := by
  refine ⟨h.next, h.drawn, h.requests, h.requests_drawn,
    fun id' b hb => h.sinks id' b (sink_of_eraseSink hb).2, h.subscribed, h.streams, h.callbacks,
    fun id' hin => ?_⟩
  by_cases hid : id' = id
  · subst hid
    exact Or.inr (hover hin)
  · rw [eraseSink_of_ne hid]
    exact h.finished id' hin

/-- The callback of a sink is called. -/
theorem Ids.invoke (h : k.Ids) {id : UInt64} {b : Bool} (hsink : k.streamSinks id = some b)
    (data : Bytes) (closed : Bool) : (k.invoke id data closed).Ids := by
  have hother : ∀ {id'}, id' ≠ id → (k.invoke id data closed).callbacks id' = k.callbacks id' :=
    fun hne => Function.update_of_ne hne _ _
  refine ⟨h.next, h.drawn, h.requests, h.requests_drawn, h.sinks, h.subscribed, h.streams,
    fun id' hne => ?_, fun id' hin => ?_⟩
  · by_cases hid : id' = id
    · subst hid
      exact (h.sinks id' b hsink).1
    · rw [hother hid] at hne
      exact h.callbacks id' hne
  · by_cases hid : id' = id
    · subst hid
      cases b with
      | false => exact absurd hin ((h.sinks id' false hsink).2 rfl)
      | true => exact Or.inl hsink
    · rw [Closed]
      rw [hother hid]
      exact h.finished id' hin

theorem requestIdOf_encodeRequest (r : RequestPayload) :
    (requestIdOf (.request, encodeRequest r)).toList = [r.requestId] ∨
      (requestIdOf (.request, encodeRequest r)).toList = [] := by
  rw [requestIdOf]
  rw [if_pos rfl]
  cases hdec : decodeRequest (encodeRequest r) with
  | accept r' =>
    have hid := (decodeRequest_encodeRequest.mp hdec).1
    exact Or.inl (by rw [Option.toList_some, hid])
  | oob | reject => exact Or.inr rfl

theorem requestIds_append (xs : List (FrameType × Bytes)) (x : FrameType × Bytes) :
    requestIds (xs ++ [x]) = requestIds xs ++ (requestIdOf x).toList := by
  rw [requestIds, List.filterMap_append, List.filterMap_cons, List.filterMap_nil]
  cases requestIdOf x <;> rfl

/-- Fewer requests are left. -/
theorem Ids.of_requests (h : k.Ids) {unsent : List (CallKind × RequestPayload)}
    {sent : List (FrameType × Bytes)}
    (hsub : (ClientTables.requests { k with unsent := unsent, sent := sent }).Subperm k.requests) :
    Ids { k with unsent := unsent, sent := sent } := by
  refine ⟨h.next, h.drawn, ?_, fun id hid => h.requests_drawn id (hsub.subset hid), h.sinks,
    h.subscribed, h.streams, h.callbacks, fun id hid => ?_⟩
  · obtain ⟨l, hperm, hl⟩ := hsub
    exact hperm.nodup_iff.mp (hl.nodup h.requests)
  · exact (h.finished id hid).imp_right (Or.imp_right (Or.imp_right fun hno hin =>
      hno (hsub.subset hin)))

theorem perm_erase {request : CallKind × RequestPayload} (hin : request ∈ k.unsent) :
    k.requests.Perm (requestIds k.sent ++ request.2.requestId ::
      (k.unsent.erase request).map fun r => r.2.requestId) :=
  List.Perm.append_left _ ((List.perm_cons_erase hin).map fun r => r.2.requestId)

theorem Ids.transmit (h : k.Ids) {request : CallKind × RequestPayload} (hin : request ∈ k.unsent) :
    Ids { k with
      unsent := k.unsent.erase request
      sent := k.sent ++ [(.request, encodeRequest request.2)] } := by
  refine h.of_requests (List.Subperm.trans ?_ (perm_erase hin).symm.subperm)
  rw [ClientTables.requests]
  simp only
  rw [requestIds_append, List.append_assoc]
  refine (List.subperm_append_left _).mpr ?_
  rcases requestIdOf_encodeRequest request.2 with hid | hid
  · rw [hid]
    exact List.Subperm.refl _
  · rw [hid]
    exact (List.sublist_cons_self _ _).subperm

/-- A request could not be sent: its id is not among those of requests any more. -/
theorem Ids.drop (h : k.Ids) {request : CallKind × RequestPayload} (hin : request ∈ k.unsent) :
    Ids { k with unsent := k.unsent.erase request } ∧
      request.2.requestId ∉ ClientTables.requests { k with unsent := k.unsent.erase request } := by
  have hperm := perm_erase hin
  constructor
  · refine h.of_requests (List.Subperm.trans ?_ hperm.symm.subperm)
    exact (List.subperm_append_left _).mpr (List.sublist_cons_self _ _).subperm
  · have hnodup := (hperm.trans List.perm_middle).nodup_iff.mp h.requests
    exact (List.nodup_cons.mp hnodup).1

theorem Ids.takeBack (h : k.Ids) {id : UInt64} (hid : id ∉ k.requests) (kind : CallKind) :
    (k.takeBack id kind).Ids := by
  cases kind with
  | get => exact h.congr rfl rfl rfl rfl rfl rfl rfl rfl rfl
  | getStream | subscribe => exact h.eraseSink fun _ => Or.inr (Or.inr hid)
  | send | unsubscribe => exact h

theorem Ids.readChunk (h : k.Ids) (plaintext : Bytes) : (k.readChunk plaintext).Ids := by
  rw [ClientTables.readChunk]
  split
  · next chunk _ =>
    split
    · next subscription hsink =>
      have hcalled := h.invoke hsink chunk.data chunk.isLast
      simp only
      split
      · next hlast =>
        refine hcalled.eraseSink fun _ => Or.inr (Or.inl ?_)
        refine ⟨k.callbacks chunk.requestId, chunk.data, ?_⟩
        rw [← (Bool.and_eq_true_iff.mp hlast).1]
        exact Function.update_self _ _ _
      · exact hcalled
    · exact h
  · exact h.congr rfl rfl rfl rfl rfl rfl rfl rfl rfl

theorem Ids.readResponse (h : k.Ids) (plaintext : Bytes) : (k.readResponse plaintext).Ids := by
  rw [ClientTables.readResponse]
  split
  · next resp _ =>
    split
    · exact h
    · split
      · next hsink =>
        have hcalled := h.invoke hsink [] true
        refine hcalled.eraseSink fun _ => Or.inr (Or.inl ?_)
        exact ⟨k.callbacks resp.requestId, [], Function.update_self _ _ _⟩
      · exact h
  · exact h.congr rfl rfl rfl rfl rfl rfl rfl rfl rfl

theorem Ids.closeSinks (h : k.Ids) : k.closeSinks.Ids := by
  refine ⟨h.next, h.drawn, h.requests, h.requests_drawn, fun id b hb => ?_, h.subscribed, h.streams,
    fun id hne => ?_, fun id hin => ?_⟩
  · simp only [ClientTables.closeSinks] at hb
    split at hb
    · cases hb
    · exact h.sinks id b hb
  · simp only [ClientTables.closeSinks] at hne
    split at hne
    · next hsink => exact (h.sinks id true hsink).1
    · exact h.callbacks id hne
  · rw [Closed]
    simp only [ClientTables.closeSinks]
    split
    · exact Or.inr (Or.inr (Or.inl ⟨k.callbacks id, [], rfl⟩))
    · next hsink =>
      refine (h.finished id hin).imp_left fun hsink' => absurd hsink' hsink

theorem Ids.unsubscribe (h : k.Ids) (id : UInt64) : Ids { k.eraseSink id with
    active := Function.update k.active id false
    unsubscribed := k.unsubscribed ++ [id] } := by
  have hmarked : Ids { k with unsubscribed := k.unsubscribed ++ [id] } :=
    ⟨h.next, h.drawn, h.requests, h.requests_drawn, h.sinks, h.subscribed, h.streams, h.callbacks,
      fun id' hin => (h.finished id' hin).imp_right (Or.imp_left (List.mem_append_left _))⟩
  have herased :
    (ClientTables.eraseSink { k with unsubscribed := k.unsubscribed ++ [id] } id).Ids :=
    hmarked.eraseSink fun _ => Or.inl (by simp)
  exact herased.congr rfl rfl rfl rfl rfl rfl rfl rfl rfl

theorem Ids.read (h : k.Ids) (type : FrameType) (plaintext : Bytes) :
    (k.read type plaintext).Ids := by
  have htaken : Ids { k with taken := k.taken ++ [(type, plaintext)] } :=
    h.congr rfl rfl rfl rfl rfl rfl rfl rfl rfl
  rw [ClientTables.read]
  simp only
  split
  · exact htaken.readChunk plaintext
  split
  · exact htaken.readResponse plaintext
  split
  · exact htaken.congr rfl rfl rfl rfl rfl rfl rfl rfl rfl
  · exact htaken

/-- **Every step keeps the ids in order**, within `2 ^ 64` draws. -/
theorem Ids.step (h : k.Ids) {a : Act} (hstep : k.Step a k') (hlt : k'.drawn.length < 2 ^ 64) :
    k'.Ids := by
  have hdraw : ∀ {l : List UInt64}, (l ++ [k.nextRequestId]).length < 2 ^ 64 →
      l.length + 1 < 2 ^ 64 := by simp
  cases effect_of_step hstep with
  | @get endpoint data =>
    exact (h.call (hdraw hlt) .get false endpoint data).1.congr rfl rfl rfl rfl rfl rfl rfl rfl rfl
  | @send endpoint data => exact (h.call (hdraw hlt) .send true endpoint data).1
  | @getStream endpoint data =>
    obtain ⟨hids, hunused⟩ := h.call (hdraw hlt) .getStream false endpoint data
    exact hids.addStream hunused.drawn hunused.subscribed
  | openStream => exact (h.draw (hdraw hlt)).1
  | @subscribe topic =>
    obtain ⟨hids, hunused⟩ := h.call (hdraw hlt) .subscribe false topic []
    exact (hids.addSubscription hunused.drawn hunused.streams).congr
      rfl rfl rfl rfl rfl rfl rfl rfl rfl
  | @unsubscribe id => exact h.unsubscribe id
  | @unsubscribeAlive id => exact ((h.unsubscribe id).call (hdraw hlt) .unsubscribe true _ _).1
  | transmitted hin => exact h.transmit hin
  | @notTransmitted request hin =>
    obtain ⟨hids, hgone⟩ := h.drop hin
    exact hids.takeBack hgone request.1
  | @transmitOther type plaintext htype =>
    have hnone : requestIdOf (type, plaintext) = none := by
      rcases htype with rfl | rfl <;> rfl
    refine h.of_requests ?_
    rw [ClientTables.requests]
    simp only [requestIds_append, hnone, Option.toList_none, List.append_nil]
    exact List.Subperm.refl _
  | @streamDone id hin => exact h.eraseSink fun hsub => absurd hsub (h.streams id hin).2
  | @read type plaintext _ => exact h.read type plaintext
  | exit => exact h.closeSinks
  | getDone | quit => exact h.congr rfl rfl rfl rfl rfl rfl rfl rfl rfl

theorem Calls.congr (h : k.Calls) (hsinks : k'.streamSinks = k.streamSinks)
    (htaken : k'.taken = k.taken) (hcallbacks : k'.callbacks = k.callbacks) : k'.Calls := by
  constructor
  · rw [hsinks, htaken, hcallbacks]
    exact h.registered
  · rw [hsinks, htaken, hcallbacks]
    exact h.order

/-- A sink is registered under an id of which nothing was read. -/
theorem Calls.register (h : k.Calls) {id : UInt64} (hnone : k.callbacks id = [])
    (hunread : chunksFor id k.taken = [])
    (hsinks : ∀ id', id' ≠ id → k'.streamSinks id' = k.streamSinks id')
    (htaken : k'.taken = k.taken) (hcallbacks : k'.callbacks = k.callbacks) : k'.Calls := by
  constructor
  · intro id' b hb
    rw [htaken, hcallbacks]
    by_cases hid : id' = id
    · rw [hid, hnone, hunread]
      rfl
    · rw [hsinks id' hid] at hb
      exact h.registered id' b hb
  · intro id'
    rw [htaken, hcallbacks]
    by_cases hid : id' = id
    · refine ⟨[], List.nil_prefix, Or.inl ?_⟩
      rw [hid, hnone]
      rfl
    · rw [hsinks id' hid]
      exact h.order id'

theorem Calls.eraseSink (h : k.Calls) (id : UInt64) : (k.eraseSink id).Calls := by
  constructor
  · intro id' b hb
    exact h.registered id' b (sink_of_eraseSink hb).2
  · intro id'
    obtain ⟨done, hpre, hcalls | ⟨hcalls, hsink⟩⟩ := h.order id'
    · exact ⟨done, hpre, Or.inl hcalls⟩
    · refine ⟨done, hpre, Or.inr ⟨hcalls, ?_⟩⟩
      by_cases hid : id' = id
      · rw [hid, eraseSink_self]
      · rw [eraseSink_of_ne hid, hsink]

/-- What was read is not for a sink. -/
theorem Calls.skip (h : k.Calls) {x : FrameType × Bytes}
    (hskip : ∀ id b, k.streamSinks id = some b → chunksFor id [x] = []) :
    Calls { k with taken := k.taken ++ [x] } := by
  constructor
  · intro id b hb
    rw [chunksFor_append, hskip id b hb, List.append_nil]
    exact h.registered id b hb
  · intro id
    obtain ⟨done, hpre, hcalls⟩ := h.order id
    refine ⟨done, hpre.trans ?_, hcalls⟩
    rw [chunksFor_append]
    exact List.prefix_append _ _

/-- A chunk was read, and the callback of its sink is called. -/
theorem Calls.deliver (h : k.Calls) {x : FrameType × Bytes} {c : StreamChunkPayload} {b : Bool}
    (hx : chunkOf x = some c) (hsink : k.streamSinks c.requestId = some b) :
    (ClientTables.invoke { k with taken := k.taken ++ [x] } c.requestId c.data c.isLast).Calls := by
  have hother : ∀ {id}, id ≠ c.requestId → (ClientTables.invoke { k with taken := k.taken ++ [x] }
      c.requestId c.data c.isLast).callbacks id = k.callbacks id ∧ chunksFor id [x] = [] := by
    intro id hne
    refine ⟨Function.update_of_ne hne _ _, ?_⟩
    rw [chunksFor_of_chunkOf hx, if_neg (Ne.symm hne)]
  have hself : (ClientTables.invoke { k with taken := k.taken ++ [x] } c.requestId c.data
      c.isLast).callbacks c.requestId
      = (chunksFor c.requestId (k.taken ++ [x])).map callback := by
    rw [chunksFor_append, chunksFor_of_chunkOf hx, if_pos rfl, List.map_append,
      ← h.registered _ b hsink]
    exact Function.update_self _ _ _
  constructor
  · intro id b' hb'
    by_cases hid : id = c.requestId
    · rw [hid]
      exact hself
    · change _ = (chunksFor id (k.taken ++ [x])).map callback
      rw [(hother hid).1, chunksFor_append, (hother hid).2, List.append_nil]
      exact h.registered id b' hb'
  · intro id
    by_cases hid : id = c.requestId
    · rw [hid]
      exact ⟨_, List.prefix_refl _, Or.inl hself⟩
    · obtain ⟨done, hpre, hcalls⟩ := h.order id
      rw [← (hother hid).1] at hcalls
      refine ⟨done, hpre.trans ?_, hcalls⟩
      change _ <+: chunksFor id (k.taken ++ [x])
      rw [chunksFor_append]
      exact List.prefix_append _ _

/-- A subscription is closed without a chunk. -/
theorem Calls.close (h : k.Calls) {id : UInt64} {b : Bool} (hsink : k.streamSinks id = some b) :
    ((k.eraseSink id).invoke id [] true).Calls := by
  have hother : ∀ {id'}, id' ≠ id →
      ((k.eraseSink id).invoke id [] true).callbacks id' = k.callbacks id' :=
    fun hne => Function.update_of_ne hne _ _
  have herased := h.eraseSink id
  constructor
  · intro id' b' hb'
    obtain ⟨hne, -⟩ := sink_of_eraseSink hb'
    rw [hother hne]
    exact herased.registered id' b' hb'
  · intro id'
    by_cases hid : id' = id
    · rw [hid]
      refine ⟨_, List.prefix_refl _, Or.inr ⟨?_, eraseSink_self k id⟩⟩
      change _ = (chunksFor id k.taken).map callback ++ [([], true)]
      rw [← h.registered id b hsink]
      exact Function.update_self _ _ _
    · rw [hother hid]
      exact herased.order id'

theorem Calls.closeSinks (h : k.Calls) : k.closeSinks.Calls := by
  constructor
  · intro id b hb
    simp only [ClientTables.closeSinks] at hb ⊢
    split at hb
    · cases hb
    · next hsink =>
      rw [if_neg hsink]
      exact h.registered id b hb
  · intro id
    simp only [ClientTables.closeSinks]
    split
    · next hsink =>
      refine ⟨_, List.prefix_refl _, Or.inr ⟨?_, rfl⟩⟩
      rw [h.registered id true hsink]
    · exact h.order id

theorem Calls.readChunk (h : k.Calls) (plaintext : Bytes) :
    (ClientTables.readChunk { k with taken := k.taken ++ [(.streamChunk, plaintext)] }
      plaintext).Calls := by
  rw [ClientTables.readChunk]
  cases hdec : decodeStreamChunk plaintext with
  | accept chunk =>
    have hx : chunkOf (.streamChunk, plaintext) = some chunk := by simp [chunkOf, hdec]
    cases hsink : k.streamSinks chunk.requestId with
    | none =>
      simp only [hsink]
      refine h.skip fun id b hb => ?_
      rw [chunksFor_of_chunkOf hx, if_neg]
      rintro rfl
      rw [hsink] at hb
      cases hb
    | some subscription =>
      simp only [hsink]
      split
      · exact (h.deliver hx hsink).eraseSink _
      · exact h.deliver hx hsink
  | oob | reject =>
    have hx : chunkOf (.streamChunk, plaintext) = none := by simp [chunkOf, hdec]
    exact (h.skip fun id b _ => chunksFor_of_none hx).congr rfl rfl rfl

theorem Calls.readResponse (h : k.Calls) (plaintext : Bytes) :
    (k.readResponse plaintext).Calls := by
  rw [ClientTables.readResponse]
  split
  · split
    · exact h
    · split
      · next hsink => exact h.close hsink
      · exact h
  · exact h.congr rfl rfl rfl

theorem Calls.read (h : k.Calls) (type : FrameType) (plaintext : Bytes) :
    (k.read type plaintext).Calls := by
  rw [ClientTables.read]
  simp only
  split
  · next htype =>
    subst htype
    exact h.readChunk plaintext
  · next htype =>
    have hx : chunkOf (type, plaintext) = none := by simp [chunkOf, htype]
    have htaken : Calls { k with taken := k.taken ++ [(type, plaintext)] } :=
      h.skip fun id b _ => chunksFor_of_none hx
    split
    · exact htaken.readResponse plaintext
    · split
      · exact htaken.congr rfl rfl rfl
      · exact htaken

theorem Calls.takeBack (h : k.Calls) (id : UInt64) (kind : CallKind) :
    (k.takeBack id kind).Calls := by
  cases kind with
  | get => exact h.congr rfl rfl rfl
  | getStream | subscribe => exact h.eraseSink id
  | send | unsubscribe => exact h

/-- **Every step keeps the callbacks in order**, when nothing has been read under an id that was not
drawn. -/
theorem Calls.step (h : k.Calls) (hids : k.Ids) {a : Act} (hstep : k.Step a k')
    (hlt : k'.drawn.length < 2 ^ 64) (hunread : ∀ id, id ∉ k.drawn → chunksFor id k.taken = []) :
    k'.Calls := by
  have hdraw : ∀ {l : List UInt64}, (l ++ [k.nextRequestId]).length < 2 ^ 64 →
      l.length + 1 < 2 ^ 64 := by simp
  have hregister : k.drawn.length + 1 < 2 ^ 64 → ∀ {k' : ClientTables},
      (∀ id', id' ≠ k.nextRequestId → k'.streamSinks id' = k.streamSinks id') →
      k'.taken = k.taken → k'.callbacks = k.callbacks → k'.Calls := by
    intro hlt' k' hsinks htaken hcallbacks
    have hfresh := hids.fresh hlt'
    refine h.register ?_ (hunread _ hfresh) hsinks htaken hcallbacks
    by_contra hne
    exact hfresh (hids.callbacks _ hne)
  cases effect_of_step hstep with
  | getStream | subscribe =>
    exact hregister (hdraw hlt) (fun _ hne => Function.update_of_ne hne _ _) rfl rfl
  | @unsubscribe id | @unsubscribeAlive id => exact (h.eraseSink id).congr rfl rfl rfl
  | @notTransmitted request _ =>
    have hdrop : Calls { k with unsent := k.unsent.erase request } := h.congr rfl rfl rfl
    exact hdrop.takeBack request.2.requestId request.1
  | @streamDone id _ => exact h.eraseSink id
  | @read type plaintext _ => exact h.read type plaintext
  | exit => exact h.closeSinks
  | get | send | openStream | transmitted _ | transmitOther _ | getDone | quit =>
    exact h.congr rfl rfl rfl

theorem taken_readChunk (k : ClientTables) (plaintext : Bytes) :
    (k.readChunk plaintext).taken = k.taken := by
  rw [readChunk]
  split
  · split
    · simp only
      split <;> rfl
    · rfl
  · rfl

theorem taken_readResponse (k : ClientTables) (plaintext : Bytes) :
    (k.readResponse plaintext).taken = k.taken := by
  rw [readResponse]
  split
  · split
    · rfl
    · split <;> rfl
  · rfl

theorem taken_read (k : ClientTables) (type : FrameType) (plaintext : Bytes) :
    (k.read type plaintext).taken = k.taken ++ [(type, plaintext)] := by
  rw [read]
  simp only
  split
  · exact taken_readChunk _ _
  split
  · exact taken_readResponse _ _
  split <;> rfl

/-- What is read fits in a frame. -/
theorem short_step {a : Act} (hstep : k.Step a k')
    (hshort : ∀ x ∈ k.taken, x.2.length ≤ kMaxFrameBytes) :
    ∀ x ∈ k'.taken, x.2.length ≤ kMaxFrameBytes := by
  cases effect_of_step hstep with
  | read hlen =>
    intro x hx
    rw [taken_read] at hx
    rcases List.mem_append.mp hx with hx | hx
    · exact hshort x hx
    · rw [List.mem_singleton.mp hx]
      exact hlen
  | @notTransmitted request _ =>
    obtain ⟨kind, req⟩ := request
    cases kind <;> exact hshort
  | get | send | getStream | openStream | subscribe | unsubscribe | unsubscribeAlive
  | transmitted _ | transmitOther _ | getDone | streamDone _ | quit | exit => exact hshort

end ClientTables

end Epx
