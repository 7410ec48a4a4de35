import Epx.Lib.Transition
import Epx.Protocol

/-!
# The calls of a client and its reader thread

`get`, `get_stream`, `subscribe` and `unsubscribe` of `src/client.cpp` on one `Connection`, with
`reader_loop` and `close_connection`, in the steps in which other threads can see them: a call looks
the connection up, draws its id, registers under it, sends, and then evaluates its wait condition
each time it wakes up; the reader copies a callback out under `stream_mutex`, runs it without a
lock, and takes the lock again afterwards. What happens under one hold of a mutex is one step.

Any number of calls are under way at once; they are numbered. A callback is known by the number of
the call that brought it. Frames arrive opened and decoded; any frame can arrive at any time.

## Main definitions

* `ClientCalls`, `ClientCalls.step` — the machine
* `ClientCalls.Effect` — one constructor for each way a step can go

## Main results

* `ClientCalls.effect_of_step`
-/

namespace Epx

open Codec Transition

/-- The calls that wait for something to arrive under their request id. -/
inductive AskKind where
  | get
  | getStream
  | subscribe
  deriving DecidableEq

/-- How a call ends. Each way to throw has a constructor of its own. -/
inductive CallOutcome where
  | returned (data : Bytes)
  /-- `NotFound`: the host answered with status 2. -/
  | notFound
  /-- `AccessDenied`: the host answered with status 3. -/
  | accessDenied
  /-- `Protocol`, with the host's own message. -/
  | protocol (message : Bytes)
  | timeout
  /-- `RateLimited`, with the message of the host's ERROR frame. -/
  | rateLimited (message : Bytes)
  /-- `Transport`: the connection closed first. -/
  | closed
  /-- `Transport`: the request could not be sent. -/
  | sendFailed
  deriving DecidableEq

/-- Where a call is. -/
inductive CallPlace where
  | idle
  /-- `get_or_connect` has returned the connection. -/
  | found (kind : AskKind)
  | drawn (kind : AskKind) (id : UInt64)
  | registered (kind : AskKind) (id : UInt64)
  /-- `seal_and_send` has returned false. -/
  | unsent (kind : AskKind) (id : UInt64)
  /-- The request was sent. A `subscribe` has returned its handle. -/
  | sent (kind : AskKind) (id : UInt64)
  /-- A `get_stream` sleeps, with its `activity_before`. -/
  | waiting (id : UInt64) (activityBefore : UInt64)
  | over (kind : AskKind) (id : UInt64) (outcome : CallOutcome)
  /-- `unsubscribe` on the handle of a call has won the exchange of `active`. -/
  | unsubscribing (target : ℕ)
  /-- It has erased the sink. -/
  | unsubscribeErased (target : ℕ)
  | unsubscribed (target : ℕ)
  deriving DecidableEq

namespace CallPlace

/-- The kind and the request id of a call that has drawn one. -/
def asks : CallPlace → Option (AskKind × UInt64)
  | .drawn kind id | .registered kind id | .unsent kind id | .sent kind id | .over kind id _ =>
    some (kind, id)
  | .waiting id _ => some (.getStream, id)
  | _ => none

/-- The kind and the id of a call that has registered and not ended. A subscription does not end
here: its handle stays. -/
def under : CallPlace → Option (AskKind × UInt64)
  | .registered kind id | .unsent kind id | .sent kind id => some (kind, id)
  | .waiting id _ => some (.getStream, id)
  | _ => none

/-- The request id in the handle that a `subscribe` has returned. -/
def handle : CallPlace → Option UInt64
  | .sent .subscribe id => some id
  | _ => none

theorem handle_eq_some {c : CallPlace} {id : UInt64} :
    c.handle = some id ↔ c = .sent .subscribe id := by
  cases c with
  | sent kind id' => cases kind <;> simp [handle]
  | _ => simp [handle]

theorem asks_of_under {c : CallPlace} {x : AskKind × UInt64} (h : c.under = some x) :
    c.asks = some x := by
  cases c <;> simp [under] at h <;> simp [asks, h]

/-- How a call goes on without touching a table. -/
inductive Goes : CallPlace → CallPlace → Prop
  | found (kind : AskKind) : Goes .idle (.found kind)
  | sent (kind : AskKind) (id : UInt64) : Goes (.registered kind id) (.sent kind id)
  | unsent (kind : AskKind) (id : UInt64) : Goes (.registered kind id) (.unsent kind id)
  | began (id before : UInt64) : Goes (.sent .getStream id) (.waiting id before)
  | slept (id before before' : UInt64) : Goes (.waiting id before) (.waiting id before')

namespace Goes

variable {c c' : CallPlace}

theorem asks_eq (h : c.Goes c') : c'.asks = c.asks := by
  cases h <;> rfl

theorem under_eq (h : c.Goes c') : c'.under = c.under := by
  cases h <;> rfl

theorem ne_over (h : c.Goes c') (kind : AskKind) (id : UInt64) (o : CallOutcome) :
    c' ≠ .over kind id o := by
  rintro rfl
  cases h

theorem old_ne_over (h : c.Goes c') (kind : AskKind) (id : UInt64) (o : CallOutcome) :
    c ≠ .over kind id o := by
  rintro rfl
  cases h

theorem ne_unsubscribe (h : c.Goes c') (target : ℕ) :
    c' ≠ .unsubscribing target ∧ c' ≠ .unsubscribeErased target ∧ c' ≠ .unsubscribed target := by
  cases h <;> simp

end Goes

end CallPlace

/-- `StreamSink`; its callback is that of a call. -/
structure StreamSink where
  callback : ℕ
  done : Bool := false
  activity : UInt64 := 0
  failed : Bool := false
  failStatus : UInt8 := 0
  failMessage : Bytes := []
  subscription : Bool := false
  deriving DecidableEq

/-- Where in `reader_loop` a callback was copied out. -/
inductive Origin where
  | chunk
  | refusal
  | exit
  deriving DecidableEq

/-- A callback that the reader has copied out, and what it is to be called with. -/
structure Delivery where
  callback : ℕ
  id : UInt64
  data : Bytes
  closed : Bool
  subscription : Bool
  origin : Origin
  deriving DecidableEq

/-- The wrapper of a subscription stores `active = false` before the last call. -/
def Delivery.marks (d : Delivery) : Bool := d.subscription && d.closed

/-- How far the reader is with a callback. -/
inductive Stage where
  | copied
  /-- The wrapper of a subscription has stored `active = false`. -/
  | marked
  | running
  deriving DecidableEq

/-- Where the reader thread is. -/
inductive Reader where
  /-- At the loop condition. -/
  | top
  /-- In `read_frame`. -/
  | reading
  /-- With a callback, and with `closed_cbs` still to be called. -/
  | delivering (d : Delivery) (stage : Stage) (rest : List Delivery)
  /-- The callback of a last chunk has returned. -/
  | ending (d : Delivery)
  /-- The loop was left. -/
  | left
  /-- `alive` is false, and the sinks were not looked at yet. -/
  | dying
  | exited
  deriving DecidableEq

/-- The callbacks the reader has copied out and not done with. -/
def Reader.deliveries : Reader → List Delivery
  | .delivering d _ rest => d :: rest
  | .ending d => [d]
  | _ => []

/-- The calls of the callback of call `i` that the reader owes and has not begun. -/
def Reader.unstarted (r : Reader) (i : ℕ) : List (Bytes × Bool) :=
  match r with
  | .delivering d stage rest =>
    ((if stage = .running then rest else d :: rest).filter fun d => d.callback = i).map
      fun d => (d.data, d.closed)
  | _ => []

/-- The call of the callback of call `i` that the reader is in. -/
def Reader.running (r : Reader) (i : ℕ) : List (Bytes × Bool) :=
  match r with
  | .delivering d .running _ => if d.callback = i then [(d.data, d.closed)] else []
  | _ => []

/-- A client connection, its calls, and a record of what reached them. -/
structure ClientCalls where
  alive : Bool := true
  nextRequestId : UInt64 := 1
  deathReason : UInt16 := 0
  deathMessage : Bytes := []
  pending : UInt64 → Option (Option ResponsePayload) := fun _ => none
  streamSinks : UInt64 → Option StreamSink := fun _ => none
  /-- `Subscription::active`, by the `subscribe` call. -/
  active : ℕ → Bool := fun _ => false
  calls : ℕ → CallPlace := fun _ => .idle
  reader : Reader := .top
  drawn : List UInt64 := []
  /-- The RESPONSEs read under the id of a call while it was registered. -/
  answers : ℕ → List ResponsePayload := fun _ => []
  /-- The chunks read under the id of a call while it was registered. -/
  fed : ℕ → List (Bytes × Bool) := fun _ => []
  /-- The calls of the application's callback that have begun. -/
  invoked : ℕ → List (Bytes × Bool) := fun _ => []
  /-- Those of them that have returned. -/
  finished : ℕ → List (Bytes × Bool) := fun _ => []

/-- What `get` makes of a RESPONSE. -/
def getReport (resp : ResponsePayload) : CallOutcome :=
  if resp.status = 2 then .notFound
  else if resp.status = 3 then .accessDenied
  else if resp.status = 1 then .protocol resp.data
  else .returned resp.data

/-- `stream request failed`. -/
def streamRequestFailed : Bytes :=
  tagBytes ['s', 't', 'r', 'e', 'a', 'm', ' ', 'r', 'e', 'q', 'u', 'e', 's', 't', ' ',
    'f', 'a', 'i', 'l', 'e', 'd']

/-- What `get_stream` makes of a sink that failed. -/
def streamReport (sink : StreamSink) : CallOutcome :=
  if sink.failStatus = 2 then .notFound
  else if sink.failStatus = 3 then .accessDenied
  else .protocol (if sink.failMessage = [] then streamRequestFailed else sink.failMessage)

namespace ClientCalls

/-! ### Pieces of the calls -/

def move (s : ClientCalls) (i : ℕ) (c : CallPlace) : ClientCalls :=
  { s with calls := Function.update s.calls i c }

/-- `next_request_id.fetch_add(1)`. -/
def draw (s : ClientCalls) : ClientCalls :=
  { s with nextRequestId := s.nextRequestId + 1, drawn := s.drawn ++ [s.nextRequestId] }

def erasePending (s : ClientCalls) (id : UInt64) : ClientCalls :=
  { s with pending := Function.update s.pending id none }

def putSink (s : ClientCalls) (id : UInt64) (sink : StreamSink) : ClientCalls :=
  { s with streamSinks := Function.update s.streamSinks id (some sink) }

def eraseSink (s : ClientCalls) (id : UInt64) : ClientCalls :=
  { s with streamSinks := Function.update s.streamSinks id none }

/-- A call puts its entry into its table. -/
def register (s : ClientCalls) (i : ℕ) (id : UInt64) : AskKind → ClientCalls
  | .get => { s with pending := Function.update s.pending id (some none) }
  | .getStream => s.putSink id { callback := i }
  | .subscribe =>
    { s.putSink id { callback := i, subscription := true } with
      active := Function.update s.active i true }

/-- A call whose request could not be sent takes its entry out again. -/
def unregister (s : ClientCalls) (id : UInt64) : AskKind → ClientCalls
  | .get => s.erasePending id
  | .getStream | .subscribe => s.eraseSink id

/-- What a call throws that finds the connection dead. -/
def deathReport (s : ClientCalls) : CallOutcome :=
  if s.deathReason = kErrRateLimited then .rateLimited s.deathMessage else .closed

/-- `get` evaluates its wait condition, because it woke up or because its time is up, and goes on if
it holds. `operator[]` inserts what it does not find. -/
def getWake (s : ClientCalls) (i : ℕ) (id : UInt64) (timedOut : Bool) : ClientCalls :=
  let stored := (s.pending id).join
  let arrived := s.alive = false ∨ stored.isSome = true
  if ¬ arrived ∧ timedOut = false then
    { s with pending := Function.update s.pending id (some stored) }
  else
    let outcome :=
      if ¬ arrived then CallOutcome.timeout
      else
        match stored with
        | none => s.deathReport
        | some resp => getReport resp
    (s.erasePending id).move i (.over .get id outcome)

/-- The `done` of `get_stream`. -/
def sinkDone : Option StreamSink → Bool
  | none => true
  | some sink => sink.done

/-- The activity of a sink, as `get_stream` reads it before it waits. -/
def sinkActivity : Option StreamSink → UInt64
  | none => 0
  | some sink => sink.activity

/-- Whether there was no new chunk. -/
def sinkStalled (activityBefore : UInt64) : Option StreamSink → Bool
  | none => false
  | some sink => sink.activity = activityBefore

/-- `get_stream` leaves its loop at this wake-up: the stream is done, the connection is dead, or no
chunk has come in time. -/
def streamLeaves (s : ClientCalls) (id activityBefore : UInt64) (timedOut : Bool) : Bool :=
  sinkDone (s.streamSinks id) || !s.alive ||
    (timedOut && sinkStalled activityBefore (s.streamSinks id))

/-- How `get_stream` leaves: at the end of its time, with the host's refusal, at the end of the
stream, or because the connection is dead. -/
def streamOutcome (s : ClientCalls) (id : UInt64) : CallOutcome :=
  match s.streamSinks id with
  | none => .returned []
  | some sink =>
    if s.alive = true ∧ sink.done = false then .timeout
    else if sink.failed = true then streamReport sink
    else if sink.done = true then .returned []
    else s.deathReport

/-- `get_stream` evaluates its wait condition. When it neither leaves nor has seen a new chunk it
sleeps on; with a new chunk it starts the next wait from there. -/
def streamWake (s : ClientCalls) (i : ℕ) (id activityBefore : UInt64) (timedOut : Bool) :
    ClientCalls :=
  if s.streamLeaves id activityBefore timedOut = true then
    (s.eraseSink id).move i (.over .getStream id (s.streamOutcome id))
  else s.move i (.waiting id (sinkActivity (s.streamSinks id)))

/-! ### Pieces of the reader -/

/-- Where the reader goes when a callback has returned. -/
def afterCallback (d : Delivery) (rest : List Delivery) : Reader :=
  match d.origin with
  | .chunk => if d.closed = true then .ending d else .top
  | .refusal => .top
  | .exit =>
    match rest with
    | [] => .exited
    | d' :: rest => .delivering d' .copied rest

/-- The calls under way with an id get to know what was read under it. -/
def record (s : ClientCalls) (id : UInt64) {α : Type} (seen : ℕ → List α) (x : α) : ℕ → List α :=
  fun i => if (s.calls i).under.map Prod.snd = some id then seen i ++ [x] else seen i

/-- A STREAM_CHUNK: the callback is copied out and the sink is marked, under `stream_mutex`. -/
def readChunk (s : ClientCalls) (chunk : StreamChunkPayload) : ClientCalls :=
  let s := { s with fed := s.record chunk.requestId s.fed (chunk.data, chunk.isLast) }
  match s.streamSinks chunk.requestId with
  | none => { s with reader := .top }
  | some sink =>
    { s.putSink chunk.requestId
        { sink with activity := sink.activity + 1, done := sink.done || chunk.isLast } with
      reader := .delivering ⟨sink.callback, chunk.requestId, chunk.data, chunk.isLast,
        sink.subscription, .chunk⟩ .copied [] }

/-- A RESPONSE: it is stored for a `get`, or fails a stream, or refuses a subscription. -/
def readResponse (s : ClientCalls) (resp : ResponsePayload) : ClientCalls :=
  let s := { s with answers := s.record resp.requestId s.answers resp }
  match s.pending resp.requestId with
  | some _ =>
    { s with
      pending := Function.update s.pending resp.requestId (some (some resp))
      reader := .top }
  | none =>
    match s.streamSinks resp.requestId with
    | none => { s with reader := .top }
    | some sink =>
      if sink.subscription = true then
        { s.eraseSink resp.requestId with
          reader := .delivering ⟨sink.callback, resp.requestId, [], true, true, .refusal⟩
            .copied [] }
      else
        { s.putSink resp.requestId
            { sink with failed := true, failStatus := resp.status, failMessage := resp.data
                        done := true } with
          reader := .top }

/-- `closed_cbs`: what the reader owes the subscriptions on its way out. -/
def closedCbs (s : ClientCalls) : List Delivery :=
  s.drawn.filterMap fun id =>
    match s.streamSinks id with
    | some sink =>
      if sink.subscription = true then some ⟨sink.callback, id, [], true, true, .exit⟩ else none
    | none => none

/-- The sinks of subscriptions are taken out of the table and will be told. -/
def sweep (s : ClientCalls) : ClientCalls :=
  { s with
    streamSinks := fun id =>
      match s.streamSinks id with
      | some sink => if sink.subscription = true then none else some sink
      | none => none
    reader :=
      match s.closedCbs with
      | [] => .exited
      | d :: rest => .delivering d .copied rest }

/-! ### Steps -/

/-- What the threads of a client can do next. -/
inductive Act where
  | lookup (i : ℕ) (kind : AskKind)
  | draw (i : ℕ)
  | register (i : ℕ)
  /-- `seal_and_send` of the request. -/
  | send (i : ℕ) (ok : Bool)
  /-- The call that could not send takes its entry back and throws. -/
  | giveUp (i : ℕ)
  | getWake (i : ℕ) (timedOut : Bool)
  /-- `get_stream` enters its loop. -/
  | streamBegin (i : ℕ)
  | streamWake (i : ℕ) (timedOut : Bool)
  /-- `unsubscribe`, called as number `j` on the handle that call `i` has returned. -/
  | unsubscribe (j i : ℕ)
  | unsubscribeErase (j : ℕ)
  /-- It tells the host if the connection is alive, and returns. -/
  | unsubscribeReturn (j : ℕ)
  /-- `send` and `open_stream` draw an id as well. -/
  | drawOther
  /-- `close_connection`. -/
  | close
  | readerTop
  | readChunk (chunk : StreamChunkPayload)
  | readResponse (resp : ResponsePayload)
  /-- An ERROR frame, with what could be decoded of it. -/
  | readError (err : Option ErrorPayload)
  /-- A frame that concerns no call. -/
  | readOther
  /-- `read_frame` fails, or the frame cannot be opened or decoded. -/
  | readFails
  /-- The wrapper of a subscription's callback stores `active = false`. -/
  | mark
  /-- The application's callback begins. -/
  | invoke
  | callbackReturns
  /-- After the callback of a last chunk: the sink of a subscription is erased. -/
  | endLast
  | die
  | sweep
  deriving DecidableEq

def step (s : ClientCalls) : Act → Option ClientCalls
  | .lookup i kind =>
    match s.calls i with
    | .idle => if s.alive = true then some (s.move i (.found kind)) else none
    | _ => none
  | .draw i =>
    match s.calls i with
    | .found kind => some (s.draw.move i (.drawn kind s.nextRequestId))
    | _ => none
  | .register i =>
    match s.calls i with
    | .drawn kind id => some ((s.register i id kind).move i (.registered kind id))
    | _ => none
  | .send i ok =>
    match s.calls i with
    | .registered kind id => some (s.move i (if ok then .sent kind id else .unsent kind id))
    | _ => none
  | .giveUp i =>
    match s.calls i with
    | .unsent kind id => some ((s.unregister id kind).move i (.over kind id .sendFailed))
    | _ => none
  | .getWake i timedOut =>
    match s.calls i with
    | .sent .get id => some (s.getWake i id timedOut)
    | _ => none
  | .streamBegin i =>
    match s.calls i with
    | .sent .getStream id => some (s.streamWake i id (sinkActivity (s.streamSinks id)) false)
    | _ => none
  | .streamWake i timedOut =>
    match s.calls i with
    | .waiting id activityBefore => some (s.streamWake i id activityBefore timedOut)
    | _ => none
  | .unsubscribe j i =>
    match s.calls j, (s.calls i).handle with
    | .idle, some _ =>
      if s.active i = true then
        some { s.move j (.unsubscribing i) with active := Function.update s.active i false }
      else some (s.move j (.unsubscribed i))
    | _, _ => none
  | .unsubscribeErase j =>
    match s.calls j with
    | .unsubscribing i =>
      match (s.calls i).handle with
      | some id => some ((s.eraseSink id).move j (.unsubscribeErased i))
      | none => none
    | _ => none
  | .unsubscribeReturn j =>
    match s.calls j with
    | .unsubscribeErased i =>
      some ((if s.alive = true then s.draw else s).move j (.unsubscribed i))
    | _ => none
  | .drawOther => some s.draw
  | .close => some { s with alive := false }
  | .readerTop =>
    if s.reader = .top then
      some { s with reader := if s.alive = true then .reading else .left }
    else none
  | .readChunk chunk => if s.reader = .reading then some (s.readChunk chunk) else none
  | .readResponse resp => if s.reader = .reading then some (s.readResponse resp) else none
  | .readError err =>
    if s.reader = .reading then
      match err with
      | some e =>
        some { s with deathMessage := e.message, deathReason := e.reason, reader := .left }
      | none => some { s with reader := .left }
    else none
  | .readOther => if s.reader = .reading then some { s with reader := .top } else none
  | .readFails => if s.reader = .reading then some { s with reader := .left } else none
  | .mark =>
    match s.reader with
    | .delivering d .copied rest =>
      if d.marks = true then
        some { s with
          active := Function.update s.active d.callback false
          reader := .delivering d .marked rest }
      else none
    | _ => none
  | .invoke =>
    match s.reader with
    | .delivering d stage rest =>
      if stage = .marked ∨ (stage = .copied ∧ d.marks = false) then
        some { s with
          invoked := Function.update s.invoked d.callback
            (s.invoked d.callback ++ [(d.data, d.closed)])
          reader := .delivering d .running rest }
      else none
    | _ => none
  | .callbackReturns =>
    match s.reader with
    | .delivering d .running rest =>
      some { s with
        finished := Function.update s.finished d.callback
          (s.finished d.callback ++ [(d.data, d.closed)])
        reader := afterCallback d rest }
    | _ => none
  | .endLast =>
    match s.reader with
    | .ending d =>
      some { (if d.subscription = true then s.eraseSink d.id else s) with reader := .top }
    | _ => none
  | .die => if s.reader = .left then some { s with alive := false, reader := .dying } else none
  | .sweep => if s.reader = .dying then some s.sweep else none

abbrev Step : ClientCalls → Act → ClientCalls → Prop := OfFun step

/-! ### What a step can do -/

/-- The reader has no callback to run and has not looked at the sinks on its way out. -/
def Quiet (r : Reader) : Prop := r = .top ∨ r = .reading ∨ r = .left ∨ r = .dying

/-- What was read of a chunk is known to the calls under its id. -/
def feed (s : ClientCalls) (chunk : StreamChunkPayload) : ClientCalls :=
  { s with fed := s.record chunk.requestId s.fed (chunk.data, chunk.isLast) }

/-- What was read of a RESPONSE is known to the calls under its id. -/
def answer (s : ClientCalls) (resp : ResponsePayload) : ClientCalls :=
  { s with answers := s.record resp.requestId s.answers resp }

/-- The sink after a chunk. -/
def sinkFed (sink : StreamSink) (chunk : StreamChunkPayload) : StreamSink :=
  { sink with activity := sink.activity + 1, done := sink.done || chunk.isLast }

/-- The sink of a stream that the host has answered with a RESPONSE. -/
def sinkFailed (sink : StreamSink) (resp : ResponsePayload) : StreamSink :=
  { sink with failed := true, failStatus := resp.status, failMessage := resp.data, done := true }

/-- What the reader does with a chunk for a sink. -/
def chunkDelivery (sink : StreamSink) (chunk : StreamChunkPayload) : Delivery :=
  ⟨sink.callback, chunk.requestId, chunk.data, chunk.isLast, sink.subscription, .chunk⟩

/-- What the reader does with the refusal of a subscription. -/
def refusalDelivery (sink : StreamSink) (resp : ResponsePayload) : Delivery :=
  ⟨sink.callback, resp.requestId, [], true, true, .refusal⟩

/-- One constructor for each way a step can go. -/
inductive Effect (s : ClientCalls) : Act → ClientCalls → Prop
  /-- A call goes on without touching a table. -/
  | moved {a : Act} {i : ℕ} {c : CallPlace} : (s.calls i).Goes c → Effect s a (s.move i c)
  | drew {i : ℕ} {kind : AskKind} : s.calls i = .found kind →
      Effect s (.draw i) (s.draw.move i (.drawn kind s.nextRequestId))
  | registered {i : ℕ} {kind : AskKind} {id : UInt64} : s.calls i = .drawn kind id →
      Effect s (.register i) ((s.register i id kind).move i (.registered kind id))
  | gaveUp {i : ℕ} {kind : AskKind} {id : UInt64} : s.calls i = .unsent kind id →
      Effect s (.giveUp i) ((s.unregister id kind).move i (.over kind id .sendFailed))
  | getSlept {i : ℕ} {id : UInt64} : s.calls i = .sent .get id →
      Effect s (.getWake i false)
        { s with pending := Function.update s.pending id (some (s.pending id).join) }
  /-- A `get` leaves with what is stored, and without that for one of the other reasons. -/
  | getOver {i : ℕ} {id : UInt64} {timedOut : Bool} {o : CallOutcome} : s.calls i = .sent .get id →
      (∀ resp, (s.pending id).join = some resp → o = getReport resp) →
      ((s.pending id).join = none → o = .timeout ∨ o = s.deathReport) →
      Effect s (.getWake i timedOut) ((s.erasePending id).move i (.over .get id o))
  | streamOver {a : Act} {i : ℕ} {id before : UInt64} {timedOut : Bool} :
      (a = .streamBegin i ∧ s.calls i = .sent .getStream id ∧ timedOut = false ∧
          before = sinkActivity (s.streamSinks id)) ∨
        (a = .streamWake i timedOut ∧ s.calls i = .waiting id before) →
      s.streamLeaves id before timedOut = true →
      Effect s a ((s.eraseSink id).move i (.over .getStream id (s.streamOutcome id)))
  | unsubscribing {j i : ℕ} {id : UInt64} : s.calls j = .idle → s.calls i = .sent .subscribe id →
      s.active i = true →
      Effect s (.unsubscribe j i)
        { s.move j (.unsubscribing i) with active := Function.update s.active i false }
  | unsubscribedAgain {j i : ℕ} {id : UInt64} : s.calls j = .idle →
      s.calls i = .sent .subscribe id → s.active i = false →
      Effect s (.unsubscribe j i) (s.move j (.unsubscribed i))
  | unsubscribeErased {j i : ℕ} {id : UInt64} : s.calls j = .unsubscribing i →
      s.calls i = .sent .subscribe id →
      Effect s (.unsubscribeErase j) ((s.eraseSink id).move j (.unsubscribeErased i))
  | unsubscribeReturned {j i : ℕ} : s.calls j = .unsubscribeErased i → s.alive = false →
      Effect s (.unsubscribeReturn j) (s.move j (.unsubscribed i))
  | unsubscribeSent {j i : ℕ} : s.calls j = .unsubscribeErased i → s.alive = true →
      Effect s (.unsubscribeReturn j) (s.draw.move j (.unsubscribed i))
  | drewOther : Effect s .drawOther s.draw
  /-- Only `alive`, the reason of a death and the place of the reader change. -/
  | quiet {a : Act} {alive : Bool} {reason : UInt16} {message : Bytes} {r : Reader} :
      r = s.reader ∨ (Quiet s.reader ∧ Quiet r) →
      Effect s a { s with
        alive := alive, deathReason := reason, deathMessage := message, reader := r }
  | chunkDropped {chunk : StreamChunkPayload} : s.reader = .reading →
      s.streamSinks chunk.requestId = none →
      Effect s (.readChunk chunk) { s.feed chunk with reader := .top }
  | chunkTaken {chunk : StreamChunkPayload} {sink : StreamSink} : s.reader = .reading →
      s.streamSinks chunk.requestId = some sink →
      Effect s (.readChunk chunk)
        { (s.feed chunk).putSink chunk.requestId (sinkFed sink chunk) with
          reader := .delivering (chunkDelivery sink chunk) .copied [] }
  | stored {resp : ResponsePayload} : s.reader = .reading → s.pending resp.requestId ≠ none →
      Effect s (.readResponse resp)
        { s.answer resp with
          pending := Function.update s.pending resp.requestId (some (some resp)), reader := .top }
  | ignored {resp : ResponsePayload} : s.reader = .reading → s.pending resp.requestId = none →
      s.streamSinks resp.requestId = none →
      Effect s (.readResponse resp) { s.answer resp with reader := .top }
  | refused {resp : ResponsePayload} {sink : StreamSink} : s.reader = .reading →
      s.pending resp.requestId = none → s.streamSinks resp.requestId = some sink →
      sink.subscription = true →
      Effect s (.readResponse resp)
        { (s.answer resp).eraseSink resp.requestId with
          reader := .delivering (refusalDelivery sink resp) .copied [] }
  | streamFailed {resp : ResponsePayload} {sink : StreamSink} : s.reader = .reading →
      s.pending resp.requestId = none → s.streamSinks resp.requestId = some sink →
      sink.subscription = false →
      Effect s (.readResponse resp)
        { (s.answer resp).putSink resp.requestId (sinkFailed sink resp) with reader := .top }
  | marked {d : Delivery} {rest : List Delivery} : s.reader = .delivering d .copied rest →
      d.marks = true →
      Effect s .mark { s with
        active := Function.update s.active d.callback false
        reader := .delivering d .marked rest }
  | invoked {d : Delivery} {stage : Stage} {rest : List Delivery} :
      s.reader = .delivering d stage rest → stage = .marked ∨ (stage = .copied ∧ d.marks = false) →
      Effect s .invoke { s with
        invoked := Function.update s.invoked d.callback
          (s.invoked d.callback ++ [(d.data, d.closed)])
        reader := .delivering d .running rest }
  | callbackReturned {d : Delivery} {rest : List Delivery} :
      s.reader = .delivering d .running rest →
      Effect s .callbackReturns { s with
        finished := Function.update s.finished d.callback
          (s.finished d.callback ++ [(d.data, d.closed)])
        reader := afterCallback d rest }
  | ended {d : Delivery} : s.reader = .ending d →
      Effect s .endLast
        { (if d.subscription = true then s.eraseSink d.id else s) with reader := .top }
  | swept : s.reader = .dying → Effect s .sweep s.sweep

section

variable {s s' : ClientCalls} {a : Act}

/-- Entering a table does not move a call. -/
theorem register_calls (s : ClientCalls) (i : ℕ) (id : UInt64) (kind : AskKind) :
    (s.register i id kind).calls = s.calls := by
  cases kind <;> rfl

theorem unregister_calls (s : ClientCalls) (id : UInt64) (kind : AskKind) :
    (s.unregister id kind).calls = s.calls := by
  cases kind <;> rfl

/-- After a last chunk nothing but a sink may be gone. -/
theorem eraseLast_eq (s : ClientCalls) (d : Delivery) : ∃ sinks,
    (if d.subscription = true then s.eraseSink d.id else s) = { s with streamSinks := sinks } := by
  split
  · exact ⟨_, rfl⟩
  · exact ⟨s.streamSinks, rfl⟩

theorem deathReport_cases (s : ClientCalls) :
    s.deathReport = .closed ∨ ∃ message, s.deathReport = .rateLimited message := by
  rw [deathReport]
  split
  · exact Or.inr ⟨_, rfl⟩
  · exact Or.inl rfl

theorem effect_of_getWake {i : ℕ} {id : UInt64} {timedOut : Bool}
    (hcall : s.calls i = .sent .get id) :
    Effect s (.getWake i timedOut) (s.getWake i id timedOut) := by
  rw [getWake]
  dsimp only
  by_cases harrived : s.alive = false ∨ (s.pending id).join.isSome = true
  · rw [if_neg (by simp [harrived]), if_neg (not_not.mpr harrived)]
    cases hstored : (s.pending id).join with
    | some resp =>
      refine .getOver hcall (fun resp' h => ?_) (fun h => ?_)
      · rw [hstored] at h
        cases h
        rfl
      · rw [hstored] at h
        cases h
    | none =>
      refine .getOver hcall (fun resp' h => ?_) (fun _ => Or.inr rfl)
      rw [hstored] at h
      cases h
  · have hnone : (s.pending id).join = none := by
      cases hstored : (s.pending id).join with
      | none => rfl
      | some resp => exact absurd (Or.inr (by rw [hstored]; rfl)) harrived
    cases timedOut with
    | false =>
      rw [if_pos ⟨harrived, rfl⟩]
      exact .getSlept hcall
    | true =>
      rw [if_neg (by simp), if_pos harrived]
      refine .getOver hcall (fun resp' h => ?_) (fun _ => Or.inl rfl)
      rw [hnone] at h
      cases h

theorem effect_of_streamWake {i : ℕ} {id before : UInt64} {timedOut : Bool}
    (hcall : (a = .streamBegin i ∧ s.calls i = .sent .getStream id ∧ timedOut = false ∧
        before = sinkActivity (s.streamSinks id)) ∨
      (a = .streamWake i timedOut ∧ s.calls i = .waiting id before)) :
    Effect s a (s.streamWake i id before timedOut) := by
  rw [streamWake]
  by_cases hleaves : s.streamLeaves id before timedOut = true
  · rw [if_pos hleaves]
    exact .streamOver hcall hleaves
  · rw [if_neg hleaves]
    refine .moved ?_
    rcases hcall with ⟨-, hcall, -⟩ | ⟨-, hcall⟩
    · rw [hcall]
      exact .began id _
    · rw [hcall]
      exact .slept id _ _

theorem effect_of_readChunk {chunk : StreamChunkPayload} (hreader : s.reader = .reading) :
    Effect s (.readChunk chunk) (s.readChunk chunk) := by
  rw [readChunk]
  cases hsink : s.streamSinks chunk.requestId with
  | none =>
    dsimp only
    exact .chunkDropped hreader hsink
  | some sink =>
    dsimp only
    exact .chunkTaken hreader hsink

theorem effect_of_readResponse {resp : ResponsePayload} (hreader : s.reader = .reading) :
    Effect s (.readResponse resp) (s.readResponse resp) := by
  rw [readResponse]
  cases hpending : s.pending resp.requestId with
  | some _ =>
    dsimp only
    exact .stored hreader (by rw [hpending]; exact Option.some_ne_none _)
  | none =>
    cases hsink : s.streamSinks resp.requestId with
    | none =>
      dsimp only
      exact .ignored hreader hpending hsink
    | some sink =>
      dsimp only
      by_cases hsub : sink.subscription = true
      · rw [if_pos hsub]
        exact .refused hreader hpending hsink hsub
      · rw [if_neg hsub]
        exact .streamFailed hreader hpending hsink (Bool.not_eq_true _ ▸ hsub)

theorem effect_of_step (h : s.step a = some s') : Effect s a s' := by
  cases a with
  | lookup i kind =>
    simp only [step] at h
    split at h
    · next hcall =>
      obtain ⟨-, heq⟩ := Option.ite_none_right_eq_some.mp h
      cases heq
      exact .moved (by rw [hcall]; exact .found kind)
    · cases h
  | draw i =>
    simp only [step] at h
    split at h
    · next kind hcall =>
      cases h
      exact .drew hcall
    · cases h
  | register i =>
    simp only [step] at h
    split at h
    · next kind id hcall =>
      cases h
      exact .registered hcall
    · cases h
  | send i ok =>
    simp only [step] at h
    split at h
    · next kind id hcall =>
      cases h
      cases ok with
      | true => exact .moved (by rw [hcall]; exact .sent kind id)
      | false => exact .moved (by rw [hcall]; exact .unsent kind id)
    · cases h
  | giveUp i =>
    simp only [step] at h
    split at h
    · next kind id hcall =>
      cases h
      exact .gaveUp hcall
    · cases h
  | getWake i timedOut =>
    simp only [step] at h
    split at h
    · next id hcall =>
      cases h
      exact effect_of_getWake hcall
    · cases h
  | streamBegin i =>
    simp only [step] at h
    split at h
    · next id hcall =>
      cases h
      exact effect_of_streamWake (Or.inl ⟨rfl, hcall, rfl, rfl⟩)
    · cases h
  | streamWake i timedOut =>
    simp only [step] at h
    split at h
    · next id before hcall =>
      cases h
      exact effect_of_streamWake (Or.inr ⟨rfl, hcall⟩)
    · cases h
  | unsubscribe j i =>
    simp only [step] at h
    split at h
    · next id hj hhandle =>
      have hi := CallPlace.handle_eq_some.mp hhandle
      by_cases hactive : s.active i = true
      · rw [if_pos hactive] at h
        cases h
        exact .unsubscribing hj hi hactive
      · rw [if_neg hactive] at h
        cases h
        exact .unsubscribedAgain hj hi (Bool.not_eq_true _ ▸ hactive)
    · cases h
  | unsubscribeErase j =>
    simp only [step] at h
    split at h
    · next i hcall =>
      split at h
      · next id hhandle =>
        cases h
        exact .unsubscribeErased hcall (CallPlace.handle_eq_some.mp hhandle)
      · cases h
    · cases h
  | unsubscribeReturn j =>
    simp only [step] at h
    split at h
    · next i hcall =>
      by_cases halive : s.alive = true
      · rw [if_pos halive] at h
        cases h
        exact .unsubscribeSent hcall halive
      · rw [if_neg halive] at h
        cases h
        exact .unsubscribeReturned hcall (Bool.not_eq_true _ ▸ halive)
    · cases h
  | drawOther =>
    cases h
    exact .drewOther
  | close =>
    cases h
    exact .quiet (Or.inl rfl)
  | readerTop =>
    obtain ⟨hreader, heq⟩ := Option.ite_none_right_eq_some.mp h
    cases heq
    refine .quiet (Or.inr ⟨Or.inl hreader, ?_⟩)
    by_cases halive : s.alive = true
    · rw [if_pos halive]
      exact Or.inr (Or.inl rfl)
    · rw [if_neg halive]
      exact Or.inr (Or.inr (Or.inl rfl))
  | readChunk chunk =>
    obtain ⟨hreader, heq⟩ := Option.ite_none_right_eq_some.mp h
    cases heq
    exact effect_of_readChunk hreader
  | readResponse resp =>
    obtain ⟨hreader, heq⟩ := Option.ite_none_right_eq_some.mp h
    cases heq
    exact effect_of_readResponse hreader
  | readError err =>
    obtain ⟨hreader, heq⟩ := Option.ite_none_right_eq_some.mp h
    have hquiet : Quiet s.reader ∧ Quiet .left := ⟨Or.inr (Or.inl hreader), by simp [Quiet]⟩
    cases err with
    | none =>
      cases heq
      exact .quiet (Or.inr hquiet)
    | some e =>
      cases heq
      exact .quiet (Or.inr hquiet)
  | readOther =>
    obtain ⟨hreader, heq⟩ := Option.ite_none_right_eq_some.mp h
    cases heq
    exact .quiet (Or.inr ⟨Or.inr (Or.inl hreader), Or.inl rfl⟩)
  | readFails =>
    obtain ⟨hreader, heq⟩ := Option.ite_none_right_eq_some.mp h
    cases heq
    exact .quiet (Or.inr ⟨Or.inr (Or.inl hreader), by simp [Quiet]⟩)
  | mark =>
    simp only [step] at h
    split at h
    · next d rest hreader =>
      obtain ⟨hmarks, heq⟩ := Option.ite_none_right_eq_some.mp h
      cases heq
      exact .marked hreader hmarks
    · cases h
  | invoke =>
    simp only [step] at h
    split at h
    · next d stage rest hreader =>
      obtain ⟨hstage, heq⟩ := Option.ite_none_right_eq_some.mp h
      cases heq
      exact .invoked hreader hstage
    · cases h
  | callbackReturns =>
    simp only [step] at h
    split at h
    · next d rest hreader =>
      cases h
      exact .callbackReturned hreader
    · cases h
  | endLast =>
    simp only [step] at h
    split at h
    · next d hreader =>
      cases h
      exact .ended hreader
    · cases h
  | die =>
    obtain ⟨hreader, heq⟩ := Option.ite_none_right_eq_some.mp h
    cases heq
    exact .quiet (Or.inr ⟨by simp [Quiet, hreader], by simp [Quiet]⟩)
  | sweep =>
    obtain ⟨hreader, heq⟩ := Option.ite_none_right_eq_some.mp h
    cases heq
    exact .swept hreader

end

end ClientCalls

end Epx
