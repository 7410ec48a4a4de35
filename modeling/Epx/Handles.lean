import Epx.HostLoop
import Epx.Lib.Owner
import Epx.Lib.Transition

/-!
# The handles of a client

`Client::Subscription` and `Client::OutputStream` of `src/client.cpp`: move-only handles whose
destructor closes what they own. Handles live in numbered places, are made by `subscribe` and
`open_stream`, are moved about, used and destroyed, while the readers of the connections close feeds
in between.

Move construction and move assignment are the compiler's, so they move a `unique_ptr`. An assignment
to a handle that owns something frees what it owned, and no destructor of a handle runs.

## Main definitions

* `Handles`, `Handles.step` — the machine
* `FeedView`, `FeedStep`, `OutputView`, `OutputStep` — what the thing of one handle goes through
* `Handles.Effect` — one constructor for each way a step can go

## Main results

* `FeedStep.ok`, `OutputStep.ok`
* `Handles.effect_of_step`
* `Handles.feed_unsubscribe` and the other operations, for one subscription; `Handles.output_write`,
  `Handles.output_finish`
-/

namespace Epx

open Codec Transition Owner

/-- What a client hands to `seal_and_send`. -/
inductive ClientFrame where
  | request (req : RequestPayload)
  | streamChunk (chunk : StreamChunkPayload)
  deriving DecidableEq

/-- The `Connection` of a handle, as far as handles and feeds go. -/
structure HandleConn where
  alive : Bool := true
  nextRequestId : UInt64 := 1
  /-- The sinks of subscriptions in `stream_sinks`. -/
  sinks : List UInt64 := []
  /-- The reader is at the last chunk of this subscription, has marked it as not active, and has not
  erased its sink yet. -/
  closing : Option UInt64 := none
  /-- The subscriptions whose sinks the reader has erased and whose callbacks it will call. -/
  telling : List UInt64 := []
  /-- The reader has taken all sinks on its way out. -/
  exited : Bool := false
  drawn : List UInt64 := []
  /-- What was handed to `seal_and_send`. -/
  handed : List ClientFrame := []

/-- `OutputStream::Impl`. -/
structure OutputImpl where
  endpoint : Bytes := []
  seq : UInt32 := 0
  finished : Bool := false

/-- A connection, and a request id on it: what the `Impl` of a handle points to. -/
abbrev HandleKey := ℕ × UInt64

structure Handles where
  conns : ℕ → HandleConn := fun _ => {}
  subscriptions : Places ℕ HandleKey := fun _ => none
  outputs : Places ℕ HandleKey := fun _ => none
  /-- `Subscription::Impl::active`. -/
  active : HandleKey → Bool := fun _ => false
  streams : HandleKey → OutputImpl := fun _ => {}
  /-- The subscriptions that were returned, and the streams that were opened. -/
  subscribed : List HandleKey := []
  opened : List HandleKey := []
  /-- The subscriptions whose last chunk or refusal has been read. -/
  closedByHost : List HandleKey := []
  /-- The calls of `write` before the end of a stream. -/
  writes : HandleKey → ℕ := fun _ => 0

namespace HandleConn

/-- `next_request_id.fetch_add(1)`. -/
def draw (c : HandleConn) : HandleConn :=
  { c with nextRequestId := c.nextRequestId + 1, drawn := c.drawn ++ [c.nextRequestId] }

def hand (c : HandleConn) (f : ClientFrame) : HandleConn := { c with handed := c.handed ++ [f] }

def eraseSink (c : HandleConn) (id : UInt64) : HandleConn :=
  { c with sinks := c.sinks.filter fun id' => id' ≠ id }

/-- The request of `subscribe`. -/
def subscribeRequest (c : HandleConn) (topic : Bytes) : RequestPayload :=
  { requestId := c.nextRequestId, oneway := false, endpoint := topic }

/-- The request of `unsubscribe`. -/
def unsubscribeRequest (c : HandleConn) (id : UInt64) : RequestPayload :=
  { requestId := c.nextRequestId, oneway := true, endpoint := kUnsubscribeEndpoint
    data := putU64 id }

/-- What `unsubscribe` does on the connection of an active subscription. -/
def unsubscribe (c : HandleConn) (id : UInt64) : HandleConn :=
  let c := c.eraseSink id
  if c.alive = true then (c.draw).hand (.request (c.unsubscribeRequest id)) else c

end HandleConn

namespace Handles

/-! ### The operations -/

def setConn (s : Handles) (c : ℕ) (conn : HandleConn) : Handles :=
  { s with conns := Function.update s.conns c conn }

/-- `subscribe` when its request was sent: a new handle. -/
def subscribe (s : Handles) (i c : ℕ) (topic : Bytes) : Handles :=
  let conn := s.conns c
  let key := (c, conn.nextRequestId)
  { s.setConn c { (conn.draw.hand (.request (conn.subscribeRequest topic))) with
      sinks := conn.nextRequestId :: conn.sinks } with
    subscriptions := construct s.subscriptions i (some key)
    active := Function.update s.active key true
    subscribed := key :: s.subscribed }

/-- `subscribe` when its request could not be sent: the sink is erased again, and it throws. -/
def subscribeFails (s : Handles) (c : ℕ) (topic : Bytes) : Handles :=
  let conn := s.conns c
  s.setConn c (conn.draw.hand (.request (conn.subscribeRequest topic)))

/-- `Subscription::unsubscribe` on what a handle owns. -/
def unsubscribe (s : Handles) (key : HandleKey) : Handles :=
  if s.active key = true then
    { s.setConn key.1 ((s.conns key.1).unsubscribe key.2) with
      active := Function.update s.active key false }
  else s

/-- `open_stream`. -/
def openStream (s : Handles) (i c : ℕ) (endpoint : Bytes) : Handles :=
  let conn := s.conns c
  let key := (c, conn.nextRequestId)
  { s.setConn c conn.draw with
    outputs := construct s.outputs i (some key)
    streams := Function.update s.streams key { endpoint := endpoint }
    opened := key :: s.opened }

/-- A chunk of an output stream. -/
def chunk (s : Handles) (key : HandleKey) (isLast : Bool) (data : Bytes) : StreamChunkPayload :=
  { requestId := key.2, seq := (s.streams key).seq, isLast := isLast
    endpoint := (s.streams key).endpoint, data := data }

/-- `OutputStream::write` on what a handle owns. -/
def write (s : Handles) (key : HandleKey) (data : Bytes) : Handles :=
  if (s.streams key).finished = true then s
  else
    { s.setConn key.1 ((s.conns key.1).hand (.streamChunk (s.chunk key false data))) with
      streams := Function.update s.streams key
        { s.streams key with seq := (s.streams key).seq + 1 }
      writes := Function.update s.writes key (s.writes key + 1) }

/-- `OutputStream::finish` on what a handle owns. -/
def finish (s : Handles) (key : HandleKey) : Handles :=
  if (s.streams key).finished = true then s
  else
    { s.setConn key.1 ((s.conns key.1).hand (.streamChunk (s.chunk key true []))) with
      streams := Function.update s.streams key
        { s.streams key with seq := (s.streams key).seq + 1, finished := true } }

/-! ### The readers -/

/-- The last chunk of a feed: the wrapper of the callback stores `active = false`. -/
def lastChunk (s : Handles) (c : ℕ) (id : UInt64) : Handles :=
  { s.setConn c { s.conns c with closing := some id } with
    active := Function.update s.active (c, id) false
    closedByHost := (c, id) :: s.closedByHost }

/-- After the callback of the last chunk. -/
def eraseLast (s : Handles) (c : ℕ) (id : UInt64) : Handles :=
  s.setConn c { (s.conns c).eraseSink id with closing := none }

/-- A refusal: the sink is erased, and the callback will be called. -/
def refusal (s : Handles) (c : ℕ) (id : UInt64) : Handles :=
  { s.setConn c { (s.conns c).eraseSink id with telling := [id] } with
    closedByHost := (c, id) :: s.closedByHost }

/-- A callback whose sink is gone is called with `closed`. -/
def tell (s : Handles) (c : ℕ) (id : UInt64) (rest : List UInt64) : Handles :=
  { s.setConn c { s.conns c with telling := rest } with
    active := Function.update s.active (c, id) false }

/-- On its way out the reader takes all sinks. -/
def sweep (s : Handles) (c : ℕ) : Handles :=
  s.setConn c { s.conns c with sinks := [], telling := (s.conns c).sinks, exited := true }

/-! ### Steps -/

inductive Act where
  /-- `subscribe` on connection `c`; its handle goes to place `i`. -/
  | subscribe (i c : ℕ) (topic : Bytes)
  | subscribeFails (c : ℕ) (topic : Bytes)
  /-- The default constructor. -/
  | empty (i : ℕ)
  | moveConstruct (dst src : ℕ)
  | moveAssign (dst src : ℕ)
  | unsubscribe (i : ℕ)
  | destroy (i : ℕ)
  | openStream (i c : ℕ) (endpoint : Bytes)
  | moveConstructStream (dst src : ℕ)
  | moveAssignStream (dst src : ℕ)
  | write (i : ℕ) (data : Bytes)
  | finish (i : ℕ)
  | destroyStream (i : ℕ)
  /-- Some other call on a connection draws an id. -/
  | drawOther (c : ℕ)
  | lastChunk (c : ℕ) (id : UInt64)
  | eraseLast (c : ℕ)
  | refusal (c : ℕ) (id : UInt64)
  | tell (c : ℕ)
  | die (c : ℕ)
  | sweep (c : ℕ)

/-- The reader of a connection is in its loop, and not in the middle of something. -/
def idle (c : HandleConn) : Bool := c.closing.isNone && c.telling.isEmpty && !c.exited

def step (s : Handles) : Act → Option Handles
  | .subscribe i c topic =>
    match s.subscriptions i with
    | none => some (s.subscribe i c topic)
    | some _ => none
  | .subscribeFails c topic => some (s.subscribeFails c topic)
  | .empty i =>
    match s.subscriptions i with
    | none => some { s with subscriptions := construct s.subscriptions i none }
    | some _ => none
  | .moveConstruct dst src =>
    match s.subscriptions dst, s.subscriptions src with
    | none, some _ => some { s with subscriptions := moveTo s.subscriptions dst src }
    | _, _ => none
  | .moveAssign dst src =>
    match s.subscriptions dst, s.subscriptions src with
    | some _, some _ => some { s with subscriptions := moveTo s.subscriptions dst src }
    | _, _ => none
  | .unsubscribe i =>
    match s.subscriptions i with
    | some (some key) => some (s.unsubscribe key)
    | some none => some s
    | none => none
  | .destroy i =>
    match s.subscriptions i with
    | some (some key) =>
      some { s.unsubscribe key with subscriptions := destroy s.subscriptions i }
    | some none => some { s with subscriptions := destroy s.subscriptions i }
    | none => none
  | .openStream i c endpoint =>
    match s.outputs i with
    | none => some (s.openStream i c endpoint)
    | some _ => none
  | .moveConstructStream dst src =>
    match s.outputs dst, s.outputs src with
    | none, some _ => some { s with outputs := moveTo s.outputs dst src }
    | _, _ => none
  | .moveAssignStream dst src =>
    match s.outputs dst, s.outputs src with
    | some _, some _ => some { s with outputs := moveTo s.outputs dst src }
    | _, _ => none
  | .write i data =>
    match s.outputs i with
    | some (some key) => some (s.write key data)
    | some none => some s
    | none => none
  | .finish i =>
    match s.outputs i with
    | some (some key) => some (s.finish key)
    | some none => some s
    | none => none
  | .destroyStream i =>
    match s.outputs i with
    | some (some key) => some { s.finish key with outputs := destroy s.outputs i }
    | some none => some { s with outputs := destroy s.outputs i }
    | none => none
  | .drawOther c => some (s.setConn c (s.conns c).draw)
  | .lastChunk c id =>
    if idle (s.conns c) = true ∧ id ∈ (s.conns c).sinks then some (s.lastChunk c id) else none
  | .eraseLast c =>
    match (s.conns c).closing with
    | some id => some (s.eraseLast c id)
    | none => none
  | .refusal c id =>
    if idle (s.conns c) = true ∧ id ∈ (s.conns c).sinks then some (s.refusal c id) else none
  | .tell c =>
    match (s.conns c).telling with
    | id :: rest => some (s.tell c id rest)
    | [] => none
  | .die c => some (s.setConn c { s.conns c with alive := false })
  | .sweep c =>
    if idle (s.conns c) = true ∧ (s.conns c).alive = false then some (s.sweep c) else none

abbrev Step : Handles → Act → Handles → Prop := OfFun step

/-! ### What one handle owns -/

end Handles

/-- A `$epx/unsubscribe` request with the id of a subscription. -/
def ClientFrame.unsubscribes (id : UInt64) : ClientFrame → Bool
  | .request req => req.endpoint = kUnsubscribeEndpoint ∧ req.data = putU64 id
  | .streamChunk _ => false

/-- The chunk of a frame of an output stream. -/
def ClientFrame.chunkOf (id : UInt64) : ClientFrame → Option StreamChunkPayload
  | .request _ => none
  | .streamChunk chunk => if chunk.requestId = id then some chunk else none

/-- A subscription, as its handle and the reader of its connection see it. -/
structure FeedView where
  active : Bool
  sink : Bool
  closing : Bool
  /-- The reader owes it a call with `closed`. -/
  owed : Bool
  alive : Bool
  closedByHost : Bool
  unsubscribes : ℕ

def HandleConn.feed (c : HandleConn) (id : UInt64) (active closedByHost : Bool) : FeedView where
  active := active
  sink := id ∈ c.sinks
  closing := c.closing = some id
  owed := id ∈ c.telling
  alive := c.alive
  closedByHost := closedByHost
  unsubscribes := (c.handed.filter (ClientFrame.unsubscribes id)).length

/-- An output stream and its chunks. -/
structure OutputView where
  impl : OutputImpl
  chunks : List StreamChunkPayload
  writes : ℕ

namespace Handles

def feed (s : Handles) (key : HandleKey) : FeedView :=
  (s.conns key.1).feed key.2 (s.active key) (key ∈ s.closedByHost)

def output (s : Handles) (key : HandleKey) : OutputView where
  impl := s.streams key
  chunks := (s.conns key.1).handed.filterMap (ClientFrame.chunkOf key.2)
  writes := s.writes key

end Handles

/-! ### What a subscription goes through -/

/-- One step of a subscription. -/
inductive FeedStep (v : FeedView) : FeedView → Prop
  | same : FeedStep v v
  | unsubscribe : v.active = true →
      FeedStep v { v with
        active := false, sink := false
        unsubscribes := v.unsubscribes + if v.alive = true then 1 else 0 }
  | lastChunk : v.sink = true →
      FeedStep v { v with active := false, closing := true, closedByHost := true }
  | eraseLast : v.closing = true → FeedStep v { v with sink := false, closing := false }
  | refusal : v.sink = true →
      FeedStep v { v with sink := false, owed := true, closedByHost := true }
  | tell (owed : Bool) : v.owed = true → FeedStep v { v with active := false, owed := owed }
  | die : FeedStep v { v with alive := false }
  | sweep : v.alive = false → FeedStep v { v with sink := false, owed := v.sink }

/-- An active subscription has not told the host to stop; one that is not active has no sink, or the
reader is about to erase it, and it has told the host if nothing else ended the feed. -/
structure FeedView.Ok (v : FeedView) : Prop where
  active : v.active = true → v.unsubscribes = 0
  sink : v.active = false → v.sink = true → v.closing = true
  told : v.active = false → v.alive = true → v.closedByHost = false → v.unsubscribes = 1
  owed : v.owed = true → v.sink = false ∧ (v.alive = true → v.closedByHost = true)

/-- Nothing has happened under an id. -/
structure FeedView.Blank (v : FeedView) : Prop where
  active : v.active = false
  sink : v.sink = false
  closing : v.closing = false
  owed : v.owed = false
  closedByHost : v.closedByHost = false
  unsubscribes : v.unsubscribes = 0

section

variable {v v' : FeedView}

theorem FeedStep.of_eq (h : v' = v) : FeedStep v v' := by
  rw [h]
  exact .same

theorem FeedStep.ok (h : FeedStep v v') (hv : v.Ok) : v'.Ok := by
  cases h with
  | same => exact hv
  | unsubscribe hactive =>
    refine ⟨nofun, fun _ => nofun, fun _ halive _ => ?_, fun howed => ?_⟩
    · rw [hv.active hactive, if_pos halive]
    · exact ⟨rfl, (hv.owed howed).2⟩
  | lastChunk hsink =>
    refine ⟨nofun, fun _ _ => rfl, fun _ _ => nofun, fun howed => ?_⟩
    rw [(hv.owed howed).1] at hsink
    cases hsink
  | eraseLast hclosing =>
    exact ⟨hv.active, fun _ => nofun, hv.told, fun howed => ⟨rfl, (hv.owed howed).2⟩⟩
  | refusal hsink =>
    exact ⟨hv.active, fun _ => nofun, fun _ _ => nofun, fun _ => ⟨rfl, fun _ => rfl⟩⟩
  | tell owed howed =>
    obtain ⟨hsink, hclosed⟩ := hv.owed howed
    refine ⟨nofun, fun _ h => ?_, fun _ halive h => ?_, fun _ => ⟨hsink, hclosed⟩⟩
    · rw [hsink] at h
      cases h
    · rw [hclosed halive] at h
      cases h
  | die =>
    exact ⟨hv.active, hv.sink, fun _ => nofun,
      fun howed => ⟨(hv.owed howed).1, nofun⟩⟩
  | sweep halive =>
    refine ⟨hv.active, fun _ => nofun, hv.told, fun _ => ⟨rfl, fun h => ?_⟩⟩
    rw [halive] at h
    cases h

theorem FeedStep.blank (h : FeedStep v v') (hv : v.Blank) : v'.Blank := by
  obtain ⟨hactive, hsink, hclosing, howed, hclosed, hnone⟩ := hv
  cases h with
  | same => exact ⟨hactive, hsink, hclosing, howed, hclosed, hnone⟩
  | unsubscribe h => exact absurd (h.symm.trans hactive) (by decide)
  | lastChunk h => exact absurd (h.symm.trans hsink) (by decide)
  | eraseLast h => exact absurd (h.symm.trans hclosing) (by decide)
  | refusal h => exact absurd (h.symm.trans hsink) (by decide)
  | tell _ h => exact absurd (h.symm.trans howed) (by decide)
  | die => exact ⟨hactive, hsink, hclosing, howed, hclosed, hnone⟩
  | sweep _ => exact ⟨hactive, rfl, hclosing, hsink, hclosed, hnone⟩

/-- A new subscription. -/
theorem FeedView.Blank.subscribe (hv : v.Blank) :
    FeedView.Ok { v with active := true, sink := true } where
  active _ := hv.unsubscribes
  sink h := by cases h
  told h := by cases h
  owed h := by
    rw [hv.owed] at h
    cases h

/-- A subscription that is not active does not become so, and one that has settled stays so. -/
theorem FeedStep.settled (h : FeedStep v v') (hv : v.Ok) (hactive : v.active = false)
    (hclosing : v.closing = false) : v'.active = false ∧ v'.closing = false := by
  cases h with
  | lastChunk hsink =>
    exact absurd ((hv.sink hactive hsink).symm.trans hclosing) (by decide)
  | unsubscribe _ => exact ⟨rfl, hclosing⟩
  | eraseLast _ => exact ⟨hactive, rfl⟩
  | tell _ _ => exact ⟨rfl, hclosing⟩
  | same | refusal _ | die | sweep _ => exact ⟨hactive, hclosing⟩

end

/-! ### What an output stream goes through -/

/-- One step of an output stream. -/
inductive OutputStep (v : OutputView) : OutputView → Prop
  | same : OutputStep v v
  | write (chunk : StreamChunkPayload) : v.impl.finished = false → v.writes + 1 < 2 ^ 32 →
      chunk.isLast = false →
      OutputStep v ⟨{ v.impl with seq := v.impl.seq + 1 }, v.chunks ++ [chunk], v.writes + 1⟩
  | finish (chunk : StreamChunkPayload) : v.impl.finished = false → chunk.isLast = true →
      chunk.seq = v.impl.seq →
      OutputStep v ⟨{ v.impl with seq := v.impl.seq + 1, finished := true }, v.chunks ++ [chunk],
        v.writes⟩

/-- An open stream has counted its writes; a finished one has its last chunk. -/
structure OutputView.Ok (v : OutputView) : Prop where
  open_ : v.impl.finished = false → (∀ chunk ∈ v.chunks, chunk.isLast = false) ∧
    v.chunks.length = v.writes ∧ v.impl.seq.toNat = v.writes
  finished : v.impl.finished = true → ∃ before last, v.chunks = before ++ [last] ∧
    (∀ chunk ∈ before, chunk.isLast = false) ∧ last.isLast = true ∧ before.length = v.writes ∧
    last.seq.toNat = v.writes

theorem OutputStep.of_eq {v v' : OutputView} (h : v' = v) : OutputStep v v' := by
  rw [h]
  exact .same

theorem OutputStep.ok {v v' : OutputView} (h : OutputStep v v') (hv : v.Ok) : v'.Ok := by
  cases h with
  | same => exact hv
  | write chunk hfinished hlt hchunk =>
    obtain ⟨hall, hlength, hseq⟩ := hv.open_ hfinished
    refine ⟨fun _ => ⟨?_, ?_, ?_⟩, fun h => absurd (h.symm.trans hfinished) (by decide)⟩
    · intro chunk' hmem
      rcases List.mem_append.mp hmem with hmem | hmem
      · exact hall chunk' hmem
      · rw [List.mem_singleton.mp hmem]
        exact hchunk
    · rw [List.length_append, hlength]
      rfl
    · change (v.impl.seq + 1).toNat = v.writes + 1
      rw [UInt32.toNat_add, hseq]
      exact Nat.mod_eq_of_lt hlt
  | finish chunk hfinished hchunk hseq' =>
    obtain ⟨hall, hlength, hseq⟩ := hv.open_ hfinished
    refine ⟨nofun, fun _ => ⟨v.chunks, chunk, rfl, hall, hchunk, hlength, ?_⟩⟩
    rw [hseq', hseq]

/-- A stream that is finished stays so. -/
theorem OutputStep.finished {v v' : OutputView} (h : OutputStep v v')
    (hv : v.impl.finished = true) : v'.impl.finished = true := by
  cases h with
  | same => exact hv
  | write _ hfinished _ _ => exact absurd (hv.symm.trans hfinished) (by decide)
  | finish _ _ _ _ => rfl

/-! ### The operations, for one handle's thing -/

namespace ClientFrame

theorem unsubscribes_unsubscribeRequest {c : HandleConn} {id id' : UInt64} :
    unsubscribes id' (.request (c.unsubscribeRequest id)) = decide (id = id') := by
  have hinj : putU64 id = putU64 id' ↔ id = id' := ⟨putU64_injective, fun h => by rw [h]⟩
  simp [unsubscribes, HandleConn.unsubscribeRequest, hinj]

theorem unsubscribes_subscribeRequest {c : HandleConn} {id : UInt64} {topic : Bytes} :
    unsubscribes id (.request (c.subscribeRequest topic)) = false := by
  simp [unsubscribes, HandleConn.subscribeRequest, putU64]

end ClientFrame

namespace HandleConn

variable {c c' : HandleConn} {id : UInt64} {active closedByHost : Bool}

theorem feed_congr (hsinks : id ∈ c'.sinks ↔ id ∈ c.sinks)
    (hclosing : c'.closing = some id ↔ c.closing = some id)
    (htelling : id ∈ c'.telling ↔ id ∈ c.telling) (halive : c'.alive = c.alive)
    (hhanded : c'.handed.filter (ClientFrame.unsubscribes id)
      = c.handed.filter (ClientFrame.unsubscribes id)) :
    c'.feed id active closedByHost = c.feed id active closedByHost := by
  rw [feed, feed, decide_eq_decide.mpr hsinks, decide_eq_decide.mpr hclosing,
    decide_eq_decide.mpr htelling, halive, hhanded]

theorem filter_hand {f : ClientFrame} (hf : ClientFrame.unsubscribes id f = false) :
    (c.hand f).handed.filter (ClientFrame.unsubscribes id)
      = c.handed.filter (ClientFrame.unsubscribes id) := by
  rw [hand, List.filter_append, List.filter_cons_of_neg (by rw [hf]; decide)]
  exact List.append_nil _

theorem mem_eraseSink {id' : UInt64} : id' ∈ (c.eraseSink id).sinks ↔ id' ∈ c.sinks ∧ id' ≠ id := by
  simp [eraseSink]

/-- For another id, nothing happens when a subscription ends. -/
theorem feed_unsubscribe_of_ne {id' : UInt64} (hne : id' ≠ id) :
    (c.unsubscribe id).feed id' active closedByHost = c.feed id' active closedByHost := by
  have herase : (c.eraseSink id).feed id' active closedByHost = c.feed id' active closedByHost :=
    feed_congr (by simp [mem_eraseSink, hne]) Iff.rfl Iff.rfl rfl rfl
  rw [unsubscribe]
  split
  · have hother : ClientFrame.unsubscribes id'
        (.request ((c.eraseSink id).unsubscribeRequest id)) = false := by
      rw [ClientFrame.unsubscribes_unsubscribeRequest]
      exact decide_eq_false hne.symm
    rw [← herase]
    exact feed_congr Iff.rfl Iff.rfl Iff.rfl rfl (filter_hand hother)
  · exact herase

theorem feed_unsubscribe :
    (c.unsubscribe id).feed id active closedByHost =
      { c.feed id active closedByHost with
        sink := false
        unsubscribes := (c.feed id active closedByHost).unsubscribes
          + if c.alive = true then 1 else 0 } := by
  have hsink : id ∉ (c.eraseSink id).sinks := by simp [mem_eraseSink]
  have hself :
    ClientFrame.unsubscribes id (.request ((c.eraseSink id).unsubscribeRequest id)) = true := by
    rw [ClientFrame.unsubscribes_unsubscribeRequest]
    exact decide_eq_true rfl
  rw [unsubscribe]
  by_cases halive : c.alive = true
  · rw [if_pos halive, if_pos (show (c.eraseSink id).alive = true from halive)]
    simp only [feed, hand, draw, List.filter_append, List.filter_cons_of_pos hself,
      List.filter_nil, List.length_append, List.length_singleton, hsink, decide_false]
    rfl
  · rw [if_neg halive, if_neg (show ¬ (c.eraseSink id).alive = true from halive)]
    simp only [feed, hsink, decide_false]
    rfl

end HandleConn

namespace Handles

section

variable {s s' : Handles} {a : Act} {c : ℕ} {key : HandleKey}

theorem setConn_conns_self (conn : HandleConn) : (s.setConn c conn).conns c = conn :=
  Function.update_self ..

theorem setConn_conns_of_ne {c' : ℕ} (hne : c' ≠ c) (conn : HandleConn) :
    (s.setConn c conn).conns c' = s.conns c' :=
  Function.update_of_ne hne ..

/-- A subscription does not notice what happens on its connection to others. -/
theorem feed_eq (conn : HandleConn) (hconns : s'.conns = (s.setConn c conn).conns)
    (hactive : s'.active key = s.active key)
    (hclosed : key ∈ s'.closedByHost ↔ key ∈ s.closedByHost)
    (hconn : ∀ x y, key.1 = c → conn.feed key.2 x y = (s.conns c).feed key.2 x y) :
    s'.feed key = s.feed key := by
  rw [feed, feed, hconns, hactive, decide_eq_decide.mpr hclosed]
  by_cases hc : key.1 = c
  · rw [hc, setConn_conns_self]
    exact hconn _ _ hc
  · rw [setConn_conns_of_ne hc]

theorem feed_subscribe {i : ℕ} {topic : Bytes} :
    (s.subscribe i c topic).feed key =
      if key = (c, (s.conns c).nextRequestId) then { s.feed key with active := true, sink := true }
      else s.feed key := by
  have hhanded :
    ∀ id, ((s.conns c).draw.hand (.request ((s.conns c).subscribeRequest topic))).handed.filter
      (ClientFrame.unsubscribes id) = (s.conns c).handed.filter (ClientFrame.unsubscribes id) :=
    fun id => HandleConn.filter_hand ClientFrame.unsubscribes_subscribeRequest
  by_cases hkey : key = (c, (s.conns c).nextRequestId)
  · subst hkey
    rw [if_pos rfl]
    simp only [feed, subscribe, setConn_conns_self, Function.update_self, HandleConn.feed, hhanded,
      List.mem_cons, true_or, decide_true]
    rfl
  · rw [if_neg hkey]
    refine feed_eq _ rfl (Function.update_of_ne hkey ..) Iff.rfl fun x y hc => ?_
    refine HandleConn.feed_congr ?_ Iff.rfl Iff.rfl rfl (hhanded _)
    have hid : key.2 ≠ (s.conns c).nextRequestId := fun hid => hkey (Prod.ext hc hid)
    simp [hid]

theorem feed_subscribeFails {topic : Bytes} : (s.subscribeFails c topic).feed key = s.feed key :=
  feed_eq _ rfl rfl Iff.rfl fun _ _ _ => HandleConn.feed_congr Iff.rfl Iff.rfl Iff.rfl rfl
    (HandleConn.filter_hand ClientFrame.unsubscribes_subscribeRequest)

theorem feed_unsubscribe (key' : HandleKey) :
    FeedStep (s.feed key) ((s.unsubscribe key').feed key) := by
  rw [unsubscribe]
  by_cases hactive : s.active key' = true
  · rw [if_pos hactive]
    by_cases hkey : key = key'
    · subst hkey
      have hstep := FeedStep.unsubscribe (v := s.feed key) hactive
      have heq : Handles.feed { s.setConn key.1 ((s.conns key.1).unsubscribe key.2) with
          active := Function.update s.active key false } key =
          { s.feed key with
            active := false, sink := false
            unsubscribes := (s.feed key).unsubscribes
              + if (s.feed key).alive = true then 1 else 0 } := by
        simp only [feed, setConn_conns_self, Function.update_self, HandleConn.feed_unsubscribe]
        rfl
      rw [heq]
      exact hstep
    · refine .of_eq (feed_eq _ rfl (Function.update_of_ne hkey ..) Iff.rfl fun x y hc => ?_)
      exact HandleConn.feed_unsubscribe_of_ne fun hid => hkey (Prod.ext hc hid)
  · rw [if_neg hactive]
    exact .same

theorem feed_hand_chunk {chunk : StreamChunkPayload} (hconns : s'.conns =
      (s.setConn c ((s.conns c).hand (.streamChunk chunk))).conns)
    (hactive : s'.active = s.active) (hclosed : s'.closedByHost = s.closedByHost) :
    s'.feed key = s.feed key :=
  feed_eq _ hconns (by rw [hactive]) (by rw [hclosed]) fun _ _ _ =>
    HandleConn.feed_congr Iff.rfl Iff.rfl Iff.rfl rfl (HandleConn.filter_hand rfl)

theorem feed_write {key' : HandleKey} {data : Bytes} :
    (s.write key' data).feed key = s.feed key := by
  rw [write]
  split
  · rfl
  · exact feed_hand_chunk rfl rfl rfl

theorem feed_finish {key' : HandleKey} : (s.finish key').feed key = s.feed key := by
  rw [finish]
  split
  · rfl
  · exact feed_hand_chunk rfl rfl rfl

theorem feed_draw (hconns : s'.conns = (s.setConn c (s.conns c).draw).conns)
    (hactive : s'.active = s.active) (hclosed : s'.closedByHost = s.closedByHost) :
    s'.feed key = s.feed key :=
  feed_eq _ hconns (by rw [hactive]) (by rw [hclosed]) fun _ _ _ =>
    HandleConn.feed_congr Iff.rfl Iff.rfl Iff.rfl rfl rfl

theorem idle_iff {conn : HandleConn} :
    idle conn = true ↔ (conn.closing = none ∧ conn.telling = []) ∧ conn.exited = false := by
  simp [idle]

theorem feed_lastChunk {id : UInt64} (hidle : idle (s.conns c) = true)
    (hsink : id ∈ (s.conns c).sinks) : FeedStep (s.feed key) ((s.lastChunk c id).feed key) := by
  obtain ⟨⟨hclosing, -⟩, -⟩ := idle_iff.mp hidle
  by_cases hkey : key = (c, id)
  · subst hkey
    have hstep := FeedStep.lastChunk (v := s.feed (c, id)) (decide_eq_true hsink)
    have heq : (s.lastChunk c id).feed (c, id) =
        { s.feed (c, id) with active := false, closing := true, closedByHost := true } := by
      simp only [feed, lastChunk, setConn_conns_self, Function.update_self, HandleConn.feed]
      simp
    rw [heq]
    exact hstep
  · refine .of_eq (feed_eq _ rfl (Function.update_of_ne hkey ..) ?_ fun x y hc => ?_)
    · simp [lastChunk, hkey, setConn]
    · have hid : id ≠ key.2 := fun hid => hkey (Prod.ext hc hid.symm)
      exact HandleConn.feed_congr Iff.rfl (by simp [hclosing, hid]) Iff.rfl rfl rfl

theorem feed_eraseLast {id : UInt64} (hclosing : (s.conns c).closing = some id) :
    FeedStep (s.feed key) ((s.eraseLast c id).feed key) := by
  by_cases hkey : key = (c, id)
  · subst hkey
    have hstep := FeedStep.eraseLast (v := s.feed (c, id)) (decide_eq_true hclosing)
    have heq : (s.eraseLast c id).feed (c, id) =
        { s.feed (c, id) with sink := false, closing := false } := by
      simp only [feed, eraseLast, setConn_conns_self, HandleConn.feed]
      simp [HandleConn.eraseSink, setConn]
    rw [heq]
    exact hstep
  · refine .of_eq (feed_eq _ rfl rfl Iff.rfl fun x y hc => ?_)
    have hid : key.2 ≠ id := fun hid => hkey (Prod.ext hc hid)
    refine HandleConn.feed_congr ?_ ?_ Iff.rfl rfl rfl
    · exact HandleConn.mem_eraseSink.trans (and_iff_left hid)
    · simp [hclosing, hid.symm]

theorem feed_refusal {id : UInt64} (hidle : idle (s.conns c) = true)
    (hsink : id ∈ (s.conns c).sinks) : FeedStep (s.feed key) ((s.refusal c id).feed key) := by
  obtain ⟨⟨-, htelling⟩, -⟩ := idle_iff.mp hidle
  by_cases hkey : key = (c, id)
  · subst hkey
    have hstep := FeedStep.refusal (v := s.feed (c, id)) (decide_eq_true hsink)
    have heq : (s.refusal c id).feed (c, id) =
        { s.feed (c, id) with sink := false, owed := true, closedByHost := true } := by
      simp only [feed, refusal, setConn_conns_self, HandleConn.feed]
      simp [HandleConn.eraseSink, setConn]
    rw [heq]
    exact hstep
  · refine .of_eq (feed_eq _ rfl rfl ?_ fun x y hc => ?_)
    · simp [refusal, hkey, setConn]
    · have hid : key.2 ≠ id := fun hid => hkey (Prod.ext hc hid)
      refine HandleConn.feed_congr ?_ Iff.rfl ?_ rfl rfl
      · exact HandleConn.mem_eraseSink.trans (and_iff_left hid)
      · simp [htelling, hid]

theorem feed_tell {id : UInt64} {rest : List UInt64} (htelling : (s.conns c).telling = id :: rest) :
    FeedStep (s.feed key) ((s.tell c id rest).feed key) := by
  by_cases hkey : key = (c, id)
  · subst hkey
    have howed : (s.feed (c, id)).owed = true := by
      refine decide_eq_true ?_
      rw [htelling]
      exact List.mem_cons_self
    have hstep := FeedStep.tell (v := s.feed (c, id)) (decide (id ∈ rest)) howed
    have heq : (s.tell c id rest).feed (c, id) =
        { s.feed (c, id) with active := false, owed := decide (id ∈ rest) } := by
      simp only [feed, tell, setConn_conns_self, Function.update_self, HandleConn.feed]
      rfl
    rw [heq]
    exact hstep
  · refine .of_eq (feed_eq _ rfl (Function.update_of_ne hkey ..) Iff.rfl fun x y hc => ?_)
    have hid : key.2 ≠ id := fun hid => hkey (Prod.ext hc hid)
    exact HandleConn.feed_congr Iff.rfl Iff.rfl (by simp [htelling, hid]) rfl rfl

theorem feed_die :
    FeedStep (s.feed key) ((s.setConn c { s.conns c with alive := false }).feed key) := by
  by_cases hc : key.1 = c
  · subst hc
    have heq : (s.setConn key.1 { s.conns key.1 with alive := false }).feed key =
        { s.feed key with alive := false } := by
      simp only [feed, setConn_conns_self, HandleConn.feed]
      rfl
    rw [heq]
    exact .die
  · exact .of_eq (feed_eq _ rfl rfl Iff.rfl fun _ _ hc' => absurd hc' hc)

theorem feed_sweep (halive : (s.conns c).alive = false) :
    FeedStep (s.feed key) ((s.sweep c).feed key) := by
  by_cases hc : key.1 = c
  · subst hc
    have heq :
      (s.sweep key.1).feed key = { s.feed key with sink := false, owed := (s.feed key).sink } := by
      simp only [feed, sweep, setConn_conns_self, HandleConn.feed, List.not_mem_nil, decide_false]
      rfl
    rw [heq]
    exact .sweep halive
  · exact .of_eq (feed_eq _ rfl rfl Iff.rfl fun _ _ hc' => absurd hc' hc)

theorem output_eq (conn : HandleConn) (hconns : s'.conns = (s.setConn c conn).conns)
    (hstreams : s'.streams key = s.streams key) (hwrites : s'.writes key = s.writes key)
    (hconn : key.1 = c → conn.handed.filterMap (ClientFrame.chunkOf key.2)
      = (s.conns c).handed.filterMap (ClientFrame.chunkOf key.2)) :
    s'.output key = s.output key := by
  rw [output, output, hconns, hstreams, hwrites]
  by_cases hc : key.1 = c
  · rw [hc, setConn_conns_self, hconn hc]
  · rw [setConn_conns_of_ne hc]

theorem filterMap_hand {conn : HandleConn} {f : ClientFrame} {id : UInt64}
    (hf : f.chunkOf id = none) :
    (conn.hand f).handed.filterMap (ClientFrame.chunkOf id)
      = conn.handed.filterMap (ClientFrame.chunkOf id) := by
  rw [HandleConn.hand, List.filterMap_append, List.filterMap_cons_none hf]
  exact List.append_nil _

theorem filterMap_hand_chunk (conn : HandleConn) (chunk : StreamChunkPayload) :
    (conn.hand (.streamChunk chunk)).handed.filterMap (ClientFrame.chunkOf chunk.requestId)
      = conn.handed.filterMap (ClientFrame.chunkOf chunk.requestId) ++ [chunk] := by
  have hself : (ClientFrame.streamChunk chunk).chunkOf chunk.requestId = some chunk := if_pos rfl
  rw [HandleConn.hand, List.filterMap_append, List.filterMap_cons_some hself]
  rfl

theorem chunkOf_of_ne {id : UInt64} {isLast : Bool} {data : Bytes} (hne : key.2 ≠ id) :
    (ClientFrame.streamChunk (s.chunk key isLast data)).chunkOf id = none :=
  if_neg hne

theorem output_write_of_ne {key' : HandleKey} {data : Bytes} (hne : key ≠ key') :
    (s.write key' data).output key = s.output key := by
  rw [write]
  split
  · rfl
  · exact output_eq _ rfl (Function.update_of_ne hne ..) (Function.update_of_ne hne ..) fun hc =>
      filterMap_hand (chunkOf_of_ne fun hid => hne (Prod.ext hc hid.symm))

theorem output_finish_of_ne {key' : HandleKey} (hne : key ≠ key') :
    (s.finish key').output key = s.output key := by
  rw [finish]
  split
  · rfl
  · exact output_eq _ rfl (Function.update_of_ne hne ..) rfl fun hc =>
      filterMap_hand (chunkOf_of_ne fun hid => hne (Prod.ext hc hid.symm))

theorem output_write {key' : HandleKey} {data : Bytes} (hlt : s.writes key' + 1 < 2 ^ 32) :
    OutputStep (s.output key) ((s.write key' data).output key) := by
  by_cases hkey : key = key'
  · subst hkey
    rw [write]
    split
    · exact .same
    · next hfinished =>
      have hchunks := filterMap_hand_chunk (s.conns key.1) (s.chunk key false data)
      have hstep := OutputStep.write (v := s.output key) (s.chunk key false data)
        (Bool.not_eq_true _ ▸ hfinished) hlt rfl
      simp only [output, setConn_conns_self, Function.update_self]
      rw [show key.2 = (s.chunk key false data).requestId from rfl, hchunks]
      exact hstep
  · exact .of_eq (output_write_of_ne hkey)

theorem output_finish {key' : HandleKey} :
    OutputStep (s.output key) ((s.finish key').output key) := by
  by_cases hkey : key = key'
  · subst hkey
    rw [finish]
    split
    · exact .same
    · next hfinished =>
      have hchunks := filterMap_hand_chunk (s.conns key.1) (s.chunk key true [])
      have hstep := OutputStep.finish (v := s.output key) (s.chunk key true [])
        (Bool.not_eq_true _ ▸ hfinished) rfl rfl
      simp only [output, setConn_conns_self, Function.update_self]
      rw [show key.2 = (s.chunk key true []).requestId from rfl, hchunks]
      exact hstep
  · exact .of_eq (output_finish_of_ne hkey)

theorem finish_finished : ((s.finish key).streams key).finished = true := by
  rw [finish]
  by_cases hfinished : (s.streams key).finished = true
  · rw [if_pos hfinished]
    exact hfinished
  · rw [if_neg hfinished]
    simp only [Function.update_self]

/-- Nothing but `open_stream`, `write` and `finish` concerns output streams. -/
theorem output_of_requests (conn : HandleConn) (hconns : s'.conns = (s.setConn c conn).conns)
    (hstreams : s'.streams = s.streams) (hwrites : s'.writes = s.writes)
    (hhanded : conn.handed = (s.conns c).handed ∨
      ∃ req, conn.handed = (s.conns c).handed ++ [.request req]) :
    s'.output key = s.output key := by
  refine output_eq conn hconns (by rw [hstreams]) (by rw [hwrites]) fun _ => ?_
  rcases hhanded with heq | ⟨req, heq⟩
  · rw [heq]
  · rw [heq, List.filterMap_append, List.filterMap_cons_none rfl]
    exact List.append_nil _

theorem output_unsubscribe (key' : HandleKey) : (s.unsubscribe key').output key = s.output key := by
  rw [unsubscribe]
  split
  · refine output_of_requests ((s.conns key'.1).unsubscribe key'.2) rfl rfl rfl ?_
    rw [HandleConn.unsubscribe]
    split
    · exact Or.inr ⟨_, rfl⟩
    · exact Or.inl rfl
  · rfl

/-! ### What a step can do -/

/-- One constructor for each way a step can go. -/
inductive Effect (s : Handles) : Act → Handles → Prop
  | subscribed {i c : ℕ} {topic : Bytes} : s.subscriptions i = none →
      Effect s (.subscribe i c topic) (s.subscribe i c topic)
  | subscribeFailed {c : ℕ} {topic : Bytes} :
      Effect s (.subscribeFails c topic) (s.subscribeFails c topic)
  | emptied {i : ℕ} : s.subscriptions i = none →
      Effect s (.empty i) { s with subscriptions := construct s.subscriptions i none }
  | moved {a : Act} {dst src : ℕ} :
      (a = .moveConstruct dst src ∧ s.subscriptions dst = none) ∨ a = .moveAssign dst src →
      Effect s a { s with subscriptions := moveTo s.subscriptions dst src }
  | unsubscribed {i : ℕ} {key : HandleKey} : s.subscriptions i = some (some key) →
      Effect s (.unsubscribe i) (s.unsubscribe key)
  | destroyed {i : ℕ} {key : HandleKey} : s.subscriptions i = some (some key) →
      Effect s (.destroy i) { s.unsubscribe key with subscriptions := destroy s.subscriptions i }
  | destroyedEmpty {i : ℕ} : s.subscriptions i = some none →
      Effect s (.destroy i) { s with subscriptions := destroy s.subscriptions i }
  | opened {i c : ℕ} {endpoint : Bytes} : s.outputs i = none →
      Effect s (.openStream i c endpoint) (s.openStream i c endpoint)
  | movedStream {a : Act} {dst src : ℕ} :
      (a = .moveConstructStream dst src ∧ s.outputs dst = none) ∨ a = .moveAssignStream dst src →
      Effect s a { s with outputs := moveTo s.outputs dst src }
  | wrote {i : ℕ} {key : HandleKey} {data : Bytes} : s.outputs i = some (some key) →
      Effect s (.write i data) (s.write key data)
  | finished {i : ℕ} {key : HandleKey} : s.outputs i = some (some key) →
      Effect s (.finish i) (s.finish key)
  | destroyedStream {i : ℕ} {key : HandleKey} : s.outputs i = some (some key) →
      Effect s (.destroyStream i) { s.finish key with outputs := destroy s.outputs i }
  | destroyedEmptyStream {i : ℕ} : s.outputs i = some none →
      Effect s (.destroyStream i) { s with outputs := destroy s.outputs i }
  /-- An operation on an empty handle. -/
  | nothing {a : Act} : Effect s a s
  | drew {c : ℕ} : Effect s (.drawOther c) (s.setConn c (s.conns c).draw)
  | lastChunk {c : ℕ} {id : UInt64} : idle (s.conns c) = true → id ∈ (s.conns c).sinks →
      Effect s (.lastChunk c id) (s.lastChunk c id)
  | erasedLast {c : ℕ} {id : UInt64} : (s.conns c).closing = some id →
      Effect s (.eraseLast c) (s.eraseLast c id)
  | refused {c : ℕ} {id : UInt64} : idle (s.conns c) = true → id ∈ (s.conns c).sinks →
      Effect s (.refusal c id) (s.refusal c id)
  | told {c : ℕ} {id : UInt64} {rest : List UInt64} : (s.conns c).telling = id :: rest →
      Effect s (.tell c) (s.tell c id rest)
  | died {c : ℕ} : Effect s (.die c) (s.setConn c { s.conns c with alive := false })
  | swept {c : ℕ} : (s.conns c).alive = false → Effect s (.sweep c) (s.sweep c)

theorem effect_of_step (h : s.Step a s') : Effect s a s' := by
  have h : s.step a = some s' := h
  cases a with
  | subscribe i c topic =>
    simp only [step] at h
    split at h
    · next hi =>
      cases h
      exact .subscribed hi
    · cases h
  | subscribeFails c topic =>
    cases h
    exact .subscribeFailed
  | empty i =>
    simp only [step] at h
    split at h
    · next hi =>
      cases h
      exact .emptied hi
    · cases h
  | moveConstruct dst src =>
    simp only [step] at h
    split at h
    · next hdst _ =>
      cases h
      exact .moved (Or.inl ⟨rfl, hdst⟩)
    · cases h
  | moveAssign dst src =>
    simp only [step] at h
    split at h
    · cases h
      exact .moved (Or.inr rfl)
    · cases h
  | unsubscribe i =>
    simp only [step] at h
    split at h
    · next hi =>
      cases h
      exact .unsubscribed hi
    · cases h
      exact .nothing
    · cases h
  | destroy i =>
    simp only [step] at h
    split at h
    · next hi =>
      cases h
      exact .destroyed hi
    · next hi =>
      cases h
      exact .destroyedEmpty hi
    · cases h
  | openStream i c endpoint =>
    simp only [step] at h
    split at h
    · next hi =>
      cases h
      exact .opened hi
    · cases h
  | moveConstructStream dst src =>
    simp only [step] at h
    split at h
    · next hdst _ =>
      cases h
      exact .movedStream (Or.inl ⟨rfl, hdst⟩)
    · cases h
  | moveAssignStream dst src =>
    simp only [step] at h
    split at h
    · cases h
      exact .movedStream (Or.inr rfl)
    · cases h
  | write i data =>
    simp only [step] at h
    split at h
    · next hi =>
      cases h
      exact .wrote hi
    · cases h
      exact .nothing
    · cases h
  | finish i =>
    simp only [step] at h
    split at h
    · next hi =>
      cases h
      exact .finished hi
    · cases h
      exact .nothing
    · cases h
  | destroyStream i =>
    simp only [step] at h
    split at h
    · next hi =>
      cases h
      exact .destroyedStream hi
    · next hi =>
      cases h
      exact .destroyedEmptyStream hi
    · cases h
  | drawOther c =>
    cases h
    exact .drew
  | lastChunk c id =>
    obtain ⟨⟨hidle, hsink⟩, heq⟩ := Option.ite_none_right_eq_some.mp h
    cases heq
    exact .lastChunk hidle hsink
  | eraseLast c =>
    simp only [step] at h
    split at h
    · next hclosing =>
      cases h
      exact .erasedLast hclosing
    · cases h
  | refusal c id =>
    obtain ⟨⟨hidle, hsink⟩, heq⟩ := Option.ite_none_right_eq_some.mp h
    cases heq
    exact .refused hidle hsink
  | tell c =>
    simp only [step] at h
    split at h
    · next htelling =>
      cases h
      exact .told htelling
    · cases h
  | die c =>
    cases h
    exact .died
  | sweep c =>
    obtain ⟨⟨-, halive⟩, heq⟩ := Option.ite_none_right_eq_some.mp h
    cases heq
    exact .swept halive

/-- On the connection it concerns, an operation keeps the ids or draws one more. -/
theorem mem_drawn (conn : HandleConn) {c' : ℕ} {id : UInt64}
    (hconns : s'.conns = (s.setConn c conn).conns)
    (hdrawn : conn.drawn = (s.conns c).drawn ∨
      conn.drawn = (s.conns c).drawn ++ [(s.conns c).nextRequestId])
    (hid : id ∈ (s.conns c').drawn) : id ∈ (s'.conns c').drawn := by
  rw [hconns]
  by_cases hc : c' = c
  · subst hc
    rw [setConn_conns_self]
    rcases hdrawn with heq | heq
    · rw [heq]
      exact hid
    · rw [heq]
      exact List.mem_append_left _ hid
  · rw [setConn_conns_of_ne hc]
    exact hid

theorem mem_drawn_unsubscribe {id : UInt64} (hid : id ∈ (s.conns c).drawn) :
    id ∈ ((s.unsubscribe key).conns c).drawn := by
  rw [unsubscribe]
  split
  · refine mem_drawn ((s.conns key.1).unsubscribe key.2) rfl ?_ hid
    rw [HandleConn.unsubscribe]
    split
    · exact Or.inr rfl
    · exact Or.inl rfl
  · exact hid

theorem mem_drawn_finish {id : UInt64} (hid : id ∈ (s.conns c).drawn) :
    id ∈ ((s.finish key).conns c).drawn := by
  rw [finish]
  split
  · exact hid
  · exact mem_drawn _ rfl (Or.inl rfl) hid

theorem mem_drawn_write {data : Bytes} {id : UInt64} (hid : id ∈ (s.conns c).drawn) :
    id ∈ ((s.write key data).conns c).drawn := by
  rw [write]
  split
  · exact hid
  · exact mem_drawn _ rfl (Or.inl rfl) hid

theorem drawn_step (h : s.Step a s') {id : UInt64} (hid : id ∈ (s.conns c).drawn) :
    id ∈ (s'.conns c).drawn := by
  cases effect_of_step h with
  | subscribed _ | subscribeFailed | opened _ | drew => exact mem_drawn _ rfl (Or.inr rfl) hid
  | emptied _ | moved _ | destroyedEmpty _ | movedStream _ | destroyedEmptyStream _ | nothing =>
    exact hid
  | unsubscribed _ => exact mem_drawn_unsubscribe hid
  | destroyed _ => exact mem_drawn_unsubscribe hid
  | wrote _ => exact mem_drawn_write hid
  | finished _ => exact mem_drawn_finish hid
  | destroyedStream _ => exact mem_drawn_finish hid
  | lastChunk _ _ | erasedLast _ | refused _ _ | told _ | died | swept _ =>
    exact mem_drawn _ rfl (Or.inl rfl) hid

end

end Handles

end Epx
