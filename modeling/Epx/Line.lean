import Epx.ClientInertFrames
import Epx.Handles
import Epx.Session.Agreement

/-!
# What a client writes

`get`, `get_stream`, `subscribe`, `send`, `unsubscribe` and the methods of `OutputStream` of
`src/client.cpp` on one connection, down to the bytes that they put on its stream. `ClientSide` has
the reader, the calls and the senders of a connection side by side; here the frame that a sender
seals is the request of a call, a request of `send` or `unsubscribe`, or a chunk of an output
stream. A sender makes its payload before it takes `write_mutex`. An output stream belongs to one
thread, so that its counter moves in the step in which the mutex is taken.

## Main definitions

* `OutputStream` — an `OutputStream` with the data that it was given
* `Line`, `Line.step` — a client connection with what it writes
* `Line.Effect` — one constructor for each way a step can go

## Main results

* `Line.effect_of_step`
-/

namespace Epx

open Codec Transition

/-- The payload of a frame that a client sends. -/
def ClientFrame.content : ClientFrame → FrameType × Bytes
  | .request req => (.request, encodeRequest req)
  | .streamChunk chunk => (.streamChunk, encodeStreamChunk chunk)

/-- `OutputStream`, and what was passed to `write`. -/
structure OutputStream where
  requestId : UInt64
  impl : OutputImpl
  written : List Bytes := []

namespace OutputStream

/-- The payload of `write` and `finish`. -/
def chunk (o : OutputStream) (isLast : Bool) (data : Bytes) : StreamChunkPayload :=
  { requestId := o.requestId, seq := o.impl.seq, isLast := isLast
    endpoint := o.impl.endpoint, data := data }

/-- After a `write`. -/
def wrote (o : OutputStream) (data : Bytes) : OutputStream :=
  { o with impl := { o.impl with seq := o.impl.seq + 1 }, written := o.written ++ [data] }

/-- After `finish`. -/
def finish (o : OutputStream) : OutputStream :=
  { o with impl := { o.impl with seq := o.impl.seq + 1, finished := true } }

end OutputStream

/-- What the holder of `write_mutex` sends, and the call that it sends it for. -/
structure Sending where
  frame : ClientFrame
  call : Option ℕ := none

/-- A client connection with what it writes. -/
structure Line where
  side : ClientSide
  /-- The endpoint and the data that a call asks with. -/
  asked : ℕ → Bytes × Bytes := fun _ => ([], [])
  /-- The requests of `send` and `unsubscribe` that are still to be sealed. -/
  unsent : List RequestPayload := []
  outputs : List OutputStream := []
  sending : Option Sending := none
  /-- What was sealed, in this order. -/
  sent : List ClientFrame := []
  /-- What was written and not read by the host. -/
  toHost : Bytes := []

/-- A step that has to do with what is written. -/
def ClientSide.Act.submits : ClientSide.Act → Bool
  | .write _ => true
  | .call (.lookup _ _) | .call (.send _ _) | .call (.unsubscribeReturn _)
  | .call .drawOther => true
  | _ => false

namespace Line

/-- What a sender is about to send. -/
inductive Submission where
  /-- The request of a call. -/
  | call (i : ℕ)
  /-- One of the requests that are still to be sealed. -/
  | unsent (k : ℕ)
  | write (k : ℕ) (data : Bytes)
  | finish (k : ℕ)

inductive Act where
  | side (a : ClientSide.Act)
  /-- `get`, `get_stream` or `subscribe`. -/
  | ask (i : ℕ) (kind : AskKind) (endpoint data : Bytes)
  /-- `send`. -/
  | post (endpoint data : Bytes)
  | openStream (endpoint : Bytes)
  /-- `unsubscribe`, called as number `j`, tells the host. -/
  | unsubscribeReturn (j : ℕ)
  | acquire (what : Submission) (now : ℕ) (eph : EphemeralKeyPair) (ok : Bool)
  | storeEph
  | setInProgress
  | sendOwn (ok : Bool)

/-- The line that `get_or_connect` sets up. -/
def start (eph : EphemeralKeyPair) (hs : HandshakeResult) (rotation : RotationPolicy) (now : ℕ) :
    Line :=
  { side := .start eph hs rotation now [] }

/-- The request of a call. -/
def request (s : Line) (i : ℕ) (id : UInt64) : RequestPayload :=
  { requestId := id, oneway := false, endpoint := (s.asked i).1, data := (s.asked i).2 }

/-- The request of `unsubscribe`. -/
def unsubscribeRequest (s : Line) (id : UInt64) : RequestPayload :=
  { requestId := s.side.calls.nextRequestId, oneway := true, endpoint := kUnsubscribeEndpoint
    data := putU64 id }

def withCalls (s : Line) (k : ClientCalls) : Line := { s with side := { s.side with calls := k } }

/-- A step of a sender, and the bytes that it writes. -/
def withConn (s : Line) (p : Connection × Option RawFrame) : Line :=
  { s with
    side := { s.side with conn := p.1 }
    toHost := s.toHost ++ p.2.toList.flatMap (writeFrame s.side.v2) }

/-- The payload is made. -/
def submit (s : Line) : Submission → Option (Line × Sending)
  | .call i =>
    match s.side.calls.calls i with
    | .registered _ id => some (s, ⟨.request (s.request i id), some i⟩)
    | _ => none
  | .unsent k =>
    match s.unsent[k]? with
    | some req => some ({ s with unsent := s.unsent.eraseIdx k }, ⟨.request req, none⟩)
    | none => none
  | .write k data =>
    match s.outputs[k]? with
    | some o =>
      if o.impl.finished = true then none
      else some ({ s with outputs := s.outputs.set k (o.wrote data) },
        ⟨.streamChunk (o.chunk false data), none⟩)
    | none => none
  | .finish k =>
    match s.outputs[k]? with
    | some o =>
      if o.impl.finished = true then none
      else some ({ s with outputs := s.outputs.set k o.finish },
        ⟨.streamChunk (o.chunk true []), none⟩)
    | none => none

/-- The call whose request was sealed goes on. -/
def told (k : ClientCalls) (ok : Bool) : Option ℕ → Option ClientCalls
  | none => some k
  | some i => k.step (.send i ok)

def step (S : Sodium) (s : Line) : Act → Option Line
  | .side a =>
    if a.submits = true then none else (s.side.step S a).map fun side => { s with side := side }
  | .ask i kind endpoint data =>
    (s.side.calls.step (.lookup i kind)).map fun k =>
      { s.withCalls k with asked := Function.update s.asked i (endpoint, data) }
  | .post endpoint data =>
    (s.side.calls.step .drawOther).map fun k =>
      { s.withCalls k with
        unsent := s.unsent ++ [{ requestId := s.side.calls.nextRequestId, oneway := true
                                 endpoint := endpoint, data := data }] }
  | .openStream endpoint =>
    (s.side.calls.step .drawOther).map fun k =>
      { s.withCalls k with
        outputs := s.outputs ++ [⟨s.side.calls.nextRequestId, { endpoint := endpoint }, []⟩] }
  | .unsubscribeReturn j =>
    match s.side.calls.calls j with
    | .unsubscribeErased i =>
      match (s.side.calls.calls i).handle with
      | some id =>
        (s.side.calls.step (.unsubscribeReturn j)).map fun k =>
          { s.withCalls k with
            unsent := s.unsent ++
              if s.side.calls.alive = true then [s.unsubscribeRequest id] else [] }
      | none => none
    | _ => none
  | .acquire what now eph ok =>
    match s.submit what with
    | some (s', x) =>
      (s'.side.conn.step S (.acquire x.frame.content.1 x.frame.content.2 now eph ok)).map fun p =>
        { s'.withConn p with sending := some x }
    | none => none
  | .storeEph => (s.side.conn.step S .storeEph).map s.withConn
  | .setInProgress => (s.side.conn.step S .setInProgress).map s.withConn
  | .sendOwn ok =>
    match s.sending with
    | some x =>
      match s.side.conn.step S (.sendOwn ok), told s.side.calls ok x.call with
      | some p, some k =>
        some { (s.withCalls k).withConn p with sending := none, sent := s.sent ++ [x.frame] }
      | _, _ => none
    | none => none

/-- The steps of a client connection. -/
def Step (S : Sodium) : Line → Act → Line → Prop := OfFun (step S)

/-! ### What a step can do -/

/-- One constructor for each way the payload can be made. -/
inductive Submits (s : Line) : Line → Sending → Prop
  | call {i : ℕ} {kind : AskKind} {id : UInt64} : s.side.calls.calls i = .registered kind id →
      Submits s s ⟨.request (s.request i id), some i⟩
  | unsent {k : ℕ} {req : RequestPayload} : s.unsent[k]? = some req →
      Submits s { s with unsent := s.unsent.eraseIdx k } ⟨.request req, none⟩
  | write {k : ℕ} {o : OutputStream} {data : Bytes} : s.outputs[k]? = some o →
      o.impl.finished = false →
      Submits s { s with outputs := s.outputs.set k (o.wrote data) }
        ⟨.streamChunk (o.chunk false data), none⟩
  | finish {k : ℕ} {o : OutputStream} : s.outputs[k]? = some o → o.impl.finished = false →
      Submits s { s with outputs := s.outputs.set k o.finish }
        ⟨.streamChunk (o.chunk true []), none⟩

/-- One constructor for each way a step can go. -/
inductive Effect (S : Sodium) (s : Line) : Act → Line → Prop
  | side {a : ClientSide.Act} {side : ClientSide} : a.submits = false →
      ClientSide.Step S s.side a side → Effect S s (.side a) { s with side := side }
  | asked {i : ℕ} {kind : AskKind} {endpoint data : Bytes} {k : ClientCalls} :
      s.side.calls.Step (.lookup i kind) k →
      Effect S s (.ask i kind endpoint data)
        { s.withCalls k with asked := Function.update s.asked i (endpoint, data) }
  | posted {endpoint data : Bytes} :
      Effect S s (.post endpoint data)
        { s.withCalls s.side.calls.draw with
          unsent := s.unsent ++ [{ requestId := s.side.calls.nextRequestId, oneway := true
                                   endpoint := endpoint, data := data }] }
  | opened {endpoint : Bytes} :
      Effect S s (.openStream endpoint)
        { s.withCalls s.side.calls.draw with
          outputs := s.outputs ++ [⟨s.side.calls.nextRequestId, { endpoint := endpoint }, []⟩] }
  | unsubscribed {j : ℕ} {k : ClientCalls} : s.side.calls.Step (.unsubscribeReturn j) k →
      k.drawn = s.side.calls.drawn →
      Effect S s (.unsubscribeReturn j) (s.withCalls k)
  | told {j : ℕ} {id : UInt64} {k : ClientCalls} : s.side.calls.Step (.unsubscribeReturn j) k →
      k.drawn = s.side.calls.drawn ++ [s.side.calls.nextRequestId] →
      Effect S s (.unsubscribeReturn j)
        { s.withCalls k with unsent := s.unsent ++ [s.unsubscribeRequest id] }
  | acquired {what : Submission} {now : ℕ} {eph : EphemeralKeyPair} {ok : Bool} {s' : Line}
      {x : Sending} {p : Connection × Option RawFrame} : s.Submits s' x →
      s.side.conn.step S (.acquire x.frame.content.1 x.frame.content.2 now eph ok) = some p →
      Effect S s (.acquire what now eph ok) { s'.withConn p with sending := some x }
  | stored {p : Connection × Option RawFrame} : s.side.conn.step S .storeEph = some p →
      Effect S s .storeEph (s.withConn p)
  | offered {p : Connection × Option RawFrame} : s.side.conn.step S .setInProgress = some p →
      Effect S s .setInProgress (s.withConn p)
  | sent {ok : Bool} {x : Sending} {p : Connection × Option RawFrame} {k : ClientCalls} :
      s.sending = some x → s.side.conn.step S (.sendOwn ok) = some p →
      told s.side.calls ok x.call = some k →
      Effect S s (.sendOwn ok)
        { (s.withCalls k).withConn p with sending := none, sent := s.sent ++ [x.frame] }

section

variable {S : Sodium} {s s' : Line} {a : Act}

theorem submits_of_submit {what : Submission} {x : Sending} (h : s.submit what = some (s', x)) :
    s.Submits s' x := by
  cases what with
  | call i =>
    simp only [submit] at h
    split at h
    · next kind id hcall =>
      cases h
      exact .call hcall
    · cases h
  | unsent k =>
    simp only [submit] at h
    split at h
    · next req hreq =>
      cases h
      exact .unsent hreq
    · cases h
  | write k data =>
    simp only [submit] at h
    split at h
    · next o ho =>
      obtain ⟨hopen, heq⟩ := Option.ite_none_left_eq_some.mp h
      cases heq
      exact .write ho (Bool.eq_false_of_not_eq_true hopen)
    · cases h
  | finish k =>
    simp only [submit] at h
    split at h
    · next o ho =>
      obtain ⟨hopen, heq⟩ := Option.ite_none_left_eq_some.mp h
      cases heq
      exact .finish ho (Bool.eq_false_of_not_eq_true hopen)
    · cases h

/-- Making a payload leaves the connection and its stream alone. -/
theorem Submits.side_eq {x : Sending} (h : s.Submits s' x) : s'.side = s.side := by
  cases h <;> rfl

theorem Submits.toHost_eq {x : Sending} (h : s.Submits s' x) : s'.toHost = s.toHost := by
  cases h <;> rfl

theorem effect_of_step (h : Step S s a s') : Effect S s a s' := by
  rw [Step, OfFun] at h
  cases a with
  | side a =>
    obtain ⟨hquiet, h⟩ := Option.ite_none_left_eq_some.mp h
    obtain ⟨side, hside, rfl⟩ := Option.map_eq_some_iff.mp h
    exact .side (Bool.eq_false_of_not_eq_true hquiet) hside
  | ask i kind endpoint data =>
    obtain ⟨k, hk, rfl⟩ := Option.map_eq_some_iff.mp h
    exact .asked hk
  | post endpoint data =>
    cases h
    exact .posted
  | openStream endpoint =>
    cases h
    exact .opened
  | unsubscribeReturn j =>
    simp only [step] at h
    split at h
    · next i hcall =>
      split at h
      · next id hhandle =>
        obtain ⟨k, hk, rfl⟩ := Option.map_eq_some_iff.mp h
        have hfun := hk
        simp only [ClientCalls.step, hcall, Option.some.injEq] at hfun
        by_cases halive : s.side.calls.alive = true
        · rw [if_pos halive] at hfun ⊢
          refine .told hk ?_
          rw [← hfun]
          rfl
        · rw [if_neg halive] at hfun
          rw [if_neg halive, List.append_nil]
          refine .unsubscribed hk ?_
          rw [← hfun]
          rfl
      · cases h
    · cases h
  | acquire what now eph ok =>
    simp only [step] at h
    split at h
    · next s₁ x hsubmit =>
      obtain ⟨p, hp, rfl⟩ := Option.map_eq_some_iff.mp h
      have hsubmits := submits_of_submit hsubmit
      rw [hsubmits.side_eq] at hp
      exact .acquired hsubmits hp
    · cases h
  | storeEph =>
    obtain ⟨p, hp, rfl⟩ := Option.map_eq_some_iff.mp h
    exact .stored hp
  | setInProgress =>
    obtain ⟨p, hp, rfl⟩ := Option.map_eq_some_iff.mp h
    exact .offered hp
  | sendOwn ok =>
    simp only [step] at h
    split at h
    · next x hx =>
      split at h
      · next p k hp hk =>
        cases h
        exact .sent hx hp hk
      · cases h
    · cases h

end

end Line

end Epx
