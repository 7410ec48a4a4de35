import Epx.HostLoop
import Epx.ProtocolGrammar
import Epx.Session.Channel

/-!
# What a host connection has written, and about which request

The frames that a connection has written, unsealed. A write that fails is the last one, because it
clears `alive`; and so the frames that were written are those of the first calls of `seal`, as many
as there are frames.

RESPONSE and STREAM_CHUNK frames start with a request id. A pass through the loop that handles a
request writes about the id of that request only, and one that adds a subscription writes nothing.

## Main definitions

* `LoopState.written` — the types and plaintexts of the frames written so far
* `LoopState.Synced` — the frames written are those of the first calls of `seal`
* `mentions`, `requestIds` — the request ids in what is written and in what is received
* `Exchange` — what a pass receives and writes

## Main results

* `exchange_pass`
-/

namespace Epx

open Codec Exception

/-! ### What was written -/

namespace LoopState

/-- The frames that are not in the clear. -/
def sealedOut (st : LoopState) : List RawFrame := st.out.filter fun f => !isCleartext f.type

/-- The calls of `seal` whose frames were written. -/
def writtenCalls (st : LoopState) : List SealCall := st.conn.sealed.take st.sealedOut.length

/-- What was written, in the order in which it was. -/
def written (st : LoopState) : List (FrameType × Bytes) := st.writtenCalls.map SealCall.content

/-- The frames that were written are those of the first calls of `seal`; and of all calls while the
connection is alive. -/
structure Synced (S : Sodium) (st : LoopState) : Prop where
  frames : st.sealedOut = st.writtenCalls.map fun x => x.frame S st.conn.v2
  alive : st.conn.alive = true → st.sealedOut.length = st.conn.sealed.length

variable {S : Sodium} {st st' : LoopState}

theorem Synced.length_le (h : st.Synced S) : st.sealedOut.length ≤ st.conn.sealed.length := by
  have hlen := congrArg List.length h.frames
  rw [List.length_map, writtenCalls, List.length_take] at hlen
  omega

/-- From `st` to `st'` the contents were written, and no frame was received. -/
structure Writes (S : Sodium) (st st' : LoopState) (contents : List (FrameType × Bytes)) :
    Prop where
  opened : st'.conn.opened = st.conn.opened
  synced : st.Synced S → st'.Synced S
  written : st.Synced S → st'.written = st.written ++ contents

theorem Writes.trans {st'' : LoopState} {xs ys : List (FrameType × Bytes)}
    (h : Writes S st st' xs) (h' : Writes S st' st'' ys) : Writes S st st'' (xs ++ ys) where
  opened := h'.opened.trans h.opened
  synced hs := h'.synced (h.synced hs)
  written hs := by rw [h'.written (h.synced hs), h.written hs, List.append_assoc]

/-- Nothing is sealed, and nothing but cleartext is written. -/
theorem Writes.quiet (hv2 : st'.conn.v2 = st.conn.v2) (hopened : st'.conn.opened = st.conn.opened)
    (hsealed : st'.conn.sealed = st.conn.sealed) (hout : st'.sealedOut = st.sealedOut)
    (halive : st'.conn.alive = true → st.conn.alive = true) : Writes S st st' [] := by
  have hcalls : st'.writtenCalls = st.writtenCalls := by
    rw [writtenCalls, writtenCalls, hsealed, hout]
  refine ⟨hopened, fun hs => ⟨?_, fun ha => ?_⟩, fun _ => ?_⟩
  · rw [hout, hcalls, hv2]
    exact hs.frames
  · rw [hout, hsealed]
    exact hs.alive (halive ha)
  · rw [LoopState.written, LoopState.written, hcalls, List.append_nil]

/-- A frame is sealed and written. -/
theorem Writes.frame {x : SealCall} (hv2 : st'.conn.v2 = st.conn.v2)
    (hopened : st'.conn.opened = st.conn.opened) (halive : st.conn.alive = true)
    (hsealed : st'.conn.sealed = st.conn.sealed ++ [x])
    (hout : st'.out = st.out ++ [x.frame S st.conn.v2]) (hclear : isCleartext x.type = false) :
    Writes S st st' [x.content] := by
  have hframes : st'.sealedOut = st.sealedOut ++ [x.frame S st.conn.v2] := by
    rw [sealedOut, hout, List.filter_append, List.filter_cons_of_pos (by simp [hclear]),
      List.filter_nil, sealedOut]
  have hcalls : st.Synced S → st.writtenCalls = st.conn.sealed ∧
      st'.writtenCalls = st.conn.sealed ++ [x] := by
    intro hs
    constructor
    · rw [writtenCalls, hs.alive halive, List.take_length]
    · rw [writtenCalls, hframes, List.length_append, hs.alive halive, hsealed]
      exact List.take_of_length_le (by rw [List.length_append, List.length_singleton,
        List.length_singleton])
  refine ⟨hopened, fun hs => ⟨?_, fun _ => ?_⟩, fun hs => ?_⟩
  · rw [hframes, (hcalls hs).2, hs.frames, (hcalls hs).1, List.map_append, hv2, List.map_singleton]
  · rw [hframes, hsealed, List.length_append, List.length_append, hs.alive halive,
      List.length_singleton, List.length_singleton]
  · rw [LoopState.written, LoopState.written, (hcalls hs).1, (hcalls hs).2, List.map_append,
      List.map_singleton]

/-- A frame is sealed, and its write fails. -/
theorem Writes.lost {x : SealCall} (hv2 : st'.conn.v2 = st.conn.v2)
    (hopened : st'.conn.opened = st.conn.opened)
    (hsealed : st'.conn.sealed = st.conn.sealed ++ [x]) (hout : st'.out = st.out)
    (halive : st'.conn.alive = false) : Writes S st st' [] := by
  have hframes : st'.sealedOut = st.sealedOut := by rw [sealedOut, hout, sealedOut]
  have hcalls : st.Synced S → st'.writtenCalls = st.writtenCalls := by
    intro hs
    rw [writtenCalls, writtenCalls, hframes, hsealed, List.take_append_of_le_length hs.length_le]
  refine ⟨hopened, fun hs => ⟨?_, fun ha => ?_⟩, fun hs => ?_⟩
  · rw [hframes, hcalls hs, hv2]
    exact hs.frames
  · rw [halive] at ha
    cases ha
  · rw [LoopState.written, LoopState.written, hcalls hs, List.append_nil]

theorem writes_sendSealed {type : FrameType} (hclear : isCleartext type = false)
    (plaintext : Bytes) (ok : Bool) :
    Writes S st (st.sendSealed S type plaintext ok)
      (if st.conn.alive && ok then [(type, plaintext)] else []) := by
  cases halive : st.conn.alive with
  | false =>
    have hsend : st.conn.sendSealed S type plaintext ok = (st.conn, none) := by
      simp [HostConn.sendSealed, halive]
    rw [LoopState.sendSealed]
    rw [hsend]
    exact .quiet rfl rfl rfl (by simp [sealedOut]) fun h => h
  | true =>
    have hsend : st.conn.sendSealed S type plaintext ok =
        ({ st.conn with
            tx := st.conn.tx.bump
            sealed := st.conn.sealed ++ [st.conn.tx.call type plaintext]
            alive := ok },
          if ok then some ((st.conn.tx.call type plaintext).frame S st.conn.v2) else none) := by
      simp [HostConn.sendSealed, halive]
    rw [LoopState.sendSealed]
    rw [hsend]
    cases ok with
    | false => exact .lost rfl rfl rfl (List.append_nil _) rfl
    | true => exact .frame (x := st.conn.tx.call type plaintext) rfl rfl halive rfl rfl hclear

end LoopState

/-! ### Request ids -/

/-- What is written is about the request `id`. -/
def mentions (id : UInt64) (x : FrameType × Bytes) : Bool :=
  (x.1 = .streamChunk ∨ x.1 = .response) ∧ x.2.take 8 = putU64 id

/-- What was written about a request. -/
def about (id : UInt64) (contents : List (FrameType × Bytes)) : List (FrameType × Bytes) :=
  contents.filter (mentions id)

/-- Nothing in it is about another request. -/
def Concerns (id : UInt64) (contents : List (FrameType × Bytes)) : Prop :=
  ∀ x ∈ contents, ∀ id', mentions id' x = true → id' = id

/-- The id of a request that was received. -/
def requestIdOf (x : FrameType × Bytes) : Option UInt64 :=
  if x.1 = .request then
    match decodeRequest x.2 with
    | .accept req => some req.requestId
    | _ => none
  else none

/-- The ids of the requests that were received. -/
def requestIds (contents : List (FrameType × Bytes)) : List UInt64 := contents.filterMap requestIdOf

theorem mentions_response (r : ResponsePayload) (id : UInt64) :
    mentions id (.response, encodeResponse r) = true ↔ id = r.requestId := by
  have htake : (encodeResponse r).take 8 = putU64 r.requestId := rfl
  simp only [mentions, htake, decide_eq_true_eq, or_true, true_and]
  exact ⟨fun h => (putU64_injective h).symm, fun h => by rw [h]⟩

theorem mentions_streamChunk (c : StreamChunkPayload) (id : UInt64) :
    mentions id (.streamChunk, encodeStreamChunk c) = true ↔ id = c.requestId := by
  have htake : (encodeStreamChunk c).take 8 = putU64 c.requestId := rfl
  simp only [mentions, htake, decide_eq_true_eq, true_or, true_and]
  exact ⟨fun h => (putU64_injective h).symm, fun h => by rw [h]⟩

theorem about_append (id : UInt64) (xs ys : List (FrameType × Bytes)) :
    about id (xs ++ ys) = about id xs ++ about id ys := List.filter_append xs ys

theorem Concerns.about_eq_nil {id id' : UInt64} {contents : List (FrameType × Bytes)}
    (h : Concerns id contents) (hne : id' ≠ id) : about id' contents = [] :=
  List.filter_eq_nil_iff.mpr fun x hx hm => hne (h x hx id' hm)

theorem Concerns.nil (id : UInt64) : Concerns id [] := fun _ hx => absurd hx List.not_mem_nil

theorem Concerns.append {id : UInt64} {xs ys : List (FrameType × Bytes)} (hx : Concerns id xs)
    (hy : Concerns id ys) : Concerns id (xs ++ ys) := by
  intro x hmem
  rcases List.mem_append.mp hmem with hmem | hmem
  · exact hx x hmem
  · exact hy x hmem

theorem Concerns.ite {id : UInt64} {x : FrameType × Bytes} {b : Bool}
    (h : ∀ id', mentions id' x = true → id' = id) : Concerns id (if b then [x] else []) := by
  intro y hy
  split at hy
  · rw [List.mem_singleton.mp hy]
    exact h
  · cases hy

/-! ### What a pass receives and writes -/

/-- From `st` to `st'` requests with the ids `ids` were received and the contents written. They are
about no other request, and a pass that subscribes writes nothing. -/
structure Exchange (S : Sodium) (st st' : LoopState) (ids : List UInt64)
    (contents : List (FrameType × Bytes)) : Prop where
  received : requestIds (st'.conn.opened.map Opened.content)
    = requestIds (st.conn.opened.map Opened.content) ++ ids
  synced : st.Synced S → st'.Synced S
  written : st.Synced S → st'.written = st.written ++ contents
  others : ∀ id, id ∉ ids → about id contents = []
  subscribed : ∀ endpoint t id,
    .subscribe endpoint t id ∈ st'.calls.drop st.calls.length → id ∈ ids ∧ contents = []

section

open LoopState

variable {S : Sodium} {cfg : HostConfig} {env : Pass} {st : LoopState} {f : RawFrame}

theorem writes_reply (st : LoopState) (req : RequestPayload) (status : UInt8) (data : Bytes)
    (ok : Bool) :
    ∃ contents, Writes S st (st.reply S req status data ok) contents ∧
      Concerns req.requestId contents := by
  rw [LoopState.reply]
  split
  · exact ⟨[], .quiet rfl rfl rfl rfl fun h => h, .nil _⟩
  · exact ⟨_, writes_sendSealed (by decide) _ ok, .ite fun id hm => (mentions_response _ id).mp hm⟩

theorem writes_sendChunk (st : LoopState) (requestId : UInt64) (seq : ℕ) (isLast : Bool)
    (data : Bytes) (ok : Bool) :
    ∃ contents, Writes S st (st.sendChunk S requestId seq isLast data ok) contents ∧
      Concerns requestId contents :=
  ⟨_, writes_sendSealed (by decide) _ ok, .ite fun id hm => (mentions_streamChunk _ id).mp hm⟩

theorem writes_sendChunks (st : LoopState) (requestId : UInt64) (chunks : List Bytes)
    (wrote : ℕ → Bool) :
    ∃ contents, Writes S st (st.sendChunks S requestId chunks wrote) contents ∧
      Concerns requestId contents := by
  have hfold : ∀ (l : List (Bytes × ℕ)) (s : LoopState), ∃ contents,
      Writes S s (l.foldl (fun s p => s.sendChunk S requestId p.2 false p.1 (wrote p.2)) s)
        contents ∧ Concerns requestId contents := by
    intro l
    induction l with
    | nil => exact fun s => ⟨[], .quiet rfl rfl rfl rfl fun h => h, .nil _⟩
    | cons p l ih =>
      intro s
      obtain ⟨xs, hxs, hcx⟩ := writes_sendChunk s requestId p.2 false p.1 (wrote p.2)
      obtain ⟨ys, hys, hcy⟩ := ih (s.sendChunk S requestId p.2 false p.1 (wrote p.2))
      exact ⟨xs ++ ys, hxs.trans hys, hcx.append hcy⟩
  obtain ⟨xs, hxs, hcx⟩ := hfold chunks.zipIdx st
  obtain ⟨ys, hys, hcy⟩ := writes_sendChunk _ requestId chunks.length true []
    (wrote chunks.length)
  exact ⟨xs ++ ys, hxs.trans hys, hcx.append hcy⟩

/-- No subscription is added between two states. -/
def NoSubscribe (st st' : LoopState) : Prop :=
  ∀ endpoint t id, HandlerCall.subscribe endpoint t id ∉ st'.calls.drop st.calls.length

theorem noSubscribe_of_eq {st' : LoopState} (h : st'.calls = st.calls) : NoSubscribe st st' := by
  intro endpoint t id hmem
  rw [h, List.drop_length] at hmem
  cases hmem

theorem noSubscribe_of_call {st' : LoopState} {c : HandlerCall} (h : st'.calls = st.calls ++ [c])
    (hne : ∀ endpoint t id, c ≠ .subscribe endpoint t id) : NoSubscribe st st' := by
  intro endpoint t id hmem
  rw [h, List.drop_left] at hmem
  exact hne endpoint t id (List.mem_singleton.mp hmem).symm

/-- The contents that are written for a request, and the subscription that may be added instead. -/
def Responds (S : Sodium) (requestId : UInt64) (st st' : LoopState) : Prop :=
  ∃ contents, Writes S st st' contents ∧ Concerns requestId contents ∧
    ∀ endpoint t id, .subscribe endpoint t id ∈ st'.calls.drop st.calls.length →
      id = requestId ∧ contents = []

theorem Responds.of_noSubscribe {requestId : UInt64} {st' : LoopState}
    {contents : List (FrameType × Bytes)} (hw : Writes S st st' contents)
    (hc : Concerns requestId contents) (hno : NoSubscribe st st') :
    Responds S requestId st st' :=
  ⟨contents, hw, hc, fun endpoint t id hmem => absurd hmem (hno endpoint t id)⟩

theorem responds_reply {st' : LoopState} (req : RequestPayload) (status : UInt8) (data : Bytes)
    (ok : Bool) (hquiet : Writes S st st' []) (hno : NoSubscribe st st') :
    Responds S req.requestId st (st'.reply S req status data ok) := by
  obtain ⟨contents, hw, hc⟩ := writes_reply st' req status data ok
  have hcalls : (st'.reply S req status data ok).calls = st'.calls :=
    congrArg Books.calls (books_reply req status data ok)
  refine .of_noSubscribe (hquiet.trans hw) hc fun endpoint t id hmem => ?_
  rw [hcalls] at hmem
  exact hno endpoint t id hmem

theorem writes_same (st : LoopState) : Writes S st st [] := .quiet rfl rfl rfl rfl fun h => h

theorem responds_serve (st : LoopState) (req : RequestPayload) (entry : EndpointEntry) :
    Responds S req.requestId st (serve S cfg env st req entry) := by
  have hcalled : ∀ c, Writes S st (st.called c) [] := fun c => .quiet rfl rfl rfl rfl fun h => h
  have hunary : NoSubscribe st (st.called (.unary req.endpoint req.data)) :=
    noSubscribe_of_call rfl fun _ _ _ => by simp
  rw [serve]
  cases entry.kind with
  | topic =>
    simp only
    split
    · exact responds_reply req 1 _ _ (writes_same st) (noSubscribe_of_eq rfl)
    · cases env.topics.lookup req.endpoint with
      | none => exact .of_noSubscribe (writes_same st) (.nil _) (noSubscribe_of_eq rfl)
      | some topic =>
        refine ⟨[], .quiet rfl rfl rfl rfl fun h => h, .nil _, fun endpoint t id hmem => ?_⟩
        simp only [LoopState.called, List.drop_left, List.mem_singleton] at hmem
        cases hmem
        exact ⟨rfl, rfl⟩
  | receive | send =>
    simp only
    split
    · exact responds_reply req 0 _ _ (hcalled _) hunary
    · exact responds_reply req 1 _ _ (hcalled _) hunary
  | streamSend =>
    obtain ⟨contents, hw, hc⟩ := writes_sendChunks (st.called (.streamSend req.endpoint req.data))
      req.requestId (env.streamSend req.data req.endpoint) env.wrote
    refine .of_noSubscribe ((hcalled _).trans hw) hc (noSubscribe_of_call
      (congrArg Books.calls (books_sendChunks _ _ _)) fun _ _ _ => by simp)
  | streamReceive => exact responds_reply req 1 _ _ (writes_same st) (noSubscribe_of_eq rfl)

theorem responds_dispatch {req : RequestPayload} {st' : LoopState}
    (h : dispatch S cfg env st req = .ok st') : Responds S req.requestId st st' := by
  rw [dispatch] at h
  split at h
  · cases h
    rw [LoopState.unsubscribe]
    split
    · split
      · refine .of_noSubscribe (.quiet rfl rfl rfl rfl fun h => h) (.nil _) ?_
        exact noSubscribe_of_call rfl fun _ _ _ => by simp
      · exact .of_noSubscribe (writes_same st) (.nil _) (noSubscribe_of_eq rfl)
    · exact .of_noSubscribe (writes_same st) (.nil _) (noSubscribe_of_eq rfl)
  · cases hentry : env.handlers.lookup req.endpoint with
    | none =>
      rw [hentry] at h
      cases h
      exact responds_reply req 2 _ _ (writes_same st) (noSubscribe_of_eq rfl)
    | some entry =>
      simp only [hentry] at h
      obtain ⟨⟨allowed, cache⟩, -, h⟩ := bind_eq_ok.mp h
      cases h
      have hcache : Writes S st { st with authzCache := cache } [] :=
        .quiet rfl rfl rfl rfl fun h => h
      cases allowed with
      | false => exact responds_reply req 3 _ _ hcache (noSubscribe_of_eq rfl)
      | true =>
        have hserve : Responds S req.requestId { st with authzCache := cache }
            (serve S cfg env { st with authzCache := cache } req entry) :=
            responds_serve _ req entry
        obtain ⟨contents, hw, hc, hsub⟩ := hserve
        exact ⟨contents, hcache.trans hw, hc, hsub⟩

theorem Exchange.of_quiet {st' : LoopState} {contents : List (FrameType × Bytes)}
    (hw : Writes S st st' contents) (hc : ∀ id, about id contents = [])
    (hno : NoSubscribe st st') : Exchange S st st' [] contents where
  received := by rw [hw.opened, List.append_nil]
  synced := hw.synced
  written := hw.written
  others id _ := hc id
  subscribed endpoint t id hmem := absurd hmem (hno endpoint t id)

/-- A frame was opened, and then the contents were written. -/
theorem Exchange.of_accept {st' : LoopState} {contents : List (FrameType × Bytes)} {opened : Bytes}
    {rx : RxState} (hw : Writes S (st.accept f opened rx) st' contents)
    (hc : ∀ id, id ∉ (requestIdOf (f.type, opened)).toList → about id contents = [])
    (hsub : ∀ endpoint t id, .subscribe endpoint t id ∈ st'.calls.drop st.calls.length →
      id ∈ (requestIdOf (f.type, opened)).toList ∧ contents = []) :
    Exchange S st st' (requestIdOf (f.type, opened)).toList contents where
  received := by
    rw [hw.opened]
    have hopened : (st.accept f opened rx).conn.opened.map Opened.content
        = st.conn.opened.map Opened.content ++ [(f.type, opened)] := List.map_append
    rw [hopened, requestIds, List.filterMap_append, List.filterMap_cons, List.filterMap_nil]
    cases requestIdOf (f.type, opened) <;> rfl
  synced hs := hw.synced ⟨hs.frames, hs.alive⟩
  written hs := hw.written ⟨hs.frames, hs.alive⟩
  others := hc
  subscribed := hsub

theorem exchange_accept_quiet {st' : LoopState} {contents : List (FrameType × Bytes)}
    {opened : Bytes} {rx : RxState} (hw : Writes S (st.accept f opened rx) st' contents)
    (hc : ∀ id, about id contents = []) (hno : NoSubscribe st st') :
    ∃ ids contents, Exchange S st st' ids contents :=
  ⟨_, _, .of_accept hw (fun id _ => hc id) fun e t id hmem => absurd hmem (hno e t id)⟩

/-- Types that carry no request id. -/
theorem about_ite {type : FrameType} {plaintext : Bytes} {b : Bool} (hchunk : type ≠ .streamChunk)
    (hresponse : type ≠ .response) (id : UInt64) :
    about id (if b then [(type, plaintext)] else []) = [] := by
  refine List.filter_eq_nil_iff.mpr fun x hx hm => ?_
  split at hx
  · rw [List.mem_singleton.mp hx] at hm
    simp [mentions, hchunk, hresponse] at hm
  · cases hx

theorem exchange_handleRequest {o : Outcome} (hf : f.type = .request)
    (h : handleRequest S cfg env st f = .ok o) :
    ∃ ids contents, Exchange S st o.state ids contents := by
  rw [handleRequest] at h
  cases hopen : openChecked S st.conn.v2 st.conn.rx f with
  | none =>
    rw [hopen] at h
    cases h
    exact ⟨[], [], .of_quiet (writes_same st) (fun _ => rfl) (noSubscribe_of_eq rfl)⟩
  | some p =>
    obtain ⟨opened, rx⟩ := p
    simp only [hopen] at h
    cases hdec : decodeRequest opened with
    | oob | reject =>
      rw [hdec] at h
      cases h
      exact exchange_accept_quiet (writes_same _) (fun _ => rfl) (noSubscribe_of_eq rfl)
    | accept req =>
      have hid : (requestIdOf (f.type, opened)).toList = [req.requestId] := by
        simp [requestIdOf, hf, hdec]
      simp only [hdec] at h
      have hrate :
        Writes S (st.accept f opened rx) (rateLimit cfg env (st.accept f opened rx)) [] :=
        .quiet rfl rfl rfl rfl fun h => h
      split at h
      · cases h
        exact exchange_accept_quiet (hrate.trans (writes_sendSealed (by decide) _ _))
          (about_ite (by decide) (by decide)) (noSubscribe_of_eq rfl)
      · obtain ⟨st', hdispatch, h⟩ := bind_eq_ok.mp h
        cases h
        obtain ⟨contents, hw, hc, hsub⟩ := responds_dispatch hdispatch
        refine ⟨_, [] ++ contents, .of_accept (hrate.trans hw) (fun id hne => ?_)
          fun endpoint t id hmem => ?_⟩
        · rw [hid, List.mem_singleton] at hne
          exact hc.about_eq_nil hne
        · obtain ⟨rfl, rfl⟩ := hsub endpoint t id hmem
          exact ⟨by rw [hid]; exact List.mem_singleton_self _, rfl⟩

theorem exchange_handleChunk {o : Outcome} (h : handleChunk S cfg env st f = .ok o) :
    ∃ ids contents, Exchange S st o.state ids contents := by
  rw [handleChunk] at h
  cases hopen : openChecked S st.conn.v2 st.conn.rx f with
  | none =>
    rw [hopen] at h
    cases h
    exact ⟨[], [], .of_quiet (writes_same st) (fun _ => rfl) (noSubscribe_of_eq rfl)⟩
  | some p =>
    obtain ⟨opened, rx⟩ := p
    simp only [hopen] at h
    have hquiet : ∀ st' : LoopState, Writes S (st.accept f opened rx) st' [] → NoSubscribe st st' →
        ∃ ids contents, Exchange S st st' ids contents :=
      fun st' hw hno => exchange_accept_quiet hw (fun _ => rfl) hno
    cases hdec : decodeStreamChunk opened with
    | oob | reject =>
      rw [hdec] at h
      cases h
      exact hquiet _ (writes_same _) (noSubscribe_of_eq rfl)
    | accept chunk =>
      simp only [hdec] at h
      cases hentry : (env.handlers.lookup chunk.endpoint).filter
          fun e => e.kind = .streamReceive with
      | none =>
        rw [hentry] at h
        cases h
        exact hquiet _ (writes_same _) (noSubscribe_of_eq rfl)
      | some entry =>
        simp only [hentry] at h
        obtain ⟨⟨allowed, cache⟩, -, h⟩ := bind_eq_ok.mp h
        cases h
        cases allowed with
        | false => exact hquiet _ (.quiet rfl rfl rfl rfl fun h => h) (noSubscribe_of_eq rfl)
        | true =>
          exact hquiet _ (.quiet rfl rfl rfl rfl fun h => h)
            (noSubscribe_of_call rfl fun _ _ _ => by simp)

theorem writes_sendRekeyAckAndSwitch (st : LoopState) (eph : EphemeralKeyPair) (nk : SessionKeys)
    (ok : Bool) (hv2 : st.conn.v2 = true) :
    ∃ contents, Writes S st { st with
        conn := (st.conn.sendRekeyAckAndSwitch S eph nk ok).1
        out := st.out ++ (st.conn.sendRekeyAckAndSwitch S eph nk ok).2.toList } contents ∧
      ∀ id, about id contents = [] := by
  have hnone :
    ∀ (b : Bool) id, about id (if b then [(FrameType.rekeyAck, eph.publicKey.val)] else [])
      = [] := fun b => about_ite (by decide) (by decide)
  rw [HostConn.sendRekeyAckAndSwitch]
  split
  · exact ⟨[], .quiet rfl rfl rfl (by simp [sealedOut]) fun h => h, hnone false⟩
  · next halive =>
    split
    · exact ⟨[], .lost rfl rfl rfl (List.append_nil _) rfl, hnone false⟩
    · refine ⟨_, .frame (x := st.conn.tx.call .rekeyAck eph.publicKey.val) rfl rfl
        (by simpa using halive) rfl (by rw [hv2]; rfl) (by rfl), hnone true⟩

theorem exchange_handleRekey {o : Outcome} (h : handleRekey S env st f = .ok o) :
    ∃ ids contents, Exchange S st o.state ids contents := by
  have hstay : ∃ ids contents, Exchange S st st ids contents :=
    ⟨[], [], .of_quiet (writes_same st) (fun _ => rfl) (noSubscribe_of_eq rfl)⟩
  rw [handleRekey] at h
  split at h
  · cases h
    exact hstay
  · next hv2 =>
    cases hopen : openChecked S st.conn.v2 st.conn.rx f with
    | none =>
      rw [hopen] at h
      cases h
      exact hstay
    | some p =>
      obtain ⟨opened, rx⟩ := p
      simp only [hopen] at h
      split at h
      · split at h
        · cases h
          exact exchange_accept_quiet (writes_same _) (fun _ => rfl) (noSubscribe_of_eq rfl)
        · obtain ⟨nk, -, h⟩ := bind_eq_ok.mp h
          obtain ⟨contents, hw, hc⟩ := writes_sendRekeyAckAndSwitch (st.accept f opened rx)
            env.eph nk
            (env.wrote 0) (Bool.eq_true_of_not_eq_false hv2)
          cases h
          split
          · exact exchange_accept_quiet hw hc (noSubscribe_of_eq rfl)
          · exact exchange_accept_quiet hw hc (noSubscribe_of_eq rfl)
      · cases h
        exact exchange_accept_quiet (writes_same _) (fun _ => rfl) (noSubscribe_of_eq rfl)

/-- **What a pass receives and writes.** -/
theorem exchange_pass {o : Outcome} (h : pass S cfg env st f = .ok o) :
    ∃ ids contents, Exchange S st o.state ids contents := by
  -- the other threads' failed writes come first, and change nothing that counts here
  have hothers : ∀ st', (∃ ids contents, Exchange S
      { st with conn := { st.conn with alive := st.conn.alive && env.othersAlive } } st' ids
        contents) → ∃ ids contents, Exchange S st st' ids contents := by
    rintro st' ⟨ids, contents, hex⟩
    have hsynced : st.Synced S → LoopState.Synced S
        { st with conn := { st.conn with alive := st.conn.alive && env.othersAlive } } :=
      fun hs => ⟨hs.frames, fun ha => hs.alive (Bool.and_eq_true_iff.mp ha).1⟩
    exact ⟨ids, contents, hex.received, fun hs => hex.synced (hsynced hs),
      fun hs => hex.written (hsynced hs), hex.others, hex.subscribed⟩
  have hstay : ∀ st' : LoopState, Writes S
      { st with conn := { st.conn with alive := st.conn.alive && env.othersAlive } } st' [] →
      st'.calls = st.calls → ∃ ids contents, Exchange S st st' ids contents :=
    fun st' hw hcalls => hothers st'
      ⟨[], [], .of_quiet hw (fun _ => rfl) (noSubscribe_of_eq hcalls)⟩
  rw [pass] at h
  split at h
  · cases h
    refine hstay _ (.quiet rfl rfl rfl ?_ fun h => h) rfl
    cases env.wrote 0 <;> simp [sealedOut, Outcome.state, pongFrame, isCleartext]
  split at h
  · cases h
    exact hstay _ (writes_same _) rfl
  split at h
  · cases h
    exact hstay _ (writes_same _) rfl
  split at h
  · exact hothers _ (exchange_handleRekey h)
  split at h
  · exact hothers _ (exchange_handleChunk h)
  split at h
  · next hf => exact hothers _ (exchange_handleRequest hf h)
  · cases h
    exact hstay _ (writes_same _) rfl

end

end Epx
