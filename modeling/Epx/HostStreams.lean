import Epx.ClientTables
import Epx.Desk

/-!
# Chunks that a host receives, and chunks that it does not write

A pass of `handle_connection` calls the StreamReceive handler of an endpoint for each chunk to it
that it opens, if the endpoint is there and the peer may use it. Chunks are written for
subscriptions, and by the handler of a StreamSend request; a pass that does not lead to such a
handler writes none.

## Main definitions

* `LoopState.received`, `LoopState.arrived` — the calls for an endpoint, and the chunks to it
* `LoopState.Unstreamed` — no chunk is written, and no handler is called for one
* `Admits` — the endpoint is there, and the peer may use it
* `KeepsStreams` — what a pass does to the streams of a connection

## Main results

* `keeps_of_pass`
-/

namespace Epx

open Codec Exception LoopState
open ClientTables (chunkOf callback)

/-- What a call gives to the StreamReceive handler of an endpoint. -/
def HandlerCall.receives (endpoint : Bytes) : HandlerCall → Option (Bytes × Bool)
  | .streamRecv e data isLast => if e = endpoint then some (data, isLast) else none
  | _ => none

namespace LoopState

/-- What the StreamReceive handler of an endpoint was called with. -/
def received (st : LoopState) (endpoint : Bytes) : List (Bytes × Bool) :=
  st.calls.filterMap (HandlerCall.receives endpoint)

/-- What the chunks to an endpoint hold that were opened. -/
def arrived (st : LoopState) (endpoint : Bytes) : List (Bytes × Bool) :=
  (((st.conn.opened.map Opened.content).filterMap chunkOf).filter
    fun chunk => chunk.endpoint = endpoint).map callback

/-- What is written is no chunk, and no StreamReceive handler is called. -/
structure Unstreamed (S : Sodium) (st st' : LoopState) : Prop where
  writes : ∃ xs, Writes S st st' xs ∧ ∀ x ∈ xs, x.1 ≠ .streamChunk
  received : ∀ endpoint, st'.received endpoint = st.received endpoint

variable {S : Sodium} {st st' : LoopState}

theorem Unstreamed.trans {st'' : LoopState} (h : st.Unstreamed S st') (h' : st'.Unstreamed S st'') :
    st.Unstreamed S st'' where
  writes := by
    obtain ⟨xs, hxs, htypes⟩ := h.writes
    obtain ⟨ys, hys, htypes'⟩ := h'.writes
    refine ⟨xs ++ ys, hxs.trans hys, fun x hx => ?_⟩
    exact (List.mem_append.mp hx).elim (htypes x) (htypes' x)
  received endpoint := (h'.received endpoint).trans (h.received endpoint)

theorem unstreamed_same (hquiet : Writes S st st' []) (hcalls : st'.calls = st.calls) :
    st.Unstreamed S st' where
  writes := ⟨[], hquiet, by simp⟩
  received endpoint := by rw [received, hcalls]; rfl

theorem unstreamed_called (st : LoopState) {call : HandlerCall}
    (hcall : ∀ endpoint, call.receives endpoint = none) : st.Unstreamed S (st.called call) where
  writes := ⟨[], .quiet rfl rfl rfl rfl fun h => h, by simp⟩
  received endpoint := by
    rw [received, called, List.filterMap_append, List.filterMap_cons_none (hcall endpoint)]
    exact List.append_nil _

theorem unstreamed_sendSealed (st : LoopState) {type : FrameType}
    (hclear : isCleartext type = false) (htype : type ≠ .streamChunk) (plaintext : Bytes)
    (ok : Bool) : st.Unstreamed S (st.sendSealed S type plaintext ok) where
  writes := by
    refine ⟨_, writes_sendSealed hclear plaintext ok, fun x hx => ?_⟩
    split at hx
    · rw [List.mem_singleton.mp hx]
      exact htype
    · cases hx
  received _ := rfl

theorem unstreamed_reply (st : LoopState) (req : RequestPayload) (status : UInt8) (data : Bytes)
    (ok : Bool) : st.Unstreamed S (st.reply S req status data ok) := by
  rw [LoopState.reply]
  split
  · exact unstreamed_same (writes_same st) rfl
  · exact unstreamed_sendSealed st (by decide) (by decide) _ ok

theorem arrived_accept (st : LoopState) (f : RawFrame) (opened : Bytes) (rx : RxState)
    (endpoint : Bytes) :
    (st.accept f opened rx).arrived endpoint = st.arrived endpoint ++
      ((chunkOf (f.type, opened)).toList.filter fun chunk => chunk.endpoint = endpoint).map
        callback := by
  rw [arrived, accept, List.map_append, List.filterMap_append, List.filter_append, List.map_append]
  congr 3

theorem arrived_of_opened (h : st'.conn.opened = st.conn.opened) (endpoint : Bytes) :
    st'.arrived endpoint = st.arrived endpoint := by
  rw [arrived, h]
  rfl

theorem Unstreamed.arrived (h : st.Unstreamed S st') (endpoint : Bytes) :
    st'.arrived endpoint = st.arrived endpoint := by
  obtain ⟨xs, hwrites, -⟩ := h.writes
  exact arrived_of_opened hwrites.opened endpoint

end LoopState

section

variable {S : Sodium} {cfg : HostConfig} {env : Pass} {st st' : LoopState} {f : RawFrame}

/-- The way to the handler of a StreamSend request. -/
theorem openStream_eq_some {opened : Bytes} {rx : RxState} {req : RequestPayload}
    {entry : EndpointEntry} {cache : List (Bytes × Bool)}
    (hopen : openChecked S st.conn.v2 st.conn.rx f = some (opened, rx))
    (hreq : requestOf (f.type, opened) = some req)
    (hsat : saturated cfg env st.delayedInARow = false) (hun : req.endpoint ≠ kUnsubscribeEndpoint)
    (hentry : env.handlers.lookup req.endpoint = some entry) (hkind : entry.kind = .streamSend)
    (hauth : authorize cfg.serviceName env.view st.peer req.endpoint (cfg.accessOf entry)
      st.authzCache = .ok (true, cache)) :
    ∃ p, openStream S cfg env st f = .ok (some p) := by
  have hfilter : (env.handlers.lookup req.endpoint).filter (fun e => e.kind = .streamSend)
      = some entry := by
    rw [hentry, Option.filter_some, if_pos (by simp [hkind])]
  rw [openStream]
  simp only [hopen, hreq]
  rw [if_neg (by simp [hsat, hun])]
  simp only [hfilter, hauth]
  exact ⟨_, rfl⟩

theorem unstreamed_serve (st : LoopState) (req : RequestPayload) {entry : EndpointEntry}
    (hkind : entry.kind ≠ .streamSend) : st.Unstreamed S (serve S cfg env st req entry) := by
  rw [serve]
  cases h : entry.kind with
  | topic =>
    simp only
    split
    · exact unstreamed_reply st req _ _ _
    · cases env.topics.lookup req.endpoint with
      | none => exact unstreamed_same (writes_same st) rfl
      | some topic =>
        have hadded : st.Unstreamed S
            { st with mySubs := st.mySubs ++ [(topic, req.requestId)] } :=
          unstreamed_same (.quiet rfl rfl rfl rfl fun h => h) rfl
        exact hadded.trans (unstreamed_called _ fun _ => rfl)
  | receive | send =>
    have hcalled : st.Unstreamed S (st.called (.unary req.endpoint req.data)) :=
      unstreamed_called st fun _ => rfl
    simp only
    split
    · exact hcalled.trans (unstreamed_reply _ req _ _ _)
    · exact hcalled.trans (unstreamed_reply _ req _ _ _)
  | streamSend => exact absurd h hkind
  | streamReceive => exact unstreamed_reply st req _ _ _

theorem unstreamed_dispatch {req : RequestPayload} (h : dispatch S cfg env st req = .ok st')
    (hno : ∀ entry cache, req.endpoint ≠ kUnsubscribeEndpoint →
      env.handlers.lookup req.endpoint = some entry →
      authorize cfg.serviceName env.view st.peer req.endpoint (cfg.accessOf entry) st.authzCache
        = .ok (true, cache) → entry.kind ≠ .streamSend) : st.Unstreamed S st' := by
  rw [dispatch] at h
  split at h
  · cases h
    rw [LoopState.unsubscribe]
    split
    · split
      · next sub _ =>
        have herased : st.Unstreamed S { st with mySubs := st.mySubs.erase sub } :=
          unstreamed_same (.quiet rfl rfl rfl rfl fun h => h) rfl
        exact herased.trans (unstreamed_called _ fun _ => rfl)
      · exact unstreamed_same (writes_same st) rfl
    · exact unstreamed_same (writes_same st) rfl
  · next hun =>
    cases hentry : env.handlers.lookup req.endpoint with
    | none =>
      rw [hentry] at h
      cases h
      exact unstreamed_reply st req _ _ _
    | some entry =>
      simp only [hentry] at h
      obtain ⟨⟨allowed, cache⟩, hauth, h⟩ := bind_eq_ok.mp h
      cases h
      have hcache : st.Unstreamed S { st with authzCache := cache } :=
        unstreamed_same (.quiet rfl rfl rfl rfl fun h => h) rfl
      cases allowed with
      | false => exact hcache.trans (unstreamed_reply _ req _ _ _)
      | true => exact hcache.trans (unstreamed_serve _ req (hno entry cache hun hentry hauth))

theorem unstreamed_handleRequest {opened : Bytes} {rx : RxState} {o : Outcome}
    (hf : f.type = .request) (hopen : openChecked S st.conn.v2 st.conn.rx f = some (opened, rx))
    (hno : ∀ p, openStream S cfg env st f ≠ .ok (some p))
    (h : handleRequest S cfg env st f = .ok o) :
    (st.accept f opened rx).Unstreamed S o.state := by
  rw [handleRequest] at h
  simp only [hopen] at h
  have hrate : (st.accept f opened rx).Unstreamed S (rateLimit cfg env (st.accept f opened rx)) :=
    unstreamed_same (.quiet rfl rfl rfl rfl fun h => h) rfl
  cases hdec : decodeRequest opened with
  | oob | reject =>
    rw [hdec] at h
    cases h
    exact unstreamed_same (writes_same _) rfl
  | accept req =>
    simp only [hdec] at h
    split at h
    · cases h
      exact hrate.trans (unstreamed_sendSealed _ (by decide) (by decide) _ _)
    · next hsat =>
      obtain ⟨st', hdispatch, h⟩ := bind_eq_ok.mp h
      cases h
      refine hrate.trans
        (unstreamed_dispatch hdispatch fun entry cache hun hentry hauth hkind => ?_)
      have hreq : requestOf (f.type, opened) = some req := by simp [requestOf, hf, hdec]
      obtain ⟨p, hp⟩ := openStream_eq_some hopen hreq (Bool.eq_false_of_not_eq_true hsat) hun hentry
        hkind hauth
      exact hno p hp

theorem unstreamed_handleRekey (hwrote : ∀ i, env.wrote i = true) (halive : st.conn.alive = true)
    (hv2 : st.conn.v2 = true) {opened : Bytes} {rx : RxState} {o : Outcome}
    (hopen : openChecked S st.conn.v2 st.conn.rx f = some (opened, rx))
    (h : handleRekey S env st f = .ok o) : (st.accept f opened rx).Unstreamed S o.state := by
  rw [handleRekey, if_neg (by rw [hv2]; decide)] at h
  simp only [hopen] at h
  split at h
  · split at h
    · cases h
      exact unstreamed_same (writes_same _) rfl
    · obtain ⟨nk, -, h⟩ := bind_eq_ok.mp h
      have hv2' : (st.accept f opened rx).conn.v2 = true := hv2
      have halive' : (st.accept f opened rx).conn.alive = true := halive
      rw [hwrote] at h
      simp only [HostConn.sendRekeyAckAndSwitch, halive', Bool.true_eq_false, if_false,
        if_true] at h
      cases h
      refine ⟨⟨_, .frame (x := (st.accept f opened rx).conn.tx.call .rekeyAck
        env.eph.publicKey.val) rfl rfl halive' rfl (by rw [hv2']; rfl) (by rfl), ?_⟩, fun _ => rfl⟩
      intro x hx
      rw [List.mem_singleton.mp hx]
      exact (by decide : FrameType.rekeyAck ≠ .streamChunk)
  · cases h
    exact unstreamed_same (writes_same _) rfl

/-- The endpoint of a chunk is there and takes streams, and the peer may use it. -/
def Admits (S : Sodium) (cfg : HostConfig) (env : Pass) (st : LoopState) (f : RawFrame)
    (endpoint : Bytes) : Prop :=
  ∀ opened rx chunk, openChecked S st.conn.v2 st.conn.rx f = some (opened, rx) →
    chunkOf (f.type, opened) = some chunk → chunk.endpoint = endpoint →
    ∃ entry cache, env.handlers.lookup endpoint = some entry ∧ entry.kind = .streamReceive ∧
      authorize cfg.serviceName env.view st.peer endpoint (cfg.accessOf entry) st.authzCache
        = .ok (true, cache)

/-- A chunk is opened: it is handed to the handler of its endpoint, if that is there and the peer
may use it. -/
theorem received_handleChunk {opened : Bytes} {rx : RxState} {o : Outcome}
    (hf : f.type = .streamChunk)
    (hopen : openChecked S st.conn.v2 st.conn.rx f = some (opened, rx))
    (h : handleChunk S cfg env st f = .ok o) :
    Writes S (st.accept f opened rx) o.state [] ∧
      ∀ endpoint, Admits S cfg env st f endpoint → o.state.received endpoint =
        st.received endpoint ++ ((chunkOf (f.type, opened)).toList.filter
          fun chunk => chunk.endpoint = endpoint).map callback := by
  rw [handleChunk] at h
  simp only [hopen] at h
  cases hdec : decodeStreamChunk opened with
  | oob | reject =>
    rw [hdec] at h
    cases h
    refine ⟨writes_same _, fun endpoint _ => ?_⟩
    simp [chunkOf, hf, hdec, LoopState.received, Outcome.state, accept]
  | accept chunk =>
    have hchunk : chunkOf (f.type, opened) = some chunk := by simp [chunkOf, hf, hdec]
    have hother : ∀ {st' : LoopState} {endpoint : Bytes}, st'.calls = st.calls →
        chunk.endpoint ≠ endpoint → st'.received endpoint = st.received endpoint ++
          ((chunkOf (f.type, opened)).toList.filter fun chunk => chunk.endpoint = endpoint).map
            callback := by
      intro st' endpoint hcalls hne
      simp [LoopState.received, hcalls, hchunk, hne]
    simp only [hdec] at h
    cases hentry : (env.handlers.lookup chunk.endpoint).filter fun e => e.kind = .streamReceive with
    | none =>
      rw [hentry] at h
      cases h
      refine ⟨writes_same _, fun endpoint hadmits => hother rfl ?_⟩
      rintro rfl
      obtain ⟨entry, cache, hlookup, hkind, -⟩ := hadmits opened rx chunk hopen hchunk rfl
      rw [hlookup, Option.filter_some, if_pos (by simp [hkind])] at hentry
      cases hentry
    | some entry =>
      simp only [hentry] at h
      obtain ⟨⟨allowed, cache⟩, hauth, h⟩ := bind_eq_ok.mp h
      cases h
      cases allowed with
      | false =>
        refine ⟨.quiet rfl rfl rfl rfl fun h => h, fun endpoint hadmits => hother rfl ?_⟩
        rintro rfl
        obtain ⟨entry', cache', hlookup, -, hallowed⟩ := hadmits opened rx chunk hopen hchunk rfl
        rw [(Option.filter_eq_some_iff.mp hentry).1] at hlookup
        cases hlookup
        have hdenied : authorize cfg.serviceName env.view st.peer chunk.endpoint
            (cfg.accessOf entry) st.authzCache = .ok (false, cache) := hauth
        rw [hallowed] at hdenied
        cases hdenied
      | true =>
        refine ⟨.quiet rfl rfl rfl rfl fun h => h, fun endpoint _ => ?_⟩
        change (st.calls ++ [HandlerCall.streamRecv chunk.endpoint chunk.data
          chunk.isLast]).filterMap _ = _
        rw [List.filterMap_append, hchunk]
        by_cases he : chunk.endpoint = endpoint <;>
          simp [HandlerCall.receives, he, LoopState.received, callback]

/-! ### A pass -/

/-- What a pass without a handler of a StreamSend request does: it writes no chunk, and where the
handler of an endpoint has received what has arrived for it, it has so afterwards. -/
structure KeepsStreams (S : Sodium) (cfg : HostConfig) (env : Pass) (f : RawFrame)
    (st st' : LoopState) : Prop where
  writes : ∃ xs, (st.Synced S → st'.written = st.written ++ xs) ∧ ∀ x ∈ xs, x.1 ≠ .streamChunk
  received : ∀ endpoint, Admits S cfg env st f endpoint →
    st.received endpoint = st.arrived endpoint → st'.received endpoint = st'.arrived endpoint

theorem LoopState.Unstreamed.keeps (h : st.Unstreamed S st') :
    KeepsStreams S cfg env f st st' where
  writes := by
    obtain ⟨xs, hwrites, htypes⟩ := h.writes
    exact ⟨xs, hwrites.written, htypes⟩
  received endpoint _ heq := by rw [h.received, h.arrived, heq]

/-- A frame that holds no chunk is opened. -/
theorem LoopState.Unstreamed.keeps_accept {opened : Bytes} {rx : RxState}
    (hf : f.type ≠ .streamChunk) (h : (st.accept f opened rx).Unstreamed S st') :
    KeepsStreams S cfg env f st st' where
  writes := by
    obtain ⟨xs, hwrites, htypes⟩ := h.writes
    exact ⟨xs, fun hs => hwrites.written ⟨hs.frames, hs.alive⟩, htypes⟩
  received endpoint _ heq := by
    rw [h.received, h.arrived, arrived_accept, chunkOf, if_neg hf]
    exact heq.trans (List.append_nil _).symm

/-- A pass that ends before the frame is opened, or that cannot open it. -/
theorem keeps_same (st : LoopState) : KeepsStreams S cfg env f st st :=
  (unstreamed_same (writes_same st) rfl).keeps

theorem keeps_of_pass (hothers : env.othersAlive = true) (hwrote : ∀ i, env.wrote i = true)
    (halive : st.conn.alive = true) (hv2 : f.type = .rekey → st.conn.v2 = true)
    (hno : ∀ p, openStream S cfg env st f ≠ .ok (some p)) {o : Outcome}
    (hpass : pass S cfg env st f = .ok o) : KeepsStreams S cfg env f st o.state := by
  rw [pass_of_othersAlive hothers] at hpass
  split at hpass
  · cases hpass
    refine Unstreamed.keeps (unstreamed_same (.quiet rfl rfl rfl ?_ fun h => h) rfl)
    cases env.wrote 0 <;> simp [Outcome.state, sealedOut, pongFrame, isCleartext]
  split at hpass
  · cases hpass
    exact keeps_same st
  split at hpass
  · cases hpass
    exact keeps_same st
  split at hpass
  · next hf =>
    have hne : f.type ≠ .streamChunk := by
      rw [hf]
      decide
    cases hopen : openChecked S st.conn.v2 st.conn.rx f with
    | none =>
      rw [handleRekey, if_neg (by rw [hv2 hf]; decide)] at hpass
      rw [hopen] at hpass
      cases hpass
      exact keeps_same st
    | some p => exact (unstreamed_handleRekey hwrote halive (hv2 hf) hopen hpass).keeps_accept hne
  split at hpass
  · next hf =>
    cases hopen : openChecked S st.conn.v2 st.conn.rx f with
    | none =>
      rw [handleChunk, hopen] at hpass
      cases hpass
      exact keeps_same st
    | some p =>
      obtain ⟨opened, rx⟩ := p
      obtain ⟨hwrites, hreceived⟩ := received_handleChunk hf hopen hpass
      refine ⟨⟨[], fun hs => hwrites.written ⟨hs.frames, hs.alive⟩, by simp⟩,
        fun endpoint hadmits heq => ?_⟩
      rw [hreceived endpoint hadmits, arrived_of_opened hwrites.opened, arrived_accept, heq]
  split at hpass
  · next hf =>
    cases hopen : openChecked S st.conn.v2 st.conn.rx f with
    | none =>
      rw [handleRequest, hopen] at hpass
      cases hpass
      exact keeps_same st
    | some p =>
      have hne : f.type ≠ .streamChunk := by
        rw [hf]
        decide
      exact (unstreamed_handleRequest hf hopen hno hpass).keeps_accept hne
  · cases hpass
    exact keeps_same st

/-- The handler of a StreamSend request is called, and has written nothing yet. -/
theorem streams_of_opened (hothers : env.othersAlive = true) {req : RequestPayload}
    (h : openStream S cfg env st f = .ok (some (req, st'))) :
    (st.Synced S → st'.written = st.written) ∧
      ∀ endpoint, st'.received endpoint = st.received endpoint ∧
        st'.arrived endpoint = st.arrived endpoint := by
  obtain ⟨opened, rx, entry, cache, -, hreq, -, -, -, -, -, rfl⟩ :=
    (streams_of_openStream h).exists_open
  have hf : f.type ≠ .streamChunk := by
    intro htype
    have hne : f.type ≠ .request := by
      rw [htype]
      decide
    rw [requestOf, if_neg hne] at hreq
    cases hreq
  rw [hothers, Bool.and_true]
  refine ⟨fun hs => ?_, fun endpoint => ⟨?_, ?_⟩⟩
  · have hquiet : Writes S (st.accept f opened rx) ({ rateLimit cfg env (st.accept f opened rx) with
        authzCache := cache }.called (.streamSend req.endpoint req.data)) [] :=
      .quiet rfl rfl rfl rfl fun h => h
    exact (hquiet.written ⟨hs.frames, hs.alive⟩).trans (List.append_nil _)
  · change (st.calls ++ [_]).filterMap _ = _
    rw [List.filterMap_append]
    exact List.append_nil _
  · refine (arrived_accept st f opened rx endpoint).trans ?_
    rw [chunkOf, if_neg hf]
    exact List.append_nil _

end

end Epx
