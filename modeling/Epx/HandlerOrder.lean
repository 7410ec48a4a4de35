import Epx.StreamsIntact
import Mathlib.Data.List.Forall2

/-!
# The handlers are called in the order of the frames

Whatever a frame leads to at the host — the handler of a request, of a chunk or of a subscription —
it is one call at most, with what is in the frame. So the calls of the handlers of a connection
follow the frames that its client has sealed, and on a connection that stays up a frame that was not
sealed by the client has led to no call, and no frame to two of them.

## Main definitions

* `HandlerCall.For` — the call that a frame can lead to
* `LoopState.frames` — the frames that were opened
* `LoopState.InOrder` — the calls follow the frames

## Main results

* `LoopState.Takes.inOrder`, `takes_of_pass`
* `handlers_called_in_order`
-/

namespace Epx

open Codec Exception Transition LoopState
open ClientTables (chunkOf)

/-- The call that a frame can lead to. -/
inductive HandlerCall.For : HandlerCall → ClientFrame → Prop
  | unary {req : RequestPayload} : For (.unary req.endpoint req.data) (.request req)
  | streamSend {req : RequestPayload} : For (.streamSend req.endpoint req.data) (.request req)
  | subscribe {req : RequestPayload} {topic : ℕ} :
      For (.subscribe req.endpoint topic req.requestId) (.request req)
  | unsubscribe {req : RequestPayload} {topic : ℕ} {id : UInt64} :
      req.endpoint = kUnsubscribeEndpoint → req.data = putU64 id →
      For (.unsubscribe topic id) (.request req)
  | streamRecv {chunk : StreamChunkPayload} :
      For (.streamRecv chunk.endpoint chunk.data chunk.isLast) (.streamChunk chunk)

/-- The request or the chunk in what was received. -/
def frameOf (x : FrameType × Bytes) : Option ClientFrame :=
  ((requestOf x).map .request).or ((chunkOf x).map .streamChunk)

theorem frameOf_of_request {x : FrameType × Bytes} {req : RequestPayload}
    (h : requestOf x = some req) : frameOf x = some (.request req) := by
  rw [frameOf, h]
  rfl

theorem frameOf_of_chunk {x : FrameType × Bytes} {chunk : StreamChunkPayload}
    (h : chunkOf x = some chunk) : frameOf x = some (.streamChunk chunk) := by
  have hno : requestOf x = none := by
    refine if_neg fun htype => ?_
    rw [chunkOf, if_neg (by rw [htype]; decide)] at h
    cases h
  rw [frameOf, hno, h]
  rfl

namespace LoopState

/-- The requests and chunks that a connection has opened. -/
def frames (st : LoopState) : List ClientFrame :=
  (st.conn.opened.map Opened.content).filterMap frameOf

/-- The handlers were called for frames that were opened, in the order of the frames and at most
once for each. -/
def InOrder (st : LoopState) : Prop := st.calls.SublistForall₂ HandlerCall.For st.frames

/-- What a pass does with the frame that it has read: nothing, or it opens it and calls at most one
handler, for what is in the frame. -/
inductive Takes (S : Sodium) (st : LoopState) (f : RawFrame) (st' : LoopState) : Prop
  | dropped : requestIn S st f = none → st'.conn.opened = st.conn.opened →
      st'.calls = st.calls → Takes S st f st'
  | opened {opened : Bytes} {rx : RxState} {call : Option HandlerCall} :
      openChecked S st.conn.v2 st.conn.rx f = some (opened, rx) →
      st'.conn.opened = st.conn.opened ++ [⟨rx.epoch, f.type, opened⟩] →
      st'.calls = st.calls ++ call.toList →
      (∀ c ∈ call, ∃ g, frameOf (f.type, opened) = some g ∧ c.For g) → Takes S st f st'

end LoopState

section

variable {S : Sodium} {cfg : HostConfig} {env : Pass} {st st' : LoopState} {f : RawFrame}

theorem sublistForall₂_append {α β : Type*} {R : α → β → Prop} {xs xs' : List α} {ys ys' : List β}
    (h : xs.SublistForall₂ R ys) (h' : xs'.SublistForall₂ R ys') :
    (xs ++ xs').SublistForall₂ R (ys ++ ys') := by
  obtain ⟨l, hl, hsub⟩ := List.sublistForall₂_iff.mp h
  obtain ⟨l', hl', hsub'⟩ := List.sublistForall₂_iff.mp h'
  exact List.sublistForall₂_iff.mpr ⟨l ++ l', List.rel_append hl hl', hsub.append hsub'⟩

theorem inOrder_of_same (hcalls : st'.calls = st.calls)
    (hopened : st'.conn.opened = st.conn.opened) (h : st.InOrder) : st'.InOrder := by
  rw [InOrder, hcalls, frames, hopened]
  exact h

/-- **A pass keeps the order.** -/
theorem LoopState.Takes.inOrder (htakes : st.Takes S f st') (h : st.InOrder) : st'.InOrder := by
  cases htakes with
  | dropped _ hopened hcalls => exact inOrder_of_same hcalls hopened h
  | @opened opened rx call _ hopened hcalls hfor =>
    have hframes : st'.frames = st.frames ++ (frameOf (f.type, opened)).toList := by
      rw [frames, hopened, List.map_append, List.filterMap_append]
      rfl
    rw [InOrder, hcalls, hframes]
    refine sublistForall₂_append h ?_
    cases call with
    | none => exact .nil
    | some c =>
      obtain ⟨g, hg, hc⟩ := hfor c rfl
      rw [hg]
      exact .cons hc .nil

/-- The request of the frame is accepted. -/
theorem LoopState.Takes.requests (htakes : st.Takes S f st') :
    st'.requests = st.requests ++ (requestIn S st f).toList := by
  cases htakes with
  | dropped hnone hopened _ =>
    rw [hnone, LoopState.requests, hopened]
    exact (List.append_nil _).symm
  | @opened opened rx _ hopen hopened _ _ =>
    have hin : requestIn S st f = requestOf (f.type, opened) := by
      rw [requestIn, hopen, Option.bind_some]
    rw [hin, ← requests_accept st f opened rx, LoopState.requests, hopened]
    rfl

theorem requestIn_of_type (hf : f.type ≠ .request) : requestIn S st f = none := by
  rw [requestIn, Option.bind_eq_none_iff]
  exact fun _ _ => if_neg hf

theorem requestIn_of_closed (hopen : openChecked S st.conn.v2 st.conn.rx f = none) :
    requestIn S st f = none := by
  rw [requestIn, hopen, Option.bind_none]

/-! ### Passes -/

/-- At most one handler is called for a frame, and no frame is opened. -/
structure LoopState.Leads (g : ClientFrame) (st st' : LoopState) : Prop where
  opened : st'.conn.opened = st.conn.opened
  calls : ∃ call : Option HandlerCall, st'.calls = st.calls ++ call.toList ∧ ∀ c ∈ call, c.For g

theorem leads_none {g : ClientFrame} (hopened : st'.conn.opened = st.conn.opened)
    (hcalls : st'.calls = st.calls) : st.Leads g st' :=
  ⟨hopened, none, by rw [hcalls]; exact (List.append_nil _).symm, by simp⟩

theorem leads_call {g : ClientFrame} {c : HandlerCall} (hopened : st'.conn.opened = st.conn.opened)
    (hcalls : st'.calls = st.calls ++ [c]) (hfor : c.For g) : st.Leads g st' := by
  refine ⟨hopened, some c, hcalls, fun c' hc => ?_⟩
  rwa [← Option.some.inj hc]

/-- A reply calls nobody. -/
theorem LoopState.Leads.reply {g : ClientFrame} (h : st.Leads g st') (req : RequestPayload)
    (status : UInt8) (data : Bytes) (ok : Bool) :
    st.Leads g (st'.reply S req status data ok) := by
  have hcalls : (st'.reply S req status data ok).calls = st'.calls :=
    congrArg Books.calls (books_reply req status data ok)
  obtain ⟨contents, hwrites, -⟩ := writes_reply (S := S) st' req status data ok
  exact ⟨hwrites.opened.trans h.opened, by rw [hcalls]; exact h.calls⟩

variable (S cfg env) in
/-- A request is served. -/
theorem leads_serve (st : LoopState) (req : RequestPayload) (entry : EndpointEntry) :
    st.Leads (.request req) (serve S cfg env st req entry) := by
  have hunary : st.Leads (.request req) (st.called (.unary req.endpoint req.data)) :=
    leads_call rfl rfl .unary
  rw [serve]
  cases entry.kind with
  | topic =>
    simp only
    split
    · exact (leads_none rfl rfl).reply req 1 _ _
    · cases env.topics.lookup req.endpoint with
      | none => exact leads_none rfl rfl
      | some topic => exact leads_call rfl rfl .subscribe
  | receive | send =>
    simp only
    split
    · exact hunary.reply req 0 _ _
    · exact hunary.reply req 1 _ _
  | streamSend =>
    obtain ⟨contents, hwrites, -⟩ := writes_sendChunks (S := S)
      (st.called (.streamSend req.endpoint req.data)) req.requestId
      (env.streamSend req.data req.endpoint) env.wrote
    exact leads_call hwrites.opened (congrArg Books.calls (books_sendChunks _ _ _)) .streamSend
  | streamReceive => exact (leads_none rfl rfl).reply req 1 _ _

/-- The request of `unsubscribe` is carried out. -/
theorem leads_unsubscribe (st : LoopState) {req : RequestPayload}
    (hun : req.endpoint = kUnsubscribeEndpoint) :
    st.Leads (.request req) (st.unsubscribe req.data) := by
  rw [LoopState.unsubscribe]
  split
  · next hlen =>
    split
    · next sub hfind =>
      have hid : sub.2 = getU64 ⟨req.data, hlen⟩ := by simpa using List.find?_some hfind
      have hdata : req.data = putU64 sub.2 :=
        ((getU64_iff ⟨req.data, hlen⟩ sub.2).mp hid.symm).trans (putU64_eq sub.2).symm
      exact leads_call rfl rfl (.unsubscribe hun hdata)
    · exact leads_none rfl rfl
  · exact leads_none rfl rfl

theorem leads_dispatch {req : RequestPayload} (h : dispatch S cfg env st req = .ok st') :
    st.Leads (.request req) st' := by
  rw [dispatch] at h
  split at h
  · next hun =>
    cases h
    exact leads_unsubscribe st hun
  · cases hentry : env.handlers.lookup req.endpoint with
    | none =>
      rw [hentry] at h
      cases h
      exact (leads_none rfl rfl).reply req 2 _ _
    | some entry =>
      simp only [hentry] at h
      obtain ⟨⟨allowed, cache⟩, -, h⟩ := bind_eq_ok.mp h
      cases h
      cases allowed with
      | false =>
        have hcache : st.Leads (.request req) { st with authzCache := cache } := leads_none rfl rfl
        exact hcache.reply req 3 _ _
      | true =>
        obtain ⟨hopened, hcalls⟩ := leads_serve S cfg env { st with authzCache := cache } req entry
        exact ⟨hopened, hcalls⟩

/-- A frame was opened, and led to a call. -/
theorem takes_of_leads {opened : Bytes} {rx : RxState}
    (hopen : openChecked S st.conn.v2 st.conn.rx f = some (opened, rx)) {g : ClientFrame}
    (hg : frameOf (f.type, opened) = some g) (h : (st.accept f opened rx).Leads g st') :
    st.Takes S f st' := by
  obtain ⟨hopened, call, hcalls, hfor⟩ := h
  exact .opened hopen hopened hcalls fun c hc => ⟨g, hg, hfor c hc⟩

/-- A frame was opened, and led to no call. -/
theorem takes_quiet {opened : Bytes} {rx : RxState}
    (hopen : openChecked S st.conn.v2 st.conn.rx f = some (opened, rx))
    (hopened : st'.conn.opened = (st.accept f opened rx).conn.opened)
    (hcalls : st'.calls = st.calls) : st.Takes S f st' := by
  have hnone : st'.calls = st.calls ++ (none : Option HandlerCall).toList := by
    rw [hcalls]
    exact (List.append_nil _).symm
  exact .opened hopen hopened hnone fun c hc => by cases hc

theorem takes_handleRequest (hf : f.type = .request) {o : Outcome}
    (h : handleRequest S cfg env st f = .ok o) : st.Takes S f o.state := by
  rw [handleRequest] at h
  cases hopen : openChecked S st.conn.v2 st.conn.rx f with
  | none =>
    rw [hopen] at h
    cases h
    exact .dropped (requestIn_of_closed hopen) rfl rfl
  | some p =>
    obtain ⟨opened, rx⟩ := p
    simp only [hopen] at h
    cases hdec : decodeRequest opened with
    | oob | reject =>
      rw [hdec] at h
      cases h
      exact takes_quiet hopen rfl rfl
    | accept req =>
      have hg : frameOf (f.type, opened) = some (.request req) :=
        frameOf_of_request (by simp [requestOf, hf, hdec])
      simp only [hdec] at h
      split at h
      · cases h
        have hwrites : Writes S (rateLimit cfg env (st.accept f opened rx))
            ((rateLimit cfg env (st.accept f opened rx)).sendSealed S .error
              (encodeError (rateLimitError cfg)) (env.wrote 0)) _ :=
          writes_sendSealed (by decide) _ _
        exact takes_quiet hopen hwrites.opened rfl
      · obtain ⟨st', hdispatch, h⟩ := bind_eq_ok.mp h
        cases h
        obtain ⟨hopened, hcalls⟩ := leads_dispatch hdispatch
        exact takes_of_leads hopen hg ⟨hopened, hcalls⟩

theorem takes_handleChunk (hf : f.type = .streamChunk) {o : Outcome}
    (h : handleChunk S cfg env st f = .ok o) : st.Takes S f o.state := by
  rw [handleChunk] at h
  cases hopen : openChecked S st.conn.v2 st.conn.rx f with
  | none =>
    rw [hopen] at h
    cases h
    exact .dropped (requestIn_of_closed hopen) rfl rfl
  | some p =>
    obtain ⟨opened, rx⟩ := p
    simp only [hopen] at h
    cases hdec : decodeStreamChunk opened with
    | oob | reject =>
      rw [hdec] at h
      cases h
      exact takes_quiet hopen rfl rfl
    | accept chunk =>
      have hg : frameOf (f.type, opened) = some (.streamChunk chunk) :=
        frameOf_of_chunk (by simp [chunkOf, hf, hdec])
      simp only [hdec] at h
      cases hentry : (env.handlers.lookup chunk.endpoint).filter
          fun e => e.kind = .streamReceive with
      | none =>
        rw [hentry] at h
        cases h
        exact takes_quiet hopen rfl rfl
      | some entry =>
        simp only [hentry] at h
        obtain ⟨⟨allowed, cache⟩, -, h⟩ := bind_eq_ok.mp h
        cases h
        cases allowed with
        | false => exact takes_quiet hopen rfl rfl
        | true => exact takes_of_leads hopen hg (leads_call rfl rfl .streamRecv)

theorem takes_handleRekey (hf : f.type ≠ .request) {o : Outcome}
    (h : handleRekey S env st f = .ok o) : st.Takes S f o.state := by
  have hcalls : o.state.calls = st.calls := congrArg Books.calls (books_handleRekey h)
  rw [handleRekey] at h
  split at h
  · cases h
    exact .dropped (requestIn_of_type hf) rfl rfl
  next hv2 =>
  cases hopen : openChecked S st.conn.v2 st.conn.rx f with
  | none =>
    rw [hopen] at h
    cases h
    exact .dropped (requestIn_of_closed hopen) rfl rfl
  | some p =>
    obtain ⟨opened, rx⟩ := p
    simp only [hopen] at h
    split at h
    · split at h
      · cases h
        exact takes_quiet hopen rfl rfl
      · obtain ⟨nk, -, h⟩ := bind_eq_ok.mp h
        cases h
        have hv2' : (st.accept f opened rx).conn.v2 = true := Bool.eq_true_of_not_eq_false hv2
        obtain ⟨contents, hwrites, -⟩ := writes_sendRekeyAckAndSwitch (S := S)
          (st.accept f opened rx) env.eph nk (env.wrote 0) hv2'
        refine takes_quiet hopen ?_ hcalls
        split
        · exact hwrites.opened
        · exact hwrites.opened
    · cases h
      exact takes_quiet hopen rfl rfl

/-- **What a pass takes from the frame it has read.** -/
theorem takes_of_pass {o : Outcome} (h : pass S cfg env st f = .ok o) : st.Takes S f o.state := by
  have hothers : ∀ {st'}, LoopState.Takes S
      { st with conn := { st.conn with alive := st.conn.alive && env.othersAlive } } f st' →
      st.Takes S f st' := by
    intro st' htakes
    cases htakes with
    | dropped hnone hopened hcalls => exact .dropped hnone hopened hcalls
    | opened hopen hopened hcalls hfor => exact .opened hopen hopened hcalls hfor
  have hno : ∀ {type : FrameType}, f.type = type → type ≠ .request → f.type ≠ .request :=
    fun hf hne => by rwa [hf]
  rw [pass] at h
  split at h
  · next hf =>
    cases h
    exact .dropped (requestIn_of_type (hno hf (by decide))) rfl rfl
  split at h
  · next hf =>
    cases h
    exact .dropped (requestIn_of_type (hno hf (by decide))) rfl rfl
  split at h
  · next hf =>
    cases h
    exact .dropped (requestIn_of_type (hno hf (by decide))) rfl rfl
  split at h
  · next hf => exact hothers (takes_handleRekey (hno hf (by decide)) h)
  split at h
  · next hf => exact hothers (takes_handleChunk hf h)
  split at h
  · next hf => exact hothers (takes_handleRequest hf h)
  · next hf =>
    cases h
    exact .dropped (requestIn_of_type hf) rfl rfl

/-- The handler of a StreamSend request is called. -/
theorem takes_of_openStream {req : RequestPayload}
    (h : openStream S cfg env st f = .ok (some (req, st'))) : st.Takes S f st' := by
  obtain ⟨opened, rx, entry, cache, hopen, hreq, -, -, -, -, -, rfl⟩ :=
    (streams_of_openStream h).exists_open
  exact takes_of_leads hopen (frameOf_of_request hreq) (leads_call rfl rfl .streamSend)

/-! ### Steps -/

/-- **Every step keeps the order** of a connection that is alive after it. -/
theorem Desk.inOrder_of_step {c : ℕ} {d d' : Desk} {a : Desk.Act}
    (hsynced : (d.hub.conns c).Synced S) (hstep : Desk.Step S cfg d a d')
    (halive : (d'.hub.conns c).conn.alive = true) (h : (d.hub.conns c).InOrder) :
    (d'.hub.conns c).InOrder := by
  cases hreads : a.reads c with
  | none =>
    obtain ⟨hwrote, hcalls⟩ := wrote_of_step hsynced hstep hreads
    obtain ⟨fs, -, hsends⟩ := hwrote.sends halive
    exact inOrder_of_same hcalls hsends.same.2.1 h
  | some f =>
    obtain ⟨env, rfl⟩ := Act.reads_eq_some hreads
    cases effect_of_step hstep with
    | aside _ hno _ => exact absurd rfl (hno c f env)
    | @frame _ _ _ o _ _ hpass =>
      have hself : (d.hub.handled c o).conns c = o.state := Function.update_self _ _ _
      rw [hself]
      exact (takes_of_pass hpass).inOrder h
    | @opened _ _ _ req st _ _ hopen =>
      have hself : (d.hub.handled c (.next st)).conns c = st := Function.update_self _ _ _
      rw [hself]
      exact (takes_of_openStream hopen).inOrder h

end

/-- What was sealed is read back as the frames that were made. -/
theorem Line.frames_sealed {l : Line} (hseals : l.Seals) (hshort : l.Short)
    (hfits : ∀ x ∈ l.side.conn.sealed, x.plaintext.length < 2 ^ 32) :
    (l.side.conn.sealed.map SealCall.content).filterMap frameOf = l.sent := by
  have hframes : (l.side.conn.sealed.map SealCall.content).filterMap frameOf
      = l.sent.filterMap some := by
    refine filterMap_sealed hseals hfits (fun x htype => ?_) fun f hf hlen => ?_
    · rw [frameOf, requestOf, chunkOf, if_neg (by rw [htype]; decide),
        if_neg (by rw [htype]; decide)]
      rfl
    · have hname := hshort.made f (List.mem_append_left _ hf)
      cases f with
      | request req => exact frameOf_of_request (requestOf_content hname hlen)
      | streamChunk chunk => exact frameOf_of_chunk (chunkOf_content hname hlen)
  rw [hframes, List.filterMap_some]

namespace Link

variable {S : Sodium} {cfg : HostConfig} {c : ℕ} {E : Set Bytes} {k k' : Link}

/-- What the host has opened are the first frames that the client has sealed. -/
theorem Inv.frames_sent (hS : S.AeadCorrect) (h : k.Inv S cfg c E) :
    (k.conn c).frames <+: k.line.sent := by
  obtain ⟨s, hend, hcarries⟩ := h.session
  obtain ⟨xs, hsealed, -⟩ := delivered_toHost hend hcarries
  rw [← Line.frames_sealed h.seals h.short (h.up.client.fits hS), hsealed, List.filterMap_append]
  exact List.prefix_append _ _

theorem inOrder_of_steady (h : k.Inv S cfg c E) {a : Act} (hstep : SteadyStep c S cfg E k a k')
    (hinorder : (k.conn c).InOrder) : (k'.conn c).InOrder := by
  obtain ⟨hstep, -, hup⟩ := hstep
  cases a with
  | host a =>
    obtain ⟨rest, -, hstep⟩ := Option.bind_eq_some_iff.mp hstep
    obtain ⟨d, hd, rfl⟩ := Option.map_eq_some_iff.mp hstep
    exact Desk.inOrder_of_step h.answering.fed.synced hd hup.host hinorder
  | client a =>
    obtain ⟨l, -, rfl⟩ := Option.map_eq_some_iff.mp hstep
    exact hinorder

end Link

/-- **The handlers of a connection are called in the order in which its client has sealed the
frames**, on a connection that stays up and has drawn fewer than `2 ^ 64` request ids: for each
frame one handler is called at most, with the endpoint and the data of this frame, and for nothing
that the client has not sealed is any called. -/
theorem handlers_called_in_order (S : Sodium) (hS : S.AeadCorrect) (hkx : S.KxAgree)
    (cfg : HostConfig) (c : ℕ) (E : Set Bytes) (run : ℕ → ServerRun) (acc : ℕ → Accept)
    (hs : ℕ → HandshakeResult) (eph : EphemeralKeyPair) (client : HandshakeResult)
    (rotation : RotationPolicy) (now : ℕ) (hpaired : Paired S eph client (run c) (hs c))
    (acts : List Link.Act) (k : Link)
    (hrun : Run (Link.SteadyStep c S cfg E) (.start cfg run acc hs eph client rotation now) acts k)
    (hlt : k.line.side.calls.drawn.length < 2 ^ 64) :
    (k.conn c).calls.SublistForall₂ HandlerCall.For k.line.sent := by
  have hinv : k.Inv S cfg c E ∧ (k.conn c).InOrder := by
    refine hrun.preserves (I := fun t => t.line.side.calls.drawn.length < 2 ^ 64 →
      t.Inv S cfg c E ∧ (t.conn c).InOrder) (fun _ => ?_) (fun t a t' h hstep hlt => ?_) hlt
    · exact ⟨Link.inv_start hpaired rotation now E, .nil⟩
    · obtain ⟨hinv, hinorder⟩ := h (lt_of_le_of_lt (Link.drawn_le hstep.1) hlt)
      exact ⟨hinv.step hS hkx hstep hlt, Link.inOrder_of_steady hinv hstep hinorder⟩
  obtain ⟨hinv, hinorder⟩ := hinv
  obtain ⟨l, hl, hsub⟩ := List.sublistForall₂_iff.mp hinorder
  exact List.sublistForall₂_iff.mpr ⟨l, hl, hsub.trans (hinv.frames_sent hS).sublist⟩

open BusyLink RotatedSession in
/-- Three calls for three frames, with a rotation in between. -/
theorem handlers_called_in_order_rotated :
    ((linkEnd.get linkEnd_isSome).conn 0).calls = [.streamRecv [114] [1] false,
      .streamSend [115] [7], .streamRecv [114] [] true] ∧
    (linkEnd.get linkEnd_isSome).line.side.conn.tx.epoch = 1 ∧
    ((linkEnd.get linkEnd_isSome).conn 0).calls.SublistForall₂ HandlerCall.For
      (linkEnd.get linkEnd_isSome).line.sent := by
  obtain ⟨acts, hrun⟩ := run_of_play (Option.some_get linkEnd_isSome).symm
  refine ⟨by decide +kernel, by decide +kernel, ?_⟩
  exact handlers_called_in_order sodium (Sodium.symbolic_aeadCorrect [])
    (Sodium.symbolic_kxAgree []) config 0 {[114]} (fun _ => serverRun)
    (fun _ => SameRequestId.accept) (fun _ => hostResult) (ephemeral 1) clientResult
    { interval := 1 } 0 paired acts _ hrun (by decide +kernel)

end Epx
