import Epx.Verdicts

/-!
# What the loop of a connection does, in the steps of its critical sections

A `LoopState` handles a frame in one step, and a `Desk` publishes to all subscribers of a topic in
one; a `HostConn` has one step for each thing that another thread can see happen. Whatever a desk
does to one of its connections is a run of steps of a `HostConn`, no matter which writes succeed: a
frame is read and then written about, or frames are written.

What is decided about requests is found in it too: the RESPONSEs that are sealed are those that the
decision of the pass asks for, even if none of them gets through.

## Main definitions

* `HostConn.placed` — a connection with its thread elsewhere
* `LoopState.Speaks` — from one state to another there were only writes
* `LoopState.Ruled` — decisions were carried out
* `LoopState.Handles` — a frame was read and handled

## Main results

* `handles_of_pass`, `handles_of_openStream`
* `Desk.speaks_of_step`
-/

namespace Epx

open Codec Exception Transition LoopState

namespace HostConn

/-- The connection with its thread elsewhere, and with other ephemerals drawn. -/
def placed (h : HostConn) (r : HostReader) (d : List EphemeralKeyPair) : HostConn :=
  { h with reader := r, drawn := d }

/-- A write: of a frame with contents in `P`, of a ping, or of the answer to a REKEY. -/
inductive Act.Writes (P : FrameType × Bytes → Prop) : Act → Prop
  | send {type : FrameType} {plaintext : Bytes} {ok : Bool} : P (type, plaintext) →
      Writes P (.send type plaintext ok)
  | ping {ok : Bool} : Writes P (.ping ok)
  | ack {ok : Bool} : Writes P (.ackAndSwitch ok)

section

variable {S : Sodium} {h h' : HostConn} {P : FrameType × Bytes → Prop}

theorem Act.Writes.mono {Q : FrameType × Bytes → Prop} {a : Act} (ha : a.Writes P)
    (hle : ∀ x, P x → Q x) : a.Writes Q := by
  cases ha with
  | send hP => exact .send (hle _ hP)
  | ping => exact .ping
  | ack => exact .ack

/-- What a write seals. Reading a frame seals nothing. -/
theorem sealed_of_write {a : Act} (ha : a.Writes P ∨ ∃ f eph ok, a = .receive f eph ok)
    (hstep : h.Step S a h') :
    ∀ x ∈ h'.sealed, x ∈ h.sealed ∨ x.type = .rekeyAck ∨ P x.content := by
  obtain ⟨-, out, hfun⟩ := hstep
  intro x hx
  have hack : ∀ y : SealCall, y.type = .rekeyAck → x ∈ h.sealed ++ [y] →
      x ∈ h.sealed ∨ x.type = .rekeyAck ∨ P x.content := by
    intro y hy hmem
    rcases List.mem_append.mp hmem with hx | hx
    · exact Or.inl hx
    · rw [List.mem_singleton.mp hx]
      exact Or.inr (Or.inl hy)
  cases effect_of_step S hfun with
  | sent _ _ =>
    rcases List.mem_append.mp hx with hx | hx
    · exact Or.inl hx
    · rw [List.mem_singleton.mp hx]
      rcases ha with ha | ⟨f, eph, ok, heq⟩
      · cases ha with
        | send hP => exact Or.inr (Or.inr hP)
      · cases heq
  | ackFailed _ _ => exact hack _ rfl hx
  | switched _ _ => exact hack _ rfl hx
  | dead _ | pinged _ | ackDead _ _ | ponged _ _ | broke _ _ | skipped _ _ _ _ | refused _ _ _
  | opened _ _ _ | quit _ | shutdown _ => exact Or.inl hx

/-- What writes seal. -/
theorem sealed_of_writes {acts : List Act} (hrun : Run (HostConn.Step S) h acts h')
    (hacts : ∀ a ∈ acts, a.Writes P ∨ ∃ f eph ok, a = .receive f eph ok) :
    ∀ x ∈ h'.sealed, x ∈ h.sealed ∨ x.type = .rekeyAck ∨ P x.content := by
  induction hrun with
  | nil => exact fun x hx => Or.inl hx
  | snoc _ hlast ih =>
    intro x hx
    rcases sealed_of_write (hacts _ (by simp)) hlast x hx with hx | hx
    · exact ih (fun a ha => hacts a (List.mem_append_left _ ha)) x hx
    · exact Or.inr hx

/-- Writes open nothing. -/
theorem opened_of_writes {acts : List Act} (hrun : Run (HostConn.Step S) h acts h')
    (hacts : ∀ a ∈ acts, a.Writes P) : h'.opened = h.opened := by
  induction hrun with
  | nil => rfl
  | @snoc as a t u _ hlast ih =>
    have hopened := ih fun a ha => hacts a (List.mem_append_left _ ha)
    have ha := hacts a (List.mem_append_right _ (List.mem_singleton_self a))
    obtain ⟨-, out, hfun⟩ := hlast
    cases effect_of_step S hfun with
    | ponged _ _ | broke _ _ | skipped _ _ _ _ | refused _ _ _ | opened _ _ _ | quit _
    | shutdown _ => cases ha
    | _ => exact hopened

/-- A ping leaves the session alone. -/
theorem session_of_pings {acts : List Act} (hrun : Run (HostConn.Step S) h acts h')
    (hacts : ∀ a ∈ acts, ∃ ok, a = .ping ok) :
    h'.sealed = h.sealed ∧ h'.rx = h.rx ∧ h'.v2 = h.v2 := by
  induction hrun with
  | nil => exact ⟨rfl, rfl, rfl⟩
  | @snoc as a t u _ hlast ih =>
    have hsame := ih fun a ha => hacts a (List.mem_append_left _ ha)
    obtain ⟨ok, rfl⟩ := hacts a (List.mem_append_right _ (List.mem_singleton_self a))
    obtain ⟨-, out, hfun⟩ := hlast
    cases effect_of_step S hfun with
    | dead _ | pinged _ => exact hsame

end

end HostConn

namespace LoopState

/-- From `st` to `st'` there were only writes, of frames with contents in `P`. -/
def Speaks (S : Sodium) (P : FrameType × Bytes → Prop) (st st' : LoopState) : Prop :=
  ∀ r d, ∃ acts, Run (HostConn.Step S) (st.conn.placed r d) acts (st'.conn.placed r d) ∧
    ∀ a ∈ acts, a.Writes P

section

variable {S : Sodium} {P : FrameType × Bytes → Prop} {st st' : LoopState}

theorem speaks_same (hconn : st'.conn = st.conn) : st.Speaks S P st' := fun r d =>
  ⟨[], by rw [hconn]; exact .nil, by simp⟩

theorem Speaks.trans {st'' : LoopState} (h : st.Speaks S P st') (h' : st'.Speaks S P st'') :
    st.Speaks S P st'' := by
  intro r d
  obtain ⟨acts, hrun, hacts⟩ := h r d
  obtain ⟨acts', hrun', hacts'⟩ := h' r d
  refine ⟨acts ++ acts', hrun.trans hrun', fun a ha => ?_⟩
  rcases List.mem_append.mp ha with ha | ha
  · exact hacts a ha
  · exact hacts' a ha

theorem Speaks.mono {Q : FrameType × Bytes → Prop} (h : st.Speaks S P st')
    (hle : ∀ x, P x → Q x) : st.Speaks S Q st' := by
  intro r d
  obtain ⟨acts, hrun, hacts⟩ := h r d
  exact ⟨acts, hrun, fun a ha => (hacts a ha).mono hle⟩

theorem speaks_sendSealed (st : LoopState) {type : FrameType} (htype : HostType type)
    (plaintext : Bytes) (ok : Bool) (hP : P (type, plaintext)) :
    st.Speaks S P (st.sendSealed S type plaintext ok) := by
  intro r d
  refine ⟨[.send type plaintext ok], .snoc .nil ⟨trivial, ?_⟩, fun a ha => ?_⟩
  · refine ⟨(st.conn.sendSealed S type plaintext ok).2, ?_⟩
    have hsend : (st.conn.placed r d).sendSealed S type plaintext ok
        = ((st.conn.sendSealed S type plaintext ok).1.placed r d,
          (st.conn.sendSealed S type plaintext ok).2) := by
      cases halive : st.conn.alive with
      | false => simp [HostConn.sendSealed, HostConn.placed, halive]
      | true => simp [HostConn.sendSealed, HostConn.placed, halive]
    exact (if_pos htype).trans (by rw [hsend]; rfl)
  · rw [List.mem_singleton.mp ha]
    exact .send hP

theorem speaks_sendPing (st : LoopState) (ok : Bool) : st.Speaks S P (st.sendPing ok) := by
  intro r d
  refine ⟨[.ping ok], .snoc .nil ⟨trivial, (st.conn.sendPing ok).2, ?_⟩, fun a ha => ?_⟩
  · have hsend : (st.conn.placed r d).sendPing ok
        = ((st.conn.sendPing ok).1.placed r d, (st.conn.sendPing ok).2) := by
      cases halive : st.conn.alive with
      | false => simp [HostConn.sendPing, HostConn.placed, halive]
      | true => simp [HostConn.sendPing, HostConn.placed, halive]
    rw [HostConn.step, hsend]
    rfl
  · rw [List.mem_singleton.mp ha]
    exact .ping

/-- A write of another thread has failed. -/
theorem speaks_dead (hconn : st'.conn = { st.conn with alive := false }) : st.Speaks S P st' := by
  have hping := speaks_sendPing (S := S) (P := P) st false
  intro r d
  obtain ⟨acts, hrun, hacts⟩ := hping r d
  refine ⟨acts, ?_, hacts⟩
  have hend : (st.sendPing false).conn = st'.conn := by
    rw [hconn, LoopState.sendPing, HostConn.sendPing]
    split
    · next halive =>
      have hsame : { st.conn with alive := false } = st.conn := by rw [← halive]
      exact hsame.symm
    · rfl
  rw [← hend]
  exact hrun

theorem speaks_sendChunks (hP : ∀ x : FrameType × Bytes, x.1 ≠ .response → P x) (st : LoopState)
    (requestId : UInt64) (chunks : List Bytes) (wrote : ℕ → Bool) :
    st.Speaks S P (st.sendChunks S requestId chunks wrote) := by
  have hchunk : ∀ (s : LoopState) (seq : ℕ) (isLast : Bool) (data : Bytes) (ok : Bool),
      s.Speaks S P (s.sendChunk S requestId seq isLast data ok) := fun s _ _ _ ok =>
    speaks_sendSealed s (Or.inr (Or.inl rfl)) _ ok
      (hP _ (by decide : FrameType.streamChunk ≠ .response))
  have hfold : ∀ (l : List (Bytes × ℕ)) (s : LoopState), s.Speaks S P
      (l.foldl (fun s p => s.sendChunk S requestId p.2 false p.1 (wrote p.2)) s) := by
    intro l
    induction l with
    | nil => exact fun s => speaks_same rfl
    | cons p l ih => exact fun s => (hchunk s _ _ _ _).trans (ih _)
  exact (hfold _ st).trans (hchunk _ _ _ _ _)

end

/-- The RESPONSEs are those of the decisions `l`. -/
def Rules (l : Docket) (x : FrameType × Bytes) : Prop := x.1 = .response → x ∈ l.responses

/-- From `st` to `st'` the decisions `l` were carried out: the handlers were called, and no other
RESPONSEs were sealed than those of the decisions. -/
structure Ruled (S : Sodium) (st st' : LoopState) (l : Docket) : Prop where
  speaks : st.Speaks S (Rules l) st'
  served : st'.served = st.served ++ l.calls

/-- From `st` to `st'` the frame `f` was read and handled, with the decisions `l`; `more` if the
loop goes on. Before it a write of another thread may have failed. -/
structure Handles (S : Sodium) (f : RawFrame) (env : Pass) (st st' : LoopState) (l : Docket)
    (more : Prop) : Prop where
  run : ∀ d : List EphemeralKeyPair, (f.type = .rekey → S.IsKxPair env.eph ∧
      env.eph.publicKey ∉ d.map EphemeralKeyPair.publicKey) →
    ∃ pings ok acts r d', Run (HostConn.Step S) (st.conn.placed .running d)
      (pings ++ .receive f env.eph ok :: acts) (st'.conn.placed r d') ∧
      (∀ a ∈ pings, ∃ ok, a = .ping ok) ∧ (∀ a ∈ acts, a.Writes (Rules l)) ∧
      (∀ e ∈ d', e ∈ d ∨ f.type = .rekey ∧ e = env.eph) ∧ (more → r = .running)
  served : st'.served = st.served ++ l.calls

end LoopState

/-! ### Decisions are carried out -/

section

variable {S : Sodium} {cfg : HostConfig} {env : Pass} {st st' : LoopState} {f : RawFrame}
  {req : RequestPayload} {l l' : Docket}

theorem mem_responses_left {x : FrameType × Bytes} (h : x ∈ l.responses) :
    x ∈ (l ++ l').responses := by
  rw [Docket.responses, List.flatMap_append]
  exact List.mem_append_left _ h

theorem mem_responses_right {x : FrameType × Bytes} (h : x ∈ l'.responses) :
    x ∈ (l ++ l').responses := by
  rw [Docket.responses, List.flatMap_append]
  exact List.mem_append_right _ h

theorem LoopState.Ruled.trans {st'' : LoopState} (h : st.Ruled S st' l) (h' : st'.Ruled S st'' l') :
    st.Ruled S st'' (l ++ l') where
  speaks := (h.speaks.mono fun _ hx htype => mem_responses_left (hx htype)).trans
    (h'.speaks.mono fun _ hx htype => mem_responses_right (hx htype))
  served := by
    rw [h'.served, h.served, List.append_assoc, Docket.calls, Docket.calls, Docket.calls,
      List.flatMap_append]

/-- No RESPONSE is sealed, and no handler of a request called. -/
theorem ruled_aside (hspeaks : st.Speaks S (fun x => x.1 ≠ .response) st')
    (hserved : st'.served = st.served) : st.Ruled S st' [] where
  speaks := hspeaks.mono fun _ hx htype => absurd htype hx
  served := by rw [hserved]; exact (List.append_nil _).symm

theorem ruled_same (hconn : st'.conn = st.conn) (hserved : st'.served = st.served) :
    st.Ruled S st' [] :=
  ruled_aside (speaks_same hconn) hserved

/-- The decision is written in a RESPONSE. -/
theorem ruled_reply (hconn : st'.conn = st.conn) {v : Verdict} {status : UInt8} {data : Bytes}
    {ok : Bool} (hserved : st'.served = st.served ++ v.calls req)
    (hreply : v.reply = some (status, data)) :
    st.Ruled S (st'.reply S req status data ok) [(req, v)] where
  speaks := by
    refine (speaks_same hconn).trans ?_
    rw [LoopState.reply]
    split
    · exact speaks_same rfl
    · next hask =>
      refine speaks_sendSealed st' (Or.inl rfl) _ ok fun _ => ?_
      rw [Docket.responses, List.flatMap_cons, List.flatMap_nil, List.append_nil,
        Verdict.responses, if_neg hask, hreply]
      exact List.mem_singleton_self _
  served := by
    have hcalls : (st'.reply S req status data ok).served = st'.served :=
      congrArg (fun b : Books => b.calls.filter HandlerCall.serves)
        (books_reply req status data ok)
    rw [hcalls, hserved, Docket.calls, List.flatMap_cons, List.flatMap_nil, List.append_nil]

/-- **A request that has been let through is served** as it was decided. -/
theorem ruled_serve (cfg : HostConfig) (env : Pass) (st : LoopState) (req : RequestPayload)
    (entry : EndpointEntry) :
    st.Ruled S (serve S cfg env st req entry) [(req, ruling cfg env st req entry)] := by
  have hsilent : ∀ {v : Verdict} {st' : LoopState}, v.reply = none →
      st.Speaks S (fun x => x.1 ≠ .response) st' → st'.served = st.served ++ v.calls req →
      st.Ruled S st' [(req, v)] := by
    intro v st' hnone hspeaks hserved
    refine ⟨hspeaks.mono fun _ hx htype => absurd htype hx, ?_⟩
    rw [hserved, Docket.calls, List.flatMap_cons, List.flatMap_nil, List.append_nil]
  have hquiet : st.served = st.served ++ [] := (List.append_nil _).symm
  rw [serve, ruling]
  cases entry.kind with
  | topic =>
    simp only
    split
    · exact ruled_reply rfl hquiet rfl
    · cases env.topics.lookup req.endpoint with
      | none => exact hsilent rfl (speaks_same rfl) hquiet
      | some topic =>
        refine hsilent rfl (speaks_same rfl) ?_
        rw [Verdict.calls, List.append_nil]
        exact served_called_aside _ rfl
  | receive | send =>
    have hconn : (st.called (.unary req.endpoint req.data)).conn = st.conn := rfl
    have hserved : (st.called (.unary req.endpoint req.data)).served
        = st.served ++ Verdict.calls (.answered (env.unary req.data req.endpoint)) req :=
      served_called st rfl
    simp only
    split
    · next hok =>
      refine ruled_reply hconn hserved ?_
      rw [Verdict.reply, if_pos hok]
    · next hok =>
      refine ruled_reply hconn hserved ?_
      rw [Verdict.reply, if_neg hok]
  | streamSend =>
    have hcalled : st.Speaks S (fun x => x.1 ≠ .response)
        (st.called (.streamSend req.endpoint req.data)) := speaks_same rfl
    refine hsilent rfl (hcalled.trans (speaks_sendChunks (fun _ hx => hx) _ _ _ _)) ?_
    have hcalls : ((st.called (.streamSend req.endpoint req.data)).sendChunks S req.requestId
        (env.streamSend req.data req.endpoint) env.wrote).served
          = (st.called (.streamSend req.endpoint req.data)).served :=
      congrArg (fun b : Books => b.calls.filter HandlerCall.serves) (books_sendChunks _ _ _)
    rw [hcalls]
    exact served_called st rfl
  | streamReceive => exact ruled_reply rfl hquiet rfl

theorem served_unsubscribe (st : LoopState) (data : Bytes) :
    (st.unsubscribe data).conn = st.conn ∧ (st.unsubscribe data).served = st.served := by
  rw [LoopState.unsubscribe]
  split
  · split
    · exact ⟨rfl, served_called_aside _ rfl⟩
    · exact ⟨rfl, rfl⟩
  · exact ⟨rfl, rfl⟩

/-- **A request within the rate limit is dealt with** as it was decided. -/
theorem ruled_dispatch (h : dispatch S cfg env st req = .ok st') :
    st.Ruled S st' ((verdictOn cfg env st req).map fun v => (req, v)).toList := by
  have hquiet : st.served = st.served ++ [] := (List.append_nil _).symm
  rw [dispatch] at h
  rw [verdictOn]
  split at h
  · next hun =>
    cases h
    rw [if_pos hun]
    obtain ⟨hconn, hserved⟩ := served_unsubscribe st req.data
    exact ruled_same hconn hserved
  · next hun =>
    rw [if_neg hun]
    cases hentry : env.handlers.lookup req.endpoint with
    | none =>
      rw [hentry] at h
      cases h
      exact ruled_reply rfl hquiet rfl
    | some entry =>
      simp only [hentry] at h ⊢
      obtain ⟨⟨allowed, cache⟩, hauth, h⟩ := bind_eq_ok.mp h
      cases h
      simp only [hauth]
      cases allowed with
      | false =>
        have hconn : ({ st with authzCache := cache } : LoopState).conn = st.conn := rfl
        rw [if_neg (by decide), if_neg (by decide)]
        exact ruled_reply hconn hquiet rfl
      | true =>
        have hcache : st.Ruled S { st with authzCache := cache } [] := ruled_same rfl rfl
        rw [if_pos rfl, if_pos rfl]
        exact hcache.trans (ruled_serve cfg env { st with authzCache := cache } req entry)

/-! ### A frame is handled -/

variable {more : Prop}

/-- The frame is read, and nothing else happens. -/
theorem handles_of_receive (ok : Bool) (r : HostReader) (out : Option RawFrame)
    (hconn : st'.conn = st.conn) (hserved : st'.served = st.served)
    (hreceive : ∀ d, (st.conn.placed .running d).receive S f env.eph ok
      = (st.conn.placed r d, out)) (hmore : more → r = .running) :
    st.Handles S f env st' [] more where
  run d hdraws := by
    have hstep : HostConn.Step S (st.conn.placed .running d) (.receive f env.eph ok)
        (st.conn.placed r d) := by
      refine ⟨hdraws, out, ?_⟩
      change some _ = _
      rw [hreceive]
    refine ⟨[], ok, [], r, d, ?_, by simp, by simp, fun e he => Or.inl he, hmore⟩
    rw [hconn]
    exact Run.nil.snoc hstep
  served := by rw [hserved]; exact (List.append_nil _).symm

/-- The frame is not opened. -/
theorem handles_of_closed (hopens : st.conn.opens f.type = true) (hping : f.type ≠ .ping)
    (hb : st.conn.breaks f.type = false)
    (hopen : openChecked S st.conn.v2 st.conn.rx f = none) (hmore : ¬ more) :
    st.Handles S f env st [] more := by
  refine handles_of_receive true .exited none rfl rfl (fun d => ?_)
    fun h => absurd h hmore
  have hb' : (st.conn.placed .running d).breaks f.type = false := hb
  have hopens' : (st.conn.placed .running d).opens f.type = true := hopens
  have hopen' : openChecked S (st.conn.placed .running d).v2 (st.conn.placed .running d).rx f
      = none := hopen
  rw [HostConn.receive, if_neg hping, hb', if_neg (by decide), if_pos hopens', hopen']
  rfl

/-- A frame is opened. -/
theorem step_accept (hopens : st.conn.opens f.type = true) (hping : f.type ≠ .ping)
    (hb : st.conn.breaks f.type = false) {opened : Bytes} {rx : RxState}
    (hopen : openChecked S st.conn.v2 st.conn.rx f = some (opened, rx))
    {d : List EphemeralKeyPair} (hdraws : f.type = .rekey → S.IsKxPair env.eph ∧
      env.eph.publicKey ∉ d.map EphemeralKeyPair.publicKey) :
    HostConn.Step S (st.conn.placed .running d) (.receive f env.eph true)
      ((st.accept f opened rx).conn.placed (st.conn.afterOpen S f.type opened env.eph)
        (if f.type = .rekey then env.eph :: d else d)) := by
  refine ⟨hdraws, none, ?_⟩
  change some _ = _
  rw [HostConn.receive_opened S hping
    (show (st.conn.placed .running d).breaks f.type = false from hb)
    (show (st.conn.placed .running d).opens f.type = true from hopens) hopen]
  rfl

theorem mem_drawn {e : EphemeralKeyPair} {d : List EphemeralKeyPair}
    (h : e ∈ if f.type = .rekey then env.eph :: d else d) :
    e ∈ d ∨ f.type = .rekey ∧ e = env.eph := by
  split at h
  · next htype =>
    rcases List.mem_cons.mp h with h | h
    · exact Or.inr ⟨htype, h⟩
    · exact Or.inl h
  · exact Or.inl h

/-- A frame is opened, and decisions are carried out. -/
theorem handles_of_open (hopens : st.conn.opens f.type = true) (hping : f.type ≠ .ping)
    (hb : st.conn.breaks f.type = false) {opened : Bytes} {rx : RxState}
    (hopen : openChecked S st.conn.v2 st.conn.rx f = some (opened, rx))
    (hruled : (st.accept f opened rx).Ruled S st' l)
    (hmore : more → st.conn.afterOpen S f.type opened env.eph = .running) :
    st.Handles S f env st' l more where
  run d hdraws := by
    obtain ⟨acts, hrun, hacts⟩ := hruled.speaks (st.conn.afterOpen S f.type opened env.eph)
      (if f.type = .rekey then env.eph :: d else d)
    exact ⟨[], true, acts, _, _, (Run.nil.snoc (step_accept hopens hping hb hopen hdraws)).trans
      hrun, by simp, hacts, fun e he => mem_drawn he, hmore⟩
  served := hruled.served

theorem LoopState.Handles.imp {more' : Prop} (h : st.Handles S f env st' l more)
    (hmore : more' → more) : st.Handles S f env st' l more' where
  run d hdraws := by
    obtain ⟨pings, ok, acts, r, d', hrun, hpings, hacts, hd, hr⟩ := h.run d hdraws
    exact ⟨pings, ok, acts, r, d', hrun, hpings, hacts, hd, fun hmore' => hr (hmore hmore')⟩
  served := h.served

/-- What other threads have done before the frame was read. -/
theorem LoopState.Handles.others (h : LoopState.Handles S f env
    { st with conn := { st.conn with alive := st.conn.alive && env.othersAlive } } st' l more) :
    st.Handles S f env st' l more where
  run d hdraws := by
    obtain ⟨pings, ok, acts, r, d', hrun, hpings, hacts, hd, hmore⟩ := h.run d hdraws
    cases hothers : env.othersAlive with
    | true =>
      rw [hothers, Bool.and_true] at hrun
      exact ⟨pings, ok, acts, r, d', hrun, hpings, hacts, hd, hmore⟩
    | false =>
      rw [hothers, Bool.and_false] at hrun
      have hfirst : HostConn.Step S (st.conn.placed .running d) (.ping false)
          ({ st.conn with alive := false }.placed .running d) := by
        refine ⟨trivial, none, ?_⟩
        change some _ = _
        rw [HostConn.sendPing]
        split
        · next halive =>
          have hsame : { st.conn with alive := false } = st.conn := by
            rw [← show st.conn.alive = false from halive]
          rw [hsame]
        · rfl
      refine ⟨.ping false :: pings, ok, acts, r, d', (Run.nil.snoc hfirst).trans hrun,
        fun a ha => ?_, hacts, hd, hmore⟩
      rcases List.mem_cons.mp ha with rfl | ha
      · exact ⟨false, rfl⟩
      · exact hpings a ha
  served := h.served

/-- A request or a chunk is opened. -/
theorem opens_of_type (h : HostConn) (hf : f.type = .request ∨ f.type = .streamChunk) :
    h.opens f.type = true ∧ f.type ≠ .ping ∧ h.breaks f.type = false := by
  have hno : ∀ type : FrameType, type = .request ∨ type = .streamChunk →
      type ≠ .ping ∧ type ≠ .bye ∧ type ≠ .rekey := by
    rintro _ (rfl | rfl) <;> decide
  obtain ⟨hping, hbye, hrekey⟩ := hno _ hf
  refine ⟨?_, hping, ?_⟩
  · rcases hf with hf | hf <;> simp [HostConn.opens, hf]
  · simp [HostConn.breaks, hbye, hrekey]

/-- A REKEY is answered. -/
theorem step_ackAndSwitch (g : HostConn) (eph : EphemeralKeyPair) (nk : SessionKeys) (ok : Bool)
    (d : List EphemeralKeyPair) :
    HostConn.Step S (g.placed (.rekeyDerived eph nk) d) (.ackAndSwitch ok)
      ((g.sendRekeyAckAndSwitch S eph nk ok).1.placed
        (g.sendRekeyAckAndSwitch S eph nk ok).1.reader d) := by
  refine ⟨trivial, (g.sendRekeyAckAndSwitch S eph nk ok).2, ?_⟩
  change some _ = _
  cases halive : g.alive with
  | false => simp [HostConn.sendRekeyAckAndSwitch, HostConn.placed, halive]
  | true => cases ok <;> simp [HostConn.sendRekeyAckAndSwitch, HostConn.placed, halive]

theorem handles_handleRequest (hf : f.type = .request) {o : Outcome}
    (h : handleRequest S cfg env st f = .ok o) :
    st.Handles S f env o.state (docketOf S cfg env st f) (∃ st', o = .next st') := by
  obtain ⟨hopens, hping, hb⟩ := opens_of_type st.conn (Or.inl hf)
  rw [handleRequest] at h
  cases hopen : openChecked S st.conn.v2 st.conn.rx f with
  | none =>
    rw [hopen] at h
    cases h
    rw [docketOf_of_none (requestIn_of_closed hopen)]
    exact handles_of_closed hopens hping hb hopen (by simp)
  | some p =>
    obtain ⟨opened, rx⟩ := p
    have hin : requestIn S st f = requestOf (f.type, opened) := by simp [requestIn, hopen]
    simp only [hopen] at h
    cases hdec : decodeRequest opened with
    | oob | reject =>
      rw [hdec] at h
      cases h
      rw [docketOf_of_none (by rw [hin]; simp [requestOf, hf, hdec])]
      exact handles_of_open hopens hping hb hopen (ruled_same rfl rfl) (by simp)
    | accept req =>
      have hreq : requestIn S st f = some req := by rw [hin]; simp [requestOf, hf, hdec]
      have hafter : st.conn.afterOpen S f.type opened env.eph = .running := by
        rw [HostConn.afterOpen, if_neg (by rw [hf]; decide), if_neg (by rw [hf]; decide), hdec]
      simp only [hdec] at h
      simp only [docketOf, hreq]
      refine handles_of_open hopens hping hb hopen ?_ fun _ => hafter
      have hrate : (st.accept f opened rx).Ruled S (rateLimit cfg env (st.accept f opened rx)) []
        := ruled_same rfl rfl
      split at h
      · next hsat =>
        cases h
        have hsat' : saturated cfg env st.delayedInARow = true := hsat
        rw [if_pos hsat']
        exact hrate.trans (ruled_aside (speaks_sendSealed _ (Or.inr (Or.inr rfl)) _ _
          (by decide : FrameType.error ≠ .response)) rfl)
      · next hsat =>
        obtain ⟨st', hdispatch, h⟩ := bind_eq_ok.mp h
        cases h
        have hsat' : ¬ saturated cfg env st.delayedInARow = true := hsat
        rw [if_neg hsat']
        exact hrate.trans (ruled_dispatch hdispatch)

theorem handles_handleChunk (hf : f.type = .streamChunk) {o : Outcome}
    (h : handleChunk S cfg env st f = .ok o) :
    st.Handles S f env o.state [] (∃ st', o = .next st') := by
  obtain ⟨hopens, hping, hb⟩ := opens_of_type st.conn (Or.inr hf)
  rw [handleChunk] at h
  cases hopen : openChecked S st.conn.v2 st.conn.rx f with
  | none =>
    rw [hopen] at h
    cases h
    exact handles_of_closed hopens hping hb hopen (by simp)
  | some p =>
    obtain ⟨opened, rx⟩ := p
    simp only [hopen] at h
    cases hdec : decodeStreamChunk opened with
    | oob | reject =>
      rw [hdec] at h
      cases h
      exact handles_of_open hopens hping hb hopen (ruled_same rfl rfl) (by simp)
    | accept chunk =>
      have hafter : st.conn.afterOpen S f.type opened env.eph = .running := by
        rw [HostConn.afterOpen, if_neg (by rw [hf]; decide), if_pos hf, hdec]
      simp only [hdec] at h
      refine handles_of_open hopens hping hb hopen ?_ fun _ => hafter
      cases hentry : (env.handlers.lookup chunk.endpoint).filter
          fun e => e.kind = .streamReceive with
      | none =>
        rw [hentry] at h
        cases h
        exact ruled_same rfl rfl
      | some entry =>
        simp only [hentry] at h
        obtain ⟨⟨allowed, cache⟩, -, h⟩ := bind_eq_ok.mp h
        cases h
        cases allowed with
        | false => exact ruled_same rfl rfl
        | true => exact ruled_same rfl (served_called_aside _ rfl)

theorem handles_handleRekey (hf : f.type = .rekey) {o : Outcome}
    (h : handleRekey S env st f = .ok o) :
    st.Handles S f env o.state [] (∃ st', o = .next st') := by
  have hping : f.type ≠ .ping := by rw [hf]; decide
  rw [handleRekey] at h
  split at h
  · next hv2 =>
    cases h
    refine handles_of_receive true .exited none rfl rfl (fun d => ?_)
      (by simp)
    have hb : (st.conn.placed .running d).breaks f.type = true := by
      simp [HostConn.breaks, hf, HostConn.placed, hv2]
    rw [HostConn.receive, if_neg hping, if_pos hb]
    rfl
  · next hv2 =>
    have hv2' : st.conn.v2 = true := Bool.eq_true_of_not_eq_false hv2
    have hopens : st.conn.opens f.type = true := by simp [HostConn.opens, hf, hv2']
    have hbye : f.type ≠ .bye := by rw [hf]; decide
    have hb : st.conn.breaks f.type = false := by simp [HostConn.breaks, hbye, hv2']
    cases hopen : openChecked S st.conn.v2 st.conn.rx f with
    | none =>
      rw [hopen] at h
      cases h
      exact handles_of_closed hopens hping hb hopen (by simp)
    | some p =>
      obtain ⟨opened, rx⟩ := p
      simp only [hopen] at h
      split at h
      · next hlen =>
        split at h
        · cases h
          exact handles_of_open hopens hping hb hopen (ruled_same rfl rfl) (by simp)
        · next hepoch =>
          obtain ⟨nk, hnk, h⟩ := bind_eq_ok.mp h
          have hafter : st.conn.afterOpen S f.type opened env.eph = .rekeyDerived env.eph nk := by
            have hepoch' : ¬ st.conn.tx.epoch ≥ 255 := hepoch
            rw [HostConn.afterOpen, if_pos hf, HostConn.afterRekey, dif_pos hlen, if_neg hepoch',
              hnk]
          have hend : o.state.conn = ((st.accept f opened rx).conn.sendRekeyAckAndSwitch S env.eph
              nk (env.wrote 0)).1 ∧ o.state.served = st.served ∧
              ((∃ st', o = .next st') → o.state.conn.reader = .running) := by
            cases h
            split
            · next hreader => exact ⟨rfl, rfl, fun _ => hreader⟩
            · exact ⟨rfl, rfl, by simp⟩
          obtain ⟨hconn, hserved, hreader⟩ := hend
          refine ⟨fun d hdraws => ?_, hserved.trans (List.append_nil _).symm⟩
          have haccept := step_accept hopens hping hb hopen hdraws
          rw [hafter] at haccept
          have hack := step_ackAndSwitch (S := S) (st.accept f opened rx).conn env.eph
            nk (env.wrote 0) (if f.type = .rekey then env.eph :: d else d)
          rw [← hconn] at hack
          refine ⟨[], true, [.ackAndSwitch (env.wrote 0)], _, _,
            (Run.nil.snoc haccept).snoc hack, by simp, fun a ha => ?_, fun e he => mem_drawn he,
            hreader⟩
          rw [List.mem_singleton.mp ha]
          exact .ack
      · cases h
        exact handles_of_open hopens hping hb hopen (ruled_same rfl rfl) (by simp)

/-- **A pass reads its frame and handles it**, whatever writes fail. -/
theorem handles_of_pass {o : Outcome} (h : pass S cfg env st f = .ok o) :
    st.Handles S f env o.state (docketOf S cfg env st f) (∃ st', o = .next st') := by
  have hnone : f.type ≠ .request → docketOf S cfg env st f = [] := fun hf =>
    docketOf_of_none (requestIn_of_type hf)
  have hno : ∀ {type : FrameType}, f.type = type → type ≠ .request → f.type ≠ .request :=
    fun hf hne => by rwa [hf]
  rw [pass] at h
  refine LoopState.Handles.others ?_
  split at h
  · next hf =>
    cases h
    rw [hnone (hno hf (by decide))]
    refine handles_of_receive (env.wrote 0) .running (if env.wrote 0 then some pongFrame else none)
      rfl rfl (fun d => ?_) fun _ => rfl
    rw [HostConn.receive, if_pos hf]
  next hping =>
  have hskipped : ∀ {st₁ : LoopState}, f.type ≠ .bye → f.type ≠ .rekey → f.type ≠ .streamChunk →
      f.type ≠ .request → st₁.Handles S f env st₁ [] (∃ st', Outcome.next st₁ = .next st') := by
    intro st₁ hbye hrekey hchunk hrequest
    refine handles_of_receive true .running none rfl rfl (fun d => ?_)
      fun _ => rfl
    exact HostConn.receive_skipped S hping (by simp [HostConn.breaks, hbye, hrekey])
      (by simp [HostConn.opens, hrekey, hchunk, hrequest])
  split at h
  · next hf =>
    cases h
    rw [hnone (hno hf (by decide))]
    refine hskipped ?_ ?_ ?_ ?_ <;> rw [hf] <;> decide
  split at h
  · next hf =>
    cases h
    rw [hnone (hno hf (by decide))]
    refine handles_of_receive true .exited none rfl rfl (fun d => ?_)
      (by simp)
    rw [HostConn.receive, if_neg hping, if_pos (by simp [HostConn.breaks, hf])]
    rfl
  next hbye =>
  split at h
  · next hf =>
    rw [hnone (hno hf (by decide))]
    exact handles_handleRekey hf h
  next hrekey =>
  split at h
  · next hf =>
    rw [hnone (hno hf (by decide))]
    exact handles_handleChunk hf h
  next hchunk =>
  split at h
  · next hf => exact handles_handleRequest hf h
  · next hf =>
    cases h
    rw [hnone hf]
    exact hskipped hbye hrekey hchunk hf

/-- **The handler of a StreamSend request is called.** -/
theorem handles_of_openStream (h : openStream S cfg env st f = .ok (some (req, st'))) :
    st.Handles S f env st' (docketOf S cfg env st f) True := by
  obtain ⟨hdocket, hserved⟩ := docketOf_of_openStream h
  obtain ⟨opened, rx, entry, cache, hopen, hreq, hsat, hun, hentry, hkind, hauth, rfl⟩ :=
    (streams_of_openStream h).exists_open
  have hf : f.type = .request := by
    by_contra hne
    rw [requestOf, if_neg hne] at hreq
    cases hreq
  have hdec : decodeRequest opened = .accept req := by
    rw [requestOf, if_pos hf] at hreq
    cases hdec : decodeRequest opened with
    | oob | reject =>
      rw [hdec] at hreq
      cases hreq
    | accept req' =>
      rw [hdec] at hreq
      cases hreq
      rfl
  rw [hdocket]
  refine LoopState.Handles.others ?_
  obtain ⟨hopens, hping, hb⟩ := opens_of_type ({ st with conn := { st.conn with
    alive := st.conn.alive && env.othersAlive } } : LoopState).conn (Or.inl hf)
  refine handles_of_open hopens hping hb hopen ⟨speaks_same rfl, hserved⟩ fun _ => ?_
  rw [HostConn.afterOpen, if_neg (by rw [hf]; decide), if_neg (by rw [hf]; decide), hdec]

/-! ### Other threads -/

/-- What other threads write to the connections of subscribers. -/
theorem speaks_sweep {P : FrameType × Bytes → Prop}
    {send : TopicSub → LoopState → Bool → Attempt}
    (hsend : ∀ (s : TopicSub) (st : LoopState) (ok : Bool), st.Speaks S P (send s st ok).st)
    (subs : List TopicSub) (ok : ℕ → Bool) (conns : ℕ → LoopState) (c : ℕ) :
    (conns c).Speaks S P ((sweep send subs ok conns).conns c) := by
  induction subs generalizing ok conns with
  | nil => exact speaks_same rfl
  | cons s subs ih =>
    have hfirst : (conns c).Speaks S P
        (Function.update conns s.conn (send s (conns s.conn) (ok 0)).st c) := by
      rw [Function.update_apply]
      split
      · next hc =>
        rw [hc]
        exact hsend s _ _
      · exact speaks_same rfl
    unfold sweep
    simp only
    split
    · exact hfirst.trans (ih _ _)
    · exact hfirst.trans (ih _ _)

theorem speaks_topicChunk (isLast : Bool) (data : Bytes) (s : TopicSub) (st : LoopState)
    (ok : Bool) : st.Speaks S (fun x => x.1 ≠ .response) (sendChunk S isLast data s st ok).st :=
  speaks_sendSealed st (Or.inr (Or.inl rfl)) _ ok (by decide : FrameType.streamChunk ≠ .response)

theorem speaks_message (message : Bytes) (s : TopicSub) (st : LoopState) (ok : Bool) :
    st.Speaks S (fun x => x.1 ≠ .response) (sendMessage S message s st ok).st := by
  rw [sendMessage]
  split
  · exact speaks_topicChunk false message s st ok
  · exact speaks_same rfl

/-- **What a step of a hub does to a connection whose frame is not handled.** -/
theorem Hub.speaks_of_step {h h' : Hub} {c : ℕ} {a : Hub.Act} (hstep : Hub.Step S cfg h a h')
    (hframe : ∀ f env, a ≠ .frame c f env) :
    (h.conns c).Speaks S (fun x => x.1 ≠ .response) (h'.conns c) := by
  cases Hub.effect_of_step hstep with
  | accept _ | refuse _ | quit _ | detach _ | finish _ => exact speaks_same rfl
  | @frame c' f env o _ _ =>
    have hc : c ≠ c' := by
      rintro rfl
      exact hframe f env rfl
    have hother : (h.handled c' o).conns c = h.conns c := Function.update_of_ne hc _ _
    rw [hother]
    exact speaks_same rfl
  | @shutdown c' _ =>
    by_cases hc : c = c'
    · subst hc
      refine speaks_dead ?_
      have hself : (h.kill c).conns c =
          { h.conns c with conn := { (h.conns c).conn with alive := false } } :=
        Function.update_self _ _ _
      exact congrArg LoopState.conn hself
    · have hother : ((h.kill c').setPhase c' (.detaching (h.conns c').mySubs)).conns c
          = h.conns c := Function.update_of_ne hc _ _
      rw [hother]
      exact speaks_same rfl
  | publish => exact speaks_sweep (speaks_message _) _ _ _ c
  | heartbeat => exact speaks_sweep (fun _ => speaks_sendPing) _ _ _ c
  | closeAll => exact speaks_sweep (speaks_topicChunk true []) _ _ _ c

/-- Such a step calls no handler of the connection. -/
theorem Hub.calls_of_step {h h' : Hub} {c : ℕ} {a : Hub.Act} (hstep : Hub.Step S cfg h a h')
    (hframe : ∀ f env, a ≠ .frame c f env) : (h'.conns c).calls = (h.conns c).calls := by
  cases Hub.effect_of_step hstep with
  | accept _ | refuse _ | quit _ | detach _ | finish _ => rfl
  | @frame c' f env o _ _ =>
    have hc : c ≠ c' := by
      rintro rfl
      exact hframe f env rfl
    have hother : (h.handled c' o).conns c = h.conns c := Function.update_of_ne hc _ _
    rw [hother]
  | @shutdown c' _ =>
    change ((h.kill c').conns c).calls = _
    simp only [Hub.kill, Function.update_apply]
    split
    · next hc => rw [hc]
    · rfl
  | publish => exact congrArg Books.calls (books_sweep (tame_sendMessage _) _ _ _ c)
  | heartbeat => exact congrArg Books.calls (books_sweep tame_sendHeartbeat _ _ _ c)
  | closeAll => exact congrArg Books.calls (books_sweep (tame_sendChunk true []) _ _ _ c)

/-- **What a step of a desk does to a connection whose frame is not handled.** -/
theorem Desk.speaks_of_step {d d' : Desk} {c : ℕ} {a : Desk.Act} (hstep : Desk.Step S cfg d a d')
    (hreads : a.reads c = none) :
    (d.hub.conns c).Speaks S (fun x => x.1 ≠ .response) (d'.hub.conns c) ∧
      (d'.hub.conns c).calls = (d.hub.conns c).calls := by
  have hframe := Desk.Act.reads_eq_none hreads
  have hsame : d'.hub.conns c = d.hub.conns c →
      (d.hub.conns c).Speaks S (fun x => x.1 ≠ .response) (d'.hub.conns c) ∧
        (d'.hub.conns c).calls = (d.hub.conns c).calls := fun heq =>
    ⟨speaks_same (by rw [heq]), by rw [heq]⟩
  have hsends : ∀ (plaintext : Bytes) (ok : Bool),
      d'.hub.conns c = (d.hub.conns c).sendSealed S .streamChunk plaintext ok →
      (d.hub.conns c).Speaks S (fun x => x.1 ≠ .response) (d'.hub.conns c) ∧
        (d'.hub.conns c).calls = (d.hub.conns c).calls := by
    intro plaintext ok heq
    rw [heq]
    exact ⟨speaks_sendSealed _ (Or.inr (Or.inl rfl)) plaintext ok
      (by decide : FrameType.streamChunk ≠ .response), rfl⟩
  cases Desk.effect_of_step hstep with
  | aside hhub hno _ =>
    exact ⟨Hub.speaks_of_step hhub fun f env => hno c f env,
      Hub.calls_of_step hhub fun f env => hno c f env⟩
  | @frame c' f env o _ _ _ =>
    refine hsame (Function.update_of_ne ?_ _ _)
    rintro rfl
    exact hframe f env rfl
  | @opened c' f env req st _ _ _ =>
    refine hsame (Function.update_of_ne ?_ _ _)
    rintro rfl
    exact hframe f env rfl
  | @chunk c' data ok id seq _ =>
    by_cases hc : c' = c
    · subst hc
      exact hsends _ ok (Function.update_self _ _ _)
    · exact hsame (Function.update_of_ne (Ne.symm hc) _ _)
  | @ended c' ok id seq _ =>
    by_cases hc : c' = c
    · subst hc
      exact hsends _ ok (Function.update_self _ _ _)
    · exact hsame (Function.update_of_ne (Ne.symm hc) _ _)

end

end Epx
