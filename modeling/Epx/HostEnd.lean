import Epx.Desk
import Epx.Session.Agreement
import Epx.Subscriptions

/-!
# The host's end of a session

`Session` has a host that reads frames and sends what it is told. Here that host is the connection
of a `LoopState`: a pass of its loop takes one frame and writes what the handlers answer, and
publishers and heartbeats write in between. As long as the connection is alive no write has failed,
and then everything that a host does to it keeps the invariant of the session.

## Main definitions

* `HostConn.Sends` — frames that are sealed and written
* `LoopState.Wrote` — nothing but writes has happened

## Main results

* `Session.HostEnd.pass`, `Session.HostEnd.openStream` — a frame is taken off the stream
* `Session.HostEnd.wrote` — frames are written
* `Hub.wrote_of_step`
-/

namespace Epx

open Codec Exception

/-! ### Writes -/

/-- Writes that succeed, with the frames that they put on the stream. -/
inductive HostConn.Sends (S : Sodium) (h : HostConn) : HostConn → List RawFrame → Prop
  | nil : Sends S h h []
  | sealed {g : HostConn} {fs : List RawFrame} {type : FrameType} {plaintext : Bytes} :
      Sends S h g fs → g.alive = true → HostType type →
      Sends S h
        { g with
          tx := g.tx.bump
          sealed := g.sealed ++ [g.tx.call type plaintext]
          alive := true }
        (fs ++ [(g.tx.call type plaintext).frame S g.v2])
  | clear {g : HostConn} {fs : List RawFrame} {f : RawFrame} :
      Sends S h g fs → isCleartext f.type = true → f.epoch = 0 → Sends S h g (fs ++ [f])

section

variable {S : Sodium}

theorem HostConn.Sends.trans {h g k : HostConn} {fs gs : List RawFrame} (hfirst : h.Sends S g fs)
    (hsecond : g.Sends S k gs) : h.Sends S k (fs ++ gs) := by
  induction hsecond with
  | nil =>
    rw [List.append_nil]
    exact hfirst
  | sealed _ halive htype ih =>
    rw [← List.append_assoc]
    exact ih.sealed halive htype
  | clear _ hclear hepoch ih =>
    rw [← List.append_assoc]
    exact ih.clear hclear hepoch

/-- Writing leaves the receiving side alone. -/
theorem HostConn.Sends.same {h g : HostConn} {fs : List RawFrame} (hs : h.Sends S g fs) :
    g.v2 = h.v2 ∧ g.opened = h.opened ∧ g.reader = h.reader ∧ g.tx.epoch = h.tx.epoch := by
  induction hs with
  | nil => exact ⟨rfl, rfl, rfl, rfl⟩
  | sealed _ _ _ ih => exact ih
  | clear _ _ _ ih => exact ih

/-- What is sealed is written. -/
theorem HostConn.Sends.flushed {h g : HostConn} {fs : List RawFrame} (hs : h.Sends S g fs) :
    g.sealed.length = h.sealed.length + (fs.filter fun f => !isCleartext f.type).length := by
  induction hs with
  | nil => rfl
  | @sealed g fs type plaintext _ _ htype ih =>
    have hkept : [(g.tx.call type plaintext).frame S g.v2].filter
        (fun f => !isCleartext f.type) = [(g.tx.call type plaintext).frame S g.v2] := by
      rcases htype with rfl | rfl | rfl <;> rfl
    rw [List.filter_append, List.length_append, List.length_append, ih, Nat.add_assoc, hkept]
    rfl
  | clear _ hclear _ ih =>
    rw [List.filter_append, List.length_append, ih,
      List.filter_cons_of_neg (by simpa using hclear)]
    rfl

/-- What is written carries the epoch of the writer. -/
theorem HostConn.Sends.epoch {h g : HostConn} {fs : List RawFrame} (hs : h.Sends S g fs)
    (hzero : h.tx.epoch = 0) : ∀ f ∈ fs, f.epoch = 0 := by
  induction hs with
  | nil => simp
  | @sealed g fs type plaintext hs _ _ ih =>
    intro f hf
    rcases List.mem_append.mp hf with hf | hf
    · exact ih f hf
    · rw [List.mem_singleton.mp hf]
      exact hs.same.2.2.2.trans hzero
  | clear _ _ hepoch ih =>
    intro f hf
    rcases List.mem_append.mp hf with hf | hf
    · exact ih f hf
    · rw [List.mem_singleton.mp hf]
      exact hepoch

namespace LoopState

/-- Nothing but writes has happened, and if the connection is alive none has failed. -/
structure Wrote (S : Sodium) (st st' : LoopState) : Prop where
  alive : st'.conn.alive = true → st.conn.alive = true
  sends : st'.conn.alive = true → ∃ fs, st'.out = st.out ++ fs ∧ st.conn.Sends S st'.conn fs

variable {st st' : LoopState}

theorem wrote_same (hconn : st'.conn = st.conn) (hout : st'.out = st.out) : st.Wrote S st' where
  alive h := by rwa [hconn] at h
  sends _ := ⟨[], by rw [hout, List.append_nil], by rw [hconn]; exact .nil⟩

theorem Wrote.trans {st'' : LoopState} (h : st.Wrote S st') (h' : st'.Wrote S st'') :
    st.Wrote S st'' where
  alive ha := h.alive (h'.alive ha)
  sends ha := by
    obtain ⟨gs, hgs, hsecond⟩ := h'.sends ha
    obtain ⟨fs, hfs, hfirst⟩ := h.sends (h'.alive ha)
    exact ⟨fs ++ gs, by rw [hgs, hfs, List.append_assoc], hfirst.trans hsecond⟩

theorem wrote_sendSealed (st : LoopState) {type : FrameType} (htype : HostType type)
    (plaintext : Bytes) (ok : Bool) : st.Wrote S (st.sendSealed S type plaintext ok) := by
  cases halive : st.conn.alive with
  | false =>
    have hsend : st.conn.sendSealed S type plaintext ok = (st.conn, none) := by
      rw [HostConn.sendSealed, if_pos halive]
    refine wrote_same ?_ ?_
    · rw [LoopState.sendSealed, hsend]
    · simp only [LoopState.sendSealed, hsend, Option.toList_none, List.append_nil]
  | true =>
    have hsend : st.conn.sendSealed S type plaintext ok =
        ({ st.conn with
            tx := st.conn.tx.bump
            sealed := st.conn.sealed ++ [st.conn.tx.call type plaintext]
            alive := ok },
          if ok then some ((st.conn.tx.call type plaintext).frame S st.conn.v2) else none) := by
      rw [HostConn.sendSealed, if_neg (by rw [halive]; decide)]
    refine ⟨fun _ => halive, fun hok => ?_⟩
    simp only [LoopState.sendSealed, hsend] at hok ⊢
    subst hok
    exact ⟨_, rfl, HostConn.Sends.nil.sealed halive htype⟩

theorem wrote_sendPing (st : LoopState) (ok : Bool) : st.Wrote S (st.sendPing ok) := by
  cases halive : st.conn.alive with
  | false =>
    have hsend : st.conn.sendPing ok = (st.conn, none) := by
      rw [HostConn.sendPing, if_pos halive]
    refine wrote_same ?_ ?_
    · rw [LoopState.sendPing, hsend]
    · simp only [LoopState.sendPing, hsend, Option.toList_none, List.append_nil]
  | true =>
    have hsend : st.conn.sendPing ok =
        ({ st.conn with alive := ok }, if ok then some pingFrame else none) := by
      rw [HostConn.sendPing, if_neg (by rw [halive]; decide)]
    refine ⟨fun _ => halive, fun hok => ?_⟩
    simp only [LoopState.sendPing, hsend] at hok ⊢
    subst hok
    have hsame : { st.conn with alive := true } = st.conn := by rw [← halive]
    rw [hsame]
    exact ⟨_, rfl, HostConn.Sends.nil.clear rfl rfl⟩

theorem wrote_reply (st : LoopState) (req : RequestPayload) (status : UInt8) (data : Bytes)
    (ok : Bool) : st.Wrote S (st.reply S req status data ok) := by
  rw [LoopState.reply]
  split
  · exact wrote_same rfl rfl
  · exact wrote_sendSealed st (Or.inl rfl) _ ok

theorem wrote_sendChunks (st : LoopState) (requestId : UInt64) (chunks : List Bytes)
    (wrote : ℕ → Bool) : st.Wrote S (st.sendChunks S requestId chunks wrote) := by
  have hfold : ∀ (l : List (Bytes × ℕ)) (s : LoopState), s.Wrote S
      (l.foldl (fun s p => s.sendChunk S requestId p.2 false p.1 (wrote p.2)) s) := by
    intro l
    induction l with
    | nil => exact fun s => wrote_same rfl rfl
    | cons p l ih => exact fun s => (wrote_sendSealed s (Or.inr (Or.inl rfl)) _ _).trans (ih _)
  exact (hfold _ st).trans (wrote_sendSealed _ (Or.inr (Or.inl rfl)) _ _)

end LoopState

open LoopState

variable {cfg : HostConfig} {env : Pass} {st st' : LoopState} {f : RawFrame}

theorem wrote_serve (st : LoopState) (req : RequestPayload) (entry : EndpointEntry) :
    st.Wrote S (serve S cfg env st req entry) := by
  rw [serve]
  cases entry.kind with
  | topic =>
    simp only
    split
    · exact wrote_reply st req _ _ _
    · cases env.topics.lookup req.endpoint with
      | none => exact wrote_same rfl rfl
      | some topic => exact wrote_same rfl rfl
  | receive | send =>
    have hcalled : st.Wrote S (st.called (.unary req.endpoint req.data)) := wrote_same rfl rfl
    simp only
    split
    · exact hcalled.trans (wrote_reply _ req _ _ _)
    · exact hcalled.trans (wrote_reply _ req _ _ _)
  | streamSend =>
    have hcalled : st.Wrote S (st.called (.streamSend req.endpoint req.data)) := wrote_same rfl rfl
    exact hcalled.trans (wrote_sendChunks _ _ _ _)
  | streamReceive => exact wrote_reply st req _ _ _

theorem wrote_dispatch {req : RequestPayload} (h : dispatch S cfg env st req = .ok st') :
    st.Wrote S st' := by
  rw [dispatch] at h
  split at h
  · cases h
    rw [LoopState.unsubscribe]
    split
    · split
      · exact wrote_same rfl rfl
      · exact wrote_same rfl rfl
    · exact wrote_same rfl rfl
  · cases hentry : env.handlers.lookup req.endpoint with
    | none =>
      rw [hentry] at h
      cases h
      exact wrote_reply st req _ _ _
    | some entry =>
      simp only [hentry] at h
      obtain ⟨⟨allowed, cache⟩, -, h⟩ := bind_eq_ok.mp h
      cases h
      have hcache : st.Wrote S { st with authzCache := cache } := wrote_same rfl rfl
      cases allowed with
      | false => exact hcache.trans (wrote_reply _ req _ _ _)
      | true => exact hcache.trans (wrote_serve _ req entry)

theorem wrote_handleRequest {o : Outcome} {opened : Bytes} {rx : RxState}
    (hopen : openChecked S st.conn.v2 st.conn.rx f = some (opened, rx))
    (h : handleRequest S cfg env st f = .ok o) : (st.accept f opened rx).Wrote S o.state := by
  rw [handleRequest] at h
  simp only [hopen] at h
  have hrate : (st.accept f opened rx).Wrote S (rateLimit cfg env (st.accept f opened rx)) :=
    wrote_same rfl rfl
  cases hdec : decodeRequest opened with
  | oob | reject =>
    rw [hdec] at h
    cases h
    exact wrote_same rfl rfl
  | accept req =>
    simp only [hdec] at h
    split at h
    · cases h
      exact hrate.trans (wrote_sendSealed _ (Or.inr (Or.inr rfl)) _ _)
    · obtain ⟨st', hdispatch, h⟩ := bind_eq_ok.mp h
      cases h
      exact hrate.trans (wrote_dispatch hdispatch)

theorem wrote_handleChunk {o : Outcome} {opened : Bytes} {rx : RxState}
    (hopen : openChecked S st.conn.v2 st.conn.rx f = some (opened, rx))
    (h : handleChunk S cfg env st f = .ok o) : (st.accept f opened rx).Wrote S o.state := by
  rw [handleChunk] at h
  simp only [hopen] at h
  cases hdec : decodeStreamChunk opened with
  | oob | reject =>
    rw [hdec] at h
    cases h
    exact wrote_same rfl rfl
  | accept chunk =>
    simp only [hdec] at h
    cases hentry : (env.handlers.lookup chunk.endpoint).filter fun e => e.kind = .streamReceive with
    | none =>
      rw [hentry] at h
      cases h
      exact wrote_same rfl rfl
    | some entry =>
      simp only [hentry] at h
      obtain ⟨⟨allowed, cache⟩, -, h⟩ := bind_eq_ok.mp h
      cases h
      cases allowed with
      | false => exact wrote_same rfl rfl
      | true => exact wrote_same rfl rfl

/-- What other threads write to the connections of subscribers. -/
theorem wrote_sweep {send : TopicSub → LoopState → Bool → Attempt}
    (hsend : ∀ (s : TopicSub) (st : LoopState) (ok : Bool), st.Wrote S (send s st ok).st)
    (subs : List TopicSub) (ok : ℕ → Bool) (conns : ℕ → LoopState) (c : ℕ) :
    (conns c).Wrote S ((sweep send subs ok conns).conns c) := by
  induction subs generalizing ok conns with
  | nil => exact wrote_same rfl rfl
  | cons s subs ih =>
    have hfirst : (conns c).Wrote S
        (Function.update conns s.conn (send s (conns s.conn) (ok 0)).st c) := by
      rw [Function.update_apply]
      split
      · next hc =>
        rw [hc]
        exact hsend s _ _
      · exact wrote_same rfl rfl
    unfold sweep
    simp only
    split
    · exact hfirst.trans (ih _ _)
    · exact hfirst.trans (ih _ _)

theorem wrote_sendTopicChunk (isLast : Bool) (data : Bytes) (s : TopicSub) (st : LoopState)
    (ok : Bool) : st.Wrote S (sendChunk S isLast data s st ok).st :=
  wrote_sendSealed st (Or.inr (Or.inl rfl)) _ ok

theorem wrote_sendMessage (message : Bytes) (s : TopicSub) (st : LoopState) (ok : Bool) :
    st.Wrote S (sendMessage S message s st ok).st := by
  rw [sendMessage]
  split
  · exact wrote_sendTopicChunk false message s st ok
  · exact wrote_same rfl rfl

/-- **What a step does to a connection whose frame is not handled.** -/
theorem Hub.wrote_of_step {h h' : Hub} {c : ℕ} {a : Hub.Act} (hstep : Hub.Step S cfg h a h')
    (hframe : ∀ f env, a ≠ .frame c f env) : (h.conns c).Wrote S (h'.conns c) := by
  cases Hub.effect_of_step hstep with
  | accept _ | refuse _ | quit _ | detach _ | finish _ => exact wrote_same rfl rfl
  | @frame c' f env o _ _ =>
    by_cases hc : c = c'
    · subst hc
      exact absurd rfl (hframe f env)
    · have hother : (h.handled c' o).conns c = h.conns c := Function.update_of_ne hc _ _
      rw [hother]
      exact wrote_same rfl rfl
  | @shutdown c' _ =>
    by_cases hc : c = c'
    · subst hc
      have hself : (h.kill c).conns c =
          { h.conns c with conn := { (h.conns c).conn with alive := false } } :=
        Function.update_self _ _ _
      have hdead : ((h.kill c).conns c).conn.alive = false := by rw [hself]
      exact ⟨fun ha => absurd (hdead.symm.trans ha) (by decide),
        fun ha => absurd (hdead.symm.trans ha) (by decide)⟩
    · have hother : ((h.kill c').setPhase c' (.detaching (h.conns c').mySubs)).conns c
          = h.conns c := Function.update_of_ne hc _ _
      rw [hother]
      exact wrote_same rfl rfl
  | publish => exact wrote_sweep (wrote_sendMessage _) _ _ _ c
  | heartbeat => exact wrote_sweep (fun _ => wrote_sendPing) _ _ _ c
  | closeAll => exact wrote_sweep (wrote_sendTopicChunk true []) _ _ _ c

end

/-! ### The invariant of the session -/

open LoopState

namespace Session

/-- The invariant of a session whose host end is a connection of a host that is between frames. -/
structure HostEnd (S : Sodium) (s : Session) (st : LoopState) : Prop where
  inv : s.Inv S
  host : s.host = st.conn
  running : st.conn.reader = .running
  /-- Before version 2 there are no epochs. -/
  epoch : st.conn.v2 = false → st.conn.tx.epoch = 0
  /-- What was sealed was written. -/
  flushed : st.sealedOut.length = st.conn.sealed.length

section

variable {S : Sodium} {ph : Phase} {s : Session} {st st' : LoopState} {cfg : HostConfig}
  {env : Pass} {f : RawFrame} {rest : List RawFrame}

theorem PhaseInv.sends (hS : S.AeadCorrect) (h : s.PhaseInv S ph) {g : HostConn}
    {fs : List RawFrame} (hs : s.host.Sends S g fs) :
    PhaseInv S ph { s with host := g, toClient := s.toClient ++ fs } := by
  induction hs with
  | nil =>
    rw [List.append_nil]
    exact h
  | @sealed g fs type plaintext _ halive htype ih =>
    rw [← List.append_assoc]
    have hsent : HostConn.Effect S g (.send type plaintext true) _ _ := .sent halive htype
    exact ih.sender_step hS hsent (Or.inl ⟨_, _, rfl⟩)
  | clear _ hclear _ ih =>
    rw [← List.append_assoc]
    exact { ih with toClient := ih.toClient.append_clear hclear }

/-- **Other threads write.** -/
theorem HostEnd.wrote (hS : S.AeadCorrect) (h : s.HostEnd S st) (hwrote : st.Wrote S st')
    (halive : st'.conn.alive = true) : ∃ fs, st'.out = st.out ++ fs ∧
      (st.conn.v2 = false → ∀ f ∈ fs, f.epoch = 0) ∧
      HostEnd S { s with host := st'.conn, toClient := s.toClient ++ fs } st' := by
  obtain ⟨fs, hout, hsends⟩ := hwrote.sends halive
  obtain ⟨hv2, -, hreader, hepoch⟩ := hsends.same
  obtain ⟨hclient, ph, hph⟩ := h.inv
  refine ⟨fs, hout, fun hv1 => hsends.epoch (h.epoch hv1), ⟨hclient, ph, hph.sends hS ?_⟩, rfl,
    hreader.trans h.running, fun hv1 => ?_, ?_⟩
  · rw [h.host]
    exact hsends
  · rw [hepoch]
    exact h.epoch (hv2.symm.trans hv1)
  · rw [hsends.flushed, ← h.flushed, sealedOut, hout, List.filter_append, List.length_append]
    rfl

/-! ### A frame is read -/

/-- The types of the frames in flight to the host. -/
theorem type_of_toHost (h : s.ToHost S ph) (hq : s.toHost = f :: rest) :
    isCleartext f.type = true ∨ ClientType f.type ∨ f.type = .rekey := by
  obtain ⟨xs, rx', hstream, -⟩ := h
  rw [hq] at hstream
  generalize hoff : ph.rekey s.client.tx.epoch = offer at hstream
  cases hstream with
  | clear hclear _ => exact Or.inl hclear
  | own htype _ _ => exact Or.inr (Or.inl htype)
  | special htype _ _ _ _ =>
    refine Or.inr (Or.inr (htype.trans ?_))
    cases ph with
    | offered _ =>
      cases hoff
      rfl
    | idle | answering _ _ _ | acked _ _ _ | opening _ _ _ | switching _ _ _ => cases hoff

/-- A cleartext frame is passed over. -/
theorem PhaseInv.hostSkips (h : s.PhaseInv S ph) (hq : s.toHost = f :: rest)
    (hclear : isCleartext f.type = true) : PhaseInv S ph { s with toHost := rest } := by
  obtain ⟨xs, rx', hstream, hready, hlog⟩ := h.toHost
  rw [hq] at hstream
  refine { h with toHost := ⟨xs, rx', ?_, hready, hlog⟩ }
  change Stream S s.client.v2 ClientType (ph.rekey s.client.tx.epoch) s.host.rx rest xs rx'
  generalize hoff : ph.rekey s.client.tx.epoch = offer at hstream ⊢
  cases hstream with
  | clear _ hrest => exact hrest
  | own htype _ _ =>
    rcases htype with heq | heq
    · rw [SealCall.frame_type, heq] at hclear
      cases hclear
    · rw [SealCall.frame_type, heq] at hclear
      cases hclear
  | special htype _ _ _ _ =>
    cases ph with
    | offered _ =>
      cases hoff
      rw [SealCall.frame_type, htype] at hclear
      cases hclear
    | idle | answering _ _ _ | acked _ _ _ | opening _ _ _ | switching _ _ _ => cases hoff

/-- A REKEY is in flight in a version 2 session only. -/
theorem PhaseInv.v2_of_rekey (h : s.PhaseInv S ph) (hq : s.toHost = f :: rest)
    (htype : f.type = .rekey) : s.host.v2 = true := by
  rw [h.version]
  refine h.v2 ?_
  rintro rfl
  obtain ⟨xs, rx', hstream, -⟩ := h.toHost
  rw [hq] at hstream
  generalize hoff : Phase.rekey s.client.tx.epoch .idle = offer at hstream
  cases hstream with
  | clear hclear _ =>
    rw [htype] at hclear
    cases hclear
  | own hown _ _ =>
    rw [SealCall.frame_type] at htype
    rcases hown with heq | heq
    · rw [htype] at heq
      cases heq
    · rw [htype] at heq
      cases heq
  | special _ _ _ _ _ => cases hoff

/-- A host that is not in the middle of a frame. -/
theorem host_of_idle {g g' : HostConn} (h : ph.Host g) (hidle : g.reader.Idle)
    (hidle' : g'.reader.Idle) : ph.Host g' := by
  cases ph with
  | idle | offered _ | acked _ _ _ | opening _ _ _ | switching _ _ _ => exact hidle'
  | answering _ hostEph nk =>
    rw [show g.reader = .rekeyDerived hostEph nk from h] at hidle
    rcases hidle with heq | heq
    · cases heq
    · cases heq

/-- What the host draws is of no account here. -/
theorem PhaseInv.forget (h : s.PhaseInv S ph) :
    PhaseInv S ph { s with host := { s.host with drawn := [] } } := by
  refine h.of_host rfl rfl rfl rfl rfl h.alive ?_
  cases ph with
  | idle | offered _ | answering _ _ _ | acked _ _ _ | opening _ _ _ | switching _ _ _ =>
    exact h.host

/-- The host has opened the frame at the front of its stream, and what it does with it is left
open. -/
theorem HostEnd.received (hkx : S.KxAgree) (h : s.HostEnd S st) (hq : s.toHost = f :: rest)
    {eph : EphemeralKeyPair} (hkeys : f.type = .rekey → S.IsKxPair eph) {opened : Bytes}
    {rx : RxState} (htype : ClientType f.type ∨ f.type = .rekey)
    (hopen : openChecked S st.conn.v2 st.conn.rx f = some (opened, rx)) :
    ∃ ph drawn, PhaseInv S ph { s with
      host := { (st.accept f opened rx).conn with
        drawn := drawn
        reader := st.conn.afterOpen S f.type opened eph }
      toHost := rest } := by
  obtain ⟨hclient, ph, hph⟩ := h.inv
  have hopens : f.type ≠ .ping ∧ s.host.breaks f.type = false ∧ s.host.opens f.type = true := by
    rcases htype with htype | htype
    · exact hostOpens_of_clientType htype
    · have hv2 := hph.v2_of_rekey hq htype
      rw [htype, HostConn.breaks, HostConn.opens, hv2]
      decide
  obtain ⟨hping, hbreaks, hopens⟩ := hopens
  have hreceive : HostConn.receive S { s.host with drawn := [] } f eph true = _ :=
    HostConn.receive_opened S hping hbreaks hopens (by rw [h.host]; exact hopen)
  have hrunning : s.host.reader = .running := by
    rw [h.host]
    exact h.running
  have hdraws : { s.host with drawn := [] }.Draws S (.receive f eph true) := fun htype =>
    ⟨hkeys htype, List.not_mem_nil⟩
  obtain ⟨ph', hph'⟩ := hph.forget.hostReceive hkx hclient hrunning hq hdraws
  rw [hreceive] at hph'
  simp only [Option.toList_none, List.append_nil, h.host] at hph'
  exact ⟨ph', _, hph'⟩

theorem HostEnd.alive (h : s.HostEnd S st) : st.conn.alive = true := by
  obtain ⟨-, ph, hph⟩ := h.inv
  by_contra hdead
  have hexited := hph.alive (by rw [h.host]; exact Bool.eq_false_of_not_eq_true hdead)
  rw [h.host, h.running] at hexited
  cases hexited

/-- The loop goes on, or leaves the frame as it is. -/
theorem HostEnd.of_idle (h : s.HostEnd S st) {drawn : List EphemeralKeyPair} {reader : HostReader}
    (hidle : reader.Idle) {opened : Bytes} {rx : RxState}
    (hph : PhaseInv S ph { s with
      host := { (st.accept f opened rx).conn with drawn := drawn, reader := reader }
      toHost := rest }) :
    HostEnd S { s with host := (st.accept f opened rx).conn, toHost := rest }
      (st.accept f opened rx) := by
  refine ⟨⟨h.inv.client, ph, ?_⟩, rfl, h.running, h.epoch, h.flushed⟩
  refine hph.of_host rfl rfl rfl rfl rfl (fun hdead => ?_)
    (host_of_idle hph.host hidle (Or.inl h.running))
  exact absurd (h.alive.symm.trans hdead) (by decide)

/-- **A data frame is opened.** -/
theorem HostEnd.accepted (hkx : S.KxAgree) (h : s.HostEnd S st) (hq : s.toHost = f :: rest)
    (htype : ClientType f.type) {opened : Bytes} {rx : RxState}
    (hopen : openChecked S st.conn.v2 st.conn.rx f = some (opened, rx)) :
    HostEnd S { s with host := (st.accept f opened rx).conn, toHost := rest }
      (st.accept f opened rx) := by
  -- no ephemeral is drawn for a data frame
  let eph : EphemeralKeyPair := ⟨Block.fill 32 0, Block.fill 32 0⟩
  have hne : f.type ≠ .rekey := by
    rcases htype with heq | heq <;> rw [heq] <;> decide
  have hkeys : f.type = .rekey → S.IsKxPair eph := fun heq => absurd heq hne
  obtain ⟨ph, drawn, hph⟩ := h.received hkx hq hkeys (Or.inl htype) hopen
  exact h.of_idle (hostAfterOpen_idle htype opened eph) hph

/-- The answer to a REKEY on a connection that is alive. -/
theorem sendRekeyAckAndSwitch_eq {h : HostConn} (halive : h.alive = true) (eph : EphemeralKeyPair)
    (nk : SessionKeys) :
    h.sendRekeyAckAndSwitch S eph nk true =
      ({ h with
          tx := h.tx.switch nk.tx
          sealed := h.sealed ++ [h.tx.call .rekeyAck eph.publicKey.val]
          rx := h.rx.arm nk.rx
          reader := .running
          installed := h.installed ++ [(eph, nk.tx)] },
        some ((h.tx.call .rekeyAck eph.publicKey.val).frame S true)) := by
  rw [HostConn.sendRekeyAckAndSwitch, if_neg (by rw [halive]; decide), if_neg (by decide)]

/-- A connection that is alive after the answer has written it. -/
theorem wrote_of_answer {h : HostConn} {eph : EphemeralKeyPair} {nk : SessionKeys} {ok : Bool}
    (halive : h.alive = true) (hafter : (h.sendRekeyAckAndSwitch S eph nk ok).1.alive = true) :
    ok = true := by
  cases ok with
  | true => rfl
  | false =>
    rw [HostConn.sendRekeyAckAndSwitch, if_neg (by rw [halive]; decide), if_pos rfl] at hafter
    cases hafter

/-- **A REKEY is opened**, and answered. -/
theorem HostEnd.rekey (hS : S.AeadCorrect) (hkx : S.KxAgree) (h : s.HostEnd S st)
    (hq : s.toHost = f :: rest) (htype : f.type = .rekey) (hkeys : S.IsKxPair env.eph) {o : Outcome}
    (hhandle : handleRekey S env st f = .ok o) (halive : o.state.conn.alive = true) :
    ∃ fs, o.state.out = st.out ++ fs ∧ (st.conn.v2 = false → ∀ f ∈ fs, f.epoch = 0) ∧
      HostEnd S { s with host := o.state.conn, toHost := rest, toClient := s.toClient ++ fs }
        o.state := by
  obtain ⟨hclient, ph, hph⟩ := h.inv
  have hv2 : st.conn.v2 = true := by
    rw [← h.host]
    exact hph.v2_of_rekey hq htype
  have hseen := hph.opensNext.host f rest hq (by rw [htype]; rfl)
  rw [h.host] at hseen
  obtain ⟨⟨opened, rx⟩, hopen⟩ := hseen
  obtain ⟨ph', drawn, hph'⟩ := h.received hkx hq (fun _ => hkeys) (Or.inr htype) hopen
  have hafter : st.conn.afterOpen S f.type opened env.eph
      = st.conn.afterRekey S opened env.eph := by
    rw [htype]
    rfl
  rw [hafter, HostConn.afterRekey] at hph'
  have hstop : ∀ {reader : HostReader}, reader.Idle →
      PhaseInv S ph' { s with
        host := { (st.accept f opened rx).conn with drawn := drawn, reader := reader }
        toHost := rest } →
      ∃ fs, (st.accept f opened rx).out = st.out ++ fs ∧
        (st.conn.v2 = false → ∀ f ∈ fs, f.epoch = 0) ∧
        HostEnd S { s with
          host := (st.accept f opened rx).conn
          toHost := rest
          toClient := s.toClient ++ fs } (st.accept f opened rx) := by
    intro reader hidle hphase
    have hend := h.of_idle hidle hphase
    refine ⟨[], (List.append_nil _).symm, by simp, ?_⟩
    rw [List.append_nil]
    exact hend
  rw [handleRekey, if_neg (by rw [hv2]; decide)] at hhandle
  simp only [hopen] at hhandle
  by_cases hlen : opened.length = 32
  · rw [dif_pos hlen] at hhandle hph'
    by_cases hepoch : (st.accept f opened rx).conn.tx.epoch ≥ 255
    · rw [if_pos hepoch] at hhandle
      rw [if_pos (show st.conn.tx.epoch ≥ 255 from hepoch)] at hph'
      cases hhandle
      exact hstop (Or.inr rfl) hph'
    · rw [if_neg hepoch] at hhandle
      rw [if_neg (show ¬ st.conn.tx.epoch ≥ 255 from hepoch)] at hph'
      obtain ⟨nk, hnk, hhandle⟩ := bind_eq_ok.mp hhandle
      rw [hnk] at hph'
      have hstate : o.state = { st.accept f opened rx with
          conn := ((st.accept f opened rx).conn.sendRekeyAckAndSwitch S env.eph nk (env.wrote 0)).1
          out := (st.accept f opened rx).out ++ ((st.accept f opened rx).conn.sendRekeyAckAndSwitch
            S env.eph nk (env.wrote 0)).2.toList } := by
        cases hhandle
        split <;> rfl
      rw [hstate] at halive
      have hacc : (st.accept f opened rx).conn.alive = true := h.alive
      have hwrote := wrote_of_answer hacc halive
      have hderived : PhaseInv S ph' { s with
          host := { (st.accept f opened rx).conn with
            drawn := drawn
            reader := .rekeyDerived env.eph nk }
          toHost := rest } := hph'
      obtain ⟨ph'', hph''⟩ := hderived.ackAndSwitch hS rfl
      rw [sendRekeyAckAndSwitch_eq (by exact hacc)] at hph''
      rw [hstate, hwrote, sendRekeyAckAndSwitch_eq hacc]
      refine ⟨_, rfl, fun hv1 => ?_, ⟨hclient, ph'', ?_⟩, rfl, rfl, fun hv1 => ?_, ?_⟩
      · exact absurd (hv2.symm.trans hv1) (by decide)
      · exact hph''.of_host rfl rfl rfl rfl rfl (fun hdead => absurd (h.alive.symm.trans hdead)
          (by decide)) (host_of_idle hph''.host (Or.inl rfl) (Or.inl rfl))
      · exact absurd (hv2.symm.trans hv1) (by decide)
      · have hflushed : (st.out.filter fun f => !isCleartext f.type).length
            = st.conn.sealed.length := h.flushed
        change ((st.out ++ [_]).filter fun f : RawFrame => !isCleartext f.type).length
          = (st.conn.sealed ++ [_]).length
        rw [List.filter_append, List.length_append, List.length_append, hflushed]
        rfl
  · rw [dif_neg hlen] at hhandle hph'
    cases hhandle
    exact hstop (Or.inr rfl) hph'

/-- A data frame is opened, and something is written about it. -/
theorem HostEnd.handled (hS : S.AeadCorrect) (hkx : S.KxAgree) (h : s.HostEnd S st)
    (hq : s.toHost = f :: rest) (htype : ClientType f.type)
    (hwrote : ∀ opened rx, openChecked S st.conn.v2 st.conn.rx f = some (opened, rx) →
      (st.accept f opened rx).Wrote S st') (halive : st'.conn.alive = true) :
    ∃ fs, st'.out = st.out ++ fs ∧ (st.conn.v2 = false → ∀ f ∈ fs, f.epoch = 0) ∧
      HostEnd S { s with host := st'.conn, toHost := rest, toClient := s.toClient ++ fs } st' := by
  obtain ⟨-, ph, hph⟩ := h.inv
  have hclear : isCleartext f.type = false := by
    rcases htype with heq | heq <;> rw [heq] <;> rfl
  obtain ⟨⟨opened, rx⟩, hopen⟩ := hph.opensNext.host f rest hq hclear
  rw [h.host] at hopen
  exact (h.accepted hkx hq htype hopen).wrote hS (hwrote opened rx hopen) halive

/-- **A frame is handled.** -/
theorem HostEnd.pass (hS : S.AeadCorrect) (hkx : S.KxAgree) (h : s.HostEnd S st)
    (hq : s.toHost = f :: rest) (hothers : env.othersAlive = true)
    (hkeys : f.type = .rekey → S.IsKxPair env.eph) {o : Outcome}
    (hpass : Epx.pass S cfg env st f = .ok o) (halive : o.state.conn.alive = true) :
    ∃ fs, o.state.out = st.out ++ fs ∧ (st.conn.v2 = false → ∀ f ∈ fs, f.epoch = 0) ∧
      HostEnd S { s with host := o.state.conn, toHost := rest, toClient := s.toClient ++ fs }
        o.state := by
  obtain ⟨hclient, ph, hph⟩ := h.inv
  rw [pass_of_othersAlive hothers] at hpass
  rcases type_of_toHost hph.toHost hq with hclear | htype | htype
  · have hskipped : HostEnd S { s with toHost := rest } st :=
      ⟨⟨hclient, ph, hph.hostSkips hq hclear⟩, h.host, h.running, h.epoch, h.flushed⟩
    have hponged : st.Wrote S
        { st with out := st.out ++ if env.wrote 0 then [pongFrame] else [] } := by
      refine ⟨id, fun _ => ⟨_, rfl, ?_⟩⟩
      split
      · exact HostConn.Sends.nil.clear rfl rfl
      · exact .nil
    by_cases hping : f.type = .ping
    · rw [if_pos hping] at hpass
      cases hpass
      exact hskipped.wrote hS hponged halive
    · have hpong : f.type = .pong := by simpa [isCleartext, hping] using hclear
      rw [if_neg hping, if_pos hpong] at hpass
      cases hpass
      exact hskipped.wrote hS (wrote_same rfl rfl) halive
  · have hne : ∀ t, t ≠ .request → t ≠ .streamChunk → f.type ≠ t := by
      rintro t hrequest hchunk rfl
      exact htype.elim hrequest hchunk
    rw [if_neg (hne _ (by decide) (by decide)), if_neg (hne _ (by decide) (by decide)),
      if_neg (hne _ (by decide) (by decide)), if_neg (hne _ (by decide) (by decide))] at hpass
    by_cases hchunk : f.type = .streamChunk
    · rw [if_pos hchunk] at hpass
      exact h.handled hS hkx hq htype (fun _ _ hopen => wrote_handleChunk hopen hpass) halive
    · rw [if_neg hchunk, if_pos (htype.resolve_right hchunk)] at hpass
      exact h.handled hS hkx hq htype (fun _ _ hopen => wrote_handleRequest hopen hpass) halive
  · rw [if_neg (by rw [htype]; decide), if_neg (by rw [htype]; decide),
      if_neg (by rw [htype]; decide), if_pos htype] at hpass
    exact h.rekey hS hkx hq htype (hkeys htype) hpass halive

/-- **A request for a stream is taken up.** -/
theorem HostEnd.openStream (hS : S.AeadCorrect) (hkx : S.KxAgree) (h : s.HostEnd S st)
    (hq : s.toHost = f :: rest) (hothers : env.othersAlive = true) {req : RequestPayload}
    (hopen : Epx.openStream S cfg env st f = .ok (some (req, st'))) :
    ∃ fs, st'.out = st.out ++ fs ∧ (st.conn.v2 = false → ∀ f ∈ fs, f.epoch = 0) ∧
      HostEnd S { s with host := st'.conn, toHost := rest, toClient := s.toClient ++ fs } st' := by
  obtain ⟨opened, rx, entry, cache, hopened, hreq, -, -, -, -, -, rfl⟩ :=
    (streams_of_openStream hopen).exists_open
  have htype : f.type = .request := by
    by_contra hne
    rw [requestOf, if_neg hne] at hreq
    cases hreq
  rw [hothers, Bool.and_true]
  refine h.handled hS hkx hq (Or.inl htype) (fun opened' rx' hopen' => ?_) h.alive
  rw [hopened] at hopen'
  cases hopen'
  exact wrote_same rfl rfl

end

end Session

end Epx
