import Epx.HandlerRuns
import Epx.LineReads

/-!
# A client and a host on one connection

A `Desk` and, at the other end of one of its connections, a `Line`. The thread of that connection
takes its frames off the bytes that the client has written, and what is written to the connection,
by its thread or by others, is appended to the bytes that the reader of the client is going to read.
The other connections of the host are as they are.

A connection stays up as long as its writes succeed and its reader does not leave. Then the bytes in
flight are those of a session, what one end has opened is what the other has sealed, and nothing is
lost between the calls of the application at one end and at the other.

## Main definitions

* `Paired` — what a handshake leaves at its two ends
* `Link`, `Link.step` — the two ends and the bytes between them
* `Link.SteadyStep` — a step after which the connection is still up
* `Link.Inv` — the invariant

## Main results

* `Link.Inv.step`
-/

namespace Epx

open Codec Transition LoopState
open ClientTables (chunkOf chunksFor)

/-- What a handshake leaves at its two ends: the same keys, and the same version. -/
structure Paired (S : Sodium) (eph : EphemeralKeyPair) (client : HandshakeResult) (run : ServerRun)
    (host : HandshakeResult) : Prop where
  isPair : S.IsKxPair eph
  keys : S.kxClientSessionKeys eph run.ephemeral.publicKey = some client.keys
  swapped : host.keys = ⟨client.keys.tx, client.keys.rx⟩
  version : host.version = client.version

/-! ### What a step does to the host's end -/

namespace Desk

/-- The frame that the thread of connection `c` reads. -/
def Act.reads (c : ℕ) : Act → Option RawFrame
  | .hub (.frame c' f _) => if c' = c then some f else none
  | _ => none

section

variable {S : Sodium} {cfg : HostConfig} {c : ℕ} {d d' : Desk} {a : Act}

theorem Act.reads_eq_none {a : Act} (h : a.reads c = none) (f : RawFrame) (env : Pass) :
    a ≠ .hub (.frame c f env) := by
  rintro rfl
  rw [reads, if_pos rfl] at h
  cases h

theorem Act.reads_eq_some {a : Act} {f : RawFrame} (h : a.reads c = some f) :
    ∃ env, a = .hub (.frame c f env) := by
  cases a with
  | chunk _ _ _ | endStream _ _ => cases h
  | hub b =>
    cases b with
    | frame c' f' env =>
      obtain ⟨rfl, heq⟩ := Option.ite_none_right_eq_some.mp h
      cases heq
      exact ⟨env, rfl⟩
    | accept _ | refuse _ | quit _ | shutdown _ | detach _ | finish _ | publish _ _ _
    | heartbeat _ _ | closeAll _ _ => cases h

/-- **What a step does to a connection whose frame is not handled**: it writes, and calls none of
its handlers. -/
theorem wrote_of_step (hsynced : (d.hub.conns c).Synced S) (hstep : Step S cfg d a d')
    (hreads : a.reads c = none) : (d.hub.conns c).Wrote S (d'.hub.conns c) ∧
      (d'.hub.conns c).calls = (d.hub.conns c).calls := by
  have hframe := Act.reads_eq_none hreads
  have hsame : d'.hub.conns c = d.hub.conns c → (d.hub.conns c).Wrote S (d'.hub.conns c) ∧
      (d'.hub.conns c).calls = (d.hub.conns c).calls := fun heq =>
    ⟨wrote_same (by rw [heq]) (by rw [heq]), by rw [heq]⟩
  have hsends : ∀ (plaintext : Bytes) (ok : Bool),
      d'.hub.conns c = (d.hub.conns c).sendSealed S .streamChunk plaintext ok →
      (d.hub.conns c).Wrote S (d'.hub.conns c) ∧
        (d'.hub.conns c).calls = (d.hub.conns c).calls := by
    intro plaintext ok heq
    rw [heq]
    exact ⟨wrote_sendSealed _ (Or.inr (Or.inl rfl)) plaintext ok, rfl⟩
  cases effect_of_step hstep with
  | aside hhub hno _ =>
    exact ⟨Hub.wrote_of_step hhub fun f env => hno c f env,
      (Hub.aside_of_step hsynced hhub fun f env => hno c f env).calls⟩
  | @frame c' f env o _ _ _ =>
    by_cases hc : c' = c
    · subst hc
      exact absurd rfl (hframe f env)
    · exact hsame (Function.update_of_ne (Ne.symm hc) _ _)
  | @opened c' f env req st _ _ _ =>
    by_cases hc : c' = c
    · subst hc
      exact absurd rfl (hframe f env)
    · exact hsame (Function.update_of_ne (Ne.symm hc) _ _)
  | @chunk c' data ok id seq _ =>
    by_cases hc : c' = c
    · subst hc
      exact hsends _ ok (Function.update_self _ _ _)
    · exact hsame (Function.update_of_ne (Ne.symm hc) _ _)
  | @ended c' ok id seq _ =>
    by_cases hc : c' = c
    · subst hc
      exact hsends _ ok (Function.update_self _ _ _)
    · exact hsame (Function.update_of_ne (Ne.symm hc) _ _)

/-- **A step of the host is a step of its end of the session.** -/
theorem hostEnd_of_step (hS : S.AeadCorrect) (hkx : S.KxAgree) {s : Session}
    (h : s.HostEnd S (d.hub.conns c)) (hsynced : (d.hub.conns c).Synced S)
    (hstep : Step S cfg d a d') (hsucceeds : d.Succeeds c a)
    (halive : (d'.hub.conns c).conn.alive = true) {gs : List RawFrame}
    (hsame : a.reads c = none → gs = s.toHost)
    (hfront : ∀ f, a.reads c = some f → s.toHost = f :: gs)
    (hkeys : ∀ f env, a = .hub (.frame c f env) → f.type = .rekey → S.IsKxPair env.eph) :
    ∃ fs, (d'.hub.conns c).out = (d.hub.conns c).out ++ fs ∧
      ((d.hub.conns c).conn.v2 = false → ∀ f ∈ fs, f.epoch = 0) ∧
      Session.HostEnd S { s with
        host := (d'.hub.conns c).conn
        toHost := gs
        toClient := s.toClient ++ fs } (d'.hub.conns c) := by
  cases hreads : a.reads c with
  | none =>
    rw [hsame hreads]
    exact h.wrote hS (wrote_of_step hsynced hstep hreads).1 halive
  | some f =>
    obtain ⟨env, rfl⟩ := Act.reads_eq_some hreads
    have hq := hfront f hreads
    have hothers := (hsucceeds rfl).1
    cases effect_of_step hstep with
    | aside _ hno _ => exact absurd rfl (hno c f env)
    | @frame _ _ _ o _ _ hpass =>
      have hself : (d.hub.handled c o).conns c = o.state := Function.update_self _ _ _
      simp only [hself] at halive ⊢
      exact h.pass hS hkx hq hothers (hkeys f env rfl) hpass halive
    | @opened _ _ _ req st _ _ hopen =>
      have hself : (d.hub.handled c (.next st)).conns c = st := Function.update_self _ _ _
      simp only [hself] at halive ⊢
      exact h.openStream hS hkx hq hothers hopen

/-- **What the handler of an endpoint is called with** are the chunks to it that were opened. -/
theorem received_of_step (hanswering : d.Answering S cfg c) (hstep : Step S cfg d a d')
    (hsucceeds : d.Succeeds c a) (halive : (d'.hub.conns c).conn.alive = true)
    (hv2 : ∀ f env, a = .hub (.frame c f env) → f.type = .rekey →
      (d.hub.conns c).conn.v2 = true) {endpoint : Bytes}
    (hadmits : ∀ f env, a = .hub (.frame c f env) → Admits S cfg env (d.hub.conns c) f endpoint)
    (h : (d.hub.conns c).received endpoint = (d.hub.conns c).arrived endpoint) :
    (d'.hub.conns c).received endpoint = (d'.hub.conns c).arrived endpoint := by
  cases hreads : a.reads c with
  | none =>
    obtain ⟨hwrote, hcalls⟩ := wrote_of_step hanswering.fed.synced hstep hreads
    obtain ⟨fs, -, hsends⟩ := hwrote.sends halive
    rw [LoopState.arrived_of_opened hsends.same.2.1, ← h, LoopState.received, hcalls]
    rfl
  | some f =>
    obtain ⟨env, rfl⟩ := Act.reads_eq_some hreads
    obtain ⟨hothers, hwrote, -⟩ := hsucceeds rfl
    cases effect_of_step hstep with
    | aside _ hno _ => exact absurd rfl (hno c f env)
    | @frame _ _ _ o hidle hphase hpass =>
      have hself : (d.hub.handled c o).conns c = o.state := Function.update_self _ _ _
      have hup : (d.hub.conns c).conn.alive = true :=
        hanswering.lasting.alive (by rw [hphase]; exact id)
      have hkeeps := keeps_of_pass hothers hwrote hup (hv2 f env rfl)
        (openStream_ne_of_step hstep hidle) hpass
      simp only [hself]
      exact hkeeps.received endpoint (hadmits f env rfl) h
    | @opened _ _ _ req st _ _ hopen =>
      have hself : (d.hub.handled c (.next st)).conns c = st := Function.update_self _ _ _
      obtain ⟨hreceived, harrived⟩ := (streams_of_opened hothers hopen).2 endpoint
      simp only [hself]
      rw [hreceived, harrived, h]

end

end Desk

/-! ### The machine -/

/-- A host, the client at the other end of one of its connections, and what the handlers of that
connection have written. -/
structure Link where
  desk : Desk
  line : Line
  runs : UInt64 → Option HandlerRun := fun _ => none

/-- The bytes in flight are others. -/
def Line.withStreams (l : Line) (toHost input : Bytes) : Line :=
  { l with toHost := toHost, side := { l.side with input := input } }

namespace Line

variable {l : Line} {toHost input : Bytes}

theorem Seals.withStreams (h : l.Seals) : (l.withStreams toHost input).Seals :=
  ⟨h.writer, h.sealed⟩

theorem OwnIds.withStreams (h : l.OwnIds) : (l.withStreams toHost input).OwnIds :=
  ⟨h.nodup, h.drawn, h.free, h.calls, h.hand⟩

theorem Outputs.withStreams (h : l.Outputs) : (l.withStreams toHost input).Outputs :=
  ⟨h.chunks, h.seq, h.known⟩

theorem Short.withStreams (h : l.Short) : (l.withStreams toHost input).Short :=
  ⟨h.asked, h.unsent, h.outputs, h.made⟩

theorem Reads.withStreams (h : l.Reads) : (l.withStreams toHost input).Reads :=
  ⟨h.streams, h.deliveries, h.handed, h.lastRead, h.known, h.under⟩

end Line

namespace Link

inductive Act where
  | host (a : Desk.Act)
  | client (a : Line.Act)

def start (cfg : HostConfig) (run : ℕ → ServerRun) (acc : ℕ → Accept) (hs : ℕ → HandshakeResult)
    (eph : EphemeralKeyPair) (client : HandshakeResult) (rotation : RotationPolicy) (now : ℕ) :
    Link :=
  { desk := .start cfg run acc hs, line := .start eph client rotation now }

section

variable (c : ℕ)

/-- The connection of the link, at the host's end. -/
def conn (k : Link) : LoopState := k.desk.hub.conns c

/-- What a step of the host leaves of the bytes that were on their way to it. -/
def left (k : Link) (a : Desk.Act) : Option Bytes :=
  match a.reads c with
  | none => some k.line.toHost
  | some f =>
    ((readFrame (k.conn c).conn.v2 k.line.toHost).filter fun p => p.1 = f).map Prod.snd

/-- The host has taken a step to `d`. -/
def hostStep (k : Link) (a : Desk.Act) (d : Desk) (rest : Bytes) : Link where
  desk := d
  line := k.line.withStreams rest (k.line.side.input ++
    ((d.hub.conns c).out.drop (k.conn c).out.length).flatMap (writeFrame (d.hub.conns c).conn.v2))
  runs := k.desk.noted c a d k.runs

def step (S : Sodium) (cfg : HostConfig) (k : Link) : Act → Option Link
  | .host a => (k.left c a).bind fun rest =>
      (k.desk.step S cfg a).map fun d => k.hostStep c a d rest
  | .client a => (k.line.step S a).map fun l => { k with line := l }

/-- The steps of a host and the client of one of its connections. -/
def Step (S : Sodium) (cfg : HostConfig) : Link → Act → Link → Prop := OfFun (step c S cfg)

/-- The connection is up: neither end has left, and the lengths of its frames do not run over. -/
structure Up (S : Sodium) (k : Link) : Prop where
  host : (k.conn c).conn.alive = true
  client : k.line.Up S
  back : ∀ f ∈ (k.conn c).out, headerLen (k.conn c).conn.v2 + f.body.length < 2 ^ 32

/-- What a connection that stays up finds: its writes succeed, the ephemerals are new, endpoint
names fit into their byte, and chunks to the endpoints `E` are let through. -/
def Act.Fine (S : Sodium) (cfg : HostConfig) (E : Set Bytes) (k : Link) : Act → Prop
  | .host a => k.desk.Succeeds c a ∧ ∀ f env, a = .hub (.frame c f env) →
      (f.type = .rekey → S.IsKxPair env.eph) ∧ ∀ e ∈ E, Admits S cfg env (k.conn c) f e
  | .client a => a.Succeeds S k.line ∧ a.Short

/-- A step after which the connection is still up. -/
def SteadyStep (S : Sodium) (cfg : HostConfig) (E : Set Bytes) (k : Link) (a : Act) (k' : Link) :
    Prop :=
  Step c S cfg k a k' ∧ a.Fine c S cfg E k ∧ k'.Up c S

end

/-! ### The invariant -/

/-- What holds of a connection that has stayed up. -/
structure Inv (S : Sodium) (cfg : HostConfig) (c : ℕ) (E : Set Bytes) (k : Link) : Prop where
  session : ∃ s : Session, s.HostEnd S (k.conn c) ∧ k.line.Carries s
  up : k.Up c S
  answering : k.desk.Answering S cfg c
  handlers : k.desk.Handlers c k.runs
  received : ∀ e ∈ E, (k.conn c).received e = (k.conn c).arrived e
  seals : k.line.Seals
  ids : k.line.OwnIds
  outputs : k.line.Outputs
  short : k.line.Short
  reads : k.line.Reads

theorem inv_start {S : Sodium} {cfg : HostConfig} {run : ℕ → ServerRun} {acc : ℕ → Accept}
    {hs : ℕ → HandshakeResult} {eph : EphemeralKeyPair} {client : HandshakeResult} {c : ℕ}
    (hpaired : Paired S eph client (run c) (hs c)) (rotation : RotationPolicy) (now : ℕ)
    (E : Set Bytes) : (start cfg run acc hs eph client rotation now).Inv S cfg c E where
  session := by
    refine ⟨.start eph (run c).ephemeral client.keys (hs c).peerIdentity client.peerIdentity
      client.version rotation now, ⟨Session.inv_start hpaired.isPair hpaired.keys, ?_, rfl,
        fun _ => rfl, rfl⟩, rfl, rfl, rfl, rfl, by simp [Session.start], by simp [Session.start]⟩
    change HostConn.start (run c).ephemeral _ = HostConn.start (run c).ephemeral (hs c)
    rw [← hpaired.swapped, ← hpaired.version]
  up := by
    refine ⟨rfl, ⟨?_, ?_, ?_⟩, ?_⟩
    · exact fun _ h => by cases h
    · exact fun h => by cases h
    · exact fun _ hx => absurd hx List.not_mem_nil
    · exact fun _ hf => absurd hf List.not_mem_nil
  answering := Desk.answering_start S cfg run acc hs c
  handlers := Desk.handlers_start cfg run acc hs c
  received _ _ := rfl
  seals := Line.seals_start eph client rotation now
  ids := Line.ownIds_start eph client rotation now
  outputs := Line.outputs_start eph client rotation now
  short := Line.short_start eph client rotation now
  reads := Line.reads_start eph client rotation now

/-! ### What is known of the two ends -/

section

variable {S : Sodium} {s : Session} {l : Line} {st : LoopState}

theorem eq_nil_of_flatMap {v2 : Bool} {fs : List RawFrame}
    (h : fs.flatMap (writeFrame v2) = []) : fs = [] := by
  cases fs with
  | nil => rfl
  | cons f fs =>
    have hlen := congrArg List.length (List.append_eq_nil_iff.mp h).1
    rw [length_writeFrame] at hlen
    simp at hlen

/-- What the client has sealed is what the host has opened, and what is in flight. -/
theorem delivered_toHost (hend : s.HostEnd S st) (hcarries : l.Carries s) :
    ∃ xs, l.side.conn.sealed.map SealCall.content = st.conn.opened.map Opened.content ++ xs ∧
      (l.toHost = [] → xs = []) := by
  obtain ⟨-, ph, hph⟩ := hend.inv
  obtain ⟨xs, hflight, hsealed⟩ := hph.deliversToHost
  rw [hcarries.client, hend.host] at hsealed
  refine ⟨_, hsealed, fun hnone => ?_⟩
  rw [hcarries.toHost] at hnone
  rw [eq_nil_of_flatMap hnone] at hflight
  rw [List.map_eq_nil_iff.mp hflight.symm]
  rfl

/-- What the host has written is what the client has opened, and what is in flight. -/
theorem delivered_toClient (hend : s.HostEnd S st) (hcarries : l.Carries s) :
    ∃ xs, st.written = l.taken ++ xs ∧ (l.side.input = [] → xs = []) := by
  obtain ⟨-, ph, hph⟩ := hend.inv
  obtain ⟨xs, hflight, hsealed⟩ := hph.deliversToClient
  rw [hcarries.client, hend.host] at hsealed
  refine ⟨xs.map SealCall.content, ?_, fun hnone => ?_⟩
  · rw [LoopState.written, LoopState.writtenCalls, hend.flushed, List.take_length, hsealed]
    rfl
  · rw [hcarries.input] at hnone
    rw [eq_nil_of_flatMap hnone] at hflight
    rw [List.map_eq_nil_iff.mp hflight.symm]
    rfl

/-- The requests that the host has accepted are the first that the client has sealed. -/
theorem requests_delivered (hS : S.AeadCorrect) (hend : s.HostEnd S st) (hcarries : l.Carries s)
    (hseals : l.Seals) (hshort : l.Short) (hup : l.Up S) :
    st.requests <+: l.sent.filterMap ClientFrame.asRequest := by
  obtain ⟨xs, hsealed, -⟩ := delivered_toHost hend hcarries
  rw [← Line.requests_sealed hseals hshort (hup.fits hS), hsealed, List.filterMap_append]
  exact List.prefix_append _ _

theorem sent_posed (l : Line) : l.sent.filterMap ClientFrame.asRequest <+: l.posed := by
  rw [Line.posed, Line.made, List.filterMap_append, List.append_assoc]
  exact List.prefix_append _ _

/-- No id is accepted twice. -/
theorem nodup_delivered (hS : S.AeadCorrect) (hend : s.HostEnd S st) (hcarries : l.Carries s)
    (hseals : l.Seals) (hshort : l.Short) (hup : l.Up S) (hids : l.OwnIds) :
    (st.requests.map RequestPayload.requestId).Nodup := by
  have hfirst := (requests_delivered hS hend hcarries hseals hshort hup).trans (sent_posed l)
  exact (List.nodup_append.mp hids.nodup).1.sublist (hfirst.map _).sublist

end

/-! ### Every step keeps the invariant -/

section

variable {S : Sodium} {cfg : HostConfig} {c : ℕ} {E : Set Bytes} {k k' : Link}

/-- The frame that the host reads is the first of the session. -/
theorem front_of_left {s : Session} (hcarries : k.line.Carries s)
    (hv2 : k.line.side.v2 = (k.conn c).conn.v2) {a : Desk.Act} {rest : Bytes}
    (hleft : k.left c a = some rest) :
    ∃ gs, rest = gs.flatMap (writeFrame k.line.side.v2) ∧ (a.reads c = none → gs = s.toHost) ∧
      (∀ f, a.reads c = some f → s.toHost = f :: gs) ∧ ∀ g ∈ gs, g ∈ s.toHost := by
  rw [left] at hleft
  cases hreads : a.reads c with
  | none =>
    rw [hreads] at hleft
    cases hleft
    exact ⟨s.toHost, hcarries.toHost, fun _ => rfl, fun f hf => (by cases hf), fun _ hg => hg⟩
  | some f =>
    rw [hreads] at hleft
    obtain ⟨⟨f', rest'⟩, hread, rfl⟩ := Option.map_eq_some_iff.mp hleft
    obtain ⟨hread, hf⟩ := Option.filter_eq_some_iff.mp hread
    rw [← hv2, hcarries.toHost] at hread
    obtain ⟨-, gs, hgs, hrest⟩ := frame_of_readFrame hcarries.out hread
    have heq : f' = f := of_decide_eq_true hf
    subst heq
    refine ⟨gs, hrest, fun hno => (by cases hno), fun g hg => ?_, fun g hg => ?_⟩
    · cases hg
      exact hgs
    · rw [hgs]
      exact List.mem_cons_of_mem f' hg

/-- The bytes of the link after a step of the host are those of the session after it. -/
theorem carries_hostStep {s : Session} (hcarries : k.line.Carries s) {a : Desk.Act} {d : Desk}
    {gs fs : List RawFrame} (hmem : ∀ g ∈ gs, g ∈ s.toHost)
    (hout : (d.hub.conns c).out = (k.conn c).out ++ fs)
    (hv2 : (d.hub.conns c).conn.v2 = k.line.side.v2)
    (hepochs : k.line.side.v2 = false → ∀ f ∈ fs, f.epoch = 0)
    (hup : ∀ f ∈ (d.hub.conns c).out, headerLen (d.hub.conns c).conn.v2 + f.body.length < 2 ^ 32) :
    (k.hostStep c a d (gs.flatMap (writeFrame k.line.side.v2))).line.Carries
      { s with host := (d.hub.conns c).conn, toHost := gs, toClient := s.toClient ++ fs } := by
  have hnew : (d.hub.conns c).out.drop (k.conn c).out.length = fs := by
    rw [hout]
    exact List.drop_left
  refine ⟨hcarries.client, hcarries.v2, rfl, ?_, fun f hf => hcarries.out f (hmem f hf),
    fun f hf => ?_⟩
  · change k.line.side.input ++ ((d.hub.conns c).out.drop (k.conn c).out.length).flatMap
      (writeFrame (d.hub.conns c).conn.v2) = _
    rw [hnew, hv2, hcarries.input, ← List.flatMap_append]
    rfl
  · rcases List.mem_append.mp hf with hf | hf
    · exact hcarries.back f hf
    · have hlen := hup f (by
        rw [hout]
        exact List.mem_append_right _ hf)
      rw [hv2] at hlen
      exact ⟨hlen, fun hv1 => hepochs hv1 f hf⟩

/-- **A step of the host.** -/
theorem Inv.host (hS : S.AeadCorrect) (hkx : S.KxAgree) (h : k.Inv S cfg c E) {a : Desk.Act}
    {d : Desk} {rest : Bytes} (hleft : k.left c a = some rest)
    (hstep : Desk.Step S cfg k.desk a d) (hfine : Act.Fine c S cfg E k (.host a))
    (hup : (k.hostStep c a d rest).Up c S) : (k.hostStep c a d rest).Inv S cfg c E := by
  obtain ⟨s, hend, hcarries⟩ := h.session
  obtain ⟨-, ph, hph⟩ := hend.inv
  obtain ⟨hsucceeds, hframe⟩ := hfine
  have hv2 : k.line.side.v2 = (k.conn c).conn.v2 := by
    rw [hcarries.v2, ← hcarries.client, ← hph.version, hend.host]
  obtain ⟨gs, rfl, hsame, hfront, hmem⟩ := front_of_left hcarries hv2 hleft
  have hrekey : ∀ f env, a = .hub (.frame c f env) → f.type = .rekey →
      (k.conn c).conn.v2 = true := by
    rintro f env rfl htype
    rw [← hend.host]
    exact hph.v2_of_rekey (hfront f (if_pos rfl)) htype
  obtain ⟨fs, hout, hepochs, hend'⟩ := Desk.hostEnd_of_step hS hkx hend h.answering.fed.synced hstep
    hsucceeds hup.host hsame hfront fun f env ha => (hframe f env ha).1
  have hv2' : (d.hub.conns c).conn.v2 = k.line.side.v2 := by
    obtain ⟨-, ph', hph'⟩ := hend'.inv
    have hversion : (d.hub.conns c).conn.v2 = s.client.v2 := hph'.version
    rw [hversion, hcarries.client, hcarries.v2]
  have hcarries' := carries_hostStep (a := a) hcarries hmem hout hv2'
    (fun hv1 => hepochs (hv2.symm.trans hv1)) hup.back
  have hnodup := nodup_delivered hS hend' hcarries' h.seals.withStreams h.short.withStreams
    hup.client h.ids.withStreams
  have hsmooth : Desk.SmoothStep S cfg c k.desk a d := ⟨hstep, hsucceeds, hnodup⟩
  refine ⟨⟨_, hend', hcarries'⟩, hup, h.answering.step hsmooth,
    h.handlers.step h.answering hsmooth hrekey, fun e he => ?_,
    h.seals.withStreams, h.ids.withStreams, h.outputs.withStreams, h.short.withStreams,
    h.reads.withStreams⟩
  exact Desk.received_of_step h.answering hstep hsucceeds hup.host hrekey
    (fun f env ha => (hframe f env ha).2 e he) (h.received e he)

/-- No chunk was read under the id of a call that has not registered. -/
theorem Inv.unread (h : k.Inv S cfg c E) {id : UInt64}
    (hid : id ∉ (k.conn c).requests.map RequestPayload.requestId) :
    chunksFor id k.line.taken = [] := by
  obtain ⟨s, hend, hcarries⟩ := h.session
  obtain ⟨xs, hwritten, -⟩ := delivered_toClient hend hcarries
  have hnothing := (h.answering.fed.unknown id (by rw [Desk.received_eq]; exact hid)).1
  have hfirst : about id k.line.taken <+: about id (k.conn c).written := by
    rw [hwritten, about_append]
    exact List.prefix_append _ _
  rw [show about id (k.conn c).written = [] from hnothing, List.prefix_nil] at hfirst
  rw [← Service.chunksFor_about, hfirst]
  rfl

/-- **A step of the client.** -/
theorem Inv.client (hS : S.AeadCorrect) (hkx : S.KxAgree) (h : k.Inv S cfg c E) {a : Line.Act}
    {l : Line} (hstep : Line.Step S k.line a l) (hfine : Act.Fine c S cfg E k (.client a))
    (hup : Up c S { k with line := l }) (hlt : l.side.calls.drawn.length < 2 ^ 64) :
    Inv S cfg c E { k with line := l } := by
  obtain ⟨s, hend, hcarries⟩ := h.session
  obtain ⟨hsucceeds, hshort⟩ := hfine
  obtain ⟨s', hend', -, hcarries'⟩ := hcarries.step hS hkx hend hstep hsucceeds hup.client
  have hids := h.ids.step h.seals h.reads.streams.ids hstep hlt
  refine ⟨⟨s', hend', hcarries'⟩, hup, h.answering, h.handlers, h.received, h.seals.step hstep,
    hids, h.outputs.step h.seals hids hstep, h.short.step h.seals hshort hstep,
    h.reads.step hstep hlt fun i kind id hi => h.unread fun hin => ?_⟩
  have hfirst := (requests_delivered hS hend hcarries h.seals h.short h.up.client).trans
    (sent_posed k.line)
  exact h.ids.not_mem_of_drawn hi (List.mem_append_left _ ((hfirst.map _).subset hin))

/-- **Every step of a connection that stays up**, as long as its ids do not start over. -/
theorem Inv.step (hS : S.AeadCorrect) (hkx : S.KxAgree) (h : k.Inv S cfg c E) {a : Act}
    (hstep : SteadyStep c S cfg E k a k') (hlt : k'.line.side.calls.drawn.length < 2 ^ 64) :
    k'.Inv S cfg c E := by
  obtain ⟨hstep, hfine, hup⟩ := hstep
  cases a with
  | host a =>
    obtain ⟨rest, hleft, hstep⟩ := Option.bind_eq_some_iff.mp hstep
    obtain ⟨d, hd, rfl⟩ := Option.map_eq_some_iff.mp hstep
    exact h.host hS hkx hleft hd hfine hup
  | client a =>
    obtain ⟨l, hl, rfl⟩ := Option.map_eq_some_iff.mp hstep
    exact h.client hS hkx hl hfine hup hlt

/-- Ids are drawn, and never given back. -/
theorem drawn_le {a : Act} (hstep : Step c S cfg k a k') :
    k.line.side.calls.drawn.length ≤ k'.line.side.calls.drawn.length := by
  cases a with
  | host a =>
    obtain ⟨rest, -, hstep⟩ := Option.bind_eq_some_iff.mp hstep
    obtain ⟨d, -, rfl⟩ := Option.map_eq_some_iff.mp hstep
    exact Nat.le_refl _
  | client a =>
    obtain ⟨l, hl, rfl⟩ := Option.map_eq_some_iff.mp hstep
    exact Line.drawn_le hl

theorem inv_of_run (hS : S.AeadCorrect) (hkx : S.KxAgree) {k₀ : Link} (h : k₀.Inv S cfg c E)
    {acts : List Act} (hrun : Run (SteadyStep c S cfg E) k₀ acts k)
    (hlt : k.line.side.calls.drawn.length < 2 ^ 64) : k.Inv S cfg c E :=
  hrun.preserves (I := fun t => t.line.side.calls.drawn.length < 2 ^ 64 → t.Inv S cfg c E)
    (fun _ => h) (fun _ _ _ hinv hstep hlt =>
      (hinv (lt_of_le_of_lt (drawn_le hstep.1) hlt)).step hS hkx hstep hlt) hlt

end

end Link

end Epx
