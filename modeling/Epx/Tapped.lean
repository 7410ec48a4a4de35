import Epx.HandshakeAgreement
import Epx.HostSteps
import Epx.Rpc

/-!
# Calls on a line that is tapped

A `Desk` and a `Line` with an attacker for a network: the host is given whatever frames the attacker
likes, and the reader of the client whatever bytes. Writes may fail, and connections go down. The
attacker does not hold session keys; what is known of such a session is `Duplex.Inv`, and whatever
either end does is a run of a `Duplex`.

Frames can be held back, but what the handlers are called for is what the client has sealed, in its
order, and a call that ends with something of the host's ends with what was decided about its own
request.

## Main definitions

* `Keyed` — what a handshake leaves at its two ends if the versions may differ
* `Tapped`, `Tapped.Step`, `Tapped.Fair` — the two ends and the attacker
* `Tapped.Genuine` — what calls end with, and what was done for them

## Main results

* `Tapped.Inv.step`
* `calls_genuine`
-/

namespace Epx

open Codec Exception Log Transition LoopState
open ClientCalls (Reports)

/-! ### The client's end in steps of a `Connection` -/

/-- What a client does to its connection: nothing, or a step of it. -/
theorem ClientSide.conn_of_step {S : Sodium} {s s' : ClientSide} {a : ClientSide.Act}
    (hquiet : a.submits = false) (h : Step S s a s') :
    s'.conn = s.conn ∨ ∃ b, s.conn.Step S b s'.conn ∧ ∀ f, b = .receive f → a = .read f := by
  have hfun : step S s a = some s' := h
  cases a with
  | call b =>
    obtain ⟨-, hfun⟩ := Option.ite_none_left_eq_some.mp hfun
    obtain ⟨k, -, rfl⟩ := Option.map_eq_some_iff.mp hfun
    exact Or.inl rfl
  | write b => cases hquiet
  | loop | fails =>
    obtain ⟨-, hfun⟩ := Option.ite_none_right_eq_some.mp hfun
    obtain ⟨k, -, rfl⟩ := Option.map_eq_some_iff.mp hfun
    exact Or.inl rfl
  | read f =>
    obtain ⟨⟨-, hrunning⟩, hfun⟩ := Option.ite_none_right_eq_some.mp hfun
    split at hfun
    · obtain ⟨-, hfun⟩ := Option.ite_none_right_eq_some.mp hfun
      obtain ⟨k, -, rfl⟩ := Option.map_eq_some_iff.mp hfun
      refine Or.inr ⟨.receive f, ⟨trivial, none, ?_⟩, fun f' heq => ?_⟩
      · simp only [Connection.step, hrunning]
      · cases heq
        rfl
    · cases hfun
  | swapEph =>
    rw [step] at hfun
    split at hfun
    · next serverEph hreader =>
      have hconn : s'.conn = s.conn.swapEph S serverEph := by
        split at hfun
        · obtain ⟨k, -, rfl⟩ := Option.map_eq_some_iff.mp hfun
          rfl
        · cases hfun
          rfl
      refine Or.inr ⟨.swapEph, ⟨trivial, none, ?_⟩, fun f heq => (by cases heq)⟩
      simp only [Connection.step, hreader, hconn]
    · cases hfun
  | switchKeys now =>
    rw [step] at hfun
    split at hfun
    · next eph nk hreader hwriter =>
      obtain ⟨k, -, rfl⟩ := Option.map_eq_some_iff.mp hfun
      refine Or.inr ⟨.switchKeys now, ⟨trivial, none, ?_⟩, fun f heq => (by cases heq)⟩
      simp only [Connection.step, hreader, hwriter]
    · cases hfun

namespace Line

/-- The ephemeral that a step draws is a new one. -/
def Act.Draws (S : Sodium) (l : Line) : Act → Prop
  | .acquire _ now eph _ =>
    l.side.conn.rekeyDue now = true → S.IsKxPair eph ∧
      eph.publicKey ∉ l.side.conn.drawn.map EphemeralKeyPair.publicKey
  | _ => True

section

variable {S : Sodium} {l l' : Line} {a : Act}

/-- **What a step of a line does to its connection.** -/
theorem conn_of_step (hstep : Step S l a l') (hdraws : a.Draws S l) :
    l'.side.conn = l.side.conn ∨ ∃ b, l.side.conn.Step S b l'.side.conn ∧
      ∀ f, b = .receive f → a = .side (.read f) := by
  cases effect_of_step hstep with
  | side hquiet hside =>
    refine (ClientSide.conn_of_step hquiet hside).imp_right fun h => ?_
    obtain ⟨b, hb, hread⟩ := h
    exact ⟨b, hb, fun f heq => congrArg _ (hread f heq)⟩
  | asked _ | posted | opened | unsubscribed _ _ | told _ _ => exact Or.inl rfl
  | @acquired what now eph ok s₁ x p _ hp =>
    exact Or.inr ⟨.acquire x.frame.content.1 x.frame.content.2 now eph ok, ⟨hdraws, p.2, hp⟩,
      fun f heq => by cases heq⟩
  | @stored p hp => exact Or.inr ⟨.storeEph, ⟨trivial, p.2, hp⟩, fun f heq => by cases heq⟩
  | @offered p hp => exact Or.inr ⟨.setInProgress, ⟨trivial, p.2, hp⟩, fun f heq => by cases heq⟩
  | @sent ok x p k _ hp _ =>
    exact Or.inr ⟨.sendOwn ok, ⟨trivial, p.2, hp⟩, fun f heq => by cases heq⟩

end

end Line

/-! ### The host's end in steps of a `Duplex` -/

/-- A frame may still be read only if one could be read before. -/
theorem Desk.reads_of_step {S : Sodium} {cfg : HostConfig} {c : ℕ} {d d' : Desk} {a : Desk.Act}
    (hstep : Desk.Step S cfg d a d') (h : (d'.hub.phase c).Reads) : (d.hub.phase c).Reads := by
  by_contra hno
  refine absurd h ?_
  have hhandled : ∀ {c' : ℕ} {o : Outcome}, d.hub.phase c' = .serving →
      ¬ ((d.hub.handled c' o).phase c).Reads := by
    intro c' o hphase
    have hne : c ≠ c' := by
      rintro rfl
      refine hno ?_
      rw [hphase]
      exact trivial
    rw [show (d.hub.handled c' o).phase c = d.hub.phase c from Function.update_of_ne hne _ _]
    exact hno
  cases effect_of_step hstep with
  | aside hhub _ _ => exact Hub.reads_of_step hhub hno
  | frame _ hphase _ => exact hhandled hphase
  | @opened _ _ _ _ st _ hphase _ => exact hhandled (o := .next st) hphase
  | chunk _ | ended _ => exact hno

namespace Duplex

variable {S : Sodium} {s : Duplex} {g g' : HostConn}

/-- Steps of the host in which nothing is read. -/
theorem run_host {acts : List HostConn.Act} (conn : Connection)
    (hrun : Run (HostConn.Step S) g acts g') (hreads : ∀ f eph ok, .receive f eph ok ∉ acts) :
    Run (Guarded (Step S) (Secure S)) ⟨conn, g⟩ (acts.map Act.host) ⟨conn, g'⟩ := by
  induction hrun with
  | nil => exact .nil
  | @snoc as a t u _ hlast ih =>
    rw [List.map_append]
    refine (ih fun f eph ok hmem => hreads f eph ok (List.mem_append_left _ hmem)).snoc
      ⟨⟨hlast, rfl⟩, ?_⟩
    cases a with
    | receive f eph ok =>
      exact absurd (List.mem_append_right _ (List.mem_singleton_self _)) (hreads f eph ok)
    | send _ _ _ | ping _ | ackAndSwitch _ | quit | shutdown => trivial

/-- Whether a frame is read securely depends on the session alone. -/
theorem Secure.congr {conn : Connection} {f : RawFrame} {eph : EphemeralKeyPair} {ok : Bool}
    (h : Secure S ⟨conn, g⟩ (.host (.receive f eph ok))) (hsealed : g'.sealed = g.sealed)
    (hrx : g'.rx = g.rx) (hv2 : g'.v2 = g.v2) (eph' : EphemeralKeyPair) (ok' : Bool) :
    Secure S ⟨conn, g'⟩ (.host (.receive f eph' ok')) := by
  simpa only [Secure, log, hsealed, hrx, hv2] using h

end Duplex

/-- Nothing is read in a write. -/
theorem HostConn.Act.Writes.not_receive {P : FrameType × Bytes → Prop} {acts : List HostConn.Act}
    (hacts : ∀ a ∈ acts, a.Writes P) (f : RawFrame) (eph : EphemeralKeyPair) (ok : Bool) :
    .receive f eph ok ∉ acts := by
  intro hmem
  cases hacts _ hmem

/-! ### The machine -/

/-- What a handshake leaves at its two ends: the same keys, but perhaps not the same version. -/
structure Keyed (S : Sodium) (eph : EphemeralKeyPair) (client : HandshakeResult) (run : ServerRun)
    (host : HandshakeResult) : Prop where
  isPair : S.IsKxPair eph
  hostPair : S.IsKxPair run.ephemeral
  keys : S.kxClientSessionKeys eph run.ephemeral.publicKey = some client.keys
  hostKeys : S.kxServerSessionKeys run.ephemeral eph.publicKey = some host.keys
  swapped : host.keys = ⟨client.keys.tx, client.keys.rx⟩

/-- A host and the client at the other end of one of its connections, and what the host has
decided. The bytes between them are the attacker's. -/
structure Tapped where
  desk : Desk
  line : Line
  /-- The ephemerals of the host on this connection. -/
  drawn : List EphemeralKeyPair
  docket : Docket := []

namespace Tapped

inductive Act where
  | host (a : Desk.Act)
  | client (a : Line.Act)
  /-- The bytes on their way to the client are others. -/
  | wire (input : Bytes)

section

variable (c : ℕ)

def start (cfg : HostConfig) (run : ℕ → ServerRun) (acc : ℕ → Accept) (hs : ℕ → HandshakeResult)
    (eph : EphemeralKeyPair) (client : HandshakeResult) (rotation : RotationPolicy) (now : ℕ) :
    Tapped :=
  { desk := .start cfg run acc hs
    line := .start eph client rotation now
    drawn := [(run c).ephemeral] }

/-- The connection of the line, at the host's end. -/
def conn (t : Tapped) : LoopState := t.desk.hub.conns c

/-- The two ends of the session. -/
def ends (t : Tapped) : Duplex := ⟨t.line.side.conn, (t.conn c).conn⟩

/-- The ephemeral that the thread of the connection draws. -/
def draws : Desk.Act → List EphemeralKeyPair
  | .hub (.frame c' f env) => if c' = c ∧ f.type = .rekey then [env.eph] else []
  | _ => []

def step (S : Sodium) (cfg : HostConfig) (t : Tapped) : Act → Option Tapped
  | .host a => (t.desk.step S cfg a).map fun d =>
      { t with
        desk := d
        drawn := draws c a ++ t.drawn
        docket := t.desk.docketed S cfg c a t.docket }
  | .client a => (t.line.step S a).map fun l => { t with line := l }
  | .wire input => some { t with line := t.line.withStreams [] input }

/-- The attacker holds no session keys, ephemerals are new, and endpoint names fit into their
byte. -/
def Act.Fair (S : Sodium) (t : Tapped) : Act → Prop
  | .host a => ∀ f env, a = .hub (.frame c f env) →
      (t.ends c).Secure S (.host (.receive f env.eph true)) ∧
      (f.type = .rekey → S.IsKxPair env.eph ∧
        env.eph.publicKey ∉ t.drawn.map EphemeralKeyPair.publicKey)
  | .client a => (∀ f, a = .side (.read f) → (t.ends c).Secure S (.client (.receive f))) ∧
      a.Draws S t.line ∧ a.Short
  | .wire _ => True

/-- The steps of the two ends and the attacker. -/
def Step (S : Sodium) (cfg : HostConfig) : Tapped → Act → Tapped → Prop :=
  Guarded (OfFun (step c S cfg)) fun t a => a.Fair c S t

/-- Neither end has sealed more than its counters can number or its lengths can tell, and the ids of
the client have not started over. -/
structure Small (t : Tapped) : Prop where
  bounded : (t.ends c).Bounded
  forth : ∀ x ∈ t.line.side.conn.sealed, x.plaintext.length < 2 ^ 32
  back : ∀ x ∈ (t.conn c).conn.sealed, x.plaintext.length < 2 ^ 32
  ids : t.line.side.calls.drawn.length < 2 ^ 64

end

/-! ### What a step of the host is to the session -/

section

variable {S : Sodium} {cfg : HostConfig} {c : ℕ} {t : Tapped} {a : Desk.Act} {d : Desk}

/-- The decisions of a step are added to the record. -/
theorem docketed_eq (t : Tapped) (a : Desk.Act) (l : Docket) :
    t.desk.docketed S cfg c a l = l ++ t.desk.docketed S cfg c a [] := by
  have hnone : l = l ++ [] := (List.append_nil l).symm
  cases a with
  | hub b =>
    cases b with
    | frame c' f env =>
      rw [Desk.docketed, Desk.docketed]
      split
      · rw [List.nil_append]
      · exact hnone
    | _ => exact hnone
  | chunk _ _ _ | endStream _ _ => exact hnone

/-- A frame that the connection has read was handled, and its thread reads on only if the loop was
not left. -/
theorem handles_of_step {f : RawFrame} {env : Pass}
    (hstep : Desk.Step S cfg t.desk (.hub (.frame c f env)) d) :
    (t.conn c).Handles S f env (d.hub.conns c) (docketOf S cfg env (t.conn c) f)
      (d.hub.phase c).Reads ∧ (t.conn c).Takes S f (d.hub.conns c) ∧
      (t.desk.hub.phase c).Reads := by
  cases Desk.effect_of_step hstep with
  | aside _ hno _ => exact absurd rfl (hno c f env)
  | @frame _ _ _ o _ hphase hpass =>
    have hself : (t.desk.hub.handled c o).conns c = o.state := Function.update_self _ _ _
    refine ⟨?_, ?_, by rw [hphase]; exact trivial⟩
    · rw [hself]
      refine (handles_of_pass hpass).imp fun hreads => ?_
      cases o with
      | next st => exact ⟨st, rfl⟩
      | stop st =>
        have hleft : (t.desk.hub.handled c (.stop st)).phase c = .left := Function.update_self _ _ _
        change ((t.desk.hub.handled c (.stop st)).phase c).Reads at hreads
        rw [hleft] at hreads
        exact hreads.elim
    · rw [hself]
      exact takes_of_pass hpass
  | @opened _ _ _ req st _ hphase hopen =>
    have hself : (t.desk.hub.handled c (.next st)).conns c = st := Function.update_self _ _ _
    refine ⟨?_, ?_, by rw [hphase]; exact trivial⟩
    · rw [hself]
      exact (handles_of_openStream hopen).imp fun _ => trivial
    · rw [hself]
      exact takes_of_openStream hopen

/-- **A step of the host is a run of the session**, in which nothing is read that the attacker could
have forged, and no RESPONSEs are sealed but those of the decisions. -/
theorem run_of_step (hstep : Desk.Step S cfg t.desk a d) (hfair : Act.Fair c S t (.host a))
    {r : HostReader} {e : List EphemeralKeyPair} (he : ∀ x ∈ e, x ∈ t.drawn)
    (hr : (t.desk.hub.phase c).Reads → r = .running) :
    ∃ acts r' e', Run (HostConn.Step S) ((t.conn c).conn.placed r e) acts
        ((d.hub.conns c).conn.placed r' e') ∧
      Run (Guarded (Duplex.Step S) (Duplex.Secure S)) ⟨t.line.side.conn, (t.conn c).conn.placed r e⟩
        (acts.map Duplex.Act.host) ⟨t.line.side.conn, (d.hub.conns c).conn.placed r' e'⟩ ∧
      (∀ b ∈ acts, b.Writes (Rules (t.desk.docketed S cfg c a [])) ∨
        ∃ f eph ok, b = .receive f eph ok) ∧
      (∀ x ∈ e', x ∈ draws c a ++ t.drawn) ∧ ((d.hub.phase c).Reads → r' = .running) := by
  cases hreads : a.reads c with
  | none =>
    obtain ⟨acts, hrun, hacts⟩ := (Desk.speaks_of_step hstep hreads).1 r e
    refine ⟨acts, r, e, hrun, Duplex.run_host _ hrun (HostConn.Act.Writes.not_receive hacts),
      fun b hb => Or.inl ((hacts b hb).mono fun x hx htype => absurd htype hx),
      fun x hx => List.mem_append_right _ (he x hx), fun h => hr (Desk.reads_of_step hstep h)⟩
  | some f =>
    obtain ⟨env, rfl⟩ := Desk.Act.reads_eq_some hreads
    obtain ⟨hsecure, hfresh⟩ := hfair f env rfl
    obtain ⟨hhandles, -, hphase⟩ := handles_of_step hstep
    obtain ⟨pings, ok, acts, r', e', hrun, hpings, hacts, he', hmore⟩ := hhandles.run e
      fun htype => ⟨(hfresh htype).1, fun hmem => (hfresh htype).2 (List.map_subset _ he hmem)⟩
    rw [← hr hphase] at hrun
    have hdocket : t.desk.docketed S cfg c (.hub (.frame c f env)) []
        = docketOf S cfg env (t.conn c) f := by
      rw [Desk.docketed, if_pos rfl]
      rfl
    refine ⟨_, r', e', hrun, ?_, fun b hb => ?_, fun x hx => ?_, hmore⟩
    · obtain ⟨g, hfirst, hrest⟩ := hrun.split
      obtain ⟨g', hreceive, hrest⟩ := hrest.uncons
      obtain ⟨hsealed, hrx, hv2⟩ := HostConn.session_of_pings hfirst hpings
      have hnone : ∀ f eph ok, .receive f eph ok ∉ pings := by
        intro f eph ok hmem
        obtain ⟨ok', heq⟩ := hpings _ hmem
        cases heq
      have hread : Guarded (Duplex.Step S) (Duplex.Secure S) ⟨t.line.side.conn, g⟩
          (.host (.receive f env.eph ok)) ⟨t.line.side.conn, g'⟩ :=
        ⟨⟨hreceive, rfl⟩, Duplex.Secure.congr hsecure hsealed hrx hv2 env.eph ok⟩
      have hrun' := ((Duplex.run_host t.line.side.conn hfirst hnone).snoc hread).trans
        (Duplex.run_host _ hrest (HostConn.Act.Writes.not_receive hacts))
      rw [List.append_assoc] at hrun'
      rwa [List.map_append]
    · rw [hdocket]
      rcases List.mem_append.mp hb with hb | hb
      · obtain ⟨ok, rfl⟩ := hpings b hb
        exact Or.inl .ping
      · rcases List.mem_cons.mp hb with rfl | hb
        · exact Or.inr ⟨f, env.eph, ok, rfl⟩
        · exact Or.inl (hacts b hb)
    · rcases he' x hx with hx | ⟨htype, rfl⟩
      · exact List.mem_append_right _ (he x hx)
      · rw [draws, if_pos ⟨rfl, htype⟩]
        exact List.mem_append_left _ (List.mem_singleton_self _)

/-- A step that reads nothing on the connection. -/
theorem aside_of_step (hstep : Desk.Step S cfg t.desk a d) (hreads : a.reads c = none) :
    (d.hub.conns c).calls = (t.conn c).calls ∧
      (d.hub.conns c).conn.opened = (t.conn c).conn.opened ∧
      t.desk.docketed S cfg c a [] = [] := by
  obtain ⟨hspeaks, hcalls⟩ := Desk.speaks_of_step hstep hreads
  obtain ⟨acts, hrun, hacts⟩ := hspeaks .running []
  have hopened := HostConn.opened_of_writes hrun hacts
  refine ⟨hcalls, hopened, ?_⟩
  cases a with
  | hub b =>
    cases b with
    | frame c' f env =>
      rw [Desk.docketed, if_neg]
      rintro rfl
      exact Desk.Act.reads_eq_none hreads f env rfl
    | _ => rfl
  | chunk _ _ _ | endStream _ _ => rfl

/-- The host goes on sealing. -/
theorem sealed_of_step (hstep : Desk.Step S cfg t.desk a d) (hfair : Act.Fair c S t (.host a)) :
    (t.conn c).conn.sealed <+: (d.hub.conns c).conn.sealed := by
  obtain ⟨acts, r, e, hrun, -⟩ := run_of_step hstep hfair (r := .running) (e := [])
    (fun _ hx => absurd hx List.not_mem_nil) fun _ => rfl
  refine hrun.preserves (I := fun g => (t.conn c).conn.sealed <+: g.sealed) (List.prefix_refl _) ?_
  intro g b g' hle hb
  obtain ⟨-, out, hfun⟩ := hb
  exact hle.trans (HostConn.sealed_mono (HostConn.effect_of_step S hfun))

/-- What was small after a step was so before it. -/
theorem Small.of_step {b : Act} {t' : Tapped} (h : t'.Small c) (hstep : Step c S cfg t b t') :
    t.Small c := by
  have hcount : ∀ {p q : Sender}, p.sealed <+: q.sealed → ∀ e, p.count e ≤ q.count e :=
    fun hle e => (segment_mono hle e).length_le
  obtain ⟨hfun, hfair⟩ := hstep
  cases b with
  | host a =>
    obtain ⟨d, hd, rfl⟩ := Option.map_eq_some_iff.mp hfun
    have hle := sealed_of_step hd hfair
    exact ⟨⟨h.bounded.client, fun e => (hcount hle e).trans_lt (h.bounded.host e)⟩, h.forth,
      fun x hx => h.back x (hle.subset hx), h.ids⟩
  | client a =>
    obtain ⟨l, hl, rfl⟩ := Option.map_eq_some_iff.mp hfun
    have hle : t.line.side.conn.sealed <+: l.side.conn.sealed := by
      rcases Line.conn_of_step hl hfair.2.1 with heq | ⟨b, ⟨-, out, hb⟩, -⟩
      · rw [heq]
      · exact Connection.sealed_mono (Connection.effect_of_step S hb)
    exact ⟨⟨fun e => (hcount hle e).trans_lt (h.bounded.client e), h.bounded.host⟩,
      fun x hx => h.forth x (hle.subset hx), h.back, (Line.drawn_le hl).trans_lt h.ids⟩
  | wire input =>
    cases hfun
    exact ⟨h.bounded, h.forth, h.back, h.ids⟩

end

/-! ### The invariant -/

/-- The two ends are those of a session under attack. -/
def Linked (S : Sodium) (c : ℕ) (t : Tapped) : Prop :=
  ∃ r e, Duplex.Inv S ⟨t.line.side.conn, (t.conn c).conn.placed r e⟩ ∧ (∀ x ∈ e, x ∈ t.drawn) ∧
    ((t.desk.hub.phase c).Reads → r = .running)

/-- What holds of a line that is tapped. -/
structure Inv (S : Sodium) (c : ℕ) (t : Tapped) : Prop where
  session : t.Linked S c
  inOrder : (t.conn c).InOrder
  served : (t.conn c).served = t.docket.calls
  requests : (t.docket.map Prod.fst).Sublist (t.conn c).requests
  rules : ∀ x ∈ (t.conn c).conn.sealed, Rules t.docket x.content
  seals : t.line.Seals
  ids : t.line.OwnIds
  short : t.line.Short
  streams : t.line.side.calls.Streams
  hears : t.line.Hears

theorem inv_start {S : Sodium} {cfg : HostConfig} {run : ℕ → ServerRun} {acc : ℕ → Accept}
    {hs : ℕ → HandshakeResult} {eph : EphemeralKeyPair} {client : HandshakeResult} {c : ℕ}
    (hkeyed : Keyed S eph client (run c) (hs c)) (rotation : RotationPolicy) (now : ℕ) :
    (start c cfg run acc hs eph client rotation now).Inv S c where
  session := by
    refine ⟨.running, [(run c).ephemeral], ?_, fun _ hx => hx, fun _ => rfl⟩
    have hhost := hkeyed.hostKeys
    rw [hkeyed.swapped] at hhost
    have hinv : (Duplex.start eph (run c).ephemeral client.keys (hs c).peerIdentity
        client.peerIdentity client.version (hs c).version rotation now).Inv S :=
      Duplex.inv_start hkeyed.isPair hkeyed.hostPair hkeyed.keys hhost
    rw [Duplex.start, ← hkeyed.swapped] at hinv
    exact hinv
  inOrder := .nil
  served := rfl
  requests := List.nil_sublist _
  rules _ hx := absurd hx List.not_mem_nil
  seals := Line.seals_start eph client rotation now
  ids := Line.ownIds_start eph client rotation now
  short := Line.short_start eph client rotation now
  streams := ⟨ClientCalls.ids_start, ClientCalls.streamTold_start⟩
  hears := Line.hears_start eph client rotation now

section

variable {S : Sodium} {cfg : HostConfig} {c : ℕ} {t t' : Tapped}

/-- What the host has opened the client has sealed, in the same order. -/
theorem Inv.opened_sublist (h : t.Inv S c) :
    ((t.conn c).conn.opened.map Opened.content).Sublist
      (t.line.side.conn.sealed.map SealCall.content) := by
  obtain ⟨r, e, hinv, -⟩ := h.session
  have hsub := (hinv.toHost.sublist hinv.client.sender.sorted).map Opened.content
  rwa [List.map_map] at hsub

/-- What the client has opened are the first frames that the host has sealed. -/
theorem Inv.taken_prefix (h : t.Inv S c) :
    t.line.taken <+: (t.conn c).conn.sealed.map SealCall.content := by
  obtain ⟨r, e, hinv, -⟩ := h.session
  have hfirst := (hinv.toClient.prefix_of_last hinv.host.sender.sorted hinv.ackLast.last).map
    Opened.content
  rwa [List.map_map] at hfirst

/-- The handlers are called for what the client has sealed. -/
theorem Inv.frames_sublist (h : t.Inv S c) (hsmall : t.Small c) :
    (t.conn c).frames.Sublist t.line.sent := by
  rw [← Line.frames_sealed h.seals h.short hsmall.forth]
  exact h.opened_sublist.filterMap _

/-- The client has read what was decided about its requests. -/
theorem Inv.vouched (h : t.Inv S c) (hsmall : t.Small c) : t.line.Vouched t.docket := by
  refine ⟨h.streams, h.ids, h.hears, ?_, fun id resp hmem => ?_⟩
  · have hrequests : (t.conn c).requests.Sublist (t.line.sent.filterMap ClientFrame.asRequest) := by
      rw [← Line.requests_sealed h.seals h.short hsmall.forth]
      exact h.opened_sublist.filterMap _
    exact (h.requests.trans hrequests).trans (Link.sent_posed t.line).sublist
  · obtain ⟨hmem, hid⟩ := List.mem_filter.mp hmem
    have hid : resp.requestId = id := of_decide_eq_true hid
    obtain ⟨x, hx, hresp⟩ := List.mem_filterMap.mp hmem
    obtain ⟨y, hy, rfl⟩ := List.mem_map.mp (h.taken_prefix.subset hx)
    obtain ⟨req, v, hentry, hreq, -, hreply⟩ := Docket.decided_of_response
      (h.rules y hy (responseOf_type hresp)) (hsmall.back y hy) hresp
    exact ⟨req, v, hentry, hreq.trans hid, hreply⟩

/-- **A step of the host.** -/
theorem Inv.host (h : t.Inv S c) {a : Desk.Act} {d : Desk} (hstep : Desk.Step S cfg t.desk a d)
    (hfair : Act.Fair c S t (.host a)) {drawn : List EphemeralKeyPair} {docket : Docket}
    (hdrawn : drawn = draws c a ++ t.drawn) (hdocket : docket = t.desk.docketed S cfg c a t.docket)
    (hsmall : Small c { t with desk := d, drawn := drawn, docket := docket }) :
    Inv S c { t with desk := d, drawn := drawn, docket := docket } := by
  obtain ⟨r, e, hinv, he, hr⟩ := h.session
  obtain ⟨acts, r', e', hrun, hsession, hacts, he', hr'⟩ := run_of_step hstep hfair he hr
  rw [docketed_eq] at hdocket
  subst hdrawn hdocket
  have hcore : ∃ xs, ((d.hub.conns c).InOrder ∧ (d.hub.conns c).served = (t.conn c).served ++
      (t.desk.docketed S cfg c a []).calls ∧ (d.hub.conns c).requests = (t.conn c).requests ++ xs ∧
      ((t.desk.docketed S cfg c a []).map Prod.fst).Sublist xs) := by
    cases hreads : a.reads c with
    | none =>
      obtain ⟨hcalls, hopened, hnone⟩ := aside_of_step hstep hreads
      refine ⟨[], inOrder_of_same hcalls hopened h.inOrder, ?_, ?_, ?_⟩
      · rw [hnone, LoopState.served, hcalls]
        exact (List.append_nil _).symm
      · rw [LoopState.requests, hopened]
        exact (List.append_nil _).symm
      · rw [hnone]
        exact List.nil_sublist _
    | some f =>
      obtain ⟨env, rfl⟩ := Desk.Act.reads_eq_some hreads
      obtain ⟨hhandles, htakes, -⟩ := handles_of_step hstep
      rw [Desk.docketed, if_pos rfl]
      exact ⟨_, htakes.inOrder h.inOrder, hhandles.served, htakes.requests,
        docketOf_requests S cfg env _ f⟩
  obtain ⟨xs, hinorder, hserved, hrequests, hsub⟩ := hcore
  refine ⟨⟨r', e', ?_, he', hr'⟩, hinorder, ?_, ?_, fun x hx => ?_, h.seals, h.ids, h.short,
    h.streams, h.hears⟩
  · exact Duplex.inv_of_run hsession hinv ⟨hsmall.bounded.client, hsmall.bounded.host⟩
  · change (d.hub.conns c).served = _
    rw [hserved, h.served, Docket.calls, Docket.calls, Docket.calls, List.flatMap_append]
  · change (List.map _ _).Sublist (d.hub.conns c).requests
    rw [hrequests, List.map_append]
    exact h.requests.append hsub
  · rcases HostConn.sealed_of_writes hrun hacts x hx with hx | hx | hx
    · exact fun htype => mem_responses_left (h.rules x hx htype)
    · intro htype
      rw [show x.content.1 = .rekeyAck from hx] at htype
      cases htype
    · exact fun htype => mem_responses_right (hx htype)

/-- **A step of the client.** -/
theorem Inv.client (h : t.Inv S c) (hbefore : t.Small c) {a : Line.Act} {l : Line}
    (hstep : Line.Step S t.line a l) (hfair : Act.Fair c S t (.client a))
    (hsmall : Small c { t with line := l }) : Inv S c { t with line := l } := by
  obtain ⟨hsecure, hdraws, hshort⟩ := hfair
  refine ⟨?_, h.inOrder, h.served, h.requests, h.rules, h.seals.step hstep,
    h.ids.step h.seals h.streams.ids hstep hsmall.ids, h.short.step h.seals hshort hstep, ?_,
    h.hears.step h.streams hstep fun i kind id => (h.vouched hbefore).unread⟩
  · obtain ⟨r, e, hinv, he, hr⟩ := h.session
    refine ⟨r, e, ?_, he, hr⟩
    change Duplex.Inv S ⟨l.side.conn, _⟩
    rcases Line.conn_of_step hstep hdraws with heq | ⟨b, hb, hread⟩
    · rw [heq]
      exact hinv
    · have hb' : Duplex.Step S ⟨t.line.side.conn, (t.conn c).conn.placed r e⟩ (.client b)
          ⟨l.side.conn, (t.conn c).conn.placed r e⟩ := ⟨hb, rfl⟩
      refine hinv.step ⟨hbefore.bounded.client, hbefore.bounded.host⟩ hb' ?_
      cases b with
      | receive f => exact hsecure f (hread f rfl)
      | acquire _ _ _ _ _ | storeEph | setInProgress | sendOwn _ | swapEph | switchKeys _
      | quit => trivial
  · change l.side.calls.Streams
    rcases Line.calls_of_step hstep with heq | ⟨b, hb⟩
    · rw [heq]
      exact h.streams
    · exact h.streams.step hb hsmall.ids

/-- **Every step keeps the invariant**, whatever the attacker delivers. -/
theorem Inv.step (h : t.Inv S c) {a : Act} (hstep : Step c S cfg t a t') (hsmall : t'.Small c) :
    t'.Inv S c := by
  have hbefore := hsmall.of_step hstep
  obtain ⟨hfun, hfair⟩ := hstep
  cases a with
  | host a =>
    obtain ⟨d, hd, rfl⟩ := Option.map_eq_some_iff.mp hfun
    exact h.host hd hfair rfl rfl hsmall
  | client a =>
    obtain ⟨l, hl, rfl⟩ := Option.map_eq_some_iff.mp hfun
    exact h.client hbefore hl hfair hsmall
  | wire input =>
    cases hfun
    exact ⟨h.session, h.inOrder, h.served, h.requests, h.rules, h.seals.withStreams,
      h.ids.withStreams, h.short.withStreams, h.streams, h.hears.withStreams _ _⟩

theorem inv_of_run {t₀ : Tapped} (h : t₀.Inv S c) {acts : List Act}
    (hrun : Run (Step c S cfg) t₀ acts t) (hsmall : t.Small c) : t.Inv S c :=
  hrun.preserves (I := fun t => t.Small c → t.Inv S c) (fun _ => h)
    (fun _ _ _ hinv hstep hsmall => (hinv (hsmall.of_step hstep)).step hstep hsmall) hsmall

end

/-! ### What the attacker cannot do -/

/-- What the handlers are called for, and what calls end with. -/
structure Genuine (c : ℕ) (t : Tapped) : Prop where
  /-- Each call of a handler is for a frame of the client, in the order of the frames. -/
  handlers : (t.conn c).calls.SublistForall₂ HandlerCall.For t.line.sent
  /-- A `get` that reports something of the host's reports what was decided about its request. -/
  get : ∀ i id o, t.line.side.calls.calls i = .over .get id o → Reports o →
    ∃ v : Verdict, (t.line.request i id, v) ∈ t.docket ∧ v.outcome = some o
  /-- So does a `get_stream` that throws something of the host's. -/
  stream : ∀ i id o, t.line.side.calls.calls i = .over .getStream id o → Reports o →
    (∃ data, o = .returned data) ∨
      ∃ v : Verdict, (t.line.request i id, v) ∈ t.docket ∧ v.streamOutcome = some o
  /-- The requests that are decided about are requests of the client, in their order. -/
  posed : (t.docket.map Prod.fst).Sublist t.line.posed
  /-- No request is decided about twice. -/
  once : (t.docket.map fun p => p.1.requestId).Nodup
  /-- The handlers of requests are called as it was decided, and not otherwise. -/
  served : (t.conn c).served = t.docket.calls

theorem Inv.genuine {S : Sodium} {c : ℕ} {t : Tapped} (h : t.Inv S c) (hsmall : t.Small c) :
    t.Genuine c where
  handlers := by
    obtain ⟨l, hl, hsub⟩ := List.sublistForall₂_iff.mp h.inOrder
    exact List.sublistForall₂_iff.mpr ⟨l, hl, hsub.trans (h.frames_sublist hsmall)⟩
  get _ _ _ := (h.vouched hsmall).get
  stream _ _ _ := (h.vouched hsmall).stream
  posed := (h.vouched hsmall).posed
  once := (h.vouched hsmall).nodup
  served := h.served

end Tapped

/-- **Calls are genuine whatever the attacker delivers**, whichever writes fail, and however calls,
streams, subscriptions and key rotations follow each other at the two ends: each call of a handler
is for a frame that the client has sealed, in the order of the frames and at most once for each; a
`get` or a `get_stream` that reports an answer or an error of the host's reports what the host has
decided about this very request, and about no request does it decide twice. -/
theorem calls_genuine (S : Sodium) (cfg : HostConfig) (c : ℕ) (run : ℕ → ServerRun)
    (acc : ℕ → Accept) (hs : ℕ → HandshakeResult) (eph : EphemeralKeyPair)
    (client : HandshakeResult) (rotation : RotationPolicy) (now : ℕ)
    (hkeyed : Keyed S eph client (run c) (hs c)) (acts : List Tapped.Act) (t : Tapped)
    (hrun : Run (Tapped.Step c S cfg) (.start c cfg run acc hs eph client rotation now) acts t)
    (hsmall : t.Small c) : t.Genuine c :=
  (Tapped.inv_of_run (Tapped.inv_start hkeyed rotation now) hrun hsmall).genuine hsmall

/-! ### A request that is replayed -/

namespace TappedCall

open RotatedSession (ephemeral)
open HonestHandshake (clientRun serverRun clientResult serverResult)
open CutSession (entry makeNonce_injective)
open PlayedLink (config env)

/-- The request of a call, and its answer. -/
def calls : List SealCall :=
  [⟨Block.fill 32 2, 0, 0, .request,
      encodeRequest { requestId := 1, oneway := false, endpoint := [117], data := [7] }⟩,
    ⟨Block.fill 32 5, 0, 0, .response, encodeResponse { requestId := 1, status := 0, data := [7] }⟩]

/-- The symbolic libsodium with an AEAD that opens these calls and no others. -/
def sodium : Sodium :=
  { HonestHandshake.sodium with
    aeadDecrypt := fun key nonce ad ct =>
      let pt := ct.take (ct.length - aeadTagBytes)
      if calls.any fun x => entry x = (key, nonce, ad, pt) then some pt else none }

instance : DecidablePred sodium.IsKxPair := fun e =>
  inferInstanceAs (Decidable (e.secretKey = e.publicKey ∧ e.publicKey ≠ Block.zero 32))

/-- The receiver has none of the keys. -/
def foreign (key : Block 32) (keys : List (Block 32)) : Bool := keys.all fun k => k ≠ key

/-- No call that opens under one of the keys is missing from the log. -/
def logged (log : List (Bool × SealCall)) (keys : List (Block 32)) : Bool :=
  calls.all fun x => foreign x.key keys || log.any fun y => y = (true, x)

theorem foreign_iff {key : Block 32} {keys : List (Block 32)} :
    foreign key keys = true ↔ key ∉ keys := by
  simp only [foreign, List.all_eq_true, decide_eq_true_eq]
  exact ⟨fun h hmem => h key hmem rfl, fun h k hk heq => h (heq ▸ hk)⟩

theorem ideal_of_logged {log : List (Bool × SealCall)} {keys : List (Block 32)}
    (h : logged log keys = true) (body : Bytes) : Ideal sodium log keys body := by
  have hlogged : ∀ x ∈ calls, x.key ∈ keys → (true, x) ∈ log := by
    intro x hx hkey
    rcases Bool.or_eq_true_iff.mp (List.all_eq_true.mp h x hx) with hno | hin
    · exact absurd hkey (foreign_iff.mp hno)
    · obtain ⟨y, hy, heq⟩ := List.any_eq_true.mp hin
      rwa [of_decide_eq_true heq] at hy
  intro key hkey counter ad plaintext hopen
  rw [openImpl] at hopen
  obtain ⟨-, hopen⟩ := Option.ite_none_left_eq_some.mp hopen
  obtain ⟨hmem, heq⟩ := Option.ite_none_right_eq_some.mp hopen
  cases heq
  obtain ⟨x, hx, hentry⟩ := List.any_eq_true.mp hmem
  obtain ⟨hk, hnonce, had, hplain⟩ : x.key = key ∧ makeNonce x.counter = makeNonce counter ∧
      frameAd true x.type x.counter x.epoch = ad ∧ x.plaintext = _ := by
    simpa [entry] using hentry
  exact ⟨true, x, hlogged x hx (hk ▸ hkey), hk, makeNonce_injective hnonce, had, hplain⟩

def link : Tapped :=
  .start 0 config (fun _ => serverRun) (fun _ => SameRequestId.accept) (fun _ => serverResult)
    clientRun.ephemeral clientResult {} 0

/-- A check that is enough for a step to be fair. -/
def check (t : Tapped) : Tapped.Act → Bool
  | .host (.hub (.frame _ f _)) =>
    f.type ≠ .rekey && (logged (t.ends 0).log (t.ends 0).host.rx.keys &&
      (t.ends 0).host.sealed.all fun x => foreign x.key (t.ends 0).host.rx.keys)
  | .client (.side (.read _)) =>
    logged (t.ends 0).log (t.ends 0).client.rx.keys &&
      (t.ends 0).client.sealed.all fun x => foreign x.key (t.ends 0).client.rx.keys
  | .client (.acquire _ now _ _) => !t.line.side.conn.rekeyDue now
  | .client (.ask _ _ endpoint _) => endpoint.length ≤ 255
  | .client (.post _ _) | .client (.openStream _) => false
  | _ => true

theorem not_mem_of_foreign {sealed : List SealCall} {keys : List (Block 32)}
    (h : (sealed.all fun x => foreign x.key keys) = true) : ∀ x ∈ sealed, x.key ∉ keys :=
  fun x hx => foreign_iff.mp (List.all_eq_true.mp h x hx)

theorem fair_of_check {t : Tapped} {a : Tapped.Act} (h : check t a = true) :
    a.Fair 0 sodium t := by
  cases a with
  | host a =>
    rintro f env rfl
    obtain ⟨htype, h⟩ := Bool.and_eq_true_iff.mp h
    obtain ⟨hlogged, hown⟩ := Bool.and_eq_true_iff.mp h
    exact ⟨⟨ideal_of_logged hlogged _, not_mem_of_foreign hown⟩,
      fun hrekey => absurd hrekey (of_decide_eq_true htype)⟩
  | client a =>
    cases a with
    | side b =>
      refine ⟨fun f heq => ?_, trivial, trivial⟩
      cases heq
      obtain ⟨hlogged, hown⟩ := Bool.and_eq_true_iff.mp h
      exact ⟨ideal_of_logged hlogged _, not_mem_of_foreign hown⟩
    | acquire what now eph ok =>
      refine ⟨fun f heq => (by cases heq), fun hdue => ?_, trivial⟩
      have hnot : (!t.line.side.conn.rekeyDue now) = true := h
      rw [hdue] at hnot
      cases hnot
    | ask i kind endpoint data =>
      exact ⟨fun f heq => (by cases heq), trivial, of_decide_eq_true h⟩
    | post _ _ | openStream _ => cases h
    | unsubscribeReturn _ | storeEph | setInProgress | sendOwn _ =>
      exact ⟨fun f heq => (by cases heq), trivial, trivial⟩
  | wire input => trivial

/-- The attacker delivers the request twice, and the answer once. -/
def acts : List Tapped.Act :=
  [.host (.hub (.accept 0)), .client (.ask 0 .get [117] [7]), .client (.side (.call (.draw 0))),
    .client (.side (.call (.register 0))), .client (.acquire (.call 0) 0 (ephemeral 3) true),
    .client (.sendOwn true), .host (.hub (.frame 0 (calls[0].frame sodium true) env)),
    .host (.hub (.frame 0 (calls[0].frame sodium true) env)),
    .wire (writeFrame true (calls[1].frame sodium true)), .client (.side .loop),
    .client (.side (.read (calls[1].frame sodium true))),
    .client (.side (.call (.getWake 0 false)))]

def linkEnd : Option Tapped := exec (guardFun (Tapped.step 0 sodium config) check) link acts

theorem linkEnd_isSome : linkEnd.isSome = true := by decide +kernel

theorem link_run : Run (Tapped.Step 0 sodium config) link acts (linkEnd.get linkEnd_isSome) :=
  (run_of_exec_guardFun (Option.some_get linkEnd_isSome).symm).mono fun _ _ _ h =>
    ⟨h.1, fair_of_check h.2⟩

theorem keyed : Keyed sodium clientRun.ephemeral clientResult serverRun serverResult where
  isPair := by decide
  hostPair := by decide
  keys := by decide
  hostKeys := by decide
  swapped := rfl

theorem small : (linkEnd.get linkEnd_isSome).Small 0 := by
  have hcount : ∀ (x : Sender), x.sealed.length < 2 ^ 64 → ∀ e, x.count e < 2 ^ 64 :=
    fun x hx e => (x.count_le e).trans_lt hx
  exact ⟨⟨hcount _ (by decide +kernel), hcount _ (by decide +kernel)⟩, by decide +kernel,
    by decide +kernel, by decide +kernel⟩

/-- The call has its answer, and the handler was called once. -/
theorem calls_genuine_replayed :
    (linkEnd.get linkEnd_isSome).line.side.calls.calls 0 = .over .get 1 (.returned [7]) ∧
    ((linkEnd.get linkEnd_isSome).conn 0).calls = [.unary [117] [7]] ∧
    (linkEnd.get linkEnd_isSome).Genuine 0 := by
  refine ⟨by decide +kernel, by decide +kernel, ?_⟩
  exact calls_genuine sodium config 0 (fun _ => serverRun) (fun _ => SameRequestId.accept)
    (fun _ => serverResult) clientRun.ephemeral clientResult {} 0 keyed acts _ link_run small

end TappedCall

end Epx
