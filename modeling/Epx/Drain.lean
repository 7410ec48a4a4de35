import Epx.TopicHistory

/-!
# Stopping a host that has connections

`stop`, the loop of `handle_connection` and `accept_loop` of `src/host.cpp`, as far as they meet.
The flag that `stop` clears first is the condition of the loop that every connection's thread is in:
a thread that comes to the condition while the `before_stop` hooks run leaves the loop, takes its
connection out of the topics and closes it. A thread that is blocked in `read_frame` stays there
until a frame arrives or the connection is closed.

The connections and their topics are those of `Hub`. Added here are the frames that have arrived and
were not read, the place of a thread within its loop, who has closed a connection, and the stages of
`stop`.

For the record, the host keeps what there was when `stop` was entered: the connections and the
subscriptions. Of these it keeps those that were told that they are over and those that their own
client has dropped, by an unsubscribe or because it could not be written to.

## Main definitions

* `Drain`, `Drain.step` — the machine
* `Drain.Window` — `before_stop` is a window in which the host goes on serving
* `Drain.undisturbed` — no thread comes to the condition of its loop while its connection is waited
  for

## Main results

* `Drain.run_of_reads` — a frame that has arrived is handled if the thread reads
-/

namespace Epx

open Codec Transition

/-- How far `stop` is. -/
inductive StopStage where
  /-- The host runs. -/
  | up
  /-- The `before_stop` hooks that are left. -/
  | hooks (n : ℕ)
  /-- The topics for which `close_all` is left. -/
  | closing (topics : List ℕ)
  /-- The listener is closed, and these connections are left. -/
  | disconnecting (conns : List ℕ)
  deriving DecidableEq

namespace StopStage

/-- From the moment in which `stop` is entered to the return of the last `before_stop` hook. -/
def window : StopStage → Bool
  | .hooks _ => true
  | _ => false

/-- `close_all` is over for the topic. -/
def Past (t : ℕ) : StopStage → Prop
  | .closing topics => t ∉ topics
  | .disconnecting _ => True
  | _ => False

end StopStage

/-- The thread has left its loop. -/
def ThreadPhase.out : ThreadPhase → Bool
  | .waiting | .serving => false
  | .left | .detaching _ | .returned => true

/-- The last chunk that was written for the subscription says that it is the last. -/
def TopicSub.saysLast (s : TopicSub) : Bool := s.chunks.getLast?.any fun c => c.isLast

/-- A host, its connections, and how far `stop` is. -/
structure Drain where
  hub : Hub
  running : Bool := true
  stage : StopStage := .up
  /-- `live_conns`. -/
  live : List ℕ := []
  /-- The connections that the accept thread has taken and not yet entered there. -/
  accepted : List ℕ := []
  /-- The thread is at the condition of the loop; else it is in `read_frame`. -/
  atCheck : ℕ → Bool := fun _ => true
  /-- The frames that have arrived and were not read. -/
  inbox : ℕ → List RawFrame := fun _ => []
  /-- The host has closed the connection. -/
  closed : ℕ → Bool := fun _ => false
  /-- The client has ended the connection or broken the protocol, or there was no session. -/
  parted : ℕ → Bool := fun _ => false
  /-- The connections that were there when `stop` was entered. -/
  existing : List ℕ := []
  /-- The topics as they were then. -/
  entry : ℕ → Topic := fun _ => {}
  /-- The subscriptions that have ended since then with an `is_last` chunk. -/
  told : ℕ → List TopicSub := fun _ => []
  /-- Those that have ended without one while the thread of their connection was in its loop: by an
  unsubscribe or a write that failed. -/
  dropped : ℕ → List TopicSub := fun _ => []

namespace Drain

inductive Act where
  /-- The accept thread takes a connection and looks whether the host is running. -/
  | connect (c : ℕ)
  /-- The accept thread enters it into `live_conns` and starts its thread. -/
  | enlist (c : ℕ)
  /-- The handshake has succeeded. -/
  | accept (c : ℕ)
  /-- There was no session. -/
  | refuse (c : ℕ)
  /-- A frame arrives. -/
  | arrive (c : ℕ) (f : RawFrame)
  /-- `while (running.load())`. -/
  | check (c : ℕ)
  /-- A frame is read and handled. -/
  | frame (c : ℕ) (env : Pass)
  /-- `read_frame` fails. -/
  | eof (c : ℕ)
  /-- A thread that has left its loop, a publisher or the heartbeat. -/
  | thread (a : Hub.Act)
  /-- `stop` is entered. -/
  | stop
  /-- A `before_stop` hook runs and returns. -/
  | hook
  /-- The topics are copied. -/
  | snapshot (topics : List ℕ)
  /-- `close_all` on the next topic. -/
  | closeTopic (ok : ℕ → Bool)
  | closeListener
  /-- The next connection is closed. -/
  | closeConn

/-- The subscriptions that end with a step. -/
def newEnds (h h' : Hub) (t : ℕ) : List TopicSub :=
  ((h'.topics t).ended.drop (h.topics t).ended.length).map Prod.fst

/-- A step of the hub. -/
def account (s : Drain) (h : Hub) : Drain :=
  { s with
    hub := h
    told := fun t => s.told t ++ (newEnds s.hub h t).filter TopicSub.saysLast
    dropped := fun t => s.dropped t ++ (newEnds s.hub h t).filter fun sub =>
      !sub.saysLast && !(s.hub.phase sub.conn).out }

/-- The host ends the connection because of its own limits, on the rate of requests or on the number
of keys. -/
def overLimit (cfg : HostConfig) (env : Pass) (st : LoopState) (f : RawFrame) : Bool :=
  decide (f.type = .request) && saturated cfg env st.delayedInARow ||
    decide (f.type = .rekey) && decide (st.conn.tx.epoch ≥ 255)

/-- The connections whose threads are in their loops or on the way there. -/
def current (s : Drain) : List ℕ := (s.live ++ s.accepted).filter fun c => !(s.hub.phase c).out

section

variable (S : Sodium) (cfg : HostConfig) (topicCount hooks : ℕ)

/-- The host with `topicCount` topics and `hooks` hooks before the stop. -/
def step (s : Drain) : Act → Option Drain
  | .connect c =>
    if c ∈ s.live ++ s.accepted then none
    else if s.running = true then some { s with accepted := s.accepted ++ [c] }
    else some { s with closed := Function.update s.closed c true }
  | .enlist c =>
    if c ∈ s.accepted then some { s with live := s.live ++ [c], accepted := s.accepted.erase c }
    else none
  | .accept c =>
    if c ∈ s.live then (s.hub.step S cfg (.accept c)).map fun h => { s with hub := h } else none
  | .refuse c =>
    if c ∈ s.live then
      (s.hub.step S cfg (.refuse c)).map fun h =>
        { s with
          hub := h
          closed := Function.update s.closed c true
          parted := Function.update s.parted c true }
    else none
  | .arrive c f => some { s with inbox := Function.update s.inbox c (s.inbox c ++ [f]) }
  | .check c =>
    if s.hub.phase c = .serving ∧ s.atCheck c = true then
      if s.running = true then some { s with atCheck := Function.update s.atCheck c false }
      else (s.hub.step S cfg (.quit c)).map fun h => { s with hub := h }
    else none
  | .frame c env =>
    match s.inbox c with
    | [] => none
    | f :: rest =>
      if s.atCheck c = false ∧ env.topics.all fun p => p.2 < topicCount then
        (s.hub.step S cfg (.frame c f env)).map fun h =>
          { s.account h with
            inbox := Function.update s.inbox c rest
            atCheck := Function.update s.atCheck c true
            parted :=
              if h.phase c = .left ∧ overLimit cfg env (s.hub.conns c) f = false then
                Function.update s.parted c true
              else s.parted }
      else none
  | .eof c =>
    if s.hub.phase c = .serving ∧ s.atCheck c = false then
      (s.hub.step S cfg (.quit c)).map fun h =>
        { s with
          hub := h
          parted := if s.closed c = true then s.parted else Function.update s.parted c true }
    else none
  | .thread a =>
    match a with
    | .shutdown _ | .detach _ | .publish _ _ _ | .heartbeat _ _ =>
      (s.hub.step S cfg a).map fun h => s.account h
    | .finish c =>
      (s.hub.step S cfg a).map fun h =>
        { s with hub := h, closed := Function.update s.closed c true }
    | _ => none
  | .stop =>
    if s.running = true then
      some { s with
        running := false
        stage := .hooks hooks
        existing := s.current
        entry := s.hub.topics
        told := fun _ => []
        dropped := fun _ => [] }
    else some s -- already stopped
  | .hook =>
    match s.stage with
    | .hooks (n + 1) => some { s with stage := .hooks n }
    | _ => none
  | .snapshot topics =>
    match s.stage with
    | .hooks 0 => some { s with stage := .closing topics }
    | _ => none
  | .closeTopic ok =>
    match s.stage with
    | .closing (t :: topics) =>
      (s.hub.step S cfg (.closeAll t ok)).map fun h =>
        { s.account h with stage := .closing topics }
    | _ => none
  | .closeListener =>
    match s.stage with
    | .closing [] => some { s with stage := .disconnecting s.live }
    | _ => none
  | .closeConn =>
    match s.stage with
    | .disconnecting (c :: conns) =>
      some { s with stage := .disconnecting conns, closed := Function.update s.closed c true }
    | _ => none

abbrev Step : Drain → Act → Drain → Prop := OfFun (step S cfg topicCount hooks)

/-! ### The window -/

/-- The next frame that has arrived is the next thing that the thread handles. -/
def Reads (s : Drain) (c : ℕ) : Prop :=
  s.hub.phase c = .serving ∧ (s.atCheck c = true → s.running = true)

/-- The tickets of subscriptions. -/
def tickets (subs : List TopicSub) : List ((ℕ × UInt64) × ℕ) := subs.map TopicSub.ticket

/-- Every subscription to the topic that the connection had when `stop` was entered was told that it
is over, or was dropped by its client. -/
def AllTold (s : Drain) (c t : ℕ) : Prop :=
  ∀ x : (ℕ × UInt64) × ℕ, x.1.1 = c → (tickets (s.entry t).subs).count x
    ≤ (tickets (s.told t)).count x + (tickets (s.dropped t)).count x

/-- **`before_stop` is a drain window.** While the hooks run, no connection that was there is closed
and every frame that has arrived on it is going to be handled; and when such a connection is closed,
at that time or later, its subscriptions have been told. Excepted are connections that their own
client has ended. -/
structure Window (s : Drain) : Prop where
  none_closed : s.stage.window = true → ∀ c ∈ s.existing, s.closed c = true → s.parted c = true
  served : s.stage.window = true → ∀ c ∈ s.existing, s.inbox c ≠ [] →
    s.parted c = true ∨ s.Reads c
  told : s.running = false → ∀ c ∈ s.existing, s.closed c = true →
    s.parted c = true ∨ ∀ t < topicCount, s.AllTold c t

/-- The window is for this connection: it was there when `stop` was entered, and its client has not
parted. -/
def held (s : Drain) (c : ℕ) : Bool := !s.running && s.existing.contains c && !s.parted c

/-- `stop` has nothing left to tell the connection. -/
def past (s : Drain) (c : ℕ) : Bool :=
  match s.stage with
  | .closing topics => topics.all fun t => ((s.hub.topics t).subsOf c).isEmpty
  | .disconnecting _ => true
  | _ => false

/-- The thread waits for a frame that has not arrived yet. -/
def blocked (s : Drain) (c : ℕ) : Bool :=
  decide (s.hub.phase c = .serving) && !s.atCheck c && (s.inbox c).isEmpty

/-- **The condition.** From the moment in which `stop` is entered until it has told a connection
everything, the thread of the connection does not come to the condition of its loop, and the host
does not end the connection because of its limits. While the hooks run, a frame arrives only if the
thread waits for one and none has arrived before it; when `stop` is entered, at most the frame that
the thread is about to read has arrived. And every topic that has subscribers is exposed when `stop`
copies the topics. -/
def undisturbed (s : Drain) : Act → Bool
  | .check c => !s.held c || s.past c
  | .arrive c _ => !s.held c || !s.stage.window || s.blocked c
  | .frame c env =>
    !s.held c || s.past c ||
      match s.inbox c with
      | [] => true
      | f :: _ => !overLimit cfg env (s.hub.conns c) f
  | .stop => !s.running || s.current.all fun c =>
      (s.inbox c).isEmpty || (decide (s.hub.phase c = .serving) && !s.atCheck c &&
        decide ((s.inbox c).length = 1))
  | .snapshot topics => (List.range topicCount).all fun t =>
      (s.hub.topics t).subs.isEmpty || topics.contains t
  | _ => true

abbrev UndisturbedStep : Drain → Act → Drain → Prop :=
  Guarded (Step S cfg topicCount hooks) fun s a => s.undisturbed cfg topicCount a = true

end

/-! ### Reading on -/

section

variable {S : Sodium} {cfg : HostConfig} {topicCount hooks : ℕ} {s : Drain} {c : ℕ}

/-- A thread in `read_frame` handles the frame that has arrived. -/
theorem step_frame {f : RawFrame} {rest : List RawFrame} {env : Pass} {o : Outcome}
    (hphase : s.hub.phase c = .serving) (hcheck : s.atCheck c = false)
    (hinbox : s.inbox c = f :: rest)
    (henv : (env.topics.all fun p => p.2 < topicCount) = true)
    (hpass : pass S cfg env (s.hub.conns c) f = .ok o) :
    ∃ s', Step S cfg topicCount hooks s (.frame c env) s' ∧ s'.hub = s.hub.handled c o ∧
      s'.inbox c = rest := by
  have hstep : s.hub.step S cfg (.frame c f env) = some (s.hub.handled c o) := by
    simp only [Hub.step, hphase, hpass]
  simp only [Step, OfFun, step, hinbox]
  rw [if_pos ⟨hcheck, henv⟩, hstep]
  exact ⟨_, rfl, rfl, Function.update_self ..⟩

/-- **A frame that has arrived is handled by steps of the thread alone**, if the thread reads. -/
theorem run_of_reads (h : s.Reads c) {f : RawFrame} {rest : List RawFrame} {env : Pass}
    {o : Outcome}
    (hinbox : s.inbox c = f :: rest) (henv : (env.topics.all fun p => p.2 < topicCount) = true)
    (hpass : pass S cfg env (s.hub.conns c) f = .ok o) :
    ∃ acts s', (∀ a ∈ acts, a = .check c ∨ a = .frame c env) ∧
      Run (Step S cfg topicCount hooks) s acts s' ∧ s'.hub = s.hub.handled c o ∧
      s'.inbox c = rest := by
  obtain ⟨hphase, hreads⟩ := h
  cases hcheck : s.atCheck c with
  | false =>
    obtain ⟨s', hstep, hhub, hrest⟩ := step_frame hphase hcheck hinbox henv hpass
    exact ⟨[.frame c env], s', by simp, Run.nil.snoc hstep, hhub, hrest⟩
  | true =>
    let t : Drain := { s with atCheck := Function.update s.atCheck c false }
    have hfirst : Step S cfg topicCount hooks s (.check c) t := by
      simp only [Step, OfFun, step]
      rw [if_pos ⟨hphase, hcheck⟩, if_pos (hreads hcheck)]
    obtain ⟨s', hstep, hhub, hrest⟩ := step_frame (s := t) hphase (Function.update_self ..) hinbox
      henv hpass
    exact ⟨[.check c] ++ [.frame c env], s', by simp, (Run.nil.snoc hfirst).snoc hstep, hhub, hrest⟩

end

end Drain

end Epx
