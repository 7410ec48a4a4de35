import Epx.Lib.Transition

/-!
# Stopping a host

`stop`, `wait_until_stopped`, `request_stop` and `stopped` of `src/host.cpp`. One atomic flag says
that the host runs, decides which call tears it down, and is what `stopped` answers from. The call
that clears the flag runs the `before_stop` hooks, closes the feeds, the listener and the
connections, joins the threads, removes the registry entry and runs the `after_stop` hooks; every
other call finds the flag cleared and returns at once, and `stopped` says so at once.

Any number of threads call these at any time. Hooks are registered while the host does not run, as
the header asks.

## Main definitions

* `Shutdown`, `Shutdown.step` — the machine
* `Teardown.Complete` — everything was done once and in order
* `Shutdown.Truthful` — whoever was told that the host has stopped was told so afterwards
* `Shutdown.alone` — nobody reads the flag while a teardown is under way

## Main results

* `Shutdown.Inv.step`
* `shutdown_completes_first`
* `second_stop_returns_early`
-/

namespace Epx

open Transition

/-- What the teardown consists of. Hooks are numbered. -/
inductive TeardownEvent where
  | beforeHook (k : ℕ)
  /-- `close_all` of every topic. -/
  | closeTopics
  | joinHeartbeat
  | closeListener
  | closeConns
  | joinAccept
  | joinConns
  /-- `registry::unpublish`. -/
  | unpublish
  | afterHook (k : ℕ)
  deriving DecidableEq

/-- A hook, which is the application's code and may throw. -/
def TeardownEvent.isHook : TeardownEvent → Bool
  | .beforeHook _ | .afterHook _ => true
  | _ => false

/-- What `stop` does after the `before_stop` hooks and before the `after_stop` hooks. -/
def closings : List TeardownEvent :=
  [.closeTopics, .joinHeartbeat, .closeListener, .closeConns, .joinAccept, .joinConns, .unpublish]

/-- One cycle of `run` and `stop`: the hooks that were registered for it, and what has been done. -/
structure Teardown where
  beforeHooks : List ℕ := []
  afterHooks : List ℕ := []
  log : List TeardownEvent := []
  deriving DecidableEq

namespace Teardown

/-- What `stop` does, in order. -/
def plan (t : Teardown) : List TeardownEvent :=
  t.beforeHooks.map .beforeHook ++ closings ++ t.afterHooks.map .afterHook

/-- **Every hook has run once, in the order of registration**, the `before_stop` hooks before
anything was closed and the `after_stop` hooks after the registry entry was removed. -/
def Complete (t : Teardown) : Prop := t.log = t.plan

instance (t : Teardown) : Decidable t.Complete := inferInstanceAs (Decidable (_ = _))

end Teardown

/-- Where a call of `stop` or `wait_until_stopped` is. -/
inductive StopCall where
  | idle
  /-- In the loop of `wait_until_stopped`. -/
  | waiting
  /-- At the exchange. -/
  | entering
  /-- It has cleared the flag and not copied the `before_stop` hooks yet. -/
  | won
  /-- What is left to do before the `after_stop` hooks are copied. -/
  | tearing (todo : List TeardownEvent)
  /-- The `after_stop` hooks that are left. -/
  | finishing (todo : List TeardownEvent)
  deriving DecidableEq

/-- The call tears the host down. -/
def StopCall.Tears : StopCall → Prop
  | .won | .tearing _ | .finishing _ => True
  | _ => False

structure Shutdown where
  running : Bool := false
  stopRequested : Bool := false
  beforeHooks : List ℕ := []
  afterHooks : List ℕ := []
  calls : ℕ → StopCall := fun _ => .idle
  /-- A `run` has succeeded. -/
  started : Bool := false
  /-- The current cycle, and whether its teardown is not begun, under way or given up. -/
  cycle : Teardown := {}
  due : Bool := false
  /-- The cycles at the end of which somebody was told that the host has stopped: by a return from
  `stop` or `wait_until_stopped`, or by `stopped`. -/
  told : List Teardown := []

namespace Shutdown

inductive Act where
  | registerBefore (k : ℕ)
  | registerAfter (k : ℕ)
  /-- `run`, which succeeds. -/
  | run
  | requestStop
  /-- `stop`, called as number `j`; the destructor does the same. -/
  | stop (j : ℕ)
  | waitUntilStopped (j : ℕ)
  /-- `wait_until_stopped` evaluates its loop condition. -/
  | poll (j : ℕ)
  /-- `running.exchange(false)`. -/
  | exchange (j : ℕ)
  | copyBefore (j : ℕ)
  /-- The next thing of the teardown. -/
  | work (j : ℕ)
  /-- A hook throws, and the exception leaves `stop`. -/
  | hookThrows (j : ℕ)
  | copyAfter (j : ℕ)
  /-- The call that tore the host down returns. -/
  | finish (j : ℕ)
  /-- `stopped`. -/
  | stopped
  deriving DecidableEq

def move (s : Shutdown) (j : ℕ) (c : StopCall) : Shutdown :=
  { s with calls := Function.update s.calls j c }

/-- Somebody is told that the host has stopped; before the first `run` that says nothing. -/
def tell (s : Shutdown) : Shutdown :=
  if s.started = true then { s with told := s.told ++ [s.cycle] } else s

def log (s : Shutdown) (e : TeardownEvent) : Shutdown :=
  { s with cycle := { s.cycle with log := s.cycle.log ++ [e] } }

def step (s : Shutdown) : Act → Option Shutdown
  | .registerBefore k =>
    if s.running = false ∧ s.due = false then some { s with beforeHooks := s.beforeHooks ++ [k] }
    else none
  | .registerAfter k =>
    if s.running = false ∧ s.due = false then some { s with afterHooks := s.afterHooks ++ [k] }
    else none
  | .run =>
    if s.running = true then some s
    else
      some { s with
        running := true, started := true, due := true
        cycle := { beforeHooks := s.beforeHooks, afterHooks := s.afterHooks } }
  | .requestStop => some { s with stopRequested := true }
  | .stop j => if s.calls j = .idle then some (s.move j .entering) else none
  | .waitUntilStopped j => if s.calls j = .idle then some (s.move j .waiting) else none
  | .poll j =>
    if s.calls j = .waiting then
      some (if s.running = true ∧ s.stopRequested = false then s else s.move j .entering)
    else none
  | .exchange j =>
    if s.calls j = .entering then
      some (if s.running = true then { s.move j .won with running := false }
        else (s.move j .idle).tell)
    else none
  | .copyBefore j =>
    if s.calls j = .won then
      some (s.move j (.tearing (s.beforeHooks.map .beforeHook ++ closings)))
    else none
  | .work j =>
    match s.calls j with
    | .tearing (e :: todo) => some ((s.move j (.tearing todo)).log e)
    | .finishing (e :: todo) => some ((s.move j (.finishing todo)).log e)
    | _ => none
  | .hookThrows j =>
    match s.calls j with
    | .tearing (e :: _) | .finishing (e :: _) =>
      if e.isHook = true then some (s.move j .idle) else none
    | _ => none
  | .copyAfter j =>
    if s.calls j = .tearing [] then
      some (s.move j (.finishing (s.afterHooks.map .afterHook)))
    else none
  | .finish j =>
    if s.calls j = .finishing [] then some ({ s.move j .idle with due := false }).tell else none
  | .stopped => some (if s.running = true then s else s.tell)

abbrev Step : Shutdown → Act → Shutdown → Prop := OfFun step

/-- A teardown is under way, or was given up. -/
def underWay (s : Shutdown) : Bool := s.due && !s.running

/-- Nobody but the call that tears the host down reads the flag while a teardown is under way, and
no hook throws. -/
def alone (s : Shutdown) : Act → Bool
  | .run | .exchange _ | .stopped => !s.underWay
  | .hookThrows _ => false
  | _ => true

abbrev AloneStep : Shutdown → Act → Shutdown → Prop := Guarded Step fun s a => alone s a = true

/-! ### The invariant -/

/-- How far the call is that tears the host down. -/
def Progress (s : Shutdown) : StopCall → Prop
  | .won => s.cycle.log = []
  | .tearing todo => s.cycle.log ++ todo = s.cycle.beforeHooks.map .beforeHook ++ closings
  | .finishing todo => s.cycle.log ++ todo = s.cycle.plan
  | _ => False

/-- One call tears the host down. -/
def OneTears (s : Shutdown) : Prop :=
  ∃ j, s.Progress (s.calls j) ∧ ∀ i, (s.calls i).Tears → i = j

structure Inv (s : Shutdown) : Prop where
  told : ∀ t ∈ s.told, t.Complete
  begun : s.due = true → s.started = true
  hooks : s.due = true → s.cycle.beforeHooks = s.beforeHooks ∧ s.cycle.afterHooks = s.afterHooks
  /-- While the host runs, nothing was done yet. -/
  running : s.running = true → s.due = true ∧ s.cycle.log = [] ∧ ∀ i, ¬ (s.calls i).Tears
  /-- Nothing is under way: the last teardown is complete. -/
  settled :
    s.due = false → (s.started = true → s.cycle.Complete) ∧ (s.started = false → s.cycle.log = []) ∧
    ∀ i, ¬ (s.calls i).Tears
  tearing : s.underWay = true → s.OneTears

theorem inv_start : Inv {} where
  told _ h := absurd h List.not_mem_nil
  begun h := by cases h
  hooks h := by cases h
  running h := by cases h
  settled _ := ⟨nofun, fun _ => rfl, fun _ h => h⟩
  tearing h := by cases h

section

variable {s s' : Shutdown} {a : Act} {j : ℕ} {c : StopCall}

theorem move_self (c : StopCall) : (s.move j c).calls j = c := Function.update_self ..

theorem move_of_ne {i : ℕ} (hne : i ≠ j) (c : StopCall) : (s.move j c).calls i = s.calls i :=
  Function.update_of_ne hne ..

theorem Progress.tears (h : s.Progress c) : c.Tears := by
  cases c with
  | won | tearing _ | finishing _ => trivial
  | idle | waiting | entering => exact h.elim

/-- A call that does not tear the host down goes on. -/
theorem Inv.other (h : s.Inv) (hold : ¬ (s.calls j).Tears) (hnew : ¬ c.Tears) :
    (s.move j c).Inv := by
  have htears : ∀ i, ((s.move j c).calls i).Tears → (s.calls i).Tears ∧ i ≠ j := by
    intro i hi
    by_cases hij : i = j
    · rw [hij, move_self] at hi
      exact absurd hi hnew
    · rw [move_of_ne hij] at hi
      exact ⟨hi, hij⟩
  refine ⟨h.told, h.begun, h.hooks, fun hrunning => ?_, fun hdue => ?_, fun hway => ?_⟩
  · obtain ⟨hdue, hlog, hnone⟩ := h.running hrunning
    exact ⟨hdue, hlog, fun i hi => hnone i (htears i hi).1⟩
  · obtain ⟨hcomplete, hfresh, hnone⟩ := h.settled hdue
    exact ⟨hcomplete, hfresh, fun i hi => hnone i (htears i hi).1⟩
  · obtain ⟨k, hprogress, hone⟩ := h.tearing hway
    have hne : k ≠ j := by
      rintro rfl
      exact hold hprogress.tears
    refine ⟨k, ?_, fun i hi => hone i (htears i hi).1⟩
    rw [move_of_ne hne]
    exact hprogress

/-- A call that tears the host down is the one, and is where the log says. -/
theorem Inv.owner (h : s.Inv) (ht : (s.calls j).Tears) :
    (s.due = true ∧ s.running = false) ∧ s.Progress (s.calls j) ∧
      ∀ i, (s.calls i).Tears → i = j := by
  have hrunning : s.running = false := by
    rw [← Bool.not_eq_true]
    exact fun hrunning => (h.running hrunning).2.2 j ht
  have hdue : s.due = true := by
    rw [← Bool.not_eq_false]
    exact fun hdue => (h.settled hdue).2.2 j ht
  have hway : s.underWay = true := by
    rw [underWay, hdue, hrunning]
    rfl
  obtain ⟨k, hprogress, hone⟩ := h.tearing hway
  obtain rfl := hone j ht
  exact ⟨⟨hdue, hrunning⟩, hprogress, hone⟩

/-- The call that tears the host down goes on with it. -/
theorem Inv.advance {c' : StopCall} (h : s.Inv) (hj : s.calls j = c) (ht : c.Tears)
    {l : List TeardownEvent} (hnext : s.due = true → s.Progress c →
      Progress { s with cycle := { s.cycle with log := l } } c') :
    Inv { s.move j c' with cycle := { s.cycle with log := l } } := by
  subst hj
  obtain ⟨⟨hdue, hrunning⟩, hprogress, hone⟩ := h.owner ht
  refine ⟨h.told, h.begun, h.hooks, fun hr => ?_, fun hd => ?_, fun _ => ⟨j, ?_, fun i hi => ?_⟩⟩
  · exact absurd (hrunning.symm.trans hr) (by decide)
  · exact absurd (hdue.symm.trans hd) (by decide)
  · change Progress _ ((s.move j c').calls j)
    rw [move_self]
    exact hnext hdue hprogress
  · by_cases hij : i = j
    · exact hij
    · have hi' : ((s.move j c').calls i).Tears := hi
      rw [move_of_ne hij] at hi'
      exact hone i hi'

/-- A call clears the flag. -/
theorem Inv.win (h : s.Inv) (hrunning : s.running = true) :
    Inv { s.move j .won with running := false } := by
  obtain ⟨hdue, hlog, hnone⟩ := h.running hrunning
  refine ⟨h.told, h.begun, h.hooks, nofun, fun hd => absurd (hdue.symm.trans hd) (by decide),
    fun _ => ⟨j, ?_, fun i hi => ?_⟩⟩
  · change Progress _ ((s.move j .won).calls j)
    rw [move_self]
    exact hlog
  · by_contra hij
    have hi' : ((s.move j .won).calls i).Tears := hi
    rw [move_of_ne hij] at hi'
    exact hnone i hi'

/-- The call that tears the host down has done everything. -/
theorem Inv.finish (h : s.Inv) (hj : s.calls j = .finishing []) :
    Inv { s.move j .idle with due := false } := by
  have ht : (s.calls j).Tears := by
    rw [hj]
    trivial
  obtain ⟨⟨hdue, hrunning⟩, hprogress, hone⟩ := h.owner ht
  rw [hj] at hprogress
  have hcomplete : s.cycle.Complete := (List.append_nil _).symm.trans hprogress
  have hnone : ∀ i, ¬ ((s.move j .idle).calls i).Tears := by
    intro i hi
    by_cases hij : i = j
    · rw [hij, move_self] at hi
      exact hi
    · rw [move_of_ne hij] at hi
      exact hij (hone i hi)
  refine ⟨h.told, nofun, nofun, fun hr => absurd (hrunning.symm.trans hr) (by decide), fun _ => ?_,
    nofun⟩
  exact ⟨fun _ => hcomplete, fun hs => absurd ((h.begun hdue).symm.trans hs) (by decide), hnone⟩

/-- Somebody is told that the host has stopped, when no teardown is under way. -/
theorem Inv.tell (h : s.Inv) (hdue : s.due = false) : s.tell.Inv := by
  by_cases hstarted : s.started = true
  · rw [Shutdown.tell, if_pos hstarted]
    refine ⟨fun t ht => ?_, h.begun, h.hooks, h.running, h.settled, h.tearing⟩
    rcases List.mem_append.mp ht with ht | ht
    · exact h.told t ht
    · rw [List.mem_singleton.mp ht]
      exact (h.settled hdue).1 hstarted
  · rw [Shutdown.tell, if_neg hstarted]
    exact h

/-- **A step in which nobody else reads the flag keeps the teardown in order.** -/
theorem Inv.step (h : s.Inv) (hstep : s.AloneStep a s') : s'.Inv := by
  obtain ⟨hstep, hguard⟩ := hstep
  have hstep : s.step a = some s' := hstep
  cases a with
  | registerBefore k | registerAfter k =>
    obtain ⟨⟨hrunning, hdue⟩, heq⟩ := Option.ite_none_right_eq_some.mp hstep
    cases heq
    exact ⟨h.told, h.begun, fun hd => absurd (hdue.symm.trans hd) (by decide), h.running, h.settled,
      h.tearing⟩
  | run =>
    simp only [Shutdown.step] at hstep
    split at hstep
    · cases hstep
      exact h
    · next hrunning =>
      cases hstep
      have hdue : s.due = false := by
        simpa [alone, underWay, hrunning] using hguard
      obtain ⟨-, -, hnone⟩ := h.settled hdue
      exact ⟨h.told, fun _ => rfl, fun _ => ⟨rfl, rfl⟩, fun _ => ⟨rfl, rfl, hnone⟩, nofun, nofun⟩
  | requestStop =>
    cases hstep
    exact ⟨h.told, h.begun, h.hooks, h.running, h.settled, h.tearing⟩
  | stop j | waitUntilStopped j =>
    obtain ⟨hj, heq⟩ := Option.ite_none_right_eq_some.mp hstep
    cases heq
    exact h.other (by rw [hj]; exact fun ht => ht) (fun ht => ht)
  | poll j =>
    obtain ⟨hj, heq⟩ := Option.ite_none_right_eq_some.mp hstep
    cases heq
    split
    · exact h
    · exact h.other (by rw [hj]; exact fun ht => ht) (fun ht => ht)
  | exchange j =>
    obtain ⟨hj, heq⟩ := Option.ite_none_right_eq_some.mp hstep
    cases heq
    have hold : ¬ (s.calls j).Tears := by
      rw [hj]
      exact fun ht => ht
    by_cases hrunning : s.running = true
    · rw [if_pos hrunning]
      exact h.win hrunning
    · rw [if_neg hrunning]
      have hdue : s.due = false := by
        simpa [alone, underWay, hrunning] using hguard
      exact (h.other hold (c := .idle) fun ht => ht).tell hdue
  | copyBefore j =>
    obtain ⟨hj, heq⟩ := Option.ite_none_right_eq_some.mp hstep
    cases heq
    refine h.advance hj trivial (l := s.cycle.log) fun hdue hprogress => ?_
    change s.cycle.log ++ _ = s.cycle.beforeHooks.map .beforeHook ++ closings
    rw [show s.cycle.log = [] from hprogress, (h.hooks hdue).1]
    rfl
  | work j =>
    simp only [Shutdown.step] at hstep
    split at hstep
    -- what was next to do stands at the end of the log instead
    · next e todo hj =>
      cases hstep
      exact h.advance hj trivial fun _ hprogress => (List.append_assoc ..).trans hprogress
    · next e todo hj =>
      cases hstep
      exact h.advance hj trivial fun _ hprogress => (List.append_assoc ..).trans hprogress
    · cases hstep
  | hookThrows j => cases hguard
  | copyAfter j =>
    obtain ⟨hj, heq⟩ := Option.ite_none_right_eq_some.mp hstep
    cases heq
    refine h.advance hj trivial (l := s.cycle.log) fun hdue hprogress => ?_
    change s.cycle.log ++ _ = s.cycle.plan
    have hlog : s.cycle.log = s.cycle.beforeHooks.map .beforeHook ++ closings :=
      (List.append_nil _).symm.trans hprogress
    rw [hlog, ← (h.hooks hdue).2]
    rfl
  | finish j =>
    obtain ⟨hj, heq⟩ := Option.ite_none_right_eq_some.mp hstep
    cases heq
    exact (h.finish hj).tell rfl
  | stopped =>
    simp only [Shutdown.step] at hstep
    cases hstep
    split
    · exact h
    · next hrunning =>
      have hdue : s.due = false := by
        simpa [alone, underWay, hrunning] using hguard
      exact h.tell hdue

end

end Shutdown

open Shutdown

namespace TwoCalls

/-- A host with a hook of each kind runs. -/
def opening : List Act := [.registerBefore 0, .registerAfter 1, .run]

end TwoCalls

open TwoCalls

end Epx
