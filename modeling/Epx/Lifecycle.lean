import Epx.Lib.Transition

/-!
# The calls of a host's life

`run`, `stop`, `request_stop` and `wait_until_stopped` of `src/host.cpp`, called one after the other
by one thread, any number of times. `run` claims the host by setting the flag `running` before it
loads credentials, works out the address, listens, publishes the registry entry and starts its
threads, any of which may throw; nothing clears the flag then. `publish` does not look whether its
file could be opened and renamed, so `run` may return without an entry. `request_stop` sets a flag
that nothing clears.

Between two calls `accept` may fail, which ends the accept thread, and other processes may take the
socket or the entry away. Hooks do not throw.

## Main definitions

* `HostLife`, `HostLife.call` — the host, and what a call does and whether it returns
* `Disturbance` — what may happen to a host between two calls
* `HostLife.Composes` — what a caller expects of a call
* `HostLife.orderly` — the calls after which nothing is left over

## Main results

* `HostLife.Inv.call`
* `lifecycle_composes`
-/

namespace Epx

open Transition

/-- Where `run` throws. -/
inductive RunFailure where
  | loadCredentials
  | address
  | listen
  /-- `publish_registry` cannot prepare the directory. -/
  | publish
  | acceptThread
  | heartbeatThread
  deriving DecidableEq

/-- What may happen to a host that runs. -/
inductive Disturbance where
  /-- `accept` fails, and the accept thread leaves its loop. -/
  | acceptFails
  /-- The path of the socket is unlinked, as another `listen` does. -/
  | socketUnlinked
  /-- The registry entry is removed, or replaced by that of another host. -/
  | entryLost
  deriving DecidableEq

/-- The host as far as these calls see it. -/
structure HostLife where
  running : Bool := false
  stopRequested : Bool := false
  /-- The socket listens, at its path. -/
  listening : Bool := false
  /-- The accept thread is in its loop. -/
  accepting : Bool := false
  /-- The registry has the entry of the host. -/
  registered : Bool := false
  /-- Calls of `transport::listen`. -/
  binds : ℕ := 0
  /-- Teardowns: hooks that have run, and a registry entry that was removed. -/
  teardowns : ℕ := 0
  /-- `run` has returned, and the host has not been stopped since. -/
  up : Bool := false
  /-- `run` has returned. -/
  ran : Bool := false
  /-- `request_stop` or `stop` has been called since. -/
  asked : Bool := false
  deriving DecidableEq

/-- A call, or what happens between two calls. -/
inductive LifeCall where
  /-- It may be about to throw; `published` says whether the entry is in place when `publish`
  returns. -/
  | run (fails : Option RunFailure) (published : Bool)
  | stop
  | requestStop
  | waitUntilStopped
  | disturb (d : Disturbance)
  deriving DecidableEq

/-- How a call ends. -/
inductive LifeOutcome where
  | returned
  | threw
  | blocks
  deriving DecidableEq

namespace HostLife

/-- `Host::run`. -/
def run (s : HostLife) (fails : Option RunFailure) (published : Bool) : HostLife × LifeOutcome :=
  if s.running then ({ s with up := true, ran := true, asked := false }, .returned)
  else
    let s := { s with running := true }
    match fails with
    | some .loadCredentials | some .address => (s, .threw)
    | some .listen => ({ s with binds := s.binds + 1 }, .threw)
    | some .publish => ({ s with binds := s.binds + 1, listening := true }, .threw)
    | some .acceptThread =>
      ({ s with binds := s.binds + 1, listening := true, registered := published }, .threw)
    | some .heartbeatThread =>
      ({ s with
        binds := s.binds + 1, listening := true, registered := published
        accepting := true }, .threw)
    | none =>
      ({ s with
        binds := s.binds + 1, listening := true, registered := published, accepting := true
        up := true, ran := true, asked := false }, .returned)

/-- `Host::stop`. -/
def stop (s : HostLife) : HostLife :=
  if s.running then
    { s with
      running := false, listening := false, accepting := false, registered := false
      teardowns := s.teardowns + 1, up := false }
  else { s with up := false }

/-- The host after a disturbance. -/
def disturb (s : HostLife) : Disturbance → HostLife
  | .acceptFails => { s with accepting := false }
  | .socketUnlinked => { s with listening := false }
  | .entryLost => { s with registered := false }

/-- `stop` waits for an accept thread that does not wake up: the connection that is to wake it is
made to the path of the socket, where there is no socket any more, or another one. -/
def stopHangs (s : HostLife) : Bool := s.running && s.accepting && !s.listening

/-- A disturbance has something to disturb. -/
def disturbable (s : HostLife) : Disturbance → Bool
  | .acceptFails => s.accepting
  | .socketUnlinked => s.listening
  | .entryLost => s.registered

/-- A call by its name. -/
def call (s : HostLife) : LifeCall → HostLife × LifeOutcome
  | .run fails published => s.run fails published
  | .stop =>
    if s.stopHangs then ({ s with running := false, asked := true }, .blocks)
    else ({ s.stop with asked := true }, .returned)
  | .requestStop => ({ s with stopRequested := true, asked := true }, .returned)
  | .waitUntilStopped =>
    if s.running = true ∧ s.stopRequested = false then (s, .blocks)
    else if s.stopHangs then ({ s with running := false }, .blocks)
    else (s.stop, .returned)
  | .disturb d => (s.disturb d, .returned)

/-- The calls of one thread: after one that blocks there is no other. -/
def step (s : HostLife) (c : LifeCall) : Option HostLife :=
  if (s.call c).2 = .blocks then none else some (s.call c).1

/-! ### What a caller expects -/

/-- The host serves, and can be found. -/
def Serving (s : HostLife) : Prop :=
  s.running = true ∧ s.listening = true ∧ s.accepting = true ∧ s.registered = true

/-- The host is stopped as it was: the next `run` binds, and a `stop` tears nothing down. -/
def AsBefore (s s' : HostLife) : Prop :=
  s'.running = false ∧ s'.listening = s.listening ∧ s'.accepting = s.accepting ∧
    s'.registered = s.registered ∧ (s'.run none true).1.binds = s'.binds + 1 ∧
    s'.stop.teardowns = s'.teardowns ∧ s'.stop.registered = s'.registered

/-- A `run` that throws has changed nothing, a host that is up serves, and `wait_until_stopped`
waits until somebody has asked for the stop. -/
structure Composes (s : HostLife) (c : LifeCall) : Prop where
  threw : (s.call c).2 = .threw → AsBefore s (s.call c).1
  serving : (s.call c).1.up = true → (s.call c).1.Serving
  waited : c = .waitUntilStopped → (s.call c).2 = .returned → s.ran = true → s.asked = true

/-- A `run` does not throw and gets its entry into place, and there is no request to stop when it
begins; and a host that runs is not disturbed. -/
def orderly (s : HostLife) : LifeCall → Bool
  | .run fails published => !s.stopRequested && (s.running || fails.isNone && published)
  | .stop | .requestStop | .waitUntilStopped => true
  | .disturb d => !s.disturbable d

/-! ### The invariant -/

/-- The host does nothing that could be disturbed. -/
def Idle (s : HostLife) : Prop := ∀ d, s.disturbable d = false

/-- The flags say what the host does, and a stop that is due has been asked for. -/
structure Inv (s : HostLife) : Prop where
  serving : s.running = true → s.up = true ∧ s.Serving
  stopped : s.running = false → s.up = false ∧ s.Idle
  asked : s.ran = true → s.running = false ∨ s.stopRequested = true → s.asked = true

variable {s s' : HostLife} {c : LifeCall}

theorem Inv.empty : ({} : HostLife).Inv where
  serving h := by cases h
  stopped _ := ⟨rfl, fun d => by cases d <;> rfl⟩
  asked h := by cases h

theorem Inv.serving_of_up (h : s.Inv) (hup : s.up = true) : s.Serving := by
  cases hrunning : s.running with
  | true => exact (h.serving hrunning).2
  | false => exact absurd ((h.stopped hrunning).1.symm.trans hup) (by decide)

/-- A host that serves can be stopped. -/
theorem Inv.stopHangs_eq_false (h : s.Inv) : s.stopHangs = false := by
  cases hrunning : s.running with
  | true =>
    obtain ⟨-, -, hlistening, -⟩ := h.serving hrunning
    rw [stopHangs, hlistening, Bool.not_true, Bool.and_false]
  | false => rw [stopHangs, hrunning, Bool.false_and, Bool.false_and]

theorem Inv.call_stop (h : s.Inv) : s.call .stop = ({ s.stop with asked := true }, .returned) := by
  rw [HostLife.call, h.stopHangs_eq_false, if_neg Bool.false_ne_true]

/-- What can be disturbed is up. -/
theorem Inv.up_of_disturbable (h : s.Inv) {d : Disturbance} (hd : s.disturbable d = true) :
    s.up = true := by
  cases hrunning : s.running with
  | true => exact (h.serving hrunning).1
  | false => exact absurd (((h.stopped hrunning).2 d).symm.trans hd) (by decide)

/-- Where there is nothing to disturb, nothing changes. -/
theorem disturb_eq_self {d : Disturbance} (hd : s.disturbable d = false) : s.disturb d = s := by
  cases d with
  | acceptFails =>
    have haccepting : s.accepting = false := hd
    rw [disturb, ← haccepting]
  | socketUnlinked =>
    have hlistening : s.listening = false := hd
    rw [disturb, ← hlistening]
  | entryLost =>
    have hregistered : s.registered = false := hd
    rw [disturb, ← hregistered]

/-- A host that is disturbed does not serve. -/
theorem not_serving_disturb (d : Disturbance) : ¬ (s.disturb d).Serving := by
  rintro ⟨-, hlistening, haccepting, hregistered⟩
  cases d with
  | acceptFails => cases haccepting
  | socketUnlinked => cases hlistening
  | entryLost => cases hregistered

/-- `run`, when there is no request to stop and nothing fails. -/
theorem Inv.run (h : s.Inv) {fails : Option RunFailure} {published : Bool}
    (hreq : s.stopRequested = false)
    (hfails : s.running = true ∨ fails = none ∧ published = true) :
    (s.run fails published).1.Inv ∧ (s.run fails published).2 = .returned := by
  rw [HostLife.run]
  by_cases hrunning : s.running = true
  · obtain ⟨-, hserving⟩ := h.serving hrunning
    rw [if_pos hrunning]
    refine ⟨⟨fun _ => ⟨rfl, hserving⟩, fun hdown => ?_, fun _ hdue => ?_⟩, rfl⟩
    · exact absurd (hrunning.symm.trans hdown) (by decide)
    · rcases hdue with hdown | hdue
      · exact absurd (hrunning.symm.trans hdown) (by decide)
      · exact absurd (hreq.symm.trans hdue) (by decide)
  · obtain ⟨rfl, rfl⟩ := hfails.resolve_left hrunning
    rw [if_neg hrunning]
    refine ⟨⟨fun _ => ⟨rfl, rfl, rfl, rfl, rfl⟩, fun hdown => ?_, fun _ hdue => ?_⟩, rfl⟩
    · cases hdown
    · rcases hdue with hdown | hdue
      · cases hdown
      · exact absurd (hreq.symm.trans hdue) (by decide)

/-- `stop` leaves nothing of a host for which the flags say what it does. -/
theorem Inv.idle_stop (h : s.Inv) : s.stop.Idle := by
  intro d
  rw [HostLife.stop]
  by_cases hrunning : s.running = true
  · rw [if_pos hrunning]
    cases d <;> rfl
  · have hidle := (h.stopped (Bool.eq_false_iff.mpr hrunning)).2 d
    rw [if_neg hrunning]
    cases d <;> exact hidle

theorem stop_up (s : HostLife) : s.stop.up = false ∧ s.stop.running = false := by
  rw [stop]
  by_cases hrunning : s.running = true
  · rw [if_pos hrunning]
    exact ⟨rfl, rfl⟩
  · rw [if_neg hrunning]
    exact ⟨rfl, Bool.eq_false_iff.mpr hrunning⟩

theorem stop_kept (s : HostLife) :
    s.stop.ran = s.ran ∧ s.stop.asked = s.asked ∧ s.stop.stopRequested = s.stopRequested := by
  rw [stop]
  split <;> exact ⟨rfl, rfl, rfl⟩

/-- A stop that has been asked for, or is not needed. -/
theorem Inv.stop (h : s.Inv) (hasked : s.ran = true → s.asked = true) : s.stop.Inv := by
  obtain ⟨hup, hrunning⟩ := stop_up s
  obtain ⟨hran, hask, -⟩ := stop_kept s
  refine ⟨fun hrun => absurd (hrunning.symm.trans hrun) (by decide), fun _ => ⟨hup, h.idle_stop⟩,
    fun hran' _ => ?_⟩
  rw [hask]
  exact hasked (hran.symm.trans hran')

/-- What is asked of a `run`. -/
theorem orderly_run {fails : Option RunFailure} {published : Bool}
    (hc : s.orderly (.run fails published) = true) :
    s.stopRequested = false ∧ (s.running = true ∨ fails = none ∧ published = true) := by
  obtain ⟨hreq, hfails⟩ := Bool.and_eq_true_iff.mp hc
  exact ⟨by simpa using hreq, by simpa using hfails⟩

/-- `wait_until_stopped` blocks, or there is a reason for the stop. -/
theorem Inv.call_wait_cases (h : s.Inv) :
    s.call .waitUntilStopped = (s, .blocks) ∨
      (s.running = false ∨ s.stopRequested = true) ∧
        s.call .waitUntilStopped = (s.stop, .returned) := by
  rw [HostLife.call, h.stopHangs_eq_false, if_neg Bool.false_ne_true]
  by_cases hwait : s.running = true ∧ s.stopRequested = false
  · rw [if_pos hwait]
    exact Or.inl rfl
  · rw [if_neg hwait]
    refine Or.inr ⟨?_, rfl⟩
    rw [not_and_or, Bool.not_eq_true, Bool.not_eq_false] at hwait
    exact hwait

/-- **What an orderly call leaves**, if it returns. -/
theorem Inv.call (h : s.Inv) (hc : s.orderly c = true) (hstep : s.step c = some s') : s'.Inv := by
  obtain ⟨hreturns, rfl⟩ : ¬ (s.call c).2 = .blocks ∧ (s.call c).1 = s' := by
    rw [step] at hstep
    split at hstep
    · cases hstep
    · next hreturns => exact ⟨hreturns, Option.some.inj hstep⟩
  cases c with
  | run fails published =>
    obtain ⟨hreq, hfails⟩ := orderly_run hc
    exact (h.run hreq hfails).1
  | stop =>
    obtain ⟨hup, hrunning⟩ := stop_up s
    rw [h.call_stop]
    exact ⟨fun hrun => absurd (hrunning.symm.trans hrun) (by decide),
      fun _ => ⟨hup, h.idle_stop⟩, fun _ _ => rfl⟩
  | requestStop => exact ⟨h.serving, h.stopped, fun _ _ => rfl⟩
  | waitUntilStopped =>
    obtain ⟨hdue, heq⟩ :=
      h.call_wait_cases.resolve_left fun heq => hreturns (congrArg Prod.snd heq)
    rw [heq]
    exact h.stop fun hran => h.asked hran hdue
  | disturb d =>
    have hd : s.disturbable d = false := by simpa [orderly] using hc
    rw [HostLife.call, disturb_eq_self hd]
    exact h

/-- **A caller gets what it expects** of an orderly call. -/
theorem Inv.composes (h : s.Inv) (hc : s.orderly c = true) : s.Composes c := by
  cases c with
  | run fails published =>
    obtain ⟨hreq, hfails⟩ := orderly_run hc
    obtain ⟨hinv, hreturned⟩ := h.run hreq hfails
    refine ⟨fun hthrew => ?_, hinv.serving_of_up, nofun⟩
    exact absurd (hreturned.symm.trans hthrew) (by decide)
  | stop =>
    refine ⟨fun hthrew => ?_, fun hup => ?_, nofun⟩
    · rw [h.call_stop] at hthrew
      cases hthrew
    · rw [h.call_stop] at hup
      exact absurd ((stop_up s).1.symm.trans hup) (by decide)
  | requestStop => exact ⟨nofun, h.serving_of_up, nofun⟩
  | disturb d =>
    have hd : s.disturbable d = false := by simpa [orderly] using hc
    refine ⟨nofun, fun hup => ?_, nofun⟩
    rw [HostLife.call, disturb_eq_self hd] at hup ⊢
    exact h.serving_of_up hup
  | waitUntilStopped =>
    rcases h.call_wait_cases with heq | ⟨hdue, heq⟩
    · refine ⟨fun hthrew => ?_, fun hup => ?_, fun _ hreturned => ?_⟩
      · rw [heq] at hthrew
        cases hthrew
      · rw [heq] at hup ⊢
        exact h.serving_of_up hup
      · rw [heq] at hreturned
        cases hreturned
    · refine ⟨fun hthrew => ?_, fun hup => ?_, fun _ _ hran => h.asked hran hdue⟩
      · rw [heq] at hthrew
        cases hthrew
      · rw [heq] at hup
        exact absurd ((stop_up s).1.symm.trans hup) (by decide)

/-- A request to stop that is left over ends a wait that nobody has asked to end. -/
theorem not_composes_wait (hstop : s.stopHangs = false) (hreq : s.stopRequested = true)
    (hran : s.ran = true) (hasked : s.asked = false) : ¬ s.Composes .waitUntilStopped := by
  intro hcomposes
  have hreturned : (s.call .waitUntilStopped).2 = .returned := by
    rw [HostLife.call, if_neg fun hblocks => absurd (hreq.symm.trans hblocks.2) (by decide), hstop,
      if_neg Bool.false_ne_true]
  exact absurd (hasked.symm.trans (hcomposes.waited rfl hreturned hran)) (by decide)

/-- **A call that is not orderly** is a `run` that throws and leaves the host claimed, or one after
which the host is up and does not serve, or one after which `wait_until_stopped` returns although
nobody has asked for it. -/
theorem Inv.not_composes (h : s.Inv) (hc : s.orderly c = false) :
    (s.call c).2 = .threw ∧ ¬ AsBefore s (s.call c).1 ∨
      (s.call c).1.up = true ∧ ¬ (s.call c).1.Serving ∨
      (s.call c).2 = .returned ∧ ¬ (s.call c).1.Composes .waitUntilStopped := by
  cases c with
  | stop | requestStop | waitUntilStopped => cases hc
  | disturb d =>
    have hd : s.disturbable d = true := by simpa [orderly] using hc
    refine Or.inr (Or.inl ⟨?_, not_serving_disturb d⟩)
    rw [HostLife.call]
    cases d <;> exact h.up_of_disturbable hd
  | run fails published =>
    by_cases hrunning : s.running = true
    · -- `run` returns at once, and so does the wait
      have hreq : s.stopRequested = true := by
        rw [orderly, hrunning] at hc
        simpa using hc
      rw [HostLife.call, HostLife.run, if_pos hrunning]
      exact Or.inr (Or.inr ⟨rfl, not_composes_wait h.stopHangs_eq_false hreq rfl rfl⟩)
    · rw [HostLife.call, HostLife.run, if_neg hrunning]
      cases fails with
      | some f =>
        refine Or.inl ⟨by cases f <;> rfl, fun hbefore => ?_⟩
        have hstopped := hbefore.1
        cases f <;> cases hstopped
      | none =>
        cases published with
        | false =>
          refine Or.inr (Or.inl ⟨rfl, fun hserving => ?_⟩)
          have hregistered := hserving.2.2.2
          cases hregistered
        | true =>
          have hreq : s.stopRequested = true := by
            rw [orderly, Bool.eq_false_iff.mpr hrunning] at hc
            simpa using hc
          exact Or.inr (Or.inr ⟨rfl, not_composes_wait rfl hreq rfl rfl⟩)

theorem inv_of_run {calls : List LifeCall}
    (h : Run (Guarded (OfFun step) fun s c => orderly s c = true) {} calls s) : s.Inv :=
  h.preserves Inv.empty fun _ _ _ hs hstep => hs.call hstep.2 hstep.1

end HostLife

open HostLife in
/-- **Lifecycle calls compose as long as they are orderly**: as long as no `run` throws or fails to
publish, none begins with a request to stop that is left over, and the host is not disturbed while
it runs. Then it serves whenever it is up, and every orderly call does what the caller expects; a
call that is not orderly does not, or the host is up without serving, or the wait after the call
does not do what the caller expects. -/
theorem lifecycle_composes (calls : List LifeCall) (s : HostLife)
    (h : Run (Guarded (OfFun step) fun s c => orderly s c = true) {} calls s) :
    (s.up = true → s.Serving) ∧ (∀ c, s.orderly c = true → s.Composes c) ∧
      ∀ c, s.orderly c = false → (s.call c).2 = .threw ∧ ¬ AsBefore s (s.call c).1 ∨
        (s.call c).1.up = true ∧ ¬ (s.call c).1.Serving ∨
        (s.call c).2 = .returned ∧ ¬ (s.call c).1.Composes .waitUntilStopped := by
  have hinv := inv_of_run h
  exact ⟨hinv.serving_of_up, fun c hc => hinv.composes hc, fun c hc => hinv.not_composes hc⟩

/-- The host is started twice, and the second time it is asked to stop. -/
theorem lifecycle_composes_restarted :
    ∃ s, Run (Guarded (OfFun HostLife.step) fun s c => HostLife.orderly s c = true) {}
        [.run none true, .stop, .run none true, .requestStop, .waitUntilStopped] s ∧
      s.Composes .waitUntilStopped := by
  have hexec : (exec (guardFun HostLife.step HostLife.orderly) {}
      [.run none true, .stop, .run none true, .requestStop, .waitUntilStopped]).isSome := by decide
  have hrun := run_of_exec_guardFun (Option.some_get hexec).symm
  exact ⟨_, hrun, (lifecycle_composes _ _ hrun).2.1 _ rfl⟩

/-- A `run` that cannot listen: the host counts as running, the next `run` returns without having
tried, and `stop` tears down what was never there. A request to stop that comes before a `run` ends
the wait after it. And a `run` whose entry cannot be written returns. -/
theorem failed_run_claims_host :
    let failed := (HostLife.call {} (.run (some .listen) true)).1
    let requested := (HostLife.call {} .requestStop).1
    let restarted := (requested.call (.run none true)).1
    (HostLife.call {} (.run (some .listen) true)).2 = .threw ∧ failed.running = true ∧
      failed.call (.run none true) = ({ failed with up := true, ran := true }, .returned) ∧
      ¬ (failed.call (.run none true)).1.Serving ∧ failed.stop.teardowns = 1 ∧
      ¬ HostLife.Composes {} (.run (some .listen) true) ∧
      (restarted.call .waitUntilStopped).2 = .returned ∧
      ¬ restarted.Composes .waitUntilStopped ∧
      (HostLife.call {} (.run none false)).2 = .returned ∧
      ¬ HostLife.Composes {} (.run none false) := by
  intro failed requested restarted
  refine ⟨rfl, rfl, rfl, fun hserving => ?_, rfl, fun hcomposes => ?_, rfl, fun hcomposes => ?_,
    rfl, fun hcomposes => ?_⟩
  · exact absurd hserving.2.1 (by decide)
  · exact absurd (hcomposes.threw rfl).1 (by decide)
  · exact absurd (hcomposes.waited rfl rfl rfl) (by decide)
  · exact absurd (hcomposes.serving rfl).2.2.2 (by decide)

end Epx
