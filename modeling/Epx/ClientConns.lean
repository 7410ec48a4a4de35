import Mathlib.Data.List.AList
import Epx.Lib.Bytes
import Epx.Lib.Transition

/-!
# The connections of a client

`Client::Impl::conns` of `src/client.cpp`: `get_or_connect`, `close_connection`, `~Client`, and the
reader threads. A connection is created with a running reader thread. A thread that was started has
to be joined before its `Connection` is released, or the process is terminated; `close_connection`
is the one place that joins.

Any number of calls are in progress at once, and each takes `conns_mutex` for one step at a time, so
a call is a program counter here (`Call`). What decides whether a connection attempt succeeds, and
when a reader leaves its loop, is left open. As the language requires of an object, the destructor
starts when no call on the client is in progress, and none starts after that; streams and
subscriptions may still hold their connection.

The callbacks of subscriptions run on the reader threads and may call the client too. A call of
`close_connection` knows the reader thread it runs on: such a thread does not return meanwhile, and
a join of it by itself, or by a thread it is joining, throws instead of waiting.

`conns[target_service] = conn` overwrites. When the entry it replaces is there (its connection has
died, or another call connected meanwhile), nobody joins the replaced reader any more. Nor does
anybody after a join that has thrown. In every run without either the reader threads are owned
(`connections_owned`), and `replaced_connection_leaks` shows a run for each.

## Main definitions

* `ClientImpl`, `ClientImpl.step`
* `ClientImpl.Owned`, `ClientImpl.Ownership` — the property
* `ClientImpl.joinFails` — the joins that throw
* `ClientImpl.Orderly` — an insertion finds no entry under its key, and no join is going to throw

## Main results

* `ClientImpl.Inv.step`
* `connections_owned`
-/

namespace Epx

open Codec Transition

/-- `std::thread reader_thread`. -/
inductive ReaderThread where
  | running
  /-- `reader_loop` has returned; the thread is still joinable. -/
  | returned
  | joined
  deriving DecidableEq

/-- What this module needs of a `Connection`. -/
structure ConnThread where
  alive : Bool := true
  reader : ReaderThread := .running
  /-- The last `shared_ptr` to it is gone. -/
  released : Bool := false
  deriving DecidableEq

/-- Where a call on the client is, or the stream it returned. -/
inductive Call where
  /-- `get_or_connect` after it found no live connection. -/
  | connecting (target : Bytes)
  /-- `get_or_connect` after it started the reader thread. -/
  | created (target : Bytes) (id : ℕ)
  /-- The caller, or the stream or subscription it was given, has the connection. -/
  | holding (id : ℕ)
  /-- `close_connection` after it took the connection out of `conns`, called by a callback on the
  reader thread `caller` or by a thread of the application. -/
  | closing (id : ℕ) (caller : Option ℕ)
  | done
  deriving DecidableEq

/-- Where `~Client` is. -/
inductive Destructor where
  | notStarted
  /-- It has these targets left to close. -/
  | closing (targets : List Bytes)
  /-- It is inside `close_connection` for one of them. -/
  | joining (id : ℕ) (targets : List Bytes)
  | finished
  deriving DecidableEq

/-- `Client::Impl`: `conns`, all connections ever created, and the calls. -/
structure ClientImpl where
  conns : AList fun _ : Bytes => ℕ := ∅
  threads : List ConnThread := []
  calls : List Call := []
  destructor : Destructor := .notStarted
  /-- The reader thread on which `~Client` runs, when a callback has destroyed the client. -/
  destroyer : Option ℕ := none
  /-- `std::terminate` was called. -/
  terminated : Bool := false

/-- The connection that a call keeps referenced. -/
def Call.holds : Call → Option ℕ
  | .created _ id | .holding id | .closing id _ => some id
  | .connecting _ | .done => none

/-- The reader thread that is inside `close_connection`. -/
def Call.caller : Call → Option ℕ
  | .closing _ caller => caller
  | .connecting _ | .created _ _ | .holding _ | .done => none

/-- The call is inside `get_or_connect` or `close_connection`. -/
def Call.active : Call → Bool
  | .connecting _ | .created _ _ | .closing _ _ => true
  | .holding _ | .done => false

/-- The call has just created the connection, or is closing it. -/
def Call.Owns (k : Call) (id : ℕ) : Prop :=
  (∃ target, k = .created target id) ∨ ∃ caller, k = .closing id caller

def Destructor.holds : Destructor → Option ℕ
  | .joining id _ => some id
  | .notStarted | .closing _ | .finished => none

namespace ClientImpl

/-- `it != conns.end() && it->second->alive.load()`. -/
def live (s : ClientImpl) (target : Bytes) : Option ℕ :=
  (s.conns.lookup target).filter fun id =>
    match s.threads[id]? with
    | some c => c.alive
    | none => false

/-- `conn->alive.store(false)`. -/
def kill (threads : List ConnThread) (id : ℕ) : List ConnThread :=
  threads.modify id fun c => { c with alive := false }

/-- Some `shared_ptr` to the connection exists: in `conns`, in a call, or in its reader thread. -/
def Referenced (s : ClientImpl) (id : ℕ) (c : ConnThread) : Prop :=
  (∃ e ∈ s.conns.entries, e.2 = id) ∨ (∃ k ∈ s.calls, k.holds = some id) ∨
    s.destructor.holds = some id ∨ c.reader = .running

instance (s : ClientImpl) (id : ℕ) (c : ConnThread) : Decidable (s.Referenced id c) :=
  inferInstanceAs (Decidable (_ ∨ _ ∨ _ ∨ _))

/-- A callback on this reader thread is inside `close_connection` or `~Client`. -/
def busy (s : ClientImpl) (r : ℕ) : Bool :=
  s.calls.any (fun k => k.caller == some r) ||
    (s.destroyer == some r && s.destructor ≠ .finished)

/-- A thread of the application may make a call at any time, a reader thread from a callback. -/
def free (s : ClientImpl) : Option ℕ → Bool
  | none => true
  | some r =>
    match s.threads[r]? with
    | some c => c.reader = .running && !s.busy r
    | none => false

/-- `reader_thread.join()` on this thread throws: it is the reader itself, or the reader is joining
it. Of two threads about to join each other either may be the one that throws. -/
def joinFails (s : ClientImpl) (id : ℕ) : Option ℕ → Bool
  | none => false
  | some r => r = id ∨ .closing r (some id) ∈ s.calls

inductive Act where
  /-- `get`, `send`, `get_stream`, `open_stream` or `subscribe` looks for a live connection. -/
  | call (target : Bytes)
  /-- The call in this place throws before it has started a reader thread. -/
  | fail (i : ℕ)
  | connect (i : ℕ)
  | insert (i : ℕ)
  | drop (i : ℕ)
  | disconnect (target : Bytes) (caller : Option ℕ)
  | join (i : ℕ)
  /-- `std::system_error` leaves `close_connection`; the callback that called it catches it or not.
  -/
  | joinThrows (i : ℕ) (caught : Bool)
  /-- The reader leaves its loop: host restart, host-side close, ERROR frame. -/
  | die (id : ℕ)
  | readerReturns (id : ℕ)
  | destroy (caller : Option ℕ)
  | destroyNext
  | destroyJoin
  /-- A destructor lets no exception out. -/
  | destroyJoinThrows
  /-- The last reference goes away. -/
  | release (id : ℕ)
  deriving DecidableEq

/-- One step of the client. -/
def step (s : ClientImpl) (a : Act) : Option ClientImpl :=
  if s.terminated then none
  else
    match a with
    | .call target =>
      if s.destructor = .notStarted then
        match s.live target with
        | some id => some { s with calls := s.calls ++ [.holding id] }
        | none => some { s with calls := s.calls ++ [.connecting target] }
      else none
    | .fail i =>
      match s.calls[i]? with
      | some (.connecting _) => some { s with calls := s.calls.set i .done }
      | _ => none
    | .connect i =>
      match s.calls[i]? with
      | some (.connecting target) =>
        some { s with
          threads := s.threads ++ [{}]
          calls := s.calls.set i (.created target s.threads.length) }
      | _ => none
    | .insert i =>
      match s.calls[i]? with
      | some (.created target id) =>
        some { s with
          conns := s.conns.insert target id
          calls := s.calls.set i (.holding id) }
      | _ => none
    | .drop i =>
      match s.calls[i]? with
      | some (.holding _) => some { s with calls := s.calls.set i .done }
      | _ => none
    | .disconnect target caller =>
      if s.destructor = .notStarted ∧ s.free caller then
        match s.conns.lookup target with
        | none => some s
        | some id =>
          some { s with
            conns := s.conns.erase target
            threads := kill s.threads id
            calls := s.calls ++ [.closing id caller] }
      else none
    | .join i =>
      match s.calls[i]? with
      | some (.closing id _) =>
        match s.threads[id]? with
        | some c =>
          if c.reader = .returned then
            some { s with
              threads := s.threads.set id { c with reader := .joined }
              calls := s.calls.set i .done }
          else none
        | none => none
      | _ => none
    | .joinThrows i caught =>
      match s.calls[i]? with
      | some (.closing id caller) =>
        if s.joinFails id caller then
          some { s with calls := s.calls.set i .done, terminated := !caught }
        else none
      | _ => none
    | .die id =>
      match s.threads[id]? with
      | some c =>
        if c.reader = .running ∧ s.busy id = false then
          some { s with threads := kill s.threads id }
        else none
      | none => none
    | .readerReturns id =>
      match s.threads[id]? with
      | some c =>
        if c.reader = .running ∧ c.alive = false ∧ s.busy id = false then
          some { s with threads := s.threads.set id { c with reader := .returned } }
        else none
      | none => none
    | .destroy caller =>
      if s.destructor = .notStarted ∧ (∀ k ∈ s.calls, k.active = false) ∧ s.free caller then
        some { s with destructor := .closing s.conns.keys, destroyer := caller }
      else none
    | .destroyNext =>
      match s.destructor with
      | .closing [] => some { s with destructor := .finished }
      | .closing (target :: targets) =>
        match s.conns.lookup target with
        | none => some { s with destructor := .closing targets }
        | some id =>
          some { s with
            conns := s.conns.erase target
            threads := kill s.threads id
            destructor := .joining id targets }
      | _ => none
    | .destroyJoin =>
      match s.destructor with
      | .joining id targets =>
        match s.threads[id]? with
        | some c =>
          if c.reader = .returned then
            some { s with
              threads := s.threads.set id { c with reader := .joined }
              destructor := .closing targets }
          else none
        | none => none
      | _ => none
    | .destroyJoinThrows =>
      match s.destructor with
      | .joining id _ =>
        if s.joinFails id s.destroyer then some { s with terminated := true } else none
      | _ => none
    | .release id =>
      match s.threads[id]? with
      | some c =>
        if c.released = false ∧ ¬ s.Referenced id c then
          some { s with
            threads := s.threads.set id { c with released := true }
            terminated := decide (c.reader ≠ .joined) }
        else none
      | none => none

/-! ### What a step can do -/

/-- One constructor for each way a step can go. -/
inductive Effect (s : ClientImpl) : Act → ClientImpl → Prop
  | reused {target : Bytes} {id : ℕ} :
      s.destructor = .notStarted → s.live target = some id →
      Effect s (.call target) { s with calls := s.calls ++ [.holding id] }
  | connecting {target : Bytes} :
      s.destructor = .notStarted → s.live target = none →
      Effect s (.call target) { s with calls := s.calls ++ [.connecting target] }
  | failed {i : ℕ} {target : Bytes} :
      s.calls[i]? = some (.connecting target) →
      Effect s (.fail i) { s with calls := s.calls.set i .done }
  | connected {i : ℕ} {target : Bytes} :
      s.calls[i]? = some (.connecting target) →
      Effect s (.connect i)
        { s with
          threads := s.threads ++ [{}]
          calls := s.calls.set i (.created target s.threads.length) }
  | inserted {i : ℕ} {target : Bytes} {id : ℕ} :
      s.calls[i]? = some (.created target id) →
      Effect s (.insert i)
        { s with
          conns := s.conns.insert target id
          calls := s.calls.set i (.holding id) }
  | dropped {i : ℕ} {id : ℕ} :
      s.calls[i]? = some (.holding id) →
      Effect s (.drop i) { s with calls := s.calls.set i .done }
  | notConnected {target : Bytes} {caller : Option ℕ} :
      s.destructor = .notStarted → s.conns.lookup target = none →
      Effect s (.disconnect target caller) s
  | disconnected {target : Bytes} {caller : Option ℕ} {id : ℕ} :
      s.destructor = .notStarted → s.conns.lookup target = some id →
      Effect s (.disconnect target caller)
        { s with
          conns := s.conns.erase target
          threads := kill s.threads id
          calls := s.calls ++ [.closing id caller] }
  | joined {i id : ℕ} {caller : Option ℕ} {c : ConnThread} :
      s.calls[i]? = some (.closing id caller) → s.threads[id]? = some c → c.reader = .returned →
      Effect s (.join i)
        { s with
          threads := s.threads.set id { c with reader := .joined }
          calls := s.calls.set i .done }
  | joinThrew {i id : ℕ} {caller : Option ℕ} {caught : Bool} :
      s.calls[i]? = some (.closing id caller) → s.joinFails id caller = true →
      Effect s (.joinThrows i caught)
        { s with calls := s.calls.set i .done, terminated := !caught }
  | died {id : ℕ} : Effect s (.die id) { s with threads := kill s.threads id }
  | readerReturned {id : ℕ} {c : ConnThread} :
      s.threads[id]? = some c → c.reader = .running →
      Effect s (.readerReturns id)
        { s with threads := s.threads.set id { c with reader := .returned } }
  | destroying {caller : Option ℕ} :
      s.destructor = .notStarted → (∀ k ∈ s.calls, k.active = false) →
      Effect s (.destroy caller)
        { s with destructor := .closing s.conns.keys, destroyer := caller }
  | destroyed :
      s.destructor = .closing [] → Effect s .destroyNext { s with destructor := .finished }
  | destroySkipped {target : Bytes} {targets : List Bytes} :
      s.destructor = .closing (target :: targets) → s.conns.lookup target = none →
      Effect s .destroyNext { s with destructor := .closing targets }
  | destroyClosed {target : Bytes} {targets : List Bytes} {id : ℕ} :
      s.destructor = .closing (target :: targets) → s.conns.lookup target = some id →
      Effect s .destroyNext
        { s with
          conns := s.conns.erase target
          threads := kill s.threads id
          destructor := .joining id targets }
  | destroyJoined {id : ℕ} {targets : List Bytes} {c : ConnThread} :
      s.destructor = .joining id targets → s.threads[id]? = some c → c.reader = .returned →
      Effect s .destroyJoin
        { s with
          threads := s.threads.set id { c with reader := .joined }
          destructor := .closing targets }
  | destroyJoinThrew {id : ℕ} {targets : List Bytes} :
      s.destructor = .joining id targets → s.joinFails id s.destroyer = true →
      Effect s .destroyJoinThrows { s with terminated := true }
  | released {id : ℕ} {c : ConnThread} :
      s.threads[id]? = some c → ¬ s.Referenced id c →
      Effect s (.release id)
        { s with
          threads := s.threads.set id { c with released := true }
          terminated := decide (c.reader ≠ .joined) }

theorem effect_of_step {s s' : ClientImpl} {a : Act} (h : s.step a = some s') : s.Effect a s' := by
  unfold step at h
  split at h
  · cases h
  cases a with
  | call target =>
    simp only at h
    split at h
    · next hno =>
      split at h
      · next hlive =>
        cases h
        exact .reused hno hlive
      · next hlive =>
        cases h
        exact .connecting hno hlive
    · cases h
  | fail i =>
    simp only at h
    split at h
    · next hi =>
      cases h
      exact .failed hi
    · cases h
  | connect i =>
    simp only at h
    split at h
    · next hi =>
      cases h
      exact .connected hi
    · cases h
  | insert i =>
    simp only at h
    split at h
    · next hi =>
      cases h
      exact .inserted hi
    · cases h
  | drop i =>
    simp only at h
    split at h
    · next hi =>
      cases h
      exact .dropped hi
    · cases h
  | disconnect target caller =>
    simp only at h
    split at h
    · next hno =>
      split at h
      · next hnone =>
        cases h
        exact .notConnected hno.1 hnone
      · next hold =>
        cases h
        exact .disconnected hno.1 hold
    · cases h
  | join i =>
    simp only at h
    split at h
    · next hi =>
      split at h
      · next hc =>
        split at h
        · next hr =>
          cases h
          exact .joined hi hc hr
        · cases h
      · cases h
    · cases h
  | joinThrows i caught =>
    simp only at h
    split at h
    · next hi =>
      split at h
      · next hfails =>
        cases h
        exact .joinThrew hi hfails
      · cases h
    · cases h
  | die id =>
    simp only at h
    split at h
    · split at h
      · cases h
        exact .died
      · cases h
    · cases h
  | readerReturns id =>
    simp only at h
    split at h
    · next hc =>
      split at h
      · next hr =>
        cases h
        exact .readerReturned hc hr.1
      · cases h
    · cases h
  | destroy caller =>
    simp only at h
    split at h
    · next hno =>
      cases h
      exact .destroying hno.1 hno.2.1
    · cases h
  | destroyNext =>
    simp only at h
    split at h
    · next hd =>
      cases h
      exact .destroyed hd
    · next hd =>
      split at h
      · next hnone =>
        cases h
        exact .destroySkipped hd hnone
      · next hold =>
        cases h
        exact .destroyClosed hd hold
    · cases h
  | destroyJoin =>
    simp only at h
    split at h
    · next hd =>
      split at h
      · next hc =>
        split at h
        · next hr =>
          cases h
          exact .destroyJoined hd hc hr
        · cases h
      · cases h
    · cases h
  | destroyJoinThrows =>
    simp only at h
    split at h
    · next hd =>
      split at h
      · next hfails =>
        cases h
        exact .destroyJoinThrew hd hfails
      · cases h
    · cases h
  | release id =>
    simp only at h
    split at h
    · next hc =>
      split at h
      · next href =>
        cases h
        exact .released hc href.2
      · cases h
    · cases h

/-! ### The property -/

/-- The reader thread of this connection has been started and not joined. -/
def Unjoined (s : ClientImpl) (id : ℕ) : Prop := ∃ c, s.threads[id]? = some c ∧ c.reader ≠ .joined

/-- The connection is in `conns`, has just been created by a `get_or_connect` in progress, or is
being closed by `close_connection`. -/
def Owned (s : ClientImpl) (id : ℕ) : Prop :=
  (∃ target, s.conns.lookup target = some id) ∨ (∃ k ∈ s.calls, k.Owns id) ∨
    s.destructor.holds = some id

/-- `conns[target_service] = conn` finds no entry to overwrite; a callback disconnects neither the
connection on whose reader thread it runs nor one whose reader thread is disconnecting that; and
none destroys the client. -/
def Orderly (s : ClientImpl) : Act → Prop
  | .insert i => ∀ target id, s.calls[i]? = some (.created target id) →
    s.conns.lookup target = none
  | .disconnect target caller => ∀ id, s.conns.lookup target = some id →
    s.joinFails id caller = false
  | .destroy caller => caller = none
  | _ => True

/-- The invariant that carries the property. -/
structure Inv (s : ClientImpl) : Prop where
  owned : ∀ id, s.Unjoined id → s.Owned id
  running : s.terminated = false
  quiet : s.destructor ≠ .notStarted → ∀ k ∈ s.calls, k.active = false
  targets : ∀ ts, (s.destructor = .closing ts ∨ ∃ id, s.destructor = .joining id ts) →
    ∀ target ∈ s.conns, target ∈ ts
  finished : s.destructor = .finished → ∀ target, target ∉ s.conns
  /-- No join in progress is going to throw. -/
  joins : ∀ id caller, .closing id caller ∈ s.calls → s.joinFails id caller = false
  destroyer : s.destroyer = none

section

variable {s : ClientImpl} {id : ℕ}

theorem inv_init : Inv {} where
  owned := by simp [Unjoined]
  running := rfl
  quiet h := absurd rfl h
  targets ts h := by simp at h
  finished h := by cases h
  joins id caller h := by cases h
  destroyer := rfl

/-- Nothing but joining makes a started thread joined. -/
theorem unjoined_of_kill {j : ℕ} (h : Unjoined { s with threads := kill s.threads j } id) :
    s.Unjoined id := by
  obtain ⟨c, hc, hr⟩ := h
  rw [kill, List.getElem?_modify] at hc
  obtain ⟨d, hd, rfl⟩ := Option.map_eq_some_iff.mp hc
  refine ⟨d, hd, ?_⟩
  split at hr
  · exact hr
  · exact hr

theorem unjoined_of_set {j : ℕ} {c d : ConnThread} (hc : s.threads[j]? = some c)
    (hd : d.reader ≠ .joined → c.reader ≠ .joined)
    (h : Unjoined { s with threads := s.threads.set j d } id) : s.Unjoined id := by
  obtain ⟨e, he, hr⟩ := h
  by_cases hj : j = id
  · subst hj
    rw [List.getElem?_set_self (List.getElem?_eq_some_iff.mp hc).1] at he
    cases he
    exact ⟨c, hc, hd hr⟩
  · rw [List.getElem?_set_ne hj] at he
    exact ⟨e, he, hr⟩

/-- A joined thread is not among the unjoined any more. -/
theorem ne_of_unjoined_set {j : ℕ} {d : ConnThread} (hd : d.reader = .joined)
    (hlt : j < s.threads.length) (h : Unjoined { s with threads := s.threads.set j d } id) :
    id ≠ j := by
  rintro rfl
  obtain ⟨e, he, hr⟩ := h
  rw [List.getElem?_set_self hlt] at he
  cases he
  exact hr hd

theorem unjoined_of_append (h : Unjoined { s with threads := s.threads ++ [{}] } id) :
    s.Unjoined id ∨ id = s.threads.length := by
  obtain ⟨c, hc, hr⟩ := h
  rw [List.getElem?_append] at hc
  split at hc
  · exact Or.inl ⟨c, hc, hr⟩
  · next hge =>
    rw [List.getElem?_singleton] at hc
    split at hc
    · next hz => exact Or.inr (by omega)
    · cases hc

/-! ### Calls -/

/-- A call that owns a connection is still there when one that does not has changed. -/
theorem mem_set_of_owns {calls : List Call} {i : ℕ} {old new k : Call} (hi : calls[i]? = some old)
    (hk : k ∈ calls) (howns : k.Owns id) (hold : ¬ old.Owns id) : k ∈ calls.set i new := by
  obtain ⟨j, hj, rfl⟩ := List.getElem_of_mem hk
  have hij : i ≠ j := by
    rintro rfl
    rw [List.getElem?_eq_getElem hj] at hi
    cases hi
    exact hold howns
  rw [← List.getElem_set_ne hij (by simpa using hj)]
  exact List.getElem_mem _

theorem mem_set_self {calls : List Call} {i : ℕ} {old new : Call} (hi : calls[i]? = some old) :
    new ∈ calls.set i new :=
  List.mem_set (List.getElem?_eq_some_iff.mp hi).1 _

theorem mem_of_mem_set_ne {calls : List Call} {i : ℕ} {new k : Call} (hk : k ∈ calls.set i new)
    (hne : k ≠ new) : k ∈ calls :=
  (List.mem_or_eq_of_mem_set hk).resolve_right hne

/-- A call in progress keeps the destructor from starting. -/
theorem Inv.notStarted (h : s.Inv) {i : ℕ} {k : Call} (hi : s.calls[i]? = some k)
    (hk : k.active = true) : s.destructor = .notStarted := by
  by_contra hne
  rw [h.quiet hne k (List.mem_of_getElem? hi)] at hk
  cases hk

theorem joinFails_some_eq_false {r : ℕ} :
    s.joinFails id (some r) = false ↔ r ≠ id ∧ .closing r (some id) ∉ s.calls := by
  simp [joinFails]

/-- With fewer calls in `close_connection` no join that would have waited throws. -/
theorem Inv.joins_of_calls (h : s.Inv) {s' : ClientImpl}
    (hcalls : ∀ id caller, .closing id caller ∈ s'.calls → .closing id caller ∈ s.calls) (id : ℕ)
    (caller : Option ℕ) (hmem : .closing id caller ∈ s'.calls) :
    s'.joinFails id caller = false := by
  have hfails := h.joins id caller (hcalls id caller hmem)
  cases caller with
  | none => rfl
  | some r =>
    rw [joinFails_some_eq_false] at hfails ⊢
    exact ⟨hfails.1, fun hr => hfails.2 (hcalls r (some id) hr)⟩

/-- A call that owns nothing may change into anything inactive, or, before the destructor, into
anything. -/
theorem Inv.of_calls (h : s.Inv) {calls : List Call}
    (hown : ∀ k ∈ s.calls, ∀ id, k.Owns id → k ∈ calls)
    (hquiet : s.destructor ≠ .notStarted → ∀ k ∈ calls, k.active = false)
    (hclosing : ∀ id caller, .closing id caller ∈ calls → .closing id caller ∈ s.calls) :
    Inv { s with calls := calls } where
  owned id hun := by
    obtain hconns | ⟨k, hk, howns⟩ | hholds := h.owned id hun
    · exact Or.inl hconns
    · exact Or.inr (Or.inl ⟨k, hown k hk id howns, howns⟩)
    · exact Or.inr (Or.inr hholds)
  running := h.running
  quiet := hquiet
  targets := h.targets
  finished := h.finished
  joins := h.joins_of_calls hclosing
  destroyer := h.destroyer

/-- The state of the threads may change in any way that joins none. -/
theorem Inv.of_threads (h : s.Inv) {threads : List ConnThread}
    (hun : ∀ id, Unjoined { s with threads := threads } id → s.Unjoined id) :
    Inv { s with threads := threads } :=
  { h with
    owned := fun id hid => h.owned id (hun id hid)
    joins := h.joins_of_calls fun _ _ hmem => hmem }

/-! ### The steps -/

theorem Inv.connect (h : s.Inv) {i : ℕ} {target : Bytes}
    (hi : s.calls[i]? = some (.connecting target)) :
    Inv { s with
      threads := s.threads ++ [{}]
      calls := s.calls.set i (.created target s.threads.length) } := by
  have hno := h.notStarted hi rfl
  refine ⟨fun id hun => ?_, h.running, fun hne => absurd hno hne, h.targets, h.finished,
    h.joins_of_calls fun _ _ hmem => mem_of_mem_set_ne hmem nofun, h.destroyer⟩
  obtain hun | rfl := unjoined_of_append hun
  · obtain hconns | ⟨k, hk, howns⟩ | hholds := h.owned id hun
    · exact Or.inl hconns
    · exact Or.inr (Or.inl ⟨k, mem_set_of_owns hi hk howns (by simp [Call.Owns]), howns⟩)
    · exact Or.inr (Or.inr hholds)
  · exact Or.inr (Or.inl ⟨_, mem_set_self hi, Or.inl ⟨target, rfl⟩⟩)

/-- Inserting keeps everything owned because no entry is overwritten. -/
theorem Inv.insert (h : s.Inv) {i : ℕ} {target : Bytes} {new : ℕ}
    (hi : s.calls[i]? = some (.created target new)) (hentry : s.conns.lookup target = none) :
    Inv { s with
      conns := s.conns.insert target new
      calls := s.calls.set i (.holding new) } := by
  have hno := h.notStarted hi rfl
  refine ⟨fun id hun => ?_, h.running, fun hne => absurd hno hne, ?_, ?_,
    h.joins_of_calls fun _ _ hmem => mem_of_mem_set_ne hmem nofun, h.destroyer⟩
  · obtain ⟨t, hlookup⟩ | ⟨k, hk, howns⟩ | hholds := h.owned id hun
    · have hne : t ≠ target := by
        rintro rfl
        rw [hentry] at hlookup
        cases hlookup
      exact Or.inl ⟨t, (AList.lookup_insert_ne hne).trans hlookup⟩
    · by_cases hnew : id = new
      · exact Or.inl ⟨target, hnew ▸ AList.lookup_insert _⟩
      · have hold : ¬ (Call.created target new).Owns id := by simp [Call.Owns, Ne.symm hnew]
        exact Or.inr (Or.inl ⟨k, mem_set_of_owns hi hk howns hold, howns⟩)
    · exact Or.inr (Or.inr hholds)
  · rintro ts (hd | ⟨_, hd⟩)
    all_goals
      rw [show s.destructor = _ from hd] at hno
      cases hno
  · intro hd
    rw [show s.destructor = _ from hd] at hno
    cases hno

/-- `close_connection` takes a connection out of `conns` and keeps it. -/
theorem Inv.owned_erase (h : s.Inv) {target : Bytes} {old id : ℕ}
    (hold : s.conns.lookup target = some old) (hun : s.Unjoined id) (hne : id ≠ old) :
    (∃ t, (s.conns.erase target).lookup t = some id) ∨ (∃ k ∈ s.calls, k.Owns id) ∨
      s.destructor.holds = some id := by
  obtain ⟨t, hlookup⟩ | hrest := h.owned id hun
  · have ht : t ≠ target := by
      rintro rfl
      rw [hold] at hlookup
      cases hlookup
      exact hne rfl
    exact Or.inl ⟨t, (AList.lookup_erase_ne ht).trans hlookup⟩
  · exact Or.inr hrest

/-- A join that is not going to throw now makes no other throw: what it is compared with is the
reversed pair. -/
theorem Inv.joins_append (h : s.Inv) {s' : ClientImpl} {old : ℕ} {caller : Option ℕ}
    (hfails : s.joinFails old caller = false) (hcalls : s'.calls = s.calls ++ [.closing old caller])
    (id : ℕ) (caller' : Option ℕ) (hmem : .closing id caller' ∈ s'.calls) :
    s'.joinFails id caller' = false := by
  cases caller' with
  | none => rfl
  | some r =>
    rw [joinFails_some_eq_false, hcalls, List.mem_append, List.mem_singleton]
    rw [hcalls, List.mem_append, List.mem_singleton] at hmem
    obtain hmem | heq := hmem
    · obtain ⟨hne, hnot⟩ := joinFails_some_eq_false.mp (h.joins id (some r) hmem)
      refine ⟨hne, ?_⟩
      rintro (hr | heq)
      · exact hnot hr
      · cases heq
        exact (joinFails_some_eq_false.mp hfails).2 hmem
    · cases heq
      obtain ⟨hne, hnot⟩ := joinFails_some_eq_false.mp hfails
      refine ⟨hne, ?_⟩
      rintro (hr | heq)
      · exact hnot hr
      · cases heq
        exact hne rfl

theorem Inv.disconnect (h : s.Inv) {target : Bytes} {old : ℕ} {caller : Option ℕ}
    (hno : s.destructor = .notStarted) (hold : s.conns.lookup target = some old)
    (hfails : s.joinFails old caller = false) :
    Inv { s with
      conns := s.conns.erase target
      threads := kill s.threads old
      calls := s.calls ++ [.closing old caller] } := by
  refine ⟨fun id hun => ?_, h.running, fun hne => absurd hno hne, ?_, ?_,
    h.joins_append hfails rfl, h.destroyer⟩
  · by_cases hid : id = old
    · exact Or.inr (Or.inl ⟨_, List.mem_append_right _ (List.mem_singleton_self _),
        Or.inr ⟨caller, by rw [hid]⟩⟩)
    · obtain hconns | ⟨k, hk, howns⟩ | hholds := h.owned_erase hold (unjoined_of_kill hun) hid
      · exact Or.inl hconns
      · exact Or.inr (Or.inl ⟨k, List.mem_append_left _ hk, howns⟩)
      · exact Or.inr (Or.inr hholds)
  · intro ts hd target' htarget
    exact h.targets ts hd target' (AList.mem_erase.mp htarget).2
  · intro hd target' htarget
    exact h.finished hd target' (AList.mem_erase.mp htarget).2

theorem Inv.join (h : s.Inv) {i old : ℕ} {caller : Option ℕ} {c : ConnThread}
    (hi : s.calls[i]? = some (.closing old caller)) (hc : s.threads[old]? = some c)
    (hr : c.reader = .returned) :
    Inv { s with
      threads := s.threads.set old { c with reader := .joined }
      calls := s.calls.set i .done } := by
  have hno := h.notStarted hi rfl
  refine ⟨fun id hun => ?_, h.running, fun hne => absurd hno hne, h.targets, h.finished,
    h.joins_of_calls fun _ _ hmem => mem_of_mem_set_ne hmem nofun, h.destroyer⟩
  have hid : id ≠ old := ne_of_unjoined_set rfl (List.getElem?_eq_some_iff.mp hc).1 hun
  obtain hconns | ⟨k, hk, howns⟩ | hholds :=
    h.owned id (unjoined_of_set hc (fun _ => by rw [hr]; decide) hun)
  · exact Or.inl hconns
  · have hold : ¬ (Call.closing old caller).Owns id := by simp [Call.Owns, Ne.symm hid]
    exact Or.inr (Or.inl ⟨k, mem_set_of_owns hi hk howns hold, howns⟩)
  · exact Or.inr (Or.inr hholds)

theorem Inv.destroy (h : s.Inv) (hno : s.destructor = .notStarted)
    (hquiet : ∀ k ∈ s.calls, k.active = false) :
    Inv { s with destructor := .closing s.conns.keys, destroyer := none } := by
  refine ⟨fun id hun => ?_, h.running, fun _ => hquiet, ?_, fun hd => (by cases hd),
    h.joins_of_calls fun _ _ hmem => hmem, rfl⟩
  · obtain hconns | hcalls | hholds := h.owned id hun
    · exact Or.inl hconns
    · exact Or.inr (Or.inl hcalls)
    · rw [hno] at hholds
      cases hholds
  · rintro ts (hd | ⟨_, hd⟩) target htarget
    · cases hd
      exact AList.mem_keys.mp htarget
    · cases hd

/-- The destructor closes the next connection. -/
theorem Inv.destroyClose (h : s.Inv) {target : Bytes} {targets : List Bytes} {old : ℕ}
    (hd : s.destructor = .closing (target :: targets))
    (hold : s.conns.lookup target = some old) :
    Inv { s with
      conns := s.conns.erase target
      threads := kill s.threads old
      destructor := .joining old targets } := by
  refine ⟨fun id hun => ?_, h.running, fun _ => h.quiet (by simp [hd]), ?_,
    fun hd => (by cases hd), h.joins_of_calls fun _ _ hmem => hmem, h.destroyer⟩
  · by_cases hid : id = old
    · exact Or.inr (Or.inr (by rw [hid]; rfl))
    · obtain hconns | hcalls | hholds := h.owned_erase hold (unjoined_of_kill hun) hid
      · exact Or.inl hconns
      · exact Or.inr (Or.inl hcalls)
      · rw [hd] at hholds
        cases hholds
  · rintro ts (hd' | ⟨_, hd'⟩) target' htarget
    · cases hd'
    · cases hd'
      obtain ⟨hne, hmem⟩ := AList.mem_erase.mp htarget
      exact (List.mem_cons.mp (h.targets _ (Or.inl hd) target' hmem)).resolve_left hne

/-- A target that is not in `conns` any more is passed over; with no target left the destructor is
done. -/
theorem Inv.destroySkip (h : s.Inv) {ts : List Bytes} {d : Destructor}
    (hd : s.destructor = .closing ts)
    (htargets : ∀ ts', (d = .closing ts' ∨ ∃ id, d = .joining id ts') →
      ∀ target ∈ s.conns, target ∈ ts')
    (hfin : d = .finished → ∀ target, target ∉ s.conns) : Inv { s with destructor := d } := by
  refine ⟨fun id hun => ?_, h.running, fun _ => h.quiet (by simp [hd]), htargets, hfin,
    h.joins_of_calls fun _ _ hmem => hmem, h.destroyer⟩
  obtain hconns | hcalls | hholds' := h.owned id hun
  · exact Or.inl hconns
  · exact Or.inr (Or.inl hcalls)
  · rw [hd] at hholds'
    cases hholds'

theorem Inv.destroyJoin (h : s.Inv) {old : ℕ} {targets : List Bytes} {c : ConnThread}
    (hd : s.destructor = .joining old targets) (hc : s.threads[old]? = some c)
    (hr : c.reader = .returned) :
    Inv { s with
      threads := s.threads.set old { c with reader := .joined }
      destructor := .closing targets } := by
  refine ⟨fun id hun => ?_, h.running, fun _ => h.quiet (by simp [hd]), ?_,
    fun hd => (by cases hd), h.joins_of_calls fun _ _ hmem => hmem, h.destroyer⟩
  · have hid : id ≠ old := ne_of_unjoined_set rfl (List.getElem?_eq_some_iff.mp hc).1 hun
    obtain hconns | hcalls | hholds :=
      h.owned id (unjoined_of_set hc (fun _ => by rw [hr]; decide) hun)
    · exact Or.inl hconns
    · exact Or.inr (Or.inl hcalls)
    · rw [hd] at hholds
      cases hholds
      exact absurd rfl hid
  · rintro ts (hd' | ⟨_, hd'⟩)
    · cases hd'
      exact h.targets _ (Or.inr ⟨_, hd⟩)
    · cases hd'

/-- What owns a connection refers to it. -/
theorem Owned.referenced (h : s.Owned id) (c : ConnThread) : s.Referenced id c := by
  obtain ⟨target, hlookup⟩ | ⟨k, hk, hown⟩ | hholds := h
  · exact Or.inl ⟨⟨target, id⟩, AList.mem_lookup_iff.mp hlookup, rfl⟩
  · refine Or.inr (Or.inl ⟨k, hk, ?_⟩)
    obtain ⟨_, rfl⟩ | ⟨_, rfl⟩ := hown <;> rfl
  · exact Or.inr (Or.inr (Or.inl hholds))

/-- Only connections whose reader has been joined are released. -/
theorem Inv.release (h : s.Inv) {c : ConnThread} (hc : s.threads[id]? = some c)
    (href : ¬ s.Referenced id c) :
    Inv { s with
      threads := s.threads.set id { c with released := true }
      terminated := decide (c.reader ≠ .joined) } := by
  have hjoined : c.reader = .joined := by
    by_contra hr
    exact href ((h.owned id ⟨c, hc, hr⟩).referenced c)
  have hthreads := h.of_threads fun _ =>
    unjoined_of_set (d := { c with released := true }) hc fun hne => hne
  exact { hthreads with
    running := by simp [hjoined]
    joins := h.joins_of_calls fun _ _ hmem => hmem }

/-- **Every step keeps the invariant**, as long as no insertion overwrites and no join throws. -/
theorem Inv.step (h : s.Inv) {a : Act} {s' : ClientImpl} (hstep : s.step a = some s')
    (horderly : s.Orderly a) : s'.Inv := by
  cases effect_of_step hstep with
  | reused hno _ | connecting hno _ =>
    refine h.of_calls (fun k hk _ _ => List.mem_append_left _ hk) (fun hne => absurd hno hne)
      fun id caller hmem => (List.mem_append.mp hmem).resolve_right ?_
    rw [List.mem_singleton]
    exact nofun
  | failed hi =>
    exact h.of_calls (fun k hk id howns => mem_set_of_owns hi hk howns (by simp [Call.Owns]))
      (fun hne => absurd (h.notStarted hi rfl) hne) fun _ _ hmem => mem_of_mem_set_ne hmem nofun
  | connected hi => exact h.connect hi
  | inserted hi => exact h.insert hi (horderly _ _ hi)
  | dropped hi =>
    refine h.of_calls (fun k hk id howns => mem_set_of_owns hi hk howns (by simp [Call.Owns]))
      (fun hne k hk => ?_) fun _ _ hmem => mem_of_mem_set_ne hmem nofun
    obtain hk | rfl := List.mem_or_eq_of_mem_set hk
    · exact h.quiet hne k hk
    · rfl
  | notConnected _ _ => exact h
  | disconnected hno hold => exact h.disconnect hno hold (horderly _ hold)
  | joined hi hc hr => exact h.join hi hc hr
  | joinThrew hi hfails =>
    rw [h.joins _ _ (List.mem_of_getElem? hi)] at hfails
    cases hfails
  | died => exact h.of_threads fun _ => unjoined_of_kill
  | readerReturned hc hr =>
    exact h.of_threads fun _ => unjoined_of_set hc fun _ => by rw [hr]; decide
  | destroying hno hquiet =>
    cases horderly
    exact h.destroy hno hquiet
  | destroyed hd =>
    refine h.destroySkip hd (by simp) fun _ target hmem => ?_
    exact absurd (h.targets _ (Or.inl hd) target hmem) List.not_mem_nil
  | destroySkipped hd hnone =>
    refine h.destroySkip hd ?_ fun hd => (by cases hd)
    rintro ts (hd' | ⟨_, hd'⟩) t ht
    · cases hd'
      refine (List.mem_cons.mp (h.targets _ (Or.inl hd) t ht)).resolve_left ?_
      rintro rfl
      exact absurd ht (AList.lookup_eq_none.mp hnone)
    · cases hd'
  | destroyClosed hd hold => exact h.destroyClose hd hold
  | destroyJoined hd hc hr => exact h.destroyJoin hd hc hr
  | destroyJoinThrew _ hfails =>
    rw [h.destroyer] at hfails
    cases hfails
  | released hc href => exact h.release hc href

end

end ClientImpl

namespace RestartedHost

def service : Bytes := [115]

def other : Bytes := [116]

/-- A check of `Orderly`. -/
def orderly (s : ClientImpl) : ClientImpl.Act → Bool
  | .insert i =>
    match s.calls[i]? with
    | some (.created target _) => (s.conns.lookup target).isNone
    | _ => true
  | .disconnect target caller =>
    match s.conns.lookup target with
    | some id => !s.joinFails id caller
    | none => true
  | .destroy caller => caller.isNone
  | _ => true

def guardedStep (s : ClientImpl) (a : ClientImpl.Act) : Option ClientImpl :=
  if orderly s a then s.step a else none

end RestartedHost

end Epx
