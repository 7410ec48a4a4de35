import Epx.Lib.Slots
import Epx.Lib.Transition
import Mathlib.Data.Fin.Basic
import Mathlib.Data.List.FinRange

/-!
# Stopping hosts on signals

`Host::stop_on_signals` puts the host into a fixed table, from which `~Host` takes it, and a signal
handler goes through the table and requests a stop of every host that it finds. The handler can
interrupt any thread at any moment, in the middle of a registration, of a destructor or of another
handler, and can run beside them in another thread.

A Host is destroyed once and only when no call on it is under way; this is up to the program.

## Main definitions

* `registerSignalHost`, `unregisterSignalHost`, `epxSignalTrampoline`
* `StopSignals`, `StopSignals.step`
* `StopSignals.Inv`

## Main results

* `StopSignals.Inv.step` — every step keeps the table and what is known of each host in line
* `signals_reach_hosts`
-/

namespace Epx

open Transition Slots

def kMaxSignalHosts : ℕ := 8

/-- The slots of `g_signal_hosts`, in the order in which they are gone through. -/
def signalSlots : List (Fin kMaxSignalHosts) := List.finRange kMaxSignalHosts

/-- `g_signal_hosts`, with what the threads do to it. Hosts and threads are numbers. -/
abbrev SignalTable := Table (Fin kMaxSignalHosts) ℕ ℕ

/-- `register_signal_host`, called in a thread. -/
def registerSignalHost (g : SignalTable) (t h : ℕ) : SignalTable := g.push t (.insert h) signalSlots

def unregisterSignalHost (g : SignalTable) (t h : ℕ) : SignalTable :=
  g.push t (.remove h) signalSlots

/-- `epx_signal_trampoline`, on top of what a thread does. -/
def epxSignalTrampoline (g : SignalTable) (t : ℕ) : SignalTable := g.push t .visit signalSlots

/-- What has become of a Host. -/
inductive HostLifetime where
  | living
  /-- A thread is in `~Host`, at `unregister_signal_host`. -/
  | leaving (thread : ℕ)
  /-- The thread is past that: what follows stops the Host and gives its memory back. -/
  | gone (thread : ℕ)
  deriving DecidableEq

/-- A call of `register_signal_host` that has returned. -/
structure SignalRegistration where
  host : ℕ
  slot : Option (Fin kMaxSignalHosts)
  /-- How many slots were taken when it began, and how many times one has been taken since. -/
  taken : ℕ
  takenSince : ℕ
  deriving DecidableEq

/-- A call of `request_stop`, and what had become of the Host. -/
structure StopRequest where
  thread : ℕ
  host : ℕ
  life : HostLifetime
  deriving DecidableEq

/-- The signal table of a process and its Hosts. -/
structure StopSignals where
  table : SignalTable := {}
  life : ℕ → HostLifetime := fun _ => .living
  /-- The threads that are in a call of `stop_on_signals` on the Host. -/
  calls : ℕ → List ℕ := fun _ => []
  stopRequested : ℕ → Bool := fun _ => false
  requests : List StopRequest := []
  registrations : List SignalRegistration := []
  /-- The handlers that have returned. -/
  delivered : List (Scan (Fin kMaxSignalHosts) ℕ) := []

namespace StopSignals

/-- What the threads of the process can do next. -/
inductive Act where
  /-- A thread calls `stop_on_signals` on a Host. -/
  | stopOnSignals (t h : ℕ)
  /-- A thread destroys a Host. -/
  | destroy (t h : ℕ)
  /-- A signal interrupts a thread. -/
  | signal (t : ℕ)
  /-- A thread takes a step of the function that it is in. -/
  | step (t : ℕ)
  deriving DecidableEq

/-- What follows from a step in the table. -/
def react (s : StopSignals) (t : ℕ) : Event (Fin kMaxSignalHosts) ℕ → StopSignals
  | .moved => s
  | .used h =>
    { s with
      stopRequested := Function.update s.stopRequested h true
      requests := s.requests ++ [⟨t, h, s.life h⟩] }
  | .returned f slot =>
    match f.purpose with
    | .insert h =>
      { s with
        calls := Function.update s.calls h ((s.calls h).erase t)
        registrations := s.registrations ++
          [⟨h, slot, (f.before signalSlots).length, (f.during s.table.changes).length⟩] }
    | .remove h => { s with life := Function.update s.life h (.gone t) }
    | .visit | .use _ => { s with delivered := s.delivered ++ [f] }

def step (s : StopSignals) : Act → Option StopSignals
  | .stopOnSignals t h =>
    if s.table.stack t = [] ∧ s.life h = .living then
      some { s with
        table := registerSignalHost s.table t h
        calls := Function.update s.calls h (t :: s.calls h) }
    else none
  | .destroy t h =>
    if s.table.stack t = [] ∧ s.life h = .living ∧ s.calls h = [] then
      some { s with
        table := unregisterSignalHost s.table t h
        life := Function.update s.life h (.leaving t) }
    else none
  | .signal t => some { s with table := epxSignalTrampoline s.table t }
  | .step t => (s.table.step t).map fun p => { s with table := p.1 }.react t p.2

/-! ### The invariant -/

/-- Whatever a thread does, it does below handlers only. -/
def Nested : List (Scan (Fin kMaxSignalHosts) ℕ) → Prop
  | [] => True
  | f :: below =>
    ((∀ h, f.purpose ≠ .insert h ∧ f.purpose ≠ .remove h) ∨ below = []) ∧ Nested below

/-- The Host has been put into the table by a call. -/
def Registered (s : StopSignals) (h : ℕ) : Prop :=
  ∃ r ∈ s.registrations, r.host = h ∧ r.slot ≠ none

structure Inv (s : StopSignals) : Prop where
  table : s.table.Inv signalSlots
  nested : ∀ t, Nested (s.table.stack t)
  registering : ∀ t, ∀ f ∈ s.table.stack t, ∀ h, f.purpose = .insert h → t ∈ s.calls h
  calls : ∀ h, s.calls h ≠ [] → s.life h = .living
  unregistering : ∀ t, ∀ f ∈ s.table.stack t, ∀ h, f.purpose = .remove h →
    s.life h = .leaving t ∧ ∀ i, .placed i h ∉ f.since s.table.changes
  cell : ∀ i h, s.table.cell i = some h → s.Registered h ∧ ∀ t, s.life h ≠ .gone t
  cleared : ∀ i h, .cleared i h ∈ s.table.changes → s.life h ≠ .living
  /-- No handler in the thread that destroyed a Host holds it any more. -/
  away : ∀ t h, s.life h = .gone t → ∀ f ∈ s.table.stack t, f.purpose ≠ .use h
  loaded : ∀ t, ∀ f ∈ s.table.stack t, ∀ h ∈ f.loaded, s.Registered h
  used : ∀ t, ∀ f ∈ s.table.stack t, ∀ h ∈ f.used, s.stopRequested h = true
  placed : ∀ r ∈ s.registrations, ∀ i, r.slot = some i → s.life r.host = .living →
    s.table.cell i = some r.host
  refused : ∀ r ∈ s.registrations, r.slot = none → kMaxSignalHosts ≤ r.taken + r.takenSince
  delivered : ∀ f ∈ s.delivered, ∀ i h, f.start i = some h → s.life h = .living →
    s.stopRequested h = true
  requests : ∀ r ∈ s.requests, ∀ t, r.life = .gone t → r.thread ≠ t
  requested : ∀ h, s.stopRequested h = true → s.Registered h

variable {s s' : StopSignals} {t u h k : ℕ} {e : Event (Fin kMaxSignalHosts) ℕ}
  {g : SignalTable} {f : Scan (Fin kMaxSignalHosts) ℕ}

theorem inv_start : Inv {} where
  table _ _ hf := absurd hf List.not_mem_nil
  nested _ := trivial
  registering _ _ hf := absurd hf List.not_mem_nil
  calls _ hne := absurd rfl hne
  unregistering _ _ hf := absurd hf List.not_mem_nil
  cell _ _ hcell := by cases hcell
  cleared _ _ hc := absurd hc List.not_mem_nil
  away _ _ hgone := by cases hgone
  loaded _ _ hf := absurd hf List.not_mem_nil
  used _ _ hf := absurd hf List.not_mem_nil
  placed _ hr := absurd hr List.not_mem_nil
  refused _ hr := absurd hr List.not_mem_nil
  delivered _ hf := absurd hf List.not_mem_nil
  requests _ hr := absurd hr List.not_mem_nil
  requested _ hr := by cases hr

/-! ### A function is entered -/

/-- Nothing but the stack of a thread and the calls under way has changed, and a Host that has begun
to be destroyed. -/
theorem Inv.entered (hs : s.Inv) {p : Purpose ℕ} (hp : ∀ v, p ≠ .use v)
    (hnested : (∀ k, p ≠ .insert k ∧ p ≠ .remove k) ∨ s.table.stack t = [])
    {calls : ℕ → List ℕ} {life : ℕ → HostLifetime}
    (hcalls : ∀ k u, u ∈ s.calls k → u ∈ calls k) (hinsert : ∀ k, p = .insert k → t ∈ calls k)
    (hliving : ∀ k, calls k ≠ [] → life k = .living)
    (hlife : ∀ k, s.life k ≠ .living → life k = s.life k)
    (hgone : ∀ k u, life k = .gone u → s.life k = .gone u)
    (hback : ∀ k, life k = .living → s.life k = .living)
    (hremove : ∀ k, p = .remove k → life k = .leaving t) :
    Inv { s with table := s.table.push t p signalSlots, calls := calls, life := life } where
  table := hs.table.push hp
  nested u := by
    by_cases hu : u = t
    · subst hu
      change Nested ((s.table.withStack u _).stack u)
      rw [Table.stack_withStack_self]
      exact ⟨hnested, hs.nested u⟩
    · change Nested ((s.table.withStack t _).stack u)
      rw [Table.stack_withStack_of_ne hu]
      exact hs.nested u
  registering u f hf k hk := by
    rcases Table.mem_stack_push hf with hf | ⟨rfl, rfl⟩
    · exact hcalls k u (hs.registering u f hf k hk)
    · exact hinsert k hk
  calls := hliving
  unregistering u f hf k hk := by
    rcases Table.mem_stack_push hf with hf | ⟨rfl, rfl⟩
    · obtain ⟨hleaving, hplaced⟩ := hs.unregistering u f hf k hk
      exact ⟨(hlife k (by rw [hleaving]; exact fun heq => by cases heq)).trans hleaving, hplaced⟩
    · refine ⟨hremove k hk, fun i hi => ?_⟩
      change .placed i k ∈ s.table.changes.drop s.table.changes.length at hi
      rw [List.drop_length] at hi
      exact absurd hi List.not_mem_nil
  cell i k hi := ⟨(hs.cell i k hi).1, fun u hu => (hs.cell i k hi).2 u (hgone k u hu)⟩
  cleared i k hi hk := hs.cleared i k hi (hback k hk)
  away u k hk f hf := by
    rcases Table.mem_stack_push hf with hf | ⟨-, rfl⟩
    · exact hs.away u k (hgone k u hk) f hf
    · exact hp k
  loaded u f hf k hk := by
    rcases Table.mem_stack_push hf with hf | ⟨-, rfl⟩
    · exact hs.loaded u f hf k hk
    · cases p with
      | use v => exact absurd rfl (hp v)
      | insert _ | remove _ | visit => exact absurd hk List.not_mem_nil
  used u f hf k hk := by
    rcases Table.mem_stack_push hf with hf | ⟨-, rfl⟩
    · exact hs.used u f hf k hk
    · exact absurd hk List.not_mem_nil
  placed r hr i hi hk := hs.placed r hr i hi (hback _ hk)
  refused := hs.refused
  delivered f hf i k hi hk := hs.delivered f hf i k hi (hback k hk)
  requests := hs.requests
  requested := hs.requested

theorem Inv.stopOnSignals (hs : s.Inv) (hstack : s.table.stack t = [])
    (hlife : s.life h = .living) :
    Inv { s with
      table := registerSignalHost s.table t h
      calls := Function.update s.calls h (t :: s.calls h) } := by
  have hself : Function.update s.calls h (t :: s.calls h) h = t :: s.calls h :=
    Function.update_self ..
  refine hs.entered (fun _ heq => by cases heq) (Or.inr hstack) (fun k u hu => ?_) (fun k hk => ?_)
    (fun k hk => ?_) (fun _ _ => rfl) (fun _ _ hk => hk) (fun _ hk => hk)
    fun k hk => by cases hk
  · by_cases hkh : k = h
    · rw [hkh, hself]
      exact List.mem_cons_of_mem _ (hkh ▸ hu)
    · rwa [Function.update_of_ne hkh]
  · rw [← Purpose.insert.inj hk, hself]
    exact List.mem_cons_self
  · by_cases hkh : k = h
    · rw [hkh]
      exact hlife
    · rw [Function.update_of_ne hkh] at hk
      exact hs.calls k hk

theorem Inv.destroy (hs : s.Inv) (hstack : s.table.stack t = []) (hlife : s.life h = .living)
    (hcalls : s.calls h = []) :
    Inv { s with
      table := unregisterSignalHost s.table t h
      life := Function.update s.life h (.leaving t) } := by
  have hself : Function.update s.life h (.leaving t) h = .leaving t := Function.update_self ..
  refine hs.entered (fun _ heq => by cases heq) (Or.inr hstack) (fun _ _ hu => hu)
    (fun k hk => by cases hk) (fun k hk => ?_) (fun k hk => ?_) (fun k u hk => ?_) (fun k hk => ?_)
    fun k hk => ?_
  · have hkh : k ≠ h := by
      rintro rfl
      exact hk hcalls
    rw [Function.update_of_ne hkh]
    exact hs.calls k hk
  · have hkh : k ≠ h := by
      rintro rfl
      exact hk hlife
    rw [Function.update_of_ne hkh]
  · by_cases hkh : k = h
    · rw [hkh, hself] at hk
      cases hk
    · rwa [Function.update_of_ne hkh] at hk
  · by_cases hkh : k = h
    · rw [hkh, hself] at hk
      cases hk
    · rwa [Function.update_of_ne hkh] at hk
  · rw [← Purpose.remove.inj hk, hself]

theorem Inv.signal (hs : s.Inv) : Inv { s with table := epxSignalTrampoline s.table t } := by
  refine hs.entered (fun _ heq => by cases heq) (Or.inl fun _ => ⟨?_, ?_⟩) (fun _ _ hu => hu)
    (fun _ hk => by cases hk) hs.calls (fun _ _ => rfl) (fun _ _ hk => hk) (fun _ hk => hk)
    fun _ hk => by cases hk
  · exact fun heq => by cases heq
  · exact fun heq => by cases heq

/-! ### A step of a function -/

@[simp] theorem table_react : (s.react t e).table = s.table := by
  unfold react
  split
  · rfl
  · rfl
  · split <;> rfl

/-- A Host is gone when its destructor is past the table. -/
theorem life_react (k : ℕ) : (s.react t e).life k = s.life k ∨
    ∃ f found, e = .returned f found ∧ f.purpose = .remove k ∧ (s.react t e).life k = .gone t := by
  unfold react
  split
  · exact Or.inl rfl
  · exact Or.inl rfl
  · rename_i f found
    split
    · exact Or.inl rfl
    · rename_i h hp
      by_cases hk : k = h
      · subst hk
        exact Or.inr ⟨f, found, rfl, hp, Function.update_self ..⟩
      · exact Or.inl (Function.update_of_ne hk ..)
    · exact Or.inl rfl
    · exact Or.inl rfl

theorem living_of_react (hk : (s.react t e).life k = .living) : s.life k = .living := by
  rcases life_react (s := s) (t := t) (e := e) k with heq | ⟨-, -, -, -, hgone⟩
  · rw [← heq, hk]
  · rw [hgone] at hk
    cases hk

theorem calls_react : (u ∈ s.calls k → u ∈ (s.react t e).calls k ∨
      u = t ∧ ∃ f found, e = .returned f found ∧ f.purpose = .insert k) ∧
    ((s.react t e).calls k ≠ [] → s.calls k ≠ []) := by
  unfold react
  split
  · exact ⟨fun hu => Or.inl hu, fun hk => hk⟩
  · exact ⟨fun hu => Or.inl hu, fun hk => hk⟩
  · rename_i f found
    split
    · rename_i h hp
      by_cases hk : k = h
      · subst hk
        simp only [Function.update_self]
        refine ⟨fun hu => ?_, fun hne hnil => hne (by rw [hnil, List.erase_nil])⟩
        by_cases hut : u = t
        · exact Or.inr ⟨hut, f, found, rfl, hp⟩
        · exact Or.inl ((List.mem_erase_of_ne hut).mpr hu)
      · simp only [Function.update_of_ne hk]
        exact ⟨fun hu => Or.inl hu, fun hk => hk⟩
    · exact ⟨fun hu => Or.inl hu, fun hk => hk⟩
    · exact ⟨fun hu => Or.inl hu, fun hk => hk⟩
    · exact ⟨fun hu => Or.inl hu, fun hk => hk⟩

theorem stopRequested_react : (s.react t e).stopRequested k = true ↔
    s.stopRequested k = true ∨ e = .used k := by
  unfold react
  split
  · simp
  · rename_i h
    by_cases hk : k = h
    · subst hk
      simp
    · simp [Function.update_of_ne hk, Ne.symm hk]
  · split <;> simp

theorem mem_registrations_react {r : SignalRegistration} :
    r ∈ (s.react t e).registrations ↔ r ∈ s.registrations ∨
      ∃ f found h, e = .returned f found ∧ f.purpose = .insert h ∧
        r = ⟨h, found, (f.before signalSlots).length, (f.during s.table.changes).length⟩ := by
  unfold react
  split
  · simp
  · simp
  · split <;> rename_i hp <;> simp [hp]

theorem Registered.react (hk : s.Registered k) : (s.react t e).Registered k :=
  hk.imp fun _ hr => ⟨mem_registrations_react.mpr (Or.inl hr.1), hr.2⟩

theorem mem_delivered_react (hf : f ∈ (s.react t e).delivered) :
    f ∈ s.delivered ∨ ∃ found, e = .returned f found ∧
      (f.purpose = .visit ∨ ∃ v, f.purpose = .use v) := by
  unfold react at hf
  split at hf
  · exact Or.inl hf
  · exact Or.inl hf
  · split at hf
    · exact Or.inl hf
    · exact Or.inl hf
    all_goals
      rename_i hp
      rcases List.mem_append.mp hf with hf | hf
      · exact Or.inl hf
      · rw [List.mem_singleton.mp hf]
        exact Or.inr ⟨_, rfl, by simp [hp]⟩

theorem mem_requests_react {r : StopRequest} (hr : r ∈ (s.react t e).requests) :
    r ∈ s.requests ∨ e = .used r.host ∧ r.thread = t ∧ r.life = s.life r.host := by
  unfold react at hr
  split at hr
  · exact Or.inl hr
  · rcases List.mem_append.mp hr with hr | hr
    · exact Or.inl hr
    · rw [List.mem_singleton.mp hr]
      exact Or.inr ⟨rfl, rfl, rfl⟩
  · split at hr <;> exact Or.inl hr

/-- Below what is not a handler there is nothing. -/
theorem Nested.below {below : List (Scan (Fin kMaxSignalHosts) ℕ)} (h : Nested (f :: below))
    (hp : f.purpose = .insert k ∨ f.purpose = .remove k) : below = [] := by
  rcases h.1 with hhandler | hnil
  · rcases hp with hp | hp
    · exact absurd hp (hhandler k).1
    · exact absurd hp (hhandler k).2
  · exact hnil

/-- A thread whose registration or removal returns has nothing else to do. -/
theorem Inv.stack_of_returned (hs : s.Inv) {found : Option (Fin kMaxSignalHosts)}
    (heffect : s.table.Effect t g (.returned f found))
    (hp : f.purpose = .insert k ∨ f.purpose = .remove k) : g.stack t = [] := by
  obtain ⟨below, hstack, hbelow⟩ := heffect.returned
  have hnested := hs.nested t
  rw [hstack] at hnested
  rw [hbelow, hnested.below hp]

theorem mem_of_returned {found : Option (Fin kMaxSignalHosts)}
    (heffect : s.table.Effect t g (.returned f found)) : f ∈ s.table.stack t := by
  obtain ⟨below, hstack, -⟩ := heffect.returned
  rw [hstack]
  exact List.mem_cons_self

theorem Inv.living_of_insert (hs : s.Inv) (hf : f ∈ s.table.stack u) (hp : f.purpose = .insert k) :
    s.life k = .living :=
  hs.calls k fun hnil => by
    have hu := hs.registering u f hf k hp
    rw [hnil] at hu
    exact absurd hu List.not_mem_nil

theorem Inv.nested_of_effect (hs : s.Inv) (heffect : s.table.Effect t g e) (u : ℕ) :
    Nested (g.stack u) := by
  obtain ⟨f, below, fs, hstack, hstack', hfs⟩ := heffect.stack
  rw [hstack']
  by_cases hu : u = t
  · subst hu
    rw [Function.update_self]
    have hnested := hs.nested u
    rw [hstack] at hnested
    rcases hfs with ⟨rfl, -⟩ | ⟨⟨f', rfl, hgoes⟩, -⟩
    · exact hnested.2
    · refine ⟨hnested.1.imp_left fun hhandler k => ?_, hnested.2⟩
      exact ⟨fun hp => (hhandler k).1 (hgoes.insert hp), fun hp => (hhandler k).2 (hgoes.remove hp)⟩
  · rw [Function.update_of_ne hu]
    exact hs.nested u

/-- A slot that has got a Host has got it from a registration. -/
theorem Inv.cell_of_effect (hs : s.Inv) (heffect : s.table.Effect t g e)
    {i : Fin kMaxSignalHosts} (hi : g.cell i = some k) :
    ({ s with table := g }.react t e).Registered k ∧
      ∀ u, ({ s with table := g }.react t e).life k ≠ .gone u := by
  rcases heffect.placed hi with hcell | ⟨f, hf, hp, rfl⟩
  · obtain ⟨hregistered, halive⟩ := hs.cell i k hcell
    refine ⟨Registered.react hregistered, fun u hu => ?_⟩
    rcases life_react (s := { s with table := g }) (t := t) (e := e) k with
      heq | ⟨f, found, rfl, hp, -⟩
    · exact halive u (heq.symm.trans hu)
    · -- the destructor has been through the table and has not left the Host in it
      have hf := mem_of_returned heffect
      cases found with
      | some j =>
        obtain ⟨v, hv, -⟩ := heffect.returned_some
        rw [hp] at hv
        cases hv
      | none =>
        obtain ⟨hcells, -, -, -⟩ := heffect.returned_none
        exact (hs.table t f hf).ne_of_remove hcells hp (List.mem_finRange i)
          ((hs.unregistering t f hf k hp).2 i) hcell
  · refine ⟨⟨_, mem_registrations_react.mpr (Or.inr ⟨f, some i, k, rfl, hp, rfl⟩), rfl,
      fun heq => by cases heq⟩, fun u hu => ?_⟩
    rcases life_react (s := { s with table := g }) (t := t) (e := .returned f (some i)) k with
      heq | ⟨f', found, heq, hp', -⟩
    · have hliving : s.life k = .gone u := heq.symm.trans hu
      rw [hs.living_of_insert hf hp] at hliving
      cases hliving
    · cases heq
      rw [hp] at hp'
      cases hp'

/-- Who takes a Host out of the table destroys it. -/
theorem Inv.cleared_of_effect (hs : s.Inv) (heffect : s.table.Effect t g e)
    {i : Fin kMaxSignalHosts} (hi : .cleared i k ∈ g.changes) : s.life k ≠ .living := by
  rcases heffect.changes with hchanges | ⟨c, hchanges, f, hf, j, v, hc⟩
  · rw [hchanges] at hi
    exact hs.cleared i k hi
  · rw [hchanges] at hi
    rcases List.mem_append.mp hi with hi | hi
    · exact hs.cleared i k hi
    · rw [← List.mem_singleton.mp hi] at hc
      rcases hc with ⟨hc, -⟩ | ⟨hc, hp⟩
      · cases hc
      · cases hc
        rw [(hs.unregistering t f hf k hp).1]
        exact fun heq => by cases heq

/-- A Host that is being destroyed does not come back into the table. -/
theorem Inv.since_of_effect (hs : s.Inv) (heffect : s.table.Effect t g e)
    (hf : f ∈ s.table.stack u) (hp : f.purpose = .remove k) (i : Fin kMaxSignalHosts) :
    .placed i k ∉ f.since g.changes := by
  obtain ⟨hleaving, hplaced⟩ := hs.unregistering u f hf k hp
  rcases heffect.changes with hchanges | ⟨c, hchanges, f', hf', j, v, hc⟩
  · rw [hchanges]
    exact hplaced i
  · rw [hchanges, Scan.since_append (hs.table u f hf).mark_le]
    intro hi
    rcases List.mem_append.mp hi with hi | hi
    · exact hplaced i hi
    · rw [← List.mem_singleton.mp hi] at hc
      rcases hc with ⟨hc, hp'⟩ | ⟨hc, -⟩
      · cases hc
        rw [hs.living_of_insert hf' hp'] at hleaving
        cases hleaving
      · cases hc

/-- A registration that is done has found a slot, or has seen every slot taken. -/
theorem Inv.registered_of_effect (hs : s.Inv) {found : Option (Fin kMaxSignalHosts)}
    (heffect : s.table.Effect t g (.returned f found)) (hp : f.purpose = .insert k) :
    (∀ i, found = some i → g.cell i = some k) ∧
      (found = none →
        kMaxSignalHosts ≤ (f.before signalSlots).length + (f.during g.changes).length) := by
  refine ⟨?_, ?_⟩
  · rintro i rfl
    obtain ⟨v, hv, hcell⟩ := heffect.returned_some
    rw [hp] at hv
    rwa [Purpose.insert.inj hv]
  · rintro rfl
    obtain ⟨hcells, -, -, hchanges⟩ := heffect.returned_none
    have hle := (hs.table t f (mem_of_returned heffect)).length_le hcells hp (List.nodup_finRange _)
    rw [hchanges]
    exact (List.length_finRange (n := kMaxSignalHosts)).symm.le.trans hle

/-- A handler that is done has stopped every Host that was in the table all the time. -/
theorem Inv.delivered_of_effect (hs : s.Inv) {found : Option (Fin kMaxSignalHosts)}
    (heffect : s.table.Effect t g (.returned f found))
    (hp : f.purpose = .visit ∨ ∃ v, f.purpose = .use v) {i : Fin kMaxSignalHosts}
    (hi : f.start i = some k) (hliving : s.life k = .living) : s.stopRequested k = true := by
  have hf := mem_of_returned heffect
  cases found with
  | some j =>
    obtain ⟨v, hv, -⟩ := heffect.returned_some
    rcases hp with hp | ⟨w, hp⟩
    · rw [hp] at hv
      cases hv
    · rw [hp] at hv
      cases hv
  | none =>
    obtain ⟨hcells, huse, -, -⟩ := heffect.returned_none
    have hvisit : f.purpose = .visit := hp.resolve_right fun ⟨w, hw⟩ => huse w hw
    refine hs.used t f hf k ?_
    refine (hs.table t f hf).mem_used hcells hvisit (List.mem_finRange i) hi fun hcleared => ?_
    exact hs.cleared i k (List.mem_of_mem_drop hcleared) hliving

/-- **A step of a function keeps the invariant.** -/
theorem Inv.tableStep (hs : s.Inv) (hstep : s.table.step t = some (g, e)) :
    Inv ({ s with table := g }.react t e) := by
  have heffect : s.table.Effect t g e := Table.effect_of_step hstep
  have htable : ({ s with table := g }.react t e).table = g := table_react
  have hback : ∀ k, ({ s with table := g }.react t e).life k = .living → s.life k = .living :=
    fun k hk => living_of_react (s := { s with table := g }) hk
  refine
    { table := ?_, nested := ?_, registering := ?_, calls := ?_, unregistering := ?_, cell := ?_
      cleared := ?_, away := ?_, loaded := ?_, used := ?_, placed := ?_, refused := ?_
      delivered := ?_, requests := ?_, requested := ?_ }
  · rw [htable]
    exact hs.table.step hstep
  · rw [htable]
    exact hs.nested_of_effect heffect
  · -- a registration is under way until it returns
    rw [htable]
    intro u f hf k hk
    obtain ⟨f', hf', hgoes⟩ := heffect.goes hf
    rcases (calls_react (s := { s with table := g }) (t := t) (e := e)).1
      (hs.registering u f' hf' k (hgoes.insert hk)) with hu | ⟨hu, f'', found, rfl, hp⟩
    · exact hu
    · subst hu
      rw [hs.stack_of_returned heffect (Or.inl hp)] at hf
      exact absurd hf List.not_mem_nil
  · intro k hk
    have hliving : s.life k = .living :=
      hs.calls k ((calls_react (s := { s with table := g }) (u := t)).2 hk)
    rcases life_react (s := { s with table := g }) (t := t) (e := e) k with
      heq | ⟨f, found, rfl, hp, -⟩
    · exact heq.trans hliving
    · have hleaving := (hs.unregistering t f (mem_of_returned heffect) k hp).1
      rw [hliving] at hleaving
      cases hleaving
  · rw [htable]
    intro u f hf k hk
    obtain ⟨f', hf', hgoes⟩ := heffect.goes hf
    have hp := hgoes.remove hk
    refine ⟨?_, fun i => ?_⟩
    · have hleaving := (hs.unregistering u f' hf' k hp).1
      rcases life_react (s := { s with table := g }) (t := t) (e := e) k with
        heq | ⟨f'', found, rfl, hp'', -⟩
      · exact heq.trans hleaving
      · have hleaving' := (hs.unregistering t f'' (mem_of_returned heffect) k hp'').1
        rw [hleaving] at hleaving'
        cases hleaving'
        rw [hs.stack_of_returned heffect (Or.inr hp'')] at hf
        exact absurd hf List.not_mem_nil
    · rw [hgoes.since]
      exact hs.since_of_effect heffect hf' hp i
  · rw [htable]
    exact fun i k hi => hs.cell_of_effect heffect hi
  · rw [htable]
    exact fun i k hi hk => hs.cleared_of_effect heffect hi (hback k hk)
  · -- a handler that loads a Host finds it in the table, where it is not gone
    rw [htable]
    intro u k hk f hf hp
    obtain ⟨f', hf', hgoes⟩ := heffect.goes hf
    rcases life_react (s := { s with table := g }) (t := t) (e := e) k with
      heq | ⟨f'', found, rfl, hp'', hgone⟩
    · have hgone : s.life k = .gone u := heq.symm.trans hk
      rcases hgoes.use k hp with huse | ⟨i, hi⟩
      · exact hs.away u k hgone f' hf' huse
      · exact (hs.cell i k hi).2 u hgone
    · rw [hgone] at hk
      cases hk
      rw [hs.stack_of_returned heffect (Or.inr hp'')] at hf
      exact absurd hf List.not_mem_nil
  · rw [htable]
    intro u f hf k hk
    obtain ⟨f', hf', hgoes⟩ := heffect.goes hf
    refine Registered.react ?_
    rcases hgoes.loaded k hk with hk | ⟨i, hi⟩
    · exact hs.loaded u f' hf' k hk
    · exact (hs.cell i k hi).1
  · rw [htable]
    intro u f hf k hk
    obtain ⟨f', hf', hgoes⟩ := heffect.goes hf
    exact stopRequested_react.mpr ((hgoes.used k hk).imp_left (hs.used u f' hf' k))
  · rw [htable]
    intro r hr i hi hk
    rcases mem_registrations_react.mp hr with hr | ⟨f, found, k, rfl, hp, rfl⟩
    · have hliving : s.life r.host = .living := hback r.host hk
      rcases heffect.kept (hs.placed r hr i hi hliving) with hcell | ⟨f, hf, hp⟩
      · exact hcell
      · have hleaving := (hs.unregistering t f hf r.host hp).1
        rw [hliving] at hleaving
        cases hleaving
    · exact (hs.registered_of_effect heffect hp).1 i hi
  · intro r hr hi
    rcases mem_registrations_react.mp hr with hr | ⟨f, found, k, rfl, hp, rfl⟩
    · exact hs.refused r hr hi
    · exact (hs.registered_of_effect heffect hp).2 hi
  · intro f hf i k hi hk
    have hliving : s.life k = .living := hback k hk
    refine stopRequested_react.mpr (Or.inl ?_)
    rcases mem_delivered_react hf with hf | ⟨found, rfl, hp⟩
    · exact hs.delivered f hf i k hi hliving
    · exact hs.delivered_of_effect heffect hp hi hliving
  · intro r hr u hu
    rcases mem_requests_react hr with hr | ⟨rfl, rfl, hlife⟩
    · exact hs.requests r hr u hu
    · rintro rfl
      obtain ⟨f, hf, hp⟩ := heffect.use_of_used
      exact hs.away r.thread r.host (hlife.symm.trans hu) f hf hp
  · intro k hk
    refine Registered.react ?_
    rcases stopRequested_react.mp hk with hk | rfl
    · exact hs.requested k hk
    · obtain ⟨f, hf, hp⟩ := heffect.use_of_used
      exact hs.loaded t f hf k (Scan.mem_loaded_of_use hp)

/-- **Every step keeps the table and what is known of each Host in line.** -/
theorem Inv.step {a : Act} (hs : s.Inv) (hstep : s.step a = some s') : s'.Inv := by
  cases a with
  | stopOnSignals t h =>
    obtain ⟨⟨hstack, hlife⟩, heq⟩ := Option.ite_none_right_eq_some.mp hstep
    cases heq
    exact hs.stopOnSignals hstack hlife
  | destroy t h =>
    obtain ⟨⟨hstack, hlife, hcalls⟩, heq⟩ := Option.ite_none_right_eq_some.mp hstep
    cases heq
    exact hs.destroy hstack hlife hcalls
  | signal t =>
    cases hstep
    exact hs.signal
  | step t =>
    obtain ⟨⟨g, e⟩, hg, rfl⟩ := Option.map_eq_some_iff.mp hstep
    exact hs.tableStep hg

theorem inv_of_run {acts : List Act} (hrun : Run (OfFun StopSignals.step) {} acts s) : s.Inv :=
  hrun.preserves inv_start fun _ _ _ hs hstep => hs.step hstep

end StopSignals

namespace SharedTable

open StopSignals

/-- A thread calls `stop_on_signals` on a Host, and the registration takes some steps. -/
def registering (h n : ℕ) : List Act := .stopOnSignals 0 h :: List.replicate n (.step 0)

/-- Three Hosts ask for three signals each, for each signal in a call of its own as the C interface
does, and a fourth asks after them. A signal interrupts another thread, which loads the first Host
before that is destroyed. -/
def acts : List Act :=
  registering 0 1 ++ registering 0 2 ++ registering 0 3 ++ registering 1 4 ++ registering 1 5 ++
    registering 1 6 ++ registering 2 7 ++ registering 2 8 ++ registering 2 9 ++ registering 3 9 ++
    [.signal 1, .step 1] ++ .destroy 0 0 :: List.replicate 9 (.step 0) ++
    List.replicate 14 (.step 1)

end SharedTable

end Epx
