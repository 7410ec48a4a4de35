import Epx.Lib.Locks
import Epx.Sockets

/-!
# Backpressure

A host and the clients that are connected to it, down to the buffers of their sockets. With no
timeout for writes, which is the default, a `send` blocks while the buffer is full, and the thread
keeps the mutexes that it holds: callers of a client `write_mutex` (`seal_and_send` of
`src/client.cpp`), threads of the host the `tx_mutex` of a connection, and perhaps the mutex of a
topic around it (`src/host.cpp`). Connections, callers, topics and further threads of the host are
numbered.

Nothing is said of what the frames hold. A thread of the host that has read a frame may do anything
for it, but a REKEY_ACK is sent for a REKEY only. Callbacks and handlers are taken to come back.

## Main definitions

* `ClientConn`, `HostThread`, `Traffic` — the two ends of the connections
* `Traffic.Quiet` — nobody has anything to do
* `Traffic.HeldUp` — a client does not read what the host writes to it
* `Traffic.Deadlocked` — the two ends of a connection hold each other up

## Main results

* `Traffic.Inv.step`
* `Traffic.Inv.progress` — somebody can go on, or a client does not read
* `Traffic.Deadlocked.stays` — there is no way out
* `traffic_comes_to_rest`
-/

namespace Epx

open Codec Transition
open Locks (Matched)

/-! ### The client's end -/

/-- Who holds `write_mutex`. -/
inductive WriteHolder where
  | caller (i : ℕ)
  | reader
  deriving DecidableEq

/-- A thread that calls `seal_and_send`, with the frames that are still to write: one, or a REKEY
before it. -/
inductive Caller where
  | idle
  | waits (frames : List RawFrame)
  | holds (frames : List RawFrame)
  deriving DecidableEq

/-- The reader thread. For a REKEY_ACK it takes `write_mutex`. When it leaves its loop the socket
stays open. -/
inductive ReaderPlace where
  | reads
  | waits
  | holds
  | left
  deriving DecidableEq

/-- A thread of the host. -/
inductive HostThread where
  | connection (k : ℕ)
  | other (i : ℕ)
  deriving DecidableEq

/-- A connection: its two directions, and the threads and the mutex of the client. -/
structure ClientConn where
  up : Wire := {}
  down : Wire := {}
  callers : ℕ → Caller := fun _ => .idle
  writeMutex : Option WriteHolder := none
  reader : ReaderPlace := .reads
  txMutex : Option HostThread := none

namespace ClientConn

inductive Act where
  | call (i : ℕ) (frames : List RawFrame)
  | lock (i : ℕ)
  | write (i : ℕ)
  | writeReturns
  | unlock (i : ℕ)
  | send (n : ℕ)
  /-- `recv` of the reader thread. -/
  | read (n : ℕ)
  | readerLock
  | readerUnlock
  | leave
  /-- `send` at the host's end. -/
  | sendDown (n : ℕ)

section

variable (cap : ℕ) (v2 : Bool)

def step (c : ClientConn) : Act → Option ClientConn
  | .call i frames =>
    if c.callers i = .idle then
      some { c with callers := Function.update c.callers i (.waits frames) }
    else none
  | .lock i =>
    match c.callers i, c.writeMutex with
    | .waits frames, none => some { c with
        callers := Function.update c.callers i (.holds frames)
        writeMutex := some (.caller i) }
    | _, _ => none
  | .write i =>
    match c.callers i with
    | .holds (f :: frames) => (c.up.write v2 f).map fun w => { c with
        up := w
        callers := Function.update c.callers i (.holds frames) }
    | _ => none
  | .writeReturns => c.up.writeReturns.map fun w => { c with up := w }
  | .unlock i =>
    if c.callers i = .holds [] ∧ c.up.writing = none then some { c with
      callers := Function.update c.callers i .idle
      writeMutex := none }
    else none
  | .send n => (c.up.send cap n).map fun w => { c with up := w }
  | .read n =>
    if c.reader = .reads then (c.down.recv v2 n).map fun p => { c with
      down := p.1
      reader := if p.2.any fun f => f.type = .rekeyAck then .waits else .reads }
    else none
  | .readerLock =>
    if c.reader = .waits ∧ c.writeMutex = none then
      some { c with reader := .holds, writeMutex := some .reader }
    else none
  | .readerUnlock =>
    if c.reader = .holds then some { c with reader := .reads, writeMutex := none } else none
  | .leave => if c.reader = .reads then some { c with reader := .left } else none
  | .sendDown n => (c.down.send cap n).map fun w => { c with down := w }

def Step : ClientConn → Act → ClientConn → Prop := OfFun (step cap v2)

end

end ClientConn

/-- The frames that a caller has still to write. -/
def Caller.frames : Caller → List RawFrame
  | .idle => []
  | .waits frames | .holds frames => frames

/-- Nothing has failed on a wire. -/
structure Wire.Up (cap : ℕ) (withEpoch : Bool) (w : Wire) : Prop where
  inv : w.Inv cap withEpoch
  sound : w.Sound withEpoch

theorem Wire.Up.step {cap : ℕ} {withEpoch : Bool} {w w' : Wire} (h : w.Up cap withEpoch)
    {a : Wire.Act} (hgood : a.Good withEpoch) (hstep : Wire.Step cap withEpoch w a w') :
    w'.Up cap withEpoch :=
  ⟨h.inv.step hstep, h.sound.step h.inv hgood hstep⟩

theorem Wire.Up.recv {cap : ℕ} {withEpoch : Bool} {w w' : Wire} (h : w.Up cap withEpoch)
    {n : ℕ} {o : Option RawFrame} (hrecv : w.recv withEpoch n = some (w', o)) :
    w'.Up cap withEpoch :=
  h.step (a := .recv n) trivial (Option.map_eq_some_iff.mpr ⟨_, hrecv, rfl⟩)

/-- What has been read was written. -/
theorem Wire.Up.read {cap : ℕ} {withEpoch : Bool} {w : Wire} (h : w.Up cap withEpoch) :
    ∀ f ∈ w.frames, f ∈ w.written := by
  intro f hf
  obtain ⟨zs, hzs, -⟩ := Wire.rest h.inv h.sound.fits h.sound.whole
  rw [hzs]
  exact List.mem_append_left _ hf

theorem Wire.writing_of_send {cap : ℕ} {w w' : Wire} {n : ℕ} (h : w.send cap n = some w') :
    w.writing ≠ none ∧ w'.writing ≠ none := by
  obtain ⟨f, sent, data, later, hwriting, -, -, -, rfl⟩ := send_eq_some.mp h
  exact ⟨by simp [hwriting], by simp⟩

theorem Wire.writing_of_recv {withEpoch : Bool} {w w' : Wire} {n : ℕ} {o : Option RawFrame}
    (h : w.recv withEpoch n = some (w', o)) : w'.writing = w.writing := by
  obtain ⟨-, -, rfl⟩ := recv_eq_some.mp h
  rfl

namespace ClientConn

/-- Each mutex is held by the thread that is in it, and frames are written under a mutex. -/
structure Inv (cap : ℕ) (v2 : Bool) (c : ClientConn) : Prop where
  up : c.up.Up cap v2
  down : c.down.Up cap v2
  caller : ∀ i, c.writeMutex = some (.caller i) ↔ ∃ frames, c.callers i = .holds frames
  reader : c.writeMutex = some .reader ↔ c.reader = .holds
  writing : c.up.writing ≠ none → ∃ i, c.writeMutex = some (.caller i)
  tx : c.down.writing ≠ none ↔ c.txMutex ≠ none
  fits : ∀ i, ∀ f ∈ (c.callers i).frames, Fits v2 f

section

variable {cap : ℕ} {v2 : Bool} {c c' : ClientConn} {i : ℕ}

/-- A caller goes on under the mutex as before. -/
theorem Inv.withCaller (h : c.Inv cap v2) {x : Caller}
    (hx : (∃ frames, x = .holds frames) ↔ ∃ frames, c.callers i = .holds frames)
    (hfits : ∀ f ∈ x.frames, Fits v2 f) :
    Inv cap v2 { c with callers := Function.update c.callers i x } where
  up := h.up
  down := h.down
  caller j := by
    change c.writeMutex = some (.caller j) ↔
      ∃ frames, Function.update c.callers i x j = .holds frames
    by_cases hj : j = i
    · subst hj
      rw [Function.update_self, hx]
      exact h.caller j
    · rw [Function.update_of_ne hj]
      exact h.caller j
  reader := h.reader
  writing := h.writing
  tx := h.tx
  fits j := by
    change ∀ f ∈ (Function.update c.callers i x j).frames, Fits v2 f
    by_cases hj : j = i
    · subst hj
      rwa [Function.update_self]
    · rw [Function.update_of_ne hj]
      exact h.fits j

/-- A mutex that is free is taken by a caller, or given back by the one that holds it. -/
theorem Inv.withMutex (h : c.Inv cap v2) {x : Caller} {m : Option WriteHolder}
    (hbefore : c.writeMutex = none ∨ c.writeMutex = some (.caller i))
    (hafter : (m = some (.caller i) ∧ ∃ frames, x = .holds frames) ∨ (m = none ∧ x = .idle))
    (hwriting : c.up.writing = none) (hfits : ∀ f ∈ x.frames, Fits v2 f) :
    Inv cap v2 { c with callers := Function.update c.callers i x, writeMutex := m } where
  up := h.up
  down := h.down
  caller j := by
    change m = some (.caller j) ↔ ∃ frames, Function.update c.callers i x j = .holds frames
    by_cases hj : j = i
    · subst hj
      rw [Function.update_self]
      rcases hafter with ⟨rfl, hx⟩ | ⟨rfl, rfl⟩
      · exact iff_of_true rfl hx
      · exact iff_of_false (by simp) (by simp)
    · rw [Function.update_of_ne hj, ← h.caller j]
      refine iff_of_false ?_ ?_
      · rcases hafter with ⟨rfl, -⟩ | ⟨rfl, -⟩
        · simpa using fun heq => hj heq.symm
        · simp
      · rcases hbefore with hm | hm <;> rw [hm]
        · simp
        · simpa using fun heq => hj heq.symm
  reader := by
    change m = some .reader ↔ c.reader = .holds
    rw [← h.reader]
    refine iff_of_false ?_ ?_
    · rcases hafter with ⟨rfl, -⟩ | ⟨rfl, -⟩ <;> simp
    · rcases hbefore with hm | hm <;> rw [hm] <;> simp
  writing hne := absurd hwriting hne
  tx := h.tx
  fits j := by
    change ∀ f ∈ (Function.update c.callers i x j).frames, Fits v2 f
    by_cases hj : j = i
    · subst hj
      rwa [Function.update_self]
    · rw [Function.update_of_ne hj]
      exact h.fits j

/-- The reader takes the mutex, or gives it back. -/
theorem Inv.withReader (h : c.Inv cap v2) {x : ReaderPlace} {m : Option WriteHolder}
    (hbefore : ∀ i, c.writeMutex ≠ some (.caller i)) (hafter : ∀ i, m ≠ some (.caller i))
    (hx : m = some .reader ↔ x = .holds) :
    Inv cap v2 { c with reader := x, writeMutex := m } where
  up := h.up
  down := h.down
  caller j := iff_of_false (hafter j) fun hj => hbefore j ((h.caller j).mpr hj)
  reader := hx
  writing hne := by
    obtain ⟨i, hi⟩ := h.writing hne
    exact absurd hi (hbefore i)
  tx := h.tx
  fits := h.fits

theorem not_caller_of_none {m : Option WriteHolder} (h : m = none) (i : ℕ) :
    m ≠ some (.caller i) := by
  rw [h]
  exact fun heq => by cases heq

/-- **Every step of the client** keeps the invariant, and so does the kernel. -/
theorem Inv.step (h : c.Inv cap v2) {a : Act} (hstep : Step cap v2 c a c')
    (hfits : ∀ i frames, a = .call i frames → ∀ f ∈ frames, Fits v2 f) : c'.Inv cap v2 := by
  have hfun : c.step cap v2 a = some c' := hstep
  cases a with
  | call i frames =>
    obtain ⟨hidle, heq⟩ := Option.ite_none_right_eq_some.mp hfun
    cases heq
    exact h.withCaller (iff_of_false (by simp) (by simp [hidle])) (hfits i frames rfl)
  | lock i =>
    simp only [ClientConn.step] at hfun
    split at hfun
    · next frames hcaller hmutex =>
      cases hfun
      refine h.withMutex (Or.inl hmutex) (Or.inl ⟨rfl, frames, rfl⟩) ?_ ?_
      · by_contra hne
        obtain ⟨j, hj⟩ := h.writing hne
        exact not_caller_of_none hmutex j hj
      · have hframes := h.fits i
        rw [hcaller] at hframes
        exact hframes
    · cases hfun
  | write i =>
    simp only [ClientConn.step] at hfun
    split at hfun
    · next f frames hcaller =>
      obtain ⟨w, hw, rfl⟩ := Option.map_eq_some_iff.mp hfun
      have hframes := h.fits i
      rw [hcaller] at hframes
      obtain ⟨hf, hrest⟩ := List.forall_mem_cons.mp hframes
      have hmutex := (h.caller i).mpr ⟨_, hcaller⟩
      have hnew := h.withCaller (i := i) (x := .holds frames)
        (iff_of_true ⟨_, rfl⟩ ⟨_, hcaller⟩) hrest
      exact { hnew with
        up := h.up.step (a := .write f) hf hw
        writing := fun _ => ⟨i, hmutex⟩ }
    · cases hfun
  | writeReturns =>
    obtain ⟨w, hw, rfl⟩ := Option.map_eq_some_iff.mp hfun
    obtain ⟨f, sent, hwriting, rfl⟩ := Wire.writeReturns_eq_some.mp hw
    exact { h with
      up := h.up.step (a := .writeReturns) trivial hw
      writing := fun hne => absurd rfl hne }
  | unlock i =>
    obtain ⟨⟨hcaller, hwriting⟩, heq⟩ := Option.ite_none_right_eq_some.mp hfun
    cases heq
    exact h.withMutex (Or.inr ((h.caller i).mpr ⟨_, hcaller⟩)) (Or.inr ⟨rfl, rfl⟩) hwriting
      (by simp [Caller.frames])
  | send n =>
    obtain ⟨w, hw, rfl⟩ := Option.map_eq_some_iff.mp hfun
    exact { h with
      up := h.up.step (a := .send n) trivial hw
      writing := fun _ => h.writing (Wire.writing_of_send hw).1 }
  | read n =>
    obtain ⟨hreads, hfun⟩ := Option.ite_none_right_eq_some.mp hfun
    obtain ⟨⟨w, o⟩, hw, rfl⟩ := Option.map_eq_some_iff.mp hfun
    refine { h with down := h.down.recv hw, reader := ?_, tx := ?_ }
    · dsimp only
      rw [h.reader, hreads]
      refine iff_of_false (by simp) ?_
      split <;> simp
    · dsimp only
      rw [Wire.writing_of_recv hw]
      exact h.tx
  | readerLock =>
    obtain ⟨⟨-, hmutex⟩, heq⟩ := Option.ite_none_right_eq_some.mp hfun
    cases heq
    exact h.withReader (not_caller_of_none hmutex) (by simp) (by simp)
  | readerUnlock =>
    obtain ⟨hholds, heq⟩ := Option.ite_none_right_eq_some.mp hfun
    cases heq
    exact h.withReader (by simp [h.reader.mpr hholds]) (by simp) (by simp)
  | leave =>
    obtain ⟨hreads, heq⟩ := Option.ite_none_right_eq_some.mp hfun
    cases heq
    refine { h with reader := ?_ }
    dsimp only
    rw [h.reader, hreads]
    exact iff_of_false (by simp) (by simp)
  | sendDown n =>
    obtain ⟨w, hw, rfl⟩ := Option.map_eq_some_iff.mp hfun
    obtain ⟨hbefore, hafter⟩ := Wire.writing_of_send hw
    exact { h with
      down := h.down.step (a := .send n) trivial hw
      tx := iff_of_true hafter (h.tx.mp hbefore) }

theorem txMutex_of_step {a : Act} (hstep : Step cap v2 c a c') : c'.txMutex = c.txMutex := by
  have hfun : c.step cap v2 a = some c' := hstep
  cases a with
  | call _ _ | unlock _ | readerLock | readerUnlock | leave =>
    obtain ⟨-, heq⟩ := Option.ite_none_right_eq_some.mp hfun
    cases heq
    rfl
  | lock i =>
    simp only [ClientConn.step] at hfun
    split at hfun
    · cases hfun
      rfl
    · cases hfun
  | write i =>
    simp only [ClientConn.step] at hfun
    split at hfun
    · obtain ⟨w, -, rfl⟩ := Option.map_eq_some_iff.mp hfun
      rfl
    · cases hfun
  | writeReturns | send _ | sendDown _ =>
    obtain ⟨w, -, rfl⟩ := Option.map_eq_some_iff.mp hfun
    rfl
  | read n =>
    obtain ⟨-, hfun⟩ := Option.ite_none_right_eq_some.mp hfun
    obtain ⟨p, -, rfl⟩ := Option.map_eq_some_iff.mp hfun
    rfl

/-- Where the frames come from: callers are called with them, and the host owes them. -/
structure Traces (called : RawFrame → Prop) (owed : RawFrame → Prop) (c c' : ClientConn) :
    Prop where
  read : ∀ f ∈ c.up.frames, f ∈ c'.up.frames
  sent : ∀ f ∈ c'.down.written, f ∈ c.down.written ∨ owed f
  written : ∀ f ∈ c'.up.written, f ∈ c.up.written ∨ ∃ i, f ∈ (c.callers i).frames
  callers : ∀ i, ∀ f ∈ (c'.callers i).frames, f ∈ (c.callers i).frames ∨ called f
  reader : c'.reader = .waits ∨ c'.reader = .holds → (c.reader = .waits ∨ c.reader = .holds) ∨
    ∃ f ∈ c'.down.frames, f.type = .rekeyAck

theorem Traces.refl (called owed : RawFrame → Prop) (c : ClientConn) : Traces called owed c c :=
  ⟨fun _ hf => hf, fun _ hf => Or.inl hf, fun _ hf => Or.inl hf, fun _ _ hf => Or.inl hf,
    fun h => Or.inl h⟩

theorem Traces.mono {called called' owed : RawFrame → Prop} (h : Traces called owed c c')
    (hle : ∀ f, called f → called' f) : Traces called' owed c c' :=
  { h with callers := fun i f hf => (h.callers i f hf).imp_right (hle f) }

/-- A caller has no other frames than before, or those that it was called with. -/
theorem frames_update {x : Caller} {called : RawFrame → Prop}
    (hx : ∀ f ∈ x.frames, f ∈ (c.callers i).frames ∨ called f) (j : ℕ) :
    ∀ f ∈ (Function.update c.callers i x j).frames, f ∈ (c.callers j).frames ∨ called f := by
  by_cases hj : j = i
  · subst hj
    rwa [Function.update_self]
  · rw [Function.update_of_ne hj]
    exact fun f hf => Or.inl hf

/-- A call of `seal_and_send` with a frame. -/
def Act.Calls (a : Act) (f : RawFrame) : Prop := ∃ i frames, a = .call i frames ∧ f ∈ frames

theorem traces_of_step {a : Act} (hstep : Step cap v2 c a c') (owed : RawFrame → Prop) :
    Traces a.Calls owed c c' := by
  have hfun : c.step cap v2 a = some c' := hstep
  have hsame := Traces.refl a.Calls owed c
  cases a with
  | call i frames =>
    obtain ⟨-, heq⟩ := Option.ite_none_right_eq_some.mp hfun
    cases heq
    exact { hsame with callers := frames_update fun f hf => Or.inr ⟨i, frames, rfl, hf⟩ }
  | lock i =>
    simp only [ClientConn.step] at hfun
    split at hfun
    · next frames hcaller _ =>
      cases hfun
      refine { hsame with callers := frames_update fun f hf => Or.inl ?_ }
      rw [hcaller]
      exact hf
    · cases hfun
  | write i =>
    simp only [ClientConn.step] at hfun
    split at hfun
    · next g frames hcaller =>
      obtain ⟨w, hw, rfl⟩ := Option.map_eq_some_iff.mp hfun
      obtain ⟨hnone, rfl⟩ := Wire.write_eq_some.mp hw
      refine { hsame with
        written := fun f hf => ?_
        callers := frames_update fun f hf => Or.inl ?_ }
      · rcases List.mem_append.mp hf with hf | hf
        · exact Or.inl (List.mem_append_left _ hf)
        · refine Or.inr ⟨i, ?_⟩
          rw [hcaller, List.mem_singleton.mp hf]
          exact List.mem_cons_self
      · rw [hcaller]
        exact List.mem_cons_of_mem _ hf
    · cases hfun
  | writeReturns =>
    obtain ⟨w, hw, rfl⟩ := Option.map_eq_some_iff.mp hfun
    have hstep : Wire.Step cap v2 c.up .writeReturns w := hw
    have hwritten := Wire.written_of_step (a := .writeReturns) trivial hstep
    obtain ⟨f, sent, -, rfl⟩ := Wire.writeReturns_eq_some.mp hw
    refine { hsame with written := fun f hf => Or.inl ?_ }
    rwa [← hwritten]
  | unlock i =>
    obtain ⟨-, heq⟩ := Option.ite_none_right_eq_some.mp hfun
    cases heq
    exact { hsame with callers := frames_update fun f hf => absurd hf List.not_mem_nil }
  | send n =>
    obtain ⟨w, hw, rfl⟩ := Option.map_eq_some_iff.mp hfun
    have hstep : Wire.Step cap v2 c.up (.send n) w := hw
    have hwritten := Wire.written_of_step (a := .send n) trivial hstep
    obtain ⟨f, sent, data, later, -, -, -, -, rfl⟩ := Wire.send_eq_some.mp hw
    refine { hsame with written := fun f hf => Or.inl ?_ }
    rwa [← hwritten]
  | read n =>
    obtain ⟨hreads, hfun⟩ := Option.ite_none_right_eq_some.mp hfun
    obtain ⟨⟨w, o⟩, hw, rfl⟩ := Option.map_eq_some_iff.mp hfun
    obtain ⟨-, -, rfl⟩ := Wire.recv_eq_some.mp hw
    refine { hsame with sent := fun f hf => Or.inl hf, reader := fun h => Or.inr ?_ }
    dsimp only at h
    split at h
    · next hany =>
      obtain ⟨f, rfl, hf⟩ := (Option.any_eq_true _ _).mp hany
      exact ⟨f, by simp, of_decide_eq_true hf⟩
    · simp at h
  | readerLock =>
    obtain ⟨⟨hwaits, -⟩, heq⟩ := Option.ite_none_right_eq_some.mp hfun
    cases heq
    exact { hsame with reader := fun _ => Or.inl (Or.inl hwaits) }
  | readerUnlock | leave =>
    obtain ⟨-, heq⟩ := Option.ite_none_right_eq_some.mp hfun
    cases heq
    exact { hsame with reader := fun h => (by simp at h) }
  | sendDown n =>
    obtain ⟨w, hw, rfl⟩ := Option.map_eq_some_iff.mp hfun
    have hstep : Wire.Step cap v2 c.down (.send n) w := hw
    have hwritten := Wire.written_of_step (a := .send n) trivial hstep
    obtain ⟨f, sent, data, later, -, -, -, -, rfl⟩ := Wire.send_eq_some.mp hw
    refine { hsame with sent := fun f hf => Or.inl ?_, reader := fun h => Or.inl h }
    rwa [← hwritten]

/-- **A client whose reader and caller wait** for one another, and for the host, does nothing but
take further calls. -/
theorem stays_of_step (hreader : c.reader = .waits) (hmutex : c.writeMutex = some (.caller i))
    (hup : c.up.Blocked cap) (hdown : c.down.Blocked cap) {a : Act} (hstep : Step cap v2 c a c') :
    ∃ callers, c' = { c with callers := callers } := by
  have hfun : c.step cap v2 a = some c' := hstep
  obtain ⟨⟨f, sent, data, later, hwriting⟩, hfull⟩ := hup
  obtain ⟨⟨g, sent', data', later', hwriting'⟩, hfull'⟩ := hdown
  cases a with
  | call j frames =>
    obtain ⟨-, heq⟩ := Option.ite_none_right_eq_some.mp hfun
    cases heq
    exact ⟨_, rfl⟩
  | lock j =>
    simp only [ClientConn.step] at hfun
    split at hfun
    · next frames _ hnone =>
      rw [hmutex] at hnone
      cases hnone
    · cases hfun
  | write j =>
    simp only [ClientConn.step] at hfun
    split at hfun
    · obtain ⟨w, hw, -⟩ := Option.map_eq_some_iff.mp hfun
      have hnone := (Wire.write_eq_some.mp hw).1
      rw [hwriting] at hnone
      cases hnone
    · cases hfun
  | writeReturns =>
    obtain ⟨w, hw, -⟩ := Option.map_eq_some_iff.mp hfun
    obtain ⟨f', sent'', heq, -⟩ := Wire.writeReturns_eq_some.mp hw
    rw [hwriting] at heq
    cases heq
  | unlock j =>
    obtain ⟨⟨-, hnone⟩, -⟩ := Option.ite_none_right_eq_some.mp hfun
    rw [hwriting] at hnone
    cases hnone
  | send n =>
    obtain ⟨w, hw, -⟩ := Option.map_eq_some_iff.mp hfun
    obtain ⟨-, -, -, -, -, hpos, -, hroom, -⟩ := Wire.send_eq_some.mp hw
    omega
  | read n | leave =>
    obtain ⟨hreads, -⟩ := Option.ite_none_right_eq_some.mp hfun
    rw [hreader] at hreads
    cases hreads
  | readerLock =>
    obtain ⟨⟨-, hnone⟩, -⟩ := Option.ite_none_right_eq_some.mp hfun
    rw [hmutex] at hnone
    cases hnone
  | readerUnlock =>
    obtain ⟨hholds, -⟩ := Option.ite_none_right_eq_some.mp hfun
    rw [hreader] at hholds
    cases hholds
  | sendDown n =>
    obtain ⟨w, hw, -⟩ := Option.map_eq_some_iff.mp hfun
    obtain ⟨-, -, -, -, -, hpos, -, hroom, -⟩ := Wire.send_eq_some.mp hw
    omega

end

end ClientConn

/-! ### The host's end -/

/-- What a thread of the host does with a connection: one frame under `tx_mutex`, or any number of
them, for the subscribers of a topic, under the mutex of the topic. -/
inductive HostOp where
  | send (k : ℕ) (f : RawFrame)
  | topic (t : ℕ) (sends : List (ℕ × RawFrame))

/-- The frames of an operation, with their connections. -/
def HostOp.sends : HostOp → List (ℕ × RawFrame)
  | send k f => [(k, f)]
  | topic _ sends => sends

/-- Where a thread of the host is. -/
inductive OpPhase where
  | free
  /-- At the mutex of a topic. -/
  | waits (t : ℕ) (sends : List (ℕ × RawFrame))
  /-- Before the next of these frames, or at the end. The mutex of a topic may be held. -/
  | sends (topic : Option ℕ) (sends : List (ℕ × RawFrame))
  /-- In `write_frame`, under the `tx_mutex` of connection `k`. -/
  | writes (topic : Option ℕ) (k : ℕ) (sends : List (ℕ × RawFrame))
  deriving DecidableEq

namespace OpPhase

/-- The topic whose mutex is held. -/
def topic : OpPhase → Option ℕ
  | free | waits _ _ => none
  | sends topic _ | writes topic _ _ => topic

/-- The connection whose `tx_mutex` is held. -/
def tx : OpPhase → Option ℕ
  | free | waits _ _ | sends _ _ => none
  | writes _ k _ => some k

/-- The frames that are still to send. -/
def todo : OpPhase → List (ℕ × RawFrame)
  | free => []
  | waits _ l | sends _ l | writes _ _ l => l

end OpPhase

/-- A thread of the host, and what it does next. -/
structure HostThreadState where
  phase : OpPhase := .free
  ops : List HostOp := []

/-- The frames that a thread has still to send. -/
def HostThreadState.owed (s : HostThreadState) : List (ℕ × RawFrame) :=
  s.phase.todo ++ s.ops.flatMap HostOp.sends

structure Traffic where
  conns : ℕ → ClientConn := fun _ => {}
  threads : HostThread → HostThreadState := fun _ => {}
  topicMutex : ℕ → Option HostThread := fun _ => none

namespace Traffic

inductive Act where
  | client (k : ℕ) (a : ClientConn.Act)
  /-- A thread of the application publishes, or the host sends a heartbeat or stops. -/
  | begin (i : ℕ) (ops : List HostOp)
  /-- `recv` of the thread of a connection, and what it does for the frame, if there is one. -/
  | serve (k n : ℕ) (ops : List HostOp)
  | next (u : HostThread)
  | lockTopic (u : HostThread)
  | unlockTopic (u : HostThread)
  | lockTx (u : HostThread)
  | unlockTx (u : HostThread)

/-- A thread is somewhere else. -/
def withPhase (t : Traffic) (u : HostThread) (phase : OpPhase) : Traffic :=
  { t with threads := Function.update t.threads u { t.threads u with phase := phase } }

def withConn (t : Traffic) (k : ℕ) (c : ClientConn) : Traffic :=
  { t with conns := Function.update t.conns k c }

section

variable (cap : ℕ) (v2 : ℕ → Bool)

def step (t : Traffic) : Act → Option Traffic
  | .client k a => ((t.conns k).step cap (v2 k) a).map (t.withConn k)
  | .begin i ops =>
    match t.threads (.other i) with
    | ⟨.free, []⟩ =>
      some { t with threads := Function.update t.threads (.other i) { ops := ops } }
    | _ => none
  | .serve k n ops =>
    match t.threads (.connection k) with
    | ⟨.free, []⟩ => ((t.conns k).up.recv (v2 k) n).map fun p =>
      { t.withConn k { t.conns k with up := p.1 } with
        threads := Function.update t.threads (.connection k)
          { ops := if p.2.isSome then ops else [] } }
    | _ => none
  | .next u =>
    match t.threads u with
    | ⟨.free, .send k f :: ops⟩ => some { t with
        threads := Function.update t.threads u { phase := .sends none [(k, f)], ops := ops } }
    | ⟨.free, .topic m sends :: ops⟩ => some { t with
        threads := Function.update t.threads u { phase := .waits m sends, ops := ops } }
    | _ => none
  | .lockTopic u =>
    match (t.threads u).phase with
    | .waits m sends =>
      if t.topicMutex m = none then
        some { t.withPhase u (.sends (some m) sends) with
          topicMutex := Function.update t.topicMutex m (some u) }
      else none
    | _ => none
  | .unlockTopic u =>
    match (t.threads u).phase with
    | .sends none [] => some (t.withPhase u .free)
    | .sends (some m) [] => some { t.withPhase u .free with
        topicMutex := Function.update t.topicMutex m none }
    | _ => none
  | .lockTx u =>
    match (t.threads u).phase with
    | .sends topic ((k, f) :: sends) =>
      if (t.conns k).txMutex = none then
        ((t.conns k).down.write (v2 k) f).map fun w =>
          (t.withConn k { t.conns k with down := w, txMutex := some u }).withPhase u
            (.writes topic k sends)
      else none
    | _ => none
  | .unlockTx u =>
    match (t.threads u).phase with
    | .writes topic k sends => (t.conns k).down.writeReturns.map fun w =>
        (t.withConn k { t.conns k with down := w, txMutex := none }).withPhase u
          (.sends topic sends)
    | _ => none

/-- The frames fit, and a REKEY_ACK is sent for a REKEY, by the thread of the connection. -/
def Act.Fair (t : Traffic) : Act → Prop
  | .client k (.call _ frames) => ∀ f ∈ frames, Fits (v2 k) f
  | .client _ _ => True
  | .begin _ ops => ∀ p ∈ ops.flatMap HostOp.sends, Fits (v2 p.1) p.2 ∧ p.2.type ≠ .rekeyAck
  | .serve k n ops => ∀ w f, (t.conns k).up.recv (v2 k) n = some (w, some f) →
      ∀ p ∈ ops.flatMap HostOp.sends, Fits (v2 p.1) p.2 ∧
        (p.2.type = .rekeyAck → p.1 = k ∧ f.type = .rekey)
  | .next _ | .lockTopic _ | .unlockTopic _ | .lockTx _ | .unlockTx _ => True

def Step : Traffic → Act → Traffic → Prop :=
  Guarded (OfFun (step cap v2)) fun t a => a.Fair v2 t

end

end Traffic

namespace HostThreadState

def topic (s : HostThreadState) : Option ℕ := s.phase.topic

def tx (s : HostThreadState) : Option ℕ := s.phase.tx

end HostThreadState

namespace Traffic

/-- Each mutex is held by the thread that is in it, and nothing has failed. -/
structure Inv (cap : ℕ) (v2 : ℕ → Bool) (t : Traffic) : Prop where
  conns : ∀ k, (t.conns k).Inv cap (v2 k)
  tx : Matched (ClientConn.txMutex ∘ t.conns) (HostThreadState.tx ∘ t.threads)
  topic : Matched t.topicMutex (HostThreadState.topic ∘ t.threads)
  fits : ∀ u, ∀ p ∈ (t.threads u).owed, Fits (v2 p.1) p.2

section

variable {cap : ℕ} {v2 : ℕ → Bool} {t t' : Traffic} {k : ℕ} {u : HostThread}

/-- What does not tell the old value from the new one does not see the change. -/
theorem comp_update_of_eq {ι α β : Type*} [DecidableEq ι] {f : α → β} {g : ι → α} {i : ι} {x : α}
    (h : f x = f (g i)) : f ∘ Function.update g i x = f ∘ g := by
  rw [Function.comp_update, h]
  exact Function.update_eq_self i (f ∘ g)

/-- A connection goes on, and its `tx_mutex` stays as it is. -/
theorem Inv.withConn (h : t.Inv cap v2) {c : ClientConn} (hc : c.Inv cap (v2 k))
    (htx : c.txMutex = (t.conns k).txMutex) : Inv cap v2 (t.withConn k c) where
  conns k' := by
    change ClientConn.Inv cap _ (Function.update t.conns k c k')
    by_cases hk : k' = k
    · subst hk
      rwa [Function.update_self]
    · rw [Function.update_of_ne hk]
      exact h.conns k'
  tx := by
    change Matched (ClientConn.txMutex ∘ Function.update t.conns k c) _
    rw [comp_update_of_eq htx]
    exact h.tx
  topic := h.topic
  fits := h.fits

/-- What a thread still has to send fits. -/
theorem fits_update (h : t.Inv cap v2) {s : HostThreadState}
    (hs : ∀ p ∈ s.owed, Fits (v2 p.1) p.2) (v : HostThread) :
    ∀ p ∈ (Function.update t.threads u s v).owed, Fits (v2 p.1) p.2 := by
  by_cases hv : v = u
  · subst hv
    rwa [Function.update_self]
  · rw [Function.update_of_ne hv]
    exact h.fits v

/-- A thread goes on, and holds what it held. -/
theorem Inv.withThread (h : t.Inv cap v2) {s : HostThreadState} (htx : s.tx = (t.threads u).tx)
    (htopic : s.topic = (t.threads u).topic) (hs : ∀ p ∈ s.owed, Fits (v2 p.1) p.2) :
    Inv cap v2 { t with threads := Function.update t.threads u s } where
  conns := h.conns
  tx := by
    change Matched _ (HostThreadState.tx ∘ Function.update t.threads u s)
    rw [comp_update_of_eq htx]
    exact h.tx
  topic := by
    change Matched _ (HostThreadState.topic ∘ Function.update t.threads u s)
    rw [comp_update_of_eq htopic]
    exact h.topic
  fits := fits_update h hs

/-- A thread is somewhere else, and owes no more than before. -/
theorem fits_phase (h : t.Inv cap v2) {phase : OpPhase}
    (htodo : ∀ p ∈ phase.todo, p ∈ (t.threads u).phase.todo) :
    ∀ p ∈ HostThreadState.owed { t.threads u with phase := phase }, Fits (v2 p.1) p.2 := by
  intro p hp
  refine h.fits u p ?_
  rcases List.mem_append.mp hp with hp | hp
  · exact List.mem_append_left _ (htodo p hp)
  · exact List.mem_append_right _ hp

/-- A thread takes the mutex of a topic, or gives it back. -/
theorem Inv.withTopic (h : t.Inv cap v2) {phase : OpPhase} {owner : ℕ → Option HostThread}
    (htx : phase.tx = (t.threads u).phase.tx)
    (htopic : Matched owner (Function.update (HostThreadState.topic ∘ t.threads) u phase.topic))
    (htodo : ∀ p ∈ phase.todo, p ∈ (t.threads u).phase.todo) :
    Inv cap v2 { t.withPhase u phase with topicMutex := owner } where
  conns := h.conns
  tx := by
    have hsame : HostThreadState.tx { t.threads u with phase := phase } = (t.threads u).tx := htx
    change Matched _ (HostThreadState.tx ∘
      Function.update t.threads u { t.threads u with phase := phase })
    rw [comp_update_of_eq hsame]
    exact h.tx
  topic := by
    change Matched _ (HostThreadState.topic ∘ Function.update t.threads u _)
    rw [Function.comp_update]
    exact htopic
  fits := fits_update h (fits_phase h htodo)

/-- A thread takes the `tx_mutex` of a connection, or gives it back. -/
theorem Inv.withTx (h : t.Inv cap v2) {c : ClientConn} {phase : OpPhase}
    (hc : c.Inv cap (v2 k))
    (htx : Matched (Function.update (ClientConn.txMutex ∘ t.conns) k c.txMutex)
      (Function.update (HostThreadState.tx ∘ t.threads) u phase.tx))
    (htopic : phase.topic = (t.threads u).phase.topic)
    (htodo : ∀ p ∈ phase.todo, p ∈ (t.threads u).phase.todo) :
    Inv cap v2 ((t.withConn k c).withPhase u phase) where
  conns k' := by
    change ClientConn.Inv cap _ (Function.update t.conns k c k')
    by_cases hk : k' = k
    · subst hk
      rwa [Function.update_self]
    · rw [Function.update_of_ne hk]
      exact h.conns k'
  tx := by
    change Matched (ClientConn.txMutex ∘ Function.update t.conns k c)
      (HostThreadState.tx ∘ Function.update t.threads u _)
    rw [Function.comp_update, Function.comp_update]
    exact htx
  topic := by
    have hsame : HostThreadState.topic { t.threads u with phase := phase }
        = (t.threads u).topic := htopic
    change Matched _ (HostThreadState.topic ∘
      Function.update t.threads u { t.threads u with phase := phase })
    rw [comp_update_of_eq hsame]
    exact h.topic
  fits := fits_update h (fits_phase h htodo)

/-- What a thread is to do for a frame, or by itself. -/
theorem Inv.withOps (h : t.Inv cap v2) (hfree : (t.threads u).phase = .free) {ops : List HostOp}
    (hops : ∀ p ∈ ops.flatMap HostOp.sends, Fits (v2 p.1) p.2) :
    Inv cap v2 { t with threads := Function.update t.threads u { ops := ops } } := by
  refine h.withThread ?_ ?_ hops
  · rw [HostThreadState.tx, HostThreadState.tx, hfree]
  · rw [HostThreadState.topic, HostThreadState.topic, hfree]

/-- The next operation of a thread. -/
theorem Inv.withNext (h : t.Inv cap v2) {op : HostOp} {ops : List HostOp}
    (hthread : t.threads u = ⟨.free, op :: ops⟩) {phase : OpPhase} (htx : phase.tx = none)
    (htopic : phase.topic = none) (htodo : phase.todo = op.sends) :
    Inv cap v2 { t with threads := Function.update t.threads u ⟨phase, ops⟩ } := by
  refine h.withThread ?_ ?_ fun p hp => h.fits u p ?_
  · rw [hthread]
    exact htx
  · rw [hthread]
    exact htopic
  · rw [hthread]
    rwa [HostThreadState.owed, htodo] at hp

/-- **Every step keeps the invariant.** -/
theorem Inv.step (h : t.Inv cap v2) {a : Act} (hstep : Step cap v2 t a t') : t'.Inv cap v2 := by
  obtain ⟨hfun, hfair⟩ := hstep
  have hfun : t.step cap v2 a = some t' := hfun
  cases a with
  | client k a =>
    obtain ⟨c, hc, rfl⟩ := Option.map_eq_some_iff.mp hfun
    refine h.withConn ((h.conns k).step hc ?_) (ClientConn.txMutex_of_step hc)
    rintro i frames rfl
    exact hfair
  | begin i ops =>
    simp only [Traffic.step] at hfun
    split at hfun
    · next hthread =>
      cases hfun
      exact h.withOps (by rw [hthread]) fun p hp => (hfair p hp).1
    · cases hfun
  | serve k n ops =>
    simp only [Traffic.step] at hfun
    split at hfun
    · next hthread =>
      obtain ⟨⟨w, o⟩, hw, rfl⟩ := Option.map_eq_some_iff.mp hfun
      have hconn := h.conns k
      have hnew : Inv cap v2 (t.withConn k { t.conns k with up := w }) := by
        refine h.withConn { hconn with up := hconn.up.recv hw, writing := ?_ } rfl
        dsimp only
        rw [Wire.writing_of_recv hw]
        exact hconn.writing
      refine hnew.withOps (u := .connection k) ?_ ?_
      · change (t.threads (.connection k)).phase = .free
        rw [hthread]
      · cases o with
        | none => exact fun p hp => absurd hp (by simp)
        | some f => exact fun p hp => (hfair w f hw p hp).1
    · cases hfun
  | next u =>
    simp only [Traffic.step] at hfun
    split at hfun
    · next k f ops hthread =>
      cases hfun
      exact h.withNext hthread rfl rfl rfl
    · next m sends ops hthread =>
      cases hfun
      exact h.withNext hthread rfl rfl rfl
    · cases hfun
  | lockTopic u =>
    simp only [Traffic.step] at hfun
    split at hfun
    · next m sends hphase =>
      obtain ⟨hfree, heq⟩ := Option.ite_none_right_eq_some.mp hfun
      cases heq
      have htopic : (HostThreadState.topic ∘ t.threads) u = none := by
        change (t.threads u).phase.topic = none
        rw [hphase, OpPhase.topic]
      refine h.withTopic ?_ (h.topic.take hfree htopic) ?_
      · rw [hphase, OpPhase.tx, OpPhase.tx]
      · rw [hphase]
        exact fun p hp => hp
    · cases hfun
  | unlockTopic u =>
    simp only [Traffic.step] at hfun
    split at hfun
    · next hphase =>
      cases hfun
      refine h.withThread (s := { t.threads u with phase := .free }) ?_ ?_ (fits_phase h ?_)
      · rw [HostThreadState.tx, HostThreadState.tx, hphase, OpPhase.tx, OpPhase.tx]
      · rw [HostThreadState.topic, HostThreadState.topic, hphase, OpPhase.topic, OpPhase.topic]
      · exact fun p hp => absurd hp List.not_mem_nil
    · next m hphase =>
      cases hfun
      have htopic : (HostThreadState.topic ∘ t.threads) u = some m := by
        change (t.threads u).phase.topic = some m
        rw [hphase, OpPhase.topic]
      refine h.withTopic ?_ (h.topic.release ((h.topic m u).mpr htopic)) ?_
      · rw [hphase, OpPhase.tx, OpPhase.tx]
      · exact fun p hp => absurd hp List.not_mem_nil
    · cases hfun
  | lockTx u =>
    simp only [Traffic.step] at hfun
    split at hfun
    · next topic k f sends hphase =>
      obtain ⟨hfree, hfun⟩ := Option.ite_none_right_eq_some.mp hfun
      obtain ⟨w, hw, rfl⟩ := Option.map_eq_some_iff.mp hfun
      have hconn := h.conns k
      have hfits : Fits (v2 k) f := h.fits u (k, f) (by simp [HostThreadState.owed, hphase,
        OpPhase.todo])
      have htx : (HostThreadState.tx ∘ t.threads) u = none := by
        change (t.threads u).phase.tx = none
        rw [hphase, OpPhase.tx]
      refine h.withTx (c := { t.conns k with down := w, txMutex := some u })
        { hconn with down := hconn.down.step (a := .write f) hfits hw, tx := ?_ }
        (h.tx.take hfree htx) ?_ ?_
      · obtain ⟨-, rfl⟩ := Wire.write_eq_some.mp hw
        exact iff_of_true (by simp) (by simp)
      · rw [hphase, OpPhase.topic, OpPhase.topic]
      · rw [hphase]
        exact fun p hp => List.mem_cons_of_mem _ hp
    · cases hfun
  | unlockTx u =>
    simp only [Traffic.step] at hfun
    split at hfun
    · next topic k sends hphase =>
      obtain ⟨w, hw, rfl⟩ := Option.map_eq_some_iff.mp hfun
      have hconn := h.conns k
      have htx : (HostThreadState.tx ∘ t.threads) u = some k := by
        change (t.threads u).phase.tx = some k
        rw [hphase, OpPhase.tx]
      refine h.withTx (c := { t.conns k with down := w, txMutex := none })
        { hconn with down := hconn.down.step (a := .writeReturns) trivial hw, tx := ?_ }
        (h.tx.release ((h.tx k u).mpr htx)) ?_ ?_
      · obtain ⟨f, sent, -, rfl⟩ := Wire.writeReturns_eq_some.mp hw
        exact iff_of_false (by simp) (by simp)
      · rw [hphase, OpPhase.topic, OpPhase.topic]
      · rw [hphase]
        exact fun p hp => hp
    · cases hfun

theorem inv_start (cap : ℕ) (v2 : ℕ → Bool) : ({} : Traffic).Inv cap v2 where
  conns k := {
    up := ⟨Wire.inv_empty cap (v2 k), by simp [Wire.written], by simp, by simp⟩
    down := ⟨Wire.inv_empty cap (v2 k), by simp [Wire.written], by simp, by simp⟩
    caller := by simp
    reader := by simp
    writing := by simp
    tx := by simp
    fits := by simp [Caller.frames] }
  tx k u := iff_of_false (by simp) (by simp [HostThreadState.tx, OpPhase.tx])
  topic m u := iff_of_false (by simp) (by simp [HostThreadState.topic, OpPhase.topic])
  fits u := by simp [HostThreadState.owed, OpPhase.todo]

theorem inv_of_run (h : t.Inv cap v2) {acts : List Act} (hrun : Run (Step cap v2) t acts t') :
    t'.Inv cap v2 :=
  hrun.preserves h fun _ _ _ h hstep => h.step hstep

end

/-! ### Where a REKEY_ACK comes from -/

/-- A call of `seal_and_send` with a frame, on connection `k`. -/
def Act.Calls (k : ℕ) (f : RawFrame) : Act → Prop
  | .client k' a => k' = k ∧ a.Calls f
  | _ => False

/-- The host has read a REKEY. -/
def Rekeyed (t : Traffic) (k : ℕ) : Prop := ∃ f ∈ (t.conns k).up.frames, f.type = .rekey

section

variable {cap : ℕ} {v2 : ℕ → Bool} {t t' : Traffic} {k : ℕ} {u : HostThread}

/-- A thread of the host owes a frame to a connection. -/
def Owes (t : Traffic) (k : ℕ) (f : RawFrame) : Prop := ∃ u, (k, f) ∈ (t.threads u).owed

/-- One connection goes on. -/
theorem traces_withConn {called : RawFrame → Prop} {owed : ℕ → RawFrame → Prop} {c : ClientConn}
    (hc : ClientConn.Traces called (owed k) (t.conns k) c) (k' : ℕ) :
    ClientConn.Traces (fun f => k = k' ∧ called f) (owed k') (t.conns k')
      (Function.update t.conns k c k') := by
  by_cases hk : k' = k
  · subst hk
    rw [Function.update_self]
    exact { hc with callers := fun i f hf => (hc.callers i f hf).imp_right fun h => ⟨rfl, h⟩ }
  · rw [Function.update_of_ne hk]
    exact ClientConn.Traces.refl _ _ _

theorem owed_update {s : HostThreadState} {P : ℕ × RawFrame → Prop}
    (hs : ∀ p ∈ s.owed, p ∈ (t.threads u).owed ∨ P p) (v : HostThread) :
    ∀ p ∈ (Function.update t.threads u s v).owed, p ∈ (t.threads v).owed ∨ P p := by
  by_cases hv : v = u
  · subst hv
    rwa [Function.update_self]
  · rw [Function.update_of_ne hv]
    exact fun p hp => Or.inl hp

/-- Of the frames that a thread owes it has begun to send some. -/
theorem owed_phase {phase : OpPhase} {P : ℕ × RawFrame → Prop}
    (htodo : ∀ p ∈ phase.todo, p ∈ (t.threads u).phase.todo) :
    ∀ p ∈ HostThreadState.owed { t.threads u with phase := phase },
      p ∈ (t.threads u).owed ∨ P p := by
  intro p hp
  rcases List.mem_append.mp hp with hp | hp
  · exact Or.inl (List.mem_append_left _ (htodo p hp))
  · exact Or.inl (List.mem_append_right _ hp)

/-- **Where the frames of a step come from**, and that a REKEY_ACK is owed for a REKEY only. -/
theorem traces_of_step {a : Act} (hstep : Step cap v2 t a t') :
    (∀ k, ClientConn.Traces (fun f => a.Calls k f) (t.Owes k) (t.conns k) (t'.conns k)) ∧
    ∀ u, ∀ p ∈ (t'.threads u).owed, p ∈ (t.threads u).owed ∨
      (p.2.type = .rekeyAck → t'.Rekeyed p.1) := by
  obtain ⟨hfun, hfair⟩ := hstep
  have hfun : t.step cap v2 a = some t' := hfun
  cases a with
  | client k a =>
    obtain ⟨c, hc, rfl⟩ := Option.map_eq_some_iff.mp hfun
    exact ⟨traces_withConn (ClientConn.traces_of_step hc _), fun u p hp => Or.inl hp⟩
  | begin i ops =>
    simp only [Traffic.step] at hfun
    split at hfun
    · cases hfun
      exact ⟨fun k => ClientConn.Traces.refl _ _ _, owed_update fun p hp =>
        Or.inr fun hack => absurd hack (hfair p hp).2⟩
    · cases hfun
  | serve k n ops =>
    simp only [Traffic.step] at hfun
    split at hfun
    · obtain ⟨⟨w, o⟩, hw, rfl⟩ := Option.map_eq_some_iff.mp hfun
      have hup : w.frames = (t.conns k).up.frames ++ o.toList ∧
          w.written = (t.conns k).up.written := by
        obtain ⟨-, -, rfl⟩ := Wire.recv_eq_some.mp hw
        exact ⟨rfl, rfl⟩
      obtain ⟨hframes, hwritten⟩ := hup
      constructor
      · have hsame := ClientConn.Traces.refl (fun _ => False) (t.Owes k) (t.conns k)
        have hconn : ClientConn.Traces (fun _ => False) (t.Owes k) (t.conns k)
            { t.conns k with up := w } := by
          refine { hsame with read := fun f hf => ?_, written := fun f hf => Or.inl ?_ }
          · change f ∈ w.frames
            rw [hframes]
            exact List.mem_append_left _ hf
          · rwa [← hwritten]
        exact fun k' => (traces_withConn hconn k').mono fun f hf => hf.2
      · refine owed_update fun p hp => ?_
        cases o with
        | none => exact absurd hp (by simp [HostThreadState.owed, OpPhase.todo])
        | some f =>
          refine Or.inr fun hack => ?_
          obtain ⟨hk, hf⟩ := (hfair _ f hw p hp).2 hack
          refine ⟨f, ?_, hf⟩
          rw [hk]
          change f ∈ (Function.update t.conns k { t.conns k with up := w } k).up.frames
          rw [Function.update_self, hframes]
          simp
    · cases hfun
  | next u =>
    simp only [Traffic.step] at hfun
    split at hfun
    · next k f ops hthread =>
      cases hfun
      refine ⟨fun k => ClientConn.Traces.refl _ _ _, owed_update fun p hp => Or.inl ?_⟩
      rw [hthread]
      exact hp
    · next m sends ops hthread =>
      cases hfun
      refine ⟨fun k => ClientConn.Traces.refl _ _ _, owed_update fun p hp => Or.inl ?_⟩
      rw [hthread]
      exact hp
    · cases hfun
  | lockTopic u =>
    simp only [Traffic.step] at hfun
    split at hfun
    · next m sends hphase =>
      obtain ⟨-, heq⟩ := Option.ite_none_right_eq_some.mp hfun
      cases heq
      refine ⟨fun k => ClientConn.Traces.refl _ _ _, owed_update (owed_phase ?_)⟩
      rw [hphase]
      exact fun p hp => hp
    · cases hfun
  | unlockTopic u =>
    simp only [Traffic.step] at hfun
    split at hfun
    · cases hfun
      exact ⟨fun k => ClientConn.Traces.refl _ _ _,
        owed_update (owed_phase fun p hp => absurd hp List.not_mem_nil)⟩
    · cases hfun
      exact ⟨fun k => ClientConn.Traces.refl _ _ _,
        owed_update (owed_phase fun p hp => absurd hp List.not_mem_nil)⟩
    · cases hfun
  | lockTx u =>
    simp only [Traffic.step] at hfun
    split at hfun
    · next topic k f sends hphase =>
      obtain ⟨-, hfun⟩ := Option.ite_none_right_eq_some.mp hfun
      obtain ⟨w, hw, rfl⟩ := Option.map_eq_some_iff.mp hfun
      have hwritten : w.written = (t.conns k).down.written ++ [f] := by
        obtain ⟨hnone, rfl⟩ := Wire.write_eq_some.mp hw
        simp [Wire.written, hnone]
      have howes : t.Owes k f := ⟨u, by simp [HostThreadState.owed, hphase, OpPhase.todo]⟩
      have hsame := ClientConn.Traces.refl (fun _ => False) (t.Owes k) (t.conns k)
      have hconn : ClientConn.Traces (fun _ => False) (t.Owes k) (t.conns k)
          { t.conns k with down := w, txMutex := some u } := by
        refine { hsame with sent := fun g hg => ?_, reader := fun h => Or.inl h }
        change g ∈ w.written at hg
        rw [hwritten] at hg
        rcases List.mem_append.mp hg with hg | hg
        · exact Or.inl hg
        · rw [List.mem_singleton.mp hg]
          exact Or.inr howes
      refine ⟨fun k' => (traces_withConn hconn k').mono fun f hf => hf.2,
        owed_update (owed_phase ?_)⟩
      change ∀ p ∈ sends, p ∈ (t.threads u).phase.todo
      rw [hphase]
      exact fun p hp => List.mem_cons_of_mem _ hp
    · cases hfun
  | unlockTx u =>
    simp only [Traffic.step] at hfun
    split at hfun
    · next topic k sends hphase =>
      obtain ⟨w, hw, rfl⟩ := Option.map_eq_some_iff.mp hfun
      have hreturns : Wire.Step cap (v2 k) (t.conns k).down .writeReturns w := hw
      have hwritten := Wire.written_of_step (a := .writeReturns) trivial hreturns
      have hsame := ClientConn.Traces.refl (fun _ => False) (t.Owes k) (t.conns k)
      have hconn : ClientConn.Traces (fun _ => False) (t.Owes k) (t.conns k)
          { t.conns k with down := w, txMutex := none } := by
        refine { hsame with sent := fun g hg => Or.inl ?_, reader := fun h => Or.inl h }
        rwa [← hwritten]
      refine ⟨fun k' => (traces_withConn hconn k').mono fun f hf => hf.2,
        owed_update (owed_phase ?_)⟩
      change ∀ p ∈ sends, p ∈ (t.threads u).phase.todo
      rw [hphase]
      exact fun p hp => hp
    · cases hfun

/-- A REKEY_ACK, wherever it is, answers a REKEY. -/
structure Acks (t : Traffic) : Prop where
  owed : ∀ u, ∀ p ∈ (t.threads u).owed, p.2.type = .rekeyAck → t.Rekeyed p.1
  sent : ∀ k, ∀ f ∈ (t.conns k).down.written, f.type = .rekeyAck → t.Rekeyed k
  reader : ∀ k, (t.conns k).reader = .waits ∨ (t.conns k).reader = .holds → t.Rekeyed k

theorem Acks.step (h : t.Acks) (hinv : t'.Inv cap v2) {a : Act} (hstep : Step cap v2 t a t') :
    t'.Acks := by
  obtain ⟨hconns, howed⟩ := traces_of_step hstep
  have hmono : ∀ {k}, t.Rekeyed k → t'.Rekeyed k := by
    rintro k ⟨f, hf, htype⟩
    exact ⟨f, (hconns k).read f hf, htype⟩
  have hsent : ∀ k, ∀ f ∈ (t'.conns k).down.written, f.type = .rekeyAck → t'.Rekeyed k := by
    intro k f hf hack
    rcases (hconns k).sent f hf with hf | ⟨u, hu⟩
    · exact hmono (h.sent k f hf hack)
    · exact hmono (h.owed u (k, f) hu hack)
  refine ⟨fun u p hp hack => ?_, hsent, fun k hreader => ?_⟩
  · rcases howed u p hp with hp | hp
    · exact hmono (h.owed u p hp hack)
    · exact hp hack
  · rcases (hconns k).reader hreader with hreader | ⟨f, hf, hack⟩
    · exact hmono (h.reader k hreader)
    · exact hsent k f ((hinv.conns k).down.read f hf) hack

/-- Nobody has begun a rotation on connection `k`. -/
structure Unrotated (t : Traffic) (k : ℕ) : Prop where
  callers : ∀ i, ∀ f ∈ ((t.conns k).callers i).frames, f.type ≠ .rekey
  written : ∀ f ∈ (t.conns k).up.written, f.type ≠ .rekey

theorem Unrotated.step (h : t.Unrotated k) {a : Act} (hstep : Step cap v2 t a t')
    (hcalls : ∀ f, a.Calls k f → f.type ≠ .rekey) : t'.Unrotated k := by
  have hconn := (traces_of_step hstep).1 k
  constructor
  · intro i f hf
    rcases hconn.callers i f hf with hf | hf
    · exact h.callers i f hf
    · exact hcalls f hf
  · intro f hf
    rcases hconn.written f hf with hf | ⟨i, hf⟩
    · exact h.written f hf
    · exact h.callers i f hf

theorem acks_start : ({} : Traffic).Acks where
  owed u := by simp [HostThreadState.owed, OpPhase.todo]
  sent k := by simp [Wire.written]
  reader k := by simp

/-- **A reader waits for `write_mutex`** only on a connection on which somebody has begun a
rotation. -/
theorem reader_of_run {acts : List Act} (hrun : Run (Step cap v2) {} acts t)
    (hcalls : ∀ a ∈ acts, ∀ f, a.Calls k f → f.type ≠ .rekey) : (t.conns k).reader ≠ .waits := by
  have hall : t.Inv cap v2 ∧ t.Acks ∧ t.Unrotated k := by
    induction hrun with
    | nil => exact ⟨inv_start cap v2, acks_start, by simp [Caller.frames], by simp [Wire.written]⟩
    | snoc hfirst hlast ih =>
      rw [List.forall_mem_append] at hcalls
      obtain ⟨hinv, hacks, hun⟩ := ih hcalls.1
      have hinv' := hinv.step hlast
      exact ⟨hinv', hacks.step hinv' hlast,
        hun.step hlast (hcalls.2 _ (List.mem_singleton_self _))⟩
  obtain ⟨hinv, hacks, hun⟩ := hall
  intro hwaits
  obtain ⟨f, hf, htype⟩ := hacks.reader k (Or.inl hwaits)
  exact hun.written f ((hinv.conns k).up.read f hf) htype

end

/-! ### Who holds up whom -/

/-- A step of the library or of the kernel; the others are up to the application, or to what the
host sends. -/
def Act.Moves : Act → Prop
  | .client _ (.call _ _) | .client _ .leave | .begin _ _ => False
  | _ => True

/-- Nobody has anything to do, and what was written has been read. -/
structure Quiet (t : Traffic) : Prop where
  callers : ∀ k i, (t.conns k).callers i = .idle
  threads : ∀ u, t.threads u = {}
  readers : ∀ k, (t.conns k).reader = .reads ∨ (t.conns k).reader = .left
  up : ∀ k, (t.conns k).up.frames = (t.conns k).up.written
  down : ∀ k, (t.conns k).reader = .reads → (t.conns k).down.frames = (t.conns k).down.written

/-- The host waits for a client that does not read: its reader has left its loop, or waits for
`write_mutex`, which a caller holds that waits for the host. -/
structure HeldUp (cap : ℕ) (t : Traffic) (k : ℕ) : Prop where
  down : (t.conns k).down.Blocked cap
  reader : (t.conns k).reader = .left ∨
    ((t.conns k).reader = .waits ∧ (t.conns k).up.Blocked cap ∧
      ∃ i, (t.conns k).writeMutex = some (.caller i))

section

variable {cap : ℕ} {v2 : ℕ → Bool} {t : Traffic} {k : ℕ} {u : HostThread}

/-- Nobody can go on. -/
def Stuck (cap : ℕ) (v2 : ℕ → Bool) (t : Traffic) : Prop :=
  ∀ a t', a.Moves → ¬ Step cap v2 t a t'

theorem Stuck.eq_none (hstuck : t.Stuck cap v2) {a : Act} (hmoves : a.Moves)
    (hfair : a.Fair v2 t) : t.step cap v2 a = none := by
  rw [Option.eq_none_iff_forall_ne_some]
  exact fun t' heq => hstuck a t' hmoves ⟨heq, hfair⟩

theorem Stuck.client (hstuck : t.Stuck cap v2) {a : ClientConn.Act}
    (hmoves : (Act.client k a).Moves) : (t.conns k).step cap (v2 k) a = none := by
  have hfair : (Act.client k a).Fair v2 t := by
    cases a with
    | call _ _ => cases hmoves
    | lock _ | write _ | writeReturns | unlock _ | send _ | read _ | readerLock | readerUnlock
    | leave | sendDown _ => trivial
  exact Option.map_eq_none_iff.mp (hstuck.eq_none hmoves hfair)

theorem Stuck.reader (hstuck : t.Stuck cap v2) (k : ℕ) : (t.conns k).reader ≠ .holds := by
  intro hholds
  have hnone := hstuck.client (k := k) (a := .readerUnlock) trivial
  rw [ClientConn.step, if_pos hholds] at hnone
  cases hnone

/-- A caller that holds `write_mutex` waits in a `send`. -/
theorem Stuck.up (h : t.Inv cap v2) (hstuck : t.Stuck cap v2) {i : ℕ}
    (hmutex : (t.conns k).writeMutex = some (.caller i)) : (t.conns k).up.Blocked cap := by
  have hconn := h.conns k
  obtain ⟨frames, hcaller⟩ := (hconn.caller i).mp hmutex
  by_cases hwriting : (t.conns k).up.writing = none
  · exfalso
    cases frames with
    | nil =>
      have hnone := hstuck.client (k := k) (a := .unlock i) trivial
      rw [ClientConn.step, if_pos ⟨hcaller, hwriting⟩] at hnone
      cases hnone
    | cons f frames =>
      have hnone := hstuck.client (k := k) (a := .write i) trivial
      simp only [ClientConn.step, hcaller, Option.map_eq_none_iff, Wire.write_eq_none] at hnone
      exact hnone hwriting
  · have hreturns := hstuck.client (k := k) (a := .writeReturns) trivial
    have hsend := hstuck.client (k := k) (a := .send 1) trivial
    rw [ClientConn.step, Option.map_eq_none_iff] at hreturns
    rw [ClientConn.step, Option.map_eq_none_iff] at hsend
    rcases hconn.up.inv.exists_write hwriting with ⟨w, hw⟩ | ⟨w, hw⟩ | hblocked
    · rw [hreturns] at hw
      cases hw
    · rw [hsend] at hw
      cases hw
    · exact hblocked

/-- Whoever waits for `write_mutex` waits for a caller. -/
theorem Stuck.writeMutex (hstuck : t.Stuck cap v2) (h : t.Inv cap v2)
    (hwaits : (t.conns k).reader = .waits ∨ ∃ i frames, (t.conns k).callers i = .waits frames) :
    ∃ i, (t.conns k).writeMutex = some (.caller i) := by
  cases hmutex : (t.conns k).writeMutex with
  | none =>
    exfalso
    rcases hwaits with hreader | ⟨i, frames, hcaller⟩
    · have hnone := hstuck.client (k := k) (a := .readerLock) trivial
      rw [ClientConn.step, if_pos ⟨hreader, hmutex⟩] at hnone
      cases hnone
    · have hnone := hstuck.client (k := k) (a := .lock i) trivial
      simp only [ClientConn.step, hcaller, hmutex, reduceCtorEq] at hnone
  | some m =>
    cases m with
    | caller i => exact ⟨i, rfl⟩
    | reader => exact absurd ((h.conns k).reader.mp hmutex) (hstuck.reader k)

/-- **Who writes to a client waits for its reader.** -/
theorem Stuck.heldUp (h : t.Inv cap v2) (hcap : 1 ≤ cap) (hstuck : t.Stuck cap v2)
    (hwriting : (t.conns k).down.writing ≠ none) : t.HeldUp cap k := by
  have hconn := h.conns k
  have hblocked : (t.conns k).down.Blocked cap := by
    rcases hconn.down.inv.exists_write hwriting with ⟨w, hw⟩ | ⟨w, hw⟩ | hblocked
    · exfalso
      obtain ⟨u, hu⟩ := Option.ne_none_iff_exists'.mp (hconn.tx.mp hwriting)
      have htx : (t.threads u).phase.tx = some k := (h.tx k u).mp hu
      have hnone := hstuck.eq_none (a := .unlockTx u) trivial trivial
      cases hphase : (t.threads u).phase with
      | free | waits _ _ | sends _ _ =>
        rw [hphase] at htx
        cases htx
      | writes topic k' sends =>
        rw [hphase] at htx
        cases htx
        simp only [Traffic.step, hphase, Option.map_eq_none_iff] at hnone
        rw [hnone] at hw
        cases hw
    · have hnone := hstuck.client (k := k) (a := .sendDown 1) trivial
      rw [ClientConn.step, Option.map_eq_none_iff] at hnone
      rw [hnone] at hw
      cases hw
    · exact hblocked
  refine ⟨hblocked, ?_⟩
  cases hreader : (t.conns k).reader with
  | reads =>
    exfalso
    obtain ⟨w, o, hw⟩ := hconn.down.sound.exists_recv hconn.down.inv
      (hblocked.buffer_ne_nil hcap)
    have hnone := hstuck.client (k := k) (a := .read 1) trivial
    rw [ClientConn.step, if_pos hreader, Option.map_eq_none_iff, hw] at hnone
    cases hnone
  | waits =>
    obtain ⟨i, hmutex⟩ := hstuck.writeMutex h (Or.inl hreader)
    exact Or.inr ⟨rfl, hstuck.up h hmutex, i, hmutex⟩
  | holds => exact absurd hreader (hstuck.reader k)
  | left => exact Or.inl rfl

/-- A thread of the host can go on with its frames, if no client holds it up. -/
theorem Stuck.phase (h : t.Inv cap v2) (hstuck : t.Stuck cap v2)
    (hdown : ∀ k, (t.conns k).txMutex = none) (u : HostThread) :
    (∀ topic sends, (t.threads u).phase ≠ .sends topic sends) ∧
      ∀ topic k sends, (t.threads u).phase ≠ .writes topic k sends := by
  constructor
  · intro topic sends hphase
    cases sends with
    | nil =>
      have hnone := hstuck.eq_none (a := .unlockTopic u) trivial trivial
      cases topic with
      | none | some m => simp only [Traffic.step, hphase, reduceCtorEq] at hnone
    | cons p sends =>
      obtain ⟨k, f⟩ := p
      have hnone := hstuck.eq_none (a := .lockTx u) trivial trivial
      simp only [Traffic.step, hphase, if_pos (hdown k), Option.map_eq_none_iff,
        Wire.write_eq_none] at hnone
      exact (h.conns k).tx.mp hnone (hdown k)
  · intro topic k sends hphase
    have htx : (t.conns k).txMutex = some u := by
      refine (h.tx k u).mpr ?_
      change (t.threads u).phase.tx = some k
      rw [hphase, OpPhase.tx]
    rw [hdown k] at htx
    cases htx

/-- A thread of the host that has anything to do waits for a client, over others perhaps. -/
theorem Stuck.threads (h : t.Inv cap v2) (hcap : 1 ≤ cap) (hstuck : t.Stuck cap v2)
    (hno : ∀ k, ¬ t.HeldUp cap k) (u : HostThread) : t.threads u = {} := by
  have hdown : ∀ k, (t.conns k).txMutex = none := by
    intro k
    by_contra hne
    exact hno k (hstuck.heldUp h hcap ((h.conns k).tx.mpr hne))
  have hin := fun v => hstuck.phase h hdown v
  cases hu : t.threads u with
  | mk phase ops =>
    cases phase with
    | free =>
      cases ops with
      | nil => rfl
      | cons op ops =>
        have hnone := hstuck.eq_none (a := .next u) trivial trivial
        cases op with
        | send k f => simp only [Traffic.step, hu, reduceCtorEq] at hnone
        | topic m sends => simp only [Traffic.step, hu, reduceCtorEq] at hnone
    | waits m sends =>
      exfalso
      cases hmutex : t.topicMutex m with
      | none =>
        have hnone := hstuck.eq_none (a := .lockTopic u) trivial trivial
        simp only [Traffic.step, hu, if_pos hmutex, reduceCtorEq] at hnone
      | some v =>
        have htopic : (t.threads v).phase.topic = some m := (h.topic m v).mp hmutex
        cases hv : (t.threads v).phase with
        | free | waits _ _ =>
          rw [hv] at htopic
          cases htopic
        | sends topic sends => exact (hin v).1 topic sends hv
        | writes topic k sends => exact (hin v).2 topic k sends hv
    | sends topic sends => exact absurd (by rw [hu]) ((hin u).1 topic sends)
    | writes topic k sends => exact absurd (by rw [hu]) ((hin u).2 topic k sends)

/-- **Somebody can go on**, or there is nothing to do, or the host waits for a client. -/
theorem Inv.progress (h : t.Inv cap v2) (hcap : 1 ≤ cap) :
    t.Quiet ∨ (∃ a t', a.Moves ∧ Step cap v2 t a t') ∨ ∃ k, t.HeldUp cap k := by
  by_cases hmoves : ∃ a t', a.Moves ∧ Step cap v2 t a t'
  · exact Or.inr (Or.inl hmoves)
  by_cases hheld : ∃ k, t.HeldUp cap k
  · exact Or.inr (Or.inr hheld)
  have hstuck : t.Stuck cap v2 := fun a t' ha hstep => hmoves ⟨a, t', ha, hstep⟩
  have hno : ∀ k, ¬ t.HeldUp cap k := fun k hk => hheld ⟨k, hk⟩
  have hthreads := hstuck.threads h hcap hno
  -- the threads of the connections would read
  have hup : ∀ k, (t.conns k).up.buffer = [] := by
    intro k
    by_contra hne
    obtain ⟨w, o, hw⟩ := (h.conns k).up.sound.exists_recv (h.conns k).up.inv hne
    have hnone := hstuck.eq_none (a := .serve k 1 []) trivial
      fun _ _ _ p hp => absurd hp List.not_mem_nil
    simp only [Traffic.step, hthreads (.connection k), Option.map_eq_none_iff, hw,
      reduceCtorEq] at hnone
  have hmutex : ∀ k i, (t.conns k).writeMutex ≠ some (.caller i) := fun k i heq =>
    (hstuck.up h heq).buffer_ne_nil hcap (hup k)
  have hwaits : ∀ k, ¬ ((t.conns k).reader = .waits ∨
      ∃ i frames, (t.conns k).callers i = .waits frames) := by
    intro k hwaits
    obtain ⟨i, hi⟩ := hstuck.writeMutex h hwaits
    exact hmutex k i hi
  have hreaders : ∀ k, (t.conns k).reader = .reads ∨ (t.conns k).reader = .left := by
    intro k
    cases hreader : (t.conns k).reader with
    | reads => exact Or.inl rfl
    | waits => exact absurd (Or.inl hreader) (hwaits k)
    | holds => exact absurd hreader (hstuck.reader k)
    | left => exact Or.inr rfl
  refine Or.inl ⟨fun k i => ?_, hthreads, hreaders, fun k => ?_, fun k hreads => ?_⟩
  · cases hcaller : (t.conns k).callers i with
    | idle => rfl
    | waits frames => exact absurd (Or.inr ⟨i, frames, hcaller⟩) (hwaits k)
    | holds frames => exact absurd (((h.conns k).caller i).mpr ⟨frames, hcaller⟩) (hmutex k i)
  · refine (h.conns k).up.sound.frames_eq (h.conns k).up.inv ?_ (hup k)
    by_contra hne
    obtain ⟨i, hi⟩ := (h.conns k).writing hne
    exact hmutex k i hi
  · refine (h.conns k).down.sound.frames_eq (h.conns k).down.inv ?_ ?_
    · by_contra hne
      exact hno k (hstuck.heldUp h hcap hne)
    · by_contra hne
      obtain ⟨w, o, hw⟩ := (h.conns k).down.sound.exists_recv (h.conns k).down.inv hne
      have hnone := hstuck.client (k := k) (a := .read 1) trivial
      rw [ClientConn.step, if_pos hreads, Option.map_eq_none_iff, hw] at hnone
      cases hnone

end

/-! ### Two ends that hold each other up -/

/-- The two ends of a connection hold each other up: the reader of the client waits for
`write_mutex`, a caller that holds it for the thread of the connection to read, and this one, before
a frame for the client or in it, for the reader. -/
structure Deadlocked (cap : ℕ) (t : Traffic) (k : ℕ) : Prop where
  reader : (t.conns k).reader = .waits
  caller : ∃ i, (t.conns k).writeMutex = some (.caller i)
  up : (t.conns k).up.Blocked cap
  down : (t.conns k).down.Blocked cap
  tx : (t.conns k).txMutex ≠ none
  thread : (∃ topic sends, (t.threads (.connection k)).phase = .writes topic k sends) ∨
    ∃ topic f sends, (t.threads (.connection k)).phase = .sends topic ((k, f) :: sends)

section

variable {cap : ℕ} {v2 : ℕ → Bool} {t t' : Traffic} {k : ℕ} {u : HostThread}

/-- The connection and its thread stay as they are, but for callers that queue up. -/
structure Stays (t : Traffic) (k : ℕ) (t' : Traffic) : Prop where
  conn : ∃ callers, t'.conns k = { t.conns k with callers := callers }
  thread : t'.threads (.connection k) = t.threads (.connection k)

theorem Stays.deadlocked (hstays : t.Stays k t') (h : t.Deadlocked cap k) :
    t'.Deadlocked cap k := by
  obtain ⟨⟨callers, hconn⟩, hthread⟩ := hstays
  obtain ⟨hreader, hcaller, hup, hdown, htx, hphase⟩ := h
  constructor
  · rw [hconn]
    exact hreader
  · rw [hconn]
    exact hcaller
  · rw [hconn]
    exact hup
  · rw [hconn]
    exact hdown
  · rw [hconn]
    exact htx
  · rw [hthread]
    exact hphase

/-- Another thread of the host goes on. -/
theorem stays_of_other {s : HostThreadState} (hu : u ≠ .connection k) :
    t.Stays k { t with threads := Function.update t.threads u s } :=
  ⟨⟨_, rfl⟩, Function.update_of_ne hu.symm _ _⟩

/-- Another connection goes on. -/
theorem conns_of_other {k' : ℕ} (hk : k' ≠ k) (c : ClientConn) :
    ∃ callers, Function.update t.conns k' c k = { t.conns k with callers := callers } :=
  ⟨_, Function.update_of_ne hk.symm _ _⟩

/-- **There is no way out**: whatever anybody does, the two ends stay where they are. -/
theorem Deadlocked.stays (h : t.Deadlocked cap k) {a : Act} (hstep : Step cap v2 t a t') :
    t.Stays k t' := by
  have hfun : t.step cap v2 a = some t' := hstep.1
  obtain ⟨hreader, ⟨i, hcaller⟩, hup, hdown, htx, hphase⟩ := h
  have hbusy : ∀ {ops}, t.threads (.connection k) ≠ ⟨.free, ops⟩ := by
    intro ops heq
    rw [heq] at hphase
    rcases hphase with ⟨_, _, hphase⟩ | ⟨_, _, _, hphase⟩ <;> cases hphase
  cases a with
  | client k' a =>
    obtain ⟨c, hc, rfl⟩ := Option.map_eq_some_iff.mp hfun
    refine ⟨?_, rfl⟩
    change ∃ callers, Function.update t.conns k' c k = _
    by_cases hk : k' = k
    · subst hk
      rw [Function.update_self]
      exact ClientConn.stays_of_step hreader hcaller hup hdown hc
    · exact conns_of_other hk c
  | begin j ops =>
    simp only [Traffic.step] at hfun
    split at hfun
    · cases hfun
      exact stays_of_other (by simp)
    · cases hfun
  | serve k' n ops =>
    simp only [Traffic.step] at hfun
    split at hfun
    · next hthread =>
      obtain ⟨p, -, rfl⟩ := Option.map_eq_some_iff.mp hfun
      have hk : k' ≠ k := by
        rintro rfl
        exact hbusy hthread
      exact ⟨conns_of_other hk _, Function.update_of_ne (by simpa using hk.symm) _ _⟩
    · cases hfun
  | next u =>
    have hu : ∀ {op ops}, t.threads u = ⟨.free, op :: ops⟩ → u ≠ .connection k := by
      rintro op ops hthread rfl
      exact hbusy hthread
    simp only [Traffic.step] at hfun
    split at hfun
    · next hthread =>
      cases hfun
      exact stays_of_other (hu hthread)
    · next hthread =>
      cases hfun
      exact stays_of_other (hu hthread)
    · cases hfun
  | lockTopic u =>
    simp only [Traffic.step] at hfun
    split at hfun
    · next m sends hu =>
      obtain ⟨-, heq⟩ := Option.ite_none_right_eq_some.mp hfun
      cases heq
      have hne : u ≠ .connection k := by
        rintro rfl
        rcases hphase with ⟨_, _, hphase⟩ | ⟨_, _, _, hphase⟩ <;> rw [hu] at hphase <;> cases hphase
      exact ⟨⟨_, rfl⟩, Function.update_of_ne hne.symm _ _⟩
    · cases hfun
  | unlockTopic u =>
    have hne : ∀ {topic}, (t.threads u).phase = .sends topic [] → u ≠ .connection k := by
      rintro topic hu rfl
      rcases hphase with ⟨_, _, hphase⟩ | ⟨_, _, _, hphase⟩ <;> rw [hu] at hphase <;> cases hphase
    simp only [Traffic.step] at hfun
    split at hfun
    · next hu =>
      cases hfun
      exact stays_of_other (hne hu)
    · next m hu =>
      cases hfun
      exact ⟨⟨_, rfl⟩, Function.update_of_ne (hne hu).symm _ _⟩
    · cases hfun
  | lockTx u =>
    simp only [Traffic.step] at hfun
    split at hfun
    · next topic k' f sends hu =>
      obtain ⟨hfree, hfun⟩ := Option.ite_none_right_eq_some.mp hfun
      obtain ⟨w, -, rfl⟩ := Option.map_eq_some_iff.mp hfun
      have hk : k' ≠ k := by
        rintro rfl
        exact htx hfree
      have hne : u ≠ .connection k := by
        rintro rfl
        rcases hphase with ⟨_, _, hphase⟩ | ⟨_, _, _, hphase⟩ <;> rw [hu] at hphase
        · cases hphase
        · cases hphase
          exact hk rfl
      exact ⟨conns_of_other hk _, Function.update_of_ne hne.symm _ _⟩
    · cases hfun
  | unlockTx u =>
    simp only [Traffic.step] at hfun
    split at hfun
    · next topic k' sends hu =>
      obtain ⟨w, hw, rfl⟩ := Option.map_eq_some_iff.mp hfun
      obtain ⟨⟨f, sent, data, later, hwriting⟩, -⟩ := hdown
      have hk : k' ≠ k := by
        rintro rfl
        obtain ⟨f', sent', heq, -⟩ := Wire.writeReturns_eq_some.mp hw
        rw [hwriting] at heq
        cases heq
      have hne : u ≠ .connection k := by
        rintro rfl
        rcases hphase with ⟨_, _, hphase⟩ | ⟨_, _, _, hphase⟩ <;> rw [hu] at hphase
        · cases hphase
          exact hk rfl
        · cases hphase
      exact ⟨conns_of_other hk _, Function.update_of_ne hne.symm _ _⟩
    · cases hfun

theorem Deadlocked.stays_of_run (h : t.Deadlocked cap k) {acts : List Act}
    (hrun : Run (Step cap v2) t acts t') : t'.Deadlocked cap k ∧
      (t'.conns k).up = (t.conns k).up ∧ (t'.conns k).down = (t.conns k).down := by
  induction hrun with
  | nil => exact ⟨h, rfl, rfl⟩
  | snoc _ hlast ih =>
    obtain ⟨hdead, hup, hdown⟩ := ih
    have hstays := hdead.stays hlast
    obtain ⟨callers, hconn⟩ := hstays.conn
    refine ⟨hstays.deadlocked hdead, ?_, ?_⟩
    · rw [hconn]
      exact hup
    · rw [hconn]
      exact hdown

end

end Traffic

/-- **What blocks, and what does not.** With no timeout for writes, and while no socket is closed,
in every state of a host and its clients somebody can go on, or everybody has done what there was to
do and read what was written, or the host waits for a client that does not read. A reader that has
not left its loop fails to read only while it waits for `write_mutex`, with a caller of the same
connection in a `send`; and it waits there only if somebody has begun a rotation on this connection.
If the thread of the connection then writes to this client, too, the two ends hold each other up for
ever. -/
theorem traffic_comes_to_rest (cap : ℕ) (hcap : 1 ≤ cap) (v2 : ℕ → Bool)
    (acts : List Traffic.Act) (t : Traffic) (hrun : Run (Traffic.Step cap v2) {} acts t) :
    (t.Quiet ∨ (∃ a t', a.Moves ∧ Traffic.Step cap v2 t a t') ∨ ∃ k, t.HeldUp cap k) ∧
    (∀ k, (∀ a ∈ acts, ∀ f, a.Calls k f → f.type ≠ .rekey) → (t.conns k).reader ≠ .waits) ∧
    ∀ k, t.Deadlocked cap k → ∀ acts' t', Run (Traffic.Step cap v2) t acts' t' →
      t'.Deadlocked cap k ∧ (t'.conns k).up = (t.conns k).up ∧
        (t'.conns k).down = (t.conns k).down := by
  have hinv := Traffic.inv_of_run (Traffic.inv_start cap v2) hrun
  refine ⟨hinv.progress hcap, fun k hcalls => Traffic.reader_of_run hrun hcalls, ?_⟩
  intro k hdead acts' t' hrun'
  exact hdead.stays_of_run hrun'

/-! ### A rotation between large messages -/

namespace HeldUpRotation

def rekey : RawFrame := { type := .rekey, body := [] }

def rekeyAck : RawFrame := { type := .rekeyAck, body := [] }

def request : RawFrame := { type := .request, body := [] }

def large (type : FrameType) : RawFrame := { type := type, body := List.replicate 32 7 }

def fits (f : RawFrame) : Bool := headerLen true + f.body.length ≤ kMaxFrameBytes

theorem fits_of_check {f : RawFrame} (h : fits f = true) : Fits true f :=
  ⟨of_decide_eq_true h, fun heq => by cases heq⟩

/-- A check that is enough for a step to be fair. -/
def check (t : Traffic) : Traffic.Act → Bool
  | .client _ (.call _ frames) => frames.all fits
  | .begin _ _ => false
  | .serve k n ops =>
    match (t.conns k).up.recv true n with
    | some (_, some f) => (ops.flatMap HostOp.sends).all fun p =>
      fits p.2 && (p.2.type ≠ .rekeyAck || (p.1 = k && f.type = .rekey))
    | _ => true
  | _ => true

theorem fair_of_check {t : Traffic} {a : Traffic.Act} (h : check t a = true) :
    a.Fair (fun _ => true) t := by
  cases a with
  | client k b =>
    cases b with
    | call i frames => exact fun f hf => fits_of_check (List.all_eq_true.mp h f hf)
    | lock _ | write _ | writeReturns | unlock _ | send _ | read _ | readerLock | readerUnlock
    | leave | sendDown _ => trivial
  | begin i ops => cases h
  | serve k n ops =>
    intro w f hw p hp
    simp only [check, hw] at h
    have hp' := List.all_eq_true.mp h p hp
    simp only [Bool.and_eq_true, Bool.or_eq_true, decide_eq_true_eq] at hp'
    exact ⟨fits_of_check hp'.1, fun hack => hp'.2.resolve_left fun hne => hne hack⟩
  | next _ | lockTopic _ | unlockTopic _ | lockTx _ | unlockTx _ => trivial

/-- A caller begins a rotation; when the REKEY_ACK comes another one is about to write a large
request, and the host a large answer. -/
def acts : List Traffic.Act :=
  [.client 0 (.call 0 [rekey, request]), .client 0 (.lock 0), .client 0 (.write 0),
    .client 0 (.send 4), .client 0 (.send 10), .client 0 .writeReturns, .serve 0 4 [],
    .serve 0 10 [.send 0 rekeyAck], .client 0 (.write 0), .client 0 (.send 4),
    .client 0 (.send 10), .client 0 .writeReturns, .client 0 (.unlock 0),
    .next (.connection 0), .lockTx (.connection 0), .client 0 (.sendDown 4),
    .client 0 (.sendDown 10), .unlockTx (.connection 0), .unlockTopic (.connection 0),
    .client 0 (.call 1 [large .request]), .client 0 (.lock 1), .client 0 (.write 1),
    .client 0 (.read 4), .client 0 (.read 10), .serve 0 4 [],
    .serve 0 10 [.send 0 (large .response)], .next (.connection 0), .lockTx (.connection 0),
    .client 0 (.sendDown 4), .client 0 (.sendDown 10), .client 0 (.sendDown 2),
    .client 0 (.send 4), .client 0 (.send 10), .client 0 (.send 2)]

def traffic : Option Traffic :=
  exec (guardFun (Traffic.step 16 fun _ => true) check) {} acts

theorem traffic_isSome : traffic.isSome = true := by decide +kernel

theorem traffic_run :
    Run (Traffic.Step 16 fun _ => true) {} acts (traffic.get traffic_isSome) :=
  (run_of_exec_guardFun (Option.some_get traffic_isSome).symm).mono fun _ _ _ h =>
    ⟨h.1, fair_of_check h.2⟩

theorem deadlocked : (traffic.get traffic_isSome).Deadlocked 16 0 where
  reader := by decide +kernel
  caller := ⟨1, by decide +kernel⟩
  up := ⟨⟨large .request, (writeFrame true (large .request)).take 16, List.replicate 30 7, [],
    by decide +kernel⟩, by decide +kernel⟩
  down := ⟨⟨large .response, (writeFrame true (large .response)).take 16, List.replicate 30 7, [],
    by decide +kernel⟩, by decide +kernel⟩
  tx := by decide +kernel
  thread := Or.inl ⟨none, [], by decide +kernel⟩

/-- With small buffers the two ends have come to hold each other up, and remain so. -/
theorem traffic_comes_to_rest_deadlocked :
    (traffic.get traffic_isSome).Deadlocked 16 0 ∧
    ∀ acts' t', Run (Traffic.Step 16 fun _ => true) (traffic.get traffic_isSome) acts' t' →
      t'.Deadlocked 16 0 := by
  refine ⟨deadlocked, fun acts' t' hrun' => ?_⟩
  exact ((traffic_comes_to_rest 16 (by decide) (fun _ => true) acts _ traffic_run).2.2 0 deadlocked
    acts' t' hrun').1

end HeldUpRotation

end Epx
