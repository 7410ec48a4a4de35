import Epx.Access
import Epx.Lib.Transition

/-!
# Trust on first use

`get_or_connect` of `src/client.cpp` under `TrustPolicy::TrustOnFirstUse`, called for one service by
any number of clients and processes of a user. They share the pin in the keystore, and no lock is
held from the look at it to the write of it: a call reads the registry, compares the pin with the
entry, notes whether there is a pin (`freshly_pinned`), asks for it again when the host's ack
arrives, and writes its own pin at the end. Each of these is a step here.

The registry entry and the answering host may be different ones in every call. A call that finds a
live connection opens no session and has no steps. The service name is a single path component, and
a pin that is there can be read.

`pin_peer` replaces whatever is stored. Two first contacts with different entries that overlap
therefore both succeed, and the later one moves the pin.

## Main definitions

* `FirstUse`, `FirstUse.Step` — the pin, the calls under way and the sessions opened
* `FirstUse.PinsStay` — one identity for all sessions, and a pin that does not change
* `FirstUse.FirstContactAlone` — a first contact is made while no other one is under way

## Main results

* `FirstUse.Inv.step`
* `pins_never_move`
-/

namespace Epx

open Codec Transition

/-- Where a call of `get_or_connect` is. -/
inductive PinCall where
  | idle
  /-- `registry::lookup` has given an entry with this identity. -/
  | lookedUp (entry : PublicKey)
  /-- The pin does not contradict it. -/
  | checked (entry : PublicKey)
  /-- `freshly_pinned` is known, and the handshake is under way. -/
  | connected (entry : PublicKey) (fresh : Bool)
  /-- The trust check inside `client_handshake` has passed. -/
  | trusted (identity : PublicKey) (fresh : Bool)
  /-- `client_handshake` has returned a result. -/
  | established (identity : PublicKey) (fresh : Bool)
  | done
  | failed
  deriving DecidableEq

/-- The keystore's pin for the service, the calls, and the identities of the sessions opened. -/
structure FirstUse where
  pin : Option PublicKey
  calls : ℕ → PinCall := fun _ => .idle
  sessions : List PublicKey := []

namespace FirstUse

/-- The steps of a call. -/
inductive Act where
  | lookup (i : ℕ) (entry : PublicKey)
  | pinCheck (i : ℕ)
  /-- `transport::connect`, and the second `load_pinned_peer`. -/
  | connect (i : ℕ)
  /-- The host's ack claims an identity. -/
  | trustCheck (i : ℕ) (claimed : PublicKey)
  /-- The rest of the handshake succeeds. -/
  | complete (i : ℕ)
  | pinPeer (i : ℕ)
  /-- Nothing is listening, or the handshake fails. -/
  | abort (i : ℕ)
  deriving DecidableEq

/-- What the pin check of `get_or_connect` does with an entry. -/
def afterPinCheck (pin : Option PublicKey) (entry : PublicKey) : PinCall :=
  match pin with
  | some key => if key ≠ entry then .failed else .checked entry
  | none => .checked entry

/-- A call has moved on. -/
def move (s : FirstUse) (i : ℕ) (c : PinCall) : FirstUse :=
  { s with calls := Function.update s.calls i c }

def step (s : FirstUse) : Act → Option FirstUse
  | .lookup i entry =>
    match s.calls i with
    | .idle => some (s.move i (.lookedUp entry))
    | _ => none
  | .pinCheck i =>
    match s.calls i with
    | .lookedUp entry => some (s.move i (afterPinCheck s.pin entry))
    | _ => none
  | .connect i =>
    match s.calls i with
    | .checked entry => some (s.move i (.connected entry s.pin.isNone))
    | _ => none
  | .trustCheck i claimed =>
    match s.calls i with
    | .connected entry fresh =>
      some (s.move i (if isClientSideTrusted .trustOnFirstUse [] s.pin entry claimed then
        .trusted claimed fresh else .failed))
    | _ => none
  | .complete i =>
    match s.calls i with
    | .trusted identity fresh =>
      some { s.move i (.established identity fresh) with sessions := s.sessions ++ [identity] }
    | _ => none
  | .pinPeer i =>
    match s.calls i with
    | .established identity fresh =>
      some { s.move i .done with pin := if fresh then some identity else s.pin }
    | _ => none
  | .abort i =>
    match s.calls i with
    | .lookedUp _ | .checked _ | .connected _ _ | .trusted _ _ => some (s.move i .failed)
    | _ => none

abbrev Step : FirstUse → Act → FirstUse → Prop := OfFun step

/-- All sessions have one identity, and a pin that is stored stays in every run of `step`. -/
def PinsStay (step : FirstUse → Act → FirstUse → Prop) (s : FirstUse) : Prop :=
  (∀ k ∈ s.sessions, ∀ k' ∈ s.sessions, k = k') ∧
  ∀ more s', Run step s more s' → ∀ k, s.pin = some k → s'.pin = some k

/-- The trust check of this call has passed, and it has not written its pin. -/
def Past (c : PinCall) (identity : PublicKey) (fresh : Bool) : Prop :=
  c = .trusted identity fresh ∨ c = .established identity fresh

/-- A trust check without a pin is made only while no call with another entry is between its own
trust check and its `pin_peer`. -/
def FirstContactAlone (s : FirstUse) (a : Act) : Prop :=
  ∀ i claimed entry fresh, a = .trustCheck i claimed → s.pin = none →
    s.calls i = .connected entry fresh →
    ∀ j identity fresh', Past (s.calls j) identity fresh' → identity = entry

/-! ### What a step can do -/

/-- One constructor for each way a step can matter to the pin. -/
inductive Effect (s : FirstUse) : Act → FirstUse → Prop
  /-- The call has not got as far as its trust check, or has failed. -/
  | early {a : Act} {i : ℕ} {c : PinCall} : (∀ entry fresh, c ≠ .connected entry fresh) →
      (∀ identity fresh, ¬ Past c identity fresh) →
      (∀ identity fresh, s.calls i ≠ .established identity fresh) → Effect s a (s.move i c)
  | connected {i : ℕ} {entry : PublicKey} :
      s.calls i = .checked entry →
      Effect s (.connect i) (s.move i (.connected entry s.pin.isNone))
  | trusted {i : ℕ} {entry : PublicKey} {fresh : Bool} :
      s.calls i = .connected entry fresh → (∀ k, s.pin = some k → k = entry) →
      Effect s (.trustCheck i entry) (s.move i (.trusted entry fresh))
  | completed {i : ℕ} {identity : PublicKey} {fresh : Bool} :
      s.calls i = .trusted identity fresh →
      Effect s (.complete i)
        { s.move i (.established identity fresh) with sessions := s.sessions ++ [identity] }
  | pinned {i : ℕ} {identity : PublicKey} {fresh : Bool} :
      s.calls i = .established identity fresh →
      Effect s (.pinPeer i)
        { s.move i .done with pin := if fresh then some identity else s.pin }

section

variable {s s' : FirstUse} {a : Act}

theorem effect_of_step (h : s.step a = some s') : Effect s a s' := by
  cases a with
  | lookup i entry =>
    simp only [step] at h
    split at h
    · next hcall =>
      cases h
      exact .early (by simp) (by simp [Past]) (by simp [hcall])
    · cases h
  | pinCheck i =>
    simp only [step] at h
    split at h
    · next entry hcall =>
      cases h
      have hafter :
        afterPinCheck s.pin entry = .failed ∨ afterPinCheck s.pin entry = .checked entry := by
        unfold afterPinCheck
        split
        · split
          · exact Or.inl rfl
          · exact Or.inr rfl
        · exact Or.inr rfl
      obtain heq | heq := hafter
      · rw [heq]
        exact .early (by simp) (by simp [Past]) (by simp [hcall])
      · rw [heq]
        exact .early (by simp) (by simp [Past]) (by simp [hcall])
    · cases h
  | connect i =>
    simp only [step] at h
    split at h
    · next entry hcall =>
      cases h
      exact .connected hcall
    · cases h
  | trustCheck i claimed =>
    simp only [step] at h
    split at h
    · next entry fresh hcall =>
      cases h
      by_cases htrust : isClientSideTrusted .trustOnFirstUse [] s.pin entry claimed = true
      · rw [if_pos htrust]
        obtain ⟨rfl, hpin⟩ := isClientSideTrusted_iff.mp htrust
        exact .trusted hcall hpin
      · rw [if_neg htrust]
        exact .early (by simp) (by simp [Past]) (by simp [hcall])
    · cases h
  | complete i =>
    simp only [step] at h
    split at h
    · next identity fresh hcall =>
      cases h
      exact .completed hcall
    · cases h
  | pinPeer i =>
    simp only [step] at h
    split at h
    · next identity fresh hcall =>
      cases h
      exact .pinned hcall
    · cases h
  | abort i =>
    simp only [step] at h
    cases hcall : s.calls i with
    | lookedUp _ | checked _ | connected _ _ | trusted _ _ =>
      simp only [hcall] at h
      cases h
      exact .early (by simp) (by simp [Past]) (by simp [hcall])
    | idle | established _ _ | done | failed => simp [hcall] at h

/-! ### The invariant -/

/-- Calls past their trust check agree on an identity. Once there is a pin it is the pin, and so is
the identity of every session; before, every session belongs to a call that will write its pin. -/
structure Inv (s : FirstUse) : Prop where
  fresh : s.pin = none → ∀ i identity fresh,
    s.calls i = .connected identity fresh ∨ Past (s.calls i) identity fresh → fresh = true
  agree : ∀ i j identity identity' fresh fresh', Past (s.calls i) identity fresh →
    Past (s.calls j) identity' fresh' → identity = identity'
  pinned : ∀ k, s.pin = some k →
    (∀ i identity fresh, Past (s.calls i) identity fresh → identity = k) ∧ ∀ c ∈ s.sessions, c = k
  pending : s.pin = none → ∀ c ∈ s.sessions, ∃ i, s.calls i = .established c true

theorem inv_start (pin : Option PublicKey) : Inv { pin := pin } where
  fresh := fun _ _ _ _ h => by rcases h with h | h | h <;> cases h
  agree := fun _ _ _ _ _ _ h => by rcases h with h | h <;> cases h
  pinned := fun _ _ => by
    refine ⟨fun _ _ _ h => ?_, by simp⟩
    rcases h with h | h <;> cases h
  pending := fun _ => by simp

theorem Past.unique {c : PinCall} {identity identity' : PublicKey} {fresh fresh' : Bool}
    (h : Past c identity fresh) (h' : Past c identity' fresh') : identity = identity' := by
  rcases h with rfl | rfl
  · rcases h' with h' | h' <;> cases h'
    rfl
  · rcases h' with h' | h' <;> cases h'
    rfl

/-- A call that is past its trust check was so before, or is the one that moved. -/
theorem past_move {i j : ℕ} {c : PinCall} {identity : PublicKey} {fresh : Bool}
    (h : Past ((s.move i c).calls j) identity fresh) :
    (j = i ∧ Past c identity fresh) ∨ (j ≠ i ∧ Past (s.calls j) identity fresh) := by
  by_cases hj : j = i
  · subst hj
    simp only [move, Function.update_self] at h
    exact Or.inl ⟨rfl, h⟩
  · simp only [move, Function.update_of_ne hj] at h
    exact Or.inr ⟨hj, h⟩

theorem connected_move {i j : ℕ} {c : PinCall} {entry : PublicKey} {fresh : Bool}
    (h : (s.move i c).calls j = .connected entry fresh) :
    c = .connected entry fresh ∨ s.calls j = .connected entry fresh := by
  by_cases hj : j = i
  · subst hj
    simp only [move, Function.update_self] at h
    exact Or.inl h
  · simp only [move, Function.update_of_ne hj] at h
    exact Or.inr h

/-- A move that leaves the pin and the sessions alone. What is past its trust check afterwards was
there before, or agrees with the pin and with all that was there. -/
theorem Inv.of_move (hinv : s.Inv) {i : ℕ} {c : PinCall}
    (hkept : ∀ identity fresh, s.calls i ≠ .established identity fresh)
    (hfresh : s.pin = none → ∀ identity fresh,
      c = .connected identity fresh ∨ Past c identity fresh → fresh = true)
    (hpin : ∀ identity fresh k, Past c identity fresh → s.pin = some k → identity = k)
    (hagree : ∀ identity fresh j identity' fresh', Past c identity fresh →
      Past (s.calls j) identity' fresh' → identity' = identity) : (s.move i c).Inv where
  fresh := by
    rintro hnone j identity fresh (hcall | hcall)
    · obtain hnew | hold := connected_move hcall
      · exact hfresh hnone identity fresh (Or.inl hnew)
      · exact hinv.fresh hnone j identity fresh (Or.inl hold)
    · obtain ⟨-, hnew⟩ | ⟨-, hold⟩ := past_move hcall
      · exact hfresh hnone identity fresh (Or.inr hnew)
      · exact hinv.fresh hnone j identity fresh (Or.inr hold)
  agree := by
    intro j j' identity identity' fresh fresh' hj hj'
    obtain ⟨rfl, hnew⟩ | ⟨hne, hold⟩ := past_move hj
    · obtain ⟨rfl, hnew'⟩ | ⟨-, hold'⟩ := past_move hj'
      · exact hnew.unique hnew'
      · exact (hagree identity fresh j' identity' fresh' hnew hold').symm
    · obtain ⟨rfl, hnew'⟩ | ⟨-, hold'⟩ := past_move hj'
      · exact hagree identity' fresh' j identity fresh hnew' hold
      · exact hinv.agree j j' _ _ _ _ hold hold'
  pinned := by
    intro k hk
    refine ⟨fun j identity fresh hj => ?_, (hinv.pinned k hk).2⟩
    obtain ⟨-, hnew⟩ | ⟨-, hold⟩ := past_move hj
    · exact hpin identity fresh k hnew hk
    · exact (hinv.pinned k hk).1 j identity fresh hold
  pending := by
    intro hnone c' hc'
    obtain ⟨j, hj⟩ := hinv.pending hnone c' hc'
    refine ⟨j, ?_⟩
    have hne : j ≠ i := by
      rintro rfl
      exact hkept _ _ hj
    simpa only [move, Function.update_of_ne hne] using hj

theorem Inv.completed (hinv : s.Inv) {i : ℕ} {identity : PublicKey} {fresh : Bool}
    (hcall : s.calls i = .trusted identity fresh) :
    Inv { s.move i (.established identity fresh) with sessions := s.sessions ++ [identity] } := by
  have hpast : Past (s.calls i) identity fresh := Or.inl hcall
  have hown : ∀ {identity' fresh'}, Past (.established identity fresh) identity' fresh' →
      identity' = identity ∧ fresh' = fresh := by
    rintro identity' fresh' (h | h) <;> cases h
    exact ⟨rfl, rfl⟩
  have hmove : (s.move i (.established identity fresh)).Inv := by
    refine hinv.of_move (by simp [hcall]) ?_ ?_ ?_
    · rintro hnone identity' fresh' (h | h)
      · cases h
      · obtain ⟨rfl, rfl⟩ := hown h
        exact hinv.fresh hnone i _ _ (Or.inr hpast)
    · intro identity' fresh' k h hk
      obtain ⟨rfl, rfl⟩ := hown h
      exact (hinv.pinned k hk).1 i _ _ hpast
    · intro identity' fresh' j identity'' fresh'' h hj
      obtain ⟨rfl, rfl⟩ := hown h
      exact hinv.agree j i _ _ _ _ hj hpast
  refine ⟨hmove.fresh, hmove.agree, ?_, ?_⟩
  · intro k hk
    refine ⟨(hmove.pinned k hk).1, fun c hc => ?_⟩
    rcases List.mem_append.mp hc with hold | hnew
    · exact (hmove.pinned k hk).2 c hold
    · rw [List.mem_singleton.mp hnew]
      exact (hinv.pinned k hk).1 i _ _ hpast
  · intro hnone c hc
    rcases List.mem_append.mp hc with hold | hnew
    · exact hmove.pending hnone c hold
    · obtain rfl := hinv.fresh hnone i _ _ (Or.inr hpast)
      rw [List.mem_singleton.mp hnew]
      exact ⟨i, by simp [move]⟩

/-- The pin that a call writes is the one all others would write. -/
theorem Inv.pinned_step (hinv : s.Inv) {i : ℕ} {identity : PublicKey} {fresh : Bool}
    (hcall : s.calls i = .established identity fresh) :
    Inv { s.move i .done with pin := if fresh then some identity else s.pin } ∧
      ∀ k, s.pin = some k → (if fresh then some identity else s.pin) = some k := by
  have hpast : Past (s.calls i) identity fresh := Or.inr hcall
  have hpinned : (if fresh then some identity else s.pin) = s.pin ∨
      s.pin = none ∧ (if fresh then some identity else s.pin) = some identity := by
    cases hpin : s.pin with
    | none =>
      rw [hinv.fresh hpin i identity fresh (Or.inr hpast)]
      exact Or.inr ⟨rfl, rfl⟩
    | some k =>
      rw [(hinv.pinned k hpin).1 i identity fresh hpast]
      exact Or.inl (by cases fresh <;> rfl)
  have hold : ∀ {j identity' fresh'}, Past ((s.move i .done).calls j) identity' fresh' →
      Past (s.calls j) identity' fresh' := by
    intro j identity' fresh' h
    obtain ⟨-, h | h⟩ | ⟨-, h⟩ := past_move h
    · cases h
    · cases h
    · exact h
  -- There is a pin afterwards, and the calls and the sessions have its identity.
  have hafter : ∀ k, (if fresh then some identity else s.pin) = some k →
      (∀ j identity' fresh', Past (s.calls j) identity' fresh' → identity' = k) ∧
        ∀ c ∈ s.sessions, c = k := by
    intro k hk
    obtain hsame | ⟨hnone, hnew⟩ := hpinned
    · exact hinv.pinned k (hsame.symm.trans hk)
    · obtain rfl := Option.some.inj (hnew.symm.trans hk)
      refine ⟨fun j identity' fresh' hj => hinv.agree j i _ _ _ _ hj hpast, fun c hc => ?_⟩
      obtain ⟨j, hj⟩ := hinv.pending hnone c hc
      exact hinv.agree j i _ _ _ _ (Or.inr hj) hpast
  have hsome : (if fresh then some identity else s.pin) ≠ none := by
    intro hnone
    obtain hsame | ⟨-, hnew⟩ := hpinned
    · have hfresh := hinv.fresh (hsame.symm.trans hnone) i identity fresh (Or.inr hpast)
      rw [hfresh] at hnone
      cases hnone
    · rw [hnew] at hnone
      cases hnone
  refine ⟨⟨fun hnone => absurd hnone hsome, ?_, ?_, fun hnone => absurd hnone hsome⟩, ?_⟩
  · intro j j' _ _ _ _ hj hj'
    exact hinv.agree j j' _ _ _ _ (hold hj) (hold hj')
  · intro k hk
    exact ⟨fun j _ _ hj => (hafter k hk).1 j _ _ (hold hj), (hafter k hk).2⟩
  · intro k hk
    obtain hsame | ⟨hnone, -⟩ := hpinned
    · exact hsame.trans hk
    · rw [hnone] at hk
      cases hk

/-- **A step keeps the identity of the service**, if first contacts are made alone. -/
theorem Inv.step (hinv : s.Inv) (h : s.Step a s') (halone : s.FirstContactAlone a) :
    s'.Inv ∧ ∀ k, s.pin = some k → s'.pin = some k := by
  cases effect_of_step h with
  | early hconnected hpast hkept =>
    refine ⟨hinv.of_move hkept ?_ ?_ ?_, fun k hk => hk⟩
    · rintro - identity fresh (h | h)
      · exact absurd h (hconnected identity fresh)
      · exact absurd h (hpast identity fresh)
    · intro identity fresh k h
      exact absurd h (hpast identity fresh)
    · intro identity fresh _ _ _ h
      exact absurd h (hpast identity fresh)
  | connected hcall =>
    refine ⟨hinv.of_move (by simp [hcall]) ?_ ?_ ?_, fun k hk => hk⟩
    · rintro hnone identity fresh (h | h | h) <;> cases h
      rw [hnone]
      rfl
    · rintro identity fresh k (h | h) <;> cases h
    · rintro identity fresh j identity' fresh' (h | h) <;> cases h
  | @trusted i entry fresh hcall hpin =>
    refine ⟨hinv.of_move (by simp [hcall]) ?_ ?_ ?_, fun k hk => hk⟩
    · rintro hnone identity fresh' (h | h | h) <;> cases h
      exact hinv.fresh hnone i _ _ (Or.inl hcall)
    · rintro identity fresh' k (h | h) hk <;> cases h
      exact (hpin k hk).symm
    · rintro identity fresh' j identity' fresh'' (h | h) hj <;> cases h
      cases hnone : s.pin with
      | none => exact halone i entry entry fresh rfl hnone hcall j identity' fresh'' hj
      | some k => exact ((hinv.pinned k hnone).1 j _ _ hj).trans (hpin k hnone)
  | completed hcall => exact ⟨hinv.completed hcall, fun k hk => hk⟩
  | pinned hcall => exact hinv.pinned_step hcall

theorem Inv.one_identity (hinv : s.Inv) : ∀ k ∈ s.sessions, ∀ k' ∈ s.sessions, k = k' := by
  intro k hk k' hk'
  cases hpin : s.pin with
  | none =>
    obtain ⟨i, hi⟩ := hinv.pending hpin k hk
    obtain ⟨j, hj⟩ := hinv.pending hpin k' hk'
    exact hinv.agree i j _ _ _ _ (Or.inr hi) (Or.inr hj)
  | some p => exact ((hinv.pinned p hpin).2 k hk).trans ((hinv.pinned p hpin).2 k' hk').symm

end

end FirstUse

/-- **Pins never move** in a run in which every first contact is made alone: whatever the keystore
held at the start, all sessions have one identity, and a pin that is stored stays. -/
theorem pins_never_move (pin : Option PublicKey) (acts : List FirstUse.Act) (s : FirstUse)
    (hrun : Run (Guarded FirstUse.Step FirstUse.FirstContactAlone) { pin := pin } acts s) :
    s.PinsStay (Guarded FirstUse.Step FirstUse.FirstContactAlone) := by
  have hinv := hrun.preserves (I := FirstUse.Inv) (FirstUse.inv_start pin)
    fun _ _ _ h hstep => (h.step hstep.1 hstep.2).1
  refine ⟨hinv.one_identity, fun more s' hmore k hk => ?_⟩
  have hkeep := hmore.preserves (I := fun t => t.Inv ∧ t.pin = some k) ⟨hinv, hk⟩
    fun _ _ _ h hstep =>
      ⟨(h.1.step hstep.1 hstep.2).1, (h.1.step hstep.1 hstep.2).2 k h.2⟩
  exact hkeep.2

/-! ### Two first contacts at once -/

namespace RacingPins

def here : PublicKey := Block.fill 32 1

def there : PublicKey := Block.fill 32 2

/-- Two calls have looked up different entries and are connected. -/
def entering : List FirstUse.Act :=
  [.lookup 0 here, .pinCheck 0, .connect 0, .lookup 1 there, .pinCheck 1, .connect 1]

def entered : FirstUse :=
  { pin := none
    calls := Function.update (Function.update (fun _ => .idle) 0 (.connected here true)) 1
      (.connected there true) }

theorem run_entered : Run FirstUse.Step { pin := none } entering entered := by
  apply run_of_exec
  rw [show exec FirstUse.step { pin := none } entering = some _ from rfl, Option.some.injEq]
  simp [FirstUse.move, entered, FirstUse.afterPinCheck]

/-- The steps before the trust checks need no guard. -/
theorem guarded_entered :
    Run (Guarded FirstUse.Step FirstUse.FirstContactAlone) { pin := none } entering entered := by
  refine run_entered.mono_of_mem fun s a s' ha hstep => ⟨hstep, ?_⟩
  rintro i claimed entry fresh rfl
  simp [entering] at ha

/-- Nobody is past the trust check yet. -/
theorem not_past_entered (j : ℕ) (identity : PublicKey) (fresh : Bool) :
    ¬ FirstUse.Past (entered.calls j) identity fresh := by
  have hcases : entered.calls j = .connected there true ∨ entered.calls j = .connected here true ∨
      entered.calls j = .idle := by
    by_cases h1 : j = 1
    · exact Or.inl (by simp [entered, h1])
    · by_cases h0 : j = 0
      · exact Or.inr (Or.inl (by simp [entered, h0]))
      · exact Or.inr (Or.inr (by simp [entered, h0, h1]))
  rintro (h | h)
  · rcases hcases with hcall | hcall | hcall <;> simp [hcall] at h
  · rcases hcases with hcall | hcall | hcall <;> simp [hcall] at h

/-- Both calls pass their trust checks before either has pinned. -/
def racing : List FirstUse.Act :=
  [.trustCheck 0 here, .trustCheck 1 there, .complete 0, .complete 1]

def raceEnd : Option FirstUse := exec FirstUse.step entered racing

theorem raceEnd_isSome : raceEnd.isSome = true := by decide +kernel

theorem run_race : Run FirstUse.Step { pin := none } (entering ++ racing)
    (raceEnd.get raceEnd_isSome) :=
  run_entered.trans (run_of_exec (Option.some_get raceEnd_isSome).symm)

/-- The first call has pinned when the second one comes to its trust check. -/
def pinned : Option FirstUse :=
  exec FirstUse.step entered [.trustCheck 0 here, .complete 0, .pinPeer 0]

theorem pinned_isSome : pinned.isSome = true := by decide +kernel

theorem run_pinned : Run (Guarded FirstUse.Step FirstUse.FirstContactAlone) { pin := none }
    (entering ++ [.trustCheck 0 here, .complete 0, .pinPeer 0]) (pinned.get pinned_isSome) := by
  have hrun := run_of_exec (Option.some_get pinned_isSome).symm
  obtain ⟨t, htrust, hrest⟩ := hrun.uncons
  have hfirst : Run (Guarded FirstUse.Step FirstUse.FirstContactAlone) entered
      [.trustCheck 0 here] t := by
    refine Run.nil.snoc ⟨htrust, ?_⟩
    intro _ _ _ _ _ _ _ j identity fresh hpast
    exact absurd hpast (not_past_entered j identity fresh)
  have hlater : Run (Guarded FirstUse.Step FirstUse.FirstContactAlone) t
      [.complete 0, .pinPeer 0] (pinned.get pinned_isSome) := by
    refine hrest.mono_of_mem fun s a s' ha hstep => ⟨hstep, ?_⟩
    rintro i claimed entry fresh rfl
    simp at ha
  exact guarded_entered.trans (hfirst.trans hlater)

end RacingPins

open RacingPins

theorem pins_never_move_pinned :
    (pinned.get pinned_isSome).pin = some here ∧ (pinned.get pinned_isSome).sessions = [here] ∧
      (pinned.get pinned_isSome).PinsStay
        (Guarded FirstUse.Step FirstUse.FirstContactAlone) :=
  ⟨by decide +kernel, by decide +kernel, pins_never_move none _ _ run_pinned⟩

/-- Two clients hold sessions with different identities. -/
theorem racing_first_contacts :
    ¬ ∀ (pin : Option PublicKey) (acts : List FirstUse.Act) (s : FirstUse),
      Run FirstUse.Step { pin := pin } acts s → s.PinsStay FirstUse.Step := by
  intro hclaim
  have hone := (hclaim none _ _ run_race).1
  have hsessions : (raceEnd.get raceEnd_isSome).sessions = [here, there] := by decide +kernel
  rw [hsessions] at hone
  have heq := hone here (by simp) there (by simp)
  exact absurd heq (by decide)

end Epx
