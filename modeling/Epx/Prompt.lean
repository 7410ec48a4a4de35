import Epx.Access
import Epx.Keystore
import Epx.Lib.Transition

/-!
# Asking the user

`authorize` of `src/host.cpp` with `load_authz_decision` and `save_authz_decision` of
`src/keystore.cpp`, called by any number of connections of a host. A connection handles one frame at
a time, so it has one call under way. The look at the connection's own cache, the look at the file
of decisions, the callback and the append to the file are separate steps: no lock is held over them,
and a callback runs for as long as the user thinks about the answer.

An endpoint keeps the policy it is exposed with. The file is only appended to, so a call that reads
it finds what is there when it comes to the end.

## Main definitions

* `AuthCall`, `AuthConn`, `PromptEvent` — calls, connections, and what is seen of them
* `PromptHost`, `PromptHost.step` — the machine, for the policies of the endpoints

## Main results

* `PromptHost.run_authorize` — a call that nothing interrupts does what `authorize` says
-/

namespace Epx

open Codec Text Transition

/-- `d != PromptDecision::Deny`. -/
def PromptDecision.allows (d : PromptDecision) : Bool := decide (d ≠ .deny)

/-- Where a call of `authorize` is. -/
inductive AuthCall where
  | idle
  /-- The connection has no decision from before. -/
  | entered (endpoint : Bytes)
  /-- The file has none either. -/
  | missed (endpoint : Bytes)
  /-- The callback runs. -/
  | asking (endpoint : Bytes)
  /-- The answer is to be kept. -/
  | saving (endpoint : Bytes) (allowed : Bool)
  /-- `write_private_file` has the file open, and this is left to write. -/
  | writing (endpoint : Bytes) (allowed : Bool) (rest : Bytes)
  /-- The decision is made and neither cached nor returned yet. -/
  | deciding (endpoint : Bytes) (allowed : Bool)
  /-- An exception has left `authorize`, or the connection has ended. -/
  | gone
  deriving DecidableEq

/-- The endpoint that a call is about. -/
def AuthCall.about : AuthCall → Option Bytes
  | .entered e | .missed e | .asking e | .saving e _ | .writing e _ _ | .deciding e _ => some e
  | .idle | .gone => none

/-- The call has an answer to keep. -/
def AuthCall.Saves (c : AuthCall) (e : Bytes) (allowed : Bool) : Prop :=
  c = .saving e allowed ∨ ∃ rest, c = .writing e allowed rest

/-- The call has neither an answer nor a decision. -/
def AuthCall.early : AuthCall → Bool
  | .idle | .entered _ | .missed _ | .asking _ => true
  | .saving _ _ | .writing _ _ _ | .deciding _ _ | .gone => false

/-- The call has found no decision in the file, and has not written one. -/
def AuthCall.pending (c : AuthCall) (e : Bytes) : Bool :=
  match c with
  | .missed e' | .asking e' | .saving e' _ | .writing e' _ _ => e' = e
  | _ => false

/-- A connection: its peer, its `authz_cache` and its call. -/
structure AuthConn where
  peer : PeerInfo := { publicKey := Block.zero 32, peerUid := -1 }
  cache : List (Bytes × Bool) := []
  call : AuthCall := .idle
  deriving DecidableEq

/-- The key of the connection's peer. -/
def AuthConn.key (c : AuthConn) : PublicKey := c.peer.publicKey

/-- The call is about the key and the endpoint. -/
def AuthConn.concerns (k : PublicKey) (e : Bytes) (c : AuthConn) : Bool :=
  c.key = k ∧ c.call.about = some e

/-- The call has found no decision about the two in the file, and has not written one. -/
def AuthConn.waits (k : PublicKey) (e : Bytes) (c : AuthConn) : Bool :=
  c.key = k ∧ c.call.pending e = true

/-- The connection has a decision about the endpoint. -/
def AuthConn.Holds (c : AuthConn) (e : Bytes) (allowed : Bool) : Prop :=
  c.cache.lookup e = some allowed ∨ c.call = .deciding e allowed

/-- What happens on connection `i` for the key and the endpoint. -/
inductive PromptEvent where
  /-- The callback is invoked. -/
  | invoked (i : ℕ) (k : PublicKey) (e : Bytes)
  /-- The callback returns. -/
  | answered (i : ℕ) (k : PublicKey) (e : Bytes) (d : PromptDecision)
  /-- A line has been appended to the file. -/
  | saved (i : ℕ) (k : PublicKey) (e : Bytes) (allowed : Bool)
  /-- `authorize` returns. -/
  | decided (i : ℕ) (k : PublicKey) (e : Bytes) (allowed : Bool)
  deriving DecidableEq

/-- What an event has appended to the file. -/
def PromptEvent.savedLine : PromptEvent → Bytes
  | .saved _ k e allowed => decisionLine k e allowed ++ [lineFeed]
  | _ => []

/-- The file of decisions of the service, and the connections so far. -/
structure PromptHost where
  file : Bytes
  opened : ℕ := 0
  conns : ℕ → AuthConn := fun _ => {}
  log : List PromptEvent := []

namespace PromptHost

inductive Act where
  /-- The handshake with a peer has succeeded. -/
  | accept (peer : PeerInfo)
  /-- A frame for an endpoint arrives and `authorize` is called; `view` is what the tiers without a
  prompt decide from. -/
  | request (i : ℕ) (e : Bytes) (view : HostView)
  /-- `load_authz_decision`. -/
  | load (i : ℕ)
  /-- The callback is copied, if there is one, and invoked. -/
  | invoke (i : ℕ) (registered : Bool)
  | answer (i : ℕ) (d : PromptDecision)
  /-- `ensure_private_dir`, which throws or not, and `open`, which succeeds or not. -/
  | openFile (i : ℕ) (result : Except Exn Bool)
  /-- `write` takes `n` bytes, none when it fails. -/
  | write (i : ℕ) (n : ℕ)
  /-- The decision is cached and returned. -/
  | decide (i : ℕ)
  /-- The connection ends between two frames, or the callback throws. -/
  | leave (i : ℕ)

/-- A call has moved on. -/
def move (s : PromptHost) (i : ℕ) (c : AuthCall) : PromptHost :=
  { s with conns := Function.update s.conns i { s.conns i with call := c } }

def record (s : PromptHost) (ev : PromptEvent) : PromptHost := { s with log := s.log ++ [ev] }

/-- The key of a connection's peer. -/
def key (s : PromptHost) (i : ℕ) : PublicKey := (s.conns i).key

/-- `conn_cache[endpoint] = allowed; return allowed;`. -/
def finish (s : PromptHost) (i : ℕ) (e : Bytes) (allowed : Bool) : PromptHost :=
  { s with
    conns := Function.update s.conns i
      { s.conns i with cache := (e, allowed) :: (s.conns i).cache, call := .idle }
    log := s.log ++ [.decided i (s.key i) e allowed] }

section

variable (service : Bytes) (policy : Bytes → AccessPolicy)

def step (s : PromptHost) : Act → Option PromptHost
  | .accept peer =>
    some { s with
      opened := s.opened + 1
      conns := Function.update s.conns s.opened { peer := peer } }
  | .request i e view =>
    if i < s.opened ∧ (s.conns i).call = .idle then
      match (s.conns i).cache.lookup e with
      | some allowed => some (s.record (.decided i (s.key i) e allowed))
      | none =>
        if (policy e).tier = .promptUser then some (s.move i (.entered e))
        else
          match decideAccess service view (s.conns i).peer e (policy e) with
          | .ok allowed => some (s.move i (.deciding e allowed))
          | .error _ => some (s.move i .gone)
    else none
  | .load i =>
    match (s.conns i).call with
    | .entered e =>
      match loadAuthzDecision s.file (s.key i) e with
      | some allowed => some (s.move i (.deciding e allowed))
      | none => some (s.move i (.missed e))
    | _ => none
  | .invoke i registered =>
    match (s.conns i).call with
    | .missed e =>
      if registered = true then some ((s.move i (.asking e)).record (.invoked i (s.key i) e))
      else some (s.move i (.deciding e false)) -- no way to ask: deny
    | _ => none
  | .answer i d =>
    match (s.conns i).call with
    | .asking e =>
      some ((s.move i (if d = .alwaysAllow ∨ d = .deny then .saving e d.allows
        else .deciding e d.allows)).record (.answered i (s.key i) e d))
    | _ => none
  | .openFile i result =>
    match (s.conns i).call with
    | .saving e allowed =>
      match result with
      | .error _ => some (s.move i .gone)
      | .ok false => some (s.move i (.deciding e allowed))
      | .ok true =>
        some (s.move i (.writing e allowed (decisionLine (s.key i) e allowed ++ [lineFeed])))
    | _ => none
  | .write i n =>
    match (s.conns i).call with
    | .writing e allowed rest =>
      if n = 0 then some (s.move i (.deciding e allowed))
      else if n < rest.length then
        some { s.move i (.writing e allowed (rest.drop n)) with file := s.file ++ rest.take n }
      else
        some ({ s.move i (.deciding e allowed) with file := s.file ++ rest }.record
          (.saved i (s.key i) e allowed))
    | _ => none
  | .decide i =>
    match (s.conns i).call with
    | .deciding e allowed => some (s.finish i e allowed)
    | _ => none
  | .leave i =>
    match (s.conns i).call with
    | .idle => if i < s.opened then some (s.move i .gone) else none
    | .asking _ => some (s.move i .gone)
    | _ => none

abbrev Step : PromptHost → Act → PromptHost → Prop := OfFun (step service policy)

end

/-! ### A call that nothing interrupts -/

section

variable {service : Bytes} {policy : Bytes → AccessPolicy} {s : PromptHost} {i : ℕ}

@[simp] theorem move_conns_self (c : AuthCall) :
    (s.move i c).conns i = { s.conns i with call := c } :=
  Function.update_self ..

@[simp] theorem move_move (c c' : AuthCall) : (s.move i c).move i c' = s.move i c' := by
  simp [move]

theorem move_file (c : AuthCall) : (s.move i c).file = s.file := rfl

theorem key_move (c : AuthCall) : (s.move i c).key i = s.key i := by
  rw [key, move_conns_self]
  rfl

/-- The end of a call. -/
theorem run_decide {s' : PromptHost} {acts : List Act} {e : Bytes} {allowed : Bool}
    (hrun : Run (Step service policy) s acts s')
    (hconn : s'.conns i = { s.conns i with call := .deciding e allowed }) :
    ∃ more t, Run (Step service policy) s more t ∧
      t.conns i = { s.conns i with cache := (e, allowed) :: (s.conns i).cache, call := .idle } ∧
      t.log.getLast? = some (.decided i (s.key i) e allowed) := by
  refine ⟨acts ++ [.decide i], s'.finish i e allowed, hrun.snoc ?_, ?_, ?_⟩
  · simp only [OfFun, step, hconn]
  · simp [finish, hconn]
  · rw [finish, List.getLast?_concat, key, hconn]
    rfl

/-- What is decided after an answer, whether it is kept or not. -/
theorem allowed_of_answer {view : HostView} {d : PromptDecision} {allowed : Bool}
    (h : (if d = .alwaysAllow ∨ d = .deny then do
        view.saveAuthzDecision
        pure (decide (d ≠ .deny))
      else pure (decide (d ≠ .deny)) : Except Exn Bool) = .ok allowed) : allowed = d.allows := by
  split at h
  · cases hsave : view.saveAuthzDecision with
    | error x =>
      rw [hsave] at h
      cases h
    | ok u =>
      rw [hsave] at h
      exact (Except.ok.inj h).symm
  · exact (Except.ok.inj h).symm

/-- An answer that is to be kept is written. -/
theorem run_save {e : Bytes} {allowed : Bool} (hcall : (s.conns i).call = .saving e allowed) :
    ∃ acts t, Run (Step service policy) s acts t ∧
      t.conns i = { s.conns i with call := .deciding e allowed } := by
  let line := decisionLine (s.key i) e allowed ++ [lineFeed]
  have hlen : line.length ≠ 0 := by simp [line]
  have hopen : Run (Step service policy) s [.openFile i (.ok true)]
      (s.move i (.writing e allowed line)) := by
    refine Run.nil.snoc ?_
    simp only [OfFun, step, hcall, line]
  have hwrite : Run (Step service policy) s ([.openFile i (.ok true)] ++ [.write i line.length])
      ({ s.move i (.deciding e allowed) with file := s.file ++ line }.record
        (.saved i (s.key i) e allowed)) := by
    refine hopen.snoc ?_
    simp only [OfFun, step, move_conns_self, move_move, key_move, move_file]
    rw [if_neg hlen, if_neg (lt_irrefl _)]
  exact ⟨_, _, hwrite, move_conns_self _⟩

/-- From the answer to the decision. -/
theorem run_answer {e : Bytes} (d : PromptDecision) (hcall : (s.conns i).call = .asking e) :
    ∃ acts t, Run (Step service policy) s acts t ∧
      t.conns i = { s.conns i with call := .deciding e d.allows } := by
  have hans : Run (Step service policy) s [.answer i d]
      ((s.move i (if d = .alwaysAllow ∨ d = .deny then .saving e d.allows
        else .deciding e d.allows)).record (.answered i (s.key i) e d)) := by
    refine Run.nil.snoc ?_
    simp only [OfFun, step, hcall]
  by_cases hkept : d = .alwaysAllow ∨ d = .deny
  · rw [if_pos hkept] at hans
    have hconn : ((s.move i (.saving e d.allows)).record (.answered i (s.key i) e d)).conns i
        = { s.conns i with call := .saving e d.allows } := move_conns_self _
    obtain ⟨acts, t, hrun, ht⟩ := run_save (congrArg AuthConn.call hconn)
    exact ⟨_, t, hans.trans hrun, by rw [ht, hconn]⟩
  · rw [if_neg hkept] at hans
    exact ⟨_, _, hans, move_conns_self _⟩

/-- The call of a `PromptUser` endpoint, up to the decision. -/
theorem run_prompt {e : Bytes} {view : HostView} {allowed : Bool} (hi : i < s.opened)
    (hidle : (s.conns i).call = .idle) (hcache : (s.conns i).cache.lookup e = none)
    (htier : (policy e).tier = .promptUser)
    (hview : view.loadAuthzDecision (s.conns i).peer.publicKey e
      = loadAuthzDecision s.file (s.key i) e)
    (h : decideAccess service view (s.conns i).peer e (policy e) = .ok allowed) :
    ∃ acts t, Run (Step service policy) s acts t ∧
      t.conns i = { s.conns i with call := .deciding e allowed } := by
  have henter : Run (Step service policy) s [.request i e view] (s.move i (.entered e)) := by
    refine Run.nil.snoc ?_
    simp [OfFun, step, hi, hidle, hcache, htier]
  simp only [decideAccess, htier, hview] at h
  cases hload : loadAuthzDecision s.file (s.key i) e with
  | some found =>
    rw [hload] at h
    cases h
    refine ⟨_, s.move i (.deciding e allowed), henter.snoc (a := .load i) ?_, move_conns_self _⟩
    simp [OfFun, step, key_move, move_file, hload]
  | none =>
    have hmiss : Run (Step service policy) s ([.request i e view] ++ [.load i])
        (s.move i (.missed e)) := by
      refine henter.snoc ?_
      simp [OfFun, step, key_move, move_file, hload]
    rw [hload] at h
    cases hprompt : view.prompt with
    | none =>
      rw [hprompt] at h
      cases h
      refine ⟨_, s.move i (.deciding e false), hmiss.snoc (a := .invoke i false) ?_,
        move_conns_self _⟩
      simp [OfFun, step]
    | some cb =>
      rw [hprompt] at h
      dsimp only at h
      have hask : Run (Step service policy) s
          (([.request i e view] ++ [.load i]) ++ [.invoke i true])
          ((s.move i (.asking e)).record (.invoked i (s.key i) e)) := by
        refine hmiss.snoc ?_
        simp [OfFun, step, key_move]
      have hconn : ((s.move i (.asking e)).record (.invoked i (s.key i) e)).conns i
          = { s.conns i with call := .asking e } := move_conns_self _
      obtain ⟨acts, t, hrun, ht⟩ := run_answer (cb (s.conns i).peer e (policy e).promptReason)
        (congrArg AuthConn.call hconn)
      exact ⟨_, t, hask.trans hrun, by rw [ht, hconn, allowed_of_answer h]⟩

/-- **A call that nothing interrupts does what `authorize` says**, if the view it decides from is
that of the file. -/
theorem run_authorize {e : Bytes} {view : HostView} {allowed : Bool}
    {connCache : List (Bytes × Bool)}
    (hi : i < s.opened) (hidle : (s.conns i).call = .idle)
    (hview : view.loadAuthzDecision (s.key i) e = loadAuthzDecision s.file (s.key i) e)
    (h : authorize service view (s.conns i).peer e (policy e) (s.conns i).cache
      = .ok (allowed, connCache)) :
    ∃ acts t, Run (Step service policy) s acts t ∧
      t.conns i = { s.conns i with cache := connCache } ∧
      t.log.getLast? = some (.decided i (s.key i) e allowed) := by
  rw [authorize] at h
  cases hcache : (s.conns i).cache.lookup e with
  | some found =>
    rw [hcache] at h
    cases h
    refine ⟨[.request i e view], s.record (.decided i (s.key i) e allowed), Run.nil.snoc ?_,
      rfl, ?_⟩
    · simp [OfFun, step, hi, hidle, hcache]
    · exact List.getLast?_concat
  | none =>
    rw [hcache] at h
    obtain ⟨allowed', hdecide, hrest⟩ : ∃ allowed', decideAccess service view (s.conns i).peer e
        (policy e) = .ok allowed' ∧ (allowed', (e, allowed') :: (s.conns i).cache)
          = (allowed, connCache) := by
      cases hdecide : decideAccess service view (s.conns i).peer e (policy e) with
      | error x =>
        rw [hdecide] at h
        cases h
      | ok allowed' =>
        rw [hdecide] at h
        exact ⟨allowed', rfl, Except.ok.inj h⟩
    cases hrest
    have hreach : ∃ acts t, Run (Step service policy) s acts t ∧
        t.conns i = { s.conns i with call := .deciding e allowed } := by
      by_cases htier : (policy e).tier = .promptUser
      · exact run_prompt hi hidle hcache htier hview hdecide
      · refine ⟨[.request i e view], s.move i (.deciding e allowed), Run.nil.snoc ?_,
          move_conns_self _⟩
        simp [OfFun, step, hi, hidle, hcache, htier, hdecide]
    obtain ⟨acts, t, hrun, hconn⟩ := hreach
    obtain ⟨more, u, hmore, hend, hlog⟩ := run_decide hrun hconn
    refine ⟨more, u, hmore, ?_, hlog⟩
    rw [hend, ← hidle]

end

end PromptHost

end Epx
