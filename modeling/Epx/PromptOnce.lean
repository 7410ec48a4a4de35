import Epx.Lib.Log
import Epx.Prompt

/-!
# Asking the user once

Two calls of `authorize` for one peer and one endpoint that both find no decision both ask, and the
user may answer them differently. If a call looks at the file only when no other call about the two
is getting the decision, and every answer is written as one line, the user is asked once: an answer
that is to be kept is on its way to the file, or what the file says, and nobody asks meanwhile. The
service name is a single path component, and a decision file that is there can be read.

## Main definitions

* `PromptHost.AskedOnce` — what the user may rely on
* `PromptHost.orderly` — no call looks for a decision while another call is getting it
* `PromptHost.ConnInv`, `PromptHost.Inv`

## Main results

* `PromptHost.effect_of_step`
* `PromptHost.Inv.step`
* `asked_once`
* `second_prompt`
-/

namespace Epx

open Codec Log Text Transition

namespace PromptHost

/-! ### What the user may rely on -/

section

variable (k : PublicKey) (e : Bytes)

/-- **The user is asked at most once**, for the peer `k` and the endpoint `e`: after an answer that
is to be kept there is no prompt, and every decision agrees with the answer; an `AllowOnce` holds on
its own connection and nowhere else, and is not written to the file. -/
structure AskedOnce (file : Bytes) (s : PromptHost) : Prop where
  never_again : ∀ i j d, Precedes (.answered i k e d) (.invoked j k e) s.log → d = .allowOnce
  /-- Only on a connection that has an `AllowOnce` from before may a decision differ. -/
  agrees : ∀ i j d allowed, Precedes (.answered i k e d) (.decided j k e allowed) s.log →
    d ≠ .allowOnce → allowed = d.allows ∨
      allowed = true ∧ Precedes (.answered j k e .allowOnce) (.answered i k e d) s.log
  /-- `AllowOnce` is honoured on its own connection. -/
  honoured : ∀ i, ¬ Precedes (.answered i k e .allowOnce) (.invoked i k e) s.log ∧
    ∀ allowed, Precedes (.answered i k e .allowOnce) (.decided i k e allowed) s.log → allowed = true
  /-- What is decided on a connection is its own answer or what the file says. -/
  only : ∀ j allowed, .decided j k e allowed ∈ s.log →
    (∃ d, allowed = d.allows ∧ Precedes (.answered j k e d) (.decided j k e allowed) s.log) ∨
      loadAuthzDecision s.file k e = some allowed
  /-- The file has grown by the answers that are to be kept. -/
  file_eq : s.file = file ++ s.log.flatMap PromptEvent.savedLine
  kept : ∀ i allowed, .saved i k e allowed ∈ s.log →
    (∃ d, d ≠ .allowOnce ∧ allowed = d.allows ∧ .answered i k e d ∈ s.log) ∧
      .answered i k e .allowOnce ∉ s.log

/-- **The condition.** A call about the two looks at the file only when no other call about them is
between a look that found nothing and its end. A callback is registered, an answer about the two is
written, and whatever is written is one whole line: the file does not end in the middle of a line,
the endpoint has no line feed in it, and `write` takes all of it. -/
def orderly (s : PromptHost) : Act → Bool
  | .load i =>
      !(s.conns i).concerns k e || (List.range s.opened).all fun j => !(s.conns j).waits k e
  | .invoke i registered => !(s.conns i).concerns k e || registered
  | .openFile i result =>
    match (s.conns i).call with
    | .saving e' _ =>
      (lineFeed ∉ e') &&
      (!(s.conns i).concerns k e || match result with | .ok opened => opened | _ => false)
    | _ => true
  | .write i n =>
    match (s.conns i).call with
    | .writing _ _ rest => AtLineStart s.file ∧ rest.length ≤ n
    | _ => true
  | _ => true

end

/-! ### What a step can do -/

section

variable {service : Bytes} {policy : Bytes → AccessPolicy} {k : PublicKey} {e : Bytes}
  {s s' : PromptHost} {a : Act} {i j : ℕ} {c : AuthCall}

/-- Where a call goes without a trace in the log. -/
inductive Moves (k : PublicKey) (e : Bytes) (s : PromptHost) (i : ℕ) : AuthCall → Prop
  | enter {e' : Bytes} : (s.conns i).call = .idle → i < s.opened →
      (s.conns i).cache.lookup e' = none → Moves k e s i (.entered e')
  | other {e' : Bytes} {allowed : Bool} : (s.conns i).call = .idle → i < s.opened →
      (s.conns i).cache.lookup e' = none → e' ≠ e → Moves k e s i (.deciding e' allowed)
  | rest : (s.conns i).call = .idle → i < s.opened → Moves k e s i .gone
  | throws {e' : Bytes} : (s.conns i).call = .asking e' → Moves k e s i .gone
  | miss {e' : Bytes} : (s.conns i).call = .entered e' →
      loadAuthzDecision s.file (s.key i) e' = none →
      ((s.conns i).concerns k e = true → ∀ j < s.opened, (s.conns j).waits k e = false) →
      Moves k e s i (.missed e')
  | found {e' : Bytes} {allowed : Bool} : (s.conns i).call = .entered e' →
      loadAuthzDecision s.file (s.key i) e' = some allowed → Moves k e s i (.deciding e' allowed)
  | refuse {e' : Bytes} : (s.conns i).call = .missed e' → (s.conns i).concerns k e = false →
      Moves k e s i (.deciding e' false)
  | write {e' : Bytes} {allowed : Bool} : (s.conns i).call = .saving e' allowed →
      lineFeed ∉ e' →
      Moves k e s i (.writing e' allowed (decisionLine (s.key i) e' allowed ++ [lineFeed]))
  | unsaved {e' : Bytes} {allowed : Bool} {c : AuthCall} : (s.conns i).call = .saving e' allowed →
      (s.conns i).concerns k e = false → c = .gone ∨ c = .deciding e' allowed → Moves k e s i c

/-- What a step that meets the condition does. -/
inductive Effect (k : PublicKey) (e : Bytes) (s : PromptHost) : PromptHost → Prop
  | accepted (peer : PeerInfo) : Effect k e s
      { s with opened := s.opened + 1, conns := Function.update s.conns s.opened { peer := peer } }
  | cached {i : ℕ} {e' : Bytes} {allowed : Bool} : (s.conns i).call = .idle →
      (s.conns i).cache.lookup e' = some allowed →
      Effect k e s (s.record (.decided i (s.key i) e' allowed))
  | moved {i : ℕ} {c : AuthCall} : s.Moves k e i c → Effect k e s (s.move i c)
  | invoked {i : ℕ} {e' : Bytes} : (s.conns i).call = .missed e' →
      Effect k e s ((s.move i (.asking e')).record (.invoked i (s.key i) e'))
  | answered {i : ℕ} {e' : Bytes} (d : PromptDecision) : (s.conns i).call = .asking e' →
      Effect k e s ((s.move i (if d = .alwaysAllow ∨ d = .deny then .saving e' d.allows
        else .deciding e' d.allows)).record (.answered i (s.key i) e' d))
  | saved {i : ℕ} {e' rest : Bytes} {allowed : Bool} : (s.conns i).call = .writing e' allowed rest →
      AtLineStart s.file →
      Effect k e s ({ s.move i (.deciding e' allowed) with file := s.file ++ rest }.record
        (.saved i (s.key i) e' allowed))
  | decided {i : ℕ} {e' : Bytes} {allowed : Bool} : (s.conns i).call = .deciding e' allowed →
      Effect k e s (s.finish i e' allowed)

theorem effect_of_request (htier : (policy e).tier = .promptUser) {e' : Bytes} {view : HostView}
    (h : step service policy s (.request i e' view) = some s') : s.Effect k e s' := by
  simp only [step] at h
  obtain ⟨⟨hi, hcall⟩, h⟩ := Option.ite_none_right_eq_some.mp h
  cases hcache : (s.conns i).cache.lookup e' with
  | some allowed =>
    rw [hcache] at h
    cases h
    exact .cached hcall hcache
  | none =>
    rw [hcache] at h
    dsimp only at h
    split at h
    · cases h
      exact .moved (.enter hcall hi hcache)
    · rename_i hother
      have hne : e' ≠ e := by
        rintro rfl
        exact hother htier
      split at h
      · cases h
        exact .moved (.other hcall hi hcache hne)
      · cases h
        exact .moved (.rest hcall hi)

theorem effect_of_load (h : step service policy s (.load i) = some s')
    (hg : s.orderly k e (.load i) = true) : s.Effect k e s' := by
  simp only [step] at h
  split at h
  · rename_i e' hcall
    split at h
    · rename_i allowed hload
      cases h
      exact .moved (.found hcall hload)
    · rename_i hload
      cases h
      refine .moved (.miss hcall hload fun hc j hj => ?_)
      simp only [orderly, hc, Bool.not_true, Bool.false_or, List.all_eq_true, List.mem_range,
        Bool.not_eq_true'] at hg
      exact hg j hj
  · cases h

theorem effect_of_openFile {result : Except Exn Bool}
    (h : step service policy s (.openFile i result) = some s')
    (hg : s.orderly k e (.openFile i result) = true) : s.Effect k e s' := by
  simp only [step] at h
  split at h
  · rename_i e' allowed hcall
    simp only [orderly, hcall, Bool.and_eq_true, decide_eq_true_eq, Bool.or_eq_true,
      Bool.not_eq_true'] at hg
    obtain ⟨hline, hopen⟩ := hg
    split at h
    · cases h
      rcases hopen with hc | hopen
      · exact .moved (.unsaved hcall hc (Or.inl rfl))
      · cases hopen
    · cases h
      rcases hopen with hc | hopen
      · exact .moved (.unsaved hcall hc (Or.inr rfl))
      · cases hopen
    · cases h
      exact .moved (.write hcall hline)
  · cases h

theorem effect_of_write {n : ℕ} (h : step service policy s (.write i n) = some s')
    (hg : s.orderly k e (.write i n) = true)
    (hrest : ∀ e' allowed rest, (s.conns i).call = .writing e' allowed rest → rest ≠ []) :
    s.Effect k e s' := by
  simp only [step] at h
  split at h
  · rename_i e' allowed rest hcall
    have hpos : 0 < rest.length := List.length_pos_iff.mpr (hrest _ _ _ hcall)
    simp only [orderly, hcall, decide_eq_true_eq] at hg
    obtain ⟨hfile, hlen⟩ := hg
    rw [if_neg (by omega), if_neg (by omega)] at h
    cases h
    exact .saved hcall hfile
  · cases h

theorem effect_of_step (htier : (policy e).tier = .promptUser)
    (hrest : ∀ i e' allowed rest, (s.conns i).call = .writing e' allowed rest → rest ≠ [])
    (h : step service policy s a = some s') (hg : s.orderly k e a = true) : s.Effect k e s' := by
  cases a with
  | accept peer =>
    cases h
    exact .accepted peer
  | request i e' view => exact effect_of_request htier h
  | load i => exact effect_of_load h hg
  | invoke i registered =>
    simp only [step] at h
    split at h
    · rename_i e' hcall
      split at h
      · cases h
        exact .invoked hcall
      · rename_i hnone
        simp only [orderly, Bool.or_eq_true, Bool.not_eq_true', hnone, Bool.false_eq_true,
          or_false] at hg
        cases h
        exact .moved (.refuse hcall hg)
    · cases h
  | answer i d =>
    simp only [step] at h
    split at h
    · rename_i e' hcall
      cases h
      exact .answered d hcall
    · cases h
  | openFile i result => exact effect_of_openFile h hg
  | write i n => exact effect_of_write h hg (hrest i)
  | decide i =>
    simp only [step] at h
    split at h
    · rename_i e' allowed hcall
      cases h
      exact .decided hcall
    · cases h
  | leave i =>
    simp only [step] at h
    split at h
    · rename_i hcall
      obtain ⟨hi, h⟩ := Option.ite_none_right_eq_some.mp h
      cases h
      exact .moved (.rest hcall hi)
    · rename_i e' hcall
      cases h
      exact .moved (.throws hcall)
    · cases h

end

/-! ### The invariant -/

section

variable {service : Bytes} {policy : Bytes → AccessPolicy} {k : PublicKey} {e file : Bytes}
  {s s' : PromptHost} {a : Act} {i j : ℕ}

/-- What holds of each connection. -/
structure ConnInv (k : PublicKey) (e file : Bytes) (log : List PromptEvent) (i : ℕ) (c : AuthConn) :
    Prop where
  /-- A call that is under way has found no decision in the cache. -/
  miss : ∀ e', c.call.about = some e' → c.cache.lookup e' = none
  waits : c.waits k e = true → loadAuthzDecision file k e = none
  saves : ∀ e' allowed, c.call.Saves e' allowed →
    ∃ d, d ≠ .allowOnce ∧ allowed = d.allows ∧ .answered i c.key e' d ∈ log
  writes : ∀ e' allowed rest, c.call = .writing e' allowed rest →
    rest = decisionLine c.key e' allowed ++ [lineFeed] ∧ lineFeed ∉ e'
  /-- Where an answer has gone on its own connection. -/
  settled : ∀ d, .answered i k e d ∈ log → c.key = k ∧ (c.call = .gone ∨
    d ≠ .allowOnce ∧ c.call.Saves e d.allows ∨ c.Holds e d.allows)
  /-- An answer that is to be kept is on its way to the file or there. -/
  stored : ∀ d, .answered i k e d ∈ log → d ≠ .allowOnce →
    c.call.Saves e d.allows ∨ loadAuthzDecision file k e = some d.allows
  /-- Where the decision that the connection has comes from. -/
  holds : ∀ allowed, c.key = k → c.Holds e allowed →
    allowed = true ∧ .answered i k e .allowOnce ∈ log ∨ loadAuthzDecision file k e = some allowed
  single : ∀ d d', .answered i k e d ∈ log → .answered i k e d' ∈ log → d = d'

structure Inv (k : PublicKey) (e file : Bytes) (s : PromptHost) : Prop where
  conns : ∀ i, ConnInv k e s.file s.log i (s.conns i)
  fresh : ∀ i, s.opened ≤ i → (s.conns i).call = .idle ∧ ∀ d, .answered i k e d ∉ s.log
  /-- One call gets the decision. -/
  alone : ∀ i j, (s.conns i).waits k e = true → (s.conns j).waits k e = true → i = j
  last : ∀ i j d d', Precedes (.answered i k e d) (.answered j k e d') s.log → d = .allowOnce
  asked : s.AskedOnce k e file

/-- A connection that has just been accepted. -/
theorem ConnInv.start {log : List PromptEvent} (hlog : ∀ d, .answered i k e d ∉ log)
    (peer : PeerInfo) : ConnInv k e file log i { peer := peer } where
  miss _ h := by cases h
  waits h := by simp [AuthConn.waits, AuthCall.pending] at h
  saves _ _ h := by rcases h with h | ⟨_, h⟩ <;> cases h
  writes _ _ _ h := by cases h
  settled d h := absurd h (hlog d)
  stored d h := absurd h (hlog d)
  holds _ _ h := by rcases h with h | h <;> cases h
  single d _ h := absurd h (hlog d)

theorem inv_start (k : PublicKey) (e file : Bytes) : Inv k e file { file := file } where
  conns _ := .start (fun _ => List.not_mem_nil) _
  fresh _ _ := ⟨rfl, fun _ => List.not_mem_nil⟩
  alone _ _ h := by simp [AuthConn.waits, AuthCall.pending] at h
  last _ _ _ _ h := absurd h not_precedes_nil
  asked :=
    { never_again := fun _ _ _ h => absurd h not_precedes_nil
      agrees := fun _ _ _ _ h => absurd h not_precedes_nil
      honoured := fun _ => ⟨not_precedes_nil, fun _ h => absurd h not_precedes_nil⟩
      only := fun _ _ h => absurd h List.not_mem_nil
      file_eq := (List.append_nil file).symm
      kept := fun _ _ h => absurd h List.not_mem_nil }

/-- What is asked and decided depends on the log and the file. -/
theorem AskedOnce.of_eq (h : s.AskedOnce k e file) (hlog : s'.log = s.log)
    (hfile : s'.file = s.file) :
    s'.AskedOnce k e file := by
  constructor
  · rw [hlog]
    exact h.never_again
  · rw [hlog]
    exact h.agrees
  · rw [hlog]
    exact h.honoured
  · rw [hlog, hfile]
    exact h.only
  · rw [hlog, hfile]
    exact h.file_eq
  · rw [hlog]
    exact h.kept

/-- One event more. -/
theorem AskedOnce.snoc (h : s.AskedOnce k e file) {ev : PromptEvent} (hlog : s'.log = s.log ++ [ev])
    (hfile : s'.file = s.file ++ ev.savedLine)
    (hload : ∀ allowed, loadAuthzDecision s.file k e = some allowed →
      loadAuthzDecision s'.file k e = some allowed)
    (hinvoked : ∀ j, ev = .invoked j k e → ∀ i d, .answered i k e d ∈ s.log →
      d = .allowOnce ∧ i ≠ j)
    (hagrees : ∀ j allowed, ev = .decided j k e allowed → ∀ i d, .answered i k e d ∈ s.log →
      d ≠ .allowOnce → allowed = d.allows ∨
        allowed = true ∧ Precedes (.answered j k e .allowOnce) (.answered i k e d) s.log)
    (hhonoured : ∀ j allowed, ev = .decided j k e allowed → .answered j k e .allowOnce ∈ s.log →
      allowed = true)
    (honly : ∀ j allowed, ev = .decided j k e allowed →
      (∃ d, allowed = d.allows ∧ .answered j k e d ∈ s.log) ∨
        loadAuthzDecision s.file k e = some allowed)
    (hsaved : ∀ i allowed, ev = .saved i k e allowed →
      (∃ d, d ≠ .allowOnce ∧ allowed = d.allows ∧ .answered i k e d ∈ s.log) ∧
        .answered i k e .allowOnce ∉ s.log)
    (hanswered : ∀ i d, ev = .answered i k e d → ∀ d', .answered i k e d' ∉ s.log) :
    s'.AskedOnce k e file := by
  constructor
  · intro i j d hp
    rw [hlog, precedes_snoc] at hp
    rcases hp with hp | ⟨hmem, heq⟩
    · exact h.never_again i j d hp
    · exact (hinvoked j heq.symm i d hmem).1
  · intro i j d allowed hp hd
    rw [hlog, precedes_snoc] at hp
    rw [hlog]
    have hold : allowed = d.allows ∨
        allowed = true ∧ Precedes (.answered j k e .allowOnce) (.answered i k e d) s.log := by
      rcases hp with hp | ⟨hmem, heq⟩
      · exact h.agrees i j d allowed hp hd
      · exact hagrees j allowed heq.symm i d hmem hd
    exact hold.imp_right fun ⟨ht, hp⟩ => ⟨ht, hp.append _⟩
  · intro i
    rw [hlog]
    refine ⟨fun hp => ?_, fun allowed hp => ?_⟩
    · rcases precedes_snoc.mp hp with hp | ⟨hmem, heq⟩
      · exact (h.honoured i).1 hp
      · exact (hinvoked i heq.symm i _ hmem).2 rfl
    · rcases precedes_snoc.mp hp with hp | ⟨hmem, heq⟩
      · exact (h.honoured i).2 allowed hp
      · exact hhonoured i allowed heq.symm hmem
  · intro j allowed hmem
    rw [hlog] at hmem ⊢
    rcases List.mem_append.mp hmem with hmem | hmem
    · exact (h.only j allowed hmem).imp (fun ⟨d, hd, hp⟩ => ⟨d, hd, hp.append _⟩) (hload allowed)
    · have heq := List.mem_singleton.mp hmem
      refine (honly j allowed heq.symm).imp (fun ⟨d, hd, hmem⟩ => ⟨d, hd, ?_⟩) (hload allowed)
      exact precedes_snoc.mpr (Or.inr ⟨hmem, heq⟩)
  · rw [hlog, hfile, h.file_eq, List.flatMap_append, List.flatMap_singleton, List.append_assoc]
  · intro i allowed hmem
    rw [hlog] at hmem ⊢
    have hold : (∃ d, d ≠ .allowOnce ∧ allowed = d.allows ∧ .answered i k e d ∈ s.log) ∧
        .answered i k e .allowOnce ∉ s.log := by
      rcases List.mem_append.mp hmem with hmem | hmem
      · exact h.kept i allowed hmem
      · exact hsaved i allowed (List.mem_singleton.mp hmem).symm
    obtain ⟨⟨d, hd, hallowed, hans⟩, hnot⟩ := hold
    refine ⟨⟨d, hd, hallowed, List.mem_append_left _ hans⟩, fun hmem => ?_⟩
    rcases List.mem_append.mp hmem with hmem | hmem
    · exact hnot hmem
    · exact hanswered i _ (List.mem_singleton.mp hmem).symm d hans

/-! ### Calls -/

section

variable {c : AuthCall} {conn : AuthConn} {log : List PromptEvent}

theorem waits_iff : conn.waits k e = true ↔ conn.key = k ∧ conn.call.pending e = true := by
  rw [AuthConn.waits, decide_eq_true_eq]

theorem concerns_iff : conn.concerns k e = true ↔ conn.key = k ∧ conn.call.about = some e := by
  rw [AuthConn.concerns, decide_eq_true_eq]

theorem pending_of_saves {allowed : Bool} (h : c.Saves e allowed) : c.pending e = true := by
  rcases h with rfl | ⟨rest, rfl⟩
  · exact decide_eq_true rfl
  · exact decide_eq_true rfl

theorem not_saves (hsaving : ∀ e' allowed, c ≠ .saving e' allowed)
    (hwriting : ∀ e' allowed rest, c ≠ .writing e' allowed rest) (e' : Bytes) (allowed : Bool) :
    ¬ c.Saves e' allowed := by
  rintro (h | ⟨rest, h⟩)
  · exact hsaving e' allowed h
  · exact hwriting e' allowed rest h

theorem not_saves_of_early (h : c.early = true) : ∀ e' allowed, ¬ c.Saves e' allowed := by
  apply not_saves
  · rintro e' allowed rfl
    cases h
  · rintro e' allowed rest rfl
    cases h

theorem ne_of_early (h : c.early = true) : c ≠ .gone ∧ ∀ e' allowed, c ≠ .deciding e' allowed := by
  refine ⟨?_, ?_⟩
  · rintro rfl
    cases h
  · rintro e' allowed rfl
    cases h

theorem not_saves_deciding {e₀ e' : Bytes} {allowed₀ allowed : Bool} :
    ¬ (AuthCall.deciding e₀ allowed₀).Saves e' allowed := by
  rintro (h | ⟨rest, h⟩)
  · cases h
  · cases h

theorem saves_saving {e₀ e' : Bytes} {allowed₀ allowed : Bool} :
    (AuthCall.saving e₀ allowed₀).Saves e' allowed ↔ e₀ = e' ∧ allowed₀ = allowed := by
  constructor
  · rintro (h | ⟨_, h⟩)
    · cases h
      exact ⟨rfl, rfl⟩
    · cases h
  · rintro ⟨rfl, rfl⟩
    exact Or.inl rfl

theorem saves_writing {e₀ e' rest : Bytes} {allowed₀ allowed : Bool} :
    (AuthCall.writing e₀ allowed₀ rest).Saves e' allowed ↔ e₀ = e' ∧ allowed₀ = allowed := by
  constructor
  · rintro (h | ⟨_, h⟩)
    · cases h
    · cases h
      exact ⟨rfl, rfl⟩
  · rintro ⟨rfl, rfl⟩
    exact Or.inr ⟨rest, rfl⟩

/-- A decision that is cached is the connection's as it was before. -/
theorem lookup_cons_iff_holds {e' : Bytes} {allowed allowed' : Bool}
    (hcall : conn.call = .deciding e' allowed) (hmiss : conn.cache.lookup e' = none) :
    List.lookup e ((e', allowed) :: conn.cache) = some allowed' ↔ conn.Holds e allowed' := by
  rw [List.lookup_cons, AuthConn.Holds, hcall]
  by_cases he : e = e'
  · subst he
    rw [beq_self_eq_true, hmiss]
    simp
  · rw [beq_false_of_ne he]
    simp [Ne.symm he]

/-- A connection that is not looked at, while others write and answer. -/
theorem ConnInv.mono (h : ConnInv k e file log i conn) {file' : Bytes} {log' : List PromptEvent}
    (hlog : ∀ ev ∈ log, ev ∈ log')
    (hans : ∀ d, .answered i k e d ∈ log' → .answered i k e d ∈ log)
    (hload : ∀ allowed, loadAuthzDecision file k e = some allowed →
      loadAuthzDecision file' k e = some allowed)
    (hwaits : conn.waits k e = true → loadAuthzDecision file' k e = none) :
    ConnInv k e file' log' i conn where
  miss := h.miss
  waits := hwaits
  saves e' allowed hs := by
    obtain ⟨d, hd, hallowed, hmem⟩ := h.saves e' allowed hs
    exact ⟨d, hd, hallowed, hlog _ hmem⟩
  writes := h.writes
  settled d hmem := h.settled d (hans d hmem)
  stored d hmem hd := (h.stored d (hans d hmem) hd).imp_right (hload _)
  holds allowed hkey hh :=
    (h.holds allowed hkey hh).imp (fun ⟨ht, hmem⟩ => ⟨ht, hlog _ hmem⟩) (hload allowed)
  single d d' hmem hmem' := h.single d d' (hans d hmem) (hans d' hmem')

/-- The call moves on, and what it has to keep is not lost. -/
theorem ConnInv.move (h : ConnInv k e file log i conn)
    (hmiss : ∀ e', c.about = some e' → conn.cache.lookup e' = none)
    (hwaits : conn.key = k → c.pending e = true → loadAuthzDecision file k e = none)
    (hsaves : ∀ e' allowed, c.Saves e' allowed → conn.call.Saves e' allowed)
    (hwrites : ∀ e' allowed rest, c = .writing e' allowed rest →
      rest = decisionLine conn.key e' allowed ++ [lineFeed] ∧ lineFeed ∉ e')
    (hold : conn.call ≠ .gone ∧ ∀ allowed, conn.call ≠ .deciding e allowed)
    (hkept : conn.key = k → ∀ allowed, conn.call.Saves e allowed → c.Saves e allowed)
    (hholds : conn.key = k → ∀ allowed, c = .deciding e allowed →
      loadAuthzDecision file k e = some allowed) :
    ConnInv k e file log i { conn with call := c } where
  miss := hmiss
  waits hw := by
    rw [waits_iff] at hw
    exact hwaits hw.1 hw.2
  saves e' allowed hs := h.saves e' allowed (hsaves e' allowed hs)
  writes := hwrites
  settled d hmem := by
    obtain ⟨hkey, hplace⟩ := h.settled d hmem
    refine ⟨hkey, ?_⟩
    rcases hplace with hgone | ⟨hd, hs⟩ | hlookup | hcall
    · exact absurd hgone hold.1
    · exact Or.inr (Or.inl ⟨hd, hkept hkey _ hs⟩)
    · exact Or.inr (Or.inr (Or.inl hlookup))
    · exact absurd hcall (hold.2 _)
  stored d hmem hd := (h.stored d hmem hd).imp_left (hkept (h.settled d hmem).1 _)
  holds allowed hkey hh := by
    rcases hh with hlookup | hcall
    · exact h.holds allowed hkey (Or.inl hlookup)
    · exact Or.inr (hholds hkey allowed hcall)
  single := h.single

/-- A call without an answer goes on without one. -/
theorem ConnInv.move_early (h : ConnInv k e file log i conn) (hold : conn.call.early = true)
    (hmiss : ∀ e', c.about = some e' → conn.cache.lookup e' = none)
    (hwaits : conn.key = k → c.pending e = true → loadAuthzDecision file k e = none)
    (hnew : ∀ e' allowed, ¬ c.Saves e' allowed)
    (hholds : conn.key = k → ∀ allowed, c = .deciding e allowed →
      loadAuthzDecision file k e = some allowed) :
    ConnInv k e file log i { conn with call := c } := by
  refine h.move hmiss hwaits ?_ ?_ ⟨(ne_of_early hold).1, (ne_of_early hold).2 e⟩ ?_ hholds
  · intro e' allowed hs
    exact absurd hs (hnew e' allowed)
  · intro e' allowed rest heq
    exact absurd (Or.inr ⟨rest, heq⟩) (hnew e' allowed)
  · intro _ allowed hs
    exact absurd hs (not_saves_of_early hold e allowed)

/-- A call that has neither an answer nor a decision is the first one about the endpoint on its
connection. -/
theorem ConnInv.not_answered (h : ConnInv k e file log i conn) (hearly : conn.call.early = true)
    (habout : conn.call.about = some e) (d : PromptDecision) : .answered i k e d ∉ log := by
  intro hans
  rcases (h.settled d hans).2 with hgone | ⟨-, hsaves⟩ | hlookup | hcall
  · exact (ne_of_early hearly).1 hgone
  · exact not_saves_of_early hearly e _ hsaves
  · rw [h.miss e habout] at hlookup
    cases hlookup
  · exact (ne_of_early hearly).2 e _ hcall

end

/-! ### Steps -/

section

variable {c : AuthCall} {conn : AuthConn}

/-- A call that is under way belongs to a connection. -/
theorem Inv.opened (h : s.Inv k e file) (hcall : (s.conns i).call ≠ .idle) : i < s.opened := by
  by_contra hi
  exact hcall (h.fresh i (by omega)).1

/-- While a call that has no answer yet is getting the decision, every answer so far was an
`AllowOnce`. -/
theorem Inv.allowOnce_of_waits (h : s.Inv k e file) (hw : (s.conns i).waits k e = true)
    (hearly : (s.conns i).call.early = true) {d : PromptDecision}
    (hans : .answered j k e d ∈ s.log) : d = .allowOnce := by
  by_contra hd
  rcases (h.conns j).stored d hans hd with hsaves | hload
  · have hw' := waits_iff.mpr ⟨((h.conns j).settled d hans).1, pending_of_saves hsaves⟩
    obtain rfl := h.alone i j hw hw'
    exact not_saves_of_early hearly e _ hsaves
  · rw [(h.conns i).waits hw] at hload
    cases hload

/-- One connection changes. -/
theorem Inv.update (h : s.Inv k e file) (hi : i < s.opened)
    (hconns : s'.conns = Function.update s.conns i conn) (hopened : s'.opened = s.opened)
    (hself : ConnInv k e s'.file s'.log i conn)
    (hother : ∀ j, j ≠ i → ConnInv k e s'.file s'.log j (s.conns j))
    (hans : ∀ j, j ≠ i → ∀ d, .answered j k e d ∈ s'.log → .answered j k e d ∈ s.log)
    (hwaits : conn.waits k e = true → ∀ j, (s.conns j).waits k e = true → j = i)
    (hlast : ∀ i j d d', Precedes (.answered i k e d) (.answered j k e d') s'.log → d = .allowOnce)
    (hasked : s'.AskedOnce k e file) : s'.Inv k e file := by
  have hsplit : ∀ j, j = i ∧ s'.conns j = conn ∨ j ≠ i ∧ s'.conns j = s.conns j := by
    intro j
    rw [hconns]
    by_cases hj : j = i
    · rw [hj]
      exact Or.inl ⟨rfl, Function.update_self ..⟩
    · exact Or.inr ⟨hj, Function.update_of_ne hj ..⟩
  refine ⟨fun j => ?_, fun j hj => ?_, fun j j' hw hw' => ?_, hlast, hasked⟩
  · rcases hsplit j with ⟨rfl, heq⟩ | ⟨hj, heq⟩
    · rw [heq]
      exact hself
    · rw [heq]
      exact hother j hj
  · rw [hopened] at hj
    rcases hsplit j with ⟨rfl, -⟩ | ⟨hne, heq⟩
    · omega
    · rw [heq]
      exact ⟨(h.fresh j hj).1, fun d hmem => (h.fresh j hj).2 d (hans j hne d hmem)⟩
  · rcases hsplit j with ⟨rfl, heq⟩ | ⟨hj, heq⟩
    · rcases hsplit j' with ⟨rfl, -⟩ | ⟨-, heq'⟩
      · rfl
      · rw [heq] at hw
        rw [heq'] at hw'
        exact (hwaits hw j' hw').symm
    · rw [heq] at hw
      rcases hsplit j' with ⟨rfl, heq'⟩ | ⟨-, heq'⟩
      · rw [heq'] at hw'
        exact hwaits hw' j hw
      · rw [heq'] at hw'
        exact h.alone j j' hw hw'

/-- A call moves on without a trace in the log. -/
theorem Inv.move (h : s.Inv k e file) (hi : i < s.opened)
    (hself : ConnInv k e s.file s.log i { s.conns i with call := c })
    (hwaits : (s.conns i).key = k → c.pending e = true →
      ∀ j, (s.conns j).waits k e = true → j = i) : (s.move i c).Inv k e file := by
  refine h.update hi rfl rfl hself (fun j _ => h.conns j)
    (fun _ _ _ hmem => hmem) (fun hw => ?_) h.last (h.asked.of_eq rfl rfl)
  rw [waits_iff] at hw
  exact hwaits hw.1 hw.2

/-- A call that goes on about the same endpoint still has no decision in the cache. -/
theorem ConnInv.miss_of_about {log : List PromptEvent} {conn : AuthConn}
    (h : ConnInv k e file log i conn) {e₀ : Bytes} (hold : conn.call.about = some e₀)
    (hnew : c.about = some e₀) : ∀ e', c.about = some e' → conn.cache.lookup e' = none := by
  intro e' he'
  exact h.miss e' (hold.trans (hnew.symm.trans he'))

/-- A call finds no decision in the file, and is the only one that gets the decision. -/
theorem Inv.missed (h : s.Inv k e file) {e' : Bytes} (hcall : (s.conns i).call = .entered e')
    (hload : loadAuthzDecision s.file (s.key i) e' = none)
    (halone : (s.conns i).concerns k e = true → ∀ j < s.opened, (s.conns j).waits k e = false) :
    (s.move i (.missed e')).Inv k e file := by
  have hconn := h.conns i
  refine h.move (h.opened (by rw [hcall]; nofun))
    (hconn.move_early (by rw [hcall]; rfl) (hconn.miss_of_about (by rw [hcall]; rfl) rfl) ?_
      (not_saves nofun nofun) nofun) ?_
  · intro hkey hpending
    obtain rfl : e' = e := of_decide_eq_true hpending
    rw [← hkey]
    exact hload
  · intro hkey hpending j hw
    obtain rfl : e' = e := of_decide_eq_true hpending
    have hj : j < s.opened := by
      refine h.opened fun hidle => ?_
      rw [waits_iff, hidle] at hw
      cases hw.2
    rw [halone (concerns_iff.mpr ⟨hkey, by rw [hcall]; rfl⟩) j hj] at hw
    cases hw

/-- The file is open, and the line is about to be written. -/
theorem Inv.openedFile (h : s.Inv k e file) {e' : Bytes} {allowed : Bool}
    (hcall : (s.conns i).call = .saving e' allowed) (hline : lineFeed ∉ e') :
    (s.move i (.writing e' allowed
      (decisionLine (s.key i) e' allowed ++ [lineFeed]))).Inv k e file := by
  have hconn := h.conns i
  have hpending : ∀ e'', AuthCall.pending
      (.writing e' allowed (decisionLine (s.key i) e' allowed ++ [lineFeed])) e'' = true →
      (s.conns i).call.pending e'' = true := by
    intro e'' hp
    rw [hcall]
    exact hp
  refine h.move (h.opened (by rw [hcall]; nofun))
    (hconn.move (hconn.miss_of_about (by rw [hcall]; rfl) rfl) ?_ ?_ ?_ ?_ ?_ nofun) ?_
  · intro hkey hp
    exact hconn.waits (waits_iff.mpr ⟨hkey, hpending e hp⟩)
  · intro e'' allowed' hs
    rw [hcall]
    exact saves_saving.mpr (saves_writing.mp hs)
  · intro e'' allowed' rest heq
    cases heq
    exact ⟨rfl, hline⟩
  · rw [hcall]
    exact ⟨nofun, nofun⟩
  · intro _ allowed' hs
    rw [hcall] at hs
    exact saves_writing.mpr (saves_saving.mp hs)
  · intro hkey hp j hw
    exact h.alone j i hw (waits_iff.mpr ⟨hkey, hpending e hp⟩)

/-- An answer about another peer or endpoint is not written: the directory cannot be made, or the
file not be opened. -/
theorem Inv.unsaved (h : s.Inv k e file) {e' : Bytes} {allowed : Bool}
    (hcall : (s.conns i).call = .saving e' allowed) (hnot : (s.conns i).concerns k e = false)
    (hto : c = .gone ∨ c = .deciding e' allowed) : (s.move i c).Inv k e file := by
  have hconn := h.conns i
  have habout : (s.conns i).key = k → e' ≠ e := by
    rintro hkey rfl
    rw [concerns_iff.mpr ⟨hkey, by rw [hcall]; rfl⟩] at hnot
    cases hnot
  have hnew : (∀ e'', c.about = some e'' → e'' = e') ∧ (c.pending e = false) ∧
      (∀ e'' allowed', ¬ c.Saves e'' allowed') ∧ ∀ allowed', c = .deciding e allowed' → e' = e := by
    rcases hto with rfl | rfl
    · exact ⟨nofun, rfl, not_saves nofun nofun, nofun⟩
    · refine ⟨fun _ heq => (Option.some.inj heq).symm, rfl, not_saves nofun nofun, ?_⟩
      intro allowed' heq
      cases heq
      rfl
  obtain ⟨hmiss, hpending, hsaves, hdeciding⟩ := hnew
  refine h.move (h.opened (by rw [hcall]; nofun)) (hconn.move ?_ ?_ ?_ ?_ ?_ ?_ ?_) ?_
  · intro e'' he
    rw [hmiss e'' he]
    exact hconn.miss e' (by rw [hcall]; rfl)
  · intro _ hp
    rw [hpending] at hp
    cases hp
  · intro e'' allowed' hs
    exact absurd hs (hsaves e'' allowed')
  · intro e'' allowed' rest heq
    exact absurd (Or.inr ⟨rest, heq⟩) (hsaves e'' allowed')
  · rw [hcall]
    exact ⟨nofun, nofun⟩
  · intro hkey allowed' hs
    rw [hcall] at hs
    exact absurd (saves_saving.mp hs).1 (habout hkey)
  · intro hkey allowed' heq
    exact absurd (hdeciding allowed' heq) (habout hkey)
  · intro _ hp
    rw [hpending] at hp
    cases hp

theorem Inv.moves (h : s.Inv k e file) (hm : s.Moves k e i c) : (s.move i c).Inv k e file := by
  have hconn := h.conns i
  cases hm with
  | enter hcall hi hcache =>
    refine h.move hi (hconn.move_early (by rw [hcall]; rfl) ?_ nofun (not_saves nofun nofun) nofun)
      nofun
    intro e'' he
    cases he
    exact hcache
  | other hcall hi hcache hne =>
    refine h.move hi
      (hconn.move_early (by rw [hcall]; rfl) ?_ nofun (not_saves nofun nofun) ?_) nofun
    · intro e'' he
      cases he
      exact hcache
    · intro _ allowed heq
      cases heq
      exact absurd rfl hne
  | rest hcall hi =>
    exact h.move hi
      (hconn.move_early (by rw [hcall]; rfl) nofun nofun (not_saves nofun nofun) nofun) nofun
  | throws hcall =>
    exact h.move (h.opened (by rw [hcall]; nofun))
      (hconn.move_early (by rw [hcall]; rfl) nofun nofun (not_saves nofun nofun) nofun) nofun
  | miss hcall hload halone => exact h.missed hcall hload halone
  | @found e' allowed hcall hload =>
    refine h.move (h.opened (by rw [hcall]; nofun))
      (hconn.move_early (by rw [hcall]; rfl) (hconn.miss_of_about (by rw [hcall]; rfl) rfl) nofun
        (not_saves nofun nofun) ?_) nofun
    intro hkey allowed' heq
    cases heq
    rw [← hkey]
    exact hload
  | @refuse e' hcall hnot =>
    refine h.move (h.opened (by rw [hcall]; nofun))
      (hconn.move_early (by rw [hcall]; rfl) (hconn.miss_of_about (by rw [hcall]; rfl) rfl) nofun
        (not_saves nofun nofun) ?_) nofun
    intro hkey allowed heq
    cases heq
    rw [concerns_iff.mpr ⟨hkey, by rw [hcall]; rfl⟩] at hnot
    cases hnot
  | write hcall hline => exact h.openedFile hcall hline
  | unsaved hcall hnot hto => exact h.unsaved hcall hnot hto

/-- An event that is not an answer changes only what was asked and decided. -/
theorem Inv.record (h : s.Inv k e file) {ev : PromptEvent} (hev : ∀ i d, ev ≠ .answered i k e d)
    (hasked : (s.record ev).AskedOnce k e file) : (s.record ev).Inv k e file := by
  have hmem : ∀ i d, .answered i k e d ∈ s.log ++ [ev] → .answered i k e d ∈ s.log := by
    intro i d hmem
    rcases List.mem_append.mp hmem with hmem | hmem
    · exact hmem
    · exact absurd (List.mem_singleton.mp hmem).symm (hev i d)
  refine ⟨fun i => ?_, fun i hi => ?_, h.alone, fun i j d d' hp => ?_, hasked⟩
  · exact (h.conns i).mono (fun _ => List.mem_append_left _) (hmem i) (fun _ hload => hload)
      (h.conns i).waits
  · exact ⟨(h.fresh i hi).1, fun d hans => (h.fresh i hi).2 d (hmem i d hans)⟩
  · rcases precedes_snoc.mp hp with hp | ⟨-, heq⟩
    · exact h.last i j d d' hp
    · exact absurd heq.symm (hev j d')

/-- `authorize` returns what the connection has. -/
theorem Inv.decided_asked (h : s.Inv k e file) {e' : Bytes} {allowed : Bool}
    (hholds : (s.conns i).Holds e' allowed)
    (hown : ∀ allowed', (s.conns i).Holds e' allowed' → allowed' = allowed)
    (hgone : (s.conns i).call ≠ .gone)
    (hlog : s'.log = s.log ++ [.decided i (s.key i) e' allowed]) (hfile : s'.file = s.file) :
    s'.AskedOnce k e file := by
  refine h.asked.snoc hlog (by rw [hfile]; exact (List.append_nil _).symm)
    (fun _ hload => by rw [hfile]; exact hload) nofun ?_ ?_ ?_ nofun nofun
  · intro j allowed' heq i₀ d hans hd
    injection heq with hj hkey he hallowed
    subst hj he hallowed
    rcases (h.conns i).holds allowed hkey hholds with ⟨htrue, honce⟩ | hload
    · refine Or.inr ⟨htrue, ?_⟩
      have hne : PromptEvent.answered i k e' .allowOnce ≠ .answered i₀ k e' d := by
        intro heq
        injection heq with _ _ _ hd'
        exact hd hd'.symm
      rcases precedes_or_precedes honce hans hne with hp | hp
      · exact hp
      · exact absurd (h.last _ _ _ _ hp) hd
    · rcases (h.conns i₀).stored d hans hd with hsaves | hload'
      · have hw := waits_iff.mpr ⟨((h.conns i₀).settled d hans).1, pending_of_saves hsaves⟩
        rw [(h.conns i₀).waits hw] at hload
        cases hload
      · exact Or.inl (Option.some.inj (hload.symm.trans hload'))
  · intro j allowed' heq hans
    injection heq with hj hkey he hallowed
    subst hj he hallowed
    rcases ((h.conns i).settled .allowOnce hans).2 with hgone' | ⟨hne, -⟩ | hheld
    · exact absurd hgone' hgone
    · exact absurd rfl hne
    · exact (hown _ hheld).symm
  · intro j allowed' heq
    injection heq with hj hkey he hallowed
    subst hj he hallowed
    rcases (h.conns i).holds allowed hkey hholds with ⟨htrue, honce⟩ | hload
    · exact Or.inl ⟨.allowOnce, htrue, honce⟩
    · exact Or.inr hload

theorem Inv.cached (h : s.Inv k e file) {e' : Bytes} {allowed : Bool}
    (hcall : (s.conns i).call = .idle) (hcache : (s.conns i).cache.lookup e' = some allowed) :
    (s.record (.decided i (s.key i) e' allowed)).Inv k e file := by
  refine h.record nofun (h.decided_asked (Or.inl hcache) ?_ ?_ rfl rfl)
  · rintro allowed' (hlookup | hdeciding)
    · exact Option.some.inj (hlookup.symm.trans hcache)
    · rw [hcall] at hdeciding
      cases hdeciding
  · rw [hcall]
    nofun

/-- The decision is cached: the connection has what it had. -/
theorem Inv.decided (h : s.Inv k e file) {e' : Bytes} {allowed : Bool}
    (hcall : (s.conns i).call = .deciding e' allowed) : (s.finish i e' allowed).Inv k e file := by
  have hconn := h.conns i
  have hmiss : (s.conns i).cache.lookup e' = none := hconn.miss e' (by rw [hcall]; rfl)
  have hlookup : ∀ allowed', List.lookup e ((e', allowed) :: (s.conns i).cache) = some allowed' ↔
      (s.conns i).Holds e allowed' := fun allowed' => lookup_cons_iff_holds hcall hmiss
  let s₁ : PromptHost := { s with
    conns := Function.update s.conns i
      { s.conns i with cache := (e', allowed) :: (s.conns i).cache, call := .idle } }
  have hself : ConnInv k e s.file s.log i
      { s.conns i with cache := (e', allowed) :: (s.conns i).cache, call := .idle } := by
    refine ⟨nofun, fun hw => ?_, fun e'' allowed' hs => ?_, nofun, fun d hans => ?_,
      fun d hans hd => ?_, fun allowed' hkey hh => ?_, hconn.single⟩
    · cases (waits_iff.mp hw).2
    · exact absurd hs (not_saves_of_early rfl e'' allowed')
    · obtain ⟨hkey, hplace⟩ := hconn.settled d hans
      refine ⟨hkey, Or.inr (Or.inr (Or.inl ((hlookup d.allows).mpr ?_)))⟩
      rw [hcall] at hplace
      rcases hplace with hgone | ⟨-, hs⟩ | hheld
      · cases hgone
      · exact absurd hs not_saves_deciding
      · exact hheld
    · refine Or.inr ((hconn.stored d hans hd).resolve_left ?_)
      rw [hcall]
      exact not_saves_deciding
    · rcases hh with hh | hh
      · exact hconn.holds allowed' hkey ((hlookup allowed').mp hh)
      · cases hh
  have hinv : s₁.Inv k e file := by
    refine h.update (h.opened (by rw [hcall]; nofun)) rfl rfl hself (fun j _ => h.conns j)
      (fun _ _ _ hmem => hmem) (fun hw => ?_) h.last (h.asked.of_eq rfl rfl)
    cases (waits_iff.mp hw).2
  have hasked : (s₁.record (.decided i (s.key i) e' allowed)).AskedOnce k e file := by
    refine h.decided_asked (Or.inr hcall) ?_ ?_ rfl rfl
    · rintro allowed' (hh | hh)
      · rw [hmiss] at hh
        cases hh
      · rw [hcall] at hh
        cases hh
        rfl
    · rw [hcall]
      nofun
  exact hinv.record nofun hasked

/-- The callback is invoked. -/
theorem Inv.invoked (h : s.Inv k e file) {e' : Bytes} (hcall : (s.conns i).call = .missed e') :
    ((s.move i (.asking e')).record (.invoked i (s.key i) e')).Inv k e file := by
  have hearly : (s.conns i).call.early = true := by rw [hcall]; rfl
  have habout : (s.conns i).call.about = some e' := by rw [hcall]; rfl
  have hwaits : ∀ {e₀}, (s.conns i).key = k → (AuthCall.asking e').pending e₀ = true →
      (s.conns i).waits k e₀ = true := by
    intro e₀ hkey hp
    refine waits_iff.mpr ⟨hkey, ?_⟩
    rw [hcall]
    exact hp
  have hmoved : (s.move i (.asking e')).Inv k e file := by
    refine h.move (h.opened (by rw [hcall]; nofun))
      ((h.conns i).move_early hearly ?_ ?_ (not_saves nofun nofun) nofun) ?_
    · intro e'' he
      cases he
      exact (h.conns i).miss e' habout
    · intro hkey hp
      exact (h.conns i).waits (hwaits hkey hp)
    · intro hkey hp j hw
      exact h.alone j i hw (hwaits hkey hp)
  refine hmoved.record nofun
    (h.asked.snoc rfl (List.append_nil _).symm (fun _ hload => hload) ?_ nofun nofun nofun nofun
      nofun)
  intro j heq i₀ d hans
  injection heq with hj hkey he
  subst hj he
  refine ⟨h.allowOnce_of_waits (hwaits hkey (decide_eq_true rfl)) hearly hans, ?_⟩
  rintro rfl
  exact (h.conns i₀).not_answered hearly habout d hans

/-- Where an answer takes the call. -/
theorem afterAnswer_cases {e' : Bytes} {d : PromptDecision}
    (hc : c = if d = .alwaysAllow ∨ d = .deny then .saving e' d.allows else .deciding e' d.allows) :
    d ≠ .allowOnce ∧ c = .saving e' d.allows ∨ d = .allowOnce ∧ c = .deciding e' true := by
  cases d with
  | allowOnce => exact Or.inr ⟨rfl, hc⟩
  | deny | alwaysAllow => exact Or.inl ⟨nofun, hc⟩

/-- The connection on which the callback returns. -/
theorem ConnInv.answered {log : List PromptEvent} (h : ConnInv k e file log i conn) {e' : Bytes}
    {d : PromptDecision} (hcall : conn.call = .asking e')
    (hcase : d ≠ .allowOnce ∧ c = .saving e' d.allows ∨ d = .allowOnce ∧ c = .deciding e' true) :
    ConnInv k e file (log ++ [.answered i conn.key e' d]) i { conn with call := c } := by
  have hearly : conn.call.early = true := by rw [hcall]; rfl
  have habout : conn.call.about = some e' := by rw [hcall]; rfl
  have hmem : ∀ d', .answered i k e d' ∈ log ++ [.answered i conn.key e' d] →
      .answered i k e d' ∈ log ∨ conn.key = k ∧ e' = e ∧ d' = d := by
    intro d' hans
    rcases List.mem_append.mp hans with hans | hans
    · exact Or.inl hans
    · injection List.mem_singleton.mp hans with _ hkey he hd
      exact Or.inr ⟨hkey.symm, he.symm, hd⟩
  have hfirst : e' = e → ∀ d', .answered i k e d' ∉ log := by
    rintro rfl
    exact h.not_answered hearly habout
  have hlast : .answered i conn.key e' d ∈ log ++ [.answered i conn.key e' d] :=
    List.mem_append_right _ (List.mem_singleton_self _)
  constructor
  case miss =>
    intro e'' he
    rcases hcase with ⟨-, rfl⟩ | ⟨-, rfl⟩
    · exact h.miss e'' (habout.trans he)
    · exact h.miss e'' (habout.trans he)
  case waits =>
    intro hw
    obtain ⟨hkey, hp⟩ := waits_iff.mp hw
    rcases hcase with ⟨-, rfl⟩ | ⟨-, rfl⟩
    · refine h.waits (waits_iff.mpr ⟨hkey, ?_⟩)
      rw [hcall]
      exact hp
    · cases hp
  case saves =>
    intro e'' allowed hs
    rcases hcase with ⟨hd, rfl⟩ | ⟨-, rfl⟩
    · obtain ⟨rfl, rfl⟩ := saves_saving.mp hs
      exact ⟨d, hd, rfl, hlast⟩
    · exact absurd hs not_saves_deciding
  case writes =>
    intro e'' allowed rest hw
    rcases hcase with ⟨-, rfl⟩ | ⟨-, rfl⟩
    · cases hw
    · cases hw
  case settled =>
    intro d' hans
    rcases hmem d' hans with hans | ⟨hkey, rfl, rfl⟩
    · obtain ⟨hkey, hplace⟩ := h.settled d' hans
      refine ⟨hkey, ?_⟩
      rcases hplace with hgone | ⟨-, hs⟩ | hlookup | hdeciding
      · exact absurd hgone (ne_of_early hearly).1
      · exact absurd hs (not_saves_of_early hearly e _)
      · exact Or.inr (Or.inr (Or.inl hlookup))
      · exact absurd hdeciding ((ne_of_early hearly).2 e _)
    · refine ⟨hkey, ?_⟩
      rcases hcase with ⟨hd, rfl⟩ | ⟨rfl, rfl⟩
      · exact Or.inr (Or.inl ⟨hd, Or.inl rfl⟩)
      · exact Or.inr (Or.inr (Or.inr rfl))
  case stored =>
    intro d' hans hd'
    rcases hmem d' hans with hold | ⟨-, rfl, rfl⟩
    · exact Or.inr ((h.stored d' hold hd').resolve_left (not_saves_of_early hearly e _))
    · rcases hcase with ⟨-, rfl⟩ | ⟨rfl, -⟩
      · exact Or.inl (Or.inl rfl)
      · exact absurd rfl hd'
  case holds =>
    intro allowed hkey hh
    rcases hh with hlookup | hdeciding
    · exact (h.holds allowed hkey (Or.inl hlookup)).imp_left fun ⟨ht, hans⟩ =>
        ⟨ht, List.mem_append_left _ hans⟩
    · rcases hcase with ⟨-, rfl⟩ | ⟨rfl, rfl⟩
      · cases hdeciding
      · cases hdeciding
        change conn.key = k at hkey
        rw [hkey] at hlast ⊢
        exact Or.inl ⟨rfl, hlast⟩
  case single =>
    intro d' d'' hans hans'
    rcases hmem d' hans with hold | ⟨-, he, rfl⟩
    · rcases hmem d'' hans' with hold' | ⟨-, he, rfl⟩
      · exact h.single d' d'' hold hold'
      · exact absurd hold (hfirst he d')
    · rcases hmem d'' hans' with hold' | ⟨-, -, rfl⟩
      · exact absurd hold' (hfirst he d'')
      · rfl

/-- **The callback returns.** All answers before this one were `AllowOnce`, on other connections. -/
theorem Inv.answered (h : s.Inv k e file) {e' : Bytes} {d : PromptDecision}
    (hcall : (s.conns i).call = .asking e')
    (hcase : d ≠ .allowOnce ∧ c = .saving e' d.allows ∨ d = .allowOnce ∧ c = .deciding e' true) :
    ((s.move i c).record (.answered i (s.key i) e' d)).Inv k e file := by
  have hearly : (s.conns i).call.early = true := by rw [hcall]; rfl
  have habout : (s.conns i).call.about = some e' := by rw [hcall]; rfl
  have hwaits : ∀ {e₀}, (s.conns i).key = k → e' = e₀ → (s.conns i).waits k e₀ = true := by
    rintro e₀ hkey rfl
    refine waits_iff.mpr ⟨hkey, ?_⟩
    rw [hcall]
    exact decide_eq_true rfl
  have hans : ∀ j, j ≠ i → ∀ d', .answered j k e d' ∈ s.log ++ [.answered i (s.key i) e' d] →
      .answered j k e d' ∈ s.log := by
    intro j hj d' hans
    rcases List.mem_append.mp hans with hans | hans
    · exact hans
    · injection List.mem_singleton.mp hans with heq
      exact absurd heq hj
  refine h.update (h.opened (by rw [hcall]; nofun)) rfl rfl ((h.conns i).answered hcall hcase)
    (fun j hj => ?_) hans (fun hw j hw' => ?_) (fun j j' d' d'' hp => ?_) ?_
  · exact (h.conns j).mono (fun _ => List.mem_append_left _) (hans j hj) (fun _ hload => hload)
      (h.conns j).waits
  · obtain ⟨hkey, hp⟩ := waits_iff.mp hw
    rcases hcase with ⟨-, rfl⟩ | ⟨-, rfl⟩
    · exact h.alone j i hw' (hwaits hkey (of_decide_eq_true hp))
    · cases hp
  · rcases precedes_snoc.mp hp with hp | ⟨hold, heq⟩
    · exact h.last j j' d' d'' hp
    · injection heq with _ hkey he _
      exact h.allowOnce_of_waits (hwaits hkey.symm he.symm) hearly hold
  · refine h.asked.snoc rfl (List.append_nil _).symm (fun _ hload => hload) nofun nofun nofun nofun
      nofun ?_
    intro j d' heq d''
    injection heq with hj hkey he _
    subst hj he
    exact (h.conns i).not_answered hearly habout d''

/-- What the file says after a line has been appended. -/
theorem Inv.load_saved (h : s.Inv k e file) {e' rest : Bytes} {allowed : Bool}
    (hcall : (s.conns i).call = .writing e' allowed rest) (hfile : AtLineStart s.file) :
    ((s.conns i).key = k ∧ e' = e) ∧ (s.conns i).waits k e = true ∧
        loadAuthzDecision (s.file ++ rest) k e = some allowed ∨
      ¬ ((s.conns i).key = k ∧ e' = e) ∧
        loadAuthzDecision (s.file ++ rest) k e = loadAuthzDecision s.file k e := by
  obtain ⟨rfl, hline⟩ := (h.conns i).writes e' allowed rest hcall
  have hload := loadAuthzDecision_append hfile hline k (s.conns i).key e allowed
  by_cases hown : (s.conns i).key = k ∧ e' = e
  · rw [if_pos hown] at hload
    refine Or.inl ⟨hown, waits_iff.mpr ⟨hown.1, ?_⟩, hload⟩
    rw [hcall]
    exact decide_eq_true hown.2
  · rw [if_neg hown] at hload
    exact Or.inr ⟨hown, hload⟩

/-- A line has been appended to the file. -/
theorem Inv.saved (h : s.Inv k e file) {e' rest : Bytes} {allowed : Bool}
    (hcall : (s.conns i).call = .writing e' allowed rest) (hfile : AtLineStart s.file) :
    ({ s.move i (.deciding e' allowed) with file := s.file ++ rest }.record
      (.saved i (s.key i) e' allowed)).Inv k e file := by
  have hconn := h.conns i
  have hload := h.load_saved hcall hfile
  have hgrows : ∀ allowed', loadAuthzDecision s.file k e = some allowed' →
      loadAuthzDecision (s.file ++ rest) k e = some allowed' := by
    intro allowed' hold
    rcases hload with ⟨-, hw, -⟩ | ⟨-, heq⟩
    · rw [hconn.waits hw] at hold
      cases hold
    · rw [heq]
      exact hold
  have hmem : ∀ j d, .answered j k e d ∈ s.log ++ [.saved i (s.key i) e' allowed] →
      .answered j k e d ∈ s.log := by
    intro j d hans
    rcases List.mem_append.mp hans with hans | hans
    · exact hans
    · cases List.mem_singleton.mp hans
  have hself : ConnInv k e (s.file ++ rest) (s.log ++ [.saved i (s.key i) e' allowed]) i
      { s.conns i with call := .deciding e' allowed } := by
    refine ⟨fun e'' he => ?_, fun hw => ?_, fun e'' allowed' hs => absurd hs not_saves_deciding,
      nofun,
      fun d hans => ?_, fun d hans hd => ?_, fun allowed' hkey hh => ?_,
      fun d d' hans hans' => hconn.single d d' (hmem i d hans) (hmem i d' hans')⟩
    · exact hconn.miss e'' (by rw [hcall]; exact he)
    · cases (waits_iff.mp hw).2
    · obtain ⟨hkey, hplace⟩ := hconn.settled d (hmem i d hans)
      refine ⟨hkey, Or.inr (Or.inr ?_)⟩
      rw [AuthConn.Holds, hcall] at hplace
      rcases hplace with hgone | ⟨-, hs⟩ | hlookup | hdeciding
      · cases hgone
      · obtain ⟨rfl, rfl⟩ := saves_writing.mp hs
        exact Or.inr rfl
      · exact Or.inl hlookup
      · cases hdeciding
    · refine Or.inr ?_
      rcases hconn.stored d (hmem i d hans) hd with hs | hold
      · rw [hcall] at hs
        obtain ⟨rfl, rfl⟩ := saves_writing.mp hs
        rcases hload with ⟨-, -, hnew⟩ | ⟨hnot, -⟩
        · exact hnew
        · exact absurd ⟨(hconn.settled d (hmem i d hans)).1, rfl⟩ hnot
      · exact hgrows _ hold
    · rcases hh with hlookup | hdeciding
      · exact (hconn.holds allowed' hkey (Or.inl hlookup)).imp
          (fun ⟨ht, hans⟩ => ⟨ht, List.mem_append_left _ hans⟩) (hgrows allowed')
      · cases hdeciding
        rcases hload with ⟨-, -, hnew⟩ | ⟨hnot, -⟩
        · exact Or.inr hnew
        · exact absurd ⟨hkey, rfl⟩ hnot
  refine h.update (h.opened (by rw [hcall]; nofun)) rfl rfl hself (fun j hj => ?_)
    (fun j _ => hmem j)
    (fun hw => ?_) (fun j j' d d' hp => ?_) ?_
  · refine (h.conns j).mono (fun _ => List.mem_append_left _) (hmem j) hgrows fun hw => ?_
    rcases hload with ⟨-, hw', -⟩ | ⟨-, heq⟩
    · exact absurd (h.alone j i hw hw') hj
    · exact heq.trans ((h.conns j).waits hw)
  · cases (waits_iff.mp hw).2
  · rcases precedes_snoc.mp hp with hp | ⟨-, heq⟩
    · exact h.last j j' d d' hp
    · cases heq
  · refine h.asked.snoc rfl ?_ hgrows nofun nofun nofun nofun ?_ nofun
    · rw [(hconn.writes e' allowed rest hcall).1]
      rfl
    · intro j allowed' heq
      injection heq with hj hkey he hallowed
      subst hj he hallowed
      obtain ⟨d, hd, hallowed, hans⟩ := hconn.saves e' allowed (Or.inr ⟨rest, hcall⟩)
      change (s.conns i).key = k at hkey
      rw [hkey] at hans
      exact ⟨⟨d, hd, hallowed, hans⟩, fun honce => hd (hconn.single d _ hans honce)⟩

/-- **A step keeps the invariant.** -/
theorem Inv.step (h : s.Inv k e file) (htier : (policy e).tier = .promptUser)
    (hstep : Step service policy s a s') (hg : s.orderly k e a = true) : s'.Inv k e file := by
  have hrest : ∀ i e' allowed rest, (s.conns i).call = .writing e' allowed rest → rest ≠ [] := by
    intro i e' allowed rest hcall
    rw [((h.conns i).writes e' allowed rest hcall).1]
    exact List.append_ne_nil_of_right_ne_nil _ (List.cons_ne_nil _ _)
  cases effect_of_step htier hrest hstep hg with
  | accepted peer =>
    have hnew : ∀ j, j = s.opened ∨ j ≠ s.opened ∧
        Function.update s.conns s.opened { peer := peer } j = s.conns j := by
      intro j
      by_cases hj : j = s.opened
      · exact Or.inl hj
      · exact Or.inr ⟨hj, Function.update_of_ne hj ..⟩
    have hidle : ({ peer := peer } : AuthConn).waits k e = false := by
      simp [AuthConn.waits, AuthCall.pending]
    refine ⟨fun j => ?_, fun j hj => ?_, fun j j' hw hw' => ?_, h.last, h.asked.of_eq rfl rfl⟩
    · dsimp only
      rcases hnew j with rfl | ⟨-, heq⟩
      · rw [Function.update_self]
        exact .start (h.fresh _ le_rfl).2 peer
      · rw [heq]
        exact h.conns j
    · dsimp only at hj ⊢
      rw [Function.update_of_ne (by omega)]
      exact h.fresh j (by omega)
    · dsimp only at hw hw'
      rcases hnew j with rfl | ⟨-, heq⟩
      · rw [Function.update_self, hidle] at hw
        cases hw
      · rcases hnew j' with rfl | ⟨-, heq'⟩
        · rw [Function.update_self, hidle] at hw'
          cases hw'
        · rw [heq] at hw
          rw [heq'] at hw'
          exact h.alone j j' hw hw'
  | cached hcall hcache => exact h.cached hcall hcache
  | moved hm => exact h.moves hm
  | invoked hcall => exact h.invoked hcall
  | answered d hcall => exact h.answered hcall (afterAnswer_cases rfl)
  | saved hcall hfile => exact h.saved hcall hfile
  | decided hcall => exact h.decided hcall

end

end

end PromptHost

/-- **The user is asked at most once**, in a run in which no call looks for a decision while another
call is getting it and every answer is written: after an answer that is to be kept there is no
prompt and no decision against it, and an `AllowOnce` stays on its own connection. -/
theorem asked_once (service : Bytes) (policy : Bytes → AccessPolicy) (k : PublicKey)
    (e file : Bytes)
    (htier : (policy e).tier = .promptUser) (acts : List PromptHost.Act) (s : PromptHost)
    (hrun : Run (Guarded (PromptHost.Step service policy) fun s a => s.orderly k e a = true)
      { file := file } acts s) :
    s.AskedOnce k e file := by
  have hinv := hrun.preserves (I := PromptHost.Inv k e file) (PromptHost.inv_start k e file)
    fun _ _ _ h hstep => h.step htier hstep.1 hstep.2
  exact hinv.asked

/-! ### Two connections that ask at once -/

namespace RacingPrompts

def peer : PeerInfo := { publicKey := Block.fill 32 7, peerUid := 1000 }

def endpoint : Bytes := [109, 105, 99]

/-- Every endpoint is for the user to decide on. -/
def policy : Bytes → AccessPolicy := fun _ => { tier := .promptUser }

def view : HostView where
  allowedPeers := []
  issuers := []
  creds := []
  now := 0
  prompt := none
  isKnownClient _ := false
  loadAuthzDecision _ _ := none
  knownClientsDir := .ok ()
  authzDir := .ok ()

/-- Both calls look at the file before either has asked. -/
def racing : List PromptHost.Act :=
  [.accept peer, .accept peer, .request 0 endpoint view, .request 1 endpoint view, .load 0, .load 1,
    .invoke 0 true, .answer 0 .deny, .invoke 1 true]

def raced : Option PromptHost := exec (PromptHost.step [] policy) { file := [] } racing

theorem raced_isSome : raced.isSome = true := by decide +kernel

/-- One call after the other: an `AllowOnce`, an answer that is kept, and a call that finds it. -/
def polite : List PromptHost.Act :=
  [.accept peer, .accept peer, .accept peer, .request 0 endpoint view, .load 0, .invoke 0 true,
    .answer 0 .allowOnce, .decide 0, .request 1 endpoint view, .load 1, .invoke 1 true,
    .answer 1 .deny, .openFile 1 (.ok true), .write 1 200, .decide 1, .request 2 endpoint view,
    .load 2,
    .decide 2, .request 0 endpoint view]

def politeEnd : Option PromptHost :=
  exec (guardFun (PromptHost.step [] policy) (PromptHost.orderly peer.publicKey endpoint))
    { file := [] } polite

theorem politeEnd_isSome : politeEnd.isSome = true := by decide +kernel

end RacingPrompts

open RacingPrompts

/-- The third connection is refused by what the file says, the first one keeps its `AllowOnce`. -/
theorem asked_once_polite :
    (.decided 2 peer.publicKey endpoint false ∈ (politeEnd.get politeEnd_isSome).log ∧
      (politeEnd.get politeEnd_isSome).log.getLast?
        = some (.decided 0 peer.publicKey endpoint true)) ∧
      (politeEnd.get politeEnd_isSome).AskedOnce peer.publicKey endpoint [] :=
  ⟨by decide +kernel, asked_once [] policy peer.publicKey endpoint [] rfl polite _
    (run_of_exec_guardFun (Option.some_get politeEnd_isSome).symm)⟩

/-- The user has denied, and is asked again. -/
theorem second_prompt :
    ¬ ∀ (service : Bytes) (policy : Bytes → AccessPolicy) (k : PublicKey) (e file : Bytes),
      (policy e).tier = .promptUser → ∀ (acts : List PromptHost.Act) (s : PromptHost),
      Run (PromptHost.Step service policy) { file := file } acts s → s.AskedOnce k e file := by
  intro hclaim
  have hasked := hclaim [] policy peer.publicKey endpoint [] rfl racing _
    (run_of_exec (Option.some_get raced_isSome).symm)
  have hlog : Log.Precedes (.answered 0 peer.publicKey endpoint .deny)
      (.invoked 1 peer.publicKey endpoint) (raced.get raced_isSome).log := by decide +kernel
  exact absurd (hasked.never_again 0 1 .deny hlog) (by decide)

end Epx
