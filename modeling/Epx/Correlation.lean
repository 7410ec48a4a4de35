import Epx.ClientCallbacks

/-!
# Which RESPONSE a `get` reports

Any number of calls are under way on a `Connection`, the peer answers what it likes when it likes,
and the connection may die at any moment. A `get` that has sent its request ends with the last
RESPONSE that was read under its own id since it registered; when there was none, its time was up or
the connection had died.

A `get` whose request could not be sent throws, whatever is stored for it: a peer that answers
before it was asked can have the reader store a RESPONSE that is then dropped with the entry.

## Main definitions

* `ClientCalls.Correlated` — the entries of `pending` are the last answers
* `ClientCalls.Answered` — what a `get` that ended owes to the RESPONSEs read for it

## Main results

* `ClientCalls.Correlated.step`
* `request_response_correlation`
* `early_answer_dropped` — a stored RESPONSE that is not returned
-/

namespace Epx

open Codec Transition

namespace ClientCalls

/-- How a `get` ends that has sent its request, given the RESPONSEs read for it. -/
def GetEnds (answers : List ResponsePayload) (o : CallOutcome) : Prop :=
  match answers.getLast? with
  | some resp => o = getReport resp
  | none => o = .timeout ∨ o = .closed ∨ ∃ message, o = .rateLimited message

/-- The entry of a `get` is the last RESPONSE read under its id, and a `get` that is over has ended
with it. -/
structure Correlated (s : ClientCalls) : Prop where
  waiting : ∀ i id, (s.calls i).under = some (.get, id) → s.pending id = some (s.answers i).getLast?
  outcome : ∀ i id o, s.calls i = .over .get id o → o = .sendFailed ∨ GetEnds (s.answers i) o
  early : ∀ i, (s.calls i).under = none → (∀ kind id o, s.calls i ≠ .over kind id o) →
    s.answers i = []
  own : ∀ i, ∀ resp ∈ s.answers i, ∃ kind, (s.calls i).asks = some (kind, resp.requestId)

theorem correlated_start : Correlated {} where
  waiting _ _ h := by cases h
  outcome _ _ _ h := by cases h
  early _ _ _ := rfl
  own _ _ h := absurd h List.not_mem_nil

section

variable {s s' : ClientCalls} {a : Act} {i : ℕ} {id : UInt64} {kind : AskKind}

/-- Nothing happens to the calls, to `pending` and to the answers. -/
theorem Correlated.congr (h : s.Correlated) (hcalls : s'.calls = s.calls)
    (hpending : s'.pending = s.pending) (hanswers : s'.answers = s.answers) : s'.Correlated where
  waiting := by rw [hcalls, hpending, hanswers]; exact h.waiting
  outcome := by rw [hcalls, hanswers]; exact h.outcome
  early := by rw [hcalls, hanswers]; exact h.early
  own := by rw [hcalls, hanswers]; exact h.own

/-- A call goes on; it had drawn its id before, or has no answers yet. -/
theorem Correlated.moved (h : s.Correlated) {c : CallPlace}
    (hasks : c.asks = (s.calls i).asks ∨ (s.calls i).asks = none)
    (hunder : c.under = (s.calls i).under) (hover : ∀ kind id o, c ≠ .over kind id o)
    (hold : ∀ kind id o, s.calls i ≠ .over kind id o) : (s.move i c).Correlated where
  waiting := by
    intro j id hj
    rw [under_move hunder] at hj
    exact h.waiting j id hj
  outcome := by
    intro j id o hj
    obtain ⟨-, hnew⟩ | ⟨-, hj⟩ := of_move_calls (P := fun c => c = .over .get id o) hj
    · exact absurd hnew (hover _ _ _)
    · exact h.outcome j id o hj
  early := by
    intro j hj hne
    rw [under_move hunder] at hj
    refine h.early j hj fun kind id o heq => ?_
    by_cases hji : j = i
    · rw [hji] at heq
      exact hold kind id o heq
    · exact hne kind id o (by rw [move_calls_of_ne hji]; exact heq)
  own := by
    intro j resp hresp
    obtain ⟨kind, hkind⟩ := h.own j resp hresp
    by_cases hji : j = i
    · subst hji
      rcases hasks with heq | hnone
      · exact ⟨kind, by rw [move_calls_self, heq]; exact hkind⟩
      · rw [hnone] at hkind
        cases hkind
    · exact ⟨kind, by rw [move_calls_of_ne hji]; exact hkind⟩

/-- A call registers: nothing has been read for it yet. -/
theorem Correlated.registered (h : s.Correlated) (hids : s.Ids)
    (hcall : s.calls i = .drawn kind id) :
    ((s.register i id kind).move i (.registered kind id)).Correlated := by
  have hcalls := s.register_calls i id kind
  have hanswers : ((s.register i id kind).move i (.registered kind id)).answers = s.answers := by
    cases kind <;> rfl
  have hasks : (s.calls i).asks = some (kind, id) := by rw [hcall]; rfl
  have hempty : s.answers i = [] := by
    refine h.early i (by rw [hcall]; rfl) fun _ _ _ heq => ?_
    rw [hcall] at heq
    cases heq
  have hpending : ∀ id', id' ≠ id → (s.register i id kind).pending id' = s.pending id' := by
    intro id' hne
    cases kind with
    | get => exact Function.update_of_ne hne ..
    | getStream | subscribe => rfl
  have hother : ∀ {P : CallPlace → Prop} {j : ℕ},
      P (((s.register i id kind).move i (.registered kind id)).calls j) →
      (j = i ∧ P (.registered kind id)) ∨ (j ≠ i ∧ P (s.calls j)) := by
    intro P j hj
    have := of_move_calls hj
    rwa [hcalls] at this
  exact
    { waiting := by
        intro j id' hj
        rw [hanswers]
        obtain ⟨rfl, hnew⟩ | ⟨hne, hold⟩ :=
          hother (P := fun c => c.under = some (.get, id')) hj
        · cases hnew
          rw [hempty]
          exact Function.update_self ..
        · refine (hpending id' ?_).trans (h.waiting j id' hold)
          rintro rfl
          exact hne (hids.asks_inj j i _ _ _ (CallPlace.asks_of_under hold) hasks)
      outcome := by
        intro j id' o hj
        rw [hanswers]
        obtain ⟨-, hnew⟩ | ⟨-, hold⟩ := hother (P := fun c => c = .over .get id' o) hj
        · cases hnew
        · exact h.outcome j id' o hold
      early := by
        intro j hj hne
        rw [hanswers]
        obtain ⟨-, hnew⟩ | ⟨hji, hold⟩ := hother (P := fun c => c.under = none) hj
        · cases hnew
        · refine h.early j hold fun kind' id' o heq => hne kind' id' o ?_
          rw [move_calls_of_ne hji, hcalls]
          exact heq
      own := by
        intro j resp hresp
        rw [hanswers] at hresp
        obtain ⟨kind', hkind'⟩ := h.own j resp hresp
        refine ⟨kind', ?_⟩
        rw [asks_move (by rw [hcalls, hasks]; rfl), hcalls]
        exact hkind' }

/-- A call ends. -/
theorem Correlated.ended (h : s.Correlated) (hids : s.Ids) (kind : AskKind)
    (hunder : (s.calls i).under = some (kind, id)) {o : CallOutcome}
    (ho : kind = .get → o = .sendFailed ∨ GetEnds (s.answers i) o) :
    ((s.unregister id kind).move i (.over kind id o)).Correlated := by
  have hcalls := s.unregister_calls id kind
  have hanswers : ((s.unregister id kind).move i (.over kind id o)).answers = s.answers := by
    cases kind <;> rfl
  have hasks : (s.calls i).asks = some (kind, id) := CallPlace.asks_of_under hunder
  have hpending : ∀ id', id' ≠ id → (s.unregister id kind).pending id' = s.pending id' := by
    intro id' hne
    cases kind with
    | get => exact Function.update_of_ne hne ..
    | getStream | subscribe => rfl
  have hother : ∀ {P : CallPlace → Prop} {j : ℕ},
      P (((s.unregister id kind).move i (.over kind id o)).calls j) →
      (j = i ∧ P (.over kind id o)) ∨ (j ≠ i ∧ P (s.calls j)) := by
    intro P j hj
    have := of_move_calls hj
    rwa [hcalls] at this
  exact
    { waiting := by
        intro j id' hj
        rw [hanswers]
        obtain ⟨-, hnew⟩ | ⟨hne, hold⟩ := hother (P := fun c => c.under = some (.get, id')) hj
        · cases hnew
        · refine (hpending id' ?_).trans (h.waiting j id' hold)
          rintro rfl
          exact hne (hids.asks_inj j i _ _ _ (CallPlace.asks_of_under hold) hasks)
      outcome := by
        intro j id' o' hj
        rw [hanswers]
        obtain ⟨rfl, hnew⟩ | ⟨-, hold⟩ := hother (P := fun c => c = .over .get id' o') hj
        · cases hnew
          exact ho rfl
        · exact h.outcome j id' o' hold
      early := by
        intro j hj hne
        rw [hanswers]
        obtain ⟨rfl, -⟩ | ⟨hji, hold⟩ := hother (P := fun c => c.under = none) hj
        · exact absurd (move_calls_self _) (hne kind id o)
        · refine h.early j hold fun kind' id' o' heq => hne kind' id' o' ?_
          rw [move_calls_of_ne hji, hcalls]
          exact heq
      own := by
        intro j resp hresp
        rw [hanswers] at hresp
        obtain ⟨kind', hkind'⟩ := h.own j resp hresp
        refine ⟨kind', ?_⟩
        rw [asks_move (by rw [hcalls, hasks]; rfl), hcalls]
        exact hkind' }

/-- A RESPONSE is read. If it is stored under its id, the entry is the last answer again; if it is
not, no `get` with its id is under way. -/
theorem Correlated.answered (h : s.Correlated) {resp : ResponsePayload}
    (hcalls : s'.calls = s.calls) (hanswers : s'.answers = (s.answer resp).answers)
    (hother : ∀ id, id ≠ resp.requestId → s'.pending id = s.pending id)
    (hself : ∀ i, (s.calls i).under = some (.get, resp.requestId) →
      s'.pending resp.requestId = some (some resp)) : s'.Correlated where
  waiting := by
    intro i id hi
    rw [hcalls] at hi
    rw [hanswers]
    by_cases hid : id = resp.requestId
    · subst hid
      rw [hself i hi, answer_answers_of_under hi, List.getLast?_concat]
    · rw [hother id hid, answer_answers_of_ne hi hid]
      exact h.waiting i id hi
  outcome := by
    intro i id o hi
    rw [hcalls] at hi
    rw [hanswers, answer_answers_of_none (by rw [hi]; rfl)]
    exact h.outcome i id o hi
  early := by
    intro i hi hne
    rw [hcalls] at hi hne
    rw [hanswers, answer_answers_of_none hi]
    exact h.early i hi hne
  own := by
    intro i r hr
    rw [hanswers, answer_answers] at hr
    rw [hcalls]
    by_cases hid : (s.calls i).under.map Prod.snd = some resp.requestId
    · rw [if_pos hid] at hr
      rcases List.mem_append.mp hr with hr | hr
      · exact h.own i r hr
      · rw [List.mem_singleton.mp hr]
        obtain ⟨⟨kind, id⟩, hunder, rfl⟩ := Option.map_eq_some_iff.mp hid
        exact ⟨kind, CallPlace.asks_of_under hunder⟩
    · rw [if_neg hid] at hr
      exact h.own i r hr

/-- **Every step keeps `pending` and the answers together.** -/
theorem Correlated.step (h : s.Correlated) (hids : s.Ids) (hstep : s.Step a s') :
    s'.Correlated := by
  cases effect_of_step hstep with
  | moved hgoes =>
    exact h.moved (Or.inl hgoes.asks_eq) hgoes.under_eq hgoes.ne_over hgoes.old_ne_over
  | @drew i kind hcall =>
    have hdraw : s.draw.Correlated := h.congr rfl rfl rfl
    have hfound : s.draw.calls i = .found kind := hcall
    exact hdraw.moved (Or.inr (by rw [hfound]; rfl)) (by rw [hfound]; rfl) (by simp)
      (by simp [hfound])
  | registered hcall => exact h.registered hids hcall
  | gaveUp hcall => exact h.ended hids _ (by rw [hcall]; rfl) fun _ => Or.inl rfl
  | @getSlept i id hcall =>
    have hentry := h.waiting i id (by rw [hcall]; rfl)
    have hpending : Function.update s.pending id (some (s.pending id).join) = s.pending := by
      rw [Function.update_eq_self_iff, hentry]
      rfl
    exact h.congr rfl hpending rfl
  | @getOver i id timedOut o hcall hsome hnone =>
    refine h.ended hids .get (by rw [hcall]; rfl) fun _ => Or.inr ?_
    have hentry := h.waiting i id (by rw [hcall]; rfl)
    have hjoin : (s.pending id).join = (s.answers i).getLast? := by
      rw [hentry]
      rfl
    rw [GetEnds]
    cases hlast : (s.answers i).getLast? with
    | some resp => exact hsome resp (by rw [hjoin, hlast])
    | none =>
      rcases hnone (by rw [hjoin, hlast]) with rfl | rfl
      · exact Or.inl rfl
      · exact Or.inr s.deathReport_cases
  | streamOver hcall _ =>
    refine h.ended hids .getStream ?_ fun hget => by cases hget
    rcases hcall with ⟨-, hcall, -⟩ | ⟨-, hcall⟩
    · rw [hcall]
      rfl
    · rw [hcall]
      rfl
  | @unsubscribing j i id hj _ _ =>
    have hmoved : (s.move j (.unsubscribing i)).Correlated :=
      h.moved (Or.inl (by rw [hj]; rfl)) (by rw [hj]; rfl) (by simp) (by simp [hj])
    exact hmoved.congr rfl rfl rfl
  | unsubscribedAgain hj _ _ =>
    exact h.moved (Or.inl (by rw [hj]; rfl)) (by rw [hj]; rfl) (by simp) (by simp [hj])
  | @unsubscribeErased j i id hj _ =>
    have herased : (s.eraseSink id).Correlated := h.congr rfl rfl rfl
    have hcall : (s.eraseSink id).calls j = .unsubscribing i := hj
    exact herased.moved (Or.inl (by rw [hcall]; rfl)) (by rw [hcall]; rfl) (by simp)
      (by simp [hcall])
  | unsubscribeReturned hj _ =>
    exact h.moved (Or.inl (by rw [hj]; rfl)) (by rw [hj]; rfl) (by simp) (by simp [hj])
  | @unsubscribeSent j i hj _ =>
    have hdraw : s.draw.Correlated := h.congr rfl rfl rfl
    have hcall : s.draw.calls j = .unsubscribeErased i := hj
    exact hdraw.moved (Or.inl (by rw [hcall]; rfl)) (by rw [hcall]; rfl) (by simp) (by simp [hcall])
  | stored _ _ =>
    refine h.answered rfl rfl (fun id hne => Function.update_of_ne hne ..) fun i hi => ?_
    exact Function.update_self ..
  | ignored _ hpending _ | refused _ hpending _ _ | streamFailed _ hpending _ _ =>
    refine h.answered rfl rfl (fun _ _ => rfl) fun i hi => ?_
    rw [h.waiting i _ hi] at hpending
    cases hpending
  | @ended d _ =>
    obtain ⟨sinks, heq⟩ := s.eraseLast_eq d
    rw [heq]
    exact h.congr rfl rfl rfl
  | drewOther | quiet _ | chunkDropped _ _ | chunkTaken _ _ | marked _ _ | invoked _ _
  | callbackReturned _ | swept _ => exact h.congr rfl rfl rfl

theorem correlated_of_run {acts : List Act} (hrun : Run Step {} acts s)
    (hlt : s.drawn.length < 2 ^ 64) : s.Correlated := by
  refine hrun.preserves (I := fun s => s.drawn.length < 2 ^ 64 → s.Ids ∧ s.Correlated)
    (fun _ => ⟨ids_start, correlated_start⟩) ?_ hlt |>.2
  intro s a s' h hstep hlt
  obtain ⟨hids, hcorr⟩ := h (lt_of_le_of_lt (drawn_le hstep) hlt)
  exact ⟨hids.step hstep hlt, hcorr.step hids hstep⟩

/-! ### What reaches a `get` -/

/-- The outcomes in which a `get` reports bytes or a status error of the host. -/
def Reports : CallOutcome → Prop
  | .returned _ | .notFound | .accessDenied | .protocol _ => True
  | _ => False

/-- Call `i` was a `get` with request id `id` and has ended with `o`. -/
structure Answered (s : ClientCalls) (i : ℕ) (id : UInt64) (o : CallOutcome) : Prop where
  /-- What it reports comes from a RESPONSE with its id, read while it was registered. -/
  own : Reports o → ∃ resp ∈ s.answers i, resp.requestId = id ∧ o = getReport resp
  /-- If it has sent its request, it reports the RESPONSE that was stored last. -/
  kept : o ≠ .sendFailed → ∀ resp, (s.answers i).getLast? = some resp → o = getReport resp
  /-- Nothing is left in `pending`. -/
  entry : s.pending id = none
  /-- A later RESPONSE with its id changes nothing for anybody. -/
  late : ∀ resp : ResponsePayload, resp.requestId = id →
    s.readResponse resp = { s with reader := .top }

/-- Nobody is under way with the id of a call that is over. -/
theorem Ids.not_under (h : s.Ids) {o : CallOutcome} (hcall : s.calls i = .over kind id o) (j : ℕ)
    (kind' : AskKind) : (s.calls j).under ≠ some (kind', id) := by
  intro hj
  have heq : i = j := h.asks_inj i j kind kind' id (by rw [hcall]; rfl) (CallPlace.asks_of_under hj)
  rw [← heq, hcall] at hj
  cases hj

theorem Ids.pending_of_over (h : s.Ids) {o : CallOutcome} (hcall : s.calls i = .over kind id o) :
    s.pending id = none := by
  by_contra hne
  obtain ⟨j, hj⟩ := h.pending id hne
  exact h.not_under hcall j .get hj

theorem Ids.sink_of_over (h : s.Ids) {o : CallOutcome} (hcall : s.calls i = .over kind id o) :
    s.streamSinks id = none := by
  cases hsink : s.streamSinks id with
  | none => rfl
  | some sink => exact absurd (h.sinks id sink hsink) (h.not_under hcall _ _)

theorem Ids.readResponse_of_over (h : s.Ids) {o : CallOutcome}
    (hcall : s.calls i = .over kind id o) {resp : ResponsePayload} (hresp : resp.requestId = id) :
    s.readResponse resp = { s with reader := .top } := by
  subst hresp
  have hanswers : s.record resp.requestId s.answers resp = s.answers := by
    funext j
    refine if_neg fun hj => ?_
    obtain ⟨⟨kind', id'⟩, hunder, rfl⟩ := Option.map_eq_some_iff.mp hj
    exact h.not_under hcall j kind' hunder
  rw [readResponse]
  simp only [h.pending_of_over hcall, h.sink_of_over hcall, hanswers]

theorem Correlated.answered_of_over (h : s.Correlated) (hids : s.Ids) {o : CallOutcome}
    (hcall : s.calls i = .over .get id o) : s.Answered i id o where
  own := by
    intro hreports
    rcases h.outcome i id o hcall with rfl | hends
    · exact hreports.elim
    · rw [GetEnds] at hends
      cases hlast : (s.answers i).getLast? with
      | none =>
        rw [hlast] at hends
        rcases hends with rfl | rfl | ⟨message, rfl⟩
        · exact hreports.elim
        · exact hreports.elim
        · exact hreports.elim
      | some resp =>
        rw [hlast] at hends
        have hmem : resp ∈ s.answers i := List.mem_of_getLast? hlast
        obtain ⟨kind, hown⟩ := h.own i resp hmem
        rw [hcall] at hown
        cases hown
        exact ⟨resp, hmem, rfl, hends⟩
  kept := by
    intro hsent resp hlast
    rcases h.outcome i id o hcall with rfl | hends
    · exact absurd rfl hsent
    · rw [GetEnds, hlast] at hends
      exact hends
  entry := hids.pending_of_over hcall
  late := fun _ hresp => hids.readResponse_of_over hcall hresp

/-- A `get` with a stored RESPONSE ends with it when it next wakes up, whether or not its time is up
and whether or not the connection is alive. -/
theorem Correlated.getWake (h : s.Correlated) (hcall : s.calls i = .sent .get id)
    {resp : ResponsePayload} (hlast : (s.answers i).getLast? = some resp) (timedOut : Bool) :
    (s.getWake i id timedOut).calls i = .over .get id (getReport resp) := by
  have hentry := h.waiting i id (by rw [hcall]; rfl)
  have hjoin : (s.pending id).join = some resp := by
    rw [hentry, hlast]
    rfl
  simp only [ClientCalls.getWake, hjoin, Option.isSome_some, or_true, not_true_eq_false, false_and,
    if_false]
  exact move_calls_self _

end

end ClientCalls

open ClientCalls

/-- **Request and response.** In every state of a connection on which fewer than `2 ^ 64` ids were
drawn: a `get` that is over has reported a RESPONSE with its own id, and the one stored last if its
request was sent; it has left no entry, and later RESPONSEs with its id reach nobody. A `get` that
waits ends with the RESPONSE stored for it when it wakes up, also on a dead connection. -/
theorem request_response_correlation (acts : List Act) (s : ClientCalls) (hrun : Run Step {} acts s)
    (hlt : s.drawn.length < 2 ^ 64) :
    (∀ i id o, s.calls i = .over .get id o → s.Answered i id o) ∧
    ∀ i id resp, s.calls i = .sent .get id → (s.answers i).getLast? = some resp →
      ∀ timedOut, (s.getWake i id timedOut).calls i = .over .get id (getReport resp) := by
  have hids := ids_of_run hrun hlt
  have hcorr := correlated_of_run hrun hlt
  constructor
  · intro i id o hcall
    exact hcorr.answered_of_over hids hcall
  · intro i id resp hcall hlast timedOut
    exact hcorr.getWake hcall hlast timedOut

/-! ### Two answers -/

namespace EarlyAnswer

def resp : ResponsePayload := { requestId := 1, status := 0, data := [42] }

/-- A `get` registers, and the peer answers it before it has sent anything. -/
def opening : List Act :=
  [.lookup 0 .get, .draw 0, .register 0, .readerTop, .readResponse resp]

def stored : Option ClientCalls := exec step {} opening

theorem stored_isSome : stored.isSome = true := by decide +kernel

/-- The connection dies. -/
def dying : List Act := [.readerTop, .readFails, .die]

/-- The request is sent all the same, and the `get` wakes up. -/
def kept : Option ClientCalls := exec step {} (opening ++ dying ++ [.send 0 true, .getWake 0 false])

theorem kept_isSome : kept.isSome = true := by decide +kernel

/-- The request is not sent. -/
def dropped : Option ClientCalls :=
  exec step (stored.get stored_isSome) (dying ++ [.send 0 false, .giveUp 0])

theorem dropped_isSome : dropped.isSome = true := by decide +kernel

end EarlyAnswer

open EarlyAnswer

theorem request_response_correlation_kept :
    (kept.get kept_isSome).alive = false ∧
      (kept.get kept_isSome).calls 0 = .over .get 1 (.returned [42]) ∧
      (kept.get kept_isSome).Answered 0 1 (.returned [42]) := by
  have hover : (kept.get kept_isSome).calls 0 = .over .get 1 (.returned [42]) := by decide +kernel
  refine ⟨by decide +kernel, hover, ?_⟩
  exact (request_response_correlation _ _ (run_of_exec (Option.some_get kept_isSome).symm)
    (by decide +kernel)).1 0 1 _ hover

/-- A RESPONSE was stored before the connection died, and the `get` throws. -/
theorem early_answer_dropped :
    ¬ ∀ (acts more : List Act) (s s' : ClientCalls), Run Step {} acts s → Run Step s more s' →
      s'.drawn.length < 2 ^ 64 → ∀ i id o resp, (s.calls i).under = some (.get, id) →
      s.pending id = some (some resp) → s.alive = true → s'.alive = false →
      s'.calls i = .over .get id o → ∃ r ∈ s'.answers i, o = getReport r := by
  intro hclaim
  have hanswers : (dropped.get dropped_isSome).answers 0 = [resp] := by decide +kernel
  obtain ⟨r, hr, heq⟩ := hclaim _ _ _ _ (run_of_exec (Option.some_get stored_isSome).symm)
    (run_of_exec (Option.some_get dropped_isSome).symm) (by decide +kernel) 0 1 .sendFailed resp
    (by decide +kernel) (by decide +kernel) (by decide +kernel) (by decide +kernel)
    (by decide +kernel)
  rw [hanswers, List.mem_singleton] at hr
  subst hr
  exact absurd heq (by decide)

end Epx
