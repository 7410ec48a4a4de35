import Epx.Correlation
import Epx.StreamReturn

/-!
# What `get_stream` reports

`get_stream` of `src/client.cpp` combines what the reader thread has written into its sink (`done`,
`failed`, `activity`) with `alive`, each time it wakes up, in a fixed order. Here each way it can
end is traced back to what was read for it. A wait is what one `wait_for` does: it begins when
`get_stream` enters its loop or finds a new chunk, and from there the interval counts.

`activity` is a counter of 64 bits, as is the source of the request ids: a wait in which `2 ^ 64`
chunks arrive looks like one without any, and after `2 ^ 64` draws another call has the same id. A
RESPONSE of any status ends a `get_stream`: one whose endpoint answers instead of streaming throws
the answer as the message of a Protocol error.

## Main definitions

* `ClientCalls.SinkTells` — a sink says what was read for its `get_stream`
* `ClientCalls.BeginsWait`, `ClientCalls.Waits` — one wait of a `get_stream`
* `ClientCalls.Justifies` — what must have happened for an outcome
* `ClientCalls.TrueOutcomes` — `get_stream` reports the true outcome

## Main results

* `get_stream_outcome`
* `get_stream_outcome_wraps`
-/

namespace Epx

open Codec Transition

namespace ClientCalls

/-! ### The sink -/

/-- A sink says what was read for its `get_stream`: how many chunks, whether the last one was among
them, and what the host refused it with. -/
structure SinkTells (sink : StreamSink) (fed : List (Bytes × Bool))
    (answers : List ResponsePayload) : Prop where
  activity : sink.activity = UInt64.ofNat fed.length
  last : ∀ data, (data, true) ∈ fed → sink.done = true
  done : sink.done = true → sink.failed = true ∨ ∃ data, (data, true) ∈ fed
  refusal : sink.failed = true →
    ∃ resp ∈ answers, sink.failStatus = resp.status ∧ sink.failMessage = resp.data

/-- A `get_stream` that has registered has a sink, which says what was read for it. -/
structure StreamTold (s : ClientCalls) (i : ℕ) : Prop where
  sink : ∀ id, (s.calls i).under = some (.getStream, id) →
    ∃ sink, s.streamSinks id = some sink ∧ SinkTells sink (s.fed i) (s.answers i)
  early : (s.calls i).under = none → (∀ kind id o, s.calls i ≠ .over kind id o) → s.fed i = []

theorem streamTold_start (i : ℕ) : StreamTold {} i where
  sink _ h := by cases h
  early _ _ := rfl

section

variable {s s' : ClientCalls} {a : Act} {i : ℕ} {id : UInt64} {kind : AskKind}
  {sink : StreamSink} {chunks : List (Bytes × Bool)} {resps : List ResponsePayload}

theorem sinkTells_new (i : ℕ) (resps : List ResponsePayload) :
    SinkTells { callback := i } [] resps where
  activity := rfl
  last _ h := absurd h List.not_mem_nil
  done h := by cases h
  refusal h := by cases h

theorem SinkTells.chunk (h : SinkTells sink chunks resps) (chunk : StreamChunkPayload) :
    SinkTells (sinkFed sink chunk) (chunks ++ [(chunk.data, chunk.isLast)]) resps where
  activity := by
    change sink.activity + 1 = _
    rw [h.activity, List.length_append]
    exact (UInt64.ofNat_add chunks.length 1).symm
  last data hmem := by
    change (sink.done || chunk.isLast) = true
    rcases List.mem_append.mp hmem with hold | hnew
    · rw [h.last data hold, Bool.true_or]
    · cases hlast : chunk.isLast with
      | true => exact Bool.or_true _
      | false => simp [hlast] at hnew
  done hdone := by
    rcases (Bool.or_eq_true _ _).mp hdone with hold | hlast
    · rcases h.done hold with hfailed | ⟨data, hmem⟩
      · exact Or.inl hfailed
      · exact Or.inr ⟨data, List.mem_append_left _ hmem⟩
    · exact Or.inr ⟨chunk.data, by simp [hlast]⟩
  refusal := h.refusal

theorem SinkTells.failed (h : SinkTells sink chunks resps) (resp : ResponsePayload) :
    SinkTells (sinkFailed sink resp) chunks (resps ++ [resp]) where
  activity := h.activity
  last _ _ := rfl
  done _ := Or.inl rfl
  refusal _ := ⟨resp, List.mem_append_right _ List.mem_cons_self, rfl, rfl⟩

theorem SinkTells.answered (h : SinkTells sink chunks resps) {resps' : List ResponsePayload}
    (hle : ∀ resp ∈ resps, resp ∈ resps') : SinkTells sink chunks resps' where
  activity := h.activity
  last := h.last
  done := h.done
  refusal hfailed := by
    obtain ⟨resp, hmem, hresp⟩ := h.refusal hfailed
    exact ⟨resp, hle resp hmem, hresp⟩

theorem SinkTells.noLast (h : SinkTells sink chunks resps) (hdone : sink.done = false) :
    ∀ p ∈ chunks, p.2 = false := by
  intro p hmem
  by_contra hlast
  have htrue : p = (p.1, true) := Prod.ext rfl (Bool.not_eq_false _ ▸ hlast)
  rw [htrue] at hmem
  rw [h.last p.1 hmem] at hdone
  cases hdone

/-- Nothing is read for the call, but perhaps a RESPONSE, and its sink stays. -/
theorem StreamTold.congr (h : s.StreamTold i) (hcall : s'.calls i = s.calls i)
    (hfed : s'.fed i = s.fed i) (hanswers : ∀ resp ∈ s.answers i, resp ∈ s'.answers i)
    (hsink : ∀ id, (s.calls i).under = some (.getStream, id) →
      s'.streamSinks id = s.streamSinks id) : s'.StreamTold i where
  sink := by
    intro id hunder
    rw [hcall] at hunder
    rw [hfed, hsink id hunder]
    obtain ⟨sink, hsome, htells⟩ := h.sink id hunder
    exact ⟨sink, hsome, htells.answered hanswers⟩
  early := by
    intro hunder hne
    rw [hcall] at hunder hne
    rw [hfed]
    exact h.early hunder hne

/-- The tables that a call reads and the records do not change. -/
theorem StreamTold.same (h : s.StreamTold i) (hcall : s'.calls i = s.calls i)
    (hfed : s'.fed = s.fed) (hanswers : s'.answers = s.answers)
    (hsinks : s'.streamSinks = s.streamSinks) : s'.StreamTold i :=
  h.congr hcall (by rw [hfed]) (fun _ hmem => by rw [hanswers]; exact hmem)
    fun _ _ => by rw [hsinks]

/-- A call goes on without leaving. -/
theorem StreamTold.moved (h : s.StreamTold i) {j : ℕ} {c : CallPlace}
    (hunder : c.under = (s.calls j).under) (hold : ∀ kind id o, s.calls j ≠ .over kind id o) :
    (s.move j c).StreamTold i := by
  by_cases hij : i = j
  · subst hij
    have hsame := under_move (s := s) hunder i
    exact
      { sink := fun id hi => h.sink id (hsame ▸ hi)
        early := fun hi _ => h.early (hsame ▸ hi) hold }
  · exact h.same (move_calls_of_ne hij c) rfl rfl rfl

theorem StreamTold.registered (h : s.StreamTold i) (hids : s.Ids) {j : ℕ}
    (hcall : s.calls j = .drawn kind id) :
    ((s.register j id kind).move j (.registered kind id)).StreamTold i := by
  have hcalls := s.register_calls j id kind
  by_cases hij : i = j
  · subst hij
    have hfed : s.fed i = [] := h.early (by rw [hcall]; rfl) (by simp [hcall])
    refine ⟨fun id' hunder => ?_, fun hunder => ?_⟩
    · rw [move_calls_self] at hunder
      cases hunder
      refine ⟨{ callback := i }, Function.update_self .., ?_⟩
      change SinkTells _ (s.fed i) _
      rw [hfed]
      exact sinkTells_new i _
    · rw [move_calls_self] at hunder
      cases hunder
  · have hasks : (s.calls j).asks = some (kind, id) := by rw [hcall]; rfl
    have hmove : ((s.register j id kind).move j (.registered kind id)).calls i = s.calls i := by
      rw [move_calls_of_ne hij, hcalls]
    cases kind with
    | get => exact h.same hmove rfl rfl rfl
    | getStream | subscribe =>
      refine h.congr hmove rfl (fun _ hmem => hmem) fun id' hi => ?_
      exact streamSinks_update_of_under hids hasks (Or.inl (Ne.symm hij)) id' hi

theorem StreamTold.ended (h : s.StreamTold i) (hids : s.Ids) {j : ℕ} (kind : AskKind)
    {o : CallOutcome} (hunder : (s.calls j).under = some (kind, id)) :
    ((s.unregister id kind).move j (.over kind id o)).StreamTold i := by
  have hcalls := s.unregister_calls id kind
  by_cases hij : i = j
  · subst hij
    refine ⟨fun id' hi => ?_, fun _ hne => ?_⟩
    · rw [move_calls_self] at hi
      cases hi
    · exact absurd (move_calls_self _) (hne kind id o)
  · have hasks := CallPlace.asks_of_under hunder
    have hmove : ((s.unregister id kind).move j (.over kind id o)).calls i = s.calls i := by
      rw [move_calls_of_ne hij, hcalls]
    cases kind with
    | get => exact h.same hmove rfl rfl rfl
    | getStream | subscribe =>
      refine h.congr hmove rfl (fun _ hmem => hmem) fun id' hi => ?_
      exact streamSinks_update_of_under hids hasks (Or.inl (Ne.symm hij)) id' hi

/-- The invariant asks nothing of a call of another kind that is under way. -/
theorem streamTold_of_other (kind : AskKind) (hunder : (s.calls i).under = some (kind, id))
    (hne : kind ≠ .getStream) : s.StreamTold i where
  sink id' hi := by
    rw [hunder] at hi
    cases hi
    exact absurd rfl hne
  early hi := by
    rw [hunder] at hi
    cases hi

theorem StreamTold.chunkDropped (h : s.StreamTold i) {chunk : StreamChunkPayload}
    (hsink : s.streamSinks chunk.requestId = none) :
    StreamTold { s.feed chunk with reader := .top } i := by
  by_cases hid : ∃ kind, (s.calls i).under = some (kind, chunk.requestId)
  · obtain ⟨kind, hunder⟩ := hid
    refine streamTold_of_other (s := { s.feed chunk with reader := .top }) kind hunder ?_
    rintro rfl
    obtain ⟨sink, hsome, -⟩ := h.sink _ hunder
    rw [hsink] at hsome
    cases hsome
  · have hfed : (s.feed chunk).fed i = s.fed i :=
      feed_fed_of_forall fun kind hunder => hid ⟨kind, hunder⟩
    exact h.congr rfl hfed (fun _ hmem => hmem) fun _ _ => rfl

theorem StreamTold.chunkTaken (h : s.StreamTold i) {chunk : StreamChunkPayload}
    (hsink : s.streamSinks chunk.requestId = some sink) (r : Reader) :
    StreamTold { (s.feed chunk).putSink chunk.requestId (sinkFed sink chunk) with reader := r }
      i := by
  by_cases hid : ∃ kind, (s.calls i).under = some (kind, chunk.requestId)
  · obtain ⟨kind, hunder⟩ := hid
    by_cases hkind : kind = .getStream
    · subst hkind
      refine ⟨fun id' hunder' => ?_, fun hunder' => ?_⟩
      · rw [show id' = chunk.requestId from
          (Prod.mk.inj (Option.some.inj (hunder'.symm.trans hunder))).2]
        obtain ⟨sink', hsink', htells⟩ := h.sink _ hunder
        rw [hsink] at hsink'
        cases hsink'
        refine ⟨sinkFed sink chunk, Function.update_self .., ?_⟩
        change SinkTells _ ((s.feed chunk).fed i) (s.answers i)
        rw [feed_fed_of_under hunder]
        exact htells.chunk chunk
      · have hnone : (s.calls i).under = none := hunder'
        rw [hunder] at hnone
        cases hnone
    · exact streamTold_of_other kind hunder hkind
  · have hother : ∀ kind, (s.calls i).under ≠ some (kind, chunk.requestId) :=
      fun kind hunder => hid ⟨kind, hunder⟩
    refine h.congr rfl (feed_fed_of_forall hother) (fun _ hmem => hmem) fun id' hunder => ?_
    refine Function.update_of_ne ?_ ..
    rintro rfl
    exact hother _ hunder

theorem mem_answer_answers {resp : ResponsePayload} :
    ∀ resp' ∈ s.answers i, resp' ∈ (s.answer resp).answers i := by
  intro resp' hmem
  rw [answer_answers]
  split
  · exact List.mem_append_left _ hmem
  · exact hmem

theorem StreamTold.refused (h : s.StreamTold i) (hids : s.Ids) {resp : ResponsePayload}
    (hsink : s.streamSinks resp.requestId = some sink) (hsub : sink.subscription = true)
    (r : Reader) :
    StreamTold { (s.answer resp).eraseSink resp.requestId with reader := r } i := by
  have hown := hids.sinks _ _ hsink
  rw [hsub] at hown
  refine h.congr rfl rfl mem_answer_answers fun id' hunder => ?_
  exact streamSinks_update_of_under hids (CallPlace.asks_of_under hown) (Or.inr (by decide)) id'
    hunder

theorem StreamTold.streamFailed (h : s.StreamTold i) {resp : ResponsePayload}
    (hsink : s.streamSinks resp.requestId = some sink) (r : Reader) :
    StreamTold { (s.answer resp).putSink resp.requestId (sinkFailed sink resp) with reader := r }
      i := by
  refine ⟨fun id' hunder => ?_, h.early⟩
  have hunder' : (s.calls i).under = some (.getStream, id') := hunder
  obtain ⟨sink', hsink', htells⟩ := h.sink id' hunder'
  by_cases hid : id' = resp.requestId
  · subst hid
    rw [hsink] at hsink'
    cases hsink'
    refine ⟨sinkFailed sink resp, Function.update_self .., ?_⟩
    change SinkTells _ (s.fed i) ((s.answer resp).answers i)
    rw [answer_answers_of_under hunder']
    exact htells.failed resp
  · exact ⟨sink', (Function.update_of_ne hid ..).trans hsink',
      htells.answered mem_answer_answers⟩

theorem StreamTold.step (h : s.StreamTold i) (hids : s.Ids) (hstep : s.Step a s') :
    s'.StreamTold i := by
  cases effect_of_step hstep with
  | moved hgoes => exact h.moved hgoes.under_eq hgoes.old_ne_over
  | @drew j kind hcall =>
    have hdraw : s.draw.StreamTold i := h.same rfl rfl rfl rfl
    have hfound : s.draw.calls j = .found kind := hcall
    exact hdraw.moved (by rw [hfound]; rfl) (by simp [hfound])
  | registered hcall => exact h.registered hids hcall
  | gaveUp hcall => exact h.ended hids _ (by rw [hcall]; rfl)
  | getOver hcall _ _ => exact h.ended hids .get (by rw [hcall]; rfl)
  | @streamOver _ j id _ _ hcall _ =>
    have hunder : (s.calls j).under = some (.getStream, id) := by
      rcases hcall with ⟨-, hcall, -⟩ | ⟨-, hcall⟩
      · rw [hcall]
        rfl
      · rw [hcall]
        rfl
    exact h.ended hids .getStream hunder
  | @unsubscribing j j' _ hj _ _ =>
    have hmoved : (s.move j (.unsubscribing j')).StreamTold i :=
      h.moved (by rw [hj]; rfl) (by simp [hj])
    exact hmoved.same rfl rfl rfl rfl
  | unsubscribedAgain hj _ _ => exact h.moved (by rw [hj]; rfl) (by simp [hj])
  | @unsubscribeErased j j' id hj hj' =>
    have hasks : (s.calls j').asks = some (.subscribe, id) := by rw [hj']; rfl
    have herased : (s.eraseSink id).StreamTold i := by
      refine h.congr rfl rfl (fun _ hmem => hmem) fun id' hunder => ?_
      exact streamSinks_update_of_under hids hasks (Or.inr (by decide)) id' hunder
    have hcall : (s.eraseSink id).calls j = .unsubscribing j' := hj
    exact herased.moved (by rw [hcall]; rfl) (by simp [hcall])
  | unsubscribeReturned hj _ => exact h.moved (by rw [hj]; rfl) (by simp [hj])
  | @unsubscribeSent j j' hj _ =>
    have hdraw : s.draw.StreamTold i := h.same rfl rfl rfl rfl
    have hcall : s.draw.calls j = .unsubscribeErased j' := hj
    exact hdraw.moved (by rw [hcall]; rfl) (by simp [hcall])
  | chunkDropped _ hsink => exact h.chunkDropped hsink
  | chunkTaken _ hsink => exact h.chunkTaken hsink _
  | stored _ _ | ignored _ _ _ => exact h.congr rfl rfl mem_answer_answers fun _ _ => rfl
  | refused _ _ hsink hsub => exact h.refused hids hsink hsub _
  | streamFailed _ _ hsink _ => exact h.streamFailed hsink _
  | @ended d hreader =>
    by_cases hsub : d.subscription = true
    · rw [if_pos hsub]
      have hasks := hids.deliveries d (by rw [hreader]; exact List.mem_cons_self)
      rw [hsub] at hasks
      refine h.congr rfl rfl (fun _ hmem => hmem) fun id' hunder => ?_
      exact streamSinks_update_of_under hids hasks (Or.inr (by decide)) id' hunder
    · rw [if_neg hsub]
      exact h.same rfl rfl rfl rfl
  | swept _ =>
    refine h.congr rfl rfl (fun _ hmem => hmem) fun id' hunder => ?_
    obtain ⟨sink, hsink, -⟩ := h.sink id' hunder
    rw [hsink, sweep_streamSinks_eq_some]
    refine ⟨hsink, ?_⟩
    have hown := hids.sinks _ _ hsink
    have hcallback : sink.callback = i := hids.under_inj hown hunder
    rw [hcallback, hunder] at hown
    cases hsub : sink.subscription with
    | false => rfl
    | true =>
      rw [hsub] at hown
      cases hown
  | getSlept _ | drewOther | quiet _ | marked _ _ | invoked _ _ | callbackReturned _ =>
    exact h.same rfl rfl rfl rfl

/-! ### A wait -/

/-- `get_stream` enters its loop, or wakes up and finds a new chunk. -/
def BeginsWait (s : ClientCalls) (i : ℕ) : Act → Prop
  | .streamBegin j => j = i
  | .streamWake j _ => j = i ∧ ∃ id before, s.calls i = .waiting id before ∧
      sinkActivity (s.streamSinks id) ≠ before
  | _ => False

/-- The steps in which call `i` does not begin a wait. -/
abbrev WaitStep (i : ℕ) : ClientCalls → Act → ClientCalls → Prop :=
  Guarded Step fun s a => ¬ s.BeginsWait i a

/-- The wait that call `i` is in began in `t`. -/
def Waits (acts : List Act) (i : ℕ) (t s : ClientCalls) : Prop :=
  ∃ first a mid r, acts = first ++ a :: mid ∧ Run Step {} first r ∧ r.BeginsWait i a ∧
    r.Step a t ∧ Run (WaitStep i) t mid s

/-- How a call comes to be waiting. -/
inductive WaitsBy (s : ClientCalls) (i : ℕ) (id before : UInt64) : Act → Prop
  | began : s.calls i = .sent .getStream id → before = sinkActivity (s.streamSinks id) →
      WaitsBy s i id before (.streamBegin i)
  | woke {before₀ : UInt64} {timedOut : Bool} : s.calls i = .waiting id before₀ →
      before = sinkActivity (s.streamSinks id) → WaitsBy s i id before (.streamWake i timedOut)
  | stayed {a : Act} : s.calls i = .waiting id before → ¬ s.BeginsWait i a →
      WaitsBy s i id before a

theorem streamWake_waiting {j : ℕ} {id₀ before₀ before : UInt64} {timedOut : Bool}
    (h : (s.streamWake j id₀ before₀ timedOut).calls i = .waiting id before) :
    (i = j ∧ id = id₀ ∧ before = sinkActivity (s.streamSinks id₀)) ∨
      (i ≠ j ∧ s.calls i = .waiting id before) := by
  rw [streamWake] at h
  split at h
  · obtain ⟨-, h⟩ | hold := of_move_calls (P := fun c => c = .waiting id before) h
    · cases h
    · exact Or.inr hold
  · obtain ⟨hij, h⟩ | hold := of_move_calls (P := fun c => c = .waiting id before) h
    · cases h
      exact Or.inl ⟨hij, rfl, rfl⟩
    · exact Or.inr hold

/-- No other step lets a call wait: the calls stay as they are, or one moves to another place. -/
theorem calls_step (hstep : s.Step a s') (hbegin : ∀ j, a ≠ .streamBegin j)
    (hwake : ∀ j timedOut, a ≠ .streamWake j timedOut) :
    s'.calls = s.calls ∨
      ∃ j c, s'.calls = Function.update s.calls j c ∧ ∀ id before, c ≠ .waiting id before := by
  have h : s.step a = some s' := hstep
  cases a with
  | lookup i kind =>
    simp only [step] at h
    split at h
    · obtain ⟨-, heq⟩ := Option.ite_none_right_eq_some.mp h
      cases heq
      exact Or.inr ⟨i, _, rfl, by simp⟩
    · cases h
  | draw i =>
    simp only [step] at h
    split at h
    · cases h
      exact Or.inr ⟨i, _, rfl, by simp⟩
    · cases h
  | register i =>
    simp only [step] at h
    split at h
    · next kind id hcall =>
      cases h
      have hcalls := s.register_calls i id kind
      exact Or.inr ⟨i, .registered kind id, by rw [← hcalls]; rfl, by simp⟩
    · cases h
  | send i ok =>
    simp only [step] at h
    split at h
    · cases h
      refine Or.inr ⟨i, _, rfl, ?_⟩
      cases ok <;> simp
    · cases h
  | giveUp i =>
    simp only [step] at h
    split at h
    · next kind id hcall =>
      cases h
      have hcalls := s.unregister_calls id kind
      exact Or.inr ⟨i, .over kind id .sendFailed, by rw [← hcalls]; rfl, by simp⟩
    · cases h
  | getWake i timedOut =>
    simp only [step] at h
    split at h
    · next id hcall =>
      cases h
      rw [getWake]
      dsimp only
      split
      · exact Or.inl rfl
      · exact Or.inr ⟨i, _, rfl, by simp⟩
    · cases h
  | streamBegin j => exact absurd rfl (hbegin j)
  | streamWake j timedOut => exact absurd rfl (hwake j timedOut)
  | unsubscribe j i =>
    simp only [step] at h
    split at h
    · split at h
      · cases h
        exact Or.inr ⟨j, _, rfl, by simp⟩
      · cases h
        exact Or.inr ⟨j, _, rfl, by simp⟩
    · cases h
  | unsubscribeErase j =>
    simp only [step] at h
    split at h
    · split at h
      · cases h
        exact Or.inr ⟨j, _, rfl, by simp⟩
      · cases h
    · cases h
  | unsubscribeReturn j =>
    simp only [step] at h
    split at h
    · next i hcall =>
      cases h
      refine Or.inr ⟨j, .unsubscribed i, ?_, by simp⟩
      by_cases halive : s.alive = true
      · rw [if_pos halive]
        rfl
      · rw [if_neg halive]
        rfl
    · cases h
  | readChunk chunk =>
    obtain ⟨-, heq⟩ := Option.ite_none_right_eq_some.mp h
    cases heq
    rw [readChunk]
    dsimp only
    split
    · exact Or.inl rfl
    · exact Or.inl rfl
  | readResponse resp =>
    obtain ⟨-, heq⟩ := Option.ite_none_right_eq_some.mp h
    cases heq
    rw [readResponse]
    dsimp only
    split
    · exact Or.inl rfl
    · split
      · exact Or.inl rfl
      · split
        · exact Or.inl rfl
        · exact Or.inl rfl
  | readError err =>
    obtain ⟨-, heq⟩ := Option.ite_none_right_eq_some.mp h
    cases err with
    | none =>
      cases heq
      exact Or.inl rfl
    | some e =>
      cases heq
      exact Or.inl rfl
  | drawOther | close =>
    cases h
    exact Or.inl rfl
  | readerTop | readOther | readFails | die | sweep =>
    obtain ⟨-, heq⟩ := Option.ite_none_right_eq_some.mp h
    cases heq
    exact Or.inl rfl
  | mark | invoke =>
    simp only [step] at h
    split at h
    · obtain ⟨-, heq⟩ := Option.ite_none_right_eq_some.mp h
      cases heq
      exact Or.inl rfl
    · cases h
  | callbackReturns =>
    simp only [step] at h
    split at h
    · cases h
      exact Or.inl rfl
    · cases h
  | endLast =>
    simp only [step] at h
    split at h
    · next d hreader =>
      cases h
      obtain ⟨sinks, heq⟩ := s.eraseLast_eq d
      rw [heq]
      exact Or.inl rfl
    · cases h

theorem waitsBy_of_step {before : UInt64} (hstep : s.Step a s')
    (hwait : s'.calls i = .waiting id before) : s.WaitsBy i id before a := by
  by_cases hact : (∃ j, a = .streamBegin j) ∨ ∃ j timedOut, a = .streamWake j timedOut
  · rcases hact with ⟨j, rfl⟩ | ⟨j, timedOut, rfl⟩
    · have hfun : s.step (.streamBegin j) = some s' := hstep
      simp only [step] at hfun
      split at hfun
      · next id₀ hcall =>
        cases hfun
        obtain ⟨rfl, rfl, rfl⟩ | ⟨hij, hold⟩ := streamWake_waiting hwait
        · exact .began hcall rfl
        · exact .stayed hold fun hbegins => hij hbegins.symm
      · cases hfun
    · have hfun : s.step (.streamWake j timedOut) = some s' := hstep
      simp only [step] at hfun
      split at hfun
      · next id₀ before₀ hcall =>
        cases hfun
        obtain ⟨rfl, rfl, rfl⟩ | ⟨hij, hold⟩ := streamWake_waiting hwait
        · exact .woke hcall rfl
        · exact .stayed hold fun hbegins => hij hbegins.1.symm
      · cases hfun
  · have hno : ¬ s.BeginsWait i a := by
      rintro hbegins
      cases a with
      | streamBegin j => exact hact (Or.inl ⟨j, rfl⟩)
      | streamWake j timedOut => exact hact (Or.inr ⟨j, timedOut, rfl⟩)
      | _ => exact hbegins
    refine .stayed ?_ hno
    rcases calls_step hstep (fun j hj => hact (Or.inl ⟨j, hj⟩))
      (fun j timedOut hj => hact (Or.inr ⟨j, timedOut, hj⟩)) with hcalls | ⟨j, c, hcalls, hc⟩
    · rw [← hcalls]
      exact hwait
    · rw [hcalls] at hwait
      by_cases hij : i = j
      · rw [hij, Function.update_self] at hwait
        exact absurd hwait (hc id before)
      · rwa [Function.update_of_ne hij] at hwait

/-- What was read for a call stays read. -/
theorem fed_step (hstep : s.Step a s') (i : ℕ) : s.fed i <+: s'.fed i := by
  have hfeed : ∀ chunk : StreamChunkPayload, s.fed i <+: (s.feed chunk).fed i := by
    intro chunk
    rw [feed_fed]
    split
    · exact List.prefix_append _ _
    · exact List.prefix_refl _
  cases effect_of_step hstep with
  | chunkDropped _ _ | chunkTaken _ _ => exact hfeed _
  | @registered _ kind _ _ => cases kind <;> exact List.prefix_refl _
  | @gaveUp _ kind _ _ => cases kind <;> exact List.prefix_refl _
  | @ended d _ =>
    obtain ⟨sinks, heq⟩ := s.eraseLast_eq d
    simp only [heq]
    exact List.prefix_refl _
  | _ => exact List.prefix_refl _

theorem streamWake_fed (i : ℕ) (id before : UInt64) (timedOut : Bool) :
    (s.streamWake i id before timedOut).fed = s.fed := by
  rw [streamWake]
  split <;> rfl

/-- What beginning a wait leaves as it is. -/
theorem fed_of_beginsWait (hstep : s.Step a s') (hbegins : s.BeginsWait i a) :
    s'.fed = s.fed := by
  have h : s.step a = some s' := hstep
  cases a with
  | streamBegin j | streamWake j timedOut =>
    simp only [ClientCalls.step] at h
    split at h
    · cases h
      exact streamWake_fed _ _ _ _
    · cases h
  | _ => exact hbegins.elim

theorem StreamTold.activity (h : s.StreamTold i)
    (hunder : (s.calls i).under = some (.getStream, id)) :
    sinkActivity (s.streamSinks id) = UInt64.ofNat (s.fed i).length := by
  obtain ⟨sink, hsink, htells⟩ := h.sink id hunder
  rw [hsink]
  exact htells.activity

/-- What `get_stream` relies on, on a connection on which no id was drawn twice. -/
structure Streams (s : ClientCalls) : Prop where
  ids : s.Ids
  told : ∀ i, s.StreamTold i

theorem Streams.step (h : s.Streams) (hstep : s.Step a s') (hlt : s'.drawn.length < 2 ^ 64) :
    s'.Streams :=
  ⟨h.ids.step hstep hlt, fun i => (h.told i).step h.ids hstep⟩

theorem streams_of_run {acts : List Act} (hrun : Run Step {} acts s)
    (hlt : s.drawn.length < 2 ^ 64) : s.Streams := by
  refine hrun.preserves (I := fun s => s.drawn.length < 2 ^ 64 → s.Streams)
    (fun _ => ⟨ids_start, streamTold_start⟩) ?_ hlt
  intro s a s' h hstep hlt
  exact (h (lt_of_le_of_lt (drawn_le hstep) hlt)).step hstep hlt

/-- **A call that waits is in a wait**, and `activity_before` is the number of chunks that had been
read for it when the wait began. -/
theorem waits_of_run {acts : List Act} (hrun : Run Step {} acts s)
    (hlt : s.drawn.length < 2 ^ 64) {before : UInt64} (hwait : s.calls i = .waiting id before) :
    ∃ t, Waits acts i t s ∧ before = UInt64.ofNat (t.fed i).length ∧ t.fed i <+: s.fed i := by
  induction hrun generalizing before with
  | nil => cases hwait
  | @snoc as a r s hrun hlast ih =>
    have hltr : r.drawn.length < 2 ^ 64 := lt_of_le_of_lt (drawn_le hlast) hlt
    have hstreams := streams_of_run hrun hltr
    -- a wait that begins with this step
    have hbegun : r.BeginsWait i a → before = UInt64.ofNat (r.fed i).length →
        ∃ t, Waits (as ++ [a]) i t s ∧ before = UInt64.ofNat (t.fed i).length ∧
          t.fed i <+: s.fed i := by
      intro hbegins hbefore
      refine ⟨s, ⟨as, a, [], r, rfl, hrun, hbegins, hlast, .nil⟩, ?_, List.prefix_refl _⟩
      rw [fed_of_beginsWait hlast hbegins]
      exact hbefore
    -- a wait that goes on
    have hstayed : r.calls i = .waiting id before → ¬ r.BeginsWait i a →
        ∃ t, Waits (as ++ [a]) i t s ∧ before = UInt64.ofNat (t.fed i).length ∧
          t.fed i <+: s.fed i := by
      intro hold hno
      obtain ⟨t, ⟨first, b, mid, q, rfl, hfirst, hbegins, hstep, hmid⟩, hbefore, hprefix⟩ :=
        ih hltr hold
      refine ⟨t, ⟨first, b, mid ++ [a], q, by simp, hfirst, hbegins, hstep,
        hmid.snoc ⟨hlast, hno⟩⟩, hbefore, hprefix.trans (fed_step hlast i)⟩
    cases waitsBy_of_step hlast hwait with
    | began hsent hbefore =>
      refine hbegun rfl ?_
      rw [hbefore, (hstreams.told i).activity (by rw [hsent]; rfl)]
    | @woke before₀ timedOut hold hbefore =>
      have hunder : (r.calls i).under = some (.getStream, id) := by
        rw [hold]
        rfl
      have hactivity := (hstreams.told i).activity hunder
      by_cases hnew : sinkActivity (r.streamSinks id) = before₀
      · have hsame : before = before₀ := hbefore.trans hnew
        subst hsame
        refine hstayed hold ?_
        rintro ⟨-, id', before', hold', hne⟩
        rw [hold] at hold'
        cases hold'
        exact hne hnew
      · refine hbegun ⟨rfl, id, before₀, hold, hnew⟩ ?_
        rw [hbefore, hactivity]
    | stayed hold hno => exact hstayed hold hno

/-! ### The outcome -/

/-- What must have happened for a `get_stream` to end in `s` with an outcome, after `acts`. `Still`
says of the chunks that were read for it before and at the end of a wait that none was new. A
Protocol error comes of any other status, also of 0. -/
def Justifies (Still : List (Bytes × Bool) → List (Bytes × Bool) → Prop) (acts : List Act)
    (s : ClientCalls) (i : ℕ) (id : UInt64) : CallOutcome → Prop
  | .returned _ => ∃ data, (data, true) ∈ s.fed i
  | .notFound => ∃ resp ∈ s.answers i, resp.requestId = id ∧ resp.status = 2
  | .accessDenied => ∃ resp ∈ s.answers i, resp.requestId = id ∧ resp.status = 3
  | .protocol message => ∃ resp ∈ s.answers i, resp.requestId = id ∧
      resp.status ≠ 2 ∧ resp.status ≠ 3 ∧
      message = if resp.data = [] then streamRequestFailed else resp.data
  | .timeout => ∃ t, Waits acts i t s ∧ Still (t.fed i) (s.fed i)
  | .rateLimited message => (s.alive = false ∧ ∀ p ∈ s.fed i, p.2 = false) ∧
      s.deathReason = kErrRateLimited ∧ message = s.deathMessage
  | .closed => s.alive = false ∧ ∀ p ∈ s.fed i, p.2 = false
  | .sendFailed => s.calls i = .unsent .getStream id

/-- No chunk is new. -/
def NoneNew (before after : List (Bytes × Bool)) : Prop := after = before

/-- The number of new chunks is a multiple of `2 ^ 64`. -/
def NoneCounted (before after : List (Bytes × Bool)) : Prop :=
  before <+: after ∧ after.length % 2 ^ 64 = before.length % 2 ^ 64

/-- **`get_stream` reports the true outcome**: in a state that `acts` have led to, each step that
ends a call has what justifies its outcome, and a time-out comes when the interval of a wait is up;
a call that does not end when it wakes up can still get its last chunk, and if its time was up a
chunk has come; a call that is over stays over with this outcome, and its sink is gone. -/
structure TrueOutcomes (Still : List (Bytes × Bool) → List (Bytes × Bool) → Prop)
    (acts : List Act) (s : ClientCalls) : Prop where
  ends : ∀ i id o a s', s.Step a s' → s'.calls i = .over .getStream id o →
    s.calls i ≠ .over .getStream id o →
    s.Justifies Still acts i id o ∧ (o = .timeout → a = .streamWake i true)
  stays : ∀ i id before timedOut s', s.calls i = .waiting id before →
    s.Step (.streamWake i timedOut) s' → (∀ o, s'.calls i ≠ .over .getStream id o) →
    s.alive = true ∧ (∀ p ∈ s.fed i, p.2 = false) ∧
      (timedOut = true → ∃ t, Waits acts i t s ∧ s.fed i ≠ t.fed i)
  gone : ∀ i id o, s.calls i = .over .getStream id o → s.streamSinks id = none
  once : ∀ i id o, s.calls i = .over .getStream id o →
    ∀ more s', Run Step s more s' → s'.calls i = .over .getStream id o

/-- A step that puts a call over ends it. -/
theorem over_of_move {c : CallPlace} {j : ℕ} {o : CallOutcome}
    (h : (s.move j c).calls i = .over kind id o) (hne : s.calls i ≠ .over kind id o) :
    i = j ∧ c = .over kind id o := by
  obtain ⟨hij, h⟩ | ⟨-, hold⟩ := of_move_calls (P := fun c => c = .over kind id o) h
  · exact ⟨hij, h⟩
  · exact absurd hold hne

/-- How a `get_stream` ends. -/
inductive StreamEnds (s : ClientCalls) (i : ℕ) (id : UInt64) : Act → CallOutcome → Prop
  | unsent {a : Act} : s.calls i = .unsent .getStream id → StreamEnds s i id a .sendFailed
  | began : s.calls i = .sent .getStream id →
      s.streamLeaves id (sinkActivity (s.streamSinks id)) false = true →
      StreamEnds s i id (.streamBegin i) (s.streamOutcome id)
  | woke {before : UInt64} {timedOut : Bool} : s.calls i = .waiting id before →
      s.streamLeaves id before timedOut = true →
      StreamEnds s i id (.streamWake i timedOut) (s.streamOutcome id)

theorem streamEnds_of_step {o : CallOutcome} (hstep : s.Step a s')
    (hover : s'.calls i = .over .getStream id o) (hne : s.calls i ≠ .over .getStream id o) :
    s.StreamEnds i id a o := by
  cases effect_of_step hstep with
  | moved hgoes => exact absurd (over_of_move hover hne).2 (hgoes.ne_over _ _ _)
  | drew _ => exact absurd (over_of_move (s := s.draw) hover hne).2 (by simp)
  | @registered j kind id' _ =>
    have hcalls := s.register_calls j id' kind
    exact absurd (over_of_move hover (by rw [hcalls]; exact hne)).2 (by simp)
  | @gaveUp j kind id' hcall =>
    have hcalls := s.unregister_calls id' kind
    obtain ⟨rfl, heq⟩ := over_of_move hover (by rw [hcalls]; exact hne)
    cases heq
    exact .unsent hcall
  | @getOver j id' _ _ _ _ _ =>
    exact absurd (over_of_move (s := s.erasePending id') hover hne).2 (by simp)
  | @streamOver _ j id' before timedOut hcall hleaves =>
    obtain ⟨rfl, heq⟩ := over_of_move (s := s.eraseSink id') hover hne
    cases heq
    rcases hcall with ⟨rfl, hcall, rfl, rfl⟩ | ⟨rfl, hcall⟩
    · exact .began hcall hleaves
    · exact .woke hcall hleaves
  | @unsubscribing j j' _ _ _ _ =>
    exact absurd (over_of_move (s := s) (c := .unsubscribing j') hover hne).2 (by simp)
  | unsubscribedAgain _ _ _ => exact absurd (over_of_move hover hne).2 (by simp)
  | @unsubscribeErased _ _ id' _ _ =>
    exact absurd (over_of_move (s := s.eraseSink id') hover hne).2 (by simp)
  | unsubscribeReturned _ _ => exact absurd (over_of_move hover hne).2 (by simp)
  | unsubscribeSent _ _ => exact absurd (over_of_move (s := s.draw) hover hne).2 (by simp)
  | @ended d _ =>
    obtain ⟨sinks, heq⟩ := s.eraseLast_eq d
    rw [heq] at hover
    exact absurd hover hne
  | _ => exact absurd hover hne

/-- A refusal that the sink has noted was read for the call. -/
theorem Correlated.justifies_refusal (h : s.Correlated)
    (hunder : (s.calls i).under = some (.getStream, id)) {resp : ResponsePayload}
    (hmem : resp ∈ s.answers i) (hstatus : sink.failStatus = resp.status)
    (hmessage : sink.failMessage = resp.data)
    (Still : List (Bytes × Bool) → List (Bytes × Bool) → Prop) (acts : List Act) :
    s.Justifies Still acts i id (streamReport sink) := by
  obtain ⟨kind, hown⟩ := h.own i resp hmem
  have hid : resp.requestId = id := by
    rw [CallPlace.asks_of_under hunder] at hown
    cases hown
    rfl
  rw [streamReport, hstatus, hmessage]
  split
  · next hnotFound => exact ⟨resp, hmem, hid, hnotFound⟩
  · next hnotFound =>
    split
    · next hdenied => exact ⟨resp, hmem, hid, hdenied⟩
    · next hdenied => exact ⟨resp, hmem, hid, hnotFound, hdenied, rfl⟩

/-- A call that leaves its wait has what justifies its outcome; with a time-out its time is up and
the sink has counted no new chunk. -/
theorem Streams.leaves (h : s.Streams) (hcorr : s.Correlated)
    (hunder : (s.calls i).under = some (.getStream, id)) {before : UInt64} {timedOut : Bool}
    (hleaves : s.streamLeaves id before timedOut = true)
    (Still : List (Bytes × Bool) → List (Bytes × Bool) → Prop) (acts : List Act) :
    (s.streamOutcome id ≠ .timeout → s.Justifies Still acts i id (s.streamOutcome id)) ∧
    (s.streamOutcome id = .timeout →
      timedOut = true ∧ UInt64.ofNat (s.fed i).length = before) := by
  obtain ⟨sink, hsink, htells⟩ := (h.told i).sink id hunder
  by_cases htimeout : s.alive = true ∧ sink.done = false
  · have ho : s.streamOutcome id = .timeout := by simp only [streamOutcome, hsink, if_pos htimeout]
    refine ⟨fun hne => absurd ho hne, fun _ => ?_⟩
    simp only [streamLeaves, sinkDone, sinkStalled, hsink, htimeout, Bool.false_or,
      Bool.not_true, Bool.and_eq_true, decide_eq_true_eq] at hleaves
    exact ⟨hleaves.1, htells.activity ▸ hleaves.2⟩
  · by_cases hfailed : sink.failed = true
    · have ho : s.streamOutcome id = streamReport sink := by
        simp only [streamOutcome, hsink, if_neg htimeout, if_pos hfailed]
      obtain ⟨resp, hmem, hstatus, hmessage⟩ := htells.refusal hfailed
      have hjust := hcorr.justifies_refusal hunder hmem hstatus hmessage Still acts
      rw [ho]
      refine ⟨fun _ => hjust, fun htime => ?_⟩
      rw [streamReport] at htime
      split_ifs at htime
    · by_cases hdone : sink.done = true
      · have ho : s.streamOutcome id = .returned [] := by
          simp only [streamOutcome, hsink, if_neg htimeout, if_neg hfailed, if_pos hdone]
        rw [ho]
        refine ⟨fun _ => ?_, fun htime => by cases htime⟩
        rcases htells.done hdone with hf | hlast
        · exact absurd hf hfailed
        · exact hlast
      · have hopen : sink.done = false := Bool.not_eq_true _ ▸ hdone
        have hdead : s.alive = false := by
          by_contra halive
          exact htimeout ⟨Bool.not_eq_false _ ▸ halive, hopen⟩
        have ho : s.streamOutcome id = s.deathReport := by
          simp only [streamOutcome, hsink, if_neg htimeout, if_neg hfailed, if_neg hdone]
        rw [ho, deathReport]
        split
        · next hlimited =>
          exact ⟨fun _ => ⟨⟨hdead, htells.noLast hopen⟩, hlimited, rfl⟩,
            fun htime => by cases htime⟩
        · exact ⟨fun _ => ⟨hdead, htells.noLast hopen⟩, fun htime => by cases htime⟩

/-- Each step that ends a `get_stream` has what justifies its outcome. -/
theorem ends_of_run {acts : List Act} (hrun : Run Step {} acts s) (hlt : s.drawn.length < 2 ^ 64)
    {o : CallOutcome} (hstep : s.Step a s') (hover : s'.calls i = .over .getStream id o)
    (hne : s.calls i ≠ .over .getStream id o) :
    s.Justifies NoneCounted acts i id o ∧ (o = .timeout → a = .streamWake i true) := by
  have hstreams := streams_of_run hrun hlt
  have hcorr := correlated_of_run hrun hlt
  cases streamEnds_of_step hstep hover hne with
  | unsent hcall => exact ⟨hcall, fun htime => by cases htime⟩
  | began hcall hleaves =>
    obtain ⟨hjust, htime⟩ :=
      hstreams.leaves hcorr (i := i) (by rw [hcall]; rfl) hleaves NoneCounted acts
    -- no time has passed
    have hno : s.streamOutcome id ≠ .timeout := fun ho => by
      obtain ⟨hfalse, -⟩ := htime ho
      cases hfalse
    exact ⟨hjust hno, fun ho => absurd ho hno⟩
  | @woke before timedOut hcall hleaves =>
    obtain ⟨hjust, htime⟩ :=
      hstreams.leaves hcorr (i := i) (by rw [hcall]; rfl) hleaves NoneCounted acts
    by_cases ho : s.streamOutcome id = .timeout
    · obtain ⟨rfl, hcount⟩ := htime ho
      obtain ⟨t, hwaits, hbefore, hprefix⟩ := waits_of_run hrun hlt hcall
      rw [ho]
      refine ⟨⟨t, hwaits, hprefix, ?_⟩, fun _ => rfl⟩
      have heq := congrArg UInt64.toNat (hcount.trans hbefore)
      rwa [UInt64.toNat_ofNat', UInt64.toNat_ofNat'] at heq
    · exact ⟨hjust ho, fun htime => absurd htime ho⟩

/-- A `get_stream` goes on waiting only for what can still come. -/
theorem stays_of_run {acts : List Act} (hrun : Run Step {} acts s) (hlt : s.drawn.length < 2 ^ 64)
    {before : UInt64} {timedOut : Bool} (hcall : s.calls i = .waiting id before)
    (hstep : s.Step (.streamWake i timedOut) s')
    (hne : ∀ o, s'.calls i ≠ .over .getStream id o) :
    s.alive = true ∧ (∀ p ∈ s.fed i, p.2 = false) ∧
      (timedOut = true → ∃ t, Waits acts i t s ∧ s.fed i ≠ t.fed i) := by
  have hunder : (s.calls i).under = some (.getStream, id) := by rw [hcall]; rfl
  obtain ⟨sink, hsink, htells⟩ := ((streams_of_run hrun hlt).told i).sink id hunder
  have hfun : s.step (.streamWake i timedOut) = some s' := hstep
  simp only [step, hcall, Option.some.injEq] at hfun
  subst hfun
  have hleaves : s.streamLeaves id before timedOut = false := by
    by_contra hleaves
    rw [streamWake, if_pos (Bool.not_eq_false _ ▸ hleaves)] at hne
    exact hne _ (move_calls_self _)
  simp only [streamLeaves, sinkDone, sinkStalled, hsink, Bool.or_eq_false_iff,
    Bool.not_eq_false'] at hleaves
  obtain ⟨⟨hdone, halive⟩, hstalled⟩ := hleaves
  refine ⟨halive, htells.noLast hdone, ?_⟩
  rintro rfl
  obtain ⟨t, hwaits, hbefore, -⟩ := waits_of_run hrun hlt hcall
  refine ⟨t, hwaits, fun hsame => ?_⟩
  rw [htells.activity, hsame, hbefore] at hstalled
  simp at hstalled

end

end ClientCalls

open ClientCalls

/-- **`get_stream` reports the true outcome**, on a connection on which fewer than `2 ^ 64` ids were
drawn; a time-out says that the number of chunks that came in an interval is a multiple of
`2 ^ 64`. -/
theorem get_stream_outcome (acts : List Act) (s : ClientCalls) (hrun : Run Step {} acts s)
    (hlt : s.drawn.length < 2 ^ 64) : s.TrueOutcomes NoneCounted acts where
  ends _ _ _ _ _ hstep hover hne := ends_of_run hrun hlt hstep hover hne
  stays _ _ _ _ _ hcall hstep hne := stays_of_run hrun hlt hcall hstep hne
  gone _ _ _ hover := (ids_of_run hrun hlt).sink_of_over hover
  once i id o hover _ _ hmore :=
    hmore.preserves (I := fun t => t.calls i = .over .getStream id o) hover
      fun _ _ _ ht hstep => (over_step hstep ht).1

theorem get_stream_outcome_short :
    ∃ s s', exec step {} ShortStream.opening = some s ∧ s.step (.streamWake 0 false) = some s' ∧
      s.calls 0 = .waiting 1 0 ∧ s'.calls 0 = .over .getStream 1 (.returned []) ∧
      s.TrueOutcomes NoneCounted ShortStream.opening :=
  ⟨_, _, rfl, rfl, rfl, rfl, get_stream_outcome _ _ (run_of_exec rfl) (by decide +kernel)⟩

/-! ### Counters that come round -/

namespace Wrapped

/-- Other calls draw their ids. -/
theorem run_drawOther (s : ClientCalls) (n : ℕ) :
    ∃ l, Run Step s (List.replicate n .drawOther)
      { s with nextRequestId := s.nextRequestId + UInt64.ofNat n, drawn := l } := by
  induction n with
  | zero =>
    refine ⟨s.drawn, ?_⟩
    have hzero : s.nextRequestId + UInt64.ofNat 0 = s.nextRequestId := UInt64.add_zero _
    rw [hzero]
    exact .nil
  | succ n ih =>
    obtain ⟨l, hrun⟩ := ih
    refine ⟨l ++ [s.nextRequestId + UInt64.ofNat n], ?_⟩
    have hsucc : s.nextRequestId + UInt64.ofNat (n + 1) = s.nextRequestId + UInt64.ofNat n + 1 := by
      rw [UInt64.ofNat_add, ← UInt64.add_assoc]
      rfl
    rw [List.replicate_succ', hsucc]
    exact hrun.snoc rfl

/-- A `get_stream` waits, and another one looks the connection up. -/
def opening : List Act :=
  [.lookup 0 .getStream, .draw 0, .register 0, .send 0 true, .streamBegin 0, .lookup 1 .getStream]

def opened : Option ClientCalls := exec step {} opening

theorem opened_isSome : opened.isSome = true := by decide +kernel

/-- After `2 ^ 64 - 1` further draws the counter is where the first call found it. -/
def drawnRound (l : List UInt64) : ClientCalls :=
  { opened.get opened_isSome with nextRequestId := 1, drawn := l }

/-- The other call draws the same id, registers over the first one, and erases its sink. -/
def closing : List Act := [.draw 1, .register 1, .send 1 false, .giveUp 1]

/-- The first call returns normally, and no chunk has come. -/
theorem returns_without_chunk (l : List UInt64) :
    ∃ s s', exec step (drawnRound l) closing = some s ∧ s.step (.streamWake 0 false) = some s' ∧
      s.calls 0 = .waiting 1 0 ∧ s.fed 0 = [] ∧ s'.calls 0 = .over .getStream 1 (.returned []) :=
  ⟨_, _, rfl, rfl, rfl, rfl, rfl⟩

/-- A chunk that is not the last one. -/
def chunk : StreamChunkPayload := { requestId := 1 }

/-- The reader reads it and runs its callback. -/
def round : List Act := [.readerTop, .readChunk chunk, .invoke, .callbackReturns]

def waitBegun : List Act := [.lookup 0 .getStream, .draw 0, .register 0, .send 0 true]

/-- The `get_stream` waits, and `n` chunks have come. -/
structure Came (n : ℕ) (s : ClientCalls) : Prop where
  alive : s.alive = true
  reader : s.reader = .top
  call : s.calls 0 = .waiting 1 0
  sink : s.streamSinks 1 = some { callback := 0, activity := UInt64.ofNat n }
  fed : (s.fed 0).length = n
  drawn : s.drawn.length = 1

theorem came_round {n : ℕ} {s : ClientCalls} (h : Came n s) :
    ∃ s', Run Step s round s' ∧ Came (n + 1) s' := by
  let sink : StreamSink := { callback := 0, activity := UInt64.ofNat n }
  let reads : ClientCalls := { s with reader := .reading }
  let d : Delivery := chunkDelivery sink chunk
  let took : ClientCalls := { (reads.feed chunk).putSink 1 (sinkFed sink chunk) with
    reader := .delivering d .copied [] }
  let runs : ClientCalls := { took with
    invoked := Function.update took.invoked 0 (took.invoked 0 ++ [([], false)])
    reader := .delivering d .running [] }
  let done : ClientCalls := { runs with
    finished := Function.update runs.finished 0 (runs.finished 0 ++ [([], false)])
    reader := .top }
  have htop : s.Step .readerTop reads := by
    change (if s.reader = .top then _ else none) = _
    rw [if_pos h.reader, if_pos h.alive]
  have htook : reads.Step (.readChunk chunk) took := by
    have hsink : reads.streamSinks chunk.requestId = some sink := h.sink
    change some (reads.readChunk chunk) = _
    rw [readChunk]
    simp only [hsink]
    rfl
  have hcall : (s.calls 0).under = some (.getStream, chunk.requestId) := by rw [h.call]; rfl
  have hfed : (s.feed chunk).fed 0 = s.fed 0 ++ [([], false)] := feed_fed_of_under hcall
  have hruns : took.Step .invoke runs := rfl
  have hdone : runs.Step .callbackReturns done := rfl
  refine ⟨done, (((Run.nil.snoc htop).snoc htook).snoc hruns).snoc hdone, h.alive, rfl, h.call,
    ?_, ?_, h.drawn⟩
  · change Function.update s.streamSinks 1 _ 1 = _
    rw [Function.update_self, UInt64.ofNat_add]
    rfl
  · change ((s.feed chunk).fed 0).length = n + 1
    rw [hfed, List.length_append, h.fed]
    rfl

theorem came_rounds (n : ℕ) :
    ∃ s, Run Step {} (waitBegun ++ .streamBegin 0 :: (List.replicate n round).flatten) s ∧
      Came n s := by
  induction n with
  | zero => exact ⟨_, run_of_exec rfl, rfl, rfl, rfl, rfl, rfl, rfl⟩
  | succ n ih =>
    obtain ⟨s, hrun, hcame⟩ := ih
    obtain ⟨s', hround, hcame'⟩ := came_round hcame
    refine ⟨s', ?_, hcame'⟩
    rw [List.replicate_succ', List.flatten_concat, ← List.cons_append, ← List.append_assoc]
    exact hrun.trans hround

/-- The wait of the call began when it entered its loop, and no chunk had come. -/
theorem fed_of_waits {n : ℕ} {s t : ClientCalls}
    (hwaits : Waits (waitBegun ++ .streamBegin 0 :: (List.replicate n round).flatten) 0 t s) :
    t.fed 0 = [] := by
  obtain ⟨first, a, mid, r, hacts, hfirst, hbegins, hstep, -⟩ := hwaits
  have hmem : a ∈ waitBegun ++ .streamBegin 0 :: (List.replicate n round).flatten := by
    rw [hacts]
    simp
  have hrounds : ∀ b ∈ (List.replicate n round).flatten, b ∈ round := by
    intro b hb
    obtain ⟨l, hl, hmem⟩ := List.mem_flatten.mp hb
    rwa [List.eq_of_mem_replicate hl] at hmem
  have hnone : ∀ b ∈ waitBegun ++ round, ¬ r.BeginsWait 0 b := by
    simp [waitBegun, round, BeginsWait]
  have ha : a = .streamBegin 0 := by
    rcases List.mem_append.mp hmem with hbefore | hafter
    · exact absurd hbegins (hnone a (List.mem_append_left _ hbefore))
    · rcases List.mem_cons.mp hafter with heq | hround
      · exact heq
      · exact absurd hbegins (hnone a (List.mem_append_right _ (hrounds a hround)))
  subst ha
  have hnot : Act.streamBegin 0 ∉ (List.replicate n round).flatten := fun hb =>
    absurd (hrounds _ hb) (by decide)
  have hbegun : Act.streamBegin 0 ∉ waitBegun := by decide
  obtain ⟨rfl, -, -⟩ := (List.append_cons_inj_of_notMem hbegun hnot).mp hacts
  have hr : Run Step {} waitBegun _ := run_of_exec rfl
  rw [fed_of_beginsWait hstep hbegins, hr.unique hfirst]
  rfl

/-- The endpoint of a `get_stream` answers it like a `get`, with status 0. -/
def answered : List Act :=
  [.lookup 0 .getStream, .draw 0, .register 0, .send 0 true, .streamBegin 0, .readerTop,
    .readResponse { requestId := 1, status := 0, data := [7] }]

end Wrapped

open Wrapped

/-- Without the bound on the ids a call returns normally whose stream has not ended; also within the
bound a call can time out after `2 ^ 64` chunks that came one after the other, and one whose only
RESPONSE has status 0 throws a Protocol error. -/
theorem get_stream_outcome_wraps :
    (¬ ∀ (acts : List Act) (s : ClientCalls), Run Step {} acts s → s.TrueOutcomes NoneNew acts) ∧
    (¬ ∀ (acts : List Act) (s : ClientCalls), Run Step {} acts s →
      s.TrueOutcomes NoneCounted acts) ∧
    (¬ ∀ (acts : List Act) (s : ClientCalls), Run Step {} acts s → s.drawn.length < 2 ^ 64 →
      s.TrueOutcomes NoneNew acts) ∧
    ∃ s s', exec step {} answered = some s ∧ s.Step (.streamWake 0 false) s' ∧
      s'.calls 0 = .over .getStream 1 (.protocol [7]) ∧
      s.answers 0 = [{ requestId := 1, status := 0, data := [7] }] := by
  have hids : ∀ Still, ¬ ∀ (acts : List Act) (s : ClientCalls), Run Step {} acts s →
      s.TrueOutcomes Still acts := by
    intro Still hclaim
    have hopened : Run Step {} opening (opened.get opened_isSome) :=
      run_of_exec (Option.some_get opened_isSome).symm
    obtain ⟨l, hdraws⟩ := run_drawOther (opened.get opened_isSome) (2 ^ 64 - 1)
    have hround : { opened.get opened_isSome with
        nextRequestId := (opened.get opened_isSome).nextRequestId + UInt64.ofNat (2 ^ 64 - 1)
        drawn := l } = drawnRound l := by
      have hone : (opened.get opened_isSome).nextRequestId + UInt64.ofNat (2 ^ 64 - 1) = 1 := by
        decide +kernel
      rw [hone]
      rfl
    rw [hround] at hdraws
    obtain ⟨s, s', hclosing, hwake, hwaits, hfed, hover⟩ := returns_without_chunk l
    have hrun := (hopened.trans hdraws).trans (run_of_exec hclosing)
    obtain ⟨⟨data, hlast⟩, -⟩ :=
      (hclaim _ s hrun).ends 0 1 _ _ s' hwake hover (by rw [hwaits]; simp)
    rw [hfed] at hlast
    exact absurd hlast List.not_mem_nil
  refine ⟨hids NoneNew, hids NoneCounted, fun hclaim => ?_, _, _, rfl, rfl, rfl, rfl⟩
  obtain ⟨s, hrun, hcame⟩ := came_rounds (2 ^ 64)
  have hleaves : s.streamLeaves 1 0 true = true := by
    simp only [streamLeaves, hcame.sink, hcame.alive, sinkDone, sinkStalled]
    decide +kernel
  have hout : s.streamOutcome 1 = .timeout := by
    simp only [streamOutcome, hcame.sink, hcame.alive, and_self, if_true]
  have hstep :
    s.Step (.streamWake 0 true) ((s.eraseSink 1).move 0 (.over .getStream 1 .timeout)) := by
    change s.step (.streamWake 0 true) = _
    simp only [step, hcame.call, streamWake, hleaves, if_true, hout]
  have hlt : s.drawn.length < 2 ^ 64 := by
    rw [hcame.drawn]
    decide
  obtain ⟨⟨t, hwaits, hsame⟩, -⟩ := (hclaim _ s hrun hlt).ends 0 1 _ _ _ hstep
    (move_calls_self _) (by rw [hcame.call]; simp)
  have hlength := congrArg List.length hsame
  rw [hcame.fed, fed_of_waits hwaits] at hlength
  exact absurd hlength (by decide)

end Epx
