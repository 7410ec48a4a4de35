import Epx.ClientCallbacks

/-!
# When `get_stream` returns

`get_stream` of `src/client.cpp` takes `on_chunk` by reference and its callers let it refer to their
own variables, so it is to return only when the reader is done with it. The reader marks the sink
done under `stream_mutex`, releases it, runs the callback, and notifies last. The waiting call
evaluates its condition whenever it wakes up, and it may wake up in between: because its time is
up, because another stream on the connection has ended, because the connection was closed, or for no
reason. It then finds the stream done and returns while the callback of the last chunk is running or
has not even begun.

## Main definitions

* `ClientCalls.settled` — a `get_stream` leaves only when the reader is done with its callback
* `ClientCalls.StreamOk` — what has been read for a stream has been or will be handed over
* `ClientCalls.CallbackDone` — the callback of a `get_stream` that is over is done with

## Main results

* `ClientCalls.StreamOk.step`
* `callback_done_on_return`
* `returns_before_last_callback` — a `get_stream` that returns before its last callback
-/

namespace Epx

open Codec Transition

namespace ClientCalls

/-- `get_stream` finds the stream at its end. -/
def sinkReturns : Option StreamSink → Bool
  | none => true
  | some sink => sink.done && !sink.failed

/-- A wake-up that leaves the loop finds no callback of the call copied out and not begun; one that
returns normally finds none running either. -/
def leaveSettled (s : ClientCalls) (i : ℕ) (id activityBefore : UInt64) (timedOut : Bool) : Bool :=
  !s.streamLeaves id activityBefore timedOut ||
    ((s.reader.unstarted i).isEmpty &&
      (!sinkReturns (s.streamSinks id) || (s.reader.running i).isEmpty))

/-- No `get_stream` leaves while the reader is about to run its callback, or returns while the
reader runs it. -/
def callbackSettled (s : ClientCalls) : Act → Bool
  | .giveUp i =>
    match s.calls i with
    | .unsent .getStream _ => (s.reader.unstarted i).isEmpty
    | _ => true
  | .streamBegin i =>
    match s.calls i with
    | .sent .getStream id => s.leaveSettled i id (sinkActivity (s.streamSinks id)) false
    | _ => true
  | .streamWake i timedOut =>
    match s.calls i with
    | .waiting id activityBefore => s.leaveSettled i id activityBefore timedOut
    | _ => true
  | _ => true

/-- In addition, fewer than `2 ^ 64` ids are drawn. -/
def settled (s : ClientCalls) (a : Act) : Bool :=
  decide (s.drawn.length + 1 < 2 ^ 64) && s.callbackSettled a

abbrev SettledStep : ClientCalls → Act → ClientCalls → Prop :=
  Guarded Step fun s a => settled s a = true

/-- In every run of `step` from here, the callbacks of a `get_stream` that is over are over: none
begins, and if it has returned normally, each chunk read for it was handed to a callback that has
returned, the last chunk among them. -/
def CallbackDone (step : ClientCalls → Act → ClientCalls → Prop) (s : ClientCalls) : Prop :=
  ∀ i id o, s.calls i = .over .getStream id o →
    (∀ data, o = .returned data → s.finished i = s.fed i ∧ ∃ last, (last, true) ∈ s.fed i) ∧
    ∀ more s', Run step s more s' → s'.invoked i = s.invoked i

/-! ### The invariant -/

/-- What has been read for a `get_stream` is what its callback was called with and what the reader
still owes it; nothing is owed when it is over. -/
structure StreamOk (s : ClientCalls) (i : ℕ) : Prop where
  waiting : ∀ id, (s.calls i).under = some (.getStream, id) →
    s.fed i = s.invoked i ++ s.reader.unstarted i ∧
    ∃ sink, s.streamSinks id = some sink ∧
      (sink.done = true → sink.failed = true ∨ ∃ last, (last, true) ∈ s.fed i)
  outcome : ∀ id o, s.calls i = .over .getStream id o →
    s.fed i = s.invoked i ∧ s.reader.unstarted i = [] ∧
    ∀ data, o = .returned data → s.reader.running i = [] ∧ ∃ last, (last, true) ∈ s.fed i
  early : (s.calls i).under = none → (∀ kind id o, s.calls i ≠ .over kind id o) →
    s.fed i = [] ∧ s.invoked i = [] ∧ s.reader.unstarted i = []

theorem streamOk_start (i : ℕ) : StreamOk {} i where
  waiting _ h := by cases h
  outcome _ _ h := by cases h
  early _ _ := ⟨rfl, rfl, rfl⟩

section

variable {s s' : ClientCalls} {a : Act} {i : ℕ} {id : UInt64} {kind : AskKind}

/-- Nothing that concerns the call changes. -/
theorem StreamOk.congr (h : s.StreamOk i) (hcall : s'.calls i = s.calls i)
    (hfed : s'.fed i = s.fed i) (hinvoked : s'.invoked i = s.invoked i)
    (hunstarted : s'.reader.unstarted i = s.reader.unstarted i)
    (hrunning : s.reader.running i = [] → s'.reader.running i = [])
    (hsink : ∀ id, (s.calls i).under = some (.getStream, id) →
      s'.streamSinks id = s.streamSinks id) : s'.StreamOk i where
  waiting := by
    intro id hunder
    rw [hcall] at hunder
    rw [hfed, hinvoked, hunstarted, hsink id hunder]
    exact h.waiting id hunder
  outcome := by
    intro id o hover
    rw [hcall] at hover
    obtain ⟨hfed', hnone, hreturned⟩ := h.outcome id o hover
    rw [hfed, hinvoked, hunstarted]
    refine ⟨hfed', hnone, fun data ho => ?_⟩
    exact ⟨hrunning (hreturned data ho).1, (hreturned data ho).2⟩
  early := by
    intro hunder hne
    rw [hcall] at hunder hne
    rw [hfed, hinvoked, hunstarted]
    exact h.early hunder hne

/-- A call goes on without leaving. -/
theorem StreamOk.moved (h : s.StreamOk i) {j : ℕ} {c : CallPlace}
    (hunder : c.under = (s.calls j).under) (hover : ∀ kind id o, c ≠ .over kind id o)
    (hold : ∀ kind id o, s.calls j ≠ .over kind id o) : (s.move j c).StreamOk i := by
  by_cases hij : i = j
  · subst hij
    have hsame := under_move (s := s) hunder i
    exact
      { waiting := fun id hi => h.waiting id (hsame ▸ hi)
        outcome := fun id o hi => absurd ((move_calls_self c).symm.trans hi) (hover _ _ _)
        early := fun hi _ => h.early (hsame ▸ hi) hold }
  · exact h.congr (move_calls_of_ne hij c) rfl rfl rfl (fun hr => hr) fun _ _ => rfl

/-- The sinks change under an id that is not that of the call. -/
theorem streamSinks_update_of_under (hids : s.Ids) {j : ℕ} {x : Option StreamSink}
    (hasks : (s.calls j).asks = some (kind, id)) (hne : j ≠ i ∨ kind ≠ .getStream) (id' : UInt64)
    (hunder : (s.calls i).under = some (.getStream, id')) :
    Function.update s.streamSinks id x id' = s.streamSinks id' := by
  refine Function.update_of_ne ?_ ..
  rintro rfl
  have hi := CallPlace.asks_of_under hunder
  have heq : j = i := hids.asks_inj j i _ _ _ hasks hi
  rcases hne with hne | hne
  · exact hne heq
  · rw [heq, hi] at hasks
    cases hasks
    exact hne rfl

theorem StreamOk.registered (h : s.StreamOk i) (hids : s.Ids) {j : ℕ}
    (hcall : s.calls j = .drawn kind id) :
    ((s.register j id kind).move j (.registered kind id)).StreamOk i := by
  have hcalls := s.register_calls j id kind
  by_cases hij : i = j
  · subst hij
    obtain ⟨hfed, hinvoked, hunstarted⟩ :=
      h.early (by rw [hcall]; rfl) (by simp [hcall])
    exact
      { waiting := by
          intro id' hunder
          rw [move_calls_self] at hunder
          cases hunder
          refine ⟨?_, { callback := i }, Function.update_self .., fun hdone => by cases hdone⟩
          change s.fed i = s.invoked i ++ s.reader.unstarted i
          rw [hfed, hinvoked, hunstarted]
          rfl
        outcome := by
          intro id' o hover
          rw [move_calls_self] at hover
          cases hover
        early := by
          intro hunder
          rw [move_calls_self] at hunder
          cases hunder }
  · have hasks : (s.calls j).asks = some (kind, id) := by rw [hcall]; rfl
    have hmove : ((s.register j id kind).move j (.registered kind id)).calls i = s.calls i := by
      rw [move_calls_of_ne hij, hcalls]
    cases kind with
    | get => exact h.congr hmove rfl rfl rfl (fun hr => hr) fun _ _ => rfl
    | getStream | subscribe =>
      refine h.congr hmove rfl rfl rfl (fun hr => hr) fun id' hi => ?_
      exact streamSinks_update_of_under hids hasks (Or.inl (Ne.symm hij)) id' hi

/-- A call ends. If it is a `get_stream`, the reader owes it nothing; if it returns normally, the
reader is not in its callback either, and the last chunk was read. -/
theorem StreamOk.ended (h : s.StreamOk i) (hids : s.Ids) {j : ℕ} (kind : AskKind) {o : CallOutcome}
    (hunder : (s.calls j).under = some (kind, id))
    (hsettled : kind = .getStream → j = i → s.reader.unstarted i = [] ∧
      ∀ data, o = .returned data → s.reader.running i = [] ∧ ∃ last, (last, true) ∈ s.fed i) :
    ((s.unregister id kind).move j (.over kind id o)).StreamOk i := by
  have hcalls := s.unregister_calls id kind
  by_cases hij : i = j
  · subst hij
    refine ⟨fun id' hi => ?_, fun id' o' hi => ?_, fun _ hne => ?_⟩
    · rw [move_calls_self] at hi
      cases hi
    · rw [move_calls_self] at hi
      cases hi
      obtain ⟨hunstarted, hreturned⟩ := hsettled rfl rfl
      obtain ⟨hfed, -⟩ := h.waiting id hunder
      refine ⟨?_, hunstarted, hreturned⟩
      change s.fed i = s.invoked i
      rw [hfed, hunstarted, List.append_nil]
    · exact absurd (move_calls_self _) (hne kind id o)
  · have hasks := CallPlace.asks_of_under hunder
    have hmove : ((s.unregister id kind).move j (.over kind id o)).calls i = s.calls i := by
      rw [move_calls_of_ne hij, hcalls]
    cases kind with
    | get => exact h.congr hmove rfl rfl rfl (fun hr => hr) fun _ _ => rfl
    | getStream | subscribe =>
      refine h.congr hmove rfl rfl rfl (fun hr => hr) fun id' hi => ?_
      exact streamSinks_update_of_under hids hasks (Or.inl (Ne.symm hij)) id' hi

/-! ### What the condition says of a step -/

theorem settled_giveUp (h : settled s (.giveUp i) = true)
    (hcall : s.calls i = .unsent .getStream id) :
    s.reader.unstarted i = [] := by
  simp only [settled, callbackSettled, hcall, Bool.and_eq_true, List.isEmpty_iff] at h
  exact h.2

theorem leaveSettled_iff {before : UInt64} {timedOut : Bool}
    (hleaves : s.streamLeaves id before timedOut = true)
    (h : s.leaveSettled i id before timedOut = true) :
    s.reader.unstarted i = [] ∧
      (sinkReturns (s.streamSinks id) = true → s.reader.running i = []) := by
  simp only [leaveSettled, hleaves, Bool.not_true, Bool.false_or, Bool.and_eq_true,
    List.isEmpty_iff, Bool.or_eq_true, Bool.not_eq_true'] at h
  refine ⟨h.1, fun hreturns => ?_⟩
  rcases h.2 with hno | hrunning
  · rw [hreturns] at hno
    cases hno
  · exact hrunning

theorem settled_leaves {before : UInt64} {timedOut : Bool} (h : settled s a = true)
    (hcall : (a = .streamBegin i ∧ s.calls i = .sent .getStream id ∧ timedOut = false ∧
        before = sinkActivity (s.streamSinks id)) ∨
      (a = .streamWake i timedOut ∧ s.calls i = .waiting id before))
    (hleaves : s.streamLeaves id before timedOut = true) :
    s.reader.unstarted i = [] ∧
      (sinkReturns (s.streamSinks id) = true → s.reader.running i = []) := by
  rcases hcall with ⟨rfl, hcall, rfl, rfl⟩ | ⟨rfl, hcall⟩
  · simp only [settled, callbackSettled, hcall, Bool.and_eq_true] at h
    exact leaveSettled_iff hleaves h.2
  · simp only [settled, callbackSettled, hcall, Bool.and_eq_true] at h
    exact leaveSettled_iff hleaves h.2

/-- `get_stream` returns normally only from a sink that is done and has not failed. -/
theorem streamOutcome_returned {data : Bytes} (h : s.streamOutcome id = .returned data)
    {sink : StreamSink} (hsink : s.streamSinks id = some sink) :
    sink.done = true ∧ sink.failed = false := by
  rw [streamOutcome, hsink] at h
  dsimp only at h
  split at h
  · cases h
  · split at h
    · rw [streamReport] at h
      split_ifs at h
    · next hfailed =>
      split at h
      · next hdone => exact ⟨hdone, Bool.not_eq_true _ ▸ hfailed⟩
      · rcases s.deathReport_cases with hd | ⟨message, hd⟩
        · rw [hd] at h
          cases h
        · rw [hd] at h
          cases h

/-! ### What the reader does -/

/-- The invariant asks nothing of a call of another kind that is under way. -/
theorem streamOk_of_other (kind : AskKind) (hunder : (s.calls i).under = some (kind, id))
    (hne : kind ≠ .getStream) : s.StreamOk i where
  waiting id' hi := by
    rw [hunder] at hi
    cases hi
    exact absurd rfl hne
  outcome id' o hi := by
    rw [hi] at hunder
    cases hunder
  early hi := by
    rw [hunder] at hi
    cases hi

theorem StreamOk.chunkDropped (h : s.StreamOk i) {chunk : StreamChunkPayload}
    (hreader : s.reader = .reading) (hsink : s.streamSinks chunk.requestId = none) :
    StreamOk { s.feed chunk with reader := .top } i := by
  have hunstarted : s.reader.unstarted i = [] := by rw [hreader]; rfl
  by_cases hid : ∃ kind, (s.calls i).under = some (kind, chunk.requestId)
  · obtain ⟨kind, hunder⟩ := hid
    refine streamOk_of_other (s := { s.feed chunk with reader := .top }) kind hunder ?_
    rintro rfl
    obtain ⟨-, sink, hsome, -⟩ := h.waiting _ hunder
    rw [hsink] at hsome
    cases hsome
  · have hfed : (s.feed chunk).fed i = s.fed i :=
      feed_fed_of_forall fun kind hunder => hid ⟨kind, hunder⟩
    exact h.congr rfl hfed rfl hunstarted.symm (fun _ => rfl) fun _ _ => rfl

theorem StreamOk.chunkTaken (h : s.StreamOk i) (hids : s.Ids) {chunk : StreamChunkPayload}
    {sink : StreamSink} (hreader : s.reader = .reading)
    (hsink : s.streamSinks chunk.requestId = some sink) :
    StreamOk { (s.feed chunk).putSink chunk.requestId (sinkFed sink chunk) with
      reader := .delivering (chunkDelivery sink chunk) .copied [] } i := by
  have hown := hids.sinks _ _ hsink
  have hunstarted : s.reader.unstarted i = [] := by rw [hreader]; rfl
  by_cases hi : sink.callback = i
  · rw [hi] at hown
    cases hsub : sink.subscription with
    | true =>
      rw [hsub] at hown
      exact streamOk_of_other .subscribe hown (by decide)
    | false =>
      rw [hsub] at hown
      refine ⟨fun id' hunder => ?_, fun id' o hover => ?_, fun hunder => ?_⟩
      · rw [show id' = chunk.requestId from
          (Prod.mk.inj (Option.some.inj (hunder.symm.trans hown))).2]
        obtain ⟨hfed, sink', hsink', hdone⟩ := h.waiting _ hown
        rw [hsink] at hsink'
        cases hsink'
        have hfed' : (s.feed chunk).fed i = s.fed i ++ [(chunk.data, chunk.isLast)] :=
          feed_fed_of_under hown
        refine ⟨?_, sinkFed sink chunk, Function.update_self .., fun hdone' => ?_⟩
        · change (s.feed chunk).fed i = s.invoked i ++ _
          rw [hfed', hfed, hunstarted, List.append_nil, Reader.unstarted_copied]
          exact congrArg _ (if_pos hi).symm
        · change sink.failed = true ∨ ∃ last, (last, true) ∈ (s.feed chunk).fed i
          rw [hfed']
          rcases Bool.or_eq_true _ _ |>.mp hdone' with hdone' | hlast
          · rcases hdone hdone' with hfailed | ⟨last, hmem⟩
            · exact Or.inl hfailed
            · exact Or.inr ⟨last, List.mem_append_left _ hmem⟩
          · exact Or.inr ⟨chunk.data, by simp [hlast]⟩
      · have hover' : s.calls i = .over .getStream id' o := hover
        rw [hover'] at hown
        cases hown
      · have hunder' : (s.calls i).under = none := hunder
        rw [hunder'] at hown
        cases hown
  · have hother : ∀ kind, (s.calls i).under ≠ some (kind, chunk.requestId) := fun kind hunder =>
      hi (hids.under_inj hown hunder)
    refine h.congr rfl (feed_fed_of_forall hother) rfl ?_ (fun _ => rfl) fun id' hunder => ?_
    · rw [hunstarted, Reader.unstarted_copied]
      exact if_neg hi
    · refine Function.update_of_ne ?_ ..
      rintro rfl
      exact hother _ hunder

theorem StreamOk.refused (h : s.StreamOk i) (hids : s.Ids) {resp : ResponsePayload}
    {sink : StreamSink} (hreader : s.reader = .reading)
    (hsink : s.streamSinks resp.requestId = some sink) (hsub : sink.subscription = true) :
    StreamOk { (s.answer resp).eraseSink resp.requestId with
      reader := .delivering (refusalDelivery sink resp) .copied [] } i := by
  have hown := hids.sinks _ _ hsink
  rw [hsub] at hown
  by_cases hi : sink.callback = i
  · rw [hi] at hown
    exact streamOk_of_other .subscribe hown (by decide)
  · refine h.congr rfl rfl rfl ?_ (fun _ => rfl) fun id' hunder => ?_
    · rw [hreader, Reader.unstarted_copied]
      exact if_neg hi
    · exact streamSinks_update_of_under hids (CallPlace.asks_of_under hown) (Or.inl hi) id' hunder

theorem StreamOk.streamFailed (h : s.StreamOk i) (resp : ResponsePayload) (sink : StreamSink)
    (hreader : s.reader = .reading) :
    StreamOk { (s.answer resp).putSink resp.requestId (sinkFailed sink resp) with
      reader := .top } i := by
  have hunstarted : s.reader.unstarted i = [] := by rw [hreader]; rfl
  refine ⟨fun id' hunder => ?_, fun id' o hover => ?_, fun hunder hne => ?_⟩
  · obtain ⟨hfed, sink', hsink', hdone⟩ := h.waiting id' hunder
    rw [hunstarted] at hfed
    refine ⟨hfed, ?_⟩
    by_cases hid : id' = resp.requestId
    · subst hid
      exact ⟨sinkFailed sink resp, Function.update_self .., fun _ => Or.inl rfl⟩
    · exact ⟨sink', (Function.update_of_ne hid ..).trans hsink', hdone⟩
  · obtain ⟨hfed, -, hreturned⟩ := h.outcome id' o hover
    exact ⟨hfed, rfl, fun data ho => ⟨rfl, (hreturned data ho).2⟩⟩
  · obtain ⟨hfed, hinvoked, -⟩ := h.early hunder hne
    exact ⟨hfed, hinvoked, rfl⟩

theorem StreamOk.invoked (h : s.StreamOk i) {d : Delivery} {stage : Stage} {rest : List Delivery}
    (hreader : s.reader = .delivering d stage rest)
    (hstage : stage = .marked ∨ (stage = .copied ∧ d.marks = false)) :
    StreamOk { s with
      invoked := Function.update s.invoked d.callback (s.invoked d.callback ++ [(d.data, d.closed)])
      reader := .delivering d .running rest } i := by
  have hstage' : stage ≠ .running := by
    rcases hstage with rfl | ⟨rfl, -⟩ <;> decide
  have hunstarted := @Reader.unstarted_cons d stage rest hstage' i
  rw [← hreader] at hunstarted
  by_cases hi : d.callback = i
  · subst hi
    rw [if_pos rfl] at hunstarted
    refine ⟨fun id' hunder => ?_, fun id' o hover => ?_, fun hunder hne => ?_⟩
    · obtain ⟨hfed, hsink⟩ := h.waiting id' hunder
      refine ⟨?_, hsink⟩
      change s.fed d.callback = Function.update s.invoked d.callback _ d.callback ++ _
      rw [Function.update_self, hfed, hunstarted, List.append_assoc]
    · obtain ⟨-, hnone, -⟩ := h.outcome id' o hover
      rw [hunstarted] at hnone
      cases hnone
    · obtain ⟨-, -, hnone⟩ := h.early hunder hne
      rw [hunstarted] at hnone
      cases hnone
  · rw [if_neg hi, List.nil_append] at hunstarted
    refine h.congr rfl rfl ?_ hunstarted.symm (fun _ => if_neg hi) fun _ _ => rfl
    exact Function.update_of_ne (fun heq => hi heq.symm) ..

theorem StreamOk.swept (h : s.StreamOk i) (hids : s.Ids) (hreader : s.reader = .dying) :
    s.sweep.StreamOk i := by
  by_cases howed : ∃ d ∈ s.closedCbs, d.callback = i
  · obtain ⟨d, hd, rfl⟩ := howed
    obtain ⟨sink, hsink, hsub, heq⟩ := mem_closedCbs hd
    have hown := hids.sinks _ _ hsink
    rw [hsub] at hown
    have hcallback : d.callback = sink.callback := by rw [heq]
    rw [← hcallback] at hown
    exact streamOk_of_other (s := s.sweep) .subscribe hown (by decide)
  · have hnone : s.sweep.reader.unstarted i = [] := Reader.unstarted_eq_nil fun d hd hcallback =>
      howed ⟨d, mem_deliveries_sweep hd, hcallback⟩
    refine h.congr rfl rfl rfl ?_ (fun _ => running_sweep i) fun id' hunder => ?_
    · rw [hnone, hreader]
      rfl
    · obtain ⟨-, sink, hsink, -⟩ := h.waiting id' hunder
      rw [hsink, sweep_streamSinks_eq_some]
      refine ⟨hsink, ?_⟩
      have hown := hids.sinks _ _ hsink
      have hcallback : sink.callback = i := hids.under_inj hown hunder
      rw [hcallback, hunder] at hown
      cases hsub : sink.subscription with
      | false => rfl
      | true =>
        rw [hsub] at hown
        cases hown

/-- **Every settled step keeps what is read for a stream and what is handed over together.** -/
theorem StreamOk.step (h : s.StreamOk i) (hids : s.Ids) (hdeliveries : s.Deliveries)
    (hstep : s.Step a s') (hsettled : settled s a = true) : s'.StreamOk i := by
  cases effect_of_step hstep with
  | moved hgoes => exact h.moved hgoes.under_eq hgoes.ne_over hgoes.old_ne_over
  | @drew j kind hcall =>
    have hdraw : s.draw.StreamOk i := h.congr rfl rfl rfl rfl (fun hr => hr) fun _ _ => rfl
    have hfound : s.draw.calls j = .found kind := hcall
    exact hdraw.moved (by rw [hfound]; rfl) (by simp) (by simp [hfound])
  | registered hcall => exact h.registered hids hcall
  | gaveUp hcall =>
    refine h.ended hids _ (by rw [hcall]; rfl) ?_
    rintro rfl rfl
    exact ⟨settled_giveUp hsettled hcall, fun data ho => by cases ho⟩
  | getSlept _ => exact h.congr rfl rfl rfl rfl (fun hr => hr) fun _ _ => rfl
  | getOver hcall _ _ => exact h.ended hids .get (by rw [hcall]; rfl) fun hget => by cases hget
  | @streamOver a j id before timedOut hcall hleaves =>
    have hunder : (s.calls j).under = some (.getStream, id) := by
      rcases hcall with ⟨-, hcall, -⟩ | ⟨-, hcall⟩
      · rw [hcall]
        rfl
      · rw [hcall]
        rfl
    refine h.ended hids .getStream hunder ?_
    rintro - rfl
    obtain ⟨hunstarted, hrunning⟩ := settled_leaves hsettled hcall hleaves
    refine ⟨hunstarted, fun data ho => ?_⟩
    obtain ⟨-, sink, hsink, hlast⟩ := h.waiting id hunder
    obtain ⟨hdone, hfailed⟩ := streamOutcome_returned ho hsink
    refine ⟨hrunning (by simp [sinkReturns, hsink, hdone, hfailed]), ?_⟩
    rcases hlast hdone with hf | hlast
    · rw [hfailed] at hf
      cases hf
    · exact hlast
  | @unsubscribing j j' _ hj _ _ =>
    have hmoved : (s.move j (.unsubscribing j')).StreamOk i :=
      h.moved (by rw [hj]; rfl) (by simp) (by simp [hj])
    exact hmoved.congr rfl rfl rfl rfl (fun hr => hr) fun _ _ => rfl
  | unsubscribedAgain hj _ _ => exact h.moved (by rw [hj]; rfl) (by simp) (by simp [hj])
  | @unsubscribeErased j j' id hj hj' =>
    have hasks : (s.calls j').asks = some (.subscribe, id) := by rw [hj']; rfl
    have herased : (s.eraseSink id).StreamOk i := by
      refine h.congr rfl rfl rfl rfl (fun hr => hr) fun id' hunder => ?_
      exact streamSinks_update_of_under hids hasks (Or.inr (by decide)) id' hunder
    have hcall : (s.eraseSink id).calls j = .unsubscribing j' := hj
    exact herased.moved (by rw [hcall]; rfl) (by simp) (by simp [hcall])
  | unsubscribeReturned hj _ => exact h.moved (by rw [hj]; rfl) (by simp) (by simp [hj])
  | @unsubscribeSent j j' hj _ =>
    have hdraw : s.draw.StreamOk i := h.congr rfl rfl rfl rfl (fun hr => hr) fun _ _ => rfl
    have hcall : s.draw.calls j = .unsubscribeErased j' := hj
    exact hdraw.moved (by rw [hcall]; rfl) (by simp) (by simp [hcall])
  | drewOther => exact h.congr rfl rfl rfl rfl (fun hr => hr) fun _ _ => rfl
  | quiet hr =>
    rcases hr with rfl | ⟨hold, hnew⟩
    · exact h.congr rfl rfl rfl rfl (fun hr => hr) fun _ _ => rfl
    · refine h.congr rfl rfl rfl ?_ (fun _ => Reader.running_of_quiet hnew i) fun _ _ => rfl
      rw [Reader.unstarted_of_quiet hold]
      exact Reader.unstarted_of_quiet hnew i
  | chunkDropped hreader hsink => exact h.chunkDropped hreader hsink
  | chunkTaken hreader hsink => exact h.chunkTaken hids hreader hsink
  | stored hreader _ | ignored hreader _ _ =>
    refine h.congr rfl rfl rfl ?_ (fun _ => rfl) fun _ _ => rfl
    rw [hreader]
    rfl
  | refused hreader _ hsink hsub => exact h.refused hids hreader hsink hsub
  | @streamFailed resp sink hreader _ _ _ => exact h.streamFailed resp sink hreader
  | marked hreader _ =>
    refine h.congr rfl rfl rfl ?_ (fun _ => rfl) fun _ _ => rfl
    rw [hreader]
    exact Reader.unstarted_marked i
  | invoked hreader hstage => exact h.invoked hreader hstage
  | @callbackReturned d rest hreader =>
    have hordered := hdeliveries.ordered
    rw [hreader] at hordered
    refine h.congr rfl rfl rfl ?_ (fun _ => Reader.running_afterCallback i) fun _ _ => rfl
    rw [hreader]
    exact Reader.unstarted_afterCallback hordered i
  | @ended d hreader =>
    by_cases hsub : d.subscription = true
    · rw [if_pos hsub]
      have hasks := hids.deliveries d (by rw [hreader]; exact List.mem_cons_self)
      rw [hsub] at hasks
      refine h.congr rfl rfl rfl (by rw [hreader]; rfl) (fun _ => rfl) fun id' hunder => ?_
      exact streamSinks_update_of_under hids hasks (Or.inr (by decide)) id' hunder
    · rw [if_neg hsub]
      exact h.congr rfl rfl rfl (by rw [hreader]; rfl) (fun _ => rfl) fun _ _ => rfl
  | swept hreader => exact h.swept hids hreader

/-! ### Runs -/

/-- The invariant of settled runs. -/
structure Settled (s : ClientCalls) : Prop where
  ids : s.Ids
  deliveries : s.Deliveries
  streams : ∀ i, s.StreamOk i

theorem settled_start : Settled {} := ⟨ids_start, deliveries_start, streamOk_start⟩

theorem Settled.step (h : s.Settled) (hstep : SettledStep s a s') : s'.Settled := by
  obtain ⟨hstep, hsettled⟩ := hstep
  have hlt : s.drawn.length + 1 < 2 ^ 64 := by
    rw [settled, Bool.and_eq_true] at hsettled
    exact of_decide_eq_true hsettled.1
  exact ⟨h.ids.step hstep (drawn_lt hstep hlt), h.deliveries.step hstep,
    fun i => (h.streams i).step h.ids h.deliveries hstep hsettled⟩

/-- After it is over, nothing is handed to the callback of a `get_stream`. -/
theorem Settled.invoked_of_over (h : s.Settled) {o : CallOutcome}
    (hcall : s.calls i = .over .getStream id o) {more : List Act}
    (hrun : Run SettledStep s more s') : s'.invoked i = s.invoked i := by
  have hlater : s'.Settled ∧ s'.calls i = .over .getStream id o ∧ s'.fed i = s.fed i := by
    refine hrun.preserves
      (I := fun t => t.Settled ∧ t.calls i = .over .getStream id o ∧ t.fed i = s.fed i)
      ⟨h, hcall, rfl⟩ ?_
    rintro t a t' ⟨ht, hover, hfed⟩ hstep
    obtain ⟨hover', hfed'⟩ := over_step hstep.1 hover
    exact ⟨ht.step hstep, hover', hfed'.trans hfed⟩
  obtain ⟨hsettled, hover, hfed⟩ := hlater
  rw [← ((hsettled.streams i).outcome id o hover).1, hfed, ((h.streams i).outcome id o hcall).1]

end

end ClientCalls

open ClientCalls

/-- **`get_stream` is done with its callback when it is over**, in every run in which no
`get_stream` leaves its wait while the reader has its callback copied out and not begun, or returns
normally while the reader runs it, and fewer than `2 ^ 64` ids are drawn. -/
theorem callback_done_on_return (acts : List Act) (s : ClientCalls)
    (hrun : Run SettledStep {} acts s) : s.CallbackDone SettledStep := by
  have hsettled : s.Settled := hrun.preserves settled_start fun _ _ _ h hstep => h.step hstep
  intro i id o hcall
  obtain ⟨hfed, -, hreturned⟩ := (hsettled.streams i).outcome id o hcall
  refine ⟨fun data ho => ?_, fun more s' hmore => hsettled.invoked_of_over hcall hmore⟩
  obtain ⟨hrunning, hlast⟩ := hreturned data ho
  have hdone := hsettled.deliveries.invoked i
  rw [hrunning, List.append_nil] at hdone
  exact ⟨by rw [← hdone, hfed], hlast⟩

/-! ### A stream of one chunk -/

namespace ShortStream

def chunk : StreamChunkPayload := { requestId := 1, isLast := true }

/-- A `get_stream` waits, and the reader has copied out the callback of the last chunk. -/
def opening : List Act :=
  [.lookup 0 .getStream, .draw 0, .register 0, .send 0 true, .streamBegin 0, .readerTop,
    .readChunk chunk]

/-- The callback runs, and then the call wakes up. -/
def settledEnd : Option ClientCalls :=
  exec (guardFun step settled) {}
    (opening ++ [.invoke, .callbackReturns, .endLast, .streamWake 0 false])

theorem settledEnd_isSome : settledEnd.isSome = true := by decide +kernel

/-- The call wakes up first. -/
def returned : Option ClientCalls := exec step {} (opening ++ [.streamWake 0 false])

theorem returned_isSome : returned.isSome = true := by decide +kernel

end ShortStream

open ShortStream

theorem callback_done_on_return_short :
    (settledEnd.get settledEnd_isSome).calls 0 = .over .getStream 1 (.returned []) ∧
      (settledEnd.get settledEnd_isSome).finished 0 = [([], true)] ∧
      (settledEnd.get settledEnd_isSome).CallbackDone SettledStep :=
  ⟨by decide +kernel, by decide +kernel,
    callback_done_on_return _ _ (run_of_exec_guardFun (Option.some_get settledEnd_isSome).symm)⟩

/-- `get_stream` has returned, its callback has not been called, and the reader will call it. -/
theorem returns_before_last_callback :
    ¬ ∀ (acts : List Act) (s : ClientCalls), Run Step {} acts s → s.CallbackDone Step := by
  intro hclaim
  have hover : (returned.get returned_isSome).calls 0 = .over .getStream 1 (.returned []) := by
    decide +kernel
  have hfinished : (returned.get returned_isSome).finished 0 = [] := by decide +kernel
  obtain ⟨hreturned, -⟩ := hclaim _ _ (run_of_exec (Option.some_get returned_isSome).symm)
    0 1 _ hover
  obtain ⟨hfed, last, hlast⟩ := hreturned [] rfl
  rw [← hfed, hfinished] at hlast
  exact absurd hlast List.not_mem_nil

end Epx
