import Epx.StreamOutcome

/-!
# What was read for a call and its callback

The chunks that are read under the id of a `get_stream` go to its callback, each as soon as the
reader gets to it, also when the call has given up in between; nothing else does. The callback of a
subscription is in addition told that the feed is closed.

## Main definitions

* `ClientCalls.handed` — what a callback was called with, and what the reader still owes it
* `ClientCalls.Handed` — that this is what was read for its call
* `ClientCalls.LastRead` — a `get_stream` that has returned normally has its last chunk

## Main results

* `ClientCalls.Handed.step`
* `ClientCalls.LastRead.step`
-/

namespace Epx

open Codec Transition

namespace ClientCalls

/-- What the callback of a call was called with, and what the reader has copied out for it. -/
def handed (s : ClientCalls) (i : ℕ) : List (Bytes × Bool) := s.invoked i ++ s.reader.unstarted i

/-- The callback of a `get_stream` is handed what was read for it, and every other callback nothing
that was not, except that the feed of a subscription is closed. -/
structure Handed (s : ClientCalls) (i : ℕ) : Prop where
  streams : ∀ id, (s.calls i).asks = some (.getStream, id) → s.handed i = s.fed i
  own : ∀ p ∈ s.handed i,
    p ∈ s.fed i ∨ p = ([], true) ∧ ∃ id, (s.calls i).asks = some (.subscribe, id)
  early : (s.calls i).under = none → (∀ kind id o, s.calls i ≠ .over kind id o) →
    s.fed i = [] ∧ s.handed i = []

theorem handed_start (i : ℕ) : Handed {} i where
  streams _ h := by cases h
  own _ h := absurd h List.not_mem_nil
  early _ _ := ⟨rfl, rfl⟩

section

variable {s s' : ClientCalls} {a : Act} {i : ℕ} {id : UInt64} {kind : AskKind} {sink : StreamSink}

/-- Nothing that concerns the call changes. -/
theorem Handed.congr (h : s.Handed i) (hcall : s'.calls i = s.calls i) (hfed : s'.fed i = s.fed i)
    (hhanded : s'.handed i = s.handed i) : s'.Handed i where
  streams := by rw [hcall, hfed, hhanded]; exact h.streams
  own := by rw [hcall, hfed, hhanded]; exact h.own
  early := by rw [hcall, hfed, hhanded]; exact h.early

/-- A call goes on under the id it has. -/
theorem Handed.moved (h : s.Handed i) {j : ℕ} {c : CallPlace} (hasks : c.asks = (s.calls j).asks)
    (hearly : c.under = none → (∀ kind id o, c ≠ .over kind id o) →
      (s.calls j).under = none ∧ ∀ kind id o, s.calls j ≠ .over kind id o) :
    (s.move j c).Handed i := by
  by_cases hij : i = j
  · subst hij
    refine ⟨fun id hi => h.streams id ?_, fun p hp => ?_, fun hunder hover => ?_⟩
    · rwa [asks_move hasks] at hi
    · rw [asks_move hasks]
      exact h.own p hp
    · rw [move_calls_self] at hunder hover
      obtain ⟨hold, hne⟩ := hearly hunder hover
      exact h.early hold hne
  · exact h.congr (move_calls_of_ne hij c) rfl rfl

/-- A call draws its id: nothing has been read for it. -/
theorem Handed.drew (h : s.Handed i) {j : ℕ} (hcall : s.calls j = .found kind) :
    (s.move j (.drawn kind id)).Handed i := by
  by_cases hij : i = j
  · subst hij
    obtain ⟨hfed, hhanded⟩ := h.early (by rw [hcall]; rfl) (by simp [hcall])
    refine ⟨fun _ _ => hhanded.trans hfed.symm, fun p hp => ?_, fun _ _ => ⟨hfed, hhanded⟩⟩
    have hnone : p ∈ s.handed i := hp
    rw [hhanded] at hnone
    cases hnone
  · exact h.congr (move_calls_of_ne hij _) rfl rfl

/-- The reader goes from one place where it owes nothing to another. -/
theorem handed_quiet (hinvoked : s'.invoked = s.invoked) (hold : s.reader.unstarted i = [])
    (hnew : s'.reader.unstarted i = []) : s'.handed i = s.handed i := by
  rw [handed, handed, hinvoked, hold, hnew]

/-- The reader is about to call a callback. -/
theorem handed_copied (d : Delivery) (hinvoked : s'.invoked = s.invoked)
    (hold : s.reader.unstarted i = []) (hnew : s'.reader = .delivering d .copied []) :
    s'.handed i = s.handed i ++ if d.callback = i then [(d.data, d.closed)] else [] := by
  rw [handed, handed, hinvoked, hold, hnew, Reader.unstarted_copied, List.append_nil]

/-- A chunk that has no sink was not read for a `get_stream` that is under way. -/
theorem Handed.chunkDropped (h : s.Handed i) (htold : s.StreamTold i) {chunk : StreamChunkPayload}
    (hreader : s.reader = .reading) (hsink : s.streamSinks chunk.requestId = none) :
    Handed { s.feed chunk with reader := .top } i := by
  have hsame : ClientCalls.handed { s.feed chunk with reader := .top } i = s.handed i :=
    handed_quiet rfl (by rw [hreader]; rfl) rfl
  by_cases hid : ∃ kind, (s.calls i).under = some (kind, chunk.requestId)
  · obtain ⟨kind, hunder⟩ := hid
    have hasks := CallPlace.asks_of_under hunder
    refine ⟨fun id hi => ?_, fun p hp => ?_, fun hnone => ?_⟩
    · have hkind : kind = .getStream := by
        change (s.calls i).asks = _ at hi
        rw [hasks] at hi
        exact (Prod.mk.inj (Option.some.inj hi)).1
      subst hkind
      obtain ⟨sink, hsome, -⟩ := htold.sink _ hunder
      rw [hsink] at hsome
      cases hsome
    · rw [hsame] at hp
      refine (h.own p hp).imp_left fun hmem => ?_
      change p ∈ (s.feed chunk).fed i
      rw [feed_fed_of_under hunder]
      exact List.mem_append_left _ hmem
    · have hnone' : (s.calls i).under = none := hnone
      rw [hunder] at hnone'
      cases hnone'
  · exact h.congr rfl (feed_fed_of_forall fun kind hunder => hid ⟨kind, hunder⟩) hsame

theorem Handed.chunkTaken (h : s.Handed i) (hids : s.Ids) {chunk : StreamChunkPayload}
    (hreader : s.reader = .reading) (hsink : s.streamSinks chunk.requestId = some sink) :
    Handed { (s.feed chunk).putSink chunk.requestId (sinkFed sink chunk) with
      reader := .delivering (chunkDelivery sink chunk) .copied [] } i := by
  have hown := hids.sinks _ _ hsink
  have hhanded : ClientCalls.handed { (s.feed chunk).putSink chunk.requestId (sinkFed sink chunk)
      with reader := .delivering (chunkDelivery sink chunk) .copied [] } i
      = s.handed i ++ if sink.callback = i then [(chunk.data, chunk.isLast)] else [] :=
    handed_copied (chunkDelivery sink chunk) rfl (by rw [hreader]; rfl) rfl
  by_cases hi : sink.callback = i
  · rw [hi] at hown
    rw [if_pos hi] at hhanded
    have hfed : (s.feed chunk).fed i = s.fed i ++ [(chunk.data, chunk.isLast)] :=
      feed_fed_of_under hown
    refine ⟨fun id hid => ?_, fun p hp => ?_, fun hnone => ?_⟩
    · rw [hhanded, h.streams id hid]
      exact hfed.symm
    · rw [hhanded] at hp
      rcases List.mem_append.mp hp with hold | hnew
      · refine (h.own p hold).imp_left fun hmem => ?_
        change p ∈ (s.feed chunk).fed i
        rw [hfed]
        exact List.mem_append_left _ hmem
      · refine Or.inl ?_
        change p ∈ (s.feed chunk).fed i
        rw [hfed]
        exact List.mem_append_right _ hnew
    · have hnone' : (s.calls i).under = none := hnone
      rw [hown] at hnone'
      cases hnone'
  · rw [if_neg hi, List.append_nil] at hhanded
    exact h.congr rfl (feed_fed_of_forall fun kind hunder => hi (hids.under_inj hown hunder))
      hhanded

/-- A subscription is told that its feed is closed. -/
theorem Handed.closed (h : s.Handed i) {d : Delivery} (hcall : s'.calls i = s.calls i)
    (hfed : s'.fed i = s.fed i) (hasks : (s.calls d.callback).asks = some (.subscribe, d.id))
    (hunder : (s.calls d.callback).under ≠ none)
    (hhanded : s'.handed i = s.handed i ++ if d.callback = i then [([], true)] else []) :
    s'.Handed i := by
  by_cases hi : d.callback = i
  · subst hi
    rw [if_pos rfl] at hhanded
    refine ⟨fun id hid => ?_, fun p hp => ?_, fun hnone => ?_⟩
    · rw [hcall, hasks] at hid
      cases hid
    · rw [hcall, hfed]
      rw [hhanded] at hp
      rcases List.mem_append.mp hp with hold | hnew
      · exact h.own p hold
      · exact Or.inr ⟨List.mem_singleton.mp hnew, _, hasks⟩
    · rw [hcall] at hnone
      exact absurd hnone hunder
  · rw [if_neg hi, List.append_nil] at hhanded
    exact h.congr hcall hfed hhanded

theorem Handed.refused (h : s.Handed i) (hids : s.Ids) {resp : ResponsePayload}
    (hreader : s.reader = .reading) (hsink : s.streamSinks resp.requestId = some sink)
    (hsub : sink.subscription = true) :
    Handed { (s.answer resp).eraseSink resp.requestId with
      reader := .delivering (refusalDelivery sink resp) .copied [] } i := by
  have hown := hids.sinks _ _ hsink
  rw [hsub] at hown
  refine h.closed (d := refusalDelivery sink resp) rfl rfl (CallPlace.asks_of_under hown) ?_
    (handed_copied (refusalDelivery sink resp) rfl (by rw [hreader]; rfl) rfl)
  change (s.calls sink.callback).under ≠ none
  rw [hown]
  simp

/-- The application's callback begins. -/
theorem handed_invoked {d : Delivery} {stage : Stage} {rest : List Delivery}
    (hreader : s.reader = .delivering d stage rest) (hstage : stage ≠ .running) :
    ClientCalls.handed { s with
      invoked := Function.update s.invoked d.callback (s.invoked d.callback ++ [(d.data, d.closed)])
      reader := .delivering d .running rest } i = s.handed i := by
  have hunstarted := @Reader.unstarted_cons d stage rest hstage i
  rw [← hreader] at hunstarted
  rw [handed, handed, hunstarted]
  dsimp only
  by_cases hi : d.callback = i
  · subst hi
    rw [Function.update_self, if_pos rfl, List.append_assoc]
  · rw [Function.update_of_ne (Ne.symm hi), if_neg hi, List.nil_append]

/-- On its way out the reader owes the subscriptions a last call. -/
theorem Handed.swept (h : s.Handed i) (hids : s.Ids) (hreader : s.reader = .dying) :
    s.sweep.Handed i := by
  have hold : s.handed i = s.invoked i := by
    rw [handed, hreader]
    exact List.append_nil _
  have hclosed : ∀ d ∈ s.sweep.reader.deliveries, (d.data, d.closed) = ([], true) ∧
      (s.calls d.callback).under = some (.subscribe, d.id) := by
    intro d hd
    obtain ⟨sink, hsink, hsub, heq⟩ := mem_closedCbs (mem_deliveries_sweep hd)
    have hown := hids.sinks _ _ hsink
    rw [hsub] at hown
    rw [heq]
    exact ⟨rfl, hown⟩
  by_cases howed : ∃ d ∈ s.sweep.reader.deliveries, d.callback = i
  · obtain ⟨d, hd, rfl⟩ := howed
    have hunder := (hclosed d hd).2
    refine ⟨fun id hid => ?_, fun p hp => ?_, fun hnone => ?_⟩
    · have hasks : (s.calls d.callback).asks = some (.getStream, id) := hid
      rw [CallPlace.asks_of_under hunder] at hasks
      cases hasks
    · rcases List.mem_append.mp hp with hp | hp
      · exact h.own p (by rw [hold]; exact hp)
      · obtain ⟨d', hd', -, rfl⟩ := Reader.exists_of_mem_unstarted hp
        exact Or.inr ⟨(hclosed d' hd').1, _, CallPlace.asks_of_under hunder⟩
    · have hnone' : (s.calls d.callback).under = none := hnone
      rw [hunder] at hnone'
      cases hnone'
  · refine h.congr rfl rfl ?_
    rw [hold, handed, Reader.unstarted_eq_nil fun d hd hcallback => howed ⟨d, hd, hcallback⟩]
    exact List.append_nil _

/-- **Every step keeps what was read for a call and what its callback is handed together.** -/
theorem Handed.step (h : s.Handed i) (hids : s.Ids) (htold : s.StreamTold i)
    (hdeliveries : s.Deliveries) (hstep : s.Step a s') : s'.Handed i := by
  cases effect_of_step hstep with
  | moved hgoes =>
    refine h.moved hgoes.asks_eq fun hunder _ => ⟨?_, hgoes.old_ne_over⟩
    rw [← hgoes.under_eq]
    exact hunder
  | @drew j _ hcall =>
    have hdraw : s.draw.Handed i := h.congr rfl rfl rfl
    exact hdraw.drew hcall
  | @registered j kind id hcall =>
    have hregister : (s.register j id kind).Handed i := by
      cases kind <;> exact h.congr rfl rfl rfl
    have hcalls := s.register_calls j id kind
    exact hregister.moved (by rw [hcalls, hcall]; rfl) fun hunder => by cases hunder
  | @gaveUp j kind id hcall =>
    have hunregister : (s.unregister id kind).Handed i := by
      cases kind <;> exact h.congr rfl rfl rfl
    have hcalls := s.unregister_calls id kind
    exact hunregister.moved (by rw [hcalls, hcall]; rfl) fun _ hover => absurd rfl (hover _ _ _)
  | @getOver j id _ _ hcall _ _ =>
    have herased : (s.erasePending id).Handed i := h.congr rfl rfl rfl
    have hcall' : (s.erasePending id).calls j = .sent .get id := hcall
    exact herased.moved (by rw [hcall']; rfl) fun _ hover => absurd rfl (hover _ _ _)
  | @streamOver _ j id _ _ hcall _ =>
    have herased : (s.eraseSink id).Handed i := h.congr rfl rfl rfl
    have hasks : ((s.eraseSink id).calls j).asks = some (.getStream, id) := by
      change (s.calls j).asks = _
      rcases hcall with ⟨-, hcall, -⟩ | ⟨-, hcall⟩
      · rw [hcall]
        rfl
      · rw [hcall]
        rfl
    exact herased.moved (by rw [hasks]; rfl) fun _ hover => absurd rfl (hover _ _ _)
  | @unsubscribing j j' _ hj _ _ =>
    have hmoved : (s.move j (.unsubscribing j')).Handed i :=
      h.moved (by rw [hj]; rfl) fun _ _ => by simp [hj, CallPlace.under]
    exact hmoved.congr rfl rfl rfl
  | unsubscribedAgain hj _ _ =>
    exact h.moved (by rw [hj]; rfl) fun _ _ => by simp [hj, CallPlace.under]
  | @unsubscribeErased j _ id hj _ =>
    have herased : (s.eraseSink id).Handed i := h.congr rfl rfl rfl
    have hcall : (s.eraseSink id).calls j = _ := hj
    exact herased.moved (by rw [hcall]; rfl) fun _ _ => by simp [hcall, CallPlace.under]
  | unsubscribeReturned hj _ =>
    exact h.moved (by rw [hj]; rfl) fun _ _ => by simp [hj, CallPlace.under]
  | @unsubscribeSent j _ hj _ =>
    have hdraw : s.draw.Handed i := h.congr rfl rfl rfl
    have hcall : s.draw.calls j = _ := hj
    exact hdraw.moved (by rw [hcall]; rfl) fun _ _ => by simp [hcall, CallPlace.under]
  | quiet hr =>
    rcases hr with rfl | ⟨hold, hnew⟩
    · exact h.congr rfl rfl rfl
    · exact h.congr rfl rfl
        (handed_quiet rfl (Reader.unstarted_of_quiet hold i) (Reader.unstarted_of_quiet hnew i))
  | chunkDropped hreader hsink => exact h.chunkDropped htold hreader hsink
  | chunkTaken hreader hsink => exact h.chunkTaken hids hreader hsink
  | stored hreader _ | ignored hreader _ _ | streamFailed hreader _ _ _ =>
    exact h.congr rfl rfl (handed_quiet rfl (by rw [hreader]; rfl) rfl)
  | refused hreader _ hsink hsub => exact h.refused hids hreader hsink hsub
  | marked hreader _ =>
    refine h.congr rfl rfl ?_
    rw [handed, handed, hreader]
    rfl
  | @invoked d stage rest hreader hstage =>
    refine h.congr rfl rfl (handed_invoked hreader ?_)
    rcases hstage with rfl | ⟨rfl, -⟩ <;> decide
  | @callbackReturned d rest hreader =>
    have hordered := hdeliveries.ordered
    rw [hreader] at hordered
    refine h.congr rfl rfl ?_
    rw [handed, handed, hreader]
    exact congrArg _ (Reader.unstarted_afterCallback hordered i)
  | @ended d hreader =>
    obtain ⟨sinks, heq⟩ := s.eraseLast_eq d
    rw [heq]
    exact h.congr rfl rfl (handed_quiet rfl (by rw [hreader]; rfl) rfl)
  | swept hreader => exact h.swept hids hreader
  | getSlept _ | drewOther => exact h.congr rfl rfl rfl

/-! ### The last chunk -/

/-- A `get_stream` that has returned normally has its last chunk. -/
def LastRead (s : ClientCalls) : Prop :=
  ∀ i id data, s.calls i = .over .getStream id (.returned data) → ∃ last, (last, true) ∈ s.fed i

theorem lastRead_start : LastRead {} := fun _ _ _ h => by cases h

/-- A call that returns normally finds its sink done, and not because of a refusal. -/
theorem Streams.last_of_returned (h : s.Streams) {data : Bytes}
    (hunder : (s.calls i).under = some (.getStream, id))
    (hreturned : s.streamOutcome id = .returned data) : ∃ last, (last, true) ∈ s.fed i := by
  obtain ⟨sink, hsink, htells⟩ := (h.told i).sink id hunder
  obtain ⟨hdone, hfailed⟩ := streamOutcome_returned hreturned hsink
  refine (htells.done hdone).resolve_left fun hrefused => ?_
  rw [hfailed] at hrefused
  cases hrefused

theorem LastRead.step (h : s.LastRead) (hstreams : s.Streams) (hstep : s.Step a s') :
    s'.LastRead := by
  intro i id data hover
  have hbefore : ∃ last, (last, true) ∈ s.fed i := by
    by_cases hold : s.calls i = .over .getStream id (.returned data)
    · exact h i id data hold
    generalize ho : CallOutcome.returned data = o at hover hold
    cases streamEnds_of_step hstep hover hold with
    | unsent _ => cases ho
    | began hcall _ => exact hstreams.last_of_returned (by rw [hcall]; rfl) ho.symm
    | woke hcall _ => exact hstreams.last_of_returned (by rw [hcall]; rfl) ho.symm
  obtain ⟨last, hlast⟩ := hbefore
  exact ⟨last, (fed_step hstep i).subset hlast⟩

end

end ClientCalls

end Epx
