import Epx.Handed
import Epx.SubscriptionEnd

/-!
# In which order a callback is handed what was read

As long as a call has its sink, its callback is handed everything that is read for it, at once and
in order. When the sink is gone nothing more is handed to it, except for the call that says that the
feed of a subscription is closed; that comes last, and only if no chunk has said so before.

## Main definitions

* `ClientCalls.FeedOrder` — what a callback is handed is a beginning of what was read

## Main results

* `ClientCalls.FeedOrder.step`
-/

namespace Epx

open Codec Transition

namespace ClientCalls

/-- What a callback is handed is the beginning of what was read for its call, all of it as long as
there is a sink. -/
structure FeedOrder (s : ClientCalls) (i : ℕ) : Prop where
  whole : ∀ id sink, s.streamSinks id = some sink → sink.callback = i → s.handed i = s.fed i
  fresh : ∀ id sink, s.streamSinks id = some sink → sink.callback = i →
    sink.subscription = true → Untold (s.fed i) ∨ s.reader.AtLast i
  order : ∃ done, done <+: s.fed i ∧
    (s.handed i = done ∨ Untold done ∧ s.handed i = done ++ [([], true)])

theorem feedOrder_start (i : ℕ) : FeedOrder {} i where
  whole _ _ h := by cases h
  fresh _ _ h := by cases h
  order := ⟨[], List.nil_prefix, Or.inl rfl⟩

section

variable {s s' : ClientCalls} {a : Act} {i : ℕ} {id : UInt64} {kind : AskKind} {sink : StreamSink}

/-- Nothing is read for the call and its callback is handed nothing, and it gets no new sink. -/
theorem FeedOrder.congr (h : s.FeedOrder i) (hfed : s'.fed i = s.fed i)
    (hhanded : s'.handed i = s.handed i)
    (hsinks : ∀ id sink, s'.streamSinks id = some sink → sink.callback = i →
      ∃ old, s.streamSinks id = some old ∧ old.callback = i ∧
        old.subscription = sink.subscription)
    (hlast : s.reader.AtLast i → (∃ id sink, s'.streamSinks id = some sink ∧ sink.callback = i ∧
      sink.subscription = true) → s'.reader.AtLast i) : s'.FeedOrder i where
  whole id sink hsink hi := by
    obtain ⟨old, hold, hcallback, -⟩ := hsinks id sink hsink hi
    rw [hhanded, hfed]
    exact h.whole id old hold hcallback
  fresh id sink hsink hi hsub := by
    obtain ⟨old, hold, hcallback, hsame⟩ := hsinks id sink hsink hi
    rw [hfed]
    exact (h.fresh id old hold hcallback (hsame.trans hsub)).imp_right fun hat =>
      hlast hat ⟨id, sink, hsink, hi, hsub⟩
  order := by
    rw [hfed, hhanded]
    exact h.order

/-- A step outside of the reader. -/
theorem FeedOrder.aside (h : s.FeedOrder i) (hreader : s'.reader = s.reader)
    (hfed : s'.fed = s.fed) (hinvoked : s'.invoked = s.invoked)
    (hsinks : ∀ id sink, s'.streamSinks id = some sink → s.streamSinks id = some sink) :
    s'.FeedOrder i := by
  refine h.congr (by rw [hfed]) (by rw [handed, handed, hinvoked, hreader]) ?_ ?_
  · exact fun id sink hsink hi => ⟨sink, hsinks id sink hsink, hi, rfl⟩
  · exact fun hat _ => by rwa [hreader]

/-- A sink is erased. -/
theorem streamSinks_of_erase {id' : UInt64}
    (h : Function.update s.streamSinks id none id' = some sink) :
    s.streamSinks id' = some sink := by
  by_cases hid : id' = id
  · rw [hid, Function.update_self] at h
    cases h
  · rwa [Function.update_of_ne hid] at h

/-- A sink is put into the table. -/
theorem streamSinks_of_put {id' : UInt64} {new : StreamSink}
    (h : Function.update s.streamSinks id (some new) id' = some sink) :
    (id' = id ∧ sink = new) ∨ s.streamSinks id' = some sink := by
  by_cases hid : id' = id
  · rw [hid, Function.update_self] at h
    exact Or.inl ⟨hid, (Option.some.inj h).symm⟩
  · rw [Function.update_of_ne hid] at h
    exact Or.inr h

/-- A call puts its sink into the table: nothing has been read for it. -/
theorem FeedOrder.registered (h : s.FeedOrder i) (hhanded : s.Handed i) {j : ℕ}
    (hcall : s.calls j = .drawn kind id) :
    ((s.register j id kind).move j (.registered kind id)).FeedOrder i := by
  have hput : ∀ new : StreamSink, new.callback = j → ∀ t : ClientCalls,
      t.streamSinks = Function.update s.streamSinks id (some new) → t.fed = s.fed →
      t.invoked = s.invoked → t.reader = s.reader → t.FeedOrder i := by
    intro new hnew t hsinks hfed hinvoked hreader
    have hsame : t.handed i = s.handed i := by rw [handed, handed, hinvoked, hreader]
    by_cases hij : i = j
    · subst hij
      obtain ⟨hnothing, hnone⟩ := hhanded.early (by rw [hcall]; rfl) (by simp [hcall])
      refine ⟨fun _ _ _ _ => ?_, fun _ _ _ _ _ => Or.inl ?_, [], List.nil_prefix, Or.inl ?_⟩
      · rw [hsame, hfed, hnone, hnothing]
      · rw [hfed, hnothing]
        exact untold_nil
      · rw [hsame, hnone]
    · refine h.congr (by rw [hfed]) hsame (fun id' sink hsink hi => ⟨sink, ?_, hi, rfl⟩) ?_
      · rw [hsinks] at hsink
        rcases streamSinks_of_put hsink with ⟨-, rfl⟩ | hsink
        · exact absurd (hi.symm.trans hnew) hij
        · exact hsink
      · exact fun hat _ => by rwa [hreader]
  cases kind with
  | get => exact h.aside rfl rfl rfl fun _ _ hsink => hsink
  | getStream => exact hput { callback := j } rfl _ rfl rfl rfl rfl
  | subscribe => exact hput { callback := j, subscription := true } rfl _ rfl rfl rfl rfl

/-! ### The reader -/

theorem handed_of_reading (hreader : s.reader = .reading) (hinvoked : s'.invoked = s.invoked)
    (htop : s'.reader = .top) : s'.handed i = s.handed i :=
  handed_quiet hinvoked (by rw [hreader]; rfl) (by rw [htop]; rfl)

/-- A chunk without a sink is no chunk of a call that has one. -/
theorem FeedOrder.chunkDropped (h : s.FeedOrder i) (hids : s.Ids) {chunk : StreamChunkPayload}
    (hreader : s.reader = .reading) (hsink : s.streamSinks chunk.requestId = none) :
    FeedOrder { s.feed chunk with reader := .top } i := by
  have hhanded : ClientCalls.handed { s.feed chunk with reader := .top } i = s.handed i :=
    handed_of_reading hreader rfl rfl
  have hfed : ∀ id sink, s.streamSinks id = some sink → sink.callback = i →
      (s.feed chunk).fed i = s.fed i := by
    intro id sink hsome hi
    have hown := hids.sinks _ _ hsome
    rw [hi] at hown
    refine feed_fed_of_ne hown fun hid => ?_
    rw [hid, hsink] at hsome
    cases hsome
  refine ⟨fun id sink hsome hi => ?_, fun id sink hsome hi hsub => ?_, ?_⟩
  · rw [hhanded, h.whole id sink hsome hi]
    exact (hfed id sink hsome hi).symm
  · refine Or.inl ?_
    change Untold ((s.feed chunk).fed i)
    rw [hfed id sink hsome hi]
    refine (h.fresh id sink hsome hi hsub).resolve_right (not_atLast_of_quiet ?_)
    rw [hreader]
    exact Or.inr (Or.inl rfl)
  · obtain ⟨done, hdone, horder⟩ := h.order
    rw [hhanded]
    refine ⟨done, hdone.trans ?_, horder⟩
    change s.fed i <+: (s.feed chunk).fed i
    rw [feed_fed]
    split
    · exact List.prefix_append _ _
    · exact List.prefix_refl _

theorem FeedOrder.chunkTaken (h : s.FeedOrder i) (hids : s.Ids) {chunk : StreamChunkPayload}
    (hreader : s.reader = .reading) (hsink : s.streamSinks chunk.requestId = some sink) :
    FeedOrder { (s.feed chunk).putSink chunk.requestId (sinkFed sink chunk) with
      reader := .delivering (chunkDelivery sink chunk) .copied [] } i := by
  have hown := hids.sinks _ _ hsink
  have hquiet : Quiet s.reader := by
    rw [hreader]
    exact Or.inr (Or.inl rfl)
  have hhanded : ClientCalls.handed { (s.feed chunk).putSink chunk.requestId (sinkFed sink chunk)
      with reader := .delivering (chunkDelivery sink chunk) .copied [] } i
      = s.handed i ++ if sink.callback = i then [(chunk.data, chunk.isLast)] else [] :=
    handed_copied (chunkDelivery sink chunk) rfl (by rw [hreader]; rfl) rfl
  by_cases hi : sink.callback = i
  · subst hi
    rw [if_pos rfl, h.whole _ _ hsink rfl] at hhanded
    have hfed : (s.feed chunk).fed sink.callback
        = s.fed sink.callback ++ [(chunk.data, chunk.isLast)] := feed_fed_of_under hown
    have hall := hhanded.trans hfed.symm
    refine ⟨fun _ _ _ _ => hall, fun id sink' hsome hi hsub => ?_,
      _, List.prefix_refl _, Or.inl hall⟩
    cases hlast : chunk.isLast with
    | true => exact Or.inr (Or.inl ⟨chunkDelivery sink chunk, .copied, rfl, rfl, rfl, hlast⟩)
    | false =>
      refine Or.inl ?_
      change Untold ((s.feed chunk).fed sink.callback)
      rw [hfed, hlast]
      refine Untold.append ?_ untold_singleton
      -- the sink is the one that there was
      have hold : ∃ old, s.streamSinks id = some old ∧ old.callback = sink.callback ∧
          old.subscription = true := by
        rcases streamSinks_of_put hsome with ⟨rfl, rfl⟩ | hsome
        · exact ⟨sink, hsink, rfl, hsub⟩
        · exact ⟨sink', hsome, hi, hsub⟩
      obtain ⟨old, hold, hcallback, hsub'⟩ := hold
      exact (h.fresh id old hold hcallback hsub').resolve_right (not_atLast_of_quiet hquiet)
  · rw [if_neg hi, List.append_nil] at hhanded
    refine h.congr (feed_fed_of_forall fun kind hunder => hi (hids.under_inj hown hunder)) hhanded
      (fun id sink' hsome hi' => ⟨sink', ?_, hi', rfl⟩)
      fun hat => absurd hat (not_atLast_of_quiet hquiet)
    rcases streamSinks_of_put hsome with ⟨-, rfl⟩ | hsome
    · exact absurd hi' hi
    · exact hsome

/-- A subscription is told, by a delivery of its own, that its feed is closed. -/
theorem FeedOrder.closed (h : s.FeedOrder i) (hquiet : Quiet s.reader)
    {old : StreamSink} (hsink : s.streamSinks id = some old) (hi : old.callback = i)
    (hsub : old.subscription = true) (hfed : s'.fed i = s.fed i)
    (hhanded : s'.handed i = s.handed i ++ [([], true)])
    (hgone : ∀ id sink, s'.streamSinks id = some sink → sink.callback ≠ i) : s'.FeedOrder i where
  whole id sink hsome hcallback := absurd hcallback (hgone id sink hsome)
  fresh id sink hsome hcallback := absurd hcallback (hgone id sink hsome)
  order := by
    refine ⟨s.fed i, ⟨[], by rw [hfed, List.append_nil]⟩, Or.inr ⟨?_, ?_⟩⟩
    · exact (h.fresh id old hsink hi hsub).resolve_right (not_atLast_of_quiet hquiet)
    · rw [hhanded, h.whole id old hsink hi]

theorem FeedOrder.refused (h : s.FeedOrder i) (hids : s.Ids) {resp : ResponsePayload}
    (hreader : s.reader = .reading) (hsink : s.streamSinks resp.requestId = some sink)
    (hsub : sink.subscription = true) :
    FeedOrder { (s.answer resp).eraseSink resp.requestId with
      reader := .delivering (refusalDelivery sink resp) .copied [] } i := by
  have hown := hids.sinks _ _ hsink
  have hquiet : Quiet s.reader := by
    rw [hreader]
    exact Or.inr (Or.inl rfl)
  have hhanded : ClientCalls.handed { (s.answer resp).eraseSink resp.requestId with
      reader := .delivering (refusalDelivery sink resp) .copied [] } i
      = s.handed i ++ if sink.callback = i then [([], true)] else [] :=
    handed_copied (refusalDelivery sink resp) rfl (by rw [hreader]; rfl) rfl
  by_cases hi : sink.callback = i
  · rw [if_pos hi] at hhanded
    refine h.closed hquiet hsink hi hsub rfl hhanded fun id other hsome hother => ?_
    have hother' := hids.sinks _ _ (streamSinks_of_erase hsome)
    rw [hi] at hown
    rw [hother, hown] at hother'
    have hid : id = resp.requestId := (congrArg Prod.snd (Option.some.inj hother')).symm
    rw [hid] at hsome
    change Function.update s.streamSinks _ none _ = _ at hsome
    rw [Function.update_self] at hsome
    cases hsome
  · rw [if_neg hi, List.append_nil] at hhanded
    exact h.congr rfl hhanded (fun id other hsome hother =>
      ⟨other, streamSinks_of_erase hsome, hother, rfl⟩)
      fun hat => absurd hat (not_atLast_of_quiet hquiet)

theorem FeedOrder.streamFailed (h : s.FeedOrder i) {resp : ResponsePayload}
    (hreader : s.reader = .reading) (hsink : s.streamSinks resp.requestId = some sink) :
    FeedOrder { (s.answer resp).putSink resp.requestId (sinkFailed sink resp) with
      reader := .top } i := by
  refine h.congr rfl (handed_of_reading hreader rfl rfl) (fun id sink' hsome hi => ?_) fun hat =>
    absurd hat (not_atLast_of_quiet (by rw [hreader]; exact Or.inr (Or.inl rfl)))
  rcases streamSinks_of_put hsome with ⟨rfl, rfl⟩ | hsome
  · exact ⟨sink, hsink, hi, rfl⟩
  · exact ⟨sink', hsome, hi, rfl⟩

/-- The sink of a subscription is erased after its last chunk. -/
theorem FeedOrder.afterLast (h : s.FeedOrder i) (hids : s.Ids) {d : Delivery}
    (hreader : s.reader = .ending d) :
    FeedOrder { (if d.subscription = true then s.eraseSink d.id else s) with
      reader := .top } i := by
  have hown := hids.deliveries d (by rw [hreader]; exact List.mem_cons_self)
  obtain ⟨sinks, heq⟩ := s.eraseLast_eq d
  have hsinks : ∀ {id sink}, sinks id = some sink → s.streamSinks id = some sink ∧
      (d.subscription = true → id ≠ d.id) := by
    intro id sink hsome
    have hif : (if d.subscription = true then s.eraseSink d.id else s).streamSinks id = some sink :=
      (congrFun (congrArg ClientCalls.streamSinks heq) id).trans hsome
    split at hif
    · refine ⟨streamSinks_of_erase hif, fun _ hid => ?_⟩
      change Function.update s.streamSinks d.id none id = _ at hif
      rw [hid, Function.update_self] at hif
      cases hif
    · next hsub => exact ⟨hif, fun hyes => absurd hyes hsub⟩
  rw [heq]
  refine h.congr rfl (handed_quiet rfl (by rw [hreader]; rfl) rfl)
    (fun id sink hsome hi => ⟨sink, (hsinks hsome).1, hi, rfl⟩) ?_
  rintro (⟨d', stage, hd', -⟩ | ⟨d', hd', hcallback⟩) ⟨id, sink, hsome, hi, hsub⟩
  · rw [hreader] at hd'
    cases hd'
  · -- the last chunk was one of this subscription
    rw [hreader] at hd'
    cases hd'
    have hasks := CallPlace.asks_of_under (hids.sinks _ _ (hsinks hsome).1)
    rw [hi, ← hcallback, hown, hsub] at hasks
    obtain ⟨hkind, hid⟩ := Prod.mk.inj (Option.some.inj hasks)
    cases hd : d.subscription with
    | true => exact absurd hid.symm ((hsinks hsome).2 hd)
    | false =>
      rw [hd] at hkind
      cases hkind

/-- On its way out the reader closes the feeds of the subscriptions that are left. -/
theorem FeedOrder.swept (h : s.FeedOrder i) (hids : s.Ids) (hlt : s.drawn.length < 2 ^ 64)
    (hreader : s.reader = .dying) : s.sweep.FeedOrder i := by
  have hquiet : Quiet s.reader := Or.inr (Or.inr (Or.inr hreader))
  have hold : s.sweep.handed i = s.handed i ++ s.sweep.reader.unstarted i := by
    rw [handed, handed, hreader]
    exact congrArg (· ++ _) (List.append_nil _).symm
  by_cases hsub : ∃ id sink, s.streamSinks id = some sink ∧ sink.callback = i ∧
      sink.subscription = true
  · obtain ⟨id, sink, hsink, hi, hsub⟩ := hsub
    have hunder := hids.sinks _ _ hsink
    rw [hi, hsub] at hunder
    rw [unstarted_sweep_of_open hids hlt hunder (by rw [hsink]; simp)] at hold
    refine h.closed hquiet hsink hi hsub rfl hold fun id' sink' hsome hi' => ?_
    obtain ⟨hsome, hno⟩ := sweep_streamSinks_eq_some.mp hsome
    have hunder' := hids.sinks _ _ hsome
    rw [hi', hno, hunder] at hunder'
    cases hunder'
  · have hnone : s.sweep.reader.unstarted i = [] := by
      refine Reader.unstarted_eq_nil fun d hd hcallback => hsub ?_
      obtain ⟨sink, hsink, hyes, heq⟩ := mem_closedCbs (mem_deliveries_sweep hd)
      exact ⟨d.id, sink, hsink, by rw [← hcallback, heq], hyes⟩
    rw [hnone, List.append_nil] at hold
    exact h.congr rfl hold (fun id sink hsome hi =>
      ⟨sink, (sweep_streamSinks_eq_some.mp hsome).1, hi, rfl⟩)
      fun hat => absurd hat (not_atLast_of_quiet hquiet)

/-- **Every step keeps what a callback is handed in order.** -/
theorem FeedOrder.step (h : s.FeedOrder i) (hids : s.Ids) (hhanded : s.Handed i)
    (hdeliveries : s.Deliveries) (hlt : s.drawn.length < 2 ^ 64) (hstep : s.Step a s') :
    s'.FeedOrder i := by
  have hsame : ∀ id sink, s.streamSinks id = some sink → s.streamSinks id = some sink :=
    fun _ _ hsink => hsink
  cases effect_of_step hstep with
  | registered hcall => exact h.registered hhanded hcall
  | @gaveUp _ kind id _ =>
    cases kind with
    | get => exact h.aside rfl rfl rfl hsame
    | getStream | subscribe => exact h.aside rfl rfl rfl fun _ _ hsink => streamSinks_of_erase hsink
  | streamOver _ _ | unsubscribeErased _ _ =>
    exact h.aside rfl rfl rfl fun _ _ hsink => streamSinks_of_erase hsink
  | quiet hr =>
    rcases hr with rfl | ⟨hold, hnew⟩
    · exact h.aside rfl rfl rfl hsame
    · refine h.congr rfl
        (handed_quiet rfl (Reader.unstarted_of_quiet hold i) (Reader.unstarted_of_quiet hnew i))
        (fun id sink hsink hi => ⟨sink, hsink, hi, rfl⟩) fun hat => ?_
      exact absurd hat (not_atLast_of_quiet hold)
  | chunkDropped hreader hsink => exact h.chunkDropped hids hreader hsink
  | chunkTaken hreader hsink => exact h.chunkTaken hids hreader hsink
  | stored hreader _ | ignored hreader _ _ =>
    refine h.congr rfl (handed_of_reading hreader rfl rfl)
      (fun id sink hsink hi => ⟨sink, hsink, hi, rfl⟩) fun hat => ?_
    exact absurd hat (not_atLast_of_quiet (by rw [hreader]; exact Or.inr (Or.inl rfl)))
  | streamFailed hreader _ hsink _ => exact h.streamFailed hreader hsink
  | refused hreader _ hsink hsub => exact h.refused hids hreader hsink hsub
  | @marked d rest hreader _ =>
    refine h.congr rfl (by rw [handed, handed, hreader]; rfl)
      (fun id sink hsink hi => ⟨sink, hsink, hi, rfl⟩) ?_
    rintro (⟨d', stage, hd', hlast⟩ | ⟨d', hd', -⟩) -
    · rw [hreader] at hd'
      cases hd'
      exact Or.inl ⟨d, .marked, rfl, hlast⟩
    · rw [hreader] at hd'
      cases hd'
  | @invoked d stage rest hreader hstage =>
    refine h.congr rfl (handed_invoked hreader ?_)
      (fun id sink hsink hi => ⟨sink, hsink, hi, rfl⟩) ?_
    · rcases hstage with rfl | ⟨rfl, -⟩ <;> decide
    · rintro (⟨d', stage', hd', hlast⟩ | ⟨d', hd', -⟩) -
      · rw [hreader] at hd'
        cases hd'
        exact Or.inl ⟨d, .running, rfl, hlast⟩
      · rw [hreader] at hd'
        cases hd'
  | @callbackReturned d rest hreader =>
    have hordered := hdeliveries.ordered
    rw [hreader] at hordered
    refine h.congr rfl ?_ (fun id sink hsink hi => ⟨sink, hsink, hi, rfl⟩) ?_
    · rw [handed, handed, hreader]
      exact congrArg _ (Reader.unstarted_afterCallback hordered i)
    · rintro (⟨d', stage, hd', hcallback, horigin, hclosed⟩ | ⟨d', hd', -⟩) -
      · rw [hreader] at hd'
        cases hd'
        refine Or.inr ⟨d, ?_, hcallback⟩
        simp only [afterCallback, horigin]
        exact if_pos hclosed
      · rw [hreader] at hd'
        cases hd'
  | ended hreader => exact h.afterLast hids hreader
  | swept hreader => exact h.swept hids hlt hreader
  | moved _ | drew _ | getSlept _ | getOver _ _ _ | unsubscribing _ _ _ | unsubscribedAgain _ _ _
  | unsubscribeReturned _ _ | unsubscribeSent _ _ | drewOther =>
    exact h.aside rfl rfl rfl hsame

end

end ClientCalls

end Epx
