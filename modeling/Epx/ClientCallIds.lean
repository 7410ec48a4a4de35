import Epx.ClientCalls

/-!
# Request ids of a client

The calls of a `Connection` draw their ids from one counter. Each id belongs to one call as long as
the counter has not come round, and then what is found in `pending` or in `stream_sinks` under an
id, and every callback the reader has copied out, belongs to the call that drew it.

## Main definitions

* `ClientCalls.Ids` — each id belongs to one call, and the tables hold entries of calls under way

## Main results

* `ClientCalls.Ids.step`, `ClientCalls.ids_of_run`
-/

namespace Epx

open Codec Transition

namespace ClientCalls

/-- The kind of call a sink or a callback belongs to. -/
def sinkKind (subscription : Bool) : AskKind := if subscription then .subscribe else .getStream

/-- Each id belongs to one call. What is in the tables belongs to calls under way. -/
structure Ids (s : ClientCalls) : Prop where
  next : s.nextRequestId = UInt64.ofNat (s.drawn.length + 1)
  drawn : s.drawn = (List.range s.drawn.length).map fun i => UInt64.ofNat (i + 1)
  asks_drawn : ∀ i kind id, (s.calls i).asks = some (kind, id) → id ∈ s.drawn
  asks_inj : ∀ i j kind kind' id, (s.calls i).asks = some (kind, id) →
    (s.calls j).asks = some (kind', id) → i = j
  pending : ∀ id, s.pending id ≠ none → ∃ i, (s.calls i).under = some (.get, id)
  sinks : ∀ id sink, s.streamSinks id = some sink →
    (s.calls sink.callback).under = some (sinkKind sink.subscription, id)
  deliveries : ∀ d ∈ s.reader.deliveries,
    (s.calls d.callback).asks = some (sinkKind d.subscription, d.id)

theorem sinkKind_ne_get (subscription : Bool) : sinkKind subscription ≠ .get := by
  cases subscription <;> decide

theorem ids_start : Ids {} where
  next := rfl
  drawn := rfl
  asks_drawn _ _ _ h := by cases h
  asks_inj _ _ _ _ _ h := by cases h
  pending _ h := absurd rfl h
  sinks _ _ h := by cases h
  deliveries _ h := absurd h List.not_mem_nil

section

variable {s s' : ClientCalls} {a : Act} {i : ℕ} {id : UInt64} {kind : AskKind}

theorem move_calls_self (c : CallPlace) : (s.move i c).calls i = c := Function.update_self ..

theorem move_calls_of_ne {j : ℕ} (h : j ≠ i) (c : CallPlace) : (s.move i c).calls j = s.calls j :=
  Function.update_of_ne h ..

/-- What is true of a call after a move was true before, or is about the call that moved. -/
theorem of_move_calls {P : CallPlace → Prop} {c : CallPlace} {j : ℕ}
    (h : P ((s.move i c).calls j)) :
    (j = i ∧ P c) ∨ (j ≠ i ∧ P (s.calls j)) := by
  by_cases hj : j = i
  · subst hj
    rw [move_calls_self] at h
    exact Or.inl ⟨rfl, h⟩
  · rw [move_calls_of_ne hj] at h
    exact Or.inr ⟨hj, h⟩

theorem asks_move {c : CallPlace} (h : c.asks = (s.calls i).asks) (j : ℕ) :
    ((s.move i c).calls j).asks = (s.calls j).asks := by
  by_cases hj : j = i
  · rw [hj, move_calls_self, h]
  · rw [move_calls_of_ne hj]

theorem under_move {c : CallPlace} (h : c.under = (s.calls i).under) (j : ℕ) :
    ((s.move i c).calls j).under = (s.calls j).under := by
  by_cases hj : j = i
  · rw [hj, move_calls_self, h]
  · rw [move_calls_of_ne hj]

/-- The id that is drawn next is a new one, within `2 ^ 64` draws. -/
theorem Ids.fresh (h : s.Ids) (hlt : s.drawn.length + 1 < 2 ^ 64) : s.nextRequestId ∉ s.drawn := by
  rw [h.drawn, List.mem_map]
  rintro ⟨n, hn, heq⟩
  rw [h.next, ← UInt64.toNat_inj, UInt64.toNat_ofNat', UInt64.toNat_ofNat'] at heq
  rw [List.mem_range] at hn
  omega

/-- An id belongs to one call under way. -/
theorem Ids.under_inj (h : s.Ids) {j : ℕ} {kind' : AskKind}
    (hi : (s.calls i).under = some (kind, id)) (hj : (s.calls j).under = some (kind', id)) :
    i = j :=
  h.asks_inj i j kind kind' id (CallPlace.asks_of_under hi) (CallPlace.asks_of_under hj)

/-- A call goes on. -/
theorem Ids.moved (h : s.Ids) {c : CallPlace} (hasks : c.asks = (s.calls i).asks)
    (hunder : c.under = (s.calls i).under) : (s.move i c).Ids where
  next := h.next
  drawn := h.drawn
  asks_drawn j kind id hj := h.asks_drawn j kind id (by rw [← asks_move hasks]; exact hj)
  asks_inj j j' kind kind' id hj hj' := by
    rw [asks_move hasks] at hj hj'
    exact h.asks_inj j j' kind kind' id hj hj'
  pending id hid := by
    obtain ⟨j, hj⟩ := h.pending id hid
    exact ⟨j, by rw [under_move hunder]; exact hj⟩
  sinks id sink hsink := by
    rw [under_move hunder]
    exact h.sinks id sink hsink
  deliveries d hd := by
    rw [asks_move hasks]
    exact h.deliveries d hd

theorem Ids.draw (h : s.Ids) : s.draw.Ids where
  next := by
    have hlen : s.draw.drawn.length = s.drawn.length + 1 := List.length_append
    rw [hlen]
    change s.nextRequestId + 1 = _
    rw [h.next]
    exact (UInt64.ofNat_add (s.drawn.length + 1) 1).symm
  drawn := by
    have hlen : s.draw.drawn.length = s.drawn.length + 1 := List.length_append
    rw [hlen, List.range_succ, List.map_append, ← h.drawn, List.map_singleton, ← h.next]
    rfl
  asks_drawn i kind id hi := List.mem_append_left _ (h.asks_drawn i kind id hi)
  asks_inj := h.asks_inj
  pending := h.pending
  sinks := h.sinks
  deliveries := h.deliveries

/-- A call draws its id. -/
theorem Ids.drew (h : s.Ids) (hlt : s.drawn.length + 1 < 2 ^ 64) (hcall : s.calls i = .found kind) :
    (s.draw.move i (.drawn kind s.nextRequestId)).Ids := by
  have hnone : (s.calls i).asks = none := by rw [hcall]; rfl
  have hasks : ∀ {j kind' id'}, ((s.draw.move i (.drawn kind s.nextRequestId)).calls j).asks
      = some (kind', id') → (j = i ∧ id' = s.nextRequestId) ∨
        (j ≠ i ∧ (s.calls j).asks = some (kind', id')) := by
    intro j kind' id' hj
    obtain ⟨hji, hnew⟩ | hold := of_move_calls (P := fun c => c.asks = some (kind', id')) hj
    · cases hnew
      exact Or.inl ⟨hji, rfl⟩
    · exact Or.inr hold
  have hkeep : ∀ j x, (s.calls j).asks = some x →
      (s.draw.move i (.drawn kind s.nextRequestId)).calls j = s.calls j := by
    intro j x hj
    refine move_calls_of_ne ?_ _
    rintro rfl
    rw [hnone] at hj
    cases hj
  exact
    { next := h.draw.next
      drawn := h.draw.drawn
      asks_drawn := by
        intro j kind' id' hj
        obtain ⟨-, rfl⟩ | ⟨-, hold⟩ := hasks hj
        · exact List.mem_append_right _ List.mem_cons_self
        · exact List.mem_append_left _ (h.asks_drawn j kind' id' hold)
      asks_inj := by
        intro j j' kind₁ kind₂ id' hj hj'
        obtain ⟨rfl, rfl⟩ | ⟨-, hold⟩ := hasks hj
        · obtain ⟨rfl, -⟩ | ⟨-, hold'⟩ := hasks hj'
          · rfl
          · exact absurd (h.asks_drawn _ _ _ hold') (h.fresh hlt)
        · obtain ⟨-, rfl⟩ | ⟨-, hold'⟩ := hasks hj'
          · exact absurd (h.asks_drawn _ _ _ hold) (h.fresh hlt)
          · exact h.asks_inj j j' _ _ _ hold hold'
      pending := by
        intro id' hid'
        obtain ⟨j, hj⟩ := h.pending id' hid'
        exact ⟨j, by rw [hkeep j _ (CallPlace.asks_of_under hj)]; exact hj⟩
      sinks := by
        intro id' sink hsink
        have hunder := h.sinks id' sink hsink
        rw [hkeep _ _ (CallPlace.asks_of_under hunder)]
        exact hunder
      deliveries := by
        intro d hd
        have hown := h.deliveries d hd
        rw [hkeep _ _ hown]
        exact hown }

/-- A call registers. -/
theorem Ids.registered (h : s.Ids) (hcall : s.calls i = .drawn kind id) :
    ((s.register i id kind).move i (.registered kind id)).Ids := by
  have hasks : (s.calls i).asks = some (kind, id) := by rw [hcall]; rfl
  have hcalls := s.register_calls i id kind
  have hsame : ∀ j, (((s.register i id kind).move i (.registered kind id)).calls j).asks
      = (s.calls j).asks := by
    intro j
    rw [asks_move (by rw [hcalls, hasks]; rfl), hcalls]
  have hkeep : ∀ j x, (s.calls j).under = some x →
      (((s.register i id kind).move i (.registered kind id)).calls j).under = some x := by
    intro j x hj
    have hne : j ≠ i := by
      rintro rfl
      rw [hcall] at hj
      cases hj
    rw [move_calls_of_ne hne, hcalls]
    exact hj
  have hnew : (((s.register i id kind).move i (.registered kind id)).calls i).under
      = some (kind, id) := by
    rw [move_calls_self]
    rfl
  have hold : ∀ {id' : UInt64} {sink : StreamSink}, s.streamSinks id' = some sink →
      (((s.register i id kind).move i (.registered kind id)).calls sink.callback).under
        = some (sinkKind sink.subscription, id') :=
    fun hsink => hkeep _ _ (h.sinks _ _ hsink)
  exact
    { next := by cases kind <;> exact h.next
      drawn := by cases kind <;> exact h.drawn
      asks_drawn := by
        intro j kind' id' hj
        rw [hsame] at hj
        have := h.asks_drawn j kind' id' hj
        cases kind <;> exact this
      asks_inj := by
        intro j j' kind₁ kind₂ id' hj hj'
        rw [hsame] at hj hj'
        exact h.asks_inj j j' _ _ _ hj hj'
      pending := by
        intro id' hid'
        by_cases hget : kind = .get ∧ id' = id
        · obtain ⟨rfl, rfl⟩ := hget
          exact ⟨i, hnew⟩
        · have hstay : s.pending id' ≠ none := by
            cases kind with
            | get =>
              have hne : id' ≠ id := fun heq => hget ⟨rfl, heq⟩
              change Function.update s.pending id (some none) id' ≠ none at hid'
              rwa [Function.update_of_ne hne] at hid'
            | getStream | subscribe => exact hid'
          obtain ⟨j, hj⟩ := h.pending id' hstay
          exact ⟨j, hkeep j _ hj⟩
      sinks := by
        intro id' sink hsink
        cases kind with
        | get => exact hold hsink
        | getStream | subscribe =>
          by_cases hne : id' = id
          · subst hne
            have hput : sink = _ := (Option.some.inj
              ((Function.update_self id' _ s.streamSinks).symm.trans hsink)).symm
            rw [hput]
            exact hnew
          · exact hold ((Function.update_of_ne hne _ s.streamSinks).symm.trans hsink)
      deliveries := by
        intro d hd
        rw [hsame]
        refine h.deliveries d ?_
        cases kind <;> exact hd }

/-- A call ends, and takes its entry with it. -/
theorem Ids.over (h : s.Ids) (kind : AskKind) (hunder : (s.calls i).under = some (kind, id))
    (o : CallOutcome) :
    ((s.unregister id kind).move i (.over kind id o)).Ids := by
  have hasks : (s.calls i).asks = some (kind, id) := CallPlace.asks_of_under hunder
  have hcalls := s.unregister_calls id kind
  have hsame : ∀ j, (((s.unregister id kind).move i (.over kind id o)).calls j).asks
      = (s.calls j).asks := by
    intro j
    rw [asks_move (by rw [hcalls, hasks]; rfl), hcalls]
  have hkeep : ∀ j kind' id', (s.calls j).under = some (kind', id') → (kind' ≠ kind ∨ id' ≠ id) →
      (((s.unregister id kind).move i (.over kind id o)).calls j).under = some (kind', id') := by
    intro j kind' id' hj hdiff
    have hne : j ≠ i := by
      rintro rfl
      rw [hunder] at hj
      cases hj
      rcases hdiff with hk | hi
      · exact hk rfl
      · exact hi rfl
    rw [move_calls_of_ne hne, hcalls]
    exact hj
  exact
    { next := by cases kind <;> exact h.next
      drawn := by cases kind <;> exact h.drawn
      asks_drawn := by
        intro j kind' id' hj
        rw [hsame] at hj
        have := h.asks_drawn j kind' id' hj
        cases kind <;> exact this
      asks_inj := by
        intro j j' kind₁ kind₂ id' hj hj'
        rw [hsame] at hj hj'
        exact h.asks_inj j j' _ _ _ hj hj'
      pending := by
        intro id' hid'
        cases kind with
        | get =>
          change Function.update s.pending id none id' ≠ none at hid'
          by_cases hne : id' = id
          · rw [hne, Function.update_self] at hid'
            exact absurd rfl hid'
          · rw [Function.update_of_ne hne] at hid'
            obtain ⟨j, hj⟩ := h.pending id' hid'
            exact ⟨j, hkeep j _ _ hj (Or.inr hne)⟩
        | getStream | subscribe =>
          obtain ⟨j, hj⟩ := h.pending id' hid'
          exact ⟨j, hkeep j _ _ hj (Or.inl (by decide))⟩
      sinks := by
        intro id' sink hsink
        cases kind with
        | get => exact hkeep _ _ _ (h.sinks id' sink hsink) (Or.inl (sinkKind_ne_get _))
        | getStream | subscribe =>
          change Function.update s.streamSinks id none id' = some sink at hsink
          by_cases hne : id' = id
          · rw [hne, Function.update_self] at hsink
            cases hsink
          · rw [Function.update_of_ne hne] at hsink
            exact hkeep _ _ _ (h.sinks id' sink hsink) (Or.inr hne)
      deliveries := by
        intro d hd
        rw [hsame]
        refine h.deliveries d ?_
        cases kind <;> exact hd }

theorem Ids.eraseSink (h : s.Ids) (id : UInt64) : (s.eraseSink id).Ids where
  next := h.next
  drawn := h.drawn
  asks_drawn := h.asks_drawn
  asks_inj := h.asks_inj
  pending := h.pending
  sinks := by
    intro id' sink hsink
    change Function.update s.streamSinks id none id' = some sink at hsink
    by_cases hne : id' = id
    · rw [hne, Function.update_self] at hsink
      cases hsink
    · rw [Function.update_of_ne hne] at hsink
      exact h.sinks id' sink hsink
  deliveries := h.deliveries

/-- A sink changes and stays the sink of its call. -/
theorem Ids.putSink (h : s.Ids) {sink : StreamSink} (sink' : StreamSink)
    (hsink : s.streamSinks id = some sink)
    (hcallback : sink'.callback = sink.callback)
    (hsubscription : sink'.subscription = sink.subscription) : (s.putSink id sink').Ids where
  next := h.next
  drawn := h.drawn
  asks_drawn := h.asks_drawn
  asks_inj := h.asks_inj
  pending := h.pending
  sinks := by
    intro id' sink₁ hsink₁
    change Function.update s.streamSinks id (some sink') id' = some sink₁ at hsink₁
    by_cases hne : id' = id
    · rw [hne, Function.update_self] at hsink₁
      cases hsink₁
      rw [hcallback, hsubscription, hne]
      exact h.sinks id sink hsink
    · rw [Function.update_of_ne hne] at hsink₁
      exact h.sinks id' sink₁ hsink₁
  deliveries := h.deliveries

/-- The entry of a `get` changes. -/
theorem Ids.putPending (h : s.Ids) (hpending : s.pending id ≠ none)
    (stored : Option ResponsePayload) :
    Ids { s with pending := Function.update s.pending id (some stored) } where
  next := h.next
  drawn := h.drawn
  asks_drawn := h.asks_drawn
  asks_inj := h.asks_inj
  pending := by
    intro id' hid'
    by_cases hne : id' = id
    · rw [hne]
      exact h.pending id hpending
    · change Function.update s.pending id (some stored) id' ≠ none at hid'
      rw [Function.update_of_ne hne] at hid'
      exact h.pending id' hid'
  sinks := h.sinks
  deliveries := h.deliveries

/-- The reader moves, and what it has copied out belongs to calls. -/
theorem Ids.reads (h : s.Ids) {r : Reader}
    (hr : ∀ d ∈ r.deliveries, (s.calls d.callback).asks = some (sinkKind d.subscription, d.id)) :
    Ids { s with reader := r } where
  next := h.next
  drawn := h.drawn
  asks_drawn := h.asks_drawn
  asks_inj := h.asks_inj
  pending := h.pending
  sinks := h.sinks
  deliveries := hr

theorem deliveries_of_quiet {r : Reader} (h : Quiet r) : r.deliveries = [] := by
  rcases h with rfl | rfl | rfl | rfl <;> rfl

theorem mem_deliveries_afterCallback {d d' : Delivery} {rest : List Delivery}
    (h : d' ∈ (afterCallback d rest).deliveries) : d' ∈ d :: rest := by
  simp only [afterCallback] at h
  split at h
  · split at h
    · rw [List.mem_singleton.mp h]
      exact List.mem_cons_self
    · exact absurd h List.not_mem_nil
  · exact absurd h List.not_mem_nil
  · split at h
    · exact absurd h List.not_mem_nil
    · exact List.mem_cons_of_mem _ h

/-- What the reader owes on its way out comes from the sinks of subscriptions. -/
theorem mem_closedCbs {d : Delivery} (h : d ∈ s.closedCbs) :
    ∃ sink, s.streamSinks d.id = some sink ∧ sink.subscription = true ∧
      d = ⟨sink.callback, d.id, [], true, true, .exit⟩ := by
  rw [closedCbs, List.mem_filterMap] at h
  obtain ⟨id, -, hd⟩ := h
  split at hd
  · next sink hsink =>
    obtain ⟨hsub, heq⟩ := Option.ite_none_right_eq_some.mp hd
    cases heq
    exact ⟨sink, hsink, hsub, rfl⟩
  · cases hd

theorem sweep_streamSinks_eq_some {sink : StreamSink} :
    s.sweep.streamSinks id = some sink ↔
      s.streamSinks id = some sink ∧ sink.subscription = false := by
  cases hsink : s.streamSinks id with
  | none => simp [sweep, hsink]
  | some sink' =>
    by_cases hsub : sink'.subscription = true
    · simp only [sweep, hsink, if_pos hsub, reduceCtorEq, Option.some.injEq, false_iff, not_and]
      rintro rfl
      rw [hsub]
      exact Bool.noConfusion
    · simp only [sweep, hsink, if_neg hsub, Option.some.injEq, iff_self_and]
      rintro rfl
      exact Bool.not_eq_true _ ▸ hsub

theorem mem_deliveries_sweep {d : Delivery} (h : d ∈ s.sweep.reader.deliveries) :
    d ∈ s.closedCbs := by
  simp only [sweep] at h
  split at h
  · exact absurd h List.not_mem_nil
  · next d' rest heq =>
    rw [heq]
    exact h

theorem Ids.swept (h : s.Ids) : s.sweep.Ids where
  next := h.next
  drawn := h.drawn
  asks_drawn := h.asks_drawn
  asks_inj := h.asks_inj
  pending := h.pending
  sinks id sink hsink := h.sinks id sink (sweep_streamSinks_eq_some.mp hsink).1
  deliveries d hd := by
    obtain ⟨sink, hsink, hsub, heq⟩ := mem_closedCbs (mem_deliveries_sweep hd)
    have hunder := h.sinks d.id sink hsink
    rw [hsub] at hunder
    rw [heq]
    exact CallPlace.asks_of_under hunder

/-- **Every step keeps the ids in order**, within `2 ^ 64` draws. -/
theorem Ids.step (h : s.Ids) (hstep : s.Step a s') (hlt : s'.drawn.length < 2 ^ 64) : s'.Ids := by
  have hdraw : ∀ {l : List UInt64}, (l ++ [s.nextRequestId]).length < 2 ^ 64 →
      l.length + 1 < 2 ^ 64 := by simp
  cases effect_of_step hstep with
  | moved hgoes => exact h.moved hgoes.asks_eq hgoes.under_eq
  | drew hcall => exact h.drew (hdraw hlt) hcall
  | registered hcall => exact h.registered hcall
  | gaveUp hcall => exact h.over _ (by rw [hcall]; rfl) _
  | @getSlept i id hcall =>
    by_cases hpending : s.pending id = none
    · -- `operator[]` inserts, for a `get` that is under way
      refine ⟨h.next, h.drawn, h.asks_drawn, h.asks_inj, fun id' hid' => ?_, h.sinks, h.deliveries⟩
      by_cases hne : id' = id
      · exact ⟨i, by rw [hcall, hne]; rfl⟩
      · change Function.update s.pending id _ id' ≠ none at hid'
        rw [Function.update_of_ne hne] at hid'
        exact h.pending id' hid'
    · exact h.putPending hpending _
  | getOver hcall _ _ => exact h.over .get (by rw [hcall]; rfl) _
  | streamOver hcall _ =>
    refine h.over .getStream ?_ _
    rcases hcall with ⟨-, hcall, -⟩ | ⟨-, hcall⟩
    · rw [hcall]
      rfl
    · rw [hcall]
      rfl
  | @unsubscribing j i id hj _ _ =>
    have hmoved : (s.move j (.unsubscribing i)).Ids :=
      h.moved (by rw [hj]; rfl) (by rw [hj]; rfl)
    exact ⟨hmoved.next, hmoved.drawn, hmoved.asks_drawn, hmoved.asks_inj, hmoved.pending,
      hmoved.sinks, hmoved.deliveries⟩
  | unsubscribedAgain hj _ _ => exact h.moved (by rw [hj]; rfl) (by rw [hj]; rfl)
  | @unsubscribeErased j i id hj _ =>
    have hcall : (s.eraseSink id).calls j = .unsubscribing i := hj
    exact (h.eraseSink id).moved (by rw [hcall]; rfl) (by rw [hcall]; rfl)
  | unsubscribeReturned hj _ => exact h.moved (by rw [hj]; rfl) (by rw [hj]; rfl)
  | @unsubscribeSent j i hj _ =>
    have hcall : s.draw.calls j = .unsubscribeErased i := hj
    exact h.draw.moved (by rw [hcall]; rfl) (by rw [hcall]; rfl)
  | drewOther => exact h.draw
  | quiet hr =>
    refine ⟨h.next, h.drawn, h.asks_drawn, h.asks_inj, h.pending, h.sinks, fun d hd => ?_⟩
    rcases hr with rfl | ⟨-, hr⟩
    · exact h.deliveries d hd
    · rw [deliveries_of_quiet hr] at hd
      exact absurd hd List.not_mem_nil
  | @chunkDropped chunk _ _ =>
    exact Ids.reads (s := s.feed chunk) ⟨h.next, h.drawn, h.asks_drawn, h.asks_inj, h.pending,
      h.sinks, h.deliveries⟩ fun _ hd => absurd hd List.not_mem_nil
  | @chunkTaken chunk sink _ hsink =>
    have hfed : (s.feed chunk).Ids := ⟨h.next, h.drawn, h.asks_drawn, h.asks_inj, h.pending,
      h.sinks, h.deliveries⟩
    refine (hfed.putSink (sinkFed sink chunk) hsink rfl rfl).reads fun d hd => ?_
    rw [List.mem_singleton.mp hd]
    exact CallPlace.asks_of_under (h.sinks _ _ hsink)
  | @stored resp _ hpending =>
    have hanswered : (s.answer resp).Ids := ⟨h.next, h.drawn, h.asks_drawn, h.asks_inj, h.pending,
      h.sinks, h.deliveries⟩
    exact (hanswered.putPending hpending _).reads fun _ hd => absurd hd List.not_mem_nil
  | @ignored resp _ _ _ =>
    exact Ids.reads (s := s.answer resp) ⟨h.next, h.drawn, h.asks_drawn, h.asks_inj, h.pending,
      h.sinks, h.deliveries⟩ fun _ hd => absurd hd List.not_mem_nil
  | @refused resp sink _ _ hsink hsub =>
    have hanswered : (s.answer resp).Ids := ⟨h.next, h.drawn, h.asks_drawn, h.asks_inj, h.pending,
      h.sinks, h.deliveries⟩
    refine (hanswered.eraseSink resp.requestId).reads fun d hd => ?_
    have hunder := h.sinks _ _ hsink
    rw [hsub] at hunder
    rw [List.mem_singleton.mp hd]
    exact CallPlace.asks_of_under hunder
  | @streamFailed resp sink _ _ hsink _ =>
    have hanswered : (s.answer resp).Ids := ⟨h.next, h.drawn, h.asks_drawn, h.asks_inj, h.pending,
      h.sinks, h.deliveries⟩
    exact (hanswered.putSink (sinkFailed sink resp) hsink rfl rfl).reads
      fun _ hd => absurd hd List.not_mem_nil
  | @marked d rest hreader _ =>
    refine ⟨h.next, h.drawn, h.asks_drawn, h.asks_inj, h.pending, h.sinks, fun d' hd' => ?_⟩
    exact h.deliveries d' (by rw [hreader]; exact hd')
  | @invoked d stage rest hreader _ =>
    refine ⟨h.next, h.drawn, h.asks_drawn, h.asks_inj, h.pending, h.sinks, fun d' hd' => ?_⟩
    exact h.deliveries d' (by rw [hreader]; exact hd')
  | @callbackReturned d rest hreader =>
    refine ⟨h.next, h.drawn, h.asks_drawn, h.asks_inj, h.pending, h.sinks, fun d' hd' => ?_⟩
    exact h.deliveries d' (by rw [hreader]; exact mem_deliveries_afterCallback hd')
  | @ended d hreader =>
    by_cases hsub : d.subscription = true
    · rw [if_pos hsub]
      exact (h.eraseSink d.id).reads fun _ hd => absurd hd List.not_mem_nil
    · rw [if_neg hsub]
      exact h.reads fun _ hd => absurd hd List.not_mem_nil
  | swept _ => exact h.swept

/-- A step draws one id at most, and none is taken back. -/
theorem drawn_step (hstep : s.Step a s') :
    s'.drawn = s.drawn ∨ s'.drawn = s.drawn ++ [s.nextRequestId] := by
  cases effect_of_step hstep with
  | drew _ | unsubscribeSent _ _ | drewOther => exact Or.inr rfl
  | @registered i kind id _ => cases kind <;> exact Or.inl rfl
  | @gaveUp i kind id _ => cases kind <;> exact Or.inl rfl
  | @ended d _ =>
    obtain ⟨sinks, heq⟩ := s.eraseLast_eq d
    rw [heq]
    exact Or.inl rfl
  | _ => exact Or.inl rfl

theorem drawn_le (hstep : s.Step a s') : s.drawn.length ≤ s'.drawn.length := by
  rcases drawn_step hstep with heq | heq
  · rw [heq]
  · rw [heq, List.length_append]
    exact Nat.le_add_right _ _

theorem drawn_lt (hstep : s.Step a s') (h : s.drawn.length + 1 < 2 ^ 64) :
    s'.drawn.length < 2 ^ 64 := by
  rcases drawn_step hstep with heq | heq
  · rw [heq]
    omega
  · rw [heq, List.length_append]
    exact h

theorem ids_of_run {acts : List Act} (hrun : Run Step {} acts s) (hlt : s.drawn.length < 2 ^ 64) :
    s.Ids := by
  refine hrun.preserves (I := fun s => s.drawn.length < 2 ^ 64 → s.Ids) (fun _ => ids_start) ?_ hlt
  intro s a s' h hstep hlt
  exact (h (lt_of_le_of_lt (drawn_le hstep) hlt)).step hstep hlt

end

end ClientCalls

end Epx
