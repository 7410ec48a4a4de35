import Mathlib.Data.List.Nodup
import Epx.ClientCallbacks

/-!
# How a subscription ends

A subscription is told once, and last, that its feed is over: by the last chunk, by a refusal, or by
the reader on its way out. These are all done by the reader thread, one after the other, and each
takes the sink out of the table, so none of them comes twice.

Two things spoil it. A call that has found the connection alive may register its sink after the
reader has looked at the sinks for the last time, and then nobody tells it anything. And
`unsubscribe` erases the sink without telling it anything, while the reader may have copied the
callback out before and call it when `unsubscribe` has returned.

## Main definitions

* `ClientCalls.orderly` — subscriptions register before the reader's last look, and are not
  unsubscribed before they were told
* `ClientCalls.Ended`, `ClientCalls.Told`
* `ClientCalls.SubOk` — a feed is open, or about to be told, or told

## Main results

* `ClientCalls.SubOk.step`, `ClientCalls.Feeds.step`
* `subscription_told_once`
* `unsubscribe_tells_nothing`
-/

namespace Epx

open Codec Transition

/-- The reader has looked at the sinks on its way out. -/
def Reader.swept : Reader → Bool
  | .delivering d _ _ => d.origin = .exit
  | .exited => true
  | _ => false

/-- The reader is at the last chunk of the subscription of call `i`, whose sink it will erase. -/
def Reader.AtLast (r : Reader) (i : ℕ) : Prop :=
  (∃ d stage, r = .delivering d stage [] ∧ d.callback = i ∧ d.origin = .chunk ∧ d.closed = true) ∨
    ∃ d, r = .ending d ∧ d.callback = i

namespace ClientCalls

/-- A subscription registers before the reader has looked at the sinks for the last time;
`unsubscribe` is called, or the handle destroyed, when the last call of the callback has begun. -/
def orderlyAct (s : ClientCalls) : Act → Bool
  | .register i =>
    match s.calls i with
    | .drawn .subscribe _ => !s.reader.swept
    | _ => true
  | .unsubscribe _ i => !s.active i && (s.reader.unstarted i).isEmpty
  | _ => true

/-- In addition, fewer than `2 ^ 64` ids are drawn. -/
def orderly (s : ClientCalls) (a : Act) : Bool :=
  decide (s.drawn.length + 1 < 2 ^ 64) && s.orderlyAct a

abbrev OrderlyStep : ClientCalls → Act → ClientCalls → Prop :=
  Guarded Step fun s a => orderly s a = true

/-- The feed of a subscription is over: the reader is gone with the connection, or it has read the
last chunk or a refusal and is through with it, or `unsubscribe` has returned. -/
def Ended (s : ClientCalls) (i : ℕ) : Prop :=
  s.reader = .exited ∨
  (((∃ data, (data, true) ∈ s.fed i) ∨ s.answers i ≠ []) ∧
    ∀ d ∈ s.reader.deliveries, d.callback ≠ i) ∨
  ∃ j, s.calls j = .unsubscribed i

/-- No call of the callback said that the feed is closed. -/
def Untold (l : List (Bytes × Bool)) : Prop := ∀ p ∈ l, p.2 = false

/-- The last call of the callback, and no other, said that the feed is closed, and the subscription
is not active. -/
def Told (s : ClientCalls) (i : ℕ) : Prop :=
  (∃ before data, s.invoked i = before ++ [(data, true)] ∧ Untold before) ∧ s.active i = false

/-- A subscription that has ended was told so once and last, and in every run of `step` from here
its callback is not called again. -/
def ToldOnce (step : ClientCalls → Act → ClientCalls → Prop) (s : ClientCalls) : Prop :=
  ∀ i id, s.calls i = .sent .subscribe id → s.Ended i →
    s.Told i ∧ ∀ more s', Run step s more s' → s'.invoked i = s.invoked i

/-! ### The invariant -/

/-- The feed is open. -/
structure FeedOpen (s : ClientCalls) (i : ℕ) (id : UInt64) : Prop where
  sink : s.streamSinks id ≠ none
  active : s.active i = true
  answers : s.answers i = []
  fed : Untold (s.fed i)
  invoked : Untold (s.invoked i)
  unstarted : Untold (s.reader.unstarted i)
  swept : s.reader.swept = false
  ending : ∀ d, s.reader = .ending d → d.callback ≠ i

/-- The feed is closed, and the reader has copied out the callback that says so, or has begun it. -/
structure FeedClosed (s : ClientCalls) (i : ℕ) (id : UInt64) : Prop where
  told : ((∃ data, s.reader.unstarted i = [(data, true)]) ∧ Untold (s.invoked i)) ∨
    (s.reader.unstarted i = [] ∧ s.Told i)
  sink : s.streamSinks id = none ∨ s.reader.AtLast i

/-- A subscription is open or closed; before it registers nothing happens to it. -/
structure SubOk (s : ClientCalls) (i : ℕ) : Prop where
  feed : ∀ id, (s.calls i).under = some (.subscribe, id) → s.FeedOpen i id ∨ s.FeedClosed i id
  early : (s.calls i).under = none → (∀ kind id o, s.calls i ≠ .over kind id o) →
    s.fed i = [] ∧ s.answers i = [] ∧ s.invoked i = [] ∧ ∀ d ∈ s.reader.deliveries, d.callback ≠ i
  marked : ∀ d rest, s.reader = .delivering d .marked rest → d.callback = i → s.active i = false

/-- Nobody is inside `unsubscribe`, and who has returned from it did so after the feed was told. -/
structure Unsubscribed (s : ClientCalls) : Prop where
  unsubscribing : ∀ j target, s.calls j ≠ .unsubscribing target
  erased : ∀ j target, s.calls j ≠ .unsubscribeErased target
  told : ∀ j target, s.calls j = .unsubscribed target →
    (∃ id, s.calls target = .sent .subscribe id) ∧ s.reader.unstarted target = [] ∧ s.Told target

theorem untold_nil : Untold [] := fun _ h => absurd h List.not_mem_nil

theorem Untold.append {l l' : List (Bytes × Bool)} (h : Untold l) (h' : Untold l') :
    Untold (l ++ l') := by
  intro p hp
  rcases List.mem_append.mp hp with hp | hp
  · exact h p hp
  · exact h' p hp

theorem untold_singleton {data : Bytes} : Untold [(data, false)] := by
  intro p hp
  rw [List.mem_singleton.mp hp]

theorem not_untold_of_told {s : ClientCalls} {i : ℕ} (h : s.Told i) : ¬ Untold (s.invoked i) := by
  intro huntold
  obtain ⟨⟨before, data, heq, -⟩, -⟩ := h
  rw [heq] at huntold
  have := huntold (data, true) (List.mem_append_right _ List.mem_cons_self)
  cases this

theorem subOk_start (i : ℕ) : SubOk {} i where
  feed _ h := by cases h
  early _ _ := ⟨rfl, rfl, rfl, fun _ h => absurd h List.not_mem_nil⟩
  marked _ _ h := by cases h

theorem unsubscribed_start : Unsubscribed {} where
  unsubscribing _ _ h := by cases h
  erased _ _ h := by cases h
  told _ _ h := by cases h

/-- One element of a list without repetitions is kept. -/
theorem filter_filterMap_eq_singleton {α β : Type*} {f : α → Option β} {p : β → Bool} {l : List α}
    {a : α} {b : β} (hnodup : l.Nodup) (ha : a ∈ l) (hfa : f a = some b) (hb : p b = true)
    (hone : ∀ a' ∈ l, ∀ b', f a' = some b' → p b' = true → a' = a) :
    (l.filterMap f).filter p = [b] := by
  induction l with
  | nil => exact absurd ha List.not_mem_nil
  | cons x l ih =>
    obtain ⟨hx, hnodup⟩ := List.nodup_cons.mp hnodup
    by_cases hxa : x = a
    · subst hxa
      have hrest : (l.filterMap f).filter p = [] := by
        rw [List.filter_eq_nil_iff]
        intro b' hb' hp
        obtain ⟨a', ha', hfa'⟩ := List.mem_filterMap.mp hb'
        have heq := hone a' (List.mem_cons_of_mem _ ha') b' hfa' hp
        exact hx (heq ▸ ha')
      rw [List.filterMap_cons_some hfa, List.filter_cons_of_pos hb, hrest]
    · have hrest := ih hnodup ((List.mem_cons.mp ha).resolve_left fun heq => hxa heq.symm)
        fun a' ha' => hone a' (List.mem_cons_of_mem _ ha')
      cases hfx : f x with
      | none =>
        rw [List.filterMap_cons_none hfx]
        exact hrest
      | some b' =>
        rw [List.filterMap_cons_some hfx, List.filter_cons_of_neg ?_]
        · exact hrest
        · intro hp
          exact hxa (hone x List.mem_cons_self b' hfx hp)

section

variable {s s' : ClientCalls} {a : Act} {i : ℕ} {id : UInt64} {kind : AskKind}

theorem not_atLast_of_quiet {r : Reader} (h : Quiet r) : ¬ r.AtLast i := by
  rintro (⟨d, stage, rfl, -⟩ | ⟨d, rfl, -⟩)
  · rcases h with h | h | h | h <;> cases h
  · rcases h with h | h | h | h <;> cases h

theorem not_swept_of_quiet {r : Reader} (h : Quiet r) : r.swept = false := by
  rcases h with rfl | rfl | rfl | rfl <;> rfl

/-- Nothing that concerns the subscription changes, and the reader stays where it is. -/
theorem SubOk.congr (h : s.SubOk i) (hcall : s'.calls i = s.calls i)
    (hreader : s'.reader = s.reader)
    (hfed : s'.fed i = s.fed i) (hanswers : s'.answers i = s.answers i)
    (hinvoked : s'.invoked i = s.invoked i) (hactive : s'.active i = s.active i)
    (hsink : ∀ id, (s.calls i).under = some (.subscribe, id) →
      s'.streamSinks id = s.streamSinks id) : s'.SubOk i where
  feed := by
    intro id hunder
    rw [hcall] at hunder
    have htold : s'.Told i ↔ s.Told i := by rw [Told, Told, hinvoked, hactive]
    rcases h.feed id hunder with hopen | hclosed
    · refine Or.inl ⟨?_, ?_, ?_, ?_, ?_, ?_, ?_, ?_⟩
      · rw [hsink id hunder]
        exact hopen.sink
      · rw [hactive]
        exact hopen.active
      · rw [hanswers]
        exact hopen.answers
      · rw [hfed]
        exact hopen.fed
      · rw [hinvoked]
        exact hopen.invoked
      · rw [hreader]
        exact hopen.unstarted
      · rw [hreader]
        exact hopen.swept
      · rw [hreader]
        exact hopen.ending
    · refine Or.inr ⟨?_, ?_⟩
      · rw [hreader, hinvoked, htold]
        exact hclosed.told
      · rw [hsink id hunder, hreader]
        exact hclosed.sink
  early := by
    intro hunder hne
    rw [hcall] at hunder hne
    rw [hfed, hanswers, hinvoked, hreader]
    exact h.early hunder hne
  marked := by
    rw [hreader, hactive]
    exact h.marked

/-- A call goes on. -/
theorem SubOk.moved (h : s.SubOk i) {j : ℕ} {c : CallPlace} (hunder : c.under = (s.calls j).under)
    (hold : ∀ kind id o, s.calls j ≠ .over kind id o) : (s.move j c).SubOk i := by
  by_cases hij : i = j
  · subst hij
    have hsame := under_move (s := s) hunder i
    refine ⟨fun id hi => ?_, fun hi _ => h.early (hsame ▸ hi) hold, h.marked⟩
    rcases h.feed id (hsame ▸ hi) with hopen | hclosed
    · exact Or.inl ⟨hopen.sink, hopen.active, hopen.answers, hopen.fed, hopen.invoked,
        hopen.unstarted, hopen.swept, hopen.ending⟩
    · exact Or.inr ⟨hclosed.told, hclosed.sink⟩
  · exact h.congr (move_calls_of_ne hij c) rfl rfl rfl rfl rfl fun _ _ => rfl

/-- The sinks change under an id that is not that of the subscription. -/
theorem streamSinks_update_of_subscribe (hids : s.Ids) {j : ℕ} {x : Option StreamSink}
    (hasks : (s.calls j).asks = some (kind, id)) (hne : j ≠ i ∨ kind ≠ .subscribe) (id' : UInt64)
    (hunder : (s.calls i).under = some (.subscribe, id')) :
    Function.update s.streamSinks id x id' = s.streamSinks id' := by
  refine Function.update_of_ne ?_ ..
  rintro rfl
  have hi := CallPlace.asks_of_under hunder
  have heq : j = i := hids.asks_inj j i _ _ _ hasks hi
  rcases hne with hne | hne
  · exact hne heq
  · rw [heq, hi] at hasks
    cases hasks
    exact hne rfl

/-- An entry that is not a subscription's own one is not found under its id. -/
theorem ne_of_under (hids : s.Ids) {j : ℕ} {id' : UInt64}
    (hi : (s.calls i).under = some (.subscribe, id)) (hj : (s.calls j).under = some (kind, id'))
    (hne : j ≠ i ∨ kind ≠ .subscribe) : id ≠ id' := by
  rintro rfl
  have heq : j = i := hids.under_inj hj hi
  rcases hne with hne | hne
  · exact hne heq
  · rw [heq, hi] at hj
    cases hj
    exact hne rfl

/-- A subscription registers while the reader has not looked at the sinks for the last time. -/
theorem SubOk.registered (h : s.SubOk i) (hids : s.Ids) {j : ℕ} (hcall : s.calls j = .drawn kind id)
    (hswept : kind = .subscribe → s.reader.swept = false) :
    ((s.register j id kind).move j (.registered kind id)).SubOk i := by
  have hasks : (s.calls j).asks = some (kind, id) := by rw [hcall]; rfl
  have hcalls := s.register_calls j id kind
  by_cases hij : i = j
  · subst hij
    obtain ⟨hfed, hanswers, hinvoked, hnone⟩ := h.early (by rw [hcall]; rfl) (by simp [hcall])
    have hmoved : ((s.register i id kind).move i (.registered kind id)).calls i
        = .registered kind id := move_calls_self _
    refine ⟨fun id' hunder => ?_, fun hunder => ?_, fun d rest hreader hcallback => ?_⟩
    · rw [hmoved] at hunder
      cases hunder
      refine Or.inl ⟨?_, Function.update_self .., hanswers, ?_, ?_, ?_, hswept rfl, ?_⟩
      · change Function.update s.streamSinks id _ id ≠ none
        rw [Function.update_self]
        exact Option.some_ne_none _
      · change Untold (s.fed i)
        rw [hfed]
        exact untold_nil
      · change Untold (s.invoked i)
        rw [hinvoked]
        exact untold_nil
      · change Untold (s.reader.unstarted i)
        rw [Reader.unstarted_eq_nil hnone]
        exact untold_nil
      · intro d hd
        have hd' : s.reader = .ending d := hd
        rw [hd'] at hnone
        exact hnone d List.mem_cons_self
    · rw [hmoved] at hunder
      cases hunder
    · have hreader' : s.reader = .delivering d .marked rest := by cases kind <;> exact hreader
      rw [hreader'] at hnone
      exact absurd hcallback (hnone d List.mem_cons_self)
  · have hfar : ∀ x, _ := fun x => streamSinks_update_of_subscribe (x := x) (i := i) hids hasks
      (Or.inl fun heq => hij heq.symm)
    have hcall' := move_calls_of_ne (s := s.register j id kind) hij (.registered kind id)
    rw [hcalls] at hcall'
    cases kind with
    | get => exact h.congr hcall' rfl rfl rfl rfl rfl fun _ _ => rfl
    | getStream => exact h.congr hcall' rfl rfl rfl rfl rfl fun id' => hfar _ id'
    | subscribe =>
      exact h.congr hcall' rfl rfl rfl rfl (Function.update_of_ne hij ..) fun id' => hfar _ id'

/-- A call ends, and takes its entry with it. -/
theorem SubOk.over (h : s.SubOk i) (hids : s.Ids) {j : ℕ} (kind : AskKind)
    (hunder : (s.calls j).under = some (kind, id)) (o : CallOutcome) :
    ((s.unregister id kind).move j (.over kind id o)).SubOk i := by
  have hcalls := s.unregister_calls id kind
  by_cases hij : i = j
  · subst hij
    have hmoved : ((s.unregister id kind).move i (.over kind id o)).calls i = .over kind id o :=
      move_calls_self _
    refine ⟨fun id' hi => ?_, fun _ hne => absurd hmoved (hne kind id o), ?_⟩
    · rw [hmoved] at hi
      cases hi
    · have hmarked := h.marked
      cases kind <;> exact hmarked
  · have hfar := streamSinks_update_of_subscribe (x := none) (i := i) hids
      (CallPlace.asks_of_under hunder) (Or.inl fun heq => hij heq.symm)
    have hcall' := move_calls_of_ne (s := s.unregister id kind) hij (.over kind id o)
    rw [hcalls] at hcall'
    cases kind with
    | get => exact h.congr hcall' rfl rfl rfl rfl rfl fun _ _ => rfl
    | getStream | subscribe => exact h.congr hcall' rfl rfl rfl rfl rfl fun id' => hfar id'

/-- The reader was idle and has nothing to do for the subscription now, and what it read was not for
an open feed. -/
theorem SubOk.reread (h : s.SubOk i) (hold : Quiet s.reader)
    (hnew : ∀ d ∈ s'.reader.deliveries, d.callback ≠ i) (hswept : s'.reader.swept = false)
    (hcall : s'.calls i = s.calls i) (hinvoked : s'.invoked i = s.invoked i)
    (hactive : s'.active i = s.active i)
    (hearly : (s.calls i).under = none → s'.fed i = s.fed i ∧ s'.answers i = s.answers i)
    (hsinks : ∀ id, (s.calls i).under = some (.subscribe, id) →
      s'.streamSinks id = s.streamSinks id ∧
        (s.streamSinks id ≠ none → s'.fed i = s.fed i ∧ s'.answers i = s.answers i)) :
    s'.SubOk i where
  feed := by
    intro id hunder
    rw [hcall] at hunder
    obtain ⟨hsink, hread⟩ := hsinks id hunder
    have hunstarted : s'.reader.unstarted i = [] := Reader.unstarted_eq_nil hnew
    rcases h.feed id hunder with hopen | hclosed
    · obtain ⟨hfed, hanswers⟩ := hread hopen.sink
      refine Or.inl ⟨?_, ?_, ?_, ?_, ?_, ?_, hswept, ?_⟩
      · rw [hsink]
        exact hopen.sink
      · rw [hactive]
        exact hopen.active
      · rw [hanswers]
        exact hopen.answers
      · rw [hfed]
        exact hopen.fed
      · rw [hinvoked]
        exact hopen.invoked
      · rw [hunstarted]
        exact untold_nil
      · intro d hd
        rw [hd] at hnew
        exact hnew d List.mem_cons_self
    · have hquiet : s.reader.unstarted i = [] := Reader.unstarted_of_quiet hold i
      refine Or.inr ⟨Or.inr ⟨hunstarted, ?_⟩, Or.inl ?_⟩
      · rcases hclosed.told with ⟨⟨data, hdata⟩, -⟩ | ⟨-, htold⟩
        · rw [hquiet] at hdata
          cases hdata
        · rw [Told, hinvoked, hactive]
          exact htold
      · rw [hsink]
        exact hclosed.sink.resolve_right (not_atLast_of_quiet hold)
  early := by
    intro hunder hne
    rw [hcall] at hunder hne
    obtain ⟨hfed, hanswers⟩ := hearly hunder
    obtain ⟨hfed', hanswers', hinvoked', -⟩ := h.early hunder hne
    exact ⟨hfed.trans hfed', hanswers.trans hanswers', hinvoked.trans hinvoked', hnew⟩
  marked := by
    intro d rest hreader hcallback
    rw [hreader] at hnew
    exact absurd hcallback (hnew d List.mem_cons_self)

/-- A subscription whose sink is found while the reader is idle is open. -/
theorem SubOk.open_of_sink (h : s.SubOk i) (hquiet : Quiet s.reader)
    (hunder : (s.calls i).under = some (.subscribe, id)) (hsink : s.streamSinks id ≠ none) :
    s.FeedOpen i id := by
  rcases h.feed id hunder with hopen | hclosed
  · exact hopen
  · exact absurd (hclosed.sink.resolve_right (not_atLast_of_quiet hquiet)) hsink

/-- A chunk that no sink takes. -/
theorem SubOk.chunkDropped (h : s.SubOk i) {chunk : StreamChunkPayload}
    (hreader : s.reader = .reading) (hnone : s.streamSinks chunk.requestId = none) :
    SubOk { s.feed chunk with reader := .top } i := by
  refine h.reread (quiet_reading hreader) (fun _ hd => absurd hd List.not_mem_nil) rfl rfl rfl rfl
    (fun hunder => ⟨feed_fed_of_none hunder, rfl⟩) fun id hunder => ⟨rfl, fun hsink => ?_⟩
  refine ⟨feed_fed_of_ne hunder ?_, rfl⟩
  rintro rfl
  exact hsink hnone

/-- A chunk for the sink of a call: it goes on with the feed, or ends it. -/
theorem SubOk.chunkTaken (h : s.SubOk i) (hids : s.Ids) {chunk : StreamChunkPayload}
    {sink : StreamSink} (hreader : s.reader = .reading)
    (hsink : s.streamSinks chunk.requestId = some sink) :
    SubOk { (s.feed chunk).putSink chunk.requestId (sinkFed sink chunk) with
      reader := .delivering (chunkDelivery sink chunk) .copied [] } i := by
  have howner := hids.sinks _ _ hsink
  have hquiet := quiet_reading hreader
  by_cases hown : sink.callback = i ∧ sink.subscription = true
  · obtain ⟨rfl, hsub⟩ := hown
    have hunder : (s.calls sink.callback).under = some (.subscribe, chunk.requestId) := by
      rw [howner, hsub]
      rfl
    have hopen := h.open_of_sink hquiet hunder (by rw [hsink]; exact Option.some_ne_none _)
    refine ⟨fun id' hunder' => ?_, fun hnone => ?_, fun d rest hd => by cases hd⟩
    · have heq : id' = chunk.requestId := by
        have := hunder'.symm.trans hunder
        cases this
        rfl
      subst heq
      have hcopied : ((Reader.delivering (chunkDelivery sink chunk) .copied []).unstarted
          sink.callback) = [(chunk.data, chunk.isLast)] :=
        (Reader.unstarted_copied _).trans (if_pos rfl)
      cases hlast : chunk.isLast with
      | false =>
        rw [hlast] at hcopied
        refine Or.inl ⟨?_, hopen.active, hopen.answers, ?_, hopen.invoked, ?_, rfl,
          fun d hd => by cases hd⟩
        · change Function.update s.streamSinks chunk.requestId _ chunk.requestId ≠ none
          rw [Function.update_self]
          exact Option.some_ne_none _
        · have hfed : (s.feed chunk).fed sink.callback = _ := feed_fed_of_under hunder
          change Untold ((s.feed chunk).fed sink.callback)
          rw [hfed, hlast]
          exact hopen.fed.append untold_singleton
        · rw [hcopied]
          exact untold_singleton
      | true =>
        rw [hlast] at hcopied
        exact Or.inr ⟨Or.inl ⟨⟨_, hcopied⟩, hopen.invoked⟩,
          Or.inr (Or.inl ⟨_, _, rfl, rfl, rfl, hlast⟩)⟩
    · exact absurd (hunder.symm.trans hnone) (Option.some_ne_none _)
  · have hother : ∀ id, (s.calls i).under = some (.subscribe, id) → id ≠ chunk.requestId := by
      intro id hunder
      refine ne_of_under hids hunder howner ?_
      by_cases hcallback : sink.callback = i
      · refine Or.inr fun hkind => hown ⟨hcallback, ?_⟩
        cases hsub : sink.subscription with
        | true => rfl
        | false =>
          rw [hsub] at hkind
          cases hkind
      · exact Or.inl hcallback
    by_cases hcallback : sink.callback = i
    · -- the chunk is for a `get_stream`
      subst hcallback
      refine ⟨fun id hunder => ?_, fun hunder => ?_, fun d rest hd => by cases hd⟩
      · have heq := hunder.symm.trans howner
        exact absurd (congrArg Prod.snd (Option.some.inj heq)) (hother id hunder)
      · exact absurd (howner.symm.trans hunder) (Option.some_ne_none _)
    · refine h.reread hquiet ?_ rfl rfl rfl rfl (fun hunder => ⟨feed_fed_of_none hunder, rfl⟩)
        fun id hunder => ?_
      · intro d hd
        rw [List.mem_singleton.mp hd]
        exact hcallback
      · exact ⟨Function.update_of_ne (hother id hunder) .., fun _ =>
          ⟨feed_fed_of_ne hunder (hother id hunder), rfl⟩⟩

/-- A RESPONSE that is not for a subscription. -/
theorem SubOk.answered (h : s.SubOk i) (resp : ResponsePayload) (hreader : s.reader = .reading)
    (hnew : s'.reader = .top) (hcalls : s'.calls = s.calls) (hfed : s'.fed = s.fed)
    (hinvoked : s'.invoked = s.invoked) (hactive : s'.active = s.active)
    (hanswers : s'.answers = (s.answer resp).answers)
    (hsinks : ∀ id, id ≠ resp.requestId → s'.streamSinks id = s.streamSinks id)
    (hother : ∀ id, (s.calls i).under = some (.subscribe, id) → id = resp.requestId →
      s.streamSinks id = none ∧ s'.streamSinks id = none) : s'.SubOk i := by
  refine h.reread (quiet_reading hreader) ?_ (by rw [hnew]; rfl) (congrFun hcalls i)
    (congrFun hinvoked i) (congrFun hactive i) (fun hunder => ⟨congrFun hfed i, ?_⟩)
    fun id hunder => ?_
  · rw [hnew]
    exact fun _ hd => absurd hd List.not_mem_nil
  · rw [hanswers]
    exact answer_answers_of_none hunder
  · by_cases hid : id = resp.requestId
    · obtain ⟨hnone, hnone'⟩ := hother id hunder hid
      exact ⟨hnone'.trans hnone.symm, fun hsink => absurd hnone hsink⟩
    · refine ⟨hsinks id hid, fun _ => ⟨congrFun hfed i, ?_⟩⟩
      rw [hanswers]
      exact answer_answers_of_ne hunder hid

/-- A RESPONSE for a subscription refuses it. -/
theorem SubOk.refused (h : s.SubOk i) (hids : s.Ids) {resp : ResponsePayload} {sink : StreamSink}
    (hreader : s.reader = .reading) (hsink : s.streamSinks resp.requestId = some sink)
    (hsub : sink.subscription = true) :
    SubOk { (s.answer resp).eraseSink resp.requestId with
      reader := .delivering (refusalDelivery sink resp) .copied [] } i := by
  have howner := hids.sinks _ _ hsink
  rw [hsub] at howner
  have hquiet := quiet_reading hreader
  by_cases hcallback : sink.callback = i
  · subst hcallback
    have hopen := h.open_of_sink hquiet howner (by rw [hsink]; exact Option.some_ne_none _)
    refine ⟨fun id' hunder' => ?_, fun hnone => ?_, fun d rest hd => by cases hd⟩
    · have heq : id' = resp.requestId :=
        congrArg Prod.snd (Option.some.inj (hunder'.symm.trans howner))
      subst heq
      refine Or.inr ⟨Or.inl ⟨⟨[], ?_⟩, hopen.invoked⟩, Or.inl (Function.update_self ..)⟩
      exact (Reader.unstarted_copied _).trans (if_pos rfl)
    · exact absurd (howner.symm.trans hnone) (Option.some_ne_none _)
  · have hother : ∀ id, (s.calls i).under = some (.subscribe, id) → id ≠ resp.requestId :=
      fun id hunder => ne_of_under hids hunder howner (Or.inl hcallback)
    refine h.reread hquiet ?_ rfl rfl rfl rfl (fun hunder => ⟨rfl, answer_answers_of_none hunder⟩)
      fun id hunder => ?_
    · intro d hd
      rw [List.mem_singleton.mp hd]
      exact hcallback
    · exact ⟨Function.update_of_ne (hother id hunder) .., fun _ =>
        ⟨rfl, answer_answers_of_ne hunder (hother id hunder)⟩⟩

/-- The callback is what the reader is about to call. -/
theorem mem_unstarted {d : Delivery} {stage : Stage} {rest : List Delivery}
    (hstage : stage ≠ .running) :
    (d.data, d.closed) ∈ (Reader.delivering d stage rest).unstarted d.callback := by
  rw [Reader.unstarted_cons hstage, if_pos rfl]
  exact List.mem_cons_self

theorem SubOk.afterMark (h : s.SubOk i) {d : Delivery} {rest : List Delivery}
    (hreader : s.reader = .delivering d .copied rest) (hmarks : d.marks = true) :
    SubOk { s with
      active := Function.update s.active d.callback false
      reader := .delivering d .marked rest } i := by
  have hunstarted : (Reader.delivering d .marked rest).unstarted i = s.reader.unstarted i := by
    rw [hreader]
    rfl
  have hclosed : d.closed = true := (Bool.and_eq_true_iff.mp hmarks).2
  have hactive : s.active i = false → Function.update s.active d.callback false i = false := by
    intro hi
    by_cases hcallback : i = d.callback
    · rw [hcallback]
      exact Function.update_self ..
    · exact (Function.update_of_ne hcallback ..).trans hi
  refine ⟨fun id hunder => ?_, fun hunder hne => ?_, fun d' rest' hd hcallback => ?_⟩
  · rcases h.feed id hunder with hopen | hclosed'
    · have hcallback : i ≠ d.callback := by
        rintro rfl
        have huntold := hopen.unstarted
        rw [hreader] at huntold
        have := huntold _ (mem_unstarted (by decide))
        rw [hclosed] at this
        cases this
      refine Or.inl ⟨hopen.sink, ?_, hopen.answers, hopen.fed, hopen.invoked, ?_, ?_,
        fun d hd => by cases hd⟩
      · exact (Function.update_of_ne hcallback ..).trans hopen.active
      · exact hunstarted ▸ hopen.unstarted
      · have hswept := hopen.swept
        rw [hreader] at hswept
        exact hswept
    · refine Or.inr ⟨?_, ?_⟩
      · rcases hclosed'.told with ⟨hdata, huntold⟩ | ⟨hnil, htold⟩
        · exact Or.inl ⟨hunstarted.symm ▸ hdata, huntold⟩
        · exact Or.inr ⟨hunstarted.trans hnil, htold.1, hactive htold.2⟩
      · rcases hclosed'.sink with hnone | ⟨d', stage, hd', hlast⟩ | ⟨d', hd', -⟩
        · exact Or.inl hnone
        · rw [hreader] at hd'
          cases hd'
          exact Or.inr (Or.inl ⟨d, .marked, rfl, hlast⟩)
        · rw [hreader] at hd'
          cases hd'
  · obtain ⟨hfed, hanswers, hinvoked, hnone⟩ := h.early hunder hne
    rw [hreader] at hnone
    exact ⟨hfed, hanswers, hinvoked, hnone⟩
  · cases hd
    rw [← hcallback]
    exact Function.update_self ..

/-- A call that says that the feed is closed begins when the wrapper has stored `active = false`. -/
theorem SubOk.inactive_of_closed {d : Delivery} (h : s.SubOk d.callback) (hids : s.Ids)
    {stage : Stage}
    {rest : List Delivery} (hreader : s.reader = .delivering d stage rest)
    (hstage : stage = .marked ∨ (stage = .copied ∧ d.marks = false))
    (hunder : (s.calls d.callback).under = some (.subscribe, id)) (hclosed : d.closed = true) :
    s.active d.callback = false := by
  rcases hstage with rfl | ⟨rfl, hmarks⟩
  · exact h.marked d rest hreader rfl
  · -- a last call of a subscription is marked first
    have hown := hids.deliveries d (by rw [hreader]; exact List.mem_cons_self)
    rw [CallPlace.asks_of_under hunder] at hown
    cases hsub : d.subscription with
    | false =>
      rw [hsub] at hown
      cases hown
    | true =>
      rw [Delivery.marks, hsub, hclosed] at hmarks
      cases hmarks

/-- The callback begins. -/
theorem SubOk.begun (h : s.SubOk i) (hids : s.Ids) {d : Delivery} {stage : Stage}
    {rest : List Delivery} (hreader : s.reader = .delivering d stage rest)
    (hstage : stage = .marked ∨ (stage = .copied ∧ d.marks = false)) :
    SubOk { s with
      invoked := Function.update s.invoked d.callback
        (s.invoked d.callback ++ [(d.data, d.closed)])
      reader := .delivering d .running rest } i := by
  have hstage' : stage ≠ .running := by
    rcases hstage with rfl | ⟨rfl, -⟩ <;> decide
  have hcons : s.reader.unstarted i = (if d.callback = i then [(d.data, d.closed)] else []) ++
      (Reader.delivering d .running rest).unstarted i := by
    rw [hreader]
    exact Reader.unstarted_cons hstage' i
  have hnotMarked : ∀ d' rest', Reader.delivering d .running rest = .delivering d' .marked rest' →
      d'.callback = i → s.active i = false := fun _ _ hd => by cases hd
  have hearly : (s.calls i).under = none → (∀ kind id o, s.calls i ≠ .over kind id o) →
      d.callback ≠ i := by
    intro hunder hne
    have hnone := (h.early hunder hne).2.2.2
    rw [hreader] at hnone
    exact hnone d List.mem_cons_self
  have hatLast : s.reader.AtLast i → (Reader.delivering d .running rest).AtLast i := by
    rintro (⟨d', stage', hd', hlast⟩ | ⟨d', hd', -⟩)
    · rw [hreader] at hd'
      cases hd'
      exact Or.inl ⟨d, .running, rfl, hlast⟩
    · rw [hreader] at hd'
      cases hd'
  by_cases hcallback : d.callback = i
  · subst hcallback
    rw [if_pos rfl] at hcons
    have hinvoked : Function.update s.invoked d.callback
        (s.invoked d.callback ++ [(d.data, d.closed)]) d.callback
        = s.invoked d.callback ++ [(d.data, d.closed)] := Function.update_self ..
    refine ⟨fun id hunder => ?_, fun hunder hne => absurd rfl (hearly hunder hne), hnotMarked⟩
    rcases h.feed id hunder with hopen | hclosed
    · have huntold := hopen.unstarted
      rw [hcons] at huntold
      refine Or.inl ⟨hopen.sink, hopen.active, hopen.answers, hopen.fed, ?_, ?_, ?_,
        fun d hd => by cases hd⟩
      · intro p hp
        have hp' : p ∈ s.invoked d.callback ++ [(d.data, d.closed)] := hinvoked ▸ hp
        rcases List.mem_append.mp hp' with hp' | hp'
        · exact hopen.invoked p hp'
        · exact huntold p (List.mem_append_left _ hp')
      · exact fun p hp => huntold p (List.mem_append_right _ hp)
      · have hswept := hopen.swept
        rw [hreader] at hswept
        exact hswept
    · rcases hclosed.told with ⟨⟨data, hdata⟩, huntold⟩ | ⟨hnil, -⟩
      · rw [hcons] at hdata
        obtain ⟨hhead, hrest⟩ := List.cons.inj hdata
        have hactive : s.active d.callback = false :=
          h.inactive_of_closed hids hreader hstage hunder (congrArg Prod.snd hhead)
        refine Or.inr ⟨Or.inr ⟨hrest, ⟨s.invoked d.callback, data, ?_, huntold⟩, hactive⟩, ?_⟩
        · rw [← hhead]
          exact hinvoked
        · exact hclosed.sink.imp_right hatLast
      · rw [hcons] at hnil
        cases hnil
  · rw [if_neg hcallback, List.nil_append] at hcons
    have hinvoked : Function.update s.invoked d.callback
        (s.invoked d.callback ++ [(d.data, d.closed)]) i = s.invoked i :=
      Function.update_of_ne (fun heq => hcallback heq.symm) ..
    refine ⟨fun id hunder => ?_, fun hunder hne => ?_, hnotMarked⟩
    · rcases h.feed id hunder with hopen | hclosed
      · refine Or.inl ⟨hopen.sink, hopen.active, hopen.answers, hopen.fed, ?_, ?_, ?_,
          fun d hd => by cases hd⟩
        · exact fun p hp => hopen.invoked p (hinvoked ▸ hp)
        · exact hcons ▸ hopen.unstarted
        · have hswept := hopen.swept
          rw [hreader] at hswept
          exact hswept
      · refine Or.inr ⟨?_, hclosed.sink.imp_right hatLast⟩
        rcases hclosed.told with ⟨⟨data, hdata⟩, huntold⟩ | ⟨hnil, ⟨before, data, htold, hb⟩, hact⟩
        · exact Or.inl ⟨⟨data, hcons.symm.trans hdata⟩, fun p hp => huntold p (hinvoked ▸ hp)⟩
        · exact Or.inr ⟨hcons.symm.trans hnil, ⟨before, data, hinvoked.trans htold, hb⟩, hact⟩
    · obtain ⟨hfed, hanswers, hinvoked', hnone⟩ := h.early hunder hne
      rw [hreader] at hnone
      exact ⟨hfed, hanswers, hinvoked.trans hinvoked', hnone⟩

theorem afterCallback_ne_marked {d d' : Delivery} {rest rest' : List Delivery} :
    afterCallback d rest ≠ .delivering d' .marked rest' := by
  simp only [afterCallback]
  split
  · split <;> simp
  · simp
  · split <;> simp

theorem afterCallback_swept {d : Delivery} {rest : List Delivery} (h : d.origin ≠ .exit) :
    (afterCallback d rest).swept = false := by
  simp only [afterCallback]
  split
  · split <;> rfl
  · rfl
  · next horigin => exact absurd horigin h

theorem eq_of_afterCallback_ending {d d' : Delivery} {rest : List Delivery}
    (h : afterCallback d rest = .ending d') : d' = d ∧ d.closed = true := by
  simp only [afterCallback] at h
  split at h
  · split at h
    · next hclosed =>
      cases h
      exact ⟨rfl, hclosed⟩
    · cases h
  · cases h
  · split at h
    · cases h
    · cases h

theorem SubOk.returned (h : s.SubOk i) (hdeliveries : s.Deliveries) {d : Delivery}
    {rest : List Delivery} (hreader : s.reader = .delivering d .running rest) :
    SubOk { s with
      finished := Function.update s.finished d.callback
        (s.finished d.callback ++ [(d.data, d.closed)])
      reader := afterCallback d rest } i := by
  have hordered := hdeliveries.ordered
  rw [hreader] at hordered
  have hunstarted : (afterCallback d rest).unstarted i = s.reader.unstarted i := by
    rw [hreader]
    exact Reader.unstarted_afterCallback hordered i
  refine ⟨fun id hunder => ?_, fun hunder hne => ?_, fun d' rest' hd => ?_⟩
  · rcases h.feed id hunder with hopen | hclosed
    · have hswept := hopen.swept
      rw [hreader] at hswept
      refine Or.inl ⟨hopen.sink, hopen.active, hopen.answers, hopen.fed, hopen.invoked, ?_, ?_, ?_⟩
      · exact hunstarted ▸ hopen.unstarted
      · refine afterCallback_swept fun horigin => ?_
        exact absurd hswept (by simp [Reader.swept, horigin])
      · intro d' hd' hcallback
        obtain ⟨rfl, hclosed⟩ := eq_of_afterCallback_ending hd'
        -- a call of the callback that closes the feed would be among those that have begun
        have hinvoked := hopen.invoked
        rw [hdeliveries.invoked i, hreader] at hinvoked
        have hrunning : (d'.data, d'.closed) ∈ (Reader.delivering d' .running rest).running i := by
          rw [Reader.running, if_pos hcallback]
          exact List.mem_cons_self
        have := hinvoked _ (List.mem_append_right _ hrunning)
        rw [hclosed] at this
        cases this
    · refine Or.inr ⟨?_, ?_⟩
      · rcases hclosed.told with ⟨⟨data, hdata⟩, huntold⟩ | ⟨hnil, htold⟩
        · exact Or.inl ⟨⟨data, hunstarted.trans hdata⟩, huntold⟩
        · exact Or.inr ⟨hunstarted.trans hnil, htold⟩
      · rcases hclosed.sink with hnone | ⟨d', stage, hd', hcallback, horigin, hlast⟩ | ⟨d', hd', -⟩
        · exact Or.inl hnone
        · rw [hreader] at hd'
          cases hd'
          refine Or.inr (Or.inr ⟨d, ?_, hcallback⟩)
          simp only [afterCallback, horigin]
          exact if_pos hlast
        · rw [hreader] at hd'
          cases hd'
  · obtain ⟨hfed, hanswers, hinvoked, hnone⟩ := h.early hunder hne
    rw [hreader] at hnone
    exact ⟨hfed, hanswers, hinvoked, fun d' hd' => hnone d' (mem_deliveries_afterCallback hd')⟩
  · exact absurd hd afterCallback_ne_marked

/-- The sink whose feed is over is erased, if it belongs to a subscription. -/
theorem SubOk.afterLast (h : s.SubOk i) (hids : s.Ids) {d : Delivery}
    (hreader : s.reader = .ending d) :
    SubOk { (if d.subscription = true then s.eraseSink d.id else s) with reader := .top } i := by
  have hown := hids.deliveries d (by rw [hreader]; exact List.mem_cons_self)
  have hunstarted : s.reader.unstarted i = [] := by
    rw [hreader]
    rfl
  -- the sink of another call stays, and that of the subscription itself goes
  have hsinks : ∀ id, (s.calls i).under = some (.subscribe, id) →
      (d.callback = i → (if d.subscription = true then s.eraseSink d.id else s).streamSinks id
        = none) ∧
      (d.callback ≠ i → (if d.subscription = true then s.eraseSink d.id else s).streamSinks id
        = s.streamSinks id) := by
    intro id hunder
    constructor
    · rintro rfl
      rw [CallPlace.asks_of_under hunder] at hown
      cases hsub : d.subscription with
      | false =>
        rw [hsub] at hown
        cases hown
      | true =>
        have hid : id = d.id := congrArg Prod.snd (Option.some.inj hown)
        rw [if_pos rfl, hid]
        exact Function.update_self ..
    · intro hne
      split
      · exact streamSinks_update_of_subscribe hids hown (Or.inl hne) id hunder
      · rfl
  have hsame : (if d.subscription = true then s.eraseSink d.id else s).calls = s.calls ∧
      (if d.subscription = true then s.eraseSink d.id else s).active = s.active ∧
      (if d.subscription = true then s.eraseSink d.id else s).answers = s.answers ∧
      (if d.subscription = true then s.eraseSink d.id else s).fed = s.fed ∧
      (if d.subscription = true then s.eraseSink d.id else s).invoked = s.invoked := by
    split
    · exact ⟨rfl, rfl, rfl, rfl, rfl⟩
    · exact ⟨rfl, rfl, rfl, rfl, rfl⟩
  obtain ⟨hcalls, hactive, hanswers, hfed, hinvoked⟩ := hsame
  refine ⟨fun id hunder => ?_, fun hunder hne => ?_, fun d' rest' hd => by cases hd⟩
  · rw [hcalls] at hunder
    rcases h.feed id hunder with hopen | hclosed
    · have hne := hopen.ending d hreader
      refine Or.inl ⟨?_, ?_, ?_, ?_, ?_, untold_nil, rfl, fun d' hd' => by cases hd'⟩
      · exact ((hsinks id hunder).2 hne).symm ▸ hopen.sink
      · exact hactive.symm ▸ hopen.active
      · exact hanswers.symm ▸ hopen.answers
      · exact hfed.symm ▸ hopen.fed
      · exact hinvoked.symm ▸ hopen.invoked
    · refine Or.inr ⟨Or.inr ⟨rfl, ?_⟩, Or.inl ?_⟩
      · rcases hclosed.told with ⟨⟨data, hdata⟩, -⟩ | ⟨-, htold⟩
        · rw [hunstarted] at hdata
          cases hdata
        · rw [Told, hinvoked, hactive]
          exact htold
      · by_cases hcallback : d.callback = i
        · exact (hsinks id hunder).1 hcallback
        · refine ((hsinks id hunder).2 hcallback).trans (hclosed.sink.resolve_right ?_)
          rintro (⟨d', stage, hd', -⟩ | ⟨d', hd', hcallback'⟩)
          · rw [hreader] at hd'
            cases hd'
          · rw [hreader] at hd'
            cases hd'
            exact hcallback hcallback'
  · rw [hcalls] at hunder hne
    obtain ⟨hfed', hanswers', hinvoked', -⟩ := h.early hunder hne
    exact ⟨(congrFun hfed i).trans hfed', (congrFun hanswers i).trans hanswers',
      (congrFun hinvoked i).trans hinvoked', fun _ hd => absurd hd List.not_mem_nil⟩

theorem Ids.nodup (h : s.Ids) (hlt : s.drawn.length < 2 ^ 64) : s.drawn.Nodup := by
  rw [h.drawn]
  refine List.Nodup.map_on ?_ List.nodup_range
  intro m hm n hn heq
  rw [List.mem_range] at hm hn
  rw [← UInt64.toNat_inj, UInt64.toNat_ofNat', UInt64.toNat_ofNat'] at heq
  omega

theorem unstarted_sweep : s.sweep.reader.unstarted i =
    (s.closedCbs.filter fun d => d.callback = i).map fun d => (d.data, d.closed) := by
  simp only [sweep]
  split
  · next heq =>
    rw [heq]
    rfl
  · next d rest heq =>
    rw [heq]
    rfl

/-- What the reader owes on its way out, it owes to the owner of a sink. -/
theorem Ids.under_of_mem_closedCbs (hids : s.Ids) {d : Delivery} (h : d ∈ s.closedCbs) :
    (s.calls d.callback).under = some (.subscribe, d.id) ∧ s.streamSinks d.id ≠ none := by
  obtain ⟨sink, hsink, hsub, heq⟩ := mem_closedCbs h
  have howner := hids.sinks _ _ hsink
  rw [hsub] at howner
  have hcallback : d.callback = sink.callback := by rw [heq]
  rw [hcallback]
  exact ⟨howner, by rw [hsink]; exact Option.some_ne_none _⟩

/-- An open subscription is owed one call on the reader's way out. -/
theorem unstarted_sweep_of_open (hids : s.Ids) (hlt : s.drawn.length < 2 ^ 64)
    (hunder : (s.calls i).under = some (.subscribe, id)) (hsink : s.streamSinks id ≠ none) :
    s.sweep.reader.unstarted i = [([], true)] := by
  obtain ⟨sink, hsome⟩ := Option.ne_none_iff_exists'.mp hsink
  have howner := hids.sinks _ _ hsome
  have hcallback : sink.callback = i := hids.under_inj howner hunder
  have hsub : sink.subscription = true := by
    rw [hcallback, hunder] at howner
    cases hsub : sink.subscription with
    | true => rfl
    | false =>
      rw [hsub] at howner
      cases howner
  have hone : s.closedCbs.filter (fun d => d.callback = i)
      = [⟨sink.callback, id, [], true, true, .exit⟩] := by
    refine filter_filterMap_eq_singleton (a := id) (hids.nodup hlt)
      (hids.asks_drawn _ _ _ (CallPlace.asks_of_under hunder)) ?_ (decide_eq_true hcallback) ?_
    · simp only [hsome]
      exact if_pos hsub
    · intro id' hid' d hd hcallback'
      have hmem : d ∈ s.closedCbs := List.mem_filterMap.mpr ⟨id', hid', hd⟩
      have hid : id' = d.id := by
        split at hd
        · obtain ⟨-, heq⟩ := Option.ite_none_right_eq_some.mp hd
          cases heq
          rfl
        · cases hd
      have hunder' := (hids.under_of_mem_closedCbs hmem).1
      rw [of_decide_eq_true hcallback', hunder] at hunder'
      rw [hid]
      exact (congrArg Prod.snd (Option.some.inj hunder')).symm
  rw [unstarted_sweep, hone]
  rfl

theorem SubOk.swept (h : s.SubOk i) (hids : s.Ids) (hlt : s.drawn.length < 2 ^ 64)
    (hreader : s.reader = .dying) : s.sweep.SubOk i := by
  have hquiet : Quiet s.reader := Or.inr (Or.inr (Or.inr hreader))
  have hsub : ∀ id, (s.calls i).under = some (.subscribe, id) → s.sweep.streamSinks id = none := by
    intro id hunder
    rw [Option.eq_none_iff_forall_not_mem]
    intro sink hsink
    obtain ⟨hsink, hkind⟩ := sweep_streamSinks_eq_some.mp hsink
    have howner := hids.sinks _ _ hsink
    have hi : sink.callback = i := hids.under_inj howner hunder
    rw [hi, hunder, hkind] at howner
    cases howner
  refine ⟨fun id hunder => Or.inr ⟨?_, Or.inl (hsub id hunder)⟩, fun hunder hne => ?_, ?_⟩
  · rcases h.feed id hunder with hopen | hclosed
    · exact Or.inl ⟨⟨[], unstarted_sweep_of_open hids hlt hunder hopen.sink⟩, hopen.invoked⟩
    · have hnone := hclosed.sink.resolve_right (not_atLast_of_quiet hquiet)
      refine Or.inr ⟨Reader.unstarted_eq_nil fun d hd hcallback => ?_, ?_⟩
      · obtain ⟨hunder', hsink⟩ := hids.under_of_mem_closedCbs (mem_deliveries_sweep hd)
        have hunder₀ : (s.calls i).under = some (.subscribe, id) := hunder
        rw [hcallback, hunder₀] at hunder'
        have hid : id = d.id := congrArg Prod.snd (Option.some.inj hunder')
        exact hsink (hid ▸ hnone)
      · rcases hclosed.told with ⟨⟨data, hdata⟩, -⟩ | ⟨-, htold⟩
        · rw [Reader.unstarted_of_quiet hquiet] at hdata
          cases hdata
        · exact htold
  · obtain ⟨hfed, hanswers, hinvoked, -⟩ := h.early hunder hne
    refine ⟨hfed, hanswers, hinvoked, fun d hd hcallback => ?_⟩
    have hunder' := (hids.under_of_mem_closedCbs (mem_deliveries_sweep hd)).1
    rw [hcallback] at hunder'
    exact absurd (hunder'.symm.trans hunder) (Option.some_ne_none _)
  · intro d rest hd
    simp only [sweep] at hd
    split at hd
    · cases hd
    · cases hd

/-! ### Steps -/

/-- What holds in every state that an orderly run reaches. -/
structure Feeds (s : ClientCalls) : Prop where
  ids : s.Ids
  deliveries : s.Deliveries
  subs : ∀ i, s.SubOk i
  unsubscribed : s.Unsubscribed

theorem feeds_start : Feeds {} where
  ids := ids_start
  deliveries := deliveries_start
  subs := subOk_start
  unsubscribed := unsubscribed_start

/-- **An orderly step keeps every subscription in order.** -/
theorem SubOk.step (h : s.SubOk i) (hfeeds : s.Feeds) (hstep : s.OrderlyStep a s') :
    s'.SubOk i := by
  obtain ⟨hstep, hguard⟩ := hstep
  obtain ⟨hlt, horderly⟩ := Bool.and_eq_true_iff.mp hguard
  have hids := hfeeds.ids
  have hlt : s.drawn.length + 1 < 2 ^ 64 := of_decide_eq_true hlt
  cases effect_of_step hstep with
  | moved hgoes => exact h.moved hgoes.under_eq hgoes.old_ne_over
  | @drew j kind hcall =>
    have hdraw : s.draw.SubOk i := h.congr rfl rfl rfl rfl rfl rfl fun _ _ => rfl
    have hfound : s.draw.calls j = .found kind := hcall
    exact hdraw.moved (by rw [hfound]; rfl) (by simp [hfound])
  | @registered j kind id hcall =>
    refine h.registered hids hcall ?_
    rintro rfl
    simp only [orderlyAct, hcall] at horderly
    exact Bool.not_eq_true' _ ▸ horderly
  | gaveUp hcall => exact h.over hids _ (by rw [hcall]; rfl) _
  | getSlept _ => exact h.congr rfl rfl rfl rfl rfl rfl fun _ _ => rfl
  | getOver hcall _ _ => exact h.over hids .get (by rw [hcall]; rfl) _
  | streamOver hcall _ =>
    refine h.over hids .getStream ?_ _
    rcases hcall with ⟨-, hcall, -⟩ | ⟨-, hcall⟩
    · rw [hcall]
      rfl
    · rw [hcall]
      rfl
  | unsubscribing _ _ hactive =>
    simp [orderlyAct, hactive] at horderly
  | unsubscribedAgain hj _ _ => exact h.moved (by rw [hj]; rfl) (by simp [hj])
  | unsubscribeErased hj _ => exact absurd hj (hfeeds.unsubscribed.unsubscribing _ _)
  | unsubscribeReturned hj _ => exact absurd hj (hfeeds.unsubscribed.erased _ _)
  | unsubscribeSent hj _ => exact absurd hj (hfeeds.unsubscribed.erased _ _)
  | drewOther => exact h.congr rfl rfl rfl rfl rfl rfl fun _ _ => rfl
  | quiet hr =>
    rcases hr with rfl | ⟨hold, hnew⟩
    · exact h.congr rfl rfl rfl rfl rfl rfl fun _ _ => rfl
    · refine h.reread hold (fun d hd => ?_) (not_swept_of_quiet hnew) rfl rfl rfl
        (fun _ => ⟨rfl, rfl⟩) fun _ _ => ⟨rfl, fun _ => ⟨rfl, rfl⟩⟩
      have hd' : d ∈ Reader.deliveries _ := hd
      rw [deliveries_of_quiet hnew] at hd'
      exact absurd hd' List.not_mem_nil
  | chunkDropped hreader hnone => exact h.chunkDropped hreader hnone
  | chunkTaken hreader hsink => exact h.chunkTaken hids hreader hsink
  | @stored resp hreader hpending =>
    refine h.answered resp hreader rfl rfl rfl rfl rfl rfl (fun _ _ => rfl) ?_
    rintro id hunder rfl
    obtain ⟨j, hj⟩ := hids.pending _ hpending
    exact absurd rfl (ne_of_under hids hunder hj (Or.inr (by decide)))
  | @ignored resp hreader _ hnone =>
    refine h.answered resp hreader rfl rfl rfl rfl rfl rfl (fun _ _ => rfl) ?_
    rintro id - rfl
    exact ⟨hnone, hnone⟩
  | refused hreader _ hsink hsub => exact h.refused hids hreader hsink hsub
  | @streamFailed resp sink hreader _ hsink hsub =>
    refine h.answered resp hreader rfl rfl rfl rfl rfl rfl
      (fun id hne => Function.update_of_ne hne ..) ?_
    rintro id hunder rfl
    have howner := hids.sinks _ _ hsink
    rw [hsub] at howner
    exact absurd rfl (ne_of_under hids hunder howner (Or.inr (by decide)))
  | marked hreader hmarks => exact h.afterMark hreader hmarks
  | invoked hreader hstage => exact h.begun hids hreader hstage
  | callbackReturned hreader => exact h.returned hfeeds.deliveries hreader
  | ended hreader => exact h.afterLast hids hreader
  | swept hreader => exact h.swept hids (by omega) hreader

/-- No call of a callback is taken back. -/
theorem invoked_step (hstep : s.Step a s') (i : ℕ) : s.invoked i <+: s'.invoked i := by
  cases effect_of_step hstep with
  | @registered j kind id _ => cases kind <;> exact List.prefix_rfl
  | @gaveUp j kind id _ => cases kind <;> exact List.prefix_rfl
  | @ended d _ =>
    split
    · exact List.prefix_rfl
    · exact List.prefix_rfl
  | @invoked d stage rest _ _ =>
    by_cases hi : i = d.callback
    · subst hi
      change s.invoked d.callback <+: Function.update s.invoked d.callback _ d.callback
      rw [Function.update_self]
      exact List.prefix_append _ _
    · exact ⟨[], (List.append_nil _).trans (Function.update_of_ne hi ..).symm⟩
  | _ => exact List.prefix_rfl

/-- The handle of a subscription stays. -/
theorem sent_step (hstep : s.Step a s') (h : s.calls i = .sent .subscribe id) :
    s'.calls i = .sent .subscribe id := by
  have hstay : ∀ {t : ClientCalls} {j : ℕ} {c : CallPlace}, t.calls = s.calls →
      s.calls j ≠ .sent .subscribe id → (t.move j c).calls i = .sent .subscribe id := by
    intro t j c hcalls hj
    have hne : i ≠ j := by
      rintro rfl
      exact hj h
    rw [move_calls_of_ne hne, hcalls]
    exact h
  cases effect_of_step hstep with
  | moved hgoes =>
    refine hstay rfl fun hj => ?_
    rw [hj] at hgoes
    cases hgoes
  | drew hcall => exact hstay rfl (by simp [hcall])
  | @registered j kind id hcall => exact hstay (s.register_calls j id kind) (by simp [hcall])
  | @gaveUp j kind id hcall => exact hstay (s.unregister_calls id kind) (by simp [hcall])
  | getOver hcall _ _ => exact hstay rfl (by simp [hcall])
  | streamOver hcall _ =>
    refine hstay rfl ?_
    rcases hcall with ⟨-, hcall, -⟩ | ⟨-, hcall⟩
    · simp [hcall]
    · simp [hcall]
  | unsubscribing hj _ _ => exact hstay rfl (by simp [hj])
  | unsubscribedAgain hj _ _ => exact hstay rfl (by simp [hj])
  | unsubscribeErased hj _ => exact hstay rfl (by simp [hj])
  | unsubscribeReturned hj _ => exact hstay rfl (by simp [hj])
  | unsubscribeSent hj _ => exact hstay rfl (by simp [hj])
  | @ended d _ =>
    obtain ⟨sinks, heq⟩ := s.eraseLast_eq d
    rw [heq]
    exact h
  | getSlept _ | drewOther | quiet _ | chunkDropped _ _ | chunkTaken _ _ | stored _ _
  | ignored _ _ _ | refused _ _ _ _ | streamFailed _ _ _ _ | marked _ _ | invoked _ _
  | callbackReturned _ | swept _ => exact h

/-- `unsubscribe` is called on a handle. -/
theorem sent_of_unsubscribe {j : ℕ} (hstep : s.Step (.unsubscribe j i) s') :
    ∃ id, s.calls i = .sent .subscribe id := by
  have h : s.step (.unsubscribe j i) = some s' := hstep
  simp only [ClientCalls.step] at h
  split at h
  · next id _ hhandle => exact ⟨id, CallPlace.handle_eq_some.mp hhandle⟩
  · cases h

/-- What was told stays told: nothing more is owed and nothing more has begun. -/
theorem SubOk.told_of_le (h : s'.SubOk i) (hcall : s'.calls i = .sent .subscribe id)
    (htold : s.Told i) (hle : s.invoked i <+: s'.invoked i) :
    s'.reader.unstarted i = [] ∧ s'.Told i := by
  have hnot : ¬ Untold (s'.invoked i) := by
    intro huntold
    exact not_untold_of_told htold fun p hp => huntold p (hle.subset hp)
  rcases h.feed id (by rw [hcall]; rfl) with hopen | hclosed
  · exact absurd hopen.invoked hnot
  · rcases hclosed.told with ⟨-, huntold⟩ | hdone
    · exact absurd huntold hnot
    · exact hdone

/-- Two histories that were both told, one the beginning of the other, are the same. -/
theorem Told.eq_of_le (h : s.Told i) (h' : s'.Told i) (hle : s.invoked i <+: s'.invoked i) :
    s'.invoked i = s.invoked i := by
  obtain ⟨⟨before, data, heq, hb⟩, -⟩ := h
  obtain ⟨⟨before', data', heq', hb'⟩, -⟩ := h'
  obtain ⟨more, hmore⟩ := hle
  rcases List.eq_nil_or_concat more with hnil | ⟨init, p, hconcat⟩
  · rw [← hmore, hnil, List.append_nil]
  · -- a further call would come after one that closed the feed
    exfalso
    rw [hconcat, heq, heq', List.concat_eq_append, ← List.append_assoc] at hmore
    obtain ⟨hinit, -⟩ := List.append_inj' hmore rfl
    have hmem : (data, true) ∈ before' := by
      rw [← hinit]
      simp
    have := hb' _ hmem
    cases this

/-- Whoever returns from `unsubscribe` in an orderly run finds the feed told. -/
theorem Unsubscribed.step (h : s.Unsubscribed) (hfeeds : s.Feeds) (hstep : s.OrderlyStep a s')
    (hsubs : ∀ i, s'.SubOk i) : s'.Unsubscribed := by
  obtain ⟨hstep, hguard⟩ := hstep
  obtain ⟨-, horderly⟩ := Bool.and_eq_true_iff.mp hguard
  -- a call that does not come to `unsubscribed` in this step was told before, or is not there
  have hkeep : ∀ target, (∃ id, s.calls target = .sent .subscribe id) → s.Told target →
      (∃ id, s'.calls target = .sent .subscribe id) ∧ s'.reader.unstarted target = [] ∧
        s'.Told target := by
    rintro target ⟨id, hcall⟩ htold
    have hcall' := sent_step hstep hcall
    exact ⟨⟨id, hcall'⟩, (hsubs target).told_of_le hcall' htold (invoked_step hstep target)⟩
  have hcases : ∀ j, s'.calls j = s.calls j ∨
      ((∀ target, s'.calls j ≠ .unsubscribing target) ∧
        (∀ target, s'.calls j ≠ .unsubscribeErased target) ∧
        ∀ target, s'.calls j = .unsubscribed target → a = .unsubscribe j target) := by
    have hmove : ∀ {t : ClientCalls} {k : ℕ} {c : CallPlace}, t.calls = s.calls →
        (∀ target, c ≠ .unsubscribing target) → (∀ target, c ≠ .unsubscribeErased target) →
        (∀ target, c = .unsubscribed target → a = .unsubscribe k target) → ∀ j,
        (t.move k c).calls j = s.calls j ∨
          ((∀ target, (t.move k c).calls j ≠ .unsubscribing target) ∧
            (∀ target, (t.move k c).calls j ≠ .unsubscribeErased target) ∧
            ∀ target, (t.move k c).calls j = .unsubscribed target → a = .unsubscribe j target) := by
      intro t k c hcalls hing herased hed j
      by_cases hjk : j = k
      · subst hjk
        rw [move_calls_self]
        exact Or.inr ⟨hing, herased, hed⟩
      · rw [move_calls_of_ne hjk, hcalls]
        exact Or.inl rfl
    cases effect_of_step hstep with
    | moved hgoes =>
      have hne := hgoes.ne_unsubscribe
      exact hmove rfl (fun target => (hne target).1) (fun target => (hne target).2.1)
        fun target heq => absurd heq (hne target).2.2
    | drew _ => exact hmove rfl (by simp) (by simp) (by simp)
    | @registered j kind id _ =>
      exact hmove (s.register_calls j id kind) (by simp) (by simp) (by simp)
    | @gaveUp j kind id _ =>
      exact hmove (s.unregister_calls id kind) (by simp) (by simp) (by simp)
    | getOver _ _ _ => exact hmove rfl (by simp) (by simp) (by simp)
    | streamOver _ _ => exact hmove rfl (by simp) (by simp) (by simp)
    | unsubscribing _ _ hactive => simp [orderlyAct, hactive] at horderly
    | unsubscribedAgain _ _ _ => exact hmove rfl (by simp) (by simp) (by simp)
    | unsubscribeErased hj _ => exact absurd hj (h.unsubscribing _ _)
    | unsubscribeReturned hj _ => exact absurd hj (h.erased _ _)
    | unsubscribeSent hj _ => exact absurd hj (h.erased _ _)
    | @ended d _ =>
      intro j
      obtain ⟨sinks, heq⟩ := s.eraseLast_eq d
      rw [heq]
      exact Or.inl rfl
    | _ => exact fun _ => Or.inl rfl
  refine ⟨fun j target hj => ?_, fun j target hj => ?_, fun j target hj => ?_⟩
  · rcases hcases j with hsame | ⟨hing, -, -⟩
    · exact h.unsubscribing j target (hsame ▸ hj)
    · exact hing target hj
  · rcases hcases j with hsame | ⟨-, herased, -⟩
    · exact h.erased j target (hsame ▸ hj)
    · exact herased target hj
  · rcases hcases j with hsame | ⟨-, -, hed⟩
    · obtain ⟨hcall, -, htold⟩ := h.told j target (hsame ▸ hj)
      exact hkeep target hcall htold
    · obtain rfl := hed target hj
      obtain ⟨hinactive, hnil⟩ := Bool.and_eq_true_iff.mp horderly
      have hactive : s.active target = false := Bool.not_eq_true' _ ▸ hinactive
      obtain ⟨id, hcall⟩ := sent_of_unsubscribe hstep
      refine hkeep target ⟨id, hcall⟩ ?_
      rcases (hfeeds.subs target).feed id (by rw [hcall]; rfl) with hopen | hclosed
      · rw [hopen.active] at hactive
        cases hactive
      · rcases hclosed.told with ⟨⟨data, hdata⟩, -⟩ | ⟨-, htold⟩
        · rw [hdata] at hnil
          cases hnil
        · exact htold

theorem Feeds.step (h : s.Feeds) (hstep : s.OrderlyStep a s') : s'.Feeds := by
  have hsubs : ∀ i, s'.SubOk i := fun i => (h.subs i).step h hstep
  have hlt := of_decide_eq_true (Bool.and_eq_true_iff.mp hstep.2).1
  exact
    { ids := h.ids.step hstep.1 (drawn_lt hstep.1 hlt)
      deliveries := h.deliveries.step hstep.1
      subs := hsubs
      unsubscribed := h.unsubscribed.step h hstep hsubs }

/-- A feed that is over was told. -/
theorem Feeds.told (h : s.Feeds) (hcall : s.calls i = .sent .subscribe id) (hended : s.Ended i) :
    s.Told i := by
  rcases hended with hexited | ⟨hread, hnone⟩ | ⟨j, hj⟩
  · rcases (h.subs i).feed id (by rw [hcall]; rfl) with hopen | hclosed
    · have hswept := hopen.swept
      rw [hexited] at hswept
      cases hswept
    · rcases hclosed.told with ⟨⟨data, hdata⟩, -⟩ | ⟨-, htold⟩
      · rw [hexited] at hdata
        cases hdata
      · exact htold
  · rcases (h.subs i).feed id (by rw [hcall]; rfl) with hopen | hclosed
    · rcases hread with ⟨data, hdata⟩ | hanswers
      · exact absurd (hopen.fed _ hdata) (by simp)
      · exact absurd hopen.answers hanswers
    · rcases hclosed.told with ⟨⟨data, hdata⟩, -⟩ | ⟨-, htold⟩
      · rw [Reader.unstarted_eq_nil hnone] at hdata
        cases hdata
      · exact htold
  · exact (h.unsubscribed.told j i hj).2.2

end

end ClientCalls

open ClientCalls

/-- **A subscription is told once, and last, that its feed is over**, in every run in which
subscriptions register before the reader has looked at the sinks for the last time and are not
unsubscribed before the last call of their callback has begun. -/
theorem subscription_told_once (acts : List Act) (s : ClientCalls)
    (hrun : Run OrderlyStep {} acts s) : s.ToldOnce OrderlyStep := by
  have hfeeds : s.Feeds := hrun.preserves feeds_start fun _ _ _ h hstep => h.step hstep
  intro i id hcall hended
  have htold := hfeeds.told hcall hended
  refine ⟨htold, fun more s' hmore => ?_⟩
  have hstays : s'.Feeds ∧ s'.calls i = .sent .subscribe id ∧ s.invoked i <+: s'.invoked i := by
    refine hmore.preserves (I := fun t => t.Feeds ∧ t.calls i = .sent .subscribe id ∧
      s.invoked i <+: t.invoked i) ⟨hfeeds, hcall, List.prefix_rfl⟩ ?_
    rintro t a t' ⟨ht, hcall', hle⟩ hstep
    exact ⟨ht.step hstep, sent_step hstep.1 hcall', hle.trans (invoked_step hstep.1 i)⟩
  obtain ⟨hfeeds', hcall', hle⟩ := hstays
  exact htold.eq_of_le ((hfeeds'.subs i).told_of_le hcall' htold hle).2 hle

/-! ### Two subscriptions -/

namespace TwoFeeds

/-- Call `i` subscribes. -/
def subscribes (i : ℕ) : List Act := [.lookup i .subscribe, .draw i, .register i, .send i true]

def message : StreamChunkPayload := { requestId := 1, data := [7] }

def lastMessage : StreamChunkPayload := { requestId := 1, isLast := true }

/-- The host ends the first feed, whose handle is destroyed while the callback still runs; the
second feed ends with the connection. -/
def orderlyEnd : Option ClientCalls :=
  exec (guardFun step orderly) {}
    (subscribes 0 ++ subscribes 1 ++
      [.readerTop, .readChunk message, .invoke, .callbackReturns,
        .readerTop, .readChunk lastMessage, .mark, .invoke, .unsubscribe 2 0, .callbackReturns,
        .endLast, .readerTop, .readFails, .die, .sweep, .mark, .invoke, .callbackReturns])

theorem orderlyEnd_isSome : orderlyEnd.isSome = true := by decide +kernel

/-- A subscription is given up while its feed is open. -/
def unsubscribedEnd : Option ClientCalls :=
  exec step {} (subscribes 0 ++ [.unsubscribe 1 0, .unsubscribeErase 1, .unsubscribeReturn 1])

theorem unsubscribedEnd_isSome : unsubscribedEnd.isSome = true := by decide +kernel

/-- The reader leaves between the lookup and the registration. -/
def lateEnd : Option ClientCalls :=
  exec step {} [.lookup 0 .subscribe, .draw 0, .readerTop, .readFails, .die, .sweep, .register 0,
    .send 0 true]

/-- The reader has copied a callback out, and calls it when `unsubscribe` has returned. -/
def calledEnd : Option ClientCalls :=
  exec step {} (subscribes 0 ++ [.readerTop, .readChunk message, .unsubscribe 1 0,
    .unsubscribeErase 1, .unsubscribeReturn 1, .invoke])

end TwoFeeds

open TwoFeeds

theorem subscription_told_once_two :
    (orderlyEnd.get orderlyEnd_isSome).reader = .exited ∧
      (orderlyEnd.get orderlyEnd_isSome).invoked 0 = [([7], false), ([], true)] ∧
      (orderlyEnd.get orderlyEnd_isSome).invoked 1 = [([], true)] ∧
      (orderlyEnd.get orderlyEnd_isSome).ToldOnce OrderlyStep :=
  ⟨by decide +kernel, by decide +kernel, by decide +kernel,
    subscription_told_once _ _ (run_of_exec_guardFun (Option.some_get orderlyEnd_isSome).symm)⟩

/-- `unsubscribe` has returned and the callback was never told. -/
theorem unsubscribe_tells_nothing :
    ¬ ∀ (acts : List Act) (s : ClientCalls), Run Step {} acts s → s.ToldOnce Step := by
  intro hclaim
  have hcall : (unsubscribedEnd.get unsubscribedEnd_isSome).calls 0 = .sent .subscribe 1 := by
    decide +kernel
  have hreturned : (unsubscribedEnd.get unsubscribedEnd_isSome).calls 1 = .unsubscribed 0 := by
    decide +kernel
  have hinvoked : (unsubscribedEnd.get unsubscribedEnd_isSome).invoked 0 = [] := by decide +kernel
  obtain ⟨⟨⟨before, data, heq, -⟩, -⟩, -⟩ := hclaim _ _
    (run_of_exec (Option.some_get unsubscribedEnd_isSome).symm) 0 1 hcall
    (Or.inr (Or.inr ⟨1, hreturned⟩))
  rw [hinvoked] at heq
  exact absurd heq.symm (List.append_ne_nil_of_right_ne_nil _ (List.cons_ne_nil _ _))

-- the reader is gone, and the subscription thinks that it is active
example : lateEnd.map (fun s => (s.calls 0, s.reader, s.active 0))
    = some (.sent .subscribe 1, .exited, true) := by
  decide +kernel

-- a call of the callback begins after `unsubscribe`
example : calledEnd.map (fun s => (s.calls 1, s.invoked 0))
    = some (.unsubscribed 0, [([7], false)]) := by
  decide +kernel

end Epx
