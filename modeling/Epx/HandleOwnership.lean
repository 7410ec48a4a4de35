import Epx.Handles

/-!
# Handles close what they own

When the last handle of a subscription is gone its sink is too, and the host was told; when the last
handle of an output stream is gone the stream has its last chunk. Each thing has one handle at most,
so it is enough to look at the operation that gives a handle up: a destructor closes first.

An assignment does not. `operator=` is the compiler's, and the subscription or the stream that the
target owned is left as it was.

## Main definitions

* `Handles.Closed` — what nobody owns any more is closed
* `Handles.tidy` — no assignment to a handle that still has something to close
* `Handles.SubsOwned`, `Handles.OutputsOwned` — the invariants

## Main results

* `Handles.SubsOwned.step`, `Handles.OutputsOwned.step`
* `handles_close`
* `assignment_leaks`
-/

namespace Epx

open Codec Transition Owner

namespace Handles

/-- **What nobody owns any more is closed.** A subscription has no sink, and while the connection is
alive and the host has not closed the feed, one request has told it to. A stream has one last chunk,
as its final one, whose number is that of the calls of `write`. -/
structure Closed (s : Handles) : Prop where
  subscriptions : ∀ key ∈ s.subscribed, ¬ Held s.subscriptions key →
    (s.feed key).sink = false ∧
      ((s.feed key).alive = true → (s.feed key).closedByHost = false →
        (s.feed key).unsubscribes = 1)
  outputs : ∀ key ∈ s.opened, ¬ Held s.outputs key →
    ∃ before last, (s.output key).chunks = before ++ [last] ∧
      (∀ chunk ∈ before, chunk.isLast = false) ∧
      last.isLast = true ∧ before.length = s.writes key ∧ last.seq.toNat = s.writes key

/-! ### The condition -/

/-- A subscription with nothing left to do: it is not active, and the reader is not about to erase
its sink. -/
def settled (s : Handles) (key : HandleKey) : Bool :=
  !s.active key && !decide ((s.conns key.1).closing = some key.2)

/-- The connection on which an operation draws an id. -/
def draws (s : Handles) : Act → Option ℕ
  | .subscribe _ c _ | .subscribeFails c _ | .openStream _ c _ | .drawOther c => some c
  | .unsubscribe i | .destroy i =>
    match s.subscriptions i with
    | some (some key) => some key.1
    | _ => none
  | _ => none

/-- A handle that is assigned to has nothing to close; a subscription is not destroyed while the
reader is about to erase its sink; a stream has fewer than `2 ^ 32` writes. -/
def tidyAct (s : Handles) : Act → Bool
  | .moveAssign dst src =>
    match s.subscriptions dst with
    | some (some key) => decide (dst = src) || s.settled key
    | _ => true
  | .destroy i =>
    match s.subscriptions i with
    | some (some key) => !decide ((s.conns key.1).closing = some key.2)
    | _ => true
  | .moveAssignStream dst src =>
    match s.outputs dst with
    | some (some key) => decide (dst = src) || (s.streams key).finished
    | _ => true
  | .write i _ =>
    match s.outputs i with
    | some (some key) => decide (s.writes key + 1 < 2 ^ 32)
    | _ => true
  | _ => true

/-- In addition, ids that are drawn are new. -/
def tidy (s : Handles) (a : Act) : Bool :=
  s.tidyAct a &&
    match s.draws a with
    | some c => !decide ((s.conns c).nextRequestId ∈ (s.conns c).drawn)
    | none => true

abbrev TidyStep : Handles → Act → Handles → Prop := Guarded Step fun s a => tidy s a = true

/-! ### Subscriptions -/

/-- A subscription with a handle or without one is in order. -/
structure SubsOwned (s : Handles) : Prop where
  unshared : Unshared s.subscriptions
  known : ∀ key, Held s.subscriptions key → key ∈ s.subscribed
  drawn : ∀ key ∈ s.subscribed, key.2 ∈ (s.conns key.1).drawn
  blank : ∀ key : HandleKey, key.2 ∉ (s.conns key.1).drawn → (s.feed key).Blank
  feeds : ∀ key ∈ s.subscribed, (s.feed key).Ok
  dropped : ∀ key ∈ s.subscribed, ¬ Held s.subscriptions key →
    (s.feed key).active = false ∧ (s.feed key).closing = false

/-- A step that makes no subscription, and gives up a handle only when there is nothing to close. -/
structure SubsKept (s s' : Handles) : Prop where
  feeds : ∀ key, FeedStep (s.feed key) (s'.feed key)
  subscribed : s'.subscribed = s.subscribed
  unshared : Unshared s'.subscriptions
  held : ∀ key, Held s'.subscriptions key → Held s.subscriptions key
  lost : ∀ key, Held s.subscriptions key → ¬ Held s'.subscriptions key →
    (s'.feed key).active = false ∧ (s'.feed key).closing = false

theorem subsOwned_start : SubsOwned {} where
  unshared := unshared_none
  known key h := by
    obtain ⟨i, hi⟩ := h
    cases hi
  drawn _ h := absurd h List.not_mem_nil
  blank _ _ := ⟨rfl, rfl, rfl, rfl, rfl, rfl⟩
  feeds _ h := absurd h List.not_mem_nil
  dropped _ h := absurd h List.not_mem_nil

section

variable {s s' : Handles} {a : Act}

theorem SubsOwned.kept (h : s.SubsOwned) (hkept : SubsKept s s')
    (hdrawn : ∀ c id, id ∈ (s.conns c).drawn → id ∈ (s'.conns c).drawn) : s'.SubsOwned where
  unshared := hkept.unshared
  known key hkey := by
    rw [hkept.subscribed]
    exact h.known key (hkept.held key hkey)
  drawn key hkey := by
    rw [hkept.subscribed] at hkey
    exact hdrawn _ _ (h.drawn key hkey)
  blank key hkey := (hkept.feeds key).blank (h.blank key fun hmem => hkey (hdrawn _ _ hmem))
  feeds key hkey := by
    rw [hkept.subscribed] at hkey
    exact (hkept.feeds key).ok (h.feeds key hkey)
  dropped key hkey hnot := by
    rw [hkept.subscribed] at hkey
    by_cases hheld : Held s.subscriptions key
    · exact hkept.lost key hheld hnot
    · obtain ⟨hactive, hclosing⟩ := h.dropped key hkey hheld
      exact (hkept.feeds key).settled (h.feeds key hkey) hactive hclosing

/-- A new subscription, under an id that was not drawn before. -/
theorem SubsOwned.subscribe (h : s.SubsOwned) {i c : ℕ} {topic : Bytes}
    (hi : s.subscriptions i = none)
    (hfresh : (s.conns c).nextRequestId ∉ (s.conns c).drawn) :
    (s.subscribe i c topic).SubsOwned := by
  have hblank := h.blank (c, (s.conns c).nextRequestId) hfresh
  have hnew : (c, (s.conns c).nextRequestId) ∉ s.subscribed := fun hmem => hfresh (h.drawn _ hmem)
  have hdrawn :
    ∀ {c' id}, id ∈ (s.conns c').drawn → id ∈ ((s.subscribe i c topic).conns c').drawn :=
    fun hmem => mem_drawn _ rfl (Or.inr rfl) hmem
  have hself : (s.conns c).nextRequestId ∈ ((s.subscribe i c topic).conns c).drawn := by
    have hconn : (s.subscribe i c topic).conns c = _ := setConn_conns_self _
    rw [hconn]
    exact List.mem_append_right _ List.mem_cons_self
  have hfeed : ∀ key, key ≠ (c, (s.conns c).nextRequestId) →
      (s.subscribe i c topic).feed key = s.feed key := by
    intro key hne
    rw [feed_subscribe, if_neg hne]
  have hheld : ∀ key, Held (s.subscribe i c topic).subscriptions key ↔
      key = (c, (s.conns c).nextRequestId) ∨ Held s.subscriptions key :=
    fun _ => held_construct_some hi
  exact
    { unshared := h.unshared.construct fun key heq hkey => by
        cases heq
        exact hnew (h.known _ hkey)
      known := fun _ => mem_of_held_construct hi h.known
      drawn := by
        intro key hkey
        rcases List.mem_cons.mp hkey with rfl | hold
        · exact hself
        · exact hdrawn (h.drawn key hold)
      blank := by
        intro key hkey
        have hne : key ≠ (c, (s.conns c).nextRequestId) := by
          rintro rfl
          exact hkey hself
        rw [hfeed key hne]
        exact h.blank key fun hmem => hkey (hdrawn hmem)
      feeds := by
        intro key hkey
        by_cases hne : key = (c, (s.conns c).nextRequestId)
        · rw [feed_subscribe, if_pos hne, hne]
          exact hblank.subscribe
        · rw [hfeed key hne]
          exact h.feeds key ((List.mem_cons.mp hkey).resolve_left hne)
      dropped := by
        intro key hkey hnot
        have hne : key ≠ (c, (s.conns c).nextRequestId) :=
          fun heq => hnot ((hheld key).mpr (Or.inl heq))
        rw [hfeed key hne]
        exact h.dropped key ((List.mem_cons.mp hkey).resolve_left hne)
          fun hold => hnot ((hheld key).mpr (Or.inr hold)) }

/-- The handles stay where they are. -/
theorem SubsOwned.keptPlaces (h : s.SubsOwned) (hfeeds : ∀ key, FeedStep (s.feed key) (s'.feed key))
    (hsubscribed : s'.subscribed = s.subscribed) (hplaces : s'.subscriptions = s.subscriptions) :
    SubsKept s s' where
  feeds := hfeeds
  subscribed := hsubscribed
  unshared := by rw [hplaces]; exact h.unshared
  held := by rw [hplaces]; exact fun _ hkey => hkey
  lost key hkey hnot := by
    rw [hplaces] at hnot
    exact absurd hkey hnot

theorem unsubscribe_active (key : HandleKey) : ((s.unsubscribe key).feed key).active = false := by
  rw [unsubscribe]
  by_cases hactive : s.active key = true
  · rw [if_pos hactive]
    exact Function.update_self ..
  · rw [if_neg hactive]
    exact Bool.not_eq_true _ ▸ hactive

theorem unsubscribe_same (key : HandleKey) : (s.unsubscribe key).subscribed = s.subscribed ∧
    (s.unsubscribe key).subscriptions = s.subscriptions ∧
    ∀ c, ((s.unsubscribe key).conns c).closing = (s.conns c).closing := by
  rw [unsubscribe]
  split
  · refine ⟨rfl, rfl, fun c => ?_⟩
    by_cases hc : c = key.1
    · subst hc
      have hconn : (s.setConn key.1 ((s.conns key.1).unsubscribe key.2)).conns key.1 = _ :=
        setConn_conns_self _
      change ((s.setConn key.1 ((s.conns key.1).unsubscribe key.2)).conns key.1).closing = _
      rw [hconn, HandleConn.unsubscribe]
      split
      · rfl
      · rfl
    · exact congrArg HandleConn.closing (setConn_conns_of_ne hc _)
  · exact ⟨rfl, rfl, fun _ => rfl⟩

/-- **A tidy step keeps the subscriptions in order.** -/
theorem SubsOwned.step (h : s.SubsOwned) (hstep : s.TidyStep a s') : s'.SubsOwned := by
  obtain ⟨hstep, htidy⟩ := hstep
  obtain ⟨hact, hdraws⟩ := Bool.and_eq_true_iff.mp htidy
  have hdrawn : ∀ c id, id ∈ (s.conns c).drawn → id ∈ (s'.conns c).drawn :=
    fun c id hid => drawn_step hstep hid
  cases effect_of_step hstep with
  | subscribed hi =>
    refine h.subscribe hi fun hmem => ?_
    simp [draws, hmem] at hdraws
  | subscribeFailed =>
    exact h.kept (h.keptPlaces (fun _ => .of_eq feed_subscribeFails) rfl rfl) hdrawn
  | @emptied i hi =>
    have hheld : ∀ key, Held (construct s.subscriptions i none) key ↔ Held s.subscriptions key := by
      intro key
      rw [held_construct hi]
      exact ⟨fun hkey => hkey.resolve_left (by simp), Or.inr⟩
    refine h.kept ⟨fun _ => .same, rfl, h.unshared.construct (by simp), fun key => (hheld key).mp,
      fun key hkey hnot => absurd ((hheld key).mpr hkey) hnot⟩ hdrawn
  | @moved _ dst src ha =>
    refine h.kept ⟨fun _ => .same, rfl, h.unshared.moveTo,
      fun key hkey => ((held_moveTo h.unshared).mp hkey).1, fun key hkey hnot => ?_⟩ hdrawn
    -- the handle that was lost is the target of an assignment
    have hdst : dst ≠ src ∧ s.subscriptions dst = some (some key) := by
      by_contra hno
      refine hnot ((held_moveTo h.unshared).mpr ⟨hkey, fun hne hdst => hno ⟨hne, hdst⟩⟩)
    rcases ha with ⟨-, hnone⟩ | rfl
    · rw [hnone] at hdst
      cases hdst.2
    · simp only [tidyAct, hdst.2, Bool.or_eq_true, decide_eq_true_eq] at hact
      have hsettled := hact.resolve_left hdst.1
      simpa [settled, feed, HandleConn.feed] using hsettled
  | @unsubscribed i key hi =>
    exact h.kept (h.keptPlaces (fun _ => feed_unsubscribe key) (unsubscribe_same key).1
      (unsubscribe_same key).2.1) hdrawn
  | @destroyed i key hi =>
    refine h.kept ⟨fun _ => feed_unsubscribe key, (unsubscribe_same key).1, h.unshared.destroy,
      fun key' hkey => ((held_destroy h.unshared).mp hkey).1, fun key' hkey hnot => ?_⟩ hdrawn
    have hlost : s.subscriptions i = some (some key') := by
      by_contra hno
      exact hnot ((held_destroy h.unshared).mpr ⟨hkey, hno⟩)
    rw [hi] at hlost
    cases hlost
    refine ⟨unsubscribe_active key, ?_⟩
    simp only [tidyAct, hi, Bool.not_eq_true', decide_eq_false_iff_not] at hact
    refine decide_eq_false ?_
    rw [(unsubscribe_same key).2.2]
    exact hact
  | @destroyedEmpty i hi =>
    have hheld : ∀ key, Held (destroy s.subscriptions i) key ↔ Held s.subscriptions key := by
      intro key
      rw [held_destroy h.unshared, hi]
      exact and_iff_left (by simp)
    refine h.kept ⟨fun _ => .same, rfl, h.unshared.destroy, fun key => (hheld key).mp,
      fun key hkey hnot => absurd ((hheld key).mpr hkey) hnot⟩ hdrawn
  | opened _ => exact h.kept (h.keptPlaces (fun _ => .of_eq (feed_draw rfl rfl rfl)) rfl rfl) hdrawn
  | drew => exact h.kept (h.keptPlaces (fun _ => .of_eq (feed_draw rfl rfl rfl)) rfl rfl) hdrawn
  | movedStream _ | destroyedEmptyStream _ | nothing =>
    exact h.kept (h.keptPlaces (fun _ => .same) rfl rfl) hdrawn
  | @wrote i key data _ =>
    refine h.kept (h.keptPlaces (fun _ => .of_eq feed_write) ?_ ?_) hdrawn
    · rw [write]
      split <;> rfl
    · rw [write]
      split <;> rfl
  | @finished i key _ | @destroyedStream i key _ =>
    refine h.kept (h.keptPlaces (fun _ => .of_eq feed_finish) ?_ ?_) hdrawn
    · rw [finish]
      split <;> rfl
    · rw [finish]
      split <;> rfl
  | lastChunk hidle hsink =>
    exact h.kept (h.keptPlaces (fun _ => feed_lastChunk hidle hsink) rfl rfl) hdrawn
  | erasedLast hclosing =>
    exact h.kept (h.keptPlaces (fun _ => feed_eraseLast hclosing) rfl rfl) hdrawn
  | refused hidle hsink =>
    exact h.kept (h.keptPlaces (fun _ => feed_refusal hidle hsink) rfl rfl) hdrawn
  | told htelling => exact h.kept (h.keptPlaces (fun _ => feed_tell htelling) rfl rfl) hdrawn
  | died => exact h.kept (h.keptPlaces (fun _ => feed_die) rfl rfl) hdrawn
  | swept halive => exact h.kept (h.keptPlaces (fun _ => feed_sweep halive) rfl rfl) hdrawn

/-! ### Output streams -/

/-- An output stream with a handle or without one is in order. -/
structure OutputsOwned (s : Handles) : Prop where
  unshared : Unshared s.outputs
  known : ∀ key, Held s.outputs key → key ∈ s.opened
  drawn : ∀ key ∈ s.opened, key.2 ∈ (s.conns key.1).drawn
  blank : ∀ key : HandleKey, key.2 ∉ (s.conns key.1).drawn →
    (s.output key).chunks = [] ∧ s.writes key = 0
  streams : ∀ key ∈ s.opened, (s.output key).Ok
  dropped : ∀ key ∈ s.opened, ¬ Held s.outputs key → (s.output key).impl.finished = true

/-- A step that opens no stream, works on streams that were opened, and gives up a handle only when
its stream is finished. -/
structure OutputsKept (s s' : Handles) : Prop where
  streams : ∀ key, OutputStep (s.output key) (s'.output key)
  others : ∀ key, key ∉ s.opened → s'.output key = s.output key
  opened : s'.opened = s.opened
  unshared : Unshared s'.outputs
  held : ∀ key, Held s'.outputs key → Held s.outputs key
  lost : ∀ key, Held s.outputs key → ¬ Held s'.outputs key → (s'.output key).impl.finished = true

theorem outputsOwned_start : OutputsOwned {} where
  unshared := unshared_none
  known key h := by
    obtain ⟨i, hi⟩ := h
    cases hi
  drawn _ h := absurd h List.not_mem_nil
  blank _ _ := ⟨rfl, rfl⟩
  streams _ h := absurd h List.not_mem_nil
  dropped _ h := absurd h List.not_mem_nil

theorem OutputsOwned.kept (h : s.OutputsOwned) (hkept : OutputsKept s s')
    (hdrawn : ∀ c id, id ∈ (s.conns c).drawn → id ∈ (s'.conns c).drawn) : s'.OutputsOwned where
  unshared := hkept.unshared
  known key hkey := by
    rw [hkept.opened]
    exact h.known key (hkept.held key hkey)
  drawn key hkey := by
    rw [hkept.opened] at hkey
    exact hdrawn _ _ (h.drawn key hkey)
  blank key hkey := by
    have hold : key.2 ∉ (s.conns key.1).drawn := fun hmem => hkey (hdrawn _ _ hmem)
    have heq := hkept.others key fun hmem => hold (h.drawn key hmem)
    obtain ⟨hchunks, hwrites⟩ := h.blank key hold
    exact ⟨(congrArg OutputView.chunks heq).trans hchunks,
      (congrArg OutputView.writes heq).trans hwrites⟩
  streams key hkey := by
    rw [hkept.opened] at hkey
    exact (hkept.streams key).ok (h.streams key hkey)
  dropped key hkey hnot := by
    rw [hkept.opened] at hkey
    by_cases hheld : Held s.outputs key
    · exact hkept.lost key hheld hnot
    · exact (hkept.streams key).finished (h.dropped key hkey hheld)

/-- A new stream, under an id that was not drawn before. -/
theorem OutputsOwned.openStream (h : s.OutputsOwned) {i c : ℕ} {endpoint : Bytes}
    (hi : s.outputs i = none) (hfresh : (s.conns c).nextRequestId ∉ (s.conns c).drawn) :
    (s.openStream i c endpoint).OutputsOwned := by
  obtain ⟨hchunks, hwrites⟩ := h.blank (c, (s.conns c).nextRequestId) hfresh
  have hnew : (c, (s.conns c).nextRequestId) ∉ s.opened := fun hmem => hfresh (h.drawn _ hmem)
  have hdrawn : ∀ {c' id}, id ∈ (s.conns c').drawn →
      id ∈ ((s.openStream i c endpoint).conns c').drawn :=
    fun hmem => mem_drawn _ rfl (Or.inr rfl) hmem
  have hself : (s.conns c).nextRequestId ∈ ((s.openStream i c endpoint).conns c).drawn := by
    have hconn : (s.openStream i c endpoint).conns c = _ := setConn_conns_self _
    rw [hconn]
    exact List.mem_append_right _ List.mem_cons_self
  have houtput : ∀ key, key ≠ (c, (s.conns c).nextRequestId) →
      (s.openStream i c endpoint).output key = s.output key := by
    intro key hne
    exact output_eq _ rfl (Function.update_of_ne hne ..) rfl fun _ => rfl
  have houtput_self : (s.openStream i c endpoint).output (c, (s.conns c).nextRequestId)
      = ⟨{ endpoint := endpoint }, [], 0⟩ := by
    have hconn : (s.openStream i c endpoint).conns c = (s.conns c).draw := setConn_conns_self _
    have hstream : (s.openStream i c endpoint).streams (c, (s.conns c).nextRequestId)
        = { endpoint := endpoint } := Function.update_self ..
    rw [output, hstream]
    refine congrArg₂ (OutputView.mk _) ?_ hwrites
    rw [hconn]
    exact hchunks
  have hheld : ∀ key, Held (s.openStream i c endpoint).outputs key ↔
      key = (c, (s.conns c).nextRequestId) ∨ Held s.outputs key :=
    fun _ => held_construct_some hi
  exact
    { unshared := h.unshared.construct fun key heq hkey => by
        cases heq
        exact hnew (h.known _ hkey)
      known := fun _ => mem_of_held_construct hi h.known
      drawn := by
        intro key hkey
        rcases List.mem_cons.mp hkey with rfl | hold
        · exact hself
        · exact hdrawn (h.drawn key hold)
      blank := by
        intro key hkey
        have hne : key ≠ (c, (s.conns c).nextRequestId) := by
          rintro rfl
          exact hkey hself
        rw [houtput key hne]
        exact h.blank key fun hmem => hkey (hdrawn hmem)
      streams := by
        intro key hkey
        by_cases hne : key = (c, (s.conns c).nextRequestId)
        · rw [hne, houtput_self]
          exact ⟨fun _ => ⟨fun _ hmem => absurd hmem List.not_mem_nil, rfl, rfl⟩,
            fun h => by cases h⟩
        · rw [houtput key hne]
          exact h.streams key ((List.mem_cons.mp hkey).resolve_left hne)
      dropped := by
        intro key hkey hnot
        have hne : key ≠ (c, (s.conns c).nextRequestId) :=
          fun heq => hnot ((hheld key).mpr (Or.inl heq))
        rw [houtput key hne]
        exact h.dropped key ((List.mem_cons.mp hkey).resolve_left hne)
          fun hold => hnot ((hheld key).mpr (Or.inr hold)) }

/-- Nothing happens to output streams. -/
theorem OutputsOwned.keptSame (h : s.OutputsOwned) (houtput : ∀ key, s'.output key = s.output key)
    (hopened : s'.opened = s.opened) (hplaces : s'.outputs = s.outputs) : OutputsKept s s' where
  streams key := .of_eq (houtput key)
  others key _ := houtput key
  opened := hopened
  unshared := by rw [hplaces]; exact h.unshared
  held := by rw [hplaces]; exact fun _ hkey => hkey
  lost key hkey hnot := by
    rw [hplaces] at hnot
    exact absurd hkey hnot

theorem unsubscribe_outputs (key : HandleKey) : (s.unsubscribe key).opened = s.opened ∧
    (s.unsubscribe key).outputs = s.outputs := by
  rw [unsubscribe]
  split
  · exact ⟨rfl, rfl⟩
  · exact ⟨rfl, rfl⟩

theorem finish_same (key : HandleKey) : (s.finish key).opened = s.opened ∧
    (s.finish key).outputs = s.outputs := by
  rw [finish]
  split
  · exact ⟨rfl, rfl⟩
  · exact ⟨rfl, rfl⟩

/-- **A tidy step keeps the output streams in order.** -/
theorem OutputsOwned.step (h : s.OutputsOwned) (hstep : s.TidyStep a s') : s'.OutputsOwned := by
  obtain ⟨hstep, htidy⟩ := hstep
  obtain ⟨hact, hdraws⟩ := Bool.and_eq_true_iff.mp htidy
  have hdrawn : ∀ c id, id ∈ (s.conns c).drawn → id ∈ (s'.conns c).drawn :=
    fun c id hid => drawn_step hstep hid
  have hne : ∀ {key key'}, Held s.outputs key' → key ∉ s.opened → key ≠ key' := by
    rintro key key' hheld hnot rfl
    exact hnot (h.known key hheld)
  cases effect_of_step hstep with
  | opened hi =>
    refine h.openStream hi fun hmem => ?_
    simp [draws, hmem] at hdraws
  | @movedStream _ dst src ha =>
    refine h.kept ⟨fun _ => .same, fun _ _ => rfl, rfl, h.unshared.moveTo,
      fun key hkey => ((held_moveTo h.unshared).mp hkey).1, fun key hkey hnot => ?_⟩ hdrawn
    have hdst : dst ≠ src ∧ s.outputs dst = some (some key) := by
      by_contra hno
      exact hnot ((held_moveTo h.unshared).mpr ⟨hkey, fun hne hdst => hno ⟨hne, hdst⟩⟩)
    rcases ha with ⟨-, hnone⟩ | rfl
    · rw [hnone] at hdst
      cases hdst.2
    · simp only [tidyAct, hdst.2, Bool.or_eq_true, decide_eq_true_eq] at hact
      exact hact.resolve_left hdst.1
  | @wrote i key data hi =>
    simp only [tidyAct, hi, decide_eq_true_eq] at hact
    have hsame : (s.write key data).opened = s.opened ∧ (s.write key data).outputs = s.outputs := by
      rw [write]
      split
      · exact ⟨rfl, rfl⟩
      · exact ⟨rfl, rfl⟩
    refine h.kept
      ⟨fun _ => output_write hact, fun key' hnot => output_write_of_ne (hne ⟨i, hi⟩ hnot),
      hsame.1, ?_, ?_, ?_⟩ hdrawn
    · rw [hsame.2]
      exact h.unshared
    · rw [hsame.2]
      exact fun _ hkey => hkey
    · rw [hsame.2]
      exact fun _ hkey hnot => absurd hkey hnot
  | @finished i key hi =>
    refine h.kept ⟨fun _ => output_finish, fun key' hnot => output_finish_of_ne (hne ⟨i, hi⟩ hnot),
      (finish_same key).1, ?_, ?_, ?_⟩ hdrawn
    · rw [(finish_same key).2]
      exact h.unshared
    · rw [(finish_same key).2]
      exact fun _ hkey => hkey
    · rw [(finish_same key).2]
      exact fun _ hkey hnot => absurd hkey hnot
  | @destroyedStream i key hi =>
    refine h.kept ⟨fun _ => output_finish, fun key' hnot => output_finish_of_ne (hne ⟨i, hi⟩ hnot),
      (finish_same key).1, h.unshared.destroy,
      fun key' hkey => ((held_destroy h.unshared).mp hkey).1,
      fun key' hkey hnot => ?_⟩ hdrawn
    have hlost : s.outputs i = some (some key') := by
      by_contra hno
      exact hnot ((held_destroy h.unshared).mpr ⟨hkey, hno⟩)
    rw [hi] at hlost
    cases hlost
    exact finish_finished
  | @destroyedEmptyStream i hi =>
    have hheld : ∀ key, Held (destroy s.outputs i) key ↔ Held s.outputs key := by
      intro key
      rw [held_destroy h.unshared, hi]
      exact and_iff_left (by simp)
    exact h.kept
      ⟨fun _ => .same, fun _ _ => rfl, rfl, h.unshared.destroy, fun key => (hheld key).mp,
      fun key hkey hnot => absurd ((hheld key).mpr hkey) hnot⟩ hdrawn
  | subscribed _ | subscribeFailed =>
    exact h.kept (h.keptSame (fun _ => output_of_requests _ rfl rfl rfl (Or.inr ⟨_, rfl⟩)) rfl rfl)
      hdrawn
  | @unsubscribed i key _ | @destroyed i key _ =>
    exact h.kept (h.keptSame (fun _ => output_unsubscribe key) (unsubscribe_outputs key).1
      (unsubscribe_outputs key).2) hdrawn
  | drew | lastChunk _ _ | erasedLast _ | refused _ _ | told _ | died | swept _ =>
    exact h.kept (h.keptSame (fun _ => output_of_requests _ rfl rfl rfl (Or.inl rfl)) rfl rfl)
      hdrawn
  | emptied _ | moved _ | destroyedEmpty _ | nothing =>
    exact h.kept (h.keptSame (fun _ => rfl) rfl rfl) hdrawn

end

end Handles

open Handles

/-- **Handles close what they own**, in every run in which no handle that still has something to
close is assigned to, no subscription is destroyed while the reader is about to erase its sink, no
stream has `2 ^ 32` writes, and the ids have not come round. -/
theorem handles_close (acts : List Act) (s : Handles) (hrun : Run TidyStep {} acts s) :
    s.Closed := by
  have howned : s.SubsOwned ∧ s.OutputsOwned :=
    hrun.preserves (I := fun s => s.SubsOwned ∧ s.OutputsOwned)
      ⟨subsOwned_start, outputsOwned_start⟩
      fun _ _ _ h hstep => ⟨h.1.step hstep, h.2.step hstep⟩
  obtain ⟨hsubs, houtputs⟩ := howned
  constructor
  · intro key hkey hnot
    obtain ⟨hactive, hclosing⟩ := hsubs.dropped key hkey hnot
    have hok := hsubs.feeds key hkey
    refine ⟨?_, hok.told hactive⟩
    rw [← Bool.not_eq_true]
    intro hsink
    rw [hok.sink hactive hsink] at hclosing
    cases hclosing
  · intro key hkey hnot
    exact (houtputs.streams key hkey).finished (houtputs.dropped key hkey hnot)

/-! ### One subscription and one stream -/

namespace OneHandle

/-- A subscription moves through two handles and is destroyed in the second; a stream is written to
twice and its handle is destroyed. -/
def tidyEnd : Option Handles :=
  exec (guardFun step tidy) {}
    [.subscribe 0 0 [], .empty 1, .moveAssign 1 0, .destroy 0, .destroy 1,
      .openStream 0 0 [], .write 0 [7], .moveConstructStream 1 0, .write 1 [8], .destroyStream 1]

theorem tidyEnd_isSome : tidyEnd.isSome = true := by decide +kernel

/-- An empty handle is assigned to one that owns a subscription. -/
def leaked : List Act := [.subscribe 0 0 [], .empty 1, .moveAssign 0 1]

def leakedEnd : Option Handles := exec step {} leaked

theorem leakedEnd_isSome : leakedEnd.isSome = true := by decide +kernel

theorem leakedEnd_places (i : ℕ) :
    (leakedEnd.get leakedEnd_isSome).subscriptions i = if i < 2 then some none else none := by
  change (moveTo (construct (construct (fun _ => none) 0 (some (0, 1))) 1 none) 0 1 :
    Places ℕ HandleKey) i
    = _
  match i with
  | 0 => rfl
  | 1 => rfl
  | i + 2 =>
    rw [if_neg (by omega)]
    rfl

end OneHandle

open OneHandle

theorem handles_close_tidy :
    ((tidyEnd.get tidyEnd_isSome).feed (0, 1)).unsubscribes = 1 ∧
      ((tidyEnd.get tidyEnd_isSome).output (0, 3)).chunks.map
      (fun chunk => (chunk.seq, chunk.isLast))
        = [(0, false), (1, false), (2, true)] ∧
      (tidyEnd.get tidyEnd_isSome).Closed :=
  ⟨by decide +kernel, by decide +kernel,
    handles_close _ _ (run_of_exec_guardFun (Option.some_get tidyEnd_isSome).symm)⟩

/-- The subscription that the target of an assignment owned keeps its sink, and nobody owns it. -/
theorem assignment_leaks :
    ¬ ∀ (acts : List Act) (s : Handles), Run Step {} acts s → s.Closed := by
  intro hclaim
  have hclosed := hclaim _ _ (run_of_exec (Option.some_get leakedEnd_isSome).symm)
  have hmem : (0, 1) ∈ (leakedEnd.get leakedEnd_isSome).subscribed := by decide +kernel
  have hsink : ((leakedEnd.get leakedEnd_isSome).feed (0, 1)).sink = true := by decide +kernel
  have hnot : ¬ Held (leakedEnd.get leakedEnd_isSome).subscriptions (0, 1) := by
    rintro ⟨i, hi⟩
    rw [leakedEnd_places] at hi
    split at hi
    · cases hi
    · cases hi
  rw [(hclosed.subscriptions (0, 1) hmem hnot).1] at hsink
  cases hsink

end Epx
