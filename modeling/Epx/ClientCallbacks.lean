import Epx.ClientCallIds

/-!
# The callbacks a client's reader owes

The reader copies a callback out under `stream_mutex` and runs it later, so what has been read for a
call and what its callback has been called with differ by what the reader still owes:
`Reader.unstarted` has been copied out and not begun, `Reader.running` has begun and not returned.

## Main definitions

* `Reader.Ordered` — several callbacks are owed only on the reader's way out
* `ClientCalls.Deliveries` — callbacks return in the order in which they began

## Main results

* `ClientCalls.Deliveries.step`
* `ClientCalls.over_step` — a call that is over stays so, and nothing is read for it any more
-/

namespace Epx

open Codec Transition

namespace Reader

variable {r : Reader} {d : Delivery} {stage : Stage} {rest : List Delivery} {i : ℕ}

/-- Inside the loop the reader owes one callback at a time. -/
def Ordered : Reader → Prop
  | .delivering d _ rest => (d.origin ≠ .exit → rest = []) ∧ ∀ d' ∈ rest, d'.origin = .exit
  | _ => True

theorem unstarted_of_quiet (h : ClientCalls.Quiet r) (i : ℕ) : r.unstarted i = [] := by
  rcases h with rfl | rfl | rfl | rfl <;> rfl

theorem running_of_quiet (h : ClientCalls.Quiet r) (i : ℕ) : r.running i = [] := by
  rcases h with rfl | rfl | rfl | rfl <;> rfl

theorem unstarted_cons (h : stage ≠ .running) (i : ℕ) :
    (delivering d stage rest).unstarted i =
      (if d.callback = i then [(d.data, d.closed)] else []) ++
        (delivering d .running rest).unstarted i := by
  simp only [unstarted, if_neg h, if_true, List.filter_cons, decide_eq_true_eq]
  by_cases hi : d.callback = i
  · rw [if_pos hi, if_pos hi]
    rfl
  · rw [if_neg hi, if_neg hi]
    rfl

/-- One callback that was just copied out. -/
theorem unstarted_copied (i : ℕ) :
    (delivering d .copied []).unstarted i =
      if d.callback = i then [(d.data, d.closed)] else [] := by
  rw [unstarted_cons (by decide)]
  exact List.append_nil _

theorem unstarted_marked (i : ℕ) :
    (delivering d .marked rest).unstarted i = (delivering d .copied rest).unstarted i := rfl

theorem running_of_ne (h : stage ≠ .running) (i : ℕ) :
    (delivering d stage rest).running i = [] := by
  cases stage with
  | running => exact absurd rfl h
  | copied | marked => rfl

theorem unstarted_afterCallback (h : (delivering d stage rest).Ordered) (i : ℕ) :
    (ClientCalls.afterCallback d rest).unstarted i = (delivering d .running rest).unstarted i := by
  by_cases horigin : d.origin = .exit
  · simp only [ClientCalls.afterCallback, horigin]
    cases rest with
    | nil => rfl
    | cons d' rest => rfl
  · have hrest := h.1 horigin
    subst hrest
    simp only [ClientCalls.afterCallback]
    cases hor : d.origin with
    | exit => exact absurd hor horigin
    | refusal => rfl
    | chunk =>
      dsimp only
      split
      · rfl
      · rfl

theorem running_afterCallback (i : ℕ) : (ClientCalls.afterCallback d rest).running i = [] := by
  simp only [ClientCalls.afterCallback]
  cases d.origin with
  | chunk =>
    dsimp only
    split
    · rfl
    · rfl
  | refusal => rfl
  | exit =>
    cases rest with
    | nil => rfl
    | cons d' rest => rfl

theorem ordered_afterCallback (h : (delivering d stage rest).Ordered) :
    (ClientCalls.afterCallback d rest).Ordered := by
  simp only [ClientCalls.afterCallback]
  cases d.origin with
  | chunk =>
    dsimp only
    split
    · trivial
    · trivial
  | refusal => trivial
  | exit =>
    cases rest with
    | nil => trivial
    | cons d' rest =>
      refine ⟨fun hne => ?_, fun d'' hd'' => h.2 d'' (List.mem_cons_of_mem _ hd'')⟩
      exact absurd (h.2 d' List.mem_cons_self) hne

theorem ordered_of_quiet (h : ClientCalls.Quiet r) : r.Ordered := by
  rcases h with rfl | rfl | rfl | rfl <;> trivial

/-- What is owed to a callback comes from a delivery to it. -/
theorem exists_of_mem_unstarted {p : Bytes × Bool} (h : p ∈ r.unstarted i) :
    ∃ d ∈ r.deliveries, d.callback = i ∧ p = (d.data, d.closed) := by
  cases r with
  | delivering d stage rest =>
    simp only [unstarted, List.mem_map, List.mem_filter, decide_eq_true_eq] at h
    obtain ⟨d', ⟨hmem, hcallback⟩, rfl⟩ := h
    refine ⟨d', ?_, hcallback, rfl⟩
    split at hmem
    · exact List.mem_cons_of_mem _ hmem
    · exact hmem
  | top | reading | ending _ | left | dying | exited => exact absurd h List.not_mem_nil

theorem unstarted_eq_nil (h : ∀ d ∈ r.deliveries, d.callback ≠ i) : r.unstarted i = [] := by
  rw [List.eq_nil_iff_forall_not_mem]
  intro p hp
  obtain ⟨d, hd, hcallback, -⟩ := exists_of_mem_unstarted hp
  exact h d hd hcallback

end Reader

namespace ClientCalls

/-- Callbacks return in the order in which they began, one at a time. -/
structure Deliveries (s : ClientCalls) : Prop where
  ordered : s.reader.Ordered
  invoked : ∀ i, s.invoked i = s.finished i ++ s.reader.running i

theorem deliveries_start : Deliveries {} where
  ordered := trivial
  invoked _ := rfl

section

variable {s s' : ClientCalls} {a : Act} {i : ℕ} {id : UInt64} {kind : AskKind} {o : CallOutcome}

theorem Deliveries.congr (h : s.Deliveries) (hreader : s'.reader = s.reader)
    (hinvoked : s'.invoked = s.invoked) (hfinished : s'.finished = s.finished) :
    s'.Deliveries where
  ordered := by rw [hreader]; exact h.ordered
  invoked := by rw [hreader, hinvoked, hfinished]; exact h.invoked

/-- The reader is not in a callback before and after. -/
theorem Deliveries.reads (h : s.Deliveries) (hold : ∀ i, s.reader.running i = [])
    (hnew : ∀ i, s'.reader.running i = []) (hordered : s'.reader.Ordered)
    (hinvoked : s'.invoked = s.invoked) (hfinished : s'.finished = s.finished) :
    s'.Deliveries where
  ordered := hordered
  invoked i := by rw [hinvoked, hfinished, h.invoked i, hold i, hnew i]

theorem running_sweep (i : ℕ) : s.sweep.reader.running i = [] := by
  simp only [sweep]
  split
  · rfl
  · rfl

theorem ordered_sweep : s.sweep.reader.Ordered := by
  have hexit : ∀ d ∈ s.closedCbs, d.origin = .exit := by
    intro d hd
    obtain ⟨sink, -, -, heq⟩ := mem_closedCbs hd
    rw [heq]
  simp only [sweep]
  split
  · trivial
  · next d rest heq =>
    rw [heq] at hexit
    refine ⟨fun hne => absurd (hexit d List.mem_cons_self) hne, fun d' hd' => ?_⟩
    exact hexit d' (List.mem_cons_of_mem _ hd')

theorem quiet_reading (h : s.reader = .reading) : Quiet s.reader := Or.inr (Or.inl h)

theorem Deliveries.step (h : s.Deliveries) (hstep : s.Step a s') : s'.Deliveries := by
  cases effect_of_step hstep with
  | @registered i kind id _ => cases kind <;> exact h.congr rfl rfl rfl
  | @gaveUp i kind id _ => cases kind <;> exact h.congr rfl rfl rfl
  | quiet hr =>
    rcases hr with rfl | ⟨hold, hnew⟩
    · exact h.congr rfl rfl rfl
    · exact h.reads (Reader.running_of_quiet hold) (Reader.running_of_quiet hnew)
        (Reader.ordered_of_quiet hnew) rfl rfl
  | chunkDropped hreader _ | stored hreader _ | ignored hreader _ _ | streamFailed hreader _ _ _ =>
    exact h.reads (Reader.running_of_quiet (quiet_reading hreader)) (fun _ => rfl) trivial rfl rfl
  | chunkTaken hreader _ | refused hreader _ _ _ =>
    refine h.reads (Reader.running_of_quiet (quiet_reading hreader)) (fun _ => rfl) ?_ rfl rfl
    exact ⟨fun _ => rfl, fun _ hd => absurd hd List.not_mem_nil⟩
  | @marked d rest hreader _ =>
    have hordered := h.ordered
    rw [hreader] at hordered
    exact h.reads (fun i => by rw [hreader]; rfl) (fun _ => rfl) hordered rfl rfl
  | @invoked d stage rest hreader hstage =>
    have hordered := h.ordered
    rw [hreader] at hordered
    have hstage' : stage ≠ .running := by
      rcases hstage with rfl | ⟨rfl, -⟩ <;> decide
    refine ⟨hordered, fun i => ?_⟩
    have hold : s.invoked i = s.finished i := by
      rw [h.invoked i, hreader, Reader.running_of_ne hstage', List.append_nil]
    by_cases hi : d.callback = i
    · subst hi
      change Function.update s.invoked d.callback _ d.callback = _
      rw [Function.update_self, hold]
      exact congrArg _ (if_pos rfl).symm
    · change Function.update s.invoked d.callback _ i = _
      rw [Function.update_of_ne (fun heq => hi heq.symm), hold]
      exact (List.append_nil _).symm.trans (congrArg _ (if_neg hi).symm)
  | @callbackReturned d rest hreader =>
    have hordered := h.ordered
    rw [hreader] at hordered
    refine ⟨Reader.ordered_afterCallback hordered, fun i => ?_⟩
    rw [Reader.running_afterCallback, List.append_nil]
    by_cases hi : d.callback = i
    · subst hi
      change s.invoked d.callback = Function.update s.finished d.callback _ d.callback
      rw [Function.update_self, h.invoked, hreader]
      exact congrArg _ (if_pos rfl)
    · change s.invoked i = Function.update s.finished d.callback _ i
      rw [Function.update_of_ne (fun heq => hi heq.symm), h.invoked, hreader]
      exact (congrArg _ (if_neg hi)).trans (List.append_nil _)
  | @ended d hreader =>
    have hrunning : ∀ i, s.reader.running i = [] := fun i => by rw [hreader]; rfl
    obtain ⟨sinks, heq⟩ := s.eraseLast_eq d
    rw [heq]
    exact h.reads hrunning (fun _ => rfl) trivial rfl rfl
  | swept hreader =>
    exact h.reads (fun i => by rw [hreader]; rfl) running_sweep ordered_sweep rfl rfl
  | moved _ | drew _ | getSlept _ | getOver _ _ _ | streamOver _ _ | unsubscribing _ _ _
  | unsubscribedAgain _ _ _ | unsubscribeErased _ _ | unsubscribeReturned _ _ | unsubscribeSent _ _
  | drewOther => exact h.congr rfl rfl rfl

/-! ### What is read for a call -/

theorem feed_fed (chunk : StreamChunkPayload) (j : ℕ) :
    (s.feed chunk).fed j =
      if (s.calls j).under.map Prod.snd = some chunk.requestId then
        s.fed j ++ [(chunk.data, chunk.isLast)]
      else s.fed j := rfl

theorem feed_fed_of_under {chunk : StreamChunkPayload}
    (h : (s.calls i).under = some (kind, chunk.requestId)) :
    (s.feed chunk).fed i = s.fed i ++ [(chunk.data, chunk.isLast)] := by
  rw [feed_fed, h]
  exact if_pos rfl

theorem feed_fed_of_none {chunk : StreamChunkPayload} (h : (s.calls i).under = none) :
    (s.feed chunk).fed i = s.fed i := by
  rw [feed_fed, h]
  exact if_neg (by simp)

theorem feed_fed_of_ne {chunk : StreamChunkPayload} (h : (s.calls i).under = some (kind, id))
    (hne : id ≠ chunk.requestId) : (s.feed chunk).fed i = s.fed i := by
  rw [feed_fed, h]
  exact if_neg (by simpa using hne)

theorem feed_fed_of_forall {chunk : StreamChunkPayload}
    (h : ∀ kind, (s.calls i).under ≠ some (kind, chunk.requestId)) :
    (s.feed chunk).fed i = s.fed i := by
  rw [feed_fed]
  refine if_neg fun hid => ?_
  obtain ⟨⟨kind, id⟩, hunder, rfl⟩ := Option.map_eq_some_iff.mp hid
  exact h kind hunder

theorem answer_answers (resp : ResponsePayload) (j : ℕ) :
    (s.answer resp).answers j =
      if (s.calls j).under.map Prod.snd = some resp.requestId then s.answers j ++ [resp]
      else s.answers j := rfl

theorem answer_answers_of_under {resp : ResponsePayload} {j : ℕ}
    (h : (s.calls j).under = some (kind, resp.requestId)) :
    (s.answer resp).answers j = s.answers j ++ [resp] := by
  rw [answer_answers, h]
  exact if_pos rfl

theorem answer_answers_of_none {resp : ResponsePayload} {j : ℕ} (h : (s.calls j).under = none) :
    (s.answer resp).answers j = s.answers j := by
  rw [answer_answers, h]
  exact if_neg (by simp)

theorem answer_answers_of_ne {resp : ResponsePayload} {j : ℕ}
    (h : (s.calls j).under = some (kind, id)) (hne : id ≠ resp.requestId) :
    (s.answer resp).answers j = s.answers j := by
  rw [answer_answers, h]
  exact if_neg (by simpa using hne)

/-- A call that is over does not change when another one moves. -/
theorem over_move {c : CallPlace} {j : ℕ} (h : s.calls i = .over kind id o)
    (hj : ∀ kind id o, s.calls j ≠ .over kind id o) : (s.move j c).calls i = .over kind id o := by
  have hne : i ≠ j := by
    rintro rfl
    exact hj kind id o h
  rw [move_calls_of_ne hne]
  exact h

/-- **A call that is over stays so**, and nothing is read for it any more. -/
theorem over_step (hstep : s.Step a s') (h : s.calls i = .over kind id o) :
    s'.calls i = .over kind id o ∧ s'.fed i = s.fed i := by
  have hunder : (s.calls i).under = none := by rw [h]; rfl
  cases effect_of_step hstep with
  | moved hgoes => exact ⟨over_move h hgoes.old_ne_over, rfl⟩
  | @drew j _ hcall =>
    have hcall' : s.draw.calls j = _ := hcall
    exact ⟨over_move (s := s.draw) h (by simp [hcall']), rfl⟩
  | @registered j kind' id' hcall =>
    have hcalls := s.register_calls j id' kind'
    refine ⟨over_move (by rw [hcalls]; exact h) (by simp [hcalls, hcall]), ?_⟩
    cases kind' <;> rfl
  | @gaveUp j kind' id' hcall =>
    have hcalls := s.unregister_calls id' kind'
    refine ⟨over_move (by rw [hcalls]; exact h) (by simp [hcalls, hcall]), ?_⟩
    cases kind' <;> rfl
  | @getOver j id' _ _ hcall _ _ =>
    have hcall' : (s.erasePending id').calls j = _ := hcall
    exact ⟨over_move (s := s.erasePending id') h (by simp [hcall']), rfl⟩
  | @streamOver _ j id' before _ hcall _ =>
    have hold : ∀ kind id o, s.calls j ≠ .over kind id o := by
      rcases hcall with ⟨-, hcall, -⟩ | ⟨-, hcall⟩
      · simp [hcall]
      · simp [hcall]
    exact ⟨over_move (s := s.eraseSink id') h hold, rfl⟩
  | unsubscribing hj _ _ => exact ⟨over_move h (by simp [hj]), rfl⟩
  | unsubscribedAgain hj _ _ => exact ⟨over_move h (by simp [hj]), rfl⟩
  | @unsubscribeErased j _ id' hj _ =>
    have hcall' : (s.eraseSink id').calls j = _ := hj
    exact ⟨over_move (s := s.eraseSink id') h (by simp [hcall']), rfl⟩
  | unsubscribeReturned hj _ => exact ⟨over_move h (by simp [hj]), rfl⟩
  | @unsubscribeSent j _ hj _ =>
    have hcall' : s.draw.calls j = _ := hj
    exact ⟨over_move (s := s.draw) h (by simp [hcall']), rfl⟩
  | chunkDropped _ _ => exact ⟨h, feed_fed_of_none hunder⟩
  | chunkTaken _ _ => exact ⟨h, feed_fed_of_none hunder⟩
  | @ended d _ =>
    obtain ⟨sinks, heq⟩ := s.eraseLast_eq d
    rw [heq]
    exact ⟨h, rfl⟩
  | getSlept _ | drewOther | quiet _ | stored _ _ | ignored _ _ _ | refused _ _ _ _
  | streamFailed _ _ _ _ | marked _ _ | invoked _ _ | callbackReturned _ | swept _ => exact ⟨h, rfl⟩

end

end ClientCalls

end Epx
