import Epx.Correlation
import Epx.LineReads

/-!
# The RESPONSEs that a client reads for its calls

A call that is under way knows of the RESPONSEs under its id, all of those that the reader of its
`Line` has opened; after it is over it is told of no more. What a `get` or a `get_stream` reports as
the host's answer is one of them.

## Main definitions

* `responseOf`, `responsesFor` — the RESPONSEs in what was received
* `ClientCalls.Refusals` — where the refusal of a stream comes from
* `Line.Hears` — what the calls know of the RESPONSEs

## Main results

* `ClientCalls.Refusals.step`
* `Line.Hears.step`
-/

namespace Epx

open Codec Transition

/-! ### RESPONSEs in what was received -/

/-- The RESPONSE in what was received. -/
def responseOf (x : FrameType × Bytes) : Option ResponsePayload :=
  if x.1 = .response then
    match decodeResponse x.2 with
    | .accept resp => some resp
    | _ => none
  else none

/-- The RESPONSEs with an id. -/
def responsesFor (id : UInt64) (contents : List (FrameType × Bytes)) : List ResponsePayload :=
  (contents.filterMap responseOf).filter fun resp => resp.requestId = id

theorem responsesFor_append (id : UInt64) (xs ys : List (FrameType × Bytes)) :
    responsesFor id (xs ++ ys) = responsesFor id xs ++ responsesFor id ys := by
  rw [responsesFor, List.filterMap_append, List.filter_append]
  rfl

theorem responsesFor_of_response {id : UInt64} {x : FrameType × Bytes} {resp : ResponsePayload}
    (h : responseOf x = some resp) :
    responsesFor id [x] = if resp.requestId = id then [resp] else [] := by
  simp only [responsesFor, List.filterMap_cons_some h, List.filterMap_nil, List.filter_singleton]
  by_cases hid : resp.requestId = id <;> simp [hid]

theorem responsesFor_of_none {id : UInt64} {x : FrameType × Bytes} (h : responseOf x = none) :
    responsesFor id [x] = [] := by
  simp only [responsesFor, List.filterMap_cons_none h, List.filterMap_nil, List.filter_nil]

namespace ClientCalls

/-! ### What a stream is refused with -/

/-- What `get_stream` makes of a RESPONSE. -/
def streamRefusal (resp : ResponsePayload) : CallOutcome :=
  if resp.status = 2 then .notFound
  else if resp.status = 3 then .accessDenied
  else .protocol (if resp.data = [] then streamRequestFailed else resp.data)

/-- What a `get_stream` reports as the host's answer is that of a RESPONSE read for it. -/
def Refusals (s : ClientCalls) : Prop :=
  ∀ i id o, s.calls i = .over .getStream id o → Reports o →
    (∃ data, o = .returned data) ∨ ∃ resp ∈ s.answers i, o = streamRefusal resp

theorem refusals_start : Refusals {} := fun _ _ _ h => by cases h

section

variable {s s' : ClientCalls} {a : Act} {i : ℕ} {id : UInt64} {kind : AskKind}

/-- Only reading a RESPONSE answers a call. -/
theorem answers_of_step (hstep : s.Step a s') (hno : ∀ resp, a ≠ .readResponse resp) :
    s'.answers = s.answers := by
  cases effect_of_step hstep with
  | stored _ _ | ignored _ _ _ | refused _ _ _ _ | streamFailed _ _ _ _ => exact absurd rfl (hno _)
  | @registered _ kind _ _ => cases kind <;> rfl
  | @gaveUp _ kind _ _ => cases kind <;> rfl
  | @ended d _ =>
    obtain ⟨sinks, heq⟩ := s.eraseLast_eq d
    rw [heq]
  | _ => rfl

theorem readResponse_step {resp : ResponsePayload} (hstep : s.Step (.readResponse resp) s') :
    s'.calls = s.calls ∧ s'.answers = (s.answer resp).answers := by
  obtain ⟨-, heq⟩ := Option.ite_none_right_eq_some.mp hstep
  rw [← Option.some.inj heq, readResponse]
  dsimp only
  split
  · exact ⟨rfl, rfl⟩
  · split
    · exact ⟨rfl, rfl⟩
    · split
      · exact ⟨rfl, rfl⟩
      · exact ⟨rfl, rfl⟩

/-- Answers are never taken back. -/
theorem mem_answers_step (hstep : s.Step a s') {resp : ResponsePayload} (h : resp ∈ s.answers i) :
    resp ∈ s'.answers i := by
  by_cases hread : ∃ r, a = .readResponse r
  · obtain ⟨r, rfl⟩ := hread
    rw [(readResponse_step hstep).2]
    exact mem_answer_answers resp h
  · rw [answers_of_step hstep fun r hr => hread ⟨r, hr⟩]
    exact h

/-- What a `get_stream` reports when it leaves. -/
theorem streamOutcome_reports (htold : s.StreamTold i)
    (hunder : (s.calls i).under = some (.getStream, id)) (hreports : Reports (s.streamOutcome id)) :
    (∃ data, s.streamOutcome id = .returned data) ∨
      ∃ resp ∈ s.answers i, s.streamOutcome id = streamRefusal resp := by
  obtain ⟨sink, hsink, htells⟩ := htold.sink id hunder
  by_cases hlive : s.alive = true ∧ sink.done = false
  · have ho : s.streamOutcome id = .timeout := by simp only [streamOutcome, hsink, if_pos hlive]
    rw [ho] at hreports
    exact hreports.elim
  by_cases hfailed : sink.failed = true
  · have ho : s.streamOutcome id = streamReport sink := by
      simp only [streamOutcome, hsink, if_neg hlive, if_pos hfailed]
    obtain ⟨resp, hmem, hstatus, hmessage⟩ := htells.refusal hfailed
    refine Or.inr ⟨resp, hmem, ?_⟩
    rw [ho, streamReport, streamRefusal, hstatus, hmessage]
  by_cases hdone : sink.done = true
  · have ho : s.streamOutcome id = .returned [] := by
      simp only [streamOutcome, hsink, if_neg hlive, if_neg hfailed, if_pos hdone]
    exact Or.inl ⟨[], ho⟩
  · have ho : s.streamOutcome id = s.deathReport := by
      simp only [streamOutcome, hsink, if_neg hlive, if_neg hfailed, if_neg hdone]
    rw [ho] at hreports
    rcases s.deathReport_cases with hdeath | ⟨message, hdeath⟩
    · rw [hdeath] at hreports
      exact hreports.elim
    · rw [hdeath] at hreports
      exact hreports.elim

/-- **Every step keeps the refusals true.** -/
theorem Refusals.step (h : s.Refusals) (hstreams : s.Streams) (hstep : s.Step a s') :
    s'.Refusals := by
  intro i id o hover hreports
  have hgrows : ((∃ data, o = .returned data) ∨ ∃ resp ∈ s.answers i, o = streamRefusal resp) →
      (∃ data, o = .returned data) ∨ ∃ resp ∈ s'.answers i, o = streamRefusal resp :=
    Or.imp_right fun hresp => by
      obtain ⟨resp, hmem, heq⟩ := hresp
      exact ⟨resp, mem_answers_step hstep hmem, heq⟩
  refine hgrows ?_
  by_cases hold : s.calls i = .over .getStream id o
  · exact h i id o hold hreports
  · cases streamEnds_of_step hstep hover hold with
    | unsent _ => exact hreports.elim
    | began hcall _ =>
      exact streamOutcome_reports (hstreams.told i) (by rw [hcall]; rfl) hreports
    | woke hcall _ =>
      exact streamOutcome_reports (hstreams.told i) (by rw [hcall]; rfl) hreports

end

end ClientCalls

namespace ClientSide

variable {S : Sodium}

/-- What the calls see of a frame that is opened: a RESPONSE, if there is one in it. -/
theorem heardOpened_readResponse {type : FrameType} {opened : Bytes}
    (hopens : Connection.opens type = true) (resp : ResponsePayload) :
    heardOpened type opened = some (.readResponse resp) ↔
      responseOf (type, opened) = some resp := by
  rw [heardOpened, responseOf]
  by_cases htype : type = .response
  · subst htype
    rw [if_neg (by decide), if_neg (by decide), if_neg (by decide), if_pos rfl]
    dsimp only
    cases decodeResponse opened with
    | accept resp' => simp
    | oob | reject => simp
  · rw [if_neg (show ¬ (type, opened).1 = .response from htype)]
    refine ⟨fun h => ?_, fun h => by cases h⟩
    split at h
    · split at h
      · cases h
      · cases h
    next hrekey =>
    split at h
    · cases hdec : decodeError opened <;> rw [hdec] at h <;> cases h
    next herror =>
    split at h
    · cases hdec : decodeStreamChunk opened <;> rw [hdec] at h <;> cases h
    · next hchunk => simp [Connection.opens, hrekey, herror, hchunk, htype] at hopens

/-- What is opened of a frame, and what the calls see of it. -/
theorem opened_response_of_receive (c : Connection) (f : RawFrame) :
    ∃ xs, (c.receive S f).opened.map Opened.content = c.opened.map Opened.content ++ xs ∧
      ((∃ x resp, xs = [x] ∧ responseOf x = some resp ∧
          heard S c f = some (.readResponse resp)) ∨
        (∀ id, responsesFor id xs = []) ∧ ∀ resp, heard S c f ≠ some (.readResponse resp)) := by
  rw [Connection.receive]
  by_cases hopens : Connection.opens f.type = true
  · have hne : Connection.opens f.type ≠ false := by
      rw [hopens]
      decide
    rw [if_pos hopens]
    cases hopen : openChecked S c.v2 c.rx f with
    | none =>
      refine ⟨[], (List.append_nil _).symm, Or.inr ⟨fun _ => rfl, fun resp h => ?_⟩⟩
      rw [heard, if_neg hne, hopen] at h
      cases h
    | some p =>
      obtain ⟨opened, rx⟩ := p
      have hheard : heard S c f = heardOpened f.type opened := by rw [heard, if_neg hne, hopen]
      refine ⟨[(f.type, opened)], List.map_append, ?_⟩
      cases hresp : responseOf (f.type, opened) with
      | some resp =>
        exact Or.inl ⟨_, resp, rfl, hresp,
          hheard.trans ((heardOpened_readResponse hopens resp).mpr hresp)⟩
      | none =>
        refine Or.inr ⟨fun id => responsesFor_of_none hresp, fun resp h => ?_⟩
        rw [hheard, heardOpened_readResponse hopens, hresp] at h
        cases h
  · rw [if_neg hopens]
    refine ⟨[], (List.append_nil _).symm, Or.inr ⟨fun _ => rfl, fun resp h => ?_⟩⟩
    rw [heard, if_pos (Bool.eq_false_of_not_eq_true hopens)] at h
    cases h

theorem opened_swapEph (c : Connection) (serverEph : Block 32) :
    (c.swapEph S serverEph).opened = c.opened := by
  rw [Connection.swapEph]
  split
  · rfl
  · split
    · rfl
    · rfl

/-- A step in which nothing is sent: the reader takes a frame, or the calls see no RESPONSE. -/
theorem calls_of_step {s s' : ClientSide} {a : Act} (hquiet : a.submits = false)
    (h : Step S s a s') :
    (∃ f, told s.calls (heard S s.conn f) = some s'.calls ∧ s'.conn = s.conn.receive S f) ∨
      (∃ b : Option ClientCalls.Act, (∀ resp, b ≠ some (.readResponse resp)) ∧
        told s.calls b = some s'.calls) ∧ s'.conn.opened = s.conn.opened := by
  have hfun : step S s a = some s' := h
  cases a with
  | call b =>
    obtain ⟨hlooks, hfun⟩ := Option.ite_none_left_eq_some.mp hfun
    obtain ⟨k, hk, rfl⟩ := Option.map_eq_some_iff.mp hfun
    refine Or.inr ⟨⟨some b, fun resp heq => ?_, hk⟩, rfl⟩
    cases heq
    exact hlooks rfl
  | write b => cases hquiet
  | loop =>
    obtain ⟨-, hfun⟩ := Option.ite_none_right_eq_some.mp hfun
    obtain ⟨k, hk, rfl⟩ := Option.map_eq_some_iff.mp hfun
    exact Or.inr ⟨⟨some .readerTop, by simp, hk⟩, rfl⟩
  | fails =>
    obtain ⟨-, hfun⟩ := Option.ite_none_right_eq_some.mp hfun
    obtain ⟨k, hk, rfl⟩ := Option.map_eq_some_iff.mp hfun
    exact Or.inr ⟨⟨some .readFails, by simp, hk⟩, rfl⟩
  | read f =>
    obtain ⟨-, hfun⟩ := Option.ite_none_right_eq_some.mp hfun
    split at hfun
    · obtain ⟨-, hfun⟩ := Option.ite_none_right_eq_some.mp hfun
      obtain ⟨k, hk, rfl⟩ := Option.map_eq_some_iff.mp hfun
      exact Or.inl ⟨f, hk, rfl⟩
    · cases hfun
  | swapEph =>
    rw [step] at hfun
    split at hfun
    · split at hfun
      · obtain ⟨k, hk, rfl⟩ := Option.map_eq_some_iff.mp hfun
        exact Or.inr ⟨⟨some .readFails, by simp, hk⟩, opened_swapEph _ _⟩
      · cases hfun
        exact Or.inr ⟨⟨none, by simp, rfl⟩, opened_swapEph _ _⟩
    · cases hfun
  | switchKeys now =>
    rw [step] at hfun
    split at hfun
    · obtain ⟨k, hk, rfl⟩ := Option.map_eq_some_iff.mp hfun
      exact Or.inr ⟨⟨some .readOther, by simp, hk⟩, rfl⟩
    · cases hfun

end ClientSide

namespace Line

/-- The calls know of the RESPONSEs that were read for them. -/
structure Hears (s : Line) : Prop where
  correlated : s.side.calls.Correlated
  refusals : s.side.calls.Refusals
  known : ∀ i kind id, (s.side.calls.calls i).asks = some (kind, id) →
    s.side.calls.answers i <+: responsesFor id s.taken
  under : ∀ i kind id, (s.side.calls.calls i).under = some (kind, id) →
    s.side.calls.answers i = responsesFor id s.taken

theorem hears_start (eph : EphemeralKeyPair) (hs : HandshakeResult) (rotation : RotationPolicy)
    (now : ℕ) : (start eph hs rotation now).Hears where
  correlated := ClientCalls.correlated_start
  refusals := ClientCalls.refusals_start
  known _ _ _ h := by cases h
  under _ _ _ h := by cases h

section

variable {S : Sodium} {s s' : Line} {a : Act}

/-- No RESPONSE is read. -/
theorem Hears.same (h : s.Hears) (hcalls : s'.side.calls = s.side.calls)
    {xs : List (FrameType × Bytes)} (htaken : s'.taken = s.taken ++ xs)
    (hnone : ∀ id, responsesFor id xs = []) : s'.Hears := by
  have hread : ∀ id, responsesFor id s'.taken = responsesFor id s.taken := by
    intro id
    rw [htaken, responsesFor_append, hnone, List.append_nil]
  refine ⟨?_, ?_, ?_, ?_⟩
  · rw [hcalls]
    exact h.correlated
  · rw [hcalls]
    exact h.refusals
  · simp only [hcalls, hread]
    exact h.known
  · simp only [hcalls, hread]
    exact h.under

/-- A call goes on. Nothing has come under the id of one that registers. -/
theorem Hears.goes (h : s.Hears) (hstreams : s.side.calls.Streams) {b : ClientCalls.Act}
    (hstep : s.side.calls.Step b s'.side.calls) (hb : ∀ resp, b ≠ .readResponse resp)
    {xs : List (FrameType × Bytes)} (htaken : s'.taken = s.taken ++ xs)
    (hnone : ∀ id, responsesFor id xs = [])
    (hunread : ∀ i kind id, s.side.calls.calls i = .drawn kind id → responsesFor id s.taken = []) :
    s'.Hears := by
  have hread : ∀ id, responsesFor id s'.taken = responsesFor id s.taken := by
    intro id
    rw [htaken, responsesFor_append, hnone, List.append_nil]
  have hanswers := ClientCalls.answers_of_step hstep hb
  have hplace := ClientCalls.place_of_step hstep
  have hearly : ∀ {i kind id}, s.side.calls.calls i = .drawn kind id →
      s.side.calls.answers i = [] := fun hdrew =>
    h.correlated.early _ (by rw [hdrew]; rfl) (by simp [hdrew])
  refine ⟨h.correlated.step hstreams.ids hstep, h.refusals.step hstreams hstep,
    fun i kind id hi => ?_, fun i kind id hi => ?_⟩
  · rw [hanswers, hread]
    rcases hplace i with heq | ⟨_, hfound, -⟩ | ⟨_, _, hdrew, -⟩ | hlater
    · rw [heq] at hi
      exact h.known i kind id hi
    · rw [h.correlated.early i (by rw [hfound]; rfl) (by simp [hfound])]
      exact List.nil_prefix
    · rw [hearly hdrew]
      exact List.nil_prefix
    · rw [hlater.asks] at hi
      exact h.known i kind id hi
  · rw [hanswers, hread]
    rcases hplace i with heq | ⟨_, _, hdrew, -⟩ | ⟨_, _, hdrew, hregistered⟩ | hlater
    · rw [heq] at hi
      exact h.under i kind id hi
    · rw [hdrew] at hi
      cases hi
    · rw [hregistered] at hi
      cases hi
      rw [hearly hdrew, hunread i kind id hdrew]
    · rcases hlater.under with heq | hover
      · rw [heq] at hi
        exact h.under i kind id hi
      · rw [hover] at hi
        cases hi

/-- A RESPONSE is read. -/
theorem Hears.response (h : s.Hears) (hstreams : s.side.calls.Streams) {resp : ResponsePayload}
    (hstep : s.side.calls.Step (.readResponse resp) s'.side.calls) {x : FrameType × Bytes}
    (htaken : s'.taken = s.taken ++ [x]) (hx : responseOf x = some resp) : s'.Hears := by
  have hread : ∀ id, responsesFor id s'.taken = responsesFor id s.taken ++
      if resp.requestId = id then [resp] else [] := by
    intro id
    rw [htaken, responsesFor_append, responsesFor_of_response hx]
  obtain ⟨hcalls, hanswers⟩ := ClientCalls.readResponse_step hstep
  refine ⟨h.correlated.step hstreams.ids hstep, h.refusals.step hstreams hstep,
    fun i kind id hi => ?_, fun i kind id hi => ?_⟩
  · rw [hcalls] at hi
    rw [hanswers, hread]
    by_cases hown : ∃ kind', (s.side.calls.calls i).under = some (kind', resp.requestId)
    · obtain ⟨kind', hunder⟩ := hown
      have hsame := (CallPlace.asks_of_under hunder).symm.trans hi
      obtain ⟨rfl, rfl⟩ := Prod.mk.inj (Option.some.inj hsame)
      rw [ClientCalls.answer_answers_of_under hunder, h.under i _ _ hunder, if_pos rfl]
    · have hnot : ¬ (s.side.calls.calls i).under.map Prod.snd = some resp.requestId := by
        intro heq
        obtain ⟨⟨kind', id'⟩, hunder, rfl⟩ := Option.map_eq_some_iff.mp heq
        exact hown ⟨kind', hunder⟩
      rw [ClientCalls.answer_answers, if_neg hnot]
      exact (h.known i kind id hi).trans (List.prefix_append _ _)
  · rw [hcalls] at hi
    rw [hanswers, hread]
    by_cases hid : resp.requestId = id
    · subst hid
      rw [ClientCalls.answer_answers_of_under hi, h.under i _ _ hi, if_pos rfl]
    · rw [ClientCalls.answer_answers_of_ne hi (Ne.symm hid), h.under i _ _ hi, if_neg hid,
        List.append_nil]

/-- **Every step keeps the calls informed**, as long as nothing comes under the id of a call before
it registers. -/
theorem Hears.step (h : s.Hears) (hstreams : s.side.calls.Streams) (hstep : Step S s a s')
    (hunread : ∀ i kind id, s.side.calls.calls i = .drawn kind id → responsesFor id s.taken = []) :
    s'.Hears := by
  have htaken : s.taken = s.taken ++ [] := (List.append_nil _).symm
  have hnone : ∀ id, responsesFor id [] = [] := fun _ => rfl
  have hwritten : ∀ {b : Connection.Act} {p : Connection × Option RawFrame},
      s.side.conn.step S b = some p → b.writes = true →
      p.1.opened.map Opened.content = s.taken ++ [] := by
    intro b p hp hwrites
    rw [List.append_nil, Connection.opened_of_writes (Connection.effect_of_step S hp) hwrites]
    rfl
  cases effect_of_step hstep with
  | @side b side hquiet hside =>
    have htold : ∀ {b : Option ClientCalls.Act} {xs},
        ClientSide.told s.side.calls b = some side.calls →
        (∀ resp, b ≠ some (.readResponse resp)) →
        Line.taken { s with side := side } = s.taken ++ xs → (∀ id, responsesFor id xs = []) →
        Line.Hears { s with side := side } := by
      intro b xs hk hb htaken' hnone'
      cases b with
      | none => exact h.same (Option.some.inj hk).symm htaken' hnone'
      | some b =>
        exact h.goes hstreams hk (fun resp heq => hb resp (by rw [heq])) htaken' hnone' hunread
    rcases ClientSide.calls_of_step hquiet hside with ⟨f, hk, hconn⟩ | ⟨⟨b, hb, hk⟩, hopened⟩
    · obtain ⟨xs, hopened, hheard⟩ :=
        ClientSide.opened_response_of_receive (S := S) s.side.conn f
      rw [← hconn] at hopened
      rcases hheard with ⟨x, resp, rfl, hx, hheard⟩ | ⟨hnothing, hno⟩
      · rw [hheard] at hk
        exact h.response hstreams hk hopened hx
      · exact htold hk hno hopened hnothing
    · have htaken' : Line.taken { s with side := side } = s.taken ++ [] := by
        rw [List.append_nil, taken, taken]
        exact congrArg _ hopened
      exact htold hk hb htaken' hnone
  | asked hk => exact h.goes hstreams hk (by simp) htaken hnone hunread
  | posted | opened =>
    exact h.goes hstreams (b := .drawOther) rfl (by simp) htaken hnone hunread
  | unsubscribed hk _ | told hk _ => exact h.goes hstreams hk (by simp) htaken hnone hunread
  | @acquired what now eph ok s₁ x p hsubmits hp =>
    have hcalls : s₁.side.calls = s.side.calls := by rw [hsubmits.side_eq]
    exact h.same hcalls (hwritten hp rfl) hnone
  | stored hp | offered hp => exact h.same rfl (hwritten hp rfl) hnone
  | @sent ok x p k hx hp hk =>
    cases hcall : x.call with
    | none =>
      rw [hcall] at hk
      exact h.same (Option.some.inj hk).symm (hwritten hp rfl) hnone
    | some i =>
      rw [hcall] at hk
      exact h.goes hstreams (b := .send i ok) hk (by simp) (hwritten hp rfl) hnone hunread

/-- Whatever happens at the client's end, the calls take a step or stay as they are. -/
theorem calls_of_step (hstep : Step S s a s') :
    s'.side.calls = s.side.calls ∨ ∃ b, s.side.calls.Step b s'.side.calls := by
  have htold : ∀ {b : Option ClientCalls.Act} {k : ClientCalls},
      ClientSide.told s.side.calls b = some k → k = s.side.calls ∨ ∃ b, s.side.calls.Step b k := by
    intro b k hk
    cases b with
    | none => exact Or.inl (Option.some.inj hk).symm
    | some b => exact Or.inr ⟨b, hk⟩
  cases effect_of_step hstep with
  | side hquiet hside =>
    rcases ClientSide.calls_of_step hquiet hside with ⟨f, hk, -⟩ | ⟨⟨b, -, hk⟩, -⟩
    · exact htold hk
    · exact htold hk
  | asked hk | unsubscribed hk _ | told hk _ => exact Or.inr ⟨_, hk⟩
  | posted | opened => exact Or.inr ⟨.drawOther, rfl⟩
  | acquired hsubmits _ => exact Or.inl (by rw [← hsubmits.side_eq]; rfl)
  | stored _ | offered _ => exact Or.inl rfl
  | @sent ok x p k hx hp hk =>
    cases hcall : x.call with
    | none =>
      rw [hcall] at hk
      exact Or.inl (Option.some.inj hk).symm
    | some i =>
      rw [hcall] at hk
      exact Or.inr ⟨.send i ok, hk⟩

end

end Line

end Epx
