import Epx.LineAnswers
import Epx.Verdicts

/-!
# Calls end with what the host has decided

A `Ledger` is a `Link` with the record of what its host decides about the requests on the
connection. A `get` that reports something of the host's reports the decision about its own request;
this request was decided about once, and its handler was called once if that is what was decided.

## Main definitions

* `Verdict.outcome`, `Verdict.streamOutcome` — what a caller is told of a decision
* `Line.Vouched` — the client has read what was decided about its requests
* `Ledger`, `Ledger.SteadyStep`
* `Ledger.Faithful` — what calls end with

## Main results

* `Ledger.Inv.step`
* `calls_end_as_decided`
-/

namespace Epx

open Codec Exception Transition LoopState
open ClientCalls (Reports streamRefusal)

namespace Verdict

/-- What a `get` makes of a decision, if it hears of it. -/
def outcome : Verdict → Option CallOutcome
  | .notFound => some .notFound
  | .denied => some .accessDenied
  | .limited => some (.protocol (tagBytes "subscription limit exceeded".toList))
  | .wrongShape => some (.protocol (tagBytes "wrong call shape".toList))
  | .answered resp => some (if resp.ok then .returned resp.data else .protocol resp.error)
  | .subscribed | .streaming => none

/-- What a `get_stream` throws. To it an answer is a failure. -/
def streamOutcome : Verdict → Option CallOutcome
  | .notFound => some .notFound
  | .denied => some .accessDenied
  | .limited => some (.protocol (tagBytes "subscription limit exceeded".toList))
  | .wrongShape => some (.protocol (tagBytes "wrong call shape".toList))
  | .answered resp =>
    let message := if resp.ok then resp.data else resp.error
    some (.protocol (if message = [] then streamRequestFailed else message))
  | .subscribed | .streaming => none

theorem outcome_of_reply {v : Verdict} {p : UInt8 × Bytes} (h : v.reply = some p) (id : UInt64) :
    v.outcome = some (getReport { requestId := id, status := p.1, data := p.2 }) := by
  cases v with
  | notFound | denied | limited | wrongShape =>
    cases h
    rfl
  | answered resp =>
    cases h
    cases hok : resp.ok with
    | true => simp [outcome, getReport, hok]
    | false => simp [outcome, getReport, hok]
  | subscribed | streaming => cases h

theorem streamOutcome_of_reply {v : Verdict} {p : UInt8 × Bytes} (h : v.reply = some p)
    (id : UInt64) :
    v.streamOutcome = some (streamRefusal { requestId := id, status := p.1, data := p.2 }) := by
  cases v with
  | notFound | denied | limited | wrongShape =>
    cases h
    rfl
  | answered resp =>
    cases h
    cases hok : resp.ok with
    | true => simp [streamOutcome, streamRefusal, hok]
    | false => simp [streamOutcome, streamRefusal, hok]
  | subscribed | streaming => cases h

end Verdict

theorem Line.Hears.withStreams {l : Line} (h : l.Hears) (toHost input : Bytes) :
    (l.withStreams toHost input).Hears :=
  ⟨h.correlated, h.refusals, h.known, h.under⟩

theorem responseOf_type {x : FrameType × Bytes} {resp : ResponsePayload}
    (h : responseOf x = some resp) : x.1 = .response := by
  by_contra hno
  rw [responseOf, if_neg hno] at h
  cases h

/-- A RESPONSE is read back. -/
theorem responseOf_responseTo {req : RequestPayload} {status : UInt8} {data : Bytes}
    (hlen : (responseTo req status data).2.length < 2 ^ 32) :
    responseOf (responseTo req status data)
      = some { requestId := req.requestId, status := status, data := data } := by
  have hdata : data.length ≤ (responseTo req status data).2.length := by
    simp only [responseTo, encodeResponse, putData, List.length_append]
    omega
  have hdec : decodeResponse (encodeResponse
      { requestId := req.requestId, status := status, data := data })
        = .accept { requestId := req.requestId, status := status, data := data } :=
    decodeResponse_eq_accept.mpr
      (responseLayout_encodeResponse _ (lt_of_le_of_lt hdata hlen))
  rw [responseOf, responseTo, if_pos rfl, hdec]

/-- Where a RESPONSE comes from that some decision asks for. -/
theorem Docket.decided_of_response {l : Docket} {x : FrameType × Bytes} (hx : x ∈ l.responses)
    (hlen : x.2.length < 2 ^ 32) {resp : ResponsePayload} (hresp : responseOf x = some resp) :
    ∃ req v, (req, v) ∈ l ∧ req.requestId = resp.requestId ∧ req.oneway = false ∧
      v.reply = some (resp.status, resp.data) := by
  obtain ⟨⟨req, v⟩, hentry, hx⟩ := List.mem_flatMap.mp hx
  rw [Verdict.responses] at hx
  split at hx
  · cases hx
  · next hask =>
    obtain ⟨p, hreply, rfl⟩ := Option.map_eq_some_iff.mp (Option.mem_toList.mp hx)
    rw [responseOf_responseTo hlen] at hresp
    cases hresp
    exact ⟨req, v, hentry, rfl, Bool.eq_false_of_not_eq_true hask, hreply⟩

/-! ### What a client hears of the decisions -/

namespace Line

/-- The RESPONSEs that a client has read are those of decisions about its own requests. -/
structure Vouched (l : Line) (docket : Docket) : Prop where
  streams : l.side.calls.Streams
  ids : l.OwnIds
  hears : l.Hears
  posed : (docket.map Prod.fst).Sublist l.posed
  decided : ∀ id, ∀ resp ∈ responsesFor id l.taken, ∃ req v, (req, v) ∈ docket ∧
    req.requestId = id ∧ v.reply = some (resp.status, resp.data)

namespace Vouched

variable {l : Line} {docket : Docket}

/-- The ids of the requests that were decided about differ. -/
theorem nodup (h : l.Vouched docket) : (docket.map fun p => p.1.requestId).Nodup := by
  have hids := (List.nodup_append.mp h.ids.nodup).1
  have hsub := h.posed.map RequestPayload.requestId
  rw [List.map_map] at hsub
  exact hids.sublist hsub

/-- What was read under the id of a call was decided about its request. -/
theorem decided_of_answer (h : l.Vouched docket) {i : ℕ} {kind : AskKind} {id : UInt64}
    (hi : (l.side.calls.calls i).asks = some (kind, id)) {resp : ResponsePayload}
    (hmem : resp ∈ l.side.calls.answers i) :
    ∃ v : Verdict, (l.request i id, v) ∈ docket ∧ v.reply = some (resp.status, resp.data) := by
  have hread := (h.hears.known i kind id hi).subset hmem
  obtain ⟨req, v, hentry, rfl, hreply⟩ := h.decided id resp hread
  have hposed := h.posed.subset (List.mem_map_of_mem hentry)
  rw [← h.ids.calls req hposed i kind hi]
  exact ⟨v, hentry, hreply⟩

/-- No RESPONSE was read under the id of a call that has not registered. -/
theorem unread (h : l.Vouched docket) {i : ℕ} {kind : AskKind} {id : UInt64}
    (hi : l.side.calls.calls i = .drawn kind id) : responsesFor id l.taken = [] := by
  refine List.eq_nil_iff_forall_not_mem.mpr fun resp hmem => ?_
  obtain ⟨req, v, hentry, rfl, -⟩ := h.decided id resp hmem
  have hposed := h.posed.subset (List.mem_map_of_mem hentry)
  exact h.ids.not_mem_of_drawn hi (List.mem_append_left _ (List.mem_map_of_mem hposed))

/-- **A `get` that reports something of the host's** reports what was decided about its request. -/
theorem get (h : l.Vouched docket) {i : ℕ} {id : UInt64} {o : CallOutcome}
    (hover : l.side.calls.calls i = .over .get id o) (hreports : Reports o) :
    ∃ v : Verdict, (l.request i id, v) ∈ docket ∧ v.outcome = some o := by
  obtain ⟨resp, hmem, hid, rfl⟩ :=
    (h.hears.correlated.answered_of_over h.streams.ids hover).own hreports
  have hi : (l.side.calls.calls i).asks = some (.get, id) := by
    rw [hover]
    rfl
  obtain ⟨v, hentry, hreply⟩ := h.decided_of_answer hi hmem
  exact ⟨v, hentry, Verdict.outcome_of_reply hreply resp.requestId⟩

/-- **So does a `get_stream`** that throws something of the host's. -/
theorem stream (h : l.Vouched docket) {i : ℕ} {id : UInt64} {o : CallOutcome}
    (hover : l.side.calls.calls i = .over .getStream id o) (hreports : Reports o) :
    (∃ data, o = .returned data) ∨
      ∃ v : Verdict, (l.request i id, v) ∈ docket ∧ v.streamOutcome = some o := by
  refine (h.hears.refusals i id o hover hreports).imp_right fun hresp => ?_
  obtain ⟨resp, hmem, rfl⟩ := hresp
  have hi : (l.side.calls.calls i).asks = some (.getStream, id) := by
    rw [hover]
    rfl
  obtain ⟨v, hentry, hreply⟩ := h.decided_of_answer hi hmem
  exact ⟨v, hentry, Verdict.streamOutcome_of_reply hreply resp.requestId⟩

end Vouched

end Line

/-- A link, and what its host has decided. -/
structure Ledger where
  link : Link
  docket : Docket := []

namespace Ledger

section

variable (c : ℕ) (S : Sodium) (cfg : HostConfig)

/-- The record after a step. -/
def recorded (t : Ledger) : Link.Act → Docket
  | .host a => t.link.desk.docketed S cfg c a t.docket
  | .client _ => t.docket

def step (t : Ledger) (a : Link.Act) : Option Ledger :=
  (t.link.step c S cfg a).map fun k => { link := k, docket := t.recorded c S cfg a }

/-- The steps of a link that stays up. -/
def SteadyStep (E : Set Bytes) (t : Ledger) (a : Link.Act) (t' : Ledger) : Prop :=
  OfFun (step c S cfg) t a t' ∧ t.link.SteadyStep c S cfg E a t'.link

end

/-- What holds of a ledger. -/
structure Inv (S : Sodium) (cfg : HostConfig) (c : ℕ) (E : Set Bytes) (t : Ledger) : Prop where
  link : t.link.Inv S cfg c E
  judged : t.link.desk.Judged c t.docket
  hears : t.link.line.Hears

section

variable {S : Sodium} {cfg : HostConfig} {c : ℕ} {E : Set Bytes} {t t' : Ledger}

/-- Where a RESPONSE comes from that was written: from the decision about a request. -/
theorem Inv.decided_of_response (hS : S.AeadCorrect) (h : t.Inv S cfg c E) {id : UInt64}
    {resp : ResponsePayload} (hmem : resp ∈ responsesFor id (t.link.conn c).written) :
    ∃ req v, (req, v) ∈ t.docket ∧ req.requestId = id ∧
      v.reply = some (resp.status, resp.data) := by
  obtain ⟨hmem, hid⟩ := List.mem_filter.mp hmem
  have hid : resp.requestId = id := of_decide_eq_true hid
  obtain ⟨x, hx, hresp⟩ := List.mem_filterMap.mp hmem
  have hdocket : x ∈ t.docket.responses := by
    rw [← h.judged.responses]
    exact List.mem_filter.mpr ⟨hx, decide_eq_true (responseOf_type hresp)⟩
  obtain ⟨req, v, hentry, hreq, -, hreply⟩ :=
    Docket.decided_of_response hdocket (h.link.written_short hS x hx) hresp
  exact ⟨req, v, hentry, hreq.trans hid, hreply⟩

/-- The client has read what was decided about its requests. -/
theorem Inv.vouched (hS : S.AeadCorrect) (h : t.Inv S cfg c E) :
    t.link.line.Vouched t.docket := by
  obtain ⟨s, hend, hcarries⟩ := h.link.session
  refine ⟨h.link.reads.streams, h.link.ids, h.hears, ?_, fun id resp hmem => ?_⟩
  · have hfirst := (Link.requests_delivered hS hend hcarries h.link.seals h.link.short
      h.link.up.client).trans (Link.sent_posed t.link.line)
    exact h.judged.requests.trans hfirst.sublist
  · obtain ⟨xs, hwritten, -⟩ := Link.delivered_toClient hend hcarries
    refine h.decided_of_response hS ?_
    rw [hwritten, responsesFor_append]
    exact List.mem_append_left _ hmem

/-! ### Steps -/

/-- **Every step of a connection that stays up.** -/
theorem Inv.step (hS : S.AeadCorrect) (hkx : S.KxAgree) (h : t.Inv S cfg c E) {a : Link.Act}
    (hstep : t.SteadyStep c S cfg E a t') (hlt : t'.link.line.side.calls.drawn.length < 2 ^ 64) :
    t'.Inv S cfg c E := by
  obtain ⟨hfun, hsteady⟩ := hstep
  have hlink := h.link.step hS hkx hsteady hlt
  obtain ⟨k, hk, rfl⟩ := Option.map_eq_some_iff.mp hfun
  obtain ⟨hstep, hfine, hup⟩ := hsteady
  cases a with
  | host a =>
    obtain ⟨rest, -, hstep⟩ := Option.bind_eq_some_iff.mp hstep
    obtain ⟨d, hd, rfl⟩ := Option.map_eq_some_iff.mp hstep
    exact ⟨hlink, h.judged.step h.link.answering hlink.answering hd hfine.1,
      h.hears.withStreams _ _⟩
  | client a =>
    obtain ⟨l, hl, rfl⟩ := Option.map_eq_some_iff.mp hstep
    exact ⟨hlink, h.judged,
      h.hears.step h.link.reads.streams hl fun i kind id => (h.vouched hS).unread⟩

theorem drawn_le {a : Link.Act} (hstep : t.SteadyStep c S cfg E a t') :
    t.link.line.side.calls.drawn.length ≤ t'.link.line.side.calls.drawn.length :=
  Link.drawn_le hstep.2.1

theorem inv_of_run (hS : S.AeadCorrect) (hkx : S.KxAgree) {t₀ : Ledger} (h : t₀.Inv S cfg c E)
    {acts : List Link.Act} (hrun : Run (SteadyStep c S cfg E) t₀ acts t)
    (hlt : t.link.line.side.calls.drawn.length < 2 ^ 64) : t.Inv S cfg c E := by
  refine hrun.preserves (I := fun t => t.link.line.side.calls.drawn.length < 2 ^ 64 →
    t.Inv S cfg c E) (fun _ => h) (fun t a t' ih hstep hlt => ?_) hlt
  exact (ih (lt_of_le_of_lt (drawn_le hstep) hlt)).step hS hkx hstep hlt

end

/-! ### What calls end with -/

/-- What calls end with, and what was done for them. -/
structure Faithful (c : ℕ) (t : Ledger) : Prop where
  /-- A `get` that reports something of the host's reports what was decided about its request. -/
  get : ∀ i id o, t.link.line.side.calls.calls i = .over .get id o → Reports o →
    ∃ v : Verdict, (t.link.line.request i id, v) ∈ t.docket ∧ v.outcome = some o
  /-- So does a `get_stream` that throws something of the host's. -/
  stream : ∀ i id o, t.link.line.side.calls.calls i = .over .getStream id o → Reports o →
    (∃ data, o = .returned data) ∨
      ∃ v : Verdict, (t.link.line.request i id, v) ∈ t.docket ∧ v.streamOutcome = some o
  /-- A `get` that waits ends with the decision, when there is nothing left to read. -/
  complete : ∀ i id v o, t.link.line.side.calls.calls i = .sent .get id →
    (t.link.line.request i id, v) ∈ t.docket → v.outcome = some o →
    t.link.line.side.input = [] → ∀ timedOut,
    (t.link.line.side.calls.getWake i id timedOut).calls i = .over .get id o
  /-- The requests that are decided about are requests of the client, in their order. -/
  posed : (t.docket.map Prod.fst).Sublist t.link.line.posed
  /-- No request is decided about twice. -/
  once : (t.docket.map fun p => p.1.requestId).Nodup
  /-- The handlers of requests are called as it was decided, and not otherwise. -/
  served : (t.link.conn c).served = t.docket.calls

section

variable {S : Sodium} {cfg : HostConfig} {c : ℕ} {E : Set Bytes} {t : Ledger}

/-- The RESPONSE of a decision was written. -/
theorem Inv.responded (hS : S.AeadCorrect) (h : t.Inv S cfg c E) {req : RequestPayload}
    {v : Verdict} (hentry : (req, v) ∈ t.docket) (hask : req.oneway = false)
    {p : UInt8 × Bytes} (hreply : v.reply = some p) :
    { requestId := req.requestId, status := p.1, data := p.2 } ∈
      responsesFor req.requestId (t.link.conn c).written := by
  have hin : responseTo req p.1 p.2 ∈ t.docket.responses := by
    refine List.mem_flatMap.mpr ⟨(req, v), hentry, ?_⟩
    rw [Verdict.responses, if_neg (by rw [hask]; decide), hreply]
    exact List.mem_singleton_self _
  rw [← h.judged.responses] at hin
  have hwritten := (List.mem_filter.mp hin).1
  refine List.mem_filter.mpr ⟨List.mem_filterMap.mpr ⟨_, hwritten, ?_⟩, decide_eq_true rfl⟩
  exact responseOf_responseTo (h.link.written_short hS _ hwritten)

/-- A request is decided about in one way. -/
theorem Inv.verdict_unique (hS : S.AeadCorrect) (h : t.Inv S cfg c E) {req req' : RequestPayload}
    {v v' : Verdict} (hentry : (req, v) ∈ t.docket) (hentry' : (req', v') ∈ t.docket)
    (hid : req'.requestId = req.requestId) : v' = v :=
  congrArg Prod.snd (List.inj_on_of_nodup_map (h.vouched hS).nodup hentry' hentry hid)

theorem Inv.get_complete (hS : S.AeadCorrect) (h : t.Inv S cfg c E) {i : ℕ} {id : UInt64}
    {v : Verdict} {o : CallOutcome}
    (hcall : t.link.line.side.calls.calls i = .sent .get id)
    (hentry : (t.link.line.request i id, v) ∈ t.docket) (ho : v.outcome = some o)
    (hinput : t.link.line.side.input = []) (timedOut : Bool) :
    (t.link.line.side.calls.getWake i id timedOut).calls i = .over .get id o := by
  obtain ⟨s, hend, hcarries⟩ := h.link.session
  obtain ⟨xs, hwritten, hflight⟩ := Link.delivered_toClient hend hcarries
  rw [hflight hinput, List.append_nil] at hwritten
  have hunder : (t.link.line.side.calls.calls i).under = some (.get, id) := by
    rw [hcall]
    rfl
  have hanswers : t.link.line.side.calls.answers i = responsesFor id (t.link.conn c).written := by
    rw [h.hears.under i _ id hunder, hwritten]
  obtain ⟨p, hreply⟩ : ∃ p, v.reply = some p := by
    cases v with
    | subscribed | streaming => cases ho
    | _ => exact ⟨_, rfl⟩
  -- the last RESPONSE that was read is that of the decision
  have hmem := h.responded hS hentry rfl hreply
  obtain ⟨resp, hlast⟩ : ∃ resp, (t.link.line.side.calls.answers i).getLast? = some resp := by
    rw [hanswers]
    exact Option.isSome_iff_exists.mp (List.getLast?_isSome.mpr (List.ne_nil_of_mem hmem))
  have hresp : resp ∈ responsesFor id (t.link.conn c).written := by
    rw [← hanswers]
    exact List.mem_of_getLast? hlast
  obtain ⟨req, v', hentry', hid, hreply'⟩ := h.decided_of_response hS hresp
  have hsame : v' = v := h.verdict_unique hS hentry hentry' hid
  subst hsame
  have hstored : (t.link.line.side.calls.pending id).join = some resp := by
    rw [h.hears.correlated.waiting i id hunder, hlast]
    rfl
  have hreport : o = getReport resp := by
    rw [Verdict.outcome_of_reply hreply' resp.requestId] at ho
    exact (Option.some.inj ho).symm
  simp only [ClientCalls.getWake, hstored, Option.isSome_some, or_true, not_true_eq_false,
    false_and, if_false, hreport]
  exact Function.update_self _ _ _

theorem Inv.faithful (hS : S.AeadCorrect) (h : t.Inv S cfg c E) : t.Faithful c where
  get _ _ _ := (h.vouched hS).get
  stream _ _ _ := (h.vouched hS).stream
  complete _ _ _ _ := h.get_complete hS
  posed := (h.vouched hS).posed
  once := (h.vouched hS).nodup
  served := h.judged.served

end

/-- Every run of a link is one with a record. -/
theorem exists_run {S : Sodium} {cfg : HostConfig} {c : ℕ} {E : Set Bytes} {k k' : Link}
    {acts : List Link.Act} (hrun : Run (Link.SteadyStep c S cfg E) k acts k') (docket : Docket) :
    ∃ docket', Run (SteadyStep c S cfg E) { link := k, docket := docket } acts
      { link := k', docket := docket' } := by
  induction hrun with
  | nil => exact ⟨docket, .nil⟩
  | snoc hfirst hlast ih =>
    obtain ⟨docket', hrun⟩ := ih
    exact ⟨_, hrun.snoc ⟨Option.map_eq_some_iff.mpr ⟨_, hlast.1, rfl⟩, hlast⟩⟩

theorem inv_start {S : Sodium} {cfg : HostConfig} {run : ℕ → ServerRun} {acc : ℕ → Accept}
    {hs : ℕ → HandshakeResult} {eph : EphemeralKeyPair} {client : HandshakeResult} {c : ℕ}
    (hpaired : Paired S eph client (run c) (hs c)) (rotation : RotationPolicy) (now : ℕ)
    (E : Set Bytes) :
    Inv S cfg c E { link := .start cfg run acc hs eph client rotation now } where
  link := Link.inv_start hpaired rotation now E
  judged := Desk.judged_start cfg run acc hs c
  hears := Line.hears_start eph client rotation now

end Ledger

/-- **Calls end as it was decided**, on a connection that stays up and has drawn fewer than
`2 ^ 64` request ids, however its calls, streams, subscriptions and key rotations follow each other:
a `get` that reports an answer or an error of the host's reports what the host has decided about
this very request, and about no request does it decide twice. The handlers of requests are called as
it was decided, in this order, and not otherwise: once for the request of a `get` that has returned
an answer. A `get` that still waits for such a decision ends with it as soon as nothing is left to
read. -/
theorem calls_end_as_decided (S : Sodium) (hS : S.AeadCorrect) (hkx : S.KxAgree)
    (cfg : HostConfig) (c : ℕ) (E : Set Bytes) (run : ℕ → ServerRun) (acc : ℕ → Accept)
    (hs : ℕ → HandshakeResult) (eph : EphemeralKeyPair) (client : HandshakeResult)
    (rotation : RotationPolicy) (now : ℕ) (hpaired : Paired S eph client (run c) (hs c))
    (acts : List Link.Act) (t : Ledger)
    (hrun : Run (Ledger.SteadyStep c S cfg E)
      { link := .start cfg run acc hs eph client rotation now } acts t)
    (hlt : t.link.line.side.calls.drawn.length < 2 ^ 64) : t.Faithful c :=
  (Ledger.inv_of_run hS hkx (Ledger.inv_start hpaired rotation now E) hrun hlt).faithful hS

/-! ### A call that is answered and one that is not found -/

namespace PlayedLink

open RotatedSession (sodium ephemeral)
open BusyLink (clientResult hostResult serverRun front paired)

def config : HostConfig := { serviceName := [115], policy := .allowAll }

/-- The endpoint `u` answers with what it was sent, and `t` is topic 0. -/
def env : Pass :=
  { SameRequestId.env with
    handlers := [([117], { kind := .receive }), ([116], { kind := .topic, access := some {} })]
    unary := fun data _ => ⟨true, data, []⟩ }

def tableActs : List HostTables.Act :=
  [.addTopic [116] 0, .addEntry [116] {}, .expose [117] { kind := .receive }]

def tables : Option HostTables := exec HostTables.step {} tableActs

theorem tables_isSome : tables.isSome = true := by decide

theorem sees : HostTables.Sees env := by
  refine ⟨tableActs, tables.get tables_isSome, [], tables.get tables_isSome,
    run_of_exec (Option.some_get tables_isSome).symm, .nil, ?_, ?_⟩
  · exact (by decide : env.handlers = (tables.get tables_isSome).exposed.handlers)
  · exact (by decide : env.topics = (tables.get tables_isSome).topics)

def link : Link :=
  .start config (fun _ => serverRun) (fun _ => SameRequestId.accept) (fun _ => hostResult)
    (ephemeral 1) clientResult {} 0

/-- What happens next. -/
inductive Move where
  | accept
  /-- The host handles the next frame. -/
  | serve
  | publish (message : Bytes)
  | client (a : Line.Act)
  | call (a : ClientCalls.Act)
  /-- The reader of the client reads the next frame. -/
  | read

namespace Move

def act (k : Link) : Move → Link.Act
  | accept => .host (.hub (.accept 0))
  | serve => .host (.hub (.frame 0 (front k.line.toHost) env))
  | publish message => .host (.hub (.publish 0 message fun _ => true))
  | client a => .client a
  | call a => .client (.side (.call a))
  | read => .client (.side (.read (front k.line.side.input)))

def checked (k : Link) : Move → Bool
  | serve => (front k.line.toHost).type ≠ .rekey
  | client a => decide (a.Succeeds sodium k.line) && decide a.Short
  | _ => true

end Move

def play (k : Link) (m : Move) : Option Link :=
  if m.checked k = true then
    (k.step 0 sodium config (m.act k)).filter fun k' => decide (k'.Up 0 sodium)
  else none

/-- A move that is checked is a step of a connection that stays up. -/
theorem steady_of_play {k k' : Link} {m : Move} (h : play k m = some k') :
    k.SteadyStep 0 sodium config ∅ (m.act k) k' := by
  obtain ⟨hchecked, h⟩ := Option.ite_none_right_eq_some.mp h
  obtain ⟨hstep, hup⟩ := Option.filter_eq_some_iff.mp h
  refine ⟨hstep, ?_, of_decide_eq_true hup⟩
  cases m with
  | accept => exact ⟨trivial, fun f env heq => by cases heq⟩
  | serve =>
    refine ⟨fun _ => ⟨rfl, fun _ => rfl, sees⟩, fun f env' heq => ?_⟩
    cases heq
    exact ⟨fun hf => absurd hf (of_decide_eq_true hchecked), fun e he => absurd he (by simp)⟩
  | publish message => exact ⟨fun _ _ _ _ => rfl, fun f env heq => by cases heq⟩
  | client a =>
    obtain ⟨hsucceeds, hshort⟩ := Bool.and_eq_true_iff.mp hchecked
    exact ⟨of_decide_eq_true hsucceeds, of_decide_eq_true hshort⟩
  | call _ | read => exact ⟨trivial, trivial⟩

theorem run_of_play {k k' : Link} {moves : List Move} (h : exec play k moves = some k') :
    ∃ acts, Run (Link.SteadyStep 0 sodium config ∅) k acts k' := by
  have hrun := run_of_exec h
  clear h
  induction hrun with
  | nil => exact ⟨[], .nil⟩
  | snoc hfirst hlast ih =>
    obtain ⟨acts, hrun⟩ := ih
    exact ⟨_, hrun.snoc (steady_of_play hlast)⟩

/-- A call sends its request. -/
def ask (i : ℕ) (kind : AskKind) (endpoint data : Bytes) : List Move :=
  [.client (.ask i kind endpoint data), .call (.draw i), .call (.register i),
    .client (.acquire (.call i) 0 (ephemeral 3) true), .client (.sendOwn true)]

/-- Two requests are under way at once; the host answers both before the client reads. -/
def askTwice : List Move :=
  [.accept] ++ ask 0 .get [117] [7] ++ ask 1 .get [120] [8] ++ [.serve, .serve,
    .client (.side .loop), .read, .client (.side .loop), .read, .call (.getWake 1 false),
    .call (.getWake 0 false)]

def askedTwice : Option Link := exec play link askTwice

theorem askedTwice_isSome : askedTwice.isSome = true := by decide +kernel

/-- One of two calls gets its answer, and the other one is not found. -/
theorem calls_end_as_decided_of_two :
    (askedTwice.get askedTwice_isSome).line.side.calls.calls 0 = .over .get 1 (.returned [7]) ∧
    (askedTwice.get askedTwice_isSome).line.side.calls.calls 1 = .over .get 2 .notFound ∧
    ∃ docket, Ledger.Faithful 0 { link := askedTwice.get askedTwice_isSome, docket := docket } := by
  obtain ⟨acts, hrun⟩ := run_of_play (Option.some_get askedTwice_isSome).symm
  obtain ⟨docket, hrun⟩ := Ledger.exists_run hrun []
  have hlt : (askedTwice.get askedTwice_isSome).line.side.calls.drawn.length < 2 ^ 64 := by
    decide +kernel
  refine ⟨by decide +kernel, by decide +kernel, docket, ?_⟩
  exact calls_end_as_decided sodium (Sodium.symbolic_aeadCorrect [])
    (Sodium.symbolic_kxAgree []) config 0 ∅ (fun _ => serverRun) (fun _ => SameRequestId.accept)
    (fun _ => hostResult) (ephemeral 1) clientResult {} 0 paired acts _ hrun hlt

end PlayedLink

end Epx
