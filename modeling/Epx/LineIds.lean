import Epx.ClientEnd
import Epx.StreamOutcome

/-!
# Whose payloads a client makes

Every payload that goes out on a `Line` carries the id of the call, of the `send` or of the output
stream that it was made for. The ids are distinct as long as fewer than `2 ^ 64` are drawn, and the
id of a call that has not made its request yet is on no payload. What has been sealed, rotations
aside, are the payloads that were made, in the order in which the mutex was taken.

## Main definitions

* `Line.Seals` — what was sealed is what was made
* `Line.OwnIds` — the ids on what was made

## Main results

* `Line.Seals.step`, `Line.OwnIds.step`
-/

namespace Epx

open Codec Transition

/-! ### Calls that have not asked yet -/

/-- The kind and the id of a call whose request was not sealed yet. -/
def CallPlace.unasked : CallPlace → Option (AskKind × UInt64)
  | .drawn kind id | .registered kind id => some (kind, id)
  | _ => none

/-- The call has put its entry into a table. -/
def CallPlace.entered : CallPlace → Bool
  | .drawn _ _ => false
  | c => c.asks.isSome

/-- A call goes on from one place to another, and its request was sealed or will not be. -/
structure CallPlace.Later (c c' : CallPlace) : Prop where
  asks : c'.asks = c.asks
  late : c'.unasked = none
  under : c'.under = c.under ∨ c'.under = none

theorem CallPlace.Later.entered {c c' : CallPlace} (h : c.Later c') (hc : c.entered = true) :
    c'.entered = true := by
  have hsome : c.asks.isSome = true := by
    cases c <;> first | exact hc | rfl
  have hlate := h.late
  rw [← h.asks] at hsome
  cases c' <;> first | exact hsome | cases hlate

theorem CallPlace.asks_of_unasked {c : CallPlace} {x : AskKind × UInt64} (h : c.unasked = some x) :
    c.asks = some x := by
  cases c <;> simp [unasked] at h <;> simp [asks, h]

theorem CallPlace.Goes.later {c c' : CallPlace} (h : c.Goes c') : c.Later c' :=
  ⟨h.asks_eq, by cases h <;> rfl, Or.inl h.under_eq⟩

namespace ClientCalls

section

variable {s s' : ClientCalls} {a : Act}

/-- What a step does to a call: it stays, draws its id, registers, or goes on having asked. -/
theorem place_of_step (hstep : s.Step a s') (i : ℕ) :
    s'.calls i = s.calls i ∨
    (∃ kind, s.calls i = .found kind ∧ s'.calls i = .drawn kind s.nextRequestId ∧
      s'.drawn = s.drawn ++ [s.nextRequestId]) ∨
    (∃ kind id, s.calls i = .drawn kind id ∧ s'.calls i = .registered kind id) ∨
    (s.calls i).Later (s'.calls i) := by
  have hmove : ∀ {t : ClientCalls} {j : ℕ} {c : CallPlace}, t.calls = s.calls →
      (s.calls j).Later c →
      (t.move j c).calls i = s.calls i ∨ (s.calls i).Later ((t.move j c).calls i) := by
    intro t j c hcalls hlater
    by_cases hij : i = j
    · subst hij
      rw [move_calls_self]
      exact Or.inr hlater
    · rw [move_calls_of_ne hij, hcalls]
      exact Or.inl rfl
  have hgo : ∀ {p q q' r : Prop}, p ∨ r → p ∨ q ∨ q' ∨ r :=
    fun h => h.imp_right fun h => Or.inr (Or.inr h)
  cases effect_of_step hstep with
  | @moved _ j c hgoes =>
    exact hgo (hmove (t := s) rfl hgoes.later)
  | @drew j kind hcall =>
    by_cases hij : i = j
    · subst hij
      exact Or.inr (Or.inl ⟨kind, hcall, Function.update_self _ _ _, rfl⟩)
    · exact Or.inl (move_calls_of_ne hij _)
  | @registered j kind id hcall =>
    have hcalls := s.register_calls j id kind
    by_cases hij : i = j
    · subst hij
      exact Or.inr (Or.inr (Or.inl ⟨kind, id, hcall, Function.update_self _ _ _⟩))
    · rw [move_calls_of_ne hij, hcalls]
      exact Or.inl rfl
  | @gaveUp j kind id hcall =>
    have hcalls := s.unregister_calls id kind
    exact hgo (hmove hcalls (c := .over kind id .sendFailed) ⟨by rw [hcall]; rfl, rfl, Or.inr rfl⟩)
  | @getOver j id _ o hcall _ _ =>
    exact hgo (hmove (t := s.erasePending id) rfl (c := .over .get id o)
      ⟨by rw [hcall]; rfl, rfl, Or.inr rfl⟩)
  | @streamOver _ j id before timedOut hcall _ =>
    have hasks : (s.calls j).asks = some (.getStream, id) := by
      rcases hcall with ⟨-, hcall, -⟩ | ⟨-, hcall⟩
      · rw [hcall]
        rfl
      · rw [hcall]
        rfl
    exact hgo (hmove (t := s.eraseSink id) rfl (c := .over .getStream id (s.streamOutcome id))
      ⟨by rw [hasks]; rfl, rfl, Or.inr rfl⟩)
  | @unsubscribing j j' _ hj _ _ =>
    exact hgo (hmove (t := s) rfl (c := .unsubscribing j')
      ⟨by rw [hj]; rfl, rfl, Or.inr rfl⟩)
  | @unsubscribedAgain j j' _ hj _ _ =>
    exact hgo (hmove (t := s) rfl (c := .unsubscribed j')
      ⟨by rw [hj]; rfl, rfl, Or.inr rfl⟩)
  | @unsubscribeErased j j' id hj _ =>
    exact hgo (hmove (t := s.eraseSink id) rfl (c := .unsubscribeErased j')
      ⟨by rw [hj]; rfl, rfl, Or.inr rfl⟩)
  | @unsubscribeReturned j j' hj _ =>
    exact hgo (hmove (t := s) rfl (c := .unsubscribed j')
      ⟨by rw [hj]; rfl, rfl, Or.inr rfl⟩)
  | @unsubscribeSent j j' hj _ =>
    exact hgo (hmove (t := s.draw) rfl (c := .unsubscribed j')
      ⟨by rw [hj]; rfl, rfl, Or.inr rfl⟩)
  | @ended d _ =>
    obtain ⟨sinks, heq⟩ := s.eraseLast_eq d
    rw [heq]
    exact Or.inl rfl
  | _ => exact Or.inl rfl

theorem entered_of_step (hstep : s.Step a s') {i : ℕ} (h : (s.calls i).entered = true) :
    (s'.calls i).entered = true := by
  rcases place_of_step hstep i with heq | ⟨_, hfound, -⟩ | ⟨_, _, hdrew, -⟩ | hlater
  · rwa [heq]
  · rw [hfound] at h
    cases h
  · rw [hdrew] at h
    cases h
  · exact hlater.entered h

end

end ClientCalls

/-! ### What was made -/

/-- The payload that the holder of `write_mutex` is going to seal. -/
def Writer.payload : Writer → Option (FrameType × Bytes)
  | .free => none
  | .rekeyWritten _ type plaintext | .ephStored type plaintext | .ready type plaintext =>
    some (type, plaintext)

namespace ClientFrame

def asRequest : ClientFrame → Option RequestPayload
  | .request req => some req
  | .streamChunk _ => none

def asChunk : ClientFrame → Option StreamChunkPayload
  | .request _ => none
  | .streamChunk chunk => some chunk

theorem type_content (f : ClientFrame) : f.content.1 ≠ .rekey := by
  cases f with
  | request req => exact (by decide : FrameType.request ≠ .rekey)
  | streamChunk chunk => exact (by decide : FrameType.streamChunk ≠ .rekey)

end ClientFrame

namespace Line

/-- The payloads that were made, with the one whose sender holds the mutex. -/
def made (s : Line) : List ClientFrame := s.sent ++ (s.sending.map Sending.frame).toList

/-- The requests that were made. -/
def posed (s : Line) : List RequestPayload := s.made.filterMap ClientFrame.asRequest ++ s.unsent

/-- The ids that requests and output streams were made with. -/
def spent (s : Line) : List UInt64 :=
  s.posed.map RequestPayload.requestId ++ s.outputs.map OutputStream.requestId

/-- What was sealed is what was made. -/
structure Seals (s : Line) : Prop where
  writer : s.side.conn.writer.payload = s.sending.map fun x => x.frame.content
  sealed : (s.side.conn.sealed.map SealCall.content).filter (fun x => x.1 ≠ .rekey)
    = s.sent.map ClientFrame.content

theorem seals_start (eph : EphemeralKeyPair) (hs : HandshakeResult) (rotation : RotationPolicy)
    (now : ℕ) : (start eph hs rotation now).Seals where
  writer := rfl
  sealed := rfl

section

variable {S : Sodium} {s s' : Line} {a : Act} {x : Sending}

theorem Seals.congr (h : s.Seals) (hwriter : s'.side.conn.writer = s.side.conn.writer)
    (hsealed : s'.side.conn.sealed = s.side.conn.sealed) (hsending : s'.sending = s.sending)
    (hsent : s'.sent = s.sent) : s'.Seals where
  writer := by rw [hwriter, hsending]; exact h.writer
  sealed := by rw [hsealed, hsent]; exact h.sealed

theorem Submits.sending_eq (h : s.Submits s' x) : s'.sending = s.sending ∧ s'.sent = s.sent := by
  cases h <;> exact ⟨rfl, rfl⟩

theorem sealed_of_side {side : ClientSide} (h : ClientSide.Effect S s.side side) :
    side.conn.writer = s.side.conn.writer ∧ side.conn.sealed = s.side.conn.sealed := by
  cases h with
  | calls _ _ _ => exact ⟨rfl, rfl⟩
  | read hrunning _ _ => exact Connection.sealed_of_reads rfl (Connection.effect_receive S hrunning)
  | swapped hreader _ _ =>
    exact Connection.sealed_of_reads rfl (Connection.effect_swapEph S hreader)
  | switched _ _ _ => exact ⟨rfl, rfl⟩

theorem Seals.step (h : s.Seals) (hstep : Step S s a s') : s'.Seals := by
  cases effect_of_step hstep with
  | asked _ | posted | opened | unsubscribed _ _ | told _ _ => exact h.congr rfl rfl rfl rfl
  | side hquiet hside =>
    obtain ⟨hwriter, hsealed⟩ := sealed_of_side (ClientSide.effect_of_step hquiet hside)
    exact h.congr hwriter hsealed rfl rfl
  | @acquired what now eph ok s₁ x p hsubmits hp =>
    obtain ⟨-, hsent⟩ := hsubmits.sending_eq
    obtain ⟨c, out⟩ := p
    cases Connection.effect_of_step S hp with
    | ready _ _ _ =>
      refine ⟨rfl, ?_⟩
      change (s.side.conn.sealed.map _).filter _ = s₁.sent.map _
      rw [hsent]
      exact h.sealed
    | offered _ _ _ =>
      refine ⟨?_, ?_⟩
      · cases ok <;> rfl
      · change ((s.side.conn.sealed ++ [_]).map _).filter _ = s₁.sent.map _
        rw [List.map_append, List.filter_append, h.sealed, hsent]
        exact List.append_nil _
  | @stored p hp =>
    obtain ⟨c, out⟩ := p
    cases Connection.effect_of_step S hp with
    | storeEph hw =>
      have hpayload := h.writer
      rw [hw] at hpayload
      exact ⟨hpayload, h.sealed⟩
  | @offered p hp =>
    obtain ⟨c, out⟩ := p
    cases Connection.effect_of_step S hp with
    | setInProgress hw =>
      have hpayload := h.writer
      rw [hw] at hpayload
      exact ⟨hpayload, h.sealed⟩
  | @sent ok x p k hx hp hk =>
    obtain ⟨c, out⟩ := p
    cases Connection.effect_of_step S hp with
    | @sendOwn type plaintext _ hw =>
      have hpayload := h.writer
      rw [hw, hx] at hpayload
      have hcontent : (type, plaintext) = x.frame.content := Option.some.inj hpayload
      refine ⟨rfl, ?_⟩
      change ((s.side.conn.sealed ++ [s.side.conn.tx.call type plaintext]).map _).filter _
        = (s.sent ++ [x.frame]).map _
      rw [List.map_append, List.filter_append, h.sealed, List.map_append]
      have hlast : (s.side.conn.tx.call type plaintext).content = x.frame.content := hcontent
      rw [List.map_singleton, hlast, List.filter_cons_of_pos (by simpa using x.frame.type_content)]
      rfl

/-- The mutex is free when a payload is made. -/
theorem Seals.free (h : s.Seals) {type : FrameType} {plaintext : Bytes} {now : ℕ}
    {eph : EphemeralKeyPair} {ok : Bool} {p : Connection × Option RawFrame}
    (hp : s.side.conn.step S (.acquire type plaintext now eph ok) = some p) : s.sending = none := by
  have hwriter : s.side.conn.writer = .free := by
    obtain ⟨c, out⟩ := p
    cases Connection.effect_of_step S hp with
    | ready hw _ _ | offered hw _ _ => exact hw
  have hpayload := h.writer
  rw [hwriter] at hpayload
  exact Option.map_eq_none_iff.mp hpayload.symm

end

/-! ### Ids -/

/-- The ids on what was made. -/
structure OwnIds (s : Line) : Prop where
  nodup : s.spent.Nodup
  drawn : ∀ id ∈ s.spent, id ∈ s.side.calls.drawn
  /-- A call whose request was not made. -/
  free : ∀ i kind id, (s.side.calls.calls i).unasked = some (kind, id) →
    (∀ x, s.sending = some x → x.call ≠ some i) → id ∉ s.spent
  calls : ∀ req ∈ s.posed, ∀ i kind,
    (s.side.calls.calls i).asks = some (kind, req.requestId) → req = s.request i req.requestId
  hand : ∀ i x, s.sending = some x → x.call = some i → (s.side.calls.calls i).entered = true

theorem ownIds_start (eph : EphemeralKeyPair) (hs : HandshakeResult) (rotation : RotationPolicy)
    (now : ℕ) : (start eph hs rotation now).OwnIds where
  nodup := List.nodup_nil
  drawn _ h := absurd h List.not_mem_nil
  free _ _ _ h := by cases h
  calls _ h := absurd h List.not_mem_nil
  hand _ _ h := by cases h

section

variable {S : Sodium} {s s' : Line} {a : Act} {x : Sending}

/-- Payloads change their place only. -/
theorem OwnIds.same (h : s.OwnIds) (hspent : s'.spent.Perm s.spent)
    (hposed : ∀ req ∈ s'.posed, req ∈ s.posed) (hcalls : s'.side.calls = s.side.calls)
    (hasked : s'.asked = s.asked) (hhand : ∀ i x, s.sending = some x → x.call = some i →
      ∃ x', s'.sending = some x' ∧ x'.call = some i) (hback : ∀ i x, s'.sending = some x →
      x.call = some i → ∃ x', s.sending = some x' ∧ x'.call = some i) : s'.OwnIds where
  nodup := hspent.nodup_iff.mpr h.nodup
  drawn id hid := by
    rw [hcalls]
    exact h.drawn id (hspent.mem_iff.mp hid)
  free i kind id hi hno := by
    rw [hspent.mem_iff]
    rw [hcalls] at hi
    refine h.free i kind id hi fun x hx hcall => ?_
    obtain ⟨x', hx', hcall'⟩ := hhand i x hx hcall
    exact hno x' hx' hcall'
  calls req hreq i kind hi := by
    rw [hcalls] at hi
    rw [request, hasked]
    exact h.calls req (hposed req hreq) i kind hi
  hand i x hx hcall := by
    obtain ⟨x', hx', hcall'⟩ := hback i x hx hcall
    rw [hcalls]
    exact h.hand i x' hx' hcall'

/-- One more payload, with an id that is no call's. -/
theorem OwnIds.append (h : s.OwnIds) {id : UInt64} (hnew : id ∉ s.spent)
    (hin : id ∈ s.side.calls.drawn) (hno : ∀ i kind, (s.side.calls.calls i).asks ≠ some (kind, id))
    (hspent : s'.spent.Perm (id :: s.spent))
    (hposed : ∀ req ∈ s'.posed, req ∈ s.posed ∨ req.requestId = id)
    (hcalls : s'.side.calls = s.side.calls) (hasked : s'.asked = s.asked)
    (hsending : s'.sending = s.sending) : s'.OwnIds where
  nodup := hspent.nodup_iff.mpr (List.nodup_cons.mpr ⟨hnew, h.nodup⟩)
  drawn id' hid := by
    rw [hcalls]
    rcases List.mem_cons.mp (hspent.mem_iff.mp hid) with rfl | hid
    · exact hin
    · exact h.drawn id' hid
  free i kind id' hi hhand := by
    rw [hcalls] at hi
    rw [hsending] at hhand
    rw [hspent.mem_iff, List.mem_cons]
    rintro (rfl | hid)
    · exact hno i kind (CallPlace.asks_of_unasked hi)
    · exact h.free i kind id' hi hhand hid
  calls req hreq i kind hi := by
    rw [hcalls] at hi
    rw [request, hasked]
    rcases hposed req hreq with hold | rfl
    · exact h.calls req hold i kind hi
    · exact absurd hi (hno i kind)
  hand := by
    rw [hsending, hcalls]
    exact h.hand

/-- The request of a call is made. -/
theorem OwnIds.ask (h : s.OwnIds) (hids : s.side.calls.Ids) (hnone : s.sending = none) {i : ℕ}
    {kind : AskKind} {id : UInt64} (hi : s.side.calls.calls i = .registered kind id)
    (hspent : s'.spent.Perm (id :: s.spent))
    (hposed : ∀ req ∈ s'.posed, req ∈ s.posed ∨ req = s.request i id)
    (hcalls : s'.side.calls = s.side.calls) (hasked : s'.asked = s.asked)
    (hsending : ∃ x, s'.sending = some x ∧ x.call = some i) : s'.OwnIds := by
  have hasks : (s.side.calls.calls i).asks = some (kind, id) := by rw [hi]; rfl
  have hfree : ∀ j kind' id', (s.side.calls.calls j).unasked = some (kind', id') →
      id' ∉ s.spent := by
    intro j kind' id' hj
    refine h.free j kind' id' hj fun x hx => ?_
    rw [hnone] at hx
    cases hx
  refine ⟨?_, fun id' hid => ?_, fun j kind' id' hj hhand => ?_, fun req hreq j kind' hj => ?_,
    fun j y hy hcall => ?_⟩
  · exact hspent.nodup_iff.mpr
      (List.nodup_cons.mpr ⟨hfree i kind id (by rw [hi]; rfl), h.nodup⟩)
  · rw [hcalls]
    rcases List.mem_cons.mp (hspent.mem_iff.mp hid) with rfl | hid
    · exact hids.asks_drawn i kind id' hasks
    · exact h.drawn id' hid
  · rw [hcalls] at hj
    rw [hspent.mem_iff, List.mem_cons]
    rintro (rfl | hid)
    · obtain ⟨x, hx, hcall⟩ := hsending
      have hij := hids.asks_inj j i kind' kind id' (CallPlace.asks_of_unasked hj) hasks
      exact hhand x hx (by rw [hcall, hij])
    · exact hfree j kind' id' hj hid
  · rw [hcalls] at hj
    have hsame : s'.request j req.requestId = s.request j req.requestId := by
      rw [request, hasked, request]
    rw [hsame]
    rcases hposed req hreq with hold | rfl
    · exact h.calls req hold j kind' hj
    · rw [hids.asks_inj j i kind' kind id hj hasks]
      rfl
  · obtain ⟨x, hx, hi'⟩ := hsending
    rw [hx] at hy
    cases hy
    rw [hi'] at hcall
    cases hcall
    rw [hcalls, hi]
    rfl

/-- A call takes a step, and nothing is made. -/
theorem OwnIds.call (h : s.OwnIds) (hids : s.side.calls.Ids) {b : ClientCalls.Act}
    (hstep : s.side.calls.Step b s'.side.calls) (hlt : s'.side.calls.drawn.length < 2 ^ 64)
    (hspent : s'.spent = s.spent) (hposed : s'.posed = s.posed)
    (hasked : ∀ i x, (s'.side.calls.calls i).asks = some x → s'.asked i = s.asked i)
    (hhand : ∀ i x, s.sending = some x → x.call = some i →
      (s'.side.calls.calls i).unasked = none ∨ ∃ x', s'.sending = some x' ∧ x'.call = some i)
    (hback : ∀ x, s'.sending = some x → s.sending = some x) : s'.OwnIds := by
  have hfresh : s'.side.calls.drawn = s.side.calls.drawn ++ [s.side.calls.nextRequestId] →
      s.side.calls.nextRequestId ∉ s.side.calls.drawn := by
    intro hdrawn
    rw [hdrawn, List.length_append] at hlt
    exact hids.fresh hlt
  refine ⟨?_, fun id hid => ?_, fun i kind id hi hno => ?_, fun req hreq i kind hi => ?_,
    fun i x hx hcall => ClientCalls.entered_of_step hstep (h.hand i x (hback x hx) hcall)⟩
  · rw [hspent]
    exact h.nodup
  · rw [hspent] at hid
    rcases ClientCalls.drawn_step hstep with heq | heq
    · rw [heq]
      exact h.drawn id hid
    · rw [heq]
      exact List.mem_append_left _ (h.drawn id hid)
  · rw [hspent]
    have hold : (s.side.calls.calls i).unasked = some (kind, id) → id ∉ s.spent := by
      intro hold
      refine h.free i kind id hold fun x hx hcall => ?_
      rcases hhand i x hx hcall with hnone | ⟨x', hx', hcall'⟩
      · rw [hi] at hnone
        cases hnone
      · exact hno x' hx' hcall'
    rcases ClientCalls.place_of_step hstep i with heq | ⟨_, -, hdrew, hdrawn⟩ |
      ⟨_, _, hdrew, hregistered⟩ | hlater
    · exact hold (by rwa [← heq])
    · rw [hdrew] at hi
      cases hi
      exact fun hid => hfresh hdrawn (h.drawn _ hid)
    · rw [hregistered] at hi
      cases hi
      exact hold (by rw [hdrew]; rfl)
    · rw [hlater.late] at hi
      cases hi
  · rw [hposed] at hreq
    rw [request, hasked i _ hi]
    refine h.calls req hreq i kind ?_
    rcases ClientCalls.place_of_step hstep i with heq | ⟨_, -, hdrew, hdrawn⟩ |
      ⟨_, _, hdrew, hregistered⟩ | hlater
    · rwa [← heq]
    · rw [hdrew] at hi
      obtain ⟨-, hid⟩ := Prod.mk.inj (Option.some.inj hi)
      refine absurd (h.drawn req.requestId ?_) (by rw [← hid]; exact hfresh hdrawn)
      exact List.mem_append_left _ (List.mem_map_of_mem hreq)
    · rw [hregistered] at hi
      rw [hdrew]
      exact hi
    · rwa [← hlater.asks]

theorem OwnIds.told (h : s.OwnIds) (hids : s.side.calls.Ids) {b : Option ClientCalls.Act}
    {side : ClientSide} (htold : ClientSide.told s.side.calls b = some side.calls)
    (hlt : side.calls.drawn.length < 2 ^ 64) : OwnIds { s with side := side } := by
  cases b with
  | none =>
    have hcalls : side.calls = s.side.calls := (Option.some.inj htold).symm
    exact h.same (List.Perm.refl _) (fun _ h => h) hcalls rfl (fun _ x hx hcall => ⟨x, hx, hcall⟩)
      fun _ x hx hcall => ⟨x, hx, hcall⟩
  | some b =>
    exact h.call hids htold hlt rfl rfl (fun _ _ _ => rfl)
      (fun _ x hx hcall => Or.inr ⟨x, hx, hcall⟩) fun _ hx => hx

/-- An output stream keeps its id. -/
theorem requestIds_set {outputs : List OutputStream} {k : ℕ} {o o' : OutputStream}
    (ho : outputs[k]? = some o) (hid : o'.requestId = o.requestId) :
    (outputs.set k o').map OutputStream.requestId = outputs.map OutputStream.requestId := by
  have hget : (outputs.map OutputStream.requestId)[k]? = some o'.requestId := by
    rw [List.getElem?_map, ho, hid]
    rfl
  obtain ⟨hk, hget⟩ := List.getElem?_eq_some_iff.mp hget
  rw [List.map_set, ← hget, List.set_getElem_self]

/-- What was made after a payload was made. -/
theorem made_of_none {f : ClientFrame} (hnone : s.sending = none) (hsent : s'.sent = s.sent)
    (hsending : s'.sending.map Sending.frame = some f) : s'.made = s.made ++ [f] := by
  rw [made, made, hnone, hsent, hsending]
  simp

/-- An id is drawn for a payload that is no call's. -/
theorem OwnIds.drew (h : s.OwnIds) (hids : s.side.calls.Ids) {b : ClientCalls.Act} {k : ClientCalls}
    (hstep : s.side.calls.Step b k) (hlt : k.drawn.length < 2 ^ 64)
    (hdrawn : k.drawn = s.side.calls.drawn ++ [s.side.calls.nextRequestId])
    (hasks : ∀ i x, (k.calls i).asks = some x → (s.side.calls.calls i).asks = some x)
    (hspent : s'.spent.Perm (s.side.calls.nextRequestId :: s.spent))
    (hposed : ∀ req ∈ s'.posed, req ∈ s.posed ∨ req.requestId = s.side.calls.nextRequestId)
    (hcalls : s'.side.calls = k) (hasked : s'.asked = s.asked)
    (hsending : s'.sending = s.sending) : s'.OwnIds := by
  have hfresh : s.side.calls.nextRequestId ∉ s.side.calls.drawn := by
    rw [hdrawn, List.length_append] at hlt
    exact hids.fresh hlt
  have hcall : (s.withCalls k).OwnIds :=
    h.call hids hstep hlt rfl rfl (fun _ _ _ => rfl)
      (fun _ x hx hcall => Or.inr ⟨x, hx, hcall⟩) fun _ hx => hx
  refine hcall.append (fun hid => hfresh (h.drawn _ hid)) ?_ (fun i kind hi => ?_) hspent hposed
    hcalls hasked hsending
  · change _ ∈ k.drawn
    rw [hdrawn]
    exact List.mem_append_right _ (List.mem_singleton_self _)
  · exact hfresh (hids.asks_drawn i kind _ (hasks i _ hi))

/-- A payload is made. -/
theorem OwnIds.acquired (h : s.OwnIds) (hids : s.side.calls.Ids) (hnone : s.sending = none)
    {s₁ : Line} (hsubmits : s.Submits s₁ x) (hcalls : s'.side.calls = s.side.calls)
    (hasked : s'.asked = s₁.asked) (hunsent : s'.unsent = s₁.unsent)
    (houtputs : s'.outputs = s₁.outputs) (hsent : s'.sent = s.sent)
    (hsending : s'.sending = some x) : s'.OwnIds := by
  have hmade : s'.made = s.made ++ [x.frame] := made_of_none hnone hsent (by rw [hsending]; rfl)
  have hposed : s'.posed = s.made.filterMap ClientFrame.asRequest ++
      (x.frame.asRequest.toList ++ s₁.unsent) := by
    rw [posed, hmade, hunsent, List.filterMap_append, List.append_assoc]
    cases hreq : x.frame.asRequest <;> simp [hreq]
  have hchunk : x.frame.asRequest = none → x.call = none → s₁.unsent = s.unsent →
      s₁.asked = s.asked →
      s₁.outputs.map OutputStream.requestId = s.outputs.map OutputStream.requestId →
      s'.OwnIds := by
    intro hreq hnocall hunsent' hasked' houtputs'
    have hsame : s'.posed = s.posed := by rw [hposed, hreq, hunsent']; rfl
    have hspent : s'.spent = s.spent := by rw [spent, hsame, houtputs, houtputs']; rfl
    refine h.same (by rw [hspent]) (fun req hin => ?_) hcalls (hasked.trans hasked')
      (fun i y hy => ?_) fun i y hy hcall => ?_
    · rwa [hsame] at hin
    · rw [hnone] at hy
      cases hy
    · rw [hsending] at hy
      cases hy
      rw [hnocall] at hcall
      cases hcall
  cases hsubmits with
  | @call i kind id hcall =>
    have hspent : s'.spent.Perm (id :: s.spent) := by
      rw [spent, hposed, houtputs, List.map_append, List.map_append, spent, posed, List.map_append,
        List.append_assoc, List.append_assoc, List.append_assoc]
      exact List.perm_middle
    refine h.ask hids hnone hcall hspent (fun req hin => ?_) hcalls hasked ⟨_, hsending, rfl⟩
    rw [hposed] at hin
    rcases List.mem_append.mp hin with hin | hin
    · exact Or.inl (List.mem_append_left _ hin)
    · rcases List.mem_cons.mp hin with rfl | hin
      · exact Or.inr rfl
      · exact Or.inl (List.mem_append_right _ hin)
  | @unsent k req hreq =>
    obtain ⟨hk, hget⟩ := List.getElem?_eq_some_iff.mp hreq
    have hperm : (req :: s.unsent.eraseIdx k).Perm s.unsent := by
      rw [← hget]
      exact List.getElem_cons_eraseIdx_perm hk
    have hposed' : s'.posed.Perm s.posed := by
      rw [hposed, posed]
      exact hperm.append_left _
    refine h.same ?_ (fun req' hin => hposed'.mem_iff.mp hin) hcalls hasked
      (fun i y hy => ?_) fun i y hy hcall => ?_
    · rw [spent, houtputs]
      exact (hposed'.map _).append_right _
    · rw [hnone] at hy
      cases hy
    · rw [hsending] at hy
      cases hy
      cases hcall
  | @write k o data ho hopen => exact hchunk rfl rfl rfl rfl (requestIds_set ho rfl)
  | @finish k o ho hopen => exact hchunk rfl rfl rfl rfl (requestIds_set ho rfl)

/-- A call that has drawn its id and not registered has no payload. -/
theorem OwnIds.not_mem_of_drawn (h : s.OwnIds) {i : ℕ} {kind : AskKind} {id : UInt64}
    (hi : s.side.calls.calls i = .drawn kind id) : id ∉ s.spent := by
  refine h.free i kind id (by rw [hi]; rfl) fun x hx hcall => ?_
  have hentered := h.hand i x hx hcall
  rw [hi] at hentered
  cases hentered

/-- Ids are drawn, and never given back. -/
theorem drawn_le (hstep : Step S s a s') :
    s.side.calls.drawn.length ≤ s'.side.calls.drawn.length := by
  have htold : ∀ {b : Option ClientCalls.Act} {k : ClientCalls},
      ClientSide.told s.side.calls b = some k → s.side.calls.drawn.length ≤ k.drawn.length := by
    intro b k hk
    cases b with
    | none => exact Nat.le_of_eq (congrArg _ (congrArg _ (Option.some.inj hk)))
    | some b => exact ClientCalls.drawn_le (a := b) hk
  cases effect_of_step hstep with
  | side hquiet hside =>
    cases ClientSide.effect_of_step hquiet hside with
    | calls _ _ hk => exact ClientCalls.drawn_le hk
    | read _ _ hk | swapped _ _ hk => exact htold hk
    | switched _ _ hk => exact ClientCalls.drawn_le hk
  | asked hk | unsubscribed hk _ | told hk _ => exact ClientCalls.drawn_le hk
  | posted | opened => exact ClientCalls.drawn_le (a := .drawOther) rfl
  | acquired hsubmits _ => exact Nat.le_of_eq (by rw [← hsubmits.side_eq]; rfl)
  | stored _ | offered _ => exact Nat.le_refl _
  | @sent ok x p k hx hp hk =>
    cases hcall : x.call with
    | none =>
      rw [hcall] at hk
      exact Nat.le_of_eq (congrArg _ (congrArg _ (Option.some.inj hk)))
    | some i =>
      rw [hcall] at hk
      exact ClientCalls.drawn_le (a := .send i ok) hk

/-- **Every step keeps the ids apart**, as long as they do not start over. -/
theorem OwnIds.step (h : s.OwnIds) (hseals : s.Seals) (hids : s.side.calls.Ids)
    (hstep : Step S s a s') (hlt : s'.side.calls.drawn.length < 2 ^ 64) : s'.OwnIds := by
  have hpost : ∀ {s' : Line} (reqs : List RequestPayload),
      (∀ req ∈ reqs, req.requestId = s.side.calls.nextRequestId) →
      s'.posed = s.posed ++ reqs → ∀ req ∈ s'.posed,
      req ∈ s.posed ∨ req.requestId = s.side.calls.nextRequestId := by
    intro s' reqs hreqs hposed req hin
    rw [hposed] at hin
    exact (List.mem_append.mp hin).imp_right (hreqs req)
  cases effect_of_step hstep with
  | @side b side hquiet hside =>
    cases ClientSide.effect_of_step hquiet hside with
    | calls _ _ hk => exact h.told hids (b := some _) hk hlt
    | read _ _ hk => exact h.told hids hk hlt
    | swapped _ _ hk => exact h.told hids hk hlt
    | switched _ _ hk => exact h.told hids (b := some .readOther) hk hlt
  | @asked i kind endpoint data k hk =>
    refine h.call hids hk hlt rfl rfl (fun j x hj => ?_)
      (fun _ x hx hcall => Or.inr ⟨x, hx, hcall⟩) fun _ hx => hx
    refine Function.update_of_ne ?_ _ _
    rintro rfl
    have hfun := hk
    simp only [OfFun, ClientCalls.step] at hfun
    split at hfun
    · obtain ⟨-, heq⟩ := Option.ite_none_right_eq_some.mp hfun
      cases heq
      have hnone : ((s.side.calls.move j (.found kind)).calls j).asks = none := by
        rw [ClientCalls.move_calls_self]
        rfl
      exact absurd (hnone.symm.trans hj) (by simp)
    · cases hfun
  | @posted endpoint data =>
    have hdrew : s.side.calls.Step .drawOther s.side.calls.draw := rfl
    refine h.drew hids hdrew hlt rfl (fun _ _ h => h) ?_
      (hpost [⟨s.side.calls.nextRequestId, true, endpoint, data⟩] ?_ ?_) rfl rfl rfl
    · simp only [spent, posed, made, withCalls, List.map_append, List.append_assoc]
      exact (List.perm_middle.append_left _).trans List.perm_middle
    · intro req hreq
      rw [List.mem_singleton.mp hreq]
    · simp only [posed, made, withCalls, List.append_assoc]
  | @opened endpoint =>
    have hdrew : s.side.calls.Step .drawOther s.side.calls.draw := rfl
    refine h.drew hids hdrew hlt rfl (fun _ _ h => h) ?_ (hpost [] (by simp) ?_) rfl rfl rfl
    · simp only [spent, posed, made, withCalls, List.map_append, ← List.append_assoc]
      exact List.perm_append_singleton _ _
    · simp only [posed, made, withCalls, List.append_nil]
  | unsubscribed hk _ =>
    exact h.call hids hk hlt rfl rfl (fun _ _ _ => rfl)
      (fun _ x hx hcall => Or.inr ⟨x, hx, hcall⟩) fun _ hx => hx
  | @told j id k hk hdrawn =>
    refine h.drew hids hk hlt hdrawn (fun i x hi => ?_) ?_
      (hpost [s.unsubscribeRequest id] ?_ ?_) rfl rfl rfl
    · have hfun := hk
      simp only [OfFun, ClientCalls.step] at hfun
      split at hfun
      · next i' _ =>
        cases hfun
        obtain ⟨-, hi⟩ | ⟨-, hi⟩ :=
          ClientCalls.of_move_calls (P := fun c : CallPlace => c.asks = some x) hi
        · cases hi
        · split at hi
          · exact hi
          · exact hi
      · cases hfun
    · simp only [spent, posed, made, withCalls, List.map_append, List.append_assoc]
      exact (List.perm_middle.append_left _).trans List.perm_middle
    · intro req hreq
      rw [List.mem_singleton.mp hreq]
      rfl
    · simp only [posed, made, withCalls, List.append_assoc]
  | @acquired what now eph ok s₁ x p hsubmits hp =>
    have hcalls : s₁.side.calls = s.side.calls := by rw [hsubmits.side_eq]
    exact h.acquired hids (hseals.free hp) hsubmits hcalls rfl rfl rfl hsubmits.sending_eq.2 rfl
  | stored _ | offered _ =>
    exact h.same (List.Perm.refl _) (fun _ h => h) rfl rfl (fun _ x hx hcall => ⟨x, hx, hcall⟩)
      fun _ x hx hcall => ⟨x, hx, hcall⟩
  | @sent ok x p k hx hp hk =>
    have hmade : Line.made { (s.withCalls k).withConn p with
        sending := none, sent := s.sent ++ [x.frame] } = s.made := by
      rw [made, made, hx]
      simp
    have hposed : Line.posed { (s.withCalls k).withConn p with
        sending := none, sent := s.sent ++ [x.frame] } = s.posed := by
      rw [posed, posed, hmade]
      rfl
    have hspent : Line.spent { (s.withCalls k).withConn p with
        sending := none, sent := s.sent ++ [x.frame] } = s.spent := by
      rw [spent, spent, hposed]
      rfl
    cases hcall : x.call with
    | none =>
      rw [hcall] at hk
      refine h.same (by rw [hspent]) (fun req hin => by rwa [hposed] at hin)
        (Option.some.inj hk).symm rfl (fun i y hy hcall' => ?_) fun _ _ hy => by cases hy
      rw [hx] at hy
      cases hy
      rw [hcall] at hcall'
      cases hcall'
    | some j =>
      rw [hcall] at hk
      have hsend : s.side.calls.Step (.send j ok) k := hk
      refine h.call hids hsend hlt hspent hposed (fun _ _ _ => rfl)
        (fun i y hy hcall' => Or.inl ?_) fun _ hy => by cases hy
      rw [hx] at hy
      cases hy
      rw [hcall] at hcall'
      cases hcall'
      have hfun : s.side.calls.step (.send j ok) = some k := hk
      simp only [ClientCalls.step] at hfun
      split at hfun
      · cases hfun
        change ((s.side.calls.move j _).calls j).unasked = none
        rw [ClientCalls.move_calls_self]
        cases ok <;> rfl
      · cases hfun

end

end Line

end Epx
