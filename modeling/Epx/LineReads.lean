import Epx.Handed
import Epx.LineStreams

/-!
# What a client reads for its calls

The reader of a `Line` opens the frames that the host has sent and hands them to the calls. A call
that is under way has been fed the chunks under its id, all of those that were opened; after it has
given up it is fed no more. Its callback is handed what it was fed.

## Main definitions

* `Line.taken` — what the reader has opened
* `Line.Reads` — that the calls know of it

## Main results

* `Line.Reads.step`
-/

namespace Epx

open Codec Transition
open ClientTables (chunkOf chunksFor callback chunksFor_append chunksFor_of_chunkOf
  chunksFor_of_none)

namespace ClientCalls

variable {s s' : ClientCalls} {a : Act}

/-- Only reading a chunk feeds a call. -/
theorem fed_of_step (hstep : s.Step a s') (hno : ∀ chunk, a ≠ .readChunk chunk) :
    s'.fed = s.fed := by
  cases effect_of_step hstep with
  | chunkDropped _ _ | chunkTaken _ _ => exact absurd rfl (hno _)
  | @registered _ kind _ _ => cases kind <;> rfl
  | @gaveUp _ kind _ _ => cases kind <;> rfl
  | @ended d _ =>
    obtain ⟨sinks, heq⟩ := s.eraseLast_eq d
    rw [heq]
  | _ => rfl

theorem readChunk_step {chunk : StreamChunkPayload} (hstep : s.Step (.readChunk chunk) s') :
    s'.calls = s.calls ∧ s'.fed = (s.feed chunk).fed := by
  obtain ⟨-, heq⟩ := Option.ite_none_right_eq_some.mp hstep
  rw [← Option.some.inj heq, readChunk]
  dsimp only
  split
  · exact ⟨rfl, rfl⟩
  · exact ⟨rfl, rfl⟩

end ClientCalls

namespace ClientSide

variable {S : Sodium}

/-- What the calls see of a frame that is opened: a chunk, if there is one in it. -/
theorem heardOpened_readChunk {type : FrameType} {opened : Bytes} (chunk : StreamChunkPayload) :
    heardOpened type opened = some (.readChunk chunk) ↔ chunkOf (type, opened) = some chunk := by
  rw [heardOpened, chunkOf]
  by_cases htype : type = .streamChunk
  · rw [if_neg (by rw [htype]; decide), if_neg (by rw [htype]; decide), if_pos htype,
      if_pos (show (type, opened).1 = .streamChunk from htype)]
    cases decodeStreamChunk opened with
    | accept chunk' => simp
    | oob | reject => simp
  · rw [if_neg htype, if_neg (show ¬ (type, opened).1 = .streamChunk from htype)]
    refine ⟨fun h => ?_, fun h => by cases h⟩
    split at h
    · split at h
      · cases h
      · cases h
    split at h
    · cases hdec : decodeError opened <;> rw [hdec] at h <;> cases h
    · cases hdec : decodeResponse opened <;> rw [hdec] at h <;> cases h

/-- What is opened of a frame, and what the calls see of it. -/
theorem opened_of_receive (c : Connection) (f : RawFrame) :
    ∃ xs, (c.receive S f).opened.map Opened.content = c.opened.map Opened.content ++ xs ∧
      ((∃ x chunk, xs = [x] ∧ chunkOf x = some chunk ∧ heard S c f = some (.readChunk chunk)) ∨
        (∀ id, chunksFor id xs = []) ∧ ∀ chunk, heard S c f ≠ some (.readChunk chunk)) := by
  have hnone : ∀ {k : Connection}, k.opened = c.opened →
      (∀ chunk, heard S c f ≠ some (.readChunk chunk)) →
      ∃ xs, k.opened.map Opened.content = c.opened.map Opened.content ++ xs ∧
        ((∃ x chunk, xs = [x] ∧ chunkOf x = some chunk ∧ heard S c f = some (.readChunk chunk)) ∨
          (∀ id, chunksFor id xs = []) ∧ ∀ chunk, heard S c f ≠ some (.readChunk chunk)) :=
    fun hopened hno => ⟨[], by rw [hopened, List.append_nil], Or.inr ⟨fun _ => rfl, hno⟩⟩
  rw [Connection.receive]
  by_cases hopens : Connection.opens f.type = true
  · rw [if_pos hopens]
    have hne : Connection.opens f.type ≠ false := by
      rw [hopens]
      decide
    cases hopen : openChecked S c.v2 c.rx f with
    | none =>
      refine hnone rfl fun chunk h => ?_
      rw [heard, if_neg hne, hopen] at h
      cases h
    | some p =>
      obtain ⟨opened, rx⟩ := p
      have hheard : heard S c f = heardOpened f.type opened := by rw [heard, if_neg hne, hopen]
      refine ⟨[(f.type, opened)], List.map_append, ?_⟩
      cases hchunk : chunkOf (f.type, opened) with
      | some chunk =>
        exact Or.inl ⟨_, chunk, rfl, hchunk,
          hheard.trans ((heardOpened_readChunk chunk).mpr hchunk)⟩
      | none =>
        refine Or.inr ⟨fun id => chunksFor_of_none hchunk, fun chunk h => ?_⟩
        rw [hheard, heardOpened_readChunk, hchunk] at h
        cases h
  · rw [if_neg hopens]
    refine hnone rfl fun chunk h => ?_
    rw [heard, if_pos (Bool.eq_false_of_not_eq_true hopens)] at h
    cases h

end ClientSide

/-- Writing does not touch the reader. -/
theorem Connection.opened_of_writes {S : Sodium} {c c' : Connection} {a : Act}
    {out : Option RawFrame} (h : Effect S c a c' out) (hwrites : a.writes = true) :
    c'.opened = c.opened := by
  cases h with
  | ready _ _ _ | storeEph _ | setInProgress _ => rfl
  | @offered _ _ _ _ ok _ _ _ | @sendOwn _ _ ok _ => cases ok <;> rfl
  | skipped _ _ | refused _ _ _ | opened _ _ _ | unsolicited _ _ | crashed _ _ _ | derived _ _ _
  | switchKeys _ _ | quit _ => cases hwrites

namespace Line

/-- What the reader has opened. -/
def taken (s : Line) : List (FrameType × Bytes) := s.side.conn.opened.map Opened.content

/-- The calls know of what was read, and their callbacks of what they know. -/
structure Reads (s : Line) : Prop where
  streams : s.side.calls.Streams
  deliveries : s.side.calls.Deliveries
  handed : ∀ i, s.side.calls.Handed i
  lastRead : s.side.calls.LastRead
  known : ∀ i kind id, (s.side.calls.calls i).asks = some (kind, id) →
    s.side.calls.fed i <+: (chunksFor id s.taken).map callback
  under : ∀ i kind id, (s.side.calls.calls i).under = some (kind, id) →
    s.side.calls.fed i = (chunksFor id s.taken).map callback

theorem reads_start (eph : EphemeralKeyPair) (hs : HandshakeResult) (rotation : RotationPolicy)
    (now : ℕ) : (start eph hs rotation now).Reads where
  streams := ⟨ClientCalls.ids_start, ClientCalls.streamTold_start⟩
  deliveries := ClientCalls.deliveries_start
  handed := ClientCalls.handed_start
  lastRead := ClientCalls.lastRead_start
  known _ _ _ h := by cases h
  under _ _ _ h := by cases h

section

variable {S : Sodium} {s s' : Line} {a : Act}

/-- What holds of the calls alone. -/
theorem Reads.calls (h : s.Reads) {b : ClientCalls.Act} {k : ClientCalls}
    (hstep : s.side.calls.Step b k) (hlt : k.drawn.length < 2 ^ 64) :
    k.Streams ∧ k.Deliveries ∧ (∀ i, k.Handed i) ∧ k.LastRead :=
  ⟨h.streams.step hstep hlt, h.deliveries.step hstep,
    fun i => (h.handed i).step h.streams.ids (h.streams.told i) h.deliveries hstep,
    h.lastRead.step h.streams hstep⟩

/-- Nothing is read that the calls should know of. -/
theorem Reads.same (h : s.Reads) (hcalls : s'.side.calls = s.side.calls)
    {xs : List (FrameType × Bytes)} (htaken : s'.taken = s.taken ++ xs)
    (hnone : ∀ id, chunksFor id xs = []) : s'.Reads := by
  have hread : ∀ id, chunksFor id s'.taken = chunksFor id s.taken := by
    intro id
    rw [htaken, chunksFor_append, hnone, List.append_nil]
  refine ⟨?_, ?_, ?_, ?_, ?_, ?_⟩
  · rw [hcalls]
    exact h.streams
  · rw [hcalls]
    exact h.deliveries
  · rw [hcalls]
    exact h.handed
  · rw [hcalls]
    exact h.lastRead
  · simp only [hcalls, hread]
    exact h.known
  · simp only [hcalls, hread]
    exact h.under

/-- A call goes on. Nothing has come under the id of one that registers. -/
theorem Reads.goes (h : s.Reads) {b : ClientCalls.Act} (hstep : s.side.calls.Step b s'.side.calls)
    (hb : ∀ chunk, b ≠ .readChunk chunk) (hlt : s'.side.calls.drawn.length < 2 ^ 64)
    {xs : List (FrameType × Bytes)} (htaken : s'.taken = s.taken ++ xs)
    (hnone : ∀ id, chunksFor id xs = [])
    (hunread : ∀ i kind id, s.side.calls.calls i = .drawn kind id → chunksFor id s.taken = []) :
    s'.Reads := by
  have hread : ∀ id, chunksFor id s'.taken = chunksFor id s.taken := by
    intro id
    rw [htaken, chunksFor_append, hnone, List.append_nil]
  have hfed := ClientCalls.fed_of_step hstep hb
  have hplace := ClientCalls.place_of_step hstep
  obtain ⟨hstreams, hdeliveries, hhanded, hlast⟩ := h.calls hstep hlt
  refine ⟨hstreams, hdeliveries, hhanded, hlast, fun i kind id hi => ?_, fun i kind id hi => ?_⟩
  · rw [hfed, hread]
    rcases hplace i with heq | ⟨_, hfound, -⟩ | ⟨_, _, hdrew, hregistered⟩ | hlater
    · rw [heq] at hi
      exact h.known i kind id hi
    · have hearly := (h.handed i).early (by rw [hfound]; rfl) (by simp [hfound])
      rw [hearly.1]
      exact List.nil_prefix
    · have hearly := (h.handed i).early (by rw [hdrew]; rfl) (by simp [hdrew])
      rw [hearly.1]
      exact List.nil_prefix
    · rw [hlater.asks] at hi
      exact h.known i kind id hi
  · rw [hfed, hread]
    rcases hplace i with heq | ⟨_, _, hdrew, -⟩ | ⟨_, _, hdrew, hregistered⟩ | hlater
    · rw [heq] at hi
      exact h.under i kind id hi
    · rw [hdrew] at hi
      cases hi
    · rw [hregistered] at hi
      cases hi
      have hearly := (h.handed i).early (by rw [hdrew]; rfl) (by simp [hdrew])
      rw [hearly.1, hunread i kind id hdrew]
      rfl
    · rcases hlater.under with heq | hover
      · rw [heq] at hi
        exact h.under i kind id hi
      · rw [hover] at hi
        cases hi

/-- A chunk is read. -/
theorem Reads.chunk (h : s.Reads) {chunk : StreamChunkPayload}
    (hstep : s.side.calls.Step (.readChunk chunk) s'.side.calls)
    (hlt : s'.side.calls.drawn.length < 2 ^ 64) {x : FrameType × Bytes}
    (htaken : s'.taken = s.taken ++ [x]) (hx : chunkOf x = some chunk) : s'.Reads := by
  have hread : ∀ id, (chunksFor id s'.taken).map callback = (chunksFor id s.taken).map callback ++
      if chunk.requestId = id then [(chunk.data, chunk.isLast)] else [] := by
    intro id
    rw [htaken, chunksFor_append, chunksFor_of_chunkOf hx, List.map_append]
    split
    · rfl
    · rfl
  obtain ⟨hcalls, hfed⟩ := ClientCalls.readChunk_step hstep
  obtain ⟨hstreams, hdeliveries, hhanded, hlast⟩ := h.calls hstep hlt
  refine ⟨hstreams, hdeliveries, hhanded, hlast, fun i kind id hi => ?_, fun i kind id hi => ?_⟩
  · rw [hcalls] at hi
    rw [hfed, hread]
    by_cases hown : ∃ kind', (s.side.calls.calls i).under = some (kind', chunk.requestId)
    · obtain ⟨kind', hunder⟩ := hown
      have hsame := (CallPlace.asks_of_under hunder).symm.trans hi
      obtain ⟨rfl, rfl⟩ := Prod.mk.inj (Option.some.inj hsame)
      rw [ClientCalls.feed_fed_of_under hunder, h.under i _ _ hunder, if_pos rfl]
    · rw [ClientCalls.feed_fed_of_forall fun kind' hunder => hown ⟨kind', hunder⟩]
      exact (h.known i kind id hi).trans (List.prefix_append _ _)
  · rw [hcalls] at hi
    rw [hfed, hread]
    by_cases hid : chunk.requestId = id
    · subst hid
      rw [ClientCalls.feed_fed_of_under hi, h.under i _ _ hi, if_pos rfl]
    · rw [ClientCalls.feed_fed_of_ne hi (Ne.symm hid), h.under i _ _ hi, if_neg hid,
        List.append_nil]

/-- **Every step keeps the calls informed**, as long as nothing comes under the id of a call before
it registers. -/
theorem Reads.step (h : s.Reads) (hstep : Step S s a s')
    (hlt : s'.side.calls.drawn.length < 2 ^ 64)
    (hunread : ∀ i kind id, s.side.calls.calls i = .drawn kind id → chunksFor id s.taken = []) :
    s'.Reads := by
  have htaken : s.taken = s.taken ++ [] := (List.append_nil _).symm
  have hnone : ∀ id, chunksFor id [] = [] := fun _ => rfl
  have hwritten : ∀ {b : Connection.Act} {p : Connection × Option RawFrame},
      s.side.conn.step S b = some p → b.writes = true →
      p.1.opened.map Opened.content = s.taken ++ [] := by
    intro b p hp hwrites
    rw [List.append_nil, Connection.opened_of_writes (Connection.effect_of_step S hp) hwrites]
    rfl
  cases effect_of_step hstep with
  | @side b side hquiet hside =>
    cases ClientSide.effect_of_step hquiet hside with
    | calls _ hb hk => exact h.goes hk hb hlt htaken hnone hunread
    | @read f rest k hrunning hread hk =>
      obtain ⟨xs, hopened, hheard⟩ := ClientSide.opened_of_receive (S := S) s.side.conn f
      rcases hheard with ⟨x, chunk, rfl, hx, hheard⟩ | ⟨hquiet, hno⟩
      · rw [hheard] at hk
        exact h.chunk hk hlt hopened hx
      · cases hb : ClientSide.heard S s.side.conn f with
        | none =>
          rw [hb] at hk
          exact h.same (Option.some.inj hk).symm hopened hquiet
        | some b =>
          rw [hb] at hk
          exact h.goes hk (fun chunk heq => hno chunk (by rw [hb, heq])) hlt hopened hquiet hunread
    | @swapped serverEph b k hreader hb hk =>
      have hopened : (s.side.conn.swapEph S serverEph).opened = s.side.conn.opened := by
        rw [Connection.swapEph]
        split
        · rfl
        · split
          · rfl
          · rfl
      have htaken' : Line.taken { s with side := { s.side with
          conn := s.side.conn.swapEph S serverEph
          calls := k } } = s.taken ++ [] := by
        rw [List.append_nil, taken, taken]
        exact congrArg _ hopened
      rcases hb with rfl | rfl
      · exact h.same (Option.some.inj hk).symm htaken' hnone
      · exact h.goes (b := .readFails) hk (by simp) hlt htaken' hnone hunread
    | switched _ _ hk => exact h.goes (b := .readOther) hk (by simp) hlt htaken hnone hunread
  | asked hk => exact h.goes hk (by simp) hlt htaken hnone hunread
  | posted | opened => exact h.goes (b := .drawOther) rfl (by simp) hlt htaken hnone hunread
  | unsubscribed hk _ | told hk _ => exact h.goes hk (by simp) hlt htaken hnone hunread
  | @acquired what now eph ok s₁ x p hsubmits hp =>
    have hcalls : s₁.side.calls = s.side.calls := by rw [hsubmits.side_eq]
    exact h.same hcalls (hwritten hp rfl) hnone
  | stored hp | offered hp => exact h.same rfl (hwritten hp rfl) hnone
  | @sent ok x p k hx hp hk =>
    cases hcall : x.call with
    | none =>
      rw [hcall] at hk
      exact h.same (Option.some.inj hk).symm (hwritten hp rfl) hnone
    | some i =>
      rw [hcall] at hk
      exact h.goes (b := .send i ok) hk (by simp) hlt (hwritten hp rfl) hnone hunread

end

end Line

end Epx
