import Epx.ClientTables
import Epx.LineIds
import Epx.TopicHistory

/-!
# The chunks of output streams

An `OutputStream` makes a chunk for every `write`, numbered from zero on, and a last one when it is
finished. On a `Line` the chunks of all output streams go out in one sequence; those with the id of
a stream are its chunks, in the order in which it made them. An endpoint name of at most 255 bytes
and data that fits in a frame are read back from the payload as they were.

## Main definitions

* `OutputStream.chunks` — the chunks that a stream has made
* `Line.Outputs` — what was made are these chunks
* `Line.Short` — the endpoint names on a line

## Main results

* `Line.Outputs.step`
* `chunkOf_content`, `requestOf_content`
-/

namespace Epx

open Codec Transition
open ClientTables (chunkOf)

namespace OutputStream

/-- The chunks that an output stream has made: one for each `write`, and the last one. -/
def chunks (o : OutputStream) : List StreamChunkPayload :=
  (chunksOf o.requestId o.written ++
    if o.impl.finished = true then [endChunk o.requestId o.written.length] else []).map
    fun chunk => { chunk with endpoint := o.impl.endpoint }

variable {o : OutputStream}

theorem chunks_of_open (hopen : o.impl.finished = false) :
    o.chunks = (chunksOf o.requestId o.written).map
      fun chunk => { chunk with endpoint := o.impl.endpoint } := by
  rw [chunks, hopen, if_neg (by decide), List.append_nil]

theorem chunks_wrote (hopen : o.impl.finished = false)
    (hseq : o.impl.seq = UInt32.ofNat o.written.length) (data : Bytes) :
    (o.wrote data).chunks = o.chunks ++ [o.chunk false data] := by
  have hopen' : (o.wrote data).impl.finished = false := hopen
  rw [chunks_of_open hopen, chunks_of_open hopen', chunk, hseq]
  change (chunksOf o.requestId (o.written ++ [data])).map _ = _
  rw [chunksOf_snoc, List.map_append]
  rfl

theorem chunks_finish (hopen : o.impl.finished = false)
    (hseq : o.impl.seq = UInt32.ofNat o.written.length) :
    o.finish.chunks = o.chunks ++ [o.chunk true []] := by
  have hfinished : o.finish.impl.finished = true := rfl
  rw [chunks_of_open hopen, chunks, hfinished, if_pos rfl, chunk, hseq, List.map_append]
  rfl

end OutputStream

namespace Line

/-- The chunks with an id that were made. -/
def chunksWith (s : Line) (id : UInt64) : List StreamChunkPayload :=
  (s.made.filterMap ClientFrame.asChunk).filter fun chunk => chunk.requestId = id

/-- The chunks that were made are those of the output streams. -/
structure Outputs (s : Line) : Prop where
  chunks : ∀ o ∈ s.outputs, s.chunksWith o.requestId = o.chunks
  seq : ∀ o ∈ s.outputs, o.impl.finished = false → o.impl.seq = UInt32.ofNat o.written.length
  known : ∀ chunk ∈ s.made.filterMap ClientFrame.asChunk,
    chunk.requestId ∈ s.outputs.map OutputStream.requestId

theorem outputs_start (eph : EphemeralKeyPair) (hs : HandshakeResult) (rotation : RotationPolicy)
    (now : ℕ) : (start eph hs rotation now).Outputs where
  chunks _ h := absurd h List.not_mem_nil
  seq _ h := absurd h List.not_mem_nil
  known _ h := absurd h List.not_mem_nil

section

variable {S : Sodium} {s s' : Line} {a : Act} {x : Sending}

theorem OwnIds.outputs_nodup (h : s.OwnIds) : (s.outputs.map OutputStream.requestId).Nodup :=
  (List.nodup_append.mp h.nodup).2.1

/-- No chunk is made. -/
theorem Outputs.congr (h : s.Outputs) (houtputs : s'.outputs = s.outputs)
    (hmade : s'.made.filterMap ClientFrame.asChunk = s.made.filterMap ClientFrame.asChunk) :
    s'.Outputs where
  chunks := by
    simp only [houtputs, chunksWith, hmade]
    exact h.chunks
  seq := by rw [houtputs]; exact h.seq
  known := by rw [houtputs, hmade]; exact h.known

/-- An output stream makes a chunk. -/
theorem Outputs.makes (h : s.Outputs) (hnodup : (s'.outputs.map OutputStream.requestId).Nodup)
    {k : ℕ} {o o' : OutputStream} {chunk : StreamChunkPayload} (ho : s.outputs[k]? = some o)
    (hid : o'.requestId = o.requestId) (hchunk : chunk.requestId = o.requestId)
    (hchunks : o'.chunks = o.chunks ++ [chunk])
    (hseq : o'.impl.finished = false → o'.impl.seq = UInt32.ofNat o'.written.length)
    (houtputs : s'.outputs = s.outputs.set k o')
    (hmade : s'.made = s.made ++ [.streamChunk chunk]) : s'.Outputs := by
  have hmem : o' ∈ s'.outputs := by
    rw [houtputs]
    exact List.mem_set (List.getElem?_eq_some_iff.mp ho).1 o'
  have hids : s'.outputs.map OutputStream.requestId = s.outputs.map OutputStream.requestId := by
    rw [houtputs]
    exact requestIds_set ho hid
  -- a stream with another id is an old one
  have hold : ∀ p ∈ s'.outputs, p = o' ∨ p ∈ s.outputs ∧ p.requestId ≠ o.requestId := by
    intro p hp
    by_cases hpid : p.requestId = o.requestId
    · exact Or.inl (List.inj_on_of_nodup_map hnodup hp hmem (hpid.trans hid.symm))
    · have hset := hp
      rw [houtputs] at hset
      rcases List.mem_or_eq_of_mem_set hset with hin | heq
      · exact Or.inr ⟨hin, hpid⟩
      · exact Or.inl heq
  have hwith : ∀ id, s'.chunksWith id =
      s.chunksWith id ++ if chunk.requestId = id then [chunk] else [] := by
    intro id
    rw [chunksWith, hmade, List.filterMap_append, List.filter_append]
    change _ ++ [chunk].filter _ = _
    rw [List.filter_singleton]
    by_cases h : chunk.requestId = id <;> simp [h, chunksWith]
  refine ⟨fun p hp => ?_, fun p hp hopen => ?_, fun ch hch => ?_⟩
  · rcases hold p hp with rfl | ⟨hin, hne⟩
    · rw [hwith, hid, if_pos hchunk, h.chunks o (List.mem_of_getElem? ho), hchunks]
    · rw [hwith, hchunk, if_neg (Ne.symm hne), List.append_nil, h.chunks p hin]
  · rcases hold p hp with rfl | ⟨hin, -⟩
    · exact hseq hopen
    · exact h.seq p hin hopen
  · rw [hids]
    rw [hmade, List.filterMap_append] at hch
    rcases List.mem_append.mp hch with hch | hch
    · exact h.known ch hch
    · rw [show ch = chunk from List.mem_singleton.mp hch, hchunk]
      exact List.mem_map_of_mem (List.mem_of_getElem? ho)

/-- **Every step keeps the chunks of the output streams together**, as long as the ids differ. -/
theorem Outputs.step (h : s.Outputs) (hseals : s.Seals) (hids : s'.OwnIds)
    (hstep : Step S s a s') : s'.Outputs := by
  have hnodup := hids.outputs_nodup
  cases effect_of_step hstep with
  | side _ _ | asked _ | posted | unsubscribed _ _ | told _ _ | stored _ | offered _ =>
    exact h.congr rfl rfl
  | @opened endpoint =>
    have hnew : s.side.calls.nextRequestId ∉ s.outputs.map OutputStream.requestId := by
      change ((s.outputs ++ [_]).map OutputStream.requestId).Nodup at hnodup
      rw [List.map_append, List.nodup_append] at hnodup
      intro hin
      exact hnodup.2.2 _ hin _ (List.mem_singleton_self _) rfl
    refine ⟨fun o ho => ?_, fun o ho hopen => ?_, fun chunk hchunk => ?_⟩
    · rcases List.mem_append.mp ho with ho | ho
      · exact h.chunks o ho
      · rw [List.mem_singleton.mp ho]
        refine List.filter_eq_nil_iff.mpr fun chunk hchunk hid => hnew ?_
        rw [← show chunk.requestId = s.side.calls.nextRequestId from of_decide_eq_true hid]
        exact h.known chunk hchunk
    · rcases List.mem_append.mp ho with ho | ho
      · exact h.seq o ho hopen
      · rw [List.mem_singleton.mp ho]
        rfl
    · change _ ∈ (s.outputs ++ [_]).map OutputStream.requestId
      rw [List.map_append]
      exact List.mem_append_left _ (h.known chunk hchunk)
  | @acquired what now eph ok s₁ x p hsubmits hp =>
    have hnone := hseals.free hp
    have hmade : Line.made { s₁.withConn p with sending := some x } = s.made ++ [x.frame] :=
      made_of_none hnone hsubmits.sending_eq.2 rfl
    cases hsubmits with
    | call _ | unsent _ =>
      refine h.congr rfl ?_
      rw [hmade, List.filterMap_append]
      exact List.append_nil _
    | @write k o data ho hopen =>
      have hseq := h.seq o (List.mem_of_getElem? ho) hopen
      have hid : (o.wrote data).requestId = o.requestId := rfl
      refine h.makes hnodup ho hid rfl (OutputStream.chunks_wrote hopen hseq _) (fun _ => ?_) rfl
        hmade
      change o.impl.seq + 1 = UInt32.ofNat (o.written ++ [data]).length
      rw [hseq, List.length_append, List.length_singleton, UInt32.ofNat_add]
      rfl
    | @finish k o ho hopen =>
      have hseq := h.seq o (List.mem_of_getElem? ho) hopen
      have hid : o.finish.requestId = o.requestId := rfl
      exact h.makes hnodup ho hid rfl (OutputStream.chunks_finish hopen hseq)
        (fun hno => by cases hno) rfl hmade
  | @sent ok x p k hx hp hk =>
    refine h.congr rfl ?_
    have hmade : Line.made { (s.withCalls k).withConn p with
        sending := none, sent := s.sent ++ [x.frame] } = s.made := by
      rw [made, made, hx]
      simp
    rw [hmade]

end

end Line

/-! ### Reading payloads back -/

/-- The endpoint name in a payload. -/
def ClientFrame.endpoint : ClientFrame → Bytes
  | .request req => req.endpoint
  | .streamChunk chunk => chunk.endpoint

theorem readsBack_self {name data : Bytes} (hname : name.length ≤ 255)
    (hdata : data.length < 2 ^ 32) : ReadsBack name data name data := by
  refine (readsBack_of_short hname).mpr ⟨rfl, ?_⟩
  rw [Nat.mod_eq_of_lt hdata, List.take_length]

theorem chunkOf_content {f : ClientFrame} (hname : f.endpoint.length ≤ 255)
    (hlen : f.content.2.length < 2 ^ 32) : chunkOf f.content = f.asChunk := by
  cases f with
  | request req => rfl
  | streamChunk chunk =>
    have hle : chunk.data.length ≤ (encodeStreamChunk chunk).length := by
      simp only [encodeStreamChunk, putData, List.length_append]
      omega
    have hdec := decodeStreamChunk_encodeStreamChunk.mpr
      ⟨rfl, rfl, rfl, readsBack_self hname (lt_of_le_of_lt hle hlen)⟩
    change chunkOf (.streamChunk, encodeStreamChunk chunk) = some chunk
    rw [chunkOf, if_pos rfl, hdec]

theorem requestOf_content {f : ClientFrame} (hname : f.endpoint.length ≤ 255)
    (hlen : f.content.2.length < 2 ^ 32) : requestOf f.content = f.asRequest := by
  cases f with
  | streamChunk chunk => rfl
  | request req =>
    have hle : req.data.length ≤ (encodeRequest req).length := by
      simp only [encodeRequest, putData, List.length_append]
      omega
    have hdec := decodeRequest_encodeRequest.mpr
      ⟨rfl, rfl, readsBack_self hname (lt_of_le_of_lt hle hlen)⟩
    change requestOf (.request, encodeRequest req) = some req
    rw [requestOf, if_pos rfl, hdec]

namespace Line

/-- The endpoint names on a line fit the byte that their length is written in. -/
structure Short (s : Line) : Prop where
  asked : ∀ i, (s.asked i).1.length ≤ 255
  unsent : ∀ req ∈ s.unsent, req.endpoint.length ≤ 255
  outputs : ∀ o ∈ s.outputs, o.impl.endpoint.length ≤ 255
  made : ∀ f ∈ s.made, f.endpoint.length ≤ 255

/-- The application asks with an endpoint name that fits. -/
def Act.Short : Act → Prop
  | .ask _ _ endpoint _ | .post endpoint _ | .openStream endpoint => endpoint.length ≤ 255
  | _ => True

theorem short_start (eph : EphemeralKeyPair) (hs : HandshakeResult) (rotation : RotationPolicy)
    (now : ℕ) : (start eph hs rotation now).Short where
  asked _ := Nat.zero_le _
  unsent _ h := absurd h List.not_mem_nil
  outputs _ h := absurd h List.not_mem_nil
  made _ h := absurd h List.not_mem_nil

section

variable {S : Sodium} {s s' : Line} {a : Act} {x : Sending}

/-- The name in the payload that is made. -/
theorem Short.submits (h : s.Short) {s₁ : Line} (hsubmits : s.Submits s₁ x) :
    x.frame.endpoint.length ≤ 255 ∧ s₁.asked = s.asked ∧ (∀ req ∈ s₁.unsent, req ∈ s.unsent) ∧
      ∀ o ∈ s₁.outputs, o.impl.endpoint.length ≤ 255 := by
  cases hsubmits with
  | @call i _ _ _ => exact ⟨h.asked i, rfl, fun _ h => h, h.outputs⟩
  | unsent hreq =>
    exact ⟨h.unsent _ (List.mem_of_getElem? hreq), rfl, fun _ h => List.mem_of_mem_eraseIdx h,
      h.outputs⟩
  | write ho _ | finish ho _ =>
    have hname := h.outputs _ (List.mem_of_getElem? ho)
    refine ⟨hname, rfl, fun _ h => h, fun o' ho' => ?_⟩
    rcases List.mem_or_eq_of_mem_set ho' with hin | rfl
    · exact h.outputs o' hin
    · exact hname

theorem Short.step (h : s.Short) (hseals : s.Seals) (hshort : a.Short) (hstep : Step S s a s') :
    s'.Short := by
  cases effect_of_step hstep with
  | side _ _ | unsubscribed _ _ | stored _ | offered _ =>
    exact ⟨h.asked, h.unsent, h.outputs, h.made⟩
  | @asked i kind endpoint data k hk =>
    refine ⟨fun j => ?_, h.unsent, h.outputs, h.made⟩
    change (Function.update s.asked i (endpoint, data) j).1.length ≤ 255
    rw [Function.update_apply]
    split
    · exact hshort
    · exact h.asked j
  | posted =>
    refine ⟨h.asked, fun req hreq => ?_, h.outputs, h.made⟩
    rcases List.mem_append.mp hreq with hreq | hreq
    · exact h.unsent req hreq
    · rw [List.mem_singleton.mp hreq]
      exact hshort
  | told _ _ =>
    refine ⟨h.asked, fun req hreq => ?_, h.outputs, h.made⟩
    rcases List.mem_append.mp hreq with hreq | hreq
    · exact h.unsent req hreq
    · rw [List.mem_singleton.mp hreq]
      exact (by decide : kUnsubscribeEndpoint.length ≤ 255)
  | opened =>
    refine ⟨h.asked, h.unsent, fun o ho => ?_, h.made⟩
    rcases List.mem_append.mp ho with ho | ho
    · exact h.outputs o ho
    · rw [List.mem_singleton.mp ho]
      exact hshort
  | @acquired what now eph ok s₁ x p hsubmits hp =>
    obtain ⟨hname, hasked, hunsent, houtputs⟩ := h.submits hsubmits
    refine ⟨fun i => ?_, fun req hreq => h.unsent req (hunsent req hreq), houtputs, fun f hf => ?_⟩
    · change (s₁.asked i).1.length ≤ 255
      rw [hasked]
      exact h.asked i
    · have hmade : Line.made { s₁.withConn p with sending := some x } = s.made ++ [x.frame] :=
        made_of_none (hseals.free hp) hsubmits.sending_eq.2 rfl
      rw [hmade] at hf
      rcases List.mem_append.mp hf with hf | hf
      · exact h.made f hf
      · rwa [List.mem_singleton.mp hf]
  | @sent ok x p k hx hp hk =>
    refine ⟨h.asked, h.unsent, h.outputs, fun f hf => h.made f ?_⟩
    rw [Line.made, hx]
    rw [Line.made] at hf
    simpa using hf

/-- Lengths that do not run over are those of short payloads. -/
theorem Up.fits (hS : S.AeadCorrect) (hup : s.Up S) :
    ∀ x ∈ s.side.conn.sealed, x.plaintext.length < 2 ^ 32 := by
  intro x hx
  have hcarried := hup.carried x hx
  change headerLen s.side.v2 + (sealFrame S s.side.v2 x.key x.counter x.epoch x.type
    x.plaintext).length < 2 ^ 32 at hcarried
  rw [sealFrame_eq, hS.length_encrypt] at hcarried
  omega

/-- **What was sealed is read back as it was made.** -/
theorem filterMap_sealed (hseals : s.Seals)
    (hfits : ∀ x ∈ s.side.conn.sealed, x.plaintext.length < 2 ^ 32) {β : Type}
    {g : FrameType × Bytes → Option β} {g' : ClientFrame → Option β}
    (hrekey : ∀ x, x.1 = .rekey → g x = none)
    (hg : ∀ f ∈ s.sent, f.content.2.length < 2 ^ 32 → g f.content = g' f) :
    (s.side.conn.sealed.map SealCall.content).filterMap g = s.sent.filterMap g' := by
  have hown : (s.side.conn.sealed.map SealCall.content).filterMap g
      = ((s.side.conn.sealed.map SealCall.content).filter fun x => x.1 ≠ .rekey).filterMap g := by
    rw [List.filterMap_filter]
    refine List.filterMap_congr fun x _ => ?_
    by_cases htype : x.1 = .rekey
    · simp [htype, hrekey x htype]
    · simp [htype]
  rw [hown, hseals.sealed, List.filterMap_map]
  refine List.filterMap_congr fun f hf => hg f hf ?_
  have hin : f.content ∈
      (s.side.conn.sealed.map SealCall.content).filter fun x => x.1 ≠ .rekey := by
    rw [hseals.sealed]
    exact List.mem_map_of_mem hf
  obtain ⟨x, hx, heq⟩ := List.mem_map.mp (List.mem_filter.mp hin).1
  rw [← heq]
  exact hfits x hx

section

variable (hseals : s.Seals) (hshort : s.Short)
  (hfits : ∀ x ∈ s.side.conn.sealed, x.plaintext.length < 2 ^ 32)
include hseals hshort hfits

theorem chunks_sealed : (s.side.conn.sealed.map SealCall.content).filterMap chunkOf
    = s.sent.filterMap ClientFrame.asChunk := by
  refine filterMap_sealed hseals hfits (fun x htype => ?_) fun f hf hlen =>
    chunkOf_content (hshort.made f (List.mem_append_left _ hf)) hlen
  rw [chunkOf, if_neg (by rw [htype]; decide)]

theorem requests_sealed : (s.side.conn.sealed.map SealCall.content).filterMap requestOf
    = s.sent.filterMap ClientFrame.asRequest := by
  refine filterMap_sealed hseals hfits (fun x htype => ?_) fun f hf hlen =>
    requestOf_content (hshort.made f (List.mem_append_left _ hf)) hlen
  rw [requestOf, if_neg (by rw [htype]; decide)]

end

end

end Line

end Epx
