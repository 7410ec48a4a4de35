import Epx.Desk
import Epx.Lasting

/-!
# Every request gets one kind of answer

A connection whose writes succeed, on which no request id comes twice. Its thread accepts requests
and answers each of them in one of the ways of `Answer` or disconnects the peer; a StreamSend
handler writes its chunks while other threads write those of topics. What the connection has been
sent about a request is then one RESPONSE, or chunks numbered from zero on, and never both.

The numbers of chunks have 32 bits, and start again from zero after `2 ^ 32` chunks.

## Main definitions

* `Desk.SmoothStep` — the writes succeed, the tables are those of the host, and the ids are distinct
* `Desk.Answered` — what the peer has been sent about a request
* `Desk.AnswersOnce`
* `Desk.Answering` — the invariant

## Main results

* `Desk.Answering.step`
* `requests_answered_once`
-/

namespace Epx

open Codec Exception Transition LoopState

namespace Desk

/-- The requests that a connection has accepted. -/
def requests (d : Desk) (c : ℕ) : List RequestPayload := (d.hub.conns c).requests

/-- What a connection has been sent about a request id. -/
def sentFor (d : Desk) (c : ℕ) (id : UInt64) : List (FrameType × Bytes) :=
  about id (d.hub.conns c).written

/-- The writes to a connection succeed, and its thread finds the tables of the host. -/
def Succeeds (c : ℕ) (d : Desk) : Act → Prop
  | .hub (.frame c' _ env) =>
    c' = c → env.othersAlive = true ∧ (∀ i, env.wrote i = true) ∧ HostTables.Sees env
  | .hub a => d.hub.Spares c a
  | .chunk c' _ ok | .endStream c' ok => c' = c → ok = true

/-- A step after which no request id was accepted twice on a connection whose writes succeed. -/
def SmoothStep (S : Sodium) (cfg : HostConfig) (c : ℕ) (d : Desk) (a : Act) (d' : Desk) : Prop :=
  Step S cfg d a d' ∧ d.Succeeds c a ∧ ((d'.requests c).map RequestPayload.requestId).Nodup

/-! ### What is claimed of every state -/

/-- The id belongs to a subscription of the connection. -/
def Subscribed (d : Desk) (c : ℕ) (id : UInt64) : Prop := ¬ d.hub.Own c id

/-- The chunks for a subscription need not have come to an end: it is still a subscriber, or was
unsubscribed, or the connection has ended. -/
def Unended (d : Desk) (c : ℕ) (id : UInt64) (t : ℕ) : Prop :=
  (c, id) ∈ (d.hub.topics t).keys ∨ .unsubscribe t id ∈ (d.hub.conns c).calls ∨
    (d.hub.phase c).Over

/-- What a connection has been sent about a request: one RESPONSE, or chunks of a handler or of a
subscription. -/
inductive Answered (d : Desk) (c : ℕ) (req : RequestPayload) : Prop
  | response {status : UInt8} {data : Bytes} : ¬ d.Subscribed c req.requestId →
      d.sentFor c req.requestId = [responseTo req status data] → Answered d c req
  | running {messages : List Bytes} {seq : UInt32} : ¬ d.Subscribed c req.requestId →
      d.streaming c = some (req.requestId, seq) →
      d.sentFor c req.requestId = (chunksOf req.requestId messages).map chunkContent →
      Answered d c req
  | stream {messages : List Bytes} : ¬ d.Subscribed c req.requestId →
      d.sentFor c req.requestId = streamOf req.requestId messages → Answered d c req
  | feed {messages : List Bytes} {t : ℕ} : (c, req.requestId) ∈ (d.hub.topics t).allKeys →
      d.Unended c req.requestId t →
      d.sentFor c req.requestId = (chunksOf req.requestId messages).map chunkContent →
      Answered d c req
  | closed {messages : List Bytes} {t : ℕ} : (c, req.requestId) ∈ (d.hub.topics t).allKeys →
      d.sentFor c req.requestId = streamOf req.requestId messages → Answered d c req

/-- What was written about requests, subscriptions aside, is in the order of the requests. -/
def Ordered (d : Desk) (c : ℕ) : Prop :=
  (d.hub.conns c).written.Pairwise fun x y => ∀ (i j : ℕ) (r r' : RequestPayload),
    (d.requests c)[i]? = some r → (d.requests c)[j]? = some r' →
    ¬ d.Subscribed c r.requestId → ¬ d.Subscribed c r'.requestId →
    mentions r.requestId x = true → mentions r'.requestId y = true → i ≤ j

/-- Each request of a connection gets one kind of answer. -/
structure AnswersOnce (S : Sodium) (cfg : HostConfig) (d : Desk) (c : ℕ) : Prop where
  /-- What counts as written are the contents of the frames that were written. -/
  synced : (d.hub.conns c).Synced S
  oneway : ∀ req ∈ d.requests c, req.oneway = true →
    ∀ x ∈ d.sentFor c req.requestId, x.1 ≠ .response
  answered : ∀ req ∈ d.requests c, req.oneway = false → req.endpoint ≠ kUnsubscribeEndpoint →
    req.requestId ∉ d.refused c → d.Answered c req
  ordered : d.Ordered c
  /-- A request that disconnects the peer is answered by an ERROR only. -/
  refused : ∀ id ∈ d.refused c, d.sentFor c id = []
  errors : (d.hub.conns c).written.filter (fun x => x.1 = .error)
    = (d.refused c).map fun _ => rateLimited cfg
  once : (d.refused c).length ≤ 1

/-! ### The invariant -/

/-- What is known of a request that was accepted. -/
inductive Reply (d : Desk) (c : ℕ) (req : RequestPayload) : Prop
  | silent : req.oneway = true ∨ req.endpoint = kUnsubscribeEndpoint ∨
        req.requestId ∈ d.refused c →
      d.hub.Own c req.requestId → d.sentFor c req.requestId = [] → Reply d c req
  | response {status : UInt8} {data : Bytes} : req.oneway = false → d.hub.Own c req.requestId →
      d.sentFor c req.requestId = [responseTo req status data] → Reply d c req
  | running {seq : UInt32} : d.streaming c = some (req.requestId, seq) → Reply d c req
  | stream {messages : List Bytes} : d.hub.Own c req.requestId →
      d.sentFor c req.requestId = streamOf req.requestId messages → Reply d c req
  | subscribed {t : ℕ} : (c, req.requestId) ∈ (d.hub.topics t).allKeys → Reply d c req

/-- The handler of the last request is running. -/
structure Running (d : Desk) (c : ℕ) (id : UInt64) (seq : UInt32) : Prop where
  serving : d.hub.phase c = .serving
  last : ∃ before req, d.requests c = before ++ [req] ∧ req.requestId = id
  own : d.hub.Own c id
  sofar : ∃ messages, d.sentFor c id = (chunksOf id messages).map chunkContent ∧
    seq = UInt32.ofNat messages.length

/-- What holds of a connection whose writes have succeeded and on which no id came twice. -/
structure Answering (S : Sodium) (cfg : HostConfig) (c : ℕ) (d : Desk) : Prop where
  fed : d.hub.Fed S c
  recorded : ∀ t, (d.hub.topics t).Recorded
  lasting : d.hub.Lasting c
  running : ∀ id seq, d.streaming c = some (id, seq) → d.Running c id seq
  replies : ∀ req ∈ d.requests c, d.Reply c req
  refused : ∀ id ∈ d.refused c, d.hub.Own c id ∧ d.sentFor c id = []
  gone : d.refused c = [] ∨ (d.refused c).length = 1 ∧ ¬ (d.hub.phase c).Reads
  errors : (d.hub.conns c).written.filter (fun x => x.1 = .error)
    = (d.refused c).map fun _ => rateLimited cfg
  ordered : d.Ordered c

theorem answering_start (S : Sodium) (cfg : HostConfig) (run : ℕ → ServerRun) (acc : ℕ → Accept)
    (hs : ℕ → HandshakeResult) (c : ℕ) : Answering S cfg c (start cfg run acc hs) where
  fed := Hub.fed_start run acc hs c
  recorded _ :=
    ⟨fun _ hs => absurd hs List.not_mem_nil, fun _ hs => absurd hs List.not_mem_nil⟩
  lasting := Hub.lasting_start run acc hs c
  running _ _ h := by cases h
  replies _ h := absurd h List.not_mem_nil
  refused _ h := absurd h List.not_mem_nil
  gone := Or.inl rfl
  errors := rfl
  ordered := List.Pairwise.nil

/-! ### What a step adds -/

/-- The id of the last request that was accepted. -/
def IsLast (d : Desk) (c : ℕ) (id : UInt64) : Prop :=
  ∃ before req, d.requests c = before ++ [req] ∧ req.requestId = id

/-- A connection has accepted the requests `reqs`, the contents `xs` were written on it, and it was
disconnected for the requests `ref`. What is written is about the last request or about
subscriptions, and about subscriptions only when it has been disconnected. -/
structure Advance (cfg : HostConfig) (c : ℕ) (d d' : Desk) (reqs : List RequestPayload)
    (xs : List (FrameType × Bytes)) (ref : List UInt64) : Prop where
  requests : d'.requests c = d.requests c ++ reqs
  written : (d'.hub.conns c).written = (d.hub.conns c).written ++ xs
  refused : d'.refused c = d.refused c ++ ref
  keys : ∀ t id, (∀ req ∈ reqs, req.requestId ≠ id) →
    ((c, id) ∈ (d'.hub.topics t).allKeys ↔ (c, id) ∈ (d.hub.topics t).allKeys)
  last : ∀ x ∈ xs, ∀ id, mentions id x = true → d'.hub.Own c id → d'.IsLast c id
  errors : xs.filter (fun x => x.1 = .error) = ref.map fun _ => rateLimited cfg
  quiet : d.refused c = [] ∨
    reqs = [] ∧ ∀ x ∈ xs, ∀ id, mentions id x = true → ¬ d'.hub.Own c id
  running : ∀ id seq, d.streaming c = some (id, seq) →
    d'.streaming c = some (id, seq) ∨ ∃ x ∈ xs, mentions id x = true

section

variable {S : Sodium} {cfg : HostConfig} {c : ℕ} {d d' : Desk} {reqs : List RequestPayload}
  {xs : List (FrameType × Bytes)} {ref : List UInt64}

theorem mentions_unique {id id' : UInt64} {x : FrameType × Bytes} (h : mentions id x = true)
    (h' : mentions id' x = true) : id = id' := by
  simp only [mentions, decide_eq_true_eq] at h h'
  exact putU64_injective (h.2.symm.trans h'.2)

theorem type_of_mentions {id : UInt64} {x : FrameType × Bytes} (h : mentions id x = true) :
    x.1 = .streamChunk ∨ x.1 = .response := by
  simp only [mentions, decide_eq_true_eq] at h
  exact h.1

theorem received_eq (d : Desk) (c : ℕ) :
    d.hub.received c = (d.requests c).map RequestPayload.requestId := requestIds_opened _

/-- The last request is the only one with its id. -/
theorem eq_of_isLast {id : UInt64} (hnodup : ((d.requests c).map RequestPayload.requestId).Nodup)
    (hlast : d.IsLast c id) {j : ℕ} {r : RequestPayload} (hr : (d.requests c)[j]? = some r)
    (hid : r.requestId = id) : j + 1 = (d.requests c).length ∧
      ∃ before, d.requests c = before ++ [r] := by
  obtain ⟨before, req, hreq, rfl⟩ := hlast
  rw [hreq] at hnodup hr ⊢
  rw [List.map_append, List.nodup_append] at hnodup
  by_cases hj : j < before.length
  · rw [List.getElem?_append_left hj] at hr
    have hmem : r.requestId ∈ before.map RequestPayload.requestId :=
      List.mem_map_of_mem (List.mem_of_getElem? hr)
    exact absurd hid (hnodup.2.2 _ hmem _ (by simp))
  · rw [List.getElem?_append_right (by omega), List.getElem?_singleton] at hr
    split at hr
    · next hzero =>
      cases hr
      refine ⟨?_, before, rfl⟩
      rw [List.length_append, List.length_singleton]
      omega
    · cases hr

theorem sentFor_append (hadv : Advance cfg c d d' reqs xs ref) (id : UInt64) :
    d'.sentFor c id = d.sentFor c id ++ about id xs := by
  rw [sentFor, hadv.written, about_append]
  rfl

/-- New ids were not in use. -/
theorem Answering.fresh (h : Answering S cfg c d) (hadv : Advance cfg c d d' reqs xs ref)
    (hnodup : ((d'.requests c).map RequestPayload.requestId).Nodup) {req : RequestPayload}
    (hreq : req ∈ reqs) :
    d.hub.Own c req.requestId ∧ d.sentFor c req.requestId = [] ∧
      ∀ r ∈ d.requests c, r.requestId ≠ req.requestId := by
  rw [hadv.requests, List.map_append, List.nodup_append] at hnodup
  have hne : ∀ r ∈ d.requests c, r.requestId ≠ req.requestId := fun r hr =>
    hnodup.2.2 _ (List.mem_map_of_mem hr) _ (List.mem_map_of_mem hreq)
  have hnew : req.requestId ∉ d.hub.received c := by
    rw [received_eq]
    intro hin
    obtain ⟨r, hr, hid⟩ := List.mem_map.mp hin
    exact hne r hr hid
  obtain ⟨hsent, hfree⟩ := h.fed.unknown _ hnew
  exact ⟨hfree, hsent, hne⟩

/-- An id that belongs to no subscription after a step did not before. -/
theorem Answering.own_of_own (h : Answering S cfg c d) (hadv : Advance cfg c d d' reqs xs ref)
    (hnodup : ((d'.requests c).map RequestPayload.requestId).Nodup) {id : UInt64}
    (hown : d'.hub.Own c id) : d.hub.Own c id := by
  by_cases hnew : ∃ req ∈ reqs, req.requestId = id
  · obtain ⟨req, hreq, rfl⟩ := hnew
    exact (h.fresh hadv hnodup hreq).1
  · have hno : ∀ req ∈ reqs, req.requestId ≠ id := fun req hreq hid => hnew ⟨req, hreq, hid⟩
    exact fun t hin => hown t ((hadv.keys t id hno).mpr hin)

/-- **The order is kept**: what is added is about the last request. -/
theorem Answering.ordered_advance (h : Answering S cfg c d)
    (hadv : Advance cfg c d d' reqs xs ref)
    (hnodup : ((d'.requests c).map RequestPayload.requestId).Nodup) : d'.Ordered c := by
  have hlast : ∀ y ∈ xs, ∀ (j : ℕ) r', (d'.requests c)[j]? = some r' →
      ¬ d'.Subscribed c r'.requestId → mentions r'.requestId y = true →
      j + 1 = (d'.requests c).length := by
    intro y hy j r' hr' hown hm
    exact (eq_of_isLast hnodup (hadv.last y hy _ hm (not_not.mp hown)) hr' rfl).1
  have hlength : ∀ {i : ℕ} {r}, (d'.requests c)[i]? = some r → i < (d'.requests c).length :=
    fun hr => (List.getElem?_eq_some_iff.mp hr).1
  -- a request whose id is in what was written before is an old one
  have hold : ∀ x ∈ (d.hub.conns c).written, ∀ (i : ℕ) r, (d'.requests c)[i]? = some r →
      mentions r.requestId x = true → (d.requests c)[i]? = some r := by
    intro x hx i r hr hm
    rw [hadv.requests] at hr
    by_cases hi : i < (d.requests c).length
    · rwa [List.getElem?_append_left hi] at hr
    · rw [List.getElem?_append_right (by omega)] at hr
      have hsent := (h.fresh hadv hnodup (List.mem_of_getElem? hr)).2.1
      have hin : x ∈ d.sentFor c r.requestId := List.mem_filter.mpr ⟨hx, hm⟩
      rw [hsent] at hin
      cases hin
  have hown : ∀ {id}, ¬ d'.Subscribed c id → ¬ d.Subscribed c id := fun hno =>
    not_not.mpr (h.own_of_own hadv hnodup (not_not.mp hno))
  rw [Ordered, hadv.written]
  refine List.pairwise_append.mpr ⟨?_, ?_, ?_⟩
  · refine h.ordered.imp_of_mem fun {x y} hx hy hxy i j r r' hr hr' hsub hsub' hm hm' => ?_
    exact hxy i j r r' (hold x hx i r hr hm) (hold y hy j r' hr' hm') (hown hsub) (hown hsub')
      hm hm'
  · refine List.pairwise_of_forall_mem_list fun x hx y hy i j r r' hr hr' hsub hsub' hm hm' => ?_
    have hi := hlast x hx i r hr hsub hm
    have hj := hlast y hy j r' hr' hsub' hm'
    omega
  · intro x hx y hy i j r r' hr hr' hsub hsub' hm hm'
    have hi := hlength hr
    have hj := hlast y hy j r' hr' hsub' hm'
    omega

/-- What is known of the other requests stays. -/
theorem Answering.reply_advance (h : Answering S cfg c d)
    (hadv : Advance cfg c d d' reqs xs ref)
    (hnodup : ((d'.requests c).map RequestPayload.requestId).Nodup) {req : RequestPayload}
    (hreq : req ∈ d.requests c)
    (hquiet : ∀ x ∈ xs, mentions req.requestId x = true → ¬ d'.hub.Own c req.requestId) :
    d'.Reply c req := by
  have hne : ∀ r ∈ reqs, r.requestId ≠ req.requestId := fun r hr =>
    Ne.symm ((h.fresh hadv hnodup hr).2.2 req hreq)
  have hkeys := fun t => hadv.keys t req.requestId hne
  have hown : d.hub.Own c req.requestId → d'.hub.Own c req.requestId ∧
      d'.sentFor c req.requestId = d.sentFor c req.requestId := by
    intro hown
    have hown' : d'.hub.Own c req.requestId := fun t hin => hown t ((hkeys t).mp hin)
    refine ⟨hown', ?_⟩
    have hnone : about req.requestId xs = [] :=
      List.filter_eq_nil_iff.mpr fun x hx hm => hquiet x hx hm hown'
    rw [sentFor_append hadv, hnone, List.append_nil]
  cases h.replies req hreq with
  | silent hwhy hmine hsent =>
    obtain ⟨hmine', hsame⟩ := hown hmine
    refine .silent (hwhy.imp_right (Or.imp_right fun hin => ?_)) hmine' (hsame.trans hsent)
    rw [hadv.refused]
    exact List.mem_append_left _ hin
  | response hask hmine hsent =>
    obtain ⟨hmine', hsame⟩ := hown hmine
    exact .response hask hmine' (hsame.trans hsent)
  | @running seq hstream =>
    rcases hadv.running _ seq hstream with hstream' | ⟨x, hx, hm⟩
    · exact .running hstream'
    · exact absurd (hown (h.running _ seq hstream).own).1 (hquiet x hx hm)
  | stream hmine hsent =>
    obtain ⟨hmine', hsame⟩ := hown hmine
    exact .stream hmine' (hsame.trans hsent)
  | subscribed hmem => exact .subscribed ((hkeys _).mpr hmem)

/-- **The invariant rule for one connection**: what is left to show of a step is what it does about
the requests that it writes about. -/
theorem Answering.advance (h : Answering S cfg c d) (hadv : Advance cfg c d d' reqs xs ref)
    (hnodup : ((d'.requests c).map RequestPayload.requestId).Nodup) (hfed : d'.hub.Fed S c)
    (hrec : ∀ t, (d'.hub.topics t).Recorded) (hlasting : d'.hub.Lasting c)
    (hrunning : ∀ id seq, d'.streaming c = some (id, seq) → d'.Running c id seq)
    (hreply : ∀ req ∈ d'.requests c, (req ∈ reqs ∨
      d'.hub.Own c req.requestId ∧ ∃ x ∈ xs, mentions req.requestId x = true) → d'.Reply c req)
    (href : ∀ id ∈ ref, d'.hub.Own c id ∧ d'.sentFor c id = [])
    (hgone : d'.refused c = [] ∨ (d'.refused c).length = 1 ∧ ¬ (d'.hub.phase c).Reads) :
    Answering S cfg c d' where
  fed := hfed
  recorded := hrec
  lasting := hlasting
  running := hrunning
  replies req hreq := by
    by_cases hspecial : req ∈ reqs ∨
        d'.hub.Own c req.requestId ∧ ∃ x ∈ xs, mentions req.requestId x = true
    · exact hreply req hreq hspecial
    · obtain ⟨hold, hquiet⟩ := not_or.mp hspecial
      rw [hadv.requests] at hreq
      refine h.reply_advance hadv hnodup ((List.mem_append.mp hreq).resolve_right hold) ?_
      exact fun x hx hm hown => hquiet ⟨hown, x, hx, hm⟩
  refused id hid := by
    rw [hadv.refused] at hid
    rcases List.mem_append.mp hid with hid | hid
    · obtain ⟨hnone, hquiet⟩ := hadv.quiet.resolve_left (List.ne_nil_of_mem hid)
      obtain ⟨hown, hsent⟩ := h.refused id hid
      have hown' : d'.hub.Own c id := fun t hin =>
        hown t ((hadv.keys t id (by simp [hnone])).mp hin)
      refine ⟨hown', ?_⟩
      have hnone : about id xs = [] :=
        List.filter_eq_nil_iff.mpr fun x hx hm => hquiet x hx id hm hown'
      rw [sentFor_append hadv, hnone, List.append_nil, hsent]
    · exact href id hid
  gone := hgone
  errors := by
    rw [hadv.written, hadv.refused, List.filter_append, List.map_append, h.errors, hadv.errors]
  ordered := h.ordered_advance hadv hnodup

/-! ### Steps of other threads -/

/-- Nothing of the connection is touched. -/
theorem Answering.congr (h : Answering S cfg c d) (hconns : d'.hub.conns c = d.hub.conns c)
    (htopics : d'.hub.topics = d.hub.topics) (hphase : d'.hub.phase c = d.hub.phase c)
    (hstreaming : d'.streaming c = d.streaming c) (hrefused : d'.refused c = d.refused c) :
    Answering S cfg c d' := by
  have hown : ∀ id, d'.hub.Own c id ↔ d.hub.Own c id := fun id => by
    rw [Hub.Own, Hub.Own, htopics]
  have hrequests : d'.requests c = d.requests c := by rw [requests, requests, hconns]
  have hsent : ∀ id, d'.sentFor c id = d.sentFor c id := fun id => by
    rw [sentFor, sentFor, hconns]
  refine
    { fed := ?_, recorded := ?_, lasting := ?_, running := fun id seq hs => ?_,
      replies := fun req hreq => ?_, refused := fun id hid => ?_, gone := ?_, errors := ?_,
      ordered := ?_ }
  · refine h.fed.of_perm (Hub.received_congr hconns) ?_ (by rw [hconns]) fun t => by rw [htopics]
    rw [hconns]
    exact h.fed.synced
  · rw [htopics]
    exact h.recorded
  · refine h.lasting.keep hphase (fun hno => ?_) (by rw [hconns]) fun t p hp _ _ => ?_
    · rw [hconns]
      exact h.lasting.alive hno
    · rw [htopics] at hp
      exact Or.inl hp
  · rw [hstreaming] at hs
    obtain ⟨hserving, hlast, hmine, hsofar⟩ := h.running id seq hs
    exact ⟨hphase.trans hserving, by rwa [hrequests], (hown id).mpr hmine, by rwa [hsent]⟩
  · rw [hrequests] at hreq
    cases h.replies req hreq with
    | silent hwhy hmine hnone =>
      rw [← hrefused] at hwhy
      exact .silent hwhy ((hown _).mpr hmine) ((hsent _).trans hnone)
    | response hask hmine hone => exact .response hask ((hown _).mpr hmine) ((hsent _).trans hone)
    | running hs => exact .running (hstreaming.trans hs)
    | stream hmine hall => exact .stream ((hown _).mpr hmine) ((hsent _).trans hall)
    | @subscribed t hmem => exact .subscribed (t := t) (by rwa [htopics])
  · rw [hrefused] at hid
    rw [hown, hsent]
    exact h.refused id hid
  · rw [hrefused, hphase]
    exact h.gone
  · rw [hconns, hrefused]
    exact h.errors
  · simp only [Ordered, Subscribed, hown, hrequests, hconns]
    exact h.ordered

theorem phase_of_step {h h' : Hub} {a : Hub.Act} (hstep : Hub.Step S cfg h a h')
    (hthread : a.thread ≠ some c) : h'.phase c = h.phase c := by
  have hne : ∀ {c'}, Hub.Act.thread a = some c' → c ≠ c' := fun ha hc => hthread (by rw [ha, hc])
  cases Hub.effect_of_step hstep with
  | accept _ | refuse _ | frame _ _ | quit _ | shutdown _ | detach _ | finish _ =>
    exact Function.update_of_ne (hne rfl) _ _
  | publish | heartbeat | closeAll => rfl

/-- **A step that is not the handling of a frame** of the connection. -/
theorem Answering.aside (h : Answering S cfg c d) {a : Hub.Act}
    (hstep : Hub.Step S cfg d.hub a d'.hub) (hframe : ∀ f env, a ≠ .frame c f env)
    (hthread : a.thread = some c → d.streaming c = none) (hspares : d.hub.Spares c a)
    (hnodup : ((d'.requests c).map RequestPayload.requestId).Nodup)
    (hstreaming : d'.streaming c = d.streaming c) (hrefused : d'.refused c = d.refused c) :
    Answering S cfg c d' := by
  have haside := Hub.aside_of_step h.fed.synced hstep hframe
  obtain ⟨xs, hwritten, hxs⟩ := haside.written
  have hown : ∀ id, d'.hub.Own c id ↔ d.hub.Own c id := fun id =>
    forall_congr' fun t => not_congr (haside.keys t id)
  have hforeign : ∀ x ∈ xs, ∀ id, mentions id x = true → ¬ d'.hub.Own c id := by
    intro x hx id hm hmine
    obtain ⟨id', hm', hno⟩ := hxs x hx
    rw [mentions_unique hm hm', hown] at hmine
    exact hno hmine
  have herrors : xs.filter (fun x => x.1 = .error) = [] := by
    refine List.filter_eq_nil_iff.mpr fun x hx htype => ?_
    obtain ⟨id, hm, -⟩ := hxs x hx
    rcases type_of_mentions hm with h | h
    · rw [h] at htype
      exact absurd htype (by decide)
    · rw [h] at htype
      exact absurd htype (by decide)
  have hadv : Advance cfg c d d' [] xs [] :=
    { requests := by rw [requests, haside.requests, List.append_nil]; rfl
      written := hwritten
      refused := by rw [hrefused, List.append_nil]
      keys := fun t id _ => haside.keys t id
      last := fun x hx id hm hmine => absurd hmine (hforeign x hx id hm)
      errors := herrors
      quiet := Or.inr ⟨rfl, hforeign⟩
      running := fun id seq hs => Or.inl (hstreaming.trans hs) }
  refine h.advance hadv hnodup (h.fed.step hstep (by rw [received_eq]; exact hnodup))
    (fun t => (h.recorded t).changes (Hub.changes_of_step hstep t))
    (h.lasting.step h.recorded hstep hframe hspares) (fun id seq hs => ?_) ?_ (by simp) ?_
  · rw [hstreaming] at hs
    obtain ⟨hserving, hlast, hmine, messages, hsofar, hseq⟩ := h.running id seq hs
    have hphase : d'.hub.phase c = d.hub.phase c := phase_of_step hstep fun ht => by
      rw [hthread ht] at hs
      cases hs
    have hnone : about id xs = [] :=
      List.filter_eq_nil_iff.mpr fun x hx hm => hforeign x hx id hm ((hown id).mpr hmine)
    refine ⟨hphase.trans hserving, ?_, (hown id).mpr hmine, messages, ?_, hseq⟩
    · rwa [requests, haside.requests]
    · rw [sentFor_append hadv, hnone, List.append_nil, hsofar]
  · rintro req - (hreq | ⟨hmine, x, hx, hm⟩)
    · cases hreq
    · exact absurd hmine (hforeign x hx _ hm)
  · rw [hrefused]
    exact h.gone.imp_right (And.imp_right (Hub.reads_of_step hstep))

/-! ### Steps of the thread of the connection -/

/-- What is written in answer to a request is about its id. -/
theorem mentions_of_answer {env : Pass} {req : RequestPayload} {st st' : LoopState}
    {contents : List (FrameType × Bytes)} (h : Answer env req st st' contents) :
    ∀ x ∈ contents, mentions req.requestId x = true := by
  have hchunks : ∀ chunks : List StreamChunkPayload, (∀ ch ∈ chunks, ch.requestId = req.requestId) →
      ∀ x ∈ chunks.map chunkContent, mentions req.requestId x = true := by
    intro chunks hid x hx
    obtain ⟨ch, hch, rfl⟩ := List.mem_map.mp hx
    exact (mentions_streamChunk ch _).mpr (hid ch hch).symm
  cases h with
  | silent _ _ | subscribed _ => simp
  | response _ _ =>
    intro x hx
    rw [List.mem_singleton.mp hx]
    exact (mentions_response _ _).mpr rfl
  | chunks _ _ _ =>
    refine hchunks _ fun ch hch => ?_
    rcases List.mem_append.mp hch with hch | hch
    · obtain ⟨i, hi, rfl⟩ := List.mem_mapIdx.mp hch
      rfl
    · rw [List.mem_singleton.mp hch]
      rfl

theorem about_of_mentions {id : UInt64} {contents : List (FrameType × Bytes)}
    (h : ∀ x ∈ contents, mentions id x = true) : about id contents = contents :=
  List.filter_eq_self.mpr h

theorem filter_error_of_mentions {id : UInt64} {contents : List (FrameType × Bytes)}
    (h : ∀ x ∈ contents, mentions id x = true) : contents.filter (fun x => x.1 = .error) = [] := by
  refine List.filter_eq_nil_iff.mpr fun x hx htype => ?_
  rcases type_of_mentions (h x hx) with h | h
  · rw [h] at htype
    exact absurd htype (by decide)
  · rw [h] at htype
    exact absurd htype (by decide)

/-- A thread that serves its connection has not disconnected it. -/
theorem Answering.not_refused (h : Answering S cfg c d) (hphase : d.hub.phase c = .serving) :
    d.refused c = [] := by
  refine h.gone.resolve_right fun hgone => hgone.2 ?_
  rw [hphase]
  exact trivial

/-- The desk after a pass of the connection. -/
def afterPass (S : Sodium) (cfg : HostConfig) (d : Desk) (c : ℕ) (f : RawFrame) (env : Pass)
    (o : Outcome) : Desk :=
  { d with
    hub := d.hub.handled c o
    refused := Function.update d.refused c (d.refused c ++
      ((overRate S cfg env (d.hub.conns c) f).map RequestPayload.requestId).toList) }

variable {f : RawFrame} {env : Pass} {o : Outcome}

/-- What the handling of a frame adds, when what is written is about its request. -/
theorem Answering.advance_pass (h : Answering S cfg c d) (hphase : d.hub.phase c = .serving)
    (hidle : d.streaming c = none) (hpass : pass S cfg env (d.hub.conns c) f = .ok o)
    (hserves : Serves S (d.hub.conns c) o.state reqs xs) (ref : List UInt64)
    (href : ref = ((overRate S cfg env (d.hub.conns c) f).map RequestPayload.requestId).toList)
    (herrors : xs.filter (fun x => x.1 = .error) = ref.map fun _ => rateLimited cfg)
    (habout : ∀ x ∈ xs, ∀ id, mentions id x = true → ∃ req, reqs = [req] ∧ req.requestId = id) :
    Advance cfg c d (afterPass S cfg d c f env o) reqs xs ref := by
  have hself : (afterPass S cfg d c f env o).hub.conns c = o.state := Function.update_self _ _ _
  have hrequests : (afterPass S cfg d c f env o).requests c = d.requests c ++ reqs := by
    rw [requests, hself, hserves.requests]
    rfl
  have hnone := h.not_refused hphase
  refine
    { requests := hrequests, written := ?_, refused := ?_, keys := fun t id hid => ?_,
      last := fun x hx id hm _ => ?_, errors := herrors, quiet := Or.inl hnone,
      running := fun id seq hs => ?_ }
  · rw [hself]
    exact hserves.written h.fed.synced
  · rw [href]
    exact Function.update_self _ _ _
  · refine Hub.mem_allKeys_foldl _ d.hub.topics (fun endpoint topic hmem => ?_) t
    obtain ⟨ids, contents, hex⟩ := exchange_pass hpass
    have hids : ids = reqs.map RequestPayload.requestId := by
      have hreceived := hex.received
      rw [requestIds_opened, requestIds_opened, hserves.requests, List.map_append] at hreceived
      exact (List.append_cancel_left hreceived).symm
    have hin := (hex.subscribed endpoint topic id hmem).1
    rw [hids] at hin
    obtain ⟨req, hreq, heq⟩ := List.mem_map.mp hin
    exact absurd heq (hid req hreq)
  · obtain ⟨req, rfl, hid⟩ := habout x hx id hm
    exact ⟨d.requests c, req, hrequests, hid⟩
  · rw [hidle] at hs
    cases hs

theorem hub_step_frame {h : Hub} (hphase : h.phase c = .serving)
    (hpass : pass S cfg env (h.conns c) f = .ok o) :
    Hub.Step S cfg h (.frame c f env) (h.handled c o) := by
  simp only [Hub.Step, OfFun, Hub.step, hphase, hpass]

/-- **The handling of a frame of the connection.** -/
theorem Answering.pass (h : Answering S cfg c d) (hphase : d.hub.phase c = .serving)
    (hidle : d.streaming c = none) (hpass : Epx.pass S cfg env (d.hub.conns c) f = .ok o)
    (hsees : HostTables.Sees env) (hothers : env.othersAlive = true)
    (hwrote : ∀ i, env.wrote i = true)
    (hnodup : (((afterPass S cfg d c f env o).requests c).map RequestPayload.requestId).Nodup) :
    Answering S cfg c (afterPass S cfg d c f env o) := by
  have halive : (d.hub.conns c).conn.alive = true :=
    h.lasting.alive (by rw [hphase]; exact id)
  have hself : (afterPass S cfg d c f env o).hub.conns c = o.state := Function.update_self _ _ _
  have hstep := hub_step_frame hphase hpass
  have hfed : (afterPass S cfg d c f env o).hub.Fed S c :=
    h.fed.step hstep (by rw [← received_eq] at hnodup; exact hnodup)
  have hrec : ∀ t, ((afterPass S cfg d c f env o).hub.topics t).Recorded :=
    fun t => (h.recorded t).changes (Hub.changes_of_step hstep t)
  have hlasting : o.state.conn.alive = true → (afterPass S cfg d c f env o).hub.Lasting c :=
    fun hend => h.lasting.handled hphase (Hub.calls_kept hpass) fun _ => hend
  have hrunning : ∀ id seq, (afterPass S cfg d c f env o).streaming c = some (id, seq) →
      (afterPass S cfg d c f env o).Running c id seq := by
    intro id seq hs
    rw [show (afterPass S cfg d c f env o).streaming c = none from hidle] at hs
    cases hs
  have hnone := h.not_refused hphase
  -- without a subscription, the id of a new request stays free
  have hfree : ∀ {reqs xs ref}, Advance cfg c d (afterPass S cfg d c f env o) reqs xs ref →
      NoSubscribe (d.hub.conns c) o.state → ∀ req ∈ reqs,
      (afterPass S cfg d c f env o).hub.Own c req.requestId := by
    intro reqs xs ref hadv hno req hreq t hin
    refine (h.fresh hadv hnodup hreq).1 t ?_
    exact (Hub.mem_allKeys_foldl _ d.hub.topics
      (fun endpoint topic hmem => absurd hmem (hno endpoint topic _)) t).mp hin
  have hsent : ∀ {req xs ref}, Advance cfg c d (afterPass S cfg d c f env o) [req] xs ref →
      (afterPass S cfg d c f env o).sentFor c req.requestId = about req.requestId xs := by
    intro req xs ref hadv
    rw [sentFor_append hadv, (h.fresh hadv hnodup (List.mem_singleton_self req)).2.1,
      List.nil_append]
  have hgone : overRate S cfg env (d.hub.conns c) f = none →
      (afterPass S cfg d c f env o).refused c = [] := by
    intro hover
    rw [show (afterPass S cfg d c f env o).refused c = d.refused c ++ _ from
      Function.update_self _ _ _, hnone, hover]
    rfl
  cases passAnswer_of_pass hsees hothers hwrote halive hpass with
  | @idle _ contents hover hserves hcontents hno =>
    have hquiet : ∀ x ∈ contents, ∀ id, mentions id x = true → False := by
      intro x hx id hm
      rcases type_of_mentions hm with htype | htype
      · rw [hcontents x hx] at htype
        exact absurd htype (by decide)
      · rw [hcontents x hx] at htype
        exact absurd htype (by decide)
    have herrors : contents.filter (fun x => x.1 = .error) = [] := by
      refine List.filter_eq_nil_iff.mpr fun x hx htype => ?_
      rw [hcontents x hx] at htype
      exact absurd htype (by decide)
    have hadv := h.advance_pass hphase hidle hpass hserves [] (by rw [hover]; rfl) herrors
      fun x hx id hm => (hquiet x hx id hm).elim
    refine h.advance hadv hnodup hfed hrec (hlasting hserves.alive) hrunning ?_ (by simp)
      (Or.inl (hgone hover))
    rintro req - (hreq | ⟨-, x, hx, hm⟩)
    · cases hreq
    · exact (hquiet x hx _ hm).elim
  | @disconnected st' req hover hserves hno =>
    have hquiet : ∀ x ∈ [rateLimited cfg], ∀ id, mentions id x = true → False := by
      intro x hx id hm
      rw [List.mem_singleton.mp hx] at hm
      rcases type_of_mentions hm with htype | htype
      · exact absurd (show FrameType.error = _ from htype) (by decide)
      · exact absurd (show FrameType.error = _ from htype) (by decide)
    have hadv := h.advance_pass hphase hidle hpass hserves [req.requestId]
      (by rw [hover]; rfl) (by rfl) fun x hx id hm => (hquiet x hx id hm).elim
    have hmine := hfree hadv hno req (List.mem_singleton_self req)
    have hnothing : (afterPass S cfg d c f env (.stop st')).sentFor c req.requestId = [] := by
      rw [hsent hadv]
      exact List.filter_eq_nil_iff.mpr fun x hx hm => hquiet x hx _ hm
    have hrefused : (afterPass S cfg d c f env (.stop st')).refused c = [req.requestId] := by
      rw [hadv.refused, hnone, List.nil_append]
    refine h.advance hadv hnodup hfed hrec (hlasting hserves.alive) hrunning ?_ ?_ (Or.inr ⟨?_, ?_⟩)
    · rintro r - (hr | ⟨-, x, hx, hm⟩)
      · rw [List.mem_singleton.mp hr]
        refine .silent (Or.inr (Or.inr ?_)) hmine hnothing
        rw [hrefused]
        exact List.mem_singleton_self _
      · exact (hquiet x hx _ hm).elim
    · intro id hid
      rw [List.mem_singleton.mp hid]
      exact ⟨hmine, hnothing⟩
    · rw [hrefused, List.length_singleton]
    · change ¬ (Function.update d.hub.phase c _ c).Reads
      rw [Function.update_self]
      exact id
  | @answered st' req contents hover hserves hanswer =>
    have hmentions := mentions_of_answer hanswer
    have hadv := h.advance_pass hphase hidle hpass hserves [] (by rw [hover]; rfl)
      (filter_error_of_mentions hmentions)
      fun x hx id hm => ⟨req, rfl, mentions_unique (hmentions x hx) hm⟩
    have hall : (afterPass S cfg d c f env (.next st')).sentFor c req.requestId = contents :=
      (hsent hadv).trans (about_of_mentions hmentions)
    have hfree' := fun hno => hfree hadv hno req (List.mem_singleton_self req)
    have hreq : req ∈ (afterPass S cfg d c f env (.next st')).requests c := by
      rw [hadv.requests]
      exact List.mem_append_right _ (List.mem_singleton_self req)
    have hreply : (afterPass S cfg d c f env (.next st')).Reply c req := by
      cases hanswer with
      | silent hwhy hno => exact .silent (hwhy.imp_right Or.inl) (hfree' hno) hall
      | response hask hno => exact .response hask (hfree' hno) hall
      | subscribed hmem => exact .subscribed (Hub.mem_allKeys_of_subscribe hmem _)
      | chunks _ _ hno => exact .stream (hfree' hno) hall
    refine h.advance hadv hnodup hfed hrec (hlasting hserves.alive) hrunning ?_ (by simp)
      (Or.inl (hgone hover))
    rintro r hr (hnew | ⟨-, x, hx, hm⟩)
    · rwa [List.mem_singleton.mp hnew]
    · have hid := mentions_unique hm (hmentions x hx)
      rwa [List.inj_on_of_nodup_map hnodup hr hreq hid]

/-- Something is written about a request that has made no subscription. -/
theorem fed_append {h h' : Hub} (hfed : h.Fed S c) {st : LoopState}
    (hwrites : Writes S (h.conns c) st xs) (hconns : h'.conns c = st)
    (htopics : h'.topics = h.topics)
    (hown : ∀ x ∈ xs, ∀ id, mentions id x = true → h.Own c id ∧ id ∈ h.received c) :
    h'.Fed S c := by
  have hwritten : ∀ id, (∀ x ∈ xs, mentions id x = true → False) →
      about id (h'.conns c).written = about id (h.conns c).written := by
    intro id hno
    rw [hconns, hwrites.written hfed.synced, about_append,
      show about id xs = [] from List.filter_eq_nil_iff.mpr fun x hx hm => hno x hx hm,
      List.append_nil]
  have hreceived : h'.received c = h.received c := by
    rw [Hub.received, hconns, hwrites.opened]
    rfl
  refine ⟨?_, fun id hid => ?_, ?_, ?_, fun t s hs hc => ?_⟩
  · rw [hconns]
    exact hwrites.synced hfed.synced
  · rw [hreceived] at hid
    rw [htopics, hwritten id fun x hx hm => hid (hown x hx id hm).2]
    exact hfed.unknown id hid
  · rw [htopics]
    exact hfed.once
  · rw [htopics]
    exact hfed.single
  · rw [htopics] at hs
    rw [hwritten _ fun x hx hm => (hown x hx _ hm).1 t (Hub.mem_allKeys hs hc)]
    exact hfed.fed t s hs hc

/-- The desk after a write of the handler of a connection. -/
def afterChunk (S : Sodium) (d : Desk) (c : ℕ) (chunk : StreamChunkPayload)
    (next : Option (UInt64 × UInt32)) : Desk :=
  { d with
    hub := sendStreamChunk S d.hub c chunk.requestId chunk.seq chunk.isLast chunk.data true
    streaming := Function.update d.streaming c next }

/-- What a chunk of the handler adds. -/
theorem Answering.advance_chunk (h : Answering S cfg c d) (chunk : StreamChunkPayload)
    (hs : d.streaming c = some (chunk.requestId, chunk.seq)) (hendpoint : chunk.endpoint = [])
    (next : Option (UInt64 × UInt32)) :
    Writes S (d.hub.conns c) ((afterChunk S d c chunk next).hub.conns c) [chunkContent chunk] ∧
      ((afterChunk S d c chunk next).hub.conns c).conn.alive = true ∧
      Advance cfg c d (afterChunk S d c chunk next) [] [chunkContent chunk] [] := by
  obtain ⟨hserving, hlast, hmine, -⟩ := h.running _ _ hs
  have halive : (d.hub.conns c).conn.alive = true :=
    h.lasting.alive (by rw [hserving]; exact fun h => h)
  have hself : (afterChunk S d c chunk next).hub.conns c
      = (d.hub.conns c).sendSealed S .streamChunk (encodeStreamChunk chunk) true := by
    obtain ⟨id, seq, isLast, endpoint, data⟩ := chunk
    cases hendpoint
    exact Function.update_self _ _ _
  obtain ⟨hwrites, hend⟩ := sends_sealed (S := S) halive .streamChunk (by decide)
    (encodeStreamChunk chunk)
  have hrequests : (afterChunk S d c chunk next).requests c = d.requests c := by
    rw [requests, hself, (serves_of_writes hwrites hend).requests, List.append_nil]
    rfl
  have hmention : ∀ x ∈ [chunkContent chunk], mentions chunk.requestId x = true := by
    intro x hx
    rw [List.mem_singleton.mp hx]
    exact (mentions_streamChunk chunk _).mpr rfl
  rw [hself]
  refine ⟨hwrites, hend, ?_⟩
  exact
    { requests := by rw [hrequests, List.append_nil]
      written := by rw [hself]; exact hwrites.written h.fed.synced
      refused := (List.append_nil _).symm
      keys := fun _ _ _ => Iff.rfl
      last := fun x hx id hm _ => by
        rw [← mentions_unique (hmention x hx) hm, IsLast, hrequests]
        exact hlast
      errors := filter_error_of_mentions hmention
      quiet := Or.inl (h.not_refused hserving)
      running := fun id seq hs' => by
        rw [hs] at hs'
        cases hs'
        exact Or.inr ⟨_, List.mem_singleton_self _, hmention _ (List.mem_singleton_self _)⟩ }

/-- **A chunk of the handler is written.** What is to be shown is where the request is then: its
handler is still running, or the stream has come to its end. -/
theorem Answering.chunk (h : Answering S cfg c d) (chunk : StreamChunkPayload)
    (hs : d.streaming c = some (chunk.requestId, chunk.seq)) (hendpoint : chunk.endpoint = [])
    {next : Option (UInt64 × UInt32)}
    (hnext : ∀ messages, chunk.seq = UInt32.ofNat messages.length →
      (∃ ms, next = some (chunk.requestId, UInt32.ofNat ms.length) ∧
        (chunksOf chunk.requestId messages).map chunkContent ++ [chunkContent chunk]
          = (chunksOf chunk.requestId ms).map chunkContent) ∨
      next = none ∧ (chunksOf chunk.requestId messages).map chunkContent ++ [chunkContent chunk]
          = streamOf chunk.requestId messages)
    (hnodup : (((afterChunk S d c chunk next).requests c).map RequestPayload.requestId).Nodup) :
    Answering S cfg c (afterChunk S d c chunk next) := by
  obtain ⟨hserving, hlast, hmine, messages, hsofar, hseq⟩ := h.running _ _ hs
  obtain ⟨hwrites, hend, hadv⟩ := h.advance_chunk chunk hs hendpoint next
  have hmention : ∀ x ∈ [chunkContent chunk], mentions chunk.requestId x = true := by
    intro x hx
    rw [List.mem_singleton.mp hx]
    exact (mentions_streamChunk chunk _).mpr rfl
  have hrequests : (afterChunk S d c chunk next).requests c = d.requests c := by
    rw [hadv.requests, List.append_nil]
  have hsent : (afterChunk S d c chunk next).sentFor c chunk.requestId
      = (chunksOf chunk.requestId messages).map chunkContent ++ [chunkContent chunk] := by
    rw [sentFor_append hadv, hsofar, about_of_mentions hmention]
  have hreceived : chunk.requestId ∈ d.hub.received c := by
    obtain ⟨before, req, hreq, heq⟩ := hlast
    rw [received_eq, hreq, ← heq]
    exact List.mem_map_of_mem (List.mem_append_right _ (List.mem_singleton_self req))
  have hstreaming : (afterChunk S d c chunk next).streaming c = next := Function.update_self _ _ _
  refine h.advance hadv hnodup ?_ h.recorded ?_ (fun id seq hs' => ?_) ?_ (by simp)
    (Or.inl (h.not_refused hserving))
  · refine fed_append h.fed hwrites rfl rfl fun x hx id hm => ?_
    rw [← mentions_unique (hmention x hx) hm]
    exact ⟨hmine, hreceived⟩
  · refine h.lasting.keep rfl (fun _ => hend) ?_ fun _ _ hp _ _ => Or.inl hp
    rw [show (afterChunk S d c chunk next).hub.conns c
      = (d.hub.conns c).sendSealed S .streamChunk _ true from Function.update_self _ _ _]
    exact List.prefix_refl _
  · rw [hstreaming] at hs'
    rcases hnext messages hseq with ⟨ms, hms, hsent'⟩ | ⟨hnone, -⟩
    · rw [hms] at hs'
      cases hs'
      exact ⟨hserving, by rwa [hrequests], hmine, ms, hsent.trans hsent', rfl⟩
    · rw [hnone] at hs'
      cases hs'
  · rintro req - (hnew | ⟨-, x, hx, hm⟩)
    · cases hnew
    · have hid : chunk.requestId = req.requestId := mentions_unique (hmention x hx) hm
      rcases hnext messages hseq with ⟨ms, hms, -⟩ | ⟨-, hsent'⟩
      · exact .running (hstreaming.trans (by rw [hms, hid]))
      · have hsent'' := hsent.trans hsent'
        rw [hid] at hsent'' hmine
        exact .stream hmine hsent''

/-- **The handler of a StreamSend request is called.** -/
theorem Answering.opened (h : Answering S cfg c d) (hphase : d.hub.phase c = .serving)
    {req : RequestPayload} {st : LoopState}
    (hopen : openStream S cfg env (d.hub.conns c) f = .ok (some (req, st)))
    (hothers : env.othersAlive = true) {d' : Desk} (hhub : d'.hub = d.hub.handled c (.next st))
    (hstreaming : d'.streaming c = some (req.requestId, 0)) (hidle : d.streaming c = none)
    (hrefused : d'.refused = d.refused)
    (hnodup : ((d'.requests c).map RequestPayload.requestId).Nodup) : Answering S cfg c d' := by
  obtain ⟨opened, rx, entry, cache, -, hreq, -, -, -, -, -, hst⟩ :=
    (streams_of_openStream hopen).exists_open
  rw [hothers, Bool.and_true] at hst
  have halive : (d.hub.conns c).conn.alive = true := h.lasting.alive (by rw [hphase]; exact id)
  have hwrites : Writes S ((d.hub.conns c).accept f opened rx) st [] := by
    rw [hst]
    exact .quiet rfl rfl rfl rfl fun h => h
  have hend : st.conn.alive = true := by
    rw [hst]
    exact halive
  have hcalls : st.calls = (d.hub.conns c).calls ++ [.streamSend req.endpoint req.data] := by
    rw [hst]
    rfl
  have hno : NoSubscribe (d.hub.conns c) st := noSubscribe_of_call hcalls fun _ _ _ => by simp
  have hserves := serves_accept hwrites hend
  rw [hreq] at hserves
  have hself : d'.hub.conns c = st := by
    rw [hhub]
    exact Function.update_self _ _ _
  have htopics : d'.hub.topics = d.hub.topics := by
    rw [hhub]
    simp only [Hub.handled, Outcome.state, hcalls, List.drop_left, List.foldl_cons, List.foldl_nil]
    rfl
  have hphase' : d'.hub.phase c = .serving := by
    rw [hhub]
    exact Function.update_self _ _ _
  have hrequests : d'.requests c = d.requests c ++ [req] := by
    rw [requests, hself, hserves.requests]
    rfl
  have hlast : d'.IsLast c req.requestId := ⟨_, req, hrequests, rfl⟩
  have hadv : Advance cfg c d d' [req] [] [] :=
    { requests := hrequests
      written := by rw [hself]; exact hserves.written h.fed.synced
      refused := by rw [hrefused, List.append_nil]
      keys := fun t id _ => by rw [htopics]
      last := fun x hx => absurd hx List.not_mem_nil
      errors := rfl
      quiet := Or.inl (h.not_refused hphase)
      running := fun id seq hs => by
        rw [hidle] at hs
        cases hs }
  obtain ⟨hfree, hnothing, -⟩ := h.fresh hadv hnodup (List.mem_singleton_self req)
  have hown : d'.hub.Own c req.requestId := by
    rw [Hub.Own, htopics]
    exact hfree
  have hexchange : Exchange S (d.hub.conns c) st (requestIdOf (f.type, opened)).toList [] :=
    .of_accept hwrites (fun _ _ => rfl) fun endpoint t id hmem => absurd hmem (hno endpoint t id)
  refine h.advance hadv hnodup ?_ ?_ ?_ (fun id seq hs => ?_) ?_ (by simp) (Or.inl ?_)
  · refine h.fed.exchange hexchange hself htopics ?_
    rw [received_eq]
    exact hnodup
  · rw [htopics]
    exact h.recorded
  · rw [hhub]
    refine h.lasting.handled hphase ?_ fun _ => hend
    rw [show (Outcome.next st).state.calls = st.calls from rfl, hcalls]
    exact List.prefix_append _ _
  · rw [hstreaming] at hs
    cases hs
    refine ⟨hphase', hlast, hown, [], ?_, rfl⟩
    rw [sentFor_append hadv, hnothing]
    rfl
  · rintro r - (hr | ⟨-, x, hx, -⟩)
    · rw [List.mem_singleton.mp hr]
      exact .running hstreaming
    · cases hx
  · rw [hrefused]
    exact h.not_refused hphase

/-- **Every step of a connection whose writes succeed.** -/
theorem Answering.step (h : Answering S cfg c d) {a : Act} (hstep : SmoothStep S cfg c d a d') :
    Answering S cfg c d' := by
  obtain ⟨hstep, hsucceeds, hnodup⟩ := hstep
  cases effect_of_step hstep with
  | @aside a hub hhub hframe hidle =>
    have hspares : d.hub.Spares c a := by
      cases a with
      | frame c' f env => exact absurd rfl (hframe c' f env)
      | accept _ | refuse _ | quit _ | shutdown _ | detach _ | finish _ | publish _ _ _
      | heartbeat _ _ | closeAll _ _ => exact hsucceeds
    exact h.aside hhub (fun f env => hframe c f env) (hidle c) hspares hnodup rfl rfl
  | @frame c' f env o hidle hphase hpass =>
    by_cases hc : c' = c
    · subst hc
      obtain ⟨hothers, hwrote, hsees⟩ := hsucceeds rfl
      exact h.pass hphase hidle hpass hsees hothers hwrote hnodup
    · refine h.aside (hub_step_frame hphase hpass) (fun f' env' heq => ?_) (fun ht => ?_) trivial
        hnodup rfl (Function.update_of_ne (Ne.symm hc) _ _)
      · cases heq
        exact hc rfl
      · exact absurd (Option.some.inj ht) hc
  | @opened c' f env req st hidle hphase hopen =>
    by_cases hc : c' = c
    · subst hc
      exact h.opened hphase hopen (hsucceeds rfl).1 rfl (Function.update_self _ _ _)
        hidle rfl hnodup
    · obtain ⟨opened, rx, entry, cache, -, -, -, -, -, -, -, hst⟩ :=
        (streams_of_openStream hopen).exists_open
      refine h.congr (Function.update_of_ne (Ne.symm hc) _ _) ?_
        (Function.update_of_ne (Ne.symm hc) _ _) (Function.update_of_ne (Ne.symm hc) _ _) rfl
      have hcalls : st.calls = (d.hub.conns c').calls ++ [.streamSend req.endpoint req.data] := by
        rw [hst]
        rfl
      simp only [Hub.handled, Outcome.state, hcalls, List.drop_left, List.foldl_cons,
        List.foldl_nil]
      rfl
  | @chunk c' data ok id seq hs =>
    by_cases hc : c' = c
    · subst hc
      cases hsucceeds rfl
      refine h.chunk { requestId := id, seq := seq, isLast := false, data := data }
        hs rfl
        (fun messages hseq => Or.inl ⟨messages ++ [data], ?_, ?_⟩) hnodup
      · rw [List.length_append, List.length_singleton, UInt32.ofNat_add, ← hseq]
        rfl
      · rw [chunksOf_snoc, List.map_append, ← hseq]
        rfl
    · exact h.congr (Function.update_of_ne (Ne.symm hc) _ _) rfl rfl
        (Function.update_of_ne (Ne.symm hc) _ _) rfl
  | @ended c' ok id seq hs =>
    by_cases hc : c' = c
    · subst hc
      cases hsucceeds rfl
      refine h.chunk { requestId := id, seq := seq, isLast := true, data := [] } hs rfl
        (fun messages hseq => Or.inr ⟨rfl, ?_⟩) hnodup
      rw [streamOf, List.map_append, endChunk, ← hseq]
      rfl
    · exact h.congr (Function.update_of_ne (Ne.symm hc) _ _) rfl rfl
        (Function.update_of_ne (Ne.symm hc) _ _) rfl

/-! ### From the invariant to the answers -/

theorem type_of_mem_chunks {chunks : List StreamChunkPayload} {x : FrameType × Bytes}
    (hx : x ∈ chunks.map chunkContent) : x.1 = .streamChunk := by
  obtain ⟨ch, -, rfl⟩ := List.mem_map.mp hx
  rfl

/-- The subscription of a request. -/
theorem Answering.subscription (h : Answering S cfg c d) {t : ℕ} {id : UInt64}
    (hmem : (c, id) ∈ (d.hub.topics t).allKeys) :
    ∃ s ∈ (d.hub.topics t).all, s.key = (c, id) ∧ d.sentFor c id = s.chunks.map chunkContent := by
  obtain ⟨s, hs, hkey⟩ := List.mem_map.mp hmem
  refine ⟨s, hs, hkey, ?_⟩
  rw [← show s.requestId = id from congrArg Prod.snd hkey]
  exact h.fed.fed t s hs (congrArg Prod.fst hkey)

/-- **The chunks of a subscription** come to their end, or it is known why not. -/
theorem Answering.answered_of_subscribed (h : Answering S cfg c d) {t : ℕ} {req : RequestPayload}
    (hmem : (c, req.requestId) ∈ (d.hub.topics t).allKeys) : d.Answered c req := by
  obtain ⟨s, hs, hkey, hsent⟩ := h.subscription hmem
  have hid : s.requestId = req.requestId := congrArg Prod.snd hkey
  have hconn : s.conn = c := congrArg Prod.fst hkey
  have hclosed : ∀ messages : List Bytes, s.chunks
      = chunksOf s.requestId messages ++ [endChunk s.requestId messages.length] →
      d.Answered c req := by
    intro messages hchunks
    rw [hchunks, hid] at hsent
    exact .closed hmem hsent
  rcases List.mem_append.mp hs with hlive | hended
  · have hchunks := ((h.recorded t).live s hlive).chunks
    rw [hid] at hchunks
    rw [hchunks] at hsent
    exact .feed hmem (Or.inl (List.mem_map.mpr ⟨s, hlive, hkey⟩)) hsent
  · obtain ⟨p, hp, rfl⟩ := List.mem_map.mp hended
    rcases h.lasting.ended t p hp hconn with ⟨messages, hchunks⟩ | hwhy
    · exact hclosed messages hchunks
    · have hover := (h.recorded t).finished p hp
      rcases hover.chunks with hchunks | hchunks
      · rw [hid] at hwhy hchunks
        rw [hchunks] at hsent
        exact .feed hmem (Or.inr hwhy) hsent
      · refine hclosed (((d.hub.topics t).published.take p.2).drop p.1.addedAt) (hchunks.trans ?_)
        rw [List.length_drop, List.length_take, Nat.min_eq_left hover.ended]

theorem Answering.oneway (h : Answering S cfg c d) {req : RequestPayload}
    (hreq : req ∈ d.requests c) (hask : req.oneway = true) :
    ∀ x ∈ d.sentFor c req.requestId, x.1 ≠ .response := by
  have hchunks : ∀ {chunks : List StreamChunkPayload},
      d.sentFor c req.requestId = chunks.map chunkContent →
      ∀ x ∈ d.sentFor c req.requestId, x.1 ≠ .response := by
    intro chunks hsent x hx
    rw [hsent] at hx
    rw [type_of_mem_chunks hx]
    decide
  cases h.replies req hreq with
  | silent _ _ hsent =>
    rw [hsent]
    simp
  | response hno _ _ =>
    rw [hask] at hno
    cases hno
  | @running seq hs =>
    obtain ⟨messages, hsent, -⟩ := (h.running _ seq hs).sofar
    exact hchunks hsent
  | stream _ hsent => exact hchunks hsent
  | subscribed hmem =>
    obtain ⟨s, -, -, hsent⟩ := h.subscription hmem
    exact hchunks hsent

theorem Answering.answersOnce (h : Answering S cfg c d) : d.AnswersOnce S cfg c where
  synced := h.fed.synced
  oneway _ hreq hask := h.oneway hreq hask
  answered req hreq hask hname href := by
    cases h.replies req hreq with
    | silent hwhy _ _ =>
      rcases hwhy with hno | hname' | hin
      · rw [hask] at hno
        cases hno
      · exact absurd hname' hname
      · exact absurd hin href
    | response _ hown hsent => exact .response (not_not.mpr hown) hsent
    | @running seq hs =>
      have hrun := h.running _ seq hs
      obtain ⟨messages, hsent, -⟩ := hrun.sofar
      exact .running (not_not.mpr hrun.own) hs hsent
    | stream hown hsent => exact .stream (not_not.mpr hown) hsent
    | subscribed hmem => exact h.answered_of_subscribed hmem
  ordered := h.ordered
  refused id hid := (h.refused id hid).2
  errors := h.errors
  once := by
    rcases h.gone with hnone | ⟨hone, -⟩
    · rw [hnone]
      exact Nat.zero_le 1
    · exact Nat.le_of_eq hone

theorem answering_of_run {run : ℕ → ServerRun} {acc : ℕ → Accept} {hs : ℕ → HandshakeResult}
    {acts : List Act} (hrun : Run (SmoothStep S cfg c) (start cfg run acc hs) acts d) :
    Answering S cfg c d :=
  hrun.preserves (answering_start S cfg run acc hs c) fun _ _ _ h hstep => h.step hstep

end

end Desk

/-- **Every request gets one kind of answer.** On a connection whose writes succeed and on which no
request id comes twice, however its requests, the chunks of its handlers and the traffic of topics,
heartbeats and other connections follow each other,

* a oneway request is sent no RESPONSE;
* any other, unless it is to the protocol's own endpoint or disconnects the peer, is sent one
  RESPONSE and no chunk, or no RESPONSE and chunks numbered from 0 modulo `2 ^ 32`; these end in one
  last chunk, unless the handler is still running, or they are those of a subscription that goes on,
  was unsubscribed, or has ended with its connection;
* RESPONSE frames and the chunks of StreamSend requests are in the order of the requests;
* a request that disconnects the peer is answered by one ERROR frame and nothing else. -/
theorem requests_answered_once (S : Sodium) (cfg : HostConfig) (run : ℕ → ServerRun)
    (acc : ℕ → Accept) (hs : ℕ → HandshakeResult) (c : ℕ) {acts : List Desk.Act} {d : Desk}
    (hrun : Run (Desk.SmoothStep S cfg c) (.start cfg run acc hs) acts d) :
    d.AnswersOnce S cfg c :=
  (Desk.answering_of_run hrun).answersOnce

/-! ### A handler and a publisher on one connection -/

namespace BusyConnection

open SameRequestId (sodium serverRun accept result request)

/-- At most one request in a row may be delayed. -/
def config : HostConfig :=
  { serviceName := [115], policy := .allowAll,
    limits := { maxRequestsPerSec := 1, disconnectAfterDelayed := 0 } }

/-- The endpoint `t` is topic 0, and `s` writes a stream. -/
def env : Pass :=
  { SameRequestId.env with
    handlers := [([115], { kind := .streamSend }), ([116], { kind := .topic, access := some {} })] }

def tableActs : List HostTables.Act :=
  [.addTopic [116] 0, .addEntry [116] {}, .expose [115] { kind := .streamSend }]

def tables : Option HostTables := exec HostTables.step {} tableActs

theorem tables_isSome : tables.isSome = true := by decide

theorem sees {env' : Pass} (hhandlers : env'.handlers = env.handlers)
    (htopics : env'.topics = env.topics) : HostTables.Sees env' := by
  refine ⟨tableActs, tables.get tables_isSome, [], tables.get tables_isSome,
    run_of_exec (Option.some_get tables_isSome).symm, .nil, ?_, ?_⟩
  · rw [hhandlers]
    decide
  · rw [htopics]
    decide

def ask (n : UInt64) (req : RequestPayload) (token : Bool) : Desk.Act :=
  .hub (.frame 0 (request n req) { env with token := token })

/-- The peer subscribes, and asks for a stream. -/
def opening : List Desk.Act :=
  [.hub (.accept 0), ask 0 { requestId := 7, endpoint := [116] } true,
    ask 1 { requestId := 8, endpoint := [115] } true]

/-- A message is published between two chunks; then the peer asks for what is not there, and then
once too often. -/
def acts : List Desk.Act :=
  opening ++ [.chunk 0 [1] true, .hub (.publish 0 [9] fun _ => true), .chunk 0 [2] true,
    .endStream 0 true, ask 2 { requestId := 9, endpoint := [120] } true,
    ask 3 { requestId := 10, endpoint := [115] } false]

def desk : Desk := .start config (fun _ => serverRun) (fun _ => accept) fun _ => result

/-- No step makes the peer use an id twice. -/
def distinctStep (d : Desk) (a : Desk.Act) : Option Desk :=
  (d.step sodium config a).filter fun d' => ((d'.requests 0).map RequestPayload.requestId).Nodup

theorem succeeds_ask (d : Desk) (n : UInt64) (req : RequestPayload) (token : Bool) :
    d.Succeeds 0 (ask n req token) :=
  fun _ => ⟨rfl, fun _ => rfl, sees rfl rfl⟩

theorem succeeds (d : Desk) : ∀ a ∈ acts, d.Succeeds 0 a := by
  intro a ha
  simp only [acts, opening, List.cons_append, List.nil_append, List.mem_cons, List.not_mem_nil,
    or_false] at ha
  rcases ha with rfl | rfl | rfl | rfl | rfl | rfl | rfl | rfl | rfl
  · exact trivial
  · exact succeeds_ask d _ _ _
  · exact succeeds_ask d _ _ _
  · exact fun _ => rfl
  · exact fun _ _ _ _ => rfl
  · exact fun _ => rfl
  · exact fun _ => rfl
  · exact succeeds_ask d _ _ _
  · exact succeeds_ask d _ _ _

theorem smooth_run {acts' : List Desk.Act} {d : Desk} (hsub : acts' ⊆ acts)
    (h : exec distinctStep desk acts' = some d) :
    Run (Desk.SmoothStep sodium config 0) desk acts' d := by
  refine (run_of_exec h).mono_of_mem fun d a d' ha hstep => ?_
  obtain ⟨hstep, hnodup⟩ := Option.filter_eq_some_iff.mp hstep
  exact ⟨hstep, succeeds d a (hsub ha), of_decide_eq_true hnodup⟩

def deskEnd : Option Desk := exec distinctStep desk acts

theorem deskEnd_isSome : deskEnd.isSome = true := by decide +kernel

theorem desk_run : Run (Desk.SmoothStep sodium config 0) desk acts (deskEnd.get deskEnd_isSome) :=
  smooth_run (List.Subset.refl _) (Option.some_get deskEnd_isSome).symm

end BusyConnection

open BusyConnection in
theorem requests_answered_once_busy :
    (deskEnd.get deskEnd_isSome).sentFor 0 8 = streamOf 8 [[1], [2]] ∧
    (deskEnd.get deskEnd_isSome).sentFor 0 7 = (chunksOf 7 [[9]]).map chunkContent ∧
    (deskEnd.get deskEnd_isSome).refused 0 = [10] ∧
    (deskEnd.get deskEnd_isSome).AnswersOnce SameRequestId.sodium config 0 :=
  ⟨by decide +kernel, by decide +kernel, by decide +kernel,
    requests_answered_once SameRequestId.sodium config (fun _ => SameRequestId.serverRun)
      (fun _ => SameRequestId.accept) (fun _ => SameRequestId.result) 0 desk_run⟩

/-! ### More chunks than numbers -/

namespace BusyConnection

open SameRequestId (sodium)

def opened : Option Desk := exec distinctStep desk opening

theorem opened_isSome : opened.isSome = true := by decide +kernel

/-- The handler of the stream with id 8 has written `n` chunks. -/
structure Written (n : ℕ) (d : Desk) : Prop where
  streaming : d.streaming 0 = some (8, UInt32.ofNat n)
  request : ∃ req ∈ d.requests 0, req.requestId = 8
  nodup : ((d.requests 0).map RequestPayload.requestId).Nodup
  length : (d.sentFor 0 8).length = n
  types : ∀ x ∈ d.sentFor 0 8, x.1 = .streamChunk

theorem Written.chunk {n : ℕ} {d : Desk} (h : Written n d)
    (hanswering : d.Answering sodium config 0) :
    ∃ d', Desk.SmoothStep sodium config 0 d (.chunk 0 [] true) d' ∧ Written (n + 1) d' := by
  obtain ⟨-, -, hadv⟩ := hanswering.advance_chunk { requestId := 8, seq := UInt32.ofNat n }
    h.streaming rfl (some (8, UInt32.ofNat n + 1))
  have hrequests := hadv.requests
  rw [List.append_nil] at hrequests
  have hsent := Desk.sentFor_append hadv 8
  have hone : about 8 [chunkContent { requestId := 8, seq := UInt32.ofNat n }]
      = [chunkContent { requestId := 8, seq := UInt32.ofNat n }] := by
    refine Desk.about_of_mentions fun x hx => ?_
    rw [List.mem_singleton.mp hx]
    exact (mentions_streamChunk _ _).mpr rfl
  rw [hone] at hsent
  refine ⟨Desk.afterChunk sodium d 0 { requestId := 8, seq := UInt32.ofNat n }
    (some (8, UInt32.ofNat n + 1)), ⟨?_, fun _ => rfl, ?_⟩, ?_, ?_, ?_, ?_, fun x hx => ?_⟩
  · simp only [Desk.Step, OfFun, Desk.step, h.streaming]
    rfl
  · rw [hrequests]
    exact h.nodup
  · rw [UInt32.ofNat_add]
    exact Function.update_self (0 : ℕ) _ d.streaming
  · rw [hrequests]
    exact h.request
  · rw [hrequests]
    exact h.nodup
  · rw [hsent, List.length_append, h.length, List.length_singleton]
  · rw [hsent] at hx
    rcases List.mem_append.mp hx with hx | hx
    · exact h.types x hx
    · rw [List.mem_singleton.mp hx]
      rfl

/-- The handler writes as many chunks as one likes. -/
theorem run_handler (n : ℕ) :
    ∃ acts d, Run (Desk.SmoothStep sodium config 0) desk acts d ∧ Written n d := by
  induction n with
  | zero =>
    refine ⟨opening, opened.get opened_isSome,
      smooth_run (List.subset_append_left _ _) (Option.some_get opened_isSome).symm, ?_, ?_, ?_,
      ?_, ?_⟩
    · decide +kernel
    · exact ⟨{ requestId := 8, endpoint := [115] }, by decide +kernel, rfl⟩
    · decide +kernel
    · decide +kernel
    · decide +kernel
  | succ n ih =>
    obtain ⟨acts, d, hrun, hwritten⟩ := ih
    obtain ⟨d', hstep, hwritten'⟩ := hwritten.chunk (Desk.answering_of_run hrun)
    exact ⟨_, d', hrun.snoc hstep, hwritten'⟩

end BusyConnection

/-- After `2 ^ 32 + 1` chunks of one handler the number of the last is not its place. -/
theorem chunk_numbers_repeat :
    ¬ ∀ (S : Sodium) (cfg : HostConfig) (run : ℕ → ServerRun) (acc : ℕ → Accept)
        (hs : ℕ → HandshakeResult) (c : ℕ) (acts : List Desk.Act) (d : Desk),
      Run (Desk.SmoothStep S cfg c) (.start cfg run acc hs) acts d →
      ∀ req ∈ d.requests c, ∀ i x, (d.sentFor c req.requestId)[i]? = some x →
        x.1 = .streamChunk → ∃ chunk, x = chunkContent chunk ∧ chunk.seq.toNat = i := by
  intro hclaim
  obtain ⟨acts, d, hrun, -, ⟨req, hreq, hid⟩, -, hlen, htypes⟩ :=
    BusyConnection.run_handler (2 ^ 32 + 1)
  have hi : 2 ^ 32 < (d.sentFor 0 8).length := by omega
  obtain ⟨chunk, -, hseq⟩ := hclaim _ _ _ _ _ 0 acts d hrun req hreq (2 ^ 32) _
    (by rw [hid]; exact List.getElem?_eq_getElem hi) (htypes _ (List.getElem_mem hi))
  have hlt := chunk.seq.toNat_lt
  omega

end Epx
