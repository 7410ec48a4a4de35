import Epx.FeedOrder
import Epx.Rpc

/-!
# Topics reach the callbacks of their subscribers

From a publish to the callback of a subscription, through the record layer of a connection that
stays up, across its key rotations and beside everything else that is on it.

## Main definitions

* `Topic.Messages` — the messages that a subscription is for
* `Link.TopicsIntact` — its callback is called for them

## Main results

* `topics_intact`
-/

namespace Epx

open Codec Transition
open ClientCalls (Untold)
open ClientTables (callback chunksFor chunksFor_append)

/-- What the callback is called with for a message. -/
def asCall (message : Bytes) : Bytes × Bool := (message, false)

/-- The messages from when a subscription was added: to the last one so far, or to when it ended. -/
inductive Topic.Messages (t : Topic) (s : TopicSub) : List Bytes → Prop
  | live : s ∈ t.subs → Messages t s (t.published.drop s.addedAt)
  | ended {n : ℕ} : (s, n) ∈ t.ended → Messages t s ((t.published.take n).drop s.addedAt)

section

variable {S : Sodium} {t : Topic} {s : TopicSub} {messages : List Bytes}

theorem Topic.Messages.mem_all (h : t.Messages s messages) : s ∈ t.all := by
  cases h with
  | live hs => exact List.mem_append_left _ hs
  | ended hs => exact List.mem_append_right _ (List.mem_map_of_mem hs)

/-- What was written for a subscription: its messages, and at most an end marker. -/
theorem Topic.Recorded.callbacks (h : t.Recorded) (hmessages : t.Messages s messages) :
    s.chunks.map callback = messages.map asCall ∨
      s.chunks.map callback = messages.map asCall ++ [([], true)] := by
  cases hmessages with
  | live hs =>
    rw [(h.live s hs).chunks]
    exact Or.inl (map_callback_chunksOf _ _)
  | ended hs =>
    refine (h.finished _ hs).chunks.imp (fun hchunks => ?_) fun hchunks => ?_
    · rw [hchunks]
      exact map_callback_chunksOf _ _
    · rw [hchunks, List.map_append, map_callback_chunksOf]
      rfl

theorem Topic.Recorded.callbacks_of_mem_subs (h : t.Recorded) (hs : s ∈ t.subs) :
    s.chunks.map callback = (t.published.drop s.addedAt).map asCall := by
  rw [(h.live s hs).chunks]
  exact map_callback_chunksOf _ _

end

/-! ### What a callback is called with -/

/-- A beginning of a feed, and perhaps its end. -/
def FeedOf (messages : List Bytes) (calls : List (Bytes × Bool)) : Prop :=
  ∃ n, calls = (messages.take n).map asCall ∨
    calls = (messages.take n).map asCall ++ [([], true)]

theorem feedOf_of_prefix {messages : List Bytes} {calls : List (Bytes × Bool)}
    (h : calls <+: messages.map asCall ++ [([], true)]) : FeedOf messages calls := by
  rcases List.prefix_concat_iff.mp h with heq | hfirst
  · exact ⟨messages.length, Or.inr (by rw [List.take_length, heq])⟩
  · have htake := List.prefix_iff_eq_take.mp hfirst
    rw [← List.map_take] at htake
    exact ⟨_, Or.inl htake⟩

/-- The first calls are a beginning too. -/
theorem FeedOf.of_first {messages : List Bytes} {calls first : List (Bytes × Bool)}
    (h : FeedOf messages calls) (hfirst : first <+: calls) : FeedOf messages first := by
  obtain ⟨n, hcalls⟩ := h
  have hshort : FeedOf (messages.take n) first := by
    refine feedOf_of_prefix (hfirst.trans ?_)
    rcases hcalls with rfl | rfl
    · exact List.prefix_append _ _
    · exact List.prefix_refl _
  obtain ⟨m, hm⟩ := hshort
  rw [List.take_take] at hm
  exact ⟨_, hm⟩

/-- A callback is told at most once that its feed is over, and if no chunk says so, at its end. -/
theorem feedOf_of_order {messages : List Bytes} {fed calls done : List (Bytes × Bool)}
    (hfed : fed <+: messages.map asCall ++ [([], true)]) (hdone : done <+: fed)
    (horder : calls = done ∨ Untold done ∧ calls = done ++ [([], true)]) :
    FeedOf messages calls := by
  have hfirst := hdone.trans hfed
  rcases horder with rfl | ⟨huntold, rfl⟩
  · exact feedOf_of_prefix hfirst
  · rcases List.prefix_concat_iff.mp hfirst with heq | hfirst
    · have htold := huntold ([], true) (by rw [heq]; exact List.mem_append_right _ (by simp))
      cases htold
    · have htake := List.prefix_iff_eq_take.mp hfirst
      rw [← List.map_take] at htake
      exact ⟨done.length, Or.inr (congrArg (· ++ [([], true)]) htake)⟩

namespace Link

/-- The callbacks are handed what was read in its order. -/
def Handing (k : Link) : Prop := ∀ i, k.line.side.calls.FeedOrder i

/-- What the callbacks of subscriptions are called with. -/
structure TopicsIntact (c : ℕ) (k : Link) : Prop where
  /-- The callback of a subscription is called for the messages that it is for, from the first one
  on, in their order and without a gap, and at most once, and last, for the end of the feed. -/
  order : ∀ i t s messages, (k.line.side.calls.calls i).asks = some (.subscribe, s.requestId) →
    s.conn = c → (k.desk.hub.topics t).Messages s messages →
    FeedOf messages (k.line.side.calls.invoked i)
  /-- For all messages so far, when the topic has the subscription, the client has its sink, and
  nothing is in flight or owed to the callback. -/
  complete : ∀ i t s, (k.line.side.calls.calls i).asks = some (.subscribe, s.requestId) →
    s.conn = c → s ∈ (k.desk.hub.topics t).subs →
    k.line.side.calls.streamSinks s.requestId ≠ none → k.line.side.input = [] →
    k.line.side.calls.reader.unstarted i = [] →
    k.line.side.calls.invoked i = ((k.desk.hub.topics t).published.drop s.addedAt).map asCall
  /-- A topic has the subscription because of the call's own request. -/
  asked : ∀ i t s kind, (k.line.side.calls.calls i).asks = some (kind, s.requestId) →
    s.conn = c → s ∈ (k.desk.hub.topics t).all →
    k.line.request i s.requestId ∈ k.desk.requests c
  /-- A subscription that the host has not heard of is told nothing but its end. -/
  unheard : ∀ i id, (k.line.side.calls.calls i).asks = some (.subscribe, id) →
    k.line.request i id ∉ k.desk.requests c → FeedOf [] (k.line.side.calls.invoked i)

section

variable {S : Sodium} {cfg : HostConfig} {c : ℕ} {E : Set Bytes} {k k' : Link}

theorem handing_of_steady (h : k.Inv S cfg c E) {a : Act} (hstep : SteadyStep c S cfg E k a k')
    (hlt : k.line.side.calls.drawn.length < 2 ^ 64) (hhanding : k.Handing) : k'.Handing := by
  obtain ⟨hstep, -⟩ := hstep
  cases a with
  | host a =>
    obtain ⟨rest, -, hstep⟩ := Option.bind_eq_some_iff.mp hstep
    obtain ⟨d, -, rfl⟩ := Option.map_eq_some_iff.mp hstep
    exact hhanding
  | client a =>
    obtain ⟨l, hl, rfl⟩ := Option.map_eq_some_iff.mp hstep
    intro i
    rcases Line.calls_of_step hl with hsame | ⟨b, hb⟩
    · rw [hsame]
      exact hhanding i
    · exact (hhanding i).step h.reads.streams.ids (h.reads.handed i) h.reads.deliveries hlt hb

/-- What was written under the id of a subscription are its chunks. -/
theorem Inv.chunks_of_sub (hS : S.AeadCorrect) (h : k.Inv S cfg c E) {t : ℕ} {s : TopicSub}
    (hs : s ∈ (k.desk.hub.topics t).all) (hc : s.conn = c) :
    chunksFor s.requestId (k.conn c).written = s.chunks := by
  have hfed : about s.requestId (k.conn c).written = s.chunks.map chunkContent :=
    h.answering.fed.fed t s hs hc
  rw [← Service.chunksFor_about, hfed]
  refine Service.chunksFor_chunkContent fun chunk hchunk => ?_
  obtain ⟨hid, hendpoint⟩ := Service.chunks_of_recorded (h.answering.recorded t) hs chunk hchunk
  refine ⟨hid, chunkOf_content (f := .streamChunk chunk) ?_ ?_⟩
  · change chunk.endpoint.length ≤ 255
    rw [hendpoint]
    exact Nat.zero_le _
  · have hin : chunkContent chunk ∈ about s.requestId (k.conn c).written := by
      rw [hfed]
      exact List.mem_map_of_mem hchunk
    exact h.written_short hS _ (List.mem_filter.mp hin).1

/-- What was read under the id of a subscription are the first of its chunks. -/
theorem Inv.fed_of_sub (hS : S.AeadCorrect) (h : k.Inv S cfg c E) {i t : ℕ} {s : TopicSub}
    {kind : AskKind} (hi : (k.line.side.calls.calls i).asks = some (kind, s.requestId))
    (hs : s ∈ (k.desk.hub.topics t).all) (hc : s.conn = c) :
    k.line.side.calls.fed i <+: s.chunks.map callback := by
  have hread := h.reads.known i kind s.requestId hi
  have hwritten := (h.taken_written s.requestId).map callback
  rw [h.chunks_of_sub hS hs hc] at hwritten
  exact hread.trans hwritten

theorem Inv.feedOf_of_fed {i : ℕ} (hhanding : k.Handing) {messages : List Bytes}
    (hfed : k.line.side.calls.fed i <+: messages.map asCall ++ [([], true)]) :
    FeedOf messages (k.line.side.calls.invoked i) := by
  obtain ⟨done, hdone, horder⟩ := (hhanding i).order
  exact (feedOf_of_order hfed hdone horder).of_first (List.prefix_append _ _)

theorem Inv.topicsIntact (hS : S.AeadCorrect) (h : k.Inv S cfg c E) (hhanding : k.Handing) :
    k.TopicsIntact c where
  order i t s messages hi hc hmessages := by
    refine Inv.feedOf_of_fed hhanding ((h.fed_of_sub hS hi hmessages.mem_all hc).trans ?_)
    rcases (h.answering.recorded t).callbacks hmessages with heq | heq
    · rw [heq]
      exact List.prefix_append _ _
    · rw [heq]
  complete i t s hi hc hs hsink hinput howed := by
    obtain ⟨session, hend, hcarries⟩ := h.session
    obtain ⟨xs, hwritten, hflight⟩ := delivered_toClient hend hcarries
    rw [hflight hinput, List.append_nil] at hwritten
    -- its sink is that of the call
    obtain ⟨sink, hsome⟩ := Option.ne_none_iff_exists'.mp hsink
    have hown := h.reads.streams.ids.sinks _ _ hsome
    have hcallback : sink.callback = i :=
      h.reads.streams.ids.asks_inj _ _ _ _ _ (CallPlace.asks_of_under hown) hi
    rw [hcallback] at hown
    have hhanded := (hhanding i).whole _ _ hsome hcallback
    rw [ClientCalls.handed, howed, List.append_nil] at hhanded
    rw [hhanded, h.reads.under i _ _ hown, ← hwritten,
      h.chunks_of_sub hS (List.mem_append_left _ hs) hc]
    exact (h.answering.recorded t).callbacks_of_mem_subs hs
  asked i t s kind hi hc hs :=
    h.request_of_received hS hi (h.answering.fed.mem_received (Hub.mem_allKeys hs hc))
  unheard i id hi hno := by
    refine Inv.feedOf_of_fed hhanding ?_
    have hread := h.reads.known i _ id hi
    rw [h.unread fun hin => hno (h.request_of_received hS hi (by
      rw [Desk.received_eq]
      exact hin)), List.map_nil, List.prefix_nil] at hread
    rw [hread]
    exact List.nil_prefix

end

end Link

/-- **Topics arrive intact**, on a connection that stays up and has drawn fewer than `2 ^ 64`
request ids: the callback of a subscription is called for the messages that were published on its
topic since it was added, in their order and none left out, up to some point, and then at most once
for the end of the feed; for all of them if the topic and the client still have the subscription
and everything was read. -/
theorem topics_intact (S : Sodium) (hS : S.AeadCorrect) (hkx : S.KxAgree) (cfg : HostConfig)
    (c : ℕ) (E : Set Bytes) (run : ℕ → ServerRun) (acc : ℕ → Accept) (hs : ℕ → HandshakeResult)
    (eph : EphemeralKeyPair) (client : HandshakeResult) (rotation : RotationPolicy) (now : ℕ)
    (hpaired : Paired S eph client (run c) (hs c)) (acts : List Link.Act) (k : Link)
    (hrun : Run (Link.SteadyStep c S cfg E)
      (.start cfg run acc hs eph client rotation now) acts k)
    (hlt : k.line.side.calls.drawn.length < 2 ^ 64) : k.TopicsIntact c := by
  have hinv : k.Inv S cfg c E ∧ k.Handing := by
    refine hrun.preserves (I := fun t => t.line.side.calls.drawn.length < 2 ^ 64 →
      t.Inv S cfg c E ∧ t.Handing) (fun _ => ?_) (fun t a t' h hstep hlt => ?_) hlt
    · exact ⟨Link.inv_start hpaired rotation now E, ClientCalls.feedOrder_start⟩
    · have hlt' := lt_of_le_of_lt (Link.drawn_le hstep.1) hlt
      obtain ⟨hinv, hhanding⟩ := h hlt'
      exact ⟨hinv.step hS hkx hstep hlt, Link.handing_of_steady hinv hstep hlt' hhanding⟩
  exact hinv.1.topicsIntact hS hinv.2

namespace PlayedLink

open RotatedSession (sodium ephemeral)
open BusyLink (clientResult hostResult serverRun paired)

/-- A message is published before the client subscribes, and two after that. -/
def subscribing : List Move :=
  [.accept, .publish [1]] ++ ask 0 .subscribe [116] [] ++ [.serve, .publish [2], .publish [3],
    .client (.side .loop), .read, .call .invoke, .call .callbackReturns, .client (.side .loop),
    .read, .call .invoke, .call .callbackReturns]

def subscribed : Option Link := exec play link subscribing

theorem subscribed_isSome : subscribed.isSome = true := by decide +kernel

theorem topics_intact_subscribed :
    (subscribed.get subscribed_isSome).line.side.calls.invoked 0 = [([2], false), ([3], false)] ∧
    (subscribed.get subscribed_isSome).TopicsIntact 0 := by
  obtain ⟨acts, hrun⟩ := run_of_play (Option.some_get subscribed_isSome).symm
  refine ⟨by decide +kernel, ?_⟩
  exact topics_intact sodium (Sodium.symbolic_aeadCorrect []) (Sodium.symbolic_kxAgree []) config 0
    ∅ (fun _ => serverRun) (fun _ => SameRequestId.accept) (fun _ => hostResult) (ephemeral 1)
    clientResult {} 0 paired acts _ hrun (by decide +kernel)

end PlayedLink

end Epx
