import Epx.TopicFeed
import Epx.ClientTables

/-!
# From a publish to the callbacks of its subscribers

A host with all its connections and topics, and at the other end of each connection the tables of a
client. What the two ends of a connection have to do with each other is left open: a connection is
undisturbed when the host has opened what the client has sent, from the beginning and in its order,
and the client what the host has written.

## Main definitions

* `Service`, `Service.Step` — a host and its clients
* `Service.Undisturbed` — nothing happens to a connection on the way
* `Service.Delivered` — the callbacks for a subscription are those of its chunks

## Main results

* `topic_delivery`
-/

namespace Epx

open Codec Transition LoopState

/-- A host and the clients of its connections. -/
structure Service where
  hub : Hub
  clients : ℕ → ClientTables := fun _ => {}

namespace Service

inductive Act where
  | host (a : Hub.Act)
  | client (c : ℕ) (a : ClientTables.Act)

def start (cfg : HostConfig) (run : ℕ → ServerRun) (acc : ℕ → Accept)
    (hs : ℕ → HandshakeResult) : Service :=
  { hub := .start cfg run acc hs }

def step (S : Sodium) (cfg : HostConfig) (w : Service) : Act → Option Service
  | .host a => (w.hub.step S cfg a).map fun hub => { w with hub := hub }
  | .client c a =>
    ((w.clients c).step a).map fun k => { w with clients := Function.update w.clients c k }

/-- The steps of a host and its clients. -/
def Step (S : Sodium) (cfg : HostConfig) : Service → Act → Service → Prop := OfFun (step S cfg)

/-- What the host has received on a connection. -/
def opened (w : Service) (c : ℕ) : List (FrameType × Bytes) :=
  (w.hub.conns c).conn.opened.map Opened.content

/-- Both ends of a connection have opened what the other end has sent, and the client has not run
out of request ids. -/
structure Undisturbed (w : Service) (c : ℕ) : Prop where
  toHost : w.opened c <+: (w.clients c).sent
  toClient : (w.clients c).taken <+: (w.hub.conns c).written
  ids : (w.clients c).drawn.length < 2 ^ 64

/-- The steps that leave a connection undisturbed. -/
def QuietStep (S : Sodium) (cfg : HostConfig) (c : ℕ) (w : Service) (a : Act) (w' : Service) :
    Prop :=
  w.Step S cfg a w' ∧ w'.Undisturbed c

/-- The client of a subscription has called its callback for the chunks of the subscription, in
their order and from the first on:

* for those that it has read, while the callback is registered;
* which is until it is unsubscribed or closed. -/
structure Delivered (w : Service) (s : TopicSub) : Prop where
  registered : (w.clients s.conn).streamSinks s.requestId = some true →
    (w.clients s.conn).callbacks s.requestId
      = (s.chunks.take (about s.requestId (w.clients s.conn).taken).length).map
        ClientTables.callback
  complete : (w.clients s.conn).streamSinks s.requestId = some true →
    (w.clients s.conn).taken = (w.hub.conns s.conn).written →
    (w.clients s.conn).callbacks s.requestId = s.chunks.map ClientTables.callback
  order : ∃ n, (w.clients s.conn).callbacks s.requestId
      = (s.chunks.take n).map ClientTables.callback ∨
    (w.clients s.conn).callbacks s.requestId
      = (s.chunks.take n).map ClientTables.callback ++ [([], true)]
  lasting : s.requestId ∈ (w.clients s.conn).subscribed →
    (w.clients s.conn).streamSinks s.requestId = some true ∨
      s.requestId ∈ (w.clients s.conn).unsubscribed ∨ (w.clients s.conn).Closed s.requestId

/-! ### The chunks that were read are those that were written -/

theorem mentions_of_chunkOf {x : FrameType × Bytes} {c : StreamChunkPayload}
    (h : ClientTables.chunkOf x = some c) : mentions c.requestId x = true := by
  obtain ⟨type, plaintext⟩ := x
  rw [ClientTables.chunkOf] at h
  split at h
  · next htype =>
    split at h
    · next chunk hdec =>
      cases h
      obtain ⟨-, -, flag, trailing, -, hlayout⟩ := decodeStreamChunk_eq_accept.mp hdec
      have htake : plaintext.take 8 = putU64 c.requestId := by
        simp only at hlayout
        rw [hlayout, List.take_left' (length_toBE 8 _), putU64_eq]
      simp only at htype
      simp [mentions, htype, htake]
    · cases h
  · cases h

theorem chunksFor_about (id : UInt64) (xs : List (FrameType × Bytes)) :
    ClientTables.chunksFor id (about id xs) = ClientTables.chunksFor id xs := by
  induction xs with
  | nil => rfl
  | cons x xs ih =>
    have hcons : ∀ ys, ClientTables.chunksFor id (x :: ys)
        = ClientTables.chunksFor id [x] ++ ClientTables.chunksFor id ys :=
      fun ys => ClientTables.chunksFor_append id [x] ys
    by_cases hm : mentions id x = true
    · have habout : about id (x :: xs) = x :: about id xs := List.filter_cons_of_pos hm
      rw [habout, hcons (about id xs), hcons xs, ih]
    · have habout : about id (x :: xs) = about id xs := List.filter_cons_of_neg hm
      have hnone : ClientTables.chunksFor id [x] = [] := by
        cases hx : ClientTables.chunkOf x with
        | none => exact ClientTables.chunksFor_of_none hx
        | some c =>
          rw [ClientTables.chunksFor_of_chunkOf hx, if_neg]
          rintro rfl
          exact hm (mentions_of_chunkOf hx)
      rw [habout, hcons xs, hnone, ih, List.nil_append]

/-- A chunk of a topic that fits in a frame is decoded to itself. -/
theorem chunkOf_chunkContent {c : StreamChunkPayload} (hendpoint : c.endpoint = [])
    (hshort : (chunkContent c).2.length ≤ kMaxFrameBytes) :
    ClientTables.chunkOf (chunkContent c) = some c := by
  have hdata : c.data.length < 2 ^ 32 := by
    simp only [chunkContent, encodeStreamChunk, putData, List.length_append] at hshort
    rw [kMaxFrameBytes] at hshort
    omega
  have hdec : decodeStreamChunk (encodeStreamChunk c) = .accept c :=
    decodeStreamChunk_eq_accept.mpr (streamChunkLayout_encodeStreamChunk c
      ⟨by rw [hendpoint]; exact Nat.zero_le _, hdata⟩)
  simp [ClientTables.chunkOf, chunkContent, hdec]

theorem chunksFor_chunkContent {id : UInt64} {chunks : List StreamChunkPayload}
    (hchunks : ∀ c ∈ chunks, c.requestId = id ∧
      ClientTables.chunkOf (chunkContent c) = some c) :
    ClientTables.chunksFor id (chunks.map chunkContent) = chunks := by
  induction chunks with
  | nil => rfl
  | cons c chunks ih =>
    obtain ⟨hid, hc⟩ := hchunks c List.mem_cons_self
    have hcons : ClientTables.chunksFor id ((c :: chunks).map chunkContent)
        = ClientTables.chunksFor id [chunkContent c] ++
          ClientTables.chunksFor id (chunks.map chunkContent) :=
      ClientTables.chunksFor_append id [chunkContent c] _
    rw [hcons, ClientTables.chunksFor_of_chunkOf hc, if_pos hid,
      ih fun c' hc' => hchunks c' (List.mem_cons_of_mem c hc')]
    rfl

/-- The chunks of a subscription carry its id and no endpoint. -/
theorem chunks_of_recorded {t : Topic} (h : t.Recorded) {s : TopicSub} (hs : s ∈ t.all) :
    ∀ c ∈ s.chunks, c.requestId = s.requestId ∧ c.endpoint = [] := by
  have hstretch : ∀ (id : UInt64) (messages : List Bytes), ∀ c ∈ chunksOf id messages,
      c.requestId = id ∧ c.endpoint = [] := by
    intro id messages c hc
    obtain ⟨i, hi, rfl⟩ := List.mem_mapIdx.mp hc
    exact ⟨rfl, rfl⟩
  intro c hc
  rcases List.mem_append.mp hs with hs | hs
  · rw [(h.live s hs).chunks] at hc
    exact hstretch _ _ c hc
  · obtain ⟨p, hp, rfl⟩ := List.mem_map.mp hs
    rcases (h.finished p hp).chunks with hchunks | hchunks
    · rw [hchunks] at hc
      exact hstretch _ _ c hc
    · rw [hchunks] at hc
      rcases List.mem_append.mp hc with hc | hc
      · exact hstretch _ _ c hc
      · rw [List.mem_singleton.mp hc]
        exact ⟨rfl, rfl⟩

/-! ### An undisturbed connection -/

/-- The two ends of an undisturbed connection. -/
structure Linked (S : Sodium) (c : ℕ) (w : Service) : Prop where
  undisturbed : w.Undisturbed c
  fed : w.hub.Fed S c
  ids : (w.clients c).Ids
  calls : (w.clients c).Calls
  short : ∀ x ∈ (w.clients c).taken, x.2.length ≤ kMaxFrameBytes

variable {S : Sodium} {cfg : HostConfig} {w w' : Service} {c : ℕ}

theorem linked_start (run : ℕ → ServerRun) (acc : ℕ → Accept) (hs : ℕ → HandshakeResult) (c : ℕ) :
    (start cfg run acc hs).Linked S c where
  undisturbed := ⟨List.prefix_refl _, List.prefix_refl _, Nat.two_pow_pos 64⟩
  fed := Hub.fed_start run acc hs c
  ids := ClientTables.ids_start
  calls := ClientTables.calls_start
  short _ hx := absurd hx List.not_mem_nil

/-- What the host has received are requests of the client. -/
theorem received_le_sent (h : w.Undisturbed c) :
    w.hub.received c <+: requestIds (w.clients c).sent := h.toHost.filterMap _

theorem nodup_received (h : w.Undisturbed c) (hids : (w.clients c).Ids) :
    (w.hub.received c).Nodup :=
  (List.nodup_append.mp hids.requests).1.sublist (received_le_sent h).sublist

/-- Nothing was read under an id that was not drawn. -/
theorem Linked.unread (h : w.Linked S c) (id : UInt64) (hid : id ∉ (w.clients c).drawn) :
    ClientTables.chunksFor id (w.clients c).taken = [] := by
  have hsent : id ∉ w.hub.received c := by
    intro hin
    refine hid (h.ids.requests_drawn id (List.mem_append_left _ ?_))
    exact (received_le_sent h.undisturbed).subset hin
  have hprefix : about id (w.clients c).taken <+: about id (w.hub.conns c).written :=
    h.undisturbed.toClient.filter _
  rw [(h.fed.unknown id hsent).1, List.prefix_nil] at hprefix
  rw [← chunksFor_about, hprefix]
  rfl

theorem host_of_step {a : Hub.Act} (hstep : w.Step S cfg (.host a) w') :
    Hub.Step S cfg w.hub a w'.hub ∧ w'.clients = w.clients := by
  obtain ⟨hub, hhub, rfl⟩ := Option.map_eq_some_iff.mp hstep
  exact ⟨hhub, rfl⟩

theorem client_of_step {c' : ℕ} {a : ClientTables.Act} (hstep : w.Step S cfg (.client c' a) w') :
    w'.hub = w.hub ∧ (w.clients c').Step a (w'.clients c') ∧
      ∀ c, c ≠ c' → w'.clients c = w.clients c := by
  obtain ⟨k, hk, rfl⟩ := Option.map_eq_some_iff.mp hstep
  refine ⟨rfl, ?_, fun c hc => Function.update_of_ne hc _ _⟩
  change (w.clients c').step a = some (Function.update w.clients c' k c')
  rw [hk, Function.update_self]

theorem Linked.step (h : w.Linked S c) {a : Act} (hstep : QuietStep S cfg c w a w') :
    w'.Linked S c := by
  obtain ⟨hstep, hquiet⟩ := hstep
  cases a with
  | host a =>
    obtain ⟨hub, hhub, rfl⟩ := Option.map_eq_some_iff.mp hstep
    exact ⟨hquiet, h.fed.step hhub (nodup_received hquiet h.ids), h.ids, h.calls, h.short⟩
  | client c' a =>
    obtain ⟨hhub, hself, hother⟩ := client_of_step hstep
    have hfed : w'.hub.Fed S c := by
      rw [hhub]
      exact h.fed
    by_cases hc : c = c'
    · subst hc
      exact ⟨hquiet, hfed, h.ids.step hself hquiet.ids,
        h.calls.step h.ids hself hquiet.ids h.unread, ClientTables.short_step hself h.short⟩
    · refine ⟨hquiet, hfed, ?_, ?_, ?_⟩
      · rw [hother c hc]
        exact h.ids
      · rw [hother c hc]
        exact h.calls
      · rw [hother c hc]
        exact h.short

/-- The chunks under the id of a subscription that were read are the first of its chunks. -/
theorem Linked.chunksFor (h : w.Linked S c) {t : ℕ} (hrec : (w.hub.topics t).Recorded)
    {s : TopicSub} (hs : s ∈ (w.hub.topics t).all) (hc : s.conn = c) :
    ClientTables.chunksFor s.requestId (w.clients c).taken
      = s.chunks.take (about s.requestId (w.clients c).taken).length := by
  have hfed := h.fed.fed t s hs hc
  have hprefix : about s.requestId (w.clients c).taken <+:
      about s.requestId (w.hub.conns c).written := h.undisturbed.toClient.filter _
  rw [hfed] at hprefix
  have htake := List.prefix_iff_eq_take.mp hprefix
  rw [← List.map_take] at htake
  rw [← chunksFor_about, htake, List.length_map]
  have hlength : (s.chunks.take (about s.requestId (w.clients c).taken).length).length
      = (about s.requestId (w.clients c).taken).length := by
    conv_rhs => rw [htake, List.length_map]
  rw [hlength]
  refine chunksFor_chunkContent fun ch hch => ?_
  obtain ⟨hid, hendpoint⟩ := chunks_of_recorded hrec hs ch (List.mem_of_mem_take hch)
  refine ⟨hid, chunkOf_chunkContent hendpoint (h.short _ ?_)⟩
  have hmem : chunkContent ch ∈ about s.requestId (w.clients c).taken := by
    rw [htake]
    exact List.mem_map_of_mem hch
  exact List.mem_of_mem_filter hmem

theorem Linked.delivered (h : w.Linked S c) {t : ℕ} (hrec : (w.hub.topics t).Recorded)
    {s : TopicSub} (hs : s ∈ (w.hub.topics t).all) (hc : s.conn = c) : w.Delivered s := by
  subst hc
  have hchunks := h.chunksFor hrec hs rfl
  have hfed := h.fed.fed t s hs rfl
  refine ⟨fun hsink => ?_, fun hsink hall => ?_, ?_, fun hin => ?_⟩
  · rw [h.calls.registered _ true hsink, hchunks]
  · rw [h.calls.registered _ true hsink, hchunks, hall, hfed, List.length_map, List.take_length]
  · obtain ⟨done, hpre, hcalls⟩ := h.calls.order s.requestId
    rw [hchunks] at hpre
    have hdone := List.prefix_iff_eq_take.mp (hpre.trans (List.take_prefix _ _))
    rw [hdone] at hcalls
    exact ⟨done.length, hcalls.imp_right And.left⟩
  · refine (h.ids.finished _ hin).imp_right (Or.imp_right fun hrest => ?_)
    refine hrest.resolve_right fun hno => hno (List.mem_append_left _ ?_)
    exact (received_le_sent h.undisturbed).subset (h.fed.mem_received (Hub.mem_allKeys hs rfl))

/-! ### Runs of the host in runs of both -/

theorem hub_of_step {a : Act} (hstep : w.Step S cfg a w') :
    w'.hub = w.hub ∨ ∃ a, Hub.Step S cfg w.hub a w'.hub := by
  cases a with
  | host a => exact Or.inr ⟨a, (host_of_step hstep).1⟩
  | client c a => exact Or.inl (client_of_step hstep).1

theorem hub_of_run {acts : List Act} (hrun : Run (Step S cfg) w acts w') :
    ∃ acts, Run (Hub.Step S cfg) w.hub acts w'.hub := by
  induction hrun with
  | nil => exact ⟨[], .nil⟩
  | snoc _ hlast ih =>
    obtain ⟨acts, hrun⟩ := ih
    rcases hub_of_step hlast with heq | ⟨a, hstep⟩
    · rw [heq]
      exact ⟨acts, hrun⟩
    · exact ⟨_, hrun.snoc hstep⟩

end Service

/-- **What becomes of the messages of a topic.** After every sequence of publishes, requests,
heartbeats, deaths of connections and closings, on any number of connections and topics,

* every subscription that a topic has or had was sent, in the one order in which they were
  published, exactly the messages from when it was added to when it ended, numbered from 0 modulo
  `2 ^ 32`, and at most an end marker after them;
* what has been published stays, a subscription that has ended is sent nothing more, and none is
  lost;
* a publish returns the number of subscriptions whose chunk it has written, and those are the
  subscribers that are left;
* the client of a connection that has been undisturbed has called the callback of each subscription
  for its chunks, in their order, until it was unsubscribed or closed. -/
theorem topic_delivery (S : Sodium) (cfg : HostConfig) (run : ℕ → ServerRun) (acc : ℕ → Accept)
    (hs : ℕ → HandshakeResult) {acts : List Service.Act} {w : Service}
    (hrun : Run (Service.Step S cfg) (.start cfg run acc hs) acts w) :
    (∀ t, (w.hub.topics t).Recorded) ∧
    (∀ acts' w', Run (Service.Step S cfg) w acts' w' → ∀ t,
      (w.hub.topics t).published <+: (w'.hub.topics t).published ∧
        (w.hub.topics t).ended <+: (w'.hub.topics t).ended) ∧
    (∀ a w', w.Step S cfg a w' → ∀ t,
      ((w'.hub.topics t).all.map TopicSub.ticket).Perm
          ((w.hub.topics t).all.map TopicSub.ticket) ∨
        ∃ c requestId, w'.hub.topics t = (w.hub.topics t).add c requestId) ∧
    (∀ t message ok w', w.Step S cfg (.host (.publish t message ok)) w' →
      Hub.Published S w.hub t message ok w'.hub) ∧
    (∀ c, Run (Service.QuietStep S cfg c) (.start cfg run acc hs) acts w → ∀ t,
      ∀ s ∈ (w.hub.topics t).all, s.conn = c → w.Delivered s) := by
  obtain ⟨hubActs, hhub⟩ := Service.hub_of_run hrun
  refine ⟨fun t => Hub.recorded_of_run hhub t, ?_, ?_, ?_, ?_⟩
  · intro acts' w' hrun' t
    obtain ⟨hubActs', hhub'⟩ := Service.hub_of_run hrun'
    exact Hub.prefix_of_run hhub' t
  · intro a w' hstep t
    rcases Service.hub_of_step hstep with heq | ⟨a, hhubStep⟩
    · rw [heq]
      exact Or.inl (List.Perm.refl _)
    · exact Topic.tickets_changes (Hub.changes_of_step hhubStep t)
  · intro t message ok w' hstep
    exact Hub.published_of_step (Hub.synced_of_run hhub) (Service.host_of_step hstep).1
  · intro c hquiet t s hmem hc
    have hlinked : w.Linked S c :=
      hquiet.preserves (Service.linked_start run acc hs c) fun _ _ _ h hstep => h.step hstep
    exact hlinked.delivered (Hub.recorded_of_run hhub t) hmem hc

/-! ### A subscription from beginning to end -/

namespace OneSubscriber

open SameRequestId (sodium config serverRun accept result env request)

def service : Service := .start config (fun _ => serverRun) (fun _ => accept) fun _ => result

def subscription : CallKind × RequestPayload :=
  (.subscribe, { requestId := 1, oneway := false, endpoint := [116] })

/-- The client subscribes, a message is published, and the topic is closed. -/
def acts : List Service.Act :=
  [.host (.accept 0), .client 0 (.subscribe [116]), .client 0 (.transmit subscription true),
    .host (.frame 0 (request 0 subscription.2) env), .host (.publish 0 [9] fun _ => true),
    .client 0 (.read .streamChunk (encodeStreamChunk { requestId := 1, data := [9] })),
    .host (.closeAll 0 fun _ => true),
    .client 0 (.read .streamChunk (encodeStreamChunk { requestId := 1, seq := 1, isLast := true }))]

instance (w : Service) (c : ℕ) : Decidable (w.Undisturbed c) :=
  decidable_of_iff (w.opened c <+: (w.clients c).sent ∧
      (w.clients c).taken <+: (w.hub.conns c).written ∧ (w.clients c).drawn.length < 2 ^ 64)
    ⟨fun h => ⟨h.1, h.2.1, h.2.2⟩, fun h => ⟨h.toHost, h.toClient, h.ids⟩⟩

def quietStep (w : Service) (a : Service.Act) : Option Service :=
  (w.step sodium config a).filter fun w' => w'.Undisturbed 0

theorem quietStep_of_fun {w w' : Service} {a : Service.Act} (h : OfFun quietStep w a w') :
    Service.QuietStep sodium config 0 w a w' := by
  obtain ⟨hstep, hquiet⟩ := Option.filter_eq_some_iff.mp h
  exact ⟨hstep, of_decide_eq_true hquiet⟩

def serviceEnd : Option Service := exec quietStep service acts

theorem serviceEnd_isSome : serviceEnd.isSome = true := by decide +kernel

theorem quiet_run : Run (Service.QuietStep sodium config 0) service acts
    (serviceEnd.get serviceEnd_isSome) :=
  Run.mono (fun _ _ _ h => quietStep_of_fun h)
    (run_of_exec (Option.some_get serviceEnd_isSome).symm)

theorem service_run : Run (Service.Step sodium config) service acts
    (serviceEnd.get serviceEnd_isSome) :=
  quiet_run.mono fun _ _ _ h => h.1

end OneSubscriber

open OneSubscriber in
theorem topic_delivery_closed :
    ((serviceEnd.get serviceEnd_isSome).clients 0).callbacks 1 = [([9], false), ([], true)] ∧
    (∀ t, ((serviceEnd.get serviceEnd_isSome).hub.topics t).Recorded) ∧
    ∀ s ∈ ((serviceEnd.get serviceEnd_isSome).hub.topics 0).all, s.conn = 0 →
      (serviceEnd.get serviceEnd_isSome).Delivered s := by
  have hdelivery := topic_delivery SameRequestId.sodium SameRequestId.config
    (fun _ => SameRequestId.serverRun) (fun _ => SameRequestId.accept)
    (fun _ => SameRequestId.result) service_run
  exact ⟨by decide +kernel, hdelivery.1, hdelivery.2.2.2.2 0 quiet_run 0⟩

/-! ### More messages than sequence numbers -/

namespace ManyMessages

open SameRequestId (sodium config)

/-- The service after its only subscription. -/
def subscribedActs : List Service.Act := OneSubscriber.acts.take 4

def subscribed : Option Service :=
  exec (Service.step sodium config) OneSubscriber.service subscribedActs

theorem subscribed_isSome : subscribed.isSome = true := by decide +kernel

theorem subscribed_run : Run (Service.Step sodium config) OneSubscriber.service subscribedActs
    (subscribed.get subscribed_isSome) :=
  run_of_exec (Option.some_get subscribed_isSome).symm

/-- The only subscriber of topic 0 is on a connection that is alive. -/
def OneAlive (w : Service) (s : TopicSub) : Prop :=
  (w.hub.topics 0).subs = [s] ∧ (w.hub.conns s.conn).conn.alive = true

theorem publish_oneAlive {w : Service} {s : TopicSub} (h : OneAlive w s) (message : Bytes) :
    ∃ w', w.Step sodium config (.host (.publish 0 message fun _ => true)) w' ∧
      OneAlive w' (s.sent false message) := by
  obtain ⟨hsubs, halive⟩ := h
  refine ⟨_, rfl, ?_, ?_⟩
  · change (Function.update w.hub.topics 0 _ 0).subs = _
    rw [Function.update_self]
    change (sweep (sendMessage sodium message) (w.hub.topics 0).subs _ w.hub.conns).kept = _
    rw [hsubs]
    simp [sweep, sendMessage, sendChunk, halive, TopicSub.sent]
  · change ((sweep (sendMessage sodium message) (w.hub.topics 0).subs _ w.hub.conns).conns
      s.conn).conn.alive = true
    rw [hsubs]
    simp [sweep, sendMessage, sendChunk, halive, LoopState.sendSealed, HostConn.sendSealed]

theorem run_publishes (n : ℕ) : ∃ acts w s,
    Run (Service.Step sodium config) OneSubscriber.service acts w ∧ OneAlive w s ∧
      s.chunks.length = n := by
  induction n with
  | zero =>
    refine ⟨subscribedActs, subscribed.get subscribed_isSome, { conn := 0, requestId := 1 },
      subscribed_run, ⟨?_, ?_⟩, rfl⟩
    · decide +kernel
    · decide +kernel
  | succ n ih =>
    obtain ⟨acts, w, s, hrun, halive, hlen⟩ := ih
    obtain ⟨w', hstep, halive'⟩ := publish_oneAlive halive []
    refine ⟨_, w', s.sent false [], hrun.snoc hstep, halive', ?_⟩
    rw [TopicSub.sent, List.length_append, hlen, List.length_singleton]

end ManyMessages

/-- After `2 ^ 32 + 1` messages a subscription has two chunks with sequence number 0. -/
theorem sequence_numbers_repeat :
    ¬ ∀ (S : Sodium) (cfg : HostConfig) (run : ℕ → ServerRun) (acc : ℕ → Accept)
        (hs : ℕ → HandshakeResult) (acts : List Service.Act) (w : Service),
      Run (Service.Step S cfg) (.start cfg run acc hs) acts w →
      ∀ t, ∀ s ∈ (w.hub.topics t).subs, (s.chunks.map StreamChunkPayload.seq).Nodup := by
  intro hclaim
  obtain ⟨acts, w, s, hrun, ⟨hsubs, -⟩, hlen⟩ := ManyMessages.run_publishes (2 ^ 32 + 1)
  have hmem : s ∈ (w.hub.topics 0).subs := by
    rw [hsubs]
    exact List.mem_singleton_self s
  have hnodup := hclaim _ _ _ _ _ acts w hrun 0 s hmem
  obtain ⟨hubActs, hhub⟩ := Service.hub_of_run hrun
  have hlive := (Hub.recorded_of_run hhub 0).live s hmem
  have hseq : ∀ i, i < s.chunks.length →
      (s.chunks.map StreamChunkPayload.seq)[i]? = some (UInt32.ofNat i) := by
    intro i hi
    rw [hlive.chunks, chunksOf, List.length_mapIdx] at hi
    rw [hlive.chunks, chunksOf, List.getElem?_map, List.getElem?_mapIdx,
      List.getElem?_eq_getElem hi]
    rfl
  have hzero : 0 = 2 ^ 32 := by
    refine (List.getElem?_inj ?_ hnodup).mp ?_
    · rw [List.length_map, hlen]
      omega
    · rw [hseq 0 (by omega), hseq (2 ^ 32) (by omega)]
      rfl
  omega

end Epx
