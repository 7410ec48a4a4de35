import Epx.TopicHistory
import Epx.HostContents

/-!
# What a connection has been sent about a subscription

Chunks are told apart by the request id they start with, and ids are chosen by the peer. When a peer
has not used a request id twice, everything that its connection has been sent about an id is due to
one request; and if that request has made a subscription, it is the chunks of the subscription in
their order, and nothing else.

## Main definitions

* `Emits` — what a write to a subscriber puts on its connection
* `Hub.Fed` — what the connection of a peer has been sent about the subscriptions of the peer

## Main results

* `writes_sweep` — what a sweep puts on each connection
* `Hub.Fed.step`
-/

namespace Epx

open Codec Transition LoopState

/-- What a chunk is on its connection. -/
def chunkContent (c : StreamChunkPayload) : FrameType × Bytes := (.streamChunk, encodeStreamChunk c)

/-- The last chunk of a subscription. -/
def TopicSub.lastContent (s : TopicSub) : List (FrameType × Bytes) :=
  s.chunks.getLast?.toList.map chunkContent

/-! ### Sweeps -/

/-- When a write to a subscriber succeeds, what `emit` has for the subscription afterwards is put on
its connection, and nothing otherwise. It belongs to the chunks of the subscription and is about its
request id. -/
structure Emits (S : Sodium) (send : TopicSub → LoopState → Bool → Attempt)
    (g : TopicSub → TopicSub) (emit : TopicSub → List (FrameType × Bytes)) : Prop
    extends Sends send g where
  writes : ∀ s st b,
    Writes S st (send s st b).st (if (send s st b).wrote then emit (g s) else [])
  ticket_eq : ∀ s, (g s).ticket = s.ticket
  chunks : ∀ s, (g s).chunks.map chunkContent = s.chunks.map chunkContent ++ emit (g s)
  mentions : ∀ s, ∀ x ∈ emit (g s), ∀ id, mentions id x = true ↔ id = (g s).requestId

section

variable {S : Sodium}

theorem lastContent_sent (isLast : Bool) (data : Bytes) (s : TopicSub) :
    (s.sent isLast data).lastContent = [chunkContent (s.chunk isLast data)] := by
  simp [TopicSub.lastContent, TopicSub.sent]

theorem emits_chunk (isLast : Bool) (data : Bytes) :
    Emits S (sendChunk S isLast data) (TopicSub.sent isLast data) TopicSub.lastContent where
  toSends := sends_chunk isLast data
  writes s st b := by
    rw [lastContent_sent]
    exact writes_sendSealed (by decide) _ b
  ticket_eq _ := rfl
  chunks s := by
    rw [lastContent_sent]
    exact List.map_append
  mentions s x hx id := by
    rw [lastContent_sent, List.mem_singleton] at hx
    rw [hx]
    exact mentions_streamChunk _ id

theorem emits_message (message : Bytes) :
    Emits S (sendMessage S message) (TopicSub.sent false message) TopicSub.lastContent where
  toSends := sends_message message
  writes s st b := by
    rw [sendMessage]
    split
    · exact (emits_chunk false message).writes s st b
    · exact writes_same st
  ticket_eq _ := rfl
  chunks := (emits_chunk (S := S) false message).chunks
  mentions := (emits_chunk (S := S) false message).mentions

theorem emits_heartbeat : Emits S sendHeartbeat id fun _ => [] where
  toSends := sends_heartbeat
  writes s st b := by
    have hquiet : Writes S st (st.sendPing b) [] := by
      rw [LoopState.sendPing, HostConn.sendPing]
      split
      · exact .quiet rfl rfl rfl (by simp [sealedOut]) fun h => h
      · next halive =>
        refine .quiet rfl rfl rfl ?_ fun _ => by simpa using halive
        cases b <;> simp [sealedOut, pingFrame, isCleartext]
    simpa [sendHeartbeat] using hquiet
  ticket_eq _ := rfl
  chunks s := (List.append_nil _).symm
  mentions _ _ hx := absurd hx List.not_mem_nil

variable {send : TopicSub → LoopState → Bool → Attempt} {g : TopicSub → TopicSub}
  {emit : TopicSub → List (FrameType × Bytes)}

/-- **What a sweep puts on each connection**: what it emits for the subscribers of that connection
that it keeps, in their order. -/
theorem writes_sweep (h : Emits S send g emit) (subs : List TopicSub) (ok : ℕ → Bool)
    (conns : ℕ → LoopState) (c : ℕ) :
    Writes S (conns c) ((sweep send subs ok conns).conns c)
      (((sweep send subs ok conns).kept.filter fun s => s.conn = c).flatMap emit) := by
  induction subs generalizing ok conns with
  | nil => exact writes_same _
  | cons s subs ih =>
    have hfirst : Writes S (conns c)
        (Function.update conns s.conn (send s (conns s.conn) (ok 0)).st c)
        (if s.conn = c ∧ (send s (conns s.conn) (ok 0)).wrote then emit (g s) else []) := by
      by_cases hc : s.conn = c
      · subst hc
        rw [Function.update_self]
        simpa using h.writes s (conns s.conn) (ok 0)
      · rw [Function.update_of_ne (Ne.symm hc), if_neg fun hboth => hc hboth.1]
        exact writes_same _
    have hboth := hfirst.trans (ih (fun i => ok (i + 1))
      (Function.update conns s.conn (send s (conns s.conn) (ok 0)).st))
    unfold sweep
    simp only
    split
    · next hwrote =>
      have hconn : (g s).conn = s.conn := congrArg (fun t => t.1.1) (h.ticket_eq s)
      rw [h.wrote _ _ _ hwrote]
      by_cases hc : s.conn = c
      · rw [if_pos ⟨hc, hwrote⟩] at hboth
        rwa [List.filter_cons_of_pos (by simpa [hconn] using hc), List.flatMap_cons]
      · rw [if_neg fun h => hc h.1, List.nil_append] at hboth
        rwa [List.filter_cons_of_neg (by simpa [hconn] using hc)]
    · next hwrote =>
      rw [if_neg fun h => hwrote h.2, List.nil_append] at hboth
      exact hboth

/-- Of what is emitted for the subscribers of a connection, that about one request id. -/
theorem about_emit {l : List TopicSub}
    (hl : ∀ s ∈ l, ∀ x ∈ emit s, ∀ id, mentions id x = true ↔ id = s.requestId) (c : ℕ)
    (id : UInt64) :
    about id ((l.filter fun s => s.conn = c).flatMap emit)
      = (l.filter fun s => s.key = (c, id)).flatMap emit := by
  induction l with
  | nil => rfl
  | cons s l ih =>
    have ih := ih fun s' hs' => hl s' (List.mem_cons_of_mem s hs')
    have hs := hl s List.mem_cons_self
    by_cases hc : s.conn = c
    · rw [List.filter_cons_of_pos (by simpa using hc), List.flatMap_cons, about_append, ih]
      by_cases hid : s.requestId = id
      · have hall : about id (emit s) = emit s :=
          List.filter_eq_self.mpr fun x hx => (hs x hx id).mpr hid.symm
        rw [hall, List.filter_cons_of_pos (by simp [TopicSub.key, hc, hid]), List.flatMap_cons]
      · have hnone : about id (emit s) = [] :=
          List.filter_eq_nil_iff.mpr fun x hx hm => hid ((hs x hx id).mp hm).symm
        rw [hnone, List.nil_append, List.filter_cons_of_neg (by simp [TopicSub.key, hid])]
    · rw [List.filter_cons_of_neg (by simpa using hc),
        List.filter_cons_of_neg (by simp [TopicSub.key, hc]), ih]

end

/-! ### What a connection is fed -/

section

variable {α : Type} {p : α → Bool} {l l' : List α} {x : α}

theorem filter_eq_singleton (hle : (l.filter p).length ≤ 1) (hx : x ∈ l) (hp : p x = true) :
    l.filter p = [x] := by
  have hmem : x ∈ l.filter p := List.mem_filter.mpr ⟨hx, hp⟩
  obtain ⟨y, hy⟩ := List.length_eq_one_iff.mp (Nat.le_antisymm hle (List.length_pos_of_mem hmem))
  rw [hy, List.mem_singleton] at hmem
  rw [hy, hmem]

theorem filter_eq_nil_of_right (hle : ((l ++ l').filter p).length ≤ 1) (hx : x ∈ l')
    (hp : p x = true) : l.filter p = [] := by
  have hpos := List.length_pos_of_mem (List.mem_filter.mpr ⟨hx, hp⟩)
  rw [List.filter_append, List.length_append] at hle
  exact List.length_eq_zero_iff.mp (by omega)

end

/-- What the subscriptions that a topic has ever had are found by. -/
def Topic.allKeys (t : Topic) : List (ℕ × UInt64) := t.all.map TopicSub.key

namespace Hub

/-- The ids of the requests that a connection has received. -/
def received (h : Hub) (c : ℕ) : List UInt64 :=
  requestIds ((h.conns c).conn.opened.map Opened.content)

/-- What a connection has been sent about the id of a subscription is its chunks. The id of a
request that was not received is in use nowhere, and no id is in use twice. -/
structure Fed (S : Sodium) (c : ℕ) (h : Hub) : Prop where
  synced : (h.conns c).Synced S
  unknown : ∀ id, id ∉ h.received c →
    about id (h.conns c).written = [] ∧ ∀ t, (c, id) ∉ (h.topics t).allKeys
  once : ∀ t id, (h.topics t).allKeys.count (c, id) ≤ 1
  single : ∀ t t' id, (c, id) ∈ (h.topics t).allKeys → (c, id) ∈ (h.topics t').allKeys → t = t'
  fed : ∀ t, ∀ s ∈ (h.topics t).all, s.conn = c →
    about s.requestId (h.conns c).written = s.chunks.map chunkContent

variable {S : Sodium} {cfg : HostConfig} {h h' : Hub} {c : ℕ}

theorem fed_start (run : ℕ → ServerRun) (acc : ℕ → Accept) (hs : ℕ → HandshakeResult) (c : ℕ) :
    Fed S c (start cfg run acc hs) where
  synced := ⟨rfl, fun _ => rfl⟩
  unknown _ _ := ⟨rfl, fun _ => List.not_mem_nil⟩
  once _ _ := Nat.zero_le 1
  single _ _ _ hmem := absurd hmem List.not_mem_nil
  fed _ _ hmem := absurd hmem List.not_mem_nil

theorem mem_allKeys {t : Topic} {s : TopicSub} (hs : s ∈ t.all) (hc : s.conn = c) :
    (c, s.requestId) ∈ t.allKeys :=
  List.mem_map.mpr ⟨s, hs, by rw [TopicSub.key, hc]⟩

theorem Fed.mem_received (hfed : Fed S c h) {t : ℕ} {id : UInt64}
    (hmem : (c, id) ∈ (h.topics t).allKeys) : id ∈ h.received c := by
  by_contra hno
  exact (hfed.unknown id hno).2 t hmem

/-- Nothing happens to the connection, and its subscriptions stay as they are. -/
theorem Fed.mono (hfed : Fed S c h) (hreceived : h'.received c = h.received c)
    (hsynced : (h'.conns c).Synced S) (hwritten : (h'.conns c).written = (h.conns c).written)
    (hkeys : ∀ t id, (h'.topics t).allKeys.count (c, id) = (h.topics t).allKeys.count (c, id))
    (hmem : ∀ t, ∀ s ∈ (h'.topics t).all, s.conn = c → s ∈ (h.topics t).all) : Fed S c h' := by
  have hiff : ∀ t id, (c, id) ∈ (h'.topics t).allKeys ↔ (c, id) ∈ (h.topics t).allKeys := by
    intro t id
    rw [← List.count_pos_iff, hkeys, List.count_pos_iff]
  refine ⟨hsynced, fun id hid => ?_, fun t id => ?_, fun t t' id ht ht' => ?_, fun t s hs hc => ?_⟩
  · rw [hreceived] at hid
    rw [hwritten]
    exact ⟨(hfed.unknown id hid).1, fun t ht => (hfed.unknown id hid).2 t ((hiff t id).mp ht)⟩
  · rw [hkeys]
    exact hfed.once t id
  · exact hfed.single t t' id ((hiff t id).mp ht) ((hiff t' id).mp ht')
  · rw [hwritten]
    exact hfed.fed t s (hmem t s hs hc) hc

theorem Fed.of_perm (hfed : Fed S c h) (hreceived : h'.received c = h.received c)
    (hsynced : (h'.conns c).Synced S) (hwritten : (h'.conns c).written = (h.conns c).written)
    (hall : ∀ t, (h'.topics t).all.Perm (h.topics t).all) : Fed S c h' :=
  hfed.mono hreceived hsynced hwritten (fun t id => ((hall t).map _).count_eq (c, id))
    fun t _ hs _ => (hall t).mem_iff.mp hs

theorem received_congr (hconns : h'.conns c = h.conns c) : h'.received c = h.received c := by
  unfold received
  rw [hconns]

theorem received_exchange {st : LoopState} {ids : List UInt64}
    {contents : List (FrameType × Bytes)} (hex : Exchange S (h.conns c) st ids contents)
    (hconns : h'.conns c = st) : h'.received c = h.received c ++ ids := by
  rw [received]
  rw [hconns]
  exact hex.received

/-- A pass of the connection, without what it does to the topics. -/
theorem Fed.exchange (hfed : Fed S c h) {st : LoopState} {ids : List UInt64}
    {contents : List (FrameType × Bytes)} (hex : Exchange S (h.conns c) st ids contents)
    (hconns : h'.conns c = st) (htopics : h'.topics = h.topics)
    (hnodup : (h'.received c).Nodup) : Fed S c h' := by
  have hreceived := received_exchange hex hconns
  rw [hreceived] at hnodup
  have hdisj : ∀ {id}, id ∈ h.received c → id ∉ ids :=
    fun hr hi => (List.nodup_append.mp hnodup).2.2 _ hr _ hi rfl
  have hwritten := hex.written hfed.synced
  rw [← hconns] at hwritten
  refine ⟨?_, fun id hid => ?_, ?_, ?_, fun t s hs hc => ?_⟩
  · rw [hconns]
    exact hex.synced hfed.synced
  · rw [hreceived, List.mem_append, not_or] at hid
    rw [hwritten, htopics, about_append, hex.others id hid.2, List.append_nil]
    exact hfed.unknown id hid.1
  · rw [htopics]
    exact hfed.once
  · rw [htopics]
    exact hfed.single
  · rw [htopics] at hs
    have hr := hfed.mem_received (mem_allKeys hs hc)
    rw [hwritten, about_append, hex.others _ (hdisj hr), List.append_nil]
    exact hfed.fed t s hs hc

/-- The connection subscribes with an id that is not in use. -/
theorem Fed.subscribe (hfed : Fed S c h) (topic : ℕ) (requestId : UInt64)
    (hreceived : requestId ∈ h.received c) (hfree : ∀ t, (c, requestId) ∉ (h.topics t).allKeys)
    (habout : about requestId (h.conns c).written = []) (hconns : h'.conns c = h.conns c)
    (htopic : h'.topics topic = (h.topics topic).add c requestId)
    (htopics : ∀ t, t ≠ topic → h'.topics t = h.topics t) : Fed S c h' := by
  have hall := Topic.all_add (t := h.topics topic) c requestId
  rw [← htopic] at hall
  have hkeys := hall.map TopicSub.key
  rw [List.map_cons] at hkeys
  have hmem : ∀ t id, (c, id) ∈ (h'.topics t).allKeys →
      (c, id) ∈ (h.topics t).allKeys ∨ t = topic ∧ id = requestId := by
    intro t id hin
    by_cases ht : t = topic
    · subst ht
      rcases List.mem_cons.mp (hkeys.mem_iff.mp hin) with heq | hin
      · exact Or.inr ⟨rfl, congrArg Prod.snd heq⟩
      · exact Or.inl hin
    · rw [htopics t ht] at hin
      exact Or.inl hin
  have hreceived' := received_congr hconns
  refine ⟨?_, fun id hid => ⟨?_, fun t hin => ?_⟩, fun t id => ?_, fun t t' id ht ht' => ?_,
    fun t s hs hc => ?_⟩
  · rw [hconns]
    exact hfed.synced
  · rw [hreceived'] at hid
    rw [hconns]
    exact (hfed.unknown id hid).1
  · rw [hreceived'] at hid
    rcases hmem t id hin with hin | ⟨-, rfl⟩
    · exact (hfed.unknown id hid).2 t hin
    · exact hid hreceived
  · by_cases ht : t = topic
    · subst ht
      rw [Topic.allKeys, hkeys.count_eq]
      by_cases hid : id = requestId
      · subst hid
        have hzero : (h.topics t).allKeys.count (c, id) = 0 := List.count_eq_zero.mpr (hfree t)
        rw [TopicSub.key, List.count_cons_self]
        exact Nat.le_of_eq (congrArg (· + 1) hzero)
      · rw [List.count_cons_of_ne (by simpa [TopicSub.key] using Ne.symm hid)]
        exact hfed.once t id
    · rw [htopics t ht]
      exact hfed.once t id
  · by_cases hid : id = requestId
    · subst hid
      rcases hmem t id ht with ht | ⟨rfl, -⟩
      · exact absurd ht (hfree t)
      rcases hmem t' id ht' with ht' | ⟨rfl, -⟩
      · exact absurd ht' (hfree t')
      · rfl
    · exact hfed.single t t' id ((hmem t id ht).resolve_right fun h => hid h.2)
        ((hmem t' id ht').resolve_right fun h => hid h.2)
  · rw [hconns]
    by_cases ht : t = topic
    · subst ht
      rcases List.mem_cons.mp (hall.mem_iff.mp hs) with rfl | hs
      · exact habout
      · exact hfed.fed t s hs hc
    · rw [htopics t ht] at hs
      exact hfed.fed t s hs hc

theorem all_update {topic : ℕ} {t' : Topic} (hall : t'.all.Perm (h.topics topic).all) (t : ℕ) :
    (Function.update h.topics topic t' t).all.Perm (h.topics t).all := by
  rw [Function.update_apply]
  split
  · next heq => rwa [heq]
  · exact List.Perm.refl _

/-- A frame of the connection is handled. -/
theorem Fed.frame (hfed : Fed S c h) {f : RawFrame} {env : Pass} {o : Outcome}
    (hpass : pass S cfg env (h.conns c) f = .ok o) (hnodup : ((h.handled c o).received c).Nodup) :
    Fed S c (h.handled c o) := by
  obtain ⟨ids, contents, hex⟩ := exchange_pass hpass
  have hconns : (h.handled c o).conns c = o.state := Function.update_self _ _ _
  have hfed₁ : Fed S c { h with conns := (h.handled c o).conns } :=
    hfed.exchange hex hconns rfl hnodup
  have heff := effect_of_frame hpass
  generalize htopics : (h.handled c o).topics = topics at heff
  generalize hcalls : o.state.calls.drop (h.conns c).calls.length = calls at heff
  generalize o.state.mySubs = subs at heff
  cases heff with
  | idle =>
    refine hfed₁.of_perm rfl hfed₁.synced rfl fun t => ?_
    rw [htopics]
  | unsubscribed _ =>
    refine hfed₁.of_perm rfl hfed₁.synced rfl fun t => ?_
    rw [htopics]
    exact all_update (Topic.all_remove _ _) t
  | @subscribed endpoint topic requestId _ =>
    obtain ⟨hid, rfl⟩ := hex.subscribed endpoint topic requestId (by rw [hcalls]; simp)
    have hreceived := received_exchange hex hconns
    have hnew : requestId ∉ h.received c := by
      rw [hreceived] at hnodup
      exact fun hr => (List.nodup_append.mp hnodup).2.2 _ hr _ hid rfl
    refine hfed₁.subscribe topic requestId ?_ (hfed.unknown _ hnew).2 ?_ rfl ?_ fun t ht => ?_
    · change requestId ∈ (h.handled c o).received c
      rw [hreceived]
      exact List.mem_append_right _ hid
    · change about requestId ((h.handled c o).conns c).written = []
      rw [hconns, hex.written hfed.synced, List.append_nil]
      exact (hfed.unknown _ hnew).1
    · rw [htopics, Function.update_self]
    · rw [htopics, Function.update_of_ne ht]

/-- A frame of another connection is handled. -/
theorem Fed.frame_other (hfed : Fed S c h) {c' : ℕ} (hne : c ≠ c') {f : RawFrame} {env : Pass}
    {o : Outcome} (hpass : pass S cfg env (h.conns c') f = .ok o) : Fed S c (h.handled c' o) := by
  have hconns : (h.handled c' o).conns c = h.conns c := Function.update_of_ne hne _ _
  have hsynced : ((h.handled c' o).conns c).Synced S := by
    rw [hconns]
    exact hfed.synced
  have hwritten : ((h.handled c' o).conns c).written = (h.conns c).written := by rw [hconns]
  have heff := effect_of_frame hpass
  generalize htopics : (h.handled c' o).topics = topics at heff
  generalize o.state.calls.drop (h.conns c').calls.length = calls at heff
  generalize o.state.mySubs = subs at heff
  cases heff with
  | idle =>
    refine hfed.of_perm (received_congr hconns) hsynced hwritten fun t => ?_
    rw [htopics]
  | unsubscribed _ =>
    refine hfed.of_perm (received_congr hconns) hsynced hwritten fun t => ?_
    rw [htopics]
    exact all_update (Topic.all_remove _ _) t
  | @subscribed endpoint topic requestId _ =>
    have hall := Topic.all_add (t := h.topics topic) c' requestId
    refine hfed.mono (received_congr hconns) hsynced hwritten (fun t id => ?_) fun t s hs hc => ?_
    · rw [htopics, Function.update_apply]
      split
      · next heq =>
        rw [heq, Topic.allKeys, (hall.map _).count_eq, List.map_cons,
          List.count_cons_of_ne (by simpa [TopicSub.key] using fun h => absurd h.symm hne)]
        rfl
      · rfl
    · rw [htopics, Function.update_apply] at hs
      split at hs
      · next heq =>
        rw [heq]
        rcases List.mem_cons.mp (hall.mem_iff.mp hs) with rfl | hs
        · exact absurd hc.symm hne
        · exact hs
      · exact hs

theorem count_allKeys (t : Topic) (c : ℕ) (id : UInt64) :
    t.allKeys.count (c, id) = (t.all.filter fun s => s.key = (c, id)).length := by
  rw [Topic.allKeys, List.count_eq_countP, List.countP_map, List.countP_eq_length_filter]
  congr 2
  funext s
  exact beq_eq_decide _ _

section

variable {send : TopicSub → LoopState → Bool → Attempt} {g : TopicSub → TopicSub}
  {emit : TopicSub → List (FrameType × Bytes)} {topic : ℕ} {t' : Topic} {ok : ℕ → Bool} {w : Sweep}

theorem exists_of_kept (hemit : Emits S send g emit)
    (hw : Epx.sweep send (h.topics topic).subs ok h.conns = w) {s : TopicSub} (hs : s ∈ w.kept) :
    ∃ s₀ ∈ (h.topics topic).subs, s = g s₀ := by
  rw [← hw] at hs
  have hmem := (kept_sublist hemit.toSends (h.topics topic).subs ok h.conns).subset hs
  obtain ⟨s₀, hs₀, heq⟩ := List.mem_map.mp hmem
  exact ⟨s₀, hs₀, heq.symm⟩

/-- What a connection has been sent about an id grows by what is emitted under that id. -/
theorem Fed.about_sweep (hfed : Fed S c h) (hemit : Emits S send g emit)
    (hw : Epx.sweep send (h.topics topic).subs ok h.conns = w) (id : UInt64) :
    about id (w.conns c).written = about id (h.conns c).written ++
      (w.kept.filter fun s => s.key = (c, id)).flatMap emit := by
  have hwrites := writes_sweep hemit (h.topics topic).subs ok h.conns c
  rw [hw] at hwrites
  rw [hwrites.written hfed.synced, about_append, about_emit]
  intro s hs x hx
  obtain ⟨s₀, -, rfl⟩ := exists_of_kept hemit hw hs
  exact hemit.mentions s₀ x hx

/-- A sweep brings no new ids. -/
theorem count_allKeys_sweep (htame : Tame send)
    (hw : Epx.sweep send (h.topics topic).subs ok h.conns = w)
    (hall : t'.all.Perm (w.kept ++ w.erased ++ (h.topics topic).ended.map Prod.fst)) (t : ℕ)
    (k : ℕ × UInt64) :
    (Function.update h.topics topic t' t).allKeys.count k = (h.topics t).allKeys.count k := by
  rw [Function.update_apply]
  split
  · next heq =>
    have htickets := Topic.tickets_sweep htame ok (by rw [hw]; exact hall)
    have hperm := htickets.map Prod.fst
    rw [List.map_map, List.map_map] at hperm
    rw [heq]
    exact hperm.count_eq k
  · rfl

/-- The chunks of a subscription that the swept topic has or had. -/
theorem Fed.fed_swept (hfed : Fed S c h) (hemit : Emits S send g emit)
    (hw : Epx.sweep send (h.topics topic).subs ok h.conns = w) {s : TopicSub} (hc : s.conn = c)
    (hs : s ∈ w.kept ++ (w.erased ++ (h.topics topic).ended.map Prod.fst))
    (honce : ((w.kept ++ (w.erased ++ (h.topics topic).ended.map Prod.fst)).filter fun s' =>
      s'.key = (c, s.requestId)).length ≤ 1) :
    about s.requestId (w.conns c).written = s.chunks.map chunkContent := by
  have hkey : s.key = (c, s.requestId) := by rw [TopicSub.key, hc]
  have hold : ∀ s₀ ∈ (h.topics topic).subs, s₀.key = s.key →
      about s.requestId (h.conns c).written = s₀.chunks.map chunkContent := by
    intro s₀ hs₀ hkey₀
    have hid : s₀.requestId = s.requestId := congrArg Prod.snd hkey₀
    rw [← hid]
    exact hfed.fed topic s₀ (List.mem_append_left _ hs₀) ((congrArg Prod.fst hkey₀).trans hc)
  rw [hfed.about_sweep hemit hw]
  rcases List.mem_append.mp hs with hin | hin
  · -- the subscription is kept, and nothing else is emitted under its id
    have hone : (w.kept.filter fun s' => s'.key = (c, s.requestId)) = [s] := by
      refine filter_eq_singleton (Nat.le_trans ?_ honce) hin (decide_eq_true hkey)
      rw [List.filter_append, List.length_append]
      exact Nat.le_add_right _ _
    obtain ⟨s₀, hs₀, rfl⟩ := exists_of_kept hemit hw hin
    rw [hone, hold s₀ hs₀ (congrArg Prod.fst (hemit.ticket_eq s₀)).symm, hemit.chunks s₀,
      List.flatMap_cons, List.flatMap_nil, List.append_nil]
  · -- the subscription has ended, and nothing is emitted under its id
    rw [filter_eq_nil_of_right honce hin (decide_eq_true hkey), List.flatMap_nil, List.append_nil]
    rcases List.mem_append.mp hin with herased | hended
    · rw [← hw] at herased
      obtain ⟨s₀, hs₀, st, b, rfl, hwrote⟩ := exists_of_mem_erased herased
      rw [hold s₀ hs₀ (hemit.toTame.key s₀ st b).symm, hemit.lost s₀ st b hwrote]
    · exact hfed.fed topic s (List.mem_append_right _ hended) hc

/-- A sweep over the subscribers of a topic. -/
theorem Fed.sweep (hfed : Fed S c h) (hemit : Emits S send g emit)
    (hw : Epx.sweep send (h.topics topic).subs ok h.conns = w)
    (hall : t'.all.Perm (w.kept ++ w.erased ++ (h.topics topic).ended.map Prod.fst)) :
    Fed S c (h.setTopic topic t' w.conns) := by
  have hkeys := fun t id => count_allKeys_sweep hemit.toTame hw hall t (c, id)
  have hiff : ∀ t id, (c, id) ∈ (Function.update h.topics topic t' t).allKeys ↔
      (c, id) ∈ (h.topics t).allKeys := by
    intro t id
    rw [← List.count_pos_iff, hkeys, List.count_pos_iff]
  have hwrites := writes_sweep hemit (h.topics topic).subs ok h.conns c
  rw [hw] at hwrites
  have hreceived : received (h.setTopic topic t' w.conns) c = h.received c := by
    unfold received
    rw [show (h.setTopic topic t' w.conns).conns = w.conns from rfl, hwrites.opened]
  -- under an id that the topic has never had, nothing is emitted
  have hsame : ∀ id, (c, id) ∉ (h.topics topic).allKeys →
      about id (w.conns c).written = about id (h.conns c).written := by
    intro id hfree
    have hnone : (w.kept.filter fun s => s.key = (c, id)) = [] := by
      refine List.filter_eq_nil_iff.mpr fun s hs hkey => hfree ((hiff topic id).mp ?_)
      rw [Function.update_self]
      have hmem : s ∈ t'.all := hall.mem_iff.mpr (by simp [hs])
      exact List.mem_map.mpr ⟨s, hmem, of_decide_eq_true hkey⟩
    rw [hfed.about_sweep hemit hw, hnone, List.flatMap_nil, List.append_nil]
  refine ⟨hwrites.synced hfed.synced, fun id hid => ?_, fun t id => ?_, fun t t₁ id ht ht₁ => ?_,
    fun t s hs hc => ?_⟩
  · rw [hreceived] at hid
    obtain ⟨hnothing, hfree⟩ := hfed.unknown id hid
    exact ⟨(hsame id (hfree topic)).trans hnothing, fun t hin => hfree t ((hiff t id).mp hin)⟩
  · exact (hkeys t id).trans_le (hfed.once t id)
  · exact hfed.single t t₁ id ((hiff t id).mp ht) ((hiff t₁ id).mp ht₁)
  · change s ∈ (Function.update h.topics topic t' t).all at hs
    change about s.requestId (w.conns c).written = s.chunks.map chunkContent
    by_cases ht : t = topic
    · subst ht
      rw [Function.update_self] at hs
      rw [List.append_assoc] at hall
      refine hfed.fed_swept hemit hw hc (hall.mem_iff.mp hs) ?_
      have hcount := hkeys t s.requestId
      rw [Function.update_self, count_allKeys, (hall.filter _).length_eq] at hcount
      exact hcount.trans_le (hfed.once t s.requestId)
    · rw [Function.update_of_ne ht] at hs
      rw [hsame _ fun hin => ht (hfed.single t topic _ (mem_allKeys hs hc) hin)]
      exact hfed.fed t s hs hc

end

/-- Every step keeps the frames of a connection with its calls of `seal`. -/
theorem synced_step {a : Act} (hsynced : ∀ c, (h.conns c).Synced S) (hstep : Step S cfg h a h') :
    ∀ c, (h'.conns c).Synced S := by
  have hset : ∀ {c' : ℕ} {st : LoopState}, st.Synced S →
      ∀ c, (Function.update h.conns c' st c).Synced S := by
    intro c' st hst c
    rw [Function.update_apply]
    split
    · exact hst
    · exact hsynced c
  cases effect_of_step hstep with
  | accept _ | refuse _ | quit _ | finish _ | detach _ => exact hsynced
  | @frame c' f env o hphase hpass =>
    obtain ⟨ids, contents, hex⟩ := exchange_pass hpass
    exact hset (hex.synced (hsynced c'))
  | @shutdown c' hphase =>
    exact hset ⟨(hsynced c').frames, fun ha => by cases ha⟩
  | publish => exact fun c => (writes_sweep (emits_message _) _ _ _ c).synced (hsynced c)
  | heartbeat => exact fun c => (writes_sweep emits_heartbeat _ _ _ c).synced (hsynced c)
  | closeAll => exact fun c => (writes_sweep (emits_chunk true []) _ _ _ c).synced (hsynced c)

theorem synced_of_run {run : ℕ → ServerRun} {acc : ℕ → Accept} {hs : ℕ → HandshakeResult}
    {acts : List Act} (hrun : Run (Step S cfg) (start cfg run acc hs) acts h) (c : ℕ) :
    (h.conns c).Synced S := by
  refine hrun.preserves (I := fun h => ∀ c, (h.conns c).Synced S) ?_ ?_ c
  · exact fun c => ⟨rfl, fun _ => rfl⟩
  · exact fun _ _ _ hsynced hstep => synced_step hsynced hstep

/-- A publish returns how many subscribers it has left, which are those that it has written to; and
on each connection it has written the new chunks of the subscriptions of that connection. -/
structure Published (S : Sodium) (h : Hub) (topic : ℕ) (message : Bytes) (ok : ℕ → Bool)
    (h' : Hub) :
    Prop where
  returned : ((h.topics topic).publish S message ok h.conns).2.2 = (h'.topics topic).subs.length
  kept : (h'.topics topic).subs.Sublist
    ((h.topics topic).subs.map (TopicSub.sent false message))
  written : ∀ c, (h'.conns c).written = (h.conns c).written ++
    ((h'.topics topic).subsOf c).flatMap TopicSub.lastContent

theorem published_of_step {topic : ℕ} {message : Bytes} {ok : ℕ → Bool}
    (hsynced : ∀ c, (h.conns c).Synced S)
    (hstep : Step S cfg h (.publish topic message ok) h') : Published S h topic message ok h' := by
  cases effect_of_step hstep with
  | publish =>
    have hself : (h.setTopic topic ((h.topics topic).publish S message ok h.conns).1
        ((h.topics topic).publish S message ok h.conns).2.1).topics topic
        = ((h.topics topic).publish S message ok h.conns).1 := Function.update_self _ _ _
    refine ⟨?_, ?_, fun c => ?_⟩
    · rw [hself]
      exact delivered_sweep _ ok h.conns
    · rw [hself]
      exact kept_sublist (sends_message message) _ ok h.conns
    · rw [hself]
      exact (writes_sweep (emits_message message) _ ok h.conns c).written (hsynced c)

/-- **Every step feeds the connection its subscriptions**, as long as no request id was received
twice on it. -/
theorem Fed.step (hfed : Fed S c h) {a : Act} (hstep : Step S cfg h a h')
    (hnodup : (h'.received c).Nodup) : Fed S c h' := by
  have hsame : ∀ {h'' : Hub}, h''.conns = h.conns → h''.topics = h.topics → Fed S c h'' := by
    intro h'' hconns htopics
    have hc : h''.conns c = h.conns c := by rw [hconns]
    refine hfed.of_perm (received_congr hc) ?_ (by rw [hc]) fun t => ?_
    · rw [hc]
      exact hfed.synced
    · rw [htopics]
  cases effect_of_step hstep with
  | accept _ | refuse _ | quit _ | finish _ => exact hsame rfl rfl
  | @frame c' f env o hphase hpass =>
    by_cases hc : c = c'
    · subst hc
      exact hfed.frame hpass hnodup
    · exact hfed.frame_other hc hpass
  | @shutdown c' hphase =>
    by_cases hc : c = c'
    · subst hc
      have hself : ((h.kill c).conns c) =
          { h.conns c with conn := { (h.conns c).conn with alive := false } } :=
        Function.update_self _ _ _
      refine hfed.of_perm ?_ ?_ ?_ fun t => List.Perm.refl _
      · change requestIds (((h.kill c).conns c).conn.opened.map Opened.content) = _
        rw [hself]
        rfl
      · change ((h.kill c).conns c).Synced S
        rw [hself]
        exact ⟨hfed.synced.frames, fun ha => by cases ha⟩
      · change ((h.kill c).conns c).written = _
        rw [hself]
        rfl
    · have hother : (h.kill c').conns c = h.conns c := Function.update_of_ne hc _ _
      refine hfed.of_perm (received_congr hother) ?_ (congrArg LoopState.written hother)
        fun t => List.Perm.refl _
      change ((h.kill c').conns c).Synced S
      rw [hother]
      exact hfed.synced
  | detach _ =>
    exact hfed.of_perm rfl hfed.synced rfl (all_update (Topic.all_removeConn _))
  | publish => exact hfed.sweep (emits_message _) rfl (Topic.all_of_ends _ _ _)
  | heartbeat => exact hfed.sweep emits_heartbeat rfl (Topic.all_of_ends _ _ _)
  | closeAll => exact hfed.sweep (emits_chunk true []) rfl (Topic.all_of_ends [] _ _)

end Hub

end Epx
