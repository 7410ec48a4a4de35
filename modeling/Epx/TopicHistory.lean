import Epx.Subscriptions

/-!
# What a topic has sent to its subscribers

The chunks of every subscription that a topic has ever had, against the messages that were published
on it. Publishing goes through all subscribers under the mutex of the topic, so that there is one
order of messages for all of them, and a subscription gets a stretch of it: from the message after
it was added to the one before it ended. `close_all` may put an end marker behind the stretch.

The sequence number of a chunk has 32 bits and counts the chunks of its subscription modulo `2 ^
32`.

## Main definitions

* `chunksOf` — the chunks of a stretch of messages
* `Topic.Recorded` — every subscription has been sent its stretch
* `Topic.all` — the subscriptions that a topic has ever had
* `Topic.Changes` — what can happen to a topic

## Main results

* `Topic.Recorded.changes`, `Hub.recorded_of_run`
* `Topic.tickets_changes` — no subscription is lost
-/

namespace Epx

open Codec Transition

/-- The chunks that carry some messages to a subscriber. -/
def chunksOf (requestId : UInt64) (messages : List Bytes) : List StreamChunkPayload :=
  messages.mapIdx fun i message =>
    { requestId := requestId, seq := UInt32.ofNat i, isLast := false, data := message }

/-- The chunk that ends a subscription after `n` messages. -/
def endChunk (requestId : UInt64) (n : ℕ) : StreamChunkPayload :=
  { requestId := requestId, seq := UInt32.ofNat n, isLast := true }

theorem chunksOf_snoc (requestId : UInt64) (messages : List Bytes) (message : Bytes) :
    chunksOf requestId (messages ++ [message]) = chunksOf requestId messages ++
      [{ requestId := requestId, seq := UInt32.ofNat messages.length, data := message }] := by
  unfold chunksOf
  rw [List.mapIdx_concat]

namespace TopicSub

/-- The subscription after a chunk was written for it. -/
def sent (isLast : Bool) (data : Bytes) (s : TopicSub) : TopicSub :=
  { s with seq := s.seq + 1, chunks := s.chunks ++ [s.chunk isLast data] }

/-- A subscriber has been sent all messages since it was added. -/
structure Live (published : List Bytes) (s : TopicSub) : Prop where
  added : s.addedAt ≤ published.length
  chunks : s.chunks = chunksOf s.requestId (published.drop s.addedAt)
  seq : s.seq = UInt32.ofNat (published.length - s.addedAt)

/-- A subscription that ended before message `n` was sent all messages from when it was added, and
at most an end marker after them. -/
structure Over (published : List Bytes) (s : TopicSub) (n : ℕ) : Prop where
  added : s.addedAt ≤ n
  ended : n ≤ published.length
  chunks : s.chunks = chunksOf s.requestId ((published.take n).drop s.addedAt) ∨
    s.chunks = chunksOf s.requestId ((published.take n).drop s.addedAt) ++
      [endChunk s.requestId (n - s.addedAt)]

variable {published : List Bytes} {s : TopicSub} {n : ℕ}

theorem Live.finished (h : s.Live published) {s' : TopicSub} (hticket : s'.ticket = s.ticket)
    (hchunks : s'.chunks = s.chunks) : s'.Over published published.length := by
  have hkey : s'.key = s.key := congrArg Prod.fst hticket
  have hadded : s'.addedAt = s.addedAt := congrArg Prod.snd hticket
  have hid : s'.requestId = s.requestId := congrArg Prod.snd hkey
  refine ⟨by rw [hadded]; exact h.added, Nat.le_refl _, Or.inl ?_⟩
  rw [List.take_length, hchunks, hadded, hid]
  exact h.chunks

theorem Live.sent (h : s.Live published) (message : Bytes) :
    (s.sent false message).Live (published ++ [message]) where
  added := by
    rw [List.length_append]
    exact h.added.trans (Nat.le_add_right _ _)
  chunks := by
    change s.chunks ++ [s.chunk false message] = chunksOf s.requestId
      ((published ++ [message]).drop s.addedAt)
    rw [List.drop_append_of_le_length h.added, chunksOf_snoc, ← h.chunks, List.length_drop,
      ← h.seq]
    rfl
  seq := by
    change s.seq + 1 = UInt32.ofNat ((published ++ [message]).length - s.addedAt)
    have hadded := h.added
    rw [h.seq, List.length_append, List.length_singleton,
      show published.length + 1 - s.addedAt = published.length - s.addedAt + 1 by omega,
      UInt32.ofNat_add]
    rfl

/-- `close_all` has written the end marker. -/
theorem Live.closed (h : s.Live published) :
    (s.sent true []).Over published published.length where
  added := h.added
  ended := Nat.le_refl _
  chunks := Or.inr (by
    change s.chunks ++ [s.chunk true []] = _
    rw [List.take_length, h.chunks]
    rw [chunk, endChunk]
    rw [h.seq]
    rfl)

theorem Over.append (h : s.Over published n) (message : Bytes) :
    s.Over (published ++ [message]) n where
  added := h.added
  ended := by
    rw [List.length_append]
    exact h.ended.trans (Nat.le_add_right _ _)
  chunks := by
    rw [List.take_append_of_le_length h.ended]
    exact h.chunks

end TopicSub

/-! ### Sweeps -/

section

variable {S : Sodium} {send : TopicSub → LoopState → Bool → Attempt} {subs : List TopicSub}
  {ok : ℕ → Bool} {conns : ℕ → LoopState} {s' : TopicSub}

theorem delivered_sweep (subs : List TopicSub) (ok : ℕ → Bool) (conns : ℕ → LoopState) :
    (sweep send subs ok conns).delivered = (sweep send subs ok conns).kept.length := by
  induction subs generalizing ok conns with
  | nil => rfl
  | cons s subs ih =>
    unfold sweep
    simp only
    split
    · rw [ih, List.length_cons]
    · exact ih _ _

/-- Every subscriber is kept or erased, and what writing does not change of it stays. -/
theorem perm_sweep {β : Type} {g : TopicSub → β} (hg : ∀ s st b, g (send s st b).sub = g s)
    (subs : List TopicSub) (ok : ℕ → Bool) (conns : ℕ → LoopState) :
    (((sweep send subs ok conns).kept ++ (sweep send subs ok conns).erased).map g).Perm
      (subs.map g) := by
  induction subs generalizing ok conns with
  | nil => exact List.Perm.refl _
  | cons s subs ih =>
    unfold sweep
    simp only
    split
    · rw [List.cons_append, List.map_cons, List.map_cons, hg]
      exact (ih _ _).cons _
    · rw [List.map_append, List.map_cons, List.map_cons, hg]
      refine List.perm_middle.trans ?_
      rw [← List.map_append]
      exact (ih _ _).cons _

theorem exists_of_mem_erased (h : s' ∈ (sweep send subs ok conns).erased) :
    ∃ s ∈ subs, ∃ st b, s' = (send s st b).sub ∧ (send s st b).wrote = false := by
  induction subs generalizing ok conns with
  | nil => cases h
  | cons s subs ih =>
    unfold sweep at h
    simp only at h
    split at h
    · obtain ⟨s₁, hs, hrest⟩ := ih h
      exact ⟨s₁, List.mem_cons_of_mem s hs, hrest⟩
    · next hwrote =>
      rcases List.mem_cons.mp h with rfl | h
      · exact ⟨s, List.mem_cons_self, _, _, rfl, Bool.eq_false_of_not_eq_true hwrote⟩
      · obtain ⟨s₁, hs, hrest⟩ := ih h
        exact ⟨s₁, List.mem_cons_of_mem s hs, hrest⟩

/-- A write leaves a subscription as `g` has it when it succeeds, and with the same chunks when it
fails. -/
structure Sends (send : TopicSub → LoopState → Bool → Attempt) (g : TopicSub → TopicSub) : Prop
    extends Tame send where
  wrote : ∀ s st b, (send s st b).wrote = true → (send s st b).sub = g s
  lost : ∀ s st b, (send s st b).wrote = false → (send s st b).sub.chunks = s.chunks

theorem sends_chunk (isLast : Bool) (data : Bytes) :
    Sends (sendChunk S isLast data) (TopicSub.sent isLast data) where
  toTame := tame_sendChunk isLast data
  wrote s st b hwrote := by
    change (st.conn.alive && b) = true at hwrote
    rw [sendChunk]
    rw [if_pos hwrote]
    rfl
  lost s st b hwrote := by
    change (st.conn.alive && b) = false at hwrote
    rw [sendChunk]
    rw [if_neg (by simp [hwrote])]
    exact List.append_nil s.chunks

theorem sends_message (message : Bytes) :
    Sends (sendMessage S message) (TopicSub.sent false message) where
  toTame := tame_sendMessage message
  wrote s st b := by
    rw [sendMessage]
    split
    · exact (sends_chunk false message).wrote s st b
    · intro hwrote
      cases hwrote
  lost s st b := by
    rw [sendMessage]
    split
    · exact (sends_chunk false message).lost s st b
    · intro _
      rfl

theorem sends_heartbeat : Sends sendHeartbeat id where
  toTame := tame_sendHeartbeat
  wrote _ _ _ _ := rfl
  lost _ _ _ _ := rfl

/-- The subscribers that are kept are, in their order, as a successful write leaves them. -/
theorem kept_sublist {g : TopicSub → TopicSub} (h : Sends send g) (subs : List TopicSub)
    (ok : ℕ → Bool) (conns : ℕ → LoopState) :
    (sweep send subs ok conns).kept.Sublist (subs.map g) := by
  induction subs generalizing ok conns with
  | nil => exact List.Sublist.refl _
  | cons s subs ih =>
    unfold sweep
    simp only
    split
    · next hwrote =>
      rw [List.map_cons, h.wrote _ _ _ hwrote]
      exact (ih _ _).cons_cons _
    · exact (ih _ _).cons _

end

/-! ### Topics -/

namespace Topic

/-- Every subscription that a topic has or had was sent its stretch of the messages. -/
structure Recorded (t : Topic) : Prop where
  live : ∀ s ∈ t.subs, s.Live t.published
  finished : ∀ p ∈ t.ended, p.1.Over t.published p.2

/-- The subscriptions that a topic has or had. -/
def all (t : Topic) : List TopicSub := t.subs ++ t.ended.map Prod.fst

/-- What can happen to a topic. -/
inductive Changes (S : Sodium) (conns : ℕ → LoopState) (t : Topic) : Topic → Prop
  | same : Changes S conns t t
  | add (c : ℕ) (requestId : UInt64) : Changes S conns t (t.add c requestId)
  | remove (c : ℕ) (requestId : UInt64) : Changes S conns t (t.remove c requestId)
  | removeConn (c : ℕ) : Changes S conns t (t.removeConn c)
  | publish (message : Bytes) (ok : ℕ → Bool) :
      Changes S conns t (t.publish S message ok conns).1
  | heartbeat (ok : ℕ → Bool) : Changes S conns t (t.heartbeat ok conns).1
  | closeAll (ok : ℕ → Bool) : Changes S conns t (t.closeAll S ok conns).1

variable {S : Sodium} {conns : ℕ → LoopState} {t t' : Topic}

theorem map_fst_ends (subs : List TopicSub) :
    (t.ends subs).map Prod.fst = t.ended.map Prod.fst ++ subs := by
  rw [ends]
  rw [List.map_append, List.map_map]
  congr 1
  exact List.map_id subs

theorem Recorded.over_ends (h : t.Recorded) {subs : List TopicSub}
    (hsubs : ∀ s ∈ subs, s.Over t.published t.published.length) :
    ∀ p ∈ t.ends subs, p.1.Over t.published p.2 := by
  intro p hp
  rcases List.mem_append.mp hp with hp | hp
  · exact h.finished p hp
  · obtain ⟨s, hs, rfl⟩ := List.mem_map.mp hp
    exact hsubs s hs

theorem Recorded.over_erased (h : t.Recorded) {send : TopicSub → LoopState → Bool → Attempt}
    {g : TopicSub → TopicSub} (hsend : Sends send g) (ok : ℕ → Bool) :
    ∀ s ∈ (sweep send t.subs ok conns).erased, s.Over t.published t.published.length := by
  intro s' hs'
  obtain ⟨s, hs, st, b, rfl, hwrote⟩ := exists_of_mem_erased hs'
  exact (h.live s hs).finished (hsend.ticket s st b) (hsend.lost s st b hwrote)

theorem Recorded.remove (h : t.Recorded) (c : ℕ) (requestId : UInt64) :
    (t.remove c requestId).Recorded := by
  rw [Topic.remove]
  split
  · next s hs =>
    have hmem := List.mem_of_find?_eq_some hs
    refine ⟨fun s' hs' => h.live s' (List.eraseP_sublist.subset hs'), h.over_ends ?_⟩
    intro s' hs'
    rw [List.mem_singleton.mp hs']
    exact (h.live s hmem).finished rfl rfl
  · exact h

theorem Recorded.publish (h : t.Recorded) (message : Bytes) (ok : ℕ → Bool) :
    (t.publish S message ok conns).1.Recorded where
  live := by
    intro s' hs'
    have hkept := (kept_sublist (sends_message message) t.subs ok conns).subset hs'
    obtain ⟨s, hs, rfl⟩ := List.mem_map.mp hkept
    exact (h.live s hs).sent message
  finished := by
    intro p hp
    exact (h.over_ends (h.over_erased (sends_message message) ok) p hp).append message

theorem Recorded.heartbeat (h : t.Recorded) (ok : ℕ → Bool) :
    (t.heartbeat ok conns).1.Recorded where
  live := by
    intro s' hs'
    have hkept := (kept_sublist sends_heartbeat t.subs ok conns).subset hs'
    rw [List.map_id] at hkept
    exact h.live s' hkept
  finished := h.over_ends (h.over_erased sends_heartbeat ok)

theorem Recorded.closeAll (h : t.Recorded) (ok : ℕ → Bool) :
    (t.closeAll S ok conns).1.Recorded where
  live := fun _ hs => absurd hs List.not_mem_nil
  finished := by
    refine h.over_ends fun s' hs' => ?_
    rcases List.mem_append.mp hs' with hkept | herased
    · have hkept := (kept_sublist (sends_chunk true []) t.subs ok conns).subset hkept
      obtain ⟨s, hs, rfl⟩ := List.mem_map.mp hkept
      exact (h.live s hs).closed
    · exact h.over_erased (sends_chunk true []) ok s' herased

theorem Recorded.add (h : t.Recorded) (c : ℕ) (requestId : UInt64) :
    (t.add c requestId).Recorded where
  live := by
    intro s hs
    rcases List.mem_append.mp hs with hs | hs
    · exact h.live s hs
    · rw [List.mem_singleton.mp hs]
      refine ⟨Nat.le_refl _, ?_, ?_⟩
      · change [] = chunksOf requestId (t.published.drop t.published.length)
        rw [List.drop_length]
        rfl
      · change 0 = UInt32.ofNat (t.published.length - t.published.length)
        rw [Nat.sub_self]
        rfl
  finished := h.finished

/-- **Whatever happens to a topic, its subscriptions have been sent their messages.** -/
theorem Recorded.changes (h : t.Recorded) (hchange : Changes S conns t t') : t'.Recorded := by
  cases hchange with
  | same => exact h
  | add c requestId => exact h.add c requestId
  | remove c requestId => exact h.remove c requestId
  | removeConn c =>
    refine ⟨fun s hs => h.live s (List.mem_of_mem_filter hs), h.over_ends fun s hs => ?_⟩
    exact (h.live s (List.mem_of_mem_filter hs)).finished rfl rfl
  | publish message ok => exact h.publish message ok
  | heartbeat ok => exact h.heartbeat ok
  | closeAll ok => exact h.closeAll ok

/-- Subscriptions are moved to the ended ones. -/
theorem all_of_ends (kept erased : List TopicSub) (published : List Bytes) :
    (all ⟨kept, published, t.ends erased⟩).Perm (kept ++ erased ++ t.ended.map Prod.fst) := by
  rw [all]
  simp only [map_fst_ends]
  rw [List.append_assoc]
  exact List.Perm.append_left _ List.perm_append_comm

theorem all_add (c : ℕ) (requestId : UInt64) :
    (t.add c requestId).all.Perm
      ({ conn := c, requestId := requestId, addedAt := t.published.length } :: t.all) := by
  rw [all, add]
  simp only [List.append_assoc, List.cons_append, List.nil_append]
  exact List.perm_middle

theorem all_remove (c : ℕ) (requestId : UInt64) : (t.remove c requestId).all.Perm t.all := by
  rw [remove]
  split
  · next s hs =>
    refine (all_of_ends _ _ _).trans (List.Perm.append_right _ ?_)
    obtain ⟨hkey, before, after, hsubs, hbefore⟩ := List.find?_eq_some_iff_append.mp hs
    rw [hsubs, List.eraseP_append_right _ (by simpa using hbefore), List.eraseP_cons, hkey]
    simp only [cond_true, List.append_assoc]
    exact List.Perm.append_left _ List.perm_append_comm
  · exact List.Perm.refl _

theorem all_removeConn (c : ℕ) : (t.removeConn c).all.Perm t.all := by
  refine (all_of_ends _ _ _).trans (List.Perm.append_right _ ?_)
  have hperm := List.filter_append_perm (fun s : TopicSub => decide (s.conn ≠ c)) t.subs
  simpa using hperm

theorem tickets_sweep {send : TopicSub → LoopState → Bool → Attempt} (h : Tame send)
    (ok : ℕ → Bool) (hall : t'.all.Perm ((sweep send t.subs ok conns).kept ++
      (sweep send t.subs ok conns).erased ++ t.ended.map Prod.fst)) :
    (t'.all.map TopicSub.ticket).Perm (t.all.map TopicSub.ticket) := by
  have hperm := perm_sweep h.ticket t.subs ok conns
  refine (hall.map _).trans ?_
  simp only [all, List.map_append] at hperm ⊢
  exact hperm.append_right _

/-- **No subscription is lost**, and only `add` brings a new one. -/
theorem tickets_changes (hchange : Changes S conns t t') :
    (t'.all.map TopicSub.ticket).Perm (t.all.map TopicSub.ticket) ∨
      ∃ c requestId, t' = t.add c requestId := by
  cases hchange with
  | same => exact Or.inl (List.Perm.refl _)
  | add c requestId => exact Or.inr ⟨c, requestId, rfl⟩
  | remove c requestId => exact Or.inl ((all_remove c requestId).map _)
  | removeConn c => exact Or.inl ((all_removeConn c).map _)
  | publish message ok =>
    exact Or.inl (tickets_sweep (tame_sendMessage message) ok (all_of_ends _ _ _))
  | heartbeat ok => exact Or.inl (tickets_sweep tame_sendHeartbeat ok (all_of_ends _ _ _))
  | closeAll ok => exact Or.inl (tickets_sweep (tame_sendChunk true []) ok (all_of_ends [] _ _))

/-- What has been published and what has ended stays. -/
theorem prefix_of_changes (hchange : Changes S conns t t') :
    t.published <+: t'.published ∧ t.ended <+: t'.ended := by
  have hends : ∀ subs, t.ended <+: t.ends subs := fun subs => List.prefix_append _ _
  cases hchange with
  | same | add _ _ => exact ⟨List.prefix_refl _, List.prefix_refl _⟩
  | remove c requestId =>
    rw [remove]
    split
    · exact ⟨List.prefix_refl _, hends _⟩
    · exact ⟨List.prefix_refl _, List.prefix_refl _⟩
  | removeConn c => exact ⟨List.prefix_refl _, hends _⟩
  | publish message ok => exact ⟨List.prefix_append _ _, hends _⟩
  | heartbeat ok => exact ⟨List.prefix_refl _, hends _⟩
  | closeAll ok => exact ⟨List.prefix_refl _, hends _⟩

end Topic

/-! ### Runs of a host -/

namespace Hub

variable {S : Sodium} {cfg : HostConfig} {h h' : Hub} {a : Act}

/-- **Every step does to each topic what a topic allows.** -/
theorem changes_of_step (hstep : Step S cfg h a h') (t : ℕ) :
    Topic.Changes S h.conns (h.topics t) (h'.topics t) := by
  have hset : ∀ {topic t'}, Topic.Changes S h.conns (h.topics topic) t' →
      Topic.Changes S h.conns (h.topics t) (Function.update h.topics topic t' t) := by
    intro topic t' hchange
    rw [Function.update_apply]
    split
    · next heq => rwa [heq]
    · exact .same
  cases effect_of_step hstep with
  | accept _ | refuse _ | quit _ | shutdown _ | finish _ => exact .same
  | @frame c f env o hphase hpass =>
    have heff := effect_of_frame hpass
    generalize (h.handled c o).topics = topics at heff ⊢
    generalize o.state.mySubs = subs at heff
    generalize o.state.calls.drop (h.conns c).calls.length = calls at heff
    cases heff with
    | idle => exact .same
    | unsubscribed _ => exact hset (.remove _ _)
    | subscribed _ => exact hset (.add _ _)
  | detach _ => exact hset (.removeConn _)
  | publish => exact hset (.publish _ _)
  | heartbeat => exact hset (.heartbeat _)
  | closeAll => exact hset (.closeAll _)

theorem recorded_of_run {run : ℕ → ServerRun} {acc : ℕ → Accept} {hs : ℕ → HandshakeResult}
    {acts : List Act} (hrun : Run (Step S cfg) (start cfg run acc hs) acts h) (t : ℕ) :
    (h.topics t).Recorded := by
  refine hrun.preserves (I := fun h => (h.topics t).Recorded) ?_ ?_
  · exact ⟨fun _ hs => absurd hs List.not_mem_nil, fun _ hs => absurd hs List.not_mem_nil⟩
  · intro h a h' hrec hstep
    exact hrec.changes (changes_of_step hstep t)

/-- What has been published and what has ended stays. -/
theorem prefix_of_run {acts : List Act} (hrun : Run (Step S cfg) h acts h') (t : ℕ) :
    (h.topics t).published <+: (h'.topics t).published ∧
      (h.topics t).ended <+: (h'.topics t).ended := by
  refine hrun.preserves (I := fun h' => (h.topics t).published <+: (h'.topics t).published ∧
      (h.topics t).ended <+: (h'.topics t).ended) ⟨List.prefix_refl _, List.prefix_refl _⟩ ?_
  intro h₁ a h₂ hold hstep
  have hnew := Topic.prefix_of_changes (changes_of_step hstep t)
  exact ⟨hold.1.trans hnew.1, hold.2.trans hnew.2⟩

end Hub

end Epx
