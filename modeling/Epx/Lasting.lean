import Epx.Answers

/-!
# What ends a subscription

On a connection whose writes succeed a subscription ends in one of three ways: `close_all` puts an
end marker behind its messages, the peer unsubscribes, or the connection ends. No sweep erases it.

## Main definitions

* `TopicSub.Closed` — an end marker is behind the messages
* `Hub.Spares` — the writes to a connection that another thread makes succeed
* `Hub.Lasting`

## Main results

* `alive_sweep` — no sweep erases a subscriber on a connection whose writes succeed
* `Hub.Lasting.step`, `Hub.Lasting.handled`
-/

namespace Epx

open Codec Exception Transition LoopState

namespace ThreadPhase

/-- `alive` was cleared after the loop. -/
def Over : ThreadPhase → Prop
  | .detaching _ | .returned => True
  | _ => False

/-- A frame may still be read. -/
def Reads : ThreadPhase → Prop
  | .waiting | .serving => True
  | _ => False

end ThreadPhase

/-- An end marker is behind the messages of a subscription. -/
def TopicSub.Closed (s : TopicSub) : Prop :=
  ∃ messages, s.chunks = chunksOf s.requestId messages ++ [endChunk s.requestId messages.length]

/-- A write to a connection that is alive succeeds, and leaves it so. -/
def Dependable (send : TopicSub → LoopState → Bool → Attempt) : Prop :=
  ∀ s st, st.conn.alive = true →
    (send s st true).wrote = true ∧ (send s st true).st.conn.alive = true

section

variable {S : Sodium}

theorem dependable_chunk (isLast : Bool) (data : Bytes) : Dependable (sendChunk S isLast data) := by
  intro s st halive
  rw [sendChunk]
  refine ⟨by simp [halive], (sends_sealed halive .streamChunk (by decide) _).2⟩

theorem dependable_message (message : Bytes) : Dependable (sendMessage S message) := by
  intro s st halive
  rw [sendMessage, if_pos halive]
  exact dependable_chunk false message s st halive

theorem dependable_heartbeat : Dependable sendHeartbeat := by
  intro s st halive
  simp [sendHeartbeat, LoopState.sendPing, HostConn.sendPing, halive]

/-- **On a connection whose writes succeed no subscriber is erased by a sweep.** -/
theorem alive_sweep {send : TopicSub → LoopState → Bool → Attempt} (hdepend : Dependable send)
    (htame : Tame send) (subs : List TopicSub) (ok : ℕ → Bool) (conns : ℕ → LoopState) (c : ℕ)
    (hok : ∀ i s, subs[i]? = some s → s.conn = c → ok i = true)
    (halive : (conns c).conn.alive = true) :
    ((sweep send subs ok conns).conns c).conn.alive = true ∧
      ∀ s ∈ (sweep send subs ok conns).erased, s.conn ≠ c := by
  induction subs generalizing ok conns with
  | nil => exact ⟨halive, by simp [sweep]⟩
  | cons s subs ih =>
    have hfirst : s.conn = c → (send s (conns s.conn) (ok 0)).wrote = true ∧
        (send s (conns s.conn) (ok 0)).st.conn.alive = true := by
      intro hc
      rw [hok 0 s rfl hc]
      refine hdepend s _ ?_
      rw [hc]
      exact halive
    have hconns : (Function.update conns s.conn (send s (conns s.conn) (ok 0)).st
        c).conn.alive = true := by
      rw [Function.update_apply]
      split
      · next hc => exact (hfirst hc.symm).2
      · exact halive
    obtain ⟨hend, herased⟩ := ih (fun i => ok (i + 1)) _
      (fun i s' hs' hc => hok (i + 1) s' hs' hc) hconns
    unfold sweep
    simp only
    split
    · exact ⟨hend, herased⟩
    · next hwrote =>
      refine ⟨hend, fun s' hs' => ?_⟩
      rcases List.mem_cons.mp hs' with rfl | hs'
      · intro hc
        have hkey : (send s (conns s.conn) (ok 0)).sub.conn = s.conn :=
          congrArg Prod.fst (htame.key s _ _)
        exact hwrote (hfirst (hkey.symm.trans hc)).1
      · exact herased s' hs'

end

namespace Hub

/-- A subscription of the connection ends with an end marker, or was unsubscribed, or has ended with
the connection. -/
structure Lasting (c : ℕ) (h : Hub) : Prop where
  alive : ¬ (h.phase c).Over → (h.conns c).conn.alive = true
  ended : ∀ t, ∀ p ∈ (h.topics t).ended, p.1.conn = c →
    p.1.Closed ∨ .unsubscribe t p.1.requestId ∈ (h.conns c).calls ∨ (h.phase c).Over

variable {S : Sodium} {cfg : HostConfig} {h h' : Hub} {c : ℕ}

theorem lasting_start (run : ℕ → ServerRun) (acc : ℕ → Accept) (hs : ℕ → HandshakeResult) (c : ℕ) :
    Lasting c (start cfg run acc hs) where
  alive _ := rfl
  ended _ _ hp := absurd hp List.not_mem_nil

/-- Topics are told of no more subscriptions that have ended than those that were unsubscribed. -/
theorem ended_foldl {c' : ℕ} (calls : List HandlerCall) (topics : ℕ → Topic) (t : ℕ)
    {p : TopicSub × ℕ} (hp : p ∈ (calls.foldl (HandlerCall.onTopics c') topics t).ended) :
    p ∈ (topics t).ended ∨ ∃ id, .unsubscribe t id ∈ calls ∧ p.1.key = (c', id) := by
  induction calls generalizing topics with
  | nil => exact Or.inl hp
  | cons call calls ih =>
    rw [List.foldl_cons] at hp
    rcases ih _ hp with hp | ⟨id, hmem, hkey⟩
    · cases call with
      | unary _ _ | streamRecv _ _ _ | streamSend _ _ => exact Or.inl hp
      | subscribe endpoint topic id =>
        simp only [HandlerCall.onTopics, Function.update_apply] at hp
        split at hp
        · next heq =>
          subst heq
          exact Or.inl hp
        · exact Or.inl hp
      | unsubscribe topic id =>
        simp only [HandlerCall.onTopics, Function.update_apply] at hp
        split at hp
        · next heq =>
          subst heq
          rw [Topic.remove] at hp
          split at hp
          · next s hs =>
            rcases List.mem_append.mp hp with hp | hp
            · exact Or.inl hp
            · obtain ⟨s', hs', rfl⟩ := List.mem_map.mp hp
              have hfound := List.find?_some hs
              rw [List.mem_singleton.mp hs']
              exact Or.inr ⟨id, List.mem_cons_self, of_decide_eq_true hfound⟩
          · exact Or.inl hp
        · exact Or.inl hp
    · exact Or.inr ⟨id, List.mem_cons_of_mem _ hmem, hkey⟩

/-- A step after which the connection is as it was, but for what was written on it. -/
theorem Lasting.keep (h₁ : Lasting c h) (hphase : h'.phase c = h.phase c)
    (halive : ¬ (h.phase c).Over → (h'.conns c).conn.alive = true)
    (hcalls : (h.conns c).calls <+: (h'.conns c).calls)
    (hended : ∀ t, ∀ p ∈ (h'.topics t).ended, p.1.conn = c → ¬ (h.phase c).Over →
      p ∈ (h.topics t).ended ∨ p.1.Closed ∨ .unsubscribe t p.1.requestId ∈ (h'.conns c).calls) :
    Lasting c h' where
  alive hover := halive (by rwa [hphase] at hover)
  ended t p hp hc := by
    rw [hphase]
    by_cases hover : (h.phase c).Over
    · exact Or.inr (Or.inr hover)
    · rcases hended t p hp hc hover with hold | hclosed | hun
      · rcases h₁.ended t p hold hc with hclosed | hun | hover
        · exact Or.inl hclosed
        · exact Or.inr (Or.inl (hcalls.subset hun))
        · exact Or.inr (Or.inr hover)
      · exact Or.inl hclosed
      · exact Or.inr (Or.inl hun)

/-- The thread of a connection moves on. -/
theorem Lasting.setPhase (h₁ : Lasting c h) (c' : ℕ) {phase : ThreadPhase}
    (hover : (h.phase c').Over ↔ phase.Over) : Lasting c (h.setPhase c' phase) := by
  have hsame : ((h.setPhase c' phase).phase c).Over ↔ (h.phase c).Over := by
    change (Function.update h.phase c' phase c).Over ↔ _
    rw [Function.update_apply]
    split
    · next hc => rw [hc, hover]
    · exact Iff.rfl
  refine ⟨fun hno => h₁.alive fun h => hno (hsame.mpr h), fun t p hp hc => ?_⟩
  exact (h₁.ended t p hp hc).imp_right (Or.imp_right hsame.mpr)

/-- A connection that is over has nothing more to keep. -/
theorem lasting_of_over (hover : (h.phase c).Over) : Lasting c h where
  alive hno := absurd hover hno
  ended _ _ _ _ := Or.inr (Or.inr hover)

/-- The frame of a connection is handled; if it is the connection itself, no write has failed. -/
theorem Lasting.handled (h₁ : Lasting c h) {c' : ℕ} {o : Outcome} (hphase : h.phase c' = .serving)
    (hcalls : (h.conns c').calls <+: o.state.calls)
    (halive : c' = c → o.state.conn.alive = true) : Lasting c (h.handled c' o) := by
  have hover : ¬ ((h.handled c' o).phase c').Over := by
    change ¬ (Function.update h.phase c' _ c').Over
    rw [Function.update_self]
    cases o <;> exact id
  have hended : ∀ t, ∀ p ∈ ((h.handled c' o).topics t).ended, p.1.conn = c →
      p ∈ (h.topics t).ended ∨ c' = c ∧ .unsubscribe t p.1.requestId ∈ o.state.calls := by
    intro t p hp hc
    rcases ended_foldl _ _ t hp with hp | ⟨id, hmem, hkey⟩
    · exact Or.inl hp
    · refine Or.inr ⟨(congrArg Prod.fst hkey).symm.trans hc, ?_⟩
      rw [show p.1.requestId = id from congrArg Prod.snd hkey]
      exact List.mem_of_mem_drop hmem
  by_cases hc : c' = c
  · subst hc
    have hself : (h.handled c' o).conns c' = o.state := Function.update_self _ _ _
    refine ⟨fun _ => by rw [hself]; exact halive rfl, fun t p hp hconn => ?_⟩
    rcases hended t p hp hconn with hold | ⟨-, hun⟩
    · rcases h₁.ended t p hold hconn with hclosed | hun | hover'
      · exact Or.inl hclosed
      · rw [hself]
        exact Or.inr (Or.inl (hcalls.subset hun))
      · rw [hphase] at hover'
        exact absurd hover' id
    · rw [hself]
      exact Or.inr (Or.inl hun)
  · have hconns : (h.handled c' o).conns c = h.conns c := Function.update_of_ne (Ne.symm hc) _ _
    refine h₁.keep (Function.update_of_ne (Ne.symm hc) _ _) (fun hno => ?_) ?_ ?_
    · rw [hconns]
      exact h₁.alive hno
    · rw [hconns]
    · intro t p hp hconn _
      exact (hended t p hp hconn).imp_right fun h => absurd h.1 hc

/-- A sweep over the subscribers of a topic. -/
theorem Lasting.sweep (h₁ : Lasting c h) {send : TopicSub → LoopState → Bool → Attempt}
    (hdepend : Dependable send) (htame : Tame send) {topic : ℕ} {t' : Topic} {ok : ℕ → Bool}
    {w : Sweep}
    (hw : Epx.sweep send (h.topics topic).subs ok h.conns = w)
    (hok : ∀ i s, (h.topics topic).subs[i]? = some s → s.conn = c → ok i = true)
    (hended : ∀ p ∈ t'.ended, p ∈ (h.topics topic).ended ∨ p.1 ∈ w.erased ∨ p.1.Closed) :
    Lasting c (h.setTopic topic t' w.conns) := by
  have hbooks := books_sweep htame (h.topics topic).subs ok h.conns c
  rw [hw] at hbooks
  have hsweep : ¬ (h.phase c).Over →
      (w.conns c).conn.alive = true ∧ ∀ s ∈ w.erased, s.conn ≠ c := by
    intro hno
    rw [← hw]
    exact alive_sweep hdepend htame _ ok h.conns c hok (h₁.alive hno)
  refine h₁.keep rfl (fun hno => (hsweep hno).1) ?_ fun t p hp hc hno => ?_
  · rw [show ((h.setTopic topic t' w.conns).conns c).calls = (h.conns c).calls from
      congrArg Books.calls hbooks]
  · change p ∈ (Function.update h.topics topic t' t).ended at hp
    rw [Function.update_apply] at hp
    split at hp
    · next heq =>
      subst heq
      rcases hended p hp with hold | herased | hclosed
      · exact Or.inl hold
      · exact absurd hc ((hsweep hno).2 _ herased)
      · exact Or.inr (Or.inl hclosed)
    · exact Or.inl hp

theorem mem_ends {t : Topic} {subs : List TopicSub} {p : TopicSub × ℕ} (hp : p ∈ t.ends subs) :
    p ∈ t.ended ∨ p.1 ∈ subs := by
  rcases List.mem_append.mp hp with hp | hp
  · exact Or.inl hp
  · obtain ⟨s, hs, rfl⟩ := List.mem_map.mp hp
    exact Or.inr hs

/-- What `close_all` has written the end marker for is closed. -/
theorem closed_of_sent {t : Topic} (hrec : t.Recorded) {s : TopicSub} (hs : s ∈ t.subs) :
    (s.sent true []).Closed := by
  have hlive := hrec.live s hs
  refine ⟨t.published.drop s.addedAt, ?_⟩
  change s.chunks ++ [s.chunk true []] = chunksOf s.requestId (t.published.drop s.addedAt) ++
    [endChunk s.requestId (t.published.drop s.addedAt).length]
  rw [← hlive.chunks, List.length_drop]
  rw [TopicSub.chunk, endChunk, hlive.seq]

/-- The writes to the connection succeed that a step of another thread makes. -/
def Spares (c : ℕ) (h : Hub) : Act → Prop
  | .publish t _ ok | .heartbeat t ok | .closeAll t ok =>
    ∀ i s, (h.topics t).subs[i]? = some s → s.conn = c → ok i = true
  | _ => True

theorem calls_kept {st : LoopState} {env : Pass} {f : RawFrame} {o : Outcome}
    (hpass : pass S cfg env st f = .ok o) : st.calls <+: o.state.calls := by
  have heff := effect_of_pass hpass
  rw [show o.state.calls = o.state.books.calls from rfl]
  generalize o.state.books = b at heff
  cases heff with
  | idle | denied _ => exact List.prefix_refl _
  | unsubscribed _ | subscribed _ _ _ _ | served _ _ => exact List.prefix_append _ _

/-- A step that is not the handling of a frame of the connection. -/
theorem Lasting.step (h₁ : Lasting c h) (hrec : ∀ t, (h.topics t).Recorded) {a : Act}
    (hstep : Step S cfg h a h') (hframe : ∀ f env, a ≠ .frame c f env) (hspares : Spares c h a) :
    Lasting c h' := by
  cases effect_of_step hstep with
  | @accept c' hphase => exact h₁.setPhase c' (by rw [hphase]; exact Iff.rfl)
  | @refuse c' hphase =>
    by_cases hc : c' = c
    · subst hc
      refine lasting_of_over ?_
      change (Function.update h.phase c' _ c').Over
      rw [Function.update_self]
      exact trivial
    · refine h₁.keep (Function.update_of_ne (Ne.symm hc) _ _) h₁.alive (List.prefix_refl _) ?_
      exact fun t p hp _ _ => Or.inl hp
  | @frame c' f env o hphase hpass =>
    refine h₁.handled hphase (calls_kept hpass) fun hc => ?_
    exact absurd (by rw [hc]) (hframe f env)
  | @quit c' hphase => exact h₁.setPhase c' (by rw [hphase]; exact Iff.rfl)
  | @shutdown c' hphase =>
    by_cases hc : c' = c
    · subst hc
      refine lasting_of_over ?_
      change (Function.update h.phase c' _ c').Over
      rw [Function.update_self]
      exact trivial
    · have hconns : (h.kill c').conns c = h.conns c := Function.update_of_ne (Ne.symm hc) _ _
      refine h₁.keep (Function.update_of_ne (Ne.symm hc) _ _) (fun hno => ?_) ?_
        fun t p hp _ _ => Or.inl hp
      · change ((h.kill c').conns c).conn.alive = true
        rw [hconns]
        exact h₁.alive hno
      · change _ <+: ((h.kill c').conns c).calls
        rw [hconns]
  | @detach c' sub rest hphase =>
    by_cases hc : c' = c
    · subst hc
      refine lasting_of_over ?_
      change (Function.update h.phase c' _ c').Over
      rw [Function.update_self]
      exact trivial
    · refine h₁.keep (Function.update_of_ne (Ne.symm hc) _ _) h₁.alive (List.prefix_refl _) ?_
      intro t p hp hconn _
      change p ∈ (Function.update h.topics sub.1 _ t).ended at hp
      rw [Function.update_apply] at hp
      split at hp
      · next heq =>
        subst heq
        rcases mem_ends hp with hp | hp
        · exact Or.inl hp
        · have hconn' := of_decide_eq_true (List.mem_filter.mp hp).2
          exact absurd (hconn'.symm.trans hconn) hc
      · exact Or.inl hp
  | @finish c' hphase => exact h₁.setPhase c' (by rw [hphase]; exact Iff.rfl)
  | publish =>
    exact h₁.sweep (dependable_message _) (tame_sendMessage _) rfl hspares
      fun p hp => (mem_ends hp).imp_right Or.inl
  | heartbeat =>
    exact h₁.sweep dependable_heartbeat tame_sendHeartbeat rfl hspares
      fun p hp => (mem_ends hp).imp_right Or.inl
  | @closeAll topic ok =>
    refine h₁.sweep (dependable_chunk true []) (tame_sendChunk _ _) rfl hspares fun p hp => ?_
    refine (mem_ends hp).imp_right fun hp => ?_
    rcases List.mem_append.mp hp with hkept | herased
    · have hsent := (kept_sublist (sends_chunk true []) (h.topics topic).subs ok h.conns).subset
        hkept
      obtain ⟨s, hs, heq⟩ := List.mem_map.mp hsent
      rw [← heq]
      exact Or.inr (closed_of_sent (hrec topic) hs)
    · exact Or.inl herased

/-- A thread that reads no more frames does so for good. -/
theorem reads_of_step {a : Act} (hstep : Step S cfg h a h') (hno : ¬ (h.phase c).Reads) :
    ¬ (h'.phase c).Reads := by
  have hset : ∀ {c' : ℕ} {phase : ThreadPhase}, (c' = c → phase.Reads → (h.phase c').Reads) →
      ¬ (Function.update h.phase c' phase c).Reads := by
    intro c' phase hreads
    rw [Function.update_apply]
    split
    · next hc =>
      intro hnew
      refine hno ?_
      rw [hc]
      exact hreads hc.symm hnew
    · exact hno
  cases effect_of_step hstep with
  | accept hphase | refuse hphase =>
    refine hset fun _ _ => ?_
    rw [hphase]
    exact trivial
  | frame hphase _ =>
    refine hset fun _ _ => ?_
    rw [hphase]
    exact trivial
  | quit _ | shutdown _ | detach _ | finish _ => exact hset fun _ hnew => absurd hnew id
  | publish | heartbeat | closeAll => exact hno

end Hub

end Epx
