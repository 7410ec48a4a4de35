import Epx.Topic
import Epx.Lib.Transition
import Mathlib.Algebra.BigOperators.Group.Finset.Piecewise

/-!
# The subscriptions of a host

All connections of a host with all its topics. A connection keeps the subscriptions it has made in
`my_subs`, and each topic keeps its subscribers: the same fact is stored twice, and the two places
are changed by different threads. The thread of a connection adds to both and removes from both;
publishers, the heartbeat and `close_all` remove from the topics only; and on its way out the thread
goes through `my_subs` to remove what the topics still hold.

The handling of a frame is one step. What a connection starts with and every frame that it receives
are arbitrary, and so are the names under which its passes find the topics.

## Main definitions

* `Hub`, `Hub.step` — the machine
* `Hub.entries` — what a topic holds for a connection
* `Hub.Bookkept`

## Main results

* `Hub.effect_of_frame` — what the handling of a frame does to the topics
* `Hub.Inv.step`
* `subscription_bookkeeping`
-/

namespace Epx

open Codec Transition

/-- Where the thread of a connection is in `handle_connection`. -/
inductive ThreadPhase where
  /-- Before the loop. -/
  | waiting
  | serving
  /-- The loop was left. -/
  | left
  /-- `alive` was cleared, and the subscriptions of `rest` are still to be gone through. -/
  | detaching (rest : List (ℕ × UInt64))
  | returned
  deriving DecidableEq

/-- The connections of a host and its topics, both numbered. -/
structure Hub where
  phase : ℕ → ThreadPhase := fun _ => .waiting
  conns : ℕ → LoopState
  topics : ℕ → Topic := fun _ => {}

/-- What a call of a connection does to the topics. -/
def HandlerCall.onTopics (c : ℕ) (topics : ℕ → Topic) : HandlerCall → ℕ → Topic
  | .subscribe _ topic requestId =>
    Function.update topics topic ((topics topic).add c requestId)
  | .unsubscribe topic requestId =>
    Function.update topics topic ((topics topic).remove c requestId)
  | _ => topics

namespace Hub

/-- What the threads of a host can do next. -/
inductive Act where
  /-- The handshake is done, and the loop starts. -/
  | accept (c : ℕ)
  /-- There was no session. -/
  | refuse (c : ℕ)
  /-- A frame was read. -/
  | frame (c : ℕ) (f : RawFrame) (env : Pass)
  /-- No frame was read, or the host is stopping. -/
  | quit (c : ℕ)
  /-- `cs->alive.store(false)` after the loop. -/
  | shutdown (c : ℕ)
  /-- `remove_conn` on the next topic of `my_subs`. -/
  | detach (c : ℕ)
  /-- `handle_connection` returns. -/
  | finish (c : ℕ)
  | publish (topic : ℕ) (message : Bytes) (ok : ℕ → Bool)
  | heartbeat (topic : ℕ) (ok : ℕ → Bool)
  | closeAll (topic : ℕ) (ok : ℕ → Bool)

/-- Each connection is in the state in which its loop starts. -/
def start (cfg : HostConfig) (run : ℕ → ServerRun) (acc : ℕ → Accept)
    (hs : ℕ → HandshakeResult) : Hub :=
  { conns := fun c => .start cfg (run c) (acc c) (hs c) }

section

variable (S : Sodium) (cfg : HostConfig)

def setPhase (h : Hub) (c : ℕ) (phase : ThreadPhase) : Hub :=
  { h with phase := Function.update h.phase c phase }

/-- The hub after a pass of a connection with outcome `o`. -/
def handled (h : Hub) (c : ℕ) (o : Outcome) : Hub :=
  { phase := Function.update h.phase c (match o with | .next _ => .serving | .stop _ => .left)
    conns := Function.update h.conns c o.state
    topics := (o.state.calls.drop (h.conns c).calls.length).foldl (HandlerCall.onTopics c)
      h.topics }

/-- `cs->alive.store(false)`. -/
def kill (h : Hub) (c : ℕ) : Hub :=
  { h with
    conns := Function.update h.conns c
      { h.conns c with conn := { (h.conns c).conn with alive := false } } }

/-- The hub after an operation on a topic. -/
def setTopic (h : Hub) (topic : ℕ) (t : Topic) (conns : ℕ → LoopState) : Hub :=
  { h with conns := conns, topics := Function.update h.topics topic t }

def step (h : Hub) : Act → Option Hub
  | .accept c =>
    match h.phase c with
    | .waiting => some (h.setPhase c .serving)
    | _ => none
  | .refuse c =>
    match h.phase c with
    | .waiting => some (h.setPhase c .returned)
    | _ => none
  | .frame c f env =>
    match h.phase c, pass S cfg env (h.conns c) f with
    | .serving, .ok o => some (h.handled c o)
    | _, _ => none
  | .quit c =>
    match h.phase c with
    | .serving => some (h.setPhase c .left)
    | _ => none
  | .shutdown c =>
    match h.phase c with
    | .left =>
      some ((h.kill c).setPhase c (.detaching (h.conns c).mySubs))
    | _ => none
  | .detach c =>
    match h.phase c with
    | .detaching (sub :: rest) =>
      some ((h.setTopic sub.1 ((h.topics sub.1).removeConn c) h.conns).setPhase c
        (.detaching rest))
    | _ => none
  | .finish c =>
    match h.phase c with
    | .detaching [] => some (h.setPhase c .returned)
    | _ => none
  | .publish topic message ok =>
    let (t, conns, _) := (h.topics topic).publish S message ok h.conns
    some (h.setTopic topic t conns)
  | .heartbeat topic ok =>
    let (t, conns) := (h.topics topic).heartbeat ok h.conns
    some (h.setTopic topic t conns)
  | .closeAll topic ok =>
    let (t, conns) := (h.topics topic).closeAll S ok h.conns
    some (h.setTopic topic t conns)

/-- The steps of a host. -/
def Step : Hub → Act → Hub → Prop := OfFun (step S cfg)

end

/-! ### What is claimed of every state -/

/-- What a topic holds for a connection, as `my_subs` would have it. -/
def entries (h : Hub) (c topic : ℕ) : Multiset (ℕ × UInt64) :=
  ((h.topics topic).subsOf c).map fun s => (topic, s.requestId)

/-- The two places in which subscriptions are kept agree as far as they have to. -/
structure Bookkept (S : Sodium) (cfg : HostConfig) (h : Hub) : Prop where
  /-- Over any topics, the entries of a connection are among its `my_subs`. -/
  contained : ∀ c (topics : Finset ℕ), ∑ t ∈ topics, h.entries c t ≤ ↑(h.conns c).mySubs
  /-- Their number stays within the limit. -/
  limited : cfg.limits.maxSubscriptions > 0 → ∀ c (topics : Finset ℕ),
    (∑ t ∈ topics, h.entries c t).card ≤ cfg.limits.maxSubscriptions.toNat
  /-- A frame of one connection does not touch what topics hold for another. -/
  foreign : ∀ c f env h', Step S cfg h (.frame c f env) h' → ∀ c', c' ≠ c → ∀ t,
    (h'.topics t).subsOf c' = (h.topics t).subsOf c'
  /-- Nothing is left of a connection whose thread has returned. -/
  detached : ∀ c, h.phase c = .returned → ∀ t, (h.topics t).subsOf c = []

/-! ### What a step does -/

/-- One constructor for each step, with the conditions under which it is taken. -/
inductive Effect (S : Sodium) (cfg : HostConfig) (h : Hub) : Act → Hub → Prop
  | accept {c : ℕ} : h.phase c = .waiting → Effect S cfg h (.accept c) (h.setPhase c .serving)
  | refuse {c : ℕ} : h.phase c = .waiting → Effect S cfg h (.refuse c) (h.setPhase c .returned)
  | frame {c : ℕ} {f : RawFrame} {env : Pass} {o : Outcome} : h.phase c = .serving →
      pass S cfg env (h.conns c) f = .ok o → Effect S cfg h (.frame c f env) (h.handled c o)
  | quit {c : ℕ} : h.phase c = .serving → Effect S cfg h (.quit c) (h.setPhase c .left)
  | shutdown {c : ℕ} : h.phase c = .left →
      Effect S cfg h (.shutdown c) ((h.kill c).setPhase c (.detaching (h.conns c).mySubs))
  | detach {c : ℕ} {sub : ℕ × UInt64} {rest : List (ℕ × UInt64)} :
      h.phase c = .detaching (sub :: rest) →
      Effect S cfg h (.detach c)
        ((h.setTopic sub.1 ((h.topics sub.1).removeConn c) h.conns).setPhase c (.detaching rest))
  | finish {c : ℕ} : h.phase c = .detaching [] →
      Effect S cfg h (.finish c) (h.setPhase c .returned)
  | publish {topic : ℕ} {message : Bytes} {ok : ℕ → Bool} :
      Effect S cfg h (.publish topic message ok)
        (h.setTopic topic ((h.topics topic).publish S message ok h.conns).1
          ((h.topics topic).publish S message ok h.conns).2.1)
  | heartbeat {topic : ℕ} {ok : ℕ → Bool} :
      Effect S cfg h (.heartbeat topic ok)
        (h.setTopic topic ((h.topics topic).heartbeat ok h.conns).1
          ((h.topics topic).heartbeat ok h.conns).2)
  | closeAll {topic : ℕ} {ok : ℕ → Bool} :
      Effect S cfg h (.closeAll topic ok)
        (h.setTopic topic ((h.topics topic).closeAll S ok h.conns).1
          ((h.topics topic).closeAll S ok h.conns).2)

theorem effect_of_step {S : Sodium} {cfg : HostConfig} {h h' : Hub} {a : Act}
    (hstep : Step S cfg h a h') : Effect S cfg h a h' := by
  rw [Step, OfFun] at hstep
  cases a with
  | accept c | refuse c | quit c | shutdown c | finish c =>
    simp only [step] at hstep
    split at hstep
    · next hphase =>
      cases hstep
      constructor
      exact hphase
    · cases hstep
  | frame c f env =>
    simp only [step] at hstep
    split at hstep
    · next o hphase hpass =>
      cases hstep
      exact .frame hphase hpass
    · cases hstep
  | detach c =>
    simp only [step] at hstep
    split at hstep
    · next sub rest hphase =>
      cases hstep
      exact .detach hphase
    · cases hstep
  | publish topic message ok =>
    cases hstep
    exact .publish
  | heartbeat topic ok =>
    cases hstep
    exact .heartbeat
  | closeAll topic ok =>
    cases hstep
    exact .closeAll


/-- One constructor for each way in which the handling of a frame can change the subscriptions, with
the calls that are made. -/
inductive FrameEffect (cfg : HostConfig) (h : Hub) (c : ℕ) :
    List HandlerCall → List (ℕ × UInt64) → (ℕ → Topic) → Prop
  | idle {calls : List HandlerCall} : FrameEffect cfg h c calls (h.conns c).mySubs h.topics
  | unsubscribed {sub : ℕ × UInt64} : sub ∈ (h.conns c).mySubs →
      FrameEffect cfg h c [.unsubscribe sub.1 sub.2] ((h.conns c).mySubs.erase sub)
        (Function.update h.topics sub.1 ((h.topics sub.1).remove c sub.2))
  | subscribed {endpoint : Bytes} {t : ℕ} {requestId : UInt64} :
      (cfg.limits.maxSubscriptions > 0 →
        (h.conns c).mySubs.length < cfg.limits.maxSubscriptions.toNat) →
      FrameEffect cfg h c [.subscribe endpoint t requestId]
        ((h.conns c).mySubs ++ [(t, requestId)])
        (Function.update h.topics t ((h.topics t).add c requestId))

section

variable {S : Sodium} {cfg : HostConfig} {h h' : Hub} {c : ℕ}

theorem onTopics_of_handles {endpoint : Bytes} {call : HandlerCall}
    (hcall : call.Handles endpoint) (topics : ℕ → Topic) : call.onTopics c topics = topics := by
  cases hcall <;> rfl

/-- **What the handling of a frame does** to `my_subs` and to the topics. -/
theorem effect_of_frame {f : RawFrame} {env : Pass} {o : Outcome}
    (hpass : pass S cfg env (h.conns c) f = .ok o) :
    FrameEffect cfg h c (o.state.calls.drop (h.conns c).calls.length) o.state.mySubs
      (h.handled c o).topics := by
  have heff := effect_of_pass hpass
  have htopics : (h.handled c o).topics
      = (o.state.books.calls.drop (h.conns c).calls.length).foldl (HandlerCall.onTopics c)
        h.topics := rfl
  rw [htopics, show o.state.mySubs = o.state.books.mySubs from rfl,
    show o.state.calls = o.state.books.calls from rfl]
  generalize o.state.books = b at heff
  cases heff with
  | idle | denied _ =>
    simp only [LoopState.books, List.drop_length, List.foldl_nil]
    exact .idle
  | unsubscribed hsub =>
    rw [List.drop_left, List.foldl_cons, List.foldl_nil]
    exact .unsubscribed hsub
  | subscribed _ _ hlimit _ =>
    rw [List.drop_left, List.foldl_cons, List.foldl_nil]
    exact .subscribed hlimit
  | @served endpoint _ _ call _ hcall =>
    have hnone : (call.toList).foldl (HandlerCall.onTopics c) h.topics = h.topics := by
      cases call with
      | none => rfl
      | some x => exact onTopics_of_handles (hcall x rfl) h.topics
    rw [List.drop_left, hnone]
    exact .idle

/-! ### The invariant -/

/-- A topic holds no more for a connection than `my_subs` has; `my_subs` is within the limit; and
what is left of a connection on its way out is still to be gone through. -/
structure Inv (cfg : HostConfig) (h : Hub) : Prop where
  contained : ∀ c t id, (h.topics t).keys.count (c, id) ≤ (h.conns c).mySubs.count (t, id)
  limited : cfg.limits.maxSubscriptions > 0 → ∀ c,
    (h.conns c).mySubs.length ≤ cfg.limits.maxSubscriptions.toNat
  waiting : ∀ c, h.phase c = .waiting → (h.conns c).mySubs = []
  detaching : ∀ c rest, h.phase c = .detaching rest → ∀ t id, (c, id) ∈ (h.topics t).keys →
    t ∈ rest.map Prod.fst
  returned : ∀ c, h.phase c = .returned → ∀ t id, (c, id) ∉ (h.topics t).keys

theorem inv_start (run : ℕ → ServerRun) (acc : ℕ → Accept) (hs : ℕ → HandshakeResult) :
    (start cfg run acc hs).Inv cfg where
  contained _ _ _ := Nat.zero_le _
  limited _ _ := Nat.zero_le _
  waiting _ _ := rfl
  detaching _ _ h := by cases h
  returned _ h := by cases h

theorem Inv.mem_mySubs (hinv : h.Inv cfg) {t : ℕ} {id : UInt64}
    (hmem : (c, id) ∈ (h.topics t).keys) : (t, id) ∈ (h.conns c).mySubs := by
  have hpos := List.count_pos_iff.mpr hmem
  exact List.count_pos_iff.mp (hpos.trans_le (hinv.contained c t id))

/-- A step that only takes subscribers away from topics. -/
theorem Inv.of_sublist (hinv : h.Inv cfg) {conns : ℕ → LoopState} {topics : ℕ → Topic}
    (hconns : ∀ c, (conns c).mySubs = (h.conns c).mySubs)
    (hkeys : ∀ t, (topics t).keys.Sublist (h.topics t).keys) :
    Inv cfg { h with conns := conns, topics := topics } where
  contained c t id := by
    rw [hconns]
    exact ((hkeys t).count_le _).trans (hinv.contained c t id)
  limited hpos c := by
    rw [hconns]
    exact hinv.limited hpos c
  waiting c hc := (hconns c).trans (hinv.waiting c hc)
  detaching c rest hc t id hmem := hinv.detaching c rest hc t id ((hkeys t).subset hmem)
  returned c hc t id hmem := hinv.returned c hc t id ((hkeys t).subset hmem)

/-- A thread moves on to a phase whose condition is met. -/
theorem Inv.setPhase (hinv : h.Inv cfg) {phase : ThreadPhase} (hwait : phase ≠ .waiting)
    (hdetach : ∀ rest, phase = .detaching rest → ∀ t id, (c, id) ∈ (h.topics t).keys →
      t ∈ rest.map Prod.fst)
    (hreturned : phase = .returned → ∀ t id, (c, id) ∉ (h.topics t).keys) :
    (h.setPhase c phase).Inv cfg := by
  have hphase : ∀ c', c' ≠ c → (h.setPhase c phase).phase c' = h.phase c' :=
    fun c' hne => Function.update_of_ne hne _ _
  have hself : (h.setPhase c phase).phase c = phase := Function.update_self _ _ _
  refine ⟨hinv.contained, hinv.limited, ?_, ?_, ?_⟩
  · intro c' hc
    by_cases hne : c' = c
    · subst hne
      exact absurd (hself.symm.trans hc) hwait
    · exact hinv.waiting c' ((hphase c' hne).symm.trans hc)
  · intro c' rest hc
    by_cases hne : c' = c
    · subst hne
      exact hdetach rest (hself.symm.trans hc)
    · exact hinv.detaching c' rest ((hphase c' hne).symm.trans hc)
  · intro c' hc
    by_cases hne : c' = c
    · subst hne
      exact hreturned (hself.symm.trans hc)
    · exact hinv.returned c' ((hphase c' hne).symm.trans hc)

theorem keys_update_sublist {topics : ℕ → Topic} {topic : ℕ} {t : Topic}
    (hkeys : t.keys.Sublist (topics topic).keys) (t' : ℕ) :
    (Function.update topics topic t t').keys.Sublist (topics t').keys := by
  rw [Function.update_apply]
  split
  · next heq => rwa [heq]
  · exact List.Sublist.refl _

/-- A sweep over the subscribers of a topic that leaves no others behind. -/
theorem Inv.of_sweep (hinv : h.Inv cfg) {send : TopicSub → LoopState → Bool → Attempt}
    (htame : Tame send) {topic : ℕ} {t : Topic} {ok : ℕ → Bool}
    (hkeys : t.keys.Sublist (h.topics topic).keys) :
    (h.setTopic topic t (sweep send (h.topics topic).subs ok h.conns).conns).Inv cfg :=
  hinv.of_sublist (fun c => congrArg Books.mySubs (books_sweep htame _ ok h.conns c))
    (keys_update_sublist hkeys)

theorem FrameEffect.foreign {calls : List HandlerCall} {subs : List (ℕ × UInt64)}
    {topics : ℕ → Topic} (heff : FrameEffect cfg h c calls subs topics) {c' : ℕ} (hne : c' ≠ c)
    (t : ℕ) :
    (topics t).subsOf c' = (h.topics t).subsOf c' := by
  cases heff with
  | idle => rfl
  | unsubscribed _ =>
    rw [Function.update_apply]
    split
    · next heq => rw [heq, Topic.subsOf_remove hne]
    · rfl
  | subscribed _ =>
    rw [Function.update_apply]
    split
    · next heq => rw [heq, Topic.subsOf_add hne]
    · rfl

/-- The connection whose frame was handled loses or gains the same entry in both places. -/
theorem FrameEffect.contained {calls : List HandlerCall} {subs : List (ℕ × UInt64)}
    {topics : ℕ → Topic} (heff : FrameEffect cfg h c calls subs topics) (hinv : h.Inv cfg)
    (t : ℕ) (id : UInt64) :
    (topics t).keys.count (c, id) ≤ subs.count (t, id) := by
  have hold := hinv.contained c t id
  cases heff with
  | idle => exact hold
  | @unsubscribed sub _ =>
    obtain ⟨topic, requestId⟩ := sub
    by_cases ht : t = topic
    · subst ht
      rw [Function.update_self, Topic.keys_remove]
      by_cases hid : id = requestId
      · subst hid
        rw [List.count_erase_self, List.count_erase_self]
        exact Nat.sub_le_sub_right hold 1
      · rw [List.count_erase_of_ne (by simpa using hid),
          List.count_erase_of_ne (by simpa using hid)]
        exact hold
    · rw [Function.update_of_ne ht, List.count_erase_of_ne (by simp [ht])]
      exact hold
  | @subscribed _ topic requestId _ =>
    rw [List.count_append]
    by_cases ht : t = topic
    · subst ht
      rw [Function.update_self, Topic.keys_add, List.count_append]
      have hone : [(c, requestId)].count (c, id) = [(t, requestId)].count (t, id) := by
        simp [List.count_singleton]
      omega
    · rw [Function.update_of_ne ht]
      omega

theorem FrameEffect.limited {calls : List HandlerCall} {subs : List (ℕ × UInt64)}
    {topics : ℕ → Topic} (heff : FrameEffect cfg h c calls subs topics) (hinv : h.Inv cfg)
    (hpos : cfg.limits.maxSubscriptions > 0) :
    subs.length ≤ cfg.limits.maxSubscriptions.toNat := by
  have hold := hinv.limited hpos c
  cases heff with
  | idle => exact hold
  | unsubscribed _ => exact List.length_erase_le.trans hold
  | subscribed hlimit =>
    rw [List.length_append, List.length_singleton]
    exact hlimit hpos

theorem Inv.frame (hinv : h.Inv cfg) {f : RawFrame} {env : Pass} {o : Outcome}
    (hpass : pass S cfg env (h.conns c) f = .ok o) : (h.handled c o).Inv cfg := by
  have heff := effect_of_frame hpass
  have hself : (h.handled c o).conns c = o.state := Function.update_self _ _ _
  have hconns : ∀ c', c' ≠ c → (h.handled c o).conns c' = h.conns c' :=
    fun c' hne => Function.update_of_ne hne _ _
  have hkeys : ∀ c', c' ≠ c → ∀ t id, ((h.handled c o).topics t).keys.count (c', id)
      = (h.topics t).keys.count (c', id) := by
    intro c' hne t id
    rw [Topic.count_keys, Topic.count_keys, heff.foreign hne]
  have hmem : ∀ c', c' ≠ c → ∀ t id, (c', id) ∈ ((h.handled c o).topics t).keys →
      (c', id) ∈ (h.topics t).keys := by
    intro c' hne t id hin
    rw [← List.count_pos_iff, hkeys c' hne] at hin
    exact List.count_pos_iff.mp hin
  have hphase : ∀ c', c' ≠ c → (h.handled c o).phase c' = h.phase c' :=
    fun c' hne => Function.update_of_ne hne _ _
  have hrunning : (h.handled c o).phase c = .serving ∨ (h.handled c o).phase c = .left := by
    cases o with
    | next st => exact Or.inl (Function.update_self _ _ _)
    | stop st => exact Or.inr (Function.update_self _ _ _)
  have hne_of : ∀ {c' phase}, (h.handled c o).phase c' = phase → phase ≠ .serving →
      phase ≠ .left → c' ≠ c := by
    rintro c' phase hc hserving hleft rfl
    rcases hrunning with hr | hr
    · exact hserving (hc.symm.trans hr)
    · exact hleft (hc.symm.trans hr)
  refine ⟨?_, ?_, ?_, ?_, ?_⟩
  · intro c' t id
    by_cases hne : c' = c
    · subst hne
      rw [hself]
      exact heff.contained hinv t id
    · rw [hconns c' hne, hkeys c' hne]
      exact hinv.contained c' t id
  · intro hpos c'
    by_cases hne : c' = c
    · subst hne
      rw [hself]
      exact heff.limited hinv hpos
    · rw [hconns c' hne]
      exact hinv.limited hpos c'
  · intro c' hc
    have hne := hne_of hc (by simp) (by simp)
    rw [hconns c' hne]
    exact hinv.waiting c' ((hphase c' hne).symm.trans hc)
  · intro c' rest hc t id hin
    have hne := hne_of hc (by simp) (by simp)
    exact hinv.detaching c' rest ((hphase c' hne).symm.trans hc) t id (hmem c' hne t id hin)
  · intro c' hc t id hin
    have hne := hne_of hc (by simp) (by simp)
    exact hinv.returned c' ((hphase c' hne).symm.trans hc) t id (hmem c' hne t id hin)

theorem Inv.kill (hinv : h.Inv cfg) : (h.kill c).Inv cfg := by
  refine hinv.of_sublist (fun c' => ?_) fun _ => List.Sublist.refl _
  rw [Function.update_apply]
  split
  · next heq => rw [heq]
  · rfl

/-- `remove_conn` on the next topic of `my_subs`. -/
theorem Inv.detach (hinv : h.Inv cfg) {sub : ℕ × UInt64} {rest : List (ℕ × UInt64)}
    (hphase : h.phase c = .detaching (sub :: rest)) :
    ((h.setTopic sub.1 ((h.topics sub.1).removeConn c) h.conns).setPhase c
      (.detaching rest)).Inv cfg := by
  have hkeys : ((h.topics sub.1).removeConn c).keys.Sublist (h.topics sub.1).keys := by
    rw [Topic.keys_removeConn]
    exact List.filter_sublist
  have hinv' : (h.setTopic sub.1 ((h.topics sub.1).removeConn c) h.conns).Inv cfg :=
    hinv.of_sublist (fun _ => rfl) (keys_update_sublist hkeys)
  refine hinv'.setPhase (by simp) ?_ (by simp)
  rintro _ ⟨rfl⟩ t id hmem
  have hold : (c, id) ∈ (h.topics t).keys := (keys_update_sublist hkeys t).subset hmem
  rcases List.mem_cons.mp (hinv.detaching c _ hphase t id hold) with rfl | hrest
  · -- the topic that was just gone through holds nothing more for the connection
    have hgone : (c, id) ∈ ((h.topics sub.1).removeConn c).keys := by
      simpa only [setTopic, Function.update_self] using hmem
    rw [Topic.keys_removeConn] at hgone
    simpa using List.of_mem_filter hgone
  · exact hrest

/-- **Every step keeps the books.** -/
theorem Inv.step (hinv : h.Inv cfg) {a : Act} (hstep : Step S cfg h a h') : h'.Inv cfg := by
  cases effect_of_step hstep with
  | accept hphase => exact hinv.setPhase (by simp) (by simp) (by simp)
  | refuse hphase =>
    refine hinv.setPhase (by simp) (by simp) fun _ t id hmem => ?_
    have hin := hinv.mem_mySubs hmem
    rw [hinv.waiting _ hphase] at hin
    cases hin
  | frame hphase hpass => exact hinv.frame hpass
  | quit hphase => exact hinv.setPhase (by simp) (by simp) (by simp)
  | shutdown hphase =>
    refine hinv.kill.setPhase (by simp) ?_ (by simp)
    rintro _ ⟨rfl⟩ t id hmem
    exact List.mem_map_of_mem (hinv.mem_mySubs hmem)
  | detach hphase => exact hinv.detach hphase
  | finish hphase =>
    refine hinv.setPhase (by simp) (by simp) fun _ t id hmem => ?_
    have hin := hinv.detaching _ _ hphase t id hmem
    cases hin
  | publish => exact hinv.of_sweep (tame_sendMessage _) (keys_sweep (tame_sendMessage _) _ _ _)
  | heartbeat => exact hinv.of_sweep tame_sendHeartbeat (keys_sweep tame_sendHeartbeat _ _ _)
  | closeAll => exact hinv.of_sweep (tame_sendChunk _ _) (List.nil_sublist _)

theorem inv_of_run {run : ℕ → ServerRun} {acc : ℕ → Accept} {hs : ℕ → HandshakeResult}
    {acts : List Act} (hrun : Run (Step S cfg) (start cfg run acc hs) acts h) : h.Inv cfg :=
  hrun.preserves (inv_start run acc hs) fun _ _ _ hinv hstep => hinv.step hstep

-- `Multiset.coe_count` counts with the equality of pairs, `List.count` with that of their parts
theorem count_coe (l : List (ℕ × UInt64)) (x : ℕ × UInt64) :
    (l : Multiset (ℕ × UInt64)).count x = l.count x := by
  rw [Multiset.coe_count]
  simp only [List.count_eq_countP, Bool.beq_eq_decide_eq]

theorem count_entries (t t' : ℕ) (id : UInt64) :
    (h.entries c t).count (t', id) = if t' = t then (h.topics t).keys.count (c, id) else 0 := by
  rw [entries]
  rw [count_coe]
  split
  · next heq =>
    subst heq
    rw [Topic.count_keys]
    simp only [List.count_eq_countP, List.countP_map]
    congr 1
    funext s
    simp
  · next hne =>
    refine List.count_eq_zero.mpr fun hmem => hne ?_
    obtain ⟨s, -, hs⟩ := List.mem_map.mp hmem
    exact (congrArg Prod.fst hs).symm

theorem Inv.entries_le (hinv : h.Inv cfg) (topics : Finset ℕ) :
    ∑ t ∈ topics, h.entries c t ≤ ↑(h.conns c).mySubs := by
  refine Multiset.le_iff_count.mpr ?_
  rintro ⟨t, id⟩
  rw [Multiset.count_sum', count_coe]
  simp only [count_entries]
  rw [Finset.sum_ite_eq]
  split
  · exact hinv.contained c t id
  · exact Nat.zero_le _

end

end Hub

/-- **The books of the subscriptions.** After every sequence of frames on any number of connections,
interleaved with publishing, heartbeats and the closing of topics in any way,

* what the topics hold for a connection is, with multiplicities, among its `my_subs`;
* it is not more than the limit on subscriptions, where there is one;
* no frame of a connection, an unsubscribe in particular, changes what a topic holds for another;
* no topic holds anything for a connection whose `handle_connection` has returned. -/
theorem subscription_bookkeeping (S : Sodium) (cfg : HostConfig) (run : ℕ → ServerRun)
    (acc : ℕ → Accept) (hs : ℕ → HandshakeResult) {acts : List Hub.Act} {h : Hub}
    (hrun : Run (Hub.Step S cfg) (.start cfg run acc hs) acts h) : h.Bookkept S cfg := by
  have hinv := Hub.inv_of_run hrun
  refine ⟨fun c topics => hinv.entries_le topics, ?_, ?_, ?_⟩
  · intro hpos c topics
    have hcard := Multiset.card_le_card (hinv.entries_le (c := c) topics)
    rw [Multiset.coe_card] at hcard
    exact hcard.trans (hinv.limited hpos c)
  · intro c f env h' hstep c' hne t
    cases Hub.effect_of_step hstep with
    | frame hphase hpass => exact (Hub.effect_of_frame hpass).foreign hne t
  · intro c hphase t
    exact Topic.not_mem_keys.mp fun id => hinv.returned c hphase t id

/-! ### Two connections that use the same request id -/

namespace SameRequestId

def sodium : Sodium := .symbolic []

/-- A host with at most two subscriptions for a connection. -/
def config : HostConfig :=
  { serviceName := [115], policy := .allowAll, limits := { maxSubscriptions := 2 } }

def serverRun : ServerRun :=
  { self := ⟨Block.fill 32 4, Block.fill 64 4⟩, serviceName := [115], myMax := 2
    ephemeral := ⟨Block.fill 32 5, Block.fill 32 5⟩, serverNonce := Block.fill 16 6 }

def view : HostView :=
  { allowedPeers := [], issuers := [], creds := [], now := 0, prompt := none
    isKnownClient := fun _ => false, loadAuthzDecision := fun _ _ => none
    knownClientsDir := .ok (), authzDir := .ok () }

def accept : Accept := { admitted := true, peerUid := 0, view := view, ackWritten := true }

def result : HandshakeResult :=
  { keys := ⟨Block.fill 32 2, Block.fill 32 3⟩, peerIdentity := Block.fill 32 1, version := 2 }

/-- The endpoint `t` is topic 0. -/
def env : Pass :=
  { running := true, othersAlive := true, view := view
    handlers := [([116], { kind := .topic })], topics := [([116], 0)], token := true
    eph := serverRun.ephemeral, wrote := fun _ => true, unary := fun _ _ => ⟨true, [], []⟩
    streamSend := fun _ _ => [] }

/-- The request that a peer seals as its `n`-th. -/
def request (n : UInt64) (req : RequestPayload) : RawFrame :=
  ((⟨Block.fill 32 2, 0, n⟩ : TxState).call .request (encodeRequest req)).frame sodium true

def subscribe (c : ℕ) (n : UInt64) : Hub.Act :=
  .frame c (request n { requestId := 7, endpoint := [116] }) env

def unsubscribe (c : ℕ) (n : UInt64) : Hub.Act :=
  .frame c (request n { requestId := 8, endpoint := kUnsubscribeEndpoint, data := putU64 7 }) env

/-- Connection 0 subscribes three times under the same id, of which the last is refused, and
unsubscribes once; connection 1 subscribes under that id too. Then connection 0 goes away. -/
def acts : List Hub.Act :=
  [.accept 0, .accept 1, subscribe 0 0, subscribe 1 0, subscribe 0 1, subscribe 0 2,
    unsubscribe 0 3, .publish 0 [9] fun _ => true, .quit 0, .shutdown 0, .detach 0, .finish 0]

def hub : Hub := .start config (fun _ => serverRun) (fun _ => accept) fun _ => result

def hubEnd : Option Hub := exec (Hub.step sodium config) hub acts

theorem hubEnd_isSome : hubEnd.isSome = true := by decide +kernel

theorem hub_run : Run (Hub.Step sodium config) hub acts (hubEnd.get hubEnd_isSome) :=
  run_of_exec (Option.some_get hubEnd_isSome).symm

end SameRequestId

open SameRequestId

theorem subscription_bookkeeping_same_id :
    (hubEnd.get hubEnd_isSome).phase 0 = .returned ∧
    ((hubEnd.get hubEnd_isSome).topics 0).keys = [(1, 7)] ∧
    (hubEnd.get hubEnd_isSome).Bookkept sodium config :=
  ⟨by decide +kernel, by decide +kernel,
    subscription_bookkeeping sodium config (fun _ => serverRun) (fun _ => accept)
      (fun _ => result) hub_run⟩

end Epx
