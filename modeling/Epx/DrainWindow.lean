import Epx.Drain

/-!
# The drain window

The machine of `Epx.Drain` under the condition that no thread comes to the condition of its loop
from the moment in which `stop` is entered until it has told the connection everything. What is kept
of a connection that was there: its thread has left the loop, or the connection was closed, only if
the client has parted or the hooks have returned and every subscription was told. What is kept of a
subscription that was there: it is still in its topic, or it has been told, or its client has
dropped it.

## Main definitions

* `Drain.ConnOk`, `Drain.Inv`

## Main results

* `Drain.Inv.step`
* `before_stop_drains`
* `stop_cuts_connection`
-/

namespace Epx

open Codec Transition

/-! ### Subscriptions that end -/

section

variable {S : Sodium} {conns : ℕ → LoopState} {t t' : Topic}

/-- A subscription is in its topic or among those that have ended. -/
theorem Topic.count_changes (hchange : Topic.Changes S conns t t') (x : (ℕ × UInt64) × ℕ) :
    (Drain.tickets t.subs).count x ≤ (Drain.tickets t'.subs).count x +
      (Drain.tickets ((t'.ended.drop t.ended.length).map Prod.fst)).count x := by
  obtain ⟨new, hnew⟩ := (Topic.prefix_of_changes hchange).2
  rw [← hnew, List.drop_left]
  rcases Topic.tickets_changes hchange with hperm | ⟨c, requestId, rfl⟩
  · have hcount := hperm.count_eq x
    simp only [Topic.all, ← hnew, List.map_append, List.count_append] at hcount
    simp only [Drain.tickets]
    omega
  · simp only [Drain.tickets, Topic.add, List.map_append, List.count_append]
    omega

end

/-! ### Threads -/

section

variable {S : Sodium} {cfg : HostConfig} {h h' : Hub} {a : Hub.Act} {c : ℕ}

/-- What a thread does after its loop, and what publishers, the heartbeat and `stop` do. -/
def Hub.Act.outside : Hub.Act → Bool
  | .accept _ | .refuse _ | .frame _ _ _ | .quit _ => false
  | _ => true

/-- Outside the loops, only threads that have left theirs move. -/
theorem Hub.phase_of_outside (hstep : Hub.Step S cfg h a h') (ha : a.outside = true) :
    h'.phase c = h.phase c ∨ (h.phase c).out = true ∧ (h'.phase c).out = true := by
  have hmoved : ∀ {c' : ℕ} {p : ThreadPhase}, (h.phase c').out = true → p.out = true →
      Function.update h.phase c' p c = h.phase c ∨
        (h.phase c).out = true ∧ (Function.update h.phase c' p c).out = true := by
    intro c' p hout hp
    by_cases hc : c = c'
    · subst hc
      rw [Function.update_self]
      exact Or.inr ⟨hout, hp⟩
    · rw [Function.update_of_ne hc]
      exact Or.inl rfl
  cases Hub.effect_of_step hstep with
  | accept _ | refuse _ | frame _ _ | quit _ => cases ha
  | shutdown hphase | detach hphase | finish hphase => exact hmoved (by rw [hphase]; rfl) rfl
  | publish | heartbeat | closeAll => exact Or.inl rfl

/-- A thread that has left its loop does not come back. -/
theorem Hub.out_of_step (hstep : Hub.Step S cfg h a h') (hout : (h.phase c).out = true) :
    (h'.phase c).out = true := by
  have hother : ∀ {c' : ℕ} {p q : ThreadPhase}, h.phase c' = p → p.out = false →
      (Function.update h.phase c' q c).out = true := by
    intro c' p q hphase hp
    have hne : c ≠ c' := by
      rintro rfl
      rw [hphase, hp] at hout
      cases hout
    rwa [Function.update_of_ne hne]
  cases ha : a.outside with
  | true =>
    rcases Hub.phase_of_outside (c := c) hstep ha with heq | ⟨_, hout'⟩
    · rwa [heq]
    · exact hout'
  | false =>
    cases Hub.effect_of_step hstep with
    | accept hphase | refuse hphase | frame hphase _ | quit hphase => exact hother hphase rfl
    | shutdown _ | detach _ | finish _ | publish | heartbeat | closeAll => cases ha

end

namespace Drain

/-! ### The invariant -/

section

variable (topicCount : ℕ) (s : Drain) (c : ℕ)

/-- The client has parted, or the hooks have returned and the connection was told everything. -/
def Settled : Prop :=
  s.parted c = true ∨ s.stage.window = false ∧ ∀ t < topicCount, s.AllTold c t

/-- Every subscription of the connection is in the topic, was told, or was dropped by its client. -/
def Kept (t : ℕ) : Prop :=
  ∀ x : (ℕ × UInt64) × ℕ, x.1.1 = c → (tickets (s.entry t).subs).count x
    ≤ (tickets (s.hub.topics t).subs).count x +
      ((tickets (s.told t)).count x + (tickets (s.dropped t)).count x)

/-- What holds of a connection that was there when `stop` was entered. -/
structure ConnOk : Prop where
  present : c ∈ s.live ++ s.accepted
  gone : (s.hub.phase c).out = true ∨ s.closed c = true → s.Settled topicCount c
  pending : s.stage.window = true → s.inbox c ≠ [] →
    s.parted c = true ∨ s.hub.phase c = .serving ∧ s.atCheck c = false ∧ (s.inbox c).length = 1
  kept : s.parted c = true ∨ ∀ t < topicCount, s.Kept c t
  done : s.parted c = true ∨ ∀ t < topicCount, s.stage.Past t → s.AllTold c t

structure Inv : Prop where
  up : s.running = true → s.stage = .up
  early : s.running = true → ∀ c, s.closed c = true → (s.hub.phase c).out = true
  conns : s.running = false → ∀ c ∈ s.existing, s.ConnOk topicCount c

end

/-- The host runs and has no connection yet. -/
theorem inv_start (topicCount : ℕ) (hub : Hub) : Inv topicCount { hub := hub } where
  up _ := rfl
  early _ _ h := by cases h
  conns h := by cases h

section

variable {S : Sodium} {cfg : HostConfig} {topicCount hooks : ℕ} {s s' : Drain} {c : ℕ}

theorem AllTold.kept {t : ℕ} (h : s.AllTold c t) : s.Kept c t :=
  fun x hx => (h x hx).trans (Nat.le_add_left _ _)

/-- Once nothing of the connection is left in the topic, everything was told. -/
theorem Kept.allTold {t : ℕ} (h : s.Kept c t) (hsubs : (s.hub.topics t).subsOf c = []) :
    s.AllTold c t := by
  intro x hx
  have hnone : (tickets (s.hub.topics t).subs).count x = 0 := by
    rw [List.count_eq_zero]
    intro hmem
    obtain ⟨sub, hsub, rfl⟩ := List.mem_map.mp hmem
    have hin : sub ∈ (s.hub.topics t).subsOf c := List.mem_filter.mpr ⟨hsub, decide_eq_true hx⟩
    rw [hsubs] at hin
    cases hin
  have hkept := h x hx
  omega

theorem ConnOk.of_parted (hpresent : c ∈ s.live ++ s.accepted) (hparted : s.parted c = true) :
    s.ConnOk topicCount c :=
  ⟨hpresent, fun _ => Or.inl hparted, fun _ _ => Or.inl hparted, Or.inl hparted, Or.inl hparted⟩

/-- `stop` has told the connection everything. -/
theorem ConnOk.settled_of_past (h : s.ConnOk topicCount c) (hpast : s.past c = true) :
    s.Settled topicCount c := by
  rcases h.kept with hparted | hkept
  · exact Or.inl hparted
  rcases h.done with hparted | hdone
  · exact Or.inl hparted
  rw [past] at hpast
  split at hpast
  · next topics hstage =>
    refine Or.inr ⟨by rw [hstage]; rfl, fun t ht => ?_⟩
    by_cases hmem : t ∈ topics
    · have hsubs := List.all_eq_true.mp hpast t hmem
      exact (hkept t ht).allTold (List.isEmpty_iff.mp hsubs)
    · exact hdone t ht (by rw [hstage]; exact hmem)
  · next conns hstage =>
    exact Or.inr ⟨by rw [hstage]; rfl, fun t ht => hdone t ht (by rw [hstage]; trivial)⟩
  · cases hpast

/-! ### Accounts -/

/-- Nothing is taken from what has been told and dropped. -/
theorem allTold_account {hub : Hub} {t : ℕ} (h : s.AllTold c t) : (s.account hub).AllTold c t := by
  intro x hx
  have hold := h x hx
  simp only [account, tickets, List.map_append, List.count_append]
  simp only [tickets] at hold
  omega

/-- A subscription that ends while its thread is in the loop is told, or dropped by its client. -/
theorem count_filter_saysLast (phase : ℕ → ThreadPhase) {x : (ℕ × UInt64) × ℕ}
    (hphase : (phase x.1.1).out = false) (subs : List TopicSub) :
    (tickets (subs.filter TopicSub.saysLast)).count x +
      (tickets (subs.filter fun sub => !sub.saysLast && !(phase sub.conn).out)).count x
      = (tickets subs).count x := by
  induction subs with
  | nil => rfl
  | cons sub subs ih =>
    simp only [tickets] at ih ⊢
    by_cases hx : sub.ticket = x
    · have hconn : (phase sub.conn).out = false := by
        subst hx
        exact hphase
      cases hlast : sub.saysLast <;>
        simp [hlast, hconn, hx] <;> omega
    · cases hlast : sub.saysLast <;> cases hconn : (phase sub.conn).out <;>
        simp [hlast, hconn, hx] <;> omega

/-- Whoever leaves a topic while its thread is in the loop is told, or has been dropped by its
client. -/
theorem kept_account {a : Hub.Act} {hub : Hub} (hstep : Hub.Step S cfg s.hub a hub) {t : ℕ}
    (hphase : (s.hub.phase c).out = false) (h : s.Kept c t) : (s.account hub).Kept c t := by
  intro x hx
  have hold := h x hx
  have hchange := Topic.count_changes (Hub.changes_of_step hstep t) x
  have hcount := count_filter_saysLast s.hub.phase (x := x) (by rw [hx]; exact hphase)
    (newEnds s.hub hub t)
  change _ ≤ _ + (tickets (newEnds s.hub hub t)).count x at hchange
  simp only [account, tickets, List.map_append, List.count_append]
  simp only [tickets] at hold hchange hcount
  omega

theorem ConnOk.kept_account {a : Hub.Act} {hub : Hub} (h : s.ConnOk topicCount c)
    (hstep : Hub.Step S cfg s.hub a hub) :
    s.parted c = true ∨ ∀ t < topicCount, (s.account hub).Kept c t := by
  cases hout : (s.hub.phase c).out with
  | true =>
    rcases h.gone (Or.inl hout) with hparted | ⟨_, htold⟩
    · exact Or.inl hparted
    · exact Or.inr fun t ht => (allTold_account (htold t ht)).kept
  | false =>
    exact h.kept.imp_right fun hkept t ht => Drain.kept_account hstep hout (hkept t ht)

/-! ### Steps of threads and clients -/

/-- What is to be shown of a connection whose own thread and client have not moved, or moved where
`hgone` and `hpending` allow it. -/
theorem ConnOk.next (h : s.ConnOk topicCount c) (hpresent : c ∈ s'.live ++ s'.accepted)
    (hstage : s'.stage = s.stage)
    (hparted : s.parted c = true → s'.parted c = true)
    (htold : ∀ t, s.AllTold c t → s'.AllTold c t)
    (hkept : s.parted c = true ∨ ∀ t < topicCount, s'.Kept c t)
    (hgone : (s'.hub.phase c).out = true ∨ s'.closed c = true →
      ((s.hub.phase c).out = true ∨ s.closed c = true) ∨ s.Settled topicCount c ∨
      s'.parted c = true)
    (hpending : s.stage.window = true → s'.inbox c ≠ [] → s'.parted c = true ∨
      s'.hub.phase c = .serving ∧ s'.atCheck c = false ∧ (s'.inbox c).length = 1) :
    s'.ConnOk topicCount c := by
  have hsettled : s.Settled topicCount c → s'.Settled topicCount c := by
    rintro (hold | ⟨hwindow, hold⟩)
    · exact Or.inl (hparted hold)
    · exact Or.inr ⟨by rw [hstage]; exact hwindow, fun t ht => htold t (hold t ht)⟩
  refine ⟨hpresent, fun hout => ?_, ?_, hkept.imp_left hparted, ?_⟩
  · rcases hgone hout with hold | hold | hold
    · exact hsettled (h.gone hold)
    · exact hsettled hold
    · exact Or.inl hold
  · rw [hstage]
    exact hpending
  · rw [hstage]
    exact h.done.imp hparted fun hdone t ht hpast => htold t (hdone t ht hpast)

/-- A connection whose own thread and client have not moved. -/
theorem ConnOk.other (h : s.ConnOk topicCount c) (hpresent : c ∈ s'.live ++ s'.accepted)
    (hstage : s'.stage = s.stage) (hphase : s'.hub.phase c = s.hub.phase c)
    (hclosed : s'.closed c = s.closed c)
    (hparted : s'.parted c = s.parted c) (hinbox : s'.inbox c = s.inbox c)
    (hcheck : s'.atCheck c = s.atCheck c) (htold : ∀ t, s.AllTold c t → s'.AllTold c t)
    (hkept : s.parted c = true ∨ ∀ t < topicCount, s'.Kept c t) : s'.ConnOk topicCount c := by
  refine h.next hpresent hstage (by rw [hparted]; exact id) htold hkept ?_ ?_
  · rw [hphase, hclosed]
    exact Or.inl
  · rw [hinbox, hparted, hphase, hcheck]
    exact h.pending

/-- A connection that may go goes: its thread leaves the loop, or it is closed. -/
theorem ConnOk.leave (h : s.ConnOk topicCount c) (hsettled : s.Settled topicCount c)
    (phase : ℕ → ThreadPhase) (closed : ℕ → Bool) :
    ConnOk topicCount { s with hub := { s.hub with phase := phase }, closed := closed } c := by
  refine h.next h.present rfl id (fun _ => id) h.kept (fun _ => Or.inr (Or.inl hsettled)) ?_
  intro hwindow _
  rcases hsettled with hparted | ⟨hover, _⟩
  · exact Or.inl hparted
  · rw [hwindow] at hover
    cases hover

theorem Inv.of_conns (h : s.Inv topicCount) (hrunning : s'.running = s.running)
    (hexisting : s'.existing = s.existing) (hstage : s.running = true → s'.stage = s.stage)
    (hout : ∀ c, (s.hub.phase c).out = true → (s'.hub.phase c).out = true)
    (hclosed : s.running = true → ∀ c, s'.closed c = true →
      s.closed c = true ∨ (s'.hub.phase c).out = true)
    (hconns : s.running = false → ∀ c ∈ s.existing, s.ConnOk topicCount c →
      s'.ConnOk topicCount c) :
    s'.Inv topicCount := by
  refine ⟨fun hr => ?_, fun hr c hc => ?_, fun hr c hc => ?_⟩
  · rw [hrunning] at hr
    rw [hstage hr]
    exact h.up hr
  · rw [hrunning] at hr
    rcases hclosed hr c hc with hold | hleft
    · exact hout c (h.early hr c hold)
    · exact hleft
  · rw [hrunning] at hr
    rw [hexisting] at hc
    exact hconns hr c hc (h.conns hr c hc)

/-- The thread of one connection moves, without an effect on topics. -/
theorem Inv.move {c' : ℕ} {p : ThreadPhase} {closed parted : ℕ → Bool} (h : s.Inv topicCount)
    (hclosed : ∀ c, c ≠ c' → closed c = s.closed c) (hparted : ∀ c, c ≠ c' → parted c = s.parted c)
    (hout : (s.hub.phase c').out = true → p.out = true)
    (hearly : closed c' = true → s.closed c' = true ∨ p.out = true)
    (hown : s.running = false → c' ∈ s.existing → s.ConnOk topicCount c' →
      ConnOk topicCount
        { s with hub := s.hub.setPhase c' p, closed := closed, parted := parted } c') :
    Inv topicCount { s with hub := s.hub.setPhase c' p, closed := closed, parted := parted } := by
  have hother : ∀ c, c ≠ c' → (s.hub.setPhase c' p).phase c = s.hub.phase c :=
    fun c hc => Function.update_of_ne hc ..
  have hsame : (s.hub.setPhase c' p).phase c' = p := Function.update_self ..
  refine h.of_conns rfl rfl (fun _ => rfl) (fun c hold => ?_) (fun _ c hnew => ?_)
    fun hr c hc hok => ?_
  · by_cases hcc : c = c'
    · subst hcc
      change ((s.hub.setPhase c p).phase c).out = true
      rw [hsame]
      exact hout hold
    · change ((s.hub.setPhase c' p).phase c).out = true
      rw [hother c hcc]
      exact hold
  · by_cases hcc : c = c'
    · subst hcc
      change _ ∨ ((s.hub.setPhase c p).phase c).out = true
      rw [hsame]
      exact hearly hnew
    · change closed c = true at hnew
      rw [hclosed c hcc] at hnew
      exact Or.inl hnew
  · by_cases hcc : c = c'
    · subst hcc
      exact hown hr hc hok
    · exact hok.other hok.present rfl (hother c hcc) (hclosed c hcc) (hparted c hcc) rfl rfl
        (fun _ => id) hok.kept

/-- What the condition says about a connection that was there. -/
theorem parted_or_of_guard {b : Bool} (hr : s.running = false) (hc : c ∈ s.existing)
    (hguard : (!s.held c || b) = true) : s.parted c = true ∨ b = true := by
  have hmem : s.existing.contains c = true := by simpa using hc
  rw [held, hr, hmem] at hguard
  cases hparted : s.parted c with
  | true => exact Or.inl rfl
  | false =>
    rw [hparted] at hguard
    exact Or.inr hguard

theorem Inv.accept {hub : Hub} (h : s.Inv topicCount)
    (hstep : Hub.Step S cfg s.hub (.accept c) hub) :
    Inv topicCount { s with hub := hub } := by
  cases Hub.effect_of_step hstep with
  | accept hphase =>
    refine h.move (fun _ _ => rfl) (fun _ _ => rfl) ?_ Or.inl fun hr hc hok => ?_
    · rw [hphase]
      nofun
    · have hserving : (s.hub.setPhase c .serving).phase c = .serving := Function.update_self ..
      refine hok.next hok.present rfl id (fun _ => id) hok.kept ?_ fun hwindow hinbox => ?_
      · rintro (hout | hclosed)
        · change ((s.hub.setPhase c .serving).phase c).out = true at hout
          rw [hserving] at hout
          cases hout
        · exact Or.inl (Or.inr hclosed)
      · rcases hok.pending hwindow hinbox with hparted | ⟨hserves, _⟩
        · exact Or.inl hparted
        · rw [hphase] at hserves
          cases hserves

theorem Inv.refuse {hub : Hub} (h : s.Inv topicCount)
    (hstep : Hub.Step S cfg s.hub (.refuse c) hub) :
    Inv topicCount { s with
      hub := hub
      closed := Function.update s.closed c true
      parted := Function.update s.parted c true } := by
  cases Hub.effect_of_step hstep with
  | refuse hphase =>
    refine h.move (fun _ hne => Function.update_of_ne hne ..)
      (fun _ hne => Function.update_of_ne hne ..)
      (fun _ => rfl) (fun _ => Or.inr rfl) fun hr hc hok => ?_
    exact .of_parted hok.present (Function.update_self ..)

theorem Inv.arrive {f : RawFrame} (h : s.Inv topicCount)
    (hguard : s.undisturbed cfg topicCount (.arrive c f) = true) :
    Inv topicCount { s with inbox := Function.update s.inbox c (s.inbox c ++ [f]) } := by
  refine h.of_conns rfl rfl (fun _ => rfl) (fun _ => id) (fun _ _ => Or.inl) fun hr c' hc hok => ?_
  by_cases hcc : c' = c
  · subst hcc
    refine hok.next hok.present rfl id (fun _ => id) hok.kept Or.inl fun hwindow _ => ?_
    rw [undisturbed, Bool.or_assoc] at hguard
    rcases parted_or_of_guard hr hc hguard with hparted | hblocked
    · exact Or.inl hparted
    · rw [hwindow, Bool.not_true, Bool.false_or, blocked, Bool.and_eq_true, Bool.and_eq_true]
        at hblocked
      obtain ⟨⟨hserving, hcheck⟩, hempty⟩ := hblocked
      have hone : (Function.update s.inbox c' (s.inbox c' ++ [f]) c').length = 1 := by
        rw [Function.update_self, List.isEmpty_iff.mp hempty]
        rfl
      exact Or.inr ⟨of_decide_eq_true hserving, by simpa using hcheck, hone⟩
  · exact hok.other hok.present rfl rfl rfl rfl (Function.update_of_ne hcc ..) rfl (fun _ => id)
      hok.kept

/-- The thread finds that the host is not running any more. -/
theorem Inv.check {hub : Hub} (h : s.Inv topicCount) (hstep : Hub.Step S cfg s.hub (.quit c) hub)
    (hguard : s.undisturbed cfg topicCount (.check c) = true) :
    Inv topicCount { s with hub := hub } := by
  cases Hub.effect_of_step hstep with
  | quit hphase =>
    refine h.move (fun _ _ => rfl) (fun _ _ => rfl) (fun _ => rfl) Or.inl fun hr hc hok => ?_
    have hsettled : s.Settled topicCount c := by
      rcases parted_or_of_guard hr hc hguard with hparted | hpast
      · exact Or.inl hparted
      · exact hok.settled_of_past hpast
    exact hok.leave hsettled _ _

theorem Inv.eof {hub : Hub} (h : s.Inv topicCount) (hstep : Hub.Step S cfg s.hub (.quit c) hub) :
    Inv topicCount { s with
      hub := hub
      parted := if s.closed c = true then s.parted else Function.update s.parted c true } := by
  cases Hub.effect_of_step hstep with
  | quit hphase =>
    by_cases hclosed : s.closed c = true
    · rw [if_pos hclosed]
      exact h.move (fun _ _ => rfl) (fun _ _ => rfl) (fun _ => rfl) Or.inl fun hr hc hok =>
        hok.leave (hok.gone (Or.inr hclosed)) _ _
    · rw [if_neg hclosed]
      exact h.move (fun _ _ => rfl) (fun _ hne => Function.update_of_ne hne ..) (fun _ => rfl)
        Or.inl
        fun hr hc hok => .of_parted hok.present (Function.update_self ..)

theorem Inv.finish {hub : Hub} (h : s.Inv topicCount)
    (hstep : Hub.Step S cfg s.hub (.finish c) hub) :
    Inv topicCount { s with hub := hub, closed := Function.update s.closed c true } := by
  cases Hub.effect_of_step hstep with
  | finish hphase =>
    have hout : (s.hub.phase c).out = true := by
      rw [hphase]
      rfl
    exact h.move (fun _ hne => Function.update_of_ne hne ..) (fun _ _ => rfl) (fun _ => rfl)
      (fun _ => Or.inr rfl) fun hr hc hok => hok.leave (hok.gone (Or.inl hout)) _ _

/-- Publishers, the heartbeat, `close_all`, and threads on their way out. -/
theorem Inv.account {a : Hub.Act} {hub : Hub} (h : s.Inv topicCount)
    (hstep : Hub.Step S cfg s.hub a hub) (ha : a.outside = true) :
    (s.account hub).Inv topicCount := by
  refine h.of_conns rfl rfl (fun _ => rfl) (fun c => Hub.out_of_step hstep) (fun _ _ => Or.inl)
    fun hr c hc hok => ?_
  rcases Hub.phase_of_outside (c := c) hstep ha with hphase | ⟨hout, _⟩
  · exact hok.other hok.present rfl hphase rfl rfl rfl rfl (fun _ => allTold_account)
      (hok.kept_account hstep)
  · have hsettled := hok.gone (Or.inl hout)
    refine hok.next hok.present rfl id (fun _ => allTold_account) (hok.kept_account hstep)
      (fun _ => Or.inr (Or.inl hsettled)) fun hwindow hinbox => ?_
    rcases hok.pending hwindow hinbox with hparted | ⟨hserving, _⟩
    · exact Or.inl hparted
    · rw [hserving] at hout
      cases hout

/-- A frame is read and handled. -/
theorem Inv.frame {hub : Hub} {env : Pass} {f : RawFrame} {rest : List RawFrame}
    (h : s.Inv topicCount) (hinbox : s.inbox c = f :: rest)
    (hstep : Hub.Step S cfg s.hub (.frame c f env) hub)
    (hguard : s.undisturbed cfg topicCount (.frame c env) = true) :
    Inv topicCount { s.account hub with
      inbox := Function.update s.inbox c rest
      atCheck := Function.update s.atCheck c true
      parted :=
        if hub.phase c = .left ∧ overLimit cfg env (s.hub.conns c) f = false then
          Function.update s.parted c true
        else s.parted } := by
  refine h.of_conns rfl rfl (fun _ => rfl) (fun c => Hub.out_of_step hstep) (fun _ _ => Or.inl)
    fun hr c' hc hok => ?_
  by_cases hcc : c' = c
  · subst hcc
    rw [undisturbed, hinbox, Bool.or_assoc] at hguard
    split_ifs with hleft
    · exact .of_parted hok.present (Function.update_self ..)
    have hsettled : (hub.phase c').out = true → s.Settled topicCount c' := by
      intro hout
      have hphase : hub.phase c' = .left := by
        cases Hub.effect_of_step hstep with
        | @frame _ _ _ o hserving hpass =>
          change (Function.update s.hub.phase c' _ c').out = true at hout
          change Function.update s.hub.phase c' _ c' = _
          rw [Function.update_self] at hout ⊢
          cases o with
          | next st => cases hout
          | stop st => rfl
      have hlimit : overLimit cfg env (s.hub.conns c') f = true := by
        simpa [hphase] using hleft
      rcases parted_or_of_guard hr hc hguard with hparted | hrest
      · exact Or.inl hparted
      · exact hok.settled_of_past (by simpa [hlimit] using hrest)
    refine hok.next hok.present rfl id (fun _ => allTold_account) (hok.kept_account hstep) ?_
      fun hwindow hleft' => ?_
    · rintro (hout | hclosed)
      · exact Or.inr (Or.inl (hsettled hout))
      · exact Or.inl (Or.inr hclosed)
    · have hmore : s.inbox c' ≠ [] := by simp [hinbox]
      rcases hok.pending hwindow hmore with hparted | ⟨_, _, hone⟩
      · exact Or.inl hparted
      · rw [hinbox, List.length_cons, Nat.add_eq_right, List.length_eq_zero_iff] at hone
        refine absurd ?_ hleft'
        change Function.update s.inbox c' rest c' = []
        rw [Function.update_self, hone]
  · have hphase : hub.phase c' = s.hub.phase c' := by
      cases Hub.effect_of_step hstep with
      | frame _ _ => exact Function.update_of_ne hcc ..
    refine hok.other hok.present rfl hphase rfl ?_ (Function.update_of_ne hcc ..)
      (Function.update_of_ne hcc ..) (fun _ => allTold_account) (hok.kept_account hstep)
    change (if _ then _ else _ : ℕ → Bool) c' = _
    split_ifs
    · exact Function.update_of_ne hcc ..
    · rfl

/-! ### Steps of `stop` -/

/-- `stop` is entered. Nothing has been closed but what has left its loop. -/
theorem Inv.stop (h : s.Inv topicCount) (hrunning : s.running = true)
    (hguard : s.undisturbed cfg topicCount .stop = true) :
    Inv topicCount { s with
      running := false
      stage := .hooks hooks
      existing := s.current
      entry := s.hub.topics
      told := fun _ => []
      dropped := fun _ => [] } := by
  refine ⟨nofun, nofun, fun _ c hc => ?_⟩
  obtain ⟨hpresent, hphase⟩ := List.mem_filter.mp hc
  have hin : (s.hub.phase c).out = false := by simpa using hphase
  rw [undisturbed, hrunning, Bool.not_true, Bool.false_or] at hguard
  refine ⟨hpresent, ?_, fun _ hinbox => Or.inr ?_, Or.inr fun t _ x _ => ?_,
    Or.inr fun _ _ => nofun⟩
  · rintro (hout | hclosed)
    · exact absurd (hin.symm.trans hout) (by decide)
    · exact absurd (hin.symm.trans (h.early hrunning c hclosed)) (by decide)
  · have hone := List.all_eq_true.mp hguard c hc
    have hsome : (s.inbox c).isEmpty = false := List.isEmpty_eq_false_iff.mpr hinbox
    rw [hsome, Bool.false_or, Bool.and_eq_true, Bool.and_eq_true] at hone
    obtain ⟨⟨hserving, hcheck⟩, hlength⟩ := hone
    exact ⟨of_decide_eq_true hserving, by simpa using hcheck, of_decide_eq_true hlength⟩
  · exact Nat.le_add_right ..

/-- `stop` goes on. It is done with a topic if it was, or if the topic has no subscribers. -/
theorem Inv.stage {stage : StopStage} (h : s.Inv topicCount) (hup : s.stage ≠ .up)
    (hwindow : stage.window = true → s.stage.window = true)
    (hpast : ∀ t < topicCount, stage.Past t → s.stage.Past t ∨ (s.hub.topics t).subs = []) :
    Inv topicCount { s with stage := stage } := by
  have hdown : s.running = false := by
    cases hr : s.running with
    | true => exact absurd (h.up hr) hup
    | false => rfl
  refine ⟨fun hr => ?_, fun hr => ?_, fun _ c hc => ?_⟩
  · exact absurd (hdown.symm.trans hr) (by decide)
  · exact absurd (hdown.symm.trans hr) (by decide)
  · have hok := h.conns hdown c hc
    refine ⟨hok.present, fun hgone => ?_, fun hw => hok.pending (hwindow hw), hok.kept, ?_⟩
    · refine (hok.gone hgone).imp_right fun hold => ⟨?_, hold.2⟩
      cases hw : stage.window with
      | true => exact absurd (hold.1.symm.trans (hwindow hw)) (by decide)
      | false => rfl
    · rcases hok.kept with hparted | hkept
      · exact Or.inl hparted
      · refine hok.done.imp_right fun hdone t ht hover => ?_
        rcases hpast t ht hover with hold | hsubs
        · exact hdone t ht hold
        · refine Kept.allTold (hkept t ht) ?_
          rw [Topic.subsOf, hsubs]
          rfl

/-- `stop` closes a connection, after it has told all subscribers. -/
theorem Inv.close {conns : List ℕ} (h : s.Inv topicCount)
    (hstage : s.stage = .disconnecting conns) :
    Inv topicCount { s with closed := Function.update s.closed c true } := by
  refine h.of_conns rfl rfl (fun _ => rfl) (fun _ => id) (fun hr => ?_) fun hr c' hc hok => ?_
  · have hup := h.up hr
    rw [hstage] at hup
    cases hup
  · have hpast : s.past c' = true := by rw [past, hstage]
    exact hok.leave (hok.settled_of_past hpast) _ _

/-- `close_all` leaves no subscriber. -/
theorem subs_of_closeAll {hub hub' : Hub} {t : ℕ} {ok : ℕ → Bool}
    (hstep : Hub.Step S cfg hub (.closeAll t ok) hub') : (hub'.topics t).subs = [] := by
  cases Hub.effect_of_step hstep with
  | closeAll =>
    change (Function.update hub.topics t _ t).subs = []
    rw [Function.update_self]
    rfl

/-! ### A step, and a run -/

theorem Inv.connect {a : Act} (h : s.Inv topicCount) (ha : a = .connect c)
    (hstep : Step S cfg topicCount hooks s a s') : s'.Inv topicCount := by
  subst ha
  simp only [Step, OfFun, step] at hstep
  split_ifs at hstep with hmem hr
  · cases hstep
    refine h.of_conns rfl rfl (fun _ => rfl) (fun _ => id) (fun _ _ => Or.inl) fun hdown => ?_
    exact absurd (hdown.symm.trans hr) (by decide)
  · cases hstep
    refine h.of_conns rfl rfl (fun _ => rfl) (fun _ => id) (fun hup => absurd hup hr)
      fun _ c' hc hok => ?_
    have hne : c' ≠ c := by
      rintro rfl
      exact hmem hok.present
    exact hok.other hok.present rfl rfl (Function.update_of_ne hne ..) rfl rfl rfl (fun _ => id)
      hok.kept

theorem Inv.enlist (h : s.Inv topicCount) :
    Inv topicCount { s with live := s.live ++ [c], accepted := s.accepted.erase c } := by
  refine h.of_conns rfl rfl (fun _ => rfl) (fun _ => id) (fun _ _ => Or.inl) fun _ c' hc hok => ?_
  have hpresent : c' ∈ (s.live ++ [c]) ++ s.accepted.erase c := by
    by_cases hcc : c' = c
    · simp [hcc]
    · rcases List.mem_append.mp hok.present with hlive | haccepted
      · exact List.mem_append_left _ (List.mem_append_left _ hlive)
      · exact List.mem_append_right _ ((List.mem_erase_of_ne hcc).mpr haccepted)
  exact hok.other hpresent rfl rfl rfl rfl rfl rfl (fun _ => id) hok.kept

theorem Inv.step {a : Act} (h : s.Inv topicCount)
    (hstep : UndisturbedStep S cfg topicCount hooks s a s') : s'.Inv topicCount := by
  obtain ⟨hstep, hguard⟩ := hstep
  simp only [Step, OfFun] at hstep
  cases a with
  | connect c => exact h.connect rfl hstep
  | enlist c =>
    obtain ⟨_, hstep⟩ := Option.ite_none_right_eq_some.mp hstep
    cases hstep
    exact h.enlist
  | accept c =>
    obtain ⟨_, hstep⟩ := Option.ite_none_right_eq_some.mp hstep
    obtain ⟨hub, hhub, rfl⟩ := Option.map_eq_some_iff.mp hstep
    exact h.accept hhub
  | refuse c =>
    obtain ⟨_, hstep⟩ := Option.ite_none_right_eq_some.mp hstep
    obtain ⟨hub, hhub, rfl⟩ := Option.map_eq_some_iff.mp hstep
    exact h.refuse hhub
  | arrive c f =>
    cases hstep
    exact h.arrive hguard
  | check c =>
    simp only [Drain.step] at hstep
    split_ifs at hstep with hat hr
    · cases hstep
      refine h.of_conns rfl rfl (fun _ => rfl) (fun _ => id) (fun _ _ => Or.inl) fun hdown => ?_
      exact absurd (hdown.symm.trans hr) (by decide)
    · obtain ⟨hub, hhub, rfl⟩ := Option.map_eq_some_iff.mp hstep
      exact h.check hhub hguard
  | frame c env =>
    simp only [Drain.step] at hstep
    split at hstep
    · cases hstep
    · next f rest hinbox =>
      obtain ⟨_, hstep⟩ := Option.ite_none_right_eq_some.mp hstep
      obtain ⟨hub, hhub, rfl⟩ := Option.map_eq_some_iff.mp hstep
      exact h.frame hinbox hhub hguard
  | eof c =>
    obtain ⟨_, hstep⟩ := Option.ite_none_right_eq_some.mp hstep
    obtain ⟨hub, hhub, rfl⟩ := Option.map_eq_some_iff.mp hstep
    exact h.eof hhub
  | thread a =>
    simp only [Drain.step] at hstep
    cases a with
    | shutdown _ | detach _ | publish _ _ _ | heartbeat _ _ =>
      obtain ⟨hub, hhub, rfl⟩ := Option.map_eq_some_iff.mp hstep
      exact h.account hhub rfl
    | finish c =>
      obtain ⟨hub, hhub, rfl⟩ := Option.map_eq_some_iff.mp hstep
      exact h.finish hhub
    | accept _ | refuse _ | frame _ _ _ | quit _ | closeAll _ _ => cases hstep
  | stop =>
    simp only [Drain.step] at hstep
    split_ifs at hstep with hr
    · cases hstep
      exact h.stop hr hguard
    · cases hstep
      exact h
  | hook =>
    simp only [Drain.step] at hstep
    split at hstep
    · next n hstage =>
      cases hstep
      refine h.stage (by simp [hstage]) (fun _ => by rw [hstage]; rfl) fun _ _ h => by cases h
    · cases hstep
  | snapshot topics =>
    simp only [Drain.step] at hstep
    split at hstep
    · next hstage =>
      cases hstep
      refine h.stage (by simp [hstage]) (fun h => by cases h)
        fun t ht (hmem : t ∉ topics) => Or.inr ?_
      have hexposed := List.all_eq_true.mp hguard t (List.mem_range.mpr ht)
      have hnot : topics.contains t = false := by simpa using hmem
      rw [hnot, Bool.or_false] at hexposed
      exact List.isEmpty_iff.mp hexposed
    · cases hstep
  | closeTopic ok =>
    simp only [Drain.step] at hstep
    split at hstep
    · next t topics hstage =>
      obtain ⟨hub, hhub, rfl⟩ := Option.map_eq_some_iff.mp hstep
      have hstage' : (s.account hub).stage = .closing (t :: topics) := hstage
      refine (h.account hhub rfl).stage (by simp [hstage']) (fun h => by cases h)
        fun t' _ hmem => ?_
      by_cases ht : t' = t
      · subst ht
        exact Or.inr (subs_of_closeAll hhub)
      · rw [hstage']
        exact Or.inl (List.not_mem_cons_of_ne_of_not_mem ht hmem)
    · cases hstep
  | closeListener =>
    simp only [Drain.step] at hstep
    split at hstep
    · next hstage =>
      cases hstep
      refine h.stage (by simp [hstage]) (fun h => by cases h) fun t _ _ => Or.inl ?_
      rw [hstage]
      exact List.not_mem_nil
    · cases hstep
  | closeConn =>
    simp only [Drain.step] at hstep
    split at hstep
    · next c conns hstage =>
      cases hstep
      refine (h.close (c := c) hstage).stage ?_ (fun h => by cases h) fun t _ _ => Or.inl ?_
      · change s.stage ≠ .up
        simp [hstage]
      · change s.stage.Past t
        rw [hstage]
        trivial
    · cases hstep

theorem Inv.window (h : s.Inv topicCount) : s.Window topicCount := by
  have hdown : s.stage.window = true → s.running = false := by
    intro hwindow
    cases hr : s.running with
    | true =>
      rw [h.up hr] at hwindow
      cases hwindow
    | false => rfl
  refine ⟨fun hwindow c hc hclosed => ?_, fun hwindow c hc hinbox => ?_, fun hr c hc hclosed => ?_⟩
  · rcases (h.conns (hdown hwindow) c hc).gone (Or.inr hclosed) with hparted | ⟨hover, _⟩
    · exact hparted
    · exact absurd (hover.symm.trans hwindow) (by decide)
  · refine ((h.conns (hdown hwindow) c hc).pending hwindow hinbox).imp_right ?_
    rintro ⟨hserving, hcheck, _⟩
    refine ⟨hserving, fun hat => ?_⟩
    exact absurd (hcheck.symm.trans hat) (by decide)
  · exact ((h.conns hr c hc).gone (Or.inr hclosed)).imp_right And.right

end

end Drain

/-- **While no thread comes to the condition of its loop, `before_stop` is a drain window.** -/
theorem before_stop_drains (S : Sodium) (cfg : HostConfig) (topicCount hooks : ℕ)
    (run : ℕ → ServerRun) (acc : ℕ → Accept) (hs : ℕ → HandshakeResult) {acts : List Drain.Act}
    {s : Drain} (hrun : Run (Drain.UndisturbedStep S cfg topicCount hooks)
      { hub := .start cfg run acc hs } acts s) : s.Window topicCount := by
  have hinv := hrun.preserves (I := Drain.Inv topicCount) (Drain.inv_start topicCount _)
    fun _ _ _ h hstep => h.step hstep
  exact hinv.window

/-! ### A subscriber and a hook -/

namespace OneHook

open SameRequestId

/-- Connection 0 has subscribed to topic 0 and waits for the next frame. -/
def subscribed : List Drain.Act :=
  [.connect 0, .enlist 0, .accept 0, .check 0,
    .arrive 0 (request 0 { requestId := 7, endpoint := [116] }),
    .frame 0 env, .check 0]

/-- A request for an endpoint that there is not. -/
def ask (n : UInt64) : Drain.Act := .arrive 0 (request n { requestId := 9, endpoint := [117] })

/-- A request is served in the window; the thread comes back to its loop when everything is over. -/
def gracefulStop : List Drain.Act :=
  subscribed ++ [.stop, ask 1, .frame 0 env, .hook, .snapshot [0], .closeTopic fun _ => true,
    .closeListener, .closeConn, .check 0, .thread (.shutdown 0), .thread (.detach 0),
    .thread (.finish 0)]

/-- After the request that is served in the window, the thread leaves its loop. A further request
has arrived by then. -/
def abruptStop : List Drain.Act :=
  subscribed ++ [.stop, ask 1, .frame 0 env, ask 2, .check 0, .thread (.shutdown 0),
    .thread (.detach 0), .thread (.finish 0)]

def gracefulEnd : Option Drain :=
  exec (guardFun (Drain.step sodium config 1 1) (Drain.undisturbed config 1)) { hub := hub }
    gracefulStop

def abruptEnd : Option Drain := exec (Drain.step sodium config 1 1) { hub := hub } abruptStop

theorem gracefulEnd_isSome : gracefulEnd.isSome = true := by decide +kernel

theorem abruptEnd_isSome : abruptEnd.isSome = true := by decide +kernel

end OneHook

open OneHook

theorem before_stop_drains_subscriber :
    (gracefulEnd.get gracefulEnd_isSome).existing = [0] ∧
    (gracefulEnd.get gracefulEnd_isSome).closed 0 = true ∧
    ((gracefulEnd.get gracefulEnd_isSome).told 0).map TopicSub.key = [(0, 7)] ∧
    (gracefulEnd.get gracefulEnd_isSome).Window 1 :=
  ⟨by decide +kernel, by decide +kernel, by decide +kernel,
    before_stop_drains _ _ 1 1 _ _ _
      (run_of_exec_guardFun (Option.some_get gracefulEnd_isSome).symm)⟩

/-- **The flag that `stop` clears first ends the loop of a connection that is in use.** The hook has
not returned, and the connection is closed, with a request unanswered and a subscriber that was told
nothing. -/
theorem stop_cuts_connection : ∃ s : Drain,
    Run (Drain.Step SameRequestId.sodium SameRequestId.config 1 1) { hub := SameRequestId.hub }
      abruptStop s ∧
    s.stage = .hooks 1 ∧ s.existing = [0] ∧ s.closed 0 = true ∧ s.parted 0 = false ∧
    (s.inbox 0).length = 1 ∧ (s.entry 0).keys = [(0, 7)] ∧ s.told 0 = [] ∧ s.dropped 0 = [] ∧
    ¬s.Window 1 := by
  have hclosed : (abruptEnd.get abruptEnd_isSome).closed 0 = true := by decide +kernel
  have hparted : (abruptEnd.get abruptEnd_isSome).parted 0 = false := by decide +kernel
  have hstage : (abruptEnd.get abruptEnd_isSome).stage = .hooks 1 := by decide +kernel
  have hexisting : (abruptEnd.get abruptEnd_isSome).existing = [0] := by decide +kernel
  refine ⟨_, run_of_exec (Option.some_get abruptEnd_isSome).symm, hstage, hexisting, hclosed,
    hparted,
    by decide +kernel, by decide +kernel, by decide +kernel, by decide +kernel, fun hwindow => ?_⟩
  have hpart := hwindow.none_closed (by rw [hstage]; rfl) 0
    (by rw [hexisting]; exact List.mem_cons_self) hclosed
  rw [hparted] at hpart
  cases hpart

end Epx
