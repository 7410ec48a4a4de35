import Mathlib.Data.List.Basic
import Mathlib.Data.List.Induction

/-!
# Runs of labelled transitions

A system is a relation `step s a s'` between a state, a label and the next state. Its runs are
finite sequences of steps, extended at the end, so that an invariant argument is an induction that
looks at the last step.

Where a system is deterministic its step is a partial function, and a run can be computed.

## Main definitions

* `Run` — finite runs
* `Guarded` — the steps of a system that satisfy a condition on the state they start from
* `OfFun`, `exec` — the system of a partial step function, and its computed runs
* `guardFun` — a step function with a computed condition

## Main results

* `Run.preserves` — what every step preserves, every run preserves
* `Run.simulate` — what matches step by step, matches run by run
* `Run.unique` — a computed system is in one state after given steps
* `run_of_exec`, `run_of_exec_guardFun` — a computed run is a run
-/

namespace Transition

variable {σ : Type*} {α : Type*}

/-- `Run step s as s'`: from `s`, the steps labelled `as` lead to `s'`. -/
inductive Run (step : σ → α → σ → Prop) (s : σ) : List α → σ → Prop
  | nil : Run step s [] s
  | snoc {as : List α} {a : α} {s' s'' : σ} :
      Run step s as s' → step s' a s'' → Run step s (as ++ [a]) s''

variable {step : σ → α → σ → Prop}

/-- **The invariant rule.** -/
theorem Run.preserves {I : σ → Prop} {s s' : σ} {as : List α} (h : Run step s as s') (hs : I s)
    (hstep : ∀ s a s', I s → step s a s' → I s') : I s' := by
  induction h with
  | nil => exact hs
  | snoc _ hlast ih => exact hstep _ _ _ ih hlast

theorem Run.trans {s s' s'' : σ} {as bs : List α} (h : Run step s as s')
    (h' : Run step s' bs s'') : Run step s (as ++ bs) s'' := by
  induction h' with
  | nil => simpa using h
  | snoc _ hlast ih =>
    rw [← List.append_assoc]
    exact ih.snoc hlast

theorem Run.eq_of_nil {s s' : σ} (h : Run step s [] s') : s' = s := by
  generalize hl : ([] : List α) = l at h
  cases h with
  | nil => rfl
  | snoc _ _ => simp at hl

/-- The first step of a run. -/
theorem Run.uncons {s s' : σ} {a : α} {as : List α} (h : Run step s (a :: as) s') :
    ∃ t, step s a t ∧ Run step t as s' := by
  generalize hl : a :: as = l at h
  induction h generalizing as with
  | nil => cases hl
  | @snoc bs b t u hrun hlast ih =>
    cases bs with
    | nil =>
      cases hl
      rw [hrun.eq_of_nil] at hlast
      exact ⟨u, hlast, .nil⟩
    | cons c cs =>
      cases hl
      obtain ⟨v, hfirst, hrest⟩ := ih rfl
      exact ⟨v, hfirst, hrest.snoc hlast⟩

/-- The last step of a run. -/
theorem Run.unsnoc {s s' : σ} {a : α} {as : List α} (h : Run step s (as ++ [a]) s') :
    ∃ t, Run step s as t ∧ step t a s' := by
  generalize hl : as ++ [a] = l at h
  cases h with
  | nil => simp at hl
  | snoc hrun hlast =>
    obtain ⟨rfl, hlast'⟩ := List.append_inj' hl rfl
    cases hlast'
    exact ⟨_, hrun, hlast⟩

/-- A run in two parts. -/
theorem Run.split {s s' : σ} {as bs : List α} (h : Run step s (as ++ bs) s') :
    ∃ t, Run step s as t ∧ Run step t bs s' := by
  induction bs using List.reverseRecOn generalizing s' with
  | nil =>
    rw [List.append_nil] at h
    exact ⟨s', h, .nil⟩
  | append_singleton bs b ih =>
    rw [← List.append_assoc] at h
    obtain ⟨u, hfirst, hlast⟩ := h.unsnoc
    obtain ⟨t, hrun, hrest⟩ := ih hfirst
    exact ⟨t, hrun, hrest.snoc hlast⟩

theorem Run.mono_of_mem {step' : σ → α → σ → Prop} {s s' : σ} {as : List α}
    (h : Run step s as s') (hle : ∀ s a s', a ∈ as → step s a s' → step' s a s') :
    Run step' s as s' := by
  induction h with
  | nil => exact .nil
  | snoc _ hlast ih =>
    have hrun := ih fun t a t' ha => hle t a t' (List.mem_append_left _ ha)
    exact hrun.snoc (hle _ _ _ (by simp) hlast)

theorem Run.mono {step' : σ → α → σ → Prop} {s s' : σ} {as : List α}
    (hle : ∀ s a s', step s a s' → step' s a s') (h : Run step s as s') : Run step' s as s' :=
  h.mono_of_mem fun s a s' _ => hle s a s'

/-- **The simulation rule**: when each step of one system is matched from related states by a run of
another, so is each run. `L` relates the labels of what is matched. -/
theorem Run.simulate {τ : Type*} {β : Type*} {step' : τ → β → τ → Prop} {R : σ → τ → Prop}
    {L : List α → List β → Prop} {s s' : σ} {t : τ} {as : List α} (h : Run step s as s')
    (hR : R s t) (hnil : L [] [])
    (happend : ∀ {as bs cs ds}, L as bs → L cs ds → L (as ++ cs) (bs ++ ds))
    (hstep : ∀ s a s' t, R s t → step s a s' → ∃ bs t', Run step' t bs t' ∧ L [a] bs ∧ R s' t') :
    ∃ bs t', Run step' t bs t' ∧ L as bs ∧ R s' t' := by
  induction h with
  | nil => exact ⟨[], t, .nil, hnil, hR⟩
  | snoc _ hlast ih =>
    obtain ⟨bs, u, hrun, hL, hR⟩ := ih
    obtain ⟨cs, u', hrun', hL', hR'⟩ := hstep _ _ _ _ hR hlast
    exact ⟨bs ++ cs, u', hrun.trans hrun', happend hL hL', hR'⟩

/-- The steps whose start satisfies `G`. -/
def Guarded (step : σ → α → σ → Prop) (G : σ → α → Prop) (s : σ) (a : α) (s' : σ) : Prop :=
  step s a s' ∧ G s a

/-! ### Computed runs -/

/-- The step relation of a partial step function. -/
def OfFun (f : σ → α → Option σ) (s : σ) (a : α) (s' : σ) : Prop := f s a = some s'

/-- The state that a sequence of labels leads to. -/
def exec (f : σ → α → Option σ) (s : σ) : List α → Option σ
  | [] => some s
  | a :: as => (f s a).bind fun s' => exec f s' as

/-- A deterministic system is in one state after given steps. -/
theorem Run.unique {f : σ → α → Option σ} {s t t' : σ} {as : List α} (h : Run (OfFun f) s as t)
    (h' : Run (OfFun f) s as t') : t' = t := by
  induction h generalizing t' with
  | nil => exact h'.eq_of_nil
  | @snoc as a u t _ hlast ih =>
    obtain ⟨u', hrun', hlast'⟩ := h'.unsnoc
    rw [ih hrun'] at hlast'
    exact Option.some.inj (hlast'.symm.trans hlast)

theorem run_of_exec {f : σ → α → Option σ} {s s' : σ} {as : List α}
    (h : exec f s as = some s') : Run (OfFun f) s as s' := by
  induction as generalizing s with
  | nil =>
    cases h
    exact .nil
  | cons a as ih =>
    obtain ⟨t, ht, hrest⟩ := Option.bind_eq_some_iff.mp h
    exact Run.trans (Run.nil.snoc ht) (ih hrest)

/-- A step function that stops where a computed condition fails. -/
def guardFun (f : σ → α → Option σ) (g : σ → α → Bool) (s : σ) (a : α) : Option σ :=
  if g s a = true then f s a else none

/-- A computed run whose steps all meet a computed condition. -/
theorem run_of_exec_guardFun {f : σ → α → Option σ} {g : σ → α → Bool} {s s' : σ} {as : List α}
    (h : exec (guardFun f g) s as = some s') :
    Run (Guarded (OfFun f) fun s a => g s a = true) s as s' := by
  refine (run_of_exec h).mono fun s a s' hstep => ?_
  obtain ⟨hg, hf⟩ := Option.ite_none_right_eq_some.mp hstep
  exact ⟨hf, hg⟩

end Transition
