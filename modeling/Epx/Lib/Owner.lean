import Mathlib.Logic.Function.Basic

/-!
# Move-only handles

Handles live in places. A place has no handle, or an empty one, or one that owns a thing,
and a handle can be moved from but not copied: what the source owned, the target owns, and what the
target owned before nobody owns any more.

## Main definitions

* `Places`, `Held`, `Unshared`
* `construct`, `moveTo`, `destroy`

## Main results

* `held_construct`, `held_moveTo`, `held_destroy` — who owns what afterwards
* `Unshared.construct`, `Unshared.moveTo`, `Unshared.destroy` — no thing gets a second owner
-/

namespace Owner

variable {ι κ : Type*}

/-- No handle, an empty handle, or the owner of a thing. -/
abbrev Places (ι κ : Type*) := ι → Option (Option κ)

/-- A handle owns `k`. -/
def Held (p : Places ι κ) (k : κ) : Prop := ∃ i, p i = some (some k)

/-- Nothing has two owners. -/
def Unshared (p : Places ι κ) : Prop := ∀ i j k, p i = some (some k) → p j = some (some k) → i = j

theorem unshared_none : Unshared (fun _ => none : Places ι κ) := by
  intro i j k hi
  cases hi

variable [DecidableEq ι]

/-- A new handle. -/
def construct (p : Places ι κ) (i : ι) (x : Option κ) : Places ι κ := Function.update p i (some x)

/-- A handle is moved from, to a new handle or to one that is there. -/
def moveTo (p : Places ι κ) (dst src : ι) : Places ι κ :=
  if dst = src then p else Function.update (Function.update p src (some none)) dst (p src)

def destroy (p : Places ι κ) (i : ι) : Places ι κ := Function.update p i none

variable {p : Places ι κ} {i dst src : ι} {x : Option κ} {k : κ}

theorem construct_eq_some {j : ι} :
    construct p i x j = some (some k) ↔ (j = i ∧ x = some k) ∨ (j ≠ i ∧ p j = some (some k)) := by
  by_cases hj : j = i
  · subst hj
    simp [construct]
  · simp [construct, hj]

theorem held_construct (hi : p i = none) :
    Held (construct p i x) k ↔ x = some k ∨ Held p k := by
  constructor
  · rintro ⟨j, hj⟩
    rcases construct_eq_some.mp hj with ⟨-, hx⟩ | ⟨-, hp⟩
    · exact Or.inl hx
    · exact Or.inr ⟨j, hp⟩
  · rintro (hx | ⟨j, hj⟩)
    · exact ⟨i, construct_eq_some.mpr (Or.inl ⟨rfl, hx⟩)⟩
    · refine ⟨j, construct_eq_some.mpr (Or.inr ⟨?_, hj⟩)⟩
      rintro rfl
      rw [hi] at hj
      cases hj

theorem held_construct_some (hi : p i = none) {k' : κ} :
    Held (construct p i (some k')) k ↔ k = k' ∨ Held p k := by
  refine (held_construct hi).trans (or_congr_left ?_)
  exact ⟨fun heq => (Option.some.inj heq).symm, fun heq => by rw [heq]⟩

/-- Everything that is owned was made, also afterwards. -/
theorem mem_of_held_construct (hi : p i = none) {made : List κ} (hmade : ∀ k, Held p k → k ∈ made)
    {k' : κ} (hk : Held (construct p i (some k')) k) : k ∈ k' :: made := by
  rcases (held_construct_some hi).mp hk with rfl | hold
  · exact List.mem_cons_self
  · exact List.mem_cons_of_mem _ (hmade k hold)

theorem Unshared.construct (h : Unshared p) (hx : ∀ k, x = some k → ¬ Held p k) :
    Unshared (construct p i x) := by
  intro j j' k hj hj'
  rcases construct_eq_some.mp hj with ⟨rfl, hk⟩ | ⟨-, hp⟩
  · rcases construct_eq_some.mp hj' with ⟨rfl, -⟩ | ⟨-, hp'⟩
    · rfl
    · exact absurd ⟨j', hp'⟩ (hx k hk)
  · rcases construct_eq_some.mp hj' with ⟨-, hk⟩ | ⟨-, hp'⟩
    · exact absurd ⟨j, hp⟩ (hx k hk)
    · exact h j j' k hp hp'

theorem moveTo_eq_some {j : ι} (hne : dst ≠ src) :
    moveTo p dst src j = some (some k) ↔
      (j = dst ∧ p src = some (some k)) ∨ (j ≠ dst ∧ j ≠ src ∧ p j = some (some k)) := by
  rw [moveTo, if_neg hne]
  by_cases hdst : j = dst
  · subst hdst
    simp
  · rw [Function.update_of_ne hdst]
    by_cases hsrc : j = src
    · subst hsrc
      simp [hdst]
    · simp [hdst, hsrc]

/-- What the target owned nobody owns any more. -/
theorem held_moveTo (h : Unshared p) :
    Held (moveTo p dst src) k ↔ Held p k ∧ (dst ≠ src → p dst ≠ some (some k)) := by
  by_cases hne : dst = src
  · rw [moveTo, if_pos hne]
    exact ⟨fun hk => ⟨hk, fun habs => absurd hne habs⟩, fun hk => hk.1⟩
  · constructor
    · rintro ⟨j, hj⟩
      rcases (moveTo_eq_some hne).mp hj with ⟨-, hsrc⟩ | ⟨hdst, -, hp⟩
      · exact ⟨⟨src, hsrc⟩, fun _ hdst => hne (h dst src k hdst hsrc)⟩
      · exact ⟨⟨j, hp⟩, fun _ hk => hdst (h j dst k hp hk)⟩
    · rintro ⟨⟨j, hj⟩, hlost⟩
      by_cases hsrc : j = src
      · subst hsrc
        exact ⟨dst, (moveTo_eq_some hne).mpr (Or.inl ⟨rfl, hj⟩)⟩
      · refine ⟨j, (moveTo_eq_some hne).mpr (Or.inr ⟨?_, hsrc, hj⟩)⟩
        rintro rfl
        exact hlost hne hj

theorem Unshared.moveTo (h : Unshared p) : Unshared (moveTo p dst src) := by
  by_cases hne : dst = src
  · rw [Owner.moveTo, if_pos hne]
    exact h
  · intro j j' k hj hj'
    rcases (moveTo_eq_some hne).mp hj with ⟨rfl, hsrc⟩ | ⟨-, hjsrc, hp⟩
    · rcases (moveTo_eq_some hne).mp hj' with ⟨rfl, -⟩ | ⟨-, hjsrc', hp'⟩
      · rfl
      · exact absurd (h j' src k hp' hsrc) hjsrc'
    · rcases (moveTo_eq_some hne).mp hj' with ⟨-, hsrc⟩ | ⟨-, -, hp'⟩
      · exact absurd (h j src k hp hsrc) hjsrc
      · exact h j j' k hp hp'

theorem destroy_eq_some {j : ι} :
    destroy p i j = some (some k) ↔ j ≠ i ∧ p j = some (some k) := by
  by_cases hj : j = i
  · subst hj
    simp [destroy]
  · simp [destroy, hj]

theorem held_destroy (h : Unshared p) :
    Held (destroy p i) k ↔ Held p k ∧ p i ≠ some (some k) := by
  constructor
  · rintro ⟨j, hj⟩
    obtain ⟨hne, hp⟩ := destroy_eq_some.mp hj
    exact ⟨⟨j, hp⟩, fun hi => hne (h j i k hp hi)⟩
  · rintro ⟨⟨j, hj⟩, hi⟩
    refine ⟨j, destroy_eq_some.mpr ⟨?_, hj⟩⟩
    rintro rfl
    exact hi hj

theorem Unshared.destroy (h : Unshared p) : Unshared (destroy p i) := by
  intro j j' k hj hj'
  exact h j j' k (destroy_eq_some.mp hj).2 (destroy_eq_some.mp hj').2

end Owner
