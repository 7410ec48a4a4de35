import Mathlib.Logic.Basic

/-!
# Computations that return normally

A computation in `Except ε` returns normally when it ends without an exception. The condition under
which it does is computed from its parts: a sequence returns when its first part does and, on
whatever that gives, the rest does.

## Main definitions

* `Returns` — no exception leaves the computation

## Main results

* `returns_bind` — the rule for a sequence
-/

namespace Exception

universe u v

variable {ε : Type u} {α β : Type v}

/-- No exception leaves `x`. -/
def Returns (x : Except ε α) : Prop := ∃ a, x = .ok a

@[simp] theorem returns_ok (a : α) : Returns (.ok a : Except ε α) := ⟨a, rfl⟩

@[simp] theorem returns_pure (a : α) : Returns (pure a : Except ε α) := ⟨a, rfl⟩

@[simp] theorem not_returns_error (e : ε) : ¬ Returns (.error e : Except ε α) := by
  rintro ⟨a, h⟩
  cases h

/-- The results of a sequence. -/
theorem bind_eq_ok {x : Except ε α} {f : α → Except ε β} {b : β} :
    x >>= f = .ok b ↔ ∃ a, x = .ok a ∧ f a = .ok b := by
  cases x with
  | error e =>
    constructor
    · intro h
      cases h
    · rintro ⟨a, h, -⟩
      cases h
  | ok a =>
    constructor
    · intro h
      exact ⟨a, rfl, h⟩
    · rintro ⟨a', ha, h⟩
      cases ha
      exact h

/-- **The rule for a sequence.** -/
theorem returns_bind {x : Except ε α} {f : α → Except ε β} :
    Returns (x >>= f) ↔ Returns x ∧ ∀ a, x = .ok a → Returns (f a) := by
  cases x with
  | error e =>
    constructor
    · rintro ⟨b, h⟩
      cases h
    · rintro ⟨h, -⟩
      exact absurd h (not_returns_error e)
  | ok a =>
    constructor
    · intro h
      refine ⟨returns_ok a, fun b hb => ?_⟩
      cases hb
      exact h
    · rintro ⟨-, h⟩
      exact h a rfl

/-- What follows a computation that gives nothing but success. -/
theorem returns_bind_pure {x : Except ε α} {f : α → β} :
    Returns (x >>= fun a => pure (f a)) ↔ Returns x := by
  rw [returns_bind]
  exact and_iff_left fun _ _ => returns_pure _

theorem returns_map {x : Except ε α} {f : α → β} : Returns (x.map f) ↔ Returns x := by
  cases x with
  | error e => exact iff_of_false (not_returns_error e) (not_returns_error e)
  | ok a => exact iff_of_true (returns_ok (f a)) (returns_ok a)

/-- A branch of which the other side surely returns. -/
theorem returns_ite {p : Prop} [Decidable p] {x y : Except ε α} (hx : Returns x) :
    Returns (if p then x else y) ↔ (¬ p → Returns y) := by
  by_cases h : p
  · rw [if_pos h]
    exact iff_of_true hx fun hn => absurd h hn
  · rw [if_neg h]
    exact ⟨fun hy _ => hy, fun hy => hy h⟩

theorem returns_unit {x : Except ε Unit} : Returns x ↔ x = .ok () := by
  constructor
  · rintro ⟨⟨⟩, h⟩
    exact h
  · intro h
    exact ⟨(), h⟩

end Exception
