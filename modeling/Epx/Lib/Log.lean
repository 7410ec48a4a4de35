import Mathlib.Data.List.Basic

/-!
# The order of events in a log

A log is a list that grows at its end. That one event stands before another in it is a relation that
is looked at again only when an event is added.

## Main definitions

* `Precedes` — an event stands before another one

## Main results

* `precedes_snoc` — the added event comes after all others
* `precedes_or_precedes` — two events are ordered one way or the other
-/

namespace Log

variable {α : Type*} {x y a : α} {l : List α}

/-- `x` stands somewhere before `y`. -/
def Precedes (x y : α) (l : List α) : Prop := [x, y].Sublist l

instance [DecidableEq α] : Decidable (Precedes x y l) :=
  inferInstanceAs (Decidable (List.Sublist _ _))

theorem not_precedes_nil : ¬ Precedes x y [] := by
  intro h
  cases h

theorem Precedes.append (h : Precedes x y l) (m : List α) : Precedes x y (l ++ m) :=
  h.trans (List.sublist_append_left l m)

theorem precedes_snoc : Precedes x y (l ++ [a]) ↔ Precedes x y l ∨ x ∈ l ∧ y = a := by
  constructor
  · intro h
    obtain ⟨p, q, hpq, hp, hq⟩ := List.sublist_append_iff.mp h
    rcases List.sublist_singleton.mp hq with rfl | rfl
    · rw [List.append_nil] at hpq
      rw [← hpq] at hp
      exact Or.inl hp
    · obtain ⟨hx, hy⟩ := List.append_inj' (show [x] ++ [y] = p ++ [a] from hpq) rfl
      rw [← hx] at hp
      exact Or.inr ⟨List.singleton_sublist.mp hp, List.singleton_inj.mp hy⟩
  · rintro (h | ⟨hx, rfl⟩)
    · exact h.append _
    · exact (List.singleton_sublist.mpr hx).append (List.Sublist.refl [y])

/-- Two different events of a log are ordered one way or the other. -/
theorem precedes_or_precedes (hx : x ∈ l) (hy : y ∈ l) (hne : x ≠ y) :
    Precedes x y l ∨ Precedes y x l := by
  induction l with
  | nil => cases hx
  | cons b l ih =>
    rcases List.mem_cons.mp hx with rfl | hxl
    · rcases List.mem_cons.mp hy with rfl | hyl
      · exact absurd rfl hne
      · exact Or.inl ((List.singleton_sublist.mpr hyl).cons_cons x)
    · rcases List.mem_cons.mp hy with rfl | hyl
      · exact Or.inr ((List.singleton_sublist.mpr hxl).cons_cons y)
      · rcases ih hxl hyl with h | h
        · exact Or.inl (h.cons b)
        · exact Or.inr (h.cons b)

end Log
