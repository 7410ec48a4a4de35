import Mathlib.Data.List.Basic

/-!
# Streams with a torn end

A writer appends encoded items to a stream, and a write that fails may leave a part of its item
behind. `Whole` streams hold complete items only; in a `Torn` stream the last item may have been
cut.

## Main definitions

* `TornStream.Whole`, `TornStream.Torn`
* `TornStream.Yields` — what a reader gets from a stream, item by item
* `TornStream.Extends` — the reader does not look beyond what it takes
* `TornStream.Decodes` — the reader is made for the encoding

## Main results

* `TornStream.Whole.append`, `TornStream.Whole.cut` — what a write that succeeds and one that fails
  leave
* `TornStream.Decodes.yields`, `TornStream.Decodes.yields_cut` — what is read from complete items,
  and from a stream that was cut
* `TornStream.Yields.append` — what has been read stays so when the stream grows
* `TornStream.Decodes.rest` — what is left on a stream of complete items
-/

namespace TornStream

variable {α β : Type*}

/-- A sequence of complete items. -/
def Whole (enc : α → List β) (w : List β) : Prop := ∃ xs : List α, w = (xs.map enc).flatten

/-- A sequence of complete items, and possibly a part of one more. -/
def Torn (enc : α → List β) (w : List β) : Prop :=
  ∃ (xs : List α) (x : α) (n : ℕ), w = (xs.map enc).flatten ++ (enc x).take n

variable {enc : α → List β} {w : List β}

theorem Whole.nil : Whole enc [] := ⟨[], rfl⟩

theorem Whole.append (h : Whole enc w) (x : α) : Whole enc (w ++ enc x) := by
  obtain ⟨xs, rfl⟩ := h
  exact ⟨xs ++ [x], by simp⟩

theorem Whole.cut (h : Whole enc w) (x : α) (n : ℕ) : Torn enc (w ++ (enc x).take n) := by
  obtain ⟨xs, rfl⟩ := h
  exact ⟨xs, x, n, rfl⟩

/-- A stream shorter than every item is whole only if nothing was written. -/
theorem Whole.eq_nil (h : Whole enc w) (hlen : ∀ x, w.length < (enc x).length) : w = [] := by
  obtain ⟨xs, rfl⟩ := h
  cases xs with
  | nil => rfl
  | cons x xs =>
    have hx := hlen x
    simp only [List.map_cons, List.flatten_cons, List.length_append] at hx
    omega

/-! ### Reading -/

/-- A reader takes the items one after another from `s` and leaves `t`. -/
def Yields (read : List β → Option (α × List β)) : List α → List β → List β → Prop
  | [], s, t => s = t
  | x :: xs, s, t => ∃ u, read s = some (x, u) ∧ Yields read xs u t

/-- What the reader takes does not depend on what follows it. -/
def Extends (read : List β → Option (α × List β)) : Prop :=
  ∀ s x t, read s = some (x, t) → ∀ u, read (s ++ u) = some (x, t ++ u)

/-- The reader takes a good item back as it was encoded, and waits for all of it. -/
structure Decodes (enc : α → List β) (read : List β → Option (α × List β)) (good : α → Prop) :
    Prop where
  whole : ∀ x, good x → ∀ t, read (enc x ++ t) = some (x, t)
  torn : ∀ x, good x → ∀ s, s <+: enc x → s.length < (enc x).length → read s = none
  empty : read [] = none

variable {read : List β → Option (α × List β)} {good : α → Prop} {xs : List α}

theorem Yields.append (hread : Extends read) {s t : List β} (h : Yields read xs s t) (u : List β) :
    Yields read xs (s ++ u) (t ++ u) := by
  induction xs generalizing s with
  | nil => exact congrArg (· ++ u) h
  | cons x xs ih =>
    obtain ⟨v, hx, hrest⟩ := h
    exact ⟨v ++ u, hread s x v hx u, ih hrest⟩

theorem Yields.snoc {s t u : List β} {x : α} (h : Yields read xs s t) (hx : read t = some (x, u)) :
    Yields read (xs ++ [x]) s u := by
  induction xs generalizing s with
  | nil =>
    obtain rfl : s = t := h
    exact ⟨u, hx, rfl⟩
  | cons y xs ih =>
    obtain ⟨v, hy, hrest⟩ := h
    exact ⟨v, hy, ih hrest⟩

/-- **Items are read back** in order, and what follows them is left alone. -/
theorem Decodes.yields (h : Decodes enc read good) (hxs : ∀ x ∈ xs, good x) (t : List β) :
    Yields read xs (xs.flatMap enc ++ t) t := by
  induction xs with
  | nil => exact rfl
  | cons x xs ih =>
    obtain ⟨hx, hrest⟩ := List.forall_mem_cons.mp hxs
    rw [List.flatMap_cons, List.append_assoc]
    exact ⟨_, h.whole x hx _, ih hrest⟩

/-- **What is read off complete items** are the first of them, and the others are left. -/
theorem Decodes.rest (h : Decodes enc read good) {ys : List α} (hys : ∀ y ∈ ys, good y) {t : List β}
    (hxs : Yields read xs (ys.flatMap enc) t) : ∃ zs, ys = xs ++ zs ∧ t = zs.flatMap enc := by
  induction xs generalizing ys with
  | nil => exact ⟨ys, rfl, hxs.symm⟩
  | cons x xs ih =>
    obtain ⟨u, hx, hrest⟩ := hxs
    cases ys with
    | nil =>
      rw [List.flatMap_nil, h.empty] at hx
      cases hx
    | cons y ys =>
      obtain ⟨hy, hgood⟩ := List.forall_mem_cons.mp hys
      rw [List.flatMap_cons, h.whole y hy] at hx
      cases hx
      obtain ⟨zs, rfl, rfl⟩ := ih hgood hrest
      exact ⟨zs, rfl, rfl⟩

/-- **From a stream that was cut** the items are read that are complete in it, and no more. -/
theorem Decodes.yields_cut (h : Decodes enc read good) (hxs : ∀ x ∈ xs, good x) {s : List β}
    (hs : s <+: xs.flatMap enc) :
    ∃ k ≤ xs.length, ∃ t, Yields read (xs.take k) s t ∧ read t = none ∧
      ((xs.take k).flatMap enc).length ≤ s.length ∧
      (k < xs.length → s.length < ((xs.take (k + 1)).flatMap enc).length) := by
  induction xs generalizing s with
  | nil =>
    obtain rfl : s = [] := List.prefix_nil.mp hs
    refine ⟨0, Nat.le_refl 0, [], rfl, h.empty, Nat.le_refl 0, fun hlt => ?_⟩
    exact absurd hlt (Nat.lt_irrefl 0)
  | cons x xs ih =>
    obtain ⟨hx, hrest⟩ := List.forall_mem_cons.mp hxs
    rw [List.flatMap_cons] at hs
    by_cases hlen : s.length < (enc x).length
    · -- the cut is within the first item
      have hcut : s <+: enc x :=
        List.prefix_of_prefix_length_le hs (List.prefix_append _ _) (Nat.le_of_lt hlen)
      refine ⟨0, Nat.zero_le _, s, rfl, h.torn x hx s hcut hlen, Nat.zero_le _, fun _ => ?_⟩
      simpa using hlen
    · have hfirst : enc x <+: s :=
        List.prefix_of_prefix_length_le (List.prefix_append _ _) hs (Nat.le_of_not_lt hlen)
      obtain ⟨u, rfl⟩ := hfirst
      have hu : u <+: xs.flatMap enc := (List.prefix_append_right_inj _).mp hs
      obtain ⟨k, hk, t, hyields, hnone, hle, hlt⟩ := ih hrest hu
      refine ⟨k + 1, Nat.succ_le_succ hk, t, ⟨u, h.whole x hx u, hyields⟩, hnone, ?_, ?_⟩
      · rw [List.take_succ_cons, List.flatMap_cons, List.length_append, List.length_append]
        exact Nat.add_le_add_left hle _
      · intro hmore
        rw [List.take_succ_cons, List.flatMap_cons, List.length_append, List.length_append]
        exact Nat.add_lt_add_left (hlt (Nat.lt_of_succ_lt_succ hmore)) _

end TornStream
