import Mathlib.Data.List.Induction
import Mathlib.Order.Basic

/-!
# Logs numbered by class

A sender numbers what it sends from zero and starts again in every epoch. Its log is then numbered
class by class: in the sub-list of one epoch, the `i`-th item carries the number `i`, in whatever
finite encoding `enc` the wire has for numbers.

As long as no class is longer than `enc` can tell apart, an item is determined by its class and
its number. A receiver that accepts the numbers of a class in order has therefore accepted a
prefix of that class.

## Main definitions

* `segment` — the sub-list of one class
* `Numbered` — the `i`-th item of every segment has number `enc i`

## Main results

* `Numbered.snoc` — numbering the next item of its class keeps the log numbered
* `Numbered.pairwise` — no two items of a class share a number
* `Numbered.take_snoc` — accepting the next number of a class extends a prefix of it
* `prefix_of_segments`, `sublist_of_segments` — logs sorted by class are compared class by class
-/

namespace Log

variable {α ε ν : Type*} [DecidableEq ε]

/-- The items of class `e`, in order. -/
def segment (cls : α → ε) (log : List α) (e : ε) : List α := log.filter fun c => cls c = e

variable {cls : α → ε} {log : List α} {c : α} {e : ε}

@[simp] theorem segment_nil : segment cls [] e = [] := rfl

theorem segment_append {log' : List α} :
    segment cls (log ++ log') e = segment cls log e ++ segment cls log' e :=
  List.filter_append ..

theorem segment_snoc_self : segment cls (log ++ [c]) (cls c) = segment cls log (cls c) ++ [c] := by
  simp [segment]

theorem segment_snoc_of_ne (h : cls c ≠ e) : segment cls (log ++ [c]) e = segment cls log e := by
  simp [segment, h]

theorem mem_segment : c ∈ segment cls log e ↔ c ∈ log ∧ cls c = e := by
  simp [segment]

theorem segment_eq_nil (h : ∀ c ∈ log, cls c ≠ e) : segment cls log e = [] := by
  simpa [segment] using h

theorem segment_map {β : Type*} {cls' : β → ε} {f : α → β} (hf : ∀ c, cls' (f c) = cls c) :
    segment cls' (log.map f) e = (segment cls log e).map f := by
  simp [segment, List.filter_map, Function.comp_def, hf]

theorem segment_mono {log' : List α} (h : log <+: log') (e : ε) :
    segment cls log e <+: segment cls log' e :=
  h.filter _

/-- The `i`-th item of every segment has number `enc i`. -/
def Numbered (cls : α → ε) (number : α → ν) (enc : ℕ → ν) (log : List α) : Prop :=
  ∀ e i c, (segment cls log e)[i]? = some c → number c = enc i

variable {number : α → ν} {enc : ℕ → ν}

theorem Numbered.nil : Numbered cls number enc [] := by
  intro e i c h
  simp at h

theorem Numbered.snoc (h : Numbered cls number enc log)
    (hc : number c = enc (segment cls log (cls c)).length) :
    Numbered cls number enc (log ++ [c]) := by
  intro e i d hd
  by_cases he : cls c = e
  · subst he
    rw [segment_snoc_self, List.getElem?_append] at hd
    by_cases hi : i < (segment cls log (cls c)).length
    · rw [if_pos hi] at hd
      exact h _ _ _ hd
    · rw [if_neg hi, List.getElem?_singleton] at hd
      split at hd
      · next hz =>
        cases hd
        rw [hc, show i = (segment cls log (cls c)).length by omega]
      · cases hd
  · rw [segment_snoc_of_ne he] at hd
    exact h _ _ _ hd

/-- An item sits at some position of its segment, and carries the number of that position. -/
theorem Numbered.exists_index (h : Numbered cls number enc log) (hc : c ∈ log) :
    ∃ i < (segment cls log (cls c)).length, (segment cls log (cls c))[i]? = some c ∧
      number c = enc i := by
  obtain ⟨i, hi, hget⟩ := List.getElem_of_mem
    (mem_segment.mpr ⟨hc, rfl⟩ : c ∈ segment cls log (cls c))
  have hsome : (segment cls log (cls c))[i]? = some c := by rw [List.getElem?_eq_getElem hi, hget]
  exact ⟨i, hi, hsome, h _ _ _ hsome⟩

section

variable {B : ℕ} (hinj : ∀ i < B, ∀ j < B, enc i = enc j → i = j)
include hinj

/-- **No number is used twice in a class**, as long as no class outgrows the encoding. -/
theorem Numbered.pairwise (h : Numbered cls number enc log)
    (hB : ∀ e, (segment cls log e).length ≤ B) :
    log.Pairwise fun c d => cls c = cls d → number c ≠ number d := by
  induction log using List.reverseRecOn with
  | nil => exact List.Pairwise.nil
  | append_singleton log c ih =>
    have hlog : Numbered cls number enc log := fun e i d hd => h e i d (by
      rw [segment_append]
      exact List.getElem?_append_left (List.getElem?_eq_some_iff.mp hd).1 ▸ hd)
    have hBlog : ∀ e, (segment cls log e).length ≤ B := fun e => by
      have := hB e
      rw [segment_append, List.length_append] at this
      omega
    rw [List.pairwise_append]
    refine ⟨ih hlog hBlog, List.pairwise_singleton _ _, ?_⟩
    rintro d hd c' hc' hcls heq
    rw [List.mem_singleton] at hc'
    subst hc'
    -- The new item's number is the length of its segment; the old one's is smaller.
    obtain ⟨i, hi, -, hnum⟩ := hlog.exists_index hd
    have hnew : number c' = enc (segment cls log (cls c')).length := by
      refine h (cls c') _ c' ?_
      rw [segment_snoc_self]
      simp
    have hlen := hB (cls c')
    rw [segment_snoc_self, List.length_append, List.length_singleton] at hlen
    rw [hcls] at hi
    have := hinj i (by omega) _ (by omega) (hnum.symm.trans (heq.trans hnew))
    omega

/-- **Accepting in order.** If the first `m` items of a class have been accepted, an item of the
class with number `m` is the next one. -/
theorem Numbered.take_snoc (h : Numbered cls number enc log) (hc : c ∈ log)
    (hB : (segment cls log (cls c)).length ≤ B) {m : ℕ} (hm : m < B) (hnum : number c = enc m) :
    m < (segment cls log (cls c)).length ∧
      (segment cls log (cls c)).take m ++ [c] = (segment cls log (cls c)).take (m + 1) := by
  obtain ⟨i, hi, hget, hnum'⟩ := h.exists_index hc
  obtain rfl : i = m := hinj i (by omega) m hm (hnum'.symm.trans hnum)
  refine ⟨hi, ?_⟩
  rw [List.take_add_one, hget]
  rfl

end

/-! ### Sorted logs -/

section

variable [PartialOrder ε] {acc : List α}

/-- **A log accepted class by class.** Let both logs be sorted by class. If what was accepted of
each class is a prefix of it, and of every class below one that was accepted from it is all of it,
then what was accepted is a prefix. -/
theorem prefix_of_segments (hacc : acc.Pairwise fun c d => cls c ≤ cls d)
    (hlog : log.Pairwise fun c d => cls c ≤ cls d)
    (hseg : ∀ e, segment cls acc e <+: segment cls log e)
    (hwhole : ∀ c ∈ acc, ∀ e < cls c, segment cls acc e = segment cls log e) : acc <+: log := by
  induction acc using List.reverseRecOn with
  | nil => exact List.nil_prefix
  | append_singleton acc c ih =>
    rw [List.pairwise_append] at hacc
    have hle : ∀ d ∈ acc, cls d ≤ cls c := fun d hd => hacc.2.2 d hd c (by simp)
    have hsame : ∀ e < cls c, segment cls (acc ++ [c]) e = segment cls acc e :=
      fun e he => segment_snoc_of_ne he.ne'
    have hprefix : acc <+: log := by
      refine ih hacc.1 (fun e => ?_) fun d hd e he => ?_
      · exact (segment_mono (List.prefix_append _ _) e).trans (hseg e)
      · have hlt := he.trans_le (hle d hd)
        rw [← hsame e hlt]
        exact hwhole c (by simp) e hlt
    obtain ⟨rest, rfl⟩ := hprefix
    -- `c` is the first item of its class in the rest of the log.
    have hfirst : [c] <+: segment cls rest (cls c) := by
      have hc := hseg (cls c)
      rwa [segment_snoc_self, segment_append, List.prefix_append_right_inj] at hc
    cases rest with
    | nil => simp at hfirst
    | cons d rest =>
      have hsorted := List.pairwise_cons.mp (List.pairwise_append.mp hlog).2.1
      have hmem : c ∈ segment cls (d :: rest) (cls c) := hfirst.subset (by simp)
      have hdc : cls d ≤ cls c := by
        rcases List.mem_cons.mp (mem_segment.mp hmem).1 with rfl | hc
        · exact le_refl _
        · exact hsorted.1 c hc
      rcases hdc.lt_or_eq with hlt | heq
      · -- A smaller class would have been accepted to its end.
        have hend := hwhole c (by simp) (cls d) hlt
        rw [hsame _ hlt, segment_append, eq_comm, List.append_right_eq_self] at hend
        have hd : d ∈ segment cls (d :: rest) (cls d) := mem_segment.mpr ⟨by simp, rfl⟩
        rw [hend] at hd
        cases hd
      · have hcons : segment cls (d :: rest) (cls c) = d :: segment cls rest (cls c) := by
          simp [segment, heq]
        rw [hcons, List.cons_prefix_cons] at hfirst
        rw [hfirst.1]
        simp

/-- **A log with gaps.** Let both logs be sorted by class. If what was accepted of each class is a
prefix of it, then nothing was accepted twice or out of order. -/
theorem sublist_of_segments (hacc : acc.Pairwise fun c d => cls c ≤ cls d)
    (hlog : log.Pairwise fun c d => cls c ≤ cls d)
    (hseg : ∀ e, segment cls acc e <+: segment cls log e) : acc.Sublist log := by
  induction log generalizing acc with
  | nil =>
    have hnil : acc = [] := by
      refine List.eq_nil_iff_forall_not_mem.mpr fun c hc => ?_
      have hmem := (hseg (cls c)).subset (mem_segment.mpr ⟨hc, rfl⟩)
      cases hmem
    subst hnil
    exact List.nil_sublist _
  | cons d log ih =>
    obtain ⟨hd, hlog⟩ := List.pairwise_cons.mp hlog
    have hself : segment cls (d :: log) (cls d) = d :: segment cls log (cls d) := by
      simp [segment]
    have hother : ∀ e, cls d ≠ e → segment cls (d :: log) e = segment cls log e := by
      intro e he
      simp [segment, he]
    by_cases hfirst : ∃ acc', acc = d :: acc'
    · obtain ⟨acc, rfl⟩ := hfirst
      refine List.Sublist.cons_cons d (ih (List.pairwise_cons.mp hacc).2 hlog fun e => ?_)
      have he := hseg e
      by_cases hde : cls d = e
      · subst hde
        rw [hself, show segment cls (d :: acc) (cls d) = d :: segment cls acc (cls d) by
          simp [segment], List.cons_prefix_cons] at he
        exact he.2
      · rwa [hother e hde, show segment cls (d :: acc) e = segment cls acc e by
          simp [segment, hde]] at he
    · -- Then nothing was accepted of the class of `d`: its first item would be `d`.
      have hnone : segment cls acc (cls d) = [] := by
        cases acc with
        | nil => rfl
        | cons a acc =>
          have hne : cls a ≠ cls d := by
            intro heq
            have hhead := hseg (cls d)
            rw [hself, show segment cls (a :: acc) (cls d) = a :: segment cls acc (cls d) by
              simp [segment, heq], List.cons_prefix_cons] at hhead
            exact hfirst ⟨acc, by rw [hhead.1]⟩
          have ha : a ∈ log := by
            have hmem := (hseg (cls a)).subset (mem_segment.mpr ⟨List.mem_cons_self, rfl⟩)
            rw [hother _ (Ne.symm hne)] at hmem
            exact (mem_segment.mp hmem).1
          refine segment_eq_nil fun c hc heq => ?_
          rcases List.mem_cons.mp hc with rfl | hc
          · exact hne heq
          · have hle := (List.pairwise_cons.mp hacc).1 c hc
            rw [heq] at hle
            exact hne (le_antisymm hle (hd a ha))
      refine (ih hacc hlog fun e => ?_).cons d
      by_cases hde : cls d = e
      · rw [← hde, hnone]
        exact List.nil_prefix
      · rw [← hother e hde]
        exact hseg e

end

end Log
