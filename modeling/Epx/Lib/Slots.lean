import Mathlib.Data.List.Nodup
import Mathlib.Data.List.Perm.Subperm
import Mathlib.Logic.Function.Basic

/-!
# A table of cells without a lock

Threads share a table of cells. A scan goes through the cells one after the other and looks at each
in one atomic step: to put a value into the first free cell, to clear the cells that hold a value,
or to use every value that it finds. A thread can be interrupted in a scan by another scan, which
comes to its end first.

No scan sees the table as it is at one moment. What it has seen is compared here with the table when
it began and the changes since.

## Main definitions

* `Scan`, `Table`, `Event`
* `Table.push`, `Table.step` — a scan begins; the topmost scan of a thread takes a step
* `Table.Effect` — what a step can do
* `Scan.Sound`, `Table.Inv` — what a scan has seen

## Main results

* `Table.Inv.push`, `Table.Inv.step`
* `Scan.Sound.length_le` — no free cell is found only where there were many values
* `Scan.Sound.ne_of_remove` — a value that is removed is nowhere
* `Scan.Sound.mem_used` — a value that stays is used
-/

namespace Slots

variable {ι V T : Type*}

/-- What a scan is for. -/
inductive Purpose (V : Type*) where
  | insert (v : V)
  | remove (v : V)
  | visit
  /-- It has loaded a value and uses it next. -/
  | use (v : V)
  deriving DecidableEq

/-- What can happen to a cell. -/
inductive Change (ι V : Type*) where
  | placed (i : ι) (v : V)
  | cleared (i : ι) (v : V)
  deriving DecidableEq

/-- A scan under way. -/
structure Scan (ι V : Type*) where
  purpose : Purpose V
  /-- The cells that it has yet to look at. -/
  cells : List ι
  /-- The table when it began. -/
  start : ι → Option V
  /-- How many changes there were when it began. -/
  mark : ℕ
  used : List V := []

/-- The values that a visit has loaded. -/
def Scan.loaded (f : Scan ι V) : List V :=
  match f.purpose with
  | .use v => f.used ++ [v]
  | _ => f.used

/-- The cells, the scans of each thread, the topmost first, and all changes in their order. -/
structure Table (ι V T : Type*) where
  cell : ι → Option V := fun _ => none
  stack : T → List (Scan ι V) := fun _ => []
  changes : List (Change ι V) := []

/-- What a step of a scan comes to. -/
inductive Event (ι V : Type*) where
  | moved
  | used (v : V)
  /-- The scan has come to its end, for an insertion at the cell that it has taken. -/
  | returned (f : Scan ι V) (found : Option ι)

namespace Table

variable [DecidableEq ι] [DecidableEq T]

/-- A thread goes on with other scans on its stack. -/
def withStack (s : Table ι V T) (t : T) (fs : List (Scan ι V)) : Table ι V T :=
  { s with stack := Function.update s.stack t fs }

/-- A value gets into a cell. -/
def place (s : Table ι V T) (i : ι) (v : V) : Table ι V T :=
  { s with cell := Function.update s.cell i (some v), changes := s.changes ++ [.placed i v] }

def clear (s : Table ι V T) (i : ι) (v : V) : Table ι V T :=
  { s with cell := Function.update s.cell i none, changes := s.changes ++ [.cleared i v] }

/-- A scan begins, on top of what the thread does. -/
def push (s : Table ι V T) (t : T) (p : Purpose V) (order : List ι) : Table ι V T :=
  s.withStack t ({ purpose := p, cells := order, start := s.cell, mark := s.changes.length } ::
    s.stack t)

/-- The topmost scan of a thread takes a step. -/
def step [DecidableEq V] (s : Table ι V T) (t : T) : Option (Table ι V T × Event ι V) :=
  match s.stack t with
  | [] => none
  | f :: below =>
    match f.purpose, f.cells with
    | .insert v, i :: cells =>
      if s.cell i = none then some ((s.place i v).withStack t below, .returned f (some i))
      else some (s.withStack t ({ f with cells := cells } :: below), .moved)
    | .remove v, i :: cells =>
      let s' := if s.cell i = some v then s.clear i v else s
      some (s'.withStack t ({ f with cells := cells } :: below), .moved)
    | .visit, i :: cells =>
      let p := match s.cell i with
        | some v => .use v
        | none => .visit
      some (s.withStack t ({ f with cells := cells, purpose := p } :: below), .moved)
    | .use v, _ =>
      some (s.withStack t ({ f with purpose := .visit, used := f.used ++ [v] } :: below), .used v)
    | _, [] => some (s.withStack t below, .returned f none)

variable {s s' : Table ι V T} {t : T} {e : Event ι V} {f : Scan ι V} {below : List (Scan ι V)}
  {i : ι} {v : V} {cells : List ι}

/-- One constructor for each way a step can go. -/
inductive Effect (s : Table ι V T) (t : T) : Table ι V T → Event ι V → Prop
  | place {f : Scan ι V} {below : List (Scan ι V)} {v : V} {i : ι} {cells : List ι} :
      s.stack t = f :: below → f.purpose = .insert v → f.cells = i :: cells → s.cell i = none →
      Effect s t ((s.place i v).withStack t below) (.returned f (some i))
  | pass {f : Scan ι V} {below : List (Scan ι V)} {v w : V} {i : ι} {cells : List ι} :
      s.stack t = f :: below → f.purpose = .insert v → f.cells = i :: cells →
      s.cell i = some w → Effect s t (s.withStack t ({ f with cells := cells } :: below)) .moved
  | clear {f : Scan ι V} {below : List (Scan ι V)} {v : V} {i : ι} {cells : List ι} :
      s.stack t = f :: below → f.purpose = .remove v → f.cells = i :: cells →
      s.cell i = some v →
      Effect s t ((s.clear i v).withStack t ({ f with cells := cells } :: below)) .moved
  | spare {f : Scan ι V} {below : List (Scan ι V)} {v : V} {i : ι} {cells : List ι} :
      s.stack t = f :: below → f.purpose = .remove v → f.cells = i :: cells →
      s.cell i ≠ some v → Effect s t (s.withStack t ({ f with cells := cells } :: below)) .moved
  | skip {f : Scan ι V} {below : List (Scan ι V)} {i : ι} {cells : List ι} :
      s.stack t = f :: below → f.purpose = .visit → f.cells = i :: cells → s.cell i = none →
      Effect s t (s.withStack t ({ f with cells := cells } :: below)) .moved
  | load {f : Scan ι V} {below : List (Scan ι V)} {v : V} {i : ι} {cells : List ι} :
      s.stack t = f :: below → f.purpose = .visit → f.cells = i :: cells → s.cell i = some v →
      Effect s t (s.withStack t ({ f with cells := cells, purpose := .use v } :: below)) .moved
  | use {f : Scan ι V} {below : List (Scan ι V)} {v : V} :
      s.stack t = f :: below → f.purpose = .use v →
      Effect s t
        (s.withStack t ({ f with purpose := .visit, used := f.used ++ [v] } :: below)) (.used v)
  | finish {f : Scan ι V} {below : List (Scan ι V)} :
      s.stack t = f :: below → f.cells = [] → (∀ v, f.purpose ≠ .use v) →
      Effect s t (s.withStack t below) (.returned f none)

theorem effect_of_step [DecidableEq V] (h : s.step t = some (s', e)) : s.Effect t s' e := by
  rw [step] at h
  split at h
  · cases h
  · rename_i f below hstack
    split at h
    · rename_i v i cells hp hcells
      split at h
      · rename_i hfree
        cases h
        exact .place hstack hp hcells hfree
      · rename_i htaken
        cases h
        obtain ⟨w, hw⟩ := Option.ne_none_iff_exists'.mp htaken
        exact .pass hstack hp hcells hw
    · rename_i v i cells hp hcells
      cases h
      by_cases hv : s.cell i = some v
      · rw [if_pos hv]
        exact .clear hstack hp hcells hv
      · rw [if_neg hv]
        exact .spare hstack hp hcells hv
    · rename_i i cells hp hcells
      cases h
      cases hcell : s.cell i with
      | none =>
        have hskip := Effect.skip hstack hp hcells hcell
        rwa [← hp]
      | some v => exact .load hstack hp hcells hcell
    · rename_i v hp
      cases h
      exact .use hstack hp
    · rename_i hcells huse
      cases h
      exact .finish hstack hcells huse

end Table

/-! ### What a scan has seen -/

/-- The changes since a scan began. -/
def Scan.since (f : Scan ι V) (changes : List (Change ι V)) : List (Change ι V) :=
  changes.drop f.mark

/-- What a scan knows about a cell that it has looked at. -/
def Scan.Looked (f : Scan ι V) (cell : ι → Option V) (since : List (Change ι V)) (i : ι) : Prop :=
  match f.purpose with
  | .insert _ => f.start i ≠ none ∨ ∃ w, .placed i w ∈ since
  | .remove v => cell i = some v → .placed i v ∈ since
  | .visit | .use _ => ∀ v, f.start i = some v → v ∈ f.loaded ∨ .cleared i v ∈ since

/-- How a scan stands to the table as it is now: what was in a cell when the scan began is there or
was cleared, what is there was there or was placed, and the same goes for what the scan has seen. -/
structure Scan.Sound (order : List ι) (cell : ι → Option V) (changes : List (Change ι V))
    (f : Scan ι V) : Prop where
  mark_le : f.mark ≤ changes.length
  kept : ∀ i v, f.start i = some v → cell i = some v ∨ .cleared i v ∈ f.since changes
  came : ∀ i v, cell i = some v → f.start i = some v ∨ .placed i v ∈ f.since changes
  looked : ∃ done, order = done ++ f.cells ∧ ∀ i ∈ done, f.Looked cell (f.since changes) i
  loaded : ∀ v ∈ f.loaded, ∃ i, f.start i = some v ∨ .placed i v ∈ f.since changes

namespace Scan

variable {order : List ι} {cell cell' : ι → Option V} {changes : List (Change ι V)}
  {c : Change ι V} {f : Scan ι V} {i : ι} {v : V} {cells : List ι}

theorem since_append (h : f.mark ≤ changes.length) :
    f.since (changes ++ [c]) = f.since changes ++ [c] :=
  List.drop_append_of_le_length h

/-- A scan that has just begun. -/
theorem Sound.begin {p : Purpose V} (hp : ∀ v, p ≠ .use v) :
    Sound order cell changes
      { purpose := p, cells := order, start := cell, mark := changes.length } where
  mark_le := Nat.le_refl _
  kept _ _ h := Or.inl h
  came _ _ h := Or.inl h
  looked := ⟨[], rfl, fun _ hi => absurd hi List.not_mem_nil⟩
  loaded v hv := by
    cases p with
    | use w => exact absurd rfl (hp w)
    | insert _ | remove _ | visit => exact absurd hv List.not_mem_nil

/-- A change in the table is one that every scan can account for. -/
theorem Sound.change (h : f.Sound order cell changes)
    (hout : ∀ i v, cell i = some v → cell' i = some v ∨ c = .cleared i v)
    (hin : ∀ i v, cell' i = some v → cell i = some v ∨ c = .placed i v) :
    f.Sound order cell' (changes ++ [c]) := by
  have hsince : f.since (changes ++ [c]) = f.since changes ++ [c] := since_append h.mark_le
  have hold : ∀ d ∈ f.since changes, d ∈ f.since (changes ++ [c]) := fun d hd => by
    rw [hsince]
    exact List.mem_append_left _ hd
  have hnew : ∀ d, c = d → d ∈ f.since (changes ++ [c]) := fun d hd => by
    rw [hsince, hd]
    exact List.mem_append_right _ List.mem_cons_self
  refine ⟨?_, fun i v hi => ?_, fun i v hi => ?_, ?_, fun v hv => ?_⟩
  · rw [List.length_append]
    exact Nat.le_trans h.mark_le (Nat.le_add_right _ _)
  · rcases h.kept i v hi with hcell | hcleared
    · exact (hout i v hcell).imp_right (hnew _)
    · exact Or.inr (hold _ hcleared)
  · rcases hin i v hi with hcell | hplaced
    · exact (h.came i v hcell).imp_right (hold _)
    · exact Or.inr (hnew _ hplaced)
  · obtain ⟨done, horder, hdone⟩ := h.looked
    refine ⟨done, horder, fun i hi => ?_⟩
    have hlooked := hdone i hi
    unfold Looked at hlooked ⊢
    split at hlooked
    · exact hlooked.imp_right fun ⟨w, hw⟩ => ⟨w, hold _ hw⟩
    · intro hcell
      rcases hin i _ hcell with hcell | hplaced
      · exact hold _ (hlooked hcell)
      · exact hnew _ hplaced
    all_goals exact fun v hv => (hlooked v hv).imp_right (hold _)
  · obtain ⟨i, hi⟩ := h.loaded v hv
    exact ⟨i, hi.imp_right (hold _)⟩

/-- A scan goes on to the next cell. -/
theorem Sound.next {g : Scan ι V} (h : f.Sound order cell changes) (hcells : f.cells = i :: cells)
    (hg : g.cells = cells) (hstart : g.start = f.start) (hmark : g.mark = f.mark)
    (hlooked : ∀ j, f.Looked cell (f.since changes) j → g.Looked cell (f.since changes) j)
    (hlast : g.Looked cell (f.since changes) i)
    (hloaded : ∀ v ∈ g.loaded, v ∈ f.loaded ∨ cell i = some v) :
    g.Sound order cell changes := by
  have hsince : g.since changes = f.since changes := by rw [since, since, hmark]
  refine ⟨hmark ▸ h.mark_le, ?_, ?_, ?_, fun v hv => ?_⟩
  · rw [hstart, hsince]
    exact h.kept
  · rw [hstart, hsince]
    exact h.came
  · obtain ⟨done, horder, hdone⟩ := h.looked
    refine ⟨done ++ [i], by rw [horder, hcells, hg, List.append_assoc, List.singleton_append], ?_⟩
    rw [hsince]
    intro j hj
    rcases List.mem_append.mp hj with hj | hj
    · exact hlooked j (hdone j hj)
    · rw [List.mem_singleton.mp hj]
      exact hlast
  · rw [hstart, hsince]
    rcases hloaded v hv with hv | hv
    · exact h.loaded v hv
    · exact ⟨i, h.came i v hv⟩

/-- An insertion leaves a cell behind that is taken. -/
theorem Sound.pass {w : V} (h : f.Sound order cell changes) (hp : f.purpose = .insert v)
    (hcells : f.cells = i :: cells) (hi : cell i = some w) :
    Sound order cell changes { f with cells := cells } := by
  refine h.next hcells rfl rfl rfl (fun j hj => hj) ?_ fun x hx => Or.inl hx
  simp only [Looked, hp]
  exact (h.came i w hi).imp (fun hstart => by rw [hstart]; exact Option.some_ne_none w)
    fun hplaced => ⟨w, hplaced⟩

/-- A removal leaves a cell behind that does not hold its value. -/
theorem Sound.spare (h : f.Sound order cell changes) (hp : f.purpose = .remove v)
    (hcells : f.cells = i :: cells) (hi : cell i ≠ some v) :
    Sound order cell changes { f with cells := cells } := by
  refine h.next hcells rfl rfl rfl (fun j hj => hj) ?_ fun x hx => Or.inl hx
  simp only [Looked, hp]
  exact fun hcell => absurd hcell hi

/-- A visit leaves a free cell behind. -/
theorem Sound.skip (h : f.Sound order cell changes) (hp : f.purpose = .visit)
    (hcells : f.cells = i :: cells) (hi : cell i = none) :
    Sound order cell changes { f with cells := cells } := by
  refine h.next hcells rfl rfl rfl (fun j hj => hj) ?_ fun x hx => Or.inl hx
  simp only [Looked, hp]
  intro x hx
  rcases h.kept i x hx with hcell | hcleared
  · rw [hi] at hcell
    cases hcell
  · exact Or.inr hcleared

/-- A visit loads what it finds. -/
theorem Sound.load (h : f.Sound order cell changes) (hp : f.purpose = .visit)
    (hcells : f.cells = i :: cells) (hi : cell i = some v) :
    Sound order cell changes { f with cells := cells, purpose := .use v } := by
  have hloaded : f.loaded = f.used := by rw [Scan.loaded, hp]
  refine h.next hcells rfl rfl rfl (fun j hj => ?_) ?_ fun x hx => ?_
  · simp only [Looked, hp, hloaded] at hj
    simp only [Looked, Scan.loaded]
    exact fun x hx => (hj x hx).imp_left (List.mem_append_left _)
  · simp only [Looked, Scan.loaded]
    intro x hx
    rcases h.kept i x hx with hcell | hcleared
    · rw [hi] at hcell
      rw [Option.some.inj hcell]
      exact Or.inl (List.mem_append_right _ List.mem_cons_self)
    · exact Or.inr hcleared
  · rcases List.mem_append.mp hx with hx | hx
    · exact Or.inl (by rwa [hloaded])
    · exact Or.inr (by rw [List.mem_singleton.mp hx]; exact hi)

/-- A visit uses what it has loaded. -/
theorem Sound.use (h : f.Sound order cell changes) (hp : f.purpose = .use v) :
    Sound order cell changes { f with purpose := .visit, used := f.used ++ [v] } := by
  have hloaded : f.loaded = f.used ++ [v] := by rw [Scan.loaded, hp]
  obtain ⟨done, horder, hdone⟩ := h.looked
  refine ⟨h.mark_le, h.kept, h.came, ⟨done, horder, fun j hj => ?_⟩, fun x hx => ?_⟩
  · have hlooked := hdone j hj
    simp only [Looked, hp, hloaded] at hlooked
    exact hlooked
  · exact h.loaded x (by rw [hloaded]; exact hx)

end Scan

namespace Table

/-- Every scan under way has seen what was there. -/
def Inv (order : List ι) (s : Table ι V T) : Prop :=
  ∀ t, ∀ f ∈ s.stack t, f.Sound order s.cell s.changes

variable {order : List ι} {s s' : Table ι V T} {t : T} {e : Event ι V} {f : Scan ι V}
  {below : List (Scan ι V)} {i j : ι} {v w : V}

section

variable [DecidableEq T]

@[simp] theorem stack_withStack_self {fs : List (Scan ι V)} : (s.withStack t fs).stack t = fs :=
  Function.update_self ..

theorem stack_withStack_of_ne {u : T} {fs : List (Scan ι V)} (h : u ≠ t) :
    (s.withStack t fs).stack u = s.stack u :=
  Function.update_of_ne h ..

theorem Inv.withStack (h : s.Inv order) {fs : List (Scan ι V)}
    (hfs : ∀ f ∈ fs, f.Sound order s.cell s.changes) : (s.withStack t fs).Inv order := by
  intro u f hf
  by_cases hu : u = t
  · subst hu
    rw [stack_withStack_self] at hf
    exact hfs f hf
  · rw [stack_withStack_of_ne hu] at hf
    exact h u f hf

end

section

variable [DecidableEq ι]

theorem cell_place_self : (s.place i v).cell i = some v := Function.update_self ..

theorem cell_place_of_ne (h : j ≠ i) : (s.place i v).cell j = s.cell j := Function.update_of_ne h ..

theorem cell_clear_self : (s.clear i v).cell i = none := Function.update_self ..

theorem cell_clear_of_ne (h : j ≠ i) : (s.clear i v).cell j = s.cell j := Function.update_of_ne h ..

end

/-- A scan begins on top of the others. -/
theorem mem_stack_push [DecidableEq T] {p : Purpose V} {u : T} {f : Scan ι V}
    (hf : f ∈ (s.push t p order).stack u) :
    f ∈ s.stack u ∨
      u = t ∧ f = { purpose := p, cells := order, start := s.cell, mark := s.changes.length } := by
  by_cases hu : u = t
  · subst hu
    rw [push, stack_withStack_self] at hf
    exact (List.mem_cons.mp hf).symm.imp_right fun hf => ⟨rfl, hf⟩
  · rw [push, stack_withStack_of_ne hu] at hf
    exact Or.inl hf

/-- A scan begins. -/
theorem Inv.push [DecidableEq T] (h : s.Inv order) {p : Purpose V} (hp : ∀ v, p ≠ .use v) :
    (s.push t p order).Inv order := by
  refine h.withStack fun f hf => ?_
  rcases List.mem_cons.mp hf with rfl | hf
  · exact .begin hp
  · exact h t f hf

theorem Inv.place [DecidableEq ι] (h : s.Inv order) (hi : s.cell i = none) :
    (s.place i v).Inv order := by
  intro u f hf
  refine (h u f hf).change (fun j w hj => Or.inl ?_) fun j w hj => ?_
  · have hne : j ≠ i := by
      rintro rfl
      rw [hi] at hj
      cases hj
    rwa [cell_place_of_ne hne]
  · by_cases hne : j = i
    · subst hne
      rw [cell_place_self] at hj
      exact Or.inr (by rw [Option.some.inj hj])
    · rw [cell_place_of_ne hne] at hj
      exact Or.inl hj

theorem Inv.clear [DecidableEq ι] (h : s.Inv order) (hi : s.cell i = some v) :
    (s.clear i v).Inv order := by
  intro u f hf
  refine (h u f hf).change (fun j w hj => ?_) fun j w hj => Or.inl ?_
  · by_cases hne : j = i
    · subst hne
      rw [hi] at hj
      exact Or.inr (by rw [Option.some.inj hj])
    · exact Or.inl (by rwa [cell_clear_of_ne hne])
  · have hne : j ≠ i := by
      rintro rfl
      rw [cell_clear_self] at hj
      cases hj
    rwa [cell_clear_of_ne hne] at hj

/-- The topmost scan, and the others. -/
theorem Inv.split (h : s.Inv order) (hstack : s.stack t = f :: below) :
    f.Sound order s.cell s.changes ∧ ∀ g ∈ below, g.Sound order s.cell s.changes := by
  refine ⟨h t f ?_, fun g hg => h t g ?_⟩
  · rw [hstack]
    exact List.mem_cons_self
  · rw [hstack]
    exact List.mem_cons_of_mem _ hg

/-- The topmost scan goes on. -/
theorem Inv.goOn [DecidableEq T] (h : s.Inv order) (hstack : s.stack t = f :: below) {g : Scan ι V}
    (hg : f.Sound order s.cell s.changes → g.Sound order s.cell s.changes) :
    (s.withStack t (g :: below)).Inv order := by
  obtain ⟨hf, hbelow⟩ := h.split hstack
  refine h.withStack fun g' hg' => ?_
  rcases List.mem_cons.mp hg' with rfl | hg'
  · exact hg hf
  · exact hbelow g' hg'

/-- **What a scan has seen was there**, while it was under way. -/
theorem Inv.step [DecidableEq ι] [DecidableEq V] [DecidableEq T] (h : s.Inv order)
    (hstep : s.step t = some (s', e)) : s'.Inv order := by
  cases effect_of_step hstep with
  | @place f below v i cells hstack hp hcells hfree =>
    have hs : (s.place i v).Inv order := h.place hfree
    exact hs.withStack (hs.split hstack).2
  | pass hstack hp hcells hw => exact h.goOn hstack fun hf => hf.pass hp hcells hw
  | @clear f below v i cells hstack hp hcells hv =>
    have hs : (s.clear i v).Inv order := h.clear hv
    refine hs.goOn hstack fun hf => hf.spare hp hcells ?_
    rw [cell_clear_self]
    exact fun habs => by cases habs
  | spare hstack hp hcells hv => exact h.goOn hstack fun hf => hf.spare hp hcells hv
  | skip hstack hp hcells hfree => exact h.goOn hstack fun hf => hf.skip hp hcells hfree
  | load hstack hp hcells hv => exact h.goOn hstack fun hf => hf.load hp hcells hv
  | use hstack hp => exact h.goOn hstack fun hf => hf.use hp
  | finish hstack _ _ => exact h.withStack (h.split hstack).2

end Table

/-! ### What a step changes -/

/-- How a scan goes on: as what it was, with what it finds in the table. -/
structure Scan.Goes (s : Table ι V T) (e : Event ι V) (f g : Scan ι V) : Prop where
  purpose : g.purpose = f.purpose ∨ ∀ v, (f.purpose ≠ .insert v ∧ f.purpose ≠ .remove v) ∧
    g.purpose ≠ .insert v ∧ g.purpose ≠ .remove v
  start : g.start = f.start
  mark : g.mark = f.mark
  loaded : ∀ v ∈ g.loaded, v ∈ f.loaded ∨ ∃ i, s.cell i = some v
  used : ∀ v ∈ g.used, v ∈ f.used ∨ e = .used v
  use : ∀ v, g.purpose = .use v → f.purpose = .use v ∨ ∃ i, s.cell i = some v

namespace Scan

variable {s : Table ι V T} {e : Event ι V} {f g : Scan ι V} {v : V}

theorem Goes.refl : Goes s e f f where
  purpose := Or.inl rfl
  start := rfl
  mark := rfl
  loaded _ hv := Or.inl hv
  used _ hv := Or.inl hv
  use _ hv := Or.inl hv

theorem mem_loaded_of_use (h : f.purpose = .use v) : v ∈ f.loaded := by
  rw [loaded, h]
  exact List.mem_append_right _ List.mem_cons_self

theorem mem_loaded_of_used (h : v ∈ f.used) : v ∈ f.loaded := by
  rw [loaded]
  split
  · exact List.mem_append_left _ h
  · exact h

theorem Goes.insert (h : Goes s e f g) (hg : g.purpose = .insert v) : f.purpose = .insert v := by
  rcases h.purpose with hp | hp
  · rw [← hp, hg]
  · exact absurd hg (hp v).2.1

theorem Goes.remove (h : Goes s e f g) (hg : g.purpose = .remove v) : f.purpose = .remove v := by
  rcases h.purpose with hp | hp
  · rw [← hp, hg]
  · exact absurd hg (hp v).2.2

theorem Goes.since (h : Goes s e f g) {changes : List (Change ι V)} :
    g.since changes = f.since changes := by rw [Scan.since, Scan.since, h.mark]

end Scan

namespace Table

variable [DecidableEq ι] [DecidableEq T] {s s' : Table ι V T} {t u : T}
  {e : Event ι V} {f g : Scan ι V} {i : ι} {v : V}

/-- Only the stack of the thread changes, where the topmost scan goes on or is done. -/
theorem Effect.stack (h : s.Effect t s' e) :
    ∃ f below fs, s.stack t = f :: below ∧ s'.stack = Function.update s.stack t fs ∧
      ((fs = below ∧ ∃ found, e = .returned f found) ∨
        (∃ g, fs = g :: below ∧ Scan.Goes s e f g) ∧ ∀ f' found, e ≠ .returned f' found) := by
  cases h with
  | place hstack _ _ _ => exact ⟨_, _, _, hstack, rfl, Or.inl ⟨rfl, _, rfl⟩⟩
  | finish hstack _ _ => exact ⟨_, _, _, hstack, rfl, Or.inl ⟨rfl, _, rfl⟩⟩
  | pass hstack hp _ _ | clear hstack hp _ _ | spare hstack hp _ _ | skip hstack hp _ _ =>
    refine ⟨_, _, _, hstack, rfl, Or.inr ⟨⟨_, rfl, Or.inl rfl, rfl, rfl, fun v hv => Or.inl ?_,
      fun v hv => Or.inl hv, fun v hv => Or.inl hv⟩, fun _ _ heq => by cases heq⟩⟩
    simpa only [Scan.loaded, hp] using hv
  | @load f below v i cells hstack hp hcells hv =>
    refine ⟨_, _, _, hstack, rfl, Or.inr ⟨⟨_, rfl, Or.inr fun w => ?_, rfl, rfl, fun w hw => ?_,
      fun w hw => Or.inl hw, fun w hw => Or.inr ⟨i, ?_⟩⟩, fun _ _ heq => by cases heq⟩⟩
    · simp [hp]
    · rcases List.mem_append.mp hw with hw | hw
      · exact Or.inl (Scan.mem_loaded_of_used hw)
      · exact Or.inr ⟨i, by rw [List.mem_singleton.mp hw]; exact hv⟩
    · rw [hv, Purpose.use.inj hw]
  | @use f below v hstack hp =>
    refine ⟨_, _, _, hstack, rfl, Or.inr ⟨⟨_, rfl, Or.inr fun w => ?_, rfl, rfl, fun w hw => ?_,
      fun w hw => ?_, fun w hw => by cases hw⟩, fun _ _ heq => by cases heq⟩⟩
    · simp [hp]
    · rw [Scan.loaded, hp]
      exact Or.inl hw
    · rcases List.mem_append.mp hw with hw | hw
      · exact Or.inl hw
      · exact Or.inr (by rw [List.mem_singleton.mp hw])

/-- A scan under way was under way before. -/
theorem Effect.goes (h : s.Effect t s' e) (hg : g ∈ s'.stack u) :
    ∃ f ∈ s.stack u, Scan.Goes s e f g := by
  obtain ⟨f, below, fs, hstack, hstack', hfs⟩ := h.stack
  rw [hstack'] at hg
  by_cases hu : u = t
  · subst hu
    rw [Function.update_self] at hg
    rw [hstack]
    rcases hfs with ⟨rfl, -⟩ | ⟨⟨f', rfl, hgoes⟩, -⟩
    · exact ⟨g, List.mem_cons_of_mem _ hg, .refl⟩
    · rcases List.mem_cons.mp hg with rfl | hg
      · exact ⟨f, List.mem_cons_self, hgoes⟩
      · exact ⟨g, List.mem_cons_of_mem _ hg, .refl⟩
  · rw [Function.update_of_ne hu] at hg
    exact ⟨g, hg, .refl⟩

/-- A scan that has returned was the topmost one. -/
theorem Effect.returned {found : Option ι} (h : s.Effect t s' (.returned f found)) :
    ∃ below, s.stack t = f :: below ∧ s'.stack t = below := by
  obtain ⟨f', below, fs, hstack, hstack', ⟨rfl, found', heq⟩ | ⟨-, hne⟩⟩ := h.stack
  · cases heq
    exact ⟨fs, hstack, by rw [hstack', Function.update_self]⟩
  · exact absurd rfl (hne f found)

/-- A scan that has found nothing has come to the end of the table. -/
theorem Effect.returned_none (h : s.Effect t s' (.returned f none)) :
    f.cells = [] ∧ (∀ v, f.purpose ≠ .use v) ∧ s'.cell = s.cell ∧ s'.changes = s.changes := by
  cases h with
  | finish _ hcells hp => exact ⟨hcells, hp, rfl, rfl⟩

/-- What has found a cell is an insertion. -/
theorem Effect.returned_some (h : s.Effect t s' (.returned f (some i))) :
    ∃ v, f.purpose = .insert v ∧ s'.cell i = some v := by
  cases h with
  | place _ hp _ _ => exact ⟨_, hp, cell_place_self⟩

/-- A value that is used is the one that the topmost scan has loaded. -/
theorem Effect.use_of_used (h : s.Effect t s' (.used v)) :
    ∃ f ∈ s.stack t, f.purpose = .use v := by
  cases h with
  | use hstack hp => exact ⟨_, by rw [hstack]; exact List.mem_cons_self, hp⟩

/-- What comes into a cell is put there by an insertion. -/
theorem Effect.placed (h : s.Effect t s' e) (hi : s'.cell i = some v) :
    s.cell i = some v ∨ ∃ f ∈ s.stack t, f.purpose = .insert v ∧ e = .returned f (some i) := by
  cases h with
  | @place f below w j cells hstack hp _ _ =>
    by_cases hj : i = j
    · subst hj
      have heq : some w = some v := cell_place_self.symm.trans hi
      cases heq
      exact Or.inr ⟨f, by rw [hstack]; exact List.mem_cons_self, hp, rfl⟩
    · exact Or.inl ((cell_place_of_ne hj).symm.trans hi)
  | @clear f below w j cells _ _ _ _ =>
    by_cases hj : i = j
    · subst hj
      have heq : none = some v := (cell_clear_self (v := w)).symm.trans hi
      cases heq
    · exact Or.inl ((cell_clear_of_ne (v := w) hj).symm.trans hi)
  | pass | spare | skip | load | use | finish => exact Or.inl hi

/-- What goes out of a cell is removed. -/
theorem Effect.kept (h : s.Effect t s' e) (hi : s.cell i = some v) :
    s'.cell i = some v ∨ ∃ f ∈ s.stack t, f.purpose = .remove v := by
  cases h with
  | @place f below w j cells _ _ _ hfree =>
    have hj : i ≠ j := by
      rintro rfl
      rw [hfree] at hi
      cases hi
    exact Or.inl ((cell_place_of_ne hj).trans hi)
  | @clear f below w j cells hstack hp _ hw =>
    by_cases hj : i = j
    · subst hj
      rw [hw] at hi
      cases hi
      exact Or.inr ⟨f, by rw [hstack]; exact List.mem_cons_self, hp⟩
    · exact Or.inl ((cell_clear_of_ne (v := w) hj).trans hi)
  | pass | spare | skip | load | use | finish => exact Or.inl hi

/-- A change is an insertion's or a removal's. -/
theorem Effect.changes (h : s.Effect t s' e) :
    s'.changes = s.changes ∨ ∃ c, s'.changes = s.changes ++ [c] ∧ ∃ f ∈ s.stack t, ∃ i v,
      (c = .placed i v ∧ f.purpose = .insert v) ∨ (c = .cleared i v ∧ f.purpose = .remove v) := by
  cases h with
  | @place f below v i cells hstack hp _ _ =>
    have hf : f ∈ s.stack t := by rw [hstack]; exact List.mem_cons_self
    exact Or.inr ⟨_, rfl, f, hf, i, v, Or.inl ⟨rfl, hp⟩⟩
  | @clear f below v i cells hstack hp _ _ =>
    have hf : f ∈ s.stack t := by rw [hstack]; exact List.mem_cons_self
    exact Or.inr ⟨_, rfl, f, hf, i, v, Or.inr ⟨rfl, hp⟩⟩
  | pass | spare | skip | load | use | finish => exact Or.inl rfl

end Table

/-! ### Scans that have come to their end -/

namespace Scan

variable {order : List ι} {cell : ι → Option V} {changes : List (Change ι V)} {f : Scan ι V} {v : V}

/-- The cells that were taken when a scan began. -/
def before (f : Scan ι V) (order : List ι) : List ι := order.filter fun i => (f.start i).isSome

/-- The cells that have been taken since. -/
def during (f : Scan ι V) (changes : List (Change ι V)) : List ι :=
  (f.since changes).filterMap fun
    | .placed i _ => some i
    | .cleared _ _ => none

theorem Sound.looked_of_cells (h : f.Sound order cell changes) (hcells : f.cells = []) {i : ι}
    (hi : i ∈ order) : f.Looked cell (f.since changes) i := by
  obtain ⟨done, horder, hdone⟩ := h.looked
  rw [hcells, List.append_nil] at horder
  exact hdone i (horder ▸ hi)

/-- **A value is turned away only from a full table**, as far as a scan can tell: for every cell
there was a value in it at the start, or one has come since. -/
theorem Sound.length_le [DecidableEq ι] (h : f.Sound order cell changes) (hcells : f.cells = [])
    (hp : f.purpose = .insert v) (hnodup : order.Nodup) :
    order.length ≤ (f.before order).length + (f.during changes).length := by
  rw [← List.length_append]
  refine (List.Nodup.subperm hnodup fun i hi => ?_).length_le
  have hlooked := h.looked_of_cells hcells hi
  simp only [Looked, hp] at hlooked
  rcases hlooked with hstart | ⟨w, hw⟩
  · exact List.mem_append_left _ (List.mem_filter.mpr ⟨hi, Option.isSome_iff_ne_none.mpr hstart⟩)
  · exact List.mem_append_right _ (List.mem_filterMap.mpr ⟨_, hw, rfl⟩)

/-- **A value that is removed is nowhere**, unless it has come again. -/
theorem Sound.ne_of_remove (h : f.Sound order cell changes) (hcells : f.cells = [])
    (hp : f.purpose = .remove v) {i : ι} (hi : i ∈ order)
    (hplaced : .placed i v ∉ f.since changes) : cell i ≠ some v := by
  have hlooked := h.looked_of_cells hcells hi
  simp only [Looked, hp] at hlooked
  exact fun hcell => hplaced (hlooked hcell)

/-- **A value that stays is used.** -/
theorem Sound.mem_used (h : f.Sound order cell changes) (hcells : f.cells = [])
    (hp : f.purpose = .visit) {i : ι} (hi : i ∈ order) (hstart : f.start i = some v)
    (hcleared : .cleared i v ∉ f.since changes) : v ∈ f.used := by
  have hlooked := h.looked_of_cells hcells hi
  simp only [Looked, hp] at hlooked
  have hloaded : f.loaded = f.used := by rw [Scan.loaded, hp]
  rw [← hloaded]
  exact (hlooked v hstart).resolve_right hcleared

end Scan

end Slots
