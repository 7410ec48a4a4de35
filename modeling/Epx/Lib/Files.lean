import Epx.Lib.Bytes
import Mathlib.Data.List.Basic
import Mathlib.Logic.Function.Basic

/-!
# Files

A directory of names for files, as far as processes share it. A name stands for a file by its
number; who has a file open keeps the number, whatever becomes of the name. Opening a name to write
creates the file or empties the one that is there, a write replaces bytes at an offset, and a rename
moves a name in one step over another.

## Main definitions

* `Files`, `Files.read` — what the names stand for
* `Files.create`, `Files.writeAt`, `Files.rename`
* `Files.Sound` — different names stand for different files

## Main results

* `Files.Sound.create`, `Files.Sound.rename`
* `Files.read_create_of_ne`, `Files.read_writeAt_of_ne`, `Files.read_rename` — what each operation
  leaves and what it changes
-/

open Codec

/-- The contents of the files, the number of the next one, and the names. -/
structure Files (ν : Type*) where
  data : ℕ → Bytes := fun _ => []
  next : ℕ := 0
  name : ν → Option ℕ := fun _ => none

/-- Bytes replaced at an offset; a gap is filled with zeros. -/
def overwrite (old : Bytes) (off : ℕ) (chunk : Bytes) : Bytes :=
  old.take off ++ List.replicate (off - old.length) 0 ++ chunk ++ old.drop (off + chunk.length)

theorem overwrite_length (old chunk : Bytes) : overwrite old old.length chunk = old ++ chunk := by
  simp [overwrite]

namespace Files

variable {ν : Type*} {f f' : Files ν} {a b : ν} {i : ℕ}

/-- What a name stands for. -/
def read (f : Files ν) (a : ν) : Option Bytes := (f.name a).map f.data

/-- A write at an offset of an open file. -/
def writeAt (f : Files ν) (i off : ℕ) (chunk : Bytes) : Files ν :=
  { f with data := Function.update f.data i (overwrite (f.data i) off chunk) }

/-- Different names stand for different files, all of them numbered before `next`. -/
structure Sound (f : Files ν) : Prop where
  inj : ∀ a b i, f.name a = some i → f.name b = some i → a = b
  lt : ∀ a i, f.name a = some i → i < f.next

theorem read_eq_some (h : f.name a = some i) : f.read a = some (f.data i) := by
  rw [read, h]
  rfl

/-! ### Writing -/

theorem Sound.writeAt (h : f.Sound) (i off : ℕ) (chunk : Bytes) : (f.writeAt i off chunk).Sound :=
  ⟨h.inj, h.lt⟩

/-- A name that does not stand for the file stands for what it stood for. -/
theorem read_writeAt_of_ne (h : f.name b ≠ some i) (off : ℕ) (chunk : Bytes) :
    (f.writeAt i off chunk).read b = f.read b := by
  rw [read, read]
  change Option.map _ (f.name b) = _
  cases hb : f.name b with
  | none => rfl
  | some j =>
    have hj : j ≠ i := by
      rintro rfl
      exact h hb
    have hdata : (f.writeAt i off chunk).data j = f.data j := Function.update_of_ne hj ..
    rw [Option.map_some, Option.map_some, hdata]

theorem data_writeAt (i off : ℕ) (chunk : Bytes) :
    (f.writeAt i off chunk).data i = overwrite (f.data i) off chunk :=
  Function.update_self ..

/-! ### Opening to write -/

variable [DecidableEq ν]

/-- `open` with `O_CREAT | O_TRUNC`, and the number of the file. -/
def create (f : Files ν) (a : ν) : Files ν × ℕ :=
  match f.name a with
  | some i => ({ f with data := Function.update f.data i [] }, i)
  | none =>
    ({ data := Function.update f.data f.next [], next := f.next + 1
       name := Function.update f.name a (some f.next) }, f.next)

theorem create_cases (f : Files ν) (a : ν) :
    (f.name a = some (f.create a).2 ∧ (f.create a).1.name = f.name ∧
        (f.create a).1.next = f.next ∨
      f.name a = none ∧ (f.create a).1.name = Function.update f.name a (some (f.create a).2) ∧
        (f.create a).2 = f.next ∧ (f.create a).1.next = f.next + 1) ∧
      (f.create a).1.data = Function.update f.data (f.create a).2 [] := by
  cases h : f.name a with
  | some i =>
    simp [create, h]
  | none =>
    simp [create, h]

theorem name_create (f : Files ν) (a : ν) : (f.create a).1.name a = some (f.create a).2 := by
  obtain ⟨⟨hname, heq, -⟩ | ⟨-, heq, -⟩, -⟩ := create_cases f a
  · rw [heq]
    exact hname
  · rw [heq]
    exact Function.update_self ..

theorem name_create_of_ne (hne : b ≠ a) : (f.create a).1.name b = f.name b := by
  obtain ⟨⟨-, heq, -⟩ | ⟨-, heq, -⟩, -⟩ := create_cases f a
  · rw [heq]
  · rw [heq]
    exact Function.update_of_ne hne ..

theorem data_create (f : Files ν) (a : ν) : (f.create a).1.data (f.create a).2 = [] := by
  rw [(create_cases f a).2]
  exact Function.update_self ..

theorem Sound.create (h : f.Sound) (a : ν) : (f.create a).1.Sound := by
  obtain ⟨⟨-, hname, hnext⟩ | ⟨hnone, hname, hnum, hnext⟩, -⟩ := create_cases f a
  · refine ⟨fun b c i hb hc => ?_, fun b i hb => ?_⟩
    · rw [hname] at hb hc
      exact h.inj b c i hb hc
    · rw [hname] at hb
      rw [hnext]
      exact h.lt b i hb
  · have hcase : ∀ b i, (f.create a).1.name b = some i →
        b = a ∧ i = f.next ∨ b ≠ a ∧ f.name b = some i ∧ i < f.next := by
      intro b i hb
      rw [hname, hnum] at hb
      by_cases hba : b = a
      · rw [hba, Function.update_self] at hb
        exact Or.inl ⟨hba, (Option.some.inj hb).symm⟩
      · rw [Function.update_of_ne hba] at hb
        exact Or.inr ⟨hba, hb, h.lt b i hb⟩
    refine ⟨fun b c i hb hc => ?_, fun b i hb => ?_⟩
    · rcases hcase b i hb with ⟨rfl, rfl⟩ | ⟨-, hb, hlt⟩
      · rcases hcase c _ hc with ⟨rfl, -⟩ | ⟨-, -, hlt⟩
        · rfl
        · omega
      · rcases hcase c i hc with ⟨-, rfl⟩ | ⟨-, hc, -⟩
        · omega
        · exact h.inj b c i hb hc
    · rw [hnext]
      rcases hcase b i hb with ⟨-, rfl⟩ | ⟨-, -, hlt⟩
      · omega
      · omega

/-- Another name stands for what it stood for. -/
theorem read_create_of_ne (h : f.Sound) (hne : b ≠ a) : (f.create a).1.read b = f.read b := by
  have hname := name_create_of_ne (f := f) hne
  rw [read, read, hname]
  cases hb : f.name b with
  | none => rfl
  | some i =>
    have hi : i ≠ (f.create a).2 := by
      rintro rfl
      rw [hb] at hname
      exact hne ((h.create a).inj b a _ hname (name_create f a))
    rw [Option.map_some, Option.map_some, (create_cases f a).2, Function.update_of_ne hi]

/-! ### Renaming -/

/-- `rename`, which fails when there is no such name. -/
def rename (f : Files ν) (a b : ν) : Option (Files ν) :=
  match f.name a with
  | some i => some { f with name := Function.update (Function.update f.name b (some i)) a none }
  | none => none

theorem Sound.rename (h : f.Sound) (hr : f.rename a b = some f') : f'.Sound := by
  rw [Files.rename] at hr
  cases ha : f.name a with
  | none =>
    rw [ha] at hr
    cases hr
  | some i =>
    rw [ha] at hr
    cases hr
    have hcase : ∀ c j, Function.update (Function.update f.name b (some i)) a none c = some j →
        c ≠ a ∧ (c = b ∧ j = i ∨ c ≠ b ∧ f.name c = some j) := by
      intro c j hc
      by_cases hca : c = a
      · rw [hca, Function.update_self] at hc
        cases hc
      · rw [Function.update_of_ne hca] at hc
        by_cases hcb : c = b
        · rw [hcb, Function.update_self] at hc
          exact ⟨hca, Or.inl ⟨hcb, (Option.some.inj hc).symm⟩⟩
        · rw [Function.update_of_ne hcb] at hc
          exact ⟨hca, Or.inr ⟨hcb, hc⟩⟩
    refine ⟨fun c d j hc hd => ?_, fun c j hc => ?_⟩
    · obtain ⟨hca, ⟨hcb, hj⟩ | ⟨-, hcold⟩⟩ := hcase c j hc
      · obtain ⟨hda, ⟨hdb, -⟩ | ⟨-, hdold⟩⟩ := hcase d j hd
        · exact hcb.trans hdb.symm
        · rw [hj] at hdold
          exact absurd (h.inj d a i hdold ha) hda
      · obtain ⟨-, ⟨-, hj⟩ | ⟨-, hdold⟩⟩ := hcase d j hd
        · rw [hj] at hcold
          exact absurd (h.inj c a i hcold ha) hca
        · exact h.inj c d j hcold hdold
    · obtain ⟨-, ⟨-, hj⟩ | ⟨-, hcold⟩⟩ := hcase c j hc
      · rw [hj]
        exact h.lt a i ha
      · exact h.lt c j hcold

/-- The new name stands for what the old one stood for. -/
theorem read_rename (hne : b ≠ a) (hr : f.rename a b = some f') : f'.read b = f.read a := by
  rw [Files.rename] at hr
  cases ha : f.name a with
  | none =>
    rw [ha] at hr
    cases hr
  | some i =>
    rw [ha] at hr
    cases hr
    have hname : Function.update (Function.update f.name b (some i)) a none b = some i := by
      rw [Function.update_of_ne hne, Function.update_self]
    rw [read, read, ha]
    exact congrArg (Option.map f.data) hname

end Files
