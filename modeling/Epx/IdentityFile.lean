import Epx.Keystore
import Epx.Lib.Files
import Epx.Lib.Transition

/-!
# The identity of an application

`load_or_create_identity` of `src/keystore.cpp`, called for one application by any number of threads
and processes. A call reads the key file; if it finds no identity there it generates one, writes it
to a temporary file and renames that to the key file. The temporary file has the same name in all
calls, and no lock is held: every system call is a step of its own. The result of the rename is not
looked at. The name of the application is a single path component, and a key file that is there can
be opened and read.

Calls that overlap before there is a key file each return an identity of their own, and the later
rename replaces a key file that another call has already returned from.

## Main definitions

* `IdentityStore`, `IdentityStore.step` — the directory and the calls
* `IdentityStore.OneIdentity` — one identity for all calls, and a key file that stays
* `IdentityStore.alone` — a key file without an identity is opened by one call at a time

## Main results

* `IdentityStore.Inv.step`
* `one_durable_identity`
* `racing_identities`
-/

namespace Epx

open Codec Text Transition

/-- `path` and `path + ".tmp"`. -/
inductive KeyName where
  | key
  | tmp
  deriving DecidableEq

/-- Where a call of `load_or_create_identity` is. -/
inductive KeyCall where
  | idle
  /-- `ensure_private_dir` has returned. -/
  | entered
  /-- The key file is open, and this has been read of it. -/
  | reading (inode : ℕ) (got : Bytes)
  /-- There is no identity. -/
  | missed
  | generated (id : Identity)
  /-- The temporary file is open, and this many bytes are written. -/
  | writing (id : Identity) (inode off : ℕ)
  | written (id : Identity)
  | returned (id : Identity)
  | threw
  deriving DecidableEq

/-- The call is past its look at the name of the key file. -/
def KeyCall.underWay : KeyCall → Bool
  | .reading _ _ | .missed | .generated _ | .writing _ _ _ | .written _ => true
  | .idle | .entered | .returned _ | .threw => false

/-- The files and the calls so far. -/
structure IdentityStore where
  files : Files KeyName := {}
  started : ℕ := 0
  calls : ℕ → KeyCall := fun _ => .idle

namespace IdentityStore

/-- What is found when the first call is made: a key file and a temporary file, or not. -/
def start (key tmp : Option Bytes) : IdentityStore where
  files :=
    { data := fun n => if n = 0 then key.getD [] else tmp.getD []
      next := 2
      name := fun
        | .key => key.map fun _ => 0
        | .tmp => tmp.map fun _ => 1 }

inductive Act where
  /-- A call is made; `ensure_private_dir` succeeds or throws. -/
  | call (ok : Bool)
  /-- `std::ifstream in(path)`. -/
  | openKey (i : ℕ)
  /-- The stream asks for `n + 1` bytes more. -/
  | read (i n : ℕ)
  /-- `generate_identity`. -/
  | generate (i : ℕ) (id : Identity)
  /-- `write_private_file` opens the temporary file, or cannot. -/
  | createTmp (i : ℕ) (ok : Bool)
  /-- `write` takes `n` bytes, none when it fails. -/
  | write (i n : ℕ)
  /-- `std::rename`, which the system may also refuse. -/
  | rename (i : ℕ) (ok : Bool)
  deriving DecidableEq

def move (s : IdentityStore) (i : ℕ) (c : KeyCall) : IdentityStore :=
  { s with calls := Function.update s.calls i c }

/-- What a call makes of the file it has read to its end. -/
def afterRead (got : Bytes) : KeyCall :=
  match parseIdentity got with
  | some id => .returned id
  | none => .missed

def step (s : IdentityStore) : Act → Option IdentityStore
  | .call ok =>
    some { s.move s.started (if ok = true then .entered else .threw) with started := s.started + 1 }
  | .openKey i =>
    match s.calls i with
    | .entered =>
      match s.files.name .key with
      | some inode => some (s.move i (.reading inode []))
      | none => some (s.move i .missed)
    | _ => none
  | .read i n =>
    match s.calls i with
    | .reading inode got =>
      -- The stream stops after two lines; what follows them is not looked at.
      match ((s.files.data inode).drop got.length).take (n + 1) with
      | [] => some (s.move i (afterRead got))
      | b :: chunk => some (s.move i (.reading inode (got ++ b :: chunk)))
    | _ => none
  | .generate i id =>
    match s.calls i with
    | .missed => some (s.move i (.generated id))
    | _ => none
  | .createTmp i ok =>
    match s.calls i with
    | .generated id =>
      if ok = true then
        some { s.move i (.writing id (s.files.create .tmp).2 0) with
          files := (s.files.create .tmp).1 }
      else some (s.move i .threw)
    | _ => none
  | .write i n =>
    match s.calls i with
    | .writing id inode off =>
      if n = 0 then some (s.move i .threw)
      else
        some { s.move i (if off + n < (identityText id).length then .writing id inode (off + n)
            else .written id) with
          files := s.files.writeAt inode off (((identityText id).drop off).take n) }
    | _ => none
  | .rename i ok =>
    match s.calls i with
    | .written id =>
      some { s.move i (.returned id) with
        files := if ok = true then (s.files.rename .tmp .key).getD s.files else s.files }
    | _ => none

abbrev Step : IdentityStore → Act → IdentityStore → Prop := OfFun step

/-- The identity in the key file. -/
def storedIn (f : Files KeyName) : Option Identity := (f.read .key).bind parseIdentity

def stored (s : IdentityStore) : Option Identity := storedIn s.files

/-- **One durable identity**: all calls that have returned have returned the one that is in the key
file, no call has failed, and an identity that is in the key file stays there. -/
structure OneIdentity (step : IdentityStore → Act → IdentityStore → Prop) (s : IdentityStore) :
    Prop where
  same : ∀ i j id id', s.calls i = .returned id → s.calls j = .returned id' → id = id'
  durable : ∀ i id, s.calls i = .returned id → s.stored = some id
  returns : ∀ i, s.calls i ≠ .threw
  kept : ∀ id, s.stored = some id → ∀ more s', Run step s more s' → s'.stored = some id

/-- **The condition.** A call opens a key file that is missing or has no identity in it only while
no other call is past its own opening and not at its end, and the system refuses nothing. -/
def alone (s : IdentityStore) : Act → Bool
  | .call ok => ok
  | .openKey _ => s.stored.isSome || (List.range s.started).all fun j => !(s.calls j).underWay
  | .createTmp _ ok => ok
  | .write _ n => n ≠ 0
  | .rename _ ok => ok
  | .read _ _ | .generate _ _ => true

abbrev AloneStep : IdentityStore → Act → IdentityStore → Prop :=
  Guarded Step fun s a => s.alone a = true

/-! ### The invariant -/

/-- Where a call may be, with the files as they are. -/
def Place (f : Files KeyName) : KeyCall → Prop
  | .idle | .entered => True
  | .reading inode got => f.name .key = some inode ∧ got <+: f.data inode
  | .missed | .generated _ => storedIn f = none
  | .writing id inode off => storedIn f = none ∧ f.name .tmp = some inode ∧
      f.data inode = (identityText id).take off ∧ off < (identityText id).length
  | .written id => storedIn f = none ∧ f.read .tmp = some (identityText id)
  | .returned id => storedIn f = some id
  | .threw => False

structure Inv (s : IdentityStore) : Prop where
  sound : s.files.Sound
  fresh : ∀ i, s.started ≤ i → s.calls i = .idle
  place : ∀ i, Place s.files (s.calls i)
  /-- While there is no identity, one call looks for it or makes it. -/
  alone : s.stored = none → ∀ i j, (s.calls i).underWay = true → (s.calls j).underWay = true → i = j

theorem inv_start (key tmp : Option Bytes) : (start key tmp).Inv where
  sound := by
    refine ⟨fun a b i ha hb => ?_, fun a i ha => ?_⟩
    · cases a with
      | key =>
        cases b with
        | key => rfl
        | tmp =>
          obtain ⟨_, -, rfl⟩ := Option.map_eq_some_iff.mp ha
          obtain ⟨_, -, hi⟩ := Option.map_eq_some_iff.mp hb
          cases hi
      | tmp =>
        cases b with
        | tmp => rfl
        | key =>
          obtain ⟨_, -, rfl⟩ := Option.map_eq_some_iff.mp ha
          obtain ⟨_, -, hi⟩ := Option.map_eq_some_iff.mp hb
          cases hi
    · cases a with
      | key =>
        obtain ⟨_, -, rfl⟩ := Option.map_eq_some_iff.mp ha
        exact Nat.zero_lt_two
      | tmp =>
        obtain ⟨_, -, rfl⟩ := Option.map_eq_some_iff.mp ha
        exact Nat.one_lt_two
  fresh _ _ := rfl
  place _ := trivial
  alone _ _ _ h := by cases h

section

variable {s s' : IdentityStore} {a : Act} {i j : ℕ} {c : KeyCall}

theorem move_self (c : KeyCall) : (s.move i c).calls i = c := Function.update_self ..

theorem move_of_ne (hne : j ≠ i) (c : KeyCall) : (s.move i c).calls j = s.calls j :=
  Function.update_of_ne hne ..

theorem Inv.started_of_ne_idle (h : s.Inv) (hcall : s.calls i ≠ .idle) : i < s.started := by
  by_contra hi
  exact hcall (h.fresh i (by omega))

/-- A call that makes an identity is the only one that has looked for it. -/
theorem Inv.quiet (h : s.Inv) (hnone : s.stored = none) (hi : (s.calls i).underWay = true)
    (hj : j ≠ i) : s.calls j = .idle ∨ s.calls j = .entered := by
  have hplace := h.place j
  have hnot : (s.calls j).underWay ≠ true := fun hw => hj (h.alone hnone j i hw hi)
  cases hcall : s.calls j with
  | idle => exact Or.inl rfl
  | entered => exact Or.inr rfl
  | returned id =>
    rw [hcall] at hplace
    cases hnone.symm.trans hplace
  | threw =>
    rw [hcall] at hplace
    exact hplace.elim
  | reading _ _ | missed | generated _ | writing _ _ _ | written _ =>
    rw [hcall] at hnot
    exact absurd rfl hnot

/-- A call goes on, and the files stay as they are. -/
theorem Inv.move (h : s.Inv) (hi : i < s.started) (hc : Place s.files c)
    (halone : s.stored = none → c.underWay = true →
      ∀ j, j ≠ i → (s.calls j).underWay = false) : (s.move i c).Inv := by
  refine ⟨h.sound, fun j hj => ?_, fun j => ?_, fun hnone j j' hw hw' => ?_⟩
  · change s.started ≤ j at hj
    rw [move_of_ne (by omega)]
    exact h.fresh j hj
  · by_cases hj : j = i
    · rw [hj, move_self]
      exact hc
    · rw [move_of_ne hj]
      exact h.place j
  · by_cases hj : j = i
    · by_cases hj' : j' = i
      · rw [hj, hj']
      · rw [hj, move_self] at hw
        rw [move_of_ne hj', halone hnone hw j' hj'] at hw'
        cases hw'
    · rw [move_of_ne hj] at hw
      by_cases hj' : j' = i
      · rw [hj', move_self] at hw'
        rw [halone hnone hw' j hj] at hw
        cases hw
      · rw [move_of_ne hj'] at hw'
        exact h.alone hnone j j' hw hw'

/-- The call that makes an identity goes on and changes the files. -/
theorem Inv.make (h : s.Inv) (hnone : s.stored = none) (hw : (s.calls i).underWay = true)
    {f : Files KeyName} (hsound : f.Sound) (hc : Place f c) :
    Inv { s.move i c with files := f } := by
  have hi : i < s.started := by
    refine h.started_of_ne_idle fun hidle => ?_
    rw [hidle] at hw
    cases hw
  have hquiet : ∀ j, j ≠ i → (s.move i c).calls j = .idle ∨ (s.move i c).calls j = .entered := by
    intro j hj
    rw [move_of_ne hj]
    exact h.quiet hnone hw hj
  have hone : ∀ j, ((s.move i c).calls j).underWay = true → j = i := by
    intro j hwj
    by_contra hj
    rcases hquiet j hj with hcall | hcall
    · rw [hcall] at hwj
      cases hwj
    · rw [hcall] at hwj
      cases hwj
  refine ⟨hsound, fun j hj => ?_, fun j => ?_,
    fun _ j j' hwj hwj' => (hone j hwj).trans (hone j' hwj').symm⟩
  · change s.started ≤ j at hj
    change (s.move i c).calls j = .idle
    rw [move_of_ne (by omega)]
    exact h.fresh j hj
  · change Place f ((s.move i c).calls j)
    by_cases hj : j = i
    · rw [hj, move_self]
      exact hc
    · rcases hquiet j hj with hcall | hcall
      · rw [hcall]
        trivial
      · rw [hcall]
        trivial

/-! ### Steps -/

/-- A call looks for the key file. -/
theorem Inv.openKey (h : s.Inv) (hstep : Step s (.openKey i) s')
    (halone : s.alone (.openKey i) = true) : s'.Inv ∧ s'.files = s.files := by
  simp only [Step, OfFun, step] at hstep
  split at hstep
  swap
  · cases hstep
  rename_i hcall
  have hi : i < s.started := h.started_of_ne_idle (by rw [hcall]; nofun)
  have hothers : s.stored = none → ∀ j, j ≠ i → (s.calls j).underWay = false := by
    intro hnone j _
    simp only [IdentityStore.alone, hnone, Option.isSome_none, Bool.false_or, List.all_eq_true,
      List.mem_range, Bool.not_eq_true'] at halone
    by_cases hj : j < s.started
    · exact halone j hj
    · rw [h.fresh j (by omega)]
      rfl
  split at hstep
  · rename_i inode hname
    cases hstep
    exact ⟨h.move hi ⟨hname, List.nil_prefix⟩ fun hnone _ => hothers hnone, rfl⟩
  · rename_i hname
    cases hstep
    have hnone : storedIn s.files = none := by
      rw [storedIn, Files.read, hname]
      rfl
    exact ⟨h.move hi hnone fun hnone _ => hothers hnone, rfl⟩

/-- A call reads on, or has read the whole file. -/
theorem Inv.read (h : s.Inv) {n : ℕ} (hstep : Step s (.read i n) s') :
    s'.Inv ∧ s'.files = s.files := by
  simp only [Step, OfFun, step] at hstep
  split at hstep
  swap
  · cases hstep
  rename_i inode got hcall
  have hi : i < s.started := h.started_of_ne_idle (by rw [hcall]; nofun)
  have hw : (s.calls i).underWay = true := by
    rw [hcall]
    rfl
  have hplace := h.place i
  rw [hcall] at hplace
  obtain ⟨hname, rest, hdata⟩ := hplace
  have hothers : s.stored = none → ∀ j, j ≠ i → (s.calls j).underWay = false := by
    intro hnone j hj
    rcases h.quiet hnone hw hj with hcall | hcall
    · rw [hcall]
      rfl
    · rw [hcall]
      rfl
  rw [← hdata, List.drop_left] at hstep
  split at hstep
  · rename_i hend
    cases hstep
    have hrest : rest = [] := (List.take_eq_nil_iff.mp hend).resolve_left (Nat.succ_ne_zero n)
    have hstored : s.stored = parseIdentity got := by
      rw [stored, storedIn, Files.read_eq_some hname, ← hdata, hrest, List.append_nil]
      rfl
    refine ⟨h.move hi ?_ fun hnone _ => hothers hnone, rfl⟩
    rw [afterRead]
    split
    · rename_i id hparse
      exact hstored.trans hparse
    · rename_i hparse
      exact hstored.trans hparse
  · rename_i b chunk hchunk
    cases hstep
    refine ⟨h.move hi ⟨hname, ?_⟩ fun hnone _ => hothers hnone, rfl⟩
    rw [← hdata, ← hchunk]
    exact List.prefix_append_right_inj got |>.mpr (List.take_prefix _ _)

theorem key_ne_tmp : KeyName.key ≠ .tmp := by decide

/-- The temporary file is created, or emptied; the key file stays. -/
theorem Inv.createTmp (h : s.Inv) {id : Identity} (hcall : s.calls i = .generated id) :
    Inv { s.move i (.writing id (s.files.create .tmp).2 0) with files := (s.files.create .tmp).1 } ∧
      s.stored = none := by
  have hnone : s.stored = none := by
    have hplace := h.place i
    rw [hcall] at hplace
    exact hplace
  have hstored : storedIn (s.files.create .tmp).1 = none := by
    rw [storedIn, Files.read_create_of_ne h.sound key_ne_tmp]
    exact hnone
  refine ⟨h.make hnone (by rw [hcall]; rfl) (h.sound.create .tmp) ?_, hnone⟩
  refine ⟨hstored, Files.name_create _ _, Files.data_create _ _, ?_⟩
  simp [identityText]

/-- Bytes of the identity are written. -/
theorem Inv.write (h : s.Inv) {id : Identity} {inode off n : ℕ}
    (hcall : s.calls i = .writing id inode off) :
    Inv { s.move i (if off + n < (identityText id).length then .writing id inode (off + n)
        else .written id) with
      files := s.files.writeAt inode off (((identityText id).drop off).take n) } ∧
      s.stored = none := by
  have hplace := h.place i
  rw [hcall] at hplace
  obtain ⟨hnone, hname, hdata, hoff⟩ := hplace
  have hkey : s.files.name .key ≠ some inode := by
    intro hkey
    exact key_ne_tmp (h.sound.inj .key .tmp inode hkey hname)
  have hstored :
    storedIn (s.files.writeAt inode off (((identityText id).drop off).take n)) = none := by
    rw [storedIn, Files.read_writeAt_of_ne hkey]
    exact hnone
  -- The file has exactly the bytes before the offset, so the write appends.
  have hlen : ((identityText id).take off).length = off := by
    rw [List.length_take]
    omega
  have hwritten : (s.files.writeAt inode off (((identityText id).drop off).take n)).data inode
      = (identityText id).take (off + n) := by
    rw [Files.data_writeAt, hdata]
    have happend := overwrite_length ((identityText id).take off)
      (((identityText id).drop off).take n)
    rw [hlen] at happend
    rw [happend, List.take_add]
  refine ⟨h.make hnone (by rw [hcall]; rfl) (h.sound.writeAt _ _ _) ?_, hnone⟩
  by_cases hmore : off + n < (identityText id).length
  · rw [if_pos hmore]
    exact ⟨hstored, hname, hwritten, hmore⟩
  · rw [if_neg hmore]
    have hread : (s.files.writeAt inode off (((identityText id).drop off).take n)).read .tmp
        = some _ := Files.read_eq_some hname
    refine ⟨hstored, hread.trans ?_⟩
    rw [hwritten, List.take_of_length_le (by omega)]

/-- The temporary file becomes the key file. -/
theorem Inv.rename (h : s.Inv) {id : Identity} (hcall : s.calls i = .written id) :
    Inv { s.move i (.returned id) with files := (s.files.rename .tmp .key).getD s.files } ∧
      s.stored = none := by
  have hplace := h.place i
  rw [hcall] at hplace
  obtain ⟨hnone, htmp⟩ := hplace
  obtain ⟨inode, hname, -⟩ := Option.map_eq_some_iff.mp htmp
  have hsome : ∃ f, s.files.rename .tmp .key = some f := by
    simp only [Files.rename, hname]
    exact ⟨_, rfl⟩
  obtain ⟨f, hf⟩ := hsome
  rw [hf, Option.getD_some]
  refine ⟨h.make hnone (by rw [hcall]; rfl) (h.sound.rename hf) ?_, hnone⟩
  change storedIn f = some id
  rw [storedIn, Files.read_rename key_ne_tmp hf, htmp]
  exact parseIdentity_identityText id

/-- A new call. -/
theorem Inv.call (h : s.Inv) : Inv { s.move s.started .entered with started := s.started + 1 } := by
  have hcalls : ∀ j, (s.move s.started .entered).calls j = s.calls j ∨
      j = s.started ∧ (s.move s.started .entered).calls j = .entered := by
    intro j
    by_cases hj : j = s.started
    · refine Or.inr ⟨hj, ?_⟩
      rw [hj, move_self]
    · exact Or.inl (move_of_ne hj _)
  have hold : ∀ j, ((s.move s.started .entered).calls j).underWay = true →
      (s.calls j).underWay = true := by
    intro j hw
    rcases hcalls j with heq | ⟨-, heq⟩
    · rw [heq] at hw
      exact hw
    · rw [heq] at hw
      cases hw
  refine ⟨h.sound, fun j hj => ?_, fun j => ?_, fun hnone j j' hw hw' =>
    h.alone hnone j j' (hold j hw) (hold j' hw')⟩
  · change s.started + 1 ≤ j at hj
    change (s.move s.started .entered).calls j = .idle
    rw [move_of_ne (by omega)]
    exact h.fresh j (by omega)
  · change Place s.files ((s.move s.started .entered).calls j)
    rcases hcalls j with heq | ⟨-, heq⟩
    · rw [heq]
      exact h.place j
    · rw [heq]
      trivial

/-- **A step keeps the invariant**, and the files if there is an identity. -/
theorem Inv.step (h : s.Inv) (hstep : Step s a s') (halone : s.alone a = true) :
    s'.Inv ∧ (s'.files = s.files ∨ s.stored = none) := by
  cases a with
  | call ok =>
    obtain rfl : ok = true := halone
    cases hstep
    exact ⟨h.call, Or.inl rfl⟩
  | openKey i => exact (h.openKey hstep halone).imp_right Or.inl
  | read i n => exact (h.read hstep).imp_right Or.inl
  | generate i id =>
    simp only [Step, OfFun, IdentityStore.step] at hstep
    split at hstep
    · rename_i hcall
      cases hstep
      have hplace := h.place i
      rw [hcall] at hplace
      exact ⟨h.make hplace (by rw [hcall]; rfl) h.sound hplace, Or.inl rfl⟩
    · cases hstep
  | createTmp i ok =>
    obtain rfl : ok = true := halone
    simp only [Step, OfFun, IdentityStore.step] at hstep
    split at hstep
    · rename_i id hcall
      cases hstep
      exact (h.createTmp hcall).imp_right Or.inr
    · cases hstep
  | write i n =>
    have hn : n ≠ 0 := of_decide_eq_true halone
    simp only [Step, OfFun, IdentityStore.step] at hstep
    split at hstep
    · rename_i id inode off hcall
      rw [if_neg hn] at hstep
      cases hstep
      exact (h.write hcall).imp_right Or.inr
    · cases hstep
  | rename i ok =>
    obtain rfl : ok = true := halone
    simp only [Step, OfFun, IdentityStore.step] at hstep
    split at hstep
    · rename_i id hcall
      cases hstep
      exact (h.rename hcall).imp_right Or.inr
    · cases hstep

/-- An identity that is in the key file stays there. -/
theorem Inv.kept (h : s.Inv) (hstep : AloneStep s a s') {id : Identity} (hid : s.stored = some id) :
    s'.stored = some id := by
  rcases (h.step hstep.1 hstep.2).2 with hfiles | hnone
  · rw [stored, hfiles]
    exact hid
  · rw [hnone] at hid
    cases hid

end

end IdentityStore

/-- **One durable identity per application**, in a run in which a key file without an identity is
opened by one call at a time and the system refuses nothing, whatever files there are at the start:
all calls return the identity that is in the key file, and it stays there. -/
theorem one_durable_identity (key tmp : Option Bytes) (acts : List IdentityStore.Act)
    (s : IdentityStore)
    (hrun : Run IdentityStore.AloneStep (IdentityStore.start key tmp) acts s) :
    s.OneIdentity IdentityStore.AloneStep := by
  have hinv := hrun.preserves (I := IdentityStore.Inv) (IdentityStore.inv_start key tmp)
    fun _ _ _ h hstep => (h.step hstep.1 hstep.2).1
  have hdurable : ∀ i id, s.calls i = .returned id → s.stored = some id := by
    intro i id hcall
    have hplace := hinv.place i
    rw [hcall] at hplace
    exact hplace
  refine ⟨fun i j id id' hi hj => ?_, hdurable, fun i hcall => ?_, fun id hid more s' hmore => ?_⟩
  · exact Option.some.inj ((hdurable i id hi).symm.trans (hdurable j id' hj))
  · have hplace := hinv.place i
    rw [hcall] at hplace
    exact hplace
  · have hkept := hmore.preserves (I := fun t => t.Inv ∧ t.stored = some id) ⟨hinv, hid⟩
      fun _ _ _ h hstep => ⟨(h.1.step hstep.1 hstep.2).1, h.1.kept hstep h.2⟩
    exact hkept.2

/-! ### Two calls at once -/

namespace RacingIdentities

def ours : Identity := ⟨Block.fill 32 1, Block.fill 64 2⟩

def theirs : Identity := ⟨Block.fill 32 3, Block.fill 64 4⟩

/-- Both calls look for the key file before either has made it; the second one replaces the file
that the first one has returned from. -/
def racing : List IdentityStore.Act :=
  [.call true, .call true, .openKey 0, .openKey 1, .generate 0 ours, .createTmp 0 true,
    .write 0 194,
    .rename 0 true, .generate 1 theirs, .createTmp 1 true, .write 1 194, .rename 1 true]

def raced : Option IdentityStore := exec IdentityStore.step (IdentityStore.start none none) racing

theorem raced_isSome : raced.isSome = true := by decide +kernel

/-- The second call finds what the first one has made, beside a temporary file that was left. -/
def inTurn : List IdentityStore.Act :=
  [.call true, .call true, .openKey 0, .generate 0 ours, .createTmp 0 true, .write 0 100,
    .write 0 94,
    .rename 0 true, .openKey 1, .read 1 99, .read 1 8190, .read 1 8190]

def inTurnEnd : Option IdentityStore :=
  exec (guardFun IdentityStore.step IdentityStore.alone) (IdentityStore.start none (some [0]))
    inTurn

theorem inTurnEnd_isSome : inTurnEnd.isSome = true := by decide +kernel

end RacingIdentities

open RacingIdentities

theorem one_durable_identity_inTurn :
    (inTurnEnd.get inTurnEnd_isSome).calls 1 = .returned ours ∧
      (inTurnEnd.get inTurnEnd_isSome).OneIdentity IdentityStore.AloneStep :=
  ⟨by decide +kernel, one_durable_identity none (some [0]) inTurn _
    (run_of_exec_guardFun (Option.some_get inTurnEnd_isSome).symm)⟩

/-- Two calls have returned different identities. -/
theorem racing_identities :
    ¬ ∀ (key tmp : Option Bytes) (acts : List IdentityStore.Act) (s : IdentityStore),
      Run IdentityStore.Step (IdentityStore.start key tmp) acts s →
        s.OneIdentity IdentityStore.Step := by
  intro hclaim
  have hone := hclaim none none racing _ (run_of_exec (Option.some_get raced_isSome).symm)
  have hours : (raced.get raced_isSome).calls 0 = .returned ours := by decide +kernel
  have htheirs : (raced.get raced_isSome).calls 1 = .returned theirs := by decide +kernel
  exact absurd (hone.same 0 1 _ _ hours htheirs) (by decide)

end Epx
