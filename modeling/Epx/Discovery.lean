import Epx.ServiceDescription
import Epx.Lib.Transition
import Mathlib.Data.List.Nodup

/-!
# Finding the services that run

`registry::list`, over a registry directory that processes publish their hosts in, take them out of,
and leave behind when they crash. Listing looks every entry up, which removes the entries of
processes that are gone.

What a process does to the directory is one step here, and no two hosts of one name run at a time;
what happens otherwise is the subject of `Epx.RegistryOwnership`. A process id is not used again,
or the entries of a crashed process would be those of a live one. The names of the hosts are names
of files (`IsFileName`): for others `publish` writes nothing that `list` finds, and does not say so.

## Main definitions

* `IsFileName` — the names under which a host can be published
* `entryName`, `registryList` — the names of entry files, and `registry::list`
* `Discovery`, `Discovery.step` — processes, their hosts and the directory
* `Discovery.Inv` — which files there are

## Main results

* `mem_registryList`, `registryList_dir` — what is listed, and which files are left
* `services_are_listed`
-/

namespace Epx

open Codec Text Transition

/-! ### The list -/

/-- The order of `std::sort` on strings: byte by byte. -/
def nameLe (s t : Bytes) : Bool := decide (s ≤ t)

theorem pairwise_mergeSort_nameLe (l : List Bytes) : (l.mergeSort nameLe).Pairwise (· ≤ ·) := by
  refine (List.pairwise_mergeSort ?_ ?_ l).imp of_decide_eq_true
  · exact fun s t u hst htu =>
      decide_eq_true (List.le_trans (of_decide_eq_true hst) (of_decide_eq_true htu))
  · intro s t
    rw [Bool.or_eq_true]
    exact (List.le_total s t).imp decide_eq_true decide_eq_true

/-- `.entry`, the extension of the entry files. -/
def entryFile (serviceName : Bytes) : Bytes := serviceName ++ 46 :: tagBytes "entry".toList

/-- The entry file, and the file of which `publish` makes it, are files of the registry directory:
the name is one component of a path, and not too long for one. -/
def IsFileName (serviceName : Bytes) : Prop :=
  0 ∉ serviceName ∧ 47 ∉ serviceName ∧
    (entryFile serviceName ++ tagBytes ".tmp".toList).length ≤ 255

instance (serviceName : Bytes) : Decidable (IsFileName serviceName) :=
  inferInstanceAs (Decidable (_ ∧ _ ∧ _))

/-- The stem of a file name whose extension is `.entry`. A name that begins with its only dot has no
extension. -/
def entryName (file : Bytes) : Option Bytes :=
  match cutLast 46 file with
  | some (stem, extension) =>
    if stem ≠ [] ∧ extension = tagBytes "entry".toList then some stem else none
  | none => none

theorem entryName_eq_some {file n : Bytes} :
    entryName file = some n ↔ n ≠ [] ∧ file = entryFile n := by
  constructor
  · intro h
    rw [entryName] at h
    cases hcut : cutLast 46 file with
    | none =>
      rw [hcut] at h
      cases h
    | some p =>
      obtain ⟨stem, extension⟩ := p
      rw [hcut] at h
      obtain ⟨⟨hstem, rfl⟩, heq⟩ := Option.ite_none_right_eq_some.mp h
      cases heq
      exact ⟨hstem, eq_of_cutLast hcut⟩
  · rintro ⟨hn, rfl⟩
    rw [entryName, entryFile, cutLast_append (by decide)]
    exact if_pos ⟨hn, rfl⟩

/-- One file of the directory: its entry is looked up, if it is one. -/
def listFile (alive : ℤ → Bool) (r : List Bytes × RegistryDir) (file : Bytes) :
    List Bytes × RegistryDir :=
  match entryName file with
  | none => r
  | some n =>
    match lookup alive n r.2 with
    | (some _, dir) => (r.1 ++ [n], dir)
    | (none, dir) => (r.1, dir)

/-- `registry::list`, with the directory it leaves, where `files` are the names that the directory
iterator gives. -/
def registryList (alive : ℤ → Bool) (files : List Bytes) (dir : RegistryDir) :
    List Bytes × RegistryDir :=
  let r := files.foldl (listFile alive) ([], dir)
  (r.1.mergeSort nameLe, r.2)

/-- The iterator gives every entry of the directory once, in some order, among other files. -/
structure Lists (files : List Bytes) (dir : RegistryDir) : Prop where
  nodup : files.Nodup
  mem : ∀ n, entryFile n ∈ files ↔ dir n ≠ none

section

variable {alive : ℤ → Bool} {dir dir' : RegistryDir} {n : Bytes} {text : Option Bytes}

/-- What a lookup makes of the file of a service: the entry, and the file that it leaves. -/
def look (alive : ℤ → Bool) (n : Bytes) (text : Option Bytes) : Option Entry × Option Bytes :=
  match text.bind (parseEntry n) with
  | none => (none, text)
  | some e => if pidIsAlive alive e.pid then (some e, text) else (none, none)

/-- A lookup reads one file, and leaves the others alone. -/
theorem lookup_eq_look (n : Bytes) (dir : RegistryDir) : lookup alive n dir =
    ((look alive n (dir n)).1, Function.update dir n (look alive n (dir n)).2) := by
  cases hread : (dir n).bind (parseEntry n) with
  | none => simp only [lookup, look, hread, Function.update_eq_self]
  | some e =>
    cases halive : pidIsAlive alive e.pid with
    | true => simp only [lookup, look, hread, halive, if_true, Function.update_eq_self]
    | false => simp only [lookup, look, hread, halive, Bool.false_eq_true, if_false]

/-- Looking twice is looking once. -/
theorem look_look : look alive n (look alive n text).2 = look alive n text := by
  cases hread : text.bind (parseEntry n) with
  | none => simp [look, hread]
  | some e =>
    cases halive : pidIsAlive alive e.pid with
    | true => simp [look, hread, halive]
    | false => simp [look, hread, halive]

theorem eq_some_of_look {t : Bytes} (h : (look alive n text).2 = some t) : text = some t := by
  rw [look] at h
  split at h
  · exact h
  · split at h
    · exact h
    · cases h

/-- Each file is as it was, or as a lookup has left it. -/
def LookedUp (alive : ℤ → Bool) (dir dir' : RegistryDir) : Prop :=
  ∀ n, dir' n = dir n ∨ dir' n = (look alive n (dir n)).2

theorem LookedUp.look_eq (h : LookedUp alive dir dir') (n : Bytes) :
    look alive n (dir' n) = look alive n (dir n) := by
  rcases h n with heq | heq <;> rw [heq]
  exact look_look

theorem LookedUp.trans {dir'' : RegistryDir} (h : LookedUp alive dir dir')
    (h' : LookedUp alive dir' dir'') : LookedUp alive dir dir'' := by
  intro n
  rcases h' n with heq | heq
  · rw [heq]
    exact h n
  · rw [heq, h.look_eq n]
    exact Or.inr rfl

theorem lookedUp_lookup (n : Bytes) : LookedUp alive dir (lookup alive n dir).2 := by
  intro m
  rw [lookup_eq_look]
  by_cases hm : m = n
  · subst hm
    exact Or.inr (Function.update_self ..)
  · exact Or.inl (Function.update_of_ne hm ..)

/-- One file is listed if it is the entry of a service that is found. -/
theorem listFile_eq (alive : ℤ → Bool) (file : Bytes) (names : List Bytes) (dir : RegistryDir) :
    (listFile alive (names, dir) file).1 = names ++
        ([file].filterMap entryName).filter (fun n => (look alive n (dir n)).1.isSome) ∧
      LookedUp alive dir (listFile alive (names, dir) file).2 ∧
      ∀ n, entryName file = some n →
        (listFile alive (names, dir) file).2 n = (look alive n (dir n)).2 := by
  rw [listFile]
  cases hname : entryName file with
  | none => exact ⟨by simp [hname], fun n => Or.inl rfl, fun n hn => by cases hn⟩
  | some n =>
    have hdir : ∀ m, some n = some m →
        Function.update dir n (look alive n (dir n)).2 m = (look alive m (dir m)).2 := by
      rintro m ⟨⟩
      exact Function.update_self ..
    have hlooked : LookedUp alive dir (lookup alive n dir).2 := lookedUp_lookup n
    simp only [lookup_eq_look] at hlooked ⊢
    cases hfound : (look alive n (dir n)).1 with
    | none => exact ⟨by simp [hname, hfound], hlooked, hdir⟩
    | some e => exact ⟨by simp [hname, hfound], hlooked, hdir⟩

/-- What has been listed so far, and what has become of the directory. -/
theorem listFile_foldl (alive : ℤ → Bool) (files names : List Bytes) (dir : RegistryDir) :
    (files.foldl (listFile alive) (names, dir)).1 = names ++
        (files.filterMap entryName).filter (fun n => (look alive n (dir n)).1.isSome) ∧
      LookedUp alive dir (files.foldl (listFile alive) (names, dir)).2 ∧
      ∀ n ∈ files.filterMap entryName,
        (files.foldl (listFile alive) (names, dir)).2 n = (look alive n (dir n)).2 := by
  induction files generalizing names dir with
  | nil => exact ⟨by simp, fun n => Or.inl rfl, fun n hn => absurd hn List.not_mem_nil⟩
  | cons file files ih =>
    obtain ⟨hnames, hlooked, hfile⟩ := listFile_eq alive file names dir
    obtain ⟨hnames', hlooked', hfiles⟩ :=
      ih (listFile alive (names, dir) file).1 (listFile alive (names, dir) file).2
    have hsplit : (file :: files).filterMap entryName =
        [file].filterMap entryName ++ files.filterMap entryName := by
      rw [← List.filterMap_append, List.singleton_append]
    rw [List.foldl_cons, hsplit]
    refine ⟨?_, hlooked.trans hlooked', fun n hn => ?_⟩
    · rw [hnames', hnames, List.append_assoc, List.filter_append]
      simp only [hlooked.look_eq]
    · rw [List.mem_append] at hn
      rcases hn with hn | hn
      · have hname : entryName file = some n := by
          simpa using hn
        rcases hlooked' n with heq | heq
        · rw [heq, hfile n hname]
        · rw [heq, hlooked.look_eq n]
      · rw [hfiles n hn, hlooked.look_eq n]

end

section

variable {alive : ℤ → Bool} {dir : RegistryDir} {files : List Bytes}

theorem registryList_perm : (registryList alive files dir).1.Perm
    ((files.filterMap entryName).filter fun n => (look alive n (dir n)).1.isSome) := by
  refine (List.mergeSort_perm _ _).trans (List.Perm.of_eq ?_)
  rw [(listFile_foldl alive files [] dir).1, List.nil_append]

theorem mem_filterMap_entryName (h : Lists files dir) {n : Bytes} :
    n ∈ files.filterMap entryName ↔ n ≠ [] ∧ dir n ≠ none := by
  rw [List.mem_filterMap]
  constructor
  · rintro ⟨file, hfile, hname⟩
    obtain ⟨hn, rfl⟩ := entryName_eq_some.mp hname
    exact ⟨hn, (h.mem n).mp hfile⟩
  · rintro ⟨hn, hdir⟩
    exact ⟨entryFile n, (h.mem n).mpr hdir, entryName_eq_some.mpr ⟨hn, rfl⟩⟩

/-- **What is listed**: the services that are found, but not the one without a name. -/
theorem mem_registryList (h : Lists files dir) {n : Bytes} :
    n ∈ (registryList alive files dir).1 ↔ n ≠ [] ∧ (lookup alive n dir).1.isSome = true := by
  rw [registryList_perm.mem_iff, List.mem_filter, mem_filterMap_entryName h, lookup_eq_look]
  constructor
  · rintro ⟨⟨hn, -⟩, hfound⟩
    exact ⟨hn, hfound⟩
  · rintro ⟨hn, hfound⟩
    refine ⟨⟨hn, fun hnone => ?_⟩, hfound⟩
    rw [hnone] at hfound
    cases hfound

theorem nodup_registryList (h : Lists files dir) : (registryList alive files dir).1.Nodup := by
  refine registryList_perm.nodup_iff.mpr (List.Nodup.filter _ (h.nodup.filterMap ?_))
  intro file file' n hn hn'
  rw [(entryName_eq_some.mp hn).2, (entryName_eq_some.mp hn').2]

/-- **Which files are left**: those that a lookup leaves. -/
theorem registryList_dir (h : Lists files dir) {n : Bytes} (hn : n ≠ []) :
    (registryList alive files dir).2 n = (look alive n (dir n)).2 := by
  obtain ⟨-, hlooked, hfiles⟩ := listFile_foldl alive files [] dir
  by_cases hdir : dir n = none
  · rcases hlooked n with heq | heq
    · change (files.foldl (listFile alive) ([], dir)).2 n = _
      rw [heq, hdir]
      rfl
    · exact heq
  · exact hfiles n ((mem_filterMap_entryName h).mpr ⟨hn, hdir⟩)

end

/-! ### Processes that come and go -/

/-- The registry directory and the processes that run hosts. -/
structure Discovery where
  dir : RegistryDir := fun _ => none
  procs : List ℤ := []
  ended : List ℤ := []
  /-- The hosts that are published, with their processes. -/
  running : List (DescribedHost × ℤ) := []

namespace Discovery

/-- What `kill(pid, 0)` finds. -/
def alive (s : Discovery) (pid : ℤ) : Bool := decide (pid ∈ s.procs)

inductive Act where
  | spawn (pid : ℤ)
  /-- `run` publishes a host. -/
  | publish (host : DescribedHost) (pid : ℤ)
  /-- `stop` takes the host of a service out of the registry. -/
  | unpublish (serviceName : Bytes)
  /-- A process ends, and leaves the entries of its hosts behind. -/
  | crash (pid : ℤ)
  | lookup (serviceName : Bytes)
  | list (files : List Bytes)

variable (runtimeDir : Bytes)

def step (s : Discovery) : Act → Option Discovery
  | .spawn pid =>
    if 0 < pid ∧ pid < 2 ^ 31 ∧ pid ∉ s.ended then some { s with procs := pid :: s.procs } else none
  | .publish host pid =>
    if pid ∈ s.procs ∧ IsFileName host.serviceName ∧ host.Plain runtimeDir ∧
        ∀ r ∈ s.running, r.1.serviceName ≠ host.serviceName then
      some { s with
        dir := host.publishRegistry runtimeDir pid s.dir
        running := (host, pid) :: s.running }
    else none
  | .unpublish serviceName =>
    if ∃ r ∈ s.running, r.1.serviceName = serviceName then
      some { s with
        dir := Function.update s.dir serviceName none
        running := s.running.filter fun r => r.1.serviceName ≠ serviceName }
    else none
  | .crash pid =>
    some { s with
      procs := s.procs.filter fun p => p ≠ pid
      ended := pid :: s.ended
      running := s.running.filter fun r => r.2 ≠ pid }
  | .lookup serviceName => some { s with dir := (Epx.lookup s.alive serviceName s.dir).2 }
  | .list files => some { s with dir := (registryList s.alive files s.dir).2 }

/-- A file is the entry of a plain host. -/
def Publishes (r : DescribedHost × ℤ) (n text : Bytes) : Prop :=
  r.1.serviceName = n ∧ r.1.Plain runtimeDir ∧ 0 < r.2 ∧ r.2 < 2 ^ 31 ∧
    text = publishText (r.1.entry runtimeDir r.2)

/-- Every host that runs has its file, and every other file is that of a process that has ended. -/
structure Inv (s : Discovery) : Prop where
  procs : ∀ p ∈ s.procs, 0 < p ∧ p < 2 ^ 31 ∧ p ∉ s.ended
  running : ∀ r ∈ s.running, r.2 ∈ s.procs ∧ ∃ text, s.dir r.1.serviceName = some text ∧
    Publishes runtimeDir r r.1.serviceName text
  files : ∀ n text, s.dir n = some text →
    ∃ r, Publishes runtimeDir r n text ∧ (r ∈ s.running ∨ r.2 ∈ s.ended)

variable {runtimeDir} {s s' : Discovery} {r : DescribedHost × ℤ} {n text : Bytes}

/-- What a lookup makes of the entry of a plain host. -/
theorem look_of_publishes (h : Publishes runtimeDir r n text) : look s.alive n (some text) =
    if r.2 ∈ s.procs then (some (r.1.entry runtimeDir r.2), some text) else (none, none) := by
  obtain ⟨rfl, hplain, hpos, hlt, rfl⟩ := h
  have hfound : (lookup (fun _ => true) r.1.serviceName
      (r.1.publishRegistry runtimeDir r.2 fun _ => none)).1 = some (r.1.entry runtimeDir r.2) :=
    DescribedHost.lookup_of_plain hplain hpos hlt rfl _
  have hread : parseEntry r.1.serviceName (publishText (r.1.entry runtimeDir r.2)) =
      some (r.1.entry runtimeDir r.2) :=
    DescribedHost.lookup_publishRegistry _ hfound
  have hbmod : Int.bmod r.2 (2 ^ 32) = r.2 := Int.bmod_eq_of_le (by omega) (by omega)
  have halive : pidIsAlive s.alive (r.1.entry runtimeDir r.2).pid = decide (r.2 ∈ s.procs) := by
    change (decide (0 < r.2) && s.alive (Int.bmod r.2 (2 ^ 32))) = _
    rw [hbmod, decide_eq_true hpos, Bool.true_and]
    rfl
  rw [look, Option.bind_some, hread]
  simp only [halive, decide_eq_true_eq]

theorem inv_start : Inv runtimeDir {} where
  procs _ hp := absurd hp List.not_mem_nil
  running _ hr := absurd hr List.not_mem_nil
  files _ _ hn := by cases hn

/-- Looking entries up takes none away from a host that runs. -/
theorem Inv.lookedUp (h : s.Inv runtimeDir) {dir : RegistryDir}
    (hdir : LookedUp s.alive s.dir dir) : Inv runtimeDir { s with dir := dir } where
  procs := h.procs
  running r hr := by
    obtain ⟨hproc, text, htext, hpublishes⟩ := h.running r hr
    refine ⟨hproc, text, ?_, hpublishes⟩
    rcases hdir r.1.serviceName with heq | heq
    · exact heq.trans htext
    · refine heq.trans ?_
      rw [htext, look_of_publishes hpublishes, if_pos hproc]
  files n text hn := by
    refine h.files n text ?_
    rcases hdir n with heq | heq
    · exact heq.symm.trans hn
    · exact eq_some_of_look (heq.symm.trans hn)

theorem Inv.step (h : s.Inv runtimeDir) {a : Act} (hstep : s.step runtimeDir a = some s') :
    s'.Inv runtimeDir := by
  cases a with
  | spawn pid =>
    obtain ⟨⟨hpos, hlt, hfresh⟩, heq⟩ := Option.ite_none_right_eq_some.mp hstep
    cases heq
    refine ⟨fun p hp => ?_, fun r hr => ?_, h.files⟩
    · rcases List.mem_cons.mp hp with rfl | hp
      · exact ⟨hpos, hlt, hfresh⟩
      · exact h.procs p hp
    · obtain ⟨hproc, hfile⟩ := h.running r hr
      exact ⟨List.mem_cons_of_mem _ hproc, hfile⟩
  | publish host pid =>
    obtain ⟨⟨hproc, -, hplain, hnames⟩, heq⟩ := Option.ite_none_right_eq_some.mp hstep
    cases heq
    obtain ⟨hpos, hlt, -⟩ := h.procs pid hproc
    have hself : host.publishRegistry runtimeDir pid s.dir host.serviceName =
        some (publishText (host.entry runtimeDir pid)) := Function.update_self ..
    refine ⟨h.procs, fun r hr => ?_, fun n text hn => ?_⟩
    · rcases List.mem_cons.mp hr with rfl | hr
      · exact ⟨hproc, _, hself, rfl, hplain, hpos, hlt, rfl⟩
      · obtain ⟨hproc', text, htext, hpublishes⟩ := h.running r hr
        exact ⟨hproc', text, (Function.update_of_ne (hnames r hr) ..).trans htext, hpublishes⟩
    · by_cases hname : n = host.serviceName
      · subst hname
        have htext : text = publishText (host.entry runtimeDir pid) :=
          Option.some.inj (hn.symm.trans hself)
        exact ⟨(host, pid), ⟨rfl, hplain, hpos, hlt, htext⟩, Or.inl List.mem_cons_self⟩
      · obtain ⟨r, hpublishes, hr⟩ :=
          h.files n text ((Function.update_of_ne hname ..).symm.trans hn)
        exact ⟨r, hpublishes, hr.imp_left (List.mem_cons_of_mem _)⟩
  | unpublish serviceName =>
    obtain ⟨-, heq⟩ := Option.ite_none_right_eq_some.mp hstep
    cases heq
    refine ⟨h.procs, fun r hr => ?_, fun n text hn => ?_⟩
    · obtain ⟨hr, hne⟩ := List.mem_filter.mp hr
      obtain ⟨hproc, text, htext, hpublishes⟩ := h.running r hr
      exact ⟨hproc, text, (Function.update_of_ne (of_decide_eq_true hne) ..).trans htext,
        hpublishes⟩
    · have hne : n ≠ serviceName := by
        rintro rfl
        have heq : Function.update s.dir n none n = some text := hn
        rw [Function.update_self] at heq
        cases heq
      obtain ⟨r, hpublishes, hr⟩ := h.files n text ((Function.update_of_ne hne ..).symm.trans hn)
      refine ⟨r, hpublishes, hr.imp_left fun hr => List.mem_filter.mpr ⟨hr, ?_⟩⟩
      exact decide_eq_true (by rw [hpublishes.1]; exact hne)
  | crash pid =>
    cases hstep
    refine ⟨fun p hp => ?_, fun r hr => ?_, fun n text hn => ?_⟩
    · obtain ⟨hp, hne⟩ := List.mem_filter.mp hp
      obtain ⟨hpos, hlt, hlive⟩ := h.procs p hp
      refine ⟨hpos, hlt, fun hended => ?_⟩
      rcases List.mem_cons.mp hended with heq | hended
      · exact of_decide_eq_true hne heq
      · exact hlive hended
    · obtain ⟨hr, hne⟩ := List.mem_filter.mp hr
      obtain ⟨hproc, hfile⟩ := h.running r hr
      exact ⟨List.mem_filter.mpr ⟨hproc, hne⟩, hfile⟩
    · obtain ⟨r, hpublishes, hr⟩ := h.files n text hn
      refine ⟨r, hpublishes, ?_⟩
      by_cases hpid : r.2 = pid
      · exact Or.inr (hpid ▸ List.mem_cons_self)
      · rcases hr with hr | hr
        · exact Or.inl (List.mem_filter.mpr ⟨hr, decide_eq_true hpid⟩)
        · exact Or.inr (List.mem_cons_of_mem _ hr)
  | lookup serviceName =>
    cases hstep
    exact h.lookedUp (lookedUp_lookup serviceName)
  | list files =>
    cases hstep
    exact h.lookedUp (listFile_foldl s.alive files [] s.dir).2.1

theorem inv_of_run {acts : List Act} (hrun : Run (OfFun (Discovery.step runtimeDir)) {} acts s) :
    s.Inv runtimeDir :=
  hrun.preserves inv_start fun _ _ _ h hstep => h.step hstep

/-- **A lookup finds the hosts that run**, and leaves their files alone. -/
theorem Inv.look_eq_some (h : s.Inv runtimeDir) {e : Entry} :
    (look s.alive n (s.dir n)).1 = some e ↔
      ∃ r ∈ s.running, r.1.serviceName = n ∧ e = r.1.entry runtimeDir r.2 := by
  constructor
  · intro hfound
    cases hfile : s.dir n with
    | none =>
      rw [hfile] at hfound
      cases hfound
    | some text =>
      obtain ⟨r, hpublishes, hr⟩ := h.files n text hfile
      rw [hfile, look_of_publishes hpublishes] at hfound
      by_cases hproc : r.2 ∈ s.procs
      · rw [if_pos hproc] at hfound
        refine ⟨r, hr.resolve_right (h.procs r.2 hproc).2.2, hpublishes.1, ?_⟩
        exact (Option.some.inj hfound).symm
      · rw [if_neg hproc] at hfound
        cases hfound
  · rintro ⟨r, hr, rfl, rfl⟩
    obtain ⟨hproc, text, htext, hpublishes⟩ := h.running r hr
    rw [htext, look_of_publishes hpublishes, if_pos hproc]

/-- A file that a lookup leaves is that of a host that runs. -/
theorem Inv.of_look_snd (h : s.Inv runtimeDir) (hleft : (look s.alive n (s.dir n)).2 ≠ none) :
    ∃ r ∈ s.running, r.1.serviceName = n := by
  obtain ⟨text, htext⟩ := Option.ne_none_iff_exists'.mp hleft
  have hfile := eq_some_of_look htext
  obtain ⟨r, hpublishes, hr⟩ := h.files n text hfile
  rw [hfile, look_of_publishes hpublishes] at htext
  by_cases hproc : r.2 ∈ s.procs
  · exact ⟨r, hr.resolve_right (h.procs r.2 hproc).2.2, hpublishes.1⟩
  · rw [if_neg hproc] at htext
    cases htext

end Discovery

/-- **The services that run are listed**, after any number of processes, no two of one id, have
published hosts under names of files, taken them out of the registry, crashed, and looked entries
up: listing gives the name of each host that runs once, in order, except for an empty one, and no
other name; a lookup of such a host finds what it has published and `describe` says what it is; and
no entry of another service is left. -/
theorem services_are_listed {runtimeDir : Bytes} {acts : List Discovery.Act} {s : Discovery}
    (hrun : Run (OfFun (Discovery.step runtimeDir)) {} acts s) {files : List Bytes}
    (hfiles : Lists files s.dir) :
    (registryList s.alive files s.dir).1.Pairwise (· ≤ ·) ∧
      (registryList s.alive files s.dir).1.Nodup ∧
      (∀ n, n ∈ (registryList s.alive files s.dir).1 ↔
        n ≠ [] ∧ ∃ r ∈ s.running, r.1.serviceName = n) ∧
      (∀ r ∈ s.running,
        (lookup s.alive r.1.serviceName s.dir).1 = some (r.1.entry runtimeDir r.2) ∧
        describe s.alive r.1.serviceName s.dir = some
          { serviceName := r.1.serviceName, description := r.1.description, pid := r.2
            identityPubkey := r.1.identityPubkey
            endpoints := r.1.exposed.handlers.map fun p => (p.1, p.2.kind) }) ∧
      ∀ n, n ≠ [] → (registryList s.alive files s.dir).2 n ≠ none →
        ∃ r ∈ s.running, r.1.serviceName = n := by
  have hinv := Discovery.inv_of_run hrun
  refine ⟨pairwise_mergeSort_nameLe _, nodup_registryList hfiles, fun n => ?_, fun r hr => ?_,
    fun n hn hleft => ?_⟩
  · rw [mem_registryList hfiles, lookup_eq_look]
    refine and_congr_right fun _ => ?_
    rw [Option.isSome_iff_exists]
    constructor
    · rintro ⟨e, he⟩
      obtain ⟨r, hr, hname, -⟩ := hinv.look_eq_some.mp he
      exact ⟨r, hr, hname⟩
    · rintro ⟨r, hr, hname⟩
      exact ⟨_, hinv.look_eq_some.mpr ⟨r, hr, hname, rfl⟩⟩
  · have hfound : (lookup s.alive r.1.serviceName s.dir).1 = some (r.1.entry runtimeDir r.2) := by
      rw [lookup_eq_look]
      exact hinv.look_eq_some.mpr ⟨r, hr, rfl, rfl⟩
    refine ⟨hfound, ?_⟩
    have hitems : (r.1.exposed.handlers.map endpointItem).map readItem =
        r.1.exposed.handlers.map fun p => (p.1, p.2.kind) := by
      rw [List.map_map]
      exact List.map_congr_left fun p _ => readItem_endpointItem p
    rw [describe, hfound, Option.map_some, ← hitems]
    rfl
  · rw [registryList_dir hfiles hn] at hleft
    exact hinv.of_look_snd hleft

/-! ### A process that has crashed -/

namespace CrashedProcess

/-- A host with one endpoint. -/
def host (serviceName : Bytes) : DescribedHost :=
  { serviceName := serviceName, identityPubkey := Block.zero 32
    exposed := (({} : Exposed).expose (tagBytes "echo".toList) { kind := .receive }).getD {} }

/-- Two processes publish three hosts, one of them without a name, and one process crashes. -/
def acts : List Discovery.Act :=
  [.spawn 1, .spawn 2, .publish (host [97]) 2, .publish (host [98]) 1, .publish (host []) 1,
    .crash 2]

/-- What is left of it. -/
def left : Discovery :=
  { dir := (host []).publishRegistry [] 1
      ((host [98]).publishRegistry [] 1 ((host [97]).publishRegistry [] 2 fun _ => none))
    procs := [1], ended := [2], running := [(host [], 1), (host [98], 1)] }

def files : List Bytes :=
  [entryFile [98], tagBytes "b.entry.tmp".toList, entryFile [], entryFile [97]]

theorem left_run : Run (OfFun (Discovery.step [])) {} acts left := run_of_exec rfl

theorem entryFile_inj {m n : Bytes} : entryFile m = entryFile n ↔ m = n :=
  List.append_left_inj _

theorem lists_files : Lists files left.dir where
  nodup := by decide
  mem n := by
    have hdir : left.dir n ≠ none ↔ n = [] ∨ n = [98] ∨ n = [97] := by
      change Function.update (Function.update (Function.update (fun _ => none) [97] _) [98] _) [] _
        n ≠ none ↔ _
      by_cases hnil : n = []
      · simp [hnil]
      · by_cases hb : n = [98]
        · simp [hb]
        · by_cases ha : n = [97]
          · simp [ha]
          · simp [Function.update_of_ne, hnil, hb, ha]
    have htmp : entryFile n ≠ tagBytes "b.entry.tmp".toList := fun heq => by
      have hsuffix : (46 :: tagBytes "entry".toList) <:+ tagBytes "b.entry.tmp".toList := ⟨n, heq⟩
      exact absurd hsuffix (by decide)
    rw [hdir, files]
    simp only [List.mem_cons, entryFile_inj, htmp, List.not_mem_nil, or_false, false_or]
    tauto

end CrashedProcess

open CrashedProcess in
/-- Its entry is there until somebody lists the services. -/
theorem services_are_listed_after_crash :
    left.dir [97] ≠ none ∧
      (∀ n, n ∈ (registryList left.alive files left.dir).1 ↔ n = [98]) ∧
      (registryList left.alive files left.dir).2 [97] = none := by
  obtain ⟨-, -, hmem, -, hleft⟩ := services_are_listed left_run lists_files
  refine ⟨(lists_files.mem [97]).mp (by decide), fun n => (hmem n).trans ?_, ?_⟩
  · constructor
    · rintro ⟨hn, r, hr, rfl⟩
      rcases List.mem_cons.mp hr with rfl | hr
      · exact absurd rfl hn
      · rw [List.mem_singleton.mp hr]
        rfl
    · rintro rfl
      exact ⟨by decide, (host [98], 1), List.mem_cons_of_mem _ List.mem_cons_self, rfl⟩
  · by_contra hne
    obtain ⟨r, hr, hname⟩ := hleft [97] (by decide) hne
    rcases List.mem_cons.mp hr with rfl | hr
    · exact absurd hname (by decide)
    · rw [List.mem_singleton.mp hr] at hname
      exact absurd hname (by decide)

end Epx
