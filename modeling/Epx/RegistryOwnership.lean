import Epx.Lib.Transition
import Epx.Registry

/-!
# Who removes a registry entry

Hosts publish an entry when they run and remove it when they stop; `lookup` removes an entry whose
process is gone. Removal is by name. A host removes whatever is there when it stops, also the entry
of another host that has taken the name over in the meantime, and a `lookup` that has read an old
entry removes what has been published since.

Hosts, processes and lookups come and go in any number and any order. A process that ends takes its
hosts with it, and its process id may be used again. Service names are single path components, so
that a name has a file of its own. When a host whose socket has been taken over stops, its accept
thread may never come back, and then it does not come to its `unpublish`.

## Main definitions

* `RegistryWorld`, `RegistryWorld.step` — the machine
* `RegistryWorld.EntryKept` — the entry of a host that serves is there, if nobody has published the
  name since
* `RegistryWorld.orderly` — entries without line feeds, and no removal after a newer publication

## Main results

* `RegistryWorld.Inv.step`
* `registry_entry_kept`
* `stop_removes_successor`
-/

namespace Epx

open Codec Text Transition

inductive HostPhase where
  /-- Not run yet, or `stop` has returned. -/
  | stopped
  | serving
  /-- `run` has thrown before it published: the host counts as running, and `stop` will remove an
  entry. -/
  | unbound
  /-- `stop` has begun and has not removed the entry yet. -/
  | stopping
  /-- Its process has ended. -/
  | crashed
  deriving DecidableEq

/-- A host, with the entry it has published last. -/
structure RegistryHost where
  serviceName : Bytes
  pid : ℤ
  phase : HostPhase := .stopped
  entry : Entry := {}

/-- Where a call of `lookup` is. -/
inductive LookupPlace where
  | idle
  /-- It has read and parsed the file. `seen` is who had published the name last. -/
  | read (serviceName : Bytes) (entry : Entry) (seen : Option ℕ)
  /-- It has found the process gone. -/
  | stale (serviceName : Bytes) (seen : Option ℕ)

structure RegistryWorld where
  /-- The entry files, by service name. -/
  files : Bytes → Option Bytes := fun _ => none
  /-- What `kill(pid, 0)` finds. -/
  alive : ℤ → Bool := fun _ => false
  hosts : ℕ → Option RegistryHost := fun _ => none
  lookups : ℕ → LookupPlace := fun _ => .idle
  /-- Who has published a name last. -/
  publisher : Bytes → Option ℕ := fun _ => none

namespace RegistryWorld

inductive Act where
  /-- A process starts, with a process id that is free, or ends. -/
  | start (pid : ℤ)
  | exit (pid : ℤ)
  /-- A `Host` is made in a process. -/
  | create (h : ℕ) (serviceName : Bytes) (pid : ℤ)
  /-- `run` publishes its entry. -/
  | publish (h : ℕ) (entry : Entry)
  /-- `run` throws, because it cannot listen. -/
  | runThrows (h : ℕ)
  | beginStop (h : ℕ)
  /-- `stop` has joined the threads of the host, and removes the entry. -/
  | unpublish (h : ℕ)
  | lookup (l : ℕ) (serviceName : Bytes)
  | check (l : ℕ)
  | remove (l : ℕ)

def setHost (s : RegistryWorld) (h : ℕ) (host : RegistryHost) : RegistryWorld :=
  { s with hosts := Function.update s.hosts h (some host) }

def setLookup (s : RegistryWorld) (l : ℕ) (place : LookupPlace) : RegistryWorld :=
  { s with lookups := Function.update s.lookups l place }

/-- `std::remove(entry_path(service_name))`. -/
def removeFile (s : RegistryWorld) (serviceName : Bytes) : RegistryWorld :=
  { s with files := Function.update s.files serviceName none }

/-- The hosts of a process end with it. -/
def crash (pid : ℤ) (host : RegistryHost) : RegistryHost :=
  if host.pid = pid then { host with phase := .crashed } else host

def step (s : RegistryWorld) : Act → Option RegistryWorld
  | .start pid =>
    if 0 < pid ∧ pid < 2 ^ 31 ∧ s.alive pid = false then
      some { s with alive := Function.update s.alive pid true }
    else none
  | .exit pid =>
    some { s with
      alive := Function.update s.alive pid false
      hosts := fun h => (s.hosts h).map (crash pid) }
  | .create h serviceName pid =>
    match s.hosts h with
    | none =>
      if 0 < pid ∧ pid < 2 ^ 31 ∧ s.alive pid = true then
        some (s.setHost h { serviceName := serviceName, pid := pid })
      else none
    | some _ => none
  | .publish h entry =>
    match s.hosts h with
    | some host =>
      if host.phase = .stopped ∧ entry.serviceName = host.serviceName ∧ entry.pid = host.pid then
        some { s.setHost h { host with phase := .serving, entry := entry } with
          files := Function.update s.files host.serviceName (some (publishText entry))
          publisher := Function.update s.publisher host.serviceName (some h) }
      else none
    | none => none
  | .runThrows h =>
    match s.hosts h with
    | some host =>
      if host.phase = .stopped then some (s.setHost h { host with phase := .unbound }) else none
    | none => none
  | .beginStop h =>
    match s.hosts h with
    | some host =>
      if host.phase = .serving ∨ host.phase = .unbound then
        some (s.setHost h { host with phase := .stopping })
      else none
    | none => none
  | .unpublish h =>
    match s.hosts h with
    | some host =>
      if host.phase = .stopping then
        some ((s.setHost h { host with phase := .stopped }).removeFile host.serviceName)
      else none
    | none => none
  | .lookup l serviceName =>
    match s.lookups l, (s.files serviceName).bind (parseEntry serviceName) with
    | .idle, some entry => some (s.setLookup l (.read serviceName entry (s.publisher serviceName)))
    | .idle, none => some s
    | _, _ => none
  | .check l =>
    match s.lookups l with
    | .read serviceName entry seen =>
      some (s.setLookup l
        (if pidIsAlive s.alive entry.pid = true then .idle else .stale serviceName seen))
    | _ => none
  | .remove l =>
    match s.lookups l with
    | .stale serviceName _ => some ((s.setLookup l .idle).removeFile serviceName)
    | _ => none

abbrev Step : RegistryWorld → Act → RegistryWorld → Prop := OfFun step

/-- **The entry of a host that serves is there**, as it was published, unless another host has
published the name since. -/
def EntryKept (s : RegistryWorld) : Prop :=
  ∀ h host, s.hosts h = some host → host.phase = .serving → s.publisher host.serviceName = some h →
    s.files host.serviceName = some (publishText host.entry)

/-! ### The condition -/

/-- Host `h` serves. -/
def serves (s : RegistryWorld) (h : ℕ) : Bool :=
  match s.hosts h with
  | some host => host.phase = .serving
  | none => false

/-- Nobody who serves has published the name after `before` did. -/
def noSuccessor (s : RegistryWorld) (serviceName : Bytes) (before : Option ℕ) : Bool :=
  match s.publisher serviceName with
  | some h => decide (before = some h) || !s.serves h
  | none => true

/-- The values of an entry have no line feed; a host that removes its entry, and a `lookup` that
removes one, does so while no host that serves has published the name after the host, or after the
`lookup` has read the file. -/
def orderly (s : RegistryWorld) : Act → Bool
  | .publish _ entry => decide entry.OneLine
  | .unpublish h =>
    match s.hosts h with
    | some host => s.noSuccessor host.serviceName (some h)
    | none => true
  | .remove l =>
    match s.lookups l with
    | .stale serviceName seen => s.noSuccessor serviceName seen
    | _ => true
  | _ => true

abbrev OrderlyStep : RegistryWorld → Act → RegistryWorld → Prop :=
  Guarded Step fun s a => orderly s a = true

/-! ### The invariant -/

/-- A host that has not crashed runs in a process that is there, and what it has published can be
read back. -/
structure HostOk (s : RegistryWorld) (host : RegistryHost) : Prop where
  pid_pos : 0 < host.pid
  pid_lt : host.pid < 2 ^ 31
  alive : host.phase ≠ .crashed → s.alive host.pid = true

/-- The file of a name is that of its last publisher, or is gone. -/
structure FileOk (s : RegistryWorld) (serviceName : Bytes) (h : ℕ) : Prop where
  host : ∃ host, s.hosts h = some host ∧ host.serviceName = serviceName ∧ host.entry.OneLine ∧
    host.entry.pid = host.pid ∧
    ∀ text, s.files serviceName = some text → text = publishText host.entry

structure Inv (s : RegistryWorld) : Prop where
  kept : s.EntryKept
  hosts : ∀ h host, s.hosts h = some host → s.HostOk host
  files : ∀ serviceName h, s.publisher serviceName = some h → s.FileOk serviceName h
  /-- What a `lookup` has read names the process of who had published it. -/
  read : ∀ l serviceName entry h, s.lookups l = .read serviceName entry (some h) →
    ∃ host, s.hosts h = some host ∧ entry.pid = host.pid
  /-- Who had published a stale entry has crashed. -/
  stale : ∀ l serviceName h, s.lookups l = .stale serviceName (some h) →
    ∃ host, s.hosts h = some host ∧ host.phase = .crashed

/-- Some files are there, and some processes. -/
def start (files : Bytes → Option Bytes) (alive : ℤ → Bool) : RegistryWorld :=
  { files := files, alive := alive }

theorem inv_start (files : Bytes → Option Bytes) (alive : ℤ → Bool) : (start files alive).Inv where
  kept _ _ h := by cases h
  hosts _ _ h := by cases h
  files _ _ h := by cases h
  read _ _ _ _ h := by cases h
  stale _ _ _ h := by cases h

section

variable {s s' : RegistryWorld} {a : Act} {h : ℕ} {host : RegistryHost} {serviceName : Bytes}

theorem setHost_self (host : RegistryHost) : (s.setHost h host).hosts h = some host :=
  Function.update_self ..

theorem setHost_of_ne {h' : ℕ} (hne : h' ≠ h) (host : RegistryHost) :
    (s.setHost h host).hosts h' = s.hosts h' :=
  Function.update_of_ne hne ..

/-- A host goes on, and does not serve afterwards. -/
theorem Inv.setPhase (hinv : s.Inv) (hhost : s.hosts h = some host) (hold : host.phase ≠ .crashed)
    {phase : HostPhase} (hserving : phase ≠ .serving) :
    (s.setHost h { host with phase := phase }).Inv where
  kept := by
    intro h' host' hhost' hphase hpub
    by_cases hne : h' = h
    · rw [hne, setHost_self] at hhost'
      cases hhost'
      exact absurd hphase hserving
    · rw [setHost_of_ne hne] at hhost'
      exact hinv.kept h' host' hhost' hphase hpub
  hosts := by
    intro h' host' hhost'
    by_cases hne : h' = h
    · rw [hne, setHost_self] at hhost'
      cases hhost'
      have hok := hinv.hosts h host hhost
      exact ⟨hok.pid_pos, hok.pid_lt, fun _ => hok.alive hold⟩
    · rw [setHost_of_ne hne] at hhost'
      have hok := hinv.hosts h' host' hhost'
      exact ⟨hok.pid_pos, hok.pid_lt, hok.alive⟩
  files := by
    intro name h' hpub
    obtain ⟨host', hhost', hname, hline, hpid, htext⟩ := (hinv.files name h' hpub).host
    by_cases hne : h' = h
    · rw [hne, hhost] at hhost'
      cases hhost'
      exact ⟨{ host with phase := phase }, by rw [hne]; exact setHost_self _, hname, hline, hpid,
        htext⟩
    · exact ⟨host', by rw [setHost_of_ne hne]; exact hhost', hname, hline, hpid, htext⟩
  read := by
    intro l name entry h' hl
    obtain ⟨host', hhost', hpid⟩ := hinv.read l name entry h' hl
    by_cases hne : h' = h
    · rw [hne, hhost] at hhost'
      cases hhost'
      exact ⟨{ host with phase := phase }, by rw [hne]; exact setHost_self _, hpid⟩
    · exact ⟨host', by rw [setHost_of_ne hne]; exact hhost', hpid⟩
  stale := by
    intro l name h' hl
    obtain ⟨host', hhost', hphase⟩ := hinv.stale l name h' hl
    have hne : h' ≠ h := by
      rintro rfl
      rw [hhost] at hhost'
      cases hhost'
      exact hold hphase
    exact ⟨host', by rw [setHost_of_ne hne]; exact hhost', hphase⟩

/-- An entry goes whose last publisher does not serve. -/
theorem Inv.removeFile (hinv : s.Inv)
    (hno : ∀ h host, s.publisher serviceName = some h → s.hosts h = some host →
      host.phase ≠ .serving) : (s.removeFile serviceName).Inv where
  kept := by
    intro h host hhost hphase hpub
    have hne : host.serviceName ≠ serviceName := by
      rintro rfl
      exact hno h host hpub hhost hphase
    exact (Function.update_of_ne hne ..).trans (hinv.kept h host hhost hphase hpub)
  hosts h host hhost :=
    let hok := hinv.hosts h host hhost
    ⟨hok.pid_pos, hok.pid_lt, hok.alive⟩
  files := by
    intro name h hpub
    obtain ⟨host, hhost, hname, hline, hpid, htext⟩ := (hinv.files name h hpub).host
    refine ⟨host, hhost, hname, hline, hpid, fun text hfile => htext text ?_⟩
    by_cases hne : name = serviceName
    · have hnone : (s.removeFile serviceName).files name = none := by
        rw [hne]
        exact Function.update_self ..
      rw [hnone] at hfile
      cases hfile
    · exact (Function.update_of_ne hne ..).symm.trans hfile
  read := hinv.read
  stale := hinv.stale

/-- A `lookup` goes on. -/
theorem Inv.setLookup (hinv : s.Inv) {l : ℕ} {place : LookupPlace}
    (hread : ∀ name entry h, place = .read name entry (some h) →
      ∃ host, s.hosts h = some host ∧ entry.pid = host.pid)
    (hstale : ∀ name h, place = .stale name (some h) →
      ∃ host, s.hosts h = some host ∧ host.phase = .crashed) : (s.setLookup l place).Inv where
  kept := hinv.kept
  hosts h host hhost :=
    let hok := hinv.hosts h host hhost
    ⟨hok.pid_pos, hok.pid_lt, hok.alive⟩
  files name h hpub := ⟨(hinv.files name h hpub).host⟩
  read := by
    intro l' name entry h hl'
    by_cases hne : l' = l
    · rw [hne] at hl'
      exact hread name entry h ((Function.update_self ..).symm.trans hl')
    · exact hinv.read l' name entry h ((Function.update_of_ne hne ..).symm.trans hl')
  stale := by
    intro l' name h hl'
    by_cases hne : l' = l
    · rw [hne] at hl'
      exact hstale name h ((Function.update_self ..).symm.trans hl')
    · exact hinv.stale l' name h ((Function.update_of_ne hne ..).symm.trans hl')

/-- A process ends, and its hosts with it. -/
theorem Inv.exit (hinv : s.Inv) (pid : ℤ) :
    Inv { s with
      alive := Function.update s.alive pid false
      hosts := fun h => (s.hosts h).map (crash pid) } where
  kept := by
    intro h host' hhost' hphase hpub
    obtain ⟨host, hhost, rfl⟩ := Option.map_eq_some_iff.mp hhost'
    by_cases hpid : host.pid = pid
    · rw [crash, if_pos hpid] at hphase
      cases hphase
    · rw [crash, if_neg hpid] at hphase hpub ⊢
      exact hinv.kept h host hhost hphase hpub
  hosts := by
    intro h host' hhost'
    obtain ⟨host, hhost, rfl⟩ := Option.map_eq_some_iff.mp hhost'
    have hok := hinv.hosts h host hhost
    by_cases hpid : host.pid = pid
    · rw [crash, if_pos hpid]
      exact ⟨hok.pid_pos, hok.pid_lt, fun hcrashed => absurd rfl hcrashed⟩
    · rw [crash, if_neg hpid]
      exact ⟨hok.pid_pos, hok.pid_lt, fun hcrashed =>
        (Function.update_of_ne hpid ..).trans (hok.alive hcrashed)⟩
  files := by
    intro name h hpub
    obtain ⟨host, hhost, hname, hline, hpid, htext⟩ := (hinv.files name h hpub).host
    refine ⟨crash pid host, ?_, ?_⟩
    · exact Option.map_eq_some_iff.mpr ⟨host, hhost, rfl⟩
    · rw [crash]
      split
      · exact ⟨hname, hline, hpid, htext⟩
      · exact ⟨hname, hline, hpid, htext⟩
  read := by
    intro l name entry h hl
    obtain ⟨host, hhost, hpid⟩ := hinv.read l name entry h hl
    refine ⟨crash pid host, ?_, ?_⟩
    · exact Option.map_eq_some_iff.mpr ⟨host, hhost, rfl⟩
    · rw [crash]
      split
      · exact hpid
      · exact hpid
  stale := by
    intro l name h hl
    obtain ⟨host, hhost, hphase⟩ := hinv.stale l name h hl
    refine ⟨crash pid host, ?_, ?_⟩
    · exact Option.map_eq_some_iff.mpr ⟨host, hhost, rfl⟩
    · rw [crash]
      split
      · rfl
      · exact hphase

/-- A new host. -/
theorem Inv.create (hinv : s.Inv) (hnone : s.hosts h = none) (hpos : 0 < host.pid)
    (hlt : host.pid < 2 ^ 31) (halive : s.alive host.pid = true) (hphase : host.phase ≠ .serving) :
    (s.setHost h host).Inv := by
  have hold : ∀ {h' host'}, s.hosts h' = some host' → (s.setHost h host).hosts h' = some host' := by
    intro h' host' hhost'
    have hne : h' ≠ h := by
      rintro rfl
      rw [hnone] at hhost'
      cases hhost'
    rw [setHost_of_ne hne]
    exact hhost'
  exact
    { kept := by
        intro h' host' hhost' hserving hpub
        by_cases hne : h' = h
        · rw [hne, setHost_self] at hhost'
          cases hhost'
          exact absurd hserving hphase
        · rw [setHost_of_ne hne] at hhost'
          exact hinv.kept h' host' hhost' hserving hpub
      hosts := by
        intro h' host' hhost'
        by_cases hne : h' = h
        · rw [hne, setHost_self] at hhost'
          cases hhost'
          exact ⟨hpos, hlt, fun _ => halive⟩
        · rw [setHost_of_ne hne] at hhost'
          have hok := hinv.hosts h' host' hhost'
          exact ⟨hok.pid_pos, hok.pid_lt, hok.alive⟩
      files := by
        intro name h' hpub
        obtain ⟨host', hhost', hrest⟩ := (hinv.files name h' hpub).host
        exact ⟨host', hold hhost', hrest⟩
      read := by
        intro l name entry h' hl
        obtain ⟨host', hhost', hpid⟩ := hinv.read l name entry h' hl
        exact ⟨host', hold hhost', hpid⟩
      stale := by
        intro l name h' hl
        obtain ⟨host', hhost', hcrashed⟩ := hinv.stale l name h' hl
        exact ⟨host', hold hhost', hcrashed⟩ }

/-- A host publishes its entry. -/
theorem Inv.publish (hinv : s.Inv) (hhost : s.hosts h = some host) (hphase : host.phase = .stopped)
    {entry : Entry} (hpid : entry.pid = host.pid) (hline : entry.OneLine) :
    Inv { s.setHost h { host with phase := .serving, entry := entry } with
      files := Function.update s.files host.serviceName (some (publishText entry))
      publisher := Function.update s.publisher host.serviceName (some h) } where
  kept := by
    intro h' host' hhost' hserving hpub
    by_cases hne : h' = h
    · have hhost' : (s.setHost h { host with phase := .serving, entry := entry }).hosts h'
          = some host' := hhost'
      rw [hne, setHost_self] at hhost'
      cases hhost'
      exact Function.update_self ..
    · have hhost' : s.hosts h' = some host' := (setHost_of_ne hne _).symm.trans hhost'
      have hname : host'.serviceName ≠ host.serviceName := by
        intro hname
        have hself :
          Function.update s.publisher host.serviceName (some h) host.serviceName = some h' :=
          hname ▸ hpub
        rw [Function.update_self] at hself
        exact hne (Option.some.inj hself).symm
      have hpub' : s.publisher host'.serviceName = some h' :=
        (Function.update_of_ne hname ..).symm.trans hpub
      exact (Function.update_of_ne hname ..).trans (hinv.kept h' host' hhost' hserving hpub')
  hosts := by
    intro h' host' hhost'
    by_cases hne : h' = h
    · have hhost' : (s.setHost h { host with phase := .serving, entry := entry }).hosts h'
          = some host' := hhost'
      rw [hne, setHost_self] at hhost'
      cases hhost'
      have hok := hinv.hosts h host hhost
      exact ⟨hok.pid_pos, hok.pid_lt, fun _ => hok.alive (by rw [hphase]; decide)⟩
    · have hok := hinv.hosts h' host' ((setHost_of_ne hne _).symm.trans hhost')
      exact ⟨hok.pid_pos, hok.pid_lt, hok.alive⟩
  files := by
    intro name h' hpub
    by_cases hname : name = host.serviceName
    · subst hname
      have hself :
        Function.update s.publisher host.serviceName (some h) host.serviceName = some h' :=
        hpub
      rw [Function.update_self] at hself
      cases hself
      refine ⟨_, setHost_self _, rfl, hline, hpid, fun text hfile => ?_⟩
      have hfile' : Function.update s.files host.serviceName (some (publishText entry))
          host.serviceName = some text := hfile
      rw [Function.update_self] at hfile'
      exact (Option.some.inj hfile').symm
    · have hpub' : s.publisher name = some h' := (Function.update_of_ne hname ..).symm.trans hpub
      obtain ⟨host', hhost', hname', hline', hpid', htext⟩ := (hinv.files name h' hpub').host
      have hne : h' ≠ h := by
        rintro rfl
        rw [hhost] at hhost'
        cases hhost'
        exact hname hname'.symm
      refine ⟨host', (setHost_of_ne hne _).trans hhost', hname', hline', hpid',
        fun text hfile => ?_⟩
      exact htext text ((Function.update_of_ne hname ..).symm.trans hfile)
  read := by
    intro l name entry' h' hl
    obtain ⟨host', hhost', hpid'⟩ := hinv.read l name entry' h' hl
    by_cases hne : h' = h
    · rw [hne, hhost] at hhost'
      cases hhost'
      exact ⟨{ host with phase := .serving, entry := entry },
        by rw [hne]; exact setHost_self _, hpid'⟩
    · exact ⟨host', (setHost_of_ne hne _).trans hhost', hpid'⟩
  stale := by
    intro l name h' hl
    obtain ⟨host', hhost', hcrashed⟩ := hinv.stale l name h' hl
    have hne : h' ≠ h := by
      rintro rfl
      rw [hhost] at hhost'
      cases hhost'
      rw [hphase] at hcrashed
      cases hcrashed
    exact ⟨host', (setHost_of_ne hne _).trans hhost', hcrashed⟩

theorem not_serving_of_noSuccessor {before : Option ℕ}
    (hguard : s.noSuccessor serviceName before = true)
    (hbefore : ∀ h host, before = some h → s.hosts h = some host → host.phase ≠ .serving)
    (hpub : s.publisher serviceName = some h) (hhost : s.hosts h = some host) :
    host.phase ≠ .serving := by
  simp only [noSuccessor, hpub, Bool.or_eq_true, decide_eq_true_eq] at hguard
  rcases hguard with heq | hserves
  · exact hbefore h host heq hhost
  · intro hserving
    simp [serves, hhost, hserving] at hserves

/-- What a `lookup` reads of an entry names the process of its publisher. -/
theorem Inv.pid_of_read (hinv : s.Inv) {entry : Entry}
    (hentry : (s.files serviceName).bind (parseEntry serviceName) = some entry)
    (hpub : s.publisher serviceName = some h) :
    ∃ host, s.hosts h = some host ∧ entry.pid = host.pid := by
  obtain ⟨host, hhost, -, hline, hpid, htext⟩ := (hinv.files serviceName h hpub).host
  obtain ⟨text, hfile, hparse⟩ := Option.bind_eq_some_iff.mp hentry
  have hok := hinv.hosts h host hhost
  have hpos := hok.pid_pos
  have hlt := hok.pid_lt
  rw [htext text hfile] at hparse
  refine ⟨host, hhost, ?_⟩
  rw [pid_of_parseEntry hline (by omega) (by omega) hparse, hpid]

/-- A process that `lookup` does not find has taken its hosts with it. -/
theorem Inv.crashed_of_dead (hinv : s.Inv) (hhost : s.hosts h = some host)
    (hdead : pidIsAlive s.alive host.pid = false) : host.phase = .crashed := by
  have hok := hinv.hosts h host hhost
  have hpos := hok.pid_pos
  have hlt := hok.pid_lt
  by_contra hphase
  have hcast : Int.bmod host.pid (2 ^ 32) = host.pid := Int.bmod_eq_of_le (by omega) (by omega)
  rw [pidIsAlive, hcast, hok.alive hphase, decide_eq_true hpos] at hdead
  cases hdead

/-- **An orderly step keeps the entries of hosts that serve.** -/
theorem Inv.step (hinv : s.Inv) (hstep : s.OrderlyStep a s') : s'.Inv := by
  obtain ⟨hstep, hguard⟩ := hstep
  have hstep : s.step a = some s' := hstep
  cases a with
  | start pid =>
    obtain ⟨-, heq⟩ := Option.ite_none_right_eq_some.mp hstep
    cases heq
    refine ⟨hinv.kept, fun h host hhost => ?_, fun name h hpub => ⟨(hinv.files name h hpub).host⟩,
      hinv.read, hinv.stale⟩
    have hok := hinv.hosts h host hhost
    refine ⟨hok.pid_pos, hok.pid_lt, fun hphase => ?_⟩
    by_cases hpid : host.pid = pid
    · rw [hpid]
      exact Function.update_self ..
    · exact (Function.update_of_ne hpid ..).trans (hok.alive hphase)
  | exit pid =>
    cases hstep
    exact hinv.exit pid
  | create h name pid =>
    simp only [step] at hstep
    split at hstep
    · next hnone =>
      obtain ⟨⟨hpos, hlt, halive⟩, heq⟩ := Option.ite_none_right_eq_some.mp hstep
      cases heq
      exact hinv.create hnone hpos hlt halive (by simp)
    · cases hstep
  | publish h entry =>
    simp only [step] at hstep
    split at hstep
    · next host hhost =>
      obtain ⟨⟨hphase, -, hpid⟩, heq⟩ := Option.ite_none_right_eq_some.mp hstep
      cases heq
      exact hinv.publish hhost hphase hpid (of_decide_eq_true hguard)
    · cases hstep
  | runThrows h =>
    simp only [step] at hstep
    split at hstep
    · next host hhost =>
      obtain ⟨hphase, heq⟩ := Option.ite_none_right_eq_some.mp hstep
      cases heq
      exact hinv.setPhase hhost (by rw [hphase]; decide) (by decide)
    · cases hstep
  | beginStop h =>
    simp only [step] at hstep
    split at hstep
    · next host hhost =>
      obtain ⟨hphase, heq⟩ := Option.ite_none_right_eq_some.mp hstep
      cases heq
      refine hinv.setPhase hhost ?_ (by decide)
      rcases hphase with hphase | hphase
      · rw [hphase]
        decide
      · rw [hphase]
        decide
    · cases hstep
  | unpublish h =>
    simp only [step] at hstep
    split at hstep
    · next host hhost =>
      obtain ⟨hphase, heq⟩ := Option.ite_none_right_eq_some.mp hstep
      cases heq
      simp only [orderly, hhost] at hguard
      refine (hinv.setPhase hhost (by rw [hphase]; decide) (by decide)).removeFile ?_
      intro h' host' hpub hhost'
      by_cases hne : h' = h
      · rw [hne, setHost_self] at hhost'
        cases hhost'
        exact HostPhase.noConfusion
      · rw [setHost_of_ne hne] at hhost'
        refine not_serving_of_noSuccessor hguard ?_ hpub hhost'
        rintro h'' host'' heq hhost''
        cases heq
        rw [hhost] at hhost''
        cases hhost''
        rw [hphase]
        decide
    · cases hstep
  | lookup l name =>
    simp only [step] at hstep
    split at hstep
    · next entry _ hentry =>
      cases hstep
      refine hinv.setLookup ?_ (by simp)
      intro name' entry' h heq
      obtain ⟨-, rfl, hpub⟩ := LookupPlace.read.inj heq
      exact hinv.pid_of_read hentry hpub
    · cases hstep
      exact hinv
    · cases hstep
  | check l =>
    simp only [step] at hstep
    split at hstep
    · next name entry seen hl =>
      cases hstep
      refine hinv.setLookup ?_ ?_
      · intro name' entry' h heq
        split at heq
        · cases heq
        · cases heq
      · intro name' h heq
        split at heq
        · cases heq
        · next hdead =>
          cases heq
          obtain ⟨host, hhost, hpid⟩ := hinv.read l name entry h hl
          rw [hpid] at hdead
          exact ⟨host, hhost, hinv.crashed_of_dead hhost (Bool.not_eq_true _ ▸ hdead)⟩
    · cases hstep
  | remove l =>
    simp only [step] at hstep
    split at hstep
    · next name seen hl =>
      cases hstep
      simp only [orderly, hl] at hguard
      refine (hinv.setLookup (by simp) (by simp)).removeFile ?_
      intro h host hpub hhost
      refine not_serving_of_noSuccessor hguard ?_ hpub hhost
      rintro h' host' rfl hhost'
      obtain ⟨host'', hhost'', hcrashed⟩ := hinv.stale l name h' hl
      rw [hhost'] at hhost''
      cases hhost''
      rw [hcrashed]
      decide
    · cases hstep

end

end RegistryWorld

open RegistryWorld

/-- **The entry of a host that serves is not removed**, in every run from any files and any
processes in which entries have no line feeds in their values, and nobody removes an entry after a
host that serves has published the name: after the host that removes its entry did, or after the
`lookup` that removes one has read the file. -/
theorem registry_entry_kept (files : Bytes → Option Bytes) (alive : ℤ → Bool) (acts : List Act)
    (s : RegistryWorld) (hrun : Run OrderlyStep (start files alive) acts s) : s.EntryKept :=
  (hrun.preserves (inv_start files alive) fun _ _ _ hinv hstep => hinv.step hstep).kept

/-! ### Two hosts of one name -/

namespace TwoHosts

def name : Bytes := tagBytes "svc".toList

def entry (pid : ℤ) : Entry := { serviceName := name, pid := pid }

/-- Two processes, each with a host of the same name. -/
def opening : List Act := [.start 1, .start 2, .create 0 name 1, .create 1 name 2]

/-- The first host publishes and its process ends; a `lookup` removes its entry, and then the second
host publishes. A last `lookup` finds it. -/
def orderlyEnd : Option RegistryWorld :=
  exec (guardFun step orderly) (start (fun _ => none) fun _ => false)
    (opening ++ [.publish 0 (entry 1), .exit 1, .lookup 0 name, .check 0, .remove 0,
      .publish 1 (entry 2), .lookup 0 name, .check 0])

theorem orderlyEnd_isSome : orderlyEnd.isSome = true := by decide +kernel

/-- While the first host joins its connection threads in `stop`, the second one starts. -/
def takenOver : List Act :=
  opening ++ [.publish 0 (entry 1), .beginStop 0, .publish 1 (entry 2), .unpublish 0]

def takenOverEnd : Option RegistryWorld :=
  exec step (start (fun _ => none) fun _ => false) takenOver

theorem takenOverEnd_isSome : takenOverEnd.isSome = true := by decide +kernel

/-- A `lookup` reads the entry of a process that is gone, and removes the one published since. -/
def lateRemoval : List Act :=
  opening ++
    [.publish 0 (entry 1), .exit 1, .lookup 0 name, .check 0, .publish 1 (entry 2), .remove 0]

/-- A description with a line of its own. -/
def described : List Act :=
  [.start 1, .create 0 name 1,
    .publish 0 { entry 1 with description := lineFeed :: tagBytes "pid=7".toList },
    .lookup 0 name, .check 0, .remove 0]

/-- What is left of the name, and whether a host serves. -/
def left (acts : List Act) (h : ℕ) : Option (Option Bytes × Bool) :=
  (exec step (start (fun _ => none) fun _ => false) acts).map fun s => (s.files name, s.serves h)

end TwoHosts

open TwoHosts

theorem registry_entry_kept_orderly :
    (orderlyEnd.get orderlyEnd_isSome).serves 1 = true ∧
      (orderlyEnd.get orderlyEnd_isSome).files name = some (publishText (entry 2)) ∧
      (orderlyEnd.get orderlyEnd_isSome).EntryKept :=
  ⟨by decide +kernel, by decide +kernel,
    registry_entry_kept _ _ _ _ (run_of_exec_guardFun (Option.some_get orderlyEnd_isSome).symm)⟩

/-- A host that stops has removed the entry of the host that has started meanwhile. -/
theorem stop_removes_successor :
    ¬ ∀ (files : Bytes → Option Bytes) (alive : ℤ → Bool) (acts : List Act) (s : RegistryWorld),
      Run Step (start files alive) acts s → s.EntryKept := by
  intro hclaim
  have hkept := hclaim _ _ _ _ (run_of_exec (Option.some_get takenOverEnd_isSome).symm)
  have hhost : (takenOverEnd.get takenOverEnd_isSome).hosts 1 =
      some { serviceName := name, pid := 2, phase := .serving, entry := entry 2 } := by rfl
  have hpub : (takenOverEnd.get takenOverEnd_isSome).publisher name = some 1 := by decide +kernel
  have hgone : (takenOverEnd.get takenOverEnd_isSome).files name = none := by decide +kernel
  have hfile := hkept 1 _ hhost rfl hpub
  rw [hgone] at hfile
  cases hfile

-- a `lookup` that comes late, and a description that names a process of its own
example : left lateRemoval 1 = some (none, true) := by decide +kernel

example : left described 0 = some (none, true) := by decide +kernel

end Epx
