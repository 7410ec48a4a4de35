import Epx.Lib.Text
import Epx.Protocol

/-!
# Registry entries

The text format of `src/registry.cpp`: `publish` writes an entry as lines `key=value`, and `lookup`
reads such lines in any order, the last one of a key counting, before it looks whether the process
that published the entry is there.

The values are written as they are. A description or an endpoint with a line feed in it writes lines
of its own, and these are read like the others.

## Main definitions

* `Entry`, `publishText` — what `publish` writes
* `parseEntry`, `pidIsAlive` — what `lookup` makes of a file

## Main results

* `lines_publishText` — the lines of an entry whose values have no line feed
* `parseEntry_publishText` — an entry is read back, without a comma in its endpoints
* `readable_of_parseEntry` — no line feed is read, and no comma in an endpoint
* `pid_of_parseEntry` — its process id is read back
-/

namespace Epx

open Codec Text

/-- `registry::Entry`. `long` has 64 bits. -/
structure Entry where
  version : UInt8 := 1
  serviceName : Bytes := []
  address : Bytes := []
  identityPubkey : PublicKey := Block.zero 32
  pid : ℤ := -1
  endpoints : List Bytes := []
  description : Bytes := []
  deriving DecidableEq

/-! ### Writing -/

/-- `join`. -/
def join (sep : UInt8) : List Bytes → Bytes
  | [] => []
  | [x] => x
  | x :: xs => x ++ sep :: join sep xs

/-- A number as `operator<<` writes it. -/
def decimalInt (n : ℤ) : Bytes :=
  match n with
  | .ofNat n => decimal n
  | .negSucc n => 45 :: decimal (n + 1)

/-- The `=` and the `,` of the format. -/
def equalsSign : UInt8 := 61
def comma : UInt8 := 44

/-- The keys, in the order in which they are written. -/
inductive EntryKey where
  | version
  | service
  | address
  | pubkey
  | pid
  | endpoints
  | description
  deriving DecidableEq

namespace EntryKey

def name : EntryKey → Bytes
  | .version => tagBytes "version".toList
  | .service => tagBytes "service".toList
  | .address => tagBytes "address".toList
  | .pubkey => tagBytes "pubkey".toList
  | .pid => tagBytes "pid".toList
  | .endpoints => tagBytes "endpoints".toList
  | .description => tagBytes "description".toList

def all : List EntryKey := [.version, .service, .address, .pubkey, .pid, .endpoints, .description]

/-- What is written after the `=`. -/
def value (e : Entry) : EntryKey → Bytes
  | .version => decimal e.version.toNat
  | .service => e.serviceName
  | .address => e.address
  | .pubkey => toHex e.identityPubkey.val
  | .pid => decimalInt e.pid
  | .endpoints => join comma e.endpoints
  | .description => e.description

/-- A line of an entry. -/
def line (e : Entry) (k : EntryKey) : Bytes := k.name ++ equalsSign :: k.value e

end EntryKey

/-- What `publish` writes. -/
def publishText (e : Entry) : Bytes := EntryKey.all.flatMap fun k => k.line e ++ [lineFeed]

/-! ### Reading -/

/-- `std::stoi` and `std::stol`: no number, or one that does not fit, throws. -/
def stoi (s : Bytes) : Option ℤ := (strtol s).filter fun n => -2 ^ 31 ≤ n ∧ n < 2 ^ 31
def stol (s : Bytes) : Option ℤ := (strtol s).filter fun n => -2 ^ 63 ≤ n ∧ n < 2 ^ 63

/-- `split`: empty items are left out. -/
def split (sep : UInt8) (s : Bytes) : List Bytes := (pieces sep s).filter fun item => item ≠ []

/-- `line.find('=')`: what stands before it and after it. -/
def splitKey (line : Bytes) : Option (Bytes × Bytes) := cut equalsSign line

/-- One line: `none` when `lookup` gives up on the file. -/
def parseLine (e : Entry) (line : Bytes) : Option Entry :=
  match splitKey line with
  | none => some e
  | some (key, val) =>
    if key = EntryKey.version.name then
      (stoi val).map fun v => { e with version := UInt8.ofNat (v % 256).toNat }
    else if key = EntryKey.service.name then some e
    else if key = EntryKey.address.name then some { e with address := val }
    else if key = EntryKey.pubkey.name then
      (fromHex 32 val).map fun pk => { e with identityPubkey := pk }
    else if key = EntryKey.pid.name then (stol val).map fun pid => { e with pid := pid }
    else if key = EntryKey.endpoints.name then some { e with endpoints := split comma val }
    else if key = EntryKey.description.name then some { e with description := val }
    else some e

/-- What `lookup` reads of a file. -/
def parseEntry (serviceName text : Bytes) : Option Entry :=
  (lines text).foldlM parseLine { serviceName := serviceName }

/-- `pid_is_alive`, where `alive` is what `kill(pid, 0)` finds; `pid_t` has 32 bits. -/
def pidIsAlive (alive : ℤ → Bool) (pid : ℤ) : Bool :=
  decide (0 < pid) && alive (Int.bmod pid (2 ^ 32))

/-! ### An entry is read as it was written -/

/-- No value of an entry has a line feed in it. -/
def Entry.OneLine (e : Entry) : Prop :=
  lineFeed ∉ e.serviceName ∧ lineFeed ∉ e.address ∧
    (∀ endpoint ∈ e.endpoints, lineFeed ∉ endpoint) ∧
    lineFeed ∉ e.description

instance (e : Entry) : Decidable e.OneLine :=
  inferInstanceAs (Decidable (_ ∧ _ ∧ (∀ endpoint ∈ e.endpoints, lineFeed ∉ endpoint) ∧ _))

theorem lineFeed_not_mem_join {xs : List Bytes} (h : ∀ x ∈ xs, lineFeed ∉ x) :
    lineFeed ∉ join comma xs := by
  induction xs with
  | nil => exact List.not_mem_nil
  | cons x xs ih =>
    have hx := h x List.mem_cons_self
    have hxs := ih fun y hy => h y (List.mem_cons_of_mem _ hy)
    cases xs with
    | nil => exact hx
    | cons y ys =>
      rw [join]
      · intro hmem
        rcases List.mem_append.mp hmem with hmem | hmem
        · exact hx hmem
        · rcases List.mem_cons.mp hmem with heq | hmem
          · exact absurd heq (by decide)
          · exact hxs hmem
      · simp

theorem lineFeed_not_mem_decimalInt (n : ℤ) : lineFeed ∉ decimalInt n := by
  cases n with
  | ofNat n => exact lineFeed_not_mem_decimal n
  | negSucc n =>
    intro hmem
    rcases List.mem_cons.mp hmem with heq | hmem
    · exact absurd heq (by decide)
    · exact lineFeed_not_mem_decimal _ hmem

theorem EntryKey.lineFeed_not_mem_line {e : Entry} (h : e.OneLine) (k : EntryKey) :
    lineFeed ∉ k.line e := by
  obtain ⟨hservice, haddress, hendpoints, hdescription⟩ := h
  have hname : lineFeed ∉ k.name := by cases k <;> decide
  have hvalue : lineFeed ∉ k.value e := by
    cases k with
    | version => exact lineFeed_not_mem_decimal _
    | service => exact hservice
    | address => exact haddress
    | pubkey => exact lineFeed_not_mem_toHex _
    | pid => exact lineFeed_not_mem_decimalInt _
    | endpoints => exact lineFeed_not_mem_join hendpoints
    | description => exact hdescription
  intro hmem
  rcases List.mem_append.mp hmem with hmem | hmem
  · exact hname hmem
  · rcases List.mem_cons.mp hmem with heq | hmem
    · exact absurd heq (by decide)
    · exact hvalue hmem

theorem lines_publishText {e : Entry} (h : e.OneLine) :
    lines (publishText e) = EntryKey.all.map fun k => k.line e :=
  lines_flatMap _ _ fun k _ => k.lineFeed_not_mem_line h

theorem splitKey_line (e : Entry) (k : EntryKey) : splitKey (k.line e) = some (k.name, k.value e) :=
  cut_append (by cases k <;> decide)

/-- **Items are read back** that have no comma in them and are not empty. -/
theorem split_join {xs : List Bytes} (h : ∀ x ∈ xs, comma ∉ x ∧ x ≠ []) :
    split comma (join comma xs) = xs := by
  induction xs with
  | nil => rfl
  | cons x xs ih =>
    obtain ⟨⟨hx, hne⟩, hxs⟩ := List.forall_mem_cons.mp h
    cases xs with
    | nil =>
      have hpieces : pieces comma x = [x] := by
        have hend : piecesFrom comma [] x = if [] ++ x = [] then [] else [[] ++ x] :=
          piecesFrom_end hx
        rwa [List.nil_append, if_neg hne] at hend
      rw [join, split, hpieces]
      simp [hne]
    | cons y ys =>
      have hjoin : join comma (x :: y :: ys) = x ++ comma :: join comma (y :: ys) := rfl
      have hpieces : pieces comma (x ++ comma :: join comma (y :: ys)) =
          x :: pieces comma (join comma (y :: ys)) := piecesFrom_append _ hx
      have hrest : (pieces comma (join comma (y :: ys))).filter (fun item => item ≠ []) = y :: ys :=
        ih hxs
      rw [hjoin, split, hpieces, List.filter_cons, hrest, if_pos (decide_eq_true hne)]

/-- A line that is not a `pid` line leaves the process id. -/
theorem pid_of_parseLine {e e' : Entry} {line key val : Bytes}
    (hline : splitKey line = some (key, val))
    (hkey : key ≠ EntryKey.pid.name) (h : parseLine e line = some e') : e'.pid = e.pid := by
  simp only [parseLine, hline] at h
  split at h
  · obtain ⟨v, -, rfl⟩ := Option.map_eq_some_iff.mp h
    rfl
  · split at h
    · cases h
      rfl
    · split at h
      · cases h
        rfl
      · split at h
        · obtain ⟨pk, -, rfl⟩ := Option.map_eq_some_iff.mp h
          rfl
        · split at h
          · cases h
            rfl
          · split at h
            · cases h
              rfl
            · cases h
              rfl

theorem stol_decimalInt {n : ℤ} (hpos : 0 ≤ n) (hlt : n < 2 ^ 63) :
    stol (decimalInt n) = some n := by
  obtain ⟨m, rfl⟩ := Int.eq_ofNat_of_zero_le hpos
  have hread : strtol (decimalInt (m : ℤ)) = some (m : ℤ) := strtol_decimal m
  rw [stol, hread, Option.filter_some, if_pos]
  exact decide_eq_true ⟨by omega, hlt⟩

/-- The `pid` line. -/
theorem pid_of_pidLine {e e₁ e₂ : Entry} (hpos : 0 ≤ e.pid) (hlt : e.pid < 2 ^ 63)
    (h : parseLine e₁ (EntryKey.pid.line e) = some e₂) : e₂.pid = e.pid := by
  have hvalue : stol (EntryKey.pid.value e) = some e.pid := stol_decimalInt hpos hlt
  simp only [parseLine, splitKey_line] at h
  rw [if_neg (by decide), if_neg (by decide), if_neg (by decide), if_neg (by decide),
    if_pos trivial, hvalue] at h
  cases h
  rfl

/-- The line of a key sets the field of the key. -/
theorem parseLine_line {e : Entry} (hpos : 0 ≤ e.pid) (hlt : e.pid < 2 ^ 63)
    (hendpoints : ∀ x ∈ e.endpoints, comma ∉ x ∧ x ≠ []) (k : EntryKey) (e₀ : Entry) :
    parseLine e₀ (k.line e) = some (match k with
      | .version => { e₀ with version := e.version }
      | .service => e₀
      | .address => { e₀ with address := e.address }
      | .pubkey => { e₀ with identityPubkey := e.identityPubkey }
      | .pid => { e₀ with pid := e.pid }
      | .endpoints => { e₀ with endpoints := e.endpoints }
      | .description => { e₀ with description := e.description }) := by
  simp only [parseLine, splitKey_line]
  cases k with
  | version =>
    have hvalue : stoi (EntryKey.version.value e) = some (e.version.toNat : ℤ) := by
      have hlt := e.version.toNat_lt
      have hread : strtol (EntryKey.version.value e) = some (e.version.toNat : ℤ) :=
        strtol_decimal _
      rw [stoi, hread, Option.filter_some, if_pos]
      exact decide_eq_true ⟨by omega, by omega⟩
    have hversion : UInt8.ofNat ((e.version.toNat : ℤ) % 256).toNat = e.version := by
      have hlt := e.version.toNat_lt
      have hmod : ((e.version.toNat : ℤ) % 256).toNat = e.version.toNat := by omega
      rw [hmod, UInt8.ofNat_toNat]
    rw [if_pos rfl, hvalue]
    simp only [Option.map_some, hversion]
  | service => rw [if_neg (by decide), if_pos rfl]
  | address =>
    rw [if_neg (by decide), if_neg (by decide), if_pos rfl]
    rfl
  | pubkey =>
    have hvalue : fromHex 32 (EntryKey.pubkey.value e) = some e.identityPubkey := fromHex_toHex _
    rw [if_neg (by decide), if_neg (by decide), if_neg (by decide), if_pos rfl, hvalue]
    rfl
  | pid =>
    have hvalue : stol (EntryKey.pid.value e) = some e.pid := stol_decimalInt hpos hlt
    rw [if_neg (by decide), if_neg (by decide), if_neg (by decide), if_neg (by decide),
      if_pos rfl, hvalue]
    rfl
  | endpoints =>
    have hvalue : split comma (EntryKey.endpoints.value e) = e.endpoints := split_join hendpoints
    rw [if_neg (by decide), if_neg (by decide), if_neg (by decide), if_neg (by decide),
      if_neg (by decide), if_pos rfl, hvalue]
  | description =>
    rw [if_neg (by decide), if_neg (by decide), if_neg (by decide), if_neg (by decide),
      if_neg (by decide), if_neg (by decide), if_pos rfl]
    rfl

/-- **An entry is read back** that has no line feed in its values and no comma in its endpoints. -/
theorem parseEntry_publishText {e : Entry} (h : e.OneLine) (hpos : 0 ≤ e.pid)
    (hlt : e.pid < 2 ^ 63) (hendpoints : ∀ x ∈ e.endpoints, comma ∉ x ∧ x ≠ []) :
    parseEntry e.serviceName (publishText e) = some e := by
  have hline := parseLine_line hpos hlt hendpoints
  rw [parseEntry, lines_publishText h]
  simp only [EntryKey.all, List.map_cons, List.map_nil, List.foldlM_cons, List.foldlM_nil,
    Option.bind_eq_bind, Option.bind_some, hline]
  rfl

/-! ### What can be read at all -/

/-- What a line leaves or sets. -/
theorem parseLine_cases {e e' : Entry} {line : Bytes} (h : parseLine e line = some e') :
    ∃ val : Bytes, (∀ b ∈ val, b ∈ line) ∧
      (e'.address = e.address ∨ e'.address = val) ∧
      (e'.endpoints = e.endpoints ∨ e'.endpoints = split comma val) ∧
      (e'.description = e.description ∨ e'.description = val) := by
  cases hsplit : splitKey line with
  | none =>
    simp only [parseLine, hsplit] at h
    cases h
    exact ⟨[], fun b hb => absurd hb List.not_mem_nil, .inl rfl, .inl rfl, .inl rfl⟩
  | some p =>
    obtain ⟨key, val⟩ := p
    have hval : ∀ b ∈ val, b ∈ line := by
      intro b hb
      rw [eq_of_cut hsplit]
      exact List.mem_append_right _ (List.mem_cons_of_mem _ hb)
    refine ⟨val, hval, ?_⟩
    simp only [parseLine, hsplit] at h
    split at h
    · obtain ⟨v, -, rfl⟩ := Option.map_eq_some_iff.mp h
      exact ⟨.inl rfl, .inl rfl, .inl rfl⟩
    · split at h
      · cases h
        exact ⟨.inl rfl, .inl rfl, .inl rfl⟩
      · split at h
        · cases h
          exact ⟨.inr rfl, .inl rfl, .inl rfl⟩
        · split at h
          · obtain ⟨pk, -, rfl⟩ := Option.map_eq_some_iff.mp h
            exact ⟨.inl rfl, .inl rfl, .inl rfl⟩
          · split at h
            · obtain ⟨pid, -, rfl⟩ := Option.map_eq_some_iff.mp h
              exact ⟨.inl rfl, .inl rfl, .inl rfl⟩
            · split at h
              · cases h
                exact ⟨.inl rfl, .inr rfl, .inl rfl⟩
              · split at h
                · cases h
                  exact ⟨.inl rfl, .inl rfl, .inr rfl⟩
                · cases h
                  exact ⟨.inl rfl, .inl rfl, .inl rfl⟩

/-- What a line and a list of items can hold. -/
structure Entry.Readable (e : Entry) : Prop where
  address : lineFeed ∉ e.address
  endpoints : ∀ x ∈ e.endpoints, comma ∉ x ∧ lineFeed ∉ x
  description : lineFeed ∉ e.description

theorem Entry.Readable.parseLine {e e' : Entry} {line : Bytes} (h : e.Readable)
    (hline : lineFeed ∉ line) (hparse : Epx.parseLine e line = some e') : e'.Readable := by
  obtain ⟨val, hval, haddress, hendpoints, hdescription⟩ := parseLine_cases hparse
  have hfeed : lineFeed ∉ val := fun hmem => hline (hval _ hmem)
  refine ⟨?_, ?_, ?_⟩
  · rcases haddress with heq | heq <;> rw [heq]
    · exact h.address
    · exact hfeed
  · rcases hendpoints with heq | heq <;> rw [heq]
    · exact h.endpoints
    · intro x hx
      obtain ⟨hcomma, hpart⟩ := mem_piecesFrom List.not_mem_nil (List.mem_filter.mp hx).1
      exact ⟨hcomma, fun hmem => hfeed (hpart _ hmem)⟩
  · rcases hdescription with heq | heq <;> rw [heq]
    · exact h.description
    · exact hfeed

/-- No line feed is read from a file, and no comma in an endpoint. -/
theorem readable_of_parseEntry {serviceName text : Bytes} {e : Entry}
    (h : parseEntry serviceName text = some e) : e.Readable := by
  have hlines : ∀ line ∈ lines text, lineFeed ∉ line := fun _ => lineFeed_not_mem_of_mem_lines
  have hstart : ({ serviceName := serviceName } : Entry).Readable :=
    ⟨List.not_mem_nil, fun x hx => absurd hx List.not_mem_nil, List.not_mem_nil⟩
  rw [parseEntry] at h
  generalize ({ serviceName := serviceName } : Entry) = e₀ at h hstart
  generalize lines text = ls at h hlines
  induction ls generalizing e₀ with
  | nil =>
    cases h
    exact hstart
  | cons line rest ih =>
    obtain ⟨hline, hrest⟩ := List.forall_mem_cons.mp hlines
    rw [List.foldlM_cons, Option.bind_eq_bind, Option.bind_eq_some_iff] at h
    obtain ⟨e₁, hparse, h⟩ := h
    exact ih e₁ (hstart.parseLine hline hparse) h hrest

/-- **The process id of an entry is read back**, whatever else becomes of it. -/
theorem pid_of_parseEntry {e e' : Entry} {serviceName : Bytes} (h : e.OneLine) (hpos : 0 ≤ e.pid)
    (hlt : e.pid < 2 ^ 63) (hparse : parseEntry serviceName (publishText e) = some e') :
    e'.pid = e.pid := by
  rw [parseEntry, lines_publishText h] at hparse
  simp only [EntryKey.all, List.map_cons, List.map_nil, List.foldlM_cons, List.foldlM_nil,
    Option.bind_eq_bind, Option.bind_eq_some_iff] at hparse
  obtain ⟨_, -, _, -, _, -, _, -, e₁, hpid, e₂, hendpoints, e₃, hdescription, heq⟩ := hparse
  have h₁ := pid_of_pidLine hpos hlt hpid
  have h₂ := pid_of_parseLine (splitKey_line e .endpoints) (by decide) hendpoints
  have h₃ := pid_of_parseLine (splitKey_line e .description) (by decide) hdescription
  cases heq
  rw [h₃, h₂, h₁]

end Epx
