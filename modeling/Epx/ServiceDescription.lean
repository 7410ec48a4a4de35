import Epx.HostLoop
import Epx.Registry

/-!
# What a service says of itself

`publish_registry` of `src/host.cpp` and `lookup` and `describe` of `src/registry.cpp`, one after
the other. The host writes its endpoints as `name:kind` into one line, separated by commas, and its
description into another; `describe` takes the line apart again, at the commas and then at the last
colon of each item.

Neither `expose` nor `set_description` looks for a comma or a line feed. An endpoint with a comma in
its name is read as several, and what follows a line feed in a name or a description is read as a
line of its own, which may set the address or the key.

## Main definitions

* `Exposed` — the endpoints of a host
* `publishRegistry`, `lookup`, `describe`
* `DescribesItself` — what the host is and what `describe` says agree
* `Plain` — no separator in a value

## Main results

* `describe_publishRegistry` — a plain host is described as it is
* `describes_itself_iff`
-/

namespace Epx

open Codec Text

/-! ### Endpoints -/

namespace EndpointKind

/-- `kind_to_string`. -/
def toBytes : EndpointKind → Bytes
  | .receive => tagBytes "receive".toList
  | .send => tagBytes "send".toList
  | .streamReceive => tagBytes "stream_receive".toList
  | .streamSend => tagBytes "stream_send".toList
  | .topic => tagBytes "topic".toList

/-- How `describe` reads a kind; what it does not know stays `Receive`. -/
def ofBytes (kind : Bytes) : EndpointKind :=
  if kind = toBytes .receive then .receive
  else if kind = toBytes .send then .send
  else if kind = toBytes .streamReceive then .streamReceive
  else if kind = toBytes .streamSend then .streamSend
  else if kind = toBytes .topic then .topic
  else .receive

theorem ofBytes_toBytes (k : EndpointKind) : ofBytes k.toBytes = k := by
  cases k <;> decide

end EndpointKind

/-- `kReservedPrefix`. -/
def kReservedPrefix : Bytes := tagBytes "$epx/".toList

/-- The names that `check_endpoint_name` lets pass. -/
def checkEndpointName (endpoint : Bytes) : Bool := !kReservedPrefix.isPrefixOf endpoint

theorem checked_nil : ∀ p ∈ ([] : List (Bytes × EndpointEntry)), checkEndpointName p.1 = true :=
  List.forall_mem_nil _

/-- The `handlers` of a host: each name once, and no reserved one. -/
structure Exposed where
  handlers : List (Bytes × EndpointEntry) := []
  nodup : (handlers.map Prod.fst).Nodup := by exact List.nodup_nil
  checked : ∀ p ∈ handlers, checkEndpointName p.1 = true := by exact checked_nil

/-- `handlers[endpoint] = entry` after the check of the name; `none` is the exception. -/
def Exposed.expose (x : Exposed) (endpoint : Bytes) (entry : EndpointEntry) : Option Exposed :=
  if hname : checkEndpointName endpoint = true then
    some
      { handlers := (endpoint, entry) :: x.handlers.filter fun p => p.1 ≠ endpoint
        nodup := by
          rw [List.map_cons, List.nodup_cons]
          constructor
          · intro hmem
            obtain ⟨p, hp, heq⟩ := List.mem_map.mp hmem
            exact of_decide_eq_true (List.mem_filter.mp hp).2 heq
          · exact x.nodup.sublist (List.filter_sublist.map _)
        checked := by
          intro p hp
          rcases List.mem_cons.mp hp with rfl | hp
          · exact hname
          · exact x.checked p (List.mem_filter.mp hp).1 }
  else none

/-- An item of the `endpoints` line. -/
def endpointItem (p : Bytes × EndpointEntry) : Bytes := p.1 ++ 58 :: p.2.kind.toBytes

/-- What `describe` makes of an item: the last colon counts. -/
def readItem (item : Bytes) : Bytes × EndpointKind :=
  match cutLast 58 item with
  | none => (item, EndpointKind.ofBytes (EndpointKind.toBytes .receive))
  | some (name, kind) => (name, EndpointKind.ofBytes kind)

theorem readItem_endpointItem (p : Bytes × EndpointEntry) :
    readItem (endpointItem p) = (p.1, p.2.kind) := by
  have hcolon : 58 ∉ p.2.kind.toBytes := by cases p.2.kind <;> decide
  rw [readItem, endpointItem, cutLast_append hcolon]
  exact congrArg (Prod.mk p.1) (EndpointKind.ofBytes_toBytes _)

/-- The name that is read is part of the item. -/
theorem mem_of_mem_readItem {item : Bytes} {b : UInt8} (h : b ∈ (readItem item).1) : b ∈ item := by
  rw [readItem] at h
  cases hcut : cutLast 58 item with
  | none =>
    rw [hcut] at h
    exact h
  | some p =>
    rw [hcut] at h
    rw [eq_of_cutLast hcut]
    exact List.mem_append_left _ h

/-! ### The registry -/

/-- The files of the registry directory, by service; a service name is one component of a path. -/
abbrev RegistryDir := Bytes → Option Bytes

/-- `publish`, when the write and the rename succeed. -/
def publish (e : Entry) (dir : RegistryDir) : RegistryDir :=
  Function.update dir e.serviceName (some (publishText e))

/-- `lookup`, with the directory it leaves: a stale entry is removed. -/
def lookup (alive : ℤ → Bool) (serviceName : Bytes) (dir : RegistryDir) :
    Option Entry × RegistryDir :=
  match (dir serviceName).bind (parseEntry serviceName) with
  | none => (none, dir)
  | some e =>
    if pidIsAlive alive e.pid then (some e, dir)
    else (none, Function.update dir serviceName none)

/-- `ServiceDescription`. -/
structure ServiceDescription where
  serviceName : Bytes
  description : Bytes
  pid : ℤ
  identityPubkey : PublicKey
  endpoints : List (Bytes × EndpointKind)
  deriving DecidableEq

/-- `describe`. -/
def describe (alive : ℤ → Bool) (serviceName : Bytes) (dir : RegistryDir) :
    Option ServiceDescription :=
  (lookup alive serviceName dir).1.map fun e =>
    { serviceName := e.serviceName, description := e.description, pid := e.pid
      identityPubkey := e.identityPubkey, endpoints := e.endpoints.map readItem }

/-- What `publish_registry` reads of a host. -/
structure DescribedHost where
  serviceName : Bytes
  identityPubkey : PublicKey
  description : Bytes := []
  exposed : Exposed := {}

/-- `transport::default_address_for_service`. -/
def defaultAddressForService (runtimeDir serviceName : Bytes) : Bytes :=
  runtimeDir ++ tagBytes "/sockets/".toList ++ serviceName ++ tagBytes ".sock".toList

namespace DescribedHost

variable (host : DescribedHost) (runtimeDir : Bytes) (pid : ℤ)

/-- The address on which `run` listens. -/
def address : Bytes := defaultAddressForService runtimeDir host.serviceName

/-- The entry that `publish_registry` fills. -/
def entry : Entry :=
  { serviceName := host.serviceName, address := host.address runtimeDir
    identityPubkey := host.identityPubkey, pid := pid
    endpoints := host.exposed.handlers.map endpointItem, description := host.description }

/-- `publish_registry`. -/
def publishRegistry (dir : RegistryDir) : RegistryDir := publish (host.entry runtimeDir pid) dir

/-- After the host has published itself, `describe` says what it is, with each endpoint once, and
`lookup` finds its address. -/
def DescribesItself (alive : ℤ → Bool) (dir : RegistryDir) : Prop :=
  (∃ d, describe alive host.serviceName (host.publishRegistry runtimeDir pid dir) = some d ∧
    d.serviceName = host.serviceName ∧ d.identityPubkey = host.identityPubkey ∧ d.pid = pid ∧
    d.description = host.description ∧
    d.endpoints.Perm (host.exposed.handlers.map fun p => (p.1, p.2.kind))) ∧
  ∃ e, (lookup alive host.serviceName (host.publishRegistry runtimeDir pid dir)).1 = some e ∧
    e.address = host.address runtimeDir

/-- There is no line feed in a value, and no comma in the name of an endpoint. -/
def Plain : Prop :=
  lineFeed ∉ host.address runtimeDir ∧ lineFeed ∉ host.description ∧
    ∀ p ∈ host.exposed.handlers, comma ∉ p.1 ∧ lineFeed ∉ p.1

instance : Decidable (host.Plain runtimeDir) :=
  inferInstanceAs (Decidable (_ ∧ _ ∧ ∀ p ∈ host.exposed.handlers, comma ∉ p.1 ∧ lineFeed ∉ p.1))

variable {host : DescribedHost} {runtimeDir : Bytes} {pid : ℤ} {alive : ℤ → Bool}

/-- What `lookup` reads of the host's own file. -/
theorem lookup_publishRegistry (dir : RegistryDir) {e : Entry}
    (h : (lookup alive host.serviceName (host.publishRegistry runtimeDir pid dir)).1 = some e) :
    parseEntry host.serviceName (publishText (host.entry runtimeDir pid)) = some e := by
  have hfile : host.publishRegistry runtimeDir pid dir host.serviceName =
      some (publishText (host.entry runtimeDir pid)) := Function.update_self ..
  rw [lookup, hfile, Option.bind_some] at h
  split at h
  · cases h
  · next e' he =>
    split at h
    · cases h
      exact he
    · cases h

/-- The service name is part of the address. -/
theorem mem_address {b : UInt8} (h : b ∈ host.serviceName) : b ∈ host.address runtimeDir :=
  List.mem_append_left _ (List.mem_append_right _ h)

theorem mem_endpointItem {p : Bytes × EndpointEntry} {b : UInt8} (h : b ∈ endpointItem p) :
    b ∈ p.1 ∨ b = 58 ∨ b ∈ p.2.kind.toBytes := by
  rcases List.mem_append.mp h with h | h
  · exact Or.inl h
  · exact Or.inr (List.mem_cons.mp h)

/-- **A plain host is found as it was published.** -/
theorem lookup_of_plain (h : host.Plain runtimeDir) (hpos : 0 < pid) (hlt : pid < 2 ^ 31)
    (halive : alive pid = true) (dir : RegistryDir) :
    (lookup alive host.serviceName (host.publishRegistry runtimeDir pid dir)).1 =
      some (host.entry runtimeDir pid) := by
  obtain ⟨haddress, hdescription, hnames⟩ := h
  have hitems : ∀ x ∈ (host.entry runtimeDir pid).endpoints,
      comma ∉ x ∧ lineFeed ∉ x ∧ x ≠ [] := by
    intro x hx
    obtain ⟨p, hp, rfl⟩ := List.mem_map.mp hx
    have hcomma : comma ≠ 58 ∧ comma ∉ p.2.kind.toBytes := by cases p.2.kind <;> decide
    have hfeed : lineFeed ≠ 58 ∧ lineFeed ∉ p.2.kind.toBytes := by cases p.2.kind <;> decide
    refine ⟨fun hmem => ?_, fun hmem => ?_, by simp [endpointItem]⟩
    · rcases mem_endpointItem hmem with hmem | heq | hmem
      · exact (hnames p hp).1 hmem
      · exact hcomma.1 heq
      · exact hcomma.2 hmem
    · rcases mem_endpointItem hmem with hmem | heq | hmem
      · exact (hnames p hp).2 hmem
      · exact hfeed.1 heq
      · exact hfeed.2 hmem
  have hline : (host.entry runtimeDir pid).OneLine :=
    ⟨fun hmem => haddress (mem_address hmem), haddress, fun x hx => (hitems x hx).2.1, hdescription⟩
  have hlong : pid < 2 ^ 63 := by omega
  have hread : parseEntry host.serviceName (publishText (host.entry runtimeDir pid)) =
      some (host.entry runtimeDir pid) :=
    parseEntry_publishText (e := host.entry runtimeDir pid) hline hpos.le hlong
      fun x hx => ⟨(hitems x hx).1, (hitems x hx).2.2⟩
  have hfile : host.publishRegistry runtimeDir pid dir host.serviceName =
      some (publishText (host.entry runtimeDir pid)) := Function.update_self ..
  have hthere : pidIsAlive alive (host.entry runtimeDir pid).pid = true := by
    have hbmod : Int.bmod pid (2 ^ 32) = pid := Int.bmod_eq_of_le (by omega) (by omega)
    change (decide (0 < pid) && alive (Int.bmod pid (2 ^ 32))) = true
    rw [hbmod, halive, decide_eq_true hpos]
    rfl
  rw [lookup, hfile, Option.bind_some, hread]
  simp only [hthere, if_true]

/-- A host that is described as it is has no separator in its values. -/
theorem plain_of_describesItself {dir : RegistryDir}
    (h : host.DescribesItself runtimeDir pid alive dir) : host.Plain runtimeDir := by
  obtain ⟨⟨d, hd, -, -, -, hdescription, hendpoints⟩, e, he, haddress⟩ := h
  obtain ⟨e', he', rfl⟩ := Option.map_eq_some_iff.mp hd
  obtain rfl : e = e' := Option.some.inj (he.symm.trans he')
  have hread : e.Readable := readable_of_parseEntry (lookup_publishRegistry dir he)
  refine ⟨haddress ▸ hread.address, hdescription ▸ hread.description, fun p hp => ?_⟩
  -- the name comes out of some item
  have hmem : (p.1, p.2.kind) ∈ e.endpoints.map readItem :=
    hendpoints.mem_iff.mpr (List.mem_map_of_mem hp)
  obtain ⟨item, hitem, heq⟩ := List.mem_map.mp hmem
  have hname : (readItem item).1 = p.1 := congrArg Prod.fst heq
  obtain ⟨hcomma, hfeed⟩ := hread.endpoints item hitem
  rw [← hname]
  exact ⟨fun hb => hcomma (mem_of_mem_readItem hb), fun hb => hfeed (mem_of_mem_readItem hb)⟩

end DescribedHost

open DescribedHost in
/-- **A service describes itself faithfully exactly if it is plain**: if there is no line feed in
its address and its description, and neither a comma nor a line feed in the names of its
endpoints. -/
theorem describes_itself_iff (host : DescribedHost) (runtimeDir : Bytes) (pid : ℤ)
    (alive : ℤ → Bool) (dir : RegistryDir) (hpid : 0 < pid ∧ pid < 2 ^ 31)
    (halive : alive pid = true) :
    host.DescribesItself runtimeDir pid alive dir ↔ host.Plain runtimeDir := by
  constructor
  · exact plain_of_describesItself
  · intro h
    have hfound := lookup_of_plain h hpid.1 hpid.2 halive dir
    refine ⟨⟨_, congrArg (Option.map _) hfound, rfl, rfl, rfl, rfl, ?_⟩, _, hfound, rfl⟩
    have hitems : (host.exposed.handlers.map endpointItem).map readItem =
        host.exposed.handlers.map fun p => (p.1, p.2.kind) := by
      rw [List.map_map]
      exact List.map_congr_left fun p _ => readItem_endpointItem p
    exact List.Perm.of_eq hitems

/-- A host with an endpoint whose name has a colon. -/
theorem describes_itself_iff_plain :
    let host : DescribedHost :=
      { serviceName := [97], identityPubkey := Block.zero 32
        exposed := (({} : Exposed).expose (tagBytes "a:send".toList) { kind := .topic }).getD {} }
    host.DescribesItself [] 1 (fun _ => true) fun _ => none := by
  intro host
  exact (describes_itself_iff host [] 1 (fun _ => true) (fun _ => none) (by decide) rfl).mpr
    (by decide)

/-- An endpoint that is described as another one, and gives the service another address. -/
theorem endpoint_names_address :
    let host : DescribedHost :=
      { serviceName := [97], identityPubkey := Block.zero 32
        exposed := (({} : Exposed).expose (tagBytes "b\naddress=x\n".toList)
          { kind := .send }).getD {} }
    let dir := host.publishRegistry [] 1 fun _ => none
    (describe (fun _ => true) [97] dir).map ServiceDescription.endpoints =
        some [([98], .receive)] ∧
      (lookup (fun _ => true) [97] dir).1.map Entry.address = some (tagBytes "x".toList) ∧
      ¬ host.DescribesItself [] 1 (fun _ => true) fun _ => none := by
  intro host dir
  have haddress : (lookup (fun _ => true) [97] dir).1.map Entry.address =
      some (tagBytes "x".toList) := by decide +kernel
  refine ⟨by decide +kernel, haddress, ?_⟩
  rintro ⟨-, e, he, hpublished⟩
  rw [show (lookup (fun _ => true) [97] dir).1 = some e from he] at haddress
  rw [Option.some.inj haddress] at hpublished
  exact absurd hpublished (by decide)

end Epx
