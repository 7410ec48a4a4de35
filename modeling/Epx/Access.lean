import Epx.Handshake
import Epx.Lib.Returns

/-!
# Trust and access

Who may open a session and who may call an endpoint: `is_client_side_trusted` of `src/client.cpp`,
`is_trusted` and `authorize` of `src/host.cpp`, and `credentials::covers`.

The keystore is shared with other connections and other processes, so what a host finds there is an
input of each decision (`HostView`). The host also writes to it: it records a client it sees for the
first time and the user's answer to a prompt. Before it writes it prepares the directory, and
`ensure_private_dir` throws when that cannot be done.

## Main definitions

* `TrustPolicy`, `isClientSideTrusted`, `isTrusted`
* `AccessPolicy`, `Credential`, `authorize`

## Main results

* `returns_isTrusted`, `returns_authorize` — when these decisions throw
-/

namespace Epx

open Codec Exception

/-! ### The client's trust decision -/

/-- `TrustPolicy`. -/
inductive TrustPolicy where
  | allowAll
  | requireKnownPeer
  | trustOnFirstUse
  deriving DecidableEq

/-- `Client::Impl::is_client_side_trusted`: `allowedPeers` is the allow-list, `pinned` what the
keystore holds for the service and `entry` the identity in its registry entry. -/
def isClientSideTrusted (policy : TrustPolicy) (allowedPeers : List PublicKey)
    (pinned : Option PublicKey) (entry claimed : PublicKey) : Bool :=
  if claimed ≠ entry then false -- registry/handshake mismatch
  else
    match policy with
    | .allowAll => true
    | .requireKnownPeer => allowedPeers.contains claimed
    | .trustOnFirstUse =>
      match pinned with
      | some key => key = claimed
      | none => true

/-- Trust is granted to the key of the registry entry only, under the policy's own condition. -/
theorem isClientSideTrusted_iff {policy : TrustPolicy} {allowedPeers : List PublicKey}
    {pinned : Option PublicKey} {entry claimed : PublicKey} :
    isClientSideTrusted policy allowedPeers pinned entry claimed = true ↔
      claimed = entry ∧ match policy with
        | .allowAll => True
        | .requireKnownPeer => claimed ∈ allowedPeers
        | .trustOnFirstUse => ∀ key, pinned = some key → key = claimed := by
  by_cases heq : claimed = entry
  swap
  · simp [isClientSideTrusted, heq]
  subst heq
  cases policy with
  | allowAll => simp [isClientSideTrusted]
  | requireKnownPeer => simp [isClientSideTrusted]
  | trustOnFirstUse => cases pinned <;> simp [isClientSideTrusted]

/-- The `trust_fn` of `get_or_connect`. -/
def clientTrustFn (policy : TrustPolicy) (allowedPeers : List PublicKey)
    (pinned : Option PublicKey) (entry : PublicKey) : TrustFn :=
  fun claimed => .ok (isClientSideTrusted policy allowedPeers pinned entry claimed)

/-! ### Credentials -/

/-- `credentials::Credential`. -/
structure Credential where
  peer : PublicKey
  scope : Bytes
  expires : UInt64
  issuer : PublicKey
  signature : Block 64
  deriving DecidableEq

/-- `credentials::covers`; 47 is the slash. -/
def covers (c : Credential) (peer : PublicKey) (service endpoint : Bytes) (nowUnix : UInt64) :
    Bool :=
  if c.peer ≠ peer then false
  else if c.expires ≠ 0 ∧ nowUnix > c.expires then false
  else c.scope = service ∨ c.scope = service ++ 47 :: endpoint

/-! ### What a host decides from -/

/-- `PeerInfo`. -/
structure PeerInfo where
  publicKey : PublicKey
  peerUid : ℤ
  keyWasPinnedNow : Bool := false
  deriving DecidableEq

/-- `AccessTier`. -/
inductive AccessTier where
  | openAccess
  | pinnedPeers
  | certificate
  | promptUser
  deriving DecidableEq

/-- `AccessPolicy`. -/
structure AccessPolicy where
  tier : AccessTier := .openAccess
  promptReason : Bytes := []
  deriving DecidableEq

/-- `PromptDecision`. -/
inductive PromptDecision where
  | deny
  | allowOnce
  | alwaysAllow
  deriving DecidableEq

/-- The host's own lists and what the keystore answers, at the moment a decision is made. -/
structure HostView where
  allowedPeers : List PublicKey
  issuers : List PublicKey
  creds : List Credential
  /-- `std::time(nullptr)`. -/
  now : UInt64
  prompt : Option (PeerInfo → Bytes → Bytes → PromptDecision)
  /-- `keystore::is_known_client` for the host's service. -/
  isKnownClient : PublicKey → Bool
  /-- `keystore::load_authz_decision` for the host's service. -/
  loadAuthzDecision : PublicKey → Bytes → Option Bool
  /-- `ensure_private_dir(known_clients_dir())`. -/
  knownClientsDir : Except Exn Unit
  /-- `ensure_private_dir(authz_dir())`. -/
  authzDir : Except Exn Unit

namespace HostView

/-- `keystore::remember_client`. Whether the write succeeds is not looked at. -/
def rememberClient (view : HostView) (clientPk : PublicKey) : Except Exn Unit :=
  if view.isKnownClient clientPk then pure () else view.knownClientsDir

/-- `keystore::save_authz_decision`, in the same way. -/
def saveAuthzDecision (view : HostView) : Except Exn Unit := view.authzDir

end HostView

/-! ### Trust -/

/-- `Host::Impl::is_trusted`: whether the client is trusted, and `pinned_now`. -/
def isTrusted (policy : TrustPolicy) (view : HostView) (clientPk : PublicKey) :
    Except Exn (Bool × Bool) :=
  if view.allowedPeers.contains clientPk then pure (true, false)
  else
    match policy with
    | .allowAll => pure (true, false)
    | .requireKnownPeer => pure (false, false)
    | .trustOnFirstUse =>
      if view.isKnownClient clientPk then pure (true, false)
      else do
        view.rememberClient clientPk
        pure (true, true)

/-- The client is new to a host that records whom it meets. -/
def Records (policy : TrustPolicy) (view : HostView) (clientPk : PublicKey) : Prop :=
  view.allowedPeers.contains clientPk = false ∧ policy = .trustOnFirstUse ∧
    view.isKnownClient clientPk = false

theorem returns_isTrusted {policy : TrustPolicy} {view : HostView} {clientPk : PublicKey} :
    Returns (isTrusted policy view clientPk) ↔
      (Records policy view clientPk → view.knownClientsDir = .ok ()) := by
  cases hallow : view.allowedPeers.contains clientPk with
  | true => simp [isTrusted, Records, hallow, -List.contains_eq_mem]
  | false =>
    cases policy with
    | allowAll | requireKnownPeer => simp [isTrusted, Records, hallow, -List.contains_eq_mem]
    | trustOnFirstUse =>
      cases hknown : view.isKnownClient clientPk with
      | true => simp [isTrusted, Records, hallow, hknown, -List.contains_eq_mem]
      | false =>
        have heq : isTrusted .trustOnFirstUse view clientPk
            = view.knownClientsDir >>= fun _ => pure (true, true) := by
          simp [isTrusted, hallow, hknown, HostView.rememberClient, -List.contains_eq_mem]
        rw [heq, returns_bind_pure, returns_unit]
        simp [Records, hallow, hknown, -List.contains_eq_mem]

/-- The `trust_fn` of `handle_connection`. -/
def hostTrustFn (policy : TrustPolicy) (view : HostView) : TrustFn :=
  fun pk => (isTrusted policy view pk).map Prod.fst

/-- The host takes the client, once it has recorded a new one. -/
def Trusts (policy : TrustPolicy) (view : HostView) (clientPk : PublicKey) : Prop :=
  view.allowedPeers.contains clientPk = true ∨ policy ≠ .requireKnownPeer

theorem returns_hostTrustFn {policy : TrustPolicy} {view : HostView} {clientPk : PublicKey} :
    Returns (hostTrustFn policy view clientPk) ↔
      (Records policy view clientPk → view.knownClientsDir = .ok ()) :=
  returns_map.trans returns_isTrusted

theorem hostTrustFn_eq_true {policy : TrustPolicy} {view : HostView} {clientPk : PublicKey}
    (h : Returns (hostTrustFn policy view clientPk)) :
    hostTrustFn policy view clientPk = .ok true ↔ Trusts policy view clientPk := by
  rw [returns_hostTrustFn] at h
  cases hallow : view.allowedPeers.contains clientPk with
  | true =>
    refine iff_of_true ?_ (Or.inl hallow)
    unfold hostTrustFn isTrusted
    rw [if_pos hallow]
    rfl
  | false =>
    unfold hostTrustFn isTrusted
    rw [if_neg (by rw [hallow]; exact Bool.false_ne_true)]
    cases policy with
    | allowAll => exact iff_of_true rfl (Or.inr (by decide))
    | requireKnownPeer =>
      refine iff_of_false (fun heq => by cases heq) ?_
      rintro (hmem | hne)
      · rw [hallow] at hmem
        cases hmem
      · exact hne rfl
    | trustOnFirstUse =>
      refine iff_of_true ?_ (Or.inr (by decide))
      cases hknown : view.isKnownClient clientPk with
      | true => simp [Except.map, pure, Except.pure]
      | false =>
        have hdir := h ⟨hallow, rfl, hknown⟩
        simp [hknown, HostView.rememberClient, hdir, Except.map, bind, Except.bind, pure,
          Except.pure]

/-! ### Access -/

/-- The decision of `authorize` when the connection has none from before. -/
def decideAccess (service : Bytes) (view : HostView) (peer : PeerInfo) (endpoint : Bytes)
    (policy : AccessPolicy) : Except Exn Bool :=
  match policy.tier with
  | .openAccess => pure true
  | .pinnedPeers =>
    pure (view.allowedPeers.contains peer.publicKey || view.isKnownClient peer.publicKey)
  | .certificate =>
    pure (view.creds.any fun c =>
      view.issuers.contains c.issuer && covers c peer.publicKey service endpoint view.now)
  | .promptUser =>
    match view.loadAuthzDecision peer.publicKey endpoint with
    | some allowed => pure allowed
    | none =>
      match view.prompt with
      | none => pure false -- no way to ask: deny
      | some cb =>
        let d := cb peer endpoint policy.promptReason
        if d = .alwaysAllow ∨ d = .deny then do
          view.saveAuthzDecision
          pure (decide (d ≠ .deny))
        else pure (decide (d ≠ .deny))

/-- `authorize`, with the connection's cache. -/
def authorize (service : Bytes) (view : HostView) (peer : PeerInfo) (endpoint : Bytes)
    (policy : AccessPolicy) (connCache : List (Bytes × Bool)) :
    Except Exn (Bool × List (Bytes × Bool)) :=
  match connCache.lookup endpoint with
  | some allowed => pure (allowed, connCache)
  | none => do
    let allowed ← decideAccess service view peer endpoint policy
    pure (allowed, (endpoint, allowed) :: connCache)

/-- The user is asked and the answer is to be kept. -/
def SavesDecision (view : HostView) (peer : PeerInfo) (endpoint : Bytes) (policy : AccessPolicy)
    (connCache : List (Bytes × Bool)) : Prop :=
  connCache.lookup endpoint = none ∧ policy.tier = .promptUser ∧
    view.loadAuthzDecision peer.publicKey endpoint = none ∧
    ∃ cb, view.prompt = some cb ∧ cb peer endpoint policy.promptReason ≠ .allowOnce

theorem returns_decideAccess {service : Bytes} {view : HostView} {peer : PeerInfo}
    {endpoint : Bytes} {policy : AccessPolicy} :
    Returns (decideAccess service view peer endpoint policy) ↔
      (policy.tier = .promptUser → view.loadAuthzDecision peer.publicKey endpoint = none →
        ∀ cb, view.prompt = some cb → cb peer endpoint policy.promptReason ≠ .allowOnce →
        view.authzDir = .ok ()) := by
  rw [decideAccess]
  cases htier : policy.tier with
  | openAccess | pinnedPeers | certificate => simp
  | promptUser =>
    cases hload : view.loadAuthzDecision peer.publicKey endpoint with
    | some allowed => simp
    | none =>
      cases hprompt : view.prompt with
      | none => simp
      | some cb =>
        cases hd : cb peer endpoint policy.promptReason with
        | allowOnce => simp [hd]
        | deny | alwaysAllow =>
          simp only [hd, HostView.saveAuthzDecision, true_or, or_true, if_true, returns_bind_pure,
            returns_unit]
          simp [hd]

theorem returns_authorize {service : Bytes} {view : HostView} {peer : PeerInfo} {endpoint : Bytes}
    {policy : AccessPolicy} {connCache : List (Bytes × Bool)} :
    Returns (authorize service view peer endpoint policy connCache) ↔
      (SavesDecision view peer endpoint policy connCache → view.authzDir = .ok ()) := by
  rw [authorize]
  cases hcache : connCache.lookup endpoint with
  | some allowed => simp [SavesDecision, hcache]
  | none =>
    rw [returns_bind_pure, returns_decideAccess]
    constructor
    · rintro h ⟨-, htier, hload, cb, hcb, hd⟩
      exact h htier hload cb hcb hd
    · intro h htier hload cb hcb hd
      exact h ⟨hcache, htier, hload, cb, hcb, hd⟩

end Epx
