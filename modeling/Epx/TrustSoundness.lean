import Epx.PeerInput
import Epx.Lib.Transition

/-!
# Trust policies

What a session says about its peer. On the client, `get_or_connect` checks the registry entry before
it connects and hands `client_handshake` a callback that checks the claimed identity again; on the
host, `server_handshake` verifies the HELLO first and only then asks a callback that may record the
client in the keystore.

The stores are shared with other threads and processes, so `get_or_connect` reads each of them as it
is at that moment (`ConnectView`), and a host reads its own through a `HostView`. The bytes of the
remote side are arbitrary, but for forged signatures: what the HELLO or the ack that it sends makes
this side check, and what verifies, has been signed with the key (`Signed`).

## Main definitions

* `getOrConnect`, `ConnectView`
* `DeliversAck`, `DeliversHello` — what a stream makes a side check
* `trustAsked` — the key that `server_handshake` asks its callback about
* `KnownClients`, `KnownClients.serve` — a host's record of clients over many connections

## Main results

* `getOrConnect_eq_opened` — what has been checked when a session is opened
* `serverHandshake_congr` — the callback is asked about one key, whose signature has been verified
* `trust_policies_sound`
-/

namespace Epx

open Codec Exception Transition

/-! ### The client -/

/-- The codes of `EpxError` with which `get_or_connect` gives up. -/
inductive ConnectError where
  | notFound
  | connectFailed
  | handshakeRejected
  deriving DecidableEq

/-- What a call of `get_or_connect` finds, in the order in which it looks. -/
structure ConnectView where
  /-- A connection to the service is there and alive. -/
  live : Bool
  /-- The identity in the registry entry of the service. -/
  entry : Option PublicKey
  allowedBefore : List PublicKey
  pinnedBefore : Option PublicKey
  /-- `transport::connect` succeeds. -/
  connected : Bool
  /-- The pin from which `freshly_pinned` is set. -/
  pinnedConnected : Option PublicKey
  helloWritten : Bool
  /-- The allow-list and the pin at the trust check. -/
  allowed : List PublicKey
  pinned : Option PublicKey
  deriving DecidableEq

/-- How a call ends: with a connection it found, with an error, or with a new session and what it
hands to `pin_peer`. -/
inductive ConnectOutcome where
  | reused
  | error (code : ConnectError)
  | opened (hs : HandshakeResult) (pin : Option PublicKey)
  deriving DecidableEq

/-- The checks of `get_or_connect` before it connects. -/
def refusedBefore (policy : TrustPolicy) (view : ConnectView) (entry : PublicKey) : Bool :=
  match policy with
  | .allowAll => false
  | .requireKnownPeer => !view.allowedBefore.contains entry
  | .trustOnFirstUse => view.pinnedBefore.any fun key => key ≠ entry

/-- `Client::Impl::get_or_connect`; `stream` is what the host sends. -/
def getOrConnect (S : Sodium) (policy : TrustPolicy) (run : ClientRun) (view : ConnectView)
    (stream : Bytes) : Except Exn ConnectOutcome :=
  if view.live then pure .reused
  else
    match view.entry with
    | none => pure (.error .notFound)
    | some entry =>
      if refusedBefore policy view entry then pure (.error .handshakeRejected)
      else if view.connected = false then pure (.error .connectFailed)
      else do
        let freshlyPinned := decide (policy = .trustOnFirstUse) && view.pinnedConnected.isNone
        let hs ← clientHandshake S run (clientTrustFn policy view.allowed view.pinned entry)
          view.helloWritten stream
        match hs with
        | none => pure (.error .handshakeRejected)
        | some hs => pure (.opened hs (if freshlyPinned then some hs.peerIdentity else none))

/-- The stream starts with this ack. -/
def DeliversAck (stream : Bytes) (ack : HelloAckPayload) : Prop :=
  ∃ f rest, readFrame false stream = some (f, rest) ∧ decodeHelloAck f.body = .accept ack

/-- The stream starts with this HELLO. -/
def DeliversHello (stream : Bytes) (hello : HelloPayload) : Prop :=
  ∃ f rest, readFrame false stream = some (f, rest) ∧ decodeHello f.body = .accept hello

/-- The client's policy admits the key. -/
def PolicyHolds (policy : TrustPolicy) (view : ConnectView) (key : PublicKey) : Prop :=
  match policy with
  | .allowAll => True
  | .requireKnownPeer => key ∈ view.allowed
  | .trustOnFirstUse => view.pinned = none ∨ view.pinned = some key

section

variable {S : Sodium}

theorem policyHolds_of_trusted {policy : TrustPolicy} {view : ConnectView}
    {entry claimed : PublicKey}
    (h : isClientSideTrusted policy view.allowed view.pinned entry claimed = true) :
    claimed = entry ∧ PolicyHolds policy view claimed := by
  obtain ⟨heq, hpolicy⟩ := isClientSideTrusted_iff.mp h
  refine ⟨heq, ?_⟩
  cases policy with
  | allowAll => trivial
  | requireKnownPeer => exact hpolicy
  | trustOnFirstUse =>
    cases hpin : view.pinned with
    | none => exact Or.inl hpin
    | some key => exact Or.inr (by rw [hpin, hpolicy key hpin])

/-- **What has been checked when a session is opened.** -/
theorem getOrConnect_eq_opened {policy : TrustPolicy} {run : ClientRun} {view : ConnectView}
    {stream : Bytes} {hs : HandshakeResult} {pin : Option PublicKey}
    (h : getOrConnect S policy run view stream = .ok (.opened hs pin)) :
    view.entry = some hs.peerIdentity ∧ PolicyHolds policy view hs.peerIdentity ∧
      ∃ ack : HelloAckPayload, DeliversAck stream ack ∧
        ack.identityPubkey = hs.peerIdentity ∧ ack.status = 0 ∧
        ack.clientNonce = run.clientNonce ∧ ackSigOk S ack = true ∧
        (hs.version ≥ 2 → ackSigOkV2 S run.self.publicKey hs.version ack = true) ∧
        S.kxClientSessionKeys run.ephemeral ack.ephemeralPubkey = some hs.keys := by
  rw [getOrConnect] at h
  split at h
  · cases h
  cases hentry : view.entry with
  | none =>
    rw [hentry] at h
    cases h
  | some entry =>
    simp only [hentry] at h
    split at h
    · cases h
    split at h
    · cases h
    obtain ⟨result, hhandshake, h⟩ := bind_eq_ok.mp h
    cases result with
    | none => cases h
    | some hs' =>
      cases h
      rw [clientHandshake] at hhandshake
      split at hhandshake
      · cases hhandshake
      obtain ⟨frame, ack, hframe, -, hdec, haccept⟩ := clientFinish_eq_some hhandshake
      obtain ⟨⟨f, rest⟩, hread, rfl⟩ := Option.map_eq_some_iff.mp hframe
      obtain ⟨hpass, hid, -, hv2, hkeys⟩ := clientAccept_eq_some.mp haccept
      obtain ⟨heq, hpolicy⟩ := policyHolds_of_trusted (Except.ok.inj hpass.trusted)
      rw [← hid] at heq hpolicy
      exact ⟨by rw [heq], hpolicy, ack, ⟨f, rest, hread, hdec⟩, hid.symm, hpass.status,
        hpass.clientNonce, hpass.signature, hv2, hkeys⟩

end

/-! ### The host -/

/-- The key about which `server_handshake` asks its trust callback, if it gets so far. -/
def trustAsked (S : Sodium) (run : ServerRun) (stream : Bytes) : Option PublicKey := do
  let (f, _) ← readFrame false stream
  if f.type ≠ .hello then none
  else
    match decodeHello f.body with
    | .accept hello =>
      if hello.version ≠ kProtocolVersion then none
      else if hello.serviceName ≠ run.serviceName then none
      else if negotiateVersion run.myMax hello.maxVersion = 0 then none
      else if helloSigOk S (negotiateVersion run.myMax hello.maxVersion) hello then
        some hello.identityPubkey
      else none
    | _ => none

section

variable {S : Sodium} {run : ServerRun} {stream : Bytes}

theorem trustAsked_eq_some {key : PublicKey} :
    trustAsked S run stream = some key ↔
      ∃ hello, PresentsHello S run stream hello ∧ hello.identityPubkey = key := by
  constructor
  · intro h
    rw [trustAsked] at h
    obtain ⟨⟨f, rest⟩, hread, h⟩ := Option.bind_eq_some_iff.mp h
    simp only at h
    split at h
    · cases h
    next htype =>
    cases hdec : decodeHello f.body with
    | oob | reject =>
      rw [hdec] at h
      cases h
    | accept hello =>
      simp only [hdec] at h
      split at h
      · cases h
      split at h
      · cases h
      split at h
      · cases h
      split at h
      · next hversion hname hneg hsig =>
        exact ⟨hello, ⟨⟨f, rest, hread, not_not.mp htype, hdec⟩, not_not.mp hversion,
          not_not.mp hname, hneg, hsig⟩, Option.some.inj h⟩
      · cases h
  · rintro ⟨hello, ⟨⟨f, rest, hread, htype, hdec⟩, hversion, hname, hneg, hsig⟩, rfl⟩
    simp [trustAsked, hread, htype, hdec, hversion, hname, hneg, hsig]

/-- **The callback is asked about one key**: what it would say of others makes no difference. -/
theorem serverHandshake_congr {trust trust' : TrustFn} {ackWritten : Bool}
    (h : ∀ key, trustAsked S run stream = some key → trust key = trust' key) :
    serverHandshake S run trust stream ackWritten
      = serverHandshake S run trust' stream ackWritten := by
  have hanswer : serverAnswer S run trust ((readFrame false stream).map Prod.fst)
      = serverAnswer S run trust' ((readFrame false stream).map Prod.fst) := by
    cases hread : readFrame false stream with
    | none => rfl
    | some p =>
      obtain ⟨f, rest⟩ := p
      unfold serverAnswer
      simp only [Option.map_some]
      split
      · rfl
      next htype =>
      cases hdec : decodeHello f.body with
      | oob | reject => rfl
      | accept hello =>
        simp only [serverDecide]
        split
        · rfl
        split
        · rfl
        split
        · rfl
        split
        · next hversion hname hneg hsig =>
          have hpresents : PresentsHello S run stream hello :=
            ⟨⟨f, rest, hread, not_not.mp htype, hdec⟩, not_not.mp hversion, not_not.mp hname, hneg,
              hsig⟩
          rw [h _ (trustAsked_eq_some.mpr ⟨hello, hpresents, rfl⟩)]
        · rfl
  unfold serverHandshake
  rw [hanswer]

/-- What has been checked when `server_handshake` gives a result. -/
theorem serverHandshake_eq_some {trust : TrustFn} {ackWritten : Bool} {r : HandshakeResult}
    (h : serverHandshake S run trust stream ackWritten = .ok (some r)) :
    ∃ hello, PresentsHello S run stream hello ∧ hello.identityPubkey = r.peerIdentity ∧
      trust r.peerIdentity = .ok true ∧
      S.kxServerSessionKeys run.ephemeral hello.ephemeralPubkey = some r.keys := by
  rw [serverHandshake] at h
  obtain ⟨answer, hanswer, h⟩ := bind_eq_ok.mp h
  cases answer with
  | none => cases h
  | some a =>
    obtain ⟨-, htrusted, hid, -, hkeys⟩ := serverFinish_eq_some.mp h
    obtain ⟨⟨f, hf, htype, hdec⟩, hchecks⟩ := serverAnswer_eq_some hanswer
    obtain ⟨⟨f', rest⟩, hread, rfl⟩ := Option.map_eq_some_iff.mp hf
    obtain ⟨hsig, htrust⟩ := hchecks.trusted htrusted
    have hversion : a.hello.version = kProtocolVersion := by
      rw [hf] at hanswer
      rw [serverAnswer] at hanswer
      simp only [hdec] at hanswer
      rw [if_neg (not_not.mpr htype)] at hanswer
      exact (serverDecide_eq_some hanswer).2.1
    have hneg := hchecks.negotiated_ne
    rw [hchecks.negotiated] at hneg hsig
    rw [← hid] at htrust
    exact ⟨a.hello, ⟨⟨f', rest, hread, htype, hdec⟩, hversion, hchecks.serviceName, hneg, hsig⟩,
      hid.symm, htrust, hkeys⟩

/-- A HELLO that passes its checks has been signed for this service. -/
theorem signed_of_presents {hello : HelloPayload} (h : PresentsHello S run stream hello)
    {Signed : PublicKey → Bytes → Prop}
    (hunf : ∀ hello, DeliversHello stream hello → S.Unforged Set.univ Signed hello.checks) :
    Signed hello.identityPubkey
      (helloSignedBytes hello.ephemeralPubkey hello.clientNonce run.serviceName) := by
  obtain ⟨f, rest, hread, -, hdec⟩ := h.frame
  rw [← h.serviceName]
  exact (signed_of_helloSigOk (hunf hello ⟨f, rest, hread, hdec⟩) (Set.mem_univ _) h.signature).1

end

instance (policy : TrustPolicy) (view : HostView) (key : PublicKey) :
    Decidable (Records policy view key) :=
  inferInstanceAs (Decidable (_ ∧ _ ∧ _))

/-- The key that `is_trusted` passes to `remember_client`. -/
def remembered (S : Sodium) (policy : TrustPolicy) (view : HostView) (run : ServerRun)
    (stream : Bytes) : Option PublicKey :=
  (trustAsked S run stream).filter fun key => Records policy view key

/-- The host's policy admits the key: it is on the allow-list, or the policy asks for nothing, or it
is known or recorded now. -/
def HostPolicyHolds (S : Sodium) (policy : TrustPolicy) (view : HostView) (run : ServerRun)
    (stream : Bytes) (key : PublicKey) : Prop :=
  key ∈ view.allowedPeers ∨ policy = .allowAll ∨
    policy = .trustOnFirstUse ∧
      (view.isKnownClient key = true ∨ remembered S policy view run stream = some key)

theorem hostPolicyHolds {S : Sodium} {policy : TrustPolicy} {view : HostView} {run : ServerRun}
    {stream : Bytes} {key : PublicKey} (hasked : trustAsked S run stream = some key)
    (htrust : hostTrustFn policy view key = .ok true) :
    HostPolicyHolds S policy view run stream key := by
  have htrusts := (hostTrustFn_eq_true ⟨true, htrust⟩).mp htrust
  cases hallow : view.allowedPeers.contains key with
  | true => exact Or.inl (List.contains_iff_mem.mp hallow)
  | false =>
    cases policy with
    | allowAll => exact Or.inr (Or.inl rfl)
    | requireKnownPeer =>
      obtain hmem | hne := htrusts
      · rw [hallow] at hmem
        cases hmem
      · exact absurd rfl hne
    | trustOnFirstUse =>
      refine Or.inr (Or.inr ⟨rfl, ?_⟩)
      cases hknown : view.isKnownClient key with
      | true => exact Or.inl rfl
      | false =>
        refine Or.inr ?_
        rw [remembered, hasked, Option.filter_some, if_pos]
        exact decide_eq_true ⟨hallow, rfl, hknown⟩

/-! ### A host over many connections -/

/-- The known-clients file of a host's service, and the handshakes that gave a result, each with the
allow-list it was checked against. -/
structure KnownClients where
  known : List PublicKey
  completed : List (List PublicKey × PublicKey) := []
  deriving DecidableEq

/-- What a connection attempt finds and draws. -/
structure TrustAttempt where
  run : ServerRun
  view : HostView
  stream : Bytes
  ackWritten : Bool
  /-- The line is appended to the file. -/
  appended : Bool

/-- The client shows no forged signature. -/
def TrustAttempt.Unforged (S : Sodium) (Signed : PublicKey → Bytes → Prop) (a : TrustAttempt) :
    Prop :=
  ∀ hello, DeliversHello a.stream hello → S.Unforged Set.univ Signed hello.checks

namespace KnownClients

variable (S : Sodium) (policy : TrustPolicy)

/-- The key that an attempt adds to the file. -/
def adds (a : TrustAttempt) : Option PublicKey :=
  (remembered S policy a.view a.run a.stream).filter fun _ =>
    decide (a.view.knownClientsDir = .ok ()) && a.appended

/-- One connection attempt, with any contents of the stores. -/
def serve (s : KnownClients) (a : TrustAttempt) : KnownClients :=
  { known := s.known ++ (adds S policy a).toList
    completed := s.completed ++
      match serverHandshake S a.run (hostTrustFn policy a.view) a.stream a.ackWritten with
      | .ok (some r) => [(a.view.allowedPeers, r.peerIdentity)]
      | _ => [] }

/-- The attempts on a host of the given name. -/
def Step (service : Bytes) (s : KnownClients) (a : TrustAttempt) (s' : KnownClients) : Prop :=
  a.run.serviceName = service ∧ s' = serve S policy s a

end KnownClients

section

variable {S : Sodium} {policy : TrustPolicy} {service : Bytes} {Signed : PublicKey → Bytes → Prop}

/-- What a host has recorded was there at the start or signed a HELLO to this host. -/
structure KnownClients.Sound (Signed : PublicKey → Bytes → Prop) (policy : TrustPolicy)
    (service : Bytes) (start : List PublicKey) (s : KnownClients) : Prop where
  known : ∀ key ∈ s.known, key ∈ start ∨
    ∃ eph nonce, Signed key (helloSignedBytes eph nonce service)
  completed : policy = .requireKnownPeer → ∀ p ∈ s.completed, p.2 ∈ p.1

theorem KnownClients.Sound.step {start : List PublicKey} {s s' : KnownClients} {a : TrustAttempt}
    (h : s.Sound Signed policy service start) (hunf : a.Unforged S Signed)
    (hstep : Step S policy service s a s') : s'.Sound Signed policy service start := by
  obtain ⟨hname, rfl⟩ := hstep
  refine ⟨fun key hkey => ?_, fun hpolicy p hp => ?_⟩
  · rcases List.mem_append.mp hkey with hold | hnew
    · exact h.known key hold
    · right
      rw [Option.mem_toList, adds] at hnew
      obtain ⟨hremembered, -⟩ := Option.filter_eq_some_iff.mp hnew
      obtain ⟨hasked, -⟩ := Option.filter_eq_some_iff.mp hremembered
      obtain ⟨hello, hpresents, rfl⟩ := trustAsked_eq_some.mp hasked
      have hsigned := signed_of_presents hpresents hunf
      rw [hname] at hsigned
      exact ⟨_, _, hsigned⟩
  · rcases List.mem_append.mp hp with hold | hnew
    · exact h.completed hpolicy p hold
    · cases hr : serverHandshake S a.run (hostTrustFn policy a.view) a.stream a.ackWritten with
      | error e => simp [hr] at hnew
      | ok result =>
        cases result with
        | none => simp [hr] at hnew
        | some r =>
          simp only [hr, List.mem_singleton] at hnew
          subst hnew
          obtain ⟨hello, -, -, htrust, -⟩ := serverHandshake_eq_some hr
          have htrusts := (hostTrustFn_eq_true ⟨true, htrust⟩).mp htrust
          obtain hmem | hne := htrusts
          · exact List.contains_iff_mem.mp hmem
          · exact absurd hpolicy hne

end

/-- **Trust policies are sound on both ends**, for every content of the registry and the stores and
every byte stream of the remote side that shows no forged signature:

* a session that `get_or_connect` opens is with the identity of the registry entry; that identity
  has signed the ack transcript with this run's client nonce, and the ephemeral of that transcript
  is the one the keys come from; and the client's policy admitted it at the trust check;
* a result of `server_handshake` is with an identity that has signed the HELLO transcript with this
  host's service name, and the ephemeral of that transcript is the one the keys come from; and the
  host's policy admitted it;
* over any number of connections, no key is added to the known clients that has not signed a HELLO
  to this host, and under `RequireKnownPeer` no handshake completes but with a key of the
  allow-list. -/
theorem trust_policies_sound (S : Sodium) (Signed : PublicKey → Bytes → Prop) :
    (∀ policy run view stream hs pin,
      getOrConnect S policy run view stream = .ok (.opened hs pin) →
      (∀ ack, DeliversAck stream ack →
        S.Unforged Set.univ Signed (ack.checks run.self.publicKey hs.version)) →
      view.entry = some hs.peerIdentity ∧ PolicyHolds policy view hs.peerIdentity ∧
      ∃ eph serverNonce,
        Signed hs.peerIdentity (helloAckSignedBytes eph serverNonce run.clientNonce) ∧
        S.kxClientSessionKeys run.ephemeral eph = some hs.keys ∧
        (hs.version ≥ 2 → ∃ serverMax, Signed hs.peerIdentity
          (helloAckSignedBytesV2 serverMax hs.version 0 hs.peerIdentity run.self.publicKey eph
            serverNonce run.clientNonce))) ∧
    (∀ policy view run stream ackWritten r,
      serverHandshake S run (hostTrustFn policy view) stream ackWritten = .ok (some r) →
      (∀ hello, DeliversHello stream hello → S.Unforged Set.univ Signed hello.checks) →
      HostPolicyHolds S policy view run stream r.peerIdentity ∧
      ∃ eph clientNonce,
        Signed r.peerIdentity (helloSignedBytes eph clientNonce run.serviceName) ∧
        S.kxServerSessionKeys run.ephemeral eph = some r.keys) ∧
    (∀ policy service start attempts s,
      Run (Guarded (KnownClients.Step S policy service) fun _ a => a.Unforged S Signed)
        { known := start } attempts s →
      s.Sound Signed policy service start) := by
  refine ⟨?_, ?_, ?_⟩
  · intro policy run view stream hs pin h hunf
    obtain ⟨hentry, hpolicy, ack, hdelivers, hid, hstatus, hnonce, hsig, hv2, hkeys⟩ :=
      getOrConnect_eq_opened h
    have hunf := hunf ack hdelivers
    refine ⟨hentry, hpolicy, ack.ephemeralPubkey, ack.serverNonce, ?_, hkeys, fun hge => ?_⟩
    · have hsigned := signed_of_ackSigOk hunf (Set.mem_univ _) hsig
      rwa [hid, hnonce] at hsigned
    · have hsigned := signed_of_ackSigOkV2 hunf (Set.mem_univ _) (hv2 hge)
      rw [hid, hnonce, hstatus] at hsigned
      exact ⟨_, hsigned⟩
  · intro policy view run stream ackWritten r h hunf
    obtain ⟨hello, hpresents, hid, htrust, hkeys⟩ := serverHandshake_eq_some h
    have hasked : trustAsked S run stream = some r.peerIdentity :=
      trustAsked_eq_some.mpr ⟨hello, hpresents, hid⟩
    refine ⟨hostPolicyHolds hasked htrust, hello.ephemeralPubkey, hello.clientNonce, ?_, hkeys⟩
    have hsigned := signed_of_presents hpresents hunf
    rwa [hid] at hsigned
  · intro policy service start attempts s hrun
    refine hrun.preserves (I := KnownClients.Sound Signed policy service start) ?_
      fun _ _ _ h hstep => h.step hstep.2 hstep.1
    exact ⟨fun key hkey => Or.inl hkey, fun _ p hp => by cases hp⟩

/-! ### A first meeting -/

namespace FirstMeeting

def clientRun : ClientRun :=
  { self := ⟨Block.fill 32 1, Block.fill 64 1⟩, target := [115], myMax := 1
    ephemeral := ⟨Block.fill 32 2, Block.fill 32 2⟩, clientNonce := Block.fill 16 3 }

def serverRun : ServerRun :=
  { self := ⟨Block.fill 32 4, Block.fill 64 4⟩, serviceName := [115], myMax := 1
    ephemeral := ⟨Block.fill 32 5, Block.fill 32 5⟩, serverNonce := Block.fill 16 6 }

/-- What the two ends sign in this meeting. -/
def signed : List (PublicKey × Bytes) :=
  [(Block.fill 32 1, helloSignedBytes (Block.fill 32 2) (Block.fill 16 3) [115]),
    (Block.fill 32 4, helloAckSignedBytes (Block.fill 32 5) (Block.fill 16 6) (Block.fill 16 3))]

def sodium : Sodium := .symbolic signed

def toHost : Bytes := writeFrame false (clientRun.helloFrame sodium)

def hostFrame : RawFrame :=
  { type := .helloAck
    body := encodeHelloAck (serverRun.ack sodium (clientRun.hello sodium) 1 true) }

def toClient : Bytes := writeFrame false hostFrame

/-- The client finds the host's entry and has no pin. -/
def connectView : ConnectView :=
  { live := false, entry := some (Block.fill 32 4), allowedBefore := [], pinnedBefore := none
    connected := true, pinnedConnected := none, helloWritten := true, allowed := []
    pinned := none }

/-- The host knows nobody. -/
def hostView : HostView :=
  { allowedPeers := [], issuers := [], creds := [], now := 0, prompt := none
    isKnownClient := fun _ => false, loadAuthzDecision := fun _ _ => none
    knownClientsDir := .ok (), authzDir := .ok () }

def attempt : TrustAttempt :=
  { run := serverRun, view := hostView, stream := toHost, ackWritten := true, appended := true }

/-- What the client shows has been signed by it. -/
theorem unforged_hello : attempt.Unforged sodium fun pk m => (pk, m) ∈ signed := by
  have hread : readFrame false toHost = some (clientRun.helloFrame sodium, []) := by decide +kernel
  have hdec : decodeHello (clientRun.helloFrame sodium).body
      = .accept { clientRun.hello sodium with hasV2Extension := false } := by decide +kernel
  have hmem : ∀ x ∈ HelloPayload.checks { clientRun.hello sodium with hasV2Extension := false },
      (x.key, x.message) ∈ signed := by decide +kernel
  rintro hello ⟨f, rest, hread', hdec'⟩ x hx _ _
  cases hread.symm.trans hread'
  cases hdec.symm.trans hdec'
  exact hmem x hx

/-- What the host shows has been signed by it. -/
theorem unforged_ack {ack : HelloAckPayload} (hdelivers : DeliversAck toClient ack) :
    sodium.Unforged Set.univ (fun pk m => (pk, m) ∈ signed)
      (ack.checks clientRun.self.publicKey 1) := by
  have hread : readFrame false toClient = some (hostFrame, []) := by decide +kernel
  have hdec : decodeHelloAck hostFrame.body
      = .accept (serverRun.ack sodium (clientRun.hello sodium) 1 true) := by decide +kernel
  have hmem : ∀ x ∈ (serverRun.ack sodium (clientRun.hello sodium) 1 true).checks
      clientRun.self.publicKey 1, (x.key, x.message) ∈ signed := by decide +kernel
  obtain ⟨f, rest, hread', hdec'⟩ := hdelivers
  cases hread.symm.trans hread'
  cases hdec.symm.trans hdec'
  exact fun x hx _ _ => hmem x hx

end FirstMeeting

open FirstMeeting

/-- Client and host meet for the first time: each pins or records the identity that signed. -/
theorem trust_policies_sound_first_meeting :
    sodium.SignCorrect ∧
    (∃ hs, getOrConnect sodium .trustOnFirstUse clientRun connectView toClient
        = .ok (.opened hs (some (Block.fill 32 4))) ∧
      connectView.entry = some hs.peerIdentity) ∧
    (KnownClients.serve sodium .trustOnFirstUse { known := [] } attempt).known = [Block.fill 32 1] ∧
    (KnownClients.serve sodium .trustOnFirstUse { known := [] } attempt).Sound
      (fun pk m => (pk, m) ∈ signed) .trustOnFirstUse [115] [] := by
  have hsound := trust_policies_sound sodium fun pk m => (pk, m) ∈ signed
  have hopened : getOrConnect sodium .trustOnFirstUse clientRun connectView toClient
      = .ok (.opened ⟨⟨Block.fill 32 5, Block.fill 32 2⟩, Block.fill 32 4, 1⟩
        (some (Block.fill 32 4))) := by
    decide +kernel
  refine ⟨Sodium.symbolic_signCorrect signed, ⟨_, hopened, ?_⟩, by decide +kernel, ?_⟩
  · exact (hsound.1 _ _ _ _ _ _ hopened fun _ h => unforged_ack h).1
  · exact hsound.2.2 _ _ _ [attempt] _ (Run.nil.snoc ⟨⟨rfl, rfl⟩, unforged_hello⟩)

end Epx
