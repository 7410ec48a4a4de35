import Epx.Transcript
import Epx.Lib.Transition

/-!
# Handshake agreement

Any number of `client_handshake` and `server_handshake` calls of honest identities, run against a
network that hands each of them whatever frame it likes. The state `Net` records the runs and what
they returned; a signature the network hands over, which is checked and verifies under an honest
key, is one that key's owner has made (`Net.Unforged`).

At v2 the two sides agree. The ack transcript names neither the service nor the client's ephemeral
key, so the argument goes through the server: its signature says that it decided `status = 0` for a
hello with the client's identity and nonce; it could only decide so after the v2 signature of that
hello had verified; and the client signed one v2 hello with that nonce.

## Main definitions

* `Net`, `Net.Step` — the runs of honest parties, and what can happen next
* `Net.Says` — what the owner of a key has stated in them
* `Matches` — a server run is the counterpart of a client's result

## Main results

* `Net.signed_iff` — a message under a tag is signed if what it says has been stated
* `signed_messages_unambiguous` — and it says one thing
* `Net.Inv.step`, `inv_of_run` — the invariant
* `handshake_agreement` — agreement in every reachable state
-/

namespace Epx

open Codec Transition

/-- The byte strings a `client_handshake` run signs. -/
def ClientRun.signedMessages (c : ClientRun) : List Bytes :=
  helloSignedBytes c.ephemeral.publicKey c.clientNonce c.target ::
    if c.myMax ≥ 2 then
      [helloSignedBytesV2 c.myMax c.self.publicKey c.ephemeral.publicKey c.clientNonce c.target]
    else []

/-- A credential an identity has issued: whose it is, what it covers and until when. -/
structure IssuedCredential where
  issuer : Identity
  peer : PublicKey
  scope : Bytes
  expires : UInt64

/-- What the issuer states in the signature of a credential. -/
def IssuedCredential.statement (c : IssuedCredential) : Statement :=
  .credential c.peer c.issuer.publicKey c.scope c.expires

/-! ### The network of honest runs -/

/-- The runs of honest parties so far. -/
structure Net where
  /-- Clients that have written their HELLO. -/
  clients : List ClientRun := []
  /-- Servers that have answered a HELLO. -/
  servers : List (ServerRun × ServerAnswer) := []
  /-- Credentials signed with an identity key. -/
  credentials : List IssuedCredential := []
  /-- What `client_handshake` returned. -/
  clientResults : List (ClientRun × HandshakeResult) := []
  /-- What `server_handshake` returned. -/
  serverResults : List (ServerRun × ServerAnswer × HandshakeResult) := []

/-- What the owner of a key has signed. -/
inductive Net.Signed (net : Net) : PublicKey → Bytes → Prop
  | client {c : ClientRun} {m : Bytes} :
      c ∈ net.clients → m ∈ c.signedMessages → Signed net c.self.publicKey m
  | server {s : ServerRun} {a : ServerAnswer} {m : Bytes} :
      (s, a) ∈ net.servers → m ∈ s.signedMessages a → Signed net s.self.publicKey m
  | credential {c : IssuedCredential} :
      c ∈ net.credentials →
        Signed net c.issuer.publicKey
          (credentialSignedBytes c.peer c.issuer.publicKey c.scope c.expires)

/-- What the owner of a key has stated under a tag. -/
inductive Net.Says (net : Net) : PublicKey → Statement → Prop
  | client {c : ClientRun} :
      c ∈ net.clients → c.myMax ≥ 2 → Says net c.self.publicKey c.statement
  | server {s : ServerRun} {a : ServerAnswer} :
      (s, a) ∈ net.servers → s.myMax ≥ 2 → Says net s.self.publicKey (s.statement a)
  | credential {c : IssuedCredential} :
      c ∈ net.credentials → Says net c.issuer.publicKey c.statement

/-- The owner of a public key is honest. -/
def HonestKey (honest : Set Identity) (pk : PublicKey) : Prop := ∃ id ∈ honest, id.publicKey = pk

/-- What verifies under an honest key has been signed by its owner. -/
def Net.Unforged (S : Sodium) (honest : Set Identity) (net : Net) (checks : List SignatureCheck) :
    Prop :=
  S.Unforged {pk | HonestKey honest pk} net.Signed checks

/-- The nonces honest runs have drawn. -/
def Net.nonces (net : Net) : List (Block 16) :=
  net.clients.map ClientRun.clientNonce ++ net.servers.map fun p => p.1.serverNonce

/-- The ephemeral public keys honest runs have drawn. -/
def Net.ephemerals (net : Net) : List (Block 32) :=
  net.clients.map (fun c => c.ephemeral.publicKey) ++
    net.servers.map fun p => p.1.ephemeral.publicKey

/-- An honest run draws a nonce and an ephemeral pair that no honest run has drawn before, and the
public key does not start with a tag. -/
structure Net.Draws (S : Sodium) (net : Net) (e : EphemeralKeyPair) (n : Block 16) : Prop where
  pair : S.IsKxPair e
  untagged : Untagged e.publicKey
  ephemeral : e.publicKey ∉ net.ephemerals
  nonce : n ∉ net.nonces

/-- What can happen in the network. -/
inductive Net.Event where
  | hello (c : ClientRun)
  | answer (s : ServerRun) (isTrusted : TrustFn) (frame : RawFrame) (a : ServerAnswer)
  | serverReturns (s : ServerRun) (a : ServerAnswer) (r : HandshakeResult)
  | clientReturns (c : ClientRun) (isTrusted : TrustFn) (frame : RawFrame) (r : HandshakeResult)
  | issue (c : IssuedCredential)

/-- One event. Frames come from the network, trust decisions from the application. -/
inductive Net.Step (S : Sodium) (honest : Set Identity) : Net → Net.Event → Net → Prop
  | hello {net : Net} {c : ClientRun} :
      c.self ∈ honest → net.Draws S c.ephemeral c.clientNonce →
      Step S honest net (.hello c) { net with clients := c :: net.clients }
  | answer {net : Net} {s : ServerRun} {isTrusted : TrustFn} {frame : RawFrame}
      {a : ServerAnswer} :
      s.self ∈ honest → net.Draws S s.ephemeral s.serverNonce →
      serverAnswer S s isTrusted (some frame) = .ok (some a) →
      net.Unforged S honest a.hello.checks →
      Step S honest net (.answer s isTrusted frame a)
        { net with servers := (s, a) :: net.servers }
  | serverReturns {net : Net} {s : ServerRun} {a : ServerAnswer} {r : HandshakeResult} :
      (s, a) ∈ net.servers → serverFinish S s a true = .ok (some r) →
      Step S honest net (.serverReturns s a r)
        { net with serverResults := (s, a, r) :: net.serverResults }
  | clientReturns {net : Net} {c : ClientRun} {isTrusted : TrustFn} {frame : RawFrame}
      {r : HandshakeResult} :
      c ∈ net.clients → clientFinish S c isTrusted (some frame) = .ok (some r) →
      (∀ ack, decodeHelloAck frame.body = .accept ack →
        net.Unforged S honest (ack.checks c.self.publicKey r.version)) →
      Step S honest net (.clientReturns c isTrusted frame r)
        { net with clientResults := (c, r) :: net.clientResults }
  | issue {net : Net} {c : IssuedCredential} :
      c.issuer ∈ honest →
      Step S honest net (.issue c) { net with credentials := c :: net.credentials }

/-! ### What a signature in the network says -/

/-- A server has answered a hello that a client run did send. -/
structure SentBy (c : ClientRun) (s : ServerRun) (a : ServerAnswer) : Prop where
  identity : c.self.publicKey = a.hello.identityPubkey
  maxVersion : c.myMax = a.hello.maxVersion
  target : c.target = s.serviceName
  ephemeral : c.ephemeral.publicKey = a.hello.ephemeralPubkey
  clientNonce : c.clientNonce = a.hello.clientNonce

/-- The server run `s`, which answered with `a`, is the counterpart of the client run `c`, which
returned `r`. -/
structure Matches (S : Sodium) (c : ClientRun) (r : HandshakeResult) (s : ServerRun)
    (a : ServerAnswer) : Prop where
  identity : s.self.publicKey = r.peerIdentity
  serviceName : s.serviceName = c.target
  client : a.hello.identityPubkey = c.self.publicKey
  clientNonce : a.hello.clientNonce = c.clientNonce
  ephemeral : a.hello.ephemeralPubkey = c.ephemeral.publicKey
  status : a.ack.status = 0
  version : a.negotiated = r.version
  keys : ∃ r', serverFinish S s a true = .ok (some r') ∧
    r'.keys.rx = r.keys.tx ∧ r'.keys.tx = r.keys.rx

/-- The invariant of the network. -/
structure Net.Inv (S : Sodium) (honest : Set Identity) (net : Net) : Prop where
  client_honest : ∀ c ∈ net.clients, c.self ∈ honest
  client_pair : ∀ c ∈ net.clients, S.IsKxPair c.ephemeral ∧ Untagged c.ephemeral.publicKey
  server_pair : ∀ s a, (s, a) ∈ net.servers →
    S.IsKxPair s.ephemeral ∧ Untagged s.ephemeral.publicKey
  client_nonce : ∀ c ∈ net.clients, ∀ c' ∈ net.clients, c.clientNonce = c'.clientNonce → c = c'
  server_ephemeral : ∀ s a s' a', (s, a) ∈ net.servers → (s', a') ∈ net.servers →
    s.ephemeral.publicKey = s'.ephemeral.publicKey → (s, a) = (s', a')
  answered : ∀ s a, (s, a) ∈ net.servers → a.ack = s.ack S a.hello a.negotiated a.trusted
  sent : ∀ s a, (s, a) ∈ net.servers → a.trusted = true → a.negotiated ≥ 2 →
    HonestKey honest a.hello.identityPubkey → ∃ c ∈ net.clients, SentBy c s a
  serverResult : ∀ s a r, (s, a, r) ∈ net.serverResults →
    (s, a) ∈ net.servers ∧ serverFinish S s a true = .ok (some r)
  clientResult : ∀ c r, (c, r) ∈ net.clientResults → r.version ≥ 2 →
    HonestKey honest r.peerIdentity → ∃ s a, (s, a) ∈ net.servers ∧ Matches S c r s a

/-- No ephemeral key of the network starts with a tag. -/
def Net.Untagged (net : Net) : Prop :=
  (∀ c ∈ net.clients, Epx.Untagged c.ephemeral.publicKey) ∧
    ∀ s a, (s, a) ∈ net.servers → Epx.Untagged s.ephemeral.publicKey

section

variable {S : Sodium} {honest : Set Identity} {net : Net}

theorem mem_ite_singleton {p : Prop} [Decidable p] {m x : Bytes}
    (h : m ∈ if p then [x] else []) : p ∧ m = x := by
  by_cases hp : p
  · rw [if_pos hp] at h
    exact ⟨hp, List.mem_singleton.mp h⟩
  · rw [if_neg hp] at h
    cases h

/-- **A message under a tag is signed if what it says has been stated**, and not otherwise: no
other signature can be taken for it. -/
theorem Net.signed_iff (hnet : net.Untagged) {pk : PublicKey} {st : Statement} :
    net.Signed pk st.signedBytes ↔ net.Says pk st := by
  constructor
  · intro h
    generalize hm : st.signedBytes = m at h
    cases h with
    | @client c _ hc hmem =>
      rcases List.mem_cons.mp hmem with rfl | hmem
      · exact absurd hm.symm ((hnet.1 c hc).append_ne_signedBytes st)
      · obtain ⟨hmax, rfl⟩ := mem_ite_singleton hmem
        have hst : st = c.statement := Statement.signedBytes_injective hm
        rw [hst]
        exact .client hc hmax
    | @server s a _ hs hmem =>
      rcases List.mem_cons.mp hmem with rfl | hmem
      · exact absurd hm.symm ((hnet.2 s a hs).append_ne_signedBytes st)
      · obtain ⟨hmax, rfl⟩ := mem_ite_singleton hmem
        have hst : st = s.statement a := Statement.signedBytes_injective hm
        rw [hst]
        exact .server hs hmax
    | @credential c hc =>
      have hst : st = c.statement := Statement.signedBytes_injective hm
      rw [hst]
      exact .credential hc
  · intro h
    cases h with
    | @client c hc hmax =>
      refine .client hc (List.mem_cons_of_mem _ ?_)
      rw [if_pos hmax]
      exact List.mem_singleton_self _
    | @server s a hs hmax =>
      refine .server hs (List.mem_cons_of_mem _ ?_)
      rw [if_pos hmax]
      exact List.mem_singleton_self _
    | credential hc => exact .credential hc

theorem Net.Inv.untagged (hinv : net.Inv S honest) : net.Untagged :=
  ⟨fun c hc => (hinv.client_pair c hc).2, fun s a hs => (hinv.server_pair s a hs).2⟩

/-- A signed v2 HELLO transcript is one of a client run. -/
theorem Net.Inv.client_of_signed (hinv : net.Inv S honest) {pk : PublicKey} {v : UInt8}
    {i : PublicKey} {e : Block 32} {n : Block 16} {svc : Bytes}
    (h : net.Signed pk (helloSignedBytesV2 v i e n svc)) :
    ∃ c ∈ net.clients, c.self.publicKey = pk ∧ c.myMax = v ∧ c.ephemeral.publicKey = e ∧
      c.clientNonce = n ∧ c.target = svc := by
  have hsays : net.Says pk (.hello v i e n svc) := (signed_iff hinv.untagged).mp h
  generalize hst : Statement.hello v i e n svc = st at hsays
  cases hsays with
  | @client c hc _ =>
    obtain ⟨hv, -, he, hn, hs⟩ := Statement.hello.inj hst
    exact ⟨c, hc, rfl, hv.symm, he.symm, hn.symm, hs.symm⟩
  | server _ _ => cases hst
  | credential _ => cases hst

/-- A signed v2 HELLO_ACK transcript is one of a server run. -/
theorem Net.Inv.server_of_signed (hinv : net.Inv S honest) {pk : PublicKey} {m v t : UInt8}
    {i c : PublicKey} {e : Block 32} {sn cn : Block 16}
    (h : net.Signed pk (helloAckSignedBytesV2 m v t i c e sn cn)) :
    ∃ s a, (s, a) ∈ net.servers ∧ s.self.publicKey = pk ∧ a.negotiated = v ∧
      (if a.trusted then 0 else 1) = t ∧ a.hello.identityPubkey = c ∧
      s.ephemeral.publicKey = e ∧ a.hello.clientNonce = cn := by
  have hsays : net.Says pk (.helloAck m v t i c e sn cn) := (signed_iff hinv.untagged).mp h
  generalize hst : Statement.helloAck m v t i c e sn cn = st at hsays
  cases hsays with
  | client _ _ => cases hst
  | @server s a hs _ =>
    obtain ⟨-, hv, ht, -, hc, he, -, hcn⟩ := Statement.helloAck.inj hst
    exact ⟨s, a, hs, rfl, hv.symm, ht.symm, hc.symm, he.symm, hcn.symm⟩
  | credential _ => cases hst

/-- **Signed messages are unambiguous.** Each of the three kinds of message is injective in all its
arguments, none is ever a message of another kind, and whatever clients, servers and issuers use one
key for, no message of theirs says two things. -/
theorem signed_messages_unambiguous :
    (∀ (m m' : UInt8) (i i' : PublicKey) (e e' : Block 32) (n n' : Block 16) (svc svc' : Bytes),
      helloSignedBytesV2 m i e n svc = helloSignedBytesV2 m' i' e' n' svc' ↔
        m = m' ∧ i = i' ∧ e = e' ∧ n = n' ∧ svc = svc') ∧
    (∀ (m m' v v' t t' : UInt8) (i i' c c' : PublicKey) (e e' : Block 32)
      (sn sn' cn cn' : Block 16),
      helloAckSignedBytesV2 m v t i c e sn cn = helloAckSignedBytesV2 m' v' t' i' c' e' sn' cn' ↔
        m = m' ∧ v = v' ∧ t = t' ∧ i = i' ∧ c = c' ∧ e = e' ∧ sn = sn' ∧ cn = cn') ∧
    (∀ (p p' i i' : PublicKey) (scope scope' : Bytes) (x x' : UInt64),
      credentialSignedBytes p i scope x = credentialSignedBytes p' i' scope' x' ↔
        p = p' ∧ i = i' ∧ scope = scope' ∧ x = x') ∧
    (∀ (m : UInt8) (i : PublicKey) (e : Block 32) (n : Block 16) (svc : Bytes)
      (m' v' t' : UInt8) (i' c' : PublicKey) (e' : Block 32) (sn' cn' : Block 16)
      (p q : PublicKey) (scope : Bytes) (x : UInt64),
      helloSignedBytesV2 m i e n svc ≠ helloAckSignedBytesV2 m' v' t' i' c' e' sn' cn' ∧
      helloSignedBytesV2 m i e n svc ≠ credentialSignedBytes p q scope x ∧
      helloAckSignedBytesV2 m' v' t' i' c' e' sn' cn' ≠ credentialSignedBytes p q scope x) ∧
    ∀ (net : Net) (key : PublicKey) (message : Bytes),
      {st | net.Says key st ∧ st.signedBytes = message}.Subsingleton := by
  refine ⟨?_, ?_, ?_, ?_, ?_⟩
  · intro m m' i i' e e' n n' svc svc'
    exact ⟨helloSignedBytesV2_inj, by rintro ⟨rfl, rfl, rfl, rfl, rfl⟩; rfl⟩
  · intro m m' v v' t t' i i' c c' e e' sn sn' cn cn'
    exact ⟨helloAckSignedBytesV2_inj, by rintro ⟨rfl, rfl, rfl, rfl, rfl, rfl, rfl, rfl⟩; rfl⟩
  · intro p p' i i' scope scope' x x'
    exact ⟨credentialSignedBytes_inj, by rintro ⟨rfl, rfl, rfl, rfl⟩; rfl⟩
  · intro m i e n svc m' v' t' i' c' e' sn' cn' p q scope x
    exact ⟨helloSignedBytesV2_ne_helloAckSignedBytesV2,
      credentialSignedBytes_ne_helloSignedBytesV2.symm,
      credentialSignedBytes_ne_helloAckSignedBytesV2.symm⟩
  · rintro net key message st ⟨-, hst⟩ st' ⟨-, hst'⟩
    exact Statement.signedBytes_injective (hst.trans hst'.symm)

/-- Agreement of a server with the client whose hello it answers. -/
theorem Net.Inv.sent_of_answer (hinv : net.Inv S honest) {s : ServerRun} {isTrusted : TrustFn}
    {frame : Option RawFrame} {a : ServerAnswer}
    (ha : serverAnswer S s isTrusted frame = .ok (some a))
    (hunf : net.Unforged S honest a.hello.checks)
    (ht : a.trusted = true) (hv : a.negotiated ≥ 2)
    (hhon : HonestKey honest a.hello.identityPubkey) : ∃ c ∈ net.clients, SentBy c s a := by
  obtain ⟨-, hchecks⟩ := serverAnswer_eq_some ha
  have hsigned := (signed_of_helloSigOk hunf hhon (hchecks.trusted ht).1).2 hv
  rw [hchecks.serviceName] at hsigned
  obtain ⟨c, hc, hself, hmax, he, hn, htarget⟩ := hinv.client_of_signed hsigned
  exact ⟨c, hc, hself, hmax, htarget, he, hn⟩

/-- An ack of an honest server that passes a client's v2 checks is the answer of one of its runs to
that client's hello. -/
theorem Net.Inv.server_of_ack (hinv : net.Inv S honest) {c : ClientRun} (hc : c ∈ net.clients)
    {isTrusted : TrustFn} {ack : HelloAckPayload} {v : UInt8}
    (hpass : AckPasses S c isTrusted ack) (hsig : ackSigOkV2 S c.self.publicKey v ack = true)
    (hv : v ≥ 2) (hunf : net.Unforged S honest (ack.checks c.self.publicKey v))
    (hhon : HonestKey honest ack.identityPubkey) :
    ∃ s a, (s, a) ∈ net.servers ∧ s.self.publicKey = ack.identityPubkey ∧
      s.ephemeral.publicKey = ack.ephemeralPubkey ∧ a.negotiated = v ∧ a.trusted = true ∧
      SentBy c s a := by
  -- First the server: who signed the ack transcript, and for which hello.
  obtain ⟨s, a, hs, hsself, hneg, hstatus, hident, heph, hnonce⟩ :=
    hinv.server_of_signed (signed_of_ackSigOkV2 hunf hhon hsig)
  rw [hpass.status] at hstatus
  have ht : a.trusted = true := by
    by_contra hne
    rw [if_neg hne] at hstatus
    exact absurd hstatus (by decide)
  -- Then the client whose hello it was; the nonce says that it is `c`.
  obtain ⟨c', hc', hsent⟩ := hinv.sent s a hs ht (by rw [hneg]; exact hv)
    ⟨c.self, hinv.client_honest c hc, hident.symm⟩
  have hcc : c' = c := hinv.client_nonce c' hc' c hc
    (by rw [hsent.clientNonce, hnonce, hpass.clientNonce])
  subst hcc
  exact ⟨s, a, hs, hsself, heph, hneg, ht, hsent⟩

/-- Two runs that exchanged their ephemeral keys derive the same session keys. -/
theorem Net.Inv.keys_agree (hkx : S.KxAgree) (hinv : net.Inv S honest) {c : ClientRun}
    (hc : c ∈ net.clients) {s : ServerRun} {a : ServerAnswer} (hs : (s, a) ∈ net.servers)
    (hsent : SentBy c s a) :
    ∃ k₁ k₂, S.kxClientSessionKeys c.ephemeral s.ephemeral.publicKey = some ⟨k₁, k₂⟩ ∧
      S.kxServerSessionKeys s.ephemeral a.hello.ephemeralPubkey = some ⟨k₂, k₁⟩ := by
  rw [← hsent.ephemeral]
  exact hkx c.ephemeral s.ephemeral (hinv.client_pair c hc).1 (hinv.server_pair s a hs).1

/-- Agreement of a client with a server run. -/
theorem Net.Inv.matches_of_return (hkx : S.KxAgree) (hinv : net.Inv S honest) {c : ClientRun}
    {isTrusted : TrustFn} {frame : RawFrame} {r : HandshakeResult} (hc : c ∈ net.clients)
    (hfin : clientFinish S c isTrusted (some frame) = .ok (some r))
    (hunf : ∀ ack, decodeHelloAck frame.body = .accept ack →
      net.Unforged S honest (ack.checks c.self.publicKey r.version))
    (hv : r.version ≥ 2) (hhon : HonestKey honest r.peerIdentity) :
    ∃ s a, (s, a) ∈ net.servers ∧ Matches S c r s a := by
  obtain ⟨frame', ack, hframe, -, hdec, hacc⟩ := clientFinish_eq_some hfin
  cases hframe
  obtain ⟨hpass, hpeer, -, hsigv2, hkeys⟩ := clientAccept_eq_some.mp hacc
  obtain ⟨s, a, hs, hself, heph, hneg, ht, hsent⟩ :=
    hinv.server_of_ack hc hpass (hsigv2 hv) hv (hunf ack hdec) (hpeer ▸ hhon)
  obtain ⟨k₁, k₂, hk₁, hk₂⟩ := hinv.keys_agree hkx hc hs hsent
  rw [heph, hkeys, Option.some.injEq] at hk₁
  refine ⟨s, a, hs, ?_⟩
  exact
    { identity := hself.trans hpeer.symm
      serviceName := hsent.target.symm
      client := hsent.identity.symm
      clientNonce := hsent.clientNonce.symm
      ephemeral := hsent.ephemeral.symm
      status := by rw [hinv.answered s a hs, ServerRun.ack, if_pos ht]
      version := hneg
      keys := ⟨⟨⟨k₂, k₁⟩, a.hello.identityPubkey, a.negotiated⟩,
        serverFinish_eq_some.mpr ⟨rfl, ht, rfl, rfl, hk₂⟩, by rw [hk₁], by rw [hk₁]⟩ }

/-! ### The invariant over runs -/

theorem Net.inv_init : ({} : Net).Inv S honest where
  client_honest := by simp
  client_pair := by simp
  server_pair := by simp
  client_nonce := by simp
  server_ephemeral := by simp
  answered := by simp
  sent := by simp
  serverResult := by simp
  clientResult := by simp

theorem Net.Inv.hello (hinv : net.Inv S honest) {c : ClientRun} (hself : c.self ∈ honest)
    (hdraws : net.Draws S c.ephemeral c.clientNonce) :
    Net.Inv S honest { net with clients := c :: net.clients } := by
  -- A nonce drawn now is on no earlier client run.
  have hnew : ∀ c' ∈ net.clients, c'.clientNonce ≠ c.clientNonce := fun c' hc' heq =>
    hdraws.nonce (List.mem_append_left _ (heq ▸ List.mem_map_of_mem hc'))
  refine { hinv with client_honest := ?_, client_pair := ?_, client_nonce := ?_, sent := ?_ }
  · rintro c' hc'
    rcases List.mem_cons.mp hc' with rfl | hc'
    · exact hself
    · exact hinv.client_honest c' hc'
  · rintro c' hc'
    rcases List.mem_cons.mp hc' with rfl | hc'
    · exact ⟨hdraws.pair, hdraws.untagged⟩
    · exact hinv.client_pair c' hc'
  · rintro c₁ hc₁ c₂ hc₂ heq
    rcases List.mem_cons.mp hc₁ with rfl | h₁ <;> rcases List.mem_cons.mp hc₂ with rfl | h₂
    · rfl
    · exact absurd heq.symm (hnew c₂ h₂)
    · exact absurd heq (hnew c₁ h₁)
    · exact hinv.client_nonce c₁ h₁ c₂ h₂ heq
  · intro s a hs ht hv hhon
    obtain ⟨c', hc', hsent⟩ := hinv.sent s a hs ht hv hhon
    exact ⟨c', List.mem_cons_of_mem _ hc', hsent⟩

theorem Net.Inv.answer (hinv : net.Inv S honest) {s : ServerRun} {isTrusted : TrustFn}
    {frame : RawFrame} {a : ServerAnswer} (hdraws : net.Draws S s.ephemeral s.serverNonce)
    (ha : serverAnswer S s isTrusted (some frame) = .ok (some a))
    (hunf : net.Unforged S honest a.hello.checks) :
    Net.Inv S honest { net with servers := (s, a) :: net.servers } := by
  have hnew : ∀ s' a', (s', a') ∈ net.servers →
      s'.ephemeral.publicKey ≠ s.ephemeral.publicKey :=
    fun s' a' hs' heq => hdraws.ephemeral (List.mem_append_right _
      (heq ▸ List.mem_map_of_mem (f := fun p => p.1.ephemeral.publicKey) hs'))
  refine
    { hinv with
      server_pair := ?_
      server_ephemeral := ?_
      answered := ?_
      sent := ?_
      serverResult := ?_
      clientResult := ?_ }
  · rintro s' a' hs'
    rcases List.mem_cons.mp hs' with heq | hs'
    · cases heq
      exact ⟨hdraws.pair, hdraws.untagged⟩
    · exact hinv.server_pair s' a' hs'
  · rintro s₁ a₁ s₂ a₂ hs₁ hs₂ heq
    rcases List.mem_cons.mp hs₁ with h₁ | h₁ <;> rcases List.mem_cons.mp hs₂ with h₂ | h₂
    · rw [h₁, h₂]
    · cases h₁
      exact absurd heq.symm (hnew _ _ h₂)
    · cases h₂
      exact absurd heq (hnew _ _ h₁)
    · exact hinv.server_ephemeral s₁ a₁ s₂ a₂ h₁ h₂ heq
  · rintro s' a' hs'
    rcases List.mem_cons.mp hs' with heq | hs'
    · cases heq
      exact (serverAnswer_eq_some ha).2.ack
    · exact hinv.answered s' a' hs'
  · rintro s' a' hs' ht hv hhon
    rcases List.mem_cons.mp hs' with heq | hs'
    · cases heq
      exact hinv.sent_of_answer ha hunf ht hv hhon
    · exact hinv.sent s' a' hs' ht hv hhon
  · intro s' a' r hr
    exact ⟨List.mem_cons_of_mem _ (hinv.serverResult s' a' r hr).1,
      (hinv.serverResult s' a' r hr).2⟩
  · intro c r hr hv hhon
    obtain ⟨s', a', hs', hmatch⟩ := hinv.clientResult c r hr hv hhon
    exact ⟨s', a', List.mem_cons_of_mem _ hs', hmatch⟩

/-- Every event keeps the invariant. -/
theorem Net.Inv.step (hkx : S.KxAgree) {net' : Net} {ev : Net.Event} (hinv : net.Inv S honest)
    (hstep : Net.Step S honest net ev net') : net'.Inv S honest := by
  cases hstep with
  | hello hself hdraws => exact hinv.hello hself hdraws
  | answer _ hdraws ha hunf => exact hinv.answer hdraws ha hunf
  | serverReturns hs hfin =>
    refine { hinv with serverResult := ?_ }
    rintro s' a' r' hr'
    rcases List.mem_cons.mp hr' with heq | hr'
    · cases heq
      exact ⟨hs, hfin⟩
    · exact hinv.serverResult s' a' r' hr'
  | clientReturns hc hfin hunf =>
    refine { hinv with clientResult := ?_ }
    rintro c' r' hr' hv hhon
    rcases List.mem_cons.mp hr' with heq | hr'
    · cases heq
      exact hinv.matches_of_return hkx hc hfin hunf hv hhon
    · exact hinv.clientResult c' r' hr' hv hhon
  | issue _ => exact { hinv with }

theorem inv_of_run (hkx : S.KxAgree) {evs : List Net.Event}
    (hrun : Run (Net.Step S honest) {} evs net) : net.Inv S honest :=
  hrun.preserves Net.inv_init fun _ _ _ hinv hstep => hinv.step hkx hstep

/-- Two server runs do not derive the same transmit key. -/
theorem Net.Inv.matches_unique (hfresh : S.KxFresh) (hinv : net.Inv S honest) {c : ClientRun}
    {r : HandshakeResult} {s s' : ServerRun} {a a' : ServerAnswer} (hs : (s, a) ∈ net.servers)
    (hs' : (s', a') ∈ net.servers) (hm : Matches S c r s a) (hm' : Matches S c r s' a') :
    (s', a') = (s, a) := by
  obtain ⟨k, hk, -, htx⟩ := hm.keys
  obtain ⟨k', hk', -, htx'⟩ := hm'.keys
  obtain ⟨-, -, -, -, hkeys⟩ := serverFinish_eq_some.mp hk
  obtain ⟨-, -, -, -, hkeys'⟩ := serverFinish_eq_some.mp hk'
  refine hinv.server_ephemeral s' a' s a hs' hs ?_
  by_contra hne
  exact hfresh.server (hinv.server_pair s' a' hs').1 (hinv.server_pair s a hs).1 hne hkeys' hkeys
    (htx'.trans htx.symm)

end

/-- **Agreement at v2.** In every reachable state, a client that has returned a v2 `Result` for an
honest peer has exactly one counterpart among the server runs, and a server that has returned a v2
`Result` for an honest peer has answered a hello that peer did send, for this service. -/
theorem handshake_agreement (S : Sodium) (hkx : S.KxAgree) (hfresh : S.KxFresh)
    (honest : Set Identity) (evs : List Net.Event) (net : Net)
    (hrun : Run (Net.Step S honest) {} evs net) :
    (∀ c r, (c, r) ∈ net.clientResults → r.version ≥ 2 → HonestKey honest r.peerIdentity →
      ∃! p : ServerRun × ServerAnswer, p ∈ net.servers ∧ Matches S c r p.1 p.2) ∧
    (∀ s a r, (s, a, r) ∈ net.serverResults → r.version ≥ 2 →
      HonestKey honest r.peerIdentity →
      ∃ c ∈ net.clients, c.self.publicKey = r.peerIdentity ∧ SentBy c s a) := by
  have hinv := inv_of_run hkx hrun
  refine ⟨fun c r hr hv hhon => ?_, fun s a r hr hv hhon => ?_⟩
  · obtain ⟨s, a, hs, hmatch⟩ := hinv.clientResult c r hr hv hhon
    refine ⟨(s, a), ⟨hs, hmatch⟩, ?_⟩
    rintro ⟨s', a'⟩ ⟨hs', hmatch'⟩
    exact hinv.matches_unique hfresh hs hs' hmatch hmatch'
  · obtain ⟨hs, hfin⟩ := hinv.serverResult s a r hr
    obtain ⟨-, ht, hpeer, hver, -⟩ := serverFinish_eq_some.mp hfin
    rw [hpeer] at hhon ⊢
    obtain ⟨c, hc, hsent⟩ := hinv.sent s a hs ht (hver ▸ hv) hhon
    exact ⟨c, hc, hsent.identity, hsent⟩

/-! ### An honest handshake in the network -/

namespace HonestHandshake

def clientRun : ClientRun :=
  { self := ⟨Block.fill 32 1, Block.fill 64 1⟩, target := [115], myMax := 2
    ephemeral := ⟨Block.fill 32 2, Block.fill 32 2⟩, clientNonce := Block.fill 16 3 }

def serverRun : ServerRun :=
  { self := ⟨Block.fill 32 4, Block.fill 64 4⟩, serviceName := [115], myMax := 2
    ephemeral := ⟨Block.fill 32 5, Block.fill 32 5⟩, serverNonce := Block.fill 16 6 }

def honest : Set Identity := {clientRun.self, serverRun.self}

/-- The four transcripts that get signed, two by each side. -/
def signed : List (PublicKey × Bytes) :=
  [(Block.fill 32 1, helloSignedBytes (Block.fill 32 2) (Block.fill 16 3) [115]),
    (Block.fill 32 1, helloSignedBytesV2 2 (Block.fill 32 1) (Block.fill 32 2) (Block.fill 16 3)
      [115]),
    (Block.fill 32 4, helloAckSignedBytes (Block.fill 32 5) (Block.fill 16 6) (Block.fill 16 3)),
    (Block.fill 32 4, helloAckSignedBytesV2 2 2 0 (Block.fill 32 4) (Block.fill 32 1)
      (Block.fill 32 5) (Block.fill 16 6) (Block.fill 16 3))]

def sodium : Sodium := .symbolic signed

def hello : HelloPayload := { clientRun.hello sodium with hasV2Extension := true }

def answer : ServerAnswer := ⟨hello, 2, true, serverRun.ack sodium hello 2 true⟩

def clientResult : HandshakeResult :=
  ⟨⟨Block.fill 32 5, Block.fill 32 2⟩, serverRun.self.publicKey, 2⟩

def serverResult : HandshakeResult :=
  ⟨⟨Block.fill 32 2, Block.fill 32 5⟩, clientRun.self.publicKey, 2⟩

def trustAll : TrustFn := fun _ => .ok true

def net : Net :=
  { clients := [clientRun], servers := [(serverRun, answer)]
    serverResults := [(serverRun, answer, serverResult)]
    clientResults := [(clientRun, clientResult)] }

/-- What the server checks has been signed by the client. -/
theorem unforged_hello {n : Net} (hc : clientRun ∈ n.clients) :
    n.Unforged sodium honest answer.hello.checks := by
  have hmem : ∀ x ∈ answer.hello.checks,
      x.key = clientRun.self.publicKey ∧ x.message ∈ clientRun.signedMessages := by decide +kernel
  intro x hx _ _
  rw [(hmem x hx).1]
  exact .client hc (hmem x hx).2

/-- What the client checks has been signed by the server. -/
theorem unforged_ack {n : Net} (hs : (serverRun, answer) ∈ n.servers) :
    ∀ ack, decodeHelloAck answer.ackFrame.body = .accept ack →
      n.Unforged sodium honest (ack.checks clientRun.self.publicKey 2) := by
  have hdec : decodeHelloAck answer.ackFrame.body
      = .accept { answer.ack with hasV2Extension := true } := by decide +kernel
  have hmem : ∀ x ∈ HelloAckPayload.checks { answer.ack with hasV2Extension := true }
      clientRun.self.publicKey 2,
      x.key = serverRun.self.publicKey ∧ x.message ∈ serverRun.signedMessages answer := by
    decide +kernel
  intro ack hack x hx _ _
  rw [hdec] at hack
  cases hack
  rw [(hmem x hx).1]
  exact .server hs (hmem x hx).2

theorem untagged_of_head {e : Block 32} (h : e.val.head? ≠ some 69) : Untagged e := by
  constructor <;> rintro ⟨t, ht⟩ <;> rw [← ht] at h <;> exact h rfl

theorem run : Run (Net.Step sodium honest) {}
    [.hello clientRun, .answer serverRun trustAll (clientRun.helloFrame sodium) answer,
      .serverReturns serverRun answer serverResult,
      .clientReturns clientRun trustAll answer.ackFrame clientResult] net := by
  have h₁ : Net.Step sodium honest {} (.hello clientRun) { clients := [clientRun] } :=
    .hello (Or.inl rfl) ⟨⟨rfl, by decide⟩, untagged_of_head (by decide), by decide, by decide⟩
  have h₂ : Net.Step sodium honest { clients := [clientRun] }
      (.answer serverRun trustAll (clientRun.helloFrame sodium) answer)
      { clients := [clientRun], servers := [(serverRun, answer)] } := by
    refine .answer (Or.inr rfl)
      ⟨⟨rfl, by decide⟩, untagged_of_head (by decide), by decide, by decide⟩
      (by decide +kernel) (unforged_hello List.mem_cons_self)
  have h₃ : Net.Step sodium honest { clients := [clientRun], servers := [(serverRun, answer)] }
      (.serverReturns serverRun answer serverResult)
      { clients := [clientRun], servers := [(serverRun, answer)]
        serverResults := [(serverRun, answer, serverResult)] } :=
    .serverReturns List.mem_cons_self (by decide +kernel)
  have h₄ : Net.Step sodium honest
      { clients := [clientRun], servers := [(serverRun, answer)]
        serverResults := [(serverRun, answer, serverResult)] }
      (.clientReturns clientRun trustAll answer.ackFrame clientResult) net :=
    .clientReturns List.mem_cons_self (by decide +kernel) (unforged_ack List.mem_cons_self)
  exact (((Run.nil.snoc h₁).snoc h₂).snoc h₃).snoc h₄

end HonestHandshake

open HonestHandshake in
/-- The honest handshake is a run, and its two results agree. -/
theorem handshake_agreement_played :
    (∃! p : ServerRun × ServerAnswer, p ∈ net.servers ∧
      Matches sodium clientRun clientResult p.1 p.2) ∧
    ∃ c ∈ net.clients, c.self.publicKey = serverResult.peerIdentity ∧ SentBy c serverRun answer :=
  have h := handshake_agreement sodium (Sodium.symbolic_kxAgree _) (Sodium.symbolic_kxFresh _)
    honest _ net run
  ⟨h.1 clientRun clientResult List.mem_cons_self (by decide) ⟨_, Or.inr rfl, rfl⟩,
    h.2 serverRun answer serverResult List.mem_cons_self (by decide) ⟨_, Or.inl rfl, rfl⟩⟩

end Epx
