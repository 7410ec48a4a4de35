import Epx.Framing

/-!
# The handshake

`src/handshake.hpp` and `src/handshake.cpp`: one HELLO, one HELLO_ACK, and the checks each side
makes. The two functions of the source each exchange one frame in the middle, so each is split
there: what a run has chosen or been given before any frame arrives is a record, and processing
the frame that arrives is a function of it. A frame that could not be read is `none`.

The `is_trusted` callback is a `std::function` and may throw; key derivation throws on a public
key libsodium will not accept. Both show in the result type.

## Main definitions

* `ClientRun`, `clientFinish`, `clientHandshake` — the client side
* `ServerRun`, `serverAnswer`, `serverFinish`, `serverHandshake` — the server side

## Main results

* `clientFinish_eq_some` — everything a client has checked when it returns a `Result`
* `serverAnswer_eq_some`, `serverFinish_eq_some` — the same for a server
-/

namespace Epx

open Codec

/-- `handshake::Result`. -/
structure HandshakeResult where
  keys : SessionKeys
  peerIdentity : PublicKey
  version : UInt8
  deriving DecidableEq

/-- A trust callback: `std::function<bool(const PublicKey&)>`. -/
abbrev TrustFn := PublicKey → Except Exn Bool

/-! ### The client -/

/-- What one `client_handshake` call is given and draws: `self`, `target_service_name`,
`max_negotiable_version()`, the ephemeral key pair and the client nonce. -/
structure ClientRun where
  self : Identity
  target : Bytes
  myMax : UInt8
  ephemeral : EphemeralKeyPair
  clientNonce : Block 16
  deriving DecidableEq

section

variable (S : Sodium)

/-- The HELLO payload of a client run. -/
def ClientRun.hello (c : ClientRun) : HelloPayload :=
  { identityPubkey := c.self.publicKey
    ephemeralPubkey := c.ephemeral.publicKey
    clientNonce := c.clientNonce
    serviceName := c.target
    signature := sign S c.self.secretKey
      (helloSignedBytes c.ephemeral.publicKey c.clientNonce c.target)
    maxVersion := c.myMax
    signatureV2 :=
      if c.myMax ≥ 2 then
        sign S c.self.secretKey (helloSignedBytesV2 c.myMax c.self.publicKey
          c.ephemeral.publicKey c.clientNonce c.target)
      else Block.zero 64 }

/-- The HELLO frame of a client run. -/
def ClientRun.helloFrame (c : ClientRun) : RawFrame :=
  { type := .hello, body := encodeHello (c.hello S) }

/-- The v1 signature of an ack verifies. -/
def ackSigOk (ack : HelloAckPayload) : Bool :=
  verify S ack.identityPubkey
    (helloAckSignedBytes ack.ephemeralPubkey ack.serverNonce ack.clientNonce) ack.signature

/-- The extension of an ack is present and its v2 signature verifies for the version the client
negotiated. -/
def ackSigOkV2 (self : PublicKey) (negotiated : UInt8) (ack : HelloAckPayload) : Bool :=
  ack.hasV2Extension &&
    verify S ack.identityPubkey
      (helloAckSignedBytesV2 ack.maxVersion negotiated ack.status ack.identityPubkey self
        ack.ephemeralPubkey ack.serverNonce ack.clientNonce) ack.signatureV2

/-- The signatures of an ack that the client checks if it comes to it. -/
def HelloAckPayload.checks (ack : HelloAckPayload) (self : PublicKey) (negotiated : UInt8) :
    List SignatureCheck :=
  ⟨ack.identityPubkey,
      helloAckSignedBytes ack.ephemeralPubkey ack.serverNonce ack.clientNonce, ack.signature⟩ ::
    if ack.hasV2Extension then
      [⟨ack.identityPubkey,
        helloAckSignedBytesV2 ack.maxVersion negotiated ack.status ack.identityPubkey self
          ack.ephemeralPubkey ack.serverNonce ack.clientNonce, ack.signatureV2⟩]
    else []

/-- `client_handshake` from the decoded ack on. -/
def clientAccept (c : ClientRun) (isTrusted : TrustFn) (ack : HelloAckPayload) :
    Except Exn (Option HandshakeResult) :=
  if ack.status ≠ 0 then pure none -- server rejected us
  else if ack.clientNonce ≠ c.clientNonce then pure none -- anti-replay binding
  else do
    let trusted ← isTrusted ack.identityPubkey
    if trusted = false then pure none
    else if ackSigOk S ack = false then pure none
    else
      let negotiated := negotiateVersion c.myMax ack.maxVersion
      if negotiated = 0 then pure none
      else if negotiated ≥ 2 ∧ ackSigOkV2 S c.self.publicKey negotiated ack = false then pure none
      else do
        let keys ← clientSessionKeys S c.ephemeral ack.ephemeralPubkey
        pure (some ⟨keys, ack.identityPubkey, negotiated⟩)

/-- `client_handshake` from the frame it reads on. -/
def clientFinish (c : ClientRun) (isTrusted : TrustFn) (ackFrame : Option RawFrame) :
    Except Exn (Option HandshakeResult) :=
  match ackFrame with
  | none => pure none
  | some frame =>
    if frame.type ≠ .helloAck then pure none
    else
      match decodeHelloAck frame.body with
      | .accept ack => clientAccept S c isTrusted ack
      | _ => pure none

/-- `client_handshake` on a transport whose HELLO write succeeds or not and whose incoming
stream is `s`. -/
def clientHandshake (c : ClientRun) (isTrusted : TrustFn) (helloWritten : Bool) (s : Bytes) :
    Except Exn (Option HandshakeResult) :=
  if helloWritten = false then pure none
  else clientFinish S c isTrusted ((readFrame false s).map Prod.fst)

end

/-! ### The server -/

/-- What one `server_handshake` call is given and draws: `self`, `own_service_name`,
`max_negotiable_version()`, the ephemeral key pair and the server nonce. -/
structure ServerRun where
  self : Identity
  serviceName : Bytes
  myMax : UInt8
  ephemeral : EphemeralKeyPair
  serverNonce : Block 16
  deriving DecidableEq

/-- What a `server_handshake` call has computed when it writes the ack. -/
structure ServerAnswer where
  hello : HelloPayload
  negotiated : UInt8
  trusted : Bool
  ack : HelloAckPayload
  deriving DecidableEq

section

variable (S : Sodium)

/-- `sig_ok`: the v1 signature of a HELLO verifies and, for a session that will run at v2, the
extension is present and the v2 signature verifies as well. -/
def helloSigOk (negotiated : UInt8) (hello : HelloPayload) : Bool :=
  verify S hello.identityPubkey
      (helloSignedBytes hello.ephemeralPubkey hello.clientNonce hello.serviceName)
      hello.signature &&
    (decide (negotiated < 2) ||
      (hello.hasV2Extension &&
        verify S hello.identityPubkey
          (helloSignedBytesV2 hello.maxVersion hello.identityPubkey hello.ephemeralPubkey
            hello.clientNonce hello.serviceName) hello.signatureV2))

/-- The signatures of a HELLO that the server checks if it comes to it. -/
def HelloPayload.checks (hello : HelloPayload) : List SignatureCheck :=
  ⟨hello.identityPubkey,
      helloSignedBytes hello.ephemeralPubkey hello.clientNonce hello.serviceName,
      hello.signature⟩ ::
    if hello.hasV2Extension then
      [⟨hello.identityPubkey,
        helloSignedBytesV2 hello.maxVersion hello.identityPubkey hello.ephemeralPubkey
          hello.clientNonce hello.serviceName, hello.signatureV2⟩]
    else []

/-- The HELLO_ACK payload of a server run. -/
def ServerRun.ack (s : ServerRun) (hello : HelloPayload) (negotiated : UInt8) (trusted : Bool) :
    HelloAckPayload :=
  let status : UInt8 := if trusted then 0 else 1
  { identityPubkey := s.self.publicKey
    ephemeralPubkey := s.ephemeral.publicKey
    serverNonce := s.serverNonce
    clientNonce := hello.clientNonce
    status := status
    signature := sign S s.self.secretKey
      (helloAckSignedBytes s.ephemeral.publicKey s.serverNonce hello.clientNonce)
    maxVersion := s.myMax
    signatureV2 :=
      if s.myMax ≥ 2 then
        sign S s.self.secretKey (helloAckSignedBytesV2 s.myMax negotiated status
          s.self.publicKey hello.identityPubkey s.ephemeral.publicKey s.serverNonce
          hello.clientNonce)
      else Block.zero 64 }

/-- `server_handshake` from the decoded hello up to the ack it writes. -/
def serverDecide (s : ServerRun) (isTrusted : TrustFn) (hello : HelloPayload) :
    Except Exn (Option ServerAnswer) :=
  if hello.version ≠ kProtocolVersion then pure none
  else if hello.serviceName ≠ s.serviceName then pure none
  else
    let negotiated := negotiateVersion s.myMax hello.maxVersion
    if negotiated = 0 then pure none
    else do
      let trusted ← if helloSigOk S negotiated hello then isTrusted hello.identityPubkey
        else pure false
      pure (some ⟨hello, negotiated, trusted, s.ack S hello negotiated trusted⟩)

/-- `server_handshake` from the frame it reads up to the ack it writes. -/
def serverAnswer (s : ServerRun) (isTrusted : TrustFn) (helloFrame : Option RawFrame) :
    Except Exn (Option ServerAnswer) :=
  match helloFrame with
  | none => pure none
  | some frame =>
    if frame.type ≠ .hello then pure none
    else
      match decodeHello frame.body with
      | .accept hello => serverDecide S s isTrusted hello
      | _ => pure none

/-- The HELLO_ACK frame of an answer. -/
def ServerAnswer.ackFrame (a : ServerAnswer) : RawFrame :=
  { type := .helloAck, body := encodeHelloAck a.ack }

/-- `server_handshake` from the write of the ack on. -/
def serverFinish (s : ServerRun) (a : ServerAnswer) (ackWritten : Bool) :
    Except Exn (Option HandshakeResult) :=
  if ackWritten = false then pure none
  else if a.trusted = false then pure none
  else do
    let keys ← serverSessionKeys S s.ephemeral a.hello.ephemeralPubkey
    pure (some ⟨keys, a.hello.identityPubkey, a.negotiated⟩)

/-- `server_handshake` on a transport whose incoming stream is `str` and whose ack write succeeds
or not. -/
def serverHandshake (s : ServerRun) (isTrusted : TrustFn) (str : Bytes) (ackWritten : Bool) :
    Except Exn (Option HandshakeResult) := do
  let answer ← serverAnswer S s isTrusted ((readFrame false str).map Prod.fst)
  match answer with
  | none => pure none
  | some a => serverFinish S s a ackWritten

end

/-! ### What a completed run has checked -/

section

variable {S : Sodium}

/-- What verifies of a HELLO has been signed. -/
theorem signed_of_helloSigOk {keys : Set PublicKey} {Signed : PublicKey → Bytes → Prop}
    {hello : HelloPayload} (hunf : S.Unforged keys Signed hello.checks)
    (hkey : hello.identityPubkey ∈ keys) {negotiated : UInt8}
    (hok : helloSigOk S negotiated hello = true) :
    Signed hello.identityPubkey
        (helloSignedBytes hello.ephemeralPubkey hello.clientNonce hello.serviceName) ∧
      (negotiated ≥ 2 → Signed hello.identityPubkey
        (helloSignedBytesV2 hello.maxVersion hello.identityPubkey hello.ephemeralPubkey
          hello.clientNonce hello.serviceName)) := by
  rw [helloSigOk, Bool.and_eq_true] at hok
  refine ⟨hunf _ List.mem_cons_self hkey hok.1, fun hge => ?_⟩
  have hlt : ¬ negotiated < 2 := UInt8.not_lt.mpr hge
  simp only [hlt, decide_false, Bool.false_or, Bool.and_eq_true] at hok
  have hmem : SignatureCheck.mk hello.identityPubkey
      (helloSignedBytesV2 hello.maxVersion hello.identityPubkey hello.ephemeralPubkey
        hello.clientNonce hello.serviceName) hello.signatureV2 ∈ hello.checks := by
    rw [HelloPayload.checks, if_pos hok.2.1]
    exact List.mem_cons_of_mem _ (List.mem_singleton_self _)
  exact hunf _ hmem hkey hok.2.2

/-- What verifies of an ack at v1 has been signed. -/
theorem signed_of_ackSigOk {keys : Set PublicKey} {Signed : PublicKey → Bytes → Prop}
    {ack : HelloAckPayload} {self : PublicKey} {negotiated : UInt8}
    (hunf : S.Unforged keys Signed (ack.checks self negotiated))
    (hkey : ack.identityPubkey ∈ keys) (hok : ackSigOk S ack = true) :
    Signed ack.identityPubkey
      (helloAckSignedBytes ack.ephemeralPubkey ack.serverNonce ack.clientNonce) :=
  hunf _ List.mem_cons_self hkey hok

/-- The same at v2. -/
theorem signed_of_ackSigOkV2 {keys : Set PublicKey} {Signed : PublicKey → Bytes → Prop}
    {ack : HelloAckPayload} {self : PublicKey} {negotiated : UInt8}
    (hunf : S.Unforged keys Signed (ack.checks self negotiated))
    (hkey : ack.identityPubkey ∈ keys) (hok : ackSigOkV2 S self negotiated ack = true) :
    Signed ack.identityPubkey
      (helloAckSignedBytesV2 ack.maxVersion negotiated ack.status ack.identityPubkey self
        ack.ephemeralPubkey ack.serverNonce ack.clientNonce) := by
  rw [ackSigOkV2, Bool.and_eq_true] at hok
  have hmem : SignatureCheck.mk ack.identityPubkey
      (helloAckSignedBytesV2 ack.maxVersion negotiated ack.status ack.identityPubkey self
        ack.ephemeralPubkey ack.serverNonce ack.clientNonce) ack.signatureV2
        ∈ ack.checks self negotiated := by
    rw [HelloAckPayload.checks, if_pos hok.1]
    exact List.mem_cons_of_mem _ (List.mem_singleton_self _)
  exact hunf _ hmem hkey hok.2

theorem clientSessionKeys_eq_ok {e : EphemeralKeyPair} {p : Block 32} {k : SessionKeys} :
    clientSessionKeys S e p = .ok k ↔ S.kxClientSessionKeys e p = some k := by
  rw [clientSessionKeys]
  cases S.kxClientSessionKeys e p <;> simp

theorem serverSessionKeys_eq_ok {e : EphemeralKeyPair} {p : Block 32} {k : SessionKeys} :
    serverSessionKeys S e p = .ok k ↔ S.kxServerSessionKeys e p = some k := by
  rw [serverSessionKeys]
  cases S.kxServerSessionKeys e p <;> simp

/-- The checks an ack passes before the version is negotiated; they are all a v1 session asks. -/
structure AckPasses (S : Sodium) (c : ClientRun) (isTrusted : TrustFn) (ack : HelloAckPayload) :
    Prop where
  status : ack.status = 0
  clientNonce : ack.clientNonce = c.clientNonce
  trusted : isTrusted ack.identityPubkey = .ok true
  signature : ackSigOk S ack = true
  negotiated : negotiateVersion c.myMax ack.maxVersion ≠ 0

/-- Once an ack passes, only the v2 signature and the key derivation are left. -/
theorem clientAccept_of_passes {c : ClientRun} {isTrusted : TrustFn} {ack : HelloAckPayload}
    (h : AckPasses S c isTrusted ack)
    (hv : negotiateVersion c.myMax ack.maxVersion ≥ 2 →
      ackSigOkV2 S c.self.publicKey (negotiateVersion c.myMax ack.maxVersion) ack = true) :
    clientAccept S c isTrusted ack =
      (clientSessionKeys S c.ephemeral ack.ephemeralPubkey).map fun keys =>
        some ⟨keys, ack.identityPubkey, negotiateVersion c.myMax ack.maxVersion⟩ := by
  have hneg : ¬ (negotiateVersion c.myMax ack.maxVersion ≥ 2 ∧
      ackSigOkV2 S c.self.publicKey (negotiateVersion c.myMax ack.maxVersion) ack = false) := by
    rintro ⟨hge, hno⟩
    rw [hv hge] at hno
    cases hno
  rw [clientAccept]
  rw [if_neg (not_not.mpr h.status), if_neg (not_not.mpr h.clientNonce), h.trusted]
  simp only [bind, Except.bind, h.signature, Bool.true_eq_false, if_false, if_neg h.negotiated,
    if_neg hneg]
  rfl

/-- `client_handshake` returns a `Result` exactly when the ack passes every check, and then the
result is made of the ack's identity, the negotiated version and the derived keys. -/
theorem clientAccept_eq_some {c : ClientRun} {isTrusted : TrustFn} {ack : HelloAckPayload}
    {r : HandshakeResult} :
    clientAccept S c isTrusted ack = .ok (some r) ↔
      AckPasses S c isTrusted ack ∧ r.peerIdentity = ack.identityPubkey ∧
      r.version = negotiateVersion c.myMax ack.maxVersion ∧
      (r.version ≥ 2 → ackSigOkV2 S c.self.publicKey r.version ack = true) ∧
      S.kxClientSessionKeys c.ephemeral ack.ephemeralPubkey = some r.keys := by
  constructor
  · intro h
    have hpass : AckPasses S c isTrusted ack ∧
        (negotiateVersion c.myMax ack.maxVersion ≥ 2 →
          ackSigOkV2 S c.self.publicKey (negotiateVersion c.myMax ack.maxVersion) ack = true) := by
      rw [clientAccept] at h
      by_cases hstatus : ack.status ≠ 0
      · simp [hstatus, pure, Except.pure] at h
      by_cases hnonce : ack.clientNonce ≠ c.clientNonce
      · simp [hstatus, hnonce, pure, Except.pure] at h
      rw [if_neg hstatus, if_neg hnonce] at h
      cases htrust : isTrusted ack.identityPubkey with
      | error e => simp [htrust, bind, Except.bind] at h
      | ok trusted =>
        simp only [htrust, bind, Except.bind] at h
        split at h
        · simp [pure, Except.pure] at h
        split at h
        · simp [pure, Except.pure] at h
        split at h
        · simp [pure, Except.pure] at h
        split at h
        · simp [pure, Except.pure] at h
        next ht hsig hzero hv2 =>
        rw [Bool.not_eq_false] at ht hsig
        refine ⟨⟨not_not.mp hstatus, not_not.mp hnonce, by rw [htrust, ht], hsig, hzero⟩, ?_⟩
        intro hge
        by_contra hno
        exact hv2 ⟨hge, by simpa using hno⟩
    rw [clientAccept_of_passes hpass.1 hpass.2] at h
    cases hkeys : clientSessionKeys S c.ephemeral ack.ephemeralPubkey with
    | error e => simp [hkeys, Except.map] at h
    | ok keys =>
      simp only [hkeys, Except.map, Except.ok.injEq, Option.some.injEq] at h
      subst h
      exact ⟨hpass.1, rfl, rfl, hpass.2, clientSessionKeys_eq_ok.mp hkeys⟩
  · rintro ⟨hpass, hid, hver, hv2, hkeys⟩
    rw [clientAccept_of_passes hpass (hver ▸ hv2), clientSessionKeys_eq_ok.mpr hkeys]
    cases r
    simp_all [Except.map]

/-- What a server has checked when it writes an ack. -/
structure AnswerChecks (S : Sodium) (s : ServerRun) (isTrusted : TrustFn) (a : ServerAnswer) :
    Prop where
  serviceName : a.hello.serviceName = s.serviceName
  negotiated : a.negotiated = negotiateVersion s.myMax a.hello.maxVersion
  negotiated_ne : a.negotiated ≠ 0
  ack : a.ack = s.ack S a.hello a.negotiated a.trusted
  trusted : a.trusted = true →
    helloSigOk S a.negotiated a.hello = true ∧ isTrusted a.hello.identityPubkey = .ok true

theorem serverDecide_eq_some {s : ServerRun} {isTrusted : TrustFn} {hello : HelloPayload}
    {a : ServerAnswer} (h : serverDecide S s isTrusted hello = .ok (some a)) :
    a.hello = hello ∧ hello.version = kProtocolVersion ∧ AnswerChecks S s isTrusted a := by
  rw [serverDecide] at h
  by_cases hver : hello.version ≠ kProtocolVersion
  · simp [hver, pure, Except.pure] at h
  by_cases hname : hello.serviceName ≠ s.serviceName
  · simp [hver, hname, pure, Except.pure] at h
  rw [if_neg hver, if_neg hname] at h
  dsimp only at h
  split at h
  · simp [pure, Except.pure] at h
  next hzero =>
  -- The trust callback runs only after the signatures verified.
  by_cases hsig : helloSigOk S (negotiateVersion s.myMax hello.maxVersion) hello = true
  · cases htrust : isTrusted hello.identityPubkey with
    | error e => simp [hsig, htrust, bind, Except.bind] at h
    | ok trusted =>
      simp only [hsig, htrust, bind, Except.bind, if_true, pure, Except.pure, Except.ok.injEq,
        Option.some.injEq] at h
      subst h
      exact ⟨rfl, not_not.mp hver, not_not.mp hname, rfl, hzero, rfl,
        fun ht => ⟨hsig, by rw [htrust]; exact congrArg _ ht⟩⟩
  · rw [Bool.not_eq_true] at hsig
    simp only [hsig, bind, Except.bind, Bool.false_eq_true, if_false, pure, Except.pure,
      Except.ok.injEq, Option.some.injEq] at h
    subst h
    exact ⟨rfl, not_not.mp hver, not_not.mp hname, rfl, hzero, rfl, fun ht => by cases ht⟩

theorem serverAnswer_eq_some {s : ServerRun} {isTrusted : TrustFn} {helloFrame : Option RawFrame}
    {a : ServerAnswer} (h : serverAnswer S s isTrusted helloFrame = .ok (some a)) :
    (∃ frame, helloFrame = some frame ∧ frame.type = .hello ∧
      decodeHello frame.body = .accept a.hello) ∧ AnswerChecks S s isTrusted a := by
  unfold serverAnswer at h
  cases helloFrame with
  | none => simp [pure, Except.pure] at h
  | some frame =>
    by_cases htype : frame.type ≠ .hello
    · simp [htype, pure, Except.pure] at h
    dsimp only at h
    rw [if_neg htype] at h
    cases hdec : decodeHello frame.body with
    | oob => simp [hdec, pure, Except.pure] at h
    | reject => simp [hdec, pure, Except.pure] at h
    | accept hello =>
      simp only [hdec] at h
      obtain ⟨hh, -, hchecks⟩ := serverDecide_eq_some h
      exact ⟨⟨frame, rfl, not_not.mp htype, by rw [hdec, hh]⟩, hchecks⟩

theorem clientFinish_eq_some {c : ClientRun} {isTrusted : TrustFn} {ackFrame : Option RawFrame}
    {r : HandshakeResult} (h : clientFinish S c isTrusted ackFrame = .ok (some r)) :
    ∃ frame ack, ackFrame = some frame ∧ frame.type = .helloAck ∧
      decodeHelloAck frame.body = .accept ack ∧ clientAccept S c isTrusted ack = .ok (some r) := by
  unfold clientFinish at h
  cases ackFrame with
  | none => simp [pure, Except.pure] at h
  | some frame =>
    by_cases htype : frame.type ≠ .helloAck
    · simp [htype, pure, Except.pure] at h
    dsimp only at h
    rw [if_neg htype] at h
    cases hdec : decodeHelloAck frame.body with
    | oob => simp [hdec, pure, Except.pure] at h
    | reject => simp [hdec, pure, Except.pure] at h
    | accept ack =>
      simp only [hdec] at h
      exact ⟨frame, ack, rfl, not_not.mp htype, hdec, h⟩

/-- Without an exception from the trust callback, a client either gives up or has an ack that
passes every check but the key derivation. -/
theorem clientFinish_cases {c : ClientRun} {isTrusted : TrustFn}
    (htotal : ∀ pk, ∃ b, isTrusted pk = .ok b) (frame : RawFrame) :
    clientFinish S c isTrusted (some frame) = .ok none ∨
    (frame.type = .helloAck ∧ ∃ ack, decodeHelloAck frame.body = .accept ack ∧
      AckPasses S c isTrusted ack ∧
      (negotiateVersion c.myMax ack.maxVersion ≥ 2 →
        ackSigOkV2 S c.self.publicKey (negotiateVersion c.myMax ack.maxVersion) ack = true)) := by
  by_cases htype : frame.type = .helloAck
  swap
  · left
    simp [clientFinish, htype, pure, Except.pure]
  cases hdec : decodeHelloAck frame.body with
  | oob =>
    left
    simp [clientFinish, htype, hdec, pure, Except.pure]
  | reject =>
    left
    simp [clientFinish, htype, hdec, pure, Except.pure]
  | accept ack =>
    have hfin : clientFinish S c isTrusted (some frame) = clientAccept S c isTrusted ack := by
      simp [clientFinish, htype, hdec]
    rw [hfin]
    obtain ⟨b, hb⟩ := htotal ack.identityPubkey
    by_cases hall : ack.status = 0 ∧ ack.clientNonce = c.clientNonce ∧ b = true ∧
        ackSigOk S ack = true ∧ negotiateVersion c.myMax ack.maxVersion ≠ 0 ∧
        (negotiateVersion c.myMax ack.maxVersion ≥ 2 →
          ackSigOkV2 S c.self.publicKey (negotiateVersion c.myMax ack.maxVersion) ack = true)
    · obtain ⟨hstatus, hnonce, rfl, hsig, hneg, hv2⟩ := hall
      exact Or.inr ⟨htype, ack, rfl, ⟨hstatus, hnonce, hb, hsig, hneg⟩, hv2⟩
    · left
      simp only [clientAccept, hb, bind, Except.bind, pure, Except.pure]
      split_ifs <;> first | rfl | (exfalso; apply hall; simp_all)

theorem serverFinish_eq_some {s : ServerRun} {a : ServerAnswer} {ackWritten : Bool}
    {r : HandshakeResult} :
    serverFinish S s a ackWritten = .ok (some r) ↔
      ackWritten = true ∧ a.trusted = true ∧ r.peerIdentity = a.hello.identityPubkey ∧
      r.version = a.negotiated ∧
      S.kxServerSessionKeys s.ephemeral a.hello.ephemeralPubkey = some r.keys := by
  rw [serverFinish]
  cases ackWritten with
  | false => simp [pure, Except.pure]
  | true =>
    cases ht : a.trusted with
    | false => simp [pure, Except.pure]
    | true =>
      simp only [Bool.true_eq_false, if_false, true_and]
      cases hk : serverSessionKeys S s.ephemeral a.hello.ephemeralPubkey with
      | error e =>
        constructor
        · intro h
          cases h
        · rintro ⟨-, -, hkeys⟩
          rw [serverSessionKeys_eq_ok.mpr hkeys] at hk
          cases hk
      | ok keys =>
        rw [serverSessionKeys_eq_ok] at hk
        simp only [bind, Except.bind, pure, Except.pure, Except.ok.injEq, Option.some.injEq, hk]
        cases r
        simp only [HandshakeResult.mk.injEq]
        constructor
        · rintro ⟨rfl, rfl, rfl⟩
          exact ⟨rfl, rfl, rfl⟩
        · rintro ⟨rfl, rfl, rfl⟩
          exact ⟨rfl, rfl, rfl⟩

end

end Epx
