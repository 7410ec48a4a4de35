import Epx.HandshakeAgreement
import Epx.Access

/-!
# Tampering with one handshake frame

The network rewrites the HELLO or the HELLO_ACK of a handshake between two parties that both speak
v2, and delivers the other frame as it was sent. SPEC 6.2 says that this fails closed.

It does when the HELLO is rewritten: the server signs what it negotiated, and a client that sees
the server's real maximum asks for a signature over version 2. It does not when the HELLO_ACK is
rewritten so that the client never asks: the version the client settles on is read from the
presence and the first byte of the unsigned extension, the v1 signature covers neither, and at v1
no other signature is checked. The other way to break it is to show the HELLO to a second run of the
server, and to deliver its ack where the first run has refused the client. `tamper_fails_closed_iff`
says that there is no third.

## Main definitions

* `Tamper` — which frame is rewritten, and into what
* `PassesAtV1` — a HELLO_ACK that a v2 client takes as one of a v1 server
* `PassesAtV2` — a HELLO_ACK that passes all its checks at version 2

## Main results

* `tamper_fails_closed_iff`
-/

namespace Epx

open Codec Transition

/-! ### Rewriting one frame -/

/-- One of the two handshake frames is replaced. -/
inductive Tamper where
  | hello (frame : RawFrame)
  | helloAck (frame : RawFrame)

/-- The HELLO the server reads. -/
def Tamper.deliveredHello (S : Sodium) (c : ClientRun) : Tamper → RawFrame
  | .hello frame => frame
  | .helloAck _ => c.helloFrame S

/-- The HELLO_ACK the client reads. -/
def Tamper.deliveredAck (a : ServerAnswer) : Tamper → RawFrame
  | .hello _ => a.ackFrame
  | .helloAck frame => frame

/-- The client gives up, or both sides complete at version 2. -/
def FailsClosed (client host : Except Exn (Option HandshakeResult)) : Prop :=
  client = .ok none ∨
    ∃ r r', client = .ok (some r) ∧ host = .ok (some r') ∧ r.version = 2 ∧ r'.version = r.version

/-- A HELLO_ACK that announces version 1, by its byte or by having no extension, and passes the
checks a client makes of a v1 server's ack. -/
def PassesAtV1 (S : Sodium) (c : ClientRun) (isTrusted : TrustFn) (frame : RawFrame) : Prop :=
  frame.type = .helloAck ∧ ∃ ack, decodeHelloAck frame.body = .accept ack ∧
    ack.maxVersion = 1 ∧ ack.status = 0 ∧ ack.clientNonce = c.clientNonce ∧
    isTrusted ack.identityPubkey = .ok true ∧ ackSigOk S ack = true

/-- A HELLO_ACK that passes the checks a client makes of a v2 server's ack. -/
def PassesAtV2 (S : Sodium) (c : ClientRun) (isTrusted : TrustFn) (frame : RawFrame) : Prop :=
  frame.type = .helloAck ∧ ∃ ack, decodeHelloAck frame.body = .accept ack ∧
    AckPasses S c isTrusted ack ∧ negotiateVersion c.myMax ack.maxVersion = 2 ∧
    ackSigOkV2 S c.self.publicKey 2 ack = true

/-- The server has accepted the client, at version 2. -/
def ServerAnswer.Accepts (a : ServerAnswer) : Prop := a.trusted = true ∧ a.negotiated = 2

theorem negotiateVersion_two_one : negotiateVersion 2 1 = 1 := by decide

/-- A v2 party negotiates version 1 with a v1 peer only, and version 2 with any later one. -/
theorem negotiateVersion_two_cases (theirs : UInt8) (h : negotiateVersion 2 theirs ≠ 0) :
    (theirs = 1 ∧ negotiateVersion 2 theirs = 1) ∨ negotiateVersion 2 theirs = 2 := by
  by_cases hlt : 2 < theirs
  · right
    simp [negotiateVersion, hlt, kProtocolVersionMin]
  · have hle : theirs.toNat ≤ 2 := by
      have : ¬ (2 : UInt8).toNat < theirs.toNat := hlt
      simpa using this
    have hcases : theirs = 0 ∨ theirs = 1 ∨ theirs = 2 := by
      rcases Nat.lt_or_ge theirs.toNat 2 with h2 | h2
      · rcases Nat.lt_or_ge theirs.toNat 1 with h1 | h1
        · exact Or.inl (UInt8.toNat_inj.mp (by simpa using Nat.lt_one_iff.mp h1))
        · exact Or.inr (Or.inl (UInt8.toNat_inj.mp (by simp; omega)))
      · exact Or.inr (Or.inr (UInt8.toNat_inj.mp (by simp; omega)))
    rcases hcases with rfl | rfl | rfl
    · exact absurd rfl h
    · exact Or.inl ⟨rfl, rfl⟩
    · exact Or.inr rfl

section

variable {S : Sodium} {c : ClientRun} {isTrusted : TrustFn}

/-- An ack that passes at v1 keeps a v2 client from failing closed. -/
theorem not_failsClosed_of_passesAtV1 (hmax : c.myMax = 2) {frame : RawFrame}
    (h : PassesAtV1 S c isTrusted frame) (host : Except Exn (Option HandshakeResult)) :
    ¬ FailsClosed (clientFinish S c isTrusted (some frame)) host := by
  obtain ⟨htype, ack, hdec, hone, hstatus, hnonce, htrust, hsig⟩ := h
  have hneg : negotiateVersion c.myMax ack.maxVersion = 1 := by
    rw [hmax, hone, negotiateVersion_two_one]
  have hfin : clientFinish S c isTrusted (some frame)
      = (clientSessionKeys S c.ephemeral ack.ephemeralPubkey).map fun keys =>
          some ⟨keys, ack.identityPubkey, 1⟩ := by
    have hpass : AckPasses S c isTrusted ack :=
      ⟨hstatus, hnonce, htrust, hsig, by rw [hneg]; decide⟩
    have hacc := clientAccept_of_passes hpass (by rw [hneg]; exact fun h => absurd h (by decide))
    rw [hneg] at hacc
    simp [clientFinish, htype, hdec, hacc]
  rw [hfin]
  cases hkeys : clientSessionKeys S c.ephemeral ack.ephemeralPubkey with
  | error e =>
    rintro (h | ⟨r, r', h, -⟩) <;> cases h
  | ok keys =>
    rintro (h | ⟨r, r', h, -, hversion, -⟩)
    · cases h
    · cases h
      exact absurd hversion (show (1 : UInt8) ≠ 2 by decide)

/-- A v2 server's own ack announces version 2. -/
theorem decodeHelloAck_ackFrame {s : ServerRun} {a : ServerAnswer} (hmax : s.myMax = 2)
    (hack : a.ack = s.ack S a.hello a.negotiated a.trusted) :
    decodeHelloAck a.ackFrame.body = .accept { a.ack with hasV2Extension := true } := by
  have henc : a.ackFrame.body = encodeHelloAck { a.ack with hasV2Extension := true } := rfl
  have hmax' : a.ack.maxVersion = 2 := by rw [hack, ← hmax]; rfl
  rw [henc]
  refine decodeHelloAck_eq_accept.mpr (helloAckLayout_encodeHelloAck _ ?_)
  refine ⟨?_, ?_, ?_⟩ <;> simp [hmax']

end

section

variable {S : Sodium} {honest : Set Identity} {net : Net} {c : ClientRun} {isTrusted : TrustFn}

/-- An ack that passes at version 2 is the answer of a server run that has accepted this client's
hello, and the client completes with it. -/
theorem Net.Inv.completes_of_passesAtV2 (hkx : S.KxAgree) (hinv : net.Inv S honest)
    (hc : c ∈ net.clients) {pk : PublicKey} (hhon : HonestKey honest pk)
    (hpeer : ∀ key, isTrusted key = .ok true → key = pk) {frame : RawFrame}
    (hunf : ∀ ack, decodeHelloAck frame.body = .accept ack →
      net.Unforged S honest (ack.checks c.self.publicKey 2))
    (hpass : PassesAtV2 S c isTrusted frame) :
    ∃ s a ack r, (s, a) ∈ net.servers ∧ s.self.publicKey = pk ∧ SentBy c s a ∧ a.Accepts ∧
      decodeHelloAck frame.body = .accept ack ∧
      s.ephemeral.publicKey = ack.ephemeralPubkey ∧
      clientFinish S c isTrusted (some frame) = .ok (some r) ∧ r.version = 2 := by
  obtain ⟨htype, ack, hdec, hpass, hneg, hsig⟩ := hpass
  have hident := hpeer _ hpass.trusted
  obtain ⟨s, a, hs, hself, heph, hneg', ht, hsent⟩ := hinv.server_of_ack hc hpass hsig
    (UInt8.le_refl 2) (hunf ack hdec) (hident ▸ hhon)
  obtain ⟨k₁, k₂, hk₁, -⟩ := hinv.keys_agree hkx hc hs hsent
  rw [heph] at hk₁
  have hfin : clientFinish S c isTrusted (some frame) = clientAccept S c isTrusted ack := by
    simp [clientFinish, htype, hdec]
  refine ⟨s, a, ack, ⟨⟨k₁, k₂⟩, ack.identityPubkey, 2⟩, hs, hself.trans hident, hsent, ⟨ht, hneg'⟩,
    hdec, heph, ?_, rfl⟩
  rw [hfin]
  exact clientAccept_eq_some.mpr ⟨hpass, rfl, hneg.symm, fun _ => hsig, hk₁⟩

/-- A server run that has accepted a client that is honest completes at version 2. -/
theorem Net.Inv.completes_of_accepts (hkx : S.KxAgree) (hinv : net.Inv S honest) {s : ServerRun}
    {a : ServerAnswer} (hs : (s, a) ∈ net.servers) (haccepts : a.Accepts)
    (hhon : HonestKey honest a.hello.identityPubkey) :
    ∃ r, serverFinish S s a true = .ok (some r) ∧ r.version = 2 := by
  obtain ⟨c, hc, hsent⟩ := hinv.sent s a hs haccepts.1 (haccepts.2 ▸ UInt8.le_refl 2) hhon
  obtain ⟨k₁, k₂, -, hk₂⟩ := hinv.keys_agree hkx hc hs hsent
  exact ⟨⟨⟨k₂, k₁⟩, a.hello.identityPubkey, a.negotiated⟩,
    serverFinish_eq_some.mpr ⟨rfl, haccepts.1, rfl, rfl, hk₂⟩, haccepts.2⟩

/-- The identity in a hello is read back as it was written, whatever the length of the name. -/
theorem identity_of_decode_helloFrame {hello : HelloPayload}
    (hdec : decodeHello (c.helloFrame S).body = .accept hello) :
    hello.identityPubkey = c.self.publicKey := by
  obtain ⟨-, rest, -, hbytes⟩ := decodeHello_eq_accept.mp hdec
  have hbody : (c.helloFrame S).body = (c.hello S).version ::
      (c.self.publicKey.val ++ ((c.hello S).ephemeralPubkey.val ++ ((c.hello S).clientNonce.val ++
        (putStr8 (c.hello S).serviceName ++ ((c.hello S).signature.val ++
          putExtension (c.hello S).maxVersion (c.hello S).signatureV2))))) := by
    simp [ClientRun.helloFrame, ClientRun.hello, encodeHello]
  rw [hbody] at hbytes
  exact (block_append_inj (List.cons.inj hbytes).2).1.symm

end

/-- **Tampering with one frame.** A v2 client and a v2 server run a handshake of which the network
rewrites one frame; the client's registry entry names the server. The client gives up or both
complete at version 2 exactly when the frame rewritten is the HELLO, or it is the HELLO_ACK, does
not pass for one of a v1 server, and passes at version 2 only if this run of the server has accepted
the client. An ack that passes at version 2 is of a run of the server that has: of this one, or of
another to which the HELLO was sent as well. -/
theorem tamper_fails_closed_iff (S : Sodium) (hkx : S.KxAgree) (honest : Set Identity)
    (evs : List Net.Event) (net : Net) (hrun : Run (Net.Step S honest) {} evs net)
    (c : ClientRun) (hc : c ∈ net.clients) (hcmax : c.myMax = 2)
    (s : ServerRun) (a : ServerAnswer) (hs : (s, a) ∈ net.servers) (hsmax : s.myMax = 2)
    (hself : s.self ∈ honest) (t : Tamper) (hostTrust : TrustFn)
    (hanswer : serverAnswer S s hostTrust (some (t.deliveredHello S c)) = .ok (some a))
    (policy : TrustPolicy) (allowedPeers : List PublicKey) (pinned : Option PublicKey)
    (hunf : ∀ ack, decodeHelloAck (t.deliveredAck a).body = .accept ack →
      net.Unforged S honest (ack.checks c.self.publicKey 2)) :
    (FailsClosed
        (clientFinish S c (clientTrustFn policy allowedPeers pinned s.self.publicKey)
          (some (t.deliveredAck a)))
        (serverFinish S s a true) ↔
      ∀ frame, t = .helloAck frame →
        ¬ PassesAtV1 S c (clientTrustFn policy allowedPeers pinned s.self.publicKey) frame ∧
        (PassesAtV2 S c (clientTrustFn policy allowedPeers pinned s.self.publicKey) frame →
          a.Accepts)) ∧
    (PassesAtV2 S c (clientTrustFn policy allowedPeers pinned s.self.publicKey)
        (t.deliveredAck a) →
      ∃ s' a', (s', a') ∈ net.servers ∧ s'.self.publicKey = s.self.publicKey ∧ SentBy c s' a' ∧
        a'.Accepts) := by
  have hinv := inv_of_run hkx hrun
  generalize htrust : clientTrustFn policy allowedPeers pinned s.self.publicKey = isTrusted
  have htotal : ∀ pk, ∃ b, isTrusted pk = .ok b := fun pk => ⟨_, by rw [← htrust]; rfl⟩
  have hpeer : ∀ pk, isTrusted pk = .ok true → pk = s.self.publicKey := fun pk hpk => by
    rw [← htrust, clientTrustFn, Except.ok.injEq] at hpk
    exact (isClientSideTrusted_iff.mp hpk).1
  have hcompletes := hinv.completes_of_passesAtV2 hkx hc ⟨s.self, hself, rfl⟩ hpeer hunf
  refine ⟨⟨?_, ?_⟩, fun hpass => ?_⟩
  · rintro hclosed frame rfl
    refine ⟨fun hpass => not_failsClosed_of_passesAtV1 hcmax hpass _ hclosed, fun hpass => ?_⟩
    obtain ⟨-, -, -, r, -, -, -, -, -, -, hclient, -⟩ := hcompletes hpass
    rcases hclosed with hnone | ⟨r, r', -, hhost, hversion, hversion'⟩
    · rw [show (Tamper.helloAck frame).deliveredAck a = frame from rfl] at hnone hclient
      rw [hclient] at hnone
      cases hnone
    · obtain ⟨-, ht, -, hneg, -⟩ := serverFinish_eq_some.mp hhost
      exact ⟨ht, by rw [← hneg, hversion', hversion]⟩
  · intro hno
    rcases clientFinish_cases (S := S) (c := c) htotal (t.deliveredAck a) with
      hnone | ⟨htype, ack, hdec, hpass, hsig⟩
    · exact Or.inl hnone
    right
    -- The version is 2: an ack that announces 1 is a rewritten one, and does not pass.
    have hneg : negotiateVersion c.myMax ack.maxVersion = 2 := by
      have hne := hpass.negotiated
      rw [hcmax] at hne ⊢
      rcases negotiateVersion_two_cases ack.maxVersion hne with ⟨hone, -⟩ | htwo
      swap
      · exact htwo
      cases t with
      | hello frame =>
        obtain ⟨-, hchecks⟩ := serverAnswer_eq_some hanswer
        have hown := decodeHelloAck_ackFrame hsmax hchecks.ack
        rw [show (Tamper.hello frame).deliveredAck a = a.ackFrame from rfl, hown] at hdec
        cases hdec
        rw [show ({ a.ack with hasV2Extension := true } : HelloAckPayload).maxVersion
          = s.myMax by rw [hchecks.ack]; rfl, hsmax] at hone
        exact absurd hone (by decide)
      | helloAck frame =>
        exact absurd ⟨htype, ack, hdec, hone, hpass.status, hpass.clientNonce, hpass.trusted,
          hpass.signature⟩ (hno frame rfl).1
    have hsig2 := hsig (hneg ▸ UInt8.le_refl 2)
    rw [hneg] at hsig2
    have hpass2 : PassesAtV2 S c isTrusted (t.deliveredAck a) :=
      ⟨htype, ack, hdec, hpass, hneg, hsig2⟩
    obtain ⟨s', a', ack', r, hs', -, hsent, haccepts, hdec', heph, hclient, hversion⟩ :=
      hcompletes hpass2
    -- This run of the server has accepted the client as well.
    obtain ⟨r', hhost, hversion'⟩ : ∃ r', serverFinish S s a true = .ok (some r') ∧
        r'.version = 2 := by
      cases t with
      | hello frame =>
        -- Its own ack names its ephemeral, and no other run has that.
        obtain ⟨-, hchecks⟩ := serverAnswer_eq_some hanswer
        have hown := decodeHelloAck_ackFrame hsmax hchecks.ack
        rw [show (Tamper.hello frame).deliveredAck a = a.ackFrame from rfl, hown] at hdec'
        cases hdec'
        have heq : (s', a') = (s, a) := hinv.server_ephemeral s' a' s a hs' hs
          (heph.trans (by rw [hchecks.ack]; rfl))
        cases heq
        exact hinv.completes_of_accepts hkx hs haccepts
          (hsent.identity ▸ ⟨c.self, hinv.client_honest c hc, rfl⟩)
      | helloAck frame =>
        obtain ⟨⟨f, hf, -, hhello⟩, -⟩ := serverAnswer_eq_some hanswer
        cases hf
        exact hinv.completes_of_accepts hkx hs ((hno frame rfl).2 hpass2)
          ⟨c.self, hinv.client_honest c hc, (identity_of_decode_helloFrame hhello).symm⟩
    exact ⟨r, r', hclient, hhost, hversion, hversion'.trans hversion.symm⟩
  · obtain ⟨s', a', -, -, hs', hself', hsent, haccepts, -⟩ := hcompletes hpass
    exact ⟨s', a', hs', hself', hsent, haccepts⟩

/-! ### The extension stripped from an ack -/

open HonestHandshake

/-- The honest server's ack without its last 65 bytes. -/
def strippedAck : RawFrame :=
  { type := .helloAck, body := answer.ackFrame.body.take (answer.ackFrame.body.length - 65) }

/-- The client completes at version 1 and the host at version 2. -/
theorem strippedAck_downgrades :
    Run (Net.Step sodium honest) {}
      [.hello clientRun, .answer serverRun trustAll (clientRun.helloFrame sodium) answer,
        .serverReturns serverRun answer serverResult,
        .clientReturns clientRun trustAll answer.ackFrame clientResult] net ∧
    clientFinish sodium clientRun (clientTrustFn .allowAll [] none serverRun.self.publicKey)
        (some ((Tamper.helloAck strippedAck).deliveredAck answer))
      = .ok (some { clientResult with version := 1 }) ∧
    serverFinish sodium serverRun answer true = .ok (some serverResult) ∧
    ¬ FailsClosed
      (clientFinish sodium clientRun (clientTrustFn .allowAll [] none serverRun.self.publicKey)
        (some ((Tamper.helloAck strippedAck).deliveredAck answer)))
      (serverFinish sodium serverRun answer true) := by
  refine ⟨run, by decide +kernel, by decide +kernel, ?_⟩
  refine not_failsClosed_of_passesAtV1 rfl ⟨rfl, ?_⟩ _
  exact ⟨{ answer.ack with maxVersion := 1, signatureV2 := Block.zero 64 }, by decide +kernel⟩

/-- A HELLO delivered as it was sent is one of the rewritings. -/
theorem tamper_fails_closed_iff_played :
    FailsClosed
      (clientFinish sodium clientRun (clientTrustFn .allowAll [] none serverRun.self.publicKey)
        (some answer.ackFrame))
      (serverFinish sodium serverRun answer true) :=
  (tamper_fails_closed_iff sodium (Sodium.symbolic_kxAgree _) honest _ net run clientRun
    List.mem_cons_self rfl serverRun answer List.mem_cons_self rfl (Or.inr rfl)
    (.hello (clientRun.helloFrame sodium)) trustAll (by decide +kernel) .allowAll [] none
    (unforged_ack List.mem_cons_self)).1.mpr fun _ h => by cases h

end Epx
