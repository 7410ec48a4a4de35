import Epx.PayloadRoundTrip
import Epx.Transcript

/-!
# Honest handshakes

`client_handshake` and `server_handshake` of `src/handshake.cpp` run against each other over a
transport that loses and changes nothing: each reads what the other has written.

A side that advertises version 1 sends no extension, and the decoder of the other side then presets
`max_version` to 1. What each side decodes is therefore what the other meant in each of the four
combinations, and both negotiate the smaller of the two versions.

## Main definitions

* `serverWrites`, `runHandshake` — the two calls joined by a transport

## Main results

* `serverAnswer_helloFrame` — what an honest server makes of an honest hello
* `clientFinish_ackFrame` — what an honest client makes of the ack to it
* `honest_handshake` — both return, and agree
-/

namespace Epx

open Codec

section

variable (S : Sodium)

/-- What a `server_handshake` call writes on a transport whose incoming stream is `str`. -/
def serverWrites (s : ServerRun) (isTrusted : TrustFn) (str : Bytes) : Bytes :=
  match serverAnswer S s isTrusted ((readFrame false str).map Prod.fst) with
  | .ok (some a) => writeFrame false a.ackFrame
  | _ => []

/-- What the two calls return when each reads what the other writes. -/
def runHandshake (c : ClientRun) (s : ServerRun) (clientTrust serverTrust : TrustFn) :
    Except Exn (Option HandshakeResult) × Except Exn (Option HandshakeResult) :=
  let toServer := writeFrame false (c.helloFrame S)
  (clientHandshake S c clientTrust true (serverWrites S s serverTrust toServer),
    serverHandshake S s serverTrust toServer true)

/-- The HELLO_ACK of a server run as its receiver is to see it. -/
def ServerRun.sentAck (s : ServerRun) (hello : HelloPayload) (negotiated : UInt8) (trusted : Bool) :
    HelloAckPayload :=
  { s.ack S hello negotiated trusted with hasV2Extension := decide (2 ≤ s.myMax) }

/-- What an honest server computes from the HELLO of a client, given what its callback says. -/
def ServerRun.answerTo (s : ServerRun) (c : ClientRun) (trusted : Bool) : ServerAnswer :=
  let negotiated := negotiateVersion s.myMax c.myMax
  ⟨c.sentHello S, negotiated, trusted, s.ack S (c.sentHello S) negotiated trusted⟩

end

/-! ### Versions -/

/-- A version a build can be set to offer. -/
def Offered (v : UInt8) : Prop := v = 1 ∨ v = 2

theorem Offered.one_le {v : UInt8} (h : Offered v) : 1 ≤ v := by
  rcases h with rfl | rfl <;> decide

theorem negotiateVersion_of_offered {v w : UInt8} (hv : Offered v) (hw : Offered w) :
    (negotiateVersion v w).toNat = min v.toNat w.toNat := by
  rcases hv with rfl | rfl
  · rcases hw with rfl | rfl <;> decide
  · rcases hw with rfl | rfl <;> decide

theorem negotiateVersion_comm_of_offered {v w : UInt8} (hv : Offered v) (hw : Offered w) :
    negotiateVersion v w = negotiateVersion w v := by
  rw [← UInt8.toNat_inj, negotiateVersion_of_offered hv hw, negotiateVersion_of_offered hw hv,
    Nat.min_comm]

theorem negotiateVersion_ne_zero {v w : UInt8} (hv : Offered v) (hw : Offered w) :
    negotiateVersion v w ≠ 0 := by
  rcases hv with rfl | rfl
  · rcases hw with rfl | rfl <;> decide
  · rcases hw with rfl | rfl <;> decide

/-- A session runs at v2 only between two sides that offer it. -/
theorem two_le_of_negotiateVersion {v w : UInt8} (hv : Offered v) (hw : Offered w)
    (h : 2 ≤ negotiateVersion v w) : 2 ≤ v ∧ 2 ≤ w := by
  have hmin : 2 ≤ min v.toNat w.toNat := by
    rw [← negotiateVersion_of_offered hv hw]
    exact h
  exact ⟨Nat.le_trans hmin (Nat.min_le_left _ _), Nat.le_trans hmin (Nat.min_le_right _ _)⟩

/-! ### Each side reads what the other wrote -/

section

variable {S : Sodium} {c : ClientRun} {s : ServerRun}

theorem length_putExtension_le (m : UInt8) (sig : Block 64) : (putExtension m sig).length ≤ 65 := by
  rw [putExtension]
  split
  · simp
  · simp

theorem length_encodeHello_le {h : HelloPayload} (hname : h.serviceName.length ≤ 255) :
    (encodeHello h).length ≤ 466 := by
  have hext := length_putExtension_le h.maxVersion h.signatureV2
  simp only [encodeHello, putStr8, List.length_append, List.length_cons, List.length_nil,
    Block.length_val]
  omega

theorem length_encodeHelloAck_le (h : HelloAckPayload) : (encodeHelloAck h).length ≤ 227 := by
  have hext := length_putExtension_le h.maxVersion h.signatureV2
  simp only [encodeHelloAck, List.length_append, List.length_cons, List.length_nil,
    Block.length_val]
  omega

/-- A handshake frame is small, so it is read as it was written. -/
theorem readFrame_handshake {f : RawFrame} (hlen : f.body.length ≤ 466) (hepoch : f.epoch = 0) :
    readFrame false (writeFrame false f) = some (f, []) := by
  have hread := readFrame_writeFrame false f [] ?_ (fun _ => hepoch)
  · rw [List.append_nil] at hread
    exact hread
  · have hheader : headerLen false = 9 := rfl
    rw [hheader, kMaxFrameBytes]
    omega

theorem decodeHello_helloFrame (hname : c.target.length ≤ 255) (hmax : Offered c.myMax) :
    decodeHello (c.helloFrame S).body = .accept (c.sentHello S) := by
  have hbody : (c.helloFrame S).body = encodeHello (c.sentHello S) := rfl
  rw [hbody]
  refine decodeHello_eq_accept.mpr (helloLayout_encodeHello _ ⟨hname, hmax.one_le, rfl, ?_⟩)
  intro hlt
  exact if_neg (UInt8.not_le.mpr hlt)

theorem decodeHelloAck_answerTo (hmax : Offered s.myMax) (trusted : Bool) :
    decodeHelloAck (s.answerTo S c trusted).ackFrame.body
      = .accept (s.sentAck S (c.sentHello S) (negotiateVersion s.myMax c.myMax) trusted) := by
  have hbody : (s.answerTo S c trusted).ackFrame.body
      = encodeHelloAck (s.sentAck S (c.sentHello S) (negotiateVersion s.myMax c.myMax) trusted) :=
    rfl
  rw [hbody]
  refine decodeHelloAck_eq_accept.mpr (helloAckLayout_encodeHelloAck _ ⟨hmax.one_le, rfl, ?_⟩)
  intro hlt
  exact if_neg (UInt8.not_le.mpr hlt)

/-! ### The server -/

/-- The signatures of an honest hello verify, at whatever version the session will run. -/
theorem helloSigOk_sentHello (hsign : S.SignCorrect) (hc : S.IsSignPair c.self)
    {negotiated : UInt8} (hv2 : 2 ≤ negotiated → 2 ≤ c.myMax) :
    helloSigOk S negotiated (c.sentHello S) = true := by
  rw [helloSigOk, Bool.and_eq_true]
  refine ⟨hsign c.self _ hc, ?_⟩
  by_cases hneg : negotiated < 2
  · rw [decide_eq_true hneg, Bool.true_or]
  have hmax : 2 ≤ c.myMax := hv2 (UInt8.not_lt.mp hneg)
  have hsigV2 : (c.sentHello S).signatureV2 = sign S c.self.secretKey c.statement.signedBytes :=
    c.signatureV2_hello S hmax
  have hext : (c.sentHello S).hasV2Extension = true := decide_eq_true hmax
  rw [Bool.or_eq_true, hext, Bool.true_and, hsigV2]
  exact Or.inr (hsign c.self _ hc)

theorem serverAnswer_helloFrame (hsign : S.SignCorrect) (hc : S.IsSignPair c.self)
    (htarget : c.target = s.serviceName) (hname : c.target.length ≤ 255)
    (hcmax : Offered c.myMax) (hsmax : Offered s.myMax) {isTrusted : TrustFn} {trusted : Bool}
    (htrust : isTrusted c.self.publicKey = .ok trusted) :
    serverAnswer S s isTrusted (some (c.helloFrame S)) = .ok (some (s.answerTo S c trusted)) := by
  have htype : ¬ (c.helloFrame S).type ≠ .hello := not_not.mpr rfl
  have hversion : ¬ (c.sentHello S).version ≠ kProtocolVersion := not_not.mpr rfl
  have hservice : ¬ (c.sentHello S).serviceName ≠ s.serviceName := not_not.mpr htarget
  have hneg : negotiateVersion s.myMax (c.sentHello S).maxVersion ≠ 0 :=
    negotiateVersion_ne_zero hsmax hcmax
  have hsig : helloSigOk S (negotiateVersion s.myMax (c.sentHello S).maxVersion) (c.sentHello S)
      = true :=
    helloSigOk_sentHello hsign hc fun h => (two_le_of_negotiateVersion hsmax hcmax h).2
  have htrust' : isTrusted (c.sentHello S).identityPubkey = .ok trusted := htrust
  simp only [serverAnswer, if_neg htype, decodeHello_helloFrame hname hcmax]
  rw [serverDecide, if_neg hversion, if_neg hservice]
  simp only [if_neg hneg, if_pos hsig, htrust', bind, Except.bind]
  rfl

/-! ### The client -/

/-- A refused client is told so by the status, which it looks at first. -/
theorem clientFinish_refused {isTrusted : TrustFn} (hsmax : Offered s.myMax) :
    clientFinish S c isTrusted (some (s.answerTo S c false).ackFrame) = .ok none := by
  have htype : ¬ (s.answerTo S c false).ackFrame.type ≠ .helloAck := not_not.mpr rfl
  have hstatus : (s.sentAck S (c.sentHello S) (negotiateVersion s.myMax c.myMax) false).status
      ≠ 0 := show (1 : UInt8) ≠ 0 by decide
  simp only [clientFinish, if_neg htype, decodeHelloAck_answerTo hsmax]
  rw [clientAccept, if_pos hstatus]
  rfl

theorem ackSigOkV2_sentAck (hsign : S.SignCorrect) (hs : S.IsSignPair s.self) (hmax : 2 ≤ s.myMax)
    (negotiated : UInt8) :
    ackSigOkV2 S c.self.publicKey negotiated (s.sentAck S (c.sentHello S) negotiated true)
      = true := by
  have hsigV2 : (s.sentAck S (c.sentHello S) negotiated true).signatureV2 = _ :=
    s.signatureV2_ack S
      ⟨c.sentHello S, negotiated, true, s.ack S (c.sentHello S) negotiated true⟩ hmax
  have hext : (s.sentAck S (c.sentHello S) negotiated true).hasV2Extension = true :=
    decide_eq_true hmax
  rw [ackSigOkV2, hext, Bool.true_and, hsigV2]
  exact hsign s.self _ hs

theorem clientFinish_ackFrame (hsign : S.SignCorrect) (hs : S.IsSignPair s.self)
    (hcmax : Offered c.myMax) (hsmax : Offered s.myMax) {isTrusted : TrustFn}
    (htrust : isTrusted s.self.publicKey = .ok true) {keys : SessionKeys}
    (hkeys : S.kxClientSessionKeys c.ephemeral s.ephemeral.publicKey = some keys) :
    clientFinish S c isTrusted (some (s.answerTo S c true).ackFrame)
      = .ok (some ⟨keys, s.self.publicKey, negotiateVersion c.myMax s.myMax⟩) := by
  have htype : ¬ (s.answerTo S c true).ackFrame.type ≠ .helloAck := not_not.mpr rfl
  have hcomm := negotiateVersion_comm_of_offered hsmax hcmax
  simp only [clientFinish, if_neg htype, decodeHelloAck_answerTo hsmax, hcomm]
  rw [clientAccept_eq_some]
  refine ⟨⟨rfl, rfl, htrust, hsign s.self _ hs, negotiateVersion_ne_zero hcmax hsmax⟩,
    rfl, rfl, ?_, hkeys⟩
  intro hge
  have hmax := (two_le_of_negotiateVersion hcmax hsmax hge).2
  exact ackSigOkV2_sentAck hsign hs hmax _

end

/-! ### Both together -/

/-- Two results of the same session. -/
structure Agree (c : ClientRun) (s : ServerRun) (client server : HandshakeResult) : Prop where
  clientVersion : client.version.toNat = min c.myMax.toNat s.myMax.toNat
  serverVersion : server.version.toNat = min c.myMax.toNat s.myMax.toNat
  serverIdentity : client.peerIdentity = s.self.publicKey
  clientIdentity : server.peerIdentity = c.self.publicKey
  clientToServer : client.keys.tx = server.keys.rx
  serverToClient : client.keys.rx = server.keys.tx

section

variable {S : Sodium} {c : ClientRun} {s : ServerRun}

/-- With the server's answer known, both calls are down to their last parts. -/
theorem runHandshake_eq {clientTrust serverTrust : TrustFn} {a : ServerAnswer}
    (hname : c.target.length ≤ 255)
    (hanswer : serverAnswer S s serverTrust (some (c.helloFrame S)) = .ok (some a)) :
    runHandshake S c s clientTrust serverTrust
      = (clientFinish S c clientTrust (some a.ackFrame), serverFinish S s a true) := by
  have hhello : readFrame false (writeFrame false (c.helloFrame S)) = some (c.helloFrame S, []) :=
    readFrame_handshake (length_encodeHello_le hname) rfl
  have hack : readFrame false (writeFrame false a.ackFrame) = some (a.ackFrame, []) :=
    readFrame_handshake (le_trans (length_encodeHelloAck_le a.ack) (by omega)) rfl
  have hwrites : serverWrites S s serverTrust (writeFrame false (c.helloFrame S))
      = writeFrame false a.ackFrame := by
    simp only [serverWrites, hhello, Option.map_some, hanswer]
  have hserver : serverHandshake S s serverTrust (writeFrame false (c.helloFrame S)) true
      = serverFinish S s a true := by
    simp only [serverHandshake, hhello, Option.map_some, hanswer, bind, Except.bind]
  rw [runHandshake, hwrites, hserver, clientHandshake, if_neg Bool.true_eq_false.mp, hack]
  rfl

end

/-- **Honest handshakes succeed and agree.** Two sides with the same service name of at most 255
bytes, each offering version 1 or 2, run against each other. When both callbacks accept, both calls
return a result, and the results agree; when the server's callback rejects, neither returns one. -/
theorem honest_handshake (S : Sodium) (hsign : S.SignCorrect) (hkx : S.KxAgree)
    (c : ClientRun) (s : ServerRun) (hc : S.IsSignPair c.self) (hs : S.IsSignPair s.self)
    (hce : S.IsKxPair c.ephemeral) (hse : S.IsKxPair s.ephemeral)
    (htarget : c.target = s.serviceName) (hname : c.target.length ≤ 255)
    (hcmax : c.myMax = 1 ∨ c.myMax = 2) (hsmax : s.myMax = 1 ∨ s.myMax = 2)
    (clientTrust serverTrust : TrustFn) :
    (clientTrust s.self.publicKey = .ok true → serverTrust c.self.publicKey = .ok true →
      ∃ rc rs, runHandshake S c s clientTrust serverTrust = (.ok (some rc), .ok (some rs)) ∧
        Agree c s rc rs) ∧
    (serverTrust c.self.publicKey = .ok false →
      runHandshake S c s clientTrust serverTrust = (.ok none, .ok none)) := by
  constructor
  · intro hclient hserver
    obtain ⟨k₁, k₂, hk₁, hk₂⟩ := hkx c.ephemeral s.ephemeral hce hse
    have hanswer := serverAnswer_helloFrame hsign hc htarget hname hcmax hsmax hserver
    have hversion := negotiateVersion_of_offered hsmax hcmax
    refine ⟨⟨⟨k₁, k₂⟩, s.self.publicKey, negotiateVersion c.myMax s.myMax⟩,
      ⟨⟨k₂, k₁⟩, c.self.publicKey, negotiateVersion s.myMax c.myMax⟩, ?_, ?_⟩
    · rw [runHandshake_eq hname hanswer, clientFinish_ackFrame hsign hs hcmax hsmax hclient hk₁,
        Prod.mk.injEq]
      exact ⟨rfl, serverFinish_eq_some.mpr ⟨rfl, rfl, rfl, rfl, hk₂⟩⟩
    · exact
        { clientVersion := negotiateVersion_of_offered hcmax hsmax
          serverVersion := by rw [hversion, Nat.min_comm]
          serverIdentity := rfl
          clientIdentity := rfl
          clientToServer := rfl
          serverToClient := rfl }
  · intro hreject
    have hanswer := serverAnswer_helloFrame hsign hc htarget hname hcmax hsmax hreject
    rw [runHandshake_eq hname hanswer, clientFinish_refused hsmax]
    rfl

/-! ### A v1 client and a v2 server -/

/-- A byte that depends on every byte of a message. -/
def checksum (message : Bytes) : UInt8 := message.foldl (fun sum b => 31 * sum + b) 7

/-- A libsodium whose secret keys end in the public key, as the real ones do, and whose signatures
are that key and a checksum of the message. -/
def Sodium.checksummed : Sodium :=
  { Sodium.symbolic [] with
    IsSignPair := fun id => id.secretKey.val.drop 32 = id.publicKey.val
    signDetached := fun sk m => ⟨sk.val.drop 32 ++ List.replicate 32 (checksum m), by simp⟩
    signVerifyDetached := fun pk m sig =>
      decide (sig.val = pk.val ++ List.replicate 32 (checksum m)) }

theorem Sodium.checksummed_signCorrect : checksummed.SignCorrect := by
  intro id m hpair
  have hdrop : id.secretKey.val.drop 32 = id.publicKey.val := hpair
  simp [checksummed, hdrop]

theorem Sodium.checksummed_kxAgree : checksummed.KxAgree := Sodium.symbolic_kxAgree []

/-- They meet at version 1; and a server that does not know the client turns it away. -/
theorem honest_handshake_across_versions :
    let c : ClientRun :=
      { self := ⟨Block.fill 32 1, Block.fill 64 1⟩, target := [115], myMax := 1
        ephemeral := ⟨Block.fill 32 2, Block.fill 32 2⟩, clientNonce := Block.fill 16 3 }
    let s : ServerRun :=
      { self := ⟨Block.fill 32 4, Block.fill 64 4⟩, serviceName := [115], myMax := 2
        ephemeral := ⟨Block.fill 32 5, Block.fill 32 5⟩, serverNonce := Block.fill 16 6 }
    (∃ rc rs, runHandshake .checksummed c s (fun _ => .ok true) (fun _ => .ok true)
        = (.ok (some rc), .ok (some rs)) ∧ Agree c s rc rs) ∧
      runHandshake .checksummed c s (fun _ => .ok true) (fun _ => .ok false)
        = (.ok none, .ok none) := by
  intro c s
  have hce : Sodium.checksummed.IsKxPair c.ephemeral := ⟨rfl, by decide⟩
  have hse : Sodium.checksummed.IsKxPair s.ephemeral := ⟨rfl, by decide⟩
  have hboth := fun clientTrust serverTrust => honest_handshake .checksummed
    Sodium.checksummed_signCorrect Sodium.checksummed_kxAgree c s rfl rfl hce hse rfl (by decide)
    (Or.inl rfl) (Or.inr rfl) clientTrust serverTrust
  exact ⟨(hboth _ _).1 rfl rfl, (hboth _ _).2 rfl⟩

end Epx
