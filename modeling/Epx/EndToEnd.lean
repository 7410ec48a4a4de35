import Epx.HandshakeAgreement
import Epx.HandshakeSuccess
import Epx.Tapped

/-!
# From the handshake on

The connection of a `Link` and that of a `Tapped` line start with the results of a handshake. Here
they come out of one: of two calls that read what the other has written, or of a client run in a
`Net` where the attacker carries the frames.

In the `Net` a client may talk to anybody. If it returns a v2 result for an honest identity, exactly
one server run is its counterpart, and on a connection that goes on from there the attacker still
cannot make a call end with anything that this host has not decided about it.

## Main definitions

* `FaithfulFrom` — calls end as decided on every link that starts with given results
* `GenuineFrom` — calls are genuine on every line that starts with given results

## Main results

* `paired_of_handshake`
* `calls_faithful_after_handshake`
* `Net.Inv.keyed`
* `calls_genuine_after_handshake`
-/

namespace Epx

open Codec Transition

/-! ### Two honest sides on a transport that changes nothing -/

section

variable {S : Sodium} {c : ClientRun} {s : ServerRun} {rc rs : HandshakeResult}

/-- What the server has seen of a HELLO that it has answered. -/
theorem hello_of_answer (hname : c.target.length ≤ 255) (hcmax : Offered c.myMax)
    {isTrusted : TrustFn} {a : ServerAnswer}
    (h : serverAnswer S s isTrusted (some (c.helloFrame S)) = .ok (some a)) :
    a = s.answerTo S c a.trusted := by
  obtain ⟨⟨frame, hframe, -, hdec⟩, hchecks⟩ := serverAnswer_eq_some h
  cases hframe
  rw [decodeHello_helloFrame hname hcmax] at hdec
  have hhello : c.sentHello S = a.hello := by injection hdec
  have hneg : a.negotiated = negotiateVersion s.myMax c.myMax := by
    rw [hchecks.negotiated, ← hhello]
    rfl
  have hack := hchecks.ack
  rw [← hhello, hneg] at hack
  obtain ⟨hello, negotiated, trusted, ack⟩ := a
  dsimp only at hhello hneg hack ⊢
  rw [ServerRun.answerTo, hack, hneg, ← hhello]

/-- **Two calls that both return** leave a pair of results that a connection can start with. -/
theorem paired_of_handshake (hkx : S.KxAgree) (hce : S.IsKxPair c.ephemeral)
    (hse : S.IsKxPair s.ephemeral) (hname : c.target.length ≤ 255) (hcmax : Offered c.myMax)
    (hsmax : Offered s.myMax) {clientTrust serverTrust : TrustFn}
    (h : runHandshake S c s clientTrust serverTrust = (.ok (some rc), .ok (some rs))) :
    Paired S c.ephemeral rc s rs := by
  have hhello : readFrame false (writeFrame false (c.helloFrame S)) = some (c.helloFrame S, []) :=
    readFrame_handshake (length_encodeHello_le hname) rfl
  -- the server has answered, or it would have returned nothing
  obtain ⟨a, hanswer⟩ : ∃ a,
      serverAnswer S s serverTrust (some (c.helloFrame S)) = .ok (some a) := by
    have hserver := congrArg Prod.snd h
    simp only [runHandshake, serverHandshake, hhello, Option.map_some] at hserver
    cases hanswer : serverAnswer S s serverTrust (some (c.helloFrame S)) with
    | error e =>
      rw [hanswer] at hserver
      cases hserver
    | ok o =>
      cases o with
      | none =>
        rw [hanswer] at hserver
        cases hserver
      | some a => exact ⟨a, rfl⟩
  rw [runHandshake_eq hname hanswer, Prod.mk.injEq] at h
  obtain ⟨hclient, hserver⟩ := h
  obtain ⟨-, htrusted, -, hversion, hhost⟩ := serverFinish_eq_some.mp hserver
  have ha := hello_of_answer hname hcmax hanswer
  rw [htrusted] at ha
  subst ha
  obtain ⟨frame, ack, hframe, -, hdec, hacc⟩ := clientFinish_eq_some hclient
  cases hframe
  rw [decodeHelloAck_answerTo hsmax] at hdec
  cases hdec
  obtain ⟨-, -, hclientVersion, -, hkeys⟩ := clientAccept_eq_some.mp hacc
  obtain ⟨k₁, k₂, hk₁, hk₂⟩ := hkx c.ephemeral s.ephemeral hce hse
  have hkeys' : S.kxClientSessionKeys c.ephemeral s.ephemeral.publicKey = some rc.keys := hkeys
  have hhost' : S.kxServerSessionKeys s.ephemeral c.ephemeral.publicKey = some rs.keys := hhost
  refine ⟨hce, hkeys', ?_, ?_⟩
  · rw [hk₁] at hkeys'
    rw [hk₂] at hhost'
    rw [← Option.some.inj hkeys', ← Option.some.inj hhost']
  · rw [hversion, hclientVersion]
    exact negotiateVersion_comm_of_offered hsmax hcmax

end

/-- Calls end as decided on every link that starts with these results. -/
def FaithfulFrom (S : Sodium) (eph : EphemeralKeyPair) (client : HandshakeResult)
    (server : ServerRun) (host : HandshakeResult) : Prop :=
  ∀ (cfg : HostConfig) (c : ℕ) (E : Set Bytes) (run : ℕ → ServerRun) (acc : ℕ → Accept)
    (hs : ℕ → HandshakeResult) (rotation : RotationPolicy) (now : ℕ) (acts : List Link.Act)
    (t : Ledger), run c = server → hs c = host →
    Run (Ledger.SteadyStep c S cfg E)
      { link := .start cfg run acc hs eph client rotation now } acts t →
    t.link.line.side.calls.drawn.length < 2 ^ 64 → t.Faithful c

/-- **From the handshake to the answers**, on a transport that changes nothing: whatever the two
sides offer and trust, if both calls return a result, then on a connection that goes on from there
and stays up every call ends as the host has decided about its request. -/
theorem calls_faithful_after_handshake (S : Sodium) (hS : S.AeadCorrect) (hkx : S.KxAgree)
    (c : ClientRun) (s : ServerRun) (hce : S.IsKxPair c.ephemeral) (hse : S.IsKxPair s.ephemeral)
    (hname : c.target.length ≤ 255) (hcmax : Offered c.myMax) (hsmax : Offered s.myMax)
    (clientTrust serverTrust : TrustFn) (rc rs : HandshakeResult)
    (h : runHandshake S c s clientTrust serverTrust = (.ok (some rc), .ok (some rs))) :
    FaithfulFrom S c.ephemeral rc s rs := by
  intro cfg n E run acc hs rotation now acts t hserver hhost hrun hlt
  have hpaired : Paired S c.ephemeral rc (run n) (hs n) := by
    rw [hserver, hhost]
    exact paired_of_handshake hkx hce hse hname hcmax hsmax h
  exact (Ledger.inv_of_run hS hkx (Ledger.inv_start hpaired rotation now E) hrun hlt).faithful hS

/-! ### A client among many, and an attacker for a network -/

section

variable {S : Sodium} {honest : Set Identity} {net : Net} {c : ClientRun} {r : HandshakeResult}

/-- A client that has returned a result has written a HELLO. -/
theorem Net.client_of_result {evs : List Net.Event} (hrun : Run (Net.Step S honest) {} evs net) :
    ∀ c r, (c, r) ∈ net.clientResults → c ∈ net.clients := by
  refine hrun.preserves (I := fun net => ∀ c r, (c, r) ∈ net.clientResults → c ∈ net.clients)
    (fun c r h => absurd h List.not_mem_nil) fun net ev net' ih hstep => ?_
  cases hstep with
  | hello _ _ => exact fun c r h => List.mem_cons_of_mem _ (ih c r h)
  | answer _ _ _ _ | serverReturns _ _ | issue _ => exact ih
  | clientReturns hc _ _ =>
    intro c' r' h
    rcases List.mem_cons.mp h with heq | h
    · cases heq
      exact hc
    · exact ih c' r' h

/-- **Counterparts have the keys of one session.** -/
theorem Net.Inv.keyed (hkx : S.KxAgree) (hinv : net.Inv S honest) (hc : c ∈ net.clients)
    {s : ServerRun} {a : ServerAnswer} (hs : (s, a) ∈ net.servers) (hm : Matches S c r s a)
    {h : HandshakeResult} (hfin : serverFinish S s a true = .ok (some h)) :
    Keyed S c.ephemeral r s h := by
  have hce := (hinv.client_pair c hc).1
  have hse := (hinv.server_pair s a hs).1
  obtain ⟨k₁, k₂, hk₁, hk₂⟩ := hkx c.ephemeral s.ephemeral hce hse
  obtain ⟨-, -, -, -, hkeys⟩ := serverFinish_eq_some.mp hfin
  rw [hm.ephemeral] at hkeys
  have hhost : h.keys = ⟨k₂, k₁⟩ := Option.some.inj (hkeys.symm.trans hk₂)
  -- the result that the client matches is the one the server returns
  obtain ⟨h', hfin', hrx, htx⟩ := hm.keys
  rw [hfin] at hfin'
  cases hfin'
  rw [hhost] at hrx htx
  have hclient : r.keys = ⟨k₁, k₂⟩ := by
    rw [show r.keys = ⟨r.keys.rx, r.keys.tx⟩ from rfl, ← hrx, ← htx]
  refine ⟨hce, hse, by rw [hclient, hk₁], hkeys, ?_⟩
  rw [hhost, hclient]

/-- No two server runs have the same key to seal with. -/
theorem Net.Inv.server_unique (hfresh : S.KxFresh) (hinv : net.Inv S honest) {s s' : ServerRun}
    {a a' : ServerAnswer} (hs : (s, a) ∈ net.servers) (hs' : (s', a') ∈ net.servers)
    {h h' : HandshakeResult} (hfin : serverFinish S s a true = .ok (some h))
    (hfin' : serverFinish S s' a' true = .ok (some h')) (htx : h'.keys.tx = h.keys.tx) :
    (s', a') = (s, a) := by
  obtain ⟨-, -, -, -, hkeys⟩ := serverFinish_eq_some.mp hfin
  obtain ⟨-, -, -, -, hkeys'⟩ := serverFinish_eq_some.mp hfin'
  refine hinv.server_ephemeral s' a' s a hs' hs ?_
  by_contra hne
  exact hfresh.server (hinv.server_pair s' a' hs').1 (hinv.server_pair s a hs).1 hne hkeys' hkeys
    htx

end

/-- Calls are genuine on every line that starts with these results, whatever an attacker who does
not hold the session keys delivers. -/
def GenuineFrom (S : Sodium) (eph : EphemeralKeyPair) (client : HandshakeResult)
    (server : ServerRun) (host : HandshakeResult) : Prop :=
  ∀ (cfg : HostConfig) (c : ℕ) (run : ℕ → ServerRun) (acc : ℕ → Accept) (hs : ℕ → HandshakeResult)
    (rotation : RotationPolicy) (now : ℕ) (acts : List Tapped.Act) (t : Tapped),
    run c = server → hs c = host →
    Run (Tapped.Step c S cfg) (.start c cfg run acc hs eph client rotation now) acts t →
    t.Small c → t.Genuine c

/-- **From the handshake to the answers**, on a network that an attacker runs. A client that has
returned a v2 result for an honest identity has a counterpart, a server run of this identity for the
service that was meant, which has heard this client and is the only one with the keys of the
session. On a connection that goes on from there, calls are genuine. -/
theorem calls_genuine_after_handshake (S : Sodium) (hkx : S.KxAgree) (hfresh : S.KxFresh)
    (honest : Set Identity) (evs : List Net.Event) (net : Net)
    (hrun : Run (Net.Step S honest) {} evs net) (c : ClientRun) (r : HandshakeResult)
    (hreturned : (c, r) ∈ net.clientResults) (hv : r.version ≥ 2)
    (hhon : HonestKey honest r.peerIdentity) :
    ∃ s a h, (s, a) ∈ net.servers ∧ s.self.publicKey = r.peerIdentity ∧
      s.serviceName = c.target ∧ serverFinish S s a true = .ok (some h) ∧
      h.peerIdentity = c.self.publicKey ∧ h.version = r.version ∧
      (∀ s' a' h', (s', a') ∈ net.servers → serverFinish S s' a' true = .ok (some h') →
        h'.keys.tx = r.keys.rx → (s', a') = (s, a)) ∧
      GenuineFrom S c.ephemeral r s h := by
  have hinv := inv_of_run hkx hrun
  have hc := Net.client_of_result hrun c r hreturned
  obtain ⟨s, a, hs, hm⟩ := hinv.clientResult c r hreturned hv hhon
  obtain ⟨h, hfin, -⟩ := hm.keys
  obtain ⟨-, -, hpeer, hversion, -⟩ := serverFinish_eq_some.mp hfin
  refine ⟨s, a, h, hs, hm.identity, hm.serviceName, hfin, hpeer.trans hm.client,
    hversion.trans hm.version, fun s' a' h' hs' hfin' htx => ?_, ?_⟩
  · refine hinv.server_unique hfresh hs hs' hfin hfin' ?_
    rw [htx, (hinv.keyed hkx hc hs hm hfin).swapped]
  intro cfg n run acc hs' rotation now acts t hserver hhost hline hsmall
  have hkeyed : Keyed S c.ephemeral r (run n) (hs' n) := by
    rw [hserver, hhost]
    exact hinv.keyed hkx hc hs hm hfin
  exact (Tapped.inv_of_run (Tapped.inv_start hkeyed rotation now) hline hsmall).genuine hsmall

/-! ### Handshakes that are followed by calls -/

namespace HonestHandshake

/-- A v1 client and a v2 server can go on from what they have agreed on. -/
theorem calls_faithful_after_handshake_across_versions :
    runHandshake .checksummed { clientRun with myMax := 1 } serverRun trustAll trustAll
        = (.ok (some { clientResult with version := 1 }),
          .ok (some { serverResult with version := 1 })) ∧
      FaithfulFrom .checksummed clientRun.ephemeral { clientResult with version := 1 } serverRun
        { serverResult with version := 1 } := by
  have h : runHandshake .checksummed { clientRun with myMax := 1 } serverRun trustAll trustAll
      = (.ok (some { clientResult with version := 1 }),
        .ok (some { serverResult with version := 1 })) := by
    decide +kernel
  have haead := Sodium.symbolic_aeadCorrect []
  refine ⟨h, ?_⟩
  exact calls_faithful_after_handshake .checksummed ⟨haead.decrypt_encrypt, haead.length_encrypt⟩
    Sodium.checksummed_kxAgree { clientRun with myMax := 1 } serverRun ⟨rfl, by decide⟩
    ⟨rfl, by decide⟩ (by decide) (Or.inl rfl) (Or.inr rfl) trustAll trustAll _ _ h

end HonestHandshake

namespace TappedCall

open HonestHandshake (clientRun serverRun clientResult serverResult answer honest net)
open PlayedLink (config)

/-- What opens makes no difference to a handshake. -/
theorem net_step {n n' : Net} {e : Net.Event}
    (h : Net.Step HonestHandshake.sodium honest n e n') : Net.Step sodium honest n e n' := by
  cases h with
  | hello hself hdraws =>
    exact .hello hself ⟨hdraws.pair, hdraws.untagged, hdraws.ephemeral, hdraws.nonce⟩
  | answer hself hdraws ha hunf =>
    exact .answer hself ⟨hdraws.pair, hdraws.untagged, hdraws.ephemeral, hdraws.nonce⟩ ha hunf
  | serverReturns hs hfin => exact .serverReturns hs hfin
  | clientReturns hc hfin hunf => exact .clientReturns hc hfin hunf
  | issue hself => exact .issue hself

/-- The call of a client that has come to its keys in the network. -/
theorem calls_genuine_after_handshake_replayed :
    (linkEnd.get linkEnd_isSome).line.side.calls.calls 0 = .over .get 1 (.returned [7]) ∧
    (linkEnd.get linkEnd_isSome).Genuine 0 := by
  refine ⟨by decide +kernel, ?_⟩
  have hfresh := Sodium.symbolic_kxFresh HonestHandshake.signed
  obtain ⟨s, a, h, hs, -, -, hfin, -, -, -, hgenuine⟩ :=
    calls_genuine_after_handshake sodium (Sodium.symbolic_kxAgree HonestHandshake.signed)
      ⟨hfresh.client, hfresh.server⟩ honest _ net
      (HonestHandshake.run.mono fun _ _ _ h => net_step h) clientRun clientResult
      List.mem_cons_self (by decide) ⟨_, Or.inr rfl, rfl⟩
  obtain ⟨rfl, rfl⟩ := Prod.mk.inj (List.mem_singleton.mp hs)
  have hh : h = serverResult := by
    have hfin' : serverFinish sodium serverRun answer true = .ok (some serverResult) := by
      decide +kernel
    rw [hfin'] at hfin
    cases hfin
    rfl
  exact hgenuine config 0 (fun _ => serverRun) (fun _ => SameRequestId.accept)
    (fun _ => serverResult) {} 0 acts _ rfl hh.symm link_run small

end TappedCall

end Epx
