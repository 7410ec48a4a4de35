import Epx.Session.Client
import Epx.Session.Host
import Epx.Lib.Transition

/-!
# Nonces and epochs of a session

Each side alone, against a peer that sends it anything, over every interleaving of its threads and
every pattern of failing writes.

A client counts every frame it seals, also one it could not write. A host does not count a REKEY_ACK
it could not write, but it marks the connection dead in the same critical section and seals nothing
after that. Both reset the counter together with the key. Epochs are counted up only while they are
below 255: the client looks before it offers a rotation and has one under way at a time, the host
looks before it answers one.

## Main results

* `Connection.inv_of_run`, `HostConn.inv_of_run`
* `session_nonces_unique`
-/

namespace Epx

open Codec Transition

theorem Connection.inv_of_run {S : Sodium} {c c' : Connection} {acts : List Connection.Act}
    (hrun : Run (Connection.Step S) c acts c') (h : c.Inv S) : c'.Inv S :=
  hrun.preserves h fun _ _ _ hinv hstep =>
    hinv.step (effect_of_step S hstep.2.choose_spec) hstep.1

theorem HostConn.inv_of_run {S : Sodium} {h h' : HostConn} {acts : List HostConn.Act}
    (hrun : Run (HostConn.Step S) h acts h') (hinv : h.Inv S) : h'.Inv S :=
  hrun.preserves hinv fun _ _ _ hinv hstep =>
    hinv.step (effect_of_step S hstep.2.choose_spec) hstep.1

/-- Calls of `seal` or `seal_v2` that share neither key nor counter. -/
def NoncesUnique (sealed : List SealCall) : Prop :=
  sealed.Pairwise fun x y => (x.key, x.counter) ≠ (y.key, y.counter)

/-- **Nonces are unique and epochs never wrap**, on the client and on the host, in every state that
a session reaches. -/
theorem session_nonces_unique (S : Sodium) (hfresh : S.KxFresh) :
    (∀ eph hs peer rotation now acts c, S.IsKxPair eph →
      S.kxClientSessionKeys eph peer = some hs.keys →
      Run (Connection.Step S) (Connection.start eph hs rotation now) acts c →
      ((∀ epoch, c.sender.count epoch < 2 ^ 64) → NoncesUnique c.sealed) ∧
      (∀ a c', c.Step S a c' → (c.tx.epoch = 255 → c'.tx.epoch = 255) ∧
        (c.rx.epoch = 255 → c'.rx.epoch = 255))) ∧
    (∀ eph hs peer acts h, S.IsKxPair eph →
      S.kxServerSessionKeys eph peer = some hs.keys →
      Run (HostConn.Step S) (HostConn.start eph hs) acts h →
      ((∀ epoch, h.sender.count epoch < 2 ^ 64) → NoncesUnique h.sealed) ∧
      (∀ a h', h.Step S a h' → (h.tx.epoch = 255 → h'.tx.epoch = 255) ∧
        (h.rx.epoch = 255 → h'.rx.epoch = 255)) ∧
      h.rx.epoch ≤ h.tx.epoch ∧ (h.rx.pending ≠ none → h.rx.epoch < h.tx.epoch)) := by
  constructor
  · intro eph hs peer rotation now acts c hpair hkeys hrun
    have hinv := Connection.inv_of_run hrun (Connection.inv_start hpair hkeys)
    refine ⟨hinv.sender.nonces (Connection.Derives.ne hfresh), ?_⟩
    rintro a c' ⟨-, out, hstep⟩
    have heff := Connection.effect_of_step S hstep
    exact ⟨hinv.tx_step heff, (hinv.rx_step heff).2.2⟩
  · intro eph hs peer acts h hpair hkeys hrun
    have hinv := HostConn.inv_of_run hrun (HostConn.inv_start hpair hkeys)
    refine ⟨hinv.sender.nonces (HostConn.Derives.ne hfresh), ?_, hinv.rx_le, hinv.rx_lt⟩
    rintro a h' ⟨-, out, hstep⟩
    have heff := HostConn.effect_of_step S hstep
    exact ⟨hinv.tx_step heff, (hinv.rx_step heff).2.2⟩

/-! ### A session that rotates once -/

namespace RotatingSession

abbrev sodium : Sodium := .symbolic []

def ephemeral (b : UInt8) : EphemeralKeyPair := ⟨Block.fill 32 b, Block.fill 32 b⟩

def clientResult : HandshakeResult := ⟨⟨Block.fill 32 2, Block.fill 32 1⟩, Block.fill 32 9, 2⟩

def hostResult : HandshakeResult := ⟨⟨Block.fill 32 1, Block.fill 32 2⟩, Block.fill 32 8, 2⟩

def client : Connection := .start (ephemeral 1) clientResult { interval := 1 } 0

def host : HostConn := .start (ephemeral 2) hostResult

def rekeyFrame : RawFrame :=
  (SealCall.mk (Block.fill 32 1) 0 0 .rekey (ephemeral 3).publicKey.val).frame sodium true

def rekeyAckFrame : RawFrame :=
  (SealCall.mk (Block.fill 32 2) 0 0 .rekeyAck (ephemeral 4).publicKey.val).frame sodium true

def clientActs : List Connection.Act :=
  [.acquire .request [7] 5 (ephemeral 3) true, .storeEph, .setInProgress, .sendOwn true,
    .receive rekeyAckFrame, .swapEph, .switchKeys 5, .acquire .request [8] 5 (ephemeral 5) true,
    .sendOwn true]

def hostActs : List HostConn.Act :=
  [.receive rekeyFrame (ephemeral 4) true, .ackAndSwitch true, .send .response [9] true]

/-- Running the client's acts. -/
def clientEnd : Option Connection := exec (Connection.tryStep sodium) client clientActs

def hostEnd : Option HostConn := exec (HostConn.tryStep sodium) host hostActs

theorem clientEnd_isSome : clientEnd.isSome = true := by decide +kernel

theorem hostEnd_isSome : hostEnd.isSome = true := by decide +kernel

theorem client_run :
    Run (Connection.Step sodium) client clientActs (clientEnd.get clientEnd_isSome) :=
  (run_of_exec (Option.some_get clientEnd_isSome).symm).mono fun _ _ _ =>
    Connection.step_of_tryStep sodium

theorem host_run : Run (HostConn.Step sodium) host hostActs (hostEnd.get hostEnd_isSome) :=
  (run_of_exec (Option.some_get hostEnd_isSome).symm).mono fun _ _ _ =>
    HostConn.step_of_tryStep sodium

theorem count_lt_of_length {s : Sender} {n : ℕ} (h : s.sealed.length = n) (hn : n < 2 ^ 64)
    (epoch : UInt8) : s.count epoch < 2 ^ 64 := by
  have := s.count_le epoch
  omega

end RotatingSession

open RotatingSession in
/-- Both sides have moved to epoch 1, the client with three calls of `seal` and the host with
two. -/
theorem session_nonces_unique_rotated :
    (clientEnd.get clientEnd_isSome).tx.epoch = 1 ∧
    (clientEnd.get clientEnd_isSome).sealed.length = 3 ∧
    NoncesUnique (clientEnd.get clientEnd_isSome).sealed ∧
    (hostEnd.get hostEnd_isSome).tx.epoch = 1 ∧
    (hostEnd.get hostEnd_isSome).sealed.length = 2 ∧
    NoncesUnique (hostEnd.get hostEnd_isSome).sealed := by
  have h := session_nonces_unique sodium (Sodium.symbolic_kxFresh [])
  have hclient : (clientEnd.get clientEnd_isSome).sealed.length = 3 := by decide +kernel
  have hhost : (hostEnd.get hostEnd_isSome).sealed.length = 2 := by decide +kernel
  refine ⟨by decide +kernel, hclient, ?_, by decide +kernel, hhost, ?_⟩
  · exact (h.1 (ephemeral 1) clientResult (Block.fill 32 2) { interval := 1 } 0 clientActs _
      (by decide) (by decide) client_run).1 (count_lt_of_length hclient (by decide))
  · exact (h.2 (ephemeral 2) hostResult (Block.fill 32 1) hostActs _ (by decide) (by decide)
      host_run).1 (count_lt_of_length hhost (by decide))

end Epx
