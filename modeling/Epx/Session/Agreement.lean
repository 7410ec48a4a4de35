import Epx.Session.Rotation

/-!
# Agreement between critical sections

A coarser view of a session. A sender holds `write_mutex` or `tx_mutex` from its first step to its
last, and a reader finishes one frame before it reads the next; here each of these is one step, and
a state is looked at only between them (`Session.Quiescent`). What a run of such steps can reach,
the session of single steps reaches without ever taking an ephemeral too early, so its invariant
holds.

Between critical sections a rotation is not under way, offered, or acknowledged; the other phases
are inside a reader's step.

## Main definitions

* `Session.CriticalSection`, `Session.AtomicStep` — the coarse steps
* `Session.Quiescent` — no thread is inside one
* `Delivers` — what has been sealed is what has been opened and what is in flight

## Main results

* `Session.AtomicStep.guarded` — a coarse step is a run of single steps
* `session_agreement`
-/

namespace Epx

open Codec Transition

namespace Session

/-- The sequences of steps that a thread makes in one go. -/
inductive CriticalSection : List Act → Prop
  /-- `seal_and_send`. -/
  | sealAndSend (type : FrameType) (plaintext : Bytes) (now : ℕ) (eph : EphemeralKeyPair) :
      CriticalSection [.acquire type plaintext now eph, .sendOwn]
  /-- `seal_and_send` with a rotation due. -/
  | offer (type : FrameType) (plaintext : Bytes) (now : ℕ) (eph : EphemeralKeyPair) :
      CriticalSection [.acquire type plaintext now eph, .storeEph, .setInProgress, .sendOwn]
  /-- `reader_loop` on a frame that does not end in a switch of keys. -/
  | read : CriticalSection [.clientReceive]
  | ack : CriticalSection [.clientReceive, .swapEph]
  | ackSwitch (now : ℕ) : CriticalSection [.clientReceive, .swapEph, .switchKeys now]
  | clientQuit : CriticalSection [.clientQuit]
  /-- `send_sealed` and `send_chunk`. -/
  | send (type : FrameType) (plaintext : Bytes) : CriticalSection [.hostSend type plaintext]
  | ping : CriticalSection [.ping]
  /-- The loop of `handle_connection` on a frame that is not a REKEY it answers. -/
  | handle (eph : EphemeralKeyPair) : CriticalSection [.hostReceive eph]
  | answer (eph : EphemeralKeyPair) : CriticalSection [.hostReceive eph, .ackAndSwitch]
  | hostQuit : CriticalSection [.hostQuit]
  | shutdown : CriticalSection [.shutdown]

/-- No thread is inside a critical section or in the middle of a frame. -/
structure Quiescent (s : Session) : Prop where
  writer : s.client.writer = .free
  client : s.client.reader.midFrame = false
  host : s.host.reader.midFrame = false

instance (s : Session) : Decidable s.Quiescent :=
  decidable_of_iff (s.client.writer = .free ∧ s.client.reader.midFrame = false ∧
    s.host.reader.midFrame = false)
    ⟨fun h => ⟨h.1, h.2.1, h.2.2⟩, fun h => ⟨h.writer, h.client, h.host⟩⟩

/-- A whole critical section, run without interruption. -/
structure AtomicStep (S : Sodium) (s : Session) (acts : List Act) (s' : Session) : Prop where
  isSection : CriticalSection acts
  run : Run (Step S) s acts s'
  quiescent : s'.Quiescent

section

variable {S : Sodium} {s s' : Session} {acts : List Act}

theorem quiescent_start {clientEph hostEph : EphemeralKeyPair} {keys : SessionKeys}
    {clientIdentity hostIdentity : PublicKey} {version : UInt8} {rotation : RotationPolicy}
    {now : ℕ} :
    (start clientEph hostEph keys clientIdentity hostIdentity version rotation now).Quiescent :=
  ⟨rfl, rfl, rfl⟩

/-- Reading a frame does not touch the sender. -/
theorem writer_of_clientReceive (h : s.Step S .clientReceive s') :
    s'.client.writer = s.client.writer := by
  have hstep := h.2
  simp only [Session.step] at hstep
  cases hq : s.toClient with
  | nil => simp [hq] at hstep
  | cons f rest =>
    simp only [hq] at hstep
    by_cases hread : Readable s.client.v2 f
    · rw [if_pos hread] at hstep
      obtain ⟨c, out, hc, rfl⟩ := clientStep_eq_some hstep
      cases Connection.effect_of_step S hc with
      | skipped _ _ | refused _ _ _ | opened _ _ _ => rfl
    · rw [if_neg hread] at hstep
      obtain ⟨c, out, hc, rfl⟩ := clientStep_eq_some hstep
      obtain ⟨-, rfl, rfl⟩ := Connection.step_quit S hc
      rfl

/-- Without a swap there is nothing to guard. -/
theorem guarded_of_not_mem (hrun : Run (Step S) s acts s') (hno : Act.swapEph ∉ acts) :
    Run (Guarded (Step S) OfferStored) s acts s' := by
  refine hrun.mono_of_mem fun t a t' ha hstep => ⟨hstep, fun heq => ?_⟩
  rw [heq] at ha
  exact absurd ha hno

/-- The reader takes the ephemeral while no sender is in its critical section. -/
theorem guarded_of_ack (hq : s.Quiescent) (hno : Act.swapEph ∉ acts)
    (hrun : Run (Step S) s (.clientReceive :: .swapEph :: acts) s') :
    Run (Guarded (Step S) OfferStored) s (.clientReceive :: .swapEph :: acts) s' := by
  obtain ⟨t, hreceive, hrest⟩ := hrun.uncons
  obtain ⟨u, hswap, hrest⟩ := hrest.uncons
  have hfree : t.client.writer.offering = false := by
    rw [writer_of_clientReceive hreceive, hq.writer]
    rfl
  have hfirst : Run (Guarded (Step S) OfferStored) s [.clientReceive, .swapEph] u :=
    (Run.nil.snoc ⟨hreceive, fun heq => (by cases heq)⟩).snoc ⟨hswap, fun _ => hfree⟩
  exact hfirst.trans (guarded_of_not_mem hrest hno)

/-- **A critical section is a run** in which the ephemeral is taken after it has been stored. -/
theorem AtomicStep.guarded (h : s.AtomicStep S acts s') (hq : s.Quiescent) :
    Run (Guarded (Step S) OfferStored) s acts s' := by
  obtain ⟨hsection, hrun, -⟩ := h
  cases hsection with
  | ack => exact guarded_of_ack hq List.not_mem_nil hrun
  | ackSwitch now => exact guarded_of_ack hq (by simp) hrun
  | _ => exact guarded_of_not_mem hrun (by simp)

theorem inv_of_atomic_run (hS : S.AeadCorrect) (hkx : S.KxAgree) {sections : List (List Act)}
    (hrun : Run (AtomicStep S) s sections s') (h : s.Inv S) (hq : s.Quiescent) :
    s'.Inv S ∧ s'.Quiescent :=
  hrun.preserves (I := fun t => t.Inv S ∧ t.Quiescent) ⟨h, hq⟩ fun _ _ _ hinv hstep =>
    ⟨inv_of_run hS hkx (hstep.guarded hinv.2) hinv.1, hstep.quiescent⟩

end

end Session

/-- The sealed frames of a direction: those in flight are calls of the sender that its receiver has
not opened yet, and what was sealed is what was opened, in the same order, followed by them. -/
def Delivers (S : Sodium) (v2 : Bool) (sealed : List SealCall) (inFlight : List RawFrame)
    (opened : List Opened) : Prop :=
  ∃ xs : List SealCall,
    (inFlight.filter fun f => !isCleartext f.type) = xs.map (SealCall.frame S v2) ∧
    sealed.map SealCall.content = opened.map Opened.content ++ xs.map SealCall.content

namespace Session

section

variable {S : Sodium} {ph : Phase} {s : Session}

theorem PhaseInv.deliversToHost (h : s.PhaseInv S ph) :
    Delivers S s.client.v2 s.client.sealed s.toHost s.host.opened := by
  obtain ⟨xs, rx', hstream, -, hcontent⟩ := h.toHost
  refine ⟨xs, hstream.filter_eq ?_ ?_, hcontent⟩
  · rintro t (rfl | rfl) <;> rfl
  · intro sp hsp
    cases ph with
    | offered _ =>
      cases hsp
      rfl
    | idle | answering _ _ _ | acked _ _ _ | opening _ _ _ | switching _ _ _ => cases hsp

theorem PhaseInv.deliversToClient (h : s.PhaseInv S ph) :
    Delivers S s.client.v2 s.host.sealed s.toClient s.client.opened := by
  obtain ⟨xs, rx', hstream, -, hcontent⟩ := h.toClient
  refine ⟨xs, hstream.filter_eq ?_ ?_, hcontent⟩
  · rintro t (rfl | rfl | rfl) <;> rfl
  · intro sp hsp
    cases ph with
    | acked _ _ _ =>
      cases hsp
      rfl
    | idle | offered _ | answering _ _ _ | opening _ _ _ | switching _ _ _ => cases hsp

/-- Between critical sections the host is at most one epoch ahead, and only while a rotation frame
is in flight. -/
theorem Inv.epochs (h : s.Inv S) (hq : s.Quiescent) :
    s.host.tx.epoch.toNat = s.client.tx.epoch.toNat ∨
    s.host.tx.epoch.toNat = s.client.tx.epoch.toNat + 1 ∧ ∃ f ∈ s.toClient, f.type = .rekeyAck := by
  obtain ⟨ph, hph⟩ := h.phase
  cases ph with
  | idle | offered _ => exact Or.inl (congrArg UInt8.toNat hph.epochs)
  | answering _ _ _ =>
    have hmid := hq.host
    rw [show s.host.reader = _ from hph.host] at hmid
    cases hmid
  | acked eph hostEph nk =>
    right
    obtain ⟨xs, rx', hstream, -⟩ := hph.toClient
    refine ⟨?_, hstream.exists_special⟩
    -- An offer is outstanding, so the client's epoch is below the last.
    have hlt := (h.client.outstanding eph (hph.client.1.imp_right Or.inl)).2.2.2
    rw [show s.host.tx.epoch = s.client.tx.epoch + 1 from hph.epochs]
    exact toNat_epoch_add_one hlt
  | opening _ _ _ | switching _ _ _ =>
    have hmid := hq.client
    rw [hph.client.2] at hmid
    cases hmid

end

end Session

/-- **Session agreement.** In every interleaving of critical sections, each side opens every sealed
frame it is given; what has been sealed in a direction is what has been opened there, in sending
order and to the plaintext that was sealed, followed by what is in flight; the transmit epochs
differ by at most one, and only while a REKEY or REKEY_ACK is in flight; and no reader fails. -/
theorem session_agreement (S : Sodium) (hS : S.AeadCorrect) (hkx : S.KxAgree)
    (clientEph hostEph : EphemeralKeyPair) (keys : SessionKeys)
    (clientIdentity hostIdentity : PublicKey) (version : UInt8) (rotation : RotationPolicy)
    (now : ℕ) (hpair : S.IsKxPair clientEph)
    (hkeys : S.kxClientSessionKeys clientEph hostEph.publicKey = some keys)
    (sections : List (List Session.Act)) (s : Session)
    (hrun : Run (Session.AtomicStep S)
      (.start clientEph hostEph keys clientIdentity hostIdentity version rotation now) sections s) :
    s.OpensNext S ∧
    Delivers S s.client.v2 s.client.sealed s.toHost s.host.opened ∧
    Delivers S s.host.v2 s.host.sealed s.toClient s.client.opened ∧
    (s.host.tx.epoch.toNat = s.client.tx.epoch.toNat ∨
      s.host.tx.epoch.toNat = s.client.tx.epoch.toNat + 1) ∧
    ((∀ f ∈ s.toHost, f.type ≠ .rekey) → (∀ f ∈ s.toClient, f.type ≠ .rekeyAck) →
      s.host.tx.epoch = s.client.tx.epoch) ∧
    s.ReadersOk := by
  obtain ⟨hinv, hq⟩ := Session.inv_of_atomic_run hS hkx hrun (Session.inv_start hpair hkeys)
    Session.quiescent_start
  obtain ⟨ph, hph⟩ := hinv.phase
  have hepochs := hinv.epochs hq
  refine ⟨hph.opensNext, hph.deliversToHost, ?_, hepochs.imp_right And.left, ?_, hph.readersOk⟩
  · rw [hph.version]
    exact hph.deliversToClient
  · intro _ hno
    rcases hepochs with heq | ⟨-, f, hf, htype⟩
    · exact UInt8.toNat_inj.mp heq
    · exact absurd htype (hno f hf)

/-! ### A run with a rotation -/

namespace RotatedSession

abbrev sodium : Sodium := .symbolic []

def ephemeral (b : UInt8) : EphemeralKeyPair := ⟨Block.fill 32 b, Block.fill 32 b⟩

/-- A v2 session that rotates after one unit of time. -/
def session : Session :=
  .start (ephemeral 1) (ephemeral 2) ⟨Block.fill 32 2, Block.fill 32 1⟩ (Block.fill 32 8)
    (Block.fill 32 9) 2 { interval := 1 } 0

def request : Bytes :=
  encodeRequest { requestId := 1, oneway := false, endpoint := [], data := [7] }

def response : Bytes := encodeResponse { requestId := 1, status := 0, data := [8] }

/-- A request with an offer, its response under the old keys, the rotation, and a request and a
response under the new keys, with a ping between. -/
def sections : List (List Session.Act) :=
  [[.acquire .request request 5 (ephemeral 3), .storeEph, .setInProgress, .sendOwn],
    [.hostSend .response response],
    [.hostReceive (ephemeral 4), .ackAndSwitch],
    [.ping],
    [.hostSend .response response],
    [.clientReceive],
    [.clientReceive, .swapEph, .switchKeys 5],
    [.acquire .request request 5 (ephemeral 5), .sendOwn],
    [.hostReceive (ephemeral 5)],
    [.clientReceive],
    [.clientReceive],
    [.hostReceive (ephemeral 5)]]

/-- A computed critical section. -/
def sectionStep (s : Session) (acts : List Session.Act) : Option Session :=
  (exec (Session.tryStep sodium) s acts).filter fun s' => decide s'.Quiescent

theorem atomicStep_of_sectionStep {s s' : Session} {acts : List Session.Act}
    (hacts : Session.CriticalSection acts) (h : sectionStep s acts = some s') :
    s.AtomicStep sodium acts s' := by
  obtain ⟨hexec, hq⟩ := Option.filter_eq_some_iff.mp h
  exact ⟨hacts, (run_of_exec hexec).mono fun _ _ _ => Session.step_of_tryStep sodium,
    of_decide_eq_true hq⟩

theorem criticalSection_of_mem : ∀ acts ∈ sections, Session.CriticalSection acts := by
  simp only [sections, List.forall_mem_cons]
  exact ⟨.offer _ _ _ _, .send _ _, .answer _, .ping, .send _ _, .read, .ackSwitch _,
    .sealAndSend _ _ _ _, .handle _, .read, .read, .handle _, by simp⟩

def sessionEnd : Option Session := exec sectionStep session sections

theorem sessionEnd_isSome : sessionEnd.isSome = true := by decide +kernel

theorem session_run :
    Run (Session.AtomicStep sodium) session sections (sessionEnd.get sessionEnd_isSome) :=
  (run_of_exec (Option.some_get sessionEnd_isSome).symm).mono_of_mem fun _ acts _ hmem =>
    atomicStep_of_sectionStep (criticalSection_of_mem acts hmem)

end RotatedSession

open RotatedSession in
/-- In this run both sides reach epoch 1, the streams are empty, and each side has opened what the
other has sealed. -/
theorem session_agreement_rotated :
    (sessionEnd.get sessionEnd_isSome).client.tx.epoch = 1 ∧
    (sessionEnd.get sessionEnd_isSome).host.opened.map Opened.type = [.rekey, .request, .request] ∧
    (sessionEnd.get sessionEnd_isSome).client.opened.map Opened.type
      = [.response, .rekeyAck, .response] ∧
    (sessionEnd.get sessionEnd_isSome).host.tx.epoch
      = (sessionEnd.get sessionEnd_isSome).client.tx.epoch := by
  have h := session_agreement sodium (Sodium.symbolic_aeadCorrect []) (Sodium.symbolic_kxAgree [])
    (ephemeral 1) (ephemeral 2) ⟨Block.fill 32 2, Block.fill 32 1⟩ (Block.fill 32 8)
    (Block.fill 32 9) 2 { interval := 1 } 0 (by decide) (by decide) sections _ session_run
  exact ⟨by decide +kernel, by decide +kernel, by decide +kernel,
    h.2.2.2.2.1 (by decide +kernel) (by decide +kernel)⟩

end Epx
