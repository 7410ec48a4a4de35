import Epx.HostLoop
import Epx.Session.Client

/-!
# What a peer's bytes can bring about

The error channel of the code is split. Most of what a peer can get wrong ends in a `nullopt` or a
`break`; but key derivation throws on a public key that libsodium does not accept, and the keystore
throws when it cannot prepare a directory. Neither `handle_connection` nor `reader_loop` catches,
and both are thread functions, so such an exception ends the process.

This module says exactly when each of the functions that read a peer's bytes returns: nothing else
throws, on any byte stream. Drawing a key pair does not fail, and the callbacks of the application
do not throw.

## Main definitions

* `readerLoop` — `reader_loop` of the client
* `HelloOk`, `RekeyOk`, `DecisionOk`, `LoopOk`, `ConnectionOk` — the conditions on the host's side
* `AckOk`, `RekeyAckOk`, `ReaderOk` — the conditions on the client's side

## Main results

* `returns_handleConnection`, `returns_clientHandshake`, `returns_readerLoop`
* `peer_input_returns_iff`
-/

namespace Epx

open Codec Exception

/-! ### The client's reader -/

/-- What one pass of `reader_loop` finds. Of what the sender threads do to the connection the reader
sees `alive` and `pending_eph` only. -/
structure ReaderPass where
  /-- `conn->alive.load()`. -/
  alive : Bool
  /-- What `eph.swap(conn->pending_eph)` takes. -/
  pendingEph : Option EphemeralKeyPair
  now : ℕ

section

variable (S : Sodium)

/-- One pass of `reader_loop` with the frame it has read. -/
def readerPass (env : ReaderPass) (c : Connection) (f : RawFrame) : Except Exn Connection :=
  match (c.receive S f).reader with
  | .ackOpened serverEph =>
    match env.pendingEph with
    | none => pure { c.receive S f with reader := .exited true } -- unsolicited ack
    | some eph => do
      let nk ← clientSessionKeys S eph serverEph
      pure ((c.receive S f).switchKeys eph nk env.now)
  | _ => pure (c.receive S f)

/-- `reader_loop`, over the frames that `read_frame` will give. -/
def readerLoop : Connection → List (RawFrame × ReaderPass) → Except Exn Connection
  | c, [] => pure c
  | c, (f, env) :: rest =>
    if env.alive = false ∨ c.reader ≠ .running then pure c
    else do
      let c ← readerPass S env c f
      readerLoop c rest

end

/-! ### The handshake -/

/-- The stream starts with a HELLO that passes every check before the trust decision. -/
structure PresentsHello (S : Sodium) (run : ServerRun) (stream : Bytes) (hello : HelloPayload) :
    Prop where
  frame : ∃ f rest, readFrame false stream = some (f, rest) ∧ f.type = .hello ∧
    decodeHello f.body = .accept hello
  version : hello.version = kProtocolVersion
  serviceName : hello.serviceName = run.serviceName
  negotiated : negotiateVersion run.myMax hello.maxVersion ≠ 0
  signature : helloSigOk S (negotiateVersion run.myMax hello.maxVersion) hello = true

section

variable {S : Sodium}

theorem returns_clientSessionKeys {eph : EphemeralKeyPair} {pk : Block 32} :
    Returns (clientSessionKeys S eph pk) ↔ S.kxClientSessionKeys eph pk ≠ none := by
  rw [clientSessionKeys]
  cases S.kxClientSessionKeys eph pk <;> simp

theorem returns_serverSessionKeys {eph : EphemeralKeyPair} {pk : Block 32} :
    Returns (serverSessionKeys S eph pk) ↔ S.kxServerSessionKeys eph pk ≠ none := by
  rw [serverSessionKeys]
  cases S.kxServerSessionKeys eph pk <;> simp

theorem returns_serverFinish {run : ServerRun} {a : ServerAnswer} {ackWritten : Bool} :
    Returns (serverFinish S run a ackWritten) ↔
      (a.trusted = true → ackWritten = true →
        S.kxServerSessionKeys run.ephemeral a.hello.ephemeralPubkey ≠ none) := by
  rw [serverFinish]
  rw [returns_ite (returns_pure _), returns_ite (returns_pure _), returns_bind_pure,
    returns_serverSessionKeys, Bool.not_eq_false, Bool.not_eq_false]
  exact forall_comm

/-- `server_handshake` from the decoded HELLO on. -/
def serverAfterHello (S : Sodium) (run : ServerRun) (trust : TrustFn) (ackWritten : Bool)
    (hello : HelloPayload) : Except Exn (Option HandshakeResult) := do
  match ← serverDecide S run trust hello with
  | none => pure none
  | some a => serverFinish S run a ackWritten

theorem returns_serverAfterHello {run : ServerRun} {trust : TrustFn} {hello : HelloPayload}
    {ackWritten : Bool} :
    Returns (serverAfterHello S run trust ackWritten hello) ↔
      (hello.version = kProtocolVersion → hello.serviceName = run.serviceName →
        negotiateVersion run.myMax hello.maxVersion ≠ 0 →
        helloSigOk S (negotiateVersion run.myMax hello.maxVersion) hello = true →
        Returns (trust hello.identityPubkey) ∧
        (trust hello.identityPubkey = .ok true → ackWritten = true →
          S.kxServerSessionKeys run.ephemeral hello.ephemeralPubkey ≠ none)) := by
  rw [serverAfterHello, serverDecide]
  by_cases hversion : hello.version = kProtocolVersion
  swap
  · rw [if_pos hversion]
    exact iff_of_true ⟨none, rfl⟩ fun h => absurd h hversion
  by_cases hname : hello.serviceName = run.serviceName
  swap
  · rw [if_neg (not_not.mpr hversion), if_pos hname]
    exact iff_of_true ⟨none, rfl⟩ fun _ h => absurd h hname
  rw [if_neg (not_not.mpr hversion), if_neg (not_not.mpr hname)]
  by_cases hneg : negotiateVersion run.myMax hello.maxVersion = 0
  · simp only [if_pos hneg]
    exact iff_of_true ⟨none, rfl⟩ fun _ _ h => absurd hneg h
  simp only [hversion, hname, ne_eq, hneg, not_false_eq_true, true_imp_iff]
  cases hsig : helloSigOk S (negotiateVersion run.myMax hello.maxVersion) hello with
  | false =>
    -- Without a signature the answer is a rejection.
    change Returns (serverFinish S run _ ackWritten) ↔ _
    rw [returns_serverFinish]
    simp
  | true =>
    cases htrust : trust hello.identityPubkey with
    | error e =>
      refine iff_of_false ?_ fun h => not_returns_error e (h rfl).1
      rintro ⟨_, h⟩
      cases h
    | ok trusted =>
      change Returns (serverFinish S run _ ackWritten) ↔ _
      rw [returns_serverFinish]
      simp

/-- Before a HELLO is decoded `server_handshake` only ever ends with `nullopt`. -/
theorem returns_serverHandshake_iff {run : ServerRun} {trust : TrustFn} {stream : Bytes}
    {ackWritten : Bool} :
    Returns (serverHandshake S run trust stream ackWritten) ↔
      ∀ f rest hello, readFrame false stream = some (f, rest) → f.type = .hello →
        decodeHello f.body = .accept hello →
        Returns (serverAfterHello S run trust ackWritten hello) := by
  unfold serverHandshake serverAnswer
  cases readFrame false stream with
  | none => exact iff_of_true ⟨none, rfl⟩ fun _ _ _ h => by cases h
  | some p =>
    obtain ⟨f, rest⟩ := p
    simp only [Option.map_some, Option.some.injEq, Prod.mk.injEq]
    by_cases htype : f.type = .hello
    swap
    · rw [if_pos htype]
      refine iff_of_true ⟨none, rfl⟩ ?_
      rintro _ _ _ ⟨rfl, -⟩ h
      exact absurd h htype
    rw [if_neg (not_not.mpr htype)]
    cases hdec : decodeHello f.body with
    | oob | reject =>
      refine iff_of_true ⟨none, rfl⟩ ?_
      rintro _ _ _ ⟨rfl, -⟩ - h
      rw [hdec] at h
      cases h
    | accept hello =>
      constructor
      · rintro h _ _ _ ⟨rfl, -⟩ - heq
        rw [hdec] at heq
        cases heq
        exact h
      · intro h
        exact h f rest hello ⟨rfl, rfl⟩ htype hdec

/-- **`server_handshake` returns** exactly when the trust decision does and the peer's ephemeral is
acceptable, for the one HELLO that gets so far. -/
theorem returns_serverHandshake {run : ServerRun} {trust : TrustFn} {stream : Bytes}
    {ackWritten : Bool} :
    Returns (serverHandshake S run trust stream ackWritten) ↔
      ∀ hello, PresentsHello S run stream hello →
        Returns (trust hello.identityPubkey) ∧
        (trust hello.identityPubkey = .ok true → ackWritten = true →
          S.kxServerSessionKeys run.ephemeral hello.ephemeralPubkey ≠ none) := by
  rw [returns_serverHandshake_iff]
  constructor
  · intro h hello hpresents
    obtain ⟨f, rest, hread, htype, hdec⟩ := hpresents.frame
    exact returns_serverAfterHello.mp (h f rest hello hread htype hdec) hpresents.version
      hpresents.serviceName hpresents.negotiated hpresents.signature
  · intro h f rest hello hread htype hdec
    refine returns_serverAfterHello.mpr fun hversion hname hneg hsig => ?_
    exact h hello ⟨⟨f, rest, hread, htype, hdec⟩, hversion, hname, hneg, hsig⟩

end

/-! ### The host's loop -/

section

variable (S : Sodium) (cfg : HostConfig)

/-- A REKEY that is opened, below the last epoch, carries an acceptable ephemeral. -/
def RekeyOk (env : Pass) (st : LoopState) (f : RawFrame) : Prop :=
  f.type = .rekey → st.conn.v2 = true → ∀ (clientEph : Block 32) rx,
    openChecked S st.conn.v2 st.conn.rx f = some (clientEph.val, rx) → st.conn.tx.epoch < 255 →
    S.kxServerSessionKeys env.eph clientEph ≠ none

/-- Where the user's answer to a prompt is to be kept, the directory for it can be prepared. -/
def DecisionOk (env : Pass) (st : LoopState) (f : RawFrame) : Prop :=
  ∀ endpoint policy, Asks S cfg env st f endpoint policy →
    SavesDecision env.view st.peer endpoint policy st.authzCache → env.view.authzDir = .ok ()

/-- Both conditions, in every pass that is made. -/
def LoopOk : LoopState → List (RawFrame × Pass) → Prop
  | _, [] => True
  | st, (f, env) :: rest =>
    env.running = true → RekeyOk S env st f ∧ DecisionOk S cfg env st f ∧
      ∀ st', pass S cfg env st f = .ok (.next st') → LoopOk st' rest

end

section

variable {S : Sodium} {cfg : HostConfig} {env : Pass} {st : LoopState} {f : RawFrame}

theorem returns_handleRekey (hf : f.type = .rekey) :
    Returns (handleRekey S env st f) ↔ RekeyOk S env st f := by
  rw [handleRekey, RekeyOk]
  rw [returns_ite (returns_pure _), Bool.not_eq_false]
  simp only [hf, true_imp_iff]
  refine forall_congr' fun _ => ?_
  cases openChecked S st.conn.v2 st.conn.rx f with
  | none => simp
  | some p =>
    obtain ⟨opened, rx⟩ := p
    simp only [Option.some.injEq, Prod.mk.injEq]
    by_cases hlen : opened.length = 32
    swap
    · rw [dif_neg hlen]
      refine iff_of_true (returns_pure _) ?_
      rintro clientEph rx' ⟨rfl, rfl⟩
      exact absurd clientEph.length_val hlen
    rw [dif_pos hlen, returns_ite (returns_pure _), returns_bind_pure, returns_serverSessionKeys]
    constructor
    · rintro h clientEph rx' ⟨rfl, rfl⟩ hepoch
      exact h (UInt8.not_le.mpr hepoch)
    · intro h hepoch
      exact h ⟨opened, hlen⟩ rx ⟨rfl, rfl⟩ (UInt8.not_le.mp hepoch)

theorem returns_dispatch {req : RequestPayload} :
    Returns (dispatch S cfg env st req) ↔
      (req.endpoint ≠ kUnsubscribeEndpoint → ∀ entry,
        env.handlers.lookup req.endpoint = some entry →
        SavesDecision env.view st.peer req.endpoint (cfg.accessOf entry) st.authzCache →
        env.view.authzDir = .ok ()) := by
  rw [dispatch]
  rw [returns_ite (returns_pure _)]
  refine forall_congr' fun _ => ?_
  cases env.handlers.lookup req.endpoint with
  | none => simp
  | some entry =>
    rw [returns_bind_pure, returns_authorize]
    simp

theorem returns_handleRequest (hf : f.type = .request) :
    Returns (handleRequest S cfg env st f) ↔ DecisionOk S cfg env st f := by
  -- The request is authorized once it is opened, decoded and within its rate.
  have hdispatch : Returns (handleRequest S cfg env st f) ↔ ∀ opened rx req,
      openChecked S st.conn.v2 st.conn.rx f = some (opened, rx) →
      decodeRequest opened = .accept req → saturated cfg env st.delayedInARow = false →
      Returns (dispatch S cfg env (rateLimit cfg env (st.accept f opened rx)) req) := by
    rw [handleRequest]
    cases openChecked S st.conn.v2 st.conn.rx f with
    | none => simp
    | some p =>
      obtain ⟨opened, rx⟩ := p
      simp only
      cases hdec : decodeRequest opened with
      | oob | reject =>
        refine iff_of_true (returns_pure _) ?_
        rintro _ _ _ ⟨⟩ hreq
        rw [hdec] at hreq
        cases hreq
      | accept req =>
        simp only
        rw [returns_ite (returns_pure _), returns_bind_pure, Bool.not_eq_true]
        constructor
        · rintro h _ _ _ ⟨⟩ hreq
          rw [hdec] at hreq
          cases hreq
          exact h
        · intro h
          exact h opened rx req rfl hdec
  rw [hdispatch]
  constructor
  · rintro h endpoint policy (⟨htype, -⟩ | ⟨-, ho, hdec, hrate, hun, hentry⟩)
    · rw [hf] at htype
      cases htype
    · exact returns_dispatch.mp (h _ _ _ ho hdec hrate) hun _ hentry
  · intro h opened rx req ho hdec hrate
    refine returns_dispatch.mpr fun hun entry hentry => ?_
    exact h _ _ (.request hf ho hdec hrate hun hentry)

theorem returns_handleChunk (hf : f.type = .streamChunk) :
    Returns (handleChunk S cfg env st f) ↔ DecisionOk S cfg env st f := by
  have hauthorize : Returns (handleChunk S cfg env st f) ↔ ∀ opened rx chunk entry,
      openChecked S st.conn.v2 st.conn.rx f = some (opened, rx) →
      decodeStreamChunk opened = .accept chunk →
      (env.handlers.lookup chunk.endpoint).filter (fun e => e.kind = .streamReceive) = some entry →
      Returns (authorize cfg.serviceName env.view st.peer chunk.endpoint (cfg.accessOf entry)
        st.authzCache) := by
    rw [handleChunk]
    cases openChecked S st.conn.v2 st.conn.rx f with
    | none => simp
    | some p =>
      obtain ⟨opened, rx⟩ := p
      simp only
      cases hdec : decodeStreamChunk opened with
      | oob | reject =>
        refine iff_of_true (returns_pure _) ?_
        rintro _ _ _ _ ⟨⟩ hchunk
        rw [hdec] at hchunk
        cases hchunk
      | accept chunk =>
        simp only
        cases hentry : (env.handlers.lookup chunk.endpoint).filter
            fun e => e.kind = .streamReceive with
        | none =>
          refine iff_of_true (returns_pure _) ?_
          rintro _ _ _ _ ⟨⟩ hchunk h
          rw [hdec] at hchunk
          cases hchunk
          rw [hentry] at h
          cases h
        | some entry =>
          refine Iff.trans returns_bind_pure ?_
          constructor
          · rintro h _ _ _ _ ⟨⟩ hchunk hentry'
            rw [hdec] at hchunk
            cases hchunk
            rw [hentry] at hentry'
            cases hentry'
            exact h
          · intro h
            exact h opened rx chunk entry rfl hdec hentry
  rw [hauthorize]
  constructor
  · rintro h endpoint policy (⟨-, ho, hdec, hentry⟩ | ⟨htype, -⟩)
    · exact returns_authorize.mp (h _ _ _ _ ho hdec hentry)
    · rw [hf] at htype
      cases htype
  · intro h opened rx chunk entry ho hdec hentry
    exact returns_authorize.mpr (h _ _ (.chunk hf ho hdec hentry))

/-- A frame of another type asks for nothing. -/
theorem decisionOk_of_ne (hchunk : f.type ≠ .streamChunk) (hrequest : f.type ≠ .request) :
    DecisionOk S cfg env st f := by
  rintro endpoint policy (⟨htype, -⟩ | ⟨htype, -⟩)
  · exact absurd htype hchunk
  · exact absurd htype hrequest

theorem rekeyOk_of_ne (hf : f.type ≠ .rekey) : RekeyOk S env st f := fun h => absurd h hf

/-- **A pass returns** exactly when the key it derives from and the decision it keeps allow it. -/
theorem returns_pass :
    Returns (pass S cfg env st f) ↔ RekeyOk S env st f ∧ DecisionOk S cfg env st f := by
  -- Whether other threads could write makes no difference to either condition.
  have hdecision :
    ∀ alive, DecisionOk S cfg env { st with conn := { st.conn with alive := alive } } f ↔
      DecisionOk S cfg env st f := by
    intro alive
    simp only [DecisionOk, asks_alive_iff]
  rw [pass]
  by_cases hrekey : f.type = .rekey
  · simp only
      [hrekey, show FrameType.rekey ≠ .ping by decide, show FrameType.rekey ≠ .pong by decide,
      show FrameType.rekey ≠ .bye by decide, if_false, if_true]
    refine (returns_handleRekey hrekey).trans (and_iff_left ?_).symm
    exact decisionOk_of_ne (by rw [hrekey]; decide) (by rw [hrekey]; decide)
  rw [and_iff_right (rekeyOk_of_ne hrekey)]
  by_cases hchunk : f.type = .streamChunk
  · simp only [hchunk, show FrameType.streamChunk ≠ .ping by decide,
      show FrameType.streamChunk ≠ .pong by decide, show FrameType.streamChunk ≠ .bye by decide,
      show FrameType.streamChunk ≠ .rekey by decide, if_false, if_true]
    exact (returns_handleChunk hchunk).trans (hdecision _)
  by_cases hrequest : f.type = .request
  · simp only [hrequest, show FrameType.request ≠ .ping by decide,
      show FrameType.request ≠ .pong by decide, show FrameType.request ≠ .bye by decide,
      show FrameType.request ≠ .rekey by decide, show FrameType.request ≠ .streamChunk by decide,
      if_false, if_true]
    exact (returns_handleRequest hrequest).trans (hdecision _)
  refine iff_of_true ?_ (decisionOk_of_ne hchunk hrequest)
  simp only [hrekey, hchunk, hrequest, if_false]
  repeat' split
  all_goals exact returns_pure _

/-- **The loop returns** exactly when every pass does. -/
theorem returns_frameLoop {passes : List (RawFrame × Pass)} :
    Returns (frameLoop S cfg st passes) ↔ LoopOk S cfg st passes := by
  induction passes generalizing st with
  | nil => simp [frameLoop, LoopOk]
  | cons p rest ih =>
    obtain ⟨f, env⟩ := p
    rw [frameLoop, LoopOk]
    cases hrun : env.running with
    | false => simp
    | true =>
      simp only [Bool.true_eq_false, if_false, true_imp_iff]
      rw [returns_bind, returns_pass, and_assoc]
      refine and_congr_right fun _ => and_congr_right fun _ => ?_
      constructor
      · intro h st' hst'
        exact ih.mp (h _ hst')
      · intro h o ho
        cases o with
        | next st' => exact ih.mpr (h st' ho)
        | stop st' => exact returns_pure _

end

/-! ### A connection to the host -/

section

variable (S : Sodium) (cfg : HostConfig) (run : ServerRun) (acc : Accept)

/-- A HELLO that passes its checks is of a client that can be recorded, if it is new, and carries an
acceptable ephemeral, if it is trusted. -/
def HelloOk (stream : Bytes) : Prop :=
  ∀ hello, PresentsHello S run stream hello →
    (Records cfg.policy acc.view hello.identityPubkey → acc.view.knownClientsDir = .ok ()) ∧
    (Trusts cfg.policy acc.view hello.identityPubkey → acc.ackWritten = true →
      S.kxServerSessionKeys run.ephemeral hello.ephemeralPubkey ≠ none)

/-- The condition for the whole connection: for its HELLO, and for every frame of its session. -/
def ConnectionOk (envs : ℕ → Pass) (stream : Bytes) : Prop :=
  acc.admitted = true → HelloOk S cfg run acc stream ∧
    ∀ hs, serverHandshake S run (hostTrustFn cfg.policy acc.view) stream acc.ackWritten
        = .ok (some hs) →
      LoopOk S cfg (.start cfg run acc hs)
        (withPasses envs (readFrames (hs.version ≥ 2) (afterHello stream)))

end

section

variable {S : Sodium} {cfg : HostConfig} {run : ServerRun} {acc : Accept} {stream : Bytes}

theorem returns_serverHandshake_host :
    Returns (serverHandshake S run (hostTrustFn cfg.policy acc.view) stream acc.ackWritten) ↔
      HelloOk S cfg run acc stream := by
  rw [returns_serverHandshake]
  refine forall_congr' fun hello => forall_congr' fun _ => ?_
  rw [← returns_hostTrustFn]
  refine and_congr_right fun htrust => ?_
  rw [hostTrustFn_eq_true htrust]

/-- **`handle_connection` returns** exactly under its condition. -/
theorem returns_handleConnection {envs : ℕ → Pass} :
    Returns (handleConnection S cfg run acc envs stream) ↔
      ConnectionOk S cfg run acc envs stream := by
  rw [handleConnection, ConnectionOk]
  cases hadmitted : acc.admitted with
  | false => simp
  | true =>
    simp only [Bool.true_eq_false, if_false, true_imp_iff]
    rw [returns_bind, returns_serverHandshake_host]
    refine and_congr_right fun _ => ?_
    constructor
    · intro h hs hhs
      exact returns_frameLoop.mp (returns_bind_pure.mp (h _ hhs))
    · intro h o ho
      cases o with
      | none => exact returns_pure _
      | some hs => exact returns_bind_pure.mpr (returns_frameLoop.mpr (h hs ho))

end

/-! ### The client's handshake -/

/-- The stream starts with a HELLO_ACK that passes every check before the key derivation. -/
structure PresentsAck (S : Sodium) (c : ClientRun) (trust : TrustFn) (stream : Bytes)
    (ack : HelloAckPayload) : Prop where
  frame : ∃ f rest, readFrame false stream = some (f, rest) ∧ f.type = .helloAck ∧
    decodeHelloAck f.body = .accept ack
  passes : AckPasses S c trust ack
  signatureV2 : negotiateVersion c.myMax ack.maxVersion ≥ 2 →
    ackSigOkV2 S c.self.publicKey (negotiateVersion c.myMax ack.maxVersion) ack = true

/-- A HELLO_ACK that passes its checks carries an acceptable ephemeral. -/
def AckOk (S : Sodium) (c : ClientRun) (trust : TrustFn) (helloWritten : Bool) (stream : Bytes) :
    Prop :=
  helloWritten = true → ∀ ack, PresentsAck S c trust stream ack →
    S.kxClientSessionKeys c.ephemeral ack.ephemeralPubkey ≠ none

section

variable {S : Sodium} {c : ClientRun} {trust : TrustFn} {stream : Bytes}

theorem returns_clientAccept_of_passes {ack : HelloAckPayload} (h : AckPasses S c trust ack)
    (hv : negotiateVersion c.myMax ack.maxVersion ≥ 2 →
      ackSigOkV2 S c.self.publicKey (negotiateVersion c.myMax ack.maxVersion) ack = true) :
    Returns (clientAccept S c trust ack) ↔
      S.kxClientSessionKeys c.ephemeral ack.ephemeralPubkey ≠ none := by
  rw [clientAccept_of_passes h hv, returns_map, returns_clientSessionKeys]

/-- **`client_handshake` returns** exactly when the ephemeral of an ack that passes is
acceptable. -/
theorem returns_clientHandshake (htotal : ∀ pk, ∃ b, trust pk = .ok b) {helloWritten : Bool} :
    Returns (clientHandshake S c trust helloWritten stream) ↔
      AckOk S c trust helloWritten stream := by
  rw [clientHandshake, AckOk]
  cases helloWritten with
  | false => simp
  | true =>
    simp only [Bool.true_eq_false, if_false, true_imp_iff]
    cases hread : readFrame false stream with
    | none =>
      refine iff_of_true (returns_pure _) fun ack h => ?_
      obtain ⟨f, rest, hf, -⟩ := h.frame
      rw [hread] at hf
      cases hf
    | some p =>
      obtain ⟨f, rest⟩ := p
      -- An ack that is presented is the one in this frame, and decides the outcome.
      have hkey : ∀ ack, PresentsAck S c trust stream ack →
          (Returns (clientFinish S c trust (some f)) ↔
            S.kxClientSessionKeys c.ephemeral ack.ephemeralPubkey ≠ none) := by
        intro ack h
        obtain ⟨g, rest', hg, htype, hdec⟩ := h.frame
        rw [hread] at hg
        cases hg
        rw [show clientFinish S c trust (some f) = clientAccept S c trust ack by
          simp [clientFinish, htype, hdec]]
        exact returns_clientAccept_of_passes h.passes h.signatureV2
      rw [Option.map_some]
      constructor
      · intro h ack hack
        exact (hkey ack hack).mp h
      · intro h
        rcases clientFinish_cases (S := S) (c := c) htotal f with
          hnone | ⟨htype, ack, hdec, hpass, hv⟩
        · exact ⟨none, hnone⟩
        · have hack : PresentsAck S c trust stream ack := ⟨⟨f, rest, hread, htype, hdec⟩, hpass, hv⟩
          exact (hkey ack hack).mpr (h ack hack)

end

/-! ### The client's loop -/

section

variable (S : Sodium)

/-- A REKEY_ACK that is opened, with an offer pending, carries an acceptable ephemeral. -/
def RekeyAckOk (env : ReaderPass) (c : Connection) (f : RawFrame) : Prop :=
  f.type = .rekeyAck → ∀ (serverEph : Block 32) rx,
    openChecked S c.v2 c.rx f = some (serverEph.val, rx) → ∀ eph, env.pendingEph = some eph →
    S.kxClientSessionKeys eph serverEph ≠ none

/-- The same in every pass that is made. -/
def ReaderOk : Connection → List (RawFrame × ReaderPass) → Prop
  | _, [] => True
  | c, (f, env) :: rest =>
    env.alive = true → c.reader = .running → RekeyAckOk S env c f ∧
      ∀ c', readerPass S env c f = .ok c' → ReaderOk c' rest

end

section

variable {S : Sodium} {c : Connection} {f : RawFrame} {env : ReaderPass}

/-- The reader has an ephemeral to derive keys from after a REKEY_ACK that it could open. -/
theorem receive_eq_ackOpened (hrun : c.reader = .running) {serverEph : Block 32} :
    (c.receive S f).reader = .ackOpened serverEph ↔
      f.type = .rekeyAck ∧ ∃ rx, openChecked S c.v2 c.rx f = some (serverEph.val, rx) := by
  constructor
  · intro h
    cases hopens : Connection.opens f.type with
    | false =>
      rw [Connection.receive_skipped S hopens, hrun] at h
      cases h
    | true =>
      cases ho : openChecked S c.v2 c.rx f with
      | none =>
        rw [Connection.receive, if_pos hopens, ho] at h
        cases h
      | some p =>
        obtain ⟨o, rx⟩ := p
        rw [Connection.receive_opened S hopens ho] at h
        obtain ⟨htype, rfl⟩ := Connection.afterOpen_eq_ackOpened.mp h
        exact ⟨htype, rx, rfl⟩
  · rintro ⟨htype, rx, ho⟩
    have hopens : Connection.opens f.type = true := by rw [htype]; decide
    rw [Connection.receive_opened S hopens ho]
    exact Connection.afterOpen_eq_ackOpened.mpr ⟨htype, rfl⟩

/-- **A pass of the reader returns** exactly when the key it derives from allows it. -/
theorem returns_readerPass (hrun : c.reader = .running) :
    Returns (readerPass S env c f) ↔ RekeyAckOk S env c f := by
  have hok : RekeyAckOk S env c f ↔ ∀ serverEph, (c.receive S f).reader = .ackOpened serverEph →
      ∀ eph, env.pendingEph = some eph → S.kxClientSessionKeys eph serverEph ≠ none := by
    constructor
    · intro h serverEph hr
      obtain ⟨htype, rx, ho⟩ := (receive_eq_ackOpened hrun).mp hr
      exact h htype serverEph rx ho
    · intro h htype serverEph rx ho
      exact h serverEph ((receive_eq_ackOpened hrun).mpr ⟨htype, rx, ho⟩)
  rw [hok]
  rw [readerPass]
  cases hr : (c.receive S f).reader with
  | running | haveKeys _ _ | exited _ | crashed => simp
  | ackOpened serverEph =>
    cases heph : env.pendingEph with
    | none => simp
    | some eph =>
      simp only
      rw [returns_bind_pure, returns_clientSessionKeys]
      simp

/-- **The reader's loop returns** exactly when every pass does. -/
theorem returns_readerLoop {passes : List (RawFrame × ReaderPass)} :
    Returns (readerLoop S c passes) ↔ ReaderOk S c passes := by
  induction passes generalizing c with
  | nil => simp [readerLoop, ReaderOk]
  | cons p rest ih =>
    obtain ⟨f, env⟩ := p
    rw [readerLoop, ReaderOk]
    by_cases halive : env.alive = true
    swap
    · rw [if_pos (Or.inl (Bool.not_eq_true _ ▸ halive))]
      exact iff_of_true (returns_pure _) fun h => absurd h halive
    by_cases hrun : c.reader = .running
    swap
    · rw [if_pos (Or.inr hrun)]
      exact iff_of_true (returns_pure _) fun _ h => absurd h hrun
    rw [if_neg (by simp [halive, hrun]), returns_bind, returns_readerPass hrun]
    simp only [halive, hrun, true_imp_iff]
    refine and_congr_right fun _ => forall_congr' fun c' => forall_congr' fun _ => ?_
    exact ih

end

/-! ### Every byte stream -/

/-- **What a peer's bytes can bring about.** On every byte stream, `handle_connection` of the host,
`client_handshake` and `reader_loop` of the client return normally exactly when each ephemeral that
the peer gets as far as a key derivation is acceptable, and the keystore can be prepared wherever
the host writes to it. -/
theorem peer_input_returns_iff (S : Sodium) :
    (∀ cfg run acc envs stream,
      Returns (handleConnection S cfg run acc envs stream) ↔
        ConnectionOk S cfg run acc envs stream) ∧
    (∀ c policy allowedPeers pinned entry helloWritten stream,
      Returns (clientHandshake S c (clientTrustFn policy allowedPeers pinned entry) helloWritten
          stream) ↔
        AckOk S c (clientTrustFn policy allowedPeers pinned entry) helloWritten stream) ∧
    (∀ (c : Connection) envs stream,
      Returns (readerLoop S c (withPasses envs (readFrames c.v2 stream))) ↔
        ReaderOk S c (withPasses envs (readFrames c.v2 stream))) :=
  ⟨fun _ _ _ _ _ => returns_handleConnection,
    fun _ _ _ _ _ _ _ => returns_clientHandshake fun _ => ⟨_, rfl⟩,
    fun _ _ _ => returns_readerLoop⟩

/-! ### A signed HELLO with the zero point -/

namespace ZeroEphemeral

/-- A client that sends the all-zero ephemeral; its signatures are in order. -/
def clientRun : ClientRun :=
  { self := ⟨Block.fill 32 1, Block.fill 64 1⟩, target := [115], myMax := 2
    ephemeral := ⟨Block.zero 32, Block.zero 32⟩, clientNonce := Block.fill 16 3 }

def sodium : Sodium :=
  .symbolic
    [(Block.fill 32 1, helloSignedBytes (Block.zero 32) (Block.fill 16 3) [115]),
      (Block.fill 32 1, helloSignedBytesV2 2 (Block.fill 32 1) (Block.zero 32) (Block.fill 16 3)
        [115])]

def serverRun : ServerRun :=
  { self := ⟨Block.fill 32 4, Block.fill 64 4⟩, serviceName := [115], myMax := 2
    ephemeral := ⟨Block.fill 32 5, Block.fill 32 5⟩, serverNonce := Block.fill 16 6 }

/-- A keystore that is empty and can be written. -/
def view : HostView :=
  { allowedPeers := [], issuers := [], creds := [], now := 0, prompt := none
    isKnownClient := fun _ => false, loadAuthzDecision := fun _ _ => none
    knownClientsDir := .ok (), authzDir := .ok () }

def accept : Accept := { admitted := true, peerUid := 0, view := view, ackWritten := true }

/-- What the passes would find; the loop is not reached. -/
def idle : Pass :=
  { running := true, othersAlive := true, view := view, handlers := [], topics := [], token := true
    eph := serverRun.ephemeral, wrote := fun _ => true, unary := fun _ _ => ⟨true, [], []⟩
    streamSend := fun _ _ => [] }

end ZeroEphemeral

open ZeroEphemeral

/-- The exception of `server_session_keys` leaves `handle_connection`. -/
theorem zero_ephemeral_escapes :
    handleConnection sodium { serviceName := [115], policy := .trustOnFirstUse } serverRun accept
        (fun _ => idle) (writeFrame false (clientRun.helloFrame sodium))
      = .error (.runtimeError "crypto_kx_server_session_keys failed (suspicious peer key)") ∧
    ¬ Returns (handleConnection sodium { serviceName := [115], policy := .trustOnFirstUse }
        serverRun accept (fun _ => idle) (writeFrame false (clientRun.helloFrame sodium))) := by
  have hthrows : handleConnection sodium { serviceName := [115], policy := .trustOnFirstUse }
      serverRun accept (fun _ => idle) (writeFrame false (clientRun.helloFrame sodium))
      = .error (.runtimeError "crypto_kx_server_session_keys failed (suspicious peer key)") := by
    decide +kernel
  refine ⟨hthrows, ?_⟩
  rw [hthrows]
  exact not_returns_error _

end Epx
