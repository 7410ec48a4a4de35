import Epx.FrameStream
import Epx.HostEnd
import Epx.Line
import Epx.Session.Integrity

/-!
# The client's end of a session

The frames of a session lie as bytes on the two streams between a `Line` and its host. As long as no
write fails and the reader does not leave, a step of the line is a step of the client of a session.
The reader leaves when it finds a REKEY_ACK before the ephemeral was stored, so that on a connection
that stays up it never does.

## Main definitions

* `Line.Carries` — the bytes are those of the frames of a session

## Main results

* `Line.Carries.step`
-/

namespace Epx

open Codec Transition

/-! ### What the reader does -/

namespace ClientSide

/-- One constructor for each way a step can go that has nothing to do with what is written. -/
inductive Effect (S : Sodium) (s : ClientSide) : ClientSide → Prop
  /-- A call goes on, or the reader with a callback or on its way out. -/
  | calls {b : ClientCalls.Act} {k : ClientCalls} : (Act.call b).submits = false →
      (∀ chunk, b ≠ .readChunk chunk) → s.calls.Step b k → Effect S s { s with calls := k }
  | read {f : RawFrame} {rest : Bytes} {k : ClientCalls} : s.conn.reader = .running →
      readFrame s.v2 s.input = some (f, rest) → told s.calls (heard S s.conn f) = some k →
      Effect S s { s with conn := s.conn.receive S f, calls := k, input := rest }
  | swapped {serverEph : Block 32} {b : Option ClientCalls.Act} {k : ClientCalls} :
      s.conn.reader = .ackOpened serverEph → b = none ∨ b = some .readFails →
      told s.calls b = some k →
      Effect S s { s with conn := s.conn.swapEph S serverEph, calls := k }
  | switched {eph : EphemeralKeyPair} {nk : SessionKeys} {now : ℕ} {k : ClientCalls} :
      s.conn.reader = .haveKeys eph nk → s.conn.writer = .free → s.calls.Step .readOther k →
      Effect S s { s with conn := s.conn.switchKeys eph nk now, calls := k }

theorem effect_of_step {S : Sodium} {s s' : ClientSide} {a : Act} (hquiet : a.submits = false)
    (h : Step S s a s') : Effect S s s' := by
  have hfun : step S s a = some s' := h
  cases a with
  | call b =>
    obtain ⟨hlooks, hfun⟩ := Option.ite_none_left_eq_some.mp hfun
    obtain ⟨k, hk, rfl⟩ := Option.map_eq_some_iff.mp hfun
    refine .calls hquiet ?_ hk
    rintro chunk rfl
    exact hlooks rfl
  | write b => cases hquiet
  | loop =>
    obtain ⟨-, hfun⟩ := Option.ite_none_right_eq_some.mp hfun
    obtain ⟨k, hk, rfl⟩ := Option.map_eq_some_iff.mp hfun
    exact .calls (b := .readerTop) rfl (by simp) hk
  | fails =>
    obtain ⟨-, hfun⟩ := Option.ite_none_right_eq_some.mp hfun
    obtain ⟨k, hk, rfl⟩ := Option.map_eq_some_iff.mp hfun
    exact .calls (b := .readFails) rfl (by simp) hk
  | read f =>
    obtain ⟨⟨-, hrunning⟩, hfun⟩ := Option.ite_none_right_eq_some.mp hfun
    cases hread : readFrame s.v2 s.input with
    | none =>
      rw [hread] at hfun
      cases hfun
    | some p =>
      obtain ⟨f', rest⟩ := p
      rw [hread] at hfun
      obtain ⟨rfl, hfun⟩ := Option.ite_none_right_eq_some.mp hfun
      obtain ⟨k, hk, rfl⟩ := Option.map_eq_some_iff.mp hfun
      exact .read hrunning hread hk
  | swapEph =>
    rw [step] at hfun
    split at hfun
    · next serverEph hreader =>
      split at hfun
      · obtain ⟨k, hk, rfl⟩ := Option.map_eq_some_iff.mp hfun
        exact .swapped hreader (Or.inr rfl) hk
      · cases hfun
        exact .swapped hreader (Or.inl rfl) rfl
    · cases hfun
  | switchKeys now =>
    rw [step] at hfun
    split at hfun
    · next eph nk hreader hwriter =>
      obtain ⟨k, hk, rfl⟩ := Option.map_eq_some_iff.mp hfun
      exact .switched hreader hwriter hk
    · cases hfun

end ClientSide

/-! ### What the senders write -/

namespace Connection

variable {S : Sodium} {c c' : Connection} {a : Act} {out : Option RawFrame}

/-- A frame that is written was sealed. -/
theorem sealed_of_effect (h : Effect S c a c' out) :
    ∀ f ∈ out, f.epoch = c.tx.epoch ∧ ∃ x ∈ c'.sealed, f = x.frame S c.v2 := by
  cases h with
  | @offered type plaintext now eph ok _ _ _ =>
    intro f hf
    cases ok with
    | false => cases hf
    | true =>
      cases hf
      exact ⟨rfl, _, List.mem_append_right _ (List.mem_singleton_self _), rfl⟩
  | @sendOwn type plaintext ok _ =>
    intro f hf
    cases ok with
    | false => cases hf
    | true =>
      cases hf
      exact ⟨rfl, _, List.mem_append_right _ (List.mem_singleton_self _), rfl⟩
  | ready _ _ _ | storeEph _ | setInProgress _ | skipped _ _ | refused _ _ _ | opened _ _ _
  | unsolicited _ _ | crashed _ _ _ | derived _ _ _ | switchKeys _ _ | quit _ =>
    simp

/-- Reading does not touch the senders. -/
theorem sealed_of_reads (hreads : a.writes = false) (h : Effect S c a c' out) :
    c'.writer = c.writer ∧ c'.sealed = c.sealed := by
  cases h with
  | ready _ _ _ | offered _ _ _ | storeEph _ | setInProgress _ | sendOwn _ => cases hreads
  | skipped _ _ | refused _ _ _ | opened _ _ _ | unsolicited _ _ | crashed _ _ _ | derived _ _ _
  | switchKeys _ _ | quit _ => exact ⟨rfl, rfl⟩

end Connection

/-! ### The two streams -/

namespace Line

/-- The client can go on: its reader has not left, and nothing was sealed whose length runs over. -/
structure Up (S : Sodium) (l : Line) : Prop where
  stays : ∀ unsolicited, l.side.conn.reader ≠ .exited unsolicited
  lasts : l.side.conn.reader ≠ .crashed
  carried : ∀ x ∈ l.side.conn.sealed,
    headerLen l.side.v2 + (x.frame S l.side.v2).body.length < 2 ^ 32

/-- The writes of a step succeed, and the ephemeral that it draws is a new one. -/
def Act.Succeeds (S : Sodium) (l : Line) : Act → Prop
  | .acquire _ now eph ok =>
    ok = true ∧ (l.side.conn.rekeyDue now = true → S.IsKxPair eph ∧
      eph.publicKey ∉ l.side.conn.drawn.map EphemeralKeyPair.publicKey)
  | .sendOwn ok => ok = true
  | _ => True

/-- The bytes on the streams are those of the frames of a session. -/
structure Carries (l : Line) (s : Session) : Prop where
  client : s.client = l.side.conn
  v2 : l.side.v2 = l.side.conn.v2
  toHost : l.toHost = s.toHost.flatMap (writeFrame l.side.v2)
  input : l.side.input = s.toClient.flatMap (writeFrame l.side.v2)
  out : ∀ f ∈ s.toHost, Carried l.side.v2 f
  back : ∀ f ∈ s.toClient, Carried l.side.v2 f

section

variable {S : Sodium} {l l' : Line} {s s' : Session} {st : LoopState} {a : Act}

/-- Only the calls and the records of the line change. -/
theorem Carries.congr (h : l.Carries s) (hv2 : l'.side.v2 = l.side.v2)
    (hconn : l'.side.conn = l.side.conn) (hinput : l'.side.input = l.side.input)
    (htoHost : l'.toHost = l.toHost) : l'.Carries s where
  client := by rw [hconn]; exact h.client
  v2 := by rw [hv2, hconn]; exact h.v2
  toHost := by rw [htoHost, hv2]; exact h.toHost
  input := by rw [hinput, hv2]; exact h.input
  out := by rw [hv2]; exact h.out
  back := by rw [hv2]; exact h.back

end

end Line

namespace Session

variable {S : Sodium} {s s' : Session} {st : LoopState} {a : Act}

/-- A step of the client. -/
theorem HostEnd.of_client (hS : S.AeadCorrect) (hkx : S.KxAgree) (h : s.HostEnd S st)
    (hstep : s.Step S a s') (hguard : s.OfferStored a) (hhost : s'.host = s.host) :
    s'.HostEnd S st where
  inv := h.inv.step hS hkx hstep hguard
  host := hhost.trans h.host
  running := h.running
  epoch := h.epoch
  flushed := h.flushed

/-- Before version 2 the client stays in epoch 0 too. -/
theorem HostEnd.client_epoch (h : s.HostEnd S st) (hv1 : s.client.v2 = false) :
    s.client.tx.epoch = 0 := by
  obtain ⟨-, ph, hph⟩ := h.inv
  have hidle : ph = .idle := by
    by_contra hne
    rw [hph.v2 hne] at hv1
    cases hv1
  subst hidle
  have hepoch : s.host.tx.epoch = s.client.tx.epoch := hph.epochs
  rw [← hepoch, h.host]
  refine h.epoch ?_
  rw [← h.host, hph.version]
  exact hv1

end Session

namespace Line

section

variable {S : Sodium} {l l' : Line} {s : Session} {st : LoopState} {a : Act}

/-- A sender takes a step and its write succeeds. -/
theorem Carries.sender (hS : S.AeadCorrect) (hkx : S.KxAgree) (h : l.Carries s)
    (hend : s.HostEnd S st) {b : Connection.Act} {p : Connection × Option RawFrame}
    (hb : l.side.conn.step S b = some p) (sa : Session.Act)
    (hsa : s.step S sa = s.clientStep S b) (hdraws : s.Draws S sa) (hswap : sa ≠ .swapEph)
    (hcarried : ∀ x ∈ p.1.sealed,
      headerLen l.side.v2 + (x.frame S l.side.v2).body.length < 2 ^ 32) :
    ∃ s', s'.HostEnd S st ∧ s'.host = s.host ∧ (l.withConn p).Carries s' := by
  have hv2 := Connection.v2_of_effect (Connection.effect_of_step S hb)
  rw [← h.client] at hb
  have hstep : s.Step S sa
      { s with client := p.1, toHost := s.toHost ++ p.2.toList } := by
    refine ⟨hdraws, ?_⟩
    rw [hsa, Session.clientStep, hb]
    rfl
  have hend' := hend.of_client hS hkx hstep (fun heq => absurd heq hswap) rfl
  refine ⟨_, hend', rfl, rfl, h.v2.trans hv2.symm, ?_, h.input, fun f hf => ?_, h.back⟩
  · change l.toHost ++ p.2.toList.flatMap (writeFrame l.side.v2) = _
    rw [List.flatMap_append, h.toHost]
    rfl
  · rcases List.mem_append.mp hf with hf | hf
    · exact h.out f hf
    · obtain ⟨hepoch, x, hx, rfl⟩ :=
        Connection.sealed_of_effect (Connection.effect_of_step S hb) f (Option.mem_toList.mp hf)
      have hsame : s.client.v2 = l.side.v2 := by rw [h.client, h.v2]
      refine ⟨?_, fun hv1 => ?_⟩
      · rw [hsame]
        exact hcarried x hx
      · rw [hepoch]
        exact hend.client_epoch (hsame.trans hv1)

/-- The reader takes the next frame of the session. -/
theorem Carries.read (hS : S.AeadCorrect) (hkx : S.KxAgree) (h : l.Carries s)
    (hend : s.HostEnd S st) {f : RawFrame} {rest : Bytes} {k : ClientCalls}
    (hrunning : l.side.conn.reader = .running)
    (hread : readFrame l.side.v2 l.side.input = some (f, rest)) :
    ∃ s', s'.HostEnd S st ∧ s'.host = s.host ∧ Carries { l with side := { l.side with
      conn := l.side.conn.receive S f, calls := k, input := rest } } s' := by
  rw [h.input] at hread
  obtain ⟨hcap, gs, hgs, hrest⟩ := frame_of_readFrame h.back hread
  have hreadable : Readable s.client.v2 f := by
    rw [Readable, h.client, ← h.v2]
    exact hcap
  have hsession : s.Step S .clientReceive
      { s with client := s.client.receive S f, toClient := gs } := by
    refine ⟨trivial, ?_⟩
    simp only [Session.step, hgs, if_pos hreadable]
    simp only [Session.clientStep, Connection.step, h.client, hrunning, Option.map_some,
      Option.toList_none, List.append_nil]
  refine ⟨_, hend.of_client hS hkx hsession (fun heq => by cases heq) rfl, rfl, ?_, ?_, h.toHost,
    hrest, h.out, fun g hg => h.back g ?_⟩
  · rw [h.client]
  · exact h.v2.trans (Connection.v2_of_effect (Connection.effect_receive S hrunning)).symm
  · rw [hgs]
    exact List.mem_cons_of_mem _ hg

/-- The reader swaps the ephemeral out. On a line that stays up no sender is about to store it. -/
theorem Carries.swapEph (hS : S.AeadCorrect) (hkx : S.KxAgree) (h : l.Carries s)
    (hend : s.HostEnd S st) {serverEph : PublicKey} {k : ClientCalls}
    (hreader : l.side.conn.reader = .ackOpened serverEph)
    (hstays : (l.side.conn.swapEph S serverEph).reader ≠ .exited true) :
    ∃ s', s'.HostEnd S st ∧ s'.host = s.host ∧ Carries { l with side := { l.side with
      conn := l.side.conn.swapEph S serverEph, calls := k } } s' := by
  have hwriter : l.side.conn.writer.offering = false := by
    cases hw : l.side.conn.writer with
    | free | ephStored _ _ | ready _ _ => rfl
    | rekeyWritten eph type plaintext =>
      -- the ephemeral is not stored yet, and the reader leaves
      have hinv : l.side.conn.Inv S := by
        rw [← h.client]
        exact hend.inv.client
      have hnone := (hinv.control.written eph type plaintext hw).1
      refine absurd ?_ hstays
      rw [Connection.swapEph, hnone]
  have hsession : s.Step S .swapEph { s with client := s.client.swapEph S serverEph } := by
    refine ⟨trivial, ?_⟩
    simp only [Session.step, Session.clientStep, Connection.step,
      h.client, hreader, Option.map_some, Option.toList_none, List.append_nil]
  refine ⟨_, hend.of_client hS hkx hsession (fun _ => by rw [h.client]; exact hwriter) rfl, rfl,
    ?_, ?_, h.toHost, h.input, h.out, h.back⟩
  · rw [h.client]
  · exact h.v2.trans (Connection.v2_of_effect (Connection.effect_swapEph S hreader)).symm

/-- **A step of the line is a step of the client of the session.** -/
theorem Carries.step (hS : S.AeadCorrect) (hkx : S.KxAgree) (h : l.Carries s)
    (hend : s.HostEnd S st) (hstep : Step S l a l') (hsucceeds : a.Succeeds S l) (hup : l'.Up S) :
    ∃ s', s'.HostEnd S st ∧ s'.host = s.host ∧ l'.Carries s' := by
  cases effect_of_step hstep with
  | asked _ | posted | opened | unsubscribed _ _ | told _ _ =>
    exact ⟨s, hend, rfl, h.congr rfl rfl rfl rfl⟩
  | @side b side hquiet hside =>
    cases ClientSide.effect_of_step hquiet hside with
    | calls _ _ _ => exact ⟨s, hend, rfl, h.congr rfl rfl rfl rfl⟩
    | read hrunning hread _ => exact h.read hS hkx hend hrunning hread
    | swapped hreader _ _ => exact h.swapEph hS hkx hend hreader (hup.stays true)
    | @switched eph nk now k hreader hwriter hk =>
      have hsession : s.Step S (.switchKeys now)
          { s with client := s.client.switchKeys eph nk now } := by
        refine ⟨trivial, ?_⟩
        simp only [Session.step, Session.clientStep, Connection.step,
          h.client, hreader, hwriter, Option.map_some, Option.toList_none, List.append_nil]
      refine ⟨_, hend.of_client hS hkx hsession (fun heq => by cases heq) rfl, rfl,
        ?_, h.v2, h.toHost, h.input, h.out, h.back⟩
      rw [h.client]
  | @acquired what now eph ok l₁ x p hsubmits hp =>
    obtain ⟨rfl, hdraws⟩ := hsucceeds
    rw [← h.client] at hdraws
    have hv2 : l₁.side.v2 = l.side.v2 := by rw [hsubmits.side_eq]
    have hcarried := hup.carried
    change ∀ y ∈ p.1.sealed, headerLen l₁.side.v2 + (y.frame S l₁.side.v2).body.length < 2 ^ 32
      at hcarried
    rw [hv2] at hcarried
    obtain ⟨s', hend', hhost, hcarries⟩ := h.sender hS hkx hend hp
      (.acquire x.frame.content.1 x.frame.content.2 now eph) rfl hdraws (by simp) hcarried
    have htoHost : (l₁.withConn p).toHost = (l.withConn p).toHost := by
      rw [withConn, withConn, hsubmits.toHost_eq, hv2]
    have hinput : l₁.side.input = l.side.input := by rw [hsubmits.side_eq]
    exact ⟨s', hend', hhost, hcarries.congr hv2 rfl hinput htoHost⟩
  | stored hp => exact h.sender hS hkx hend hp .storeEph rfl trivial (by simp) hup.carried
  | offered hp => exact h.sender hS hkx hend hp .setInProgress rfl trivial (by simp) hup.carried
  | @sent ok x p k hx hp hk =>
    subst hsucceeds
    obtain ⟨s', hend', hhost, hcarries⟩ :=
      h.sender hS hkx hend hp .sendOwn rfl trivial (by simp) hup.carried
    exact ⟨s', hend', hhost, hcarries.congr rfl rfl rfl rfl⟩

end

end Line

end Epx
