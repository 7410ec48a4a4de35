import Epx.Session.Client
import Epx.Session.Host
import Epx.Session.Receiver
import Epx.Lib.Transition

/-!
# Record-layer integrity

The two sides of a session with an attacker for a network: each side is given whatever frames the
attacker likes, and what it writes goes to the attacker. The attacker does not hold session keys, so
a frame that opens under a key of its receiver was sealed under that key by one of the two sides
(`Ideal`), and the two directions have different keys.

The counter is in the associated data and so is the epoch, so an accepted frame is the next of its
epoch. Where an epoch is left, the two directions differ. The host writes nothing in an epoch after
its REKEY_ACK, and the client moves on only after it has accepted that, so the client has accepted a
prefix of all that the host sealed. The client goes on sending in an epoch after its REKEY until the
answer reaches it, and the host, once it has answered, takes the first frame of the next epoch
whatever came before: frames that the client sealed after its REKEY can be cut out.

## Main definitions

* `Duplex`, `Duplex.Step` — both sides, with any frames read
* `Ideal`, `Duplex.Secure` — the attacker holds no session key
* `HostConn.AckLast` — a REKEY_ACK is the last frame of its epoch

## Main results

* `Duplex.Inv.step`
* `record_integrity`
-/

namespace Epx

open Codec Log Transition

/-! ### What a step seals -/

namespace Connection

variable {S : Sodium} {c c' : Connection} {a : Act} {out : Option RawFrame}

theorem v2_of_effect (heff : Effect S c a c' out) : c'.v2 = c.v2 := by
  cases heff <;> rfl

theorem sealed_mono (heff : Effect S c a c' out) : c.sealed <+: c'.sealed := by
  cases heff with
  | offered _ _ _ | sendOwn _ => exact List.prefix_append _ _
  | ready _ _ _ | storeEph _ | setInProgress _ | skipped _ _ | refused _ _ _ | opened _ _ _
  | unsolicited _ _ | crashed _ _ _ | derived _ _ _ | switchKeys _ _ | quit _ =>
    exact List.prefix_refl _

/-- A v1 session does not rotate. -/
def Unrotated (c : Connection) : Prop :=
  c.v2 = false → c.tx.epoch = 0 ∧ ∀ eph, ¬ c.Outstanding eph

theorem Unrotated.step (h : c.Unrotated) (heff : Effect S c a c' out) : c'.Unrotated := by
  intro hv
  rw [v2_of_effect heff] at hv
  obtain ⟨hepoch, hno⟩ := h hv
  cases heff with
  | ready _ _ _ =>
    refine ⟨hepoch, ?_⟩
    rintro eph (⟨_, _, hw⟩ | hout)
    · cases hw
    · exact hno eph (Or.inr hout)
  | offered _ _ hdue =>
    rw [(lt_of_rekeyDue hdue).1] at hv
    cases hv
  | storeEph hw => exact absurd (Or.inl ⟨_, _, hw⟩) (hno _)
  | setInProgress hw | sendOwn hw =>
    refine ⟨hepoch, ?_⟩
    rintro eph (⟨_, _, hw'⟩ | hout)
    · cases hw'
    · exact hno eph (Or.inr hout)
  | skipped _ _ => exact ⟨hepoch, hno⟩
  | refused _ _ _ | unsolicited _ _ | quit _ =>
    refine ⟨hepoch, ?_⟩
    rintro eph (hw | hsome | ⟨_, hr⟩)
    · exact hno eph (Or.inl hw)
    · exact hno eph (Or.inr (Or.inl hsome))
    · cases hr
  | opened _ _ _ =>
    refine ⟨hepoch, ?_⟩
    rintro eph (hw | hsome | ⟨_, hr⟩)
    · exact hno eph (Or.inl hw)
    · exact hno eph (Or.inr (Or.inl hsome))
    · exact absurd hr afterOpen_ne_haveKeys
  | crashed _ hp _ | derived _ hp _ => exact absurd (Or.inr (Or.inl hp)) (hno _)
  | switchKeys hr _ => exact absurd (Or.inr (Or.inr ⟨_, hr⟩)) (hno _)

/-- The reader is in the middle of a frame only when that is a REKEY_ACK. -/
theorem afterOpen_midFrame {type : FrameType} {o : Bytes} (h : (afterOpen type o).midFrame = true) :
    type = .rekeyAck := by
  rcases afterOpen_cases type o with hr | hr | ⟨htype, -⟩
  · rw [hr] at h
    cases h
  · rw [hr] at h
    cases h
  · exact htype

end Connection

namespace HostConn

variable {S : Sodium} {h h' : HostConn} {a : Act} {out : Option RawFrame}

theorem v2_of_effect (heff : Effect S h a h' out) : h'.v2 = h.v2 := by
  cases heff <;> rfl

theorem sealed_mono (heff : Effect S h a h' out) : h.sealed <+: h'.sealed := by
  cases heff with
  | sent _ _ | ackFailed _ _ | switched _ _ => exact List.prefix_append _ _
  | dead _ | pinged _ | ponged _ _ | broke _ _ | skipped _ _ _ _ | refused _ _ _ | opened _ _ _
  | ackDead _ _ | quit _ | shutdown _ => exact List.prefix_refl _

/-- A v1 session does not rotate. -/
theorem Inv.unrotated_step (hinv : h.Inv S) (hzero : h.v2 = false → h.tx.epoch = 0)
    (heff : Effect S h a h' out) : h'.v2 = false → h'.tx.epoch = 0 := by
  intro hv
  rw [v2_of_effect heff] at hv
  cases heff with
  | switched hr _ =>
    rw [(hinv.switching _ _ hr).v2] at hv
    cases hv
  | _ => exact hzero hv

/-- A REKEY_ACK is the last frame that is sealed in its epoch. -/
structure AckLast (h : HostConn) : Prop where
  last : ∀ e, ∀ x ∈ (segment SealCall.epoch h.sealed e).dropLast, x.type ≠ .rekeyAck
  current : h.alive = true → ∀ x ∈ segment SealCall.epoch h.sealed h.tx.epoch, x.type ≠ .rekeyAck

theorem AckLast.last_snoc (hlast : h.AckLast) (halive : h.alive = true) (type : FrameType)
    (plaintext : Bytes) (e : UInt8) :
    ∀ x ∈ (segment SealCall.epoch (h.sealed ++ [h.tx.call type plaintext]) e).dropLast,
      x.type ≠ .rekeyAck := by
  by_cases he : h.tx.epoch = e
  · subst he
    have hself : segment SealCall.epoch (h.sealed ++ [h.tx.call type plaintext]) h.tx.epoch
        = segment SealCall.epoch h.sealed h.tx.epoch ++ [h.tx.call type plaintext] :=
      segment_snoc_self
    rw [hself, List.dropLast_concat]
    exact hlast.current halive
  · rw [segment_snoc_of_ne (show (h.tx.call type plaintext).epoch ≠ e from he)]
    exact hlast.last e

theorem AckLast.step (hlast : h.AckLast) (hinv : h.Inv S) (heff : Effect S h a h' out) :
    h'.AckLast := by
  cases heff with
  | @sent type plaintext ok halive htype =>
    refine ⟨hlast.last_snoc halive type plaintext, fun _ x hx => ?_⟩
    have hself : segment SealCall.epoch (h.sealed ++ [h.tx.call type plaintext]) h.tx.epoch
        = segment SealCall.epoch h.sealed h.tx.epoch ++ [h.tx.call type plaintext] :=
      segment_snoc_self
    rw [show h.tx.bump.epoch = h.tx.epoch from rfl, hself] at hx
    rcases List.mem_append.mp hx with hx | hx
    · exact hlast.current halive x hx
    · rw [List.mem_singleton.mp hx]
      change type ≠ .rekeyAck
      obtain rfl | rfl | rfl := htype <;> decide
  | pinged halive => exact ⟨hlast.last, fun _ => hlast.current halive⟩
  | ackFailed _ halive => exact ⟨hlast.last_snoc halive _ _, fun hdead => (by cases hdead)⟩
  | @switched eph nk hr halive =>
    refine ⟨hlast.last_snoc halive _ _, fun _ x hx => ?_⟩
    have hsealed := hinv.sender_seal halive .rekeyAck eph.publicKey.val h.tx.counter
    have hempty := List.eq_nil_of_length_eq_zero
      (hsealed.count_next (hinv.switching eph nk hr).epoch)
    exact absurd (hempty ▸ hx) List.not_mem_nil
  | shutdown _ => exact ⟨hlast.last, fun hdead => (by cases hdead)⟩
  | dead _ | ponged _ _ | broke _ _ | skipped _ _ _ _ | refused _ _ _ | opened _ _ _ | ackDead _ _
  | quit _ => exact ⟨hlast.last, hlast.current⟩

/-- The loop is in the middle of a frame only when that is a REKEY. -/
theorem afterOpen_midFrame {type : FrameType} {o : Bytes} {eph : EphemeralKeyPair}
    (hmid : (h.afterOpen S type o eph).midFrame = true) : type = .rekey := by
  generalize hr : h.afterOpen S type o eph = r at hmid
  cases r with
  | rekeyDerived _ _ => exact (afterOpen_eq_rekeyDerived hr).1
  | running | exited | crashed => cases hmid

end HostConn

/-! ### The attacker -/

/-- The keys that `open_checked` may use next. -/
def RxState.keys (rx : RxState) : List (Block 32) := rx.key :: rx.pending.toList

/-- An ideal AEAD under the given keys: whatever opens was sealed under the same key, nonce and
associated data. The log has each call with the session version of the side that made it. -/
def Ideal (S : Sodium) (log : List (Bool × SealCall)) (keys : List (Block 32)) (body : Bytes) :
    Prop :=
  ∀ key ∈ keys, ∀ counter ad plaintext, openImpl S key counter ad body = some plaintext →
    ∃ v2 x, (v2, x) ∈ log ∧ x.key = key ∧ x.counter = counter ∧
      frameAd v2 x.type x.counter x.epoch = ad ∧ x.plaintext = plaintext

/-- Both ends of a session, with the network left to the attacker. -/
structure Duplex where
  client : Connection
  host : HostConn

namespace Duplex

/-- A session right after a handshake that gave the client `keys`; the two sides may have ended it
with different versions. -/
def start (clientEph hostEph : EphemeralKeyPair) (keys : SessionKeys)
    (clientIdentity hostIdentity : PublicKey) (clientVersion hostVersion : UInt8)
    (rotation : RotationPolicy) (now : ℕ) : Duplex :=
  { client := .start clientEph ⟨keys, hostIdentity, clientVersion⟩ rotation now
    host := .start hostEph ⟨⟨keys.tx, keys.rx⟩, clientIdentity, hostVersion⟩ }

inductive Act where
  | client (a : Connection.Act)
  | host (a : HostConn.Act)

/-- One side makes a step of its own. -/
def Step (S : Sodium) (s : Duplex) : Act → Duplex → Prop
  | .client a, s' => s.client.Step S a s'.client ∧ s'.host = s.host
  | .host a, s' => s.host.Step S a s'.host ∧ s'.client = s.client

/-- Everything that either side has sealed. -/
def log (s : Duplex) : List (Bool × SealCall) :=
  s.client.sealed.map (fun x => (s.client.v2, x)) ++ s.host.sealed.map fun x => (s.host.v2, x)

/-- The attacker holds no key of the receiver it gives a frame to, and that receiver's keys are not
those it seals with itself. -/
def Secure (S : Sodium) (s : Duplex) : Act → Prop
  | .client (.receive f) =>
    Ideal S s.log s.client.rx.keys f.body ∧ ∀ x ∈ s.client.sealed, x.key ∉ s.client.rx.keys
  | .host (.receive f _ _) =>
    Ideal S s.log s.host.rx.keys f.body ∧ ∀ x ∈ s.host.sealed, x.key ∉ s.host.rx.keys
  | _ => True

/-- What opens was sealed by this side under the same key, or by the other side. -/
def FromPeer (S : Sodium) (keys : List (Block 32)) (body : Bytes) (own : List SealCall) (v2 : Bool)
    (peer : List SealCall) : Prop :=
  ∀ key ∈ keys, ∀ counter ad plaintext, openImpl S key counter ad body = some plaintext →
    (∃ x ∈ own, x.key = key) ∨ ∃ x ∈ peer, x.counter = counter ∧
      frameAd v2 x.type x.counter x.epoch = ad ∧ x.plaintext = plaintext

section

variable {S : Sodium} {s : Duplex} {keys : List (Block 32)} {body : Bytes}

theorem mem_log {v2 : Bool} {x : SealCall} (h : (v2, x) ∈ s.log) :
    (v2 = s.client.v2 ∧ x ∈ s.client.sealed) ∨ (v2 = s.host.v2 ∧ x ∈ s.host.sealed) := by
  rcases List.mem_append.mp h with h | h
  all_goals
    obtain ⟨y, hy, heq⟩ := List.mem_map.mp h
    cases heq
  · exact Or.inl ⟨rfl, hy⟩
  · exact Or.inr ⟨rfl, hy⟩

theorem ideal_client (h : Ideal S s.log keys body) :
    FromPeer S keys body s.client.sealed s.host.v2 s.host.sealed := by
  intro key hkey counter ad plaintext hopen
  obtain ⟨v2, x, hlog, hk, hc, had, hplain⟩ := h key hkey counter ad plaintext hopen
  obtain ⟨rfl, hx⟩ | ⟨rfl, hx⟩ := mem_log hlog
  · exact Or.inl ⟨x, hx, hk⟩
  · exact Or.inr ⟨x, hx, hc, had, hplain⟩

theorem ideal_host (h : Ideal S s.log keys body) :
    FromPeer S keys body s.host.sealed s.client.v2 s.client.sealed := by
  intro key hkey counter ad plaintext hopen
  obtain ⟨v2, x, hlog, hk, hc, had, hplain⟩ := h key hkey counter ad plaintext hopen
  obtain ⟨rfl, hx⟩ | ⟨rfl, hx⟩ := mem_log hlog
  · exact Or.inr ⟨x, hx, hc, had, hplain⟩
  · exact Or.inl ⟨x, hx, hk⟩

end

end Duplex

/-- **An accepted frame was sealed by the peer**, in a session of the same version, with the type
and plaintext it is accepted with: the next of the current epoch, or the first of the next one. -/
theorem exists_sealed_of_openChecked {S : Sodium} {v2 v2' : Bool} {rx rx' : RxState} {f : RawFrame}
    {o : Bytes} {own peer : List SealCall}
    (hfrom : Duplex.FromPeer S rx.keys f.body own v2' peer)
    (hown : ∀ x ∈ own, x.key ∉ rx.keys) (ho : openChecked S v2 rx f = some (o, rx')) :
    v2' = v2 ∧ ∃ x ∈ peer, x.type = f.type ∧ x.plaintext = o ∧
      ((x.counter = rx.counter ∧ (v2 = true → x.epoch = rx.epoch) ∧ rx' = rx.bump) ∨
        (x.counter = 0 ∧ x.epoch = rx.epoch + 1 ∧ ∃ key, rx.pending = some key ∧
          rx' = rx.advance key)) := by
  have hpeer : ∀ key ∈ rx.keys, ∀ counter ad plaintext,
      openImpl S key counter ad f.body = some plaintext →
      ∃ x ∈ peer, x.counter = counter ∧ frameAd v2' x.type x.counter x.epoch = ad ∧
        x.plaintext = plaintext := by
    intro key hkey counter ad plaintext hopen
    refine (hfrom key hkey counter ad plaintext hopen).resolve_left ?_
    rintro ⟨x, hx, rfl⟩
    exact hown x hx hkey
  rcases openChecked_eq_some ho with ⟨hc, he, hopen, rfl⟩ | ⟨hv, hc, he, key, hp, hopen, rfl⟩
  · obtain ⟨x, hx, hxc, had, hplain⟩ := hpeer _ (by simp [RxState.keys]) _ _ _ hopen
    obtain ⟨hver, htype, -, hepoch⟩ := frameAd_inj had
    refine ⟨hver, x, hx, htype, hplain, Or.inl ⟨hxc.trans hc, fun hv => ?_, rfl⟩⟩
    rw [← he hv]
    exact hepoch (hver.trans hv)
  · obtain ⟨x, hx, hxc, had, hplain⟩ := hpeer key (by simp [RxState.keys, hp]) _ _ _ hopen
    obtain ⟨hver, htype, -, hepoch⟩ := frameAd_inj had
    exact ⟨hver, x, hx, htype, hplain,
      Or.inr ⟨hxc, (hepoch (hver.trans hv)).trans he, key, hp, rfl⟩⟩

/-- **A receiver goes on following** the sender of what it accepts. -/
theorem Follows.opened {t : FrameType} {sealed : List SealCall} {opened : List Opened}
    {rx rx' : RxState} {v2 : Bool} {x : SealCall} (h : Follows t sealed opened rx)
    (hn : Numbered SealCall.epoch SealCall.counter UInt64.ofNat sealed)
    (hbound : ∀ e, (segment SealCall.epoch sealed e).length < 2 ^ 64) (hx : x ∈ sealed)
    (hv1 : v2 = false → x.epoch = rx.epoch) (hlt : rx.pending ≠ none → rx.epoch < 255)
    (hnext : (x.counter = rx.counter ∧ (v2 = true → x.epoch = rx.epoch) ∧ rx' = rx.bump) ∨
      (x.counter = 0 ∧ x.epoch = rx.epoch + 1 ∧ ∃ key, rx.pending = some key ∧
        rx' = rx.advance key)) :
    Follows t sealed (opened ++ [⟨rx'.epoch, x.type, x.plaintext⟩]) rx' := by
  obtain ⟨hc, he, rfl⟩ | ⟨hc, he, key, hp, rfl⟩ := hnext
  · have hepoch : x.epoch = rx.epoch := by
      cases v2 with
      | false => exact hv1 rfl
      | true => exact he rfl
    have hacc := h.accept hn hbound hx hepoch hc
    rwa [show x.asOpened = ⟨rx.bump.epoch, x.type, x.plaintext⟩ from by
      rw [SealCall.asOpened, hepoch, RxState.bump_epoch]] at hacc
  · have hpending : rx.pending ≠ none := by
      rw [hp]
      simp
    have hacc := h.advance hn hbound hx he hc hpending (hlt hpending) key
    rwa [show x.asOpened = ⟨(rx.advance key).epoch, x.type, x.plaintext⟩ from by
      rw [SealCall.asOpened, he]
      rfl] at hacc

/-! ### The invariant -/

namespace Duplex

/-- The invariant of a session under attack. -/
structure Inv (S : Sodium) (s : Duplex) : Prop where
  client : s.client.Inv S
  host : s.host.Inv S
  clientV1 : s.client.Unrotated
  hostV1 : s.host.v2 = false → s.host.tx.epoch = 0
  ackLast : s.host.AckLast
  toHost : Follows .rekey s.client.sealed s.host.opened s.host.rx
  toClient : Follows .rekeyAck s.host.sealed s.client.opened s.client.rx
  hostReader : s.host.reader.midFrame = true → Accepted .rekey s.host.opened s.host.rx.epoch
  clientReader : s.client.reader.midFrame = true →
    Accepted .rekeyAck s.client.opened s.client.rx.epoch
  differ : s.client.v2 ≠ s.host.v2 → s.client.opened = [] ∧ s.host.opened = []

/-- Neither side has sealed more frames in an epoch than the counter can number. -/
structure Bounded (s : Duplex) : Prop where
  client : ∀ epoch, s.client.sender.count epoch < 2 ^ 64
  host : ∀ epoch, s.host.sender.count epoch < 2 ^ 64

section

variable {S : Sodium} {s : Duplex}

/-- Frames of a v1 session are all of epoch 0. -/
theorem Inv.epoch_of_v1 (h : s.Inv S) (heq : s.client.v2 = s.host.v2) (hv : s.host.v2 = false) :
    s.client.rx.epoch = 0 ∧ s.host.rx.epoch = 0 ∧ (∀ x ∈ s.client.sealed, x.epoch = 0) ∧
      ∀ x ∈ s.host.sealed, x.epoch = 0 := by
  have hle : ∀ {e e' : UInt8}, e ≤ e' → e' = 0 → e = 0 := by
    rintro e _ hle rfl
    exact UInt8.le_antisymm hle UInt8.zero_le
  have hc := (h.clientV1 (heq.trans hv)).1
  have hh := h.hostV1 hv
  exact ⟨hle h.client.rx_le hc, hle h.host.rx_le hh,
    fun x hx => hle (h.client.sender.epoch_le x hx) hc,
    fun x hx => hle (h.host.sender.epoch_le x hx) hh⟩

theorem lt_max_of_lt {e e' : UInt8} (h : e < e') : e < 255 := by
  have hlt : e.toNat < e'.toNat := h
  have := e'.toNat_lt
  change e.toNat < 255
  omega

/-- What the client's reader does keeps it following the host. -/
theorem Inv.client_reads (h : s.Inv S) (hbound : s.Bounded) {a : Connection.Act} {c : Connection}
    {out : Option RawFrame} (heff : Connection.Effect S s.client a c out)
    (hsecure : s.Secure S (.client a)) :
    Follows .rekeyAck s.host.sealed c.opened c.rx ∧
    (c.reader.midFrame = true → Accepted .rekeyAck c.opened c.rx.epoch) ∧
    (s.client.v2 ≠ s.host.v2 → c.opened = []) := by
  have hdiffer : s.client.v2 ≠ s.host.v2 → s.client.opened = [] := fun hne => (h.differ hne).1
  cases heff with
  | @opened f o rx' hr hopens ho =>
    obtain ⟨hver, x, hx, htype, hplain, hnext⟩ :=
      exists_sealed_of_openChecked (ideal_client hsecure.1) hsecure.2 ho
    refine ⟨?_, fun hmid => ?_, fun hne => absurd hver.symm hne⟩
    · rw [← htype, ← hplain]
      refine h.toClient.opened h.host.sender.numbered hbound.host hx (fun hv => ?_)
        (fun hp => lt_max_of_lt (h.client.rx_lt hp)) hnext
      obtain ⟨hrx, -, -, hsealed⟩ := h.epoch_of_v1 hver.symm (hver.trans hv)
      rw [hrx, hsealed x hx]
    · exact ⟨_, List.mem_append_right _ (List.mem_singleton_self _), rfl,
        Connection.afterOpen_midFrame hmid⟩
  | derived hr _ _ => exact ⟨h.toClient, fun _ => h.clientReader (by rw [hr]; rfl), hdiffer⟩
  | switchKeys hr _ =>
    exact ⟨h.toClient.arm (h.clientReader (by rw [hr]; rfl)) _, fun hmid => (by cases hmid),
      hdiffer⟩
  | refused _ _ _ | unsolicited _ _ | crashed _ _ _ | quit _ =>
    exact ⟨h.toClient, fun hmid => (by cases hmid), hdiffer⟩
  | ready _ _ _ | offered _ _ _ | storeEph _ | setInProgress _ | sendOwn _ | skipped _ _ =>
    exact ⟨h.toClient, h.clientReader, hdiffer⟩

/-- What the loop of the host does keeps it following the client. -/
theorem Inv.host_reads (h : s.Inv S) (hbound : s.Bounded) {a : HostConn.Act} {g : HostConn}
    {out : Option RawFrame} (heff : HostConn.Effect S s.host a g out)
    (hsecure : s.Secure S (.host a)) :
    Follows .rekey s.client.sealed g.opened g.rx ∧
    (g.reader.midFrame = true → Accepted .rekey g.opened g.rx.epoch) ∧
    (s.client.v2 ≠ s.host.v2 → g.opened = []) := by
  have hdiffer : s.client.v2 ≠ s.host.v2 → s.host.opened = [] := fun hne => (h.differ hne).2
  cases heff with
  | @opened f eph ok o rx' hr hopens ho =>
    obtain ⟨hver, x, hx, htype, hplain, hnext⟩ :=
      exists_sealed_of_openChecked (ideal_host hsecure.1) hsecure.2 ho
    refine ⟨?_, fun hmid => ?_, fun hne => absurd hver hne⟩
    · rw [← htype, ← hplain]
      refine h.toHost.opened h.client.sender.numbered hbound.client hx (fun hv => ?_)
        (fun hp => lt_max_of_lt (h.host.rx_lt hp)) hnext
      obtain ⟨-, hrx, hsealed, -⟩ := h.epoch_of_v1 hver hv
      rw [hrx, hsealed x hx]
    · exact ⟨_, List.mem_append_right _ (List.mem_singleton_self _), rfl,
        HostConn.afterOpen_midFrame hmid⟩
  | switched hr _ =>
    exact ⟨h.toHost.arm (h.hostReader (by rw [hr]; rfl)) _, fun hmid => (by cases hmid), hdiffer⟩
  | broke _ _ | refused _ _ _ | ackDead _ _ | ackFailed _ _ | quit _ =>
    exact ⟨h.toHost, fun hmid => (by cases hmid), hdiffer⟩
  | dead _ | sent _ _ | pinged _ | ponged _ _ | skipped _ _ _ _ | shutdown _ =>
    exact ⟨h.toHost, h.hostReader, hdiffer⟩

/-- **Every step keeps the invariant**, whatever the attacker delivers. -/
theorem Inv.step (h : s.Inv S) (hbound : s.Bounded) {a : Act} {s' : Duplex}
    (hstep : s.Step S a s') (hsecure : s.Secure S a) : s'.Inv S := by
  cases a with
  | client a =>
    obtain ⟨⟨hdraws, out, hc⟩, hhost⟩ := hstep
    obtain ⟨c, g⟩ := s'
    dsimp only at hhost hc
    subst hhost
    have heff := Connection.effect_of_step S hc
    obtain ⟨hto, hreader, hdiffer⟩ := h.client_reads hbound heff hsecure
    refine ⟨h.client.step heff hdraws, h.host, h.clientV1.step heff, h.hostV1, h.ackLast,
      h.toHost.mono (Connection.sealed_mono heff), hto, h.hostReader, hreader, fun hne => ?_⟩
    rw [Connection.v2_of_effect heff] at hne
    exact ⟨hdiffer hne, (h.differ hne).2⟩
  | host a =>
    obtain ⟨⟨hdraws, out, hg⟩, hclient⟩ := hstep
    obtain ⟨c, g⟩ := s'
    dsimp only at hclient hg
    subst hclient
    have heff := HostConn.effect_of_step S hg
    obtain ⟨hto, hreader, hdiffer⟩ := h.host_reads hbound heff hsecure
    refine ⟨h.client, h.host.step heff hdraws, h.clientV1, h.host.unrotated_step h.hostV1 heff,
      h.ackLast.step h.host heff, hto, h.toClient.mono (HostConn.sealed_mono heff), hreader,
      h.clientReader, fun hne => ?_⟩
    rw [HostConn.v2_of_effect heff] at hne
    exact ⟨(h.differ hne).1, hdiffer hne⟩

/-- What was within bounds after a step was so before it. -/
theorem Bounded.of_step {a : Act} {s' : Duplex} (h : s'.Bounded) (hstep : s.Step S a s') :
    s.Bounded := by
  have hcount : ∀ {p q : Sender}, p.sealed <+: q.sealed → ∀ e, p.count e ≤ q.count e :=
    fun hle e => (segment_mono hle e).length_le
  cases a with
  | client a =>
    obtain ⟨⟨-, out, hc⟩, hhost⟩ := hstep
    have hle := Connection.sealed_mono (Connection.effect_of_step S hc)
    exact ⟨fun e => (hcount hle e).trans_lt (h.client e), by simpa [hhost] using h.host⟩
  | host a =>
    obtain ⟨⟨-, out, hg⟩, hclient⟩ := hstep
    have hle := HostConn.sealed_mono (HostConn.effect_of_step S hg)
    exact ⟨by simpa [hclient] using h.client, fun e => (hcount hle e).trans_lt (h.host e)⟩

theorem inv_of_run {acts : List Act} {s' : Duplex}
    (hrun : Run (Guarded (Step S) (Secure S)) s acts s') (h : s.Inv S) (hbound : s'.Bounded) :
    s'.Inv S := by
  refine hrun.preserves (I := fun t => t.Bounded → t.Inv S) (fun _ => h) ?_ hbound
  intro t a t' hinv hstep hb
  have hb' := hb.of_step hstep.1
  exact (hinv hb').step hb' hstep.1 hstep.2

theorem inv_start {clientEph hostEph : EphemeralKeyPair} {keys : SessionKeys}
    {clientIdentity hostIdentity : PublicKey} {clientVersion hostVersion : UInt8}
    {rotation : RotationPolicy} {now : ℕ} (hclient : S.IsKxPair clientEph)
    (hhost : S.IsKxPair hostEph)
    (hclientKeys : S.kxClientSessionKeys clientEph hostEph.publicKey = some keys)
    (hhostKeys : S.kxServerSessionKeys hostEph clientEph.publicKey = some ⟨keys.tx, keys.rx⟩) :
    (start clientEph hostEph keys clientIdentity hostIdentity clientVersion hostVersion rotation
      now).Inv S where
  client := Connection.inv_start hclient hclientKeys
  host := HostConn.inv_start hhost hhostKeys
  clientV1 := fun _ => ⟨rfl, by simp [start, Connection.start, Connection.Outstanding]⟩
  hostV1 := fun _ => rfl
  ackLast := ⟨by simp [start, HostConn.start], by simp [start, HostConn.start]⟩
  toHost := Follows.start _
  toClient := Follows.start _
  hostReader := fun hmid => by cases hmid
  clientReader := fun hmid => by cases hmid
  differ := fun _ => ⟨rfl, rfl⟩

end

end Duplex

/-- **Record-layer integrity.** Whatever the attacker delivers: what the client accepts is a prefix
of what the host sealed; what the host accepts is, in each epoch, a prefix of what the client sealed
in that epoch, the epochs follow one another in order, and in every epoch that the host has left it
has accepted a REKEY, so that only frames sealed after it can be missing; before the host leaves the
first epoch that is a prefix of all the client sealed. Where the two sides have different versions,
neither accepts anything. -/
theorem record_integrity (S : Sodium) (clientEph hostEph : EphemeralKeyPair) (keys : SessionKeys)
    (clientIdentity hostIdentity : PublicKey) (clientVersion hostVersion : UInt8)
    (rotation : RotationPolicy) (now : ℕ) (hclient : S.IsKxPair clientEph)
    (hhost : S.IsKxPair hostEph)
    (hclientKeys : S.kxClientSessionKeys clientEph hostEph.publicKey = some keys)
    (hhostKeys : S.kxServerSessionKeys hostEph clientEph.publicKey = some ⟨keys.tx, keys.rx⟩)
    (acts : List Duplex.Act) (s : Duplex)
    (hrun : Run (Guarded (Duplex.Step S) (Duplex.Secure S))
      (.start clientEph hostEph keys clientIdentity hostIdentity clientVersion hostVersion rotation
        now) acts s)
    (hbound : s.Bounded) :
    s.client.opened.map Opened.content <+: s.host.sealed.map SealCall.content ∧
    (∀ e, (segment Opened.epoch s.host.opened e).map Opened.content
      <+: (segment SealCall.epoch s.client.sealed e).map SealCall.content) ∧
    (s.host.opened.Pairwise fun x y => x.epoch ≤ y.epoch) ∧
    (s.client.sealed.Pairwise fun x y => x.epoch ≤ y.epoch) ∧
    (∀ e < s.host.rx.epoch, Accepted .rekey s.host.opened e) ∧
    (s.host.rx.epoch = 0 →
      s.host.opened.map Opened.content <+: s.client.sealed.map SealCall.content) ∧
    (s.client.v2 ≠ s.host.v2 → s.client.opened = [] ∧ s.host.opened = []) := by
  have hinv := Duplex.inv_of_run hrun (Duplex.inv_start hclient hhost hclientKeys hhostKeys) hbound
  -- Contents are read off the records that accepting leaves.
  have hcontent : ∀ {opened : List Opened} {sealed : List SealCall},
      opened <+: sealed.map SealCall.asOpened →
      opened.map Opened.content <+: sealed.map SealCall.content := by
    intro opened sealed hle
    have hmap := hle.map Opened.content
    rwa [List.map_map] at hmap
  refine ⟨hcontent (hinv.toClient.prefix_of_last hinv.host.sender.sorted hinv.ackLast.last),
    fun e => hcontent (hinv.toHost.segments e), hinv.toHost.sorted, hinv.client.sender.sorted,
    hinv.toHost.left, fun hzero => ?_, hinv.differ⟩
  exact hcontent (hinv.toHost.prefix_of_epoch_zero hinv.client.sender.sorted hzero)

/-! ### Cutting out the frames after a REKEY -/

namespace CutSession

def ephemeral (b : UInt8) : EphemeralKeyPair := ⟨Block.fill 32 b, Block.fill 32 b⟩

def request (b : UInt8) : Bytes := encodeRequest { requestId := 1, data := [b] }

/-- The client's REKEY and the request after it, the host's answer, and a request under the new
keys. -/
def calls : List SealCall :=
  [⟨Block.fill 32 1, 0, 0, .rekey, (ephemeral 3).publicKey.val⟩,
    ⟨Block.fill 32 1, 0, 1, .request, request 7⟩,
    ⟨Block.fill 32 2, 0, 0, .rekeyAck, (ephemeral 4).publicKey.val⟩,
    ⟨Block.fill 32 3, 1, 0, .request, request 8⟩]

/-- Key, nonce, associated data and plaintext of a call in a v2 session. -/
def entry (x : SealCall) : Block 32 × Block 24 × Bytes × Bytes :=
  (x.key, makeNonce x.counter, frameAd true x.type x.counter x.epoch, x.plaintext)

def tag (e : Block 32 × Block 24 × Bytes × Bytes) : Bytes :=
  List.replicate aeadTagBytes (UInt8.ofNat ((calls.map entry).idxOf e))

/-- The symbolic libsodium with an AEAD that authenticates these calls and no others. -/
def sodium : Sodium :=
  { Sodium.symbolic [] with
    aeadEncrypt := fun key nonce ad pt => pt ++ tag (key, nonce, ad, pt)
    aeadDecrypt := fun key nonce ad ct =>
      let pt := ct.take (ct.length - aeadTagBytes)
      if (key, nonce, ad, pt) ∈ calls.map entry ∧ ct = pt ++ tag (key, nonce, ad, pt) then some pt
      else none }

instance : DecidablePred sodium.IsKxPair := fun e =>
  inferInstanceAs (Decidable (e.secretKey = e.publicKey ∧ e.publicKey ≠ Block.zero 32))

def session : Duplex :=
  .start (ephemeral 1) (ephemeral 2) ⟨Block.fill 32 2, Block.fill 32 1⟩ (Block.fill 32 8)
    (Block.fill 32 9) 2 2 { interval := 1 } 0

/-- The attacker delivers the first, the third and the last frame. -/
def acts : List Duplex.Act :=
  [.client (.acquire .request (request 7) 5 (ephemeral 3) true), .client .storeEph,
    .client .setInProgress, .client (.sendOwn true),
    .host (.receive (calls[0].frame sodium true) (ephemeral 4) true), .host (.ackAndSwitch true),
    .client (.receive (calls[2].frame sodium true)), .client .swapEph, .client (.switchKeys 5),
    .client (.acquire .request (request 8) 5 (ephemeral 5) true), .client (.sendOwn true),
    .host (.receive (calls[3].frame sodium true) (ephemeral 5) true)]

theorem makeNonce_injective {c c' : UInt64} (h : makeNonce c = makeNonce c') : c = c' := by
  have hval := congrArg Block.val h
  exact putU64_injective (List.append_inj hval (by simp [length_putU64])).1

/-- No call that opens to something is missing from the log. -/
def Logged (log : List (Bool × SealCall)) (keys : List (Block 32)) (body : Bytes) : Prop :=
  ∀ x ∈ calls, x.key ∈ keys → body = (x.frame sodium true).body → (true, x) ∈ log

theorem ideal_of_logged {log : List (Bool × SealCall)} {keys : List (Block 32)} {body : Bytes}
    (h : Logged log keys body) : Ideal sodium log keys body := by
  intro key hkey counter ad plaintext hopen
  rw [openImpl] at hopen
  by_cases hlen : body.length < aeadTagBytes
  · rw [if_pos hlen] at hopen
    cases hopen
  rw [if_neg hlen] at hopen
  simp only [sodium] at hopen
  split at hopen
  · next hmem =>
    cases hopen
    obtain ⟨x, hx, heq⟩ := List.mem_map.mp hmem.1
    obtain ⟨hk, hnonce, had, hplain⟩ : x.key = key ∧ makeNonce x.counter = makeNonce counter ∧
        frameAd true x.type x.counter x.epoch = ad ∧ x.plaintext = _ := by
      simpa [entry] using heq
    refine ⟨true, x, h x hx (hk ▸ hkey) ?_, hk, makeNonce_injective hnonce, had, hplain⟩
    rw [hmem.2, ← heq, ← hplain]
    rfl
  · cases hopen

instance (log : List (Bool × SealCall)) (keys : List (Block 32)) (body : Bytes) :
    Decidable (Logged log keys body) :=
  inferInstanceAs (Decidable (∀ x ∈ calls, _))

/-- A check that is enough for a step to be secure. -/
def secureCheck (s : Duplex) : Duplex.Act → Bool
  | .client (.receive f) =>
    Logged s.log s.client.rx.keys f.body ∧ ∀ x ∈ s.client.sealed, x.key ∉ s.client.rx.keys
  | .host (.receive f _ _) =>
    Logged s.log s.host.rx.keys f.body ∧ ∀ x ∈ s.host.sealed, x.key ∉ s.host.rx.keys
  | _ => true

/-- A computed step. -/
def secureStep (s : Duplex) (a : Duplex.Act) : Option Duplex :=
  if secureCheck s a then
    match a with
    | .client a => (s.client.tryStep sodium a).map fun c => { s with client := c }
    | .host a => (s.host.tryStep sodium a).map fun g => { s with host := g }
  else none

theorem secure_of_check {s : Duplex} {a : Duplex.Act} (h : secureCheck s a = true) :
    s.Secure sodium a := by
  cases a with
  | client a =>
    cases a with
    | receive f =>
      obtain ⟨hlogged, hown⟩ := of_decide_eq_true h
      exact ⟨ideal_of_logged hlogged, hown⟩
    | _ => trivial
  | host a =>
    cases a with
    | receive f eph ok =>
      obtain ⟨hlogged, hown⟩ := of_decide_eq_true h
      exact ⟨ideal_of_logged hlogged, hown⟩
    | _ => trivial

theorem guarded_of_secureStep {s s' : Duplex} {a : Duplex.Act} (h : secureStep s a = some s') :
    Guarded (Duplex.Step sodium) (Duplex.Secure sodium) s a s' := by
  unfold secureStep at h
  by_cases hcheck : secureCheck s a = true
  swap
  · rw [if_neg hcheck] at h
    cases h
  rw [if_pos hcheck] at h
  refine ⟨?_, secure_of_check hcheck⟩
  cases a with
  | client a =>
    obtain ⟨c, hc, rfl⟩ := Option.map_eq_some_iff.mp h
    exact ⟨Connection.step_of_tryStep sodium hc, rfl⟩
  | host a =>
    obtain ⟨g, hg, rfl⟩ := Option.map_eq_some_iff.mp h
    exact ⟨HostConn.step_of_tryStep sodium hg, rfl⟩

def sessionEnd : Option Duplex := exec secureStep session acts

theorem sessionEnd_isSome : sessionEnd.isSome = true := by decide +kernel

theorem session_run : Run (Guarded (Duplex.Step sodium) (Duplex.Secure sodium)) session acts
    (sessionEnd.get sessionEnd_isSome) :=
  (run_of_exec (Option.some_get sessionEnd_isSome).symm).mono fun _ _ _ => guarded_of_secureStep

end CutSession

open CutSession in
/-- The request between the REKEY and the new keys is cut out, and the host accepts the one after
it: what it has accepted is not a prefix of what the client sealed. -/
theorem record_integrity_cut :
    Run (Guarded (Duplex.Step sodium) (Duplex.Secure sodium)) session acts
      (sessionEnd.get sessionEnd_isSome) ∧
    (sessionEnd.get sessionEnd_isSome).client.sealed.map SealCall.content
      = [(.rekey, (ephemeral 3).publicKey.val), (.request, request 7), (.request, request 8)] ∧
    (sessionEnd.get sessionEnd_isSome).host.opened.map Opened.content
      = [(.rekey, (ephemeral 3).publicKey.val), (.request, request 8)] ∧
    ¬ (sessionEnd.get sessionEnd_isSome).host.opened.map Opened.content
      <+: (sessionEnd.get sessionEnd_isSome).client.sealed.map SealCall.content :=
  ⟨session_run, by decide +kernel, by decide +kernel, by decide +kernel⟩

open CutSession in
/-- In the same run the client has accepted the host's answer, and the host a REKEY in the epoch it
has left. -/
theorem record_integrity_played :
    (sessionEnd.get sessionEnd_isSome).host.rx.epoch = 1 ∧
    (sessionEnd.get sessionEnd_isSome).client.opened.map Opened.content
      <+: (sessionEnd.get sessionEnd_isSome).host.sealed.map SealCall.content ∧
    Accepted .rekey (sessionEnd.get sessionEnd_isSome).host.opened 0 := by
  have hcount : ∀ (x : Sender), x.sealed.length < 2 ^ 64 → ∀ e, x.count e < 2 ^ 64 :=
    fun x hx e => (x.count_le e).trans_lt hx
  have hepoch : (sessionEnd.get sessionEnd_isSome).host.rx.epoch = 1 := by decide +kernel
  have h := record_integrity sodium (ephemeral 1) (ephemeral 2) ⟨Block.fill 32 2, Block.fill 32 1⟩
    (Block.fill 32 8) (Block.fill 32 9) 2 2 { interval := 1 } 0 (by decide) (by decide) (by decide)
    (by decide) acts _ session_run
    ⟨hcount _ (by decide +kernel), hcount _ (by decide +kernel)⟩
  exact ⟨hepoch, h.1, h.2.2.2.2.1 0 (by rw [hepoch]; decide)⟩

end Epx
