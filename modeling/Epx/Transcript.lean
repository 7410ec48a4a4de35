import Epx.Handshake

/-!
# What a signature can mean

An identity key signs five kinds of byte string: the HELLO and HELLO_ACK transcripts of v1 and of
v2, and credentials. A signature says only that its owner signed those bytes, so everything the
handshake concludes from one rests on comparing byte layouts.

The v2 transcripts and credentials start with distinct tags and are then fixed-width fields up to
a trailing string, so they are injective and never equal to one another. The v1 transcripts have
no tag and start with an ephemeral public key; they are told apart from tagged ones only by an
ephemeral key that does not start with a tag. Between each other the two v1 transcripts are not
told apart at all: `hello_signed_bytes` ends in a string of any length, and
`exists_helloSignedBytes_iff` says that any byte string of 48 bytes or more is such a transcript
for the service name that follows its first 48 bytes.

## Main results

* `Statement.signedBytes_injective` — a message under a tag says one thing
* `Untagged.append_ne_signedBytes` — a v1 transcript is no message under a tag
* `exists_helloSignedBytes_iff` — which byte strings are v1 HELLO transcripts for a name
* `transplant_rejected_iff` — when a signature made as a server is refused as a HELLO signature
-/

namespace Epx

open Codec

/-- `"EPX-credential-v1"`. -/
def credentialTag : Bytes :=
  tagBytes ['E', 'P', 'X', '-', 'c', 'r', 'e', 'd', 'e', 'n', 't', 'i', 'a', 'l', '-', 'v', '1']

/-- `credentials::signed_bytes`. -/
def credentialSignedBytes (peer issuer : PublicKey) (scope : Bytes) (expires : UInt64) : Bytes :=
  credentialTag ++ (peer.val ++ (issuer.val ++ (putU64 expires ++ scope)))

/-! ### Injectivity -/

theorem helloSignedBytes_inj {e e' : Block 32} {n n' : Block 16} {s s' : Bytes}
    (h : helloSignedBytes e n s = helloSignedBytes e' n' s') : e = e' ∧ n = n' ∧ s = s' := by
  obtain ⟨he, h⟩ := block_append_inj h
  obtain ⟨hn, hs⟩ := block_append_inj h
  exact ⟨he, hn, hs⟩

theorem helloAckSignedBytes_inj {e e' : Block 32} {sn sn' cn cn' : Block 16}
    (h : helloAckSignedBytes e sn cn = helloAckSignedBytes e' sn' cn') :
    e = e' ∧ sn = sn' ∧ cn = cn' := by
  obtain ⟨he, h⟩ := block_append_inj h
  obtain ⟨hs, hc⟩ := block_append_inj h
  exact ⟨he, hs, Block.ext hc⟩

theorem helloSignedBytesV2_inj {m m' : UInt8} {i i' : PublicKey} {e e' : Block 32}
    {n n' : Block 16} {s s' : Bytes}
    (h : helloSignedBytesV2 m i e n s = helloSignedBytesV2 m' i' e' n' s') :
    m = m' ∧ i = i' ∧ e = e' ∧ n = n' ∧ s = s' := by
  obtain ⟨hm, h⟩ := List.cons.inj (List.append_cancel_left h)
  obtain ⟨hi, h⟩ := block_append_inj h
  exact ⟨hm, hi, helloSignedBytes_inj h⟩

theorem helloAckSignedBytesV2_inj {m m' v v' t t' : UInt8} {i i' c c' : PublicKey}
    {e e' : Block 32} {sn sn' cn cn' : Block 16}
    (h : helloAckSignedBytesV2 m v t i c e sn cn
      = helloAckSignedBytesV2 m' v' t' i' c' e' sn' cn') :
    m = m' ∧ v = v' ∧ t = t' ∧ i = i' ∧ c = c' ∧ e = e' ∧ sn = sn' ∧ cn = cn' := by
  obtain ⟨hm, h⟩ := List.cons.inj (List.append_cancel_left h)
  obtain ⟨hv, h⟩ := List.cons.inj h
  obtain ⟨ht, h⟩ := List.cons.inj h
  obtain ⟨hi, h⟩ := block_append_inj h
  obtain ⟨hc, h⟩ := block_append_inj h
  exact ⟨hm, hv, ht, hi, hc, helloAckSignedBytes_inj h⟩

theorem credentialSignedBytes_inj {p p' i i' : PublicKey} {s s' : Bytes} {x x' : UInt64}
    (h : credentialSignedBytes p i s x = credentialSignedBytes p' i' s' x') :
    p = p' ∧ i = i' ∧ s = s' ∧ x = x' := by
  obtain ⟨hp, h⟩ := block_append_inj (List.append_cancel_left h)
  obtain ⟨hi, h⟩ := block_append_inj h
  obtain ⟨hx, hs⟩ := List.append_inj h rfl
  exact ⟨hp, hi, hs, putU64_injective hx⟩

/-! ### Separation

Byte 4 tells a credential from a v2 transcript, and byte 7 tells the two v2 transcripts apart. -/

theorem helloSignedBytesV2_ne_helloAckSignedBytesV2 {m m' v' t' : UInt8} {i i' c' : PublicKey}
    {e e' : Block 32} {n sn' cn' : Block 16} {s : Bytes} :
    helloSignedBytesV2 m i e n s ≠ helloAckSignedBytesV2 m' v' t' i' c' e' sn' cn' := by
  intro h
  have h7 := congrArg (fun bs : Bytes => bs[7]?) h
  simp [helloSignedBytesV2, helloAckSignedBytesV2, helloTagV2, helloAckTagV2, tagBytes] at h7

theorem credentialSignedBytes_ne_helloSignedBytesV2 {p q : PublicKey} {sc : Bytes} {x : UInt64}
    {m : UInt8} {i : PublicKey} {e : Block 32} {n : Block 16} {s : Bytes} :
    credentialSignedBytes p q sc x ≠ helloSignedBytesV2 m i e n s := by
  intro h
  have h4 := congrArg (fun bs : Bytes => bs[4]?) h
  simp [credentialSignedBytes, helloSignedBytesV2, credentialTag, helloTagV2, tagBytes] at h4

theorem credentialSignedBytes_ne_helloAckSignedBytesV2 {p q : PublicKey} {sc : Bytes}
    {x : UInt64} {m v t : UInt8} {i c : PublicKey} {e : Block 32} {sn cn : Block 16} :
    credentialSignedBytes p q sc x ≠ helloAckSignedBytesV2 m v t i c e sn cn := by
  intro h
  have h4 := congrArg (fun bs : Bytes => bs[4]?) h
  simp [credentialSignedBytes, helloAckSignedBytesV2, credentialTag, helloAckTagV2, tagBytes] at h4

/-! ### Statements -/

/-- What a signature under a tag says: the arguments of the message that is signed. -/
inductive Statement where
  | hello (maxVersion : UInt8) (clientIdentity : PublicKey) (ephemeralPubkey : Block 32)
      (clientNonce : Block 16) (serviceName : Bytes)
  | helloAck (serverMaxVersion negotiatedVersion status : UInt8)
      (serverIdentity clientIdentity : PublicKey) (ephemeralPubkey : Block 32)
      (serverNonce clientNonce : Block 16)
  | credential (peer issuer : PublicKey) (scope : Bytes) (expires : UInt64)

namespace Statement

/-- The message that is signed. -/
def signedBytes : Statement → Bytes
  | hello maxVersion clientIdentity ephemeralPubkey clientNonce serviceName =>
    helloSignedBytesV2 maxVersion clientIdentity ephemeralPubkey clientNonce serviceName
  | helloAck serverMaxVersion negotiatedVersion status serverIdentity clientIdentity
      ephemeralPubkey serverNonce clientNonce =>
    helloAckSignedBytesV2 serverMaxVersion negotiatedVersion status serverIdentity clientIdentity
      ephemeralPubkey serverNonce clientNonce
  | credential peer issuer scope expires => credentialSignedBytes peer issuer scope expires

/-- A message says one thing. -/
theorem signedBytes_injective : Function.Injective signedBytes := by
  intro a b h
  cases a with
  | hello =>
    cases b with
    | hello =>
      obtain ⟨rfl, rfl, rfl, rfl, rfl⟩ := helloSignedBytesV2_inj h
      rfl
    | helloAck => exact absurd h helloSignedBytesV2_ne_helloAckSignedBytesV2
    | credential => exact absurd h.symm credentialSignedBytes_ne_helloSignedBytesV2
  | helloAck =>
    cases b with
    | hello => exact absurd h.symm helloSignedBytesV2_ne_helloAckSignedBytesV2
    | helloAck =>
      obtain ⟨rfl, rfl, rfl, rfl, rfl, rfl, rfl, rfl⟩ := helloAckSignedBytesV2_inj h
      rfl
    | credential => exact absurd h.symm credentialSignedBytes_ne_helloAckSignedBytesV2
  | credential =>
    cases b with
    | hello => exact absurd h credentialSignedBytes_ne_helloSignedBytesV2
    | helloAck => exact absurd h credentialSignedBytes_ne_helloAckSignedBytesV2
    | credential =>
      obtain ⟨rfl, rfl, rfl, rfl⟩ := credentialSignedBytes_inj h
      rfl

end Statement

/-- What a `client_handshake` run states in its v2 signature. -/
def ClientRun.statement (c : ClientRun) : Statement :=
  .hello c.myMax c.self.publicKey c.ephemeral.publicKey c.clientNonce c.target

/-- What a `server_handshake` run states in its v2 signature. -/
def ServerRun.statement (s : ServerRun) (a : ServerAnswer) : Statement :=
  .helloAck s.myMax a.negotiated (if a.trusted then 0 else 1) s.self.publicKey
    a.hello.identityPubkey s.ephemeral.publicKey s.serverNonce a.hello.clientNonce

theorem ClientRun.signatureV2_hello (S : Sodium) {c : ClientRun} (hmax : c.myMax ≥ 2) :
    (c.hello S).signatureV2 = sign S c.self.secretKey c.statement.signedBytes :=
  if_pos hmax

theorem ServerRun.signatureV2_ack (S : Sodium) {s : ServerRun} (a : ServerAnswer)
    (hmax : s.myMax ≥ 2) :
    (s.ack S a.hello a.negotiated a.trusted).signatureV2
      = sign S s.self.secretKey (s.statement a).signedBytes :=
  if_pos hmax

/-! ### v1 transcripts and tags -/

/-- An ephemeral public key that does not start with the bytes of a tag. -/
structure Untagged (e : Block 32) : Prop where
  hello : ¬ helloTagV2 <+: e.val
  ack : ¬ helloAckTagV2 <+: e.val
  credential : ¬ credentialTag <+: e.val

/-- A string that starts with a tag of at most 32 bytes does not start with an ephemeral key
that does not. -/
theorem block_append_ne_of_not_prefix {e : Block 32} {tag s t : Bytes} (hlen : tag.length ≤ 32)
    (h : ¬ tag <+: e.val) : e.val ++ s ≠ tag ++ t := by
  intro heq
  refine h ⟨e.val.drop tag.length, ?_⟩
  have htake := congrArg (List.take tag.length) heq
  rw [List.take_append_of_le_length (by rw [e.length_val]; exact hlen), List.take_left] at htake
  calc tag ++ e.val.drop tag.length
      = e.val.take tag.length ++ e.val.drop tag.length := by rw [htake]
    _ = e.val := List.take_append_drop _ _

/-- Whatever follows such a key, it is no message under a tag. -/
theorem Untagged.append_ne_signedBytes {e : Block 32} (he : Untagged e) {s : Bytes}
    (st : Statement) : e.val ++ s ≠ st.signedBytes := by
  cases st with
  | hello => exact block_append_ne_of_not_prefix (by simp [helloTagV2, tagBytes]) he.hello
  | helloAck => exact block_append_ne_of_not_prefix (by simp [helloAckTagV2, tagBytes]) he.ack
  | credential =>
    exact block_append_ne_of_not_prefix (by simp [credentialTag, tagBytes]) he.credential

/-! ### v1 HELLO transcripts

No tag, and a string at the end: anything long enough is one, for some service name. -/

theorem exists_helloSignedBytes_iff {m svc : Bytes} :
    (∃ e n, helloSignedBytes e n svc = m) ↔ 48 ≤ m.length ∧ m.drop 48 = svc := by
  constructor
  · rintro ⟨e, n, rfl⟩
    have hlen : (e.val ++ n.val).length = 48 := by simp
    rw [helloSignedBytes, ← List.append_assoc]
    exact ⟨by rw [List.length_append]; omega, List.drop_left' hlen⟩
  · rintro ⟨hlen, rfl⟩
    obtain ⟨e, t, rfl⟩ := exists_block_append (n := 32) (show 32 ≤ m.length by omega)
    rw [List.length_append, e.length_val] at hlen
    obtain ⟨n, t', rfl⟩ := exists_block_append (n := 16) (show 16 ≤ t.length by omega)
    have h48 : (e.val ++ n.val).length = 48 := by simp
    refine ⟨e, n, ?_⟩
    rw [helloSignedBytes, ← List.append_assoc, ← List.append_assoc, List.drop_left' h48]

/-- What follows the first 48 bytes of a v1 ack transcript. -/
theorem drop_helloAckSignedBytes (e : Block 32) (sn cn : Block 16) :
    (helloAckSignedBytes e sn cn).drop 48 = cn.val := by
  have hlen : (e.val ++ sn.val).length = 48 := by simp
  rw [helloAckSignedBytes, ← List.append_assoc, List.drop_left' hlen]

/-- What follows the first 48 bytes of a v2 ack transcript: the tag, the three bytes and the
server identity are 45 bytes, so three bytes of the client identity go with them. -/
theorem drop_helloAckSignedBytesV2 (m v t : UInt8) (i c : PublicKey) (e : Block 32)
    (sn cn : Block 16) :
    (helloAckSignedBytesV2 m v t i c e sn cn).drop 48
      = c.val.drop 3 ++ (e.val ++ (sn.val ++ cn.val)) := by
  have hhead : (helloAckTagV2 ++ ([m, v, t] ++ i.val)).length = 45 := by
    simp [helloAckTagV2, tagBytes]
  have hsplit : helloAckSignedBytesV2 m v t i c e sn cn
      = (helloAckTagV2 ++ ([m, v, t] ++ i.val)) ++ (c.val ++ (e.val ++ (sn.val ++ cn.val))) := by
    simp [helloAckSignedBytesV2]
  rw [hsplit, show 48 = 45 + 3 from rfl, ← List.drop_drop, List.drop_left' hhead,
    List.drop_append_of_le_length (by simp)]

/-! ### Transplanting a signature from the server role -/

/-- The byte strings a `server_handshake` run signs. -/
def ServerRun.signedMessages (s : ServerRun) (a : ServerAnswer) : List Bytes :=
  helloAckSignedBytes s.ephemeral.publicKey s.serverNonce a.hello.clientNonce ::
    if s.myMax ≥ 2 then
      [helloAckSignedBytesV2 s.myMax a.negotiated (if a.trusted then 0 else 1) s.self.publicKey
        a.hello.identityPubkey s.ephemeral.publicKey s.serverNonce a.hello.clientNonce]
    else []

/-- `id` has run `server_handshake` as recorded in `acts`, and its signatures verify. -/
structure SignsOnlyAsServer (S : Sodium) (id : Identity) (acts : Set (ServerRun × ServerAnswer)) :
    Prop where
  runs : ∀ p ∈ acts, p.1.self = id ∧
    ∃ isTrusted frame, serverAnswer S p.1 isTrusted frame = .ok (some p.2)
  correct : ∀ p ∈ acts, ∀ m ∈ p.1.signedMessages p.2,
    verify S id.publicKey m (sign S id.secretKey m) = true

/-- What an identity has signed in these runs. -/
def SignedAsServer (id : Identity) (acts : Set (ServerRun × ServerAnswer)) (pk : PublicKey)
    (m : Bytes) : Prop :=
  pk = id.publicKey ∧ ∃ p ∈ acts, m ∈ p.1.signedMessages p.2

/-- The service names for which one of the messages a run signed is a v1 HELLO transcript: the
client nonce it echoed, and the last 93 bytes of its v2 transcript. -/
def ServerRun.Collides (s : ServerRun) (a : ServerAnswer) (svc : Bytes) : Prop :=
  svc = a.hello.clientNonce.val ∨
    (s.myMax ≥ 2 ∧ svc = a.hello.identityPubkey.val.drop 3 ++
      (s.ephemeral.publicKey.val ++ (s.serverNonce.val ++ a.hello.clientNonce.val)))

theorem ServerRun.Collides.length {s : ServerRun} {a : ServerAnswer} {svc : Bytes}
    (h : s.Collides a svc) : svc.length = 16 ∨ svc.length = 93 := by
  rcases h with rfl | ⟨-, rfl⟩
  · exact Or.inl (by simp)
  · exact Or.inr (by simp)

theorem ServerRun.collides_iff {s : ServerRun} {a : ServerAnswer} {svc : Bytes} :
    s.Collides a svc ↔ ∃ m ∈ s.signedMessages a, ∃ e n, helloSignedBytes e n svc = m := by
  have hv1 : ∀ e sn cn, 48 ≤ (helloAckSignedBytes e sn cn).length := fun e sn cn => by
    simp [helloAckSignedBytes]
  have hv2 : ∀ m v t i c e sn cn, 48 ≤ (helloAckSignedBytesV2 m v t i c e sn cn).length :=
    fun m v t i c e sn cn => by simp [helloAckSignedBytesV2, helloAckTagV2, tagBytes]
  simp only [exists_helloSignedBytes_iff, signedMessages, List.mem_cons]
  constructor
  · rintro (rfl | ⟨hmax, rfl⟩)
    · exact ⟨_, Or.inl rfl, hv1 _ _ _, drop_helloAckSignedBytes _ _ _⟩
    · exact ⟨_, Or.inr (by rw [if_pos hmax]; exact List.mem_singleton_self _),
        hv2 _ _ _ _ _ _ _ _, drop_helloAckSignedBytesV2 _ _ _ _ _ _ _ _⟩
  · rintro ⟨m, rfl | hm, -, rfl⟩
    · exact Or.inl (drop_helloAckSignedBytes _ _ _)
    · by_cases hmax : s.myMax ≥ 2
      · rw [if_pos hmax, List.mem_singleton] at hm
        subst hm
        exact Or.inr ⟨hmax, drop_helloAckSignedBytesV2 _ _ _ _ _ _ _ _⟩
      · rw [if_neg hmax] at hm
        cases hm

/-- A v1-only HELLO in the name of `identity`. -/
def helloV1 (identity : PublicKey) (e : Block 32) (n : Block 16) (svc : Bytes) (sig : Block 64) :
    HelloPayload :=
  { identityPubkey := identity, ephemeralPubkey := e, clientNonce := n, serviceName := svc,
    signature := sig }

/-- A host takes a v1-only HELLO whose v1 signature verifies, whatever its own version. -/
theorem serverAnswer_helloV1 {S : Sodium} {h : ServerRun} (isTrusted : TrustFn)
    {identity : PublicKey} {e : Block 32} {n : Block 16} {svc : Bytes} {sig : Block 64}
    (hmax : h.myMax ≥ 1) (hname : h.serviceName = svc) (hlen : svc.length ≤ 255)
    (htrust : isTrusted identity = .ok true)
    (hsig : verify S identity (helloSignedBytes e n svc) sig = true) :
    ∃ a, serverAnswer S h isTrusted
        (some { type := .hello, body := encodeHello (helloV1 identity e n svc sig) })
          = .ok (some a) ∧
      a.hello = helloV1 identity e n svc sig ∧ a.negotiated = 1 ∧ a.trusted = true := by
  have hdec : decodeHello (encodeHello (helloV1 identity e n svc sig))
      = .accept (helloV1 identity e n svc sig) :=
    decodeHello_eq_accept.mpr (helloLayout_encodeHello _
      ⟨hlen, show (1 : UInt8) ≤ 1 from by decide, rfl, fun _ => rfl⟩)
  have hneg : negotiateVersion h.myMax 1 = 1 := by
    have hge : 1 ≤ h.myMax.toNat := hmax
    by_cases hlt : h.myMax < 1
    · have : h.myMax.toNat < 1 := hlt
      omega
    · simp [negotiateVersion, hlt, kProtocolVersionMin]
  have hok : helloSigOk S 1 (helloV1 identity e n svc sig) = true := by
    simp only [helloSigOk, helloV1, hsig, Bool.true_and]
    rfl
  refine ⟨⟨helloV1 identity e n svc sig, 1, true,
    h.ack S (helloV1 identity e n svc sig) 1 true⟩, ?_, rfl, rfl, rfl⟩
  simp only [serverAnswer, ne_eq, not_true_eq_false, if_false, hdec]
  rw [serverDecide, if_neg (by simp [helloV1]), if_neg (by simp [helloV1, hname])]
  simp only [show (helloV1 identity e n svc sig).maxVersion = 1 from rfl, hneg]
  rw [if_neg (by decide), hok]
  simp only [if_true, show (helloV1 identity e n svc sig).identityPubkey = identity from rfl,
    htrust]
  rfl

/-- **When a server's signatures are useless as HELLO signatures.** For an identity that has only
acted as a server, a host named `svc` refuses every HELLO in its name without a forged signature
exactly when `svc` collides with none of the messages those runs signed. Names of any length but 16
and 93 never collide. -/
theorem transplant_rejected_iff (S : Sodium) (id : Identity)
    (acts : Set (ServerRun × ServerAnswer)) (hid : SignsOnlyAsServer S id acts) (svc : Bytes) :
    ((∀ h isTrusted frame a, h.serviceName = svc →
        serverAnswer S h isTrusted frame = .ok (some a) →
        a.hello.identityPubkey = id.publicKey →
        S.Unforged {id.publicKey} (SignedAsServer id acts) a.hello.checks → a.trusted = false) ↔
      ∀ p ∈ acts, ¬ p.1.Collides p.2 svc) ∧
    (svc.length ≠ 16 → svc.length ≠ 93 → ∀ p ∈ acts, ¬ p.1.Collides p.2 svc) := by
  refine ⟨⟨fun hsafe p hp hcol => ?_, ?_⟩, ?_⟩
  · -- The attack: replay the signature of the colliding message in a v1-only HELLO.
    obtain ⟨m, hm, e, n, rfl⟩ := ServerRun.collides_iff.mp hcol
    have hlen : svc.length ≤ 255 := by
      rcases hcol.length with h | h <;> omega
    obtain ⟨a, ha, hhello, -, ht⟩ := serverAnswer_helloV1 (h := ⟨id, svc, 1, p.1.ephemeral,
        p.1.serverNonce⟩) (fun _ => .ok true) (show (1 : UInt8) ≥ 1 from by decide) rfl hlen rfl
      (hid.correct p hp _ hm)
    -- No forgery: the one signature that is checked is one the victim has made.
    have hunf : S.Unforged {id.publicKey} (SignedAsServer id acts) a.hello.checks := by
      intro x hx _ _
      rw [hhello] at hx
      rw [List.mem_singleton.mp hx]
      exact ⟨rfl, p, hp, hm⟩
    have := hsafe _ _ _ a rfl ha (by rw [hhello]; rfl) hunf
    rw [ht] at this
    cases this
  · intro hno h isTrusted frame a hname ha hident hunf
    by_contra ht
    rw [Bool.not_eq_false] at ht
    obtain ⟨-, hchecks⟩ := serverAnswer_eq_some ha
    obtain ⟨⟨-, p, hp, hm⟩, -⟩ := signed_of_helloSigOk hunf hident (hchecks.trusted ht).1
    rw [hchecks.serviceName, hname] at hm
    exact hno p hp (ServerRun.collides_iff.mpr ⟨_, hm, _, _, rfl⟩)
  · intro h16 h93 p _ hcol
    rcases hcol.length with h | h
    · exact h16 h
    · exact h93 h

/-! ### The collision, played

The attacker connects to `victim` with a client nonce of its choosing, is refused, and keeps the
signature of the refusal. -/

namespace Transplant

def victim : Identity := ⟨Block.fill 32 1, Block.fill 64 1⟩

def victimRun : ServerRun :=
  { self := victim, serviceName := [115], myMax := 2
    ephemeral := ⟨Block.fill 32 2, Block.fill 32 2⟩, serverNonce := Block.fill 16 3 }

def attackerHello : HelloPayload :=
  helloV1 (Block.fill 32 9) (Block.fill 32 8) (Block.fill 16 7) [115] (Block.zero 64)

/-- What `victim` signs while it refuses the attacker. -/
def signed : List (PublicKey × Bytes) :=
  [(victim.publicKey, helloAckSignedBytes (Block.fill 32 2) (Block.fill 16 3) (Block.fill 16 7)),
    (victim.publicKey, helloAckSignedBytesV2 2 1 1 victim.publicKey (Block.fill 32 9)
      (Block.fill 32 2) (Block.fill 16 3) (Block.fill 16 7))]

def sodium : Sodium := .symbolic signed

def victimAnswer : ServerAnswer :=
  ⟨attackerHello, 1, false, victimRun.ack sodium attackerHello 1 false⟩

theorem serverAnswer_attackerHello :
    serverAnswer sodium victimRun (fun _ => .ok false)
      (some { type := .hello, body := encodeHello attackerHello }) = .ok (some victimAnswer) := by
  decide +kernel

theorem signsOnlyAsServer : SignsOnlyAsServer sodium victim {(victimRun, victimAnswer)} where
  runs := by
    rintro p rfl
    exact ⟨rfl, _, _, serverAnswer_attackerHello⟩
  correct := fun _ _ m _ => Sodium.symbolic_signCorrect signed victim m rfl

/-- A host whose service name is the sixteen bytes the attacker used as its nonce. -/
def host : ServerRun :=
  { self := ⟨Block.fill 32 4, Block.fill 64 4⟩, serviceName := List.replicate 16 7, myMax := 2
    ephemeral := ⟨Block.fill 32 5, Block.fill 32 5⟩, serverNonce := Block.fill 16 6 }

/-- The HELLO the attacker builds from the refusal, in the name of `victim`. -/
def forgedHello : HelloPayload :=
  helloV1 victim.publicKey victimAnswer.ack.ephemeralPubkey victimAnswer.ack.serverNonce
    host.serviceName victimAnswer.ack.signature

/-- Its signature is not forged. -/
theorem unforged :
    sodium.Unforged {victim.publicKey} (SignedAsServer victim {(victimRun, victimAnswer)})
      forgedHello.checks := by
  intro x hx _ _
  rw [List.mem_singleton.mp hx]
  exact ⟨rfl, _, rfl, List.mem_cons_self⟩

end Transplant

open Transplant in
/-- The host completes a handshake with `victim`, which never spoke to it. -/
theorem transplant_accepted :
    sodium.SignCorrect ∧ SignsOnlyAsServer sodium victim {(victimRun, victimAnswer)} ∧
    forgedHello.signature = victimAnswer.ack.signature ∧
    sodium.Unforged {victim.publicKey} (SignedAsServer victim {(victimRun, victimAnswer)})
      forgedHello.checks ∧
    serverHandshake sodium host (fun _ => .ok true)
        (writeFrame false { type := .hello, body := encodeHello forgedHello }) true
      = .ok (some ⟨⟨Block.fill 32 2, Block.fill 32 5⟩, victim.publicKey, 1⟩) :=
  ⟨Sodium.symbolic_signCorrect signed, signsOnlyAsServer, rfl, unforged, by decide +kernel⟩

open Transplant in
/-- A service name of another length is safe from the same victim. -/
theorem transplant_rejected_iff_played :
    SignsOnlyAsServer sodium victim {(victimRun, victimAnswer)} ∧
    ∀ h isTrusted frame a, h.serviceName = [115] →
      serverAnswer sodium h isTrusted frame = .ok (some a) →
      a.hello.identityPubkey = victim.publicKey →
      sodium.Unforged {victim.publicKey} (SignedAsServer victim {(victimRun, victimAnswer)})
        a.hello.checks → a.trusted = false :=
  ⟨signsOnlyAsServer,
    have h := transplant_rejected_iff sodium victim _ signsOnlyAsServer [115]
    h.1.mpr (h.2 (by decide) (by decide))⟩

end Epx
