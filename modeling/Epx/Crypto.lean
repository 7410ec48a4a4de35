import Epx.ProtocolGrammar

/-!
# The libsodium wrapper

`src/crypto.hpp` and `src/crypto.cpp`. libsodium is not part of the repository, so it is a
parameter: a `Sodium` is the handful of libsodium functions the wrapper calls, and what a result
relies on about them is a named hypothesis. Randomness is an input of the functions that use it.

A libsodium call that reports failure by a nonzero return value is a partial function here. The
wrapper turns two of them, the session-key derivations, into C++ exceptions.

## Main definitions

* `Sodium` — the libsodium functions the code calls
* `Sodium.AeadCorrect`, `Sodium.KxAgree`, `Sodium.KxFresh`, `Sodium.SignCorrect`,
  `Sodium.Unforged` — what the results rely on
* `clientSessionKeys`, `serverSessionKeys` — key derivation, which may throw
* `sealV1`, `openV1`, `sealV2`, `openV2` — the record protection of v1 and v2 sessions
-/

namespace Epx

open Codec

/-- An exception on its way up the stack. -/
inductive Exn where
  /-- `std::runtime_error` with its message. -/
  | runtimeError (what : String)
  deriving DecidableEq

/-- `crypto::EphemeralKeyPair`. -/
structure EphemeralKeyPair where
  publicKey : Block 32
  secretKey : Block 32
  deriving DecidableEq

/-- `crypto::SessionKeys`. -/
structure SessionKeys where
  rx : Block 32
  tx : Block 32
  deriving DecidableEq

/-- A signature that is checked: the key, the message and the signature. -/
structure SignatureCheck where
  key : PublicKey
  message : Bytes
  signature : Block 64
  deriving DecidableEq

/-- The bytes of `crypto_aead_xchacha20poly1305_ietf_ABYTES`. -/
def aeadTagBytes : ℕ := 16

/-- The libsodium functions the code calls. -/
structure Sodium where
  /-- The pairs `crypto_kx_keypair` returns. -/
  IsKxPair : EphemeralKeyPair → Prop
  /-- The pairs `crypto_sign_keypair` returns. -/
  IsSignPair : Identity → Prop
  /-- `crypto_sign_detached`. -/
  signDetached : SecretKey → Bytes → Block 64
  /-- `crypto_sign_verify_detached`, true when it returns 0. -/
  signVerifyDetached : PublicKey → Bytes → Block 64 → Bool
  /-- `crypto_kx_client_session_keys`, `none` when it returns nonzero. -/
  kxClientSessionKeys : EphemeralKeyPair → Block 32 → Option SessionKeys
  /-- `crypto_kx_server_session_keys`, `none` when it returns nonzero. -/
  kxServerSessionKeys : EphemeralKeyPair → Block 32 → Option SessionKeys
  /-- `crypto_aead_xchacha20poly1305_ietf_encrypt`: key, nonce, associated data, plaintext. -/
  aeadEncrypt : Block 32 → Block 24 → Bytes → Bytes → Bytes
  /-- `crypto_aead_xchacha20poly1305_ietf_decrypt`, `none` when authentication fails. -/
  aeadDecrypt : Block 32 → Block 24 → Bytes → Bytes → Option Bytes

namespace Sodium

variable (S : Sodium)

/-- Decryption undoes encryption, and a ciphertext is its plaintext and a tag long. -/
structure AeadCorrect : Prop where
  decrypt_encrypt : ∀ key nonce ad pt,
    S.aeadDecrypt key nonce ad (S.aeadEncrypt key nonce ad pt) = some pt
  length_encrypt : ∀ key nonce ad pt,
    (S.aeadEncrypt key nonce ad pt).length = pt.length + aeadTagBytes

/-- Two honestly generated ephemerals are acceptable to each other, and the two sides derive the
same keys with the directions swapped. -/
def KxAgree : Prop :=
  ∀ c s, S.IsKxPair c → S.IsKxPair s → ∃ k₁ k₂,
    S.kxClientSessionKeys c s.publicKey = some ⟨k₁, k₂⟩ ∧
      S.kxServerSessionKeys s c.publicKey = some ⟨k₂, k₁⟩

/-- Keys derived from honestly generated local ephemerals with distinct public keys are distinct,
whatever public keys the peers sent. -/
structure KxFresh : Prop where
  client : ∀ {e e' p p' k k'}, S.IsKxPair e → S.IsKxPair e' → e.publicKey ≠ e'.publicKey →
    S.kxClientSessionKeys e p = some k → S.kxClientSessionKeys e' p' = some k' → k.tx ≠ k'.tx
  server : ∀ {e e' p p' k k'}, S.IsKxPair e → S.IsKxPair e' → e.publicKey ≠ e'.publicKey →
    S.kxServerSessionKeys e p = some k → S.kxServerSessionKeys e' p' = some k' → k.tx ≠ k'.tx

/-- Verification accepts what signing produced. -/
def SignCorrect : Prop :=
  ∀ id m, S.IsSignPair id →
    S.signVerifyDetached id.publicKey m (S.signDetached id.secretKey m) = true

/-- Among the signatures that are checked there is no forgery under a key of `keys`: the message of
one that verifies has been signed by the owner of the key. -/
def Unforged (keys : Set PublicKey) (Signed : PublicKey → Bytes → Prop)
    (checks : List SignatureCheck) : Prop :=
  ∀ x ∈ checks, x.key ∈ keys → S.signVerifyDetached x.key x.message x.signature = true →
    Signed x.key x.message

end Sodium

/-! ### Signatures and session keys -/

section

variable (S : Sodium)

def sign (sk : SecretKey) (message : Bytes) : Block 64 := S.signDetached sk message

def verify (pk : PublicKey) (message : Bytes) (sig : Block 64) : Bool :=
  S.signVerifyDetached pk message sig

def clientSessionKeys (selfEphemeral : EphemeralKeyPair) (peerEphemeralPk : Block 32) :
    Except Exn SessionKeys :=
  match S.kxClientSessionKeys selfEphemeral peerEphemeralPk with
  | some keys => .ok keys
  | none => .error (.runtimeError "crypto_kx_client_session_keys failed (suspicious peer key)")

def serverSessionKeys (selfEphemeral : EphemeralKeyPair) (peerEphemeralPk : Block 32) :
    Except Exn SessionKeys :=
  match S.kxServerSessionKeys selfEphemeral peerEphemeralPk with
  | some keys => .ok keys
  | none => .error (.runtimeError "crypto_kx_server_session_keys failed (suspicious peer key)")

end

/-! ### Sealing and opening -/

/-- `make_nonce`: the counter in the first eight bytes, zeros after it. -/
def makeNonce (counter : UInt64) : Block 24 :=
  ⟨putU64 counter ++ List.replicate 16 0, by simp [putU64]⟩

/-- `fill_ad`: the nine bytes of associated data of a v1 frame. -/
def fillAd (frameType : FrameType) (counter : UInt64) : Bytes := frameType.code :: putU64 counter

section

variable (S : Sodium)

/-- `open_impl`: too short a ciphertext fails before decryption is tried. -/
def openImpl (key : Block 32) (counter : UInt64) (ad ciphertext : Bytes) : Option Bytes :=
  if ciphertext.length < aeadTagBytes then none
  else S.aeadDecrypt key (makeNonce counter) ad ciphertext

/-- `crypto::seal`, for v1 sessions. -/
def sealV1 (key : Block 32) (counter : UInt64) (frameType : FrameType) (plaintext : Bytes) :
    Bytes :=
  S.aeadEncrypt key (makeNonce counter) (fillAd frameType counter) plaintext

/-- `crypto::open`, for v1 sessions. -/
def openV1 (key : Block 32) (counter : UInt64) (frameType : FrameType) (ciphertext : Bytes) :
    Option Bytes :=
  openImpl S key counter (fillAd frameType counter) ciphertext

/-- `crypto::seal_v2`: the epoch is bound into the associated data. -/
def sealV2 (key : Block 32) (counter : UInt64) (epoch : UInt8) (frameType : FrameType)
    (plaintext : Bytes) : Bytes :=
  S.aeadEncrypt key (makeNonce counter) (fillAd frameType counter ++ [epoch]) plaintext

/-- `crypto::open_v2`. -/
def openV2 (key : Block 32) (counter : UInt64) (epoch : UInt8) (frameType : FrameType)
    (ciphertext : Bytes) : Option Bytes :=
  openImpl S key counter (fillAd frameType counter ++ [epoch]) ciphertext

/-- The associated data of a frame: the session version decides its shape. -/
def frameAd (v2 : Bool) (frameType : FrameType) (counter : UInt64) (epoch : UInt8) : Bytes :=
  if v2 then fillAd frameType counter ++ [epoch] else fillAd frameType counter

/-- The expression `v2 ? seal_v2(..) : seal(..)` of every sender. -/
def sealFrame (v2 : Bool) (key : Block 32) (counter : UInt64) (epoch : UInt8)
    (frameType : FrameType) (plaintext : Bytes) : Bytes :=
  if v2 then sealV2 S key counter epoch frameType plaintext
  else sealV1 S key counter frameType plaintext

end

theorem sealFrame_eq (S : Sodium) (v2 : Bool) (key : Block 32) (counter : UInt64) (epoch : UInt8)
    (frameType : FrameType) (plaintext : Bytes) :
    sealFrame S v2 key counter epoch frameType plaintext
      = S.aeadEncrypt key (makeNonce counter) (frameAd v2 frameType counter epoch) plaintext := by
  cases v2 <;> rfl

theorem openImpl_encrypt {S : Sodium} (hS : S.AeadCorrect) (key : Block 32) (counter : UInt64)
    (ad pt : Bytes) :
    openImpl S key counter ad (S.aeadEncrypt key (makeNonce counter) ad pt) = some pt := by
  rw [openImpl, hS.length_encrypt, if_neg (by omega), hS.decrypt_encrypt]

/-! ### Associated data determines the frame -/

theorem putU64_injective {a b : UInt64} (h : putU64 a = putU64 b) : a = b := by
  rw [putU64_eq, putU64_eq] at h
  have ha := congrArg ofBE h
  have hlt : ∀ v : UInt64, v.toNat < 256 ^ 8 := fun v => by have := v.toNat_lt; omega
  rw [ofBE_toBE, ofBE_toBE, Nat.mod_eq_of_lt (hlt a), Nat.mod_eq_of_lt (hlt b)] at ha
  exact UInt64.toNat_inj.mp ha

theorem length_putU64 (a : UInt64) : (putU64 a).length = 8 := by
  rw [putU64_eq, length_toBE]

theorem fillAd_injective {t t' : FrameType} {c c' : UInt64} (h : fillAd t c = fillAd t' c') :
    t = t' ∧ c = c' := by
  obtain ⟨ht, hc⟩ := List.cons.inj h
  cases t
  cases t'
  cases ht
  exact ⟨rfl, putU64_injective hc⟩

/-- Frames with equal associated data are of one session version and agree in type and counter,
and, in a v2 session, in epoch. -/
theorem frameAd_inj {v v' : Bool} {t t' : FrameType} {c c' : UInt64} {e e' : UInt8}
    (h : frameAd v t c e = frameAd v' t' c' e') :
    v = v' ∧ t = t' ∧ c = c' ∧ (v = true → e = e') := by
  have hlen : ∀ t c, (fillAd t c).length = 9 := fun t c => by simp [fillAd, length_putU64]
  have hv : v = v' := by
    have hl := congrArg List.length h
    cases v <;> cases v' <;> simp [frameAd, hlen] at hl ⊢
  subst hv
  cases v with
  | false => exact ⟨rfl, (fillAd_injective h).1, (fillAd_injective h).2, fun hc => by cases hc⟩
  | true =>
    obtain ⟨had, he⟩ := List.append_inj h (by rw [hlen, hlen])
    exact ⟨rfl, (fillAd_injective had).1, (fillAd_injective had).2, fun _ => by simpa using he⟩

/-! ### A symbolic libsodium

A secret key ends in its public key. The signature of a message is its position, and that of the
key, on a list, and all that is not on the list has one signature. A session key is the public key
of the side that transmits with it, and the zero point is not acceptable. -/

/-- The public half of a secret key. -/
def SecretKey.publicHalf (sk : SecretKey) : PublicKey :=
  ⟨sk.val.drop 32, by rw [List.length_drop, sk.length_val]⟩

/-- The position of a message as a signature. -/
def positionSignature (signed : List (PublicKey × Bytes)) (pk : PublicKey) (m : Bytes) : Block 64 :=
  Block.fill 64 (UInt8.ofNat (signed.findIdx fun p => p = (pk, m)))

/-- The symbolic libsodium for a list of messages and who signs them. -/
def Sodium.symbolic (signed : List (PublicKey × Bytes)) : Sodium where
  IsKxPair e := e.secretKey = e.publicKey ∧ e.publicKey ≠ Block.zero 32
  IsSignPair id := id.secretKey.publicHalf = id.publicKey
  signDetached sk m := positionSignature signed sk.publicHalf m
  signVerifyDetached pk m sig := decide (sig = positionSignature signed pk m)
  kxClientSessionKeys e p := if p = Block.zero 32 then none else some ⟨p, e.publicKey⟩
  kxServerSessionKeys e p := if p = Block.zero 32 then none else some ⟨p, e.publicKey⟩
  aeadEncrypt _ _ _ pt := pt ++ List.replicate aeadTagBytes 0
  aeadDecrypt _ _ _ ct := some (ct.take (ct.length - aeadTagBytes))

namespace Sodium

variable (signed : List (PublicKey × Bytes))

instance : DecidablePred (symbolic signed).IsKxPair := fun e =>
  inferInstanceAs (Decidable (e.secretKey = e.publicKey ∧ e.publicKey ≠ Block.zero 32))

theorem symbolic_signCorrect : (symbolic signed).SignCorrect := by
  intro id m hpair
  have hhalf : id.secretKey.publicHalf = id.publicKey := hpair
  simp only [symbolic, hhalf, decide_true]

theorem symbolic_aeadCorrect : (symbolic signed).AeadCorrect where
  decrypt_encrypt key nonce ad pt := by simp [symbolic]
  length_encrypt key nonce ad pt := by simp [symbolic]

theorem symbolic_kxAgree : (symbolic signed).KxAgree := by
  rintro c s ⟨-, hc⟩ ⟨-, hs⟩
  exact ⟨s.publicKey, c.publicKey, if_neg hs, if_neg hc⟩

theorem symbolic_kxFresh : (symbolic signed).KxFresh := by
  have htx : ∀ (e : EphemeralKeyPair) p k,
      (if p = Block.zero 32 then none else some (SessionKeys.mk p e.publicKey)) = some k →
        k.tx = e.publicKey := by
    intro e p k h
    split at h
    · cases h
    · cases h
      rfl
  constructor
  · intro e e' p p' k k' _ _ hdiff hk hk'
    rw [htx e p k hk, htx e' p' k' hk']
    exact hdiff
  · intro e e' p p' k k' _ _ hdiff hk hk'
    rw [htx e p k hk, htx e' p' k' hk']
    exact hdiff

end Sodium

end Epx
