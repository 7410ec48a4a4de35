import Epx.Protocol

/-!
# The grammar of the wire payloads

`docs/SPEC.md` sections 5.2 to 5.4 give each payload as a sequence of fields. This file states
those layouts as relations between a buffer and a payload value, and proves that each decoder
accepts exactly the buffers that start with a layout of the value it returns, that no decoder
ever reads outside its buffer, and that decoding inverts encoding.

The layouts are written with `toBE`, not with the source's `put_u32` and `put_u64`, so that they
state the format rather than repeat the encoder.

## Main results

* `decodeRequest_eq_accept`, `decodeResponse_eq_accept`, `decodeStreamChunk_eq_accept`,
  `decodeError_eq_accept`, `decodeHello_eq_accept`, `decodeHelloAck_eq_accept`
* `decodeRequest_ne_oob` and its siblings
* `requestLayout_encodeRequest` and its siblings — encodings are layouts
* `decoders_accept_exactly_their_grammar` — all six, together
-/

namespace Epx

open Codec Parse

/-! ### Integers

The source's shifts and disjunctions, as big-endian numerals. -/

/-- A multiple of `2 ^ i` and a value below `2 ^ i` have no bit in common. -/
theorem or_eq_add {a b i : ℕ} (hb : b < 2 ^ i) : 2 ^ i * a ||| b = 2 ^ i * a + b :=
  (Nat.two_pow_add_eq_or_of_lt hb a).symm

theorem putU32_eq (v : UInt32) : putU32 v = toBE 4 v.toNat := by
  simp [putU32, toBE, ← UInt8.toNat_inj]

theorem putU64_eq (v : UInt64) : putU64 v = toBE 8 v.toNat := by
  simp [putU64, toBE, ← UInt8.toNat_inj]

theorem putU16_eq (r : UInt16) : [(r >>> 8).toUInt8, (r &&& 0xFF).toUInt8] = toBE 2 r.toNat := by
  have hmask : r.toNat % 256 &&& 255 = r.toNat % 256 := by
    rw [Nat.and_two_pow_sub_one_eq_mod _ 8, Nat.mod_mod]
  simp [toBE, ← UInt8.toNat_inj, hmask]

/-- One round of the loop in `get_u64`. -/
theorem shift_or_byte (v : ℕ) (b : UInt8) :
    (UInt64.ofNat v <<< 8) ||| b.toUInt64 = UInt64.ofNat (v * 256 + b.toNat) := by
  have hb : b.toNat < 2 ^ 8 := b.toNat_lt
  have hv : v % 2 ^ 64 * 2 ^ 8 % 2 ^ 64 = 2 ^ 8 * (v % 2 ^ 56) := by omega
  apply UInt64.toNat_inj.mp
  simp only [UInt64.toNat_or, UInt64.toNat_shiftLeft, UInt64.toNat_ofNat', UInt8.toNat_toUInt64,
    show (8 : UInt64).toNat % 64 = 8 from rfl, Nat.shiftLeft_eq]
  rw [hv, or_eq_add hb]
  omega

theorem getU64_eq (p : Block 8) : getU64 p = UInt64.ofNat (ofBE p.val) := by
  have key : ∀ (bs : Bytes) (v : ℕ),
      bs.foldl (fun (v : UInt64) b => (v <<< 8) ||| b.toUInt64) (UInt64.ofNat v)
        = UInt64.ofNat (bs.foldl (fun v b => v * 256 + b.toNat) v) := by
    intro bs
    induction bs with
    | nil => intro v; rfl
    | cons b bs ih => intro v; rw [List.foldl_cons, shift_or_byte, ih, List.foldl_cons]
  exact key p.val 0

theorem getU32_eq (p : Block 4) : getU32 p = UInt32.ofNat (ofBE p.val) := by
  obtain ⟨bs, hlen⟩ := p
  match bs, hlen with
  | [p0, p1, p2, p3], _ =>
    have h0 : p0.toNat < 256 := p0.toNat_lt
    have h1 : p1.toNat < 256 := p1.toNat_lt
    have h2 : p2.toNat < 256 := p2.toNat_lt
    have h3 : p3.toNat < 256 := p3.toNat_lt
    apply UInt32.toNat_inj.mp
    simp only [getU32, ofBE, List.foldl, UInt32.toNat_or, UInt32.toNat_shiftLeft,
      UInt32.toNat_ofNat', UInt8.toNat_toUInt32, show (24 : UInt32).toNat % 32 = 24 from rfl,
      show (16 : UInt32).toNat % 32 = 16 from rfl, show (8 : UInt32).toNat % 32 = 8 from rfl,
      Nat.shiftLeft_eq]
    rw [show p0.toNat * 2 ^ 24 % 2 ^ 32 = 2 ^ 24 * p0.toNat by omega,
      show p1.toNat * 2 ^ 16 % 2 ^ 32 = p1.toNat * 2 ^ 16 by omega,
      show p2.toNat * 2 ^ 8 % 2 ^ 32 = p2.toNat * 2 ^ 8 by omega, or_eq_add (by omega),
      show 2 ^ 24 * p0.toNat + p1.toNat * 2 ^ 16 = 2 ^ 16 * (2 ^ 8 * p0.toNat + p1.toNat) by ring,
      or_eq_add (by omega),
      show 2 ^ 16 * (2 ^ 8 * p0.toNat + p1.toNat) + p2.toNat * 2 ^ 8
        = 2 ^ 8 * (2 ^ 16 * p0.toNat + 2 ^ 8 * p1.toNat + p2.toNat) by ring,
      or_eq_add h3]
    omega

theorem getU16_eq (hi lo : UInt8) :
    (hi.toUInt16 <<< 8) ||| lo.toUInt16 = UInt16.ofNat (ofBE [hi, lo]) := by
  have h0 : hi.toNat < 256 := hi.toNat_lt
  have h1 : lo.toNat < 256 := lo.toNat_lt
  apply UInt16.toNat_inj.mp
  simp only [ofBE, List.foldl, UInt16.toNat_or, UInt16.toNat_shiftLeft, UInt16.toNat_ofNat',
    UInt8.toNat_toUInt16, show (8 : UInt16).toNat % 16 = 8 from rfl, Nat.shiftLeft_eq]
  rw [show hi.toNat * 2 ^ 8 % 2 ^ 16 = 2 ^ 8 * hi.toNat by omega, or_eq_add h1]
  omega

/-- Eight bytes are the spelling of the number `get_u64` reads from them. -/
theorem getU64_iff (p : Block 8) (v : UInt64) : getU64 p = v ↔ p.val = toBE 8 v.toNat := by
  have hlt : ofBE p.val < 2 ^ 64 := by
    have := ofBE_lt p.val
    rw [p.length_val] at this
    omega
  have hv : v.toNat < 256 ^ 8 := by have := v.toNat_lt; omega
  rw [getU64_eq, ← UInt64.toNat_inj, UInt64.toNat_ofNat', Nat.mod_eq_of_lt hlt,
    eq_toBE_iff hv]
  simp

/-- Four bytes are the spelling of the number `get_u32` reads from them. -/
theorem getU32_iff (p : Block 4) (v : UInt32) : getU32 p = v ↔ p.val = toBE 4 v.toNat := by
  have hlt : ofBE p.val < 2 ^ 32 := by
    have := ofBE_lt p.val
    rw [p.length_val] at this
    omega
  have hv : v.toNat < 256 ^ 4 := by have := v.toNat_lt; omega
  rw [getU32_eq, ← UInt32.toNat_inj, UInt32.toNat_ofNat', Nat.mod_eq_of_lt hlt,
    eq_toBE_iff hv]
  simp

/-- Two bytes are the spelling of the reason code `decode_error` reads from them. -/
theorem getU16_iff (hi lo : UInt8) (v : UInt16) :
    (hi.toUInt16 <<< 8) ||| lo.toUInt16 = v ↔ [hi, lo] = toBE 2 v.toNat := by
  have hlt : ofBE [hi, lo] < 2 ^ 16 := by
    have := ofBE_lt [hi, lo]
    simp only [List.length_cons, List.length_nil] at this
    omega
  have hv : v.toNat < 256 ^ 2 := by have := v.toNat_lt; omega
  rw [getU16_eq, ← UInt16.toNat_inj, UInt16.toNat_ofNat', Nat.mod_eq_of_lt hlt,
    eq_toBE_iff hv]
  simp

/-! ### Layouts -/

/-- A name: a one-byte length and the bytes. -/
def nameLayout (s : Bytes) : Bytes := toBE 1 s.length ++ s

/-- Data: a four-byte length and the bytes. -/
def dataLayout (d : Bytes) : Bytes := toBE 4 d.length ++ d

/-- `flag` stands for the truth value `v`: zero for false, any other byte for true. -/
def IsFlag (flag : UInt8) (v : Bool) : Prop := v = true ↔ flag ≠ 0

/-- REQUEST, SPEC 5.3. -/
def RequestLayout (b : Bytes) (v : RequestPayload) : Prop :=
  v.endpoint.length ≤ 255 ∧ v.data.length < 2 ^ 32 ∧ ∃ flag trailing, IsFlag flag v.oneway ∧
    b = toBE 8 v.requestId.toNat ++
      (flag :: (nameLayout v.endpoint ++ (dataLayout v.data ++ trailing)))

/-- RESPONSE, SPEC 5.3. -/
def ResponseLayout (b : Bytes) (v : ResponsePayload) : Prop :=
  v.data.length < 2 ^ 32 ∧ ∃ trailing,
    b = toBE 8 v.requestId.toNat ++ (v.status :: (dataLayout v.data ++ trailing))

/-- ERROR, SPEC 5.3: the message is the whole remainder. -/
def ErrorLayout (b : Bytes) (v : ErrorPayload) : Prop := b = toBE 2 v.reason.toNat ++ v.message

/-- STREAM_CHUNK, SPEC 5.4. -/
def StreamChunkLayout (b : Bytes) (v : StreamChunkPayload) : Prop :=
  v.endpoint.length ≤ 255 ∧ v.data.length < 2 ^ 32 ∧ ∃ flag trailing, IsFlag flag v.isLast ∧
    b = toBE 8 v.requestId.toNat ++ (toBE 4 v.seq.toNat ++
      (flag :: (nameLayout v.endpoint ++ (dataLayout v.data ++ trailing))))

/-- What may follow the v1 signature of a HELLO or HELLO_ACK. With 65 bytes or more it is the
extension and something after it; with fewer it is ignored and the extension counts as absent. -/
def ExtensionLayout (b : Bytes) (maxVersion : UInt8) (signatureV2 : Block 64)
    (hasV2Extension : Bool) : Prop :=
  (hasV2Extension = true ∧ ∃ trailing, b = maxVersion :: (signatureV2.val ++ trailing)) ∨
    (hasV2Extension = false ∧ maxVersion = 1 ∧ signatureV2 = Block.zero 64 ∧ b.length < 65)

/-- HELLO, SPEC 5.2. -/
def HelloLayout (b : Bytes) (v : HelloPayload) : Prop :=
  v.serviceName.length ≤ 255 ∧ ∃ rest,
    ExtensionLayout rest v.maxVersion v.signatureV2 v.hasV2Extension ∧
    b = v.version :: (v.identityPubkey.val ++ (v.ephemeralPubkey.val ++ (v.clientNonce.val ++
      (nameLayout v.serviceName ++ (v.signature.val ++ rest)))))

/-- HELLO_ACK, SPEC 5.2. -/
def HelloAckLayout (b : Bytes) (v : HelloAckPayload) : Prop :=
  ∃ rest, ExtensionLayout rest v.maxVersion v.signatureV2 v.hasV2Extension ∧
    b = v.version :: (v.identityPubkey.val ++ (v.ephemeralPubkey.val ++ (v.serverNonce.val ++
      (v.clientNonce.val ++ (v.status :: (v.signature.val ++ rest))))))

theorem length_nameLayout (s : Bytes) : (nameLayout s).length = 1 + s.length := by
  simp [nameLayout]

theorem length_dataLayout (d : Bytes) : (dataLayout d).length = 4 + d.length := by
  simp [dataLayout]

theorem toBE_one (n : ℕ) : toBE 1 n = [UInt8.ofNat n] := by
  simp [toBE]

theorem isFlag_ne_zero (flag : UInt8) : IsFlag flag (decide (flag ≠ 0)) := by
  simp [IsFlag]

theorem IsFlag.eq_decide {flag : UInt8} {v : Bool} (h : IsFlag flag v) : decide (flag ≠ 0) = v := by
  cases v <;> simp_all [IsFlag]

/-! ### The shared parts of the decoders -/

theorem getStr8_eq_accept {b t s : Bytes} {off off' : ℕ} (h : At b off t) :
    getStr8 b off = accept (s, off') ↔
      s.length ≤ 255 ∧ off' = off + (nameLayout s).length ∧ ∃ t', t = nameLayout s ++ t' := by
  simp only [getStr8, bind_eq_accept, require_eq_accept, pure_eq, accept.injEq, Prod.mk.injEq]
  constructor
  · rintro ⟨_, _, len, hlen, _, _, s', hs, rfl, rfl⟩
    obtain ⟨t₁, rfl⟩ := (byteAt_eq_accept h).mp hlen
    obtain ⟨hs, t₂, rfl⟩ := (bytesAt_eq_accept h.advance_byte).mp hs
    have hlt : len.toNat < 256 := len.toNat_lt
    have hone : toBE 1 s'.length = [len] := by rw [toBE_one, hs]; simp
    refine ⟨by omega, by rw [length_nameLayout]; omega, t₂, ?_⟩
    rw [nameLayout, hone]
    rfl
  · rintro ⟨hs, rfl, t', rfl⟩
    rw [nameLayout, toBE_one] at h
    have hnat : (UInt8.ofNat s.length).toNat = s.length := by simp; omega
    have hlen := h.length_eq
    simp only [List.length_append, List.length_cons, List.length_nil] at hlen
    refine ⟨(), by omega, UInt8.ofNat s.length, (byteAt_eq_accept h).mpr ⟨_, rfl⟩, (),
      by omega, s, ?_, rfl, by rw [length_nameLayout]; omega⟩
    exact (bytesAt_eq_accept h.advance_byte).mpr ⟨hnat.symm, t', rfl⟩

theorem getStr8_ne_oob (b : Bytes) (off : ℕ) : getStr8 b off ≠ oob := by
  refine bind_ne_oob (require_ne_oob _) fun _ h₁ => ?_
  rw [require_eq_accept] at h₁
  refine bind_ne_oob (byteAt_ne_oob (by omega)) fun len _ => ?_
  refine bind_ne_oob (require_ne_oob _) fun _ h₂ => ?_
  rw [require_eq_accept] at h₂
  exact bind_ne_oob (bytesAt_ne_oob h₂) fun s _ => by simp

theorem getData_eq_accept {b t d : Bytes} {off : ℕ} (h : At b off t) :
    getData b off = accept d ↔ d.length < 2 ^ 32 ∧ ∃ t', t = dataLayout d ++ t' := by
  simp only [getData, bind_eq_accept, require_eq_accept]
  constructor
  · rintro ⟨dlen, hdlen, _, _, hd⟩
    obtain ⟨t₁, rfl⟩ := (blockAt_eq_accept h).mp hdlen
    obtain ⟨hd, t₂, rfl⟩ := (bytesAt_eq_accept h.advance_block).mp hd
    have hlt := (getU32 dlen).toNat_lt
    have hval : dlen.val = toBE 4 d.length := by rw [hd]; exact (getU32_iff dlen _).mp rfl
    exact ⟨by omega, t₂, by rw [dataLayout, hval, List.append_assoc]⟩
  · rintro ⟨hd, t', rfl⟩
    rw [dataLayout, List.append_assoc] at h
    have hnat : (UInt32.ofNat d.length).toNat = d.length := by simp; omega
    have hget : getU32 ⟨toBE 4 d.length, length_toBE 4 _⟩ = UInt32.ofNat d.length :=
      (getU32_iff _ _).mpr (by rw [hnat])
    have hlen := h.length_eq
    simp only [List.length_append, length_toBE] at hlen
    refine ⟨⟨toBE 4 d.length, length_toBE 4 _⟩, (blockAt_eq_accept h).mpr ⟨_, rfl⟩, (), ?_, ?_⟩
    · rw [hget, hnat]
      omega
    · rw [hget, hnat]
      exact (bytesAt_eq_accept (h.advance (length_toBE 4 _))).mpr ⟨rfl, t', rfl⟩

theorem getData_ne_oob {b : Bytes} {off : ℕ} (h : off + 4 ≤ b.length) : getData b off ≠ oob := by
  refine bind_ne_oob (blockAt_ne_oob h) fun dlen _ => ?_
  refine bind_ne_oob (require_ne_oob _) fun _ h₂ => ?_
  rw [require_eq_accept] at h₂
  exact bytesAt_ne_oob h₂

theorem getExtension_eq_accept {b t : Bytes} {off : ℕ} (h : At b off t) {m : UInt8}
    {s : Block 64} {e : Bool} :
    getExtension b off = accept (m, s, e) ↔ ExtensionLayout t m s e := by
  have hlen := h.length_eq
  rw [getExtension, ExtensionLayout]
  split
  · next hge =>
    simp only [bind_eq_accept, pure_eq, accept.injEq, Prod.mk.injEq]
    constructor
    · rintro ⟨m', hm, s', hs, rfl, rfl, rfl⟩
      obtain ⟨t₁, rfl⟩ := (byteAt_eq_accept h).mp hm
      obtain ⟨t₂, rfl⟩ := (blockAt_eq_accept h.advance_byte).mp hs
      exact Or.inl ⟨rfl, t₂, rfl⟩
    · rintro (⟨rfl, t', rfl⟩ | ⟨-, -, -, hlt⟩)
      · exact ⟨m, (byteAt_eq_accept h).mpr ⟨_, rfl⟩, s,
          (blockAt_eq_accept h.advance_byte).mpr ⟨t', rfl⟩, rfl, rfl, rfl⟩
      · omega
  · next hlt =>
    simp only [pure_eq, accept.injEq, Prod.mk.injEq]
    constructor
    · rintro ⟨rfl, rfl, rfl⟩
      exact Or.inr ⟨rfl, rfl, rfl, by omega⟩
    · rintro (⟨-, t', rfl⟩ | ⟨rfl, rfl, rfl, -⟩)
      · simp only [List.length_cons, List.length_append, Block.length_val] at hlen
        omega
      · exact ⟨rfl, rfl, rfl⟩

theorem getExtension_ne_oob (b : Bytes) (off : ℕ) : getExtension b off ≠ oob := by
  rw [getExtension]
  split
  · next hge =>
    refine bind_ne_oob (byteAt_ne_oob (by omega)) fun _ _ => ?_
    exact bind_ne_oob (blockAt_ne_oob (by omega)) fun _ _ => by simp
  · simp

/-! ### Each decoder accepts its layout

Forwards the buffer is taken apart at the position each read leaves behind; backwards the same
positions show that every read finds what the layout put there. -/

theorem decodeRequest_eq_accept {b : Bytes} {v : RequestPayload} :
    decodeRequest b = accept v ↔ RequestLayout b v := by
  simp only [decodeRequest, bind_eq_accept, require_eq_accept, pure_eq, accept.injEq]
  constructor
  · rintro ⟨_, _, id, hid, flag, hflag, ⟨endpoint, off⟩, hname, _, _, data, hdata, rfl⟩
    have h₀ := At.start (rfl : b = b)
    obtain ⟨t₁, rfl⟩ := (blockAt_eq_accept h₀).mp hid
    have h₁ := h₀.advance_block
    obtain ⟨t₂, rfl⟩ := (byteAt_eq_accept h₁).mp hflag
    obtain ⟨hle, rfl, t₃, rfl⟩ := (getStr8_eq_accept h₁.advance_byte).mp hname
    obtain ⟨hlt, t₄, rfl⟩ := (getData_eq_accept (h₁.advance_byte.advance rfl)).mp hdata
    refine ⟨hle, hlt, flag, t₄, isFlag_ne_zero flag, ?_⟩
    rw [(getU64_iff id _).mp rfl]
  · rintro ⟨hle, hlt, flag, trailing, hflag, hb⟩
    have h₀ := At.start hb
    have h₁ := h₀.advance (length_toBE 8 v.requestId.toNat)
    have h₂ := h₁.advance_byte
    have h₃ := h₂.advance rfl
    have hlen := h₃.length_eq
    rw [List.length_append, length_dataLayout] at hlen
    refine ⟨(), by omega, ⟨_, length_toBE 8 _⟩, (blockAt_eq_accept h₀).mpr ⟨_, rfl⟩,
      flag, (byteAt_eq_accept h₁).mpr ⟨_, rfl⟩, (v.endpoint, _),
      (getStr8_eq_accept h₂).mpr ⟨hle, rfl, _, rfl⟩, (), by dsimp only; omega, v.data,
      (getData_eq_accept h₃).mpr ⟨hlt, trailing, rfl⟩, ?_⟩
    rw [(getU64_iff _ v.requestId).mpr rfl, hflag.eq_decide]

theorem decodeResponse_eq_accept {b : Bytes} {v : ResponsePayload} :
    decodeResponse b = accept v ↔ ResponseLayout b v := by
  simp only [decodeResponse, bind_eq_accept, require_eq_accept, pure_eq, accept.injEq]
  constructor
  · rintro ⟨_, _, id, hid, status, hstatus, data, hdata, rfl⟩
    have h₀ := At.start (rfl : b = b)
    obtain ⟨t₁, rfl⟩ := (blockAt_eq_accept h₀).mp hid
    have h₁ := h₀.advance_block
    obtain ⟨t₂, rfl⟩ := (byteAt_eq_accept h₁).mp hstatus
    obtain ⟨hlt, t₃, rfl⟩ := (getData_eq_accept h₁.advance_byte).mp hdata
    refine ⟨hlt, t₃, ?_⟩
    rw [(getU64_iff id _).mp rfl]
  · rintro ⟨hlt, trailing, hb⟩
    have h₀ := At.start hb
    have h₁ := h₀.advance (length_toBE 8 v.requestId.toNat)
    have h₂ := h₁.advance_byte
    have hlen := h₂.length_eq
    rw [List.length_append, length_dataLayout] at hlen
    refine ⟨(), by omega, ⟨_, length_toBE 8 _⟩, (blockAt_eq_accept h₀).mpr ⟨_, rfl⟩,
      v.status, (byteAt_eq_accept h₁).mpr ⟨_, rfl⟩, v.data,
      (getData_eq_accept h₂).mpr ⟨hlt, trailing, rfl⟩, ?_⟩
    rw [(getU64_iff _ v.requestId).mpr rfl]

theorem decodeStreamChunk_eq_accept {b : Bytes} {v : StreamChunkPayload} :
    decodeStreamChunk b = accept v ↔ StreamChunkLayout b v := by
  simp only [decodeStreamChunk, bind_eq_accept, require_eq_accept, pure_eq, accept.injEq]
  constructor
  · rintro ⟨_, _, id, hid, seq, hseq, flag, hflag, ⟨endpoint, off⟩, hname, _, _, data, hdata, rfl⟩
    have h₀ := At.start (rfl : b = b)
    obtain ⟨t₁, rfl⟩ := (blockAt_eq_accept h₀).mp hid
    have h₁ := h₀.advance_block
    obtain ⟨t₂, rfl⟩ := (blockAt_eq_accept h₁).mp hseq
    have h₂ := h₁.advance_block
    obtain ⟨t₃, rfl⟩ := (byteAt_eq_accept h₂).mp hflag
    obtain ⟨hle, rfl, t₄, rfl⟩ := (getStr8_eq_accept h₂.advance_byte).mp hname
    obtain ⟨hlt, t₅, rfl⟩ := (getData_eq_accept (h₂.advance_byte.advance rfl)).mp hdata
    refine ⟨hle, hlt, flag, t₅, isFlag_ne_zero flag, ?_⟩
    rw [(getU64_iff id _).mp rfl, (getU32_iff seq _).mp rfl]
  · rintro ⟨hle, hlt, flag, trailing, hflag, hb⟩
    have h₀ := At.start hb
    have h₁ := h₀.advance (length_toBE 8 v.requestId.toNat)
    have h₂ := h₁.advance (length_toBE 4 v.seq.toNat)
    have h₃ := h₂.advance_byte
    have h₄ := h₃.advance rfl
    have hlen := h₄.length_eq
    rw [List.length_append, length_dataLayout] at hlen
    refine ⟨(), by omega, ⟨_, length_toBE 8 _⟩, (blockAt_eq_accept h₀).mpr ⟨_, rfl⟩,
      ⟨_, length_toBE 4 _⟩, (blockAt_eq_accept h₁).mpr ⟨_, rfl⟩,
      flag, (byteAt_eq_accept h₂).mpr ⟨_, rfl⟩, (v.endpoint, _),
      (getStr8_eq_accept h₃).mpr ⟨hle, rfl, _, rfl⟩, (), by dsimp only; omega, v.data,
      (getData_eq_accept h₄).mpr ⟨hlt, trailing, rfl⟩, ?_⟩
    rw [(getU64_iff _ v.requestId).mpr rfl, (getU32_iff _ v.seq).mpr rfl, hflag.eq_decide]

theorem decodeError_eq_accept {b : Bytes} {v : ErrorPayload} :
    decodeError b = accept v ↔ ErrorLayout b v := by
  simp only [decodeError, bind_eq_accept, require_eq_accept, pure_eq, accept.injEq]
  constructor
  · rintro ⟨_, _, hi, hhi, lo, hlo, message, hmsg, rfl⟩
    have h₀ := At.start (rfl : b = b)
    obtain ⟨t₁, rfl⟩ := (byteAt_eq_accept h₀).mp hhi
    have h₁ := h₀.advance_byte
    obtain ⟨t₂, rfl⟩ := (byteAt_eq_accept h₁).mp hlo
    obtain ⟨hlen, t₃, rfl⟩ := (bytesAt_eq_accept h₁.advance_byte).mp hmsg
    have hnil : t₃ = [] := by
      simp only [List.length_cons, List.length_append] at hlen
      exact List.length_eq_zero_iff.mp (by omega)
    rw [ErrorLayout, ← (getU16_iff hi lo _).mp rfl, hnil]
    simp
  · intro h
    -- The two reason bytes, one at a time.
    have hb : ∃ hi lo : UInt8, toBE 2 v.reason.toNat = [hi, lo] := ⟨_, _, rfl⟩
    obtain ⟨hi, lo, hbytes⟩ := hb
    rw [ErrorLayout, hbytes] at h
    have h₀ : At b 0 (hi :: lo :: v.message) := At.start h
    have h₁ := h₀.advance_byte
    have hlen := h₀.length_eq
    simp only [List.length_cons] at hlen
    refine ⟨(), by omega, hi, (byteAt_eq_accept h₀).mpr ⟨_, rfl⟩, lo,
      (byteAt_eq_accept h₁).mpr ⟨_, rfl⟩, v.message,
      (bytesAt_eq_accept h₁.advance_byte).mpr ⟨by omega, [], by simp⟩, ?_⟩
    rw [(getU16_iff hi lo v.reason).mpr hbytes.symm]

theorem decodeHello_eq_accept {b : Bytes} {v : HelloPayload} :
    decodeHello b = accept v ↔ HelloLayout b v := by
  simp only [decodeHello, bind_eq_accept, require_eq_accept, pure_eq, accept.injEq]
  constructor
  · rintro ⟨_, _, version, hver, id, hid, eph, heph, nonce, hnonce, ⟨name, off⟩, hname, _, _, sig,
      hsig, ⟨m, s, e⟩, hext, rfl⟩
    have h₀ := At.start (rfl : b = b)
    obtain ⟨t₁, rfl⟩ := (byteAt_eq_accept h₀).mp hver
    have h₁ := h₀.advance_byte
    obtain ⟨t₂, rfl⟩ := (blockAt_eq_accept h₁).mp hid
    have h₂ := h₁.advance_block
    obtain ⟨t₃, rfl⟩ := (blockAt_eq_accept h₂).mp heph
    have h₃ := h₂.advance_block
    obtain ⟨t₄, rfl⟩ := (blockAt_eq_accept h₃).mp hnonce
    have h₄ := h₃.advance_block
    obtain ⟨hle, rfl, t₅, rfl⟩ := (getStr8_eq_accept h₄).mp hname
    have h₅ := h₄.advance rfl
    obtain ⟨t₆, rfl⟩ := (blockAt_eq_accept h₅).mp hsig
    exact ⟨hle, t₆, (getExtension_eq_accept h₅.advance_block).mp hext, rfl⟩
  · rintro ⟨hle, rest, hext, hb⟩
    have h₀ := At.start hb
    have h₁ := h₀.advance_byte
    have h₂ := h₁.advance_block
    have h₃ := h₂.advance_block
    have h₄ := h₃.advance_block
    have h₅ := h₄.advance rfl
    have hlen := h₅.length_eq
    rw [List.length_append, Block.length_val] at hlen
    exact ⟨(), by omega, _, (byteAt_eq_accept h₀).mpr ⟨_, rfl⟩,
      _, (blockAt_eq_accept h₁).mpr ⟨_, rfl⟩, _, (blockAt_eq_accept h₂).mpr ⟨_, rfl⟩,
      _, (blockAt_eq_accept h₃).mpr ⟨_, rfl⟩, (v.serviceName, _),
      (getStr8_eq_accept h₄).mpr ⟨hle, rfl, _, rfl⟩, (), by dsimp only; omega,
      _, (blockAt_eq_accept h₅).mpr ⟨_, rfl⟩, (_, _, _),
      (getExtension_eq_accept h₅.advance_block).mpr hext, rfl⟩

theorem decodeHelloAck_eq_accept {b : Bytes} {v : HelloAckPayload} :
    decodeHelloAck b = accept v ↔ HelloAckLayout b v := by
  simp only [decodeHelloAck, bind_eq_accept, require_eq_accept, pure_eq, accept.injEq]
  constructor
  · rintro ⟨_, _, version, hver, id, hid, eph, heph, sn, hsn, cn, hcn, status, hstatus, sig, hsig,
      ⟨m, s, e⟩, hext, rfl⟩
    have h₀ := At.start (rfl : b = b)
    obtain ⟨t₁, rfl⟩ := (byteAt_eq_accept h₀).mp hver
    have h₁ := h₀.advance_byte
    obtain ⟨t₂, rfl⟩ := (blockAt_eq_accept h₁).mp hid
    have h₂ := h₁.advance_block
    obtain ⟨t₃, rfl⟩ := (blockAt_eq_accept h₂).mp heph
    have h₃ := h₂.advance_block
    obtain ⟨t₄, rfl⟩ := (blockAt_eq_accept h₃).mp hsn
    have h₄ := h₃.advance_block
    obtain ⟨t₅, rfl⟩ := (blockAt_eq_accept h₄).mp hcn
    have h₅ := h₄.advance_block
    obtain ⟨t₆, rfl⟩ := (byteAt_eq_accept h₅).mp hstatus
    have h₆ := h₅.advance_byte
    obtain ⟨t₇, rfl⟩ := (blockAt_eq_accept h₆).mp hsig
    exact ⟨t₇, (getExtension_eq_accept h₆.advance_block).mp hext, rfl⟩
  · rintro ⟨rest, hext, hb⟩
    have h₀ := At.start hb
    have h₁ := h₀.advance_byte
    have h₂ := h₁.advance_block
    have h₃ := h₂.advance_block
    have h₄ := h₃.advance_block
    have h₅ := h₄.advance_block
    have h₆ := h₅.advance_byte
    have hlen := h₆.length_eq
    rw [List.length_append, Block.length_val] at hlen
    exact ⟨(), by omega, _, (byteAt_eq_accept h₀).mpr ⟨_, rfl⟩,
      _, (blockAt_eq_accept h₁).mpr ⟨_, rfl⟩, _, (blockAt_eq_accept h₂).mpr ⟨_, rfl⟩,
      _, (blockAt_eq_accept h₃).mpr ⟨_, rfl⟩, _, (blockAt_eq_accept h₄).mpr ⟨_, rfl⟩,
      _, (byteAt_eq_accept h₅).mpr ⟨_, rfl⟩, _, (blockAt_eq_accept h₆).mpr ⟨_, rfl⟩, (_, _, _),
      (getExtension_eq_accept h₆.advance_block).mpr hext, rfl⟩

/-! ### No decoder reads outside its buffer -/

theorem decodeRequest_ne_oob (b : Bytes) : decodeRequest b ≠ oob := by
  refine bind_ne_oob (require_ne_oob _) fun _ h => ?_
  rw [require_eq_accept] at h
  refine bind_ne_oob (blockAt_ne_oob (by omega)) fun _ _ => ?_
  refine bind_ne_oob (byteAt_ne_oob (by omega)) fun _ _ => ?_
  refine bind_ne_oob (getStr8_ne_oob _ _) fun ⟨_, off⟩ _ => ?_
  refine bind_ne_oob (require_ne_oob _) fun _ h' => ?_
  rw [require_eq_accept] at h'
  exact bind_ne_oob (getData_ne_oob h') fun _ _ => by simp

theorem decodeResponse_ne_oob (b : Bytes) : decodeResponse b ≠ oob := by
  refine bind_ne_oob (require_ne_oob _) fun _ h => ?_
  rw [require_eq_accept] at h
  refine bind_ne_oob (blockAt_ne_oob (by omega)) fun _ _ => ?_
  refine bind_ne_oob (byteAt_ne_oob (by omega)) fun _ _ => ?_
  exact bind_ne_oob (getData_ne_oob (by omega)) fun _ _ => by simp

theorem decodeStreamChunk_ne_oob (b : Bytes) : decodeStreamChunk b ≠ oob := by
  refine bind_ne_oob (require_ne_oob _) fun _ h => ?_
  rw [require_eq_accept] at h
  refine bind_ne_oob (blockAt_ne_oob (by omega)) fun _ _ => ?_
  refine bind_ne_oob (blockAt_ne_oob (by omega)) fun _ _ => ?_
  refine bind_ne_oob (byteAt_ne_oob (by omega)) fun _ _ => ?_
  refine bind_ne_oob (getStr8_ne_oob _ _) fun ⟨_, off⟩ _ => ?_
  refine bind_ne_oob (require_ne_oob _) fun _ h' => ?_
  rw [require_eq_accept] at h'
  exact bind_ne_oob (getData_ne_oob h') fun _ _ => by simp

theorem decodeError_ne_oob (b : Bytes) : decodeError b ≠ oob := by
  refine bind_ne_oob (require_ne_oob _) fun _ h => ?_
  rw [require_eq_accept] at h
  refine bind_ne_oob (byteAt_ne_oob (by omega)) fun _ _ => ?_
  refine bind_ne_oob (byteAt_ne_oob (by omega)) fun _ _ => ?_
  exact bind_ne_oob (bytesAt_ne_oob (by omega)) fun _ _ => by simp

theorem decodeHello_ne_oob (b : Bytes) : decodeHello b ≠ oob := by
  refine bind_ne_oob (require_ne_oob _) fun _ h => ?_
  rw [require_eq_accept] at h
  refine bind_ne_oob (byteAt_ne_oob (by omega)) fun _ _ => ?_
  refine bind_ne_oob (blockAt_ne_oob (by omega)) fun _ _ => ?_
  refine bind_ne_oob (blockAt_ne_oob (by omega)) fun _ _ => ?_
  refine bind_ne_oob (blockAt_ne_oob (by omega)) fun _ _ => ?_
  refine bind_ne_oob (getStr8_ne_oob _ _) fun ⟨_, off⟩ _ => ?_
  refine bind_ne_oob (require_ne_oob _) fun _ h' => ?_
  rw [require_eq_accept] at h'
  refine bind_ne_oob (blockAt_ne_oob h') fun _ _ => ?_
  exact bind_ne_oob (getExtension_ne_oob _ _) fun ⟨_, _, _⟩ _ => by simp

theorem decodeHelloAck_ne_oob (b : Bytes) : decodeHelloAck b ≠ oob := by
  refine bind_ne_oob (require_ne_oob _) fun _ h => ?_
  rw [require_eq_accept] at h
  refine bind_ne_oob (byteAt_ne_oob (by omega)) fun _ _ => ?_
  refine bind_ne_oob (blockAt_ne_oob (by omega)) fun _ _ => ?_
  refine bind_ne_oob (blockAt_ne_oob (by omega)) fun _ _ => ?_
  refine bind_ne_oob (blockAt_ne_oob (by omega)) fun _ _ => ?_
  refine bind_ne_oob (blockAt_ne_oob (by omega)) fun _ _ => ?_
  refine bind_ne_oob (byteAt_ne_oob (by omega)) fun _ _ => ?_
  refine bind_ne_oob (blockAt_ne_oob (by omega)) fun _ _ => ?_
  exact bind_ne_oob (getExtension_ne_oob _ _) fun ⟨_, _, _⟩ _ => by simp

/-! ### Encodings are layouts

A name over 255 bytes or data of 4 GiB or more would not fit its length field; the predicates
below say when a payload value has an encoding that means it. -/

def RequestPayload.Encodable (v : RequestPayload) : Prop :=
  v.endpoint.length ≤ 255 ∧ v.data.length < 2 ^ 32

def ResponsePayload.Encodable (v : ResponsePayload) : Prop := v.data.length < 2 ^ 32

def StreamChunkPayload.Encodable (v : StreamChunkPayload) : Prop :=
  v.endpoint.length ≤ 255 ∧ v.data.length < 2 ^ 32

/-- The extension fields are set exactly when the advertised version is 2 or more. -/
def ExtensionEncodable (maxVersion : UInt8) (signatureV2 : Block 64) (hasV2Extension : Bool) :
    Prop :=
  1 ≤ maxVersion ∧ hasV2Extension = decide (2 ≤ maxVersion) ∧
    (maxVersion < 2 → signatureV2 = Block.zero 64)

def HelloPayload.Encodable (v : HelloPayload) : Prop :=
  v.serviceName.length ≤ 255 ∧ ExtensionEncodable v.maxVersion v.signatureV2 v.hasV2Extension

def HelloAckPayload.Encodable (v : HelloAckPayload) : Prop :=
  ExtensionEncodable v.maxVersion v.signatureV2 v.hasV2Extension

theorem putStr8_eq (s : Bytes) : putStr8 s = nameLayout s := by
  rw [putStr8, nameLayout, toBE_one]
  rfl

theorem putData_eq {d : Bytes} (h : d.length < 2 ^ 32) : putData d = dataLayout d := by
  rw [putData, dataLayout, putU32_eq, UInt32.toNat_ofNat', Nat.mod_eq_of_lt h]

theorem isFlag_ite (v : Bool) : IsFlag (if v then 1 else 0) v := by
  cases v <;> simp [IsFlag]

theorem extensionLayout_putExtension {m : UInt8} {s : Block 64} {e : Bool}
    (h : ExtensionEncodable m s e) : ExtensionLayout (putExtension m s) m s e := by
  obtain ⟨hone, rfl, hzero⟩ := h
  by_cases h2 : m ≥ 2
  · exact Or.inl ⟨by simpa using h2, [], by simp [putExtension, h2]⟩
  · have hlt : m < 2 := by simpa using h2
    refine Or.inr ⟨by simpa using hlt, ?_, hzero hlt, by simp [putExtension, h2]⟩
    have h1 : 1 ≤ m.toNat := hone
    have h2 : m.toNat < 2 := hlt
    exact UInt8.toNat_inj.mp (show m.toNat = 1 by omega)

theorem requestLayout_encodeRequest (v : RequestPayload) (h : v.Encodable) :
    RequestLayout (encodeRequest v) v := by
  refine ⟨h.1, h.2, _, [], isFlag_ite v.oneway, ?_⟩
  simp [encodeRequest, putU64_eq, putStr8_eq, putData_eq h.2]

theorem responseLayout_encodeResponse (v : ResponsePayload) (h : v.Encodable) :
    ResponseLayout (encodeResponse v) v := by
  refine ⟨h, [], ?_⟩
  simp [encodeResponse, putU64_eq, putData_eq h]

theorem streamChunkLayout_encodeStreamChunk (v : StreamChunkPayload) (h : v.Encodable) :
    StreamChunkLayout (encodeStreamChunk v) v := by
  refine ⟨h.1, h.2, _, [], isFlag_ite v.isLast, ?_⟩
  simp [encodeStreamChunk, putU64_eq, putU32_eq, putStr8_eq, putData_eq h.2]

theorem errorLayout_encodeError (v : ErrorPayload) : ErrorLayout (encodeError v) v := by
  rw [ErrorLayout, encodeError, putU16_eq]

theorem helloLayout_encodeHello (v : HelloPayload) (h : v.Encodable) :
    HelloLayout (encodeHello v) v := by
  refine ⟨h.1, _, extensionLayout_putExtension h.2, ?_⟩
  simp [encodeHello, putStr8_eq]

theorem helloAckLayout_encodeHelloAck (v : HelloAckPayload) (h : v.Encodable) :
    HelloAckLayout (encodeHelloAck v) v := by
  refine ⟨_, extensionLayout_putExtension h, ?_⟩
  simp [encodeHelloAck]

/-- **Each wire decoder accepts exactly its grammar**, never reads outside its buffer, and
inverts its encoder. -/
theorem decoders_accept_exactly_their_grammar :
    DecodesExactly decodeRequest encodeRequest RequestLayout RequestPayload.Encodable ∧
    DecodesExactly decodeResponse encodeResponse ResponseLayout ResponsePayload.Encodable ∧
    DecodesExactly decodeStreamChunk encodeStreamChunk StreamChunkLayout
      StreamChunkPayload.Encodable ∧
    DecodesExactly decodeError encodeError ErrorLayout (fun _ => True) ∧
    DecodesExactly decodeHello encodeHello HelloLayout HelloPayload.Encodable ∧
    DecodesExactly decodeHelloAck encodeHelloAck HelloAckLayout HelloAckPayload.Encodable :=
  ⟨.of_layout decodeRequest_eq_accept decodeRequest_ne_oob requestLayout_encodeRequest,
    .of_layout decodeResponse_eq_accept decodeResponse_ne_oob responseLayout_encodeResponse,
    .of_layout decodeStreamChunk_eq_accept decodeStreamChunk_ne_oob
      streamChunkLayout_encodeStreamChunk,
    .of_layout decodeError_eq_accept decodeError_ne_oob fun v _ => errorLayout_encodeError v,
    .of_layout decodeHello_eq_accept decodeHello_ne_oob helloLayout_encodeHello,
    .of_layout decodeHelloAck_eq_accept decodeHelloAck_ne_oob helloAckLayout_encodeHelloAck⟩

end Epx
