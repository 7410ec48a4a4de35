import Epx.Lib.Parse

/-!
# Wire payloads

`src/protocol.hpp` and `src/protocol.cpp`: the payload structs, the byte strings the handshake
signatures cover, and the hand-written encoders and decoders.

A `std::string` or `std::vector<uint8_t>` is a byte string and a `std::array<uint8_t, n>` is a
`Block n`. A decoder takes the input buffer and answers with a `Parse`: `reject` is the source's
`return false`, and `oob` is a read outside the buffer, which the source would perform silently.
`size_t` is 64 bits wide, so no sum of an offset and a length read from the wire wraps, and
offsets are natural numbers.

## Main definitions

* `HelloPayload`, `HelloAckPayload`, `RequestPayload`, `ResponsePayload`, `ErrorPayload`,
  `StreamChunkPayload`
* `encodeHello`, `decodeHello` and their five siblings
* `helloSignedBytes`, `helloAckSignedBytes`, `helloSignedBytesV2`, `helloAckSignedBytesV2`
* `negotiateVersion`
-/

namespace Epx

open Codec

/-- `epx::PublicKey`: a long-term Ed25519 public key. -/
abbrev PublicKey := Block 32

/-- `epx::SecretKey`: a long-term Ed25519 secret key. -/
abbrev SecretKey := Block 64

/-- `epx::Identity`. -/
structure Identity where
  publicKey : PublicKey
  secretKey : SecretKey
  deriving DecidableEq

/-! ### Versions and frame types -/

/-- `wire::kProtocolVersionMin`. -/
def kProtocolVersionMin : UInt8 := 1

/-- `wire::kProtocolVersion`, the byte a v1 peer expects to see first in a HELLO. -/
def kProtocolVersion : UInt8 := 1

/-- The session version for two advertised maxima, or `0` when the ranges do not overlap. -/
def negotiateVersion (ours theirs : UInt8) : UInt8 :=
  let v := if ours < theirs then ours else theirs
  if v ≥ kProtocolVersionMin then v else 0

/-- `wire::FrameType`, an enumeration over `uint8_t`. A frame read from the wire may carry any
byte, so every byte is a value of the type and the named ones are constants of it. -/
structure FrameType where
  code : UInt8
  deriving DecidableEq

namespace FrameType

def hello : FrameType := ⟨0⟩
def helloAck : FrameType := ⟨1⟩
def request : FrameType := ⟨2⟩
def response : FrameType := ⟨3⟩
def error : FrameType := ⟨4⟩
def ping : FrameType := ⟨5⟩
def pong : FrameType := ⟨6⟩
def bye : FrameType := ⟨7⟩
def streamChunk : FrameType := ⟨8⟩
def rekey : FrameType := ⟨9⟩
def rekeyAck : FrameType := ⟨10⟩

end FrameType

/-! ### Integers on the wire -/

/-- `put_u32`: the four bytes appended to the output. -/
def putU32 (v : UInt32) : Bytes :=
  [(v >>> 24).toUInt8, (v >>> 16).toUInt8, (v >>> 8).toUInt8, v.toUInt8]

/-- `put_u64`: `uint8_t(v >> (i * 8))` for `i` from 7 down to 0. -/
def putU64 (v : UInt64) : Bytes :=
  ([56, 48, 40, 32, 24, 16, 8, 0] : List UInt64).map fun s => (v >>> s).toUInt8

/-- `get_u32` on the four bytes at its pointer. -/
def getU32 (p : Block 4) : UInt32 :=
  match p.val with
  | [p0, p1, p2, p3] =>
    (p0.toUInt32 <<< 24) ||| (p1.toUInt32 <<< 16) ||| (p2.toUInt32 <<< 8) ||| p3.toUInt32
  | _ => 0

/-- `get_u64` on the eight bytes at its pointer. -/
def getU64 (p : Block 8) : UInt64 :=
  p.val.foldl (fun v b => (v <<< 8) ||| b.toUInt64) 0

/-! ### Payloads -/

/-- `wire::HelloPayload`. -/
structure HelloPayload where
  version : UInt8 := kProtocolVersion
  identityPubkey : PublicKey := Block.zero 32
  ephemeralPubkey : Block 32 := Block.zero 32
  clientNonce : Block 16 := Block.zero 16
  serviceName : Bytes := []
  signature : Block 64 := Block.zero 64
  maxVersion : UInt8 := 1
  signatureV2 : Block 64 := Block.zero 64
  hasV2Extension : Bool := false
  deriving DecidableEq

/-- `wire::HelloAckPayload`. -/
structure HelloAckPayload where
  version : UInt8 := kProtocolVersion
  identityPubkey : PublicKey := Block.zero 32
  ephemeralPubkey : Block 32 := Block.zero 32
  serverNonce : Block 16 := Block.zero 16
  clientNonce : Block 16 := Block.zero 16
  status : UInt8 := 0
  signature : Block 64 := Block.zero 64
  maxVersion : UInt8 := 1
  signatureV2 : Block 64 := Block.zero 64
  hasV2Extension : Bool := false
  deriving DecidableEq

/-- `wire::RequestPayload`. -/
structure RequestPayload where
  requestId : UInt64 := 0
  oneway : Bool := false
  endpoint : Bytes := []
  data : Bytes := []
  deriving DecidableEq

/-- `wire::ResponsePayload`. -/
structure ResponsePayload where
  requestId : UInt64 := 0
  status : UInt8 := 0
  data : Bytes := []
  deriving DecidableEq

/-- `wire::ErrorPayload`. -/
structure ErrorPayload where
  reason : UInt16 := 0
  message : Bytes := []
  deriving DecidableEq

/-- `wire::kErrRateLimited`. -/
def kErrRateLimited : UInt16 := 1

/-- `wire::StreamChunkPayload`. -/
structure StreamChunkPayload where
  requestId : UInt64 := 0
  seq : UInt32 := 0
  isLast : Bool := false
  endpoint : Bytes := []
  data : Bytes := []
  deriving DecidableEq

/-! ### Signed transcripts -/

/-- The v1 HELLO transcript: `ephemeral_pubkey || client_nonce || service_name`. -/
def helloSignedBytes (ephemeralPubkey : Block 32) (clientNonce : Block 16)
    (serviceName : Bytes) : Bytes :=
  ephemeralPubkey.val ++ (clientNonce.val ++ serviceName)

/-- The v1 HELLO_ACK transcript: `ephemeral_pubkey || server_nonce || client_nonce`. -/
def helloAckSignedBytes (ephemeralPubkey : Block 32) (serverNonce clientNonce : Block 16) :
    Bytes :=
  ephemeralPubkey.val ++ (serverNonce.val ++ clientNonce.val)

/-- The ASCII bytes of a tag. -/
def tagBytes (tag : List Char) : Bytes := tag.map fun c => UInt8.ofNat c.toNat

/-- `"EPX-v2-hello"`. -/
def helloTagV2 : Bytes :=
  tagBytes ['E', 'P', 'X', '-', 'v', '2', '-', 'h', 'e', 'l', 'l', 'o']

/-- `"EPX-v2-ack"`. -/
def helloAckTagV2 : Bytes := tagBytes ['E', 'P', 'X', '-', 'v', '2', '-', 'a', 'c', 'k']

/-- The v2 HELLO transcript. -/
def helloSignedBytesV2 (maxVersion : UInt8) (clientIdentity : PublicKey)
    (ephemeralPubkey : Block 32) (clientNonce : Block 16) (serviceName : Bytes) : Bytes :=
  helloTagV2 ++ (maxVersion ::
    (clientIdentity.val ++ (ephemeralPubkey.val ++ (clientNonce.val ++ serviceName))))

/-- The v2 HELLO_ACK transcript. -/
def helloAckSignedBytesV2 (serverMaxVersion negotiatedVersion status : UInt8)
    (serverIdentity clientIdentity : PublicKey) (ephemeralPubkey : Block 32)
    (serverNonce clientNonce : Block 16) : Bytes :=
  helloAckTagV2 ++ (serverMaxVersion :: negotiatedVersion :: status ::
    (serverIdentity.val ++ (clientIdentity.val ++
      (ephemeralPubkey.val ++ (serverNonce.val ++ clientNonce.val)))))

/-! ### Encoders -/

/-- `put_str8`: a one-byte length, `s.size() & 0xFF`, and then the whole string. -/
def putStr8 (s : Bytes) : Bytes := UInt8.ofNat s.length :: s

/-- A four-byte length, `uint32_t(data.size())`, and then the data. -/
def putData (data : Bytes) : Bytes := putU32 (UInt32.ofNat data.length) ++ data

/-- The trailing v2 extension: absent unless `max_version >= 2`. -/
def putExtension (maxVersion : UInt8) (signatureV2 : Block 64) : Bytes :=
  if maxVersion ≥ 2 then maxVersion :: signatureV2.val else []

def encodeHello (h : HelloPayload) : Bytes :=
  [h.version] ++ h.identityPubkey.val ++ h.ephemeralPubkey.val ++ h.clientNonce.val ++
    putStr8 h.serviceName ++ h.signature.val ++ putExtension h.maxVersion h.signatureV2

def encodeHelloAck (h : HelloAckPayload) : Bytes :=
  [h.version] ++ h.identityPubkey.val ++ h.ephemeralPubkey.val ++ h.serverNonce.val ++
    h.clientNonce.val ++ [h.status] ++ h.signature.val ++ putExtension h.maxVersion h.signatureV2

def encodeError (e : ErrorPayload) : Bytes :=
  [(e.reason >>> 8).toUInt8, (e.reason &&& 0xFF).toUInt8] ++ e.message

def encodeRequest (r : RequestPayload) : Bytes :=
  putU64 r.requestId ++ [if r.oneway then 1 else 0] ++ putStr8 r.endpoint ++ putData r.data

def encodeResponse (r : ResponsePayload) : Bytes :=
  putU64 r.requestId ++ [r.status] ++ putData r.data

def encodeStreamChunk (c : StreamChunkPayload) : Bytes :=
  putU64 c.requestId ++ putU32 c.seq ++ [if c.isLast then 1 else 0] ++ putStr8 c.endpoint ++
    putData c.data

/-! ### Decoders -/

open Parse

/-- `get_str8`: the string at `off` and the offset past it. -/
def getStr8 (b : Bytes) (off : ℕ) : Parse (Bytes × ℕ) := do
  require (off + 1 ≤ b.length)
  let len ← byteAt b off
  let off := off + 1
  require (off + len.toNat ≤ b.length)
  let s ← bytesAt b off len.toNat
  pure (s, off + len.toNat)

/-- The tail that `decode_request`, `decode_response` and `decode_stream_chunk` share once the
four length bytes are known to be there: the length, its check, and the data. -/
def getData (b : Bytes) (off : ℕ) : Parse Bytes := do
  let dlen ← blockAt b off 4
  let off := off + 4
  require (off + (getU32 dlen).toNat ≤ b.length)
  bytesAt b off (getU32 dlen).toNat

/-- The extension fields `max_version`, `signature_v2` and `has_v2_extension`: read when at least
65 bytes are left, and otherwise the values the decoders preset. -/
def getExtension (b : Bytes) (off : ℕ) : Parse (UInt8 × Block 64 × Bool) :=
  if b.length ≥ off + 1 + 64 then do
    let maxVersion ← byteAt b off
    let signatureV2 ← blockAt b (off + 1) 64
    pure (maxVersion, signatureV2, true)
  else pure (1, Block.zero 64, false)

def decodeHello (b : Bytes) : Parse HelloPayload := do
  require (1 + 32 + 32 + 16 + 1 ≤ b.length)
  let version ← byteAt b 0
  let identityPubkey ← blockAt b 1 32
  let ephemeralPubkey ← blockAt b (1 + 32) 32
  let clientNonce ← blockAt b (1 + 32 + 32) 16
  let (serviceName, off) ← getStr8 b (1 + 32 + 32 + 16)
  require (off + 64 ≤ b.length)
  let signature ← blockAt b off 64
  let (maxVersion, signatureV2, hasV2Extension) ← getExtension b (off + 64)
  pure { version, identityPubkey, ephemeralPubkey, clientNonce, serviceName, signature,
         maxVersion, signatureV2, hasV2Extension }

def decodeHelloAck (b : Bytes) : Parse HelloAckPayload := do
  require (1 + 32 + 32 + 16 + 16 + 1 + 64 ≤ b.length)
  let version ← byteAt b 0
  let identityPubkey ← blockAt b 1 32
  let ephemeralPubkey ← blockAt b (1 + 32) 32
  let serverNonce ← blockAt b (1 + 32 + 32) 16
  let clientNonce ← blockAt b (1 + 32 + 32 + 16) 16
  let status ← byteAt b (1 + 32 + 32 + 16 + 16)
  let signature ← blockAt b (1 + 32 + 32 + 16 + 16 + 1) 64
  let (maxVersion, signatureV2, hasV2Extension) ←
    getExtension b (1 + 32 + 32 + 16 + 16 + 1 + 64)
  pure { version, identityPubkey, ephemeralPubkey, serverNonce, clientNonce, status, signature,
         maxVersion, signatureV2, hasV2Extension }

def decodeError (b : Bytes) : Parse ErrorPayload := do
  require (2 ≤ b.length)
  let hi ← byteAt b 0
  let lo ← byteAt b 1
  let message ← bytesAt b 2 (b.length - 2)
  pure { reason := (hi.toUInt16 <<< 8) ||| lo.toUInt16, message }

def decodeRequest (b : Bytes) : Parse RequestPayload := do
  require (8 + 1 + 1 ≤ b.length)
  let requestId ← blockAt b 0 8
  let oneway ← byteAt b 8
  let (endpoint, off) ← getStr8 b (8 + 1)
  require (off + 4 ≤ b.length)
  let data ← getData b off
  pure { requestId := getU64 requestId, oneway := oneway ≠ 0, endpoint, data }

def decodeResponse (b : Bytes) : Parse ResponsePayload := do
  require (8 + 1 + 4 ≤ b.length)
  let requestId ← blockAt b 0 8
  let status ← byteAt b 8
  let data ← getData b (8 + 1)
  pure { requestId := getU64 requestId, status, data }

def decodeStreamChunk (b : Bytes) : Parse StreamChunkPayload := do
  require (8 + 4 + 1 + 1 ≤ b.length)
  let requestId ← blockAt b 0 8
  let seq ← blockAt b 8 4
  let isLast ← byteAt b (8 + 4)
  let (endpoint, off) ← getStr8 b (8 + 4 + 1)
  require (off + 4 ≤ b.length)
  let data ← getData b off
  pure { requestId := getU64 requestId, seq := getU32 seq, isLast := isLast ≠ 0, endpoint, data }

end Epx
