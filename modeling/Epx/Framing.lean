import Epx.Crypto

/-!
# Stream framing

`src/framing.hpp` and `src/framing.cpp`: raw frames on a byte stream. A frame is a four-byte
length, a header and a body; sessions at v2 carry one more header byte, the key epoch.

`writeFrame` is the byte string the three `send_all` calls hand to the transport, and `readFrame`
takes a stream and gives back the frame it starts with and the stream after it; `readFrameTraced`
also gives the sizes of the buffers on the way.

## Main results

* `readFrame_writeFrame` — a frame within the cap is read back as itself
* `readFrame_eq_some` — what a stream that yields a frame starts with
* `readFrame_writeFrame_iff` — the frames that are read back as themselves
-/

namespace Epx

open Codec

/-- `framing::RawFrame`. -/
structure RawFrame where
  type : FrameType
  counter : UInt64 := 0
  epoch : UInt8 := 0
  body : Bytes
  deriving DecidableEq

/-- `wire::kMaxFrameBytes`, 16 MiB. -/
def kMaxFrameBytes : ℕ := 16 * 1024 * 1024

/-- `header_len`. -/
def headerLen (withEpoch : Bool) : ℕ := if withEpoch then 1 + 8 + 1 else 1 + 8

/-- The header `write_frame` builds. -/
def frameHeader (withEpoch : Bool) (f : RawFrame) : Bytes :=
  f.type.code :: (putU64 f.counter ++ if withEpoch then [f.epoch] else [])

/-- The bytes of `write_frame`: the length prefix, the header and the body. -/
def writeFrame (withEpoch : Bool) (f : RawFrame) : Bytes :=
  putU32 (UInt32.ofNat ((frameHeader withEpoch f).length + f.body.length)) ++
    (frameHeader withEpoch f ++ f.body)

/-- `recv_all` into a buffer of `n` bytes, on a stream that ends after `s`. -/
def recvAll (s : Bytes) (n : ℕ) : Option (Bytes × Bytes) :=
  if n ≤ s.length then some (s.take n, s.drop n) else none

/-- `recv_all` into a fixed-size array. -/
def recvBlock (s : Bytes) (n : ℕ) : Option (Block n × Bytes) :=
  if h : n ≤ s.length then some (⟨s.take n, by simpa using h⟩, s.drop n) else none

/-- `if (with_epoch) f.epoch = rest[9];` -/
def parseEpoch (withEpoch : Bool) (rest : Bytes) : Parse UInt8 :=
  if withEpoch then byteAt rest 9 else pure 0

/-- The fields of a frame, read by index from the `total_len` bytes after the length. -/
def parseRest (withEpoch : Bool) (rest : Bytes) : Parse RawFrame := do
  let type ← byteAt rest 0
  let counter ← blockAt rest 1 8
  let epoch ← parseEpoch withEpoch rest
  let body ← bytesAt rest (headerLen withEpoch) (rest.length - headerLen withEpoch)
  pure { type := ⟨type⟩, counter := getU64 counter, epoch, body }

/-- `read_frame`: the sizes of the buffers that it has filled, or waits to fill, and the next frame
of the stream, or `none` at its end, on a length below the header or above the cap. -/
def readFrameTraced (withEpoch : Bool) (s : Bytes) : List ℕ × Option (RawFrame × Bytes) :=
  match recvBlock s 4 with
  | none => ([4], none)
  | some (lenBuf, s) =>
    let totalLen := (getU32 lenBuf).toNat
    if totalLen < headerLen withEpoch ∨ totalLen > kMaxFrameBytes then ([4], none)
    else
      ([4, totalLen],
        match recvAll s totalLen with
        | none => none
        | some (rest, s) =>
          match parseRest withEpoch rest with
          | .accept f => some (f, s)
          | _ => none)

/-- What `read_frame` returns. -/
def readFrame (withEpoch : Bool) (s : Bytes) : Option (RawFrame × Bytes) :=
  (readFrameTraced withEpoch s).2

theorem readFrame_eq (withEpoch : Bool) (s : Bytes) :
    readFrame withEpoch s = (do
      let (lenBuf, s) ← recvBlock s 4
      if (getU32 lenBuf).toNat < headerLen withEpoch ∨ (getU32 lenBuf).toNat > kMaxFrameBytes then
        none
      else
        let (rest, s) ← recvAll s (getU32 lenBuf).toNat
        match parseRest withEpoch rest with
        | .accept f => some (f, s)
        | _ => none) := by
  rw [readFrame, readFrameTraced]
  cases recvBlock s 4 with
  | none => rfl
  | some p =>
    obtain ⟨lenBuf, s'⟩ := p
    simp only [Option.bind_eq_bind, Option.bind_some]
    split
    · rfl
    · cases recvAll s' (getU32 lenBuf).toNat with
      | none => rfl
      | some q => rfl

theorem recvAll_append (x t : Bytes) {n : ℕ} (hx : x.length = n) :
    recvAll (x ++ t) n = some (x, t) := by
  rw [recvAll, if_pos (by simp [hx]), List.take_left' hx, List.drop_left' hx]

theorem recvBlock_append {n : ℕ} (x : Block n) (t : Bytes) :
    recvBlock (x.val ++ t) n = some (x, t) := by
  have hx := x.length_val
  rw [recvBlock, dif_pos (by simp [hx]), Option.some.injEq, Prod.mk.injEq]
  exact ⟨Block.ext (List.take_left' hx), List.drop_left' hx⟩

theorem length_frameHeader (withEpoch : Bool) (f : RawFrame) :
    (frameHeader withEpoch f).length = headerLen withEpoch := by
  cases withEpoch <;> simp [frameHeader, headerLen, length_putU64]

theorem length_writeFrame (withEpoch : Bool) (f : RawFrame) :
    (writeFrame withEpoch f).length = 4 + (headerLen withEpoch + f.body.length) := by
  rw [writeFrame, List.length_append, List.length_append, length_frameHeader]
  rfl

theorem getU64_putU64 (v : UInt64) {h : (putU64 v).length = 8} : getU64 ⟨putU64 v, h⟩ = v :=
  (getU64_iff _ v).mpr (putU64_eq v)

/-- The header fields are found where `write_frame` put them. -/
theorem parseRest_frameHeader (withEpoch : Bool) (f : RawFrame)
    (hepoch : withEpoch = false → f.epoch = 0) :
    parseRest withEpoch (frameHeader withEpoch f ++ f.body) = .accept f := by
  have hlen := length_frameHeader withEpoch f
  have h₀ : At (frameHeader withEpoch f ++ f.body) 0 (f.type.code ::
      (putU64 f.counter ++ ((if withEpoch then [f.epoch] else []) ++ f.body))) :=
    At.start (by simp [frameHeader])
  have h₁ := h₀.advance_byte
  have h₂ := h₁.advance (length_putU64 f.counter)
  have hbody : At (frameHeader withEpoch f ++ f.body) (headerLen withEpoch) f.body :=
    ⟨frameHeader withEpoch f, rfl, hlen⟩
  simp only [parseRest, Parse.bind_eq_accept, Parse.pure_eq, Parse.accept.injEq]
  refine ⟨_, (byteAt_eq_accept h₀).mpr ⟨_, rfl⟩, ⟨_, length_putU64 f.counter⟩,
    (blockAt_eq_accept h₁).mpr ⟨_, rfl⟩, f.epoch, ?_, f.body,
    (bytesAt_eq_accept hbody).mpr ⟨?_, [], by simp⟩, ?_⟩
  · cases withEpoch with
    | false => simp [parseEpoch, hepoch rfl]
    | true => exact (byteAt_eq_accept h₂).mpr ⟨_, rfl⟩
  · rw [List.length_append, hlen]
    omega
  · rw [getU64_putU64]

/-- **A written frame is read back**, and the rest of the stream is left alone. -/
theorem readFrame_writeFrame (withEpoch : Bool) (f : RawFrame) (t : Bytes)
    (hcap : headerLen withEpoch + f.body.length ≤ kMaxFrameBytes)
    (hepoch : withEpoch = false → f.epoch = 0) :
    readFrame withEpoch (writeFrame withEpoch f ++ t) = some (f, t) := by
  have hlen := length_frameHeader withEpoch f
  have hcap' : headerLen withEpoch + f.body.length < 2 ^ 32 := by
    rw [kMaxFrameBytes] at hcap
    omega
  have hn : (UInt32.ofNat (headerLen withEpoch + f.body.length)).toNat
      = headerLen withEpoch + f.body.length := by
    rw [UInt32.toNat_ofNat', Nat.mod_eq_of_lt hcap']
  have hlen4 : ∀ v, (putU32 v).length = 4 := fun v => rfl
  have hget : ∀ v, getU32 ⟨putU32 v, hlen4 v⟩ = v := fun v => (getU32_iff _ v).mpr (putU32_eq v)
  have hrest : (frameHeader withEpoch f ++ f.body).length
      = headerLen withEpoch + f.body.length := by rw [List.length_append, hlen]
  have hfirst : recvBlock (writeFrame withEpoch f ++ t) 4
      = some (⟨_, hlen4 (UInt32.ofNat (headerLen withEpoch + f.body.length))⟩,
          frameHeader withEpoch f ++ f.body ++ t) := by
    rw [writeFrame, hlen, List.append_assoc]
    exact recvBlock_append ⟨_, hlen4 _⟩ _
  have hsecond : recvAll (frameHeader withEpoch f ++ f.body ++ t)
      (headerLen withEpoch + f.body.length) = some (frameHeader withEpoch f ++ f.body, t) :=
    recvAll_append _ t hrest
  rw [readFrame_eq, hfirst]
  simp only [Option.bind_eq_bind, Option.bind_some, hget, hn]
  rw [if_neg (by omega)]
  simp only [Option.bind_some, hsecond, parseRest_frameHeader withEpoch f hepoch]

/-! ### What the reader accepts -/

theorem recvAll_eq_some {s x t : Bytes} {n : ℕ} :
    recvAll s n = some (x, t) ↔ x.length = n ∧ s = x ++ t := by
  constructor
  · intro h
    rw [recvAll] at h
    split at h
    · next hle =>
      obtain ⟨rfl, rfl⟩ := Prod.mk.inj (Option.some.inj h)
      exact ⟨by simpa using hle, (List.take_append_drop n s).symm⟩
    · cases h
  · rintro ⟨hx, rfl⟩
    exact recvAll_append x t hx

theorem recvBlock_eq_some {n : ℕ} {s t : Bytes} {x : Block n} :
    recvBlock s n = some (x, t) ↔ s = x.val ++ t := by
  constructor
  · intro h
    rw [recvBlock] at h
    split at h
    · obtain ⟨rfl, rfl⟩ := Prod.mk.inj (Option.some.inj h)
      exact (List.take_append_drop n s).symm
    · cases h
  · rintro rfl
    exact recvBlock_append x t

/-- A stream yields a frame iff it starts with a length in the accepted range and that many bytes
whose fields are the frame's. -/
theorem readFrame_eq_some {withEpoch : Bool} {s t : Bytes} {f : RawFrame} :
    readFrame withEpoch s = some (f, t) ↔ ∃ (n : UInt32) (rest : Bytes),
      headerLen withEpoch ≤ n.toNat ∧ n.toNat ≤ kMaxFrameBytes ∧ rest.length = n.toNat ∧
        parseRest withEpoch rest = .accept f ∧ s = putU32 n ++ (rest ++ t) := by
  constructor
  · intro h
    rw [readFrame_eq] at h
    obtain ⟨⟨lenBuf, s'⟩, hlen, h⟩ := Option.bind_eq_some_iff.mp h
    have hput : putU32 (getU32 lenBuf) = lenBuf.val := by
      rw [putU32_eq]
      exact ((getU32_iff lenBuf _).mp rfl).symm
    by_cases hrange : (getU32 lenBuf).toNat < headerLen withEpoch ∨
        (getU32 lenBuf).toNat > kMaxFrameBytes
    · simp only [if_pos hrange] at h
      cases h
    · simp only [if_neg hrange] at h
      obtain ⟨⟨rest, t'⟩, hrecv, hparse⟩ := Option.bind_eq_some_iff.mp h
      obtain ⟨hrest, rfl⟩ := recvAll_eq_some.mp hrecv
      rw [recvBlock_eq_some.mp hlen, ← hput]
      simp only at hparse
      split at hparse
      · next g hacc =>
        obtain ⟨rfl, rfl⟩ := Prod.mk.inj (Option.some.inj hparse)
        exact ⟨getU32 lenBuf, rest, by omega, by omega, hrest, hacc, rfl⟩
      · cases hparse
  · rintro ⟨n, rest, hlo, hhi, hlen, hparse, rfl⟩
    have hget : getU32 ⟨putU32 n, rfl⟩ = n := (getU32_iff _ n).mpr (putU32_eq n)
    have hfirst : recvBlock (putU32 n ++ (rest ++ t)) 4 = some (⟨putU32 n, rfl⟩, rest ++ t) :=
      recvBlock_eq_some.mpr rfl
    have hsecond : recvAll (rest ++ t) n.toNat = some (rest, t) := recvAll_append rest t hlen
    rw [readFrame_eq, hfirst]
    simp only [Option.bind_eq_bind, Option.bind_some, hget]
    rw [if_neg (by omega)]
    simp only [Option.bind_some, hsecond, hparse]

theorem epoch_eq_zero_of_parseRest {rest : Bytes} {f : RawFrame}
    (h : parseRest false rest = .accept f) : f.epoch = 0 := by
  simp only [parseRest, Parse.bind_eq_accept, Parse.pure_eq, Parse.accept.injEq] at h
  obtain ⟨type, -, counter, -, epoch, hepoch, body, -, rfl⟩ := h
  simpa [parseEpoch, eq_comm] using hepoch

/-- **The frames a reader gets back** from the bytes `write_frame` puts on a lossless stream: those
that stay within the cap with their header, and whose epoch the layout has room for. -/
theorem readFrame_writeFrame_iff (withEpoch : Bool) (f : RawFrame) :
    readFrame withEpoch (writeFrame withEpoch f) = some (f, []) ↔
      headerLen withEpoch + f.body.length ≤ kMaxFrameBytes ∧
        (withEpoch = false → f.epoch = 0) := by
  constructor
  · intro h
    obtain ⟨n, rest, -, hcap, hlen, hparse, happ⟩ := readFrame_eq_some.mp h
    have htotal : headerLen withEpoch + f.body.length = rest.length := by
      have hlens := congrArg List.length happ
      simp only [writeFrame, List.length_append, length_frameHeader, List.length_nil] at hlens
      have hfour : ∀ v, (putU32 v).length = 4 := fun v => rfl
      rw [hfour, hfour] at hlens
      omega
    refine ⟨by omega, ?_⟩
    rintro rfl
    exact epoch_eq_zero_of_parseRest hparse
  · rintro ⟨hcap, hepoch⟩
    simpa using readFrame_writeFrame withEpoch f [] hcap hepoch

theorem putU32_inj {n m : UInt32} (h : putU32 n = putU32 m) : n = m := by
  have hn : getU32 ⟨putU32 n, rfl⟩ = n := (getU32_iff _ n).mpr (putU32_eq n)
  exact hn.symm.trans ((getU32_iff _ m).mpr (by rw [← putU32_eq]; exact h))

/-- The reader refuses the length of a frame above the cap. -/
theorem readFrame_writeFrame_eq_none (withEpoch : Bool) (f : RawFrame) (t : Bytes)
    (hcap : kMaxFrameBytes < headerLen withEpoch + f.body.length)
    (hlt : headerLen withEpoch + f.body.length < 2 ^ 32) :
    readFrame withEpoch (writeFrame withEpoch f ++ t) = none := by
  rw [Option.eq_none_iff_forall_ne_some]
  rintro ⟨g, t'⟩ h
  obtain ⟨n, rest, -, hn, -, -, happ⟩ := readFrame_eq_some.mp h
  rw [writeFrame, List.append_assoc] at happ
  obtain ⟨hput, -⟩ := List.append_inj happ rfl
  have hnat : n.toNat = headerLen withEpoch + f.body.length := by
    rw [← putU32_inj hput, length_frameHeader, UInt32.toNat_ofNat', Nat.mod_eq_of_lt hlt]
  omega

/-- A body of 16 MiB is written, and the reader drops the connection. -/
theorem oversized_frame_not_read :
    let f : RawFrame := { type := .request, counter := 1, body := List.replicate kMaxFrameBytes 0 }
    readFrame true (writeFrame true f) = none := by
  intro f
  have hbody : f.body.length = kMaxFrameBytes := List.length_replicate
  have h := readFrame_writeFrame_eq_none true f [] (by rw [hbody, headerLen, if_pos rfl]; omega)
    (by rw [hbody, headerLen, if_pos rfl, kMaxFrameBytes]; omega)
  rwa [List.append_nil] at h

end Epx
