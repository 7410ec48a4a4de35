import Epx.Framing
import Epx.Lib.TornStream

/-!
# Frames on a stream

`write_frame` and `read_frame` of `src/framing.cpp` over a whole stream: frames that are written one
after another are read back in order, up to the place where the stream ends. The length that
`read_frame` finds on the stream decides how large a buffer it asks for, before anything of the
frame has been seen.

## Main definitions

* `Fits` — the frames that `read_frame` can give back
* `Carried` — the frames that do not disturb those behind them

## Main results

* `frames_survive`
-/

namespace Epx

open Codec TornStream

/-- The header and the body stay within the cap, and the layout has room for the epoch. -/
structure Fits (withEpoch : Bool) (f : RawFrame) : Prop where
  capped : headerLen withEpoch + f.body.length ≤ kMaxFrameBytes
  epoch : withEpoch = false → f.epoch = 0

/-- The length does not run over its field. A frame above the cap stays on the stream. -/
structure Carried (withEpoch : Bool) (f : RawFrame) : Prop where
  length : headerLen withEpoch + f.body.length < 2 ^ 32
  epoch : withEpoch = false → f.epoch = 0

/-! ### Buffers -/

theorem le_of_mem_readFrameTraced {withEpoch : Bool} {s : Bytes} {n : ℕ}
    (hn : n ∈ (readFrameTraced withEpoch s).1) : n ≤ kMaxFrameBytes := by
  have hfour : 4 ≤ kMaxFrameBytes := by decide
  rw [readFrameTraced] at hn
  split at hn
  · rw [List.mem_singleton.mp hn]
    exact hfour
  · next lenBuf s' _ =>
    by_cases hrange : (getU32 lenBuf).toNat < headerLen withEpoch ∨
        (getU32 lenBuf).toNat > kMaxFrameBytes
    · simp only [if_pos hrange, List.mem_singleton] at hn
      rw [hn]
      exact hfour
    · simp only [if_neg hrange, List.mem_cons, List.not_mem_nil, or_false] at hn
      rcases hn with rfl | rfl
      · exact hfour
      · omega

/-! ### What is rejected -/

/-- A length below the header or above the cap. -/
theorem readFrame_eq_none_of_range {withEpoch : Bool} {n : UInt32} (rest : Bytes)
    (hn : n.toNat < headerLen withEpoch ∨ kMaxFrameBytes < n.toNat) :
    readFrame withEpoch (putU32 n ++ rest) = none := by
  have hget : getU32 ⟨putU32 n, rfl⟩ = n := (getU32_iff _ n).mpr (putU32_eq n)
  have hfirst : recvBlock (putU32 n ++ rest) 4 = some (⟨putU32 n, rfl⟩, rest) :=
    recvBlock_eq_some.mpr rfl
  rw [readFrame_eq, hfirst]
  simp only [Option.bind_eq_bind, Option.bind_some, hget]
  rw [if_pos hn]

/-- A frame that is not there to its end. -/
theorem readFrame_torn {withEpoch : Bool} {f : RawFrame} (hf : Fits withEpoch f) {s : Bytes}
    (hs : s <+: writeFrame withEpoch f) (hlen : s.length < (writeFrame withEpoch f).length) :
    readFrame withEpoch s = none := by
  rw [Option.eq_none_iff_forall_ne_some]
  rintro ⟨g, t⟩ h
  obtain ⟨n, rest, -, -, hrest, -, rfl⟩ := readFrame_eq_some.mp h
  -- the length on the stream is the one that was written
  obtain ⟨u, hu⟩ := hs
  rw [writeFrame, List.append_assoc] at hu
  obtain ⟨hput, -⟩ := List.append_inj hu rfl
  have hcap : headerLen withEpoch + f.body.length < 2 ^ 32 :=
    lt_of_le_of_lt hf.capped (by decide)
  have hn : n.toNat = headerLen withEpoch + f.body.length := by
    rw [putU32_inj hput, length_frameHeader, UInt32.toNat_ofNat', Nat.mod_eq_of_lt hcap]
  rw [length_writeFrame, List.length_append, List.length_append, hrest, hn] at hlen
  have hfour : (putU32 n).length = 4 := rfl
  omega

/-- What is read off a stream of frames is the first of them. -/
theorem frame_of_readFrame {withEpoch : Bool} {fs : List RawFrame} {f : RawFrame} {rest : Bytes}
    (hfs : ∀ f ∈ fs, Carried withEpoch f)
    (h : readFrame withEpoch (fs.flatMap (writeFrame withEpoch)) = some (f, rest)) :
    headerLen withEpoch + f.body.length ≤ kMaxFrameBytes ∧
      ∃ gs, fs = f :: gs ∧ rest = gs.flatMap (writeFrame withEpoch) := by
  cases fs with
  | nil => cases h
  | cons g gs =>
    have hg := hfs g List.mem_cons_self
    rw [List.flatMap_cons] at h
    by_cases hcap : headerLen withEpoch + g.body.length ≤ kMaxFrameBytes
    · rw [readFrame_writeFrame withEpoch g _ hcap hg.epoch] at h
      cases h
      exact ⟨hcap, gs, rfl, rfl⟩
    · rw [readFrame_writeFrame_eq_none withEpoch g _ (not_le.mp hcap) hg.length] at h
      cases h

theorem decodes_frames (withEpoch : Bool) :
    Decodes (writeFrame withEpoch) (readFrame withEpoch) (Fits withEpoch) where
  whole f hf t := readFrame_writeFrame withEpoch f t hf.capped hf.epoch
  torn _ hf _ hs hlen := readFrame_torn hf hs hlen
  empty := rfl

/-- **Frames survive the byte stream.** Frames that fit are read back in order from the bytes they
were written as, with what follows left unread; of a stream that was cut the complete ones are read,
and then nothing; and whatever is on the stream, no buffer larger than the cap is asked for, and no
length is accepted that is below the header or above the cap. -/
theorem frames_survive (withEpoch : Bool) (fs : List RawFrame) (hfs : ∀ f ∈ fs, Fits withEpoch f) :
    (∀ t, Yields (readFrame withEpoch) fs (fs.flatMap (writeFrame withEpoch) ++ t) t) ∧
    (∀ s, s <+: fs.flatMap (writeFrame withEpoch) → ∃ k ≤ fs.length, ∃ t,
      Yields (readFrame withEpoch) (fs.take k) s t ∧ readFrame withEpoch t = none ∧
      ((fs.take k).flatMap (writeFrame withEpoch)).length ≤ s.length ∧
      (k < fs.length → s.length < ((fs.take (k + 1)).flatMap (writeFrame withEpoch)).length)) ∧
    (∀ s, (readFrameTraced withEpoch s).2 = readFrame withEpoch s ∧
      ∀ n ∈ (readFrameTraced withEpoch s).1, n ≤ kMaxFrameBytes) ∧
    ∀ (n : UInt32) (rest : Bytes), n.toNat < headerLen withEpoch ∨ kMaxFrameBytes < n.toNat →
      readFrame withEpoch (putU32 n ++ rest) = none := by
  have hdecodes := decodes_frames withEpoch
  refine ⟨fun t => hdecodes.yields hfs t, fun s hs => hdecodes.yields_cut hfs hs, fun s => ?_,
    fun n rest => readFrame_eq_none_of_range rest⟩
  exact ⟨rfl, fun n hn => le_of_mem_readFrameTraced hn⟩

/-- A frame with an empty body and one of the last epoch, and a cut within the second. -/
theorem frames_survive_cut :
    let fs : List RawFrame :=
      [{ type := .ping, body := [] },
        { type := .request, counter := 7, epoch := 255, body := [1, 2] }]
    Yields (readFrame true) fs (fs.flatMap (writeFrame true) ++ [9]) [9] ∧
    ∃ k ≤ 2, ∃ t, Yields (readFrame true) (fs.take k) ((fs.flatMap (writeFrame true)).take 20) t ∧
      readFrame true t = none := by
  intro fs
  have hfs : ∀ f ∈ fs, Fits true f := by
    intro f hf
    rcases List.mem_cons.mp hf with rfl | hf
    · exact ⟨by decide, nofun⟩
    · rw [List.mem_singleton.mp hf]
      exact ⟨by decide, nofun⟩
  obtain ⟨hwhole, hcut, -⟩ := frames_survive true fs hfs
  obtain ⟨k, hk, t, hyields, hnone, -⟩ := hcut _ (List.take_prefix 20 _)
  exact ⟨hwhole [9], k, hk, t, hyields, hnone⟩

end Epx
