import Epx.FrameStream
import Epx.Lib.Transition

/-!
# Frames over a socket

One direction of a connection as `PosixTransport` (`src/transport_posix.cpp`) has it. `send` takes
as much as there is room for in the socket's buffer, `recv` gives as much as it likes of what is
there, and the loops of `send_all` and `recv_all` call them again until they have done what
`write_frame` and `read_frame` (`src/framing.cpp`) ask for. Either may fail at any point, because of
a timeout or because the other end is gone.

Elsewhere a frame is put on a stream at once, and `readFrame` takes it off at once. Here it is shown
that this makes no difference to what is read.

## Main definitions

* `frameBlocks` — the `send_all` calls of `write_frame`
* `ReadLoop`, `ReadLoop.recv` — `read_frame` on its way
* `Wire`, `Wire.step` — one direction of a connection

## Main results

* `Wire.Inv.step`, `Wire.Sound.step`
* `Wire.Sound.progress` — what has been written can be read
* `wire_carries_frames`
-/

namespace Epx

open Codec TornStream Transition

/-! ### The two loops -/

/-- The `send_all` calls of `write_frame`. -/
def frameBlocks (withEpoch : Bool) (f : RawFrame) : List Bytes :=
  [putU32 (UInt32.ofNat ((frameHeader withEpoch f).length + f.body.length)),
    frameHeader withEpoch f] ++ if f.body.isEmpty then [] else [f.body]

/-- What is left to send when `send` has taken `n` bytes of the first block. -/
def sendRest (data : Bytes) (later : List Bytes) (n : ℕ) : List Bytes :=
  if n < data.length then data.drop n :: later else later

/-- `read_frame`, in one of its two `recv_all` calls or behind them. -/
inductive ReadLoop where
  | length (got : Bytes)
  | rest (lenBuf : Block 4) (got : Bytes)
  /-- It has returned `nullopt`, and is not called again. -/
  | ended (seen : Bytes)
  deriving DecidableEq

namespace ReadLoop

/-- The bytes that it has got. -/
def seen : ReadLoop → Bytes
  | length got => got
  | rest lenBuf got => lenBuf.val ++ got
  | ended seen => seen

/-- How many bytes it asks `recv` for. -/
def wants : ReadLoop → ℕ
  | length got => 4 - got.length
  | rest lenBuf got => (getU32 lenBuf).toNat - got.length
  | ended _ => 0

/-- `recv` has returned the bytes `x`; perhaps the frame is there. -/
def recv (withEpoch : Bool) (x : Bytes) : ReadLoop → ReadLoop × Option RawFrame
  | length got =>
    if h : (got ++ x).length = 4 then
      let lenBuf : Block 4 := ⟨got ++ x, h⟩
      let totalLen := (getU32 lenBuf).toNat
      if totalLen < headerLen withEpoch ∨ totalLen > kMaxFrameBytes then (ended (got ++ x), none)
      else (rest lenBuf [], none)
    else (length (got ++ x), none)
  | rest lenBuf got =>
    if (got ++ x).length = (getU32 lenBuf).toNat then
      match parseRest withEpoch (got ++ x) with
      | .accept f => (length [], some f)
      | _ => (ended (lenBuf.val ++ (got ++ x)), none)
    else (rest lenBuf (got ++ x), none)
  | ended seen => (ended seen, none)

/-- It still asks for bytes, and for no more than the frame has. -/
def Waits (withEpoch : Bool) : ReadLoop → Prop
  | length got => got.length < 4
  | rest lenBuf got => headerLen withEpoch ≤ (getU32 lenBuf).toNat ∧
      (getU32 lenBuf).toNat ≤ kMaxFrameBytes ∧ got.length < (getU32 lenBuf).toNat
  | ended _ => True

section

variable {withEpoch : Bool} {r : ReadLoop} {x : Bytes}

theorem waits_recv (h : r.Waits withEpoch) (hx : x.length ≤ r.wants) :
    (r.recv withEpoch x).1.Waits withEpoch := by
  cases r with
  | length got =>
    have hgot : got.length < 4 := h
    have hx' : x.length ≤ 4 - got.length := hx
    rw [recv]
    split
    · dsimp only
      split
      · trivial
      · next hrange =>
        have hpos : 0 < headerLen withEpoch := by
          rw [headerLen]
          split <;> omega
        rw [not_or, not_lt, not_lt] at hrange
        exact ⟨hrange.1, hrange.2, hpos.trans_le hrange.1⟩
    · next hlen =>
      have hle : (got ++ x).length < 4 := by
        rw [List.length_append] at hlen ⊢
        omega
      exact hle
  | rest lenBuf got =>
    obtain ⟨hlow, hcap, hgot⟩ := h
    have hx' : x.length ≤ (getU32 lenBuf).toNat - got.length := hx
    rw [recv]
    split
    · split
      · exact Nat.zero_lt_succ 3
      · trivial
    · next hlen =>
      refine ⟨hlow, hcap, ?_⟩
      rw [List.length_append] at hlen ⊢
      omega
  | ended _ => trivial

/-- A frame whose length is there. -/
theorem readFrame_lenBuf (lenBuf : Block 4) (s : Bytes) :
    readFrame withEpoch (lenBuf.val ++ s)
      = if (getU32 lenBuf).toNat < headerLen withEpoch ∨ (getU32 lenBuf).toNat > kMaxFrameBytes then
          none
        else (recvAll s (getU32 lenBuf).toNat).bind fun p =>
          match parseRest withEpoch p.1 with
          | .accept f => some (f, p.2)
          | _ => none := by
  rw [readFrame_eq, recvBlock_append]
  rfl

/-- As long as it asks for bytes, the frame is not there. -/
theorem readFrame_seen (h : r.Waits withEpoch) (hr : ∀ s, r ≠ ended s) :
    readFrame withEpoch r.seen = none := by
  cases r with
  | length got =>
    have hgot : ¬ 4 ≤ got.length := not_le.mpr h
    rw [seen, readFrame_eq, recvBlock, dif_neg hgot]
    rfl
  | rest lenBuf got =>
    obtain ⟨-, -, hgot⟩ := h
    rw [seen, readFrame_lenBuf, recvAll, if_neg (not_le.mpr hgot)]
    split <;> rfl
  | ended s => exact absurd rfl (hr s)

/-- **A frame is returned** when it is there, and as `readFrame` reads it. -/
theorem recv_eq_some (h : r.Waits withEpoch) {f : RawFrame}
    (hf : (r.recv withEpoch x).2 = some f) :
    (r.recv withEpoch x).1 = length [] ∧ readFrame withEpoch (r.seen ++ x) = some (f, []) := by
  cases r with
  | length got =>
    rw [recv] at hf
    split at hf
    · dsimp only at hf
      split at hf <;> cases hf
    · cases hf
  | rest lenBuf got =>
    obtain ⟨hlow, hcap, -⟩ := h
    rw [recv] at hf ⊢
    split at hf
    · next hlen =>
      rw [if_pos hlen]
      split at hf
      · next g hparse =>
        obtain rfl : g = f := Option.some.inj hf
        refine ⟨rfl, ?_⟩
        rw [seen, List.append_assoc, readFrame_lenBuf, if_neg (by omega), recvAll,
          if_pos (Nat.le_of_eq hlen.symm), ← hlen, List.take_length, List.drop_length]
        simp only [Option.bind_some, hparse]
      · cases hf
    · cases hf
  | ended _ => cases hf

/-- Bytes are kept until the frame is there. -/
theorem seen_recv (hr : ∀ s, r ≠ ended s) (hf : (r.recv withEpoch x).2 = none) :
    (r.recv withEpoch x).1.seen = r.seen ++ x := by
  cases r with
  | length got =>
    rw [recv]
    split
    · dsimp only
      split
      · rfl
      · exact List.append_nil _
    · rfl
  | rest lenBuf got =>
    rw [recv] at hf ⊢
    split at hf
    · next hlen =>
      rw [if_pos hlen]
      split at hf
      · cases hf
      · exact (List.append_assoc _ _ _).symm
    · next hlen =>
      rw [if_neg hlen]
      exact (List.append_assoc _ _ _).symm
  | ended s => exact absurd rfl (hr s)

/-- **It gives up** only on bytes that `readFrame` rejects, whatever follows them. -/
theorem recv_eq_ended (h : r.Waits withEpoch) (hr : ∀ s, r ≠ ended s) {s : Bytes}
    (hended : (r.recv withEpoch x).1 = ended s) (u : Bytes) :
    readFrame withEpoch (s ++ u) = none := by
  cases r with
  | length got =>
    rw [recv] at hended
    split at hended
    · next hlen =>
      dsimp only at hended
      split at hended
      · next hrange =>
        cases hended
        rw [show got ++ x = (⟨got ++ x, hlen⟩ : Block 4).val from rfl, readFrame_lenBuf,
          if_pos hrange]
      · cases hended
    · cases hended
  | rest lenBuf got =>
    rw [recv] at hended
    split at hended
    · next hlen =>
      split at hended
      · cases hended
      · next hno =>
        cases hended
        rw [List.append_assoc, readFrame_lenBuf]
        split
        · rfl
        · rw [recvAll_append _ u hlen, Option.bind_some]
          dsimp only
          split
          · next g hparse => exact absurd hparse (hno g)
          · rfl
    · cases hended
  | ended s => exact absurd rfl (hr s)

end

end ReadLoop

/-! ### One direction of a connection -/

/-- A `write_frame` that has returned: what it has sent, and what it has returned. -/
structure WriteCall where
  frame : RawFrame
  sent : Bytes
  ok : Bool
  deriving DecidableEq

/-- A `write_frame` on its way: what it has sent, and what its `send_all` calls have still to
send. -/
structure Writing where
  frame : RawFrame
  sent : Bytes := []
  todo : List Bytes
  deriving DecidableEq

/-- One direction of a connection. Who writes holds a mutex, so that one frame is written at a
time. -/
structure Wire where
  finished : List WriteCall := []
  writing : Option Writing := none
  /-- The buffer of the socket. -/
  buffer : Bytes := []
  reading : ReadLoop := .length []
  /-- What `read_frame` has returned. -/
  frames : List RawFrame := []
  deriving DecidableEq

namespace Wire

/-- What the socket has taken. -/
def accepted (w : Wire) : Bytes :=
  w.finished.flatMap WriteCall.sent ++ w.writing.elim [] Writing.sent

/-- The frames that `write_frame` was called for. -/
def written (w : Wire) : List RawFrame :=
  w.finished.map WriteCall.frame ++ w.writing.toList.map Writing.frame

/-- What the `write_frame` on its way has still to send. -/
def unsent (w : Wire) : Bytes := w.writing.elim [] fun p => p.todo.flatten

section

variable (cap : ℕ) (withEpoch : Bool)

/-- `write_frame` is called. -/
def write (w : Wire) (f : RawFrame) : Option Wire :=
  if w.writing = none then
    some { w with writing := some { frame := f, todo := frameBlocks withEpoch f } }
  else none

/-- `send` returns `n`. -/
def send (w : Wire) (n : ℕ) : Option Wire :=
  match w.writing with
  | some ⟨f, sent, data :: later⟩ =>
    if 1 ≤ n ∧ n ≤ data.length ∧ w.buffer.length + n ≤ cap then
      some { w with
        writing := some ⟨f, sent ++ data.take n, sendRest data later n⟩
        buffer := w.buffer ++ data.take n }
    else none
  | _ => none

/-- `send` fails, and so does `write_frame`. -/
def sendFails (w : Wire) : Option Wire :=
  match w.writing with
  | some ⟨f, sent, _ :: _⟩ =>
    some { w with finished := w.finished ++ [⟨f, sent, false⟩], writing := none }
  | _ => none

/-- `write_frame` has sent everything. -/
def writeReturns (w : Wire) : Option Wire :=
  match w.writing with
  | some ⟨f, sent, []⟩ =>
    some { w with finished := w.finished ++ [⟨f, sent, true⟩], writing := none }
  | _ => none

/-- `recv` returns `n`, and `read_frame` perhaps a frame. -/
def recv (w : Wire) (n : ℕ) : Option (Wire × Option RawFrame) :=
  if 1 ≤ n ∧ n ≤ w.reading.wants ∧ n ≤ w.buffer.length then
    let (reading, frame) := w.reading.recv withEpoch (w.buffer.take n)
    some ({ w with
      buffer := w.buffer.drop n
      reading := reading
      frames := w.frames ++ frame.toList }, frame)
  else none

/-- `recv` fails, and so does `read_frame`. -/
def recvFails (w : Wire) : Option Wire :=
  if 0 < w.reading.wants then some { w with reading := .ended w.reading.seen } else none

inductive Act where
  | write (f : RawFrame)
  | send (n : ℕ)
  | sendFails
  | writeReturns
  | recv (n : ℕ)
  | recvFails

def step (w : Wire) : Act → Option Wire
  | .write f => w.write withEpoch f
  | .send n => w.send cap n
  | .sendFails => w.sendFails
  | .writeReturns => w.writeReturns
  | .recv n => (w.recv withEpoch n).map Prod.fst
  | .recvFails => w.recvFails

def Step : Wire → Act → Wire → Prop := OfFun (step cap withEpoch)

end

/-- What has been read is what `readFrame` reads off everything that the socket has taken, and the
rest is there or on its way. -/
structure Inv (cap : ℕ) (withEpoch : Bool) (w : Wire) : Prop where
  read : Yields (readFrame withEpoch) w.frames w.accepted (w.reading.seen ++ w.buffer)
  waits : w.reading.Waits withEpoch
  capped : w.buffer.length ≤ cap
  sent : ∀ c ∈ w.finished, c.sent <+: writeFrame withEpoch c.frame ∧
    (c.ok = true → c.sent = writeFrame withEpoch c.frame)
  writing : ∀ p, w.writing = some p →
    p.sent ++ p.todo.flatten = writeFrame withEpoch p.frame ∧ [] ∉ p.todo

section

variable {cap : ℕ} {withEpoch : Bool} {w w' : Wire}

theorem flatten_frameBlocks (withEpoch : Bool) (f : RawFrame) :
    (frameBlocks withEpoch f).flatten = writeFrame withEpoch f := by
  rw [frameBlocks, writeFrame]
  cases hbody : f.body with
  | nil => simp
  | cons b bs => simp

theorem nil_notMem_frameBlocks (withEpoch : Bool) (f : RawFrame) :
    [] ∉ frameBlocks withEpoch f := by
  rw [frameBlocks]
  cases hbody : f.body with
  | nil => simp [putU32, frameHeader]
  | cons b bs => simp [putU32, frameHeader]

theorem flatten_sendRest {data : Bytes} {later : List Bytes} {n : ℕ} (hn : n ≤ data.length) :
    data.take n ++ (sendRest data later n).flatten = data ++ later.flatten := by
  rw [sendRest]
  split
  · rw [List.flatten_cons, ← List.append_assoc, List.take_append_drop]
  · rw [List.take_of_length_le (by omega)]

theorem nil_notMem_sendRest {data : Bytes} {later : List Bytes} {n : ℕ} (h : [] ∉ later) :
    [] ∉ sendRest data later n := by
  rw [sendRest]
  split
  · next hlt =>
    rw [List.mem_cons, not_or]
    refine ⟨fun heq => ?_, h⟩
    have hlen := congrArg List.length heq
    rw [List.length_nil, List.length_drop] at hlen
    omega
  · exact h

theorem extends_readFrame (withEpoch : Bool) : Extends (readFrame withEpoch) := by
  intro s f t h u
  obtain ⟨n, rest, hlow, hcap, hlen, hparse, rfl⟩ := readFrame_eq_some.mp h
  refine readFrame_eq_some.mpr ⟨n, rest, hlow, hcap, hlen, hparse, ?_⟩
  simp only [List.append_assoc]

theorem inv_empty (cap : ℕ) (withEpoch : Bool) : ({} : Wire).Inv cap withEpoch where
  read := rfl
  waits := Nat.zero_lt_succ 3
  capped := Nat.zero_le cap
  sent := by simp
  writing := by simp

theorem write_eq_some {f : RawFrame} : w.write withEpoch f = some w' ↔ w.writing = none ∧
    w' = { w with writing := some { frame := f, todo := frameBlocks withEpoch f } } := by
  rw [write]
  split
  · next h => simp only [h, true_and, Option.some.injEq, eq_comm]
  · next h => simp only [h, false_and, reduceCtorEq]

theorem write_eq_none {f : RawFrame} : w.write withEpoch f = none ↔ w.writing ≠ none := by
  rw [write]
  split
  · next h => simp [h]
  · next h => simp [h]

theorem send_eq_some {n : ℕ} : w.send cap n = some w' ↔ ∃ f sent data later,
    w.writing = some ⟨f, sent, data :: later⟩ ∧ 1 ≤ n ∧ n ≤ data.length ∧
      w.buffer.length + n ≤ cap ∧ w' = { w with
        writing := some ⟨f, sent ++ data.take n, sendRest data later n⟩
        buffer := w.buffer ++ data.take n } := by
  constructor
  · intro h
    rw [send] at h
    split at h
    · next f sent data later hwriting =>
      obtain ⟨⟨hpos, hdata, hcap⟩, h⟩ := Option.ite_none_right_eq_some.mp h
      exact ⟨f, sent, data, later, hwriting, hpos, hdata, hcap, (Option.some.inj h).symm⟩
    · cases h
  · rintro ⟨f, sent, data, later, hwriting, hpos, hdata, hcap, rfl⟩
    simp only [send, hwriting]
    rw [if_pos ⟨hpos, hdata, hcap⟩]

theorem sendFails_eq_some : w.sendFails = some w' ↔ ∃ f sent data later,
    w.writing = some ⟨f, sent, data :: later⟩ ∧
      w' = { w with finished := w.finished ++ [⟨f, sent, false⟩], writing := none } := by
  constructor
  · intro h
    rw [sendFails] at h
    split at h
    · next f sent data later hwriting =>
      exact ⟨f, sent, data, later, hwriting, (Option.some.inj h).symm⟩
    · cases h
  · rintro ⟨f, sent, data, later, hwriting, rfl⟩
    simp only [sendFails, hwriting]

theorem writeReturns_eq_some : w.writeReturns = some w' ↔ ∃ f sent,
    w.writing = some ⟨f, sent, []⟩ ∧
      w' = { w with finished := w.finished ++ [⟨f, sent, true⟩], writing := none } := by
  constructor
  · intro h
    rw [writeReturns] at h
    split at h
    · next f sent hwriting => exact ⟨f, sent, hwriting, (Option.some.inj h).symm⟩
    · cases h
  · rintro ⟨f, sent, hwriting, rfl⟩
    simp only [writeReturns, hwriting]

theorem recv_eq_some {n : ℕ} {o : Option RawFrame} : w.recv withEpoch n = some (w', o) ↔
    (1 ≤ n ∧ n ≤ w.reading.wants ∧ n ≤ w.buffer.length) ∧
      o = (w.reading.recv withEpoch (w.buffer.take n)).2 ∧
      w' = { w with
        buffer := w.buffer.drop n
        reading := (w.reading.recv withEpoch (w.buffer.take n)).1
        frames := w.frames ++ o.toList } := by
  constructor
  · intro h
    obtain ⟨hn, h⟩ := Option.ite_none_right_eq_some.mp h
    obtain ⟨rfl, rfl⟩ := Prod.mk.inj (Option.some.inj h)
    exact ⟨hn, rfl, rfl⟩
  · rintro ⟨hn, rfl, rfl⟩
    rw [recv, if_pos hn]

theorem not_ended_of_wants (h : 1 ≤ w.reading.wants) : ∀ s, w.reading ≠ .ended s := by
  intro s heq
  rw [heq] at h
  cases h

theorem Inv.write (h : w.Inv cap withEpoch) {f : RawFrame} (hstep : w.write withEpoch f = some w') :
    w'.Inv cap withEpoch := by
  obtain ⟨hnone, rfl⟩ := write_eq_some.mp hstep
  refine ⟨?_, h.waits, h.capped, h.sent, fun p hp => ?_⟩
  · have hread := h.read
    rw [accepted, hnone] at hread
    exact hread
  · cases hp
    exact ⟨flatten_frameBlocks withEpoch f, nil_notMem_frameBlocks withEpoch f⟩

theorem Inv.send (h : w.Inv cap withEpoch) {n : ℕ} (hstep : w.send cap n = some w') :
    w'.Inv cap withEpoch := by
  obtain ⟨f, sent, data, later, hwriting, -, hdata, hcap, rfl⟩ := send_eq_some.mp hstep
  obtain ⟨hframe, hnil⟩ := h.writing _ hwriting
  refine ⟨?_, h.waits, ?_, h.sent, fun p hp => ?_⟩
  · have hread := h.read.append (extends_readFrame withEpoch) (data.take n)
    rw [accepted, hwriting] at hread
    simpa only [accepted, Option.elim_some, List.append_assoc] using hread
  · rw [List.length_append, List.length_take_of_le hdata]
    exact hcap
  · cases hp
    refine ⟨?_, nil_notMem_sendRest fun hmem => hnil (List.mem_cons_of_mem _ hmem)⟩
    rw [List.append_assoc, flatten_sendRest hdata]
    exact hframe

/-- A write that comes to its end. -/
theorem Inv.finish (h : w.Inv cap withEpoch) {p : Writing} (hp : w.writing = some p) {ok : Bool}
    (hok : ok = true → p.sent = writeFrame withEpoch p.frame) :
    Inv cap withEpoch
      { w with finished := w.finished ++ [⟨p.frame, p.sent, ok⟩], writing := none } := by
  refine ⟨?_, h.waits, h.capped, fun c hc => ?_, fun q hq => (by cases hq)⟩
  · have hread := h.read
    rw [accepted, hp] at hread
    simpa [accepted] using hread
  · rcases List.mem_append.mp hc with hc | hc
    · exact h.sent c hc
    · obtain rfl := List.mem_singleton.mp hc
      exact ⟨⟨_, (h.writing p hp).1⟩, hok⟩

theorem Inv.writeReturns (h : w.Inv cap withEpoch) (hstep : w.writeReturns = some w') :
    w'.Inv cap withEpoch := by
  obtain ⟨f, sent, hwriting, rfl⟩ := writeReturns_eq_some.mp hstep
  refine h.finish hwriting fun _ => ?_
  have hframe := (h.writing _ hwriting).1
  rwa [List.flatten_nil, List.append_nil] at hframe

theorem Inv.recv (h : w.Inv cap withEpoch) {n : ℕ} {o : Option RawFrame}
    (hstep : w.recv withEpoch n = some (w', o)) : w'.Inv cap withEpoch := by
  obtain ⟨⟨hpos, hwants, hbuffer⟩, ho, rfl⟩ := recv_eq_some.mp hstep
  have hended := not_ended_of_wants (hpos.trans hwants)
  have hlen : (w.buffer.take n).length ≤ w.reading.wants := by
    rwa [List.length_take_of_le hbuffer]
  have hread := h.read
  rw [← List.take_append_drop n w.buffer, ← List.append_assoc] at hread
  refine ⟨?_, ReadLoop.waits_recv h.waits hlen, ?_, h.sent, h.writing⟩
  · change Yields _ _ w.accepted _
    cases o with
    | none =>
      dsimp only
      rw [ReadLoop.seen_recv hended ho.symm, Option.toList_none, List.append_nil]
      exact hread
    | some f =>
      obtain ⟨hlength, hframe⟩ := ReadLoop.recv_eq_some h.waits ho.symm
      dsimp only
      rw [hlength]
      exact hread.snoc (extends_readFrame withEpoch _ _ _ hframe _)
  · exact (List.drop_sublist n w.buffer).length_le.trans h.capped

/-- **Every step keeps the invariant.** -/
theorem Inv.step (h : w.Inv cap withEpoch) {a : Act} (hstep : Step cap withEpoch w a w') :
    w'.Inv cap withEpoch := by
  cases a with
  | write f => exact h.write hstep
  | send n => exact h.send hstep
  | sendFails =>
    obtain ⟨f, sent, data, later, hwriting, rfl⟩ := sendFails_eq_some.mp hstep
    exact h.finish hwriting fun hok => by cases hok
  | writeReturns => exact h.writeReturns hstep
  | recv n =>
    obtain ⟨⟨_, o⟩, hrecv, rfl⟩ := Option.map_eq_some_iff.mp hstep
    exact h.recv hrecv
  | recvFails =>
    obtain ⟨-, heq⟩ := Option.ite_none_right_eq_some.mp hstep
    cases heq
    exact ⟨h.read, trivial, h.capped, h.sent, h.writing⟩

end

/-! ### Nothing fails -/

/-- No call has failed, and the frames fit. -/
structure Sound (withEpoch : Bool) (w : Wire) : Prop where
  fits : ∀ f ∈ w.written, Fits withEpoch f
  whole : ∀ c ∈ w.finished, c.ok = true
  on : ∀ s, w.reading ≠ .ended s

/-- The step is no failure, and writes no frame that does not fit. -/
def Act.Good (withEpoch : Bool) : Act → Prop
  | write f => Fits withEpoch f
  | sendFails | recvFails => False
  | send _ | writeReturns | recv _ => True

section

variable {cap : ℕ} {withEpoch : Bool} {w w' : Wire}

/-- What has been sent and what is to be sent are the frames that were written. -/
theorem accepted_append (h : w.Inv cap withEpoch) (hwhole : ∀ c ∈ w.finished, c.ok = true) :
    w.accepted ++ w.unsent = w.written.flatMap (writeFrame withEpoch) := by
  have hfinished : w.finished.flatMap WriteCall.sent
      = (w.finished.map WriteCall.frame).flatMap (writeFrame withEpoch) := by
    rw [List.flatMap_map]
    exact List.flatMap_congr fun c hc => (h.sent c hc).2 (hwhole c hc)
  have hwriting : w.writing.elim [] Writing.sent ++ w.unsent
      = (w.writing.toList.map Writing.frame).flatMap (writeFrame withEpoch) := by
    rw [unsent]
    cases hp : w.writing with
    | none => rfl
    | some p => simpa using (h.writing p hp).1
  rw [accepted, written, List.append_assoc, List.flatMap_append, hfinished, hwriting]

/-- **What has been read** are the first frames that were written, and the others are there or on
their way. -/
theorem rest (h : w.Inv cap withEpoch) (hfits : ∀ f ∈ w.written, Fits withEpoch f)
    (hwhole : ∀ c ∈ w.finished, c.ok = true) :
    ∃ zs, w.written = w.frames ++ zs ∧
      w.reading.seen ++ w.buffer ++ w.unsent = zs.flatMap (writeFrame withEpoch) := by
  have hread := h.read.append (extends_readFrame withEpoch) w.unsent
  rw [accepted_append h hwhole] at hread
  exact (decodes_frames withEpoch).rest hfits hread

/-- **Steps that do not fail** stay so: `read_frame` does not give up on frames that fit. -/
theorem Sound.step (hinv : w.Inv cap withEpoch) (h : w.Sound withEpoch) {a : Act}
    (hgood : a.Good withEpoch) (hstep : Step cap withEpoch w a w') : w'.Sound withEpoch := by
  have hfun : w.step cap withEpoch a = some w' := hstep
  cases a with
  | write f =>
    obtain ⟨hnone, rfl⟩ := write_eq_some.mp hfun
    refine ⟨fun g hg => ?_, h.whole, h.on⟩
    rcases List.mem_append.mp hg with hg | hg
    · exact h.fits g (List.mem_append_left _ hg)
    · obtain rfl := List.mem_singleton.mp hg
      exact hgood
  | send n =>
    obtain ⟨f, sent, data, later, hwriting, -, -, -, rfl⟩ := send_eq_some.mp hfun
    refine ⟨fun g hg => h.fits g ?_, h.whole, h.on⟩
    rw [written, hwriting]
    exact hg
  | sendFails | recvFails => cases hgood
  | writeReturns =>
    obtain ⟨f, sent, hwriting, rfl⟩ := writeReturns_eq_some.mp hfun
    refine ⟨fun g hg => h.fits g ?_, fun c hc => ?_, h.on⟩
    · rw [written, hwriting]
      simpa [written] using hg
    · rcases List.mem_append.mp hc with hc | hc
      · exact h.whole c hc
      · obtain rfl := List.mem_singleton.mp hc
        rfl
  | recv n =>
    obtain ⟨⟨_, o⟩, hrecv, rfl⟩ := Option.map_eq_some_iff.mp hfun
    obtain ⟨⟨hpos, hwants, hbuffer⟩, ho, rfl⟩ := recv_eq_some.mp hrecv
    refine ⟨h.fits, h.whole, fun s hs => ?_⟩
    dsimp only at hs
    have hended := not_ended_of_wants (hpos.trans hwants)
    obtain ⟨zs, hzs, hrest⟩ := rest hinv h.fits h.whole
    have hnone : o = none := by
      cases o with
      | none => rfl
      | some f =>
        rw [(ReadLoop.recv_eq_some hinv.waits ho.symm).1] at hs
        cases hs
    have hseen : s = w.reading.seen ++ w.buffer.take n := by
      rw [← ReadLoop.seen_recv hended (ho.symm.trans hnone), hs, ReadLoop.seen]
    -- what it has given up on starts with a frame that fits
    have hsplit : s ++ (w.buffer.drop n ++ w.unsent) = zs.flatMap (writeFrame withEpoch) := by
      rw [hseen, ← hrest, List.append_assoc, ← List.append_assoc (w.buffer.take n),
        List.take_append_drop, List.append_assoc]
    have hgive := ReadLoop.recv_eq_ended hinv.waits hended hs (w.buffer.drop n ++ w.unsent)
    rw [hsplit] at hgive
    cases zs with
    | nil =>
      rw [List.flatMap_nil, List.append_eq_nil_iff, hseen, List.append_eq_nil_iff] at hsplit
      have hlen := congrArg List.length hsplit.1.2
      rw [List.length_take_of_le hbuffer, List.length_nil] at hlen
      omega
    | cons f zs =>
      have hfit := h.fits f (by rw [hzs]; simp)
      rw [List.flatMap_cons, readFrame_writeFrame withEpoch f _ hfit.capped hfit.epoch] at hgive
      cases hgive

/-! ### Everything is read in the end -/

/-- The bytes that have still to be moved, and a `write_frame` that has to return. -/
def weight (w : Wire) : ℕ :=
  2 * w.unsent.length + w.buffer.length + w.writing.toList.length

/-- A step that moves bytes, or in which `write_frame` returns. -/
def Act.Moves : Act → Prop
  | send _ | writeReturns | recv _ => True
  | write _ | sendFails | recvFails => False

theorem Act.Moves.good {a : Act} (h : a.Moves) : a.Good withEpoch := by
  cases a with
  | send _ | writeReturns | recv _ => trivial
  | write _ | sendFails | recvFails => cases h

/-- Bytes are moved only so often. -/
theorem weight_of_step {a : Act} (hmoves : a.Moves) (hstep : Step cap withEpoch w a w') :
    w'.weight < w.weight := by
  have hfun : w.step cap withEpoch a = some w' := hstep
  cases a with
  | write _ | sendFails | recvFails => cases hmoves
  | send n =>
    obtain ⟨f, sent, data, later, hwriting, hpos, hdata, -, rfl⟩ := send_eq_some.mp hfun
    have hrest : data.take n ++ (sendRest data later n).flatten = data ++ later.flatten :=
      flatten_sendRest hdata
    have hlen := congrArg List.length hrest
    rw [List.length_append, List.length_append, List.length_take_of_le hdata] at hlen
    simp only [weight, unsent, hwriting, Option.elim_some, List.flatten_cons, List.length_append,
      List.length_take_of_le hdata, Option.toList_some, List.length_singleton]
    omega
  | writeReturns =>
    obtain ⟨f, sent, hwriting, rfl⟩ := writeReturns_eq_some.mp hfun
    simp [weight, unsent, hwriting]
  | recv n =>
    obtain ⟨⟨_, o⟩, hrecv, rfl⟩ := Option.map_eq_some_iff.mp hfun
    obtain ⟨⟨hpos, -, hbuffer⟩, -, rfl⟩ := recv_eq_some.mp hrecv
    simp only [weight, unsent, List.length_drop]
    omega

/-- A `send` that has to wait, as the buffer is full. -/
def Blocked (cap : ℕ) (w : Wire) : Prop :=
  (∃ f sent data later, w.writing = some ⟨f, sent, data :: later⟩) ∧ cap ≤ w.buffer.length

/-- A `write_frame` on its way returns, or it can send, or it has to wait. -/
theorem Inv.exists_write (hinv : w.Inv cap withEpoch) (h : w.writing ≠ none) :
    (∃ w', w.writeReturns = some w') ∨ (∃ w', w.send cap 1 = some w') ∨ w.Blocked cap := by
  obtain ⟨⟨f, sent, todo⟩, hwriting⟩ := Option.ne_none_iff_exists'.mp h
  cases todo with
  | nil => exact Or.inl ⟨_, writeReturns_eq_some.mpr ⟨f, sent, hwriting, rfl⟩⟩
  | cons data later =>
    have hdata : 1 ≤ data.length := by
      rw [Nat.one_le_iff_ne_zero, ne_eq, List.length_eq_zero_iff]
      rintro rfl
      exact (hinv.writing _ hwriting).2 List.mem_cons_self
    by_cases hroom : w.buffer.length + 1 ≤ cap
    · exact Or.inr (Or.inl ⟨_, send_eq_some.mpr
        ⟨f, sent, data, later, hwriting, Nat.le_refl 1, hdata, hroom, rfl⟩⟩)
    · exact Or.inr (Or.inr ⟨⟨f, sent, data, later, hwriting⟩, by omega⟩)

theorem Blocked.buffer_ne_nil (h : w.Blocked cap) (hcap : 1 ≤ cap) : w.buffer ≠ [] := by
  intro heq
  have hlen := h.2
  rw [heq, List.length_nil] at hlen
  omega

/-- What is there can be read. -/
theorem Sound.exists_recv (hinv : w.Inv cap withEpoch) (h : w.Sound withEpoch)
    (hbuffer : w.buffer ≠ []) : ∃ w' o, w.recv withEpoch 1 = some (w', o) := by
  have hwants : 1 ≤ w.reading.wants := by
    have hwaits := hinv.waits
    cases hr : w.reading with
    | length got =>
      rw [hr] at hwaits
      exact Nat.sub_pos_of_lt hwaits
    | rest lenBuf got =>
      rw [hr] at hwaits
      exact Nat.sub_pos_of_lt hwaits.2.2
    | ended s => exact absurd hr (h.on s)
  exact ⟨_, _, recv_eq_some.mpr
    ⟨⟨Nat.le_refl 1, hwants, List.length_pos_iff.mpr hbuffer⟩, rfl, rfl⟩⟩

/-- When nothing is on its way, everything that was written has been read. -/
theorem Sound.frames_eq (hinv : w.Inv cap withEpoch) (h : w.Sound withEpoch)
    (hwriting : w.writing = none) (hbuffer : w.buffer = []) : w.frames = w.written := by
  obtain ⟨zs, hzs, hrest⟩ := rest hinv h.fits h.whole
  rw [hbuffer, unsent, hwriting, List.append_nil, Option.elim_none, List.append_nil] at hrest
  -- `read_frame` would have returned another frame
  have hnone := ReadLoop.readFrame_seen hinv.waits h.on
  rw [hrest] at hnone
  cases zs with
  | nil => rw [hzs, List.append_nil]
  | cons f zs =>
    have hfit := h.fits f (by rw [hzs]; simp)
    rw [List.flatMap_cons, readFrame_writeFrame withEpoch f _ hfit.capped hfit.epoch] at hnone
    cases hnone

/-- **Something can be moved**, or everything that was written has been read. -/
theorem Sound.progress (hinv : w.Inv cap withEpoch) (h : w.Sound withEpoch) (hcap : 1 ≤ cap) :
    w.frames = w.written ∨ ∃ a w', a.Moves ∧ Step cap withEpoch w a w' := by
  have hrecv : w.buffer ≠ [] → ∃ a w', a.Moves ∧ Step cap withEpoch w a w' := by
    intro hbuffer
    obtain ⟨w', o, hw⟩ := h.exists_recv hinv hbuffer
    exact ⟨.recv 1, w', trivial, Option.map_eq_some_iff.mpr ⟨(w', o), hw, rfl⟩⟩
  by_cases hwriting : w.writing = none
  · by_cases hbuffer : w.buffer = []
    · exact Or.inl (h.frames_eq hinv hwriting hbuffer)
    · exact Or.inr (hrecv hbuffer)
  · rcases hinv.exists_write hwriting with ⟨w', hw⟩ | ⟨w', hw⟩ | hblocked
    · exact Or.inr ⟨.writeReturns, w', trivial, hw⟩
    · exact Or.inr ⟨.send 1, w', trivial, hw⟩
    · exact Or.inr (hrecv (hblocked.buffer_ne_nil hcap))

theorem written_of_step {a : Act} (hmoves : a.Moves) (hstep : Step cap withEpoch w a w') :
    w'.written = w.written := by
  have hfun : w.step cap withEpoch a = some w' := hstep
  cases a with
  | write _ | sendFails | recvFails => cases hmoves
  | send n =>
    obtain ⟨f, sent, data, later, hwriting, -, -, -, rfl⟩ := send_eq_some.mp hfun
    simp [written, hwriting]
  | writeReturns =>
    obtain ⟨f, sent, hwriting, rfl⟩ := writeReturns_eq_some.mp hfun
    simp [written, hwriting]
  | recv n =>
    obtain ⟨⟨_, o⟩, hrecv, rfl⟩ := Option.map_eq_some_iff.mp hfun
    obtain ⟨-, -, rfl⟩ := recv_eq_some.mp hrecv
    rfl

theorem inv_of_run {acts : List Act} (h : w.Inv cap withEpoch)
    (hrun : Run (Step cap withEpoch) w acts w') : w'.Inv cap withEpoch :=
  hrun.preserves h fun _ _ _ h hstep => h.step hstep

theorem sound_of_run {acts : List Act} (hinv : w.Inv cap withEpoch) (h : w.Sound withEpoch)
    (hgood : ∀ a ∈ acts, a.Good withEpoch) (hrun : Run (Step cap withEpoch) w acts w') :
    w'.Sound withEpoch := by
  induction hrun with
  | nil => exact h
  | snoc hfirst hlast ih =>
    rw [List.forall_mem_append] at hgood
    exact (ih hgood.1).step (inv_of_run hinv hfirst) (hgood.2 _ (List.mem_singleton_self _)) hlast

/-- Bytes are moved only so often, and nothing else is written meanwhile. -/
theorem weight_of_run {acts : List Act} (hmoves : ∀ a ∈ acts, a.Moves)
    (hrun : Run (Step cap withEpoch) w acts w') :
    acts.length + w'.weight ≤ w.weight ∧ w'.written = w.written := by
  induction hrun with
  | nil => exact ⟨Nat.le_of_eq (Nat.zero_add _), rfl⟩
  | snoc hfirst hlast ih =>
    rw [List.forall_mem_append] at hmoves
    obtain ⟨hle, heq⟩ := ih hmoves.1
    have hlast' := hmoves.2 _ (List.mem_singleton_self _)
    have hlt := weight_of_step hlast' hlast
    refine ⟨?_, (written_of_step hlast' hlast).trans heq⟩
    rw [List.length_append, List.length_singleton]
    omega

end

end Wire

/-- **Frames get through a socket.** However much each `send` takes and each `recv` gives, and
whichever of them fail, `read_frame` returns what `readFrame` reads off the bytes that the socket
has taken; these are, call by call of `write_frame`, the frame or, if the call has failed, the
beginning of it. If nothing fails and the frames fit, what has been read is what was written first;
bytes are moved only so often; and when no more can be moved, everything that was written has been
read. -/
theorem wire_carries_frames (cap : ℕ) (hcap : 1 ≤ cap) (withEpoch : Bool) (acts : List Wire.Act)
    (w : Wire) (hrun : Run (Wire.Step cap withEpoch) {} acts w) :
    Yields (readFrame withEpoch) w.frames w.accepted (w.reading.seen ++ w.buffer) ∧
    (∀ c ∈ w.finished, c.sent <+: writeFrame withEpoch c.frame ∧
      (c.ok = true → c.sent = writeFrame withEpoch c.frame)) ∧
    ((∀ a ∈ acts, a.Good withEpoch) → w.frames <+: w.written ∧
      ∀ acts' w', (∀ a ∈ acts', a.Moves) → Run (Wire.Step cap withEpoch) w acts' w' →
        acts'.length ≤ w.weight ∧
        ((∀ a w'', a.Moves → ¬ Wire.Step cap withEpoch w' a w'') → w'.frames = w.written)) := by
  have hempty := Wire.inv_empty cap withEpoch
  have hinv := Wire.inv_of_run hempty hrun
  refine ⟨hinv.read, hinv.sent, fun hgood => ?_⟩
  have hsound := Wire.sound_of_run hempty ⟨by simp [Wire.written], by simp, by simp⟩ hgood hrun
  refine ⟨?_, fun acts' w' hmoves hrun' => ?_⟩
  · obtain ⟨zs, hzs, -⟩ := Wire.rest hinv hsound.fits hsound.whole
    exact ⟨zs, hzs.symm⟩
  · obtain ⟨hle, hwritten⟩ := Wire.weight_of_run hmoves hrun'
    refine ⟨(Nat.le_add_right _ _).trans hle, fun hstuck => ?_⟩
    have hsound' := Wire.sound_of_run hinv hsound (fun a ha => (hmoves a ha).good) hrun'
    rcases hsound'.progress (Wire.inv_of_run hinv hrun') hcap with hall | ⟨a, w'', ha, hstep⟩
    · rw [hall, hwritten]
    · exact absurd hstep (hstuck a w'' ha)

/-! ### A frame in pieces -/

namespace SmallSocket

def frame : RawFrame := { type := .request, counter := 7, body := [1, 2] }

/-- One frame is written and read, and half of another. -/
def acts : List Wire.Act :=
  [.write frame, .send 3, .recv 2, .send 1, .recv 2, .send 8, .recv 8, .send 1, .send 2,
    .writeReturns, .write frame, .send 4, .recv 1, .recv 2, .recv 3]

def wire : Option Wire := exec (Wire.step 8 false) {} acts

theorem wire_isSome : wire.isSome = true := by decide +kernel

theorem good : ∀ a ∈ acts, a.Good false := by
  have hfits : Fits false frame := ⟨by decide, fun _ => rfl⟩
  simp only [acts, List.forall_mem_cons, List.not_mem_nil, false_implies, implies_true, and_true]
  exact ⟨hfits, trivial, trivial, trivial, trivial, trivial, trivial, trivial, trivial, trivial,
    hfits, trivial, trivial, trivial, trivial⟩

theorem wire_carries_frames_in_pieces :
    (wire.get wire_isSome).frames = [frame] ∧ (wire.get wire_isSome).written = [frame, frame] ∧
    (wire.get wire_isSome).frames <+: (wire.get wire_isSome).written := by
  refine ⟨by decide +kernel, by decide +kernel, ?_⟩
  exact ((wire_carries_frames 8 (by decide) false acts _
    (run_of_exec (Option.some_get wire_isSome).symm)).2.2 good).1

end SmallSocket

end Epx
