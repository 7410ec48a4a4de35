import Epx.ClientCallIds
import Epx.InertFrames
import Epx.PeerInput
import Epx.Session.Nonces

/-!
# Frames that a client passes over

`reader_loop` of `src/client.cpp` as a whole: the record layer of `Connection` and the calls of
`ClientCalls` are two sides of one connection, whose reader thread takes frames off a stream, opens
them and hands them to the calls. Two runs are compared as for a host: on a stream, and on the same
stream with frames of types put in that the reader neither opens nor obeys. Any number of calls,
callbacks and senders are under way, and the connection can die at any moment.

The reader looks at `alive` before each frame, so with a frame put in it may look once more before
it comes to the next one. The run it is matched with looks later, or not at all.

## Main definitions

* `ClientSide` — a client connection with what it will be sent
* `ClientSide.Matches` — what the application sees of two runs

## Main results

* `ClientSide.client_passes_over`
* `unsolicited_cleartext_inert`
-/

namespace Epx

open Codec Transition

/-! ### A client connection -/

/-- The steps of the reader that begin at its loop condition or with a frame. -/
def ClientCalls.Act.looks : ClientCalls.Act → Bool
  | .readerTop | .readChunk _ | .readResponse _ | .readError _ | .readOther | .readFails => true
  | _ => false

/-- The steps of the reader with a callback, or on its way out. -/
def ClientCalls.Act.delivers : ClientCalls.Act → Bool
  | .mark | .invoke | .callbackReturns | .endLast | .die | .sweep => true
  | _ => false

/-- The steps of the holder of `write_mutex`. -/
def Connection.Act.writes : Connection.Act → Bool
  | .acquire .. | .storeEph | .setInProgress | .sendOwn _ => true
  | _ => false

/-- A client connection, with what it has not read yet. -/
structure ClientSide where
  /-- The local of `reader_loop` that says which layout and which cipher are in use. -/
  v2 : Bool
  conn : Connection
  calls : ClientCalls
  input : Bytes

namespace ClientSide

inductive Act where
  /-- A call, or the reader with a callback or on its way out. -/
  | call (a : ClientCalls.Act)
  /-- A sender. -/
  | write (a : Connection.Act)
  /-- The reader looks at `alive`. -/
  | loop
  | read (f : RawFrame)
  /-- `read_frame` gives nothing: the stream has ended, or the transport was closed. -/
  | fails
  | swapEph
  | switchKeys (now : ℕ)

section

variable (S : Sodium)

/-- What the calls see of a frame that was opened; nothing yet of a REKEY_ACK. -/
def heardOpened (type : FrameType) (opened : Bytes) : Option ClientCalls.Act :=
  if type = .rekeyAck then if opened.length = 32 then none else some .readFails
  else if type = .error then
    match decodeError opened with
    | .accept err => some (.readError (some err))
    | _ => some (.readError none)
  else if type = .streamChunk then
    match decodeStreamChunk opened with
    | .accept chunk => some (.readChunk chunk)
    | _ => some .readFails
  else
    match decodeResponse opened with
    | .accept resp => some (.readResponse resp)
    | _ => some .readFails

/-- What the calls see of a frame. -/
def heard (c : Connection) (f : RawFrame) : Option ClientCalls.Act :=
  if Connection.opens f.type = false then some .readOther
  else
    match openChecked S c.v2 c.rx f with
    | none => some .readFails
    | some (opened, _) => heardOpened f.type opened

/-- The calls after a step that the reader lets them see. -/
def told (k : ClientCalls) : Option ClientCalls.Act → Option ClientCalls
  | none => some k
  | some a => k.step a

def step (s : ClientSide) : Act → Option ClientSide
  | .call a =>
    if a.looks then none else (s.calls.step a).map fun k => { s with calls := k }
  | .write a =>
    if a.writes then (s.conn.step S a).map fun p => { s with conn := p.1 } else none
  | .loop =>
    if s.conn.reader = .running then
      (s.calls.step .readerTop).map fun k => { s with calls := k }
    else none
  | .read f =>
    if s.calls.reader = .reading ∧ s.conn.reader = .running then
      match readFrame s.v2 s.input with
      | some (f', rest) =>
        if f' = f then
          (told s.calls (heard S s.conn f)).map fun k =>
            { s with conn := s.conn.receive S f, calls := k, input := rest }
        else none
      | none => none
    else none
  | .fails =>
    if s.conn.reader = .running then
      (s.calls.step .readFails).map fun k => { s with calls := k }
    else none
  | .swapEph =>
    match s.conn.reader with
    | .ackOpened serverEph =>
      match (s.conn.swapEph S serverEph).reader with
      | .exited _ =>
        (s.calls.step .readFails).map fun k =>
          { s with conn := s.conn.swapEph S serverEph, calls := k }
      | _ => some { s with conn := s.conn.swapEph S serverEph }
    | _ => none
  | .switchKeys now =>
    match s.conn.reader, s.conn.writer with
    | .haveKeys eph nk, .free =>
      (s.calls.step .readOther).map fun k =>
        { s with conn := s.conn.switchKeys eph nk now, calls := k }
    | _, _ => none

abbrev Step : ClientSide → Act → ClientSide → Prop := OfFun (step S)

end

/-- The connection that `get_or_connect` sets up. -/
def start (eph : EphemeralKeyPair) (hs : HandshakeResult) (rotation : RotationPolicy) (now : ℕ)
    (input : Bytes) : ClientSide :=
  { v2 := hs.version ≥ 2
    conn := .start eph hs rotation now
    calls := {}
    input := input }

/-- The frame types that the reader passes over. -/
def clientInert (type : FrameType) : Bool := !Connection.opens type

/-- What the application and the peer can tell apart: not how often the reader looks at `alive`, and
not what it passes over on its way to the end of its loop. -/
def Act.matters : Act → Bool
  | .read f => !clientInert f.type
  | .loop | .fails => false
  | _ => true

/-- The same steps that matter, in the same order. -/
def SameSteps (acts acts' : List Act) : Prop := acts'.filter Act.matters = acts.filter Act.matters

/-- **The application and the peer see the same**: the same state of the connection, with the same
frames sealed and opened, and the same calls, which have ended in the same ways and were handed the
same chunks. The reader may be somewhere else. -/
structure Matches (s s' : ClientSide) : Prop where
  conn : s'.conn = s.conn
  calls : s'.calls = { s.calls with reader := s'.calls.reader }

end ClientSide

/-! ### The calls and the place of the reader -/

namespace ClientCalls

/-- The same calls, with the reader somewhere else. -/
def withReader (k : ClientCalls) (r : Reader) : ClientCalls := { k with reader := r }

section

variable {k k' : ClientCalls} {a : Act} {r : Reader}

@[simp] theorem withReader_reader : (k.withReader r).reader = r := rfl
@[simp] theorem withReader_calls : (k.withReader r).calls = k.calls := rfl
@[simp] theorem withReader_streamSinks : (k.withReader r).streamSinks = k.streamSinks := rfl

theorem withReader_self (h : k.reader = r) : k.withReader r = k := by
  subst h
  rfl

theorem getWake_withReader (i : ℕ) (id : UInt64) (timedOut : Bool) :
    (k.withReader r).getWake i id timedOut = (k.getWake i id timedOut).withReader r := by
  have hsame : ((k.withReader r).alive = false ∨ ((k.withReader r).pending id).join.isSome = true) ↔
      (k.alive = false ∨ (k.pending id).join.isSome = true) := Iff.rfl
  rw [getWake, getWake]
  dsimp only
  by_cases hsleeps :
      ¬ (k.alive = false ∨ (k.pending id).join.isSome = true) ∧ timedOut = false
  · rw [if_pos hsleeps, if_pos (by rwa [hsame])]
    rfl
  · rw [if_neg hsleeps, if_neg (by rwa [hsame])]
    rfl

theorem streamWake_withReader (i : ℕ) (id before : UInt64) (timedOut : Bool) :
    (k.withReader r).streamWake i id before timedOut =
      (k.streamWake i id before timedOut).withReader r := by
  rw [streamWake, streamWake]
  rw [show (k.withReader r).streamLeaves id before timedOut = k.streamLeaves id before timedOut
    from rfl]
  by_cases hleaves : k.streamLeaves id before timedOut = true
  · rw [if_pos hleaves, if_pos hleaves]
    rfl
  · rw [if_neg hleaves, if_neg hleaves]
    rfl

/-- **What a call does has nothing to do with the place of the reader.** -/
theorem step_withReader (hlooks : a.looks = false) (hdelivers : a.delivers = false) :
    (k.withReader r).step a = (k.step a).map fun k' => k'.withReader r := by
  cases a with
  | lookup i kind =>
    simp only [step, withReader_calls]
    cases k.calls i with
    | idle =>
      dsimp only
      by_cases halive : k.alive = true
      · rw [if_pos halive, if_pos (show (k.withReader r).alive = true from halive)]
        rfl
      · rw [if_neg halive, if_neg (show ¬ (k.withReader r).alive = true from halive)]
        rfl
    | _ => rfl
  | draw i =>
    simp only [step, withReader_calls]
    cases k.calls i <;> rfl
  | register i =>
    simp only [step, withReader_calls]
    cases k.calls i with
    | drawn kind id => cases kind <;> rfl
    | _ => rfl
  | send i ok =>
    simp only [step, withReader_calls]
    cases k.calls i <;> rfl
  | giveUp i =>
    simp only [step, withReader_calls]
    cases k.calls i with
    | unsent kind id => cases kind <;> rfl
    | _ => rfl
  | getWake i timedOut =>
    simp only [step, withReader_calls, getWake_withReader]
    cases k.calls i with
    | sent kind id => cases kind <;> rfl
    | _ => rfl
  | streamBegin i =>
    simp only [step, withReader_calls, withReader_streamSinks, streamWake_withReader]
    cases k.calls i with
    | sent kind id => cases kind <;> rfl
    | _ => rfl
  | streamWake i timedOut =>
    simp only [step, withReader_calls, streamWake_withReader]
    cases k.calls i <;> rfl
  | unsubscribe j i =>
    simp only [step, withReader_calls]
    cases k.calls j with
    | idle =>
      cases (k.calls i).handle with
      | none => rfl
      | some id =>
        dsimp only
        by_cases hactive : k.active i = true
        · rw [if_pos hactive, if_pos (show (k.withReader r).active i = true from hactive)]
          rfl
        · rw [if_neg hactive, if_neg (show ¬ (k.withReader r).active i = true from hactive)]
          rfl
    | _ => rfl
  | unsubscribeErase j =>
    simp only [step, withReader_calls]
    cases k.calls j with
    | unsubscribing i =>
      dsimp only
      cases (k.calls i).handle <;> rfl
    | _ => rfl
  | unsubscribeReturn j =>
    simp only [step, withReader_calls]
    cases k.calls j with
    | unsubscribeErased i =>
      dsimp only
      by_cases halive : k.alive = true
      · rw [if_pos halive, if_pos (show (k.withReader r).alive = true from halive)]
        rfl
      · rw [if_neg halive, if_neg (show ¬ (k.withReader r).alive = true from halive)]
        rfl
    | _ => rfl
  | drawOther | close => rfl
  | readerTop | readChunk _ | readResponse _ | readError _ | readOther | readFails => cases hlooks
  | mark | invoke | callbackReturns | endLast | die | sweep => cases hdelivers

theorem reader_of_call (hlooks : a.looks = false) (hdelivers : a.delivers = false)
    (hstep : k.step a = some k') : k'.reader = k.reader := by
  have hsame := step_withReader (k := k) (r := k.reader) hlooks hdelivers
  rw [withReader_self rfl, hstep] at hsame
  rw [Option.some.inj hsame]
  rfl

/-- A reader with a callback or on its way out neither was nor comes to be before a frame. -/
theorem reader_of_delivers (hdelivers : a.delivers = true) (hstep : k.step a = some k') :
    k.reader ≠ .top ∧ k.reader ≠ .reading ∧ k'.reader ≠ .reading := by
  cases a with
  | mark =>
    simp only [step] at hstep
    split at hstep
    · next d rest hreader =>
      obtain ⟨-, heq⟩ := Option.ite_none_right_eq_some.mp hstep
      cases heq
      simp [hreader]
    · cases hstep
  | invoke =>
    simp only [step] at hstep
    split at hstep
    · next d stage rest hreader =>
      obtain ⟨-, heq⟩ := Option.ite_none_right_eq_some.mp hstep
      cases heq
      simp [hreader]
    · cases hstep
  | callbackReturns =>
    simp only [step] at hstep
    split at hstep
    · next d rest hreader =>
      cases hstep
      refine ⟨by simp [hreader], by simp [hreader], ?_⟩
      dsimp only [afterCallback]
      cases d.origin with
      | chunk =>
        dsimp only
        split
        · simp
        · simp
      | refusal => simp
      | exit => cases rest <;> simp
    · cases hstep
  | endLast =>
    simp only [step] at hstep
    split at hstep
    · next d hreader =>
      cases hstep
      simp [hreader]
    · cases hstep
  | die =>
    obtain ⟨hreader, heq⟩ := Option.ite_none_right_eq_some.mp hstep
    cases heq
    simp [hreader]
  | sweep =>
    obtain ⟨hreader, heq⟩ := Option.ite_none_right_eq_some.mp hstep
    cases heq
    refine ⟨by simp [hreader], by simp [hreader], ?_⟩
    dsimp only [ClientCalls.sweep]
    cases k.closedCbs <;> simp
  | _ => cases hdelivers

/-- After a frame the reader is somewhere else. -/
theorem reader_of_read (hlooks : a.looks = true) (htop : a ≠ .readerTop)
    (hstep : k.step a = some k') : k'.reader ≠ .reading := by
  cases a with
  | readerTop => exact absurd rfl htop
  | readChunk chunk =>
    obtain ⟨-, heq⟩ := Option.ite_none_right_eq_some.mp hstep
    cases heq
    rw [readChunk]
    dsimp only
    split
    · simp
    · simp
  | readResponse resp =>
    obtain ⟨-, heq⟩ := Option.ite_none_right_eq_some.mp hstep
    cases heq
    rw [readResponse]
    dsimp only
    split
    · simp
    · split
      · simp
      · split
        · simp
        · simp
  | readError err =>
    obtain ⟨-, heq⟩ := Option.ite_none_right_eq_some.mp hstep
    cases err with
    | none =>
      cases heq
      simp
    | some e =>
      cases heq
      simp
  | readOther | readFails =>
    obtain ⟨-, heq⟩ := Option.ite_none_right_eq_some.mp hstep
    cases heq
    simp
  | _ => cases hlooks

end

end ClientCalls

/-- A sender does not touch the reader. -/
theorem Connection.reader_of_writes {S : Sodium} {c c' : Connection} {a : Connection.Act}
    {out : Option RawFrame} (hwrites : a.writes = true) (hstep : c.step S a = some (c', out)) :
    c'.reader = c.reader := by
  cases a with
  | acquire type plaintext now eph ok =>
    simp only [Connection.step] at hstep
    split at hstep
    · split at hstep
      · split at hstep
        · cases hstep
          rfl
        · cases hstep
          rfl
      · cases hstep
    · cases hstep
  | storeEph | setInProgress | sendOwn ok =>
    simp only [Connection.step] at hstep
    split at hstep
    · cases hstep
      rfl
    · cases hstep
  | _ => cases hwrites

/-! ### Two runs -/

namespace ClientSide

section

variable {S : Sodium} {s s' t : ClientSide} {a : Act} {f : RawFrame}

/-- Two runs that are at the same place; the reader has passed over what was put in before the next
frame. -/
structure Together (s s' : ClientSide) : Prop where
  v2 : s'.v2 = s.v2
  conn : s'.conn = s.conn
  calls : s'.calls = s.calls
  streams : Interposed s.v2 clientInert s.input s'.input
  aligned : s.calls.reader = .reading → s.conn.reader = .running →
    Aligned s.v2 clientInert s.input s'.input

/-- In the second run the reader has looked at `alive`, and the next frame is one that was put in.
-/
structure Ahead (s s' : ClientSide) : Prop where
  v2 : s'.v2 = s.v2
  conn : s'.conn = s.conn
  running : s.conn.reader = .running
  top : s.calls.reader = .top
  calls : s'.calls = s.calls.withReader .reading
  next : ∃ g rest', clientInert g.type = true ∧ Fits s.v2 g ∧
    s'.input = writeFrame s.v2 g ++ rest' ∧ Interposed s.v2 clientInert s.input rest'

theorem Together.matches (h : s.Together s') : s.Matches s' := ⟨h.conn, by rw [h.calls]⟩

theorem Ahead.matches (h : s.Ahead s') : s.Matches s' := ⟨h.conn, by rw [h.calls]; rfl⟩

theorem SameSteps.refl (as : List Act) : SameSteps as as := rfl

theorem SameSteps.append {as as' bs bs' : List Act} (h : SameSteps as as') (h' : SameSteps bs bs') :
    SameSteps (as ++ bs) (as' ++ bs') := by
  rw [SameSteps, List.filter_append, List.filter_append, h, h']

theorem sameSteps_of_idle {as as' : List Act} (h : ∀ a ∈ as, a.matters = false)
    (h' : ∀ a ∈ as', a.matters = false) : SameSteps as as' := by
  rw [SameSteps, List.filter_eq_nil_iff.mpr, List.filter_eq_nil_iff.mpr]
  · intro a ha
    simp [h a ha]
  · intro a ha
    simp [h' a ha]

theorem heardOpened_looks {type : FrameType} {opened : Bytes} {a : ClientCalls.Act}
    (h : heardOpened type opened = some a) : a.looks = true ∧ a ≠ .readerTop := by
  simp only [heardOpened] at h
  split_ifs at h
  · cases h
    exact ⟨rfl, by simp⟩
  · cases hdec : decodeError opened with
    | accept err | oob | reject =>
      rw [hdec] at h
      cases h
      exact ⟨rfl, by simp⟩
  · cases hdec : decodeStreamChunk opened with
    | accept chunk | oob | reject =>
      rw [hdec] at h
      cases h
      exact ⟨rfl, by simp⟩
  · cases hdec : decodeResponse opened with
    | accept resp | oob | reject =>
      rw [hdec] at h
      cases h
      exact ⟨rfl, by simp⟩

/-- Nothing is heard of an opened REKEY_ACK, and the reader is not done with it. -/
theorem afterOpen_of_heardOpened {type : FrameType} {opened : Bytes}
    (h : heardOpened type opened = none) : Connection.afterOpen type opened ≠ .running := by
  simp only [heardOpened] at h
  split_ifs at h with hack hlen
  · simp [Connection.afterOpen, hack, hlen]
  · cases hdec : decodeError opened with
    | accept err | oob | reject =>
      rw [hdec] at h
      cases h
  · cases hdec : decodeStreamChunk opened with
    | accept chunk | oob | reject =>
      rw [hdec] at h
      cases h
  · cases hdec : decodeResponse opened with
    | accept resp | oob | reject =>
      rw [hdec] at h
      cases h

/-- After a frame the reader is somewhere else, or not done with the frame. -/
theorem told_reader {k : ClientCalls} (htold : told s.calls (heard S s.conn f) = some k)
    (hreading : k.reader = .reading) : (s.conn.receive S f).reader ≠ .running := by
  have hno : ∀ a, heard S s.conn f = some a → a.looks = true → a = .readerTop := by
    intro a ha hlooks
    by_contra htop
    rw [ha] at htold
    exact ClientCalls.reader_of_read hlooks htop htold hreading
  by_cases hopens : Connection.opens f.type = true
  · cases hopened : openChecked S s.conn.v2 s.conn.rx f with
    | none =>
      have hheard : heard S s.conn f = some .readFails := by simp [heard, hopens, hopened]
      cases hno _ hheard rfl
    | some p =>
      obtain ⟨opened, rx⟩ := p
      have hheard : heard S s.conn f = heardOpened f.type opened := by
        simp [heard, hopens, hopened]
      rw [Connection.receive_opened S hopens hopened]
      cases hout : heardOpened f.type opened with
      | none => exact afterOpen_of_heardOpened hout
      | some a =>
        obtain ⟨hlooks, htop⟩ := heardOpened_looks hout
        exact absurd (hno a (hheard.trans hout) hlooks) htop
  · have hheard : heard S s.conn f = some .readOther := by simp [heard, hopens]
    cases hno _ hheard rfl

/-- A step that leaves the stream alone. -/
theorem Together.keeps (h : s.Together s') {conn conn' : Connection} {k k' : ClientCalls}
    (hconn : conn' = conn) (hcalls : k' = k)
    (haligned : k.reader = .reading → conn.reader = .running →
      s.calls.reader = .reading ∧ s.conn.reader = .running) :
    Together ⟨s.v2, conn, k, s.input⟩ ⟨s'.v2, conn', k', s'.input⟩ where
  v2 := h.v2
  conn := hconn
  calls := hcalls
  streams := h.streams
  aligned hreading hrunning :=
    h.aligned (haligned hreading hrunning).1 (haligned hreading hrunning).2

/-- **Every step but a look at `alive` goes in both runs or in neither.** -/
theorem Together.other (h : s.Together s') (hloop : a ≠ .loop) :
    (step S s a = none ∧ step S s' a = none) ∨
      ∃ t t', step S s a = some t ∧ step S s' a = some t' ∧ t.Together t' := by
  have hconn := h.conn
  have hcalls := h.calls
  cases a with
  | loop => exact absurd rfl hloop
  | call a =>
    rw [step, step, hcalls]
    by_cases hlooks : a.looks = true
    · rw [if_pos hlooks, if_pos hlooks]
      exact Or.inl ⟨rfl, rfl⟩
    · rw [if_neg hlooks, if_neg hlooks]
      cases hstep : s.calls.step a with
      | none => exact Or.inl ⟨rfl, rfl⟩
      | some k =>
        refine Or.inr ⟨_, _, rfl, rfl, h.keeps hconn rfl fun hreading hrunning => ⟨?_, hrunning⟩⟩
        by_cases hdelivers : a.delivers = true
        · exact absurd hreading (ClientCalls.reader_of_delivers hdelivers hstep).2.2
        · rw [← ClientCalls.reader_of_call (Bool.not_eq_true _ ▸ hlooks)
            (Bool.not_eq_true _ ▸ hdelivers) hstep]
          exact hreading
  | write a =>
    rw [step, step, hconn]
    by_cases hwrites : a.writes = true
    · rw [if_pos hwrites, if_pos hwrites]
      cases hstep : s.conn.step S a with
      | none => exact Or.inl ⟨rfl, rfl⟩
      | some p =>
        refine Or.inr ⟨_, _, rfl, rfl, h.keeps rfl hcalls fun hreading hrunning => ⟨hreading, ?_⟩⟩
        rw [← Connection.reader_of_writes hwrites hstep]
        exact hrunning
    · rw [if_neg hwrites, if_neg hwrites]
      exact Or.inl ⟨rfl, rfl⟩
  | read f =>
    rw [step, step, hcalls, hconn, h.v2]
    by_cases hreads : s.calls.reader = .reading ∧ s.conn.reader = .running
    swap
    · rw [if_neg hreads, if_neg hreads]
      exact Or.inl ⟨rfl, rfl⟩
    rw [if_pos hreads, if_pos hreads]
    have haligned := h.aligned hreads.1 hreads.2
    cases hnext : readFrame s.v2 s.input with
    | none =>
      refine Or.inl ⟨rfl, ?_⟩
      cases hnext' : readFrame s.v2 s'.input with
      | none => rfl
      | some p =>
        obtain ⟨rest, hread, -⟩ := haligned.read_inv hnext'
        rw [hnext] at hread
        cases hread
    | some p =>
      obtain ⟨f', rest⟩ := p
      obtain ⟨rest', hnext', hrest⟩ := haligned.read hnext
      rw [hnext']
      dsimp only
      by_cases hf : f' = f
      swap
      · rw [if_neg hf, if_neg hf]
        exact Or.inl ⟨rfl, rfl⟩
      rw [if_pos hf, if_pos hf]
      cases htold : told s.calls (heard S s.conn f) with
      | none => exact Or.inl ⟨rfl, rfl⟩
      | some k =>
        refine Or.inr ⟨_, _, rfl, rfl, ?_⟩
        exact ⟨rfl, rfl, rfl, hrest, fun hreading hrunning =>
          absurd hrunning (told_reader htold hreading)⟩
  | fails =>
    rw [step, step, hcalls, hconn]
    by_cases hrunning : s.conn.reader = .running
    swap
    · rw [if_neg hrunning, if_neg hrunning]
      exact Or.inl ⟨rfl, rfl⟩
    rw [if_pos hrunning, if_pos hrunning]
    cases hstep : s.calls.step .readFails with
    | none => exact Or.inl ⟨rfl, rfl⟩
    | some k =>
      exact Or.inr ⟨_, _, rfl, rfl, h.keeps rfl rfl fun hreading _ => absurd hreading
        (ClientCalls.reader_of_read rfl (by simp) hstep)⟩
  | swapEph =>
    rw [step, step, hconn]
    cases hreader : s.conn.reader with
    | ackOpened serverEph =>
      have hswap : (s.conn.swapEph S serverEph).reader ≠ .running := by
        rw [Connection.swapEph]
        split
        · simp
        · split
          · simp
          · simp
      dsimp only
      cases hafter : (s.conn.swapEph S serverEph).reader with
      | exited unsolicited =>
        dsimp only
        rw [hcalls]
        cases hstep : s.calls.step .readFails with
        | none => exact Or.inl ⟨rfl, rfl⟩
        | some k =>
          exact Or.inr ⟨_, _, rfl, rfl, h.keeps rfl rfl fun _ hrunning => absurd hrunning hswap⟩
      | running => exact absurd hafter hswap
      | ackOpened _ | haveKeys _ _ | crashed =>
        exact Or.inr ⟨_, _, rfl, rfl, h.keeps rfl hcalls fun _ hrunning => absurd hrunning hswap⟩
    | _ => exact Or.inl ⟨rfl, rfl⟩
  | switchKeys now =>
    rw [step, step, hconn, hcalls]
    split
    · next eph nk hreader hwriter =>
      cases hstep : s.calls.step .readOther with
      | none => exact Or.inl ⟨rfl, rfl⟩
      | some k =>
        exact Or.inr ⟨_, _, rfl, rfl, h.keeps rfl rfl fun hreading _ => absurd hreading
          (ClientCalls.reader_of_read rfl (by simp) hstep)⟩
    · exact Or.inl ⟨rfl, rfl⟩

/-! #### The look at `alive` -/

theorem step_loop {v2 : Bool} {c : Connection} {k : ClientCalls} {input : Bytes}
    (hrunning : c.reader = .running) (htop : k.reader = .top) :
    step S ⟨v2, c, k, input⟩ .loop =
      some ⟨v2, c, k.withReader (if k.alive = true then .reading else .left), input⟩ := by
  rw [step, if_pos hrunning, ClientCalls.step, if_pos htop]
  rfl

theorem loop_of_step (hstep : Step S s .loop t) :
    s.conn.reader = .running ∧ s.calls.reader = .top ∧
      t = ⟨s.v2, s.conn, s.calls.withReader (if s.calls.alive = true then .reading else .left),
        s.input⟩ := by
  have hfun : step S s .loop = some t := hstep
  obtain ⟨hrunning, hmap⟩ := Option.ite_none_right_eq_some.mp hfun
  obtain ⟨k, hk, -⟩ := Option.map_eq_some_iff.mp hmap
  obtain ⟨htop, -⟩ := Option.ite_none_right_eq_some.mp hk
  refine ⟨hrunning, htop, ?_⟩
  rw [← Option.some.injEq, ← hfun]
  exact step_loop hrunning htop

/-- A frame that was put in is read. -/
theorem step_read_inert {v2 : Bool} {c : Connection} {k : ClientCalls} {g : RawFrame}
    (hinert : clientInert g.type = true) (hfits : Fits v2 g) (hrunning : c.reader = .running)
    (htop : k.reader = .top) (rest : Bytes) :
    step S ⟨v2, c, k.withReader .reading, writeFrame v2 g ++ rest⟩ (.read g) =
      some ⟨v2, c, k, rest⟩ := by
  have hopens : Connection.opens g.type = false := by
    rw [clientInert] at hinert
    exact (Bool.not_eq_true' _).mp hinert
  have hheard : heard S c g = some .readOther := if_pos hopens
  have htold : told (k.withReader .reading) (some .readOther) = some k := by
    rw [← ClientCalls.withReader_self htop]
    rfl
  rw [step, if_pos ⟨rfl, hrunning⟩]
  dsimp only
  rw [readFrame_writeFrame _ g rest hfits.capped hfits.epoch]
  dsimp only
  rw [if_pos rfl, hheard, htold, Connection.receive_skipped S hopens]
  rfl

/-- The reader comes to the next frame over those that were put in. -/
theorem run_to_next {v2 : Bool} {c : Connection} {k : ClientCalls} (hrunning : c.reader = .running)
    (htop : k.reader = .top) (halive : k.alive = true) (gs : List RawFrame) (rest : Bytes)
    (hgs : ∀ g ∈ gs, clientInert g.type = true ∧ Fits v2 g) :
    ∃ as, Run (Step S) ⟨v2, c, k, gs.flatMap (writeFrame v2) ++ rest⟩ as
        ⟨v2, c, k.withReader .reading, rest⟩ ∧ ∀ a ∈ as, a.matters = false := by
  have hloop : ∀ input, Step S ⟨v2, c, k, input⟩ .loop ⟨v2, c, k.withReader .reading, input⟩ := by
    intro input
    change step S _ .loop = _
    rw [step_loop hrunning htop, if_pos halive]
  induction gs with
  | nil => exact ⟨[.loop], Run.nil.snoc (hloop rest), by simp [Act.matters]⟩
  | cons g gs ih =>
    obtain ⟨hinert, hfits⟩ := hgs g List.mem_cons_self
    obtain ⟨as, hrun, has⟩ := ih fun g' hg' => hgs g' (List.mem_cons_of_mem _ hg')
    have hread : Step S _ (.read g) _ :=
      step_read_inert hinert hfits hrunning htop (gs.flatMap (writeFrame v2) ++ rest)
    refine ⟨[.loop, .read g] ++ as, ?_, fun a ha => ?_⟩
    · rw [List.flatMap_cons, List.append_assoc]
      exact ((Run.nil.snoc (hloop _)).snoc hread).trans hrun
    · rcases List.mem_append.mp ha with ha | ha
      · rcases List.mem_cons.mp ha with rfl | ha
        · rfl
        · rw [List.mem_singleton.mp ha]
          simp [Act.matters, hinert]
      · exact has a ha

/-- The second run goes on with the first. -/
theorem Together.lead (h : s.Together s') (hstep : Step S s a t) :
    ∃ as' t', Run (Step S) s' as' t' ∧ SameSteps [a] as' ∧ t.Together t' := by
  by_cases hloop : a = .loop
  · subst hloop
    obtain ⟨hrunning, htop, rfl⟩ := loop_of_step hstep
    have hs' : s' = ⟨s.v2, s.conn, s.calls, s'.input⟩ := by
      rw [← h.v2, ← h.conn, ← h.calls]
    by_cases halive : s.calls.alive = true
    · obtain ⟨gs, rest, hinput, haligned, hgs⟩ := h.streams.split
      obtain ⟨as, hrun, has⟩ := run_to_next (S := S) hrunning htop halive gs rest hgs
      rw [hs', hinput]
      refine ⟨as, _, hrun, sameSteps_of_idle (by simp [Act.matters]) has, ?_⟩
      rw [if_pos halive]
      exact ⟨rfl, rfl, rfl, haligned.interposed, fun _ _ => haligned⟩
    · have hloop' : Step S ⟨s.v2, s.conn, s.calls, s'.input⟩ .loop _ := step_loop hrunning htop
      rw [hs']
      refine ⟨[.loop], _, Run.nil.snoc hloop', .refl _, ?_⟩
      rw [if_neg halive]
      exact ⟨rfl, rfl, rfl, h.streams, fun hreading => by cases hreading⟩
  · rcases h.other (S := S) hloop with ⟨hnone, -⟩ | ⟨u, u', hu, hu', htogether⟩
    · rw [show Step S s a t = (step S s a = some t) from rfl, hnone] at hstep
      cases hstep
    · cases hu.symm.trans hstep
      exact ⟨[a], u', Run.nil.snoc hu', .refl _, htogether⟩

/-- The first run goes on with the second. -/
theorem Together.follow (h : s.Together s') (hstep : Step S s' a t) :
    ∃ as u, Run (Step S) s as u ∧ SameSteps as [a] ∧ (u.Together t ∨ u.Ahead t) := by
  by_cases hloop : a = .loop
  · subst hloop
    obtain ⟨hrunning, htop, rfl⟩ := loop_of_step hstep
    rw [h.conn] at hrunning
    rw [h.calls] at htop
    have hloop' : Step S s .loop _ := step_loop hrunning htop
    rw [h.v2, h.conn, h.calls]
    by_cases halive : s.calls.alive = true
    · rw [if_pos halive] at hloop' ⊢
      rcases h.streams.aligned_or with haligned | ⟨g, rest', hinert, hfits, heq, hrest⟩
      · exact ⟨[.loop], _, Run.nil.snoc hloop', .refl _,
          Or.inl ⟨rfl, rfl, rfl, h.streams, fun _ _ => haligned⟩⟩
      · exact ⟨[], s, .nil, rfl,
          Or.inr ⟨rfl, rfl, hrunning, htop, rfl, g, rest', hinert, hfits, heq, hrest⟩⟩
    · rw [if_neg halive] at hloop' ⊢
      exact ⟨[.loop], _, Run.nil.snoc hloop', .refl _,
        Or.inl ⟨rfl, rfl, rfl, h.streams, fun hreading => by cases hreading⟩⟩
  · rcases h.other (S := S) hloop with ⟨-, hnone⟩ | ⟨u, u', hu, hu', htogether⟩
    · rw [show Step S s' a t = (step S s' a = some t) from rfl, hnone] at hstep
      cases hstep
    · cases hu'.symm.trans hstep
      exact ⟨[a], u, Run.nil.snoc hu, .refl _, Or.inl htogether⟩

/-- The first run goes on with the second, which is ahead of it. -/
theorem Ahead.follow (h : s.Ahead s') (hstep : Step S s' a t) :
    ∃ as u, Run (Step S) s as u ∧ SameSteps as [a] ∧ (u.Together t ∨ u.Ahead t) := by
  obtain ⟨g, rest', hinert, hfits, hinput, hrest⟩ := h.next
  have hs' : s' = ⟨s.v2, s.conn, s.calls.withReader .reading, s'.input⟩ := by
    rw [← h.v2, ← h.conn, ← h.calls]
  have hfun : step S ⟨s.v2, s.conn, s.calls.withReader .reading, s'.input⟩ a = some t := by
    rw [← hs']
    exact hstep
  cases a with
  | call a =>
    rw [step] at hfun
    by_cases hlooks : a.looks = true
    · rw [if_pos hlooks] at hfun
      cases hfun
    rw [if_neg hlooks] at hfun
    obtain ⟨k', hk', rfl⟩ := Option.map_eq_some_iff.mp hfun
    have hcall : a.delivers = false := by
      by_contra hdelivers
      exact (ClientCalls.reader_of_delivers (Bool.not_eq_false _ ▸ hdelivers) hk').2.1 rfl
    have hquiet : a.looks = false := Bool.not_eq_true _ ▸ hlooks
    have hmap : (s.calls.step a).map (fun k => k.withReader .reading) = some k' :=
      (ClientCalls.step_withReader hquiet hcall).symm.trans hk'
    obtain ⟨k, hk, rfl⟩ := Option.map_eq_some_iff.mp hmap
    have hfirst : Step S s (.call a) { s with calls := k } := by
      change step S s (.call a) = _
      rw [step, if_neg hlooks, hk]
      rfl
    refine ⟨[.call a], _, Run.nil.snoc hfirst, .refl _, Or.inr ⟨rfl, rfl, h.running, ?_, rfl, g,
      rest', hinert, hfits, hinput, hrest⟩⟩
    rw [← h.top]
    exact ClientCalls.reader_of_call hquiet hcall hk
  | write a =>
    rw [step] at hfun
    obtain ⟨hwrites, hmap⟩ := Option.ite_none_right_eq_some.mp hfun
    obtain ⟨p, hp, rfl⟩ := Option.map_eq_some_iff.mp hmap
    have hfirst : Step S s (.write a) { s with conn := p.1 } := by
      change step S s (.write a) = _
      rw [step, if_pos hwrites, show s.conn.step S a = some p from hp]
      rfl
    refine ⟨[.write a], _, Run.nil.snoc hfirst, .refl _, Or.inr ⟨rfl, rfl, ?_, h.top, rfl, g,
      rest', hinert, hfits, hinput, hrest⟩⟩
    rw [← h.running]
    exact Connection.reader_of_writes hwrites hp
  | loop =>
    obtain ⟨-, htop, -⟩ := loop_of_step (S := S) hfun
    cases htop
  | read f =>
    rw [hinput] at hfun
    have hf : f = g := by
      have hread := readFrame_writeFrame s.v2 g rest' hfits.capped hfits.epoch
      rw [step, if_pos ⟨rfl, h.running⟩] at hfun
      dsimp only at hfun
      rw [hread] at hfun
      exact (Option.ite_none_right_eq_some.mp hfun).1.symm
    subst hf
    rw [step_read_inert hinert hfits h.running h.top rest'] at hfun
    cases hfun
    refine ⟨[], s, .nil, sameSteps_of_idle (fun _ ha => absurd ha List.not_mem_nil) ?_,
      Or.inl ⟨rfl, rfl, rfl, hrest, fun hreading => ?_⟩⟩
    · intro a ha
      rw [List.mem_singleton.mp ha]
      simp [Act.matters, hinert]
    · rw [h.top] at hreading
      cases hreading
  | fails =>
    rw [step, if_pos h.running] at hfun
    cases hfun
    have hloop : Step S s .loop _ := step_loop h.running h.top
    have hidle : ∀ a ∈ [Act.loop, Act.fails], a.matters = false := by simp [Act.matters]
    by_cases halive : s.calls.alive = true
    · rw [if_pos halive] at hloop
      have hfails : Step S ⟨s.v2, s.conn, s.calls.withReader .reading, s.input⟩ .fails
          ⟨s.v2, s.conn, s.calls.withReader .left, s.input⟩ := if_pos h.running
      exact ⟨[.loop, .fails], _, (Run.nil.snoc hloop).snoc hfails,
        sameSteps_of_idle hidle (by simp [Act.matters]),
        Or.inl ⟨rfl, rfl, rfl, hinput ▸ .inserted hinert hfits hrest,
          fun hreading => by cases hreading⟩⟩
    · rw [if_neg halive] at hloop
      exact ⟨[.loop], _, Run.nil.snoc hloop,
        sameSteps_of_idle (by simp [Act.matters]) (by simp [Act.matters]),
        Or.inl ⟨rfl, rfl, rfl, hinput ▸ .inserted hinert hfits hrest,
          fun hreading => by cases hreading⟩⟩
  | swapEph =>
    rw [step, h.running] at hfun
    cases hfun
  | switchKeys now =>
    rw [step, h.running] at hfun
    cases hfun

/-- **A client passes over the frames that were put in**: each run on one of the streams has a run
on the other one that takes the same steps that matter, and the application and the peer see the
same of both. -/
theorem client_passes_over (h : s.Together s') :
    (∀ acts' t', Run (Step S) s' acts' t' →
      ∃ acts t, Run (Step S) s acts t ∧ SameSteps acts acts' ∧ t.Matches t') ∧
    ∀ acts t, Run (Step S) s acts t →
      ∃ acts' t', Run (Step S) s' acts' t' ∧ SameSteps acts acts' ∧ t.Matches t' := by
  constructor
  · intro acts' t' hrun
    obtain ⟨acts, t, hrun', hsame, hsim⟩ := hrun.simulate
      (R := fun (u' u : ClientSide) => u.Together u' ∨ u.Ahead u')
      (L := fun as' as => SameSteps as as') (Or.inl h) rfl .append fun _ _ _ _ hR hstep => by
        rcases hR with htogether | hahead
        · exact htogether.follow hstep
        · exact hahead.follow hstep
    rcases hsim with htogether | hahead
    · exact ⟨acts, t, hrun', hsame, htogether.matches⟩
    · exact ⟨acts, t, hrun', hsame, hahead.matches⟩
  · intro acts t hrun
    obtain ⟨acts', t', hrun', hsame, htogether⟩ := hrun.simulate (R := Together) (L := SameSteps) h
      rfl .append fun _ _ _ _ hR hstep => hR.lead hstep
    exact ⟨acts', t', hrun', hsame, htogether.matches⟩

end

theorem together_start (eph : EphemeralKeyPair) (hs : HandshakeResult) (rotation : RotationPolicy)
    (now : ℕ) {input input' : Bytes}
    (h : Interposed (decide (hs.version ≥ 2)) clientInert input input') :
    (start eph hs rotation now input).Together (start eph hs rotation now input') where
  v2 := rfl
  conn := rfl
  calls := rfl
  streams := h
  aligned hreading := by cases hreading

end ClientSide

open ClientSide HostSide

/-- **Cleartext that was not asked for is inert**, in sessions of either version: from the handshake
on, the runs of a host on its stream and on the stream with frames put in that it neither opens nor
obeys correspond to one another, and so do those of a client. -/
theorem unsolicited_cleartext_inert (S : Sodium) (cfg : HostConfig) (run : ServerRun) (acc : Accept)
    (hostHs clientHs : HandshakeResult) (eph : EphemeralKeyPair) (rotation : RotationPolicy)
    (now : ℕ) (toHost toHost' toClient toClient' : Bytes)
    (hhost : Interposed (hostHs.version ≥ 2) hostInert toHost toHost')
    (hclient : Interposed (clientHs.version ≥ 2) clientInert toClient toClient') :
    ((∀ acts' s',
        Run (HostSide.Step S cfg) (HostSide.start cfg run acc hostHs toHost') acts' s' →
        ∃ acts s, Run (HostSide.Step S cfg) (HostSide.start cfg run acc hostHs toHost) acts s ∧
          MoreReads acts acts' ∧ s.Matches s') ∧
      ∀ acts s, Run (HostSide.Step S cfg) (HostSide.start cfg run acc hostHs toHost) acts s →
        ∃ acts' s', Run (HostSide.Step S cfg) (HostSide.start cfg run acc hostHs toHost') acts' s' ∧
          MoreReads acts acts' ∧ s.Matches s') ∧
    (∀ acts' s',
        Run (ClientSide.Step S) (ClientSide.start eph clientHs rotation now toClient') acts' s' →
        ∃ acts s, Run (ClientSide.Step S) (ClientSide.start eph clientHs rotation now toClient)
            acts s ∧ SameSteps acts acts' ∧ s.Matches s') ∧
      ∀ acts s, Run (ClientSide.Step S) (ClientSide.start eph clientHs rotation now toClient)
          acts s →
        ∃ acts' s', Run (ClientSide.Step S) (ClientSide.start eph clientHs rotation now toClient')
            acts' s' ∧ SameSteps acts acts' ∧ s.Matches s' :=
  ⟨host_passes_over (sim_start cfg run acc hostHs hhost),
    client_passes_over (together_start eph clientHs rotation now hclient)⟩

/-! ### A host that is sent nothing but a PING -/

namespace LonePing

open RotatingSession ZeroEphemeral

def config : HostConfig := { serviceName := [115], policy := .trustOnFirstUse }

/-- The thread of a connection on which no request ever comes. -/
def thread (input : Bytes) : HostSide := .start config serverRun accept hostResult input

def ping : Bytes := writeFrame true pingFrame

/-- The reader of a client that is sent a BYE. -/
def bye : Bytes := writeFrame true { type := .bye, body := [] }

def reads : List HostSide.Act := [.read pingFrame idle]

end LonePing

open LonePing

/-- The PING is answered, and the run without it shows the same of everything else. -/
theorem unsolicited_cleartext_inert_ping :
    ∃ s', exec (HostSide.step RotatingSession.sodium config) (thread (ping ++ [])) reads = some s' ∧
      s'.st.out = [pongFrame] ∧
      ∃ acts s, Run (HostSide.Step RotatingSession.sodium config) (thread []) acts s ∧
        MoreReads acts reads ∧ s.Matches s' :=
  ⟨_, rfl, rfl, (unsolicited_cleartext_inert RotatingSession.sodium config ZeroEphemeral.serverRun
    ZeroEphemeral.accept RotatingSession.hostResult RotatingSession.clientResult
    (RotatingSession.ephemeral 1) {} 0 [] (ping ++ []) [] (bye ++ [])
    (.inserted (by decide) ⟨by decide, by decide⟩ (.tail []))
    (.inserted (by decide) ⟨by decide, by decide⟩ (.tail []))).1.1 reads _ (run_of_exec rfl)⟩

end Epx
