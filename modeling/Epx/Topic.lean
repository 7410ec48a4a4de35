import Epx.HostLoop

/-!
# Topics

`TopicHandle::Impl` of `src/host.cpp`: the subscribers of a topic, and what publishing, the
heartbeat and `close_all` write to them. Every operation holds the mutex of its topic from beginning
to end, and so is one step; the connections that it writes to are passed along.

A loop over the subscribers erases those that could not be written to while it goes on. The three
loops differ in what they send, and so `sweep` takes that as an argument.

For the record, a topic keeps the messages that were published and the subscriptions that have
ended, and a subscription the chunks that were written for it.

## Main definitions

* `TopicSub`, `Topic` — `TopicHandle::Impl::Sub` and `TopicHandle::Impl`
* `sweep` — a loop over the subscribers
* `Topic.add`, `Topic.remove`, `Topic.removeConn`, `Topic.publish`, `Topic.heartbeat`,
  `Topic.closeAll`

## Main results

* `keys_sweep`, `books_sweep` — a sweep adds no subscriber, and leaves the tables of the connections
  alone
-/

namespace Epx

open Codec

/-! ### The subscribers -/

/-- `TopicHandle::Impl::Sub`. Connections are numbered. -/
structure TopicSub where
  conn : ℕ
  requestId : UInt64
  seq : UInt32 := 0
  /-- How many messages had been published when the subscription was added. -/
  addedAt : ℕ := 0
  /-- The chunks that were written for it. -/
  chunks : List StreamChunkPayload := []
  deriving DecidableEq

namespace TopicSub

/-- What a subscription is found by. -/
def key (s : TopicSub) : ℕ × UInt64 := (s.conn, s.requestId)

/-- What stays the same of a subscription. -/
def ticket (s : TopicSub) : (ℕ × UInt64) × ℕ := (s.key, s.addedAt)

/-- The next chunk of a subscription. -/
def chunk (s : TopicSub) (isLast : Bool) (data : Bytes) : StreamChunkPayload :=
  { requestId := s.requestId, seq := s.seq, isLast := isLast, data := data }

end TopicSub

/-- `TopicHandle::Impl`, with what has been published and the subscriptions that have ended, each
with the number of messages that had been published by then. -/
structure Topic where
  subs : List TopicSub := []
  published : List Bytes := []
  ended : List (TopicSub × ℕ) := []
  deriving DecidableEq

/-! ### Writing to the subscribers -/

/-- What came of a write to a subscriber: its connection and the subscription afterwards, and
whether it was written. -/
structure Attempt where
  st : LoopState
  sub : TopicSub
  wrote : Bool

/-- What a loop over the subscribers leaves behind. -/
structure Sweep where
  kept : List TopicSub := []
  erased : List TopicSub := []
  delivered : ℕ := 0
  conns : ℕ → LoopState

/-- `cs->send_ping`. -/
def LoopState.sendPing (st : LoopState) (ok : Bool) : LoopState :=
  { st with
    conn := (st.conn.sendPing ok).1
    out := st.out ++ (st.conn.sendPing ok).2.toList }

/-- A loop over the subscribers, where `ok i` says whether the write to the subscriber at `i` would
succeed on a connection that is alive. -/
def sweep (send : TopicSub → LoopState → Bool → Attempt) :
    List TopicSub → (ℕ → Bool) → (ℕ → LoopState) → Sweep
  | [], _, conns => { conns := conns }
  | s :: subs, ok, conns =>
    let a := send s (conns s.conn) (ok 0)
    let rest := sweep send subs (fun i => ok (i + 1)) (Function.update conns s.conn a.st)
    if a.wrote then { rest with kept := a.sub :: rest.kept, delivered := rest.delivered + 1 }
    else { rest with erased := a.sub :: rest.erased } -- dead peer: prune on failed write

section

variable (S : Sodium)

/-- `cs->send_chunk(request_id, seq++, is_last, data)`. -/
def sendChunk (isLast : Bool) (data : Bytes) (s : TopicSub) (st : LoopState) (ok : Bool) :
    Attempt :=
  { st := st.sendSealed S .streamChunk (encodeStreamChunk (s.chunk isLast data)) ok
    sub :=
      { s with
        seq := s.seq + 1
        chunks := s.chunks ++ if st.conn.alive && ok then [s.chunk isLast data] else [] }
    wrote := st.conn.alive && ok }

/-- `cs->alive.load() && cs->send_chunk(request_id, seq++, false, message)`. -/
def sendMessage (message : Bytes) (s : TopicSub) (st : LoopState) (ok : Bool) : Attempt :=
  if st.conn.alive then sendChunk S false message s st ok
  else { st := st, sub := s, wrote := false }

/-- `cs->send_ping()`. -/
def sendHeartbeat (s : TopicSub) (st : LoopState) (ok : Bool) : Attempt :=
  { st := st.sendPing ok, sub := s, wrote := st.conn.alive && ok }

namespace Topic

def add (t : Topic) (conn : ℕ) (requestId : UInt64) : Topic :=
  { t with
    subs := t.subs ++ [{ conn := conn, requestId := requestId, addedAt := t.published.length }] }

/-- Subscriptions end before the next message. -/
def ends (t : Topic) (subs : List TopicSub) : List (TopicSub × ℕ) :=
  t.ended ++ subs.map fun s => (s, t.published.length)

/-- The first subscription of a connection with the request id is erased. -/
def remove (t : Topic) (conn : ℕ) (requestId : UInt64) : Topic :=
  match t.subs.find? fun s => s.key = (conn, requestId) with
  | some s =>
    { t with
      subs := t.subs.eraseP fun s => s.key = (conn, requestId)
      ended := t.ends [s] }
  | none => t

/-- `remove_conn`. -/
def removeConn (t : Topic) (conn : ℕ) : Topic :=
  { t with
    subs := t.subs.filter fun s => s.conn ≠ conn
    ended := t.ends (t.subs.filter fun s => s.conn = conn) }

/-- The topic after `publish`, the connections, and what it returns. -/
def publish (t : Topic) (message : Bytes) (ok : ℕ → Bool) (conns : ℕ → LoopState) :
    Topic × (ℕ → LoopState) × ℕ :=
  let w := sweep (sendMessage S message) t.subs ok conns
  ({ subs := w.kept, published := t.published ++ [message], ended := t.ends w.erased },
    w.conns, w.delivered)

/-- The topic after `heartbeat`, and the connections. -/
def heartbeat (t : Topic) (ok : ℕ → Bool) (conns : ℕ → LoopState) : Topic × (ℕ → LoopState) :=
  let w := sweep sendHeartbeat t.subs ok conns
  ({ t with subs := w.kept, ended := t.ends w.erased }, w.conns)

/-- The topic after `close_all`, and the connections. All subscribers are forgotten, whether their
last chunk was written or not. -/
def closeAll (t : Topic) (ok : ℕ → Bool) (conns : ℕ → LoopState) : Topic × (ℕ → LoopState) :=
  let w := sweep (sendChunk S true []) t.subs ok conns
  ({ t with subs := [], ended := t.ends (w.kept ++ w.erased) }, w.conns)

end Topic

end

/-! ### What a sweep leaves alone -/

section

variable {S : Sodium} {send : TopicSub → LoopState → Bool → Attempt}

/-- Writing to a subscriber changes neither the ticket of its subscription nor the tables of its
connection. -/
structure Tame (send : TopicSub → LoopState → Bool → Attempt) : Prop where
  ticket : ∀ s st ok, (send s st ok).sub.ticket = s.ticket
  books : ∀ s st ok, (send s st ok).st.books = st.books

theorem Tame.key (h : Tame send) (s : TopicSub) (st : LoopState) (ok : Bool) :
    (send s st ok).sub.key = s.key :=
  congrArg Prod.fst (h.ticket s st ok)

theorem tame_sendChunk (isLast : Bool) (data : Bytes) : Tame (sendChunk S isLast data) where
  ticket _ _ _ := rfl
  books _ _ _ := rfl

theorem tame_sendMessage (message : Bytes) : Tame (sendMessage S message) where
  ticket s st ok := by
    rw [sendMessage]
    split <;> rfl
  books s st ok := by
    rw [sendMessage]
    split <;> rfl

theorem tame_sendHeartbeat : Tame sendHeartbeat where
  ticket _ _ _ := rfl
  books _ _ _ := rfl

theorem keys_sweep (h : Tame send) (subs : List TopicSub) (ok : ℕ → Bool)
    (conns : ℕ → LoopState) :
    ((sweep send subs ok conns).kept.map TopicSub.key).Sublist (subs.map TopicSub.key) := by
  induction subs generalizing ok conns with
  | nil => exact List.Sublist.refl _
  | cons s subs ih =>
    unfold sweep
    simp only
    split
    · rw [List.map_cons, List.map_cons, h.key]
      exact (ih _ _).cons_cons _
    · rw [List.map_cons]
      exact (ih _ _).cons _

theorem books_sweep (h : Tame send) (subs : List TopicSub) (ok : ℕ → Bool)
    (conns : ℕ → LoopState) (c : ℕ) :
    ((sweep send subs ok conns).conns c).books = (conns c).books := by
  induction subs generalizing ok conns with
  | nil => rfl
  | cons s subs ih =>
    unfold sweep
    simp only
    have hrest : ((sweep send subs (fun i => ok (i + 1)) (Function.update conns s.conn
        (send s (conns s.conn) (ok 0)).st)).conns c).books = (conns c).books := by
      rw [ih, Function.update_apply]
      split
      · next hc => rw [hc, h.books]
      · rfl
    split <;> exact hrest

end

namespace Topic

variable {t : Topic} {conn : ℕ} {requestId : UInt64}

/-- What the subscriptions of a topic are found by. -/
def keys (t : Topic) : List (ℕ × UInt64) := t.subs.map TopicSub.key

/-- The subscriptions of one connection. -/
def subsOf (t : Topic) (conn : ℕ) : List TopicSub := t.subs.filter fun s => s.conn = conn

theorem count_keys : t.keys.count (conn, requestId)
    = ((t.subsOf conn).map TopicSub.requestId).count requestId := by
  rw [keys, subsOf]
  rw [List.count_eq_countP, List.count_eq_countP, List.countP_map, List.countP_map,
    List.countP_filter]
  congr 1
  funext s
  simp only [Function.comp_apply, TopicSub.key, beq_eq_decide, Prod.mk.injEq]
  rw [Bool.decide_and, Bool.and_comm]

theorem not_mem_keys : (∀ id, (conn, id) ∉ t.keys) ↔ t.subsOf conn = [] := by
  constructor
  · intro h
    refine List.filter_eq_nil_iff.mpr fun s hs hconn => h s.requestId ?_
    exact List.mem_map.mpr ⟨s, hs, by rw [TopicSub.key, of_decide_eq_true hconn]⟩
  · intro h id hmem
    rw [← List.count_pos_iff, count_keys, h] at hmem
    exact absurd hmem (Nat.lt_irrefl 0)

theorem keys_add : (t.add conn requestId).keys = t.keys ++ [(conn, requestId)] := by
  rw [keys, add]
  rw [List.map_append]
  rfl

theorem keys_remove : (t.remove conn requestId).keys = t.keys.erase (conn, requestId) := by
  rw [remove]
  split
  · next s hs =>
    have hfound : (fun s : TopicSub => decide (s.key = (conn, requestId)))
        = (fun k => (conn, requestId) == k) ∘ TopicSub.key := by
      funext s
      rw [Function.comp_apply, beq_eq_decide]
      exact decide_eq_decide.mpr eq_comm
    unfold keys
    rw [List.erase_eq_eraseP, List.eraseP_map, ← hfound]
  · next hnone =>
    rw [List.erase_of_not_mem]
    intro hmem
    obtain ⟨s, hs, hkey⟩ := List.mem_map.mp hmem
    have := List.find?_eq_none.mp hnone s hs
    simp [hkey] at this

theorem subsOf_add {conn' : ℕ} (hne : conn' ≠ conn) :
    (t.add conn requestId).subsOf conn' = t.subsOf conn' := by
  unfold subsOf add
  rw [List.filter_append, List.filter_cons_of_neg (by simpa using hne.symm), List.filter_nil,
    List.append_nil]

theorem subsOf_remove {conn' : ℕ} (hne : conn' ≠ conn) :
    (t.remove conn requestId).subsOf conn' = t.subsOf conn' := by
  rw [remove]
  split
  · next s hs =>
    obtain ⟨hkey, before, after, hsubs, hbefore⟩ := List.find?_eq_some_iff_append.mp hs
    have herase : (t.subs.eraseP fun s => s.key = (conn, requestId)) = before ++ after := by
      rw [hsubs, List.eraseP_append_right _ (by simpa using hbefore), List.eraseP_cons, hkey]
      rfl
    have hconn : s.conn = conn := congrArg Prod.fst (of_decide_eq_true hkey)
    unfold subsOf
    rw [herase, hsubs, List.filter_append, List.filter_append,
      List.filter_cons_of_neg (by simpa [hconn] using hne.symm)]
  · rfl

theorem keys_removeConn :
    (t.removeConn conn).keys = t.keys.filter fun k => k.1 ≠ conn := by
  unfold keys removeConn
  rw [List.filter_map]
  rfl

end Topic

end Epx
