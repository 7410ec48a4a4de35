import Mathlib.Data.Set.Finite.Basic
import Epx.Lib.Locks

/-!
# The mutexes of clients and hosts

The threads of a process that has clients and hosts: those of the application, the reader threads of
the clients' connections (`src/client.cpp`), and the accept, heartbeat and connection threads of the
hosts (`src/host.cpp`). What each of them runs is taken as far as it takes mutexes and joins
threads; reads and writes on sockets, and `accept`, are taken to come back. Clients, hosts, topics
and connections are numbered, over the process.

What the application passes to the library is run on its threads: a client's callbacks on reader
threads, handlers and the authorization prompt on connection threads. These may call whatever does
not join threads (`Calls false`); the application's own threads, and the hooks of `Host::stop`, may
call everything (`Calls true`). The mutexes `rekey_mutex`, `death_mutex` and `tx_mutex` are taken
under another one, and none is taken under them.

## Main definitions

* `Mutex`, `Mutex.rank`, `Thread`
* `LockCode` — what a function does as far as mutexes and threads go
* `Calls` — what an application may do
* `Program`, `Program.code`

## Main results

* `no_deadlock`
-/

namespace Epx

open Transition Locks Locks.Code

/-- The mutexes of a `Client::Impl`. -/
inductive ClientMutex where
  | rotation
  | allow
  | conns
  deriving DecidableEq

/-- The mutexes of a `Connection` of a client. -/
inductive ConnectionMutex where
  | write
  | rekey
  | death
  | pending
  | stream
  deriving DecidableEq

/-- The mutexes of a `Host::Impl`. -/
inductive HostMutex where
  | handlers
  | allow
  | authz
  | uidBuckets
  | topics
  | conns
  | hooks
  deriving DecidableEq

/-- A mutex: of a client, of a connection of a client, of a host, `mu` of a topic, `tx_mutex` of a
connection of a host. -/
inductive Mutex where
  | client (c : ℕ) (m : ClientMutex)
  | connection (n : ℕ) (m : ConnectionMutex)
  | host (h : ℕ) (m : HostMutex)
  | topic (t : ℕ)
  | tx (n : ℕ)
  deriving DecidableEq

/-- Which mutexes are taken under others. -/
def Mutex.rank : Mutex → Fin 2
  | connection _ .rekey | connection _ .death | tx _ => 1
  | _ => 0

/-- The threads. -/
inductive Thread where
  | app (i : ℕ)
  /-- `reader_thread` of a connection of a client. -/
  | reader (n : ℕ)
  | accept (h : ℕ)
  | heartbeat (h : ℕ)
  /-- The thread of host `h` that serves connection `n`. -/
  | connection (h n : ℕ)
  deriving DecidableEq

/-- Only threads of the application wait for others, and not for one another. -/
def Thread.below : Thread → Thread → Prop
  | app _, app _ => False
  | app _, _ => True
  | _, _ => False

/-- Code, as far as mutexes and threads go. -/
abbrev LockCode := Code Mutex Thread

/-! ### `src/client.cpp` -/

namespace ClientCode

variable (c n : ℕ)

/-- `maybe_begin_rekey_locked`. -/
def maybeBeginRekeyLocked : LockCode := maybe (hold (.connection n .rekey))

/-- `seal_and_send`. -/
def sealAndSend : LockCode := locked (.connection n .write) (maybeBeginRekeyLocked n)

/-- `is_client_side_trusted`. -/
def isClientSideTrusted : LockCode := maybe (hold (.client c .allow))

/-- `get_or_connect`. -/
def getOrConnect : LockCode :=
  block [
    hold (.client c .conns),
    maybe (hold (.client c .allow)),
    maybe (isClientSideTrusted c), -- from `client_handshake`
    hold (.client c .rotation),
    hold (.client c .conns)]

/-- `close_connection`. -/
def closeConnection : LockCode :=
  block [
    hold (.client c .conns),
    any fun n => block [
      hold (.connection n .pending),
      hold (.connection n .stream),
      maybe (join (.reader n))]]

/-- `Client::~Client`. -/
def destroy : LockCode := block [hold (.client c .conns), many (closeConnection c)]

/-- `Client::disconnect`. -/
def disconnect : LockCode := closeConnection c

/-- `Client::allow_peer`. -/
def allowPeer : LockCode := hold (.client c .allow)

/-- `Client::enable_key_rotation`. -/
def enableKeyRotation : LockCode := hold (.client c .rotation)

/-- `Client::get`. -/
def get : LockCode :=
  block [
    getOrConnect c,
    any fun n => block [
      hold (.connection n .pending),
      sealAndSend n,
      maybe (hold (.connection n .pending)), -- not sent
      locked (.connection n .pending) <| block [
        many (wait (.connection n .pending)),
        maybe (hold (.connection n .death))]]]

/-- `Client::send`. -/
def send : LockCode := block [getOrConnect c, any sealAndSend]

/-- `Client::get_stream`. -/
def getStream : LockCode :=
  block [
    getOrConnect c,
    any fun n => block [
      hold (.connection n .stream),
      sealAndSend n,
      maybe (hold (.connection n .stream)), -- not sent
      locked (.connection n .stream) <| block [
        many (wait (.connection n .stream)),
        maybe (hold (.connection n .death))]]]

/-- `Client::open_stream`. -/
def openStream : LockCode := getOrConnect c

/-- `OutputStream::write`. -/
def write : LockCode := maybe (sealAndSend n)

/-- `OutputStream::finish`. -/
def finish : LockCode := maybe (sealAndSend n)

/-- `Client::session_epoch`. -/
def sessionEpoch : LockCode :=
  block [hold (.client c .conns), any fun n => hold (.connection n .write)]

/-- `Subscription::unsubscribe`. -/
def unsubscribe : LockCode := block [hold (.connection n .stream), maybe (sealAndSend n)]

/-- `Client::subscribe`. -/
def subscribe : LockCode :=
  block [
    getOrConnect c,
    any fun n => block [
      hold (.connection n .stream),
      sealAndSend n,
      maybe (hold (.connection n .stream))]] -- not sent

/-- What `reader_loop` does with one frame, by its type; `callback` are the callbacks of the
connection's streams. -/
def readerLoopFrame (callback : ℕ → LockCode) : LockCode :=
  choice [
    block [hold (.connection n .rekey), hold (.connection n .write)], -- `RekeyAck`
    hold (.connection n .death), -- `Error`
    block [ -- `StreamChunk`
      hold (.connection n .stream),
      maybe (any callback),
      maybe (hold (.connection n .stream))],
    block [ -- `Response`
      hold (.connection n .pending),
      hold (.connection n .stream),
      maybe (any callback)]]

/-- `reader_loop`. -/
def readerLoop (callback : ℕ → LockCode) : LockCode :=
  block [
    many (readerLoopFrame n callback),
    hold (.connection n .pending),
    hold (.connection n .stream),
    many (any callback)]

/-- What is called on a client and what it returned, and does not join a thread; `n` is the
connection of the stream or subscription. -/
def calls : List LockCode :=
  [allowPeer c, enableKeyRotation c, get c, send c, getStream c, openStream c, write n, finish n,
    sessionEpoch c, unsubscribe n, subscribe c]

/-- What joins threads. -/
def endings : List LockCode := [disconnect c, destroy c]

end ClientCode

/-! ### `src/host.cpp` -/

namespace HostCode

variable (h n t : ℕ)

/-- `ConnState::send_sealed`. -/
def sendSealed : LockCode := hold (.tx n)

/-- `ConnState::send_chunk`. -/
def sendChunk : LockCode := sendSealed n

/-- `ConnState::send_ping`. -/
def sendPing : LockCode := hold (.tx n)

/-- `ConnState::send_rekey_ack_and_switch`. -/
def sendRekeyAckAndSwitch : LockCode := hold (.tx n)

/-- `TopicHandle::publish`. -/
def publish : LockCode := locked (.topic t) (many (any sendChunk))

/-- `TopicHandle::subscriber_count`. -/
def subscriberCount : LockCode := hold (.topic t)

/-- `TopicHandle::Impl::add`. -/
def topicAdd : LockCode := hold (.topic t)

/-- `TopicHandle::Impl::remove`. -/
def topicRemove : LockCode := hold (.topic t)

/-- `TopicHandle::Impl::remove_conn`. -/
def topicRemoveConn : LockCode := hold (.topic t)

/-- `TopicHandle::Impl::close_all`. -/
def topicCloseAll : LockCode := locked (.topic t) (many (any sendChunk))

/-- `TopicHandle::Impl::heartbeat`. -/
def topicHeartbeat : LockCode := locked (.topic t) (many (any sendPing))

/-- `find_topic`. -/
def findTopic : LockCode := hold (.host h .topics)

/-- `heartbeat_loop`. -/
def heartbeatLoop : LockCode := many (block [hold (.host h .topics), many (any topicHeartbeat)])

/-- `admit_connection`. -/
def admitConnection : LockCode := maybe (hold (.host h .uidBuckets))

/-- `Host::Impl::is_trusted`. -/
def isTrusted : LockCode := hold (.host h .allow)

/-- `authorize`, by the tier of the endpoint; `prompt` is the authorization prompt. -/
def authorize (prompt : ℕ → LockCode) : LockCode :=
  choice [
    hold (.host h .allow), -- `PinnedPeers`
    hold (.host h .authz), -- `Certificate`
    block [hold (.host h .authz), any prompt]] -- `PromptUser`

/-- `load_credentials_from_disk`. -/
def loadCredentialsFromDisk : LockCode := many (hold (.host h .authz))

/-- `reply` in `handle_connection`. -/
def reply : LockCode := maybe (sendSealed n)

/-- What `handle_connection` does with one frame, by its type. -/
def handleConnectionFrame (prompt handler : ℕ → LockCode) : LockCode :=
  choice [
    hold (.tx n), -- `Ping`
    sendRekeyAckAndSwitch n, -- `Rekey`
    block [hold (.host h .handlers), authorize h prompt, any handler], -- `StreamChunk`
    block [ -- `Request`
      maybe (sendSealed n), -- rate limited
      hold (.host h .handlers),
      choice [
        any topicRemove, -- `$epx/unsubscribe`
        reply n, -- not found
        block [
          authorize h prompt,
          choice [
            reply n, -- access denied, too many subscriptions, wrong call shape
            block [findTopic h, any topicAdd],
            block [any handler, reply n],
            block [any handler, sendChunk n]]]]]]

/-- `handle_connection`. -/
def handleConnection (prompt handler : ℕ → LockCode) : LockCode :=
  block [
    admitConnection h,
    maybe (isTrusted h), -- from `server_handshake`
    many (handleConnectionFrame h n prompt handler),
    many (any topicRemoveConn)]

/-- `accept_loop`. -/
def acceptLoop : LockCode := many (hold (.host h .conns))

/-- `publish_registry`. -/
def publishRegistry : LockCode := hold (.host h .handlers)

/-- What `expose`, `expose_stream_receive` and `expose_stream_send` do, with a policy and without
one. -/
def expose : LockCode := block [hold (.host h .handlers), maybe (hold (.host h .handlers))]

/-- `expose_topic`, with a policy and without one. -/
def exposeTopic : LockCode :=
  block [
    hold (.host h .topics),
    hold (.host h .handlers),
    maybe (hold (.host h .handlers))]

/-- `on_authorization_prompt`. -/
def onAuthorizationPrompt : LockCode := hold (.host h .authz)

/-- `add_issuer`. -/
def addIssuer : LockCode := hold (.host h .authz)

/-- `add_credential`. -/
def addCredential : LockCode := maybe (hold (.host h .authz))

/-- `Host::allow_peer`. -/
def allowPeer : LockCode := hold (.host h .allow)

/-- `Host::run`. -/
def run : LockCode :=
  block [loadCredentialsFromDisk h, publishRegistry h, hold (.host h .topics)]

/-- `before_stop`. -/
def beforeStop : LockCode := hold (.host h .hooks)

/-- `after_stop`. -/
def afterStop : LockCode := hold (.host h .hooks)

/-- `Host::stop`, which `wait_until_stopped` and `~Host` end with; `hook` are the hooks. -/
def stop (hook : ℕ → LockCode) : LockCode :=
  block [
    hold (.host h .hooks),
    many (any hook),
    hold (.host h .topics),
    many (any topicCloseAll),
    maybe (join (.heartbeat h)),
    hold (.host h .conns),
    maybe (join (.accept h)),
    many (any fun n => join (.connection h n)),
    hold (.host h .hooks),
    many (any hook)]

/-- What is called on a host, a topic or a `StreamWriter`, and does not join a thread. -/
def calls : List LockCode :=
  [sendChunk n, publish t, subscriberCount t, expose h, exposeTopic h, onAuthorizationPrompt h,
    addIssuer h, addCredential h, allowPeer h, run h, beforeStop h, afterStop h]

end HostCode

/-! ### The threads of a process -/

/-- What code of the application does: it calls the library, in whatever order. Callbacks and
handlers (`false`) call nothing that joins a thread. -/
inductive Calls : Bool → LockCode → Prop
  | skip {b : Bool} : Calls b skip
  | seq {b : Bool} {p q : LockCode} : Calls b p → Calls b q → Calls b (seq p q)
  | alt {b : Bool} {p q : LockCode} : Calls b p → Calls b q → Calls b (alt p q)
  | any {b : Bool} {p : ℕ → LockCode} : (∀ i, Calls b (p i)) → Calls b (any p)
  | many {b : Bool} {p : LockCode} : Calls b p → Calls b (many p)
  | client {b : Bool} {p : LockCode} (c n : ℕ) : p ∈ ClientCode.calls c n → Calls b p
  | host {b : Bool} {p : LockCode} (h n t : ℕ) : p ∈ HostCode.calls h n t → Calls b p
  | ending {p : LockCode} (c : ℕ) : p ∈ ClientCode.endings c → Calls true p
  | stop {hook : ℕ → LockCode} (h : ℕ) : (∀ i, Calls true (hook i)) →
      Calls true (HostCode.stop h hook)

/-- A program that uses the library. -/
structure Program where
  app : ℕ → LockCode
  /-- By the connection. -/
  callback : ℕ → ℕ → LockCode
  /-- By the host. -/
  handler : ℕ → ℕ → LockCode
  prompt : ℕ → ℕ → LockCode
  app_calls : ∀ i, Calls true (app i)
  callback_calls : ∀ n i, Calls false (callback n i)
  handler_calls : ∀ h i, Calls false (handler h i)
  prompt_calls : ∀ h i, Calls false (prompt h i)

/-- What the threads run. -/
def Program.code (P : Program) : Thread → LockCode
  | .app i => P.app i
  | .reader n => ClientCode.readerLoop n (P.callback n)
  | .accept h => HostCode.acceptLoop h
  | .heartbeat h => HostCode.heartbeatLoop h
  | .connection h n => HostCode.handleConnection h n (P.prompt h) (P.handler h)

/-! ### No deadlock -/

section

variable {below : Thread → Prop}

theorem ClientCode.orderly_getOrConnect (c : ℕ) :
    (getOrConnect c).Orderly Mutex.rank below [] := by
  simp [getOrConnect, isClientSideTrusted]

theorem ClientCode.orderly_sealAndSend (n : ℕ) :
    (sealAndSend n).Orderly Mutex.rank below [] := by
  simp [sealAndSend, maybeBeginRekeyLocked, Orderly, Mutex.rank]

theorem ClientCode.orderly_calls {c n : ℕ} {p : LockCode} (hp : p ∈ calls c n) :
    p.Orderly Mutex.rank below [] := by
  have hconnect : (getOrConnect c).Orderly Mutex.rank below [] := orderly_getOrConnect c
  have hseal : ∀ n, (sealAndSend n).Orderly Mutex.rank below [] := orderly_sealAndSend
  simp only [calls, List.mem_cons, List.not_mem_nil, or_false] at hp
  rcases hp with rfl | rfl | rfl | rfl | rfl | rfl | rfl | rfl | rfl | rfl | rfl <;>
    simp [allowPeer, enableKeyRotation, get, send, getStream, openStream, write, finish,
      sessionEpoch, unsubscribe, subscribe, Orderly, Mutex.rank, hconnect, hseal]

theorem ClientCode.orderly_endings {c : ℕ} {p : LockCode} (hp : p ∈ endings c)
    (hbelow : ∀ n, below (.reader n)) : p.Orderly Mutex.rank below [] := by
  have hclose : (closeConnection c).Orderly Mutex.rank below [] := by
    simp [closeConnection, Orderly, hbelow]
  simp only [endings, List.mem_cons, List.not_mem_nil, or_false] at hp
  rcases hp with rfl | rfl
  · exact hclose
  · simp [destroy, Orderly, hclose]

theorem ClientCode.orderly_readerLoop {n : ℕ} {callback : ℕ → LockCode}
    (hcallback : ∀ i, (callback i).Orderly Mutex.rank below []) :
    (readerLoop n callback).Orderly Mutex.rank below [] := by
  simp [readerLoop, readerLoopFrame, Orderly, hcallback]

theorem HostCode.orderly_calls {h n t : ℕ} {p : LockCode} (hp : p ∈ calls h n t) :
    p.Orderly Mutex.rank below [] := by
  simp only [calls, List.mem_cons, List.not_mem_nil, or_false] at hp
  rcases hp with rfl | rfl | rfl | rfl | rfl | rfl | rfl | rfl | rfl | rfl | rfl | rfl <;>
    simp [sendChunk, sendSealed, publish, subscriberCount, expose, exposeTopic,
      onAuthorizationPrompt, addIssuer, addCredential, allowPeer, run, loadCredentialsFromDisk,
      publishRegistry, beforeStop, afterStop, Orderly, Mutex.rank]

theorem HostCode.orderly_stop {h : ℕ} {hook : ℕ → LockCode}
    (hhook : ∀ i, (hook i).Orderly Mutex.rank below [])
    (hbelow : ∀ u : Thread, (∀ i, u ≠ .app i) → below u) :
    (stop h hook).Orderly Mutex.rank below [] := by
  simp [stop, topicCloseAll, sendChunk, sendSealed, Orderly, Mutex.rank, hhook, hbelow]

theorem HostCode.orderly_handleConnection {h n : ℕ} {prompt handler : ℕ → LockCode}
    (hprompt : ∀ i, (prompt i).Orderly Mutex.rank below [])
    (hhandler : ∀ i, (handler i).Orderly Mutex.rank below []) :
    (handleConnection h n prompt handler).Orderly Mutex.rank below [] := by
  simp [handleConnection, admitConnection, isTrusted, handleConnectionFrame, authorize, reply,
    sendSealed, sendChunk, sendRekeyAckAndSwitch, findTopic, topicAdd, topicRemove,
    topicRemoveConn, Orderly, hprompt, hhandler]

/-- Application code is in order, where it is called and no mutex is held. -/
theorem Calls.orderly {b : Bool} {p : LockCode} (hp : Calls b p)
    (hbelow : b = true → ∀ u : Thread, (∀ i, u ≠ .app i) → below u) :
    p.Orderly Mutex.rank below [] := by
  induction hp with
  | skip => trivial
  | seq _ _ ihp ihq | alt _ _ ihp ihq => exact ⟨ihp hbelow, ihq hbelow⟩
  | any _ ih => exact fun i => ih i hbelow
  | many _ ih => exact ih hbelow
  | client c n hp => exact ClientCode.orderly_calls hp
  | host h n t hp => exact HostCode.orderly_calls hp
  | ending c hp => exact ClientCode.orderly_endings hp fun n => hbelow rfl _ (by simp)
  | stop h _ ih => exact HostCode.orderly_stop (fun i => ih i hbelow) (hbelow rfl)

end

/-- Every thread takes its mutexes in the order of the rank. -/
theorem Program.orderly (P : Program) (t : Thread) :
    (P.code t).Orderly Mutex.rank t.below [] := by
  cases t with
  | app i =>
    refine (P.app_calls i).orderly fun _ u hu => ?_
    cases u with
    | app j => exact hu j rfl
    | reader | accept | heartbeat | connection => trivial
  | reader n =>
    exact ClientCode.orderly_readerLoop fun i => (P.callback_calls n i).orderly nofun
  | accept h => simp [code, HostCode.acceptLoop, Orderly]
  | heartbeat h =>
    simp [code, HostCode.heartbeatLoop, HostCode.topicHeartbeat, HostCode.sendPing, Orderly,
      Mutex.rank]
  | connection h n =>
    exact HostCode.orderly_handleConnection (fun i => (P.prompt_calls h i).orderly nofun)
      fun i => (P.handler_calls h i).orderly nofun

namespace Publisher

def program : Program where
  app
    | 0 => HostCode.publish 0
    | _ => skip
  callback _ _ := skip
  handler _ _ := skip
  prompt _ _ := skip
  app_calls
    | 0 => .host 0 0 0 (by simp [HostCode.calls])
    | _ + 1 => .skip
  callback_calls _ _ := .skip
  handler_calls _ _ := .skip
  prompt_calls _ _ := .skip

def sending : List (Op Mutex Thread) :=
  [.acquire (.topic 0), .acquire (.tx 0), .release (.tx 0), .release (.topic 0)]

def todo : Thread → List (Op Mutex Thread)
  | .app 0 => sending
  | .heartbeat 0 => .acquire (.host 0 .topics) :: .release (.host 0 .topics) :: sending
  | _ => []

theorem trace_of_sending {p : ℕ → LockCode} (hp : p 0 = hold (.tx 0)) :
    (locked (.topic 0) (many (any p))).Trace sending := by
  have hany : (any p).Trace [.acquire (.tx 0), .release (.tx 0)] := .any 0 (hp ▸ .locked .skip)
  exact .locked hany.once

theorem trace (t : Thread) : (program.code t).Trace (todo t) := by
  cases t with
  | app i =>
    cases i with
    | zero => exact trace_of_sending rfl
    | succ i => exact .skip
  | reader n => exact .leave .done
  | accept h => exact .done
  | heartbeat h =>
    cases h with
    | zero =>
      have hbeat : (any HostCode.topicHeartbeat).Trace sending := .any 0 (trace_of_sending rfl)
      exact ((Trace.locked .skip).seq (hbeat.once.seq .skip)).once
    | succ h => exact .done
  | connection h n => exact .leave (.left .skip)

end Publisher

end Epx
