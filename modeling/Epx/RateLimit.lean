import Epx.HostLoop
import Epx.Lib.TokenBucket
import Epx.Lib.Transition
import Mathlib.Algebra.Order.Ring.Rat
import Mathlib.Data.Finset.Dedup
import Mathlib.Data.Finset.Order
import Mathlib.Data.List.Induction

/-!
# Rate limits

The two token buckets of `src/host.cpp`: the one of `handle_connection` for the requests of a
connection, and those of `admit_connection` for the connection attempts of each user. The doubles
are read as rationals. The clock never goes back, and a sleep lasts at least as long as asked.

A request that finds no token is delayed: the bucket is asked how long it will take, the thread
sleeps, and the result of the second `try_take` is not looked at. The time of a dispatch is the
clock reading with which the request left the limiter.

## Main definitions

* `RateLimits`
* `RequestLimiter`, `RequestLimiter.step` — the limiter of a connection
* `UidBuckets`, `admitConnection` — the buckets before the handshake

## Main results

* `RequestLimiter.Inv.request` — what a request leaves of the account
* `rate_limits_bound`
-/

namespace Epx

open Codec TokenBucket Transition

/-- The part of `ConnectionLimits` that is about rates; zero is no limit. -/
structure RateLimits extends ConnectionLimits where
  handshakesPerUidPerSec : UInt32 := 0
  handshakeBurst : UInt32 := 20
  requestBurst : UInt32 := 32
  deriving DecidableEq

/-- `burst > 0 ? burst : 1`. -/
def burstOf (burst : UInt32) : ℚ := if burst > 0 then burst.toNat else 1

theorem burstOf_eq (burst : UInt32) : burstOf burst = max (burst.toNat : ℚ) 1 := by
  rw [burstOf]
  by_cases h : burst > 0
  · have hone : (1 : ℚ) ≤ burst.toNat := by
      have hpos : 0 < burst.toNat := UInt32.lt_iff_toNat_lt.mp h
      exact_mod_cast hpos
    rw [if_pos h, max_eq_left hone]
  · have hzero : burst.toNat = 0 := by
      rw [gt_iff_lt, UInt32.lt_iff_toNat_lt] at h
      exact Nat.eq_zero_of_not_pos h
    rw [if_neg h, hzero]
    norm_num

theorem one_le_burstOf (burst : UInt32) : 1 ≤ burstOf burst := by
  rw [burstOf_eq]
  exact le_max_right _ _

/-- A bucket as it is set up. -/
def fullBucket (rate burst : UInt32) (now : ℚ) : TokenBucket ℚ :=
  { tokens := burstOf burst, rate := rate.toNat, burst := burstOf burst, last := now }

theorem metered_fullBucket {rate : UInt32} (hrate : rate > 0) (burst : UInt32) (now : ℚ) :
    (fullBucket rate burst now).Metered [] := by
  have hpos : 0 < rate.toNat := UInt32.lt_iff_toNat_lt.mp hrate
  have hone := one_le_burstOf burst
  exact .full ⟨zero_le_one.trans hone, le_rfl, Nat.cast_pos.mpr hpos, hone⟩ rfl

/-! ### Requests in a row -/

/-- How many of the last requests in a row have found no token. -/
def inARow (found : List Bool) : ℕ := found.foldl (fun n token => if token then 0 else n + 1) 0

@[simp] theorem inARow_snoc (found : List Bool) (token : Bool) :
    inARow (found ++ [token]) = if token then 0 else inARow found + 1 := by
  rw [inARow, List.foldl_append]
  rfl

theorem replicate_suffix_iff {n : ℕ} {found : List Bool} :
    List.replicate n false <:+ found ↔ n ≤ inARow found := by
  induction found using List.reverseRecOn generalizing n with
  | nil =>
    rw [List.suffix_nil, List.replicate_eq_nil_iff]
    exact Nat.le_zero.symm
  | append_singleton found token ih =>
    rw [List.suffix_concat_iff, inARow_snoc]
    cases n with
    | zero => simp
    | succ n =>
      constructor
      · rintro (hnil | ⟨t, heq, hsuffix⟩)
        · cases hnil
        · rw [List.replicate_succ'] at heq
          obtain ⟨rfl, hlast⟩ := List.append_inj' heq rfl
          cases hlast
          exact Nat.succ_le_succ (ih.mp hsuffix)
      · intro hle
        cases token with
        | true => cases hle
        | false =>
          refine Or.inr ⟨List.replicate n false, List.replicate_succ', ih.mpr ?_⟩
          exact Nat.le_of_succ_le_succ hle

/-! ### The limiter of a connection -/

/-- The bucket and the count of `handle_connection`, with what has come of the requests. -/
structure RequestLimiter where
  reqBucket : TokenBucket ℚ
  delayedInARow : UInt32 := 0
  connected : Bool := true
  /-- For each REQUEST, whether there was a token when it came. -/
  found : List Bool := []
  /-- When requests were dispatched. -/
  dispatched : List ℚ := []
  deriving DecidableEq

/-- The clock readings about a REQUEST: that of the first `try_take`, and where there is no token
that of `seconds_until_token` and that after the sleep. -/
structure Arrival where
  first : ℚ
  again : ℚ
  slept : ℚ
  deriving DecidableEq

namespace RequestLimiter

variable (limits : RateLimits)

/-- The bucket set-up of `handle_connection`. -/
def setUp (now : ℚ) : RequestLimiter :=
  { reqBucket := fullBucket limits.maxRequestsPerSec limits.requestBurst now }

/-- The rate limit of a REQUEST, when there is one. -/
def request (s : RequestLimiter) (a : Arrival) : RequestLimiter :=
  let token := decide (1 ≤ (s.reqBucket.refill a.first).tokens)
  let s := { s with found := s.found ++ [token] }
  match s.reqBucket.tryTake a.first with
  | (true, bucket) =>
    { s with reqBucket := bucket, delayedInARow := 0, dispatched := s.dispatched ++ [a.first] }
  | (false, bucket) =>
    let s := { s with delayedInARow := s.delayedInARow + 1 }
    if s.delayedInARow > limits.disconnectAfterDelayed then
      { s with reqBucket := bucket, connected := false }
    else
      let bucket := (bucket.secondsUntilToken a.again).2
      -- the result of the second take is not looked at
      { s with reqBucket := (bucket.tryTake a.slept).2, dispatched := s.dispatched ++ [a.slept] }

/-- The clock does not go back, and the sleep is as long as asked. -/
def Clock (s : RequestLimiter) (a : Arrival) : Prop :=
  s.reqBucket.last ≤ a.first ∧ ((s.reqBucket.tryTake a.first).1 = false →
    a.first ≤ a.again ∧
      a.again + ((s.reqBucket.tryTake a.first).2.secondsUntilToken a.again).1 ≤ a.slept)

instance (s : RequestLimiter) (a : Arrival) : Decidable (s.Clock a) :=
  inferInstanceAs (Decidable (_ ∧ (_ → _)))

/-- A REQUEST comes on a connection that is up. -/
def step (s : RequestLimiter) (a : Arrival) : Option RequestLimiter :=
  if s.connected = true ∧ s.Clock a then some (s.request limits a) else none

/-- The bucket from which the request takes its token. -/
def refilled (s : RequestLimiter) (a : Arrival) : TokenBucket ℚ :=
  if (s.reqBucket.tryTake a.first).1 then s.reqBucket.refill a.first
  else ((s.reqBucket.refill a.first).refill a.again).refill a.slept

/-- More requests in a row than allowed have found no token. -/
def Saturated (s : RequestLimiter) : Prop :=
  List.replicate (limits.disconnectAfterDelayed.toNat + 1) false <:+: s.found

/-- The account of the bucket, and the count of delayed requests. -/
structure Inv (s : RequestLimiter) : Prop where
  metered : s.reqBucket.Metered s.dispatched
  rate : s.reqBucket.rate = limits.maxRequestsPerSec.toNat
  burst : s.reqBucket.burst = burstOf limits.requestBurst
  count : s.connected = true → s.delayedInARow.toNat = inARow s.found
  saturated : s.connected = false ↔ s.Saturated limits

variable {limits} {s s' : RequestLimiter} {a : Arrival}

theorem Inv.setUp (hr : limits.maxRequestsPerSec > 0) (now : ℚ) :
    (setUp limits now).Inv limits where
  metered := metered_fullBucket hr _ now
  rate := rfl
  burst := rfl
  count _ := rfl
  saturated := by
    refine ⟨fun h => (Bool.noConfusion h), fun h => ?_⟩
    have hnil := List.infix_nil.mp h
    rw [List.replicate_succ] at hnil
    cases hnil

/-- One more request: more than allowed have come in a row, or had before. -/
theorem saturated_snoc {found : List Bool} {token : Bool} {n : ℕ} :
    List.replicate (n + 1) false <:+: found ++ [token] ↔
      n + 1 ≤ (if token then 0 else inARow found + 1) ∨ List.replicate (n + 1)
        false <:+: found := by
  rw [List.infix_concat_iff, replicate_suffix_iff, inARow_snoc]

/-- While the connection is up, no more requests than allowed have been delayed. -/
theorem Inv.le (h : s.Inv limits) (hconn : s.connected = true) :
    inARow s.found ≤ limits.disconnectAfterDelayed.toNat := by
  by_contra hlt
  have hsuffix := replicate_suffix_iff.mpr (Nat.lt_of_not_le hlt)
  have hdown := h.saturated.mpr hsuffix.isInfix
  rw [hconn] at hdown
  cases hdown

/-- What a request leaves, by whether there was a token, and whether the count allows a delay. -/
theorem request_cases (limits : RateLimits) (s : RequestLimiter) (a : Arrival) :
    (1 ≤ (s.reqBucket.refill a.first).tokens ∧ s.request limits a =
      { s with
        found := s.found ++ [true], reqBucket := (s.reqBucket.refill a.first).take
        delayedInARow := 0, dispatched := s.dispatched ++ [a.first] }) ∨
    (¬ 1 ≤ (s.reqBucket.refill a.first).tokens ∧
      s.delayedInARow + 1 > limits.disconnectAfterDelayed ∧ s.request limits a =
        { s with
          found := s.found ++ [false], reqBucket := s.reqBucket.refill a.first
          delayedInARow := s.delayedInARow + 1, connected := false }) ∨
    (¬ 1 ≤ (s.reqBucket.refill a.first).tokens ∧
      ¬ s.delayedInARow + 1 > limits.disconnectAfterDelayed ∧ s.request limits a =
        { s with
          found := s.found ++ [false]
          reqBucket := (((s.reqBucket.refill a.first).refill a.again).tryTake a.slept).2
          delayedInARow := s.delayedInARow + 1, dispatched := s.dispatched ++ [a.slept] }) := by
  by_cases htoken : 1 ≤ (s.reqBucket.refill a.first).tokens
  · refine Or.inl ⟨htoken, ?_⟩
    simp only [request, tryTake, if_pos htoken, decide_eq_true htoken]
  · refine Or.inr ?_
    by_cases hdelayed : s.delayedInARow + 1 > limits.disconnectAfterDelayed
    · refine Or.inl ⟨htoken, hdelayed, ?_⟩
      simp only [request, tryTake, if_neg htoken, decide_eq_false htoken, if_pos hdelayed]
    · refine Or.inr ⟨htoken, hdelayed, ?_⟩
      simp only [request, tryTake, if_neg htoken, decide_eq_false htoken, if_neg hdelayed,
        secondsUntilToken_snd]

theorem tryTake_fst_of_not {b : TokenBucket ℚ} {now : ℚ} (h : ¬ 1 ≤ (b.refill now).tokens) :
    b.tryTake now = (false, b.refill now) := if_neg h

/-- **The second take finds its token**, after the sleep. -/
theorem Inv.one_le_slept (h : s.Inv limits) (hclock : s.Clock a)
    (htoken : ¬ 1 ≤ (s.reqBucket.refill a.first).tokens) :
    a.first ≤ a.again ∧ a.again ≤ a.slept ∧
      1 ≤ (((s.reqBucket.refill a.first).refill a.again).refill a.slept).tokens := by
  obtain ⟨hfirst, hwait⟩ := hclock
  rw [tryTake_fst_of_not htoken] at hwait
  obtain ⟨hagain, hslept⟩ := hwait rfl
  have hsound := h.metered.toSound.refill hfirst
  have hone := one_le_of_waited hsound hslept hagain
  rw [secondsUntilToken_snd] at hone
  have hnonneg := secondsUntilToken_nonneg hsound hagain
  exact ⟨hagain, by linarith, hone⟩

theorem Inv.request (h : s.Inv limits) (hn : limits.disconnectAfterDelayed.toNat < 2 ^ 32 - 1)
    (hconn : s.connected = true) (hclock : s.Clock a) : (s.request limits a).Inv limits := by
  have hfirst := hclock.1
  have hle := h.le hconn
  have hcount := h.count hconn
  have hup : ¬ List.replicate (limits.disconnectAfterDelayed.toNat + 1) false <:+: s.found := by
    intro hin
    have hdown := h.saturated.mpr hin
    rw [hconn] at hdown
    cases hdown
  -- one more delayed request is counted without overflow
  have hnext : (s.delayedInARow + 1).toNat = inARow s.found + 1 := by
    rw [UInt32.toNat_add, UInt32.toNat_one, hcount, Nat.mod_eq_of_lt]
    omega
  obtain ⟨htoken, heq⟩ | ⟨htoken, hdelayed, heq⟩ | ⟨htoken, hdelayed, heq⟩ :=
    request_cases limits s a
  · rw [heq]
    refine ⟨(h.metered.refill hfirst).take htoken, h.rate, h.burst, fun _ => ?_, ?_⟩
    · rw [inARow_snoc]
      rfl
    · refine ⟨fun hdown => absurd (hconn.symm.trans hdown) (by decide), fun hin => ?_⟩
      rcases saturated_snoc.mp hin with hlt | hin
      · cases hlt
      · exact absurd hin hup
  · rw [heq]
    refine ⟨h.metered.refill hfirst, h.rate, h.burst, fun hup => Bool.noConfusion hup, ?_⟩
    refine ⟨fun _ => saturated_snoc.mpr (Or.inl ?_), fun _ => rfl⟩
    rw [gt_iff_lt, UInt32.lt_iff_toNat_lt, hnext] at hdelayed
    exact hdelayed
  · obtain ⟨hagain, hslept, hone⟩ := h.one_le_slept hclock htoken
    have hmetered := (((h.metered.refill hfirst).refill hagain).refill hslept).take hone
    rw [heq]
    refine ⟨?_, ?_, ?_, fun _ => ?_, ?_⟩
    · simp only [tryTake, if_pos hone]
      exact hmetered
    · simp only [tryTake, if_pos hone]
      exact h.rate
    · simp only [tryTake, if_pos hone]
      exact h.burst
    · rw [inARow_snoc]
      exact hnext
    · refine ⟨fun hdown => absurd (hconn.symm.trans hdown) (by decide), fun hin => ?_⟩
      rcases saturated_snoc.mp hin with hlt | hin
      · rw [gt_iff_lt, UInt32.lt_iff_toNat_lt, hnext] at hdelayed
        exact absurd hlt hdelayed
      · exact absurd hin hup

theorem step_eq_some (h : step limits s a = some s') :
    s.connected = true ∧ s.Clock a ∧ s' = s.request limits a := by
  rw [step] at h
  split at h
  · next hwhen =>
    cases h
    exact ⟨hwhen.1, hwhen.2, rfl⟩
  · cases h

/-- **The account of a connection**, after any requests. -/
theorem inv_of_run (hr : limits.maxRequestsPerSec > 0)
    (hn : limits.disconnectAfterDelayed.toNat < 2 ^ 32 - 1) {start : ℚ} {as : List Arrival}
    (h : Run (OfFun (step limits)) (RequestLimiter.setUp limits start) as s) : s.Inv limits := by
  refine h.preserves (Inv.setUp hr start) fun t a t' ht hstep => ?_
  obtain ⟨hconn, hclock, rfl⟩ := step_eq_some hstep
  exact ht.request hn hconn hclock

/-- **A request that is dispatched takes one token**, and one that is not takes none. -/
theorem Inv.takes_one (h : s.Inv limits) (hstep : step limits s a = some s') :
    (s'.connected = true ∧ 1 ≤ (s.refilled a).tokens ∧ s'.reqBucket = (s.refilled a).take ∧
      s'.dispatched = s.dispatched ++ [(s.refilled a).last]) ∨
    (s'.connected = false ∧ s'.reqBucket = s.reqBucket.refill a.first ∧
      s'.dispatched = s.dispatched) := by
  obtain ⟨hconn, hclock, rfl⟩ := step_eq_some hstep
  obtain ⟨htoken, heq⟩ | ⟨htoken, -, heq⟩ | ⟨htoken, -, heq⟩ := request_cases limits s a
  · have hrefilled : s.refilled a = s.reqBucket.refill a.first := by
      rw [refilled, tryTake, if_pos htoken]
      rfl
    rw [heq, hrefilled]
    exact Or.inl ⟨hconn, htoken, rfl, rfl⟩
  · rw [heq]
    exact Or.inr ⟨rfl, rfl, rfl⟩
  · obtain ⟨-, -, hone⟩ := h.one_le_slept hclock htoken
    have hrefilled :
      s.refilled a = ((s.reqBucket.refill a.first).refill a.again).refill a.slept := by
      rw [refilled, tryTake, if_neg htoken]
      rfl
    rw [heq, hrefilled]
    refine Or.inl ⟨hconn, hone, ?_, rfl⟩
    simp only [tryTake, if_pos hone]

/-! ### The loop of the connection -/

/-- The pass of the frame loop decides as the limiter does, on the token that it is given. -/
theorem pass_agrees (cfg : HostConfig) (env : Pass) (st : LoopState)
    (hlimits : cfg.limits = limits.toConnectionLimits) (hr : limits.maxRequestsPerSec > 0)
    (hconn : s.connected = true) (hdelayed : st.delayedInARow = s.delayedInARow)
    (htoken : env.token = (s.reqBucket.tryTake a.first).1) :
    (saturated cfg env st.delayedInARow = true ↔ (s.request limits a).connected = false) ∧
      (rateLimit cfg env st).delayedInARow = (s.request limits a).delayedInARow := by
  have hzero : limits.maxRequestsPerSec ≠ 0 := fun heq => absurd (heq ▸ hr) (by decide)
  rw [saturated, rateLimit, hlimits, hdelayed, htoken]
  obtain ⟨hone, heq⟩ | ⟨hone, hmore, heq⟩ | ⟨hone, hmore, heq⟩ := request_cases limits s a
  · rw [heq, tryTake, if_pos hone]
    simp [hconn, hzero]
  · rw [heq, tryTake, if_neg hone]
    simp [hr, hzero, hmore]
  · rw [heq, tryTake, if_neg hone]
    simp [hconn, hzero, hmore]

end RequestLimiter

/-! ### Connection attempts -/

/-- A connection attempt: its user, and the clock readings when a bucket is created for the user and
in `try_take`. -/
structure ConnectAttempt where
  uid : ℤ
  created : ℚ
  taken : ℚ
  deriving DecidableEq

/-- `uid_buckets`. -/
abbrev UidBuckets := ℤ → Option (TokenBucket ℚ)

/-- The bucket that `admit_connection` finds or creates for the user. -/
def uidBucket (limits : RateLimits) (buckets : UidBuckets) (a : ConnectAttempt) : TokenBucket ℚ :=
  let b := (buckets a.uid).getD { tokens := 0, rate := 0, burst := 0, last := a.created }
  if b.rate = 0 then -- freshly created
    fullBucket limits.handshakesPerUidPerSec limits.handshakeBurst b.last
  else b

/-- `admit_connection`. -/
def admitConnection (limits : RateLimits) (buckets : UidBuckets) (a : ConnectAttempt) :
    Bool × UidBuckets :=
  if limits.handshakesPerUidPerSec = 0 then (true, buckets)
  else
    let b := (uidBucket limits buckets a).tryTake a.taken
    (b.1, Function.update buckets a.uid (some b.2))

/-- The buckets after the attempts, in their order under the lock, and which were admitted. -/
def admitAll (limits : RateLimits) (attempts : List ConnectAttempt) :
    List (ConnectAttempt × Bool) × UidBuckets :=
  attempts.foldl
    (fun (outcomes, buckets) a =>
      (outcomes ++ [(a, (admitConnection limits buckets a).1)],
      (admitConnection limits buckets a).2))
    ([], fun _ => none)

/-- When attempts of a user were admitted. -/
def admissions (uid : ℤ) (outcomes : List (ConnectAttempt × Bool)) : List ℚ :=
  (outcomes.filter fun o => o.1.uid = uid ∧ o.2).map fun o => o.1.taken

/-- The clock does not go back. -/
def ClockForward (attempts : List ConnectAttempt) : Prop :=
  (attempts.flatMap fun a => [a.created, a.taken]).Pairwise (· ≤ ·)

instance (attempts : List ConnectAttempt) : Decidable (ClockForward attempts) :=
  inferInstanceAs (Decidable (List.Pairwise _ _))

section

variable (limits : RateLimits)

theorem admitAll_snoc (attempts : List ConnectAttempt) (a : ConnectAttempt) :
    admitAll limits (attempts ++ [a]) =
      ((admitAll limits attempts).1 ++
          [(a, (admitConnection limits (admitAll limits attempts).2 a).1)],
        (admitConnection limits (admitAll limits attempts).2 a).2) := by
  rw [admitAll, List.foldl_append]
  rfl

/-- An attempt leaves the buckets of other users. -/
theorem admitConnection_of_ne (buckets : UidBuckets) {a : ConnectAttempt} {uid : ℤ}
    (h : a.uid ≠ uid) :
    (admitConnection limits buckets a).2 uid = buckets uid := by
  rw [admitConnection]
  by_cases hzero : limits.handshakesPerUidPerSec = 0
  · rw [if_pos hzero]
  · rw [if_neg hzero]
    exact Function.update_of_ne h.symm ..

/-- An attempt looks at the bucket of its own user only. -/
theorem admitConnection_congr {buckets buckets' : UidBuckets} {a : ConnectAttempt}
    (h : buckets a.uid = buckets' a.uid) :
    (admitConnection limits buckets a).1 = (admitConnection limits buckets' a).1 ∧
      (admitConnection limits buckets a).2 a.uid = (admitConnection limits buckets' a).2 a.uid := by
  rw [admitConnection, admitConnection]
  by_cases hzero : limits.handshakesPerUidPerSec = 0
  · rw [if_pos hzero, if_pos hzero]
    exact ⟨rfl, h⟩
  · have hbucket : uidBucket limits buckets a = uidBucket limits buckets' a := by
      rw [uidBucket, uidBucket, h]
    rw [if_neg hzero, if_neg hzero, hbucket]
    refine ⟨rfl, ?_⟩
    simp only [Function.update_self]

/-- **Other users' attempts change nothing** for a user. -/
theorem admitAll_filter (attempts : List ConnectAttempt) (uid : ℤ) :
    (admitAll limits attempts).1.filter (fun o => o.1.uid = uid) =
        (admitAll limits (attempts.filter fun a => a.uid = uid)).1 ∧
      (admitAll limits attempts).2 uid =
        (admitAll limits (attempts.filter fun a => a.uid = uid)).2 uid := by
  induction attempts using List.reverseRecOn with
  | nil => exact ⟨rfl, rfl⟩
  | append_singleton attempts a ih =>
    obtain ⟨houtcomes, hbucket⟩ := ih
    rw [admitAll_snoc, List.filter_append, List.filter_append]
    by_cases huid : a.uid = uid
    · subst huid
      obtain ⟨hsame, hafter⟩ := admitConnection_congr limits hbucket
      rw [List.filter_singleton, List.filter_singleton, decide_eq_true rfl, cond_true, cond_true,
        admitAll_snoc, houtcomes, hsame]
      exact ⟨rfl, hafter⟩
    · rw [List.filter_singleton, List.filter_singleton, decide_eq_false huid, cond_false,
        cond_false, List.append_nil, List.append_nil]
      exact ⟨houtcomes, (admitConnection_of_ne limits _ huid).trans hbucket⟩

/-- The bucket of a user is an account of the user's admissions. -/
structure UidBuckets.Inv (uid : ℤ) (now : ℚ) (outcomes : List (ConnectAttempt × Bool))
    (bucket : Option (TokenBucket ℚ)) : Prop where
  fresh : bucket = none → admissions uid outcomes = []
  metered : ∀ b, bucket = some b → b.Metered (admissions uid outcomes) ∧ b.last ≤ now ∧
    b.rate = limits.handshakesPerUidPerSec.toNat ∧ b.burst = burstOf limits.handshakeBurst

theorem admissions_snoc (uid : ℤ) (outcomes : List (ConnectAttempt × Bool)) (a : ConnectAttempt)
    (admitted : Bool) : admissions uid (outcomes ++ [(a, admitted)]) =
      if a.uid = uid ∧ admitted = true then admissions uid outcomes ++ [a.taken]
      else admissions uid outcomes := by
  rw [admissions, List.filter_append, List.map_append, List.filter_singleton]
  by_cases h : a.uid = uid ∧ admitted = true
  · rw [if_pos h, decide_eq_true h]
    rfl
  · rw [if_neg h, decide_eq_false h, cond_false, List.map_nil, List.append_nil]
    rfl

variable {limits} {uid : ℤ} {now : ℚ} {outcomes : List (ConnectAttempt × Bool)}

theorem UidBuckets.Inv.mono {bucket : Option (TokenBucket ℚ)}
    (h : UidBuckets.Inv limits uid now outcomes bucket) {later : ℚ} (hle : now ≤ later) :
    UidBuckets.Inv limits uid later outcomes bucket where
  fresh := h.fresh
  metered b hb := by
    obtain ⟨hmetered, hlast, hlimits⟩ := h.metered b hb
    exact ⟨hmetered, hlast.trans hle, hlimits⟩

/-- The bucket of the user is an account too when it has just been created. -/
theorem UidBuckets.Inv.uidBucket (hh : limits.handshakesPerUidPerSec > 0) {buckets : UidBuckets}
    {a : ConnectAttempt} (h : UidBuckets.Inv limits a.uid now outcomes (buckets a.uid))
    (hnow : now ≤ a.created) :
    (uidBucket limits buckets a).Metered (admissions a.uid outcomes) ∧
      (Epx.uidBucket limits buckets a).last ≤ a.created ∧
      (Epx.uidBucket limits buckets a).rate = limits.handshakesPerUidPerSec.toNat ∧
      (Epx.uidBucket limits buckets a).burst = burstOf limits.handshakeBurst := by
  rw [Epx.uidBucket]
  cases hbucket : buckets a.uid with
  | none =>
    rw [h.fresh hbucket, Option.getD_none, if_pos rfl]
    exact ⟨metered_fullBucket hh _ _, le_rfl, rfl, rfl⟩
  | some b =>
    obtain ⟨hmetered, hlast, hrate, hburst⟩ := h.metered b hbucket
    rw [Option.getD_some, if_neg hmetered.rate.ne']
    exact ⟨hmetered, hlast.trans hnow, hrate, hburst⟩

/-- **An attempt** is entered in the account of its user. -/
theorem UidBuckets.Inv.admitted (hh : limits.handshakesPerUidPerSec > 0) {buckets : UidBuckets}
    (h : UidBuckets.Inv limits uid now outcomes (buckets uid)) {a : ConnectAttempt}
    (hnow : now ≤ a.created) (htaken : a.created ≤ a.taken) :
    UidBuckets.Inv limits uid a.taken
      (outcomes ++ [(a, (admitConnection limits buckets a).1)])
      ((admitConnection limits buckets a).2 uid) := by
  have hzero : limits.handshakesPerUidPerSec ≠ 0 := fun heq => absurd (heq ▸ hh) (by decide)
  by_cases huid : a.uid = uid
  · subst huid
    obtain ⟨hmetered, hlast, hrate, hburst⟩ := h.uidBucket hh hnow
    have hafter := hmetered.tryTake (hlast.trans htaken)
    rw [admitConnection, if_neg hzero]
    refine ⟨fun hnone => ?_, fun b hb => ?_⟩
    · simp only [Function.update_self] at hnone
      cases hnone
    · simp only [Function.update_self] at hb
      cases hb
      rw [admissions_snoc]
      simp only [true_and]
      refine ⟨hafter, ?_, ?_, ?_⟩
      · rw [tryTake]
        split <;> exact le_rfl
      · rw [tryTake]
        split <;> exact hrate
      · rw [tryTake]
        split <;> exact hburst
  · have hother := admissions_snoc uid outcomes a (admitConnection limits buckets a).1
    rw [if_neg fun hin => huid hin.1] at hother
    rw [admitConnection_of_ne limits buckets huid]
    refine ⟨fun hnone => ?_, fun b hb => ?_⟩
    · rw [hother]
      exact h.fresh hnone
    · rw [hother]
      exact (h.mono (hnow.trans htaken)).metered b hb

/-- **The accounts of all users**, after any attempts. -/
theorem inv_admitAll (hh : limits.handshakesPerUidPerSec > 0) (uid : ℤ)
    {attempts : List ConnectAttempt}
    (hclock : ClockForward attempts) (hnow : ∀ a ∈ attempts, a.taken ≤ now) :
    UidBuckets.Inv limits uid now (admitAll limits attempts).1
      ((admitAll limits attempts).2 uid) := by
  induction attempts using List.reverseRecOn generalizing now with
  | nil => exact ⟨fun _ => rfl, nofun⟩
  | append_singleton attempts a ih =>
    rw [ClockForward, List.flatMap_append, List.pairwise_append] at hclock
    obtain ⟨hbefore, hown, hacross⟩ := hclock
    have hcreated : ∀ b ∈ attempts, b.taken ≤ a.created := by
      intro b hb
      refine hacross _ (List.mem_flatMap.mpr ⟨b, hb, ?_⟩) _ List.mem_cons_self
      exact List.mem_cons_of_mem _ List.mem_cons_self
    have htaken : a.created ≤ a.taken :=
      List.rel_of_pairwise_cons hown List.mem_cons_self
    rw [admitAll_snoc]
    refine ((ih hbefore hcreated).admitted hh le_rfl htaken).mono ?_
    exact hnow a (List.mem_append_right _ List.mem_cons_self)

/-- The admissions of a user within a window. -/
theorem UidBuckets.Inv.window {bucket : Option (TokenBucket ℚ)}
    (h : UidBuckets.Inv limits uid now outcomes bucket) (t : ℚ) {d : ℚ} (hd : 0 ≤ d) :
    (takesIn t (t + d) (admissions uid outcomes) : ℚ) ≤
      max (limits.handshakeBurst.toNat : ℚ) 1 + limits.handshakesPerUidPerSec.toNat * d := by
  rw [← burstOf_eq]
  cases hbucket : bucket with
  | none =>
    have hpos : 0 ≤ burstOf limits.handshakeBurst := zero_le_one.trans (one_le_burstOf _)
    rw [h.fresh hbucket]
    exact add_nonneg hpos (mul_nonneg (Nat.cast_nonneg _) hd)
  | some b =>
    obtain ⟨hmetered, -, hrate, hburst⟩ := h.metered b hbucket
    have hwindow := hmetered.window t (t + d) (le_add_of_nonneg_right hd)
    rwa [hburst, hrate, add_sub_cancel_left] at hwindow

end

/-- **Rate limits bound what is served.** However requests come on a connection, what is dispatched
in any window is bounded by the burst and the rate; each dispatched request takes one token, the
tokens stay between none and the burst, the rate is never zero where it divides, and the connection
is closed exactly when more requests in a row than allowed have found no token. The attempts of a
user that are admitted are bounded in the same way, and other users' attempts change nothing. -/
theorem rate_limits_bound (limits : RateLimits) :
    (limits.maxRequestsPerSec > 0 → limits.disconnectAfterDelayed.toNat < 2 ^ 32 - 1 →
      ∀ start as s,
        Run (OfFun (RequestLimiter.step limits)) (RequestLimiter.setUp limits start) as s →
        (∀ t d, 0 ≤ d → (takesIn t (t + d) s.dispatched : ℚ) ≤
          max (limits.requestBurst.toNat : ℚ) 1 + limits.maxRequestsPerSec.toNat * d) ∧
        (∀ a s', RequestLimiter.step limits s a = some s' →
          (s'.connected = true ∧ 1 ≤ (s.refilled a).tokens ∧
            s'.reqBucket = (s.refilled a).take ∧
            s'.dispatched = s.dispatched ++ [(s.refilled a).last]) ∨
          (s'.connected = false ∧ s'.reqBucket = s.reqBucket.refill a.first ∧
            s'.dispatched = s.dispatched)) ∧
        0 ≤ s.reqBucket.tokens ∧ s.reqBucket.tokens ≤ s.reqBucket.burst ∧
        s.reqBucket.burst = max (limits.requestBurst.toNat : ℚ) 1 ∧ s.reqBucket.rate ≠ 0 ∧
        (s.connected = false ↔
          List.replicate (limits.disconnectAfterDelayed.toNat + 1) false <:+: s.found)) ∧
    (limits.handshakesPerUidPerSec > 0 → ∀ attempts, ClockForward attempts → ∀ uid t d, 0 ≤ d →
      (takesIn t (t + d) (admissions uid (admitAll limits attempts).1) : ℚ) ≤
        max (limits.handshakeBurst.toNat : ℚ) 1 + limits.handshakesPerUidPerSec.toNat * d) ∧
    ∀ attempts uid, (admitAll limits attempts).1.filter (fun o => o.1.uid = uid) =
      (admitAll limits (attempts.filter fun a => a.uid = uid)).1 := by
  refine ⟨fun hr hn start as s hrun => ?_, fun hh attempts hclock uid t d hd => ?_,
    fun attempts uid => (admitAll_filter limits attempts uid).1⟩
  · have hinv := RequestLimiter.inv_of_run hr hn hrun
    have hsound := hinv.metered.toSound
    have hburst : s.reqBucket.burst = max (limits.requestBurst.toNat : ℚ) 1 :=
      hinv.burst.trans (burstOf_eq _)
    refine ⟨fun t d hd => ?_, fun a s' hstep => hinv.takes_one hstep, hsound.nonneg, hsound.le,
      hburst, hsound.rate.ne', hinv.saturated⟩
    have hwindow := hinv.metered.window t (t + d) (le_add_of_nonneg_right hd)
    rw [hburst, hinv.rate, add_sub_cancel_left] at hwindow
    exact hwindow
  · obtain ⟨now, hnow⟩ := (attempts.map ConnectAttempt.taken).toFinset.exists_le
    have hinv := inv_admitAll hh uid hclock fun a ha =>
      hnow a.taken (List.mem_toFinset.mpr (List.mem_map_of_mem ha))
    exact hinv.window t hd

/-- One request a second, after a burst of one: the second of two requests at once waits. -/
theorem rate_limits_bound_delayed :
    let limits : RateLimits :=
      { maxRequestsPerSec := 1, requestBurst := 0, handshakesPerUidPerSec := 1,
        handshakeBurst := 0 }
    ∃ s, Run (OfFun (RequestLimiter.step limits)) (RequestLimiter.setUp limits 0)
        [⟨0, 0, 0⟩, ⟨0, 0, 1⟩] s ∧ s.dispatched = [0, 1] ∧
      (takesIn 0 (0 + 1 / 2) s.dispatched : ℚ) ≤ max ((0 : ℕ) : ℚ) 1 + ((1 : ℕ) : ℚ) * (1 / 2) ∧
      (takesIn 0 (0 + 1 / 2) (admissions 7 (admitAll limits [⟨7, 0, 0⟩, ⟨7, 0, 0⟩]).1) : ℚ) ≤
        max ((0 : ℕ) : ℚ) 1 + ((1 : ℕ) : ℚ) * (1 / 2) := by
  intro limits
  obtain ⟨hrequests, hattempts, -⟩ := rate_limits_bound limits
  have hexec : (exec (RequestLimiter.step limits) (RequestLimiter.setUp limits 0)
      [⟨0, 0, 0⟩, ⟨0, 0, 1⟩]).map RequestLimiter.dispatched = some [0, 1] := by decide +kernel
  obtain ⟨s, hs, hdispatched⟩ := Option.map_eq_some_iff.mp hexec
  obtain ⟨hwindow, -⟩ := hrequests (by decide) (by decide) 0 _ _ (run_of_exec hs)
  refine ⟨s, run_of_exec hs, hdispatched, hwindow 0 (1 / 2) (by norm_num), ?_⟩
  exact hattempts (by decide) [⟨7, 0, 0⟩, ⟨7, 0, 0⟩] (by decide +kernel) 7 0 (1 / 2) (by norm_num)

end Epx
