import Epx.Keystore
import Mathlib.Data.List.Induction
import Mathlib.Data.List.Nodup
import Mathlib.Data.Set.Insert

/-!
# Decisions and known clients as a map and a set

What `load_authz_decision` and `is_known_client` of `src/keystore.cpp` answer after any sequence of
`save_authz_decision` and `remember_client`. Both append lines to a file of the service and never
rewrite one: a decision is the last line about its peer and endpoint, and a client is known once it
has a line. Names of services are single path components, so that each has files of its own.

## Main definitions

* `TrustFiles`, `TrustCall` — the files of a service, and the calls that append to them
* `Trust` — a map of decisions and a set of clients, which is what the files stand for
* `TrustFiles.Represents`

## Main results

* `TrustFiles.Represents.after` — a call does to the files what it does to the map and the set
* `trust_files_are_map_and_set`
-/

namespace Epx

open Codec Text

/-- The files `authz/<service>.decisions` and `known_clients/<service>.list`, where they exist. -/
structure TrustFiles where
  decisions : Option Bytes := none
  clients : Option Bytes := none

namespace TrustFiles

/-- `load_authz_decision`. -/
def loadAuthzDecision (files : TrustFiles) (peerPk : PublicKey) (endpoint : Bytes) : Option Bool :=
  files.decisions.bind fun file => Epx.loadAuthzDecision file peerPk endpoint

/-- `write_private_file` with `O_APPEND`, when it succeeds. -/
def appended (file : Option Bytes) (line : Bytes) : Option Bytes :=
  some (file.getD [] ++ (line ++ [lineFeed]))

/-- `save_authz_decision`. -/
def saveAuthzDecision (files : TrustFiles) (peerPk : PublicKey) (endpoint : Bytes) (allow : Bool) :
    TrustFiles :=
  { files with decisions := appended files.decisions (decisionLine peerPk endpoint allow) }

/-- The lines of `known_clients/<service>.list`. -/
def clientLines (files : TrustFiles) : List Bytes := lines (files.clients.getD [])

/-- `is_known_client`. -/
def isKnownClient (files : TrustFiles) (clientPk : PublicKey) : Bool :=
  match files.clients with
  | none => false
  | some file => (lines file).any fun line => line = toHex clientPk.val

/-- `remember_client`. -/
def rememberClient (files : TrustFiles) (clientPk : PublicKey) : TrustFiles :=
  if files.isKnownClient clientPk then files
  else { files with clients := appended files.clients (toHex clientPk.val) }

end TrustFiles

/-! ### What the files stand for -/

/-- The verdicts of a service and the clients that it knows. -/
structure Trust where
  verdict : PublicKey → Bytes → Option Bool := fun _ _ => none
  known : Set PublicKey := ∅

/-- A call that appends to the files of a service. -/
inductive TrustCall where
  | saveAuthzDecision (service : Bytes) (peerPk : PublicKey) (endpoint : Bytes) (allow : Bool)
  | rememberClient (service : Bytes) (clientPk : PublicKey)
  deriving DecidableEq

namespace TrustCall

def service : TrustCall → Bytes
  | saveAuthzDecision service _ _ _ | rememberClient service _ => service

/-- What is written is one line. -/
def OneLine : TrustCall → Prop
  | saveAuthzDecision _ _ endpoint _ => lineFeed ∉ endpoint
  | rememberClient _ _ => True

instance (c : TrustCall) : Decidable c.OneLine :=
  match c with
  | saveAuthzDecision _ _ endpoint _ => inferInstanceAs (Decidable (lineFeed ∉ endpoint))
  | rememberClient _ _ => inferInstanceAs (Decidable True)

/-- A call, on the files of its service. -/
def onFiles (files : TrustFiles) : TrustCall → TrustFiles
  | saveAuthzDecision _ peerPk endpoint allow => files.saveAuthzDecision peerPk endpoint allow
  | rememberClient _ clientPk => files.rememberClient clientPk

/-- A call, on what the files stand for. -/
def onTrust (t : Trust) : TrustCall → Trust
  | saveAuthzDecision _ peerPk endpoint allow =>
    { t with verdict := fun k e => if peerPk = k ∧ endpoint = e then some allow else t.verdict k e }
  | rememberClient _ clientPk => { t with known := insert clientPk t.known }

/-- The calls in their order, on the files of all services; at first there are none. -/
def runAll (calls : List TrustCall) : Bytes → TrustFiles :=
  calls.foldl (fun dir c => Function.update dir c.service (c.onFiles (dir c.service))) fun _ => {}

/-- The verdict that a call saves for a peer and an endpoint. -/
def savedFor (service : Bytes) (peerPk : PublicKey) (endpoint : Bytes) : TrustCall → Option Bool
  | saveAuthzDecision service' peerPk' endpoint' allow =>
    if service' = service ∧ peerPk' = peerPk ∧ endpoint' = endpoint then some allow else none
  | rememberClient _ _ => none

end TrustCall

namespace TrustFiles

/-- The files answer as the map and the set do, and each client has one line. -/
structure Represents (files : TrustFiles) (t : Trust) : Prop where
  decisionsEnd : ∀ file, files.decisions = some file → AtLineStart file
  verdict : ∀ peerPk endpoint, files.loadAuthzDecision peerPk endpoint = t.verdict peerPk endpoint
  clientsEnd : ∀ file, files.clients = some file → AtLineStart file
  keys : ∃ ks : List PublicKey, files.clientLines = ks.map (fun k => toHex k.val) ∧ ks.Nodup ∧
    ∀ k, k ∈ ks ↔ k ∈ t.known

variable {files : TrustFiles} {t : Trust}

theorem atLineStart_line (file line : Bytes) : AtLineStart (file ++ (line ++ [lineFeed])) := by
  refine Or.inr ?_
  rw [← List.append_assoc]
  exact List.getLast?_concat

theorem isKnownClient_eq (files : TrustFiles) (clientPk : PublicKey) :
    files.isKnownClient clientPk = true ↔ toHex clientPk.val ∈ files.clientLines := by
  rw [isKnownClient, clientLines]
  cases files.clients with
  | none => exact ⟨Bool.noConfusion, fun h => absurd h List.not_mem_nil⟩
  | some file =>
    rw [List.any_eq_true]
    constructor
    · rintro ⟨line, hline, heq⟩
      rw [← of_decide_eq_true heq]
      exact hline
    · intro hmem
      exact ⟨_, hmem, decide_eq_true rfl⟩

theorem mem_map_toHex {ks : List PublicKey} {k : PublicKey} :
    toHex k.val ∈ ks.map (fun k => toHex k.val) ↔ k ∈ ks := by
  rw [List.mem_map]
  constructor
  · rintro ⟨k', hk', heq⟩
    rwa [← Block.ext (toHex_injective heq)]
  · intro hk
    exact ⟨k, hk, rfl⟩

/-- **A client is known** if it is in the set. -/
theorem Represents.isKnownClient (h : files.Represents t) (clientPk : PublicKey) :
    files.isKnownClient clientPk = true ↔ clientPk ∈ t.known := by
  obtain ⟨ks, hlines, -, hmem⟩ := h.keys
  rw [isKnownClient_eq, hlines, mem_map_toHex, hmem]

theorem Represents.empty : ({} : TrustFiles).Represents {} where
  decisionsEnd _ hfile := by cases hfile
  verdict _ _ := rfl
  clientsEnd _ hfile := by cases hfile
  keys := ⟨[], rfl, List.nodup_nil, fun _ => ⟨fun hk => absurd hk List.not_mem_nil, False.elim⟩⟩

/-- `save_authz_decision` changes one verdict. -/
theorem Represents.saveAuthzDecision (h : files.Represents t) {endpoint : Bytes}
    (he : lineFeed ∉ endpoint) (service : Bytes) (peerPk : PublicKey) (allow : Bool) :
    (files.saveAuthzDecision peerPk endpoint allow).Represents
      ((TrustCall.saveAuthzDecision service peerPk endpoint allow).onTrust t) where
  decisionsEnd := by
    rintro _ ⟨⟩
    exact atLineStart_line _ _
  verdict k e := by
    have hstart : AtLineStart (files.decisions.getD []) := by
      cases hfile : files.decisions with
      | none => exact Or.inl rfl
      | some file => exact h.decisionsEnd file hfile
    have hbefore : Epx.loadAuthzDecision (files.decisions.getD []) k e = t.verdict k e := by
      rw [← h.verdict, TrustFiles.loadAuthzDecision]
      cases files.decisions with
      | none => rfl
      | some file => rfl
    calc (files.saveAuthzDecision peerPk endpoint allow).loadAuthzDecision k e
        = Epx.loadAuthzDecision (files.decisions.getD [] ++
            (decisionLine peerPk endpoint allow ++ [lineFeed])) k e := rfl
      _ = if peerPk = k ∧ endpoint = e then some allow else t.verdict k e := by
        rw [loadAuthzDecision_append hstart he, hbefore]
  clientsEnd := h.clientsEnd
  keys := h.keys

/-- `remember_client` adds one client, and no line for a client that has one. -/
theorem Represents.rememberClient (h : files.Represents t) (service : Bytes)
    (clientPk : PublicKey) :
    (files.rememberClient clientPk).Represents
      ((TrustCall.rememberClient service clientPk).onTrust t) := by
  obtain ⟨ks, hlines, hnodup, hmem⟩ := h.keys
  rw [TrustFiles.rememberClient]
  by_cases hknown : files.isKnownClient clientPk = true
  · rw [if_pos hknown]
    have hin : clientPk ∈ t.known := (h.isKnownClient clientPk).mp hknown
    refine ⟨h.decisionsEnd, h.verdict, h.clientsEnd, ks, hlines, hnodup, fun k => ?_⟩
    rw [hmem]
    exact ⟨Or.inr, fun hk => hk.elim (fun heq => heq ▸ hin) id⟩
  · rw [if_neg hknown]
    have hnew : clientPk ∉ ks := by
      rw [hmem, ← h.isKnownClient]
      exact hknown
    have hstart : AtLineStart (files.clients.getD []) := by
      cases hfile : files.clients with
      | none => exact Or.inl rfl
      | some file => exact h.clientsEnd file hfile
    refine ⟨h.decisionsEnd, h.verdict, ?_, ks ++ [clientPk], ?_, ?_, fun k => ?_⟩
    · rintro _ ⟨⟩
      exact atLineStart_line _ _
    · have hline : lines (toHex clientPk.val ++ [lineFeed]) = [toHex clientPk.val] :=
        lines_line [] (lineFeed_not_mem_toHex _)
      calc lines (files.clients.getD [] ++ (toHex clientPk.val ++ [lineFeed]))
          = files.clientLines ++ [toHex clientPk.val] := by
            rw [lines_append hstart, hline, clientLines]
        _ = (ks ++ [clientPk]).map fun k => toHex k.val := by
            rw [hlines, List.map_append, List.map_singleton]
    · rw [List.nodup_append]
      refine ⟨hnodup, List.nodup_singleton _, fun a ha b hb heq => ?_⟩
      rw [List.mem_singleton.mp hb] at heq
      exact hnew (heq ▸ ha)
    · rw [List.mem_append, List.mem_singleton, hmem, or_comm]
      exact Iff.rfl

/-- **A call does to the files what it does to the map and the set.** -/
theorem Represents.after (h : files.Represents t) {c : TrustCall} (hc : c.OneLine) :
    (c.onFiles files).Represents (c.onTrust t) := by
  cases c with
  | saveAuthzDecision service peerPk endpoint allow =>
    exact h.saveAuthzDecision hc service peerPk allow
  | rememberClient service clientPk => exact h.rememberClient service clientPk

end TrustFiles

namespace TrustCall

/-- What the calls for a service leave, one after another. -/
def runTrust (service : Bytes) (calls : List TrustCall) : Trust :=
  (calls.filter fun c => c.service = service).foldl onTrust {}

theorem runAll_snoc (calls : List TrustCall) (c : TrustCall) :
    runAll (calls ++ [c]) =
      Function.update (runAll calls) c.service (c.onFiles (runAll calls c.service)) := by
  rw [runAll, List.foldl_append]
  rfl

theorem runTrust_snoc (service : Bytes) (calls : List TrustCall) (c : TrustCall) :
    runTrust service (calls ++ [c]) =
      if c.service = service then c.onTrust (runTrust service calls)
      else runTrust service calls := by
  rw [runTrust, List.filter_append, List.foldl_append]
  by_cases hc : c.service = service
  · rw [if_pos hc, List.filter_singleton, decide_eq_true hc]
    rfl
  · rw [if_neg hc, List.filter_singleton, decide_eq_false hc]
    rfl

/-- **The files refine the map and the set**, after any sequence of calls. -/
theorem represents_runAll {calls : List TrustCall} (hcalls : ∀ c ∈ calls, c.OneLine)
    (service : Bytes) : (runAll calls service).Represents (runTrust service calls) := by
  induction calls using List.reverseRecOn with
  | nil => exact .empty
  | append_singleton calls c ih =>
    have hbefore := ih fun c' hc' => hcalls c' (List.mem_append_left _ hc')
    have hc : c.OneLine := hcalls c (List.mem_append_right _ List.mem_cons_self)
    rw [runAll_snoc, runTrust_snoc]
    by_cases hservice : c.service = service
    · subst hservice
      rw [Function.update_self, if_pos rfl]
      exact hbefore.after hc
    · rw [Function.update_of_ne (Ne.symm hservice), if_neg hservice]
      exact hbefore

/-- The map holds the last verdict that was saved. -/
theorem verdict_runTrust (calls : List TrustCall) (service : Bytes) (peerPk : PublicKey)
    (endpoint : Bytes) : (runTrust service calls).verdict peerPk endpoint =
      (calls.filterMap (savedFor service peerPk endpoint)).getLast? := by
  induction calls using List.reverseRecOn with
  | nil => rfl
  | append_singleton calls c ih =>
    rw [runTrust_snoc, List.filterMap_append]
    cases c with
    | saveAuthzDecision service' peerPk' endpoint' allow =>
      simp only [TrustCall.service, onTrust, List.filterMap_cons, List.filterMap_nil, savedFor]
      by_cases hservice : service' = service
      · by_cases hown : peerPk' = peerPk ∧ endpoint' = endpoint
        · simp [hservice, hown]
        · simp [hservice, hown, ih]
      · simp [hservice, ih]
    | rememberClient service' clientPk =>
      by_cases hservice : service' = service
      · simp [TrustCall.service, onTrust, savedFor, hservice, ih]
      · simp [TrustCall.service, savedFor, hservice, ih]

/-- The set holds the clients that were remembered. -/
theorem known_runTrust (calls : List TrustCall) (service : Bytes) (clientPk : PublicKey) :
    clientPk ∈ (runTrust service calls).known ↔ rememberClient service clientPk ∈ calls := by
  induction calls using List.reverseRecOn with
  | nil => exact ⟨False.elim, fun h => absurd h List.not_mem_nil⟩
  | append_singleton calls c ih =>
    rw [runTrust_snoc, List.mem_append, List.mem_singleton, ← ih]
    cases c with
    | saveAuthzDecision service' peerPk endpoint allow =>
      by_cases hservice : service' = service <;> simp [TrustCall.service, onTrust, hservice]
    | rememberClient service' clientPk' =>
      by_cases hservice : service' = service
      · simp only [TrustCall.service, onTrust, hservice, if_true, Set.mem_insert_iff,
          rememberClient.injEq, true_and]
        exact or_comm
      · simp [TrustCall.service, hservice, Ne.symm hservice]

end TrustCall

open TrustCall in
/-- **The files of a service are a map and a set.** After any sequence of calls whose endpoints have
no line feed, `load_authz_decision` gives the last verdict saved for exactly that peer and endpoint,
`is_known_client` holds of exactly the clients that were remembered, and no client has two lines; a
verdict for another peer or endpoint changes no answer. -/
theorem trust_files_are_map_and_set (calls : List TrustCall) (hcalls : ∀ c ∈ calls, c.OneLine)
    (service : Bytes) :
    (∀ peerPk endpoint, (runAll calls service).loadAuthzDecision peerPk endpoint =
      (calls.filterMap (savedFor service peerPk endpoint)).getLast?) ∧
    (∀ clientPk, (runAll calls service).isKnownClient clientPk = true ↔
      TrustCall.rememberClient service clientPk ∈ calls) ∧
    (∀ peerPk endpoint peerPk' endpoint' allow, lineFeed ∉ endpoint' →
      (peerPk', endpoint') ≠ (peerPk, endpoint) →
      (runAll (calls ++ [.saveAuthzDecision service peerPk' endpoint' allow])
          service).loadAuthzDecision peerPk endpoint =
        (runAll calls service).loadAuthzDecision peerPk endpoint) ∧
    (runAll calls service).clientLines.Nodup := by
  have hrep := represents_runAll hcalls service
  refine ⟨fun peerPk endpoint => ?_, fun clientPk => ?_, ?_, ?_⟩
  · rw [hrep.verdict, verdict_runTrust]
  · rw [hrep.isKnownClient, known_runTrust]
  · intro peerPk endpoint peerPk' endpoint' allow he hne
    have hafter := hrep.saveAuthzDecision he service peerPk' allow
    have hother : ¬ (peerPk' = peerPk ∧ endpoint' = endpoint) := by
      rintro ⟨rfl, rfl⟩
      exact hne rfl
    rw [runAll_snoc]
    simp only [TrustCall.service, Function.update_self]
    refine (hafter.verdict peerPk endpoint).trans ?_
    simp only [onTrust, if_neg hother]
    exact (hrep.verdict peerPk endpoint).symm
  · obtain ⟨ks, hlines, hnodup, -⟩ := hrep.keys
    rw [hlines]
    exact List.Nodup.map (fun a b heq => Block.ext (toHex_injective heq)) hnodup

/-- An endpoint that looks like the end of a decision, for a client that is remembered twice. -/
theorem trust_files_are_map_and_set_alike :
    let key : PublicKey := Block.zero 32
    let alike : Bytes := tagBytes "a allow b".toList
    let calls : List TrustCall :=
      [.rememberClient [] key, .saveAuthzDecision [] key alike false, .rememberClient [] key]
    (TrustCall.runAll calls []).loadAuthzDecision key alike = some false ∧
      (TrustCall.runAll calls []).loadAuthzDecision key (tagBytes "b".toList) = none ∧
      (TrustCall.runAll calls []).isKnownClient key = true := by
  intro key alike calls
  have hcalls : ∀ c ∈ calls, c.OneLine := by decide
  obtain ⟨hverdict, hknown, -⟩ := trust_files_are_map_and_set calls hcalls []
  refine ⟨?_, ?_, (hknown key).mpr List.mem_cons_self⟩
  · rw [hverdict]
    decide
  · rw [hverdict]
    decide

end Epx
