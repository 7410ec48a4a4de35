import Epx.Lib.Text
import Epx.Protocol

/-!
# The keystore's files

The two text files of `src/keystore.cpp` that several threads and processes write: the decisions of
the user about the endpoints of a service, one line each, and the identity of an application.

A decision is appended, and the last line about a peer and an endpoint counts. The endpoint stands
at the end of the line as it is; the line is read back only if there is no line feed in it, and only
if the file did not end in the middle of a line.

## Main definitions

* `decisionLine`, `loadAuthzDecision` — what is appended to the file of decisions and read from it
* `identityText`, `parseIdentity` — the file of an identity

## Main results

* `loadAuthzDecision_append` — an appended decision counts for its own peer and endpoint only
* `parseIdentity_identityText`
-/

namespace Epx

open Codec Text

/-! ### Decisions -/

/-- The blank between the parts of a line. -/
def blank : UInt8 := 32

/-- The word for a decision. -/
def verdict (allow : Bool) : Bytes := tagBytes (if allow then "allow" else "deny").toList

/-- The line that `save_authz_decision` appends, without its line feed. -/
def decisionLine (peerPk : PublicKey) (endpoint : Bytes) (allow : Bool) : Bytes :=
  toHex peerPk.val ++ blank :: (verdict allow ++ blank :: endpoint)

/-- What a line says about a peer and an endpoint. -/
def lineDecision (peerPk : PublicKey) (endpoint line : Bytes) : Option Bool :=
  match cut blank line with
  | none => none
  | some (peer, rest) =>
    match cut blank rest with
    | none => none
    | some (word, name) =>
      if peer ≠ toHex peerPk.val then none
      else if name ≠ endpoint then none
      else if word = verdict true then some true
      else if word = verdict false then some false
      else none

/-- `load_authz_decision`: later lines win. A missing file is an empty one. -/
def loadAuthzDecision (file : Bytes) (peerPk : PublicKey) (endpoint : Bytes) : Option Bool :=
  (lines file).foldl (fun decision line => (lineDecision peerPk endpoint line).or decision) none

theorem blank_not_mem_toHex (data : Bytes) : blank ∉ toHex data := not_mem_toHex rfl data

theorem toHex_injective {a b : Bytes} (h : toHex a = toHex b) : a = b := by
  have hread := unhex_toHex a
  rw [h, unhex_toHex b] at hread
  exact (Option.some.inj hread).symm

theorem lineFeed_not_mem_decisionLine {endpoint : Bytes} (he : lineFeed ∉ endpoint)
    (peerPk : PublicKey) (allow : Bool) : lineFeed ∉ decisionLine peerPk endpoint allow := by
  have hverdict : lineFeed ∉ verdict allow := by cases allow <;> decide
  have hblank : lineFeed ≠ blank := by decide
  intro hmem
  rcases List.mem_append.mp hmem with hmem | hmem
  · exact lineFeed_not_mem_toHex _ hmem
  rcases List.mem_cons.mp hmem with heq | hmem
  · exact hblank heq
  rcases List.mem_append.mp hmem with hmem | hmem
  · exact hverdict hmem
  rcases List.mem_cons.mp hmem with heq | hmem
  · exact hblank heq
  · exact he hmem

/-- A line speaks for its own peer and endpoint only. -/
theorem lineDecision_decisionLine (peerPk peerPk' : PublicKey) (endpoint endpoint' : Bytes)
    (allow : Bool) :
    lineDecision peerPk endpoint (decisionLine peerPk' endpoint' allow)
      = if peerPk' = peerPk ∧ endpoint' = endpoint then some allow else none := by
  have hverdict : blank ∉ verdict allow := by cases allow <;> decide
  simp only [lineDecision, decisionLine, cut_append (blank_not_mem_toHex _), cut_append hverdict]
  by_cases hpeer : peerPk' = peerPk
  · subst hpeer
    by_cases hname : endpoint' = endpoint
    · subst hname
      cases allow with
      | true => simp
      | false =>
        have hne : verdict false ≠ verdict true := by decide
        simp [hne]
    · simp [hname]
  · have hhex : toHex peerPk'.val ≠ toHex peerPk.val :=
      fun heq => hpeer (Block.ext (toHex_injective heq))
    simp [hhex, hpeer]

/-- **An appended decision counts**, and for its own peer and endpoint only. -/
theorem loadAuthzDecision_append {file : Bytes} (hfile : AtLineStart file) {endpoint' : Bytes}
    (he : lineFeed ∉ endpoint') (peerPk peerPk' : PublicKey) (endpoint : Bytes) (allow : Bool) :
    loadAuthzDecision (file ++ (decisionLine peerPk' endpoint' allow ++ [lineFeed])) peerPk endpoint
      = if peerPk' = peerPk ∧ endpoint' = endpoint then some allow
        else loadAuthzDecision file peerPk endpoint := by
  have hline := lines_line [] (lineFeed_not_mem_decisionLine he peerPk' allow)
  have hnil : lines [] = [] := rfl
  rw [loadAuthzDecision, lines_append hfile, hline, hnil, List.foldl_append, List.foldl_cons,
    List.foldl_nil, lineDecision_decisionLine]
  by_cases hown : peerPk' = peerPk ∧ endpoint' = endpoint
  · rw [if_pos hown, if_pos hown]
    rfl
  · rw [if_neg hown, if_neg hown]
    rfl

/-! ### Identities -/

/-- What `load_or_create_identity` writes. -/
def identityText (id : Identity) : Bytes :=
  toHex id.publicKey.val ++ lineFeed :: (toHex id.secretKey.val ++ [lineFeed])

/-- What it makes of a file: the first two lines are the keys. -/
def parseIdentity (file : Bytes) : Option Identity :=
  match lines file with
  | pkHex :: skHex :: _ =>
    match fromHex 32 pkHex, fromHex 64 skHex with
    | some pk, some sk => some ⟨pk, sk⟩
    | _, _ => none
  | _ => none

/-- An identity is read back. -/
theorem parseIdentity_identityText (id : Identity) : parseIdentity (identityText id) = some id := by
  have hlines : lines (identityText id) = [toHex id.publicKey.val, toHex id.secretKey.val] := by
    rw [identityText, lines_line _ (lineFeed_not_mem_toHex _),
      lines_line _ (lineFeed_not_mem_toHex _)]
    rfl
  simp only [parseIdentity, hlines, fromHex_toHex]

end Epx
