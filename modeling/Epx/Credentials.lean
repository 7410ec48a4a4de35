import Epx.Access
import Epx.HandshakeAgreement
import Epx.Lib.Text
import Mathlib.Data.List.Induction

/-!
# Credentials

The text format of `src/credentials.cpp` and what a host with the Certificate tier makes of the
texts that it is offered, through `add_credential` and as files of its credentials directory.

A text is read line by line, and of each key the last line counts. An expiry is read by
`std::stoull`, which takes blanks, a sign and anything after the digits. What is signed are the
fields that have been read and not the text, so two texts may stand for one credential, and what a
text adds to the fields means nothing.

## Main definitions

* `serializeCredential`, `parseCredential`, `makeCredential`
* `CertificateStore`, `CertificateCall` — a host that is offered texts
* `CredentialGrants` — what a text says if its signature is valid

## Main results

* `parseCredential_serializeCredential`
* `authorize_certificate` — when the tier admits a call
* `Net.credential_of_signed` — a credential that is signed has been issued
* `certificate_tier_sound`
-/

namespace Epx

open Codec Text Exception Transition

/-! ### The text -/

/-- The first line. -/
def credentialHeader : Bytes := tagBytes "epx-credential-v1".toList

/-- The keys of the other lines, in the order in which they are written. -/
inductive CredentialKey where
  | peer
  | scope
  | expires
  | issuer
  | sig
  deriving DecidableEq

namespace CredentialKey

def name : CredentialKey → Bytes
  | .peer => tagBytes "peer".toList
  | .scope => tagBytes "scope".toList
  | .expires => tagBytes "expires".toList
  | .issuer => tagBytes "issuer".toList
  | .sig => tagBytes "sig".toList

def all : List CredentialKey := [.peer, .scope, .expires, .issuer, .sig]

/-- What is written after the `=`, which is 61. -/
def value (c : Credential) : CredentialKey → Bytes
  | .peer => toHex c.peer.val
  | .scope => c.scope
  | .expires => decimal c.expires.toNat
  | .issuer => toHex c.issuer.val
  | .sig => toHex c.signature.val

/-- A line of a credential. -/
def line (c : Credential) (k : CredentialKey) : Bytes := k.name ++ 61 :: k.value c

end CredentialKey

/-- `credentials::serialize`. -/
def serializeCredential (c : Credential) : Bytes :=
  credentialHeader ++ lineFeed :: CredentialKey.all.flatMap fun k => k.line c ++ [lineFeed]

/-- `std::stoull`: no number, or one that does not fit, throws; a minus sign is taken modulo
2^64. -/
def stoull (s : Bytes) : Option UInt64 :=
  match s.dropWhile isSpace with
  | [] => none
  | b :: s =>
    if b = 45 then ((strtoul s).filter (· < 2 ^ 64)).map fun n => UInt64.ofNat (2 ^ 64 - n)
    else if b = 43 then ((strtoul s).filter (· < 2 ^ 64)).map UInt64.ofNat
    else ((strtoul (b :: s)).filter (· < 2 ^ 64)).map UInt64.ofNat

/-- The fields that `credentials::parse` has read: `none` where the flag of the field is not set. -/
structure CredentialFields where
  peer : Option PublicKey := none
  scope : Option Bytes := none
  expires : Option UInt64 := none
  issuer : Option PublicKey := none
  signature : Option (Block 64) := none

/-- One line after the first; `none` when the number throws. -/
def parseCredentialLine (c : CredentialFields) (line : Bytes) : Option CredentialFields :=
  match cut 61 line with
  | none => some c
  | some (key, val) =>
    if key = CredentialKey.peer.name then some { c with peer := fromHex 32 val }
    else if key = CredentialKey.scope.name then
      some { c with scope := if val = [] then none else some val }
    else if key = CredentialKey.expires.name then
      (stoull val).map fun expires => { c with expires := some expires }
    else if key = CredentialKey.issuer.name then some { c with issuer := fromHex 32 val }
    else if key = CredentialKey.sig.name then some { c with signature := fromHex 64 val }
    else some c

/-- `credentials::parse`. -/
def parseCredential (text : Bytes) : Option Credential :=
  match lines text with
  | [] => none
  | header :: rest =>
    if header ≠ credentialHeader then none
    else
      match rest.foldlM parseCredentialLine {} with
      | some ⟨some peer, some scope, some expires, some issuer, some signature⟩ =>
        some ⟨peer, scope, expires, issuer, signature⟩
      | _ => none

theorem stoull_decimal (n : UInt64) : stoull (decimal n.toNat) = some n := by
  obtain ⟨hdigits, hne, hvalue⟩ := decimalFrom_spec (le_refl n.toNat)
  have hread := strtoul_of_digits hdigits hne
  rw [hvalue] at hread
  change strtoul (decimal n.toNat) = some n.toNat at hread
  have hlt : n.toNat < 2 ^ 64 := n.toNat_lt
  rw [stoull]
  cases hcons : decimal n.toNat with
  | nil => exact absurd hcons hne
  | cons d ds =>
    have hd : d ∈ decimal n.toNat := by
      rw [hcons]
      exact List.mem_cons_self
    obtain ⟨hspace, hminus, hplus⟩ := of_isDigit (hdigits d hd)
    rw [List.dropWhile_cons_of_neg (by rw [hspace]; decide)]
    dsimp only
    rw [if_neg hminus, if_neg hplus, ← hcons, hread, Option.filter_some,
      if_pos (decide_eq_true hlt), Option.map_some, UInt64.ofNat_toNat]

/-- A scope stands on one line, and there is one. -/
structure ScopeOk (scope : Bytes) : Prop where
  nonempty : scope ≠ []
  oneLine : lineFeed ∉ scope

theorem CredentialKey.lineFeed_not_mem_line {c : Credential} (h : ScopeOk c.scope)
    (k : CredentialKey) : lineFeed ∉ k.line c := by
  have hname : lineFeed ∉ k.name := by cases k <;> decide
  have hvalue : lineFeed ∉ k.value c := by
    cases k with
    | peer | issuer | sig => exact lineFeed_not_mem_toHex _
    | scope => exact h.oneLine
    | expires => exact lineFeed_not_mem_decimal _
  intro hmem
  rcases List.mem_append.mp hmem with hmem | hmem
  · exact hname hmem
  · rcases List.mem_cons.mp hmem with heq | hmem
    · exact absurd heq (by decide)
    · exact hvalue hmem

/-- The line of a key sets the field of the key. -/
theorem parseCredentialLine_line {c : Credential} (h : ScopeOk c.scope) (k : CredentialKey)
    (f : CredentialFields) :
    parseCredentialLine f (k.line c) = some (match k with
      | .peer => { f with peer := some c.peer }
      | .scope => { f with scope := some c.scope }
      | .expires => { f with expires := some c.expires }
      | .issuer => { f with issuer := some c.issuer }
      | .sig => { f with signature := some c.signature }) := by
  have hcut : cut 61 (k.line c) = some (k.name, k.value c) :=
    cut_append (by cases k <;> decide)
  simp only [parseCredentialLine, hcut]
  cases k with
  | peer =>
    have hvalue : fromHex 32 (CredentialKey.peer.value c) = some c.peer := fromHex_toHex _
    rw [if_pos rfl, hvalue]
  | scope =>
    have hvalue : CredentialKey.scope.value c = c.scope := rfl
    rw [if_neg (by decide), if_pos rfl, hvalue, if_neg h.nonempty]
  | expires =>
    have hvalue : stoull (CredentialKey.expires.value c) = some c.expires := stoull_decimal _
    rw [if_neg (by decide), if_neg (by decide), if_pos rfl, hvalue]
    rfl
  | issuer =>
    have hvalue : fromHex 32 (CredentialKey.issuer.value c) = some c.issuer := fromHex_toHex _
    rw [if_neg (by decide), if_neg (by decide), if_neg (by decide), if_pos rfl, hvalue]
  | sig =>
    have hvalue : fromHex 64 (CredentialKey.sig.value c) = some c.signature := fromHex_toHex _
    rw [if_neg (by decide), if_neg (by decide), if_neg (by decide), if_neg (by decide), if_pos rfl,
      hvalue]

/-- **A credential is read back**, whatever its expiry. -/
theorem parseCredential_serializeCredential {c : Credential} (h : ScopeOk c.scope) :
    parseCredential (serializeCredential c) = some c := by
  have hlines : lines (serializeCredential c) =
      credentialHeader :: CredentialKey.all.map fun k => k.line c := by
    have hrest := lines_flatMap (fun k => k.line c) CredentialKey.all
      fun k _ => k.lineFeed_not_mem_line h
    rw [serializeCredential, lines_line _ (by decide), hrest]
  simp only [parseCredential, hlines, CredentialKey.all, List.map_cons, List.map_nil,
    List.foldlM_cons, List.foldlM_nil, parseCredentialLine_line h, Option.bind_eq_bind,
    Option.bind_some, ne_eq, not_true_eq_false, if_false]
  rfl

/-! ### Making and offering credentials -/

section

variable (S : Sodium)

/-- `credentials::signature_valid`. -/
def signatureValid (c : Credential) : Bool :=
  verify S c.issuer (credentialSignedBytes c.peer c.issuer c.scope c.expires) c.signature

/-- The signature of a credential that is checked. -/
def Credential.check (c : Credential) : SignatureCheck :=
  ⟨c.issuer, credentialSignedBytes c.peer c.issuer c.scope c.expires, c.signature⟩

/-- `make_credential`. -/
def makeCredential (issuer : Identity) (peer : PublicKey) (scope : Bytes) (expires : UInt64) :
    Bytes :=
  serializeCredential
    { peer := peer, scope := scope, expires := expires, issuer := issuer.publicKey
      signature := sign S issuer.secretKey
        (credentialSignedBytes peer issuer.publicKey scope expires) }

/-- `issuers` and `creds` of a host. -/
structure CertificateStore where
  issuers : List PublicKey := []
  creds : List Credential := []

/-- `Host::add_credential`. -/
def addCredential (store : CertificateStore) (text : Bytes) : Bool × CertificateStore :=
  match parseCredential text with
  | some c =>
    if signatureValid S c then (true, { store with creds := store.creds ++ [c] })
    else (false, store)
  | none => (false, store)

/-- `path.extension() == ".cred"`, for a file name; one that starts with its only dot has no
extension. -/
def hasCredExtension (name : Bytes) : Bool :=
  (tagBytes ".cred".toList).isSuffixOf name && name ≠ tagBytes ".cred".toList

/-- `load_credentials_from_disk`, with the names and the contents of the files of the directory. -/
def loadCredentialsFromDisk (store : CertificateStore) (files : List (Bytes × Bytes)) :
    CertificateStore :=
  (files.filter fun file => hasCredExtension file.1).foldl
    (fun store file => (addCredential S store file.2).2) store

/-- A call that sets up a host for the Certificate tier; `run` loads what is in the directory. -/
inductive CertificateCall where
  | addIssuer (issuer : PublicKey)
  | addCredential (text : Bytes)
  | run (files : List (Bytes × Bytes))

namespace CertificateCall

def onStore (store : CertificateStore) : CertificateCall → CertificateStore
  | addIssuer issuer => { store with issuers := issuer :: store.issuers }
  | addCredential text => (Epx.addCredential S store text).2
  | run files => loadCredentialsFromDisk S store files

/-- What a host has after the calls. -/
def runAll (calls : List CertificateCall) : CertificateStore := calls.foldl (onStore S) {}

/-- The texts that a call offers. -/
def offers : CertificateCall → List Bytes
  | addIssuer _ => []
  | addCredential text => [text]
  | run files => (files.filter fun file => hasCredExtension file.1).map Prod.snd

/-- The issuers that a call makes trusted. -/
def trusts : CertificateCall → List PublicKey
  | addIssuer issuer => [issuer]
  | addCredential _ | run _ => []

end CertificateCall

/-- The view of a host with these issuers and credentials. -/
def HostView.withStore (view : HostView) (store : CertificateStore) : HostView :=
  { view with issuers := store.issuers, creds := store.creds }

/-- A text parses to a valid credential of `issuer` that lets `peer` call `service/endpoint` at
`now`. -/
def CredentialGrants (text : Bytes) (issuer peer : PublicKey) (service endpoint : Bytes)
    (now : UInt64) :
    Prop :=
  ∃ scope expires sig, parseCredential text = some ⟨peer, scope, expires, issuer, sig⟩ ∧
    verify S issuer (credentialSignedBytes peer issuer scope expires) sig = true ∧
    (expires = 0 ∨ now ≤ expires) ∧ (scope = service ∨ scope = service ++ 47 :: endpoint)

theorem covers_iff {c : Credential} {peer : PublicKey} {service endpoint : Bytes} {now : UInt64} :
    covers c peer service endpoint now = true ↔
      c.peer = peer ∧ (c.expires = 0 ∨ now ≤ c.expires) ∧
        (c.scope = service ∨ c.scope = service ++ 47 :: endpoint) := by
  rw [covers]
  by_cases hpeer : c.peer = peer
  · rw [if_neg (not_not.mpr hpeer)]
    by_cases hexpired : c.expires ≠ 0 ∧ now > c.expires
    · rw [if_pos hexpired]
      refine ⟨fun h => (Bool.noConfusion h), ?_⟩
      rintro ⟨-, hzero | hle, -⟩
      · exact absurd hzero hexpired.1
      · exact absurd hle (UInt64.not_le.mpr hexpired.2)
    · have hvalid : c.expires = 0 ∨ now ≤ c.expires := by
        by_cases hzero : c.expires = 0
        · exact Or.inl hzero
        · exact Or.inr (UInt64.not_lt.mp fun hlt => hexpired ⟨hzero, hlt⟩)
      rw [if_neg hexpired, decide_eq_true_eq]
      exact ⟨fun h => ⟨hpeer, hvalid, h⟩, fun h => h.2.2⟩
  · rw [if_pos hpeer]
    exact ⟨fun h => (Bool.noConfusion h), fun h => absurd h.1 hpeer⟩

/-- What is installed is what is valid of the text. -/
theorem mem_creds_addCredential {store : CertificateStore} {text : Bytes} {c : Credential} :
    c ∈ (addCredential S store text).2.creds ↔
      c ∈ store.creds ∨ parseCredential text = some c ∧ signatureValid S c = true := by
  rw [addCredential]
  cases hparse : parseCredential text with
  | none => simp
  | some c' =>
    by_cases hvalid : signatureValid S c' = true
    · simp only [if_pos hvalid, List.mem_append, List.mem_singleton, Option.some.injEq]
      constructor
      · rintro (hc | rfl)
        · exact Or.inl hc
        · exact Or.inr ⟨rfl, hvalid⟩
      · rintro (hc | ⟨rfl, -⟩)
        · exact Or.inl hc
        · exact Or.inr rfl
    · simp only [if_neg hvalid, Option.some.injEq]
      constructor
      · exact Or.inl
      · rintro (hc | ⟨rfl, hvalid'⟩)
        · exact hc
        · exact absurd hvalid' hvalid

theorem issuers_addCredential (store : CertificateStore) (text : Bytes) :
    (addCredential S store text).2.issuers = store.issuers := by
  rw [addCredential]
  split
  · split <;> rfl
  · rfl

/-- The same of all files. -/
theorem loadCredentialsFromDisk_spec (store : CertificateStore) (files : List (Bytes × Bytes)) :
    (loadCredentialsFromDisk S store files).issuers = store.issuers ∧
      ∀ c, c ∈ (loadCredentialsFromDisk S store files).creds ↔ c ∈ store.creds ∨
        ∃ text ∈ (CertificateCall.run files).offers,
          parseCredential text = some c ∧ signatureValid S c = true := by
  rw [loadCredentialsFromDisk, CertificateCall.offers]
  generalize files.filter (fun file => hasCredExtension file.1) = files
  induction files generalizing store with
  | nil => exact ⟨rfl, fun c => by simp⟩
  | cons file files ih =>
    obtain ⟨hissuers, hcreds⟩ := ih (addCredential S store file.2).2
    rw [List.foldl_cons]
    refine ⟨hissuers.trans (issuers_addCredential S store file.2), fun c => ?_⟩
    rw [hcreds, mem_creds_addCredential, List.map_cons, or_assoc]
    simp only [List.mem_cons, exists_eq_or_imp]

/-- **What a host has** after any calls: the issuers it was given, and of the texts it was offered
those that parse and are validly signed. -/
theorem runAll_spec (calls : List CertificateCall) :
    (∀ pk, pk ∈ (CertificateCall.runAll S calls).issuers ↔ ∃ call ∈ calls, pk ∈ call.trusts) ∧
      ∀ c, c ∈ (CertificateCall.runAll S calls).creds ↔ ∃ call ∈ calls, ∃ text ∈ call.offers,
        parseCredential text = some c ∧ signatureValid S c = true := by
  induction calls using List.reverseRecOn with
  | nil => exact ⟨fun pk => by simp [CertificateCall.runAll],
      fun c => by simp [CertificateCall.runAll]⟩
  | append_singleton calls call ih =>
    obtain ⟨hissuers, hcreds⟩ := ih
    have hsnoc : CertificateCall.runAll S (calls ++ [call]) =
        call.onStore S (CertificateCall.runAll S calls) := by
      rw [CertificateCall.runAll, List.foldl_append]
      rfl
    have hmem : ∀ P : CertificateCall → Prop,
        (∃ call' ∈ calls ++ [call], P call') ↔ (∃ call' ∈ calls, P call') ∨ P call := by
      intro P
      simp only [List.mem_append, List.mem_singleton, or_and_right, exists_or, exists_eq_left]
    rw [hsnoc]
    refine ⟨fun pk => ?_, fun c => ?_⟩
    · rw [hmem, ← hissuers]
      cases call with
      | addIssuer issuer =>
        simp only [CertificateCall.onStore, CertificateCall.trusts, List.mem_cons, List.not_mem_nil,
          or_false]
        exact or_comm
      | addCredential text =>
        simp only [CertificateCall.onStore, issuers_addCredential, CertificateCall.trusts,
          List.not_mem_nil, or_false]
      | run files =>
        simp only [CertificateCall.onStore, (loadCredentialsFromDisk_spec S _ files).1,
          CertificateCall.trusts, List.not_mem_nil, or_false]
    · rw [hmem, ← hcreds]
      cases call with
      | addIssuer issuer =>
        simp only [CertificateCall.onStore, CertificateCall.offers, List.not_mem_nil, false_and,
          exists_false, or_false]
      | addCredential text =>
        simp only [CertificateCall.onStore, mem_creds_addCredential, CertificateCall.offers,
          List.mem_singleton, exists_eq_left]
      | run files =>
        simp only [CertificateCall.onStore, (loadCredentialsFromDisk_spec S _ files).2]

/-! ### Who is admitted -/

/-- **The first call on a connection is admitted** exactly if some text that was offered grants it,
under an issuer that is trusted. -/
theorem authorize_certificate (calls : List CertificateCall) (view : HostView) (peer : PeerInfo)
    (service endpoint : Bytes) {policy : AccessPolicy} (htier : policy.tier = .certificate)
    {cache : List (Bytes × Bool)} (hfirst : cache.lookup endpoint = none) :
    ∃ allowed, authorize service (view.withStore (CertificateCall.runAll S calls)) peer endpoint
        policy cache = .ok (allowed, (endpoint, allowed) :: cache) ∧
      (allowed = true ↔ ∃ call ∈ calls, ∃ text ∈ call.offers, ∃ issuer,
        (∃ call' ∈ calls, issuer ∈ call'.trusts) ∧
          CredentialGrants S text issuer peer.publicKey service endpoint view.now) := by
  obtain ⟨hissuers, hcreds⟩ := runAll_spec S calls
  refine ⟨(CertificateCall.runAll S calls).creds.any fun c =>
    (CertificateCall.runAll S calls).issuers.contains c.issuer &&
      covers c peer.publicKey service endpoint view.now, ?_, ?_⟩
  · rw [authorize, hfirst, decideAccess, htier]
    rfl
  · rw [List.any_eq_true]
    constructor
    · rintro ⟨c, hc, hadmit⟩
      obtain ⟨hissuer, hcovers⟩ := Bool.and_eq_true_iff.mp hadmit
      obtain ⟨call, hcall, text, htext, hparse, hvalid⟩ := (hcreds c).mp hc
      obtain ⟨hpeer, hexpires, hscope⟩ := covers_iff.mp hcovers
      have htrusted := (hissuers c.issuer).mp (List.contains_iff_mem.mp hissuer)
      rw [← hpeer]
      exact ⟨call, hcall, text, htext, c.issuer, htrusted, c.scope, c.expires, c.signature, hparse,
        hvalid, hexpires, hscope⟩
    · rintro ⟨call, hcall, text, htext, issuer, htrusted, scope, expires, sig, hparse, hvalid,
        hexpires, hscope⟩
      refine ⟨_, (hcreds _).mpr ⟨call, hcall, text, htext, hparse, hvalid⟩, ?_⟩
      refine Bool.and_eq_true_iff.mpr ⟨?_, covers_iff.mpr ⟨rfl, hexpires, hscope⟩⟩
      exact List.contains_iff_mem.mpr ((hissuers issuer).mpr htrusted)

/-- **A credential that is made is accepted**, and read back as it was made. -/
theorem addCredential_makeCredential (hsign : S.SignCorrect) {issuer : Identity}
    (hissuer : S.IsSignPair issuer) (peer : PublicKey) {scope : Bytes} (hscope : ScopeOk scope)
    (expires : UInt64) :
    (∃ sig, parseCredential (makeCredential S issuer peer scope expires) =
        some ⟨peer, scope, expires, issuer.publicKey, sig⟩) ∧
      ∀ store, (addCredential S store (makeCredential S issuer peer scope expires)).1 = true := by
  have hparse : parseCredential (makeCredential S issuer peer scope expires) = some
      { peer := peer, scope := scope, expires := expires, issuer := issuer.publicKey
        signature := sign S issuer.secretKey
          (credentialSignedBytes peer issuer.publicKey scope expires) } :=
    parseCredential_serializeCredential hscope
  refine ⟨⟨_, hparse⟩, fun store => ?_⟩
  have hvalid := hsign issuer (credentialSignedBytes peer issuer.publicKey scope expires) hissuer
  rw [addCredential, hparse]
  simp only [signatureValid]
  exact congrArg Prod.fst (if_pos hvalid)

end

/-- **A credential that is signed has been issued**: no handshake signs one. -/
theorem Net.credential_of_signed {net : Net} (hnet : net.Untagged) {pk p i : PublicKey} {s : Bytes}
    {x : UInt64} (h : net.Signed pk (credentialSignedBytes p i s x)) :
    ∃ c ∈ net.credentials, c.issuer.publicKey = pk ∧ c.peer = p ∧ c.scope = s ∧ c.expires = x := by
  have hsays : net.Says pk (.credential p i s x) := (signed_iff hnet).mp h
  generalize hst : Statement.credential p i s x = st at hsays
  cases hsays with
  | client _ _ => cases hst
  | server _ _ => cases hst
  | @credential c hc =>
    obtain ⟨hp, -, hs, hx⟩ := Statement.credential.inj hst
    exact ⟨c, hc, rfl, hp.symm, hs.symm, hx.symm⟩

/-- **The Certificate tier grants exactly what trusted issuers signed.** Whatever texts a host is
offered, the first call of a peer is admitted exactly if some text parses to a valid credential of a
trusted issuer that covers it; a credential that is made is accepted and read back; and where no
text that is offered has a forged signature of a trusted issuer, nobody is admitted without a
credential that a trusted issuer has issued and that is still valid. -/
theorem certificate_tier_sound (S : Sodium) :
    (∀ (calls : List CertificateCall) (view : HostView) (peer : PeerInfo)
      (service endpoint : Bytes) (policy : AccessPolicy) (cache : List (Bytes × Bool)),
      policy.tier = .certificate → cache.lookup endpoint = none →
      ∃ allowed, authorize service (view.withStore (CertificateCall.runAll S calls)) peer endpoint
          policy cache = .ok (allowed, (endpoint, allowed) :: cache) ∧
        (allowed = true ↔ ∃ call ∈ calls, ∃ text ∈ call.offers, ∃ issuer,
          (∃ call' ∈ calls, issuer ∈ call'.trusts) ∧
            CredentialGrants S text issuer peer.publicKey service endpoint view.now)) ∧
    (S.SignCorrect → ∀ (issuer : Identity) (peer : PublicKey) (scope : Bytes) (expires : UInt64),
      S.IsSignPair issuer → scope ≠ [] → lineFeed ∉ scope →
      (∃ sig, parseCredential (makeCredential S issuer peer scope expires) =
        some ⟨peer, scope, expires, issuer.publicKey, sig⟩) ∧
      ∀ store, (addCredential S store (makeCredential S issuer peer scope expires)).1 = true) ∧
    ∀ (calls : List CertificateCall) (view : HostView) (peer : PeerInfo) (service endpoint : Bytes)
      (policy : AccessPolicy) (cache rest : List (Bytes × Bool)) (net : Net),
      policy.tier = .certificate → cache.lookup endpoint = none → net.Untagged →
      (∀ call ∈ calls, ∀ text ∈ call.offers, ∀ c, parseCredential text = some c →
        S.Unforged {pk | ∃ call ∈ calls, pk ∈ call.trusts} net.Signed [c.check]) →
      authorize service (view.withStore (CertificateCall.runAll S calls)) peer endpoint policy
        cache = .ok (true, rest) →
      ∃ c ∈ net.credentials, (∃ call ∈ calls, c.issuer.publicKey ∈ call.trusts) ∧
        c.peer = peer.publicKey ∧ (c.expires = 0 ∨ view.now ≤ c.expires) ∧
        (c.scope = service ∨ c.scope = service ++ 47 :: endpoint) := by
  refine ⟨fun calls view peer service endpoint policy cache htier hfirst =>
      authorize_certificate S calls view peer service endpoint htier hfirst,
    fun hsign issuer peer scope expires hissuer hne hline =>
      addCredential_makeCredential S hsign hissuer peer ⟨hne, hline⟩ expires, ?_⟩
  intro calls view peer service endpoint policy cache rest net htier hfirst hnet hunforged hadmit
  obtain ⟨allowed, hanswer, hiff⟩ :=
    authorize_certificate S calls view peer service endpoint htier hfirst
  rw [hanswer] at hadmit
  cases hadmit
  obtain ⟨call, hcall, text, htext, issuer, ⟨call', hcall', htrusted⟩, scope, expires, sig, hparse,
    hvalid, hexpires, hscope⟩ := hiff.mp rfl
  have hsigned : net.Signed issuer (credentialSignedBytes peer.publicKey issuer scope expires) :=
    hunforged call hcall text htext _ hparse _ List.mem_cons_self ⟨call', hcall', htrusted⟩ hvalid
  obtain ⟨c, hc, rfl, hpeer, rfl, rfl⟩ := Net.credential_of_signed hnet hsigned
  exact ⟨c, hc, ⟨call', hcall', htrusted⟩, hpeer, hexpires, hscope⟩

/-! ### A credential for a service -/

namespace ServiceGrant

def issuer : Identity := ⟨Block.fill 32 9, Block.fill 64 9⟩

def peer : PeerInfo := { publicKey := Block.fill 32 2, peerUid := 1 }

/-- The issuer has signed one credential. -/
def sodium : Sodium :=
  .symbolic [(issuer.publicKey, credentialSignedBytes peer.publicKey issuer.publicKey [115] 100)]

def text : Bytes := makeCredential sodium issuer peer.publicKey [115] 100

def calls : List CertificateCall := [.addIssuer issuer.publicKey, .addCredential text]

def net : Net := { credentials := [⟨issuer, peer.publicKey, [115], 100⟩] }

def view : HostView :=
  { allowedPeers := [], issuers := [], creds := [], now := 100, prompt := none
    isKnownClient := fun _ => false, loadAuthzDecision := fun _ _ => none
    knownClientsDir := .ok (), authzDir := .ok () }

end ServiceGrant

open ServiceGrant in
/-- The peer calls an endpoint of the service in the last second of the credential. -/
theorem certificate_tier_sound_granted :
    sodium.SignCorrect ∧ (∀ store, (addCredential sodium store text).1 = true) ∧
      authorize [115] (view.withStore (CertificateCall.runAll sodium calls)) peer [101]
        { tier := .certificate } [] = .ok (true, [([101], true)]) ∧
      ∃ c ∈ net.credentials, c.peer = peer.publicKey ∧ (c.expires = 0 ∨ view.now ≤ c.expires) := by
  obtain ⟨hadmits, hmade, hsound⟩ := certificate_tier_sound sodium
  have hsign : sodium.SignCorrect := Sodium.symbolic_signCorrect _
  obtain ⟨allowed, hanswer, hiff⟩ :=
    hadmits calls view peer [115] [101] { tier := .certificate } [] rfl rfl
  have hparse : parseCredential text = some ⟨peer.publicKey, [115], 100, issuer.publicKey,
      sign sodium issuer.secretKey
        (credentialSignedBytes peer.publicKey issuer.publicKey [115] 100)⟩ :=
    parseCredential_serializeCredential ⟨List.cons_ne_nil _ _, by decide⟩
  have hgrants : allowed = true := by
    refine hiff.mpr ⟨.addCredential text, by simp [calls], text, List.mem_singleton_self _,
      issuer.publicKey, ⟨.addIssuer issuer.publicKey, by simp [calls], List.mem_singleton_self _⟩,
      _, _, _, hparse, ?_, Or.inr (by decide), Or.inl rfl⟩
    exact hsign issuer _ rfl
  have hunforged : ∀ call ∈ calls, ∀ text' ∈ call.offers, ∀ c, parseCredential text' = some c →
      sodium.Unforged {pk | ∃ call ∈ calls, pk ∈ call.trusts} net.Signed [c.check] := by
    intro call hcall text' htext c hc x hx _ _
    have hcall : call = .addIssuer issuer.publicKey ∨ call = .addCredential text := by
      simpa [calls] using hcall
    rcases hcall with rfl | rfl
    · cases htext
    rw [List.mem_singleton.mp htext, hparse] at hc
    cases hc
    rw [List.mem_singleton.mp hx]
    have hissued : (⟨issuer, peer.publicKey, [115], 100⟩ : IssuedCredential) ∈ net.credentials :=
      List.mem_cons_self
    exact .credential hissued
  subst hgrants
  obtain ⟨c, hc, -, hpeer, hexpires, -⟩ := hsound calls view peer [115] [101]
    { tier := .certificate } [] _ net rfl rfl ⟨nofun, nofun⟩ hunforged hanswer
  have haccepted := (hmade hsign issuer peer.publicKey [115] 100 rfl (by decide) (by decide)).2
  exact ⟨hsign, haccepted, hanswer, c, hc, hpeer, hexpires⟩

end Epx
