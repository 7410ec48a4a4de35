import Epx.Handshake

/-!
# What becomes of a payload on the wire

`put_str8` writes the low byte of a name's size and then the whole name, and the data of a payload
is preceded by the low 32 bits of its size. A receiver cuts the buffer by these lengths. A name of
256 bytes or more is therefore cut short, and what is left of it is read as the fields that follow
the name; data of 4 GiB or more is cut short in the same way.

This file works out what the receiver gets for a name and data of every length, and from it the
exact values that no receiver mistakes for others.

## Main definitions

* `DecodesOnlyTo` — a buffer is rejected or decodes to the value meant
* `spill` — what `get_str8` leaves of a name
* `SpillOverruns` — the spilled bytes spell a length that the buffer does not have

## Main results

* `name_append_iff`, `data_append_iff` — how a receiver cuts a name and the data
* `round_trip_iff` — the requests, chunks and HELLOs that are decoded as themselves or not at all
-/

namespace Epx

open Codec Parse

/-- Decoding `b` gives `v` or nothing. -/
def DecodesOnlyTo {α : Type} (decode : Bytes → Parse α) (b : Bytes) (v : α) : Prop :=
  ∀ v', decode b = accept v' → v' = v

/-- The bytes of a name past the first `size & 0xFF`. -/
def spill (name : Bytes) : Bytes := name.drop (name.length % 256)

/-- The name is too long for its length byte, and the four bytes a receiver takes for the length
of the data announce more bytes than the rest of the name and the data are. -/
def SpillOverruns (name data : Bytes) : Prop :=
  256 ≤ name.length ∧ (spill name).length + data.length < ofBE ((spill name).take 4)

/-! ### Cutting a name -/

theorem spill_eq_nil {name : Bytes} (h : name.length ≤ 255) : spill name = [] := by
  rw [spill, List.drop_eq_nil_iff]
  omega

theorem take_eq_self {name : Bytes} (h : name.length ≤ 255) :
    name.take (name.length % 256) = name := by
  apply List.take_of_length_le
  omega

theorem length_spill (name : Bytes) :
    (spill name).length = name.length - name.length % 256 := by
  rw [spill, List.length_drop]

/-- A receiver takes the first `size & 0xFF` bytes for the name. -/
theorem name_append_iff {name name' t t' : Bytes} :
    (name'.length ≤ 255 ∧ putStr8 name ++ t = nameLayout name' ++ t') ↔
      name' = name.take (name.length % 256) ∧ t' = spill name ++ t := by
  have hlen : (name.take (name.length % 256)).length = name.length % 256 := by
    rw [List.length_take]
    have := Nat.mod_le name.length 256
    omega
  rw [putStr8, nameLayout, toBE_one, List.cons_append, List.cons_append, List.nil_append,
    List.cons_append, List.cons.injEq]
  constructor
  · rintro ⟨hle, hbyte, happ⟩
    have hmod : name.length % 256 = name'.length := by
      have := congrArg UInt8.toNat hbyte
      simp only [UInt8.toNat_ofNat'] at this
      omega
    rw [← List.take_append_drop (name.length % 256) name, List.append_assoc] at happ
    obtain ⟨hname, ht⟩ := List.append_inj happ (by rw [hlen, hmod])
    exact ⟨hname.symm, ht.symm⟩
  · rintro ⟨rfl, rfl⟩
    refine ⟨by omega, ?_, ?_⟩
    · rw [hlen]
      apply UInt8.toNat_inj.mp
      simp
    · rw [spill, ← List.append_assoc, List.take_append_drop]

/-! ### Cutting the data -/

/-- A receiver takes four bytes for the length, and finds that many bytes after them or rejects. -/
theorem data_append_iff {t d t' : Bytes} :
    (d.length < 2 ^ 32 ∧ t = dataLayout d ++ t') ↔
      4 ≤ t.length ∧ ofBE (t.take 4) + 4 ≤ t.length ∧
        d = (t.drop 4).take (ofBE (t.take 4)) ∧ t' = (t.drop 4).drop (ofBE (t.take 4)) := by
  constructor
  · rintro ⟨hlt, rfl⟩
    have htake : (dataLayout d ++ t').take 4 = toBE 4 d.length := by
      rw [dataLayout, List.append_assoc, List.take_left' (length_toBE 4 _)]
    have hdrop : (dataLayout d ++ t').drop 4 = d ++ t' := by
      rw [dataLayout, List.append_assoc, List.drop_left' (length_toBE 4 _)]
    have hof : ofBE (toBE 4 d.length) = d.length := by
      rw [ofBE_toBE]
      exact Nat.mod_eq_of_lt hlt
    rw [htake, hdrop, hof, List.length_append, length_dataLayout]
    exact ⟨by omega, by omega, List.take_left.symm, List.drop_left.symm⟩
  · rintro ⟨h4, hle, rfl, rfl⟩
    have h4' : (t.take 4).length = 4 := by rw [List.length_take]; omega
    have hlt : ofBE (t.take 4) < 2 ^ 32 := by
      have := ofBE_lt (t.take 4)
      rw [h4'] at this
      omega
    have hlen : ((t.drop 4).take (ofBE (t.take 4))).length = ofBE (t.take 4) := by
      rw [List.length_take, List.length_drop]
      omega
    refine ⟨by omega, ?_⟩
    have hBE : toBE 4 (ofBE (t.take 4)) = t.take 4 := by
      have := toBE_ofBE (t.take 4)
      rwa [h4'] at this
    rw [dataLayout, hlen, hBE, List.append_assoc, List.take_append_drop, List.take_append_drop]

theorem take_putData (data : Bytes) : (putData data).take 4 = toBE 4 data.length := by
  have hmod : toBE 4 (data.length % 2 ^ 32) = toBE 4 data.length :=
    toBE_mod _ _ _ (Nat.mod_mod_of_dvd _ (by norm_num))
  rw [putData, putU32_eq, UInt32.toNat_ofNat', hmod, List.take_left' (length_toBE 4 _)]

theorem drop_putData (data : Bytes) : (putData data).drop 4 = data :=
  List.drop_left' rfl

theorem length_putData (data : Bytes) : (putData data).length = 4 + data.length := by
  rw [putData, List.length_append]
  rfl

/-! ### A name followed by data -/

/-- What a receiver makes of a name and data that follow each other. -/
def ReadsBack (name data name' data' : Bytes) : Prop :=
  name'.length ≤ 255 ∧ data'.length < 2 ^ 32 ∧ ∃ trailing,
    putStr8 name ++ putData data = nameLayout name' ++ (dataLayout data' ++ trailing)

theorem readsBack_iff {name data name' data' : Bytes} :
    ReadsBack name data name' data' ↔
      name' = name.take (name.length % 256) ∧ data'.length < 2 ^ 32 ∧ ∃ trailing,
        spill name ++ putData data = dataLayout data' ++ trailing := by
  constructor
  · rintro ⟨hname, hdata, trailing, happ⟩
    obtain ⟨rfl, ht⟩ := name_append_iff.mp ⟨hname, happ⟩
    exact ⟨rfl, hdata, trailing, ht.symm⟩
  · rintro ⟨rfl, hdata, trailing, ht⟩
    obtain ⟨hname, happ⟩ := name_append_iff.mpr ⟨rfl, ht.symm⟩
    exact ⟨hname, hdata, trailing, happ⟩

/-- A name that fits leaves the data its place, and the data is cut at its length modulo `2³²`. -/
theorem readsBack_of_short {name data : Bytes} (h : name.length ≤ 255) {name' data' : Bytes} :
    ReadsBack name data name' data' ↔
      name' = name ∧ data' = data.take (data.length % 2 ^ 32) := by
  have hle := Nat.mod_le data.length (2 ^ 32)
  have hof : ofBE ((putData data).take 4) = data.length % 2 ^ 32 := by
    rw [take_putData, ofBE_toBE]
    rfl
  rw [readsBack_iff, take_eq_self h, spill_eq_nil h, List.nil_append]
  constructor
  · rintro ⟨hname, hdata, trailing, ht⟩
    obtain ⟨-, -, hd, -⟩ := data_append_iff.mp ⟨hdata, ht⟩
    rw [hof, drop_putData] at hd
    exact ⟨hname, hd⟩
  · rintro ⟨hname, hd⟩
    obtain ⟨hdata, ht⟩ := (@data_append_iff (putData data) data'
      (data.drop (data.length % 2 ^ 32))).mpr
      ⟨by rw [length_putData]; omega, by rw [length_putData, hof]; omega,
        by rw [hof, drop_putData, hd], by rw [hof, drop_putData]⟩
    exact ⟨hname, hdata, _, ht⟩

/-- A name that does not fit is rejected only when it overruns. -/
theorem exists_readsBack_of_long {name data : Bytes} (h : 256 ≤ name.length) :
    (∃ name' data', ReadsBack name data name' data') ↔ ¬ SpillOverruns name data := by
  have hspill : 4 ≤ (spill name).length := by
    rw [length_spill]
    have := Nat.mod_lt name.length (show 0 < 256 by omega)
    omega
  have htake : (spill name ++ putData data).take 4 = (spill name).take 4 :=
    List.take_append_of_le_length hspill
  have hlen : (spill name ++ putData data).length = (spill name).length + (4 + data.length) := by
    rw [List.length_append, length_putData]
  constructor
  · rintro ⟨name', data', hread⟩ ⟨-, hover⟩
    obtain ⟨-, hdata, trailing, ht⟩ := readsBack_iff.mp hread
    obtain ⟨-, hle, -⟩ := data_append_iff.mp ⟨hdata, ht⟩
    rw [htake, hlen] at hle
    omega
  · intro hfits
    have hle : ofBE ((spill name).take 4) ≤ (spill name).length + data.length := by
      by_contra hlt
      exact hfits ⟨h, by omega⟩
    obtain ⟨hdata, ht⟩ := (data_append_iff (t := spill name ++ putData data)).mpr
      ⟨by omega, by rw [htake, hlen]; omega, rfl, rfl⟩
    exact ⟨_, _, readsBack_iff.mpr ⟨rfl, hdata, _, ht⟩⟩

/-- **The names and data that survive**: those that fit their length fields, and names so long
and so shaped that the receiver rejects them. -/
theorem readsBack_only_iff {name data : Bytes} :
    (∀ name' data', ReadsBack name data name' data' → name' = name ∧ data' = data) ↔
      (name.length ≤ 255 ∧ data.length < 2 ^ 32) ∨ SpillOverruns name data := by
  by_cases hname : name.length ≤ 255
  · have hnot : ¬ SpillOverruns name data := fun hover => by
      have := hover.1
      omega
    simp only [hname, hnot, true_and, or_false, readsBack_of_short hname]
    constructor
    · intro honly
      obtain ⟨-, hdata⟩ := honly name _ ⟨rfl, rfl⟩
      have hlen := congrArg List.length hdata
      rw [List.length_take] at hlen
      have := Nat.mod_lt data.length (show 0 < 2 ^ 32 by norm_num)
      omega
    · rintro hdata name' data' ⟨rfl, rfl⟩
      exact ⟨rfl, by rw [Nat.mod_eq_of_lt hdata, List.take_length]⟩
  · have hlong : 256 ≤ name.length := by omega
    simp only [hname, false_and, false_or]
    constructor
    · intro honly
      by_contra hfits
      obtain ⟨name', data', hread⟩ := (exists_readsBack_of_long hlong).mpr hfits
      obtain ⟨rfl, -⟩ := honly name' data' hread
      have := hread.1
      omega
    · intro hover name' data' hread
      exact absurd hover ((exists_readsBack_of_long hlong).mp ⟨name', data', hread⟩)

/-! ### Requests and chunks -/

theorem toBE_toNat_inj {n : ℕ} {a b : ℕ} (ha : a < 256 ^ n) (hb : b < 256 ^ n)
    (h : toBE n a = toBE n b) : a = b := by
  have hof := congrArg ofBE h
  rwa [ofBE_toBE, ofBE_toBE, Nat.mod_eq_of_lt ha, Nat.mod_eq_of_lt hb] at hof

theorem isFlag_inj {flag : UInt8} {v v' : Bool} (h : IsFlag flag v) (h' : IsFlag flag v') :
    v' = v := by
  rw [← h.eq_decide, ← h'.eq_decide]

theorem decodeRequest_encodeRequest {v v' : RequestPayload} :
    decodeRequest (encodeRequest v) = accept v' ↔
      v'.requestId = v.requestId ∧ v'.oneway = v.oneway ∧
        ReadsBack v.endpoint v.data v'.endpoint v'.data := by
  have henc : encodeRequest v = toBE 8 v.requestId.toNat ++
      ((if v.oneway then 1 else 0) :: (putStr8 v.endpoint ++ putData v.data)) := by
    simp [encodeRequest, putU64_eq]
  rw [decodeRequest_eq_accept, RequestLayout, henc]
  constructor
  · rintro ⟨hname, hdata, flag, trailing, hflag, happ⟩
    obtain ⟨hid, hrest⟩ := List.append_inj happ (by rw [length_toBE, length_toBE])
    obtain ⟨rfl, htail⟩ := List.cons.inj hrest
    refine ⟨?_, isFlag_inj (isFlag_ite _) hflag, hname, hdata, trailing, htail⟩
    exact UInt64.toNat_inj.mp
      (toBE_toNat_inj v'.requestId.toNat_lt v.requestId.toNat_lt hid.symm)
  · rintro ⟨hid, hflag, hname, hdata, trailing, htail⟩
    refine ⟨hname, hdata, _, trailing, ?_, by rw [hid, htail]⟩
    rw [hflag]
    exact isFlag_ite _

theorem decodeStreamChunk_encodeStreamChunk {v v' : StreamChunkPayload} :
    decodeStreamChunk (encodeStreamChunk v) = accept v' ↔
      v'.requestId = v.requestId ∧ v'.seq = v.seq ∧ v'.isLast = v.isLast ∧
        ReadsBack v.endpoint v.data v'.endpoint v'.data := by
  have henc : encodeStreamChunk v = toBE 8 v.requestId.toNat ++ (toBE 4 v.seq.toNat ++
      ((if v.isLast then 1 else 0) :: (putStr8 v.endpoint ++ putData v.data))) := by
    simp [encodeStreamChunk, putU64_eq, putU32_eq]
  rw [decodeStreamChunk_eq_accept, StreamChunkLayout, henc]
  constructor
  · rintro ⟨hname, hdata, flag, trailing, hflag, happ⟩
    obtain ⟨hid, hrest⟩ := List.append_inj happ (by rw [length_toBE, length_toBE])
    obtain ⟨hseq, hrest⟩ := List.append_inj hrest (by rw [length_toBE, length_toBE])
    obtain ⟨rfl, htail⟩ := List.cons.inj hrest
    refine ⟨?_, ?_, isFlag_inj (isFlag_ite _) hflag, hname, hdata, trailing, htail⟩
    · exact UInt64.toNat_inj.mp
        (toBE_toNat_inj v'.requestId.toNat_lt v.requestId.toNat_lt hid.symm)
    · exact UInt32.toNat_inj.mp (toBE_toNat_inj v'.seq.toNat_lt v.seq.toNat_lt hseq.symm)
  · rintro ⟨hid, hseq, hflag, hname, hdata, trailing, htail⟩
    refine ⟨hname, hdata, _, trailing, ?_, by rw [hid, hseq, htail]⟩
    rw [hflag]
    exact isFlag_ite _

theorem request_only_iff (v : RequestPayload) :
    DecodesOnlyTo decodeRequest (encodeRequest v) v ↔
      v.Encodable ∨ SpillOverruns v.endpoint v.data := by
  refine Iff.trans ?_ readsBack_only_iff
  constructor
  · intro honly name' data' hread
    have heq := honly { v with endpoint := name', data := data' }
      (decodeRequest_encodeRequest.mpr ⟨rfl, rfl, hread⟩)
    exact ⟨congrArg RequestPayload.endpoint heq, congrArg RequestPayload.data heq⟩
  · rintro honly ⟨id', oneway', name', data'⟩ hdec
    obtain ⟨rfl, rfl, hread⟩ := decodeRequest_encodeRequest.mp hdec
    obtain ⟨rfl, rfl⟩ := honly _ _ hread
    rfl

theorem streamChunk_only_iff (v : StreamChunkPayload) :
    DecodesOnlyTo decodeStreamChunk (encodeStreamChunk v) v ↔
      v.Encodable ∨ SpillOverruns v.endpoint v.data := by
  refine Iff.trans ?_ readsBack_only_iff
  constructor
  · intro honly name' data' hread
    have heq := honly { v with endpoint := name', data := data' }
      (decodeStreamChunk_encodeStreamChunk.mpr ⟨rfl, rfl, rfl, hread⟩)
    exact ⟨congrArg StreamChunkPayload.endpoint heq, congrArg StreamChunkPayload.data heq⟩
  · rintro honly ⟨id', seq', last', name', data'⟩ hdec
    obtain ⟨rfl, rfl, rfl, hread⟩ := decodeStreamChunk_encodeStreamChunk.mp hdec
    obtain ⟨rfl, rfl⟩ := honly _ _ hread
    rfl

/-! ### HELLOs

The extension is read from whatever follows the signature, so a HELLO is never rejected for its
name: a long one always turns into another. -/

theorem exists_extensionLayout (b : Bytes) : ∃ m s e, ExtensionLayout b m s e := by
  by_cases h : b.length < 65
  · exact ⟨1, Block.zero 64, false, Or.inr ⟨rfl, rfl, rfl, h⟩⟩
  · match b with
    | [] => simp at h
    | m :: t =>
      obtain ⟨s, trailing, rfl⟩ := @exists_block_append 64 t (by simp at h; omega)
      exact ⟨m, s, true, Or.inl ⟨rfl, trailing, rfl⟩⟩

/-- The extension an encoder writes is the one a decoder reads. -/
theorem extensionLayout_putExtension_iff {m m' : UInt8} {s s' : Block 64} {e : Bool} :
    ExtensionLayout (putExtension m s) m' s' e ↔
      e = decide (2 ≤ m) ∧ m' = (if 2 ≤ m then m else 1) ∧
        s' = (if 2 ≤ m then s else Block.zero 64) := by
  by_cases h2 : 2 ≤ m
  · have hput : putExtension m s = m :: s.val := by rw [putExtension, if_pos h2]
    rw [hput, if_pos h2, if_pos h2, decide_eq_true h2, ExtensionLayout]
    constructor
    · rintro (⟨rfl, trailing, happ⟩ | ⟨-, -, -, hlt⟩)
      · obtain ⟨rfl, htail⟩ := List.cons.inj happ
        rw [← List.append_nil s.val] at htail
        exact ⟨rfl, rfl, (block_append_inj htail).1.symm⟩
      · simp at hlt
    · rintro ⟨rfl, rfl, rfl⟩
      exact Or.inl ⟨rfl, [], by simp⟩
  · have hput : putExtension m s = [] := by rw [putExtension, if_neg h2]
    rw [hput, if_neg h2, if_neg h2, decide_eq_false h2, ExtensionLayout]
    constructor
    · rintro (⟨-, trailing, happ⟩ | ⟨rfl, rfl, rfl, -⟩)
      · cases happ
      · exact ⟨rfl, rfl, rfl⟩
    · rintro ⟨rfl, rfl, rfl⟩
      exact Or.inr ⟨rfl, rfl, rfl, by simp⟩

theorem decodeHello_encodeHello {h h' : HelloPayload} :
    decodeHello (encodeHello h) = accept h' ↔
      h'.version = h.version ∧ h'.identityPubkey = h.identityPubkey ∧
        h'.ephemeralPubkey = h.ephemeralPubkey ∧ h'.clientNonce = h.clientNonce ∧
        h'.serviceName = h.serviceName.take (h.serviceName.length % 256) ∧
        ∃ rest, ExtensionLayout rest h'.maxVersion h'.signatureV2 h'.hasV2Extension ∧
          spill h.serviceName ++ (h.signature.val ++ putExtension h.maxVersion h.signatureV2)
            = h'.signature.val ++ rest := by
  have henc : encodeHello h = h.version :: (h.identityPubkey.val ++ (h.ephemeralPubkey.val ++
      (h.clientNonce.val ++ (putStr8 h.serviceName ++ (h.signature.val ++
        putExtension h.maxVersion h.signatureV2))))) := by
    simp [encodeHello]
  rw [decodeHello_eq_accept, HelloLayout, henc]
  constructor
  · rintro ⟨hname, rest, hext, happ⟩
    obtain ⟨hversion, happ⟩ := List.cons.inj happ
    obtain ⟨hid, happ⟩ := block_append_inj happ
    obtain ⟨heph, happ⟩ := block_append_inj happ
    obtain ⟨hnonce, happ⟩ := block_append_inj happ
    obtain ⟨hservice, happ⟩ := name_append_iff.mp ⟨hname, happ⟩
    exact ⟨hversion.symm, hid.symm, heph.symm, hnonce.symm, hservice, rest, hext, happ.symm⟩
  · rintro ⟨hversion, hid, heph, hnonce, hservice, rest, hext, happ⟩
    obtain ⟨hname, happ⟩ := name_append_iff.mpr ⟨hservice, happ.symm⟩
    exact ⟨hname, rest, hext, by rw [hversion, hid, heph, hnonce, happ]⟩

/-- With a name that fits, everything is read back; the extension of a version below 2 is not
sent, and its fields keep the decoder's presets. -/
theorem decodeHello_of_short {h h' : HelloPayload} (hname : h.serviceName.length ≤ 255) :
    decodeHello (encodeHello h) = accept h' ↔
      h' = { h with
        maxVersion := if 2 ≤ h.maxVersion then h.maxVersion else 1
        signatureV2 := if 2 ≤ h.maxVersion then h.signatureV2 else Block.zero 64
        hasV2Extension := decide (2 ≤ h.maxVersion) } := by
  rw [decodeHello_encodeHello, spill_eq_nil hname, take_eq_self hname, List.nil_append]
  constructor
  · obtain ⟨version', id', eph', nonce', name', sig', m', s', e'⟩ := h'
    rintro ⟨rfl, rfl, rfl, rfl, rfl, rest, hext, happ⟩
    obtain ⟨rfl, rfl⟩ := block_append_inj happ
    obtain ⟨rfl, rfl, rfl⟩ := extensionLayout_putExtension_iff.mp hext
    rfl
  · rintro rfl
    refine ⟨rfl, rfl, rfl, rfl, rfl, _, ?_, rfl⟩
    exact extensionLayout_putExtension_iff.mpr ⟨rfl, rfl, rfl⟩

/-- With a name that does not fit, the HELLO is still decoded, under a shorter name. -/
theorem exists_decodeHello_of_long {h : HelloPayload} (hname : 256 ≤ h.serviceName.length) :
    ∃ h', decodeHello (encodeHello h) = accept h' ∧ h'.serviceName ≠ h.serviceName := by
  have hspill : 64 ≤ (spill h.serviceName).length := by
    rw [length_spill]
    have := Nat.mod_lt h.serviceName.length (show 0 < 256 by omega)
    omega
  obtain ⟨sig, rest, happ⟩ := @exists_block_append 64
    (spill h.serviceName ++ (h.signature.val ++ putExtension h.maxVersion h.signatureV2))
    (by rw [List.length_append]; omega)
  obtain ⟨m, s, e, hext⟩ := exists_extensionLayout rest
  refine ⟨{ h with
    serviceName := h.serviceName.take (h.serviceName.length % 256)
    signature := sig, maxVersion := m, signatureV2 := s, hasV2Extension := e },
    decodeHello_encodeHello.mpr ⟨rfl, rfl, rfl, rfl, rfl, rest, hext, happ⟩, ?_⟩
  intro heq
  have hlen := congrArg List.length heq
  simp only [List.length_take] at hlen
  have := Nat.mod_lt h.serviceName.length (show 0 < 256 by omega)
  omega

/-- The HELLO of a client run as its receiver is to see it: `has_v2_extension` is set by the
decoder and says that the extension was there. -/
def ClientRun.sentHello (S : Sodium) (c : ClientRun) : HelloPayload :=
  { c.hello S with hasV2Extension := decide (2 ≤ c.myMax) }

theorem hello_only_iff (S : Sodium) (c : ClientRun) :
    DecodesOnlyTo decodeHello (encodeHello (c.hello S)) (c.sentHello S) ↔
      c.target.length ≤ 255 ∧ c.myMax ≠ 0 := by
  constructor
  · intro honly
    have hname : c.target.length ≤ 255 := by
      by_contra hlong
      obtain ⟨h', hdec, hne⟩ := exists_decodeHello_of_long (h := c.hello S)
        (show 256 ≤ c.target.length by omega)
      rw [honly h' hdec] at hne
      exact hne rfl
    refine ⟨hname, ?_⟩
    have hmax := congrArg HelloPayload.maxVersion
      (honly _ ((decodeHello_of_short (h := c.hello S) hname).mpr rfl))
    intro hzero
    simp [ClientRun.sentHello, ClientRun.hello, hzero] at hmax
  · rintro ⟨hname, hmax⟩ h' hdec
    rw [(decodeHello_of_short (h := c.hello S) hname).mp hdec]
    by_cases h2 : 2 ≤ c.myMax
    · simp [ClientRun.sentHello, ClientRun.hello, h2]
    · have hone : c.myMax = 1 := by
        have hlt : c.myMax.toNat < 2 := UInt8.not_le.mp h2
        have hpos : c.myMax.toNat ≠ 0 := fun hz => hmax (UInt8.toNat_inj.mp hz)
        exact UInt8.toNat_inj.mp (show c.myMax.toNat = 1 by omega)
      simp [ClientRun.sentHello, ClientRun.hello, hone]

/-- **Which payloads the wire turns into others.** A request or a chunk is decoded as itself or
not at all exactly when its name and its data fit their length fields, or its name is too long and
spells a data length that the buffer does not have. A client's HELLO is decoded as itself exactly
when its service name fits, given that it advertises some version. -/
theorem round_trip_iff (r : RequestPayload) (k : StreamChunkPayload) (S : Sodium) (c : ClientRun) :
    (DecodesOnlyTo decodeRequest (encodeRequest r) r ↔
      (r.endpoint.length ≤ 255 ∧ r.data.length < 2 ^ 32) ∨ SpillOverruns r.endpoint r.data) ∧
    (DecodesOnlyTo decodeStreamChunk (encodeStreamChunk k) k ↔
      (k.endpoint.length ≤ 255 ∧ k.data.length < 2 ^ 32) ∨ SpillOverruns k.endpoint k.data) ∧
    (DecodesOnlyTo decodeHello (encodeHello (c.hello S)) (c.sentHello S) ↔
      c.target.length ≤ 255 ∧ c.myMax ≠ 0) :=
  ⟨request_only_iff r, streamChunk_only_iff k, hello_only_iff S c⟩

/-- A request for an endpoint that nobody exposes is decoded as one for `echo`: the 260 bytes of
its name are cut after four, and the zero bytes that follow spell an empty data. -/
theorem request_for_another_endpoint :
    let named := tagBytes ['e', 'c', 'h', 'o'] ++ List.replicate 256 0
    let v : RequestPayload := { requestId := 7, endpoint := named, data := [1, 2, 3] }
    decodeRequest (encodeRequest v) =
        accept { requestId := 7, endpoint := tagBytes ['e', 'c', 'h', 'o'], data := [] } ∧
      ¬ DecodesOnlyTo decodeRequest (encodeRequest v) v := by
  intro named v
  have hdec : decodeRequest (encodeRequest v) =
      accept { requestId := 7, endpoint := tagBytes ['e', 'c', 'h', 'o'], data := [] } := by
    decide +kernel
  refine ⟨hdec, fun honly => ?_⟩
  have hdata := congrArg RequestPayload.data (honly _ hdec)
  simp [v] at hdata

end Epx
