import Epx.Lib.Bytes

/-!
# Bounds-checked reading from a buffer

A hand-written decoder reads a buffer by index: it keeps a running offset, checks it against the
buffer's length before some of the reads, and gives up by returning failure. Two different things
can go wrong, and they must not be confused: the decoder may *reject*, which is an answer, or it
may read *outside the buffer*, which is a bug. `Parse` keeps the two apart, so "never reads out
of bounds" is a statement about a decoder rather than an assumption built into it.

## Offsets and suffixes

`At b off t` says that `off` is a position inside `b` and `t` is what follows it. Every read is
specified against the suffix: at a position where `t` follows, reading `n` bytes succeeds exactly
when `t` is those `n` bytes and a remainder. Grammars are then read off a decoder one field at a
time, without arithmetic on offsets.

## Main definitions

* `Codec.Parse` — the outcome of a decoder: out of bounds, rejected, or accepted
* `Codec.byteAt`, `blockAt`, `bytesAt` — the reads
* `Codec.At` — the suffix of a buffer at an offset
* `Codec.DecodesExactly` — a decoder, its encoder and the grammar they implement

## Main results

* `Codec.Parse.bind_eq_accept` — a sequence accepts iff each of its parts does
* `Codec.byteAt_eq_accept`, `blockAt_eq_accept`, `bytesAt_eq_accept` — the reads, on suffixes
-/

namespace Codec

/-- The outcome of running a decoder on a buffer. -/
inductive Parse (α : Type) where
  /-- The decoder read outside the buffer. -/
  | oob
  /-- The decoder reported failure. -/
  | reject
  /-- The decoder reported success. -/
  | accept (a : α)
  deriving DecidableEq

namespace Parse

variable {α β : Type}

/-- Sequencing: the first outcome that is not a success is the outcome of the whole. -/
protected def bind : Parse α → (α → Parse β) → Parse β
  | oob, _ => oob
  | reject, _ => reject
  | accept a, f => f a

instance : Monad Parse where
  pure := accept
  bind := Parse.bind

@[simp] theorem pure_eq (a : α) : (pure a : Parse α) = accept a := rfl

@[simp] theorem accept_bind (a : α) (f : α → Parse β) : (accept a >>= f) = f a := rfl

@[simp] theorem reject_bind (f : α → Parse β) : ((reject : Parse α) >>= f) = reject := rfl

@[simp] theorem oob_bind (f : α → Parse β) : ((oob : Parse α) >>= f) = oob := rfl

theorem bind_eq_accept {p : Parse α} {f : α → Parse β} {v : β} :
    (p >>= f) = accept v ↔ ∃ a, p = accept a ∧ f a = accept v := by
  cases p <;> simp

theorem bind_ne_oob {p : Parse α} {f : α → Parse β} (hp : p ≠ oob)
    (hf : ∀ a, p = accept a → f a ≠ oob) : (p >>= f) ≠ oob := by
  cases p with
  | oob => exact absurd rfl hp
  | reject => simp
  | accept a => simpa using hf a rfl

/-- Give up unless `c` holds: the `if (!c) return false;` of a decoder. -/
def require (c : Prop) [Decidable c] : Parse Unit := if c then accept () else reject

@[simp] theorem require_eq_accept {c : Prop} [Decidable c] {u : Unit} :
    require c = accept u ↔ c := by
  by_cases h : c <;> simp [require, h]

theorem require_ne_oob (c : Prop) [Decidable c] : require c ≠ oob := by
  by_cases h : c <;> simp [require, h]

end Parse

/-! ### The reads -/

/-- The byte at index `i`. -/
def byteAt (b : Bytes) (i : ℕ) : Parse UInt8 :=
  match b[i]? with
  | some x => .accept x
  | none => .oob

/-- The `n` bytes that start at `off`, as a fixed-length block. -/
def blockAt (b : Bytes) (off n : ℕ) : Parse (Block n) :=
  if h : off + n ≤ b.length then
    .accept ⟨(b.drop off).take n, by rw [List.length_take, List.length_drop]; omega⟩
  else .oob

/-- The `n` bytes that start at `off`, for an `n` that was itself read. -/
def bytesAt (b : Bytes) (off n : ℕ) : Parse Bytes :=
  if off + n ≤ b.length then .accept ((b.drop off).take n) else .oob

theorem byteAt_ne_oob {b : Bytes} {i : ℕ} (h : i < b.length) : byteAt b i ≠ .oob := by
  simp [byteAt, List.getElem?_eq_getElem h]

theorem blockAt_ne_oob {b : Bytes} {off n : ℕ} (h : off + n ≤ b.length) :
    blockAt b off n ≠ .oob := by
  simp [blockAt, h]

theorem bytesAt_ne_oob {b : Bytes} {off n : ℕ} (h : off + n ≤ b.length) :
    bytesAt b off n ≠ .oob := by
  simp [bytesAt, h]

/-! ### Suffixes -/

/-- `off` is a position in `b`, and `t` is what follows it. -/
def At (b : Bytes) (off : ℕ) (t : Bytes) : Prop := ∃ p : Bytes, b = p ++ t ∧ p.length = off

theorem At.start {b t : Bytes} (h : b = t) : At b 0 t := ⟨[], h, rfl⟩

theorem At.length_eq {b t : Bytes} {off : ℕ} (h : At b off t) : b.length = off + t.length := by
  obtain ⟨p, rfl, rfl⟩ := h
  simp

theorem At.drop {b t : Bytes} {off : ℕ} (h : At b off t) : b.drop off = t := by
  obtain ⟨p, rfl, rfl⟩ := h
  simp

/-- Moving past what has been read. -/
theorem At.advance {b x t : Bytes} {off n : ℕ} (h : At b off (x ++ t)) (hx : x.length = n) :
    At b (off + n) t := by
  obtain ⟨p, rfl, rfl⟩ := h
  exact ⟨p ++ x, by simp, by simp [hx]⟩

theorem At.advance_block {b t : Bytes} {off n : ℕ} {x : Block n} (h : At b off (x.val ++ t)) :
    At b (off + n) t :=
  h.advance x.length_val

theorem At.advance_byte {b t : Bytes} {off : ℕ} {x : UInt8} (h : At b off (x :: t)) :
    At b (off + 1) t :=
  At.advance (x := [x]) h rfl

theorem byteAt_eq_accept {b t : Bytes} {off : ℕ} (h : At b off t) {x : UInt8} :
    byteAt b off = .accept x ↔ ∃ t', t = x :: t' := by
  obtain ⟨p, rfl, rfl⟩ := h
  cases t with
  | nil => simp [byteAt]
  | cons y t => simp [byteAt]

theorem bytesAt_eq_accept {b t : Bytes} {off n : ℕ} (h : At b off t) {x : Bytes} :
    bytesAt b off n = .accept x ↔ x.length = n ∧ ∃ t', t = x ++ t' := by
  have hlen := h.length_eq
  rw [bytesAt, h.drop]
  split
  · next hle =>
    rw [Parse.accept.injEq]
    constructor
    · rintro rfl
      exact ⟨by rw [List.length_take]; omega, t.drop n, (List.take_append_drop n t).symm⟩
    · rintro ⟨rfl, t', rfl⟩
      simp
  · next hle =>
    constructor
    · intro hc
      cases hc
    · rintro ⟨rfl, t', rfl⟩
      rw [List.length_append] at hlen
      omega

theorem blockAt_eq_accept {b t : Bytes} {off n : ℕ} (h : At b off t) {x : Block n} :
    blockAt b off n = .accept x ↔ ∃ t', t = x.val ++ t' := by
  have key : blockAt b off n = .accept x ↔ bytesAt b off n = .accept x.val := by
    rw [blockAt, bytesAt]
    split
    · rw [Parse.accept.injEq, Parse.accept.injEq]
      exact ⟨fun hx => congrArg Block.val hx, fun hx => Block.ext hx⟩
    · simp
  rw [key, bytesAt_eq_accept h]
  simp

/-! ### Decoders and grammars -/

/-- `decode` accepts exactly the buffers `Layout` describes, stays inside every buffer it is
given, and inverts `encode` on the values `Encodable` admits. -/
structure DecodesExactly {α : Type} (decode : Bytes → Parse α) (encode : α → Bytes)
    (Layout : Bytes → α → Prop) (Encodable : α → Prop) : Prop where
  /-- The decoder returns `v` iff the buffer is a layout of `v`. -/
  accept_iff : ∀ b v, decode b = .accept v ↔ Layout b v
  /-- No read leaves the buffer. -/
  in_bounds : ∀ b, decode b ≠ .oob
  /-- Decoding inverts encoding. -/
  decode_encode : ∀ v, Encodable v → decode (encode v) = .accept v

/-- It is enough that encodings are layouts. -/
theorem DecodesExactly.of_layout {α : Type} {decode : Bytes → Parse α} {encode : α → Bytes}
    {Layout : Bytes → α → Prop} {Encodable : α → Prop}
    (hiff : ∀ {b v}, decode b = .accept v ↔ Layout b v) (hoob : ∀ b, decode b ≠ .oob)
    (henc : ∀ v, Encodable v → Layout (encode v) v) :
    DecodesExactly decode encode Layout Encodable :=
  ⟨fun _ _ => hiff, hoob, fun v hv => hiff.mpr (henc v hv)⟩

end Codec
