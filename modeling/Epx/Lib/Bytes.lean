import Mathlib.Data.List.Basic
import Mathlib.Data.Nat.Bitwise
import Mathlib.Tactic.Ring

/-!
# Byte strings, fixed-length blocks and big-endian integers

The vocabulary every wire format is written in. A byte string is a list of bytes; a `Block n` is
a byte string that carries the proof that it is `n` bytes long, so a field of a fixed width
cannot be built with any other; an unsigned integer travels as its big-endian bytes.

## Main definitions

* `Codec.Block` — a byte string of a fixed length
* `Codec.toBE`, `Codec.ofBE` — an integer as big-endian bytes, and back

## Main results

* `Codec.ofBE_toBE`, `toBE_ofBE` — the two are inverse
* `Codec.block_append_inj` — a fixed-length prefix can be cancelled
-/

namespace Codec

/-- A byte string. -/
abbrev Bytes := List UInt8

/-! ### Blocks -/

/-- A byte string of exactly `n` bytes. -/
structure Block (n : ℕ) where
  /-- The bytes. -/
  val : Bytes
  /-- There are `n` of them. -/
  length_val : val.length = n
  deriving DecidableEq

namespace Block

variable {n : ℕ}

instance : CoeOut (Block n) Bytes := ⟨Block.val⟩

attribute [simp] length_val

@[ext] theorem ext {x y : Block n} (h : x.val = y.val) : x = y := by
  cases x
  cases y
  cases h
  rfl

/-- A block of one byte repeated. -/
def fill (n : ℕ) (b : UInt8) : Block n := ⟨List.replicate n b, List.length_replicate⟩

/-- The all-zero block, which is what a default-initialised array holds. -/
def zero (n : ℕ) : Block n := fill n 0

instance : Inhabited (Block n) := ⟨zero n⟩

end Block

/-- Two byte strings that start with blocks of one length agree only if the blocks do. -/
theorem block_append_inj {n : ℕ} {x y : Block n} {s t : Bytes}
    (h : x.val ++ s = y.val ++ t) : x = y ∧ s = t := by
  obtain ⟨hx, hs⟩ := List.append_inj h (by simp)
  exact ⟨Block.ext hx, hs⟩

/-- Every byte string of at least `n` bytes starts with a block of `n` bytes. -/
theorem exists_block_append {n : ℕ} {bs : Bytes} (h : n ≤ bs.length) :
    ∃ (x : Block n) (t : Bytes), bs = x.val ++ t := by
  refine ⟨⟨bs.take n, by simpa using h⟩, bs.drop n, ?_⟩
  exact (List.take_append_drop n bs).symm

/-! ### Big-endian integers -/

/-- The `n` low bytes of `v`, most significant first. -/
def toBE : ℕ → ℕ → Bytes
  | 0, _ => []
  | n + 1, v => UInt8.ofNat (v >>> (8 * n)) :: toBE n v

/-- The integer a byte string spells, most significant byte first. -/
def ofBE (bs : Bytes) : ℕ := bs.foldl (fun v b => v * 256 + b.toNat) 0

@[simp] theorem length_toBE (n v : ℕ) : (toBE n v).length = n := by
  induction n with
  | zero => rfl
  | succ n ih => simp [toBE, ih]

theorem foldl_ofBE (bs : Bytes) (acc : ℕ) :
    bs.foldl (fun v b => v * 256 + b.toNat) acc = acc * 256 ^ bs.length + ofBE bs := by
  induction bs generalizing acc with
  | nil => simp [ofBE]
  | cons b bs ih =>
    have hcons : ofBE (b :: bs) = b.toNat * 256 ^ bs.length + ofBE bs := by
      rw [ofBE, List.foldl_cons, ih]
      simp
    rw [List.foldl_cons, ih, hcons, List.length_cons, pow_succ]
    ring

theorem ofBE_cons (b : UInt8) (bs : Bytes) :
    ofBE (b :: bs) = b.toNat * 256 ^ bs.length + ofBE bs := by
  rw [ofBE, List.foldl_cons, foldl_ofBE]
  simp

theorem ofBE_lt (bs : Bytes) : ofBE bs < 256 ^ bs.length := by
  induction bs with
  | nil => simp [ofBE]
  | cons b bs ih =>
    have hb : b.toNat < 256 := b.toNat_lt
    calc ofBE (b :: bs) = b.toNat * 256 ^ bs.length + ofBE bs := ofBE_cons b bs
      _ < b.toNat * 256 ^ bs.length + 256 ^ bs.length := by omega
      _ = (b.toNat + 1) * 256 ^ bs.length := by ring
      _ ≤ 256 * 256 ^ bs.length := Nat.mul_le_mul_right _ hb
      _ = 256 ^ (b :: bs).length := by rw [List.length_cons, pow_succ, Nat.mul_comm]

/-- Only the low `n` bytes of the value matter. -/
theorem toBE_mod (n v w : ℕ) (h : v % 256 ^ n = w % 256 ^ n) : toBE n v = toBE n w := by
  induction n with
  | zero => rfl
  | succ n ih =>
    have hpow :
      ∀ x : ℕ, UInt8.ofNat (x >>> (8 * n)) = UInt8.ofNat (x % 256 ^ (n + 1) / 256 ^ n) := by
      intro x
      apply UInt8.toNat_inj.mp
      rw [Nat.shiftRight_eq_div_pow, show 2 ^ (8 * n) = 256 ^ n by rw [pow_mul]; norm_num, pow_succ,
        Nat.mod_mul_right_div_self]
      simp
    have hlow : v % 256 ^ n = w % 256 ^ n := by
      rw [← Nat.mod_mod_of_dvd v (pow_dvd_pow 256 (Nat.le_succ n)), h,
        Nat.mod_mod_of_dvd w (pow_dvd_pow 256 (Nat.le_succ n))]
    rw [toBE, toBE, hpow v, hpow w, h, ih hlow]

theorem ofBE_toBE (n v : ℕ) : ofBE (toBE n v) = v % 256 ^ n := by
  induction n with
  | zero => simp [toBE, ofBE, Nat.mod_one]
  | succ n ih =>
    have hbyte : (UInt8.ofNat (v >>> (8 * n))).toNat = v / 256 ^ n % 256 := by
      rw [Nat.shiftRight_eq_div_pow, show 2 ^ (8 * n) = 256 ^ n by rw [pow_mul]; norm_num]
      simp
    rw [toBE, ofBE_cons, ih, length_toBE, hbyte, pow_succ, Nat.mod_mul]
    ring

theorem toBE_ofBE (bs : Bytes) : toBE bs.length (ofBE bs) = bs := by
  induction bs with
  | nil => rfl
  | cons b bs ih =>
    have hlt : ofBE bs < 256 ^ bs.length := ofBE_lt bs
    have hhead : UInt8.ofNat (ofBE (b :: bs) >>> (8 * bs.length)) = b := by
      rw [Nat.shiftRight_eq_div_pow, show 2 ^ (8 * bs.length) = 256 ^ bs.length by
        rw [pow_mul]; norm_num, ofBE_cons, Nat.add_comm,
        Nat.add_mul_div_right _ _ (Nat.pow_pos (by norm_num)), Nat.div_eq_of_lt hlt, Nat.zero_add]
      simp
    have htail : toBE bs.length (ofBE (b :: bs)) = toBE bs.length (ofBE bs) := by
      apply toBE_mod
      rw [ofBE_cons, Nat.mul_comm, Nat.mul_add_mod]
    rw [List.length_cons, toBE, hhead, htail, ih]

/-- A byte string of `n` bytes is the big-endian spelling of exactly one number below `256 ^ n`. -/
theorem eq_toBE_iff {n v : ℕ} {bs : Bytes} (hv : v < 256 ^ n) :
    bs = toBE n v ↔ bs.length = n ∧ ofBE bs = v := by
  constructor
  · rintro rfl
    exact ⟨length_toBE n v, by rw [ofBE_toBE, Nat.mod_eq_of_lt hv]⟩
  · rintro ⟨rfl, rfl⟩
    exact (toBE_ofBE bs).symm

end Codec
