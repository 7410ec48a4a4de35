import Epx.Lib.Bytes
import Mathlib.Data.Int.Basic
import Mathlib.Data.List.TakeWhile

/-!
# Text of lines, numbers and hexadecimal bytes

Files made of lines, each ended by a line feed, with numbers in decimal and byte strings in
hexadecimal. A line that is written without a line feed in it is read back as it was, whatever
follows; a number that is written in decimal is read back by a reader that skips blanks, takes a
sign and stops at the first byte that is not a digit; a block of bytes is read back from its digits.

## Main definitions

* `pieces`, `lines` — the lines of a text, the last one also without its line feed
* `cut`, `cutLast` — a text up to a separator and after it
* `decimal`, `strtol`
* `toHex`, `fromHex`

## Main results

* `lines_line`, `lines_flatMap`, `lines_append`
* `strtol_decimal`
* `fromHex_toHex`
-/

namespace Text

open Codec

/-! ### Lines -/

/-- The byte that ends a line. -/
def lineFeed : UInt8 := 10

/-- The pieces of a text that `sep` ends, the last one also without it; `cur` has been read. -/
def piecesFrom (sep : UInt8) (cur : Bytes) : Bytes → List Bytes
  | [] => if cur = [] then [] else [cur]
  | b :: t => if b = sep then cur :: piecesFrom sep [] t else piecesFrom sep (cur ++ [b]) t

def pieces (sep : UInt8) (t : Bytes) : List Bytes := piecesFrom sep [] t

def lines (t : Bytes) : List Bytes := pieces lineFeed t

theorem piecesFrom_append {sep : UInt8} {cur l : Bytes} (t : Bytes) (hl : sep ∉ l) :
    piecesFrom sep cur (l ++ sep :: t) = (cur ++ l) :: pieces sep t := by
  induction l generalizing cur with
  | nil =>
    rw [List.nil_append, piecesFrom, if_pos rfl, List.append_nil]
    rfl
  | cons b l ih =>
    have hb : b ≠ sep := fun heq => hl (heq ▸ List.mem_cons_self)
    rw [List.cons_append, piecesFrom, if_neg hb, ih fun hmem => hl (List.mem_cons_of_mem _ hmem)]
    rw [List.append_assoc]
    rfl

theorem piecesFrom_end {sep : UInt8} {cur l : Bytes} (hl : sep ∉ l) :
    piecesFrom sep cur l = if cur ++ l = [] then [] else [cur ++ l] := by
  induction l generalizing cur with
  | nil =>
    rw [piecesFrom, List.append_nil]
  | cons b l ih =>
    have hb : b ≠ sep := fun heq => hl (heq ▸ List.mem_cons_self)
    rw [piecesFrom, if_neg hb, ih fun hmem => hl (List.mem_cons_of_mem _ hmem), List.append_assoc]
    rfl

/-- A line is read as it was written. -/
theorem lines_line {l : Bytes} (t : Bytes) (hl : lineFeed ∉ l) :
    lines (l ++ lineFeed :: t) = l :: lines t :=
  piecesFrom_append t hl

/-- Lines are read as they were written. -/
theorem lines_flatMap {α : Type*} (f : α → Bytes) (xs : List α) (hf : ∀ x ∈ xs, lineFeed ∉ f x) :
    lines (xs.flatMap fun x => f x ++ [lineFeed]) = xs.map f := by
  induction xs with
  | nil => rfl
  | cons x xs ih =>
    rw [List.flatMap_cons, List.append_assoc, List.singleton_append,
      lines_line _ (hf x List.mem_cons_self), ih fun y hy => hf y (List.mem_cons_of_mem _ hy)]
    rfl

/-- Nothing stands between the last line feed of a text and its end. -/
def AtLineStart (t : Bytes) : Prop := t = [] ∨ t.getLast? = some lineFeed

instance (t : Bytes) : Decidable (AtLineStart t) := inferInstanceAs (Decidable (_ ∨ _))

theorem piecesFrom_append_sep (sep : UInt8) (cur s t : Bytes) :
    piecesFrom sep cur (s ++ sep :: t) = piecesFrom sep cur (s ++ [sep]) ++ pieces sep t := by
  induction s generalizing cur with
  | nil =>
    rw [List.nil_append, List.nil_append, piecesFrom, piecesFrom, if_pos rfl, if_pos rfl]
    rfl
  | cons b s ih =>
    rw [List.cons_append, List.cons_append, piecesFrom, piecesFrom]
    by_cases hb : b = sep
    · rw [if_pos hb, if_pos hb, ih, List.cons_append]
    · rw [if_neg hb, if_neg hb, ih]

/-- What is appended at the start of a line is read after what was there. -/
theorem lines_append {s : Bytes} (hs : AtLineStart s) (t : Bytes) :
    lines (s ++ t) = lines s ++ lines t := by
  rcases hs with rfl | hlast
  · rfl
  · obtain ⟨l, rfl⟩ := List.getLast?_eq_some_iff.mp hlast
    rw [List.append_assoc, List.singleton_append]
    exact piecesFrom_append_sep lineFeed [] l t

/-- A text up to the first `sep`, and what follows it. -/
def cut (sep : UInt8) : Bytes → Option (Bytes × Bytes)
  | [] => none
  | b :: t =>
    if b = sep then some ([], t)
    else (cut sep t).map fun p => (b :: p.1, p.2)

theorem cut_append {sep : UInt8} {k v : Bytes} (hk : sep ∉ k) :
    cut sep (k ++ sep :: v) = some (k, v) := by
  induction k with
  | nil =>
    rw [List.nil_append, cut, if_pos rfl]
  | cons b k ih =>
    have hb : b ≠ sep := fun heq => hk (heq ▸ List.mem_cons_self)
    rw [List.cons_append, cut, if_neg hb, ih fun hmem => hk (List.mem_cons_of_mem _ hmem)]
    rfl

theorem eq_of_cut {sep : UInt8} {t k v : Bytes} (h : cut sep t = some (k, v)) :
    t = k ++ sep :: v := by
  induction t generalizing k with
  | nil => cases h
  | cons b t ih =>
    rw [cut] at h
    by_cases hb : b = sep
    · rw [if_pos hb] at h
      cases h
      rw [hb]
      rfl
    · rw [if_neg hb] at h
      obtain ⟨⟨k', v'⟩, hcut, heq⟩ := Option.map_eq_some_iff.mp h
      cases heq
      rw [ih hcut]
      rfl

/-- A text up to the last `sep`, and what follows it. -/
def cutLast (sep : UInt8) (t : Bytes) : Option (Bytes × Bytes) :=
  (cut sep t.reverse).map fun p => (p.2.reverse, p.1.reverse)

theorem cutLast_append {sep : UInt8} {k v : Bytes} (hv : sep ∉ v) :
    cutLast sep (k ++ sep :: v) = some (k, v) := by
  have hrev : (k ++ sep :: v).reverse = v.reverse ++ sep :: k.reverse := by simp
  rw [cutLast, hrev, cut_append fun hmem => hv (List.mem_reverse.mp hmem)]
  simp

theorem eq_of_cutLast {sep : UInt8} {t k v : Bytes} (h : cutLast sep t = some (k, v)) :
    t = k ++ sep :: v := by
  obtain ⟨⟨v', k'⟩, hcut, heq⟩ := Option.map_eq_some_iff.mp h
  cases heq
  rw [← List.reverse_reverse t, eq_of_cut hcut]
  simp

/-- A piece has no separator in it, and is part of the text. -/
theorem mem_piecesFrom {sep : UInt8} {cur t item : Bytes} (hcur : sep ∉ cur)
    (h : item ∈ piecesFrom sep cur t) : sep ∉ item ∧ ∀ b ∈ item, b ∈ cur ++ t := by
  induction t generalizing cur with
  | nil =>
    rw [piecesFrom] at h
    by_cases hnil : cur = []
    · rw [if_pos hnil] at h
      cases h
    · rw [if_neg hnil, List.mem_singleton] at h
      subst h
      exact ⟨hcur, fun b hb => List.mem_append_left _ hb⟩
  | cons c t ih =>
    rw [piecesFrom] at h
    by_cases hc : c = sep
    · rw [if_pos hc] at h
      rcases List.mem_cons.mp h with rfl | h
      · exact ⟨hcur, fun b hb => List.mem_append_left _ hb⟩
      · obtain ⟨hsep, hpart⟩ := ih List.not_mem_nil h
        exact ⟨hsep, fun b hb => List.mem_append_right _ (List.mem_cons_of_mem _ (hpart b hb))⟩
    · rw [if_neg hc] at h
      have hnext : sep ∉ cur ++ [c] := by
        intro hmem
        rcases List.mem_append.mp hmem with hmem | hmem
        · exact hcur hmem
        · exact hc (List.mem_singleton.mp hmem).symm
      obtain ⟨hsep, hpart⟩ := ih hnext h
      refine ⟨hsep, fun b hb => ?_⟩
      have hb' := hpart b hb
      rwa [List.append_assoc] at hb'

theorem lineFeed_not_mem_of_mem_lines {t line : Bytes} (h : line ∈ lines t) : lineFeed ∉ line :=
  (mem_piecesFrom List.not_mem_nil h).1

/-! ### Numbers -/

/-- The digit of a number below ten. -/
def digit (n : ℕ) : UInt8 := UInt8.ofNat (48 + n)

/-- The digits of a number, with as many divisions as `fuel` allows. -/
def decimalFrom : ℕ → ℕ → Bytes
  | 0, n => [digit n]
  | fuel + 1, n => if n < 10 then [digit n] else decimalFrom fuel (n / 10) ++ [digit (n % 10)]

def decimal (n : ℕ) : Bytes := decimalFrom n n

/-- `isdigit`. -/
def isDigit (b : UInt8) : Bool := 48 ≤ b && b ≤ 57

/-- `isspace` in the C locale. -/
def isSpace (b : UInt8) : Bool := b = 32 || (9 ≤ b && b ≤ 13)

/-- The number that a sequence of digits denotes. -/
def ofDigits (ds : Bytes) : ℕ := ds.foldl (fun n b => 10 * n + (b.toNat - 48)) 0

/-- What `strtol` reads after the blanks and the sign. -/
def strtoul (s : Bytes) : Option ℕ :=
  match s.takeWhile isDigit with
  | [] => none
  | d :: ds => some (ofDigits (d :: ds))

/-- `strtol` in base ten, without its limits: `none` when there is no digit. -/
def strtol (s : Bytes) : Option ℤ :=
  match s.dropWhile isSpace with
  | [] => none
  | b :: s =>
    if b = 45 then (strtoul s).map fun n => -(n : ℤ)
    else if b = 43 then (strtoul s).map fun n => (n : ℤ)
    else (strtoul (b :: s)).map fun n => (n : ℤ)

theorem toNat_digit {n : ℕ} (h : n < 10) : (digit n).toNat = 48 + n := by
  rw [digit, UInt8.toNat_ofNat']
  omega

theorem isDigit_digit {n : ℕ} (h : n < 10) : isDigit (digit n) = true := by
  have htoNat := toNat_digit h
  rw [isDigit, Bool.and_eq_true_iff, decide_eq_true_eq, decide_eq_true_eq, UInt8.le_iff_toNat_le,
    UInt8.le_iff_toNat_le, htoNat]
  exact ⟨by simp, by simp; omega⟩

theorem ofDigits_append (ds : Bytes) (d : UInt8) :
    ofDigits (ds ++ [d]) = 10 * ofDigits ds + (d.toNat - 48) := by
  rw [ofDigits, List.foldl_append]
  rfl

theorem decimalFrom_spec {fuel n : ℕ} (h : n ≤ fuel) :
    (∀ b ∈ decimalFrom fuel n, isDigit b = true) ∧ decimalFrom fuel n ≠ [] ∧
      ofDigits (decimalFrom fuel n) = n := by
  induction fuel generalizing n with
  | zero =>
    obtain rfl : n = 0 := by omega
    refine ⟨fun b hb => ?_, List.cons_ne_nil _ _, rfl⟩
    rw [List.mem_singleton.mp hb]
    rfl
  | succ fuel ih =>
    rw [decimalFrom]
    by_cases hn : n < 10
    · rw [if_pos hn]
      refine ⟨fun b hb => ?_, List.cons_ne_nil _ _, ?_⟩
      · rw [List.mem_singleton.mp hb]
        exact isDigit_digit hn
      · simp [ofDigits, toNat_digit hn]
    · rw [if_neg hn]
      have hmod : n % 10 < 10 := Nat.mod_lt _ (by omega)
      obtain ⟨hdigits, -, hvalue⟩ := ih (n := n / 10) (by omega)
      refine ⟨fun b hb => ?_, by simp, ?_⟩
      · rcases List.mem_append.mp hb with hb | hb
        · exact hdigits b hb
        · rw [List.mem_singleton.mp hb]
          exact isDigit_digit hmod
      · rw [ofDigits_append, hvalue, toNat_digit hmod]
        omega

theorem strtoul_of_digits {ds : Bytes} (hdigits : ∀ b ∈ ds, isDigit b = true) (hne : ds ≠ []) :
    strtoul ds = some (ofDigits ds) := by
  have htake : ds.takeWhile isDigit = ds := List.takeWhile_eq_self_iff.mpr hdigits
  rw [strtoul, htake]
  cases ds with
  | nil => exact absurd rfl hne
  | cons d ds => rfl

/-- A digit is neither a blank nor a sign. -/
theorem of_isDigit {b : UInt8} (h : isDigit b = true) : isSpace b = false ∧ b ≠ 45 ∧ b ≠ 43 := by
  rw [isDigit, Bool.and_eq_true_iff, decide_eq_true_eq, decide_eq_true_eq] at h
  have hle : 48 ≤ b.toNat := UInt8.le_iff_toNat_le.mp h.1
  refine ⟨?_, ?_, ?_⟩
  · rw [isSpace, Bool.or_eq_false_iff, Bool.and_eq_false_iff, decide_eq_false_iff_not,
      decide_eq_false_iff_not, decide_eq_false_iff_not]
    refine ⟨?_, Or.inr ?_⟩
    · rintro rfl
      exact absurd hle (by decide)
    · rw [UInt8.le_iff_toNat_le]
      intro hb
      have : b.toNat ≤ 13 := hb
      omega
  · rintro rfl
    exact absurd hle (by decide)
  · rintro rfl
    exact absurd hle (by decide)

/-- A number in decimal is read back. -/
theorem strtol_decimal (n : ℕ) : strtol (decimal n) = some (n : ℤ) := by
  obtain ⟨hdigits, hne, hvalue⟩ := decimalFrom_spec (le_refl n)
  have hread := strtoul_of_digits hdigits hne
  rw [hvalue] at hread
  change strtoul (decimal n) = some n at hread
  rw [strtol]
  cases hcons : decimal n with
  | nil => exact absurd hcons hne
  | cons d ds =>
    have hd : d ∈ decimal n := by
      rw [hcons]
      exact List.mem_cons_self
    obtain ⟨hspace, hminus, hplus⟩ := of_isDigit (hdigits d hd)
    rw [List.dropWhile_cons_of_neg (by rw [hspace]; decide)]
    dsimp only
    rw [if_neg hminus, if_neg hplus, ← hcons, hread]
    rfl

/-- A number in decimal is part of a line. -/
theorem lineFeed_not_mem_decimal (n : ℕ) : lineFeed ∉ decimal n := by
  intro hmem
  have := (decimalFrom_spec (le_refl n)).1 _ hmem
  exact absurd this (by decide)

/-! ### Hexadecimal -/

/-- The digit of a number below sixteen. -/
def hexDigit (n : ℕ) : UInt8 := if n < 10 then UInt8.ofNat (48 + n) else UInt8.ofNat (87 + n)

/-- Two digits for each byte. -/
def toHex (data : Bytes) : Bytes :=
  data.flatMap fun b => [hexDigit (b.toNat / 16), hexDigit (b.toNat % 16)]

/-- The number of a digit, of either case. -/
def nibble (c : UInt8) : Option ℕ :=
  if 48 ≤ c ∧ c ≤ 57 then some (c.toNat - 48)
  else if 97 ≤ c ∧ c ≤ 102 then some (c.toNat - 87)
  else if 65 ≤ c ∧ c ≤ 70 then some (c.toNat - 55)
  else none

/-- The bytes of pairs of digits. -/
def unhex : Bytes → Option Bytes
  | [] => some []
  | [_] => none
  | c :: d :: t =>
    match nibble c, nibble d, unhex t with
    | some hi, some lo, some rest => some (UInt8.ofNat (16 * hi + lo) :: rest)
    | _, _, _ => none

/-- Exactly `n` bytes. -/
def fromHex (n : ℕ) (hex : Bytes) : Option (Block n) :=
  match unhex hex with
  | some data => if h : data.length = n then some ⟨data, h⟩ else none
  | none => none

theorem toNat_hexDigit {n : ℕ} (h : n < 16) :
    (hexDigit n).toNat = if n < 10 then 48 + n else 87 + n := by
  rw [hexDigit]
  split
  · rw [UInt8.toNat_ofNat']
    omega
  · rw [UInt8.toNat_ofNat']
    omega

theorem nibble_hexDigit {n : ℕ} (h : n < 16) : nibble (hexDigit n) = some n := by
  have hval := toNat_hexDigit h
  simp only [nibble, UInt8.le_iff_toNat_le, hval]
  by_cases hn : n < 10
  · rw [if_pos hn, if_pos ⟨by simp, by simp; omega⟩]
    exact congrArg some (by omega)
  · rw [if_neg hn, if_neg (by simp; omega), if_pos ⟨by simp; omega, by simp; omega⟩]
    exact congrArg some (by omega)

theorem unhex_toHex (data : Bytes) : unhex (toHex data) = some data := by
  induction data with
  | nil => rfl
  | cons b data ih =>
    have hb := b.toNat_lt
    have hi := nibble_hexDigit (n := b.toNat / 16) (by omega)
    have lo := nibble_hexDigit (n := b.toNat % 16) (by omega)
    have hbyte : UInt8.ofNat (16 * (b.toNat / 16) + b.toNat % 16) = b := by
      rw [Nat.div_add_mod]
      exact UInt8.ofNat_toNat
    rw [toHex, List.flatMap_cons]
    change unhex (hexDigit (b.toNat / 16) :: hexDigit (b.toNat % 16) :: toHex data) = _
    simp only [unhex, hi, lo, ih, hbyte]

/-- A block is read back from its digits. -/
theorem fromHex_toHex {n : ℕ} (b : Block n) : fromHex n (toHex b.val) = some b := by
  simp only [fromHex, unhex_toHex]
  exact dif_pos b.length_val

/-- Only digits are written. -/
theorem not_mem_toHex {b : UInt8} (hb : nibble b = none) (data : Bytes) : b ∉ toHex data := by
  have hdigit : ∀ n < 16, b ≠ hexDigit n := by
    rintro n hn rfl
    rw [nibble_hexDigit hn] at hb
    cases hb
  intro hmem
  obtain ⟨c, -, hc⟩ := List.mem_flatMap.mp hmem
  have hlt := c.toNat_lt
  rcases List.mem_cons.mp hc with heq | hc
  · exact hdigit _ (by omega) heq
  · exact hdigit _ (by omega) (List.mem_singleton.mp hc)

theorem lineFeed_not_mem_toHex (data : Bytes) : lineFeed ∉ toHex data := not_mem_toHex rfl data

end Text
