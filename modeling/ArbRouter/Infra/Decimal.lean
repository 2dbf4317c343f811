import Mathlib

/-!
# 96-bit decimal numbers

The number format of `rust_decimal`: a mantissa of 96 bits, a scale of 0 to 28 fractional
digits and a sign bit. Several representations share one value (`1`, `1.0`, `1.00`), so the
order is the order of the values, while printing depends on the scale.

* `Decimal` — the representation; an oversized mantissa or scale cannot be built
* `Rounds` — what it means that an operation rounds an exact rational to a `Decimal`
* `Rounds.toRat_eq`, `Rounds.toRat_le`, `Rounds.le_toRat` — a decimal is neither rounded nor crossed
* `Rounds.floor_mul_pow_ten` — the floor of a rounded value, in units of a power of ten
* `Rounds.isDecimal_half` — a sum that had to be rounded is halved without another rounding

Nothing here fixes how ties are broken or which scale a result has.
-/

namespace Infra

/-- The largest mantissa, `2^96 - 1`. -/
def maxMantissa : Nat := 2 ^ 96 - 1

theorem lt_two_pow_iff {n : Nat} : n < 2 ^ 96 ↔ n ≤ maxMantissa := by
  unfold maxMantissa
  omega

/-- The largest number of fractional digits. -/
def maxScale : Nat := 28

/-- A decimal number as it is stored. -/
structure Decimal where
  neg : Bool
  mant : Nat
  scale : Nat
  mant_le : mant ≤ maxMantissa
  scale_le : scale ≤ maxScale
deriving DecidableEq

namespace Decimal

/-- The numeric value. -/
def toRat (d : Decimal) : ℚ := (if d.neg then -(d.mant : ℚ) else d.mant) / 10 ^ d.scale

/-- Decimals are ordered by value: `1.0` and `1.00` are below each other. -/
instance : Preorder Decimal := Preorder.lift toRat

theorem le_iff {a b : Decimal} : a ≤ b ↔ a.toRat ≤ b.toRat := Iff.rfl

theorem lt_iff {a b : Decimal} : a < b ↔ a.toRat < b.toRat := Iff.rfl

instance (a b : Decimal) : Decidable (a ≤ b) := inferInstanceAs (Decidable (a.toRat ≤ b.toRat))

instance (a b : Decimal) : Decidable (a < b) := inferInstanceAs (Decidable (a.toRat < b.toRat))

/-- The integer `n`, at scale 0. -/
def ofNat (n : Nat) (h : n ≤ maxMantissa) : Decimal :=
  { neg := false, mant := n, scale := 0, mant_le := h, scale_le := Nat.zero_le _ }

theorem toNat_le_maxMantissa (n : UInt64) : n.toNat ≤ maxMantissa :=
  n.toNat_lt.le.trans (by decide)

/-- `Decimal::from`. -/
def ofUInt64 (n : UInt64) : Decimal := ofNat n.toNat (toNat_le_maxMantissa n)

/-- `Decimal::new(n, 1)`. -/
def tenths (n : UInt64) : Decimal :=
  { neg := false, mant := n.toNat, scale := 1
    mant_le := toNat_le_maxMantissa n, scale_le := by decide }

def zero : Decimal := ofNat 0 (Nat.zero_le _)

def one : Decimal := ofNat 1 (by decide)

@[simp] theorem toRat_ofNat (n : Nat) (h : n ≤ maxMantissa) : (ofNat n h).toRat = n := by
  simp [toRat, ofNat]

@[simp] theorem toRat_zero : zero.toRat = 0 := by simp [zero]

@[simp] theorem toRat_one : one.toRat = 1 := by simp [one]

theorem zero_lt_iff {d : Decimal} : zero < d ↔ 0 < d.toRat := by
  rw [lt_iff, toRat_zero]

theorem one_pos : zero < one := zero_lt_iff.mpr (by simp)

/-- A scale 0 decimal without sign is the integer it stores. -/
theorem eq_ofNat_of_scale_zero {d : Decimal} (hs : d.scale = 0) (hn : d.neg = false) :
    d = ofNat d.mant d.mant_le := by
  cases d
  simp_all [ofNat]

theorem nonneg_of_not_neg {d : Decimal} (h : d.neg = false) : 0 ≤ d.toRat := by
  rw [toRat, h]
  simp only [Bool.false_eq_true, if_false]
  positivity

/-- A positive value has no sign bit (the converse fails for zero). -/
theorem not_neg_of_pos {d : Decimal} (h : 0 < d.toRat) : d.neg = false := by
  cases hn : d.neg with
  | false => rfl
  | true =>
    exfalso
    rw [toRat, hn] at h
    simp only [if_true] at h
    have : (0 : ℚ) ≤ (d.mant : ℚ) / 10 ^ d.scale := by positivity
    rw [neg_div] at h
    linarith

/-- `n` units of `10^-k`. -/
def units (n k : Nat) (hn : n ≤ maxMantissa) (hk : k ≤ maxScale) : Decimal :=
  { neg := false, mant := n, scale := k, mant_le := hn, scale_le := hk }

theorem toRat_units {n k : Nat} (hn : n ≤ maxMantissa) (hk : k ≤ maxScale) :
    (units n k hn hk).toRat = n / 10 ^ k := by
  simp [toRat, units]

/-- `n` units of `10^-k`, of either sign. -/
def signed (n : ℤ) (k : Nat) (hn : n.natAbs ≤ maxMantissa) (hk : k ≤ maxScale) : Decimal :=
  { neg := n < 0, mant := n.natAbs, scale := k, mant_le := hn, scale_le := hk }

theorem toRat_signed {n : ℤ} {k : Nat} (hn : n.natAbs ≤ maxMantissa) (hk : k ≤ maxScale) :
    (signed n k hn hk).toRat = n / 10 ^ k := by
  by_cases h : n < 0
  · simp [toRat, signed, h, Nat.cast_natAbs, abs_of_neg h]
  · simp [toRat, signed, h, Nat.cast_natAbs, abs_of_nonneg (not_lt.mp h)]

/-- The same digits with the other sign. -/
def opposite (d : Decimal) : Decimal := { d with neg := !d.neg }

theorem toRat_opposite (d : Decimal) : d.opposite.toRat = -d.toRat := by
  unfold opposite toRat
  cases d.neg <;> simp [neg_div]

theorem abs_toRat (d : Decimal) : |d.toRat| = d.mant / 10 ^ d.scale := by
  have h10 : (0 : ℚ) < 10 ^ d.scale := by positivity
  rw [toRat, abs_div, abs_of_pos h10]
  split <;> simp

/-! ## The grid -/

/-- The value is a whole number of units of `10^-s`. -/
def OnGrid (s : Nat) (x : ℚ) : Prop := ∃ n : ℤ, x * 10 ^ s = n

/-- A decimal is a number of units of each scale that is no coarser than its own. -/
theorem onGrid {d : Decimal} {s : Nat} (h : d.scale ≤ s) : OnGrid s d.toRat := by
  refine ⟨(if d.neg then -(d.mant : ℤ) else d.mant) * 10 ^ (s - d.scale), ?_⟩
  have hpow : (10 : ℚ) ^ s = 10 ^ d.scale * 10 ^ (s - d.scale) := by
    rw [← pow_add, Nat.add_sub_cancel' h]
  have h10 : (10 : ℚ) ^ d.scale ≠ 0 := by positivity
  rw [toRat, hpow, ← mul_assoc, div_mul_cancel₀ _ h10]
  push_cast
  rfl

/-- A decimal of a finer scale has no more units of `10^-s` than its mantissa. -/
theorem abs_mul_pow_le {d : Decimal} {s : Nat} (h : s ≤ d.scale) :
    |d.toRat| * 10 ^ s ≤ d.mant := by
  have hpos : (0 : ℚ) < 10 ^ d.scale := by positivity
  have hpow : (10 : ℚ) ^ s ≤ 10 ^ d.scale := pow_le_pow_right₀ (by norm_num) h
  rw [abs_toRat, div_mul_eq_mul_div, div_le_iff₀ hpos]
  exact mul_le_mul_of_nonneg_left hpow (Nat.cast_nonneg _)

/-- Two values of one grid that are no more than half a unit apart are the same. -/
theorem OnGrid.eq_of_abs_sub_le {s : Nat} {x y : ℚ} (hx : OnGrid s x) (hy : OnGrid s y)
    (h : |x - y| * 10 ^ s ≤ 1 / 2) : x = y := by
  obtain ⟨m, hm⟩ := hx
  obtain ⟨n, hn⟩ := hy
  have hpos : (0 : ℚ) < 10 ^ s := by positivity
  rw [← abs_of_pos hpos, ← abs_mul, sub_mul, hm, hn] at h
  have hlt : |m - n| < 1 := by
    have hone : |(m : ℚ) - n| < 1 := h.trans_lt (by norm_num)
    exact_mod_cast hone
  have heq : m = n := sub_eq_zero.mp (Int.abs_lt_one_iff.mp hlt)
  exact mul_right_cancel₀ hpos.ne' (hm.trans (by rw [heq, hn]))

/-- The smallest positive value, `10^-28`. -/
def tiny : Decimal :=
  { neg := false, mant := 1, scale := maxScale, mant_le := by decide, scale_le := le_refl _ }

/-- Every value is a whole number of `10^-28`. -/
theorem exists_grid (d : Decimal) : ∃ k : ℤ, d.toRat = k / 10 ^ maxScale := by
  obtain ⟨k, hk⟩ := onGrid d.scale_le
  exact ⟨k, eq_div_of_mul_eq (by positivity) hk⟩

/-- A positive difference of two decimals is at least `10^-28`. -/
theorem tiny_le_sub {a b : Decimal} (h : b.toRat < a.toRat) : tiny.toRat ≤ a.toRat - b.toRat := by
  obtain ⟨k, hk⟩ := exists_grid a
  obtain ⟨l, hl⟩ := exists_grid b
  have hp : (0 : ℚ) < 10 ^ maxScale := by positivity
  have htiny : tiny.toRat = 1 / 10 ^ maxScale := by simp [toRat, tiny]
  rw [hk, hl] at h ⊢
  rw [div_lt_div_iff_of_pos_right hp] at h
  rw [htiny, ← sub_div, div_le_div_iff_of_pos_right hp]
  have : l + 1 ≤ k := by exact_mod_cast h
  exact_mod_cast (by omega : (1 : ℤ) ≤ k - l)

theorem tiny_pos : 0 < tiny.toRat := by
  simp [toRat, tiny]

theorem abs_toRat_le (d : Decimal) : |d.toRat| ≤ maxMantissa := by
  have hm : (d.mant : ℚ) ≤ maxMantissa := by exact_mod_cast d.mant_le
  have h1 : (1 : ℚ) ≤ 10 ^ d.scale := one_le_pow₀ (by norm_num)
  rw [abs_toRat]
  exact (div_le_self (by positivity) h1).trans hm

/-- Shifting the point of a decimal to the right gives a decimal, unless it grows to `2^96`. -/
theorem exists_mul_pow_ten {d : Decimal} {k : Nat} (h : |d.toRat * 10 ^ k| < maxMantissa + 1) :
    ∃ r : Decimal, r.toRat = d.toRat * 10 ^ k := by
  have hpos : (0 : ℚ) < 10 ^ d.scale := by positivity
  rcases le_total k d.scale with hk | hk
  · -- digits remain behind the point: only the scale changes
    refine ⟨{ d with scale := d.scale - k, scale_le := (Nat.sub_le _ _).trans d.scale_le }, ?_⟩
    have hpow : (10 : ℚ) ^ d.scale = 10 ^ (d.scale - k) * 10 ^ k := by
      rw [← pow_add, Nat.sub_add_cancel hk]
    have hk0 : (10 : ℚ) ^ k ≠ 0 := by positivity
    rw [toRat, toRat, hpow, div_mul_eq_mul_div, mul_div_mul_right _ _ hk0]
  · -- no digits remain: zeros are appended to the mantissa
    have hval : d.toRat * 10 ^ k
        = if d.neg then -((d.mant * 10 ^ (k - d.scale) : ℕ) : ℚ)
          else (d.mant * 10 ^ (k - d.scale) : ℕ) := by
      have hpow : (10 : ℚ) ^ k = 10 ^ (k - d.scale) * 10 ^ d.scale := by
        rw [← pow_add, Nat.sub_add_cancel hk]
      rw [toRat, hpow, ← mul_assoc, mul_right_comm, div_mul_cancel₀ _ hpos.ne']
      push_cast
      split <;> ring
    have hle : d.mant * 10 ^ (k - d.scale) ≤ maxMantissa := by
      have habs : |d.toRat * 10 ^ k| = (d.mant * 10 ^ (k - d.scale) : ℕ) := by
        rw [hval]
        split <;> simp
      rw [habs] at h
      exact Nat.lt_succ_iff.mp (by exact_mod_cast h)
    refine ⟨⟨d.neg, d.mant * 10 ^ (k - d.scale), 0, hle, Nat.zero_le _⟩, ?_⟩
    rw [hval, toRat]
    simp

/-- Shifting the point of a decimal does not end strictly between `2^96 - 1` and `2^96`. -/
theorem mul_pow_ten_le {d : Decimal} {k : Nat} (h : d.toRat * 10 ^ k < maxMantissa + 1) :
    d.toRat * 10 ^ k ≤ maxMantissa := by
  rcases le_total (d.toRat * 10 ^ k) 0 with hneg | hpos
  · exact hneg.trans (Nat.cast_nonneg _)
  · obtain ⟨r, hr⟩ := exists_mul_pow_ten ((abs_of_nonneg hpos).trans_lt h)
    rw [← hr]
    exact (le_abs_self _).trans r.abs_toRat_le

/-! ## Printing -/

/-- The digits of the mantissa, padded so that at least one digit precedes the point. -/
def digits (d : Decimal) : List Char :=
  List.replicate (d.scale + 1 - (Nat.toDigits 10 d.mant).length) '0' ++ Nat.toDigits 10 d.mant

/-- `Display`: a sign, the integer digits, and exactly `scale` fractional digits. -/
def render (d : Decimal) : List Char :=
  let whole := d.digits.take (d.digits.length - d.scale)
  let frac := d.digits.drop (d.digits.length - d.scale)
  (if d.neg then ['-'] else []) ++ whole ++ (if d.scale = 0 then [] else '.' :: frac)

/-- At scale 0 the integer is printed. -/
theorem render_ofNat (n : Nat) (h : n ≤ maxMantissa) : (ofNat n h).render = Nat.toDigits 10 n := by
  have hlen : 0 < (Nat.toDigits 10 n).length := Nat.length_toDigits_pos
  have hpad : 0 + 1 - (Nat.toDigits 10 n).length = 0 := by omega
  simp [render, digits, ofNat, hpad]

/-- At any other scale a point is printed, whatever the value. -/
theorem point_mem_render {d : Decimal} (h : d.scale ≠ 0) : '.' ∈ d.render := by
  unfold render
  dsimp only
  rw [if_neg h]
  exact List.mem_append_right _ List.mem_cons_self

end Decimal

/-! ## Rounding -/

open Decimal

/-- Some decimal has this value. -/
def IsDecimal (x : ℚ) : Prop := ∃ d : Decimal, d.toRat = x

/--
An operation with exact result `x` returned `o`.

A value it returns has as many digits behind the point as the mantissa has room for, the last of
them rounded to nearest; it returns nothing only when `x` is larger in magnitude than the largest
mantissa.
-/
def Rounds (x : ℚ) : Option Decimal → Prop
  | some r => |x| < maxMantissa + 1 ∧ ∃ s ≤ maxScale, OnGrid s r.toRat ∧
      |r.toRat - x| * 10 ^ s ≤ 1 / 2 ∧
      (s < maxScale → (maxMantissa : ℚ) + 1 / 2 ≤ |x| * 10 ^ (s + 1))
  | none => (maxMantissa : ℚ) < |x|

namespace Rounds

variable {x : ℚ} {r d : Decimal} {o : Option Decimal}

theorem exists_some (h : Rounds x o) (hx : |x| ≤ maxMantissa) : ∃ r, o = some r := by
  cases o with
  | some r => exact ⟨r, rfl⟩
  | none => exact absurd hx (not_le.mpr h)

/-- Rounding is the same on both sides of zero. -/
theorem opposite (h : Rounds x (some r)) : Rounds (-x) (some r.opposite) := by
  obtain ⟨hlt, s, hs, ⟨n, hn⟩, hnear, hroom⟩ := h
  refine ⟨by rwa [abs_neg], s, hs, ⟨-n, ?_⟩, ?_, by rwa [abs_neg]⟩
  · rw [toRat_opposite, neg_mul, hn, Int.cast_neg]
  · rwa [toRat_opposite, ← neg_sub', abs_neg]

/-- Rounding does not cross a decimal from below. -/
theorem toRat_le (h : Rounds x (some r)) (hd : x ≤ d.toRat) : r.toRat ≤ d.toRat := by
  obtain ⟨-, s, hs, ⟨n, hn⟩, hnear, hroom⟩ := h
  have hpos : (0 : ℚ) < 10 ^ s := by positivity
  have hup : r.toRat * 10 ^ s ≤ x * 10 ^ s + 1 / 2 := by
    have habs := mul_le_mul_of_nonneg_right (le_abs_self (r.toRat - x)) hpos.le
    linarith
  by_contra hc
  rw [not_le] at hc
  have hlt := mul_lt_mul_of_pos_right hc hpos
  have hle := mul_le_mul_of_nonneg_right hd hpos.le
  rcases le_or_gt d.scale s with hscale | hscale
  · -- the decimal is a number of the units that are rounded to
    obtain ⟨m, hm⟩ := onGrid hscale
    rw [hm] at hlt hle
    rw [hn] at hlt hup
    have hmn : m + 1 ≤ n := by exact_mod_cast hlt
    have hcast : (m : ℚ) + 1 ≤ n := by exact_mod_cast hmn
    linarith
  · -- a finer decimal is too small to be close to `x`, unless it is above and `x` negative
    have hfine := (abs_mul_pow_le (Nat.succ_le_of_lt hscale)).trans (Nat.cast_le.mpr d.mant_le)
    have hlarge := hroom (hscale.trans_le d.scale_le)
    have hpow : (10 : ℚ) ^ (s + 1) = 10 * 10 ^ s := by rw [pow_succ, mul_comm]
    rw [hpow] at hfine hlarge
    have hneg : x < 0 := by
      by_contra hx
      rw [not_lt] at hx
      rw [abs_of_nonneg (hx.trans hd)] at hfine
      rw [abs_of_nonneg hx] at hlarge
      linarith
    rw [abs_of_neg hneg] at hlarge
    have hbelow := mul_le_mul_of_nonneg_right (neg_abs_le d.toRat) hpos.le
    rw [hn] at hlt hup
    have h1 : -(maxMantissa : ℤ) < 10 * n := by
      have : -(maxMantissa : ℚ) < 10 * n := by linarith
      exact_mod_cast this
    have h2 : 10 * n < -(maxMantissa : ℤ) + 5 := by
      have : (10 : ℚ) * n < -(maxMantissa : ℚ) + 5 := by linarith
      exact_mod_cast this
    unfold maxMantissa at h1 h2
    omega

/-- Rounding does not cross a decimal from above. -/
theorem le_toRat (h : Rounds x (some r)) (hd : d.toRat ≤ x) : d.toRat ≤ r.toRat := by
  have hle := h.opposite.toRat_le (d := d.opposite) (by rw [toRat_opposite]; exact neg_le_neg hd)
  rw [toRat_opposite, toRat_opposite] at hle
  exact neg_le_neg_iff.mp hle

/-- A decimal is not rounded. -/
theorem toRat_eq (h : Rounds x (some r)) (hd : d.toRat = x) : r.toRat = x := by
  rw [← hd]
  exact le_antisymm (h.toRat_le hd.ge) (h.le_toRat hd.le)

theorem nonneg (h : Rounds x (some r)) (hx : 0 ≤ x) : 0 ≤ r.toRat := by
  simpa using h.le_toRat (d := Decimal.zero) (by simpa using hx)

/-- Rounding does not cross a number of units of `10^-k` from above. -/
theorem floor_mul_pow_ten_le (h : Rounds x (some r)) (hx : 0 ≤ x) {k : Nat} (hk : k ≤ maxScale)
    (hlt : x * 10 ^ k < maxMantissa + 1) : (⌊x * 10 ^ k⌋₊ : ℚ) ≤ r.toRat * 10 ^ k := by
  have hpos : (0 : ℚ) < 10 ^ k := by positivity
  have hle : (⌊x * 10 ^ k⌋₊ : ℚ) ≤ x * 10 ^ k := Nat.floor_le (by positivity)
  have hn : ⌊x * 10 ^ k⌋₊ ≤ maxMantissa :=
    Nat.lt_succ_iff.mp (by exact_mod_cast hle.trans_lt hlt)
  have hr := h.le_toRat (d := Decimal.units _ k hn hk) (by
    rwa [Decimal.toRat_units, div_le_iff₀ hpos])
  rwa [Decimal.toRat_units, div_le_iff₀ hpos] at hr

/-- Nor from below: at most the next number of units is reached. -/
theorem mul_pow_ten_le_floor_add_one (h : Rounds x (some r)) {k : Nat}
    (hk : k ≤ maxScale) (hn : ⌊x * 10 ^ k⌋₊ + 1 ≤ maxMantissa) :
    r.toRat * 10 ^ k ≤ ⌊x * 10 ^ k⌋₊ + 1 := by
  have hpos : (0 : ℚ) < 10 ^ k := by positivity
  have hlt := Nat.lt_floor_add_one (x * 10 ^ k)
  have hr := h.toRat_le (d := Decimal.units _ k hn hk) (by
    rw [Decimal.toRat_units, le_div_iff₀ hpos]
    push_cast
    exact hlt.le)
  rw [Decimal.toRat_units, le_div_iff₀ hpos] at hr
  exact_mod_cast hr

/-- Where the rounded value leaves room for the units of `10^-k`, they are not rounded away. -/
theorem abs_sub_mul_pow_ten_le (h : Rounds x (some r)) (hx : 0 ≤ x) {k : Nat} (hk : k ≤ maxScale)
    (hfits : r.toRat * 10 ^ k ≤ maxMantissa) : |r.toRat - x| * 10 ^ k ≤ 1 / 2 := by
  have hr := h.nonneg hx
  obtain ⟨-, s, -, ⟨n, hn⟩, hnear, hroom⟩ := h
  rcases le_or_gt k s with hks | hsk
  · -- the units that are rounded to are no larger
    have hpow : (10 : ℚ) ^ k ≤ 10 ^ s := pow_le_pow_right₀ (by norm_num) hks
    exact (mul_le_mul_of_nonneg_left hpow (abs_nonneg _)).trans hnear
  · -- `10 n` units of `10^-(s+1)` fit, and are close to more of them than fit
    exfalso
    have hlarge := hroom (hsk.trans_le hk)
    have hpow : (10 : ℚ) ^ (s + 1) ≤ 10 ^ k := pow_le_pow_right₀ (by norm_num) hsk
    have hle := (mul_le_mul_of_nonneg_left hpow hr).trans hfits
    rw [abs_of_nonneg hx] at hlarge
    rw [pow_succ, ← mul_assoc] at hlarge hle
    have hdown : x * 10 ^ s ≤ r.toRat * 10 ^ s + 1 / 2 := by
      have habs := mul_le_mul_of_nonneg_right (neg_abs_le (r.toRat - x))
        (by positivity : (0 : ℚ) ≤ 10 ^ s)
      linarith
    rw [hn] at hle hdown
    have h1 : 10 * n ≤ (maxMantissa : ℤ) := by
      have hcast : (10 : ℚ) * n ≤ maxMantissa := by linarith
      exact_mod_cast hcast
    have h2 : (maxMantissa : ℤ) < 10 * n + 5 := by
      have hcast : (maxMantissa : ℚ) < 10 * n + 5 := by linarith
      exact_mod_cast hcast
    unfold maxMantissa at h1 h2
    omega

/--
**The floor of a rounded value in units of `10^-k`:** not below that of the exact one, and above
the exact value only if the rounded one is that number of units, and by at most half a unit.
-/
theorem floor_mul_pow_ten (h : Rounds x (some r)) (hx : 0 ≤ x) {k : Nat} (hk : k ≤ maxScale)
    (hfits : r.toRat * 10 ^ k ≤ maxMantissa) :
    (⌊r.toRat * 10 ^ k⌋₊ : ℚ) ≤ x * 10 ^ k + 1 / 2 ∧
    x * 10 ^ k < ⌊r.toRat * 10 ^ k⌋₊ + 1 ∧
    ((⌊r.toRat * 10 ^ k⌋₊ : ℚ) ≤ x * 10 ^ k ∨ r.toRat * 10 ^ k = ⌊r.toRat * 10 ^ k⌋₊) := by
  have hpos : (0 : ℚ) < 10 ^ k := by positivity
  have hnear := h.abs_sub_mul_pow_ten_le hx hk hfits
  rw [← abs_of_pos hpos, ← abs_mul, sub_mul] at hnear
  obtain ⟨hdown, hup⟩ := abs_le.mp hnear
  have hfloor : (⌊r.toRat * 10 ^ k⌋₊ : ℚ) ≤ r.toRat * 10 ^ k :=
    Nat.floor_le (mul_nonneg (h.nonneg hx) hpos.le)
  have hlower : x * 10 ^ k < ⌊r.toRat * 10 ^ k⌋₊ + 1 := by
    have hle : ⌊x * 10 ^ k⌋₊ ≤ ⌊r.toRat * 10 ^ k⌋₊ :=
      Nat.le_floor (h.floor_mul_pow_ten_le hx hk (by linarith))
    have hcast : (⌊x * 10 ^ k⌋₊ : ℚ) ≤ ⌊r.toRat * 10 ^ k⌋₊ := by exact_mod_cast hle
    linarith [Nat.lt_floor_add_one (x * 10 ^ k)]
  refine ⟨by linarith, hlower, ?_⟩
  rcases le_or_gt (maxMantissa : ℚ) (x * 10 ^ k) with hlarge | hsmall
  · -- no number of units that fits is larger than `x`
    exact Or.inl (hfloor.trans (hfits.trans hlarge))
  · have hn : ⌊x * 10 ^ k⌋₊ + 1 ≤ maxMantissa := by
      have hlt : (⌊x * 10 ^ k⌋₊ : ℚ) < maxMantissa :=
        (Nat.floor_le (mul_nonneg hx hpos.le)).trans_lt hsmall
      exact_mod_cast hlt
    rcases lt_or_eq_of_le (h.mul_pow_ten_le_floor_add_one hk hn) with hlt | heq
    · refine Or.inl (le_trans ?_ (Nat.floor_le (mul_nonneg hx hpos.le)))
      have hnat : ⌊r.toRat * 10 ^ k⌋₊ < ⌊x * 10 ^ k⌋₊ + 1 := by exact_mod_cast hfloor.trans_lt hlt
      exact_mod_cast Nat.lt_succ_iff.mp hnat
    · have hcast : r.toRat * 10 ^ k = ((⌊x * 10 ^ k⌋₊ + 1 : ℕ) : ℚ) := by
        rw [heq]
        push_cast
        rfl
      rw [hcast, Nat.floor_natCast]
      exact Or.inr rfl

/-- **The sign of a rounded difference is the order of the operands.** -/
theorem sub_pos_iff {a b : Decimal} (h : Rounds (a.toRat - b.toRat) (some r)) :
    0 < r.toRat ↔ b < a := by
  constructor
  · intro hr
    by_contra hc
    rw [Decimal.lt_iff, not_lt] at hc
    have := h.toRat_le (d := Decimal.zero) (by simpa using hc)
    rw [Decimal.toRat_zero] at this
    linarith
  · intro hlt
    exact Decimal.tiny_pos.trans_le (h.le_toRat (Decimal.tiny_le_sub hlt))

/--
**A sum that had to be rounded can be halved:** if half of the exact result is a decimal and the
result itself is none, then it is one digit too long, and what is returned has room for that digit.
-/
theorem isDecimal_half (h : Rounds x (some r)) (hx : ¬ IsDecimal x) (hhalf : IsDecimal (x / 2)) :
    IsDecimal (r.toRat / 2) := by
  obtain ⟨-, s, -, ⟨n, hn⟩, hnear, hroom⟩ := h
  obtain ⟨d, hd⟩ := hhalf
  have hxd : x = 2 * d.toRat := by linarith
  have hpos : (0 : ℚ) < 10 ^ s := by positivity
  have hscale : s < d.scale := by
    by_contra hle
    -- on the grid of the result there is nothing to round
    obtain ⟨m, hm⟩ := onGrid (not_lt.mp hle)
    have hgrid : OnGrid s x := ⟨2 * m, by rw [hxd, mul_assoc, hm]; push_cast; rfl⟩
    exact hx ⟨r, OnGrid.eq_of_abs_sub_le ⟨n, hn⟩ hgrid hnear⟩
  have habs : |x| = 2 * |d.toRat| := by rw [hxd, abs_mul, abs_of_pos (by norm_num : (0 : ℚ) < 2)]
  have hmant : (d.mant : ℚ) ≤ maxMantissa := by exact_mod_cast d.mant_le
  have hone : d.scale = s + 1 := by
    by_contra hne
    have hfine := abs_mul_pow_le (d := d) (s := s + 2) (by omega)
    have hlarge := hroom (hscale.trans_le d.scale_le)
    rw [habs] at hlarge
    rw [pow_succ (10 : ℚ) (s + 1)] at hfine
    have hmax : (0 : ℚ) < maxMantissa := by unfold maxMantissa; norm_num
    linarith
  have hunits : (5 * n).natAbs ≤ maxMantissa := by
    have hfine := abs_mul_pow_le (d := d) (s := s + 1) hone.ge
    have hr : |(n : ℚ)| ≤ |x| * 10 ^ s + 1 / 2 := by
      rw [← hn, abs_mul, abs_of_pos hpos]
      have hle := mul_le_mul_of_nonneg_right (abs_sub_abs_le_abs_sub r.toRat x) hpos.le
      linarith
    rw [habs] at hr
    rw [pow_succ] at hfine
    have hle : 10 * |n| ≤ 2 * (maxMantissa : ℤ) + 5 := by
      have hcast : (10 : ℚ) * |(n : ℚ)| ≤ 2 * maxMantissa + 5 := by linarith
      exact_mod_cast hcast
    rw [Int.abs_eq_natAbs] at hle
    unfold maxMantissa at hle ⊢
    omega
  refine ⟨signed (5 * n) (s + 1) hunits (hone ▸ d.scale_le), ?_⟩
  rw [toRat_signed, pow_succ, Int.cast_mul, ← hn]
  field_simp
  ring

end Rounds

end Infra
