import ArbRouter.Infra.RustDecimal

/-!
# A computable instance of `RustDecimal`

The parameters of `ArbRouter/Infra/RustDecimal.lean` can be met: every operation rounds the exact
rational to each scale that leaves room for it, and keeps a closest candidate. Statements about
fixed inputs are evaluated with it.
-/

namespace Infra.Decimal

/-! ## Nearest candidates -/

/-- The decimal of scale `s` that is closest to `x`, half a unit away from zero. -/
def atScale (x : ℚ) (s : Fin (maxScale + 1)) : Decimal where
  neg := x < 0
  mant := min ⌊|x| * 10 ^ (s : ℕ) + 1 / 2⌋.toNat maxMantissa
  scale := s
  mant_le := min_le_right _ _
  scale_le := Nat.le_of_lt_succ s.isLt

/-- Rounded to the scale, the value leaves room for itself in the mantissa. -/
def Fits (x : ℚ) (s : Nat) : Prop := |x| * 10 ^ s < maxMantissa + 1 / 2

instance (x : ℚ) (s : Nat) : Decidable (Fits x s) :=
  inferInstanceAs (Decidable (|x| * 10 ^ s < maxMantissa + 1 / 2))

/-- A value that fits is rounded by at most half a unit. -/
theorem abs_atScale_sub_le {x : ℚ} {s : Fin (maxScale + 1)} (h : Fits x s) :
    |(atScale x s).toRat - x| * 10 ^ (s : ℕ) ≤ 1 / 2 := by
  have hp : (0 : ℚ) < 10 ^ (s : ℕ) := by positivity
  have hx := mul_nonneg (abs_nonneg x) hp.le
  have hfloor : 0 ≤ ⌊|x| * 10 ^ (s : ℕ) + 1 / 2⌋ := Int.floor_nonneg.mpr (by linarith)
  have hle : ⌊|x| * 10 ^ (s : ℕ) + 1 / 2⌋ ≤ (maxMantissa : ℤ) := by
    unfold Fits at h
    refine Int.lt_add_one_iff.mp (Int.floor_lt.mpr ?_)
    push_cast
    linarith
  have hmant : (((atScale x s).mant : ℕ) : ℤ) = ⌊|x| * 10 ^ (s : ℕ) + 1 / 2⌋ := by
    show ((min ⌊|x| * 10 ^ (s : ℕ) + 1 / 2⌋.toNat maxMantissa : ℕ) : ℤ) = _
    omega
  -- the distance in units of `10^-s`, on the side of `x`
  have hnear : |((atScale x s).mant : ℚ) - |x| * 10 ^ (s : ℕ)| ≤ 1 / 2 := by
    have hcast : ((atScale x s).mant : ℚ) = (⌊|x| * 10 ^ (s : ℕ) + 1 / 2⌋ : ℤ) := by
      rw [← hmant, Int.cast_natCast]
    have h1 := Int.floor_le (|x| * 10 ^ (s : ℕ) + 1 / 2)
    have h2 := Int.lt_floor_add_one (|x| * 10 ^ (s : ℕ) + 1 / 2)
    rw [hcast, abs_le]
    constructor <;> linarith
  have hscaled : |(atScale x s).toRat - x| * 10 ^ (s : ℕ)
      = |((atScale x s).mant : ℚ) - |x| * 10 ^ (s : ℕ)| := by
    rw [← abs_of_pos hp, ← abs_mul, abs_of_pos hp, sub_mul]
    by_cases hneg : x < 0
    · have hsign : (atScale x s).neg = true := by simp [atScale, hneg]
      rw [toRat, hsign, abs_of_neg hneg, if_pos rfl, ← abs_neg]
      congr 1
      show -(-((atScale x s).mant : ℚ) / 10 ^ (s : ℕ) * 10 ^ (s : ℕ) - x * 10 ^ (s : ℕ)) = _
      rw [div_mul_cancel₀ _ hp.ne']
      ring
    · have hsign : (atScale x s).neg = false := by simpa [atScale] using hneg
      rw [toRat, hsign, abs_of_nonneg (not_lt.mp hneg), if_neg (by simp)]
      congr 1
      show ((atScale x s).mant : ℚ) / 10 ^ (s : ℕ) * 10 ^ (s : ℕ) - x * 10 ^ (s : ℕ) = _
      rw [div_mul_cancel₀ _ hp.ne']
  rw [hscaled]
  exact hnear

/-- A closest decimal to `x`, of those that have room for it. -/
def nearest (x : ℚ) : Decimal :=
  (((List.finRange (maxScale + 1)).filter fun s : Fin (maxScale + 1) => Fits x s).argmin
    fun s => |(atScale x s).toRat - x|).elim zero (atScale x)

/-- It has the digits that there is room for, the last of them rounded. -/
theorem nearest_spec {x : ℚ} (hx : |x| ≤ maxMantissa) :
    ∃ s ≤ maxScale, OnGrid s (nearest x).toRat ∧ |(nearest x).toRat - x| * 10 ^ s ≤ 1 / 2 ∧
      (s < maxScale → (maxMantissa : ℚ) + 1 / 2 ≤ |x| * 10 ^ (s + 1)) := by
  set f : Fin (maxScale + 1) → ℚ := fun s => |(atScale x s).toRat - x| with hf
  set fitting := (List.finRange (maxScale + 1)).filter fun s : Fin (maxScale + 1) => Fits x s
    with hfitting
  have hmem : ∀ s : Fin (maxScale + 1), s ∈ fitting ↔ Fits x s := by
    intro s
    simp [hfitting, List.mem_finRange]
  -- the finest scale that has room, whether it is the one that is kept or not
  have hzero : Fits x 0 := by
    unfold Fits
    rw [pow_zero, mul_one]
    linarith
  have hle := Nat.findGreatest_le (P := Fits x) maxScale
  have hfits : Fits x (Nat.findGreatest (Fits x) maxScale) :=
    Nat.findGreatest_spec (Nat.zero_le _) hzero
  have hlast := fun k => Nat.findGreatest_is_greatest (P := Fits x) (n := maxScale) (k := k)
  generalize Nat.findGreatest (Fits x) maxScale = s at hle hfits hlast
  have hs : (⟨s, Nat.lt_succ_of_le hle⟩ : Fin (maxScale + 1)) ∈ fitting := (hmem _).mpr hfits
  obtain ⟨t, ht⟩ : ∃ t, fitting.argmin f = some t := by
    cases h : fitting.argmin f with
    | some t => exact ⟨t, rfl⟩
    | none => exact absurd hs (by simp [List.argmin_eq_none.mp h])
  have hdef : nearest x = atScale x t := by
    unfold nearest
    rw [← hf, ← hfitting, ht]
    rfl
  have htfits : Fits x t := (hmem t).mp (List.argmin_mem ht)
  have hts : (t : ℕ) ≤ s := by
    by_contra hlt
    exact hlast t (not_le.mp hlt) (Nat.le_of_lt_succ t.isLt) htfits
  have hbest : f t ≤ f ⟨s, Nat.lt_succ_of_le hle⟩ := List.le_of_mem_argmin hs ht
  refine ⟨s, hle, ?_, ?_, fun hlt => ?_⟩
  · rw [hdef]
    exact onGrid hts
  · rw [hdef]
    exact (mul_le_mul_of_nonneg_right hbest (by positivity)).trans
      (abs_atScale_sub_le (s := ⟨s, Nat.lt_succ_of_le hle⟩) hfits)
  · exact not_lt.mp (hlast (s + 1) (Nat.lt_succ_self s) hlt)

/-- Round an exact result; nothing when it is larger than the largest mantissa. -/
def ofExact (x : ℚ) : Option Decimal := if |x| ≤ maxMantissa then some (nearest x) else none

theorem ofExact_rounds (x : ℚ) : Rounds x (ofExact x) := by
  unfold ofExact
  split
  · next h => exact ⟨by linarith, nearest_spec h⟩
  · next h => exact not_le.mp h

/-! ## Integers and strings -/

/-- An integer in range, at scale 0. -/
def ofInt (k : ℤ) (h : k.natAbs ≤ maxMantissa) : Decimal := signed k 0 h (Nat.zero_le _)

theorem toRat_ofInt (k : ℤ) (h : k.natAbs ≤ maxMantissa) : (ofInt k h).toRat = k := by
  rw [ofInt, toRat_signed, pow_zero, div_one]

theorem natAbs_floor_le (d : Decimal) : ⌊d.toRat⌋.natAbs ≤ maxMantissa := by
  have h := abs_le.mp d.abs_toRat_le
  have hlo : -(maxMantissa : ℤ) ≤ ⌊d.toRat⌋ := Int.le_floor.mpr (by push_cast; exact h.1)
  have hhi : ⌊d.toRat⌋ ≤ (maxMantissa : ℤ) := by
    have : (⌊d.toRat⌋ : ℚ) ≤ maxMantissa := (Int.floor_le _).trans h.2
    exact_mod_cast this
  omega

/-- The part behind the point. -/
def fractional (d : Decimal) : Decimal :=
  { d with mant := d.mant % 10 ^ d.scale, mant_le := (Nat.mod_le _ _).trans d.mant_le }

theorem toRat_fractional (d : Decimal) (hn : d.neg = false) :
    (fractional d).toRat = Int.fract d.toRat := by
  have hp : (0 : ℚ) < 10 ^ d.scale := by positivity
  have hsplit : (d.mant : ℚ)
      = (d.mant % 10 ^ d.scale : ℕ) + 10 ^ d.scale * (d.mant / 10 ^ d.scale : ℕ) := by
    exact_mod_cast (Nat.mod_add_div d.mant (10 ^ d.scale)).symm
  have hlt : ((d.mant % 10 ^ d.scale : ℕ) : ℚ) < 10 ^ d.scale := by
    exact_mod_cast Nat.mod_lt d.mant (by positivity)
  have hfrac : (fractional d).toRat = (d.mant % 10 ^ d.scale : ℕ) / 10 ^ d.scale := by
    simp [toRat, fractional, hn]
  rw [hfrac, eq_comm, Int.fract_eq_iff]
  refine ⟨by positivity, (div_lt_one hp).mpr hlt, ((d.mant / 10 ^ d.scale : ℕ) : ℤ), ?_⟩
  rw [toRat, hn, if_neg (by simp), ← sub_div, div_eq_iff hp.ne', Int.cast_natCast]
  linarith

/-- A decimal from its parts, if they are in range. -/
def ofParts (neg : Bool) (mant scale : Nat) : Option Decimal :=
  if h : mant ≤ maxMantissa ∧ scale ≤ maxScale then some ⟨neg, mant, scale, h.1, h.2⟩ else none

/-- Digits with an optional point among them. -/
def parseUnsigned (neg : Bool) (l : List Char) : Option Decimal :=
  let frac := (l.dropWhile (· ≠ '.')).drop 1
  let all := l.takeWhile (· ≠ '.') ++ frac
  if all ≠ [] ∧ all.all Char.isDigit then ofParts neg (Nat.ofDigitChars 10 all 0) frac.length
  else none

/-- An optional sign, then digits with an optional point. -/
def parse (s : String) : Option Decimal :=
  if s.toList.head? = some '-' then parseUnsigned true s.toList.tail
  else if s.toList.head? = some '+' then parseUnsigned false s.toList.tail
  else parseUnsigned false s.toList

theorem parse_repr (n : Nat) : parse n.repr = ofParts false n 0 := by
  have hdig : ∀ c ∈ Nat.toDigits 10 n, c.isDigit = true := fun c hc =>
    Nat.isDigit_of_mem_toDigits (by decide) (by decide) hc
  have hne : ∀ c ∈ Nat.toDigits 10 n, ∀ d : Char, d.isDigit = false → c ≠ d := by
    intro c hc d hd he
    rw [← he, hdig c hc] at hd
    simp at hd
  have hhead : ∀ d : Char, d.isDigit = false → (Nat.toDigits 10 n).head? ≠ some d := by
    intro d hd he
    exact hne d (List.mem_of_mem_head? he) d hd rfl
  have htake : (Nat.toDigits 10 n).takeWhile (· ≠ '.') = Nat.toDigits 10 n :=
    List.takeWhile_eq_self_iff.mpr fun c hc => by simpa using hne c hc '.' (by decide)
  have hdrop : (Nat.toDigits 10 n).dropWhile (· ≠ '.') = [] :=
    List.dropWhile_eq_nil_iff.mpr fun c hc => by simpa using hne c hc '.' (by decide)
  unfold parse
  rw [Nat.toList_repr, if_neg (hhead '-' (by decide)), if_neg (hhead '+' (by decide))]
  unfold parseUnsigned
  rw [htake, hdrop]
  simp only [List.drop_nil, List.append_nil, List.length_nil]
  rw [if_pos ⟨Nat.toDigits_ne_nil, List.all_eq_true.mpr hdig⟩, Nat.ofDigitChars_ten_toDigits]

end Infra.Decimal

namespace Infra

/-- The operations of `rust_decimal`, computed on exact rationals. -/
@[reducible] def RustDecimal.reference : RustDecimal where
  checkedAdd a b := Decimal.ofExact (a.toRat + b.toRat)
  checkedSub a b := Decimal.ofExact (a.toRat - b.toRat)
  checkedMul a b := Decimal.ofExact (a.toRat * b.toRat)
  checkedDiv a b := if b.toRat = 0 then none else Decimal.ofExact (a.toRat / b.toRat)
  floor a := Decimal.ofInt ⌊a.toRat⌋ a.natAbs_floor_le
  fract := Decimal.fractional
  toU32 a := if a.neg = false ∧ ⌊a.toRat⌋.toNat < 2 ^ 32 then
    some (UInt32.ofNat ⌊a.toRat⌋.toNat) else none
  toStr a := String.ofList a.render
  fromStr := Decimal.parse
  add_rounds _ _ := Decimal.ofExact_rounds _
  sub_rounds _ _ := Decimal.ofExact_rounds _
  mul_rounds _ _ := Decimal.ofExact_rounds _
  div_rounds a b h := by rw [if_neg h]; exact Decimal.ofExact_rounds _
  div_zero a b h := if_pos h
  floor_toRat a := Decimal.toRat_ofInt _ _
  floor_scale _ := rfl
  fract_toRat := Decimal.toRat_fractional
  toU32_eq a h := by simp only [h, true_and]; rfl
  toStr_eq _ := rfl
  fromStr_repr n h := by rw [Decimal.parse_repr, Decimal.ofParts, dif_pos ⟨h, Nat.zero_le _⟩]; rfl
  fromStr_repr_none n h := by
    rw [Decimal.parse_repr, Decimal.ofParts, dif_neg fun hc => absurd hc.1 (not_le.mpr h)]

end Infra
