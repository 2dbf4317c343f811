import ArbRouter.Core.TestUtils
import ArbRouter.Infra.DecimalReference

/-!
# The size of a quoted input

`amount_for_usd` divides before it scales to base units, so the quotient is rounded to a `Decimal`
first. The scaled product is exact, and its floor is taken of the rounded quotient.

* `sizeOf_eq_some` — the size as a floor of the rounded quotient
* `amountForUsd_near` — how far it is from the exact quotient
-/

namespace ArbRouter

open Infra RustDecimal

section

variable [RustDecimal] {σ : Type}

/-- A size is the floor of the rounded quotient, in base units; the scaling is exact. -/
theorem sizeOf_eq_some {table : PriceTable} {registry : AssetRegistry} {asset : AssetId}
    {usd : Usd} {amount : Amount} {price : Usd} (hprice : table asset = some price)
    (h : sizeOf table registry asset usd = some amount) :
    ∃ info quotient, registry.lookup asset = some info ∧ info.decimals.toNat ≤ maxScale ∧
      checkedDiv usd.val price.val = some quotient ∧
      |quotient.toRat * 10 ^ info.decimals.toNat| ≤ maxMantissa ∧
      amount.val.toRat = ⌊quotient.toRat * 10 ^ info.decimals.toNat⌋ := by
  unfold sizeOf at h
  simp only [Option.bind_eq_bind, Option.bind_eq_some_iff] at h
  obtain ⟨info, hinfo, price', hprice', quotient, hquotient, unit, hunit, scaled, hscaled,
    hamount⟩ := h
  obtain rfl : price = price' := Option.some.inj (hprice.symm.trans hprice')
  obtain ⟨hten, hscale⟩ := toRat_pow10 hunit
  have hexact : scaled.toRat = quotient.toRat * 10 ^ info.decimals.toNat :=
    toRat_checkedMul_pow_ten hscaled hten
  refine ⟨info, quotient, hinfo, hscale, hquotient, ?_, ?_⟩
  · rw [← hexact]
    exact scaled.abs_toRat_le
  · rw [← Option.some.inj hamount, floor_toRat, hexact]

omit [RustDecimal] in
/-- The floor of a rounded quotient in units of `10^-k`, against the exact quotient. -/
theorem floor_quotient_near {u p : ℚ} {quotient : Decimal}
    (hrounds : Rounds (u / p) (some quotient))
    (hu : 0 ≤ u) (hp : 0 < p) {k : Nat} (hk : k ≤ maxScale)
    (hfits : quotient.toRat * 10 ^ k ≤ maxMantissa) :
    let a := ⌊quotient.toRat * 10 ^ k⌋₊
    a * p ≤ u * 10 ^ k + p / 2 ∧ u * 10 ^ k < (a + 1) * p ∧
      (a * p ≤ u * 10 ^ k ∨ quotient.toRat * 10 ^ k = a) := by
  intro a
  have hunits : u / p * 10 ^ k = u * 10 ^ k / p := div_mul_eq_mul_div _ _ _
  obtain ⟨hhalf, hlower, hup⟩ := hrounds.floor_mul_pow_ten (div_nonneg hu hp.le) hk hfits
  rw [hunits] at hhalf hlower hup
  refine ⟨?_, (div_lt_iff₀ hp).mp hlower, hup.imp (le_div_iff₀ hp).mp id⟩
  have hmul := mul_le_mul_of_nonneg_right hhalf hp.le
  rw [add_mul, div_mul_cancel₀ _ hp.ne'] at hmul
  linarith

/--
**The size** is an integer of base units, at least the floor of the exact quotient. It costs more
than `usd` only if the quotient was rounded up to it, and then by at most the price of half a base
unit; with a quotient that is a `Decimal` it is the floor.
-/
theorem amountForUsd_near (v : Valuation σ) (registry : AssetRegistry) (asset : AssetId) (usd : Usd)
    (s s' : σ) (amount : Amount) (price : Usd)
    (hrun : (amountForUsd v registry asset usd).run.run s = .ok (some amount, s'))
    (hprice : (v.price asset s).1 = .ok price) (hpos : 0 < price.val.toRat)
    (husd : 0 ≤ usd.val.toRat) :
    ∃ info quotient, registry.lookup asset = some info ∧
      checkedDiv usd.val price.val = some quotient ∧ ∃ a : ℕ, amount.val.toRat = a ∧
      let scaled := usd.val.toRat * 10 ^ info.decimals.toNat
      a * price.val.toRat ≤ scaled + price.val.toRat / 2 ∧
      scaled < (a + 1) * price.val.toRat ∧
      (a * price.val.toRat ≤ scaled ∨ quotient.toRat * 10 ^ info.decimals.toNat = a) ∧
      ((∃ d : Decimal, d.toRat = usd.val.toRat / price.val.toRat) →
        a * price.val.toRat ≤ scaled ∧ scaled < (a + 1) * price.val.toRat) := by
  obtain ⟨read, hread, hsize⟩ := amountForUsd_some hrun
  obtain rfl : price = read := by
    rw [hread] at hprice
    exact (Except.ok.inj hprice).symm
  obtain ⟨info, quotient, hinfo, hscale, hquotient, hfits, hamount⟩ := sizeOf_eq_some rfl hsize
  have hrounds := div_rounds usd.val price.val hpos.ne'
  rw [hquotient] at hrounds
  have hnonneg : 0 ≤ quotient.toRat * 10 ^ info.decimals.toNat :=
    mul_nonneg (hrounds.nonneg (div_nonneg husd hpos.le)) (by positivity)
  obtain ⟨hhalf, hlower, hup⟩ :=
    floor_quotient_near hrounds husd hpos hscale ((le_abs_self _).trans hfits)
  refine ⟨info, quotient, hinfo, hquotient, ⌊quotient.toRat * 10 ^ info.decimals.toNat⌋₊, ?_, hhalf,
    hlower, hup, ?_⟩
  · rw [hamount, natCast_floor_eq_intCast_floor hnonneg]
  · rintro ⟨d, hd⟩
    have hfloor := Nat.floor_le hnonneg
    rw [hrounds.toRat_eq hd, div_mul_eq_mul_div] at hfloor hlower ⊢
    exact ⟨(le_div_iff₀ hpos).mp hfloor, hlower⟩

end

section

attribute [local instance] RustDecimal.reference

/-- The size of `usd` at `price`, for an asset of that many decimals. -/
def sizeAt (usd price : Decimal) (decimals : UInt8) : Except Panic (Option Amount × Unit) :=
  (amountForUsd (fakeValuation fun _ => some ⟨price⟩ : Valuation Unit)
    (AList.singleton assetA ⟨decimals, "A"⟩) assetA ⟨usd⟩).run.run ()

/-- Two dollars at a price of three, with 28 decimals: `0.666…` is rounded up, and the size costs
more than two dollars. -/
theorem sizeAt_off_by_one :
    sizeAt (Decimal.ofUInt64 2) (Decimal.ofUInt64 3) 28
        = .ok (some (Amount.ofNat 6666666666666666666666666667 (by decide)), ()) ∧
      ¬ 6666666666666666666666666667 * 3 ≤ 2 * 10 ^ 28 := by
  refine ⟨?_, by decide⟩
  decide +kernel

/-- A thousand dollars at a price of two, with six decimals. -/
theorem sizeAt_thousand : ∃ a : ℕ, (500000000 : ℚ) = a ∧
    (a : ℚ) * 2 ≤ 1000 * 10 ^ 6 + 2 / 2 := by
  have hrun : sizeAt (Decimal.ofUInt64 1000) (Decimal.ofUInt64 2) 6
      = .ok (some (Amount.ofNat 500000000 (by decide)), ()) := by
    decide +kernel
  have hprice : (Decimal.ofUInt64 2).toRat = 2 := Decimal.toRat_ofNat 2 _
  have husd : (Decimal.ofUInt64 1000).toRat = 1000 := Decimal.toRat_ofNat 1000 _
  obtain ⟨info, quotient, hinfo, -, a, ha, hle, -⟩ :=
    amountForUsd_near (fakeValuation fun _ => some ⟨Decimal.ofUInt64 2⟩ : Valuation Unit)
      (AList.singleton assetA ⟨6, "A"⟩) assetA ⟨Decimal.ofUInt64 1000⟩ () () _
      ⟨Decimal.ofUInt64 2⟩ hrun rfl (by rw [hprice]; norm_num) (by rw [husd]; norm_num)
  have hsix : (AList.singleton assetA ⟨6, "A"⟩ : AssetRegistry).lookup assetA = some ⟨6, "A"⟩ := rfl
  obtain rfl := Option.some.inj (hsix.symm.trans hinfo)
  refine ⟨a, ?_, ?_⟩
  · rw [← ha]
    exact (Decimal.toRat_ofNat 500000000 _).symm
  · rw [hprice, husd] at hle
    exact hle

end

end ArbRouter
