import ArbRouter.Properties.Quoting
import ArbRouter.Properties.Scan

/-!
# When a scan tick panics

The only operators of a tick that can panic are the quotient and the product of `roi_bps`: the
differences are taken between amounts and values that are not negative, everything else is checked.

* `ReturnFits` — the returns `roi_bps` can express, `exists_roiBps_iff`
* `returnFits_of_le` — a bound on base and gain under which the return fits
* `roiBps_clamps` — where the return fits but exceeds `u32`, it is clamped
* `scanOnce_completes_iff` — the snapshots over which a tick completes
-/

namespace ArbRouter

open Infra RustDecimal

section

variable [RustDecimal]

/-! ## The return in basis points -/

/-- The ratio of a gain to its base is at most `(2^96 - 1) / 10_000`, once rounded. -/
def ReturnFits (base gain : Decimal) : Prop :=
  Decimal.zero < base → Decimal.zero < gain →
    ∃ ratio, checkedDiv gain base = some ratio ∧ ratio.toRat * 10 ^ 4 ≤ maxMantissa

theorem exists_mul_tenThousand_iff {ratio : Decimal} (h : 0 ≤ ratio.toRat) :
    (∃ bps, mul ratio tenThousand = .ok bps) ↔ ratio.toRat * 10 ^ 4 ≤ maxMantissa := by
  simp only [mul_eq_ok]
  exact exists_checkedMul_pow_ten h (k := 4) (by decide)

/-- **`roi_bps` panics** where the return does not fit. -/
theorem exists_roiBps_iff {base gain : Decimal} :
    (∃ roi, roiBps base gain = .ok roi) ↔ ReturnFits base gain := by
  unfold roiBps
  by_cases h : base ≤ Decimal.zero ∨ gain ≤ Decimal.zero
  · -- without base or gain the return is 0, and nothing is divided
    rw [if_pos h]
    constructor
    · rintro - hbase hgain
      rcases h with h | h
      · exact absurd h hbase.not_ge
      · exact absurd h hgain.not_ge
    · exact fun _ => ⟨0, rfl⟩
  · rw [if_neg h]
    obtain ⟨hbase, hgain⟩ : Decimal.zero < base ∧ Decimal.zero < gain := by
      simpa only [not_or, Decimal.le_iff, Decimal.lt_iff, not_le] using h
    have hratio : ∀ ratio, checkedDiv gain base = some ratio → 0 ≤ ratio.toRat := fun ratio hr =>
      checkedDiv_nonneg hr (Decimal.zero_lt_iff.mp hgain).le (Decimal.zero_lt_iff.mp hbase).le
    constructor
    · rintro ⟨roi, hroi⟩ - -
      obtain ⟨ratio, hdiv, hroi⟩ := bind_eq_ok.mp hroi
      obtain ⟨bps, hmul, -⟩ := bind_eq_ok.mp hroi
      rw [div_eq_ok] at hdiv
      exact ⟨ratio, hdiv, (exists_mul_tenThousand_iff (hratio ratio hdiv)).mp ⟨bps, hmul⟩⟩
    · intro hfits
      obtain ⟨ratio, hdiv, hle⟩ := hfits hbase hgain
      obtain ⟨bps, hmul⟩ := (exists_mul_tenThousand_iff (hratio ratio hdiv)).mpr hle
      exact ⟨_, bind_eq_ok.mpr ⟨ratio, div_eq_ok.mpr hdiv, bind_eq_ok.mpr ⟨bps, hmul, rfl⟩⟩⟩

/-- The largest ratio that fits, `(2^96 - 1) / 10_000`, is a decimal. -/
def maxRatio : Decimal := ⟨false, maxMantissa, 4, le_refl _, by decide⟩

/-- Rounding the ratio does not cross the bound. -/
theorem returnFits_of_le {base gain : Decimal}
    (h : gain.toRat * 10 ^ 4 ≤ maxMantissa * base.toRat) : ReturnFits base gain := by
  intro hbase hgain
  have hb : 0 < base.toRat := Decimal.zero_lt_iff.mp hbase
  have hg : 0 < gain.toRat := Decimal.zero_lt_iff.mp hgain
  have hmax : maxRatio.toRat = maxMantissa / 10 ^ 4 := rfl
  have hle : gain.toRat / base.toRat ≤ maxRatio.toRat := by
    rw [hmax, div_le_div_iff₀ hb (by positivity)]
    exact h
  have hdiv := div_rounds gain base hb.ne'
  obtain ⟨ratio, hratio⟩ := hdiv.exists_some (by
    rw [abs_of_pos (div_pos hg hb)]
    exact hle.trans ((le_abs_self _).trans maxRatio.abs_toRat_le))
  -- `maxRatio` is itself a decimal, so a quotient below it is not rounded beyond it
  rw [hratio] at hdiv
  refine ⟨ratio, hratio, ?_⟩
  have := hdiv.toRat_le hle
  rw [hmax, le_div_iff₀ (by positivity)] at this
  exact this

/-- Where the return fits but exceeds `u32`, it is clamped. -/
theorem roiBps_clamps {base gain ratio bps : Decimal} (hbase : Decimal.zero < base)
    (hgain : Decimal.zero < gain) (hdiv : checkedDiv gain base = some ratio)
    (hmul : checkedMul ratio tenThousand = some bps) (hlarge : 2 ^ 32 ≤ bps.toRat) :
    roiBps base gain = .ok (UInt32.ofNat (2 ^ 32 - 1)) := by
  have hneg : bps.neg = false := Decimal.not_neg_of_pos (lt_of_lt_of_le (by norm_num) hlarge)
  have hfloor : ¬ ⌊bps.toRat⌋₊ < 2 ^ 32 := not_lt.mpr (Nat.le_floor (by exact_mod_cast hlarge))
  unfold roiBps
  rw [if_neg (not_or.mpr ⟨hbase.not_ge, hgain.not_ge⟩)]
  refine bind_eq_ok.mpr ⟨ratio, div_eq_ok.mpr hdiv, bind_eq_ok.mpr ⟨bps, mul_eq_ok.mpr hmul, ?_⟩⟩
  rw [toU32_eq bps hneg, if_neg hfloor]
  rfl

/-! ## Amounts and values are not negative -/

theorem pow10_nonneg {n : UInt8} {r : Decimal} (h : pow10 n = some r) : 0 ≤ r.toRat := by
  rw [(toRat_pow10 h).1]
  positivity

/-- Every price of the table is positive. -/
def PriceTable.Positive (table : PriceTable) : Prop :=
  ∀ asset p, table asset = some p → Decimal.zero < p.val

section

variable {table : PriceTable} {registry : AssetRegistry} {asset : AssetId}

theorem valueOf_nonneg (htable : table.Positive) {amount : Amount} {value : Usd}
    (hamount : 0 ≤ amount.val.toRat) (h : valueOf table registry asset amount = some value) :
    0 ≤ value.val.toRat := by
  unfold valueOf at h
  simp only [Option.bind_eq_bind, Option.bind_eq_some_iff] at h
  obtain ⟨info, -, divisor, hdivisor, price, hprice, whole, hwhole, x, hx, hvalue⟩ := h
  obtain rfl : Usd.mk x = value := Option.some.inj hvalue
  have hp : 0 < price.val.toRat := Decimal.zero_lt_iff.mp (htable asset price hprice)
  exact checkedMul_nonneg hx (checkedDiv_nonneg hwhole hamount (pow10_nonneg hdivisor)) hp.le

theorem sizeOf_nonneg (htable : table.Positive) {usd : Usd} {input : Amount}
    (husd : Decimal.zero < usd.val) (h : sizeOf table registry asset usd = some input) :
    0 ≤ input.val.toRat := by
  unfold sizeOf at h
  simp only [Option.bind_eq_bind, Option.bind_eq_some_iff] at h
  obtain ⟨info, -, price, hprice, whole, hwhole, unit, hunit, scaled, hscaled, hinput⟩ := h
  obtain rfl : Amount.mk (floor scaled) = input := Option.some.inj hinput
  have hp : 0 < price.val.toRat := Decimal.zero_lt_iff.mp (htable asset price hprice)
  have hu : 0 < usd.val.toRat := Decimal.zero_lt_iff.mp husd
  have hscaled0 := checkedMul_nonneg hscaled (checkedDiv_nonneg hwhole hu.le hp.le)
    (pow10_nonneg hunit)
  show 0 ≤ (floor scaled).toRat
  rw [floor_toRat]
  exact_mod_cast Int.floor_nonneg.mpr hscaled0

end

namespace Scanner

variable {σ ν P : Type} [Pool P] {sc : Scanner σ ν P} {table : PriceTable}

/-! ## One path -/

/-- The return of a path is computed from the amounts of a cycle, or from the values of its ends. -/
def PathReturnFits (sc : Scanner σ ν P) (path : Path) (input output : Amount) : Prop :=
  if path.isCycle then
    ∀ gain, checkedSub output.val input.val = some gain → ReturnFits input.val gain
  else
    ∀ inUsd outUsd profit, sc.Values path.start input inUsd →
      sc.Values path.destination output outUsd →
      checkedSub outUsd.val inUsd.val = some profit → ReturnFits inUsd.val profit

/-- `price` panics exactly where the return of the path does not fit. -/
theorem exists_priceOf_iff [Nonempty σ] (h : sc.valuation.Stable table) (htable : table.Positive)
    {path : Path} {input output : Amount} (hinput : 0 ≤ input.val.toRat)
    (houtput : 0 ≤ output.val.toRat) :
    (∃ r, sc.priceOf table path input output = .ok r) ↔ sc.PathReturnFits path input output := by
  unfold priceOf PathReturnFits
  by_cases hc : path.isCycle = true
  · rw [if_pos hc, if_pos hc]
    obtain ⟨gain, hgain⟩ := exists_checkedSub houtput hinput
    have hsub : RustDecimal.sub output.val input.val = .ok gain := sub_eq_ok.mpr hgain
    have hamount : output.sub input = .ok ⟨gain⟩ := bind_eq_ok.mpr ⟨gain, hsub, rfl⟩
    rw [hamount, hsub]
    refine exists_bind_pure_ok.trans (exists_roiBps_iff.trans ?_)
    constructor
    · intro hfits g hg
      rwa [← Option.some.inj (hgain.symm.trans hg)]
    · exact fun hfits => hfits gain hgain
  · rw [if_neg hc, if_neg hc]
    unfold netProfitOf
    -- an end without a value makes the profit `none` and the return 0
    cases hin : valueOf table sc.registry path.start input with
    | none =>
      refine ⟨fun _ inUsd _ _ hv => ?_, fun _ => ⟨(none, 0), rfl⟩⟩
      exact absurd ((values_iff h).mp hv) (by simp [hin])
    | some inUsd =>
      cases hout : valueOf table sc.registry path.destination output with
      | none =>
        refine ⟨fun _ _ outUsd _ _ hv => ?_, fun _ => ⟨(none, 0), rfl⟩⟩
        exact absurd ((values_iff h).mp hv) (by simp [hout])
      | some outUsd =>
        obtain ⟨profit, hprofit⟩ := exists_checkedSub (valueOf_nonneg htable houtput hout)
          (valueOf_nonneg htable hinput hin)
        have hsub : RustDecimal.sub outUsd.val inUsd.val = .ok profit := sub_eq_ok.mpr hprofit
        simp only [hsub]
        refine exists_bind_pure_ok.trans (exists_roiBps_iff.trans ?_)
        constructor
        · intro hfits inUsd' outUsd' profit' hin' hout' hprofit'
          obtain rfl := Option.some.inj (hin.symm.trans ((values_iff h).mp hin'))
          obtain rfl := Option.some.inj (hout.symm.trans ((values_iff h).mp hout'))
          rwa [← Option.some.inj (hprofit.symm.trans hprofit')]
        · intro hfits
          exact hfits inUsd outUsd profit ((values_iff h).mpr hin) ((values_iff h).mpr hout) hprofit

/-! ## The tick -/

theorem exists_evaluateOf_iff {snapshot : PoolSnapshot P} {path : Path} {now : OffsetDateTime} :
    (∃ r, sc.evaluateOf table snapshot path now = .ok r) ↔
      (isFresh snapshot path now MAX_POOL_STALENESS = true → ∀ input output,
        sizeOf table sc.registry path.start sc.cfg.inputUsd = some input →
        quotePath snapshot path input = some output →
        ∃ r, sc.priceOf table path input output = .ok r) := by
  unfold evaluateOf
  by_cases hf : isFresh snapshot path now MAX_POOL_STALENESS = true
  · rw [if_pos hf]
    cases hsize : sizeOf table sc.registry path.start sc.cfg.inputUsd with
    | none => simp
    | some input =>
      simp only
      cases hquote : quotePath snapshot path input with
      | none =>
        refine ⟨fun _ _ input' output' hinput houtput => ?_, fun _ => ⟨none, rfl⟩⟩
        obtain rfl := Option.some.inj hinput
        rw [hquote] at houtput
        cases houtput
      | some output =>
        refine exists_map_ok.trans ?_
        constructor
        · rintro hprice - input' output' hinput houtput
          obtain rfl := Option.some.inj hinput
          obtain rfl := Option.some.inj (hquote.symm.trans houtput)
          exact hprice
        · exact fun hprice => hprice hf input output rfl hquote
  · simp [hf]

/-- A tick completes exactly when every path is evaluated without panic. -/
theorem exists_scanOnce_iff (h : sc.valuation.Stable table) {order : IterOrder Opportunity}
    {now : OffsetDateTime} {s : σ} {n : ν} :
    (∃ r, (sc.scanOnce order now).run (s, n) = .ok r) ↔
      ∀ path ∈ sc.paths (sc.poolStore sc.chain),
        ∃ r, sc.evaluateOf table (sc.poolStore sc.chain) path now = .ok r := by
  have hranked : (∃ r, (sc.scanOnce order now).run (s, n) = .ok r) ↔
      ∃ p, (sc.scanRanked order now).run s = .ok p := by
    show (∃ r, sc.scanOnce order now (s, n) = .ok r) ↔ _
    unfold scanOnce
    cases hr : (sc.scanRanked order now).run s with
    | error panic => simp [hr]
    | ok p =>
      refine ⟨fun _ => ⟨p, rfl⟩, fun _ => ?_⟩
      simp only [hr]
      rcases sc.notifier.notify sc.chain p.1 n with ⟨res, n'⟩
      cases res <;> exact ⟨_, rfl⟩
  rw [hranked, (scanRanked_yields h order now).exists_ok_iff, exists_map_ok]
  unfold scanOppsOf
  rw [exists_map_ok, exists_mapM_ok]

/-- A quoted path of a sized input ends in an integer. -/
theorem quotePath_nonneg [Alloy] {snapshot : PoolSnapshot AmmCorePool} {registry : AssetRegistry}
    {asset : AssetId} {usd : Usd} {path : Path} {input output : Amount}
    (hsize : sizeOf table registry asset usd = some input)
    (hquote : quotePath snapshot path input = some output) : 0 ≤ output.val.toRat := by
  have hne : path.hops ≠ [] := by
    intro hnil
    unfold quotePath at hquote
    rw [if_pos hnil] at hquote
    simp at hquote
  obtain ⟨d, rfl⟩ := exists_floor_of_sizeOf hsize
  obtain ⟨x, z, -, -, -, hz, rfl⟩ := (quotePath_floor hne).mp hquote
  exact Decimal.nonneg_of_not_neg rfl

/--
**A tick over `amm-core` pools completes** if and only if the return fits on every path that is
found, fresh, sized and quoted.
-/
theorem scanOnce_completes_iff [Alloy] (sc : Scanner σ ν AmmCorePool) (table : PriceTable)
    (hstable : sc.valuation.Stable table) (htable : table.Positive)
    (husd : Decimal.zero < sc.cfg.inputUsd.val) (order : IterOrder Opportunity)
    (now : OffsetDateTime) (s : σ) (n : ν) :
    (∃ r, (sc.scanOnce order now).run (s, n) = .ok r) ↔
      ∀ start ∈ sc.cfg.startAssets,
        ∀ path ∈ findPaths ⟨sc.poolStore sc.chain⟩ start sc.cfg.maxHops,
        FreshAt (sc.poolStore sc.chain) path now → ∀ input output, sc.Sizes path.start input →
        quotePath (sc.poolStore sc.chain) path input = some output →
        sc.PathReturnFits path input output := by
  have : Nonempty σ := ⟨s⟩
  rw [exists_scanOnce_iff hstable]
  simp only [mem_paths, exists_evaluateOf_iff, isFresh_iff, sizes_iff hstable]
  constructor
  · intro h start hstart path hpath hfresh input output hsize hquote
    exact (exists_priceOf_iff hstable htable (sizeOf_nonneg htable husd hsize)
      (quotePath_nonneg hsize hquote)).mp
      (h path ⟨start, hstart, hpath⟩ hfresh input output hsize hquote)
  · rintro h path ⟨start, hstart, hpath⟩ hfresh input output hsize hquote
    exact (exists_priceOf_iff hstable htable (sizeOf_nonneg htable husd hsize)
      (quotePath_nonneg hsize hquote)).mpr
      (h start hstart path hpath hfresh input output hsize hquote)

end Scanner

end

section

attribute [local instance] RustDecimal.reference Alloy.reference

/-- Only A has a price, of one dollar. -/
def onlyTokenA : PriceTable := fun asset => if asset = tokenA then some ⟨Decimal.one⟩ else none

theorem onlyTokenA_positive : onlyTokenA.Positive := by
  intro asset p h
  unfold onlyTokenA at h
  split at h
  · obtain rfl : (⟨Decimal.one⟩ : Usd) = p := Option.some.inj h
    exact Decimal.one_pos
  · cases h

/-- A scanner that puts one dollar into every path from A. -/
def dollarScanner (snapshot : PoolSnapshot AmmCorePool) :
    Scanner Unit (List Opportunity) AmmCorePool where
  chain := ⟨"ethereum"⟩
  poolStore _ := snapshot
  valuation := fakeValuation onlyTokenA
  notifier := recordingNotifier
  registry := (AList.singleton tokenA ⟨0, "A"⟩).insert tokenB ⟨0, "B"⟩
  cfg := ⟨[tokenA], 2, ⟨Decimal.one⟩⟩
  executor := none

/-- On the pools that double and add one, a tick completes, so the return from 1 to 3 fits. -/
theorem return_fits_tokenCycle :
    (dollarScanner doublingPools).PathReturnFits tokenCycle (Amount.ofNat 1 (by decide))
      (Amount.ofNat 3 (by decide)) := by
  have hok : (((dollarScanner doublingPools).scanOnce (IterOrder.stored _) 0).run
      ((), [])).toOption.isSome = true := by
    decide +kernel
  have hcompletes : ∃ r, ((dollarScanner doublingPools).scanOnce (IterOrder.stored _) 0).run
      ((), []) = .ok r := by
    cases hrun : ((dollarScanner doublingPools).scanOnce (IterOrder.stored _) 0).run ((), []) with
    | error panic =>
      rw [hrun] at hok
      cases hok
    | ok r => exact ⟨r, rfl⟩
  have hstable : (dollarScanner doublingPools).valuation.Stable onlyTokenA :=
    fakeValuation_stable onlyTokenA
  exact (Scanner.scanOnce_completes_iff (dollarScanner doublingPools) onlyTokenA hstable
    onlyTokenA_positive Decimal.one_pos (IterOrder.stored _) 0 () []).mp hcompletes tokenA
    List.mem_cons_self tokenCycle (by decide +kernel) (isFresh_iff.mp (by decide +kernel)) _ _
    ((Scanner.sizes_iff hstable).mpr (by decide +kernel)) (by decide +kernel)

/-- One pool pays out the largest quotable amount, the other passes it on. -/
def jackpotPools : PoolSnapshot AmmCorePool :=
  PoolSnapshot.fromEntries 1 0 [ammEntry "p1" fun _ => maxMantissa, ammEntry "p2" id]

/-- On a cycle from 1 to `2^96 - 1` the return overflows before it can be clamped. -/
theorem scanOnce_panics :
    (dollarScanner jackpotPools).valuation.Stable onlyTokenA ∧ onlyTokenA.Positive ∧
      Decimal.zero < (dollarScanner jackpotPools).cfg.inputUsd.val ∧
      ((dollarScanner jackpotPools).scanOnce (IterOrder.stored _) 0).run ((), [])
        = .error .overflow :=
  ⟨fakeValuation_stable _, onlyTokenA_positive, Decimal.one_pos, by decide +kernel⟩

end

end ArbRouter
