import ArbRouter.Core.PoolStore
import ArbRouter.Infra.Tick

/-!
# Quoting and pricing

`core/application/evaluation/detect.rs`: quote a path hop by hop, convert between base units and
dollars, and decide whether a path increases value.

The functions that read prices are programs over a state `σ`, because the feeds may write between
two reads. Each has three lemmas: `..._yields` gives its result as a function of the prices when
these do not change, `..._some` splits a run into its price reads, and `..._keeps` says that a run
leaves what every read leaves.
-/

namespace ArbRouter

open Infra RustDecimal

/-! ## The valuation port -/

inductive ValuationError where
  | notFound (asset : String)
  | internal (msg : String)
deriving DecidableEq

/-- The `Valuation` port. A read may find another price each time. -/
structure Valuation (σ : Type) where
  price : AssetId → σ → Except ValuationError Usd × σ

/-- The price of an asset, if it has one. -/
abbrev PriceTable := AssetId → Option Usd

/-- A read leaves what holds of the state. -/
def Valuation.Keeps {σ : Type} (v : Valuation σ) (Inv : σ → Prop) : Prop :=
  ∀ asset s, Inv s → Inv (v.price asset s).2

/-- Every read finds the price of the table. -/
def Valuation.Stable {σ : Type} (v : Valuation σ) (table : PriceTable) : Prop :=
  ∀ asset s, (v.price asset s).1.toOption = table asset

variable {σ P : Type} [Pool P]

/-- `valuation.price(asset).await.ok()?`. -/
def readPrice (v : Valuation σ) (asset : AssetId) : OptionT (Tick Panic σ) Usd :=
  OptionT.mk do return (← Tick.ofRead (v.price asset)).toOption

theorem readPrice_some {v : Valuation σ} {asset : AssetId} {s s' : σ} {p : Usd} :
    (readPrice v asset).run.run s = .ok (some p, s') ↔ v.price asset s = (.ok p, s') := by
  have hrun : (readPrice v asset).run.run s
      = .ok ((v.price asset s).1.toOption, (v.price asset s).2) := rfl
  rw [hrun]
  rcases v.price asset s with ⟨r, s₁⟩
  simp [toOption_eq_some]

theorem readPrice_keeps {v : Valuation σ} {Inv : σ → Prop} (h : v.Keeps Inv) (asset : AssetId) :
    Tick.Keeps Inv (readPrice v asset).run :=
  (Tick.Keeps.ofRead (h asset)).bind fun r => Tick.Keeps.pure r.toOption

theorem readPrice_yields {v : Valuation σ} {table : PriceTable} (h : v.Stable table)
    (asset : AssetId) : Yields (readPrice v asset).run (.ok (table asset)) := by
  intro s
  refine ⟨(v.price asset s).2, ?_⟩
  rw [← h asset s]
  rfl

/-! ## Quoting -/

/-- `quote_path`: each hop's output is the next hop's input. -/
def quotePath (snapshot : PoolSnapshot P) (path : Path) (input : Amount) : Option Amount :=
  if path.hops = [] then none
  else
    path.hops.foldlM (fun amount hop => do
      let entry ← snapshot.get hop.pool
      Pool.quote entry.pool hop.pair amount) input

/-! ## Conversion to and from dollars -/

variable [RustDecimal]

/-- Per-asset metadata. -/
abbrev AssetRegistry := HashMap AssetId AssetMeta

def ten : Decimal := Decimal.ofNat 10 (by decide)

/-- The loop of `pow10`: `n` more multiplications by ten. -/
def pow10Loop : Nat → Decimal → Option Decimal
  | 0, value => some value
  | n + 1, value => do pow10Loop n (← checkedMul value ten)

/-- `10^n`, or `none` beyond the representable range. -/
def pow10 (n : UInt8) : Option Decimal := pow10Loop n.toNat Decimal.one

theorem toRat_pow10Loop {n : Nat} {value r : Decimal} (h : pow10Loop n value = some r) :
    r.toRat = value.toRat * 10 ^ n := by
  induction n generalizing value with
  | zero =>
    rw [← Option.some.inj h, pow_zero, mul_one]
  | succ n ih =>
    obtain ⟨next, hnext, hrest⟩ := Option.bind_eq_some_iff.mp h
    have hten : ten.toRat = 10 ^ 1 := Decimal.toRat_ofNat 10 _
    rw [ih hrest, toRat_checkedMul_pow_ten hnext hten, pow_succ']
    ring

/-- A power of ten is exact, and has at most 28 zeros. -/
theorem toRat_pow10 {n : UInt8} {r : Decimal} (h : pow10 n = some r) :
    r.toRat = 10 ^ n.toNat ∧ n.toNat ≤ maxScale := by
  have hr : r.toRat = 10 ^ n.toNat := by
    rw [toRat_pow10Loop h, Decimal.toRat_one, one_mul]
  refine ⟨hr, ?_⟩
  by_contra hlarge
  have hpow : (10 : ℚ) ^ (maxScale + 1) ≤ 10 ^ n.toNat :=
    pow_le_pow_right₀ (by norm_num) (not_le.mp hlarge)
  have hle := (abs_le.mp r.abs_toRat_le).2
  have hmax : (maxMantissa : ℚ) < 10 ^ (maxScale + 1) := by
    unfold maxMantissa maxScale
    norm_num
  linarith

/-- `value_usd`: `amount / 10^decimals × price`. -/
def valueUsd (v : Valuation σ) (registry : AssetRegistry) (asset : AssetId) (amount : Amount) :
    OptionT (Tick Panic σ) Usd := do
  let info ← Tick.ofOption (registry.lookup asset)
  let divisor ← Tick.ofOption (pow10 info.decimals)
  let price ← readPrice v asset
  let whole ← Tick.ofOption (checkedDiv amount.val divisor)
  return ⟨← Tick.ofOption (checkedMul whole price.val)⟩

/-- `amount_for_usd`: `usd / price × 10^decimals`, floored. -/
def amountForUsd (v : Valuation σ) (registry : AssetRegistry) (asset : AssetId) (usd : Usd) :
    OptionT (Tick Panic σ) Amount := do
  let info ← Tick.ofOption (registry.lookup asset)
  let price ← readPrice v asset
  let whole ← Tick.ofOption (checkedDiv usd.val price.val)
  let scaled ← Tick.ofOption (checkedMul whole (← Tick.ofOption (pow10 info.decimals)))
  return ⟨floor scaled⟩

/-- `net_profit_usd`; the difference is the panicking operator. -/
def netProfitUsd (v : Valuation σ) (registry : AssetRegistry) (source : AssetId) (input : Amount)
    (dest : AssetId) (output : Amount) : OptionT (Tick Panic σ) Usd := do
  let inUsd ← valueUsd v registry source input
  let outUsd ← valueUsd v registry dest output
  return ⟨← OptionT.lift (Tick.ofExcept (sub outUsd.val inUsd.val))⟩

/-- `Decimal::from(10_000)`. -/
def tenThousand : Decimal := Decimal.ofNat 10000 (by decide)

/-- `roi_bps`; the quotient and the product are the panicking operators. -/
def roiBps (base gain : Decimal) : Except Panic UInt32 :=
  if base ≤ Decimal.zero ∨ gain ≤ Decimal.zero then .ok 0
  else do
    let ratio ← div gain base
    let bps ← mul ratio tenThousand
    return (toU32 bps).getD (UInt32.ofNat (2 ^ 32 - 1))

/-- A path with its quoted result and its dollar profit, where it can be priced. -/
structure Priced where
  path : Path
  input : Amount
  output : Amount
  profitUsd : Option Usd

/-- `is_profitable`. -/
def isProfitable (priced : Priced) : Bool :=
  if priced.path.isCycle then priced.input < priced.output
  else
    match priced.profitUsd with
    | some profit => Decimal.zero < profit.val
    | none => false

omit [RustDecimal] in
/-- A cross-asset path passes the gate with a positive profit only. -/
theorem isProfitable_cross {path : Path} (hcross : path.isCycle = false) {input output : Amount}
    {profitUsd : Option Usd} :
    isProfitable ⟨path, input, output, profitUsd⟩ = true ↔
      ∃ profit, profitUsd = some profit ∧ Decimal.zero < profit.val := by
  unfold isProfitable
  rw [if_neg (by simp [hcross])]
  cases profitUsd with
  | none => simp
  | some profit => simp

/-! ## Results under a price table -/

/-- The value of `amount` under a price table. -/
def valueOf (table : PriceTable) (registry : AssetRegistry) (asset : AssetId) (amount : Amount) :
    Option Usd := do
  let info ← registry.lookup asset
  let divisor ← pow10 info.decimals
  let price ← table asset
  let whole ← checkedDiv amount.val divisor
  let value ← checkedMul whole price.val
  return ⟨value⟩

/-- The amount worth `usd` under a price table. -/
def sizeOf (table : PriceTable) (registry : AssetRegistry) (asset : AssetId) (usd : Usd) :
    Option Amount := do
  let info ← registry.lookup asset
  let price ← table asset
  let whole ← checkedDiv usd.val price.val
  let unit ← pow10 info.decimals
  let scaled ← checkedMul whole unit
  return ⟨floor scaled⟩

/-- The net profit under a price table. -/
def netProfitOf (table : PriceTable) (registry : AssetRegistry) (source : AssetId) (input : Amount)
    (dest : AssetId) (output : Amount) : Except Panic (Option Usd) :=
  match valueOf table registry source input, valueOf table registry dest output with
  | some inUsd, some outUsd => (sub outUsd.val inUsd.val).map fun d => some ⟨d⟩
  | _, _ => .ok none

section

variable {v : Valuation σ} {table : PriceTable}

theorem valueUsd_yields (h : v.Stable table) (registry : AssetRegistry) (asset : AssetId)
    (amount : Amount) :
    Yields (valueUsd v registry asset amount).run (.ok (valueOf table registry asset amount)) :=
  (Yields.ofOption (registry.lookup asset)).optBind_ok fun info _ =>
    (Yields.ofOption (pow10 info.decimals)).optBind_ok fun divisor _ =>
      (readPrice_yields h asset).optBind_ok fun price _ =>
        (Yields.ofOption (checkedDiv amount.val divisor)).optBind_ok fun whole _ =>
          (Yields.ofOption (checkedMul whole price.val)).optBind_ok fun value _ =>
            Yields.pure_some (Usd.mk value)

theorem amountForUsd_yields (h : v.Stable table) (registry : AssetRegistry) (asset : AssetId)
    (usd : Usd) :
    Yields (amountForUsd v registry asset usd).run (.ok (sizeOf table registry asset usd)) :=
  (Yields.ofOption (registry.lookup asset)).optBind_ok fun info _ =>
    (readPrice_yields h asset).optBind_ok fun price _ =>
      (Yields.ofOption (checkedDiv usd.val price.val)).optBind_ok fun whole _ =>
        (Yields.ofOption (pow10 info.decimals)).optBind_ok fun unit _ =>
          (Yields.ofOption (checkedMul whole unit)).optBind_ok fun scaled _ =>
            Yields.pure_some (Amount.mk (floor scaled))

theorem netProfitUsd_yields (h : v.Stable table) (registry : AssetRegistry) (source dest : AssetId)
    (input output : Amount) :
    Yields (netProfitUsd v registry source input dest output).run
      (netProfitOf table registry source input dest output) := by
  have hrun : Yields (netProfitUsd v registry source input dest output).run _ :=
    (valueUsd_yields h registry source input).optBind fun inUsd _ =>
      (valueUsd_yields h registry dest output).optBind fun outUsd _ =>
        (Yields.ofExcept (sub outUsd.val inUsd.val)).lift.optBind fun d _ =>
          Yields.pure_some (Usd.mk d)
  convert hrun using 1
  unfold netProfitOf
  cases valueOf table registry source input with
  | none => rfl
  | some inUsd =>
    cases valueOf table registry dest output with
    | none => rfl
    | some outUsd =>
      cases hsub : sub outUsd.val inUsd.val <;> simp [bind, Except.bind, Except.map, hsub]

end

/-- A sized input is the floor of a decimal. -/
theorem exists_floor_of_sizeOf {table : PriceTable} {registry : AssetRegistry} {asset : AssetId}
    {usd : Usd} {input : Amount} (h : sizeOf table registry asset usd = some input) :
    ∃ d, input = ⟨floor d⟩ := by
  unfold sizeOf at h
  simp only [Option.bind_eq_bind, Option.bind_eq_some_iff] at h
  obtain ⟨_, _, _, _, _, _, _, _, scaled, _, hd⟩ := h
  exact ⟨scaled, (Option.some.inj hd).symm⟩

/-- A floored amount without sign bit is an integer at scale 0. -/
theorem exists_ofNat_of_floor {d : Decimal} (hneg : (floor d).neg = false) :
    ∃ (x : Nat) (hx : x ≤ maxMantissa), (⟨floor d⟩ : Amount) = Amount.ofNat x hx :=
  ⟨_, _, congrArg Amount.mk (floor_eq_ofNat hneg)⟩

/-! ## The price reads of a run -/

/-- The table that prices every asset at `p`. -/
def PriceTable.at (p : Usd) : PriceTable := fun _ => some p

/-- A value is computed from one price read. -/
theorem valueUsd_some {v : Valuation σ} {registry : AssetRegistry} {asset : AssetId}
    {amount : Amount} {s s' : σ} {value : Usd}
    (h : (valueUsd v registry asset amount).run.run s = .ok (some value, s')) :
    ∃ p, v.price asset s = (.ok p, s') ∧
      valueOf (PriceTable.at p) registry asset amount = some value := by
  unfold valueUsd at h
  simp only [Tick.bind_some, Tick.ofOption_some, Tick.pure_some, readPrice_some] at h
  obtain ⟨info, _, ⟨hinfo, rfl⟩, divisor, _, ⟨hdiv, rfl⟩, p, s₁, hp, whole, _, ⟨hwhole, rfl⟩,
    x, _, ⟨hx, rfl⟩, rfl, rfl⟩ := h
  exact ⟨p, hp, by simp [valueOf, PriceTable.at, hinfo, hdiv, hwhole, hx]⟩

/-- What has a value has metadata, with a representable unit. -/
theorem exists_info_of_valueOf {table : PriceTable} {registry : AssetRegistry} {asset : AssetId}
    {amount : Amount} {value : Usd} (h : valueOf table registry asset amount = some value) :
    ∃ info divisor, registry.lookup asset = some info ∧ pow10 info.decimals = some divisor := by
  unfold valueOf at h
  simp only [Option.bind_eq_bind, Option.bind_eq_some_iff] at h
  obtain ⟨info, hinfo, divisor, hdivisor, -⟩ := h
  exact ⟨info, divisor, hinfo, hdivisor⟩

/-- Valuing such an asset always reads its price. -/
theorem valueUsd_run {v : Valuation σ} {registry : AssetRegistry} {asset : AssetId}
    {info : AssetMeta} {divisor : Decimal} (hinfo : registry.lookup asset = some info)
    (hdivisor : pow10 info.decimals = some divisor) (amount : Amount) (s : σ) :
    (valueUsd v registry asset amount).run.run s
      = .ok ((v.price asset s).1.toOption.bind fun p =>
          valueOf (PriceTable.at p) registry asset amount, (v.price asset s).2) := by
  have hread : (readPrice v asset).run.run s
      = .ok ((v.price asset s).1.toOption, (v.price asset s).2) := rfl
  unfold valueUsd
  rw [Tick.run_bind_of_some (Tick.ofOption_some.mpr ⟨hinfo, rfl⟩),
    Tick.run_bind_of_some (Tick.ofOption_some.mpr ⟨hdivisor, rfl⟩)]
  cases hp : (v.price asset s).1.toOption with
  | none =>
    rw [hp] at hread
    exact Tick.run_bind_of_none hread
  | some p =>
    rw [hp] at hread
    rw [Tick.run_bind_of_some hread]
    unfold valueOf PriceTable.at
    simp only [hinfo, hdivisor, Option.bind_eq_bind, Option.bind_some]
    cases hwhole : checkedDiv amount.val divisor with
    | none => rfl
    | some whole =>
      rw [Tick.run_bind_of_some (Tick.ofOption_some.mpr ⟨rfl, rfl⟩), Option.bind_some]
      cases checkedMul whole p.val <;> rfl

/-- A size is computed from one price read. -/
theorem amountForUsd_some {v : Valuation σ} {registry : AssetRegistry} {asset : AssetId}
    {usd : Usd} {s s' : σ} {amount : Amount}
    (h : (amountForUsd v registry asset usd).run.run s = .ok (some amount, s')) :
    ∃ p, v.price asset s = (.ok p, s') ∧
      sizeOf (PriceTable.at p) registry asset usd = some amount := by
  unfold amountForUsd at h
  simp only [Tick.bind_some, Tick.ofOption_some, Tick.pure_some, readPrice_some] at h
  obtain ⟨info, _, ⟨hinfo, rfl⟩, p, s₁, hp, whole, _, ⟨hwhole, rfl⟩, divisor, _, ⟨hdiv, rfl⟩,
    x, _, ⟨hx, rfl⟩, rfl, rfl⟩ := h
  exact ⟨p, hp, by simp [sizeOf, PriceTable.at, hinfo, hdiv, hwhole, hx]⟩

section

variable {v : Valuation σ} {Inv : σ → Prop}

theorem valueUsd_keeps (h : v.Keeps Inv) (registry : AssetRegistry) (asset : AssetId)
    (amount : Amount) : Tick.Keeps Inv (valueUsd v registry asset amount).run :=
  (Tick.Keeps.ofOption (registry.lookup asset)).optBind fun info =>
    (Tick.Keeps.ofOption (pow10 info.decimals)).optBind fun divisor =>
      (readPrice_keeps h asset).optBind fun price =>
        (Tick.Keeps.ofOption (checkedDiv amount.val divisor)).optBind fun whole =>
          (Tick.Keeps.ofOption (checkedMul whole price.val)).optBind fun value =>
            Tick.Keeps.some_pure (Usd.mk value)

theorem amountForUsd_keeps (h : v.Keeps Inv) (registry : AssetRegistry) (asset : AssetId)
    (usd : Usd) : Tick.Keeps Inv (amountForUsd v registry asset usd).run :=
  (Tick.Keeps.ofOption (registry.lookup asset)).optBind fun info =>
    (readPrice_keeps h asset).optBind fun price =>
      (Tick.Keeps.ofOption (checkedDiv usd.val price.val)).optBind fun whole =>
        (Tick.Keeps.ofOption (pow10 info.decimals)).optBind fun unit =>
          (Tick.Keeps.ofOption (checkedMul whole unit)).optBind fun scaled =>
            Tick.Keeps.some_pure (Amount.mk (floor scaled))

theorem netProfitUsd_keeps (h : v.Keeps Inv) (registry : AssetRegistry) (source dest : AssetId)
    (input output : Amount) :
    Tick.Keeps Inv (netProfitUsd v registry source input dest output).run :=
  (valueUsd_keeps h registry source input).optBind fun inUsd =>
    (valueUsd_keeps h registry dest output).optBind fun outUsd =>
      (Tick.Keeps.ofExcept (sub outUsd.val inUsd.val)).lift.optBind fun d =>
        Tick.Keeps.some_pure (Usd.mk d)

end

/-- A profit is the difference of two values, the source's read first. -/
theorem netProfitUsd_some {v : Valuation σ} {registry : AssetRegistry} {source dest : AssetId}
    {input output : Amount} {s s' : σ} {profit : Usd}
    (h : (netProfitUsd v registry source input dest output).run.run s = .ok (some profit, s')) :
    ∃ inUsd outUsd s₁, (valueUsd v registry source input).run.run s = .ok (some inUsd, s₁) ∧
      (valueUsd v registry dest output).run.run s₁ = .ok (some outUsd, s') ∧
      checkedSub outUsd.val inUsd.val = some profit.val := by
  unfold netProfitUsd at h
  simp only [Tick.bind_some, Tick.lift_some, Tick.ofExcept_ok, Tick.pure_some, sub_eq_ok] at h
  obtain ⟨inUsd, s₁, hin, outUsd, s₂, hout, d, _, ⟨hd, rfl⟩, rfl, rfl⟩ := h
  exact ⟨inUsd, outUsd, s₁, hin, hout, hd⟩

end ArbRouter
