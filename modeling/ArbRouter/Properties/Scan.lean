import ArbRouter.Core.Scanner
import ArbRouter.Properties.Finder

/-!
# What a scan tick reports

While prices do not change, a completed tick hands the notifier sound opportunities only, and
represents every path that gains value.

* `isProfitable_iff_gains` — the profitability gate, under a price table
* `mem_scanOppsOf` — the opportunities of a tick before ranking
* `scanOnce_reports` — soundness, coverage and distinct keys of what is notified
-/

namespace ArbRouter

open Infra RustDecimal

namespace Scanner

variable {σ ν P : Type} [Pool P] [RustDecimal]

variable (sc : Scanner σ ν P)

/-! ## What the functions of a tick answer -/

/-- `amount_for_usd` sizes a path from `asset` with `input`. -/
def Sizes (asset : AssetId) (input : Amount) : Prop :=
  Yields (amountForUsd sc.valuation sc.registry asset sc.cfg.inputUsd).run (.ok (some input))

/-- `value_usd` values `amount` of `asset` at `usd`. -/
def Values (asset : AssetId) (amount : Amount) (usd : Usd) : Prop :=
  Yields (valueUsd sc.valuation sc.registry asset amount).run (.ok (some usd))

/-- `price` gives a sized path this profit and return. -/
def Prices (path : Path) (input output : Amount) (profitUsd : Option Usd) (roiBps : UInt32) :
    Prop :=
  Yields (sc.price path input output) (.ok (profitUsd, roiBps))

/-- A cycle returns more than it took; the ends of a cross-asset path gain value. -/
def Gains (path : Path) (input output : Amount) : Prop :=
  if path.isCycle then input < output
  else ∃ inUsd outUsd, sc.Values path.start input inUsd ∧
    sc.Values path.destination output outUsd ∧ inUsd < outUsd

variable {sc} {table : PriceTable}

theorem sizes_iff [Nonempty σ] (h : sc.valuation.Stable table) {asset : AssetId} {input : Amount} :
    sc.Sizes asset input ↔ sizeOf table sc.registry asset sc.cfg.inputUsd = some input := by
  have hyields := amountForUsd_yields h sc.registry asset sc.cfg.inputUsd
  constructor
  · intro hs
    exact Except.ok.inj (hyields.unique hs)
  · intro hs
    rwa [hs] at hyields

theorem values_iff [Nonempty σ] (h : sc.valuation.Stable table) {asset : AssetId} {amount : Amount}
    {usd : Usd} :
    sc.Values asset amount usd ↔ valueOf table sc.registry asset amount = some usd := by
  have hyields := valueUsd_yields h sc.registry asset amount
  constructor
  · intro hv
    exact Except.ok.inj (hyields.unique hv)
  · intro hv
    rwa [hv] at hyields

/-! ## The gate -/

/-- The profit of a cross-asset path is the rounded difference of the values of its ends. -/
theorem of_netProfitOf {registry : AssetRegistry} {source dest : AssetId} {input output : Amount}
    {profit : Usd} (h : netProfitOf table registry source input dest output = .ok (some profit)) :
    ∃ inUsd outUsd, valueOf table registry source input = some inUsd ∧
      valueOf table registry dest output = some outUsd ∧
      checkedSub outUsd.val inUsd.val = some profit.val := by
  unfold netProfitOf at h
  cases hin : valueOf table registry source input with
  | none => simp [hin] at h
  | some inUsd =>
    cases hout : valueOf table registry dest output with
    | none => simp [hin, hout] at h
    | some outUsd =>
      simp only [hin, hout] at h
      obtain ⟨d, hsub, hd⟩ := map_eq_ok.mp h
      rw [← Option.some.inj hd]
      exact ⟨inUsd, outUsd, rfl, rfl, sub_eq_ok.mp hsub⟩

/-- When both ends have a value and the difference does not overflow, there is a profit. -/
theorem exists_netProfitOf {registry : AssetRegistry} {source dest : AssetId}
    {input output : Amount} {inUsd outUsd : Usd} {o : Option Usd}
    (hin : valueOf table registry source input = some inUsd)
    (hout : valueOf table registry dest output = some outUsd)
    (h : netProfitOf table registry source input dest output = .ok o) :
    ∃ profit, o = some profit ∧ checkedSub outUsd.val inUsd.val = some profit.val := by
  unfold netProfitOf at h
  simp only [hin, hout] at h
  obtain ⟨d, hsub, hd⟩ := map_eq_ok.mp h
  exact ⟨⟨d⟩, hd.symm, sub_eq_ok.mp hsub⟩

/-- A cross-asset path is priced by its net profit. -/
theorem netProfitOf_of_priceOf {path : Path} {input output : Amount} {profitUsd : Option Usd}
    {roi : UInt32} (hc : path.isCycle = false)
    (h : sc.priceOf table path input output = .ok (profitUsd, roi)) :
    netProfitOf table sc.registry path.start input path.destination output = .ok profitUsd := by
  unfold priceOf at h
  rw [if_neg (by simp [hc])] at h
  obtain ⟨profit, hnet, h⟩ := bind_eq_ok.mp h
  obtain ⟨r, -, h⟩ := bind_eq_ok.mp h
  obtain ⟨rfl, -⟩ := Prod.mk.inj (Except.ok.inj h)
  exact hnet

/-- **The profitability gate** passes exactly the paths that gain. -/
theorem isProfitable_iff_gains [Nonempty σ] (h : sc.valuation.Stable table) {path : Path}
    {input output : Amount} {profitUsd : Option Usd} {roi : UInt32}
    (hp : sc.priceOf table path input output = .ok (profitUsd, roi)) :
    isProfitable ⟨path, input, output, profitUsd⟩ = true ↔ sc.Gains path input output := by
  unfold Gains
  by_cases hc : path.isCycle = true
  · rw [if_pos hc]
    unfold isProfitable
    rw [if_pos hc, decide_eq_true_iff]
  · have hcross : path.isCycle = false := by simpa using hc
    have hnet := netProfitOf_of_priceOf hcross hp
    rw [if_neg hc, isProfitable_cross hcross]
    -- the difference is rounded, but never to zero or across it
    constructor
    · rintro ⟨profit, rfl, hpos⟩
      obtain ⟨inUsd, outUsd, hin, hout, hsub⟩ := of_netProfitOf hnet
      refine ⟨inUsd, outUsd, (values_iff h).mpr hin, (values_iff h).mpr hout, ?_⟩
      exact (checkedSub_pos_iff hsub).mp (Decimal.zero_lt_iff.mp hpos)
    · rintro ⟨inUsd, outUsd, hin, hout, hlt⟩
      obtain ⟨profit, rfl, hsub⟩ :=
        exists_netProfitOf ((values_iff h).mp hin) ((values_iff h).mp hout) hnet
      exact ⟨profit, rfl, Decimal.zero_lt_iff.mpr ((checkedSub_pos_iff hsub).mpr hlt)⟩

/-! ## The opportunities of a tick -/

/-- Before ranking, a completed tick has the opportunities of its paths. -/
theorem mem_scanOppsOf {snapshot : PoolSnapshot P} {now : OffsetDateTime}
    {opps : List Opportunity} (h : sc.scanOppsOf table snapshot now = .ok opps)
    {opp : Opportunity} :
    opp ∈ opps ↔
      ∃ path ∈ sc.paths snapshot, sc.evaluateOf table snapshot path now = .ok (some opp) := by
  unfold scanOppsOf at h
  obtain ⟨rs, hm, rfl⟩ := map_eq_ok.mp h
  rw [List.reduceOption_mem_iff, mem_of_mapM_ok hm]

/-- A completed tick priced every path without panic. -/
theorem exists_evaluateOf {snapshot : PoolSnapshot P} {now : OffsetDateTime}
    {opps : List Opportunity} (h : sc.scanOppsOf table snapshot now = .ok opps) {path : Path}
    (hpath : path ∈ sc.paths snapshot) : ∃ r, sc.evaluateOf table snapshot path now = .ok r := by
  unfold scanOppsOf at h
  obtain ⟨rs, hm, -⟩ := map_eq_ok.mp h
  exact exists_mapM_ok.mp ⟨rs, hm⟩ path hpath

/-- Every pool on the path is present and was synced within the staleness bound of `now`. -/
def FreshAt (snapshot : PoolSnapshot P) (path : Path) (now : OffsetDateTime) : Prop :=
  ∀ hop ∈ path.hops, ∃ entry, snapshot.get hop.pool = some entry ∧
    now - entry.poolMeta.syncedAt ≤ MAX_POOL_STALENESS.toTime

/-- What makes a reported opportunity sound. -/
structure Sound (sc : Scanner σ ν P) (snapshot : PoolSnapshot P) (opp : Opportunity) : Prop where
  found : ∃ start ∈ sc.cfg.startAssets, opp.path ∈ findPaths ⟨snapshot⟩ start sc.cfg.maxHops
  sized : sc.Sizes opp.path.start opp.input
  quoted : quotePath snapshot opp.path opp.input = some opp.output
  fresh : FreshAt snapshot opp.path opp.detectedAt
  gains : sc.Gains opp.path opp.input opp.output

/-- A path whose opportunity a tick has to report. -/
structure Reportable (sc : Scanner σ ν P) (snapshot : PoolSnapshot P) (now : OffsetDateTime)
    (path : Path) (input output : Amount) : Prop where
  found : ∃ start ∈ sc.cfg.startAssets, path ∈ findPaths ⟨snapshot⟩ start sc.cfg.maxHops
  sized : sc.Sizes path.start input
  quoted : quotePath snapshot path input = some output
  fresh : FreshAt snapshot path now
  gains : sc.Gains path input output

/-- An evaluation that yields an opportunity yields a sound one, with the path's own price. -/
theorem sound_of_evaluateOf [Nonempty σ] (h : sc.valuation.Stable table)
    {snapshot : PoolSnapshot P} {path : Path} {now : OffsetDateTime} {opp : Opportunity}
    (hpath : path ∈ sc.paths snapshot)
    (heval : sc.evaluateOf table snapshot path now = .ok (some opp)) :
    sc.Sound snapshot opp := by
  obtain ⟨hfresh, input, output, profitUsd, roi, hsize, hquote, hprice, hprof, rfl⟩ :=
    evaluateOf_eq_some.mp heval
  exact
    { found := mem_paths.mp hpath
      sized := (sizes_iff h).mpr hsize
      quoted := hquote
      fresh := isFresh_iff.mp hfresh
      gains := (isProfitable_iff_gains h hprice).mp hprof }

/-- A reportable path that was priced yields an opportunity with its own price. -/
theorem Reportable.evaluateOf [Nonempty σ] (h : sc.valuation.Stable table)
    {snapshot : PoolSnapshot P} {path : Path} {now : OffsetDateTime} {input output : Amount}
    (hr : sc.Reportable snapshot now path input output)
    (hpriced : ∃ r, sc.evaluateOf table snapshot path now = .ok r) :
    ∃ profitUsd roi, sc.Prices path input output profitUsd roi ∧
      sc.evaluateOf table snapshot path now
        = .ok (some (sc.opportunity snapshot path now input output profitUsd roi)) := by
  have hfresh := isFresh_iff.mpr hr.fresh
  have hsize := (sizes_iff h).mp hr.sized
  cases hprice : sc.priceOf table path input output with
  | error e =>
    obtain ⟨r, hr'⟩ := hpriced
    simp [Scanner.evaluateOf, hfresh, hsize, hr.quoted, hprice, Except.map] at hr'
  | ok pr =>
    obtain ⟨profitUsd, roi⟩ := pr
    have hyields := price_yields h path input output
    rw [hprice] at hyields
    refine ⟨profitUsd, roi, hyields, ?_⟩
    exact evaluateOf_eq_some.mpr ⟨hfresh, input, output, profitUsd, roi, hsize, hr.quoted, hprice,
      (isProfitable_iff_gains h hprice).mpr hr.gains, rfl⟩

/--
**A completed tick reports soundly and completely** while prices do not change: every notified
opportunity is sound, every reportable path is represented under its key by one that scores at
least as high, and no two notified opportunities share a key.
-/
theorem scanOnce_reports (sc : Scanner σ ν P) (table : PriceTable)
    (hstable : sc.valuation.Stable table) (order : IterOrder Opportunity) (now : OffsetDateTime)
    (s s' : σ) (n n' : ν) (result : Except ScanError Nat)
    (hrun : (sc.scanOnce order now).run (s, n) = .ok (result, (s', n'))) :
    ∃ notified, (sc.scanRanked order now).run s = .ok (notified, s') ∧
      (sc.notifier.notify sc.chain notified n).2 = n' ∧
      (∀ opp ∈ notified, sc.Sound (sc.poolStore sc.chain) opp) ∧
      (∀ path input output, sc.Reportable (sc.poolStore sc.chain) now path input output →
        ∃ profitUsd roi, sc.Prices path input output profitUsd roi ∧
          ∃ opp ∈ notified, opp.path.canonicalKey = path.canonicalKey ∧
            scoreOf profitUsd roi ≤ score opp) ∧
      (notified.map fun opp => opp.path.canonicalKey).Nodup := by
  have : Nonempty σ := ⟨s⟩
  obtain ⟨notified, hranked, hnotify⟩ := scanOnce_ok hrun
  refine ⟨notified, hranked, hnotify, ?_⟩
  have hres := (scanRanked_yields hstable order now).eq_ok hranked
  obtain ⟨opps, hopps, rfl⟩ := map_eq_ok.mp hres
  obtain ⟨plan, henrich⟩ := sc.exists_enrich_eq (sc.poolStore sc.chain) (rankAndDedup order opps)
  -- what is notified is the ranked list with an execution plan in each opportunity
  rw [henrich]
  refine ⟨?_, ?_, ?_⟩
  · intro opp hopp
    obtain ⟨base, hbase, rfl⟩ := List.mem_map.mp hopp
    obtain ⟨path, hpath, heval⟩ := (mem_scanOppsOf hopps).mp (mem_of_mem_rankAndDedup hbase)
    have hsound := sound_of_evaluateOf hstable hpath heval
    exact ⟨hsound.found, hsound.sized, hsound.quoted, hsound.fresh, hsound.gains⟩
  · intro path input output hr
    have hpath := mem_paths.mpr hr.found
    obtain ⟨profitUsd, roi, hprices, heval⟩ :=
      hr.evaluateOf hstable (exists_evaluateOf hopps hpath)
    have hmem := (mem_scanOppsOf hopps).mpr ⟨path, hpath, heval⟩
    obtain ⟨best, hbest, hkey, hscore⟩ := exists_mem_rankAndDedup order hmem
    exact ⟨profitUsd, roi, hprices, _, List.mem_map_of_mem hbest, hkey, hscore⟩
  · rw [List.map_map]
    exact nodup_keys_rankAndDedup order opps

end Scanner

section

attribute [local instance] RustDecimal.reference

/-- A→B→A returns 1.1 times its input; B is cheap enough that one hop loses. -/
def cycleScanner : Scanner Unit (List Opportunity) FakePool where
  chain := ⟨"ethereum"⟩
  poolStore _ := PoolSnapshot.fromEntries 1 0
    [fakeEntry "p1" [assetA, assetB] (Decimal.tenths 11) 0,
      fakeEntry "p2" [assetA, assetB] Decimal.one 0]
  valuation := fakeValuation fun asset =>
    if asset = assetA then some ⟨Decimal.one⟩ else some ⟨Decimal.tenths 5⟩
  notifier := recordingNotifier
  registry := (AList.singleton assetA ⟨0, "A"⟩).insert assetB ⟨0, "B"⟩
  cfg := ⟨[assetA], 2, ⟨Decimal.ofUInt64 1000⟩⟩
  executor := none

/-- The one opportunity the scanner finds. -/
def cycleOpportunity : Opportunity where
  chain := ⟨"ethereum"⟩
  path := twoPoolCycle
  input := ⟨Decimal.ofUInt64 1000⟩
  output := ⟨Decimal.ofUInt64 1100⟩
  profitUsd := some ⟨Decimal.ofUInt64 100⟩
  roiBps := 1000
  detectedAt := 0
  worstPoolSyncedAt := 0
  execution := none

theorem sound_cycleOpportunity :
    cycleScanner.Sound (cycleScanner.poolStore cycleScanner.chain) cycleOpportunity := by
  have hrun : (cycleScanner.scanOnce (IterOrder.stored _) 0).run ((), [])
      = .ok (.ok 1, ((), [cycleOpportunity])) := by
    decide +kernel
  obtain ⟨notified, -, hnotify, hsound, -, -⟩ := Scanner.scanOnce_reports cycleScanner _
    (fakeValuation_stable _) (IterOrder.stored _) 0 () () [] [cycleOpportunity] (.ok 1) hrun
  obtain rfl : notified = [cycleOpportunity] := hnotify
  exact hsound _ List.mem_cons_self

end

end ArbRouter
