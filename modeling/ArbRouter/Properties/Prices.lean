import ArbRouter.Adapters.Valuation
import ArbRouter.Core.TestUtils
import ArbRouter.Infra.DecimalReference

/-!
# Prices of one evaluation

While an evaluation reads prices the feeds keep writing. What it emits is computed from four reads,
each of which found a fresh price of one feed; they need not have been the prices of any one moment
(`phantom_profit`), unless nothing was written to the two assets in between.

* `World.price_cases` — what one price read consists of
* `PriceReads` — the reads behind a cross-asset opportunity
* `evaluate_explained` — what the opportunity is computed from
-/

namespace ArbRouter

open Infra RustDecimal

/-! ## One price read -/

namespace World

variable {w w' : World}

theorem later_advance (w : World) : w.shared.Later w.advance.shared :=
  Shared.later_advance _ w.shared

theorem maxStaleness_advance (w : World) : w.advance.store.maxStaleness = w.store.maxStaleness :=
  Shared.advance_invariant (fun st : PriceStore => st.maxStaleness = w.store.maxStaleness)
    (fun st write h => (PriceWrite.effect_maxStaleness st write).trans h) rfl

/-- A read takes the Binance lock and, if it finds no fresh price, then the CoinGecko lock. -/
theorem price_cases {asset : AssetId} {o : Option Usd} (h : w.price asset = (o, w')) :
    (∃ usd, o = some usd ∧ w' = w.advance ∧
      w.advance.store.fresh .binance asset w.now = some usd) ∨
    (w' = w.advance.advance ∧ w.advance.store.fresh .binance asset w.now = none ∧
      o = w.advance.advance.store.fresh .coingecko asset w.now) := by
  unfold price fresh at h
  cases hb : w.advance.store.fresh .binance asset w.now with
  | some usd =>
    rw [hb] at h
    obtain ⟨rfl, rfl⟩ := Prod.mk.inj h
    exact Or.inl ⟨usd, rfl, rfl, rfl⟩
  | none =>
    rw [hb] at h
    obtain ⟨rfl, rfl⟩ := Prod.mk.inj h
    exact Or.inr ⟨rfl, rfl, rfl⟩

theorem later_price {asset : AssetId} {o : Option Usd} (h : w.price asset = (o, w')) :
    w.shared.Later w'.shared := by
  obtain ⟨usd, -, rfl, -⟩ | ⟨rfl, -, -⟩ := price_cases h
  · exact w.later_advance
  · exact w.later_advance.trans w.advance.later_advance

theorem maxStaleness_price {asset : AssetId} {o : Option Usd} (h : w.price asset = (o, w')) :
    w'.store.maxStaleness = w.store.maxStaleness := by
  obtain ⟨usd, -, rfl, -⟩ | ⟨rfl, -, -⟩ := price_cases h
  · exact w.maxStaleness_advance
  · exact w.advance.maxStaleness_advance.trans w.maxStaleness_advance

/--
At some moment between the two worlds a feed held this price, fresh by the clock of the first.
-/
def FreshBetween (w w' : World) (asset : AssetId) (usd : Usd) : Prop :=
  ∃ store ∈ w.statesBetween w', ∃ feed point, (store.source feed).lookup asset = some point ∧
    w.now - point.observedAt ≤ store.maxStaleness ∧ point.usd = usd

/-- **A price that is read** was a fresh price of a feed. -/
theorem freshBetween_of_price {asset : AssetId} {usd : Usd} (h : w.price asset = (some usd, w')) :
    FreshBetween w w' asset usd := by
  obtain ⟨usd', heq, rfl, hfresh⟩ | ⟨rfl, -, hfresh⟩ := price_cases h
  · refine ⟨w.advance.store, ?_, .binance, PriceStore.fresh_eq_some.mp (hfresh.trans heq.symm)⟩
    exact w.later_advance.current_mem_between (Shared.Later.refl _)
  · refine ⟨w.advance.advance.store, ?_, .coingecko, PriceStore.fresh_eq_some.mp hfresh.symm⟩
    exact (w.later_advance.trans w.advance.later_advance).current_mem_between (Shared.Later.refl _)

/-- **A read that nothing of the asset is written during** finds the price of one state. -/
theorem price_of_sameAt {asset : AssetId} {o : Option Usd} (h : w.price asset = (o, w'))
    {store : PriceStore} (hmax : w.store.maxStaleness = store.maxStaleness)
    (hquiet : ∀ st ∈ w.statesBetween w', PriceStore.SameAt asset st store) :
    o = store.price asset w.now := by
  have hmax₁ := w.maxStaleness_advance.trans hmax
  obtain ⟨usd, rfl, rfl, hfresh⟩ | ⟨rfl, hnone, rfl⟩ := price_cases h
  · have hsame := hquiet w.advance.store
      (w.later_advance.current_mem_between (Shared.Later.refl _))
    unfold PriceStore.price
    rw [← PriceStore.fresh_congr hsame hmax₁, hfresh]
    rfl
  · have hmax₂ := w.advance.maxStaleness_advance.trans hmax₁
    have hsame₁ := hquiet w.advance.store
      (w.later_advance.current_mem_between w.advance.later_advance)
    have hsame₂ := hquiet w.advance.advance.store
      ((w.later_advance.trans w.advance.later_advance).current_mem_between (Shared.Later.refl _))
    unfold PriceStore.price
    rw [← PriceStore.fresh_congr hsame₁ hmax₁, hnone, ← PriceStore.fresh_congr hsame₂ hmax₂]
    rfl

end World

theorem price_of_cachedValuation {asset : AssetId} {w w' : World} {usd : Usd}
    (h : CachedValuation.price asset w = (.ok usd, w')) : w.price asset = (some usd, w') := by
  unfold CachedValuation at h
  rcases hp : w.price asset with ⟨_ | usd', w''⟩
  · simp [hp] at h
  · simp only [hp, Prod.mk.injEq, Except.ok.injEq] at h
    rw [h.1, h.2]

/-! ## The reads of one evaluation -/

/--
The four price reads of a cross-asset evaluation: the start three times, the destination once.
-/
structure PriceReads (path : Path) (w w' : World) where
  size : Usd
  inPrice : Usd
  outPrice : Usd
  basePrice : Option Usd
  afterSize : World
  afterIn : World
  afterOut : World
  readSize : w.price path.start = (some size, afterSize)
  readIn : afterSize.price path.start = (some inPrice, afterIn)
  readOut : afterIn.price path.destination = (some outPrice, afterOut)
  readBase : afterOut.price path.start = (basePrice, w')

namespace PriceReads

variable {path : Path} {w w' : World} (reads : PriceReads path w w')

/-- Each price was a fresh price of a feed while it was read. -/
structure Fresh : Prop where
  size : World.FreshBetween w reads.afterSize path.start reads.size
  inPrice : World.FreshBetween reads.afterSize reads.afterIn path.start reads.inPrice
  outPrice : World.FreshBetween reads.afterIn reads.afterOut path.destination reads.outPrice
  basePrice : ∀ usd, reads.basePrice = some usd →
    World.FreshBetween reads.afterOut w' path.start usd

/-- From the first read to the last, neither feed writes the start or the destination. -/
def Quiet : Prop :=
  ∀ store ∈ reads.afterSize.statesBetween w',
    PriceStore.SameAt path.start store w'.store ∧ PriceStore.SameAt path.destination store w'.store

/-- The last three prices are those of this state, at the times of the reads. -/
structure OfState (store : PriceStore) : Prop where
  inPrice : store.price path.start reads.afterSize.now = some reads.inPrice
  outPrice : store.price path.destination reads.afterIn.now = some reads.outPrice
  basePrice : store.price path.start reads.afterOut.now = reads.basePrice

theorem fresh : reads.Fresh where
  size := World.freshBetween_of_price reads.readSize
  inPrice := World.freshBetween_of_price reads.readIn
  outPrice := World.freshBetween_of_price reads.readOut
  basePrice := by
    intro usd h
    have hread := reads.readBase
    rw [h] at hread
    exact World.freshBetween_of_price hread

/-- **If nothing is written in between,** the prices are those of the state at the last read. -/
theorem ofState_of_quiet (hquiet : reads.Quiet) : reads.OfState w'.store := by
  have hin := World.later_price reads.readIn
  have hout := World.later_price reads.readOut
  have hbase := World.later_price reads.readBase
  have hmaxBase := World.maxStaleness_price reads.readBase
  have hmaxOut := hmaxBase.trans (World.maxStaleness_price reads.readOut)
  have hmaxIn := hmaxOut.trans (World.maxStaleness_price reads.readIn)
  constructor
  · refine (World.price_of_sameAt reads.readIn hmaxIn.symm fun st hst => ?_).symm
    exact (hquiet st ((hout.trans hbase).subset_between _ hst)).1
  · refine (World.price_of_sameAt reads.readOut hmaxOut.symm fun st hst => ?_).symm
    exact (hquiet st (hin.between_subset _ (hbase.subset_between _ hst))).2
  · refine (World.price_of_sameAt reads.readBase hmaxBase.symm fun st hst => ?_).symm
    exact (hquiet st ((hin.trans hout).between_subset _ hst)).1

/-- The opportunity is what the prices that were read make of the path. -/
structure Explains {ν P : Type} [Pool P] [RustDecimal] (sc : Scanner World ν P)
    (opp : Opportunity) : Prop where
  path_eq : opp.path = path
  sized : sizeOf (PriceTable.at reads.size) sc.registry path.start sc.cfg.inputUsd = some opp.input
  gains : ∃ inUsd outUsd profit,
    valueOf (PriceTable.at reads.inPrice) sc.registry path.start opp.input = some inUsd ∧
    valueOf (PriceTable.at reads.outPrice) sc.registry path.destination opp.output = some outUsd ∧
    inUsd < outUsd ∧ checkedSub outUsd.val inUsd.val = some profit ∧
    opp.profitUsd = some ⟨profit⟩ ∧
    (match reads.basePrice.bind fun p =>
        valueOf (PriceTable.at p) sc.registry path.start opp.input with
      | some base => roiBps base.val profit
      | none => .ok 0) = .ok opp.roiBps

end PriceReads

section

variable {ν P : Type} [Pool P] [RustDecimal]

/--
**An emitted cross-asset opportunity** is computed from four price reads, each of which found a
fresh price of a feed. If neither feed writes the two assets between the first and the last read,
the prices behind its profit and return are those of a single state of the store.
-/
theorem evaluate_explained (sc : Scanner World ν P) (hvaluation : sc.valuation = CachedValuation)
    (snapshot : PoolSnapshot P) (path : Path) (hcross : path.isCycle = false)
    (now : OffsetDateTime) (w w' : World) (opp : Opportunity)
    (hrun : (sc.evaluate snapshot path now).run.run w = .ok (some opp, w')) :
    ∃ reads : PriceReads path w w', reads.Explains sc opp ∧ reads.Fresh ∧
      (reads.Quiet → ∃ store ∈ reads.afterSize.statesBetween w', reads.OfState store) := by
  obtain ⟨-, input, output, profitUsd, roi, w₁, hsize, -, hprice, hprof, rfl⟩ :=
    Scanner.evaluate_some hrun
  obtain ⟨base, w₃, hnet, hbase, hroi⟩ := Scanner.price_cross hcross hprice
  obtain ⟨profit, rfl, hpos⟩ := (isProfitable_cross hcross).mp hprof
  -- each read starts in the world the one before it left
  obtain ⟨inUsd, outUsd, w₂, hin, hout, hsub⟩ := netProfitUsd_some hnet
  rw [hvaluation] at hsize hin hout hbase
  obtain ⟨size, hreadSize, hsized⟩ := amountForUsd_some hsize
  obtain ⟨inPrice, hreadIn, hinUsd⟩ := valueUsd_some hin
  obtain ⟨outPrice, hreadOut, houtUsd⟩ := valueUsd_some hout
  -- the start was valued before, so the last valuation gets as far as reading the price
  obtain ⟨info, divisor, hinfo, hdivisor⟩ := exists_info_of_valueOf hinUsd
  rw [valueUsd_run hinfo hdivisor, Except.ok.injEq, Prod.mk.injEq] at hbase
  obtain ⟨hbaseUsd, rfl⟩ := hbase
  let reads : PriceReads path w (CachedValuation.price path.start w₃).2 :=
    { size := size
      inPrice := inPrice
      outPrice := outPrice
      basePrice := (CachedValuation.price path.start w₃).1.toOption
      afterSize := w₁
      afterIn := w₂
      afterOut := w₃
      readSize := price_of_cachedValuation hreadSize
      readIn := price_of_cachedValuation hreadIn
      readOut := price_of_cachedValuation hreadOut
      readBase := price_eq_toOption path.start w₃ }
  refine ⟨reads, ⟨rfl, hsized, inUsd, outUsd, profit.val, hinUsd, houtUsd, ?_, hsub, rfl, ?_⟩,
    reads.fresh, fun hquiet => ⟨_, ?_, reads.ofState_of_quiet hquiet⟩⟩
  · exact (checkedSub_pos_iff hsub).mp (Decimal.zero_lt_iff.mp hpos)
  · show (match (CachedValuation.price path.start w₃).1.toOption.bind fun p =>
        valueOf (PriceTable.at p) sc.registry path.start input with
      | some base => roiBps base.val profit.val
      | none => .ok 0) = .ok roi
    rw [hbaseUsd]
    cases base with
    | none => exact hroi
    | some base => exact hroi
  · have hlater := (World.later_price reads.readIn).trans
      ((World.later_price reads.readOut).trans (World.later_price reads.readBase))
    exact hlater.current_mem_between (Shared.Later.refl _)

end

/-- Under the prices of one state the output is worth more than the input. -/
def gainsUnder {ν P : Type} [Pool P] [RustDecimal] (sc : Scanner World ν P) (store : PriceStore)
    (now : OffsetDateTime) (opp : Opportunity) : Bool :=
  match valueOf (store.table now) sc.registry opp.path.start opp.input,
    valueOf (store.table now) sc.registry opp.path.destination opp.output with
  | some inUsd, some outUsd => inUsd < outUsd
  | _, _ => false

/-- Evaluating `path` emits an opportunity that gains under no state the store goes through. -/
def emitsPhantom {ν P : Type} [Pool P] [RustDecimal] (sc : Scanner World ν P) (path : Path)
    (now : OffsetDateTime) (w : World) : Bool :=
  match (sc.evaluate (sc.poolStore sc.chain) path now).run.run w with
  | .ok (some opp, w') =>
    (w.statesBetween w').all fun store => !gainsUnder sc store now opp
  | _ => false

theorem exists_of_emitsPhantom {ν P : Type} [Pool P] [RustDecimal] {sc : Scanner World ν P}
    {path : Path} {now : OffsetDateTime} {w : World} (h : emitsPhantom sc path now w = true) :
    ∃ opp w', (sc.evaluate (sc.poolStore sc.chain) path now).run.run w = .ok (some opp, w') ∧
      ∀ store ∈ w.statesBetween w', gainsUnder sc store now opp = false := by
  unfold emitsPhantom at h
  split at h
  case h_1 opp w' hrun =>
    refine ⟨opp, w', hrun, fun store hstore => ?_⟩
    simpa using List.all_eq_true.mp h store hstore
  case h_2 => cases h

section

attribute [local instance] RustDecimal.reference

def dollars (n : UInt64) : Usd := ⟨Decimal.ofUInt64 n⟩

/-- One pool that exchanges A and B one to one. -/
def evenScanner : Scanner World (List Opportunity) FakePool where
  chain := ⟨"ethereum"⟩
  poolStore _ := PoolSnapshot.fromEntries 1 0 [fakeEntry "p1" [assetA, assetB] Decimal.one 0]
  valuation := CachedValuation
  notifier := recordingNotifier
  registry := (AList.singleton assetA ⟨0, "A"⟩).insert assetB ⟨0, "B"⟩
  cfg := ⟨[assetA], 1, dollars 1000⟩
  executor := none

def evenPath : Path := ⟨assetA, [⟨⟨"p1"⟩, assetA, assetB⟩]⟩

/-- Both assets cost one dollar, and both double between the second and the third read. -/
def doublingWorld : World where
  shared :=
    { current := (PriceStore.new (StdDuration.fromSecs 60)).setBinance assetA (dollars 1) 0
        |>.setBinance assetB (dollars 1) 0
      past := []
      reads := 0
      schedule := fun n =>
        if n = 2 then [⟨.binance, assetA, dollars 2, 0⟩, ⟨.binance, assetB, dollars 2, 0⟩]
        else [] }
  clock := fun _ => 0

theorem doublingWorld_emits : ∃ opp w',
    (evenScanner.evaluate (evenScanner.poolStore evenScanner.chain) evenPath 0).run.run
      doublingWorld
      = .ok (some opp, w') ∧
    ∀ store ∈ doublingWorld.statesBetween w', gainsUnder evenScanner store 0 opp = false :=
  exists_of_emitsPhantom (by decide +kernel)

theorem explained_doublingWorld : ∃ (opp : Opportunity) (w' : World)
    (reads : PriceReads evenPath doublingWorld w'), reads.Explains evenScanner opp := by
  obtain ⟨opp, w', hrun, -⟩ := doublingWorld_emits
  obtain ⟨reads, hexplains, -, -⟩ :=
    evaluate_explained evenScanner rfl _ evenPath (by decide) 0 doublingWorld w' opp hrun
  exact ⟨opp, w', reads, hexplains⟩

/-- A phantom profit: the prices of no single state explain the opportunity. -/
theorem phantom_profit : evenPath.isCycle = false ∧ ∃ opp w',
    (evenScanner.evaluate (evenScanner.poolStore evenScanner.chain) evenPath 0).run.run
      doublingWorld
      = .ok (some opp, w') ∧
    ¬ ∃ store ∈ doublingWorld.statesBetween w', ∃ n,
      gainsUnder evenScanner store (doublingWorld.clock n) opp = true := by
  obtain ⟨opp, w', hrun, hnone⟩ := doublingWorld_emits
  refine ⟨by decide, opp, w', hrun, ?_⟩
  rintro ⟨store, hstore, n, hgains⟩
  have hfalse := hnone store hstore
  rw [show doublingWorld.clock n = 0 from rfl] at hgains
  rw [hgains] at hfalse
  cases hfalse

end

end ArbRouter
