import ArbRouter.Properties.Prices
import ArbRouter.Properties.Sources

/-!
# Where dollar figures come from

The feeds write while a scan reads prices, so the figures of one opportunity may come from several
states of the store. In every run of a deployment, each of them is computed from a price that a feed
held of the asset at some moment while the scan was under way, and that was sent for the asset.

* `Figures` — what the size, the profit and the return are computed from
* `figures_of_mem_scanRanked` — one scan
* `FigureInv` — what holds after every run, with `FigureInv.step` for one event
* `served_figures` — what the API serves
-/

namespace ArbRouter

open Infra RustDecimal

section

variable {P : Type} [Pool P] [RustDecimal]

/-! ## One opportunity -/

/-- The figures are computed from such prices of the start and the destination. -/
structure Figures (priced : AssetId → Usd → Prop) (task : ScanTask P) (opp : Opportunity) :
    Prop where
  sized : ∃ p, priced opp.path.start p ∧
    sizeOf (PriceTable.at p) task.registry opp.path.start task.cfg.inputUsd = some opp.input
  /-- A cycle is valued by its gain. -/
  cycle : opp.path.isCycle = true → ∃ gain, checkedSub opp.output.val opp.input.val = some gain ∧
    roiBps opp.input.val gain = .ok opp.roiBps ∧
    ∀ profit, opp.profitUsd = some profit → ∃ p, priced opp.path.start p ∧
      valueOf (PriceTable.at p) task.registry opp.path.start ⟨gain⟩ = some profit
  /-- A path across assets is valued by what its endpoints are worth. -/
  cross : opp.path.isCycle = false → ∃ p q inUsd outUsd profit, priced opp.path.start p ∧
    priced opp.path.destination q ∧
    valueOf (PriceTable.at p) task.registry opp.path.start opp.input = some inUsd ∧
    valueOf (PriceTable.at q) task.registry opp.path.destination opp.output = some outUsd ∧
    inUsd < outUsd ∧ checkedSub outUsd.val inUsd.val = some profit ∧ opp.profitUsd = some ⟨profit⟩ ∧
    (opp.roiBps = 0 ∨ ∃ p' base, priced opp.path.start p' ∧
      valueOf (PriceTable.at p') task.registry opp.path.start opp.input = some base ∧
      roiBps base.val profit = .ok opp.roiBps)

theorem Figures.imp {priced priced' : AssetId → Usd → Prop} {task : ScanTask P} {opp : Opportunity}
    (h : Figures priced task opp) (himp : ∀ {asset usd}, priced asset usd → priced' asset usd) :
    Figures priced' task opp where
  sized := by
    obtain ⟨p, hp, hsize⟩ := h.sized
    exact ⟨p, himp hp, hsize⟩
  cycle := by
    intro hc
    obtain ⟨gain, hgain, hroi, hprofit⟩ := h.cycle hc
    refine ⟨gain, hgain, hroi, fun profit hsome => ?_⟩
    obtain ⟨p, hp, hvalue⟩ := hprofit profit hsome
    exact ⟨p, himp hp, hvalue⟩
  cross := by
    intro hc
    obtain ⟨p, q, inUsd, outUsd, profit, hp, hq, hin, hout, hlt, hsub, hsome, hroi⟩ := h.cross hc
    refine ⟨p, q, inUsd, outUsd, profit, himp hp, himp hq, hin, hout, hlt, hsub, hsome, ?_⟩
    refine hroi.imp_right ?_
    rintro ⟨p', base, hp', hbase⟩
    exact ⟨p', base, himp hp', hbase⟩

/-! ## One price read -/

/-- A world in which the feeds do to `before` what the schedule says. -/
abbrev World.Follows (before : PriceStore) (schedule : Nat → List PriceWrite) (w : World) : Prop :=
  w.shared.Follows (fun store write => write.effect store) before schedule

/-- After some of the scheduled writes, a feed held this price of the asset. -/
def ScheduledPrice (before : PriceStore) (schedule : Nat → List PriceWrite) (asset : AssetId)
    (usd : Usd) : Prop :=
  ∃ k feed point, (((((List.range k).flatMap schedule).foldl PriceWrite.effect before).source
    feed).lookup asset = some point) ∧ point.usd = usd

variable {before : PriceStore} {schedule : Nat → List PriceWrite} {w w' : World}

omit [RustDecimal] in
/-- A read leaves the world on its schedule, and finds a price that a feed held. -/
theorem World.Follows.price (h : w.Follows before schedule) {asset : AssetId} {o : Option Usd}
    (hread : w.price asset = (o, w')) :
    w'.Follows before schedule ∧
      ∀ usd, o = some usd → ScheduledPrice before schedule asset usd := by
  have hfresh : ∀ {v : World} {feed usd}, v.Follows before schedule →
      v.store.fresh feed asset w.now = some usd → ScheduledPrice before schedule asset usd := by
    intro v feed usd hv hfresh
    obtain ⟨point, hlook, -, husd⟩ := PriceStore.fresh_eq_some.mp hfresh
    rw [show v.store = _ from hv.current_eq] at hlook
    exact ⟨_, feed, point, hlook, husd⟩
  obtain ⟨usd, rfl, rfl, hb⟩ | ⟨rfl, -, rfl⟩ := World.price_cases hread
  · refine ⟨h.advance, fun usd' husd => ?_⟩
    obtain rfl := Option.some.inj husd
    exact hfresh h.advance hb
  · exact ⟨h.advance.advance, fun usd husd => hfresh h.advance.advance husd⟩

omit [RustDecimal] in
theorem keeps_follows : CachedValuation.Keeps (World.Follows before schedule) := by
  intro asset w hw
  exact (hw.price (price_eq_toOption asset w)).1

omit [RustDecimal] in
/-- The price that a read found. -/
theorem World.Follows.priced (h : w.Follows before schedule) {asset : AssetId} {usd : Usd}
    (hread : CachedValuation.price asset w = (.ok usd, w')) :
    w'.Follows before schedule ∧ ScheduledPrice before schedule asset usd := by
  obtain ⟨hnext, hprice⟩ := h.price (price_of_cachedValuation hread)
  exact ⟨hnext, hprice usd rfl⟩

/-! ## One scan -/

variable {task : ScanTask P} {snapshot : PoolSnapshot P} {clock : Opportunity → OffsetDateTime}

/-- **An evaluation** computes its figures from prices that the feeds held meanwhile. -/
theorem figures_of_evaluate {path : Path} {now : OffsetDateTime} {opp : Opportunity}
    (hw : w.Follows before schedule)
    (h : ((task.scanner snapshot clock).evaluate snapshot path now).run.run w
      = .ok (some opp, w')) :
    Figures (ScheduledPrice before schedule) task opp := by
  obtain ⟨-, input, output, profitUsd, roi, w₁, hsize, -, hprice, hprof, rfl⟩ :=
    Scanner.evaluate_some h
  obtain ⟨p, hread, hsized⟩ := amountForUsd_some hsize
  obtain ⟨hw₁, hp⟩ := hw.priced hread
  refine ⟨⟨p, hp, hsized⟩, ?_, ?_⟩
  · intro hc
    obtain ⟨gain, hgain, hvalue, hroi⟩ := Scanner.price_cycle hc hprice
    refine ⟨gain, hgain, hroi, ?_⟩
    rintro profit rfl
    obtain ⟨q, hreadGain, hvalued⟩ := valueUsd_some hvalue
    exact ⟨q, (hw₁.priced hreadGain).2, hvalued⟩
  · intro hc
    obtain ⟨base, w₃, hnet, hbase, hroi⟩ := Scanner.price_cross hc hprice
    obtain ⟨profit, rfl, hpos⟩ := (isProfitable_cross hc).mp hprof
    -- each read starts in the world the one before it left
    obtain ⟨inUsd, outUsd, w₂, hin, hout, hsub⟩ := netProfitUsd_some hnet
    obtain ⟨inPrice, hreadIn, hinUsd⟩ := valueUsd_some hin
    obtain ⟨hw₂, hpIn⟩ := hw₁.priced hreadIn
    obtain ⟨outPrice, hreadOut, houtUsd⟩ := valueUsd_some hout
    obtain ⟨hw₃, hpOut⟩ := hw₂.priced hreadOut
    have hlt : inUsd < outUsd := (checkedSub_pos_iff hsub).mp (Decimal.zero_lt_iff.mp hpos)
    refine ⟨inPrice, outPrice, inUsd, outUsd, profit.val, hpIn, hpOut, hinUsd, houtUsd, hlt, hsub,
      rfl, ?_⟩
    cases base with
    | none => exact Or.inl (Except.ok.inj hroi).symm
    | some base =>
      obtain ⟨basePrice, hreadBase, hbaseUsd⟩ := valueUsd_some hbase
      exact Or.inr ⟨basePrice, base, (hw₃.priced hreadBase).2, hbaseUsd, hroi⟩

/-- Attaching calldata changes no figure. -/
theorem Figures.enrich {priced : AssetId → Usd → Prop} {opp base : Opportunity}
    (h : Figures priced task base) (heq : opp = { base with execution := opp.execution }) :
    Figures priced task opp := by
  rw [heq]
  exact ⟨h.sized, h.cycle, h.cross⟩

/-- **Every opportunity of a scan** has its figures from prices that the feeds held meanwhile. -/
theorem figures_of_mem_scanRanked {order : IterOrder Opportunity} {now : OffsetDateTime}
    {ranked : List Opportunity} (hw : w.Follows before schedule)
    (h : ((task.scanner snapshot clock).scanRanked order now).run w = .ok (ranked, w'))
    {opp : Opportunity} (hopp : opp ∈ ranked) :
    Figures (ScheduledPrice before schedule) task opp := by
  obtain ⟨path, -, base, w₁, w₂, hw₁, hrun, heq⟩ :=
    Scanner.of_mem_scanRanked_keeps keeps_follows hw h hopp
  exact (figures_of_evaluate hw₁ hrun).enrich heq

end

/-! ## Every run -/

section

variable {W P F : Type} [Pool P] [RustDecimal] [DecidableEq W]

/--
At some moment of the run the scanner was at work on the snapshot, and this held of the store.
-/
def WhileScanning (d : Deployment W P) (codec : Codec F) (evs : List (ServiceEvent W P F))
    (s : ServiceState W P) (w : W) (snapshot : PoolSnapshot P) (now : OffsetDateTime)
    (p : List (ServiceEvent W P F) → PriceStore → Prop) : Prop :=
  Sometime (ServiceStep d codec) (ServiceState.init d) evs s fun pre s₁ =>
    (∃ before writes, s₁.scan w = .scanning snapshot now before writes) ∧ p pre s₁.prices

/-- A feed held this price of the asset while the scanner was at work. -/
def HeldMeanwhile (d : Deployment W P) (codec : Codec F) (evs : List (ServiceEvent W P F))
    (s : ServiceState W P) (w : W) (snapshot : PoolSnapshot P) (now : OffsetDateTime)
    (asset : AssetId) (usd : Usd) : Prop :=
  WhileScanning d codec evs s w snapshot now fun _ store =>
    ∃ feed point, (store.source feed).lookup asset = some point ∧ point.usd = usd

variable {d : Deployment W P} {codec : Codec F} {evs : List (ServiceEvent W P F)}
  {s s' : ServiceState W P} {ev : ServiceEvent W P F}

/-- What holds of the scans and of the sinks after the events `evs`. -/
structure FigureInv (d : Deployment W P) (codec : Codec F) (evs : List (ServiceEvent W P F))
    (s : ServiceState W P) : Prop where
  /-- Each state of the prices that the scan may have seen was that of the store. -/
  scanning : ∀ w snapshot now before writes, s.scan w = .scanning snapshot now before writes →
    ∀ seen, seen <+: writes → WhileScanning d codec evs s w snapshot now fun _ store =>
      store = seen.foldl PriceWrite.effect before
  memory : ∀ chain opps, s.sinks.1.latest.lookup chain = some opps → ∃ w snapshot,
    (d.task w).chain = chain ∧ ∀ opp ∈ opps, Backed (d.task w) snapshot opp ∧
      Figures (HeldMeanwhile d codec evs s w snapshot opp.detectedAt) (d.task w) opp

/-- A step keeps what holds of the scans. -/
theorem FigureInv.scanning_step (hrun : d.Runs codec evs s) (h : FigureInv d codec evs s)
    (hs : ServiceStep d codec s ev s') {w : W} {snapshot : PoolSnapshot P} {now : OffsetDateTime}
    {before : PriceStore} {writes : List PriceWrite}
    (hp : s'.scan w = .scanning snapshot now before writes) {seen : List PriceWrite}
    (hseen : seen <+: writes) :
    WhileScanning d codec (evs ++ [ev]) s' w snapshot now fun _ store =>
      store = seen.foldl PriceWrite.effect before := by
  -- what the scan has seen in full is the store as it is
  have hall : seen = writes → WhileScanning d codec (evs ++ [ev]) s' w snapshot now fun _ store =>
      store = seen.foldl PriceWrite.effect before := by
    rintro rfl
    have hinv := ServiceInv.run (hrun.snoc hs)
    have hfold := (hinv.scanning w snapshot now before seen hp).prices
    exact Sometime.now (hrun.snoc hs) ⟨⟨before, seen, hp⟩, hinv.prices.trans hfold.symm⟩
  rcases hs.scan_cases w with ⟨heq, -⟩ | ⟨now', rfl, -, hload⟩ | ⟨write, rfl, hobs⟩ |
    ⟨opps, -, hidle⟩ | ⟨-, hstop⟩
  · rw [heq] at hp
    exact (h.scanning w snapshot now before writes hp seen hseen).snoc hs
  · obtain ⟨-, -, -, rfl⟩ := ScanPhase.scanning.inj (hload.symm.trans hp)
    exact hall (List.prefix_nil.mp hseen)
  · rw [hobs] at hp
    cases hphase : s.scan w with
    | idle => rw [hphase] at hp; cases hp
    | stopped => rw [hphase] at hp; cases hp
    | scanning snapshot' now' before' writes' =>
      rw [hphase] at hp
      obtain ⟨rfl, rfl, rfl, rfl⟩ := ScanPhase.scanning.inj hp
      rcases List.prefix_concat_iff.mp hseen with heq | hold
      · exact hall heq
      · exact (h.scanning w _ _ _ _ hphase seen hold).snoc hs
  · rw [hidle] at hp
    cases hp
  · rw [hstop] at hp
    cases hp

omit [RustDecimal] [DecidableEq W] in
/-- A world that a scan observes follows its schedule, within what was written meanwhile. -/
theorem Observes.follows {world : World} {before : PriceStore} {writes : List PriceWrite}
    (h : Observes world before writes) : world.Follows before world.shared.schedule ∧
      ∀ k, (List.range k).flatMap world.shared.schedule <+: writes := by
  constructor
  · refine ⟨rfl, ?_⟩
    rw [h.reads, h.current]
    rfl
  · intro k
    obtain ⟨n, hend, hhanded⟩ := h.handed
    exact (Shared.prefix_flatMap_range hend k).trans hhanded

/-- A step keeps what holds of the memory. -/
theorem FigureInv.memory_step (h : FigureInv d codec evs s) (hs : ServiceStep d codec s ev s')
    {chain : ChainId} {opps : List Opportunity}
    (hlook : s'.sinks.1.latest.lookup chain = some opps) : ∃ w snapshot,
    (d.task w).chain = chain ∧ ∀ opp ∈ opps, Backed (d.task w) snapshot opp ∧
      Figures (HeldMeanwhile d codec (evs ++ [ev]) s' w snapshot opp.detectedAt)
        (d.task w) opp := by
  have hold : s.sinks.1.latest.lookup chain = some opps → ∃ w snapshot,
      (d.task w).chain = chain ∧ ∀ opp ∈ opps, Backed (d.task w) snapshot opp ∧
        Figures (HeldMeanwhile d codec (evs ++ [ev]) s' w snapshot opp.detectedAt)
          (d.task w) opp := by
    intro hlook
    obtain ⟨w, snapshot, hchain, hopps⟩ := h.memory chain opps hlook
    refine ⟨w, snapshot, hchain, fun opp hopp => ⟨(hopps opp hopp).1, ?_⟩⟩
    exact (hopps opp hopp).2.imp fun hheld => hheld.snoc hs
  rcases hs.sinks_cases with heq | ⟨w, ranked, rfl, hsinks⟩
  · rw [heq] at hlook
    exact hold hlook
  · rw [hsinks, notify_sinks] at hlook
    by_cases hchain : chain = (d.task w).chain
    · subst hchain
      rw [AList.lookup_insert] at hlook
      obtain rfl := Option.some.inj hlook
      obtain ⟨snapshot, now, before, writes, order, clock, world, world', hp, hobs, hscan, -⟩ :=
        hs.notified_cases
      refine ⟨w, snapshot, rfl, fun opp hopp => ?_⟩
      have hscanned : Scanned (d.task w) snapshot now before writes ranked :=
        ⟨order, clock, world, world', hobs, hscan⟩
      obtain ⟨hbacked, rfl⟩ := hscanned.backed hopp
      obtain ⟨hfollows, hhanded⟩ := hobs.follows
      refine ⟨hbacked, (figures_of_mem_scanRanked hfollows hscan hopp).imp ?_⟩
      rintro asset usd ⟨k, feed, point, hlook, husd⟩
      -- the scan saw the store as it was after the first of the writes
      have hseen := (h.scanning w _ _ _ _ hp _ (hhanded k)).snoc hs
      refine hseen.imp ?_
      rintro pre s₁ - ⟨hscanning, hstore⟩
      exact ⟨hscanning, feed, point, hstore ▸ hlook, husd⟩
    · rw [AList.lookup_insert_ne hchain] at hlook
      exact hold hlook

/-- **Every run keeps the invariant.** -/
theorem FigureInv.run (h : d.Runs codec evs s) : FigureInv d codec evs s := by
  induction h with
  | start =>
    constructor
    · intro w snapshot now before writes hp
      cases hp
    · intro chain opps hlook
      cases hlook
  | snoc hrun hs ih =>
    exact ⟨fun w snapshot now before writes hp seen hseen => ih.scanning_step hrun hs hp hseen,
      fun chain opps hlook => ih.memory_step hs hlook⟩

/-! ## What the API serves -/

/--
While the scanner was at work a feed held this price of the asset, having written it in the run as
it was sent for the asset.
-/
def PricedMeanwhile (d : Deployment W P) (codec : Codec F) (toUppercase : String → String)
    (assets : List AssetSettings) (evs : List (ServiceEvent W P F)) (s : ServiceState W P) (w : W)
    (snapshot : PoolSnapshot P) (now : OffsetDateTime) (asset : AssetId) (usd : Usd) : Prop :=
  WhileScanning d codec evs s w snapshot now fun pre store =>
    ∃ feed writtenAt, (store.source feed).lookup asset = some ⟨usd, writtenAt⟩ ∧
      .wrote ⟨feed, asset, usd, writtenAt⟩ ∈ pre ∧
        SentFor toUppercase assets codec pre asset usd feed

/-- What a feed holds it was sent and has written. -/
theorem HeldMeanwhile.priced {toUppercase : String → String} {settings : Settings}
    (hbuild : buildValuation toUppercase settings = .ok d.feeds) {w : W}
    {snapshot : PoolSnapshot P} {now : OffsetDateTime} {asset : AssetId} {usd : Usd}
    (h : HeldMeanwhile d codec evs s w snapshot now asset usd) :
    PricedMeanwhile d codec toUppercase settings.assets evs s w snapshot now asset usd := by
  refine Sometime.imp h ?_
  rintro pre s₁ hrun ⟨hscanning, feed, point, hlook, rfl⟩
  have hinv := PriceInv.run (store_of_buildValuation hbuild) hrun
  obtain ⟨hwrote, hsourced⟩ := hinv.stored feed asset point hlook
  exact ⟨hscanning, feed, point.observedAt, hlook, hwrote, hsourced.sentFor hbuild⟩

/--
**No dollar figure is made up.** In every state that a deployment reaches, each opportunity the API
answers was sized, valued and rated from prices that the feeds held while its scanner was at work on
the snapshot behind it, each of them written by its feed before, as it was sent for the asset. The
profit of a path across assets is the difference of two such values, and positive.
-/
theorem served_figures (d : Deployment W P) (codec : Codec F) (toUppercase : String → String)
    (settings : Settings) (hbuild : buildValuation toUppercase settings = .ok d.feeds)
    (evs : List (ServiceEvent W P F)) (s : ServiceState W P) (hrun : d.Runs codec evs s)
    (order : IterOrder (List Opportunity)) (query : OpportunityQuery) :
    ∀ view ∈ opportunities order (s.api d) query, ∃ opp w snapshot,
      view = OpportunityView.ofOpportunity opp ∧ Backed (d.task w) snapshot opp ∧
      Figures (PricedMeanwhile d codec toUppercase settings.assets evs s w snapshot opp.detectedAt)
        (d.task w) opp := by
  intro view hview
  obtain ⟨opp, hopp, rfl⟩ := List.mem_map.mp hview
  obtain ⟨-, chain, hget, -⟩ := MemoryNotifier.of_mem_answer hopp
  obtain ⟨opps, hlook, hmem⟩ := MemoryNotifier.mem_get.mp hget
  obtain ⟨w, snapshot, -, hopps⟩ := (FigureInv.run hrun).memory chain opps hlook
  obtain ⟨hbacked, hfigures⟩ := hopps opp hmem
  exact ⟨opp, w, snapshot, rfl, hbacked, hfigures.imp fun hheld => hheld.priced hbuild⟩

end

section

attribute [local instance] RustDecimal.reference

/-- What is served of WETH was sized at a price that CoinGecko sent. -/
theorem figures_wethTick : ∃ (s : ServiceState Unit FakePool) (ranked : List Opportunity)
    (opp : Opportunity) (snapshot : PoolSnapshot FakePool),
    OpportunityView.ofOpportunity opp ∈
      opportunities (IterOrder.stored _) (s.api wethDeployment) ⟨some "ethereum", none⟩ ∧
    Figures (PricedMeanwhile wethDeployment decimalCodec id wethSettings.assets
      (wethTick ++ [.notified () ranked]) s () snapshot opp.detectedAt)
        (wethDeployment.task ()) opp := by
  obtain ⟨s, s', ranked, hrun, -, hstep, hne⟩ := runs_wethTick
  obtain ⟨opp, hopp⟩ := List.exists_mem_of_ne_nil _ hne
  have hview : OpportunityView.ofOpportunity opp ∈
      opportunities (IterOrder.stored _) (s'.api wethDeployment) ⟨some "ethereum", none⟩ :=
    mem_opportunities hopp _
  obtain ⟨opp', w, snapshot, heq, -, hfigures⟩ :=
    served_figures wethDeployment decimalCodec id wethSettings buildValuation_wethSettings _ s'
      (hrun.snoc hstep) (IterOrder.stored _) ⟨some "ethereum", none⟩ _ hview
  exact ⟨s', ranked, opp', snapshot, heq ▸ hview, hfigures⟩

end

end ArbRouter
