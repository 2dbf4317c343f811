import ArbRouter.Properties.Polling
import ArbRouter.Properties.Snapshot
import ArbRouter.Properties.Sync
import ArbRouter.System.Service

/-!
# Where served opportunities come from

In every run of a deployment, whatever the interleaving of its tasks, each opportunity the API
serves was found by a scan over a snapshot that one sync tick of its chain published.

* `Scanned`, `Backed` — what a scan hands over, and what that means for each opportunity
* `Loaded`, `Handed` — the moments of a run at which a scan began, and at which it ended
* `ServiceInv` — what holds after every run, with a lemma per field for one event
* `served_backed` — what the API serves
-/

namespace ArbRouter

open Infra

section

variable {W P F : Type} [Pool P] [RustDecimal]

/-! ## What a scan hands over -/

/--
A tick of the task over the snapshot, begun at `now` with these prices, hands these opportunities
over if this is what the feeds write meanwhile.
-/
def Scanned (task : ScanTask P) (snapshot : PoolSnapshot P) (now : OffsetDateTime)
    (before : PriceStore) (writes : List PriceWrite) (opps : List Opportunity) : Prop :=
  ∃ order clock world world', Observes world before writes ∧
    ((task.scanner snapshot clock).scanRanked order now).run world = .ok (opps, world')

/-- The opportunity is a trade with the pools of the snapshot that gains, and was fresh. -/
structure Backed (task : ScanTask P) (snapshot : PoolSnapshot P) (opp : Opportunity) : Prop where
  chain : opp.chain = task.chain
  path : ∃ start ∈ task.cfg.startAssets, opp.path ∈ findPaths ⟨snapshot⟩ start task.cfg.maxHops
  quoted : quotePath snapshot opp.path opp.input = some opp.output
  gains : isProfitable ⟨opp.path, opp.input, opp.output, opp.profitUsd⟩ = true
  fresh : isFresh snapshot opp.path opp.detectedAt MAX_POOL_STALENESS = true
  synced : opp.worstPoolSyncedAt = worstSyncedAt snapshot opp.path

theorem Scanned.backed {task : ScanTask P} {snapshot : PoolSnapshot P} {now : OffsetDateTime}
    {before : PriceStore} {writes : List PriceWrite} {opps : List Opportunity}
    (h : Scanned task snapshot now before writes opps) {opp : Opportunity} (hopp : opp ∈ opps) :
    Backed task snapshot opp ∧ opp.detectedAt = now := by
  obtain ⟨order, clock, world, world', -, hrun⟩ := h
  obtain ⟨path, hpath, base, s₁, s₂, heval, heq⟩ := Scanner.of_mem_scanRanked hrun hopp
  obtain ⟨hfresh, input, output, profitUsd, roi, s₃, -, hquote, -, hprofit, rfl⟩ :=
    Scanner.evaluate_some heval
  -- the opportunity is the one that was evaluated, but for its calldata
  rw [heq]
  exact ⟨⟨rfl, Scanner.mem_paths.mp hpath, hquote, hprofit, hfresh, rfl⟩, rfl⟩

omit [RustDecimal] in
/-- Nothing is found in the snapshot of a chain that has not synced. -/
theorem not_backed_emptySnapshot {task : ScanTask P} {opp : Opportunity} :
    ¬ Backed task emptySnapshot opp := by
  intro h
  obtain ⟨hop, hhop⟩ := List.exists_mem_of_ne_nil _ (ne_nil_of_quotePath h.quoted)
  obtain ⟨entry, hget, -⟩ := isFresh_iff.mp h.fresh hop hhop
  exact absurd (PoolSnapshot.of_get_fromEntries hget).1 List.not_mem_nil

omit [RustDecimal] in
/-- All hops of a path through pools stamped alike are as old as the stamp. -/
theorem worstSyncedAt_of_stamp {snapshot : PoolSnapshot P} {path : Path} (hne : path.hops ≠ [])
    {stamp : PoolMeta}
    (h : ∀ hop ∈ path.hops, ∃ entry, snapshot.get hop.pool = some entry ∧ entry.poolMeta = stamp) :
    worstSyncedAt snapshot path = stamp.syncedAt := by
  obtain ⟨⟨worst, hworst, heq⟩, -⟩ := worstSyncedAt_spec snapshot hne
  obtain ⟨entry, hget, hstamp⟩ := h worst hworst
  rw [heq, hopSyncedAt_of_get hget, hstamp]

/-! ## Moments of a run -/

omit [Pool P] [RustDecimal] in
theorem syncEvents_concat (evs : List (ServiceEvent W P F)) (ev : ServiceEvent W P F) :
    syncEvents (evs ++ [ev]) = syncEvents evs ∨
      ∃ e, syncEvents (evs ++ [ev]) = syncEvents evs ++ [e] := by
  unfold syncEvents
  rw [List.filterMap_append]
  cases ev with
  | sync e => exact Or.inr ⟨e, rfl⟩
  | _ => exact Or.inl (List.append_nil _)

/-- The snapshot is the empty one a chain starts with, or was published for the chain. -/
def Snapshotted (d : Deployment W P) (evs : List (ServiceEvent W P F)) (chain : ChainId)
    (snapshot : PoolSnapshot P) : Prop :=
  snapshot = emptySnapshot ∨ Published d.worker (syncEvents evs) chain snapshot

variable {d : Deployment W P} {codec : Codec F} {evs : List (ServiceEvent W P F)}

omit [RustDecimal] in
theorem Snapshotted.snoc {chain : ChainId} {snapshot : PoolSnapshot P}
    (h : Snapshotted d evs chain snapshot) (ev : ServiceEvent W P F) :
    Snapshotted d (evs ++ [ev]) chain snapshot := by
  unfold Snapshotted at h ⊢
  refine h.imp_right fun h => ?_
  rcases syncEvents_concat evs ev with heq | ⟨e, heq⟩
  · rwa [heq]
  · rw [heq]
    exact h.snoc e

omit [RustDecimal] in
theorem Snapshotted.append {chain : ChainId} {snapshot : PoolSnapshot P}
    (h : Snapshotted d evs chain snapshot) (more : List (ServiceEvent W P F)) :
    Snapshotted d (evs ++ more) chain snapshot := by
  induction more using List.reverseRecOn with
  | nil => rwa [List.append_nil]
  | append_singleton more ev ih =>
    rw [← List.append_assoc]
    exact ih.snoc ev

omit [RustDecimal] in
theorem pricesAfter_append (pre more : List (ServiceEvent W P F)) :
    d.pricesAfter (pre ++ more) = (writesOf more).foldl PriceWrite.effect (d.pricesAfter pre) := by
  unfold Deployment.pricesAfter writesOf
  rw [List.filterMap_append, List.foldl_append]

variable [DecidableEq W]

/--
The last scan of `w` began with this snapshot and these prices and has not ended; this is what the
feeds have written since.
-/
def Loaded (d : Deployment W P) (evs : List (ServiceEvent W P F)) (w : W)
    (snapshot : PoolSnapshot P) (now : OffsetDateTime) (before : PriceStore)
    (writes : List PriceWrite) : Prop :=
  ∃ pre mid, evs = pre ++ .loaded w now :: mid ∧ (∀ ev ∈ mid, ev.scansOn w = false) ∧
    Snapshotted d pre (d.task w).chain snapshot ∧ before = d.pricesAfter pre ∧ writes = writesOf mid

/--
A scan of `w` began with this snapshot, and when it ended it handed these opportunities over: they
are what it finds with the prices of its beginning and what the feeds wrote until its end.
-/
def Handed (d : Deployment W P) (evs : List (ServiceEvent W P F)) (w : W)
    (snapshot : PoolSnapshot P) (now : OffsetDateTime) (opps : List Opportunity) : Prop :=
  ∃ pre mid post, evs = pre ++ .loaded w now :: (mid ++ .notified w opps :: post) ∧
    (∀ ev ∈ mid, ev.scansOn w = false) ∧ Snapshotted d pre (d.task w).chain snapshot ∧
    Scanned (d.task w) snapshot now (d.pricesAfter pre) (writesOf mid) opps

section

variable {w : W} {snapshot : PoolSnapshot P} {now : OffsetDateTime} {before : PriceStore}
  {writes : List PriceWrite} {opps : List Opportunity} {ev : ServiceEvent W P F}

omit [RustDecimal] in
theorem Loaded.snapshotted (h : Loaded d evs w snapshot now before writes) :
    Snapshotted d evs (d.task w).chain snapshot := by
  obtain ⟨pre, mid, rfl, -, hsnap, -, -⟩ := h
  exact hsnap.append _

omit [RustDecimal] in
/-- What the feeds wrote since the scan began makes the prices of this moment. -/
theorem Loaded.prices (h : Loaded d evs w snapshot now before writes) :
    writes.foldl PriceWrite.effect before = d.pricesAfter evs := by
  obtain ⟨pre, mid, rfl, -, -, rfl, rfl⟩ := h
  rw [pricesAfter_append]
  rfl

omit [RustDecimal] in
/-- The scan goes on while its scanner does nothing else. -/
theorem Loaded.snoc (h : Loaded d evs w snapshot now before writes) (hev : ev.scansOn w = false) :
    Loaded d (evs ++ [ev]) w snapshot now before (writes ++ writesOf [ev]) := by
  obtain ⟨pre, mid, rfl, hmid, hsnap, rfl, rfl⟩ := h
  refine ⟨pre, mid ++ [ev], by simp, fun e he => ?_, hsnap, rfl, (List.filterMap_append ..).symm⟩
  rcases List.mem_append.mp he with he | he
  · exact hmid e he
  · rwa [List.mem_singleton.mp he]

/-- The scan ends. -/
theorem Loaded.handed (h : Loaded d evs w snapshot now before writes)
    (hscan : Scanned (d.task w) snapshot now before writes opps) :
    Handed d (evs ++ [.notified w opps]) w snapshot now opps := by
  obtain ⟨pre, mid, rfl, hmid, hsnap, rfl, rfl⟩ := h
  exact ⟨pre, mid, [], by simp, hmid, hsnap, hscan⟩

/-- What was handed over was handed over. -/
theorem Handed.append (h : Handed d evs w snapshot now opps) (more : List (ServiceEvent W P F)) :
    Handed d (evs ++ more) w snapshot now opps := by
  obtain ⟨pre, mid, post, rfl, hmid, hsnap, hscan⟩ := h
  exact ⟨pre, mid, post ++ more, by simp, hmid, hsnap, hscan⟩

theorem Handed.snapshotted (h : Handed d evs w snapshot now opps) :
    Snapshotted d evs (d.task w).chain snapshot := by
  obtain ⟨pre, mid, post, rfl, -, hsnap, -⟩ := h
  exact hsnap.append _

theorem Handed.scanned (h : Handed d evs w snapshot now opps) :
    ∃ before writes, Scanned (d.task w) snapshot now before writes opps := by
  obtain ⟨pre, mid, post, -, -, -, hscan⟩ := h
  exact ⟨_, _, hscan⟩

end

/-! ## Every run -/

/-- The sync workers of a run have a run of their own. -/
theorem syncInv_of_runs {s : ServiceState W P} (h : d.Runs codec evs s) :
    SyncInv d.worker d.chains (syncEvents evs) s.sync :=
  SyncInv.run ((ServiceStep.syncing d codec).run h)

/-- What holds of the prices, the scanners and the sinks after the events `evs`. -/
structure ServiceInv (d : Deployment W P) (evs : List (ServiceEvent W P F))
    (s : ServiceState W P) : Prop where
  prices : s.prices = d.pricesAfter evs
  store : ∀ chain, Snapshotted d evs chain (s.sync.store.snapshot chain)
  scanning : ∀ w snapshot now before writes, s.scan w = .scanning snapshot now before writes →
    Loaded d evs w snapshot now before writes
  memory : ∀ chain opps, s.sinks.1.latest.lookup chain = some opps → ∃ w snapshot now,
    (d.task w).chain = chain ∧ Handed d evs w snapshot now opps

theorem ServiceInv.init (d : Deployment W P) :
    ServiceInv d ([] : List (ServiceEvent W P F)) (ServiceState.init d) where
  prices := rfl
  store := fun chain => Or.inl (ArcSwapPoolStore.snapshot_new d.chains chain)
  scanning := by
    intro w snapshot now before writes h
    cases h
  memory := by
    intro chain opps h
    cases h

section

variable {s s' : ServiceState W P} {ev : ServiceEvent W P F}

/-- A step keeps what holds of the prices. -/
theorem ServiceInv.prices_step (h : ServiceInv d evs s) (hs : ServiceStep d codec s ev s') :
    s'.prices = d.pricesAfter (evs ++ [ev]) := by
  rw [pricesAfter_append, ← h.prices]
  exact hs.prices_eq

/-- A step keeps what holds of the scanners. -/
theorem ServiceInv.scanning_step (h : ServiceInv d evs s) (hs : ServiceStep d codec s ev s') {w : W}
    {snapshot : PoolSnapshot P} {now : OffsetDateTime} {before : PriceStore}
    {writes : List PriceWrite} (hp : s'.scan w = .scanning snapshot now before writes) :
    Loaded d (evs ++ [ev]) w snapshot now before writes := by
  rcases hs.scan_cases w with ⟨heq, hev⟩ | ⟨now', rfl, -, hload⟩ | ⟨write, rfl, hobs⟩ |
    ⟨opps, -, hidle⟩ | ⟨-, hstop⟩
  · rw [heq] at hp
    have hmore := (h.scanning w snapshot now before writes hp).snoc hev.1
    rwa [hev.2, List.append_nil] at hmore
  · -- the scan begins with the snapshot and the prices of this moment
    obtain ⟨rfl, rfl, rfl, rfl⟩ := ScanPhase.scanning.inj (hload.symm.trans hp)
    exact ⟨evs, [], rfl, fun ev hev => absurd hev List.not_mem_nil, h.store _, h.prices, rfl⟩
  · rw [hobs] at hp
    cases hphase : s.scan w with
    | idle => rw [hphase] at hp; cases hp
    | stopped => rw [hphase] at hp; cases hp
    | scanning snapshot' now' before' writes' =>
      rw [hphase] at hp
      obtain ⟨rfl, rfl, rfl, rfl⟩ := ScanPhase.scanning.inj hp
      exact (h.scanning w _ _ _ _ hphase).snoc rfl
  · rw [hidle] at hp
    cases hp
  · rw [hstop] at hp
    cases hp

/-- What a scanner hands over is what it has found since it began. -/
theorem ServiceInv.handed (h : ServiceInv d evs s) {w : W} {opps : List Opportunity}
    (hs : ServiceStep d codec s (.notified w opps) s') :
    ∃ snapshot now before writes, s.scan w = .scanning snapshot now before writes ∧
      Handed d (evs ++ [.notified w opps]) w snapshot now opps := by
  obtain ⟨snapshot, now, before, writes, order, clock, world, world', hp, hobs, hscan, -⟩ :=
    hs.notified_cases
  have hloaded := h.scanning w snapshot now before writes hp
  exact ⟨snapshot, now, before, writes, hp,
    hloaded.handed ⟨order, clock, world, world', hobs, hscan⟩⟩

/-- A step keeps what holds of the memory. -/
theorem ServiceInv.memory_step (h : ServiceInv d evs s) (hs : ServiceStep d codec s ev s')
    {chain : ChainId} {opps : List Opportunity}
    (hlook : s'.sinks.1.latest.lookup chain = some opps) : ∃ w snapshot now,
      (d.task w).chain = chain ∧ Handed d (evs ++ [ev]) w snapshot now opps := by
  have hold : s.sinks.1.latest.lookup chain = some opps → ∃ w snapshot now,
      (d.task w).chain = chain ∧ Handed d (evs ++ [ev]) w snapshot now opps := by
    intro hlook
    obtain ⟨w, snapshot, now, hchain, hhanded⟩ := h.memory chain opps hlook
    exact ⟨w, snapshot, now, hchain, hhanded.append [ev]⟩
  rcases hs.sinks_cases with heq | ⟨w, ranked, rfl, hsinks⟩
  · rw [heq] at hlook
    exact hold hlook
  · rw [hsinks, notify_sinks] at hlook
    by_cases hchain : chain = (d.task w).chain
    · subst hchain
      rw [AList.lookup_insert] at hlook
      obtain rfl := Option.some.inj hlook
      obtain ⟨snapshot, now, before, writes, -, hhanded⟩ := h.handed hs
      exact ⟨w, snapshot, now, rfl, hhanded⟩
    · rw [AList.lookup_insert_ne hchain] at hlook
      exact hold hlook

/-- **Every run keeps the invariant.** -/
theorem ServiceInv.run (h : d.Runs codec evs s) : ServiceInv d evs s := by
  induction h with
  | start => exact ServiceInv.init d
  | snoc hrun hs ih =>
    refine ⟨ih.prices_step hs, (syncInv_of_runs (hrun.snoc hs)).published, ?_, ?_⟩
    · exact fun w snapshot now before writes hp => ih.scanning_step hs hp
    · exact fun chain opps hlook => ih.memory_step hs hlook

end

/-! ## What the API serves -/

omit [DecidableEq W] [RustDecimal] in
/-- A trade with the pools of a tick is as old as the tick. -/
theorem Backed.synced_of_builtByTick {evs : List (SyncEvent W P)} {workers : W → SyncWorker}
    {chain : ChainId} {task : ScanTask P} {snapshot : PoolSnapshot P} {opp : Opportunity}
    (h : Backed task snapshot opp) (hbuilt : BuiltByTick workers evs chain snapshot) :
    (∀ hop ∈ opp.path.hops, ∃ entry, snapshot.get hop.pool = some entry ∧
      entry.poolMeta = ⟨snapshot.block, snapshot.takenAt⟩) ∧
    opp.worstPoolSyncedAt = snapshot.takenAt ∧
    opp.detectedAt - snapshot.takenAt ≤ MAX_POOL_STALENESS.toTime := by
  obtain ⟨w, results, -, -, -, -, hget⟩ := hbuilt
  have hne := ne_nil_of_quotePath h.quoted
  have hstamp : ∀ hop ∈ opp.path.hops, ∃ entry, snapshot.get hop.pool = some entry ∧
      entry.poolMeta = ⟨snapshot.block, snapshot.takenAt⟩ := by
    intro hop hhop
    obtain ⟨entry, hentry, -⟩ := isFresh_iff.mp h.fresh hop hhop
    exact ⟨entry, hentry, (hget _ _ hentry).1⟩
  have hworst := worstSyncedAt_of_stamp hne hstamp
  refine ⟨hstamp, h.synced.trans hworst, ?_⟩
  have hage := ((isFresh_iff_worstSyncedAt snapshot hne _ _).mp h.fresh).2
  rwa [hworst] at hage

/-- Each opportunity that the API answers was handed over by a scan, of a snapshot of one tick. -/
theorem ServiceInv.of_mem_answer {s : ServiceState W P} (h : ServiceInv d evs s)
    {order : IterOrder (List Opportunity)} {query : OpportunityQuery}
    {opp : Opportunity} (hopp : opp ∈ s.sinks.1.answer order query) :
    query.minRoiBps.getD 0 ≤ opp.roiBps ∧ (∀ c, query.chain = some c → opp.chain = ⟨c⟩) ∧
      ∃ w snapshot now opps, Handed d evs w snapshot now opps ∧ opp ∈ opps ∧
        Backed (d.task w) snapshot opp ∧
        BuiltByTick d.worker (syncEvents evs) opp.chain snapshot := by
  obtain ⟨hroi, chain, hget, hquery⟩ := MemoryNotifier.of_mem_answer hopp
  obtain ⟨opps, hlook, hmem⟩ := MemoryNotifier.mem_get.mp hget
  obtain ⟨w, snapshot, now, rfl, hhanded⟩ := h.memory chain opps hlook
  obtain ⟨before, writes, hscan⟩ := hhanded.scanned
  obtain ⟨hbacked, -⟩ := hscan.backed hmem
  refine ⟨hroi, fun c hc => hbacked.chain.trans (hquery c hc), w, snapshot, now, opps, hhanded,
    hmem, hbacked, ?_⟩
  rcases hhanded.snapshotted with rfl | hpub
  · exact absurd hbacked not_backed_emptySnapshot
  · rw [hbacked.chain]
    exact hpub.builtByTick

/--
**Everything served is backed by one sync tick.** In every state that a deployment reaches, each
opportunity the API answers is a gaining trade, on a path of the finder, with pools of a snapshot
that a single tick of a worker of the chain published; all its pools were read at the block of that
tick, and it was found no more than 60 seconds after the tick pinned the block.
-/
theorem served_backed (d : Deployment W P) (codec : Codec F) (evs : List (ServiceEvent W P F))
    (s : ServiceState W P) (hrun : d.Runs codec evs s) (order : IterOrder (List Opportunity))
    (query : OpportunityQuery) :
    ∀ view ∈ opportunities order (s.api d) query, ∃ opp w snapshot,
      view = OpportunityView.ofOpportunity opp ∧
      (∀ c, query.chain = some c → opp.chain = ⟨c⟩) ∧ query.minRoiBps.getD 0 ≤ opp.roiBps ∧
      Backed (d.task w) snapshot opp ∧
      BuiltByTick d.worker (syncEvents evs) opp.chain snapshot ∧
      (∀ hop ∈ opp.path.hops, ∃ entry, snapshot.get hop.pool = some entry ∧
        entry.poolMeta = ⟨snapshot.block, snapshot.takenAt⟩) ∧
      opp.worstPoolSyncedAt = snapshot.takenAt ∧
      opp.detectedAt - snapshot.takenAt ≤ MAX_POOL_STALENESS.toTime := by
  intro view hview
  obtain ⟨opp, hopp, rfl⟩ := List.mem_map.mp hview
  obtain ⟨hroi, hquery, w, snapshot, now, opps, -, -, hbacked, hbuilt⟩ :=
    (ServiceInv.run hrun).of_mem_answer hopp
  obtain ⟨hstamp, hworst, hage⟩ := hbacked.synced_of_builtByTick hbuilt
  exact ⟨opp, w, snapshot, rfl, hquery, hroi, hbacked, hbuilt, hstamp, hworst, hage⟩

/-- The scan of the task over the snapshot hands something over for its chain. -/
def findsSome (task : ScanTask P) (snapshot : PoolSnapshot P) (now : OffsetDateTime)
    (prices : PriceStore) (log : Sinks) : Bool :=
  match ((task.scanner snapshot fun _ => 0).scanOnce (IterOrder.stored _) now).run
      (World.quiet prices, log) with
  | .ok (_, _, log') => log'.1.get task.chain ≠ []
  | .error _ => false

theorem exists_of_findsSome {task : ScanTask P} {snapshot : PoolSnapshot P} {now : OffsetDateTime}
    {prices : PriceStore} {log : Sinks} (h : findsSome task snapshot now prices log = true) :
    ∃ ranked result world' log',
      ((task.scanner snapshot fun _ => 0).scanRanked (IterOrder.stored _) now).run
        (World.quiet prices) = .ok (ranked, world') ∧
      ((task.scanner snapshot fun _ => 0).scanOnce (IterOrder.stored _) now).run
        (World.quiet prices, log) = .ok (result, world', log') ∧ log'.1.get task.chain ≠ [] := by
  unfold findsSome at h
  split at h
  case h_1 result world' log' hrun =>
    obtain ⟨ranked, hranked, -⟩ := Scanner.scanOnce_ok hrun
    exact ⟨ranked, result, world', log', hranked, hrun, of_decide_eq_true h⟩
  case h_2 => cases h

end

section

attribute [local instance] RustDecimal.reference

/-- Two pools that trade WETH and B, one of them two for one. -/
def wethPools : List FakePool :=
  [⟨⟨"p1"⟩, [weth, assetB], two⟩, ⟨⟨"p2"⟩, [weth, assetB], Decimal.one⟩]

/-- One chain, with a single exchange, whose scans start from WETH. -/
def wethDeployment : Deployment Unit FakePool where
  chains := [⟨"ethereum"⟩]
  worker := fun _ => ⟨⟨"ethereum"⟩, [⟨⟨"univ3"⟩, fun _ => true⟩], [weth, assetB]⟩
  task := fun _ =>
    { chain := ⟨"ethereum"⟩
      registry := AList.singleton weth ⟨0, "WETH"⟩
      cfg := ⟨[weth], 2, ⟨Decimal.ofUInt64 1000⟩⟩
      executor := none }
  feeds := wethFeeds
  chain_worker := fun _ => rfl
  chain_mem := fun _ => List.mem_cons_self

/-- No ticker can be decoded, and quotes are decimals as they are. -/
def decimalCodec : Codec Decimal := ⟨fun _ => none, some⟩

/-- One tick and one poll, then a scan begins. -/
def wethTick : List (ServiceEvent Unit FakePool Decimal) :=
  [.sync (.pinned () 7 0),
    .sync (.discovered () 0 ⟨"ethereum"⟩ [weth, assetB] (.ok [])),
    .sync (.refreshed () 0 [] (.number 7) (.ok wethPools)),
    .sync (.published ()),
    .polled wethBody,
    .wrote ⟨.coingecko, weth, ⟨Decimal.one⟩, 0⟩,
    .loaded () 0]

/-- The scan finds something, at the price that was polled. -/
theorem runs_wethTick : ∃ s s' ranked, wethDeployment.Runs decimalCodec wethTick s ∧
    s.prices.priceAndSource weth 0 = some (⟨Decimal.one⟩, "coingecko") ∧
    ServiceStep wethDeployment decimalCodec s (.notified () ranked) s' ∧
    s'.sinks.1.get ⟨"ethereum"⟩ ≠ [] := by
  obtain ⟨s, hrun, hprice, snapshot, now, before, hp, hfinds⟩ : ∃ s : ServiceState Unit FakePool,
      wethDeployment.Runs decimalCodec wethTick s ∧
      s.prices.priceAndSource weth 0 = some (⟨Decimal.one⟩, "coingecko") ∧
      ∃ snapshot now before, s.scan () = .scanning snapshot now before [] ∧
        findsSome (wethDeployment.task ()) snapshot now before s.sinks = true := by
    refine ⟨_, ((((((Run.one (.sync (.pinned 7 0 rfl))).snoc
      (.sync (.discovered (i := 0) _ rfl rfl))).snoc (.sync (.refreshed (i := 0) _ rfl rfl))).snoc
      (.sync (.published rfl ?_))).snoc
      (.polled (IterOrder.stored _) (fun _ => 0) rfl)).snoc
      (.wrote (show _ = FeedPhase.writing [⟨.coingecko, weth, ⟨Decimal.one⟩, 0⟩] from rfl))).snoc
      (.loaded 0 rfl),
      rfl, _, _, _, rfl, ?_⟩
    · decide +kernel
    · intro r hr
      obtain rfl := List.mem_singleton.mp hr
      exact ⟨_, rfl⟩
  obtain ⟨ranked, result, world', log', hranked, hscan, hfound⟩ := exists_of_findsSome hfinds
  exact ⟨s, _, ranked, hrun, hprice, .notified hp (observes_quiet before []) hranked hscan, hfound⟩

/-- What the scan found is served, and backed by the tick. -/
theorem backed_wethTick : ∃ (s : ServiceState Unit FakePool) (ranked : List Opportunity)
    (opp : Opportunity) (snapshot : PoolSnapshot FakePool),
    OpportunityView.ofOpportunity opp ∈
      opportunities (IterOrder.stored _) (s.api wethDeployment) ⟨some "ethereum", none⟩ ∧
    Backed (wethDeployment.task ()) snapshot opp ∧
    BuiltByTick wethDeployment.worker (syncEvents (wethTick ++ [.notified () ranked])) opp.chain
      snapshot := by
  obtain ⟨s, s', ranked, hrun, -, hstep, hne⟩ := runs_wethTick
  obtain ⟨opp, hopp⟩ := List.exists_mem_of_ne_nil _ hne
  have hview : OpportunityView.ofOpportunity opp ∈
      opportunities (IterOrder.stored _) (s'.api wethDeployment) ⟨some "ethereum", none⟩ :=
    mem_opportunities hopp _
  obtain ⟨opp', w, snapshot, heq, -, -, hbacked, hbuilt, -⟩ :=
    served_backed wethDeployment decimalCodec _ s' (hrun.snoc hstep) (IterOrder.stored _)
      ⟨some "ethereum", none⟩ _ hview
  exact ⟨s', ranked, opp', snapshot, heq ▸ hview, hbacked, hbuilt⟩

end

end ArbRouter
