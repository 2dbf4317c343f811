import ArbRouter.Properties.Finder
import ArbRouter.Properties.Service
import ArbRouter.Properties.Setup

/-!
# The service that settings describe

From the settings to the API: what is served was found under the bounds that an entry of the
settings sets for its chain, and trades assets of this chain only.

* `onChain_of_refresh` — the pools an exchange returns are of its chain
* `served_from_settings` — what the service of some settings serves
-/

namespace ArbRouter

open Infra

section

variable [Alloy]

/-! ## Assets of a chain -/

/-- The asset is an address under the name of the chain. -/
def OnChain (name : String) (asset : AssetId) : Prop :=
  ∃ addr : Address, asset.asStr = name ++ ":" ++ Alloy.lowerHex addr

theorem onChain_of_arbAsset {name : String} {core : CoreAssetId} {asset : AssetId}
    (h : arbAsset name core = some asset) : OnChain name asset :=
  ⟨_, AssetId.asStr_of_new (toOption_eq_some.mp h)⟩

variable [RustDecimal]

/-- The pools that an exchange returns trade assets of its chain. -/
theorem onChain_of_refresh {ex : AmmRpcExchange} {keys : List PoolKey} {block : BlockId}
    {pools : List AmmCorePool} (h : ex.refresh keys block = .ok pools) {pool : AmmCorePool}
    (hpool : pool ∈ pools) {asset : AssetId} (hasset : asset ∈ Pool.assets pool) :
    OnChain ex.chain.asStr asset := by
  unfold AmmRpcExchange.refresh at h
  obtain ⟨inner, -, h⟩ := bind_eq_ok.mp h
  obtain rfl := Except.ok.inj h
  obtain ⟨core, -, rfl⟩ := List.mem_map.mp hpool
  obtain ⟨coreAsset, -, hcore⟩ :=
    List.mem_filterMap.mp (show asset ∈ List.filterMap _ _ from hasset)
  exact onChain_of_arbAsset hcore

end

/-! ## Paths over a published snapshot -/

section

variable {W P : Type} [Pool P] {workers : W → SyncWorker} {evs : List (SyncEvent W P)}
  {chain : ChainId} {snapshot : PoolSnapshot P}

/-- A pool that an exchange returned in the run trades both assets of the hop. -/
def HopRead (workers : W → SyncWorker) (evs : List (SyncEvent W P)) (chain : ChainId) (hop : Hop) :
    Prop :=
  ∃ w i keys block pools pool, (workers w).chain = chain ∧
    .refreshed w i keys block (.ok pools) ∈ evs ∧ pool ∈ pools ∧
    hop.pair.source ∈ Pool.assets pool ∧ hop.pair.destination ∈ Pool.assets pool

/-- The edges out of an asset are those of the pools that were returned. -/
theorem BuiltByTick.hopRead (h : BuiltByTick workers evs chain snapshot) {asset : AssetId}
    {edge : Edge}
    (hedge : edge ∈ (Graph.mk snapshot).edgesFrom asset) : HopRead workers evs chain edge.hop := by
  obtain ⟨w, results, hw, ⟨pre, mid, post, rfl, -, -, hcompleted⟩, -, hpools, -⟩ := h
  obtain ⟨entry, hentry, -, hfrom, hto, -⟩ := Graph.mem_edgesFrom.mp hedge
  obtain ⟨-, hasset, pools, hresult, hpool⟩ := (hpools _ entry).mp hentry
  obtain ⟨i, hi⟩ := List.getElem?_of_mem hresult
  obtain ⟨ev, hev, ⟨keys, block, rfl⟩ | ⟨-, -, err, -, herr⟩⟩ := (hcompleted i _).mp hi
  · refine ⟨w, i, keys, block, pools, entry.pool, hw, by simp [hev], hpool, ?_, hto⟩
    show edge.fromAsset ∈ _
    rw [hfrom]
    exact hasset
  · cases herr

/-- What the paths over a published snapshot are. -/
theorem BuiltByTick.trail (h : BuiltByTick workers evs chain snapshot) {start : AssetId}
    {maxHops : Nat} {path : Path} (hpath : path ∈ findPaths ⟨snapshot⟩ start maxHops) :
    path.start = start ∧ 1 ≤ path.hops.length ∧ path.hops.length ≤ maxHops ∧
      Chained start path.hops ∧ (path.hops.map (·.pool)).Nodup ∧
      ∀ hop ∈ path.hops, HopRead workers evs chain hop := by
  obtain ⟨es, hne, hlen, hwalk, rfl⟩ := mem_findPaths.mp hpath
  refine ⟨rfl, ?_, ?_, chained_of_isWalk hwalk, ?_, ?_⟩
  · rw [List.length_map]
    exact List.length_pos_of_ne_nil hne
  · rw [List.length_map]
    exact hlen
  · rw [List.map_map]
    exact nodup_pools_of_isWalk hwalk
  · intro hop hhop
    obtain ⟨edge, hedge, rfl⟩ := List.mem_map.mp hhop
    refine Search.IsWalk.forall_mem (P := fun edge => HopRead workers evs chain edge.hop) _ ?_ hwalk
      edge hedge
    intro current used edge hedge
    exact h.hopRead (Graph.mem_of_mem_frontier hedge).1

end

/-! ## Calldata -/

/-- Without an executor no opportunity gets calldata. -/
theorem Scanner.execution_of_mem_scanRanked {σ ν P : Type} [Pool P] [RustDecimal]
    {sc : Scanner σ ν P}
    (hnone : sc.executor = none) {order : IterOrder Opportunity} {now : OffsetDateTime} {s s' : σ}
    {ranked : List Opportunity} (h : (sc.scanRanked order now).run s = .ok (ranked, s'))
    {opp : Opportunity} (hopp : opp ∈ ranked) : opp.execution = none := by
  unfold scanRanked at h
  obtain ⟨opps, s₁, hopps, h⟩ := Tick.bind_ok.mp h
  obtain ⟨rfl, -⟩ := Tick.pure_ok.mp h
  unfold enrich at hopp
  rw [hnone] at hopp
  unfold scanOpps at hopps
  obtain ⟨evaluations, s₂, heval, hopps⟩ := Tick.bind_ok.mp hopps
  obtain ⟨rfl, -⟩ := Tick.pure_ok.mp hopps
  obtain ⟨path, -, s₃, s₄, hrun⟩ :=
    Tick.of_mem_mapM heval (List.reduceOption_mem_iff.mp (mem_of_mem_rankAndDedup hopp))
  obtain ⟨-, input, output, profitUsd, roi, -, -, -, -, -, rfl⟩ := evaluate_some hrun
  rfl

/-! ## From the settings to the API -/

section

variable [Alloy] [AmmRpc] [Crates] [RustDecimal]

/-- What an opportunity owes to the entry of the settings for its chain. -/
structure WithinSettings (c : ChainSettings) (opp : Opportunity) : Prop where
  chain : opp.chain = ⟨c.chainId⟩
  start : opp.path.start.asStr ∈ c.startAssets
  pos : 1 ≤ opp.path.hops.length
  le_maxHops : opp.path.hops.length ≤ c.maxHops
  chained : Chained opp.path.start opp.path.hops
  nodup : (opp.path.hops.map (·.pool)).Nodup
  onChain : ∀ hop ∈ opp.path.hops, OnChain c.chainId hop.pair.source ∧
    OnChain c.chainId hop.pair.destination
  execution : opp.execution.isSome = true →
    (∃ address, c.executorAddress = some address ∧ (Alloy.parseAddress address).isSome = true) ∧
      (c.chainId = "ethereum" ∨ c.chainId = "base")

variable {F : Type} {codec : Codec F} {r : Router}
  {evs : List (ServiceEvent (Fin r.tasks.length) AmmCorePool F)}
  {s : ServiceState (Fin r.tasks.length) AmmCorePool}

/-- An exchange that a worker asks is an exchange of its chain. -/
theorem mem_asked {w : Fin r.tasks.length} {i : Nat} {ex : AmmRpcExchange}
    (h : (r.asked w)[i]? = some ex) :
    ex ∈ (r.taskAt w).exchanges ∧ ex.chain = (r.deployment.worker w).chain := by
  obtain ⟨hmem, hsupports⟩ := List.mem_filter.mp (List.mem_of_getElem? h)
  exact ⟨hmem, (of_decide_eq_true hsupports).symm⟩

/-- What the exchanges of a chain return is on the chain. -/
theorem HopRead.onChain (hrun : r.Runs codec evs s) {chain : ChainId} {hop : Hop}
    (h : HopRead r.deployment.worker (syncEvents evs) chain hop) :
    OnChain chain.asStr hop.pair.source ∧ OnChain chain.asStr hop.pair.destination := by
  obtain ⟨oracle, -, hanswers⟩ := hrun
  obtain ⟨w, i, keys, block, pools, pool, rfl, hev, hpool, hsource, hdest⟩ := h
  obtain ⟨n, hn⟩ := List.getElem?_of_mem hev
  obtain ⟨ex, hex, hresult⟩ := hanswers n _ hn
  rw [← (mem_asked hex).2]
  exact ⟨onChain_of_refresh hresult.symm hpool hsource, onChain_of_refresh hresult.symm hpool hdest⟩

/--
**From the settings to the API.** Whatever the chains and the feeds answer and however the tasks
interleave, each opportunity that the service of some settings serves belongs to an entry of these
settings: it starts from one of its start assets and takes at most its number of hops, each through
another pool; every asset on the way is an address of its chain, so no path leaves the chain; and it
has calldata only if the entry names an executor, on a chain with a preset.
-/
theorem served_from_settings {F : Type} (toUppercase : String → String) (settings : RouterSettings)
    (r : Router) (hbuild : build toUppercase settings = .ok r) (codec : Codec F)
    (evs : List (ServiceEvent (Fin r.tasks.length) AmmCorePool F))
    (s : ServiceState (Fin r.tasks.length) AmmCorePool) (hrun : r.Runs codec evs s)
    (order : IterOrder (List Opportunity)) (query : OpportunityQuery) :
    ∀ view ∈ opportunities order (s.api r.deployment) query, ∃ opp c,
      view = OpportunityView.ofOpportunity opp ∧ c ∈ settings.spawned ∧ WithinSettings c opp := by
  intro view hview
  obtain ⟨opp, hopp, rfl⟩ := List.mem_map.mp hview
  obtain ⟨oracle, hruns, hanswers⟩ := hrun
  obtain ⟨-, -, w, snapshot, now, opps, hhanded, hmem, hbacked, hbuilt⟩ :=
    (ServiceInv.run hruns).of_mem_answer hopp
  obtain ⟨c, hc, hwires⟩ := exists_wires hbuild (List.get_mem r.tasks w)
  obtain ⟨start, hstart, hpath⟩ := hbacked.path
  obtain ⟨hpathStart, hpos, hle, hchained, hnodup, hread⟩ := hbuilt.trail hpath
  have hchain : opp.chain = ⟨c.chainId⟩ := hbacked.chain.trans hwires.chain
  refine ⟨opp, c, rfl, hc, hchain, ?_, hpos, ?_, ?_, hnodup, ?_, ?_⟩
  · rw [hpathStart, ← hwires.startAssets]
    exact List.mem_map_of_mem hstart
  · rw [← hwires.maxHops]
    exact hle
  · rwa [hpathStart]
  · intro hop hhop
    have honChain := (hread hop hhop).onChain ⟨oracle, hruns, hanswers⟩
    rwa [hchain] at honChain
  · intro hsome
    refine hwires.executor.mp ?_
    -- without an executor there would be no calldata
    by_contra hnone
    rw [Bool.not_eq_true, Option.isSome_eq_false_iff, Option.isNone_iff_eq_none] at hnone
    obtain ⟨before, writes, order', clock, world, world', -, hranked⟩ := hhanded.scanned
    have hexec : ((r.deployment.task w).scanner snapshot clock).executor = none := by
      show (Option.map _ (Option.map _ _)) = none
      rw [show (r.taskAt w).executor = none from hnone]
      rfl
    rw [Scanner.execution_of_mem_scanRanked hexec hranked hmem] at hsome
    cases hsome

end

section

attribute [local instance] RustDecimal.reference Alloy.reference AmmRpc.oneTx Crates.offline

/-- Two pools that trade A and B, one of them two for one. -/
def tokenPools : List CorePool :=
  [⟨"p1", [coreA, coreB], fun _ raw _ => some (2 * raw)⟩,
    ⟨"p2", [coreA, coreB], fun _ raw _ => some raw⟩]

/-- The only task. -/
def tokenTask : Fin tokenRouter.tasks.length := ⟨0, Nat.one_pos⟩

/-- One tick and one poll, then a scan begins. -/
def tokenTick : List (ServiceEvent (Fin tokenRouter.tasks.length) AmmCorePool Decimal) :=
  [.sync (.pinned tokenTask 7 0),
    .sync (.discovered tokenTask 0 ⟨"ethereum"⟩ [tokenA, tokenB] (.ok [])),
    .sync (.refreshed tokenTask 0 [] (.number 7)
      (.ok (tokenPools.map (AmmCorePool.new "ethereum")))),
    .sync (.published tokenTask),
    .polled (AList.singleton "a" (AList.singleton "usd" Decimal.one)),
    .wrote ⟨.coingecko, tokenA, ⟨Decimal.one⟩, 0⟩,
    .loaded tokenTask 0]

/-- The block is 7, and the source finds no keys and these pools. -/
def tokenOracle (r : Router) : r.Oracle where
  blockNumber := fun _ _ => .ok 7
  source := fun _ _ _ => ⟨fun _ _ => .ok [], fun _ _ => .ok tokenPools⟩

/-- The calls of the tick return what the exchange makes of them. -/
theorem answers_tokenTick (ranked : List Opportunity) :
    ∀ n ev, (syncEvents (tokenTick ++ [.notified tokenTask ranked]))[n]? = some ev →
      Router.Answers (tokenOracle tokenRouter) n ev := by
  intro n ev hev
  match n with
  | 0 => cases hev; rfl
  | 1 => cases hev; exact ⟨_, rfl, rfl⟩
  | 2 => cases hev; exact ⟨_, rfl, rfl⟩
  | 3 => cases hev; trivial
  | _ + 4 => cases hev

theorem runs_tokenTick : ∃ s ranked,
    tokenRouter.Runs decimalCodec (tokenTick ++ [.notified tokenTask ranked]) s ∧
    s.sinks.1.get ⟨"ethereum"⟩ ≠ [] := by
  obtain ⟨s, hrun, snapshot, now, before, hp, hfinds⟩ :
      ∃ s, tokenRouter.deployment.Runs decimalCodec tokenTick s ∧
      ∃ snapshot now before, s.scan tokenTask = .scanning snapshot now before [] ∧
        findsSome (tokenRouter.deployment.task tokenTask) snapshot now before s.sinks = true := by
    refine ⟨_, ((((((Run.one (.sync (.pinned 7 0 rfl))).snoc
      (.sync (.discovered (i := 0) _ rfl rfl))).snoc (.sync (.refreshed (i := 0) _ rfl rfl))).snoc
      (.sync (.published rfl ?_))).snoc (.polled (IterOrder.stored _) (fun _ => 0) rfl)).snoc
      (.wrote (show _ = FeedPhase.writing [⟨.coingecko, tokenA, ⟨Decimal.one⟩, 0⟩] from rfl))).snoc
      (.loaded 0 rfl), _, _, _, rfl, ?_⟩
    · decide +kernel
    · intro r hr
      obtain rfl := List.mem_singleton.mp hr
      exact ⟨_, rfl⟩
  obtain ⟨ranked, result, world', log', hranked, hscan, hfound⟩ := exists_of_findsSome hfinds
  refine ⟨_, ranked, ⟨tokenOracle tokenRouter,
    hrun.snoc (.notified hp (observes_quiet before []) hranked hscan), ?_⟩, hfound⟩
  exact answers_tokenTick ranked

/-- What the scan found is served, under the settings of its chain. -/
theorem within_tokenSettings : ∃ s ranked opp c, tokenRouter.Runs decimalCodec
      (tokenTick ++ [.notified tokenTask ranked]) s ∧
    OpportunityView.ofOpportunity opp ∈
      opportunities (IterOrder.stored _) (s.api tokenRouter.deployment) ⟨some "ethereum", none⟩ ∧
    c ∈ tokenSettings.spawned ∧ WithinSettings c opp := by
  obtain ⟨s, ranked, hrun, hne⟩ := runs_tokenTick
  obtain ⟨opp, hopp⟩ := List.exists_mem_of_ne_nil _ hne
  have hview : OpportunityView.ofOpportunity opp ∈
      opportunities (IterOrder.stored _) (s.api tokenRouter.deployment) ⟨some "ethereum", none⟩ :=
    mem_opportunities hopp _
  obtain ⟨opp', c, heq, hc, hwithin⟩ := served_from_settings id tokenSettings tokenRouter
    build_tokenSettings decimalCodec _ s hrun (IterOrder.stored _) ⟨some "ethereum", none⟩ _ hview
  exact ⟨s, ranked, opp', c, hrun, heq ▸ hview, hc, hwithin⟩

end

end ArbRouter
