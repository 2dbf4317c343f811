import ArbRouter.Adapters.AlloyReference
import ArbRouter.Properties.Execution
import ArbRouter.Properties.Feeds
import ArbRouter.System.Setup

/-!
# What settings are wired to

* `buildProviders_spec` — the chains and their providers
* `build_error_iff` — `build` fails with the first asset id that is malformed
* `labels_buildExchanges` — which exchanges a chain gets
* `build_wires` — the tasks that are spawned, one pair for each entry whose chain has a provider
-/

namespace ArbRouter

open Infra

section

variable [AmmRpc] [Crates]

/-! ## Providers -/

/-- The entries of the settings whose URL can be parsed, with it. -/
def RouterSettings.withUrl (settings : RouterSettings) : List (ChainSettings × Crates.Url) :=
  settings.chains.filterMap fun c => (Crates.parseUrl c.rpcUrl).map fun url => (c, url)

/-- What the loop over the chains collects. -/
theorem foldl_pushProvider (cs : List ChainSettings)
    (built : HashMap ChainId EthProvider × List ChainId) :
    cs.foldl pushProvider built =
      ((cs.filterMap fun c => (Crates.parseUrl c.rpcUrl).map fun url => (c, url)).foldl
          (fun m p => m.insert ⟨p.1.chainId⟩ ⟨p.2⟩) built.1,
        built.2 ++ (cs.filterMap fun c => (Crates.parseUrl c.rpcUrl).map fun url => (c, url)).map
          fun p => ⟨p.1.chainId⟩) := by
  induction cs generalizing built with
  | nil => simp
  | cons c rest ih =>
    rw [List.foldl_cons, ih]
    unfold pushProvider makeProvider
    cases hurl : Crates.parseUrl c.rpcUrl with
    | none => simp [hurl]
    | some url => simp [hurl]

/--
**The chains** are those of the entries with a URL; a chain's provider is that of its last one.
-/
theorem buildProviders_spec (settings : RouterSettings) :
    (buildProviders settings.chains).2 = settings.withUrl.map (fun p => ⟨p.1.chainId⟩) ∧
    ∀ chain, (buildProviders settings.chains).1.lookup chain
      = (settings.withUrl.reverse.find? fun p => (⟨p.1.chainId⟩ : ChainId) = chain).map
          fun p => ⟨p.2⟩ := by
  unfold buildProviders
  rw [foldl_pushProvider]
  refine ⟨List.nil_append _, fun chain => ?_⟩
  show ((settings.withUrl.foldl (fun (m : HashMap ChainId EthProvider) p =>
    m.insert ⟨p.1.chainId⟩ ⟨p.2⟩) ∅).lookup chain) = _
  rw [HashMap.lookup_foldl_insert (fun p : ChainSettings × Crates.Url => (⟨p.1.chainId⟩ : ChainId))
    (fun p => (⟨p.2⟩ : EthProvider)), AList.lookup_empty, Option.or_none]

/-- A chain has a provider when it is one of the chains. -/
theorem exists_provider_iff (settings : RouterSettings) (chain : ChainId) :
    (∃ provider, (buildProviders settings.chains).1.lookup chain = some provider) ↔
      chain ∈ (buildProviders settings.chains).2 := by
  obtain ⟨hchains, hlook⟩ := buildProviders_spec settings
  rw [hchains, hlook, ← Option.isSome_iff_exists, Option.isSome_map, List.find?_isSome,
    List.mem_map]
  simp

/-- The reader knows every chain, so its errors are those of the transport. -/
theorem latestBlock_transport {settings : RouterSettings} {chain : ChainId}
    (h : chain ∈ (buildProviders settings.chains).2)
    {blockNumber : EthProvider → Except String UInt64} {err : ChainReadError}
    (herr : latestBlock (buildProviders settings.chains).1 blockNumber chain = .error err) :
    ∃ msg, err = .transport msg := by
  obtain ⟨provider, hprovider⟩ := (exists_provider_iff settings chain).mpr h
  unfold latestBlock at herr
  rw [hprovider] at herr
  dsimp only at herr
  cases hblock : blockNumber provider with
  | error msg =>
    rw [hblock] at herr
    exact ⟨msg, (Except.error.inj herr).symm⟩
  | ok block =>
    rw [hblock] at herr
    cases herr

end

/-! ## Malformed ids -/

/-- Something is found in a list when what is found is not empty. -/
theorem any_isSome_eq {α β : Type} (f : α → Option β) (l : List α) :
    (l.any fun a => (f a).isSome) = !(l.filterMap f).isEmpty := by
  induction l with
  | nil => rfl
  | cons a rest ih =>
    rw [List.any_cons, List.filterMap_cons, ih]
    cases f a <;> rfl

/-- A list is searched part by part. -/
theorem findSome?_flatMap {α β γ : Type} (f : α → List β) (g : β → Option γ) (l : List α) :
    (l.flatMap f).findSome? g = l.findSome? fun a => (f a).findSome? g := by
  induction l with
  | nil => rfl
  | cons a rest ih =>
    rw [List.flatMap_cons, List.findSome?_append, ih, List.findSome?_cons]
    cases (f a).findSome? g <;> rfl

/-- The error of an asset id. -/
def malformed (id : String) : Option AssetIdError :=
  if AssetId.WellFormed id then none else some (.badFormat id)

theorem errorOf_new (id : String) : errorOf (AssetId.new id) = malformed id := by
  unfold AssetId.new malformed
  by_cases h : AssetId.WellFormed id
  · rw [dif_pos h, if_pos h]
    rfl
  · rw [dif_neg h, if_neg h]
    rfl

theorem errorOf_parseAssets (ids : List String) :
    errorOf (parseAssets ids) = ids.findSome? malformed := by
  unfold parseAssets
  rw [errorOf_mapM]
  exact congrArg (fun f => ids.findSome? f) (funext errorOf_new)

theorem errorOf_assetRegistry (settings : RouterSettings) :
    errorOf settings.assetRegistry = (settings.assets.map fun a => a.id).findSome? malformed := by
  rw [List.findSome?_map]
  refine errorOf_foldlM (fun registry asset => ?_) settings.assets ∅
  rw [errorOf_bind_pure, errorOf_new]
  rfl

theorem errorOf_groupPriceIds (assets : List AssetSettings) :
    errorOf (groupPriceIds assets) = (assets.map fun a => a.id).findSome? malformed := by
  rw [List.findSome?_map]
  refine errorOf_foldlM (fun ids asset => ?_) assets ∅
  rw [errorOf_bind_pure, errorOf_new]
  rfl

/-- Only the assets that name a symbol are parsed again. -/
theorem errorOf_groupSymbols (toUppercase : String → String) (assets : List AssetSettings) :
    errorOf (groupSymbols toUppercase assets)
      = assets.findSome? fun a => a.binanceSymbol.bind fun _ => malformed a.id := by
  refine errorOf_foldlM (fun symbols asset => ?_) assets ∅
  unfold pushSymbol
  cases asset.binanceSymbol with
  | none => rfl
  | some symbol =>
    dsimp only
    rw [errorOf_bind_pure, errorOf_new]
    rfl

/-- The feeds fail as the registry does. -/
theorem errorOf_buildValuation (toUppercase : String → String) (settings : Settings) :
    errorOf (buildValuation toUppercase settings)
      = (settings.assets.map fun a => a.id).findSome? malformed := by
  have hall : ∀ ids, groupPriceIds settings.assets = .ok ids → ∀ a ∈ settings.assets,
      malformed a.id = none := by
    intro ids hids
    have hnone := errorOf_groupPriceIds settings.assets
    rw [hids] at hnone
    simpa using List.findSome?_eq_none_iff.mp hnone.symm
  unfold buildValuation
  rw [errorOf_bind, ← errorOf_groupPriceIds]
  cases hids : groupPriceIds settings.assets with
  | error err => rfl
  | ok ids =>
    show errorOf (groupSymbols toUppercase settings.assets >>= fun symbols => pure _) = none
    rw [errorOf_bind_pure, errorOf_groupSymbols, List.findSome?_eq_none_iff]
    intro a ha
    rw [hall ids hids a ha]
    cases a.binanceSymbol <;> rfl

section

variable [Alloy] [AmmRpc] [Crates]

theorem errorOf_buildChain (s : Services) (c : ChainSettings) :
    errorOf (buildChain s c) = (c.trackedTokens ++ c.startAssets).findSome? malformed := by
  unfold buildChain
  rw [errorOf_bind, errorOf_parseAssets, List.findSome?_append]
  cases htracked : parseAssets c.trackedTokens with
  | error err =>
    have herr := errorOf_parseAssets c.trackedTokens
    rw [htracked] at herr
    rw [← herr]
    rfl
  | ok tracked =>
    show (List.findSome? malformed c.trackedTokens).or
      (errorOf (parseAssets c.startAssets >>= fun startAssets => pure _)) = _
    rw [errorOf_bind_pure, errorOf_parseAssets]

/-- The entries whose tasks are spawned. -/
def RouterSettings.spawned (settings : RouterSettings) : List ChainSettings :=
  settings.chains.filter fun c =>
    (⟨c.chainId⟩ : ChainId) ∈ settings.withUrl.map fun p => (⟨p.1.chainId⟩ : ChainId)

/-- The asset ids that are parsed, in order. -/
def RouterSettings.assetIds (settings : RouterSettings) : List String :=
  settings.assets.map (fun a => a.id) ++
    settings.spawned.flatMap fun c => c.trackedTokens ++ c.startAssets

omit [Alloy] in
/-- What `build_services` is made of. -/
theorem buildServices_eq_ok {toUppercase : String → String} {settings : RouterSettings}
    {s : Services} :
    buildServices toUppercase settings = .ok s ↔
      settings.assetRegistry = .ok s.registry ∧
      buildValuation toUppercase settings.feedSettings = .ok s.feeds ∧
      s.providers = (buildProviders settings.chains).1 ∧
      s.chains = (buildProviders settings.chains).2 := by
  unfold buildServices
  constructor
  · intro h
    obtain ⟨registry, hregistry, h⟩ := bind_eq_ok.mp h
    obtain ⟨feeds, hfeeds, h⟩ := bind_eq_ok.mp h
    obtain rfl := Except.ok.inj h
    exact ⟨hregistry, hfeeds, rfl, rfl⟩
  · obtain ⟨providers, chains, feeds, registry⟩ := s
    rintro ⟨hregistry, hfeeds, rfl, rfl⟩
    exact bind_eq_ok.mpr ⟨_, hregistry, bind_eq_ok.mpr ⟨_, hfeeds, rfl⟩⟩

omit [Alloy] in
theorem errorOf_buildServices (toUppercase : String → String) (settings : RouterSettings) :
    errorOf (buildServices toUppercase settings)
      = (settings.assets.map fun a => a.id).findSome? malformed := by
  have hfeeds : errorOf (buildValuation toUppercase settings.feedSettings)
      = (settings.assets.map fun a => a.id).findSome? malformed := by
    rw [errorOf_buildValuation]
    unfold RouterSettings.feedSettings
    rw [List.map_map]
    rfl
  unfold buildServices
  rw [errorOf_bind]
  cases hregistry : settings.assetRegistry with
  | error err =>
    rw [← errorOf_assetRegistry, hregistry]
    rfl
  | ok registry =>
    show errorOf (buildValuation toUppercase settings.feedSettings >>= fun feeds => pure _) = _
    rw [errorOf_bind_pure, hfeeds]

omit [Alloy] in
theorem spawned_of_buildServices {toUppercase : String → String} {settings : RouterSettings}
    {s : Services} (h : buildServices toUppercase settings = .ok s) :
    s.spawned settings.chains = settings.spawned := by
  obtain ⟨-, -, -, hchains⟩ := buildServices_eq_ok.mp h
  unfold Services.spawned RouterSettings.spawned
  rw [hchains, (buildProviders_spec settings).1]

theorem errorOf_build (toUppercase : String → String) (settings : RouterSettings) :
    errorOf (build toUppercase settings) = settings.assetIds.findSome? malformed := by
  unfold build RouterSettings.assetIds
  rw [errorOf_bind, List.findSome?_append, findSome?_flatMap, ← errorOf_buildServices toUppercase]
  cases hservices : buildServices toUppercase settings with
  | error err => rfl
  | ok s =>
    have htasks : errorOf (s.buildTasks settings.chains)
        = settings.spawned.findSome? fun c =>
          (c.trackedTokens ++ c.startAssets).findSome? malformed := by
      unfold Services.buildTasks
      rw [errorOf_mapM, spawned_of_buildServices hservices]
      exact congrArg (fun f => settings.spawned.findSome? f) (funext (errorOf_buildChain s))
    rw [← htasks]
    show errorOf _ = errorOf _
    split
    · rename_i tasks h
      exact (congrArg errorOf h).symm
    · rename_i err h
      exact (congrArg errorOf h).symm

/--
**When settings cannot be wired.** `build` fails with an asset id that is malformed, the first one
in the order in which they are parsed: those of the assets, then, for each entry whose chain has a
provider, its tracked tokens and its start assets. Nothing else makes it fail: no URL, address,
variant or symbol, and no id of a chain without a provider.
-/
theorem build_error_iff (toUppercase : String → String) (settings : RouterSettings)
    (err : AssetIdError) :
    build toUppercase settings = .error err ↔
      ∃ before id after, settings.assetIds = before ++ id :: after ∧
        (∀ id ∈ before, AssetId.WellFormed id) ∧ ¬ AssetId.WellFormed id ∧ err = .badFormat id := by
  have hnone : ∀ id, malformed id = none ↔ AssetId.WellFormed id := by
    intro id
    unfold malformed
    by_cases h : AssetId.WellFormed id <;> simp [h]
  have hsome : ∀ id, malformed id = some err ↔ ¬ AssetId.WellFormed id ∧ err = .badFormat id := by
    intro id
    unfold malformed
    by_cases h : AssetId.WellFormed id <;> simp [h, eq_comm]
  rw [← errorOf_eq_some, errorOf_build, List.findSome?_eq_some_iff]
  simp only [hnone, hsome]
  constructor
  · rintro ⟨before, id, after, heq, ⟨hbad, herr⟩, hbefore⟩
    exact ⟨before, id, after, heq, hbefore, hbad, herr⟩
  · rintro ⟨before, id, after, heq, hbefore, hbad, herr⟩
    exact ⟨before, id, after, heq, ⟨hbad, herr⟩, hbefore⟩

/-! ## Exchanges -/

/-- The name of an exchange, and its chain. -/
def AmmRpcExchange.label (ex : AmmRpcExchange) : String × ChainId := (ex.id.asStr, ex.chain)

/-- What is checked of each block of the settings before its exchange is built. -/
def ChainSettings.checks (c : ChainSettings) (registry : AssetRegistry) : List (String × Bool) :=
  [("uniswap_v3", c.uniswapV3.any fun v3 => (Alloy.parseAddress v3.factory).isSome),
    ("uniswap_v2", c.uniswapV2.any fun v2 => (Alloy.parseAddress v2.factory).isSome),
    ("uniswap_v4", c.uniswapV4.any fun v4 => (Alloy.parseAddress v4.poolManager).isSome &&
      v4.pools.any fun pool => (resolveV4Pool pool registry).isSome),
    ("curve", c.curve.any fun curve =>
      curve.pools.any fun pool => (resolveCurvePool Crates.parseVariant registry pool).isSome),
    ("aerodrome_v2", c.aerodromeV2.any fun aero => (Alloy.parseAddress aero.factory).isSome),
    ("aerodrome_slipstream",
      c.aerodromeSlipstream.any fun slip => (Alloy.parseAddress slip.factory).isSome)]

/-- The label of an exchange that passed its check. -/
def labelOf (chain : ChainId) (check : String × Bool) : Option (String × ChainId) :=
  if check.2 then some (check.1, chain) else none

omit [AmmRpc] [Crates] in
theorem label_fromFactory {S : Type} (id : String) (chain : ChainId) (block : Option S)
    (factory : S → String) (source : S → Address → StateSource) :
    ((block.bind fun b => fromFactory id chain (factory b) (source b)).map AmmRpcExchange.label)
      = labelOf chain (id, block.any fun b => (Alloy.parseAddress (factory b)).isSome) := by
  cases block with
  | none => rfl
  | some b =>
    show ((fromFactory id chain (factory b) (source b)).map AmmRpcExchange.label)
      = labelOf chain (id, (Alloy.parseAddress (factory b)).isSome)
    unfold fromFactory
    cases Alloy.parseAddress (factory b) <;> rfl

omit [AmmRpc] [Crates] in
theorem label_buildUniswapV4 (source : Address → List V4PoolConfig → StateSource) (chain : ChainId)
    (block : Option UniswapV4Settings) (registry : AssetRegistry) :
    ((block.bind fun v4 => buildUniswapV4 source chain v4 registry).map AmmRpcExchange.label)
      = labelOf chain ("uniswap_v4", block.any fun v4 =>
        (Alloy.parseAddress v4.poolManager).isSome &&
          v4.pools.any fun pool => (resolveV4Pool pool registry).isSome) := by
  cases block with
  | none => rfl
  | some v4 =>
    show ((buildUniswapV4 source chain v4 registry).map AmmRpcExchange.label) = labelOf chain _
    rw [Option.any_some, any_isSome_eq]
    unfold buildUniswapV4
    cases Alloy.parseAddress v4.poolManager with
    | none => rfl
    | some poolManager =>
      cases v4.pools.filterMap fun pool => resolveV4Pool pool registry with
      | nil => rfl
      | cons config rest => rfl

omit [AmmRpc] [Crates] in
theorem label_buildCurve {V : Type} (parseVariant : String → Option V)
    (source : List (CurvePoolConfig V) → StateSource) (chain : ChainId)
    (block : Option CurveSettings) (registry : AssetRegistry) :
    ((block.bind fun curve => buildCurve parseVariant source chain curve registry).map
        AmmRpcExchange.label)
      = labelOf chain ("curve", block.any fun curve =>
          curve.pools.any fun pool => (resolveCurvePool parseVariant registry pool).isSome) := by
  cases block with
  | none => rfl
  | some curve =>
    show ((buildCurve parseVariant source chain curve registry).map AmmRpcExchange.label)
      = labelOf chain _
    rw [Option.any_some, any_isSome_eq]
    unfold buildCurve
    cases curve.pools.filterMap (resolveCurvePool parseVariant registry) with
    | nil => rfl
    | cons config rest => rfl

/-- **Which exchanges a chain gets:** in a fixed order, those whose own block passes its check. -/
theorem labels_buildExchanges (chain : ChainId) (c : ChainSettings) (registry : AssetRegistry)
    (provider : EthProvider) :
    (buildExchanges chain c registry (some provider)).map AmmRpcExchange.label
      = (c.checks registry).filterMap (labelOf chain) := by
  have hblocks : (exchangeBlocks chain c registry provider).map (Option.map AmmRpcExchange.label)
      = (c.checks registry).map (labelOf chain) := by
    unfold exchangeBlocks ChainSettings.checks
    simp only [List.map_cons, List.map_nil, label_fromFactory, label_buildUniswapV4,
      label_buildCurve]
  unfold buildExchanges
  dsimp only
  rw [← List.reduceOption_map, hblocks]
  unfold List.reduceOption
  rw [List.filterMap_map]
  rfl

omit [Alloy] [AmmRpc] [Crates] in
theorem fst_labelOf_sublist (chain : ChainId) (checks : List (String × Bool)) :
    ((checks.filterMap (labelOf chain)).map Prod.fst).Sublist (checks.map Prod.fst) := by
  induction checks with
  | nil => exact .slnil
  | cons check rest ih =>
    obtain ⟨name, ok⟩ := check
    cases ok with
    | false => exact ih.cons name
    | true => exact ih.cons_cons name

/-- Every exchange is for its chain, and no two have the same name. -/
theorem of_buildExchanges (chain : ChainId) (c : ChainSettings) (registry : AssetRegistry)
    (provider : Option EthProvider) :
    (∀ ex ∈ buildExchanges chain c registry provider, ex.chain = chain) ∧
    ((buildExchanges chain c registry provider).map fun ex => ex.id).Nodup := by
  cases provider with
  | none => exact ⟨fun ex hex => absurd hex List.not_mem_nil, List.nodup_nil⟩
  | some provider =>
    have hlabels := labels_buildExchanges chain c registry provider
    constructor
    · intro ex hex
      have hlabel : ex.label ∈ (c.checks registry).filterMap (labelOf chain) := by
        rw [← hlabels]
        exact List.mem_map_of_mem hex
      obtain ⟨check, -, hcheck⟩ := List.mem_filterMap.mp hlabel
      unfold labelOf at hcheck
      split at hcheck
      · exact (congrArg Prod.snd (Option.some.inj hcheck)).symm
      · cases hcheck
    · have hnames : (buildExchanges chain c registry (some provider)).map (fun ex => ex.id.asStr)
          = ((c.checks registry).filterMap (labelOf chain)).map Prod.fst := by
        rw [← hlabels, List.map_map]
        rfl
      have hnodup : ((c.checks registry).map Prod.fst).Nodup := by
        unfold ChainSettings.checks
        simp
      refine List.Nodup.of_map ExchangeId.asStr ?_
      rw [List.map_map]
      show ((buildExchanges chain c registry (some provider)).map fun ex => ex.id.asStr).Nodup
      rw [hnames]
      exact hnodup.sublist (fst_labelOf_sublist chain _)

/-! ## Tasks -/

omit [Alloy] [AmmRpc] [Crates] in
/-- The registry has the last entry of each asset. -/
theorem lookup_assetRegistry {settings : RouterSettings} {registry : AssetRegistry}
    (h : settings.assetRegistry = .ok registry) (asset : AssetId) :
    registry.lookup asset = (settings.assets.reverse.find? fun a => a.id = asset.asStr).map
      fun a => ⟨a.decimals, a.symbol⟩ := by
  rw [lookup_foldlM_insert h, AList.lookup_empty, Option.or_none]

omit [Alloy] [AmmRpc] [Crates] in
/-- Parsing keeps every id, in order. -/
theorem map_asStr_of_parseAssets {ids : List String} {assets : List AssetId}
    (h : parseAssets ids = .ok assets) : assets.map AssetId.asStr = ids := by
  have hall := mapM_eq_ok_iff.mp h
  rw [← List.forall₂_eq_eq_eq, List.forall₂_map_left_iff]
  exact hall.flip.imp fun asset id hnew => AssetId.asStr_of_new hnew

/-- The tasks that an entry of the settings is to get. -/
structure Wires (settings : RouterSettings) (c : ChainSettings) (t : ChainTasks) : Prop where
  chain : t.chain = ⟨c.chainId⟩
  trackedTokens : t.trackedTokens.map AssetId.asStr = c.trackedTokens
  startAssets : t.cfg.startAssets.map AssetId.asStr = c.startAssets
  maxHops : t.cfg.maxHops = c.maxHops
  inputUsd : t.cfg.inputUsd = ⟨c.inputUsd⟩
  registry : ∀ asset, t.registry.lookup asset
    = (settings.assets.reverse.find? fun a => a.id = asset.asStr).map
      fun a => ⟨a.decimals, a.symbol⟩
  exchanges : t.exchanges.map AmmRpcExchange.label
    = (c.checks t.registry).filterMap (labelOf t.chain)
  nodup : (t.exchanges.map fun ex => ex.id).Nodup
  supporting : t.worker.supporting = t.worker.exchanges
  executor : t.executor.isSome = true ↔
    (∃ address, c.executorAddress = some address ∧ (Alloy.parseAddress address).isSome = true) ∧
      (c.chainId = "ethereum" ∨ c.chainId = "base")

theorem isSome_buildExecutor (c : ChainSettings) :
    (buildExecutor c ⟨c.chainId⟩).isSome = true ↔
      (∃ address, c.executorAddress = some address ∧ (Alloy.parseAddress address).isSome = true) ∧
        (c.chainId = "ethereum" ∨ c.chainId = "base") := by
  have hpreset : (chainPreset c.chainId).isSome = true ↔
      c.chainId = "ethereum" ∨ c.chainId = "base" := by
    unfold chainPreset
    split <;> simp_all
  rw [← hpreset]
  unfold buildExecutor
  cases c.executorAddress with
  | none => simp
  | some address =>
    cases hparse : Alloy.parseAddress address with
    | none => simp [hparse]
    | some sender =>
      cases chainPreset c.chainId <;> simp [hparse]

theorem wires_of_buildChain {toUppercase : String → String} {settings : RouterSettings}
    {s : Services}
    (hs : buildServices toUppercase settings = .ok s) {c : ChainSettings} {t : ChainTasks}
    (hc : c ∈ settings.spawned) (h : buildChain s c = .ok t) : Wires settings c t := by
  obtain ⟨hregistry, -, hproviders, hchains⟩ := buildServices_eq_ok.mp hs
  unfold buildChain at h
  obtain ⟨tracked, htracked, h⟩ := bind_eq_ok.mp h
  obtain ⟨starts, hstarts, h⟩ := bind_eq_ok.mp h
  obtain rfl := Except.ok.inj h
  -- the chain has a provider, as its tasks are spawned
  obtain ⟨provider, hprovider⟩ : ∃ provider, s.providers.lookup ⟨c.chainId⟩ = some provider := by
    rw [hproviders]
    refine (exists_provider_iff settings _).mpr ?_
    rw [(buildProviders_spec settings).1]
    simpa using (List.mem_filter.mp hc).2
  obtain ⟨hchain, hnodup⟩ := of_buildExchanges ⟨c.chainId⟩ c s.registry
    (s.providers.lookup ⟨c.chainId⟩)
  refine ⟨rfl, map_asStr_of_parseAssets htracked, map_asStr_of_parseAssets hstarts, rfl, rfl,
    lookup_assetRegistry hregistry, ?_, hnodup, ?_, isSome_buildExecutor c⟩
  · dsimp only
    rw [hprovider]
    exact labels_buildExchanges _ _ _ _
  · unfold SyncWorker.supporting ChainTasks.worker
    refine List.filter_eq_self.mpr fun port hport => ?_
    obtain ⟨ex, hex, rfl⟩ := List.mem_map.mp hport
    show decide (_ = ex.chain) = true
    rw [hchain ex hex, decide_eq_true_iff]

/-- What `build` is made of. -/
theorem build_eq_ok {toUppercase : String → String} {settings : RouterSettings} {r : Router}
    (h : build toUppercase settings = .ok r) :
    buildServices toUppercase settings = .ok r.toServices ∧
      r.toServices.buildTasks settings.chains = .ok r.tasks := by
  unfold build at h
  obtain ⟨s, hs, h⟩ := bind_eq_ok.mp h
  split at h
  · obtain rfl := Except.ok.inj h
    exact ⟨hs, ‹_›⟩
  · cases h

/-- Each task is built from an entry of the settings. -/
theorem exists_buildChain {toUppercase : String → String} {settings : RouterSettings} {r : Router}
    (h : build toUppercase settings = .ok r) {t : ChainTasks} (ht : t ∈ r.tasks) :
    ∃ c ∈ settings.spawned, buildChain r.toServices c = .ok t := by
  obtain ⟨hs, htasks⟩ := build_eq_ok h
  unfold Services.buildTasks at htasks
  rw [spawned_of_buildServices hs] at htasks
  exact (mem_of_mapM_ok htasks).mp ht

theorem exists_wires {toUppercase : String → String} {settings : RouterSettings} {r : Router}
    (h : build toUppercase settings = .ok r) {t : ChainTasks} (ht : t ∈ r.tasks) :
    ∃ c ∈ settings.spawned, Wires settings c t := by
  obtain ⟨c, hc, hbuild⟩ := exists_buildChain h ht
  exact ⟨c, hc, wires_of_buildChain (build_eq_ok h).1 hc hbuild⟩

/--
**What settings are wired to.** The service runs the feeds of the settings, knows the chains of the
entries with a URL, and spawns one worker and one scanner, in order, for each entry whose chain is
one of these. A chain gets the exchanges whose own block passes its check, each under its own name
and all for this chain; every chain has a provider, so reading a block fails in the transport only.
-/
theorem build_wires (toUppercase : String → String) (settings : RouterSettings) (r : Router)
    (h : build toUppercase settings = .ok r) :
    r.chains = settings.withUrl.map (fun p => ⟨p.1.chainId⟩) ∧
    buildValuation toUppercase settings.feedSettings = .ok r.feeds ∧
    List.Forall₂ (Wires settings) settings.spawned r.tasks ∧
    ∀ t ∈ r.tasks, ∀ blockNumber err, latestBlock r.providers blockNumber t.chain = .error err →
      ∃ msg, err = .transport msg := by
  obtain ⟨hs, htasks⟩ := build_eq_ok h
  obtain ⟨-, hfeeds, hproviders, hchains⟩ := buildServices_eq_ok.mp hs
  refine ⟨hchains.trans (buildProviders_spec settings).1, hfeeds, ?_, ?_⟩
  · unfold Services.buildTasks at htasks
    rw [spawned_of_buildServices hs] at htasks
    have hall : List.Forall₂ (fun c t => c ∈ settings.spawned ∧ buildChain r.toServices c = .ok t)
        settings.spawned r.tasks :=
      (List.forall₂_and_left _ _).mpr ⟨fun c hc => hc, mapM_eq_ok_iff.mp htasks⟩
    exact hall.imp fun c t ⟨hc, hbuild⟩ => wires_of_buildChain hs hc hbuild
  · intro t ht blockNumber err herr
    rw [hproviders] at herr
    refine latestBlock_transport ?_ herr
    rw [← hchains]
    exact r.chain_mem t ht

end

section

attribute [local instance] RustDecimal.reference Alloy.reference AmmRpc.oneTx

/-- Every URL is taken, and the chain answers that there are no pools. -/
@[reducible] def Crates.offline : Crates where
  Url := String
  parseUrl := some
  CurveVariant := String
  parseVariant := some
  uniswapV3Source _ _ _ := ⟨fun _ _ => .ok [], fun _ _ => .ok []⟩
  uniswapV2Source _ _ _ := ⟨fun _ _ => .ok [], fun _ _ => .ok []⟩
  uniswapV4Source _ _ _ := ⟨fun _ _ => .ok [], fun _ _ => .ok []⟩
  curveSource _ _ := ⟨fun _ _ => .ok [], fun _ _ => .ok []⟩
  aerodromeSource _ _ := ⟨fun _ _ => .ok [], fun _ _ => .ok []⟩
  slipstreamSource _ _ _ := ⟨fun _ _ => .ok [], fun _ _ => .ok []⟩
  ethereum := ()
  base := ()

attribute [local instance] Crates.offline

/-- One chain, with one exchange and two assets. -/
def tokenSettings : RouterSettings where
  fiatProviderUrl := ""
  coingeckoApiKey := none
  binanceWsUrl := none
  priceRefreshSecs := none
  priceStalenessSecs := none
  assets := [⟨⟨tokenA.asStr, "a", none⟩, 0, "A"⟩, ⟨⟨tokenB.asStr, "b", none⟩, 0, "B"⟩]
  chains := [{
    chainId := "ethereum"
    rpcUrl := "http://127.0.0.1:1"
    maxHops := 2
    inputUsd := Decimal.ofUInt64 1000
    startAssets := [tokenA.asStr]
    trackedTokens := [tokenA.asStr, tokenB.asStr]
    executorAddress := none
    executionSlippageBps := none
    uniswapV3 := some ⟨"0x1111111111111111111111111111111111111111", [500]⟩
    uniswapV2 := none
    uniswapV4 := none
    curve := none
    aerodromeV2 := none
    aerodromeSlipstream := none }]

/-- Its tasks. -/
def tokenTasks : ChainTasks where
  chain := ⟨"ethereum"⟩
  exchanges := [AmmRpcExchange.new "uniswap_v3" ⟨"ethereum"⟩ ⟨fun _ _ => .ok [], fun _ _ => .ok []⟩]
  trackedTokens := [tokenA, tokenB]
  registry := ((∅ : AssetRegistry).insert tokenA ⟨0, "A"⟩).insert tokenB ⟨0, "B"⟩
  cfg := ⟨[tokenA], 2, ⟨Decimal.ofUInt64 1000⟩⟩
  executor := none

/-- The service that is built from it. -/
def tokenRouter : Router where
  providers := (∅ : HashMap ChainId EthProvider).insert ⟨"ethereum"⟩ ⟨"http://127.0.0.1:1"⟩
  chains := [⟨"ethereum"⟩]
  feeds :=
    { store := PriceStore.new (StdDuration.fromSecs 120)
      coingecko := ⟨"", ((∅ : HashMap AssetId String).insert tokenA "a").insert tokenB "b",
        StdDuration.fromSecs 30, none⟩
      binance := ⟨"wss://stream.binance.com:9443", ∅⟩ }
  registry := ((∅ : AssetRegistry).insert tokenA ⟨0, "A"⟩).insert tokenB ⟨0, "B"⟩
  tasks := [tokenTasks]
  chain_mem := by
    intro t ht
    rw [List.mem_singleton.mp ht]
    exact List.mem_cons_self

theorem build_tokenSettings : build id tokenSettings = .ok tokenRouter := rfl

/-- It is wired as the settings say. -/
theorem wires_tokenSettings :
    List.Forall₂ (Wires tokenSettings) tokenSettings.spawned [tokenTasks] :=
  (build_wires id tokenSettings tokenRouter build_tokenSettings).2.2.1

end

end ArbRouter
