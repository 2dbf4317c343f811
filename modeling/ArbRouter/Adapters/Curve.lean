import ArbRouter.Adapters.Bridge
import ArbRouter.Core.Detect

/-!
# The pools of Curve

`setup.rs`: each pool is listed in the settings with its coins, whose decimals are looked up in the
registry. A pool that does not resolve is skipped.

`amm-rpc` and `curve-adapter` are not part of the verified sources: the variants are an arbitrary
type with a parser, and the source built from the resolved pools is an arbitrary function.

* `resolveCoins_eq_some` — coins and decimals are collected side by side
* `resolveCurvePool_eq_some` — what a pool resolves to
* `buildCurve_eq_some` — when the exchange is there
* `buildCurve_spec` — which pools it is built over, and what is known of each
-/

namespace ArbRouter

open Infra

/-! ## Settings -/

/-- One configured pool. -/
structure CurvePoolSettings where
  address : String
  variant : String
  coins : List String
  basePool : Option String
  ethVariant : Option Bool
deriving DecidableEq

structure CurveSettings where
  pools : List CurvePoolSettings

/-- A pool as `amm-rpc` is given it. -/
structure CurvePoolConfig (V : Type) where
  address : Address
  variant : V
  coins : List CoreAssetId
  decimals : List UInt8
  basePool : Option Address
  ethVariant : Option Bool

/-! ## Resolution -/

variable {V : Type} [Alloy]

/-- A round of the loop of `resolve_coins`. -/
def pushCoin (registry : AssetRegistry) (resolved : List CoreAssetId × List UInt8) (id : String) :
    Option (List CoreAssetId × List UInt8) := do
  let coin ← (AssetId.new id).toOption
  let assetMeta ← registry.lookup coin
  let core ← coreAsset coin
  return (resolved.1 ++ [core], resolved.2 ++ [assetMeta.decimals])

/-- `resolve_coins`. -/
def resolveCoins (ids : List String) (registry : AssetRegistry) :
    Option (List CoreAssetId × List UInt8) :=
  ids.foldlM (pushCoin registry) ([], [])

/-- Only a base pool that is given has to be an address. -/
def parseBasePool : Option String → Option (Option Address)
  | some addr => (Alloy.parseAddress addr).map some
  | none => some none

/-- A round of the loop of `build_curve`. -/
def resolveCurvePool (parseVariant : String → Option V) (registry : AssetRegistry)
    (pool : CurvePoolSettings) : Option (CurvePoolConfig V) := do
  let address ← Alloy.parseAddress pool.address
  let variant ← parseVariant pool.variant
  let (coins, decimals) ← resolveCoins pool.coins registry
  let basePool ← parseBasePool pool.basePool
  return {
    address := address
    variant := variant
    coins := coins
    decimals := decimals
    basePool := basePool
    ethVariant := pool.ethVariant }

/-- `build_curve`: pools that do not resolve are skipped. -/
def buildCurve (parseVariant : String → Option V) (source : List (CurvePoolConfig V) → StateSource)
    (chain : ChainId) (curve : CurveSettings) (registry : AssetRegistry) : Option AmmRpcExchange :=
  let pools := curve.pools.filterMap (resolveCurvePool parseVariant registry)
  if pools.isEmpty then none else some (AmmRpcExchange.new "curve" chain (source pools))

/-! ## What a pool resolves to -/

/-- A coin of the settings: an asset that the registry lists, with its numeric id. -/
structure IsCurveCoin (registry : AssetRegistry) (id : String) (core : CoreAssetId)
    (decimals : UInt8) : Prop where
  resolves : ∃ (asset : AssetId) (assetMeta : AssetMeta), AssetId.new id = .ok asset ∧
    registry.lookup asset = some assetMeta ∧ coreAsset asset = some core ∧
    assetMeta.decimals = decimals

theorem pushCoin_eq_some {registry : AssetRegistry}
    {resolved resolved' : List CoreAssetId × List UInt8}
    {id : String} : pushCoin registry resolved id = some resolved' ↔
      ∃ core decimals, IsCurveCoin registry id core decimals ∧
        resolved' = (resolved.1 ++ [core], resolved.2 ++ [decimals]) := by
  unfold pushCoin
  simp only [Option.bind_eq_bind, Option.bind_eq_some_iff, toOption_eq_some]
  constructor
  · rintro ⟨asset, hnew, assetMeta, hmeta, core, hcore, h⟩
    exact ⟨core, assetMeta.decimals, ⟨asset, assetMeta, hnew, hmeta, hcore, rfl⟩,
      (Option.some.inj h).symm⟩
  · rintro ⟨core, decimals, ⟨asset, assetMeta, hnew, hmeta, hcore, rfl⟩, rfl⟩
    exact ⟨asset, hnew, assetMeta, hmeta, core, hcore, rfl⟩

/-- **Coins and decimals stay side by side:** the i-th of both belong to the i-th coin listed. -/
theorem resolveCoins_eq_some {ids : List String} {registry : AssetRegistry}
    {coins : List CoreAssetId} {decimals : List UInt8} :
    resolveCoins ids registry = some (coins, decimals) ↔
      ∃ resolved : List (CoreAssetId × UInt8), coins = resolved.map Prod.fst ∧
        decimals = resolved.map Prod.snd ∧
        List.Forall₂ (fun id r => IsCurveCoin registry id r.1 r.2) ids resolved := by
  -- the loop appends to what it has collected
  have hloop : ∀ (ids : List String) (acc : List CoreAssetId × List UInt8),
      ids.foldlM (pushCoin registry) acc = some (coins, decimals) ↔
        ∃ resolved : List (CoreAssetId × UInt8), coins = acc.1 ++ resolved.map Prod.fst ∧
          decimals = acc.2 ++ resolved.map Prod.snd ∧
          List.Forall₂ (fun id r => IsCurveCoin registry id r.1 r.2) ids resolved := by
    intro ids
    induction ids with
    | nil =>
      rintro ⟨acc₁, acc₂⟩
      simp only [List.foldlM_nil, List.forall₂_nil_left_iff, pure, Option.some.injEq, Prod.mk.injEq]
      constructor
      · rintro ⟨rfl, rfl⟩
        exact ⟨[], by simp, by simp, rfl⟩
      · rintro ⟨resolved, rfl, rfl, rfl⟩
        simp
    | cons id rest ih =>
      intro acc
      rw [List.foldlM_cons, Option.bind_eq_bind, Option.bind_eq_some_iff]
      constructor
      · rintro ⟨acc', hround, hrest⟩
        obtain ⟨core, decimal, hcoin, rfl⟩ := pushCoin_eq_some.mp hround
        obtain ⟨resolved, rfl, rfl, hall⟩ := (ih _).mp hrest
        exact ⟨(core, decimal) :: resolved, by simp, by simp, .cons hcoin hall⟩
      · rintro ⟨resolved, hcoins, hdecimals, hall⟩
        obtain ⟨⟨core, decimal⟩, rest', hcoin, hrest, rfl⟩ := List.forall₂_cons_left_iff.mp hall
        refine ⟨_, pushCoin_eq_some.mpr ⟨core, decimal, hcoin, rfl⟩,
          (ih _).mpr ⟨rest', ?_, ?_, hrest⟩⟩
        · simpa using hcoins
        · simpa using hdecimals
  simpa [resolveCoins] using hloop ids ([], [])

/-- **The coins resolve** when the registry lists them all. -/
theorem exists_resolveCoins_iff {ids : List String} {registry : AssetRegistry} :
    (∃ resolved, resolveCoins ids registry = some resolved) ↔
      ∀ id ∈ ids, ∃ asset, AssetId.new id = .ok asset ∧ (registry.lookup asset).isSome = true := by
  have hcoin : ∀ id, (∃ r : CoreAssetId × UInt8, IsCurveCoin registry id r.1 r.2) ↔
      ∃ asset, AssetId.new id = .ok asset ∧ (registry.lookup asset).isSome = true := by
    intro id
    constructor
    · rintro ⟨r, asset, assetMeta, hnew, hmeta, -⟩
      exact ⟨asset, hnew, Option.isSome_iff_exists.mpr ⟨assetMeta, hmeta⟩⟩
    · rintro ⟨asset, hnew, hlisted⟩
      obtain ⟨assetMeta, hmeta⟩ := Option.isSome_iff_exists.mp hlisted
      -- an asset id always has a numeric one
      obtain ⟨core, hcore⟩ := exists_coreAsset asset
      exact ⟨(core, assetMeta.decimals), asset, assetMeta, hnew, hmeta, hcore, rfl⟩
  simp only [← hcoin, ← exists_forall₂_iff]
  constructor
  · rintro ⟨⟨coins, decimals⟩, h⟩
    obtain ⟨resolved, -, -, hall⟩ := resolveCoins_eq_some.mp h
    exact ⟨resolved, hall⟩
  · rintro ⟨resolved, hall⟩
    exact ⟨_, resolveCoins_eq_some.mpr ⟨resolved, rfl, rfl, hall⟩⟩

/-- **A pool resolves** when its address, its variant, its coins and its base pool do. -/
theorem resolveCurvePool_eq_some {parseVariant : String → Option V} {registry : AssetRegistry}
    {pool : CurvePoolSettings} {config : CurvePoolConfig V} :
    resolveCurvePool parseVariant registry pool = some config ↔
      Alloy.parseAddress pool.address = some config.address ∧
      parseVariant pool.variant = some config.variant ∧
      resolveCoins pool.coins registry = some (config.coins, config.decimals) ∧
      parseBasePool pool.basePool = some config.basePool ∧ pool.ethVariant = config.ethVariant := by
  unfold resolveCurvePool
  simp only [Option.bind_eq_bind, Option.bind_eq_some_iff]
  constructor
  · rintro ⟨address, haddress, variant, hvariant, ⟨coins, decimals⟩, hcoins, basePool, hbase, h⟩
    obtain rfl := Option.some.inj h
    exact ⟨haddress, hvariant, hcoins, hbase, rfl⟩
  · rintro ⟨haddress, hvariant, hcoins, hbase, heth⟩
    refine ⟨_, haddress, _, hvariant, _, hcoins, _, hbase, ?_⟩
    rw [heth]
    rfl

/-- The exchange is there as soon as one pool resolves, over the pools that do. -/
theorem buildCurve_eq_some {parseVariant : String → Option V}
    {source : List (CurvePoolConfig V) → StateSource} {chain : ChainId} {curve : CurveSettings}
    {registry : AssetRegistry} {ex : AmmRpcExchange} :
    buildCurve parseVariant source chain curve registry = some ex ↔
      (∃ pool ∈ curve.pools, ∃ config, resolveCurvePool parseVariant registry pool = some config) ∧
      ex = AmmRpcExchange.new "curve" chain
        (source (curve.pools.filterMap (resolveCurvePool parseVariant registry))) := by
  have hresolved : curve.pools.filterMap (resolveCurvePool parseVariant registry) ≠ [] ↔
      ∃ pool ∈ curve.pools, ∃ config,
        resolveCurvePool parseVariant registry pool = some config := by
    simp only [ne_eq, List.filterMap_eq_nil_iff, not_forall, exists_prop,
      ← Option.isSome_iff_ne_none, Option.isSome_iff_exists]
  rw [← hresolved]
  unfold buildCurve
  dsimp only
  generalize curve.pools.filterMap (resolveCurvePool parseVariant registry) = pools
  cases pools with
  | nil => simp
  | cons config rest =>
    rw [List.isEmpty_cons, if_neg Bool.false_ne_true, Option.some.injEq]
    exact ⟨fun h => ⟨List.cons_ne_nil _ _, h.symm⟩, fun h => h.2.symm⟩

/-! ## What the exchange is built over -/

/-- A base pool that is given has to parse. -/
theorem exists_parseBasePool_iff {basePool : Option String} :
    (∃ parsed, parseBasePool basePool = some parsed) ↔
      ∀ addr, basePool = some addr → ∃ parsed, Alloy.parseAddress addr = some parsed := by
  cases basePool with
  | none => simp [parseBasePool]
  | some addr => simp [parseBasePool]

/--
The entry can be quoted: its addresses and its variant parse, and the registry lists its coins.
-/
structure Quotable (parseVariant : String → Option V) (registry : AssetRegistry)
    (pool : CurvePoolSettings) : Prop where
  address : ∃ address, Alloy.parseAddress pool.address = some address
  variant : ∃ variant, parseVariant pool.variant = some variant
  coins : ∀ id ∈ pool.coins, ∃ asset, AssetId.new id = .ok asset ∧
    (registry.lookup asset).isSome = true
  basePool : ∀ addr, pool.basePool = some addr → ∃ parsed, Alloy.parseAddress addr = some parsed

/-- What `amm-rpc` is given for the entry: each coin beside its decimals, in the order listed. -/
structure ConfigOf (parseVariant : String → Option V) (registry : AssetRegistry)
    (pool : CurvePoolSettings) (config : CurvePoolConfig V) : Prop where
  address : Alloy.parseAddress pool.address = some config.address
  variant : parseVariant pool.variant = some config.variant
  coins : ∃ resolved : List (CoreAssetId × UInt8), config.coins = resolved.map Prod.fst ∧
    config.decimals = resolved.map Prod.snd ∧
    List.Forall₂ (fun id r => IsCurveCoin registry id r.1 r.2) pool.coins resolved
  basePool : ∀ addr, pool.basePool = some addr →
    ∃ parsed, Alloy.parseAddress addr = some parsed ∧ config.basePool = some parsed
  noBasePool : pool.basePool = none → config.basePool = none
  ethVariant : config.ethVariant = pool.ethVariant

section

variable {parseVariant : String → Option V} {registry : AssetRegistry} {pool : CurvePoolSettings}

theorem configOf_of_resolve {config : CurvePoolConfig V}
    (h : resolveCurvePool parseVariant registry pool = some config) :
    ConfigOf parseVariant registry pool config := by
  obtain ⟨haddress, hvariant, hcoins, hbase, heth⟩ := resolveCurvePool_eq_some.mp h
  refine ⟨haddress, hvariant, resolveCoins_eq_some.mp hcoins, ?_, ?_, heth.symm⟩
  · intro addr hsome
    rw [hsome] at hbase
    obtain ⟨parsed, hparsed, heq⟩ := Option.map_eq_some_iff.mp hbase
    exact ⟨parsed, hparsed, heq.symm⟩
  · intro hnone
    rw [hnone] at hbase
    exact (Option.some.inj hbase).symm

theorem exists_resolve_iff : (∃ config, resolveCurvePool parseVariant registry pool = some config) ↔
    Quotable parseVariant registry pool := by
  constructor
  · rintro ⟨config, h⟩
    obtain ⟨haddress, hvariant, hcoins, hbase, -⟩ := resolveCurvePool_eq_some.mp h
    exact ⟨⟨_, haddress⟩, ⟨_, hvariant⟩, exists_resolveCoins_iff.mp ⟨_, hcoins⟩,
      exists_parseBasePool_iff.mp ⟨_, hbase⟩⟩
  · rintro ⟨⟨address, haddress⟩, ⟨variant, hvariant⟩, hcoins, hbase⟩
    obtain ⟨⟨coins, decimals⟩, hresolved⟩ := exists_resolveCoins_iff.mpr hcoins
    obtain ⟨basePool, hparsed⟩ := exists_parseBasePool_iff.mpr hbase
    exact ⟨⟨address, variant, coins, decimals, basePool, pool.ethVariant⟩,
      resolveCurvePool_eq_some.mpr ⟨haddress, hvariant, hresolved, hparsed, rfl⟩⟩

end

open Classical in
/--
**Curve is quoted over exactly the entries that can be quoted**, in the order of the settings, each
with its own coins and beside each coin the decimals that the registry lists for it; without such an
entry there is no exchange.
-/
theorem buildCurve_spec (parseVariant : String → Option V)
    (source : List (CurvePoolConfig V) → StateSource) (chain : ChainId) (curve : CurveSettings)
    (registry : AssetRegistry) :
    ∃ configs : List (CurvePoolConfig V),
      List.Forall₂ (ConfigOf parseVariant registry)
        (curve.pools.filter fun pool => decide (Quotable parseVariant registry pool)) configs ∧
      ((∃ ex, buildCurve parseVariant source chain curve registry = some ex) ↔
        ∃ pool ∈ curve.pools, Quotable parseVariant registry pool) ∧
      ∀ ex, buildCurve parseVariant source chain curve registry = some ex →
        ex = AmmRpcExchange.new "curve" chain (source configs) := by
  have hquotable : ∀ pool, decide (Quotable parseVariant registry pool) = true ↔
      ∃ config, resolveCurvePool parseVariant registry pool = some config := by
    intro pool
    rw [decide_eq_true_iff, exists_resolve_iff]
  refine ⟨curve.pools.filterMap (resolveCurvePool parseVariant registry), ?_, ?_, ?_⟩
  · exact (forall₂_filterMap hquotable curve.pools).imp fun _ _ h => configOf_of_resolve h
  · simp only [buildCurve_eq_some, exists_and_left, exists_eq, and_true, exists_resolve_iff]
  · exact fun ex hex => (buildCurve_eq_some.mp hex).2

end ArbRouter
