import ArbRouter.Adapters.Bridge
import ArbRouter.Core.Detect
import ArbRouter.Infra.SortedPair

/-!
# The pools of Uniswap V4

`setup.rs`: V4 has no factory to enumerate, so each pool is listed in the settings by its two coins,
which are looked up in the registry and put in the order of their addresses.

`amm-rpc` is not part of the verified sources: a `V4PoolConfig` is what its constructor is given,
and the source built from such configs is an arbitrary function.

* `resolveV4Pool_eq_some` — what a pool resolves to
* `resolveV4Pool_eq_none_iff_swapped` — whether it resolves does not depend on the order of the
  coins
-/

namespace ArbRouter

open Infra

/-! ## Settings -/

/-- One configured pool. -/
structure V4PoolSettings where
  coin0 : String
  coin1 : String
  fee : UInt32
  tickSpacing : Int32
  hooks : Option String
deriving DecidableEq

/-- The singleton `PoolManager` and the pools to track. -/
structure UniswapV4Settings where
  poolManager : String
  pools : List V4PoolSettings

/-- A pool as `amm-rpc` is given it. Its hooks are always static. -/
structure V4PoolConfig where
  currency0 : Address
  currency1 : Address
  token0 : CoreAssetId
  token1 : CoreAssetId
  fee : UInt32
  tickSpacing : Int32
  hooks : Address
deriving DecidableEq

/-! ## Resolution -/

variable [Alloy]

/-- The hooks contract, or the zero address of a hookless pool. -/
def parseHooks : Option String → Option Address
  | some h => Alloy.parseAddress h
  | none => some 0

theorem exists_parseHooks_iff {hooks : Option String} : (∃ addr, parseHooks hooks = some addr) ↔
    ∀ h, hooks = some h → (Alloy.parseAddress h).isSome = true := by
  cases hooks with
  | none => simp [parseHooks]
  | some h => simp [parseHooks, Option.isSome_iff_exists]

/-- `resolve_v4_pool`. The chain is only logged. -/
def resolveV4Pool (pool : V4PoolSettings) (registry : AssetRegistry) : Option V4PoolConfig := do
  let a0 ← (AssetId.new pool.coin0).toOption
  let a1 ← (AssetId.new pool.coin1).toOption
  if (registry.lookup a0).isNone ∨ (registry.lookup a1).isNone then none
  else do
    let addr0 ← (assetAddress a0).toOption
    let addr1 ← (assetAddress a1).toOption
    let t0 ← coreAsset a0
    let t1 ← coreAsset a1
    let hooks ← parseHooks pool.hooks
    -- The asset ids stay paired with their addresses.
    let ((c0, ct0), (c1, ct1)) := sortPair (addr0, t0) (addr1, t1)
    return {
      currency0 := c0
      currency1 := c1
      token0 := ct0
      token1 := ct1
      fee := pool.fee
      tickSpacing := pool.tickSpacing
      hooks := hooks }

/-- `build_uniswap_v4`: pools that do not resolve are skipped. -/
def buildUniswapV4 (source : Address → List V4PoolConfig → StateSource) (chain : ChainId)
    (v4 : UniswapV4Settings) (registry : AssetRegistry) : Option AmmRpcExchange := do
  let poolManager ← Alloy.parseAddress v4.poolManager
  let pools := v4.pools.filterMap fun pool => resolveV4Pool pool registry
  if pools = [] then none
  else some (AmmRpcExchange.new "uniswap_v4" chain (source poolManager pools))

/-! ## What a pool resolves to -/

/-- A coin of the settings: an asset id that the registry lists, with its address. -/
structure IsCoin (registry : AssetRegistry) (id : String) (asset : AssetId) (addr : Address) :
    Prop where
  new : AssetId.new id = .ok asset
  listed : (registry.lookup asset).isSome = true
  address : assetAddress asset = .ok addr

/-- The config of a pool with these coins, in order, and hooks. -/
def V4PoolSettings.configOf (pool : V4PoolSettings)
    (coins : (Address × CoreAssetId) × (Address × CoreAssetId)) (hooks : Address) :
    V4PoolConfig where
  currency0 := coins.1.1
  currency1 := coins.2.1
  token0 := coins.1.2
  token1 := coins.2.2
  fee := pool.fee
  tickSpacing := pool.tickSpacing
  hooks := hooks

/-- **A pool resolves** when both coins and the hooks do, to its coins in the order of addresses. -/
theorem resolveV4Pool_eq_some {pool : V4PoolSettings} {registry : AssetRegistry}
    {config : V4PoolConfig} :
    resolveV4Pool pool registry = some config ↔
      ∃ a0 addr0 t0 a1 addr1 t1 hooks, IsCoin registry pool.coin0 a0 addr0 ∧
        coreAsset a0 = some t0 ∧
        IsCoin registry pool.coin1 a1 addr1 ∧ coreAsset a1 = some t1 ∧
        parseHooks pool.hooks = some hooks ∧
        pool.configOf (sortPair (addr0, t0) (addr1, t1)) hooks = config := by
  have hlisted : ∀ a0 a1 : AssetId, ¬((registry.lookup a0).isNone = true ∨
      (registry.lookup a1).isNone = true) ↔
      (registry.lookup a0).isSome = true ∧ (registry.lookup a1).isSome = true := by
    intro a0 a1
    simp only [not_or, Option.isNone_iff_eq_none, Option.ne_none_iff_isSome]
  unfold resolveV4Pool
  simp only [Option.bind_eq_bind, Option.bind_eq_some_iff, Option.ite_none_left_eq_some,
    toOption_eq_some, hlisted]
  constructor
  · rintro ⟨a0, hnew0, a1, hnew1, ⟨hlisted0, hlisted1⟩, addr0, haddr0, addr1, haddr1, t0, ht0, t1,
      ht1, hooks, hhooks, hconfig⟩
    exact ⟨a0, addr0, t0, a1, addr1, t1, hooks, ⟨hnew0, hlisted0, haddr0⟩, ht0,
      ⟨hnew1, hlisted1, haddr1⟩, ht1, hhooks, Option.some.inj hconfig⟩
  · rintro ⟨a0, addr0, t0, a1, addr1, t1, hooks, h0, ht0, h1, ht1, hhooks, rfl⟩
    exact ⟨a0, h0.new, a1, h1.new, ⟨h0.listed, h1.listed⟩, addr0, h0.address, addr1, h1.address, t0,
      ht0, t1, ht1, hooks, hhooks, rfl⟩

/-- The settings with the coins in the other order. -/
def V4PoolSettings.swapped (pool : V4PoolSettings) : V4PoolSettings :=
  { pool with coin0 := pool.coin1, coin1 := pool.coin0 }

/-- **Whether a pool resolves** does not depend on the order of its coins. -/
theorem resolveV4Pool_eq_none_iff_swapped {pool : V4PoolSettings} {registry : AssetRegistry} :
    resolveV4Pool pool.swapped registry = none ↔ resolveV4Pool pool registry = none := by
  have hswap : ∀ p : V4PoolSettings, resolveV4Pool p registry ≠ none →
      resolveV4Pool p.swapped registry ≠ none := by
    intro p hne
    obtain ⟨config, hconfig⟩ := Option.ne_none_iff_exists'.mp hne
    obtain ⟨a0, addr0, t0, a1, addr1, t1, hooks, h0, ht0, h1, ht1, hhooks, -⟩ :=
      resolveV4Pool_eq_some.mp hconfig
    have hswapped : resolveV4Pool p.swapped registry
        = some (p.swapped.configOf (sortPair (addr1, t1) (addr0, t0)) hooks) :=
      resolveV4Pool_eq_some.mpr ⟨a1, addr1, t1, a0, addr0, t0, hooks, h1, ht1, h0, ht0, hhooks, rfl⟩
    rw [hswapped]
    exact Option.some_ne_none _
  exact not_iff_not.mp ⟨hswap pool.swapped, hswap pool⟩

end ArbRouter
