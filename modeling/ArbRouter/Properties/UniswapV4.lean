import ArbRouter.Adapters.AlloyReference
import ArbRouter.Adapters.UniswapV4

/-!
# The order of the coins of a V4 pool

The currencies of a pool come from `asset_address`, which reads the second field of an asset id, and
its tokens from `core_asset`, which reads everything behind the first colon. They agree on ids of
two fields. Two coins of one address are not put in any order.

* `coreAsset_slot_iff` — when the token of a coin is its address
* `resolveV4Pool_canonical_iff` — the pools that resolve to sorted currencies with their own tokens
* `buildUniswapV4_swapped` — the exchange does not depend on the order of the coins of such pools
-/

namespace ArbRouter

open Infra

/-! ## The two readings of an asset id -/

/-- What follows the first colon. -/
def AssetId.token (asset : AssetId) : String := ((splitOnce asset.asStr).map Prod.snd).getD ""

theorem AssetId.splitOnce_asStr (asset : AssetId) :
    ∃ chain, splitOnce asset.asStr = some (chain, asset.token) := by
  obtain ⟨chain, token, h⟩ := asset.exists_splitOnce
  refine ⟨chain, ?_⟩
  unfold AssetId.token
  rw [h]
  rfl

section

variable [Alloy]

/-- An address is the whole token, if the token is a single field. -/
theorem assetAddress_eq_ok_of_field {asset : AssetId} (h : ':' ∉ asset.token.toList)
    {addr : Address} :
    assetAddress asset = .ok addr ↔ Alloy.parseAddress asset.token = some addr := by
  obtain ⟨chain, hsplit⟩ := asset.splitOnce_asStr
  obtain ⟨hlist, hchain⟩ := toList_of_splitOnce hsplit
  have hfield : (asset.asStr.toList.splitOn ':')[1]? = some asset.token.toList := by
    rw [hlist, List.splitOn_append_cons_self_of_not_mem hchain, List.splitOn_eq_singleton h]
    rfl
  unfold assetAddress
  rw [hfield, Option.bind_some, String.ofList_toList]
  cases Alloy.parseAddress asset.token <;> simp

/-- The token is an address or is hashed. -/
theorem coreAsset_eq_some {asset : AssetId} {t : CoreAssetId} (h : coreAsset asset = some t) :
    t.token = match Alloy.parseAddress asset.token with
      | some addr => addr.setWidth 256
      | none => Alloy.keccak256 (bytes asset.token) := by
  obtain ⟨chain, hsplit⟩ := asset.splitOnce_asStr
  unfold coreAsset at h
  rw [hsplit] at h
  exact (congrArg CoreAssetId.token (Option.some.inj h)).symm

/-- The id is `chain:address`, or the hash of its token happens to be the address. -/
def HasSlot (asset : AssetId) (addr : Address) : Prop :=
  ':' ∉ asset.token.toList ∨ Alloy.keccak256 (bytes asset.token) = addr.setWidth 256

/-- **The two readings agree** exactly on ids of two fields, accidents of the hash apart. -/
theorem coreAsset_slot_iff [StrictAlloy] {asset : AssetId} {addr : Address} {t : CoreAssetId}
    (haddr : assetAddress asset = .ok addr) (ht : coreAsset asset = some t) :
    t.token = addr.setWidth 256 ↔ HasSlot asset addr := by
  unfold HasSlot
  rw [coreAsset_eq_some ht]
  by_cases hcolon : ':' ∈ asset.token.toList
  · rw [StrictAlloy.parseAddress_colon _ hcolon]
    simp [hcolon]
  · rw [(assetAddress_eq_ok_of_field hcolon).mp haddr]
    simp [hcolon]

/-! ## Canonical configs -/

/-- The currencies are in strict order, and each token is its currency, left-padded. -/
structure V4PoolConfig.Canonical (config : V4PoolConfig) : Prop where
  sorted : config.currency0 < config.currency1
  slot0 : config.token0.token = config.currency0.setWidth 256
  slot1 : config.token1.token = config.currency1.setWidth 256

/--
The pool resolves canonically, if at all, and to the same config in either order of its coins.
-/
def ResolvesCanonically (pool : V4PoolSettings) (registry : AssetRegistry) : Prop :=
  ∀ config, resolveV4Pool pool registry = some config →
    config.Canonical ∧ resolveV4Pool pool.swapped registry = some config

theorem canonical_configOf_iff [StrictAlloy] (pool : V4PoolSettings) {a0 a1 : AssetId}
    {addr0 addr1 : Address} {t0 t1 : CoreAssetId} (haddr0 : assetAddress a0 = .ok addr0)
    (ht0 : coreAsset a0 = some t0) (haddr1 : assetAddress a1 = .ok addr1)
    (ht1 : coreAsset a1 = some t1) (hooks : Address) :
    (pool.configOf (sortPair (addr0, t0) (addr1, t1)) hooks).Canonical ↔
      addr0 ≠ addr1 ∧ HasSlot a0 addr0 ∧ HasSlot a1 addr1 := by
  have hslots : _ ↔ t0.token = addr0.setWidth 256 ∧ t1.token = addr1.setWidth 256 :=
    sortPair_forall (P := fun c => c.2.token = c.1.setWidth 256) (addr0, t0) (addr1, t1)
  rw [← coreAsset_slot_iff haddr0 ht0, ← coreAsset_slot_iff haddr1 ht1, ← hslots]
  constructor
  · intro h
    exact ⟨sortPair_lt_iff.mp h.sorted, h.slot0, h.slot1⟩
  · rintro ⟨hne, hslot0, hslot1⟩
    exact ⟨sortPair_lt_iff.mpr hne, hslot0, hslot1⟩

/--
**A V4 pool resolves canonically** exactly when, if its coins and hooks resolve at all, the two
addresses differ and each coin is `chain:address` with nothing behind the address.
-/
theorem resolveV4Pool_canonical_iff [StrictAlloy] (pool : V4PoolSettings)
    (registry : AssetRegistry) :
    ResolvesCanonically pool registry ↔
      ∀ a0 addr0 a1 addr1, IsCoin registry pool.coin0 a0 addr0 →
        IsCoin registry pool.coin1 a1 addr1 →
        (∀ h, pool.hooks = some h → (Alloy.parseAddress h).isSome = true) →
        addr0 ≠ addr1 ∧ HasSlot a0 addr0 ∧ HasSlot a1 addr1 := by
  constructor
  · intro hcanon a0 addr0 a1 addr1 h0 h1 hparse
    obtain ⟨t0, ht0⟩ := exists_coreAsset a0
    obtain ⟨t1, ht1⟩ := exists_coreAsset a1
    obtain ⟨hooks, hhooks⟩ := exists_parseHooks_iff.mpr hparse
    have hconfig : resolveV4Pool pool registry
        = some (pool.configOf (sortPair (addr0, t0) (addr1, t1)) hooks) :=
      resolveV4Pool_eq_some.mpr ⟨a0, addr0, t0, a1, addr1, t1, hooks, h0, ht0, h1, ht1, hhooks, rfl⟩
    exact (canonical_configOf_iff pool h0.address ht0 h1.address ht1 hooks).mp (hcanon _ hconfig).1
  · intro hcoins config hconfig
    obtain ⟨a0, addr0, t0, a1, addr1, t1, hooks, h0, ht0, h1, ht1, hhooks, rfl⟩ :=
      resolveV4Pool_eq_some.mp hconfig
    obtain ⟨hne, hslots⟩ :=
      hcoins a0 addr0 a1 addr1 h0 h1 (exists_parseHooks_iff.mp ⟨hooks, hhooks⟩)
    refine ⟨(canonical_configOf_iff pool h0.address ht0 h1.address ht1 hooks).mpr ⟨hne, hslots⟩, ?_⟩
    refine resolveV4Pool_eq_some.mpr
      ⟨a1, addr1, t1, a0, addr0, t0, hooks, h1, ht1, h0, ht0, hhooks, ?_⟩
    rw [sortPair_comm (p := (addr0, t0)) (q := (addr1, t1)) hne]
    rfl

/-! ## The exchange -/

/-- Coins in the other order resolve to the same config, or neither way to one. -/
theorem ResolvesCanonically.swapped {pool : V4PoolSettings} {registry : AssetRegistry}
    (h : ResolvesCanonically pool registry) :
    resolveV4Pool pool.swapped registry = resolveV4Pool pool registry := by
  cases hconfig : resolveV4Pool pool registry with
  | none => exact resolveV4Pool_eq_none_iff_swapped.mpr hconfig
  | some config => exact (h config hconfig).2

/-- **The exchange is built from canonical configs,** one for each pool that resolves. -/
theorem buildUniswapV4_canonical {source : Address → List V4PoolConfig → StateSource}
    {chain : ChainId} {v4 : UniswapV4Settings} {registry : AssetRegistry} {ex : AmmRpcExchange}
    (hpools : ∀ pool ∈ v4.pools, ResolvesCanonically pool registry)
    (h : buildUniswapV4 source chain v4 registry = some ex) :
    ∃ poolManager pools, ex = AmmRpcExchange.new "uniswap_v4" chain (source poolManager pools) ∧
      pools ≠ [] ∧ ∀ config ∈ pools, config.Canonical := by
  unfold buildUniswapV4 at h
  simp only [Option.bind_eq_bind, Option.bind_eq_some_iff, Option.ite_none_left_eq_some] at h
  obtain ⟨poolManager, -, hne, hex⟩ := h
  refine ⟨poolManager, _, (Option.some.inj hex).symm, hne, fun config hconfig => ?_⟩
  obtain ⟨pool, hmem, hresolve⟩ := List.mem_filterMap.mp hconfig
  exact (hpools pool hmem config hresolve).1

/-- **The exchange does not depend on the order of the coins** in any of its pools. -/
theorem buildUniswapV4_swapped {source : Address → List V4PoolConfig → StateSource}
    {chain : ChainId} {v4 : UniswapV4Settings} {registry : AssetRegistry}
    (hpools : ∀ pool ∈ v4.pools, ResolvesCanonically pool registry) (swap : V4PoolSettings → Bool) :
    buildUniswapV4 source chain { v4 with
        pools := v4.pools.map fun pool => if swap pool then pool.swapped else pool } registry
      = buildUniswapV4 source chain v4 registry := by
  have hsame : (v4.pools.map fun pool => if swap pool then pool.swapped else pool).filterMap
      (fun pool => resolveV4Pool pool registry)
        = v4.pools.filterMap fun pool => resolveV4Pool pool registry := by
    rw [List.filterMap_map]
    refine List.filterMap_congr fun pool hmem => ?_
    show resolveV4Pool (if swap pool then pool.swapped else pool) registry = _
    split
    · exact (hpools pool hmem).swapped
    · rfl
  unfold buildUniswapV4
  rw [hsame]

end

section

attribute [local instance] Alloy.reference

/-- `tokenA`, under the name of another chain. -/
def tokenA' : AssetId := ⟨"arbitrum:0x1111111111111111111111111111111111111111", by decide⟩

def tokenRegistry : AssetRegistry :=
  (((∅ : AssetRegistry).insert tokenA ⟨6, "A"⟩).insert tokenB ⟨18, "B"⟩).insert tokenA' ⟨6, "A"⟩

theorem isCoin_tokenA :
    IsCoin tokenRegistry tokenA.asStr tokenA 0x1111111111111111111111111111111111111111 :=
  ⟨tokenA.new_asStr, by decide +kernel, by decide +kernel⟩

theorem isCoin_tokenB :
    IsCoin tokenRegistry tokenB.asStr tokenB 0x2222222222222222222222222222222222222222 :=
  ⟨tokenB.new_asStr, by decide +kernel, by decide +kernel⟩

theorem isCoin_tokenA' :
    IsCoin tokenRegistry tokenA'.asStr tokenA' 0x1111111111111111111111111111111111111111 :=
  ⟨tokenA'.new_asStr, by decide +kernel, by decide +kernel⟩

/-- A pool of two coins, without hooks. -/
def poolOf (coin0 coin1 : AssetId) : V4PoolSettings := ⟨coin0.asStr, coin1.asStr, 500, 10, none⟩

theorem resolve_poolOf {a0 a1 : AssetId} {addr0 addr1 : Address} {t0 t1 : CoreAssetId}
    (h0 : IsCoin tokenRegistry a0.asStr a0 addr0) (ht0 : coreAsset a0 = some t0)
    (h1 : IsCoin tokenRegistry a1.asStr a1 addr1) (ht1 : coreAsset a1 = some t1) :
    resolveV4Pool (poolOf a0 a1) tokenRegistry
      = some ((poolOf a0 a1).configOf (sortPair (addr0, t0) (addr1, t1)) 0) :=
  resolveV4Pool_eq_some.mpr ⟨a0, addr0, t0, a1, addr1, t1, 0, h0, ht0, h1, ht1, rfl, rfl⟩

/-- The coins are listed high then low. -/
theorem resolvesCanonically_tokens : ResolvesCanonically (poolOf tokenB tokenA) tokenRegistry := by
  refine (resolveV4Pool_canonical_iff (poolOf tokenB tokenA) tokenRegistry).mpr ?_
  intro a0 addr0 a1 addr1 h0 h1 _
  obtain rfl : tokenB = a0 := Except.ok.inj (isCoin_tokenB.new.symm.trans h0.new)
  obtain rfl : tokenA = a1 := Except.ok.inj (isCoin_tokenA.new.symm.trans h1.new)
  rw [← Except.ok.inj (isCoin_tokenB.address.symm.trans h0.address),
    ← Except.ok.inj (isCoin_tokenA.address.symm.trans h1.address)]
  exact ⟨by decide, Or.inl (by decide +kernel), Or.inl (by decide +kernel)⟩

/-- Coins of one address are not sorted, and on two chains their order shows. -/
theorem resolve_one_address :
    (∃ config, resolveV4Pool (poolOf tokenA tokenA) tokenRegistry = some config ∧
      ¬ config.currency0 < config.currency1) ∧
    ∃ config, resolveV4Pool (poolOf tokenA tokenA') tokenRegistry = some config ∧
      ¬ config.currency0 < config.currency1 ∧
      resolveV4Pool (poolOf tokenA tokenA').swapped tokenRegistry ≠ some config := by
  have hcore : coreAsset tokenA = some coreA := by decide +kernel
  have hcore' : coreAsset tokenA' = some { coreA with chain := 42161 } := by decide +kernel
  refine ⟨⟨_, resolve_poolOf isCoin_tokenA hcore isCoin_tokenA hcore, by decide⟩,
    ⟨_, resolve_poolOf isCoin_tokenA hcore isCoin_tokenA' hcore', by decide, ?_⟩⟩
  show resolveV4Pool (poolOf tokenA' tokenA) tokenRegistry ≠ _
  rw [resolve_poolOf isCoin_tokenA' hcore' isCoin_tokenA hcore]
  decide

end

end ArbRouter
