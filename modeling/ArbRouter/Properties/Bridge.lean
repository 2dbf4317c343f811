import ArbRouter.Adapters.AlloyReference
import ArbRouter.Adapters.Bridge

/-!
# The bridge to `amm-core` round-trips

An asset of `amm-core` that is an address on a chain survives the translation to an asset id and
back: the id is the chain's name, a colon and the printed address.

* `coreAsset_arbAsset` — one asset
* `bridge_round_trip` — pool keys, and the assets of wrapped pools
* `filterMap_toCoreKey_toArbKey` — what is refreshed is what was discovered
-/

namespace ArbRouter

open Infra

/-! ## Assets -/

/-- The asset is an address, left-padded to 32 bytes, on the chain of that name. -/
def CoreAssetId.IsAddressOn (name : String) (asset : CoreAssetId) : Prop :=
  asset.chain = chainId name ∧ ∃ addr : Address, asset.token = addr.setWidth 256

theorem splitOnce_append {name token : String} (h : ':' ∉ name.toList) :
    splitOnce (name ++ ":" ++ token) = some (name, token) := by
  have hlist : (name ++ ":" ++ token).toList = name.toList ++ ':' :: token.toList := by
    simp
  rw [splitOnce_of_toList hlist h, String.ofList_toList, String.ofList_toList]

/-- A `mapM` that finds something everywhere finds all of it. -/
theorem mapM_eq_some_of_map {α β : Type} {f : α → Option β} {l : List α} {r : List β}
    (h : l.map f = r.map some) : l.mapM f = some r := by
  induction l generalizing r with
  | nil =>
    rw [List.map_nil, eq_comm, List.map_eq_nil_iff] at h
    rw [h]
    rfl
  | cons a rest ih =>
    cases r with
    | nil => cases h
    | cons b r =>
      obtain ⟨hhead, htail⟩ := List.cons.inj h
      simp [List.mapM_cons, hhead, ih htail]

section

variable [Alloy] [LawfulAlloy]

theorem lowerHex_ne_empty (addr : Address) : Alloy.lowerHex addr ≠ "" := by
  obtain ⟨digits, hdigits, -⟩ := LawfulAlloy.lowerHex_eq addr
  intro h
  rw [h] at hdigits
  simp at hdigits

/-- **An address on the chain** has an asset id, which maps back to it. -/
theorem coreAsset_arbAsset {name : String} (hne : name ≠ "") (hcolon : ':' ∉ name.toList)
    {asset : CoreAssetId} (h : asset.IsAddressOn name) :
    ∃ id, arbAsset name asset = some id ∧ coreAsset id = some asset := by
  obtain ⟨hchain, addr, htoken⟩ := h
  have haddr : asset.token.setWidth 160 = addr := by
    rw [htoken]
    simp
  have hsplit : splitOnce (name ++ ":" ++ Alloy.lowerHex addr) = some (name, Alloy.lowerHex addr) :=
    splitOnce_append hcolon
  have hwell : AssetId.WellFormed (name ++ ":" ++ Alloy.lowerHex addr) := by
    unfold AssetId.WellFormed
    rw [hsplit]
    exact ⟨hne, lowerHex_ne_empty addr⟩
  refine ⟨⟨_, hwell⟩, ?_, ?_⟩
  · unfold arbAsset AssetId.new
    rw [haddr, dif_pos hwell]
    rfl
  · unfold coreAsset
    dsimp only
    rw [hsplit]
    show some (CoreAssetId.mk (chainId name) _) = _
    rw [LawfulAlloy.parseAddress_lowerHex, ← hchain]
    show some (CoreAssetId.mk asset.chain (addr.setWidth 256)) = _
    rw [← htoken]

/-- No asset of the list is dropped, and each is found again. -/
theorem map_coreAsset_filterMap {name : String} (hne : name ≠ "") (hcolon : ':' ∉ name.toList)
    {assets : List CoreAssetId} (h : ∀ asset ∈ assets, asset.IsAddressOn name) :
    (assets.filterMap (arbAsset name)).map coreAsset = assets.map some := by
  induction assets with
  | nil => rfl
  | cons asset rest ih =>
    obtain ⟨id, hid, hback⟩ := coreAsset_arbAsset hne hcolon (h asset List.mem_cons_self)
    rw [List.filterMap_cons_some hid, List.map_cons, List.map_cons, hback,
      ih fun a ha => h a (List.mem_cons_of_mem _ ha)]

/-! ## Pool keys -/

/-- A key that a source discovers is the key it is asked to refresh, under the exchange's own id. -/
theorem toCoreKey_toArbKey {ex : AmmRpcExchange} (hne : ex.chain.asStr ≠ "")
    (hcolon : ':' ∉ ex.chain.asStr.toList) {key : CorePoolKey}
    (hchain : key.chain = chainId ex.chain.asStr)
    (hassets : ∀ asset ∈ key.assets, asset.IsAddressOn ex.chain.asStr) :
    AmmRpcExchange.toCoreKey (ex.toArbKey key) = some { key with exchange := ex.id.asStr } := by
  have hmap := mapM_eq_some_of_map (map_coreAsset_filterMap hne hcolon hassets)
  have hfee : (key.feeBps.map fun b => b.toUInt32).map (fun f => f.toUInt16) = key.feeBps := by
    cases key.feeBps <;> simp
  unfold AmmRpcExchange.toCoreKey AmmRpcExchange.toArbKey coreChain
  dsimp only
  rw [hmap, hfee, ← hchain]
  rfl

/--
**The bridge round-trips:** a pool key on the chain comes back with its chain, address, fee and
assets, and a wrapped pool lists an id for each asset of the inner pool, in order.
-/
theorem bridge_round_trip (name : String) (hne : name ≠ "") (hcolon : ':' ∉ name.toList) :
    (∀ (ex : AmmRpcExchange) (key : CorePoolKey), ex.chain = ⟨name⟩ → key.chain = chainId name →
      (∀ asset ∈ key.assets, asset.IsAddressOn name) →
      ∃ key', AmmRpcExchange.toCoreKey (ex.toArbKey key) = some key' ∧ key'.chain = key.chain ∧
        key'.address = key.address ∧ key'.feeBps = key.feeBps ∧ key'.assets = key.assets) ∧
    ∀ inner : CorePool, (∀ asset ∈ inner.assets, asset.IsAddressOn name) →
      (AmmCorePool.new name inner).assets.length = inner.assets.length ∧
      ∀ (i : Nat) (id : AssetId), (AmmCorePool.new name inner).assets[i]? = some id →
        ∃ asset : CoreAssetId, inner.assets[i]? = some asset ∧ coreAsset id = some asset := by
  constructor
  · intro ex key hex hchain hassets
    have hname : ex.chain.asStr = name := by rw [hex]
    rw [← hname] at hne hcolon hchain hassets
    exact ⟨_, toCoreKey_toArbKey hne hcolon hchain hassets, rfl, rfl, rfl, rfl⟩
  · intro inner hassets
    have hmap : (AmmCorePool.new name inner).assets.map coreAsset = inner.assets.map some :=
      map_coreAsset_filterMap hne hcolon hassets
    constructor
    · simpa using congrArg List.length hmap
    · intro i id hid
      have hget := congrArg (fun l => l[i]?) hmap
      simp only [List.getElem?_map, hid, Option.map_some] at hget
      obtain ⟨asset, hasset, heq⟩ := Option.map_eq_some_iff.mp hget.symm
      exact ⟨asset, hasset, heq.symm⟩

/-- **Discovered keys are refreshed as they were discovered,** under the exchange's own id. -/
theorem filterMap_toCoreKey_toArbKey {ex : AmmRpcExchange} (hne : ex.chain.asStr ≠ "")
    (hcolon : ':' ∉ ex.chain.asStr.toList) {keys : List CorePoolKey}
    (hkeys : ∀ key ∈ keys, key.chain = chainId ex.chain.asStr ∧
      ∀ asset ∈ key.assets, asset.IsAddressOn ex.chain.asStr) :
    (keys.map ex.toArbKey).filterMap AmmRpcExchange.toCoreKey
      = keys.map fun key => { key with exchange := ex.id.asStr } := by
  rw [List.filterMap_map, ← List.filterMap_eq_map]
  refine List.filterMap_congr fun key hkey => ?_
  exact toCoreKey_toArbKey hne hcolon (hkeys key hkey).1 (hkeys key hkey).2

end

section

attribute [local instance] Alloy.reference

/-- A key of two tokens on ethereum, with a fee. -/
def tokenKey : CorePoolKey := ⟨"univ2", 1, "0xpool", [coreA, coreB], some 30⟩

theorem isAddressOn_tokenKey : ∀ asset ∈ tokenKey.assets, asset.IsAddressOn "ethereum" := by
  have hA : coreA.IsAddressOn "ethereum" :=
    ⟨rfl, 0x1111111111111111111111111111111111111111, by decide⟩
  have hB : coreB.IsAddressOn "ethereum" :=
    ⟨rfl, 0x2222222222222222222222222222222222222222, by decide⟩
  intro asset hasset
  rcases List.mem_cons.mp hasset with rfl | hasset
  · exact hA
  · rw [List.mem_singleton.mp hasset]
    exact hB

theorem round_trip_tokenKey : ∃ key',
    AmmRpcExchange.toCoreKey ((AmmRpcExchange.new "univ3" ⟨"ethereum"⟩
      ⟨fun _ _ => .ok [], fun _ _ => .ok []⟩).toArbKey tokenKey) = some key' ∧
    key'.chain = 1 ∧ key'.address = "0xpool" ∧ key'.feeBps = some 30 ∧
      key'.assets = [coreA, coreB] :=
  (bridge_round_trip "ethereum" (by decide) (by decide)).1 _ tokenKey rfl rfl isAddressOn_tokenKey

end

end ArbRouter
