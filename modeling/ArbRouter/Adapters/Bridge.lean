import ArbRouter.Adapters.Exchanges
import ArbRouter.Adapters.PoolStore

/-!
# The bridge to `amm-rpc`

`adapters/exchanges/amm_rpc.rs`: an exchange over a state source of `amm-rpc`. Pool keys are
translated in both directions, so that the keys a source discovers are the keys it refreshes.

The source is not part of the verified sources: it is a pair of arbitrary functions.
-/

namespace ArbRouter

open Infra

/-- A pool key of `amm-core`. -/
structure CorePoolKey where
  exchange : String
  chain : UInt64
  address : String
  assets : List CoreAssetId
  feeBps : Option UInt16
deriving DecidableEq

/-- A block as `alloy` names it. -/
inductive AlloyBlockId where
  | latest
  | number (n : UInt64)
deriving DecidableEq

/-- The `StateSource` port of `amm-rpc`; an error is what `RpcError` prints. -/
structure StateSource where
  discover : UInt64 → List CoreAssetId → Except String (List CorePoolKey)
  refresh : List CorePoolKey → AlloyBlockId → Except String (List CorePool)

/-- An exchange over a state source. -/
structure AmmRpcExchange where
  id : ExchangeId
  chain : ChainId
  source : StateSource

/-- `core_chain`. -/
def coreChain (chain : ChainId) : UInt64 := chainId chain.asStr

/-- `alloy_block`. -/
def alloyBlock : BlockId → AlloyBlockId
  | .latest => .latest
  | .number n => .number n

/-- `rpc_err`. -/
def rpcErr (err : String) : ExchangeError := .read err

namespace AmmRpcExchange

variable [Alloy]

/-- `AmmRpcExchange::new`. -/
def new (id : String) (chain : ChainId) (source : StateSource) : AmmRpcExchange :=
  ⟨⟨id⟩, chain, source⟩

/--
`to_arb_key`: the assets are put under the chain's name; ids that are not well formed are dropped.
-/
def toArbKey (ex : AmmRpcExchange) (key : CorePoolKey) : PoolKey where
  exchange := ex.id
  chain := ex.chain
  address := key.address
  assets := key.assets.filterMap (arbAsset ex.chain.asStr)
  feeBps := key.feeBps.map fun b => b.toUInt32

/-- `to_core_key`: the fee is narrowed. -/
def toCoreKey (key : PoolKey) : Option CorePoolKey := do
  let assets ← key.assets.mapM coreAsset
  return {
    exchange := key.exchange.asStr
    chain := coreChain key.chain
    address := key.address
    assets := assets
    feeBps := key.feeBps.map fun f => f.toUInt16 }

/-- `Exchange::supports`. -/
def supports (ex : AmmRpcExchange) (chain : ChainId) : Bool := chain = ex.chain

/-- `Exchange::discover`. -/
def discover (ex : AmmRpcExchange) (chain : ChainId) (tokens : List AssetId) :
    Except ExchangeError (List PoolKey) := do
  let keys ← (ex.source.discover (coreChain chain) (tokens.filterMap coreAsset)).mapError rpcErr
  return keys.map ex.toArbKey

/-- `Exchange::refresh`. -/
def refresh (ex : AmmRpcExchange) (keys : List PoolKey) (at_ : BlockId) :
    Except ExchangeError (List AmmCorePool) := do
  let pools ← (ex.source.refresh (keys.filterMap toCoreKey) (alloyBlock at_)).mapError rpcErr
  return pools.map (AmmCorePool.new ex.chain.asStr)

end AmmRpcExchange

end ArbRouter
