import ArbRouter.Adapters.Curve
import ArbRouter.Adapters.Executor
import ArbRouter.Adapters.UniswapV4
import ArbRouter.System.Service

/-!
# Wiring

`setup.rs` over the settings of `settings.rs`: `build` turns settings into the tasks and the stores
of a running service, which is a `Deployment`.

The settings come parsed. The providers, the sources and the presets of the crates behind them are
the parameter `Crates`.

* `build` — the service that settings describe
* `Router.deployment` — its tasks, one worker and one scanner for each chain of the settings
* `Router.Runs` — its runs, in which the calls of the workers return what its exchanges make of
  some answer of the chain
-/

namespace ArbRouter

open Infra

/-! ## Settings -/

structure UniswapV3Settings where
  factory : String
  feeTiers : List UInt32

structure UniswapV2Settings where
  factory : String
  feeBps : UInt32

structure AerodromeV2Settings where
  factory : String

structure AerodromeSlipstreamSettings where
  factory : String
  tickSpacings : List Int32

/-- One chain: its provider, the bounds of its scans, and its exchanges. -/
structure ChainSettings where
  chainId : String
  rpcUrl : String
  maxHops : Nat
  inputUsd : Decimal
  startAssets : List String
  trackedTokens : List String
  executorAddress : Option String
  executionSlippageBps : Option UInt16
  uniswapV3 : Option UniswapV3Settings
  uniswapV2 : Option UniswapV2Settings
  uniswapV4 : Option UniswapV4Settings
  curve : Option CurveSettings
  aerodromeV2 : Option AerodromeV2Settings
  aerodromeSlipstream : Option AerodromeSlipstreamSettings

/-- One asset: how it is priced, and what the registry says of it. -/
structure AssetEntry extends AssetSettings where
  decimals : UInt8
  symbol : String

structure RouterSettings where
  fiatProviderUrl : String
  coingeckoApiKey : Option String
  binanceWsUrl : Option String
  priceRefreshSecs : Option UInt64
  priceStalenessSecs : Option UInt64
  assets : List AssetEntry
  chains : List ChainSettings

/-- What the feeds are built from. -/
def RouterSettings.feedSettings (settings : RouterSettings) : Settings where
  fiatProviderUrl := settings.fiatProviderUrl
  coingeckoApiKey := settings.coingeckoApiKey
  binanceWsUrl := settings.binanceWsUrl
  priceRefreshSecs := settings.priceRefreshSecs
  priceStalenessSecs := settings.priceStalenessSecs
  assets := settings.assets.map AssetEntry.toAssetSettings

/-- `asset_registry`. -/
def RouterSettings.assetRegistry (settings : RouterSettings) : Except AssetIdError AssetRegistry :=
  settings.assets.foldlM
    (fun registry asset => do
      return registry.insert (← AssetId.new asset.id) ⟨asset.decimals, asset.symbol⟩)
    ∅

/-- `parse_assets`. -/
def parseAssets (ids : List String) : Except AssetIdError (List AssetId) := ids.mapM AssetId.new

/-! ## Providers -/

/-- What is used of `reqwest`, of `curve-adapter`, and of the sources and presets of `amm-rpc`. -/
class Crates [AmmRpc] where
  Url : Type
  /-- `s.parse::<Url>().ok()` -/
  parseUrl : String → Option Url
  CurveVariant : Type
  /-- `s.parse::<CurveVariant>().ok()` -/
  parseVariant : String → Option CurveVariant
  /-- `UniswapV3Source::with_factory(RootProvider::new_http(url), factory, fee_tiers)` -/
  uniswapV3Source : Url → Address → List UInt32 → StateSource
  uniswapV2Source : Url → Address → UInt32 → StateSource
  uniswapV4Source : Url → Address → List V4PoolConfig → StateSource
  curveSource : Url → List (CurvePoolConfig CurveVariant) → StateSource
  aerodromeSource : Url → Address → StateSource
  slipstreamSource : Url → Address → List Int32 → StateSource
  /-- `chains::ethereum()` -/
  ethereum : AmmRpc.ChainConfig
  /-- `chains::base()` -/
  base : AmmRpc.ChainConfig

variable [AmmRpc] [Crates]

/-- A provider is a plain HTTP client for a URL. -/
structure EthProvider where
  url : Crates.Url

inductive RpcError where
  | badUrl (url : String)
deriving DecidableEq

/-- `make_provider`. -/
def makeProvider (rpcUrl : String) : Except RpcError EthProvider :=
  match Crates.parseUrl rpcUrl with
  | some url => .ok ⟨url⟩
  | none => .error (.badUrl rpcUrl)

/-- A round of the loop of `build_providers`: a chain without a provider is skipped. -/
def pushProvider (built : HashMap ChainId EthProvider × List ChainId) (c : ChainSettings) :
    HashMap ChainId EthProvider × List ChainId :=
  match makeProvider c.rpcUrl with
  | .ok provider => (built.1.insert ⟨c.chainId⟩ provider, built.2 ++ [⟨c.chainId⟩])
  | .error _ => built

/-- `build_providers`. -/
def buildProviders (chains : List ChainSettings) : HashMap ChainId EthProvider × List ChainId :=
  chains.foldl pushProvider (∅, [])

/-- `BlockReader::latest_block`, where `blockNumber` is what the provider answers. -/
def latestBlock (providers : HashMap ChainId EthProvider)
    (blockNumber : EthProvider → Except String UInt64) (chain : ChainId) :
    Except ChainReadError UInt64 :=
  match providers.lookup chain with
  | some provider => (blockNumber provider).mapError .transport
  | none => .error (.internal ("no provider for chain `" ++ chain.asStr ++ "`"))

/-! ## Exchanges -/

variable [Alloy]

/-- An exchange over the factory of its block. -/
def fromFactory (id : String) (chain : ChainId) (factory : String)
    (source : Address → StateSource) :
    Option AmmRpcExchange :=
  (Alloy.parseAddress factory).map fun addr => AmmRpcExchange.new id chain (source addr)

/-- The exchange of each block of the settings, if it can be built. -/
def exchangeBlocks (chain : ChainId) (c : ChainSettings) (registry : AssetRegistry)
    (provider : EthProvider) : List (Option AmmRpcExchange) :=
  [c.uniswapV3.bind fun v3 => fromFactory "uniswap_v3" chain v3.factory fun factory =>
      Crates.uniswapV3Source provider.url factory v3.feeTiers,
    c.uniswapV2.bind fun v2 => fromFactory "uniswap_v2" chain v2.factory fun factory =>
      Crates.uniswapV2Source provider.url factory v2.feeBps,
    c.uniswapV4.bind fun v4 =>
      buildUniswapV4 (Crates.uniswapV4Source provider.url) chain v4 registry,
    c.curve.bind fun curve =>
      buildCurve Crates.parseVariant (Crates.curveSource provider.url) chain curve registry,
    c.aerodromeV2.bind fun aero => fromFactory "aerodrome_v2" chain aero.factory fun factory =>
      Crates.aerodromeSource provider.url factory,
    c.aerodromeSlipstream.bind fun slip =>
      fromFactory "aerodrome_slipstream" chain slip.factory fun factory =>
        Crates.slipstreamSource provider.url factory slip.tickSpacings]

/-- `build_exchanges`: a block that is malformed is left out, and no other. -/
def buildExchanges (chain : ChainId) (c : ChainSettings) (registry : AssetRegistry) :
    Option EthProvider → List AmmRpcExchange
  | some provider => (exchangeBlocks chain c registry provider).reduceOption
  | none => []

/-- What a worker asks of an exchange without awaiting it. -/
def AmmRpcExchange.port (ex : AmmRpcExchange) : Exchange := ⟨ex.id, ex.supports⟩

/-- The exchange while the chain answers its source like this. -/
def AmmRpcExchange.withSource (ex : AmmRpcExchange) (source : StateSource) : AmmRpcExchange :=
  { ex with source := source }

/-! ## Execution -/

/-- `chain_preset`. -/
def chainPreset (chain : String) : Option AmmRpc.ChainConfig :=
  match chain with
  | "ethereum" => some Crates.ethereum
  | "base" => some Crates.base
  | _ => none

/-- `build_executor`. -/
def buildExecutor (c : ChainSettings) (chain : ChainId) : Option AmmRpcExecutor := do
  let address ← c.executorAddress
  let sender ← Alloy.parseAddress address
  let chainCfg ← chainPreset chain.asStr
  return { sender := sender, chainCfg := chainCfg, slippageBps := c.executionSlippageBps.getD 30 }

/-! ## Tasks -/

/-- The services that the tasks of all chains draw on. The stores are those of the deployment. -/
structure Services where
  providers : HashMap ChainId EthProvider
  chains : List ChainId
  feeds : Feeds
  registry : AssetRegistry

/-- `build_services`. -/
def buildServices (toUppercase : String → String) (settings : RouterSettings) :
    Except AssetIdError Services := do
  let registry ← settings.assetRegistry
  let (providers, chains) := buildProviders settings.chains
  let feeds ← buildValuation toUppercase settings.feedSettings
  return { providers := providers, chains := chains, feeds := feeds, registry := registry }

/-- The worker and the scanner of one chain. -/
structure ChainTasks where
  chain : ChainId
  exchanges : List AmmRpcExchange
  trackedTokens : List AssetId
  registry : AssetRegistry
  cfg : EngineConfig
  executor : Option AmmRpcExecutor

/-- `build_chain`. -/
def buildChain (s : Services) (c : ChainSettings) : Except AssetIdError ChainTasks := do
  let chain : ChainId := ⟨c.chainId⟩
  let trackedTokens ← parseAssets c.trackedTokens
  let startAssets ← parseAssets c.startAssets
  return {
    chain := chain
    exchanges := buildExchanges chain c s.registry (s.providers.lookup chain)
    trackedTokens := trackedTokens
    registry := s.registry
    cfg := ⟨startAssets, c.maxHops, ⟨c.inputUsd⟩⟩
    executor := buildExecutor c chain }

namespace ChainTasks

def worker (t : ChainTasks) : SyncWorker where
  chain := t.chain
  exchanges := t.exchanges.map AmmRpcExchange.port
  trackedTokens := t.trackedTokens

variable [RustDecimal]

def scan (t : ChainTasks) : ScanTask AmmCorePool where
  chain := t.chain
  registry := t.registry
  cfg := t.cfg
  executor := t.executor.map fun exec => exec.toExecutor

end ChainTasks

/-- The chains whose tasks are spawned: those whose provider could be built. -/
def Services.spawned (s : Services) (chains : List ChainSettings) : List ChainSettings :=
  chains.filter fun c => (⟨c.chainId⟩ : ChainId) ∈ s.chains

/-- The tasks of every chain that has a provider. -/
def Services.buildTasks (s : Services) (chains : List ChainSettings) :
    Except AssetIdError (List ChainTasks) :=
  (s.spawned chains).mapM (buildChain s)

theorem chain_of_buildChain {s : Services} {c : ChainSettings} {t : ChainTasks}
    (h : buildChain s c = .ok t) : t.chain = ⟨c.chainId⟩ := by
  unfold buildChain at h
  obtain ⟨trackedTokens, -, h⟩ := bind_eq_ok.mp h
  obtain ⟨startAssets, -, h⟩ := bind_eq_ok.mp h
  rw [← Except.ok.inj h]

theorem chain_mem_of_buildTasks {s : Services} {chains : List ChainSettings}
    {tasks : List ChainTasks}
    (h : s.buildTasks chains = .ok tasks) : ∀ t ∈ tasks, t.chain ∈ s.chains := by
  intro t ht
  obtain ⟨c, hc, hbuild⟩ := (mem_of_mapM_ok h).mp ht
  rw [chain_of_buildChain hbuild]
  simpa using (List.mem_filter.mp hc).2

/-- What `build` spawns, and what the API reads. -/
structure Router extends Services where
  tasks : List ChainTasks
  chain_mem : ∀ t ∈ tasks, t.chain ∈ chains

/-- `build`. -/
def build (toUppercase : String → String) (settings : RouterSettings) :
    Except AssetIdError Router := do
  let services ← buildServices toUppercase settings
  match h : services.buildTasks settings.chains with
  | .ok tasks => .ok { services with tasks := tasks, chain_mem := chain_mem_of_buildTasks h }
  | .error err => .error err

/-! ## The running service -/

namespace Router

variable (r : Router)

section

variable [RustDecimal]

def taskAt (w : Fin r.tasks.length) : ChainTasks := r.tasks.get w

/-- The tasks that run. -/
def deployment : Deployment (Fin r.tasks.length) AmmCorePool where
  chains := r.chains
  worker := fun w => (r.taskAt w).worker
  task := fun w => (r.taskAt w).scan
  feeds := r.feeds
  chain_worker := fun _ => rfl
  chain_mem := fun w => r.chain_mem _ (List.get_mem r.tasks w)

end

/-- The exchanges that a worker asks, in order. -/
def asked (w : Fin r.tasks.length) : List AmmRpcExchange :=
  (r.taskAt w).exchanges.filter fun ex => ex.supports (r.taskAt w).chain

/--
What the chains answer in a run: the providers, and the source behind the `i`-th exchange of a
worker, at the `n`-th call of a worker that completes.
-/
structure Oracle where
  blockNumber : Nat → EthProvider → Except String UInt64
  source : Nat → Fin r.tasks.length → Nat → StateSource

variable {r}

/-- The `n`-th call to complete returns what the reader or the exchange makes of the answers. -/
def Answers (oracle : r.Oracle) (n : Nat) : SyncEvent (Fin r.tasks.length) AmmCorePool → Prop
  | .latestBlockFailed w err =>
    latestBlock r.providers (oracle.blockNumber n) (r.taskAt w).chain = .error err
  | .pinned w block _ =>
    latestBlock r.providers (oracle.blockNumber n) (r.taskAt w).chain = .ok block
  | .discovered w i chain tokens result => ∃ ex, (r.asked w)[i]? = some ex ∧
    result = (ex.withSource (oracle.source n w i)).discover chain tokens
  | .refreshed w i keys block result => ∃ ex, (r.asked w)[i]? = some ex ∧
    result = (ex.withSource (oracle.source n w i)).refresh keys block
  | .published _ => True

variable {F : Type} [RustDecimal]

/-- The runs of the service in which the chains answer like this. -/
def RunsOn (r : Router) (oracle : r.Oracle) (codec : Codec F)
    (evs : List (ServiceEvent (Fin r.tasks.length) AmmCorePool F))
    (s : ServiceState (Fin r.tasks.length) AmmCorePool) : Prop :=
  r.deployment.Runs codec evs s ∧ ∀ n ev, (syncEvents evs)[n]? = some ev → Answers oracle n ev

/-- The runs of the service, whatever the chains answer. -/
def Runs (r : Router) (codec : Codec F)
    (evs : List (ServiceEvent (Fin r.tasks.length) AmmCorePool F))
    (s : ServiceState (Fin r.tasks.length) AmmCorePool) : Prop :=
  ∃ oracle, r.RunsOn oracle codec evs s

end Router

end ArbRouter
