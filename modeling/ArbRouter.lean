import ArbRouter.Infra.Decimal
import ArbRouter.Infra.RustDecimal
import ArbRouter.Infra.DecimalReference
import ArbRouter.Infra.HashMap
import ArbRouter.Infra.Walk
import ArbRouter.Primitives.Asset
import ArbRouter.Primitives.Duration
import ArbRouter.Primitives.Opportunity
import ArbRouter.Core.PoolStore
import ArbRouter.Core.Finder
import ArbRouter.Core.TestUtils
import ArbRouter.Properties.Finder
import ArbRouter.Infra.BestByKey
import ArbRouter.Core.Rank
import ArbRouter.Properties.Dedup
import ArbRouter.Infra.Tick
import ArbRouter.Infra.Transition
import ArbRouter.Core.Detect
import ArbRouter.Core.Scanner
import ArbRouter.Properties.Scan
import ArbRouter.Adapters.Exchanges
import ArbRouter.Adapters.AlloyReference
import ArbRouter.Properties.Quoting
import ArbRouter.Adapters.Executor
import ArbRouter.Adapters.PoolStore
import ArbRouter.Properties.Execution
import ArbRouter.Properties.Sync
import ArbRouter.Properties.Panic
import ArbRouter.Adapters.Api
import ArbRouter.Properties.Served
import ArbRouter.Adapters.Valuation
import ArbRouter.Properties.Prices
import ArbRouter.Infra.Rotation
import ArbRouter.Properties.Rank
import ArbRouter.Properties.Snapshot
import ArbRouter.Properties.Feeds
import ArbRouter.Properties.Amounts
import ArbRouter.Properties.Sizing
import ArbRouter.Adapters.Bridge
import ArbRouter.Properties.Bridge
import ArbRouter.Infra.SortedPair
import ArbRouter.Adapters.UniswapV4
import ArbRouter.Properties.UniswapV4
import ArbRouter.Infra.Simulation
import ArbRouter.System.Board
import ArbRouter.Adapters.CoinGecko
import ArbRouter.System.Service
import ArbRouter.Properties.Polling
import ArbRouter.Properties.Service
import ArbRouter.Properties.Refinement
import ArbRouter.Properties.Latest
import ArbRouter.Properties.Sources
import ArbRouter.Properties.Figures
import ArbRouter.Properties.Bounds
import ArbRouter.Properties.Tasks
import ArbRouter.Adapters.Curve
import ArbRouter.System.Setup
import ArbRouter.Properties.Setup
import ArbRouter.Adapters.Backoff
import ArbRouter.Properties.Backoff
import ArbRouter.Properties.Wired
import ArbRouter.Properties.Calldata
import ArbRouter.Properties.Requests
import ArbRouter.System.Once
import ArbRouter.Properties.Warm
import ArbRouter.Properties.Once
import ArbRouter.Properties.Ends
