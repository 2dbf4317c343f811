import ArbRouter.Adapters.Api
import ArbRouter.Adapters.CoinGecko
import ArbRouter.Adapters.PoolStore
import ArbRouter.Infra.Simulation

/-!
# The running service

`setup.rs` spawns a sync worker and a scanner per chain and the two price feeds. They run side by
side over one snapshot store, one price store and one pair of sinks, which the API reads.

`ServiceStep` has a constructor for each point at which a task touches something shared. The price
reads of a scan are not steps of their own: a scan that is under way remembers what the feeds have
written since it began, and each of its reads sees an initial part of that, a later read no less
than an earlier one (`Observes`). A task that panics stops for good; the others go on.
-/

namespace ArbRouter

open Infra RustDecimal

/-! ## Deployments -/

/-- What a scanner is built from, before it has anything to read. -/
structure ScanTask (P : Type) [Pool P] where
  chain : ChainId
  registry : AssetRegistry
  cfg : EngineConfig
  /-- The executor reads the clock whenever it builds calldata for an opportunity. -/
  executor : Option ((Opportunity → OffsetDateTime) → Executor P)

/-- The tasks of a service. Each is for a chain that has a slot in the snapshot store. -/
structure Deployment (W P : Type) [Pool P] where
  chains : List ChainId
  worker : W → SyncWorker
  task : W → ScanTask P
  feeds : Feeds
  chain_worker : ∀ w, (worker w).chain = (task w).chain
  chain_mem : ∀ w, (task w).chain ∈ chains

/-- What the feeds do not decide themselves: decoding a ticker, and `Decimal::try_from`. -/
structure Codec (F : Type) where
  ticker : String → Option BookTicker
  toDecimal : F → Option Decimal

/-- The states of the memory and of the log. -/
abbrev Sinks := MemoryNotifier × List LogEvent

variable {W P F : Type} [Pool P] [RustDecimal]

/-- The notifier of every scanner: the log, then the memory. -/
def sinks : Notifier Sinks := CompositeNotifier [LogNotifier.onSnd, MemoryNotifier.notifier.onFst]

/--
The scanner of a task over the snapshot it loaded, with what its executor reads off the clock.
-/
def ScanTask.scanner (task : ScanTask P) (snapshot : PoolSnapshot P)
    (clock : Opportunity → OffsetDateTime) : Scanner World Sinks P where
  chain := task.chain
  poolStore := fun _ => snapshot
  valuation := CachedValuation
  notifier := sinks
  registry := task.registry
  cfg := task.cfg
  executor := task.executor.map fun build => build clock

/-! ## States -/

/-- Where a scanner is in `scan_once`. -/
inductive ScanPhase (P : Type) [Pool P] where
  | idle
  | scanning (snapshot : PoolSnapshot P) (now : OffsetDateTime) (before : PriceStore)
      (writes : List PriceWrite)
  | stopped

/-- A feed writes while the scanner is where it is. -/
def ScanPhase.observe (write : PriceWrite) : ScanPhase P → ScanPhase P
  | .scanning snapshot now before writes => .scanning snapshot now before (writes ++ [write])
  | .idle => .idle
  | .stopped => .stopped

/-- What a feed has yet to write of the message it works on. -/
inductive FeedPhase where
  | writing (pending : List PriceWrite)
  | stopped

structure ServiceState (W P : Type) [Pool P] where
  sync : SyncState W P
  prices : PriceStore
  sinks : Sinks
  scan : W → ScanPhase P
  feed : Feed → FeedPhase

/-- What `build` leaves: empty stores, and every task about to start. -/
def ServiceState.init (d : Deployment W P) : ServiceState W P where
  sync := SyncState.init d.chains
  prices := d.feeds.store
  sinks := (MemoryNotifier.new, [])
  scan := fun _ => .idle
  feed := fun _ => .writing []

/-- What the handlers of the API read. -/
def ServiceState.api (s : ServiceState W P) (d : Deployment W P) : ApiState P :=
  ⟨s.sinks.1, s.sync.store.snapshot, d.chains⟩

/-! ## Steps -/

inductive ServiceEvent (W P F : Type) where
  | sync (ev : SyncEvent W P)
  | loaded (w : W) (now : OffsetDateTime)
  /-- The scanner hands these over to the notifier. -/
  | notified (w : W) (opps : List Opportunity)
  | scanPanicked (w : W)
  | received (text : String)
  | feedPanicked
  | polled (body : CoinGeckoBody F)
  | wrote (write : PriceWrite)

/-- The events of the sync workers. -/
def syncEvents (evs : List (ServiceEvent W P F)) : List (SyncEvent W P) :=
  evs.filterMap fun
    | .sync ev => some ev
    | _ => none

/-- What the feeds wrote. -/
def writesOf (evs : List (ServiceEvent W P F)) : List PriceWrite :=
  evs.filterMap fun
    | .wrote write => some write
    | _ => none

/-- The prices after the events. -/
def Deployment.pricesAfter (d : Deployment W P) (evs : List (ServiceEvent W P F)) : PriceStore :=
  (writesOf evs).foldl PriceWrite.effect d.feeds.store

/-- The reads of the world start from this store, and see an initial part of these writes. -/
structure Observes (world : World) (before : PriceStore) (writes : List PriceWrite) : Prop where
  current : world.shared.current = before
  past : world.shared.past = []
  reads : world.shared.reads = 0
  handed : ∃ n, (∀ i, n ≤ i → world.shared.schedule i = []) ∧
    (List.range n).flatMap world.shared.schedule <+: writes

/-- No feed writes while the scan reads. -/
def World.quiet (store : PriceStore) : World := ⟨⟨store, [], 0, fun _ => []⟩, fun _ => 0⟩

omit [RustDecimal] in
theorem observes_quiet (before : PriceStore) (writes : List PriceWrite) :
    Observes (World.quiet before) before writes where
  current := rfl
  past := rfl
  reads := rfl
  handed := ⟨0, fun _ _ => rfl, List.nil_prefix⟩

variable [DecidableEq W]

/-- The event begins or ends a scan of the task. -/
def ServiceEvent.scansOn (w : W) : ServiceEvent W P F → Bool
  | .loaded v _ => v = w
  | .notified v _ => v = w
  | .scanPanicked v => v = w
  | _ => false

def ServiceState.setScan (s : ServiceState W P) (w : W) (phase : ScanPhase P) : ServiceState W P :=
  { s with scan := Function.update s.scan w phase }

def ServiceState.setFeed (s : ServiceState W P) (feed : Feed) (phase : FeedPhase) :
    ServiceState W P :=
  { s with feed := Function.update s.feed feed phase }

omit [RustDecimal] in
theorem ServiceState.setScan_scan_self (s : ServiceState W P) (w : W) (phase : ScanPhase P) :
    (s.setScan w phase).scan w = phase := Function.update_self ..

omit [RustDecimal] in
theorem ServiceState.setScan_scan_of_ne (s : ServiceState W P) {w w' : W} (h : w' ≠ w)
    (phase : ScanPhase P) : (s.setScan w phase).scan w' = s.scan w' := Function.update_of_ne h ..

omit [RustDecimal] [DecidableEq W] in
theorem ServiceState.setFeed_feed_self (s : ServiceState W P) (feed : Feed) (phase : FeedPhase) :
    (s.setFeed feed phase).feed feed = phase := Function.update_self ..

omit [RustDecimal] [DecidableEq W] in
theorem ServiceState.setFeed_feed_of_ne (s : ServiceState W P) {feed feed' : Feed}
    (h : feed' ≠ feed) (phase : FeedPhase) : (s.setFeed feed phase).feed feed' = s.feed feed' :=
  Function.update_of_ne h ..

/-- One point of some task. -/
inductive ServiceStep (d : Deployment W P) (codec : Codec F) :
    ServiceState W P → ServiceEvent W P F → ServiceState W P → Prop
  | sync {s : ServiceState W P} {ev : SyncEvent W P} {sync' : SyncState W P} :
      SyncStep d.worker s.sync ev sync' →
      ServiceStep d codec s (.sync ev) { s with sync := sync' }
  | loaded {s : ServiceState W P} {w : W} (now : OffsetDateTime) :
      s.scan w = .idle →
      ServiceStep d codec s (.loaded w now)
        (s.setScan w (.scanning (s.sync.store.snapshot (d.task w).chain) now s.prices []))
  | notified {s : ServiceState W P} {w : W} {snapshot : PoolSnapshot P} {now : OffsetDateTime}
      {before : PriceStore} {writes : List PriceWrite} {order : IterOrder Opportunity}
      {clock : Opportunity → OffsetDateTime} {world world' : World} {ranked : List Opportunity}
      {result : Except ScanError Nat} {sinks' : Sinks} :
      s.scan w = .scanning snapshot now before writes → Observes world before writes →
      (((d.task w).scanner snapshot clock).scanRanked order now).run world = .ok (ranked, world') →
      (((d.task w).scanner snapshot clock).scanOnce order now).run (world, s.sinks)
        = .ok (result, (world', sinks')) →
      ServiceStep d codec s (.notified w ranked) { s.setScan w .idle with sinks := sinks' }
  | scanPanicked {s : ServiceState W P} {w : W} {snapshot : PoolSnapshot P} {now : OffsetDateTime}
      {before : PriceStore} {writes : List PriceWrite} {order : IterOrder Opportunity}
      {clock : Opportunity → OffsetDateTime} {world : World} {panic : Panic} :
      s.scan w = .scanning snapshot now before writes → Observes world before writes →
      (((d.task w).scanner snapshot clock).scanOnce order now).run (world, s.sinks)
        = .error panic →
      ServiceStep d codec s (.scanPanicked w) (s.setScan w .stopped)
  | received {s : ServiceState W P} {text : String} {clock : Nat → OffsetDateTime}
      {writes : List PriceWrite} :
      s.feed .binance = .writing [] →
      d.feeds.binance.pending codec.ticker text clock = .ok writes →
      ServiceStep d codec s (.received text) (s.setFeed .binance (.writing writes))
  | feedPanicked {s : ServiceState W P} {text : String} {clock : Nat → OffsetDateTime}
      {panic : Panic} :
      s.feed .binance = .writing [] →
      d.feeds.binance.pending codec.ticker text clock = .error panic →
      ServiceStep d codec s .feedPanicked (s.setFeed .binance .stopped)
  | polled {s : ServiceState W P} {body : CoinGeckoBody F} (order : CoinGeckoFeed.Visits)
      (clock : Nat → OffsetDateTime) :
      s.feed .coingecko = .writing [] →
      ServiceStep d codec s (.polled body)
        (s.setFeed .coingecko
          (.writing (d.feeds.coingecko.writes codec.toDecimal body order clock)))
  | wrote {s : ServiceState W P} {write : PriceWrite} {rest : List PriceWrite} :
      s.feed write.feed = .writing (write :: rest) →
      ServiceStep d codec s (.wrote write)
        { s.setFeed write.feed (.writing rest) with
          prices := write.effect s.prices
          scan := fun w => (s.scan w).observe write }

/-- The runs of a deployment from the moment it is built. -/
abbrev Deployment.Runs (d : Deployment W P) (codec : Codec F) (evs : List (ServiceEvent W P F))
    (s : ServiceState W P) : Prop :=
  Run (ServiceStep d codec) (ServiceState.init d) evs s

/-! ## What a step does -/

omit [DecidableEq W] [Pool P] in
/-- A notification replaces the set of its chain. -/
theorem notify_sinks (chain : ChainId) (opps : List Opportunity) (s : Sinks) :
    (sinks.notify chain opps s).2.1 = ⟨s.1.latest.insert chain opps⟩ :=
  composite_notify_fst [LogNotifier] [] chain opps s

namespace ServiceStep

variable {d : Deployment W P} {codec : Codec F} {s s' : ServiceState W P}
  {ev : ServiceEvent W P F}

/-- The service as far as it syncs. -/
def syncing (d : Deployment W P) (codec : Codec F) :
    Projection (ServiceStep d codec) (SyncStep (P := P) d.worker) where
  state := ServiceState.sync
  event := fun
    | .sync ev => some ev
    | _ => none
  moves := by
    intro s e t e' h he
    cases h <;> cases he
    assumption
  rests := by
    intro s e t h he
    cases h <;> first | rfl | cases he

/-- What a scanner hands over is what its scan has found. -/
theorem notified_cases {w : W} {opps : List Opportunity}
    (h : ServiceStep d codec s (.notified w opps) s') :
    ∃ snapshot now before writes order clock world world',
      s.scan w = .scanning snapshot now before writes ∧ Observes world before writes ∧
      (((d.task w).scanner snapshot clock).scanRanked order now).run world = .ok (opps, world') ∧
      s'.sinks = (sinks.notify (d.task w).chain opps s.sinks).2 ∧ s'.sync = s.sync ∧
      s'.scan = Function.update s.scan w .idle := by
  cases h with
  | notified hp hobs hranked hrun =>
    obtain ⟨ranked, hranked', hnotify⟩ := Scanner.scanOnce_ok hrun
    obtain ⟨rfl, -⟩ := Prod.mk.inj (Except.ok.inj (hranked.symm.trans hranked'))
    exact ⟨_, _, _, _, _, _, _, _, hp, hobs, hranked, hnotify.symm, rfl, rfl⟩

/-- **What a step does to the sinks:** nothing, unless a scanner hands over what it found. -/
theorem sinks_cases (h : ServiceStep d codec s ev s') :
    s'.sinks = s.sinks ∨ ∃ w opps, ev = .notified w opps ∧
      s'.sinks = (sinks.notify (d.task w).chain opps s.sinks).2 := by
  cases ev with
  | notified w opps =>
    obtain ⟨-, -, -, -, -, -, -, -, -, -, -, hsinks, -, -⟩ := h.notified_cases
    exact Or.inr ⟨w, opps, rfl, hsinks⟩
  | _ =>
    cases h
    exact Or.inl rfl

/-- The prices change as the feeds write. -/
theorem prices_eq (h : ServiceStep d codec s ev s') :
    s'.prices = (writesOf [ev]).foldl PriceWrite.effect s.prices := by
  cases h <;> rfl

/-- **What a step does to a scanner:** nothing, unless it loads a snapshot, sees a write or ends. -/
theorem scan_cases (h : ServiceStep d codec s ev s') (w : W) :
    (s'.scan w = s.scan w ∧ ev.scansOn w = false ∧ writesOf [ev] = []) ∨
    (∃ now, ev = .loaded w now ∧ s.scan w = .idle ∧
      s'.scan w = .scanning (s.sync.store.snapshot (d.task w).chain) now s.prices []) ∨
    (∃ write, ev = .wrote write ∧ s'.scan w = (s.scan w).observe write) ∨
    (∃ opps, ev = .notified w opps ∧ s'.scan w = .idle) ∨
    (ev = .scanPanicked w ∧ s'.scan w = .stopped) := by
  cases h with
  | sync hs => exact Or.inl ⟨rfl, rfl, rfl⟩
  | @loaded w' now hp =>
    by_cases hw : w = w'
    · subst hw
      exact Or.inr (Or.inl ⟨now, rfl, hp, s.setScan_scan_self w _⟩)
    · exact Or.inl ⟨s.setScan_scan_of_ne hw _, decide_eq_false (Ne.symm hw), rfl⟩
  | @notified w' =>
    by_cases hw : w = w'
    · subst hw
      exact Or.inr (Or.inr (Or.inr (Or.inl ⟨_, rfl, s.setScan_scan_self w _⟩)))
    · exact Or.inl ⟨s.setScan_scan_of_ne hw _, decide_eq_false (Ne.symm hw), rfl⟩
  | @scanPanicked w' =>
    by_cases hw : w = w'
    · subst hw
      exact Or.inr (Or.inr (Or.inr (Or.inr ⟨rfl, s.setScan_scan_self w _⟩)))
    · exact Or.inl ⟨s.setScan_scan_of_ne hw _, decide_eq_false (Ne.symm hw), rfl⟩
  | received hp hpending => exact Or.inl ⟨rfl, rfl, rfl⟩
  | feedPanicked hp hpending => exact Or.inl ⟨rfl, rfl, rfl⟩
  | polled order clock hp => exact Or.inl ⟨rfl, rfl, rfl⟩
  | @wrote write rest hp => exact Or.inr (Or.inr (Or.inl ⟨write, rfl, rfl⟩))

end ServiceStep

end ArbRouter
