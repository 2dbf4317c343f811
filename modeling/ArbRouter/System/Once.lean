import ArbRouter.System.Setup

/-!
# One scan of every chain

`run_once` of `setup.rs`: the feeds run as they do in the service, but no loop of a worker or a
scanner does. It waits until the feeds have prices, at most until a deadline; then every chain syncs
once and scans once, all side by side in one task; then it reports what the memory holds.

`OnceStep` takes the steps of the service that this program takes, in the order in which it takes
them. A scan that panics takes the whole program with it.

* `warmPrices` — the loop that waits for the feeds
* `OnceStep` — the steps of the program, `OnceState.report` what it reports
-/

namespace ArbRouter

open Infra RustDecimal

/-! ## Waiting for prices -/

/-- The assets that `warm_prices` waits for, and those that Binance is to price. -/
structure Needs where
  needed : List AssetId
  wantBinance : List AssetId

/-- The start assets of all chains, each once, and those of them that name a symbol. -/
def RouterSettings.needs (settings : RouterSettings) : Needs where
  needed := startAssets
  wantBinance := ((settings.assets.filter fun a => a.binanceSymbol.isSome).filterMap fun a =>
    (AssetId.new a.id).toOption.filter (· ∈ startAssets)).dedup
where
  startAssets := ((settings.chains.flatMap ChainSettings.startAssets).filterMap fun id =>
    (AssetId.new id).toOption).dedup

/--
A read of the first loop of a round. It goes on to the next asset also when this one has no price.
-/
def readPriced (r : Bool × World) (asset : AssetId) : Bool × World :=
  match CachedValuation.price asset r.2 with
  | (.ok _, w) => (r.1, w)
  | (.error _, w) => (false, w)

/-- `binance_ready`, which stops at the first asset that Binance does not price. -/
def binanceReady : List AssetId → World → Bool × World
  | [], w => (true, w)
  | asset :: rest, w =>
    match CachedValuation.priceAndSource asset w with
    | (some (_, "binance"), w') => binanceReady rest w'
    | (_, w') => (false, w')

/-- One round of `warm_prices`. -/
def warmRound (needs : Needs) (w : World) : Bool × World :=
  let (priced, w₁) := needs.needed.foldl readPriced (true, w)
  let (ready, w₂) := binanceReady needs.wantBinance w₁
  (priced && ready, w₂)

/--
What `Instant::now()` shows when the loop begins and in each of its rounds, in nanoseconds. Between
two rounds it sleeps for 300 ms.
-/
structure Rounds where
  start : Nat
  instant : Nat → Nat
  start_le : start ≤ instant 0
  sleeps : ∀ k, instant k + 300_000_000 ≤ instant (k + 1)

/-- 25 s after the start. -/
def Rounds.deadline (rounds : Rounds) : Nat := rounds.start + 25_000_000_000

/-- The loop of `warm_prices` from the `k`-th round on: whether the prices are live. -/
def warmPrices (needs : Needs) (rounds : Rounds) (k : Nat) (w : World) : Bool × World :=
  match warmRound needs w with
  | (true, w') => (true, w')
  | (false, w') =>
    if rounds.deadline ≤ rounds.instant k then (false, w')
    else warmPrices needs rounds (k + 1) w'
termination_by rounds.deadline - rounds.instant k
decreasing_by
  have := rounds.sleeps k
  omega

/-! ## The program -/

variable {W P F : Type} [Pool P] [RustDecimal]

/-- What was written while the program waits; then whether the prices are live. -/
inductive Warm where
  | waiting (writes : List PriceWrite)
  | ready (live : Bool)

/-- How far the program is with one chain. -/
inductive Pass where
  | syncing
  | scanning
  | done
deriving DecidableEq

structure OnceState (W P : Type) [Pool P] where
  service : ServiceState W P
  warm : Warm
  pass : W → Pass
  panicked : Bool

/-- Everything is built, and nothing is read yet. -/
def OnceState.init (d : Deployment W P) : OnceState W P where
  service := ServiceState.init d
  warm := .waiting []
  pass := fun _ => .syncing
  panicked := false

/-- What `report_opportunities` is given. -/
def OnceState.report (s : OnceState W P) (order : IterOrder (List Opportunity)) :
    List Opportunity :=
  s.service.sinks.1.all order

/-- The chains are worked on. -/
structure OnceState.Running (s : OnceState W P) : Prop where
  warm : ∃ live, s.warm = .ready live
  alive : s.panicked = false

/-- The chain on which a step works; the feeds work on none. -/
def ServiceEvent.pass : ServiceEvent W P F → Option W
  | .sync ev => some ev.worker
  | .loaded w _ => some w
  | .notified w _ => some w
  | .scanPanicked w => some w
  | _ => none

/--
A step of a worker or a scanner is taken when the program is there, one of a feed at any time.
-/
def OnceState.Admits (s : OnceState W P) : ServiceEvent W P F → Prop
  | .sync ev => s.Running ∧ s.pass ev.worker = .syncing
  | .loaded w _ => s.Running ∧ s.pass w = .scanning
  | .notified w _ => s.Running ∧ s.pass w = .scanning
  | .scanPanicked w => s.Running ∧ s.pass w = .scanning
  | _ => True

/-- The loop that waits sees what the feeds write. -/
def Warm.after (warm : Warm) : ServiceEvent W P F → Warm
  | .wrote write =>
    match warm with
    | .waiting writes => .waiting (writes ++ [write])
    | .ready live => .ready live
  | _ => warm

variable [DecidableEq W]

/--
A failed block read ends the work on a chain, a sync is followed by a scan, and a scan is the end.
-/
def passAfter (pass : W → Pass) : ServiceEvent W P F → W → Pass
  | .sync (.latestBlockFailed w _) => Function.update pass w .done
  | .sync (.published w) => Function.update pass w .scanning
  | .notified w _ => Function.update pass w .done
  | _ => pass

/-- A panic of a scan is one of the program. -/
def panickedAfter (panicked : Bool) : ServiceEvent W P F → Bool
  | .scanPanicked _ => true
  | _ => panicked

inductive OnceEvent (W P F : Type) where
  | warmed (live : Bool)
  | task (ev : ServiceEvent W P F)

/-- The program takes the step itself. -/
def OnceEvent.own : OnceEvent W P F → Bool
  | .warmed _ => true
  | .task ev => ev.pass.isSome

inductive OnceStep (d : Deployment W P) (codec : Codec F) (needs : Needs) :
    OnceState W P → OnceEvent W P F → OnceState W P → Prop
  | warmed {s : OnceState W P} {writes : List PriceWrite} {visited : Needs} {rounds : Rounds}
      {world world' : World} {live : Bool} :
      -- both sets are visited in some order, the same one in each round
      visited.needed.Perm needs.needed → visited.wantBinance.Perm needs.wantBinance →
      s.warm = .waiting writes → Observes world d.feeds.store writes →
      warmPrices visited rounds 0 world = (live, world') →
      OnceStep d codec needs s (.warmed live) { s with warm := .ready live }
  | task {s : OnceState W P} {ev : ServiceEvent W P F} {service' : ServiceState W P} :
      s.Admits ev → ServiceStep d codec s.service ev service' →
      OnceStep d codec needs s (.task ev)
        ⟨service', s.warm.after ev, passAfter s.pass ev, panickedAfter s.panicked ev⟩

/-- The runs of the program. -/
abbrev Deployment.RunsOnce (d : Deployment W P) (codec : Codec F) (needs : Needs)
    (evs : List (OnceEvent W P F)) (s : OnceState W P) : Prop :=
  Run (OnceStep d codec needs) (OnceState.init d) evs s

end ArbRouter
