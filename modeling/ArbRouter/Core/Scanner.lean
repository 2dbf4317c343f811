import ArbRouter.Core.Detect
import ArbRouter.Core.Finder
import ArbRouter.Core.Rank

/-!
# The scan tick

`core/application/scanner.rs` with the freshness guard of `evaluation/validation.rs`: enumerate
paths, size, quote, price and gate each, rank what remains and hand it to the notifier.

The evaluations of a tick are awaited together; here they run one after the other, in the order in
which their results are collected.

* `Scanner.evaluate_yields` — what becomes of one path when prices do not change
* `Scanner.scanOnce_ok` — what a completed tick hands to the notifier
-/

namespace ArbRouter

open Infra RustDecimal

/-! ## Ports and configuration -/

inductive NotifyError where
  | internal (msg : String)
deriving DecidableEq

/-- The `Notifier` port over the state `ν` of its sink. -/
structure Notifier (ν : Type) where
  notify : ChainId → List Opportunity → ν → Except NotifyError Unit × ν

inductive ExecutorError where
  | poolNotFound (pool : String)
  | notExecutable (pool : String)
  | assetMap (asset : String)
  | amount
  | build (msg : String)
deriving DecidableEq

/-- The `Executor` port. -/
structure Executor (P : Type) [Pool P] where
  build : Opportunity → PoolSnapshot P → Except ExecutorError ExecutionPlan

structure EngineConfig where
  startAssets : List AssetId
  maxHops : Nat
  inputUsd : Usd

inductive ScanError where
  | notify (err : NotifyError)
deriving DecidableEq

/-- One chain's scanner. -/
structure Scanner (σ ν P : Type) [Pool P] where
  chain : ChainId
  poolStore : ChainId → PoolSnapshot P
  valuation : Valuation σ
  notifier : Notifier ν
  registry : AssetRegistry
  cfg : EngineConfig
  executor : Option (Executor P)

variable {σ ν P : Type} [Pool P]

/-! ## Freshness -/

/-- Pools synced longer ago than 60 seconds are rejected. -/
def MAX_POOL_STALENESS : StdDuration := StdDuration.fromSecs 60

/-- `is_fresh`: a missing pool counts as not fresh. -/
def isFresh (snapshot : PoolSnapshot P) (path : Path) (now : OffsetDateTime)
    (maxStaleness : StdDuration) : Bool :=
  path.hops.all fun hop =>
    match snapshot.get hop.pool with
    | some entry => now - entry.poolMeta.syncedAt ≤ maxStaleness.toTime
    | none => false

/-- `worst_synced_at`: a missing pool pins the result to the epoch. -/
def worstSyncedAt (snapshot : PoolSnapshot P) (path : Path) : OffsetDateTime :=
  ((path.hops.map fun hop =>
    match snapshot.get hop.pool with
    | some entry => entry.poolMeta.syncedAt
    | none => OffsetDateTime.unixEpoch).min?).getD OffsetDateTime.unixEpoch

theorem isFresh_iff {snapshot : PoolSnapshot P} {path : Path} {now : OffsetDateTime}
    {maxStaleness : StdDuration} :
    isFresh snapshot path now maxStaleness = true ↔ ∀ hop ∈ path.hops,
      ∃ entry, snapshot.get hop.pool = some entry ∧
        now - entry.poolMeta.syncedAt ≤ maxStaleness.toTime := by
  unfold isFresh
  rw [List.all_eq_true]
  refine forall₂_congr fun hop _ => ?_
  cases snapshot.get hop.pool <;> simp

variable [RustDecimal]

namespace Scanner

variable (sc : Scanner σ ν P)

/-! ## One path -/

/-- `Scanner::price`: cycles price the gain, cross-asset paths the difference of the endpoints. -/
def price (path : Path) (input output : Amount) : Tick Panic σ (Option Usd × UInt32) :=
  if path.isCycle then do
    let gain ← Tick.ofExcept (output.sub input)
    let profit ← (valueUsd sc.valuation sc.registry path.start gain).run
    let roi ← Tick.ofExcept (do roiBps input.val (← sub output.val input.val))
    return (profit, roi)
  else do
    let profit ←
      (netProfitUsd sc.valuation sc.registry path.start input path.destination output).run
    let base ← (valueUsd sc.valuation sc.registry path.start input).run
    let roi ← Tick.ofExcept (match profit, base with
      | some p, some b => roiBps b.val p.val
      | _, _ => .ok 0)
    return (profit, roi)

/-- The opportunity of a path that was sized, quoted and priced. -/
def opportunity (snapshot : PoolSnapshot P) (path : Path) (now : OffsetDateTime)
    (input output : Amount) (profitUsd : Option Usd) (roiBps : UInt32) : Opportunity where
  chain := sc.chain
  path := path
  input := input
  output := output
  profitUsd := profitUsd
  roiBps := roiBps
  detectedAt := now
  worstPoolSyncedAt := worstSyncedAt snapshot path
  execution := none

/-- `Scanner::evaluate`. -/
def evaluate (snapshot : PoolSnapshot P) (path : Path) (now : OffsetDateTime) :
    OptionT (Tick Panic σ) Opportunity :=
  if isFresh snapshot path now MAX_POOL_STALENESS then do
    let input ← amountForUsd sc.valuation sc.registry path.start sc.cfg.inputUsd
    let output ← Tick.ofOption (quotePath snapshot path input)
    let (profitUsd, roiBps) ← OptionT.lift (sc.price path input output)
    if isProfitable ⟨path, input, output, profitUsd⟩ then
      return sc.opportunity snapshot path now input output profitUsd roiBps
    else failure
  else failure

/-! ## One tick -/

/-- The paths from every start asset. -/
def paths (snapshot : PoolSnapshot P) : List Path :=
  sc.cfg.startAssets.flatMap fun start => findPaths ⟨snapshot⟩ start sc.cfg.maxHops

/-- The opportunities among the paths. -/
def scanOpps (snapshot : PoolSnapshot P) (now : OffsetDateTime) :
    Tick Panic σ (List Opportunity) := do
  let evaluations ← (sc.paths snapshot).mapM fun path => (sc.evaluate snapshot path now).run
  return evaluations.reduceOption

/-- Attach calldata where the executor builds it; a build failure leaves `none`. -/
def enrich (snapshot : PoolSnapshot P) (ranked : List Opportunity) : List Opportunity :=
  match sc.executor with
  | some executor =>
    ranked.map fun opp => { opp with execution := (executor.build opp snapshot).toOption }
  | none => ranked

/-- What a tick hands to the notifier. -/
def scanRanked (order : IterOrder Opportunity) (now : OffsetDateTime) :
    Tick Panic σ (List Opportunity) := do
  let snapshot := sc.poolStore sc.chain
  let opps ← sc.scanOpps snapshot now
  return sc.enrich snapshot (rankAndDedup order opps)

/-- `Scanner::scan_once`: the number of opportunities emitted. -/
def scanOnce (order : IterOrder Opportunity) (now : OffsetDateTime) :
    Tick Panic (σ × ν) (Except ScanError Nat) := fun (s, n) =>
  match (sc.scanRanked order now).run s with
  | .error panic => .error panic
  | .ok (ranked, s') =>
    match sc.notifier.notify sc.chain ranked n with
    | (.ok _, n') => .ok (.ok ranked.length, (s', n'))
    | (.error err, n') => .ok (.error (.notify err), (s', n'))

variable {sc}

omit [RustDecimal] in
theorem mem_paths {snapshot : PoolSnapshot P} {path : Path} :
    path ∈ sc.paths snapshot ↔
      ∃ start ∈ sc.cfg.startAssets, path ∈ findPaths ⟨snapshot⟩ start sc.cfg.maxHops :=
  List.mem_flatMap

omit [RustDecimal] in
/-- Enriching changes nothing but the attached calldata. -/
theorem exists_enrich_eq (sc : Scanner σ ν P) (snapshot : PoolSnapshot P)
    (ranked : List Opportunity) :
    ∃ plan : Opportunity → Option ExecutionPlan,
      sc.enrich snapshot ranked = ranked.map fun opp => { opp with execution := plan opp } := by
  unfold enrich
  cases sc.executor with
  | none => exact ⟨Opportunity.execution, (List.map_id ranked).symm⟩
  | some executor => exact ⟨fun opp => (executor.build opp snapshot).toOption, rfl⟩

/-! ## The price reads of a run -/

/-- An evaluation that yields an opportunity sized the path, quoted it and priced it. -/
theorem evaluate_some {snapshot : PoolSnapshot P} {path : Path} {now : OffsetDateTime}
    {opp : Opportunity} {s s' : σ}
    (h : (sc.evaluate snapshot path now).run.run s = .ok (some opp, s')) :
    isFresh snapshot path now MAX_POOL_STALENESS = true ∧
      ∃ input output profitUsd roiBps s₁,
        (amountForUsd sc.valuation sc.registry path.start sc.cfg.inputUsd).run.run s
          = .ok (some input, s₁) ∧
        quotePath snapshot path input = some output ∧
        (sc.price path input output).run s₁ = .ok ((profitUsd, roiBps), s') ∧
        isProfitable ⟨path, input, output, profitUsd⟩ = true ∧
        opp = sc.opportunity snapshot path now input output profitUsd roiBps := by
  unfold evaluate at h
  by_cases hf : isFresh snapshot path now MAX_POOL_STALENESS = true
  · rw [if_pos hf] at h
    simp only [Tick.bind_some, Tick.ofOption_some, Tick.lift_some] at h
    obtain ⟨input, s₁, hin, output, _, ⟨hquote, rfl⟩, ⟨profitUsd, roiBps⟩, s₂, hprice, h⟩ := h
    dsimp only at h
    by_cases hprof : isProfitable ⟨path, input, output, profitUsd⟩ = true
    · rw [if_pos hprof] at h
      obtain ⟨rfl, rfl⟩ := Tick.pure_some.mp h
      exact ⟨hf, input, output, profitUsd, roiBps, s₁, hin, hquote, hprice, hprof, rfl⟩
    · rw [if_neg hprof] at h
      exact absurd (Tick.pure_ok.mp h).1 (by simp)
  · rw [if_neg hf] at h
    exact absurd (Tick.pure_ok.mp h).1 (by simp)

/-- A cross-asset path is priced by its net profit; the return takes another read of the start. -/
theorem price_cross {path : Path} {input output : Amount} {profitUsd : Option Usd} {roi : UInt32}
    {s s' : σ} (hc : path.isCycle = false)
    (h : (sc.price path input output).run s = .ok ((profitUsd, roi), s')) :
    ∃ base s₁,
      (netProfitUsd sc.valuation sc.registry path.start input path.destination output).run.run s
        = .ok (profitUsd, s₁) ∧
      (valueUsd sc.valuation sc.registry path.start input).run.run s₁ = .ok (base, s') ∧
      (match profitUsd, base with
        | some p, some b => roiBps b.val p.val
        | _, _ => .ok 0) = .ok roi := by
  unfold price at h
  rw [if_neg (by simp [hc])] at h
  obtain ⟨profit, s₁, hprofit, h⟩ := Tick.bind_ok.mp h
  obtain ⟨base, s₂, hbase, h⟩ := Tick.bind_ok.mp h
  obtain ⟨r, s₃, hreturn, h⟩ := Tick.bind_ok.mp h
  obtain ⟨hpair, rfl⟩ := Tick.pure_ok.mp h
  obtain ⟨rfl, rfl⟩ := Prod.mk.inj hpair
  obtain ⟨hroi, rfl⟩ := Tick.ofExcept_ok.mp hreturn
  exact ⟨base, s₁, hprofit, hbase, hroi⟩

/-- A cycle is priced by its gain; the return does without a price. -/
theorem price_cycle {path : Path} {input output : Amount} {profitUsd : Option Usd} {roi : UInt32}
    {s s' : σ} (hc : path.isCycle = true)
    (h : (sc.price path input output).run s = .ok ((profitUsd, roi), s')) :
    ∃ gain, checkedSub output.val input.val = some gain ∧
      (valueUsd sc.valuation sc.registry path.start ⟨gain⟩).run.run s = .ok (profitUsd, s') ∧
      roiBps input.val gain = .ok roi := by
  unfold price at h
  rw [if_pos hc] at h
  obtain ⟨gain, s₁, hgain, h⟩ := Tick.bind_ok.mp h
  obtain ⟨hsub, rfl⟩ := Tick.ofExcept_ok.mp hgain
  obtain ⟨profit, s₂, hprofit, h⟩ := Tick.bind_ok.mp h
  obtain ⟨r, s₃, hreturn, h⟩ := Tick.bind_ok.mp h
  obtain ⟨hpair, rfl⟩ := Tick.pure_ok.mp h
  obtain ⟨rfl, rfl⟩ := Prod.mk.inj hpair
  obtain ⟨hroi, rfl⟩ := Tick.ofExcept_ok.mp hreturn
  -- the difference is taken a second time for the return
  obtain ⟨d, hd, hroi⟩ := bind_eq_ok.mp hroi
  obtain ⟨d', hd', rfl⟩ := map_eq_ok.mp hsub
  obtain rfl : d = d' := Except.ok.inj (hd.symm.trans hd')
  exact ⟨d, sub_eq_ok.mp hd, hprofit, hroi⟩

section

variable {Inv : σ → Prop}

theorem price_keeps (h : sc.valuation.Keeps Inv) (path : Path) (input output : Amount) :
    Tick.Keeps Inv (sc.price path input output) := by
  unfold price
  by_cases hc : path.isCycle = true
  · rw [if_pos hc]
    refine (Tick.Keeps.ofExcept (output.sub input)).bind fun gain => ?_
    refine (valueUsd_keeps h sc.registry path.start gain).bind fun profit => ?_
    exact (Tick.Keeps.ofExcept _).bind fun roi => Tick.Keeps.pure (profit, roi)
  · rw [if_neg hc]
    refine (netProfitUsd_keeps h sc.registry path.start path.destination input output).bind
      fun profit => ?_
    refine (valueUsd_keeps h sc.registry path.start input).bind fun base => ?_
    exact (Tick.Keeps.ofExcept _).bind fun roi => Tick.Keeps.pure (profit, roi)

theorem evaluate_keeps (h : sc.valuation.Keeps Inv) (snapshot : PoolSnapshot P) (path : Path)
    (now : OffsetDateTime) : Tick.Keeps Inv (sc.evaluate snapshot path now).run := by
  unfold evaluate
  by_cases hf : isFresh snapshot path now MAX_POOL_STALENESS = true
  · rw [if_pos hf]
    refine (amountForUsd_keeps h sc.registry path.start sc.cfg.inputUsd).optBind fun input => ?_
    refine (Tick.Keeps.ofOption (quotePath snapshot path input)).optBind fun output => ?_
    refine (price_keeps h path input output).lift.optBind fun ⟨profitUsd, roi⟩ => ?_
    dsimp only
    by_cases hprof : isProfitable ⟨path, input, output, profitUsd⟩ = true
    · rw [if_pos hprof]
      exact Tick.Keeps.some_pure _
    · rw [if_neg hprof]
      exact Tick.Keeps.failure
  · rw [if_neg hf]
    exact Tick.Keeps.failure

/--
What a tick hands over is the ranking of what its evaluations yielded, with calldata attached. What
every price read leaves holds of the state in which each evaluation began.
-/
theorem scanRanked_keeps_ok (hkeeps : sc.valuation.Keeps Inv) {order : IterOrder Opportunity}
    {now : OffsetDateTime} {s s' : σ} {ranked : List Opportunity} (hs : Inv s)
    (h : (sc.scanRanked order now).run s = .ok (ranked, s')) :
    ∃ (opps : List Opportunity) (plan : Opportunity → Option ExecutionPlan),
      ranked = (rankAndDedup order opps).map (fun opp => { opp with execution := plan opp }) ∧
      ∀ opp ∈ opps, ∃ path ∈ sc.paths (sc.poolStore sc.chain), ∃ s₁ s₂, Inv s₁ ∧
        (sc.evaluate (sc.poolStore sc.chain) path now).run.run s₁ = .ok (some opp, s₂) := by
  unfold scanRanked at h
  obtain ⟨opps, s₁, hopps, h⟩ := Tick.bind_ok.mp h
  obtain ⟨rfl, -⟩ := Tick.pure_ok.mp h
  obtain ⟨plan, henrich⟩ := sc.exists_enrich_eq (sc.poolStore sc.chain) (rankAndDedup order opps)
  refine ⟨opps, plan, henrich, ?_⟩
  intro opp hopp
  unfold scanOpps at hopps
  obtain ⟨evaluations, s₂, heval, hopps⟩ := Tick.bind_ok.mp hopps
  obtain ⟨rfl, -⟩ := Tick.pure_ok.mp hopps
  exact Tick.Keeps.of_mem_mapM (fun path => evaluate_keeps hkeeps _ path now) hs heval
    (List.reduceOption_mem_iff.mp hopp)

/-- What a tick reports is an evaluated path, but for the calldata. -/
theorem of_mem_scanRanked_keeps (hkeeps : sc.valuation.Keeps Inv) {order : IterOrder Opportunity}
    {now : OffsetDateTime} {s s' : σ} {ranked : List Opportunity} (hs : Inv s)
    (h : (sc.scanRanked order now).run s = .ok (ranked, s')) {opp : Opportunity}
    (hopp : opp ∈ ranked) :
    ∃ path ∈ sc.paths (sc.poolStore sc.chain), ∃ base s₁ s₂, Inv s₁ ∧
      (sc.evaluate (sc.poolStore sc.chain) path now).run.run s₁ = .ok (some base, s₂) ∧
      opp = { base with execution := opp.execution } := by
  obtain ⟨opps, plan, rfl, heval⟩ := scanRanked_keeps_ok hkeeps hs h
  obtain ⟨base, hbase, rfl⟩ := List.mem_map.mp hopp
  obtain ⟨path, hpath, s₁, s₂, hinv, hrun⟩ := heval base (mem_of_mem_rankAndDedup hbase)
  exact ⟨path, hpath, base, s₁, s₂, hinv, hrun, rfl⟩

end

theorem scanRanked_ok {order : IterOrder Opportunity} {now : OffsetDateTime} {s s' : σ}
    {ranked : List Opportunity} (h : (sc.scanRanked order now).run s = .ok (ranked, s')) :
    ∃ (opps : List Opportunity) (plan : Opportunity → Option ExecutionPlan),
      ranked = (rankAndDedup order opps).map (fun opp => { opp with execution := plan opp }) ∧
      ∀ opp ∈ opps, ∃ path ∈ sc.paths (sc.poolStore sc.chain), ∃ s₁ s₂,
        (sc.evaluate (sc.poolStore sc.chain) path now).run.run s₁ = .ok (some opp, s₂) := by
  have hkeeps : sc.valuation.Keeps fun _ => True := fun asset s _ => trivial
  obtain ⟨opps, plan, hranked, heval⟩ := scanRanked_keeps_ok hkeeps trivial h
  refine ⟨opps, plan, hranked, fun opp hopp => ?_⟩
  obtain ⟨path, hpath, s₁, s₂, -, hrun⟩ := heval opp hopp
  exact ⟨path, hpath, s₁, s₂, hrun⟩

theorem of_mem_scanRanked {order : IterOrder Opportunity} {now : OffsetDateTime} {s s' : σ}
    {ranked : List Opportunity} (h : (sc.scanRanked order now).run s = .ok (ranked, s'))
    {opp : Opportunity} (hopp : opp ∈ ranked) :
    ∃ path ∈ sc.paths (sc.poolStore sc.chain), ∃ base s₁ s₂,
      (sc.evaluate (sc.poolStore sc.chain) path now).run.run s₁ = .ok (some base, s₂) ∧
      opp = { base with execution := opp.execution } := by
  have hkeeps : sc.valuation.Keeps fun _ => True := fun asset s _ => trivial
  obtain ⟨path, hpath, base, s₁, s₂, -, hrun, heq⟩ := of_mem_scanRanked_keeps hkeeps trivial h hopp
  exact ⟨path, hpath, base, s₁, s₂, hrun, heq⟩

/-! ## Results when prices do not change -/

/-- The profit and return of a sized path under a price table. -/
def priceOf (sc : Scanner σ ν P) (table : PriceTable) (path : Path) (input output : Amount) :
    Except Panic (Option Usd × UInt32) :=
  if path.isCycle then do
    let gain ← output.sub input
    let roi ← (do roiBps input.val (← RustDecimal.sub output.val input.val))
    return (valueOf table sc.registry path.start gain, roi)
  else do
    let profit ← netProfitOf table sc.registry path.start input path.destination output
    let roi ← (match profit, valueOf table sc.registry path.start input with
      | some p, some b => roiBps b.val p.val
      | _, _ => .ok 0)
    return (profit, roi)

/-- What becomes of a path under a price table. -/
def evaluateOf (sc : Scanner σ ν P) (table : PriceTable) (snapshot : PoolSnapshot P) (path : Path)
    (now : OffsetDateTime) : Except Panic (Option Opportunity) :=
  if isFresh snapshot path now MAX_POOL_STALENESS then
    match sizeOf table sc.registry path.start sc.cfg.inputUsd with
    | none => .ok none
    | some input =>
      match quotePath snapshot path input with
      | none => .ok none
      | some output =>
        (sc.priceOf table path input output).map fun (profitUsd, roiBps) =>
          if isProfitable ⟨path, input, output, profitUsd⟩ then
            some (sc.opportunity snapshot path now input output profitUsd roiBps)
          else none
  else .ok none

variable {table : PriceTable}

theorem price_yields (h : sc.valuation.Stable table) (path : Path) (input output : Amount) :
    Yields (sc.price path input output) (sc.priceOf table path input output) := by
  unfold price priceOf
  by_cases hc : path.isCycle = true
  · rw [if_pos hc, if_pos hc]
    refine (Yields.ofExcept (output.sub input)).bind fun gain _ => ?_
    refine (valueUsd_yields h sc.registry path.start gain).bind_ok ?_
    exact (Yields.ofExcept _).bind fun roi _ => Yields.pure _
  · rw [if_neg hc, if_neg hc]
    refine (netProfitUsd_yields h sc.registry path.start path.destination input output).bind
      fun profit _ => ?_
    refine (valueUsd_yields h sc.registry path.start input).bind_ok ?_
    exact (Yields.ofExcept _).bind fun roi _ => Yields.pure _

theorem evaluate_yields (h : sc.valuation.Stable table) (snapshot : PoolSnapshot P) (path : Path)
    (now : OffsetDateTime) :
    Yields (sc.evaluate snapshot path now).run (sc.evaluateOf table snapshot path now) := by
  unfold evaluate evaluateOf
  by_cases hf : isFresh snapshot path now MAX_POOL_STALENESS = true
  · rw [if_pos hf, if_pos hf]
    have hin := amountForUsd_yields h sc.registry path.start sc.cfg.inputUsd
    cases hsize : sizeOf table sc.registry path.start sc.cfg.inputUsd with
    | none => exact (hsize ▸ hin).none_bind
    | some input =>
      refine (hsize ▸ hin).some_bind ?_
      dsimp only
      cases hquote : quotePath snapshot path input with
      | none => exact (Yields.ofOption none).none_bind
      | some output =>
        refine (Yields.ofOption (some output)).some_bind ?_
        dsimp only
        have hprice := (price_yields h path input output).lift
        cases hp : sc.priceOf table path input output with
        | error panic =>
          rw [hp] at hprice
          rw [OptionT.run_bind, Option.elimM]
          exact hprice.bind_error
        | ok r =>
          rw [hp] at hprice
          refine hprice.some_bind ?_
          by_cases hprof : isProfitable ⟨path, input, output, r.1⟩ = true
          · simp only [Except.map, if_pos hprof]
            exact Yields.pure_some _
          · simp only [Except.map, if_neg hprof]
            exact Yields.failure
  · rw [if_neg hf, if_neg hf]
    exact Yields.failure

/-- A path becomes an opportunity when it is fresh, sized, quoted, priced and profitable. -/
theorem evaluateOf_eq_some {snapshot : PoolSnapshot P} {path : Path} {now : OffsetDateTime}
    {opp : Opportunity} :
    sc.evaluateOf table snapshot path now = .ok (some opp) ↔
      isFresh snapshot path now MAX_POOL_STALENESS = true ∧ ∃ input output profitUsd roiBps,
        sizeOf table sc.registry path.start sc.cfg.inputUsd = some input ∧
        quotePath snapshot path input = some output ∧
        sc.priceOf table path input output = .ok (profitUsd, roiBps) ∧
        isProfitable ⟨path, input, output, profitUsd⟩ = true ∧
        opp = sc.opportunity snapshot path now input output profitUsd roiBps := by
  unfold evaluateOf
  constructor
  · intro h
    by_cases hf : isFresh snapshot path now MAX_POOL_STALENESS = true
    · rw [if_pos hf] at h
      cases hsize : sizeOf table sc.registry path.start sc.cfg.inputUsd with
      | none => simp [hsize] at h
      | some input =>
        cases hquote : quotePath snapshot path input with
        | none => simp [hsize, hquote] at h
        | some output =>
          cases hp : sc.priceOf table path input output with
          | error panic => simp [hsize, hquote, hp, Except.map] at h
          | ok r =>
            by_cases hprof : isProfitable ⟨path, input, output, r.1⟩ = true
            · simp only [hsize, hquote, hp, Except.map, if_pos hprof, Except.ok.injEq,
                Option.some.injEq] at h
              exact ⟨hf, input, output, r.1, r.2, rfl, hquote, hp, hprof, h.symm⟩
            · simp [hsize, hquote, hp, Except.map, hprof] at h
    · simp [hf] at h
  · rintro ⟨hf, input, output, profitUsd, roiBps, hsize, hquote, hp, hprof, rfl⟩
    simp [hf, hsize, hquote, hp, Except.map, hprof]

/-- The opportunities of a tick under a price table. -/
def scanOppsOf (sc : Scanner σ ν P) (table : PriceTable) (snapshot : PoolSnapshot P)
    (now : OffsetDateTime) : Except Panic (List Opportunity) :=
  ((sc.paths snapshot).mapM fun path => sc.evaluateOf table snapshot path now).map
    List.reduceOption

theorem scanRanked_yields (h : sc.valuation.Stable table) (order : IterOrder Opportunity)
    (now : OffsetDateTime) :
    Yields (sc.scanRanked order now)
      ((sc.scanOppsOf table (sc.poolStore sc.chain) now).map fun opps =>
      sc.enrich (sc.poolStore sc.chain) (rankAndDedup order opps)) := by
  have hopps : Yields (sc.scanOpps (sc.poolStore sc.chain) now)
      (sc.scanOppsOf table (sc.poolStore sc.chain) now) :=
    (Yields.mapM (sc.paths (sc.poolStore sc.chain)) fun path _ =>
      evaluate_yields h (sc.poolStore sc.chain) path now).bind fun os _ => Yields.pure _
  exact hopps.bind fun opps _ => Yields.pure _

/-- A completed tick handed its ranked opportunities to the notifier, once. -/
theorem scanOnce_ok {order : IterOrder Opportunity} {now : OffsetDateTime} {s s' : σ} {n n' : ν}
    {r : Except ScanError Nat} (h : (sc.scanOnce order now).run (s, n) = .ok (r, (s', n'))) :
    ∃ ranked, (sc.scanRanked order now).run s = .ok (ranked, s') ∧
      (sc.notifier.notify sc.chain ranked n).2 = n' := by
  have hdef : (sc.scanOnce order now).run (s, n) = sc.scanOnce order now (s, n) := rfl
  rw [hdef] at h
  unfold scanOnce at h
  cases hr : (sc.scanRanked order now).run s with
  | error panic => simp [hr] at h
  | ok out =>
    obtain ⟨ranked, s₁⟩ := out
    simp only [hr] at h
    refine ⟨ranked, ?_⟩
    rcases hn : sc.notifier.notify sc.chain ranked n with ⟨res, n₁⟩
    rw [hn] at h
    cases res <;> simp only [Except.ok.injEq, Prod.mk.injEq] at h <;>
      exact ⟨by rw [h.2.1], h.2.2⟩

end Scanner

end ArbRouter
