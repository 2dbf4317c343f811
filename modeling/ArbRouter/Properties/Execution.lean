import ArbRouter.Adapters.Executor
import ArbRouter.Properties.Finder
import ArbRouter.Properties.Quoting

/-!
# The executor plans what was quoted

Quoting resolves both sides of every hop; the executor rebuilds the tokens from the start and the
destinations alone. Over the pools of `amm-core` the two agree on every path of the finder.

* `quoteLogged` — quoting with a log of the calls of the wrapped pools
* `prepare_of_quoteLogged` — along chained hops the executor's route lists the calls of the log
* `build_plans_quoted_trade` — every reported opportunity is planned as it was quoted
-/

namespace ArbRouter

open Infra RustDecimal

section

variable [RustDecimal] [Alloy] {snapshot : PoolSnapshot AmmCorePool}

/-! ## The calls of a quote -/

/-- `quote_path` with the calls it makes of the wrapped pools, in order. -/
def quoteLogged (snapshot : PoolSnapshot AmmCorePool) : List Hop → Amount →
    Option (Amount × List InnerCall)
  | [], amount => some (amount, [])
  | hop :: rest, amount => do
    let entry ← snapshot.get hop.pool
    let call ← entry.pool.innerCall hop.pair amount
    let out ← call.answer
    let (final, calls) ← quoteLogged snapshot rest out
    return (final, call :: calls)

/-- Logging does not change the quote. -/
theorem quoteLogged_fst (hops : List Hop) (amount : Amount) :
    (quoteLogged snapshot hops amount).map Prod.fst = hops.foldlM (quoteHop snapshot) amount := by
  induction hops generalizing amount with
  | nil => rfl
  | cons hop rest ih =>
    rw [List.foldlM_cons, quoteLogged, quoteHop]
    cases hget : snapshot.get hop.pool with
    | none => rfl
    | some entry =>
      show _ = (entry.pool.quote hop.pair amount).bind _
      unfold AmmCorePool.quote
      cases hcall : entry.pool.innerCall hop.pair amount with
      | none => simp [hcall]
      | some call =>
        cases hout : call.answer with
        | none => simp [hcall, hout]
        | some out =>
          simp only [Option.bind_eq_bind, Option.bind_some, hcall, hout, ← ih out]
          cases quoteLogged snapshot rest out <;> rfl

/-- A quote that succeeds has a log. -/
theorem exists_quoteLogged {path : Path} {input output : Amount}
    (h : quotePath snapshot path input = some output) :
    path.hops ≠ [] ∧ ∃ calls, quoteLogged snapshot path.hops input = some (output, calls) := by
  have hne : path.hops ≠ [] := by
    intro hnil
    simp [quotePath, hnil] at h
  refine ⟨hne, ?_⟩
  rw [quotePath_eq_foldlM hne, ← quoteLogged_fst, Option.map_eq_some_iff] at h
  obtain ⟨⟨final, calls⟩, hlog, rfl⟩ := h
  exact ⟨calls, hlog⟩

/-- A call names the pool and the two sides of its pair, and sells the amount it was given. -/
theorem innerCall_eq_some {p : AmmCorePool} {pair : Pair} {amount : Amount} {call : InnerCall}
    (h : p.innerCall pair amount = some call) :
    call.pool = p.inner ∧ coreAsset pair.source = some call.source ∧
      coreAsset pair.destination = some call.destination ∧ amountToU256 amount = some call.raw := by
  unfold AmmCorePool.innerCall at h
  simp only [Option.bind_eq_bind, Option.bind_eq_some_iff] at h
  obtain ⟨source, hs, destination, hd, raw, hraw, h⟩ := h
  by_cases h0 : raw = 0
  · simp [h0] at h
  · rw [if_neg h0] at h
    obtain rfl := Option.some.inj h
    exact ⟨rfl, hs, hd, hraw⟩

/-- The first call sells the amount that is quoted. -/
theorem exists_first_call {hops : List Hop} {amount out : Amount} {calls : List InnerCall}
    (hne : hops ≠ []) (h : quoteLogged snapshot hops amount = some (out, calls)) :
    ∃ call rest, calls = call :: rest ∧ amountToU256 amount = some call.raw := by
  obtain ⟨hop, hops, rfl⟩ := List.exists_cons_of_ne_nil hne
  unfold quoteLogged at h
  simp only [Option.bind_eq_bind, Option.bind_eq_some_iff] at h
  obtain ⟨entry, -, call, hcall, mid, -, ⟨final, rest⟩, -, h⟩ := h
  exact ⟨call, rest, (Prod.mk.inj (Option.some.inj h)).2.symm, (innerCall_eq_some hcall).2.2.2⟩

/-! ## The route of the executor -/

/--
Along chained hops that could be quoted, the executor resolves the pools that were called, and
its tokens are the two sides of each call in turn.
-/
theorem prepare_of_quoteLogged {hops : List Hop} : ∀ {current : AssetId} {start : CoreAssetId}
    {amount out : Amount} {calls : List InnerCall}, Chained current hops →
      coreAsset current = some start → quoteLogged snapshot hops amount = some (out, calls) →
      hops.mapM (resolvePool snapshot) = .ok (calls.map (·.pool)) ∧
      hops.mapM (fun hop => mapAsset hop.pair.destination.asStr)
        = .ok (calls.map (·.destination)) ∧
      calls.length = hops.length ∧
      ∀ (i : Nat) (call : InnerCall), calls[i]? = some call →
        (start :: calls.map (·.destination))[i]? = some call.source := by
  induction hops with
  | nil =>
    intro current start amount out calls _ _ hlog
    obtain ⟨-, rfl⟩ := Prod.mk.inj (Option.some.inj hlog)
    exact ⟨rfl, rfl, rfl, fun i call h => by simp at h⟩
  | cons hop rest ih =>
    intro current start amount out calls hchain hstart hlog
    unfold quoteLogged at hlog
    simp only [Option.bind_eq_bind, Option.bind_eq_some_iff] at hlog
    obtain ⟨entry, hget, call, hcall, mid, -, ⟨final, calls'⟩, hrest, hlog⟩ := hlog
    obtain ⟨rfl, rfl⟩ := Prod.mk.inj (Option.some.inj hlog)
    obtain ⟨hpool, hsource, hdest, -⟩ := innerCall_eq_some hcall
    obtain ⟨hpools, htokens, hlen, hsources⟩ := ih hchain.2 hdest hrest
    have hresolve : resolvePool snapshot hop = .ok call.pool := by
      simp only [resolvePool, hget, AsAny.downcastRef, hpool]
    refine ⟨?_, ?_, by simp [hlen], ?_⟩
    · rw [List.mapM_cons, hresolve, hpools]
      rfl
    · rw [List.mapM_cons, mapAsset_asStr hdest, htokens]
      rfl
    · intro i call' hi
      cases i with
      | zero =>
        -- the tokens start where the walk stands, which is the source of its first hop
        obtain rfl : call = call' := by simpa using hi
        rw [hchain.1, hstart] at hsource
        simpa using hsource
      | succ i => exact hsources i call' (by simpa using hi)

end

/--
**The executor plans exactly the trade that was quoted.** For every opportunity a tick reports, the
quote made one call per hop, and `build` calls the planning engine with a route that lists the pools
of these calls, whose tokens are their two sides in turn, and with the amount of the first. It fails
only if the engine does, and returns what the plan yields.
-/
theorem build_plans_quoted_trade {σ ν : Type} [RustDecimal] [Alloy] [AmmRpc]
    (sc : Scanner σ ν AmmCorePool) (exec : AmmRpcExecutor) (order : IterOrder Opportunity)
    (now clock : OffsetDateTime) (s s' : σ) (ranked : List Opportunity)
    (hrun : (sc.scanRanked order now).run s = .ok (ranked, s'))
    (opp : Opportunity) (hopp : opp ∈ ranked) :
    ∃ (calls : List InnerCall) (route : Route) (amount : U256),
      quoteLogged (sc.poolStore sc.chain) opp.path.hops opp.input = some (opp.output, calls) ∧
      prepare opp (sc.poolStore sc.chain) = .ok (route, amount) ∧
      (exec.build clock opp (sc.poolStore sc.chain)
        = ((AmmRpc.plan exec.chainCfg route amount (AmmRpc.resolve exec.slippageBps exec.sender
              (AmmRpcExecutor.unixSeconds clock) exec.sender) exec.sender .none .strict).mapError
            .build).bind fun plan => (drive (AmmRpc.remaining plan + 1) plan none).map
              fun transactions => ⟨AmmRpc.isAtomic plan, transactions⟩) ∧
      calls.length = opp.path.hops.length ∧
      route.pools.length = opp.path.hops.length ∧
      route.path.length = opp.path.hops.length + 1 ∧
      (∀ (i : Nat) (call : InnerCall), calls[i]? = some call →
        route.pools[i]? = some call.pool ∧ route.path[i]? = some call.source ∧
        route.path[i + 1]? = some call.destination) ∧
      calls.head?.map (·.raw) = some amount := by
  obtain ⟨path, hpath, base, s₁, s₂, heval, hbase⟩ := Scanner.of_mem_scanRanked hrun hopp
  obtain ⟨-, input, output, profitUsd, roiBps, s₃, -, hquote, -, -, rfl⟩ :=
    Scanner.evaluate_some heval
  obtain ⟨hp, hi, ho⟩ : opp.path = path ∧ opp.input = input ∧ opp.output = output := by
    rw [hbase]
    exact ⟨rfl, rfl, rfl⟩
  rw [hp, hi, ho]
  obtain ⟨first, hfirst, hfound⟩ := Scanner.mem_paths.mp hpath
  have hchain : Chained path.start path.hops := by
    obtain ⟨es, -, -, hwalk, rfl⟩ := mem_findPaths.mp hfound
    exact chained_of_isWalk hwalk
  obtain ⟨hne, calls, hlog⟩ := exists_quoteLogged hquote
  obtain ⟨start, hstart⟩ := exists_coreAsset path.start
  obtain ⟨hpools, htokens, hlen, hsources⟩ := prepare_of_quoteLogged hchain hstart hlog
  obtain ⟨call, rest, hcalls, hraw⟩ := exists_first_call hne hlog
  have hprepare : prepare opp (sc.poolStore sc.chain)
      = .ok (⟨calls.map (·.pool), start :: calls.map (·.destination), .exactIn⟩, call.raw) := by
    unfold prepare
    rw [hp, hi, hpools, mapAsset_asStr hstart, htokens, hraw]
    rfl
  refine ⟨calls, _, call.raw, hlog, hprepare, AmmRpcExecutor.build_eq hprepare, hlen,
    ?_, ?_, ?_, ?_⟩
  · simp [hlen]
  · simp [hlen]
  · intro i call' hcall'
    exact ⟨by simp [hcall'], hsources i call' hcall', by simp [hcall']⟩
  · rw [hcalls]
    rfl

/--
An engine that plans every route as one transaction, which names the pools and carries the amount.
-/
@[reducible] def AmmRpc.oneTx : AmmRpc where
  ChainConfig := Unit
  Options := Unit
  Plan := Option PreparedSwap
  resolve _ _ _ _ := ()
  plan _ route amount _ sender _ _ :=
    .ok (some ⟨sender, ",".intercalate (route.pools.map CorePool.id), amount, none, 1⟩)
  isAtomic _ := true
  nextTx plan _ := .ok (plan, none)
  remaining plan := plan.toList.length
  remaining_nextTx {p p' observed prepared} h := by
    obtain ⟨rfl, rfl⟩ := Prod.mk.inj (Except.ok.inj h)
    exact Nat.one_pos

section

attribute [local instance] RustDecimal.reference Alloy.reference AmmRpc.oneTx

/-- Only A has a price, so only the cycles through both pools are profitable. -/
def doublingScanner : Scanner Unit (List Opportunity) AmmCorePool where
  chain := ⟨"ethereum"⟩
  poolStore _ := doublingPools
  valuation := fakeValuation fun asset => if asset = tokenA then some ⟨Decimal.one⟩ else none
  notifier := recordingNotifier
  registry := (AList.singleton tokenA ⟨0, "A"⟩).insert tokenB ⟨0, "B"⟩
  cfg := ⟨[tokenA], 2, ⟨Decimal.ofUInt64 1000⟩⟩
  executor := none

/-- The better of the two cycles: first add one, then double. -/
def doublingOpportunity : Opportunity where
  chain := ⟨"ethereum"⟩
  path := ⟨tokenA, [⟨⟨"p2"⟩, tokenA, tokenB⟩, ⟨⟨"p1"⟩, tokenB, tokenA⟩]⟩
  input := ⟨Decimal.ofUInt64 1000⟩
  output := ⟨Decimal.ofUInt64 2002⟩
  profitUsd := some ⟨Decimal.ofUInt64 1002⟩
  roiBps := 10020
  detectedAt := 0
  worstPoolSyncedAt := 0
  execution := none

/-- Its transaction goes through the pools that were quoted, with the amount that was quoted. -/
theorem build_plans_doublingOpportunity :
    ∃ (calls : List InnerCall) (route : Route) (amount : U256),
      prepare doublingOpportunity doublingPools = .ok (route, amount) ∧
      calls.length = 2 ∧ route.pools.length = 2 ∧ route.path.length = 3 ∧
      calls.head?.map (·.raw) = some amount ∧
      AmmRpcExecutor.build ⟨0, (), 30⟩ 0 doublingOpportunity doublingPools
        = .ok ⟨true, [⟨Alloy.lowerHex 0, "p2,p1", "1000", none⟩]⟩ := by
  obtain ⟨calls, route, amount, -, hprepare, hbuild, hlen, hpools, hpath, -, hhead⟩ :=
    build_plans_quoted_trade doublingScanner ⟨0, (), 30⟩ (IterOrder.stored _) 0 0 () ()
      [doublingOpportunity] (by decide +kernel) doublingOpportunity List.mem_cons_self
  refine ⟨calls, route, amount, hprepare, hlen, hpools, hpath, hhead, hbuild.trans ?_⟩
  have hroute : (prepare doublingOpportunity doublingPools).map
      (fun planned => (planned.1.pools.map CorePool.id, planned.2)) = .ok (["p2", "p1"], 1000) := by
    decide +kernel
  rw [show prepare doublingOpportunity doublingPools = _ from hprepare] at hroute
  obtain ⟨hids, rfl⟩ := Prod.mk.inj (Except.ok.inj hroute)
  show Except.ok (ExecutionPlan.mk true
    [toExecutionTx ⟨0, ",".intercalate (route.pools.map CorePool.id), 1000, none, 1⟩]) = _
  rw [hids]
  rfl

end

end ArbRouter
