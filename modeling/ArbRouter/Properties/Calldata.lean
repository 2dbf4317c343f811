import ArbRouter.Properties.Execution
import ArbRouter.Properties.Wired

/-!
# The calldata that is served

What the executor of a chain plans is the trade that was quoted, with pools as one sync tick read
them, and a served opportunity carries the plan exactly when the engine could make one.

* `QuotedRoute` — the route the executor rebuilds is that of the calls of the quote
* `BuiltByTick.read` — a pool of a published snapshot was returned for the block of the snapshot
* `served_execution` — the calldata of the opportunities that the service of some settings serves
-/

namespace ArbRouter

open Infra

/-! ## From a quote to a route -/

section

variable [RustDecimal] [Alloy]

/-- The route and the amount are those of the calls that quoted the opportunity. -/
structure QuotedRoute (snapshot : PoolSnapshot AmmCorePool) (opp : Opportunity)
    (calls : List InnerCall) (route : Route) (amount : U256) : Prop where
  quoted : quoteLogged snapshot opp.path.hops opp.input = some (opp.output, calls)
  length : calls.length = opp.path.hops.length
  pools : route.pools = calls.map InnerCall.pool
  tokens : route.path.length = calls.length + 1
  sides : ∀ (i : Nat) (call : InnerCall), calls[i]? = some call →
    route.path[i]? = some call.source ∧ route.path[i + 1]? = some call.destination
  first : calls.head?.map InnerCall.raw = some amount

/-- Along chained hops that were quoted, `build` gets as far as the planning engine. -/
theorem exists_quotedRoute {snapshot : PoolSnapshot AmmCorePool} {opp : Opportunity}
    (hchained : Chained opp.path.start opp.path.hops)
    (hquote : quotePath snapshot opp.path opp.input = some opp.output) :
    ∃ calls route amount, QuotedRoute snapshot opp calls route amount ∧
      prepare opp snapshot = .ok (route, amount) := by
  obtain ⟨hne, calls, hlog⟩ := exists_quoteLogged hquote
  obtain ⟨start, hstart⟩ := exists_coreAsset opp.path.start
  obtain ⟨hpools, htokens, hlen, hsources⟩ := prepare_of_quoteLogged hchained hstart hlog
  obtain ⟨call, rest, hcalls, hraw⟩ := exists_first_call hne hlog
  refine ⟨calls, ⟨calls.map InnerCall.pool, start :: calls.map InnerCall.destination, .exactIn⟩,
    call.raw, ⟨hlog, hlen, rfl, by simp, ?_, by rw [hcalls]; rfl⟩, ?_⟩
  · intro i call' hcall'
    exact ⟨hsources i call' hcall', by simp [hcall']⟩
  · unfold prepare
    rw [hpools, mapAsset_asStr hstart, htokens, hraw]
    rfl

/-- Each call is of a pool of the snapshot. -/
theorem exists_get_of_mem_calls {snapshot : PoolSnapshot AmmCorePool} {hops : List Hop} :
    ∀ {amount out : Amount} {calls : List InnerCall},
      quoteLogged snapshot hops amount = some (out, calls) → ∀ call ∈ calls,
      ∃ id entry, snapshot.get id = some entry ∧ call.pool = entry.pool.inner := by
  induction hops with
  | nil =>
    intro amount out calls hlog call hcall
    obtain ⟨-, rfl⟩ := Prod.mk.inj (Option.some.inj hlog)
    exact absurd hcall List.not_mem_nil
  | cons hop rest ih =>
    intro amount out calls hlog call hcall
    unfold quoteLogged at hlog
    simp only [Option.bind_eq_bind, Option.bind_eq_some_iff] at hlog
    obtain ⟨entry, hget, first, hfirst, mid, -, ⟨final, calls'⟩, hrest, hlog⟩ := hlog
    obtain ⟨-, rfl⟩ := Prod.mk.inj (Option.some.inj hlog)
    rcases List.mem_cons.mp hcall with rfl | hcall
    · exact ⟨hop.pool, entry, hget, (innerCall_eq_some hfirst).1⟩
    · exact ih hrest call hcall

end

/-! ## The pools of a published snapshot -/

section

variable {W P : Type} [Pool P] {workers : W → SyncWorker} {evs : List (SyncEvent W P)}
  {chain : ChainId} {snapshot : PoolSnapshot P}

/-- A pool of a published snapshot was returned by a refresh at the block of the snapshot. -/
theorem BuiltByTick.read (h : BuiltByTick workers evs chain snapshot) {id : PoolId}
    {entry : PoolEntry P} (hget : snapshot.get id = some entry) :
    ∃ w i keys pools, (workers w).chain = chain ∧
      .refreshed w i keys (.number snapshot.block) (.ok pools) ∈ evs ∧ entry.pool ∈ pools := by
  obtain ⟨w, results, hw, ⟨pre, mid, post, rfl, hmid, -, hcompleted⟩, -, -, hentries⟩ := h
  obtain ⟨-, -, pools, hresult, hpool⟩ := hentries id entry hget
  obtain ⟨i, hi⟩ := List.getElem?_of_mem hresult
  obtain ⟨ev, hev, ⟨keys, block, rfl⟩ | ⟨-, -, err, -, herr⟩⟩ := (hcompleted i _).mp hi
  · -- a refresh inside the tick is at the pinned block
    have hblock : block = .number snapshot.block := by
      by_contra hne
      exact (hmid _ hev).2 ⟨i, keys, block, _, rfl, hne⟩
    subst hblock
    exact ⟨w, i, keys, pools, hw, by simp [hev], hpool⟩
  · cases herr

end

/-! ## What a scan attaches -/

/-- With an executor, an opportunity carries what the executor builds, if it builds anything. -/
theorem Scanner.execution_eq_of_mem_scanRanked {σ ν P : Type} [Pool P] [RustDecimal]
    {sc : Scanner σ ν P} {executor : Executor P} (hexec : sc.executor = some executor)
    {order : IterOrder Opportunity} {now : OffsetDateTime} {s s' : σ} {ranked : List Opportunity}
    (h : (sc.scanRanked order now).run s = .ok (ranked, s')) {opp : Opportunity}
    (hopp : opp ∈ ranked) :
    ∃ base, opp = { base with execution := opp.execution } ∧
      opp.execution = (executor.build base (sc.poolStore sc.chain)).toOption := by
  unfold scanRanked at h
  obtain ⟨opps, s₁, hopps, h⟩ := Tick.bind_ok.mp h
  obtain ⟨rfl, -⟩ := Tick.pure_ok.mp h
  unfold enrich at hopp
  rw [hexec] at hopp
  obtain ⟨base, -, rfl⟩ := List.mem_map.mp hopp
  exact ⟨base, rfl, rfl⟩

/-! ## From the settings to the calldata -/

section

variable [Alloy] [AmmRpc] [Crates] [RustDecimal]

variable {F : Type} {codec : Codec F} {r : Router}
  {evs : List (ServiceEvent (Fin r.tasks.length) AmmCorePool F)}
  {s : ServiceState (Fin r.tasks.length) AmmCorePool}

/--
During the run an exchange of the chain was refreshed at this block, and what its source returned
then was the pool, among others.
-/
def ReadFrom (r : Router) (oracle : r.Oracle)
    (evs : List (SyncEvent (Fin r.tasks.length) AmmCorePool))
    (chain : ChainId) (block : UInt64) (pool : CorePool) : Prop :=
  ∃ n w i ex keys pools, (r.asked w)[i]? = some ex ∧ ex.chain = chain ∧
    evs[n]? = some (.refreshed w i keys (.number block)
      (.ok (pools.map (AmmCorePool.new chain.asStr)))) ∧
    (oracle.source n w i).refresh (keys.filterMap AmmRpcExchange.toCoreKey) (.number block)
      = .ok pools ∧
    pool ∈ pools

/-- The pools of a snapshot were read at its block. -/
theorem BuiltByTick.readFrom {oracle : r.Oracle} (hrun : r.RunsOn oracle codec evs s)
    {chain : ChainId} {snapshot : PoolSnapshot AmmCorePool}
    (h : BuiltByTick r.deployment.worker (syncEvents evs) chain snapshot) {id : PoolId}
    {entry : PoolEntry AmmCorePool} (hget : snapshot.get id = some entry) :
    ReadFrom r oracle (syncEvents evs) chain snapshot.block entry.pool.inner := by
  obtain ⟨w, i, keys, pools, rfl, hev, hpool⟩ := h.read hget
  obtain ⟨n, hn⟩ := List.getElem?_of_mem hev
  obtain ⟨ex, hex, hresult⟩ := hrun.2 n _ hn
  have hchain := (mem_asked hex).2
  unfold AmmRpcExchange.refresh at hresult
  obtain ⟨inner, hinner, hpools⟩ := bind_eq_ok.mp hresult.symm
  obtain rfl := Except.ok.inj hpools
  obtain ⟨core, hcore, hnew⟩ := List.mem_map.mp hpool
  refine ⟨n, w, i, ex, keys, inner, hex, hchain, ?_, mapError_eq_ok.mp hinner, ?_⟩
  · rw [hn, ← hchain]
    rfl
  · rw [← hnew]
    exact hcore

omit [RustDecimal] in
theorem executor_of_buildChain {sv : Services} {c : ChainSettings} {t : ChainTasks}
    (h : buildChain sv c = .ok t) : t.executor = buildExecutor c ⟨c.chainId⟩ := by
  unfold buildChain at h
  obtain ⟨trackedTokens, -, h⟩ := bind_eq_ok.mp h
  obtain ⟨startAssets, -, h⟩ := bind_eq_ok.mp h
  rw [← Except.ok.inj h]

/--
**Served calldata executes the quoted trade.** Whatever the chains and the feeds answer and however
the tasks interleave, each opportunity that the service of some settings serves was quoted by calls
of pools that the exchanges of its chain returned in the run for one and the same block. It has
calldata exactly if the settings give its chain an executor and the planning engine makes a plan of
these very calls, from and to the address of the executor, that it can drive to the end; the
calldata is what the plan yields.
-/
theorem served_execution {F : Type} (toUppercase : String → String) (settings : RouterSettings)
    (r : Router) (hbuild : build toUppercase settings = .ok r) (oracle : r.Oracle) (codec : Codec F)
    (evs : List (ServiceEvent (Fin r.tasks.length) AmmCorePool F))
    (s : ServiceState (Fin r.tasks.length) AmmCorePool) (hrun : r.RunsOn oracle codec evs s)
    (order : IterOrder (List Opportunity)) (query : OpportunityQuery) :
    ∀ view ∈ opportunities order (s.api r.deployment) query, ∃ opp c snapshot calls route amount,
      view = OpportunityView.ofOpportunity opp ∧ c ∈ settings.spawned ∧ opp.chain = ⟨c.chainId⟩ ∧
      BuiltByTick r.deployment.worker (syncEvents evs) opp.chain snapshot ∧
      QuotedRoute snapshot opp calls route amount ∧
      (∀ call ∈ calls, ReadFrom r oracle (syncEvents evs) opp.chain snapshot.block call.pool) ∧
      (buildExecutor c opp.chain = none → opp.execution = none) ∧
      ∀ exec, buildExecutor c opp.chain = some exec → ∃ clock, ∀ built,
        opp.execution = some built ↔ ∃ plan swaps,
          AmmRpc.plan exec.chainCfg route amount
            (AmmRpc.resolve exec.slippageBps exec.sender (AmmRpcExecutor.unixSeconds clock)
              exec.sender) exec.sender .none .strict = .ok plan ∧
          PlanYields plan none swaps ∧ built = ⟨AmmRpc.isAtomic plan, swaps.map toExecutionTx⟩ := by
  intro view hview
  obtain ⟨opp, hopp, rfl⟩ := List.mem_map.mp hview
  obtain ⟨-, -, w, snapshot, now, opps, hhanded, hmem, hbacked, hbuilt⟩ :=
    (ServiceInv.run hrun.1).of_mem_answer hopp
  obtain ⟨c, hc, hchain⟩ := exists_buildChain hbuild (List.get_mem r.tasks w)
  have hoppChain : opp.chain = ⟨c.chainId⟩ := hbacked.chain.trans (chain_of_buildChain hchain)
  have hexecutor : (r.taskAt w).executor = buildExecutor c opp.chain := by
    rw [hoppChain]
    exact executor_of_buildChain hchain
  obtain ⟨start, -, hpath⟩ := hbacked.path
  obtain ⟨hstart, -, -, hchained, -⟩ := hbuilt.trail hpath
  obtain ⟨calls, route, amount, hroute, hprepare⟩ :=
    exists_quotedRoute (hstart ▸ hchained) hbacked.quoted
  obtain ⟨before, writes, order', clock, world, world', -, hranked⟩ := hhanded.scanned
  refine ⟨opp, c, snapshot, calls, route, amount, rfl, hc, hoppChain, hbuilt, hroute, ?_, ?_, ?_⟩
  · intro call hcall
    obtain ⟨id, entry, hget, hpool⟩ := exists_get_of_mem_calls hroute.quoted call hcall
    rw [hpool]
    exact hbuilt.readFrom hrun hget
  · intro hnone
    refine Scanner.execution_of_mem_scanRanked ?_ hranked hmem
    show Option.map _ (Option.map _ (r.taskAt w).executor) = none
    rw [hexecutor, hnone]
    rfl
  · intro exec hsome
    have hexec : ((r.deployment.task w).scanner snapshot clock).executor
        = some (exec.toExecutor clock) := by
      show Option.map _ (Option.map _ (r.taskAt w).executor) = _
      rw [hexecutor, hsome]
      rfl
    obtain ⟨base, hbase, hexecution⟩ := Scanner.execution_eq_of_mem_scanRanked hexec hranked hmem
    -- the route depends on what the calldata is attached to, not on the calldata
    have hbasePrepare : prepare base snapshot = .ok (route, amount) := by
      rw [← hprepare, hbase]
      rfl
    refine ⟨clock base, fun built => ?_⟩
    rw [hexecution, toOption_eq_some]
    exact AmmRpcExecutor.build_eq_ok_iff hbasePrepare

end

section

attribute [local instance] RustDecimal.reference Alloy.reference AmmRpc.oneTx Crates.offline

/-- The same settings with an executor. -/
def executorSettings : RouterSettings :=
  { tokenSettings with
    chains := tokenSettings.chains.map fun c =>
      { c with executorAddress := some "0x2222222222222222222222222222222222222222" } }

/-- The service that is built from it. -/
def executorRouter : Router :=
  { tokenRouter with
    tasks := [{ tokenTasks with
      executor := some ⟨0x2222222222222222222222222222222222222222, (), 30⟩ }]
    chain_mem := by
      intro t ht
      rw [List.mem_singleton.mp ht]
      exact List.mem_cons_self }

theorem build_executorSettings : build id executorSettings = .ok executorRouter := rfl

/-- The executor does not change what can happen. -/
theorem runs_executorTick : ∃ s ranked,
    executorRouter.RunsOn (tokenOracle executorRouter) decimalCodec
      (tokenTick ++ [.notified tokenTask ranked]) s ∧ s.sinks.1.get ⟨"ethereum"⟩ ≠ [] := by
  obtain ⟨s, hrun, snapshot, now, before, hp, hfinds⟩ :
      ∃ s, executorRouter.deployment.Runs decimalCodec tokenTick s ∧
      ∃ snapshot now before, s.scan tokenTask = .scanning snapshot now before [] ∧
        findsSome (executorRouter.deployment.task tokenTask) snapshot now before s.sinks
          = true := by
    refine ⟨_, ((((((Run.one (.sync (.pinned 7 0 rfl))).snoc
      (.sync (.discovered (i := 0) _ rfl rfl))).snoc (.sync (.refreshed (i := 0) _ rfl rfl))).snoc
      (.sync (.published rfl ?_))).snoc (.polled (IterOrder.stored _) (fun _ => 0) rfl)).snoc
      (.wrote (show _ = FeedPhase.writing [⟨.coingecko, tokenA, ⟨Decimal.one⟩, 0⟩] from rfl))).snoc
      (.loaded 0 rfl), _, _, _, rfl, ?_⟩
    · decide +kernel
    · intro r hr
      obtain rfl := List.mem_singleton.mp hr
      exact ⟨_, rfl⟩
  obtain ⟨ranked, result, world', log', hranked, hscan, hfound⟩ := exists_of_findsSome hfinds
  refine ⟨_, ranked, ⟨hrun.snoc (.notified hp (observes_quiet before []) hranked hscan), ?_⟩,
    hfound⟩
  intro n ev hev
  match n with
  | 0 => cases hev; rfl
  | 1 => cases hev; exact ⟨_, rfl, rfl⟩
  | 2 => cases hev; exact ⟨_, rfl, rfl⟩
  | 3 => cases hev; trivial
  | _ + 4 => cases hev

/-- The opportunity that is served has the one transaction of its plan as calldata. -/
theorem execution_tokenTick : ∃ s ranked opp tx,
    executorRouter.RunsOn (tokenOracle executorRouter) decimalCodec
      (tokenTick ++ [.notified tokenTask ranked]) s ∧
    OpportunityView.ofOpportunity opp ∈
      opportunities (IterOrder.stored _) (s.api executorRouter.deployment) ⟨some "ethereum", none⟩ ∧
    opp.execution = some ⟨true, [tx]⟩ := by
  obtain ⟨s, ranked, hrun, hne⟩ := runs_executorTick
  obtain ⟨opp, hopp⟩ := List.exists_mem_of_ne_nil _ hne
  have hview : OpportunityView.ofOpportunity opp ∈
      opportunities (IterOrder.stored _) (s.api executorRouter.deployment)
        ⟨some "ethereum", none⟩ :=
    mem_opportunities hopp _
  obtain ⟨opp', c, snapshot, calls, route, amount, heq, hc, hchain, -, -, -, -, hexec⟩ :=
    served_execution id executorSettings executorRouter build_executorSettings
      (tokenOracle executorRouter) decimalCodec _ s hrun (IterOrder.stored _)
      ⟨some "ethereum", none⟩ _ hview
  obtain rfl : c = _ := List.mem_singleton.mp hc
  obtain ⟨clock, hclock⟩ := hexec ⟨0x2222222222222222222222222222222222222222, (), 30⟩ (by
    rw [hchain]
    rfl)
  refine ⟨s, ranked, opp', _, hrun, heq ▸ hview,
    (hclock _).mpr ⟨_, _, rfl, .next rfl (.done rfl), rfl⟩⟩

end

end ArbRouter
