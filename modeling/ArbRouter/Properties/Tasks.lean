import ArbRouter.Properties.Latest
import ArbRouter.Properties.Sources

/-!
# Tasks side by side

No task of a deployment waits for another one, and none changes what the API says of a chain but the
worker and the scanner of that chain.

* `tasks_never_stuck` — a task that has not panicked can finish what it is doing by its own steps
* `chain_isolated` — what changes the answers for a chain, and what keeps them
-/

namespace ArbRouter

open Infra

section

variable {W P F : Type} [Pool P] [DecidableEq W]

/-! ## A sync tick can be finished -/

section

variable {workers : W → SyncWorker} {s : SyncState W P} {w : W} {block : UInt64}
  {now : OffsetDateTime} {refreshes : List (Refresh P)}

/-- A call that is under way can return an error. -/
theorem SyncStep.exists_finish {i : Nat} {r : Refresh P}
    (hp : s.phase w = .syncing block now refreshes)
    (hi : refreshes[i]? = some r) (hr : ∀ result, r ≠ .finished result) (err : ExchangeError) :
    ∃ ev s', ev.worker = w ∧ SyncStep workers s ev s' ∧
      s'.phase w = .syncing block now (refreshes.set i (.finished (.error err))) := by
  cases r with
  | discovering =>
    exact ⟨_, _, rfl, .discovered (.error err) hp hi, s.setPhase_phase_self w _⟩
  | refreshing keys =>
    exact ⟨_, _, rfl, .refreshed (.error err) hp hi, s.setPhase_phase_self w _⟩
  | finished result => exact absurd rfl (hr result)

/-- The calls of the first `k` exchanges can return. -/
theorem SyncStep.exists_run_finish (k : Nat) (hk : k ≤ refreshes.length)
    (hp : s.phase w = .syncing block now refreshes) :
    ∃ evs s' refreshes', Run (SyncStep workers) s evs s' ∧ (∀ ev ∈ evs, ev.worker = w) ∧
      s'.phase w = .syncing block now refreshes' ∧ refreshes'.length = refreshes.length ∧
      ∀ j < k, ∃ result, refreshes'[j]? = some (.finished result) := by
  induction k with
  | zero =>
    refine ⟨[], s, refreshes, .start, ?_, hp, rfl, fun j hj => absurd hj (Nat.not_lt_zero j)⟩
    exact fun ev hev => absurd hev List.not_mem_nil
  | succ k ih =>
    obtain ⟨evs, s₁, rs, hrun, hworker, hp₁, hlen, hfin⟩ := ih (Nat.le_of_succ_le hk)
    have hlt : k < rs.length := by omega
    have hget : rs[k]? = some rs[k] := List.getElem?_eq_getElem hlt
    by_cases hdone : ∃ result, rs[k] = .finished result
    · obtain ⟨result, hresult⟩ := hdone
      refine ⟨evs, s₁, rs, hrun, hworker, hp₁, hlen, fun j hj => ?_⟩
      rcases Nat.lt_succ_iff_lt_or_eq.mp hj with hj | rfl
      · exact hfin j hj
      · exact ⟨result, hget.trans (congrArg some hresult)⟩
    · obtain ⟨ev, s₂, hev, hstep, hp₂⟩ := SyncStep.exists_finish hp₁ hget
        (fun result hresult => hdone ⟨result, hresult⟩) (.internal "cancelled")
      refine ⟨evs ++ [ev], s₂, _, hrun.snoc hstep, ?_, hp₂, List.length_set.trans hlen,
        fun j hj => ?_⟩
      · intro e he
        rcases List.mem_append.mp he with he | he
        · exact hworker e he
        · rwa [List.mem_singleton.mp he]
      · rcases Nat.lt_succ_iff_lt_or_eq.mp hj with hj | rfl
        · obtain ⟨result, hresult⟩ := hfin j hj
          exact ⟨result, (List.getElem?_set_ne (Nat.ne_of_gt hj)).trans hresult⟩
        · exact ⟨_, List.getElem?_set_self hlt⟩

/-- **A tick can be finished** by the calls of its worker alone. -/
theorem SyncStep.exists_run_published (workers : W → SyncWorker) (s : SyncState W P) (w : W) :
    ∃ evs s', Run (SyncStep workers) s (evs ++ [.published w]) s' ∧
      (∀ ev ∈ evs, ev.worker = w) ∧ s'.phase w = .idle := by
  have hsyncing : ∀ s₀ : SyncState W P, ∀ block now refreshes,
      s₀.phase w = .syncing block now refreshes →
      ∃ evs s', Run (SyncStep workers) s₀ (evs ++ [.published w]) s' ∧
        (∀ ev ∈ evs, ev.worker = w) ∧ s'.phase w = .idle := by
    intro s₀ block now refreshes hp
    obtain ⟨evs, s₁, rs, hrun, hworker, hp₁, hlen, hfin⟩ :=
      SyncStep.exists_run_finish refreshes.length le_rfl hp
    have hall : ∀ r ∈ rs, ∃ result, r = .finished result := by
      intro r hr
      obtain ⟨j, hj, rfl⟩ := List.getElem_of_mem hr
      obtain ⟨result, hresult⟩ := hfin j (hlen ▸ hj)
      rw [List.getElem?_eq_getElem hj] at hresult
      exact ⟨result, Option.some.inj hresult⟩
    exact ⟨evs, _, hrun.snoc (.published hp₁ hall), hworker, Function.update_self ..⟩
  cases hphase : s.phase w with
  | syncing block now refreshes => exact hsyncing s block now refreshes hphase
  | idle =>
    obtain ⟨evs, s', hrun, hworker, hidle⟩ := hsyncing _ 0 0 _ (s.setPhase_phase_self w _)
    refine ⟨.pinned w 0 0 :: evs, s', ?_, ?_, hidle⟩
    · exact (Run.one (.pinned 0 0 hphase)).append hrun
    · exact List.forall_mem_cons.mpr ⟨rfl, hworker⟩

end

variable [RustDecimal] {d : Deployment W P} {codec : Codec F} {s s' : ServiceState W P}
  {evs : List (ServiceEvent W P F)} {ev : ServiceEvent W P F}

/-- A run of the sync workers is a run of the service. -/
theorem ServiceStep.run_sync {evs : List (SyncEvent W P)} {sync' : SyncState W P}
    (h : Run (SyncStep d.worker) s.sync evs sync') :
    Run (ServiceStep d codec) s (evs.map .sync) { s with sync := sync' } := by
  induction h with
  | start => exact .start
  | snoc _ hs ih =>
    rw [List.map_append]
    exact ih.snoc (.sync hs)

/-! ## A scan can be finished -/

/-- The notifier of the service does not fail, so a scan ends in a notification or in a panic. -/
theorem ServiceStep.exists_scanEnd {w : W} {snapshot : PoolSnapshot P} {now : OffsetDateTime}
    {before : PriceStore} {writes : List PriceWrite}
    (hp : s.scan w = .scanning snapshot now before writes) :
    ∃ s', (∃ opps, ServiceStep d codec s (.notified w opps) s') ∨
      ServiceStep d codec s (.scanPanicked w) s' := by
  cases hrun : (((d.task w).scanner snapshot fun _ => 0).scanOnce (IterOrder.stored _) now).run
      (World.quiet before, s.sinks) with
  | error panic => exact ⟨_, Or.inr (.scanPanicked hp (observes_quiet before writes) hrun)⟩
  | ok out =>
    obtain ⟨ranked, hranked, -⟩ := Scanner.scanOnce_ok hrun
    exact ⟨_, Or.inl ⟨ranked, .notified hp (observes_quiet before writes) hranked hrun⟩⟩

/-! ## A message can be written -/

/-- What a feed has yet to write can be written. -/
theorem ServiceStep.exists_run_wrote {feed : Feed} {pending : List PriceWrite}
    (hp : s.feed feed = .writing pending) (hfeed : ∀ write ∈ pending, write.feed = feed) :
    ∃ s', Run (ServiceStep d codec) s (pending.map .wrote) s' ∧ s'.feed feed = .writing [] := by
  induction pending generalizing s with
  | nil => exact ⟨s, .start, hp⟩
  | cons write rest ih =>
    obtain rfl := hfeed write List.mem_cons_self
    have hs : ServiceStep d codec s (.wrote write) _ := .wrote hp
    obtain ⟨s', hrun, hidle⟩ := ih (s := { s.setFeed write.feed (.writing rest) with
        prices := write.effect s.prices, scan := fun w => (s.scan w).observe write })
      (s.setFeed_feed_self _ _) fun w hw => hfeed w (List.mem_cons_of_mem _ hw)
    exact ⟨s', (Run.one hs).append hrun, hidle⟩

/--
**No task is stuck unless it has panicked.** In every state that a deployment reaches, whatever the
other tasks are doing, a sync worker can finish its tick and publish by its own calls alone; an idle
scanner can begin a scan, and one that is under way can end; a feed that has not stopped can write
all of the message it works on. A scanner or a feed that panicked has stopped for good.
-/
theorem tasks_never_stuck (d : Deployment W P) (codec : Codec F) (staleness : StdDuration)
    (hnew : d.feeds.store = PriceStore.new staleness) (evs : List (ServiceEvent W P F))
    (s : ServiceState W P) (hrun : d.Runs codec evs s) :
    (∀ w, ∃ (own : List (SyncEvent W P)) (s' : ServiceState W P),
      Run (ServiceStep d codec) s ((own ++ [SyncEvent.published w]).map .sync) s' ∧
      (∀ ev ∈ own, ev.worker = w) ∧ s'.sync.phase w = .idle ∧
      Published d.worker (syncEvents evs ++ (own ++ [.published w])) (d.task w).chain
        (s'.sync.store.snapshot (d.task w).chain)) ∧
    (∀ w, s.scan w = .idle → ∀ now, ∃ s', ServiceStep d codec s (.loaded w now) s') ∧
    (∀ w snapshot now before writes, s.scan w = .scanning snapshot now before writes →
      ∃ s', (∃ opps, ServiceStep d codec s (.notified w opps) s') ∨
        ServiceStep d codec s (.scanPanicked w) s') ∧
    ∀ feed pending, s.feed feed = .writing pending →
      ∃ s', Run (ServiceStep d codec) s (pending.map .wrote) s' ∧ s'.feed feed = .writing [] := by
  refine ⟨?_, ?_, ?_, ?_⟩
  · intro w
    obtain ⟨own, sync', hsync, hown, hidle⟩ := SyncStep.exists_run_published d.worker s.sync w
    have hwhole : Run (SyncStep d.worker) (SyncState.init d.chains)
        (syncEvents evs ++ (own ++ [.published w])) sync' :=
      ((ServiceStep.syncing d codec).run hrun).append hsync
    refine ⟨own, { s with sync := sync' }, ServiceStep.run_sync hsync, hown, hidle, ?_⟩
    rw [← d.chain_worker]
    refine (latestTick hwhole ?_).published (by simp)
    rw [d.chain_worker]
    exact d.chain_mem w
  · exact fun w hidle now => ⟨_, .loaded now hidle⟩
  · exact fun w snapshot now before writes hp => ServiceStep.exists_scanEnd hp
  · intro feed pending hp
    exact ServiceStep.exists_run_wrote hp fun write hw =>
      ((PriceInv.run hnew hrun).pending feed pending hp write hw).1

end

section

attribute [local instance] RustDecimal.reference

/-- A scan over one tick can end. -/
theorem not_stuck_wethTick : ∃ s : ServiceState Unit FakePool,
    wethDeployment.Runs decimalCodec wethTick s ∧
    ∀ snapshot now before writes, s.scan () = .scanning snapshot now before writes →
      ∃ s', (∃ opps, ServiceStep wethDeployment decimalCodec s (.notified () opps) s') ∨
        ServiceStep wethDeployment decimalCodec s (.scanPanicked ()) s' := by
  obtain ⟨s, -, -, hrun, -⟩ := runs_wethTick
  obtain ⟨-, -, hscan, -⟩ := tasks_never_stuck wethDeployment decimalCodec _ rfl wethTick s hrun
  exact ⟨s, hrun, hscan ()⟩

end

/-! ## Chains side by side -/

section

variable {W P F : Type} [Pool P] [DecidableEq W] [RustDecimal] {d : Deployment W P}
  {codec : Codec F}
  {s s' : ServiceState W P} {evs : List (ServiceEvent W P F)} {ev : ServiceEvent W P F}

/-- A step that is no notification for the chain keeps what is held for the chain. -/
theorem ServiceStep.lookup_of_ne (h : ServiceStep d codec s ev s') {chain : ChainId}
    (hev : ∀ w opps, ev = .notified w opps → (d.task w).chain ≠ chain) :
    s'.sinks.1.latest.lookup chain = s.sinks.1.latest.lookup chain := by
  rcases h.sinks_cases with heq | ⟨w, opps, rfl, hsinks⟩
  · rw [heq]
  · rw [hsinks, notify_sinks]
    exact AList.lookup_insert_ne (Ne.symm (hev w opps rfl))

/-- A step that publishes nothing for the chain keeps the snapshot of the chain. -/
theorem ServiceStep.snapshot_of_ne (h : ServiceStep d codec s ev s') {chain : ChainId}
    (hev : ∀ w, ev = .sync (.published w) → (d.task w).chain ≠ chain) :
    s'.sync.store.snapshot chain = s.sync.store.snapshot chain := by
  cases h with
  | @sync ev sync' hs =>
    show sync'.store.snapshot chain = _
    rcases hs.store_cases with hstore | ⟨w, block, now, refreshes, rfl, -, -, hstore⟩
    · rw [hstore]
    · rw [hstore]
      refine s.sync.store.snapshot_store_of_ne (Ne.symm ?_) _
      rw [d.chain_worker]
      exact hev w rfl
  | _ => rfl

/-- A scanner that has stopped stays stopped, and does not notify. -/
theorem ServiceStep.stopped (h : ServiceStep d codec s ev s') {w : W}
    (hstop : s.scan w = .stopped) :
    s'.scan w = .stopped ∧ ∀ opps, ev ≠ .notified w opps := by
  have hnone : ∀ opps, ev ≠ .notified w opps := by
    rintro opps rfl
    obtain ⟨snapshot, now, before, writes, -, -, -, -, hp, -⟩ := h.notified_cases
    rw [hstop] at hp
    cases hp
  refine ⟨?_, hnone⟩
  rcases h.scan_cases w with ⟨heq, -⟩ | ⟨now, -, hidle, -⟩ | ⟨write, -, hobs⟩ | ⟨opps, rfl, -⟩ |
    ⟨-, hstop'⟩
  · rw [heq, hstop]
  · rw [hstop] at hidle
    cases hidle
  · rw [hobs, hstop]
    rfl
  · exact absurd rfl (hnone opps)
  · exact hstop'

theorem lookup_of_run (hrun : Run (ServiceStep d codec) s evs s') {chain : ChainId}
    (hevs : ∀ w opps, .notified w opps ∈ evs → (d.task w).chain ≠ chain) :
    s'.sinks.1.latest.lookup chain = s.sinks.1.latest.lookup chain := by
  induction hrun with
  | start => rfl
  | snoc _ hs ih =>
    rw [hs.lookup_of_ne fun w opps hw => hevs w opps (by rw [hw]; exact List.mem_concat_self),
      ih fun w opps hw => hevs w opps (List.mem_append_left _ hw)]

theorem snapshot_of_run (hrun : Run (ServiceStep d codec) s evs s') {chain : ChainId}
    (hevs : ∀ w, .sync (.published w) ∈ evs → (d.task w).chain ≠ chain) :
    s'.sync.store.snapshot chain = s.sync.store.snapshot chain := by
  induction hrun with
  | start => rfl
  | snoc _ hs ih =>
    rw [hs.snapshot_of_ne fun w hw => hevs w (by rw [hw]; exact List.mem_concat_self),
      ih fun w hw => hevs w (List.mem_append_left _ hw)]

theorem stopped_of_run (hrun : Run (ServiceStep d codec) s evs s') {w : W}
    (hstop : s.scan w = .stopped) : s'.scan w = .stopped ∧ ∀ opps, .notified w opps ∉ evs := by
  induction hrun with
  | start => exact ⟨hstop, fun opps => List.not_mem_nil⟩
  | snoc _ hs ih =>
    obtain ⟨hstop', hnone⟩ := hs.stopped ih.1
    refine ⟨hstop', fun opps hmem => ?_⟩
    rcases List.mem_append.mp hmem with hmem | hmem
    · exact ih.2 opps hmem
    · exact hnone opps (List.mem_singleton.mp hmem).symm

omit [DecidableEq W] in
/-- What the API answers for one chain is a function of what is held for that chain. -/
theorem opportunities_congr {chain : ChainId}
    (h : s'.sinks.1.latest.lookup chain = s.sinks.1.latest.lookup chain)
    (order : IterOrder (List Opportunity)) (minRoiBps : Option UInt32) :
    opportunities order (s'.api d) ⟨some chain.asStr, minRoiBps⟩
      = opportunities order (s.api d) ⟨some chain.asStr, minRoiBps⟩ := by
  have hget : s'.sinks.1.get chain = s.sinks.1.get chain := by
    unfold MemoryNotifier.get
    rw [h]
  unfold opportunities MemoryNotifier.answer ServiceState.api
  exact congrArg (fun opps => List.map _ (List.filter _ opps)) hget

/--
**Chains do not touch one another.** From any state on, whatever the tasks do, the opportunities
answered for a chain change only when a scanner of the chain notifies, its snapshot changes only
when a worker of the chain publishes. A scanner that panicked never notifies again, so a chain
without another scanner is answered what was found last from then on, however old it gets.
-/
theorem chain_isolated (d : Deployment W P) (codec : Codec F) (evs : List (ServiceEvent W P F))
    (s s' : ServiceState W P) (hrun : Run (ServiceStep d codec) s evs s') (chain : ChainId) :
    ((∀ w opps, .notified w opps ∈ evs → (d.task w).chain ≠ chain) → ∀ order minRoiBps,
      opportunities order (s'.api d) ⟨some chain.asStr, minRoiBps⟩
        = opportunities order (s.api d) ⟨some chain.asStr, minRoiBps⟩) ∧
    ((∀ w, .sync (.published w) ∈ evs → (d.task w).chain ≠ chain) →
      s'.sync.store.snapshot chain = s.sync.store.snapshot chain) ∧
    ((∀ w, (d.task w).chain = chain → s.scan w = .stopped) →
      (∀ w, (d.task w).chain = chain → s'.scan w = .stopped) ∧ ∀ order minRoiBps,
        opportunities order (s'.api d) ⟨some chain.asStr, minRoiBps⟩
          = opportunities order (s.api d) ⟨some chain.asStr, minRoiBps⟩) := by
  refine ⟨fun hevs => opportunities_congr (lookup_of_run hrun hevs), snapshot_of_run hrun, ?_⟩
  intro hstop
  refine ⟨fun w hw => (stopped_of_run hrun (hstop w hw)).1, opportunities_congr ?_⟩
  exact lookup_of_run hrun fun w opps hmem hw => (stopped_of_run hrun (hstop w hw)).2 opps hmem

end

section

attribute [local instance] RustDecimal.reference

/-- Nothing that happens on Ethereum is seen on Base. -/
theorem isolated_wethTick : ∃ s : ServiceState Unit FakePool,
    wethDeployment.Runs decimalCodec wethTick s ∧
    ∀ order minRoiBps, opportunities order (s.api wethDeployment) ⟨some "base", minRoiBps⟩
      = opportunities order ((ServiceState.init wethDeployment).api wethDeployment)
          ⟨some "base", minRoiBps⟩ := by
  obtain ⟨s, -, -, hrun, -⟩ := runs_wethTick
  have hne : ∀ w : Unit, (wethDeployment.task w).chain ≠ ⟨"base"⟩ :=
    fun _ h => absurd (show "ethereum" = "base" from congrArg ChainId.asStr h) (by decide)
  exact ⟨s, hrun, (chain_isolated wethDeployment decimalCodec wethTick _ s hrun ⟨"base"⟩).1
    fun w _ _ => hne w⟩

end

end ArbRouter
