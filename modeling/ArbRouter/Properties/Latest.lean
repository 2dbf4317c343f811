import ArbRouter.Properties.Service

/-!
# The snapshot of a chain is its latest

A reader finds the snapshot of the last tick that published for the chain, so the status of the API
reports the block, the time and the number of pools of that tick.

* `latestTick` — the snapshot of a chain after every run
* `PoolSnapshot.poolCount_fromEntries` — what `pool_count` counts
* `status_latest` — what `/v1/status` answers
-/

namespace ArbRouter

open Infra

variable {P W : Type} [Pool P]

/-! ## The number of pools -/

/-- A map that is filled by key has as many entries as there are distinct keys. -/
theorem HashMap.length_entries_lastBy {K V : Type} [DecidableEq K] (key : V → K) (vs : List V) :
    (HashMap.lastBy key vs).entries.length = (vs.map key).dedup.length := by
  have hperm : (HashMap.lastBy key vs).keys.Perm (vs.map key).dedup := by
    refine (List.perm_ext_iff_of_nodup (AList.keys_nodup _) (List.nodup_dedup _)).mpr fun k => ?_
    rw [← AList.mem_keys, ← AList.lookup_isSome, HashMap.lookup_lastBy, List.find?_isSome,
      List.mem_dedup, List.mem_map]
    simp
  have hkeys : (HashMap.lastBy key vs).keys = (HashMap.lastBy key vs).entries.map Sigma.fst := rfl
  rw [← hperm.length_eq, hkeys, List.length_map]

/-- **`pool_count` counts the distinct ids.** -/
theorem PoolSnapshot.poolCount_fromEntries (block : UInt64) (takenAt : OffsetDateTime)
    (entries : List (PoolEntry P)) :
    (fromEntries block takenAt entries).poolCount = (entries.map PoolEntry.id).dedup.length :=
  HashMap.length_entries_lastBy PoolEntry.id entries

/-! ## The last tick -/

/-- Between pinning and publishing, the exchanges of the worker returned these results. -/
structure TickBody (workers : W → SyncWorker) (w : W) (block : UInt64) (mid : List (SyncEvent W P))
    (results : List (Except ExchangeError (List P))) : Prop where
  within : ∀ ev ∈ mid, ¬ Boundary w ev ∧ ¬ OffBlock w block ev
  length : results.length = (workers w).supporting.length
  completed : ∀ i result, results[i]? = some result ↔ ∃ ev ∈ mid, Completed w i result ev

/-- No tick of the chain is published. -/
def Unpublished (workers : W → SyncWorker) (chain : ChainId) (evs : List (SyncEvent W P)) : Prop :=
  ∀ w, .published w ∈ evs → (workers w).chain ≠ chain

/-- The snapshot of the last tick of the chain, or the empty one if there was none. -/
def LatestTick (workers : W → SyncWorker) (evs : List (SyncEvent W P)) (chain : ChainId)
    (snap : PoolSnapshot P) : Prop :=
  (snap = emptySnapshot ∧ Unpublished workers chain evs) ∨
  ∃ w block now results pre mid post, (workers w).chain = chain ∧
    evs = pre ++ .pinned w block now :: (mid ++ .published w :: post) ∧
    TickBody workers w block mid results ∧ Unpublished workers chain post ∧
    snap = PoolSnapshot.fromEntries block now
      ((poolsOf results).map fun pool => ⟨pool, ⟨block, now⟩⟩)

section

variable {workers : W → SyncWorker} {evs : List (SyncEvent W P)} {chain : ChainId}
  {snap : PoolSnapshot P} {ev : SyncEvent W P}

omit [Pool P] in
theorem Unpublished.snoc (h : Unpublished workers chain evs)
    (hev : ∀ w, ev = .published w → (workers w).chain ≠ chain) :
    Unpublished workers chain (evs ++ [ev]) := by
  intro w hw
  rcases List.mem_append.mp hw with hw | hw
  · exact h w hw
  · exact hev w (List.mem_singleton.mp hw).symm

/-- The last tick of a chain stays the last one while others publish. -/
theorem LatestTick.snoc (h : LatestTick workers evs chain snap)
    (hev : ∀ w, ev = .published w → (workers w).chain ≠ chain) :
    LatestTick workers (evs ++ [ev]) chain snap := by
  rcases h with ⟨rfl, hnone⟩ | ⟨w, block, now, results, pre, mid, post, hw, rfl, hbody, hpost, rfl⟩
  · exact Or.inl ⟨rfl, hnone.snoc hev⟩
  · refine Or.inr
      ⟨w, block, now, results, pre, mid, post ++ [ev], hw, ?_, hbody, hpost.snoc hev, rfl⟩
    simp only [List.append_assoc, List.cons_append]

/-- Once a tick of the chain has been published, the last one is behind its snapshot. -/
theorem LatestTick.published {v : W} (h : LatestTick workers evs (workers v).chain snap)
    (hv : .published v ∈ evs) : Published workers evs (workers v).chain snap := by
  rcases h with ⟨-, hnone⟩ | ⟨w, block, now, results, pre, mid, post, hw, rfl, hbody, -, rfl⟩
  · exact absurd rfl (hnone v hv)
  · exact ⟨w, block, now, results, hw,
      ⟨pre, mid, post, rfl, hbody.within, hbody.length, hbody.completed⟩, rfl⟩

omit [Pool P] in
/-- A tick whose exchanges have all finished. -/
theorem TickInv.body {w : W} {block : UInt64} {mid : List (SyncEvent W P)}
    {results : List (Except ExchangeError (List P))}
    (h : TickInv w block (results.map .finished) mid)
    (hlen : (results.map Refresh.finished).length = (workers w).supporting.length) :
    TickBody workers w block mid results where
  within := fun ev hev => ⟨h.within ev hev, h.atBlock ev hev⟩
  length := by rwa [List.length_map] at hlen
  completed := by
    intro i result
    rw [h.completed, List.getElem?_map, Option.map_eq_some_iff]
    constructor
    · exact fun hi => ⟨result, hi, rfl⟩
    · rintro ⟨result', hi, heq⟩
      cases heq
      exact hi

variable [DecidableEq W] {s s' : SyncState W P} {chains : List ChainId}

/-- When a worker publishes, the chain's snapshot is that of the tick that ends here. -/
theorem SyncInv.latestTick_published {w : W} (h : SyncInv workers chains evs s)
    (hs : SyncStep workers s (.published w) s') (hchain : (workers w).chain ∈ chains) :
    LatestTick workers (evs ++ [.published w]) (workers w).chain
      (s'.store.snapshot (workers w).chain) := by
  cases hs with
  | @published _ block now refreshes hp hfin =>
    obtain ⟨results, rfl⟩ := exists_results hfin
    obtain ⟨hlen, pre, mid, rfl, hmid⟩ := h.syncing w block now _ hp
    refine Or.inr ⟨w, block, now, results, pre, mid, [], rfl, ?_, hmid.body hlen, ?_, ?_⟩
    · simp only [List.append_assoc, List.cons_append]
    · exact fun v hv => absurd hv List.not_mem_nil
    · rw [← entriesOf_finished]
      exact ArcSwapPoolStore.snapshot_store_self ((h.registered _).mpr hchain) _

/-- **A chain's snapshot is that of its last tick.** -/
theorem latestTick (h : Run (SyncStep workers) (SyncState.init chains) evs s)
    (hchain : chain ∈ chains) : LatestTick workers evs chain (s.store.snapshot chain) := by
  induction h with
  | start =>
    exact Or.inl ⟨ArcSwapPoolStore.snapshot_new chains chain,
      fun w hw => absurd hw List.not_mem_nil⟩
  | @snoc evs s₁ s₂ ev hrun hs ih =>
    by_cases hev : ∃ w, ev = .published w ∧ (workers w).chain = chain
    · obtain ⟨w, rfl, rfl⟩ := hev
      exact (SyncInv.run hrun).latestTick_published hs hchain
    · have hother : ∀ w, ev = .published w → (workers w).chain ≠ chain :=
        fun w hw hc => hev ⟨w, hw, hc⟩
      have hsame : s₂.store.snapshot chain = s₁.store.snapshot chain := by
        rcases hs.store_cases with hstore | ⟨w, block, now, refreshes, rfl, -, -, hstore⟩
        · rw [hstore]
        · rw [hstore]
          exact s₁.store.snapshot_store_of_ne (Ne.symm (hother w rfl)) _
      rw [hsame]
      exact ih.snoc hother

end

/-! ## Status -/

/-- What `status` is to answer for a chain. -/
def ReportsLatest (workers : W → SyncWorker) (evs : List (SyncEvent W P)) (chain : ChainId)
    (status : ChainStatus) : Prop :=
  (Unpublished workers chain evs ∧ status = ⟨chain.asStr, 0, 0, 0⟩) ∨
  ∃ w block now results pre mid post, (workers w).chain = chain ∧
    evs = pre ++ .pinned w block now :: (mid ++ .published w :: post) ∧
    TickBody workers w block mid results ∧ Unpublished workers chain post ∧
    status = ⟨chain.asStr, ((poolsOf results).map Pool.id).dedup.length, block,
      OffsetDateTime.unixTimestamp now⟩

/--
**The status is that of the last tick.** In every state that a deployment reaches, `/v1/status`
answers one entry per chain: nothing synced, if no tick of the chain has been published, otherwise
the block and time that the last published tick pinned, with the number of distinct pools that the
exchanges returned in it.
-/
theorem status_latest {F : Type} [RustDecimal] [DecidableEq W] (d : Deployment W P)
    (codec : Codec F)
    (evs : List (ServiceEvent W P F)) (s : ServiceState W P) (hrun : d.Runs codec evs s) :
    ∃ entry : ChainId → ChainStatus, status (s.api d) = d.chains.map entry ∧
      ∀ chain ∈ d.chains, ReportsLatest d.worker (syncEvents evs) chain (entry chain) := by
  refine ⟨_, rfl, fun chain hchain => ?_⟩
  have hsnap : (s.api d).store chain = s.sync.store.snapshot chain := rfl
  dsimp only
  rw [hsnap]
  have hlatest : LatestTick d.worker (syncEvents evs) chain (s.sync.store.snapshot chain) :=
    latestTick ((ServiceStep.syncing d codec).run hrun) hchain
  rcases hlatest with ⟨heq, hnone⟩ |
    ⟨w, block, now, results, pre, mid, post, hw, hevs, hbody, hpost, heq⟩
  · rw [heq]
    exact Or.inl ⟨hnone, rfl⟩
  · rw [heq]
    refine Or.inr ⟨w, block, now, results, pre, mid, post, hw, hevs, hbody, hpost, ?_⟩
    rw [PoolSnapshot.poolCount_fromEntries, List.map_map]
    rfl

section

attribute [local instance] RustDecimal.reference

/-- The status after one tick. -/
theorem status_wethTick : ∃ (s : ServiceState Unit FakePool) (entry : ChainId → ChainStatus),
    status (s.api wethDeployment) = [entry ⟨"ethereum"⟩] ∧
    ReportsLatest wethDeployment.worker (syncEvents wethTick) ⟨"ethereum"⟩
      (entry ⟨"ethereum"⟩) := by
  obtain ⟨s, -, -, hrun, -⟩ := runs_wethTick
  obtain ⟨entry, hstatus, hlatest⟩ := status_latest wethDeployment decimalCodec wethTick s hrun
  exact ⟨s, entry, hstatus, hlatest _ List.mem_cons_self⟩

end

end ArbRouter
