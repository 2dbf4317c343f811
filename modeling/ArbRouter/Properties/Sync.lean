import ArbRouter.Adapters.PoolStore
import ArbRouter.Core.TestUtils
import ArbRouter.Infra.DecimalReference

/-!
# Snapshots are block-consistent

In every run of any number of workers over one store, a chain's snapshot is the initial empty one
or was built by a single tick of a worker of that chain, out of what the exchanges returned in it.

* `TickInv` — the local state of a worker against the events since it pinned its block
* `SyncInv` — what holds after every run, with `SyncInv.step` for one event
* `snapshots_block_consistent` — the consequences for the snapshots served
-/

namespace ArbRouter

open Infra

variable {P W : Type}

/-! ## The events of a tick -/

/-- The refresh of the worker's `i`-th supporting exchange ends with this result. -/
def Completed (w : W) (i : Nat) (result : Except ExchangeError (List P)) (ev : SyncEvent W P) :
    Prop :=
  (∃ keys block, ev = .refreshed w i keys block result) ∨
    ∃ chain tokens err, ev = .discovered w i chain tokens (.error err) ∧ result = .error err

/-- The event starts or ends a tick of the worker. -/
def Boundary (w : W) (ev : SyncEvent W P) : Prop :=
  (∃ err, ev = .latestBlockFailed w err) ∨ (∃ block now, ev = .pinned w block now) ∨
    ev = .published w

/-- The event reads pools of the worker at another block. -/
def OffBlock (w : W) (block : UInt64) (ev : SyncEvent W P) : Prop :=
  ∃ i keys b result, ev = .refreshed w i keys b result ∧ b ≠ .number block

theorem Completed.worker_eq {w : W} {i : Nat} {result : Except ExchangeError (List P)}
    {ev : SyncEvent W P} (h : Completed w i result ev) : ev.worker = w := by
  obtain ⟨keys, block, rfl⟩ | ⟨chain, tokens, err, rfl, -⟩ := h <;> rfl

theorem Boundary.worker_eq {w : W} {ev : SyncEvent W P} (h : Boundary w ev) : ev.worker = w := by
  obtain ⟨err, rfl⟩ | ⟨block, now, rfl⟩ | rfl := h <;> rfl

theorem OffBlock.worker_eq {w : W} {block : UInt64} {ev : SyncEvent W P} (h : OffBlock w block ev) :
    ev.worker = w := by
  obtain ⟨i, keys, b, result, rfl, -⟩ := h
  rfl

/-- The local state of a tick is what its events amount to. -/
structure TickInv (w : W) (block : UInt64) (refreshes : List (Refresh P))
    (mid : List (SyncEvent W P)) : Prop where
  completed : ∀ i result, (∃ ev ∈ mid, Completed w i result ev) ↔
    refreshes[i]? = some (.finished result)
  within : ∀ ev ∈ mid, ¬ Boundary w ev
  atBlock : ∀ ev ∈ mid, ¬ OffBlock w block ev

/-- After pinning, nothing has completed. -/
theorem TickInv.start (w : W) (block : UInt64) (exchanges : List Exchange) :
    TickInv w block (exchanges.map fun _ => (.discovering : Refresh P)) [] where
  completed := by
    intro i result
    constructor
    · rintro ⟨ev, hev, -⟩
      exact absurd hev List.not_mem_nil
    · intro h
      rw [List.getElem?_map, Option.map_eq_some_iff] at h
      obtain ⟨_, _, h⟩ := h
      simp at h
  within := fun ev hev => absurd hev List.not_mem_nil
  atBlock := fun ev hev => absurd hev List.not_mem_nil

section

variable {w : W} {block : UInt64} {refreshes : List (Refresh P)} {mid : List (SyncEvent W P)}
  {ev : SyncEvent W P}

theorem exists_mem_snoc {E : Type} {Q : E → Prop} {l : List E} {e : E} :
    (∃ x ∈ l ++ [e], Q x) ↔ (∃ x ∈ l, Q x) ∨ Q e := by
  simp only [List.mem_append, List.mem_singleton, or_and_right, exists_or, exists_eq_left]

/-- One more event inside the tick, after which the local state says what has completed. -/
theorem TickInv.snoc (h : TickInv w block refreshes mid) {refreshes' : List (Refresh P)}
    (hb : ¬ Boundary w ev) (ho : ¬ OffBlock w block ev)
    (hc : ∀ i result, refreshes'[i]? = some (.finished result) ↔
      refreshes[i]? = some (.finished result) ∨ Completed w i result ev) :
    TickInv w block refreshes' (mid ++ [ev]) where
  completed := by
    intro i result
    rw [exists_mem_snoc, h.completed, hc]
  within := by
    intro e he
    rcases List.mem_append.mp he with he | he
    · exact h.within e he
    · rwa [List.mem_singleton.mp he]
  atBlock := by
    intro e he
    rcases List.mem_append.mp he with he | he
    · exact h.atBlock e he
    · rwa [List.mem_singleton.mp he]

/-- Events of other workers do not belong to the tick. -/
theorem TickInv.other (h : TickInv w block refreshes mid) (hev : ev.worker ≠ w) :
    TickInv w block refreshes (mid ++ [ev]) := by
  refine h.snoc (fun hb => hev hb.worker_eq) (fun ho => hev ho.worker_eq) fun i result => ?_
  constructor
  · exact Or.inl
  · rintro (hi | hc)
    · exact hi
    · exact absurd hc.worker_eq hev

/-- The exchange whose call completes had not finished; the others stay where they were. -/
theorem getElem?_set_finished {i : Nat} {old new : Refresh P} (hi : refreshes[i]? = some old)
    (hold : ∀ result, old ≠ .finished result) (j : Nat) (result : Except ExchangeError (List P)) :
    (refreshes.set i new)[j]? = some (.finished result) ↔
      refreshes[j]? = some (.finished result) ∨ (j = i ∧ new = .finished result) := by
  by_cases hij : i = j
  · subst hij
    have hlt : i < refreshes.length := (List.getElem?_eq_some_iff.mp hi).1
    rw [List.getElem?_set_self hlt, hi, Option.some.injEq, Option.some.injEq]
    constructor
    · exact fun h => Or.inr ⟨rfl, h⟩
    · rintro (h | ⟨-, h⟩)
      · exact absurd h (hold result)
      · exact h
  · rw [List.getElem?_set_ne hij]
    constructor
    · exact Or.inl
    · rintro (h | ⟨h, -⟩)
      · exact h
      · exact absurd h.symm hij

/-- `discover` completes: its exchange fails or goes on to refresh. -/
theorem TickInv.discovered (h : TickInv w block refreshes mid) {i : Nat} (chain : ChainId)
    (tokens : List AssetId) (result : Except ExchangeError (List PoolKey))
    (hi : refreshes[i]? = some .discovering) :
    TickInv w block (refreshes.set i (Refresh.afterDiscover result))
      (mid ++ [.discovered w i chain tokens result]) := by
  refine h.snoc ?_ ?_ fun j res => ?_
  · rintro (⟨err, hb⟩ | ⟨b, now, hb⟩ | hb) <;> cases hb
  · rintro ⟨j, keys, b, res, ho, -⟩
    cases ho
  · rw [getElem?_set_finished hi (by simp)]
    refine or_congr_right ?_
    constructor
    · rintro ⟨rfl, hres⟩
      cases result with
      -- pool keys are handed to `refresh`, which has yet to complete
      | ok keys => cases hres
      | error err =>
        cases hres
        exact Or.inr ⟨chain, tokens, err, rfl, rfl⟩
    · rintro (⟨keys, b, hc⟩ | ⟨chain', tokens', err, hc, rfl⟩)
      · cases hc
      · cases hc
        exact ⟨rfl, rfl⟩

/-- `refresh` completes, at the pinned block. -/
theorem TickInv.refreshed (h : TickInv w block refreshes mid) {i : Nat} {keys : List PoolKey}
    (result : Except ExchangeError (List P)) (hi : refreshes[i]? = some (.refreshing keys)) :
    TickInv w block (refreshes.set i (.finished result))
      (mid ++ [.refreshed w i keys (.number block) result]) := by
  refine h.snoc ?_ ?_ fun j res => ?_
  · rintro (⟨err, hb⟩ | ⟨b, now, hb⟩ | hb) <;> cases hb
  · rintro ⟨j, keys', b, res, ho, hne⟩
    cases ho
    exact hne rfl
  · rw [getElem?_set_finished hi (by simp)]
    refine or_congr_right ?_
    constructor
    · rintro ⟨rfl, hres⟩
      cases hres
      exact Or.inl ⟨keys, _, rfl⟩
    · rintro (⟨keys', b, hc⟩ | ⟨chain, tokens, err, hc, -⟩)
      · cases hc
        exact ⟨rfl, rfl⟩
      · cases hc

end

/-! ## Published snapshots -/

variable [Pool P]

/-- The pools of the exchanges that succeeded, in the order of the exchanges. -/
def poolsOf (results : List (Except ExchangeError (List P))) : List P :=
  results.flatMap fun
    | .ok pools => pools
    | .error _ => []

omit [Pool P] in
theorem entriesOf_finished (block : UInt64) (now : OffsetDateTime)
    (results : List (Except ExchangeError (List P))) :
    entriesOf block now (results.map .finished)
      = (poolsOf results).map fun pool => ⟨pool, ⟨block, now⟩⟩ := by
  unfold entriesOf poolsOf
  rw [List.flatMap_map, List.map_flatMap]
  refine List.flatMap_congr fun result _ => ?_
  cases result <;> rfl

omit [Pool P] in
theorem exists_results {refreshes : List (Refresh P)}
    (h : ∀ r ∈ refreshes, ∃ result, r = .finished result) :
    ∃ results : List (Except ExchangeError (List P)), refreshes = results.map .finished := by
  have hrange : refreshes ∈ Set.range (List.map (Refresh.finished (P := P))) := by
    rw [Set.range_list_map]
    intro r hr
    obtain ⟨result, rfl⟩ := h r hr
    exact ⟨result, rfl⟩
  obtain ⟨results, hresults⟩ := hrange
  exact ⟨results, hresults.symm⟩

/--
In the run, `w` pinned `block` at `now`, got these results from its supporting exchanges, all of
them read at that block, and published. No other tick of the worker starts or ends in between.
-/
def TickOf (workers : W → SyncWorker) (evs : List (SyncEvent W P)) (w : W) (block : UInt64)
    (now : OffsetDateTime) (results : List (Except ExchangeError (List P))) : Prop :=
  ∃ pre mid post, evs = pre ++ .pinned w block now :: (mid ++ .published w :: post) ∧
    (∀ ev ∈ mid, ¬ Boundary w ev ∧ ¬ OffBlock w block ev) ∧
    results.length = (workers w).supporting.length ∧
    ∀ i result, results[i]? = some result ↔ ∃ ev ∈ mid, Completed w i result ev

/-- The snapshot is the one a tick of a worker of the chain assembled. -/
def Published (workers : W → SyncWorker) (evs : List (SyncEvent W P)) (chain : ChainId)
    (snap : PoolSnapshot P) : Prop :=
  ∃ w block now results, (workers w).chain = chain ∧ TickOf workers evs w block now results ∧
    snap = PoolSnapshot.fromEntries block now
      ((poolsOf results).map fun pool => ⟨pool, ⟨block, now⟩⟩)

section

variable {workers : W → SyncWorker} {evs : List (SyncEvent W P)}

/-- A tick that has happened stays in the run. -/
theorem Published.snoc {chain : ChainId} {snap : PoolSnapshot P}
    (h : Published workers evs chain snap) (ev : SyncEvent W P) :
    Published workers (evs ++ [ev]) chain snap := by
  obtain ⟨w, block, now, results, hw, ⟨pre, mid, post, rfl, hmid⟩, hsnap⟩ := h
  refine ⟨w, block, now, results, hw, ⟨pre, mid, post ++ [ev], ?_, hmid⟩, hsnap⟩
  simp only [List.append_assoc, List.cons_append]

/-- A tick whose exchanges have all finished, at the moment it publishes. -/
theorem TickInv.published {pre mid : List (SyncEvent W P)} {w : W} {block : UInt64}
    {now : OffsetDateTime} {refreshes : List (Refresh P)} (h : TickInv w block refreshes mid)
    (hlen : refreshes.length = (workers w).supporting.length)
    (hfin : ∀ r ∈ refreshes, ∃ result, r = .finished result) :
    Published workers (pre ++ .pinned w block now :: mid ++ [.published w]) (workers w).chain
      (PoolSnapshot.fromEntries block now (entriesOf block now refreshes)) := by
  obtain ⟨results, rfl⟩ := exists_results hfin
  refine ⟨w, block, now, results, rfl, ⟨pre, mid, [], by simp, ?_, ?_, ?_⟩, ?_⟩
  · exact fun ev hev => ⟨h.within ev hev, h.atBlock ev hev⟩
  · rwa [List.length_map] at hlen
  · intro i result
    rw [h.completed, List.getElem?_map, Option.map_eq_some_iff]
    constructor
    · intro hi
      exact ⟨result, hi, rfl⟩
    · rintro ⟨result', hi, heq⟩
      cases heq
      exact hi
  · rw [entriesOf_finished]

end

/-! ## Every run -/

variable [DecidableEq W]

/-- What holds of the workers and the store after the events `evs`. -/
structure SyncInv (workers : W → SyncWorker) (chains : List ChainId) (evs : List (SyncEvent W P))
    (s : SyncState W P) : Prop where
  syncing : ∀ w block now refreshes, s.phase w = .syncing block now refreshes →
    refreshes.length = (workers w).supporting.length ∧
      ∃ pre mid, evs = pre ++ .pinned w block now :: mid ∧ TickInv w block refreshes mid
  published : ∀ chain, s.store.snapshot chain = emptySnapshot ∨
    Published workers evs chain (s.store.snapshot chain)
  registered : ∀ chain, s.store.Registered chain ↔ chain ∈ chains

section

variable {workers : W → SyncWorker} {s s' : SyncState W P} {ev : SyncEvent W P}

theorem SyncState.setPhase_phase_self (s : SyncState W P) (w : W) (phase : Phase P) :
    (s.setPhase w phase).phase w = phase := Function.update_self ..

theorem SyncState.setPhase_phase_of_ne (s : SyncState W P) {w w' : W} (h : w' ≠ w)
    (phase : Phase P) : (s.setPhase w phase).phase w' = s.phase w' := Function.update_of_ne h ..

/-- A step moves only the worker whose call completes. -/
theorem SyncStep.phase_of_ne (h : SyncStep workers s ev s') {w : W} (hw : ev.worker ≠ w) :
    s'.phase w = s.phase w := by
  cases h with
  | latestBlockFailed err hp => rfl
  | pinned block now hp => exact s.setPhase_phase_of_ne (Ne.symm hw) _
  | discovered result hp hi => exact s.setPhase_phase_of_ne (Ne.symm hw) _
  | refreshed result hp hi => exact s.setPhase_phase_of_ne (Ne.symm hw) _
  | published hp hfin => exact s.setPhase_phase_of_ne (Ne.symm hw) _

/-- **What a step does to the store:** nothing, or it publishes a tick that has finished. -/
theorem SyncStep.store_cases (h : SyncStep workers s ev s') :
    s'.store = s.store ∨ ∃ w block now refreshes, ev = .published w ∧
      s.phase w = .syncing block now refreshes ∧
      (∀ r ∈ refreshes, ∃ result, r = .finished result) ∧
      s'.store = s.store.store (workers w).chain
        (PoolSnapshot.fromEntries block now (entriesOf block now refreshes)) := by
  cases h with
  | latestBlockFailed err hp => exact Or.inl rfl
  | pinned block now hp => exact Or.inl rfl
  | discovered result hp hi => exact Or.inl rfl
  | refreshed result hp hi => exact Or.inl rfl
  | published hp hfin => exact Or.inr ⟨_, _, _, _, rfl, hp, hfin, rfl⟩

/-- A tick never changes the snapshot of another chain. -/
theorem SyncStep.snapshot_of_ne (h : SyncStep workers s ev s') {chain : ChainId}
    (hchain : chain ≠ (workers ev.worker).chain) :
    s'.store.snapshot chain = s.store.snapshot chain := by
  obtain hstore | ⟨w, block, now, refreshes, rfl, -, -, hstore⟩ := h.store_cases
  · rw [hstore]
  · rw [hstore]
    exact s.store.snapshot_store_of_ne hchain _

/-- Steps register no chain. -/
theorem SyncStep.registered_iff (h : SyncStep workers s ev s') (chain : ChainId) :
    s'.store.Registered chain ↔ s.store.Registered chain := by
  obtain hstore | ⟨w, block, now, refreshes, -, -, -, hstore⟩ := h.store_cases
  · rw [hstore]
  · rw [hstore]
    exact s.store.registered_store _ chain _

omit [DecidableEq W] in
theorem SyncInv.init (workers : W → SyncWorker) (chains : List ChainId) :
    SyncInv workers chains [] (SyncState.init chains : SyncState W P) where
  syncing := by
    intro w block now refreshes h
    cases h
  published := fun chain => Or.inl (ArcSwapPoolStore.snapshot_new chains chain)
  registered := ArcSwapPoolStore.registered_new chains

/-- A step keeps the ticks of the other workers as they are. -/
theorem SyncInv.syncing_of_ne {chains : List ChainId} {evs : List (SyncEvent W P)}
    (h : SyncInv workers chains evs s) (hs : SyncStep workers s ev s') {w : W}
    (hw : ev.worker ≠ w) {block : UInt64} {now : OffsetDateTime} {refreshes : List (Refresh P)}
    (hp : s'.phase w = .syncing block now refreshes) :
    refreshes.length = (workers w).supporting.length ∧
      ∃ pre mid, evs ++ [ev] = pre ++ .pinned w block now :: mid ∧
        TickInv w block refreshes mid := by
  rw [hs.phase_of_ne hw] at hp
  obtain ⟨hlen, pre, mid, rfl, hmid⟩ := h.syncing w block now refreshes hp
  exact ⟨hlen, pre, mid ++ [ev], List.append_assoc _ _ _, hmid.other hw⟩

/-- A step moves the tick of the worker whose call completes. -/
theorem SyncInv.syncing_self {chains : List ChainId} {evs : List (SyncEvent W P)}
    (h : SyncInv workers chains evs s) (hs : SyncStep workers s ev s') {block : UInt64}
    {now : OffsetDateTime} {refreshes : List (Refresh P)}
    (hp : s'.phase ev.worker = .syncing block now refreshes) :
    refreshes.length = (workers ev.worker).supporting.length ∧
      ∃ pre mid, evs ++ [ev] = pre ++ .pinned ev.worker block now :: mid ∧
        TickInv ev.worker block refreshes mid := by
  cases hs with
  | latestBlockFailed err hidle => cases hidle.symm.trans hp
  | @pinned w block' now' hidle =>
    -- the tick starts here: what happened before belongs to `pre`
    cases (s.setPhase_phase_self w _).symm.trans hp
    exact ⟨List.length_map _, evs, [], rfl, TickInv.start w block (workers w).supporting⟩
  | @discovered w block' now' old i result hold hi =>
    cases (s.setPhase_phase_self w _).symm.trans hp
    obtain ⟨hlen, pre, mid, rfl, hmid⟩ := h.syncing w block now old hold
    exact ⟨List.length_set.trans hlen, pre, _, List.append_assoc _ _ _,
      hmid.discovered _ _ result hi⟩
  | @refreshed w block' now' old i keys result hold hi =>
    cases (s.setPhase_phase_self w _).symm.trans hp
    obtain ⟨hlen, pre, mid, rfl, hmid⟩ := h.syncing w block now old hold
    exact ⟨List.length_set.trans hlen, pre, _, List.append_assoc _ _ _, hmid.refreshed result hi⟩
  | @published w block' now' old hold hfin =>
    cases (s.setPhase_phase_self w _).symm.trans hp

/-- After a step a chain's snapshot is the one it had, or the one a tick just assembled. -/
theorem SyncInv.published_step {chains : List ChainId} {evs : List (SyncEvent W P)}
    (h : SyncInv workers chains evs s) (hs : SyncStep workers s ev s') (chain : ChainId) :
    s'.store.snapshot chain = s.store.snapshot chain ∨
      Published workers (evs ++ [ev]) chain (s'.store.snapshot chain) := by
  obtain hstore | ⟨w, block, now, refreshes, rfl, hp, hfin, hstore⟩ := hs.store_cases
  · exact Or.inl (by rw [hstore])
  · rw [hstore]
    obtain ⟨hlen, pre, mid, rfl, hmid⟩ := h.syncing w block now refreshes hp
    by_cases hchain : chain = (workers w).chain
    · subst hchain
      by_cases hreg : s.store.Registered (workers w).chain
      · right
        rw [ArcSwapPoolStore.snapshot_store_self hreg]
        exact hmid.published hlen hfin
      · -- publishing for a chain that is not registered stores nothing
        left
        have hreg' := (s.store.registered_store (workers w).chain (workers w).chain
          (PoolSnapshot.fromEntries block now (entriesOf block now refreshes))).not.mpr hreg
        rw [ArcSwapPoolStore.snapshot_of_not_registered hreg]
        exact ArcSwapPoolStore.snapshot_of_not_registered hreg'
    · exact Or.inl (s.store.snapshot_store_of_ne hchain _)

/-- **One step keeps the invariant.** -/
theorem SyncInv.step {chains : List ChainId} {evs : List (SyncEvent W P)}
    (h : SyncInv workers chains evs s) (hs : SyncStep workers s ev s') :
    SyncInv workers chains (evs ++ [ev]) s' where
  syncing := by
    intro w block now refreshes hp
    by_cases hw : ev.worker = w
    · subst hw
      exact h.syncing_self hs hp
    · exact h.syncing_of_ne hs hw hp
  published := by
    intro chain
    rcases h.published_step hs chain with heq | hpub
    · rw [heq]
      rcases h.published chain with hempty | hpub
      · exact Or.inl hempty
      · exact Or.inr (hpub.snoc ev)
    · exact Or.inr hpub
  registered := fun chain => (hs.registered_iff chain).trans (h.registered chain)

/-- Every run keeps the invariant. -/
theorem SyncInv.run {chains : List ChainId} {evs : List (SyncEvent W P)}
    (h : Run (SyncStep workers) (SyncState.init chains) evs s) : SyncInv workers chains evs s :=
  h.invariant (SyncInv.init workers chains) SyncInv.step

/--
The snapshot holds exactly the pools that one tick of a worker of the chain got from its exchanges,
each under every asset it lists, and each stamped with the block and the time of the tick.
-/
def BuiltByTick (workers : W → SyncWorker) (evs : List (SyncEvent W P)) (chain : ChainId)
    (snap : PoolSnapshot P) : Prop :=
  ∃ w results, (workers w).chain = chain ∧ TickOf workers evs w snap.block snap.takenAt results ∧
    (∀ asset, snap.poolsFrom asset = (poolsOf results).flatMap fun pool =>
      List.replicate ((Pool.assets pool).count asset) ⟨pool, ⟨snap.block, snap.takenAt⟩⟩) ∧
    (∀ asset entry, entry ∈ snap.poolsFrom asset ↔
      entry.poolMeta = ⟨snap.block, snap.takenAt⟩ ∧ asset ∈ Pool.assets entry.pool ∧
        ∃ pools, Except.ok pools ∈ results ∧ entry.pool ∈ pools) ∧
    ∀ id entry, snap.get id = some entry →
      entry.poolMeta = ⟨snap.block, snap.takenAt⟩ ∧ Pool.id entry.pool = id ∧
        ∃ pools, Except.ok pools ∈ results ∧ entry.pool ∈ pools

omit [Pool P] in
theorem mem_poolsOf {results : List (Except ExchangeError (List P))} {pool : P} :
    pool ∈ poolsOf results ↔ ∃ pools, Except.ok pools ∈ results ∧ pool ∈ pools := by
  unfold poolsOf
  rw [List.mem_flatMap]
  constructor
  · rintro ⟨result, hresult, hpool⟩
    cases result with
    | error err => exact absurd hpool List.not_mem_nil
    | ok pools => exact ⟨pools, hresult, hpool⟩
  · rintro ⟨pools, hpools, hpool⟩
    exact ⟨.ok pools, hpools, hpool⟩

omit [DecidableEq W] in
theorem Published.builtByTick {evs : List (SyncEvent W P)} {chain : ChainId}
    {snap : PoolSnapshot P} (h : Published workers evs chain snap) :
    BuiltByTick workers evs chain snap := by
  obtain ⟨w, block, now, results, hw, htick, rfl⟩ := h
  have hmem : ∀ entry : PoolEntry P,
      entry ∈ (poolsOf results).map (fun pool => (⟨pool, ⟨block, now⟩⟩ : PoolEntry P)) ↔
        entry.poolMeta = ⟨block, now⟩ ∧
          ∃ pools, Except.ok pools ∈ results ∧ entry.pool ∈ pools := by
    rintro ⟨pool, stamp⟩
    rw [← mem_poolsOf, List.mem_map]
    constructor
    · rintro ⟨pool', hpool, heq⟩
      cases heq
      exact ⟨rfl, hpool⟩
    · rintro ⟨rfl, hpool⟩
      exact ⟨pool, hpool, rfl⟩
  refine ⟨w, results, hw, htick, ?_, ?_, ?_⟩
  · intro asset
    rw [PoolSnapshot.poolsFrom_fromEntries, List.flatMap_map]
    rfl
  · intro asset entry
    rw [PoolSnapshot.mem_poolsFrom_fromEntries, hmem]
    constructor
    · rintro ⟨⟨hmeta, hpools⟩, hasset⟩
      exact ⟨hmeta, hasset, hpools⟩
    · rintro ⟨hmeta, hasset, hpools⟩
      exact ⟨⟨hmeta, hpools⟩, hasset⟩
  · intro id entry hget
    obtain ⟨hentry, hid⟩ := PoolSnapshot.of_get_fromEntries hget
    obtain ⟨hmeta, hpools⟩ := (hmem entry).mp hentry
    exact ⟨hmeta, hid, hpools⟩

/--
**Snapshots are block-consistent:** after every run, a registered chain reads as empty or as built
by one tick of a worker of the chain, an unregistered chain reads as empty, and a step changes no
snapshot when it is a failure to pin a block, and none but that of its worker's chain.
-/
theorem snapshots_block_consistent (workers : W → SyncWorker) (chains : List ChainId)
    (evs : List (SyncEvent W P)) (s : SyncState W P)
    (hrun : Run (SyncStep workers) (SyncState.init chains) evs s) :
    (∀ chain ∈ chains, s.store.snapshot chain = emptySnapshot ∨
      BuiltByTick workers evs chain (s.store.snapshot chain)) ∧
    (∀ chain ∉ chains, s.store.snapshot chain = emptySnapshot) ∧
    (∀ w err s', SyncStep workers s (.latestBlockFailed w err) s' →
      ∀ chain, s'.store.snapshot chain = s.store.snapshot chain) ∧
    (∀ ev s', SyncStep workers s ev s' → ∀ chain ≠ (workers ev.worker).chain,
      s'.store.snapshot chain = s.store.snapshot chain) := by
  have hinv := SyncInv.run hrun
  refine ⟨?_, ?_, ?_, ?_⟩
  · intro chain _
    exact (hinv.published chain).imp_right Published.builtByTick
  · intro chain hchain
    exact ArcSwapPoolStore.snapshot_of_not_registered ((hinv.registered chain).not.mpr hchain)
  · intro w err s' hs chain
    cases hs
    rfl
  · intro ev s' hs chain hchain
    exact hs.snapshot_of_ne hchain

end

section

attribute [local instance] RustDecimal.reference

/-- A worker with two exchanges. -/
def twoExchangeWorker : Unit → SyncWorker := fun _ =>
  ⟨⟨"ethereum"⟩, [⟨⟨"univ3"⟩, fun _ => true⟩, ⟨⟨"curve"⟩, fun _ => true⟩], [assetA, assetB]⟩

def syncedPool : FakePool := ⟨⟨"p1"⟩, [assetA, assetB], Decimal.one⟩

/-- One tick, in which the second exchange fails. -/
def halfFailedTick : List (SyncEvent Unit FakePool) :=
  [.pinned () 12345 0,
    .discovered () 1 ⟨"ethereum"⟩ [assetA, assetB] (.error (.read "timeout")),
    .discovered () 0 ⟨"ethereum"⟩ [assetA, assetB] (.ok []),
    .refreshed () 0 [] (.number 12345) (.ok [syncedPool]),
    .published ()]

theorem builtByTick_halfFailedTick : ∃ s : SyncState Unit FakePool,
    BuiltByTick twoExchangeWorker halfFailedTick ⟨"ethereum"⟩ (s.store.snapshot ⟨"ethereum"⟩) ∧
      (s.store.snapshot ⟨"ethereum"⟩).poolsFrom assetA = [⟨syncedPool, ⟨12345, 0⟩⟩] := by
  obtain ⟨s, hrun, hpools, hblock⟩ : ∃ s : SyncState Unit FakePool,
      Run (SyncStep twoExchangeWorker) (SyncState.init [⟨"ethereum"⟩]) halfFailedTick s ∧
        (s.store.snapshot ⟨"ethereum"⟩).poolsFrom assetA = [⟨syncedPool, ⟨12345, 0⟩⟩] ∧
        (s.store.snapshot ⟨"ethereum"⟩).block = 12345 := by
    refine ⟨_, ((((Run.one (.pinned 12345 0 rfl)).snoc (.discovered (i := 1) _ rfl rfl)).snoc
      (.discovered (i := 0) _ rfl rfl)).snoc (.refreshed (i := 0) _ rfl rfl)).snoc
      (.published rfl ?_), ?_, ?_⟩
    · intro r hr
      fin_cases hr
      · exact ⟨_, rfl⟩
      · exact ⟨_, rfl⟩
    · decide +kernel
    · rfl
  obtain ⟨hregistered, -⟩ := snapshots_block_consistent _ _ _ s hrun
  rcases hregistered ⟨"ethereum"⟩ List.mem_cons_self with hempty | hbuilt
  · rw [hempty] at hblock
    cases hblock
  · exact ⟨s, hbuilt, hpools⟩

end

end ArbRouter
