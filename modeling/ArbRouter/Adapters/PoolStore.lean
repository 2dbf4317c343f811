import ArbRouter.Core.PoolStore
import ArbRouter.Infra.Transition

/-!
# The snapshot store and the sync workers

`adapters/pool_store/mod.rs`: one atomically swapped snapshot per registered chain, and workers
that pin a block, discover and refresh the pools of every supporting exchange at it, and publish.

A worker awaits its reader once and each exchange twice, so the ticks of several workers interleave
at these points. `SyncStep` has one constructor per point, with an arbitrary outcome of the call
that completes there; a worker's `Phase` holds the local variables of its tick.
-/

namespace ArbRouter

open Infra

variable {P : Type} [Pool P]

/-! ## The store -/

/-- `empty_snapshot`, served for chains that have not synced yet. -/
def emptySnapshot : PoolSnapshot P := PoolSnapshot.fromEntries 0 OffsetDateTime.unixEpoch []

/-- One swappable snapshot per registered chain. -/
structure ArcSwapPoolStore (P : Type) [Pool P] where
  snapshots : HashMap ChainId (PoolSnapshot P)

namespace ArcSwapPoolStore

/-- `ArcSwapPoolStore::new`: every registered chain starts empty. -/
def new (chains : List ChainId) : ArcSwapPoolStore P :=
  ⟨chains.foldl (fun m chain => m.insert chain emptySnapshot) ∅⟩

/-- `store`: a no-op for unregistered chains. -/
def store (st : ArcSwapPoolStore P) (chain : ChainId) (snapshot : PoolSnapshot P) :
    ArcSwapPoolStore P :=
  match st.snapshots.lookup chain with
  | some _ => ⟨st.snapshots.insert chain snapshot⟩
  | none => st

/-- `PoolStore::snapshot`. -/
def snapshot (st : ArcSwapPoolStore P) (chain : ChainId) : PoolSnapshot P :=
  match st.snapshots.lookup chain with
  | some snapshot => snapshot
  | none => emptySnapshot

/-- The chain has a slot. -/
def Registered (st : ArcSwapPoolStore P) (chain : ChainId) : Prop :=
  ∃ snapshot, st.snapshots.lookup chain = some snapshot

theorem snapshot_of_not_registered {st : ArcSwapPoolStore P} {chain : ChainId}
    (h : ¬ st.Registered chain) : st.snapshot chain = emptySnapshot := by
  unfold snapshot
  cases hlook : st.snapshots.lookup chain with
  | none => rfl
  | some snap => exact absurd ⟨snap, hlook⟩ h

theorem snapshot_store_of_ne (st : ArcSwapPoolStore P) {chain chain' : ChainId}
    (h : chain' ≠ chain) (snap : PoolSnapshot P) :
    (st.store chain snap).snapshot chain' = st.snapshot chain' := by
  unfold store
  cases st.snapshots.lookup chain with
  | none => rfl
  | some old =>
    show (match (st.snapshots.insert chain snap).lookup chain' with
      | some snapshot => snapshot
      | none => emptySnapshot) = _
    rw [AList.lookup_insert_ne h]
    rfl

theorem snapshot_store_self {st : ArcSwapPoolStore P} {chain : ChainId} (h : st.Registered chain)
    (snap : PoolSnapshot P) : (st.store chain snap).snapshot chain = snap := by
  obtain ⟨old, hold⟩ := h
  unfold store
  rw [hold]
  show (match (st.snapshots.insert chain snap).lookup chain with
    | some snapshot => snapshot
    | none => emptySnapshot) = _
  rw [AList.lookup_insert]

/-- Publishing registers nothing and forgets nothing. -/
theorem registered_store (st : ArcSwapPoolStore P) (chain chain' : ChainId)
    (snap : PoolSnapshot P) : (st.store chain snap).Registered chain' ↔ st.Registered chain' := by
  unfold store
  cases hlook : st.snapshots.lookup chain with
  | none => exact Iff.rfl
  | some old =>
    unfold Registered
    by_cases h : chain' = chain
    · subst h
      rw [AList.lookup_insert, hlook]
      exact ⟨fun _ => ⟨old, rfl⟩, fun _ => ⟨snap, rfl⟩⟩
    · rw [AList.lookup_insert_ne h]

theorem lookup_new (chains : List ChainId) (chain : ChainId) :
    (new chains : ArcSwapPoolStore P).snapshots.lookup chain
      = if chain ∈ chains then some emptySnapshot else none := by
  unfold new
  rw [HashMap.lookup_foldl_insert (fun c => c) fun _ => emptySnapshot, AList.lookup_empty,
    Option.or_none]
  by_cases h : chain ∈ chains
  · obtain ⟨c, hc⟩ : ∃ c, chains.reverse.find? (fun c => decide (c = chain)) = some c := by
      rw [← Option.isSome_iff_exists, List.find?_isSome]
      exact ⟨chain, List.mem_reverse.mpr h, by simp⟩
    rw [hc, if_pos h]
    rfl
  · rw [if_neg h, List.find?_eq_none.mpr]
    · rfl
    · intro c hc
      simpa using fun he : c = chain => h (he ▸ List.mem_reverse.mp hc)

theorem registered_new (chains : List ChainId) (chain : ChainId) :
    (new chains : ArcSwapPoolStore P).Registered chain ↔ chain ∈ chains := by
  unfold Registered
  rw [lookup_new]
  by_cases h : chain ∈ chains <;> simp [h]

theorem snapshot_new (chains : List ChainId) (chain : ChainId) :
    (new chains : ArcSwapPoolStore P).snapshot chain = emptySnapshot := by
  unfold snapshot
  rw [lookup_new]
  by_cases h : chain ∈ chains <;> simp [h]

end ArcSwapPoolStore

/-! ## The workers -/

inductive ChainReadError where
  | transport (msg : String)
  | internal (msg : String)
deriving DecidableEq

inductive ExchangeError where
  | read (msg : String)
  | decode (msg : String)
  | internal (msg : String)
deriving DecidableEq

/-- What a tick asks an exchange without awaiting it. -/
structure Exchange where
  id : ExchangeId
  supports : ChainId → Bool

structure SyncWorker where
  chain : ChainId
  exchanges : List Exchange
  trackedTokens : List AssetId

/-- The exchanges a tick refreshes, in order. -/
def SyncWorker.supporting (worker : SyncWorker) : List Exchange :=
  worker.exchanges.filter fun exchange => exchange.supports worker.chain

/-- How far `refresh_exchange` got for one exchange. -/
inductive Refresh (P : Type) where
  | discovering
  | refreshing (keys : List PoolKey)
  | finished (result : Except ExchangeError (List P))

/-- Where `refresh_exchange` goes after `discover`. -/
def Refresh.afterDiscover : Except ExchangeError (List PoolKey) → Refresh P
  | .ok keys => .refreshing keys
  | .error err => .finished (.error err)

/-- Where a worker is in `refresh_once`. -/
inductive Phase (P : Type) where
  | idle
  | syncing (block : UInt64) (now : OffsetDateTime) (refreshes : List (Refresh P))

/-- The entries of the exchanges that succeeded, stamped with the block and time of the tick. -/
def entriesOf (block : UInt64) (now : OffsetDateTime) (refreshes : List (Refresh P)) :
    List (PoolEntry P) :=
  refreshes.flatMap fun
    | .finished (.ok pools) => pools.map fun pool => ⟨pool, ⟨block, now⟩⟩
    | _ => []

/-- A call that completes, with its arguments and its outcome. -/
inductive SyncEvent (W P : Type) where
  | latestBlockFailed (w : W) (err : ChainReadError)
  | pinned (w : W) (block : UInt64) (now : OffsetDateTime)
  | discovered (w : W) (i : Nat) (chain : ChainId) (tokens : List AssetId)
      (result : Except ExchangeError (List PoolKey))
  | refreshed (w : W) (i : Nat) (keys : List PoolKey) (block : BlockId)
      (result : Except ExchangeError (List P))
  | published (w : W)

/-- The worker whose call completes. -/
def SyncEvent.worker {W P : Type} : SyncEvent W P → W
  | .latestBlockFailed w _ => w
  | .pinned w _ _ => w
  | .discovered w _ _ _ _ => w
  | .refreshed w _ _ _ _ => w
  | .published w => w

/-- The shared store and the local state of every worker. -/
structure SyncState (W P : Type) [Pool P] where
  store : ArcSwapPoolStore P
  phase : W → Phase P

variable {W : Type} [DecidableEq W]

def SyncState.setPhase (s : SyncState W P) (w : W) (phase : Phase P) : SyncState W P :=
  { s with phase := Function.update s.phase w phase }

/-- All workers idle over a fresh store. -/
def SyncState.init (chains : List ChainId) : SyncState W P :=
  ⟨ArcSwapPoolStore.new chains, fun _ => .idle⟩

/-- One point of some worker's `refresh_once`. -/
inductive SyncStep (workers : W → SyncWorker) : SyncState W P → SyncEvent W P → SyncState W P → Prop
  | latestBlockFailed {s : SyncState W P} {w : W} (err : ChainReadError) :
      s.phase w = .idle → SyncStep workers s (.latestBlockFailed w err) s
  | pinned {s : SyncState W P} {w : W} (block : UInt64) (now : OffsetDateTime) :
      s.phase w = .idle →
      SyncStep workers s (.pinned w block now)
        (s.setPhase w (.syncing block now ((workers w).supporting.map fun _ => .discovering)))
  | discovered {s : SyncState W P} {w : W} {block : UInt64} {now : OffsetDateTime}
      {refreshes : List (Refresh P)} {i : Nat} (result : Except ExchangeError (List PoolKey)) :
      s.phase w = .syncing block now refreshes → refreshes[i]? = some .discovering →
      SyncStep workers s
        (.discovered w i (workers w).chain (workers w).trackedTokens result)
        (s.setPhase w (.syncing block now (refreshes.set i (Refresh.afterDiscover result))))
  | refreshed {s : SyncState W P} {w : W} {block : UInt64} {now : OffsetDateTime}
      {refreshes : List (Refresh P)} {i : Nat} {keys : List PoolKey}
      (result : Except ExchangeError (List P)) :
      s.phase w = .syncing block now refreshes → refreshes[i]? = some (.refreshing keys) →
      SyncStep workers s (.refreshed w i keys (.number block) result)
        (s.setPhase w (.syncing block now (refreshes.set i (.finished result))))
  | published {s : SyncState W P} {w : W} {block : UInt64} {now : OffsetDateTime}
      {refreshes : List (Refresh P)} :
      s.phase w = .syncing block now refreshes →
      (∀ r ∈ refreshes, ∃ result, r = .finished result) →
      SyncStep workers s (.published w)
        { s.setPhase w .idle with
          store := s.store.store (workers w).chain
            (PoolSnapshot.fromEntries block now (entriesOf block now refreshes)) }

end ArbRouter
