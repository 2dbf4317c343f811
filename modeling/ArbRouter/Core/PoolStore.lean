import ArbRouter.Infra.HashMap
import ArbRouter.Primitives.Opportunity

/-!
# Pools and snapshots

The `Pool` port and the immutable view of all pools of a chain (`core/deps/pool_store.rs`).

* `PoolSnapshot` — two indexes built from one list of entries
* `mem_poolsFrom_fromEntries`, `poolsFrom_fromEntries` — what the asset index holds
* `of_get_fromEntries`, `exists_get_fromEntries` — what the id index holds
* `PoolSnapshot.exists_get` — a pool found through an asset can be resolved by its id
-/

namespace ArbRouter

open Infra

/-- The `Pool` port. -/
class Pool (P : Type) where
  id : P → PoolId
  assets : P → List AssetId
  quote : P → Pair → Amount → Option Amount

/-- The block a pool's state was read at, and when. -/
structure PoolMeta where
  syncedBlock : UInt64
  syncedAt : OffsetDateTime
deriving DecidableEq

/-- A pool with the freshness of its state. -/
structure PoolEntry (P : Type) where
  pool : P
  poolMeta : PoolMeta
deriving DecidableEq

variable {P : Type} [Pool P]

def PoolEntry.id (e : PoolEntry P) : PoolId := Pool.id e.pool

def PoolEntry.assets (e : PoolEntry P) : List AssetId := Pool.assets e.pool

/-- A block-consistent view of the pools of one chain. Both indexes are over one list of entries. -/
structure PoolSnapshot (P : Type) [Pool P] where
  block : UInt64
  takenAt : OffsetDateTime
  byAsset : HashMap AssetId (List (PoolEntry P))
  byId : HashMap PoolId (PoolEntry P)
  indexed : ∃ entries : List (PoolEntry P),
    byAsset = HashMap.indexBy PoolEntry.assets entries ∧ byId = HashMap.lastBy PoolEntry.id entries

namespace PoolSnapshot

/-- `PoolSnapshot::from_entries`. -/
def fromEntries (block : UInt64) (takenAt : OffsetDateTime) (entries : List (PoolEntry P)) :
    PoolSnapshot P where
  block := block
  takenAt := takenAt
  byAsset := HashMap.indexBy PoolEntry.assets entries
  byId := HashMap.lastBy PoolEntry.id entries
  indexed := ⟨entries, rfl, rfl⟩

/-- Every snapshot comes from a list of entries. -/
theorem exists_fromEntries (snap : PoolSnapshot P) :
    ∃ entries, snap = fromEntries snap.block snap.takenAt entries := by
  obtain ⟨block, takenAt, byAsset, byId, entries, rfl, rfl⟩ := snap
  exact ⟨entries, rfl⟩

/-- The entries of the pools that list `asset`. -/
def poolsFrom (snap : PoolSnapshot P) (asset : AssetId) : List (PoolEntry P) :=
  (snap.byAsset.lookup asset).getD []

/-- The entry of a pool id. -/
def get (snap : PoolSnapshot P) (id : PoolId) : Option (PoolEntry P) := snap.byId.lookup id

/-- The assets touched by at least one pool. -/
def assets (snap : PoolSnapshot P) : List AssetId := snap.byAsset.keys

/-- The number of distinct pool ids. -/
def poolCount (snap : PoolSnapshot P) : Nat := snap.byId.entries.length

/-! ## The asset index -/

variable {block : UInt64} {takenAt : OffsetDateTime} {entries : List (PoolEntry P)}

/-- An entry is listed under an asset as often as its pool lists the asset. -/
theorem poolsFrom_fromEntries (asset : AssetId) :
    (fromEntries block takenAt entries).poolsFrom asset
      = entries.flatMap fun e => List.replicate (e.assets.count asset) e :=
  HashMap.getD_lookup_indexBy PoolEntry.assets entries asset

theorem mem_poolsFrom_fromEntries {asset : AssetId} {e : PoolEntry P} :
    e ∈ (fromEntries block takenAt entries).poolsFrom asset ↔ e ∈ entries ∧ asset ∈ e.assets :=
  HashMap.mem_getD_lookup_indexBy

/-- If no pool lists an asset twice, the index filters the entries. -/
theorem poolsFrom_eq_filter (h : ∀ e ∈ entries, e.assets.Nodup) (asset : AssetId) :
    (fromEntries block takenAt entries).poolsFrom asset
      = entries.filter fun e => asset ∈ e.assets := by
  rw [poolsFrom_fromEntries]
  induction entries with
  | nil => rfl
  | cons e rest ih =>
    rw [List.flatMap_cons, ih fun e' he' => h e' (List.mem_cons_of_mem _ he')]
    by_cases hmem : asset ∈ e.assets
    · rw [List.filter_cons_of_pos (by simpa using hmem),
        List.count_eq_one_of_mem (h e List.mem_cons_self) hmem]
      rfl
    · rw [List.filter_cons_of_neg (by simpa using hmem), List.count_eq_zero_of_not_mem hmem]
      rfl

/-! ## The id index -/

theorem of_get_fromEntries {id : PoolId} {e : PoolEntry P}
    (h : (fromEntries block takenAt entries).get id = some e) : e ∈ entries ∧ e.id = id :=
  HashMap.of_lookup_lastBy h

theorem exists_get_fromEntries {e : PoolEntry P} (h : e ∈ entries) :
    ∃ e', (fromEntries block takenAt entries).get e.id = some e' :=
  HashMap.exists_lookup_lastBy h

/-- A pool reached through an asset can be resolved by its id. -/
theorem exists_get (snap : PoolSnapshot P) {asset : AssetId} {e : PoolEntry P}
    (h : e ∈ snap.poolsFrom asset) : ∃ e', snap.get e.id = some e' := by
  obtain ⟨entries, hs⟩ := snap.exists_fromEntries
  rw [hs] at h ⊢
  exact exists_get_fromEntries (mem_poolsFrom_fromEntries.mp h).1

end PoolSnapshot

end ArbRouter
