import ArbRouter.Primitives.Asset

/-!
# Paths and opportunities

* `Path.canonicalKey` — the key under which opportunities are deduplicated
* `Opportunity` — a priced path with the times it was detected and synced at
-/

namespace ArbRouter

open Infra

/-! ## Pools and blocks -/

structure PoolId where
  asStr : String
deriving DecidableEq

structure ExchangeId where
  asStr : String
deriving DecidableEq

/-- Where a pool was discovered. -/
structure PoolKey where
  exchange : ExchangeId
  chain : ChainId
  address : String
  assets : List AssetId
  feeBps : Option UInt32
deriving DecidableEq

/-- A block to read at. -/
inductive BlockId where
  | latest
  | number (n : UInt64)
deriving DecidableEq

/-! ## Paths -/

structure Hop where
  pool : PoolId
  pair : Pair
deriving DecidableEq

structure Path where
  start : AssetId
  hops : List Hop
deriving DecidableEq

namespace Path

def destination (p : Path) : AssetId := (p.hops.getLast?.map (·.pair.destination)).getD p.start

def isCycle (p : Path) : Bool := p.destination = p.start

/-- The pool ids along the path. -/
def ids (p : Path) : List String := p.hops.map (·.pool.asStr)

/-- The index of the lexicographically smallest id, the first one of several. -/
def minIdx (ids : List String) : Nat :=
  ((List.range ids.length).argmin fun i => ids.getD i "").getD 0

/-- The pool ids joined by `->`; those of a cycle start at the smallest. -/
def canonicalKey (p : Path) : String :=
  if p.hops = [] then ""
  else if p.isCycle then
    String.intercalate "->" (p.ids.drop (minIdx p.ids) ++ p.ids.take (minIdx p.ids))
  else String.intercalate "->" p.ids

/-- A path of one hop has its pool id as key, in both directions. -/
theorem canonicalKey_singleton (start : AssetId) (h : Hop) :
    (Path.mk start [h]).canonicalKey = h.pool.asStr := by
  have hmin : minIdx [h.pool.asStr] = 0 := rfl
  unfold canonicalKey
  simp [ids, hmin]

end Path

/-! ## Opportunities -/

/-- One approval a transaction requires before it can pull its input. -/
structure ExecutionApproval where
  token : String
  spender : String
  minAllowance : String
deriving DecidableEq

/-- One sign-ready transaction. -/
structure ExecutionTx where
  toAddr : String
  data : String
  value : String
  approval : Option ExecutionApproval
deriving DecidableEq

/-- The transactions that capture an opportunity, in order. -/
structure ExecutionPlan where
  atomic : Bool
  transactions : List ExecutionTx
deriving DecidableEq

structure Opportunity where
  chain : ChainId
  path : Path
  input : Amount
  output : Amount
  profitUsd : Option Usd
  roiBps : UInt32
  detectedAt : OffsetDateTime
  worstPoolSyncedAt : OffsetDateTime
  execution : Option ExecutionPlan
deriving DecidableEq

end ArbRouter
