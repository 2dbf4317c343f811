import ArbRouter.Adapters.Notifier

/-!
# The HTTP API

The handlers of `adapters/api/mod.rs`: what `/v1/opportunities` and `/v1/status` answer.
-/

namespace ArbRouter

open Infra RustDecimal

/-- Whole seconds since the epoch, rounded down. -/
def OffsetDateTime.unixTimestamp (t : OffsetDateTime) : Int := t / 10 ^ 9

/-- Everything the handlers read from. -/
structure ApiState (P : Type) [Pool P] where
  memory : MemoryNotifier
  store : ChainId → PoolSnapshot P
  chains : List ChainId

/-! ## Opportunities -/

/-- `?chain=` restricts to one chain; `?min_roi_bps=` filters weaker opportunities. -/
structure OpportunityQuery where
  chain : Option String
  minRoiBps : Option UInt32

/-- Flat view of an `Opportunity`. -/
structure OpportunityView where
  chain : String
  path : String
  input : String
  output : String
  profitUsd : Option String
  roiBps : UInt32
  detectedAt : Int
  worstPoolSyncedAt : Int
  execution : Option ExecutionPlan
deriving DecidableEq

variable [RustDecimal]

def OpportunityView.ofOpportunity (opp : Opportunity) : OpportunityView where
  chain := opp.chain.asStr
  path := opp.path.canonicalKey
  input := toStr opp.input.val
  output := toStr opp.output.val
  profitUsd := opp.profitUsd.map fun p => toStr p.val
  roiBps := opp.roiBps
  detectedAt := OffsetDateTime.unixTimestamp opp.detectedAt
  worstPoolSyncedAt := OffsetDateTime.unixTimestamp opp.worstPoolSyncedAt
  execution := opp.execution

omit [RustDecimal] in
/-- The opportunities of the response, before they are turned into views. -/
def MemoryNotifier.answer (order : IterOrder (List Opportunity)) (memory : MemoryNotifier)
    (query : OpportunityQuery) : List Opportunity :=
  let opps := match query.chain with
    | some chain => memory.get ⟨chain⟩
    | none => memory.all order
  opps.filter fun opp => query.minRoiBps.getD 0 ≤ opp.roiBps

omit [RustDecimal] in
/-- What is answered is held for a chain that was asked for, and has the return asked for. -/
theorem MemoryNotifier.of_mem_answer {order : IterOrder (List Opportunity)}
    {memory : MemoryNotifier} {query : OpportunityQuery} {opp : Opportunity}
    (h : opp ∈ memory.answer order query) :
    query.minRoiBps.getD 0 ≤ opp.roiBps ∧
      ∃ chain : ChainId, opp ∈ memory.get chain ∧ ∀ c, query.chain = some c → chain = ⟨c⟩ := by
  unfold answer at h
  obtain ⟨hopp, hroi⟩ := List.mem_filter.mp h
  refine ⟨by simpa using hroi, ?_⟩
  cases hchain : query.chain with
  | some c =>
    rw [hchain] at hopp
    exact ⟨⟨c⟩, hopp, fun c' hc => by rw [Option.some.inj hc]⟩
  | none =>
    rw [hchain] at hopp
    obtain ⟨chain, hmem⟩ := mem_all.mp hopp
    exact ⟨chain, hmem, fun c hc => by cases hc⟩

variable {P : Type} [Pool P]

/-- `opportunities`. -/
def opportunities (order : IterOrder (List Opportunity)) (state : ApiState P)
    (query : OpportunityQuery) : List OpportunityView :=
  (state.memory.answer order query).map OpportunityView.ofOpportunity

/-- What is held for a chain is answered when no more than the chain is asked for. -/
theorem mem_opportunities {state : ApiState P} {c : String} {opp : Opportunity}
    (h : opp ∈ state.memory.get ⟨c⟩) (order : IterOrder (List Opportunity)) :
    OpportunityView.ofOpportunity opp ∈ opportunities order state ⟨some c, none⟩ := by
  refine List.mem_map_of_mem (List.mem_filter.mpr ⟨h, ?_⟩)
  simp

/-! ## Status -/

structure ChainStatus where
  chain : String
  poolCount : Nat
  block : UInt64
  syncedAt : Int
deriving DecidableEq

/-- `status`. -/
def status (state : ApiState P) : List ChainStatus :=
  state.chains.map fun chain =>
    let snapshot := state.store chain
    ⟨chain.asStr, snapshot.poolCount, snapshot.block, OffsetDateTime.unixTimestamp snapshot.takenAt⟩

end ArbRouter
