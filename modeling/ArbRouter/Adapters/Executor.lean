import ArbRouter.Adapters.Exchanges
import ArbRouter.Core.Scanner

/-!
# The executor

`adapters/executor/amm_rpc.rs`: resolve the pools of an opportunity from the snapshot, translate
its tokens, and let `amm-rpc` plan the route.

The planning engine is not part of the verified sources; it is the parameter `AmmRpc`. A plan
yields finitely many transactions.

* `drive_eq_ok_iff` — driving a plan collects what it yields
* `AmmRpcExecutor.build_eq` — the one call of the engine that `build` makes
-/

namespace ArbRouter

open Infra RustDecimal

/-! ## The planning engine -/

inductive TradeType where
  | exactIn

inductive NativeEdge where
  | none

inductive ExactOutPolicy where
  | strict

/-- A route of pools over one token more. -/
structure Route where
  pools : List CorePool
  path : List CoreAssetId
  tradeType : TradeType

/-- What is read of an approval of `amm-rpc`. -/
structure PreparedApproval where
  token : CoreAssetId
  spender : Address
  minAllowance : U256

/-- What is read of a prepared transaction of `amm-rpc`. -/
structure PreparedSwap where
  toAddr : Address
  data : String
  value : U256
  approval : Option PreparedApproval
  minReceived : U256

/-- What is used of `amm_rpc::execution`. -/
class AmmRpc where
  ChainConfig : Type
  Options : Type
  Plan : Type
  /-- `resolve(ExecutionOptions::new(slippage).with_recipient(recipient), now, sender)` -/
  resolve : UInt16 → Address → Nat → Address → Options
  plan : ChainConfig → Route → U256 → Options → Address → NativeEdge → ExactOutPolicy →
    Except String Plan
  isAtomic : Plan → Bool
  nextTx : Plan → Option U256 → Except String (Option PreparedSwap × Plan)
  /-- The number of transactions a plan still yields at most. -/
  remaining : Plan → Nat
  remaining_nextTx : ∀ {p p' : Plan} {observed : Option U256} {prepared : PreparedSwap},
    nextTx p observed = .ok (some prepared, p') → remaining p' < remaining p

/-- `as_any().downcast_ref::<T>()`. -/
class AsAny (P T : Type) where
  downcastRef : P → Option T

instance [Alloy] : AsAny AmmCorePool AmmCorePool := ⟨some⟩

variable [Alloy] [AmmRpc]

/-- An executor sends from `sender`, which also receives the output. -/
structure AmmRpcExecutor where
  sender : Address
  chainCfg : AmmRpc.ChainConfig
  slippageBps : UInt16

/-! ## From an opportunity to a route -/

/-- `map_asset`. -/
def mapAsset (asset : String) : Except ExecutorError CoreAssetId :=
  match AssetId.new asset with
  | .error _ => .error (.assetMap asset)
  | .ok id =>
    match coreAsset id with
    | none => .error (.assetMap asset)
    | some core => .ok core

omit [AmmRpc] in
theorem mapAsset_asStr {asset : AssetId} {core : CoreAssetId} (h : coreAsset asset = some core) :
    mapAsset asset.asStr = .ok core := by
  simp only [mapAsset, AssetId.new_asStr, h]

section

variable {P : Type} [Pool P] [AsAny P AmmCorePool]

/-- The `amm-core` pool behind a hop. -/
def resolvePool (snapshot : PoolSnapshot P) (hop : Hop) : Except ExecutorError CorePool :=
  match snapshot.get hop.pool with
  | none => .error (.poolNotFound hop.pool.asStr)
  | some entry =>
    match (AsAny.downcastRef entry.pool : Option AmmCorePool) with
    | none => .error (.notExecutable hop.pool.asStr)
    | some pool => .ok pool.inner

variable [RustDecimal]

/-- The part of `build` before `execution::plan`: the route and the amount to plan. -/
def prepare (opp : Opportunity) (snapshot : PoolSnapshot P) :
    Except ExecutorError (Route × U256) := do
  let corePools ← opp.path.hops.mapM (resolvePool snapshot)
  let start ← mapAsset opp.path.start.asStr
  let destinations ← opp.path.hops.mapM fun hop => mapAsset hop.pair.destination.asStr
  let amount ← match amountToU256 opp.input with
    | some raw => .ok raw
    | none => .error .amount
  return (⟨corePools, start :: destinations, .exactIn⟩, amount)

end

/-! ## Planning and driving the plan -/

/-- `to_execution_tx`: addresses in lower case, numbers in decimal. -/
def toExecutionTx (p : PreparedSwap) : ExecutionTx where
  toAddr := Alloy.lowerHex p.toAddr
  data := p.data
  value := p.value.toNat.repr
  approval := p.approval.map fun a =>
    { token := Alloy.lowerHex (a.token.token.setWidth 160)
      spender := Alloy.lowerHex a.spender
      minAllowance := a.minAllowance.toNat.repr }

/-- The `next_tx` loop: each span's input is the floor of the previous one. -/
def drive : Nat → AmmRpc.Plan → Option U256 → Except ExecutorError (List ExecutionTx)
  | 0, _, _ => .ok []
  | fuel + 1, plan, observed =>
    match AmmRpc.nextTx plan observed with
    | .error e => .error (.build e)
    | .ok (none, _) => .ok []
    | .ok (some prepared, plan') =>
      (drive fuel plan' (some prepared.minReceived)).map (toExecutionTx prepared :: ·)

/--
The plan yields these transactions, each observed as the least that the one before it receives.
-/
inductive PlanYields : AmmRpc.Plan → Option U256 → List PreparedSwap → Prop
  | done {plan plan' : AmmRpc.Plan} {observed : Option U256} :
      AmmRpc.nextTx plan observed = .ok (none, plan') → PlanYields plan observed []
  | next {plan plan' : AmmRpc.Plan} {observed : Option U256} {prepared : PreparedSwap}
      {rest : List PreparedSwap} :
      AmmRpc.nextTx plan observed = .ok (some prepared, plan') →
      PlanYields plan' (some prepared.minReceived) rest →
      PlanYields plan observed (prepared :: rest)

/-- **Driving a plan** collects what it yields, with more fuel than it has transactions. -/
theorem drive_eq_ok_iff {fuel : Nat} {plan : AmmRpc.Plan} {observed : Option U256}
    {transactions : List ExecutionTx} (h : AmmRpc.remaining plan < fuel) :
    drive fuel plan observed = .ok transactions ↔
      ∃ swaps, PlanYields plan observed swaps ∧ transactions = swaps.map toExecutionTx := by
  induction fuel generalizing plan observed transactions with
  | zero => omega
  | succ fuel ih =>
    unfold drive
    cases hnext : AmmRpc.nextTx plan observed with
    | error err =>
      constructor
      · intro hok
        cases hok
      · rintro ⟨swaps, hyields, -⟩
        cases hyields with
        | done hdone => cases hnext.symm.trans hdone
        | next hstep _ => cases hnext.symm.trans hstep
    | ok r =>
      obtain ⟨_ | prepared, plan'⟩ := r
      · constructor
        · intro hok
          exact ⟨[], .done hnext, (Except.ok.inj hok).symm⟩
        · rintro ⟨swaps, hyields, rfl⟩
          cases hyields with
          | done _ => rfl
          | next hstep _ => cases hnext.symm.trans hstep
      · have hlt := AmmRpc.remaining_nextTx hnext
        dsimp only
        rw [map_eq_ok]
        constructor
        · rintro ⟨rest, hrest, rfl⟩
          obtain ⟨swaps, hyields, rfl⟩ := (ih (by omega)).mp hrest
          exact ⟨prepared :: swaps, .next hnext hyields, rfl⟩
        · rintro ⟨swaps, hyields, rfl⟩
          cases hyields with
          | done hdone => cases hnext.symm.trans hdone
          | next hstep hrest =>
            cases hnext.symm.trans hstep
            exact ⟨_, (ih (by omega)).mpr ⟨_, hrest, rfl⟩, rfl⟩

namespace AmmRpcExecutor

variable (exec : AmmRpcExecutor)

/-- Seconds since the epoch, 0 before it. -/
def unixSeconds (now : OffsetDateTime) : Nat := (now / 10 ^ 9).toNat

/-- The part of `build` from `execution::plan` on. -/
def execute (now : OffsetDateTime) (route : Route) (amount : U256) :
    Except ExecutorError ExecutionPlan := do
  let opts := AmmRpc.resolve exec.slippageBps exec.sender (unixSeconds now) exec.sender
  let plan ← (AmmRpc.plan exec.chainCfg route amount opts exec.sender .none .strict).mapError .build
  let transactions ← drive (AmmRpc.remaining plan + 1) plan none
  return ⟨AmmRpc.isAtomic plan, transactions⟩

variable {P : Type} [Pool P] [AsAny P AmmCorePool] [RustDecimal]

/-- `AmmRpcExecutor::build`. -/
def build (now : OffsetDateTime) (opp : Opportunity) (snapshot : PoolSnapshot P) :
    Except ExecutorError ExecutionPlan := do
  let (route, amount) ← prepare opp snapshot
  exec.execute now route amount

/-- The executor as a port, with what it reads off the clock for each opportunity. -/
def toExecutor (clock : Opportunity → OffsetDateTime) : Executor P :=
  ⟨fun opp => exec.build (clock opp) opp⟩

variable {exec} {now : OffsetDateTime} {opp : Opportunity} {snapshot : PoolSnapshot P}
  {route : Route} {amount : U256}

/--
**The call of the engine.** Once the route and the amount are prepared, `build` plans them, from and
to the sender, and drives the plan.
-/
theorem build_eq (h : prepare opp snapshot = .ok (route, amount)) :
    exec.build now opp snapshot
      = ((AmmRpc.plan exec.chainCfg route amount
          (AmmRpc.resolve exec.slippageBps exec.sender (unixSeconds now) exec.sender) exec.sender
          .none .strict).mapError .build).bind fun plan =>
        (drive (AmmRpc.remaining plan + 1) plan none).map fun transactions =>
          ⟨AmmRpc.isAtomic plan, transactions⟩ := by
  unfold build
  rw [h]
  rfl

/-- What `build` returns is what the plan of the engine yields. -/
theorem build_eq_ok_iff (h : prepare opp snapshot = .ok (route, amount)) {built : ExecutionPlan} :
    exec.build now opp snapshot = .ok built ↔ ∃ plan swaps,
      AmmRpc.plan exec.chainCfg route amount
        (AmmRpc.resolve exec.slippageBps exec.sender (unixSeconds now) exec.sender) exec.sender
        .none .strict = .ok plan ∧
      PlanYields plan none swaps ∧ built = ⟨AmmRpc.isAtomic plan, swaps.map toExecutionTx⟩ := by
  rw [build_eq h]
  constructor
  · intro hok
    obtain ⟨plan, hplan, hok⟩ := bind_eq_ok.mp hok
    obtain ⟨transactions, hdrive, rfl⟩ := map_eq_ok.mp hok
    obtain ⟨swaps, hyields, rfl⟩ := (drive_eq_ok_iff (Nat.lt_succ_self _)).mp hdrive
    exact ⟨plan, swaps, mapError_eq_ok.mp hplan, hyields, rfl⟩
  · rintro ⟨plan, swaps, hplan, hyields, rfl⟩
    refine bind_eq_ok.mpr ⟨plan, mapError_eq_ok.mpr hplan, ?_⟩
    exact map_eq_ok.mpr ⟨_, (drive_eq_ok_iff (Nat.lt_succ_self _)).mpr ⟨swaps, hyields, rfl⟩, rfl⟩

end AmmRpcExecutor

end ArbRouter
