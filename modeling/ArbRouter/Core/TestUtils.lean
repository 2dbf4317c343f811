import ArbRouter.Core.Scanner

/-!
# In-memory ports

The ports of `test_utils.rs`, on which statements about fixed inputs are evaluated.
-/

namespace ArbRouter

open Infra

/-- A pool that quotes `amountIn × rate` between any two of its assets; overflow quotes nothing. -/
structure FakePool where
  id : PoolId
  assets : List AssetId
  rate : Decimal
deriving DecidableEq

instance [RustDecimal] : Pool FakePool where
  id := FakePool.id
  assets := FakePool.assets
  quote p pair amountIn :=
    if pair.source ∈ p.assets ∧ pair.destination ∈ p.assets ∧ pair.source ≠ pair.destination then
      (RustDecimal.checkedMul amountIn.val p.rate).map Amount.mk
    else none

/-- An entry synced at `syncedAt`, at block 1. -/
def fakeEntry (id : String) (assets : List AssetId) (rate : Decimal) (syncedAt : OffsetDateTime) :
    PoolEntry FakePool :=
  ⟨⟨⟨id⟩, assets, rate⟩, ⟨1, syncedAt⟩⟩

def assetA : AssetId := ⟨"ethereum:a", by decide⟩

def assetB : AssetId := ⟨"ethereum:b", by decide⟩

def assetC : AssetId := ⟨"ethereum:c", by decide⟩

/-- `FakeValuation`: a fixed price table. -/
def fakeValuation {σ : Type} (table : PriceTable) : Valuation σ where
  price asset s :=
    match table asset with
    | some p => (.ok p, s)
    | none => (.error (.notFound asset.asStr), s)

theorem fakeValuation_stable {σ : Type} (table : PriceTable) :
    (fakeValuation table : Valuation σ).Stable table := by
  intro asset s
  cases h : table asset <;> simp [fakeValuation, h, Except.toOption]

/-- `RecordingNotifier`: keeps every opportunity it is handed. -/
def recordingNotifier : Notifier (List Opportunity) where
  notify _ opps recorded := (.ok (), recorded ++ opps)

end ArbRouter
