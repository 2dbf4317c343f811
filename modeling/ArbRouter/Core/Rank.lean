import ArbRouter.Infra.BestByKey
import ArbRouter.Primitives.Opportunity

/-!
# Deduplication and ranking

`core/application/evaluation/rank.rs`: one opportunity per canonical key, best score first.
-/

namespace ArbRouter

open Infra

/-- Higher is better; dollars are compared by value, no price is below every price. -/
def scoreOf (profitUsd : Option Usd) (roiBps : UInt32) : WithBot ℚ ×ₗ ℕ :=
  toLex (profitUsd.map (·.val.toRat), roiBps.toNat)

/-- `score`. -/
def score (opp : Opportunity) : WithBot ℚ ×ₗ ℕ := scoreOf opp.profitUsd opp.roiBps

/-- `rank_and_dedup`. The order in which the map hands out its values is arbitrary. -/
def rankAndDedup (order : IterOrder Opportunity) (opps : List Opportunity) : List Opportunity :=
  HashMap.rankBy order (fun opp => opp.path.canonicalKey) score opps

theorem mem_of_mem_rankAndDedup {order : IterOrder Opportunity} {opps : List Opportunity}
    {opp : Opportunity} (h : opp ∈ rankAndDedup order opps) : opp ∈ opps :=
  (HashMap.of_mem_rankBy h).1

/-- Every opportunity is represented by one of the same key and at least the same score. -/
theorem exists_mem_rankAndDedup (order : IterOrder Opportunity) {opps : List Opportunity}
    {opp : Opportunity} (h : opp ∈ opps) : ∃ best ∈ rankAndDedup order opps,
      best.path.canonicalKey = opp.path.canonicalKey ∧ score opp ≤ score best :=
  HashMap.exists_mem_rankBy order h

theorem pairwise_rankAndDedup (order : IterOrder Opportunity) (opps : List Opportunity) :
    (rankAndDedup order opps).Pairwise fun a b => score b ≤ score a :=
  HashMap.pairwise_rankBy order opps

theorem nodup_keys_rankAndDedup (order : IterOrder Opportunity) (opps : List Opportunity) :
    ((rankAndDedup order opps).map fun opp => opp.path.canonicalKey).Nodup :=
  HashMap.nodup_map_key_rankBy order opps

/-- Ranked opportunities of one key are one opportunity. -/
theorem eq_of_mem_rankAndDedup {order : IterOrder Opportunity} {opps : List Opportunity}
    {a b : Opportunity} (ha : a ∈ rankAndDedup order opps) (hb : b ∈ rankAndDedup order opps)
    (h : a.path.canonicalKey = b.path.canonicalKey) : a = b :=
  List.inj_on_of_nodup_map (nodup_keys_rankAndDedup order opps) ha hb h

end ArbRouter
