import ArbRouter.Adapters.Api
import ArbRouter.Core.TestUtils
import ArbRouter.Infra.DecimalReference

/-!
# What the API serves

After any history of notifications the API shows exactly the latest opportunities of the selected
chains. They are best first within a chain, and across chains only where all scores agree: the
memory hands out its chains in the order of a hash map.

* `NotifyCall.Ranked` — the calls a scanner makes, `ranked_scanRanked`
* `answer_perm` — the opportunities shown, each once
* `answer_sorted_iff` — when they are shown best first
* `opportunities_current_iff` — both
-/

namespace ArbRouter

open Infra RustDecimal

variable {ω : Type}

/-! ## Ranked calls -/

/-- The call passes an output of `rank_and_dedup` for its chain, with calldata attached. -/
def NotifyCall.Ranked (call : NotifyCall ω) : Prop :=
  ∃ (order : IterOrder Opportunity) (opps : List Opportunity)
    (plan : Opportunity → Option ExecutionPlan),
    (∀ opp ∈ opps, opp.chain = call.chain) ∧
      call.opps = (rankAndDedup order opps).map fun opp => { opp with execution := plan opp }

/-- A list of opportunities of one chain, best first and each once. -/
structure RankedList (chain : ChainId) (opps : List Opportunity) : Prop where
  sorted : opps.Pairwise fun a b => score b ≤ score a
  nodup : opps.Nodup
  ofChain : ∀ opp ∈ opps, opp.chain = chain

theorem RankedList.nil (chain : ChainId) : RankedList chain [] where
  sorted := List.Pairwise.nil
  nodup := List.nodup_nil
  ofChain := fun _ h => absurd h List.not_mem_nil

theorem NotifyCall.Ranked.rankedList {call : NotifyCall ω} (h : call.Ranked) :
    RankedList call.chain call.opps := by
  obtain ⟨order, opps, plan, hchain, heq⟩ := h
  rw [heq]
  refine ⟨?_, ?_, ?_⟩
  · rw [List.pairwise_map]
    exact pairwise_rankAndDedup order opps
  · refine List.Nodup.of_map (fun opp => opp.path.canonicalKey) ?_
    rw [List.map_map]
    exact nodup_keys_rankAndDedup order opps
  · intro opp hopp
    obtain ⟨base, hbase, rfl⟩ := List.mem_map.mp hopp
    exact hchain base (mem_of_mem_rankAndDedup hbase)

/-- What a scanner notifies is ranked. -/
theorem ranked_scanRanked {σ ν P : Type} [Pool P] [RustDecimal] {sc : Scanner σ ν P}
    {order : IterOrder Opportunity} {now : OffsetDateTime} {s s' : σ} {ranked : List Opportunity}
    (h : (sc.scanRanked order now).run s = .ok (ranked, s'))
    (others : Option (List (Notifier ω) × List (Notifier ω))) :
    (NotifyCall.mk others sc.chain ranked).Ranked := by
  obtain ⟨opps, plan, hranked, heval⟩ := Scanner.scanRanked_ok h
  refine ⟨order, opps, plan, ?_, hranked⟩
  intro opp hopp
  obtain ⟨path, -, s₁, s₂, hrun⟩ := heval opp hopp
  obtain ⟨-, input, output, profitUsd, roiBps, s₃, -, -, -, -, rfl⟩ := Scanner.evaluate_some hrun
  rfl

/-! ## The opportunities shown -/

/-- The chains a query asks for: the one it names, or all that were notified. -/
def selectedChains (calls : List (NotifyCall ω)) (query : OpportunityQuery) : List ChainId :=
  match query.chain with
  | some chain => [⟨chain⟩]
  | none => (calls.map NotifyCall.chain).dedup

/-- The latest opportunities of a chain with at least the return asked for. -/
def shownOf (calls : List (NotifyCall ω)) (query : OpportunityQuery) (chain : ChainId) :
    List Opportunity :=
  (latestOf calls chain).filter fun opp => query.minRoiBps.getD 0 ≤ opp.roiBps

section

variable {calls : List (NotifyCall ω)}

theorem rankedList_latestOf (hranked : ∀ call ∈ calls, call.Ranked) (chain : ChainId) :
    RankedList chain (latestOf calls chain) := by
  unfold latestOf
  cases hfind : calls.reverse.find? fun call => call.chain = chain with
  | none => exact RankedList.nil chain
  | some call =>
    obtain rfl : call.chain = chain := by simpa using List.find?_some hfind
    exact (hranked call (List.mem_reverse.mp (List.mem_of_find?_eq_some hfind))).rankedList

theorem rankedList_shownOf (hranked : ∀ call ∈ calls, call.Ranked) (query : OpportunityQuery)
    (chain : ChainId) : RankedList chain (shownOf calls query chain) where
  sorted := (rankedList_latestOf hranked chain).sorted.filter _
  nodup := (rankedList_latestOf hranked chain).nodup.filter _
  ofChain := fun opp h => (rankedList_latestOf hranked chain).ofChain opp (List.mem_filter.mp h).1

variable (calls) (w : ω)

/-- The values of the memory are the latest opportunities of its chains. -/
theorem values_runCalls :
    (runCalls calls (MemoryNotifier.new, w)).1.latest.values
      = (runCalls calls (MemoryNotifier.new, w)).1.latest.keys.map (latestOf calls) := by
  rw [HashMap.values_eq_map_keys _ []]
  exact List.map_congr_left fun chain _ => get_runCalls calls w chain

theorem keys_runCalls_perm :
    (runCalls calls (MemoryNotifier.new, w)).1.latest.keys.Perm
      (calls.map NotifyCall.chain).dedup := by
  refine (List.perm_ext_iff_of_nodup (AList.keys_nodup _) (List.nodup_dedup _)).mpr fun chain => ?_
  rw [mem_keys_runCalls, List.mem_dedup, List.mem_map]

/-- **The answer consists of the opportunities of the selected chains**, in some order. -/
theorem answer_perm (order : IterOrder (List Opportunity)) (query : OpportunityQuery) :
    ((runCalls calls (MemoryNotifier.new, w)).1.answer order query).Perm
      ((selectedChains calls query).flatMap (shownOf calls query)) := by
  unfold MemoryNotifier.answer selectedChains
  cases query.chain with
  | some chain =>
    simp only [List.flatMap_singleton]
    rw [get_runCalls]
    exact List.Perm.refl _
  | none =>
    simp only
    unfold MemoryNotifier.all
    rw [List.filter_flatten, ← List.flatMap_def]
    refine ((order.perm _).flatMap_right _).trans ?_
    rw [values_runCalls, List.flatMap_map]
    exact (keys_runCalls_perm calls w).flatMap_right (shownOf calls query)

variable {calls}

theorem nodup_selectedChains (query : OpportunityQuery) : (selectedChains calls query).Nodup := by
  unfold selectedChains
  cases query.chain with
  | some chain => exact List.nodup_singleton _
  | none => exact List.nodup_dedup _

/-- No opportunity is shown twice. -/
theorem answer_nodup (hranked : ∀ call ∈ calls, call.Ranked)
    (order : IterOrder (List Opportunity)) (query : OpportunityQuery) :
    ((runCalls calls (MemoryNotifier.new, w)).1.answer order query).Nodup := by
  refine (answer_perm calls w order query).nodup_iff.mpr (List.nodup_flatMap.mpr ⟨?_, ?_⟩)
  · exact fun chain _ => (rankedList_shownOf hranked query chain).nodup
  · refine (nodup_selectedChains query).imp fun {c d} hne => ?_
    -- an opportunity belongs to one chain
    intro opp hc hd
    exact hne (((rankedList_shownOf hranked query c).ofChain opp hc).symm.trans
      ((rankedList_shownOf hranked query d).ofChain opp hd))

/-! ## The order of the answer -/

/-- Concatenated in every order, the lists of several chains are sorted only if scores agree. -/
theorem flatten_sorted_iff {lists : List (List Opportunity)} {p : Opportunity → Bool}
    (hsorted : ∀ l ∈ lists, l.Pairwise fun a b => score b ≤ score a) :
    (∀ order : IterOrder (List Opportunity),
      ((order.run lists).flatten.filter p).Pairwise fun a b => score b ≤ score a) ↔
      lists.Pairwise fun l l' => ∀ a ∈ l.filter p, ∀ b ∈ l'.filter p, score a = score b := by
  simp only [List.pairwise_filter]
  rw [IterOrder.pairwise_flatten_iff]
  constructor
  · rintro ⟨-, hacross⟩
    refine hacross.imp fun h a ha b hb => ?_
    obtain ⟨ha, hpa⟩ := List.mem_filter.mp ha
    obtain ⟨hb, hpb⟩ := List.mem_filter.mp hb
    exact le_antisymm ((h a ha b hb).2 hpb hpa) ((h a ha b hb).1 hpa hpb)
  · intro hequal
    refine ⟨fun l hl => (hsorted l hl).imp fun h _ _ => h, hequal.imp fun h a ha b hb => ?_⟩
    constructor
    · intro hpa hpb
      exact (h a (List.mem_filter.mpr ⟨ha, hpa⟩) b (List.mem_filter.mpr ⟨hb, hpb⟩)).ge
    · intro hpb hpa
      exact (h a (List.mem_filter.mpr ⟨ha, hpa⟩) b (List.mem_filter.mpr ⟨hb, hpb⟩)).le

/-- **The answer is best first in every iteration order** exactly when the opportunities of
different selected chains have one score. -/
theorem answer_sorted_iff (hranked : ∀ call ∈ calls, call.Ranked) (query : OpportunityQuery) :
    (∀ order, ((runCalls calls (MemoryNotifier.new, w)).1.answer order query).Pairwise
      fun a b => score b ≤ score a) ↔
    ∀ c ∈ selectedChains calls query, ∀ d ∈ selectedChains calls query, c ≠ d →
      ∀ a ∈ shownOf calls query c, ∀ b ∈ shownOf calls query d, score a = score b := by
  unfold MemoryNotifier.answer selectedChains
  -- a query that names a chain sees one list, which is sorted
  cases query.chain with
  | some chain =>
    simp only
    refine ⟨fun _ c hc d hd hne => ?_, fun _ _ => ?_⟩
    · exact absurd ((List.mem_singleton.mp hc).trans (List.mem_singleton.mp hd).symm) hne
    · rw [get_runCalls]
      exact (rankedList_shownOf hranked query _).sorted
  | none =>
    simp only
    unfold MemoryNotifier.all
    rw [flatten_sorted_iff, HashMap.pairwise_values_iff (d := [])]
    · have hlatest : ∀ chain,
          ((runCalls calls (MemoryNotifier.new, w)).1.latest.lookup chain).getD []
          = latestOf calls chain := get_runCalls calls w
      simp only [hlatest, (keys_runCalls_perm calls w).mem_iff]
      exact Iff.rfl
    · exact fun h a ha b hb => (h b hb a ha).symm
    · rw [values_runCalls]
      intro l hl
      obtain ⟨chain, -, rfl⟩ := List.mem_map.mp hl
      exact (rankedList_latestOf hranked chain).sorted

/--
**Served opportunities are the current ones, ranked within a chain.** The response consists of views
of the latest opportunities of each selected chain with the return asked for, each once; and they
are ordered best first, whatever the iteration order, if and only if the opportunities shown for
different chains have one score.
-/
theorem opportunities_current_iff {P : Type} [Pool P] [RustDecimal] (calls : List (NotifyCall ω))
    (w : ω) (hranked : ∀ call ∈ calls, call.Ranked) (store : ChainId → PoolSnapshot P)
    (chains : List ChainId) (query : OpportunityQuery) :
    (∀ order, opportunities order ⟨(runCalls calls (MemoryNotifier.new, w)).1, store, chains⟩ query
        = ((runCalls calls (MemoryNotifier.new, w)).1.answer order query).map
            OpportunityView.ofOpportunity ∧
      ((runCalls calls (MemoryNotifier.new, w)).1.answer order query).Perm
        ((selectedChains calls query).flatMap (shownOf calls query)) ∧
      ((runCalls calls (MemoryNotifier.new, w)).1.answer order query).Nodup) ∧
    ((∀ order, ((runCalls calls (MemoryNotifier.new, w)).1.answer order query).Pairwise
        fun a b => score b ≤ score a) ↔
      ∀ c ∈ selectedChains calls query, ∀ d ∈ selectedChains calls query, c ≠ d →
        ∀ a ∈ shownOf calls query c, ∀ b ∈ shownOf calls query d, score a = score b) :=
  ⟨fun order => ⟨rfl, answer_perm calls w order query, answer_nodup w hranked order query⟩,
    answer_sorted_iff w hranked query⟩

end

section

attribute [local instance] RustDecimal.reference

/-- An opportunity with nothing but a chain and a profit in whole dollars. -/
def profitOf (chain : ChainId) (dollars : UInt64) : Opportunity where
  chain := chain
  path := ⟨assetA, [⟨⟨"p1"⟩, ⟨assetA, assetB⟩⟩]⟩
  input := ⟨Decimal.ofUInt64 1⟩
  output := ⟨Decimal.ofUInt64 2⟩
  profitUsd := some ⟨Decimal.ofUInt64 dollars⟩
  roiBps := 0
  detectedAt := 0
  worstPoolSyncedAt := 0
  execution := none

/-- Two chains notify one opportunity each, the second through a composite with the log. -/
def twoChainCalls : List (NotifyCall (List LogEvent)) :=
  [⟨none, ⟨"base"⟩, [profitOf ⟨"base"⟩ 1]⟩,
    ⟨some ([LogNotifier], []), ⟨"ethereum"⟩, [profitOf ⟨"ethereum"⟩ 2]⟩]

/-- A single opportunity is ranked. -/
theorem ranked_singleton (others : Option (List (Notifier ω) × List (Notifier ω)))
    (opp : Opportunity) : (NotifyCall.mk others opp.chain [opp]).Ranked := by
  refine ⟨IterOrder.stored _, [opp], fun _ => opp.execution, ?_, rfl⟩
  intro o ho
  rw [List.mem_singleton.mp ho]

theorem ranked_twoChainCalls : ∀ call ∈ twoChainCalls, call.Ranked := by
  intro call hcall
  fin_cases hcall
  · exact ranked_singleton none (profitOf ⟨"base"⟩ 1)
  · exact ranked_singleton (some ([LogNotifier], [])) (profitOf ⟨"ethereum"⟩ 2)

/-- A query that names a chain is answered best first. -/
theorem sorted_twoChainCalls :
    ((runCalls twoChainCalls (MemoryNotifier.new, [])).1.answer (IterOrder.reversed _)
      ⟨some "ethereum", none⟩).Pairwise (fun a b => score b ≤ score a) ∧
    ((runCalls twoChainCalls (MemoryNotifier.new, [])).1.answer (IterOrder.reversed _)
      ⟨some "ethereum", none⟩).Nodup := by
  obtain ⟨hcontent, hsorted⟩ := opportunities_current_iff twoChainCalls [] ranked_twoChainCalls
    (fun _ => PoolSnapshot.fromEntries 0 0 ([] : List (PoolEntry FakePool))) []
    ⟨some "ethereum", none⟩
  refine ⟨hsorted.mpr (fun c hc d hd hne => ?_) _, (hcontent _).2.2⟩
  exact absurd ((List.mem_singleton.mp hc).trans (List.mem_singleton.mp hd).symm) hne

/-- In one iteration order the dollar of the one chain is served before the two of the other. -/
theorem opportunities_out_of_order : (∀ call ∈ twoChainCalls, call.Ranked) ∧ ∃ order,
    ((opportunities order ⟨(runCalls twoChainCalls (MemoryNotifier.new, [])).1,
        fun _ => PoolSnapshot.fromEntries 0 0 ([] : List (PoolEntry FakePool)), []⟩
        ⟨none, none⟩).map fun view => (view.chain, view.profitUsd))
      = [("base", some "1"), ("ethereum", some "2")] ∧
    ¬ ((runCalls twoChainCalls (MemoryNotifier.new, [])).1.answer order ⟨none, none⟩).Pairwise
      fun a b => score b ≤ score a :=
  ⟨ranked_twoChainCalls, IterOrder.reversed _, by decide +kernel, by decide +kernel⟩

end

end ArbRouter
