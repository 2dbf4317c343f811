import ArbRouter.Properties.Service

/-!
# How much a scan finds, and how much is served

The beam and the rule that no path takes a pool twice bound the search; deduplication and the
replacement of a chain's set bound what the API answers, whatever has happened before.

* `findPaths_bounded` — the length of the paths, their number, and the depth that matters
* `Scanned.ranked` — what one scan hands over: best first, no key twice, and how many
* `served_bounded` — what the API answers for a chain
-/

namespace ArbRouter

open Infra

/-! ## The search -/

section

variable {P : Type} [Pool P]

/-- Every edge followed is through a pool of the id index. -/
theorem Graph.pool_mem_keys {g : Graph P} {current : AssetId} {used : List PoolId} {e : Edge}
    (h : e ∈ g.frontier current used) : e.pool ∈ g.snapshot.byId.keys := by
  obtain ⟨entry, hentry, hpool, -⟩ := Graph.mem_edgesFrom.mp (Graph.mem_of_mem_frontier h).1
  obtain ⟨entry', hget⟩ := g.snapshot.exists_get hentry
  rw [hpool, ← AList.mem_keys, ← AList.lookup_isSome, Option.isSome_iff_exists]
  exact ⟨entry', hget⟩

/-- A walk takes no more hops than there are pools. -/
theorem Graph.length_le_poolCount {g : Graph P} {start : AssetId} {es : List Edge}
    (h : g.search.IsWalk start [] es) : es.length ≤ g.snapshot.poolCount := by
  have hfresh : ∀ n used, ∀ e ∈ g.search.next n used, g.search.label e ∉ used :=
    fun n used e he => (Graph.mem_of_mem_frontier he).2
  have hlabels : ∀ n used, ∀ e ∈ g.search.next n used, g.search.label e ∈ g.snapshot.byId.keys :=
    fun n used e he => Graph.pool_mem_keys he
  have hle := Search.IsWalk.length_le g.search hfresh hlabels h
  rwa [AList.keys, List.keys, List.length_map] at hle

/-- Greater depths than the number of pools find the same paths in the same order. -/
theorem findPaths_min (g : Graph P) (start : AssetId) (maxHops : Nat) :
    findPaths g start maxHops = findPaths g start (min maxHops g.snapshot.poolCount) := by
  rcases Nat.le_total maxHops g.snapshot.poolCount with hle | hle
  · rw [Nat.min_eq_left hle]
  · rw [Nat.min_eq_right hle, findPaths_eq, findPaths_eq,
      g.search.walks_eq_of_le hle fun es hes => Graph.length_le_poolCount hes]

/-- The beam bounds the number of paths. -/
theorem length_findPaths_le (g : Graph P) (start : AssetId) (maxHops : Nat) :
    (findPaths g start maxHops).length ≤ Search.walkBound BEAM_WIDTH maxHops := by
  have hbeam : ∀ n used, (g.search.next n used).length ≤ BEAM_WIDTH :=
    fun n used => List.length_take_le _ _
  rw [findPaths_eq, List.length_map]
  exact g.search.length_walks_le hbeam maxHops start []

/--
**The search is bounded** on every snapshot: no path is longer than the number of pools, a depth
beyond that number changes nothing, and there are at most as many paths as words of that length
over `BEAM_WIDTH` letters.
-/
theorem findPaths_bounded (g : Graph P) (start : AssetId) (maxHops : Nat) :
    (∀ p ∈ findPaths g start maxHops, p.hops.length ≤ min maxHops g.snapshot.poolCount) ∧
    findPaths g start maxHops = findPaths g start (min maxHops g.snapshot.poolCount) ∧
    (findPaths g start maxHops).length
      ≤ Search.walkBound BEAM_WIDTH (min maxHops g.snapshot.poolCount) := by
  have hmin := findPaths_min g start maxHops
  refine ⟨?_, hmin, ?_⟩
  · intro p hp
    rw [hmin] at hp
    obtain ⟨es, -, hlen, -, rfl⟩ := mem_findPaths.mp hp
    rwa [List.length_map]
  · rw [hmin]
    exact length_findPaths_le g start _

end

/-! ## One scan -/

section

variable {W P F : Type} [Pool P] [RustDecimal]

/-- The most that a scan of the task over the snapshot can find. -/
def ScanTask.limit (task : ScanTask P) (snapshot : PoolSnapshot P) : Nat :=
  task.cfg.startAssets.length
    * Search.walkBound BEAM_WIDTH (min task.cfg.maxHops snapshot.poolCount)

/-- From each start asset there are only so many paths. -/
theorem ScanTask.length_paths_le (task : ScanTask P) (snapshot : PoolSnapshot P)
    (clock : Opportunity → OffsetDateTime) :
    ((task.scanner snapshot clock).paths snapshot).length ≤ task.limit snapshot := by
  refine Search.length_flatMap_le fun start _ => ?_
  rw [findPaths_min]
  exact length_findPaths_le ⟨snapshot⟩ start _

/-- Best score first, no key twice, and no more than a scan of the task can find. -/
structure Ranked (limit : Nat) (opps : List Opportunity) : Prop where
  sorted : opps.Pairwise fun a b => score b ≤ score a
  distinct : (opps.map fun opp => opp.path.canonicalKey).Nodup
  bounded : opps.length ≤ limit

omit [RustDecimal] in
/-- Leaving some out keeps the ranking. -/
theorem Ranked.filter {limit : Nat} {opps : List Opportunity} (h : Ranked limit opps)
    (p : Opportunity → Bool) : Ranked limit (opps.filter p) where
  sorted := h.sorted.filter p
  distinct := h.distinct.sublist (List.filter_sublist.map _)
  bounded := (List.length_filter_le _ _).trans h.bounded

/-- **A scan hands over a ranking** of no more than its paths. -/
theorem Scanned.ranked {task : ScanTask P} {snapshot : PoolSnapshot P} {now : OffsetDateTime}
    {before : PriceStore} {writes : List PriceWrite} {opps : List Opportunity}
    (h : Scanned task snapshot now before writes opps) : Ranked (task.limit snapshot) opps := by
  obtain ⟨order, clock, world, world', -, hrun⟩ := h
  obtain ⟨found, plan, rfl, hfound⟩ := Scanner.scanRanked_ok hrun
  -- attaching calldata changes neither keys nor scores
  have hdistinct := nodup_keys_rankAndDedup order found
  refine ⟨?_, ?_, ?_⟩
  · rw [List.pairwise_map]
    exact pairwise_rankAndDedup order found
  · rw [List.map_map]
    exact hdistinct
  · have hsub : (rankAndDedup order found).map (fun opp => opp.path.canonicalKey)
        ⊆ ((task.scanner snapshot clock).paths snapshot).map Path.canonicalKey := by
      intro key hkey
      obtain ⟨opp, hopp, rfl⟩ := List.mem_map.mp hkey
      obtain ⟨path, hpath, s₁, s₂, heval⟩ := hfound opp (mem_of_mem_rankAndDedup hopp)
      obtain ⟨-, input, output, profitUsd, roi, s₃, -, -, -, -, rfl⟩ := Scanner.evaluate_some heval
      exact List.mem_map_of_mem hpath
    have hle := (List.subperm_of_subset hdistinct hsub).length_le
    rw [List.length_map, List.length_map] at hle
    rw [List.length_map]
    exact hle.trans (task.length_paths_le snapshot clock)

/-! ## What the API answers -/

/-- What is answered for a chain is what a scan of the chain found, in its ranking. -/
def Answered (d : Deployment W P) (evs : List (ServiceEvent W P F)) (chain : ChainId)
    (answer : List Opportunity) : Prop :=
  ∃ w snapshot, (d.task w).chain = chain ∧ Snapshotted d evs chain snapshot ∧
    Ranked ((d.task w).limit snapshot) answer

variable [DecidableEq W] {d : Deployment W P} {codec : Codec F}

/-- The set held for a chain, without what the query leaves out. -/
theorem ServiceInv.answered {evs : List (ServiceEvent W P F)} {s : ServiceState W P}
    (h : ServiceInv d evs s) {chain : ChainId} {opps : List Opportunity}
    (hlook : s.sinks.1.latest.lookup chain = some opps) (p : Opportunity → Bool) :
    Answered d evs chain (opps.filter p) := by
  obtain ⟨w, snapshot, now, rfl, hhanded⟩ := h.memory chain opps hlook
  obtain ⟨before, writes, hscan⟩ := hhanded.scanned
  exact ⟨w, snapshot, rfl, hhanded.snapshotted, hscan.ranked.filter p⟩

/-- An answer is put together from the sets of different chains. -/
theorem ServiceInv.exists_answers {evs : List (ServiceEvent W P F)} {s : ServiceState W P}
    (h : ServiceInv d evs s) (order : IterOrder (List Opportunity)) (query : OpportunityQuery) :
    ∃ answers : List (ChainId × List Opportunity), (answers.map Prod.fst).Nodup ∧
      (∀ a ∈ answers, Answered d evs a.1 a.2 ∧ ∀ c, query.chain = some c → a.1 = ⟨c⟩) ∧
      s.sinks.1.answer order query = answers.flatMap Prod.snd := by
  unfold MemoryNotifier.answer
  generalize (fun opp : Opportunity => decide (query.minRoiBps.getD 0 ≤ opp.roiBps)) = p
  cases hchain : query.chain with
  | some c =>
    dsimp only
    unfold MemoryNotifier.get
    cases hlook : s.sinks.1.latest.lookup ⟨c⟩ with
    | none => exact ⟨[], List.nodup_nil, fun a ha => absurd ha List.not_mem_nil, by simp⟩
    | some opps =>
      refine ⟨[(⟨c⟩, opps.filter p)], List.nodup_singleton _, ?_, (List.flatMap_singleton _ _).symm⟩
      intro a ha
      obtain rfl := List.mem_singleton.mp ha
      exact ⟨h.answered hlook p, fun c' hc => by rw [Option.some.inj hc]⟩
  | none =>
    obtain ⟨held, hnodup, hlook, hrun⟩ := s.sinks.1.latest.exists_entries_run order
    refine ⟨held.map fun a => (a.1, a.2.filter p), ?_, ?_, ?_⟩
    · rwa [List.map_map]
    · intro a ha
      obtain ⟨b, hb, rfl⟩ := List.mem_map.mp ha
      exact ⟨h.answered (hlook b hb) p, fun c hc => nomatch hc⟩
    · unfold MemoryNotifier.all
      rw [hrun, List.flatMap_map]
      exact List.filter_flatMap

/--
**What is served stays bounded.** In every state that a deployment reaches, however long it has run,
an answer consists of one ranking per chain asked for, best score first and no key twice, with no
more opportunities than one scan of a task of the chain can find in a snapshot of the chain.
-/
theorem served_bounded (d : Deployment W P) (codec : Codec F)
    (evs : List (ServiceEvent W P F)) (s : ServiceState W P) (hrun : d.Runs codec evs s)
    (order : IterOrder (List Opportunity)) (query : OpportunityQuery) :
    ∃ answers : List (ChainId × List Opportunity), (answers.map Prod.fst).Nodup ∧
      (∀ a ∈ answers, Answered d evs a.1 a.2 ∧ ∀ c, query.chain = some c → a.1 = ⟨c⟩) ∧
      opportunities order (s.api d) query
        = (answers.flatMap Prod.snd).map OpportunityView.ofOpportunity ∧
      ∀ limit, (∀ w, (d.task w).cfg.startAssets.length
          * Search.walkBound BEAM_WIDTH (d.task w).cfg.maxHops ≤ limit) →
        (opportunities order (s.api d) query).length ≤ d.chains.length * limit := by
  obtain ⟨answers, hnodup, hanswers, heq⟩ := (ServiceInv.run hrun).exists_answers order query
  have hviews : opportunities order (s.api d) query
      = (answers.flatMap Prod.snd).map OpportunityView.ofOpportunity :=
    congrArg (List.map OpportunityView.ofOpportunity) heq
  refine ⟨answers, hnodup, hanswers, hviews, ?_⟩
  intro limit hlimit
  -- there are no more answers than chains, and none is longer than the limit
  have hchains : answers.length ≤ d.chains.length := by
    have hsub : answers.map Prod.fst ⊆ d.chains := by
      intro chain hchain
      obtain ⟨a, ha, rfl⟩ := List.mem_map.mp hchain
      obtain ⟨w, snapshot, hw, -⟩ := (hanswers a ha).1
      exact hw ▸ d.chain_mem w
    have hle := (List.subperm_of_subset hnodup hsub).length_le
    rwa [List.length_map] at hle
  have heach : ∀ a ∈ answers, a.2.length ≤ limit := by
    intro a ha
    obtain ⟨w, snapshot, -, -, hranked⟩ := (hanswers a ha).1
    refine (hranked.bounded.trans (Nat.mul_le_mul_left _ ?_)).trans (hlimit w)
    exact Search.walkBound_mono _ (Nat.min_le_left _ _)
  rw [hviews, List.length_map]
  exact (Search.length_flatMap_le heach).trans (Nat.mul_le_mul_right _ hchains)

end

section

attribute [local instance] RustDecimal.reference

/-- One start asset, two hops, one chain: at most 4160 opportunities, here at least one. -/
theorem length_served_wethTick : ∃ s : ServiceState Unit FakePool,
    let answer := opportunities (IterOrder.stored _) (s.api wethDeployment) ⟨some "ethereum", none⟩
    answer ≠ [] ∧ answer.length ≤ 4160 := by
  obtain ⟨s, s', ranked, hrun, -, hstep, hne⟩ := runs_wethTick
  obtain ⟨answers, -, -, -, hlimit⟩ := served_bounded wethDeployment decimalCodec _ s'
    (hrun.snoc hstep) (IterOrder.stored _) ⟨some "ethereum", none⟩
  have hbound : 1 * Search.walkBound BEAM_WIDTH 2 ≤ 4160 := by
    simp [Search.walkBound, BEAM_WIDTH, Finset.sum_range_succ]
  refine ⟨s', ?_, hlimit 4160 fun _ => hbound⟩
  obtain ⟨opp, hopp⟩ := List.exists_mem_of_ne_nil _ hne
  exact List.ne_nil_of_mem (mem_opportunities hopp _)

end

end ArbRouter
