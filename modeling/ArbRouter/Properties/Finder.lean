import ArbRouter.Core.Finder
import ArbRouter.Core.TestUtils
import ArbRouter.Infra.DecimalReference

/-!
# What the path finder returns

* `findPaths_isTrail` — every path found is a well-formed trail over the entries
* `findPaths_complete` — every trail within the beam is found, every trail at all where the beam
  does not cut, and each exactly once if the entries are distinct
* `findPaths_filter` — a deeper search finds the same paths in the same order, and longer ones
-/

namespace ArbRouter

open Infra

variable {P : Type} [Pool P]

/-! ## Trails -/

/-- Each hop starts at the asset the previous one ended at. -/
def Chained : AssetId → List Hop → Prop
  | _, [] => True
  | current, h :: rest => h.pair.source = current ∧ Chained h.pair.destination rest

/-- A trail over a list of entries. -/
structure IsTrail (entries : List (PoolEntry P)) (start : AssetId) (maxHops : Nat) (p : Path) :
    Prop where
  start_eq : p.start = start
  pos : 1 ≤ p.hops.length
  le_maxHops : p.hops.length ≤ maxHops
  chained : Chained start p.hops
  source_ne : ∀ h ∈ p.hops, h.pair.source ≠ h.pair.destination
  held : ∀ h ∈ p.hops, ∃ e ∈ entries,
    e.id = h.pool ∧ h.pair.source ∈ e.assets ∧ h.pair.destination ∈ e.assets
  nodup : (p.hops.map (·.pool)).Nodup

/-- The hops of a walk of the search are chained. -/
theorem chained_of_isWalk {g : Graph P} : ∀ {current : AssetId} {used : List PoolId}
    {es : List Edge}, g.search.IsWalk current used es → Chained current (es.map Edge.hop)
  | _, _, [], _ => trivial
  | _, _, _ :: _, h =>
    ⟨(Graph.endpoints_of_mem_edgesFrom (Graph.mem_of_mem_frontier h.1).1).1, chained_of_isWalk h.2⟩

/-- No pool occurs twice on a walk of the search. -/
theorem nodup_pools_of_isWalk {g : Graph P} {start : AssetId} {es : List Edge}
    (h : g.search.IsWalk start [] es) : (es.map Edge.pool).Nodup := by
  have hfresh : ∀ n used, ∀ e ∈ g.search.next n used, g.search.label e ∉ used :=
    fun n used e he => (Graph.mem_of_mem_frontier he).2
  have := Search.IsWalk.nodup_labels g.search hfresh h List.nodup_nil
  rwa [List.nil_append] at this

/-- Every edge of a walk belongs to an entry that lists both of its assets. -/
theorem held_of_isWalk {block : UInt64} {takenAt : OffsetDateTime} {entries : List (PoolEntry P)}
    {start : AssetId} {es : List Edge}
    (h : (Graph.mk (PoolSnapshot.fromEntries block takenAt entries)).search.IsWalk start [] es) :
    ∀ edge ∈ es, edge.fromAsset ≠ edge.toAsset ∧ ∃ e ∈ entries,
      e.id = edge.pool ∧ edge.fromAsset ∈ e.assets ∧ edge.toAsset ∈ e.assets := by
  refine Search.IsWalk.forall_mem _ ?_ h
  intro current used edge hedge
  obtain ⟨entry, hentry, hpool, hfrom, hto, hne⟩ :=
    Graph.mem_edgesFrom.mp (Graph.mem_of_mem_frontier hedge).1
  obtain ⟨hmem, hasset⟩ := PoolSnapshot.mem_poolsFrom_fromEntries.mp hentry
  exact ⟨by rw [hfrom]; exact hne.symm, entry, hmem, hpool.symm, by rw [hfrom]; exact hasset, hto⟩

/-- **Every path found is a trail** of the entries the snapshot was built from. -/
theorem findPaths_isTrail (block : UInt64) (takenAt : OffsetDateTime)
    (entries : List (PoolEntry P)) (start : AssetId) (maxHops : Nat) (p : Path)
    (hp : p ∈ findPaths ⟨PoolSnapshot.fromEntries block takenAt entries⟩ start maxHops) :
    IsTrail entries start maxHops p := by
  obtain ⟨es, hne, hlen, hwalk, rfl⟩ := mem_findPaths.mp hp
  have hheld := held_of_isWalk hwalk
  refine ⟨rfl, ?_, ?_, chained_of_isWalk hwalk, ?_, ?_, ?_⟩
  · rw [List.length_map]
    exact List.length_pos_of_ne_nil hne
  · rw [List.length_map]
    exact hlen
  · intro h hh
    obtain ⟨edge, hedge, rfl⟩ := List.mem_map.mp hh
    exact (hheld edge hedge).1
  · intro h hh
    obtain ⟨edge, hedge, rfl⟩ := List.mem_map.mp hh
    exact (hheld edge hedge).2
  · rw [List.map_map]
    exact nodup_pools_of_isWalk hwalk

/-- Two pools between two assets. -/
def twoPools : List (PoolEntry FakePool) :=
  [fakeEntry "p1" [assetA, assetB] Decimal.one 0, fakeEntry "p2" [assetA, assetB] Decimal.one 0]

/-- The cycle through both pools. -/
def twoPoolCycle : Path := ⟨assetA, [⟨⟨"p1"⟩, assetA, assetB⟩, ⟨⟨"p2"⟩, assetB, assetA⟩]⟩

section

attribute [local instance] RustDecimal.reference

theorem isTrail_twoPoolCycle : IsTrail twoPools assetA 2 twoPoolCycle :=
  findPaths_isTrail 1 0 twoPools assetA 2 twoPoolCycle (by decide)

end

/-! ## Completeness -/

/--
Each hop is one of those offered at the asset reached, given the pools already on the path.
-/
def Follows (next : AssetId → List PoolId → List Edge) (start : AssetId) (hops : List Hop) : Prop :=
  ∀ before h after, hops = before ++ h :: after →
    h ∈ (next (Path.mk start before).destination (before.map (·.pool))).map Edge.hop

/-- Each edge is among the first `BEAM_WIDTH` whose pool is not on the path yet. -/
def InBeam (g : Graph P) : AssetId → List Hop → Prop :=
  Follows fun current used =>
    ((g.edgesFrom current).filter fun edge => !used.contains edge.pool).take BEAM_WIDTH

/-- Each edge is an edge of the graph. -/
def InGraph (g : Graph P) : AssetId → List Hop → Prop :=
  Follows fun current _ => g.edgesFrom current

theorem Path.destination_concat (start : AssetId) (hops : List Hop) (h : Hop) :
    (Path.mk start (hops ++ [h])).destination = h.pair.destination := by
  simp [Path.destination]

/-- Hops that stay in the beam are those of a walk, also behind hops already taken. -/
theorem exists_isWalk {g : Graph P} {start : AssetId} {rest : List Hop} : ∀ taken : List Hop,
    (∀ before h after, rest = before ++ h :: after →
      h ∈ (g.frontier (Path.mk start (taken ++ before)).destination
        ((taken ++ before).map (·.pool))).map Edge.hop) →
    ∃ es : List Edge, rest = es.map Edge.hop ∧
      g.search.IsWalk (Path.mk start taken).destination (taken.map (·.pool)) es := by
  induction rest with
  | nil => exact fun _ _ => ⟨[], rfl, trivial⟩
  | cons h rest ih =>
    intro taken hbeam
    obtain ⟨e, he, rfl⟩ := List.mem_map.mp (hbeam [] h rest rfl)
    rw [List.append_nil] at he
    -- a prefix of `rest` behind `taken ++ [e.hop]` is one of `e.hop :: rest` behind `taken`
    obtain ⟨es, rfl, hwalk⟩ := ih (taken ++ [e.hop]) (by
      intro before h' after hsplit
      rw [List.append_assoc, List.singleton_append]
      exact hbeam (e.hop :: before) h' after (by rw [hsplit, List.cons_append]))
    refine ⟨e :: es, rfl, he, ?_⟩
    rw [Path.destination_concat, List.map_append] at hwalk
    exact hwalk

/-- Conversely, each hop of a walk is in the beam where the walk stands. -/
theorem mem_frontier_of_isWalk {g : Graph P} {start : AssetId} {es : List Edge} :
    ∀ (taken : List Hop) {before : List Hop} {h : Hop} {after : List Hop},
      g.search.IsWalk (Path.mk start taken).destination (taken.map (·.pool)) es →
      es.map Edge.hop = before ++ h :: after →
      h ∈ (g.frontier (Path.mk start (taken ++ before)).destination
        ((taken ++ before).map (·.pool))).map Edge.hop := by
  induction es with
  | nil => intro taken before h after _ hsplit; simp at hsplit
  | cons e rest ih =>
    intro taken before h after hwalk hsplit
    cases before with
    | nil =>
      obtain ⟨rfl, -⟩ := List.cons.inj hsplit
      rw [List.append_nil]
      exact List.mem_map_of_mem hwalk.1
    | cons b before =>
      obtain ⟨rfl, hrest⟩ := List.cons.inj hsplit
      rw [← List.singleton_append, ← List.append_assoc]
      refine ih (taken ++ [e.hop]) ?_ hrest
      rw [Path.destination_concat, List.map_append]
      exact hwalk.2

theorem InBeam.exists_isWalk {g : Graph P} {start : AssetId} {hops : List Hop}
    (h : InBeam g start hops) : ∃ es : List Edge, hops = es.map Edge.hop ∧
      g.search.IsWalk start [] es := by
  refine ArbRouter.exists_isWalk [] ?_
  intro before hop after hsplit
  exact h before hop after hsplit

/-- Where no asset has more than `BEAM_WIDTH` edges, trails of the graph stay in the beam. -/
theorem InGraph.inBeam {g : Graph P} {start : AssetId} {hops : List Hop}
    (hlen : ∀ asset, (g.edgesFrom asset).length ≤ BEAM_WIDTH) (h : InGraph g start hops)
    (hnd : (hops.map (·.pool)).Nodup) : InBeam g start hops := by
  intro before hop after hsplit
  obtain ⟨e, he, rfl⟩ := List.mem_map.mp (h before hop after hsplit)
  have hunused : e.pool ∉ before.map (·.pool) := by
    rw [hsplit, List.map_append, List.map_cons] at hnd
    intro hmem
    exact (List.nodup_append.mp hnd).2.2 _ hmem _ List.mem_cons_self rfl
  exact List.mem_map_of_mem (Graph.mem_frontier (hlen _) he hunused)

/-- **The paths found** are the nonempty ones of at most `maxHops` hops that stay in the beam. -/
theorem mem_findPaths_iff {g : Graph P} {start : AssetId} {maxHops : Nat} {hops : List Hop} :
    ⟨start, hops⟩ ∈ findPaths g start maxHops ↔
      hops ≠ [] ∧ hops.length ≤ maxHops ∧ InBeam g start hops := by
  constructor
  · intro h
    obtain ⟨es, hne, hlen, hwalk, heq⟩ := mem_findPaths.mp h
    obtain ⟨-, rfl⟩ := Path.mk.inj heq
    refine ⟨by simpa using hne, by simpa using hlen, ?_⟩
    intro before hop after hsplit
    exact mem_frontier_of_isWalk [] hwalk hsplit
  · rintro ⟨hne, hlen, hbeam⟩
    obtain ⟨es, rfl, hwalk⟩ := hbeam.exists_isWalk
    exact mem_findPaths.mpr ⟨es, by simpa using hne, by simpa using hlen, hwalk, rfl⟩

/-- No path is found twice when no edge is listed twice. -/
theorem nodup_findPaths {g : Graph P} (h : ∀ asset, (g.edgesFrom asset).Nodup) (start : AssetId)
    (maxHops : Nat) : (findPaths g start maxHops).Nodup := by
  have hnext : ∀ current used, (g.search.next current used).Nodup := fun current used =>
    ((h current).filter _).sublist (List.take_sublist _ _)
  rw [findPaths_eq]
  refine (g.search.nodup_walks hnext maxHops start []).map ?_
  -- a path remembers the edges of its walk
  have hhop : Function.Injective Edge.hop := by
    rintro ⟨p, a, b⟩ ⟨p', a', b'⟩ heq
    simpa [Edge.hop] using heq
  intro es es' heq
  have hmap : es.map Edge.hop = es'.map Edge.hop := by simpa [walkPath] using heq
  exact hhop.list_map hmap

/--
**Every trail is found:** those within the beam, all of them where no asset has more than
`BEAM_WIDTH` edges, and each exactly once if pool ids are distinct and no pool lists an
asset twice.
-/
theorem findPaths_complete (block : UInt64) (takenAt : OffsetDateTime)
    (entries : List (PoolEntry P)) (start : AssetId) (maxHops : Nat) (hops : List Hop)
    (hne : hops ≠ []) (hlen : hops.length ≤ maxHops) (hnd : (hops.map (·.pool)).Nodup) :
    let g : Graph P := ⟨PoolSnapshot.fromEntries block takenAt entries⟩
    (InBeam g start hops → ⟨start, hops⟩ ∈ findPaths g start maxHops) ∧
    ((∀ asset, (g.edgesFrom asset).length ≤ BEAM_WIDTH) → InGraph g start hops →
      ⟨start, hops⟩ ∈ findPaths g start maxHops) ∧
    ((entries.map PoolEntry.id).Nodup → (∀ e ∈ entries, e.assets.Nodup) → InBeam g start hops →
      (findPaths g start maxHops).count ⟨start, hops⟩ = 1) := by
  intro g
  have hfound : InBeam g start hops → ⟨start, hops⟩ ∈ findPaths g start maxHops :=
    fun hin => mem_findPaths_iff.mpr ⟨hne, hlen, hin⟩
  refine ⟨hfound, ?_, ?_⟩
  · intro hbeam hgraph
    exact hfound (hgraph.inBeam hbeam hnd)
  · intro hid hassets hin
    exact List.count_eq_one_of_mem
      (nodup_findPaths (Graph.nodup_edgesFrom hid hassets) start maxHops) (hfound hin)

section

attribute [local instance] RustDecimal.reference

theorem count_twoPoolCycle :
    (findPaths ⟨PoolSnapshot.fromEntries 1 0 twoPools⟩ assetA 2).count twoPoolCycle = 1 :=
  have hfound : twoPoolCycle ∈ findPaths ⟨PoolSnapshot.fromEntries 1 0 twoPools⟩ assetA 2 := by
    decide
  (findPaths_complete 1 0 twoPools assetA 2 twoPoolCycle.hops (by decide) (by decide)
    (by decide)).2.2 (by decide) (by decide) (mem_findPaths_iff.mp hfound).2.2

end

/-! ## Depth -/

/-- **A deeper search only adds:** its paths of at most `k` hops are those found at depth `k`. -/
theorem findPaths_filter (g : Graph P) (start : AssetId) (k m : Nat) (h : k ≤ m) :
    findPaths g start k = (findPaths g start m).filter fun p => p.hops.length ≤ k := by
  have hlen : (fun p : Path => decide (p.hops.length ≤ k)) ∘ walkPath start []
      = fun es => decide (es.length ≤ k) := by
    funext es
    simp [walkPath]
  rw [findPaths_eq, findPaths_eq, List.filter_map, hlen, Search.walks_filter g.search h]

section

attribute [local instance] RustDecimal.reference

theorem findPaths_filter_twoPools :
    ((findPaths ⟨PoolSnapshot.fromEntries 1 0 twoPools⟩ assetA 2).filter
      fun p => p.hops.length ≤ 1).length = 2 := by
  rw [← findPaths_filter ⟨PoolSnapshot.fromEntries 1 0 twoPools⟩ assetA 1 2 (by decide)]
  decide

end

end ArbRouter
