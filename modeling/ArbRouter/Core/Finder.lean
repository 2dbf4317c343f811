import ArbRouter.Core.PoolStore
import ArbRouter.Infra.Walk

/-!
# The asset graph and the path finder

`core/application/graph`: the directed edges a snapshot induces, and the depth-first search over
them with its shared stacks.

* `Graph.edgesFrom` — one edge per pool of the asset and other asset of that pool
* `expand` — the recursion with the `used`, `hops` and `out` vectors pushed and popped
* `expand_eq` — what one call of `expand` does to the vectors
* `findPaths_eq` — the paths found are the walks of a search over the graph
-/

namespace ArbRouter

open Infra

variable {P : Type} [Pool P]

/-- Edges expanded per node at each depth. -/
def BEAM_WIDTH : Nat := 64

/-- A directed edge of a pool. -/
structure Edge where
  pool : PoolId
  fromAsset : AssetId
  toAsset : AssetId
deriving DecidableEq

/-- The hop along an edge. -/
def Edge.hop (e : Edge) : Hop := ⟨e.pool, ⟨e.fromAsset, e.toAsset⟩⟩

/-- A read-only view over the connectivity of a snapshot. -/
structure Graph (P : Type) [Pool P] where
  snapshot : PoolSnapshot P

/-! ## Edges -/

/-- The edges of one pool leaving `asset`. -/
def edgesOf (asset : AssetId) (entry : PoolEntry P) : List Edge :=
  (entry.assets.filter (· ≠ asset)).map fun other => ⟨entry.id, asset, other⟩

/-- Every edge leaving `asset`. -/
def Graph.edgesFrom (g : Graph P) (asset : AssetId) : List Edge :=
  (g.snapshot.poolsFrom asset).flatMap (edgesOf asset)

theorem mem_edgesOf {asset : AssetId} {entry : PoolEntry P} {e : Edge} :
    e ∈ edgesOf asset entry ↔
      e.pool = entry.id ∧ e.fromAsset = asset ∧ e.toAsset ∈ entry.assets ∧ e.toAsset ≠ asset := by
  unfold edgesOf
  rw [List.mem_map]
  constructor
  · rintro ⟨other, hother, rfl⟩
    obtain ⟨hmem, hne⟩ := List.mem_filter.mp hother
    exact ⟨rfl, rfl, hmem, by simpa using hne⟩
  · rintro ⟨hpool, hfrom, hto, hne⟩
    refine ⟨e.toAsset, List.mem_filter.mpr ⟨hto, by simpa using hne⟩, ?_⟩
    rw [← hpool, ← hfrom]

theorem Graph.mem_edgesFrom {g : Graph P} {asset : AssetId} {e : Edge} :
    e ∈ g.edgesFrom asset ↔ ∃ entry ∈ g.snapshot.poolsFrom asset,
      e.pool = entry.id ∧ e.fromAsset = asset ∧ e.toAsset ∈ entry.assets ∧ e.toAsset ≠ asset := by
  unfold Graph.edgesFrom
  rw [List.mem_flatMap]
  simp only [mem_edgesOf]

/-- An edge leaves the asset it was asked from and enters another one. -/
theorem Graph.endpoints_of_mem_edgesFrom {g : Graph P} {asset : AssetId} {e : Edge}
    (h : e ∈ g.edgesFrom asset) : e.fromAsset = asset ∧ e.toAsset ≠ asset := by
  obtain ⟨_, _, _, hfrom, _, hne⟩ := Graph.mem_edgesFrom.mp h
  exact ⟨hfrom, hne⟩

/-- With distinct ids and no asset listed twice, no edge is listed twice. -/
theorem Graph.nodup_edgesFrom {block : UInt64} {takenAt : OffsetDateTime}
    {entries : List (PoolEntry P)} (hid : (entries.map PoolEntry.id).Nodup)
    (hassets : ∀ e ∈ entries, e.assets.Nodup) (asset : AssetId) :
    ((Graph.mk (PoolSnapshot.fromEntries block takenAt entries)).edgesFrom asset).Nodup := by
  unfold Graph.edgesFrom
  rw [PoolSnapshot.poolsFrom_eq_filter hassets, List.nodup_flatMap]
  constructor
  · intro entry hentry
    refine List.Nodup.map ?_ ((hassets entry (List.mem_of_mem_filter hentry)).filter _)
    intro a b hab
    exact (Edge.mk.inj hab).2.2
  · have hpair : entries.Pairwise fun e e' => e.id ≠ e'.id := List.pairwise_map.mp hid
    refine (hpair.filter _).imp ?_
    intro e e' hne edge he he'
    exact hne ((mem_edgesOf.mp he).1.symm.trans (mem_edgesOf.mp he').1)

/-! ## The search -/

/-- The edges expanded at `current`: the beam is cut after the used pools are filtered out. -/
def Graph.frontier (g : Graph P) (current : AssetId) (used : List PoolId) : List Edge :=
  ((g.edgesFrom current).filter fun edge => !used.contains edge.pool).take BEAM_WIDTH

theorem Graph.mem_of_mem_frontier {g : Graph P} {current : AssetId} {used : List PoolId} {e : Edge}
    (h : e ∈ g.frontier current used) : e ∈ g.edgesFrom current ∧ e.pool ∉ used := by
  obtain ⟨hmem, hused⟩ := List.mem_filter.mp (List.mem_of_mem_take h)
  exact ⟨hmem, by simpa using hused⟩

/-- The beam does not cut where an asset has at most `BEAM_WIDTH` edges. -/
theorem Graph.mem_frontier {g : Graph P} {current : AssetId} {used : List PoolId} {e : Edge}
    (hlen : (g.edgesFrom current).length ≤ BEAM_WIDTH) (he : e ∈ g.edgesFrom current)
    (hused : e.pool ∉ used) : e ∈ g.frontier current used := by
  unfold Graph.frontier
  rw [List.take_of_length_le ((List.length_filter_le _ _).trans hlen)]
  exact List.mem_filter.mpr ⟨he, by simpa using hused⟩

/-- The vectors `expand` works on. -/
structure Stacks where
  used : List PoolId
  hops : List Hop
  out : List Path

/-- `used.push(edge.pool)`, `hops.push(hop)`. -/
def Stacks.push (st : Stacks) (edge : Edge) : Stacks :=
  { st with used := st.used ++ [edge.pool], hops := st.hops ++ [edge.hop] }

/-- `out.push(Path { start, hops: hops.clone() })`. -/
def Stacks.emit (st : Stacks) (start : AssetId) : Stacks :=
  { st with out := st.out ++ [⟨start, st.hops⟩] }

/-- `hops.pop()`, `used.pop()`. -/
def Stacks.pop (st : Stacks) : Stacks :=
  { st with hops := st.hops.dropLast, used := st.used.dropLast }

/--
`expand`: push the edge, emit, recurse, pop.

`fuel` bounds the recursion depth; `findPaths` gives one level more than `hops` can grow.
-/
def expand (g : Graph P) (start : AssetId) (maxHops : Nat) : Nat → AssetId → Stacks → Stacks
  | 0, _, st => st
  | fuel + 1, current, st =>
    if maxHops ≤ st.hops.length then st
    else
      (g.frontier current st.used).foldl (fun st edge =>
        (expand g start maxHops fuel edge.toAsset ((st.push edge).emit start)).pop) st

/-- `find_paths`. -/
def findPaths (g : Graph P) (start : AssetId) (maxHops : Nat) : List Path :=
  (expand g start maxHops (maxHops + 1) start ⟨[], [], []⟩).out

/-- The search `expand` performs: follow the frontier, label an edge with its pool. -/
def Graph.search (g : Graph P) : Search AssetId Edge PoolId where
  next := g.frontier
  target := Edge.toAsset
  label := Edge.pool

/-- The vectors with `paths` appended to `out`. -/
def Stacks.append (st : Stacks) (paths : List Path) : Stacks := { st with out := st.out ++ paths }

@[simp] theorem Stacks.append_nil (st : Stacks) : st.append [] = st := by
  simp [Stacks.append]

/-- A loop whose rounds append to `out` appends what its rounds append. -/
theorem Stacks.foldl_append {st : Stacks} {round : Stacks → Edge → Stacks}
    {paths : Edge → List Path}
    (hround : ∀ out edge, round (st.append out) edge = st.append (out ++ paths edge))
    (frontier : List Edge) : ∀ out : List Path,
      frontier.foldl round (st.append out) = st.append (out ++ frontier.flatMap paths) := by
  induction frontier with
  | nil => simp
  | cons edge rest ih =>
    intro out
    rw [List.foldl_cons, hround, ih, List.flatMap_cons, List.append_assoc]

/-- The path that takes `hops` and then the edges of a walk. -/
def walkPath (start : AssetId) (hops : List Hop) (es : List Edge) : Path :=
  ⟨start, hops ++ es.map Edge.hop⟩

/--
**One call of `expand`** appends the walks from `current` to `out`, each behind the hops already
taken, and leaves `used` and `hops` as they were. Any fuel above the remaining depth will do.
-/
theorem expand_eq (g : Graph P) (start : AssetId) (maxHops : Nat) :
    ∀ (fuel : Nat) (current : AssetId) (st : Stacks), maxHops < fuel + st.hops.length →
      expand g start maxHops fuel current st
        = st.append ((g.search.walks (maxHops - st.hops.length) current st.used).map
            (walkPath start st.hops)) := by
  intro fuel
  induction fuel with
  | zero =>
    intro current st hfuel
    have hdepth : maxHops - st.hops.length = 0 := by omega
    simp [expand, hdepth, Search.walks]
  | succ fuel ih =>
    intro current st hfuel
    unfold expand
    by_cases hfull : maxHops ≤ st.hops.length
    · have hdepth : maxHops - st.hops.length = 0 := by omega
      simp [hfull, hdepth, Search.walks]
    · obtain ⟨depth, hdepth⟩ : ∃ depth, maxHops - st.hops.length = depth + 1 :=
        ⟨maxHops - st.hops.length - 1, by omega⟩
      -- a round appends the walks through its edge; `used` and `hops` are restored
      have hround : ∀ (paths : List Path) (edge : Edge),
          (expand g start maxHops fuel edge.toAsset
            (((st.append paths).push edge).emit start)).pop
          = st.append (paths ++ ([edge] ::
              (g.search.walks depth edge.toAsset (st.used ++ [edge.pool])).map (edge :: ·)).map
                (walkPath start st.hops)) := by
        intro paths edge
        have hlen : (st.hops ++ [edge.hop]).length = st.hops.length + 1 := by simp
        rw [ih]
        · simp only [Stacks.append, Stacks.push, Stacks.emit, Stacks.pop, hlen,
            List.dropLast_concat, show maxHops - (st.hops.length + 1) = depth by omega]
          simp [walkPath, Function.comp_def]
        · show maxHops < fuel + (st.hops ++ [edge.hop]).length
          omega
      have hall : (g.frontier current st.used).foldl (fun st edge =>
            (expand g start maxHops fuel edge.toAsset ((st.push edge).emit start)).pop)
            (st.append []) = _ :=
        Stacks.foldl_append hround (g.frontier current st.used) []
      rw [Stacks.append_nil, List.nil_append, ← List.map_flatMap] at hall
      rw [if_neg hfull, hdepth, Search.walks]
      exact hall

/-- **The paths found** are the walks of the search from the start asset. -/
theorem findPaths_eq (g : Graph P) (start : AssetId) (maxHops : Nat) :
    findPaths g start maxHops
      = (g.search.walks maxHops start []).map (walkPath start []) := by
  unfold findPaths
  rw [expand_eq g start maxHops (maxHops + 1) start ⟨[], [], []⟩ (by simp)]
  simp [Stacks.append]

theorem mem_findPaths {g : Graph P} {start : AssetId} {maxHops : Nat} {p : Path} :
    p ∈ findPaths g start maxHops ↔ ∃ es : List Edge, es ≠ [] ∧ es.length ≤ maxHops ∧
      g.search.IsWalk start [] es ∧ p = ⟨start, es.map Edge.hop⟩ := by
  rw [findPaths_eq, List.mem_map]
  simp only [Search.mem_walks, walkPath, List.nil_append]
  constructor
  · rintro ⟨es, ⟨hne, hlen, hwalk⟩, rfl⟩
    exact ⟨es, hne, hlen, hwalk, rfl⟩
  · rintro ⟨es, hne, hlen, hwalk, rfl⟩
    exact ⟨es, ⟨hne, hlen, hwalk⟩, rfl⟩

end ArbRouter
