import ArbRouter.Properties.Finder

/-!
# What a snapshot says of its pools

A path is found through the asset index, and then quoted, checked and executed through the id index.

* `indexesAgree_iff` — when the pool an edge's id resolves to is one that offers the edge
* `freshness_agrees` — the gate holds the worst sync time it reports to the staleness it allows
-/

namespace ArbRouter

open Infra

variable {P : Type} [Pool P]

/-! ## The two indexes -/

namespace PoolSnapshot

/-- The id of the edge resolves to a pool of the asset index that lists both of its assets. -/
def Offers (snapshot : PoolSnapshot P) (edge : Edge) : Prop :=
  ∃ entry, snapshot.get edge.pool = some entry ∧ edge.fromAsset ∈ entry.assets ∧
    edge.toAsset ∈ entry.assets ∧ entry ∈ snapshot.poolsFrom edge.fromAsset

/-- Every edge of the graph is offered by the pool its id resolves to. -/
def IndexesAgree (snapshot : PoolSnapshot P) : Prop :=
  ∀ asset, ∀ edge ∈ (Graph.mk snapshot).edgesFrom asset, snapshot.Offers edge

end PoolSnapshot

/-- The last entry of each id lists any two different assets that an entry of that id lists. -/
def LastListsAll (entries : List (PoolEntry P)) : Prop :=
  ∀ e ∈ entries, ∀ last, entries.reverse.find? (fun e' => e'.id = e.id) = some last →
    ∀ a ∈ e.assets, ∀ b ∈ e.assets, a ≠ b → a ∈ last.assets ∧ b ∈ last.assets

section

variable {block : UInt64} {takenAt : OffsetDateTime} {entries : List (PoolEntry P)}

/-- The edges of the graph run between the different assets of each entry. -/
theorem mem_edgesFrom_fromEntries {asset : AssetId} {edge : Edge} :
    edge ∈ (Graph.mk (PoolSnapshot.fromEntries block takenAt entries)).edgesFrom asset ↔
      ∃ e ∈ entries, asset ∈ e.assets ∧ edge.pool = e.id ∧ edge.fromAsset = asset ∧
        edge.toAsset ∈ e.assets ∧ edge.toAsset ≠ asset := by
  rw [Graph.mem_edgesFrom]
  constructor
  · rintro ⟨e, he, hedge⟩
    obtain ⟨hmem, hasset⟩ := PoolSnapshot.mem_poolsFrom_fromEntries.mp he
    exact ⟨e, hmem, hasset, hedge⟩
  · rintro ⟨e, hmem, hasset, hedge⟩
    exact ⟨e, PoolSnapshot.mem_poolsFrom_fromEntries.mpr ⟨hmem, hasset⟩, hedge⟩

/-- An id resolves to its last entry. -/
theorem get_fromEntries_eq (id : PoolId) :
    (PoolSnapshot.fromEntries block takenAt entries).get id
      = entries.reverse.find? fun e => e.id = id :=
  HashMap.lookup_lastBy PoolEntry.id entries id

/-- An entry that an id resolves to is in the asset index under each of its assets. -/
theorem offers_fromEntries {edge : Edge} :
    (PoolSnapshot.fromEntries block takenAt entries).Offers edge ↔
      ∃ last, entries.reverse.find? (fun e => e.id = edge.pool) = some last ∧
        edge.fromAsset ∈ last.assets ∧ edge.toAsset ∈ last.assets := by
  unfold PoolSnapshot.Offers
  simp only [get_fromEntries_eq]
  constructor
  · rintro ⟨last, hlast, hfrom, hto, -⟩
    exact ⟨last, hlast, hfrom, hto⟩
  · rintro ⟨last, hlast, hfrom, hto⟩
    have hmem : last ∈ entries := List.mem_reverse.mp (List.mem_of_find?_eq_some hlast)
    exact ⟨last, hlast, hfrom, hto, PoolSnapshot.mem_poolsFrom_fromEntries.mpr ⟨hmem, hfrom⟩⟩

/-- The id of an edge resolves to an entry of that id. -/
theorem exists_get_of_mem_edgesFrom {asset : AssetId} {edge : Edge}
    (h : edge ∈ (Graph.mk (PoolSnapshot.fromEntries block takenAt entries)).edgesFrom asset) :
    ∃ e ∈ entries, (PoolSnapshot.fromEntries block takenAt entries).get edge.pool = some e ∧
      e.id = edge.pool := by
  obtain ⟨e, he, hpool, -⟩ := Graph.mem_edgesFrom.mp h
  obtain ⟨last, hlast⟩ := PoolSnapshot.exists_get _ he
  obtain ⟨hmem, hid⟩ := PoolSnapshot.of_get_fromEntries hlast
  rw [hpool]
  exact ⟨last, hmem, hlast, hid⟩

theorem indexesAgree_fromEntries :
    (PoolSnapshot.fromEntries block takenAt entries).IndexesAgree ↔ LastListsAll entries := by
  constructor
  · intro hagree e he last hlast a ha b hb hne
    -- the entry offers the edge from `a` to `b`
    have hedge : Edge.mk e.id a b
        ∈ (Graph.mk (PoolSnapshot.fromEntries block takenAt entries)).edgesFrom a :=
      mem_edgesFrom_fromEntries.mpr ⟨e, he, ha, rfl, rfl, hb, hne.symm⟩
    obtain ⟨last', hlast', hfrom, hto⟩ := offers_fromEntries.mp (hagree a _ hedge)
    obtain rfl : last = last' := Option.some.inj (hlast.symm.trans hlast')
    exact ⟨hfrom, hto⟩
  · rintro hlists asset edge hedge
    obtain ⟨last, -, hget, -⟩ := exists_get_of_mem_edgesFrom hedge
    obtain ⟨e, he, ha, hpool, hfrom, hb, hne⟩ := mem_edgesFrom_fromEntries.mp hedge
    rw [get_fromEntries_eq, hpool] at hget
    refine offers_fromEntries.mpr ⟨last, by rw [hpool]; exact hget, ?_⟩
    rw [hfrom]
    exact hlists e he last hget asset ha _ hb hne.symm

/-- Entries of one id that list the same assets do not disagree. -/
theorem lastListsAll_of_assets_eq
    (h : ∀ e ∈ entries, ∀ e' ∈ entries, e.id = e'.id → e.assets = e'.assets) :
    LastListsAll entries := by
  intro e he last hlast a ha b hb _
  have hmem : last ∈ entries := List.mem_reverse.mp (List.mem_of_find?_eq_some hlast)
  have hid : last.id = e.id := by simpa using List.find?_some hlast
  rw [h last hmem e he hid]
  exact ⟨ha, hb⟩

end

/-- Where the indexes agree, each hop of a found path is resolved to a pool that offers it. -/
theorem PoolSnapshot.IndexesAgree.offers_hop {snapshot : PoolSnapshot P}
    (h : snapshot.IndexesAgree) {start : AssetId} {maxHops : Nat} {p : Path}
    (hp : p ∈ findPaths ⟨snapshot⟩ start maxHops) :
    ∀ hop ∈ p.hops, snapshot.Offers ⟨hop.pool, hop.pair.source, hop.pair.destination⟩ := by
  obtain ⟨es, -, -, hwalk, rfl⟩ := mem_findPaths.mp hp
  have hoffers : ∀ edge ∈ es, snapshot.Offers edge := by
    refine Search.IsWalk.forall_mem _ ?_ hwalk
    intro current used edge hedge
    exact h current edge (Graph.mem_of_mem_frontier hedge).1
  intro hop hhop
  obtain ⟨edge, hedge, rfl⟩ := List.mem_map.mp hhop
  exact hoffers edge hedge

/--
**The indexes agree** exactly when the last entry of each id offers what the entries of that id
offer, as it does when these list the same assets. Then the hops of every path are resolved to
pools that offer them; to pools of their ids they are resolved in any case.
-/
theorem indexesAgree_iff (block : UInt64) (takenAt : OffsetDateTime)
    (entries : List (PoolEntry P)) :
    let snapshot := PoolSnapshot.fromEntries block takenAt entries
    (∀ asset, ∀ edge ∈ (Graph.mk snapshot).edgesFrom asset,
      ∃ entry ∈ entries, snapshot.get edge.pool = some entry ∧ entry.id = edge.pool) ∧
    (snapshot.IndexesAgree ↔ LastListsAll entries) ∧
    ((∀ e ∈ entries, ∀ e' ∈ entries, e.id = e'.id → e.assets = e'.assets) →
      snapshot.IndexesAgree) ∧
    (snapshot.IndexesAgree → ∀ start maxHops, ∀ p ∈ findPaths ⟨snapshot⟩ start maxHops,
      ∀ hop ∈ p.hops, snapshot.Offers ⟨hop.pool, hop.pair.source, hop.pair.destination⟩) := by
  intro snapshot
  refine ⟨?_, indexesAgree_fromEntries, ?_, ?_⟩
  · intro asset edge hedge
    exact exists_get_of_mem_edgesFrom hedge
  · intro h
    exact indexesAgree_fromEntries.mpr (lastListsAll_of_assets_eq h)
  · intro h start maxHops p hp
    exact h.offers_hop hp

/-- Two pools of one id, at different pairs of assets. -/
def samePoolId : List (PoolEntry FakePool) :=
  [fakeEntry "p" [assetA, assetB] Decimal.one 0, fakeEntry "p" [assetB, assetC] Decimal.one 0]

section

attribute [local instance] RustDecimal.reference

/-- The edge that the first pool offers resolves to the second pool. -/
theorem not_indexesAgree_samePoolId :
    ¬ (PoolSnapshot.fromEntries 1 0 samePoolId).IndexesAgree := by
  intro h
  obtain ⟨entry, hget, hfrom, -⟩ := h assetA ⟨⟨"p"⟩, assetA, assetB⟩ (by decide)
  have hsecond : (PoolSnapshot.fromEntries 1 0 samePoolId).get ⟨"p"⟩
      = some (fakeEntry "p" [assetB, assetC] Decimal.one 0) := by decide
  obtain rfl := Option.some.inj (hsecond.symm.trans hget)
  revert hfrom
  decide

end

/-! ## Freshness -/

/-- The time `worst_synced_at` counts for a hop: that of its pool, the epoch for a missing one. -/
def hopSyncedAt (snapshot : PoolSnapshot P) (hop : Hop) : OffsetDateTime :=
  ((snapshot.get hop.pool).map (·.poolMeta.syncedAt)).getD OffsetDateTime.unixEpoch

theorem hopSyncedAt_of_get {snapshot : PoolSnapshot P} {hop : Hop} {entry : PoolEntry P}
    (h : snapshot.get hop.pool = some entry) :
    hopSyncedAt snapshot hop = entry.poolMeta.syncedAt := by
  unfold hopSyncedAt
  rw [h]
  rfl

/-- The worst sync time of a nonempty path is that of one of its hops, and no hop's is earlier. -/
theorem worstSyncedAt_spec (snapshot : PoolSnapshot P) {path : Path} (hne : path.hops ≠ []) :
    (∃ hop ∈ path.hops, worstSyncedAt snapshot path = hopSyncedAt snapshot hop) ∧
      ∀ hop ∈ path.hops, worstSyncedAt snapshot path ≤ hopSyncedAt snapshot hop := by
  have hworst : worstSyncedAt snapshot path
      = ((path.hops.map (hopSyncedAt snapshot)).min?).getD OffsetDateTime.unixEpoch := by
    unfold worstSyncedAt
    refine congrArg (fun l : List OffsetDateTime => l.min?.getD OffsetDateTime.unixEpoch) ?_
    refine List.map_congr_left fun hop _ => ?_
    unfold hopSyncedAt
    cases snapshot.get hop.pool <;> rfl
  cases hmin : (path.hops.map (hopSyncedAt snapshot)).min? with
  | none => exact absurd (List.map_eq_nil_iff.mp (List.min?_eq_none_iff.mp hmin)) hne
  | some worst =>
    obtain ⟨hmem, hle⟩ := List.min?_eq_some_iff.mp hmin
    rw [hworst, hmin]
    obtain ⟨hop, hhop, heq⟩ := List.mem_map.mp hmem
    exact ⟨⟨hop, hhop, heq.symm⟩, fun hop' hhop' => hle _ (List.mem_map_of_mem hhop')⟩

/--
A fresh path has all its pools in the snapshot, the one synced first no longer ago than allowed.
-/
theorem isFresh_iff_worstSyncedAt (snapshot : PoolSnapshot P) {path : Path}
    (hne : path.hops ≠ []) (now : OffsetDateTime) (maxStaleness : StdDuration) :
    isFresh snapshot path now maxStaleness = true ↔
      (∀ hop ∈ path.hops, (snapshot.get hop.pool).isSome = true) ∧
        now - worstSyncedAt snapshot path ≤ maxStaleness.toTime := by
  obtain ⟨⟨worst, hworst, heq⟩, hle⟩ := worstSyncedAt_spec snapshot hne
  rw [isFresh_iff]
  constructor
  · intro hfresh
    refine ⟨?_, ?_⟩
    · intro hop hhop
      obtain ⟨entry, hget, -⟩ := hfresh hop hhop
      exact Option.isSome_iff_exists.mpr ⟨entry, hget⟩
    · obtain ⟨entry, hget, hage⟩ := hfresh worst hworst
      rwa [heq, hopSyncedAt_of_get hget]
  · rintro ⟨hpresent, hage⟩ hop hhop
    obtain ⟨entry, hget⟩ := Option.isSome_iff_exists.mp (hpresent hop hhop)
    have hlater := hle hop hhop
    rw [hopSyncedAt_of_get hget] at hlater
    exact ⟨entry, hget, (sub_le_sub_left hlater now).trans hage⟩

theorem ne_nil_of_quotePath {snapshot : PoolSnapshot P} {path : Path} {input output : Amount}
    (h : quotePath snapshot path input = some output) : path.hops ≠ [] := by
  intro hnil
  unfold quotePath at h
  rw [if_pos hnil] at h
  cases h

variable [RustDecimal] {σ ν : Type}

/--
**The gate and the reported freshness agree:** a path passes exactly when its pools are all there
and its worst sync time is within the bound, so the time an opportunity reports is that of one of
its pools, and within the bound of its detection.
-/
theorem freshness_agrees (snapshot : PoolSnapshot P) (path : Path) (now : OffsetDateTime) :
    (path.hops ≠ [] → ∀ maxStaleness, isFresh snapshot path now maxStaleness = true ↔
      (∀ hop ∈ path.hops, (snapshot.get hop.pool).isSome = true) ∧
        now - worstSyncedAt snapshot path ≤ maxStaleness.toTime) ∧
    ∀ (sc : Scanner σ ν P) (opp : Opportunity) (s s' : σ),
      (sc.evaluate snapshot path now).run.run s = .ok (some opp, s') →
      opp.detectedAt - opp.worstPoolSyncedAt ≤ MAX_POOL_STALENESS.toTime ∧
      ∃ hop ∈ opp.path.hops, ∃ entry, snapshot.get hop.pool = some entry ∧
        opp.worstPoolSyncedAt = entry.poolMeta.syncedAt := by
  constructor
  · intro hne maxStaleness
    exact isFresh_iff_worstSyncedAt snapshot hne now maxStaleness
  · intro sc opp s s' h
    obtain ⟨hfresh, input, output, profitUsd, roi, s₁, -, hquote, -, -, rfl⟩ :=
      Scanner.evaluate_some h
    have hne := ne_nil_of_quotePath hquote
    obtain ⟨hpresent, hage⟩ := (isFresh_iff_worstSyncedAt snapshot hne now _).mp hfresh
    refine ⟨hage, ?_⟩
    obtain ⟨⟨worst, hworst, heq⟩, -⟩ := worstSyncedAt_spec snapshot hne
    obtain ⟨entry, hget⟩ := Option.isSome_iff_exists.mp (hpresent worst hworst)
    exact ⟨worst, hworst, entry, hget, heq.trans (hopSyncedAt_of_get hget)⟩

end ArbRouter
