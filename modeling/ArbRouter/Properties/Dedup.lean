import ArbRouter.Core.Rank
import ArbRouter.Properties.Finder

/-!
# What deduplication drops

The canonical key keeps the pool ids of a path and forgets its assets and their direction. Both
directions through a pool have one key, and so do two cycles through the same pools over
different intermediate assets; deduplication keeps only one of them.

* `keysIdentifyTrades_iff` — equal keys mean equal trades only where no pool can be traded
* `dedupKeepsTrades_iff` — and there alone every discarded opportunity survives as the same trade
-/

namespace ArbRouter

open Infra

variable {P : Type} [Pool P]

/-- The same path, or cycles that are rotations of each other. -/
def SameTrade (p q : Path) : Prop :=
  p.start = q.start ∧ p.hops = q.hops ∨ p.isCycle = true ∧ q.isCycle = true ∧ p.hops ~r q.hops

instance (p q : Path) : Decidable (SameTrade p q) := by
  unfold SameTrade
  infer_instance

/-- Paths found over a snapshot that share a key are the same trade. -/
def KeysIdentifyTrades (snap : PoolSnapshot P) : Prop :=
  ∀ (start start' : AssetId) (maxHops maxHops' : Nat),
    ∀ p ∈ findPaths ⟨snap⟩ start maxHops, ∀ q ∈ findPaths ⟨snap⟩ start' maxHops',
      p.canonicalKey = q.canonicalKey → SameTrade p q

/-- Of opportunities over paths found, only those are discarded whose trade survives. -/
def DedupKeepsTrades (snap : PoolSnapshot P) : Prop :=
  ∀ (order : IterOrder Opportunity) (opps : List Opportunity),
    (∀ opp ∈ opps, ∃ start maxHops, opp.path ∈ findPaths ⟨snap⟩ start maxHops) →
    ∀ opp ∈ opps, opp ∉ rankAndDedup order opps →
      ∃ kept ∈ rankAndDedup order opps, SameTrade opp.path kept.path

/-! ## Pools that can be traded -/

/-- The entry's pool lists two different assets. -/
def Tradable (e : PoolEntry P) : Prop := ∃ a ∈ e.assets, ∃ b ∈ e.assets, a ≠ b

theorem edgesOf_eq_nil {e : PoolEntry P} (h : ¬ Tradable e) {asset : AssetId}
    (ha : asset ∈ e.assets) : edgesOf asset e = [] := by
  unfold edgesOf
  rw [List.map_eq_nil_iff, List.filter_eq_nil_iff]
  intro other hother
  by_contra hne
  exact h ⟨other, hother, asset, ha, by simpa using hne⟩

/-- The edges leaving an asset, entry by entry. -/
theorem edgesFrom_fromEntries (block : UInt64) (takenAt : OffsetDateTime)
    (entries : List (PoolEntry P)) (asset : AssetId) :
    (Graph.mk (PoolSnapshot.fromEntries block takenAt entries)).edgesFrom asset
      = entries.flatMap fun e =>
          (List.replicate (e.assets.count asset) e).flatMap (edgesOf asset) := by
  unfold Graph.edgesFrom
  rw [PoolSnapshot.poolsFrom_fromEntries, List.flatMap_assoc]

/-- Entries that cannot be traded contribute no edges. -/
theorem flatMap_edges_eq_nil {entries : List (PoolEntry P)} (h : ∀ e ∈ entries, ¬ Tradable e)
    (asset : AssetId) :
    (entries.flatMap fun e =>
      (List.replicate (e.assets.count asset) e).flatMap (edgesOf asset)) = [] := by
  rw [List.flatMap_eq_nil_iff]
  intro e he
  rw [List.flatMap_eq_nil_iff]
  intro e' he'
  obtain ⟨hcount, rfl⟩ := List.mem_replicate.mp he'
  exact edgesOf_eq_nil (h e' he) (List.count_pos_iff.mp (Nat.pos_of_ne_zero hcount))

/-- Without a tradable pool no path is found. -/
theorem findPaths_eq_nil {block : UInt64} {takenAt : OffsetDateTime}
    {entries : List (PoolEntry P)} (h : ∀ e ∈ entries, ¬ Tradable e) (start : AssetId)
    (maxHops : Nat) (p : Path) :
    p ∉ findPaths ⟨PoolSnapshot.fromEntries block takenAt entries⟩ start maxHops := by
  intro hp
  obtain ⟨es, hne, -, hwalk, -⟩ := mem_findPaths.mp hp
  obtain ⟨edge, hedge⟩ := List.exists_mem_of_ne_nil es hne
  obtain ⟨hdiff, e, he, -, hs, hd⟩ := held_of_isWalk hwalk edge hedge
  exact h e he ⟨_, hs, _, hd, hdiff⟩

/-- The first tradable entry: the entries before it contribute no edges. -/
theorem exists_first_tradable {entries : List (PoolEntry P)} (h : ∃ e ∈ entries, Tradable e) :
    ∃ before e after, entries = before ++ e :: after ∧ Tradable e ∧
      ∀ e' ∈ before, ¬ Tradable e' := by
  induction entries with
  | nil =>
    obtain ⟨e, he, -⟩ := h
    exact absurd he List.not_mem_nil
  | cons e rest ih =>
    by_cases he : Tradable e
    · exact ⟨[], e, rest, rfl, he, fun _ h => absurd h List.not_mem_nil⟩
    · obtain ⟨e', he', ht⟩ := h
      have hrest : ∃ e ∈ rest, Tradable e := by
        rcases List.mem_cons.mp he' with rfl | hmem
        · exact absurd ht he
        · exact ⟨e', hmem, ht⟩
      obtain ⟨before, e₁, after, rfl, ht₁, hbefore⟩ := ih hrest
      refine ⟨e :: before, e₁, after, rfl, ht₁, ?_⟩
      intro e₂ he₂
      rcases List.mem_cons.mp he₂ with rfl | hmem
      · exact he
      · exact hbefore e₂ hmem

/-- The edges of the first tradable entry come first, so the beam does not cut its first edge. -/
theorem singleton_mem_findPaths {block : UInt64} {takenAt : OffsetDateTime}
    {before after : List (PoolEntry P)} {e : PoolEntry P} {asset : AssetId} {edge : Edge}
    {edges : List Edge} (hbefore : ∀ e' ∈ before, ¬ Tradable e') (ha : asset ∈ e.assets)
    (hedges : edgesOf asset e = edge :: edges) :
    ⟨asset, [edge.hop]⟩ ∈ findPaths
      ⟨PoolSnapshot.fromEntries block takenAt (before ++ e :: after)⟩ asset 1 := by
  -- the index lists the entry once for each time its pool lists the asset
  obtain ⟨n, hn⟩ : ∃ n, e.assets.count asset = n + 1 :=
    Nat.exists_eq_succ_of_ne_zero (List.count_pos_iff.mpr ha).ne'
  have hfirst : ∃ rest, (Graph.mk (PoolSnapshot.fromEntries block takenAt
      (before ++ e :: after))).edgesFrom asset = edge :: rest := by
    rw [edgesFrom_fromEntries, List.flatMap_append, flatMap_edges_eq_nil hbefore, List.nil_append,
      List.flatMap_cons, hn, List.replicate_succ, List.flatMap_cons, hedges]
    exact ⟨_, rfl⟩
  obtain ⟨rest, hrest⟩ := hfirst
  refine mem_findPaths.mpr ⟨[edge], by simp, by simp, ⟨?_, trivial⟩, rfl⟩
  show edge ∈ Graph.frontier _ asset []
  unfold Graph.frontier
  rw [hrest]
  simp [BEAM_WIDTH]

/--
A tradable pool is found in both directions: two single hops that are different trades under
one key.
-/
theorem exists_opposite_paths (block : UInt64) (takenAt : OffsetDateTime)
    {entries : List (PoolEntry P)} (h : ∃ e ∈ entries, Tradable e) :
    ∃ a b : AssetId, ∃ id : PoolId,
      (⟨a, [⟨id, a, b⟩]⟩ ∈ findPaths ⟨PoolSnapshot.fromEntries block takenAt entries⟩ a 1) ∧
      (⟨b, [⟨id, b, a⟩]⟩ ∈ findPaths ⟨PoolSnapshot.fromEntries block takenAt entries⟩ b 1) ∧
      ¬ SameTrade ⟨a, [⟨id, a, b⟩]⟩ ⟨b, [⟨id, b, a⟩]⟩ ∧
      ¬ SameTrade ⟨b, [⟨id, b, a⟩]⟩ ⟨a, [⟨id, a, b⟩]⟩ := by
  obtain ⟨before, e, after, rfl, ⟨x, hx, y, hy, hxy⟩, hbefore⟩ := exists_first_tradable h
  -- `a` is the first asset listed and `b` the first one different from it
  obtain ⟨a, tail, hassets⟩ := List.exists_cons_of_ne_nil (List.ne_nil_of_mem hx)
  obtain ⟨b, others, hb⟩ : ∃ b others, e.assets.filter (· ≠ a) = b :: others := by
    refine List.exists_cons_of_ne_nil ?_
    by_cases hxa : x = a
    · exact List.ne_nil_of_mem
        (List.mem_filter.mpr ⟨hy, by simpa using fun h => hxy (hxa.trans h.symm)⟩)
    · exact List.ne_nil_of_mem (List.mem_filter.mpr ⟨hx, by simpa using hxa⟩)
  obtain ⟨hbmem, hba⟩ : b ∈ e.assets ∧ b ≠ a := by
    have := List.mem_filter.mp (hb ▸ List.mem_cons_self : b ∈ e.assets.filter (· ≠ a))
    exact ⟨this.1, by simpa using this.2⟩
  have hfrom_a : edgesOf a e = ⟨e.id, a, b⟩ :: others.map fun o => ⟨e.id, a, o⟩ := by
    rw [edgesOf, hb, List.map_cons]
  have hfrom_b : edgesOf b e
      = ⟨e.id, b, a⟩ :: (tail.filter (· ≠ b)).map fun o => ⟨e.id, b, o⟩ := by
    rw [edgesOf, hassets, List.filter_cons_of_pos (by simpa using hba.symm), List.map_cons]
  have hcycle : (Path.mk a [⟨e.id, a, b⟩]).isCycle = false := by
    exact decide_eq_false hba
  refine ⟨a, b, e.id,
    singleton_mem_findPaths hbefore (hassets ▸ List.mem_cons_self) hfrom_a,
    singleton_mem_findPaths hbefore hbmem hfrom_b, ?_, ?_⟩
  · rintro (⟨hstart, -⟩ | ⟨hcyc, -, -⟩)
    · exact hba hstart.symm
    · rw [hcycle] at hcyc
      simp at hcyc
  · rintro (⟨hstart, -⟩ | ⟨-, hcyc, -⟩)
    · exact hba hstart
    · rw [hcycle] at hcyc
      simp at hcyc

/-! ## Exactly when nothing is lost -/

/-- An opportunity that carries nothing but its path. -/
def unpriced (p : Path) : Opportunity :=
  ⟨⟨""⟩, p, ⟨Decimal.zero⟩, ⟨Decimal.zero⟩, none, 0, 0, 0, none⟩

/-- Two different trades of one key: deduplication discards one of them. -/
theorem not_dedupKeepsTrades {snap : PoolSnapshot P} {p q : Path} {start start' : AssetId}
    {maxHops maxHops' : Nat} (hp : p ∈ findPaths ⟨snap⟩ start maxHops)
    (hq : q ∈ findPaths ⟨snap⟩ start' maxHops') (hkey : p.canonicalKey = q.canonicalKey)
    (hpq : ¬ SameTrade p q) (hqp : ¬ SameTrade q p) : ¬ DedupKeepsTrades snap := by
  intro hkeeps
  have hfound : ∀ opp ∈ [unpriced p, unpriced q],
      ∃ start maxHops, opp.path ∈ findPaths ⟨snap⟩ start maxHops := by
    intro opp hopp
    rcases List.mem_pair.mp hopp with rfl | rfl
    · exact ⟨start, maxHops, hp⟩
    · exact ⟨start', maxHops', hq⟩
  have hself : ∀ r : Path, SameTrade r r := fun r => Or.inl ⟨rfl, rfl⟩
  have hdrop := hkeeps (IterOrder.stored _) [unpriced p, unpriced q] hfound
  set ranked := rankAndDedup (IterOrder.stored _) [unpriced p, unpriced q] with hranked
  by_cases hin : unpriced p ∈ ranked
  · -- `p` survives, so `q` is discarded and only `p` is left for it
    have hout : unpriced q ∉ ranked := by
      intro hq'
      have := eq_of_mem_rankAndDedup hin hq' hkey
      have hpq' : p = q := congrArg Opportunity.path this
      exact hpq (hpq' ▸ hself p)
    obtain ⟨kept, hkept, hsame⟩ := hdrop (unpriced q) (by simp) hout
    rcases List.mem_pair.mp (mem_of_mem_rankAndDedup hkept) with rfl | rfl
    · exact hqp hsame
    · exact hout hkept
  · -- `p` is discarded, and what is kept can only be `q`
    obtain ⟨kept, hkept, hsame⟩ := hdrop (unpriced p) (by simp) hin
    rcases List.mem_pair.mp (mem_of_mem_rankAndDedup hkept) with rfl | rfl
    · exact hin hkept
    · exact hpq hsame

theorem keysIdentifyTrades_iff (block : UInt64) (takenAt : OffsetDateTime)
    (entries : List (PoolEntry P)) :
    KeysIdentifyTrades (PoolSnapshot.fromEntries block takenAt entries)
      ↔ ∀ e ∈ entries, ¬ Tradable e := by
  constructor
  · intro hkeys e he ht
    obtain ⟨a, b, id, hab, hba, hne, -⟩ := exists_opposite_paths block takenAt ⟨e, he, ht⟩
    refine hne (hkeys a b 1 1 _ hab _ hba ?_)
    rw [Path.canonicalKey_singleton, Path.canonicalKey_singleton]
  · intro h start _ maxHops _ p hp
    exact absurd hp (findPaths_eq_nil h start maxHops p)

theorem dedupKeepsTrades_iff (block : UInt64) (takenAt : OffsetDateTime)
    (entries : List (PoolEntry P)) :
    DedupKeepsTrades (PoolSnapshot.fromEntries block takenAt entries)
      ↔ ∀ e ∈ entries, ¬ Tradable e := by
  constructor
  · intro hkeeps e he ht
    obtain ⟨a, b, id, hab, hba, hne, hne'⟩ := exists_opposite_paths block takenAt ⟨e, he, ht⟩
    refine not_dedupKeepsTrades hab hba ?_ hne hne' hkeeps
    rw [Path.canonicalKey_singleton, Path.canonicalKey_singleton]
  · intro h order opps hfound opp hopp
    obtain ⟨start, maxHops, hp⟩ := hfound opp hopp
    exact absurd hp (findPaths_eq_nil h start maxHops _)

/--
**Deduplication loses trades exactly where there are trades:** keys identify trades, and
discarded opportunities survive, if and only if no pool lists two different assets.
-/
theorem dedup_loses_no_trade_iff (block : UInt64) (takenAt : OffsetDateTime)
    (entries : List (PoolEntry P)) :
    KeysIdentifyTrades (PoolSnapshot.fromEntries block takenAt entries) ∧
      DedupKeepsTrades (PoolSnapshot.fromEntries block takenAt entries)
      ↔ ∀ e ∈ entries, ¬ Tradable e := by
  rw [keysIdentifyTrades_iff, dedupKeepsTrades_iff, and_self]

section

attribute [local instance] RustDecimal.reference

/-- Two pools over the same three assets. -/
def threeAssetPools : List (PoolEntry FakePool) :=
  [fakeEntry "p1" [assetA, assetB, assetC] Decimal.one 0,
    fakeEntry "p2" [assetA, assetB, assetC] Decimal.one 0]

def cycleOverB : Path := ⟨assetA, [⟨⟨"p1"⟩, assetA, assetB⟩, ⟨⟨"p2"⟩, assetB, assetA⟩]⟩

def cycleOverC : Path := ⟨assetA, [⟨⟨"p1"⟩, assetA, assetC⟩, ⟨⟨"p2"⟩, assetC, assetA⟩]⟩

/-- The cycles over B and over C are different trades from one asset under one key. -/
theorem cycles_share_key :
    ¬ KeysIdentifyTrades (PoolSnapshot.fromEntries 1 0 threeAssetPools) ∧
      ¬ DedupKeepsTrades (PoolSnapshot.fromEntries 1 0 threeAssetPools) := by
  have hb : cycleOverB ∈ findPaths ⟨PoolSnapshot.fromEntries 1 0 threeAssetPools⟩ assetA 2 := by
    decide
  have hc : cycleOverC ∈ findPaths ⟨PoolSnapshot.fromEntries 1 0 threeAssetPools⟩ assetA 2 := by
    decide
  have hkey : cycleOverB.canonicalKey = cycleOverC.canonicalKey := by decide
  constructor
  · intro hkeys
    exact absurd (hkeys assetA assetA 2 2 _ hb _ hc hkey) (by decide)
  · exact not_dedupKeepsTrades hb hc hkey (by decide) (by decide)

end

end ArbRouter
