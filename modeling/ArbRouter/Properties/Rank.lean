import ArbRouter.Core.Rank
import ArbRouter.Infra.Rotation
import ArbRouter.Properties.Finder

/-!
# What ranking keeps

* `rotations_collapse` — rotations of a cycle share a key, so at most one of them is kept
* `rankAndDedup_spec` — one opportunity for each key, the first of highest score, best first
-/

namespace ArbRouter

open Infra

namespace Path

/-! ## The least pool id -/

theorem minIdx_lt {ids : List String} (h : ids ≠ []) : minIdx ids < ids.length := by
  unfold minIdx
  cases hmin : (List.range ids.length).argmin fun i => ids.getD i "" with
  | none => simpa using h (by simpa using List.argmin_eq_none.mp hmin)
  | some i => exact List.mem_range.mp (List.argmin_mem hmin)

/-- The id at `minIdx` is the smallest. -/
theorem getD_minIdx_le {ids : List String} {x : String} (hx : x ∈ ids) :
    ids.getD (minIdx ids) "" ≤ x := by
  obtain ⟨j, hj, rfl⟩ := List.getElem_of_mem hx
  have hmem : j ∈ List.range ids.length := List.mem_range.mpr hj
  unfold minIdx
  cases hmin : (List.range ids.length).argmin fun i => ids.getD i "" with
  | none =>
    rw [List.argmin_eq_none.mp hmin] at hmem
    exact absurd hmem List.not_mem_nil
  | some i =>
    have hle := List.le_of_mem_argmin hmem hmin
    rwa [List.getD_eq_getElem _ _ hj] at hle

/-- The rotation at `minIdx` starts with the smallest id. -/
theorem exists_head_rotate_minIdx {ids : List String} (h : ids ≠ []) :
    ∃ a, (ids.rotate (minIdx ids)).head? = some a ∧ ∀ x ∈ ids, a ≤ x := by
  have hlt := minIdx_lt h
  refine ⟨ids.getD (minIdx ids) "", ?_, fun x hx => getD_minIdx_le hx⟩
  rw [List.head?_rotate hlt, List.getD_eq_getElem _ _ hlt, List.getElem?_eq_getElem hlt]

/-- The key of a cycle joins the rotation of its ids that starts with the smallest. -/
theorem canonicalKey_of_isCycle {p : Path} (hne : p.hops ≠ []) (hc : p.isCycle = true) :
    p.canonicalKey = String.intercalate "->" (p.ids.rotate (minIdx p.ids)) := by
  have hids : p.ids ≠ [] := by
    unfold ids
    simpa using hne
  unfold canonicalKey
  rw [if_neg hne, if_pos hc, List.rotate_eq_drop_append_take (minIdx_lt hids).le]

/-! ## Rotations -/

theorem destination_append (start : AssetId) (before after : List Hop) :
    (Path.mk start (before ++ after)).destination
      = (Path.mk (Path.mk start before).destination after).destination := by
  unfold destination
  dsimp only
  rw [List.getLast?_append]
  cases after.getLast? <;> rfl

/-- The path that starts at the source of hop `k` and takes the hops from there on, all around. -/
def rotate (p : Path) (k : Nat) (hk : k < p.hops.length) : Path :=
  ⟨p.hops[k].pair.source, p.hops.rotate k⟩

/-- A cycle whose hops chain and whose pools are distinct. -/
structure IsSimpleCycle (p : Path) : Prop where
  ne_nil : p.hops ≠ []
  chained : Chained p.start p.hops
  isCycle : p.isCycle = true
  nodup : (p.hops.map (·.pool)).Nodup

end Path

theorem chained_append {start : AssetId} {before after : List Hop} :
    Chained start (before ++ after) ↔
      Chained start before ∧ Chained (Path.mk start before).destination after := by
  induction before generalizing start with
  | nil => simp [Chained, Path.destination]
  | cons h rest ih =>
    have hdest : (Path.mk start (h :: rest)).destination
        = (Path.mk h.pair.destination rest).destination := Path.destination_append start [h] rest
    rw [hdest, List.cons_append, Chained, Chained, ih, and_assoc]

namespace Path.IsSimpleCycle

variable {p : Path}

/-- The rotated path runs from hop `k` to the end, and on from the start to hop `k`. -/
theorem rotate (hp : p.IsSimpleCycle) (k : Nat) (hk : k < p.hops.length) :
    (p.rotate k hk).IsSimpleCycle := by
  have hsplit : p.hops = p.hops.take k ++ p.hops.drop k := (List.take_append_drop k p.hops).symm
  have hdrop : p.hops.drop k = p.hops[k] :: p.hops.drop (k + 1) := List.drop_eq_getElem_cons hk
  have hne : p.hops.drop k ≠ [] := by
    rw [hdrop]
    exact List.cons_ne_nil _ _
  have hchain := hp.chained
  rw [hsplit, chained_append] at hchain
  obtain ⟨hbefore, hafter⟩ := hchain
  -- hop `k` leaves the asset that the hops before it reach
  have hsource : p.hops[k].pair.source = (Path.mk p.start (p.hops.take k)).destination := by
    rw [hdrop] at hafter
    exact hafter.1
  -- the hops from `k` on lead back to the start
  have hback : (Path.mk p.hops[k].pair.source (p.hops.drop k)).destination = p.start := by
    have hclosed : p.destination = p.start := of_decide_eq_true hp.isCycle
    rw [hsource, ← Path.destination_append, ← hsplit]
    exact hclosed
  have hrot : p.hops.rotate k = p.hops.drop k ++ p.hops.take k :=
    List.rotate_eq_drop_append_take hk.le
  refine ⟨?_, ?_, ?_, ?_⟩
  · show p.hops.rotate k ≠ []
    rw [hrot]
    exact List.append_ne_nil_of_left_ne_nil hne _
  · show Chained p.hops[k].pair.source (p.hops.rotate k)
    rw [hrot, chained_append, hback, hsource]
    exact ⟨hafter, hbefore⟩
  · refine decide_eq_true ?_
    show (Path.mk p.hops[k].pair.source (p.hops.rotate k)).destination = p.hops[k].pair.source
    rw [hrot, Path.destination_append, hback, hsource]
  · show ((p.hops.rotate k).map (·.pool)).Nodup
    rw [List.map_rotate]
    exact List.nodup_rotate.mpr hp.nodup

/-- The pool ids of a simple cycle are distinct. -/
theorem nodup_ids (hp : p.IsSimpleCycle) : p.ids.Nodup := by
  have hinj : Function.Injective PoolId.asStr := by
    rintro ⟨a⟩ ⟨b⟩ (rfl : a = b)
    rfl
  have hids : p.ids = (p.hops.map (·.pool)).map PoolId.asStr := List.map_map.symm
  rw [hids]
  exact hp.nodup.map hinj

/-- **All rotations of a cycle have one key.** -/
theorem canonicalKey_rotate (hp : p.IsSimpleCycle) (k : Nat) (hk : k < p.hops.length) :
    (p.rotate k hk).canonicalKey = p.canonicalKey := by
  have hids : (p.rotate k hk).ids = p.ids.rotate k := List.map_rotate _ _ _
  have hne : p.ids ≠ [] := by
    unfold Path.ids
    simpa using hp.ne_nil
  have hne' : p.ids.rotate k ≠ [] := by
    simpa using hne
  obtain ⟨a, ha, hle⟩ := exists_head_rotate_minIdx hne
  obtain ⟨a', ha', hle'⟩ := exists_head_rotate_minIdx hne'
  rw [canonicalKey_of_isCycle (hp.rotate k hk).ne_nil (hp.rotate k hk).isCycle,
    canonicalKey_of_isCycle hp.ne_nil hp.isCycle, hids]
  refine congrArg (String.intercalate "->") ?_
  refine eq_of_isRotated_of_least hp.nodup_ids ?_ ⟨_, rfl⟩ ha' ha ?_ hle
  · exact List.IsRotated.trans ⟨k, rfl⟩ ⟨_, rfl⟩
  · intro x hx
    exact hle' x (List.mem_rotate.mpr hx)

end Path.IsSimpleCycle

/-- The path is a rotation of `p`. -/
def Path.IsRotationOf (q p : Path) : Prop := ∃ k, ∃ hk : k < p.hops.length, q = p.rotate k hk

/--
**Rotations of a cycle collapse:** each is again a cycle with the same key, and of any list of
opportunities ranking keeps at most one whose path is a rotation of the cycle.
-/
theorem rotations_collapse (p : Path) (hp : p.IsSimpleCycle) :
    (∀ k, ∀ hk : k < p.hops.length,
      (p.rotate k hk).isCycle = true ∧ (p.rotate k hk).canonicalKey = p.canonicalKey) ∧
    ∀ (order : IterOrder Opportunity) (opps : List Opportunity),
      (rankAndDedup order opps).Pairwise fun a b =>
        ¬ (a.path.IsRotationOf p ∧ b.path.IsRotationOf p) := by
  constructor
  · intro k hk
    exact ⟨(hp.rotate k hk).isCycle, hp.canonicalKey_rotate k hk⟩
  · intro order opps
    refine (List.pairwise_map.mp (nodup_keys_rankAndDedup order opps)).imp ?_
    rintro a b hne ⟨⟨k, hk, ha⟩, l, hl, hb⟩
    apply hne
    rw [ha, hb, hp.canonicalKey_rotate k hk, hp.canonicalKey_rotate l hl]

/-- A cycle that passes through its start asset in the middle. -/
def figureEight : Path :=
  ⟨assetA, [⟨⟨"p3"⟩, assetA, assetB⟩, ⟨⟨"p1"⟩, assetB, assetA⟩, ⟨⟨"p4"⟩, assetA, assetC⟩,
    ⟨⟨"p2"⟩, assetC, assetA⟩]⟩

theorem canonicalKey_figureEight :
    figureEight.canonicalKey = "p1->p4->p2->p3" ∧
    ∀ k, ∀ hk : k < 4, (figureEight.rotate k hk).canonicalKey = "p1->p4->p2->p3" := by
  have hkey : figureEight.canonicalKey = "p1->p4->p2->p3" := by decide
  refine ⟨hkey, ?_⟩
  intro k hk
  rw [← hkey]
  exact ((rotations_collapse figureEight
    ⟨by decide, ⟨rfl, rfl, rfl, rfl, trivial⟩, by decide, by decide⟩).1 k hk).2

/-! ## The specification -/

/--
**Ranking keeps,** of each key that occurs, the first opportunity of highest score and nothing
else, best first. Neither the order in which the map hands out its values nor the order and number
of the opportunities changes the scores that are returned.
-/
theorem rankAndDedup_spec (order : IterOrder Opportunity) (opps : List Opportunity) :
    (∀ opp, opp ∈ rankAndDedup order opps ↔
      HashMap.FirstBest (fun opp => opp.path.canonicalKey) score opps opp) ∧
    ((rankAndDedup order opps).map fun opp => opp.path.canonicalKey).Perm
      (opps.map fun opp => opp.path.canonicalKey).dedup ∧
    (rankAndDedup order opps).Pairwise (fun a b => score b ≤ score a) ∧
    ∀ (order' : IterOrder Opportunity) (opps' : List Opportunity),
      (∀ opp, opp ∈ opps' ↔ opp ∈ opps) →
      (rankAndDedup order' opps').map score = (rankAndDedup order opps).map score ∧
      ∀ a ∈ rankAndDedup order opps, ∀ b ∈ rankAndDedup order' opps',
        a.path.canonicalKey = b.path.canonicalKey → score a = score b := by
  refine ⟨fun opp => HashMap.mem_rankBy_iff, HashMap.map_key_rankBy_perm order opps,
    pairwise_rankAndDedup order opps, ?_⟩
  intro order' opps' hmem
  refine ⟨HashMap.map_score_rankBy hmem, ?_⟩
  intro a ha b hb hkey
  -- each is at least as good as the other, which is an opportunity of its list too
  have hab : score a ≤ score b :=
    (HashMap.of_mem_rankBy hb).2 a ((hmem a).mpr (mem_of_mem_rankAndDedup ha)) hkey
  have hba : score b ≤ score a :=
    (HashMap.of_mem_rankBy ha).2 b ((hmem b).mp (mem_of_mem_rankAndDedup hb)) hkey.symm
  exact le_antisymm hab hba

end ArbRouter
