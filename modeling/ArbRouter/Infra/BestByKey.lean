import ArbRouter.Infra.HashMap

/-!
# Keeping the best value of each key

A hash map filled by a loop that replaces the value of a key only by one of higher score, and the
ranking of its values by a stable sort.

* `FirstBest` — a value scores as high as any of its key, and is the first one that does
* `lookup_bestBy` — the loop computes the first maximum of each key
* `rankBy` — the values, best first, whatever order the map is iterated in
* `mem_rankBy_iff`, `map_score_rankBy` — what the ranking consists of, and its sequence of scores
-/

namespace Infra

namespace HashMap

variable {K V S : Type} [LinearOrder S] {key : V → K} {score : V → S}

/-! ## First best values -/

/-- `v` is among `vs`, scores as high as every value of its key, and higher than those before it. -/
def FirstBest (key : V → K) (score : V → S) (vs : List V) (v : V) : Prop :=
  ∃ before after, vs = before ++ v :: after ∧ (∀ w ∈ before, key w = key v → score w < score v) ∧
    ∀ w ∈ after, key w = key v → score w ≤ score v

namespace FirstBest

variable {vs : List V} {v w : V}

theorem mem (h : FirstBest key score vs v) : v ∈ vs := by
  obtain ⟨before, after, rfl, -⟩ := h
  exact List.mem_append_right _ List.mem_cons_self

theorem le (h : FirstBest key score vs v) (hw : w ∈ vs) (hkey : key w = key v) :
    score w ≤ score v := by
  obtain ⟨before, after, rfl, hbefore, hafter⟩ := h
  rcases List.mem_append.mp hw with hw | hw
  · exact (hbefore w hw hkey).le
  · rcases List.mem_cons.mp hw with rfl | hw
    · exact le_refl _
    · exact hafter w hw hkey

/-- A key has one first best value. -/
theorem unique (hv : FirstBest key score vs v) (hw : FirstBest key score vs w)
    (hkey : key v = key w) : v = w := by
  have hvw := hw.le hv.mem hkey
  have hwv := hv.le hw.mem hkey.symm
  obtain ⟨before, after, rfl, hbefore, -⟩ := hv
  obtain ⟨before', after', heq, hbefore', -⟩ := hw
  -- were one of them before the other, it would score less
  rcases List.append_eq_append_iff.mp heq with ⟨between, rfl, hrest⟩ | ⟨between, rfl, hrest⟩
  · cases between with
    | nil => exact (List.cons.inj hrest).1
    | cons x between =>
      obtain ⟨rfl, -⟩ := List.cons.inj hrest
      exact absurd hwv (not_le.mpr (hbefore' v (by simp) hkey))
  · cases between with
    | nil => exact (List.cons.inj hrest).1.symm
    | cons x between =>
      obtain ⟨rfl, -⟩ := List.cons.inj hrest
      exact absurd hvw (not_le.mpr (hbefore w (by simp) hkey.symm))

theorem head {rest : List V} (h : ∀ w ∈ rest, key w = key v → score w ≤ score v) :
    FirstBest key score (v :: rest) v :=
  ⟨[], rest, rfl, fun _ hw => absurd hw List.not_mem_nil, h⟩

theorem cons (h : FirstBest key score vs v) (hw : key w = key v → score w < score v) :
    FirstBest key score (w :: vs) v := by
  obtain ⟨before, after, rfl, hbefore, hafter⟩ := h
  refine ⟨w :: before, after, rfl, ?_, hafter⟩
  intro u hu hkey
  rcases List.mem_cons.mp hu with rfl | hu
  · exact hw hkey
  · exact hbefore u hu hkey

end FirstBest

variable [DecidableEq K]

/-- The first maximum among the values of a key is the first best value of the key. -/
theorem FirstBest.of_argmax {k : K} {vs : List V} {v : V}
    (h : (vs.filter fun w => key w = k).argmax score = some v) :
    key v = k ∧ FirstBest key score vs v := by
  induction vs generalizing v with
  | nil => cases h
  | cons a rest ih =>
    by_cases hk : key a = k
    · rw [List.filter_cons_of_pos (by simpa using hk), List.argmax_cons] at h
      cases hrest : (rest.filter fun w => key w = k).argmax score with
      | none =>
        rw [hrest] at h
        obtain rfl : a = v := Option.some.inj h
        refine ⟨hk, FirstBest.head fun w hw hkey => ?_⟩
        have hnone := List.filter_eq_nil_iff.mp (List.argmax_eq_none.mp hrest) w hw
        exact absurd (hkey.trans hk) (by simpa using hnone)
      | some c =>
        obtain ⟨hc, hfirst⟩ := ih hrest
        rw [hrest] at h
        by_cases hlt : score a < score c
        · obtain rfl : c = v := by simpa [hlt] using h
          exact ⟨hc, hfirst.cons fun _ => hlt⟩
        · obtain rfl : a = v := by simpa [hlt] using h
          refine ⟨hk, FirstBest.head fun w hw hkey => ?_⟩
          exact (hfirst.le hw (hkey.trans (hk.trans hc.symm))).trans (not_lt.mp hlt)
    · rw [List.filter_cons_of_neg (by simpa using hk)] at h
      obtain ⟨hv, hfirst⟩ := ih h
      exact ⟨hv, hfirst.cons fun hkey => absurd (hkey.trans hv) hk⟩

/-! ## The loop -/

/-- Insert `v` unless the map holds a value of its key that scores at least as high. -/
def keepBest (key : V → K) (score : V → S) (best : HashMap K V) (v : V) : HashMap K V :=
  match best.lookup (key v) with
  | some existing => if score v ≤ score existing then best else best.insert (key v) v
  | none => best.insert (key v) v

/-- The best value of each key of `vs`. -/
def bestBy (key : V → K) (score : V → S) (vs : List V) : HashMap K V :=
  vs.foldl (keepBest key score) ∅

/-- One round changes what its key holds, and only to a value of higher score. -/
theorem lookup_keepBest (best : HashMap K V) (v : V) (k : K) :
    (keepBest key score best v).lookup k = if key v = k then
      match best.lookup k with
      | some u => if score u < score v then some v else some u
      | none => some v
    else best.lookup k := by
  by_cases hk : key v = k
  · subst hk
    rw [if_pos rfl]
    unfold keepBest
    cases hlook : best.lookup (key v) with
    | none => exact AList.lookup_insert best
    | some u =>
      by_cases hle : score v ≤ score u
      · simp only [if_pos hle, if_neg (not_lt.mpr hle), hlook]
      · simp only [if_neg hle, if_pos (not_le.mp hle)]
        exact AList.lookup_insert best
  · rw [if_neg hk]
    have hinsert : (best.insert (key v) v).lookup k = best.lookup k :=
      AList.lookup_insert_ne fun h => hk h.symm
    unfold keepBest
    cases best.lookup (key v) with
    | none => exact hinsert
    | some u =>
      dsimp only
      split
      · rfl
      · exact hinsert

/-- **The loop computes, under each key, the first best value of the key.** -/
theorem lookup_bestBy (key : V → K) (score : V → S) (vs : List V) (k : K) :
    (bestBy key score vs).lookup k = (vs.filter fun v => key v = k).argmax score := by
  induction vs using List.reverseRecOn with
  | nil => simp [bestBy]
  | append_singleton vs v ih =>
    unfold bestBy at ih ⊢
    rw [List.foldl_append, List.foldl_cons, List.foldl_nil, lookup_keepBest, ih, List.filter_append]
    by_cases hk : key v = k
    · rw [if_pos hk, List.filter_cons_of_pos (by simpa using hk), List.filter_nil,
        List.argmax_concat]
      cases (vs.filter fun w => key w = k).argmax score <;> rfl
    · rw [if_neg hk, List.filter_cons_of_neg (by simpa using hk), List.filter_nil, List.append_nil]

/-- The map holds under a key the first best of its values, and nothing under other keys. -/
theorem lookup_bestBy_eq_some {vs : List V} {k : K} {v : V} :
    (bestBy key score vs).lookup k = some v ↔ key v = k ∧ FirstBest key score vs v := by
  rw [lookup_bestBy]
  constructor
  · exact FirstBest.of_argmax
  · rintro ⟨rfl, hv⟩
    cases h : (vs.filter fun w => key w = key v).argmax score with
    | none =>
      have hmem : v ∈ vs.filter fun w => key w = key v := List.mem_filter.mpr ⟨hv.mem, by simp⟩
      rw [List.argmax_eq_none.mp h] at hmem
      exact absurd hmem List.not_mem_nil
    | some w =>
      obtain ⟨hkey, hw⟩ := FirstBest.of_argmax h
      rw [hw.unique hv hkey]

/-- Under a key the map holds one of the key's values, and none of them scores higher. -/
def BestOf (key : V → K) (score : V → S) (vs : List V) (best : HashMap K V) : Prop :=
  ∀ k, match best.lookup k with
    | some v => v ∈ vs ∧ key v = k ∧ ∀ w ∈ vs, key w = k → score w ≤ score v
    | none => ∀ w ∈ vs, key w ≠ k

theorem bestOf_bestBy (key : V → K) (score : V → S) (vs : List V) :
    BestOf key score vs (bestBy key score vs) := by
  intro k
  cases hlook : (bestBy key score vs).lookup k with
  | some v =>
    obtain ⟨rfl, hfirst⟩ := lookup_bestBy_eq_some.mp hlook
    exact ⟨hfirst.mem, rfl, fun w hw hwk => hfirst.le hw hwk⟩
  | none =>
    rw [lookup_bestBy, List.argmax_eq_none, List.filter_eq_nil_iff] at hlook
    intro w hw
    simpa using hlook w hw

theorem of_lookup_bestBy {vs : List V} {k : K} {v : V}
    (h : (bestBy key score vs).lookup k = some v) :
    v ∈ vs ∧ key v = k ∧ ∀ w ∈ vs, key w = k → score w ≤ score v := by
  have := bestOf_bestBy key score vs k
  rwa [h] at this

theorem exists_lookup_bestBy {vs : List V} {v : V} (h : v ∈ vs) :
    ∃ u, (bestBy key score vs).lookup (key v) = some u := by
  have := bestOf_bestBy key score vs (key v)
  cases hlook : (bestBy key score vs).lookup (key v) with
  | none => rw [hlook] at this; exact absurd rfl (this v h)
  | some u => exact ⟨u, rfl⟩

/-! ## Ranking -/

/-- The values of the map in the order of one iteration, then sorted best first (stably). -/
def rankBy (order : IterOrder V) (key : V → K) (score : V → S) (vs : List V) : List V :=
  (order.run (bestBy key score vs).values).insertionSort fun a b => score b ≤ score a

theorem mem_rankBy {order : IterOrder V} {vs : List V} {v : V} :
    v ∈ rankBy order key score vs ↔ ∃ k, (bestBy key score vs).lookup k = some v := by
  unfold rankBy
  rw [List.mem_insertionSort, order.mem_run, mem_values]

/-- A ranked value is one of the values, and the best of its key. -/
theorem of_mem_rankBy {order : IterOrder V} {vs : List V} {v : V}
    (h : v ∈ rankBy order key score vs) :
    v ∈ vs ∧ ∀ w ∈ vs, key w = key v → score w ≤ score v := by
  obtain ⟨k, hk⟩ := mem_rankBy.mp h
  obtain ⟨hmem, rfl, hmax⟩ := of_lookup_bestBy hk
  exact ⟨hmem, hmax⟩

/-- Every key is represented by a value that scores at least as high as any of its values. -/
theorem exists_mem_rankBy (order : IterOrder V) {vs : List V} {v : V} (h : v ∈ vs) :
    ∃ u ∈ rankBy order key score vs, key u = key v ∧ score v ≤ score u := by
  obtain ⟨u, hu⟩ : ∃ u, (bestBy key score vs).lookup (key v) = some u := exists_lookup_bestBy h
  obtain ⟨-, huk, hmax⟩ := of_lookup_bestBy hu
  exact ⟨u, mem_rankBy.mpr ⟨key v, hu⟩, huk, hmax v h rfl⟩

theorem pairwise_rankBy (order : IterOrder V) (vs : List V) :
    (rankBy order key score vs).Pairwise fun a b => score b ≤ score a := by
  have : Std.Total fun a b : V => score b ≤ score a := ⟨fun a b => le_total (score b) (score a)⟩
  have : IsTrans V fun a b : V => score b ≤ score a := ⟨fun _ _ _ hab hbc => hbc.trans hab⟩
  exact List.pairwise_insertionSort _ _

/-- No two ranked values share a key. -/
theorem nodup_map_key_rankBy (order : IterOrder V) (vs : List V) :
    ((rankBy order key score vs).map key).Nodup := by
  have hperm : (rankBy order key score vs).Perm (bestBy key score vs).values :=
    (List.perm_insertionSort _ _).trans (order.perm _)
  refine (hperm.map key).nodup_iff.mpr ?_
  have hkeys : (bestBy key score vs).values.map key = (bestBy key score vs).keys := by
    unfold values
    rw [List.map_map]
    refine List.map_congr_left ?_
    rintro ⟨k, v⟩ he
    exact (of_lookup_bestBy (AList.mem_lookup_iff.mpr he)).2.1
  rw [hkeys]
  exact (bestBy key score vs).nodupKeys

/-- **The ranked values** are the first best ones. -/
theorem mem_rankBy_iff {order : IterOrder V} {vs : List V} {v : V} :
    v ∈ rankBy order key score vs ↔ FirstBest key score vs v := by
  rw [mem_rankBy]
  constructor
  · rintro ⟨k, hk⟩
    exact (lookup_bestBy_eq_some.mp hk).2
  · intro hv
    exact ⟨key v, lookup_bestBy_eq_some.mpr ⟨rfl, hv⟩⟩

/-- Every key of the values is represented once. -/
theorem map_key_rankBy_perm (order : IterOrder V) (vs : List V) :
    ((rankBy order key score vs).map key).Perm (vs.map key).dedup := by
  refine (List.perm_ext_iff_of_nodup (nodup_map_key_rankBy order vs) (List.nodup_dedup _)).mpr ?_
  intro k
  rw [List.mem_dedup, List.mem_map, List.mem_map]
  constructor
  · rintro ⟨v, hv, rfl⟩
    exact ⟨v, (of_mem_rankBy hv).1, rfl⟩
  · rintro ⟨v, hv, rfl⟩
    obtain ⟨u, hu, hkey, -⟩ : ∃ u ∈ rankBy order key score vs, key u = key v ∧ score v ≤ score u :=
      exists_mem_rankBy order hv
    exact ⟨u, hu, hkey⟩

/-- A key is ranked with the highest score that its values reach. -/
theorem mem_map_key_score_rankBy {order : IterOrder V} {vs : List V} {k : K} {s : S} :
    (k, s) ∈ (rankBy order key score vs).map (fun v => (key v, score v)) ↔
      (∃ v ∈ vs, key v = k ∧ score v = s) ∧ ∀ w ∈ vs, key w = k → score w ≤ s := by
  rw [List.mem_map]
  constructor
  · rintro ⟨v, hv, heq⟩
    obtain ⟨rfl, rfl⟩ := Prod.mk.inj heq
    obtain ⟨hmem, hmax⟩ := of_mem_rankBy hv
    exact ⟨⟨v, hmem, rfl, rfl⟩, hmax⟩
  · rintro ⟨⟨v, hv, rfl, rfl⟩, hmax⟩
    obtain ⟨u, hu, hkey, hle⟩ :
        ∃ u ∈ rankBy order key score vs, key u = key v ∧ score v ≤ score u :=
      exists_mem_rankBy order hv
    refine ⟨u, hu, Prod.ext hkey ?_⟩
    exact le_antisymm (hmax u (of_mem_rankBy hu).1 hkey) hle

/-- **The scores of the ranking** depend neither on the iteration order nor on how often and in
which order the values occur. -/
theorem map_score_rankBy {order order' : IterOrder V} {vs vs' : List V}
    (h : ∀ v, v ∈ vs ↔ v ∈ vs') :
    (rankBy order key score vs).map score = (rankBy order' key score vs').map score := by
  have hnodup : ∀ (order : IterOrder V) (vs : List V),
      ((rankBy order key score vs).map fun v => (key v, score v)).Nodup := by
    intro order vs
    have hkeys : ((rankBy order key score vs).map key).Nodup := nodup_map_key_rankBy order vs
    exact List.Nodup.of_map Prod.fst (by rwa [List.map_map])
  have hpairs : ((rankBy order key score vs).map fun v => (key v, score v)).Perm
      ((rankBy order' key score vs').map fun v => (key v, score v)) := by
    refine (List.perm_ext_iff_of_nodup (hnodup order vs) (hnodup order' vs')).mpr ?_
    rintro ⟨k, s⟩
    simp only [mem_map_key_score_rankBy, h]
  have hscores := hpairs.map Prod.snd
  rw [List.map_map, List.map_map] at hscores
  have hsorted : ∀ (order : IterOrder V) (vs : List V),
      ((rankBy order key score vs).map score).Pairwise fun a b => b ≤ a :=
    fun order vs => List.pairwise_map.mpr (pairwise_rankBy order vs)
  -- two sorted lists with the same elements are one list
  exact hscores.eq_of_pairwise (fun a b _ _ hba hab => le_antisymm hab hba) (hsorted order vs)
    (hsorted order' vs')

end HashMap

end Infra
