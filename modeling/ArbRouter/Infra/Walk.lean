import Mathlib

/-!
# Bounded walks

Depth-first enumeration of the walks from a node. Which edges are followed may depend on the
labels already on the walk, so this covers searches that never use a label twice and searches
that cut the fan-out of a node.

* `Search.walks` — all walks of at most a given length, each before its extensions
* `Search.mem_walks` — soundness and completeness
* `Search.nodup_walks` — no walk is enumerated twice
* `Search.walks_filter` — the shorter walks stand in the same order at every depth
* `Search.length_walks_le`, `IsWalk.length_le` — how many walks there are, and how long they are
* `Search.walks_eq_of_le` — from some depth on there are no further ones
-/

namespace Infra

/-- A graph to be searched: the edges followed from a node, given the labels in use. -/
structure Search (N E L : Type) where
  next : N → List L → List E
  target : E → N
  label : E → L

namespace Search

variable {N E L : Type} (s : Search N E L)

/-- The nonempty walks of at most `depth` edges, in depth-first order. -/
def walks : Nat → N → List L → List (List E)
  | 0, _, _ => []
  | depth + 1, n, used =>
    (s.next n used).flatMap fun e =>
      [e] :: (walks depth (s.target e) (used ++ [s.label e])).map (e :: ·)

/-- Each edge is one that is followed where the walk stands. -/
def IsWalk : N → List L → List E → Prop
  | _, _, [] => True
  | n, used, e :: rest => e ∈ s.next n used ∧ IsWalk (s.target e) (used ++ [s.label e]) rest

/-- **The enumeration is sound and complete.** -/
theorem mem_walks {depth : Nat} {n : N} {used : List L} {es : List E} :
    es ∈ s.walks depth n used ↔ es ≠ [] ∧ es.length ≤ depth ∧ s.IsWalk n used es := by
  induction depth generalizing n used es with
  | zero =>
    simp only [walks, List.not_mem_nil, false_iff]
    rintro ⟨hne, hlen, -⟩
    exact hne (List.length_eq_zero_iff.mp (Nat.le_zero.mp hlen))
  | succ depth ih =>
    rw [walks, List.mem_flatMap]
    constructor
    · rintro ⟨e, he, hes⟩
      -- the walk that stops after `e` comes before those that go on
      rcases List.mem_cons.mp hes with rfl | hes
      · exact ⟨by simp, by simp, he, trivial⟩
      · obtain ⟨rest, hrest, rfl⟩ := List.mem_map.mp hes
        obtain ⟨-, hlen, hwalk⟩ := ih.mp hrest
        exact ⟨by simp, by simpa using hlen, he, hwalk⟩
    · rintro ⟨hne, hlen, hwalk⟩
      cases es with
      | nil => exact absurd rfl hne
      | cons e rest =>
        refine ⟨e, hwalk.1, ?_⟩
        cases rest with
        | nil => simp
        | cons e' rest =>
          refine List.mem_cons_of_mem _ (List.mem_map.mpr ⟨e' :: rest, ?_, rfl⟩)
          exact ih.mpr ⟨by simp, by simpa using hlen, hwalk.2⟩

/-- **No walk is enumerated twice** when no node lists an edge twice. -/
theorem nodup_walks (h : ∀ n used, (s.next n used).Nodup) (depth : Nat) (n : N) (used : List L) :
    (s.walks depth n used).Nodup := by
  induction depth generalizing n used with
  | zero => simp [walks]
  | succ depth ih =>
    rw [walks, List.nodup_flatMap]
    constructor
    · intro e _
      refine List.nodup_cons.mpr ⟨?_, (ih _ _).map fun a b hab => (List.cons.inj hab).2⟩
      -- an extension of `[e]` is longer than `[e]`
      intro hmem
      obtain ⟨rest, hrest, heq⟩ := List.mem_map.mp hmem
      exact (s.mem_walks.mp hrest).1 (List.cons.inj heq).2
    · refine (h n used).imp ?_
      -- walks through different first edges differ in their head
      intro e e' hne es hes hes'
      have head : ∀ {x : E},
          es ∈ [x] :: (s.walks depth (s.target x) (used ++ [s.label x])).map (x :: ·) →
          es.head? = some x := by
        intro x hx
        rcases List.mem_cons.mp hx with rfl | hx
        · rfl
        · obtain ⟨rest, -, rfl⟩ := List.mem_map.mp hx
          rfl
      exact hne (Option.some.inj ((head hes).symm.trans (head hes')))

/-- **A greater depth only adds walks:** without them the enumeration is that of depth `k`. -/
theorem walks_filter {k m : Nat} (h : k ≤ m) (n : N) (used : List L) :
    ((s.walks m n used).filter fun es => es.length ≤ k) = s.walks k n used := by
  induction k generalizing m n used with
  | zero =>
    rw [walks, List.filter_eq_nil_iff]
    intro es hes
    simpa using (s.mem_walks.mp hes).1
  | succ k ih =>
    obtain ⟨m, rfl⟩ : ∃ m', m = m' + 1 := ⟨m - 1, by omega⟩
    rw [walks, walks, List.filter_flatMap]
    refine List.flatMap_congr fun e _ => ?_
    -- the walk that stops after `e` is kept; behind `e` the bound is one less
    have hbehind : ((fun es : List E => decide (es.length ≤ k + 1)) ∘ fun es => e :: es)
        = fun es => decide (es.length ≤ k) := by
      funext es
      simp
    rw [List.filter_cons_of_pos (by simp), List.filter_map, hbehind, ih (by omega)]

/-- If no followed edge has a label in use, no label occurs twice on a walk. -/
theorem IsWalk.nodup_labels (h : ∀ n used, ∀ e ∈ s.next n used, s.label e ∉ used) :
    ∀ {n : N} {used : List L} {es : List E}, s.IsWalk n used es → used.Nodup →
      (used ++ es.map s.label).Nodup
  | _, _, [], _, hnd => by simpa using hnd
  | n, used, e :: rest, hw, hnd => by
    have hused : (used ++ [s.label e]).Nodup :=
      List.nodup_append.mpr ⟨hnd, by simp, fun a ha b hb => by
        rw [List.mem_singleton.mp hb]
        rintro rfl
        exact h n used e hw.1 ha⟩
    have := nodup_labels h hw.2 hused
    rwa [List.append_assoc] at this

/-- A property of the followed edges holds along every walk. -/
theorem IsWalk.forall_mem {P : E → Prop} (h : ∀ n used, ∀ e ∈ s.next n used, P e) :
    ∀ {n : N} {used : List L} {es : List E}, s.IsWalk n used es → ∀ e ∈ es, P e
  | _, _, [], _, _, he => absurd he List.not_mem_nil
  | n, used, e :: rest, hw, x, hx => by
    rcases List.mem_cons.mp hx with rfl | hx
    · exact h n used x hw.1
    · exact forall_mem h hw.2 x hx

/-! ## Bounds -/

/-- Without a repeated label, a walk is no longer than there are labels. -/
theorem IsWalk.length_le {labels : List L}
    (hfresh : ∀ n used, ∀ e ∈ s.next n used, s.label e ∉ used)
    (hlabels : ∀ n used, ∀ e ∈ s.next n used, s.label e ∈ labels) {n : N} {es : List E}
    (h : s.IsWalk n [] es) : es.length ≤ labels.length := by
  have hnodup : (es.map s.label).Nodup := nodup_labels s hfresh h List.nodup_nil
  have hsub : es.map s.label ⊆ labels := by
    intro label hlabel
    obtain ⟨e, he, rfl⟩ := List.mem_map.mp hlabel
    exact IsWalk.forall_mem s hlabels h e he
  have hle := (List.subperm_of_subset hnodup hsub).length_le
  rwa [List.length_map] at hle

/-- **Beyond the longest walk** a greater depth adds nothing. -/
theorem walks_eq_of_le {m depth : Nat} (hle : m ≤ depth) {n : N} {used : List L}
    (h : ∀ es, s.IsWalk n used es → es.length ≤ m) : s.walks depth n used = s.walks m n used := by
  rw [← s.walks_filter hle, eq_comm, List.filter_eq_self]
  intro es hes
  exact decide_eq_true (h es (s.mem_walks.mp hes).2.2)

/-- The number of words of length 1 to `depth` over `b` letters. -/
def walkBound (b depth : Nat) : Nat := ∑ k ∈ Finset.range depth, b ^ (k + 1)

theorem walkBound_succ (b depth : Nat) : walkBound b (depth + 1) = b * (walkBound b depth + 1) := by
  unfold walkBound
  rw [Finset.sum_range_succ', Nat.mul_add, Finset.mul_sum]
  simp [pow_succ']

theorem walkBound_mono (b : Nat) {depth depth' : Nat} (h : depth ≤ depth') :
    walkBound b depth ≤ walkBound b depth' :=
  Finset.sum_le_sum_of_subset (Finset.range_mono h)

/-- Lists of at most `b` elements, one for each of a list, are at most `b` times as many. -/
theorem length_flatMap_le {A B : Type} {f : A → List B} {b : Nat} {l : List A}
    (h : ∀ a ∈ l, (f a).length ≤ b) : (l.flatMap f).length ≤ l.length * b := by
  have hsum := List.sum_le_card_nsmul (l.map fun a => (f a).length) b fun k hk => by
    obtain ⟨a, ha, rfl⟩ := List.mem_map.mp hk
    exact h a ha
  rwa [← List.length_flatMap, List.length_map, smul_eq_mul] at hsum

/-- **A bounded fan-out bounds the enumeration.** -/
theorem length_walks_le {b : Nat} (h : ∀ n used, (s.next n used).length ≤ b) (depth : Nat) (n : N)
    (used : List L) : (s.walks depth n used).length ≤ walkBound b depth := by
  induction depth generalizing n used with
  | zero => exact le_rfl
  | succ depth ih =>
    rw [walks, walkBound_succ]
    -- behind each edge there are the walks of the smaller depth
    refine (length_flatMap_le fun e _ => ?_).trans (Nat.mul_le_mul_right _ (h n used))
    rw [List.length_cons, List.length_map]
    exact Nat.succ_le_succ (ih _ _)

end Search

end Infra
