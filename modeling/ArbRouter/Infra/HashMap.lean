import Mathlib

/-!
# Hash maps

Association lists with distinct keys (`AList`) stand for hash maps. Iterating a hash map visits
its entries in an unspecified order, so whatever iterates takes an `IterOrder`: an arbitrary
permutation of the entries as they are stored.

* `HashMap.push` — `entry(k).or_default().push(v)`
* `HashMap.indexBy` — a multi-valued index, filled by pushing every value under each of its keys
* `HashMap.lastBy` — an index that keeps the last value inserted under each key
* `IterOrder.pairwise_flatten_iff` — when concatenating lists in any order yields a sorted list
-/

namespace Infra

/-- A hash map. -/
abbrev HashMap (K V : Type) := AList fun _ : K => V

/-- The order in which one iteration visits what is stored. -/
structure IterOrder (α : Type) where
  run : List α → List α
  perm : ∀ l, (run l).Perm l

/-- The order of storage. -/
def IterOrder.stored (α : Type) : IterOrder α := ⟨id, fun l => List.Perm.refl l⟩

/-- The reverse of the order of storage. -/
def IterOrder.reversed (α : Type) : IterOrder α := ⟨List.reverse, List.reverse_perm⟩

theorem IterOrder.mem_run {α : Type} (order : IterOrder α) {l : List α} {a : α} :
    a ∈ order.run l ↔ a ∈ l := (order.perm l).mem_iff

/--
**Concatenating lists in an unspecified order** relates all elements in the order of the result
if and only if each list does and elements of different lists are related both ways.
-/
theorem IterOrder.pairwise_flatten_iff {α : Type} {R : α → α → Prop} {ls : List (List α)} :
    (∀ order : IterOrder (List α), (order.run ls).flatten.Pairwise R) ↔
      (∀ l ∈ ls, l.Pairwise R) ∧
        ls.Pairwise fun l l' => ∀ a ∈ l, ∀ b ∈ l', R a b ∧ R b a := by
  constructor
  · intro h
    obtain ⟨hwithin, hstored⟩ := List.pairwise_flatten.mp (h (IterOrder.stored _))
    obtain ⟨-, hreversed⟩ := List.pairwise_flatten.mp (h (IterOrder.reversed _))
    refine ⟨hwithin, (hstored.and (List.pairwise_reverse.mp hreversed)).imp ?_⟩
    rintro l l' ⟨hforth, hback⟩ a ha b hb
    exact ⟨hforth a ha b hb, hback b hb a ha⟩
  · rintro ⟨hwithin, hacross⟩ order
    refine List.pairwise_flatten.mpr ⟨fun l hl => hwithin l (order.mem_run.mp hl), ?_⟩
    -- being related both ways is symmetric, so it survives the permutation
    have hsymm : ∀ {l l' : List α}, (∀ a ∈ l, ∀ b ∈ l', R a b ∧ R b a) →
        ∀ a ∈ l', ∀ b ∈ l, R a b ∧ R b a :=
      fun h a ha b hb => (h b hb a ha).symm
    refine (((order.perm ls).pairwise_iff hsymm).mpr hacross).imp ?_
    exact fun h a ha b hb => (h a ha b hb).1

namespace HashMap

variable {K V : Type} [DecidableEq K]

/-- The values, as they are stored. -/
def values (m : HashMap K V) : List V := m.entries.map Sigma.snd

theorem mem_values {m : HashMap K V} {v : V} : v ∈ m.values ↔ ∃ k, m.lookup k = some v := by
  unfold values
  rw [List.mem_map]
  constructor
  · rintro ⟨⟨k, w⟩, he, rfl⟩
    exact ⟨k, AList.mem_lookup_iff.mpr he⟩
  · rintro ⟨k, hk⟩
    exact ⟨⟨k, v⟩, AList.mem_lookup_iff.mp hk, rfl⟩

/-- The values, key by key. -/
theorem values_eq_map_keys (m : HashMap K V) (d : V) :
    m.values = m.keys.map fun k => (m.lookup k).getD d := by
  have hkeys : m.keys = m.entries.map Sigma.fst := rfl
  rw [hkeys, List.map_map]
  refine List.map_congr_left ?_
  rintro ⟨k, v⟩ he
  have hlook : m.lookup k = some v := AList.mem_lookup_iff.mpr he
  show v = (m.lookup k).getD d
  rw [hlook]
  rfl

/-- A symmetric relation holds between the values of different keys. -/
theorem pairwise_values_iff {m : HashMap K V} {d : V} {R : V → V → Prop}
    (hsymm : ∀ {v w}, R v w → R w v) :
    m.values.Pairwise R ↔ ∀ k ∈ m.keys, ∀ l ∈ m.keys, k ≠ l →
      R ((m.lookup k).getD d) ((m.lookup l).getD d) := by
  rw [m.values_eq_map_keys d, List.pairwise_map]
  have : Std.Symm fun k l => R ((m.lookup k).getD d) ((m.lookup l).getD d) :=
    ⟨fun _ _ h => hsymm h⟩
  exact ⟨fun h k hk l hl hne => h.forall hk hl hne, m.keys_nodup.pairwise_of_forall_ne⟩

/-- Whatever the order, the values visited are those of the keys in some order. -/
theorem exists_entries_run (m : HashMap K V) (order : IterOrder V) :
    ∃ es : List (K × V), (es.map Prod.fst).Nodup ∧ (∀ e ∈ es, m.lookup e.1 = some e.2) ∧
      order.run m.values = es.map Prod.snd := by
  have hstored : List.Forall₂ (fun v e => v = e.2) m.values m.entries := by
    rw [values, List.forall₂_map_left_iff, List.forall₂_same]
    exact fun e _ => rfl
  obtain ⟨es, hrun, hperm⟩ := List.perm_comp_forall₂ (order.perm m.values) hstored
  refine ⟨es.map fun e => (e.1, e.2), ?_, ?_, ?_⟩
  · rw [List.map_map]
    exact (hperm.map Sigma.fst).nodup_iff.mpr m.keys_nodup
  · intro e he
    obtain ⟨e', he', rfl⟩ := List.mem_map.mp he
    exact AList.mem_lookup_iff.mpr (hperm.subset he')
  · rw [List.map_map]
    have heq : List.Forall₂ (· = ·) (order.run m.values) (es.map Sigma.snd) :=
      List.forall₂_map_right_iff.mpr hrun
    rwa [List.forall₂_eq_eq_eq] at heq

/-! ## Pushing onto an entry -/

/-- `entry(k).or_default().push(v)`. -/
def push (m : HashMap K (List V)) (k : K) (v : V) : HashMap K (List V) :=
  m.insert k ((m.lookup k).getD [] ++ [v])

theorem getD_lookup_push (m : HashMap K (List V)) (k k' : K) (v : V) :
    ((m.push k v).lookup k').getD [] = (m.lookup k').getD [] ++ if k' = k then [v] else [] := by
  by_cases h : k' = k
  · subst h
    rw [push, AList.lookup_insert, if_pos rfl]
    rfl
  · rw [push, AList.lookup_insert_ne h, if_neg h, List.append_nil]

/-- Push `v` under each of its keys, a repeated key repeatedly. -/
def pushAll (m : HashMap K (List V)) (keys : List K) (v : V) : HashMap K (List V) :=
  keys.foldl (fun m k => m.push k v) m

theorem getD_lookup_pushAll (keys : List K) (v : V) (k : K) (m : HashMap K (List V)) :
    ((m.pushAll keys v).lookup k).getD []
      = (m.lookup k).getD [] ++ List.replicate (keys.count k) v := by
  induction keys generalizing m with
  | nil => simp [pushAll]
  | cons k' rest ih =>
    show (((m.push k' v).pushAll rest v).lookup k).getD [] = _
    rw [ih, getD_lookup_push, List.append_assoc, List.count_cons]
    by_cases h : k = k'
    · rw [if_pos h, h, if_pos (by simp), List.replicate_succ]
      rfl
    · rw [if_neg h, if_neg (by simpa using fun he => h he.symm), List.nil_append, Nat.add_zero]

/-- The index of `vs` under the keys of each value, in the order of `vs`. -/
def indexBy (keys : V → List K) (vs : List V) : HashMap K (List V) :=
  vs.foldl (fun m v => m.pushAll (keys v) v) ∅

theorem getD_lookup_foldl_pushAll (keys : V → List K) (k : K) (vs : List V)
    (m : HashMap K (List V)) :
    ((vs.foldl (fun m v => m.pushAll (keys v) v) m).lookup k).getD []
      = (m.lookup k).getD [] ++ vs.flatMap fun v => List.replicate ((keys v).count k) v := by
  induction vs generalizing m with
  | nil => simp
  | cons v rest ih =>
    rw [List.foldl_cons, ih, getD_lookup_pushAll, List.flatMap_cons, List.append_assoc]

/-- **What an index holds under a key:** each value as often as it lists the key. -/
theorem getD_lookup_indexBy (keys : V → List K) (vs : List V) (k : K) :
    ((indexBy keys vs).lookup k).getD []
      = vs.flatMap fun v => List.replicate ((keys v).count k) v := by
  unfold indexBy
  rw [getD_lookup_foldl_pushAll, AList.lookup_empty]
  rfl

theorem mem_getD_lookup_indexBy {keys : V → List K} {vs : List V} {k : K} {v : V} :
    v ∈ ((indexBy keys vs).lookup k).getD [] ↔ v ∈ vs ∧ k ∈ keys v := by
  rw [getD_lookup_indexBy, List.mem_flatMap]
  constructor
  · rintro ⟨w, hw, hv⟩
    obtain ⟨hcount, rfl⟩ := List.mem_replicate.mp hv
    exact ⟨hw, List.count_pos_iff.mp (Nat.pos_of_ne_zero hcount)⟩
  · rintro ⟨hv, hk⟩
    exact ⟨v, hv, List.mem_replicate.mpr ⟨(List.count_pos_iff.mpr hk).ne', rfl⟩⟩

/-! ## Keeping the last value of a key -/

/-- After inserting every element, a key holds the value of the last element of that key. -/
theorem lookup_foldl_insert {A : Type} (key : A → K) (val : A → V) (k : K) (as : List A)
    (m : HashMap K V) :
    (as.foldl (fun m a => m.insert (key a) (val a)) m).lookup k
      = ((as.reverse.find? fun a => key a = k).map val).or (m.lookup k) := by
  induction as generalizing m with
  | nil => simp
  | cons a rest ih =>
    rw [List.foldl_cons, ih, List.reverse_cons, List.find?_append]
    by_cases h : key a = k
    · subst h
      rw [AList.lookup_insert]
      cases List.find? (fun b => decide (key b = key a)) rest.reverse <;> simp
    · rw [AList.lookup_insert_ne fun he => h he.symm]
      cases List.find? (fun b => decide (key b = k)) rest.reverse <;> simp [h]

/-- Insert every value under its key; a later value replaces an earlier one. -/
def lastBy (key : V → K) (vs : List V) : HashMap K V :=
  vs.foldl (fun m v => m.insert (key v) v) ∅

theorem lookup_lastBy (key : V → K) (vs : List V) (k : K) :
    (lastBy key vs).lookup k = vs.reverse.find? fun v => key v = k := by
  rw [lastBy, lookup_foldl_insert key fun v => v, AList.lookup_empty, Option.or_none]
  exact Option.map_id'

theorem of_lookup_lastBy {key : V → K} {vs : List V} {k : K} {v : V}
    (h : (lastBy key vs).lookup k = some v) : v ∈ vs ∧ key v = k := by
  rw [lookup_lastBy] at h
  exact ⟨List.mem_reverse.mp (List.mem_of_find?_eq_some h), by simpa using List.find?_some h⟩

theorem exists_lookup_lastBy {key : V → K} {vs : List V} {v : V} (h : v ∈ vs) :
    ∃ w, (lastBy key vs).lookup (key v) = some w := by
  rw [lookup_lastBy, ← Option.isSome_iff_exists, List.find?_isSome]
  exact ⟨v, List.mem_reverse.mpr h, by simp⟩

end HashMap

end Infra
