import Mathlib

/-!
# The rotation that starts with the least element

A list without duplicates has one rotation for each of its elements in front. The one that starts
with the least element is therefore the same for all rotations of the list.
-/

namespace Infra

variable {α : Type}

/-- Rotations of a list without duplicates are determined by their first element. -/
theorem eq_of_isRotated_of_head {l m m' : List α} (hl : l.Nodup) (hm : l ~r m) (hm' : l ~r m')
    {a : α} (ha : m.head? = some a) (ha' : m'.head? = some a) : m = m' := by
  obtain ⟨i, rfl⟩ := hm
  obtain ⟨j, rfl⟩ := hm'
  have hpos : 0 < l.length := by
    cases l with
    | nil => simp at ha
    | cons _ _ => simp
  rw [← List.rotate_mod l i, ← List.rotate_mod l j]
  rw [← List.rotate_mod, List.head?_rotate (Nat.mod_lt i hpos)] at ha
  rw [← List.rotate_mod, List.head?_rotate (Nat.mod_lt j hpos)] at ha'
  obtain ⟨hi, hgeti⟩ := List.getElem?_eq_some_iff.mp ha
  obtain ⟨hj, hgetj⟩ := List.getElem?_eq_some_iff.mp ha'
  have hij : i % l.length = j % l.length :=
    (hl.getElem_inj_iff).mp (hgeti.trans hgetj.symm)
  rw [hij]

/-- **Rotations that start with a least element are equal.** -/
theorem eq_of_isRotated_of_least [PartialOrder α] {l m m' : List α} (hl : l.Nodup) (hm : l ~r m)
    (hm' : l ~r m') {a a' : α} (ha : m.head? = some a) (ha' : m'.head? = some a')
    (hle : ∀ x ∈ l, a ≤ x) (hle' : ∀ x ∈ l, a' ≤ x) : m = m' := by
  have hmem : a ∈ l := hm.mem_iff.mpr (List.mem_of_mem_head? ha)
  have hmem' : a' ∈ l := hm'.mem_iff.mpr (List.mem_of_mem_head? ha')
  obtain rfl : a = a' := le_antisymm (hle a' hmem') (hle' a hmem)
  exact eq_of_isRotated_of_head hl hm hm' ha ha'

end Infra
