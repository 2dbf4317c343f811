import Mathlib

/-!
# Two keyed values in the order of their keys

* `sortPair_lt_iff` — the keys are in strict order exactly when they differ
* `sortPair_comm` — then the order in which the values were given does not matter
* `sortPair_forall` — sorting neither drops nor changes a value
-/

namespace Infra

variable {κ α : Type} [LT κ] [DecidableLT κ]

/-- The value of the smaller key first; of equal keys, the second value first. -/
def sortPair (p q : κ × α) : (κ × α) × (κ × α) := if p.1 < q.1 then (p, q) else (q, p)

/-- Sorting neither drops nor changes a value. -/
theorem sortPair_forall {P : κ × α → Prop} (p q : κ × α) :
    P (sortPair p q).1 ∧ P (sortPair p q).2 ↔ P p ∧ P q := by
  unfold sortPair
  by_cases h : p.1 < q.1
  · rw [if_pos h]
  · rw [if_neg h]
    exact and_comm

variable [Std.Asymm fun a b : κ => a < b] [Std.Trichotomous fun a b : κ => a < b]

/-- **The keys are in strict order** exactly when they differ. -/
theorem sortPair_lt_iff {p q : κ × α} :
    (sortPair p q).1.1 < (sortPair p q).2.1 ↔ p.1 ≠ q.1 := by
  unfold sortPair
  by_cases h : p.1 < q.1
  · rw [if_pos h]
    exact ⟨fun _ => Std.ne_of_lt h, fun _ => h⟩
  · rw [if_neg h]
    constructor
    · exact fun hlt => (Std.ne_of_lt hlt).symm
    · intro hne
      rcases Std.lt_trichotomy p.1 q.1 with hlt | heq | hlt
      · exact absurd hlt h
      · exact absurd heq hne
      · exact hlt

/-- **The order of the arguments does not matter** when the keys differ. -/
theorem sortPair_comm {p q : κ × α} (hne : p.1 ≠ q.1) : sortPair q p = sortPair p q := by
  unfold sortPair
  rcases Std.lt_trichotomy p.1 q.1 with hlt | heq | hlt
  · rw [if_pos hlt, if_neg (Std.not_gt_of_lt hlt)]
  · exact absurd heq hne
  · rw [if_pos hlt, if_neg (Std.not_gt_of_lt hlt)]

end Infra
