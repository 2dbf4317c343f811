import ArbRouter.Infra.Transition

/-!
# Composed systems and refinement

How the runs of one transition system relate to the runs of another, and how long they are.

* `Run.append`, `Run.split` — runs compose, and come apart at each event
* `Sometime` — what held at some moment of a run
* `Run.countP_add_le` — what a run spends of a potential bounds how often some events happen
* `Projection.run` — a run of a system is a run of each of its components
* `Simulation.run` — a run of a system is explained by a run of the system it refines
-/

namespace Infra

variable {S E S' E' : Type}

/-- A run may go on from where another one ended. -/
theorem Run.append {step : S → E → S → Prop} {init s s' : S} {evs evs' : List E}
    (h : Run step init evs s) (h' : Run step s evs' s') : Run step init (evs ++ evs') s' := by
  induction h' with
  | start => simpa using h
  | snoc _ hs ih =>
    rw [← List.append_assoc]
    exact ih.snoc hs

/-- A run through an event is a run up to it, its step, and a run from there on. -/
theorem Run.split {step : S → E → S → Prop} {init s : S} {evs : List E} (h : Run step init evs s) :
    ∀ {pre post : List E} {ev : E}, evs = pre ++ ev :: post →
      ∃ s₁ s₂, Run step init pre s₁ ∧ step s₁ ev s₂ ∧ Run step s₂ post s := by
  induction h with
  | start => intro pre post ev heq; simp at heq
  | @snoc evs s t e hrun hs ih =>
    intro pre post ev heq
    rcases List.eq_nil_or_concat post with rfl | ⟨post, last, rfl⟩
    · obtain ⟨rfl, hev⟩ := List.append_inj' heq rfl
      obtain rfl := List.singleton_inj.mp hev
      exact ⟨s, t, hrun, hs, .start⟩
    · have heq' : evs ++ [e] = (pre ++ ev :: post) ++ [last] := by
        rw [heq, List.append_assoc, List.cons_append, List.concat_eq_append]
      obtain ⟨hevs, hlast⟩ := List.append_inj' heq' rfl
      obtain rfl := List.singleton_inj.mp hlast
      obtain ⟨s₁, s₂, hpre, hstep, hpost⟩ := ih hevs
      exact ⟨s₁, s₂, hpre, hstep, by rw [List.concat_eq_append]; exact hpost.snoc hs⟩

/-! ## Moments of a run -/

/--
At some moment of the run, the last one included, this held of the events so far and the state.
-/
def Sometime (step : S → E → S → Prop) (init : S) (evs : List E) (s : S) (p : List E → S → Prop) :
    Prop :=
  ∃ pre post s₁, evs = pre ++ post ∧ Run step init pre s₁ ∧ Run step s₁ post s ∧ p pre s₁

namespace Sometime

variable {step : S → E → S → Prop} {init s s' : S} {evs : List E} {ev : E} {p q : List E → S → Prop}

/-- What holds now held at some moment. -/
theorem now (hrun : Run step init evs s) (h : p evs s) : Sometime step init evs s p :=
  ⟨evs, [], s, (List.append_nil evs).symm, hrun, .start, h⟩

/-- A moment of a run is a moment of every longer one. -/
theorem snoc (h : Sometime step init evs s p) (hs : step s ev s') :
    Sometime step init (evs ++ [ev]) s' p := by
  obtain ⟨pre, post, s₁, rfl, hpre, hpost, hp⟩ := h
  exact ⟨pre, post ++ [ev], s₁, List.append_assoc pre post [ev], hpre, hpost.snoc hs, hp⟩

/-- What follows in every state of a run follows at that moment. -/
theorem imp (h : Sometime step init evs s p)
    (hpq : ∀ {evs s}, Run step init evs s → p evs s → q evs s) : Sometime step init evs s q := by
  obtain ⟨pre, post, s₁, heq, hpre, hpost, hp⟩ := h
  exact ⟨pre, post, s₁, heq, hpre, hpost, hpq hpre hp⟩

end Sometime

/-! ## How long a run is -/

/-- **A potential bounds a run:** each event of a kind costs some of it, and no other adds to it. -/
theorem Run.countP_add_le {step : S → E → S → Prop} {init s : S} {evs : List E}
    (h : Run step init evs s) {p : E → Bool} {potential : S → Nat}
    (hspends : ∀ s e t, step s e t → p e = true → potential t < potential s)
    (hkeeps : ∀ s e t, step s e t → p e = false → potential t ≤ potential s) :
    evs.countP p + potential s ≤ potential init := by
  induction h with
  | start => simp
  | @snoc evs s t e _ hs ih =>
    rw [List.countP_append, List.countP_singleton]
    cases hp : p e with
    | true =>
      have hlt := hspends _ _ _ hs hp
      simp only [if_true]
      omega
    | false =>
      have hle := hkeeps _ _ _ hs hp
      simp only [Bool.false_eq_true, if_false]
      omega

/-! ## Components -/

/-- Each step of the system is a step of the component, or leaves the component alone. -/
structure Projection (step : S → E → S → Prop) (step' : S' → E' → S' → Prop) where
  state : S → S'
  event : E → Option E'
  moves : ∀ {s e t e'}, step s e t → event e = some e' → step' (state s) e' (state t)
  rests : ∀ {s e t}, step s e t → event e = none → state t = state s

/-- **A run of the system is a run of the component.** -/
theorem Projection.run {step : S → E → S → Prop} {step' : S' → E' → S' → Prop}
    (π : Projection step step') {init s : S} {evs : List E} (h : Run step init evs s) :
    Run step' (π.state init) (evs.filterMap π.event) (π.state s) := by
  induction h with
  | start => exact .start
  | @snoc evs s t e _ hs ih =>
    rw [List.filterMap_append]
    cases he : π.event e with
    | none =>
      rw [π.rests hs he]
      simpa [he] using ih
    | some e' => simpa [he] using ih.snoc (π.moves hs he)

/-! ## Refinement -/

/--
Every step of a system is matched by a step of the other one, or by none. The relation between
their states may speak about the events so far.
-/
structure Simulation (step : S → E → S → Prop) (init : S) (step' : S' → E' → S' → Prop)
    (init' : S') where
  rel : List E → S → S' → Prop
  start : rel [] init init'
  next : ∀ {evs s t e s'}, rel evs s t → step s e s' →
    rel (evs ++ [e]) s' t ∨ ∃ e' t', step' t e' t' ∧ rel (evs ++ [e]) s' t'

section

variable {step : S → E → S → Prop} {init : S} {step' : S' → E' → S' → Prop} {init' : S'}

/-- From related states on, a run is matched by a run. -/
theorem Simulation.extend (sim : Simulation step init step' init') {evs more : List E} {s s' : S}
    {t : S'} (h : sim.rel evs s t) (hrun : Run step s more s') :
    ∃ more' t', Run step' t more' t' ∧ sim.rel (evs ++ more) s' t' := by
  induction hrun with
  | start => exact ⟨[], t, .start, by simpa using h⟩
  | @snoc more s₁ s₂ e _ hs ih =>
    obtain ⟨more', t₁, hrun', hrel⟩ := ih
    rw [← List.append_assoc]
    rcases sim.next hrel hs with hrel' | ⟨e', t₂, hs', hrel'⟩
    · exact ⟨more', t₁, hrun', hrel'⟩
    · exact ⟨more' ++ [e'], t₂, hrun'.snoc hs', hrel'⟩

/-- **Every run is explained by a run of the system it refines.** -/
theorem Simulation.run (sim : Simulation step init step' init') {evs : List E} {s : S}
    (h : Run step init evs s) : ∃ evs' t, Run step' init' evs' t ∧ sim.rel evs s t :=
  sim.extend sim.start h

end

end Infra
