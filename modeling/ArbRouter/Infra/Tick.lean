import Mathlib

/-!
# Programs that read a changing world

`Tick ε σ` is the monad of programs that run in a state they do not own, and may panic. With
`OptionT` on top, a `?` on an `Option` leaves the program.

* `Tick.bind_ok`, `Tick.bind_some` — what a run of `x >>= f` that ends well consists of
* `Tick.Keeps` — a program leaves what holds of the state, with a rule per construct
* `Yields` — the result of a program does not depend on the state, with a rule per construct
-/

namespace Infra

variable {ε σ α β : Type}

/-- A program over the state `σ` that may panic with an `ε`. -/
abbrev Tick (ε σ α : Type) : Type := StateT σ (Except ε) α

namespace Tick

/-- An operation that may panic and leaves the state alone. -/
def ofExcept (x : Except ε α) : Tick ε σ α := fun s => x.map fun a => (a, s)

/-- `o?`: leave the program if there is no value. -/
def ofOption (o : Option α) : OptionT (Tick ε σ) α := OptionT.mk (pure o)

/-- A read of the state. -/
def ofRead (read : σ → α × σ) : Tick ε σ α := fun s => .ok (read s)

/-! ## Runs that end well -/

theorem bind_ok {x : Tick ε σ α} {f : α → Tick ε σ β} {s s' : σ} {b : β} :
    (x >>= f).run s = .ok (b, s') ↔
      ∃ a s₁, x.run s = .ok (a, s₁) ∧ (f a).run s₁ = .ok (b, s') := by
  rw [StateT.run_bind]
  cases hx : x.run s with
  | error e =>
    constructor
    · intro h; simp [bind, Except.bind] at h
    · rintro ⟨a, s₁, h, -⟩; simp at h
  | ok r =>
    obtain ⟨a, s₁⟩ := r
    constructor
    · intro h; exact ⟨a, s₁, rfl, h⟩
    · rintro ⟨a', s₁', h, h'⟩
      obtain ⟨rfl, rfl⟩ := Prod.mk.inj (Except.ok.inj h)
      exact h'

theorem pure_ok {a b : α} {s s' : σ} :
    (pure a : Tick ε σ α).run s = .ok (b, s') ↔ a = b ∧ s = s' := by
  rw [StateT.run_pure]
  show Except.ok (a, s) = _ ↔ _
  rw [Except.ok.injEq, Prod.mk.injEq]

theorem ofExcept_ok {x : Except ε α} {b : α} {s s' : σ} :
    (ofExcept x).run s = .ok (b, s') ↔ x = .ok b ∧ s = s' := by
  show x.map _ = _ ↔ _
  cases x with
  | error e => simp [Except.map]
  | ok a => simp [Except.map]

/-- A run of `x >>= f` that yields a value ran `x` to a value and then `f`. -/
theorem bind_some {x : OptionT (Tick ε σ) α} {f : α → OptionT (Tick ε σ) β} {s s' : σ} {b : β} :
    (x >>= f).run.run s = .ok (some b, s') ↔
      ∃ a s₁, x.run.run s = .ok (some a, s₁) ∧ (f a).run.run s₁ = .ok (some b, s') := by
  rw [OptionT.run_bind, Option.elimM, bind_ok]
  constructor
  · rintro ⟨o, s₁, ho, h⟩
    cases o with
    | none => exact absurd (pure_ok.mp h).1 (by simp)
    | some a => exact ⟨a, s₁, ho, h⟩
  · rintro ⟨a, s₁, ha, h⟩
    exact ⟨some a, s₁, ha, h⟩

theorem pure_some {a b : α} {s s' : σ} :
    (pure a : OptionT (Tick ε σ) α).run.run s = .ok (some b, s') ↔ a = b ∧ s = s' := by
  rw [OptionT.run_pure, pure_ok, Option.some.injEq]

theorem ofOption_some {o : Option α} {b : α} {s s' : σ} :
    (ofOption o : OptionT (Tick ε σ) α).run.run s = .ok (some b, s') ↔ o = some b ∧ s = s' :=
  pure_ok

theorem lift_some {x : Tick ε σ α} {b : α} {s s' : σ} :
    (OptionT.lift x : OptionT (Tick ε σ) α).run.run s = .ok (some b, s')
      ↔ x.run s = .ok (b, s') := by
  rw [OptionT.run_lift, bind_ok]
  constructor
  · rintro ⟨a, s₁, ha, h⟩
    obtain ⟨hab, rfl⟩ := pure_ok.mp h
    rwa [← Option.some.inj hab]
  · intro h
    exact ⟨b, s', h, pure_ok.mpr ⟨rfl, rfl⟩⟩

theorem run_bind_of_some {x : OptionT (Tick ε σ) α} {f : α → OptionT (Tick ε σ) β} {s s₁ : σ}
    {a : α} (h : x.run.run s = .ok (some a, s₁)) : (x >>= f).run.run s = (f a).run.run s₁ := by
  rw [OptionT.run_bind, Option.elimM, StateT.run_bind, h]
  rfl

theorem run_bind_of_none {x : OptionT (Tick ε σ) α} {f : α → OptionT (Tick ε σ) β} {s s₁ : σ}
    (h : x.run.run s = .ok (none, s₁)) : (x >>= f).run.run s = .ok (none, s₁) := by
  rw [OptionT.run_bind, Option.elimM, StateT.run_bind, h]
  rfl

/-! ## What programs leave -/

/-- A run that ends well leaves what holds of the state. -/
def Keeps (Inv : σ → Prop) (x : Tick ε σ α) : Prop :=
  ∀ s a s', Inv s → x.run s = .ok (a, s') → Inv s'

namespace Keeps

variable {Inv : σ → Prop} {x : Tick ε σ α} {f : α → Tick ε σ β}

protected theorem pure (a : α) : Keeps Inv (pure a : Tick ε σ α) := by
  intro s b s' hs h
  obtain ⟨-, rfl⟩ := pure_ok.mp h
  exact hs

theorem ofExcept (r : Except ε α) : Keeps Inv (Tick.ofExcept r : Tick ε σ α) := by
  intro s a s' hs h
  obtain ⟨-, rfl⟩ := ofExcept_ok.mp h
  exact hs

theorem ofRead {read : σ → α × σ} (h : ∀ s, Inv s → Inv (read s).2) :
    Keeps Inv (Tick.ofRead read : Tick ε σ α) := by
  intro s a s' hs hrun
  have hread : read s = (a, s') := Except.ok.inj hrun
  rw [show s' = (read s).2 by rw [hread]]
  exact h s hs

theorem bind (hx : Keeps Inv x) (hf : ∀ a, Keeps Inv (f a)) : Keeps Inv (x >>= f) := by
  intro s b s' hs h
  obtain ⟨a, s₁, ha, hb⟩ := bind_ok.mp h
  exact hf a s₁ b s' (hx s a s₁ hs ha) hb

/-! A program that may leave early is one whose result is an option. -/

variable {y : OptionT (Tick ε σ) α} {g : α → OptionT (Tick ε σ) β}

theorem ofOption (o : Option α) : Keeps Inv (Tick.ofOption o : OptionT (Tick ε σ) α).run :=
  Keeps.pure o

theorem some_pure (a : α) : Keeps Inv (Pure.pure a : OptionT (Tick ε σ) α).run :=
  Keeps.pure (some a)

theorem failure : Keeps Inv (failure : OptionT (Tick ε σ) α).run := Keeps.pure none

theorem lift (h : Keeps Inv x) : Keeps Inv (OptionT.lift x : OptionT (Tick ε σ) α).run := by
  rw [OptionT.run_lift]
  exact h.bind fun a => Keeps.pure (some a)

theorem optBind (hy : Keeps Inv y.run) (hg : ∀ a, Keeps Inv (g a).run) :
    Keeps Inv (y >>= g).run := by
  rw [OptionT.run_bind, Option.elimM]
  refine hy.bind fun o => ?_
  cases o with
  | none => exact Keeps.pure none
  | some a => exact hg a

/-- A result of `mapM` comes from a run of one of the programs, from a state that was left so. -/
theorem of_mem_mapM {ι : Type} {f : ι → Tick ε σ α} {r : α} (hf : ∀ i, Keeps Inv (f i)) :
    ∀ {l : List ι} {s s' : σ} {rs : List α}, Inv s → (l.mapM f).run s = .ok (rs, s') → r ∈ rs →
      ∃ i ∈ l, ∃ s₁ s₂, Inv s₁ ∧ (f i).run s₁ = .ok (r, s₂)
  | [], _, _, _, _, h, hr => by
    obtain ⟨rfl, -⟩ := pure_ok.mp h
    exact absurd hr List.not_mem_nil
  | i :: rest, s, s', rs, hs, h, hr => by
    rw [List.mapM_cons] at h
    obtain ⟨a, s₁, ha, h⟩ := bind_ok.mp h
    obtain ⟨as, s₂, has, h⟩ := bind_ok.mp h
    obtain ⟨rfl, -⟩ := pure_ok.mp h
    rcases List.mem_cons.mp hr with rfl | hr
    · exact ⟨i, List.mem_cons_self, s, s₁, hs, ha⟩
    · obtain ⟨j, hj, hrun⟩ := of_mem_mapM hf (hf i s a s₁ hs ha) has hr
      exact ⟨j, List.mem_cons_of_mem _ hj, hrun⟩

end Keeps

/-- A result of `mapM` comes from a run of one of the programs. -/
theorem of_mem_mapM {ι : Type} {f : ι → Tick ε σ α} {r : α} {l : List ι} {s s' : σ}
    {rs : List α} (h : (l.mapM f).run s = .ok (rs, s')) (hr : r ∈ rs) :
    ∃ i ∈ l, ∃ s₁ s₂, (f i).run s₁ = .ok (r, s₂) := by
  have hkeeps : ∀ i, Keeps (fun _ => True) (f i) := fun i s a s' _ _ => trivial
  obtain ⟨i, hi, s₁, s₂, -, hrun⟩ := Keeps.of_mem_mapM hkeeps trivial h hr
  exact ⟨i, hi, s₁, s₂, hrun⟩

end Tick

/-! ## Results that may be errors -/

theorem bind_eq_ok {x : Except ε α} {f : α → Except ε β} {b : β} :
    (x >>= f) = .ok b ↔ ∃ a, x = .ok a ∧ f a = .ok b := by
  cases x <;> simp [bind, Except.bind]

theorem map_eq_ok {x : Except ε α} {f : α → β} {b : β} :
    x.map f = .ok b ↔ ∃ a, x = .ok a ∧ f a = b := by
  cases x <;> simp [Except.map]

theorem mapError_eq_ok {ε' : Type} {x : Except ε α} {f : ε → ε'} {a : α} :
    x.mapError f = .ok a ↔ x = .ok a := by
  cases x <;> simp [Except.mapError]

theorem toOption_eq_some {x : Except ε α} {a : α} : x.toOption = some a ↔ x = .ok a := by
  cases x <;> simp [Except.toOption]

/-- Only the first of two steps can fail when the second is `pure`. -/
theorem exists_bind_pure_ok {x : Except ε α} {f : α → β} :
    (∃ b, (x >>= fun a => pure (f a)) = .ok b) ↔ ∃ a, x = .ok a := by
  cases x with
  | error e => simp [bind, Except.bind]
  | ok a => exact ⟨fun _ => ⟨a, rfl⟩, fun _ => ⟨f a, rfl⟩⟩

theorem exists_map_ok {x : Except ε α} {f : α → β} :
    (∃ b, x.map f = .ok b) ↔ ∃ a, x = .ok a := by
  cases x with
  | error e => simp [Except.map]
  | ok a => exact ⟨fun _ => ⟨a, rfl⟩, fun _ => ⟨f a, rfl⟩⟩

/-- The results of `mapM` that ended well are those of the elements. -/
theorem mem_of_mapM_ok {ι : Type} {f : ι → Except ε α} {l : List ι} {rs : List α} {r : α}
    (h : l.mapM f = .ok rs) : r ∈ rs ↔ ∃ i ∈ l, f i = .ok r := by
  induction l generalizing rs with
  | nil =>
    obtain rfl : [] = rs := Except.ok.inj h
    simp
  | cons i rest ih =>
    rw [List.mapM_cons] at h
    obtain ⟨a, ha, h⟩ := bind_eq_ok.mp h
    obtain ⟨as, has, h⟩ := bind_eq_ok.mp h
    obtain rfl : a :: as = rs := Except.ok.inj h
    rw [List.mem_cons, ih has]
    constructor
    · rintro (rfl | ⟨j, hj, hr⟩)
      · exact ⟨i, List.mem_cons_self, ha⟩
      · exact ⟨j, List.mem_cons_of_mem _ hj, hr⟩
    · rintro ⟨j, hj, hr⟩
      rcases List.mem_cons.mp hj with rfl | hj
      · exact Or.inl (Except.ok.inj (hr.symm.trans ha))
      · exact Or.inr ⟨j, hj, hr⟩

/-- `mapM` ends well exactly when every element does. -/
theorem exists_mapM_ok {ι : Type} {f : ι → Except ε α} {l : List ι} :
    (∃ rs, l.mapM f = .ok rs) ↔ ∀ i ∈ l, ∃ r, f i = .ok r := by
  induction l with
  | nil => exact ⟨fun _ i hi => absurd hi List.not_mem_nil, fun _ => ⟨[], rfl⟩⟩
  | cons i rest ih =>
    rw [List.forall_mem_cons, ← ih, List.mapM_cons]
    constructor
    · rintro ⟨rs, h⟩
      obtain ⟨a, ha, h⟩ := bind_eq_ok.mp h
      obtain ⟨as, has, -⟩ := bind_eq_ok.mp h
      exact ⟨⟨a, ha⟩, as, has⟩
    · rintro ⟨⟨a, ha⟩, as, has⟩
      exact ⟨a :: as, bind_eq_ok.mpr ⟨a, ha, bind_eq_ok.mpr ⟨as, has, rfl⟩⟩⟩

/-- A list has a related list when each element is related to something. -/
theorem exists_forall₂_iff {ι : Type} {R : ι → α → Prop} {l : List ι} :
    (∃ rs, List.Forall₂ R l rs) ↔ ∀ i ∈ l, ∃ r, R i r := by
  induction l with
  | nil => exact ⟨fun _ i hi => absurd hi List.not_mem_nil, fun _ => ⟨[], .nil⟩⟩
  | cons i rest ih =>
    rw [List.forall_mem_cons, ← ih]
    constructor
    · rintro ⟨rs, h⟩
      obtain ⟨r, rs, hr, hrs, -⟩ := List.forall₂_cons_left_iff.mp h
      exact ⟨⟨r, hr⟩, rs, hrs⟩
    · rintro ⟨⟨r, hr⟩, rs, hrs⟩
      exact ⟨r :: rs, .cons hr hrs⟩

/-- The values of a partial function are those of the elements at which it has one, in order. -/
theorem forall₂_filterMap {ι : Type} {f : ι → Option α} {p : ι → Bool}
    (hp : ∀ i, p i = true ↔ ∃ r, f i = some r) (l : List ι) :
    List.Forall₂ (fun i r => f i = some r) (l.filter p) (l.filterMap f) := by
  induction l with
  | nil => exact .nil
  | cons i rest ih =>
    cases hi : f i with
    | none =>
      have hpi : p i ≠ true := fun h => by
        obtain ⟨r, hr⟩ := (hp i).mp h
        rw [hi] at hr
        cases hr
      rw [List.filterMap_cons_none hi, List.filter_cons_of_neg hpi]
      exact ih
    | some r =>
      rw [List.filterMap_cons_some hi, List.filter_cons_of_pos ((hp i).mpr ⟨r, hi⟩)]
      exact .cons hi ih

/-- The results of `mapM` that ended well, one for each element and in order. -/
theorem mapM_eq_ok_iff {ι : Type} {f : ι → Except ε α} {l : List ι} {rs : List α} :
    l.mapM f = .ok rs ↔ List.Forall₂ (fun i r => f i = .ok r) l rs := by
  induction l generalizing rs with
  | nil =>
    rw [List.forall₂_nil_left_iff]
    exact ⟨fun h => (Except.ok.inj h).symm, fun h => by rw [h]; rfl⟩
  | cons i rest ih =>
    rw [List.mapM_cons, List.forall₂_cons_left_iff]
    constructor
    · intro h
      obtain ⟨r, hr, h⟩ := bind_eq_ok.mp h
      obtain ⟨rs', hrs, h⟩ := bind_eq_ok.mp h
      exact ⟨r, rs', hr, ih.mp hrs, (Except.ok.inj h).symm⟩
    · rintro ⟨r, rs', hr, hrs, rfl⟩
      exact bind_eq_ok.mpr ⟨r, hr, bind_eq_ok.mpr ⟨rs', ih.mpr hrs, rfl⟩⟩

/-- The error of a result. -/
def errorOf : Except ε α → Option ε
  | .error e => some e
  | .ok _ => none

theorem errorOf_eq_some {x : Except ε α} {e : ε} : errorOf x = some e ↔ x = .error e := by
  cases x <;> simp [errorOf]

theorem errorOf_eq_none {x : Except ε α} : errorOf x = none ↔ ∃ a, x = .ok a := by
  cases x <;> simp [errorOf]

/-- A step that cannot fail adds no error. -/
theorem errorOf_bind_pure {x : Except ε α} {f : α → β} :
    errorOf (x >>= fun a => pure (f a)) = errorOf x := by
  cases x <;> rfl

/-- The error of two steps is that of the first, else that of the second. -/
theorem errorOf_bind {x : Except ε α} {f : α → Except ε β} :
    errorOf (x >>= f) = (errorOf x).or (x.toOption.bind fun a => errorOf (f a)) := by
  cases x <;> rfl

/-- **`mapM` fails** with the first error there is. -/
theorem errorOf_mapM {ι : Type} (f : ι → Except ε α) (l : List ι) :
    errorOf (l.mapM f) = l.findSome? fun i => errorOf (f i) := by
  induction l with
  | nil => rfl
  | cons i rest ih =>
    rw [List.mapM_cons, List.findSome?_cons, errorOf_bind]
    cases hi : f i with
    | error e => rfl
    | ok a => exact errorOf_bind_pure.trans ih

/-- **A loop fails** with the first error there is, where the errors do not depend on its state. -/
theorem errorOf_foldlM {ι : Type} {f : α → ι → Except ε α} {g : ι → Option ε}
    (h : ∀ a i, errorOf (f a i) = g i) (l : List ι) (a : α) :
    errorOf (l.foldlM f a) = l.findSome? g := by
  induction l generalizing a with
  | nil => rfl
  | cons i rest ih =>
    rw [List.foldlM_cons, List.findSome?_cons, errorOf_bind, h a i]
    cases hi : f a i with
    | error e =>
      rw [← h a i, hi]
      rfl
    | ok a' =>
      rw [← h a i, hi]
      exact ih a'

/-! ## Results that do not depend on the state -/

/-- From every state the program ends with `r`. -/
def Yields (x : Tick ε σ α) (r : Except ε α) : Prop := ∀ s, ∃ s', x.run s = r.map fun a => (a, s')

namespace Yields

variable {x : Tick ε σ α} {f : α → Tick ε σ β}

/-- A run ends well exactly when the result is no error. -/
theorem exists_ok_iff {r : Except ε α} (h : Yields x r) (s : σ) :
    (∃ p, x.run s = .ok p) ↔ ∃ a, r = .ok a := by
  obtain ⟨s', hs⟩ := h s
  rw [hs]
  constructor
  · rintro ⟨p, hp⟩
    obtain ⟨a, ha, -⟩ := map_eq_ok.mp hp
    exact ⟨a, ha⟩
  · rintro ⟨a, rfl⟩
    exact ⟨(a, s'), rfl⟩

/-- A program that yields two results from one state yields one result. -/
theorem unique [Nonempty σ] {r r' : Except ε α} (h : Yields x r) (h' : Yields x r') : r = r' := by
  obtain ⟨s⟩ := ‹Nonempty σ›
  obtain ⟨s₁, h₁⟩ := h s
  obtain ⟨s₂, h₂⟩ := h' s
  rw [h₁] at h₂
  cases r <;> cases r' <;> simp_all [Except.map]

/-- The result of a run that ended well is the result it yields. -/
theorem eq_ok {r : Except ε α} {s s' : σ} {a : α} (h : Yields x r) (hx : x.run s = .ok (a, s')) :
    r = .ok a := by
  obtain ⟨s₁, h₁⟩ := h s
  rw [hx] at h₁
  cases r with
  | error e => simp [Except.map] at h₁
  | ok b => simp [Except.map] at h₁; rw [h₁.1]

protected theorem pure (a : α) : Yields (pure a : Tick ε σ α) (.ok a) := fun s => ⟨s, rfl⟩

theorem ofExcept (r : Except ε α) : Yields (Tick.ofExcept r : Tick ε σ α) r := fun s => ⟨s, rfl⟩

theorem bind_error {e : ε} (h : Yields x (.error e)) : Yields (x >>= f) (.error e) := by
  intro s
  obtain ⟨s', hs⟩ := h s
  refine ⟨s', ?_⟩
  rw [StateT.run_bind, hs]
  rfl

theorem bind_ok {a : α} {r : Except ε β} (h : Yields x (.ok a)) (hf : Yields (f a) r) :
    Yields (x >>= f) r := by
  intro s
  obtain ⟨s₁, hs⟩ := h s
  obtain ⟨s₂, hs₂⟩ := hf s₁
  refine ⟨s₂, ?_⟩
  rw [StateT.run_bind, hs]
  exact hs₂

/-- Sequencing programs sequences their results. -/
theorem bind {r : Except ε α} {g : α → Except ε β} (h : Yields x r)
    (hf : ∀ a, r = .ok a → Yields (f a) (g a)) : Yields (x >>= f) (r >>= g) := by
  cases r with
  | error e => exact h.bind_error
  | ok a => exact h.bind_ok (hf a rfl)

theorem mapM {ι : Type} {f : ι → Tick ε σ α} {g : ι → Except ε α} (l : List ι)
    (h : ∀ i ∈ l, Yields (f i) (g i)) : Yields (l.mapM f) (l.mapM g) := by
  induction l with
  | nil => exact Yields.pure []
  | cons i rest ih =>
    rw [List.mapM_cons, List.mapM_cons]
    refine (h i List.mem_cons_self).bind fun a _ => ?_
    refine (ih fun j hj => h j (List.mem_cons_of_mem _ hj)).bind fun as _ => ?_
    exact Yields.pure (a :: as)

/-! ## Programs that may leave early -/

variable {y : OptionT (Tick ε σ) α} {g : α → OptionT (Tick ε σ) β}

theorem ofOption (o : Option α) : Yields (Tick.ofOption o : OptionT (Tick ε σ) α).run (.ok o) :=
  Yields.pure o

theorem pure_some (a : α) : Yields (Pure.pure a : OptionT (Tick ε σ) α).run (.ok (some a)) :=
  Yields.pure (some a)

theorem failure : Yields (failure : OptionT (Tick ε σ) α).run (.ok none) := Yields.pure none

theorem lift {r : Except ε α} {x : Tick ε σ α} (h : Yields x r) :
    Yields (OptionT.lift x : OptionT (Tick ε σ) α).run (r.map some) := by
  rw [OptionT.run_lift]
  cases r with
  | error e => exact h.bind_error
  | ok a => exact h.bind_ok (Yields.pure (some a))

theorem none_bind (h : Yields y.run (.ok none)) : Yields (y >>= g).run (.ok none) := by
  rw [OptionT.run_bind, Option.elimM]
  exact h.bind_ok (Yields.pure none)

theorem some_bind {a : α} {r : Except ε (Option β)} (h : Yields y.run (.ok (some a)))
    (hg : Yields (g a).run r) : Yields (y >>= g).run r := by
  rw [OptionT.run_bind, Option.elimM]
  exact h.bind_ok hg

/-- Sequencing programs that may leave early but do not panic. -/
theorem optBind_ok {o : Option α} {k : α → Option β} (h : Yields y.run (.ok o))
    (hg : ∀ a, o = some a → Yields (g a).run (.ok (k a))) :
    Yields (y >>= g).run (.ok (o.bind k)) := by
  rw [OptionT.run_bind, Option.elimM]
  refine h.bind_ok ?_
  cases o with
  | none => exact Yields.pure none
  | some a => exact hg a rfl

/-- Sequencing programs that may leave early. -/
theorem optBind {r : Except ε (Option α)} {k : α → Except ε (Option β)} (h : Yields y.run r)
    (hg : ∀ a, r = .ok (some a) → Yields (g a).run (k a)) :
    Yields (y >>= g).run (r >>= fun o => o.elim (.ok none) k) := by
  rw [OptionT.run_bind, Option.elimM]
  refine h.bind fun o ho => ?_
  cases o with
  | none => exact Yields.pure none
  | some a => exact hg a ho

end Yields

end Infra
