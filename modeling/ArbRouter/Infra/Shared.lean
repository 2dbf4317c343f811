import Mathlib

/-!
# Objects that others write

A program reads an object while others write it. What they do is a schedule, fixed in advance and
arbitrary: the writes that take effect before each read of the program. The object remembers the
states it had, so that statements can speak about the states between two reads.

* `Shared.advance`, `Shared.current_advance` — the writes before the next read take effect
* `Shared.Later` — one object is a later version of another
* `Later.current_mem_between` — the state at a read lies between an earlier and a later version
* `Shared.Follows` — the state is what the schedule has made of the first one
-/

namespace Infra

variable {S E : Type}

/-- An object with the states it had, and the writes to come before each read. -/
structure Shared (S E : Type) where
  current : S
  past : List S
  reads : Nat
  schedule : Nat → List E

namespace Shared

/-- All states so far, oldest first. -/
def states (o : Shared S E) : List S := o.past ++ [o.current]

/-- The states from one version to a later one, both included. -/
def between (o o' : Shared S E) : List S := o'.states.drop o.past.length

/-- One write takes effect. -/
def write (effect : S → E → S) (o : Shared S E) (e : E) : Shared S E :=
  { o with current := effect o.current e, past := o.states }

/-- The writes before the next read take effect. -/
def advance (effect : S → E → S) (o : Shared S E) : Shared S E :=
  { (o.schedule o.reads).foldl (write effect) o with reads := o.reads + 1 }

theorem current_foldl_write (effect : S → E → S) (es : List E) (o : Shared S E) :
    (es.foldl (write effect) o).current = es.foldl effect o.current := by
  induction es generalizing o with
  | nil => rfl
  | cons e rest ih => exact ih (o.write effect e)

theorem schedule_foldl_write (effect : S → E → S) (es : List E) (o : Shared S E) :
    (es.foldl (write effect) o).schedule = o.schedule := by
  induction es generalizing o with
  | nil => rfl
  | cons e rest ih => exact ih (o.write effect e)

/-- The next read sees the effects of the writes before it, in their order. -/
theorem current_advance (effect : S → E → S) (o : Shared S E) :
    (o.advance effect).current = (o.schedule o.reads).foldl effect o.current :=
  current_foldl_write effect (o.schedule o.reads) o

/-- What is scheduled stays. -/
theorem schedule_advance (effect : S → E → S) (o : Shared S E) :
    (o.advance effect).schedule = o.schedule :=
  schedule_foldl_write effect (o.schedule o.reads) o

/-- `o'` has gone through the states of `o` first. -/
def Later (o o' : Shared S E) : Prop := o.states <+: o'.states

variable {o v o' : Shared S E}

theorem Later.refl (o : Shared S E) : Later o o := List.prefix_refl _

theorem Later.trans (h : Later o v) (h' : Later v o') : Later o o' := List.IsPrefix.trans h h'

theorem later_write (effect : S → E → S) (o : Shared S E) (e : E) : Later o (o.write effect e) :=
  List.prefix_append _ _

theorem later_foldl_write (effect : S → E → S) (es : List E) (o : Shared S E) :
    Later o (es.foldl (write effect) o) := by
  induction es generalizing o with
  | nil => exact Later.refl o
  | cons e rest ih => exact (later_write effect o e).trans (ih _)

theorem later_advance (effect : S → E → S) (o : Shared S E) : Later o (o.advance effect) :=
  later_foldl_write effect (o.schedule o.reads) o

theorem Later.length_le (h : Later o o') : o.past.length ≤ o'.past.length := by
  have := List.IsPrefix.length_le h
  simp only [states, List.length_append, List.length_singleton] at this
  omega

/-- **The state at a read** lies between an earlier and a later version. -/
theorem Later.current_mem_between (h : Later o v) (h' : Later v o') :
    v.current ∈ o.between o' := by
  obtain ⟨rest, hrest⟩ := h'
  unfold between
  rw [← hrest, states, List.append_assoc, List.drop_append_of_le_length h.length_le]
  simp

/-- From a later version on there are fewer states. -/
theorem Later.between_subset (h : Later o v) (w : Shared S E) : v.between w ⊆ o.between w := by
  intro s hs
  unfold between at hs ⊢
  rw [← Nat.add_sub_cancel' h.length_le, ← List.drop_drop] at hs
  exact List.mem_of_mem_drop hs

/-- Up to a later version there are more. -/
theorem Later.subset_between (h : Later v o') (o : Shared S E) : o.between v ⊆ o.between o' :=
  (List.IsPrefix.drop h _).subset

/-- What every write preserves holds at the next read. -/
theorem advance_invariant {effect : S → E → S} (Inv : S → Prop)
    (hstep : ∀ s e, Inv s → Inv (effect s e)) (h : Inv o.current) :
    Inv (o.advance effect).current := by
  have hfold : ∀ (es : List E) (s : S), Inv s → Inv (es.foldl effect s) := by
    intro es
    induction es with
    | nil => exact fun _ hs => hs
    | cons e rest ih => exact fun s hs => ih _ (hstep s e hs)
  rw [current_advance]
  exact hfold (o.schedule o.reads) o.current h

/-! ## The schedule so far -/

/-- The state is what the writes before the reads so far have made of `before`. -/
structure Follows (effect : S → E → S) (before : S) (schedule : Nat → List E) (o : Shared S E) :
    Prop where
  schedule_eq : o.schedule = schedule
  current_eq : o.current = ((List.range o.reads).flatMap schedule).foldl effect before

/-- The next read goes on from there. -/
theorem Follows.advance {effect : S → E → S} {before : S} {schedule : Nat → List E}
    (h : Follows effect before schedule o) : Follows effect before schedule (o.advance effect) where
  schedule_eq := (schedule_advance effect o).trans h.schedule_eq
  current_eq := by
    have hreads : (o.advance effect).reads = o.reads + 1 := rfl
    rw [current_advance, hreads, List.range_succ, List.flatMap_append, List.foldl_append,
      ← h.current_eq, h.schedule_eq, List.flatMap_singleton]

/-- Where the schedule ends, what was handed over so far is an initial part of all there is. -/
theorem prefix_flatMap_range {schedule : Nat → List E} {n : Nat}
    (hend : ∀ i, n ≤ i → schedule i = []) (k : Nat) :
    (List.range k).flatMap schedule <+: (List.range n).flatMap schedule := by
  rcases Nat.le_total k n with hle | hle
  · obtain ⟨j, rfl⟩ := Nat.exists_eq_add_of_le hle
    rw [List.range_add, List.flatMap_append]
    exact List.prefix_append _ _
  · obtain ⟨j, rfl⟩ := Nat.exists_eq_add_of_le hle
    have hrest : ((List.range j).map (n + ·)).flatMap schedule = [] := by
      rw [List.flatMap_eq_nil_iff]
      intro i hi
      obtain ⟨m, -, rfl⟩ := List.mem_map.mp hi
      exact hend (n + m) (Nat.le_add_right n m)
    rw [List.range_add, List.flatMap_append, hrest, List.append_nil]

end Shared

end Infra
