import Mathlib

/-!
# Runs of a transition system

The runs of a labelled transition relation from a fixed initial state, with the events that
happened, and induction over them.
-/

namespace Infra

variable {S E : Type}

/-- The events of a run, oldest first, and the state it leads to. -/
inductive Run (step : S → E → S → Prop) (init : S) : List E → S → Prop
  | start : Run step init [] init
  | snoc {evs : List E} {s s' : S} {ev : E} :
      Run step init evs s → step s ev s' → Run step init (evs ++ [ev]) s'

namespace Run

variable {step : S → E → S → Prop} {init : S}

/-- **What holds initially and is preserved by every step holds after every run.** -/
theorem invariant {Inv : List E → S → Prop} (hinit : Inv [] init)
    (hstep : ∀ {evs s ev s'}, Inv evs s → step s ev s' → Inv (evs ++ [ev]) s') {evs : List E}
    {s : S} (h : Run step init evs s) : Inv evs s := by
  induction h with
  | start => exact hinit
  | snoc _ hs ih => exact hstep ih hs

/-- A run of one event. -/
theorem one {s' : S} {ev : E} (h : step init ev s') : Run step init [ev] s' := snoc start h

end Run

end Infra
