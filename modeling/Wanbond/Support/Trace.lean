import Mathlib.Data.List.Basic

/-!
# Runs of a labelled step relation

A step leads from one state to another and emits a list of labels.  A run is a
sequence of steps, and emits what its steps emit, in order.
-/

namespace Wanbond.Support

variable {σ ε : Type*} {step : σ → List ε → σ → Prop}

inductive Trace (step : σ → List ε → σ → Prop) : σ → List ε → σ → Prop
  | refl (s : σ) : Trace step s [] s
  | cons {s s' s'' : σ} {es es' : List ε} : step s es s' →
      Trace step s' es' s'' → Trace step s (es ++ es') s''

namespace Trace

variable {s s' : σ} {es : List ε}

theorem single (h : step s es s') : Trace step s es s' := by
  simpa using Trace.cons h (.refl s')

theorem trans {s'' : σ} {es' : List ε} (h : Trace step s es s')
    (h' : Trace step s' es' s'') : Trace step s (es ++ es') s'' := by
  induction h with
  | refl s => exact h'
  | cons hstep _ ih =>
    rw [List.append_assoc]
    exact .cons hstep (ih h')

variable {P : σ → Prop}

/-- What every step keeps holds at the end of a run. -/
theorem invariant (hstep : ∀ s es s', P s → step s es s' → P s')
    (h : Trace step s es s') (hs : P s) : P s' := by
  induction h with
  | refl s => exact hs
  | cons hone _ ih => exact ih (hstep _ _ _ hs hone)

/-- A relation that is reflexive and transitive, and holds across every step
from a state with the invariant, holds across a run. -/
theorem related {R : σ → σ → Prop} (hrefl : ∀ s, R s s)
    (htrans : ∀ s s' s'', R s s' → R s' s'' → R s s'')
    (hkeep : ∀ s es s', P s → step s es s' → P s')
    (hstep : ∀ s es s', P s → step s es s' → R s s') (h : Trace step s es s')
    (hs : P s) : R s s' := by
  induction h with
  | refl s => exact hrefl s
  | cons hone _ ih =>
    exact htrans _ _ _ (hstep _ _ _ hs hone) (ih (hkeep _ _ _ hs hone))

end Trace

end Wanbond.Support
