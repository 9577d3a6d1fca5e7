import Mathlib.Data.List.Basic
import Mathlib.Order.Lattice

/-!
# Runs of a machine

A machine moves from state to state by a function of the state and an event, and
runs over a list of events.  A moment of the run is the number of events that
have happened.
-/

namespace Wanbond.Support

variable {σ ε : Type*} {step : σ → ε → σ} {s : σ} {es : List ε} {e : ε}
  {i j k : ℕ}

theorem foldl_take_succ (h : es[k]? = some e) :
    (es.take (k + 1)).foldl step s = step ((es.take k).foldl step s) e := by
  rw [List.take_add_one, h, List.foldl_append]
  rfl

/-- What the events from the `i`-th to before the `j`-th keep. -/
theorem foldl_take_induction {P : σ → Prop} (hij : i ≤ j)
    (hi : P ((es.take i).foldl step s))
    (hstep : ∀ k e, i ≤ k → k < j → es[k]? = some e →
      P ((es.take k).foldl step s) →
      P (step ((es.take k).foldl step s) e)) :
    P ((es.take j).foldl step s) := by
  induction j, hij using Nat.le_induction with
  | base => exact hi
  | succ j hij ih =>
    have hj := ih fun k e hik hkj => hstep k e hik (by omega)
    cases he : es[j]? with
    | none =>
      rw [List.take_add_one, he]
      simpa using hj
    | some e =>
      rw [foldl_take_succ he]
      exact hstep j e hij (by omega) he hj

/-- Every event of the run satisfies the condition in the state it meets. -/
def Along (step : σ → ε → σ) (P : σ → ε → Prop) : σ → List ε → Prop
  | _, [] => True
  | s, e :: es => P s e ∧ Along step P (step s e) es

theorem Along.getElem? {P : σ → ε → Prop} (h : Along step P s es)
    (he : es[k]? = some e) : P ((es.take k).foldl step s) e := by
  induction es generalizing s k with
  | nil => simp at he
  | cons e' es ih =>
    cases k with
    | zero =>
      cases he
      exact h.1
    | succ k => exact ih h.2 he

end Wanbond.Support
