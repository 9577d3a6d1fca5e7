import Mathlib.Data.List.Basic

/-!
# Sequences of checks

A check either passes or fails with an error, and a sequence of checks stops at
the first error.  It passes exactly when each of its checks does.
-/

namespace Wanbond.Support

variable {α ε : Type*}

theorem bind_eq_ok {x y : Except ε Unit} :
    (x >>= fun _ => y) = .ok () ↔ x = .ok () ∧ y = .ok () := by
  cases x with
  | error e => simp [bind, Except.bind]
  | ok u => simp [bind, Except.bind]

theorem forM_eq_ok {f : α → Except ε Unit} {l : List α} :
    l.forM f = .ok () ↔ ∀ x ∈ l, f x = .ok () := by
  induction l with
  | nil => simp [pure, Except.pure]
  | cons x l ih =>
    change (f x >>= fun _ => l.forM f) = .ok () ↔ _
    rw [bind_eq_ok, ih]
    simp

/-- A check that fails with `e` when `c` holds. -/
def refuse (c : Prop) [Decidable c] (e : ε) : Except ε Unit :=
  if c then .error e else .ok ()

@[simp] theorem refuse_eq_ok {c : Prop} [Decidable c] {e : ε} :
    refuse c e = .ok () ↔ ¬ c := by
  unfold refuse
  split <;> simp_all

end Wanbond.Support
