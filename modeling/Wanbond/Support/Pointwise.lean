import Mathlib.Data.List.Forall2

/-!
# Lists related entry by entry

A pass over a list that rewrites its entries one at a time relates the two
lists entry by entry.  Passes compose, and what the relation keeps can be read
off either list.
-/

namespace Wanbond.Support.Pointwise

variable {α β γ : Type}

variable {R : α → β → Prop} {l : List α} {m : List β}

/-- Two passes in a row. -/
theorem trans {Q : β → γ → Prop} {S : α → γ → Prop} {n : List γ}
    (h : ∀ x ∈ l, ∀ y z, R x y → Q y z → S x z) (hR : List.Forall₂ R l m)
    (hQ : List.Forall₂ Q m n) : List.Forall₂ S l n := by
  induction hR generalizing n with
  | nil =>
    cases hQ
    exact .nil
  | cons hxy _ ih =>
    cases hQ with
    | cons hyz hQ =>
      exact .cons (h _ List.mem_cons_self _ _ hxy hyz)
        (ih (fun x hx => h x (List.mem_cons_of_mem _ hx)) hQ)

/-- A reading that the pass keeps. -/
theorem map_eq {R : α → α → Prop} {f : α → β} {m : List α}
    (hf : ∀ x y, R x y → f y = f x) (h : List.Forall₂ R l m) :
    m.map f = l.map f := by
  induction h with
  | nil => rfl
  | cons hxy _ ih => rw [List.map_cons, List.map_cons, ih, hf _ _ hxy]

variable {x : α}

theorem getElem? (h : List.Forall₂ R l m) {i : ℕ} (hx : l[i]? = some x) :
    ∃ y, m[i]? = some y ∧ R x y := by
  induction h generalizing i with
  | nil => cases hx
  | cons hxy _ ih =>
    cases i with
    | zero =>
      obtain rfl := Option.some.inj hx
      exact ⟨_, rfl, hxy⟩
    | succ i => exact ih hx

theorem of_mem (h : List.Forall₂ R l m) {y : β} (hy : y ∈ m) :
    ∃ x ∈ l, R x y := by
  induction h with
  | nil => cases hy
  | cons hxy _ ih =>
    rcases List.mem_cons.mp hy with rfl | hy
    · exact ⟨_, List.mem_cons_self, hxy⟩
    · obtain ⟨x, hx, hR⟩ := ih hy
      exact ⟨x, List.mem_cons_of_mem _ hx, hR⟩

theorem to_mem (h : List.Forall₂ R l m) (hx : x ∈ l) : ∃ y ∈ m, R x y :=
  of_mem h.flip hx

/-- The pass keeps what it selects. -/
theorem filter_singleton {R : α → α → Prop} {P : α → Bool} {m : List α}
    (hP : ∀ x y, R x y → P y = P x) (h : List.Forall₂ R l m)
    (hx : l.filter P = [x]) : ∃ y, m.filter P = [y] ∧ R x y := by
  have hfilter : List.Forall₂ R (l.filter P) (m.filter P) :=
    List.rel_filter (fun x y hxy => (congrArg (· = true) (hP x y hxy)).symm.to_iff) h
  rw [hx] at hfilter
  generalize m.filter P = n at hfilter ⊢
  cases hfilter with
  | cons hxy hnil =>
    cases hnil
    exact ⟨_, rfl, hxy⟩

end Wanbond.Support.Pointwise
