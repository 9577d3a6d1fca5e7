import Mathlib.Data.Finset.Card
import Mathlib.Tactic

/-!
# Cells of a modular ring

A ring of `w` cells, each of which holds something or nothing, and the numbers
that share a cell.  In a window of `w` successive numbers no two share one.
-/

namespace Wanbond.Support

variable {β : Type} {w i : ℕ} {ring : ℕ → Option β}

/-- How many of the first `w` cells hold something. -/
def occupied (w : ℕ) (ring : ℕ → Option β) : ℕ :=
  ((Finset.range w).filter fun i => (ring i).isSome).card

theorem occupied_le (w : ℕ) (ring : ℕ → Option β) : occupied w ring ≤ w := by
  have h := Finset.card_filter_le (Finset.range w) fun i => (ring i).isSome
  rwa [Finset.card_range] at h

theorem occupied_eq_zero_iff :
    occupied w ring = 0 ↔ ∀ i, i < w → ring i = none := by
  simp [occupied, Finset.filter_eq_empty_iff]

/-- An empty cell is filled. -/
theorem occupied_fill (hi : i < w) (h : ring i = none) (x : β) :
    occupied w (Function.update ring i (some x)) = occupied w ring + 1 := by
  have hset : ((Finset.range w).filter fun j =>
      (Function.update ring i (some x) j).isSome) =
      insert i ((Finset.range w).filter fun j => (ring j).isSome) := by
    ext j
    by_cases hj : j = i
    · subst hj
      simp [hi]
    · simp [hj]
  unfold occupied
  rw [hset, Finset.card_insert_of_notMem]
  simp [h]

/-- A cell is emptied. -/
theorem occupied_clear (hi : i < w) {x : β} (h : ring i = some x) :
    occupied w (Function.update ring i none) + 1 = occupied w ring := by
  have hfill := @occupied_fill β w i (Function.update ring i none) hi
    (Function.update_self i none ring) x
  rw [Function.update_idem, ← h, Function.update_eq_self] at hfill
  exact hfill.symm

/-- Two numbers of one window that share a cell are the same. -/
theorem eq_of_mod_eq {a b n : ℕ} (hmod : a % w = b % w) (ha : n ≤ a)
    (ha' : a < n + w) (hb : n ≤ b) (hb' : b < n + w) : a = b := by
  have hdvd : ∀ {x y : ℕ}, x ≤ y → x % w = y % w → y < x + w → x = y := by
    intro x y hle hxy hlt
    have hzero : y - x = 0 :=
      Nat.eq_zero_of_dvd_of_lt ((Nat.modEq_iff_dvd' hle).mp hxy) (by omega)
    omega
  rcases le_total a b with hab | hba
  · exact hdvd hab hmod (by omega)
  · exact (hdvd hba hmod.symm (by omega)).symm

end Wanbond.Support
