import Mathlib.Data.Rat.Defs
import Mathlib.Data.Vector.Basic
import Mathlib.Tactic

/-!
# Rings of time buckets

A ring of five buckets, each of which collects what happened in one stretch of
time of a given length.  Rotating to the present empties the buckets that have
passed; a ring left alone for as long as all its buckets span starts over.
-/

namespace Wanbond.Support

def ringBuckets : ℕ := 5

structure BucketRing where
  start : ℤ
  buckets : List.Vector ℚ ringBuckets
  index : Fin ringBuckets

namespace BucketRing

def zero : BucketRing :=
  ⟨0, List.Vector.replicate ringBuckets 0, ⟨0, by decide⟩⟩

/-- Enter the next bucket and empty it. -/
def advance (m : BucketRing) (length : ℤ) : BucketRing :=
  let index : Fin ringBuckets :=
    ⟨(m.index.val + 1) % ringBuckets, Nat.mod_lt _ (by decide)⟩
  { start := m.start + length
    buckets := m.buckets.set index 0
    index := index }

/-- Advance while the present bucket has passed, at most `fuel` times. -/
def advanceTo (length now : ℤ) : ℕ → BucketRing → BucketRing
  | 0, m => m
  | fuel + 1, m =>
    if now - m.start ≥ length then
      advanceTo length now fuel (m.advance length)
    else m

/-- A ring that has not started, or that all its buckets have left behind,
starts over; so the loop makes fewer than `ringBuckets` turns. -/
def rotate (m : BucketRing) (length now : ℤ) : BucketRing :=
  if m.start = 0 ∨ now - m.start ≥ ringBuckets * length then
    { zero with start := now }
  else advanceTo length now ringBuckets m

/-- Change the present bucket. -/
def modify (m : BucketRing) (f : ℚ → ℚ) : BucketRing :=
  { m with buckets := m.buckets.set m.index (f (m.buckets.get m.index)) }

def highest (m : BucketRing) : ℚ := m.buckets.toList.foldl max 0

/-! ## Rotating to the present -/

section Rotate

variable {m : BucketRing} {length now : ℤ}

/-- Enough fuel ends in the present bucket. -/
theorem advanceTo_current (fuel : ℕ) :
    ∀ m : BucketRing, now - m.start < (fuel + 1) * length →
      m.start ≤ (advanceTo length now fuel m).start ∧
        now - (advanceTo length now fuel m).start < length := by
  induction fuel with
  | zero =>
    intro m hm
    refine ⟨le_rfl, ?_⟩
    simpa [advanceTo] using hm
  | succ fuel ih =>
    intro m hm
    unfold advanceTo
    split
    · have hstart : (m.advance length).start = m.start + length := rfl
      obtain ⟨hle, hlt⟩ := ih (m.advance length) (by
        rw [hstart]
        push_cast at hm
        linarith)
      exact ⟨by rw [hstart] at hle; omega, hlt⟩
    next hpast => exact ⟨le_rfl, not_le.mp hpast⟩

theorem advanceTo_of_kept (hlength : 0 < length)
    (hkept : ¬(m.start = 0 ∨ now - m.start ≥ ringBuckets * length)) :
    m.start ≤ (advanceTo length now ringBuckets m).start ∧
      now - (advanceTo length now ringBuckets m).start < length := by
  have hspan : now - m.start < ringBuckets * length :=
    not_le.mp fun h => hkept (Or.inr h)
  exact advanceTo_current ringBuckets m (by linarith)

theorem rotate_current (hlength : 0 < length) (hstart : 0 ≤ m.start) :
    0 ≤ now → 0 ≤ (m.rotate length now).start ∧
      now - (m.rotate length now).start < length := by
  intro hnow
  unfold rotate
  split
  · exact ⟨hnow, by simpa using hlength⟩
  next hkept =>
    obtain ⟨hle, hlt⟩ := advanceTo_of_kept hlength hkept
    exact ⟨hstart.trans hle, hlt⟩

/-- A ring rotated to the present has started. -/
theorem rotate_start_ne_zero (hlength : 0 < length) (hstart : 0 ≤ m.start)
    (hnow : 0 < now) : (m.rotate length now).start ≠ 0 := by
  unfold rotate
  split
  · exact hnow.ne'
  next hkept =>
    have hpos : m.start ≠ 0 := fun h => hkept (Or.inl h)
    have hle := (advanceTo_of_kept hlength hkept).1
    omega

/-- A ring that is at the present stays. -/
theorem rotate_of_current (hstart : m.start ≠ 0) (hlength : 0 < length)
    (hcurrent : now - m.start < length) : m.rotate length now = m := by
  have hfive : ((ringBuckets : ℕ) : ℤ) = 5 := rfl
  unfold rotate
  rw [if_neg]
  · show (if now - m.start ≥ length then _ else m) = m
    rw [if_neg (not_le.mpr hcurrent)]
  rintro (h | h)
  · exact hstart h
  · rw [hfive] at h
    linarith

/-- Rotating again at the same time changes nothing. -/
theorem rotate_modify_rotate (hlength : 0 < length) (hstart : 0 ≤ m.start)
    (hnow : 0 < now) (f : ℚ → ℚ) :
    ((m.rotate length now).modify f).rotate length now =
      (m.rotate length now).modify f :=
  rotate_of_current (m := (m.rotate length now).modify f)
    (rotate_start_ne_zero hlength hstart hnow) hlength
    (rotate_current hlength hstart hnow.le).2

theorem modify_modify (m : BucketRing) (f g : ℚ → ℚ) :
    (m.modify f).modify g = m.modify fun x => g (f x) := by
  unfold modify
  simp only [List.Vector.get_set_same]
  congr 1
  apply List.Vector.ext
  intro i
  by_cases hi : m.index = i
  · subst hi
    rw [List.Vector.get_set_same, List.Vector.get_set_same]
  · rw [List.Vector.get_set_of_ne hi, List.Vector.get_set_of_ne hi,
      List.Vector.get_set_of_ne hi]

end Rotate

end BucketRing

end Wanbond.Support
