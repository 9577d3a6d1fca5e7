import Mathlib.Data.List.GetD
import Mathlib.Data.Nat.Bits
import Mathlib.Data.Vector.Basic
import Mathlib.Tactic

/-!
# Bit masks of several machine words

A mask of `n` words of 64 bits is read as one sequence of `64 * n` bits, bit
`i` being bit `i % 64` of word `i / 64`.  This module provides the word-wise
operations of a sliding mask, and describes each of them by the bits of its
result; a development above it never looks at words again.
-/

namespace Wanbond.Support

/-- A mask of `n` words. -/
abbrev WordMask (n : ℕ) := List.Vector (BitVec 64) n

namespace WordMask

variable {n : ℕ}

/-- No bit set. -/
def empty (n : ℕ) : WordMask n := List.Vector.replicate n 0#64

/-- The word at an index, zero outside the mask. -/
def word (m : WordMask n) (i : ℕ) : BitVec 64 := m.toList.getD i 0#64

/-- The bit at an index, false outside the mask. -/
def bit (m : WordMask n) (i : ℕ) : Bool := (m.word (i / 64)).getLsbD (i % 64)

/-- Move every bit up by `d`, word by word. -/
def shiftUp (m : WordMask n) (d : ℕ) : WordMask n :=
  let words := d / 64
  let shift := d % 64
  List.Vector.ofFn fun i : Fin n =>
    let value := if i.val ≥ words then m.word (i.val - words) <<< shift else 0#64
    if shift > 0 ∧ i.val > words then
      value ||| (m.word (i.val - words - 1) >>> (64 - shift))
    else value

/-- Set one bit. -/
def setBit (m : WordMask n) (d : ℕ) : WordMask n :=
  List.Vector.ofFn fun i : Fin n =>
    if i.val = d / 64 then m.word i.val ||| (1#64 <<< (d % 64))
    else m.word i.val

/-- Keep the bits below `d` and clear the others. -/
def keepBelow (m : WordMask n) (d : ℕ) : WordMask n :=
  List.Vector.ofFn fun i : Fin n =>
    if i.val < d / 64 then m.word i.val
    else if i.val = d / 64 then
      m.word i.val &&& ((1#64 <<< (d % 64)) - 1#64)
    else 0#64

/-- `bits.Len64(w) - 1` of a nonzero word. -/
def topBit (w : BitVec 64) : ℕ := w.toNat.log2

/-- The highest set bit among the first `k` words, scanned from the top. -/
def highestBelow (m : WordMask n) : ℕ → Option ℕ
  | 0 => none
  | k + 1 =>
    if m.word k ≠ 0#64 then some (64 * k + topBit (m.word k))
    else highestBelow m k

/-- The highest set bit. -/
def highest (m : WordMask n) : Option ℕ := highestBelow m n

/-! ## Words of a constructed mask -/

variable {i : ℕ}

theorem word_ofFn (f : Fin n → BitVec 64) (hi : i < n) :
    word (List.Vector.ofFn f) i = f ⟨i, hi⟩ := by
  have hlen : i < (List.Vector.ofFn f).toList.length := by simpa using hi
  rw [word, List.getD_eq_getElem _ _ hlen]
  simp

variable (m : WordMask n)

theorem word_of_le (hi : n ≤ i) : m.word i = 0#64 := by
  rw [word, List.getD_eq_default]
  simpa using hi

theorem bit_of_le (hi : 64 * n ≤ i) : m.bit i = false := by
  have hword : m.word (i / 64) = 0#64 := m.word_of_le (by omega)
  simp [bit, hword]

@[simp] theorem word_empty (i : ℕ) : (empty n).word i = 0#64 := by
  simp [word, empty, List.Vector.replicate]

@[simp] theorem bit_empty (i : ℕ) : (empty n).bit i = false := by
  simp [bit]

/-! ## Bits of the operations -/

theorem bit_shiftUp (d : ℕ) (hi : i < 64 * n) :
    (m.shiftUp d).bit i = (decide (d ≤ i) && m.bit (i - d)) := by
  have hq : i / 64 < n := by omega
  have hr : i % 64 < 64 := Nat.mod_lt _ (by norm_num)
  rw [bit, shiftUp, word_ofFn _ hq]
  -- the bit comes from one word when it lies above the shift, else from the
  -- word below
  by_cases hcross : d % 64 ≤ i % 64
  · have hlow : ¬i % 64 < d % 64 := by omega
    by_cases hle : d ≤ i
    · have hword : d / 64 ≤ i / 64 := Nat.div_le_div_right hle
      have hdiv : (i - d) / 64 = i / 64 - d / 64 := by omega
      have hmod : (i - d) % 64 = i % 64 - d % 64 := by omega
      have hout : 64 ≤ 64 - d % 64 + i % 64 := by omega
      have hvalue :
          (m.word (i / 64 - d / 64) <<< (d % 64)).getLsbD (i % 64) =
            m.bit (i - d) := by
        rw [BitVec.getLsbD_shiftLeft, bit, hdiv, hmod]
        simp only [hr, hlow, decide_true, decide_false, Bool.not_false,
          Bool.and_self, Bool.true_and]
      rw [if_pos hword]
      split
      · rw [BitVec.getLsbD_or, hvalue, BitVec.getLsbD_ushiftRight,
          BitVec.getLsbD_of_ge _ _ hout]
        simp [hle]
      · rw [hvalue]
        simp [hle]
    · have hword : ¬i / 64 ≥ d / 64 := by omega
      have hword' : ¬(d % 64 > 0 ∧ i / 64 > d / 64) := by omega
      rw [if_neg hword', if_neg hword]
      simp [hle]
  · have hcross' : i % 64 < d % 64 := by omega
    have hzero : ∀ w : BitVec 64, (w <<< (d % 64)).getLsbD (i % 64) = false := by
      intro w
      simp [BitVec.getLsbD_shiftLeft, hcross']
    by_cases hle : d ≤ i
    · have hword : i / 64 ≥ d / 64 := Nat.div_le_div_right hle
      have hword' : d % 64 > 0 ∧ i / 64 > d / 64 := by omega
      have hdiv : (i - d) / 64 = i / 64 - d / 64 - 1 := by omega
      have hmod : (i - d) % 64 = 64 - d % 64 + i % 64 := by omega
      rw [if_pos hword', if_pos hword, BitVec.getLsbD_or, hzero,
        BitVec.getLsbD_ushiftRight, bit, hdiv, hmod]
      simp [hle]
    have hword' : ¬(d % 64 > 0 ∧ i / 64 > d / 64) := by omega
    rw [if_neg hword']
    split
    · simp [hzero, hle]
    · simp [hle]

theorem bit_setBit (d : ℕ) (hi : i < 64 * n) :
    (m.setBit d).bit i = (decide (i = d) || m.bit i) := by
  have hq : i / 64 < n := by omega
  have hr : i % 64 < 64 := Nat.mod_lt _ (by norm_num)
  rw [bit, setBit, word_ofFn _ hq]
  by_cases hword : i / 64 = d / 64
  · by_cases hmod : i % 64 = d % 64
    · have heq : i = d := by omega
      subst heq
      simp [bit, hr]
    · have hne : ¬i = d := by rintro rfl; exact hmod rfl
      rw [if_pos hword, BitVec.getLsbD_or, BitVec.getLsbD_shiftLeft,
        BitVec.getLsbD_one]
      by_cases hlt : i % 64 < d % 64
      · simp [bit, hne, hlt]
      · have hsub : i % 64 - d % 64 ≠ 0 := by omega
        simp [bit, hne, hsub]
  · have hne : ¬i = d := by rintro rfl; exact hword rfl
    simp [bit, hword, hne]

theorem bit_keepBelow (d : ℕ) (hi : i < 64 * n) :
    (m.keepBelow d).bit i = (decide (i < d) && m.bit i) := by
  have hq : i / 64 < n := by omega
  have hr : i % 64 < 64 := Nat.mod_lt _ (by norm_num)
  rw [bit, keepBelow, word_ofFn _ hq]
  rcases lt_trichotomy (i / 64) (d / 64) with hlt | heq | hgt
  · have hid : i < d := by omega
    simp [bit, hlt, hid]
  · have hnlt : ¬i / 64 < d / 64 := by omega
    rw [if_neg hnlt, if_pos heq, BitVec.getLsbD_and]
    have hmask : ((1#64 <<< (d % 64)) - 1#64).getLsbD (i % 64) =
        decide (i % 64 < d % 64) := by
      have hd : d % 64 < 64 := Nat.mod_lt _ (by norm_num)
      have hpow : 2 ^ (d % 64) < 2 ^ 64 := Nat.pow_lt_pow_right (by norm_num) hd
      have hone : 1 ≤ 2 ^ (d % 64) := Nat.one_le_two_pow
      have hnat : ((1#64 <<< (d % 64)) - 1#64).toNat =
          2 ^ (d % 64) - 1 := by
        have hshift : (1#64 <<< (d % 64)).toNat = 2 ^ (d % 64) := by
          rw [BitVec.toNat_shiftLeft, Nat.shiftLeft_eq]
          simpa using hpow
        rw [BitVec.toNat_sub, hshift]
        simp only [BitVec.toNat_ofNat]
        omega
      rw [BitVec.getLsbD, hnat, Nat.testBit_two_pow_sub_one]
    rw [hmask, Bool.and_comm]
    have hiff : i % 64 < d % 64 ↔ i < d := by omega
    simp [bit, hiff]
  · have hid : ¬i < d := by omega
    have h₁ : ¬i / 64 < d / 64 := by omega
    have h₂ : ¬i / 64 = d / 64 := by omega
    simp [h₁, h₂, hid]

/-! ## The highest set bit -/

theorem topBit_spec {w : BitVec 64} (hw : w ≠ 0#64) :
    topBit w < 64 ∧ w.getLsbD (topBit w) = true ∧
      ∀ i, topBit w < i → w.getLsbD i = false := by
  have hne : w.toNat ≠ 0 := by
    intro h
    apply hw
    exact BitVec.eq_of_toNat_eq (by simpa using h)
  have hlt : w.toNat < 2 ^ 64 := w.isLt
  refine ⟨(Nat.log2_lt hne).mpr hlt, ?_, ?_⟩
  · exact Nat.testBit_log2 hne
  · intro i hi
    apply Nat.testBit_lt_two_pow
    exact (Nat.log2_lt hne).mp hi

variable {m : WordMask n}

theorem bit_of_word_eq_zero {k : ℕ} (h : m.word k = 0#64)
    (hi : i / 64 = k) : m.bit i = false := by
  simp [bit, hi, h]

/-- The words passed over are empty. -/
theorem highestBelow_spec (m : WordMask n) (k : ℕ) :
    (highestBelow m k = none ∧ ∀ i < 64 * k, m.bit i = false) ∨
      ∃ d, highestBelow m k = some d ∧ d < 64 * k ∧ m.bit d = true ∧
        ∀ i < 64 * k, d < i → m.bit i = false := by
  induction k with
  | zero => exact .inl ⟨rfl, fun i hi => by omega⟩
  | succ k ih =>
    by_cases hw : m.word k = 0#64
    · have hstep : highestBelow m (k + 1) = highestBelow m k := by
        simp [highestBelow, hw]
      rw [hstep]
      rcases ih with ⟨hnone, hclear⟩ | ⟨d, hsome, hlt, hset, hclear⟩
      · refine .inl ⟨hnone, fun i hi => ?_⟩
        by_cases hlow : i < 64 * k
        · exact hclear i hlow
        · exact bit_of_word_eq_zero hw (by omega)
      · refine .inr ⟨d, hsome, by omega, hset, fun i hi hdi => ?_⟩
        by_cases hlow : i < 64 * k
        · exact hclear i hlow hdi
        · exact bit_of_word_eq_zero hw (by omega)
    obtain ⟨hlt, hset, hclear⟩ := topBit_spec hw
    have hdiv : (64 * k + topBit (m.word k)) / 64 = k := by omega
    have hmod : (64 * k + topBit (m.word k)) % 64 =
        topBit (m.word k) := by omega
    refine .inr ⟨_, by rw [highestBelow, if_pos hw], by omega,
      by rw [bit, hdiv, hmod, hset], fun i hi hgt => ?_⟩
    have hidiv : i / 64 = k := by omega
    rw [bit, hidiv]
    exact hclear _ (by omega)

theorem highest_eq_none : m.highest = none ↔ ∀ i, m.bit i = false := by
  rw [highest]
  rcases highestBelow_spec m n with ⟨hnone, hclear⟩ | ⟨d, hsome, -, hset, -⟩
  · refine iff_of_true hnone fun i => ?_
    by_cases hi : i < 64 * n
    · exact hclear i hi
    · exact m.bit_of_le (by omega)
  · simp only [hsome, reduceCtorEq, false_iff]
    exact fun h => by simp [h d] at hset

theorem highest_eq_some {d : ℕ} (h : m.highest = some d) :
    d < 64 * n ∧ m.bit d = true ∧ ∀ i, d < i → m.bit i = false := by
  rcases highestBelow_spec m n with ⟨hnone, -⟩ | ⟨d', hsome, hlt, hset, hclear⟩
  · cases h.symm.trans hnone
  obtain rfl := Option.some.inj (h.symm.trans hsome)
  refine ⟨hlt, hset, fun i hi => ?_⟩
  by_cases hin : i < 64 * n
  · exact hclear i hin hi
  · exact m.bit_of_le (by omega)

end WordMask

end Wanbond.Support
