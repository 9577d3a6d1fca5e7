import Mathlib.Tactic

/-!
# Bisection with a fallible test

`bisect` looks for the largest size that a test accepts, between a lower bound
that is taken to be accepted and an upper bound.  The test may fail, may consult
the current lower bound and may thread a state of its own; a failure aborts the
search.
-/

namespace Wanbond.Support

variable {σ ε : Type*}

/-- Bisection by at most `fuel` tests. -/
def bisect (test : ℤ → ℤ → σ → Except ε (Bool × σ)) :
    ℕ → ℤ → ℤ → σ → Except ε ℤ
  | 0, lo, _, _ => .ok lo
  | fuel + 1, lo, hi, s =>
    if lo < hi then
      match test ((lo + hi + 1) / 2) lo s with
      | .error e => .error e
      | .ok (true, s') => bisect test fuel ((lo + hi + 1) / 2) hi s'
      | .ok (false, s') => bisect test fuel lo ((lo + hi + 1) / 2 - 1) s'
    else .ok lo

variable {test : ℤ → ℤ → σ → Except ε (Bool × σ)}

variable {fuel : ℕ} {s : σ}

/-- The result of a bisection lies between its bounds. -/
theorem bisect_mem {lo hi r : ℤ} (hle : lo ≤ hi)
    (h : bisect test fuel lo hi s = .ok r) : lo ≤ r ∧ r ≤ hi := by
  induction fuel generalizing lo hi s with
  | zero =>
    cases h
    exact ⟨le_rfl, hle⟩
  | succ fuel ih =>
    rw [bisect] at h
    split at h
    next hlt =>
      split at h
      · cases h
      · obtain ⟨hlo, hhi⟩ := ih (by omega) h
        exact ⟨by omega, hhi⟩
      · obtain ⟨hlo, hhi⟩ := ih (by omega) h
        exact ⟨hlo, by omega⟩
    next =>
      cases h
      exact ⟨le_rfl, hle⟩

variable {lo hi : ℤ}

theorem bisect_of_not_lt (fuel : ℕ) (s : σ) (hle : ¬lo < hi) :
    bisect test fuel lo hi s = .ok lo := by
  cases fuel with
  | zero => rfl
  | succ fuel => rw [bisect, if_neg hle]

/-- As many tests as the interval is wide are enough: the bound on their number
is never what ends the search. -/
theorem bisect_fuel {fuel fuel' : ℕ} (hfuel : hi - lo ≤ fuel)
    (hfuel' : hi - lo ≤ fuel') :
    bisect test fuel lo hi s = bisect test fuel' lo hi s := by
  induction fuel generalizing fuel' lo hi s with
  | zero => rw [bisect, bisect_of_not_lt fuel' s (by omega)]
  | succ fuel ih =>
    by_cases hlt : lo < hi
    · obtain ⟨fuel', rfl⟩ : ∃ k, fuel' = k + 1 := ⟨fuel' - 1, by omega⟩
      rw [bisect, bisect, if_pos hlt, if_pos hlt]
      split
      · rfl
      · exact ih (by omega) (by omega)
      · exact ih (by omega) (by omega)
    · rw [bisect_of_not_lt _ s hlt, bisect_of_not_lt _ s hlt]

/-- A test that accepts exactly the sizes up to `m` is bisected to `m`, or to
the upper bound where that is smaller. -/
theorem bisect_threshold {lo hi m : ℤ}
    (htest : ∀ mid control s,
      (test mid control s).map Prod.fst = .ok (decide (mid ≤ m))) (hlo : lo ≤ m)
    (hle : lo ≤ hi) (hfuel : hi - lo ≤ fuel) :
    bisect test fuel lo hi s = .ok (min m hi) := by
  induction fuel generalizing lo hi s with
  | zero =>
    obtain rfl : lo = hi := by omega
    rw [bisect, min_eq_right hlo]
  | succ fuel ih =>
    by_cases hlt : lo < hi
    · rw [bisect, if_pos hlt]
      have hverdict := htest ((lo + hi + 1) / 2) lo s
      split
      next e heq =>
        rw [heq] at hverdict
        cases hverdict
      next s' heq =>
        -- the size is at most `m`, and becomes the lower bound
        rw [heq] at hverdict
        have hmid : (lo + hi + 1) / 2 ≤ m :=
          of_decide_eq_true (Except.ok.inj hverdict).symm
        exact ih hmid (by omega) (by omega)
      next s' heq =>
        -- the size exceeds `m`, so that the upper bound stays at least `m`
        rw [heq] at hverdict
        have hmid : ¬(lo + hi + 1) / 2 ≤ m :=
          of_decide_eq_false (Except.ok.inj hverdict).symm
        rw [ih hlo (by omega) (by omega), min_eq_left (by omega),
          min_eq_left (by omega)]
    · rw [bisect_of_not_lt _ s hlt, min_eq_right (by omega)]
      obtain rfl : lo = hi := by omega
      rfl

/-- A test that halves the interval is paid for by the logarithm of its width. -/
theorem spent_halves {limit c d v w : ℕ} (hw : 2 ≤ w)
    (hhalf : v ≤ (w + 2 - 1) / 2) (hone : d ≤ c + limit) :
    d + limit * Nat.clog 2 v ≤ c + limit * Nat.clog 2 w := by
  rw [Nat.clog_of_two_le Nat.one_lt_two hw, Nat.mul_add_one]
  have hlog := Nat.mul_le_mul_left limit (Nat.clog_mono_right 2 hhalf)
  exact (Nat.add_le_add hone hlog).trans (by omega)

/-- A bisection fails in the test of a size within its bounds, after fewer tests
than the logarithm of the number of these sizes. -/
theorem bisect_error (cost : σ → ℕ) {limit : ℕ}
    (hcost : ∀ ⦃mid control s b s'⦄, test mid control s = .ok (b, s') →
      cost s' ≤ cost s + limit) {e : ε}
    (h : bisect test fuel lo hi s = .error e) :
    ∃ mid control s', lo ≤ control ∧ control < mid ∧ mid ≤ hi ∧
      test mid control s' = .error e ∧
      cost s' + limit ≤ cost s + limit * Nat.clog 2 (hi - lo + 1).toNat := by
  fun_induction bisect test fuel lo hi s with
  | case1 | case5 => cases h
  | case2 _ lo hi s hlt _ htest =>
    obtain rfl := Except.error.inj h
    have hpaid := spent_halves (w := (hi - lo + 1).toNat) (by omega)
      (Nat.zero_le _) (le_refl (cost s + limit))
    exact ⟨_, lo, s, le_rfl, by omega, by omega, htest, by simpa using hpaid⟩
  | case3 _ lo hi s hlt _ htest ih | case4 _ lo hi s hlt _ htest ih =>
    obtain ⟨mid, control, s', hlo, hmid, hhi, herror, hspent⟩ := ih h
    exact ⟨mid, control, s', by omega, hmid, by omega, herror,
      hspent.trans (spent_halves (by omega) (by omega) (hcost htest))⟩

/-- A bisection settles on its lower bound or on a size that a test has
accepted.  Another test fails there, if it fails in the test of this size and
agrees with the first one on what came before. -/
theorem bisect_accepted (cost : σ → ℕ)
    (hcost : ∀ ⦃mid control s b s'⦄, test mid control s = .ok (b, s') →
      cost s ≤ cost s') {lo hi r : ℤ} (h : bisect test fuel lo hi s = .ok r) :
    r = lo ∨ ∃ control s₀ s₁, cost s ≤ cost s₀ ∧
      test r control s₀ = .ok (true, s₁) ∧
      ∀ {ε' : Type*} (test' : ℤ → ℤ → σ → Except ε' (Bool × σ)) (e : ε'),
        (∀ mid control s b s', test mid control s = .ok (b, s') →
          cost s' ≤ cost s₀ → test' mid control s = .ok (b, s')) →
        test' r control s₀ = .error e → bisect test' fuel lo hi s = .error e := by
  fun_induction bisect test fuel lo hi s with
  | case1 | case5 => exact Or.inl (Except.ok.inj h).symm
  | case2 => cases h
  | case3 _ lo hi s hlt s₁ htest ih =>
    rcases ih h with rfl | ⟨control, s₀, s₂, hle, hr, hagree⟩
    · refine Or.inr ⟨lo, s, s₁, le_rfl, htest, fun test' e _ herror => ?_⟩
      rw [bisect, if_pos hlt, herror]
    refine Or.inr ⟨control, s₀, s₂, (hcost htest).trans hle, hr,
      fun test' e hsame herror => ?_⟩
    rw [bisect, if_pos hlt, hsame _ _ _ _ _ htest hle]
    exact hagree test' e hsame herror
  | case4 _ lo hi s hlt s₁ htest ih =>
    refine (ih h).imp_right ?_
    rintro ⟨control, s₀, s₂, hle, hr, hagree⟩
    refine ⟨control, s₀, s₂, (hcost htest).trans hle, hr,
      fun test' e hsame herror => ?_⟩
    rw [bisect, if_pos hlt, hsame _ _ _ _ _ htest hle]
    exact hagree test' e hsame herror

end Wanbond.Support
