import Mathlib.Tactic

/-!
# Big-endian integers

Fixed-width unsigned integers as byte strings, the most significant byte first.
-/

namespace Wanbond.Support

namespace BigEndian

/-- The bytes of `n`, in `width` bytes. -/
def encode : ℕ → ℕ → List UInt8
  | 0, _ => []
  | width + 1, n => encode width (n / 256) ++ [UInt8.ofNat n]

/-- The number that a byte string stands for. -/
def decode (b : List UInt8) : ℕ := b.foldl (fun n x => 256 * n + x.toNat) 0

@[simp] theorem length_encode (width n : ℕ) : (encode width n).length = width := by
  induction width generalizing n with
  | zero => rfl
  | succ _ ih => simp [encode, ih]

theorem decode_append (b : List UInt8) (x : UInt8) :
    decode (b ++ [x]) = 256 * decode b + x.toNat := by
  simp [decode]

theorem decode_encode {width n : ℕ} (h : n < 256 ^ width) :
    decode (encode width n) = n := by
  induction width generalizing n with
  | zero =>
    have : n = 0 := by simpa using h
    simp [encode, decode, this]
  | succ width ih =>
    have hlt : n / 256 < 256 ^ width := by
      rwa [Nat.div_lt_iff_lt_mul (by decide), ← Nat.pow_succ]
    rw [encode, decode_append, ih hlt, UInt8.toNat_ofNat']
    omega

end BigEndian

end Wanbond.Support
