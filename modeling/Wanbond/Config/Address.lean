import Mathlib.Tactic

/-!
# Addresses and ranges

Addresses as `netip` has them, and the ranges that `allowed_ips` is made of.
-/

namespace Wanbond.Config

/-- An address as `netip.Addr` has it: the zero value is not valid. -/
inductive IPAddr
  | invalid
  | v4 (bits : BitVec 32)
  | v6 (bits : BitVec 128)
  deriving DecidableEq, Repr

namespace IPAddr

def isValid : IPAddr → Bool
  | .invalid => false
  | _ => true

def is4 : IPAddr → Bool
  | .v4 _ => true
  | _ => false

/-- An IPv4 address mapped into IPv6 becomes the IPv4 address. -/
def unmap : IPAddr → IPAddr
  | .v6 bits =>
    if bits.extractLsb' 32 96 = 0xffff#96 then .v4 (bits.extractLsb' 0 32)
    else .v6 bits
  | a => a

end IPAddr

structure AddrPort where
  addr : IPAddr
  port : BitVec 16
  deriving DecidableEq, Repr

/-! ## Ranges -/

inductive Family
  | v4
  | v6
  deriving DecidableEq, Repr

def Family.width : Family → ℕ
  | .v4 => 32
  | .v6 => 128

/-- A range in the notation `addr/bits`.  The address may have bits beyond the
first `bits` ones. -/
structure Cidr where
  family : Family
  addr : ℕ
  bits : ℕ
  addr_lt : addr < 2 ^ family.width
  bits_le : bits ≤ family.width
  deriving DecidableEq

namespace Cidr

/-- The address with only its first `n` bits. -/
def truncated (p : Cidr) (n : ℕ) : ℕ := p.addr / 2 ^ (p.family.width - n)

/-- The range as the engine files it. -/
def masked (p : Cidr) : Cidr where
  family := p.family
  addr := p.truncated p.bits * 2 ^ (p.family.width - p.bits)
  bits := p.bits
  addr_lt := lt_of_le_of_lt (Nat.div_mul_le_self ..) p.addr_lt
  bits_le := p.bits_le

/-- Two ranges have an address in common. -/
def overlaps (p q : Cidr) : Bool :=
  p.family = q.family &&
    p.truncated (min p.bits q.bits) = q.truncated (min p.bits q.bits)

/-- Half of a family's default route. -/
def half (family : Family) (upper : Bool) : Cidr where
  family := family
  addr := if upper then 2 ^ (family.width - 1) else 0
  bits := 1
  addr_lt := by
    cases family <;> cases upper <;> simp [Family.width]
  bits_le := by
    cases family <;> simp [Family.width]

/-- A full default route, of either family. -/
def isDefaultRoute (p : Cidr) : Bool := p.bits = 0

/-- The engine is never given a default route itself, but its two halves. -/
def splitDefaultRoute (p : Cidr) : List Cidr :=
  if p.isDefaultRoute then [half p.family false, half p.family true] else [p]

@[simp] theorem bits_masked (p : Cidr) : p.masked.bits = p.bits := rfl

@[simp] theorem family_masked (p : Cidr) : p.masked.family = p.family := rfl

@[simp] theorem masked_half (family : Family) (upper : Bool) :
    (half family upper).masked = half family upper := by
  cases family <;> cases upper <;> rfl

theorem overlaps_of_masked_eq {p q : Cidr} (h : p.masked = q.masked) :
    p.overlaps q = true := by
  have hfamily : p.masked.family = q.masked.family := congrArg Cidr.family h
  have hbits : p.masked.bits = q.masked.bits := congrArg Cidr.bits h
  have haddr : p.truncated p.bits * 2 ^ (p.family.width - p.bits) =
      q.truncated q.bits * 2 ^ (q.family.width - q.bits) :=
    congrArg Cidr.addr h
  rw [family_masked, family_masked] at hfamily
  rw [bits_masked, bits_masked] at hbits
  rw [hfamily, hbits] at haddr
  have htrunc := Nat.eq_of_mul_eq_mul_right (Nat.two_pow_pos _) haddr
  simp [overlaps, hfamily, hbits, htrunc]

end Cidr

end Wanbond.Config
