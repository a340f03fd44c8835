/-!
Binary64 numbers, held by their 64 bits. The sign is the top bit and the other 63 bits
are the magnitude. Finite magnitudes are ordered as the numbers they stand for, and each
of these is a whole number of units, where one unit is 2^(-1074), the least positive
number. So every statement about finite numbers is a statement about natural numbers.
-/
namespace ExprLang

structure Binary64 where
  bits : UInt64
  deriving DecidableEq, Repr, Inhabited

namespace Binary64

/-- The top bit of the 64, which is 2^63. -/
def signBit : Nat := 0x8000000000000000

def isNegative (x : Binary64) : Bool := signBit ≤ x.bits.toNat

/-- The bits below the sign. -/
def magnitude (x : Binary64) : Nat := x.bits.toNat % signBit

/-- The magnitude of the infinities; those above it are of no number. -/
def infinity : Nat := 0x7ff0000000000000

def isNaN (x : Binary64) : Bool := infinity < x.magnitude

def isFinite (x : Binary64) : Bool := x.magnitude < infinity

/-- The number with this sign and this magnitude below the sign bit. -/
def ofMagnitude (negative : Bool) (magnitude : Nat) : Binary64 :=
  ⟨UInt64.ofNat (magnitude + if negative then signBit else 0)⟩

/-- Any bits that are of no number. -/
def nan (negative : Bool) : Binary64 := ofMagnitude negative 0x7ff8000000000000

/-- One unit is two to minus this power. -/
def unitPower : Nat := 1074

/-- The leading bit of a significand of 53 bits, which is 2^52. -/
def leadingBit : Nat := 0x10000000000000

/-- The power of two that the significand of a finite magnitude counts, in units. -/
def scale (magnitude : Nat) : Nat := magnitude / leadingBit - 1

/-- A finite magnitude has 52 bits of its significand stored; the leading bit is left out
unless the number is less than 2^52 units. -/
def significand (magnitude : Nat) : Nat :=
  if magnitude < leadingBit then magnitude else magnitude % leadingBit + leadingBit

/-- How many units a finite magnitude stands for. -/
def units (magnitude : Nat) : Nat := significand magnitude <<< scale magnitude

theorem scale_significand (m : Nat) : scale m * leadingBit + significand m = m := by
  unfold scale significand leadingBit
  split <;> omega

theorem significand_lt (m : Nat) : significand m < 2 * leadingBit := by
  unfold significand leadingBit
  split <;> omega

theorem le_significand {m : Nat} (h : scale m ≠ 0) : leadingBit ≤ significand m := by
  unfold scale leadingBit at h
  unfold significand leadingBit
  split <;> omega

theorem units_eq_zero {m : Nat} (h : units m = 0) : m = 0 := by
  have hpow := Nat.two_pow_pos (scale m)
  have hsig : significand m = 0 := by
    rw [units, Nat.shiftLeft_eq] at h
    rcases Nat.mul_eq_zero.mp h with h | h <;> omega
  have hscale : scale m = 0 := by
    by_cases hs : scale m = 0
    · exact hs
    · have hle := le_significand hs
      unfold leadingBit at hle
      omega
  have hm := scale_significand m
  rw [hscale, hsig, Nat.zero_mul] at hm
  exact hm.symm

/-- Equality of numbers: no number is what is not a number, and the two zeros are one. -/
def same (x y : Binary64) : Bool :=
  !x.isNaN && !y.isNaN && (x == y || (x.magnitude == 0 && y.magnitude == 0))

theorem same_self {x : Binary64} (h : x.isNaN = false) : x.same x = true := by
  simp [same, h]

theorem magnitude_ofMagnitude (negative : Bool) {m : Nat} (h : m < signBit) :
    (ofMagnitude negative m).magnitude = m := by
  unfold signBit at h
  cases negative <;> simp [ofMagnitude, magnitude, signBit, UInt64.toNat_ofNat'] <;> omega

theorem isNegative_ofMagnitude (negative : Bool) {m : Nat} (h : m < signBit) :
    (ofMagnitude negative m).isNegative = negative := by
  unfold signBit at h
  cases negative <;> simp [ofMagnitude, isNegative, signBit, UInt64.toNat_ofNat'] <;> omega

end Binary64

end ExprLang
