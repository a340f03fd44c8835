import ExprLang.Binary64

/-!
Number literals and the numbers that they are read as. A literal is a sign, if any, and
then a name (of infinity or of what is no number) or a decimal: digits with at most one
point among them and an exponent, if any. A decimal is read as the nearest binary64
number, and of two that are equally near as the one with the even significand. Decimals
beyond the greatest finite number are read as infinity.
-/
namespace ExprLang

/-- The decimal that stands for `digits` times ten to the `exponent`. -/
structure Decimal where
  digits : Nat
  exponent : Int
  deriving DecidableEq, Repr

namespace Binary64

/-- The quotient rounded to the nearest whole number, a half to the even one. -/
def roundQuotient (num den : Nat) : Nat :=
  let floor := num / den
  let twice := 2 * (num % den)
  if twice < den ∨ (twice = den ∧ floor % 2 = 0) then floor else floor + 1

/-- The magnitude nearest to `num / den` units. It keeps 53 bits, fewer only below 2^52
units; a carry out of the top bit moves on to the next scale by itself. -/
def nearest (num den : Nat) : Nat :=
  let shift := (num / den).log2 - 52
  min infinity (shift * leadingBit + roundQuotient num (den <<< shift))

theorem log2_units (m : Nat) : (units m).log2 - 52 = scale m := by
  rw [units, Nat.shiftLeft_eq]
  have hlt : significand m < 2 ^ 53 := significand_lt m
  by_cases hs : scale m = 0
  · by_cases hz : significand m = 0
    · simp [hs, hz]
    · have := (Nat.log2_lt hz).mpr hlt
      simp only [hs, Nat.pow_zero, Nat.mul_one]
      omega
  · have hle : 2 ^ 52 ≤ significand m := le_significand hs
    have hz : significand m * 2 ^ scale m ≠ 0 := by
      have := Nat.two_pow_pos (scale m)
      exact Nat.mul_ne_zero (by omega) (by omega)
    have h1 : 52 + scale m ≤ (significand m * 2 ^ scale m).log2 := by
      rw [Nat.le_log2 hz, Nat.pow_add]
      exact Nat.mul_le_mul_right _ hle
    have h2 : (significand m * 2 ^ scale m).log2 < 53 + scale m := by
      rw [Nat.log2_lt hz, Nat.pow_add]
      exact Nat.mul_lt_mul_of_pos_right hlt (Nat.two_pow_pos _)
    omega

theorem roundQuotient_mul (n : Nat) {den : Nat} (h : 0 < den) :
    roundQuotient (n * den) den = n := by
  simp [roundQuotient, h]

theorem nearest_units {m : Nat} (h : m < infinity) {den : Nat} (hden : 0 < den) :
    nearest (units m * den) den = m := by
  have hround : roundQuotient (units m * den) (den <<< scale m) = significand m := by
    rw [units, Nat.shiftLeft_eq, Nat.shiftLeft_eq, Nat.mul_assoc, Nat.mul_comm (2 ^ scale m),
      roundQuotient_mul _ (Nat.mul_pos hden (Nat.two_pow_pos _))]
  simp only [nearest, Nat.mul_div_cancel _ hden, log2_units, hround, scale_significand]
  omega

end Binary64

namespace Decimal

/-- Ten to the exponent as a quotient of units. -/
def ratio (exponent : Int) : Nat × Nat :=
  (Nat.pow 10 exponent.toNat <<< Binary64.unitPower, Nat.pow 10 (-exponent).toNat)

/-- The magnitude nearest to the decimal. The two bounds come first, so that no power
of ten has to be computed that cannot matter: 10^309 is past all finite numbers, and less
than a quarter of a unit rounds to nothing. -/
def magnitude (d : Decimal) : Nat :=
  if d.digits = 0 then 0
  else if 308 < d.exponent then Binary64.infinity
  else if d.digits.log2 + 3 * d.exponent < -(Binary64.unitPower + 2) then 0
  else Binary64.nearest (d.digits * (ratio d.exponent).1) (ratio d.exponent).2

end Decimal

namespace Literal

/-- The number that a row of decimal digits writes. -/
def value (digits : List Char) : Nat := Nat.ofDigitChars 10 digits 0

/-- The sign, if any, and what follows it. -/
def sign : List Char → Bool × List Char
  | '-' :: rest => (true, rest)
  | '+' :: rest => (false, rest)
  | rest => (false, rest)

def exponent? : List Char → Option Int
  | [] => some 0
  | mark :: rest =>
    let (negative, digits) := sign rest
    if (mark = 'e' ∨ mark = 'E') ∧ digits ≠ [] ∧ digits.all Char.isDigit then
      some (if negative then -value digits else value digits)
    else
      none

/-- The digits after the point, if there is one, and what follows them. -/
def fraction : List Char → List Char × List Char
  | '.' :: rest => rest.span Char.isDigit
  | rest => ([], rest)

def decimal? (text : List Char) : Option Decimal :=
  let (whole, afterWhole) := text.span Char.isDigit
  let (places, afterPlaces) := fraction afterWhole
  if whole = [] ∧ places = [] then none
  else (exponent? afterPlaces).map fun exponent =>
    ⟨value (whole ++ places), exponent - places.length⟩

end Literal

namespace Binary64

/-- The number that the text is a literal of. -/
def read? (text : String) : Option Binary64 :=
  let (negative, rest) := Literal.sign text.toList
  let name := rest.map Char.toLower
  if name = "inf".toList ∨ name = "infinity".toList then some (ofMagnitude negative infinity)
  else if name = "nan".toList then some (nan negative)
  else (Literal.decimal? rest).map fun d => ofMagnitude negative d.magnitude

end Binary64

end ExprLang
