import ExprLang.Binary64.Literal

/-!
Number texts. A finite number is written by the shortest decimal that is read back as it;
of two such decimals the nearer is taken, and the upper one of two that are equally near.
It is written out in full, without an exponent: zeros fill up to the point, and a point
stands only before further digits.
-/
namespace ExprLang

namespace Binary64

/-- The two neighbours of a finite magnitude among the multiples of a power of ten; the
nearer one comes first. -/
def neighbours (magnitude : Nat) (exponent : Int) : List Decimal :=
  let (one, den) := Decimal.ratio exponent
  let num := units magnitude * den
  let lower : Decimal := ⟨num / one, exponent⟩
  let upper : Decimal := ⟨num / one + 1, exponent⟩
  if 2 * (num % one) < one then [lower, upper] else [upper, lower]

/-- Ten to this power exceeds the finite magnitude. It is found from the number of its
bits, with 30103 / 100000 for the logarithm of two. -/
def topExponent (magnitude : Nat) : Int :=
  ((units magnitude).log2 + 1 - unitPower : Int) * 30103 / 100000 + 1

/-- All digits of a finite magnitude. -/
def allDigits (magnitude : Nat) : Decimal := ⟨units magnitude * Nat.pow 5 unitPower, -unitPower⟩

/-- The candidates from the greatest exponent down. At most 17 digits are needed to tell two
numbers apart, so none further down is wanted. -/
def candidates (magnitude : Nat) : List Decimal :=
  (List.range 20).flatMap fun step => neighbours magnitude (topExponent magnitude - (step : Nat))

/-- The shortest decimal is the one with the greatest exponent. -/
def shortest (magnitude : Nat) : Decimal :=
  ((candidates magnitude).find? fun d => d.magnitude = magnitude).getD (allDigits magnitude)

theorem ratio_neg (k : Nat) : Decimal.ratio (-k) = (1 <<< unitPower, Nat.pow 10 k) := by
  simp [Decimal.ratio]

/-- A power of five has at least twice as many bits as its exponent says. -/
theorem two_mul_le_log2 {m : Nat} (hm : 0 < m) (k : Nat) : 2 * k ≤ (m * Nat.pow 5 k).log2 := by
  rw [Nat.pow_eq]
  have hpos : 0 < m * 5 ^ k := Nat.mul_pos hm (Nat.pow_pos (by decide))
  rw [Nat.le_log2 (Nat.ne_of_gt hpos)]
  calc
    2 ^ (2 * k) = 4 ^ k := Nat.pow_mul 2 2 k
    _ ≤ 5 ^ k := Nat.pow_le_pow_left (by decide) k
    _ ≤ m * 5 ^ k := Nat.le_mul_of_pos_left _ hm

theorem magnitude_allDigits {m : Nat} (h : m < infinity) : (allDigits m).magnitude = m := by
  have hmul : ∀ n : Nat, n * 5 ^ unitPower * 2 ^ unitPower = n * 10 ^ unitPower := fun n => by
    rw [Nat.mul_assoc, ← Nat.mul_pow]
  simp only [Decimal.magnitude, allDigits, ratio_neg, Nat.pow_eq, Nat.one_shiftLeft, hmul]
  split
  · rename_i hzero
    have hunits : units m = 0 :=
      (Nat.mul_eq_zero.mp hzero).resolve_right (Nat.ne_of_gt (Nat.pow_pos (by decide)))
    exact (units_eq_zero hunits).symm
  · rename_i hne
    have hunits : 0 < units m := Nat.pos_of_ne_zero fun hzero => hne (by simp [hzero])
    have hlog := two_mul_le_log2 hunits unitPower
    rw [Nat.pow_eq] at hlog
    rw [if_neg (by omega), if_neg, nearest_units h (Nat.pow_pos (by decide))]
    generalize (units m * 5 ^ unitPower).log2 = bits at hlog ⊢
    omega

/-- The shortest decimal of a finite magnitude is read back as it. -/
theorem magnitude_shortest {m : Nat} (h : m < infinity) : (shortest m).magnitude = m := by
  unfold shortest
  generalize candidates m = decimals
  cases hfind : decimals.find? fun d => d.magnitude = m with
  | none => exact magnitude_allDigits h
  | some d =>
    have hread := List.find?_some hfind
    simp only [decide_eq_true_eq] at hread
    exact hread

end Binary64

namespace Decimal

/-- The decimal written out in full, with a digit before the point in any case. -/
def text (d : Decimal) : String :=
  let places := (-d.exponent).toNat
  let written := Nat.toDigits 10 d.digits
  let digits := List.replicate (places + 1 - written.length) '0' ++ written ++
    List.replicate d.exponent.toNat '0'
  if places = 0 then String.ofList digits
  else
    String.ofList (digits.take (digits.length - places) ++ '.' ::
      digits.drop (digits.length - places))

end Decimal

namespace Binary64

def text (x : Binary64) : String :=
  if x.isNaN then "NaN"
  else
    (if x.isNegative then "-" else "") ++
      if x.magnitude = infinity then "inf"
      else if x.magnitude = 0 then "0"
      else (shortest x.magnitude).text

end Binary64

end ExprLang
