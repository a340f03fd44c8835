import ExprLang.Binary64.Shortest
import ExprLang.Proofs.Spelling
import Mathlib.Data.List.TakeDrop

/-!
Numerals are the literals that can stand in a program: digits, or digits on both sides of a
point. Each is read as a number that is not negative. A finite number that is not negative is
written as a numeral, and that one is read as the number again.
-/
namespace ExprLang

open Text

namespace Literal

variable {whole places rest : List Char}

theorem span_isDigit (hwhole : IsDigits whole) (hrest : ∀ c ∈ rest.head?, c.isDigit = false) :
    (whole ++ rest).span Char.isDigit = (whole, rest) := by
  rw [List.span_eq_takeWhile_dropWhile, Lexeme.takeWhile_of_apart hwhole.2 hrest,
    Lexeme.dropWhile_of_apart hwhole.2 hrest]

theorem decimal?_of_isDigits (hwhole : IsDigits whole) :
    decimal? whole = some ⟨value whole, 0⟩ := by
  have hspan : whole.span Char.isDigit = (whole, []) := by
    simpa using span_isDigit hwhole (by simp : ∀ c ∈ ([] : List Char).head?, c.isDigit = false)
  simp only [decimal?, hspan, fraction, exponent?, hwhole.1, false_and, if_false, Option.map_some,
    List.append_nil, List.length_nil]
  rfl

theorem decimal?_of_point (hwhole : IsDigits whole) (hplaces : IsDigits places) :
    decimal? (whole ++ '.' :: places) = some ⟨value (whole ++ places), -places.length⟩ := by
  have hspan : (whole ++ '.' :: places).span Char.isDigit = (whole, '.' :: places) :=
    span_isDigit hwhole (by simp)
  have hspan' : places.span Char.isDigit = (places, []) := by
    simpa using span_isDigit hplaces (by simp : ∀ c ∈ ([] : List Char).head?, c.isDigit = false)
  simp only [decimal?, hspan, fraction, hspan', exponent?, hwhole.1, false_and, if_false,
    Option.map_some, Int.zero_sub]

end Literal

namespace Decimal

theorem magnitude_le (d : Decimal) : d.magnitude ≤ Binary64.infinity := by
  unfold magnitude Binary64.nearest
  split
  · exact Nat.zero_le _
  · split
    · exact Nat.le_refl _
    · split
      · exact Nat.zero_le _
      · exact Nat.min_le_left _ _

/-- Whole numbers that are not too large to be looked at are a quotient by one. -/
theorem magnitude_of_le {digits exponent : Nat} (hdigits : digits ≠ 0) (hle : exponent ≤ 308) :
    magnitude ⟨digits, exponent⟩ =
      Binary64.nearest (digits * Nat.pow 10 exponent <<< Binary64.unitPower) 1 := by
  have hlarge : ¬ (308 : Int) < exponent := by omega
  have hsmall : ¬ (digits.log2 : Int) + 3 * exponent < -(Binary64.unitPower + 2) := by omega
  have hratio : ratio exponent = (Nat.pow 10 exponent <<< Binary64.unitPower, 1) := by
    simp [ratio]
  simp only [magnitude, hdigits, hlarge, hsmall, hratio, if_false]

/-- Zeros behind the digits can be left to the exponent, as long as the number is finite. -/
theorem magnitude_scaled {digits exponent : Nat}
    (h : magnitude ⟨digits, exponent⟩ < Binary64.infinity) :
    magnitude ⟨digits * Nat.pow 10 exponent, 0⟩ = magnitude ⟨digits, exponent⟩ := by
  by_cases hdigits : digits = 0
  · simp [magnitude, hdigits]
  · have hproduct : digits * Nat.pow 10 exponent ≠ 0 :=
      Nat.mul_ne_zero hdigits (Nat.ne_of_gt (Nat.pow_pos (by omega)))
    have hle : exponent ≤ 308 := by
      by_contra hlarge
      have hinfinite : magnitude ⟨digits, exponent⟩ = Binary64.infinity := by
        rw [magnitude, if_neg hdigits, if_pos]
        show (308 : Int) < exponent
        omega
      omega
    have hzero : magnitude ⟨digits * Nat.pow 10 exponent, (0 : Nat)⟩ = _ :=
      magnitude_of_le hproduct (by omega)
    have hunits (count : Nat) : digits * Nat.pow 10 exponent * Nat.pow 10 0 <<< count =
        digits * Nat.pow 10 exponent <<< count := by
      simp [Nat.shiftLeft_eq, Nat.mul_assoc]
    rw [hunits] at hzero
    rw [magnitude_of_le hdigits hle]
    exact hzero

/-- The digits of a decimal, with zeros behind them for a positive exponent, and before them so
that one stands before the point. -/
def written (d : Decimal) : List Char :=
  List.replicate ((-d.exponent).toNat + 1 - (Nat.toDigits 10 d.digits).length) '0' ++
    Nat.toDigits 10 d.digits ++ List.replicate d.exponent.toNat '0'

theorem isDigit_of_mem_written {d : Decimal} : ∀ c ∈ d.written, c.isDigit = true := by
  intro c hc
  simp only [written, List.mem_append, List.mem_replicate] at hc
  rcases hc with (⟨-, hc⟩ | hc) | ⟨-, hc⟩
  · subst hc
    rfl
  · exact Nat.isDigit_of_mem_toDigits (by omega) (by omega) hc
  · subst hc
    rfl

theorem value_written (d : Decimal) :
    Literal.value d.written = d.digits * Nat.pow 10 d.exponent.toNat := by
  simp [Literal.value, written, Nat.ofDigitChars_append, Nat.mul_comm]

theorem lt_length_written (d : Decimal) : (-d.exponent).toNat < d.written.length := by
  simp only [written, List.length_append, List.length_replicate]
  omega

/-- What the text of a decimal looks like: its digits, and as many of them behind a point as the
exponent asks for. -/
theorem text_eq (d : Decimal) :
    (∃ whole, d.text = String.ofList whole ∧ IsDigits whole ∧ 0 ≤ d.exponent ∧
      Literal.value whole = d.digits * Nat.pow 10 d.exponent.toNat) ∨
    ∃ whole places, d.text = String.ofList (whole ++ '.' :: places) ∧ IsDigits whole ∧
      IsDigits places ∧ d.exponent = -places.length ∧
        Literal.value (whole ++ places) = d.digits := by
  have hlength := d.lt_length_written
  have hvalue := d.value_written
  have hdigits : ∀ c ∈ d.written, c.isDigit = true := isDigit_of_mem_written
  by_cases hplaces : (-d.exponent).toNat = 0
  · refine .inl ⟨d.written, if_pos hplaces, ⟨?_, hdigits⟩, by omega, hvalue⟩
    intro hnil
    simp [hnil] at hlength
  · let split := d.written.length - (-d.exponent).toNat
    have hjoin := List.take_append_drop split d.written
    refine .inr ⟨d.written.take split, d.written.drop split, if_neg hplaces, ⟨?_, ?_⟩, ⟨?_, ?_⟩,
      ?_, ?_⟩
    · intro hnil
      have := congrArg List.length hnil
      simp only [List.length_take, List.length_nil, split] at this
      omega
    · intro c hc
      exact hdigits c (List.mem_of_mem_take hc)
    · intro hnil
      have := congrArg List.length hnil
      simp only [List.length_drop, List.length_nil, split] at this
      omega
    · intro c hc
      exact hdigits c (List.mem_of_mem_drop hc)
    · simp only [List.length_drop, split]
      omega
    · have hzero : d.exponent.toNat = 0 := by omega
      rw [hjoin, hvalue, hzero]
      exact Nat.mul_one _

end Decimal

theorem toLower_of_isDigit {c : Char} (h : c.isDigit = true) : c.toLower = c := by
  have hrange := Lexeme.toNat_of_isDigit h
  unfold Char.toLower
  split
  · rename_i hupper
    have hle : 65 ≤ c.toNat := UInt32.le_iff_toNat_le.mp hupper.1
    omega
  · rfl

namespace Binary64

/-- A text that starts with a digit is read as a decimal without a sign. -/
theorem read?_of_digit {c : Char} {cs : List Char} (hc : c.isDigit = true) :
    read? (String.ofList (c :: cs)) =
      (Literal.decimal? (c :: cs)).map fun d => ofMagnitude false d.magnitude := by
  have hrange := Lexeme.toNat_of_isDigit hc
  have hsign : Literal.sign (c :: cs) = (false, c :: cs) := by
    unfold Literal.sign
    split
    · rename_i heq
      obtain ⟨rfl, -⟩ := List.cons.inj heq
      exact absurd hc (by decide)
    · rename_i heq
      obtain ⟨rfl, -⟩ := List.cons.inj heq
      exact absurd hc (by decide)
    · rfl
  have hname (name : List Char) (hhead : ∀ d ∈ name.head?, d.isDigit = false) :
      (c :: cs).map Char.toLower ≠ name := by
    intro heq
    subst heq
    have := hhead c (by simp [toLower_of_isDigit hc])
    simp [hc] at this
  have hinf := hname "inf".toList (by simp)
  have hinfinity := hname "infinity".toList (by simp)
  have hnan := hname "nan".toList (by simp)
  simp only [read?, String.toList_ofList, hsign, hinf, hinfinity, hnan, or_self, if_false]

theorem read?_of_isDigits {whole : List Char} (hwhole : IsDigits whole) :
    read? (String.ofList whole) =
      some (ofMagnitude false (Decimal.magnitude ⟨Literal.value whole, 0⟩)) := by
  have hdecimal := Literal.decimal?_of_isDigits hwhole
  obtain ⟨c, cs, hcons⟩ := List.exists_cons_of_ne_nil hwhole.1
  subst hcons
  rw [read?_of_digit (hwhole.2 c (by simp)), hdecimal]
  rfl

theorem read?_of_point {whole places : List Char} (hwhole : IsDigits whole)
    (hplaces : IsDigits places) : read? (String.ofList (whole ++ '.' :: places)) =
      some (ofMagnitude false
        (Decimal.magnitude ⟨Literal.value (whole ++ places), -places.length⟩)) := by
  have hdecimal := Literal.decimal?_of_point hwhole hplaces
  obtain ⟨c, cs, hcons⟩ := List.exists_cons_of_ne_nil hwhole.1
  subst hcons
  rw [List.cons_append] at hdecimal ⊢
  rw [read?_of_digit (hwhole.2 c (by simp)), hdecimal]
  rfl

/-- A numeral is read as a number, which is not negative. -/
theorem exists_read?_of_fits {value : String}
    (h : Token.Fits .integer value ∨ Token.Fits .float value) :
    ∃ x, read? value = some x ∧ x.isNegative = false ∧ x.isNaN = false := by
  have hread (d : Decimal) : (ofMagnitude false d.magnitude).isNegative = false ∧
      (ofMagnitude false d.magnitude).isNaN = false := by
    have hle := d.magnitude_le
    have hlt : d.magnitude < signBit := Nat.lt_of_le_of_lt hle (by decide)
    refine ⟨isNegative_ofMagnitude false hlt, ?_⟩
    rw [isNaN, magnitude_ofMagnitude false hlt]
    simpa using hle
  rw [← String.ofList_toList (s := value)]
  rcases h with hdigits | ⟨whole, places, hvalue, hwhole, hplaces⟩
  · exact ⟨_, read?_of_isDigits hdigits, hread _⟩
  · rw [hvalue]
    exact ⟨_, read?_of_point hwhole hplaces, hread _⟩

end Binary64

namespace Decimal

/-- A decimal is written as a numeral. -/
theorem fits_text (d : Decimal) : Token.Fits .integer d.text ∨ Token.Fits .float d.text := by
  rcases d.text_eq with ⟨whole, htext, hwhole, -⟩ | ⟨whole, places, htext, hwhole, hplaces, -⟩
  · rw [htext]
    left
    simpa [Token.Fits] using hwhole
  · rw [htext]
    right
    exact ⟨whole, places, String.toList_ofList, hwhole, hplaces⟩

theorem read?_text {d : Decimal} (h : d.magnitude < Binary64.infinity) :
    Binary64.read? d.text = some (.ofMagnitude false d.magnitude) := by
  rcases d.text_eq with ⟨whole, htext, hwhole, hexponent, hvalue⟩ |
    ⟨whole, places, htext, hwhole, hplaces, hexponent, hvalue⟩
  · have hd : d = ⟨d.digits, d.exponent.toNat⟩ := by
      rw [Int.toNat_of_nonneg hexponent]
    have hscaled := h
    rw [hd] at hscaled
    rw [htext, Binary64.read?_of_isDigits hwhole, hvalue, magnitude_scaled hscaled, ← hd]
  · rw [htext, Binary64.read?_of_point hwhole hplaces, hvalue, ← hexponent]

end Decimal

namespace Binary64

variable {x y : Binary64}

theorem ofMagnitude_magnitude (h : x.isNegative = false) : ofMagnitude false x.magnitude = x := by
  have hlt : x.bits.toNat < signBit := by simpa [isNegative] using h
  have hbits : x.magnitude = x.bits.toNat := Nat.mod_eq_of_lt hlt
  simp [ofMagnitude, hbits]

/-- A finite number that is not negative is written as a decimal that is read as the number. -/
theorem exists_text_eq (hfinite : x.isFinite = true) (hsign : x.isNegative = false) :
    ∃ d : Decimal, x.text = d.text ∧ d.magnitude = x.magnitude := by
  have hlt : x.magnitude < infinity := by simpa [isFinite] using hfinite
  have hnan : x.isNaN = false := by simpa [isNaN] using Nat.le_of_lt hlt
  have htext : x.text = if x.magnitude = 0 then "0" else (shortest x.magnitude).text := by
    simp [text, hnan, hsign, Nat.ne_of_lt hlt]
  by_cases hzero : x.magnitude = 0
  · refine ⟨⟨0, 0⟩, ?_, by simp [Decimal.magnitude, hzero]⟩
    rw [htext, if_pos hzero]
    rfl
  · refine ⟨shortest x.magnitude, ?_, magnitude_shortest hlt⟩
    rw [htext, if_neg hzero]

/-- The text of a finite number that is not negative is a numeral. -/
theorem fits_text (hfinite : x.isFinite = true) (hsign : x.isNegative = false) :
    Token.Fits .integer x.text ∨ Token.Fits .float x.text := by
  obtain ⟨d, htext, -⟩ := exists_text_eq hfinite hsign
  rw [htext]
  exact d.fits_text

/-- The text of a finite number that is not negative is read as the number. -/
theorem read?_text (hfinite : x.isFinite = true) (hsign : x.isNegative = false) :
    read? x.text = some x := by
  obtain ⟨d, htext, hmagnitude⟩ := exists_text_eq hfinite hsign
  have hlt : d.magnitude < infinity := by simpa [isFinite, hmagnitude] using hfinite
  rw [htext, Decimal.read?_text hlt, hmagnitude, ofMagnitude_magnitude hsign]

theorem eq_of_text_eq (hfinite : x.isFinite = true) (hsign : x.isNegative = false)
    (hfinite' : y.isFinite = true) (hsign' : y.isNegative = false) (h : x.text = y.text) :
    x = y := by
  have hx := read?_text hfinite hsign
  have hy := read?_text hfinite' hsign'
  rw [h, hy] at hx
  exact (Option.some.inj hx).symm

end Binary64

end ExprLang
