/-
This file bounds how far the text of a computed number is away from the number. On the way to its
text the number is brought to units of the sixth place, rounded to a whole number of them, brought
back, and then either taken for a whole number or written as its shortest decimal. Each step adds at
most half of the distance between two numbers of the format, or half a unit, or the distance up to
which a number passes for a whole one; up to `2 ^ 31` all of them together stay below two units.
Whole numbers come through exactly. Whatever the size, the decimal has no more than six places, does
not end in a zero, and has a sign only if it is not zero.
-/

import AtomicCss.Proofs.WholeNumbers
import Mathlib.Algebra.Order.Field.Basic
import Mathlib.Algebra.Order.Field.Rat
import Mathlib.Tactic.FieldSimp
import Mathlib.Tactic.Linarith

namespace AtomicCss

namespace Magnitude

seal Magnitude.unit

/-! ### The error of one rounding -/

/-- The quotient differs from the magnitude by at most half a quantum and one part in `2 ^ 53` of
the magnitude. -/
structure Near (magnitude : Magnitude) (quanta denominator : Nat) : Prop where
  le : 2 * leadingBit * (magnitude.quanta * denominator) ≤
    2 * leadingBit * quanta + (leadingBit * denominator + magnitude.quanta * denominator)
  ge : 2 * leadingBit * quanta ≤ 2 * leadingBit * (magnitude.quanta * denominator) +
    (leadingBit * denominator + magnitude.quanta * denominator)

theorem Covers.near {magnitude : Magnitude} {quanta denominator : Nat}
    (covers : magnitude.Covers quanta denominator) : magnitude.Near quanta denominator := by
  obtain ⟨above, below⟩ := covers.half_step
  have step : leadingBit * power 2 magnitude.scale ≤ leadingBit + magnitude.quanta := by
    rcases magnitude.normal with least | full
    · rw [least, power_zero, Nat.mul_one]
      exact Nat.le_add_right _ _
    · exact Nat.le_trans (Nat.mul_le_mul_right _ full) (Nat.le_add_left _ _)
  have wide := Nat.mul_le_mul_right denominator step
  rw [Nat.mul_assoc, Nat.mul_comm _ denominator, Nat.add_mul] at wide
  simp only [leadingBit] at wide
  constructor <;>
  · simp only [leadingBit]
    omega

theorem near_of_nearest? {quanta denominator : Nat} (positive : 0 < denominator)
    {magnitude : Magnitude} (found : nearest? quanta denominator = some magnitude) :
    magnitude.Near quanta denominator :=
  (covers_of_nearest? positive found).near

/-- The shortest text of a number that is not whole, and to which a decimal was rounded, is a
decimal of no more places, and the number covers it. -/
theorem exists_shortestText_eq_pointed {magnitude : Magnitude} {count places : Nat}
    (found : nearest? (count * unit) (power 10 places) = some magnitude)
    (fine : places < finestPlaces) (fractional : ¬ magnitude.IsWhole) :
    ∃ places' count', 0 < places' ∧ places' ≤ places ∧ count' % 10 ≠ 0 ∧
      magnitude.shortestText = Decimal.pointed places' count' ∧
      magnitude.Covers (count' * unit) (power 10 places') := by
  have nonzero : magnitude.mantissa ≠ 0 := fun zero =>
    fractional ⟨0, by rw [quanta, zero, Nat.zero_mul, Nat.mul_zero]⟩
  have reads := readsFrom_iff.mpr (covers_decimal found fine)
  obtain ⟨count', grid, first, ⟨finer, text_eq⟩ | ⟨coarse, _⟩⟩ := exists_shortestText nonzero
  · have last := first.le_grid nonzero reads (le_coarsestGrid nonzero reads)
    have covers := readsFrom_iff.mp (readsFrom_of_onGrid? first.hit)
    refine ⟨finestPlaces - grid, count', by omega, by omega, first.mod_ten_ne_zero nonzero, text_eq,
      covers.of_mul_eq (power_pos _ (by decide)) (power_pos _ (by decide)) ?_⟩
    rw [unit_eq, Nat.mul_assoc, ← power_add, Nat.add_sub_cancel' (Nat.le_of_lt finer), Nat.mul_assoc,
      power_mul_power]
  · exact absurd (first.isWhole coarse) fractional

end Magnitude

namespace Binary64

open Magnitude

seal Magnitude.unit

/-! ### Rounding to a whole number -/

/-- A finite number is rounded to a finite whole number of its sign. -/
theorem exists_round_eq (negative : Bool) (magnitude : Magnitude) :
    ∃ whole : Magnitude, round (finite negative magnitude) = finite negative whole ∧
      whole.quanta = magnitude.roundHalfUp * unit := by
  by_cases coarse : finestPlaces ≤ magnitude.scale
  · have whole := isWhole_of_le_scale coarse
    exact ⟨magnitude, round_of_isWhole negative whole, by
      rw [whole.roundHalfUp_eq, whole.wholePart_mul]⟩
  · have positive := unit_pos
    have room : 2 * power 2 magnitude.scale ≤ unit := by
      rw [unit_eq, Nat.mul_comm, ← power_succ]
      exact power_le_power (by decide) (by omega)
    have below : magnitude.quanta < 2 * leadingBit * power 2 magnitude.scale :=
      Nat.mul_lt_mul_of_pos_right magnitude.mantissa_lt (power_pos _ (by decide))
    have fits : magnitude.roundHalfUp < 2 * leadingBit := by
      refine Nat.div_lt_of_lt_mul ?_
      simp only [leadingBit] at below ⊢
      omega
    obtain ⟨whole, found, quanta_eq⟩ :=
      @exists_nearest?_eq magnitude.roundHalfUp finestPlaces 1 (by decide) fits (by decide)
    rw [← unit_eq] at found quanta_eq
    rw [Nat.mul_one] at found
    exact ⟨whole, nearest_eq found, quanta_eq⟩

/-! ### Units of the sixth place -/

/-- The number in units of the sixth place, and what it is as rounded and brought back. -/
structure Rescaled (magnitude product back : Magnitude) : Prop where
  multiplied : nearest? (magnitude.quanta * 1000000) 1 = some product
  divided : nearest? (product.roundHalfUp * unit) 1000000 = some back

theorem Rescaled.toSixPlaces_eq {magnitude product back : Magnitude}
    (rescaled : Rescaled magnitude product back) (negative : Bool) :
    toSixPlaces (finite negative magnitude) = finite negative back := by
  obtain ⟨whole, rounded, quanta_eq⟩ := exists_round_eq negative product
  rw [toSixPlaces, mul_million, nearest_eq rescaled.multiplied, rounded, div_million, quanta_eq,
    nearest_eq rescaled.divided]

/-- A number rounded to a whole one is at most a half away from it. -/
theorem roundHalfUp_bounds (magnitude : Magnitude) :
    2 * (magnitude.roundHalfUp * unit) ≤ 2 * magnitude.quanta + unit ∧
      2 * magnitude.quanta < 2 * (magnitude.roundHalfUp * unit) + unit :=
  roundHalfUp_eq_iff.mp rfl

theorem exists_rescaled {magnitude : Magnitude} (below : magnitude.quanta < wordLimit * unit) :
    ∃ product back, Rescaled magnitude product back := by
  have positive := unit_pos
  rw [wordLimit] at below
  obtain ⟨product, multiplied⟩ := @exists_nearest?_of_lt (magnitude.quanta * 1000000) 1 (by omega)
  have near := (near_of_nearest? (by decide) multiplied).le
  obtain ⟨units_le, _⟩ := roundHalfUp_bounds product
  obtain ⟨back, divided⟩ := @exists_nearest?_of_lt (product.roundHalfUp * unit) 1000000 (by
    simp only [leadingBit] at near
    omega)
  exact ⟨product, back, multiplied, divided⟩

section Errors

variable {magnitude product back : Magnitude} (rescaled : Rescaled magnitude product back)
  (small : magnitude.quanta ≤ 2147483648 * unit)

include rescaled small in
/-- Up to `2 ^ 31` rounding to six places moves a number by less than a unit of the sixth place. -/
theorem Rescaled.bounds :
    1000 * (back.quanta * 1000000) ≤ 1000 * (magnitude.quanta * 1000000) + 977 * unit ∧
      1000 * (magnitude.quanta * 1000000) ≤ 1000 * (back.quanta * 1000000) + 977 * unit := by
  have large := large_unit
  obtain ⟨productLe, productGe⟩ := near_of_nearest? (by decide) rescaled.multiplied
  obtain ⟨roundedLe, roundedGe⟩ := roundHalfUp_bounds product
  obtain ⟨backLe, backGe⟩ := near_of_nearest? (by decide) rescaled.divided
  simp only [leadingBit, Nat.mul_one] at large productLe productGe backLe backGe
  generalize product.roundHalfUp * unit = units at *
  generalize unit = one at *
  omega

end Errors

/-- What passes for a whole number is hardly more than a unit of the sixth place away from it. -/
theorem bounds_of_passesFor {negative : Bool} {number whole : Magnitude}
    (passes : passesFor (finite negative number) (finite negative whole) = true)
    (close : ((number.quanta : Int) - whole.quanta).natAbs ≤ unit) :
    1000000 * (((number.quanta : Int) - whole.quanta).natAbs * 1000000) ≤ 1000003 * unit := by
  have positive := unit_pos
  have large := large_unit
  simp only [leadingBit] at large
  obtain ⟨many, many_eq, many_quanta⟩ := @exists_ofNat 1000000 (by decide)
  obtain ⟨bound, bound_eq, bound_le⟩ := exists_snapDistance
  generalize distance_eq : ((number.quanta : Int) - whole.quanta).natAbs = distance at close ⊢
  obtain ⟨difference, subtracted⟩ := @exists_nearest?_of_lt distance 1 (by omega)
  obtain ⟨differenceLe, differenceGe⟩ := near_of_nearest? (by decide) subtracted
  simp only [leadingBit, Nat.mul_one] at differenceLe differenceGe
  have scaled : difference.quanta * many.quanta = difference.quanta * 1000000 * unit := by
    rw [many_quanta, Nat.mul_assoc]
  obtain ⟨product, multiplied⟩ := @exists_nearest?_of_lt (difference.quanta * many.quanta) unit (by
    rw [scaled]
    exact Nat.mul_lt_mul_of_pos_right (by omega) unit_pos)
  have measured := (passesFor_iff many_eq bound_eq (by rwa [distance_eq]) multiplied).mp passes
  have cancelled := @nearest?_mul_mul (difference.quanta * 1000000) 1 unit unit_pos
  rw [Nat.one_mul, ← scaled, multiplied] at cancelled
  obtain ⟨_, productGe⟩ := near_of_nearest? (by decide) cancelled.symm
  simp only [leadingBit, Nat.mul_one] at productGe
  omega

/-! ### What is written -/

/-- The text of a decimal of at most six places, counted on the coarsest of them, with a sign if
the number is negative and the decimal is not zero. -/
structure Writes (text : Text) (negative : Bool) (places count : Nat) : Prop where
  text_eq : text = (if negative = true ∧ count ≠ 0 then ['-'] else []) ++ Decimal.pointed places count
  fine : places ≤ 6
  reduced : Decimal.Reduced places count

/-- A whole number is written with the digits of its word. -/
theorem exists_writes_integerText (negative : Bool) (whole : Magnitude) :
    ∃ count, Writes (integerText (toWord (finite negative whole))) negative 0 count ∧
      (whole.wholePart < wordLimit → count = whole.wholePart) := by
  have positive : 0 < wordLimit := by decide
  refine ⟨(toWord (finite negative whole)).natAbs, ⟨?_, by decide, Or.inl rfl⟩, fun fits => ?_⟩
  · have sign : toWord (finite negative whole) < 0 ↔
        negative = true ∧ (toWord (finite negative whole)).natAbs ≠ 0 := by
      cases negative with
      | false =>
        rw [toWord]
        split
        · simp
        · simp
          omega
      | true =>
        rw [toWord]
        split <;> simp <;> omega
    simp only [integerText, sign, Decimal.pointed, if_true]
  · cases negative with
    | false => rw [toWord, if_pos fits, Int.natAbs_natCast]
    | true => rw [toWord, if_pos fits, Int.natAbs_neg, Int.natAbs_natCast]

/-- A number that passes for no whole number is written as a decimal that it is near. -/
theorem exists_writes_shortestText (negative : Bool) {units : Nat} {back : Magnitude}
    (divided : nearest? (units * unit) 1000000 = some back) (fractional : ¬ back.IsWhole) :
    ∃ places count, Writes (finite negative back).shortestText negative places count ∧
      back.Near (count * power 10 (6 - places) * unit) 1000000 := by
  have divided : nearest? (units * unit) (power 10 6) = some back := divided
  obtain ⟨places, count, pointed, fine, canonical, text_eq, covers⟩ :=
    exists_shortestText_eq_pointed divided (by decide) fractional
  have million_eq : 1000000 = power 10 places * power 10 (6 - places) := by
    rw [← power_add, Nat.add_sub_cancel' fine]
    rfl
  have nonzero : count ≠ 0 := by
    rintro rfl
    exact canonical rfl
  refine ⟨places, count, ⟨?_, fine, Or.inr canonical⟩, (covers.of_mul_eq
    (power_pos _ (by decide)) (by decide) ?_).near⟩
  · rw [Binary64.shortestText, text_eq]
    simp only [nonzero, and_true, ne_eq, not_false_eq_true]
  · rw [million_eq]
    ring

/-- Every finite number below `2 ^ 63` is written as a decimal of at most six places, and up to
`2 ^ 31` it is less than two units of the sixth place away from it. -/
theorem exists_writes_roundedText (negative : Bool) {magnitude : Magnitude}
    (below : magnitude.quanta < wordLimit * unit) :
    ∃ places count, Writes (roundedText (finite negative magnitude)) negative places count ∧
      (magnitude.quanta ≤ 2147483648 * unit →
        count * power 10 (6 - places) * unit < magnitude.quanta * 1000000 + 2 * unit ∧
          magnitude.quanta * 1000000 < count * power 10 (6 - places) * unit + 2 * unit) := by
  have large := large_unit
  obtain ⟨product, back, rescaled⟩ := exists_rescaled below
  obtain ⟨whole, whole_eq, whole_quanta⟩ := exists_round_eq negative back
  have written := fun passes => @roundedText_eq _ _ _ passes (rescaled.toSixPlaces_eq negative) whole_eq
  obtain ⟨wholeLe, wholeGe⟩ := roundHalfUp_bounds back
  rw [← whole_quanta] at wholeLe wholeGe
  cases passes : passesFor (finite negative back) (finite negative whole) with
  | true =>
    rw [written true passes, if_pos rfl]
    obtain ⟨count, writes, part⟩ := exists_writes_integerText negative whole
    refine ⟨0, count, writes, fun small => ?_⟩
    have part_eq : whole.wholePart = back.roundHalfUp := by
      rw [wholePart, whole_quanta, Nat.mul_div_cancel _ unit_pos]
    obtain ⟨backLe, backGe⟩ := rescaled.bounds small
    have fits : whole.wholePart < wordLimit := by
      refine Nat.div_lt_of_lt_mul ?_
      simp only [wordLimit]
      omega
    have snapped := bounds_of_passesFor passes (by omega)
    have value_eq : count * power 10 6 * unit = whole.quanta * 1000000 := by
      rw [part fits, part_eq, whole_quanta, Nat.mul_right_comm]
      rfl
    rw [value_eq]
    simp only [leadingBit] at large
    generalize unit = one at *
    omega
  | false =>
    have fractional : ¬ back.IsWhole := by
      intro isWhole
      rw [round_of_isWhole negative isWhole] at whole_eq
      obtain ⟨_, rfl⟩ := finite.inj whole_eq
      rw [passesFor_of_eq negative rfl] at passes
      cases passes
    rw [written false passes, if_neg Bool.false_ne_true]
    obtain ⟨places, count, writes, readLe, readGe⟩ :=
      exists_writes_shortestText negative rescaled.divided fractional
    refine ⟨places, count, writes, fun small => ?_⟩
    obtain ⟨backLe, backGe⟩ := rescaled.bounds small
    simp only [leadingBit] at large readLe readGe
    generalize count * power 10 (6 - places) * unit = value at *
    generalize unit = one at *
    omega

/-- A whole number whose odd part in units of the sixth place has 53 bits is written exactly. -/
theorem writes_roundedText_of_isWhole (negative : Bool) {magnitude : Magnitude}
    (whole : magnitude.IsWhole) (small : magnitude.wholePart * 15625 < 2 * leadingBit) :
    Writes (roundedText (finite negative magnitude)) negative 0 magnitude.wholePart := by
  have rounded_eq := (toSixPlaces_of_isWhole negative whole).trans
    (mul_div_million_of_small whole negative small)
  obtain ⟨count, writes, part⟩ := exists_writes_integerText negative magnitude
  rw [roundedText_eq rounded_eq (round_of_isWhole negative whole) (passesFor_of_eq negative rfl),
    if_pos rfl, ← part]
  · exact writes
  · simp only [leadingBit, wordLimit] at small ⊢
    omega

end Binary64

/-! ### Exact values -/

/-- What the digits of a numeral stand for. -/
def Numeral.exactly (numeral : Numeral) : ℚ :=
  Decimal.value (numeral.whole ++ numeral.places) / 10 ^ numeral.places.length

/-- A numeral behind an optional minus sign. -/
structure SignedNumeral where
  negative : Bool
  numeral : Numeral

namespace SignedNumeral

def text (signed : SignedNumeral) : Text :=
  (if signed.negative then ['-'] else []) ++ signed.numeral.text

def exactly (signed : SignedNumeral) : ℚ :=
  if signed.negative then -signed.numeral.exactly else signed.numeral.exactly

end SignedNumeral

namespace Binary64

open Magnitude

seal Magnitude.unit

/-- The value of a finite number, an integer over a power of two. -/
def exactly? : Binary64 → Option ℚ
  | finite negative magnitude => some (signedQuanta negative magnitude / unit)
  | _ => none

theorem exists_of_exactly? {number : Binary64} {exact : ℚ} (known : number.exactly? = some exact) :
    ∃ negative magnitude, number = finite negative magnitude ∧
      exact = signedQuanta negative magnitude / unit := by
  cases number with
  | nan => cases known
  | infinite negative => cases known
  | finite negative magnitude => exact ⟨negative, magnitude, rfl, (Option.some.inj known).symm⟩

theorem cast_unit_pos : (0 : ℚ) < unit :=
  Nat.cast_pos.mpr unit_pos

theorem signedQuanta_div (negative : Bool) (magnitude : Magnitude) :
    (signedQuanta negative magnitude / unit : ℚ) =
      if negative then -(magnitude.quanta / unit : ℚ) else magnitude.quanta / unit := by
  cases negative with
  | false => simp [signedQuanta]
  | true => simp [signedQuanta, neg_div]

theorem abs_signedQuanta_div (negative : Bool) (magnitude : Magnitude) :
    |(signedQuanta negative magnitude / unit : ℚ)| = magnitude.quanta / unit := by
  have nonnegative : (0 : ℚ) ≤ magnitude.quanta / unit :=
    div_nonneg (Nat.cast_nonneg _) cast_unit_pos.le
  rw [signedQuanta_div]
  cases negative with
  | false => exact abs_of_nonneg nonnegative
  | true => exact (abs_neg _).trans (abs_of_nonneg nonnegative)

/-- A number that is an integer is a whole number of units. -/
theorem isWhole_of_eq_intCast {negative : Bool} {magnitude : Magnitude} {integer : ℤ}
    (same : (signedQuanta negative magnitude / unit : ℚ) = integer) : magnitude.IsWhole := by
  rw [div_eq_iff cast_unit_pos.ne'] at same
  have same : signedQuanta negative magnitude = integer * unit := by exact_mod_cast same
  refine Int.natCast_dvd_natCast.mp ?_
  cases negative with
  | false => exact ⟨integer, by rw [mul_comm]; exact same⟩
  | true =>
    rw [signedQuanta, if_pos rfl] at same
    exact ⟨-integer, by rw [mul_neg, mul_comm, ← same, neg_neg]⟩

/-! ### The written decimal -/

namespace Writes

variable {text : Text} {negative : Bool} {places count : Nat}
  (writes : Writes text negative places count)

/-- The decimal as a numeral with its sign. -/
def signed (negative : Bool) (places count : Nat) : SignedNumeral :=
  ⟨decide (negative = true ∧ count ≠ 0), Numeral.ofPlaces places count⟩

include writes in
theorem text_signed : text = (signed negative places count).text := by
  rw [writes.text_eq, SignedNumeral.text, signed, Numeral.text_ofPlaces]
  simp only [decide_eq_true_eq]

theorem exactly_signed (negative : Bool) (places count : Nat) :
    (signed negative places count).exactly =
      if negative then -(count / 10 ^ places : ℚ) else count / 10 ^ places := by
  obtain ⟨length_eq, value_eq⟩ := Numeral.digits_ofPlaces places count
  have numeral_eq : (Numeral.ofPlaces places count).exactly = count / 10 ^ places := by
    rw [Numeral.exactly, length_eq, value_eq]
  rw [SignedNumeral.exactly, signed, numeral_eq]
  rcases Nat.eq_zero_or_pos count with rfl | positive
  · simp
  · simp [Nat.ne_of_gt positive]

include writes in
/-- Zero is written without a sign. -/
theorem ne_minus_zero : text ≠ "-0".toList := by
  rw [writes.text_eq]
  split
  · next negated =>
    intro same
    have zero : Decimal.pointed places count = ['0'] := (List.cons.inj same).2
    by_cases noPlaces : places = 0
    · rw [Decimal.pointed, if_pos noPlaces] at zero
      have value_eq := congrArg Decimal.value zero
      rw [Decimal.value_digits] at value_eq
      exact negated.2 value_eq
    · have point : '.' ∈ Decimal.pointed places count := by
        rw [Decimal.pointed, if_neg noPlaces]
        simp
      rw [zero] at point
      exact absurd point (by decide)
  · intro same
    have minus : '-' ∈ Decimal.pointed places count := by
      rw [← List.nil_append (Decimal.pointed places count), same]
      decide
    exact (Decimal.isNumberText_pointed places count).not_mem (by decide) minus

end Writes

/-- Decimals and numbers that are close in units of the sixth place are close. -/
theorem abs_div_sub_div_lt {places count quanta : Nat} (fine : places ≤ 6)
    (above : count * power 10 (6 - places) * unit < quanta * 1000000 + 2 * unit)
    (below : quanta * 1000000 < count * power 10 (6 - places) * unit + 2 * unit) :
    |(count / 10 ^ places - quanta / unit : ℚ)| < 2 / 1000000 := by
  have unitPositive := cast_unit_pos
  have million_eq : (1000000 : ℚ) = 10 ^ places * 10 ^ (6 - places) := by
    rw [← pow_add, Nat.add_sub_cancel' fine]
    norm_num
  have above : (count * 10 ^ (6 - places) * unit : ℚ) < quanta * 1000000 + 2 * unit := by
    exact_mod_cast above
  have below : (quanta * 1000000 : ℚ) < count * 10 ^ (6 - places) * unit + 2 * unit := by
    exact_mod_cast below
  have common : (count / 10 ^ places - quanta / unit : ℚ) =
      (count * 10 ^ (6 - places) * unit - quanta * 1000000) / (1000000 * unit) := by
    rw [million_eq]
    field_simp
  rw [common, abs_div, abs_of_pos (by positivity : (0 : ℚ) < 1000000 * unit),
    div_lt_div_iff₀ (by positivity) (by positivity)]
  have apart : |(count * 10 ^ (6 - places) * unit - quanta * 1000000 : ℚ)| < 2 * unit :=
    abs_lt.mpr ⟨by linarith, by linarith⟩
  linarith

/-- A computed number is written as a canonical decimal of at most six places, never as minus zero,
and up to `2 ^ 31` the decimal is less than two units of the sixth place away from the number, and
is the number itself if that is an integer. -/
theorem roundedText_canonical {number : Binary64} {exact : ℚ}
    (known : number.exactly? = some exact) (fits : |exact| < 2 ^ 63) :
    ∃ written : SignedNumeral, number.roundedText = written.text ∧ written.numeral.Canonical ∧
      written.numeral.places.length ≤ 6 ∧ number.roundedText ≠ "-0".toList ∧
      (|exact| ≤ 2 ^ 31 → |written.exactly - exact| < 2 / 1000000 ∧
        ∀ integer : ℤ, exact = integer → written.exactly = exact) := by
  obtain ⟨negative, magnitude, rfl, rfl⟩ := exists_of_exactly? known
  have assemble {places count : Nat}
      (writes : Writes (roundedText (finite negative magnitude)) negative places count) :
      roundedText (finite negative magnitude) = (Writes.signed negative places count).text ∧
        (Writes.signed negative places count).numeral.Canonical ∧
        (Writes.signed negative places count).numeral.places.length ≤ 6 ∧
        roundedText (finite negative magnitude) ≠ "-0".toList :=
    ⟨writes.text_signed, Numeral.canonical_ofPlaces writes.reduced,
      (Numeral.digits_ofPlaces places count).1.trans_le writes.fine, writes.ne_minus_zero⟩
  rw [abs_signedQuanta_div, div_lt_iff₀ cast_unit_pos] at fits
  rw [abs_signedQuanta_div, div_le_iff₀ cast_unit_pos]
  have below : magnitude.quanta < wordLimit * unit := by exact_mod_cast fits
  by_cases whole : magnitude.IsWhole ∧ magnitude.quanta ≤ 2147483648 * unit
  · obtain ⟨isWhole, small⟩ := whole
    have part_le : magnitude.wholePart ≤ 2147483648 := Nat.div_le_of_le_mul (by
      rwa [Nat.mul_comm])
    have writes := writes_roundedText_of_isWhole negative isWhole (by
      simp only [leadingBit]
      omega)
    have value_eq : (Writes.signed negative 0 magnitude.wholePart).exactly =
        signedQuanta negative magnitude / unit := by
      have part_eq : (magnitude.quanta / unit : ℚ) = magnitude.wholePart := by
        rw [← isWhole.wholePart_mul, Nat.cast_mul, mul_div_cancel_right₀ _ cast_unit_pos.ne']
      rw [Writes.exactly_signed, signedQuanta_div, part_eq, pow_zero, div_one]
    obtain ⟨text_eq, canonical, fine, notZero⟩ := assemble writes
    refine ⟨_, text_eq, canonical, fine, notZero, fun _ => ⟨?_, fun _ _ => value_eq⟩⟩
    rw [value_eq, sub_self, abs_zero]
    norm_num
  · obtain ⟨places, count, writes, close⟩ := exists_writes_roundedText negative below
    obtain ⟨text_eq, canonical, fine, notZero⟩ := assemble writes
    refine ⟨_, text_eq, canonical, fine, notZero, fun small => ?_⟩
    have small : magnitude.quanta ≤ 2147483648 * unit := by exact_mod_cast small
    obtain ⟨above, below⟩ := close small
    have apart := abs_div_sub_div_lt writes.fine above below
    refine ⟨?_, fun integer same => absurd ⟨isWhole_of_eq_intCast same, small⟩ whole⟩
    rw [Writes.exactly_signed, signedQuanta_div]
    cases negative with
    | false => exact apart
    | true =>
      rw [if_pos rfl, if_pos rfl, neg_sub_neg, abs_sub_comm]
      exact apart

theorem leadingBit_lt : leadingBit < 2 * leadingBit := by
  decide

/-- The magnitude `2 ^ (-22)`. -/
def tiny : Magnitude where
  mantissa := leadingBit
  scale := 1000
  mantissa_lt := leadingBit_lt
  scale_le := by decide
  normal := Or.inr (Nat.le_refl _)

/-- A negative number of less than half a unit of the sixth place. -/
def tinyNegative : Binary64 :=
  finite true tiny

theorem exactly?_tinyNegative : tinyNegative.exactly? = some (-(1 / 4194304)) := by
  refine congrArg some ((div_eq_iff cast_unit_pos.ne').mpr ?_)
  have scaled : signedQuanta true tiny * 4194304 = -(unit : Int) := by decide +kernel
  have cast : (signedQuanta true tiny * 4194304 : ℚ) = -(unit : ℚ) := by exact_mod_cast scaled
  linarith

/-- It is written without its sign. -/
theorem roundedText_canonical_tinyNegative :
    tinyNegative.exactly? = some (-(1 / 4194304)) ∧ |(-(1 / 4194304) : ℚ)| < 2 ^ 63 ∧
      tinyNegative.roundedText = "0".toList ∧ tinyNegative.roundedText ≠ "-0".toList ∧
      ∃ written : SignedNumeral, tinyNegative.roundedText = written.text ∧
        written.numeral.Canonical ∧ |written.exactly - -(1 / 4194304)| < 2 / 1000000 := by
  have fits : |(-(1 / 4194304) : ℚ)| < 2 ^ 63 := by norm_num [abs_neg, abs_of_pos]
  obtain ⟨written, text_eq, canonical, _, notZero, close⟩ :=
    roundedText_canonical exactly?_tinyNegative fits
  exact ⟨exactly?_tinyNegative, fits, by decide +kernel, notZero, written, text_eq, canonical,
    (close (by norm_num [abs_neg, abs_of_pos])).1⟩

end Binary64

end AtomicCss
