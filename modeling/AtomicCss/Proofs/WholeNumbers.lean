/-
This file says which whole numbers are written with their own digits. A number is brought to units
of the sixth place and back before it is written, and a whole number that is a number of the format
need not survive that: above `2 ^ 53` units the product is rounded, and the quotient may miss the
number it started from. Where it does, it is off by so much that it does not pass for the number,
since at this size the numbers of the format lie far apart in units of the sixth place. So a text of
digits is written for a whole number exactly if the number is in the format, fits a signed word, and
comes back from units of the sixth place.
-/

import AtomicCss.Proofs.DecimalText
import AtomicCss.Proofs.SixPlaces

namespace AtomicCss

namespace Magnitude

seal Magnitude.unit

/-! ### Numbers of quanta -/

/-- A number of quanta has one form. -/
theorem eq_of_quanta_eq {first second : Magnitude} (same : first.quanta = second.quanta) :
    first = second := by
  have notLess {first second : Magnitude} (same : first.quanta = second.quanta) :
      ¬ first.scale < second.scale := by
    intro less
    obtain ⟨more, scale_eq⟩ := Nat.exists_eq_add_of_lt less
    have full : leadingBit ≤ second.mantissa := second.normal.resolve_left (by omega)
    have mantissa_eq : first.mantissa = second.mantissa * power 2 (more + 1) := by
      refine Nat.eq_of_mul_eq_mul_right (power_pos first.scale (by decide : 0 < 2)) ?_
      rw [quanta, quanta, scale_eq, Nat.add_assoc, Nat.add_comm, power_add] at same
      rw [same, Nat.mul_assoc]
    have twice := Nat.mul_le_mul full (power_pos more (by decide : 0 < 2))
    have bound := first.mantissa_lt
    rw [power_succ, ← Nat.mul_assoc] at mantissa_eq
    omega
  have scale_eq : first.scale = second.scale :=
    Nat.le_antisymm (Nat.le_of_not_lt (notLess same.symm)) (Nat.le_of_not_lt (notLess same))
  have mantissa_eq : first.mantissa = second.mantissa := by
    rw [quanta, quanta, scale_eq] at same
    exact Nat.eq_of_mul_eq_mul_right (power_pos second.scale (by decide)) same
  cases first
  cases second
  cases scale_eq
  cases mantissa_eq
  rfl

/-- What a magnitude holds is rounded to the magnitude. -/
theorem nearest?_quanta (magnitude : Magnitude) {denominator : Nat} (positive : 0 < denominator) :
    nearest? (magnitude.quanta * denominator) denominator = some magnitude := by
  obtain ⟨other, found, quanta_eq⟩ :=
    exists_nearest?_eq positive magnitude.mantissa_lt magnitude.scale_le
  rw [← eq_of_quanta_eq quanta_eq]
  rw [← quanta_eq] at found
  exact found

theorem power_dvd_quanta {magnitude : Magnitude} {exponent : Nat}
    (coarse : exponent ≤ magnitude.scale) : power 2 exponent ∣ magnitude.quanta := by
  obtain ⟨more, scale_eq⟩ := Nat.exists_eq_add_of_le coarse
  refine ⟨magnitude.mantissa * power 2 more, ?_⟩
  rw [quanta, scale_eq, power_add]
  ring

/-- A large magnitude has a large scale. -/
theorem le_scale_of_le_quanta {magnitude : Magnitude} {exponent : Nat}
    (large : power 2 (53 + exponent) ≤ magnitude.quanta) : exponent ≤ magnitude.scale := by
  by_contra fine
  have bits : power 2 53 = 2 * leadingBit := by decide
  have room : power 2 magnitude.scale ≤ power 2 exponent :=
    power_le_power (by decide) (Nat.le_of_not_le fine)
  have below : magnitude.quanta < 2 * leadingBit * power 2 magnitude.scale :=
    Nat.mul_lt_mul_of_pos_right magnitude.mantissa_lt (power_pos _ (by decide))
  rw [power_add, bits] at large
  exact absurd (Nat.lt_of_lt_of_le below (Nat.mul_le_mul_left _ room)) (Nat.not_lt.mpr large)

/-- A quarter of a large magnitude is a magnitude. -/
theorem exists_quarter {magnitude : Magnitude} {quarter : Nat}
    (quanta_eq : magnitude.quanta = 4 * quarter) (large : leadingBit * 8 ≤ magnitude.quanta) :
    ∃ other : Magnitude, other.quanta = quarter := by
  have bits : power 2 (53 + 2) = leadingBit * 8 := by decide
  rw [← bits] at large
  have scale_eq := Nat.sub_add_cancel (le_scale_of_le_quanta large)
  have bounded := magnitude.scale_le
  obtain ⟨other, _, other_eq⟩ := @exists_nearest?_eq magnitude.mantissa (magnitude.scale - 2) 1
    (by decide) magnitude.mantissa_lt (by omega)
  have split : magnitude.quanta = 4 * other.quanta := by
    rw [other_eq, quanta, ← scale_eq, power_add, Nat.add_sub_cancel, show power 2 2 = 4 from rfl]
    ring
  exact ⟨other, by omega⟩

/-! ### Whole magnitudes -/

/-- The magnitude is a whole number. -/
def IsWhole (magnitude : Magnitude) : Prop :=
  unit ∣ magnitude.quanta

theorem isWhole_of_le_scale {magnitude : Magnitude} (coarse : finestPlaces ≤ magnitude.scale) :
    magnitude.IsWhole := by
  rw [IsWhole, unit_eq]
  exact power_dvd_quanta coarse

/-- A whole number is rounded to a whole number. -/
theorem isWhole_of_nearest? {number : Nat} {magnitude : Magnitude}
    (found : nearest? (number * unit) 1 = some magnitude) : magnitude.IsWhole := by
  by_cases fits : number < 2 * leadingBit
  · obtain ⟨other, found', quanta_eq⟩ := @exists_nearest?_eq number finestPlaces 1 (by decide) fits
      (by decide)
    rw [Nat.mul_one, ← unit_eq] at found'
    obtain rfl := Option.some.inj (found.symm.trans found')
    exact ⟨number, by rw [quanta_eq, ← unit_eq, Nat.mul_comm]⟩
  · have large : power 2 (53 + finestPlaces) ≤ number * unit := by
      rw [power_add, ← unit_eq]
      exact Nat.mul_le_mul_right unit (Nat.le_of_not_lt fits)
    have bits : 53 + finestPlaces ≤ (number * unit / 1).log2 :=
      le_log2_of_power_le (by rwa [Nat.div_one])
    have scale_eq : scaleOf (number * unit) 1 = (number * unit / 1).log2 - 52 := rfl
    refine isWhole_of_le_scale ?_
    rcases scale_and_mantissa_of_nearest? found with ⟨same, _⟩ | ⟨next, _⟩
    · omega
    · omega

theorem IsWhole.wholePart_mul {magnitude : Magnitude} (whole : magnitude.IsWhole) :
    magnitude.wholePart * unit = magnitude.quanta :=
  Nat.div_mul_cancel whole

theorem IsWhole.roundHalfUp_eq {magnitude : Magnitude} (whole : magnitude.IsWhole) :
    magnitude.roundHalfUp = magnitude.wholePart := by
  have positive := unit_pos
  have exact_eq := whole.wholePart_mul
  exact roundHalfUp_eq_iff.mpr ⟨by omega, by omega⟩

/-! ### Digits as the shortest text -/

/-- The unit in steps of a magnitude that reaches below it. -/
theorem power_ten_eq_step {magnitude : Magnitude} {more : Nat}
    (places_eq : finestPlaces = magnitude.scale + more) :
    power 10 finestPlaces = power 2 more * magnitude.step := by
  have ten : power 10 finestPlaces = power 2 finestPlaces * power 5 finestPlaces :=
    (power_mul_power 2 5 finestPlaces).symm
  have two : power 2 finestPlaces = power 2 magnitude.scale * power 2 more := by
    rw [← power_add, ← places_eq]
  rw [ten, two, step]
  ring

/-- A whole number that reads back as a magnitude is the magnitude, if the magnitudes around are
close enough to keep whole numbers apart. -/
theorem isWhole_of_covers {magnitude : Magnitude} {number : Nat}
    (covers : magnitude.Covers (number * power 10 finestPlaces) (power 5 finestPlaces)) :
    magnitude.IsWhole := by
  rcases Nat.le_total finestPlaces magnitude.scale with coarse | fine
  · exact isWhole_of_le_scale coarse
  · obtain ⟨above, below⟩ := covers.near_decimalUnits
    obtain ⟨more, places_eq⟩ := Nat.exists_eq_add_of_le fine
    have positive := @step_pos magnitude
    have units_eq : number * power 10 finestPlaces = number * power 2 more * magnitude.step := by
      rw [power_ten_eq_step places_eq, Nat.mul_assoc]
    rw [units_eq, decimalUnits_eq] at above below
    have mantissa_eq : magnitude.mantissa = number * power 2 more :=
      eq_of_mul_near magnitude.step (by omega) (by omega)
    refine ⟨number, ?_⟩
    rw [quanta, mantissa_eq, unit_eq, places_eq, power_add]
    ring

/-- A number that a whole number reads back as is whole. -/
theorem FirstHit.isWhole {magnitude : Magnitude} {start count grid : Nat}
    (first : FirstHit magnitude start count grid) (coarse : finestPlaces ≤ grid) :
    magnitude.IsWhole := by
  have covers := readsFrom_iff.mp (readsFrom_of_onGrid? first.hit)
  rw [← Nat.sub_add_cancel coarse, power_add, ← Nat.mul_assoc] at covers
  exact isWhole_of_covers covers

/-- A magnitude is written in digits alone only if it is a whole number. -/
theorem isWhole_of_shortestText {magnitude : Magnitude} {number : Nat}
    (written : magnitude.shortestText = Decimal.digits number) : magnitude.IsWhole := by
  by_cases nonzero : magnitude.mantissa = 0
  · exact ⟨0, by rw [quanta, nonzero, Nat.zero_mul, Nat.mul_zero]⟩
  · obtain ⟨count, grid, first, ⟨fine, text_eq⟩ | ⟨coarse, text_eq⟩⟩ := exists_shortestText nonzero
    · have point : '.' ∈ Decimal.pointed (finestPlaces - grid) count := by
        rw [Decimal.pointed, if_neg (by omega)]
        simp
      rw [← text_eq, written] at point
      cases Decimal.isDigit_of_mem_digits point
    · exact first.isWhole coarse

end Magnitude

namespace Binary64

open Magnitude

seal Magnitude.unit

/-! ### Whole numbers come through rounding -/

theorem nearest_quanta (negative : Bool) (magnitude : Magnitude) :
    nearest negative magnitude.quanta 1 = finite negative magnitude := by
  have found := nearest?_quanta magnitude (by decide : 0 < 1)
  rw [Nat.mul_one] at found
  exact nearest_eq found

theorem round_of_isWhole (negative : Bool) {magnitude : Magnitude} (whole : magnitude.IsWhole) :
    round (finite negative magnitude) = finite negative magnitude := by
  rw [round, whole.roundHalfUp_eq, whole.wholePart_mul, nearest_quanta]

theorem nearest_eq_infinite {negative : Bool} {quanta denominator : Nat}
    (found : nearest? quanta denominator = none) :
    nearest negative quanta denominator = infinite negative := by
  unfold nearest
  rw [found]

theorem nearest?_of_nearest_eq {negative negative' : Bool} {quanta denominator : Nat}
    {magnitude : Magnitude} (rounded : nearest negative quanta denominator = finite negative' magnitude) :
    nearest? quanta denominator = some magnitude := by
  cases found : nearest? quanta denominator with
  | some other =>
    rw [nearest_eq found] at rounded
    obtain ⟨_, rfl⟩ := finite.inj rounded
    rfl
  | none =>
    rw [nearest_eq_infinite found] at rounded
    cases rounded

/-- Rounding to a whole number gives a whole number. -/
theorem isWhole_of_round_eq {magnitude whole : Magnitude} {negative negative' : Bool}
    (rounded : round (finite negative magnitude) = finite negative' whole) : whole.IsWhole := by
  rw [round] at rounded
  exact isWhole_of_nearest? (nearest?_of_nearest_eq rounded)

/-- A number in units of the sixth place. -/
theorem mul_million (negative : Bool) (magnitude : Magnitude) :
    finite negative magnitude * million = nearest negative (magnitude.quanta * 1000000) 1 := by
  obtain ⟨many, many_eq, many_quanta⟩ := @exists_ofNat 1000000 (by decide)
  have cancelled := nearest_mul_mul negative (magnitude.quanta * 1000000) 1 unit_pos
  rw [Nat.one_mul, Nat.mul_assoc] at cancelled
  rw [million, many_eq, finite_mul, many_quanta, cancelled]

/-- Units of the sixth place as a number. -/
theorem div_million (negative : Bool) (magnitude : Magnitude) :
    finite negative magnitude / million = nearest negative magnitude.quanta 1000000 := by
  obtain ⟨many, many_eq, many_quanta⟩ := @exists_ofNat 1000000 (by decide)
  have nonzero : many.quanta ≠ 0 := by
    have positive := unit_pos
    omega
  rw [million, many_eq, finite_div _ magnitude nonzero, many_quanta,
    nearest_mul_mul _ _ _ unit_pos]

/-- Rounding to six places brings a whole number to units of the sixth place and back. -/
theorem toSixPlaces_of_isWhole (negative : Bool) {magnitude : Magnitude}
    (whole : magnitude.IsWhole) :
    toSixPlaces (finite negative magnitude) = finite negative magnitude * million / million := by
  have rounded (number : Nat) : round (nearest negative (number * unit) 1) =
      nearest negative (number * unit) 1 := by
    cases found : nearest? (number * unit) 1 with
    | some product =>
      rw [nearest_eq found, round_of_isWhole negative (isWhole_of_nearest? found)]
    | none =>
      rw [nearest_eq_infinite found]
      rfl
  rw [toSixPlaces, mul_million, ← whole.wholePart_mul, Nat.mul_right_comm, rounded]

/-! ### To units of the sixth place and back -/

/-- Two multiples of a number are apart by the number, if they are apart. -/
theorem le_natAbs_sub {step first second : Nat} (multiple : step ∣ first)
    (multiple' : step ∣ second) (different : first ≠ second) :
    step ≤ ((first : Int) - second).natAbs := by
  have divides : step ∣ ((first : Int) - second).natAbs :=
    Int.natCast_dvd.mp (Int.dvd_sub (Int.natCast_dvd_natCast.mpr multiple)
      (Int.natCast_dvd_natCast.mpr multiple'))
  exact Nat.le_of_dvd (by omega) divides

theorem natAbs_sub_le_of_within {first second one : Nat} (near : Within 5 first second)
    (below : second ≤ wordLimit * one) :
    ((first : Int) - second).natAbs ≤ 33554432 * one := by
  have le := near.le
  have ge := near.ge
  simp only [leadingBit, wordLimit] at le ge below
  omega

/-- What large numbers of the format are apart at least. -/
def largeStep : Nat :=
  power 2 1059

theorem unit_eq_largeStep : unit = 32768 * largeStep := by
  rw [unit_eq, largeStep, show finestPlaces = 15 + 1059 from rfl, power_add,
    show power 2 15 = 32768 from rfl]

theorem largeStep_dvd_quanta {magnitude : Magnitude}
    (large : 274877906944 * unit ≤ magnitude.quanta) : largeStep ∣ magnitude.quanta := by
  refine power_dvd_quanta (le_scale_of_le_quanta ?_)
  have bits : power 2 (53 + 1059) = 274877906944 * unit := by
    rw [unit_eq, show 53 + 1059 = 38 + finestPlaces from rfl, power_add,
      show power 2 38 = 274877906944 from rfl]
  rw [bits]
  exact large

section SixPlaces

variable {magnitude : Magnitude} (whole : magnitude.IsWhole)

include whole in
/-- The product is exact as long as its odd part has 53 bits. -/
theorem mul_div_million_of_small (negative : Bool)
    (small : magnitude.wholePart * 15625 < 2 * leadingBit) :
    finite negative magnitude * million / million = finite negative magnitude := by
  obtain ⟨product, found, quanta_eq⟩ := @exists_nearest?_eq (magnitude.wholePart * 15625)
    (6 + finestPlaces) 1 (by decide) small (by decide)
  have exact_eq : magnitude.wholePart * 15625 * power 2 (6 + finestPlaces) =
      magnitude.quanta * 1000000 := by
    rw [power_add, ← unit_eq, ← whole.wholePart_mul, show power 2 6 = 64 from rfl]
    ring
  rw [exact_eq] at found quanta_eq
  have back := nearest?_quanta magnitude (by decide : 0 < 1000000)
  have product_eq : finite negative magnitude * million = finite negative product := by
    rw [mul_million]
    rw [Nat.mul_one] at found
    exact nearest_eq found
  rw [product_eq, div_million, quanta_eq, nearest_eq back]

include whole in
/-- What comes back is near the number. -/
theorem exists_mul_div_million (positive : 0 < magnitude.wholePart)
    (fits : magnitude.wholePart < wordLimit) :
    ∃ back, finite false magnitude * million / million = finite false back ∧
      Within 5 back.quanta magnitude.quanta := by
  have atLeast : unit ≤ magnitude.quanta := by
    rw [← whole.wholePart_mul]
    exact Nat.le_mul_of_pos_left unit positive
  have atMost : magnitude.quanta < wordLimit * unit := by
    rw [← whole.wholePart_mul]
    exact Nat.mul_lt_mul_of_pos_right fits unit_pos
  rw [wordLimit] at atMost
  have large {factor : Nat} (small : factor ≤ 1000000000000) :
      leadingBit * factor ≤ magnitude.quanta :=
    Nat.le_trans (Nat.mul_le_mul_left leadingBit small) (Nat.le_trans large_unit atLeast)
  obtain ⟨product, found, within⟩ := @exists_within_of_lt (magnitude.quanta * 1000000) 1
    (by decide) (Nat.le_trans (large (by decide)) (Nat.le_mul_of_pos_right _ (by decide)))
    (by omega)
  rw [Nat.mul_one] at within
  have twice := within.le_two_mul (by decide)
  have half := within.symm.le_two_mul (by decide)
  obtain ⟨back, found', within'⟩ := @exists_within_of_lt product.quanta 1000000
    (by decide) (Nat.le_trans (large (by decide)) (by omega)) (by omega)
  refine ⟨back, ?_, (within'.trans within (by decide)).of_mul_right (by decide)⟩
  rw [mul_million, nearest_eq found, div_million, nearest_eq found']

include whole in
/-- A number that does not come back does not pass for itself. -/
theorem eq_of_passesFor (fits : magnitude.wholePart < wordLimit) {back : Magnitude}
    (back_eq : finite false magnitude * million / million = finite false back)
    (passes : passesFor (finite false back) (finite false magnitude) = true) :
    back = magnitude := by
  by_cases small : magnitude.wholePart * 15625 < 2 * leadingBit
  · rw [mul_div_million_of_small whole false small] at back_eq
    exact (finite.inj back_eq).2.symm
  · have part_lower : 549755813888 < magnitude.wholePart := by
      simp only [leadingBit] at small
      omega
    obtain ⟨other, other_eq, near⟩ := exists_mul_div_million whole (by omega) fits
    obtain rfl : back = other := (finite.inj (back_eq.symm.trans other_eq)).2
    have atMost : magnitude.quanta ≤ wordLimit * unit := by
      rw [← whole.wholePart_mul]
      exact Nat.mul_le_mul_right unit (Nat.le_of_lt fits)
    have atLeast : 549755813888 * unit ≤ magnitude.quanta := by
      rw [← whole.wholePart_mul]
      exact Nat.mul_le_mul_right unit (Nat.le_of_lt part_lower)
    have half := near.symm.le_two_mul (by decide)
    refine eq_of_quanta_eq ?_
    by_contra different
    -- Around numbers of this size, those of the format are at least a 32768th apart.
    have far := le_natAbs_sub (largeStep_dvd_quanta (by omega)) (largeStep_dvd_quanta (by omega))
      different
    have one_eq := unit_eq_largeStep
    have fails := not_passesFor (by omega) (natAbs_sub_le_of_within near atMost)
    rw [passes] at fails
    cases fails

end SixPlaces

/-! ### Texts of digits alone -/

/-- No finite number passes for what is no finite number. -/
theorem exists_of_passesFor {number whole : Binary64} (unsigned : whole.Unsigned)
    {magnitude : Magnitude} (number_eq : number = finite false magnitude)
    (passes : passesFor number whole = true) : ∃ other, whole = finite false other := by
  cases unsigned with
  | nan =>
    subst number_eq
    cases passes
  | infinite =>
    obtain ⟨many, many_eq, many_quanta⟩ := @exists_ofNat 1000000 (by decide)
    obtain ⟨bound, bound_eq, _⟩ := exists_snapDistance
    have nonzero : many.quanta ≠ 0 := by
      have positive := unit_pos
      omega
    have difference : finite false magnitude - infinite false = infinite true := rfl
    have product : infinite true * finite false many = infinite true := by
      show mul (infinite true) (finite false many) = _
      rw [mul, if_neg nonzero]
      rfl
    rw [passesFor, number_eq, difference, million, many_eq, product, bound_eq] at passes
    cases passes
  | finite other => exact ⟨other, rfl⟩

/-- A number is written in digits alone only if it passes for a whole number, and then the digits
are those of this number as a word. -/
theorem exists_of_roundedText {number : Binary64} (unsigned : number.Unsigned) {count : Nat}
    (written : roundedText number = Decimal.digits count) :
    ∃ rounded whole : Magnitude, toSixPlaces number = finite false rounded ∧
      round (finite false rounded) = finite false whole ∧
      passesFor (finite false rounded) (finite false whole) = true ∧
      toWord (finite false whole) = count := by
  have notDigits (char : Char) {text : Text} (member : char ∈ text) (other : char.isDigit = false) :
      text ≠ Decimal.digits count := by
    rintro rfl
    rw [Decimal.isDigit_of_mem_digits member] at other
    cases other
  have unsigned' := unsigned.toSixPlaces
  generalize rounded_eq : toSixPlaces number = rounded at unsigned'
  rw [roundedText_eq rounded_eq rfl rfl] at written
  cases unsigned' with
  | nan => exact absurd written (notDigits 'N' (by decide) (by decide))
  | infinite => exact absurd written (notDigits 'i' (by decide) (by decide))
  | finite rounded =>
    by_cases passes : passesFor (finite false rounded) (round (finite false rounded)) = true
    · obtain ⟨whole, whole_eq⟩ := exists_of_passesFor (Unsigned.finite rounded).round rfl passes
      rw [if_pos passes, whole_eq] at written
      rw [whole_eq] at passes
      refine ⟨rounded, whole, rfl, whole_eq, passes, ?_⟩
      have nonnegative := (Unsigned.finite whole).toWord_nonneg
      have value_eq := congrArg Decimal.value written
      rw [integerText, if_neg (by omega), List.nil_append, Decimal.value_digits,
        Decimal.value_digits] at value_eq
      omega
    · rw [if_neg passes] at written
      have whole : rounded.IsWhole := isWhole_of_shortestText written
      rw [round_of_isWhole false whole] at passes
      exact absurd (passesFor_of_eq false rfl) passes

/-- The number comes back as itself from a word and from units of the sixth place. -/
def ComesBack (number : Nat) : Prop :=
  (ofNat number).toWord = number ∧ ofNat number * million / million = ofNat number

instance (number : Nat) : Decidable (ComesBack number) :=
  inferInstanceAs (Decidable (_ ∧ _))

theorem toWord_eq_iff {magnitude : Magnitude} {number : Nat} (fits : number ≠ wordLimit - 1) :
    toWord (finite false magnitude) = number ↔
      magnitude.wholePart = number ∧ number < wordLimit := by
  rw [toWord]
  have positive : 0 < wordLimit := by decide
  split
  · omega
  · omega

theorem ofNat_wholePart {magnitude : Magnitude} (whole : magnitude.IsWhole) :
    ofNat magnitude.wholePart = finite false magnitude := by
  rw [ofNat, ofRatio, whole.wholePart_mul, nearest_quanta]

/-- A word that is not the last one is the number of the format itself. -/
theorem exists_of_toWord_eq {number : Nat} (notLast : number ≠ wordLimit - 1)
    (word_eq : (ofNat number).toWord = number) :
    ∃ whole : Magnitude, ofNat number = finite false whole ∧ whole.IsWhole ∧
      whole.wholePart = number := by
  cases found : nearest? (number * unit) 1 with
  | none =>
    have number_eq : ofNat number = infinite false := nearest_eq_infinite found
    rw [number_eq, toWord] at word_eq
    exact absurd word_eq (by omega)
  | some whole =>
    have number_eq : ofNat number = finite false whole := nearest_eq found
    rw [number_eq] at word_eq
    exact ⟨whole, number_eq, isWhole_of_nearest? found, ((toWord_eq_iff notLast).mp word_eq).1⟩

/-- A whole number is written with its own digits exactly if it comes back. -/
theorem roundedText_ofNat_iff (number : Nat) :
    roundedText (ofNat number) = Decimal.digits number ↔ ComesBack number := by
  by_cases last : number = wordLimit - 1
  · subst last
    exact iff_of_true (by decide +kernel) (by decide +kernel)
  · constructor
    · intro written
      obtain ⟨rounded, whole, rounded_eq, whole_eq, passes, word_eq⟩ :=
        exists_of_roundedText (unsigned_ofNat number) written
      have isWhole := isWhole_of_round_eq whole_eq
      obtain ⟨part_eq, fits⟩ := (toWord_eq_iff last).mp word_eq
      have number_eq : ofNat number = finite false whole := by
        rw [← part_eq, ofNat_wholePart isWhole]
      rw [number_eq, toSixPlaces_of_isWhole false isWhole] at rounded_eq
      rw [ComesBack, number_eq, rounded_eq]
      refine ⟨word_eq, ?_⟩
      rw [eq_of_passesFor isWhole (by omega) rounded_eq passes]
    · rintro ⟨word_eq, back_eq⟩
      obtain ⟨whole, number_eq, isWhole, _⟩ := exists_of_toWord_eq last word_eq
      rw [number_eq] at word_eq back_eq ⊢
      have rounded_eq := (toSixPlaces_of_isWhole false isWhole).trans back_eq
      rw [roundedText_eq rounded_eq (round_of_isWhole false isWhole) (passesFor_of_eq false rfl),
        if_pos rfl, word_eq, integerText, if_neg (by omega), List.nil_append, Int.natAbs_natCast]

/-- Numbers of which the units of the sixth place have no more than 53 odd bits come back, and so does
the one behind them. -/
theorem comesBack_of_le {number : Nat} (small : number ≤ 576460752304) : ComesBack number := by
  rcases Nat.lt_or_eq_of_le small with few | rfl
  · obtain ⟨magnitude, number_eq, quanta_eq⟩ := @exists_ofNat number (by
      simp only [leadingBit]
      omega)
    have isWhole : magnitude.IsWhole := ⟨number, by rw [quanta_eq, Nat.mul_comm]⟩
    have part_eq : magnitude.wholePart = number := by
      rw [wholePart, quanta_eq, Nat.mul_div_cancel _ unit_pos]
    have notLast : number ≠ wordLimit - 1 := by
      simp only [wordLimit]
      omega
    rw [ComesBack, number_eq]
    refine ⟨(toWord_eq_iff notLast).mpr ⟨part_eq, ?_⟩, mul_div_million_of_small isWhole false ?_⟩
    · simp only [wordLimit]
      omega
    · rw [part_eq]
      simp only [leadingBit]
      omega
  · -- Its units of the sixth place are rounded, and the quotient is rounded back.
    decide +kernel

/-- A word does not hold more than its largest number. -/
theorem toWord_lt (number : Binary64) : number.toWord < wordLimit := by
  have positive : 0 < wordLimit := by decide
  unfold toWord
  repeat' split
  all_goals omega

theorem ComesBack.lt {number : Nat} (comesBack : ComesBack number) : number < wordLimit := by
  have below := toWord_lt (ofNat number)
  rw [comesBack.1] at below
  omega

/-! ### Once and four times a whole number -/

theorem ofNat_mul_one (number : Nat) : ofNat number * ofNat 1 = ofNat number := by
  obtain ⟨one, one_eq, one_quanta⟩ := @exists_ofNat 1 (by decide)
  rw [Nat.one_mul] at one_quanta
  cases found : nearest? (number * unit) 1 with
  | none =>
    have number_eq : ofNat number = infinite false := nearest_eq_infinite found
    have nonzero : one.quanta ≠ 0 := by
      have positive := unit_pos
      omega
    rw [number_eq, one_eq]
    show mul (infinite false) (finite false one) = _
    rw [mul, if_neg nonzero]
    rfl
  | some magnitude =>
    have number_eq : ofNat number = finite false magnitude := nearest_eq found
    rw [number_eq, one_eq, finite_mul, one_quanta, nearest_eq (nearest?_quanta magnitude unit_pos)]

/-- A number of which four times is in the format is there itself, and multiplying it is exact. -/
theorem ofNat_mul_four {magnitude : Magnitude} {number : Nat}
    (quanta_eq : magnitude.quanta = 4 * number * unit) :
    ofNat number * ofNat 4 = finite false magnitude := by
  obtain ⟨four, four_eq, four_quanta⟩ := @exists_ofNat 4 (by decide)
  obtain ⟨quarter, quarter_eq⟩ : ∃ quarter : Magnitude, quarter.quanta = number * unit := by
    rcases Nat.eq_zero_or_pos number with rfl | positive
    · exact ⟨zero, by rw [Nat.zero_mul]; rfl⟩
    · rw [Nat.mul_assoc] at quanta_eq
      refine exists_quarter quanta_eq ?_
      have atLeast : unit ≤ number * unit := Nat.le_mul_of_pos_left unit positive
      have large := Nat.le_trans (Nat.mul_le_mul_left leadingBit (by decide : 8 ≤ 1000000000000))
        large_unit
      omega
  have number_eq : ofNat number = finite false quarter := by
    rw [ofNat, ofRatio, ← quarter_eq, nearest_quanta]
  have product_eq : quarter.quanta * four.quanta = magnitude.quanta * unit := by
    rw [quarter_eq, four_quanta, quanta_eq]
    ring
  rw [number_eq, four_eq, finite_mul, product_eq, nearest_eq (nearest?_quanta magnitude unit_pos)]

/-- Four times a whole number is written exactly if it comes back. -/
theorem roundedText_mul_four_iff (number : Nat) :
    roundedText (ofNat number * ofNat 4) = Decimal.digits (4 * number) ↔
      ComesBack (4 * number) := by
  have notLast : 4 * number ≠ wordLimit - 1 := by
    simp only [wordLimit]
    omega
  have exactly {whole : Magnitude} (isWhole : whole.IsWhole)
      (part_eq : whole.wholePart = 4 * number) : ofNat number * ofNat 4 = ofNat (4 * number) := by
    have quanta_eq := isWhole.wholePart_mul
    rw [part_eq] at quanta_eq
    rw [ofNat_mul_four quanta_eq.symm, ← part_eq, ofNat_wholePart isWhole]
  constructor
  · intro written
    obtain ⟨_, whole, _, whole_eq, _, word_eq⟩ :=
      exists_of_roundedText ((unsigned_ofNat number).mul (unsigned_ofNat 4)) written
    have part_eq := ((toWord_eq_iff notLast).mp word_eq).1
    rw [exactly (isWhole_of_round_eq whole_eq) part_eq] at written
    exact (roundedText_ofNat_iff (4 * number)).mp written
  · intro comesBack
    obtain ⟨whole, _, isWhole, part_eq⟩ := exists_of_toWord_eq notLast comesBack.1
    rw [exactly isWhole part_eq]
    exact (roundedText_ofNat_iff (4 * number)).mpr comesBack

end Binary64

end AtomicCss
