/-
This file finds the text of a computed number that is meant to be a decimal of six places. Such a
number is a few roundings away from the decimal. Scaled by a million and rounded it is the decimal's
whole number of units, so that rounding to six places gives the number nearest to the decimal,
whatever the roundings before were. Its text is then the decimal itself, unless the decimal comes
so close to a whole number that it passes for it.
-/

import AtomicCss.Proofs.ComputedText

namespace AtomicCss

namespace Magnitude

theorem unit_pos : 0 < unit := by
  rw [unit_eq]
  exact power_pos _ (by decide)

/-- One is far above the numbers that have fewer than 53 bits. -/
theorem large_unit : leadingBit * 1000000000000 ≤ unit := by
  decide +kernel

/-- A quotient of medium size is rounded to some magnitude. -/
theorem exists_nearest?_of_lt {quanta denominator : Nat}
    (below : quanta < 18446744073709551616000000 * unit * denominator) :
    ∃ magnitude, nearest? quanta denominator = some magnitude := by
  have room : 18446744073709551616000000 * unit ≤ power 2 2000 := by decide +kernel
  exact exists_nearest? (Nat.lt_of_lt_of_le below (Nat.mul_le_mul_right denominator room))

/-- If it is not very small, it is rounded with all bits in use. -/
theorem exists_within_of_lt {quanta denominator : Nat} (positive : 0 < denominator)
    (large : leadingBit * denominator ≤ quanta)
    (below : quanta < 18446744073709551616000000 * unit * denominator) :
    ∃ magnitude, nearest? quanta denominator = some magnitude ∧
      Within 2 (magnitude.quanta * denominator) quanta := by
  obtain ⟨magnitude, found⟩ := exists_nearest?_of_lt below
  exact ⟨magnitude, found, within_of_nearest? positive found large⟩

theorem exists_within {quanta denominator : Nat} (positive : 0 < denominator)
    (large : leadingBit * denominator ≤ quanta)
    (below : quanta ≤ 1152921504606846976 * unit * denominator) :
    ∃ magnitude, nearest? quanta denominator = some magnitude ∧
      Within 2 (magnitude.quanta * denominator) quanta :=
  exists_within_of_lt positive large (Nat.lt_of_le_of_lt below
    (Nat.mul_lt_mul_of_pos_right (Nat.mul_lt_mul_of_pos_right (by decide) unit_pos) positive))

/-- Rounded, a number is the whole number that is at most a half away. -/
theorem roundHalfUp_eq_iff {magnitude : Magnitude} {number : Nat} :
    magnitude.roundHalfUp = number ↔
      2 * (number * unit) ≤ 2 * magnitude.quanta + unit ∧
        2 * magnitude.quanta < 2 * (number * unit) + unit := by
  have positive := unit_pos
  have double : number * (2 * unit) = 2 * (number * unit) := by ring
  rw [roundHalfUp, Nat.div_eq_iff (by omega)]
  omega

end Magnitude

namespace Binary64

open Magnitude

-- Its value has over a thousand bits, which no unification should compute.
seal Magnitude.unit

/-! ### Whole numbers and quotients -/

theorem finite_mul (negative : Bool) (left right : Magnitude) :
    finite negative left * finite false right =
      nearest negative (left.quanta * right.quanta) unit := by
  show mul (finite negative left) (finite false right) = _
  rw [mul, Bool.bne_false]

theorem finite_div (negative : Bool) (left : Magnitude) {right : Magnitude}
    (nonzero : right.quanta ≠ 0) :
    finite negative left / finite false right =
      nearest negative (left.quanta * unit) right.quanta := by
  show div (finite negative left) (finite false right) = _
  rw [div, if_neg nonzero, Bool.bne_false]

theorem nearest_eq {negative : Bool} {quanta denominator : Nat} {magnitude : Magnitude}
    (found : nearest? quanta denominator = some magnitude) :
    nearest negative quanta denominator = finite negative magnitude := by
  unfold nearest
  rw [found]

theorem nearest_mul_mul (negative : Bool) (quanta denominator : Nat) {factor : Nat}
    (positive : 0 < factor) :
    nearest negative (quanta * factor) (denominator * factor) =
      nearest negative quanta denominator := by
  unfold nearest
  rw [nearest?_mul_mul _ _ positive]

/-- A whole number of up to 53 bits is a number. -/
theorem exists_ofNat {number : Nat} (fits : number < 2 * leadingBit) :
    ∃ magnitude, ofNat number = finite false magnitude ∧ magnitude.quanta = number * unit := by
  obtain ⟨magnitude, found, quanta_eq⟩ := @exists_nearest?_eq number finestPlaces 1 (by decide) fits
    (by decide)
  rw [Nat.mul_one, ← unit_eq] at found
  rw [← unit_eq] at quanta_eq
  refine ⟨magnitude, ?_, quanta_eq⟩
  rw [ofNat, ofRatio, nearest_eq found]

theorem exists_ofRatio {numerator denominator : Nat} (positive : 0 < numerator)
    (small : numerator ≤ 1152921504606846976) (positive' : 0 < denominator)
    (small' : denominator ≤ 1000000000000) :
    ∃ magnitude, ofRatio numerator denominator = finite false magnitude ∧
      nearest? (numerator * unit) denominator = some magnitude ∧
      Within 2 (magnitude.quanta * denominator) (numerator * unit) := by
  have large : leadingBit * denominator ≤ numerator * unit :=
    Nat.le_trans (Nat.mul_le_mul_left leadingBit small')
      (Nat.le_trans large_unit (Nat.le_mul_of_pos_left unit positive))
  have below : numerator * unit ≤ 1152921504606846976 * unit * denominator :=
    Nat.le_trans (Nat.mul_le_mul_right unit small) (Nat.le_mul_of_pos_right _ positive')
  obtain ⟨magnitude, found, within⟩ := exists_within positive' large below
  refine ⟨magnitude, ?_, found, within⟩
  rw [ofRatio, nearest_eq found]

/-! ### Rounding to six places -/

/-- A number near a decimal of six places is rounded to the number nearest to it. -/
theorem toSixPlaces_eq {magnitude : Magnitude} {units : Nat} (positive : 0 < units)
    (small : units < 17592186044416)
    (close : Within 8 (magnitude.quanta * 1000000) (units * unit)) :
    toSixPlaces (finite false magnitude) = ofRatio units 1000000 := by
  obtain ⟨many, many_eq, many_quanta⟩ := @exists_ofNat 1000000 (by decide)
  have unitPositive := unit_pos
  have bound : units * unit ≤ 17592186044416 * unit :=
    Nat.mul_le_mul_right unit (Nat.le_of_lt small)
  have large : 2 * leadingBit ≤ units * unit :=
    Nat.le_trans (Nat.le_trans (by decide) large_unit) (Nat.le_mul_of_pos_left unit positive)
  have atMost := close.le_two_mul (by decide)
  have atLeast := close.symm.le_two_mul (by decide)
  obtain ⟨product, found, within⟩ := @exists_within (magnitude.quanta * many.quanta) unit
    unitPositive
    (by
      rw [many_quanta, ← Nat.mul_assoc]
      exact Nat.mul_le_mul_right unit (by omega))
    (by
      rw [many_quanta, ← Nat.mul_assoc]
      exact Nat.mul_le_mul_right unit (by omega))
  have near : Within 11 product.quanta (units * unit) := by
    rw [many_quanta, ← Nat.mul_assoc] at within
    exact (within.of_mul_right unitPositive).trans close (by decide)
  have rounded : product.roundHalfUp = units := by
    have le := near.le
    have ge := near.ge
    simp only [leadingBit] at le ge
    exact roundHalfUp_eq_iff.mpr ⟨by omega, by omega⟩
  obtain ⟨whole, whole_eq, whole_quanta⟩ := @exists_ofNat units (by
    simp only [leadingBit]
    omega)
  have scaled : finite false magnitude * million = finite false product := by
    rw [million, many_eq, finite_mul, nearest_eq found]
  have back : finite false whole / million = ofRatio units 1000000 := by
    have nonzero : many.quanta ≠ 0 := by
      rw [many_quanta]
      omega
    rw [million, many_eq, finite_div _ whole nonzero, many_quanta, whole_quanta,
      nearest_mul_mul _ _ _ unitPositive, ofRatio]
  have roundedWhole : round (finite false product) = finite false whole := by
    rw [← whole_eq, round, rounded, ofNat, ofRatio]
  rw [toSixPlaces, scaled, roundedWhole, back]

/-! ### Passing for a whole number -/

theorem exists_finite_sub (negative : Bool) (left right : Magnitude) :
    ∃ negative', finite negative left - finite negative right =
      nearest negative' ((left.quanta : Int) - right.quanta).natAbs 1 := by
  show ∃ negative', sub (finite negative left) (finite negative right) = _
  have distance_eq : (signedQuanta negative left + signedQuanta (!negative) right).natAbs =
      ((left.quanta : Int) - right.quanta).natAbs := by
    cases negative <;> simp only [signedQuanta, Bool.not_true, Bool.not_false, if_true, if_false,
      Bool.false_eq_true] <;> omega
  rw [sub, neg, add, distance_eq]
  exact ⟨_, rfl⟩

theorem exists_nearest?_zero {denominator : Nat} (positive : 0 < denominator) :
    ∃ magnitude, nearest? 0 denominator = some magnitude ∧ magnitude.quanta = 0 := by
  obtain ⟨magnitude, found, quanta_eq⟩ :=
    @exists_nearest?_eq 0 0 denominator positive (by decide) (by decide)
  rw [Nat.zero_mul, Nat.zero_mul] at found
  rw [Nat.zero_mul] at quanta_eq
  exact ⟨magnitude, found, quanta_eq⟩

/-- The distance up to which a number passes is a little more than one unit. -/
theorem exists_snapDistance :
    ∃ bound : Magnitude, snapDistance = finite false bound ∧
      1000000 * bound.quanta ≤ 1000002 * unit := by
  refine ⟨⟨4503604130970123, 1022, by decide, by decide, Or.inr (by decide)⟩, ?_, ?_⟩
  · decide +kernel
  · decide +kernel

/-- What decides is the distance in millions, rounded as it is measured. -/
theorem passesFor_iff {negative : Bool} {number whole difference many product bound : Magnitude}
    (many_eq : million = finite false many) (bound_eq : snapDistance = finite false bound)
    (subtracted : nearest? ((number.quanta : Int) - whole.quanta).natAbs 1 = some difference)
    (multiplied : nearest? (difference.quanta * many.quanta) unit = some product) :
    passesFor (finite negative number) (finite negative whole) = true ↔
      product.quanta ≤ bound.quanta := by
  obtain ⟨_, sub_eq⟩ := exists_finite_sub negative number whole
  have distance_eq : abs ((finite negative number - finite negative whole) * million) =
      finite false product := by
    rw [sub_eq, nearest_eq subtracted, many_eq, finite_mul, nearest_eq multiplied, abs]
  rw [passesFor, distance_eq, bound_eq, le, decide_eq_true_eq]
  exact Int.ofNat_le

/-- A whole number passes for itself. -/
theorem passesFor_of_eq (negative : Bool) {number whole : Magnitude}
    (same : number.quanta = whole.quanta) :
    passesFor (finite negative number) (finite negative whole) = true := by
  obtain ⟨many, many_eq, _⟩ := @exists_ofNat 1000000 (by decide)
  obtain ⟨bound, bound_eq, _⟩ := exists_snapDistance
  obtain ⟨difference, subtracted, difference_zero⟩ := @exists_nearest?_zero 1 (by decide)
  obtain ⟨product, multiplied, product_zero⟩ := exists_nearest?_zero unit_pos
  have noDistance : ((number.quanta : Int) - whole.quanta).natAbs = 0 := by
    rw [same, Int.sub_self, Int.natAbs_zero]
  rw [← noDistance] at subtracted
  have multiplied : nearest? (difference.quanta * many.quanta) unit = some product := by
    rwa [difference_zero, Nat.zero_mul]
  rw [passesFor_iff many_eq bound_eq subtracted multiplied, product_zero]
  exact Nat.zero_le _

/-- A number that is more than a unit of the sixth place away does not pass. -/
theorem not_passesFor {number whole : Magnitude}
    (far : 3 * unit ≤ 2 * (((number.quanta : Int) - whole.quanta).natAbs * 1000000))
    (small : ((number.quanta : Int) - whole.quanta).natAbs ≤ 33554432 * unit) :
    passesFor (finite false number) (finite false whole) = false := by
  obtain ⟨many, many_eq, many_quanta⟩ := @exists_ofNat 1000000 (by decide)
  obtain ⟨bound, bound_eq, bound_le⟩ := exists_snapDistance
  have unitPositive := unit_pos
  generalize distance_eq : ((number.quanta : Int) - whole.quanta).natAbs = distance at far small
  have sizeable : unit ≤ distance * 1000000 := by omega
  have large : 4 * leadingBit ≤ distance := by
    refine Nat.le_of_mul_le_mul_right (Nat.le_trans ?_ sizeable) (by decide)
    exact Nat.le_trans (by decide) large_unit
  have half : 2 * leadingBit ≤ distance := Nat.le_trans (by decide) large
  obtain ⟨difference, subtracted, within⟩ := @exists_within distance 1 (by decide)
    (Nat.le_trans (by decide) large)
    (by
      rw [Nat.mul_one]
      exact Nat.le_trans small (Nat.mul_le_mul_right unit (by decide)))
  rw [Nat.mul_one] at within
  have product_eq : difference.quanta * many.quanta = difference.quanta * 1000000 * unit := by
    rw [many_quanta, Nat.mul_assoc]
  obtain ⟨product, multiplied, within'⟩ :=
    @exists_within (difference.quanta * many.quanta) unit unitPositive
      (by
        rw [product_eq]
        refine Nat.mul_le_mul_right unit (Nat.le_trans ?_ (Nat.le_mul_of_pos_right _ (by decide)))
        have atLeast := within.symm.le_two_mul (by decide)
        exact Nat.le_of_mul_le_mul_left (Nat.le_trans half atLeast) (by decide))
      (by
        rw [product_eq]
        refine Nat.mul_le_mul_right unit ?_
        have atMost := Nat.le_trans (within.le_two_mul (by decide)) (Nat.mul_le_mul_left 2 small)
        generalize unit = one at *
        omega)
  rw [product_eq] at within'
  have measured : Within 5 product.quanta (distance * 1000000) :=
    (within'.of_mul_right unitPositive).trans (within.mul_right 1000000) (by decide)
  have atLeast := measured.ge
  rw [← distance_eq] at subtracted
  rw [← Bool.not_eq_true, passesFor_iff many_eq bound_eq subtracted multiplied]
  simp only [leadingBit] at atLeast
  omega

/-! ### The text -/

/-- A whole number rounds to itself. -/
theorem round_of_whole {whole : Magnitude} {number : Nat} (quanta_eq : whole.quanta = number * unit)
    (found : ofNat number = finite false whole) :
    round (finite false whole) = finite false whole := by
  have positive := unit_pos
  have rounded : whole.roundHalfUp = number :=
    roundHalfUp_eq_iff.mpr ⟨by omega, by omega⟩
  rw [round, rounded, ← found, ofNat, ofRatio]

theorem roundedText_eq {number rounded whole : Binary64} {passes : Bool}
    (rounded_eq : toSixPlaces number = rounded) (whole_eq : round rounded = whole)
    (passes_eq : passesFor rounded whole = passes) :
    roundedText number = if passes then integerText whole.toWord else rounded.shortestText := by
  subst rounded_eq whole_eq passes_eq
  rw [roundedText, withoutFinalZeros_shortestText]

/-- A number near a whole number is written as that. -/
theorem roundedText_of_whole {magnitude : Magnitude} {number : Nat} (positive : 0 < number)
    (small : number * 1000000 < 17592186044416)
    (close : Within 8 (magnitude.quanta * 1000000) (number * 1000000 * unit)) :
    roundedText (finite false magnitude) = Decimal.digits number := by
  have fits : number < 2 * leadingBit := by
    simp only [leadingBit]
    omega
  obtain ⟨whole, whole_eq, whole_quanta⟩ := exists_ofNat fits
  have rounded_eq : toSixPlaces (finite false magnitude) = finite false whole := by
    rw [toSixPlaces_eq (by omega) small close, ← whole_eq, ofRatio, ofNat, ofRatio,
      Nat.mul_right_comm, ← nearest_mul_mul false (number * unit) 1 (by decide : 0 < 1000000)]
  have part_eq : whole.wholePart = number := by
    rw [wholePart, whole_quanta, Nat.mul_div_cancel _ unit_pos]
  have word_eq : toWord (finite false whole) = number := by
    rw [toWord, part_eq, if_pos]
    simp only [wordLimit]
    omega
  have passes := passesFor_of_eq false (rfl : whole.quanta = whole.quanta)
  rw [roundedText_eq rounded_eq (round_of_whole whole_quanta whole_eq) passes, if_pos rfl, word_eq,
    integerText, if_neg (by omega), List.nil_append, Int.natAbs_natCast]

/-- A decimal of six places that is not whole is at least a unit of the last place away from every
whole number, and one of two units keeps its distance when it is rounded. -/
theorem distance_of_fraction {magnitude : Magnitude} {units whole : Nat}
    (small : units < 17592186044416) (apart : 2 ≤ units % 1000000 ∧ units % 1000000 ≤ 999998)
    (close : Within 2 (magnitude.quanta * 1000000) (units * unit))
    (whole_eq : magnitude.roundHalfUp = whole) :
    whole < 2 * leadingBit ∧
      3 * unit ≤ 2 * (((magnitude.quanta : Int) - (whole * unit : Nat)).natAbs * 1000000) ∧
      ((magnitude.quanta : Int) - (whole * unit : Nat)).natAbs ≤ 33554432 * unit := by
  obtain ⟨low, high⟩ := roundHalfUp_eq_iff.mp whole_eq
  have le := close.le
  have ge := close.ge
  have positive := unit_pos
  have bound : units * unit ≤ 17592186044416 * unit :=
    Nat.mul_le_mul_right unit (Nat.le_of_lt small)
  simp only [leadingBit] at le ge ⊢
  generalize unit = one at *
  refine ⟨?_, ?_, by omega⟩
  · refine Nat.lt_of_mul_lt_mul_right (a := one) ?_
    omega
  · have split : units * one = 1000000 * (units / 1000000 * one) + units % 1000000 * one := by
      conv_lhs => rw [← Nat.div_add_mod units 1000000, Nat.add_mul, Nat.mul_assoc]
    have least := Nat.mul_le_mul_right one apart.1
    have most := Nat.mul_le_mul_right one apart.2
    rcases Nat.lt_or_ge (units / 1000000) whole with above | below
    · have above := Nat.mul_le_mul_right one (Nat.succ_le_of_lt above)
      rw [Nat.succ_mul] at above
      omega
    · have below := Nat.mul_le_mul_right one below
      omega

/-- A number near any other decimal of six places is written as the decimal. -/
theorem roundedText_of_fraction {magnitude : Magnitude} {count places : Nat}
    (pointed : 0 < places) (fine : places ≤ 6) (canonical : count % 10 ≠ 0)
    (small : count * power 10 (6 - places) < 17592186044416)
    (apart : 2 ≤ count * power 10 (6 - places) % 1000000 ∧
      count * power 10 (6 - places) % 1000000 ≤ 999998)
    (close : Within 8 (magnitude.quanta * 1000000) (count * power 10 (6 - places) * unit)) :
    roundedText (finite false magnitude) = Decimal.pointed places count := by
  have places_eq : 1000000 = power 10 places * power 10 (6 - places) := by
    rw [← power_add, Nat.add_sub_cancel' fine]
    rfl
  have rounded_eq := toSixPlaces_eq (by omega) small close
  generalize units_eq : count * power 10 (6 - places) = units at *
  obtain ⟨rounded, ratio_eq, found, within⟩ := @exists_ofRatio units 1000000 (by omega) (by omega)
    (by decide) (by decide)
  obtain ⟨fits, far, near⟩ := distance_of_fraction small apart within rfl
  obtain ⟨whole, whole_eq, whole_quanta⟩ := exists_ofNat fits
  rw [← whole_quanta] at far near
  have apart' := not_passesFor far near
  have wholeNumber : round (finite false rounded) = finite false whole := by
    rw [round, ← whole_eq, ofNat, ofRatio]
  rw [roundedText_eq (rounded_eq.trans ratio_eq) wholeNumber apart', if_neg Bool.false_ne_true,
    Binary64.shortestText, if_neg Bool.false_ne_true, List.nil_append]
  have found' : nearest? (count * unit) (power 10 places) = some rounded := by
    rw [← found, ← units_eq, places_eq, Nat.mul_right_comm,
      nearest?_mul_mul _ _ (power_pos _ (by decide))]
  have short : count ≤ units := by
    rw [← units_eq]
    exact Nat.le_mul_of_pos_right _ (power_pos _ (by decide))
  have positive : 0 < count := by omega
  refine shortestText_of_decimal found' ?_ ?_ ?_ canonical pointed
  · simp only [leadingBit]
    omega
  · simp only [finestPlaces]
    omega
  · refine Nat.le_trans (Nat.mul_le_mul_left leadingBit ?_)
      (Nat.le_trans large_unit (Nat.le_mul_of_pos_left unit positive))
    exact Nat.le_trans (power_le_power (by decide) fine) (by decide)

end Binary64

end AtomicCss
