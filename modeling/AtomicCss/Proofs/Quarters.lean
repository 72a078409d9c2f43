/-
This file multiplies and divides short decimals by four. The decimal is rounded when it is read and
once more when the product or the quotient is taken, so the result is near another decimal, and
since the text of a number near a decimal of six places is the decimal, nothing of the two roundings
is to be seen: the texts are exact. The one thing to look out for is a decimal so close to a whole
number that it passes for it, and no such decimal is a multiple of 25 units of the sixth place.
-/

import AtomicCss.Generator.BuiltIn
import AtomicCss.Proofs.DecimalText
import AtomicCss.Proofs.SixPlaces

namespace AtomicCss

namespace Binary64

open Magnitude Decimal

seal Magnitude.unit

/-! ### Numbers near a decimal -/

/-- The units of a decimal that is not whole are no multiple of a million. -/
theorem mod_million_ne_zero {places count : Nat} (pointed : 0 < places) (fine : places ≤ 6)
    (reduced : count % 10 ≠ 0) : count * power 10 (6 - places) % 1000000 ≠ 0 := by
  obtain ⟨more, rfl⟩ := Nat.exists_eq_add_of_lt pointed
  have million_eq : 1000000 = 10 * power 10 more * power 10 (6 - (0 + more + 1)) := by
    rw [Nat.mul_comm 10, ← power_succ, ← power_add, Nat.zero_add, Nat.add_sub_cancel' (by omega)]
    rfl
  intro whole
  rw [million_eq, Nat.mul_mod_mul_right, Nat.mul_eq_zero] at whole
  refine reduced ?_
  have divides := Nat.dvd_of_mod_eq_zero
    (whole.resolve_right (Nat.ne_of_gt (power_pos _ (by decide))))
  exact Nat.mod_eq_zero_of_dvd (Nat.dvd_trans (Nat.dvd_mul_right 10 _) divides)

/-- A number near a multiple of 25 units of the sixth place is written as that decimal. -/
theorem roundedText_of_near {magnitude : Magnitude} {places count : Nat} (positive : 0 < count)
    (fine : places ≤ 6) (reduced : Reduced places count)
    (coarse : count * power 10 (6 - places) % 25 = 0)
    (small : count * power 10 (6 - places) < 17592186044416)
    (close : Within 8 (magnitude.quanta * 1000000) (count * power 10 (6 - places) * unit)) :
    roundedText (finite false magnitude) = Decimal.pointed places count := by
  rcases Nat.eq_zero_or_pos places with rfl | pointed
  · rw [Decimal.pointed, if_pos rfl]
    exact roundedText_of_whole positive small close
  · have last := reduced.resolve_left (Nat.ne_of_gt pointed)
    have notWhole := mod_million_ne_zero pointed fine last
    exact roundedText_of_fraction pointed fine last small ⟨by omega, by omega⟩ close

/-! ### Four times and a quarter -/

section Four

variable {number : Magnitude}

theorem exists_mul_four (large : 4 * leadingBit ≤ number.quanta)
    (below : number.quanta ≤ 36028797018963968 * unit) :
    ∃ product, finite false number * ofNat 4 = finite false product ∧
      Within 2 product.quanta (number.quanta * 4) := by
  obtain ⟨four, four_eq, four_quanta⟩ := @exists_ofNat 4 (by decide)
  have product_eq : number.quanta * four.quanta = number.quanta * 4 * unit := by
    rw [four_quanta, Nat.mul_assoc]
  obtain ⟨product, found, within⟩ :=
    @exists_within (number.quanta * four.quanta) unit unit_pos
      (by
        rw [product_eq]
        exact Nat.mul_le_mul_right unit (by omega))
      (by
        rw [product_eq]
        refine Nat.mul_le_mul_right unit ?_
        generalize unit = one at *
        omega)
  rw [product_eq] at within
  refine ⟨product, ?_, within.of_mul_right unit_pos⟩
  rw [four_eq, finite_mul, nearest_eq found]

theorem exists_div_four (large : 4 * leadingBit ≤ number.quanta)
    (below : number.quanta ≤ 36028797018963968 * unit) :
    ∃ quotient, finite false number / ofNat 4 = finite false quotient ∧
      Within 2 (quotient.quanta * 4) number.quanta := by
  obtain ⟨four, four_eq, four_quanta⟩ := @exists_ofNat 4 (by decide)
  have nonzero : four.quanta ≠ 0 := by
    have positive := unit_pos
    omega
  obtain ⟨quotient, found, within⟩ := @exists_within number.quanta 4 (by decide)
    (by omega)
    (by
      generalize unit = one at *
      omega)
  refine ⟨quotient, ?_, within⟩
  rw [four_eq, finite_div _ number nonzero, four_quanta, nearest_mul_mul _ _ _ unit_pos,
    nearest_eq found]

end Four

/-! ### Texts of scaled numerals -/

section Scaled

variable {places count places' count' : Nat} (positive : 0 < count) (fine : places ≤ 6)
  (fine' : places' ≤ 6) (reduced : Reduced places' count')
  (coarse : count' * power 10 (6 - places') % 25 = 0)
  (small : count * power 10 (6 - places) < 4398046511104)

include positive fine small in
/-- The value of a numeral is near its decimal and has all bits in use. -/
theorem exists_value :
    ∃ magnitude, (Numeral.ofPlaces places count).value = finite false magnitude ∧
      Within 2 (magnitude.quanta * 1000000) (count * power 10 (6 - places) * unit) ∧
        4 * leadingBit ≤ magnitude.quanta ∧
          magnitude.quanta ≤ 36028797018963968 * unit := by
  have atMost : power 10 places ≤ 1000000 := power_le_power (by decide) fine
  have short : count ≤ count * power 10 (6 - places) :=
    Nat.le_mul_of_pos_right _ (power_pos _ (by decide))
  obtain ⟨magnitude, value_eq, found, within⟩ := @exists_ofRatio count (power 10 places) positive
    (by omega) (power_pos _ (by decide)) (Nat.le_trans atMost (by decide))
  have million_eq : 1000000 = power 10 places * power 10 (6 - places) := by
    rw [← power_add, Nat.add_sub_cancel' fine]
    rfl
  have near : Within 2 (magnitude.quanta * 1000000) (count * power 10 (6 - places) * unit) := by
    have scaled := within.mul_right (power 10 (6 - places))
    rwa [Nat.mul_assoc, ← million_eq, Nat.mul_right_comm] at scaled
  refine ⟨magnitude, (Numeral.value_ofPlaces places count).trans value_eq, near, ?_, ?_⟩
  · have one : unit ≤ count * power 10 (6 - places) * unit :=
      Nat.le_mul_of_pos_left unit (by omega)
    have half := Nat.le_trans large_unit (Nat.le_trans one (near.symm.le_two_mul (by decide)))
    generalize leadingBit = bit at half ⊢
    omega
  · have twice := near.le_two_mul (by decide)
    have bound : count * power 10 (6 - places) * unit ≤ 4398046511104 * unit :=
      Nat.mul_le_mul_right unit (Nat.le_of_lt small)
    generalize count * power 10 (6 - places) * unit = units at *
    generalize unit = one at *
    omega

include positive fine fine' reduced coarse small in
/-- Four times a decimal is written exactly. -/
theorem quadrupled_ofPlaces
    (same : 4 * (count * power 10 (6 - places)) = count' * power 10 (6 - places')) :
    ClassNumber.quadrupled (Numeral.ofPlaces places count) = pointed places' count' := by
  obtain ⟨number, value_eq, near, large, below⟩ := exists_value positive fine small
  obtain ⟨product, product_eq, within⟩ := exists_mul_four large below
  have close : Within 5 (product.quanta * 1000000) (count' * power 10 (6 - places') * unit) := by
    have chain := (within.mul_right 1000000).trans
      (by rw [Nat.mul_right_comm]; exact near.mul_right 4) (by decide)
    rwa [Nat.mul_right_comm _ unit, Nat.mul_comm _ 4, same] at chain
  have units_pos := Nat.mul_pos positive (power_pos (6 - places) (by decide : 0 < 10))
  have positive' : 0 < count' :=
    Nat.pos_of_mul_pos_right (by omega : 0 < count' * power 10 (6 - places'))
  rw [ClassNumber.quadrupled, value_eq, product_eq]
  exact roundedText_of_near positive' fine' reduced coarse (by omega) (close.mono (by decide))

include positive fine fine' reduced coarse small in
/-- A quarter of a decimal is written exactly. -/
theorem quarter_ofPlaces
    (same : count * power 10 (6 - places) = 4 * (count' * power 10 (6 - places'))) :
    BuiltIn.quarter (Numeral.ofPlaces places count) = pointed places' count' := by
  obtain ⟨number, value_eq, near, large, below⟩ := exists_value positive fine small
  obtain ⟨quotient, quotient_eq, within⟩ := exists_div_four large below
  have close : Within 5 (quotient.quanta * 1000000) (count' * power 10 (6 - places') * unit) := by
    have chain := (within.mul_right 1000000).trans near (by decide)
    rw [same, Nat.mul_right_comm _ 4, Nat.mul_comm 4, Nat.mul_right_comm _ 4] at chain
    exact chain.of_mul_right (by decide)
  have units_pos := Nat.mul_pos positive (power_pos (6 - places) (by decide : 0 < 10))
  have positive' : 0 < count' :=
    Nat.pos_of_mul_pos_right (by omega : 0 < count' * power 10 (6 - places'))
  rw [BuiltIn.quarter, value_eq, quotient_eq]
  exact roundedText_of_near positive' fine' reduced coarse (by omega) (close.mono (by decide))

end Scaled

end Binary64

end AtomicCss
