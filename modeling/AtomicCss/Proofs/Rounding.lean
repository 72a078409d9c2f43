/-
This file says how far rounding goes. A quotient that is rounded to a magnitude lies between the
midpoints to the magnitude's neighbours, and on a midpoint only if the mantissa is even; this is
also what decides which decimals read back, so the interval is stated once, on quotients. Where all
53 bits are in use the interval is narrow against the number, and errors of this size add up when
one rounding follows another. A number of 53 bits is not changed by rounding at all.
-/

import AtomicCss.Number.Shortest
import Mathlib.Tactic.Ring

namespace AtomicCss

/-! ### Rounding to a whole number -/

section Quotient

variable {numerator denominator : Nat} (positive : 0 < denominator)

include positive in
/-- The nearest whole number is at most a half away, and even if it is a half. -/
theorem roundQuotient_spec :
    let rounded := roundQuotient numerator denominator
    2 * numerator ≤ 2 * (rounded * denominator) + denominator ∧
      2 * (rounded * denominator) ≤ 2 * numerator + denominator ∧
      (rounded % 2 = 1 → 2 * numerator ≠ 2 * (rounded * denominator) + denominator ∧
        2 * (rounded * denominator) ≠ 2 * numerator + denominator) := by
  have split := Nat.div_add_mod' numerator denominator
  have small := Nat.mod_lt numerator positive
  have next : (numerator / denominator + 1) * denominator =
      numerator / denominator * denominator + denominator := Nat.succ_mul _ _
  simp only [roundQuotient]
  split <;> omega

include positive in
/-- A whole quotient stays what it is. -/
theorem roundQuotient_mul (number : Nat) :
    roundQuotient (number * denominator) denominator = number := by
  rw [roundQuotient, Nat.mul_mod_left, Nat.mul_div_cancel _ positive]
  exact if_pos (Or.inl positive)

/-- Rounding looks at the quotient alone. -/
theorem roundQuotient_mul_mul {factor : Nat} (positive : 0 < factor) :
    roundQuotient (numerator * factor) (denominator * factor) =
      roundQuotient numerator denominator := by
  have scaled (number : Nat) : 2 * (number * factor) = 2 * number * factor := by ring
  simp only [roundQuotient, Nat.mul_div_mul_right _ _ positive, Nat.mul_mod_mul_right, scaled,
    Nat.mul_lt_mul_right positive, Nat.mul_left_inj (Nat.ne_of_gt positive)]

end Quotient

namespace Magnitude

/-! ### The interval of a magnitude -/

/-- The quotient lies between the midpoints to the magnitude's neighbours, and not on one if the
mantissa is odd. -/
structure Covers (magnitude : Magnitude) (quanta denominator : Nat) : Prop where
  low : magnitude.lowQuarters * (denominator * power 2 magnitude.scale) ≤ 4 * quanta
  high : 4 * quanta ≤ magnitude.highQuarters * (denominator * power 2 magnitude.scale)
  odd : magnitude.mantissa % 2 = 1 →
    magnitude.lowQuarters * (denominator * power 2 magnitude.scale) ≠ 4 * quanta ∧
      4 * quanta ≠ magnitude.highQuarters * (denominator * power 2 magnitude.scale)

theorem readsFrom_iff {magnitude : Magnitude} {count grid : Nat} :
    magnitude.readsFrom count grid = true ↔
      magnitude.Covers (count * power 10 grid) (power 5 finestPlaces) := by
  unfold readsFrom
  rw [Nat.mul_comm (power 2 magnitude.scale)]
  split
  · next even =>
    simp only [Bool.and_eq_true, decide_eq_true_eq]
    exact ⟨fun ⟨low, high⟩ => ⟨low, high, fun odd => by omega⟩, fun covers =>
      ⟨covers.low, covers.high⟩⟩
  · next odd =>
    simp only [Bool.and_eq_true, decide_eq_true_eq]
    refine ⟨fun ⟨low, high⟩ => ⟨Nat.le_of_lt low, Nat.le_of_lt high, fun _ =>
      ⟨Nat.ne_of_lt low, Nat.ne_of_lt high⟩⟩, fun covers => ?_⟩
    have ⟨notLow, notHigh⟩ := covers.odd (by omega)
    exact ⟨Nat.lt_of_le_of_ne covers.low notLow, Nat.lt_of_le_of_ne covers.high notHigh⟩

/-- Rounding keeps the scale of the quotient, unless the mantissa gets a 54th bit. -/
theorem scale_and_mantissa_of_nearest? {quanta denominator : Nat} {magnitude : Magnitude}
    (found : nearest? quanta denominator = some magnitude) :
    let scale := scaleOf quanta denominator
    let rounded := roundQuotient quanta (denominator * power 2 scale)
    (magnitude.scale = scale ∧ magnitude.mantissa = rounded) ∨
      (magnitude.scale = scale + 1 ∧ magnitude.mantissa = leadingBit ∧
        2 * leadingBit ≤ rounded) := by
  unfold nearest? at found
  simp only at found
  split at found
  · split at found
    · obtain rfl := Option.some.inj found
      exact Or.inl ⟨rfl, rfl⟩
    · cases found
  · next overflows =>
    split at found
    · obtain rfl := Option.some.inj found
      exact Or.inr ⟨rfl, rfl, Nat.le_of_not_lt overflows⟩
    · cases found

/-- A quotient is rounded to a magnitude that covers it. -/
theorem covers_of_nearest? {quanta denominator : Nat} (positive : 0 < denominator)
    {magnitude : Magnitude} (found : nearest? quanta denominator = some magnitude) :
    magnitude.Covers quanta denominator := by
  have placePositive : 0 < denominator * power 2 (scaleOf quanta denominator) :=
    Nat.mul_pos positive (power_pos _ (by decide))
  obtain ⟨below, above, odd⟩ := @roundQuotient_spec quanta _ placePositive
  have bound := div_scaleOf_lt quanta denominator
  have full := le_div_scaleOf quanta denominator
  rw [Nat.div_lt_iff_lt_mul placePositive] at bound
  rw [Nat.le_div_iff_mul_le placePositive] at full
  rcases scale_and_mantissa_of_nearest? found with
    ⟨scale_eq, mantissa_eq⟩ | ⟨scale_eq, mantissa_eq, overflows⟩
  · rw [← scale_eq] at full
    rw [← mantissa_eq, ← scale_eq] at below above odd
    rw [← scale_eq] at placePositive
    have high : magnitude.highQuarters * (denominator * power 2 magnitude.scale) =
        4 * (magnitude.mantissa * (denominator * power 2 magnitude.scale)) +
          2 * (denominator * power 2 magnitude.scale) := by
      rw [highQuarters]
      ring
    have low : magnitude.lowQuarters * (denominator * power 2 magnitude.scale) ≤ 4 * quanta ∧
        (magnitude.mantissa % 2 = 1 →
          magnitude.lowQuarters * (denominator * power 2 magnitude.scale) ≠ 4 * quanta) := by
      unfold lowQuarters
      generalize denominator * power 2 magnitude.scale = place at *
      split
      · next boundary =>
        obtain ⟨mantissa_eq, above⟩ := boundary
        have full := full above
        rw [mantissa_eq, Nat.sub_mul, Nat.mul_assoc]
        exact ⟨by omega, fun isOdd => absurd isOdd (by decide)⟩
      · rw [Nat.sub_mul, Nat.mul_assoc]
        refine ⟨by omega, fun isOdd => ?_⟩
        have atLeast : place ≤ magnitude.mantissa * place :=
          Nat.le_mul_of_pos_left place (by omega)
        have := (odd isOdd).2
        omega
    refine ⟨low.1, by omega, fun isOdd => ⟨low.2 isOdd, ?_⟩⟩
    have := (odd isOdd).1
    omega
  · have place_eq : denominator * power 2 magnitude.scale =
        2 * (denominator * power 2 (scaleOf quanta denominator)) := by
      rw [scale_eq, power_succ]
      ring
    have many := Nat.mul_le_mul_right (denominator * power 2 (scaleOf quanta denominator)) overflows
    have isBoundary : magnitude.mantissa = leadingBit ∧ 0 < magnitude.scale :=
      ⟨mantissa_eq, by omega⟩
    generalize denominator * power 2 (scaleOf quanta denominator) = place at *
    refine ⟨?_, ?_, fun isOdd => ?_⟩
    · rw [lowQuarters, if_pos isBoundary, place_eq, mantissa_eq]
      simp only [leadingBit] at many ⊢
      omega
    · rw [highQuarters, place_eq, mantissa_eq]
      simp only [leadingBit] at bound ⊢
      omega
    · rw [mantissa_eq] at isOdd
      exact absurd isOdd (by decide)

/-- Whether a quotient is covered depends on its value alone. -/
theorem Covers.of_mul_eq {magnitude : Magnitude} {quanta denominator quanta' denominator' : Nat}
    (covers : magnitude.Covers quanta denominator) (positive : 0 < denominator)
    (positive' : 0 < denominator') (same : quanta * denominator' = quanta' * denominator) :
    magnitude.Covers quanta' denominator' := by
  have cross (number : Nat) : number * (denominator * power 2 magnitude.scale) * denominator' =
      number * (denominator' * power 2 magnitude.scale) * denominator := by ring
  have same : 4 * quanta * denominator' = 4 * quanta' * denominator := by
    rw [Nat.mul_assoc, same, Nat.mul_assoc]
  refine ⟨Nat.le_of_mul_le_mul_right ?_ positive, Nat.le_of_mul_le_mul_right ?_ positive,
    fun isOdd => ?_⟩
  · rw [← cross, ← same]
    exact Nat.mul_le_mul_right denominator' covers.low
  · rw [← cross, ← same]
    exact Nat.mul_le_mul_right denominator' covers.high
  · obtain ⟨notLow, notHigh⟩ := covers.odd isOdd
    refine ⟨fun equal => notLow (Nat.eq_of_mul_eq_mul_right positive' ?_), fun equal =>
      notHigh (Nat.eq_of_mul_eq_mul_right positive' ?_)⟩
    · rw [cross, equal, same]
    · rw [cross, ← equal, same]

theorem quanta_mul (magnitude : Magnitude) (denominator : Nat) :
    magnitude.quanta * denominator =
      magnitude.mantissa * (denominator * power 2 magnitude.scale) := by
  rw [quanta]
  ring

/-- What is covered is at most half a step of the binary grid away. -/
theorem Covers.half_step {magnitude : Magnitude} {quanta denominator : Nat}
    (covers : magnitude.Covers quanta denominator) :
    2 * quanta ≤ 2 * (magnitude.quanta * denominator) + denominator * power 2 magnitude.scale ∧
      2 * (magnitude.quanta * denominator) ≤ 2 * quanta + denominator * power 2 magnitude.scale := by
  have low : (4 * magnitude.mantissa - 2) * (denominator * power 2 magnitude.scale) ≤ 4 * quanta := by
    refine Nat.le_trans (Nat.mul_le_mul_right _ ?_) covers.low
    unfold lowQuarters
    split <;> omega
  have high := covers.high
  rw [Nat.sub_mul, Nat.mul_assoc, ← quanta_mul] at low
  rw [highQuarters, Nat.add_mul, Nat.mul_assoc, ← quanta_mul] at high
  omega

/-- With all bits in use, the midpoints are close. -/
theorem leadingBit_le_mantissa {quanta denominator : Nat} (positive : 0 < denominator)
    {magnitude : Magnitude} (covers : magnitude.Covers quanta denominator)
    (large : leadingBit * denominator ≤ quanta) : leadingBit ≤ magnitude.mantissa := by
  refine magnitude.normal.elim (fun least => ?_) id
  have high := covers.high
  rw [least, power_zero, Nat.mul_one, highQuarters] at high
  have bound : 4 * leadingBit * denominator ≤ (4 * magnitude.mantissa + 2) * denominator := by
    rw [Nat.mul_assoc]
    omega
  have := Nat.le_of_mul_le_mul_right bound positive
  omega

end Magnitude

/-! ### Relative errors -/

/-- The numbers are equal up to `error` parts in `2 ^ 53` of either. -/
structure Within (error first second : Nat) : Prop where
  le : 2 * leadingBit * first ≤ (2 * leadingBit + error) * second
  ge : 2 * leadingBit * second ≤ (2 * leadingBit + error) * first

namespace Within

variable {error error' first second third : Nat}

theorem symm (within : Within error first second) : Within error second first :=
  ⟨within.ge, within.le⟩

theorem mono (within : Within error first second) (below : error ≤ error') :
    Within error' first second where
  le := Nat.le_trans within.le (Nat.mul_le_mul_right second (Nat.add_le_add_left below _))
  ge := Nat.le_trans within.ge (Nat.mul_le_mul_right first (Nat.add_le_add_left below _))

theorem mul_right (within : Within error first second) (factor : Nat) :
    Within error (first * factor) (second * factor) where
  le := by
    rw [← Nat.mul_assoc, ← Nat.mul_assoc]
    exact Nat.mul_le_mul_right factor within.le
  ge := by
    rw [← Nat.mul_assoc, ← Nat.mul_assoc]
    exact Nat.mul_le_mul_right factor within.ge

theorem of_mul_right {factor : Nat} (positive : 0 < factor)
    (within : Within error (first * factor) (second * factor)) : Within error first second where
  le := by
    have le := within.le
    rw [← Nat.mul_assoc, ← Nat.mul_assoc] at le
    exact Nat.le_of_mul_le_mul_right le positive
  ge := by
    have ge := within.ge
    rw [← Nat.mul_assoc, ← Nat.mul_assoc] at ge
    exact Nat.le_of_mul_le_mul_right ge positive

theorem le_two_mul (within : Within error first second) (small : error ≤ 2 * leadingBit) :
    first ≤ 2 * second := by
  have positive : 0 < 2 * leadingBit := by decide
  refine Nat.le_of_mul_le_mul_left (Nat.le_trans within.le ?_) positive
  rw [← Nat.mul_assoc, Nat.mul_two]
  exact Nat.mul_le_mul_right second (Nat.add_le_add_left small _)

/-- Errors add up, with one part to spare for their product. -/
theorem trans (within : Within error first second) (within' : Within error' second third)
    (small : error * error' ≤ 2 * leadingBit) : Within (error + error' + 1) first third := by
  have chain {error error' first second third : Nat} (small : error * error' ≤ 2 * leadingBit)
      (le : 2 * leadingBit * first ≤ (2 * leadingBit + error) * second)
      (le' : 2 * leadingBit * second ≤ (2 * leadingBit + error') * third) :
      2 * leadingBit * first ≤ (2 * leadingBit + (error + error' + 1)) * third := by
    have positive : 0 < 2 * leadingBit := by decide
    generalize 2 * leadingBit = one at *
    refine Nat.le_of_mul_le_mul_left ?_ positive
    calc one * (one * first)
        ≤ one * ((one + error) * second) := Nat.mul_le_mul_left one le
      _ = (one + error) * (one * second) := by ring
      _ ≤ (one + error) * ((one + error') * third) := Nat.mul_le_mul_left _ le'
      _ = (one * one + one * (error + error') + error * error') * third := by ring
      _ ≤ (one * one + one * (error + error') + one) * third :=
        Nat.mul_le_mul_right third (Nat.add_le_add_left small _)
      _ = one * ((one + (error + error' + 1)) * third) := by ring
  refine ⟨chain small within.le within'.le, ?_⟩
  rw [Nat.add_comm error error']
  exact chain (by rwa [Nat.mul_comm]) within'.ge within.ge

end Within

namespace Magnitude

/-- A quotient that is rounded with all bits in use is changed by no more than two parts. -/
theorem within_of_nearest? {quanta denominator : Nat} (positive : 0 < denominator)
    {magnitude : Magnitude} (found : nearest? quanta denominator = some magnitude)
    (large : leadingBit * denominator ≤ quanta) :
    Within 2 (magnitude.quanta * denominator) quanta := by
  have covers := covers_of_nearest? positive found
  have full := Nat.mul_le_mul_right (denominator * power 2 magnitude.scale)
    (leadingBit_le_mantissa positive covers large)
  obtain ⟨above, below⟩ := covers.half_step
  rw [← quanta_mul] at full
  simp only [leadingBit] at full
  constructor <;>
  · simp only [leadingBit]
    omega

/-! ### Rounding what needs none -/

/-- A number of quanta that 53 bits are enough for is its own rounding. -/
theorem exists_nearest?_eq {mantissa scale denominator : Nat} (positive : 0 < denominator)
    (fits : mantissa < 2 * leadingBit) (bounded : scale ≤ 2045) :
    ∃ magnitude, nearest? (mantissa * power 2 scale * denominator) denominator = some magnitude ∧
      magnitude.quanta = mantissa * power 2 scale := by
  generalize scale_eq : scaleOf (mantissa * power 2 scale * denominator) denominator = scale'
  have smaller : scale' ≤ scale := by
    rw [← scale_eq, scaleOf, Nat.mul_div_cancel _ positive]
    by_cases zero : mantissa * power 2 scale = 0
    · rw [zero]
      exact Nat.zero_le _
    · have below : mantissa * power 2 scale < power 2 (53 + scale) := by
        rw [power_add]
        exact Nat.mul_lt_mul_of_pos_right fits (power_pos scale (by decide))
      have := (Nat.log2_lt zero).mpr below
      omega
  have quotient_eq : mantissa * power 2 scale * denominator =
      mantissa * power 2 (scale - scale') * (denominator * power 2 scale') := by
    obtain ⟨more, rfl⟩ := Nat.exists_eq_add_of_le smaller
    rw [Nat.add_sub_cancel_left, power_add]
    ring
  have placePositive : 0 < denominator * power 2 scale' :=
    Nat.mul_pos positive (power_pos scale' (by decide))
  have rounded_eq : roundQuotient (mantissa * power 2 scale * denominator)
      (denominator * power 2 scale') = mantissa * power 2 (scale - scale') := by
    rw [quotient_eq, roundQuotient_mul placePositive]
  have rounded_lt : mantissa * power 2 (scale - scale') < 2 * leadingBit := by
    have bound := div_scaleOf_lt (mantissa * power 2 scale * denominator) denominator
    rwa [scale_eq, quotient_eq, Nat.mul_div_cancel _ placePositive] at bound
  unfold nearest?
  simp only [scale_eq, rounded_eq, rounded_lt, dif_pos, Nat.le_trans smaller bounded]
  refine ⟨_, rfl, ?_⟩
  rw [quanta, Nat.mul_assoc, ← power_add, Nat.sub_add_cancel smaller]

/-- A quotient below the largest magnitudes is rounded to some magnitude. -/
theorem exists_nearest? {quanta denominator : Nat}
    (below : quanta < power 2 2000 * denominator) :
    ∃ magnitude, nearest? quanta denominator = some magnitude := by
  have bounded : scaleOf quanta denominator ≤ 1948 := by
    by_cases zero : quanta / denominator = 0
    · rw [scaleOf, zero]
      decide
    · have small := (Nat.log2_lt zero).mpr (Nat.div_lt_of_lt_mul (by rwa [Nat.mul_comm] at below))
      unfold scaleOf
      omega
  unfold nearest?
  simp only
  split
  · exact ⟨_, dif_pos (by omega)⟩
  · exact ⟨_, dif_pos (by omega)⟩

/-- Rounding looks at the quotient alone. -/
theorem nearest?_mul_mul (quanta denominator : Nat) {factor : Nat} (positive : 0 < factor) :
    nearest? (quanta * factor) (denominator * factor) = nearest? quanta denominator := by
  have scale_eq : scaleOf (quanta * factor) (denominator * factor) = scaleOf quanta denominator := by
    rw [scaleOf, scaleOf, Nat.mul_div_mul_right _ _ positive]
  have mantissa_eq : roundQuotient (quanta * factor)
      (denominator * factor * power 2 (scaleOf quanta denominator)) =
        roundQuotient quanta (denominator * power 2 (scaleOf quanta denominator)) := by
    rw [Nat.mul_right_comm, roundQuotient_mul_mul positive]
  simp only [nearest?, scale_eq, mantissa_eq]

end Magnitude

end AtomicCss
