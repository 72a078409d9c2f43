/-
This file finds the text of a number that a short decimal was rounded to: it is that decimal. The
decimal reads back, since the number covers it, and nothing else on its grid does, since the
interval is narrower than a step of the grid as long as the decimal has fewer than sixteen digits.
A point of a coarser grid is a point of this one as well, namely one that ends in a zero, so the
search from coarse to fine comes to the decimal and to nothing before it.
-/

import AtomicCss.Proofs.Rounding

namespace AtomicCss

theorem power_mul_power (first second exponent : Nat) :
    power first exponent * power second exponent = power (first * second) exponent :=
  (Nat.mul_pow first second exponent).symm

theorem le_log2_of_power_le {number exponent : Nat} (large : power 2 exponent ≤ number) :
    exponent ≤ number.log2 := by
  have nonzero : number ≠ 0 :=
    Nat.ne_of_gt (Nat.lt_of_lt_of_le (power_pos exponent (by decide)) large)
  exact (Nat.le_log2 nonzero).mpr large

/-- Multiples of a width that lie closer than the width are the same. -/
theorem eq_of_mul_near {first second : Nat} (width : Nat)
    (above : first * width < second * width + width)
    (below : second * width < first * width + width) : first = second := by
  rw [← Nat.succ_mul] at above below
  exact Nat.le_antisymm (Nat.le_of_lt_succ (Nat.lt_of_mul_lt_mul_right above))
    (Nat.le_of_lt_succ (Nat.lt_of_mul_lt_mul_right below))

namespace Magnitude

theorem unit_eq : unit = power 2 finestPlaces := by
  rw [unit, finestPlaces]

/-! ### The step of the binary grid -/

section Step

variable {magnitude : Magnitude}

/-- The step of the binary grid around the magnitude, in units of the finest decimal place. -/
def step (magnitude : Magnitude) : Nat :=
  power 5 finestPlaces * power 2 magnitude.scale

theorem step_pos : 0 < magnitude.step :=
  Nat.mul_pos (power_pos _ (by decide)) (power_pos _ (by decide))

theorem decimalUnits_eq (magnitude : Magnitude) :
    magnitude.decimalUnits = magnitude.mantissa * magnitude.step := by
  rw [decimalUnits, quanta, step]
  ring

/-- What is covered is at most half a step away. -/
theorem Covers.near_decimalUnits {quarters : Nat}
    (covers : magnitude.Covers quarters (power 5 finestPlaces)) :
    2 * quarters ≤ 2 * magnitude.decimalUnits + magnitude.step ∧
      2 * magnitude.decimalUnits ≤ 2 * quarters + magnitude.step :=
  covers.half_step

/-- Zero reads back as nothing else. -/
theorem pos_of_readsFrom (nonzero : magnitude.mantissa ≠ 0) {count grid : Nat}
    (reads : magnitude.readsFrom count grid = true) : 0 < count := by
  rcases Nat.eq_zero_or_pos count with rfl | positive
  · have low := (readsFrom_iff.mp reads).low
    have positive : 0 < magnitude.lowQuarters * magnitude.step := by
      refine Nat.mul_pos ?_ step_pos
      unfold lowQuarters
      split <;> omega
    change magnitude.lowQuarters * magnitude.step ≤ _ at low
    omega
  · exact positive

/-- A decimal place is worth more than three binary ones. -/
theorem octal_le_decimal (grid : Nat) : power 2 (3 * grid) ≤ power 10 grid := by
  have eight : power 2 (3 * grid) = power 8 grid := Nat.pow_mul 2 3 _
  rw [eight]
  exact Nat.pow_le_pow_left (by decide) _

/-- A grid with a point that reads back is none of those before the search. -/
theorem le_coarsestGrid (nonzero : magnitude.mantissa ≠ 0) {count grid : Nat}
    (reads : magnitude.readsFrom count grid = true) : grid ≤ magnitude.coarsestGrid := by
  obtain ⟨above, _⟩ := (readsFrom_iff.mp reads).near_decimalUnits
  have once := Nat.mul_le_mul_right (power 10 grid) (pos_of_readsFrom nonzero reads)
  have step_le : magnitude.step ≤ magnitude.decimalUnits := by
    rw [decimalUnits_eq]
    exact Nat.le_mul_of_pos_left _ (Nat.pos_of_ne_zero nonzero)
  have octal := octal_le_decimal grid
  have bits : 3 * grid - 1 ≤ magnitude.decimalUnits.log2 := by
    cases grid with
    | zero => exact Nat.zero_le _
    | succ grid =>
      have half : power 2 (3 * (grid + 1)) = power 2 (3 * (grid + 1) - 1) * 2 := power_succ 2 _
      exact le_log2_of_power_le (by omega)
  unfold coarsestGrid
  omega

end Step

/-! ### The decimal and its grid -/

section Decimal

variable {magnitude : Magnitude} {count places : Nat}
  (found : nearest? (count * unit) (power 10 places) = some magnitude)
  (short : 2 * count < leadingBit) (fine : places < finestPlaces)
  (large : leadingBit * power 10 places ≤ count * unit)

include found fine in
/-- On the grid of its last place the decimal reads back. -/
theorem covers_decimal :
    magnitude.Covers (count * power 10 (finestPlaces - places)) (power 5 finestPlaces) := by
  have covers := covers_of_nearest? (power_pos places (by decide)) found
  refine covers.of_mul_eq (power_pos _ (by decide)) (power_pos _ (by decide)) ?_
  rw [unit_eq, Nat.mul_assoc, power_mul_power, Nat.mul_assoc, ← power_add,
    Nat.sub_add_cancel (Nat.le_of_lt fine)]

include found short fine large in
/-- A step of the decimal's grid is wider than one of the binary grid. -/
theorem step_lt : magnitude.step < power 10 (finestPlaces - places) := by
  have covers := covers_of_nearest? (power_pos places (by decide)) found
  have full := leadingBit_le_mantissa (power_pos places (by decide)) covers large
  obtain ⟨_, near⟩ := (covers_decimal found fine).near_decimalUnits
  have units := decimalUnits_eq magnitude
  generalize power 10 (finestPlaces - places) = width at *
  by_contra wide
  have bound := Nat.mul_le_mul_left count (Nat.le_of_not_lt wide)
  have many := Nat.mul_le_mul_right magnitude.step full
  have few := Nat.mul_le_mul_right magnitude.step (Nat.succ_le_of_lt short)
  have positive := @step_pos magnitude
  rw [← units] at many
  rw [Nat.succ_mul, Nat.mul_assoc] at few
  simp only [leadingBit] at many few
  omega

include found short fine large in
/-- Nothing else reads back on the decimal's grid or a coarser one. -/
theorem eq_of_readsFrom {other grid : Nat} (coarser : finestPlaces - places ≤ grid)
    (reads : magnitude.readsFrom other grid = true) :
    other * power 10 (grid - (finestPlaces - places)) = count := by
  have narrow := step_lt found short fine large
  obtain ⟨above, below⟩ := (covers_decimal found fine).near_decimalUnits
  obtain ⟨above', below'⟩ := (readsFrom_iff.mp reads).near_decimalUnits
  have split : other * power 10 grid =
      other * power 10 (grid - (finestPlaces - places)) * power 10 (finestPlaces - places) := by
    rw [Nat.mul_assoc, ← power_add, Nat.sub_add_cancel coarser]
  rw [split] at above' below'
  generalize other * power 10 (grid - (finestPlaces - places)) = other at *
  generalize power 10 (finestPlaces - places) = width at *
  exact eq_of_mul_near width (by omega) (by omega)

include found short fine large in
theorem readsFrom_grid_iff {other : Nat} :
    magnitude.readsFrom other (finestPlaces - places) = true ↔ other = count := by
  constructor
  · intro reads
    have same := eq_of_readsFrom found short fine large (Nat.le_refl _) reads
    rwa [Nat.sub_self, power_zero, Nat.mul_one] at same
  · rintro rfl
    exact readsFrom_iff.mpr (covers_decimal found fine)

include found short fine large in
theorem onGrid?_eq_some : magnitude.onGrid? (finestPlaces - places) = some count := by
  have reads (other : Nat) := @readsFrom_grid_iff magnitude count places found short fine large other
  have narrow := step_lt found short fine large
  obtain ⟨above, below⟩ := (covers_decimal found fine).near_decimalUnits
  have widthPositive : 0 < power 10 (finestPlaces - places) := power_pos _ (by decide)
  have neighbour : magnitude.decimalUnits / power 10 (finestPlaces - places) = count ∨
      magnitude.decimalUnits / power 10 (finestPlaces - places) + 1 = count := by
    have split := Nat.div_add_mod' magnitude.decimalUnits (power 10 (finestPlaces - places))
    have small := Nat.mod_lt magnitude.decimalUnits widthPositive
    generalize power 10 (finestPlaces - places) = width at *
    generalize magnitude.decimalUnits / width = floor at *
    rcases Nat.lt_trichotomy count floor with less | same | more
    · have := Nat.mul_le_mul_right width (Nat.succ_le_of_lt less)
      rw [Nat.succ_mul] at this
      omega
    · exact Or.inl same.symm
    · by_contra others
      have := Nat.mul_le_mul_right width (by omega : floor + 2 ≤ count)
      rw [Nat.add_mul] at this
      omega
  have readsCount := (reads count).mpr rfl
  have readsOther {other : Nat} (different : other ≠ count) :
      magnitude.readsFrom other (finestPlaces - places) = false := by
    rw [← Bool.not_eq_true]
    exact mt (reads other).mp different
  rcases neighbour with below_eq | above_eq
  · simp only [onGrid?, below_eq, readsCount, readsOther (Nat.succ_ne_self count)]
  · have different : magnitude.decimalUnits / power 10 (finestPlaces - places) ≠ count := by omega
    simp only [onGrid?, above_eq, readsCount, readsOther different]

include found short fine large in
theorem onGrid?_eq_none (canonical : count % 10 ≠ 0) {grid : Nat}
    (coarser : finestPlaces - places < grid) : magnitude.onGrid? grid = none := by
  have silent (other : Nat) : magnitude.readsFrom other grid = false := by
    by_contra reads
    have same := eq_of_readsFrom found short fine large (Nat.le_of_lt coarser) (by simpa using reads)
    obtain ⟨more, rfl⟩ := Nat.exists_eq_add_of_lt coarser
    have split : finestPlaces - places + more + 1 - (finestPlaces - places) = more + 1 := by omega
    rw [split, power_succ, ← Nat.mul_assoc] at same
    exact canonical (by rw [← same, Nat.mul_mod_left])
  simp only [onGrid?, silent]

include found short fine large in
theorem shortestFrom_eq (canonical : count % 10 ≠ 0) {start : Nat}
    (coarser : finestPlaces - places ≤ start) :
    magnitude.shortestFrom start = (count, finestPlaces - places) := by
  induction start with
  | zero => omega
  | succ start inductionHypothesis =>
    rcases Nat.lt_or_eq_of_le coarser with further | here
    · rw [shortestFrom, onGrid?_eq_none found short fine large canonical further]
      exact inductionHypothesis (by omega)
    · rw [shortestFrom, ← here, onGrid?_eq_some found short fine large]

include found short fine large in
/-- The shortest text of the number nearest to a short decimal is the decimal. -/
theorem shortestText_of_decimal (canonical : count % 10 ≠ 0) (pointed : 0 < places) :
    magnitude.shortestText = Decimal.pointed places count := by
  have covers := covers_of_nearest? (power_pos places (by decide)) found
  have full := leadingBit_le_mantissa (power_pos places (by decide)) covers large
  have nonzero : magnitude.mantissa ≠ 0 := by
    intro zero
    rw [zero] at full
    exact absurd full (by decide)
  have coarser := le_coarsestGrid nonzero (readsFrom_iff.mpr (covers_decimal found fine))
  rw [shortestText, if_neg nonzero, shortestFrom_eq found short fine large canonical coarser]
  have finer : finestPlaces - places < finestPlaces := by omega
  simp only [finer, if_true, Nat.sub_sub_self (Nat.le_of_lt fine)]

end Decimal

end Magnitude

end AtomicCss
