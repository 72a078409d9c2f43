/-
This file follows the search for the shortest decimal of a number. If a point of a grid reads back,
one of the two around the number does too, so the search has a hit on every grid that has such a
point, and it ends on the coarsest of these grids. What it finds there does not end in a zero: a
decimal that does lies on the next coarser grid as well, where the search has been before.
-/

import AtomicCss.Number.Rounded
import AtomicCss.Proofs.ShortestDecimal

namespace AtomicCss

namespace Magnitude

/-! ### Points that read back -/

section Reads

variable {magnitude : Magnitude} (nonzero : magnitude.mantissa ≠ 0)

include nonzero in
/-- The number itself lies inside the interval that reads back. -/
theorem midpoints_around :
    magnitude.lowQuarters * magnitude.step < 4 * magnitude.decimalUnits ∧
      4 * magnitude.decimalUnits < magnitude.highQuarters * magnitude.step := by
  have positive : 0 < magnitude.step := step_pos
  have low : magnitude.lowQuarters ≤ 4 * magnitude.mantissa - 1 := by
    unfold lowQuarters
    split <;> omega
  have below := Nat.mul_le_mul_right magnitude.step low
  have atLeast := Nat.mul_le_mul_right magnitude.step (by omega : 1 ≤ 4 * magnitude.mantissa)
  have high : magnitude.highQuarters * magnitude.step =
      4 * magnitude.decimalUnits + 2 * magnitude.step := by
    rw [highQuarters, decimalUnits_eq]
    ring
  rw [Nat.sub_mul, Nat.mul_assoc, ← decimalUnits_eq] at below
  rw [Nat.mul_assoc, ← decimalUnits_eq] at atLeast
  omega

include nonzero in
/-- On the finest grid the number itself is a point. -/
theorem readsFrom_decimalUnits : magnitude.readsFrom magnitude.decimalUnits 0 = true := by
  obtain ⟨low, high⟩ := midpoints_around nonzero
  refine readsFrom_iff.mpr ?_
  rw [power_zero, Nat.mul_one]
  exact ⟨Nat.le_of_lt low, Nat.le_of_lt high, fun _ => ⟨Nat.ne_of_lt low, Nat.ne_of_lt high⟩⟩

include nonzero in
/-- What lies between the number and a decimal that reads back reads back. -/
theorem readsFrom_of_between {other count grid : Nat}
    (reads : magnitude.readsFrom other grid = true)
    (between : (other * power 10 grid ≤ count * power 10 grid ∧
        count * power 10 grid ≤ magnitude.decimalUnits) ∨
      (magnitude.decimalUnits ≤ count * power 10 grid ∧
        count * power 10 grid ≤ other * power 10 grid)) :
    magnitude.readsFrom count grid = true := by
  obtain ⟨below, above⟩ := midpoints_around nonzero
  obtain ⟨low, high, odd⟩ := readsFrom_iff.mp reads
  change magnitude.lowQuarters * magnitude.step ≤ _ at low
  change _ ≤ magnitude.highQuarters * magnitude.step at high
  change _ → magnitude.lowQuarters * magnitude.step ≠ _ ∧
    _ ≠ magnitude.highQuarters * magnitude.step at odd
  refine readsFrom_iff.mpr ⟨?_, ?_, fun isOdd => ?_⟩
  · change magnitude.lowQuarters * magnitude.step ≤ _
    omega
  · change _ ≤ magnitude.highQuarters * magnitude.step
    omega
  · have := odd isOdd
    change magnitude.lowQuarters * magnitude.step ≠ _ ∧
      _ ≠ magnitude.highQuarters * magnitude.step
    omega

include nonzero in
/-- If a point of a grid reads back, the search has a hit there. -/
theorem exists_onGrid?_eq {other grid : Nat} (reads : magnitude.readsFrom other grid = true) :
    ∃ count, magnitude.onGrid? grid = some count := by
  have widthPositive : 0 < power 10 grid := power_pos grid (by decide)
  have split := Nat.div_add_mod' magnitude.decimalUnits (power 10 grid)
  have small := Nat.mod_lt magnitude.decimalUnits widthPositive
  have neighbour : magnitude.readsFrom (magnitude.decimalUnits / power 10 grid) grid = true ∨
      magnitude.readsFrom (magnitude.decimalUnits / power 10 grid + 1) grid = true := by
    rcases Nat.lt_or_ge (magnitude.decimalUnits / power 10 grid) other with above | below
    · have least := Nat.mul_le_mul_right (power 10 grid) (Nat.succ_le_of_lt above)
      rw [Nat.succ_eq_add_one] at least
      refine Or.inr (readsFrom_of_between nonzero reads (Or.inr ⟨?_, least⟩))
      rw [Nat.succ_mul]
      omega
    · have most := Nat.mul_le_mul_right (power 10 grid) below
      exact Or.inl (readsFrom_of_between nonzero reads (Or.inl ⟨most, by omega⟩))
  unfold onGrid?
  simp only
  split
  · exact ⟨_, rfl⟩
  · exact ⟨_, rfl⟩
  · exact ⟨_, rfl⟩
  · next notBelow notAbove =>
    rw [notBelow, notAbove] at neighbour
    exact absurd neighbour (by decide)

/-- A hit reads back. -/
theorem readsFrom_of_onGrid? {count grid : Nat} (hit : magnitude.onGrid? grid = some count) :
    magnitude.readsFrom count grid = true := by
  simp only [onGrid?] at hit
  split at hit
  · next below above =>
    obtain rfl := Option.some.inj hit
    split
    · exact below
    · exact above
  · next below _ =>
    obtain rfl := Option.some.inj hit
    exact below
  · next _ above =>
    obtain rfl := Option.some.inj hit
    exact above
  · cases hit

include nonzero in
/-- On the finest grid the number itself is the hit. -/
theorem onGrid?_zero : magnitude.onGrid? 0 = some magnitude.decimalUnits := by
  have reads := readsFrom_decimalUnits nonzero
  have nearer : 2 * (magnitude.decimalUnits % 1) < 1 := by
    rw [Nat.mod_one]
    decide
  cases above : magnitude.readsFrom (magnitude.decimalUnits + 1) 0 <;>
    simp only [onGrid?, power_zero, Nat.div_one, reads, above, nearer, decide_true, if_true]

end Reads

/-! ### Where the search ends -/

/-- A hit on a grid, where there is none on the coarser grids from the start on. -/
structure FirstHit (magnitude : Magnitude) (start count grid : Nat) : Prop where
  hit : magnitude.onGrid? grid = some count
  silent : ∀ coarser, grid < coarser → coarser ≤ start → magnitude.onGrid? coarser = none

section Search

variable {magnitude : Magnitude} (nonzero : magnitude.mantissa ≠ 0)

include nonzero in
/-- The search ends with the first hit. -/
theorem firstHit_shortestFrom (start : Nat) :
    FirstHit magnitude start (magnitude.shortestFrom start).1 (magnitude.shortestFrom start).2 := by
  induction start with
  | zero =>
    rw [shortestFrom]
    exact ⟨onGrid?_zero nonzero, fun coarser finer most => absurd finer (Nat.not_lt.mpr most)⟩
  | succ start inductionHypothesis =>
    cases found : magnitude.onGrid? (start + 1) with
    | some count =>
      have ends : magnitude.shortestFrom (start + 1) = (count, start + 1) := by
        rw [shortestFrom, found]
      rw [ends]
      exact ⟨found, fun coarser finer most => absurd finer (Nat.not_lt.mpr most)⟩
    | none =>
      have goesOn : magnitude.shortestFrom (start + 1) = magnitude.shortestFrom start := by
        rw [shortestFrom, found]
      rw [goesOn]
      refine ⟨inductionHypothesis.hit, fun coarser finer most => ?_⟩
      rcases Nat.lt_or_eq_of_le most with further | rfl
      · exact inductionHypothesis.silent coarser finer (Nat.le_of_lt_succ further)
      · exact found

namespace FirstHit

variable {count grid : Nat}

include nonzero in
/-- A search that is not begun too late ends no finer than on a grid with a point that reads back. -/
theorem le_grid {start : Nat} (first : FirstHit magnitude start count grid) {other fine : Nat}
    (reads : magnitude.readsFrom other fine = true) (begun : fine ≤ start) : fine ≤ grid := by
  by_contra finer
  obtain ⟨count, hit⟩ := exists_onGrid?_eq nonzero reads
  rw [first.silent fine (Nat.lt_of_not_le finer) begun] at hit
  cases hit

include nonzero in
/-- What is found first does not end in a zero. -/
theorem mod_ten_ne_zero (first : FirstHit magnitude magnitude.coarsestGrid count grid) :
    count % 10 ≠ 0 := by
  intro zero
  obtain ⟨tenth, rfl⟩ := Nat.dvd_of_mod_eq_zero zero
  have reads := readsFrom_of_onGrid? first.hit
  have coarser : magnitude.readsFrom tenth (grid + 1) = true := by
    have covers := readsFrom_iff.mp reads
    refine readsFrom_iff.mpr ?_
    rwa [power_succ, ← Nat.mul_assoc, Nat.mul_right_comm, Nat.mul_comm tenth 10]
  have begun := le_coarsestGrid nonzero coarser
  have last := first.le_grid nonzero coarser begun
  omega

end FirstHit

/-- The text of what is not zero is its first hit, which has places after the point or has none. -/
theorem exists_shortestText (nonzero : magnitude.mantissa ≠ 0) :
    ∃ count grid, FirstHit magnitude magnitude.coarsestGrid count grid ∧
      ((grid < finestPlaces ∧
          magnitude.shortestText = Decimal.pointed (finestPlaces - grid) count) ∨
        (finestPlaces ≤ grid ∧
          magnitude.shortestText = Decimal.digits (count * power 10 (grid - finestPlaces)))) := by
  have first := firstHit_shortestFrom nonzero magnitude.coarsestGrid
  unfold shortestText
  generalize magnitude.shortestFrom magnitude.coarsestGrid = found at first ⊢
  obtain ⟨count, grid⟩ := found
  refine ⟨count, grid, first, ?_⟩
  by_cases fine : grid < finestPlaces
  · refine Or.inl ⟨fine, ?_⟩
    simp only [nonzero, fine, if_true, if_false]
  · refine Or.inr ⟨Nat.le_of_not_lt fine, ?_⟩
    simp only [nonzero, fine, if_false]

end Search

end Magnitude

end AtomicCss
