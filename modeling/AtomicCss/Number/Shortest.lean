/-
The shortest decimal text of a binary64 number: of all decimals that read back as the number, the
ones with the fewest digits, and of those the nearest. A number reads back from every decimal
between the midpoints to its two neighbours, ends included when its mantissa is even.

A finite magnitude is a whole number of units of `10 ^ (-1074)`, so the search runs on natural
numbers: from coarse to fine, each power of ten is a grid, and the first grid with a point in the
interval holds the answer. If any point of a grid lies in the interval, one of the two points
around the number does, so no more than two are tried. On the finest grid the number itself is a
point.
-/

import AtomicCss.Number.Binary64
import AtomicCss.Number.Decimal

namespace AtomicCss

namespace Magnitude

/-! ### The interval that reads back -/

/-- The places after the point that any magnitude can be written out in. -/
def finestPlaces : Nat := 1074

/-- The magnitude in units of `10 ^ (-finestPlaces)`. -/
def decimalUnits (magnitude : Magnitude) : Nat :=
  magnitude.quanta * power 5 finestPlaces

/-- The midpoint below, in quarters of the last binary place. Below a power of two the neighbour is
only half as far away. -/
def lowQuarters (magnitude : Magnitude) : Nat :=
  if magnitude.mantissa = leadingBit ∧ 0 < magnitude.scale then 4 * magnitude.mantissa - 1
  else 4 * magnitude.mantissa - 2

/-- The midpoint above, in quarters of the last binary place. -/
def highQuarters (magnitude : Magnitude) : Nat :=
  4 * magnitude.mantissa + 2

/-- Whether the decimal `count * 10 ^ grid` units reads back as the magnitude. -/
def readsFrom (magnitude : Magnitude) (count grid : Nat) : Bool :=
  let quarters := 4 * (count * power 10 grid)
  let place := power 2 magnitude.scale * power 5 finestPlaces
  let low := magnitude.lowQuarters * place
  let high := magnitude.highQuarters * place
  if magnitude.mantissa % 2 = 0 then decide (low ≤ quarters) && decide (quarters ≤ high)
  else decide (low < quarters) && decide (quarters < high)

/-! ### The search -/

/-- The point of a grid that reads back, the nearer one if two do; a tie goes up. -/
def onGrid? (magnitude : Magnitude) (grid : Nat) : Option Nat :=
  let below := magnitude.decimalUnits / power 10 grid
  let above := below + 1
  let belowIsNearer :=
    decide (2 * (magnitude.decimalUnits % power 10 grid) < power 10 grid)
  match magnitude.readsFrom below grid, magnitude.readsFrom above grid with
  | true, true => some (if belowIsNearer then below else above)
  | true, false => some below
  | false, true => some above
  | false, false => none

/-- The count and the grid of the first hit at this grid or a finer one. -/
def shortestFrom (magnitude : Magnitude) : (grid : Nat) → Nat × Nat
  | 0 => (magnitude.decimalUnits, 0)
  | grid + 1 =>
    match magnitude.onGrid? (grid + 1) with
    | some count => (count, grid + 1)
    | none => magnitude.shortestFrom grid

/-- A grid whose step is larger than the magnitude. -/
def coarsestGrid (magnitude : Magnitude) : Nat :=
  magnitude.decimalUnits.log2 / 3 + 1

def shortestText (magnitude : Magnitude) : Text :=
  if magnitude.mantissa = 0 then ['0']
  else
    let (count, grid) := magnitude.shortestFrom magnitude.coarsestGrid
    if grid < finestPlaces then Decimal.pointed (finestPlaces - grid) count
    else Decimal.digits (count * power 10 (grid - finestPlaces))

end Magnitude

/-! ### The text of a number -/

namespace Binary64

/-- A sign before what is negative, zero included, and never an exponent. -/
def shortestText : Binary64 → Text
  | nan => "NaN".toList
  | infinite negative => (if negative then ['-'] else []) ++ "inf".toList
  | finite negative magnitude => (if negative then ['-'] else []) ++ magnitude.shortestText

end Binary64

end AtomicCss
