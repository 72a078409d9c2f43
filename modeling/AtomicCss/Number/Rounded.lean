/-
The text of a computed number inside a class name. A product or quotient of lengths is rounded to
six places, and a result that is no more than one unit of the sixth place away from a whole number
is written as that whole number, so that the noise of binary arithmetic leaves no trace in a class.
-/

import AtomicCss.Number.Shortest

namespace AtomicCss

namespace Binary64

/-! ### Six places -/

/-- The number of units of the sixth place in one. -/
def million : Binary64 := ofNat 1000000

/-- The number in units of the sixth place, rounded, and scaled back. -/
def toSixPlaces (number : Binary64) : Binary64 :=
  round (number * million) / million

/-- The distance in units of the sixth place up to which a number passes for a whole one. The
addend covers the error of measuring the distance. -/
def snapDistance : Binary64 := ofNat 1 + ofRatio 1 1000000

/-- Whether a number passes for the whole number given with it. -/
def passesFor (number whole : Binary64) : Bool :=
  le (abs ((number - whole) * million)) snapDistance

/-! ### The text -/

/-- The digits of a whole number, with a sign if it is below zero. -/
def integerText (number : Int) : Text :=
  (if number < 0 then ['-'] else []) ++ Decimal.digits number.natAbs

/-- Behind a point, zeros at the end are dropped, and a point with nothing left behind it. -/
def withoutFinalZeros (text : Text) : Text :=
  if '.' ∈ text then Text.trimEndOf '.' (Text.trimEndOf '0' text) else text

def roundedText (number : Binary64) : Text :=
  let rounded := number.toSixPlaces
  let whole := round rounded
  if rounded.passesFor whole then integerText whole.toWord
  else withoutFinalZeros rounded.shortestText

end Binary64

end AtomicCss
