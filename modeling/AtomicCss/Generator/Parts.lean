/-
The parts of a style value: the stretches between blanks, where a blank inside parentheses does not
separate. A closing parenthesis too many leaves the count below zero, and blanks separate there as
well.
-/

import AtomicCss.Text.Blank
import AtomicCss.Text.Nesting

namespace AtomicCss

namespace Parts

/-- Whether a character separates two parts at this depth. -/
def separates (depth : Int) (char : Char) : Bool :=
  isBlank char && decide (depth ≤ 0)

/-- The stretches between separating blanks, some of which may be empty; never none at all. -/
def stretches : (depth : Int) → Text → List Text
  | _, [] => [[]]
  | depth, char :: rest =>
    if separates depth char then [] :: stretches depth rest
    else
      match stretches (depthAfter depth char) rest with
      | [] => [[char]]
      | first :: more => (char :: first) :: more

end Parts

namespace Text

/-- The parts of a value, none of them empty. -/
def parts (value : Text) : List Text :=
  (Parts.stretches 0 value).filter (!·.isEmpty)

end Text

end AtomicCss
