/-
Whole numbers in decimal digits. Writing a number and reading a run of digits back are inverse to
each other on the canonical digit strings; reading also accepts zeros in front.
-/

import AtomicCss.Number.Power
import AtomicCss.Text.Basic

namespace AtomicCss

namespace Decimal

/-- The decimal digits of a number, without zeros in front; zero is a single digit. -/
def digits (number : Nat) : Text :=
  Nat.toDigits 10 number

/-- The number that a run of digits stands for. -/
def value (text : Text) : Nat :=
  text.foldl (fun total char => 10 * total + (char.toNat - '0'.toNat)) 0

/-- The digits of a number of at least `width` places, filled up with zeros in front. -/
def padded (width number : Nat) : Text :=
  List.replicate (width - (digits number).length) '0' ++ digits number

/-- The text of a number of units of the last of `places` decimal places, every place after the
point written out; with no places there is no point. -/
def pointed (places number : Nat) : Text :=
  if places = 0 then digits number
  else
    digits (number / power 10 places) ++ '.' :: padded places (number % power 10 places)

end Decimal

end AtomicCss
