/-
Decimal numerals as they stand in style values and class names: ASCII digits, with or without a
point followed by more of them. No sign and no exponent belongs to a numeral. A numeral keeps its
spelling, since most stages hand it on untouched; its value is the nearest binary64 number.
-/

import AtomicCss.Number.Rounded

namespace AtomicCss

/-- The digits before the point, and those after it if there is one. -/
structure Numeral where
  whole : Text
  fraction : Option Text
  deriving DecidableEq

namespace Numeral

/-! ### Spelling and value -/

def text (numeral : Numeral) : Text :=
  match numeral.fraction with
  | none => numeral.whole
  | some digits => numeral.whole ++ '.' :: digits

/-- The digits after the point, none if there is no point. -/
def places (numeral : Numeral) : Text :=
  numeral.fraction.getD []

def value (numeral : Numeral) : Binary64 :=
  Binary64.ofRatio (Decimal.value (numeral.whole ++ numeral.places))
    (power 10 numeral.places.length)

/-- The numeral without its fraction. -/
def integerPart (numeral : Numeral) : Numeral :=
  ⟨numeral.whole, none⟩

/-! ### Reading -/

/-- A point with at least one digit behind it, and what follows. -/
def readFraction? : Text → Option (Text × Text)
  | '.' :: rest =>
    match Text.span Char.isDigit rest with
    | ([], _) => none
    | (digits, rest) => some (digits, rest)
  | _ => none

/-- The longest numeral at the start of a text, and what follows it. A point belongs to it only
with a digit behind. -/
def read? (text : Text) : Option (Numeral × Text) :=
  match Text.span Char.isDigit text with
  | ([], _) => none
  | (whole, rest) =>
    match readFraction? rest with
    | some (digits, rest) => some (⟨whole, some digits⟩, rest)
    | none => some (⟨whole, none⟩, rest)

/-- Like `read?`, but the digits before a point may be missing. -/
def readLoose? (text : Text) : Option (Numeral × Text) :=
  match read? text with
  | some result => some result
  | none => (readFraction? text).map fun (digits, rest) => (⟨[], some digits⟩, rest)

/-- The numeral that makes up the whole of a text; the digits before a point may be missing. -/
def ofText? (text : Text) : Option Numeral :=
  match readLoose? text with
  | some (numeral, []) => some numeral
  | _ => none

/-- The numeral at the start of a text, provided that no letter, digit, underscore or hyphen
carries it on. If the whole numeral is carried on, its digits before the point still count, since a
point stops them. -/
def readGuarded? (text : Text) : Option Numeral :=
  match read? text with
  | none => none
  | some (numeral, rest) =>
    if Text.stops isNameChar rest then some numeral
    else if numeral.fraction.isSome then some numeral.integerPart
    else none

end Numeral

end AtomicCss
