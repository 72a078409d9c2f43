/-
The numbers inside a generated class, brought to the scale of the class names. The generator writes
lengths as they were authored, with their unit; a class name counts in a scale of its own. Six
passes follow each other: a border width is multiplied by four, on all sides and on one; a padding
in pixels and then any other number of pixels loses its unit; a number alone in brackets loses the
brackets; and, unless the value was in pixels, a padding without a unit is multiplied by four.

Every pass is one sweep over the class, and what a pass wrote is seen only by the next one.
-/

import AtomicCss.Number.Numeral
import AtomicCss.Text.Scan

namespace AtomicCss

namespace ClassNumber

/-! ### Boundaries -/

/-- Whether a word may start behind the character, or at the start of the text. -/
def startsWord : Option Char → Bool
  | none => true
  | some char => !isWordChar char

/-- A number of the value scale in the scale of the class names. -/
def quadrupled (numeral : Numeral) : Text :=
  (numeral.value * Binary64.ofNat 4).roundedText

/-! ### Border widths -/

/-- A numeral behind a stem, not carried on by what follows it, is quadrupled. -/
def quadruple? (stem text : Text) : Option (Text × Text) :=
  (Numeral.readGuarded? text).map fun numeral => (stem ++ numeral.text, stem ++ quadrupled numeral)

def borderStem : Text := "border-".toList

def border : Matcher Text := fun before text =>
  if startsWord before then
    (Text.after? borderStem text).bind (quadruple? borderStem)
  else none

/-- The letters that single out sides of a border. -/
def isBorderSide (char : Char) : Bool :=
  "xylrtb".toList.contains char

def borderSide : Matcher Text := fun before text =>
  if startsWord before then
    match Text.after? borderStem text with
    | some (side :: '-' :: rest) =>
      if isBorderSide side then quadruple? (borderStem ++ [side, '-']) rest else none
    | _ => none
  else none

/-! ### Paddings -/

/-- The letters that single out sides of a padding. -/
def isPaddingSide (char : Char) : Bool :=
  "trblxy".toList.contains char

/-- The stem of a padding class with its hyphen, and what follows. What stands before it is not
looked at. -/
def readPaddingStem? : Text → Option (Text × Text)
  | 'p' :: '-' :: rest => some (['p', '-'], rest)
  | 'p' :: side :: '-' :: rest =>
    if isPaddingSide side then some (['p', side, '-'], rest) else none
  | _ => none

def pixelUnit : Text := "px".toList

/-- A numeral with the unit of pixels behind it, at the end of a word, and the text of both. -/
def readPixels? (text : Text) : Option (Numeral × Text) := do
  let (numeral, rest) ← Numeral.read? text
  let rest ← Text.after? pixelUnit rest
  if Text.stops isWordChar rest then some (numeral, numeral.text ++ pixelUnit) else none

/-- A padding in pixels keeps its number. -/
def paddingPixels : Matcher Text := fun _ text => do
  let (stem, rest) ← readPaddingStem? text
  let (numeral, source) ← readPixels? rest
  return (stem ++ source, stem ++ (numeral.value * Binary64.ofNat 1).roundedText)

/-- A padding without a unit is quadrupled. -/
def padding : Matcher Text := fun _ text => do
  let (stem, rest) ← readPaddingStem? text
  quadruple? stem rest

/-! ### Units and brackets -/

/-- A number of pixels, with its sign, keeps its spelling and loses its unit. -/
def pixels : Matcher Text := fun _ text =>
  match text with
  | '-' :: rest =>
    (readPixels? rest).map fun (numeral, source) => ('-' :: source, '-' :: numeral.text)
  | text => (readPixels? text).map fun (numeral, source) => (source, numeral.text)

/-- A number alone in brackets loses them. -/
def bracketed : Matcher Text := fun _ text =>
  match text with
  | '[' :: rest =>
    match Numeral.read? rest with
    | some (numeral, ']' :: _) => some ('[' :: numeral.text ++ [']'], numeral.text)
    | _ => none
  | _ => none

/-! ### All passes -/

/-- The passes that every class goes through. -/
def commonPasses : List (Matcher Text) :=
  [border, borderSide, paddingPixels, pixels, bracketed]

/-- The passes for a class whose value holds a length in pixels or not. -/
def passes (hasPx : Bool) : List (Matcher Text) :=
  if hasPx then commonPasses else commonPasses ++ [padding]

/-- The class with its numbers in the scale of the class names. -/
def normalize (name : Text) (hasPx : Bool) : Text :=
  (passes hasPx).foldl (fun current pass => pass.replaceAll current) name

end ClassNumber

end AtomicCss
