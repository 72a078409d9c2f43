/-
The built-in generator: from a declaration to the class that says the same. The kind of the
property decides how the value is put behind its stem. A value with no short form stands in
brackets, and a property with no stem stands in the brackets together with its value, so every
declaration has a class.

Numbers keep the unit they were authored in, except that in rem mode a length in pixels is divided
by four, the scale in which rem classes count.
-/

import AtomicCss.Generator.Parts
import AtomicCss.Generator.Property
import AtomicCss.Number.Numeral

namespace AtomicCss

/-- A class generator: from a declaration `property: value` and the rem mode to the classes that
stand for it, the best one first. -/
abbrev Generator := (declaration : Text) → (isRem : Bool) → List Text

namespace Generator

/-- The class that a transformation takes, empty if the generator has none. -/
def best (generator : Generator) (declaration : Text) (isRem : Bool) : Text :=
  ((generator declaration isRem).head?).getD []

end Generator

namespace BuiltIn

/-! ### Shapes of classes -/

def hyphenated (stem body : Text) : Text :=
  stem ++ '-' :: body

def inBrackets (body : Text) : Text :=
  '[' :: body ++ [']']

/-- The class of a declaration that has no shorter one. -/
def arbitrary (property value : Text) : Text :=
  inBrackets (property ++ ':' :: value.underscored)

/-! ### Lengths -/

/-- A numeral with a unit behind it, letters or a percent sign. -/
def dimension? (value : Text) : Option Numeral :=
  match Numeral.readLoose? value with
  | some (_, []) => none
  | some (numeral, rest) =>
    if rest = ['%'] ∨ rest.all Char.isAlpha then some numeral else none
  | none => none

/-- A numeral with the unit of pixels. -/
def pixels? (value : Text) : Option Numeral :=
  (Text.before? "px".toList value).bind Numeral.ofText?

/-- A quarter of a number of pixels, the length in the scale of rem classes. -/
def quarter (numeral : Numeral) : Text :=
  (numeral.value / Binary64.ofNat 4).roundedText

/-- What stands behind the stem for a length without a sign. A length of zero needs no unit. -/
def lengthBody (value : Text) (isRem : Bool) : Text :=
  match pixels? value with
  | some numeral =>
    if numeral.value.isZero then ['0']
    else if isRem then quarter numeral
    else numeral.text ++ "px".toList
  | none =>
    if (Numeral.ofText? value).isSome then value
    else if (dimension? value).any (·.value.isZero) then ['0']
    else inBrackets value.underscored

/-- A minus sign moves from the number to the front of the class, and is dropped from a zero. -/
def negativeLength (stem magnitude : Text) (isRem : Bool) : Text :=
  let body := lengthBody magnitude isRem
  if body = ['0'] then hyphenated stem body else '-' :: hyphenated stem body

/-- Several lengths stand in brackets together. Where no minus sign may precede the stem, a
negative value stands in brackets as it is. -/
def lengthClass (stem value : Text) (isRem : Bool) : Text :=
  if value.parts.length ≠ 1 then hyphenated stem (inBrackets value.underscored)
  else
    match value with
    | '-' :: magnitude =>
      if Property.negatableStems.contains stem then negativeLength stem magnitude isRem
      else hyphenated stem (inBrackets value)
    | _ => hyphenated stem (lengthBody value isRem)

/-! ### Colors -/

def colorClass (stem value : Text) : Text :=
  match Property.colorKeywords.lookup value.lowerAscii with
  | some keyword => hyphenated stem keyword
  | none => hyphenated stem (inBrackets value.compact)

/-! ### Borders -/

/-- The value without a minus sign in front. -/
def unsigned : Text → Text
  | '-' :: rest => rest
  | value => value

/-- Whether a value is a numeral with or without a unit and a sign. -/
def isLength (value : Text) : Bool :=
  (Numeral.ofText? (unsigned value)).isSome || (dimension? (unsigned value)).isSome

/-- The class of one part of a border's value. -/
def borderPart (stem part : Text) (isRem : Bool) : Text :=
  let keyword := part.lowerAscii
  if Property.borderStyles.contains keyword then hyphenated stem keyword
  else if Property.borderWidths.contains keyword then hyphenated stem (inBrackets keyword)
  else if isLength part then lengthClass stem part isRem
  else colorClass stem part

/-- One class for each part, with a space between two of them. -/
def borderClasses (stem value : Text) (isRem : Bool) : Text :=
  Text.join [' '] (value.parts.map fun part => borderPart stem part isRem)

/-! ### Single properties -/

/-- An opacity up to one is written in percent. -/
def opacityClass (value : Text) : Text :=
  let stem := "op".toList
  match Numeral.ofText? value with
  | some numeral =>
    if numeral.value.le (Binary64.ofNat 1) then
      hyphenated stem (numeral.value * Binary64.ofNat 100).roundedText
    else hyphenated stem (inBrackets value.underscored)
  | none => hyphenated stem (inBrackets value.underscored)

/-- Whether a text is a run of digits. -/
def isWhole (text : Text) : Bool :=
  !text.isEmpty && text.all Char.isDigit

def layerClass (value : Text) : Text :=
  if value = "auto".toList then "z-auto".toList
  else if isWhole (unsigned value) then
    match value with
    | '-' :: magnitude => "-z-".toList ++ magnitude
    | _ => "z-".toList ++ value
  else arbitrary "z-index".toList value

def fontWeightClass (value : Text) : Text :=
  if value.all Char.isAlphanum then hyphenated "font".toList value.lowerAscii
  else arbitrary "font-weight".toList value

/-- The values that stand for a whole set of factors. -/
def flexKeywords : List Text :=
  ["1".toList, "auto".toList, "none".toList, "initial".toList]

def flexClass (value : Text) : Text :=
  let stem := "flex".toList
  if flexKeywords.contains value then hyphenated stem value
  else hyphenated stem (inBrackets value.underscored)

/-- A factor of one is the stem alone. -/
def flexFactorClass (stem value : Text) : Text :=
  if value = ['1'] then stem
  else if value = ['0'] then hyphenated stem value
  else hyphenated stem (inBrackets value.underscored)

/-! ### Declarations -/

/-- The class of a value that is not empty, for a property in small letters. A border has several
classes in one text. -/
def classOf (property value : Text) (isRem : Bool) : Text :=
  match Property.kind property with
  | .keyword classes => (classes.lookup value.lowerAscii).getD (arbitrary property value)
  | .border stem => borderClasses stem value isRem
  | .length stem => lengthClass stem value isRem
  | .color stem => colorClass stem value
  | .opacity => opacityClass value
  | .layer => layerClass value
  | .fontWeight => fontWeightClass value
  | .flex => flexClass value
  | .flexFactor stem => flexFactorClass stem value
  | .other => arbitrary property value

/-- What precedes and what follows the first colon. -/
def splitColon? : Text → Option (Text × Text)
  | [] => none
  | ':' :: rest => some ([], rest)
  | char :: rest => (splitColon? rest).map fun (lead, after) => (char :: lead, after)

def importantMark : Text := "!important".toList

/-- The value without the mark that it is important, and whether it had the mark. -/
def splitImportant (value : Text) : Text × Bool :=
  match Text.before? importantMark value with
  | some rest => (rest.trimEnd, true)
  | none => (value, false)

/-- A mark in front of every class of a text. -/
def markImportant (classes : Text) : Text :=
  '!' :: classes.flatMap fun char => if char = ' ' then [' ', '!'] else [char]

/-- One class text for a declaration with a property and a value, and none for what lacks
either. -/
def generate : Generator := fun declaration isRem =>
  match splitColon? declaration with
  | none => []
  | some (property, value) =>
    let property := property.trim.lowerAscii
    let (value, important) := splitImportant value.trim
    if property.isEmpty || value.isEmpty then []
    else
      let classes := classOf property value isRem
      [if important then markImportant classes else classes]

end BuiltIn

end AtomicCss
