/-
The tokens of a JSON document. Cutting a document into tokens is a scan: a token is recognised as
a whole, and every character that belongs to no token has to be one of the four blanks. Tokens that
touch each other without a separator are no fault here; where two values stand side by side the
grammar refuses them.
-/

import AtomicCss.Json.Basic
import AtomicCss.Text.Scan

namespace AtomicCss

namespace Json

inductive Token where
  | openArray
  | closeArray
  | openObject
  | closeObject
  | comma
  | colon
  | null
  | bool (value : Bool)
  | number (spelling : Text)
  | string (text : Option Text)
  deriving DecidableEq

/-! ### Strings -/

/-- A unit of a string's content: a character, or half of a surrogate pair that an escape names. -/
inductive StringUnit where
  | char (char : Char)
  | surrogate (code : Nat)
  deriving DecidableEq

def hexDigit? (char : Char) : Option Nat :=
  if char.isDigit then some (char.toNat - '0'.toNat)
  else if 'a' ≤ char ∧ char ≤ 'f' then some (char.toNat - 'a'.toNat + 10)
  else if 'A' ≤ char ∧ char ≤ 'F' then some (char.toNat - 'A'.toNat + 10)
  else none

/-- The number that four hexadecimal digits spell. -/
def hexCode? (first second third fourth : Char) : Option Nat := do
  let first ← hexDigit? first
  let second ← hexDigit? second
  let third ← hexDigit? third
  let fourth ← hexDigit? fourth
  return ((first * 16 + second) * 16 + third) * 16 + fourth

def isSurrogate (code : Nat) : Bool :=
  decide (0xD800 ≤ code) && decide (code < 0xE000)

def unitOfCode (code : Nat) : StringUnit :=
  if isSurrogate code then .surrogate code else .char (Char.ofNat code)

/-- What a backslash with one character behind it stands for. -/
def shortEscape? : Char → Option Char
  | '"' => some '"'
  | '\\' => some '\\'
  | '/' => some '/'
  | 'b' => some '\x08'
  | 'f' => some '\x0C'
  | 'n' => some '\n'
  | 'r' => some '\r'
  | 't' => some '\t'
  | _ => none

/-- The text of a string from behind its opening quote through its closing one, and the units of
its content. A control character has to be escaped. -/
def readUnits? : Text → Option (Text × List StringUnit)
  | [] => none
  | '"' :: _ => some (['"'], [])
  | '\\' :: 'u' :: first :: second :: third :: fourth :: rest => do
    let code ← hexCode? first second third fourth
    let (source, units) ← readUnits? rest
    return ('\\' :: 'u' :: first :: second :: third :: fourth :: source, unitOfCode code :: units)
  | '\\' :: escaped :: rest => do
    let char ← shortEscape? escaped
    let (source, units) ← readUnits? rest
    return ('\\' :: escaped :: source, .char char :: units)
  | char :: rest =>
    if char = '\\' ∨ char.toNat < 0x20 then none
    else (readUnits? rest).map fun (source, units) => (char :: source, .char char :: units)

/-- The text that units spell, with each surrogate pair joined to one character; none if a half
stands without its partner. -/
def textOfUnits? : List StringUnit → Option Text
  | [] => some []
  | .char char :: rest => (textOfUnits? rest).map (char :: ·)
  | .surrogate high :: .surrogate low :: rest =>
    if high < 0xDC00 ∧ 0xDC00 ≤ low then
      (textOfUnits? rest).map
        (Char.ofNat (0x10000 + (high - 0xD800) * 0x400 + (low - 0xDC00)) :: ·)
    else none
  | .surrogate _ :: _ => none

/-! ### Numbers -/

/-- A sign in front of the digits of an exponent, if there is one. -/
def readSign : Text → Text × Text
  | '+' :: rest => (['+'], rest)
  | '-' :: rest => (['-'], rest)
  | text => ([], text)

/-- The digits before the point: a zero alone, or digits that do not start with one. -/
def readWhole? : Text → Option (Text × Text)
  | '0' :: rest => some (['0'], rest)
  | text =>
    match Text.span Char.isDigit text with
    | ([], _) => none
    | (digits, rest) => some (digits, rest)

/-- A point with digits behind it; nothing is taken where no digit follows. -/
def readPlaces : Text → Text × Text
  | '.' :: rest =>
    match Text.span Char.isDigit rest with
    | ([], _) => ([], '.' :: rest)
    | (digits, rest) => ('.' :: digits, rest)
  | text => ([], text)

/-- An exponent with its digits; nothing is taken where no digit follows. -/
def readExponent (text : Text) : Text × Text :=
  match text with
  | mark :: rest =>
    if mark = 'e' ∨ mark = 'E' then
      let (sign, rest) := readSign rest
      match Text.span Char.isDigit rest with
      | ([], _) => ([], text)
      | (digits, rest) => (mark :: sign ++ digits, rest)
    else ([], text)
  | [] => ([], [])

/-- The spelling of a number, its sign set aside. -/
def readUnsigned? (text : Text) : Option (Text × Text) := do
  let (whole, rest) ← readWhole? text
  let (places, rest) := readPlaces rest
  let (exponent, rest) := readExponent rest
  return (whole ++ places ++ exponent, rest)

def readNumber? : Text → Option (Text × Text)
  | '-' :: rest => (readUnsigned? rest).map fun (spelling, rest) => ('-' :: spelling, rest)
  | text => readUnsigned? text

/-! ### Tokens -/

/-- A word together with the token that it is. -/
def words : List (Text × Token) :=
  [("null".toList, .null), ("true".toList, .bool true), ("false".toList, .bool false)]

def readWord? (text : Text) : Option (Text × Token) :=
  words.find? fun (word, _) => (Text.after? word text).isSome

namespace Token

def matcher : Matcher Token := fun _ text =>
  match text with
  | '[' :: _ => some (['['], openArray)
  | ']' :: _ => some ([']'], closeArray)
  | '\x7b' :: _ => some (['\x7b'], openObject)
  | '\x7d' :: _ => some (['\x7d'], closeObject)
  | ',' :: _ => some ([','], comma)
  | ':' :: _ => some ([':'], colon)
  | '"' :: rest =>
    (readUnits? rest).map fun (source, units) => ('"' :: source, string (textOfUnits? units))
  | text =>
    match readNumber? text with
    | some (spelling, _) => some (spelling, number spelling)
    | none => readWord? text

end Token

/-! ### Documents -/

/-- The blanks that may stand between tokens. -/
def isSpace (char : Char) : Bool :=
  char == ' ' || char == '\t' || char == '\n' || char == '\r'

/-- The tokens among the pieces of a document, provided that nothing but blanks lies between
them. -/
def tokensOfPieces? : List (Piece Token) → Option (List Token)
  | [] => some []
  | .copied char :: rest => if isSpace char then tokensOfPieces? rest else none
  | .matched _ token :: rest => (tokensOfPieces? rest).map (token :: ·)

def tokens? (document : Text) : Option (List Token) :=
  tokensOfPieces? (Token.matcher.pieces document)

end Json

end AtomicCss
