/-
JSON values. A number keeps its spelling, because the only numbers of interest are counts, and a
count is a spelling without a sign, a point or an exponent. A string is either a text or no text at
all: an escape may name half of a surrogate pair without the other half, which JSON's grammar
permits and no text contains. Such a string may be skipped over but not read.
-/

import AtomicCss.Number.Decimal

namespace AtomicCss

/-- A value with its members in the order of the document. A string or a key is `none` when its
escapes name an unpaired surrogate. -/
inductive Json where
  | null
  | bool (value : Bool)
  | number (spelling : Text)
  | string (text : Option Text)
  | array (items : List Json)
  | object (members : List (Option Text × Json))

namespace Json

/-! ### Making values -/

def ofText (text : Text) : Json :=
  string (some text)

def ofNat (count : Nat) : Json :=
  number (Decimal.digits count)

def ofOption {Value : Type} (encode : Value → Json) : Option Value → Json
  | none => null
  | some value => encode value

def record (members : List (Text × Json)) : Json :=
  object (members.map fun (key, value) => (some key, value))

/-! ### Reading values -/

def text? : Json → Option Text
  | string text => text
  | _ => none

def bool? : Json → Option Bool
  | bool value => some value
  | _ => none

/-- The least number that no unsigned word of 64 bits holds, `2 ^ 64`. -/
def countLimit : Nat := 18446744073709551616

/-- A whole number below the limit that is spelt with digits alone. -/
def count? : Json → Option Nat
  | number spelling =>
    if spelling.all Char.isDigit ∧ Decimal.value spelling < countLimit then
      some (Decimal.value spelling)
    else none
  | _ => none

/-- The elements of an array, each read by the same rule. -/
def list? {Value : Type} (read? : Json → Option Value) : Json → Option (List Value)
  | array items => items.mapM read?
  | _ => none

/-- The value of an optional entry: null stands for none. -/
def optional? {Value : Type} (read? : Json → Option Value) : Json → Option (Option Value)
  | null => some none
  | value => (read? value).map some

end Json

end AtomicCss
