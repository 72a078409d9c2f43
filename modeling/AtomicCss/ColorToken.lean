/-
Color tokens. A design names its colors by variables, and a closed list of rules says which
variables have a token and what it is called. A rule holds for a whole name, with one pair of
hyphens in front set aside and letter case ignored. Some rules stand for a family of variables that
are told apart by a number, and the digits of the number pass into the token as they are.
-/

import AtomicCss.Text.Case

namespace AtomicCss

namespace ColorToken

/-! ### Rules -/

inductive Rule where
  /-- The variables `stem` with a number behind, and the tokens `family` with that number. -/
  | indexed (stem family : Text)
  /-- A single variable and its token. -/
  | fixed (name token : Text)
  deriving DecidableEq

/-- The rules in the order in which they are tried. -/
def rules : List Rule :=
  [ .indexed "background-bg".toList "bg".toList,
    .indexed "text-symbol-text-".toList "text".toList,
    .indexed "text-".toList "text".toList,
    .fixed "norm-brand_pink".toList "brand_pink".toList,
    .fixed "norm-brand_blue".toList "brand_blue".toList,
    .fixed "line-line_light".toList "line_light".toList ]

namespace Rule

/-- The rule's pattern in the usual notation of regular expressions. -/
def pattern : Rule → Text
  | indexed stem _ => '^' :: stem ++ "([0-9]+)$".toList
  | fixed name _ => '^' :: name ++ ['$']

/-- The token that a rule gives to a name whose letters have been folded. -/
def token? (rule : Rule) (name : Text) : Option Text :=
  match rule with
  | indexed stem family =>
    match Text.after? stem name with
    | some (first :: more) =>
      if (first :: more).all Char.isDigit then some (family ++ '_' :: first :: more) else none
    | _ => none
  | fixed expected token => if name = expected then some token else none

end Rule

/-! ### Resolving a name -/

/-- The name without the two hyphens that a variable starts with; only the first pair is taken. -/
def bareName (name : Text) : Text :=
  (Text.after? ['-', '-'] name).getD name

/-- The token of a variable by the first of these rules that knows it. -/
def resolveBy? (rules : List Rule) (name : Text) : Option Text :=
  rules.findSome? (·.token? ((bareName name).map foldChar))

def resolve? : (name : Text) → Option Text :=
  resolveBy? rules

end ColorToken

end AtomicCss
