/-
Letter case in full: a text is lowered and raised character by character through the tables, and a
character may become several. One rule looks at its surroundings, the capital sigma, whose small
form at the end of a word differs from the one inside it. A separate, narrower notion compares
names without regard to case: simple folding, under which two letters outside ASCII count as ASCII
letters, the long s and the Kelvin sign.
-/

import AtomicCss.Text.Basic
import AtomicCss.Text.CaseTable

namespace AtomicCss

/-! ### One character -/

namespace CaseRun

/-- The other case of a character, if it belongs to the run. -/
def map? (run : CaseRun) (char : Char) : Option Char :=
  let offset := char.toNat - run.first
  if run.first ≤ char.toNat ∧ char.toNat ≤ run.last ∧ offset % run.stride = 0 then
    some (Char.ofNat (run.target + offset))
  else
    none

end CaseRun

/-- The other case of a character by a table of single characters and one of longer forms; a
character in neither is its own other case. -/
def otherCase (runs : List CaseRun) (long : List (Nat × List Nat)) (char : Char) : Text :=
  match long.lookup char.toNat with
  | some codes => codes.map Char.ofNat
  | none => [(runs.findSome? (·.map? char)).getD char]

def lowerChar : Char → Text :=
  otherCase CaseTable.lowerRuns CaseTable.longLower

def upperChar : Char → Text :=
  otherCase CaseTable.upperRuns CaseTable.longUpper

def isCased (char : Char) : Bool :=
  CaseTable.cased.any (·.holds char)

def isCaseIgnorable (char : Char) : Bool :=
  CaseTable.ignorable.any (·.holds char)

/-! ### The sigma at the end of a word -/

/-- Whether the first character that is not skipped as part of a word's interior has a case. -/
def startsCased (text : Text) : Bool :=
  match text.dropWhile isCaseIgnorable with
  | [] => false
  | char :: _ => isCased char

/-- Whether a cased character lies just before, once `char` has been passed. -/
def casedAfter (casedBefore : Bool) (char : Char) : Bool :=
  if isCaseIgnorable char then casedBefore else isCased char

namespace Text

/-- The small letters of a text whose left neighbourhood ends in a cased letter or not. A capital
sigma with a cased letter before it and none after it ends its word. -/
def lowerFrom : (casedBefore : Bool) → Text → Text
  | _, [] => []
  | casedBefore, char :: rest =>
    let small :=
      if char = 'Σ' then [if casedBefore && !startsCased rest then 'ς' else 'σ']
      else lowerChar char
    small ++ lowerFrom (casedAfter casedBefore char) rest

def lower (text : Text) : Text :=
  lowerFrom false text

def upper (text : Text) : Text :=
  text.flatMap upperChar

end Text

/-! ### Comparing without case -/

/-- The ASCII letter that a character stands for when case does not count. Outside ASCII only the
long s and the Kelvin sign stand for one. -/
def foldChar (char : Char) : Char :=
  if char = 'ſ' then 's' else if char = '\u212A' then 'k' else char.toLower

end AtomicCss
