/-
References to variables in a style value, `var(name)` or `var(name, fallback)`. A reference ends at
the parenthesis that matches its opening one; its name ends at the first comma outside nested
parentheses. A reference inside the fallback of another one is part of that fallback. Where a
reference is not closed, reading stops: nothing behind its opening is looked at.

A value is thus cut into single characters, references and perhaps an unclosed tail, and both the
list of references with their spans and the value with the fallbacks filled in are read off this
one cut.
-/

import AtomicCss.Text.Blank
import AtomicCss.Text.Nesting
import AtomicCss.Text.Scan

namespace AtomicCss

/-! ### References -/

/-- One reference to a variable. The span from `start` to `stop` counts bytes of the value, `stop`
excluded. -/
structure VariableUse where
  name : Text
  fallback : Option Text
  start : Nat
  stop : Nat
  deriving DecidableEq

namespace VariableUse

/-- The fallback, unless it is empty: an empty fallback stands for none. -/
def fallbackText (use : VariableUse) : Option Text :=
  use.fallback.filter (!·.isEmpty)

end VariableUse

namespace Variable

/-! ### Parentheses -/

/-- The text up to the parenthesis that closes one opened before, and what follows that
parenthesis; `depth` more parentheses are open inside. -/
def untilClosing? : (depth : Nat) → Text → Option (Text × Text)
  | _, [] => none
  | 0, ')' :: rest => some ([], rest)
  | depth + 1, ')' :: rest =>
    (untilClosing? depth rest).map fun (content, after) => (')' :: content, after)
  | depth, '(' :: rest =>
    (untilClosing? (depth + 1) rest).map fun (content, after) => ('(' :: content, after)
  | depth, char :: rest =>
    (untilClosing? depth rest).map fun (content, after) => (char :: content, after)

/-- What precedes and what follows the first comma outside parentheses. -/
def splitComma? : (depth : Int) → Text → Option (Text × Text)
  | _, [] => none
  | depth, char :: rest =>
    if char = ',' ∧ depth = 0 then some ([], rest)
    else (splitComma? (depthAfter depth char) rest).map fun (lead, after) => (char :: lead, after)

/-! ### Reading references -/

/-- What a stretch of a value is: a reference with what its parentheses hold, or the tail that an
unclosed reference makes. -/
inductive Stretch where
  | reference (content : Text)
  | unclosed
  deriving DecidableEq

def opening : Text := "var(".toList

def matcher : Matcher Stretch := fun _ text => do
  let rest ← Text.after? opening text
  match untilClosing? 0 rest with
  | some (content, _) => some (opening ++ content ++ [')'], .reference content)
  | none => some (text, .unclosed)

def pieces (value : Text) : List (Piece Stretch) :=
  matcher.pieces value

/-- The name that a reference's content starts with. -/
def nameOf (content : Text) : Text :=
  match splitComma? 0 content with
  | some (name, _) => name.trim
  | none => Text.trim content

/-- The fallback that a reference's content gives, if it has a comma. -/
def fallbackOf (content : Text) : Option Text :=
  (splitComma? 0 content).map fun (_, fallback) => fallback.trim

def useOf (content : Text) (start stop : Nat) : VariableUse :=
  ⟨nameOf content, fallbackOf content, start, stop⟩

/-- The references among the pieces of a value, the first piece standing at byte `start`. -/
def usesFrom : (start : Nat) → List (Piece Stretch) → List VariableUse
  | _, [] => []
  | start, piece :: rest =>
    let stop := start + Text.byteLength piece.source
    match piece with
    | .matched _ (.reference content) => useOf content start stop :: usesFrom stop rest
    | _ => usesFrom stop rest

/-- The references in a value, from left to right. -/
def uses (value : Text) : List VariableUse :=
  usesFrom 0 (pieces value)

/-! ### Filling in the fallbacks -/

/-- What a piece becomes once fallbacks are filled in: a reference without a fallback stays as it
was written, since it has no value that is known. -/
def resolvePiece (piece : Piece Stretch) : Text :=
  match piece with
  | .matched source (.reference content) =>
    ((fallbackOf content).filter (!·.isEmpty)).getD source
  | piece => piece.source

/-- The value with each reference replaced by its fallback. -/
def resolve (value : Text) : Text :=
  (pieces value).flatMap resolvePiece

/-- The text, which stands at byte `start` of a value, with the fallbacks of the references given
by their spans; there is none if a span goes back or cuts a character in two. -/
def substituteFrom? (start : Nat) (text : Text) : List VariableUse → Option Text
  | [] => some text
  | use :: uses => do
    if use.start < start ∨ use.stop < use.start then none
    else
      let (gap, text) ← Text.splitBytes? (use.start - start) text
      let (source, text) ← Text.splitBytes? (use.stop - use.start) text
      let rest ← substituteFrom? use.stop text uses
      return gap ++ use.fallbackText.getD source ++ rest

/-- The value with the fallbacks of references that are given by their spans. -/
def substitute? (value : Text) (uses : List VariableUse) : Option Text :=
  substituteFrom? 0 value uses

end Variable

end AtomicCss
