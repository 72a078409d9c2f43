/-
Writing color tokens back into a generated class. The generator knows a variable only by its
fallback, or by the reference itself where there is no fallback, so the class names a concrete
color. If the variable has a token, the text of the fallback is looked for in the class and the
token put in its place. The generator may have changed the blanks and the case of the fallback,
hence several spellings of it are tried, the longest first.

Variables are taken in the order of their references, and each one looks at the class that the one
before it left. When all are done, brackets around a bare name are no longer needed and are dropped.
-/

import AtomicCss.ColorToken
import AtomicCss.Text.Blank
import AtomicCss.Text.Scan
import AtomicCss.Variable

namespace AtomicCss

namespace TokenInjection

/-! ### Spellings of a fallback -/

/-- The first of each group of equal texts, in their order. -/
def distinct (texts : List Text) : List Text :=
  texts.foldl (fun seen text => if seen.contains text then seen else seen ++ [text]) []

/-- The fallback as it is and without blanks, each also in small and in capital letters. -/
def spellings (fallback : Text) : List Text :=
  let trimmed := fallback.trim
  let compact := trimmed.compact
  [trimmed, compact, trimmed.lower, compact.lower, trimmed.upper, compact.upper]

/-- The text put in front of the first one that is not longer. -/
def insertByLength (text : Text) : List Text → List Text
  | [] => [text]
  | next :: rest =>
    if next.byteLength ≤ text.byteLength then text :: next :: rest
    else next :: insertByLength text rest

/-- The longest text first, in bytes, and those of one length as they come. -/
def longestFirst : List Text → List Text
  | [] => []
  | text :: rest => insertByLength text (longestFirst rest)

/-- The spellings that are tried at each place, in their order. -/
def variants (fallback : Text) : List Text :=
  longestFirst (distinct ((spellings fallback).filter (!·.isEmpty)))

theorem insertByLength_perm (text : Text) (texts : List Text) :
    (insertByLength text texts).Perm (text :: texts) := by
  fun_induction insertByLength text texts with
  | case1 => exact .refl _
  | case2 => exact .refl _
  | case3 next rest _ inductionHypothesis =>
    exact (inductionHypothesis.cons next).trans (.swap text next rest)

/-- Sorting loses and adds nothing. -/
theorem longestFirst_perm (texts : List Text) : (longestFirst texts).Perm texts := by
  induction texts with
  | nil => exact .refl _
  | cons text rest inductionHypothesis =>
    exact (insertByLength_perm text _).trans (inductionHypothesis.cons text)

theorem pairwise_insertByLength (text : Text) {texts : List Text}
    (sorted : texts.Pairwise fun first second => second.byteLength ≤ first.byteLength) :
    (insertByLength text texts).Pairwise fun first second =>
      second.byteLength ≤ first.byteLength := by
  fun_induction insertByLength text texts with
  | case1 => simp
  | case2 next rest shorter =>
    refine List.pairwise_cons.mpr ⟨fun other member => ?_, sorted⟩
    rcases List.mem_cons.mp member with rfl | member
    · exact shorter
    · exact Nat.le_trans ((List.pairwise_cons.mp sorted).1 other member) shorter
  | case3 next rest longer inductionHypothesis =>
    have ⟨first, sorted⟩ := List.pairwise_cons.mp sorted
    refine List.pairwise_cons.mpr ⟨fun other member => ?_, inductionHypothesis sorted⟩
    rcases List.mem_cons.mp ((insertByLength_perm text rest).mem_iff.mp member) with rfl | member
    · omega
    · exact first other member

/-- No text stands behind a shorter one. -/
theorem pairwise_longestFirst (texts : List Text) :
    (longestFirst texts).Pairwise fun first second => second.byteLength ≤ first.byteLength := by
  induction texts with
  | nil => exact .nil
  | cons text rest inductionHypothesis => exact pairwise_insertByLength text inductionHypothesis

/-! ### A fallback in a class -/

/-- The text from the start through a closing bracket, if nothing but blanks precedes it. -/
def readClosing? (text : Text) : Option Text :=
  match Text.span isBlank text with
  | (blanks, ']' :: _) => some (blanks ++ [']'])
  | _ => none

/-- A variant in brackets, with blanks around it. -/
def readBracketed? (variants : List Text) : Text → Option Text
  | '[' :: rest =>
    let (blanks, rest) := Text.span isBlank rest
    variants.findSome? fun variant => do
      let rest ← Text.after? variant rest
      let closing ← readClosing? rest
      return '[' :: blanks ++ variant ++ closing
  | _ => none

/-- A variant behind a hyphen, where the class name does not go on behind it. -/
def readHyphenated? (variants : List Text) : Text → Option Text
  | '-' :: rest =>
    variants.findSome? fun variant => do
      let rest ← Text.after? variant rest
      if Text.stops isNameChar rest then some ('-' :: variant) else none
  | _ => none

/-- A fallback in brackets gives way to the token, and one behind a hyphen leaves the hyphen. -/
def fallbackMatcher (variants : List Text) (token : Text) : Matcher Text := fun _ text =>
  match readBracketed? variants text with
  | some source => some (source, token)
  | none => (readHyphenated? variants text).map fun source => (source, '-' :: token)

def replaceFallback (fallback token name : Text) : Text :=
  (fallbackMatcher (variants fallback) token).replaceAll name

/-! ### A reference in a class -/

/-- A reference to the variable, with blanks around its name and without a fallback. -/
def referenceMatcher (sought token : Text) : Matcher Text := fun _ text => do
  let rest ← Text.after? Variable.opening text
  let (lead, rest) := Text.span isBlank rest
  let rest ← Text.after? sought rest
  match Text.span isBlank rest with
  | (trail, ')' :: _) => some (Variable.opening ++ lead ++ sought ++ trail ++ [')'], token)
  | _ => none

def replaceReference (sought token name : Text) : Text :=
  (referenceMatcher sought token).replaceAll name

/-! ### Brackets around a name -/

/-- Brackets that hold letters, digits, underscores and hyphens alone. -/
def bareBrackets : Matcher Text := fun _ text =>
  match text with
  | '[' :: rest =>
    match Text.span isNameChar rest with
    | ([], _) => none
    | (name, ']' :: _) => some ('[' :: name ++ [']'], name)
    | _ => none
  | _ => none

/-! ### All variables -/

/-- The class with one variable's token in place of its fallback and of references to it. A
variable without a token changes nothing. -/
def injectUse (name : Text) (use : VariableUse) : Text :=
  match ColorToken.resolve? use.name with
  | none => name
  | some token =>
    let replaced :=
      match use.fallbackText with
      | some fallback => replaceFallback fallback token name
      | none => name
    replaceReference use.name token replaced

/-- The class with the tokens of all variables. Where there are no variables the class is left
alone, brackets included. -/
def inject (name : Text) (uses : List VariableUse) : Text :=
  if uses.isEmpty then name
  else bareBrackets.replaceAll (uses.foldl injectUse name)

end TokenInjection

end AtomicCss
