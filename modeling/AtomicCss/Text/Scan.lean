/-
Every pass over a text has one shape: walk from left to right, at each character ask whether
something of interest starts here, and if so take it as a whole and go on behind it. The pass
therefore cuts the text into pieces, single characters that are copied and stretches that were
recognised, and what it computes is read off the pieces.

A stretch that was taken is never looked at again, and the character before it is still visible to
the question asked behind it: a boundary is judged on the text that is read, not on the one that
is written.
-/

import AtomicCss.Text.Basic

namespace AtomicCss

/-! ### Matchers and pieces -/

/-- A question about one place: given the character before it, if there is one, and the text from
there on, the stretch that starts there and what it means. An empty stretch counts as none. -/
abbrev Matcher (Meaning : Type) :=
  Option Char → Text → Option (Text × Meaning)

inductive Piece (Meaning : Type) where
  /-- A character at which nothing started. -/
  | copied (char : Char)
  /-- A stretch that was recognised, with the text that spells it. -/
  | matched (source : Text) (meaning : Meaning)
  deriving DecidableEq

namespace Piece

variable {Meaning : Type}

/-- The text that the piece was cut from. -/
def source : Piece Meaning → Text
  | copied char => [char]
  | matched source _ => source

/-- What stands in the piece's place when a recognised stretch means its replacement. -/
def replacement : Piece Text → Text
  | copied char => [char]
  | matched _ replacement => replacement

end Piece

namespace Matcher

variable {Meaning : Type}

/-! ### Cutting a text into pieces -/

/-- The pieces of a text of which the first `skip` characters belong to a stretch that has been
taken already. -/
def piecesFrom (matcher : Matcher Meaning) :
    (before : Option Char) → (skip : Nat) → Text → List (Piece Meaning)
  | _, _, [] => []
  | _, skip + 1, char :: rest => piecesFrom matcher (some char) skip rest
  | before, 0, char :: rest =>
    match matcher before (char :: rest) with
    | some (first :: more, meaning) =>
      .matched (first :: more) meaning :: piecesFrom matcher (some char) more.length rest
    | _ => .copied char :: piecesFrom matcher (some char) 0 rest

def pieces (matcher : Matcher Meaning) (text : Text) : List (Piece Meaning) :=
  matcher.piecesFrom none 0 text

/-- A matcher is faithful if what it takes is what the text starts with. -/
def Faithful (matcher : Matcher Meaning) : Prop :=
  ∀ before text source meaning, matcher before text = some (source, meaning) → source <+: text

/-- The pieces of a text spell the text: nothing is lost, doubled or moved. -/
theorem flatMap_source_piecesFrom {matcher : Matcher Meaning} (faithful : matcher.Faithful)
    (before : Option Char) (skip : Nat) (text : Text) :
    (matcher.piecesFrom before skip text).flatMap Piece.source = text.drop skip := by
  induction text generalizing before skip with
  | nil => simp [piecesFrom]
  | cons char rest inductionHypothesis =>
    cases skip with
    | succ skip => simp [piecesFrom, inductionHypothesis]
    | zero =>
      rw [piecesFrom]
      split
      · next first more meaning taken =>
        obtain ⟨after, spelt⟩ := faithful _ _ _ _ taken
        obtain ⟨rfl, rfl⟩ : first = char ∧ more ++ after = rest := by simpa using spelt
        simp [Piece.source, inductionHypothesis]
      · simp [Piece.source, inductionHypothesis]

theorem flatMap_source_piecesFrom_zero {matcher : Matcher Meaning} (faithful : matcher.Faithful)
    (before : Option Char) (text : Text) :
    (matcher.piecesFrom before 0 text).flatMap Piece.source = text := by
  rw [flatMap_source_piecesFrom faithful, List.drop_zero]

theorem flatMap_source_pieces {matcher : Matcher Meaning} (faithful : matcher.Faithful)
    (text : Text) : (matcher.pieces text).flatMap Piece.source = text :=
  flatMap_source_piecesFrom_zero faithful none text

/-! ### Replacing -/

/-- The text with each recognised stretch replaced by what it means. -/
def replaceAll (matcher : Matcher Text) (text : Text) : Text :=
  (matcher.pieces text).flatMap Piece.replacement

end Matcher

end AtomicCss
