/-
From tokens to a value. The reader takes one token at a time and remembers the arrays and objects
that are still open, innermost first, so a document of any depth is read in one pass and without
recursion on its nesting. After each token the reader is in one of a few states, each of which says
what may come next; a document is accepted if it ends just behind a value with nothing left open.
-/

import AtomicCss.Json.Token

namespace AtomicCss

namespace Json

/-- An array or object that is still open, with what it holds so far in reverse order. -/
inductive Frame where
  | items (before : List Json)
  | members (before : List (Option Text × Json)) (key : Option Text)

/-- What may come next, inside the open arrays and objects. -/
inductive State where
  /-- A value. -/
  | value (frames : List Frame)
  /-- The first element of an array, or its end. -/
  | firstItem (frames : List Frame)
  /-- The first key of an object, or its end. -/
  | firstKey (frames : List Frame)
  /-- Another key of an object. -/
  | key (before : List (Option Text × Json)) (frames : List Frame)
  /-- The colon behind a key. -/
  | colon (before : List (Option Text × Json)) (key : Option Text) (frames : List Frame)
  /-- A separator or an end, behind a value. -/
  | done (value : Json) (frames : List Frame)

namespace State

/-- A token at a place where a value starts. -/
def startValue? (frames : List Frame) : Token → Option State
  | .openArray => some (firstItem frames)
  | .openObject => some (firstKey frames)
  | .null => some (done .null frames)
  | .bool truth => some (done (.bool truth) frames)
  | .number spelling => some (done (.number spelling) frames)
  | .string text => some (done (.string text) frames)
  | _ => none

def step? : State → Token → Option State
  | value frames, token => startValue? frames token
  | firstItem frames, .closeArray => some (done (.array []) frames)
  | firstItem frames, token => startValue? (.items [] :: frames) token
  | firstKey frames, .closeObject => some (done (.object []) frames)
  | firstKey frames, .string text => some (colon [] text frames)
  | key before frames, .string text => some (colon before text frames)
  | colon before name frames, .colon => some (value (.members before name :: frames))
  | done item (.items before :: frames), .comma => some (value (.items (item :: before) :: frames))
  | done item (.items before :: frames), .closeArray =>
    some (done (.array (item :: before).reverse) frames)
  | done member (.members before name :: frames), .comma =>
    some (key ((name, member) :: before) frames)
  | done member (.members before name :: frames), .closeObject =>
    some (done (.object ((name, member) :: before).reverse) frames)
  | _, _ => none

/-- The value of a document that ends here. -/
def result? : State → Option Json
  | done json [] => some json
  | _ => none

end State

/-- The value that tokens spell from start to end. -/
def ofTokens? (tokens : List Token) : Option Json :=
  (tokens.foldlM State.step? (.value [])).bind State.result?

/-- The value of a document. -/
def parse? (document : Text) : Option Json :=
  (tokens? document).bind ofTokens?

end Json

end AtomicCss
