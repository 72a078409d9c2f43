/-
Records in JSON. A record is a fixed list of named fields, and two forms of a document stand for
it: an object, whose members may come in any order, and an array, which gives the fields in the
order of the list. In an object a member with an unknown name is passed over, and a known name must
not come twice. In an array fields may be missing at the end, and there must be none too many.
Whether a missing field is a fault is for the reader of the record to say.
-/

import AtomicCss.Json.Basic

namespace AtomicCss

namespace Json

/-! ### Objects -/

/-- The names of an object's members, provided that each is a text. -/
def keys? (members : List (Option Text × Json)) : Option (List Text) :=
  members.mapM Prod.fst

/-- The value of the member with this name: none inside if there is no such member, and none at all
if there are several. -/
def member? (members : List (Option Text × Json)) (name : Text) : Option (Option Json) :=
  match members.filter (·.1 = some name) with
  | [] => some none
  | [(_, value)] => some (some value)
  | _ => none

/-! ### Fields -/

/-- What a document holds for each of the named fields. -/
def fields? (names : List Text) : Json → Option (List (Option Json))
  | object members => do
    let _ ← keys? members
    names.mapM (member? members)
  | array items =>
    if items.length ≤ names.length then
      some (items.map some ++ List.replicate (names.length - items.length) none)
    else none
  | _ => none

/-- A field that must be there. -/
def required? {Value : Type} (read? : Json → Option Value) : Option Json → Option Value
  | none => none
  | some value => read? value

/-- A field with a value to fall back on when it is missing. -/
def orDefault? {Value : Type} (standard : Value) (read? : Json → Option Value) :
    Option Json → Option Value
  | none => some standard
  | some value => read? value

end Json

end AtomicCss
