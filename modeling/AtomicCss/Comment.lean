/-
Comments in a style value. A comment opens with a slash and a star and closes with a star and a
slash on the same line; the closing pair is the last one of the line, so two comments on a line and
the text between them count as one. An opening pair without a closing one behind it on its line
opens nothing.
-/

import AtomicCss.Text.Scan

namespace AtomicCss

namespace Comment

def opening : Text := ['/', '*']

def closing : Text := ['*', '/']

/-- The text up to and with the last closing pair of the line. -/
def throughLastClosing? : Text → Option Text
  | [] => none
  | '\n' :: _ => none
  | char :: rest =>
    match throughLastClosing? rest with
    | some body => some (char :: body)
    | none => (Text.after? closing (char :: rest)).map fun _ => closing

/-- A comment means nothing. -/
def matcher : Matcher Text := fun _ text => do
  let rest ← Text.after? opening text
  let body ← throughLastClosing? rest
  return (opening ++ body, [])

/-- The value without its comments. What stood around them is kept as it is. -/
def strip (value : Text) : Text :=
  matcher.replaceAll value

end Comment

end AtomicCss
