/-
Writing a value as a document, without any blank between its tokens. In a string the quote, the
backslash and the control characters are escaped and every other character stands for itself, so
the document is text of the same alphabet as its strings. A string that is no text is written as
the escape of half a surrogate pair, which reads back as no text.
-/

import AtomicCss.Json.Basic

namespace AtomicCss

namespace Json

/-! ### Strings -/

/-- The hexadecimal digit of a number below sixteen. -/
def hexDigit (number : Nat) : Char :=
  Nat.digitChar number

def escapeChar (char : Char) : Text :=
  if char = '"' then ['\\', '"']
  else if char = '\\' then ['\\', '\\']
  else if char = '\x08' then ['\\', 'b']
  else if char = '\x0C' then ['\\', 'f']
  else if char = '\n' then ['\\', 'n']
  else if char = '\r' then ['\\', 'r']
  else if char = '\t' then ['\\', 't']
  else if char.toNat < 0x20 then
    ['\\', 'u', '0', '0', hexDigit (char.toNat / 16), hexDigit (char.toNat % 16)]
  else [char]

def escape (text : Text) : Text :=
  text.flatMap escapeChar

/-- The escape of half a surrogate pair. -/
def unpairedEscape : Text := "\\ud800".toList

def quote : Option Text → Text
  | some text => '"' :: escape text ++ ['"']
  | none => '"' :: unpairedEscape ++ ['"']

/-! ### Documents -/

mutual

def render : Json → Text
  | null => "null".toList
  | bool true => "true".toList
  | bool false => "false".toList
  | number spelling => spelling
  | string text => quote text
  | array items => '[' :: Text.join [','] (renderItems items) ++ [']']
  | object members => '\x7b' :: Text.join [','] (renderMembers members) ++ ['\x7d']
termination_by structural json => json

def renderItems : List Json → List Text
  | [] => []
  | item :: rest => render item :: renderItems rest
termination_by structural items => items

def renderMembers : List (Option Text × Json) → List Text
  | [] => []
  | member :: rest => renderMember member :: renderMembers rest
termination_by structural members => members

def renderMember : Option Text × Json → Text
  | (key, value) => quote key ++ ':' :: render value
termination_by structural member => member

end

end Json

end AtomicCss
