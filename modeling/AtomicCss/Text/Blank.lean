/-
Blank characters are those with the White_Space property: the ASCII blanks, the next-line control,
the no-break space and the typographic spaces, but neither the zero-width space nor the byte order
mark. One notion serves trimming, splitting into words and squeezing blanks out, so a value that
is trimmed here never begins or ends with a character that another stage takes for a separator.
-/

import AtomicCss.Text.Basic
import AtomicCss.Text.CaseTable

namespace AtomicCss

/-! ### The property -/

def blankRanges : List CharRange :=
  [ ⟨0x09, 0x0D⟩, ⟨0x20, 0x20⟩, ⟨0x85, 0x85⟩, ⟨0xA0, 0xA0⟩, ⟨0x1680, 0x1680⟩, ⟨0x2000, 0x200A⟩,
    ⟨0x2028, 0x2029⟩, ⟨0x202F, 0x202F⟩, ⟨0x205F, 0x205F⟩, ⟨0x3000, 0x3000⟩ ]

def isBlank (char : Char) : Bool :=
  blankRanges.any (·.holds char)

namespace Text

/-! ### Trimming -/

def trimStart (text : Text) : Text :=
  text.dropWhile isBlank

def trimEnd (text : Text) : Text :=
  (text.reverse.dropWhile isBlank).reverse

def trim (text : Text) : Text :=
  trimEnd (trimStart text)

/-! ### Words -/

/-- The stretches between blanks, none of them empty. -/
def words (text : Text) : List Text :=
  (text.splitOnP isBlank).filter (!·.isEmpty)

/-- The words joined by underscores: the form a value takes inside a class name, where a blank
would end the name. -/
def underscored (text : Text) : Text :=
  join ['_'] text.words

/-- The text without its blanks. -/
def compact (text : Text) : Text :=
  text.filter (!isBlank ·)

end Text

end AtomicCss
