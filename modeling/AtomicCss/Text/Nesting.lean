/-
The depth of nesting in parentheses. A reader that must not stop inside parentheses keeps count of
how many are open; the count goes below zero where more have been closed than opened.
-/

import AtomicCss.Text.Basic

namespace AtomicCss

/-- The number of open parentheses behind a character, given their number before it. -/
def depthAfter (depth : Int) (char : Char) : Int :=
  if char = '(' then depth + 1 else if char = ')' then depth - 1 else depth

@[simp] theorem depthAfter_opening (depth : Int) : depthAfter depth '(' = depth + 1 := rfl

@[simp] theorem depthAfter_closing (depth : Int) : depthAfter depth ')' = depth - 1 := rfl

theorem depthAfter_of_ne {char : Char} (depth : Int) (notOpening : char ≠ '(')
    (notClosing : char ≠ ')') : depthAfter depth char = depth := by
  rw [depthAfter, if_neg notOpening, if_neg notClosing]

end AtomicCss
