/-
This file describes the texts of colors that a fallback may spell: a number sign with hexadecimal
digits behind it, or the name of a function with numbers in parentheses. Such a text is trimmed and
balanced and has no character that the stages of the pipeline look for. Without its blanks it is a
text of the same kind.
-/

import AtomicCss.Proofs.Nesting
import AtomicCss.Proofs.NumberPasses

namespace AtomicCss

/-! ### Colors -/

/-- A digit of a hexadecimal number. -/
def isHexDigit (char : Char) : Bool :=
  char.isDigit || "abcdefABCDEF".toList.contains char

/-- The characters of the numbers that a color function takes, and of what separates them. -/
def isArgumentChar (char : Char) : Bool :=
  char.isDigit || ".,%/".toList.contains char || isBlank char

/-- The colors that a fallback may spell: a number sign and hexadecimal digits, or letters and
numbers in parentheses. -/
inductive IsColor : Text → Prop where
  | hex {digits : Text} (nonempty : digits ≠ [])
      (isHex : ∀ char ∈ digits, isHexDigit char = true) : IsColor ('#' :: digits)
  | function {letters numbers : Text} (isAlpha : ∀ char ∈ letters, char.isAlpha = true)
      (isArgument : ∀ char ∈ numbers, isArgumentChar char = true) :
      IsColor (letters ++ '(' :: (numbers ++ [')']))

/-! ### Calls -/

section Call

variable {letters inside : Text} (isAlpha : ∀ char ∈ letters, char.isAlpha = true)

include isAlpha in
theorem trimmed_call : Text.Trimmed (letters ++ '(' :: (inside ++ [')'])) := by
  constructor
  · cases letters with
    | nil => rfl
    | cons char letters =>
      have full := isBlank_of_isWordChar
        (isWordChar_of_isAlpha (isAlpha char List.mem_cons_self))
      simp [Text.stops, full]
  · rw [← List.cons_append, ← List.append_assoc, List.reverse_concat]
    rfl

include isAlpha in
theorem balanced_call (flat : ∀ char ∈ inside, char ≠ '(' ∧ char ≠ ')') :
    Text.Balanced (letters ++ '(' :: (inside ++ [')'])) := by
  have name : Text.Balanced letters := Text.balanced_of_forall_ne fun char member => by
    refine ⟨?_, ?_⟩ <;> (rintro rfl; cases isAlpha _ member)
  exact name.append (Text.balanced_of_forall_ne flat).parenthesized

include isAlpha in
/-- The name of a function has no blanks to lose. -/
theorem compact_call :
    Text.compact (letters ++ '(' :: (inside ++ [')'])) =
      letters ++ '(' :: (inside.compact ++ [')']) := by
  have full : letters.compact = letters := Text.compact_eq_self fun char member =>
    isBlank_of_isWordChar (isWordChar_of_isAlpha (isAlpha char member))
  have opened : Text.compact ['('] = ['('] := by decide
  have closed : Text.compact [')'] = [')'] := by decide
  rw [← List.singleton_append, Text.compact_append, Text.compact_append, Text.compact_append, full,
    opened, closed, List.singleton_append]

include isAlpha in
theorem not_mem_call {rest : Text} {char : Char} (special : char ∈ ['-', '['])
    (absent : char ∉ rest) : char ∉ letters ++ '(' :: rest := by
  have each : ∀ char ∈ ['-', '['], char.isAlpha = false ∧ char ≠ '(' := by decide
  obtain ⟨notAlpha, notParenthesis⟩ := each char special
  rw [List.mem_append, List.mem_cons, not_or, not_or]
  exact ⟨Text.not_mem_of_forall isAlpha notAlpha, notParenthesis, absent⟩

include isAlpha in
theorem exists_call_eq_cons (rest : Text) :
    ∃ first more, letters ++ '(' :: rest = first :: more ∧ first.isDigit = false := by
  cases letters with
  | nil => exact ⟨'(', rest, rfl, by decide⟩
  | cons char letters =>
    exact ⟨char, letters ++ '(' :: rest, rfl, isDigit_of_isAlpha (isAlpha char List.mem_cons_self)⟩

end Call

namespace IsColor

/-- All the characters of colors. -/
def isColorChar (char : Char) : Bool :=
  isWordChar char || "#().,%/".toList.contains char || isBlank char

theorem isColorChar_of_isWordChar {char : Char} (isWord : isWordChar char = true) :
    isColorChar char = true := by
  rw [isColorChar, isWord, Bool.true_or, Bool.true_or]

theorem isWordChar_of_isHexDigit {char : Char} (isHex : isHexDigit char = true) :
    isWordChar char = true := by
  rw [isHexDigit, Bool.or_eq_true] at isHex
  rcases isHex with isDigit | letter
  · exact isWordChar_of_isDigit isDigit
  · have each : ∀ char ∈ "abcdefABCDEF".toList, isWordChar char = true := by decide
    exact each char (List.contains_iff_mem.mp letter)

theorem isColorChar_of_isArgumentChar {char : Char} (isArgument : isArgumentChar char = true) :
    isColorChar char = true := by
  simp only [isArgumentChar, Bool.or_eq_true] at isArgument
  rcases isArgument with (isDigit | separator) | blank
  · exact isColorChar_of_isWordChar (isWordChar_of_isDigit isDigit)
  · have each : ∀ char ∈ ".,%/".toList, isColorChar char = true := by decide
    exact each char (List.contains_iff_mem.mp separator)
  · rw [isColorChar, blank, Bool.or_true]

variable {color : Text} (isColor : IsColor color)

include isColor in
theorem isColorChar_of_mem {char : Char} (member : char ∈ color) : isColorChar char = true := by
  cases isColor with
  | hex _ isHex =>
    rcases List.mem_cons.mp member with rfl | member
    · decide
    · exact isColorChar_of_isWordChar (isWordChar_of_isHexDigit (isHex char member))
  | function isAlpha isArgument =>
    rcases List.mem_append.mp member with inLetters | member
    · exact isColorChar_of_isWordChar (isWordChar_of_isAlpha (isAlpha char inLetters))
    · rcases List.mem_cons.mp member with rfl | member
      · decide
      · rcases List.mem_append.mp member with inNumbers | closing
        · exact isColorChar_of_isArgumentChar (isArgument char inNumbers)
        · rw [List.mem_singleton.mp closing]
          decide

include isColor in
theorem not_mem {char : Char} (other : isColorChar char = false) : char ∉ color :=
  Text.not_mem_of_forall (fun _ => isColor.isColorChar_of_mem) other

include isColor in
theorem ne_nil : color ≠ [] := by
  cases isColor with
  | hex => exact List.cons_ne_nil _ _
  | function => exact List.append_ne_nil_of_right_ne_nil _ (List.cons_ne_nil _ _)

include isColor in
/-- A color is told from a name by one of two characters. -/
theorem exists_mark : ∃ mark, (mark = '#' ∨ mark = '(') ∧ mark ∈ color := by
  cases isColor with
  | hex => exact ⟨'#', Or.inl rfl, List.mem_cons_self⟩
  | function => exact ⟨'(', Or.inr rfl, List.mem_append_right _ List.mem_cons_self⟩

include isColor in
theorem trimmed : color.Trimmed := by
  cases isColor with
  | @hex digits _ isHex =>
    refine Text.trimmed_of_forall fun char member => ?_
    rcases List.mem_cons.mp member with rfl | member
    · decide
    · exact isBlank_of_isWordChar (isWordChar_of_isHexDigit (isHex char member))
  | function isAlpha _ => exact trimmed_call isAlpha

include isColor in
theorem balanced : color.Balanced := by
  cases isColor with
  | hex _ isHex =>
    refine Text.balanced_of_forall_ne fun char member => ?_
    rcases List.mem_cons.mp member with rfl | inDigits
    · decide
    · have isWord := isWordChar_of_isHexDigit (isHex char inDigits)
      refine ⟨?_, ?_⟩ <;> (rintro rfl; cases isWord)
  | function isAlpha isArgument =>
    refine balanced_call isAlpha fun char member => ?_
    refine ⟨?_, ?_⟩ <;> (rintro rfl; cases isArgument _ member)

include isColor in
/-- A color without its blanks is a color. -/
theorem compact : IsColor color.compact := by
  cases isColor with
  | @hex digits nonempty isHex =>
    have full : Text.compact ('#' :: digits) = '#' :: digits := by
      refine Text.compact_eq_self fun char member => ?_
      rcases List.mem_cons.mp member with rfl | member
      · decide
      · exact isBlank_of_isWordChar (isWordChar_of_isHexDigit (isHex char member))
    rw [full]
    exact .hex nonempty isHex
  | function isAlpha isArgument =>
    rw [compact_call isAlpha]
    exact .function isAlpha fun char member => isArgument char (List.mem_of_mem_filter member)

include isColor in
/-- No digit of a color has the start of a unit behind it. -/
theorem not_unit_infix {digit : Char} (isDigit : digit.isDigit = true) :
    ¬ [digit, 'p'] <:+: color := by
  cases isColor with
  | @hex digits _ isHex =>
    refine Text.not_pair_infix_of_second_not_mem fun member => ?_
    rcases List.mem_cons.mp member with sign | inDigits
    · cases sign
    · cases isHex _ inDigits
  | @function letters numbers isAlpha isArgument =>
    have noDigit : digit ∉ letters :=
      Text.not_mem_of_forall (fun char member => isDigit_of_isAlpha (isAlpha char member)) isDigit
    refine Text.not_pair_infix_append_of_not_mem noDigit
      (Text.not_pair_infix_of_second_not_mem fun member => ?_)
    rcases List.mem_cons.mp member with opening | member
    · cases opening
    · rcases List.mem_append.mp member with inNumbers | closing
      · cases isArgument _ inNumbers
      · exact absurd closing (by decide)

include isColor in
theorem exists_eq_cons : ∃ first rest, color = first :: rest ∧ first.isDigit = false := by
  cases isColor with
  | @hex digits _ _ => exact ⟨'#', digits, rfl, by decide⟩
  | function isAlpha _ => exact exists_call_eq_cons isAlpha _

end IsColor

end AtomicCss
