/-
This file follows the units in the call of a color function. Inside the brackets of a class the
arguments of the call stand without their blanks, so a length may have a letter, a digit, a comma or
a parenthesis right behind its unit. The unit is stripped where its word ends. A word goes on only
into another number, from which the length was set apart by nothing but blanks. So the call comes
through as it is exactly if each of its lengths is followed by a number in this way, and where one is
not, the call comes out shorter.
-/

import AtomicCss.Proofs.Colors
import AtomicCss.Proofs.LooseUnits

namespace AtomicCss

open ClassNumber PixelLength

/-! ### Calls of color functions -/

/-- An argument of a color function: a color, a percentage or a length in pixels. -/
inductive ColorArgument where
  | hex (digits : Text) (isHex : ∀ char ∈ digits, isHexDigit char = true)
  | percentage (numeral : Numeral) (wellFormed : numeral.WellFormed)
  | length (numeral : Numeral) (wellFormed : numeral.WellFormed)

namespace ColorArgument

def text : ColorArgument → Text
  | hex digits _ => '#' :: digits
  | percentage numeral _ => numeral.text ++ ['%']
  | length numeral _ => numeral.text ++ pixelUnit

/-- Whether the argument starts with a number. -/
def isNumber : ColorArgument → Bool
  | hex _ _ => false
  | percentage _ _ => true
  | length _ _ => true

end ColorArgument

/-- Commas and blanks. -/
structure Separator where
  text : Text
  chars : ∀ char ∈ text, char = ',' ∨ isBlank char = true

/-- A call of a color function, with what separates each argument from the next one behind it. -/
structure ColorCall where
  letters : Text
  isAlpha : ∀ char ∈ letters, char.isAlpha = true
  lead : Separator
  arguments : List (ColorArgument × Separator)

namespace ColorCall

def argumentsText (arguments : List (ColorArgument × Separator)) : Text :=
  arguments.flatMap fun (argument, separator) => argument.text ++ separator.text

/-- What the parentheses hold. -/
def inside (call : ColorCall) : Text :=
  call.lead.text ++ argumentsText call.arguments

def text (call : ColorCall) : Text :=
  call.letters ++ '(' :: (call.inside ++ [')'])

/-- Whether a number comes first. -/
def startsWithNumber : List (ColorArgument × Separator) → Bool
  | [] => false
  | (argument, _) :: _ => argument.isNumber

/-- Behind each length stands a number, with nothing but blanks in between. -/
def CarriesUnits : List (ColorArgument × Separator) → Prop
  | [] => True
  | (.length _ _, separator) :: more =>
    (',' ∉ separator.text ∧ startsWithNumber more = true) ∧ CarriesUnits more
  | _ :: more => CarriesUnits more

instance decidableCarriesUnits : (arguments : List (ColorArgument × Separator)) →
    Decidable (CarriesUnits arguments)
  | [] => isTrue trivial
  | (.length _ _, separator) :: more =>
    have := decidableCarriesUnits more
    inferInstanceAs
      (Decidable ((',' ∉ separator.text ∧ startsWithNumber more = true) ∧ CarriesUnits more))
  | (.hex _ _, _) :: more => decidableCarriesUnits more
  | (.percentage _ _, _) :: more => decidableCarriesUnits more

end ColorCall

/-! ### Characters of a call -/

/-- The characters of arguments and of what separates them. -/
def isInsideChar (char : Char) : Bool :=
  isWordChar char || "#.,%".toList.contains char || isBlank char

theorem isInsideChar_of_isWordChar {char : Char} (isWord : isWordChar char = true) :
    isInsideChar char = true := by
  rw [isInsideChar, isWord, Bool.true_or, Bool.true_or]

namespace ColorArgument

theorem isInsideChar_of_mem_numeral {numeral : Numeral} (wellFormed : numeral.WellFormed)
    {char : Char} (member : char ∈ numeral.text) :
    isInsideChar char = true ∧ isBlank char = false := by
  rcases wellFormed.isDigit_or_eq_point member with isDigit | rfl
  · have isWord := isWordChar_of_isDigit isDigit
    exact ⟨isInsideChar_of_isWordChar isWord, isBlank_of_isWordChar isWord⟩
  · decide

theorem isInsideChar_of_mem_text {argument : ColorArgument} {char : Char}
    (member : char ∈ argument.text) : isInsideChar char = true ∧ isBlank char = false := by
  cases argument with
  | hex digits isHex =>
    rcases List.mem_cons.mp member with rfl | inDigits
    · decide
    · have isWord := IsColor.isWordChar_of_isHexDigit (isHex char inDigits)
      exact ⟨isInsideChar_of_isWordChar isWord, isBlank_of_isWordChar isWord⟩
  | percentage numeral wellFormed =>
    rcases List.mem_append.mp member with inNumeral | sign
    · exact isInsideChar_of_mem_numeral wellFormed inNumeral
    · rw [List.mem_singleton.mp sign]
      decide
  | length numeral wellFormed =>
    rcases List.mem_append.mp member with inNumeral | inUnit
    · exact isInsideChar_of_mem_numeral wellFormed inNumeral
    · have each : ∀ char ∈ pixelUnit, isInsideChar char = true ∧ isBlank char = false := by
        decide
      exact each char inUnit

/-- The first character tells a number from a color. -/
theorem exists_text_eq_cons (argument : ColorArgument) :
    ∃ first rest, argument.text = first :: rest ∧ first ≠ 'p' ∧
      isWordChar first = argument.isNumber := by
  have ofNumeral {numeral : Numeral} (wellFormed : numeral.WellFormed) (unit : Text) :
      ∃ first rest, numeral.text ++ unit = first :: rest ∧ first ≠ 'p' ∧
        isWordChar first = true := by
    obtain ⟨digit, more, starts, isDigit⟩ := wellFormed.exists_text_eq_cons
    refine ⟨digit, more ++ unit, by rw [starts, List.cons_append], ?_,
      isWordChar_of_isDigit isDigit⟩
    rintro rfl
    cases isDigit
  cases argument with
  | hex digits isHex => exact ⟨'#', digits, rfl, by decide, rfl⟩
  | percentage numeral wellFormed => exact ofNumeral wellFormed ['%']
  | length numeral wellFormed => exact ofNumeral wellFormed pixelUnit

end ColorArgument

namespace Separator

variable (separator : Separator)

theorem isInsideChar_of_mem {char : Char} (member : char ∈ separator.text) :
    isInsideChar char = true := by
  rcases separator.chars char member with rfl | blank
  · decide
  · rw [isInsideChar, blank, Bool.or_true]

theorem eq_comma_of_mem_compact {char : Char} (member : char ∈ separator.text.compact) :
    char = ',' := by
  obtain ⟨inText, notBlank⟩ := List.mem_filter.mp member
  refine (separator.chars char inText).resolve_right ?_
  simpa using notBlank

end Separator

namespace ColorCall

theorem isInsideChar_of_mem_argumentsText {arguments : List (ColorArgument × Separator)}
    {char : Char} (member : char ∈ argumentsText arguments) : isInsideChar char = true := by
  obtain ⟨⟨argument, separator⟩, _, inBoth⟩ := List.mem_flatMap.mp member
  rcases List.mem_append.mp inBoth with inArgument | inSeparator
  · exact (ColorArgument.isInsideChar_of_mem_text inArgument).1
  · exact separator.isInsideChar_of_mem inSeparator

variable (call : ColorCall)

theorem isInsideChar_of_mem {char : Char} (member : char ∈ call.inside) :
    isInsideChar char = true := by
  rcases List.mem_append.mp member with inLead | inArguments
  · exact call.lead.isInsideChar_of_mem inLead
  · exact isInsideChar_of_mem_argumentsText inArguments

theorem not_mem_inside {char : Char} (other : isInsideChar char = false) : char ∉ call.inside :=
  Text.not_mem_of_forall (fun _ => call.isInsideChar_of_mem) other

theorem not_mem_compact_inside {char : Char} (special : char ∈ ['-', '[', '(']) :
    char ∉ call.inside.compact ++ [')', ']'] := by
  have each : ∀ char ∈ ['-', '[', '('], isInsideChar char = false ∧ char ∉ [')', ']'] := by decide
  rw [List.mem_append, not_or]
  exact ⟨fun inCompact => call.not_mem_inside (each char special).1 (List.mem_of_mem_filter inCompact),
    (each char special).2⟩

theorem not_mem_text {char : Char} (other : isInsideChar char = false)
    (notParenthesis : char ∉ ['(', ')']) : char ∉ call.text := by
  have notAlpha : char ∉ call.letters := Text.not_mem_of_forall (fun char member =>
    isInsideChar_of_isWordChar (isWordChar_of_isAlpha (call.isAlpha char member))) other
  simp only [text, List.mem_append, List.mem_cons, List.not_mem_nil, or_false, not_or]
    at notParenthesis ⊢
  exact ⟨notAlpha, notParenthesis.1, call.not_mem_inside other, notParenthesis.2⟩

theorem exists_mark : ∃ mark, (mark = '#' ∨ mark = '(') ∧ mark ∈ call.text :=
  ⟨'(', Or.inr rfl, List.mem_append_right _ List.mem_cons_self⟩

theorem trimmed : call.text.Trimmed :=
  trimmed_call call.isAlpha

theorem balanced : call.text.Balanced := by
  refine balanced_call call.isAlpha fun char member => ?_
  have isInside := call.isInsideChar_of_mem member
  refine ⟨?_, ?_⟩ <;> (rintro rfl; cases isInside)

theorem compact_text : call.text.compact = call.letters ++ '(' :: (call.inside.compact ++ [')']) :=
  compact_call call.isAlpha

/-! ### Units of a call -/

theorem compact_argumentsText_cons (argument : ColorArgument) (separator : Separator)
    (more : List (ColorArgument × Separator)) :
    (argumentsText ((argument, separator) :: more)).compact =
      argument.text ++ (separator.text.compact ++ (argumentsText more).compact) := by
  have full : argument.text.compact = argument.text := Text.compact_eq_self fun _ member =>
    (ColorArgument.isInsideChar_of_mem_text member).2
  have split : argumentsText ((argument, separator) :: more) =
      argument.text ++ separator.text ++ argumentsText more := rfl
  rw [split, Text.compact_append, Text.compact_append, full, List.append_assoc]

/-- Whether the arguments carry a word on is seen from the first one. -/
theorem exists_arguments_eq_cons (arguments : List (ColorArgument × Separator)) :
    ∃ first rest, (argumentsText arguments).compact ++ [')', ']'] = first :: rest ∧ first ≠ 'p' ∧
      isWordChar first = startsWithNumber arguments := by
  cases arguments with
  | nil => exact ⟨')', [']'], rfl, by decide, rfl⟩
  | cons both more =>
    obtain ⟨argument, separator⟩ := both
    obtain ⟨first, rest, starts, notUnit, carries⟩ := argument.exists_text_eq_cons
    rw [compact_argumentsText_cons, starts]
    exact ⟨first, _, rfl, notUnit, carries⟩

/-- What follows a length carries its word on if it is a number and no comma is in between. -/
theorem stops_separator_iff (separator : Separator)
    (arguments : List (ColorArgument × Separator)) :
    Text.stops isWordChar
        (separator.text.compact ++ ((argumentsText arguments).compact ++ [')', ']'])) = true ↔
      ¬ (',' ∉ separator.text ∧ startsWithNumber arguments = true) := by
  by_cases comma : ',' ∈ separator.text
  · have kept : ',' ∈ separator.text.compact := List.mem_filter.mpr ⟨comma, by decide⟩
    obtain ⟨first, rest, spelt⟩ := List.exists_cons_of_ne_nil (List.ne_nil_of_mem kept)
    obtain rfl := separator.eq_comma_of_mem_compact (by rw [spelt]; exact List.mem_cons_self)
    rw [spelt]
    exact iff_of_true rfl fun ⟨noComma, _⟩ => noComma comma
  · have nothing : separator.text.compact = [] := by
      rw [List.eq_nil_iff_forall_not_mem]
      intro char member
      obtain rfl := separator.eq_comma_of_mem_compact member
      exact comma (List.mem_of_mem_filter member)
    obtain ⟨first, rest, spelt, _, carries⟩ := exists_arguments_eq_cons arguments
    rw [nothing, List.nil_append, spelt, Text.stops, carries]
    simp [comma]

/-- A unit of the arguments is loose exactly if it is not carried on. -/
theorem hasLooseUnit_arguments (arguments : List (ColorArgument × Separator)) :
    HasLooseUnit ((argumentsText arguments).compact ++ [')', ']']) ↔ ¬ CarriesUnits arguments := by
  induction arguments with
  | nil =>
    have nothing : ¬ HasLooseUnit [')', ']'] := by
      rw [← List.append_nil [')', ']'], hasLooseUnit_append (by decide) (by simp)]
      exact not_hasLooseUnit_nil
    exact iff_of_false nothing (not_not_intro trivial)
  | cons both more inductionHypothesis =>
    obtain ⟨argument, separator⟩ := both
    have starts : ((argumentsText more).compact ++ [')', ']']).head? ≠ some 'p' := by
      obtain ⟨first, rest, spelt, notUnit, _⟩ := exists_arguments_eq_cons more
      rw [spelt]
      exact fun same => notUnit (Option.some.inj same)
    have commas : 'p' ∉ separator.text.compact := fun member => by
      cases separator.eq_comma_of_mem_compact member
    have starts' :
        (separator.text.compact ++ ((argumentsText more).compact ++ [')', ']'])).head? ≠
          some 'p' := by
      cases spelt : separator.text.compact with
      | nil => exact starts
      | cons first rest =>
        rw [spelt] at commas
        exact fun same => commas (by simp [Option.some.inj same])
    have behind : HasLooseUnit
        (separator.text.compact ++ ((argumentsText more).compact ++ [')', ']'])) ↔
          ¬ CarriesUnits more :=
      (hasLooseUnit_append commas starts).trans inductionHypothesis
    rw [compact_argumentsText_cons, List.append_assoc, List.append_assoc]
    cases argument with
    | hex digits isHex =>
      have noUnit : 'p' ∉ ColorArgument.text (.hex digits isHex) := by
        intro member
        rcases List.mem_cons.mp member with sign | inDigits
        · cases sign
        · cases isHex _ inDigits
      exact (hasLooseUnit_append noUnit starts').trans behind
    | percentage numeral wellFormed =>
      have noUnit : 'p' ∉ ColorArgument.text (.percentage numeral wellFormed) := by
        intro member
        rcases List.mem_append.mp member with inNumeral | sign
        · exact wellFormed.isNumberText.not_mem (by decide) inNumeral
        · cases List.mem_singleton.mp sign
      exact (hasLooseUnit_append noUnit starts').trans behind
    | length numeral wellFormed =>
      rw [ColorArgument.text, List.append_assoc, hasLooseUnit_length wellFormed, behind,
        stops_separator_iff, ← not_and_or]
      rfl

theorem hasLooseUnit_inside :
    HasLooseUnit (call.inside.compact ++ [')', ']']) ↔ ¬ CarriesUnits call.arguments := by
  have commas : 'p' ∉ call.lead.text.compact := fun member => by
    cases call.lead.eq_comma_of_mem_compact member
  obtain ⟨first, rest, spelt, notUnit, _⟩ := exists_arguments_eq_cons call.arguments
  rw [inside, Text.compact_append, List.append_assoc, hasLooseUnit_append commas,
    hasLooseUnit_arguments]
  rw [spelt]
  exact fun same => notUnit (Option.some.inj same)

end ColorCall

end AtomicCss
