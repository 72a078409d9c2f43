/-
This file follows a color token through the whole pipeline. A declaration of a color whose value is
one reference to a variable with a token ends as the token behind the stem of its property, with a
fallback that spells a color or without one, and whatever the blanks in the reference.

The class that is generated holds the fallback, or else the reference, in brackets behind the stem.
No pass over its numbers finds anything there, so the text in the brackets is still the one that
the token is looked for by.
-/

import AtomicCss.Proofs.SingleReference
import AtomicCss.Proofs.TokenWriting

namespace AtomicCss

open ClassNumber

/-! ### Stems of colors -/

/-- The stems of colors have no digit and no character by which the text behind them is found. -/
theorem plain_of_mem_colorStems {row : Text × Text} (listed : row ∈ Property.colorStems) :
    TokenInjection.PlainStem row.2 := by
  have each : ∀ row ∈ Property.colorStems, ∀ char ∈ row.2,
      char.isDigit = false ∧ char ∉ ['v', '#', '(', '['] := by
    decide +kernel
  exact each row listed

/-! ### Numbers in brackets -/

section Normalize

variable {stem body : Text} (plain : TokenInjection.PlainStem stem)

include plain in
theorem noDigit_of_plain : ∀ char ∈ stem ++ ['-', '['], char.isDigit = false :=
  noDigit_append_bracket fun char member => (plain char member).1

include plain in
/-- No digit stands behind the hyphen of the stem, or behind another one. -/
theorem not_hyphen_infix {body : Text} (noHyphen : '-' ∉ body) {digit : Char}
    (isDigit : digit.isDigit = true) : ¬ ['-', digit] <:+: stem ++ ['-', '['] ++ body := by
  have notInLead := Text.not_mem_of_forall (noDigit_of_plain plain) isDigit
  exact Text.not_pair_infix_append (Text.not_pair_infix_of_second_not_mem notInLead)
    (Text.not_pair_infix_of_first_not_mem noHyphen) (by simp)

include plain in
/-- No digit stands behind the bracket of the stem, or behind another one. -/
theorem not_bracket_infix {body : Text} (noBracket : '[' ∉ body)
    (head : ∃ first rest, body = first :: rest ∧ first.isDigit = false) {digit : Char}
    (isDigit : digit.isDigit = true) : ¬ ['[', digit] <:+: stem ++ ['-', '['] ++ body := by
  have notInLead := Text.not_mem_of_forall (noDigit_of_plain plain) isDigit
  obtain ⟨first, rest, rfl, notDigit⟩ := head
  refine Text.not_pair_infix_append (Text.not_pair_infix_of_second_not_mem notInLead)
    (Text.not_pair_infix_of_first_not_mem noBracket) fun ⟨_, start⟩ => ?_
  obtain rfl : first = digit := by simpa using start
  rw [notDigit] at isDigit
  cases isDigit

include plain in
/-- The passes over numbers leave brackets alone that hold no number to speak of. -/
theorem normalize_inBrackets (hasPx : Bool)
    (noStem : ∀ scaling : Scaling, ∀ stem' ∈ scaling.stems, ∀ digit, digit.isDigit = true →
      ¬ stem' ++ [digit] <:+: stem ++ ['-', '['] ++ (body ++ [']']))
    (noUnit : ∀ digit, digit.isDigit = true → ¬ [digit, 'p'] <:+: body) (noBracket : '[' ∉ body)
    (head : ∃ first rest, body = first :: rest ∧ first.isDigit = false) :
    normalize (stem ++ ['-', '['] ++ (body ++ [']'])) hasPx =
      stem ++ ['-', '['] ++ (body ++ [']']) := by
  refine normalize_eq_self hasPx noStem (fun digit isDigit => ?_) fun digit isDigit => ?_
  · have notInLead := Text.not_mem_of_forall (noDigit_of_plain plain) isDigit
    refine Text.not_pair_infix_append_of_not_mem notInLead ?_
    exact Text.not_pair_infix_append (noUnit digit isDigit)
      (Text.not_pair_infix_of_second_not_mem (by decide)) (by simp)
  · have noBracket' : '[' ∉ body ++ [']'] := by simp [noBracket]
    obtain ⟨first, rest, starts, notDigit⟩ := head
    exact not_bracket_infix plain noBracket'
      ⟨first, rest ++ [']'], by rw [starts, List.cons_append], notDigit⟩ isDigit

include plain in
theorem normalize_color {color : Text} (isColor : IsColor color) (hasPx : Bool) :
    normalize (stem ++ ['-', '['] ++ (color ++ [']'])) hasPx =
      stem ++ ['-', '['] ++ (color ++ [']']) := by
  have noHyphen : '-' ∉ color ++ [']'] := by
    intro member
    rcases List.mem_append.mp member with inColor | closing
    · exact isColor.not_mem (by decide) inColor
    · exact absurd closing (by decide)
  exact normalize_inBrackets plain hasPx
    (fun _ => Scaling.not_stem_infix fun _ => not_hyphen_infix plain noHyphen)
    (fun _ => isColor.not_unit_infix) (isColor.not_mem (by decide)) isColor.exists_eq_cons

include plain in
/-- A reference keeps its digits, whatever stands between its name and its end. -/
theorem normalize_reference {name closing : Text} (named : ColorToken.Named name)
    (plainClosing : ∀ char ∈ closing, char.isDigit = false ∧ char ∉ ['-', 'p', '['])
    (hasPx : Bool) :
    normalize (stem ++ ['-', '['] ++ (Variable.opening ++ name ++ closing ++ [']'])) hasPx =
      stem ++ ['-', '['] ++ (Variable.opening ++ name ++ closing ++ [']']) := by
  obtain ⟨lead, digits, spelt, noDigit, isDigits, noStem⟩ := named.digits
  have leadDigits : ∀ char ∈ Variable.opening ++ lead, char.isDigit = false := by
    have opening : ∀ char ∈ Variable.opening, char.isDigit = false := by decide
    exact List.forall_mem_append.mpr ⟨opening, noDigit⟩
  have body_eq : Variable.opening ++ name ++ closing =
      (Variable.opening ++ lead) ++ (digits ++ closing) := by
    rw [spelt]
    simp only [List.append_assoc]
  have absent {char : Char} (special : char ∈ ['-', 'p', '[']) :
      char ∉ digits ++ closing ++ [']'] := by
    have noDigit : ∀ char ∈ ['-', 'p', '['], char.isDigit = false ∧ char ∉ [']'] := by decide
    rw [List.mem_append, List.mem_append, not_or, not_or]
    exact ⟨⟨Text.not_mem_of_forall isDigits (noDigit char special).1,
      fun inClosing => (plainClosing char inClosing).2 special⟩, (noDigit char special).2⟩
  refine normalize_inBrackets plain hasPx (fun scaling stem' isStem digit isDigit found => ?_)
    (fun digit isDigit => ?_) (fun member => ?_) ⟨'v', _, rfl, by decide⟩
  · obtain ⟨before, behind, whole⟩ := found
    have split : (stem ++ ['-', '['] ++ (Variable.opening ++ lead)) ++
        (digits ++ closing ++ [']']) = before ++ stem' ++ digit :: behind := by
      rw [body_eq] at whole
      simpa only [List.append_assoc, List.singleton_append] using whole.symm
    have frontDigits : ∀ char ∈ stem ++ ['-', '['] ++ (Variable.opening ++ lead),
        char.isDigit = false := List.forall_mem_append.mpr ⟨noDigit_of_plain plain, leadDigits⟩
    obtain ⟨ends, starts⟩ := Scaling.eq_append_stem isStem isDigit frontDigits
      (absent (by decide)) split
    have nonempty : digits ≠ [] := by
      rintro rfl
      have notDigit : ∀ char ∈ closing ++ [']'], char.isDigit = false :=
        List.forall_mem_append.mpr ⟨fun char member => (plainClosing char member).1, by decide⟩
      exact Text.not_mem_of_forall notDigit isDigit
        (by rw [← List.nil_append closing, starts]; exact List.mem_cons_self)
    refine noStem nonempty scaling stem' isStem (stem ++ ['-', '['] ++ Variable.opening) ?_
    rw [← List.append_assoc] at ends
    rw [ends]
    exact List.suffix_append before stem'
  · rw [body_eq]
    exact Text.not_pair_infix_append_of_not_mem (Text.not_mem_of_forall leadDigits isDigit)
      (Text.not_pair_infix_of_second_not_mem fun member =>
        absent (by decide) (List.mem_append_left [']'] member))
  · rw [body_eq] at member
    rcases List.mem_append.mp member with inFront | inRest
    · rcases List.mem_append.mp inFront with inOpening | inLead
      · exact absurd inOpening (by decide)
      · have isVariable := named.chars '[' (by rw [spelt]; exact List.mem_append_left digits inLead)
        cases isVariable
    · exact absent (by decide) (List.mem_append_left [']'] inRest)

end Normalize

/-! ### Classes of colors -/

namespace BuiltIn

/-- The name of a color that has a class of its own consists of letters; a value with another
character stands in brackets without its blanks. -/
theorem colorClass_of_mem {value : Text} {char : Char} (member : char ∈ value.lowerAscii)
    (other : char.isAlpha = false) (stem : Text) :
    colorClass stem value = hyphenated stem (inBrackets value.compact) := by
  have each : ∀ row ∈ Property.colorKeywords, ∀ char ∈ row.1, char.isAlpha = true := by
    decide
  have noKeyword : Property.colorKeywords.lookup value.lowerAscii = none := by
    rw [List.lookup_eq_none_iff]
    intro row listed
    rw [bne_iff_ne]
    intro same
    rw [same] at member
    rw [each row listed char member] at other
    cases other
  simp only [colorClass, noKeyword]

theorem colorClass_eq {value : Text} (marked : ∃ mark, (mark = '#' ∨ mark = '(') ∧ mark ∈ value)
    (stem : Text) :
    colorClass stem value = stem ++ ['-', '['] ++ (value.compact ++ [']']) := by
  obtain ⟨mark, isMark, member⟩ := marked
  have inLower : mark ∈ value.lowerAscii := by
    refine List.mem_map.mpr ⟨mark, member, ?_⟩
    rcases isMark with rfl | rfl <;> decide
  have other : mark.isAlpha = false := by
    rcases isMark with rfl | rfl <;> decide
  rw [colorClass_of_mem inLower other, hyphenated, inBrackets]
  simp

end BuiltIn

/-- A class in brackets is no class of a token. -/
theorem TokenInjection.hyphenated_bracket_ne {name token : Text}
    (resolved : ColorToken.resolve? name = some token) (stem rest : Text) :
    BuiltIn.hyphenated stem ('[' :: rest) ≠ BuiltIn.hyphenated stem token := by
  intro same
  have isToken : '[' :: rest = token := (List.cons.inj (List.append_cancel_left same)).2
  exact not_mem_token resolved (by decide : isNameChar '[' = false)
    (isToken ▸ List.mem_cons_self)

/-! ### Declarations of one reference -/

/-- A name with a token is trimmed, and nothing in it separates, closes or marks anything. -/
theorem ColorToken.Named.flat {name : Text} (named : Named name) :
    name.Trimmed ∧ ∀ char ∈ name, char ∉ [',', '(', ')', '*', '!'] := by
  refine ⟨Text.trimmed_of_forall fun char member => isBlank_of_isVariableChar
    (named.chars char member), fun char member special => ?_⟩
  have each : ∀ char ∈ [',', '(', ')', '*', '!'], isVariableChar char = false := by decide
  have isVariable := named.chars char member
  rw [each char special] at isVariable
  cases isVariable

theorem ColorToken.Named.isName {name : Text} (named : Named name) : Variable.IsName name := by
  refine Variable.isName_of_forall_ne named.flat.1 fun char member => ⟨?_, ?_, ?_⟩ <;>
  · rintro rfl
    exact named.flat.2 _ member (by decide)

theorem ColorToken.Named.compact_eq {name : Text} (named : Named name) : name.compact = name :=
  Text.compact_eq_self fun char member => isBlank_of_isVariableChar (named.chars char member)

theorem ColorToken.Named.balanced_around {name : Text} (named : Named name)
    (padding : Variable.Padding) : (padding.around name).Balanced :=
  padding.balanced_around named.isName.balanced

theorem ColorToken.Named.not_mem_around {name : Text} (named : Named name)
    (padding : Variable.Padding) {char : Char} (special : char ∈ [',', '(', ')', '*', '!']) :
    char ∉ padding.around name := by
  have notBlank : ∀ char ∈ [',', '(', ')', '*', '!'], isBlank char = false := by decide
  exact padding.not_mem_around (notBlank char special) fun member =>
    named.flat.2 char member special

section Finish

variable {property stem : Text} (listed : (property, stem) ∈ Property.colorStems)

include listed in
/-- What is left to do for a declaration whose value is one reference, if the reference stands for
`value`: the class of `value` is there, and the one use of a variable is known. -/
theorem exists_finish_eq_inject {content value : Text} (balanced : content.Balanced)
    (noStar : '*' ∉ content)
    (resolves : Variable.resolve (Variable.opening ++ content ++ [')']) = value)
    (trimmed : value.Trimmed) (nonempty : value ≠ []) (noMark : '!' ∉ value) (isRem : Bool) :
    ∃ hasPx stop,
      (Declaration.prepare ⟨property, Variable.opening ++ content ++ [')']⟩ isRem
          BuiltIn.generate).finish =
        TokenInjection.inject (normalize (BuiltIn.colorClass stem value) hasPx)
          [Variable.useOf content 0 stop] := by
  have noComment : Comment.strip (Variable.opening ++ content ++ [')']) =
      Variable.opening ++ content ++ [')'] :=
    Comment.strip_eq_self (Variable.not_mem_reference noStar (by decide))
  have sameReference : Text.trim (Variable.opening ++ content ++ [')']) =
      Variable.opening ++ content ++ [')'] :=
    (Variable.trimmed_reference content).trim_eq
  obtain ⟨stop, uses_eq⟩ := Variable.uses_reference balanced
  obtain ⟨plain, kind⟩ := BuiltIn.kind_of_mem_colorStems listed
  have generated : Generator.best BuiltIn.generate (Declaration.text ⟨property, value⟩) isRem =
      BuiltIn.colorClass stem value := by
    rw [BuiltIn.best_generate plain trimmed nonempty (BuiltIn.not_suffix_of_not_mem noMark) isRem]
    simp only [BuiltIn.classOf, kind]
  refine ⟨Text.contains "px".toList value, stop, ?_⟩
  simp only [Declaration.prepare, Prepared.finish, noComment, sameReference, resolves,
    trimmed.trim_eq, uses_eq, generated]

variable {name token : Text} (resolved : ColorToken.resolve? name = some token)
  (padding : Variable.Padding) (isRem : Bool)

include listed resolved in
/-- A reference without a fallback stands for itself. -/
theorem finish_reference :
    (Declaration.prepare ⟨property, padding.reference name⟩ isRem BuiltIn.generate).finish =
      BuiltIn.hyphenated stem token := by
  have named := ColorToken.named_of_resolve? resolved
  have around {char : Char} : char ∈ [',', '(', ')', '*', '!'] → char ∉ padding.around name :=
    named.not_mem_around padding
  have noFallback : Variable.fallbackOf (padding.around name) = none := by
    rw [Variable.fallbackOf, Variable.splitComma?_eq_none (around (by decide)) 0]
    rfl
  have resolves : Variable.resolve (padding.reference name) = padding.reference name := by
    rw [Variable.Padding.reference, Variable.resolve_reference (named.balanced_around padding),
      noFallback]
    rfl
  have compact_eq : Text.compact (padding.reference name) = Variable.opening ++ name ++ [')'] := by
    rw [Variable.Padding.reference, Text.compact_append, Text.compact_append,
      padding.compact_around, named.compact_eq]
    rfl
  have marked : ∃ mark, (mark = '#' ∨ mark = '(') ∧ mark ∈ padding.reference name :=
    ⟨'(', Or.inr rfl, by simp [Variable.Padding.reference, Variable.opening]⟩
  obtain ⟨hasPx, stop, finished⟩ := exists_finish_eq_inject listed (named.balanced_around padding)
    (around (by decide)) resolves (Variable.trimmed_reference _)
    (List.append_ne_nil_of_right_ne_nil _ (List.cons_ne_nil ')' []))
    (Variable.not_mem_reference (around (by decide)) (by decide)) isRem
  have plain := plain_of_mem_colorStems listed
  rw [Variable.Padding.reference, finished, BuiltIn.colorClass_eq marked, compact_eq,
    normalize_reference plain named (by decide) hasPx, Variable.useOf_around padding named.isName,
    TokenInjection.inject_reference plain resolved, BuiltIn.hyphenated, List.append_assoc]
  rfl

include listed resolved in
/-- A reference with a fallback stands for the fallback. -/
theorem exists_finish_referenceOr (padding' : Variable.Padding) {fallback : Text}
    (trimmed : fallback.Trimmed) (nonempty : fallback ≠ []) (balanced : fallback.Balanced)
    (noStar : '*' ∉ fallback) (noMark : '!' ∉ fallback) :
    ∃ hasPx stop,
      (Declaration.prepare ⟨property, padding.referenceOr name padding' fallback⟩ isRem
          BuiltIn.generate).finish =
        TokenInjection.inject (normalize (BuiltIn.colorClass stem fallback) hasPx)
          [⟨name, some fallback, 0, stop⟩] := by
  have named := ColorToken.named_of_resolve? resolved
  have use_eq := Variable.useOf_around_fallback padding padding' named.isName trimmed
  have comma : Text.Balanced [','] := Text.balanced_of_forall_ne (by decide)
  have inside : Text.Balanced (padding.around name ++ ',' :: padding'.around fallback) :=
    (named.balanced_around padding).append (comma.append (padding'.balanced_around balanced))
  have noStarInside : '*' ∉ padding.around name ++ ',' :: padding'.around fallback := by
    rw [List.mem_append, List.mem_cons, not_or, not_or]
    exact ⟨named.not_mem_around padding (by decide), by decide,
      padding'.not_mem_around (by decide) noStar⟩
  have resolves : Variable.resolve (padding.referenceOr name padding' fallback) = fallback := by
    have given : Variable.fallbackOf (padding.around name ++ ',' :: padding'.around fallback) =
        some fallback := congrArg VariableUse.fallback (use_eq 0 0)
    have filled : (some fallback).filter (!·.isEmpty) = some fallback := by
      simp [nonempty]
    rw [Variable.Padding.referenceOr, Variable.resolve_reference inside, given, filled]
    rfl
  obtain ⟨hasPx, stop, finished⟩ := exists_finish_eq_inject listed inside noStarInside resolves
    trimmed nonempty noMark isRem
  exact ⟨hasPx, stop, by rw [Variable.Padding.referenceOr, finished, use_eq]⟩

include listed resolved in
/-- A fallback that spells a color gives way to the token. -/
theorem finish_referenceOr (padding' : Variable.Padding) {fallback : Text}
    (isColor : IsColor fallback) :
    (Declaration.prepare ⟨property, padding.referenceOr name padding' fallback⟩ isRem
        BuiltIn.generate).finish = BuiltIn.hyphenated stem token := by
  obtain ⟨hasPx, stop, finished⟩ := exists_finish_referenceOr listed resolved padding isRem padding'
    isColor.trimmed isColor.ne_nil isColor.balanced (isColor.not_mem (by decide))
    (isColor.not_mem (by decide))
  have plain := plain_of_mem_colorStems listed
  rw [finished, BuiltIn.colorClass_eq isColor.exists_mark,
    normalize_color plain isColor.compact hasPx,
    TokenInjection.inject_fallback plain resolved
      (TokenInjection.recognizable_of_isColor isColor), BuiltIn.hyphenated, List.append_assoc]
  rfl

include listed resolved in
/-- A variable with a token ends as its token, whether its reference has a fallback or not. -/
theorem finish_eq_token :
    (Declaration.prepare ⟨property, padding.reference name⟩ isRem BuiltIn.generate).finish =
        BuiltIn.hyphenated stem token ∧
      ∀ (padding' : Variable.Padding) (fallback : Text), IsColor fallback →
        (Declaration.prepare ⟨property, padding.referenceOr name padding' fallback⟩ isRem
            BuiltIn.generate).finish = BuiltIn.hyphenated stem token :=
  ⟨finish_reference listed resolved padding isRem, fun padding' _ isColor =>
    finish_referenceOr listed resolved padding isRem padding' isColor⟩

/-- The fifth color of texts, with a blank in front of its name, and then with white to fall back
on. -/
theorem finish_text :
    (Declaration.prepare ⟨"color".toList, "var( --text-5)".toList⟩ true BuiltIn.generate).finish =
        "text-text_5".toList ∧
      (Declaration.prepare ⟨"color".toList, "var( --text-5,#fff )".toList⟩ true
        BuiltIn.generate).finish = "text-text_5".toList := by
  have listed : ("color".toList, "text".toList) ∈ Property.colorStems := by decide
  have resolved : ColorToken.resolve? "--text-5".toList = some "text_5".toList := by decide
  have white : IsColor "#fff".toList := .hex (by decide) (by decide)
  let padding : Variable.Padding := ⟨[' '], [], by decide, by decide⟩
  let padding' : Variable.Padding := ⟨[], [' '], by decide, by decide⟩
  have alone : padding.reference "--text-5".toList = "var( --text-5)".toList := by decide
  have together : padding.referenceOr "--text-5".toList padding' "#fff".toList =
      "var( --text-5,#fff )".toList := by decide
  have same : BuiltIn.hyphenated "text".toList "text_5".toList = "text-text_5".toList := by decide
  obtain ⟨first, second⟩ := finish_eq_token listed resolved padding true
  rw [← alone, ← together, ← same]
  exact ⟨first, second padding' _ white⟩

end Finish

end AtomicCss
