/-
This file compares a reference with an empty fallback to a reference without one. Reading, filling in
and generating make no difference between the two: the fallback counts as none, so the reference
stands for itself and comes into the class in brackets, as it was written. But the text that a token
is looked for by is put together from the name, with nothing but blanks between it and the
parentheses, and the comma in front of the empty fallback stands there as well. So a variable with a
token keeps its reference, where the same variable without the comma gives way to the token.
-/

import AtomicCss.Proofs.TokenSurvival

namespace AtomicCss

/-! ### A comma behind a name -/

namespace TokenInjection

section Comma

variable {stem name : Text} (plain : PlainStem stem) (named : ColorToken.Named name)

include plain in
/-- The class with a comma behind the name, split at its only parenthesis that opens. -/
theorem exists_comma_eq_append (name : Text) :
    ∃ lead, '(' ∉ lead ∧
      stem ++ ['-', '['] ++ (Variable.opening ++ name ++ [',', ')'] ++ [']']) =
        lead ++ '(' :: (name ++ [',', ')', ']']) := by
  refine ⟨stem ++ ['-'] ++ "[var".toList, fun member => ?_, by simp [Variable.opening]⟩
  rcases List.mem_append.mp member with inStem | inOpening
  · exact not_mem_stem plain (by decide) inStem
  · exact absurd inOpening (by decide)

include named in
theorem not_mem_comma {char : Char} (special : char ∈ ['(', '[']) :
    char ∉ name ++ [',', ')', ']'] := by
  have each : ∀ char ∈ ['(', '['], isVariableChar char = false ∧ char ∉ [',', ')', ']'] := by decide
  rw [List.mem_append, not_or]
  exact ⟨Text.not_mem_of_forall named.chars (each char special).1, (each char special).2⟩

include plain named in
/-- The comma hides the reference. -/
theorem replaceReference_comma (token : Text) :
    replaceReference name token
        (stem ++ ['-', '['] ++ (Variable.opening ++ name ++ [',', ')'] ++ [']'])) =
      stem ++ ['-', '['] ++ (Variable.opening ++ name ++ [',', ')'] ++ [']']) := by
  obtain ⟨lead, notInLead, split⟩ := exists_comma_eq_append plain name
  rw [split]
  refine replaceReference_eq_self_of_ne notInLead (not_mem_comma named (by decide)) ?_ token
  intro blanks trail behind blankBefore blankBehind same
  obtain ⟨first, rest, rfl⟩ := List.exists_cons_of_ne_nil named.nonempty
  have full : isBlank first = false :=
    isBlank_of_isVariableChar (named.chars first List.mem_cons_self)
  cases blanks with
  | nil =>
    have after : [',', ')', ']'] = trail ++ ')' :: behind := List.append_cancel_left same
    cases trail with
    | nil => exact absurd (List.cons.inj after).1 (by decide)
    | cons char trail =>
      obtain ⟨rfl, _⟩ := List.cons.inj after
      exact absurd (blankBehind ',' List.mem_cons_self) (by decide)
  | cons char blanks =>
    obtain ⟨rfl, _⟩ := List.cons.inj same
    rw [blankBefore first List.mem_cons_self] at full
    cases full

include plain named in
/-- Neither the token nor the brackets of a name are found. -/
theorem inject_comma (start stop : Nat) :
    inject (stem ++ ['-', '['] ++ (Variable.opening ++ name ++ [',', ')'] ++ [']']))
        [⟨name, some [], start, stop⟩] =
      stem ++ ['-', '['] ++ (Variable.opening ++ name ++ [',', ')'] ++ [']']) := by
  have used : injectUse (stem ++ ['-', '['] ++ (Variable.opening ++ name ++ [',', ')'] ++ [']']))
      ⟨name, some [], start, stop⟩ =
        stem ++ ['-', '['] ++ (Variable.opening ++ name ++ [',', ')'] ++ [']']) := by
    unfold injectUse
    cases ColorToken.resolve? name with
    | none => rfl
    | some token => exact replaceReference_comma plain named token
  have brackets : stem ++ ['-', '['] ++ (Variable.opening ++ name ++ [',', ')'] ++ [']']) =
      stem ++ ['-'] ++ '[' :: ("var".toList ++ '(' :: (name ++ [',', ')', ']'])) := by
    simp [Variable.opening]
  rw [inject_singleton, used, brackets]
  exact bareBrackets_call (not_mem_stem plain (by decide)) (by decide)
    (not_mem_comma named (by decide))

end Comma

end TokenInjection

/-! ### References with an empty fallback -/

section Finish

variable {property stem : Text} (listed : (property, stem) ∈ Property.colorStems)
  {name token : Text} (resolved : ColorToken.resolve? name = some token)
  (padding padding' : Variable.Padding) (isRem : Bool)

include listed resolved in
/-- A reference with an empty fallback stands for itself, and is not found again. -/
theorem finish_emptyFallback :
    (Declaration.prepare ⟨property, padding.referenceOr name padding' []⟩ isRem
        BuiltIn.generate).finish =
      BuiltIn.hyphenated stem (BuiltIn.inBrackets (Variable.opening ++ name ++ [',', ')'])) := by
  have named := ColorToken.named_of_resolve? resolved
  have noFallback : Text.Trimmed [] := ⟨rfl, rfl⟩
  have use_eq := Variable.useOf_around_fallback padding padding' named.isName noFallback
  have balanced : Text.Balanced (padding.around name ++ ',' :: padding'.around []) :=
    (named.balanced_around padding).append ((Text.balanced_of_forall_ne (by decide)).append
      (padding'.balanced_around Text.balanced_nil) : Text.Balanced ([','] ++ padding'.around []))
  have absent {char : Char} (special : char ∈ ['*', '!']) :
      char ∉ padding.around name ++ ',' :: padding'.around [] := by
    have each : ∀ char ∈ ['*', '!'],
        char ∈ [',', '(', ')', '*', '!'] ∧ char ≠ ',' ∧ isBlank char = false := by decide
    obtain ⟨inName, notComma, notBlank⟩ := each char special
    rw [List.mem_append, List.mem_cons, not_or, not_or]
    exact ⟨named.not_mem_around padding inName, notComma,
      padding'.not_mem_around notBlank List.not_mem_nil⟩
  have resolves : Variable.resolve (padding.referenceOr name padding' []) =
      padding.referenceOr name padding' [] := by
    have given : Variable.fallbackOf (padding.around name ++ ',' :: padding'.around []) =
        some [] := congrArg VariableUse.fallback (use_eq 0 0)
    rw [Variable.Padding.referenceOr, Variable.resolve_reference balanced, given]
    rfl
  have compact_eq : Text.compact (padding.referenceOr name padding' []) =
      Variable.opening ++ name ++ [',', ')'] := by
    have behind : Text.compact (',' :: padding'.around []) = [','] := by
      rw [← List.singleton_append, Text.compact_append, padding'.compact_around]
      rfl
    have opened : Text.compact Variable.opening = Variable.opening := by decide
    have closed : Text.compact [')'] = [')'] := by decide
    rw [Variable.Padding.referenceOr, Text.compact_append, Text.compact_append, Text.compact_append,
      padding.compact_around, named.compact_eq, behind, opened, closed]
    simp only [List.append_assoc, List.singleton_append]
  have marked : ∃ mark, (mark = '#' ∨ mark = '(') ∧ mark ∈ padding.referenceOr name padding' [] :=
    ⟨'(', Or.inr rfl, by simp [Variable.Padding.referenceOr, Variable.opening]⟩
  obtain ⟨hasPx, stop, finished⟩ := exists_finish_eq_inject listed balanced (absent (by decide))
    resolves (Variable.trimmed_reference _)
    (List.append_ne_nil_of_right_ne_nil _ (List.cons_ne_nil ')' []))
    (Variable.not_mem_reference (absent (by decide)) (by decide)) isRem
  have plain := plain_of_mem_colorStems listed
  rw [Variable.Padding.referenceOr, finished, BuiltIn.colorClass_eq marked, compact_eq,
    normalize_reference plain named (by decide) hasPx, use_eq,
    TokenInjection.inject_comma plain named]
  simp [BuiltIn.hyphenated, BuiltIn.inBrackets]

include listed resolved in
/-- With an empty fallback a variable never ends as its token, and without one it always does. -/
theorem finish_emptyFallback_ne :
    (Declaration.prepare ⟨property, padding.reference name⟩ isRem BuiltIn.generate).finish =
        BuiltIn.hyphenated stem token ∧
      (Declaration.prepare ⟨property, padding.referenceOr name padding' []⟩ isRem
          BuiltIn.generate).finish =
        BuiltIn.hyphenated stem (BuiltIn.inBrackets (Variable.opening ++ name ++ [',', ')'])) ∧
      (Declaration.prepare ⟨property, padding.referenceOr name padding' []⟩ isRem
          BuiltIn.generate).finish ≠
        (Declaration.prepare ⟨property, padding.reference name⟩ isRem BuiltIn.generate).finish := by
  have alone := finish_reference listed resolved padding isRem
  have together := finish_emptyFallback listed resolved padding padding' isRem
  refine ⟨alone, together, ?_⟩
  rw [alone, together]
  exact TokenInjection.hyphenated_bracket_ne resolved stem _

/-- The first color of texts keeps its reference once a comma and a blank stand behind its name. -/
theorem finish_emptyFallback_ne_text :
    (Declaration.prepare ⟨"color".toList, "var(--text-1, )".toList⟩ false BuiltIn.generate).finish =
        "text-[var(--text-1,)]".toList ∧
      (Declaration.prepare ⟨"color".toList, "var(--text-1, )".toList⟩ false
          BuiltIn.generate).finish ≠
        (Declaration.prepare ⟨"color".toList, "var(--text-1)".toList⟩ false
          BuiltIn.generate).finish := by
  have listed : ("color".toList, "text".toList) ∈ Property.colorStems := by decide
  have resolved : ColorToken.resolve? "--text-1".toList = some "text_1".toList := by decide
  let padding : Variable.Padding := ⟨[], [], by decide, by decide⟩
  let padding' : Variable.Padding := ⟨[' '], [], by decide, by decide⟩
  have alone : padding.reference "--text-1".toList = "var(--text-1)".toList := by decide
  have together : padding.referenceOr "--text-1".toList padding' [] = "var(--text-1, )".toList := by
    decide
  obtain ⟨_, kept, different⟩ := finish_emptyFallback_ne listed resolved padding padding' false
  rw [← alone, ← together]
  exact ⟨kept, different⟩

end Finish

end AtomicCss
