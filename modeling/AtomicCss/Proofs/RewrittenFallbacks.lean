/-
This file settles which fallbacks still give way to the token once earlier stages have written them
in their own way. The generator has its own words for the colors that have a keyword; apart from
letter case they are the keywords themselves, with one exception, and letter case is among the
spellings that are tried. The call of a color function loses its blanks, which is among the spellings
as well, and it may lose units, which is not: without a unit the call is shorter than any spelling.

So the token is written exactly if the keyword is its own word and the call keeps its units.
-/

import AtomicCss.Proofs.ColorCalls
import AtomicCss.Proofs.GuardedNumbers
import AtomicCss.Proofs.TokenSurvival

namespace AtomicCss

open ClassNumber

namespace TokenInjection

/-! ### Words behind a hyphen -/

/-- Where a name goes on to the end, only the whole of it can be found behind a hyphen. -/
theorem readHyphenated?_of_isName {variants : List Text} {text : Text}
    (isName : ∀ char ∈ text, isNameChar char = true) :
    readHyphenated? variants ('-' :: text) =
      if text ∈ variants then some ('-' :: text) else none := by
  have whole : ∀ variant ∈ variants, ∀ source,
      ((Text.after? variant text).bind fun rest =>
        if Text.stops isNameChar rest = true then some ('-' :: variant) else none) = some source →
      variant = text ∧ source = '-' :: text := by
    intro variant _ source reading
    obtain ⟨rest, found, stopped⟩ := Option.bind_eq_some_iff.mp reading
    have spelt := Text.after?_eq_some_iff.mp found
    by_cases stops : Text.stops isNameChar rest = true
    · rw [if_pos stops] at stopped
      cases rest with
      | nil =>
        rw [List.append_nil] at spelt
        rw [spelt]
        exact ⟨rfl, (Option.some.inj stopped).symm⟩
      | cons char rest =>
        have inName := isName char (by rw [spelt]; simp)
        simp [Text.stops, inName] at stops
    · rw [if_neg stops] at stopped
      cases stopped
  rw [readHyphenated?]
  split
  · next member =>
    refine findSome?_eq_some_of_unique ⟨text, member, ?_⟩ fun variant listed source reading =>
      (whole variant listed source reading).2
    have found : Text.after? text text = some [] := Text.after?_eq_some_iff.mpr (by simp)
    simp only [found, Option.bind_eq_bind, Option.bind_some]
    rfl
  · next absent =>
    rw [List.findSome?_eq_none_iff]
    intro variant listed
    rw [Option.eq_none_iff_forall_ne_some]
    intro source reading
    obtain ⟨rfl, _⟩ := whole variant listed source reading
    exact absent listed

/-- In a name nothing is found in front of the last hyphen: a spelling has no hyphen, and what stands
behind an earlier hyphen has one. -/
theorem silentOver_fallbackMatcher_isName {fallback stem word : Text}
    (isName : ∀ char ∈ stem ++ '-' :: word, isNameChar char = true) (noHyphen : '-' ∉ fallback)
    (token : Text) (before : Option Char) :
    (fallbackMatcher (variants fallback) token).SilentOver before stem ('-' :: word) := by
  induction stem generalizing before with
  | nil => trivial
  | cons char stem inductionHypothesis =>
    have behind : ∀ other ∈ stem ++ '-' :: word, isNameChar other = true := fun other member =>
      isName other (List.mem_cons_of_mem char member)
    refine ⟨Matcher.silent_of_eq_none ?_, inductionHypothesis behind (some char)⟩
    by_cases hyphen : char = '-'
    · subst hyphen
      have absent : stem ++ '-' :: word ∉ variants fallback := fun member =>
        noHyphen ((mem_iff_of_mem_variants member (by decide)).mp (by simp))
      rw [fallbackMatcher, readHyphenated?_of_isName behind, if_neg absent]
      rfl
    · refine fallbackMatcher_eq_none ?_ hyphen _ _ before _
      rintro rfl
      cases isName _ List.mem_cons_self

/-- A word behind the last hyphen of a name gives way to the token if it is a spelling of the
fallback, and nothing else of the name does. -/
theorem replaceFallback_hyphenated {fallback stem word : Text}
    (isName : ∀ char ∈ stem ++ '-' :: word, isNameChar char = true) (noHyphen : '-' ∉ word)
    (noHyphen' : '-' ∉ fallback) (token : Text) :
    replaceFallback fallback token (stem ++ '-' :: word) =
      if word ∈ variants fallback then stem ++ '-' :: token else stem ++ '-' :: word := by
  have silent := silentOver_fallbackMatcher_isName isName noHyphen' token none
  have wordName : ∀ char ∈ word, isNameChar char = true := fun char member =>
    isName char (List.mem_append_right stem (List.mem_cons_of_mem '-' member))
  split
  · next member =>
    have taken (before : Option Char) :
        fallbackMatcher (variants fallback) token before ('-' :: word ++ []) =
          some ('-' :: word, '-' :: token) := by
      rw [List.append_nil, fallbackMatcher, readHyphenated?_of_isName wordName, if_pos member]
      rfl
    have silent' : (fallbackMatcher (variants fallback) token).SilentOver none stem
        ('-' :: word ++ []) := by
      rwa [List.append_nil]
    have replaced := Matcher.sweep_append_of_first_taken silent' (List.cons_ne_nil '-' word) (taken _)
    rw [List.append_nil, Matcher.sweep_nil, List.append_nil] at replaced
    exact replaced
  · next absent =>
    refine Matcher.sweep_eq_self_of_silentOver (Matcher.silentOver_append.mpr
      ⟨by rwa [List.append_nil], Matcher.silent_of_eq_none ?_,
        Matcher.silentOver_of_forall_mem (fun char member => ?_) _ []⟩)
    · rw [List.append_nil, fallbackMatcher, readHyphenated?_of_isName wordName, if_neg absent]
      rfl
    · refine fallbackMatcher_eq_none ?_ ?_ _ _
      · rintro rfl
        cases wordName _ member
      · rintro rfl
        exact noHyphen member

/-! ### Fallbacks that came out shorter -/

/-- In brackets that are too short for any spelling none is found. -/
theorem replaceFallback_eq_self_of_length {fallback lead text : Text}
    (recognizable : Recognizable fallback)
    (plain : ∀ char ∈ lead, char ≠ '#' ∧ char ≠ '(' ∧ char ≠ '[')
    (noBracket : '[' ∉ text) (noHyphen : '-' ∉ text)
    (shorter : text.length ≤ fallback.compact.length) (token : Text) :
    replaceFallback fallback token (lead ++ '[' :: text) = lead ++ '[' :: text := by
  have noneInside : readBracketed? (variants fallback) ('[' :: text) = none := by
    rw [readBracketed?, List.findSome?_eq_none_iff]
    intro variant member
    rw [Option.eq_none_iff_forall_ne_some]
    intro source reading
    simp only [bind, Option.bind_eq_some_iff] at reading
    obtain ⟨behind, found, closing, closed, _⟩ := reading
    obtain ⟨blanks, after, _, rfl, _⟩ := readClosing?_eq_some closed
    have spelt : text = text.takeWhile isBlank ++ (variant ++ (blanks ++ ']' :: after)) := by
      rw [← Text.after?_eq_some_iff.mp found]
      exact List.takeWhile_append_dropWhile.symm
    have longer := length_compact_le_of_mem_variants member
    have lengths := congrArg List.length spelt
    simp only [List.length_append, List.length_cons] at lengths
    omega
  refine Matcher.sweep_eq_self_of_silentOver (Matcher.silentOver_append.mpr
    ⟨by rw [List.append_nil]; exact silentOver_fallbackMatcher recognizable token plain none,
      Matcher.silent_of_eq_none ?_,
      Matcher.silentOver_of_forall_mem (fun char member => ?_) _ []⟩)
  · rw [List.append_nil, fallbackMatcher, noneInside]
    rfl
  · refine fallbackMatcher_eq_none ?_ ?_ _ _
    · rintro rfl
      exact noBracket member
    · rintro rfl
      exact noHyphen member

/-! ### One variable -/

section Injection

variable {name token : Text} (resolved : ColorToken.resolve? name = some token)

include resolved in
/-- A name is left as the token or as it is. -/
theorem inject_hyphenated {fallback stem word : Text}
    (nonempty : fallback ≠ []) (isName : ∀ char ∈ stem ++ '-' :: word, isNameChar char = true)
    (noHyphen : '-' ∉ word) (noHyphen' : '-' ∉ fallback) (start stop : Nat) :
    inject (stem ++ '-' :: word) [⟨name, some fallback, start, stop⟩] =
      if word ∈ variants fallback then stem ++ '-' :: token else stem ++ '-' :: word := by
  have result : ∀ char ∈ (if word ∈ variants fallback then stem ++ '-' :: token
      else stem ++ '-' :: word), isNameChar char = true := by
    split
    · refine List.forall_mem_append.mpr ⟨fun char member => isName char (List.mem_append_left _ member),
        List.forall_mem_cons.mpr ⟨rfl, (ColorToken.token_chars resolved).2⟩⟩
    · exact isName
  rw [inject_singleton, injectUse_fallback resolved nonempty,
    replaceFallback_hyphenated isName noHyphen noHyphen',
    replaceReference_eq_self (Text.not_mem_of_forall result (by decide)) name token]
  exact bareBrackets_eq_self (Text.not_mem_of_forall result (by decide))

include resolved in
/-- A call that is too short to be the fallback stays, brackets included. -/
theorem inject_shorter {fallback stem letters rest : Text} (plain : PlainStem stem)
    (recognizable : Recognizable fallback) (isAlpha : ∀ char ∈ letters, char.isAlpha = true)
    (absent : ∀ char ∈ ['-', '[', '('], char ∉ rest)
    (shorter : (letters ++ '(' :: rest).length ≤ fallback.compact.length) (start stop : Nat) :
    inject (stem ++ ['-', '['] ++ (letters ++ '(' :: rest))
        [⟨name, some fallback, start, stop⟩] =
      stem ++ ['-', '['] ++ (letters ++ '(' :: rest) := by
  have isWord : ∀ char ∈ letters, isWordChar char = true := fun char member =>
    isWordChar_of_isAlpha (isAlpha char member)
  have isName : ∀ char ∈ letters, isNameChar char = true := fun char member =>
    isNameChar_of_isWordChar (isWord char member)
  have brackets : stem ++ ['-', '['] ++ (letters ++ '(' :: rest) =
      stem ++ ['-'] ++ '[' :: (letters ++ '(' :: rest) := by simp
  have parentheses : stem ++ ['-'] ++ '[' :: (letters ++ '(' :: rest) =
      stem ++ ['-', '['] ++ letters ++ '(' :: rest := by simp
  have notInFront : '(' ∉ stem ++ ['-', '['] ++ letters := by
    rw [List.append_cons, List.mem_append, List.mem_append, not_or, not_or]
    exact ⟨⟨not_mem_stem plain (by decide), by decide⟩, Text.not_mem_of_forall isWord (by decide)⟩
  have kept : replaceReference name token (stem ++ ['-'] ++ '[' :: (letters ++ '(' :: rest)) =
      stem ++ ['-'] ++ '[' :: (letters ++ '(' :: rest) := by
    rw [parentheses]
    refine replaceReference_eq_self_of_ne notInFront (absent '(' (by decide)) ?_ token
    rintro blanks trail behind _ _ rfl
    refine absent '-' (by decide) (List.mem_append_right blanks (List.mem_append_left _ ?_))
    exact ColorToken.hyphen_mem_of_resolve? resolved
  have replaced := replaceFallback_eq_self_of_length recognizable (ne_of_mem_stem plain)
    (not_mem_call isAlpha (by decide) (absent '[' (by decide)))
    (not_mem_call isAlpha (by decide) (absent '-' (by decide))) shorter token
  rw [brackets, inject_singleton, injectUse_fallback resolved recognizable.ne_nil, replaced, kept]
  exact bareBrackets_call (not_mem_stem plain (by decide)) isName (absent '[' (by decide))

end Injection

end TokenInjection

/-! ### The class of a call -/

section Call

variable {stem : Text} (plain : TokenInjection.PlainStem stem) (call : ColorCall)

theorem ColorCall.recognizable : TokenInjection.Recognizable call.text :=
  ⟨call.trimmed, call.exists_mark, call.not_mem_text (by decide) (by decide),
    call.not_mem_text (by decide) (by decide)⟩

include plain in
/-- Up to its parenthesis a call has no units. -/
theorem sweep_pixels_call (rest : Text) :
    pixels.sweep none (stem ++ ['-', '['] ++ (call.letters ++ '(' :: rest)) =
      stem ++ ['-', '['] ++ (call.letters ++ '(' :: pixels.sweep (some '(') rest) := by
  let front := stem ++ ['-', '['] ++ call.letters ++ ['(']
  have noDigit : ∀ char ∈ front, char.isDigit = false :=
    List.forall_mem_append.mpr ⟨List.forall_mem_append.mpr ⟨noDigit_of_plain plain,
      fun char member => isDigit_of_isAlpha (call.isAlpha char member)⟩, by decide⟩
  have noHyphen : front.getLast? ≠ some '-' := by
    rw [List.getLast?_concat]
    decide
  have silent : pixels.SilentOver none front rest :=
    PixelLength.silentOver_pixels noDigit noHyphen none
  simpa [front] using Matcher.sweep_append_of_silentOver silent

include plain in
/-- Of a call nothing but units is lost, and one is lost unless all are carried on. -/
theorem exists_normalize_call (hasPx : Bool) :
    ∃ rest, normalize (stem ++ ['-', '['] ++ (call.text.compact ++ [']'])) hasPx =
        stem ++ ['-', '['] ++ (call.letters ++ '(' :: rest) ∧
      (∀ char ∈ ['-', '[', '('], char ∉ rest) ∧
      (ColorCall.CarriesUnits call.arguments → rest = call.inside.compact ++ [')', ']']) ∧
      (¬ ColorCall.CarriesUnits call.arguments →
        rest.length < (call.inside.compact ++ [')', ']']).length) := by
  let inside := call.inside.compact ++ [')', ']']
  let rest := pixels.sweep (some '(') inside
  have absent : ∀ char ∈ ['-', '[', '('], char ∉ rest := fun char special member =>
    call.not_mem_compact_inside special (mem_of_mem_sweep_pixels member)
  have whole : stem ++ ['-', '['] ++ (call.text.compact ++ [']']) =
      stem ++ ['-', '['] ++ (call.letters ++ '(' :: inside) := by
    rw [call.compact_text]
    simp [inside]
  have swept := sweep_pixels_call plain call inside
  refine ⟨rest, ?_, absent, fun carries => ?_, fun loses => ?_⟩
  · rw [whole]
    refine (normalize_eq_sweep_pixels hasPx (fun digit => ?_) (fun digit => ?_)
      fun digit => ?_).trans swept
    · exact not_hyphen_infix plain
        (not_mem_call call.isAlpha (by decide) (call.not_mem_compact_inside (by decide)))
    · rw [swept]
      exact not_hyphen_infix plain (not_mem_call call.isAlpha (by decide) (absent '-' (by decide)))
    · rw [swept]
      exact not_bracket_infix plain
        (not_mem_call call.isAlpha (by decide) (absent '[' (by decide)))
        (exists_call_eq_cons call.isAlpha rest)
  · exact sweep_pixels_eq_self_of_not_hasLooseUnit
      (fun hasUnit => call.hasLooseUnit_inside.mp hasUnit carries) _
  · exact length_sweep_pixels_lt (call.hasLooseUnit_inside.mpr loses) _

end Call

/-! ### Keywords -/

/-- What the generator writes for a keyword, and when it is the keyword itself. -/
theorem exists_colorKeyword {keyword : Text} (listed : ∃ row ∈ Property.colorKeywords, row.1 = keyword) :
    ∃ word, Property.colorKeywords.lookup keyword = some word ∧
      (∀ char ∈ word, char.isAlpha = true) ∧ (∀ char ∈ keyword, char.isAlpha = true) ∧
      keyword ≠ [] ∧
      (keyword ≠ "currentcolor".toList → word = keyword) ∧
      (keyword = "currentcolor".toList → word = "current".toList) := by
  have each : ∀ row ∈ Property.colorKeywords, Property.colorKeywords.lookup row.1 = some row.2 ∧
      (∀ char ∈ row.2, char.isAlpha = true) ∧ (∀ char ∈ row.1, char.isAlpha = true) ∧
      row.1 ≠ [] ∧ (row.1 ≠ "currentcolor".toList → row.2 = row.1) ∧
      (row.1 = "currentcolor".toList → row.2 = "current".toList) := by
    decide +kernel
  obtain ⟨row, member, rfl⟩ := listed
  exact ⟨row.2, each row member⟩

theorem isNameChar_of_mem_colorStems {row : Text × Text} (listed : row ∈ Property.colorStems) :
    ∀ char ∈ row.2, isNameChar char = true := by
  have each : ∀ row ∈ Property.colorStems, ∀ char ∈ row.2, isNameChar char = true := by
    decide +kernel
  exact each row listed

/-! ### Rewritten fallbacks -/

/-- A fallback that a stage writes in its own way: a keyword of the generator in any letters, or the
call of a color function. -/
inductive RewrittenFallback where
  | keyword (text : Text) (listed : ∃ row ∈ Property.colorKeywords, row.1 = text.lowerAscii)
  | call (colorCall : ColorCall)

namespace RewrittenFallback

def text : RewrittenFallback → Text
  | keyword text _ => text
  | call colorCall => colorCall.text

/-- Whether the class still holds a spelling of the fallback. -/
def Survives : RewrittenFallback → Prop
  | keyword text _ => text.lowerAscii ≠ "currentcolor".toList
  | call colorCall => ColorCall.CarriesUnits colorCall.arguments

instance decidableSurvives : (fallback : RewrittenFallback) → Decidable fallback.Survives
  | keyword text _ => inferInstanceAs (Decidable (text.lowerAscii ≠ "currentcolor".toList))
  | call colorCall => inferInstanceAs (Decidable (ColorCall.CarriesUnits colorCall.arguments))

end RewrittenFallback

theorem unbroken_of_isAlpha {text : Text} (isAlpha : ∀ char ∈ text, char.isAlpha = true) :
    ∀ char ∈ text, isBlank char = false := fun char member =>
  isBlank_of_isWordChar (isWordChar_of_isAlpha (isAlpha char member))

/-- The generator's word for a keyword is a spelling of it, but for one keyword: no spelling is
shorter than what is spelt, and that word is. -/
theorem word_mem_variants_iff {keyword word : Text}
    (isKeyword : ∃ row ∈ Property.colorKeywords, row.1 = keyword.lowerAscii)
    (found : Property.colorKeywords.lookup keyword.lowerAscii = some word)
    (isAlpha : ∀ char ∈ keyword, char.isAlpha = true) :
    word ∈ TokenInjection.variants keyword ↔ keyword.lowerAscii ≠ "currentcolor".toList := by
  obtain ⟨word', found', _, _, someKey, itself, current⟩ := exists_colorKeyword isKeyword
  obtain rfl : word = word' := Option.some.inj (found.symm.trans found')
  have unbroken := unbroken_of_isAlpha isAlpha
  constructor
  · intro member isCurrent
    have atLeast := TokenInjection.length_compact_le_of_mem_variants member
    have lengths : keyword.length = "currentcolor".toList.length :=
      (List.length_map Char.toLower).symm.trans (congrArg List.length isCurrent)
    rw [Text.compact_eq_self unbroken, lengths, current isCurrent] at atLeast
    exact absurd atLeast (by decide)
  · intro notCurrent
    have lower_eq := Text.lower_eq_lowerAscii isAlpha
    rw [itself notCurrent, ← lower_eq]
    exact TokenInjection.lower_mem_variants (Text.trimmed_of_forall unbroken).trim_eq
      (by rw [lower_eq]; exact someKey)

section Finish

variable {property stem : Text} (listed : (property, stem) ∈ Property.colorStems)
  {name token : Text} (resolved : ColorToken.resolve? name = some token)
  (padding padding' : Variable.Padding) (isRem : Bool)

include listed resolved in
/-- The generator's word for a keyword gives way to the token if it is a spelling of the keyword. -/
theorem finish_keyword {keyword word : Text} (nonempty : keyword ≠ [])
    (found : Property.colorKeywords.lookup keyword.lowerAscii = some word)
    (wordAlpha : ∀ char ∈ word, char.isAlpha = true)
    (isAlpha : ∀ char ∈ keyword, char.isAlpha = true) :
    (Declaration.prepare ⟨property, padding.referenceOr name padding' keyword⟩ isRem
        BuiltIn.generate).finish =
      if word ∈ TokenInjection.variants keyword then BuiltIn.hyphenated stem token
      else BuiltIn.hyphenated stem word := by
  have balanced : keyword.Balanced := Text.balanced_of_forall_ne fun char member => by
    refine ⟨?_, ?_⟩ <;> (rintro rfl; cases isAlpha _ member)
  obtain ⟨hasPx, stop, finished⟩ := exists_finish_referenceOr listed resolved padding isRem padding'
    (Text.trimmed_of_forall (unbroken_of_isAlpha isAlpha)) nonempty balanced
    (Text.not_mem_of_forall isAlpha (by decide)) (Text.not_mem_of_forall isAlpha (by decide))
  have isName : ∀ char ∈ stem ++ '-' :: word, isNameChar char = true := by
    refine List.forall_mem_append.mpr ⟨isNameChar_of_mem_colorStems listed,
      List.forall_mem_cons.mpr ⟨rfl, fun char member => ?_⟩⟩
    exact isNameChar_of_isWordChar (isWordChar_of_isAlpha (wordAlpha char member))
  have noDigit : ∀ char ∈ stem ++ '-' :: word, char.isDigit = false := by
    refine List.forall_mem_append.mpr ⟨fun char member => (plain_of_mem_colorStems listed char
      member).1, List.forall_mem_cons.mpr ⟨rfl, fun char member =>
        isDigit_of_isAlpha (wordAlpha char member)⟩⟩
  have generated : BuiltIn.colorClass stem keyword = stem ++ '-' :: word := by
    rw [BuiltIn.colorClass, found]
    rfl
  rw [finished, generated, normalize_of_noDigit noDigit]
  exact TokenInjection.inject_hyphenated resolved nonempty isName
    (Text.not_mem_of_forall wordAlpha (by decide)) (Text.not_mem_of_forall isAlpha (by decide)) _ _

include listed resolved in
theorem finish_keyword_iff {keyword : Text}
    (isKeyword : ∃ row ∈ Property.colorKeywords, row.1 = keyword.lowerAscii) :
    (Declaration.prepare ⟨property, padding.referenceOr name padding' keyword⟩ isRem
        BuiltIn.generate).finish = BuiltIn.hyphenated stem token ↔
      keyword.lowerAscii ≠ "currentcolor".toList := by
  obtain ⟨word, found, wordAlpha, keyAlpha, someKey, _⟩ := exists_colorKeyword isKeyword
  have isAlpha : ∀ char ∈ keyword, char.isAlpha = true := fun char member =>
    isAlpha_of_isAlpha_toLower (keyAlpha _ (List.mem_map_of_mem member))
  have nonempty : keyword ≠ [] := by
    rintro rfl
    exact someKey rfl
  rw [finish_keyword listed resolved padding padding' isRem nonempty found wordAlpha isAlpha,
    ← word_mem_variants_iff isKeyword found isAlpha]
  split
  · next spelled => exact iff_of_true rfl spelled
  · next absent =>
    refine iff_of_false (fun same => ?_) absent
    have isToken : word = token := (List.cons.inj (List.append_cancel_left same)).2
    have underscore := ColorToken.underscore_mem_of_resolve? resolved
    rw [← isToken] at underscore
    cases wordAlpha _ underscore

include listed resolved in
theorem finish_call_iff (call : ColorCall) :
    (Declaration.prepare ⟨property, padding.referenceOr name padding' call.text⟩ isRem
        BuiltIn.generate).finish = BuiltIn.hyphenated stem token ↔
      ColorCall.CarriesUnits call.arguments := by
  obtain ⟨hasPx, stop, finished⟩ := exists_finish_referenceOr listed resolved padding isRem padding'
    call.trimmed call.recognizable.ne_nil call.balanced (call.not_mem_text (by decide) (by decide))
    (call.not_mem_text (by decide) (by decide))
  have plain := plain_of_mem_colorStems listed
  obtain ⟨rest, normalized, absent, kept, lost⟩ := exists_normalize_call plain call hasPx
  rw [finished, BuiltIn.colorClass_eq call.exists_mark, normalized]
  by_cases carries : ColorCall.CarriesUnits call.arguments
  · refine iff_of_true ?_ carries
    have whole : call.letters ++ '(' :: rest = call.text.compact ++ [']'] := by
      rw [kept carries, call.compact_text]
      simp
    rw [whole, TokenInjection.inject_fallback plain resolved call.recognizable, BuiltIn.hyphenated,
      List.append_assoc]
    rfl
  · refine iff_of_false ?_ carries
    have shorter : (call.letters ++ '(' :: rest).length ≤ call.text.compact.length := by
      have less := lost carries
      rw [call.compact_text]
      simp only [List.length_append, List.length_cons, List.length_nil] at less ⊢
      omega
    rw [TokenInjection.inject_shorter resolved plain call.recognizable call.isAlpha absent shorter]
    rw [List.append_assoc]
    exact TokenInjection.hyphenated_bracket_ne resolved stem _

include listed resolved in
/-- A variable ends as its token exactly if the class still holds a spelling of its fallback: for a
keyword, unless the generator has another word for it, and for the call of a color function, if no
length of it loses its unit. -/
theorem finish_rewritten_iff (fallback : RewrittenFallback) :
    (Declaration.prepare ⟨property, padding.referenceOr name padding' fallback.text⟩ isRem
        BuiltIn.generate).finish = BuiltIn.hyphenated stem token ↔ fallback.Survives := by
  cases fallback with
  | keyword text isKeyword =>
    exact finish_keyword_iff listed resolved padding padding' isRem isKeyword
  | call colorCall => exact finish_call_iff listed resolved padding padding' isRem colorCall

/-- The token of a text color gives way to the generator's word for the current color, and the token
of a background to a length in front of a comma, but not to the same length in front of a
percentage. -/
theorem finish_rewritten_background :
    (Declaration.prepare ⟨"color".toList, "var(--text-1, currentColor)".toList⟩ false
        BuiltIn.generate).finish ≠ "text-text_1".toList ∧
      (Declaration.prepare ⟨"background".toList,
          "var(--background-bg2, gradient(#fff 8px, #000 50%))".toList⟩ false
        BuiltIn.generate).finish ≠ "bg-bg_2".toList ∧
      (Declaration.prepare ⟨"background".toList,
          "var(--background-bg2, gradient(#fff 8px 50%, #000))".toList⟩ false
        BuiltIn.generate).finish = "bg-bg_2".toList := by
  have textListed : ("color".toList, "text".toList) ∈ Property.colorStems := by decide
  have backgroundListed : ("background".toList, "bg".toList) ∈ Property.colorStems := by decide
  have textResolved : ColorToken.resolve? "--text-1".toList = some "text_1".toList := by decide
  have backgroundResolved :
      ColorToken.resolve? "--background-bg2".toList = some "bg_2".toList := by decide
  let padding : Variable.Padding := ⟨[], [], by decide, by decide⟩
  let padding' : Variable.Padding := ⟨[' '], [], by decide, by decide⟩
  let nothing : Separator := ⟨[], by decide⟩
  let blank : Separator := ⟨[' '], by decide⟩
  let comma : Separator := ⟨[',', ' '], by decide⟩
  let white : ColorArgument := .hex "fff".toList (by decide)
  let black : ColorArgument := .hex "000".toList (by decide)
  let eight : ColorArgument := .length ⟨['8'], none⟩ ⟨by decide, by decide, by decide, by decide⟩
  let half : ColorArgument :=
    .percentage ⟨['5', '0'], none⟩ ⟨by decide, by decide, by decide, by decide⟩
  let current : RewrittenFallback := .keyword "currentColor".toList (by decide)
  let lost : RewrittenFallback :=
    .call ⟨"gradient".toList, by decide, nothing,
      [(white, blank), (eight, comma), (black, blank), (half, nothing)]⟩
  let kept : RewrittenFallback :=
    .call ⟨"gradient".toList, by decide, nothing,
      [(white, blank), (eight, blank), (half, comma), (black, nothing)]⟩
  have currentText : padding.referenceOr "--text-1".toList padding' current.text =
      "var(--text-1, currentColor)".toList := by decide
  have lostText : padding.referenceOr "--background-bg2".toList padding' lost.text =
      "var(--background-bg2, gradient(#fff 8px, #000 50%))".toList := by decide
  have keptText : padding.referenceOr "--background-bg2".toList padding' kept.text =
      "var(--background-bg2, gradient(#fff 8px 50%, #000))".toList := by decide
  refine ⟨fun isToken => ?_, fun isToken => ?_, ?_⟩
  · rw [← currentText] at isToken
    have survives := (finish_rewritten_iff textListed textResolved padding padding' false
      current).mp isToken
    exact absurd survives (by decide)
  · rw [← lostText] at isToken
    have survives := (finish_rewritten_iff backgroundListed backgroundResolved padding padding'
      false lost).mp isToken
    exact absurd survives (by decide)
  · rw [← keptText]
    exact (finish_rewritten_iff backgroundListed backgroundResolved padding padding' false
      kept).mpr (by decide)

end Finish

end AtomicCss
