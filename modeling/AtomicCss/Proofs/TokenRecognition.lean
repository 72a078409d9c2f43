/-
This file shows that every spelling of a fallback is recognised, in brackets or behind a hyphen. No
spelling starts another one, so the one that is found in the brackets or behind the hyphen is the
one that is there, whichever of them is tried first.
-/

import AtomicCss.Proofs.TokenWriting

namespace AtomicCss

namespace TokenInjection

/-! ### The spellings of a form -/

/-- A fallback that is not blank has its two forms and both of their recasings for spellings. -/
theorem mem_variants_of_form {fallback form variant : Text}
    (full : ∃ char ∈ fallback, isBlank char = false)
    (isForm : form ∈ [fallback.trim, fallback.trim.compact])
    (isVariant : variant ∈ [form, form.lower, form.upper]) : variant ∈ variants fallback := by
  have compacted : fallback.trim.compact ≠ [] := by
    obtain ⟨mark, inFallback, visible⟩ := full
    rw [Text.compact_trim]
    exact List.ne_nil_of_mem (List.mem_filter.mpr ⟨inFallback, by simp [visible]⟩)
  have formFull : form ≠ [] := by
    rcases List.mem_pair.mp isForm with rfl | rfl
    · exact fun empty => compacted (by rw [empty]; rfl)
    · exact compacted
  refine mem_variants_iff_isSpelling.mpr ⟨?_, form, isForm, isVariant⟩
  simp only [List.mem_cons, List.not_mem_nil, or_false] at isVariant
  rcases isVariant with rfl | rfl | rfl
  · exact formFull
  · exact (Text.recased_lower form).ne_nil formFull
  · exact (Text.recased_upper form).ne_nil formFull

section Variant

variable {fallback variant : Text} (listed : variant ∈ variants fallback)

include listed in
theorem not_mem_of_mem_variants (noOpening : '[' ∉ fallback) : '[' ∉ variant := by
  rwa [mem_iff_of_mem_variants listed (by decide)]

/-! ### Tokens in the place of spellings -/

variable {word : Text} (plain : ∀ char ∈ word, char ≠ '[' ∧ char ≠ '-') (token : Text)

include plain in
theorem silentOver_fallbackMatcher_word (before : Option Char) (rest : Text) :
    (fallbackMatcher (variants fallback) token).SilentOver before word rest :=
  Matcher.silentOver_of_forall_mem (fun char member before text =>
    fallbackMatcher_eq_none (plain char member).1 (plain char member).2 _ token before text)
    before rest

include listed plain in
theorem replaceFallback_variant_inBrackets (noOpening : '[' ∉ fallback) {blanks trail : Text}
    (blank : ∀ char ∈ blanks, isBlank char = true) (blank' : ∀ char ∈ trail, isBlank char = true) :
    replaceFallback fallback token
        (word ++ ['-'] ++ '[' :: (blanks ++ (variant ++ (trail ++ [']'])))) =
      word ++ ['-'] ++ token := by
  -- No spelling starts with the bracket behind the hyphen.
  have noHyphenated (rest : Text) :
      readHyphenated? (variants fallback) ('-' :: '[' :: rest) = none := by
    rw [readHyphenated?, List.findSome?_eq_none_iff]
    intro other listed'
    cases found : Text.after? other ('[' :: rest) with
    | none => rfl
    | some behind =>
      obtain ⟨first, more, rfl⟩ := List.exists_cons_of_ne_nil (ne_nil_of_mem_variants listed')
      have spelt : '[' :: rest = first :: more ++ behind := Text.after?_eq_some_iff.mp found
      obtain ⟨rfl, _⟩ := List.cons.inj spelt
      exact absurd List.mem_cons_self (not_mem_of_mem_variants listed' noOpening)
  have silent (rest : Text) : (fallbackMatcher (variants fallback) token).SilentOver none
      (word ++ ['-']) ('[' :: rest) := by
    refine Matcher.silentOver_append.mpr
      ⟨silentOver_fallbackMatcher_word plain token none _, ?_, trivial⟩
    refine Matcher.silent_of_eq_none ?_
    rw [fallbackMatcher, List.nil_append, noHyphenated]
    rfl
  have replaced := Matcher.sweep_append_of_first_taken (silent _) (List.cons_ne_nil _ _)
    (fallbackMatcher_variant listed blank blank' token _ [])
  rw [List.append_nil, Matcher.sweep_nil, List.append_nil] at replaced
  exact replaced

include listed plain in
theorem replaceFallback_variant_hyphenated :
    replaceFallback fallback token (word ++ '-' :: variant) = word ++ '-' :: token := by
  have replaced := Matcher.sweep_append_of_first_taken
    (silentOver_fallbackMatcher_word plain token none _) (List.cons_ne_nil _ _)
    (@fallbackMatcher_hyphenated fallback variant listed [] rfl token _)
  rw [List.append_nil, Matcher.sweep_nil, List.append_nil] at replaced
  exact replaced

end Variant

/-! ### Recognition -/

/-- Behind a word, the token takes the place of every spelling of the fallback, in brackets or not,
and of the reference if there is no fallback. -/
theorem inject_recognizes (use : VariableUse) {token word blanks trail : Text}
    (resolved : ColorToken.resolve? use.name = some token)
    (isAlpha : ∀ char ∈ word, char.isAlpha = true)
    (blank : ∀ char ∈ blanks, isBlank char = true)
    (blank' : ∀ char ∈ trail, isBlank char = true) :
    (∀ fallback, use.fallback = some fallback → (∃ char ∈ fallback, isBlank char = false) →
      '[' ∉ fallback →
        ∀ form ∈ [fallback.trim, fallback.trim.compact],
          ∀ variant ∈ [form, form.lower, form.upper],
            inject (word ++ ['-', '['] ++ blanks ++ variant ++ trail ++ [']']) [use] =
                word ++ '-' :: token ∧
              inject (word ++ '-' :: variant) [use] = word ++ '-' :: token) ∧
      (use.fallback = none ∨ use.fallback = some [] →
        inject (word ++ ['-', '['] ++ Variable.opening ++ blanks ++ use.name ++ trail ++ [')', ']'])
            [use] = word ++ '-' :: token) := by
  obtain ⟨name, given, start, stop⟩ := use
  have plain {char : Char} (other : char.isAlpha = false) : char ∉ word :=
    Text.not_mem_of_forall isAlpha other
  have plainLead : '(' ∉ word ++ ['-'] ∧ '[' ∉ word ++ ['-'] := by
    simp only [List.mem_append, not_or]
    exact ⟨⟨plain (by decide), by decide⟩, plain (by decide), by decide⟩
  have plainWord : ∀ char ∈ word, char ≠ '[' ∧ char ≠ '-' := by
    intro char member
    refine ⟨?_, ?_⟩ <;> (rintro rfl; exact plain (by decide) member)
  have joined : word ++ '-' :: token = word ++ ['-'] ++ token := by simp
  refine ⟨?_, fun noFallback => ?_⟩
  · rintro fallback same full noOpening form isForm variant isVariant
    obtain rfl : given = some fallback := same
    have listed := mem_variants_of_form full isForm isVariant
    have nonempty : fallback ≠ [] := by
      obtain ⟨_, inFallback, _⟩ := full
      exact List.ne_nil_of_mem inFallback
    rw [joined]
    refine ⟨inject_of_replaceFallback resolved plainLead nonempty ?_ start stop,
      inject_of_replaceFallback resolved plainLead nonempty ?_ start stop⟩
    · have replaced :=
        replaceFallback_variant_inBrackets listed plainWord token noOpening blank blank'
      simpa using replaced
    · rw [replaceFallback_variant_hyphenated listed plainWord token, joined]
  · have noText : VariableUse.fallbackText ⟨name, given, start, stop⟩ = none := by
      rcases noFallback with same | same <;> (obtain rfl := same; rfl)
    have injected := inject_spacedReference resolved plainLead blanks trail blank blank' rfl noText
    rw [joined, ← injected]
    simp

/-- A capital spelling may be longer than the fallback; a reference may have blanks around its
name. -/
theorem inject_recognizes_capitals :
    inject "text-[ STRASSE ]".toList [⟨"--text-1".toList, some "straße".toList, 0, 22⟩] =
        "text-text_1".toList ∧
      inject "text-STRASSE".toList [⟨"--text-1".toList, some "straße".toList, 0, 22⟩] =
        "text-text_1".toList ∧
      inject "text-[var( --text-1 )]".toList [⟨"--text-1".toList, none, 0, 13⟩] =
        "text-text_1".toList := by
  have resolved : ColorToken.resolve? "--text-1".toList = some "text_1".toList := by decide +kernel
  have isAlpha : ∀ char ∈ "text".toList, char.isAlpha = true := by decide
  have blank : ∀ char ∈ [' '], isBlank char = true := by decide
  have spelled := (inject_recognizes ⟨"--text-1".toList, some "straße".toList, 0, 22⟩ resolved
    isAlpha blank blank).1 "straße".toList rfl ⟨'s', by decide, by decide⟩ (by decide)
      "straße".toList (by decide +kernel) "STRASSE".toList (by decide +kernel)
  have referred := (inject_recognizes ⟨"--text-1".toList, none, 0, 13⟩ resolved isAlpha blank
    blank).2 (Or.inl rfl)
  exact ⟨spelled.1, spelled.2, referred⟩

end TokenInjection

end AtomicCss
