/-
This file follows a class while the token of one variable is written into it. The class holds the
fallback of the variable, or the reference to it, in brackets behind a stem. Neither a spelling of
the fallback nor a reference starts within the stem, so what is found first is what the brackets
hold, and all of it. The token then stands in its place; it needs no brackets, and nothing in it is
taken for a reference.
-/

import AtomicCss.Proofs.Colors
import AtomicCss.Proofs.SpellingStarts
import AtomicCss.Proofs.TokenNames

namespace AtomicCss

namespace TokenInjection

/-! ### Readers -/

/-- If all that is found is one and the same, it is what is found first. -/
theorem findSome?_eq_some_of_unique {Key Result : Type} {read : Key → Option Result}
    {keys : List Key} {result : Result} (hit : ∃ key ∈ keys, read key = some result)
    (only : ∀ key ∈ keys, ∀ other, read key = some other → other = result) :
    keys.findSome? read = some result := by
  cases found : keys.findSome? read with
  | none =>
    obtain ⟨key, member, reading⟩ := hit
    rw [List.findSome?_eq_none_iff.mp found key member] at reading
    cases reading
  | some other =>
    obtain ⟨key, member, reading⟩ := List.exists_of_findSome?_eq_some found
    rw [only key member other reading]

/-- The closing bracket is read with the blanks before it. -/
theorem readClosing?_eq_some {text closing : Text} (found : readClosing? text = some closing) :
    ∃ blanks rest, (∀ char ∈ blanks, isBlank char = true) ∧ text = blanks ++ ']' :: rest ∧
      closing = blanks ++ [']'] := by
  unfold readClosing? at found
  split at found
  · next blanks rest split =>
    obtain rfl := Option.some.inj found
    obtain ⟨spelt, blank, _⟩ := Text.span_eq_iff.mp split
    exact ⟨blanks, rest, blank, spelt, rfl⟩
  · cases found

/-! ### What is found of a fallback -/

/-- What is found of a fallback and what takes its place: a spelling in brackets, or one behind a
hyphen. -/
inductive Found (variants : List Text) (token : Text) : (text source replacement : Text) → Prop where
  | bracketed {blanks variant trail rest : Text} (listed : variant ∈ variants)
      (blank : ∀ char ∈ blanks, isBlank char = true) (blank' : ∀ char ∈ trail, isBlank char = true) :
      Found variants token ('[' :: (blanks ++ (variant ++ (trail ++ ']' :: rest))))
        ('[' :: (blanks ++ (variant ++ (trail ++ [']'])))) token
  | hyphenated {variant rest : Text} (listed : variant ∈ variants)
      (stopped : Text.stops isNameChar rest = true) :
      Found variants token ('-' :: (variant ++ rest)) ('-' :: variant) ('-' :: token)

theorem found_of_fallbackMatcher {variants : List Text} {token : Text} {before : Option Char}
    {text source replacement : Text}
    (taken : fallbackMatcher variants token before text = some (source, replacement)) :
    Found variants token text source replacement := by
  unfold fallbackMatcher at taken
  split at taken
  · next bracketed read =>
    obtain ⟨rfl, rfl⟩ := Prod.mk.inj (Option.some.inj taken)
    unfold readBracketed? at read
    split at read
    · next rest =>
      obtain ⟨variant, listed, reading⟩ := List.exists_of_findSome?_eq_some read
      simp only [bind, Option.bind_eq_some_iff] at reading
      obtain ⟨behind, found, closing, closed, equal⟩ := reading
      obtain ⟨trail, rest', blank', rfl, rfl⟩ := readClosing?_eq_some closed
      obtain ⟨spelt, blank, _⟩ := Text.span_eq_iff.mp (rfl : Text.span isBlank rest = (_, _))
      obtain rfl := Option.some.inj equal
      rw [Text.after?_eq_some_iff.mp found] at spelt
      have here : Found variants token
          ('[' :: (rest.takeWhile isBlank ++ (variant ++ (trail ++ ']' :: rest')))) _ token :=
        .bracketed listed blank blank'
      rw [← spelt] at here
      simpa only [List.append_assoc, List.cons_append] using here
    · cases read
  · obtain ⟨hyphenated, read, equal⟩ := Option.map_eq_some_iff.mp taken
    obtain ⟨rfl, rfl⟩ := Prod.mk.inj equal
    unfold readHyphenated? at read
    split at read
    · next rest =>
      obtain ⟨variant, listed, reading⟩ := List.exists_of_findSome?_eq_some read
      simp only [bind, Option.bind_eq_some_iff] at reading
      obtain ⟨behind, found, closed⟩ := reading
      split at closed
      · next stopped =>
        obtain rfl := Option.some.inj closed
        rw [Text.after?_eq_some_iff.mp found]
        exact .hyphenated listed stopped
      · cases closed
    · cases read

theorem fallbackMatcher_faithful (variants : List Text) (token : Text) :
    (fallbackMatcher variants token).Faithful := by
  intro before text source replacement taken
  cases found_of_fallbackMatcher taken with
  | @bracketed blanks variant trail rest => exact ⟨rest, by simp⟩
  | @hyphenated variant rest => exact ⟨rest, rfl⟩

/-! ### Spellings in brackets -/

section Variant

variable {fallback variant : Text} (listed : variant ∈ variants fallback)

include listed in
/-- A spelling in brackets is found with the blanks around it. -/
theorem readBracketed?_variant {blanks trail : Text} (blank : ∀ char ∈ blanks, isBlank char = true)
    (blank' : ∀ char ∈ trail, isBlank char = true) (rest : Text) :
    readBracketed? (variants fallback) ('[' :: (blanks ++ (variant ++ (trail ++ ']' :: rest)))) =
      some ('[' :: (blanks ++ (variant ++ (trail ++ [']'])))) := by
  have inFront : Text.span isBlank (blanks ++ (variant ++ (trail ++ ']' :: rest))) =
      (blanks, variant ++ (trail ++ ']' :: rest)) := by
    refine Text.span_eq_iff.mpr ⟨rfl, blank, ?_⟩
    have starts := (trimmed_of_mem_variants listed).head
    obtain ⟨first, more, rfl⟩ := List.exists_cons_of_ne_nil (ne_nil_of_mem_variants listed)
    exact starts
  rw [readBracketed?, inFront]
  refine findSome?_eq_some_of_unique ⟨variant, listed, ?_⟩ fun other listed' source reading => ?_
  · have behind : Text.after? variant (variant ++ (trail ++ ']' :: rest)) =
        some (trail ++ ']' :: rest) := Text.after?_eq_some_iff.mpr rfl
    have run : Text.span isBlank (trail ++ ']' :: rest) = (trail, ']' :: rest) :=
      Text.span_eq_iff.mpr ⟨rfl, blank', rfl⟩
    simp only [behind, readClosing?, run, Option.bind_eq_bind, Option.bind_some]
    simp
  · simp only [bind, Option.bind_eq_some_iff] at reading
    obtain ⟨behind, found, closing, closed, equal⟩ := reading
    obtain ⟨blanks', after, blank'', rfl, rfl⟩ := readClosing?_eq_some closed
    obtain ⟨rfl, same⟩ := variants_unique listed listed' (Text.after?_eq_some_iff.mp found)
    obtain ⟨rfl, _⟩ := Text.run_unique same blank' rfl blank'' rfl
    rw [← Option.some.inj equal]
    simp

include listed in
theorem fallbackMatcher_variant {blanks trail : Text} (blank : ∀ char ∈ blanks, isBlank char = true)
    (blank' : ∀ char ∈ trail, isBlank char = true) (token : Text) (before : Option Char)
    (rest : Text) :
    fallbackMatcher (variants fallback) token before
        ('[' :: (blanks ++ (variant ++ (trail ++ [']']))) ++ rest) =
      some ('[' :: (blanks ++ (variant ++ (trail ++ [']']))), token) := by
  have regrouped : '[' :: (blanks ++ (variant ++ (trail ++ [']']))) ++ rest =
      '[' :: (blanks ++ (variant ++ (trail ++ ']' :: rest))) := by simp
  rw [regrouped, fallbackMatcher, readBracketed?_variant listed blank blank']

include listed in
/-- A spelling behind a hyphen is found where nothing carries it on. -/
theorem readHyphenated?_variant {rest : Text} (stopped : Text.stops isNameChar rest = true) :
    readHyphenated? (variants fallback) ('-' :: (variant ++ rest)) = some ('-' :: variant) := by
  rw [readHyphenated?]
  refine findSome?_eq_some_of_unique ⟨variant, listed, ?_⟩ fun other listed' source reading => ?_
  · have behind : Text.after? variant (variant ++ rest) = some rest :=
      Text.after?_eq_some_iff.mpr rfl
    simp only [behind, Option.bind_eq_bind, Option.bind_some, stopped, if_true]
  · simp only [bind, Option.bind_eq_some_iff] at reading
    obtain ⟨behind, found, taken⟩ := reading
    obtain ⟨rfl, _⟩ := variants_unique listed listed' (Text.after?_eq_some_iff.mp found)
    split at taken
    · exact (Option.some.inj taken).symm
    · cases taken

include listed in
theorem fallbackMatcher_hyphenated {rest : Text} (stopped : Text.stops isNameChar rest = true)
    (token : Text) (before : Option Char) :
    fallbackMatcher (variants fallback) token before ('-' :: variant ++ rest) =
      some ('-' :: variant, '-' :: token) := by
  rw [List.cons_append, fallbackMatcher, readHyphenated?_variant listed stopped]
  rfl

end Variant

/-! ### Fallbacks -/

/-- A fallback that is told from the stem of a class by a mark of a color, and that has no brackets
of its own. -/
structure Recognizable (fallback : Text) : Prop where
  trimmed : fallback.Trimmed
  exists_mark : ∃ mark, (mark = '#' ∨ mark = '(') ∧ mark ∈ fallback
  noOpening : '[' ∉ fallback
  noClosing : ']' ∉ fallback

theorem recognizable_of_isColor {fallback : Text} (isColor : IsColor fallback) :
    Recognizable fallback :=
  ⟨isColor.trimmed, isColor.exists_mark, isColor.not_mem (by decide), isColor.not_mem (by decide)⟩

section Fallback

variable {fallback : Text} (recognizable : Recognizable fallback)

include recognizable in
theorem Recognizable.ne_nil : fallback ≠ [] := by
  rintro rfl
  obtain ⟨_, _, member⟩ := recognizable.exists_mark
  cases member

include recognizable in
/-- Every spelling has the mark of the fallback. -/
theorem Recognizable.exists_mark_mem_variants :
    ∃ mark, (mark = '#' ∨ mark = '(') ∧ mark ∈ fallback ∧
      ∀ variant ∈ variants fallback, mark ∈ variant := by
  obtain ⟨mark, marks, inFallback⟩ := recognizable.exists_mark
  have isCaseless : mark ∈ caseless := by
    rcases marks with rfl | rfl <;> decide
  exact ⟨mark, marks, inFallback, fun variant member =>
    (mem_iff_of_mem_variants member isCaseless).mpr inFallback⟩

include recognizable in
theorem Recognizable.compact_ne_nil : fallback.compact ≠ [] := by
  obtain ⟨mark, marks, inFallback⟩ := recognizable.exists_mark
  have isCaseless : mark ∈ caseless := by
    rcases marks with rfl | rfl <;> decide
  exact List.ne_nil_of_mem ((Text.mem_compact_iff isCaseless).mpr inFallback)

include recognizable in
theorem Recognizable.compact_mem_variants : fallback.compact ∈ variants fallback :=
  TokenInjection.compact_mem_variants recognizable.trimmed.trim_eq recognizable.compact_ne_nil

include recognizable in
/-- No spelling stands behind a hyphen of the stem: each has a character that a stem has not. -/
theorem readHyphenated?_eq_none {lead rest : Text}
    (plain : ∀ char ∈ lead, char ≠ '#' ∧ char ≠ '(') :
    readHyphenated? (variants fallback) ('-' :: (lead ++ '[' :: rest)) = none := by
  obtain ⟨mark, marks, _, inVariants⟩ := recognizable.exists_mark_mem_variants
  rw [readHyphenated?, List.findSome?_eq_none_iff]
  intro variant member
  cases found : Text.after? variant (lead ++ '[' :: rest) with
  | none => rfl
  | some behind =>
    have inVariant := inVariants variant member
    have noBracket : '[' ∉ variant := fun inside => recognizable.noOpening
      ((mem_iff_of_mem_variants member (by decide)).mp inside)
    have notInLead : mark ∉ lead := fun inLead => by
      rcases marks with rfl | rfl
      · exact (plain _ inLead).1 rfl
      · exact (plain _ inLead).2 rfl
    rcases List.append_eq_append_iff.mp (Text.after?_eq_some_iff.mp found) with
      ⟨spare, variant_eq, starts⟩ | ⟨spare, lead_eq, _⟩
    · cases spare with
      | nil =>
        rw [variant_eq, List.append_nil] at inVariant
        exact absurd inVariant notInLead
      | cons char spare =>
        obtain ⟨rfl, _⟩ := List.cons.inj starts
        exact absurd (by rw [variant_eq]; simp) noBracket
    · exact absurd (by rw [lead_eq]; exact List.mem_append_left spare inVariant) notInLead

/-- A fallback is found at a bracket or at a hyphen. -/
theorem fallbackMatcher_eq_none {char : Char} (noBracket : char ≠ '[') (noHyphen : char ≠ '-')
    (variants : List Text) (token : Text) (before : Option Char) (text : Text) :
    fallbackMatcher variants token before (char :: text) = none := by
  have noBracketed : readBracketed? variants (char :: text) = none := by
    unfold readBracketed?
    split
    · next spelt => exact absurd (List.cons.inj spelt).1 noBracket
    · rfl
  have noHyphenated : readHyphenated? variants (char :: text) = none := by
    unfold readHyphenated?
    split
    · next spelt => exact absurd (List.cons.inj spelt).1 noHyphen
    · rfl
  simp only [fallbackMatcher, noBracketed, noHyphenated, Option.map_none]

include recognizable in
theorem silentOver_fallbackMatcher {lead rest : Text} (token : Text)
    (plain : ∀ char ∈ lead, char ≠ '#' ∧ char ≠ '(' ∧ char ≠ '[') (before : Option Char) :
    (fallbackMatcher (variants fallback) token).SilentOver before lead ('[' :: rest) := by
  induction lead generalizing before with
  | nil => trivial
  | cons char lead inductionHypothesis =>
    have others : ∀ other ∈ lead, other ≠ '#' ∧ other ≠ '(' ∧ other ≠ '[' := fun other member =>
      plain other (List.mem_cons_of_mem char member)
    refine ⟨Matcher.silent_of_eq_none ?_, inductionHypothesis others (some char)⟩
    by_cases hyphen : char = '-'
    · subst hyphen
      have noHyphenated : readHyphenated? (variants fallback) ('-' :: (lead ++ '[' :: rest)) = none :=
        readHyphenated?_eq_none recognizable fun other member =>
          ⟨(others other member).1, (others other member).2.1⟩
      rw [fallbackMatcher, noHyphenated]
      rfl
    · exact fallbackMatcher_eq_none (plain char List.mem_cons_self).2.2 hyphen _ _ before _

include recognizable in
/-- The token takes the place of the fallback and its brackets. -/
theorem replaceFallback_inBrackets {lead : Text} (token : Text)
    (plain : ∀ char ∈ lead, char ≠ '#' ∧ char ≠ '(' ∧ char ≠ '[') :
    replaceFallback fallback token (lead ++ '[' :: (fallback.compact ++ [']'])) =
      lead ++ token := by
  have noBlanks : ∀ char ∈ ([] : Text), isBlank char = true := by simp
  have taken (before : Option Char) :
      fallbackMatcher (variants fallback) token before
          ('[' :: (fallback.compact ++ [']']) ++ []) =
        some ('[' :: (fallback.compact ++ [']']), token) :=
    fallbackMatcher_variant recognizable.compact_mem_variants noBlanks noBlanks token before []
  have replaced := Matcher.sweep_append_of_first_taken
    (silentOver_fallbackMatcher recognizable token plain none) (List.cons_ne_nil _ _) (taken _)
  rw [List.append_nil, Matcher.sweep_nil, List.append_nil] at replaced
  exact replaced

end Fallback

/-! ### References -/

/-- A character that stands at one place of a text only has one text behind it. -/
theorem eq_of_cons_suffix {char : Char} {lead rest behind : Text} (notInLead : char ∉ lead)
    (notInRest : char ∉ rest) (suffix : char :: behind <:+ lead ++ char :: rest) :
    behind = rest := by
  obtain ⟨before, whole⟩ := suffix
  exact ((List.append_cons_inj_of_notMem notInLead notInRest).mp whole.symm).2.2.symm

theorem referenceMatcher_of_not_opened {text : Text}
    (notLeading : ¬ Variable.opening <+: text) (sought token : Text) (before : Option Char) :
    referenceMatcher sought token before text = none := by
  rw [referenceMatcher, Text.after?_eq_none_iff.mpr notLeading]
  rfl

theorem referenceMatcher_eq_none {char : Char} (different : char ≠ 'v') (sought token : Text)
    (before : Option Char) (text : Text) :
    referenceMatcher sought token before (char :: text) = none := by
  refine referenceMatcher_of_not_opened ?_ sought token before
  rintro ⟨behind, starts⟩
  exact different (List.cons.inj starts).1.symm

theorem replaceReference_eq_self_of_not_opened {name : Text}
    (unopened : ¬ Variable.opening <:+: name) (sought token : Text) :
    replaceReference sought token name = name := by
  refine Matcher.sweep_eq_self_of_silent (fun before char rest suffix => ?_) none
  refine Matcher.silent_of_eq_none (referenceMatcher_of_not_opened ?_ sought token before)
  exact fun leads => unopened (leads.isInfix.trans suffix.isInfix)

/-- Without a parenthesis there is no reference. -/
theorem replaceReference_eq_self {name : Text} (noParenthesis : '(' ∉ name) (sought token : Text) :
    replaceReference sought token name = name :=
  replaceReference_eq_self_of_not_opened
    (fun opened => noParenthesis (opened.subset (by decide))) sought token

/-- Behind the only parenthesis of a text there is no reference unless the name stands there, alone
with its blanks. -/
theorem replaceReference_eq_self_of_ne {lead rest sought : Text} (notInLead : '(' ∉ lead)
    (notInRest : '(' ∉ rest)
    (different : ∀ blanks trail behind, (∀ char ∈ blanks, isBlank char = true) →
      (∀ char ∈ trail, isBlank char = true) → rest ≠ blanks ++ (sought ++ (trail ++ ')' :: behind)))
    (token : Text) :
    replaceReference sought token (lead ++ '(' :: rest) = lead ++ '(' :: rest := by
  refine Matcher.sweep_eq_self_of_silent (fun before char more suffix => ?_) none
  intro source replacement taken
  simp only [referenceMatcher, bind, Option.bind_eq_some_iff] at taken
  obtain ⟨behind, opened, after, found, closed⟩ := taken
  have spelt : char :: more = Variable.opening ++ behind := Text.after?_eq_some_iff.mp opened
  have suffix' : '(' :: behind <:+ lead ++ '(' :: rest := by
    rw [spelt] at suffix
    exact (List.suffix_append "var".toList ('(' :: behind)).trans suffix
  obtain rfl := eq_of_cons_suffix notInLead notInRest suffix'
  obtain ⟨front, blank, _⟩ := Text.span_eq_iff.mp (rfl : Text.span isBlank behind = (_, _))
  split at closed
  · next trail more' split =>
    obtain ⟨back, blank', _⟩ := Text.span_eq_iff.mp split
    rw [show behind.dropWhile isBlank = _ from Text.after?_eq_some_iff.mp found, back] at front
    exact absurd front (different _ trail more' blank blank')
  · cases closed

/-- Where there is no parenthesis before a bracket, no reference starts before it. -/
theorem silentOver_referenceMatcher {lead : Text} (noParenthesis : '(' ∉ lead)
    (sought token rest : Text) (before : Option Char) :
    (referenceMatcher sought token).SilentOver before (lead ++ ['[']) rest := by
  induction lead generalizing before with
  | nil => exact ⟨Matcher.silent_of_eq_none (referenceMatcher_eq_none (by decide) _ _ _ _), trivial⟩
  | cons char lead inductionHypothesis =>
    refine ⟨Matcher.silent_of_eq_none (referenceMatcher_of_not_opened ?_ sought token before),
      inductionHypothesis (fun member => noParenthesis (List.mem_cons_of_mem char member)) _⟩
    rintro ⟨behind, opened⟩
    have spelt : char :: lead ++ ['['] ++ rest = ['v', 'a', 'r'] ++ '(' :: behind := opened.symm
    have absent : '(' ∉ char :: lead ++ ['['] := by
      rw [List.mem_append, not_or]
      exact ⟨noParenthesis, by decide⟩
    obtain ⟨between, letters, _⟩ := Text.exists_append_of_not_mem spelt absent
    have noBracket : '[' ∉ ['v', 'a', 'r'] := by decide
    exact absurd (by rw [letters]; simp) noBracket

/-- The token takes the place of the reference and leaves the brackets. -/
theorem replaceReference_inBrackets {lead name blanks trail : Text} (noParenthesis : '(' ∉ lead)
    (named : ColorToken.Named name) (blank : ∀ char ∈ blanks, isBlank char = true)
    (blank' : ∀ char ∈ trail, isBlank char = true) (token : Text) :
    replaceReference name token
        (lead ++ ['['] ++ (Variable.opening ++ blanks ++ name ++ trail ++ [')'] ++ [']'])) =
      lead ++ ['['] ++ (token ++ [']']) := by
  have taken (before : Option Char) :
      referenceMatcher name token before
          (Variable.opening ++ blanks ++ name ++ trail ++ [')'] ++ [']']) =
        some (Variable.opening ++ blanks ++ name ++ trail ++ [')'], token) := by
    have opened : Text.after? Variable.opening
        (Variable.opening ++ blanks ++ name ++ trail ++ [')'] ++ [']']) =
          some (blanks ++ (name ++ (trail ++ [')', ']']))) :=
      Text.after?_eq_some_iff.mpr (by simp [List.append_assoc])
    have inFront : Text.span isBlank (blanks ++ (name ++ (trail ++ [')', ']']))) =
        (blanks, name ++ (trail ++ [')', ']'])) := by
      refine Text.span_eq_iff.mpr ⟨rfl, blank, ?_⟩
      obtain ⟨first, rest, rfl⟩ := List.exists_cons_of_ne_nil named.nonempty
      have full := isBlank_of_isVariableChar (named.chars first List.mem_cons_self)
      simp [Text.stops, full]
    have spelt : Text.after? name (name ++ (trail ++ [')', ']'])) = some (trail ++ [')', ']']) :=
      Text.after?_eq_some_iff.mpr rfl
    have behind : Text.span isBlank (trail ++ [')', ']']) = (trail, [')', ']']) :=
      Text.span_eq_iff.mpr ⟨rfl, blank', by decide⟩
    simp only [referenceMatcher, opened, inFront, spelt, behind, Option.bind_eq_bind,
      Option.bind_some]
  have closing (before : Option Char) : (referenceMatcher name token).sweep before [']'] = [']'] :=
    Matcher.sweep_cons_of_silent
      (Matcher.silent_of_eq_none (referenceMatcher_eq_none (by decide) name token before []))
  have replaced := Matcher.sweep_append_of_first_taken
    (silentOver_referenceMatcher noParenthesis name token _ none) (by simp) (taken _)
  rw [closing] at replaced
  exact replaced

/-! ### Brackets -/

theorem bareBrackets_eq_none {char : Char} (different : char ≠ '[') (before : Option Char)
    (text : Text) : bareBrackets before (char :: text) = none := by
  unfold bareBrackets
  split
  · next spelt => exact absurd (List.cons.inj spelt).1 different
  · rfl

/-- Without a bracket there are none to drop. -/
theorem bareBrackets_eq_self {name : Text} (noBracket : '[' ∉ name) :
    bareBrackets.replaceAll name = name := by
  have different : ∀ char ∈ name, char ≠ '[' := fun char member same => noBracket (same ▸ member)
  exact Matcher.sweep_eq_self_of_silentOver (Matcher.silentOver_of_forall_mem
    (fun char member => bareBrackets_eq_none (different char member)) none [])

/-- Brackets that hold a call stay. -/
theorem bareBrackets_call {lead letters rest : Text} (notInLead : '[' ∉ lead)
    (isName : ∀ char ∈ letters, isNameChar char = true) (notInRest : '[' ∉ rest) :
    bareBrackets.replaceAll (lead ++ '[' :: (letters ++ '(' :: rest)) =
      lead ++ '[' :: (letters ++ '(' :: rest) := by
  refine Matcher.sweep_eq_self_of_silent (fun before char more suffix => ?_) none
  refine Matcher.silent_of_eq_none ?_
  by_cases bracket : char = '['
  · subst bracket
    have notInCall : '[' ∉ letters ++ '(' :: rest := by
      rw [List.mem_append, List.mem_cons, not_or, not_or]
      exact ⟨Text.not_mem_of_forall isName (by decide), by decide, notInRest⟩
    have run : Text.span isNameChar (letters ++ '(' :: rest) = (letters, '(' :: rest) :=
      Text.span_eq_iff.mpr ⟨rfl, isName, rfl⟩
    rw [eq_of_cons_suffix notInLead notInCall suffix, bareBrackets, run]
    cases letters <;> rfl
  · exact bareBrackets_eq_none bracket before more

/-- A token needs no brackets. -/
theorem bareBrackets_token {lead token : Text} (noBracket : '[' ∉ lead) (nonempty : token ≠ [])
    (isName : ∀ char ∈ token, isNameChar char = true) :
    bareBrackets.replaceAll (lead ++ '[' :: (token ++ [']'])) = lead ++ token := by
  have taken (before : Option Char) :
      bareBrackets before ('[' :: (token ++ [']']) ++ []) =
        some ('[' :: (token ++ [']']), token) := by
    have run : Text.span isNameChar (token ++ [']']) = (token, [']']) :=
      Text.span_eq_iff.mpr ⟨rfl, isName, by decide⟩
    obtain ⟨first, rest, rfl⟩ := List.exists_cons_of_ne_nil nonempty
    rw [List.append_nil, bareBrackets, run]
    rfl
  have different : ∀ char ∈ lead, char ≠ '[' := fun char member same => noBracket (same ▸ member)
  have dropped := Matcher.sweep_append_of_first_taken
    (Matcher.silentOver_of_forall_mem
      (fun char member => bareBrackets_eq_none (different char member)) none _)
    (List.cons_ne_nil _ _) (taken _)
  rw [List.append_nil, Matcher.sweep_nil, List.append_nil] at dropped
  exact dropped

/-! ### One variable -/

/-- A stem without digits and without the characters by which a passage behind it is found. -/
def PlainStem (stem : Text) : Prop :=
  ∀ char ∈ stem, char.isDigit = false ∧ char ∉ ['v', '#', '(', '[']

section Injection

variable {stem name token : Text} (plain : PlainStem stem)
  (resolved : ColorToken.resolve? name = some token)

include plain in
/-- The stem and its hyphen have no character by which a passage is found. -/
theorem not_mem_stem {char : Char} (sought : char ∈ ['v', '#', '(', '[']) :
    char ∉ stem ++ ['-'] := by
  intro member
  rcases List.mem_append.mp member with inStem | hyphen
  · exact (plain char inStem).2 sought
  · rw [List.mem_singleton.mp hyphen] at sought
    exact absurd sought (by decide)

include plain in
theorem ne_of_mem_stem : ∀ char ∈ stem ++ ['-'], char ≠ '#' ∧ char ≠ '(' ∧ char ≠ '[' := by
  intro char member
  refine ⟨?_, ?_, ?_⟩ <;> (rintro rfl; exact not_mem_stem plain (by decide) member)

include resolved in
theorem not_mem_token {char : Char} (other : isNameChar char = false) : char ∉ token :=
  Text.not_mem_of_forall (ColorToken.token_chars resolved).2 other

theorem inject_singleton (text : Text) (use : VariableUse) :
    inject text [use] = bareBrackets.replaceAll (injectUse text use) := rfl

include resolved in
/-- A fallback is looked for first, and then references to the variable. -/
theorem injectUse_fallback {fallback : Text} (nonempty : fallback ≠ []) (text : Text)
    (start stop : Nat) :
    injectUse text ⟨name, some fallback, start, stop⟩ =
      replaceReference name token (replaceFallback fallback token text) := by
  have given : VariableUse.fallbackText ⟨name, some fallback, start, stop⟩ = some fallback := by
    simp [VariableUse.fallbackText, nonempty]
  simp only [injectUse, resolved, given]

include resolved in
/-- A token in the place of the fallback is left alone: there is no reference and no bracket. -/
theorem inject_of_replaceFallback {lead fallback text : Text}
    (plain : '(' ∉ lead ∧ '[' ∉ lead) (nonempty : fallback ≠ [])
    (replaced : replaceFallback fallback token text = lead ++ token) (start stop : Nat) :
    inject text [⟨name, some fallback, start, stop⟩] = lead ++ token := by
  have absent {char : Char} (notInLead : char ∉ lead) (other : isNameChar char = false) :
      char ∉ lead ++ token := by
    rw [List.mem_append, not_or]
    exact ⟨notInLead, not_mem_token resolved other⟩
  rw [inject_singleton, injectUse_fallback resolved nonempty, replaced,
    replaceReference_eq_self (absent plain.1 (by decide)) name token]
  exact bareBrackets_eq_self (absent plain.2 (by decide))

include plain resolved in
theorem inject_fallback {fallback : Text} (recognizable : Recognizable fallback)
    (start stop : Nat) :
    inject (stem ++ ['-', '['] ++ (fallback.compact ++ [']']))
        [⟨name, some fallback, start, stop⟩] = stem ++ ['-'] ++ token := by
  refine inject_of_replaceFallback resolved
    ⟨not_mem_stem plain (by decide), not_mem_stem plain (by decide)⟩ recognizable.ne_nil ?_ start stop
  rw [List.append_cons, List.append_assoc]
  exact replaceFallback_inBrackets recognizable token (ne_of_mem_stem plain)

include resolved in
/-- Without a fallback the token takes the place of the reference, and the brackets are dropped. -/
theorem inject_spacedReference {lead : Text} (plain : '(' ∉ lead ∧ '[' ∉ lead)
    (blanks trail : Text) (blank : ∀ char ∈ blanks, isBlank char = true)
    (blank' : ∀ char ∈ trail, isBlank char = true)
    {use : VariableUse} (named : use.name = name) (noFallback : use.fallbackText = none) :
    inject (lead ++ ['['] ++ (Variable.opening ++ blanks ++ name ++ trail ++ [')'] ++ [']']))
        [use] = lead ++ token := by
  obtain ⟨nonempty, isName⟩ := ColorToken.token_chars resolved
  have used : injectUse
      (lead ++ ['['] ++ (Variable.opening ++ blanks ++ name ++ trail ++ [')'] ++ [']'])) use =
        lead ++ ['['] ++ (token ++ [']']) := by
    simp only [injectUse, named, resolved, noFallback]
    exact replaceReference_inBrackets plain.1 (ColorToken.named_of_resolve? resolved) blank blank'
      token
  rw [inject_singleton, used, List.append_assoc]
  exact bareBrackets_token plain.2 nonempty isName

include plain resolved in
theorem inject_reference (start stop : Nat) :
    inject (stem ++ ['-', '['] ++ (Variable.opening ++ name ++ [')'] ++ [']']))
        [⟨name, none, start, stop⟩] = stem ++ ['-'] ++ token := by
  have injected := inject_spacedReference resolved
    ⟨not_mem_stem plain (by decide), not_mem_stem plain (by decide)⟩ [] [] (by simp) (by simp)
    (rfl : VariableUse.name ⟨name, none, start, stop⟩ = name) rfl
  simpa using injected

end Injection

end TokenInjection

end AtomicCss
