/-
This file asks whether the token of an earlier variable is left alone by a later one that has the
same fallback. The later one looks for the same spellings. What it finds was there before the earlier
one looked, and the earlier one would have taken it, unless the earlier token is a part of it.

A fallback can have a spelling with that token in it. Then there is a class in which the earlier
variable finishes such a spelling by writing its token, within brackets, and the later one takes the
brackets and all. So the earlier token is safe in every class exactly if it is part of no spelling,
those apart that hold a reference and cannot stand in a class without one.
-/

import AtomicCss.Proofs.TokenWriting

namespace AtomicCss

namespace TokenInjection

/-! ### What takes the place of a fallback -/

theorem Found.mem_token {variants : List Text} {token text source replacement : Text}
    (found : Found variants token text source replacement) {char : Char}
    (member : char ∈ replacement) (different : char ≠ '-') : char ∈ token := by
  cases found with
  | bracketed => exact member
  | hyphenated => exact (List.mem_cons.mp member).resolve_left different

/-- The only hyphen of a replacement is the one in front of the token. -/
theorem Found.eq_token {variants : List Text} {token text source replacement front back : Text}
    (found : Found variants token text source replacement) (noHyphen : '-' ∉ token)
    (spelt : replacement = front ++ '-' :: back) : back = token := by
  cases found with
  | bracketed => exact absurd (by rw [spelt]; simp) noHyphen
  | hyphenated =>
    cases front with
    | nil => exact (List.cons.inj spelt).2.symm
    | cons char front => exact absurd (by rw [(List.cons.inj spelt).2]; simp) noHyphen

/-- Where a spelling can be found the matcher is not silent, whatever token it writes. -/
theorem Found.not_silent {fallback token text source replacement : Text}
    (found : Found (variants fallback) token text source replacement) (token' : Text)
    (before : Option Char) : ¬ (fallbackMatcher (variants fallback) token').Silent before text := by
  intro silent
  cases found with
  | @bracketed blanks variant trail rest listed blank blank' =>
    have taken := fallbackMatcher_variant listed blank blank' token' before rest
    simp only [List.cons_append, List.append_assoc] at taken
    cases silent _ _ taken
  | @hyphenated variant rest listed stopped =>
    cases silent _ _ (fallbackMatcher_hyphenated listed stopped token' before)

/-! ### Before the token was written -/

/-- The start of a text that goes on a class name is all in front of where the name ends. -/
theorem exists_append_of_stops {word out part rest : Text}
    (isName : ∀ char ∈ word, isNameChar char = true) (stopped : Text.stops isNameChar rest = true)
    (spelt : word ++ out = part ++ rest) : ∃ more, part = word ++ more := by
  rcases List.append_eq_append_iff.mp spelt with ⟨more, rfl, _⟩ | ⟨more, rfl, rfl⟩
  · exact ⟨more, rfl⟩
  · cases more with
    | nil => exact ⟨[], by simp⟩
    | cons char more =>
      have onward : isNameChar char = true := isName char (by simp)
      rw [List.cons_append, Text.stops, onward] at stopped
      cases stopped

section Before

variable {variants : List Text} {sought token : Text}
  (resolved : ColorToken.resolve? sought = some token)

include resolved in
/-- What takes the place of a fallback ends with the token and goes on a name. -/
theorem Found.replacement_chars {text source replacement : Text}
    (found : Found variants token text source replacement) :
    token <:+ replacement ∧ ∀ char ∈ replacement, isNameChar char = true := by
  have isName := (ColorToken.token_chars resolved).2
  cases found with
  | bracketed => exact ⟨List.suffix_refl token, isName⟩
  | hyphenated => exact ⟨List.suffix_cons '-' token, List.forall_mem_cons.mpr ⟨rfl, isName⟩⟩

include resolved in
theorem Found.exists_eq_cons {text source replacement : Text}
    (found : Found variants token text source replacement) :
    ∃ first more, replacement = first :: more ∧ isNameChar first = true := by
  obtain ⟨ends, isName⟩ := found.replacement_chars resolved
  have full : replacement ≠ [] := by
    rintro rfl
    exact (ColorToken.token_chars resolved).1 (List.suffix_nil.mp ends)
  obtain ⟨first, more, rfl⟩ := List.exists_cons_of_ne_nil full
  exact ⟨first, more, rfl, isName first List.mem_cons_self⟩

include resolved in
/-- A character that goes on no name is copied from the class. -/
theorem exists_of_sweep_eq_cons {before : Option Char} {text rest : Text} {char : Char}
    (other : isNameChar char = false)
    (swept : (fallbackMatcher variants token).sweep before text = char :: rest) :
    ∃ behind, text = char :: behind := by
  have different : ∀ before text source replacement,
      fallbackMatcher variants token before text = some (source, replacement) →
        ∃ first more, replacement = first :: more ∧ first ≠ char := by
    intro before text source replacement taken
    obtain ⟨first, more, rfl, isName⟩ := (found_of_fallbackMatcher taken).exists_eq_cons resolved
    refine ⟨first, more, rfl, ?_⟩
    rintro rfl
    rw [other] at isName
    cases isName
  obtain ⟨behind, spelt, _⟩ :=
    Matcher.exists_of_sweep_eq_cons (fallbackMatcher_faithful _ _) different swept
  exact ⟨behind, spelt⟩

include resolved in
/-- A passage that has no token in it, up to where a name ends, is copied from the class. -/
theorem exists_of_sweep_eq_append {before : Option Char} {text part rest : Text}
    (apart : ¬ token <:+: part) (stopped : Text.stops isNameChar rest = true)
    (swept : (fallbackMatcher variants token).sweep before text = part ++ rest) :
    ∃ behind before', text = part ++ behind ∧
      (fallbackMatcher variants token).sweep before' behind = rest := by
  refine Matcher.sweep_induction (motive := fun before text output => ∀ part, ¬ token <:+: part →
    output = part ++ rest → ∃ behind before', text = part ++ behind ∧
      (fallbackMatcher variants token).sweep before' behind = rest)
    (fallbackMatcher_faithful _ _) ?_ ?_ ?_ before text part apart swept
  · intro before part _ swept
    obtain ⟨rfl, rfl⟩ := List.append_eq_nil_iff.mp swept.symm
    exact ⟨[], before, rfl, rfl⟩
  · intro before char text silent inductionHypothesis part apart swept
    cases part with
    | nil => exact ⟨char :: text, before, rfl, (Matcher.sweep_cons_of_silent silent).trans swept⟩
    | cons first part =>
      obtain ⟨rfl, swept'⟩ := List.cons.inj swept
      have apart' : ¬ token <:+: part := fun inside =>
        apart (inside.trans (List.suffix_cons char part).isInfix)
      obtain ⟨behind, before', rfl, same⟩ := inductionHypothesis part apart' swept'
      exact ⟨behind, before', rfl, same⟩
  · intro before source text replacement _ taken _ part apart swept
    obtain ⟨ends, isName⟩ := (found_of_fallbackMatcher taken).replacement_chars resolved
    obtain ⟨more, rfl⟩ := exists_append_of_stops isName stopped swept
    exact absurd (ends.isInfix.trans (List.prefix_append replacement more).isInfix) apart

include resolved in
/-- Where a name ends in what is written, it ended in the class. -/
theorem stops_of_stops_sweep {before : Option Char} {text : Text}
    (stopped : Text.stops isNameChar ((fallbackMatcher variants token).sweep before text) = true) :
    Text.stops isNameChar text = true := by
  refine Matcher.sweep_induction (motive := fun _ text output =>
    Text.stops isNameChar output = true → Text.stops isNameChar text = true)
    (fallbackMatcher_faithful _ _) (fun _ stopped => stopped) (fun _ _ _ _ _ stopped => stopped)
    ?_ before text stopped
  intro before source text replacement _ taken _ stopped
  obtain ⟨first, more, rfl, isName⟩ := (found_of_fallbackMatcher taken).exists_eq_cons resolved
  rw [List.cons_append, Text.stops, isName] at stopped
  cases stopped

include resolved in
/-- A reference in what is written was in the class. -/
theorem opening_infix_of_sweep {before : Option Char} {text : Text}
    (opened : Variable.opening <:+: (fallbackMatcher variants token).sweep before text) :
    Variable.opening <:+: text := by
  obtain ⟨lead, more, swept⟩ := opened
  have swept' : (fallbackMatcher variants token).sweep before text =
      lead ++ 'v' :: ("ar".toList ++ '(' :: more) := by
    rw [← swept, List.append_assoc]
    rfl
  cases Matcher.origin_of_sweep_eq (fallbackMatcher_faithful _ _) swept' with
  | replaced taken behind =>
    have inToken : 'v' ∈ token :=
      (found_of_fallbackMatcher taken).mem_token (by simp) (by decide)
    exact absurd rfl (ColorToken.token_wordChars resolved _ inToken).2
  | @copied start rest silent behind =>
    have apart : ¬ token <:+: "ar".toList := fun inside =>
      absurd (inside.subset (ColorToken.underscore_mem_of_resolve? resolved)) (by decide)
    obtain ⟨rest', before', rfl, behind'⟩ :=
      exists_of_sweep_eq_append resolved apart (by rfl) behind
    obtain ⟨rest'', rfl⟩ := exists_of_sweep_eq_cons resolved (by decide) behind'
    exact ⟨start, rest'', by simp [Variable.opening]⟩

include resolved in
theorem not_opened_replaceFallback {name : Text} (unopened : ¬ Variable.opening <:+: name)
    (fallback : Text) : ¬ Variable.opening <:+: replaceFallback fallback token name :=
  mt (opening_infix_of_sweep resolved) unopened

end Before

/-! ### After the token was written -/

section After

variable {fallback sought token : Text} (resolved : ColorToken.resolve? sought = some token)

include resolved in
theorem infix_of_infix_blanks {blanks text trail : Text}
    (blank : ∀ char ∈ blanks, isBlank char = true) (blank' : ∀ char ∈ trail, isBlank char = true)
    (inside : token <:+: blanks ++ (text ++ trail)) : token <:+: text := by
  have noBlank : ∀ char, isBlank char = true → char ∉ token := by
    intro char blank member
    have full := isBlank_of_isWordChar (ColorToken.token_wordChars resolved char member).1
    rw [full] at blank
    cases blank
  refine Text.infix_of_infix_append_left (fun char member => noBlank char (blank' char member)) ?_
  exact Text.infix_of_infix_append_right (fun char member => noBlank char (blank char member)) inside

include resolved in
/-- No spelling is left in brackets, unless it has the token in it. -/
theorem replaceFallback_ne_bracketed {name lead blanks variant trail rest : Text}
    (listed : variant ∈ variants fallback) (blank : ∀ char ∈ blanks, isBlank char = true)
    (blank' : ∀ char ∈ trail, isBlank char = true) (apart : ¬ token <:+: variant) :
    replaceFallback fallback token name ≠
      lead ++ '[' :: (blanks ++ (variant ++ (trail ++ ']' :: rest))) := by
  intro swept
  cases Matcher.origin_of_sweep_eq (fallbackMatcher_faithful _ _) swept with
  | replaced taken _ =>
    have inToken : '[' ∈ token := (found_of_fallbackMatcher taken).mem_token (by simp) (by decide)
    exact absurd inToken (not_mem_token resolved (by decide))
  | @copied start rest' silent behind =>
    have apart' : ¬ token <:+: blanks ++ (variant ++ trail) :=
      mt (infix_of_infix_blanks resolved blank blank') apart
    have split : blanks ++ (variant ++ (trail ++ ']' :: rest)) =
        blanks ++ (variant ++ trail) ++ ']' :: rest := by simp
    obtain ⟨rest'', before', rfl, behind'⟩ :=
      exists_of_sweep_eq_append resolved apart' (by rfl) (behind.trans split)
    obtain ⟨after, rfl⟩ := exists_of_sweep_eq_cons resolved (by decide) behind'
    have there : Found (variants fallback) token
        ('[' :: (blanks ++ (variant ++ (trail ++ ']' :: after)))) _ token :=
      .bracketed listed blank blank'
    rw [List.append_assoc, List.append_assoc] at silent
    exact absurd silent (there.not_silent token _)

include resolved in
/-- No spelling is left behind a hyphen at the end of a name, unless it has the token in it. -/
theorem replaceFallback_ne_hyphenated {name lead variant rest : Text}
    (listed : variant ∈ variants fallback) (stopped : Text.stops isNameChar rest = true)
    (apart : ¬ token <:+: variant) :
    replaceFallback fallback token name ≠ lead ++ '-' :: (variant ++ rest) := by
  intro swept
  cases Matcher.origin_of_sweep_eq (fallbackMatcher_faithful _ _) swept with
  | replaced taken behind =>
    -- The hyphen is the one in front of the token, so the spelling starts with the token.
    have noHyphen : '-' ∉ token := Text.not_mem_of_forall
      (fun char member => (ColorToken.token_wordChars resolved char member).1) (by decide)
    obtain rfl := (found_of_fallbackMatcher taken).eq_token noHyphen rfl
    obtain ⟨more, rfl⟩ := exists_append_of_stops (ColorToken.token_chars resolved).2 stopped behind
    exact absurd (List.prefix_append _ more).isInfix apart
  | @copied start rest' silent behind =>
    obtain ⟨rest'', before', rfl, behind'⟩ := exists_of_sweep_eq_append resolved apart stopped behind
    have stopped' : Text.stops isNameChar rest'' = true :=
      stops_of_stops_sweep resolved (behind'.symm ▸ stopped)
    have there : Found (variants fallback) token ('-' :: (variant ++ rest'')) _ ('-' :: token) :=
      .hyphenated listed stopped'
    exact absurd silent (there.not_silent token _)

include resolved in
/-- Another token finds no spelling, unless one is left that has the first token in it. -/
theorem replaceFallback_replaceFallback {name : Text}
    (apart : ∀ variant ∈ variants fallback, token <:+: variant →
      ¬ variant <:+: replaceFallback fallback token name) (token' : Text) :
    replaceFallback fallback token' (replaceFallback fallback token name) =
      replaceFallback fallback token name := by
  refine Matcher.sweep_eq_self_of_silent (fun before char text suffix => ?_) none
  intro source replacement taken
  obtain ⟨lead, swept⟩ := suffix
  have noToken {variant : Text} (listed : variant ∈ variants fallback)
      (written : variant <:+: char :: text) : ¬ token <:+: variant := fun inside =>
    apart variant listed inside (written.trans ⟨lead, [], by rw [List.append_nil, swept]⟩)
  generalize spelt : char :: text = place at taken
  rw [spelt] at swept noToken
  cases found_of_fallbackMatcher taken with
  | @bracketed blanks variant trail rest listed blank blank' =>
    have inside : variant <:+: '[' :: (blanks ++ (variant ++ (trail ++ ']' :: rest))) :=
      ⟨'[' :: blanks, trail ++ ']' :: rest, by simp⟩
    exact absurd swept.symm
      (replaceFallback_ne_bracketed resolved listed blank blank' (noToken listed inside))
  | @hyphenated variant rest listed stopped =>
    have inside : variant <:+: '-' :: (variant ++ rest) := ⟨['-'], rest, rfl⟩
    exact absurd swept.symm
      (replaceFallback_ne_hyphenated resolved listed stopped (noToken listed inside))

end After

/-- In a class without references a variable with a fallback writes its token over the fallback
alone. -/
theorem injectUse_of_not_opened {fallback token : Text} {use : VariableUse}
    (resolved : ColorToken.resolve? use.name = some token) (given : use.fallback = some fallback)
    (nonempty : fallback ≠ []) {name : Text} (unopened : ¬ Variable.opening <:+: name) :
    injectUse name use = replaceFallback fallback token name := by
  have given' : use.fallbackText = some fallback := by
    simp [VariableUse.fallbackText, given, nonempty]
  have unopened' := not_opened_replaceFallback resolved unopened fallback
  simp only [injectUse, resolved, given']
  exact replaceReference_eq_self_of_not_opened unopened' use.name token

/-! ### A spelling around a token -/

/-- The text `lead ++ under :: more` is read behind `char`, in a row of `first`, the start `lead` of
the text, `first` again and the whole text. What is read in the place of `under` is then `char`. -/
theorem eq_of_shifted {first char under : Char} {lead more front back tail rest : Text}
    (split : first :: lead = front ++ char :: back)
    (again : (lead ++ under :: more) ++ tail = back ++ first :: ((lead ++ under :: more) ++ rest)) :
    char = under := by
  have lengths := congrArg List.length split
  have regrouped : lead ++ (under :: more ++ tail) =
      (back ++ front) ++ (char :: back ++ (under :: more ++ rest)) := by
    have spread : first :: ((lead ++ under :: more) ++ rest) =
        front ++ char :: back ++ (under :: more ++ rest) := by
      rw [← split]
      simp
    rw [spread] at again
    simpa only [List.append_assoc] using again
  have sameLength : lead.length = (back ++ front).length := by
    simp only [List.length_cons, List.length_append] at lengths ⊢
    omega
  have behind := (List.append_inj regrouped sameLength).2
  exact (List.cons.inj behind).1.symm

/-- The marks of a token are underscores. -/
theorem exists_marks_eq_cons {sought token : Text}
    (resolved : ColorToken.resolve? sought = some token) : ∃ more, token.marks = '_' :: more := by
  have each : ∀ mark ∈ caseless, isWordChar mark = true → mark = '_' := by decide
  have marked : '_' ∈ token.marks :=
    (Text.mem_marks_iff (by decide)).mpr (ColorToken.underscore_mem_of_resolve? resolved)
  obtain ⟨first, more, spelt⟩ := List.exists_cons_of_ne_nil (List.ne_nil_of_mem marked)
  have inMarks : first ∈ token.marks := by simp [spelt]
  obtain ⟨inToken, isCaseless⟩ := List.mem_filter.mp inMarks
  obtain rfl := each first (List.contains_iff_mem.mp isCaseless)
    (ColorToken.token_wordChars resolved first inToken).1
  exact ⟨more, spelt⟩

/-- Where something is found, the marks of the fallback stand behind a bracket or a hyphen. -/
theorem Found.marks_eq {fallback token text source replacement more : Text} {char : Char}
    (found : Found (variants fallback) token text source replacement) (spelt : text = char :: more) :
    (char = '[' ∨ char = '-') ∧ ∃ marks, Text.marks more = fallback.marks ++ marks := by
  have each {blanks variant : Text} (rest : Text) (listed : variant ∈ variants fallback)
      (blank : ∀ char ∈ blanks, isBlank char = true) :
      Text.marks (blanks ++ (variant ++ rest)) = fallback.marks ++ Text.marks rest := by
    rw [Text.marks_append, Text.marks_append, Text.marks_eq_nil_of_blank blank,
      marks_of_mem_variants listed, List.nil_append]
  have noBlanks : ∀ char ∈ ([] : Text), isBlank char = true := by simp
  cases found with
  | bracketed listed blank =>
    obtain ⟨rfl, rfl⟩ := List.cons.inj spelt
    exact ⟨.inl rfl, _, each _ listed blank⟩
  | hyphenated listed =>
    obtain ⟨rfl, rfl⟩ := List.cons.inj spelt
    exact ⟨.inr rfl, _, each _ listed noBlanks⟩

/-- Nothing is found over a stretch of a text if at none of its brackets and hyphens the marks of the
fallback follow. -/
theorem silentOver_of_marks {fallback token lead rest : Text} {before : Option Char}
    (apart : ∀ start char more marks, (char = '[' ∨ char = '-') →
      lead.marks = start ++ char :: Text.marks more →
        Text.marks (more ++ rest) ≠ fallback.marks ++ marks) :
    (fallbackMatcher (variants fallback) token).SilentOver before lead rest := by
  rcases Matcher.silentOver_or_exists_taken (fallbackMatcher (variants fallback) token) before lead
      rest with
    silent | ⟨start, char, more, source, replacement, rfl, _, _, taken⟩
  · exact silent
  · obtain ⟨isMark, marks, again⟩ := (found_of_fallbackMatcher taken).marks_eq rfl
    have isCaseless : char ∈ caseless := by
      rcases isMark with rfl | rfl <;> decide
    exact absurd again (apart _ char more marks isMark (Text.marks_append_cons isCaseless start more))

/-- A spelling in brackets of its own, within the brackets of what stands around a part of it. -/
def nested (front variant back : Text) : Text :=
  ['[', ' '] ++ front ++ ('[' :: (variant ++ [']']) ++ (back ++ [' ', ']']))

section Nested

variable {fallback front back sought token : Text}
  (resolved : ColorToken.resolve? sought = some token)
  (listed : front ++ (token ++ back) ∈ variants fallback)

include resolved listed in
/-- The mark of the fallback at which its token stands. -/
theorem exists_marks_eq :
    ∃ more, fallback.marks = front.marks ++ '_' :: (more ++ back.marks) := by
  obtain ⟨more, under⟩ := exists_marks_eq_cons resolved
  refine ⟨more, ?_⟩
  rw [← marks_of_mem_variants listed, Text.marks_append, Text.marks_append, under]
  rfl

include resolved listed in
/-- In front of the inner brackets nothing is found: the marks behind would be those of the fallback,
with the inner bracket or an earlier mark in the place of the underscore. -/
theorem silentOver_nested_front (token' rest : Text) :
    (fallbackMatcher (variants fallback) token').SilentOver none (['[', ' '] ++ front)
      ('[' :: (front ++ (token ++ back) ++ [']']) ++ rest) := by
  obtain ⟨more', fallbackMarks⟩ := exists_marks_eq resolved listed
  refine silentOver_of_marks fun start char more marks isMark split again => ?_
  have splitMarks : '[' :: front.marks = start ++ char :: Text.marks more := split
  have again' : fallback.marks ++ marks = Text.marks more ++
      '[' :: (fallback.marks ++ Text.marks ([']'] ++ rest)) := by
    have regrouped : more ++ ('[' :: (front ++ (token ++ back) ++ [']']) ++ rest) =
        more ++ '[' :: (front ++ (token ++ back) ++ ([']'] ++ rest)) := by simp
    refine again.symm.trans ((congrArg Text.marks regrouped).trans ?_)
    rw [Text.marks_append_cons (by decide), Text.marks_append, marks_of_mem_variants listed]
  rw [fallbackMarks] at again'
  obtain rfl := eq_of_shifted splitMarks again'
  exact absurd isMark (by decide)

include resolved listed in
/-- Behind the inner brackets there are too few marks for the fallback. -/
theorem silentOver_nested_back (token' : Text) (before : Option Char) :
    (fallbackMatcher (variants fallback) token').SilentOver before (back ++ [' ', ']']) [] := by
  obtain ⟨more', fallbackMarks⟩ := exists_marks_eq resolved listed
  refine silentOver_of_marks fun start char more marks _ split again => ?_
  have splitMarks : back.marks ++ [']'] = start ++ char :: Text.marks more := by
    rw [← split, Text.marks_append]
    rfl
  have lengths := congrArg List.length splitMarks
  have lengths' := congrArg List.length again
  simp only [fallbackMarks, List.append_nil, List.length_append, List.length_cons,
    List.length_nil] at lengths lengths'
  omega

include resolved listed in
theorem replaceFallback_nested (token' : Text) :
    replaceFallback fallback token' (nested front (front ++ (token ++ back)) back) =
      ['[', ' '] ++ front ++ (token' ++ (back ++ [' ', ']'])) := by
  have noBlanks : ∀ char ∈ ([] : Text), isBlank char = true := by simp
  have taken := fallbackMatcher_variant listed noBlanks noBlanks token'
    (Matcher.lastOf none (['[', ' '] ++ front)) (back ++ [' ', ']'])
  have replaced := Matcher.sweep_append_of_first_taken
    (silentOver_nested_front resolved listed token' _) (List.cons_ne_nil _ _) taken
  rw [Matcher.sweep_eq_self_of_silentOver (silentOver_nested_back resolved listed token' _)]
    at replaced
  exact replaced

end Nested

/-- Brackets with blanks in them that hold a spelling give way to the token. -/
theorem replaceFallback_spaced {fallback variant : Text} (listed : variant ∈ variants fallback)
    (token : Text) :
    replaceFallback fallback token (['[', ' '] ++ (variant ++ [' ', ']'])) = token := by
  have blank : ∀ char ∈ [' '], isBlank char = true := by decide
  have taken := fallbackMatcher_variant listed blank blank token none []
  have replaced := Matcher.sweep_append_of_taken (List.cons_ne_nil _ _) taken
  rw [List.append_nil, Matcher.sweep_nil, List.append_nil] at replaced
  exact replaced

/-- Brackets and blanks around spellings make no reference. -/
theorem not_opened_nested {front variant back : Text} (inFront : front <:+: variant)
    (inBack : back <:+: variant) (unopened : ¬ Variable.opening <:+: variant) :
    ¬ Variable.opening <:+: nested front variant back := by
  have absent : ∀ char ∈ ['[', ' ', ']'], char ∉ Variable.opening := by decide
  have nowhere : ¬ Variable.opening <:+: [] := by decide
  have spread : nested front variant back = [] ++ '[' :: ([] ++ ' ' :: (front ++ '[' ::
      (variant ++ ']' :: (back ++ ' ' :: ([] ++ ']' :: []))))) := by
    simp [nested]
  rw [spread, Text.infix_append_cons_iff (absent '[' (by decide)),
    Text.infix_append_cons_iff (absent ' ' (by decide)),
    Text.infix_append_cons_iff (absent '[' (by decide)),
    Text.infix_append_cons_iff (absent ']' (by decide)),
    Text.infix_append_cons_iff (absent ' ' (by decide)),
    Text.infix_append_cons_iff (absent ']' (by decide))]
  rintro (nothing | nothing | opened | opened | opened | nothing | nothing)
  · exact nowhere nothing
  · exact nowhere nothing
  · exact unopened (opened.trans inFront)
  · exact unopened opened
  · exact unopened (opened.trans inBack)
  · exact nowhere nothing
  · exact nowhere nothing

theorem bareBrackets_blank (text : Text) :
    ∃ rest, bareBrackets.replaceAll ('[' :: ' ' :: text) = '[' :: rest := by
  have nothing : bareBrackets none ('[' :: ' ' :: text) = none := rfl
  exact ⟨_, Matcher.sweep_cons_of_silent (Matcher.silent_of_eq_none nothing)⟩

section Pair

variable {use use' : VariableUse} {token token' fallback : Text}
  (resolved : ColorToken.resolve? use.name = some token)
  (resolved' : ColorToken.resolve? use'.name = some token')
  (given : use.fallback = some fallback) (given' : use'.fallback = some fallback)
  (nonempty : fallback ≠ [])

include resolved resolved' given given' nonempty in
/-- Of two variables with one fallback the later one writes nothing if what the earlier one left has
no spelling with the earlier token. -/
theorem inject_pair_eq {name : Text} (unopened : ¬ Variable.opening <:+: name)
    (apart : ∀ variant ∈ variants fallback, token <:+: variant →
      ¬ variant <:+: replaceFallback fallback token name) :
    inject name [use, use'] = inject name [use] := by
  have first := injectUse_of_not_opened resolved given nonempty unopened
  have unopened' := not_opened_replaceFallback resolved unopened fallback
  have second := injectUse_of_not_opened resolved' given' nonempty unopened'
  have both : injectUse (injectUse name use) use' = injectUse name use := by
    rw [first, second, replaceFallback_replaceFallback resolved apart]
  exact congrArg bareBrackets.replaceAll both

include resolved resolved' given given' nonempty in
/-- The first variable finishes the outer brackets, and the second one takes them. -/
theorem inject_nested {front back : Text} (listed : front ++ (token ++ back) ∈ variants fallback)
    (unopened : ¬ Variable.opening <:+: nested front (front ++ (token ++ back)) back) :
    inject (nested front (front ++ (token ++ back)) back) [use, use'] = token' ∧
      ∃ rest, inject (nested front (front ++ (token ++ back)) back) [use] = '[' :: rest := by
  have first := injectUse_of_not_opened resolved given nonempty unopened
  have unopened' := not_opened_replaceFallback resolved unopened fallback
  have second := injectUse_of_not_opened resolved' given' nonempty unopened'
  have spaced : replaceFallback fallback token (nested front (front ++ (token ++ back)) back) =
      ['[', ' '] ++ (front ++ (token ++ back) ++ [' ', ']']) := by
    rw [replaceFallback_nested resolved listed]
    simp
  constructor
  · have both : injectUse (injectUse (nested front (front ++ (token ++ back)) back) use) use' =
        token' := by
      rw [first]
      exact second.trans ((congrArg _ spaced).trans (replaceFallback_spaced listed token'))
    exact (congrArg bareBrackets.replaceAll both).trans
      (bareBrackets_eq_self (not_mem_token resolved' (by decide)))
  · rw [inject_singleton, first, spaced]
    exact bareBrackets_blank _

end Pair

/-- The token of the first of two variables with one fallback is left alone in every class just if it
is part of no spelling of the fallback, those apart that hold a reference. -/
theorem firstUse_wins_iff {use use' : VariableUse} {token token' fallback : Text}
    (resolved : ColorToken.resolve? use.name = some token)
    (resolved' : ColorToken.resolve? use'.name = some token')
    (given : use.fallback = some fallback) (given' : use'.fallback = some fallback)
    (nonempty : fallback ≠ []) :
    (∀ name, ¬ Variable.opening <:+: name → inject name [use, use'] = inject name [use]) ↔
      ∀ variant ∈ variants fallback, token <:+: variant → Variable.opening <:+: variant := by
  constructor
  · rintro wins variant listed ⟨front, back, rfl⟩
    by_contra unopened
    rw [List.append_assoc] at listed unopened
    have inFront : front <:+: front ++ (token ++ back) := (List.prefix_append front _).isInfix
    have inBack : back <:+: front ++ (token ++ back) := ⟨front ++ token, [], by simp⟩
    have unopened' := not_opened_nested inFront inBack unopened
    obtain ⟨both, rest, alone⟩ :=
      inject_nested resolved resolved' given given' nonempty listed unopened'
    have token_eq : token' = '[' :: rest := both.symm.trans ((wins _ unopened').trans alone)
    exact not_mem_token resolved' (by decide) (token_eq ▸ List.mem_cons_self : '[' ∈ token')
  · intro opened name unopened
    refine inject_pair_eq resolved resolved' given given' nonempty unopened
      fun variant listed inside written => ?_
    exact unopened (opening_infix_of_sweep resolved ((opened variant listed inside).trans written))

/-- The second variable leaves the token of the first one where the fallback is a color, and takes it
where the fallback is spelt like the token. -/
theorem firstUse_wins_white :
    let first fallback : VariableUse := ⟨"--background-bg1".toList, some fallback, 0, 1⟩
    let second fallback : VariableUse := ⟨"--text-2".toList, some fallback, 2, 3⟩
    let white := "#fff".toList
    let like := "bg_1".toList
    ColorToken.resolve? "--background-bg1".toList = some like ∧
      ColorToken.resolve? "--text-2".toList = some "text_2".toList ∧
      (∀ name, ¬ Variable.opening <:+: name →
        inject name [first white, second white] = inject name [first white]) ∧
      (¬ ∀ name, ¬ Variable.opening <:+: name →
        inject name [first like, second like] = inject name [first like]) ∧
      inject "text-[bg_1]".toList [first like, second like] = "text-text_2".toList ∧
      inject "text-[bg_1]".toList [first like] = "text-bg_1".toList := by
  intro first second white like
  have resolved : ColorToken.resolve? "--background-bg1".toList = some like := by decide +kernel
  have resolved' : ColorToken.resolve? "--text-2".toList = some "text_2".toList := by decide +kernel
  have winsWhite := @firstUse_wins_iff (first white) (second white) _ _ white resolved resolved'
    rfl rfl (by decide)
  have winsLike := @firstUse_wins_iff (first like) (second like) _ _ like resolved resolved'
    rfl rfl (by decide)
  refine ⟨resolved, resolved', winsWhite.mpr (by decide +kernel), mt winsLike.mp (by decide +kernel),
    ?_, ?_⟩
  · decide +kernel
  · decide +kernel

end TokenInjection

end AtomicCss
