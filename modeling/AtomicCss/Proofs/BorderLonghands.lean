/-
This file compares the shorthand of a border with its longhands. The shorthand sorts the parts of
its value by itself and gives each a class; the longhand of a style, a width or a color takes the
part as its whole value and goes by the tables. The two give the same class for every color and for
every length, but not for all the rest: the shorthand knows ten styles and the table of the longhand
four, the shorthand writes the name of a width in small letters, and it takes a calculation for a
color and squeezes its blanks out, where the longhand of a width joins its words.
-/

import AtomicCss.Proofs.BorderWidths
import AtomicCss.Proofs.ClassPrefix
import AtomicCss.Proofs.ImportantMark
import AtomicCss.Proofs.TopLevelParts

namespace AtomicCss

/-! ### Joined parts -/

namespace Text

/-- A joined text ends with what its last part ends with. -/
theorem not_suffix_join {mark : Text} (noSpace : ' ' ∉ mark) (nonempty : mark ≠ [])
    {parts : List Text} (unmarked : ∀ part ∈ parts, ¬ mark <:+ part) :
    ¬ mark <:+ join [' '] parts := by
  induction parts with
  | nil => exact fun ends => nonempty (List.suffix_nil.mp ends)
  | cons first parts inductionHypothesis =>
    obtain ⟨unmarked, behind⟩ := List.forall_mem_cons.mp unmarked
    cases parts with
    | nil => rwa [join_singleton]
    | cons second parts =>
      rw [join_cons_cons]
      exact fun ends => inductionHypothesis behind
        (Text.suffix_of_suffix_append_cons noSpace ends)

/-! ### Blanks squeezed out and words joined -/

theorem flatten_words (text : Text) : text.words.flatten = text.compact := by
  rw [words, List.flatten_filter_not_isEmpty]
  induction text with
  | nil => rfl
  | cons char text inductionHypothesis =>
    rw [List.splitOnP_cons_eq_if_modifyHead]
    split
    · next blank =>
      rw [List.flatten_cons, List.nil_append, inductionHypothesis, compact, compact,
        List.filter_cons_of_neg (by simp [blank])]
    · next full =>
      obtain ⟨first, more, split⟩ := List.exists_cons_of_ne_nil (List.splitOnP_ne_nil isBlank text)
      rw [split, List.flatten_cons] at inductionHypothesis
      rw [split, List.modifyHead_cons, List.flatten_cons, List.cons_append, inductionHypothesis,
        compact, compact, List.filter_cons_of_pos (by simpa using full)]

theorem words_append_cons {char : Char} (blank : isBlank char = true) (first second : Text) :
    words (first ++ char :: second) = words first ++ words second := by
  rw [words, words, words, List.splitOnP_append_cons first second blank, List.filter_append]

theorem words_ne_nil {text : Text} {char : Char} (member : char ∈ text)
    (full : isBlank char = false) : text.words ≠ [] := by
  intro nothing
  have inCompact : char ∈ text.compact := List.mem_filter.mpr ⟨member, by simp [full]⟩
  rw [← flatten_words, nothing] at inCompact
  cases inCompact

/-- Where the ends of a text are not blank, squeezing its blanks out and joining its words are the
same only if there is no blank: between two words stands an underscore that the text does not have
there. -/
theorem compact_eq_underscored_iff {text : Text} (trimmed : text.Trimmed) (nonempty : text ≠ []) :
    text.compact = text.underscored ↔ text.Unbroken := by
  constructor
  · intro same char member
    by_contra blank
    rw [Bool.not_eq_false] at blank
    obtain ⟨lead, rest, rfl⟩ := List.append_of_mem member
    have inLead : words lead ≠ [] := by
      have starts := trimmed.head
      cases lead with
      | nil => simp [stops, blank] at starts
      | cons first lead => exact words_ne_nil List.mem_cons_self (by simpa [stops] using starts)
    have inRest : words rest ≠ [] := by
      have ends := trimmed.last
      rcases List.eq_nil_or_concat rest with rfl | ⟨init, last, rfl⟩
      · simp [stops, blank] at ends
      · refine words_ne_nil (by simp : last ∈ init.concat last) ?_
        simpa [stops] using ends
    have counted := Text.count_join '_' (List.append_ne_nil_of_left_ne_nil inLead (words rest))
    rw [← words_append_cons blank, flatten_words] at counted
    change (underscored _).count '_' + 1 = _ at counted
    rw [← same, words_append_cons blank, List.length_append] at counted
    have positive := List.length_pos_iff.mpr inLead
    have positive' := List.length_pos_iff.mpr inRest
    omega
  · intro unbroken
    rw [compact_eq_self unbroken, underscored, words_of_word nonempty unbroken, join_singleton]

end Text

/-- Lists of class names are the same as their texts are. -/
theorem join_eq_join_iff {names names' : List Text} (areNames : ∀ name ∈ names, IsClassName name)
    (areNames' : ∀ name ∈ names', IsClassName name) :
    Text.join [' '] names = Text.join [' '] names' ↔ names = names' := by
  have read {names : List Text} (areNames : ∀ name ∈ names, IsClassName name) :
      classNames (Text.join [' '] names) = names :=
    classNames_join (fun name listed => (areNames name listed).nonempty) fun name listed =>
      (areNames name listed).unbroken.not_mem (by decide)
  constructor
  · intro same
    rw [← read areNames, same, read areNames']
  · exact congrArg _

/-! ### Three kinds of parts -/

/-- What a part of a border's value is about. -/
inductive BorderAspect where
  | style
  | width
  | color
  deriving DecidableEq

/-- A name with parentheses behind it. -/
def callText (name content : Text) : Text :=
  name ++ ('(' :: content ++ [')'])

/-- The characters of a number and its unit. -/
def isLengthChar (char : Char) : Bool :=
  char.isAlphanum || ".%+-".toList.contains char

namespace BorderAspect

/-- The property that takes the parts of one aspect. -/
def longhand : BorderAspect → Text
  | style => "border-style".toList
  | width => "border-width".toList
  | color => "border-color".toList

/-- The parts of each aspect: the styles; a width by its name, as a number that may have a sign and
a unit, or calculated; a color in hexadecimal digits, by its name, or as a call. -/
inductive Admits : BorderAspect → Text → Prop where
  | style {text : Text} (listed : text.lowerAscii ∈ Property.borderStyles) : Admits style text
  | namedWidth {text : Text} (listed : text.lowerAscii ∈ Property.borderWidths) : Admits width text
  | length {sign more : Text} {first : Char} (isSign : sign ∈ [[], ['+'], ['-']])
      (starts : first.isDigit = true ∨ first = '.')
      (isLength : ∀ char ∈ more, isLengthChar char = true) : Admits width (sign ++ first :: more)
  | calculation {name content : Text} (isCalc : name.lowerAscii = "calc".toList)
      (balanced : content.Balanced) : Admits width (callText name content)
  | hexColor {digits : Text} (nonempty : digits ≠ [])
      (isHex : ∀ char ∈ digits, isHexDigit char = true) : Admits color ('#' :: digits)
  | namedColor {text : Text} (nonempty : text ≠ []) (isAlpha : ∀ char ∈ text, char.isAlpha = true)
      (unlisted : text.lowerAscii ∉ Property.borderStyles ++ Property.borderWidths) :
      Admits color text
  | colorCall {first : Char} {more content : Text} (isAlpha : first.isAlpha = true)
      (isName : ∀ char ∈ more, isNameChar char = true)
      (notCalc : Text.lowerAscii (first :: more) ≠ "calc".toList) (balanced : content.Balanced) :
      Admits color (callText (first :: more) content)

/-- The styles that the longhand has a class for. -/
def longhandStyles : List Text :=
  ["solid".toList, "dashed".toList, "dotted".toList, "none".toList]

/-- What a part needs to have the same class by itself as in the shorthand. -/
def Agrees : BorderAspect → Text → Prop
  | style, text => text.lowerAscii ∈ longhandStyles
  | width, text => (text.lowerAscii ∈ Property.borderWidths → text.lowerAscii = text) ∧ text.Unbroken
  | color, _ => True

end BorderAspect

/-- A part of a border's value. -/
structure BorderPart where
  aspect : BorderAspect
  text : Text
  admitted : aspect.Admits text

namespace BuiltIn

/-! ### Lengths -/

theorem readLoose?_eq_none {first : Char} (notDigit : first.isDigit = false) (notPoint : first ≠ '.')
    (rest : Text) : Numeral.readLoose? (first :: rest) = none := by
  have noRun : Text.span Char.isDigit (first :: rest) = ([], first :: rest) :=
    Text.span_eq_iff.mpr ⟨rfl, by simp, by simp [Text.stops, notDigit]⟩
  have noFraction : Numeral.readFraction? (first :: rest) = none := by
    unfold Numeral.readFraction?
    split
    · next behind spelt => exact absurd (List.cons.inj spelt).1 notPoint
    · rfl
  simp only [Numeral.readLoose?, Numeral.read?, noRun, noFraction, Option.map_none]

/-- A length starts with a digit, a point or a minus sign. -/
theorem isLength_eq_false {first : Char} (notDigit : first.isDigit = false) (notPoint : first ≠ '.')
    (notSign : first ≠ '-') (rest : Text) : isLength (first :: rest) = false := by
  have same : unsigned (first :: rest) = first :: rest := by
    unfold unsigned
    split
    · next behind spelt => exact absurd (List.cons.inj spelt).1 notSign
    · rfl
  have unread := readLoose?_eq_none notDigit notPoint rest
  simp only [isLength, same, Numeral.ofText?, dimension?, unread, Option.isSome_none, Bool.or_self]

/-- What starts with a letter is no length, and has no sign to set apart. -/
theorem isLength_and_unsigned_of_isAlpha {first : Char} (letter : first.isAlpha = true)
    (rest : Text) : isLength (first :: rest) = false ∧ unsigned (first :: rest) = first :: rest := by
  have notPoint : first ≠ '.' := by
    rintro rfl
    cases letter
  have notSign : first ≠ '-' := by
    rintro rfl
    cases letter
  refine ⟨isLength_eq_false (isDigit_of_isAlpha letter) notPoint notSign rest, ?_⟩
  unfold unsigned
  split
  · next spelt => exact absurd (List.cons.inj spelt).1 notSign
  · rfl

/-- A number of pixels is a numeral with a unit. -/
theorem isSome_dimension?_of_pixels? {value : Text} {numeral : Numeral}
    (found : pixels? value = some numeral) : (dimension? value).isSome = true := by
  obtain ⟨number, spelt, read⟩ := Option.bind_eq_some_iff.mp found
  obtain rfl := Text.before?_eq_some_iff.mp spelt
  have reading : Numeral.readLoose? (number ++ ['p', 'x']) = some (numeral, ['p', 'x']) := by
    have unit : numeral.Ends ['p', 'x'] := Numeral.ends_cons (by decide) (by decide)
    have loose : Numeral.readLoose? number = some (numeral, []) := by
      unfold Numeral.ofText? at read
      split at read
      · next reading => rwa [Option.some.inj read] at reading
      · cases read
    unfold Numeral.readLoose? at loose
    split at loose
    · next result reading =>
      rw [Option.some.inj loose] at reading
      obtain ⟨rfl, wellFormed, _⟩ := Numeral.read?_eq_some_iff.mp reading
      have behind : Numeral.read? (numeral.text ++ [] ++ ['p', 'x']) = some (numeral, ['p', 'x']) :=
        Numeral.read?_eq_some_iff.mpr ⟨by rw [List.append_nil], wellFormed, unit⟩
      rw [Numeral.readLoose?, behind]
    · obtain ⟨⟨digits, rest⟩, fraction, equal⟩ := Option.map_eq_some_iff.mp loose
      obtain ⟨rfl, rfl⟩ := Prod.mk.inj equal
      obtain ⟨rfl, nonempty, isDigit, _⟩ := Numeral.readFraction?_eq_some_iff.mp fraction
      have noRun : Numeral.read? ('.' :: (digits ++ []) ++ ['p', 'x']) = none := rfl
      have behind : Numeral.readFraction? ('.' :: (digits ++ []) ++ ['p', 'x']) =
          some (digits, ['p', 'x']) :=
        Numeral.readFraction?_eq_some_iff.mpr ⟨by simp, nonempty, isDigit, by decide⟩
      rw [Numeral.readLoose?, noRun, behind]
      rfl
  have unit : "px".toList = ['p', 'x'] := rfl
  rw [unit, dimension?, reading]
  rfl

/-- What is no length stands in brackets with its words joined. -/
theorem lengthBody_of_not_isLength {value : Text} (noSign : unsigned value = value)
    (notLength : isLength value = false) (isRem : Bool) :
    lengthBody value isRem = inBrackets value.underscored := by
  rw [isLength, noSign, Bool.or_eq_false_iff] at notLength
  obtain ⟨notNumeral, notDimension⟩ := notLength
  have noPixels : pixels? value = none := by
    rw [Option.eq_none_iff_forall_ne_some]
    intro numeral found
    rw [isSome_dimension?_of_pixels? found] at notDimension
    cases notDimension
  have noDimension : dimension? value = none :=
    Option.isNone_iff_eq_none.mp (Option.isSome_eq_false_iff.mp notDimension)
  simp [lengthBody, noPixels, notNumeral, noDimension]

section Refused

variable {stem value : Text} (isPart : IsPart value) (notLength : isLength value = false)
  (isRem : Bool)

include isPart notLength in
theorem lengthClass_of_not_isLength (noSign : unsigned value = value) :
    lengthClass stem value isRem = hyphenated stem (inBrackets value.underscored) := by
  unfold lengthClass
  rw [Text.parts_eq_singleton isPart, if_neg (by simp)]
  split
  · next magnitude =>
    have shorter := congrArg List.length noSign
    simp [unsigned] at shorter
  · rw [lengthBody_of_not_isLength noSign notLength]

include isPart notLength in
/-- Without blanks, what is no length stands in brackets as it is, with its sign if it has one. -/
theorem lengthClass_of_unbroken (refused : stem ∉ Property.negatableStems)
    (unbroken : value.Unbroken) :
    lengthClass stem value isRem = hyphenated stem (inBrackets value) := by
  by_cases noSign : unsigned value = value
  · rw [lengthClass_of_not_isLength isPart notLength isRem noSign, Text.underscored,
      Text.words_of_word isPart.nonempty unbroken, Text.join_singleton]
  · unfold lengthClass
    rw [Text.parts_eq_singleton isPart, if_neg (by simp)]
    split
    · rw [if_neg fun negatable => refused (List.contains_iff_mem.mp negatable)]
    · next positive =>
      refine absurd ?_ noSign
      unfold unsigned
      split
      · next rest => exact absurd rfl (positive rest)
      · rfl

end Refused

theorem hyphenated_inBrackets_inj {stem body body' : Text} :
    hyphenated stem (inBrackets body) = hyphenated stem (inBrackets body') ↔ body = body' := by
  simp [hyphenated, inBrackets]

end BuiltIn

/-! ### Parts as parts -/

theorem isPlainChar_of_isNameChar {char : Char} (isName : isNameChar char = true) :
    isPlainChar char = true := by
  rw [isNameChar, Bool.or_eq_true, beq_iff_eq] at isName
  rcases isName with isWord | rfl
  · exact isPlainChar_of_isWordChar isWord
  · decide

theorem isPlainChar_of_isLengthChar {char : Char} (isLength : isLengthChar char = true) :
    isPlainChar char = true := by
  rw [isLengthChar, Bool.or_eq_true] at isLength
  rcases isLength with isAlphanum | other
  · exact isPlainChar_of_isWordChar (by rw [isWordChar, isAlphanum, Bool.true_or])
  · have each : ∀ char ∈ ".%+-".toList, isPlainChar char = true := by decide
    exact each char (List.contains_iff_mem.mp other)

namespace BorderAspect

variable {aspect : BorderAspect} {text : Text}

theorem isPlainChar_of_mem_length {sign more : Text} {first : Char}
    (isSign : sign ∈ [[], ['+'], ['-']]) (starts : first.isDigit = true ∨ first = '.')
    (isLength : ∀ char ∈ more, isLengthChar char = true) :
    ∀ char ∈ sign ++ first :: more, isPlainChar char = true := by
  have signs : ∀ sign ∈ [[], ['+'], ['-']], ∀ char ∈ sign, isPlainChar char = true := by decide
  refine List.forall_mem_append.mpr ⟨signs sign isSign, List.forall_mem_cons.mpr ⟨?_, ?_⟩⟩
  · rcases starts with isDigit | rfl
    · exact isPlainChar_of_isWordChar (isWordChar_of_isDigit isDigit)
    · decide
  · exact fun char member => isPlainChar_of_isLengthChar (isLength char member)

/-- The name of a calculation is one of letters. -/
theorem exists_eq_cons_of_isCalc {name : Text} (isCalc : name.lowerAscii = "calc".toList) :
    ∃ first more, name = first :: more ∧ first.isAlpha = true ∧
      ∀ char ∈ more, char.isAlpha = true := by
  have each : ∀ char ∈ "calc".toList, char.isAlpha = true := by decide
  have isAlpha : ∀ char ∈ name, char.isAlpha = true := fun char member =>
    isAlpha_of_isAlpha_toLower (each _ (isCalc ▸ List.mem_map_of_mem member))
  obtain ⟨first, more, rfl⟩ : ∃ first more, name = first :: more := by
    refine List.exists_cons_of_ne_nil ?_
    rintro rfl
    cases isCalc
  exact ⟨first, more, rfl, List.forall_mem_cons.mp isAlpha⟩

/-- A part is plain, or it is a call. -/
theorem Admits.plain_or_call (admitted : aspect.Admits text) :
    (text ≠ [] ∧ ∀ char ∈ text, isPlainChar char = true) ∨
      ∃ first more content, first.isAlpha = true ∧ (∀ char ∈ more, isPlainChar char = true) ∧
        Text.Balanced content ∧ text = callText (first :: more) content := by
  cases admitted with
  | style listed =>
    obtain ⟨nonempty, isAlpha⟩ := isAlpha_of_lowerAscii_mem (List.mem_append_left _ listed)
    exact Or.inl ⟨nonempty, isPlainChar_of_mem_letters isAlpha⟩
  | namedWidth listed =>
    obtain ⟨nonempty, isAlpha⟩ := isAlpha_of_lowerAscii_mem (List.mem_append_right _ listed)
    exact Or.inl ⟨nonempty, isPlainChar_of_mem_letters isAlpha⟩
  | length isSign starts isLength =>
    exact Or.inl ⟨List.append_ne_nil_of_right_ne_nil _ (List.cons_ne_nil _ _),
      isPlainChar_of_mem_length isSign starts isLength⟩
  | @calculation name content isCalc balanced =>
    obtain ⟨first, more, rfl, letter, behind⟩ := exists_eq_cons_of_isCalc isCalc
    exact Or.inr ⟨first, more, content, letter, isPlainChar_of_mem_letters behind, balanced, rfl⟩
  | hexColor nonempty isHex =>
    exact Or.inl ⟨List.cons_ne_nil _ _, isPlainChar_of_mem_hexColor isHex⟩
  | namedColor nonempty isAlpha =>
    exact Or.inl ⟨nonempty, isPlainChar_of_mem_letters isAlpha⟩
  | colorCall isAlpha isName notCalc balanced =>
    exact Or.inr ⟨_, _, _, isAlpha,
      fun char member => isPlainChar_of_isNameChar (isName char member), balanced, rfl⟩

theorem Admits.isPart (admitted : aspect.Admits text) : IsPart text := by
  obtain ⟨nonempty, plain⟩ | ⟨first, more, content, letter, plain, balanced, rfl⟩ :=
    admitted.plain_or_call
  · exact isPart_of_forall nonempty fun char member => flat_of_isPlainChar (plain char member)
  · have named : ∀ char ∈ first :: more, isPlainChar char = true := List.forall_mem_cons.mpr
      ⟨isPlainChar_of_isWordChar (isWordChar_of_isAlpha letter), plain⟩
    exact isPart_call (fun char member => flat_of_isPlainChar (named char member)) balanced

/-- The mark of an important declaration starts with a sign that is not plain, and a call ends with
its parenthesis. -/
theorem Admits.unmarked (admitted : aspect.Admits text) : ¬ BuiltIn.importantMark <:+ text := by
  obtain ⟨_, plain⟩ | ⟨first, more, content, _, _, _, rfl⟩ := admitted.plain_or_call
  · exact BuiltIn.not_suffix_of_not_mem (Text.not_mem_of_forall plain (by decide))
  · have spelt : callText (first :: more) content =
        (first :: more ++ '(' :: content) ++ ')' :: [] := by
      simp [callText]
    rw [spelt]
    intro ends
    have nothing := Text.suffix_of_suffix_append_cons (by decide) ends
    exact absurd (List.suffix_nil.mp nothing) (by decide)

/-- A part with a minus sign is no call, so it has no blank. -/
theorem Admits.unbroken_of_negative (admitted : aspect.Admits text)
    (negative : text.head? = some '-') : text.Unbroken := by
  obtain ⟨_, plain⟩ | ⟨first, more, content, letter, _, _, rfl⟩ := admitted.plain_or_call
  · exact fun char member => (flat_of_isPlainChar (plain char member)).1
  · rw [Option.some.inj negative] at letter
    cases letter

/-! ### Two routes to a class -/

theorem classOf_style (isRem : Bool) (listed : text.lowerAscii ∈ Property.borderStyles) :
    BuiltIn.borderPart "border".toList text isRem = BuiltIn.classOf style.longhand text isRem ↔
      Agrees style text := by
  have keyword : Property.keywordClasses.lookup style.longhand = some (textTable
      [ ("solid", "border-solid"), ("dashed", "border-dashed"), ("dotted", "border-dotted"),
        ("none", "border-none") ]) := by
    decide +kernel
  have each : ∀ style ∈ Property.borderStyles,
      let found := (textTable [ ("solid", "border-solid"), ("dashed", "border-dashed"),
        ("dotted", "border-dotted"), ("none", "border-none") ]).lookup style
      if style ∈ longhandStyles then found = some (BuiltIn.hyphenated "border".toList style)
      else found = none := by
    decide
  have found := each _ listed
  have class_eq : BuiltIn.borderPart "border".toList text isRem =
      BuiltIn.hyphenated "border".toList text.lowerAscii := by
    rw [BuiltIn.borderPart, List.contains_iff_mem.mpr listed, if_pos rfl]
  rw [class_eq, BuiltIn.classOf, Agrees, Property.kind, keyword]
  simp only at found ⊢
  split at found
  · next agrees =>
    rw [found]
    exact iff_of_true rfl agrees
  · next differs =>
    rw [found]
    refine iff_of_false (fun same => ?_) differs
    cases same

section Width

variable (isRem : Bool)

theorem classOf_width (text : Text) :
    BuiltIn.classOf width.longhand text isRem =
      BuiltIn.lengthClass "border".toList text isRem := by
  have listed : (width.longhand, "border".toList) ∈ Property.lengthStems := by decide +kernel
  simp only [BuiltIn.classOf, (BuiltIn.kind_of_mem_lengthStems listed).2]

theorem classOf_color (text : Text) :
    BuiltIn.classOf color.longhand text isRem = BuiltIn.colorClass "border".toList text := by
  have listed : (color.longhand, "border".toList) ∈ Property.colorStems := by decide
  simp only [BuiltIn.classOf, (BuiltIn.kind_of_mem_colorStems listed).2]

theorem refused : "border".toList ∉ Property.negatableStems := by
  decide

theorem isLength_of_isAlpha (nonempty : text ≠ []) (isAlpha : ∀ char ∈ text, char.isAlpha = true) :
    BuiltIn.isLength text = false := by
  obtain ⟨first, more, rfl⟩ := List.exists_cons_of_ne_nil nonempty
  exact (BuiltIn.isLength_and_unsigned_of_isAlpha (isAlpha first List.mem_cons_self) more).1

/-- A text with another character than letters has no width for its name. -/
theorem not_mem_borderWidths {char : Char} (member : char ∈ text.lowerAscii)
    (other : char.isAlpha = false) : text.lowerAscii ∉ Property.borderWidths := by
  intro listed
  rw [BuiltIn.isAlpha_of_mem_borderNames (List.mem_append_right _ listed) char member] at other
  cases other

theorem classOf_namedWidth (listed : text.lowerAscii ∈ Property.borderWidths) :
    BuiltIn.borderPart "border".toList text isRem = BuiltIn.classOf width.longhand text isRem ↔
      Agrees width text := by
  have isPart := (Admits.namedWidth listed).isPart
  obtain ⟨nonempty, isAlpha⟩ :=
    isAlpha_of_lowerAscii_mem (List.mem_append_right Property.borderStyles listed)
  have unbroken : text.Unbroken := Text.unbroken_of_isWordChar fun char member =>
    isWordChar_of_isAlpha (isAlpha char member)
  have notLength := isLength_of_isAlpha nonempty isAlpha
  have noStyle : text.lowerAscii ∉ Property.borderStyles := by
    have apart : ∀ width ∈ Property.borderWidths, width ∉ Property.borderStyles := by
      decide
    exact apart _ listed
  have class_eq : BuiltIn.borderPart "border".toList text isRem =
      BuiltIn.hyphenated "border".toList (BuiltIn.inBrackets text.lowerAscii) := by
    rw [BuiltIn.borderPart, if_neg fun style => noStyle (List.contains_iff_mem.mp style),
      List.contains_iff_mem.mpr listed, if_pos rfl]
  rw [class_eq, classOf_width,
    BuiltIn.lengthClass_of_unbroken isPart notLength isRem refused unbroken,
    BuiltIn.hyphenated_inBrackets_inj, Agrees]
  exact ⟨fun same => ⟨fun _ => same, unbroken⟩, fun agrees => agrees.1 listed⟩

/-- The shorthand may not know a length as one, but in brackets it stands as it is on both routes. -/
theorem classOf_length {char : Char} (member : char ∈ text.lowerAscii)
    (other : char.isAlpha = false) (isPart : IsPart text) (unbroken : text.Unbroken) :
    BuiltIn.borderPart "border".toList text isRem = BuiltIn.classOf width.longhand text isRem ↔
      Agrees width text := by
  have agrees : Agrees width text :=
    ⟨fun listed => absurd listed (not_mem_borderWidths member other), unbroken⟩
  refine iff_of_true ?_ agrees
  rw [classOf_width, BuiltIn.borderPart_of_mem member other]
  cases isLength : BuiltIn.isLength text with
  | true => rw [if_pos rfl]
  | false =>
    rw [if_neg Bool.false_ne_true, BuiltIn.colorClass_of_mem member other,
      BuiltIn.lengthClass_of_unbroken isPart isLength isRem refused unbroken,
      Text.compact_eq_self unbroken]

/-- A calculation has its blanks squeezed out on one route and its words joined on the other. -/
theorem classOf_calculation {name content : Text} (isCalc : name.lowerAscii = "calc".toList)
    (isPart : IsPart (callText name content)) :
    BuiltIn.borderPart "border".toList (callText name content) isRem =
        BuiltIn.classOf width.longhand (callText name content) isRem ↔
      Agrees width (callText name content) := by
  have member : '(' ∈ (callText name content).lowerAscii :=
    List.mem_map.mpr ⟨'(', by simp [callText], by decide⟩
  have other : Char.isAlpha '(' = false := by decide
  obtain ⟨first, more, rfl, letter, _⟩ := exists_eq_cons_of_isCalc isCalc
  obtain ⟨notLength, noSign⟩ :
      BuiltIn.isLength (callText (first :: more) content) = false ∧ BuiltIn.unsigned
        (callText (first :: more) content) = callText (first :: more) content :=
    BuiltIn.isLength_and_unsigned_of_isAlpha letter _
  rw [BuiltIn.borderPart_of_mem member other, notLength, if_neg Bool.false_ne_true, classOf_width,
    BuiltIn.colorClass_of_mem member other,
    BuiltIn.lengthClass_of_not_isLength isPart notLength isRem noSign,
    BuiltIn.hyphenated_inBrackets_inj,
    Text.compact_eq_underscored_iff isPart.trimmed isPart.nonempty, Agrees]
  exact (and_iff_right fun listed => absurd listed (not_mem_borderWidths member other)).symm

/-- The shorthand takes for a color what it knows to be nothing else. -/
theorem classOf_otherwise (unlisted : text.lowerAscii ∉ Property.borderStyles ++ Property.borderWidths)
    (notLength : BuiltIn.isLength text = false) :
    BuiltIn.borderPart "border".toList text isRem = BuiltIn.classOf color.longhand text isRem := by
  rw [BuiltIn.borderPart_of_not_listed unlisted, notLength, if_neg Bool.false_ne_true,
    classOf_color]

end Width

/-- The two routes give one class exactly if the part agrees. -/
theorem Admits.borderPart_eq_iff (admitted : aspect.Admits text) (isRem : Bool) :
    BuiltIn.borderPart "border".toList text isRem =
        BuiltIn.classOf aspect.longhand text isRem ↔ aspect.Agrees text := by
  have isPart := admitted.isPart
  cases admitted with
  | style listed => exact classOf_style isRem listed
  | namedWidth listed => exact classOf_namedWidth isRem listed
  | @length sign more first isSign starts isLength =>
    have other : first.isAlpha = false ∧ first.toLower = first := by
      rcases starts with isDigit | rfl
      · exact ⟨isAlpha_of_isDigit isDigit, toLower_of_isDigit isDigit⟩
      · decide
    have member : first ∈ Text.lowerAscii (sign ++ first :: more) :=
      List.mem_map.mpr ⟨first, by simp, other.2⟩
    refine classOf_length isRem member other.1 isPart fun char inText => ?_
    exact (flat_of_isPlainChar (isPlainChar_of_mem_length isSign starts isLength char inText)).1
  | calculation isCalc balanced => exact classOf_calculation isRem isCalc isPart
  | hexColor nonempty isHex =>
    refine iff_of_true (classOf_otherwise isRem (fun listed => ?_) rfl) trivial
    cases (isAlpha_of_lowerAscii_mem listed).2 '#' List.mem_cons_self
  | namedColor nonempty isAlpha unlisted =>
    exact iff_of_true (classOf_otherwise isRem unlisted (isLength_of_isAlpha nonempty isAlpha))
      trivial
  | @colorCall first more content isAlpha isName notCalc balanced =>
    have notLength : BuiltIn.isLength (callText (first :: more) content) = false :=
      (BuiltIn.isLength_and_unsigned_of_isAlpha isAlpha _).1
    refine iff_of_true (classOf_otherwise isRem (fun listed => ?_) notLength) trivial
    cases (isAlpha_of_lowerAscii_mem listed).2 '(' (by simp [callText])

/-- A longhand gives each of its parts one class. -/
theorem Admits.isClassName (admitted : aspect.Admits text) (isRem : Bool) :
    IsClassName (BuiltIn.classOf aspect.longhand text isRem) := by
  have longhand : aspect.longhand.Unbroken ∧ aspect.longhand ∉ BuiltIn.borderShorthands := by
    cases aspect <;> decide
  obtain ⟨nonempty, blanks⟩ := BuiltIn.classOf_of_not_border longhand.1 text isRem longhand.2
  refine ⟨nonempty, fun char member => ?_⟩
  by_contra blank
  rw [Bool.not_eq_false] at blank
  obtain ⟨⟨_, _, copied⟩, inText⟩ := (blanks char blank).mp member
  rw [admitted.unbroken_of_negative copied.negative char inText] at blank
  cases blank

end BorderAspect

/-! ### The shorthand and the longhands -/

namespace BuiltIn

/-- The class of a border lists the classes of its parts. -/
theorem best_generate_border (parts : List BorderPart) (isRem : Bool) :
    Generator.best generate
        (Declaration.text ⟨"border".toList, Text.join [' '] (parts.map BorderPart.text)⟩) isRem =
      Text.join [' '] (parts.map fun part => borderPart "border".toList part.text isRem) := by
  have listed : ("border".toList, "border".toList) ∈ Property.borderStems := by decide
  obtain ⟨plain, kind⟩ := kind_of_mem_borderStems listed
  have areParts : ∀ text ∈ parts.map BorderPart.text, IsPart text := by
    intro text member
    obtain ⟨part, _, rfl⟩ := List.mem_map.mp member
    exact part.admitted.isPart
  have unmarked : ¬ importantMark <:+ Text.join [' '] (parts.map BorderPart.text) := by
    refine Text.not_suffix_join (by decide) (by decide) fun text member => ?_
    obtain ⟨part, _, rfl⟩ := List.mem_map.mp member
    exact part.admitted.unmarked
  by_cases nothing : parts = []
  · rw [nothing]
    cases isRem <;> decide
  · have stated : Text.join [' '] (parts.map BorderPart.text) ≠ [] := by
      rw [Ne, Text.join_eq_nil_iff fun text member => (areParts text member).nonempty,
        List.map_eq_nil_iff]
      exact nothing
    rw [best_generate plain (Text.trimmed_join areParts) stated unmarked isRem]
    simp only [classOf, kind, borderClasses, Text.parts_join areParts, List.map_map]
    rfl

theorem best_generate_longhand (part : BorderPart) (isRem : Bool) :
    Generator.best generate (Declaration.text ⟨part.aspect.longhand, part.text⟩) isRem =
      classOf part.aspect.longhand part.text isRem := by
  have plain : PlainName part.aspect.longhand := by
    have each : ∀ aspect ∈ [BorderAspect.style, .width, .color], aspect.longhand ≠ [] ∧
        ':' ∉ aspect.longhand ∧ aspect.longhand.trim.lowerAscii = aspect.longhand := by
      decide
    obtain ⟨nonempty, noColon, same⟩ := each part.aspect (by cases part.aspect <;> decide)
    exact ⟨nonempty, noColon, same⟩
  exact best_generate plain part.admitted.isPart.trimmed part.admitted.isPart.nonempty
    part.admitted.unmarked isRem

/-- The shorthand gives a border the classes that the longhands give its parts, in their order,
exactly if every part agrees: a style that the longhand knows, a width without blanks whose name is
in small letters, or any color. -/
theorem best_generate_border_iff (parts : List BorderPart) (isRem : Bool) :
    Generator.best generate
        (Declaration.text ⟨"border".toList, Text.join [' '] (parts.map BorderPart.text)⟩) isRem =
      Text.join [' '] (parts.map fun part =>
        Generator.best generate (Declaration.text ⟨part.aspect.longhand, part.text⟩) isRem) ↔
    ∀ part ∈ parts, part.aspect.Agrees part.text := by
  simp only [best_generate_border, best_generate_longhand]
  rw [join_eq_join_iff, List.map_inj_left]
  · exact forall₂_congr fun part _ => part.admitted.borderPart_eq_iff isRem
  · intro name member
    obtain ⟨part, _, rfl⟩ := List.mem_map.mp member
    exact isClassName_borderPart (by decide) part.text isRem
  · intro name member
    obtain ⟨part, _, rfl⟩ := List.mem_map.mp member
    exact part.admitted.isClassName isRem

/-- A calculated width and a double border have other classes by themselves. -/
theorem best_generate_border_ne :
    Generator.best generate (Declaration.text ⟨"border".toList, "calc(1px + 2px)".toList⟩) false ≠
        Generator.best generate
          (Declaration.text ⟨"border-width".toList, "calc(1px + 2px)".toList⟩) false ∧
      Generator.best generate (Declaration.text ⟨"border".toList, "double".toList⟩) false ≠
        Generator.best generate (Declaration.text ⟨"border-style".toList, "double".toList⟩) false := by
  have balanced : Text.Balanced "1px + 2px".toList := Text.balanced_of_forall_ne (by decide)
  have calculated : BorderAspect.width.Admits "calc(1px + 2px)".toList :=
    .calculation (by decide : Text.lowerAscii "calc".toList = "calc".toList) balanced
  have double : BorderAspect.style.Admits "double".toList := .style (by decide)
  have differs (part : BorderPart) (disagrees : ¬ part.aspect.Agrees part.text) :
      Generator.best generate (Declaration.text ⟨"border".toList, part.text⟩) false ≠
        Generator.best generate (Declaration.text ⟨part.aspect.longhand, part.text⟩) false := by
    intro same
    refine disagrees ((best_generate_border_iff [part] false).mp ?_ part List.mem_cons_self)
    rw [List.map_singleton, List.map_singleton, Text.join_singleton, Text.join_singleton, same]
  refine ⟨differs ⟨.width, _, calculated⟩ fun agrees => ?_,
    differs ⟨.style, _, double⟩ (by decide : "double".toList ∉ BorderAspect.longhandStyles)⟩
  have blank : ' ' ∈ "calc(1px + 2px)".toList := by decide
  exact agrees.2.not_mem (by decide : isBlank ' ' = true) blank

end BuiltIn

end AtomicCss
