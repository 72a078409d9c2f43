/-
This file settles what happens to the unit of pixels in a value that lists lengths. A single length
becomes a number behind the stem of its property, and whatever the passes do to it, the unit is
gone when they are done. Several lengths are joined by underscores and stand in brackets, and an
underscore carries a word on: only the last unit is at the end of a word, and only that one is
stripped. So the class is free of units exactly if the value has one length.
-/

import AtomicCss.Proofs.Preparation

namespace AtomicCss

open ClassNumber

/-! ### Values that list lengths -/

/-- A length that is written as a number of pixels. -/
structure PixelLength where
  numeral : Numeral
  wellFormed : numeral.WellFormed

/-- A length with the blanks that set it apart from the one before it. -/
structure SpacedLength extends PixelLength where
  blanks : Text
  separated : blanks ≠ []
  blank : ∀ char ∈ blanks, isBlank char = true

namespace PixelLength

def text (length : PixelLength) : Text :=
  length.numeral.text ++ pixelUnit

/-- The value that lists a length and more lengths behind it. -/
def valueOf (first : PixelLength) (more : List SpacedLength) : Text :=
  first.text ++ more.flatMap fun next => next.blanks ++ next.text

theorem text_ne_nil (length : PixelLength) : length.text ≠ [] :=
  List.append_ne_nil_of_right_ne_nil _ (by decide)

theorem mem_text {length : PixelLength} {char : Char} (member : char ∈ length.text) :
    char.isDigit = true ∨ char ∈ ['.', 'p', 'x'] := by
  rcases List.mem_append.mp member with inNumeral | inUnit
  · rcases length.wellFormed.isDigit_or_eq_point inNumeral with isDigit | rfl
    · exact Or.inl isDigit
    · exact Or.inr List.mem_cons_self
  · exact Or.inr (List.mem_cons_of_mem _ inUnit)

theorem isBlank_of_mem_text {length : PixelLength} {char : Char} (member : char ∈ length.text) :
    isBlank char = false := by
  rcases mem_text member with isDigit | other
  · exact isBlank_of_isWordChar (isWordChar_of_isDigit isDigit)
  · have each : ∀ char ∈ ['.', 'p', 'x'], isBlank char = false := by decide
    exact each char other

theorem mem_valueOf {first : PixelLength} {more : List SpacedLength} {char : Char}
    (member : char ∈ valueOf first more) :
    (char.isDigit = true ∨ char ∈ ['.', 'p', 'x']) ∨ isBlank char = true := by
  rcases List.mem_append.mp member with inFirst | inMore
  · exact Or.inl (mem_text inFirst)
  · obtain ⟨next, _, inNext⟩ := List.mem_flatMap.mp inMore
    rcases List.mem_append.mp inNext with inBlanks | inText
    · exact Or.inr (next.blank char inBlanks)
    · exact Or.inl (mem_text inText)

/-- A character of another kind does not occur in the value. -/
theorem not_mem_valueOf (first : PixelLength) (more : List SpacedLength) {char : Char}
    (notDigit : char.isDigit = false) (other : char ∉ ['.', 'p', 'x'])
    (notBlank : isBlank char = false) : char ∉ valueOf first more := by
  intro member
  rcases mem_valueOf member with (isDigit | listed) | blank
  · rw [notDigit] at isDigit
    cases isDigit
  · exact other listed
  · rw [notBlank] at blank
    cases blank

theorem words_valueOf (first : PixelLength) (more : List SpacedLength) :
    (valueOf first more).words = first.text :: more.map fun next => next.text := by
  induction more generalizing first with
  | nil =>
    rw [valueOf, List.flatMap_nil, List.append_nil]
    exact Text.words_of_word first.text_ne_nil fun _ => isBlank_of_mem_text
  | cons next more inductionHypothesis =>
    have behind := inductionHypothesis next.toPixelLength
    rw [valueOf, List.flatMap_cons, List.append_assoc, Text.words_append_append first.text_ne_nil
      (fun _ => isBlank_of_mem_text) next.separated next.blank, List.map_cons]
    exact congrArg (first.text :: ·) behind

theorem parts_valueOf (first : PixelLength) (more : List SpacedLength) :
    (valueOf first more).parts = first.text :: more.map fun next => next.text := by
  rw [Text.parts_eq_words fun char member => ?_, words_valueOf]
  constructor
  · rintro rfl
    exact not_mem_valueOf first more (by decide) (by decide) (by decide) member
  · rintro rfl
    exact not_mem_valueOf first more (by decide) (by decide) (by decide) member

/-- The value starts with a digit and ends with the unit. -/
theorem trimmed_valueOf (first : PixelLength) (more : List SpacedLength) :
    (valueOf first more).Trimmed where
  head := by
    obtain ⟨digit, rest, spelt, isDigit⟩ := first.wellFormed.exists_text_eq_cons
    rw [valueOf, text, spelt]
    simp [Text.stops, isBlank_of_isWordChar (isWordChar_of_isDigit isDigit)]
  last := by
    have ends : ∃ lead, valueOf first more = lead ++ ['x'] := by
      rcases List.eq_nil_or_concat more with rfl | ⟨init, last, rfl⟩
      · exact ⟨first.numeral.text ++ ['p'], by simp [valueOf, text, pixelUnit]⟩
      · rw [List.concat_eq_append]
        refine ⟨first.text ++ (init.flatMap fun next => next.blanks ++ next.text) ++
          (last.blanks ++ last.numeral.text ++ ['p']), ?_⟩
        simp [valueOf, text, pixelUnit]
    obtain ⟨lead, spelt⟩ := ends
    rw [spelt, List.reverse_concat]
    rfl

/-! ### The class that is generated -/

theorem plainValue_valueOf (first : PixelLength) (more : List SpacedLength) :
    PlainValue (valueOf first more) where
  trimmed := trimmed_valueOf first more
  nonempty := List.append_ne_nil_of_left_ne_nil first.text_ne_nil _
  noStar := not_mem_valueOf first more (by decide) (by decide) (by decide)
  noMark := not_mem_valueOf first more (by decide) (by decide) (by decide)
  noReference := by
    intro found
    have noLetter : 'v' ∉ valueOf first more :=
      not_mem_valueOf first more (by decide) (by decide) (by decide)
    exact noLetter (found.subset (by decide))

/-- The value counts as one in pixels. -/
theorem finish_prepare {property stem : Text} (listed : (property, stem) ∈ Property.lengthStems)
    (first : PixelLength) (more : List SpacedLength) {isRem : Bool} :
    (Declaration.prepare ⟨property, valueOf first more⟩ isRem BuiltIn.generate).finish =
      normalize (BuiltIn.lengthClass stem (valueOf first more) isRem) true := by
  obtain ⟨plain, kind⟩ := BuiltIn.kind_of_mem_lengthStems listed
  have inPixels : Text.contains "px".toList (valueOf first more) = true := by
    exact Text.contains_eq_true_iff.mpr
      ⟨first.numeral.text, more.flatMap fun next => next.blanks ++ next.text, rfl⟩
  rw [Declaration.finish_prepare plain (plainValue_valueOf first more), inPixels, BuiltIn.classOf,
    kind]

/-! ### A single length -/

/-- A text that ends with a digit. -/
def EndsWithDigit (text : Text) : Prop :=
  ∃ lead digit, text = lead ++ [digit] ∧ digit.isDigit = true

theorem EndsWithDigit.append {first second : Text} (ends : EndsWithDigit second) :
    EndsWithDigit (first ++ second) := by
  obtain ⟨lead, digit, rfl, isDigit⟩ := ends
  exact ⟨first ++ lead, digit, (List.append_assoc _ _ _).symm, isDigit⟩

/-- What stands behind the last digit is what stands behind the whole number. -/
theorem EndsWithDigit.of_append {first second : Text} (ends : EndsWithDigit (first ++ second))
    (nonempty : second ≠ []) : EndsWithDigit second := by
  obtain ⟨lead, digit, spelt, isDigit⟩ := ends
  obtain ⟨more, last, rfl⟩ := (List.eq_nil_or_concat second).resolve_left nonempty
  rw [List.concat_eq_append, ← List.append_assoc] at spelt
  obtain ⟨_, rfl⟩ := List.append_singleton_inj.mp spelt
  exact ⟨more, last, List.concat_eq_append, isDigit⟩

/-- A number, and perhaps the unit behind a digit that the number ends with. -/
structure Single (number unit : Text) : Prop where
  isNumber : IsNumberText number
  units : unit = [] ∨ unit = pixelUnit ∧ EndsWithDigit number

/-- A numeral ends with a digit. -/
theorem single_pixels {numeral : Numeral} (wellFormed : numeral.WellFormed) :
    Single numeral.text pixelUnit where
  isNumber := wellFormed.isNumberText
  units := Or.inr ⟨rfl, wellFormed.exists_text_eq_concat⟩

theorem pixelUnit_eq : pixelUnit = ['p', 'x'] := rfl

theorem Single.hyphen_not_mem {number unit : Text} (single : Single number unit) :
    '-' ∉ number ++ unit := by
  intro member
  rcases List.mem_append.mp member with inNumber | inUnit
  · exact single.isNumber.not_mem (by decide) inNumber
  · rcases single.units with rfl | ⟨rfl, _⟩
    · cases inUnit
    · exact absurd inUnit (by decide)

/-- A numeral at the start of a number and its unit is part of the number. -/
theorem Single.exists_eq_append {number unit rest : Text} (single : Single number unit)
    {numeral : Numeral} (wellFormed : numeral.WellFormed)
    (spelt : number ++ unit = numeral.text ++ rest) :
    ∃ more, number = numeral.text ++ more ∧ rest = more ++ unit := by
  rcases List.append_eq_append_iff.mp spelt with ⟨spare, inside, rest_eq⟩ | ⟨more, inside, rest_eq⟩
  · cases spare with
    | nil => exact ⟨[], by simpa using inside.symm, by simpa using rest_eq.symm⟩
    | cons char spare =>
      rcases single.units with rfl | ⟨rfl, _⟩
      · cases rest_eq
      · rw [pixelUnit_eq, List.cons_append] at rest_eq
        obtain ⟨rfl, _⟩ := List.cons.inj rest_eq
        have inNumeral : 'p' ∈ numeral.text := by
          rw [inside]
          simp
        exact absurd inNumeral (wellFormed.isNumberText.not_mem (by decide))
  · exact ⟨more, inside, rest_eq⟩

/-- A stem in front of a numeral ends where the number starts, if no digit stands before. -/
theorem Single.stem_eq {lead number unit stem rest : Text} (single : Single number unit)
    (noDigit : ∀ char ∈ lead, char.isDigit = false) {scaling : Scaling}
    (isStem : stem ∈ scaling.stems) {numeral : Numeral} (wellFormed : numeral.WellFormed)
    (spelt : lead ++ (number ++ unit) = stem ++ (numeral.text ++ rest)) :
    lead = stem ∧ number ++ unit = numeral.text ++ rest := by
  obtain ⟨digit, more, starts, isDigit⟩ := wellFormed.exists_text_eq_cons
  rw [starts, List.cons_append] at spelt ⊢
  have whole : lead ++ (number ++ unit) = [] ++ stem ++ digit :: (more ++ rest) := spelt
  exact Scaling.eq_append_stem isStem isDigit noDigit single.hyphen_not_mem whole

/-- Without a hyphen there is no stem. -/
theorem sweep_scaling_of_not_mem (scaling : Scaling) {text : Text} (noHyphen : '-' ∉ text)
    (before : Option Char) : scaling.pass.sweep before text = text :=
  Scaling.sweep_eq_self (Scaling.not_stem_infix fun _ _ =>
    Text.not_pair_infix_of_first_not_mem noHyphen) before

/-- A scaling pass gives the single number another text and leaves the unit where it is. -/
theorem Single.sweep_scaling {lead number unit : Text} (single : Single number unit)
    (noDigit : ∀ char ∈ lead, char.isDigit = false) (scaling : Scaling) (before : Option Char) :
    ∃ number', Single number' unit ∧
      scaling.pass.sweep before (lead ++ (number ++ unit)) = lead ++ (number' ++ unit) := by
  rcases Matcher.silentOver_or_exists_taken scaling.pass before lead (number ++ unit) with
    silent | ⟨start, char, stem', source, replacement, rfl, silent, nonempty, taken⟩
  · refine ⟨number, single, ?_⟩
    rw [Matcher.sweep_append_of_silentOver silent,
      sweep_scaling_of_not_mem scaling single.hyphen_not_mem]
  · obtain ⟨stem, isStem, numeral, rest, scales⟩ := Scaling.exists_scales_of_taken taken
    obtain ⟨stem_eq, behind⟩ := single.stem_eq
      (fun other member => noDigit other (List.mem_append_right start member)) isStem
      scales.wellFormed scales.spelt
    obtain ⟨more, number_eq, rest_eq⟩ := single.exists_eq_append scales.wellFormed behind
    have numberMore : ∀ char ∈ more, isNumberChar char = true := fun char member =>
      single.isNumber.chars char (by rw [number_eq]; exact List.mem_append_right _ member)
    refine ⟨quadrupled numeral ++ more,
      ⟨(isNumberText_quadrupled numeral).append numberMore, ?_⟩, ?_⟩
    · refine single.units.imp id fun ⟨unit_eq, ends⟩ => ⟨unit_eq, ?_⟩
      have goesOn : more ≠ [] := by
        rintro rfl
        have stopped := scales.stopped
        rw [rest_eq, unit_eq] at stopped
        cases stopped
      rw [number_eq] at ends
      exact (ends.of_append goesOn).append
    · have spelt : char :: stem' ++ (number ++ unit) = source ++ rest := by
        rw [scales.spelt, scales.source_eq, List.append_assoc]
      have noHyphen : '-' ∉ rest := fun member =>
        single.hyphen_not_mem (by rw [behind]; exact List.mem_append_right _ member)
      rw [spelt] at silent taken
      rw [List.append_assoc, spelt, Matcher.sweep_append_of_first_taken silent nonempty taken,
        sweep_scaling_of_not_mem scaling noHyphen, scales.replacement_eq, rest_eq, stem_eq]
      simp only [List.append_assoc]

/-- A unit within the number and its unit is the unit at the end. -/
theorem Single.eq_nil_of_pixelUnit {number unit lead more rest : Text}
    (single : Single number unit) (inside : number = lead ++ more)
    (units : pixelUnit ++ rest = more ++ unit) : rest = [] := by
  cases more with
  | nil =>
    rcases single.units with rfl | ⟨rfl, _⟩
    · cases units
    · exact List.append_cancel_left (units.trans (List.append_nil _).symm)
  | cons first more =>
    obtain ⟨rfl, _⟩ := List.cons.inj units
    have noUnit := single.isNumber.not_mem (show isNumberChar 'p' = false by decide)
    exact absurd (by rw [inside]; exact List.mem_append_right _ List.mem_cons_self) noUnit

/-- The pass over paddings may take the unit along with the number. -/
theorem Single.sweep_paddingPixels {lead number unit : Text} (single : Single number unit)
    (noDigit : ∀ char ∈ lead, char.isDigit = false) (before : Option Char) :
    ∃ number' unit', Single number' unit' ∧
      paddingPixels.sweep before (lead ++ (number ++ unit)) = lead ++ (number' ++ unit') := by
  rcases Matcher.silentOver_or_exists_taken paddingPixels before lead (number ++ unit) with
    silent | ⟨start, char, stem', source, replacement, rfl, silent, nonempty, taken⟩
  · refine ⟨number, unit, single, ?_⟩
    rw [Matcher.sweep_append_of_silentOver silent]
    exact congrArg (lead ++ ·) (sweep_paddingPixels_eq_self (Scaling.not_stem_infix fun _ _ =>
      Text.not_pair_infix_of_first_not_mem single.hyphen_not_mem) _)
  · obtain ⟨stem, isStem, numeral, rest, strips⟩ := exists_strips_of_paddingPixels taken
    obtain ⟨stem_eq, behind⟩ := single.stem_eq
      (fun other member => noDigit other (List.mem_append_right start member)) isStem
      strips.wellFormed strips.spelt
    obtain ⟨more, inside, units⟩ := single.exists_eq_append strips.wellFormed behind
    obtain rfl : rest = [] := single.eq_nil_of_pixelUnit inside units
    refine ⟨_, [], ⟨isNumberText_roundedText_one numeral, Or.inl rfl⟩, ?_⟩
    have spelt : char :: stem' ++ (number ++ unit) = source ++ [] := by
      rw [strips.spelt, strips.source_eq]
      simp only [List.append_nil]
    rw [spelt] at silent taken
    rw [List.append_assoc, spelt, Matcher.sweep_append_of_first_taken silent nonempty taken,
      Matcher.sweep_nil, strips.replacement_eq, stem_eq]
    simp only [List.append_assoc, List.append_nil]

/-- A digit with the unit behind it, at the end of a word, loses the unit. -/
theorem pixels_of_digit {digit : Char} (isDigit : digit.isDigit = true) {rest : Text}
    (stopped : Text.stops isWordChar rest = true) (before : Option Char) :
    pixels before (digit :: (pixelUnit ++ rest)) = some (digit :: pixelUnit, [digit]) := by
  have wellFormed : Numeral.WellFormed ⟨[digit], none⟩ :=
    ⟨List.cons_ne_nil _ _, by simpa using isDigit, by simp, by simp⟩
  have reading : readPixels? (digit :: (pixelUnit ++ rest)) =
      some (⟨[digit], none⟩, digit :: pixelUnit) :=
    readPixels?_eq_some_iff.mpr ⟨rest, rfl, wellFormed, stopped, rfl⟩
  have notHyphen : digit ≠ '-' := by
    rintro rfl
    cases isDigit
  unfold pixels
  split
  · next spelt => exact absurd (List.cons.inj spelt).1 notHyphen
  · rw [reading]
    rfl

/-- A unit that is the only one behind a digit stands at the end of what is stripped. -/
theorem eq_append_of_append_pixelUnit {lead sign rest : Text} {numeral : Numeral}
    (wellFormed : numeral.WellFormed)
    (apart : ∀ digit, digit.isDigit = true → ¬ [digit, 'p'] <:+: lead)
    (spelt : lead ++ pixelUnit = sign ++ (numeral.text ++ (pixelUnit ++ rest))) :
    lead = sign ++ numeral.text ∧ rest = [] := by
  obtain ⟨init, digit, ends, isDigit⟩ := wellFormed.exists_text_eq_concat
  rw [← List.append_assoc] at spelt
  rcases List.append_eq_append_iff.mp spelt with ⟨spare, same, units⟩ | ⟨spare, same, units⟩
  · have shorter := congrArg List.length units
    rw [List.length_append, List.length_append] at shorter
    obtain rfl : spare = [] := List.length_eq_zero_iff.mp (by omega)
    exact ⟨by simpa using same.symm, List.length_eq_zero_iff.mp (by omega)⟩
  · cases spare with
    | nil =>
      refine ⟨by simpa using same, ?_⟩
      exact List.append_cancel_left (units.trans (List.append_nil _).symm)
    | cons first spare =>
      rw [pixelUnit_eq, List.cons_append, List.cons_append] at units
      obtain ⟨rfl, _⟩ := List.cons.inj units
      refine absurd ?_ (apart digit isDigit)
      rw [same, ends]
      exact ⟨sign ++ init, spare, by simp⟩

/-- A unit at the end of a text is stripped there if it is the only one behind a digit. -/
theorem sweep_pixels_append_pixelUnit {lead : Text}
    (apart : ∀ digit, digit.isDigit = true → ¬ [digit, 'p'] <:+: lead)
    (ends : EndsWithDigit lead) (before : Option Char) :
    pixels.sweep before (lead ++ pixelUnit) = lead := by
  rcases Matcher.silentOver_or_exists_taken pixels before lead pixelUnit with
    silent | ⟨start, char, more, source, replacement, rfl, silent, nonempty, taken⟩
  · obtain ⟨init, digit, rfl, isDigit⟩ := ends
    have atDigit := (Matcher.silentOver_append.mp silent).2.1
    exact absurd (atDigit _ _ (pixels_of_digit isDigit rfl _)) (List.cons_ne_nil _ _)
  · obtain ⟨sign, _, numeral, rest, strips⟩ := exists_strips_of_pixels taken
    obtain ⟨spelt, rfl⟩ := eq_append_of_append_pixelUnit strips.wellFormed
      (fun digit isDigit found =>
        apart digit isDigit (found.trans (List.suffix_append start _).isInfix)) strips.spelt
    have source_eq : char :: more ++ pixelUnit = source ++ [] := by
      rw [strips.spelt, strips.source_eq]
      simp only [List.append_nil]
    rw [source_eq] at silent taken
    rw [List.append_assoc, source_eq, Matcher.sweep_append_of_first_taken silent nonempty taken,
      Matcher.sweep_nil, strips.replacement_eq, spelt, List.append_nil]

/-- A number behind a lead without digits holds no unit. -/
theorem not_unit_infix_append {lead number : Text} (noDigit : ∀ char ∈ lead, char.isDigit = false)
    (isNumber : IsNumberText number) :
    ∀ digit, digit.isDigit = true → ¬ [digit, 'p'] <:+: lead ++ number := by
  intro digit isDigit
  have noUnit : 'p' ∉ number := isNumber.not_mem (by decide)
  exact Text.not_pair_infix_append_of_not_mem (Text.not_mem_of_forall noDigit isDigit)
    (Text.not_pair_infix_of_second_not_mem noUnit)

theorem Single.sweep_pixels {lead number unit : Text} (single : Single number unit)
    (noDigit : ∀ char ∈ lead, char.isDigit = false) (before : Option Char) :
    pixels.sweep before (lead ++ (number ++ unit)) = lead ++ number := by
  have apart := not_unit_infix_append noDigit single.isNumber
  rcases single.units with rfl | ⟨rfl, ends⟩
  · rw [List.append_nil]
    exact sweep_pixels_eq_self apart before
  · rw [← List.append_assoc]
    exact sweep_pixels_append_pixelUnit apart ends.append before

/-- The last two passes leave nothing but the number behind a stem. -/
theorem Single.sweep_bracketed_pixels {lead number unit : Text} (single : Single number unit)
    (plain : ∀ char ∈ lead, char.isDigit = false ∧ char ≠ '[') :
    bracketed.sweep none (pixels.sweep none (lead ++ (number ++ unit))) = lead ++ number := by
  have noBracket : '[' ∉ lead ++ number := by
    intro member
    rcases List.mem_append.mp member with inLead | inNumber
    · exact (plain '[' inLead).2 rfl
    · exact single.isNumber.not_mem (by decide) inNumber
  rw [single.sweep_pixels fun char member => (plain char member).1]
  exact sweep_bracketed_eq_self (fun _ _ => Text.not_pair_infix_of_first_not_mem noBracket) none

/-- A single number behind a stem loses its unit, whatever else the passes do to it. -/
theorem Single.normalize {lead number unit : Text} (single : Single number unit)
    (plain : ∀ char ∈ lead, char.isDigit = false ∧ char ≠ '[') :
    ∃ number', IsNumberText number' ∧
      ClassNumber.normalize (lead ++ (number ++ unit)) true = lead ++ number' := by
  have noDigit : ∀ char ∈ lead, char.isDigit = false := fun char member => (plain char member).1
  obtain ⟨first, single, onAll⟩ := single.sweep_scaling noDigit .border none
  obtain ⟨second, single, onSide⟩ := single.sweep_scaling noDigit .side none
  obtain ⟨third, unit', single', onPadding⟩ := single.sweep_paddingPixels noDigit none
  refine ⟨third, single'.isNumber, ?_⟩
  simp only [normalize_true, Matcher.replaceAll_eq_sweep]
  rw [onAll, onSide, onPadding, single'.sweep_bracketed_pixels plain]

/-- The reader of pixels gives back the number of a length. -/
theorem pixels?_text (length : PixelLength) :
    BuiltIn.pixels? length.text = some length.numeral := by
  have unit : Text.before? "px".toList length.text = some length.numeral.text :=
    Text.before?_eq_some_iff.mpr rfl
  rw [BuiltIn.pixels?, unit]
  exact Numeral.ofText?_text length.wellFormed

theorem valueOf_nil (length : PixelLength) : valueOf length [] = length.text := by
  rw [valueOf, List.flatMap_nil, List.append_nil]

/-- A single length has no sign. -/
theorem lengthClass_text (stem : Text) (length : PixelLength) (isRem : Bool) :
    BuiltIn.lengthClass stem length.text isRem =
      BuiltIn.hyphenated stem (BuiltIn.lengthBody length.text isRem) := by
  have parts := parts_valueOf length []
  rw [valueOf_nil] at parts
  have notSigned : ∀ magnitude, length.text ≠ '-' :: magnitude := by
    intro magnitude spelt
    have member : '-' ∈ length.text := by
      rw [spelt]
      exact List.mem_cons_self
    rcases mem_text member with isDigit | other
    · cases isDigit
    · exact absurd other (by decide)
  rw [BuiltIn.lengthClass, parts, if_neg (by simp)]
  exact notSigned

/-- A single length stands behind its stem with its unit, or is zero and needs none. -/
theorem exists_lengthClass_of_single (stem : Text) (first : PixelLength) :
    ∃ number unit, Single number unit ∧
      BuiltIn.lengthClass stem (valueOf first []) false = stem ++ ['-'] ++ (number ++ unit) := by
  rw [valueOf_nil, lengthClass_text, BuiltIn.lengthBody, pixels?_text]
  by_cases zero : first.numeral.value.isZero = true
  · refine ⟨['0'], [], ⟨⟨List.cons_ne_nil _ _, by decide⟩, Or.inl rfl⟩, ?_⟩
    simp only [zero, if_true, BuiltIn.hyphenated]
    simp
  · refine ⟨first.numeral.text, pixelUnit, single_pixels first.wellFormed, ?_⟩
    simp only [zero, BuiltIn.hyphenated, pixelUnit]
    simp

/-! ### Several lengths -/

/-- Pixels start with a digit, or with a hyphen and a digit. -/
theorem silentOver_pixels {lead rest : Text} (noDigit : ∀ char ∈ lead, char.isDigit = false)
    (noHyphen : lead.getLast? ≠ some '-') (before : Option Char) :
    pixels.SilentOver before lead rest := by
  induction lead generalizing before with
  | nil => trivial
  | cons char lead inductionHypothesis =>
    refine ⟨fun source replacement taken => ?_, inductionHypothesis
      (fun other member => noDigit other (List.mem_cons_of_mem char member)) ?_ (some char)⟩
    · obtain ⟨sign, signs, numeral, behind, strips⟩ := exists_strips_of_pixels taken
      obtain ⟨digit, more, starts, isDigit⟩ := strips.wellFormed.exists_text_eq_cons
      have spelt := strips.spelt
      rw [starts] at spelt
      rcases signs with rfl | rfl
      · obtain ⟨rfl, _⟩ := List.cons.inj spelt
        exact absurd List.mem_cons_self (Text.not_mem_of_forall noDigit isDigit)
      · obtain ⟨rfl, remaining⟩ :
            char = '-' ∧ lead ++ rest = digit :: more ++ (pixelUnit ++ behind) :=
          List.cons.inj spelt
        cases lead with
        | nil => exact absurd rfl noHyphen
        | cons next lead =>
          obtain ⟨rfl, _⟩ := List.cons.inj remaining
          exact absurd (by simp) (Text.not_mem_of_forall noDigit isDigit)
    · cases lead with
      | nil => simp
      | cons next lead => simpa using noHyphen

/-- A unit before an underscore is not at the end of a word. -/
theorem silentOver_pixels_item (length : PixelLength) (rest : Text) (before : Option Char) :
    pixels.SilentOver before (length.text ++ ['_']) rest := by
  rw [text, List.append_assoc]
  refine Matcher.silentOver_append.mpr ⟨?_, silentOver_pixels (by decide) (by decide) _⟩
  have isNumber := length.wellFormed.isNumberText.chars
  generalize length.numeral.text = digits at isNumber
  induction digits generalizing before with
  | nil => trivial
  | cons char digits inductionHypothesis =>
    refine ⟨fun source replacement taken => ?_, inductionHypothesis (some char)
      fun other member => isNumber other (List.mem_cons_of_mem char member)⟩
    obtain ⟨sign, signs, numeral, behind, strips⟩ := exists_strips_of_pixels taken
    have unsigned : sign = [] := by
      rcases signs with rfl | rfl
      · rfl
      · obtain ⟨rfl, _⟩ := List.cons.inj strips.spelt
        cases isNumber '-' List.mem_cons_self
    have spelt : char :: digits ++ (pixelUnit ++ '_' :: rest) =
        numeral.text ++ (pixelUnit ++ behind) := by
      have whole := strips.spelt
      rw [unsigned, List.append_assoc] at whole
      exact whole
    obtain ⟨_, same⟩ := Text.run_unique spelt isNumber rfl
      strips.wellFormed.isNumberText.chars rfl
    have stopped := strips.stopped
    rw [← List.append_cancel_left same] at stopped
    cases stopped

/-- All the lengths of a value. -/
def lengthsOf (first : PixelLength) (more : List SpacedLength) : List PixelLength :=
  first :: more.map SpacedLength.toPixelLength

/-- The lengths with their units, each with an underscore behind it. -/
def joined (lengths : List PixelLength) : Text :=
  lengths.flatMap fun length => length.text ++ ['_']

theorem lengthClass_of_several {first : PixelLength} {more : List SpacedLength}
    {init : List PixelLength} {last : PixelLength}
    (lengths : lengthsOf first more = init ++ [last]) (several : init ≠ []) (stem : Text) :
    BuiltIn.lengthClass stem (valueOf first more) false =
      stem ++ ['-', '['] ++ (joined init ++ (last.text ++ [']'])) := by
  have texts : first.text :: more.map (fun next => next.text) =
      init.map text ++ [last.text] := by
    have mapped := congrArg (List.map text) lengths
    simpa [lengthsOf, Function.comp_def] using mapped
  have parts : (valueOf first more).parts.length ≠ 1 := by
    rw [parts_valueOf, texts, List.length_append, List.length_map]
    have positive := List.length_pos_of_ne_nil several
    simp only [List.length_singleton]
    omega
  unfold BuiltIn.lengthClass
  rw [if_pos parts, BuiltIn.hyphenated, BuiltIn.inBrackets, Text.underscored,
    words_valueOf, texts, Text.join_concat, List.flatMap_map]
  simp [joined]

theorem mem_joined {lengths : List PixelLength} {char : Char} (member : char ∈ joined lengths) :
    isNumberChar char = true ∨ char ∈ ['p', 'x', '_'] := by
  obtain ⟨length, _, inLength⟩ := List.mem_flatMap.mp member
  rcases List.mem_append.mp inLength with inText | inSeparator
  · rcases List.mem_append.mp inText with inNumeral | inUnit
    · exact Or.inl (length.wellFormed.isNumberText.chars char inNumeral)
    · rcases List.mem_cons.mp inUnit with rfl | inUnit
      · exact Or.inr (by decide)
      · obtain rfl := List.mem_singleton.mp inUnit
        exact Or.inr (by decide)
  · exact Or.inr (List.mem_cons_of_mem _ (List.mem_cons_of_mem _ inSeparator))

theorem not_mem_joined (lengths : List PixelLength) {char : Char}
    (notNumber : isNumberChar char = false) (other : char ∉ ['p', 'x', '_']) :
    char ∉ joined lengths := by
  intro member
  rcases mem_joined member with isNumber | listed
  · rw [notNumber] at isNumber
    cases isNumber
  · exact other listed

theorem silentOver_pixels_joined (lengths : List PixelLength) (rest : Text)
    (before : Option Char) : pixels.SilentOver before (joined lengths) rest := by
  induction lengths generalizing before with
  | nil => trivial
  | cons length lengths inductionHypothesis =>
    exact Matcher.silentOver_append.mpr
      ⟨silentOver_pixels_item length _ before, inductionHypothesis _⟩

/-- Of the lengths in brackets only the last one loses its unit. -/
theorem sweep_pixels_joined {lead : Text} (noDigit : ∀ char ∈ lead, char.isDigit = false)
    (noHyphen : lead.getLast? ≠ some '-') (init : List PixelLength) (last : PixelLength) :
    pixels.sweep none (lead ++ (joined init ++ (last.text ++ [']']))) =
      lead ++ (joined init ++ (last.numeral.text ++ [']'])) := by
  have taken (before : Option Char) :
      pixels before (last.text ++ [']']) = some (last.text, last.numeral.text) := by
    have reading : readPixels? (last.text ++ [']']) = some (last.numeral, last.text) :=
      readPixels?_eq_some_iff.mpr
        ⟨[']'], List.append_assoc _ _ _, last.wellFormed, rfl, rfl⟩
    obtain ⟨digit, more, starts, isDigit⟩ := last.wellFormed.exists_text_eq_cons
    unfold pixels
    split
    · next spelt =>
      rw [text, starts] at spelt
      obtain ⟨rfl, _⟩ := List.cons.inj spelt
      cases isDigit
    · rw [reading]
      rfl
  have closing (before : Option Char) : pixels.sweep before [']'] = [']'] :=
    sweep_pixels_eq_self (fun _ _ =>
      Text.not_pair_infix_of_second_not_mem (by decide)) before
  rw [Matcher.sweep_append_of_silentOver (silentOver_pixels noDigit noHyphen none),
    Matcher.sweep_append_of_silentOver (silentOver_pixels_joined init _ _),
    Matcher.sweep_append_of_taken last.text_ne_nil (taken _), closing]

/-- Brackets around more than a number stay. -/
theorem sweep_bracketed_joined {lead : Text} (noBracket : '[' ∉ lead) {init : List PixelLength}
    (several : init ≠ []) (last : PixelLength) :
    bracketed.sweep none (lead ++ '[' :: (joined init ++ (last.numeral.text ++ [']']))) =
      lead ++ '[' :: (joined init ++ (last.numeral.text ++ [']'])) := by
  have noMore : '[' ∉ joined init ++ (last.numeral.text ++ [']']) := by
    intro member
    rcases List.mem_append.mp member with inInit | inRest
    · exact not_mem_joined init (by decide) (by decide) inInit
    · rcases List.mem_append.mp inRest with inNumeral | closing
      · exact last.wellFormed.isNumberText.not_mem (by decide) inNumeral
      · exact absurd closing (by decide)
  obtain ⟨first, others, rfl⟩ := List.exists_cons_of_ne_nil several
  refine Matcher.sweep_eq_self_of_silent (fun before char rest suffix => ?_) none
  intro source replacement taken
  obtain ⟨numeral, behind, wellFormed, spelt, _, _⟩ := bracketed_eq_some_iff.mp taken
  obtain ⟨spare, whole⟩ := suffix
  rw [spelt] at whole
  obtain ⟨_, _, inside⟩ :=
    (List.append_cons_inj_of_notMem noBracket noMore).mp whole.symm
  have starts : first.numeral.text ++
      (pixelUnit ++ (['_'] ++ joined others ++ (last.numeral.text ++ [']']))) =
        numeral.text ++ ']' :: behind := by
    rw [← inside]
    simp [joined, text]
  obtain ⟨_, differ⟩ := Text.run_unique starts first.wellFormed.isNumberText.chars rfl
    wellFormed.isNumberText.chars rfl
  cases differ

theorem plain_append_hyphen {stem : Text}
    (plain : ∀ char ∈ stem, char.isDigit = false ∧ char ≠ '[') :
    ∀ char ∈ stem ++ ['-'], char.isDigit = false ∧ char ≠ '[' := by
  have hyphen : ∀ char ∈ ['-'], char.isDigit = false ∧ char ≠ '[' := by decide
  exact List.forall_mem_append.mpr ⟨plain, hyphen⟩

/-- What is between the brackets of several lengths when all passes are done. -/
theorem normalize_several {stem : Text}
    (plain : ∀ char ∈ stem, char.isDigit = false ∧ char ≠ '[') {init : List PixelLength}
    (several : init ≠ []) (last : PixelLength) :
    normalize (stem ++ ['-', '['] ++ (joined init ++ (last.text ++ [']']))) true =
      stem ++ ['-', '['] ++ (joined init ++ (last.numeral.text ++ [']'])) := by
  have noDigit : ∀ char ∈ stem ++ ['-', '['], char.isDigit = false :=
    noDigit_append_bracket fun char member => (plain char member).1
  have ends : (stem ++ ['-', '[']).getLast? = some '[' := by simp
  have noStem (scaling : Scaling) : ∀ stem' ∈ scaling.stems, ∀ digit, digit.isDigit = true →
      ¬ stem' ++ [digit] <:+: stem ++ ['-', '['] ++ (joined init ++ (last.text ++ [']'])) := by
    refine Scaling.not_stem_infix fun digit isDigit => ?_
    refine Text.not_pair_infix_append
      (Text.not_pair_infix_of_second_not_mem (Text.not_mem_of_forall noDigit isDigit))
      (Text.not_pair_infix_of_first_not_mem fun member => ?_) (by simp [ends])
    rcases List.mem_append.mp member with inInit | inRest
    · exact not_mem_joined init (by decide) (by decide) inInit
    · rcases List.mem_append.mp inRest with inLast | closing
      · rcases mem_text inLast with isDigit' | other
        · cases isDigit'
        · exact absurd other (by decide)
      · exact absurd closing (by decide)
  have noBracket : '[' ∉ stem ++ ['-'] := fun member =>
    (plain_append_hyphen plain '[' member).2 rfl
  have bracketed_eq := sweep_bracketed_joined noBracket several last
  rw [List.append_cons, List.append_cons] at bracketed_eq
  simp only [normalize_true, Matcher.replaceAll_eq_sweep]
  rw [Scaling.sweep_eq_self (noStem .border), Scaling.sweep_eq_self (noStem .side),
    sweep_paddingPixels_eq_self (noStem .padding),
    sweep_pixels_joined noDigit (by rw [ends]; decide) init last]
  simpa using bracketed_eq

/-! ### Units that are left -/

/-- Some number of the text has the unit of pixels right behind it. -/
def HasPixelNumber (text : Text) : Prop :=
  ∃ lead digit rest, digit.isDigit = true ∧ text = lead ++ digit :: (pixelUnit ++ rest)

/-- The stems of lengths have neither digits nor brackets. -/
theorem plain_of_mem_lengthStems {row : Text × Text} (listed : row ∈ Property.lengthStems) :
    ∀ char ∈ row.2, char.isDigit = false ∧ char ≠ '[' := by
  have each : ∀ row ∈ Property.lengthStems, ∀ char ∈ row.2, char.isDigit = false ∧ char ≠ '[' := by
    decide +kernel
  exact each row listed

section Finish

variable {property stem : Text} (listed : (property, stem) ∈ Property.lengthStems)
  (first : PixelLength) (more : List SpacedLength)

include listed in
/-- The class of a single length is its stem and a number. -/
theorem exists_finish_of_single :
    ∃ number, IsNumberText number ∧
      (Declaration.prepare ⟨property, valueOf first []⟩ false BuiltIn.generate).finish =
        stem ++ ['-'] ++ number := by
  obtain ⟨number, unit, single, class_eq⟩ := exists_lengthClass_of_single stem first
  have plain := plain_append_hyphen (plain_of_mem_lengthStems listed)
  obtain ⟨number', isNumber, normal⟩ := single.normalize plain
  exact ⟨number', isNumber, by rw [finish_prepare listed, class_eq, normal]⟩

include listed in
/-- In the class of several lengths all but the last one keep their units. -/
theorem finish_of_several {init : List PixelLength} {last : PixelLength}
    (lengths : lengthsOf first more = init ++ [last]) (several : init ≠ []) :
    (Declaration.prepare ⟨property, valueOf first more⟩ false BuiltIn.generate).finish =
      stem ++ ['-', '['] ++ (joined init ++ (last.numeral.text ++ [']'])) := by
  rw [finish_prepare listed, lengthClass_of_several lengths several,
    normalize_several (plain_of_mem_lengthStems listed) several last]

include listed in
/-- The class of a list of lengths is free of units exactly if there is one length. -/
theorem not_hasPixelNumber_finish_iff :
    ¬ HasPixelNumber
        (Declaration.prepare ⟨property, valueOf first more⟩ false BuiltIn.generate).finish ↔
      more = [] := by
  constructor
  · intro free
    by_contra several
    obtain ⟨next, others, rfl⟩ := List.exists_cons_of_ne_nil several
    obtain ⟨init, last, rest⟩ :=
      (List.eq_nil_or_concat (lengthsOf next.toPixelLength others)).resolve_left
        (List.cons_ne_nil _ _)
    rw [List.concat_eq_append] at rest
    have lengths : lengthsOf first (next :: others) = first :: init ++ [last] :=
      congrArg (first :: ·) rest
    obtain ⟨digits, digit, spelt, isDigit⟩ := first.wellFormed.exists_text_eq_concat
    refine free ⟨stem ++ ['-', '['] ++ digits, digit,
      '_' :: (joined init ++ (last.numeral.text ++ [']'])), isDigit, ?_⟩
    rw [finish_of_several listed first (next :: others) lengths (List.cons_ne_nil _ _)]
    simp [joined, text, spelt]
  · rintro rfl ⟨lead, digit, rest, isDigit, spelt⟩
    obtain ⟨number, isNumber, class_eq⟩ := exists_finish_of_single listed first
    have pair : [digit, 'p'] <:+: stem ++ ['-'] ++ number := by
      rw [← class_eq, spelt]
      exact ⟨lead, 'x' :: rest, by simp [pixelUnit_eq]⟩
    have noDigit : ∀ char ∈ stem ++ ['-'], char.isDigit = false := fun char member =>
      (plain_append_hyphen (plain_of_mem_lengthStems listed) char member).1
    exact not_unit_infix_append noDigit isNumber digit isDigit pair

/-- A padding of eight pixels and one of sixteen: the first one keeps its unit. -/
theorem hasPixelNumber_finish_padding :
    ("padding".toList, "p".toList) ∈ Property.lengthStems ∧
      (¬ HasPixelNumber (Declaration.prepare ⟨"padding".toList, "8px 16px".toList⟩ false
        BuiltIn.generate).finish ↔ False) := by
  have eight : Numeral.WellFormed ⟨['8'], none⟩ := ⟨by decide, by decide, by simp, by simp⟩
  have sixteen : Numeral.WellFormed ⟨['1', '6'], none⟩ := ⟨by decide, by decide, by simp, by simp⟩
  have listed : ("padding".toList, "p".toList) ∈ Property.lengthStems := by decide
  have several := not_hasPixelNumber_finish_iff listed ⟨⟨['8'], none⟩, eight⟩
    [⟨⟨⟨['1', '6'], none⟩, sixteen⟩, [' '], by decide, by decide⟩]
  exact ⟨listed, several.trans (by simp)⟩

end Finish

end PixelLength

end AtomicCss
