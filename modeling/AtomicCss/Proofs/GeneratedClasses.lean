/-
This file says which blanks the generator leaves in a class. A blank ends a class in a list of
classes, so every way of putting a value behind a stem gets rid of the blanks in it: words are
joined by underscores, colors are squeezed, and what is read as a number or a keyword has none. A
border has one class for each part of its value, and the spaces between them are meant.

One way is different. Where a negative length is given to a property whose class no minus sign may
precede, the value is copied into the brackets as it is, and a blank inside its parentheses goes
with it. These are the only blanks that reach a class.
-/

import AtomicCss.Proofs.Preparation

namespace AtomicCss

/-! ### Texts without blanks -/

namespace Text

/-- A text without blanks. -/
def Unbroken (text : Text) : Prop :=
  ∀ char ∈ text, isBlank char = false

instance (text : Text) : Decidable text.Unbroken :=
  inferInstanceAs (Decidable (∀ char ∈ text, isBlank char = false))

@[simp] theorem unbroken_nil : Unbroken [] :=
  List.forall_mem_nil _

@[simp] theorem unbroken_cons {char : Char} {text : Text} :
    Unbroken (char :: text) ↔ isBlank char = false ∧ Unbroken text :=
  List.forall_mem_cons

@[simp] theorem unbroken_append {first second : Text} :
    Unbroken (first ++ second) ↔ Unbroken first ∧ Unbroken second :=
  List.forall_mem_append

theorem Unbroken.not_mem {text : Text} (unbroken : Unbroken text) {char : Char}
    (blank : isBlank char = true) : char ∉ text :=
  not_mem_of_forall unbroken blank

theorem unbroken_of_isWordChar {text : Text} (isWord : ∀ char ∈ text, isWordChar char = true) :
    Unbroken text :=
  fun char member => isBlank_of_isWordChar (isWord char member)

/-- The visible characters of ASCII. -/
def isVisible (char : Char) : Bool :=
  Nat.blt 0x20 char.toNat && Nat.blt char.toNat 0x7F

theorem unbroken_of_isVisible {text : Text} (visible : text.all isVisible = true) :
    Unbroken text := by
  intro char member
  have inRange := List.all_eq_true.mp visible char member
  rw [isVisible, Bool.and_eq_true, Nat.blt_eq, Nat.blt_eq] at inRange
  exact isBlank_eq_false inRange.1 inRange.2

theorem unbroken_compact (text : Text) : Unbroken text.compact := by
  intro char member
  simpa using (List.mem_filter.mp member).2

theorem isBlank_toLower {char : Char} (notBlank : isBlank char = false) :
    isBlank char.toLower = false := by
  unfold Char.toLower
  split
  · next capital =>
    refine isBlank_eq_false ?_ ?_ <;>
    · simp only [ge_iff_le, UInt32.le_iff_toNat_le, Char.toNat, UInt32.toNat_add] at capital ⊢
      simp at capital ⊢
      omega
  · exact notBlank

theorem unbroken_lowerAscii {text : Text} (unbroken : Unbroken text) :
    Unbroken text.lowerAscii := by
  intro char member
  obtain ⟨capital, inText, rfl⟩ := List.mem_map.mp member
  exact isBlank_toLower (unbroken capital inText)

/-! ### Words and parts -/

theorem unbroken_underscored (text : Text) : Unbroken text.underscored := by
  intro char member
  rcases mem_join member with isUnderscore | ⟨word, isWord, inWord⟩
  · rw [List.mem_singleton.mp isUnderscore]
    decide
  · exact refused_of_mem_splitOnP (List.mem_of_mem_filter isWord) char inWord

theorem parts_ne_nil {text : Text} (nonempty : text ≠ []) (head : stops isBlank text = true) :
    text.parts ≠ [] := by
  obtain ⟨char, rest, rfl⟩ := List.exists_cons_of_ne_nil nonempty
  have notBlank : isBlank char = false := by simpa [stops] using head
  rw [parts, Parts.stretches, Parts.separates, notBlank, Bool.false_and]
  cases Parts.stretches (depthAfter 0 char) rest <;> simp

end Text

/-! ### Class names -/

/-- A text that can stand as one class in a list of classes. -/
structure IsClassName (text : Text) : Prop where
  nonempty : text ≠ []
  unbroken : text.Unbroken

namespace BuiltIn

theorem unbroken_hyphenated {stem body : Text} :
    (hyphenated stem body).Unbroken ↔ stem.Unbroken ∧ body.Unbroken := by
  have hyphen : isBlank '-' = false := by decide
  rw [hyphenated, Text.unbroken_append, Text.unbroken_cons, and_iff_right hyphen]

theorem unbroken_inBrackets {body : Text} : (inBrackets body).Unbroken ↔ body.Unbroken := by
  have opening : isBlank '[' = false := by decide
  have closing : isBlank ']' = false := by decide
  simp [inBrackets, opening, closing]

theorem hyphenated_ne_nil (stem body : Text) : hyphenated stem body ≠ [] :=
  List.append_ne_nil_of_right_ne_nil stem (List.cons_ne_nil _ _)

/-! ### Numbers -/

theorem unbroken_of_isNumberText {text : Text} (isNumber : IsNumberText text) : text.Unbroken := by
  intro char member
  have isNumberChar := isNumber.chars char member
  rw [AtomicCss.isNumberChar, Bool.or_eq_true] at isNumberChar
  rcases isNumberChar with isDigit | listed
  · exact isBlank_of_isWordChar (isWordChar_of_isDigit isDigit)
  · have each : ∀ char ∈ ".infNa".toList, isBlank char = false := by decide
    exact each char (by simpa using listed)

end BuiltIn

namespace Numeral

theorem eq_append_of_readLoose? {text rest : Text} {numeral : Numeral}
    (found : readLoose? text = some (numeral, rest)) :
    text = numeral.text ++ rest ∧ numeral.text.Unbroken := by
  unfold readLoose? at found
  split at found
  · next result reading =>
    obtain rfl : result = (numeral, rest) := Option.some.inj found
    obtain ⟨spelt, wellFormed, _⟩ := read?_eq_some_iff.mp reading
    exact ⟨spelt, BuiltIn.unbroken_of_isNumberText wellFormed.isNumberText⟩
  · obtain ⟨⟨digits, behind⟩, reading, equal⟩ := Option.map_eq_some_iff.mp found
    obtain ⟨rfl, rfl⟩ : ⟨[], some digits⟩ = numeral ∧ behind = rest := by simpa using equal
    obtain ⟨spelt, _, isDigit, _⟩ := readFraction?_eq_some_iff.mp reading
    have point : isBlank '.' = false := by decide
    refine ⟨spelt, Text.unbroken_cons.mpr ⟨point, ?_⟩⟩
    exact Text.unbroken_of_isWordChar fun char member => isWordChar_of_isDigit (isDigit char member)

theorem eq_text_of_ofText? {text : Text} {numeral : Numeral} (found : ofText? text = some numeral) :
    text = numeral.text ∧ numeral.text.Unbroken := by
  unfold ofText? at found
  split at found
  · next read reading =>
    obtain rfl : read = numeral := Option.some.inj found
    simpa using eq_append_of_readLoose? reading
  · cases found

end Numeral

namespace BuiltIn

theorem unbroken_of_ofText? {value : Text} (isNumeral : (Numeral.ofText? value).isSome) :
    value.Unbroken := by
  obtain ⟨numeral, found⟩ := Option.isSome_iff_exists.mp isNumeral
  obtain ⟨spelt, unbroken⟩ := Numeral.eq_text_of_ofText? found
  rwa [spelt]

theorem unbroken_of_dimension? {value : Text} (isDimension : (dimension? value).isSome) :
    value.Unbroken := by
  unfold dimension? at isDimension
  split at isDimension
  · cases isDimension
  · next numeral rest _ reading =>
    obtain ⟨spelt, unbroken⟩ := Numeral.eq_append_of_readLoose? reading
    split at isDimension
    · next isUnit =>
      rw [spelt, Text.unbroken_append]
      refine ⟨unbroken, ?_⟩
      rcases isUnit with rfl | isAlpha
      · decide
      · refine Text.unbroken_of_isWordChar fun char member => isWordChar_of_isAlpha ?_
        exact List.all_eq_true.mp isAlpha char member
    · cases isDimension
  · cases isDimension

theorem unbroken_of_isLength {value : Text} (length : isLength value = true) : value.Unbroken := by
  have number : (unsigned value).Unbroken := by
    rw [isLength, Bool.or_eq_true] at length
    exact length.elim unbroken_of_ofText? unbroken_of_dimension?
  unfold unsigned at number
  split at number
  · exact Text.unbroken_cons.mpr ⟨by decide, number⟩
  · exact number

/-! ### Lengths -/

theorem unbroken_lengthBody (value : Text) (isRem : Bool) : (lengthBody value isRem).Unbroken := by
  unfold lengthBody
  split
  · next numeral found =>
    have inPixels : numeral.text.Unbroken := by
      obtain ⟨_, _, reading⟩ := Option.bind_eq_some_iff.mp found
      exact (Numeral.eq_text_of_ofText? reading).2
    split
    · decide
    · split
      · exact unbroken_of_isNumberText
          ((ClassNumber.unsigned_value numeral).div
            (Binary64.unsigned_ofNat 4)).isNumberText_roundedText
      · exact Text.unbroken_append.mpr ⟨inPixels, by decide⟩
  · split
    · next isNumeral => exact unbroken_of_ofText? isNumeral
    · split
      · decide
      · exact unbroken_inBrackets.mpr (Text.unbroken_underscored value)

/-- A sign may stand in front of the class of a negative length. -/
theorem exists_negativeLength_eq (stem magnitude : Text) (isRem : Bool) :
    ∃ sign, (sign = [] ∨ sign = ['-']) ∧
      negativeLength stem magnitude isRem =
        sign ++ hyphenated stem (lengthBody magnitude isRem) := by
  by_cases zero : lengthBody magnitude isRem = ['0']
  · exact ⟨[], Or.inl rfl, if_pos zero⟩
  · exact ⟨['-'], Or.inr rfl, if_neg zero⟩

/-- A value that is copied into the brackets behind the stem, blanks and all. -/
structure CopiedBehind (stem value : Text) : Prop where
  single : value.parts.length = 1
  negative : value.head? = some '-'
  refused : stem ∉ Property.negatableStems

/-- The blanks in the class of a length are those of a value that is copied. -/
theorem mem_lengthClass_iff {stem : Text} (unbroken : stem.Unbroken) (value : Text) (isRem : Bool)
    {char : Char} (blank : isBlank char = true) :
    char ∈ lengthClass stem value isRem ↔ CopiedBehind stem value ∧ char ∈ value := by
  have absent {name : Text} (unbroken : name.Unbroken) (kept : ¬ CopiedBehind stem value) :
      char ∈ name ↔ CopiedBehind stem value ∧ char ∈ value :=
    iff_of_false (unbroken.not_mem blank) fun ⟨copied, _⟩ => kept copied
  unfold lengthClass
  split
  · next several =>
    refine absent (unbroken_hyphenated.mpr ⟨unbroken, ?_⟩) fun copied => several copied.single
    exact unbroken_inBrackets.mpr (Text.unbroken_underscored value)
  · next single =>
    split
    · next magnitude =>
      split
      · next negatable =>
        refine absent ?_ fun copied => copied.refused (List.contains_iff_mem.mp negatable)
        obtain ⟨sign, isSign, spelt⟩ := exists_negativeLength_eq stem magnitude isRem
        rw [spelt, Text.unbroken_append]
        refine ⟨?_, unbroken_hyphenated.mpr ⟨unbroken, unbroken_lengthBody magnitude isRem⟩⟩
        rcases isSign with rfl | rfl <;> decide
      · next refused =>
        have copied : CopiedBehind stem ('-' :: magnitude) :=
          ⟨not_not.mp single, rfl, fun member => refused (List.contains_iff_mem.mpr member)⟩
        have others : char ≠ '-' ∧ char ≠ '[' ∧ char ≠ ']' := by
          refine ⟨?_, ?_, ?_⟩ <;> (rintro rfl; cases blank)
        rw [and_iff_right copied, hyphenated, List.mem_append, or_iff_right (unbroken.not_mem blank)]
        simp [inBrackets, others]
    · next positive =>
      refine absent (unbroken_hyphenated.mpr ⟨unbroken, unbroken_lengthBody value isRem⟩) ?_
      intro copied
      obtain ⟨rest, spelt⟩ := List.head?_eq_some_iff.mp copied.negative
      exact positive rest spelt

theorem lengthClass_ne_nil (stem value : Text) (isRem : Bool) : lengthClass stem value isRem ≠ [] := by
  unfold lengthClass
  split
  · exact hyphenated_ne_nil _ _
  · split
    · split
      · obtain ⟨sign, _, spelt⟩ := exists_negativeLength_eq stem _ isRem
        rw [spelt]
        exact List.append_ne_nil_of_right_ne_nil sign (hyphenated_ne_nil _ _)
      · exact hyphenated_ne_nil _ _
    · exact hyphenated_ne_nil _ _

/-! ### Colors and borders -/

theorem mem_of_lookup_eq_some {Entry : Type} {table : List (Text × Entry)} {key : Text}
    {entry : Entry} (found : table.lookup key = some entry) : (key, entry) ∈ table := by
  obtain ⟨before, behind, rfl, _⟩ := List.lookup_eq_some_iff.mp found
  simp

theorem isClassName_colorClass {stem : Text} (unbroken : stem.Unbroken) (value : Text) :
    IsClassName (colorClass stem value) := by
  unfold colorClass
  split
  · next keyword found =>
    have each : ∀ row ∈ Property.colorKeywords, row.2.all Text.isVisible = true := by
      decide +kernel
    have visible := each _ (mem_of_lookup_eq_some found)
    exact ⟨hyphenated_ne_nil _ _,
      unbroken_hyphenated.mpr ⟨unbroken, Text.unbroken_of_isVisible visible⟩⟩
  · refine ⟨hyphenated_ne_nil _ _, unbroken_hyphenated.mpr ⟨unbroken, ?_⟩⟩
    exact unbroken_inBrackets.mpr (Text.unbroken_compact value)

/-- Whatever a part of a border's value is, one class is made of it. -/
theorem isClassName_borderPart {stem : Text} (unbroken : stem.Unbroken) (part : Text)
    (isRem : Bool) : IsClassName (borderPart stem part isRem) := by
  have visible : ∀ keyword ∈ Property.borderStyles ++ Property.borderWidths,
      keyword.all Text.isVisible = true := by decide +kernel
  have keywords {keyword : Text} (listed : keyword ∈ Property.borderStyles ++ Property.borderWidths) :
      keyword.Unbroken := Text.unbroken_of_isVisible (visible keyword listed)
  simp only [borderPart]
  split
  · next style =>
    have listed := List.mem_append_left Property.borderWidths (List.contains_iff_mem.mp style)
    exact ⟨hyphenated_ne_nil _ _, unbroken_hyphenated.mpr ⟨unbroken, keywords listed⟩⟩
  · split
    · next width =>
      have listed := List.mem_append_right Property.borderStyles (List.contains_iff_mem.mp width)
      refine ⟨hyphenated_ne_nil _ _, unbroken_hyphenated.mpr ⟨unbroken, ?_⟩⟩
      exact unbroken_inBrackets.mpr (keywords listed)
    · split
      · next isLength =>
        refine ⟨lengthClass_ne_nil _ _ _, fun char member => ?_⟩
        by_contra blank
        have inPart := ((mem_lengthClass_iff unbroken part isRem (by simpa using blank)).mp member).2
        exact blank (unbroken_of_isLength isLength char inPart)
      · exact isClassName_colorClass unbroken part

/-- A border has one class for each part of its value. -/
theorem exists_join_eq_borderClasses {stem : Text} (unbroken : stem.Unbroken) (value : Text)
    (isRem : Bool) :
    ∃ names : List Text, names.length = value.parts.length ∧ (∀ name ∈ names, IsClassName name) ∧
      borderClasses stem value isRem = Text.join [' '] names := by
  refine ⟨value.parts.map fun part => borderPart stem part isRem, List.length_map _, ?_, rfl⟩
  intro name listed
  obtain ⟨part, _, rfl⟩ := List.mem_map.mp listed
  exact isClassName_borderPart unbroken part isRem

/-! ### Single properties -/

theorem isClassName_arbitrary {property : Text} (unbroken : property.Unbroken) (value : Text) :
    IsClassName (arbitrary property value) := by
  refine ⟨List.cons_ne_nil _ _, unbroken_inBrackets.mpr ?_⟩
  exact Text.unbroken_append.mpr
    ⟨unbroken, Text.unbroken_cons.mpr ⟨by decide, Text.unbroken_underscored value⟩⟩

/-- A value with its words joined, in brackets behind a stem. -/
theorem isClassName_inBrackets {stem : Text} (unbroken : stem.Unbroken) (value : Text) :
    IsClassName (hyphenated stem (inBrackets value.underscored)) :=
  ⟨hyphenated_ne_nil _ _, unbroken_hyphenated.mpr
    ⟨unbroken, unbroken_inBrackets.mpr (Text.unbroken_underscored value)⟩⟩

theorem isClassName_opacityClass (value : Text) : IsClassName (opacityClass value) := by
  simp only [opacityClass]
  split
  · next numeral _ =>
    split
    · refine ⟨hyphenated_ne_nil _ _, unbroken_hyphenated.mpr ⟨by decide, ?_⟩⟩
      exact unbroken_of_isNumberText ((ClassNumber.unsigned_value numeral).mul
        (Binary64.unsigned_ofNat 100)).isNumberText_roundedText
    · exact isClassName_inBrackets (by decide) value
  · exact isClassName_inBrackets (by decide) value

theorem isClassName_layerClass (value : Text) : IsClassName (layerClass value) := by
  unfold layerClass
  split
  · exact ⟨by decide, by decide⟩
  · split
    · next whole =>
      have digits : (unsigned value).Unbroken := by
        rw [isWhole, Bool.and_eq_true] at whole
        refine Text.unbroken_of_isWordChar fun char member => isWordChar_of_isDigit ?_
        exact List.all_eq_true.mp whole.2 char member
      split
      · next magnitude =>
        exact ⟨by simp, Text.unbroken_append.mpr ⟨by decide, digits⟩⟩
      · next positive =>
        have same : unsigned value = value := by
          unfold unsigned
          split
          · exact absurd rfl (positive _)
          · rfl
        rw [same] at digits
        exact ⟨by simp, Text.unbroken_append.mpr ⟨by decide, digits⟩⟩
    · exact isClassName_arbitrary (by decide) value

theorem isClassName_fontWeightClass (value : Text) : IsClassName (fontWeightClass value) := by
  unfold fontWeightClass
  split
  · next plain =>
    refine ⟨hyphenated_ne_nil _ _, unbroken_hyphenated.mpr ⟨by decide, ?_⟩⟩
    refine Text.unbroken_lowerAscii (Text.unbroken_of_isWordChar fun char member => ?_)
    rw [isWordChar, List.all_eq_true.mp plain char member, Bool.true_or]
  · exact isClassName_arbitrary (by decide) value

theorem isClassName_flexClass (value : Text) : IsClassName (flexClass value) := by
  simp only [flexClass]
  split
  · next keyword =>
    have each : ∀ keyword ∈ flexKeywords, keyword.Unbroken := by decide
    exact ⟨hyphenated_ne_nil _ _, unbroken_hyphenated.mpr
      ⟨by decide, each value (List.contains_iff_mem.mp keyword)⟩⟩
  · exact isClassName_inBrackets (by decide) value

theorem isClassName_flexFactorClass {stem : Text} (isName : IsClassName stem) (value : Text) :
    IsClassName (flexFactorClass stem value) := by
  unfold flexFactorClass
  split
  · exact isName
  · split
    · next zero =>
      rw [zero]
      exact ⟨hyphenated_ne_nil _ _, unbroken_hyphenated.mpr ⟨isName.unbroken, by decide⟩⟩
    · exact isClassName_inBrackets isName.unbroken value

/-! ### Properties -/

/-- The properties that take the width, the style and the color of a border at once. -/
def borderShorthands : List Text :=
  Property.borderStems.map Prod.fst

theorem exists_kind_of_mem_borderShorthands {property : Text}
    (isBorder : property ∈ borderShorthands) :
    ∃ stem : Text, stem.Unbroken ∧ Property.kind property = .border stem := by
  have each : ∀ row ∈ Property.borderStems, row.2.all Text.isVisible = true := by decide +kernel
  obtain ⟨row, listed, rfl⟩ := List.mem_map.mp isBorder
  exact ⟨row.2, Text.unbroken_of_isVisible (each row listed), (kind_of_mem_borderStems listed).2⟩

/-- A value that is copied for a property that takes a length. -/
def Copied (property value : Text) : Prop :=
  ∃ stem, (property, stem) ∈ Property.lengthStems ∧ CopiedBehind stem value

theorem copied_iff_of_kind_eq_length {property stem : Text} (value : Text)
    (kind : Property.kind property = .length stem) (listed : (property, stem) ∈ Property.lengthStems) :
    Copied property value ↔ CopiedBehind stem value := by
  refine ⟨fun ⟨other, listed, copied⟩ => ?_, fun copied => ⟨stem, listed, copied⟩⟩
  have same := (kind_of_mem_lengthStems listed).2
  rw [kind] at same
  rwa [Property.Kind.length.inj same]

/-- What the tables give for a property: the table of its keywords or the stem of its classes. -/
inductive Listed (property : Text) : Property.Kind → Prop where
  | keyword {classes : List (Text × Text)} (listed : (property, classes) ∈ Property.keywordClasses) :
    Listed property (.keyword classes)
  | border {stem : Text} (listed : (property, stem) ∈ Property.borderStems) :
    Listed property (.border stem)
  | length {stem : Text} (listed : (property, stem) ∈ Property.lengthStems) :
    Listed property (.length stem)
  | color {stem : Text} (listed : (property, stem) ∈ Property.colorStems) :
    Listed property (.color stem)
  | single : Listed property (Property.singleKind property)

theorem listed_kind (property : Text) : Listed property (Property.kind property) := by
  unfold Property.kind
  split
  · next found => exact .keyword (mem_of_lookup_eq_some found)
  · split
    · next found => exact .border (mem_of_lookup_eq_some found)
    · split
      · next found => exact .length (mem_of_lookup_eq_some found)
      · split
        · next found => exact .color (mem_of_lookup_eq_some found)
        · exact .single

section Classes

variable {property : Text} (unbroken : property.Unbroken) (value : Text) (isRem : Bool)

include unbroken in
/-- Only borders and lengths have classes that may hold blanks. -/
theorem isClassName_classOf (notBorder : property ∉ borderShorthands)
    (notLength : ∀ stem, Property.kind property ≠ .length stem) :
    IsClassName (classOf property value isRem) := by
  have keywords : ∀ row ∈ Property.keywordClasses, ∀ entry ∈ row.2,
      entry.2 ≠ [] ∧ entry.2.all Text.isVisible = true := by decide +kernel
  have colors : ∀ row ∈ Property.colorStems, row.2.all Text.isVisible = true := by
    decide +kernel
  have listed := listed_kind property
  unfold classOf
  generalize Property.kind property = kind at listed notLength ⊢
  cases listed with
  | @keyword classes listed =>
    show IsClassName ((classes.lookup value.lowerAscii).getD (arbitrary property value))
    cases found : classes.lookup value.lowerAscii with
    | none => exact isClassName_arbitrary unbroken value
    | some name =>
      have ⟨nonempty, visible⟩ := keywords _ listed _ (mem_of_lookup_eq_some found)
      exact ⟨nonempty, Text.unbroken_of_isVisible visible⟩
  | border listed => exact absurd (List.mem_map_of_mem listed) notBorder
  | @length stem listed => exact absurd rfl (notLength stem)
  | color listed => exact isClassName_colorClass (Text.unbroken_of_isVisible (colors _ listed)) value
  | single =>
    unfold Property.singleKind
    split_ifs
    · exact isClassName_opacityClass value
    · exact isClassName_layerClass value
    · exact isClassName_fontWeightClass value
    · exact isClassName_flexClass value
    · exact isClassName_flexFactorClass ⟨by decide, by decide⟩ value
    · exact isClassName_flexFactorClass ⟨by decide, by decide⟩ value
    · exact isClassName_arbitrary unbroken value

/-- A property with a stem for lengths has it from the table. -/
theorem mem_lengthStems_of_kind {stem : Text} (kind : Property.kind property = .length stem) :
    (property, stem) ∈ Property.lengthStems := by
  have listed := listed_kind property
  rw [kind] at listed
  generalize kindEq : Property.Kind.length stem = kind at listed
  cases listed with
  | keyword | border | color => cases kindEq
  | length listed => rwa [Property.Kind.length.inj kindEq]
  | single =>
    unfold Property.singleKind at kindEq
    split_ifs at kindEq

include unbroken in
/-- The class of a declaration that is no border is never empty, and the blanks in it are those of a
value that is copied. -/
theorem classOf_of_not_border (notBorder : property ∉ borderShorthands) :
    classOf property value isRem ≠ [] ∧ ∀ char, isBlank char = true →
      (char ∈ classOf property value isRem ↔ Copied property value ∧ char ∈ value) := by
  by_cases takesLength : ∃ stem, Property.kind property = .length stem
  · obtain ⟨stem, kind⟩ := takesLength
    have stems : ∀ row ∈ Property.lengthStems, row.2.all Text.isVisible = true := by
      decide +kernel
    have listed := mem_lengthStems_of_kind kind
    have unbroken := Text.unbroken_of_isVisible (stems _ listed)
    have same : classOf property value isRem = lengthClass stem value isRem := by
      simp only [classOf, kind]
    rw [same, copied_iff_of_kind_eq_length value kind listed]
    exact ⟨lengthClass_ne_nil stem value isRem, fun char blank =>
      mem_lengthClass_iff unbroken value isRem blank⟩
  · have isName := isClassName_classOf unbroken value isRem notBorder (not_exists.mp takesLength)
    refine ⟨isName.nonempty, fun char blank => iff_of_false (isName.unbroken.not_mem blank) ?_⟩
    rintro ⟨⟨stem, listed, _⟩, _⟩
    exact takesLength ⟨stem, (kind_of_mem_lengthStems listed).2⟩

end Classes

/-! ### Marks -/

theorem markImportant_of_not_mem {name : Text} (noSpace : ' ' ∉ name) :
    markImportant name = '!' :: name := by
  have kept : (name.flatMap fun char => if char = ' ' then [' ', '!'] else [char]) =
      name.flatMap fun char => [char] := by
    refine List.flatMap_congr fun char member => if_neg ?_
    rintro rfl
    exact noSpace member
  rw [markImportant, kept, List.flatMap_singleton']

theorem markImportant_append_space {name : Text} (noSpace : ' ' ∉ name) (rest : Text) :
    markImportant (name ++ ' ' :: rest) = '!' :: name ++ ' ' :: markImportant rest := by
  have marked := markImportant_of_not_mem noSpace
  rw [markImportant] at marked ⊢
  rw [List.flatMap_append, ← List.cons_append, marked]
  rfl

/-- The mark is put in front of each class. -/
theorem markImportant_join {names : List Text} (nonempty : names ≠ [])
    (noSpace : ∀ name ∈ names, ' ' ∉ name) :
    markImportant (Text.join [' '] names) = Text.join [' '] (names.map ('!' :: ·)) := by
  induction names with
  | nil => exact absurd rfl nonempty
  | cons name names inductionHypothesis =>
    have first := noSpace name List.mem_cons_self
    cases names with
    | nil =>
      rw [Text.join_singleton, markImportant_of_not_mem first, List.map_singleton,
        Text.join_singleton]
    | cons next names =>
      have rest := inductionHypothesis (List.cons_ne_nil _ _) fun other listed =>
        noSpace other (List.mem_cons_of_mem name listed)
      rw [Text.join_cons_cons, markImportant_append_space first, rest]
      exact (Text.join_cons_cons ' ' ('!' :: name) ('!' :: next) _).symm

theorem mem_markImportant_iff {classes : Text} {char : Char} (other : char ≠ '!') :
    char ∈ markImportant classes ↔ char ∈ classes := by
  rw [markImportant, List.mem_cons, or_iff_right other, List.mem_flatMap]
  constructor
  · rintro ⟨source, inClasses, inMarked⟩
    split at inMarked
    · next space =>
      have isSpace : char = ' ' := by simpa [other] using inMarked
      rwa [isSpace, ← space]
    · rwa [List.mem_singleton.mp inMarked]
  · intro member
    refine ⟨char, member, ?_⟩
    split <;> simp [*]

/-! ### Declarations -/

/-- The name of the property of a declaration. -/
def propertyName (property : Text) : Text :=
  property.trim.lowerAscii

/-- What the value of a declaration says, apart from whether it is important. -/
def statedValue (value : Text) : Text :=
  (splitImportant value.trim).1

theorem stops_statedValue (value : Text) : Text.stops isBlank (statedValue value) = true := by
  refine Text.stops_of_prefix ?_ (Text.trimmed_trim value).head
  unfold statedValue splitImportant
  split
  · next rest found =>
    rw [Text.before?_eq_some_iff.mp found]
    exact (Text.trimEnd_leads rest).trans (List.prefix_append rest _)
  · exact List.prefix_rfl

theorem generate_append (value : Text) {property : Text} (noColon : ':' ∉ property) (isRem : Bool) :
    generate (property ++ ':' :: value) isRem =
      if propertyName property = [] ∨ statedValue value = [] then []
      else
        let classes := classOf (propertyName property) (statedValue value) isRem
        [if (splitImportant value.trim).2 then markImportant classes else classes] := by
  simp only [generate, splitColon?_append noColon]
  by_cases missing : propertyName property = [] ∨ statedValue value = []
  · rw [if_pos missing, if_pos]
    simpa [propertyName, statedValue] using missing
  · rw [if_neg missing, if_neg]
    · rfl
    · simpa [propertyName, statedValue] using missing

section Candidate

variable {property : Text} (noColon : ':' ∉ property) (unbroken : property.trim.Unbroken)
  (value : Text) (isRem : Bool)

include unbroken in
theorem unbroken_propertyName : (propertyName property).Unbroken :=
  Text.unbroken_lowerAscii unbroken

include noColon in
/-- A border's candidate lists a class for each part, all of them marked if the value is. -/
theorem exists_names_of_generate (isBorder : propertyName property ∈ borderShorthands)
    (stated : statedValue value ≠ []) :
    ∃ names : List Text, generate (property ++ ':' :: value) isRem = [Text.join [' '] names] ∧
      names ≠ [] ∧ names.length = (statedValue value).parts.length ∧
        ∀ name ∈ names, IsClassName name := by
  obtain ⟨stem, stemUnbroken, kind⟩ := exists_kind_of_mem_borderShorthands isBorder
  obtain ⟨names, length_eq, areNames, classes_eq⟩ :=
    exists_join_eq_borderClasses stemUnbroken (statedValue value) isRem
  have named : propertyName property ≠ [] := by
    intro empty
    rw [empty] at isBorder
    exact absurd isBorder (by decide)
  have nonempty : names ≠ [] := by
    rw [← List.length_pos_iff, length_eq, List.length_pos_iff]
    exact Text.parts_ne_nil stated (stops_statedValue value)
  have same : classOf (propertyName property) (statedValue value) isRem =
      Text.join [' '] names := by
    simp only [classOf, kind, classes_eq]
  rw [generate_append value noColon isRem, if_neg (not_or.mpr ⟨named, stated⟩), same]
  cases (splitImportant value.trim).2 with
  | false => exact ⟨names, rfl, nonempty, length_eq, areNames⟩
  | true =>
    have noSpace : ∀ name ∈ names, ' ' ∉ name := fun name listed =>
      (areNames name listed).unbroken.not_mem (by decide)
    refine ⟨names.map ('!' :: ·), ?_, by simpa using nonempty, by simpa using length_eq, ?_⟩
    · simp only [if_true, markImportant_join nonempty noSpace]
    · intro name listed
      obtain ⟨bare, inNames, rfl⟩ := List.mem_map.mp listed
      have mark : isBlank '!' = false := by decide
      exact ⟨List.cons_ne_nil _ _, Text.unbroken_cons.mpr ⟨mark, (areNames bare inNames).unbroken⟩⟩

include noColon unbroken in
/-- Any other candidate is one class, but for the blanks of a value that is copied. -/
theorem exists_candidate_of_generate (notBorder : propertyName property ∉ borderShorthands)
    (named : propertyName property ≠ []) (stated : statedValue value ≠ []) :
    ∃ candidate, generate (property ++ ':' :: value) isRem = [candidate] ∧ candidate ≠ [] ∧
      ∀ char, isBlank char = true →
        (char ∈ candidate ↔
          Copied (propertyName property) (statedValue value) ∧ char ∈ statedValue value) := by
  obtain ⟨nonempty, blanks⟩ := classOf_of_not_border (unbroken_propertyName unbroken)
    (statedValue value) isRem notBorder
  rw [generate_append value noColon isRem, if_neg (not_or.mpr ⟨named, stated⟩)]
  cases (splitImportant value.trim).2 with
  | false => exact ⟨_, rfl, nonempty, blanks⟩
  | true =>
    refine ⟨_, rfl, List.cons_ne_nil _ _, fun char blank => ?_⟩
    have other : char ≠ '!' := by
      rintro rfl
      cases blank
    exact (mem_markImportant_iff other).trans (blanks char blank)

include noColon unbroken in
/-- A declaration has no candidate if it lacks a property or a value, and otherwise one. That of a
border lists as many classes as the value has parts, with single spaces between them; any other is
free of blanks, unless the value is copied, and then its blanks are those of the value. -/
theorem candidates_of_generate :
    if propertyName property = [] ∨ statedValue value = [] then
      generate (property ++ ':' :: value) isRem = []
    else
      ∃ candidate, generate (property ++ ':' :: value) isRem = [candidate] ∧ candidate ≠ [] ∧
        if propertyName property ∈ borderShorthands then
          ∃ names : List Text, candidate = Text.join [' '] names ∧
            names.length = (statedValue value).parts.length ∧ ∀ name ∈ names, IsClassName name
        else
          ∀ char, isBlank char = true →
            (char ∈ candidate ↔
              Copied (propertyName property) (statedValue value) ∧ char ∈ statedValue value) := by
  split
  · next missing => rw [generate_append value noColon isRem, if_pos missing]
  · next present =>
    obtain ⟨named, stated⟩ := not_or.mp present
    split
    · next isBorder =>
      obtain ⟨names, generated, nonempty, length_eq, areNames⟩ :=
        exists_names_of_generate noColon value isRem isBorder stated
      refine ⟨_, generated, ?_, names, rfl, length_eq, areNames⟩
      obtain ⟨name, more, rfl⟩ := List.exists_cons_of_ne_nil nonempty
      have first := (areNames name List.mem_cons_self).nonempty
      cases more with
      | nil => rwa [Text.join_singleton]
      | cons next more =>
        rw [Text.join_cons_cons]
        exact List.append_ne_nil_of_left_ne_nil first _
    · next notBorder =>
      exact exists_candidate_of_generate noColon unbroken value isRem notBorder named stated

end Candidate

/-- A calculated padding with a minus sign keeps its blanks. -/
theorem candidates_of_generate_padding :
    (':' ∉ "padding".toList ∧ (Text.trim "padding".toList).Unbroken) ∧
      ∃ candidate, generate "padding: -calc(1px + 2px)".toList false = [candidate] ∧
        ' ' ∈ candidate := by
  have noColon : ':' ∉ "padding".toList := by decide
  have unbroken : (Text.trim "padding".toList).Unbroken := by decide
  refine ⟨⟨noColon, unbroken⟩, ?_⟩
  have candidates := candidates_of_generate noColon unbroken " -calc(1px + 2px)".toList false
  rw [if_neg (by decide)] at candidates
  obtain ⟨candidate, generated, _, blanks⟩ := candidates
  rw [if_neg (by decide)] at blanks
  refine ⟨candidate, generated, (blanks ' ' (by decide)).mpr ⟨?_, by decide⟩⟩
  exact ⟨"p".toList, by decide, ⟨by decide, by decide, by decide⟩⟩

end BuiltIn

end AtomicCss
