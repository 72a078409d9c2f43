/-
This file settles which border widths in pixels keep their value. In rem mode the width is divided
by four when the class is generated and multiplied by four when the class is finished, and since
both texts are exact the width comes back. In the other mode the width keeps its unit, which is to
guard it from the pass that multiplies. A whole width is guarded by it. In a width with places the
digits before the point are multiplied and the places stay, so the value is kept only if these
digits are a zero.

A shorthand has one class for each of its parts, and the width among them fares as it does alone.
-/

import AtomicCss.Proofs.GuardedNumbers
import AtomicCss.Proofs.Quarters
import AtomicCss.Proofs.TokenSurvival

namespace AtomicCss

/-! ### Widths -/

/-- The width of a border in pixels: a numeral below a million without superfluous zeros, with up
to four places. -/
structure BorderWidth where
  numeral : Numeral
  canonical : numeral.Canonical
  whole_lt : Decimal.value numeral.whole < 1000000
  places_le : numeral.places.length ≤ 4

namespace BorderWidth

open ClassNumber Decimal

variable (width : BorderWidth)

def length : PixelLength :=
  ⟨width.numeral, width.canonical.toWellFormed⟩

/-- The number of units of the last place. -/
def count : Nat :=
  value (width.numeral.whole ++ width.numeral.places)

/-- The number that the class of the width ends up with. -/
def shown (isRem : Bool) : Text :=
  match width.numeral.fraction with
  | none => width.numeral.text
  | some places =>
    if isRem then width.numeral.text
    else digits (4 * value width.numeral.whole) ++ '.' :: places

/-- The width keeps its value in rem mode, and in the other mode if it has no places or is less
than one. -/
theorem shown_eq_text_iff (isRem : Bool) :
    width.shown isRem = width.numeral.text ↔
      isRem = true ∨ width.numeral.fraction = none ∨ width.numeral.whole = ['0'] := by
  have whole := width.canonical.digits_whole
  cases fraction : width.numeral.fraction with
  | none => simp [shown, fraction]
  | some places =>
    have text_eq : width.numeral.text = width.numeral.whole ++ '.' :: places := by
      rw [Numeral.text, fraction]
    cases isRem with
    | true => simp [shown, fraction]
    | false =>
      simp only [shown, fraction, text_eq, Bool.false_eq_true, if_false, List.append_cancel_right_eq,
        reduceCtorEq, false_or]
      constructor
      · intro same
        have quadruple := congrArg value same
        rw [value_digits] at quadruple
        rw [← whole, (by omega : value width.numeral.whole = 0)]
        rfl
      · intro zero
        rw [zero]
        decide

theorem numeral_eq :
    width.numeral = Numeral.ofPlaces width.numeral.places.length width.count :=
  width.canonical.eq_ofPlaces

theorem text_eq_pointed :
    width.numeral.text = pointed width.numeral.places.length width.count :=
  (congrArg Numeral.text width.numeral_eq).trans (Numeral.text_ofPlaces _ _)

/-- A width has less than a million million units of the sixth place. -/
theorem count_lt : width.count * power 10 (6 - width.numeral.places.length) < 1000000000000 := by
  have whole_lt := width.whole_lt
  have places_lt := value_lt width.canonical.places_digits
  have fine := width.places_le
  have all : power 10 width.numeral.places.length * power 10 (6 - width.numeral.places.length) =
      1000000 := by
    rw [← power_add, Nat.add_sub_cancel' (by omega)]
    rfl
  have below : width.count < 1000000 * power 10 width.numeral.places.length := by
    have most := Nat.mul_le_mul_right (power 10 width.numeral.places.length)
      (Nat.succ_le_of_lt whole_lt)
    rw [Nat.succ_mul] at most
    rw [count, value_append]
    omega
  calc width.count * power 10 (6 - width.numeral.places.length)
      < 1000000 * power 10 width.numeral.places.length *
          power 10 (6 - width.numeral.places.length) :=
        Nat.mul_lt_mul_of_pos_right below (power_pos _ (by decide))
    _ = 1000000000000 := by rw [Nat.mul_assoc, all]

/-- With up to four places, the units of the sixth place are a multiple of a hundred. -/
theorem exists_units_eq :
    ∃ hundreds, width.count * power 10 (6 - width.numeral.places.length) = 100 * hundreds := by
  have split : 6 - width.numeral.places.length = 2 + (4 - width.numeral.places.length) := by
    have fine := width.places_le
    omega
  refine ⟨width.count * power 10 (4 - width.numeral.places.length), ?_⟩
  rw [split, power_add, Nat.mul_left_comm]
  rfl

/-- A width of nothing is written as one zero. -/
theorem numeral_eq_zero (zero : width.count = 0) : width.numeral = ⟨['0'], none⟩ := by
  have reduced : Reduced width.numeral.places.length width.count := width.canonical.reduced
  have numeral_eq := width.numeral_eq
  rw [zero] at reduced numeral_eq
  rw [reduced.resolve_right fun last => last rfl] at numeral_eq
  exact numeral_eq

theorem isZero_value (positive : 0 < width.count) : width.numeral.value.isZero = false := by
  have small := width.count_lt
  have fine := width.places_le
  obtain ⟨magnitude, value_eq, _, large, _⟩ :=
    @Binary64.exists_value width.numeral.places.length width.count positive (by omega) (by omega)
  have bits : 0 < leadingBit := by decide
  rw [width.numeral_eq, value_eq]
  exact decide_eq_false (by omega)

section Class

variable {stem : Text} {scaling : Scaling} (onBorder : scaling ≠ .padding)
  (isStem : stem ++ ['-'] ∈ scaling.stems)

theorem hyphenated_eq (stem body : Text) : BuiltIn.hyphenated stem body = stem ++ ['-'] ++ body :=
  List.append_cons stem '-' body

include onBorder isStem in
theorem normalize_zero :
    normalize (BuiltIn.hyphenated stem ['0']) true = BuiltIn.hyphenated stem ['0'] := by
  have zero : quadrupled ⟨['0'], none⟩ = ['0'] := by decide +kernel
  have wellFormed : Numeral.WellFormed ⟨['0'], none⟩ := ⟨by decide, by decide, by simp, by simp⟩
  have normal := normalize_numeral onBorder isStem wellFormed
  rw [zero, ← hyphenated_eq] at normal
  rwa [Numeral.text_mk_none, ← hyphenated_eq] at normal

include onBorder isStem in
/-- In rem mode a quarter of the width is generated, and four times that is the width. -/
theorem normalize_quarter (positive : 0 < width.count) :
    normalize (BuiltIn.hyphenated stem (BuiltIn.quarter width.numeral)) true =
      BuiltIn.hyphenated stem width.numeral.text := by
  obtain ⟨hundreds, units_eq⟩ := width.exists_units_eq
  have small := width.count_lt
  have fine := width.places_le
  have units_pos := Nat.mul_pos positive
    (power_pos (6 - width.numeral.places.length) (by decide : 0 < 10))
  obtain ⟨places, count, fine', split, reduced⟩ := exists_reduced 6 (25 * hundreds)
  have positive' : 0 < count :=
    Nat.pos_of_mul_pos_right (by omega : 0 < count * power 10 (6 - places))
  have quarter_eq : BuiltIn.quarter width.numeral = pointed places count := by
    rw [width.numeral_eq]
    exact Binary64.quarter_ofPlaces positive (by omega) fine' reduced (by omega) (by omega)
      (by rw [units_eq]; omega)
  have four_eq : quadrupled (Numeral.ofPlaces places count) = width.numeral.text := by
    rw [width.text_eq_pointed]
    exact Binary64.quadrupled_ofPlaces positive' fine' (by omega) width.canonical.reduced
      (by omega) (by omega) (by omega)
  rw [quarter_eq, ← Numeral.text_ofPlaces, hyphenated_eq, hyphenated_eq,
    normalize_numeral onBorder isStem (Numeral.wellFormed_ofPlaces places count), four_eq]

/-- Four times a whole number. -/
theorem quadrupled_integerPart :
    quadrupled width.numeral.integerPart = digits (4 * value width.numeral.whole) := by
  have whole := width.canonical.digits_whole
  have below := width.whole_lt
  generalize value width.numeral.whole = number at *
  have numeral_eq : width.numeral.integerPart = Numeral.ofPlaces 0 number := by
    rw [Numeral.ofPlaces, if_pos rfl, whole]
    rfl
  have million : power 10 (6 - 0) = 1000000 := rfl
  rw [numeral_eq]
  rcases Nat.eq_zero_or_pos number with rfl | positive
  · decide +kernel
  · have four_eq := @Binary64.quadrupled_ofPlaces 0 number 0 (4 * number) positive (by omega)
      (by omega) (Or.inl rfl) (by rw [million]; omega) (by rw [million]; omega)
      (by rw [million]; omega)
    rwa [pointed, if_pos rfl] at four_eq

include onBorder isStem in
/-- Behind the stem of a border the width comes out as it is shown. -/
theorem normalize_lengthBody (isRem : Bool) :
    normalize (BuiltIn.hyphenated stem (BuiltIn.lengthBody width.length.text isRem)) true =
      BuiltIn.hyphenated stem (width.shown isRem) := by
  have body_eq : BuiltIn.lengthBody width.length.text isRem =
      if width.numeral.value.isZero then ['0']
      else if isRem then BuiltIn.quarter width.numeral
      else width.numeral.text ++ pixelUnit := by
    rw [BuiltIn.lengthBody, PixelLength.pixels?_text]
    rfl
  rw [body_eq]
  rcases Nat.eq_zero_or_pos width.count with zero | positive
  · have shown_eq : width.shown isRem = ['0'] := by
      rw [shown, width.numeral_eq_zero zero]
      rfl
    have isZero : width.numeral.value.isZero = true := by
      rw [width.numeral_eq_zero zero]
      decide +kernel
    rw [isZero, if_pos rfl, shown_eq, normalize_zero onBorder isStem]
  · rw [width.isZero_value positive, if_neg Bool.false_ne_true]
    have wellFormed := width.canonical.toWellFormed
    cases isRem with
    | true =>
      have shown_eq : width.shown true = width.numeral.text :=
        (width.shown_eq_text_iff true).mpr (Or.inl rfl)
      rw [if_pos rfl, shown_eq, width.normalize_quarter onBorder isStem positive]
    | false =>
      rw [if_neg Bool.false_ne_true, hyphenated_eq, hyphenated_eq]
      cases fraction : width.numeral.fraction with
      | none =>
        have shown_eq : width.shown false = width.numeral.text :=
          (width.shown_eq_text_iff false).mpr (Or.inr (Or.inl fraction))
        rw [shown_eq, normalize_whole onBorder isStem wellFormed fraction]
      | some places =>
        rw [normalize_fraction onBorder isStem wellFormed fraction, width.quadrupled_integerPart,
          shown, fraction]
        rfl

end Class

end BorderWidth

/-! ### Styles and colors -/

/-- What a border lists by name has letters only. -/
theorem BuiltIn.isAlpha_of_mem_borderNames {name : Text}
    (listed : name ∈ Property.borderStyles ++ Property.borderWidths) :
    ∀ char ∈ name, char.isAlpha = true := by
  have each : ∀ name ∈ Property.borderStyles ++ Property.borderWidths, ∀ char ∈ name,
      char.isAlpha = true := by
    decide
  exact each name listed

/-- What a border lists by name is spelt with letters, small or capital. -/
theorem isAlpha_of_lowerAscii_mem {text : Text}
    (listed : text.lowerAscii ∈ Property.borderStyles ++ Property.borderWidths) :
    text ≠ [] ∧ ∀ char ∈ text, char.isAlpha = true := by
  constructor
  · rintro rfl
    exact absurd listed (by decide)
  · intro char member
    exact isAlpha_of_isAlpha_toLower
      (BuiltIn.isAlpha_of_mem_borderNames listed _ (List.mem_map_of_mem member))

/-- What stands behind the width in a shorthand: a style, and a color in hexadecimal digits. -/
structure BorderTail where
  style : Text
  isStyle : style.lowerAscii ∈ Property.borderStyles
  digits : Text
  digits_ne_nil : digits ≠ []
  isHex : ∀ char ∈ digits, isHexDigit char = true

namespace BorderTail

variable (tail : BorderTail)

def color : Text :=
  '#' :: tail.digits

theorem isColor : IsColor tail.color :=
  .hex tail.digits_ne_nil tail.isHex

theorem isAlpha_of_mem_style {char : Char} (member : char ∈ tail.style) : char.isAlpha = true :=
  (isAlpha_of_lowerAscii_mem (List.mem_append_left _ tail.isStyle)).2 char member

theorem style_ne_nil : tail.style ≠ [] :=
  (isAlpha_of_lowerAscii_mem (List.mem_append_left Property.borderWidths tail.isStyle)).1

end BorderTail

/-! ### Plain characters -/

/-- The characters of the parts of a border that are no calls. -/
def isPlainChar (char : Char) : Bool :=
  isWordChar char || ".%+-#".toList.contains char

theorem isPlainChar_of_isWordChar {char : Char} (isWord : isWordChar char = true) :
    isPlainChar char = true := by
  rw [isPlainChar, isWord, Bool.true_or]

theorem isPlainChar_of_mem_letters {text : Text} (isAlpha : ∀ char ∈ text, char.isAlpha = true) :
    ∀ char ∈ text, isPlainChar char = true := fun char member =>
  isPlainChar_of_isWordChar (isWordChar_of_isAlpha (isAlpha char member))

theorem isPlainChar_of_mem_hexColor {digits : Text}
    (isHex : ∀ char ∈ digits, isHexDigit char = true) :
    ∀ char ∈ '#' :: digits, isPlainChar char = true :=
  List.forall_mem_cons.mpr ⟨by decide, fun char member =>
    isPlainChar_of_isWordChar (IsColor.isWordChar_of_isHexDigit (isHex char member))⟩

/-- A plain character neither separates nor opens nor closes anything. -/
theorem flat_of_isPlainChar {char : Char} (isPlain : isPlainChar char = true) :
    isBlank char = false ∧ char ≠ '(' ∧ char ≠ ')' := by
  refine ⟨?_, ?_, ?_⟩
  · rw [isPlainChar, Bool.or_eq_true] at isPlain
    rcases isPlain with isWord | other
    · exact isBlank_of_isWordChar isWord
    · have each : ∀ char ∈ ".%+-#".toList, isBlank char = false := by decide
      exact each char (List.contains_iff_mem.mp other)
  all_goals
    rintro rfl
    cases isPlain

/-! ### The parts of a shorthand -/

namespace BorderWidth

variable (width : BorderWidth) (tail : BorderTail)

/-- The parts of the value of a shorthand. -/
def partsWith : List Text :=
  [width.length.text, tail.style, tail.color]

def valueWith : Text :=
  Text.join [' '] (width.partsWith tail)

theorem plain_of_mem_partsWith {part : Text} (listed : part ∈ width.partsWith tail) :
    part ≠ [] ∧ ∀ char ∈ part, isPlainChar char = true := by
  simp only [partsWith, List.mem_cons, List.not_mem_nil, or_false] at listed
  rcases listed with rfl | rfl | rfl
  · refine ⟨width.length.text_ne_nil, fun char member => ?_⟩
    rcases PixelLength.mem_text member with isDigit | other
    · exact isPlainChar_of_isWordChar (isWordChar_of_isDigit isDigit)
    · have each : ∀ char ∈ ['.', 'p', 'x'], isPlainChar char = true := by decide
      exact each char other
  · exact ⟨tail.style_ne_nil, isPlainChar_of_mem_letters fun _ => tail.isAlpha_of_mem_style⟩
  · exact ⟨tail.isColor.ne_nil, isPlainChar_of_mem_hexColor tail.isHex⟩

theorem not_mem_valueWith {char : Char} (other : isPlainChar char = false) (notSpace : char ≠ ' ') :
    char ∉ width.valueWith tail := by
  intro member
  rcases Text.mem_join member with inSeparator | ⟨part, listed, inPart⟩
  · exact notSpace (List.mem_singleton.mp inSeparator)
  · exact Text.not_mem_of_forall (width.plain_of_mem_partsWith tail listed).2 other inPart

theorem parts_valueWith : (width.valueWith tail).parts = width.partsWith tail := by
  rw [Text.parts_eq_words fun char member => ⟨?_, ?_⟩, valueWith, Text.words_join]
  · intro part listed
    obtain ⟨nonempty, plain⟩ := width.plain_of_mem_partsWith tail listed
    exact ⟨nonempty, fun char member => (flat_of_isPlainChar (plain char member)).1⟩
  · rintro rfl
    exact width.not_mem_valueWith tail (by decide) (by decide) member
  · rintro rfl
    exact width.not_mem_valueWith tail (by decide) (by decide) member

theorem plainValue_valueWith : PlainValue (width.valueWith tail) where
  trimmed := by
    have first := PixelLength.trimmed_valueOf width.length []
    rw [PixelLength.valueOf_nil] at first
    have ends := first.append_append width.length.text_ne_nil (' ' :: (tail.style ++ [' ']))
      tail.isColor.trimmed tail.isColor.ne_nil
    simpa [valueWith, partsWith, Text.join_cons_cons] using ends
  nonempty := by
    have nonempty := width.length.text_ne_nil
    simp [valueWith, partsWith, Text.join_cons_cons, nonempty]
  noStar := width.not_mem_valueWith tail (by decide) (by decide)
  noMark := width.not_mem_valueWith tail (by decide) (by decide)
  noReference := by
    intro found
    exact width.not_mem_valueWith tail (by decide) (by decide)
      (found.subset (by decide : '(' ∈ Variable.opening))

end BorderWidth

/-! ### The classes of the parts -/

/-- A digit is no letter. -/
theorem isAlpha_of_isDigit {char : Char} (isDigit : char.isDigit = true) :
    char.isAlpha = false := by
  rw [isDigit_iff_toNat] at isDigit
  rw [← Bool.not_eq_true, isAlpha_iff_toNat]
  omega

namespace BuiltIn

/-- A part that is not listed by name is a length or a color. -/
theorem borderPart_of_not_listed {part : Text}
    (unlisted : part.lowerAscii ∉ Property.borderStyles ++ Property.borderWidths) (stem : Text)
    (isRem : Bool) :
    borderPart stem part isRem =
      if isLength part then lengthClass stem part isRem else colorClass stem part := by
  have absent {names : List Text}
      (among : names ⊆ Property.borderStyles ++ Property.borderWidths) :
      names.contains part.lowerAscii = false := by
    rw [← Bool.not_eq_true, List.contains_iff_mem]
    exact fun listed => unlisted (among listed)
  rw [borderPart, absent (List.subset_append_left _ _), absent (List.subset_append_right _ _),
    if_neg Bool.false_ne_true, if_neg Bool.false_ne_true]

/-- A part whose small form has another character than letters is not listed by name. -/
theorem borderPart_of_mem {part : Text} {char : Char} (member : char ∈ part.lowerAscii)
    (other : char.isAlpha = false) (stem : Text) (isRem : Bool) :
    borderPart stem part isRem =
      if isLength part then lengthClass stem part isRem else colorClass stem part := by
  refine borderPart_of_not_listed (fun listed => ?_) stem isRem
  rw [isAlpha_of_mem_borderNames listed char member] at other
  cases other

theorem isLength_text (length : PixelLength) : isLength length.text = true := by
  obtain ⟨digit, rest, starts, isDigit⟩ := length.wellFormed.exists_text_eq_cons
  have unsigned_eq : unsigned length.text = length.text := by
    unfold unsigned
    split
    · next behind spelt =>
      rw [PixelLength.text, starts] at spelt
      obtain ⟨rfl, _⟩ := List.cons.inj spelt
      cases isDigit
    · rfl
  have ends : length.numeral.Ends ['p', 'x'] := Numeral.ends_cons (by decide) (by decide)
  have reading : Numeral.read? length.text = some (length.numeral, ['p', 'x']) :=
    Numeral.read?_eq_some_iff.mpr ⟨rfl, length.wellFormed, ends⟩
  have dimension : dimension? length.text = some length.numeral := by
    rw [dimension?, Numeral.readLoose?, reading]
    rfl
  rw [isLength, unsigned_eq, dimension, Option.isSome_some, Bool.or_true]

theorem borderPart_text (length : PixelLength) (stem : Text) (isRem : Bool) :
    borderPart stem length.text isRem = hyphenated stem (lengthBody length.text isRem) := by
  obtain ⟨digit, rest, starts, isDigit⟩ := length.wellFormed.exists_text_eq_cons
  have member : digit ∈ length.text.lowerAscii := by
    refine List.mem_map.mpr ⟨digit, ?_, toLower_of_isDigit isDigit⟩
    rw [PixelLength.text, starts]
    exact List.mem_cons_self
  rw [borderPart_of_mem member (isAlpha_of_isDigit isDigit), isLength_text, if_pos rfl,
    PixelLength.lengthClass_text]

theorem borderPart_style (tail : BorderTail) (stem : Text) (isRem : Bool) :
    borderPart stem tail.style isRem = hyphenated stem tail.style.lowerAscii := by
  rw [borderPart, List.contains_iff_mem.mpr tail.isStyle, if_pos rfl]

theorem borderPart_color (tail : BorderTail) (stem : Text) (isRem : Bool) :
    borderPart stem tail.color isRem = hyphenated stem (inBrackets tail.color) := by
  have member : '#' ∈ tail.color.lowerAscii :=
    List.mem_map.mpr ⟨'#', List.mem_cons_self, by decide⟩
  have notLength : isLength tail.color = false := rfl
  have compact : tail.color.compact = tail.color := Text.compact_eq_self fun char member => by
    rcases List.mem_cons.mp member with rfl | inDigits
    · decide
    · exact isBlank_of_isWordChar (IsColor.isWordChar_of_isHexDigit (tail.isHex char inDigits))
  rw [borderPart_of_mem member rfl, notLength, if_neg Bool.false_ne_true,
    colorClass_eq tail.isColor.exists_mark, compact, hyphenated, inBrackets]
  simp

end BuiltIn

/-! ### Declarations of widths -/

namespace BorderWidth

open ClassNumber

/-- The stem of the classes for each property that takes the width of a border. -/
def widthStems : List (Text × Text) :=
  textTable
    [ ("border-width", "border"), ("border-top-width", "border-t"),
      ("border-right-width", "border-r"), ("border-bottom-width", "border-b"),
      ("border-left-width", "border-l") ]

theorem mem_lengthStems {row : Text × Text} (listed : row ∈ widthStems) :
    row ∈ Property.lengthStems := by
  have each : ∀ row ∈ widthStems, row ∈ Property.lengthStems := by decide +kernel
  exact each row listed

/-- The passes multiply behind the stems of borders, on all sides or on one. -/
theorem exists_scaling_of_mem {row : Text × Text}
    (listed : row ∈ widthStems ++ Property.borderStems) :
    ∃ scaling : Scaling, scaling ≠ .padding ∧ row.2 ++ ['-'] ∈ scaling.stems := by
  have each : ∀ row ∈ widthStems ++ Property.borderStems,
      row.2 ++ ['-'] ∈ Scaling.border.stems ∨ row.2 ++ ['-'] ∈ Scaling.side.stems := by
    decide
  rcases each row listed with onAll | onSide
  · exact ⟨.border, by decide, onAll⟩
  · exact ⟨.side, by decide, onSide⟩

theorem plainStem_of_mem_borderStems {row : Text × Text} (listed : row ∈ Property.borderStems) :
    TokenInjection.PlainStem row.2 := by
  have each : ∀ row ∈ Property.borderStems, ∀ char ∈ row.2,
      char.isDigit = false ∧ char ∉ ['v', '#', '(', '['] := by
    decide
  exact each row listed

section Declarations

variable (width : BorderWidth) (isRem : Bool)

theorem finish_width {property stem : Text} (listed : (property, stem) ∈ widthStems) :
    (Declaration.prepare ⟨property, width.length.text⟩ isRem BuiltIn.generate).finish =
      BuiltIn.hyphenated stem (width.shown isRem) := by
  obtain ⟨scaling, onBorder, isStem⟩ := exists_scaling_of_mem (List.mem_append_left _ listed)
  rw [← PixelLength.valueOf_nil, PixelLength.finish_prepare (mem_lengthStems listed),
    PixelLength.valueOf_nil, PixelLength.lengthClass_text,
    width.normalize_lengthBody onBorder isStem]

theorem finish_shorthand (tail : BorderTail) {property stem : Text}
    (listed : (property, stem) ∈ Property.borderStems) :
    (Declaration.prepare ⟨property, width.valueWith tail⟩ isRem BuiltIn.generate).finish =
      Text.join [' ']
        [ BuiltIn.hyphenated stem (width.shown isRem),
          BuiltIn.hyphenated stem tail.style.lowerAscii,
          BuiltIn.hyphenated stem (BuiltIn.inBrackets tail.color) ] := by
  obtain ⟨plain, kind⟩ := BuiltIn.kind_of_mem_borderStems listed
  obtain ⟨scaling, onBorder, isStem⟩ := exists_scaling_of_mem (List.mem_append_right _ listed)
  have plainStem := plainStem_of_mem_borderStems listed
  have inPixels : Text.contains "px".toList (width.valueWith tail) = true := by
    rw [Text.contains_eq_true_iff, valueWith, partsWith, Text.join_cons_cons]
    exact ⟨width.numeral.text, _, rfl⟩
  have noDigit : ∀ char ∈ BuiltIn.hyphenated stem tail.style.lowerAscii, char.isDigit = false := by
    intro char member
    rcases List.mem_append.mp member with inStem | behind
    · exact (plainStem char inStem).1
    · rcases List.mem_cons.mp behind with rfl | inStyle
      · decide
      · exact isDigit_of_isAlpha
          (BuiltIn.isAlpha_of_mem_borderNames (List.mem_append_left _ tail.isStyle) char inStyle)
  have color_eq : normalize (BuiltIn.hyphenated stem (BuiltIn.inBrackets tail.color)) true =
      BuiltIn.hyphenated stem (BuiltIn.inBrackets tail.color) := by
    have spelt : BuiltIn.hyphenated stem (BuiltIn.inBrackets tail.color) =
        stem ++ ['-', '['] ++ (tail.color ++ [']']) := by
      simp [BuiltIn.hyphenated, BuiltIn.inBrackets]
    rw [spelt, normalize_color plainStem tail.isColor]
  rw [Declaration.finish_prepare plain (width.plainValue_valueWith tail), inPixels,
    BuiltIn.classOf, kind]
  simp only [BuiltIn.borderClasses, width.parts_valueWith, partsWith, List.map_cons, List.map_nil,
    BuiltIn.borderPart_text, BuiltIn.borderPart_style, BuiltIn.borderPart_color, normalize_join,
    width.normalize_lengthBody onBorder isStem, normalize_of_noDigit noDigit, color_eq]

/-- A width ends up as the number that is shown, alone and in a shorthand, and the number is the
width exactly in rem mode, or if it is whole or less than one. -/
theorem finish_borderWidth (tail : BorderTail) {property stem shorthand stem' : Text}
    (listed : (property, stem) ∈ widthStems) (listed' : (shorthand, stem') ∈ Property.borderStems) :
    (Declaration.prepare ⟨property, width.length.text⟩ isRem BuiltIn.generate).finish =
        BuiltIn.hyphenated stem (width.shown isRem) ∧
      (Declaration.prepare ⟨shorthand, width.valueWith tail⟩ isRem BuiltIn.generate).finish =
        Text.join [' ']
          [ BuiltIn.hyphenated stem' (width.shown isRem),
            BuiltIn.hyphenated stem' tail.style.lowerAscii,
            BuiltIn.hyphenated stem' (BuiltIn.inBrackets tail.color) ] ∧
      (width.shown isRem = width.numeral.text ↔
        isRem = true ∨ width.numeral.fraction = none ∨ width.numeral.whole = ['0']) :=
  ⟨width.finish_width isRem listed, width.finish_shorthand isRem tail listed',
    width.shown_eq_text_iff isRem⟩

/-- One and a half pixels. -/
def oneAndAHalf : BorderWidth where
  numeral := ⟨['1'], some ['5']⟩
  canonical := ⟨⟨by decide, by decide, by simp, by simp⟩, by decide, by decide⟩
  whole_lt := by decide
  places_le := by decide

theorem shown_oneAndAHalf : oneAndAHalf.shown false = "4.5".toList := by
  decide

/-- Alone and in a shorthand they end up as four and a half. -/
theorem finish_borderWidth_oneAndAHalf :
    (("border-width".toList, "border".toList) ∈ widthStems ∧
        ("border".toList, "border".toList) ∈ Property.borderStems) ∧
      (Declaration.prepare ⟨"border-width".toList, "1.5px".toList⟩ false BuiltIn.generate).finish =
        "border-4.5".toList ∧
      (Declaration.prepare ⟨"border".toList, "1.5px solid #fff".toList⟩ false
        BuiltIn.generate).finish = "border-4.5 border-solid border-[#fff]".toList := by
  have listed : ("border-width".toList, "border".toList) ∈ widthStems := by decide
  have listed' : ("border".toList, "border".toList) ∈ Property.borderStems := by decide
  obtain ⟨alone, among, _⟩ := finish_borderWidth oneAndAHalf false
    ⟨"solid".toList, by decide, "fff".toList, by decide, by decide⟩ listed listed'
  rw [shown_oneAndAHalf] at alone among
  exact ⟨⟨listed, listed'⟩, alone, among⟩

/-- So not every width keeps its value in both modes. -/
theorem finish_oneAndAHalf_ne :
    ("border-width".toList, "border".toList) ∈ widthStems ∧
      (Declaration.prepare ⟨"border-width".toList, "1.5px".toList⟩ false BuiltIn.generate).finish ≠
        BuiltIn.hyphenated "border".toList "1.5".toList := by
  have listed : ("border-width".toList, "border".toList) ∈ widthStems := by decide
  have finished := oneAndAHalf.finish_width false listed
  rw [shown_oneAndAHalf] at finished
  refine ⟨listed, fun kept => ?_⟩
  exact absurd (finished.symm.trans kept) (by decide)

end Declarations

end BorderWidth

end AtomicCss
