/-
This file says in which characters a computed number is written. Whatever a length is multiplied or
divided by, as long as no sign is involved, its text is made of digits, a point, and the letters of
the two words that stand for what is no finite number. In particular a computed number brings
neither a hyphen nor a bracket nor the unit of pixels into a class, so what a pass writes is never
taken for the stem of a class by the passes behind it. Zeros at the end of a fraction would be
dropped from the text, but a shortest text has none.
-/

import AtomicCss.ClassNumber
import AtomicCss.Proofs.GridSearch
import AtomicCss.Proofs.NumeralText

namespace AtomicCss

/-! ### Characters of computed numbers -/

/-- The characters in which numbers without a sign are written. -/
def isNumberChar (char : Char) : Bool :=
  char.isDigit || ".infNa".toList.contains char

/-- A text that a number without a sign may have. -/
structure IsNumberText (text : Text) : Prop where
  nonempty : text ≠ []
  chars : ∀ char ∈ text, isNumberChar char = true

theorem isNumberChar_of_isDigit {char : Char} (isDigit : char.isDigit = true) :
    isNumberChar char = true := by
  rw [isNumberChar, isDigit, Bool.true_or]

/-- A character that is no digit and not in the list is none of the characters of a number. -/
theorem IsNumberText.not_mem {text : Text} (isNumber : IsNumberText text) {char : Char}
    (refused : isNumberChar char = false) : char ∉ text :=
  Text.not_mem_of_forall isNumber.chars refused

/-- What a number is written with in front of its text may be put there, if it is of that kind. -/
theorem IsNumberText.append {first second : Text} (isNumber : IsNumberText first)
    (isNumber' : ∀ char ∈ second, isNumberChar char = true) : IsNumberText (first ++ second) where
  nonempty := List.append_ne_nil_of_left_ne_nil isNumber.nonempty second
  chars := by
    intro char member
    rcases List.mem_append.mp member with first | second
    · exact isNumber.chars char first
    · exact isNumber' char second

theorem Numeral.WellFormed.isNumberText {numeral : Numeral} (wellFormed : numeral.WellFormed) :
    IsNumberText numeral.text where
  nonempty := wellFormed.text_ne_nil
  chars := by
    intro char member
    rcases wellFormed.isDigit_or_eq_point member with isDigit | rfl
    · exact isNumberChar_of_isDigit isDigit
    · rfl

namespace Decimal

theorem isDigit_of_mem_digits {number : Nat} {char : Char} (member : char ∈ digits number) :
    char.isDigit = true :=
  Nat.isDigit_of_mem_toDigits (by decide) (by decide) member

theorem isNumberText_digits (number : Nat) : IsNumberText (digits number) where
  nonempty := Nat.toDigits_ne_nil
  chars := fun _ member => isNumberChar_of_isDigit (isDigit_of_mem_digits member)

theorem isNumberText_pointed (places number : Nat) : IsNumberText (pointed places number) := by
  unfold pointed
  split
  · exact isNumberText_digits number
  · refine (isNumberText_digits _).append fun char member => ?_
    rcases List.mem_cons.mp member with rfl | member
    · rfl
    · rcases List.mem_append.mp member with zero | digit
      · rw [List.eq_of_mem_replicate zero]
        rfl
      · exact isNumberChar_of_isDigit (isDigit_of_mem_digits digit)

end Decimal

/-! ### Zeros at the end -/

theorem Text.trimEndOf_concat {char last : Char} (lead : Text) (other : last ≠ char) :
    Text.trimEndOf char (lead ++ [last]) = lead ++ [last] := by
  have kept : (last == char) = false := beq_false_of_ne other
  rw [Text.trimEndOf, List.reverse_append, List.reverse_singleton, List.singleton_append,
    List.dropWhile_cons, kept, if_neg Bool.false_ne_true, List.reverse_cons, List.reverse_reverse]

namespace Decimal

theorem exists_digits_eq_concat (number : Nat) :
    ∃ lead, digits number = lead ++ [Nat.digitChar (number % 10)] := by
  rw [digits]
  rcases Nat.lt_or_ge number 10 with single | several
  · exact ⟨[], by rw [Nat.toDigits_of_lt_base single, Nat.mod_eq_of_lt single, List.nil_append]⟩
  · exact ⟨_, Nat.toDigits_of_base_le (by decide) several⟩

/-- The last place of a number of units is the last digit of the number. -/
theorem exists_padded_eq_concat {places : Nat} (positive : 0 < places) (count : Nat) :
    ∃ lead, padded places (count % power 10 places) = lead ++ [Nat.digitChar (count % 10)] := by
  have last : count % power 10 places % 10 = count % 10 := by
    refine Nat.mod_mod_of_dvd count ?_
    obtain ⟨more, rfl⟩ := Nat.exists_eq_add_of_lt positive
    exact ⟨_, Nat.mul_comm _ _⟩
  obtain ⟨lead, digits_eq⟩ := exists_digits_eq_concat (count % power 10 places)
  rw [padded, digits_eq, last, ← List.append_assoc]
  exact ⟨_, rfl⟩

theorem exists_pointed_eq_concat {places : Nat} (positive : 0 < places) (count : Nat) :
    ∃ lead, pointed places count = lead ++ [Nat.digitChar (count % 10)] := by
  obtain ⟨lead, padded_eq⟩ := exists_padded_eq_concat positive count
  rw [pointed, if_neg (Nat.ne_of_gt positive), padded_eq, ← List.cons_append, ← List.append_assoc]
  exact ⟨_, rfl⟩

theorem digitChar_ne {digit : Nat} (small : digit < 10) (nonzero : digit ≠ 0) :
    Nat.digitChar digit ≠ '0' ∧ Nat.digitChar digit ≠ '.' := by
  have each : ∀ digit < 10, digit ≠ 0 →
      Nat.digitChar digit ≠ '0' ∧ Nat.digitChar digit ≠ '.' := by decide
  exact each digit small nonzero

end Decimal

/-- A shortest text with a point ends in a digit that is not zero. -/
theorem Magnitude.exists_shortestText_eq_concat {magnitude : Magnitude}
    (point : '.' ∈ magnitude.shortestText) :
    ∃ lead last, magnitude.shortestText = lead ++ [last] ∧ last ≠ '0' ∧ last ≠ '.' := by
  have nonzero : magnitude.mantissa ≠ 0 := by
    intro zero
    rw [shortestText, if_pos zero] at point
    exact absurd point (by decide)
  obtain ⟨count, grid, first, ⟨fine, text_eq⟩ | ⟨_, text_eq⟩⟩ := exists_shortestText nonzero
  · obtain ⟨lead, concat_eq⟩ := Decimal.exists_pointed_eq_concat (Nat.sub_pos_of_lt fine) count
    exact ⟨lead, _, text_eq.trans concat_eq, Decimal.digitChar_ne (Nat.mod_lt count (by decide))
      (first.mod_ten_ne_zero nonzero)⟩
  · rw [text_eq] at point
    cases Decimal.isDigit_of_mem_digits point

/-- There are no zeros to be dropped from a shortest text. -/
theorem Binary64.withoutFinalZeros_shortestText (number : Binary64) :
    withoutFinalZeros number.shortestText = number.shortestText := by
  rw [withoutFinalZeros]
  split
  · next point =>
    cases number with
    | nan => exact absurd point (by decide)
    | infinite negative => cases negative <;> exact absurd point (by decide)
    | finite negative magnitude =>
      rw [shortestText] at point ⊢
      have inText : '.' ∈ magnitude.shortestText := by
        rcases List.mem_append.mp point with sign | inText
        · cases negative <;> exact absurd sign (by decide)
        · exact inText
      obtain ⟨lead, last, text_eq, notZero, notPoint⟩ :=
        Magnitude.exists_shortestText_eq_concat inText
      rw [text_eq, ← List.append_assoc, Text.trimEndOf_concat _ notZero,
        Text.trimEndOf_concat _ notPoint]
  · rfl

/-! ### Characters of shortest texts -/

theorem Magnitude.isNumberText_shortestText (magnitude : Magnitude) :
    IsNumberText magnitude.shortestText := by
  unfold Magnitude.shortestText
  generalize magnitude.shortestFrom magnitude.coarsestGrid = found
  obtain ⟨count, grid⟩ := found
  split
  · exact ⟨by simp, by decide⟩
  · by_cases fine : grid < finestPlaces
    · simp only [fine, if_true]
      exact Decimal.isNumberText_pointed _ _
    · simp only [fine, if_false]
      exact Decimal.isNumberText_digits _

/-! ### Numbers without a sign -/

namespace Binary64

/-- A number that carries no minus sign, be it finite or not. -/
inductive Unsigned : Binary64 → Prop where
  | nan : Unsigned nan
  | infinite : Unsigned (infinite false)
  | finite (magnitude : Magnitude) : Unsigned (finite false magnitude)

theorem unsigned_nearest (quanta denominator : Nat) :
    (nearest false quanta denominator).Unsigned := by
  unfold nearest
  cases Magnitude.nearest? quanta denominator with
  | some magnitude => exact .finite magnitude
  | none => exact .infinite

theorem unsigned_ofRatio (numerator denominator : Nat) :
    (ofRatio numerator denominator).Unsigned :=
  unsigned_nearest _ denominator

theorem unsigned_ofNat (number : Nat) : (ofNat number).Unsigned :=
  unsigned_ofRatio number 1

theorem unsigned_million : million.Unsigned :=
  unsigned_ofNat 1000000

theorem Unsigned.mul {left right : Binary64} (unsigned : left.Unsigned)
    (unsigned' : right.Unsigned) : (left * right).Unsigned := by
  show (Binary64.mul left right).Unsigned
  cases unsigned with
  | nan => exact .nan
  | infinite =>
    cases unsigned' with
    | nan => exact .nan
    | infinite => exact .infinite
    | finite right =>
      rw [Binary64.mul]
      split
      · exact .nan
      · exact .infinite
  | finite left =>
    cases unsigned' with
    | nan => exact .nan
    | infinite =>
      rw [Binary64.mul]
      split
      · exact .nan
      · exact .infinite
    | finite right =>
      rw [Binary64.mul, bne_self_eq_false]
      exact unsigned_nearest _ _

theorem Unsigned.div {left right : Binary64} (unsigned : left.Unsigned)
    (unsigned' : right.Unsigned) : (left / right).Unsigned := by
  show (Binary64.div left right).Unsigned
  cases unsigned with
  | nan => exact .nan
  | infinite =>
    cases unsigned' with
    | nan => exact .nan
    | infinite => exact .nan
    | finite right => exact .infinite
  | finite left =>
    cases unsigned' with
    | nan => exact .nan
    | infinite => exact .finite Magnitude.zero
    | finite right =>
      rw [Binary64.div, bne_self_eq_false]
      split
      · split
        · exact .nan
        · exact .infinite
      · exact unsigned_nearest _ _

theorem Unsigned.round {number : Binary64} (unsigned : number.Unsigned) :
    number.round.Unsigned := by
  cases unsigned with
  | nan => exact .nan
  | infinite => exact .infinite
  | finite magnitude =>
    rw [Binary64.round]
    exact unsigned_nearest _ _

theorem Unsigned.toSixPlaces {number : Binary64} (unsigned : number.Unsigned) :
    number.toSixPlaces.Unsigned :=
  (unsigned.mul unsigned_million).round.div unsigned_million

/-! ### Their texts -/

theorem Unsigned.toWord_nonneg {number : Binary64} (unsigned : number.Unsigned) :
    0 ≤ number.toWord := by
  cases unsigned with
  | nan => exact Int.le_refl 0
  | infinite => decide
  | finite magnitude =>
    show 0 ≤ if magnitude.wholePart < wordLimit then (magnitude.wholePart : Int)
      else (wordLimit : Int) - 1
    split
    · exact Int.natCast_nonneg _
    · decide

theorem Unsigned.isNumberText_shortestText {number : Binary64} (unsigned : number.Unsigned) :
    IsNumberText number.shortestText := by
  cases unsigned with
  | nan => exact ⟨by decide, by decide⟩
  | infinite => exact ⟨by decide, by decide⟩
  | finite magnitude => exact magnitude.isNumberText_shortestText

/-- A number without a sign is written without one. -/
theorem Unsigned.isNumberText_roundedText {number : Binary64} (unsigned : number.Unsigned) :
    IsNumberText number.roundedText := by
  unfold roundedText
  show IsNumberText (if _ then _ else _)
  split
  · have positive := unsigned.toSixPlaces.round.toWord_nonneg
    rw [integerText, if_neg (by omega)]
    exact Decimal.isNumberText_digits _
  · rw [withoutFinalZeros_shortestText]
    exact unsigned.toSixPlaces.isNumberText_shortestText

end Binary64

namespace ClassNumber

theorem unsigned_value (numeral : Numeral) : numeral.value.Unsigned := by
  unfold Numeral.value
  exact Binary64.unsigned_ofRatio _ _

theorem isNumberText_quadrupled (numeral : Numeral) : IsNumberText (quadrupled numeral) := by
  unfold quadrupled
  exact ((unsigned_value numeral).mul (Binary64.unsigned_ofNat 4)).isNumberText_roundedText

/-- A numeral in pixels, as the padding pass writes it without its unit. -/
theorem isNumberText_roundedText_one (numeral : Numeral) :
    IsNumberText (numeral.value * Binary64.ofNat 1).roundedText :=
  ((unsigned_value numeral).mul (Binary64.unsigned_ofNat 1)).isNumberText_roundedText

end ClassNumber

end AtomicCss
