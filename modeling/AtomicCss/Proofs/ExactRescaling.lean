/-
This file computes what becomes of a single number behind the stem of a padding, and settles for
which whole numbers bringing a class to scale is exact. In a padding that is in pixels the number is
written anew, without its unit; in any other padding it is multiplied by four. Either way it goes
through the number format once, so the digits that come out are those of the exact result as long as
this result comes back from the format, from units of the sixth place and from a signed word.
-/

import AtomicCss.Proofs.GuardedNumbers
import AtomicCss.Proofs.LooseUnits
import AtomicCss.Proofs.WholeNumbers

namespace AtomicCss

namespace ClassNumber

open PixelLength

/-! ### A number behind the stem of a padding -/

section Padding

variable {stem : Text} (isStem : stem ∈ Scaling.padding.stems) {numeral : Numeral}
  (wellFormed : numeral.WellFormed)

include isStem in
/-- In a padding there is no border to scale. -/
theorem sweep_borders_padding {number unit : Text} (single : Single number unit) :
    Scaling.side.pass.sweep none (Scaling.border.pass.sweep none (stem ++ (number ++ unit))) =
      stem ++ (number ++ unit) := by
  have still {site : Scaling} (different : site ≠ .padding) :
      site.pass.sweep none (stem ++ (number ++ unit)) = stem ++ (number ++ unit) :=
    Scaling.sweep_eq_self (Scaling.not_infix_of_ne isStem different single.hyphen_not_mem) none
  rw [still (by decide), still (by decide)]

include isStem wellFormed in
/-- In a padding in pixels the number is written anew, and the unit goes. -/
theorem sweep_paddingPixels_append :
    paddingPixels.sweep none (stem ++ (numeral.text ++ pixelUnit)) =
      stem ++ (numeral.value * Binary64.ofNat 1).roundedText := by
  have found : readPaddingStem? (stem ++ (numeral.text ++ pixelUnit)) =
      some (stem, numeral.text ++ pixelUnit) :=
    readPaddingStem?_eq_some_iff.mpr ⟨isStem, rfl⟩
  have reading : readPixels? (numeral.text ++ pixelUnit) =
      some (numeral, numeral.text ++ pixelUnit) :=
    readPixels?_eq_some_iff.mpr ⟨[], by rw [List.append_nil], wellFormed, rfl, rfl⟩
  have taken : paddingPixels none (stem ++ (numeral.text ++ pixelUnit) ++ []) =
      some (stem ++ (numeral.text ++ pixelUnit),
        stem ++ (numeral.value * Binary64.ofNat 1).roundedText) := by
    rw [List.append_nil, paddingPixels, found]
    simp only [bind, Option.bind_some, reading]
    rfl
  have nonempty : stem ++ (numeral.text ++ pixelUnit) ≠ [] := by simp [pixelUnit_eq]
  have swept := Matcher.sweep_append_of_taken nonempty taken
  rwa [Matcher.sweep_nil, List.append_nil, List.append_nil] at swept

include isStem wellFormed in
theorem normalize_padding_pixels :
    normalize (stem ++ (numeral.text ++ pixelUnit)) true =
      stem ++ (numeral.value * Binary64.ofNat 1).roundedText := by
  have single := single_pixels wellFormed
  have single' : Single (numeral.value * Binary64.ofNat 1).roundedText [] :=
    ⟨isNumberText_roundedText_one numeral, Or.inl rfl⟩
  have onUnits := single'.sweep_bracketed_pixels (noDigit_of_mem_stems isStem)
  rw [List.append_nil] at onUnits
  rw [normalize_true]
  simp only [Matcher.replaceAll_eq_sweep]
  rw [sweep_borders_padding isStem single, sweep_paddingPixels_append isStem wellFormed, onUnits]

include isStem wellFormed in
/-- A padding without a unit is multiplied once the other passes had nothing to do. -/
theorem normalize_padding :
    normalize (stem ++ numeral.text) false = stem ++ quadrupled numeral := by
  have single : Single numeral.text [] := ⟨wellFormed.isNumberText, Or.inl rfl⟩
  have noDigit : ∀ char ∈ stem, char.isDigit = false := fun char member =>
    (noDigit_of_mem_stems isStem char member).1
  have noUnit : ¬ HasLooseUnit (stem ++ numeral.text) := by
    rintro ⟨lead, digit, rest, isDigit, _, spelt⟩
    refine not_unit_infix_append noDigit wellFormed.isNumberText digit isDigit
      ⟨lead, 'x' :: rest, ?_⟩
    rw [spelt, pixelUnit_eq]
    simp
  have onBorders := sweep_borders_padding isStem single
  have onUnits := single.sweep_bracketed_pixels (noDigit_of_mem_stems isStem)
  have guarded : Numeral.readGuarded? (numeral.text ++ []) = some numeral := by
    rw [List.append_nil, Numeral.readGuarded?_text wellFormed]
  have scaled := Scaling.sweep_append isStem guarded (by simp)
  simp only [List.append_nil] at onBorders onUnits scaled
  rw [normalize_false, normalize_true]
  simp only [Matcher.replaceAll_eq_sweep]
  rw [onBorders, sweep_paddingPixels_eq_self_of_not_hasLooseUnit noUnit, onUnits, scaled]

end Padding

/-! ### Whole numbers -/

/-- Bringing a whole number to scale is exact where the result comes back, and only there: for every
result up to a certain size, and for none that a word does not hold. -/
theorem normalize_digits_iff {stem : Text} (isStem : stem ∈ Scaling.padding.stems) (number : Nat) :
    (normalize (stem ++ (Decimal.digits number ++ pixelUnit)) true =
        stem ++ Decimal.digits number ↔ Binary64.ComesBack number) ∧
      (normalize (stem ++ Decimal.digits number) false = stem ++ Decimal.digits (4 * number) ↔
        Binary64.ComesBack (4 * number)) ∧
      (normalize (borderStem ++ Decimal.digits number) true =
        borderStem ++ Decimal.digits (4 * number) ↔ Binary64.ComesBack (4 * number)) ∧
      (∀ result ≤ 576460752304, Binary64.ComesBack result) ∧
      ∀ result, Binary64.ComesBack result → result < 9223372036854775808 := by
  have wellFormed := Numeral.wellFormed_ofPlaces 0 number
  have text_eq : (Numeral.ofPlaces 0 number).text = Decimal.digits number :=
    Numeral.text_ofPlaces 0 number
  have value_eq : (Numeral.ofPlaces 0 number).value = Binary64.ofNat number :=
    Numeral.value_ofPlaces 0 number
  have inPixels := normalize_padding_pixels isStem wellFormed
  have plain := normalize_padding isStem wellFormed
  have onBorder := normalize_numeral (by decide : Scaling.border ≠ .padding) List.mem_cons_self
    wellFormed
  rw [text_eq, value_eq, Binary64.ofNat_mul_one] at inPixels
  rw [text_eq, quadrupled, value_eq] at plain onBorder
  refine ⟨?_, ?_, ?_, fun _ => Binary64.comesBack_of_le, fun _ => Binary64.ComesBack.lt⟩
  · rw [inPixels, List.append_right_inj, Binary64.roundedText_ofNat_iff]
  · rw [plain, List.append_right_inj, Binary64.roundedText_mul_four_iff]
  · rw [onBorder, List.append_right_inj, Binary64.roundedText_mul_four_iff]

/-- The padding of sixteen is exact in all three forms. -/
theorem normalize_digits_sixteen :
    "pt-".toList ∈ Scaling.padding.stems ∧
      normalize "pt-16px".toList true = "pt-16".toList ∧
      normalize "pt-16".toList false = "pt-64".toList ∧
      normalize "border-16".toList true = "border-64".toList := by
  have isStem : "pt-".toList ∈ Scaling.padding.stems := by decide
  obtain ⟨inPixels, plain, onBorder, small, _⟩ := normalize_digits_iff isStem 16
  exact ⟨isStem, inPixels.mpr (small _ (by decide)), plain.mpr (small _ (by decide)),
    onBorder.mpr (small _ (by decide))⟩

/-- The first whole number of pixels that is written as another number: all before it come back. -/
theorem normalize_large_ne : normalize "p-576460752305px".toList true ≠ "p-576460752305".toList := by
  decide +kernel

end ClassNumber

end AtomicCss
