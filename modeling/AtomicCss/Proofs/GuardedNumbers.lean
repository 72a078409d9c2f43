/-
This file computes what becomes of a single number behind the stem of a border. The pass of the stem
multiplies what the guard lets through, and no other pass finds a stem of its own. The guard holds
back a number that a unit carries on. Of a number with a point it lets the digits before the point
through all the same, since a point carries nothing on, and the unit is stripped from what is left.
-/

import AtomicCss.Proofs.ClassWords
import AtomicCss.Proofs.PixelUnits

namespace AtomicCss

/-! ### Reading a number behind a stem -/

namespace Numeral

/-- At the end of a text the whole numeral counts. -/
theorem readGuarded?_text {numeral : Numeral} (wellFormed : numeral.WellFormed) :
    readGuarded? numeral.text = some numeral := by
  have reading : read? numeral.text = some (numeral, []) :=
    read?_eq_some_iff.mpr ⟨(List.append_nil _).symm, wellFormed, ends_nil numeral⟩
  rw [readGuarded?, reading]
  rfl

/-- The unit carries a numeral on, but not the digits before its point. -/
theorem readGuarded?_append_pixelUnit {numeral : Numeral} (wellFormed : numeral.WellFormed) :
    readGuarded? (numeral.text ++ ClassNumber.pixelUnit) =
      if numeral.fraction.isSome then some numeral.integerPart else none := by
  have ends : numeral.Ends ['p', 'x'] := ends_cons (by decide) (by decide)
  have reading : read? (numeral.text ++ ClassNumber.pixelUnit) =
      some (numeral, ClassNumber.pixelUnit) :=
    read?_eq_some_iff.mpr ⟨rfl, wellFormed, ends⟩
  rw [readGuarded?, reading]
  rfl

end Numeral

namespace ClassNumber

open PixelLength

section Stem

variable {scaling : Scaling} {stem : Text} (isStem : stem ∈ scaling.stems)

include isStem in
theorem noDigit_of_mem_stems : ∀ char ∈ stem, char.isDigit = false ∧ char ≠ '[' := by
  have each : ∀ stem ∈ scaling.stems, ∀ char ∈ stem, char.isDigit = false ∧ char ≠ '[' := by
    cases scaling <;> decide
  exact each stem isStem

include isStem in
/-- A guarded number behind a stem is multiplied, and what follows it stays. -/
theorem Scaling.sweep_append {numeral : Numeral} {rest : Text}
    (guarded : Numeral.readGuarded? (numeral.text ++ rest) = some numeral) (noHyphen : '-' ∉ rest) :
    scaling.pass.sweep none (stem ++ (numeral.text ++ rest)) =
      stem ++ (quadrupled numeral ++ rest) := by
  have taken : scaling.pass none (stem ++ numeral.text ++ rest) =
      some (stem ++ numeral.text, stem ++ quadrupled numeral) := by
    rw [List.append_assoc, Scaling.pass_append isStem scaling.startsBehind_none, quadruple?,
      guarded]
    rfl
  obtain ⟨_, _, ⟨wellFormed, _, _⟩⟩ := Numeral.readGuarded?_eq_some_iff.mp guarded
  rw [← List.append_assoc, Matcher.sweep_append_of_taken
    (List.append_ne_nil_of_right_ne_nil _ wellFormed.text_ne_nil) taken,
    sweep_scaling_of_not_mem scaling noHyphen, List.append_assoc]

include isStem in
/-- Where the guard lets nothing through, nothing is multiplied. -/
theorem Scaling.sweep_append_of_none {behind : Text}
    (guarded : Numeral.readGuarded? behind = none) (noHyphen : '-' ∉ behind) :
    scaling.pass.sweep none (stem ++ behind) = stem ++ behind := by
  refine Matcher.sweep_eq_self_of_silent (fun before char rest suffix => ?_) none
  intro source replacement taken
  obtain ⟨stem', isStem', numeral, rest', scales⟩ := Scaling.exists_scales_of_taken taken
  obtain ⟨digit, more, starts, isDigit⟩ := scales.wellFormed.exists_text_eq_cons
  obtain ⟨lead, whole⟩ := suffix
  have spelt : stem ++ behind = lead ++ stem' ++ digit :: (more ++ rest') := by
    rw [← whole, scales.spelt, starts]
    simp
  obtain ⟨_, behind_eq⟩ := Scaling.eq_append_stem isStem' isDigit
    (fun char member => (noDigit_of_mem_stems isStem char member).1) noHyphen spelt
  have reading := scales.guarded
  rw [starts, List.cons_append, ← behind_eq, guarded] at reading
  cases reading

end Stem

/-- No stem of one pass ends with a stem of another. -/
theorem Scaling.not_suffix_of_ne {scaling other : Scaling} (different : other ≠ scaling)
    {stem stem' : Text} (isStem : stem ∈ scaling.stems) (isStem' : stem' ∈ other.stems) :
    ¬ stem' <:+ stem := by
  have each : ∀ stem ∈ scaling.stems, ∀ stem' ∈ other.stems, ¬ stem' <:+ stem := by
    cases scaling <;> cases other <;> first | exact absurd rfl different | decide
  exact each stem isStem stem' isStem'

section Border

variable {scaling : Scaling} (onBorder : scaling ≠ .padding) {stem : Text}
  (isStem : stem ∈ scaling.stems)

include isStem in
/-- Behind a stem there is nothing to multiply for the other passes. -/
theorem Scaling.not_infix_of_ne {other : Scaling} (different : other ≠ scaling) {behind : Text}
    (noHyphen : '-' ∉ behind) :
    ∀ stem' ∈ other.stems, ∀ digit, digit.isDigit = true →
      ¬ stem' ++ [digit] <:+: stem ++ behind := by
  rintro stem' isStem' digit isDigit ⟨lead, rest, whole⟩
  have spelt : stem ++ behind = lead ++ stem' ++ digit :: rest := by
    rw [← whole]
    simp
  obtain ⟨ends, _⟩ := Scaling.eq_append_stem isStem' isDigit
    (fun char member => (noDigit_of_mem_stems isStem char member).1) noHyphen spelt
  exact Scaling.not_suffix_of_ne different isStem isStem' ⟨lead, ends.symm⟩

include onBorder isStem in
/-- Behind the stem of a border the number is multiplied once, if at all, and loses its unit. -/
theorem normalize_append {number number' unit : Text} (single : Single number unit)
    (single' : Single number' unit)
    (scaled : scaling.pass.sweep none (stem ++ (number ++ unit)) = stem ++ (number' ++ unit)) :
    normalize (stem ++ (number ++ unit)) true = stem ++ number' := by
  have other {site : Scaling} (different : site ≠ scaling) {number : Text}
      (single : Single number unit) :
      site.pass.sweep none (stem ++ (number ++ unit)) = stem ++ (number ++ unit) :=
    Scaling.sweep_eq_self (Scaling.not_infix_of_ne isStem different single.hyphen_not_mem) none
  have borders : Scaling.side.pass.sweep none (Scaling.border.pass.sweep none
      (stem ++ (number ++ unit))) = stem ++ (number' ++ unit) := by
    cases scaling with
    | border => rw [scaled, other (by decide) single']
    | side => rw [other (by decide) single, scaled]
    | padding => exact absurd rfl onBorder
  have paddings : paddingPixels.sweep none (stem ++ (number' ++ unit)) =
      stem ++ (number' ++ unit) :=
    sweep_paddingPixels_eq_self
      (Scaling.not_infix_of_ne isStem onBorder.symm single'.hyphen_not_mem) none
  rw [normalize_true]
  simp only [Matcher.replaceAll_eq_sweep]
  rw [borders, paddings, single'.sweep_bracketed_pixels (noDigit_of_mem_stems isStem)]

include onBorder isStem in
theorem normalize_numeral {numeral : Numeral} (wellFormed : numeral.WellFormed) :
    normalize (stem ++ numeral.text) true = stem ++ quadrupled numeral := by
  have guarded : Numeral.readGuarded? (numeral.text ++ []) = some numeral := by
    rw [List.append_nil, Numeral.readGuarded?_text wellFormed]
  have scaled := Scaling.sweep_append isStem guarded (by simp)
  have whole := normalize_append onBorder isStem ⟨wellFormed.isNumberText, Or.inl rfl⟩
    ⟨isNumberText_quadrupled numeral, Or.inl rfl⟩ scaled
  rwa [List.append_nil] at whole

include onBorder isStem in
/-- A whole number of pixels is guarded by its unit. -/
theorem normalize_whole {numeral : Numeral} (wellFormed : numeral.WellFormed)
    (whole : numeral.fraction = none) :
    normalize (stem ++ (numeral.text ++ pixelUnit)) true = stem ++ numeral.text := by
  have guarded : Numeral.readGuarded? (numeral.text ++ pixelUnit) = none := by
    rw [Numeral.readGuarded?_append_pixelUnit wellFormed, whole]
    rfl
  have single := single_pixels wellFormed
  exact normalize_append onBorder isStem single single
    (Scaling.sweep_append_of_none isStem guarded single.hyphen_not_mem)

include onBorder isStem in
/-- Of a fractional number of pixels the digits before the point are multiplied. -/
theorem normalize_fraction {numeral : Numeral} (wellFormed : numeral.WellFormed) {digits : Text}
    (fraction : numeral.fraction = some digits) :
    normalize (stem ++ (numeral.text ++ pixelUnit)) true =
      stem ++ (quadrupled numeral.integerPart ++ '.' :: digits) := by
  have text_eq : numeral.text = numeral.integerPart.text ++ '.' :: digits := by
    rw [Numeral.text, fraction]
    rfl
  have guarded : Numeral.readGuarded? (numeral.integerPart.text ++ ('.' :: digits ++ pixelUnit)) =
      some numeral.integerPart := by
    have reading := Numeral.readGuarded?_append_pixelUnit wellFormed
    rwa [fraction, text_eq, List.append_assoc] at reading
  have single := single_pixels wellFormed
  have ends : EndsWithDigit (numeral.integerPart.text ++ '.' :: digits) := by
    rw [← text_eq]
    exact wellFormed.exists_text_eq_concat
  have numberChars : ∀ char ∈ '.' :: digits, isNumberChar char = true := fun char member =>
    single.isNumber.chars char (by rw [text_eq]; exact List.mem_append_right _ member)
  have single' : Single (quadrupled numeral.integerPart ++ '.' :: digits) pixelUnit :=
    ⟨(isNumberText_quadrupled _).append numberChars,
      Or.inr ⟨rfl, (ends.of_append (List.cons_ne_nil _ _)).append⟩⟩
  refine normalize_append onBorder isStem single single' ?_
  rw [text_eq, List.append_assoc, List.append_assoc]
  refine Scaling.sweep_append isStem guarded fun member => ?_
  refine single.hyphen_not_mem ?_
  rw [text_eq, List.append_assoc]
  exact List.mem_append_right _ member

end Border

/-- Without digits there is nothing to bring to scale. -/
theorem normalize_of_noDigit {name : Text} (noDigit : ∀ char ∈ name, char.isDigit = false)
    (hasPx : Bool) : normalize name hasPx = name := by
  have absent {digit : Char} (isDigit : digit.isDigit = true) : digit ∉ name :=
    Text.not_mem_of_forall noDigit isDigit
  exact normalize_eq_self hasPx
    (fun _ => Scaling.not_stem_infix fun _ isDigit =>
      Text.not_pair_infix_of_second_not_mem (absent isDigit))
    (fun _ isDigit => Text.not_pair_infix_of_first_not_mem (absent isDigit))
    (fun _ isDigit => Text.not_pair_infix_of_second_not_mem (absent isDigit))

end ClassNumber

end AtomicCss
