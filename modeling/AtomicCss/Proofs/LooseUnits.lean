/-
This file says which texts lose a unit. A unit of pixels is loose if a digit stands right before it
and the word ends right behind it. Only loose units are stripped, so a text without one comes through
as it is. And whatever stands before a loose unit, the pass over numbers takes it, so a text with one
comes out shorter.
-/

import AtomicCss.Proofs.PixelUnits

namespace AtomicCss

open PixelLength

namespace ClassNumber

/-! ### Loose units -/

/-- Some number of the text has the unit of pixels right behind it, at the end of a word. -/
def HasLooseUnit (text : Text) : Prop :=
  ∃ lead digit rest, digit.isDigit = true ∧ Text.stops isWordChar rest = true ∧
    text = lead ++ digit :: (pixelUnit ++ rest)

theorem not_hasLooseUnit_nil : ¬ HasLooseUnit [] := by
  rintro ⟨lead, digit, rest, _, _, spelt⟩
  simp at spelt

theorem hasLooseUnit_cons {char : Char} {text : Text} :
    HasLooseUnit (char :: text) ↔
      (char.isDigit = true ∧ ∃ rest, Text.stops isWordChar rest = true ∧ text = pixelUnit ++ rest) ∨
        HasLooseUnit text := by
  constructor
  · rintro ⟨lead, digit, rest, isDigit, stopped, spelt⟩
    cases lead with
    | nil =>
      obtain ⟨rfl, rfl⟩ := List.cons.inj spelt
      exact Or.inl ⟨isDigit, rest, stopped, rfl⟩
    | cons first lead =>
      obtain ⟨_, rfl⟩ := List.cons.inj spelt
      exact Or.inr ⟨lead, digit, rest, isDigit, stopped, rfl⟩
  · rintro (⟨isDigit, rest, stopped, rfl⟩ | ⟨lead, digit, rest, isDigit, stopped, rfl⟩)
    · exact ⟨[], char, rest, isDigit, stopped, rfl⟩
    · exact ⟨char :: lead, digit, rest, isDigit, stopped, rfl⟩

/-- A unit has to start somewhere. -/
theorem hasLooseUnit_append {lead text : Text} (noUnit : 'p' ∉ lead)
    (starts : text.head? ≠ some 'p') : HasLooseUnit (lead ++ text) ↔ HasLooseUnit text := by
  induction lead with
  | nil => rfl
  | cons char lead inductionHypothesis =>
    have behind := inductionHypothesis fun member => noUnit (List.mem_cons_of_mem char member)
    rw [List.cons_append, hasLooseUnit_cons, behind]
    refine or_iff_right ?_
    rintro ⟨_, rest, _, spelt⟩
    rw [pixelUnit_eq, List.cons_append] at spelt
    cases lead with
    | nil =>
      rw [List.nil_append] at spelt
      rw [spelt] at starts
      exact starts rfl
    | cons first lead =>
      obtain ⟨rfl, _⟩ := List.cons.inj spelt
      exact noUnit (by simp)

/-- A number has a unit right behind it if what follows starts with one. -/
theorem hasLooseUnit_append_numeral {sign : Text} {numeral : Numeral} (noUnit : 'p' ∉ sign)
    (wellFormed : numeral.WellFormed) (text : Text) :
    HasLooseUnit (sign ++ (numeral.text ++ text)) ↔
      (∃ rest, Text.stops isWordChar rest = true ∧ text = pixelUnit ++ rest) ∨
        HasLooseUnit text := by
  obtain ⟨lead, digit, spelt, isDigit⟩ := wellFormed.exists_text_eq_concat
  have noUnit' : 'p' ∉ sign ++ lead := by
    have inNumeral : 'p' ∉ numeral.text := wellFormed.isNumberText.not_mem (by decide)
    rw [spelt] at inNumeral
    rw [List.mem_append, not_or]
    exact ⟨noUnit, fun member => inNumeral (List.mem_append_left [digit] member)⟩
  have starts : (digit :: text).head? ≠ some 'p' := by
    rintro same
    obtain rfl := Option.some.inj same
    cases isDigit
  rw [spelt, List.append_assoc, ← List.append_assoc sign, List.singleton_append,
    hasLooseUnit_append noUnit' starts, hasLooseUnit_cons]
  simp only [isDigit, true_and]

/-- The unit of a length is loose if its word ends there. -/
theorem hasLooseUnit_length {numeral : Numeral} (wellFormed : numeral.WellFormed) (text : Text) :
    HasLooseUnit (numeral.text ++ (pixelUnit ++ text)) ↔
      Text.stops isWordChar text = true ∨ HasLooseUnit text := by
  have unit : HasLooseUnit (pixelUnit ++ text) ↔ HasLooseUnit text := by
    rw [pixelUnit_eq, List.cons_append, List.cons_append, List.nil_append, hasLooseUnit_cons,
      hasLooseUnit_cons]
    simp [show 'p'.isDigit = false by decide, show 'x'.isDigit = false by decide]
  have here := hasLooseUnit_append_numeral List.not_mem_nil wellFormed (pixelUnit ++ text)
  rw [List.nil_append, unit] at here
  rw [here]
  refine or_congr_left ⟨?_, fun stopped => ⟨text, stopped, rfl⟩⟩
  rintro ⟨_, stopped, same⟩
  rwa [List.append_cancel_left same]

theorem HasLooseUnit.append {text : Text} (hasUnit : HasLooseUnit text) (lead : Text) :
    HasLooseUnit (lead ++ text) := by
  obtain ⟨front, digit, rest, isDigit, stopped, rfl⟩ := hasUnit
  exact ⟨lead ++ front, digit, rest, isDigit, stopped, by rw [List.append_assoc]⟩

/-! ### Stripping them -/

theorem Strips.hasLooseUnit {lead rest text source replacement written : Text} {numeral : Numeral}
    (strips : Strips lead numeral rest text source replacement written) : HasLooseUnit text := by
  obtain ⟨more, digit, ends, isDigit⟩ := strips.wellFormed.exists_text_eq_concat
  refine ⟨lead ++ more, digit, rest, isDigit, strips.stopped, ?_⟩
  rw [strips.spelt, ends]
  simp only [List.append_assoc, List.singleton_append]

theorem hasLooseUnit_of_alters_paddingPixels {before : Option Char} {text : Text}
    (alters : paddingPixels.Alters before text) : HasLooseUnit text := by
  obtain ⟨lead, source, rest, replacement, rfl, taken, _, _⟩ := alters
  obtain ⟨_, _, _, _, strips⟩ := exists_strips_of_paddingPixels taken
  exact strips.hasLooseUnit.append lead

/-- The pass over numbers of pixels finds something to change exactly where a unit is loose. -/
theorem alters_pixels_iff {before : Option Char} {text : Text} :
    pixels.Alters before text ↔ HasLooseUnit text := by
  constructor
  · rintro ⟨lead, source, rest, replacement, rfl, taken, _, _⟩
    obtain ⟨_, _, _, _, strips⟩ := exists_strips_of_pixels taken
    exact strips.hasLooseUnit.append lead
  · rintro ⟨lead, digit, rest, isDigit, stopped, rfl⟩
    exact ⟨lead, digit :: pixelUnit, rest, [digit], rfl, pixels_of_digit isDigit stopped _,
      List.cons_ne_nil _ _, by simp [pixelUnit_eq]⟩

/-- The unit that is stripped is loose, so without one there is nothing to strip. -/
theorem sweep_paddingPixels_eq_self_of_not_hasLooseUnit {text : Text}
    (noUnit : ¬ HasLooseUnit text) (before : Option Char) :
    paddingPixels.sweep before text = text :=
  Matcher.sweep_eq_self_of_not_alters paddingPixels_faithful fun alters =>
    noUnit (hasLooseUnit_of_alters_paddingPixels alters)

theorem sweep_pixels_eq_self_of_not_hasLooseUnit {text : Text} (noUnit : ¬ HasLooseUnit text)
    (before : Option Char) : pixels.sweep before text = text :=
  Matcher.sweep_eq_self_of_not_alters pixels_faithful fun alters =>
    noUnit (alters_pixels_iff.mp alters)

theorem mem_of_mem_sweep_pixels {before : Option Char} {text : Text} {char : Char}
    (member : char ∈ pixels.sweep before text) : char ∈ text := by
  refine Matcher.mem_of_mem_sweep_of_source pixels_faithful ?_ member
  intro before text source replacement taken inReplacement
  obtain ⟨sign, _, numeral, behind, strips⟩ := exists_strips_of_pixels taken
  rw [strips.replacement_eq] at inReplacement
  rw [strips.source_eq, ← List.append_assoc]
  exact List.mem_append_left pixelUnit inReplacement

/-- A text with a loose unit comes out shorter. -/
theorem length_sweep_pixels_lt {text : Text} (hasUnit : HasLooseUnit text)
    (before : Option Char) : (pixels.sweep before text).length < text.length := by
  have reduces : pixels.Reduces fun _ => true := by
    intro before text source replacement taken _
    obtain ⟨_, _, numeral, _, strips⟩ := exists_strips_of_pixels taken
    rw [strips.source_eq, strips.replacement_eq, pixelUnit_eq]
    simp
  refine Nat.lt_of_not_le fun atLeast => ?_
  have keeps : text.countP (fun _ => true) ≤ (pixels.sweep before text).countP fun _ => true := by
    simpa only [List.countP_true] using atLeast
  have silent := (Matcher.tiles_piecesFrom pixels_faithful before text).silentOver reduces keeps
  obtain ⟨lead, digit, rest, isDigit, stopped, rfl⟩ := hasUnit
  have here := (Matcher.silentOver_append.mp silent).2.1
  rw [List.append_nil] at here
  exact absurd (here _ _ (pixels_of_digit isDigit stopped _)) (List.cons_ne_nil _ _)

/-- Without digits behind hyphens, a class whose brackets do not start with a digit loses its loose
units and nothing else. -/
theorem normalize_eq_sweep_pixels {name : Text} (hasPx : Bool)
    (noScaling : ∀ digit, digit.isDigit = true → ¬ ['-', digit] <:+: name)
    (noScaling' : ∀ digit, digit.isDigit = true → ¬ ['-', digit] <:+: pixels.sweep none name)
    (noBracket : ∀ digit, digit.isDigit = true → ¬ ['[', digit] <:+: pixels.sweep none name) :
    normalize name hasPx = pixels.sweep none name := by
  have common : normalize name true = pixels.sweep none name := by
    simp only [normalize_true, Matcher.replaceAll_eq_sweep,
      Scaling.sweep_eq_self (Scaling.not_stem_infix noScaling),
      sweep_paddingPixels_eq_self (Scaling.not_stem_infix noScaling),
      sweep_bracketed_eq_self noBracket]
  cases hasPx with
  | true => exact common
  | false =>
    rw [normalize_false, common, Matcher.replaceAll_eq_sweep,
      Scaling.sweep_eq_self (Scaling.not_stem_infix noScaling')]

end ClassNumber

end AtomicCss
