/-
This file says what each pass over the numbers of a class takes and what it writes. The passes that
scale have one form: a stem from a short list, behind it a well-formed numeral that no character of
a name carries on, and the numeral alone is changed. The passes that strip a unit take a numeral
and the unit at the end of a word, and the last pass takes a numeral and the brackets around it.

A class in which no such place occurs is left alone, and whether one occurs can mostly be seen from
two characters that stand next to each other.
-/

import AtomicCss.Proofs.ComputedText
import AtomicCss.Proofs.Sweep

namespace AtomicCss

/-! ### Neighbours -/

namespace Text

variable {first second : Char}

/-- Two characters that are not neighbours in either of two texts are none in the joined text,
unless they meet where the texts are joined. -/
theorem not_pair_infix_append {lead rest : Text} (apart : ¬ [first, second] <:+: lead)
    (apart' : ¬ [first, second] <:+: rest)
    (joint : ¬ (lead.getLast? = some first ∧ rest.head? = some second)) :
    ¬ [first, second] <:+: lead ++ rest := by
  rintro ⟨before, behind, spelt⟩
  rw [List.append_assoc] at spelt
  rcases List.append_eq_append_iff.mp spelt with ⟨more, rfl, remaining⟩ | ⟨more, rfl, remaining⟩
  · match more with
    | [] => exact apart' ⟨[], behind, remaining⟩
    | [char] =>
      obtain ⟨rfl, rfl⟩ : char = first ∧ rest = second :: behind := by simpa using remaining.symm
      exact joint ⟨by simp, rfl⟩
    | char :: next :: more =>
      obtain ⟨rfl, rfl, _⟩ : char = first ∧ next = second ∧ more ++ rest = behind := by
        simpa [eq_comm] using remaining
      exact apart ⟨before, more, by simp⟩
  · exact apart' ⟨more, behind, by rw [remaining, List.append_assoc]⟩

theorem not_pair_infix_of_first_not_mem {text : Text} (absent : first ∉ text) :
    ¬ [first, second] <:+: text :=
  fun found => absent (found.subset List.mem_cons_self)

theorem not_pair_infix_of_second_not_mem {text : Text} (absent : second ∉ text) :
    ¬ [first, second] <:+: text :=
  fun found => absent (found.subset (by simp))

theorem not_pair_infix_append_of_not_mem {lead rest : Text} (absent : first ∉ lead)
    (apart : ¬ [first, second] <:+: rest) : ¬ [first, second] <:+: lead ++ rest :=
  not_pair_infix_append (not_pair_infix_of_first_not_mem absent) apart fun ⟨last, _⟩ =>
    absent (List.mem_of_getLast? last)

end Text

namespace ClassNumber

/-! ### Scaling -/

/-- The passes that multiply a number by four. -/
inductive Scaling where
  | border
  | side
  | padding
  deriving DecidableEq

namespace Scaling

def pass : Scaling → Matcher Text
  | border => ClassNumber.border
  | side => borderSide
  | padding => ClassNumber.padding

/-- The stems behind which a pass scales. -/
def stems : Scaling → List Text
  | border => [borderStem]
  | side => "xylrtb".toList.map fun side => borderStem ++ [side, '-']
  | padding => ['p', '-'] :: "trblxy".toList.map fun side => ['p', side, '-']

/-- A stem ends with its hyphen. -/
theorem exists_stem_eq_concat {scaling : Scaling} {stem : Text} (isStem : stem ∈ scaling.stems) :
    ∃ lead, stem = lead ++ ['-'] := by
  have each : ∀ stem ∈ scaling.stems, stem = stem.dropLast ++ ['-'] := by
    cases scaling <;> decide
  exact ⟨stem.dropLast, each stem isStem⟩

/-- Where no digit stands before a place and no hyphen behind it, a stem with a digit behind it ends
at this place. -/
theorem eq_append_stem {scaling : Scaling} {stem : Text} (isStem : stem ∈ scaling.stems)
    {lead rest before behind : Text} {digit : Char} (isDigit : digit.isDigit = true)
    (noDigit : ∀ char ∈ lead, char.isDigit = false) (noHyphen : '-' ∉ rest)
    (spelt : lead ++ rest = before ++ stem ++ digit :: behind) :
    lead = before ++ stem ∧ rest = digit :: behind := by
  rcases List.append_eq_append_iff.mp spelt with ⟨spare, same, rest_eq⟩ | ⟨spare, same, rest_eq⟩
  · rcases List.eq_nil_or_concat spare with rfl | ⟨init, last, rfl⟩
    · exact ⟨by simpa using same.symm, rest_eq⟩
    · obtain ⟨start, ends⟩ := exists_stem_eq_concat isStem
      rw [List.concat_eq_append] at same rest_eq
      rw [ends, ← List.append_assoc, ← List.append_assoc] at same
      obtain ⟨_, rfl⟩ := List.append_singleton_inj.mp same
      exact absurd (by rw [rest_eq]; simp) noHyphen
  · cases spare with
    | nil => exact ⟨by simpa using same, by simpa using rest_eq.symm⟩
    | cons char spare =>
      obtain ⟨rfl, _⟩ := List.cons.inj rest_eq
      exact absurd (by rw [same]; simp) (Text.not_mem_of_forall noDigit isDigit)

end Scaling

/-- The numeral behind a stem, not carried on by what follows, gives way to a new text. -/
structure Scales (stem : Text) (numeral : Numeral) (rest text source replacement : Text) :
    Prop where
  wellFormed : numeral.WellFormed
  stopped : Text.stops isNameChar rest = true
  guarded : Numeral.readGuarded? (numeral.text ++ rest) = some numeral
  spelt : text = stem ++ (numeral.text ++ rest)
  source_eq : source = stem ++ numeral.text
  replacement_eq : replacement = stem ++ quadrupled numeral

theorem readPaddingStem?_eq_some_iff {text stem rest : Text} :
    readPaddingStem? text = some (stem, rest) ↔
      stem ∈ Scaling.padding.stems ∧ text = stem ++ rest := by
  constructor
  · intro found
    unfold readPaddingStem? at found
    split at found
    · obtain ⟨rfl, rfl⟩ := Prod.mk.inj (Option.some.inj found)
      exact ⟨List.mem_cons_self, rfl⟩
    · next side behind _ =>
      split at found
      · next isSide =>
        obtain ⟨rfl, rfl⟩ := Prod.mk.inj (Option.some.inj found)
        refine ⟨List.mem_cons_of_mem _ (List.mem_map.mpr ⟨side, ?_, rfl⟩), rfl⟩
        exact List.contains_iff_mem.mp isSide
      · cases found
    · cases found
  · rintro ⟨isStem, rfl⟩
    rcases List.mem_cons.mp isStem with rfl | isStem
    · rfl
    · obtain ⟨side, isSide, rfl⟩ := List.mem_map.mp isStem
      have accepted : isPaddingSide side = true := List.contains_iff_mem.mpr isSide
      have other : side ≠ '-' := by
        rintro rfl
        cases accepted
      simp [readPaddingStem?, accepted]

namespace Scaling

/-- Whether a stem of the pass counts behind the character: that of a border starts a word, and what
stands before that of a padding is not looked at. -/
def startsBehind : Scaling → (before : Option Char) → Bool
  | border, before => startsWord before
  | side, before => startsWord before
  | padding, _ => true

theorem startsBehind_none (scaling : Scaling) : scaling.startsBehind none = true := by
  cases scaling <;> rfl

/-- The stem that a pass scales behind, and what follows it. -/
def readStem? : Scaling → (before : Option Char) → Text → Option (Text × Text)
  | border, before, text =>
    if startsWord before then (Text.after? borderStem text).map fun rest => (borderStem, rest)
    else none
  | side, before, text =>
    if startsWord before then
      match Text.after? borderStem text with
      | some (letter :: '-' :: rest) =>
        if isBorderSide letter then some (borderStem ++ [letter, '-'], rest) else none
      | _ => none
    else none
  | padding, _, text => readPaddingStem? text

theorem mem_side_stems {stem : Text} :
    stem ∈ side.stems ↔ ∃ letter, isBorderSide letter = true ∧ stem = borderStem ++ [letter, '-'] := by
  constructor
  · intro isStem
    obtain ⟨letter, isSide, rfl⟩ := List.mem_map.mp isStem
    exact ⟨letter, List.contains_iff_mem.mpr isSide, rfl⟩
  · rintro ⟨letter, isSide, rfl⟩
    exact List.mem_map.mpr ⟨letter, List.contains_iff_mem.mp isSide, rfl⟩

theorem readStem?_eq_some_iff {scaling : Scaling} {before : Option Char} {text stem rest : Text} :
    scaling.readStem? before text = some (stem, rest) ↔
      scaling.startsBehind before = true ∧ stem ∈ scaling.stems ∧ text = stem ++ rest := by
  cases scaling with
  | border =>
    have isStem : stem ∈ border.stems ↔ stem = borderStem := List.mem_singleton
    rw [readStem?, startsBehind, isStem]
    split
    · next starts =>
      simp only [starts, true_and, Option.map_eq_some_iff, Prod.mk.injEq, Text.after?_eq_some_iff]
      constructor
      · rintro ⟨behind, rfl, rfl, rfl⟩
        exact ⟨rfl, rfl⟩
      · rintro ⟨rfl, rfl⟩
        exact ⟨rest, rfl, rfl, rfl⟩
    · next inside => simp [inside]
  | side =>
    rw [readStem?, startsBehind, mem_side_stems]
    split
    · next starts =>
      simp only [starts, true_and]
      constructor
      · intro found
        split at found
        · next letter behind spelt =>
          split at found
          · next isSide =>
            obtain ⟨rfl, rfl⟩ := Prod.mk.inj (Option.some.inj found)
            refine ⟨⟨letter, isSide, rfl⟩, ?_⟩
            rw [Text.after?_eq_some_iff.mp spelt, List.append_assoc]
            rfl
          · cases found
        · cases found
      · rintro ⟨⟨letter, isSide, rfl⟩, rfl⟩
        have found : Text.after? borderStem (borderStem ++ [letter, '-'] ++ rest) =
            some (letter :: '-' :: rest) :=
          Text.after?_eq_some_iff.mpr (List.append_assoc _ _ _)
        rw [found]
        exact if_pos isSide
    · next inside => simp [inside]
  | padding =>
    rw [readStem?, startsBehind, readPaddingStem?_eq_some_iff]
    exact (and_iff_right rfl).symm

theorem pass_eq_bind (scaling : Scaling) (before : Option Char) (text : Text) :
    scaling.pass before text =
      (scaling.readStem? before text).bind fun (stem, rest) => quadruple? stem rest := by
  cases scaling with
  | border =>
    rw [pass, ClassNumber.border, readStem?]
    split
    · rw [Option.bind_map]
      rfl
    · rfl
  | side =>
    rw [pass, borderSide, readStem?]
    split
    · rcases Text.after? borderStem text with _ | _ | ⟨letter, _ | ⟨next, rest⟩⟩
      · rfl
      · rfl
      · rfl
      · by_cases hyphen : next = '-'
        · by_cases isSide : isBorderSide letter = true
          · simp [hyphen, isSide]
          · simp [hyphen, isSide]
        · simp [hyphen]
    · rfl
  | padding => rfl

/-- Behind a stem a scaling pass takes what the guard lets through. -/
theorem pass_append {scaling : Scaling} {before : Option Char} {stem : Text}
    (isStem : stem ∈ scaling.stems) (starts : scaling.startsBehind before = true) (behind : Text) :
    scaling.pass before (stem ++ behind) = quadruple? stem behind := by
  rw [pass_eq_bind, readStem?_eq_some_iff.mpr ⟨starts, isStem, rfl⟩, Option.bind_some]

/-- A scaling pass takes one of its stems with the guarded numeral behind it, and writes the stem and
four times the numeral. -/
theorem pass_eq_some_iff {scaling : Scaling} {before : Option Char}
    {text source replacement : Text} :
    scaling.pass before text = some (source, replacement) ↔
      scaling.startsBehind before = true ∧ ∃ stem ∈ scaling.stems, ∃ numeral rest,
        text = stem ++ (numeral.text ++ rest) ∧ numeral.Guarded rest ∧
          source = stem ++ numeral.text ∧ replacement = stem ++ quadrupled numeral := by
  constructor
  · intro taken
    rw [pass_eq_bind, Option.bind_eq_some_iff] at taken
    obtain ⟨⟨stem, behind⟩, found, taken⟩ := taken
    obtain ⟨starts, isStem, rfl⟩ := readStem?_eq_some_iff.mp found
    obtain ⟨numeral, reading, equal⟩ := Option.map_eq_some_iff.mp taken
    obtain ⟨rfl, rfl⟩ := Prod.mk.inj equal
    obtain ⟨rest, rfl, guarded⟩ := Numeral.readGuarded?_eq_some_iff.mp reading
    exact ⟨starts, stem, isStem, numeral, rest, rfl, guarded, rfl, rfl⟩
  · rintro ⟨starts, stem, isStem, numeral, rest, rfl, guarded, rfl, rfl⟩
    rw [pass_append isStem starts, quadruple?, guarded.readGuarded?_append]
    rfl

theorem exists_scales_of_taken {scaling : Scaling} {before : Option Char}
    {text source replacement : Text}
    (taken : scaling.pass before text = some (source, replacement)) :
    ∃ stem ∈ scaling.stems, ∃ numeral rest,
      Scales stem numeral rest text source replacement := by
  obtain ⟨_, stem, isStem, numeral, rest, spelt, guarded, source_eq, replacement_eq⟩ :=
    pass_eq_some_iff.mp taken
  exact ⟨stem, isStem, numeral, rest, guarded.wellFormed, guarded.stopped,
    guarded.readGuarded?_append, spelt, source_eq, replacement_eq⟩

theorem pass_faithful (scaling : Scaling) : scaling.pass.Faithful := by
  intro before text source replacement taken
  obtain ⟨stem, _, numeral, rest, scales⟩ := exists_scales_of_taken taken
  refine ⟨rest, ?_⟩
  rw [scales.spelt, scales.source_eq, List.append_assoc]

end Scaling

/-! ### Units -/

/-- Pixels are read where a well-formed numeral has the unit behind it and the word ends there. -/
theorem readPixels?_eq_some_iff {text source : Text} {numeral : Numeral} :
    readPixels? text = some (numeral, source) ↔
      ∃ rest, text = numeral.text ++ (pixelUnit ++ rest) ∧ numeral.WellFormed ∧
        Text.stops isWordChar rest = true ∧ source = numeral.text ++ pixelUnit := by
  simp only [readPixels?, bind, Option.bind_eq_some_iff, Prod.exists]
  constructor
  · rintro ⟨read, behind, reading, rest, unit, found⟩
    by_cases stopped : Text.stops isWordChar rest = true
    · rw [if_pos stopped] at found
      obtain ⟨rfl, rfl⟩ := Prod.mk.inj (Option.some.inj found)
      obtain ⟨rfl, wellFormed, _⟩ := Numeral.read?_eq_some_iff.mp reading
      rw [Text.after?_eq_some_iff.mp unit]
      exact ⟨rest, rfl, wellFormed, stopped, rfl⟩
    · rw [if_neg stopped] at found
      cases found
  · rintro ⟨rest, rfl, wellFormed, stopped, rfl⟩
    have ends : numeral.Ends ('p' :: 'x' :: rest) := Numeral.ends_cons (by decide) (by decide)
    refine ⟨numeral, pixelUnit ++ rest, Numeral.read?_eq_some_iff.mpr ⟨rfl, wellFormed, ends⟩,
      rest, Text.after?_eq_some_iff.mpr rfl, ?_⟩
    rw [if_pos stopped]

/-- A numeral with the unit of pixels at the end of a word gives way to a new text. -/
structure Strips (lead : Text) (numeral : Numeral) (rest text source replacement written : Text) :
    Prop where
  wellFormed : numeral.WellFormed
  stopped : Text.stops isWordChar rest = true
  spelt : text = lead ++ (numeral.text ++ (pixelUnit ++ rest))
  source_eq : source = lead ++ (numeral.text ++ pixelUnit)
  replacement_eq : replacement = lead ++ written

theorem exists_strips_of_paddingPixels {before : Option Char} {text source replacement : Text}
    (taken : paddingPixels before text = some (source, replacement)) :
    ∃ stem ∈ Scaling.padding.stems, ∃ numeral rest,
      Strips stem numeral rest text source replacement
        (numeral.value * Binary64.ofNat 1).roundedText := by
  simp only [paddingPixels, bind, Option.bind_eq_some_iff, Prod.exists] at taken
  obtain ⟨stem, behind, found, numeral, pixels, reading, equal⟩ := taken
  obtain ⟨rfl, rfl⟩ := Prod.mk.inj (Option.some.inj equal)
  obtain ⟨isStem, rfl⟩ := readPaddingStem?_eq_some_iff.mp found
  obtain ⟨rest, rfl, wellFormed, stopped, rfl⟩ := readPixels?_eq_some_iff.mp reading
  exact ⟨stem, isStem, numeral, rest, wellFormed, stopped, rfl, rfl, rfl⟩

theorem exists_strips_of_pixels {before : Option Char} {text source replacement : Text}
    (taken : pixels before text = some (source, replacement)) :
    ∃ sign, (sign = [] ∨ sign = ['-']) ∧ ∃ numeral rest,
      Strips sign numeral rest text source replacement numeral.text := by
  unfold pixels at taken
  split at taken
  · next behind =>
    rw [Option.map_eq_some_iff] at taken
    obtain ⟨⟨numeral, pixels⟩, reading, equal⟩ := taken
    obtain ⟨rfl, rfl⟩ := Prod.mk.inj equal
    obtain ⟨rest, rfl, wellFormed, stopped, rfl⟩ := readPixels?_eq_some_iff.mp reading
    exact ⟨['-'], Or.inr rfl, numeral, rest, wellFormed, stopped, rfl, rfl, rfl⟩
  · rw [Option.map_eq_some_iff] at taken
    obtain ⟨⟨numeral, pixels⟩, reading, equal⟩ := taken
    obtain ⟨rfl, rfl⟩ := Prod.mk.inj equal
    obtain ⟨rest, rfl, wellFormed, stopped, rfl⟩ := readPixels?_eq_some_iff.mp reading
    exact ⟨[], Or.inl rfl, numeral, rest, wellFormed, stopped, rfl, rfl, rfl⟩

theorem Strips.source_prefix {lead text source replacement written rest : Text}
    {numeral : Numeral} (strips : Strips lead numeral rest text source replacement written) :
    source <+: text := by
  refine ⟨rest, ?_⟩
  rw [strips.spelt, strips.source_eq]
  simp only [List.append_assoc]

theorem paddingPixels_faithful : paddingPixels.Faithful := by
  intro before text source replacement taken
  obtain ⟨_, _, _, _, strips⟩ := exists_strips_of_paddingPixels taken
  exact strips.source_prefix

theorem pixels_faithful : pixels.Faithful := by
  intro before text source replacement taken
  obtain ⟨_, _, _, _, strips⟩ := exists_strips_of_pixels taken
  exact strips.source_prefix

/-! ### Brackets -/

theorem bracketed_eq_some_iff {before : Option Char} {text source replacement : Text} :
    bracketed before text = some (source, replacement) ↔
      ∃ (numeral : Numeral) (rest : Text), numeral.WellFormed ∧
        text = '[' :: (numeral.text ++ ']' :: rest) ∧ source = '[' :: numeral.text ++ [']'] ∧
        replacement = numeral.text := by
  constructor
  · intro taken
    unfold bracketed at taken
    split at taken
    · next behind =>
      split at taken
      · next numeral rest reading =>
        obtain ⟨rfl, rfl⟩ := Prod.mk.inj (Option.some.inj taken)
        obtain ⟨rfl, wellFormed, _⟩ := Numeral.read?_eq_some_iff.mp reading
        exact ⟨numeral, rest, wellFormed, rfl, rfl, rfl⟩
      · cases taken
    · cases taken
  · rintro ⟨numeral, rest, wellFormed, rfl, rfl, rfl⟩
    have reading : Numeral.read? (numeral.text ++ ']' :: rest) = some (numeral, ']' :: rest) :=
      Numeral.read?_eq_some_iff.mpr
        ⟨rfl, wellFormed, Numeral.ends_cons (by decide) (by decide)⟩
    simp only [bracketed, reading]

theorem bracketed_faithful : bracketed.Faithful := by
  intro before text source replacement taken
  obtain ⟨numeral, rest, _, rfl, rfl, _⟩ := bracketed_eq_some_iff.mp taken
  exact ⟨rest, by simp⟩

/-! ### All passes -/

/-- The passes are the three that scale, the two that strip a unit and the one for brackets. -/
theorem eq_of_mem_passes {hasPx : Bool} {pass : Matcher Text} (listed : pass ∈ passes hasPx) :
    (∃ scaling, pass = Scaling.pass scaling) ∨ pass = paddingPixels ∨ pass = pixels ∨
      pass = bracketed := by
  have all : pass ∈ commonPasses ++ [padding] := by
    cases hasPx with
    | true => exact List.mem_append_left _ listed
    | false => exact listed
  simp only [commonPasses, List.cons_append, List.nil_append, List.mem_cons, List.not_mem_nil,
    or_false] at all
  rcases all with rfl | rfl | rfl | rfl | rfl | rfl
  · exact Or.inl ⟨.border, rfl⟩
  · exact Or.inl ⟨.side, rfl⟩
  · exact Or.inr (Or.inl rfl)
  · exact Or.inr (Or.inr (Or.inl rfl))
  · exact Or.inr (Or.inr (Or.inr rfl))
  · exact Or.inl ⟨.padding, rfl⟩

/-- The passes, one after the other, for a value in pixels. -/
theorem normalize_true (name : Text) :
    normalize name true =
      bracketed.replaceAll (pixels.replaceAll (paddingPixels.replaceAll
        (Scaling.side.pass.replaceAll (Scaling.border.pass.replaceAll name)))) := by
  have all : passes true = [Scaling.border.pass, Scaling.side.pass, paddingPixels, pixels,
      bracketed] := rfl
  rw [normalize, all, List.foldl_cons, List.foldl_cons, List.foldl_cons, List.foldl_cons,
    List.foldl_cons, List.foldl_nil]

/-- The passes for any other value: a padding is scaled once the others are done. -/
theorem normalize_false (name : Text) :
    normalize name false = Scaling.padding.pass.replaceAll (normalize name true) := by
  have more : passes false = passes true ++ [Scaling.padding.pass] := rfl
  rw [normalize, more, List.foldl_append, List.foldl_cons, List.foldl_nil, normalize]

/-! ### Classes that are left alone -/

/-- The lead of a class with brackets has no digit if the stem has none. -/
theorem noDigit_append_bracket {stem : Text} (noDigit : ∀ char ∈ stem, char.isDigit = false) :
    ∀ char ∈ stem ++ ['-', '['], char.isDigit = false := by
  have each : ∀ char ∈ ['-', '['], char.isDigit = false := by decide
  exact List.forall_mem_append.mpr ⟨noDigit, each⟩

/-- Where a unit is stripped, a digit has stood before it. -/
theorem Strips.exists_infix {lead rest text source replacement written : Text}
    {numeral : Numeral} (strips : Strips lead numeral rest text source replacement written) :
    ∃ digit, digit.isDigit = true ∧ [digit, 'p'] <:+: text := by
  obtain ⟨more, digit, spelt, isDigit⟩ := strips.wellFormed.exists_text_eq_concat
  refine ⟨digit, isDigit, lead ++ more, 'x' :: rest, ?_⟩
  rw [strips.spelt, spelt]
  simp [pixelUnit]

/-- Without a digit behind one of its stems, a scaling pass has nothing to do. -/
theorem Scaling.sweep_eq_self {scaling : Scaling} {text : Text}
    (absent : ∀ stem ∈ scaling.stems, ∀ digit, digit.isDigit = true →
      ¬ stem ++ [digit] <:+: text)
    (before : Option Char) : scaling.pass.sweep before text = text := by
  refine Matcher.sweep_eq_self_of_silent (fun before char rest suffix => ?_) before
  intro source replacement taken
  obtain ⟨stem, isStem, numeral, behind, scales⟩ := Scaling.exists_scales_of_taken taken
  obtain ⟨digit, more, spelt, isDigit⟩ := scales.wellFormed.exists_text_eq_cons
  have found : stem ++ [digit] <:+: char :: rest := by
    refine ⟨[], more ++ behind, ?_⟩
    rw [scales.spelt, spelt]
    simp
  exact absurd (found.trans suffix.isInfix) (absent stem isStem digit isDigit)

/-- The same holds of the pass that strips the unit of paddings. -/
theorem sweep_paddingPixels_eq_self {text : Text}
    (absent : ∀ stem ∈ Scaling.padding.stems, ∀ digit, digit.isDigit = true →
      ¬ stem ++ [digit] <:+: text)
    (before : Option Char) : paddingPixels.sweep before text = text := by
  refine Matcher.sweep_eq_self_of_silent (fun before char rest suffix => ?_) before
  intro source replacement taken
  obtain ⟨stem, isStem, numeral, behind, strips⟩ := exists_strips_of_paddingPixels taken
  obtain ⟨digit, more, spelt, isDigit⟩ := strips.wellFormed.exists_text_eq_cons
  have found : stem ++ [digit] <:+: char :: rest := by
    refine ⟨[], more ++ (pixelUnit ++ behind), ?_⟩
    rw [strips.spelt, spelt]
    simp
  exact absurd (found.trans suffix.isInfix) (absent stem isStem digit isDigit)

/-- Where no digit stands behind a hyphen, none stands behind a stem. -/
theorem Scaling.not_stem_infix {scaling : Scaling} {text : Text}
    (absent : ∀ digit, digit.isDigit = true → ¬ ['-', digit] <:+: text) :
    ∀ stem ∈ scaling.stems, ∀ digit, digit.isDigit = true → ¬ stem ++ [digit] <:+: text := by
  intro stem isStem digit isDigit found
  obtain ⟨lead, rfl⟩ := Scaling.exists_stem_eq_concat isStem
  refine absent digit isDigit (List.IsInfix.trans ⟨lead, [], ?_⟩ found)
  simp

/-- Without the unit of pixels behind a digit, no unit is stripped. -/
theorem sweep_pixels_eq_self {text : Text}
    (absent : ∀ digit, digit.isDigit = true → ¬ [digit, 'p'] <:+: text)
    (before : Option Char) : pixels.sweep before text = text := by
  refine Matcher.sweep_eq_self_of_silent (fun before char rest suffix => ?_) before
  intro source replacement taken
  obtain ⟨_, _, _, _, strips⟩ := exists_strips_of_pixels taken
  obtain ⟨digit, isDigit, found⟩ := strips.exists_infix
  exact absurd (found.trans suffix.isInfix) (absent digit isDigit)

/-- Without a digit behind an opening bracket, no bracket is dropped. -/
theorem sweep_bracketed_eq_self {text : Text}
    (absent : ∀ digit, digit.isDigit = true → ¬ ['[', digit] <:+: text)
    (before : Option Char) : bracketed.sweep before text = text := by
  refine Matcher.sweep_eq_self_of_silent (fun before char rest suffix => ?_) before
  intro source replacement taken
  obtain ⟨numeral, behind, wellFormed, spelt, _, _⟩ := bracketed_eq_some_iff.mp taken
  obtain ⟨digit, more, start, isDigit⟩ := wellFormed.exists_text_eq_cons
  have found : ['[', digit] <:+: char :: rest := by
    refine ⟨[], more ++ ']' :: behind, ?_⟩
    rw [spelt, start]
    simp
  exact absurd (found.trans suffix.isInfix) (absent digit isDigit)

/-- A class with no number behind a stem, before a unit or alone in brackets keeps its numbers. -/
theorem normalize_eq_self {text : Text} (hasPx : Bool)
    (noStem : ∀ scaling : Scaling, ∀ stem ∈ scaling.stems, ∀ digit, digit.isDigit = true →
      ¬ stem ++ [digit] <:+: text)
    (noUnit : ∀ digit, digit.isDigit = true → ¬ [digit, 'p'] <:+: text)
    (noBracket : ∀ digit, digit.isDigit = true → ¬ ['[', digit] <:+: text) :
    normalize text hasPx = text := by
  have common : normalize text true = text := by
    simp only [normalize_true, Matcher.replaceAll_eq_sweep,
      Scaling.sweep_eq_self (noStem .border), Scaling.sweep_eq_self (noStem .side),
      sweep_paddingPixels_eq_self (noStem .padding), sweep_pixels_eq_self noUnit,
      sweep_bracketed_eq_self noBracket]
  cases hasPx with
  | true => exact common
  | false =>
    rw [normalize_false, common, Matcher.replaceAll_eq_sweep,
      Scaling.sweep_eq_self (noStem .padding)]

end ClassNumber

end AtomicCss
