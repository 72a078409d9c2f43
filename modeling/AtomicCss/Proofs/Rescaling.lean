/-
This file settles when the passes over the numbers of a class leave its digits alone. Brackets
around a bare number are always dropped; everything else stays as it was exactly if no pass finds,
at any place of the class, a number that it would write differently. Such a place can be seen on the
text: a stem with a guarded numeral behind it, or a unit behind a digit at the end of a word.

One direction is clear. For the other one it has to be excluded that what one pass changes is
changed back by another. Every change of a scaling pass is behind a hyphen, and the two characters
before the hyphen say which pass it may be: behind one hyphen only one of them is at work. So the
stretches behind the hyphens of one pass are the same for all the others, up to brackets, and if
they come out unchanged the pass has changed nothing. The passes that strip units take away a
letter that no pass brings back.
-/

import AtomicCss.Proofs.LooseUnits

namespace AtomicCss

namespace ClassNumber

/-! ### Dropping brackets -/

/-- The second text is the first one, but for brackets around some bare numbers. -/
inductive DropsBrackets : Text → Text → Prop where
  | nil : DropsBrackets [] []
  | keep (char : Char) {text out : Text} (rest : DropsBrackets text out) :
      DropsBrackets (char :: text) (char :: out)
  | drop {numeral : Numeral} (wellFormed : numeral.WellFormed) {text out : Text}
      (rest : DropsBrackets text out) :
      DropsBrackets ('[' :: (numeral.text ++ ']' :: text)) (numeral.text ++ out)

theorem dropsBrackets_sweep_bracketed (before : Option Char) (text : Text) :
    DropsBrackets text (bracketed.sweep before text) := by
  have tiles := Matcher.tiles_piecesFrom bracketed_faithful before text
  rw [Matcher.sweep]
  generalize bracketed.piecesFrom before 0 text = pieces at tiles
  induction tiles with
  | done before => exact .nil
  | copied silent tiles inductionHypothesis => exact .keep _ inductionHypothesis
  | @matched before source rest replacement pieces nonempty taken tiles inductionHypothesis =>
    obtain ⟨numeral, behind, wellFormed, spelt, rfl, rfl⟩ := bracketed_eq_some_iff.mp taken
    have shape : '[' :: numeral.text ++ [']'] ++ rest = '[' :: (numeral.text ++ ']' :: rest) := by
      simp
    rw [shape]
    exact .drop wellFormed inductionHypothesis

/-! ### Hyphens and what stands behind them -/

/-- The characters by which the hyphens of the stems are told apart. -/
def isMark (char : Char) : Bool :=
  "-eptrblxy".toList.contains char

/-- The marks since the last other character, the last one first. -/
def passed (recent : Text) (char : Char) : Text :=
  if isMark char then char :: recent else []

/-- The pass that scales behind a hyphen, told by the marks before it. -/
def scalingBehind : (recent : Text) → Option Scaling
  | 'p' :: _ => some .padding
  | 'r' :: 'e' :: _ => some .border
  | side :: '-' :: _ => if isBorderSide side then some .side else none
  | side :: 'p' :: _ => if isPaddingSide side then some .padding else none
  | _ => none

/-- The text up to the next hyphen, without brackets. -/
def field (text : Text) : Text :=
  (text.takeWhile (· != '-')).filter fun char => char != '[' && char != ']'

/-- What stands behind the hyphens of one pass. -/
def fieldsBehind (scaling : Scaling) : (recent : Text) → Text → List Text
  | _, [] => []
  | recent, char :: rest =>
    (if char = '-' ∧ scalingBehind recent = some scaling then [field rest] else []) ++
      fieldsBehind scaling (passed recent char) rest

theorem field_hyphen (rest : Text) : field ('-' :: rest) = [] := rfl

theorem field_cons_congr {first second : Text} (same : field first = field second) (char : Char) :
    field (char :: first) = field (char :: second) := by
  by_cases hyphen : char = '-'
  · rw [hyphen, field_hyphen, field_hyphen]
  · unfold field at same ⊢
    simp only [List.takeWhile_cons, bne_iff_ne, ne_eq, hyphen, not_false_eq_true, if_true,
      List.filter_cons, same]

theorem field_append_hyphen (lead rest : Text) : field (lead ++ '-' :: rest) = field lead := by
  induction lead with
  | nil => rfl
  | cons char lead inductionHypothesis =>
    exact field_cons_congr inductionHypothesis char

/-- A number is part of the field that it starts. -/
theorem field_append_of_isNumberText {number rest : Text} (isNumber : IsNumberText number) :
    field (number ++ rest) = number ++ field rest := by
  have chars := isNumber.chars
  unfold field
  rw [List.takeWhile_append_of_pos, List.filter_append, List.filter_eq_self.mpr]
  · intro char member
    have notOpening : char ≠ '[' := by
      rintro rfl
      cases chars _ member
    have notClosing : char ≠ ']' := by
      rintro rfl
      cases chars _ member
    simp [notOpening, notClosing]
  · intro char member
    have notHyphen : char ≠ '-' := by
      rintro rfl
      cases chars _ member
    simpa using notHyphen

theorem fieldsBehind_append_hyphen (scaling : Scaling) (recent lead rest : Text) :
    fieldsBehind scaling recent (lead ++ '-' :: rest) =
      fieldsBehind scaling recent lead ++
        fieldsBehind scaling (lead.foldl passed recent) ('-' :: rest) := by
  induction lead generalizing recent with
  | nil => rfl
  | cons char lead inductionHypothesis =>
    rw [List.cons_append, fieldsBehind, inductionHypothesis, field_append_hyphen,
      ← List.append_assoc]
    rfl

/-- Other characters than marks hide the marks before them. -/
theorem fieldsBehind_cons_of_not_isMark {scaling : Scaling} {recent rest : Text} {char : Char}
    (neutral : isMark char = false) :
    fieldsBehind scaling recent (char :: rest) = fieldsBehind scaling [] rest := by
  have notHyphen : char ≠ '-' := by
    rintro rfl
    cases neutral
  rw [fieldsBehind, passed, neutral, if_neg fun both => notHyphen both.1, List.nil_append]
  rfl

theorem isMark_of_isNumberChar {char : Char} (isNumber : isNumberChar char = true) :
    isMark char = false := by
  by_contra marked
  rw [Bool.not_eq_false] at marked
  have each : ∀ mark ∈ "-eptrblxy".toList, isNumberChar mark = false := by decide
  rw [each char (List.contains_iff_mem.mp marked)] at isNumber
  cases isNumber

theorem fieldsBehind_append_of_isNumberText {scaling : Scaling} {recent number rest : Text}
    (isNumber : IsNumberText number) :
    fieldsBehind scaling recent (number ++ rest) = fieldsBehind scaling [] rest := by
  have chars := isNumber.chars
  obtain ⟨char, more, rfl⟩ := List.exists_cons_of_ne_nil isNumber.nonempty
  have first := isMark_of_isNumberChar (chars char List.mem_cons_self)
  rw [List.cons_append, fieldsBehind_cons_of_not_isMark first]
  have others : ∀ other ∈ more, isMark other = false := fun other member =>
    isMark_of_isNumberChar (chars other (List.mem_cons_of_mem char member))
  clear chars first isNumber
  induction more with
  | nil => rfl
  | cons next more inductionHypothesis =>
    rw [List.cons_append, fieldsBehind_cons_of_not_isMark (others next List.mem_cons_self)]
    exact inductionHypothesis fun other member => others other (List.mem_cons_of_mem next member)

/-- The marks of a stem single out its pass, whatever stands before the stem. -/
theorem Scaling.exists_scalingBehind {scaling : Scaling} {stem : Text}
    (isStem : stem ∈ scaling.stems) :
    ∃ lead, stem = lead ++ ['-'] ∧
      ∀ recent, scalingBehind (lead.foldl passed recent) = some scaling := by
  refine ⟨stem.dropLast, ?_, fun recent => ?_⟩
  · obtain ⟨lead, rfl⟩ := Scaling.exists_stem_eq_concat isStem
    rw [List.dropLast_concat]
  · cases scaling with
    | border =>
      obtain rfl := List.mem_singleton.mp isStem
      rfl
    | side =>
      obtain ⟨side, isSide, rfl⟩ := List.mem_map.mp isStem
      have sides : side = 'x' ∨ side = 'y' ∨ side = 'l' ∨ side = 'r' ∨ side = 't' ∨ side = 'b' := by
        simpa using isSide
      rcases sides with rfl | rfl | rfl | rfl | rfl | rfl <;> rfl
    | padding =>
      rcases List.mem_cons.mp isStem with rfl | isStem
      · rfl
      · obtain ⟨side, isSide, rfl⟩ := List.mem_map.mp isStem
        have sides : side = 't' ∨ side = 'r' ∨ side = 'b' ∨ side = 'l' ∨ side = 'x' ∨
            side = 'y' := by
          simpa using isSide
        rcases sides with rfl | rfl | rfl | rfl | rfl | rfl <;> rfl

/-- A stem and a number add a field to those of their own pass and none to those of another. -/
theorem fieldsBehind_stem {scaling site : Scaling} {stem number rest recent : Text}
    (isStem : stem ∈ scaling.stems) (isNumber : IsNumberText number) :
    fieldsBehind site recent (stem ++ (number ++ rest)) =
      fieldsBehind site recent stem.dropLast ++
        ((if scaling = site then [number ++ field rest] else []) ++
          fieldsBehind site [] rest) := by
  obtain ⟨lead, rfl, behind⟩ := Scaling.exists_scalingBehind isStem
  have joined : lead ++ ['-'] ++ (number ++ rest) = lead ++ '-' :: (number ++ rest) := by simp
  rw [joined, fieldsBehind_append_hyphen, List.dropLast_concat, fieldsBehind, behind,
    fieldsBehind_append_of_isNumberText isNumber, field_append_of_isNumberText isNumber]
  simp only [true_and, Option.some.injEq]

/-! ### Scaling passes and fields -/

section Tiles

variable {scaling : Scaling} {before : Option Char} {text : Text} {pieces : List (Piece Text)}

/-- The number that a scaling pass meets is not in the field that the text starts with. -/
theorem field_of_tiles (tiles : scaling.pass.Tiles before text pieces) :
    field (pieces.flatMap Piece.replacement) = field text := by
  induction tiles with
  | done before => rfl
  | @copied before char rest pieces silent tiles inductionHypothesis =>
    exact field_cons_congr inductionHypothesis char
  | @matched before source rest replacement pieces nonempty taken tiles inductionHypothesis =>
    obtain ⟨stem, isStem, numeral, behind, scales⟩ := Scaling.exists_scales_of_taken taken
    obtain ⟨lead, rfl⟩ := Scaling.exists_stem_eq_concat isStem
    have joined (first second : Text) :
        lead ++ ['-'] ++ first ++ second = lead ++ '-' :: (first ++ second) := by
      rw [List.append_assoc, List.append_assoc, List.singleton_append]
    rw [List.flatMap_cons, Piece.replacement, scales.replacement_eq, scales.source_eq, joined,
      joined, field_append_hyphen, field_append_hyphen]

/-- A scaling pass leaves alone what stands behind the hyphens of another one. -/
theorem fieldsBehind_of_tiles (tiles : scaling.pass.Tiles before text pieces) {site : Scaling}
    (different : scaling ≠ site) (recent : Text) :
    fieldsBehind site recent (pieces.flatMap Piece.replacement) =
      fieldsBehind site recent text := by
  induction tiles generalizing recent with
  | done before => rfl
  | @copied before char rest pieces silent tiles inductionHypothesis =>
    show fieldsBehind site recent (char :: pieces.flatMap Piece.replacement) = _
    rw [fieldsBehind, fieldsBehind, field_of_tiles tiles, inductionHypothesis]
  | @matched before source rest replacement pieces nonempty taken tiles inductionHypothesis =>
    obtain ⟨stem, isStem, numeral, behind, scales⟩ := Scaling.exists_scales_of_taken taken
    rw [List.flatMap_cons, Piece.replacement, scales.replacement_eq, scales.source_eq,
      List.append_assoc, List.append_assoc,
      fieldsBehind_stem isStem (isNumberText_quadrupled numeral),
      fieldsBehind_stem isStem scales.wellFormed.isNumberText, if_neg different,
      if_neg different, inductionHypothesis]

/-- If nothing has changed behind the hyphens of a pass, the pass gave back what it took. -/
theorem kept_of_fieldsBehind_eq (tiles : scaling.pass.Tiles before text pieces) {recent : Text}
    (same : fieldsBehind scaling recent (pieces.flatMap Piece.replacement) =
      fieldsBehind scaling recent text) :
    ∀ piece ∈ pieces, piece.replacement = piece.source := by
  induction tiles generalizing recent with
  | done before => simp
  | @copied before char rest pieces silent tiles inductionHypothesis =>
    have whole : fieldsBehind scaling recent (char :: pieces.flatMap Piece.replacement) =
        fieldsBehind scaling recent (char :: rest) := same
    rw [fieldsBehind, fieldsBehind, field_of_tiles tiles] at whole
    intro piece member
    rcases List.mem_cons.mp member with rfl | member
    · rfl
    · exact inductionHypothesis (List.append_cancel_left whole) piece member
  | @matched before source rest replacement pieces nonempty taken tiles inductionHypothesis =>
    obtain ⟨stem, isStem, numeral, behind, scales⟩ := Scaling.exists_scales_of_taken taken
    rw [List.flatMap_cons, Piece.replacement, scales.replacement_eq, scales.source_eq,
      List.append_assoc, List.append_assoc,
      fieldsBehind_stem isStem (isNumberText_quadrupled numeral),
      fieldsBehind_stem isStem scales.wellFormed.isNumberText, if_pos rfl, if_pos rfl,
      field_of_tiles tiles] at same
    obtain ⟨first, others⟩ := List.cons.inj (List.append_cancel_left same)
    intro piece member
    rcases List.mem_cons.mp member with rfl | member
    · show replacement = source
      rw [scales.replacement_eq, scales.source_eq, List.append_cancel_right first]
    · exact inductionHypothesis others piece member

/-- A scaling pass neither takes nor brings a unit. -/
theorem count_of_tiles (tiles : scaling.pass.Tiles before text pieces) :
    (pieces.flatMap Piece.replacement).count 'p' = text.count 'p' := by
  induction tiles with
  | done before => rfl
  | @copied before char rest pieces silent tiles inductionHypothesis =>
    show (char :: pieces.flatMap Piece.replacement).count 'p' = _
    rw [List.count_cons, List.count_cons, inductionHypothesis]
  | @matched before source rest replacement pieces nonempty taken tiles inductionHypothesis =>
    obtain ⟨stem, isStem, numeral, behind, scales⟩ := Scaling.exists_scales_of_taken taken
    have written : (quadrupled numeral).count 'p' = 0 :=
      List.count_eq_zero.mpr ((isNumberText_quadrupled numeral).not_mem (by decide))
    have taken : numeral.text.count 'p' = 0 :=
      List.count_eq_zero.mpr (scales.wellFormed.isNumberText.not_mem (by decide))
    rw [List.flatMap_cons, Piece.replacement, scales.replacement_eq, scales.source_eq]
    simp only [List.count_append, inductionHypothesis, written, taken]

end Tiles

/-- Inside a stem no other stem of the same pass starts, and none starts inside a numeral. -/
theorem Scaling.pass_separate (scaling : Scaling) : scaling.pass.Separate := by
  intro before source rest replacement lead char more taken spelt nonempty source' replacement'
    taken'
  obtain ⟨stem, isStem, numeral, behind, scales⟩ := Scaling.exists_scales_of_taken taken
  obtain ⟨stem', isStem', numeral', behind', scales'⟩ := Scaling.exists_scales_of_taken taken'
  have noNumber : ∀ stem ∈ scaling.stems, stem ≠ [] ∧ ∀ char ∈ stem, isNumberChar char = false := by
    cases scaling <;> decide
  have noStart : ∀ stem ∈ scaling.stems, ∀ stem' ∈ scaling.stems, ∀ tail ∈ stem.tails.tail,
      tail ≠ [] → ¬ tail <+: stem' ∧ ¬ stem' <+: tail := by
    cases scaling <;> decide
  obtain ⟨first, others, rfl⟩ := List.exists_cons_of_ne_nil (noNumber stem' isStem').1
  have starts : char :: (more ++ rest) = first :: others ++ (numeral'.text ++ behind') :=
    scales'.spelt
  obtain ⟨rfl, _⟩ := List.cons.inj starts
  have notInNumeral : char ∉ numeral.text :=
    scales.wellFormed.isNumberText.not_mem ((noNumber _ isStem').2 char List.mem_cons_self)
  rw [scales.source_eq] at spelt
  rcases List.append_eq_append_iff.mp spelt with ⟨spare, _, inside⟩ | ⟨tail, stem_eq, inside⟩
  · exact absurd (by rw [inside]; simp) notInNumeral
  · cases tail with
    | nil => exact absurd (by rw [← List.nil_append numeral.text, ← inside]; simp) notInNumeral
    | cons next tail =>
      obtain ⟨rfl, rfl⟩ : char = next ∧ more = tail ++ numeral.text := List.cons.inj inside
      obtain ⟨front, lead, rfl⟩ := List.exists_cons_of_ne_nil nonempty
      have isTail : char :: tail ∈ stem.tails.tail := by
        rw [stem_eq, List.cons_append, List.tails, List.tail_cons, List.mem_tails]
        exact List.suffix_append lead _
      obtain ⟨short, long⟩ := noStart stem isStem _ isStem' _ isTail (List.cons_ne_nil _ _)
      have leads : char :: tail <+: char :: (tail ++ numeral.text ++ rest) :=
        ⟨numeral.text ++ rest, by simp⟩
      have leads' : char :: others <+: char :: (tail ++ numeral.text ++ rest) :=
        ⟨numeral'.text ++ behind', starts.symm⟩
      rcases List.prefix_or_prefix_of_prefix leads leads' with first | second
      · exact absurd first short
      · exact absurd second long

/-! ### Brackets and fields -/

namespace DropsBrackets

variable {text out : Text} (drops : DropsBrackets text out)

include drops in
theorem field_eq : field text = field out := by
  induction drops with
  | nil => rfl
  | @keep char text out rest inductionHypothesis =>
    exact field_cons_congr inductionHypothesis char
  | @drop numeral wellFormed text out rest inductionHypothesis =>
    have opening (rest : Text) : field ('[' :: rest) = field rest := rfl
    have closing (rest : Text) : field (']' :: rest) = field rest := rfl
    rw [opening, field_append_of_isNumberText wellFormed.isNumberText, closing,
      field_append_of_isNumberText wellFormed.isNumberText, inductionHypothesis]

include drops in
/-- Dropping brackets leaves alone what stands behind hyphens, brackets aside. -/
theorem fieldsBehind_eq (scaling : Scaling) (recent : Text) :
    fieldsBehind scaling recent text = fieldsBehind scaling recent out := by
  induction drops generalizing recent with
  | nil => rfl
  | @keep char text out rest inductionHypothesis =>
    rw [fieldsBehind, fieldsBehind, rest.field_eq, inductionHypothesis]
  | @drop numeral wellFormed text out rest inductionHypothesis =>
    rw [fieldsBehind_cons_of_not_isMark (by decide),
      fieldsBehind_append_of_isNumberText wellFormed.isNumberText,
      fieldsBehind_cons_of_not_isMark (by decide),
      fieldsBehind_append_of_isNumberText wellFormed.isNumberText, inductionHypothesis]

include drops in
theorem count_eq : text.count 'p' = out.count 'p' := by
  induction drops with
  | nil => rfl
  | keep char rest inductionHypothesis =>
    rw [List.count_cons, List.count_cons, inductionHypothesis]
  | drop wellFormed rest inductionHypothesis =>
    rw [List.count_cons_of_ne (by decide), List.count_append, List.count_cons_of_ne (by decide),
      List.count_append, inductionHypothesis]

end DropsBrackets

/-! ### Passes that strip units -/

/-- A number in pixels loses the letters of its unit. -/
theorem Strips.count_lt {lead rest text source replacement written : Text} {numeral : Numeral}
    (strips : Strips lead numeral rest text source replacement written)
    (noUnit : 'p' ∉ written) : replacement.count 'p' < source.count 'p' := by
  have nothing : written.count 'p' = 0 := List.count_eq_zero.mpr noUnit
  have unit : pixelUnit.count 'p' = 1 := by decide
  rw [strips.replacement_eq, strips.source_eq]
  simp only [List.count_append, nothing, unit]
  omega

theorem paddingPixels_reduces : paddingPixels.Reduces (· == 'p') := by
  intro before text source replacement taken _
  obtain ⟨_, _, numeral, _, strips⟩ := exists_strips_of_paddingPixels taken
  exact strips.count_lt ((isNumberText_roundedText_one numeral).not_mem (by decide))

theorem pixels_reduces : pixels.Reduces (· == 'p') := by
  intro before text source replacement taken _
  obtain ⟨_, _, numeral, _, strips⟩ := exists_strips_of_pixels taken
  exact strips.count_lt (strips.wellFormed.isNumberText.not_mem (by decide))

/-! ### Alterations on the text -/

/-- Somewhere in the text a stem of the pass stands, that of a border at the start of a word, and the
guarded numeral behind it is not what four times its value is written as. -/
def Scaling.HasNumber (scaling : Scaling) (text : Text) : Prop :=
  ∃ (lead stem : Text) (numeral : Numeral) (rest : Text),
    text = lead ++ (stem ++ (numeral.text ++ rest)) ∧ stem ∈ scaling.stems ∧
      (scaling = .padding ∨ startsWord lead.getLast? = true) ∧ numeral.Guarded rest ∧
      (numeral.value * Binary64.ofNat 4).roundedText ≠ numeral.text

theorem Scaling.startsBehind_iff {scaling : Scaling} {before : Option Char} :
    scaling.startsBehind before = true ↔ scaling = .padding ∨ startsWord before = true := by
  cases scaling <;> simp [startsBehind]

/-- Whether a scaling pass finds a number that it would write differently can be seen on the text. -/
theorem Scaling.alters_iff_hasNumber (scaling : Scaling) {text : Text} :
    scaling.pass.Alters none text ↔ scaling.HasNumber text := by
  constructor
  · rintro ⟨lead, source, rest, replacement, rfl, taken, _, different⟩
    obtain ⟨starts, stem, isStem, numeral, behind, spelt, guarded, rfl, rfl⟩ :=
      pass_eq_some_iff.mp taken
    rw [Matcher.lastOf_none, startsBehind_iff] at starts
    refine ⟨lead, stem, numeral, behind, by rw [spelt], isStem, starts, guarded, fun same => ?_⟩
    exact different (by rw [quadrupled, same])
  · rintro ⟨lead, stem, numeral, rest, rfl, isStem, starts, guarded, different⟩
    rw [← startsBehind_iff, ← Matcher.lastOf_none] at starts
    refine ⟨lead, stem ++ numeral.text, rest, stem ++ quadrupled numeral,
      by rw [List.append_assoc], pass_eq_some_iff.mpr ⟨starts, stem, isStem, numeral, rest,
        List.append_assoc _ _ _, guarded, rfl, rfl⟩, ?_, fun same => ?_⟩
    · exact List.append_ne_nil_of_right_ne_nil _ guarded.wellFormed.text_ne_nil
    · exact different (List.append_cancel_left same)

/-- No pass finds a number that it would write differently exactly if the text has no loose unit and
no number to scale, where paddings are looked for in the text with the brackets dropped. -/
theorem not_alters_iff {name : Text} :
    ((∀ pass ∈ [border, borderSide, paddingPixels, pixels], ¬ pass.Alters none name) ∧
        ¬ padding.Alters none (bracketed.replaceAll name)) ↔
      ¬ HasLooseUnit name ∧ ¬ Scaling.border.HasNumber name ∧ ¬ Scaling.side.HasNumber name ∧
        ¬ Scaling.padding.HasNumber (bracketed.replaceAll name) := by
  have onAll : border.Alters none name ↔ Scaling.border.HasNumber name :=
    Scaling.alters_iff_hasNumber .border
  have onSide : borderSide.Alters none name ↔ Scaling.side.HasNumber name :=
    Scaling.alters_iff_hasNumber .side
  have onPadding : padding.Alters none (bracketed.replaceAll name) ↔
      Scaling.padding.HasNumber (bracketed.replaceAll name) :=
    Scaling.alters_iff_hasNumber .padding
  simp only [List.forall_mem_cons, List.not_mem_nil, false_implies, implies_true, and_true, onAll,
    onSide, alters_pixels_iff, onPadding]
  constructor
  · rintro ⟨⟨noBorder, noSide, _, noUnit⟩, noPadding⟩
    exact ⟨noUnit, noBorder, noSide, noPadding⟩
  · rintro ⟨noUnit, noBorder, noSide, noPadding⟩
    exact ⟨⟨noBorder, noSide, fun alters => noUnit (hasLooseUnit_of_alters_paddingPixels alters),
      noUnit⟩, noPadding⟩

/-! ### All passes -/

section Normalize

variable {name : Text}

/-- A scaling pass that changes nothing behind its hyphens has found nothing to change. -/
theorem Scaling.not_alters_of_fieldsBehind_eq {scaling : Scaling}
    (same : fieldsBehind scaling [] (scaling.pass.sweep none name) =
      fieldsBehind scaling [] name) :
    ¬ scaling.pass.Alters none name ∧ scaling.pass.sweep none name = name := by
  have tiles := Matcher.tiles_piecesFrom scaling.pass_faithful none name
  have kept := kept_of_fieldsBehind_eq tiles same
  exact ⟨tiles.not_alters scaling.pass_separate kept,
    Matcher.sweep_eq_self_of_kept scaling.pass_faithful kept⟩

/-- Units are counted by their letter: if none is lost in the end, none was stripped. -/
theorem silentOver_units_of_dropsBrackets (drops : DropsBrackets name (normalize name false)) :
    paddingPixels.SilentOver none
        (Scaling.side.pass.sweep none (Scaling.border.pass.sweep none name)) [] ∧
      pixels.SilentOver none
        (Scaling.side.pass.sweep none (Scaling.border.pass.sweep none name)) [] := by
  have countName := drops.count_eq
  rw [normalize_false, normalize_true] at countName
  simp only [Matcher.replaceAll_eq_sweep] at countName
  have scaled (scaling : Scaling) (text : Text) :
      (scaling.pass.sweep none text).count 'p' = text.count 'p' :=
    count_of_tiles (Matcher.tiles_piecesFrom scaling.pass_faithful none text)
  have bare (text : Text) := (dropsBrackets_sweep_bracketed none text).count_eq
  rw [scaled .padding, ← bare] at countName
  generalize onSides : Scaling.side.pass.sweep none (Scaling.border.pass.sweep none name) = sides
    at countName ⊢
  have countSides : sides.count 'p' = name.count 'p' := by rw [← onSides, scaled, scaled]
  have paddingsTiles := Matcher.tiles_piecesFrom paddingPixels_faithful none sides
  have countPaddings : (paddingPixels.sweep none sides).count 'p' ≤ sides.count 'p' :=
    paddingsTiles.countP_le paddingPixels_reduces
  have unitsTiles := Matcher.tiles_piecesFrom pixels_faithful none (paddingPixels.sweep none sides)
  have countUnits : (pixels.sweep none (paddingPixels.sweep none sides)).count 'p' ≤
      (paddingPixels.sweep none sides).count 'p' :=
    unitsTiles.countP_le pixels_reduces
  have paddingsSilent : paddingPixels.SilentOver none sides [] := by
    refine paddingsTiles.silentOver paddingPixels_reduces ?_
    show sides.count 'p' ≤ (paddingPixels.sweep none sides).count 'p'
    omega
  have unitsSilent := unitsTiles.silentOver pixels_reduces (by
    show (paddingPixels.sweep none sides).count 'p' ≤
      (pixels.sweep none (paddingPixels.sweep none sides)).count 'p'
    omega)
  rw [Matcher.sweep_eq_self_of_silentOver paddingsSilent] at unitsSilent
  exact ⟨paddingsSilent, unitsSilent⟩

/-- If the class comes out with nothing but brackets missing, no pass has found a number that it
would write differently. -/
theorem not_alters_of_dropsBrackets (drops : DropsBrackets name (normalize name false)) :
    (∀ pass ∈ [border, borderSide, paddingPixels, pixels], ¬ pass.Alters none name) ∧
      ¬ padding.Alters none (bracketed.replaceAll name) := by
  obtain ⟨paddingsSilent, unitsSilent⟩ := silentOver_units_of_dropsBrackets drops
  rw [normalize_false, normalize_true] at drops
  simp only [Matcher.replaceAll_eq_sweep] at drops ⊢
  rw [Matcher.sweep_eq_self_of_silentOver paddingsSilent,
    Matcher.sweep_eq_self_of_silentOver unitsSilent] at drops
  generalize onAll : Scaling.border.pass.sweep none name = all at drops paddingsSilent unitsSilent
  generalize onSide : Scaling.side.pass.sweep none all = sides at drops paddingsSilent unitsSilent
  generalize onBrackets : bracketed.sweep none sides = bare at drops
  have dropped : DropsBrackets sides bare := onBrackets ▸ dropsBrackets_sweep_bracketed none sides
  -- Behind the hyphens of one scaling pass no other pass has changed anything.
  have fields {scaling site : Scaling} (different : scaling ≠ site) (text : Text) :
      fieldsBehind site [] (scaling.pass.sweep none text) = fieldsBehind site [] text :=
    fieldsBehind_of_tiles (Matcher.tiles_piecesFrom scaling.pass_faithful none text) different []
  have bareFields (site : Scaling) : fieldsBehind site [] sides = fieldsBehind site [] bare :=
    dropped.fieldsBehind_eq site []
  have outFields (site : Scaling) := drops.fieldsBehind_eq site []
  have allSame : fieldsBehind .border [] all = fieldsBehind .border [] name := by
    rw [outFields, fields (by decide), ← bareFields, ← onSide, fields (by decide)]
  rw [← onAll] at allSame
  obtain ⟨noBorder, unchanged⟩ := Scaling.not_alters_of_fieldsBehind_eq allSame
  obtain rfl : all = name := by rw [← onAll, unchanged]
  have sidesSame : fieldsBehind .side [] sides = fieldsBehind .side [] all := by
    rw [outFields, fields (by decide), ← bareFields]
  rw [← onSide] at sidesSame
  obtain ⟨noSide, unchanged⟩ := Scaling.not_alters_of_fieldsBehind_eq sidesSame
  obtain rfl : sides = all := by rw [← onSide, unchanged]
  have bareSame : fieldsBehind .padding [] (Scaling.padding.pass.sweep none bare) =
      fieldsBehind .padding [] bare := by
    rw [← outFields, bareFields]
  obtain ⟨noPadding, _⟩ := Scaling.not_alters_of_fieldsBehind_eq bareSame
  refine ⟨fun pass member => ?_, onBrackets ▸ noPadding⟩
  simp only [List.mem_cons, List.not_mem_nil, or_false] at member
  rcases member with rfl | rfl | rfl | rfl
  · exact noBorder
  · exact noSide
  · exact Matcher.not_alters_of_silentOver paddingsSilent
  · exact Matcher.not_alters_of_silentOver unitsSilent

/-- A class in which no pass finds a number to change loses brackets at most. -/
theorem dropsBrackets_of_not_alters
    (same : ∀ pass ∈ [border, borderSide, paddingPixels, pixels], ¬ pass.Alters none name)
    (samePadding : ¬ padding.Alters none (bracketed.replaceAll name)) :
    DropsBrackets name (normalize name false) := by
  have onAll : Scaling.border.pass.sweep none name = name :=
    Matcher.sweep_eq_self_of_not_alters (Scaling.pass_faithful .border) (same border (by simp))
  have onSide : Scaling.side.pass.sweep none name = name :=
    Matcher.sweep_eq_self_of_not_alters (Scaling.pass_faithful .side) (same borderSide (by simp))
  have onPaddings : paddingPixels.sweep none name = name :=
    Matcher.sweep_eq_self_of_not_alters paddingPixels_faithful (same paddingPixels (by simp))
  have onUnits : pixels.sweep none name = name :=
    Matcher.sweep_eq_self_of_not_alters pixels_faithful (same pixels (by simp))
  have onPadding : Scaling.padding.pass.sweep none (bracketed.sweep none name) =
      bracketed.sweep none name :=
    Matcher.sweep_eq_self_of_not_alters (Scaling.pass_faithful .padding) samePadding
  rw [normalize_false, normalize_true]
  simp only [Matcher.replaceAll_eq_sweep]
  rw [onAll, onSide, onPaddings, onUnits, onPadding]
  exact dropsBrackets_sweep_bracketed none name

/-- A class loses brackets at most exactly if it has no loose unit and no number to scale. -/
theorem dropsBrackets_normalize_iff :
    DropsBrackets name (normalize name false) ↔
      ¬ HasLooseUnit name ∧ ¬ Scaling.border.HasNumber name ∧ ¬ Scaling.side.HasNumber name ∧
        ¬ Scaling.padding.HasNumber (bracketed.replaceAll name) := by
  rw [← not_alters_iff]
  exact ⟨not_alters_of_dropsBrackets, fun unaltered =>
    dropsBrackets_of_not_alters unaltered.1 unaltered.2⟩

end Normalize

end ClassNumber

/-! ### Declarations without pixels and references -/

/-- The class of a declaration without pixels and without references keeps all its digits exactly
if no pass finds a number in it that it would write differently. -/
theorem Declaration.dropsBrackets_finish_iff (declaration : Declaration) (isRem : Bool)
    (noPixels : ¬ ClassNumber.pixelUnit <:+: Comment.strip declaration.value)
    (noReference : ¬ Variable.opening <:+: Comment.strip declaration.value) :
    ClassNumber.DropsBrackets (declaration.prepare isRem BuiltIn.generate).generated
        (declaration.prepare isRem BuiltIn.generate).finish ↔
      (∀ pass ∈ [ClassNumber.border, ClassNumber.borderSide, ClassNumber.paddingPixels,
          ClassNumber.pixels],
        ¬ pass.Alters none (declaration.prepare isRem BuiltIn.generate).generated) ∧
      ¬ ClassNumber.padding.Alters none (ClassNumber.bracketed.replaceAll
          (declaration.prepare isRem BuiltIn.generate).generated) := by
  have noOpening : ¬ Variable.opening <:+: (Comment.strip declaration.value).trim := fun found =>
    noReference (found.trans (Text.trim_infix _))
  have notInPixels : Text.contains "px".toList
      (Text.trim (Variable.resolve (Comment.strip declaration.value).trim)) = false := by
    rw [Variable.resolve_eq_self noOpening, ← Bool.not_eq_true, Text.contains_eq_true_iff]
    exact fun found =>
      noPixels (found.trans ((Text.trim_infix _).trans (Text.trim_infix _)))
  have finish_eq : (declaration.prepare isRem BuiltIn.generate).finish =
      ClassNumber.normalize (declaration.prepare isRem BuiltIn.generate).generated false := by
    simp only [Declaration.prepare, Prepared.finish, Variable.uses_eq_nil noOpening, notInPixels]
    rfl
  rw [finish_eq]
  exact ⟨ClassNumber.not_alters_of_dropsBrackets, fun unaltered =>
    ClassNumber.dropsBrackets_of_not_alters unaltered.1 unaltered.2⟩

/-- A gap of four loses its digit: the last letter of its stem with the hyphen behind it reads as
the stem of a padding. -/
theorem Declaration.not_dropsBrackets_finish_gap :
    ¬ ClassNumber.DropsBrackets
      (Declaration.prepare ⟨"gap".toList, "4".toList⟩ false BuiltIn.generate).generated
      (Declaration.prepare ⟨"gap".toList, "4".toList⟩ false BuiltIn.generate).finish := by
  intro drops
  have same := ((Declaration.dropsBrackets_finish_iff ⟨"gap".toList, "4".toList⟩ false (by decide)
    (by decide)).mp drops).2
  refine same ⟨"ga".toList, "p-4".toList, [], "p-16".toList, ?_, ?_, by decide, by decide⟩
  · decide +kernel
  · decide +kernel

end AtomicCss
