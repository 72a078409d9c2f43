/-
This file settles when bringing a class to scale twice is the same as bringing it to scale once.
Units and brackets are dropped in one sweep each, and what a sweep writes is not read again. A
number that loses its brackets may come to stand right before a unit, or be all that is left in the
brackets around them: units and numbers hidden in this way come to light only in the result, and a
second run goes on with them. Where nothing is hidden, the result has no unit and no number alone in
brackets left, and a second run finds nothing to do.
-/

import AtomicCss.Proofs.Rescaling

namespace AtomicCss

open PixelLength

namespace ClassNumber

/-! ### Numbers alone in brackets -/

/-- Some number of the text is alone in brackets. -/
def HasBracketedNumber (text : Text) : Prop :=
  ∃ (lead : Text) (numeral : Numeral) (rest : Text), numeral.WellFormed ∧
    text = lead ++ '[' :: (numeral.text ++ ']' :: rest)

theorem not_hasBracketedNumber_nil : ¬ HasBracketedNumber [] := by
  rintro ⟨lead, numeral, rest, _, spelt⟩
  simp at spelt

theorem hasBracketedNumber_cons {char : Char} {text : Text} :
    HasBracketedNumber (char :: text) ↔
      (∃ (numeral : Numeral) (rest : Text), numeral.WellFormed ∧
        char :: text = '[' :: (numeral.text ++ ']' :: rest)) ∨ HasBracketedNumber text := by
  constructor
  · rintro ⟨lead, numeral, rest, wellFormed, spelt⟩
    cases lead with
    | nil => exact Or.inl ⟨numeral, rest, wellFormed, spelt⟩
    | cons first lead => exact Or.inr ⟨lead, numeral, rest, wellFormed, (List.cons.inj spelt).2⟩
  · rintro (⟨numeral, rest, wellFormed, spelt⟩ | ⟨lead, numeral, rest, wellFormed, rfl⟩)
    · exact ⟨[], numeral, rest, wellFormed, spelt⟩
    · exact ⟨char :: lead, numeral, rest, wellFormed, rfl⟩

/-- Brackets open only before brackets. -/
theorem hasBracketedNumber_append {lead text : Text} (noBracket : '[' ∉ lead) :
    HasBracketedNumber (lead ++ text) ↔ HasBracketedNumber text := by
  induction lead with
  | nil => rfl
  | cons char lead inductionHypothesis =>
    have behind := inductionHypothesis fun member => noBracket (List.mem_cons_of_mem char member)
    rw [List.cons_append, hasBracketedNumber_cons, behind]
    refine or_iff_right ?_
    rintro ⟨_, _, _, spelt⟩
    exact noBracket ((List.cons.inj spelt).1 ▸ List.mem_cons_self)

theorem silent_bracketed_iff {before : Option Char} {text : Text} :
    bracketed.Silent before text ↔
      ¬ ∃ (numeral : Numeral) (rest : Text), numeral.WellFormed ∧
        text = '[' :: (numeral.text ++ ']' :: rest) := by
  constructor
  · rintro silent ⟨numeral, rest, wellFormed, spelt⟩
    have taken : bracketed before text = some ('[' :: numeral.text ++ [']'], numeral.text) :=
      bracketed_eq_some_iff.mpr ⟨numeral, rest, wellFormed, spelt, rfl, rfl⟩
    exact absurd (silent _ _ taken) (List.cons_ne_nil _ _)
  · intro absent source replacement taken
    obtain ⟨numeral, rest, wellFormed, spelt, _⟩ := bracketed_eq_some_iff.mp taken
    exact absurd ⟨numeral, rest, wellFormed, spelt⟩ absent

theorem bracketed_reduces : bracketed.Reduces (· == '[') := by
  intro before text source replacement taken _
  obtain ⟨numeral, rest, wellFormed, _, rfl, rfl⟩ := bracketed_eq_some_iff.mp taken
  rw [List.cons_append, List.countP_cons_of_pos rfl, List.countP_append]
  omega

/-- Dropping brackets changes a text exactly if there is a number alone in brackets. -/
theorem sweep_bracketed_eq_self_iff {before : Option Char} {text : Text} :
    bracketed.sweep before text = text ↔ ¬ HasBracketedNumber text := by
  constructor
  · rintro same ⟨lead, numeral, rest, wellFormed, spelt⟩
    have silent : bracketed.SilentOver before text [] :=
      (Matcher.tiles_piecesFrom bracketed_faithful before text).silentOver bracketed_reduces
        (Nat.le_of_eq (congrArg (List.countP (· == '[')) same.symm))
    rw [spelt] at silent
    have here := (Matcher.silentOver_append.mp silent).2.1
    rw [List.append_nil] at here
    exact silent_bracketed_iff.mp here ⟨numeral, rest, wellFormed, rfl⟩
  · intro absent
    refine Matcher.sweep_eq_self_of_silent (fun before char rest suffix => ?_) before
    rw [silent_bracketed_iff]
    rintro ⟨numeral, behind, wellFormed, spelt⟩
    obtain ⟨lead, whole⟩ := suffix
    exact absent ⟨lead, numeral, behind, wellFormed, by rw [← whole, spelt]⟩

/-! ### Classes that are at scale already -/

/-- Without border widths, units are dropped first and brackets last. -/
theorem normalize_true_of_still {name : Text}
    (still : ∀ pass ∈ [border, borderSide], pass.replaceAll name = name) :
    normalize name true =
      bracketed.sweep none (pixels.sweep none (paddingPixels.sweep none name)) := by
  have onAll : Scaling.border.pass.replaceAll name = name := still border (by simp)
  have onSide : Scaling.side.pass.replaceAll name = name := still borderSide (by simp)
  rw [normalize_true, onAll, onSide]
  rfl

/-- A class without border widths stays as it is exactly if it has no unit to lose and no brackets
to drop. -/
theorem normalize_eq_self_iff {name : Text}
    (still : ∀ pass ∈ [border, borderSide], pass.replaceAll name = name) :
    normalize name true = name ↔ ¬ HasLooseUnit name ∧ ¬ HasBracketedNumber name := by
  rw [normalize_true_of_still still]
  constructor
  · intro same
    -- A unit that is lost never comes back, so none was lost on the way.
    have paddingsTiles := Matcher.tiles_piecesFrom paddingPixels_faithful none name
    have unitsTiles (text : Text) := Matcher.tiles_piecesFrom pixels_faithful none text
    have dropped := dropsBrackets_sweep_bracketed none
      (pixels.sweep none (paddingPixels.sweep none name))
    rw [same] at dropped
    have countPaddings : (paddingPixels.sweep none name).count 'p' ≤ name.count 'p' :=
      paddingsTiles.countP_le paddingPixels_reduces
    have countUnits : (pixels.sweep none (paddingPixels.sweep none name)).count 'p' ≤
        (paddingPixels.sweep none name).count 'p' :=
      (unitsTiles _).countP_le pixels_reduces
    have countBrackets := dropped.count_eq
    have onPaddings : paddingPixels.sweep none name = name := by
      refine Matcher.sweep_eq_self_of_silentOver
        (paddingsTiles.silentOver paddingPixels_reduces ?_)
      show name.count 'p' ≤ (paddingPixels.sweep none name).count 'p'
      omega
    rw [onPaddings] at same countUnits countBrackets
    have onUnits : pixels.sweep none name = name := by
      refine Matcher.sweep_eq_self_of_silentOver ((unitsTiles name).silentOver pixels_reduces ?_)
      show name.count 'p' ≤ (pixels.sweep none name).count 'p'
      omega
    rw [onUnits] at same
    refine ⟨fun loose => ?_, sweep_bracketed_eq_self_iff.mp same⟩
    exact absurd (length_sweep_pixels_lt loose none) (by rw [onUnits]; exact Nat.lt_irrefl _)
  · rintro ⟨noUnit, noBracket⟩
    rw [sweep_paddingPixels_eq_self_of_not_hasLooseUnit noUnit,
      sweep_pixels_eq_self_of_not_hasLooseUnit noUnit, sweep_bracketed_eq_self_iff.mpr noBracket]

/-! ### What dropping units leaves -/

/-- A text starts with what it started with before units were dropped. -/
theorem head?_sweep_pixels (before : Option Char) (text : Text) :
    (pixels.sweep before text).head? = text.head? := by
  refine Matcher.sweep_induction (motive := fun _ text out => out.head? = text.head?)
    pixels_faithful (fun _ => rfl) (fun _ _ _ _ _ => rfl) ?_ before text
  intro before source rest replacement _ taken _
  obtain ⟨sign, _, numeral, _, strips⟩ := exists_strips_of_pixels taken
  have nonempty : sign ++ numeral.text ≠ [] :=
    List.append_ne_nil_of_right_ne_nil sign strips.wellFormed.text_ne_nil
  rw [strips.source_eq, strips.replacement_eq, ← List.append_assoc, List.append_assoc _ pixelUnit,
    List.head?_append_of_ne_nil _ nonempty, List.head?_append_of_ne_nil _ nonempty]

theorem stops_sweep_pixels (accepts : Char → Bool) (before : Option Char) (text : Text) :
    Text.stops accepts (pixels.sweep before text) = Text.stops accepts text := by
  have same := head?_sweep_pixels before text
  cases text with
  | nil => rfl
  | cons char rest =>
    obtain ⟨more, spelt⟩ := List.head?_eq_some_iff.mp same
    rw [spelt]
    rfl

/-- A unit is written where it was read if nothing that is put in the place of something else starts
with one of its letters. -/
theorem exists_of_sweep_eq_pixelUnit {matcher : Matcher Text} (faithful : matcher.Faithful)
    (other : ∀ before text source replacement, matcher before text = some (source, replacement) →
      ∃ first more, replacement = first :: more ∧ first ∉ pixelUnit)
    {before : Option Char} {text out : Text}
    (swept : matcher.sweep before text = pixelUnit ++ out) :
    ∃ rest, text = pixelUnit ++ rest ∧ matcher.sweep (some 'x') rest = out := by
  have read (letter : Char) (isLetter : letter ∈ pixelUnit) {before : Option Char}
      {text out : Text} (swept : matcher.sweep before text = letter :: out) :
      ∃ rest, text = letter :: rest ∧ matcher.sweep (some letter) rest = out := by
    refine Matcher.exists_of_sweep_eq_cons faithful (fun before text source replacement taken => ?_)
      swept
    obtain ⟨first, more, starts, noLetter⟩ := other _ _ _ _ taken
    exact ⟨first, more, starts, fun same => noLetter (same ▸ isLetter)⟩
  obtain ⟨behind, rfl, swept'⟩ := read 'p' (by decide) swept
  obtain ⟨rest, rfl, swept''⟩ := read 'x' (by decide) swept'
  exact ⟨rest, rfl, swept''⟩

theorem not_mem_pixelUnit_of_isDigit {char : Char} (isDigit : char.isDigit = true) :
    char ∉ pixelUnit := by
  have noDigit : ∀ letter ∈ pixelUnit, letter.isDigit = false := by decide
  exact Text.not_mem_of_forall noDigit isDigit

/-- Dropping units leaves none behind. -/
theorem not_hasLooseUnit_sweep_pixels (before : Option Char) (text : Text) :
    ¬ HasLooseUnit (pixels.sweep before text) := by
  refine Matcher.sweep_induction (motive := fun _ _ out => ¬ HasLooseUnit out) pixels_faithful
    (fun _ => not_hasLooseUnit_nil) ?_ ?_ before text
  · intro before char rest silent inductionHypothesis
    rw [hasLooseUnit_cons]
    rintro (⟨isDigit, out, stopped, swept⟩ | behind)
    · obtain ⟨behind, rfl, rfl⟩ := exists_of_sweep_eq_pixelUnit pixels_faithful (by
        intro before text source replacement taken
        obtain ⟨sign, isSign, numeral, _, strips⟩ := exists_strips_of_pixels taken
        obtain ⟨digit, more, starts, isDigit⟩ := strips.wellFormed.exists_text_eq_cons
        rw [strips.replacement_eq, starts]
        rcases isSign with rfl | rfl
        · exact ⟨digit, more, rfl, not_mem_pixelUnit_of_isDigit isDigit⟩
        · exact ⟨'-', digit :: more, rfl, by decide⟩) swept
      rw [stops_sweep_pixels] at stopped
      exact absurd (silent _ _ (pixels_of_digit isDigit stopped before)) (List.cons_ne_nil _ _)
    · exact inductionHypothesis behind
  · intro before source rest replacement _ taken inductionHypothesis
    obtain ⟨sign, isSign, numeral, behind, strips⟩ := exists_strips_of_pixels taken
    have noUnit : 'p' ∉ sign := by
      rcases isSign with rfl | rfl <;> decide
    have stopped : Text.stops isWordChar rest = true := by
      have same := strips.spelt
      rw [strips.source_eq] at same
      simp only [List.append_assoc, List.append_cancel_left_eq] at same
      rw [same]
      exact strips.stopped
    rw [strips.replacement_eq, List.append_assoc,
      hasLooseUnit_append_numeral noUnit strips.wellFormed]
    rintro (⟨out, _, swept⟩ | inRest)
    · rw [← stops_sweep_pixels isWordChar (Matcher.lastOf before source), swept] at stopped
      cases stopped
    · exact inductionHypothesis inRest

/-! ### What dropping brackets brings to light -/

/-- In dropping brackets it does not matter what stands before the text. -/
theorem sweep_bracketed_before (before : Option Char) (text : Text) :
    bracketed.sweep before text = bracketed.sweep none text := by
  have same (text : Text) : bracketed before text = bracketed none text := rfl
  rw [Matcher.sweep, Matcher.piecesFrom_congr same, Matcher.sweep]

theorem exists_replacement_eq_cons_of_bracketed {before : Option Char}
    {text source replacement : Text} (taken : bracketed before text = some (source, replacement)) :
    ∃ first more, replacement = first :: more ∧ first.isDigit = true := by
  obtain ⟨numeral, _, wellFormed, _, _, rfl⟩ := bracketed_eq_some_iff.mp taken
  exact wellFormed.exists_text_eq_cons

/-- A word that ends where a text starts after its brackets were dropped ended there before. -/
theorem stops_of_stops_sweep_bracketed {before : Option Char} {text : Text}
    (stopped : Text.stops isWordChar (bracketed.sweep before text) = true) :
    Text.stops isWordChar text = true := by
  revert stopped
  refine Matcher.sweep_induction
    (motive := fun _ text out => Text.stops isWordChar out = true → Text.stops isWordChar text = true)
    bracketed_faithful (fun _ stopped => stopped) (fun _ _ _ _ _ stopped => stopped) ?_ before text
  intro before source rest replacement _ taken _ stopped
  obtain ⟨first, more, rfl, isDigit⟩ := exists_replacement_eq_cons_of_bracketed taken
  rw [List.cons_append, Text.stops, isWordChar_of_isDigit isDigit] at stopped
  cases stopped

/-- A number in brackets has the unit of pixels right behind the brackets. -/
def HasHiddenUnit (text : Text) : Prop :=
  ∃ (lead : Text) (numeral : Numeral) (rest : Text), numeral.WellFormed ∧
    Text.stops isWordChar (bracketed.sweep none rest) = true ∧
    text = lead ++ '[' :: (numeral.text ++ ']' :: (pixelUnit ++ rest))

/-- A stretch in brackets is a number but for brackets that are dropped inside it. -/
def HasHiddenNumber (text : Text) : Prop :=
  ∃ (lead inner : Text) (numeral : Numeral) (rest : Text), numeral.WellFormed ∧
    inner ≠ numeral.text ∧ bracketed.sweep none inner = numeral.text ∧
    text = lead ++ '[' :: (inner ++ ']' :: rest)

theorem HasHiddenUnit.append {text : Text} (hidden : HasHiddenUnit text) (lead : Text) :
    HasHiddenUnit (lead ++ text) := by
  obtain ⟨front, numeral, rest, wellFormed, stopped, rfl⟩ := hidden
  exact ⟨lead ++ front, numeral, rest, wellFormed, stopped, by rw [List.append_assoc]⟩

theorem HasHiddenNumber.append {text : Text} (hidden : HasHiddenNumber text) (lead : Text) :
    HasHiddenNumber (lead ++ text) := by
  obtain ⟨front, inner, numeral, rest, wellFormed, different, swept, rfl⟩ := hidden
  exact ⟨lead ++ front, inner, numeral, rest, wellFormed, different, swept,
    by rw [List.append_assoc]⟩

/-- A unit that dropping brackets brings to light was hidden behind a bracket. -/
theorem hasHiddenUnit_of_hasLooseUnit_sweep {before : Option Char} {text : Text}
    (noUnit : ¬ HasLooseUnit text) (loose : HasLooseUnit (bracketed.sweep before text)) :
    HasHiddenUnit text := by
  have unitRead {before : Option Char} {text out : Text}
      (swept : bracketed.sweep before text = pixelUnit ++ out) :
      ∃ rest, text = pixelUnit ++ rest ∧ bracketed.sweep (some 'x') rest = out := by
    refine exists_of_sweep_eq_pixelUnit bracketed_faithful (fun _ _ _ _ taken => ?_) swept
    obtain ⟨first, more, starts, isDigit⟩ := exists_replacement_eq_cons_of_bracketed taken
    exact ⟨first, more, starts, not_mem_pixelUnit_of_isDigit isDigit⟩
  revert noUnit loose
  refine Matcher.sweep_induction
    (motive := fun _ text out => ¬ HasLooseUnit text → HasLooseUnit out → HasHiddenUnit text)
    bracketed_faithful (fun _ noUnit loose => absurd loose noUnit) ?_ ?_ before text
  · intro before char rest _ inductionHypothesis noUnit loose
    rw [hasLooseUnit_cons, not_or] at noUnit
    rcases hasLooseUnit_cons.mp loose with ⟨isDigit, out, stopped, swept⟩ | inRest
    · obtain ⟨behind, rfl, rfl⟩ := unitRead swept
      exact absurd ⟨isDigit, behind, stops_of_stops_sweep_bracketed stopped, rfl⟩ noUnit.1
    · exact (inductionHypothesis noUnit.2 inRest).append [char]
  · intro before source rest replacement _ taken inductionHypothesis noUnit loose
    obtain ⟨numeral, _, wellFormed, _, rfl, rfl⟩ := bracketed_eq_some_iff.mp taken
    have noUnit' : ¬ HasLooseUnit rest := fun inRest => noUnit (inRest.append _)
    have number := hasLooseUnit_append_numeral List.not_mem_nil wellFormed
    rcases (number _).mp loose with ⟨out, stopped, swept⟩ | inRest
    · obtain ⟨behind, rfl, rfl⟩ := unitRead swept
      rw [sweep_bracketed_before] at stopped
      exact ⟨[], numeral, behind, wellFormed, stopped, by simp⟩
    · exact (inductionHypothesis noUnit' inRest).append _

/-- Behind a text that is left without opening brackets, and before an opening bracket, dropping
brackets starts afresh. -/
theorem sweep_bracketed_append {before : Option Char} {lead tail : Text}
    (apart : tail.head? = some '[' ∨ '[' ∉ bracketed.sweep before lead) :
    bracketed.sweep before (lead ++ tail) =
      bracketed.sweep before lead ++ bracketed.sweep none tail := by
  revert apart
  refine Matcher.sweep_induction
    (motive := fun before lead out => tail.head? = some '[' ∨ '[' ∉ out →
      bracketed.sweep before (lead ++ tail) = out ++ bracketed.sweep none tail)
    bracketed_faithful (fun before _ => sweep_bracketed_before before tail) ?_ ?_ before lead
  · intro before char lead silent inductionHypothesis apart
    have silent' : bracketed.Silent before (char :: (lead ++ tail)) := by
      rw [silent_bracketed_iff] at silent ⊢
      rintro ⟨numeral, rest, wellFormed, spelt⟩
      obtain ⟨rfl, behind⟩ := List.cons.inj spelt
      have opens : tail.head? = some '[' := apart.resolve_right fun absent =>
        absent List.mem_cons_self
      obtain ⟨more, rfl⟩ := List.head?_eq_some_iff.mp opens
      obtain ⟨between, rfl, ends⟩ := Text.exists_append_of_not_mem behind.symm
        (wellFormed.isNumberText.not_mem (by decide))
      cases between with
      | nil => cases (List.cons.inj ends).1
      | cons first between =>
        obtain ⟨rfl, _⟩ := List.cons.inj ends
        exact silent ⟨numeral, between, wellFormed, rfl⟩
    have apart' : tail.head? = some '[' ∨ '[' ∉ bracketed.sweep (some char) lead :=
      apart.imp_right fun absent member => absent (List.mem_cons_of_mem char member)
    rw [List.cons_append, Matcher.sweep_cons_of_silent silent', inductionHypothesis apart',
      List.cons_append]
  · intro before source lead replacement nonempty taken inductionHypothesis apart
    obtain ⟨numeral, rest, wellFormed, spelt, rfl, rfl⟩ := bracketed_eq_some_iff.mp taken
    have taken' : bracketed before ('[' :: numeral.text ++ [']'] ++ (lead ++ tail)) =
        some ('[' :: numeral.text ++ [']'], numeral.text) :=
      bracketed_eq_some_iff.mpr ⟨numeral, lead ++ tail, wellFormed, by simp, rfl, rfl⟩
    have apart' := apart.imp_right fun absent member =>
      absent (List.mem_append_right numeral.text member)
    rw [List.append_assoc, Matcher.sweep_append_of_taken nonempty taken',
      inductionHypothesis apart', List.append_assoc]

theorem sweep_bracketed_append_closing {lead : Text}
    (noBracket : '[' ∉ bracketed.sweep none lead) (rest : Text) :
    bracketed.sweep none (lead ++ ']' :: rest) =
      bracketed.sweep none lead ++ ']' :: bracketed.sweep none rest := by
  have silent : bracketed.Silent none (']' :: rest) :=
    silent_bracketed_iff.mpr fun ⟨_, _, _, spelt⟩ => by cases (List.cons.inj spelt).1
  rw [sweep_bracketed_append (Or.inr noBracket), Matcher.sweep_cons_of_silent silent,
    sweep_bracketed_before (some ']')]

/-- A hidden unit comes to light. -/
theorem HasHiddenUnit.hasLooseUnit_sweep {text : Text} (hidden : HasHiddenUnit text)
    (before : Option Char) : HasLooseUnit (bracketed.sweep before text) := by
  obtain ⟨lead, numeral, rest, wellFormed, stopped, rfl⟩ := hidden
  have taken : bracketed none ('[' :: numeral.text ++ [']'] ++ (pixelUnit ++ rest)) =
      some ('[' :: numeral.text ++ [']'], numeral.text) :=
    bracketed_eq_some_iff.mpr ⟨numeral, pixelUnit ++ rest, wellFormed, by simp, rfl, rfl⟩
  have dropped : bracketed.sweep none ('[' :: numeral.text ++ [']'] ++ (pixelUnit ++ rest)) =
      numeral.text ++ (pixelUnit ++ bracketed.sweep none rest) := by
    rw [Matcher.sweep_append_of_taken (by simp) taken, sweep_bracketed_before,
      sweep_bracketed_append (Or.inr (by decide))]
    rfl
  have whole : lead ++ '[' :: (numeral.text ++ ']' :: (pixelUnit ++ rest)) =
      lead ++ ('[' :: numeral.text ++ [']'] ++ (pixelUnit ++ rest)) := by simp
  rw [whole, sweep_bracketed_append (Or.inl rfl), dropped]
  exact ((hasLooseUnit_length wellFormed _).mpr (Or.inl stopped)).append _

/-- A closing bracket that is left was there before, and what is left before it comes from what was
before it. -/
theorem exists_of_sweep_bracketed_eq_append {before : Option Char} {text out more : Text}
    (swept : bracketed.sweep before text = out ++ ']' :: more) :
    ∃ inner rest, text = inner ++ ']' :: rest ∧ bracketed.sweep before inner = out := by
  revert swept
  refine Matcher.sweep_induction
    (motive := fun before text output => ∀ out, output = out ++ ']' :: more →
      ∃ inner rest, text = inner ++ ']' :: rest ∧ bracketed.sweep before inner = out)
    bracketed_faithful ?_ ?_ ?_ before text out
  · intro before out swept
    simp at swept
  · intro before char rest silent inductionHypothesis out swept
    cases out with
    | nil =>
      obtain ⟨rfl, _⟩ := List.cons.inj swept
      exact ⟨[], rest, rfl, rfl⟩
    | cons first out =>
      obtain ⟨rfl, swept'⟩ := List.cons.inj swept
      obtain ⟨inner, behind, rfl, rfl⟩ := inductionHypothesis out swept'
      refine ⟨char :: inner, behind, rfl, Matcher.sweep_cons_of_silent ?_⟩
      rw [silent_bracketed_iff] at silent ⊢
      rintro ⟨numeral, more', wellFormed, spelt⟩
      refine silent ⟨numeral, more' ++ ']' :: behind, wellFormed, ?_⟩
      rw [← List.cons_append, spelt]
      simp
  · intro before source rest replacement nonempty taken inductionHypothesis out swept
    obtain ⟨numeral, _, wellFormed, _, rfl, rfl⟩ := bracketed_eq_some_iff.mp taken
    have noBracket : ']' ∉ numeral.text := wellFormed.isNumberText.not_mem (by decide)
    obtain ⟨between, rfl, swept'⟩ := Text.exists_append_of_not_mem swept noBracket
    obtain ⟨inner, behind, rfl, rfl⟩ := inductionHypothesis between swept'
    refine ⟨'[' :: numeral.text ++ [']'] ++ inner, behind, by simp, ?_⟩
    refine Matcher.sweep_append_of_taken nonempty ?_
    exact bracketed_eq_some_iff.mpr ⟨numeral, inner, wellFormed, by simp, rfl, rfl⟩

/-- A number alone in brackets is left exactly where one was hidden. -/
theorem hasBracketedNumber_sweep_iff {before : Option Char} {text : Text} :
    HasBracketedNumber (bracketed.sweep before text) ↔ HasHiddenNumber text := by
  constructor
  · refine Matcher.sweep_induction
      (motive := fun _ text out => HasBracketedNumber out → HasHiddenNumber text)
      bracketed_faithful ?_ ?_ ?_ before text
    · exact fun _ found => absurd found not_hasBracketedNumber_nil
    · intro before char rest silent inductionHypothesis found
      rcases hasBracketedNumber_cons.mp found with ⟨numeral, more, wellFormed, swept⟩ | inRest
      · obtain ⟨rfl, swept'⟩ := List.cons.inj swept
        obtain ⟨inner, behind, rfl, inner_eq⟩ := exists_of_sweep_bracketed_eq_append swept'
        rw [sweep_bracketed_before] at inner_eq
        refine ⟨[], inner, numeral, behind, wellFormed, ?_, inner_eq, rfl⟩
        rintro rfl
        exact silent_bracketed_iff.mp silent ⟨numeral, behind, wellFormed, rfl⟩
      · exact (inductionHypothesis inRest).append [char]
    · intro before source rest replacement _ taken inductionHypothesis found
      obtain ⟨numeral, _, wellFormed, _, rfl, rfl⟩ := bracketed_eq_some_iff.mp taken
      have noBracket : '[' ∉ numeral.text := wellFormed.isNumberText.not_mem (by decide)
      exact (inductionHypothesis ((hasBracketedNumber_append noBracket).mp found)).append _
  · rintro ⟨lead, inner, numeral, rest, wellFormed, different, inner_eq, rfl⟩
    have noBracket : '[' ∉ bracketed.sweep none inner := by
      rw [inner_eq]
      exact wellFormed.isNumberText.not_mem (by decide)
    have silent (before : Option Char) : bracketed.Silent before ('[' :: (inner ++ ']' :: rest)) := by
      rw [silent_bracketed_iff]
      rintro ⟨numeral', more, wellFormed', spelt⟩
      -- The brackets would hold `inner` as a whole, and it would be a number before the sweep.
      have plain : bracketed.sweep none numeral'.text = numeral'.text := by
        rw [sweep_bracketed_eq_self_iff, ← List.append_nil numeral'.text,
          hasBracketedNumber_append (wellFormed'.isNumberText.not_mem (by decide))]
        exact not_hasBracketedNumber_nil
      obtain ⟨between, rfl, ends⟩ := Text.exists_append_of_not_mem (List.cons.inj spelt).2.symm
        (wellFormed'.isNumberText.not_mem (by decide))
      cases between with
      | nil =>
        rw [List.append_nil] at different inner_eq
        exact different (plain.symm.trans inner_eq)
      | cons first between =>
        obtain ⟨rfl, _⟩ := List.cons.inj ends
        have noOpening : '[' ∉ bracketed.sweep none numeral'.text := by
          rw [plain]
          exact wellFormed'.isNumberText.not_mem (by decide)
        rw [sweep_bracketed_append_closing noOpening] at inner_eq
        have noClosing : ']' ∉ numeral.text := wellFormed.isNumberText.not_mem (by decide)
        exact noClosing (by rw [← inner_eq]; simp)
    rw [sweep_bracketed_append (Or.inl rfl), Matcher.sweep_cons_of_silent (silent _),
      sweep_bracketed_before (some '['), sweep_bracketed_append_closing noBracket, inner_eq]
    exact ⟨_, numeral, _, wellFormed, rfl⟩

/-! ### Bringing a class to scale twice -/

/-- Without border widths, a second run changes the class exactly if brackets hid a unit or a number
from the first one. -/
theorem normalize_normalize_iff {name : Text}
    (still : ∀ text ∈ [name, normalize name true], ∀ pass ∈ [border, borderSide],
      pass.replaceAll text = text) :
    normalize (normalize name true) true = normalize name true ↔
      ¬ HasHiddenUnit (pixels.replaceAll (paddingPixels.replaceAll name)) ∧
        ¬ HasHiddenNumber (pixels.replaceAll (paddingPixels.replaceAll name)) := by
  rw [normalize_eq_self_iff (still _ (by simp)), normalize_true_of_still (still name (by simp))]
  simp only [Matcher.replaceAll_eq_sweep]
  have noUnit := not_hasLooseUnit_sweep_pixels none (paddingPixels.sweep none name)
  refine and_congr (not_congr ⟨hasHiddenUnit_of_hasLooseUnit_sweep noUnit, ?_⟩)
    (not_congr hasBracketedNumber_sweep_iff)
  exact fun hidden => hidden.hasLooseUnit_sweep none

/-- Of two pairs of brackets around a number each run drops one. -/
theorem normalize_normalize_ne_nested :
    normalize (normalize "[[4]]".toList true) true ≠ normalize "[[4]]".toList true := by
  intro same
  have still : ∀ text ∈ ["[[4]]".toList, normalize "[[4]]".toList true],
      ∀ pass ∈ [border, borderSide], pass.replaceAll text = text := by
    decide +kernel
  refine ((normalize_normalize_iff still).mp same).2
    ⟨[], "[4]".toList, ⟨['4'], none⟩, [], ?_, by decide, by decide +kernel, by decide +kernel⟩
  exact ⟨by decide, by decide, by simp, by simp⟩

end ClassNumber

end AtomicCss
