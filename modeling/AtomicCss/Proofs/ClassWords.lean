/-
This file shows that the passes over the numbers of a class treat a list of classes one by one. No
pass looks beyond a space, takes one, or cares whether a class comes first in its list: behind a
space a word starts as it does at the start of a text. So a list may be cut at its spaces before
its numbers are brought to scale or afterwards.
-/

import AtomicCss.Proofs.NumberPasses

namespace AtomicCss

/-! ### Reading up to a space -/

namespace Numeral

/-- What was read, with a space and more text behind what was left. -/
def withRest {Read : Type} (rest : Text) (read : Read × Text) : Read × Text :=
  (read.1, read.2 ++ ' ' :: rest)

theorem readFraction?_append_space (text rest : Text) :
    readFraction? (text ++ ' ' :: rest) = (readFraction? text).map (withRest rest) := by
  cases text with
  | nil => rfl
  | cons char text =>
    by_cases point : char = '.'
    · subst point
      rw [List.cons_append, readFraction?, readFraction?, Text.span_append_cons (by decide)]
      generalize Text.span Char.isDigit text = split
      obtain ⟨digits, behind⟩ := split
      cases digits <;> rfl
    · have nothing (behind : Text) : readFraction? (char :: behind) = none := by
        unfold readFraction?
        split
        · next spelt => exact absurd (List.cons.inj spelt).1 point
        · rfl
      rw [List.cons_append, nothing, nothing]
      rfl

theorem read?_append_space (text rest : Text) :
    read? (text ++ ' ' :: rest) = (read? text).map (withRest rest) := by
  rw [read?, read?, Text.span_append_cons (by decide)]
  generalize Text.span Char.isDigit text = split
  obtain ⟨whole, behind⟩ := split
  cases whole with
  | nil => rfl
  | cons digit whole =>
    simp only [readFraction?_append_space]
    cases readFraction? behind <;> rfl

theorem readGuarded?_append_space (text rest : Text) :
    readGuarded? (text ++ ' ' :: rest) = readGuarded? text := by
  rw [readGuarded?, readGuarded?, read?_append_space]
  cases read? text with
  | none => rfl
  | some read =>
    have refused : isNameChar ' ' = false := by decide
    simp only [Option.map_some, withRest, Text.stops_append_cons refused]

end Numeral

/-! ### Sweeps word by word -/

namespace Matcher

variable {Meaning : Type}

/-- Nothing beyond a space is looked at, the end of a text is as good as a space, and so is its
start. -/
structure WordWise (matcher : Matcher Meaning) : Prop where
  upTo : ∀ before word rest, matcher before (word ++ ' ' :: rest) = matcher before word
  ended : ∀ before, matcher before [] = none
  fresh : ∀ text, matcher (some ' ') text = matcher none text

variable {matcher : Matcher Meaning} (wordWise : matcher.WordWise)

include wordWise in
theorem WordWise.piecesFrom_append_space (faithful : matcher.Faithful) (before : Option Char)
    (word rest : Text) :
    matcher.piecesFrom before 0 (word ++ ' ' :: rest) =
      matcher.piecesFrom before 0 word ++ .copied ' ' :: matcher.piecesFrom none 0 rest := by
  have silent (before : Option Char) : matcher before (' ' :: rest) = none :=
    (wordWise.upTo before [] rest).trans (wordWise.ended before)
  rw [(tiles_piecesFrom faithful before word).piecesFrom_append fun before char word =>
      wordWise.upTo before (char :: word) rest,
    piecesFrom_cons_of_silent (silent_of_eq_none (silent _)), piecesFrom_congr wordWise.fresh]

end Matcher

theorem Matcher.WordWise.sweep_append_space {matcher : Matcher Text} (wordWise : matcher.WordWise)
    (faithful : matcher.Faithful) (word rest : Text) :
    matcher.sweep none (word ++ ' ' :: rest) =
      matcher.sweep none word ++ ' ' :: matcher.sweep none rest := by
  rw [sweep, wordWise.piecesFrom_append_space faithful, List.flatMap_append]
  rfl

/-! ### The passes -/

namespace ClassNumber

theorem readPixels?_append_space (text rest : Text) :
    readPixels? (text ++ ' ' :: rest) = readPixels? text := by
  simp only [readPixels?, bind, Numeral.read?_append_space]
  cases Numeral.read? text with
  | none => rfl
  | some read =>
    simp only [Option.map_some, Option.bind_some, Numeral.withRest,
      Text.after?_append_cons (by decide : ' ' ∉ pixelUnit)]
    have refused : isWordChar ' ' = false := by decide
    cases Text.after? pixelUnit read.2 with
    | none => rfl
    | some behind => simp only [Option.map_some, Option.bind_some, Text.stops_append_cons refused]

theorem readPaddingStem?_append_space (text rest : Text) :
    readPaddingStem? (text ++ ' ' :: rest) =
      (readPaddingStem? text).map (Numeral.withRest rest) := by
  ext ⟨stem, behind⟩
  simp only [Option.map_eq_some_iff, Prod.exists, Numeral.withRest, Prod.mk.injEq,
    readPaddingStem?_eq_some_iff]
  constructor
  · rintro ⟨isStem, spelt⟩
    have noSpace : ∀ stem ∈ Scaling.padding.stems, ' ' ∉ stem := by decide
    rcases List.append_eq_append_iff.mp spelt with ⟨spare, inside, remaining⟩ | ⟨more, rfl, rfl⟩
    · cases spare with
      | nil => exact ⟨stem, [], ⟨isStem, by simpa using inside.symm⟩, rfl, remaining⟩
      | cons first spare =>
        obtain ⟨rfl, _⟩ := List.cons.inj remaining
        exact absurd (by rw [inside]; simp) (noSpace stem isStem)
    · exact ⟨stem, more, ⟨isStem, rfl⟩, rfl, rfl⟩
  · rintro ⟨stem, more, ⟨isStem, rfl⟩, rfl, rfl⟩
    exact ⟨isStem, List.append_assoc _ _ _⟩

theorem wordWise_border : border.WordWise where
  upTo := by
    intro before word rest
    unfold border
    rw [Text.after?_append_cons (by decide)]
    cases Text.after? borderStem word with
    | none => rfl
    | some behind => simp only [Option.map_some, Option.bind_some, quadruple?,
        Numeral.readGuarded?_append_space]
  ended := by
    intro before
    unfold border
    split <;> rfl
  fresh := fun _ => rfl

theorem wordWise_borderSide : borderSide.WordWise where
  upTo := by
    intro before word rest
    unfold borderSide
    rw [Text.after?_append_cons (by decide)]
    cases Text.after? borderStem word with
    | none => rfl
    | some behind =>
      rcases behind with _ | ⟨side, _ | ⟨next, behind⟩⟩
      · cases rest with
        | nil => rfl
        | cons next rest =>
          by_cases hyphen : next = '-'
          · subst hyphen
            rfl
          · simp [hyphen]
      · rfl
      · by_cases hyphen : next = '-'
        · subst hyphen
          simp only [Option.map_some, List.cons_append, quadruple?,
            Numeral.readGuarded?_append_space]
        · simp [hyphen]
  ended := by
    intro before
    unfold borderSide
    split <;> rfl
  fresh := fun _ => rfl

theorem wordWise_paddingPixels : paddingPixels.WordWise where
  upTo := by
    intro before word rest
    simp only [paddingPixels, bind, readPaddingStem?_append_space]
    cases readPaddingStem? word with
    | none => rfl
    | some read => simp only [Option.map_some, Option.bind_some, Numeral.withRest,
        readPixels?_append_space]
  ended := fun _ => rfl
  fresh := fun _ => rfl

theorem wordWise_padding : padding.WordWise where
  upTo := by
    intro before word rest
    simp only [padding, bind, readPaddingStem?_append_space]
    cases readPaddingStem? word with
    | none => rfl
    | some read => simp only [Option.map_some, Option.bind_some, Numeral.withRest, quadruple?,
        Numeral.readGuarded?_append_space]
  ended := fun _ => rfl
  fresh := fun _ => rfl

theorem pixels_of_ne {char : Char} (other : char ≠ '-') (before : Option Char) (rest : Text) :
    pixels before (char :: rest) =
      (readPixels? (char :: rest)).map fun (numeral, source) => (source, numeral.text) := by
  unfold pixels
  split
  · next spelt => exact absurd (List.cons.inj spelt).1 other
  · rfl

theorem wordWise_pixels : pixels.WordWise where
  upTo := by
    intro before word rest
    cases word with
    | nil => rfl
    | cons char word =>
      by_cases sign : char = '-'
      · subst sign
        rw [List.cons_append, pixels, pixels, readPixels?_append_space]
      · have same := readPixels?_append_space (char :: word) rest
        rw [List.cons_append] at same ⊢
        rw [pixels_of_ne sign, pixels_of_ne sign, same]
  ended := fun _ => rfl
  fresh := fun _ => rfl

theorem bracketed_of_ne {char : Char} (other : char ≠ '[') (before : Option Char) (rest : Text) :
    bracketed before (char :: rest) = none := by
  unfold bracketed
  split
  · next spelt => exact absurd (List.cons.inj spelt).1 other
  · rfl

theorem wordWise_bracketed : bracketed.WordWise where
  upTo := by
    intro before word rest
    cases word with
    | nil => rfl
    | cons char word =>
      by_cases opening : char = '['
      · subst opening
        rw [List.cons_append, bracketed, bracketed, Numeral.read?_append_space]
        cases Numeral.read? word with
        | none => rfl
        | some read =>
          rcases read with ⟨numeral, _ | ⟨next, behind⟩⟩
          · rfl
          · by_cases closing : next = ']'
            · subst closing
              rfl
            · simp [Numeral.withRest, closing]
      · rw [List.cons_append, bracketed_of_ne opening, bracketed_of_ne opening]
  ended := fun _ => rfl
  fresh := fun _ => rfl

theorem wordWise_of_mem_passes {hasPx : Bool} {pass : Matcher Text}
    (listed : pass ∈ passes hasPx) : pass.WordWise ∧ pass.Faithful := by
  rcases eq_of_mem_passes listed with ⟨scaling, rfl⟩ | rfl | rfl | rfl
  · refine ⟨?_, Scaling.pass_faithful scaling⟩
    cases scaling with
    | border => exact wordWise_border
    | side => exact wordWise_borderSide
    | padding => exact wordWise_padding
  · exact ⟨wordWise_paddingPixels, paddingPixels_faithful⟩
  · exact ⟨wordWise_pixels, pixels_faithful⟩
  · exact ⟨wordWise_bracketed, bracketed_faithful⟩

/-- What stands on one side of a space has no part in what becomes of the other side, whatever passes
follow each other. The induction is on the passes: each hands two words on to the next. -/
theorem foldl_replaceAll_append_space {passes : List (Matcher Text)}
    (all : ∀ pass ∈ passes, pass.WordWise ∧ pass.Faithful) (name rest : Text) :
    passes.foldl (fun current pass => pass.replaceAll current) (name ++ ' ' :: rest) =
      passes.foldl (fun current pass => pass.replaceAll current) name ++
        ' ' :: passes.foldl (fun current pass => pass.replaceAll current) rest := by
  induction passes generalizing name rest with
  | nil => rfl
  | cons pass passes inductionHypothesis =>
    obtain ⟨wordWise, faithful⟩ := all pass List.mem_cons_self
    have split : pass.replaceAll (name ++ ' ' :: rest) =
        pass.replaceAll name ++ ' ' :: pass.replaceAll rest :=
      wordWise.sweep_append_space faithful name rest
    rw [List.foldl_cons, List.foldl_cons, List.foldl_cons, split]
    exact inductionHypothesis (fun other listed => all other (List.mem_cons_of_mem pass listed)) _ _

/-- The classes on the two sides of a space are brought to scale one by one. -/
theorem normalize_append_space (name rest : Text) (hasPx : Bool) :
    normalize (name ++ ' ' :: rest) hasPx = normalize name hasPx ++ ' ' :: normalize rest hasPx :=
  foldl_replaceAll_append_space (fun _ => wordWise_of_mem_passes) name rest

theorem normalize_nil (hasPx : Bool) : normalize [] hasPx = [] := by
  cases hasPx <;> rfl

/-- A list of classes is brought to scale class by class. -/
theorem normalize_join (names : List Text) (hasPx : Bool) :
    normalize (Text.join [' '] names) hasPx =
      Text.join [' '] (names.map fun name => normalize name hasPx) := by
  induction names with
  | nil => exact normalize_nil hasPx
  | cons name names inductionHypothesis =>
    cases names with
    | nil => rw [List.map_singleton, Text.join_singleton, Text.join_singleton]
    | cons next names =>
      rw [Text.join_cons_cons, normalize,
        foldl_replaceAll_append_space fun _ => wordWise_of_mem_passes, ← normalize, ← normalize,
        inductionHypothesis, List.map_cons, List.map_cons, List.map_cons, Text.join_cons_cons]

end ClassNumber

end AtomicCss
