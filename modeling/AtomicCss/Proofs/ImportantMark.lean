/-
This file follows the mark that makes a declaration important. The mark stands behind a value, and
every stage that reads the value leaves it there: it has no star and no slash, so no comment ends or
begins in it; it opens and closes nothing; and trimming keeps it, since its last character is not
blank. Only the number of blanks before it may change. The generator takes the mark off and puts one
in front of the class.

From there on the mark leads the class. It is neither a part of a word nor anything that a pass over
numbers or a token is found by, and a word starts behind it as it does at the start of a text. So
finishing passes over it.
-/

import AtomicCss.Proofs.ClassWords
import AtomicCss.Proofs.GeneratedClasses
import AtomicCss.Proofs.RenderedReferences

namespace AtomicCss

/-! ### The mark behind a text -/

/-- The mark with blanks in front of it. -/
def IsMark (tail : Text) : Prop :=
  ∃ blanks, (∀ char ∈ blanks, isBlank char = true) ∧ tail = blanks ++ BuiltIn.importantMark

section Behind

variable {tail : Text} (isMark : IsMark tail)

include isMark in
theorem IsMark.isBlank_or_mem {char : Char} (member : char ∈ tail) :
    isBlank char = true ∨ char ∈ BuiltIn.importantMark := by
  obtain ⟨blanks, blank, rfl⟩ := isMark
  exact (List.mem_append.mp member).imp_left (blank char)

include isMark in
theorem IsMark.not_mem {char : Char} (notBlank : isBlank char = false)
    (absent : char ∉ BuiltIn.importantMark) : char ∉ tail := by
  intro member
  rcases isMark.isBlank_or_mem member with blank | inMark
  · rw [notBlank] at blank
    cases blank
  · exact absent inMark

include isMark in
/-- The first character is a blank or an exclamation point. -/
theorem IsMark.exists_eq_cons :
    ∃ first rest, tail = first :: rest ∧ (isBlank first = true ∨ first = '!') := by
  obtain ⟨blanks, blank, rfl⟩ := isMark
  cases blanks with
  | nil => exact ⟨'!', "important".toList, rfl, Or.inr rfl⟩
  | cons first blanks => exact ⟨first, _, rfl, Or.inl (blank first List.mem_cons_self)⟩

include isMark in
/-- Trimming a marked text trims the text and keeps the mark. -/
theorem IsMark.trim_append (text : Text) :
    ∃ tail', IsMark tail' ∧ (text ++ tail).trim = text.trim ++ tail' := by
  obtain ⟨blanks, blank, rfl⟩ := isMark
  obtain ⟨lead, trail, leadBlank, trailBlank, spelt⟩ := text.exists_eq_append_trim
  have mark : BuiltIn.importantMark.Trimmed := ⟨rfl, rfl⟩
  have noBlanks : ∀ char ∈ ([] : Text), isBlank char = true := by simp
  have between : ∀ char ∈ trail ++ blanks, isBlank char = true :=
    List.forall_mem_append.mpr ⟨trailBlank, blank⟩
  by_cases empty : text.trim = []
  · rw [empty, List.nil_append] at spelt
    have trimmed := mark.trim_append (List.forall_mem_append.mpr ⟨leadBlank, between⟩) noBlanks
    refine ⟨BuiltIn.importantMark, ⟨[], noBlanks, rfl⟩, ?_⟩
    rw [empty, spelt, List.nil_append]
    simpa only [List.append_assoc, List.append_nil] using trimmed
  · have whole := (Text.trimmed_trim text).append_append empty (trail ++ blanks) mark (by decide)
    have trimmed := whole.trim_append leadBlank noBlanks
    refine ⟨trail ++ blanks ++ BuiltIn.importantMark, ⟨_, between, rfl⟩, ?_⟩
    have marked : text ++ (blanks ++ BuiltIn.importantMark) =
        lead ++ (text.trim ++ (trail ++ blanks ++ BuiltIn.importantMark)) ++ [] := by
      conv_lhs => rw [spelt]
      simp only [List.append_assoc, List.append_nil]
    rw [marked, trimmed]

/-! ### Reading a marked value -/

include isMark in
/-- A marked value without its comments is marked. -/
theorem IsMark.strip_append (value : Text) :
    Comment.strip (value ++ tail) = Comment.strip value ++ tail := by
  have noStar : '*' ∉ tail := isMark.not_mem (by decide) (by decide)
  have noSlash : '/' ∉ tail := isMark.not_mem (by decide) (by decide)
  obtain ⟨first, rest, rfl, _⟩ := isMark.exists_eq_cons
  rw [Comment.strip_append_cons (List.ne_of_not_mem_cons noSlash).symm
    (List.ne_of_not_mem_cons noStar).symm (Comment.throughLastClosing?_eq_none noStar),
    Comment.strip_eq_self noStar]

include isMark in
theorem IsMark.contains_append (text : Text) :
    Text.contains "px".toList (text ++ tail) = Text.contains "px".toList text := by
  rw [Bool.eq_iff_iff, Text.contains_eq_true_iff, Text.contains_eq_true_iff]
  have noUnit : 'x' ∉ tail := isMark.not_mem (by decide) (by decide)
  constructor
  · contrapose
    intro absent
    refine Text.not_pair_infix_append absent (Text.not_pair_infix_of_second_not_mem noUnit) ?_
    rintro ⟨_, starts⟩
    exact noUnit (List.mem_of_mem_head? starts)
  · exact fun found => found.trans (List.prefix_append text tail).isInfix

end Behind

/-! ### References in a marked value -/

namespace Variable

theorem untilClosing?_append_eq_none {text tail : Text} (unclosed : untilClosing? 0 text = none)
    (noClosing : ')' ∉ tail) : untilClosing? 0 (text ++ tail) = none := by
  cases found : untilClosing? 0 (text ++ tail) with
  | none => rfl
  | some parts =>
    obtain ⟨content, rest⟩ := parts
    obtain ⟨spelt, balanced⟩ := untilClosing?_zero_eq_some_iff.mp found
    rcases List.append_eq_append_iff.mp spelt with ⟨more, _, inTail⟩ | ⟨more, inText, behind⟩
    · exact absurd (by rw [inTail]; simp) noClosing
    · cases more with
      | nil =>
        rw [List.nil_append] at behind
        exact absurd (by rw [← behind]; simp) noClosing
      | cons char more =>
        obtain ⟨rfl, _⟩ := List.cons.inj behind
        rw [untilClosing?_zero_eq_some_iff.mpr ⟨inText, balanced⟩] at unclosed
        cases unclosed

variable {tail : Text} (isMark : IsMark tail)

include isMark in
/-- A mark behind a value changes neither where its references are nor what they stand for. -/
theorem usesFrom_and_resolve_append {before : Option Char} {text : Text}
    {pieces : List (Piece Stretch)} (tiles : matcher.Tiles before text pieces) (start : Nat) :
    usesFrom start (matcher.piecesFrom before 0 (text ++ tail)) = usesFrom start pieces ∧
      (matcher.piecesFrom before 0 (text ++ tail)).flatMap resolvePiece =
        pieces.flatMap resolvePiece ++ tail := by
  have noClosing : ')' ∉ tail := isMark.not_mem (by decide) (by decide)
  have noOpening : 'v' ∉ tail := isMark.not_mem (by decide) (by decide)
  -- The pieces of the value are cut again, one by one, with the mark as what is left at the end.
  induction tiles generalizing start with
  | done before =>
    have absent : ¬ opening <:+: tail := fun found => noOpening (found.subset List.mem_cons_self)
    rw [List.nil_append, Matcher.piecesFrom_eq_map_copied (silentOver_gap absent (Or.inl rfl) before)]
    constructor
    · have passed := usesFrom_append_copied start tail []
      rwa [List.append_nil] at passed
    · rw [List.flatMap_map]
      exact List.flatMap_singleton' tail
  | @copied before char rest pieces silent tiles inductionHypothesis =>
    have silent' : matcher.Silent before (char :: (rest ++ tail)) := by
      obtain ⟨first, more, rfl, starts⟩ := isMark.exists_eq_cons
      have absent : first ∉ opening := by
        intro member
        have full : ∀ char ∈ opening, isBlank char = false ∧ char ≠ '!' := by decide
        rcases starts with blank | mark
        · rw [(full first member).1] at blank
          cases blank
        · exact (full first member).2 mark
      refine Matcher.silent_of_eq_none ?_
      rw [← List.cons_append, matcher, Text.after?_append_cons absent,
        Text.after?_eq_none_iff.mpr (not_leading_of_silent silent)]
      rfl
    obtain ⟨uses_eq, resolve_eq⟩ := inductionHypothesis (start + Text.byteLength [char])
    rw [List.cons_append, Matcher.piecesFrom_cons_of_silent silent']
    exact ⟨uses_eq, congrArg (char :: ·) resolve_eq⟩
  | @matched before source rest stretch pieces nonempty taken tiles inductionHypothesis =>
    rcases matcher_eq_some taken with ⟨content, rfl, rfl, balanced, _⟩ |
      ⟨rfl, whole, behind, spelt, unclosed⟩
    · obtain ⟨uses_eq, resolve_eq⟩ := inductionHypothesis
        (start + Text.byteLength (opening ++ content ++ [')']))
      rw [List.append_assoc (opening ++ content ++ [')']) rest tail,
        Matcher.piecesFrom_append_of_taken nonempty
          (matcher_reference balanced before (rest ++ tail))]
      constructor
      · exact congrArg (useOf content start _ :: ·) uses_eq
      · rw [List.flatMap_cons, List.flatMap_cons, resolve_eq,
          ← List.append_assoc (resolvePiece _) _ tail]
    -- A reference that is never closed takes all that is left, so the mark only makes it longer.
    · obtain rfl : rest = [] := by simpa using whole
      rw [List.append_nil] at spelt
      have taken' : matcher before (source ++ tail ++ []) = some (source ++ tail, .unclosed) := by
        have opened : Text.after? opening (opening ++ (behind ++ tail)) = some (behind ++ tail) :=
          Text.after?_eq_some_iff.mpr rfl
        rw [List.append_nil, spelt, List.append_assoc, matcher, opened]
        simp only [Option.bind_eq_bind, Option.bind_some,
          untilClosing?_append_eq_none unclosed noClosing]
      have cut := Matcher.piecesFrom_append_of_taken
        (List.append_ne_nil_of_left_ne_nil nonempty tail) taken'
      rw [List.append_nil] at cut
      rw [List.append_nil, cut, tiles.eq_nil]
      exact ⟨rfl, by simp [resolvePiece, Piece.source, Matcher.piecesFrom]⟩

include isMark in
theorem uses_append (value : Text) : uses (value ++ tail) = uses value :=
  (usesFrom_and_resolve_append isMark (Matcher.tiles_piecesFrom matcher_faithful none value) 0).1

include isMark in
theorem resolve_append (value : Text) : resolve (value ++ tail) = resolve value ++ tail :=
  (usesFrom_and_resolve_append isMark (Matcher.tiles_piecesFrom matcher_faithful none value) 0).2

end Variable

/-! ### The class of a marked value -/

namespace BuiltIn

/-- The mark is taken off together with the blanks in front of it. -/
theorem splitImportant_append {value tail : Text} (trimmed : value.Trimmed) (isMark : IsMark tail) :
    splitImportant (value ++ tail) = (value, true) := by
  obtain ⟨blanks, blank, rfl⟩ := isMark
  have found : Text.before? importantMark (value ++ (blanks ++ importantMark)) =
      some (value ++ blanks) :=
    Text.before?_eq_some_iff.mpr (List.append_assoc _ _ _).symm
  simp only [splitImportant, found, Text.trimEnd_append blank trimmed.last]

/-- The first colon of a declaration is in its property or right behind it. -/
theorem exists_text_eq_append (property : Text) :
    ∃ name more, ':' ∉ name ∧ (more = [] ∨ ∃ init, more = init ++ [':']) ∧
      ∀ value, Declaration.text ⟨property, value⟩ = name ++ ':' :: (more ++ ' ' :: value) := by
  by_cases member : ':' ∈ property
  · obtain ⟨name, more, rfl, absent⟩ := List.eq_append_cons_of_mem member
    refine ⟨name, more ++ [':'], absent, Or.inr ⟨more, rfl⟩, fun value => ?_⟩
    simp [Declaration.text]
  · exact ⟨property, [], member, Or.inl rfl, fun value => by simp [Declaration.text]⟩

/-- What a declaration states as its value ends with the mark only if the value itself does: what
stands in front of the value ends with a colon or a blank, and the mark has neither. -/
theorem not_suffix_trim {more value : Text} (colon : more = [] ∨ ∃ init, more = init ++ [':'])
    (trimmed : value.Trimmed) (unmarked : ¬ importantMark <:+ value) :
    ¬ importantMark <:+ Text.trim (more ++ ' ' :: value) := by
  have blank : ∀ char ∈ [' '], isBlank char = true := by decide
  have noBlanks : ∀ char ∈ ([] : Text), isBlank char = true := by simp
  rcases colon with rfl | ⟨init, rfl⟩
  · have same := trimmed.trim_append blank noBlanks
    rw [List.append_nil] at same
    rwa [List.nil_append, ← List.singleton_append, same]
  · have starts : Text.trimStart (init ++ [':'] ++ ' ' :: value) =
        Text.trimStart init ++ [':'] ++ ' ' :: value :=
      Text.trimStart_append_cons (by decide)
    -- Trimming goes on behind the value, and reaches the colon only if the value is empty.
    rcases List.eq_nil_or_concat value with rfl | ⟨lead, last, rfl⟩
    · have ends : Text.stops isBlank (Text.trimStart init ++ [':']).reverse = true := by
        rw [List.reverse_concat]
        rfl
      rw [Text.trim, starts, Text.trimEnd_append blank ends]
      exact fun found => unmarked (Text.suffix_of_suffix_append_cons (by decide) found)
    · have ends : Text.stops isBlank
          (Text.trimStart init ++ [':'] ++ ' ' :: lead.concat last).reverse = true := by
        have last := trimmed.last
        rw [List.concat_eq_append, List.reverse_concat] at last
        rw [List.concat_eq_append, ← List.cons_append, ← List.append_assoc, List.reverse_concat]
        exact last
      have kept := Text.trimEnd_append noBlanks ends
      rw [List.append_nil] at kept
      rw [Text.trim, starts, kept]
      exact fun found => unmarked (Text.suffix_of_suffix_append_cons (by decide) found)

/-- The class of a marked value is the class of the value with the mark in front. -/
theorem best_generate_append {property value tail : Text} (isMark : IsMark tail)
    (trimmed : value.Trimmed) (unmarked : ¬ importantMark <:+ value) {isRem : Bool}
    (nonempty : Generator.best generate (Declaration.text ⟨property, value⟩) isRem ≠ [])
    (single : ' ' ∉ Generator.best generate (Declaration.text ⟨property, value⟩) isRem) :
    Generator.best generate (Declaration.text ⟨property, value ++ tail⟩) isRem =
      '!' :: Generator.best generate (Declaration.text ⟨property, value⟩) isRem := by
  obtain ⟨name, more, noColon, colon, text_eq⟩ := exists_text_eq_append property
  have plain := splitImportant_eq_of_not_suffix (not_suffix_trim colon trimmed unmarked)
  obtain ⟨tail', isMark', trim_eq⟩ := isMark.trim_append (more ++ ' ' :: value)
  have marked : splitImportant (Text.trim (more ++ ' ' :: (value ++ tail))) =
      (Text.trim (more ++ ' ' :: value), true) := by
    rw [← List.cons_append, ← List.append_assoc, trim_eq]
    exact splitImportant_append (Text.trimmed_trim _) isMark'
  rw [text_eq] at nonempty single ⊢
  rw [text_eq]
  simp only [Generator.best, generate_append _ noColon, statedValue, plain, marked] at *
  split at nonempty
  · exact absurd rfl nonempty
  · next present =>
    rw [if_neg present] at single ⊢
    rw [if_neg present]
    exact markImportant_of_not_mem single

end BuiltIn

/-! ### Passing over the mark -/

namespace Matcher

/-- The matcher takes nothing at a mark, and behind it as much as at the start of a text. -/
structure SkipsMark (matcher : Matcher Text) : Prop where
  silent : ∀ rest, matcher none ('!' :: rest) = none
  fresh : ∀ text, matcher (some '!') text = matcher none text

theorem SkipsMark.replaceAll_cons {matcher : Matcher Text} (skips : matcher.SkipsMark)
    (text : Text) : matcher.replaceAll ('!' :: text) = '!' :: matcher.replaceAll text := by
  rw [replaceAll_eq_sweep, sweep_cons_of_silent (silent_of_eq_none (skips.silent text)), sweep,
    piecesFrom_congr skips.fresh]
  rfl

end Matcher

namespace ClassNumber

theorem skipsMark_of_mem_passes {hasPx : Bool} {pass : Matcher Text}
    (listed : pass ∈ passes hasPx) : pass.SkipsMark := by
  rcases eq_of_mem_passes listed with ⟨scaling, rfl⟩ | rfl | rfl | rfl
  · cases scaling <;> exact ⟨fun _ => rfl, fun _ => rfl⟩
  all_goals exact ⟨fun _ => rfl, fun _ => rfl⟩

theorem normalize_cons (name : Text) (hasPx : Bool) :
    normalize ('!' :: name) hasPx = '!' :: normalize name hasPx := by
  have all : ∀ pass ∈ passes hasPx, pass.SkipsMark := fun _ => skipsMark_of_mem_passes
  rw [normalize, normalize]
  generalize passes hasPx = passes at all ⊢
  induction passes generalizing name with
  | nil => rfl
  | cons pass passes inductionHypothesis =>
    rw [List.foldl_cons, List.foldl_cons, (all pass List.mem_cons_self).replaceAll_cons]
    exact inductionHypothesis _ fun other listed => all other (List.mem_cons_of_mem pass listed)

end ClassNumber

namespace TokenInjection

theorem skipsMark_fallbackMatcher (variants : List Text) (token : Text) :
    (fallbackMatcher variants token).SkipsMark :=
  ⟨fun _ => rfl, fun _ => rfl⟩

theorem skipsMark_referenceMatcher (sought token : Text) :
    (referenceMatcher sought token).SkipsMark :=
  ⟨fun _ => rfl, fun _ => rfl⟩

theorem skipsMark_bareBrackets : bareBrackets.SkipsMark :=
  ⟨fun _ => rfl, fun _ => rfl⟩

theorem injectUse_cons (name : Text) (use : VariableUse) :
    injectUse ('!' :: name) use = '!' :: injectUse name use := by
  unfold injectUse
  cases ColorToken.resolve? use.name with
  | none => rfl
  | some token =>
    have references := (skipsMark_referenceMatcher use.name token).replaceAll_cons
    cases use.fallbackText with
    | none => exact references name
    | some fallback =>
      have fallbacks := (skipsMark_fallbackMatcher (variants fallback) token).replaceAll_cons name
      simp only [replaceFallback, replaceReference, fallbacks, references]

theorem inject_cons (name : Text) (uses : List VariableUse) :
    inject ('!' :: name) uses = '!' :: inject name uses := by
  have all (name : Text) : uses.foldl injectUse ('!' :: name) = '!' :: uses.foldl injectUse name := by
    induction uses generalizing name with
    | nil => rfl
    | cons use uses inductionHypothesis =>
      rw [List.foldl_cons, List.foldl_cons, injectUse_cons, inductionHypothesis]
  unfold inject
  split
  · rfl
  · rw [all, skipsMark_bareBrackets.replaceAll_cons]

end TokenInjection

/-! ### Marked declarations -/

namespace Declaration

variable (isRem : Bool) (generator : Generator)

/-- A mark behind a value is behind what the value resolves to, and it is not within a reference. -/
theorem prepare_append {tail : Text} (isMark : IsMark tail) (property value : Text) :
    ∃ tail', IsMark tail' ∧
      (prepare ⟨property, value ++ tail⟩ isRem generator).uses =
        (prepare ⟨property, value⟩ isRem generator).uses ∧
      (prepare ⟨property, value ++ tail⟩ isRem generator).resolved =
        (prepare ⟨property, value⟩ isRem generator).resolved ++ tail' := by
  let plain := Text.trim (Comment.strip value)
  obtain ⟨behind, isMark', value_eq⟩ := isMark.trim_append (Comment.strip value)
  rw [← isMark.strip_append] at value_eq
  obtain ⟨tail', isMark'', resolved_eq⟩ := isMark'.trim_append (Variable.resolve plain)
  rw [← Variable.resolve_append isMark'] at resolved_eq
  refine ⟨tail', isMark'', ?_, ?_⟩
  · simp only [prepare, value_eq]
    exact Variable.uses_append isMark' plain
  · simp only [prepare, value_eq]
    exact resolved_eq

end Declaration

/-- A declaration is marked as a whole: its variables and its units stay what they are, and the mark
stands in front of its class, both as it is generated and as it is finished. -/
theorem Declaration.prepare_important (property value : Text) (isRem : Bool)
    (unmarked : ¬ BuiltIn.importantMark <:+
      (Declaration.prepare ⟨property, value⟩ isRem BuiltIn.generate).resolved)
    (nonempty : (Declaration.prepare ⟨property, value⟩ isRem BuiltIn.generate).generated ≠ [])
    (single : ' ' ∉ (Declaration.prepare ⟨property, value⟩ isRem BuiltIn.generate).generated) :
    let plain := Declaration.prepare ⟨property, value⟩ isRem BuiltIn.generate
    let marked := Declaration.prepare ⟨property, value ++ " !important".toList⟩ isRem BuiltIn.generate
    marked.uses = plain.uses ∧ marked.hasPx = plain.hasPx ∧
      marked.generated = '!' :: plain.generated ∧ marked.finish = '!' :: plain.finish := by
  intro plain marked
  have isMark : IsMark " !important".toList := ⟨[' '], by decide, rfl⟩
  obtain ⟨tail, isMark', uses_eq, resolved_eq⟩ :=
    prepare_append isRem BuiltIn.generate isMark property value
  have px_eq : marked.hasPx = plain.hasPx := by
    rw [hasPx_prepare, hasPx_prepare, resolved_eq]
    exact isMark'.contains_append plain.resolved
  have generated_eq : marked.generated = '!' :: plain.generated := by
    have trimmed := trimmed_resolved ⟨property, value⟩ isRem BuiltIn.generate
    rw [generated_prepare] at nonempty single
    rw [generated_prepare, generated_prepare, resolved_eq]
    exact BuiltIn.best_generate_append isMark' trimmed unmarked nonempty single
  refine ⟨uses_eq, px_eq, generated_eq, ?_⟩
  rw [Prepared.finish, generated_eq, px_eq, uses_eq, ClassNumber.normalize_cons,
    TokenInjection.inject_cons]
  rfl

/-- A width in pixels that a variable falls back to, with a comment and then with a mark as well. -/
theorem Declaration.prepare_important_width :
    (¬ BuiltIn.importantMark <:+ (Declaration.prepare ⟨"width".toList,
        "/* full */ var(--w, 12px)".toList⟩ false BuiltIn.generate).resolved ∧
      (Declaration.prepare ⟨"width".toList, "/* full */ var(--w, 12px)".toList⟩ false
        BuiltIn.generate).generated ≠ [] ∧
      ' ' ∉ (Declaration.prepare ⟨"width".toList, "/* full */ var(--w, 12px)".toList⟩ false
        BuiltIn.generate).generated) ∧
      (Declaration.prepare ⟨"width".toList, "/* full */ var(--w, 12px) !important".toList⟩ false
        BuiltIn.generate).finish = "!w-12".toList := by
  have unmarked : ¬ BuiltIn.importantMark <:+ (Declaration.prepare ⟨"width".toList,
      "/* full */ var(--w, 12px)".toList⟩ false BuiltIn.generate).resolved := by decide +kernel
  have nonempty : (Declaration.prepare ⟨"width".toList, "/* full */ var(--w, 12px)".toList⟩ false
      BuiltIn.generate).generated ≠ [] := by decide +kernel
  have single : ' ' ∉ (Declaration.prepare ⟨"width".toList, "/* full */ var(--w, 12px)".toList⟩ false
      BuiltIn.generate).generated := by decide +kernel
  refine ⟨⟨unmarked, nonempty, single⟩, ?_⟩
  obtain ⟨_, _, _, finished⟩ := Declaration.prepare_important _ _ false unmarked nonempty single
  exact finished.trans (by decide +kernel)

end AtomicCss
