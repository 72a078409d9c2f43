/-
This file develops the sweep of a matcher over a text. A sweep is described in two ways. By
equations it is a recursion on the text: what happens at a place where nothing is taken, and what
happens behind a stretch that was taken. By its tilings it is a relation with one constructor for
each of these cases, and an induction over a sweep is an induction over its tiling.

What most passes do to most texts is nothing. A sweep that takes nothing at any place of a text
leaves the text alone, and so does one that gives back what it takes. For a matcher that never
takes anything inside a stretch it would take as a whole, looking at all places and looking at the
places that the sweep comes to are the same.
-/

import AtomicCss.Text.Scan
import Mathlib.Data.List.Infix

namespace AtomicCss

namespace Matcher

variable {Meaning : Type}

/-! ### The character before a place -/

/-- The character just before what follows a text, if `before` stands before the text. -/
def lastOf (before : Option Char) (text : Text) : Option Char :=
  text.foldl (fun _ char => some char) before

@[simp] theorem lastOf_nil (before : Option Char) : lastOf before [] = before := rfl

@[simp] theorem lastOf_cons (before : Option Char) (char : Char) (text : Text) :
    lastOf before (char :: text) = lastOf (some char) text := rfl

@[simp] theorem lastOf_append (before : Option Char) (first second : Text) :
    lastOf before (first ++ second) = lastOf (lastOf before first) second :=
  List.foldl_append

theorem lastOf_none (text : Text) : lastOf none text = text.getLast? := by
  rcases List.eq_nil_or_concat text with rfl | ⟨lead, last, rfl⟩
  · rfl
  · rw [List.concat_eq_append, lastOf_append, List.getLast?_concat]
    rfl

/-! ### Places where nothing is taken -/

/-- Nothing is taken at this place. -/
def Silent (matcher : Matcher Meaning) (before : Option Char) (text : Text) : Prop :=
  ∀ source meaning, matcher before text = some (source, meaning) → source = []

theorem silent_of_eq_none {matcher : Matcher Meaning} {before : Option Char} {text : Text}
    (nothing : matcher before text = none) : matcher.Silent before text := by
  intro source meaning taken
  rw [nothing] at taken
  cases taken

/-- Nothing is taken at any place of `lead`, with `rest` behind it. -/
def SilentOver (matcher : Matcher Meaning) : (before : Option Char) → (lead rest : Text) → Prop
  | _, [], _ => True
  | before, char :: lead, rest =>
    matcher.Silent before (char :: (lead ++ rest)) ∧ SilentOver matcher (some char) lead rest

theorem silentOver_append {matcher : Matcher Meaning} {before : Option Char}
    {first second rest : Text} :
    matcher.SilentOver before (first ++ second) rest ↔
      matcher.SilentOver before first (second ++ rest) ∧
        matcher.SilentOver (lastOf before first) second rest := by
  induction first generalizing before with
  | nil => simp [SilentOver]
  | cons char first inductionHypothesis =>
    simp only [List.cons_append, SilentOver, List.append_assoc, inductionHypothesis, lastOf_cons,
      and_assoc]

/-- A matcher that is silent wherever it looks at a part of a text takes nothing of it. -/
theorem silentOver_of_forall {matcher : Matcher Meaning} {lead rest : Text}
    (silent : ∀ before char text, char :: text <:+ lead ++ rest →
      matcher.Silent before (char :: text)) (before : Option Char) :
    matcher.SilentOver before lead rest := by
  induction lead generalizing before with
  | nil => trivial
  | cons char lead inductionHypothesis =>
    refine ⟨silent before char (lead ++ rest) (List.suffix_refl _), ?_⟩
    refine inductionHypothesis (fun before' char' text suffix => ?_) (some char)
    exact silent before' char' text (suffix.trans (List.suffix_cons char _))

/-- A matcher that takes nothing where certain characters stand takes nothing of a text of them. -/
theorem silentOver_of_forall_mem {matcher : Matcher Meaning} {lead : Text}
    (nothing : ∀ char ∈ lead, ∀ before text, matcher before (char :: text) = none)
    (before : Option Char) (rest : Text) : matcher.SilentOver before lead rest := by
  induction lead generalizing before with
  | nil => trivial
  | cons char lead inductionHypothesis =>
    refine ⟨silent_of_eq_none (nothing char List.mem_cons_self before _), ?_⟩
    exact inductionHypothesis (fun other member => nothing other (List.mem_cons_of_mem char member))
      (some char)

/-- Nothing is taken within the start of a text, or there is a first place where something is. -/
theorem silentOver_or_exists_taken (matcher : Matcher Meaning) (before : Option Char)
    (lead rest : Text) :
    matcher.SilentOver before lead rest ∨
      ∃ start char more source meaning, lead = start ++ char :: more ∧
        matcher.SilentOver before start (char :: more ++ rest) ∧ source ≠ [] ∧
          matcher (lastOf before start) (char :: more ++ rest) = some (source, meaning) := by
  induction lead generalizing before with
  | nil => exact Or.inl trivial
  | cons char lead inductionHypothesis =>
    by_cases silent : matcher.Silent before (char :: (lead ++ rest))
    · refine (inductionHypothesis (some char)).imp (⟨silent, ·⟩) ?_
      rintro ⟨start, first, more, source, meaning, rfl, silent', found⟩
      refine ⟨char :: start, first, more, source, meaning, rfl, ⟨?_, silent'⟩, found⟩
      rwa [List.append_assoc] at silent
    · simp only [Silent, not_forall] at silent
      obtain ⟨source, meaning, taken, nonempty⟩ := silent
      exact Or.inr ⟨[], char, lead, source, meaning, rfl, trivial, nonempty, taken⟩

/-! ### The pieces behind a place -/

theorem piecesFrom_append_length (matcher : Matcher Meaning) (before : Option Char)
    (taken rest : Text) :
    matcher.piecesFrom before taken.length (taken ++ rest) =
      matcher.piecesFrom (lastOf before taken) 0 rest := by
  induction taken generalizing before with
  | nil => rfl
  | cons char taken inductionHypothesis =>
    rw [List.length_cons, List.cons_append, piecesFrom, inductionHypothesis, lastOf_cons]

theorem piecesFrom_cons_of_silent {matcher : Matcher Meaning} {before : Option Char} {char : Char}
    {rest : Text} (silent : matcher.Silent before (char :: rest)) :
    matcher.piecesFrom before 0 (char :: rest) =
      .copied char :: matcher.piecesFrom (some char) 0 rest := by
  rw [piecesFrom]
  split
  · next first more meaning taken => cases silent _ _ taken
  · rfl

theorem piecesFrom_append_of_taken {matcher : Matcher Meaning} {before : Option Char}
    {source rest : Text} {meaning : Meaning} (nonempty : source ≠ [])
    (taken : matcher before (source ++ rest) = some (source, meaning)) :
    matcher.piecesFrom before 0 (source ++ rest) =
      .matched source meaning :: matcher.piecesFrom (lastOf before source) 0 rest := by
  obtain ⟨first, more, rfl⟩ := List.exists_cons_of_ne_nil nonempty
  rw [List.cons_append, piecesFrom, ← List.cons_append, taken]
  simp only [lastOf_cons, piecesFrom_append_length]

/-- Where nothing is taken, every piece is a character. -/
theorem piecesFrom_append_of_silentOver {matcher : Matcher Meaning} {before : Option Char}
    {lead rest : Text} (silent : matcher.SilentOver before lead rest) :
    matcher.piecesFrom before 0 (lead ++ rest) =
      lead.map .copied ++ matcher.piecesFrom (lastOf before lead) 0 rest := by
  induction lead generalizing before with
  | nil => rfl
  | cons char lead inductionHypothesis =>
    rw [List.cons_append, piecesFrom_cons_of_silent silent.1, inductionHypothesis silent.2]
    rfl

theorem piecesFrom_eq_map_copied {matcher : Matcher Meaning} {before : Option Char} {text : Text}
    (silent : matcher.SilentOver before text []) :
    matcher.piecesFrom before 0 text = text.map .copied := by
  have pieces := piecesFrom_append_of_silentOver silent
  rwa [List.append_nil, piecesFrom, List.append_nil] at pieces

/-! ### Tilings -/

/-- The ways to cut a text into pieces, one constructor for each case of the sweep. -/
inductive Tiles (matcher : Matcher Meaning) :
    (before : Option Char) → Text → List (Piece Meaning) → Prop where
  | done (before : Option Char) : Tiles matcher before [] []
  | copied {before : Option Char} {char : Char} {rest : Text} {pieces : List (Piece Meaning)}
      (silent : matcher.Silent before (char :: rest))
      (tiles : Tiles matcher (some char) rest pieces) :
      Tiles matcher before (char :: rest) (.copied char :: pieces)
  | matched {before : Option Char} {source rest : Text} {meaning : Meaning}
      {pieces : List (Piece Meaning)} (nonempty : source ≠ [])
      (taken : matcher before (source ++ rest) = some (source, meaning))
      (tiles : Tiles matcher (lastOf before source) rest pieces) :
      Tiles matcher before (source ++ rest) (.matched source meaning :: pieces)

theorem Tiles.eq_nil {matcher : Matcher Meaning} {before : Option Char}
    {pieces : List (Piece Meaning)} (tiles : matcher.Tiles before [] pieces) : pieces = [] := by
  generalize nothing : ([] : Text) = text at tiles
  cases tiles with
  | done => rfl
  | copied => cases nothing
  | matched nonempty => exact absurd (List.append_eq_nil_iff.mp nothing.symm).1 nonempty

/-- The sweep of a faithful matcher tiles the text. -/
theorem tiles_piecesFrom {matcher : Matcher Meaning} (faithful : matcher.Faithful)
    (before : Option Char) (text : Text) :
    matcher.Tiles before text (matcher.piecesFrom before 0 text) := by
  match text with
  | [] => exact .done before
  | char :: rest =>
    by_cases silent : matcher.Silent before (char :: rest)
    · rw [piecesFrom_cons_of_silent silent]
      exact .copied silent (tiles_piecesFrom faithful (some char) rest)
    · simp only [Silent, not_forall] at silent
      obtain ⟨source, meaning, taken, nonempty⟩ := silent
      obtain ⟨after, spelt⟩ := faithful _ _ _ _ taken
      rw [← spelt] at taken ⊢
      rw [piecesFrom_append_of_taken nonempty taken]
      have positive : 0 < source.length := List.length_pos_of_ne_nil nonempty
      have whole := congrArg List.length spelt
      rw [List.length_append, List.length_cons] at whole
      have shorter : after.length ≤ rest.length := by omega
      exact .matched nonempty taken (tiles_piecesFrom faithful (lastOf before source) after)
termination_by text.length

/-- What stands behind a text has no part in how the text is cut if it changes nothing of what is
taken within it. -/
theorem Tiles.piecesFrom_append {matcher : Matcher Meaning} {before : Option Char} {text tail : Text}
    {pieces : List (Piece Meaning)} (tiles : matcher.Tiles before text pieces)
    (same : ∀ before char text,
      matcher before (char :: text ++ tail) = matcher before (char :: text)) :
    matcher.piecesFrom before 0 (text ++ tail) =
      pieces ++ matcher.piecesFrom (lastOf before text) 0 tail := by
  induction tiles with
  | done before => rfl
  | @copied before char rest pieces silent tiles inductionHypothesis =>
    have silent' : matcher.Silent before (char :: (rest ++ tail)) := by
      rw [Silent, ← List.cons_append, same]
      exact silent
    rw [List.cons_append, piecesFrom_cons_of_silent silent', inductionHypothesis, lastOf_cons,
      List.cons_append]
  | @matched before source rest meaning pieces nonempty taken tiles inductionHypothesis =>
    have taken' : matcher before (source ++ (rest ++ tail)) = some (source, meaning) := by
      obtain ⟨char, more, rfl⟩ := List.exists_cons_of_ne_nil nonempty
      rw [← List.append_assoc, List.cons_append, same]
      exact taken
    rw [List.append_assoc, piecesFrom_append_of_taken nonempty taken', inductionHypothesis,
      lastOf_append, List.cons_append]

/-- Two places are cut alike if the matcher sees no difference between what stands before them. -/
theorem piecesFrom_congr {matcher : Matcher Meaning} {before before' : Option Char}
    (same : ∀ text, matcher before text = matcher before' text) (text : Text) :
    matcher.piecesFrom before 0 text = matcher.piecesFrom before' 0 text := by
  cases text with
  | nil => rfl
  | cons char text => rw [piecesFrom, piecesFrom, same]

/-! ### What a sweep writes -/

/-- The text that a sweep writes for `text`, if `before` stands before it. -/
def sweep (matcher : Matcher Text) (before : Option Char) (text : Text) : Text :=
  (matcher.piecesFrom before 0 text).flatMap Piece.replacement

theorem replaceAll_eq_sweep (matcher : Matcher Text) (text : Text) :
    matcher.replaceAll text = matcher.sweep none text := rfl

@[simp] theorem sweep_nil (matcher : Matcher Text) (before : Option Char) :
    matcher.sweep before [] = [] := rfl

theorem sweep_cons_of_silent {matcher : Matcher Text} {before : Option Char} {char : Char}
    {rest : Text} (silent : matcher.Silent before (char :: rest)) :
    matcher.sweep before (char :: rest) = char :: matcher.sweep (some char) rest := by
  rw [sweep, piecesFrom_cons_of_silent silent]
  rfl

theorem sweep_append_of_taken {matcher : Matcher Text} {before : Option Char}
    {source rest replacement : Text} (nonempty : source ≠ [])
    (taken : matcher before (source ++ rest) = some (source, replacement)) :
    matcher.sweep before (source ++ rest) =
      replacement ++ matcher.sweep (lastOf before source) rest := by
  rw [sweep, piecesFrom_append_of_taken nonempty taken]
  rfl

theorem sweep_append_of_silentOver {matcher : Matcher Text} {before : Option Char}
    {lead rest : Text} (silent : matcher.SilentOver before lead rest) :
    matcher.sweep before (lead ++ rest) = lead ++ matcher.sweep (lastOf before lead) rest := by
  have copied : (lead.map Piece.copied).flatMap Piece.replacement = lead := by
    rw [List.flatMap_map]
    exact List.flatMap_singleton' lead
  rw [sweep, piecesFrom_append_of_silentOver silent, List.flatMap_append, copied, sweep]

/-- A sweep goes on behind the first stretch that it takes. -/
theorem sweep_append_of_first_taken {matcher : Matcher Text} {before : Option Char}
    {lead source rest replacement : Text} (silent : matcher.SilentOver before lead (source ++ rest))
    (nonempty : source ≠ [])
    (taken : matcher (lastOf before lead) (source ++ rest) = some (source, replacement)) :
    matcher.sweep before (lead ++ (source ++ rest)) =
      lead ++ (replacement ++ matcher.sweep (lastOf before (lead ++ source)) rest) := by
  rw [sweep_append_of_silentOver silent, sweep_append_of_taken nonempty taken, lastOf_append]

/-- A sweep that takes nothing of a text leaves the text alone. -/
theorem sweep_eq_self_of_silentOver {matcher : Matcher Text} {before : Option Char} {text : Text}
    (silent : matcher.SilentOver before text []) : matcher.sweep before text = text := by
  simpa using sweep_append_of_silentOver silent

theorem sweep_eq_self_of_silent {matcher : Matcher Text} {text : Text}
    (silent : ∀ before char rest, char :: rest <:+ text → matcher.Silent before (char :: rest))
    (before : Option Char) : matcher.sweep before text = text :=
  sweep_eq_self_of_silentOver (silentOver_of_forall (by simpa using silent) before)

/-- What is kept at each step of a sweep, the copying of a character and the replacing of a stretch,
holds of what the sweep writes. -/
@[elab_as_elim]
theorem sweep_induction {matcher : Matcher Text} (faithful : matcher.Faithful)
    {motive : Option Char → Text → Text → Prop} (done : ∀ before, motive before [] [])
    (copied : ∀ before char rest, matcher.Silent before (char :: rest) →
      motive (some char) rest (matcher.sweep (some char) rest) →
        motive before (char :: rest) (char :: matcher.sweep (some char) rest))
    (matched : ∀ before source rest replacement, source ≠ [] →
      matcher before (source ++ rest) = some (source, replacement) →
        motive (lastOf before source) rest (matcher.sweep (lastOf before source) rest) →
          motive before (source ++ rest)
            (replacement ++ matcher.sweep (lastOf before source) rest))
    (before : Option Char) (text : Text) : motive before text (matcher.sweep before text) := by
  have tiles := tiles_piecesFrom faithful before text
  generalize matcher.piecesFrom before 0 text = pieces at tiles
  induction tiles with
  | done before => exact done before
  | copied silent _ inductionHypothesis =>
    rw [sweep_cons_of_silent silent]
    exact copied _ _ _ silent inductionHypothesis
  | matched nonempty taken _ inductionHypothesis =>
    rw [sweep_append_of_taken nonempty taken]
    exact matched _ _ _ _ nonempty taken inductionHypothesis

/-- A character that no replacement starts with is written where it was read. -/
theorem exists_of_sweep_eq_cons {matcher : Matcher Text} (faithful : matcher.Faithful) {char : Char}
    (other : ∀ before text source replacement, matcher before text = some (source, replacement) →
      ∃ first more, replacement = first :: more ∧ first ≠ char)
    {before : Option Char} {text out : Text} (swept : matcher.sweep before text = char :: out) :
    ∃ rest, text = char :: rest ∧ matcher.sweep (some char) rest = out := by
  revert swept
  refine sweep_induction (motive := fun before text output => output = char :: out →
    ∃ rest, text = char :: rest ∧ matcher.sweep (some char) rest = out) faithful ?_ ?_ ?_ before text
  · intro before swept
    cases swept
  · intro before first rest silent _ swept
    obtain ⟨rfl, behind⟩ := List.cons.inj swept
    exact ⟨rest, rfl, behind⟩
  · intro before source rest replacement _ taken _ swept
    obtain ⟨first, more, rfl, different⟩ := other _ _ _ _ taken
    exact absurd (List.cons.inj swept).1 different

/-- Where a character comes from that is written with more behind it: it was copied, or a replacement
brought it. -/
inductive Origin (matcher : Matcher Text) (char : Char) (more : Text) :
    (before : Option Char) → Text → Prop where
  | copied {before : Option Char} {start rest : Text}
      (silent : matcher.Silent (lastOf before start) (char :: rest))
      (behind : matcher.sweep (some char) rest = more) :
      Origin matcher char more before (start ++ char :: rest)
  | replaced {before : Option Char} {start source rest front back : Text}
      (taken : matcher (lastOf before start) (source ++ rest) = some (source, front ++ char :: back))
      (behind : back ++ matcher.sweep (lastOf (lastOf before start) source) rest = more) :
      Origin matcher char more before (start ++ (source ++ rest))

theorem Origin.append {matcher : Matcher Text} {char : Char} {more : Text} {before : Option Char}
    {lead text : Text} (origin : matcher.Origin char more (lastOf before lead) text) :
    matcher.Origin char more before (lead ++ text) := by
  cases origin with
  | copied silent behind =>
    rw [← List.append_assoc]
    exact .copied (by rwa [lastOf_append]) behind
  | replaced taken behind =>
    rw [← List.append_assoc]
    exact .replaced (by rwa [lastOf_append]) (by rwa [lastOf_append])

theorem origin_of_sweep_eq {matcher : Matcher Text} (faithful : matcher.Faithful)
    {before : Option Char} {text lead more : Text} {char : Char}
    (swept : matcher.sweep before text = lead ++ char :: more) :
    matcher.Origin char more before text := by
  refine sweep_induction (motive := fun before text output => ∀ lead, output = lead ++ char :: more →
    matcher.Origin char more before text) faithful ?_ ?_ ?_ before text lead swept
  · intro before lead swept
    simp at swept
  · intro before first rest silent inductionHypothesis lead swept
    cases lead with
    | nil =>
      obtain ⟨rfl, behind⟩ := List.cons.inj swept
      have here : matcher.Origin first more before ([] ++ first :: rest) := .copied silent behind
      exact here
    | cons other lead =>
      obtain ⟨rfl, swept'⟩ := List.cons.inj swept
      have further : matcher.Origin char more before ([first] ++ rest) :=
        (inductionHypothesis lead swept').append
      exact further
  · intro before source rest replacement _ taken inductionHypothesis lead swept
    rcases List.append_eq_append_iff.mp swept with ⟨between, rfl, swept'⟩ | ⟨between, rfl, swept'⟩
    · exact (inductionHypothesis between swept').append
    · cases between with
      | nil => exact (inductionHypothesis [] swept'.symm).append
      | cons other back =>
        obtain ⟨rfl, behind⟩ := List.cons.inj swept'
        have here : matcher.Origin char more before ([] ++ (source ++ rest)) :=
          .replaced taken behind.symm
        exact here

/-! ### Characters of a swept text -/

/-- A piece is a character of the text or something that the matcher took. -/
theorem piece_of_mem_piecesFrom {matcher : Matcher Meaning} {before : Option Char} {skip : Nat}
    {text : Text} {piece : Piece Meaning} (member : piece ∈ matcher.piecesFrom before skip text) :
    (∃ char ∈ text, piece = .copied char) ∨
      ∃ before rest source meaning, matcher before rest = some (source, meaning) ∧
        piece = .matched source meaning := by
  induction text generalizing before skip with
  | nil => simp [piecesFrom] at member
  | cons char text inductionHypothesis =>
    have behind {before : Option Char} {skip : Nat}
        (member : piece ∈ matcher.piecesFrom before skip text) :
        (∃ other ∈ char :: text, piece = .copied other) ∨
          ∃ before rest source meaning, matcher before rest = some (source, meaning) ∧
            piece = .matched source meaning := by
      refine (inductionHypothesis member).imp_left ?_
      rintro ⟨other, inText, same⟩
      exact ⟨other, List.mem_cons_of_mem char inText, same⟩
    cases skip with
    | succ skip => exact behind member
    | zero =>
      rw [piecesFrom] at member
      split at member
      · next first more meaning taken =>
        rcases List.mem_cons.mp member with rfl | member
        · exact Or.inr ⟨before, char :: text, first :: more, meaning, taken, rfl⟩
        · exact behind member
      · rcases List.mem_cons.mp member with rfl | member
        · exact Or.inl ⟨char, List.mem_cons_self, rfl⟩
        · exact behind member

/-- A character that no replacement brings is in a swept text only if it was in the text. -/
theorem mem_of_mem_sweep {matcher : Matcher Text} {char : Char}
    (brings : ∀ before text source replacement,
      matcher before text = some (source, replacement) → char ∉ replacement)
    {before : Option Char} {text : Text} (member : char ∈ matcher.sweep before text) :
    char ∈ text := by
  obtain ⟨piece, isPiece, inPiece⟩ := List.mem_flatMap.mp member
  rcases piece_of_mem_piecesFrom isPiece with ⟨other, inText, rfl⟩ |
    ⟨before', rest, source, replacement, taken, rfl⟩
  · rwa [List.mem_singleton.mp inPiece]
  · exact absurd inPiece (brings _ _ _ _ taken)

/-- A character that every replacement takes from its stretch is in a swept text only if it was in
the text. -/
theorem mem_of_mem_sweep_of_source {matcher : Matcher Text} (faithful : matcher.Faithful)
    {char : Char}
    (takes : ∀ before text source replacement,
      matcher before text = some (source, replacement) → char ∈ replacement → char ∈ source)
    {before : Option Char} {text : Text} (member : char ∈ matcher.sweep before text) :
    char ∈ text := by
  have spelt := flatMap_source_piecesFrom_zero faithful before text
  rw [← spelt]
  obtain ⟨piece, isPiece, inPiece⟩ := List.mem_flatMap.mp member
  refine List.mem_flatMap.mpr ⟨piece, isPiece, ?_⟩
  rcases piece_of_mem_piecesFrom isPiece with ⟨other, _, rfl⟩ |
    ⟨before', rest, source, replacement, taken, rfl⟩
  · exact inPiece
  · exact takes _ _ _ _ taken inPiece

/-- A character that is in no stretch that is taken stays in the text. -/
theorem mem_sweep_of_mem {matcher : Matcher Text} (faithful : matcher.Faithful) {char : Char}
    (takes : ∀ before text source replacement,
      matcher before text = some (source, replacement) → char ∉ source)
    {before : Option Char} {text : Text} (member : char ∈ text) :
    char ∈ matcher.sweep before text := by
  have spelt := flatMap_source_piecesFrom_zero faithful before text
  rw [← spelt] at member
  obtain ⟨piece, isPiece, inPiece⟩ := List.mem_flatMap.mp member
  refine List.mem_flatMap.mpr ⟨piece, isPiece, ?_⟩
  rcases piece_of_mem_piecesFrom isPiece with ⟨other, _, rfl⟩ |
    ⟨before', rest, source, replacement, taken, rfl⟩
  · exact inPiece
  · exact absurd inPiece (takes _ _ _ _ taken)

/-! ### Alterations -/

/-- At some place of the text the matcher takes a stretch and puts another in its place. Every
place counts, also one that the sweep passes over because it lies in a stretch taken before. -/
def Alters (matcher : Matcher Text) (before : Option Char) (text : Text) : Prop :=
  ∃ lead source rest replacement, text = lead ++ (source ++ rest) ∧
    matcher (lastOf before lead) (source ++ rest) = some (source, replacement) ∧
    source ≠ [] ∧ replacement ≠ source

/-- A sweep that gives back whatever it takes leaves the text alone. -/
theorem sweep_eq_self_of_not_alters {matcher : Matcher Text} (faithful : matcher.Faithful)
    {before : Option Char} {text : Text} (same : ¬ matcher.Alters before text) :
    matcher.sweep before text = text := by
  have tiles := tiles_piecesFrom faithful before text
  rw [sweep]
  generalize matcher.piecesFrom before 0 text = pieces at tiles
  induction tiles with
  | done before => rfl
  | @copied before char rest pieces silent tiles inductionHypothesis =>
    refine congrArg (char :: ·) (inductionHypothesis fun ⟨lead, source, after, replacement,
      spelt, taken⟩ => same ⟨char :: lead, source, after, replacement, ?_, taken⟩)
    rw [spelt, List.cons_append]
  | @matched before source rest replacement pieces nonempty taken tiles inductionHypothesis =>
    have given : replacement = source := by
      by_contra different
      exact same ⟨[], source, rest, replacement, rfl, taken, nonempty, different⟩
    have behind := inductionHypothesis fun ⟨lead, other, after, replacement', spelt, taken'⟩ =>
      same ⟨source ++ lead, other, after, replacement',
        by rw [spelt, List.append_assoc], by rwa [lastOf_append]⟩
    rw [List.flatMap_cons, behind, Piece.replacement, given]

/-- What is given back for every stretch leaves the text alone. -/
theorem sweep_eq_self_of_kept {matcher : Matcher Text} (faithful : matcher.Faithful)
    {before : Option Char} {text : Text}
    (kept : ∀ piece ∈ matcher.piecesFrom before 0 text, piece.replacement = piece.source) :
    matcher.sweep before text = text := by
  rw [sweep, List.flatMap_congr kept, flatMap_source_piecesFrom_zero faithful]

theorem not_alters_of_silentOver {matcher : Matcher Text} {before : Option Char} {text : Text}
    (silent : matcher.SilentOver before text []) : ¬ matcher.Alters before text := by
  rintro ⟨lead, source, rest, replacement, rfl, taken, nonempty, _⟩
  obtain ⟨first, more, rfl⟩ := List.exists_cons_of_ne_nil nonempty
  have here := (silentOver_append.mp silent).2
  rw [List.cons_append] at here
  refine nonempty (here.1 _ replacement ?_)
  rwa [List.append_nil]

/-! ### Stretches that do not overlap -/

/-- Inside a stretch that the matcher takes, behind its first character, it takes nothing. -/
def Separate (matcher : Matcher Meaning) : Prop :=
  ∀ before source rest meaning lead char more,
    matcher before (source ++ rest) = some (source, meaning) → source = lead ++ char :: more →
      lead ≠ [] → matcher.Silent (lastOf before lead) (char :: (more ++ rest))

/-- If stretches do not overlap, the sweep comes to every place where one is taken. -/
theorem Tiles.not_alters {matcher : Matcher Text} (separate : matcher.Separate)
    {before : Option Char} {text : Text} {pieces : List (Piece Text)}
    (tiles : matcher.Tiles before text pieces)
    (kept : ∀ piece ∈ pieces, piece.replacement = piece.source) :
    ¬ matcher.Alters before text := by
  induction tiles with
  | done before =>
    rintro ⟨lead, source, rest, replacement, spelt, _, nonempty, _⟩
    have empty := (List.append_eq_nil_iff.mp spelt.symm).2
    exact nonempty (List.append_eq_nil_iff.mp empty).1
  | @copied before char text pieces silent tiles inductionHypothesis =>
    rintro ⟨lead, source, rest, replacement, spelt, taken, nonempty, different⟩
    cases lead with
    | nil =>
      rw [List.nil_append] at spelt
      rw [← spelt] at taken
      exact nonempty (silent source replacement taken)
    | cons first lead =>
      obtain ⟨rfl, behind⟩ : char = first ∧ text = lead ++ (source ++ rest) := List.cons.inj spelt
      exact inductionHypothesis (fun piece member => kept piece (List.mem_cons_of_mem _ member))
        ⟨lead, source, rest, replacement, behind, taken, nonempty, different⟩
  | @matched before source text replacement pieces nonempty taken tiles inductionHypothesis =>
    rintro ⟨lead, source', rest, replacement', spelt, taken', nonempty', different⟩
    rcases List.append_eq_append_iff.mp spelt with ⟨spare, rfl, behind⟩ | ⟨spare, rfl, behind⟩
    · refine inductionHypothesis
        (fun piece member => kept piece (List.mem_cons_of_mem _ member))
        ⟨spare, source', rest, replacement', behind, ?_, nonempty', different⟩
      rwa [lastOf_append] at taken'
    · cases spare with
      | nil =>
        refine inductionHypothesis
          (fun piece member => kept piece (List.mem_cons_of_mem _ member))
          ⟨[], source', rest, replacement', behind.symm, ?_, nonempty', different⟩
        rwa [List.append_nil]
      | cons char spare =>
        rw [behind] at taken'
        cases lead with
        | nil =>
          rw [List.nil_append] at taken
          obtain ⟨rfl, rfl⟩ := Prod.mk.inj (Option.some.inj (taken.symm.trans taken'))
          exact different (kept _ List.mem_cons_self)
        | cons first lead =>
          have silent := separate before _ text replacement (first :: lead) char spare taken rfl
            (List.cons_ne_nil _ _)
          exact nonempty' (silent source' replacement' taken')

/-! ### Sweeps that lose characters -/

/-- Whatever the matcher takes, it gives back with fewer of the characters that are counted. -/
def Reduces (matcher : Matcher Text) (counts : Char → Bool) : Prop :=
  ∀ before text source replacement, matcher before text = some (source, replacement) →
    source ≠ [] → replacement.countP counts < source.countP counts

theorem Tiles.countP_le {matcher : Matcher Text} {counts : Char → Bool}
    (reduces : matcher.Reduces counts) {before : Option Char} {text : Text}
    {pieces : List (Piece Text)} (tiles : matcher.Tiles before text pieces) :
    (pieces.flatMap Piece.replacement).countP counts ≤ text.countP counts := by
  induction tiles with
  | done before => exact Nat.le_refl 0
  | @copied before first rest pieces silent tiles inductionHypothesis =>
    rw [List.flatMap_cons, List.countP_append, ← List.singleton_append (l := rest),
      List.countP_append]
    exact Nat.add_le_add_left inductionHypothesis _
  | @matched before source rest replacement pieces nonempty taken tiles inductionHypothesis =>
    rw [List.flatMap_cons, List.countP_append, List.countP_append]
    exact Nat.add_le_add (Nat.le_of_lt (reduces _ _ _ _ taken nonempty)) inductionHypothesis

/-- If the sweep loses none of the characters after all, it takes nothing. -/
theorem Tiles.silentOver {matcher : Matcher Text} {counts : Char → Bool}
    (reduces : matcher.Reduces counts) {before : Option Char} {text : Text}
    {pieces : List (Piece Text)} (tiles : matcher.Tiles before text pieces)
    (keeps : text.countP counts ≤ (pieces.flatMap Piece.replacement).countP counts) :
    matcher.SilentOver before text [] := by
  induction tiles with
  | done before => trivial
  | @copied before first rest pieces silent tiles inductionHypothesis =>
    rw [List.flatMap_cons, List.countP_append, ← List.singleton_append (l := rest),
      List.countP_append] at keeps
    refine ⟨by rwa [List.append_nil], inductionHypothesis ?_⟩
    exact Nat.le_of_add_le_add_left keeps
  | @matched before source rest replacement pieces nonempty taken tiles inductionHypothesis =>
    rw [List.flatMap_cons, List.countP_append, List.countP_append] at keeps
    have less := reduces _ _ _ _ taken nonempty
    have rest := tiles.countP_le reduces
    simp only [Piece.replacement] at keeps
    omega

end Matcher

end AtomicCss
