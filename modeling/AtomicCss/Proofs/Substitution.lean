/-
This file follows a value that is read more than once: when more of it has come, or when the
fallbacks of its references have been filled in.

A value that goes on at its end keeps the references that were read from it. Each of them is settled
by the parenthesis that closes it, wherever the value broke off before.

A value that is filled in gets shorter, since a fallback stands inside the reference that it takes
the place of, and it keeps its parentheses in pairs, since a fallback stands between a comma outside
parentheses and the parenthesis that closes the reference. A filled-in fallback may bring references
of its own and may even complete an opening that began before it, so what is counted is not how deep
references are nested but how long the value is: once it no longer gets shorter, it is at rest.
-/

import AtomicCss.Proofs.RenderedReferences
import Mathlib.Logic.Function.Iterate

namespace AtomicCss

namespace Variable

/-! ### Values that go on -/

/-- Where nothing opens no reference is read. -/
theorem usesFrom_eq_nil_of_tiles {before : Option Char} {text : Text}
    {pieces : List (Piece Stretch)} (tiles : matcher.Tiles before text pieces)
    (absent : ¬ opening <:+: text) (start : Nat) : usesFrom start pieces = [] := by
  induction tiles generalizing start with
  | done before => rfl
  | copied silent tiles inductionHypothesis =>
    exact inductionHypothesis (fun found => absent (List.infix_cons found)) _
  | @matched before source rest stretch pieces nonempty taken tiles inductionHypothesis =>
    refine absurd ?_ absent
    rcases matcher_eq_some taken with ⟨content, _, rfl, _⟩ | ⟨_, _, behind, spelt, _⟩
    · exact ⟨[], content ++ [')'] ++ rest, by simp⟩
    · exact ⟨[], behind, by rw [spelt, List.nil_append]⟩

/-- What is put behind a text takes away none of the references that are read from it. -/
theorem usesFrom_prefix_append {before : Option Char} {text : Text}
    {pieces : List (Piece Stretch)} (tiles : matcher.Tiles before text pieces) (tail : Text)
    (start : Nat) :
    usesFrom start pieces <+: usesFrom start (matcher.piecesFrom before 0 (text ++ tail)) := by
  induction tiles generalizing start with
  | done before => exact List.nil_prefix
  | @copied before char rest pieces silent tiles inductionHypothesis =>
    by_cases silent' : matcher.Silent before (char :: (rest ++ tail))
    · rw [List.cons_append, Matcher.piecesFrom_cons_of_silent silent']
      exact inductionHypothesis _
    -- The text ends within an opening that the tail completes, and nothing opens behind its start.
    · have opens : opening <+: char :: rest ++ tail := by
        by_contra closed
        exact silent' (silent_of_not_leading closed)
      have short : char :: rest <+: opening :=
        (List.prefix_or_prefix_of_prefix opens (List.prefix_append _ _)).resolve_left
          (not_leading_of_silent silent)
      have absent : ¬ opening <:+: rest := fun found =>
        Nat.not_succ_le_self _ (Nat.le_trans short.length_le found.length_le)
      have nothing : usesFrom start (.copied char :: pieces) = [] :=
        usesFrom_eq_nil_of_tiles tiles absent _
      rw [nothing]
      exact List.nil_prefix
  | @matched before source rest stretch pieces nonempty taken tiles inductionHypothesis =>
    rcases matcher_eq_some taken with ⟨content, rfl, rfl, balanced, _⟩ | ⟨rfl, whole, _⟩
    · rw [List.append_assoc (opening ++ content ++ [')']) rest tail,
        Matcher.piecesFrom_append_of_taken nonempty
          (matcher_reference balanced before (rest ++ tail))]
      exact List.cons_prefix_cons.mpr ⟨rfl, inductionHypothesis _⟩
    · obtain rfl : rest = [] := by simpa using whole
      rw [tiles.eq_nil]
      exact List.nil_prefix

/-- A value that goes on keeps the references that were read from it, names, fallbacks and spans,
wherever it broke off. -/
theorem uses_prefix_append (value tail : Text) : uses value <+: uses (value ++ tail) :=
  usesFrom_prefix_append (Matcher.tiles_piecesFrom matcher_faithful none value) tail 0

/-- The value breaks off in a reference and, behind one that is closed, in an opening. -/
example :
    uses "var(--a, red) va".toList = [⟨"--a".toList, some "red".toList, 0, 13⟩] ∧
      uses ("var(--a, red) va".toList ++ "r(--b)".toList) =
        [⟨"--a".toList, some "red".toList, 0, 13⟩, ⟨"--b".toList, none, 14, 22⟩] := by decide

end Variable

/-! ### Lengths and parentheses -/

namespace Text

theorem byteLength_le_of_infix {text part : Text} (inside : part <:+: text) :
    part.byteLength ≤ text.byteLength := by
  obtain ⟨lead, behind, rfl⟩ := inside
  rw [byteLength_append, byteLength_append]
  omega

/-- The depth of a text is the number of opening parentheses less the number of closing ones. -/
theorem depth_eq_count_sub_count (text : Text) :
    depth text = (text.count '(' : Int) - text.count ')' := by
  induction text with
  | nil => rfl
  | cons char text inductionHypothesis =>
    rw [depth_cons, inductionHypothesis, List.count_cons, List.count_cons]
    unfold depthAfter
    by_cases opening : char = '('
    · simp [opening]
      omega
    · by_cases closing : char = ')'
      · simp [closing]
        omega
      · simp [opening, closing]

/-- What is open before a balanced text is open behind it and all the way. -/
theorem Balanced.staysOpen_of_nonneg {text : Text} (balanced : Balanced text) {count : Int}
    (positive : 0 ≤ count) : StaysOpen count text := by
  intro lead leads
  have opened := balanced.staysOpen lead leads
  omega

theorem Balanced.trim {text : Text} (balanced : Balanced text) : Balanced text.trim := by
  obtain ⟨lead, trail, blank, blank', spelt⟩ := exists_eq_append_trim text
  have leadLevel := (Variable.balanced_of_blank blank).depth_eq_zero
  have trailLevel := (Variable.balanced_of_blank blank').depth_eq_zero
  have whole := balanced.depth_eq_zero
  rw [spelt, depth_append, depth_append, leadLevel, trailLevel, Int.zero_add, Int.add_zero] at whole
  rw [spelt] at balanced
  exact ((balanced.of_append leadLevel).2.of_append whole).1

end Text

namespace Variable

/-! ### One stretch that is filled in -/

/-- What is filled in for a stretch: the fallback of a reference, if it is not empty. -/
def Stretch.given : Stretch → Option Text
  | reference content => (fallbackOf content).filter (!·.isEmpty)
  | unclosed => none

theorem resolvePiece_matched (source : Text) (stretch : Stretch) :
    resolvePiece (.matched source stretch) = stretch.given.getD source := by
  cases stretch <;> rfl

theorem fallbackText_eq_none_iff (start : Nat) (source : Text) (stretch : Stretch)
    (pieces : List (Piece Stretch)) :
    (∀ use ∈ usesFrom start (.matched source stretch :: pieces), use.fallbackText = none) ↔
      stretch.given = none ∧
        ∀ use ∈ usesFrom (start + source.byteLength) pieces, use.fallbackText = none := by
  cases stretch with
  | reference content => exact List.forall_mem_cons
  | unclosed => exact (and_iff_right rfl).symm

theorem balanced_reference {content : Text} (balanced : content.Balanced) :
    Text.Balanced (opening ++ content ++ [')']) := by
  have letters : Text.Balanced ['v', 'a', 'r'] := Text.balanced_of_forall_ne (by decide)
  have spelt : opening ++ content ++ [')'] = ['v', 'a', 'r'] ++ ('(' :: content ++ [')']) := by
    simp [opening]
  rw [spelt]
  exact letters.append balanced.parenthesized

/-- What is filled in is a balanced text in the place of a longer one. -/
theorem balanced_of_given {before : Option Char} {text source fallback : Text} {stretch : Stretch}
    (taken : matcher before text = some (source, stretch)) (given : stretch.given = some fallback) :
    source.Balanced ∧ fallback.Balanced ∧ fallback.byteLength < source.byteLength := by
  rcases matcher_eq_some taken with ⟨content, rfl, rfl, balanced, _⟩ | ⟨rfl, _⟩
  · obtain ⟨found, _⟩ := Option.filter_eq_some_iff.mp given
    obtain ⟨⟨name, behind⟩, split, rfl⟩ := Option.map_eq_some_iff.mp found
    refine ⟨balanced_reference balanced, (balanced_of_splitComma? balanced split).trim, ?_⟩
    have inside := Text.byteLength_le_of_infix (Text.trim_infix behind)
    have longer : 0 < Text.byteLength opening := by decide
    rw [(splitComma?_eq_some split).1]
    simp only [Text.byteLength_append, Text.byteLength_cons]
    omega
  · cases given

/-! ### All references filled in -/

/-- Either no reference gives a fallback and the text stays as it is, or one does and the text gets
shorter. -/
theorem resolved_eq_or_shorter {before : Option Char} {text : Text}
    {pieces : List (Piece Stretch)} (tiles : matcher.Tiles before text pieces) (start : Nat) :
    ((∀ use ∈ usesFrom start pieces, use.fallbackText = none) ∧
        pieces.flatMap resolvePiece = text) ∨
      (¬ (∀ use ∈ usesFrom start pieces, use.fallbackText = none) ∧
        Text.byteLength (pieces.flatMap resolvePiece) < text.byteLength) := by
  induction tiles generalizing start with
  | done before => exact Or.inl ⟨by simp [usesFrom], rfl⟩
  | @copied before char rest pieces silent tiles inductionHypothesis =>
    refine (inductionHypothesis (start + Text.byteLength [char])).imp ?_ ?_
    · rintro ⟨bare, same⟩
      exact ⟨bare, congrArg (char :: ·) same⟩
    · rintro ⟨notBare, shorter⟩
      exact ⟨notBare, Nat.add_lt_add_left shorter char.utf8Size⟩
  | @matched before source rest stretch pieces nonempty taken tiles inductionHypothesis =>
    have behind := inductionHypothesis (start + source.byteLength)
    rw [fallbackText_eq_none_iff, List.flatMap_cons, resolvePiece_matched, Text.byteLength_append,
      Text.byteLength_append]
    cases given : stretch.given with
    | none =>
      refine behind.imp ?_ ?_
      · rintro ⟨bare, same⟩
        exact ⟨⟨rfl, bare⟩, congrArg (source ++ ·) same⟩
      · rintro ⟨notBare, shorter⟩
        exact ⟨fun each => notBare each.2, Nat.add_lt_add_left shorter source.byteLength⟩
    | some fallback =>
      have shorter := (balanced_of_given taken given).2.2
      have notLonger : Text.byteLength (pieces.flatMap resolvePiece) ≤ rest.byteLength := by
        rcases behind with ⟨_, same⟩ | ⟨_, shorter⟩
        · rw [same]
        · exact Nat.le_of_lt shorter
      exact Or.inr ⟨by simp, Nat.add_lt_add_of_lt_of_le shorter notLonger⟩

/-- Filling in changes neither the depth nor whether a text stays open. -/
theorem depth_and_staysOpen_resolved {before : Option Char} {text : Text}
    {pieces : List (Piece Stretch)} (tiles : matcher.Tiles before text pieces) :
    Text.depth (pieces.flatMap resolvePiece) = text.depth ∧
      ∀ count, Text.StaysOpen count text →
        Text.StaysOpen count (pieces.flatMap resolvePiece) := by
  induction tiles with
  | done before => exact ⟨rfl, fun count opened => opened⟩
  | @copied before char rest pieces silent tiles inductionHypothesis =>
    obtain ⟨level, staysOpen⟩ := inductionHypothesis
    have filled : (Piece.copied char :: pieces).flatMap resolvePiece =
        char :: pieces.flatMap resolvePiece := rfl
    rw [filled, Text.depth_cons, Text.depth_cons, level]
    refine ⟨rfl, fun count opened => ?_⟩
    obtain ⟨positive, opened⟩ := Text.staysOpen_cons.mp opened
    exact Text.staysOpen_cons.mpr ⟨positive, staysOpen _ opened⟩
  | @matched before source rest stretch pieces nonempty taken tiles inductionHypothesis =>
    obtain ⟨level, staysOpen⟩ := inductionHypothesis
    rw [List.flatMap_cons, resolvePiece_matched, Text.depth_append, Text.depth_append, level]
    cases given : stretch.given with
    | none =>
      refine ⟨rfl, fun count opened => ?_⟩
      obtain ⟨opened, opened'⟩ := Text.staysOpen_append.mp opened
      exact Text.staysOpen_append.mpr ⟨opened, staysOpen _ opened'⟩
    | some fallback =>
      obtain ⟨balanced, balanced', _⟩ := balanced_of_given taken given
      rw [Option.getD_some, balanced.depth_eq_zero, balanced'.depth_eq_zero]
      refine ⟨rfl, fun count opened => ?_⟩
      have positive : 0 ≤ count := by simpa using opened [] List.nil_prefix
      have opened' := (Text.staysOpen_append.mp opened).2
      rw [balanced.depth_eq_zero] at opened'
      refine Text.staysOpen_append.mpr ⟨balanced'.staysOpen_of_nonneg positive, ?_⟩
      rw [balanced'.depth_eq_zero]
      exact staysOpen _ opened'

/-! ### Filling in again and again -/

theorem resolve_eq_or_shorter (value : Text) :
    ((∀ use ∈ uses value, use.fallbackText = none) ∧ resolve value = value) ∨
      (¬ (∀ use ∈ uses value, use.fallbackText = none) ∧
        (resolve value).byteLength < value.byteLength) :=
  resolved_eq_or_shorter (Matcher.tiles_piecesFrom matcher_faithful none value) 0

/-- A value is at rest after as many rounds as it has bytes. -/
theorem resolve_iterate_of_byteLength_le {steps : Nat} {value : Text}
    (short : value.byteLength ≤ steps) : resolve (resolve^[steps] value) = resolve^[steps] value := by
  induction steps generalizing value with
  | zero =>
    rcases resolve_eq_or_shorter value with ⟨_, same⟩ | ⟨_, shorter⟩
    · exact same
    · omega
  | succ steps inductionHypothesis =>
    rcases resolve_eq_or_shorter value with ⟨_, same⟩ | ⟨_, shorter⟩
    · rw [Function.iterate_fixed same, same]
    · rw [Function.iterate_succ_apply]
      exact inductionHypothesis (by omega)

/-- The value after so many rounds, in each of which its references are read and filled in by their
spans. -/
def afterRounds? (value : Text) : (rounds : Nat) → Option Text
  | 0 => some value
  | rounds + 1 => do
    let value ← afterRounds? value rounds
    substitute? value (uses value)

theorem afterRounds?_eq (value : Text) (rounds : Nat) :
    afterRounds? value rounds = some (resolve^[rounds] value) := by
  induction rounds with
  | zero => rfl
  | succ rounds inductionHypothesis =>
    rw [afterRounds?, inductionHypothesis, Option.bind_eq_bind, Option.bind_some, substitute?_uses,
      Function.iterate_succ_apply']

/-- Filling in leaves a value as it is just if no reference in it has a fallback, and makes it
shorter otherwise. It takes away as many opening parentheses as closing ones, and a balanced value
stays balanced. Filled in again and again, a value comes to rest in as many rounds as it has bytes. -/
theorem substitute?_uses_shrinks (value : Text) :
    ∃ filled, substitute? value (uses value) = some filled ∧
      (filled = value ↔ ∀ use ∈ uses value, use.fallbackText = none) ∧
      (filled ≠ value → filled.byteLength < value.byteLength) ∧
      (filled.count '(' : Int) - filled.count ')' = value.count '(' - value.count ')' ∧
      (value.Balanced → filled.Balanced) ∧
      ∃ last, afterRounds? value value.byteLength = some last ∧
        substitute? last (uses last) = some last := by
  obtain ⟨level, staysOpen⟩ :=
    depth_and_staysOpen_resolved (Matcher.tiles_piecesFrom matcher_faithful none value)
  refine ⟨resolve value, substitute?_uses value, ?_, ?_, ?_, ?_, ?_⟩
  · rcases resolve_eq_or_shorter value with ⟨bare, same⟩ | ⟨notBare, shorter⟩
    · exact iff_of_true same bare
    · refine iff_of_false (fun same => ?_) notBare
      rw [same] at shorter
      exact Nat.lt_irrefl _ shorter
  · intro different
    rcases resolve_eq_or_shorter value with ⟨_, same⟩ | ⟨_, shorter⟩
    · exact absurd same different
    · exact shorter
  · rw [← Text.depth_eq_count_sub_count, ← Text.depth_eq_count_sub_count]
    exact level
  · exact fun balanced => ⟨staysOpen 0 balanced.staysOpen, level.trans balanced.depth_eq_zero⟩
  · refine ⟨_, afterRounds?_eq value value.byteLength, ?_⟩
    rw [substitute?_uses, resolve_iterate_of_byteLength_le (Nat.le_refl _)]

/-- A fallback completes an opening that began before it, and is filled in by the next round. -/
example :
    afterRounds? "vvar(--a, ar(--b, red))".toList 1 = some "var(--b, red)".toList ∧
      afterRounds? "vvar(--a, ar(--b, red))".toList 2 = some "red".toList := by decide

end Variable

end AtomicCss
