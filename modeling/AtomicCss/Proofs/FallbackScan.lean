/-
This file shows that the scan of a class for a fallback cuts the class in one way only. A segment
that the scan consumes, a spelling in brackets or behind a hyphen, is the only one that stands at its
place, since no spelling starts another one; and a character is copied only where nothing can be
consumed. The scan loses nothing and doubles nothing: the segments spell the class, and what it
writes is written for one segment after the other.
-/

import AtomicCss.Proofs.TokenWriting

namespace AtomicCss

namespace TokenInjection

/-! ### Segments -/

/-- A part of a class as the scan takes it: a single character, a spelling in brackets with blanks
around it, or a spelling behind a hyphen. -/
inductive Segment where
  | copied (char : Char)
  | bracketed (lead variant trail : Text)
  | hyphenated (variant : Text)

namespace Segment

/-- The text that the segment is read from. -/
def source : Segment → Text
  | copied char => [char]
  | bracketed lead variant trail => '[' :: (lead ++ (variant ++ (trail ++ [']'])))
  | hyphenated variant => '-' :: variant

/-- The text that is written for the segment. -/
def written (token : Text) : Segment → Text
  | copied char => [char]
  | bracketed _ _ _ => token
  | hyphenated _ => '-' :: token

theorem source_ne_nil (segment : Segment) : segment.source ≠ [] := by
  cases segment <;> exact List.cons_ne_nil _ _

end Segment

/-- The segment is consumed where `rest` stands behind it: a spelling of the fallback in brackets, or
one behind a hyphen that no character of a name carries on. -/
inductive Consumed (fallback : Text) : Segment → (rest : Text) → Prop where
  | bracketed {lead variant trail rest : Text} (isSpelling : IsSpelling fallback variant)
      (blank : ∀ char ∈ lead, isBlank char = true) (blank' : ∀ char ∈ trail, isBlank char = true) :
      Consumed fallback (.bracketed lead variant trail) rest
  | hyphenated {variant rest : Text} (isSpelling : IsSpelling fallback variant)
      (stopped : Text.stops isNameChar rest = true) :
      Consumed fallback (.hyphenated variant) rest

/-- The segments cut a class from left to right, and a character is copied only where nothing can be
consumed. -/
inductive Splits (fallback : Text) : Text → List Segment → Prop where
  | done : Splits fallback [] []
  | copied {char : Char} {rest : Text} {segments : List Segment}
      (nothing : ∀ segment behind, segment.source ++ behind = char :: rest →
        ¬ Consumed fallback segment behind)
      (splits : Splits fallback rest segments) :
      Splits fallback (char :: rest) (.copied char :: segments)
  | consumed {segment : Segment} {rest : Text} {segments : List Segment}
      (consumed : Consumed fallback segment rest) (splits : Splits fallback rest segments) :
      Splits fallback (segment.source ++ rest) (segment :: segments)

section Scan

variable {fallback : Text}

/-! ### There is one way to cut -/

/-- At one place at most one segment can be consumed. -/
theorem Consumed.unique {segment segment' : Segment} {rest rest' : Text}
    (consumed : Consumed fallback segment rest) (consumed' : Consumed fallback segment' rest')
    (same : segment.source ++ rest = segment'.source ++ rest') :
    segment = segment' ∧ rest = rest' := by
  cases consumed with
  | @bracketed lead variant trail rest isSpelling blankLead blankTrail =>
    cases consumed' with
    | @bracketed lead' variant' trail' rest' isSpelling' blankLead' blankTrail' =>
      have listed := mem_variants_iff_isSpelling.mpr isSpelling
      have listed' := mem_variants_iff_isSpelling.mpr isSpelling'
      have starts {variant : Text} (listed : variant ∈ variants fallback) (behind : Text) :
          Text.stops isBlank (variant ++ behind) = true := by
        have head := (trimmed_of_mem_variants listed).head
        obtain ⟨first, more, rfl⟩ := List.exists_cons_of_ne_nil (ne_nil_of_mem_variants listed)
        exact head
      simp only [Segment.source, List.cons_append, List.append_assoc] at same
      obtain ⟨rfl, behindLead⟩ := Text.run_unique (List.cons.inj same).2 blankLead
        (starts listed _) blankLead' (starts listed' _)
      obtain ⟨rfl, behindVariant⟩ := variants_unique listed listed' behindLead
      obtain ⟨rfl, closed⟩ := Text.run_unique behindVariant blankTrail rfl blankTrail' rfl
      exact ⟨rfl, (List.cons.inj closed).2⟩
    | hyphenated => cases (List.cons.inj same).1
  | @hyphenated variant rest isSpelling stopped =>
    cases consumed' with
    | bracketed => cases (List.cons.inj same).1
    | @hyphenated variant' rest' isSpelling' stopped' =>
      obtain ⟨rfl, behind⟩ := variants_unique (mem_variants_iff_isSpelling.mpr isSpelling)
        (mem_variants_iff_isSpelling.mpr isSpelling') (List.cons.inj same).2
      exact ⟨rfl, behind⟩

/-- A class is cut in one way only. -/
theorem Splits.unique {text : Text} {segments segments' : List Segment}
    (splits : Splits fallback text segments) (splits' : Splits fallback text segments') :
    segments = segments' := by
  induction splits generalizing segments' with
  | done =>
    generalize empty : ([] : Text) = text at splits'
    cases splits' with
    | done => rfl
    | copied => cases empty
    | @consumed segment => exact absurd (List.append_eq_nil_iff.mp empty.symm).1 segment.source_ne_nil
  | @copied char rest segments nothing splits inductionHypothesis =>
    generalize spelt : char :: rest = text at splits'
    cases splits' with
    | done => cases spelt
    | copied nothing' splits' =>
      obtain ⟨rfl, rfl⟩ := List.cons.inj spelt
      rw [inductionHypothesis splits']
    | consumed consumed splits' => exact absurd consumed (nothing _ _ spelt.symm)
  | @consumed segment rest segments consumed splits inductionHypothesis =>
    generalize spelt : segment.source ++ rest = text at splits'
    cases splits' with
    | done => exact absurd (List.append_eq_nil_iff.mp spelt).1 segment.source_ne_nil
    | copied nothing splits' => exact absurd consumed (nothing _ _ spelt)
    | consumed consumed' splits' =>
      obtain ⟨rfl, rfl⟩ := consumed.unique consumed' spelt
      rw [inductionHypothesis splits']

theorem Splits.flatMap_source {text : Text} {segments : List Segment}
    (splits : Splits fallback text segments) : segments.flatMap Segment.source = text := by
  induction splits with
  | done => rfl
  | copied nothing splits inductionHypothesis =>
    rw [List.flatMap_cons, inductionHypothesis]
    rfl
  | consumed consumed splits inductionHypothesis =>
    rw [List.flatMap_cons, inductionHypothesis]

/-! ### The scan cuts this way -/

/-- What can be consumed at a place is what the scan takes there. -/
theorem Consumed.fallbackMatcher_eq {segment : Segment} {rest : Text}
    (consumed : Consumed fallback segment rest) (token : Text) (before : Option Char) :
    fallbackMatcher (variants fallback) token before (segment.source ++ rest) =
      some (segment.source, segment.written token) := by
  cases consumed with
  | bracketed isSpelling blank blank' =>
    exact fallbackMatcher_variant (mem_variants_iff_isSpelling.mpr isSpelling) blank blank' token
      before _
  | hyphenated isSpelling stopped =>
    exact fallbackMatcher_hyphenated (mem_variants_iff_isSpelling.mpr isSpelling) stopped token before

/-- What the scan takes at a place can be consumed there. -/
theorem exists_consumed_of_found {token text source replacement : Text}
    (found : Found (variants fallback) token text source replacement) :
    ∃ segment rest, Consumed fallback segment rest ∧ text = segment.source ++ rest ∧
      source = segment.source ∧ replacement = segment.written token := by
  cases found with
  | @bracketed lead variant trail rest listed blank blank' =>
    have isSpelling := mem_variants_iff_isSpelling.mp listed
    refine ⟨.bracketed lead variant trail, rest, .bracketed isSpelling blank blank', ?_, rfl, rfl⟩
    simp [Segment.source]
  | @hyphenated variant rest listed stopped =>
    have isSpelling := mem_variants_iff_isSpelling.mp listed
    exact ⟨.hyphenated variant, rest, .hyphenated isSpelling stopped, rfl, rfl, rfl⟩

theorem exists_splits_of_tiles {token text : Text} {before : Option Char}
    {pieces : List (Piece Text)}
    (tiles : (fallbackMatcher (variants fallback) token).Tiles before text pieces) :
    ∃ segments, Splits fallback text segments ∧
      pieces.flatMap Piece.replacement = segments.flatMap (Segment.written token) := by
  induction tiles with
  | done => exact ⟨[], .done, rfl⟩
  | @copied before char rest pieces silent tiles inductionHypothesis =>
    obtain ⟨segments, splits, same⟩ := inductionHypothesis
    refine ⟨.copied char :: segments, .copied (fun segment behind spelt consumed => ?_) splits, ?_⟩
    · have taken := consumed.fallbackMatcher_eq token before
      rw [spelt] at taken
      exact segment.source_ne_nil (silent _ _ taken)
    · rw [List.flatMap_cons, List.flatMap_cons, same]
      rfl
  | @matched before source rest replacement pieces nonempty taken tiles inductionHypothesis =>
    obtain ⟨segments, splits, same⟩ := inductionHypothesis
    obtain ⟨segment, behind, consumed, spelt, rfl, rfl⟩ :=
      exists_consumed_of_found (found_of_fallbackMatcher taken)
    obtain rfl := List.append_cancel_left spelt
    refine ⟨segment :: segments, .consumed consumed splits, ?_⟩
    rw [List.flatMap_cons, List.flatMap_cons, same]
    rfl

end Scan

/-- For every class and every fallback there is exactly one way to cut the class into characters at
which nothing matches and segments that match, and for every token the scan writes what is written
for these segments, one after the other. -/
theorem exists_unique_splits (fallback name : Text) :
    ∃ segments, Splits fallback name segments ∧
      (∀ segments', Splits fallback name segments' → segments' = segments) ∧
      segments.flatMap Segment.source = name ∧
      ∀ token, replaceFallback fallback token name = segments.flatMap (Segment.written token) := by
  have scanned (token : Text) := exists_splits_of_tiles
    (Matcher.tiles_piecesFrom (fallbackMatcher_faithful (variants fallback) token) none name)
  obtain ⟨segments, splits, _⟩ := scanned []
  refine ⟨segments, splits, fun segments' splits' => splits'.unique splits, splits.flatMap_source,
    fun token => ?_⟩
  obtain ⟨segments', splits', same⟩ := scanned token
  rw [splits.unique splits']
  exact same

end TokenInjection

end AtomicCss
