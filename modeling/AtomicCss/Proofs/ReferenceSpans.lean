/-
This file characterises the spans of the references in a value on the value's UTF-8 bytes. Spans
are the spans of references if each is a reference from its opening to the parenthesis that matches
it, no opening lies between two of them, and what lies behind the last one has no opening or one
that is never closed. Exactly one list of spans is of that kind, and it is the one that reading the
value gives.

The list is unique for a reason that has nothing to do with characters: from where a span ends, the
next opening and its closing parenthesis are determined byte by byte. That reading finds it is an
induction over the tiling of the value, and there it matters that an opening and a parenthesis are
spelt in ASCII, so that they stand among the bytes only where they stand among the characters.
-/

import AtomicCss.Proofs.Sweep
import AtomicCss.Proofs.Utf8

namespace AtomicCss

/-- The bytes of the value that the reference takes up, the end excluded. -/
def VariableUse.span (use : VariableUse) : Nat × Nat :=
  (use.start, use.stop)

namespace Variable

open Text

/-! ### References among bytes -/

def closingByte : UInt8 := 0x29

/-- An opening starts at this byte. -/
def OpensAt (bytes : List UInt8) (offset : Nat) : Prop :=
  utf8 opening <+: bytes.drop offset

/-- The parenthesis right behind the bytes is the one that closes a parenthesis right before them:
the depth, counted from one, is zero there and nowhere before. -/
structure Closed (content : List UInt8) : Prop where
  staysOpen : ∀ lead, lead <+: content → 0 < byteDepth 1 lead
  closes : byteDepth 1 (content ++ [closingByte]) = 0

/-- The span is that of a reference: it is not empty, it lies in the value and between characters,
and it holds an opening and what follows it through the parenthesis that matches. -/
structure IsReference (value : Text) (span : Nat × Nat) : Prop where
  nonempty : span.1 < span.2
  inside : span.2 ≤ value.utf8.length
  startBoundary : value.IsBoundary span.1
  stopBoundary : value.IsBoundary span.2
  spelt : ∃ content, Closed content ∧
    (value.utf8.drop span.1).take (span.2 - span.1) = utf8 opening ++ content ++ [closingByte]

/-- The end of the last span, or `start` if there is none. -/
def endOf (start : Nat) (spans : List (Nat × Nat)) : Nat :=
  spans.foldl (fun _ span => span.2) start

/-- Behind `start` there is no opening, or the first one is never closed. -/
def NothingBehind (bytes : List UInt8) (start : Nat) : Prop :=
  ∀ offset, start ≤ offset → OpensAt bytes offset →
    (∀ earlier, start ≤ earlier → earlier < offset → ¬ OpensAt bytes earlier) →
      ¬ ∃ content rest, Closed content ∧
        bytes.drop offset = utf8 opening ++ content ++ closingByte :: rest

/-- The spans are those of the references in the value: from left to right and disjoint, with no
opening between two of them or before the first, and none that is closed behind the last. -/
structure AreSpans (value : Text) (spans : List (Nat × Nat)) : Prop where
  references : ∀ span ∈ spans, IsReference value span
  inOrder : spans.Pairwise fun first second => first.2 ≤ second.1
  nothingBetween : ∀ before span after, spans = before ++ span :: after →
    ∀ offset, endOf 0 before ≤ offset → offset < span.1 → ¬ OpensAt value.utf8 offset
  nothingBehind : NothingBehind value.utf8 (endOf 0 spans)

/-! ### Spans, one after the other -/

/-- The spans of the references from `start` on. -/
inductive SpansFrom (value : Text) : (start : Nat) → List (Nat × Nat) → Prop where
  | done {start : Nat} (nothing : NothingBehind value.utf8 start) : SpansFrom value start []
  | next {start : Nat} {span : Nat × Nat} {spans : List (Nat × Nat)} (behind : start ≤ span.1)
      (clear : ∀ offset, start ≤ offset → offset < span.1 → ¬ OpensAt value.utf8 offset)
      (reference : IsReference value span) (rest : SpansFrom value span.2 spans) :
      SpansFrom value start (span :: spans)

/-- Bytes at which nothing opens may be put in front. -/
theorem SpansFrom.of_clear {value : Text} {start start' : Nat} {spans : List (Nat × Nat)}
    (spansFrom : SpansFrom value start' spans) (before : start ≤ start')
    (clear : ∀ offset, start ≤ offset → offset < start' → ¬ OpensAt value.utf8 offset) :
    SpansFrom value start spans := by
  have later {offset : Nat} (fromStart : start ≤ offset) (opens : OpensAt value.utf8 offset) :
      start' ≤ offset :=
    Nat.le_of_not_lt fun earlier => clear offset fromStart earlier opens
  cases spansFrom with
  | done nothing =>
    refine .done fun offset fromStart opens first => ?_
    exact nothing offset (later fromStart opens) opens fun earlier fromStart' =>
      first earlier (Nat.le_trans before fromStart')
  | next behind clear' reference rest =>
    refine .next (Nat.le_trans before behind) (fun offset fromStart earlier opens => ?_)
      reference rest
    exact clear' offset (later fromStart opens) earlier opens

theorem SpansFrom.of_areSpans {value : Text} {done spans : List (Nat × Nat)}
    (areSpans : AreSpans value (done ++ spans)) :
    SpansFrom value (endOf 0 done) spans := by
  induction spans generalizing done with
  | nil => exact .done (by simpa using areSpans.nothingBehind)
  | cons span spans inductionHypothesis =>
    have ended : endOf 0 (done ++ [span]) = span.2 := by
      rw [endOf, List.foldl_append]
      rfl
    refine .next ?_ (areSpans.nothingBetween done span spans rfl)
      (areSpans.references span (by simp)) ?_
    · rcases List.eq_nil_or_concat done with rfl | ⟨earlier, last, rfl⟩
      · exact Nat.zero_le _
      · have lastEnd : endOf 0 (earlier ++ [last]) = last.2 := by
          rw [endOf, List.foldl_append]
          rfl
        rw [List.concat_eq_append, lastEnd]
        exact (List.pairwise_append.mp areSpans.inOrder).2.2 last (by simp) span (by simp)
    · rw [← ended]
      exact inductionHypothesis (by simpa using areSpans)

theorem SpansFrom.le_of_mem {value : Text} {start : Nat} {spans : List (Nat × Nat)}
    (spansFrom : SpansFrom value start spans) {span : Nat × Nat} (member : span ∈ spans) :
    start ≤ span.1 := by
  induction spansFrom with
  | done => cases member
  | @next start first spans behind clear reference rest inductionHypothesis =>
    rcases List.mem_cons.mp member with rfl | member
    · exact behind
    · exact Nat.le_trans behind (Nat.le_trans (Nat.le_of_lt reference.nonempty)
        (inductionHypothesis member))

theorem SpansFrom.pairwise {value : Text} {start : Nat} {spans : List (Nat × Nat)}
    (spansFrom : SpansFrom value start spans) :
    spans.Pairwise fun first second => first.2 ≤ second.1 := by
  induction spansFrom with
  | done => exact .nil
  | next behind clear reference rest inductionHypothesis =>
    exact .cons (fun span member => rest.le_of_mem member) inductionHypothesis

theorem SpansFrom.isReference_of_mem {value : Text} {start : Nat} {spans : List (Nat × Nat)}
    (spansFrom : SpansFrom value start spans) {span : Nat × Nat} (member : span ∈ spans) :
    IsReference value span := by
  induction spansFrom with
  | done => cases member
  | next behind clear reference rest inductionHypothesis =>
    rcases List.mem_cons.mp member with rfl | member
    · exact reference
    · exact inductionHypothesis member

theorem SpansFrom.nothing_between {value : Text} {start : Nat} {spans : List (Nat × Nat)}
    (spansFrom : SpansFrom value start spans) {before after : List (Nat × Nat)}
    {span : Nat × Nat} (split : spans = before ++ span :: after) {offset : Nat}
    (fromEnd : endOf start before ≤ offset) (earlier : offset < span.1) :
    ¬ OpensAt value.utf8 offset := by
  induction spansFrom generalizing before with
  | done => simp at split
  | next behind clear reference rest inductionHypothesis =>
    cases before with
    | nil =>
      obtain ⟨rfl, rfl⟩ := List.cons.inj split
      exact clear offset fromEnd earlier
    | cons first before =>
      obtain ⟨rfl, behind⟩ := List.cons.inj split
      exact inductionHypothesis behind fromEnd

theorem SpansFrom.nothing_behind {value : Text} {start : Nat} {spans : List (Nat × Nat)}
    (spansFrom : SpansFrom value start spans) :
    NothingBehind value.utf8 (endOf start spans) := by
  induction spansFrom with
  | done nothing => exact nothing
  | next behind clear reference rest inductionHypothesis => exact inductionHypothesis

theorem areSpans_iff_spansFrom {value : Text} {spans : List (Nat × Nat)} :
    AreSpans value spans ↔ SpansFrom value 0 spans := by
  constructor
  · intro areSpans
    exact SpansFrom.of_areSpans (show AreSpans value ([] ++ spans) from areSpans)
  · intro spansFrom
    exact {
      references := fun span member => spansFrom.isReference_of_mem member
      inOrder := spansFrom.pairwise
      nothingBetween := fun before span after split offset fromEnd earlier =>
        spansFrom.nothing_between split fromEnd earlier
      nothingBehind := spansFrom.nothing_behind }

/-! ### Uniqueness -/

/-- Two contents that start the same bytes and are closed there are the same. -/
theorem Closed.eq_of_append_eq {first second rest rest' : List UInt8} (closed : Closed first)
    (closed' : Closed second)
    (same : first ++ closingByte :: rest = second ++ closingByte :: rest') : first = second := by
  have shorter {short long tail tail' : List UInt8} (closedShort : Closed short)
      (closedLong : Closed long)
      (equal : short ++ closingByte :: tail = long ++ closingByte :: tail') :
      ¬ short.length < long.length := by
    intro less
    have leads : short ++ [closingByte] <+: long := by
      have starts : short ++ [closingByte] <+: long ++ closingByte :: tail' :=
        ⟨tail, by rw [List.append_assoc, List.singleton_append, equal]⟩
      refine List.prefix_of_prefix_length_le starts (List.prefix_append _ _) ?_
      rw [List.length_append]
      exact less
    have opened := closedLong.staysOpen _ leads
    rw [closedShort.closes] at opened
    exact Int.lt_irrefl 0 opened
  have lengths : first.length = second.length :=
    Nat.le_antisymm (Nat.le_of_not_lt (shorter closed' closed same.symm))
      (Nat.le_of_not_lt (shorter closed closed' same))
  exact (List.append_inj same lengths).1

theorem IsReference.exists_drop_eq {value : Text} {span : Nat × Nat}
    (reference : IsReference value span) :
    ∃ content rest, Closed content ∧ span.2 = span.1 + (utf8 opening ++ content).length + 1 ∧
      value.utf8.drop span.1 = utf8 opening ++ content ++ closingByte :: rest := by
  obtain ⟨content, closed, spelt⟩ := reference.spelt
  refine ⟨content, (value.utf8.drop span.1).drop (span.2 - span.1), closed, ?_, ?_⟩
  · have lengths := congrArg List.length spelt
    have nonempty := reference.nonempty
    have inside := reference.inside
    simp only [List.length_take, List.length_drop, List.length_append, List.length_singleton]
      at lengths ⊢
    omega
  · rw [← List.singleton_append, ← List.append_assoc, ← spelt, List.take_append_drop]

theorem IsReference.opensAt {value : Text} {span : Nat × Nat}
    (reference : IsReference value span) : OpensAt value.utf8 span.1 := by
  obtain ⟨content, rest, _, _, spelt⟩ := reference.exists_drop_eq
  exact ⟨content ++ closingByte :: rest, by rw [spelt, List.append_assoc]⟩

/-- Two references that start at one place are the same. -/
theorem IsReference.eq_of_start_eq {value : Text} {first second : Nat × Nat}
    (reference : IsReference value first) (reference' : IsReference value second)
    (same : first.1 = second.1) : first = second := by
  obtain ⟨content, rest, closed, stop, spelt⟩ := reference.exists_drop_eq
  obtain ⟨content', rest', closed', stop', spelt'⟩ := reference'.exists_drop_eq
  rw [same, spelt', List.append_assoc, List.append_assoc, List.append_cancel_left_eq] at spelt
  have contents := closed'.eq_of_append_eq closed spelt
  refine Prod.ext same ?_
  rw [stop, stop', same, contents]

/-- From one place on there is one list of spans. -/
theorem SpansFrom.unique {value : Text} {start : Nat} {spans spans' : List (Nat × Nat)}
    (spansFrom : SpansFrom value start spans) (spansFrom' : SpansFrom value start spans') :
    spans = spans' := by
  have behindNothing {start : Nat} {span : Nat × Nat} (nothing : NothingBehind value.utf8 start)
      (behind : start ≤ span.1)
      (clear : ∀ offset, start ≤ offset → offset < span.1 → ¬ OpensAt value.utf8 offset)
      (reference : IsReference value span) : False := by
    obtain ⟨content, rest, closed, _, spelt⟩ := reference.exists_drop_eq
    exact nothing span.1 behind reference.opensAt clear ⟨content, rest, closed, spelt⟩
  induction spansFrom generalizing spans' with
  | done nothing =>
    cases spansFrom' with
    | done => rfl
    | next behind clear reference rest =>
      exact (behindNothing nothing behind clear reference).elim
  | next behind clear reference rest inductionHypothesis =>
    cases spansFrom' with
    | done nothing => exact (behindNothing nothing behind clear reference).elim
    | next behind' clear' reference' rest' =>
      have starts := Nat.le_antisymm
        (Nat.le_of_not_lt fun less => clear _ behind' less reference'.opensAt)
        (Nat.le_of_not_lt fun less => clear' _ behind less reference.opensAt)
      obtain rfl := reference.eq_of_start_eq reference' starts
      rw [inductionHypothesis rest']

/-! ### References among characters -/

/-- An opening stands among the bytes only where it stands among the characters. -/
theorem OpensAt.exists_eq_append {value : Text} {offset : Nat}
    (opens : OpensAt value.utf8 offset) :
    ∃ first second, value = first ++ (opening ++ second) ∧ (utf8 first).length = offset := by
  obtain ⟨behind, spelt⟩ := opens
  have divided : value.utf8 = value.utf8.take offset ++
      (0x76 :: (utf8 ['a', 'r', '('] ++ behind)) := by
    refine (List.take_append_drop offset value.utf8).symm.trans ?_
    rw [← spelt]
    rfl
  obtain ⟨first, char, second, rfl, lead, _, _⟩ := exists_eq_append_of_utf8_eq (by decide) divided
  have rest : utf8 (char :: second) = utf8 opening ++ behind := by
    rw [← lead, utf8_append] at divided
    exact List.append_cancel_left divided
  obtain ⟨more, same, _⟩ := exists_eq_append_of_utf8_eq_append (by decide) rest
  refine ⟨first, more, by rw [same], ?_⟩
  have room : offset < (utf8 (first ++ char :: second)).length := by
    refine Nat.lt_of_not_le fun beyond => ?_
    rw [List.drop_eq_nil_of_le beyond] at spelt
    simp [opening] at spelt
  rw [lead, List.length_take]
  omega

/-- Where the reader takes nothing, no reference opens. -/
theorem not_leading_of_silent {before : Option Char} {char : Char} {rest : Text}
    (silent : matcher.Silent before (char :: rest)) : ¬ opening <+: char :: rest := by
  rintro ⟨behind, spelt⟩
  have found : Text.after? opening (char :: rest) = some behind :=
    Text.after?_eq_some_iff.mpr spelt.symm
  simp only [Matcher.Silent, matcher, found, Option.bind_eq_bind, Option.bind_some] at silent
  cases closed : untilClosing? 0 behind with
  | none =>
    rw [closed] at silent
    exact absurd (silent _ _ rfl) (List.cons_ne_nil char rest)
  | some parts =>
    rw [closed] at silent
    exact absurd (silent _ _ rfl) (List.append_ne_nil_of_right_ne_nil _ (List.cons_ne_nil ')' []))

/-- Behind a place where no opening stands, an opening stands behind the next character. -/
theorem OpensAt.not_of_silent {lead rest : Text} {before : Option Char} {char : Char}
    (silent : matcher.Silent before (char :: rest)) {offset : Nat}
    (fromStart : (utf8 lead).length ≤ offset)
    (earlier : offset < (utf8 (lead ++ [char])).length) :
    ¬ OpensAt (utf8 (lead ++ char :: rest)) offset := by
  intro opens
  obtain ⟨first, second, spelt, rfl⟩ := opens.exists_eq_append
  have starts : first = lead := by
    rcases List.append_eq_append_iff.mp spelt with ⟨more, rfl, behind⟩ | ⟨more, rfl, _⟩
    · cases more with
      | nil => exact List.append_nil lead
      | cons head more =>
        obtain ⟨rfl, _⟩ := List.cons.inj behind
        simp only [utf8_append, utf8_cons, utf8_nil, List.length_append, List.length_nil]
          at earlier
        omega
    · cases more with
      | nil => exact (List.append_nil first).symm
      | cons head more =>
        rw [utf8_append, List.length_append, utf8_cons, List.length_append,
          String.length_utf8EncodeChar] at fromStart
        have positive := head.utf8Size_pos
        omega
  subst starts
  have here : char :: rest = opening ++ second := List.append_cancel_left spelt
  exact not_leading_of_silent silent ⟨second, here.symm⟩

/-- What the reader takes is a reference that is closed, or the rest of the value. -/
theorem matcher_eq_some {before : Option Char} {text source : Text} {stretch : Stretch}
    (taken : matcher before text = some (source, stretch)) :
    (∃ content, stretch = .reference content ∧ source = opening ++ content ++ [')'] ∧
      Balanced content ∧ source <+: text) ∨
    (stretch = .unclosed ∧ source = text ∧ ∃ rest, text = opening ++ rest ∧
      untilClosing? 0 rest = none) := by
  simp only [matcher, bind, Option.bind_eq_some_iff] at taken
  obtain ⟨rest, found, taken⟩ := taken
  have spelt := Text.after?_eq_some_iff.mp found
  cases closing : untilClosing? 0 rest with
  | none =>
    rw [closing] at taken
    obtain ⟨rfl, rfl⟩ : text = source ∧ Stretch.unclosed = stretch := by simpa using taken
    exact Or.inr ⟨rfl, rfl, rest, spelt, closing⟩
  | some parts =>
    obtain ⟨content, after⟩ := parts
    rw [closing] at taken
    obtain ⟨rfl, rfl⟩ : opening ++ content ++ [')'] = source ∧
        Stretch.reference content = stretch := by simpa using taken
    obtain ⟨rfl, balanced⟩ := untilClosing?_zero_eq_some_iff.mp closing
    exact Or.inl ⟨content, rfl, rfl, balanced, after, by rw [spelt]; simp⟩

theorem matcher_faithful : matcher.Faithful := by
  intro before text source stretch taken
  rcases matcher_eq_some taken with ⟨content, _, _, _, leads⟩ | ⟨_, rfl, _⟩
  · exact leads
  · exact List.prefix_refl source

/-- The bytes of a balanced text are closed by a parenthesis right behind them. -/
theorem closed_utf8_iff {content : Text} : Closed (utf8 content) ↔ Balanced content := by
  have closing : utf8 [')'] = [closingByte] := by decide
  constructor
  · intro closed
    refine ⟨fun lead leads => ?_, ?_⟩
    · obtain ⟨rest, rfl⟩ := leads
      have opened := closed.staysOpen (utf8 lead) ⟨utf8 rest, (utf8_append _ _).symm⟩
      rw [byteDepth_utf8] at opened
      omega
    · have closes := closed.closes
      rw [← closing, ← utf8_append, byteDepth_utf8, depth_append] at closes
      have last : depth [')'] = -1 := rfl
      omega
  · intro balanced
    refine ⟨fun lead leads => ?_, ?_⟩
    · obtain ⟨first, firstLeads, same⟩ := exists_depth_eq_of_prefix leads
      have opened := balanced.staysOpen first firstLeads
      rw [same]
      omega
    · rw [← closing, ← utf8_append, byteDepth_utf8, depth_append, balanced.depth_eq_zero]
      rfl

/-- Where the reader finds an opening that is never closed, the bytes have none that is. -/
theorem nothingBehind_of_untilClosing?_eq_none {lead rest : Text}
    (unclosed : untilClosing? 0 rest = none) :
    NothingBehind (utf8 (lead ++ (opening ++ rest))) (utf8 lead).length := by
  rintro offset fromStart opens first ⟨content, behind, closed, spelt⟩
  have here : OpensAt (utf8 (lead ++ (opening ++ rest))) (utf8 lead).length := by
    refine ⟨utf8 rest, ?_⟩
    rw [utf8_append, List.drop_left, utf8_append]
  obtain rfl : offset = (utf8 lead).length := by
    refine Nat.le_antisymm (Nat.le_of_not_lt fun later => ?_) fromStart
    exact first _ (Nat.le_refl _) later here
  rw [utf8_append, List.drop_left, utf8_append, List.append_assoc,
    List.append_cancel_left_eq] at spelt
  obtain ⟨inner, char, after, rfl, rfl, single, _⟩ :=
    exists_eq_append_of_utf8_eq (by decide) spelt
  obtain rfl : ')' = char := by
    refine eq_of_utf8EncodeChar_eq (by decide) ?_
    rw [single]
    decide
  have found : untilClosing? 0 (inner ++ ')' :: after) = some (inner, after) :=
    untilClosing?_zero_eq_some_iff.mpr ⟨rfl, closed_utf8_iff.mp closed⟩
  rw [unclosed] at found
  cases found

/-! ### Reading finds the spans -/

/-- A reference that is written out is one among the bytes, wherever it stands. -/
theorem isReference_append {content source : Text} (balanced : Balanced content)
    (spelt : source = opening ++ content ++ [')']) (lead rest : Text) :
    IsReference (lead ++ (source ++ rest))
      ((utf8 lead).length, (utf8 lead).length + Text.byteLength source) where
  nonempty := by
    have positive : 0 < (utf8 source).length := by
      rw [spelt, utf8_append, List.length_append]
      exact Nat.lt_of_lt_of_le (by decide) (Nat.le_add_left _ _)
    rw [length_utf8] at positive
    exact Nat.lt_add_of_pos_right positive
  inside := by
    rw [← length_utf8, ← List.length_append, ← utf8_append, ← List.append_assoc,
      utf8_append (lead ++ source), List.length_append]
    exact Nat.le_add_right _ _
  startBoundary := ⟨lead, source ++ rest, rfl, rfl⟩
  stopBoundary := ⟨lead ++ source, rest, (List.append_assoc _ _ _).symm,
    by rw [utf8_append, List.length_append, length_utf8 source]⟩
  spelt := by
    refine ⟨utf8 content, closed_utf8_iff.mpr balanced, ?_⟩
    rw [utf8_append, List.drop_left, Nat.add_sub_cancel_left, ← length_utf8, utf8_append,
      List.take_left, spelt, utf8_append, utf8_append]
    rfl

theorem spansFrom_usesFrom {lead text : Text} {before : Option Char}
    {pieces : List (Piece Stretch)} (tiles : matcher.Tiles before text pieces) :
    SpansFrom (lead ++ text) (utf8 lead).length
      ((usesFrom (utf8 lead).length pieces).map VariableUse.span) := by
  induction tiles generalizing lead with
  | done before =>
    refine .done fun offset fromStart opens first => ?_
    obtain ⟨behind, spelt⟩ := opens
    rw [List.append_nil, List.drop_eq_nil_of_le fromStart] at spelt
    simp [opening] at spelt
  | @copied before char rest pieces silent tiles inductionHypothesis =>
    have ended : (utf8 (lead ++ [char])).length =
        (utf8 lead).length + Text.byteLength (Piece.copied char : Piece Stretch).source := by
      rw [utf8_append, List.length_append, length_utf8 [char]]
      rfl
    have spansFrom := @inductionHypothesis (lead ++ [char])
    rw [List.append_assoc, List.singleton_append, ended] at spansFrom
    refine spansFrom.of_clear (Nat.le_add_right _ _) fun offset fromStart earlier => ?_
    rw [← ended] at earlier
    exact OpensAt.not_of_silent silent fromStart earlier
  | @matched before source rest stretch pieces nonempty taken tiles inductionHypothesis =>
    have ended : (utf8 (lead ++ source)).length =
        (utf8 lead).length + Text.byteLength (Piece.matched source stretch).source := by
      rw [utf8_append, List.length_append, length_utf8 source]
      rfl
    rcases matcher_eq_some taken with ⟨content, rfl, spelt, balanced, _⟩ |
      ⟨rfl, whole, behind, spelt, unclosed⟩
    · have spansFrom := @inductionHypothesis (lead ++ source)
      rw [List.append_assoc, ended] at spansFrom
      refine .next (Nat.le_refl _) (fun offset fromStart earlier => ?_) ?_ spansFrom
      · exact absurd fromStart (Nat.not_le_of_lt earlier)
      · exact isReference_append balanced spelt lead rest
    · obtain rfl : rest = [] := by simpa using whole
      rw [tiles.eq_nil, spelt]
      exact .done (nothingBehind_of_untilClosing?_eq_none unclosed)

/-- The spans of the references that are read from a value are, of all lists of spans, the one that
cuts the value's bytes at its references. -/
theorem areSpans_iff_eq_uses (value : Text) (spans : List (Nat × Nat)) :
    AreSpans value spans ↔ spans = (uses value).map VariableUse.span := by
  have found : SpansFrom value 0 ((uses value).map VariableUse.span) :=
    @spansFrom_usesFrom [] value none _ (Matcher.tiles_piecesFrom matcher_faithful none value)
  rw [areSpans_iff_spansFrom]
  exact ⟨fun spansFrom => spansFrom.unique found, fun equal => equal ▸ found⟩

end Variable

end AtomicCss
