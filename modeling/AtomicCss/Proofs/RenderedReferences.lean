/-
This file reads back what was written. A value is written as gaps and references in turn: a gap is
any text in which no reference opens, and a reference has a name and perhaps a fallback, each with
blanks of its own around it. Reading finds exactly these references, at the bytes where they were
written, and filling in by their spans gives the gaps with the fallbacks between them.

Where a gap ends and a reference begins nothing new can open, since no start of an opening is also
an end of one. What was written is therefore cut into the pieces it was put together from, and both
results are read off the pieces.
-/

import AtomicCss.Proofs.SingleReference

namespace AtomicCss

namespace Variable

/-! ### Filling in by spans -/

/-- The references among pieces, with `gap` in front of them, are filled in as each piece is. -/
theorem substituteFrom?_usesFrom (start : Nat) (gap : Text) (pieces : List (Piece Stretch)) :
    substituteFrom? start (gap ++ pieces.flatMap Piece.source)
        (usesFrom (start + Text.byteLength gap) pieces) =
      some (gap ++ pieces.flatMap resolvePiece) := by
  induction pieces generalizing start gap with
  | nil => rfl
  | cons piece pieces inductionHypothesis =>
    have passed (same : resolvePiece piece = piece.source) :
        substituteFrom? start (gap ++ (piece :: pieces).flatMap Piece.source)
            (usesFrom (start + Text.byteLength gap + Text.byteLength piece.source) pieces) =
          some (gap ++ (piece :: pieces).flatMap resolvePiece) := by
      have behind := inductionHypothesis start (gap ++ piece.source)
      rw [Text.byteLength_append, ← Nat.add_assoc] at behind
      rw [List.flatMap_cons, List.flatMap_cons, same, ← List.append_assoc, behind,
        List.append_assoc]
    match piece with
    | .copied char => exact passed rfl
    | .matched source .unclosed => exact passed rfl
    | .matched source (.reference content) =>
      have inOrder : ¬ (start + Text.byteLength gap < start ∨
          start + Text.byteLength gap + Text.byteLength source < start + Text.byteLength gap) := by
        omega
      have behind := inductionHypothesis (start + Text.byteLength gap + Text.byteLength source) []
      rw [List.nil_append, Text.byteLength_nil, Nat.add_zero] at behind
      simp only [usesFrom, useOf, substituteFrom?, Piece.source, List.flatMap_cons, inOrder,
        if_false, Nat.add_sub_cancel_left, Text.splitBytes?_append, Option.bind_eq_bind,
        Option.bind_some, behind, List.nil_append]
      simp [resolvePiece, VariableUse.fallbackText]

/-- Filling in the references that reading finds is filling in all of them. -/
theorem substitute?_uses (value : Text) : substitute? value (uses value) = some (resolve value) := by
  have filled := substituteFrom?_usesFrom 0 [] (pieces value)
  rw [pieces, Matcher.flatMap_source_pieces matcher_faithful] at filled
  exact filled

/-! ### Gaps -/

/-- A text in which no reference opens. -/
structure Gap where
  text : Text
  noOpening : ¬ opening <:+: text

/-- No part of a gap is taken, neither before the end of the value nor before a reference: an opening
that starts in the gap would have to go on behind it, where another one starts. -/
theorem silentOver_gap {gap : Text} (noOpening : ¬ opening <:+: gap) {rest : Text}
    (goesOn : rest = [] ∨ opening <+: rest) (before : Option Char) :
    matcher.SilentOver before gap rest := by
  induction gap generalizing before with
  | nil => trivial
  | cons char gap inductionHypothesis =>
    refine ⟨silent_of_not_leading fun leads => noOpening ?_,
      inductionHypothesis (fun found => noOpening (List.infix_cons found)) (some char)⟩
    rcases goesOn with rfl | ⟨after, rfl⟩
    · rw [List.append_nil] at leads
      exact leads.isInfix
    · exact (prefix_of_prefix_append leads).isInfix

/-! ### Written references -/

/-- A fallback as it is written behind a comma. -/
structure WrittenFallback where
  text : Text
  trimmed : text.Trimmed
  balanced : text.Balanced
  padding : Padding

/-- A reference as it is written. -/
structure WrittenReference where
  name : Text
  isName : IsName name
  padding : Padding
  fallback : Option WrittenFallback

namespace WrittenReference

/-- What stands between the parentheses. -/
def content (reference : WrittenReference) : Text :=
  reference.padding.around reference.name ++
    match reference.fallback with
    | none => []
    | some fallback => ',' :: fallback.padding.around fallback.text

def text (reference : WrittenReference) : Text :=
  opening ++ reference.content ++ [')']

def fallbackText (reference : WrittenReference) : Option Text :=
  reference.fallback.map WrittenFallback.text

/-- What stands for the reference once it is filled in. -/
def filled (reference : WrittenReference) : Text :=
  (reference.fallbackText.filter (!·.isEmpty)).getD reference.text

theorem balanced_content (reference : WrittenReference) : reference.content.Balanced := by
  obtain ⟨name, isName, padding, fallback⟩ := reference
  have named := padding.balanced_around isName.balanced
  cases fallback with
  | none => exact named.append Text.balanced_nil
  | some fallback =>
    have comma : Text.Balanced [','] := Text.balanced_of_forall_ne (by decide)
    exact named.append (comma.append (fallback.padding.balanced_around fallback.balanced))

theorem useOf_content (reference : WrittenReference) (start stop : Nat) :
    useOf reference.content start stop =
      ⟨reference.name, reference.fallbackText, start, stop⟩ := by
  obtain ⟨name, isName, padding, fallback⟩ := reference
  cases fallback with
  | none =>
    have content_eq : content ⟨name, isName, padding, none⟩ = padding.around name :=
      List.append_nil _
    rw [content_eq, useOf_around padding isName]
    rfl
  | some fallback =>
    exact useOf_around_fallback padding fallback.padding isName fallback.trimmed start stop

end WrittenReference

/-! ### Written values -/

/-- The value that starts with a gap and goes on with references, each with a gap behind it. -/
def written (first : Gap) (more : List (WrittenReference × Gap)) : Text :=
  first.text ++ more.flatMap fun (reference, gap) => reference.text ++ gap.text

/-- The references that are written, the first one standing at byte `start`. -/
def writtenUses : (start : Nat) → List (WrittenReference × Gap) → List VariableUse
  | _, [] => []
  | start, (reference, gap) :: more =>
    let stop := start + Text.byteLength reference.text
    ⟨reference.name, reference.fallbackText, start, stop⟩ ::
      writtenUses (stop + Text.byteLength gap.text) more

/-- The pieces that a written value is put together from. -/
def writtenPieces (first : Gap) (more : List (WrittenReference × Gap)) : List (Piece Stretch) :=
  first.text.map .copied ++ more.flatMap fun (reference, gap) =>
    .matched reference.text (.reference reference.content) :: gap.text.map .copied

/-- Reading cuts a written value where it was put together. -/
theorem piecesFrom_written (first : Gap) (more : List (WrittenReference × Gap))
    (before : Option Char) :
    matcher.piecesFrom before 0 (written first more) = writtenPieces first more := by
  induction more generalizing first before with
  | nil =>
    have silent := silentOver_gap first.noOpening (Or.inl rfl) before
    rw [written, writtenPieces, List.flatMap_nil, List.flatMap_nil, List.append_nil,
      List.append_nil, Matcher.piecesFrom_eq_map_copied silent]
  | cons next more inductionHypothesis =>
    obtain ⟨reference, gap⟩ := next
    have spelt : written first ((reference, gap) :: more) =
        first.text ++ (reference.text ++ written gap more) := by
      simp [written]
    have opens : opening <+: reference.text ++ written gap more := by
      simp [WrittenReference.text, List.append_assoc]
    have nonempty : reference.text ≠ [] := by simp [WrittenReference.text]
    have taken := matcher_reference reference.balanced_content
      (Matcher.lastOf before first.text) (written gap more)
    rw [spelt, Matcher.piecesFrom_append_of_silentOver
      (silentOver_gap first.noOpening (Or.inr opens) before),
      Matcher.piecesFrom_append_of_taken nonempty taken, inductionHypothesis]
    simp [writtenPieces]

theorem usesFrom_append_copied (start : Nat) (gap : Text) (pieces : List (Piece Stretch)) :
    usesFrom start (gap.map .copied ++ pieces) =
      usesFrom (start + Text.byteLength gap) pieces := by
  induction gap generalizing start with
  | nil => rfl
  | cons char gap inductionHypothesis =>
    have passed : usesFrom start ((char :: gap).map .copied ++ pieces) =
        usesFrom (start + Text.byteLength [char]) (gap.map .copied ++ pieces) := rfl
    rw [passed, inductionHypothesis, Nat.add_assoc, ← Text.byteLength_append]
    rfl

theorem usesFrom_writtenPieces (start : Nat) (first : Gap)
    (more : List (WrittenReference × Gap)) :
    usesFrom start (writtenPieces first more) =
      writtenUses (start + Text.byteLength first.text) more := by
  induction more generalizing start first with
  | nil => exact usesFrom_append_copied start first.text []
  | cons next more inductionHypothesis =>
    obtain ⟨reference, gap⟩ := next
    have spelt : writtenPieces first ((reference, gap) :: more) =
        first.text.map .copied ++
          .matched reference.text (.reference reference.content) :: writtenPieces gap more := by
      simp [writtenPieces]
    rw [spelt, usesFrom_append_copied, usesFrom, Piece.source, reference.useOf_content,
      inductionHypothesis]
    rfl

theorem flatMap_resolvePiece_writtenPieces (first : Gap) (more : List (WrittenReference × Gap)) :
    (writtenPieces first more).flatMap resolvePiece =
      first.text ++ more.flatMap fun (reference, gap) => reference.filled ++ gap.text := by
  have copied (gap : Gap) : (gap.text.map Piece.copied).flatMap resolvePiece = gap.text := by
    rw [List.flatMap_map]
    exact List.flatMap_singleton' gap.text
  rw [writtenPieces, List.flatMap_append, copied, List.flatMap_assoc]
  refine congrArg (first.text ++ ·) (List.flatMap_congr fun (reference, gap) _ => ?_)
  have fallback_eq : fallbackOf reference.content = reference.fallbackText :=
    congrArg VariableUse.fallback (reference.useOf_content 0 0)
  rw [List.flatMap_cons, copied, resolvePiece, fallback_eq]
  rfl

/-- What was written is read back, name by name, fallback by fallback and byte by byte, and filling
in what was read puts each fallback that is not empty in the place of its reference. -/
theorem uses_written (first : Gap) (more : List (WrittenReference × Gap)) :
    uses (written first more) = writtenUses (Text.byteLength first.text) more ∧
      substitute? (written first more) (uses (written first more)) =
        some (first.text ++ more.flatMap fun (reference, gap) => reference.filled ++ gap.text) := by
  have pieces_eq : pieces (written first more) = writtenPieces first more :=
    piecesFrom_written first more none
  constructor
  · rw [uses, pieces_eq, usesFrom_writtenPieces, Nat.zero_add]
  · rw [substitute?_uses, resolve, pieces_eq, flatMap_resolvePiece_writtenPieces]

/-- Bytes count, not characters, and the comma inside the parentheses belongs to the fallback. -/
example :
    uses "π var( --a , f(b, c) )".toList =
      [⟨"--a".toList, some "f(b, c)".toList, 3, 23⟩] := by decide

end Variable

end AtomicCss
