/-
This file cuts a value into its parts and puts it together from them. A text is solid on a count of
open parentheses if no blank in it separates there. A solid text that leaves the count as it was is
one part, whatever stands behind it, so long as that starts with a blank; so a text that spaces such
texts out with blanks has just these for its parts. Every balanced value is spaced out in this way.
What its first blank at depth zero cuts off is solid and comes back to depth zero, for a balanced
value closes what it opens and never goes below, and what stands behind is balanced again. So the
parts are determined by what they are like, and they lose nothing of the value but blanks.
-/

import AtomicCss.Proofs.Nesting
import AtomicCss.Proofs.Runs
import AtomicCss.Generator.Parts

namespace AtomicCss

/-! ### Stretches -/

/-- A blank is no parenthesis. -/
theorem depthAfter_of_isBlank {char : Char} (blank : isBlank char = true) (depth : Int) :
    depthAfter depth char = depth := by
  refine depthAfter_of_ne depth ?_ ?_ <;> (rintro rfl; cases blank)

theorem Text.stops_cons_of_isBlank {char : Char} (blank : isBlank char = true) (rest : Text) :
    stops (!isBlank ·) (char :: rest) = true := by
  rw [stops, blank]
  rfl

namespace Parts

theorem stretches_ne_nil (depth : Int) (text : Text) : stretches depth text ≠ [] := by
  cases text with
  | nil => exact List.cons_ne_nil _ _
  | cons char rest =>
    rw [stretches]
    split
    · exact List.cons_ne_nil _ _
    · split <;> exact List.cons_ne_nil _ _

theorem stretches_cons_of_not_separates {depth : Int} {char : Char}
    (joins : separates depth char = false) (rest : Text) :
    stretches depth (char :: rest) =
      (stretches (depthAfter depth char) rest).modifyHead (char :: ·) := by
  obtain ⟨first, more, split⟩ :=
    List.exists_cons_of_ne_nil (stretches_ne_nil (depthAfter depth char) rest)
  rw [stretches, joins, if_neg Bool.false_ne_true, split]
  rfl

/-- No character of the text separates, with `depth` parentheses open before it. -/
def SolidFrom : (depth : Int) → Text → Prop
  | _, [] => True
  | depth, char :: rest =>
    separates depth char = false ∧ SolidFrom (depthAfter depth char) rest

theorem solidFrom_append {depth : Int} {first second : Text} :
    SolidFrom depth (first ++ second) ↔
      SolidFrom depth first ∧ SolidFrom (depth + first.depth) second := by
  induction first generalizing depth with
  | nil => simp [SolidFrom]
  | cons char first inductionHypothesis =>
    rw [List.cons_append, SolidFrom, SolidFrom, inductionHypothesis, and_assoc, Text.depth_cons,
      Text.depthAfter_eq_add depth char, Int.add_assoc]

/-- In a solid text a parenthesis is open at every blank. -/
theorem solidFrom_iff {depth : Int} {text : Text} :
    SolidFrom depth text ↔
      ∀ (lead : Text) (char : Char) (rest : Text), text = lead ++ char :: rest →
        isBlank char = true → 0 < depth + lead.depth := by
  induction text generalizing depth with
  | nil => simp [SolidFrom]
  | cons first text inductionHypothesis =>
    rw [SolidFrom, inductionHypothesis, Text.depthAfter_eq_add depth first]
    constructor
    · rintro ⟨joins, behind⟩ lead char rest spelt blank
      cases lead with
      | nil =>
        obtain ⟨rfl, _⟩ := List.cons.inj spelt
        simpa [separates, blank] using joins
      | cons other lead =>
        obtain ⟨rfl, same⟩ := List.cons.inj spelt
        rw [Text.depth_cons, ← Int.add_assoc]
        exact behind lead char rest same blank
    · intro inside
      constructor
      · cases blank : isBlank first with
        | true => simpa [separates, blank] using inside [] first text rfl blank
        | false => rw [separates, blank, Bool.false_and]
      · intro lead char rest spelt blank
        have behind := inside (first :: lead) char rest (congrArg (first :: ·) spelt) blank
        rwa [Text.depth_cons, ← Int.add_assoc] at behind

/-- A text without blanks is solid. -/
theorem solidFrom_of_forall {text : Text} (full : ∀ char ∈ text, isBlank char = false)
    (depth : Int) : SolidFrom depth text := by
  induction text generalizing depth with
  | nil => trivial
  | cons char text inductionHypothesis =>
    obtain ⟨notBlank, full⟩ := List.forall_mem_cons.mp full
    exact ⟨by rw [separates, notBlank, Bool.false_and], inductionHypothesis full _⟩

/-- Inside a parenthesis that stays open no blank separates. -/
theorem solidFrom_of_staysOpen {depth : Int} {text : Text}
    (opened : Text.StaysOpen (depth - 1) text) : SolidFrom depth text := by
  induction text generalizing depth with
  | nil => trivial
  | cons char text inductionHypothesis =>
    obtain ⟨positive, opened⟩ := Text.staysOpen_cons.mp opened
    refine ⟨?_, inductionHypothesis ?_⟩
    · have inside : ¬ depth ≤ 0 := by omega
      rw [separates, decide_eq_false inside, Bool.and_false]
    · have count : depthAfter depth char - 1 = depth - 1 + depthAfter 0 char := by
        rw [Text.depthAfter_eq_add depth char]
        omega
      rwa [count]

/-- A solid text goes on with the first stretch of what stands behind it. -/
theorem stretches_append {depth : Int} {text : Text} (solid : SolidFrom depth text) (rest : Text) :
    stretches depth (text ++ rest) =
      (stretches (depth + text.depth) rest).modifyHead (text ++ ·) := by
  induction text generalizing depth with
  | nil =>
    obtain ⟨first, more, split⟩ := List.exists_cons_of_ne_nil (stretches_ne_nil depth rest)
    simp [split]
  | cons char text inductionHypothesis =>
    obtain ⟨joins, solid⟩ := solid
    rw [List.cons_append, stretches_cons_of_not_separates joins, inductionHypothesis solid,
      List.modifyHead_modifyHead, Text.depth_cons, Text.depthAfter_eq_add depth char,
      Int.add_assoc]
    rfl

end Parts

/-! ### Parts -/

/-- A text that is a part of each value in which it stands between blanks. -/
structure IsPart (text : Text) : Prop where
  nonempty : text ≠ []
  balanced : text.Balanced
  solid : Parts.SolidFrom 0 text

/-- Every blank of the text stands inside parentheses. -/
def Text.EnclosesBlanks (text : Text) : Prop :=
  ∀ (lead : Text) (char : Char) (rest : Text), text = lead ++ char :: rest →
    isBlank char = true → 0 < lead.depth

theorem isPart_iff {text : Text} :
    IsPart text ↔ text ≠ [] ∧ text.Balanced ∧ text.EnclosesBlanks := by
  have inside : Parts.SolidFrom 0 text ↔ text.EnclosesBlanks := by
    simp only [Parts.solidFrom_iff, Int.zero_add, Text.EnclosesBlanks]
  rw [← inside]
  exact ⟨fun isPart => ⟨isPart.nonempty, isPart.balanced, isPart.solid⟩,
    fun ⟨nonempty, balanced, solid⟩ => ⟨nonempty, balanced, solid⟩⟩

/-- A part starts and ends with a character that is not blank: there no parenthesis is open. -/
theorem IsPart.trimmed {part : Text} (isPart : IsPart part) : part.Trimmed := by
  constructor
  · obtain ⟨first, more, rfl⟩ := List.exists_cons_of_ne_nil isPart.nonempty
    have joins := isPart.solid.1
    simpa [Parts.separates, Text.stops] using joins
  · obtain ⟨lead, last, spelt⟩ := (List.eq_nil_or_concat part).resolve_left isPart.nonempty
    rw [List.concat_eq_append] at spelt
    obtain ⟨_, joins, _⟩ := Parts.solidFrom_append.mp (spelt ▸ isPart.solid)
    rw [spelt, List.reverse_concat]
    by_contra blank
    have isBlankLast : isBlank last = true := by simpa [Text.stops] using blank
    have level : depthAfter 0 last = 0 := depthAfter_of_isBlank isBlankLast 0
    have whole := isPart.balanced.depth_eq_zero
    rw [spelt, Text.depth_append, Text.depth_cons, level, Text.depth_nil] at whole
    have separates : Parts.separates (0 + Text.depth lead) last = true := by
      rw [Parts.separates, isBlankLast, Bool.true_and, decide_eq_true_eq]
      omega
    rw [separates] at joins
    cases joins

namespace Text

@[simp] theorem parts_nil : parts [] = [] := rfl

/-- Blanks in front of a value belong to no part. -/
theorem parts_cons_of_blank {char : Char} (blank : isBlank char = true) (text : Text) :
    parts (char :: text) = parts text := by
  have separates : Parts.separates 0 char = true := by
    rw [Parts.separates, blank]
    rfl
  rw [parts, Parts.stretches, separates, if_pos rfl]
  rfl

/-- A part is the first one of a value that starts with it, if a blank or nothing follows. -/
theorem parts_append {part : Text} (isPart : IsPart part) {rest : Text}
    (stopped : stops (!isBlank ·) rest = true) : parts (part ++ rest) = part :: parts rest := by
  have kept : (!part.isEmpty) = true := by simp [isPart.nonempty]
  rw [parts, Parts.stretches_append isPart.solid, isPart.balanced.depth_eq_zero, Int.add_zero]
  cases rest with
  | nil => simp [Parts.stretches, kept]
  | cons blank rest =>
    have separates : Parts.separates 0 blank = true := by
      simpa [Parts.separates, stops] using stopped
    rw [parts, Parts.stretches, separates, if_pos rfl, List.modifyHead_cons, List.append_nil]
    exact List.filter_cons_of_pos kept

theorem parts_eq_singleton {part : Text} (isPart : IsPart part) : parts part = [part] := by
  have single : parts (part ++ []) = part :: parts [] := parts_append isPart rfl
  rwa [List.append_nil, parts_nil] at single

end Text

/-! ### Parts spaced out with blanks -/

/-- The text consists of the parts, one behind the other, with at least one blank between two of
them, and of nothing else but blanks. -/
inductive Spaced : (parts : List Text) → (text : Text) → Prop where
  | done : Spaced [] []
  | blank {parts : List Text} {char : Char} {rest : Text} (blank : isBlank char = true)
      (spaced : Spaced parts rest) : Spaced parts (char :: rest)
  | part {part : Text} {parts : List Text} {rest : Text}
      (stopped : Text.stops (!isBlank ·) rest = true) (spaced : Spaced parts rest) :
      Spaced (part :: parts) (part ++ rest)

theorem spaced_join {separator : Char} (blank : isBlank separator = true) (parts : List Text) :
    Spaced parts (Text.join [separator] parts) := by
  induction parts with
  | nil => exact .done
  | cons first parts inductionHypothesis =>
    cases parts with
    | nil =>
      have alone : Spaced [first] (first ++ []) := .part rfl .done
      rw [Text.join_singleton]
      rwa [List.append_nil] at alone
    | cons second parts =>
      rw [Text.join_cons_cons]
      exact .part (Text.stops_cons_of_isBlank blank _) (.blank blank inductionHypothesis)

/-- Parts that are spaced out with blanks are the parts of the text. -/
theorem Spaced.parts_eq {parts : List Text} {text : Text} (spaced : Spaced parts text)
    (areParts : ∀ part ∈ parts, IsPart part) : text.parts = parts := by
  induction spaced with
  | done => rfl
  | blank blank spaced inductionHypothesis =>
    rw [Text.parts_cons_of_blank blank, inductionHypothesis areParts]
  | part stopped spaced inductionHypothesis =>
    obtain ⟨isPart, areParts⟩ := List.forall_mem_cons.mp areParts
    rw [Text.parts_append isPart stopped, inductionHypothesis areParts]

namespace Text

/-- Parts with a space between two of them are the parts of the text. -/
theorem parts_join {parts : List Text} (areParts : ∀ part ∈ parts, IsPart part) :
    (join [' '] parts).parts = parts :=
  (spaced_join (by decide) parts).parts_eq areParts

theorem trimmed_join {parts : List Text} (areParts : ∀ part ∈ parts, IsPart part) :
    Trimmed (join [' '] parts) := by
  induction parts with
  | nil => exact ⟨rfl, rfl⟩
  | cons first parts inductionHypothesis =>
    obtain ⟨isPart, areParts⟩ := List.forall_mem_cons.mp areParts
    cases parts with
    | nil =>
      rw [join_singleton]
      exact isPart.trimmed
    | cons second parts =>
      have behind : join [' '] (second :: parts) ≠ [] := by
        rw [Ne, join_eq_nil_iff fun part listed => (areParts part listed).nonempty]
        exact List.cons_ne_nil _ _
      rw [join_cons_cons]
      exact isPart.trimmed.append_append isPart.nonempty [' '] (inductionHypothesis areParts) behind

end Text

/-! ### Words and calls -/

/-- A word without parentheses is a part. -/
theorem isPart_of_forall {text : Text} (nonempty : text ≠ [])
    (flat : ∀ char ∈ text, isBlank char = false ∧ char ≠ '(' ∧ char ≠ ')') : IsPart text where
  nonempty := nonempty
  balanced := Text.balanced_of_forall_ne fun char member => (flat char member).2
  solid := Parts.solidFrom_of_forall (fun char member => (flat char member).1) 0

/-- A name with balanced parentheses behind it is a part, blanks and all. -/
theorem isPart_call {name content : Text}
    (flat : ∀ char ∈ name, isBlank char = false ∧ char ≠ '(' ∧ char ≠ ')')
    (balanced : content.Balanced) : IsPart (name ++ ('(' :: content ++ [')'])) where
  nonempty := List.append_ne_nil_of_right_ne_nil name (List.cons_ne_nil _ _)
  balanced := (Text.balanced_of_forall_ne fun char member => (flat char member).2).append
    balanced.parenthesized
  solid := by
    have level : name.depth = 0 :=
      (Text.balanced_of_forall_ne fun char member => (flat char member).2).depth_eq_zero
    have inside : Parts.SolidFrom 1 content :=
      Parts.solidFrom_of_staysOpen (by simpa using balanced.staysOpen)
    refine Parts.solidFrom_append.mpr
      ⟨Parts.solidFrom_of_forall (fun char member => (flat char member).1) 0, ?_⟩
    rw [level]
    refine Parts.solidFrom_append.mpr ⟨⟨rfl, inside⟩, ?_⟩
    exact Parts.solidFrom_of_forall (by decide) _

/-! ### The parts of a balanced value -/

namespace Parts

/-- How a text goes on, with `depth` parentheses open before it: `front` closes them all and no
blank in it separates, and behind it the text is spaced out by parts. -/
structure Continues (depth : Int) (front rest : Text) (parts : List Text) : Prop where
  solid : SolidFrom depth front
  closes : depth + front.depth = 0
  stopped : Text.stops (!isBlank ·) rest = true
  spaced : Spaced parts rest
  areParts : ∀ part ∈ parts, IsPart part

/-- At depth zero what is in front is a part too, unless it is empty. -/
theorem Continues.exists_spaced {front rest : Text} {parts : List Text}
    (continues : Continues 0 front rest parts) (balanced : Text.Balanced (front ++ rest)) :
    ∃ parts', Spaced parts' (front ++ rest) ∧ ∀ part ∈ parts', IsPart part := by
  by_cases empty : front = []
  · rw [empty]
    exact ⟨parts, continues.spaced, continues.areParts⟩
  · have level : front.depth = 0 := by simpa using continues.closes
    have isPart : IsPart front :=
      ⟨empty, (balanced.of_append level).1, continues.solid⟩
    exact ⟨front :: parts, .part continues.stopped continues.spaced,
      List.forall_mem_cons.mpr ⟨isPart, continues.areParts⟩⟩

/-- The induction is on the text, and at a blank that separates what has been read in front of the
rest becomes a part. -/
theorem exists_continues {depth : Int} {text : Text} (opened : text.StaysOpen depth)
    (closes : depth + text.depth = 0) :
    ∃ front rest parts, text = front ++ rest ∧ Continues depth front rest parts := by
  induction text generalizing depth with
  | nil =>
    exact ⟨[], [], [], rfl, trivial, closes, rfl, .done, List.forall_mem_nil _⟩
  | cons char text inductionHypothesis =>
    obtain ⟨positive, opened⟩ := Text.staysOpen_cons.mp opened
    rw [Text.depth_cons, ← Int.add_assoc] at closes
    obtain ⟨front, rest, parts, rfl, continues⟩ := inductionHypothesis opened closes
    cases separated : separates depth char with
    | true =>
      -- a blank separates at depth zero only, so the text behind it is balanced
      obtain ⟨blank, notAbove⟩ : isBlank char = true ∧ depth ≤ 0 := by
        simpa [separates] using separated
      obtain rfl : depth = 0 := Int.le_antisymm notAbove positive
      rw [depthAfter_of_isBlank blank, Int.add_zero] at continues opened closes
      have balanced : Text.Balanced (front ++ rest) := ⟨opened, by simpa using closes⟩
      obtain ⟨parts', spaced, areParts⟩ := continues.exists_spaced balanced
      exact ⟨[], char :: (front ++ rest), parts', rfl, trivial, rfl,
        Text.stops_cons_of_isBlank blank _, .blank blank spaced, areParts⟩
    | false =>
      refine ⟨char :: front, rest, parts, rfl, ⟨separated, ?_⟩, ?_, continues.stopped,
        continues.spaced, continues.areParts⟩
      · rw [Text.depthAfter_eq_add]
        exact continues.solid
      · rw [Text.depth_cons, ← Int.add_assoc]
        exact continues.closes

end Parts

namespace Text

theorem Balanced.exists_spaced {value : Text} (balanced : value.Balanced) :
    ∃ parts, Spaced parts value ∧ ∀ part ∈ parts, IsPart part := by
  obtain ⟨front, rest, parts, rfl, continues⟩ :=
    Parts.exists_continues balanced.staysOpen (by simpa using balanced.depth_eq_zero)
  exact continues.exists_spaced balanced

/-- A balanced value is spaced out by parts in one way, and the parts are those that are read. -/
theorem Balanced.parts_eq_iff {value : Text} (balanced : value.Balanced) {parts : List Text} :
    value.parts = parts ↔ Spaced parts value ∧ ∀ part ∈ parts, IsPart part := by
  constructor
  · rintro rfl
    obtain ⟨parts, spaced, areParts⟩ := balanced.exists_spaced
    rw [spaced.parts_eq areParts]
    exact ⟨spaced, areParts⟩
  · rintro ⟨spaced, areParts⟩
    exact spaced.parts_eq areParts

/-- The parts of a balanced value are balanced, none is empty, and none has a blank at depth zero;
in their order they are all of the value but blanks. A part has itself for its only part, and
whatever the parts are spaced out to has the same parts. -/
theorem parts_partition {value : Text} (balanced : value.Balanced) :
    (∀ part ∈ value.parts,
      (part ≠ [] ∧ part.Balanced ∧ part.EnclosesBlanks) ∧ part.parts = [part]) ∧
    Spaced value.parts value ∧
    ∀ respaced, Spaced value.parts respaced → respaced.parts = value.parts := by
  obtain ⟨spaced, areParts⟩ := balanced.parts_eq_iff.mp rfl
  refine ⟨fun part listed => ?_, spaced, fun respaced spaced' => spaced'.parts_eq areParts⟩
  exact ⟨isPart_iff.mp (areParts part listed), parts_eq_singleton (areParts part listed)⟩

/-- Blanks in nested calls stay, and the blanks between the parts may be line breaks. -/
theorem parts_partition_nested :
    let value : Text := " 1px  solid rgb(0 calc(1 + 2) 0)".toList
    let call : Text := "rgb(0 calc(1 + 2) 0)".toList
    value.Balanced ∧ value.parts = ["1px".toList, "solid".toList, call] ∧
      (call.EnclosesBlanks ∧ call.parts = [call]) ∧
      parts "1px\nsolid\nrgb(0 calc(1 + 2) 0)".toList = value.parts := by
  intro value call
  have balanced : value.Balanced := by decide +kernel
  have parts_eq : value.parts = ["1px".toList, "solid".toList, call] := by decide +kernel
  obtain ⟨each, _, respaced⟩ := parts_partition balanced
  obtain ⟨⟨_, _, encloses⟩, single⟩ := each call (by simp [parts_eq])
  have newline : isBlank '\n' = true := by decide
  have lines := respaced _ (spaced_join newline value.parts)
  rw [parts_eq] at lines ⊢
  exact ⟨balanced, rfl, ⟨encloses, single⟩, lines⟩

end Text

end AtomicCss
