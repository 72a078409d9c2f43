/-
This file says which values have a comment. A comment is an opening pair with a closing one behind
it on the same line, and a value is left alone just if there is none; that the last closing pair is
taken, and not the first, makes no difference to whether there is one. What is put behind a value is
read on its own if no comment that begins in the value ends there.

A pair is two characters side by side, so it lies in front of a stretch that has neither of them or
behind it. Another text in the place of such a stretch can do away with a comment only by breaking
its line.
-/

import AtomicCss.Comment
import AtomicCss.Proofs.Runs
import AtomicCss.Proofs.Sweep

namespace AtomicCss

/-! ### Comments on one line -/

namespace Comment

/-- An opening pair with a closing one behind it on the same line. -/
def HasComment (text : Text) : Prop :=
  ∃ lead body behind, text = lead ++ (opening ++ (body ++ (closing ++ behind))) ∧ '\n' ∉ body

theorem throughLastClosing?_cons {char : Char} (sameLine : char ≠ '\n') (rest : Text) :
    throughLastClosing? (char :: rest) =
      match throughLastClosing? rest with
      | some body => some (char :: body)
      | none => (Text.after? closing (char :: rest)).map fun _ => closing := by
  rw [throughLastClosing?.eq_def]
  split
  · next same => cases same
  · next same => exact absurd (List.cons.inj same).1 sameLine
  · next same =>
    obtain ⟨rfl, rfl⟩ := List.cons.inj same
    rfl

/-- What is read ends with a closing pair, and the line does not end before it. -/
theorem throughLastClosing?_eq_some {text source : Text}
    (found : throughLastClosing? text = some source) :
    ∃ body behind, source = body ++ closing ∧ text = source ++ behind ∧ '\n' ∉ body := by
  induction text generalizing source with
  | nil => cases found
  | cons char text inductionHypothesis =>
    by_cases newline : char = '\n'
    · subst newline
      cases found
    · rw [throughLastClosing?_cons newline] at found
      split at found
      · next rest further =>
        obtain rfl := Option.some.inj found
        obtain ⟨body, behind, rfl, rfl, sameLine⟩ := inductionHypothesis further
        exact ⟨char :: body, behind, rfl, rfl, by simp [Ne.symm newline, sameLine]⟩
      · obtain ⟨behind, closed, rfl⟩ := Option.map_eq_some_iff.mp found
        exact ⟨[], behind, rfl, Text.after?_eq_some_iff.mp closed, List.not_mem_nil⟩

theorem exists_throughLastClosing?_iff {text : Text} :
    (∃ source, throughLastClosing? text = some source) ↔
      ∃ body behind, text = body ++ (closing ++ behind) ∧ '\n' ∉ body := by
  constructor
  · rintro ⟨source, found⟩
    obtain ⟨body, behind, rfl, rfl, sameLine⟩ := throughLastClosing?_eq_some found
    exact ⟨body, behind, List.append_assoc _ _ _, sameLine⟩
  · rintro ⟨body, behind, rfl, sameLine⟩
    induction body with
    | nil =>
      have closed : Text.after? closing (closing ++ behind) = some behind :=
        Text.after?_eq_some_iff.mpr rfl
      rw [List.nil_append]
      rw [closing, List.cons_append] at closed ⊢
      rw [throughLastClosing?_cons (by decide)]
      split
      · exact ⟨_, rfl⟩
      · exact ⟨_, by rw [closing, closed]; rfl⟩
    | cons char body inductionHypothesis =>
      rw [List.mem_cons, not_or] at sameLine
      obtain ⟨rest, found⟩ := inductionHypothesis sameLine.2
      exact ⟨char :: rest, by
        rw [List.cons_append, throughLastClosing?_cons (Ne.symm sameLine.1), found]⟩

theorem throughLastClosing?_eq_none {text : Text} (noStar : '*' ∉ text) :
    throughLastClosing? text = none := by
  cases found : throughLastClosing? text with
  | none => rfl
  | some source =>
    obtain ⟨body, behind, rfl, _⟩ := exists_throughLastClosing?_iff.mp ⟨source, found⟩
    exact absurd (by simp [closing]) noStar

theorem matcher_eq_some_iff {before : Option Char} {text source replacement : Text} :
    matcher before text = some (source, replacement) ↔
      ∃ inner body, text = opening ++ inner ∧ throughLastClosing? inner = some body ∧
        source = opening ++ body ∧ replacement = [] := by
  simp only [matcher, Option.bind_eq_bind, Option.bind_eq_some_iff, Option.pure_def,
    Option.some.injEq, Prod.mk.injEq, Text.after?_eq_some_iff]
  constructor
  · rintro ⟨inner, opened, body, closed, rfl, rfl⟩
    exact ⟨inner, body, opened, closed, rfl, rfl⟩
  · rintro ⟨inner, body, opened, closed, rfl, rfl⟩
    exact ⟨inner, opened, body, closed, rfl, rfl⟩

theorem matcher_faithful : matcher.Faithful := by
  intro before text source replacement taken
  obtain ⟨inner, source, rfl, closed, rfl, _⟩ := matcher_eq_some_iff.mp taken
  obtain ⟨_, behind, _, rfl, _⟩ := throughLastClosing?_eq_some closed
  exact ⟨behind, List.append_assoc _ _ _⟩

theorem reduces_matcher : matcher.Reduces fun _ => true := by
  intro before text source replacement taken nonempty
  obtain ⟨_, _, _, _, _, rfl⟩ := matcher_eq_some_iff.mp taken
  simpa using List.length_pos_iff.mpr nonempty

/-- A value is left alone just if it has no comment. -/
theorem strip_eq_self_iff {value : Text} : strip value = value ↔ ¬ HasComment value := by
  have tiles := Matcher.tiles_piecesFrom matcher_faithful none value
  constructor
  · rintro same ⟨lead, body, behind, spelt, sameLine⟩
    have silent : matcher.SilentOver none value [] := by
      refine tiles.silentOver reduces_matcher (le_of_eq (congrArg _ ?_))
      exact same.symm
    obtain ⟨source, closed⟩ := exists_throughLastClosing?_iff.mpr ⟨body, behind, rfl, sameLine⟩
    have taken (before : Option Char) :
        matcher before (opening ++ (body ++ (closing ++ behind))) =
          some (opening ++ source, []) :=
      matcher_eq_some_iff.mpr ⟨_, source, rfl, closed, rfl, rfl⟩
    obtain ⟨rest, same'⟩ := matcher_faithful _ _ _ _ (taken none)
    refine Matcher.not_alters_of_silentOver silent
      ⟨lead, opening ++ source, rest, [], by rw [same', spelt], ?_, by simp [opening],
        by simp [opening]⟩
    rw [same']
    exact taken _
  · intro absent
    refine Matcher.sweep_eq_self_of_not_alters matcher_faithful ?_
    rintro ⟨lead, source, rest, replacement, rfl, taken, _, _⟩
    obtain ⟨inner, body, opened, closed, _⟩ := matcher_eq_some_iff.mp taken
    obtain ⟨body', behind, rfl, sameLine⟩ := exists_throughLastClosing?_iff.mp ⟨body, closed⟩
    exact absent ⟨lead, body', behind, by rw [opened], sameLine⟩

theorem strip_eq_self {value : Text} (noStar : '*' ∉ value) : strip value = value := by
  refine strip_eq_self_iff.mpr ?_
  rintro ⟨lead, body, behind, rfl, _⟩
  exact noStar (by simp [closing])

/-! ### Behind a value -/

section Tail

variable {first : Char} {rest : Text} (noSlash : first ≠ '/') (noStar : first ≠ '*')
  (unclosed : throughLastClosing? (first :: rest) = none)

include noSlash noStar unclosed in
theorem throughLastClosing?_append (text : Text) :
    throughLastClosing? (text ++ first :: rest) = throughLastClosing? text := by
  induction text with
  | nil => exact unclosed
  | cons char text inductionHypothesis =>
    by_cases newline : char = '\n'
    · subst newline
      rfl
    · have absent : first ∉ closing := by simp [closing, noSlash, noStar]
      have closings := Text.after?_append_cons absent (char :: text) rest
      rw [List.cons_append] at closings ⊢
      rw [throughLastClosing?_cons newline, throughLastClosing?_cons newline,
        inductionHypothesis, closings, Option.map_map]
      rfl

include noSlash noStar unclosed in
theorem matcher_append (before : Option Char) (text : Text) :
    matcher before (text ++ first :: rest) = matcher before text := by
  have absent : first ∉ opening := by simp [opening, noSlash, noStar]
  rw [matcher, matcher, Text.after?_append_cons absent]
  cases Text.after? opening text with
  | none => rfl
  | some behind =>
    simp only [Option.map_some, Option.bind_eq_bind, Option.bind_some,
      throughLastClosing?_append noSlash noStar unclosed]

include noSlash noStar unclosed in
/-- A tail in which no comment ends that began before it is read on its own. -/
theorem strip_append_cons (value : Text) :
    strip (value ++ first :: rest) = strip value ++ strip (first :: rest) := by
  have cut := (Matcher.tiles_piecesFrom matcher_faithful none value).piecesFrom_append
    fun before char text => matcher_append noSlash noStar unclosed before (char :: text)
  have behind : matcher.piecesFrom (Matcher.lastOf none value) 0 (first :: rest) =
      matcher.piecesFrom none 0 (first :: rest) := Matcher.piecesFrom_congr (fun _ => rfl) _
  rw [strip, strip, strip, Matcher.replaceAll, Matcher.replaceAll, Matcher.replaceAll,
    Matcher.pieces, Matcher.pieces, Matcher.pieces, cut, behind, List.flatMap_append]

end Tail

end Comment

/-! ### Pairs around a name -/

/-- Two characters side by side are both before or both behind a stretch that has neither. -/
theorem Text.pair_before_or_behind {first second : Char} {lead name rest start more : Text}
    (nonempty : name ≠ []) (noFirst : first ∉ name) (noSecond : second ∉ name)
    (spelt : lead ++ (name ++ rest) = start ++ ([first, second] ++ more)) :
    (∃ between,
        lead = start ++ ([first, second] ++ between) ∧ more = between ++ (name ++ rest)) ∨
      ∃ between,
        start = lead ++ (name ++ between) ∧ rest = between ++ ([first, second] ++ more) := by
  rcases List.append_eq_append_iff.mp spelt with ⟨before, rfl, inside⟩ | ⟨between, rfl, inside⟩
  · refine Or.inr ?_
    rcases List.append_eq_append_iff.mp inside with ⟨between, rfl, behind⟩ | ⟨within, rfl, behind⟩
    · exact ⟨between, rfl, behind⟩
    · cases within with
      | nil => exact ⟨[], by simp, by simpa using behind.symm⟩
      | cons char within =>
        obtain ⟨rfl, _⟩ := List.cons.inj behind
        exact absurd (by simp) noFirst
  · obtain ⟨head, tail, rfl⟩ := List.exists_cons_of_ne_nil nonempty
    match between with
    | [] =>
      obtain ⟨rfl, _⟩ := List.cons.inj inside
      exact absurd List.mem_cons_self noFirst
    | [char] =>
      obtain ⟨rfl, _⟩ := List.cons.inj (List.cons.inj inside).2
      exact absurd List.mem_cons_self noSecond
    | char :: next :: between =>
      obtain ⟨rfl, rfl, behind⟩ :
          first = char ∧ second = next ∧ more = between ++ (head :: tail ++ rest) := by
        simpa using inside
      exact Or.inl ⟨between, rfl, behind⟩

namespace Comment

section Renamed

variable {lead old new rest : Text} (sameLine : '\n' ∉ old) (nonempty : new ≠ [])
  (noSlash : '/' ∉ new) (noStar : '*' ∉ new)

include sameLine nonempty noSlash noStar in
/-- A name on one line and without slashes and stars is in no comment that another name would not be
in. -/
theorem HasComment.of_renamed (commented : HasComment (lead ++ (new ++ rest))) :
    HasComment (lead ++ (old ++ rest)) := by
  obtain ⟨start, body, behind, spelt, sameLine'⟩ := commented
  rcases Text.pair_before_or_behind nonempty noSlash noStar spelt with
    ⟨between, rfl, inside⟩ | ⟨between, rfl, rfl⟩
  · rcases Text.pair_before_or_behind nonempty noStar noSlash inside.symm with
      ⟨between', rfl, rfl⟩ | ⟨between', rfl, rfl⟩
    · exact ⟨start, body, between' ++ (old ++ rest), by simp [opening, closing], sameLine'⟩
    · refine ⟨start, between ++ (old ++ between'), behind, by simp [opening, closing], ?_⟩
      simp only [List.mem_append, not_or] at sameLine' ⊢
      exact ⟨sameLine'.1, sameLine, sameLine'.2.2⟩
  · exact ⟨lead ++ (old ++ between), body, behind, by simp [opening, closing], sameLine'⟩

end Renamed

end Comment

end AtomicCss
