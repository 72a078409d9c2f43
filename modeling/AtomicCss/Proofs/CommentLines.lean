/-
This file says what stripping comments does to each line of a value. A line loses the text from its
first opening pair through its last closing pair, if there is one behind the opening, and keeps
everything else; lines neither lose their ends nor see each other.

What stood on the two sides of a comment then stands together, and a slash and a star may meet there.
They make no comment: in front of the seam there is no opening pair and behind it no closing pair,
so a comment would have to begin behind the place where it ends. A stripped value is therefore
stripped for good, and so is every part of it, among them what trimming leaves of it.
-/

import AtomicCss.Proofs.CommentPairs
import AtomicCss.Transformation
import Mathlib.Data.List.Forall2

namespace AtomicCss

/-! ### The place of a pair -/

namespace Text

/-- Where a pair of different characters is found again further on, it was not met halfway. -/
theorem pair_before_of_append_eq {first second : Char} (different : second ≠ first)
    {between rest rest' : Text}
    (spelt : [first, second] ++ rest = between ++ ([first, second] ++ rest')) :
    between = [] ∨ ∃ more, between = [first, second] ++ more ∧
      rest = more ++ ([first, second] ++ rest') := by
  match between with
  | [] => exact .inl rfl
  | [char] => exact absurd (List.cons.inj (List.cons.inj spelt).2).1 different
  | char :: next :: more =>
    obtain ⟨rfl, rfl, remaining⟩ :
        first = char ∧ second = next ∧ rest = more ++ ([first, second] ++ rest') := by
      simpa using spelt
    exact .inr ⟨more, rfl, remaining⟩

/-- There is one place where a pair of different characters stands first. -/
theorem first_pair_unique {first second : Char} (different : second ≠ first)
    {lead lead' rest rest' : Text} (apart : ¬ [first, second] <:+: lead)
    (apart' : ¬ [first, second] <:+: lead')
    (spelt : lead ++ ([first, second] ++ rest) = lead' ++ ([first, second] ++ rest')) :
    lead = lead' ∧ rest = rest' := by
  rcases List.append_eq_append_iff.mp spelt with ⟨between, rfl, met⟩ | ⟨between, rfl, met⟩
  all_goals
    rcases pair_before_of_append_eq different met with rfl | ⟨more, rfl, _⟩
    · exact ⟨by simp, by simpa [eq_comm] using met⟩
  · exact absurd ⟨lead, more, by simp⟩ apart'
  · exact absurd ⟨lead', more, by simp⟩ apart

/-- There is one place where a pair of different characters stands last. -/
theorem last_pair_unique {first second : Char} (different : second ≠ first)
    {lead lead' rest rest' : Text} (apart : ¬ [first, second] <:+: rest)
    (apart' : ¬ [first, second] <:+: rest')
    (spelt : lead ++ ([first, second] ++ rest) = lead' ++ ([first, second] ++ rest')) :
    rest = rest' := by
  rcases List.append_eq_append_iff.mp spelt with ⟨between, rfl, met⟩ | ⟨between, rfl, met⟩
  all_goals
    rcases pair_before_of_append_eq different met with rfl | ⟨more, rfl, remaining⟩
    · simpa [eq_comm] using met
  · exact absurd ⟨more, rest', by rw [remaining, List.append_assoc]⟩ apart
  · exact absurd ⟨more, rest, by rw [remaining, List.append_assoc]⟩ apart'

end Text

namespace Comment

/-! ### One line -/

/-- The second text is the first one, a line, without what stands from its first opening pair through
its last closing pair. -/
inductive Uncommented : (line rest : Text) → Prop where
  | comment {lead body behind : Text} (first : ¬ opening <:+: lead)
      (last : ¬ closing <:+: behind) :
      Uncommented (lead ++ (opening ++ (body ++ (closing ++ behind)))) (lead ++ behind)
  | clear {line : Text}
      (unpaired : ∀ lead body behind, line ≠ lead ++ (opening ++ (body ++ (closing ++ behind)))) :
      Uncommented line line

/-- The reader goes through the last closing pair. -/
theorem exists_of_throughLastClosing?_eq_some {text source : Text} (sameLine : '\n' ∉ text)
    (found : throughLastClosing? text = some source) :
    ∃ body behind, source = body ++ closing ∧ text = body ++ (closing ++ behind) ∧
      ¬ closing <:+: behind := by
  induction text generalizing source with
  | nil => cases found
  | cons char text inductionHypothesis =>
    rw [List.mem_cons, not_or] at sameLine
    rw [throughLastClosing?_cons (Ne.symm sameLine.1)] at found
    split at found
    · next rest further =>
      obtain rfl := Option.some.inj found
      obtain ⟨body, behind, rfl, rfl, last⟩ := inductionHypothesis sameLine.2 further
      exact ⟨char :: body, behind, rfl, rfl, last⟩
    · next nothing =>
      obtain ⟨behind, closed, rfl⟩ := Option.map_eq_some_iff.mp found
      have spelt : char :: text = closing ++ behind := Text.after?_eq_some_iff.mp closed
      refine ⟨[], behind, rfl, spelt, fun ⟨lead, more, further⟩ => ?_⟩
      obtain ⟨_, rfl⟩ : char = '*' ∧ text = '/' :: behind := List.cons.inj spelt
      obtain ⟨source, reading⟩ : ∃ source, throughLastClosing? ('/' :: behind) = some source := by
        subst further
        refine exists_throughLastClosing?_iff.mpr ⟨'/' :: lead, more, by simp, fun newline => ?_⟩
        exact sameLine.2 (by simpa using .inl (by simpa using newline))
      rw [nothing] at reading
      cases reading

/-- Without a closing pair there is no comment. -/
theorem sweep_eq_self_of_not_closing {text : Text} (absent : ¬ closing <:+: text)
    (before : Option Char) : matcher.sweep before text = text := by
  refine Matcher.sweep_eq_self_of_silent (fun before char rest suffix => ?_) before
  intro source replacement taken
  obtain ⟨inner, body, opened, closed, _⟩ := matcher_eq_some_iff.mp taken
  obtain ⟨lead, behind, rfl, _⟩ := exists_throughLastClosing?_iff.mp ⟨body, closed⟩
  rw [opened] at suffix
  refine absurd (List.IsInfix.trans ⟨opening ++ lead, behind, ?_⟩ suffix.isInfix) absent
  simp only [List.append_assoc]

/-- A text is not silent up to a closing pair of its line if it opens a comment before. -/
theorem not_opening_of_silentOver {before : Option Char} {lead body behind : Text}
    (silent : matcher.SilentOver before lead (body ++ (closing ++ behind)))
    (sameLine : '\n' ∉ lead ++ body) : ¬ opening <:+: lead := by
  rintro ⟨start, between, rfl⟩
  rw [List.append_assoc, Matcher.silentOver_append, Matcher.silentOver_append] at silent
  have here := silent.2.1.1
  obtain ⟨through, closed⟩ : ∃ through,
      throughLastClosing? (between ++ (body ++ (closing ++ behind))) = some through := by
    refine exists_throughLastClosing?_iff.mpr ⟨between ++ body, behind, ?_, fun newline => ?_⟩
    · simp only [List.append_assoc]
    · refine sameLine ?_
      rw [List.append_assoc]
      exact List.mem_append_right _ newline
  have nothing := here _ _ (matcher_eq_some_iff.mpr ⟨_, through, rfl, closed, rfl, rfl⟩)
  cases nothing

theorem uncommented_strip {line : Text} (sameLine : '\n' ∉ line) :
    Uncommented line (strip line) := by
  rcases Matcher.silentOver_or_exists_taken matcher none line [] with
    silent | ⟨lead, char, more, source, replacement, rfl, silent, nonempty, taken⟩
  · have same : strip line = line := Matcher.sweep_eq_self_of_silentOver silent
    rw [same]
    refine .clear fun lead body behind spelt => ?_
    refine strip_eq_self_iff.mp same ⟨lead, body, behind, spelt, fun newline => sameLine ?_⟩
    rw [spelt]
    simp [newline]
  · rw [List.append_nil] at silent taken
    obtain ⟨inner, through, spelt, closed, rfl, rfl⟩ := matcher_eq_some_iff.mp taken
    rw [spelt] at silent taken sameLine ⊢
    obtain ⟨body, behind, rfl, rfl, last⟩ :=
      exists_of_throughLastClosing?_eq_some (fun newline => sameLine (by simp [newline])) closed
    have regroup : opening ++ (body ++ (closing ++ behind)) =
        opening ++ (body ++ closing) ++ behind := by simp only [List.append_assoc]
    have stripped : strip (lead ++ (opening ++ (body ++ (closing ++ behind)))) = lead ++ behind := by
      rw [regroup] at silent taken ⊢
      refine (Matcher.sweep_append_of_first_taken silent nonempty taken).trans ?_
      rw [sweep_eq_self_of_not_closing last, List.nil_append]
    have through : matcher.SilentOver none lead ((opening ++ body) ++ (closing ++ behind)) := by
      simpa only [List.append_assoc] using silent
    have unopened : ¬ opening <:+: lead := not_opening_of_silentOver through fun newline =>
      sameLine (by simp only [List.mem_append] at newline ⊢; tauto)
    rw [stripped]
    exact .comment unopened last

namespace Uncommented

variable {line rest : Text}

/-- No pair is made where the two sides of a comment meet. -/
theorem unpaired (uncommented : Uncommented line rest) (lead body behind : Text) :
    rest ≠ lead ++ (opening ++ (body ++ (closing ++ behind))) := by
  cases uncommented with
  | clear unpaired => exact unpaired lead body behind
  | @comment lead' _ behind' first last =>
    intro spelt
    rw [← List.append_assoc] at spelt
    rcases List.append_eq_append_iff.mp spelt with ⟨between, _, rfl⟩ | ⟨between, rfl, _⟩
    · refine last ⟨between ++ body, behind, ?_⟩
      simp only [List.append_assoc]
    · exact first ⟨lead, between, rfl⟩

theorem newline_not_mem (uncommented : Uncommented line rest) (sameLine : '\n' ∉ line) :
    '\n' ∉ rest := by
  cases uncommented with
  | clear => exact sameLine
  | comment =>
    simp only [List.mem_append, not_or] at sameLine ⊢
    exact ⟨sameLine.1, sameLine.2.2.2.2⟩

theorem unique {rest' : Text} (uncommented : Uncommented line rest)
    (uncommented' : Uncommented line rest') : rest = rest' := by
  cases uncommented with
  | clear unpaired =>
    cases uncommented' with
    | clear => rfl
    | comment => exact absurd rfl (unpaired _ _ _)
  | @comment lead body behind first last =>
    generalize spelt : lead ++ (opening ++ (body ++ (closing ++ behind))) = line at uncommented'
    cases uncommented' with
    | clear unpaired => exact absurd spelt.symm (unpaired _ _ _)
    | comment first' last' =>
      obtain ⟨rfl, behind⟩ := Text.first_pair_unique (by decide) first first' spelt
      rw [Text.last_pair_unique (by decide) last last' behind]

end Uncommented

/-! ### All lines -/

theorem strip_append_newline (first rest : Text) :
    strip (first ++ '\n' :: rest) = strip first ++ '\n' :: strip rest := by
  have newline : matcher.Silent none ('\n' :: rest) := Matcher.silent_of_eq_none rfl
  have same (text : Text) : matcher (some '\n') text = matcher none text := rfl
  rw [strip_append_cons (by decide) (by decide) rfl]
  refine congrArg (strip first ++ ·) ((Matcher.sweep_cons_of_silent newline).trans ?_)
  rw [Matcher.sweep, Matcher.piecesFrom_congr same]
  rfl

theorem strip_join (lines : List Text) :
    strip (Text.join ['\n'] lines) = Text.join ['\n'] (lines.map strip) := by
  induction lines with
  | nil => rfl
  | cons line lines inductionHypothesis =>
    cases lines with
    | nil => rw [List.map_singleton, Text.join_singleton, Text.join_singleton]
    | cons next lines =>
      rw [List.map_cons] at inductionHypothesis
      rw [Text.join_cons_cons, strip_append_newline, inductionHypothesis, List.map_cons,
        List.map_cons, Text.join_cons_cons]

/-- The lines are those of the value, each without its comment. -/
theorem strip_eq_join (value : Text) :
    strip value = Text.join ['\n'] ((value.splitOn '\n').map strip) := by
  rw [← strip_join, Text.join, List.intercalate_splitOn]

theorem splitOn_strip (value : Text) :
    (strip value).splitOn '\n' = (value.splitOn '\n').map strip := by
  have nonempty : (value.splitOn '\n').map strip ≠ [] := by
    simp [List.splitOn_eq_splitOnP, List.splitOnP_ne_nil]
  rw [strip_eq_join]
  refine List.splitOn_intercalate '\n' (fun stripped isStripped => ?_) nonempty
  obtain ⟨line, isLine, rfl⟩ := List.mem_map.mp isStripped
  have sameLine := Text.not_mem_of_mem_splitOn isLine
  exact (uncommented_strip sameLine).newline_not_mem sameLine

theorem unpaired_of_mem_splitOn_strip {value line : Text}
    (isLine : line ∈ (strip value).splitOn '\n') (lead body behind : Text) :
    line ≠ lead ++ (opening ++ (body ++ (closing ++ behind))) := by
  rw [splitOn_strip] at isLine
  obtain ⟨source, isSource, rfl⟩ := List.mem_map.mp isLine
  exact (uncommented_strip (Text.not_mem_of_mem_splitOn isSource)).unpaired lead body behind

theorem strip_strip (value : Text) : strip (strip value) = strip value := by
  have settled : ∀ line ∈ (strip value).splitOn '\n', strip line = line := by
    intro line isLine
    refine strip_eq_self_iff.mpr ?_
    rintro ⟨lead, body, behind, spelt, _⟩
    exact unpaired_of_mem_splitOn_strip isLine lead body behind spelt
  rw [strip_eq_join (strip value), List.map_congr_left settled, List.map_id', Text.join,
    List.intercalate_splitOn]

/-- A part of a text has no comment that the text has not. -/
theorem HasComment.of_infix {part text : Text} (within : part <:+: text)
    (commented : HasComment part) : HasComment text := by
  obtain ⟨before, after, rfl⟩ := within
  obtain ⟨lead, body, behind, rfl, sameLine⟩ := commented
  exact ⟨before ++ lead, body, behind ++ after, by simp only [List.append_assoc], sameLine⟩

theorem strip_trim_strip (value : Text) :
    strip (Text.trim (strip value)) = Text.trim (strip value) := by
  refine strip_eq_self_iff.mpr fun commented => ?_
  exact strip_eq_self_iff.mp (strip_strip value) (commented.of_infix (Text.trim_infix _))

theorem forall₂_uncommented_iff {lines : List Text} (sameLine : ∀ line ∈ lines, '\n' ∉ line)
    {others : List Text} : List.Forall₂ Uncommented lines others ↔ others = lines.map strip := by
  induction lines generalizing others with
  | nil => exact List.forall₂_nil_left_iff
  | cons line lines inductionHypothesis =>
    obtain ⟨here, behind⟩ := List.forall_mem_cons.mp sameLine
    constructor
    · intro related
      cases related with
      | cons first more =>
        rw [first.unique (uncommented_strip here), (inductionHypothesis behind).mp more,
          List.map_cons]
    · rintro rfl
      exact .cons (uncommented_strip here) ((inductionHypothesis behind).mpr rfl)

end Comment

/-- Comments are stripped line by line, all of them and for good. -/
theorem Comment.strip_linewise (value : Text) :
    (∃ lines, (∀ others, List.Forall₂ Uncommented (value.splitOn '\n') others ↔ others = lines) ∧
      strip value = Text.join ['\n'] lines) ∧
    (∀ line ∈ (strip value).splitOn '\n', ∀ lead body behind,
      line ≠ lead ++ (opening ++ (body ++ (closing ++ behind)))) ∧
    strip (strip value) = strip value ∧
    ∀ (property : Text) (isRem : Bool) (generator : Generator),
      let prepared := Declaration.prepare ⟨property, value⟩ isRem generator
      Declaration.prepare ⟨property, prepared.value⟩ isRem generator = prepared := by
  refine ⟨⟨_, fun others => ?_, strip_eq_join value⟩, fun line => unpaired_of_mem_splitOn_strip,
    strip_strip value, fun property isRem generator => ?_⟩
  · exact forall₂_uncommented_iff fun line => Text.not_mem_of_mem_splitOn
  · simp only [Declaration.prepare, strip_trim_strip, (Text.trimmed_trim _).trim_eq]

/-- Two comments of a line go with the text between them; a slash and a star that meet on the second
line open nothing. -/
example :
    Comment.strip "a /*/ b */ c /* d */ e\n//* x */* /* y\n*/ z".toList =
      "a  e\n/* /* y\n*/ z".toList := by
  decide +kernel

end AtomicCss
