/-
This file states what a reader with backtracking finds. A pattern is a tree, and its ways to read a
text stand in the order in which the reader tries them: a run is tried with all of its characters
first and then with fewer and fewer, an option is taken before it is left out, and a later part of the
pattern that does not fit makes the reader go back to the next way of an earlier part. What is found
at a place is the first way that fits as a whole.

Replacing goes from left to right: at each place the pattern is tried, what is found is replaced, and
the text is read on behind it. A sweep whose matcher agrees with the pattern at every place comes to
the same text; and so does a loop that looks for a pattern without its last condition, tests the
condition afterwards and, where it fails, goes on one character behind the place.
-/

import AtomicCss.Proofs.Sweep

namespace AtomicCss

/-! ### Patterns -/

inductive Pattern where
  | literal (expected : Text)
  | one (accepts : Char → Bool)
  /-- One or more of the accepted characters. -/
  | run (accepts : Char → Bool)
  | sequence (first second : Pattern)
  | optional (inner : Pattern)
  /-- What the inner pattern reads is remembered under a number. -/
  | group (number : Nat) (inner : Pattern)
  /-- Just one of the characters before and behind the place belongs to a word. -/
  | wordBoundary
  /-- Nothing is read, but what follows does not start with an accepted character. -/
  | notBefore (accepts : Char → Bool)

/-- A stretch of what has been read, with all that was read before it. -/
structure Span where
  lead : Text
  text : Text

namespace Span

/-- What has been read up to the end of the stretch. -/
def through (span : Span) : Text :=
  span.lead ++ span.text

def behind (source : Text) (span : Span) : Span :=
  ⟨source ++ span.lead, span.text⟩

end Span

/-- One way to read a text: what is read, what follows it, and what is remembered. -/
structure Way where
  source : Text
  rest : Text
  groups : List (Nat × Span)

namespace Way

/-- One way and then another that starts where the first one ends. -/
def append (way next : Way) : Way :=
  ⟨way.source ++ next.source, next.rest,
    way.groups ++ next.groups.map fun (number, span) => (number, span.behind way.source)⟩

theorem nil_append (text : Text) (way : Way) : append ⟨[], text, []⟩ way = way := by
  simp [append, Span.behind]

/-- What was read, with a new text for one group. -/
def substitute (way : Way) (number : Nat) (change : Text → Text) : Text :=
  match way.groups.lookup number with
  | some span => span.lead ++ change span.text ++ way.source.drop span.through.length
  | none => way.source

end Way

namespace Pattern

/-! ### The ways to read a text -/

/-- The runs at the start of a text with what follows them, the longest one first. -/
def runs (accepts : Char → Bool) : Text → List (Text × Text)
  | [] => []
  | char :: rest =>
    if accepts char then
      (runs accepts rest).map (fun (source, rest) => (char :: source, rest)) ++ [([char], rest)]
    else []

/-- All ways to read a text with `before` in front of it, in the order in which they are tried. -/
def ways : Pattern → (before : Option Char) → Text → List Way
  | .literal expected, _, text =>
    match Text.after? expected text with
    | some rest => [⟨expected, rest, []⟩]
    | none => []
  | .one _, _, [] => []
  | .one accepts, _, char :: rest => if accepts char then [⟨[char], rest, []⟩] else []
  | .run accepts, _, text => (runs accepts text).map fun (source, rest) => ⟨source, rest, []⟩
  | .sequence first second, before, text =>
    (first.ways before text).flatMap fun way =>
      (second.ways (Matcher.lastOf before way.source) way.rest).map way.append
  | .optional inner, before, text => inner.ways before text ++ [⟨[], text, []⟩]
  | .group number inner, before, text =>
    (inner.ways before text).map fun way =>
      { way with groups := (number, ⟨[], way.source⟩) :: way.groups }
  | .wordBoundary, before, text =>
    if before.any isWordChar != text.head?.any isWordChar then [⟨[], text, []⟩] else []
  | .notBefore accepts, _, text => if Text.stops accepts text then [⟨[], text, []⟩] else []

/-- What is found at a place. -/
def first? (pattern : Pattern) (before : Option Char) (text : Text) : Option Way :=
  (pattern.ways before text).head?

theorem eq_append_of_mem_runs {accepts : Char → Bool} {text : Text} {run : Text × Text}
    (listed : run ∈ runs accepts text) : text = run.1 ++ run.2 := by
  induction text generalizing run with
  | nil => cases listed
  | cons char text inductionHypothesis =>
    rw [runs] at listed
    split at listed
    · rcases List.mem_append.mp listed with longer | single
      · obtain ⟨shorter, listed', rfl⟩ := List.mem_map.mp longer
        rw [List.cons_append, ← inductionHypothesis listed']
      · rw [List.mem_singleton.mp single, List.singleton_append]
    · cases listed

/-- A way splits the text into what is read and what follows. -/
theorem eq_append_of_mem_ways {pattern : Pattern} {before : Option Char} {text : Text} {way : Way}
    (listed : way ∈ pattern.ways before text) : text = way.source ++ way.rest := by
  induction pattern generalizing before text way with
  | literal expected =>
    rw [ways] at listed
    split at listed
    · next rest found =>
      rw [List.mem_singleton.mp listed]
      exact Text.after?_eq_some_iff.mp found
    · cases listed
  | one accepts =>
    cases text with
    | nil => cases listed
    | cons char rest =>
      rw [ways] at listed
      split at listed
      · rw [List.mem_singleton.mp listed, List.singleton_append]
      · cases listed
  | run accepts =>
    obtain ⟨run, isRun, rfl⟩ := List.mem_map.mp listed
    exact eq_append_of_mem_runs isRun
  | sequence first second firstHypothesis secondHypothesis =>
    rw [ways] at listed
    obtain ⟨way', inFirst, listed⟩ := List.mem_flatMap.mp listed
    obtain ⟨next, inSecond, rfl⟩ := List.mem_map.mp listed
    rw [firstHypothesis inFirst, secondHypothesis inSecond, Way.append, List.append_assoc]
  | optional inner inductionHypothesis =>
    rw [ways] at listed
    rcases List.mem_append.mp listed with taken | left
    · exact inductionHypothesis taken
    · rw [List.mem_singleton.mp left, List.nil_append]
  | group number inner inductionHypothesis =>
    obtain ⟨way', inInner, rfl⟩ := List.mem_map.mp listed
    have split : text = way'.source ++ way'.rest := inductionHypothesis inInner
    exact split
  | wordBoundary =>
    rw [ways] at listed
    split at listed
    · rw [List.mem_singleton.mp listed, List.nil_append]
    · cases listed
  | notBefore accepts =>
    rw [ways] at listed
    split at listed
    · rw [List.mem_singleton.mp listed, List.nil_append]
    · cases listed

theorem eq_append_of_first? {pattern : Pattern} {before : Option Char} {text : Text} {way : Way}
    (found : pattern.first? before text = some way) : text = way.source ++ way.rest :=
  eq_append_of_mem_ways (List.mem_of_head? found)

/-! ### Ways of the parts of a pattern -/

theorem runs_eq_nil {accepts : Char → Bool} {text : Text} (stopped : Text.stops accepts text = true) :
    runs accepts text = [] := by
  cases text with
  | nil => rfl
  | cons char text =>
    have refused : accepts char = false := by simpa [Text.stops] using stopped
    rw [runs, refused, if_neg Bool.false_ne_true]

/-- The whole run is tried first; every other way cuts the run and leaves an accepted character. -/
theorem exists_runs_eq_cons {accepts : Char → Bool} {lead rest : Text} (nonempty : lead ≠ [])
    (accepted : ∀ char ∈ lead, accepts char = true) (stopped : Text.stops accepts rest = true) :
    ∃ shorter, runs accepts (lead ++ rest) = (lead, rest) :: shorter ∧
      ∀ cut ∈ shorter, ∃ char more, cut.2 = char :: more ∧ accepts char = true := by
  induction lead with
  | nil => exact absurd rfl nonempty
  | cons char lead inductionHypothesis =>
    obtain ⟨here, behind⟩ := List.forall_mem_cons.mp accepted
    rw [List.cons_append, runs, if_pos here]
    cases lead with
    | nil => exact ⟨[], by rw [List.nil_append, runs_eq_nil stopped]; rfl, by simp⟩
    | cons next lead =>
      obtain ⟨shorter, runs_eq, cuts⟩ := inductionHypothesis (List.cons_ne_nil next lead) behind
      rw [runs_eq]
      refine ⟨shorter.map (fun (source, rest) => (char :: source, rest)) ++
        [([char], next :: lead ++ rest)], rfl, ?_⟩
      intro cut listed
      rcases List.mem_append.mp listed with inShorter | single
      · obtain ⟨cut', listed', rfl⟩ := List.mem_map.mp inShorter
        exact cuts cut' listed'
      · rw [List.mem_singleton.mp single]
        exact ⟨next, lead ++ rest, rfl, behind next List.mem_cons_self⟩

/-- Where there is one way through the first part, the second part decides. -/
theorem ways_sequence_of_singleton {first second : Pattern} {before : Option Char} {text : Text}
    {way : Way} (single : first.ways before text = [way]) :
    (sequence first second).ways before text =
      (second.ways (Matcher.lastOf before way.source) way.rest).map way.append := by
  rw [ways, single, List.flatMap_singleton]

theorem ways_sequence_of_nil {first second : Pattern} {before : Option Char} {text : Text}
    (absent : first.ways before text = []) : (sequence first second).ways before text = [] := by
  rw [ways, absent, List.flatMap_nil]

theorem ways_sequence_wordBoundary (pattern : Pattern) (before : Option Char) (text : Text) :
    (sequence .wordBoundary pattern).ways before text =
      if before.any isWordChar != text.head?.any isWordChar then pattern.ways before text else [] := by
  have same : Way.append ⟨[], text, []⟩ = id := funext (Way.nil_append text)
  rw [ways, ways]
  split
  · rw [List.flatMap_singleton, same, List.map_id, Matcher.lastOf_nil]
  · rfl

/-- A condition on what follows selects among the ways. -/
theorem ways_sequence_notBefore (pattern : Pattern) (accepts : Char → Bool) (before : Option Char)
    (text : Text) :
    (sequence pattern (.notBefore accepts)).ways before text =
      (pattern.ways before text).filter fun way => Text.stops accepts way.rest := by
  have each (way : Way) :
      (ways (.notBefore accepts) (Matcher.lastOf before way.source) way.rest).map way.append =
        if Text.stops accepts way.rest then [way] else [] := by
    rw [ways]
    split
    · simp [Way.append]
    · rfl
  rw [ways]
  simp only [each]
  induction pattern.ways before text with
  | nil => rfl
  | cons way others inductionHypothesis =>
    rw [List.flatMap_cons, inductionHypothesis, List.filter_cons]
    split <;> rfl

theorem first?_sequence {first second : Pattern} {before : Option Char} {text : Text} {way next : Way}
    (found : first.first? before text = some way)
    (found' : second.first? (Matcher.lastOf before way.source) way.rest = some next) :
    (sequence first second).first? before text = some (way.append next) := by
  obtain ⟨others, ways_eq⟩ := List.head?_eq_some_iff.mp found
  obtain ⟨others', ways_eq'⟩ := List.head?_eq_some_iff.mp found'
  rw [first?, ways, ways_eq, List.flatMap_cons, ways_eq']
  rfl

/-! ### Replacing everywhere -/

/-- The text that comes out when everything that the pattern finds is replaced: from left to right,
each place is tried, and what is behind a replaced stretch is read on from there. -/
inductive ReplacesAll (pattern : Pattern) (write : Way → Text) :
    (before : Option Char) → (text result : Text) → Prop where
  | done {before : Option Char} (absent : pattern.first? before [] = none) :
      ReplacesAll pattern write before [] []
  | copied {before : Option Char} {char : Char} {rest result : Text}
      (absent : pattern.first? before (char :: rest) = none)
      (behind : ReplacesAll pattern write (some char) rest result) :
      ReplacesAll pattern write before (char :: rest) (char :: result)
  | replaced {before : Option Char} {text result : Text} {way : Way}
      (found : pattern.first? before text = some way) (nonempty : way.source ≠ [])
      (behind : ReplacesAll pattern write (Matcher.lastOf before way.source) way.rest result) :
      ReplacesAll pattern write before text (write way ++ result)

section Sweep

variable {pattern : Pattern} {matcher : Matcher Text}

section Agrees

variable {write : Way → Text}
  (agrees : ∀ before text,
    matcher before text = (pattern.first? before text).map fun way => (way.source, write way))

include agrees in
theorem exists_first?_of_taken {before : Option Char} {text source replacement : Text}
    (taken : matcher before text = some (source, replacement)) :
    ∃ way, pattern.first? before text = some way ∧ source = way.source ∧
      replacement = write way ∧ text = source ++ way.rest := by
  rw [agrees, Option.map_eq_some_iff] at taken
  obtain ⟨way, found, same⟩ := taken
  obtain ⟨rfl, rfl⟩ := Prod.mk.inj same
  exact ⟨way, found, rfl, rfl, eq_append_of_first? found⟩

include agrees in
theorem faithful_of_first? : matcher.Faithful := by
  intro before text source replacement taken
  obtain ⟨way, _, _, _, spelt⟩ := exists_first?_of_taken agrees taken
  exact ⟨way.rest, spelt.symm⟩

variable (filled : ∀ before text source replacement,
  matcher before text = some (source, replacement) → source ≠ [])

include agrees filled in
theorem first?_eq_none_of_silent {before : Option Char} {text : Text}
    (silent : matcher.Silent before text) : pattern.first? before text = none := by
  cases found : pattern.first? before text with
  | none => rfl
  | some way =>
    have taken : matcher before text = some (way.source, write way) := by
      rw [agrees, found, Option.map_some]
    exact absurd (silent _ _ taken) (filled _ _ _ _ taken)

include agrees filled in
/-- A sweep replaces what a pattern finds if its matcher takes it at each place. -/
theorem replacesAll_iff_eq_sweep {before : Option Char} {text result : Text} :
    ReplacesAll pattern write before text result ↔ result = matcher.sweep before text := by
  constructor
  · intro replaces
    induction replaces with
    | done => rfl
    | copied absent behind inductionHypothesis =>
      have silent := Matcher.silent_of_eq_none ((agrees _ _).trans (by rw [absent, Option.map_none]))
      rw [Matcher.sweep_cons_of_silent silent, ← inductionHypothesis]
    | @replaced before text result way found nonempty behind inductionHypothesis =>
      have taken := agrees before text
      rw [found, Option.map_some, eq_append_of_first? found] at taken
      rw [eq_append_of_first? found, Matcher.sweep_append_of_taken nonempty taken,
        ← inductionHypothesis]
  · rintro rfl
    have faithful := faithful_of_first? agrees
    have tiles := Matcher.tiles_piecesFrom faithful before text
    rw [Matcher.sweep]
    generalize matcher.piecesFrom before 0 text = pieces at tiles
    induction tiles with
    | done before =>
      have silent : matcher.Silent before [] := fun source replacement taken =>
        List.prefix_nil.mp (faithful _ _ _ _ taken)
      exact .done (first?_eq_none_of_silent agrees filled silent)
    | copied silent _ inductionHypothesis =>
      exact .copied (first?_eq_none_of_silent agrees filled silent) inductionHypothesis
    | @matched before source rest replacement pieces nonempty taken _ inductionHypothesis =>
      obtain ⟨way, found, rfl, rfl, spelt⟩ := exists_first?_of_taken agrees taken
      obtain rfl := List.append_cancel_left spelt
      exact .replaced found nonempty inductionHypothesis

end Agrees

/-! ### Replacing under a condition -/

/-- The first place at which a pattern is found: what stands before it, and what is found. -/
def search? (pattern : Pattern) : (before : Option Char) → Text → Option (Text × Way)
  | before, [] => (pattern.first? before []).map fun way => ([], way)
  | before, char :: rest =>
    match pattern.first? before (char :: rest) with
    | some way => some ([], way)
    | none => (search? pattern (some char) rest).map fun (lead, way) => (char :: lead, way)

/-- Replacing what a pattern finds if `rewrite` agrees, which may also take less than was found. Where
it does not agree, the search goes on one character behind the place. What has been searched but
neither replaced nor written is `pending`. -/
def replaceGuarded (pattern : Pattern) (rewrite : Way → Option (Text × Text)) (pending : Text)
    (before : Option Char) (text : Text) : Text :=
  match pattern.search? before text with
  | none => pending ++ text
  | some (lead, way) =>
    match here : text.drop lead.length with
    | [] => pending ++ text
    | char :: rest =>
      have shorter : rest.length < text.length := by
        have length_eq := congrArg List.length here
        rw [List.length_drop, List.length_cons] at length_eq
        omega
      match rewrite way with
      | some (first :: more, replacement) =>
        pending ++ lead ++ replacement ++
          replaceGuarded pattern rewrite [] (Matcher.lastOf before (lead ++ first :: more))
            (rest.drop more.length)
      | _ => replaceGuarded pattern rewrite (pending ++ lead ++ [char]) (some char) rest
termination_by text.length
decreasing_by
  · rw [List.length_drop]
    omega
  · exact shorter

section Search

variable {rewrite : Way → Option (Text × Text)}
  (agrees : ∀ before text, matcher before text = (pattern.first? before text).bind rewrite)

include agrees

theorem silent_of_first?_eq_none {before : Option Char} {text : Text}
    (absent : pattern.first? before text = none) : matcher.Silent before text :=
  Matcher.silent_of_eq_none ((agrees before text).trans (by rw [absent, Option.bind_none]))

theorem silentOver_of_search?_eq_none {before : Option Char} {text : Text}
    (nothing : pattern.search? before text = none) : matcher.SilentOver before text [] := by
  induction text generalizing before with
  | nil => trivial
  | cons char rest inductionHypothesis =>
    rw [search?] at nothing
    split at nothing
    · cases nothing
    · next absent =>
      rw [Option.map_eq_none_iff] at nothing
      refine ⟨silent_of_first?_eq_none agrees ?_, inductionHypothesis nothing⟩
      rwa [List.append_nil]

/-- What is searched over before the first find is left alone. -/
theorem exists_eq_append_of_search? {before : Option Char} {text lead : Text} {way : Way}
    (found : pattern.search? before text = some (lead, way)) :
    ∃ here, text = lead ++ here ∧ matcher.SilentOver before lead here ∧
      pattern.first? (Matcher.lastOf before lead) here = some way := by
  induction text generalizing before lead with
  | nil =>
    rw [search?, Option.map_eq_some_iff] at found
    obtain ⟨way', found, same⟩ := found
    obtain ⟨rfl, rfl⟩ := Prod.mk.inj same
    exact ⟨[], rfl, trivial, found⟩
  | cons char rest inductionHypothesis =>
    rw [search?] at found
    split at found
    · next way' here =>
      obtain ⟨rfl, rfl⟩ := Prod.mk.inj (Option.some.inj found)
      exact ⟨char :: rest, rfl, trivial, here⟩
    · next absent =>
      obtain ⟨⟨lead', way'⟩, found', same⟩ := Option.map_eq_some_iff.mp found
      obtain ⟨rfl, rfl⟩ := Prod.mk.inj same
      obtain ⟨here, rfl, silent, first⟩ := inductionHypothesis found'
      exact ⟨here, rfl, ⟨silent_of_first?_eq_none agrees absent, silent⟩, first⟩

/-- The loop comes to the same text as a sweep whose matcher takes at each place what `rewrite` makes
of what the pattern finds there. -/
theorem replaceGuarded_eq_append_sweep (faithful : matcher.Faithful) (pending : Text)
    (before : Option Char) (text : Text) :
    replaceGuarded pattern rewrite pending before text = pending ++ matcher.sweep before text := by
  fun_induction replaceGuarded pattern rewrite pending before text with
  | case1 pending before text nothing =>
    rw [Matcher.sweep_eq_self_of_silentOver (silentOver_of_search?_eq_none agrees nothing)]
  | case2 pending before text lead way found ended =>
    obtain ⟨here, rfl, silent, _⟩ := exists_eq_append_of_search? agrees found
    rw [List.drop_left] at ended
    rw [ended, List.append_nil] at *
    rw [Matcher.sweep_eq_self_of_silentOver silent]
  | case3 pending before text lead way found char rest here shorter first more replacement agreed
      inductionHypothesis =>
    obtain ⟨here', rfl, silent, first'⟩ := exists_eq_append_of_search? agrees found
    rw [List.drop_left] at here
    subst here
    have taken := agrees (Matcher.lastOf before lead) (char :: rest)
    rw [first', Option.bind_some, agreed] at taken
    obtain ⟨behind, spelt⟩ := faithful _ _ _ _ taken
    obtain ⟨rfl, rfl⟩ : first = char ∧ more ++ behind = rest := by simpa using spelt
    rw [inductionHypothesis, List.drop_left, List.nil_append, ← List.cons_append,
      Matcher.sweep_append_of_first_taken silent (List.cons_ne_nil first more) taken]
    simp only [List.append_assoc]
  | case4 pending before text lead way found char rest here shorter refused inductionHypothesis =>
    obtain ⟨here', rfl, silent, first'⟩ := exists_eq_append_of_search? agrees found
    rw [List.drop_left] at here
    subst here
    have silentHere : matcher.Silent (Matcher.lastOf before lead) (char :: rest) := by
      intro source replacement taken
      rw [agrees, first', Option.bind_some] at taken
      cases source with
      | nil => rfl
      | cons first more => exact absurd taken (refused first more replacement)
    rw [inductionHypothesis, Matcher.sweep_append_of_silentOver silent,
      Matcher.sweep_cons_of_silent silentHere]
    simp only [List.append_assoc, List.singleton_append]

end Search

end Sweep

end Pattern

end AtomicCss
