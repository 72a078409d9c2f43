/-
This file compares the passes that scale with the patterns they stand for. A pass looks for a stem and
a number behind it that no character of a name carries on, and the pattern says just that: the stem,
the number and a condition on what follows. A reader with backtracking tries a number with all of its
digits first, and most of what it tries afterwards leaves a digit behind and fails. What is left is
the whole number and, if it has a point, the digits before the point, which is what a pass takes.

The same passes may be run as a loop over a pattern without the condition. What that pattern finds
first at a place has the longest number; the condition is tested afterwards, and where it fails the
number is cut at its point or, without a point, the search goes on behind the place.
-/

import AtomicCss.Proofs.Backtracking
import AtomicCss.Proofs.NumberPasses

namespace AtomicCss

namespace ClassNumber

/-! ### The patterns -/

/-- A point and the digits behind it. -/
def fraction : Pattern :=
  .sequence (.literal ['.']) (.run Char.isDigit)

/-- Digits with or without a fraction. -/
def number : Pattern :=
  .sequence (.run Char.isDigit) (.optional fraction)

namespace Scaling

/-- The number of the group that the number of a class is remembered under. -/
def numberGroup : Scaling → Nat
  | border => 1
  | side => 2
  | padding => 2

def stemPattern : Scaling → Pattern
  | border => .sequence .wordBoundary (.literal borderStem)
  | side =>
    .sequence .wordBoundary
      (.group 1 (.sequence (.literal borderStem) (.sequence (.one isBorderSide) (.literal ['-']))))
  | padding =>
    .sequence (.group 1 (.sequence (.literal ['p']) (.optional (.one isPaddingSide)))) (.literal ['-'])

/-- A stem, a number, and no character of a name behind it. -/
def guardedPattern (scaling : Scaling) : Pattern :=
  .sequence scaling.stemPattern
    (.sequence (.group scaling.numberGroup number) (.notBefore isNameChar))

/-- A stem and a number, the digits behind the point in a group of their own. -/
def plainPattern (scaling : Scaling) : Pattern :=
  .sequence scaling.stemPattern
    (.sequence (.group scaling.numberGroup (.run Char.isDigit))
      (.optional (.group (scaling.numberGroup + 1) fraction)))

end Scaling

/-! ### What is written -/

/-- The value of a number times four, rounded; a text that is no number stays as it is. -/
def scaled (number : Text) : Text :=
  match Numeral.ofText? number with
  | some numeral => (numeral.value * Binary64.ofNat 4).roundedText
  | none => number

/-- The end of the number that counts, as what is read up to there, and the number: the whole of what
was found if no character of a name follows, and otherwise the digits before the point if there is
one. -/
def guardedNumber? (way : Way) (whole fraction : Nat) : Option (Text × Text) := do
  let digits ← way.groups.lookup whole
  let places := way.groups.lookup fraction
  let source := (places.getD digits).through
  if Text.stops isNameChar ((way.source ++ way.rest).drop source.length) then
    return (source, source.drop digits.lead.length)
  else
    places.map fun _ => (digits.through, digits.text)

namespace Scaling

/-- The stem as it is written in front of the new number. -/
def writtenStem : Scaling → Way → Text
  | border, _ => borderStem
  | side, way => ((way.groups.lookup 1).map Span.text).getD []
  | padding, way => ((way.groups.lookup 1).map Span.text).getD [] ++ ['-']

/-- What is taken of something that the pattern without the condition has found, and what is written
for it. -/
def rewrite (scaling : Scaling) (way : Way) : Option (Text × Text) :=
  (guardedNumber? way scaling.numberGroup (scaling.numberGroup + 1)).map fun (source, number) =>
    (source, scaling.writtenStem way ++ scaled number)

end Scaling

/-! ### Ways to read a number -/

/-- The text is carried on by a digit. -/
def Carried (rest : Text) : Prop :=
  ∃ char more, rest = char :: more ∧ char.isDigit = true

theorem Carried.stops_isNameChar {rest : Text} (carried : Carried rest) :
    Text.stops isNameChar rest = false := by
  obtain ⟨char, more, rfl, isDigit⟩ := carried
  have isName := isNameChar_of_isWordChar (isWordChar_of_isDigit isDigit)
  simp [Text.stops, isName]

theorem ways_literal_append (expected rest : Text) (before : Option Char) :
    (Pattern.literal expected).ways before (expected ++ rest) = [⟨expected, rest, []⟩] := by
  rw [Pattern.ways, Text.after?_eq_some_iff.mpr rfl]

theorem ways_literal_eq_nil {expected text : Text} (absent : Text.after? expected text = none)
    (before : Option Char) : (Pattern.literal expected).ways before text = [] := by
  rw [Pattern.ways, absent]

theorem ways_run_eq_nil {text : Text} (stopped : Text.stops Char.isDigit text = true)
    (before : Option Char) : (Pattern.run Char.isDigit).ways before text = [] := by
  rw [Pattern.ways, Pattern.runs_eq_nil stopped, List.map_nil]

/-- The whole run is tried first, and every other way leaves a digit behind. -/
theorem exists_ways_run_eq_cons {digits rest : Text} (nonempty : digits ≠ [])
    (isDigit : ∀ char ∈ digits, char.isDigit = true)
    (stopped : Text.stops Char.isDigit rest = true) (before : Option Char) :
    ∃ cuts, (Pattern.run Char.isDigit).ways before (digits ++ rest) =
        ⟨digits, rest, []⟩ :: cuts ∧ ∀ cut ∈ cuts, Carried cut.rest := by
  obtain ⟨shorter, runs_eq, cuts⟩ := Pattern.exists_runs_eq_cons nonempty isDigit stopped
  refine ⟨shorter.map fun (source, rest) => ⟨source, rest, []⟩, ?_, ?_⟩
  · rw [Pattern.ways, runs_eq]
    rfl
  · intro cut listed
    obtain ⟨run, inShorter, rfl⟩ := List.mem_map.mp listed
    exact cuts run inShorter

theorem exists_ways_fraction_eq_cons {text digits rest : Text}
    (found : Numeral.readFraction? text = some (digits, rest)) (before : Option Char) :
    ∃ cuts, fraction.ways before text = ⟨'.' :: digits, rest, []⟩ :: cuts ∧
      ∀ cut ∈ cuts, Carried cut.rest := by
  obtain ⟨rfl, nonempty, isDigit, stopped⟩ := Numeral.readFraction?_eq_some_iff.mp found
  obtain ⟨cuts, ways_eq, carried⟩ := exists_ways_run_eq_cons nonempty isDigit stopped (some '.')
  refine ⟨cuts.map (Way.append ⟨['.'], digits ++ rest, []⟩), ?_, ?_⟩
  · have point := ways_literal_append ['.'] (digits ++ rest) before
    rw [List.singleton_append] at point
    rw [fraction, Pattern.ways_sequence_of_singleton point]
    exact congrArg (List.map _) ways_eq
  · intro cut listed
    obtain ⟨cut', listed', rfl⟩ := List.mem_map.mp listed
    exact carried cut' listed'

theorem ways_fraction_eq_nil {text : Text} (absent : Numeral.readFraction? text = none)
    (before : Option Char) : fraction.ways before text = [] := by
  cases found : Text.after? ['.'] text with
  | none => exact Pattern.ways_sequence_of_nil (ways_literal_eq_nil found before)
  | some behind =>
    obtain rfl := Text.after?_eq_some_iff.mp found
    have stopped := Numeral.stops_of_readFraction?_eq_none absent
    rw [fraction, Pattern.ways_sequence_of_singleton (ways_literal_append ['.'] behind before)]
    exact congrArg (List.map _) (ways_run_eq_nil stopped (some '.'))

theorem readFraction?_eq_none_of_carried {rest : Text} (carried : Carried rest) :
    Numeral.readFraction? rest = none := by
  obtain ⟨char, more, rfl, isDigit⟩ := carried
  unfold Numeral.readFraction?
  split
  · next same =>
    obtain ⟨rfl, _⟩ := List.cons.inj same
    cases isDigit
  · rfl

/-- Behind the digits that were cut no fraction is read, and they stay cut. -/
theorem carried_of_mem_flatMap {cuts : List Way} (carried : ∀ cut ∈ cuts, Carried cut.rest)
    (before : Option Char) {way : Way}
    (listed : way ∈ cuts.flatMap fun cut =>
      ((Pattern.optional fraction).ways (Matcher.lastOf before cut.source) cut.rest).map cut.append) :
    Carried way.rest := by
  obtain ⟨cut, inCuts, listed⟩ := List.mem_flatMap.mp listed
  obtain ⟨next, inWays, rfl⟩ := List.mem_map.mp listed
  rw [Pattern.ways, ways_fraction_eq_nil (readFraction?_eq_none_of_carried (carried cut inCuts)),
    List.nil_append, List.mem_singleton] at inWays
  rw [inWays]
  exact carried cut inCuts

/-- A number is tried as a whole first, then, if it has a point, without its last digits, and then
without the point; every way but the first and the one that ends before the point is cut. -/
theorem exists_ways_number_eq {numeral : Numeral} {rest : Text} (wellFormed : numeral.WellFormed)
    (ends : numeral.Ends rest) (before : Option Char) :
    ∃ middle last, (∀ way ∈ middle, Carried way.rest) ∧ (∀ way ∈ last, Carried way.rest) ∧
      number.ways before (numeral.text ++ rest) =
        match numeral.fraction with
        | none => ⟨numeral.text, rest, []⟩ :: last
        | some digits =>
          ⟨numeral.text, rest, []⟩ ::
            (middle ++ ⟨numeral.whole, '.' :: (digits ++ rest), []⟩ :: last) := by
  obtain ⟨whole, fraction⟩ := numeral
  obtain ⟨stopped, noFraction⟩ := ends
  cases fraction with
  | none =>
    obtain ⟨cuts, ways_eq, carried⟩ :=
      exists_ways_run_eq_cons wellFormed.whole_ne_nil wellFormed.whole_digits stopped before
    refine ⟨[], _, by simp, fun _ => carried_of_mem_flatMap carried before, ?_⟩
    rw [number, Numeral.text_mk_none, Pattern.ways, ways_eq, List.flatMap_cons, Pattern.ways,
      ways_fraction_eq_nil (noFraction rfl)]
    simp [Way.append]
  | some digits =>
    have read : Numeral.readFraction? ('.' :: (digits ++ rest)) = some (digits, rest) :=
      Numeral.readFraction?_eq_some_iff.mpr ⟨rfl, wellFormed.fraction_ne_nil digits rfl,
        wellFormed.fraction_digits digits rfl, stopped⟩
    obtain ⟨cuts, ways_eq, carried⟩ := exists_ways_run_eq_cons wellFormed.whole_ne_nil
      wellFormed.whole_digits (by rfl : Text.stops Char.isDigit ('.' :: (digits ++ rest)) = true)
      before
    obtain ⟨middle, fraction_eq, carried'⟩ :=
      exists_ways_fraction_eq_cons read (Matcher.lastOf before whole)
    refine ⟨middle.map (Way.append ⟨whole, '.' :: (digits ++ rest), []⟩), _, ?_,
      fun _ => carried_of_mem_flatMap carried before, ?_⟩
    · intro way listed
      obtain ⟨cut, inMiddle, rfl⟩ := List.mem_map.mp listed
      exact carried' cut inMiddle
    · rw [number, Numeral.text_mk_some, List.append_assoc, List.cons_append, Pattern.ways, ways_eq,
        List.flatMap_cons, Pattern.ways, fraction_eq]
      simp [Way.append]

/-! ### The number that is found -/

theorem filter_eq_nil_of_carried {cuts : List Way} (carried : ∀ cut ∈ cuts, Carried cut.rest) :
    cuts.filter (fun way => Text.stops isNameChar way.rest) = [] := by
  rw [List.filter_eq_nil_iff]
  intro cut listed
  rw [(carried cut listed).stops_isNameChar]
  exact Bool.false_ne_true

theorem ways_number_eq_nil {text : Text} (absent : Numeral.read? text = none)
    (before : Option Char) : number.ways before text = [] :=
  Pattern.ways_sequence_of_nil (ways_run_eq_nil (Numeral.stops_of_read?_eq_none absent) before)

/-- Among the ways to read a number, the first that no character of a name carries on is the guarded
numeral. -/
theorem head?_filter_ways_number (before : Option Char) (text : Text) :
    ((number.ways before text).filter fun way => Text.stops isNameChar way.rest).head? =
      (Numeral.readGuarded? text).map fun numeral =>
        ⟨numeral.text, text.drop numeral.text.length, []⟩ := by
  cases reading : Numeral.read? text with
  | none => rw [ways_number_eq_nil reading, Numeral.readGuarded?, reading]; rfl
  | some found =>
    obtain ⟨numeral, rest⟩ := found
    obtain ⟨rfl, wellFormed, ends⟩ := Numeral.read?_eq_some_iff.mp reading
    obtain ⟨middle, last, carried, carried', ways_eq⟩ := exists_ways_number_eq wellFormed ends before
    rw [ways_eq, Numeral.readGuarded?, reading]
    obtain ⟨whole, places⟩ := numeral
    cases places with
    | none =>
      rw [List.filter_cons, filter_eq_nil_of_carried carried']
      cases stopped : Text.stops isNameChar rest with
      | true => simp [stopped]
      | false => simp [stopped]
    | some digits =>
      rw [List.filter_cons, List.filter_append, filter_eq_nil_of_carried carried, List.filter_cons]
      have point : Text.stops isNameChar ('.' :: (digits ++ rest)) = true := rfl
      cases stopped : Text.stops isNameChar rest with
      | true => simp [stopped]
      | false => simp [stopped, point, Numeral.integerPart, Numeral.text]

theorem first?_guarded_number (group : Nat) (before : Option Char) (text : Text) :
    (Pattern.sequence (.group group number) (.notBefore isNameChar)).first? before text =
      (Numeral.readGuarded? text).map fun numeral =>
        ⟨numeral.text, text.drop numeral.text.length, [(group, ⟨[], numeral.text⟩)]⟩ := by
  rw [Pattern.first?, Pattern.ways_sequence_notBefore, Pattern.ways, List.filter_map, List.head?_map]
  exact (congrArg (Option.map _) (head?_filter_ways_number before text)).trans (Option.map_map _ _ _)

/-! ### The stem that is found -/

theorem ways_letter_hyphen (accepts : Char → Bool) (before : Option Char) (text : Text) :
    (Pattern.sequence (.one accepts) (.literal ['-'])).ways before text =
      match text with
      | letter :: '-' :: rest => if accepts letter then [⟨[letter, '-'], rest, []⟩] else []
      | _ => [] := by
  split
  · next letter rest =>
    cases accepted : accepts letter <;> simp [Pattern.ways, Text.after?, accepted, Way.append]
  · next other =>
    cases text with
    | nil => rfl
    | cons letter more =>
      cases more with
      | nil => cases accepted : accepts letter <;> simp [Pattern.ways, Text.after?, accepted]
      | cons hyphen rest =>
        have different : hyphen ≠ '-' := by
          rintro rfl
          exact other _ _ rfl
        cases accepted : accepts letter <;>
          simp [Pattern.ways, Text.after?, accepted, different]

/-- A word boundary in front of a stem is the start of a word. -/
theorem any_isWordChar_bne (before : Option Char) (rest : Text) :
    (before.any isWordChar != (borderStem ++ rest).head?.any isWordChar) = startsWord before := by
  have isWord : (borderStem ++ rest).head?.any isWordChar = true := rfl
  rw [isWord]
  cases before with
  | none => rfl
  | some char => cases word : isWordChar char <;> simp [startsWord, word]

theorem ways_paddingStem (before : Option Char) (text : Text) :
    Scaling.padding.stemPattern.ways before text =
      match readPaddingStem? text with
      | some (stem, rest) => [⟨stem, rest, [(1, ⟨[], stem.dropLast⟩)]⟩]
      | none => [] := by
  rw [Scaling.stemPattern]
  fun_cases readPaddingStem? text with
  | case1 rest => simp [Pattern.ways, Text.after?, isPaddingSide, Way.append, Span.behind]
  | case2 letter rest notHyphen isSide =>
    -- Without the letter a hyphen would have to stand in its place.
    have different : letter ≠ '-' := notHyphen
    simp [Pattern.ways, Text.after?, isSide, different, Way.append, Span.behind]
  | case3 letter rest notHyphen noSide =>
    have different : letter ≠ '-' := notHyphen
    simp [Pattern.ways, Text.after?, noSide, different, Way.append, Span.behind]
  | case4 text noHyphen noLetter =>
    rcases text with _ | ⟨first, _ | ⟨second, rest⟩⟩
    · rfl
    · by_cases same : first = 'p'
      · simp [Pattern.ways, Text.after?, same, Way.append]
      · simp [Pattern.ways, Text.after?, same]
    · by_cases same : first = 'p'
      · subst same
        have different : second ≠ '-' := by
          rintro rfl
          exact noHyphen rest rfl
        have absent : Text.after? ['-'] rest = none := by
          rw [Text.after?_eq_none_iff]
          rintro ⟨more, rfl⟩
          exact noLetter second more rfl
        cases isSide : isPaddingSide second <;>
          simp [Pattern.ways, Text.after?, Way.append, different, isSide, absent]
      · simp [Pattern.ways, Text.after?, same]

namespace Scaling

/-- What is remembered of a stem. -/
def stemGroups : Scaling → Text → List (Nat × Span)
  | border, _ => []
  | side, stem => [(1, ⟨[], stem⟩)]
  | padding, stem => [(1, ⟨[], stem.dropLast⟩)]

/-- There is one way to read a stem, the way of the pass. -/
theorem ways_stemPattern (scaling : Scaling) (before : Option Char) (text : Text) :
    scaling.stemPattern.ways before text =
      match scaling.readStem? before text with
      | some (stem, rest) => [⟨stem, rest, scaling.stemGroups stem⟩]
      | none => [] := by
  cases scaling with
  | border =>
    rw [stemPattern, Pattern.ways_sequence_wordBoundary, readStem?]
    cases found : Text.after? borderStem text with
    | none => simp [ways_literal_eq_nil found]
    | some rest =>
      obtain rfl := Text.after?_eq_some_iff.mp found
      rw [any_isWordChar_bne, ways_literal_append]
      split <;> rfl
  | side =>
    rw [stemPattern, Pattern.ways_sequence_wordBoundary, readStem?, Pattern.ways]
    cases found : Text.after? borderStem text with
    | none => simp [Pattern.ways_sequence_of_nil (ways_literal_eq_nil found before)]
    | some behind =>
      obtain rfl := Text.after?_eq_some_iff.mp found
      rw [any_isWordChar_bne,
        Pattern.ways_sequence_of_singleton (ways_literal_append borderStem behind before),
        ways_letter_hyphen]
      split
      · split
        · next letter rest same =>
          obtain rfl : behind = letter :: '-' :: rest := same
          cases isSide : isBorderSide letter <;> simp [isSide, Way.append, stemGroups]
        · next other =>
          split
          · next found =>
            split at found
            · next letter rest same => exact absurd (Option.some.inj same) (other letter rest)
            · cases found
          · rfl
      · rfl
  | padding => exact ways_paddingStem before text

theorem lookup_stemGroups (scaling : Scaling) (stem : Text) (group : Nat)
    (isNumber : scaling.numberGroup ≤ group) : (scaling.stemGroups stem).lookup group = none := by
  have different (later : 2 ≤ group) : (group == 1) = false := beq_false_of_ne (Nat.ne_of_gt later)
  cases scaling with
  | border => rfl
  | side => rw [stemGroups, List.lookup_cons, different isNumber]; rfl
  | padding => rw [stemGroups, List.lookup_cons, different isNumber]; rfl

end Scaling

/-! ### The passes and the patterns -/

theorem scaled_text {numeral : Numeral} (wellFormed : numeral.WellFormed) :
    scaled numeral.text = quadrupled numeral := by
  rw [scaled, Numeral.ofText?_text wellFormed, quadrupled]

namespace Scaling

/-- At each place a pass takes what its pattern finds there, and scales the number of it. -/
theorem pass_eq_map_first? (scaling : Scaling) (before : Option Char) (text : Text) :
    scaling.pass before text =
      (scaling.guardedPattern.first? before text).map fun way =>
        (way.source, way.substitute scaling.numberGroup scaled) := by
  have stems := scaling.ways_stemPattern before text
  rw [pass_eq_bind]
  cases found : scaling.readStem? before text with
  | none =>
    rw [found] at stems
    rw [Pattern.first?, guardedPattern, Pattern.ways_sequence_of_nil stems]
    rfl
  | some read =>
    obtain ⟨stem, rest⟩ := read
    rw [found] at stems
    have number_eq := first?_guarded_number scaling.numberGroup (Matcher.lastOf before stem) rest
    rw [Pattern.first?] at number_eq
    rw [Pattern.first?, guardedPattern, Pattern.ways_sequence_of_singleton stems, List.head?_map,
      number_eq, Option.bind_some]
    cases reading : Numeral.readGuarded? rest with
    | none => simp [quadruple?, reading]
    | some numeral =>
      obtain ⟨_, _, ⟨wellFormed, _, _⟩⟩ := Numeral.readGuarded?_eq_some_iff.mp reading
      simp [quadruple?, reading, Way.append, Way.substitute, Span.behind, Span.through,
        List.lookup_append, lookup_stemGroups, scaled_text wellFormed]

end Scaling

/-! ### The passes and the loop -/

/-- Without a condition behind it the longest number is found. -/
theorem first?_plain_number {numeral : Numeral} {rest : Text} (wellFormed : numeral.WellFormed)
    (ends : numeral.Ends rest) (group : Nat) (before : Option Char) :
    (Pattern.sequence (.group group (.run Char.isDigit))
        (.optional (.group (group + 1) fraction))).first? before (numeral.text ++ rest) =
      some ⟨numeral.text, rest, (group, ⟨[], numeral.whole⟩) ::
        match numeral.fraction with
        | none => []
        | some digits => [(group + 1, ⟨numeral.whole, '.' :: digits⟩)]⟩ := by
  have digits {behind : Text} (stopped : Text.stops Char.isDigit behind = true) :
      (Pattern.group group (.run Char.isDigit)).first? before (numeral.whole ++ behind) =
        some ⟨numeral.whole, behind, [(group, ⟨[], numeral.whole⟩)]⟩ := by
    obtain ⟨cuts, ways_eq, _⟩ :=
      exists_ways_run_eq_cons wellFormed.whole_ne_nil wellFormed.whole_digits stopped before
    rw [Pattern.first?, Pattern.ways, ways_eq]
    rfl
  obtain ⟨whole, places⟩ := numeral
  obtain ⟨stopped, noFraction⟩ := ends
  cases places with
  | none =>
    have left : (Pattern.optional (.group (group + 1) fraction)).first? (Matcher.lastOf before whole)
        rest = some ⟨[], rest, []⟩ := by
      rw [Pattern.first?, Pattern.ways, Pattern.ways, ways_fraction_eq_nil (noFraction rfl)]
      rfl
    have found := Pattern.first?_sequence (digits stopped) left
    rw [Numeral.text_mk_none, found]
    simp [Way.append]
  | some places =>
    have read : Numeral.readFraction? ('.' :: (places ++ rest)) = some (places, rest) :=
      Numeral.readFraction?_eq_some_iff.mpr ⟨rfl, wellFormed.fraction_ne_nil places rfl,
        wellFormed.fraction_digits places rfl, stopped⟩
    obtain ⟨cuts, ways_eq, _⟩ := exists_ways_fraction_eq_cons read (Matcher.lastOf before whole)
    have taken : (Pattern.optional (.group (group + 1) fraction)).first?
        (Matcher.lastOf before whole) ('.' :: (places ++ rest)) =
          some ⟨'.' :: places, rest, [(group + 1, ⟨[], '.' :: places⟩)]⟩ := by
      rw [Pattern.first?, Pattern.ways, Pattern.ways, ways_eq]
      rfl
    have found := Pattern.first?_sequence (digits (by rfl)) taken
    rw [Numeral.text_mk_some, List.append_assoc, List.cons_append, found]
    simp [Way.append, Span.behind]

theorem first?_plain_number_of_none {text : Text} (absent : Numeral.read? text = none) (group : Nat)
    (before : Option Char) :
    (Pattern.sequence (.group group (.run Char.isDigit))
      (.optional (.group (group + 1) fraction))).first? before text = none := by
  have noDigits : (Pattern.group group (.run Char.isDigit)).ways before text = [] := by
    rw [Pattern.ways, ways_run_eq_nil (Numeral.stops_of_read?_eq_none absent), List.map_nil]
  rw [Pattern.first?, Pattern.ways_sequence_of_nil noDigits, List.head?_nil]

namespace Scaling

theorem writtenStem_append {scaling : Scaling} {stem : Text} (isStem : stem ∈ scaling.stems)
    (rest : Text) (next : Way) :
    scaling.writtenStem (Way.append ⟨stem, rest, scaling.stemGroups stem⟩ next) = stem := by
  cases scaling with
  | border => exact (List.mem_singleton.mp isStem).symm
  | side => rfl
  | padding =>
    obtain ⟨lead, rfl⟩ := exists_stem_eq_concat isStem
    have remembered : (lead ++ ['-']).dropLast = lead := List.dropLast_concat
    simp [writtenStem, Way.append, stemGroups, remembered]

/-- The longest number behind a stem is cut down to the guarded numeral. -/
theorem guardedNumber?_append (scaling : Scaling) {numeral : Numeral} {rest : Text}
    (read : Numeral.read? (numeral.text ++ rest) = some (numeral, rest)) (stem behind : Text) :
    guardedNumber?
        (Way.append ⟨stem, behind, scaling.stemGroups stem⟩
          ⟨numeral.text, rest, (scaling.numberGroup, ⟨[], numeral.whole⟩) ::
            match numeral.fraction with
            | none => []
            | some digits => [(scaling.numberGroup + 1, ⟨numeral.whole, '.' :: digits⟩)]⟩)
        scaling.numberGroup (scaling.numberGroup + 1) =
      (Numeral.readGuarded? (numeral.text ++ rest)).map fun numeral =>
        (stem ++ numeral.text, numeral.text) := by
  have first := scaling.lookup_stemGroups stem scaling.numberGroup le_rfl
  have second := scaling.lookup_stemGroups stem (scaling.numberGroup + 1) (Nat.le_succ _)
  have different : (scaling.numberGroup + 1 == scaling.numberGroup) = false :=
    beq_false_of_ne (Nat.succ_ne_self _)
  obtain ⟨whole, places⟩ := numeral
  rw [Numeral.readGuarded?, read]
  cases places with
  | none =>
    cases stopped : Text.stops isNameChar rest <;>
      simp [guardedNumber?, Way.append, Span.behind, Span.through, List.lookup_append,
        List.lookup_cons, first, second, different, stopped, Numeral.text_mk_none]
  | some digits =>
    cases stopped : Text.stops isNameChar rest <;>
      simp [guardedNumber?, Way.append, Span.behind, Span.through, List.lookup_append,
        List.lookup_cons, first, second, different, stopped, Numeral.text_mk_some, Numeral.integerPart,
        Numeral.text_mk_none]

/-- At each place a pass takes what is left of the number that the pattern without the condition finds
there. -/
theorem pass_eq_bind_first? (scaling : Scaling) (before : Option Char) (text : Text) :
    scaling.pass before text = (scaling.plainPattern.first? before text).bind scaling.rewrite := by
  have stems := scaling.ways_stemPattern before text
  rw [pass_eq_bind]
  cases found : scaling.readStem? before text with
  | none =>
    rw [found] at stems
    rw [Pattern.first?, plainPattern, Pattern.ways_sequence_of_nil stems]
    rfl
  | some read =>
    obtain ⟨stem, rest⟩ := read
    rw [found] at stems
    rw [Pattern.first?, plainPattern, Pattern.ways_sequence_of_singleton stems, List.head?_map,
      ← Pattern.first?]
    cases reading : Numeral.read? rest with
    | none =>
      rw [first?_plain_number_of_none reading]
      simp [quadruple?, Numeral.readGuarded?, reading]
    | some read =>
      obtain ⟨numeral, behind⟩ := read
      obtain ⟨rfl, wellFormed, ends⟩ := Numeral.read?_eq_some_iff.mp reading
      rw [first?_plain_number wellFormed ends, Option.map_some, Option.bind_some, Option.bind_some,
        Scaling.rewrite, writtenStem_append (readStem?_eq_some_iff.mp found).2.1,
        guardedNumber?_append scaling reading]
      simp only [quadruple?, Option.map_map]
      refine Option.map_congr fun guarded found' => ?_
      obtain ⟨_, _, ⟨wellFormed', _, _⟩⟩ := Numeral.readGuarded?_eq_some_iff.mp found'
      rw [Function.comp_apply, scaled_text wellFormed']

theorem pass_source_ne_nil {scaling : Scaling} {before : Option Char} {text source replacement : Text}
    (taken : scaling.pass before text = some (source, replacement)) : source ≠ [] := by
  obtain ⟨stem, _, numeral, rest, scales⟩ := exists_scales_of_taken taken
  rw [scales.source_eq]
  exact List.append_ne_nil_of_right_ne_nil _ scales.wellFormed.text_ne_nil

/-- A scaling pass replaces what its pattern finds, everywhere and from left to right, with the number
scaled and all else kept; and the loop that tests the condition afterwards writes the same text. -/
theorem replaceAll_pass (scaling : Scaling) (text : Text) :
    (∀ result, Pattern.ReplacesAll scaling.guardedPattern
        (fun way => way.substitute scaling.numberGroup scaled) none text result ↔
      result = scaling.pass.replaceAll text) ∧
    scaling.plainPattern.replaceGuarded scaling.rewrite [] none text =
      scaling.pass.replaceAll text := by
  rw [Matcher.replaceAll_eq_sweep]
  refine ⟨fun result => ?_, ?_⟩
  · exact Pattern.replacesAll_iff_eq_sweep scaling.pass_eq_map_first?
      fun _ _ _ _ => pass_source_ne_nil
  · rw [Pattern.replaceGuarded_eq_append_sweep scaling.pass_eq_bind_first? scaling.pass_faithful,
      List.nil_append]

end Scaling

end ClassNumber

end AtomicCss
