/-
This file reads numerals. A numeral is well formed if it has digits before the point, and digits
behind the point if it has one; the reader of numerals yields well-formed ones only, and yields
each of them where its text stands and is not carried on. The reader of guarded numerals yields the
longest that no character of a name carries on: the numeral that is read, or its digits before the
point if that one is carried on.
-/

import AtomicCss.Number.Numeral
import AtomicCss.Proofs.Runs

namespace AtomicCss

namespace Numeral

/-! ### Well-formed numerals -/

/-- A numeral that can be read: digits, and digits behind the point if there is one. -/
structure WellFormed (numeral : Numeral) : Prop where
  whole_ne_nil : numeral.whole ≠ []
  whole_digits : ∀ char ∈ numeral.whole, char.isDigit = true
  fraction_ne_nil : ∀ digits ∈ numeral.fraction, digits ≠ []
  fraction_digits : ∀ digits ∈ numeral.fraction, ∀ char ∈ digits, char.isDigit = true

theorem text_mk_none (whole : Text) : text ⟨whole, none⟩ = whole := rfl

theorem text_mk_some (whole digits : Text) : text ⟨whole, some digits⟩ = whole ++ '.' :: digits :=
  rfl

theorem WellFormed.text_ne_nil {numeral : Numeral} (wellFormed : numeral.WellFormed) :
    numeral.text ≠ [] := by
  obtain ⟨whole, fraction⟩ := numeral
  cases fraction with
  | none => exact wellFormed.whole_ne_nil
  | some digits => exact List.append_ne_nil_of_right_ne_nil _ (List.cons_ne_nil _ _)

/-- A numeral starts with a digit. -/
theorem WellFormed.exists_text_eq_cons {numeral : Numeral} (wellFormed : numeral.WellFormed) :
    ∃ digit rest, numeral.text = digit :: rest ∧ digit.isDigit = true := by
  obtain ⟨digit, more, whole⟩ := List.exists_cons_of_ne_nil wellFormed.whole_ne_nil
  have isDigit := wellFormed.whole_digits digit (by rw [whole]; exact List.mem_cons_self)
  obtain ⟨_, fraction⟩ := numeral
  subst whole
  cases fraction with
  | none => exact ⟨digit, more, rfl, isDigit⟩
  | some digits => exact ⟨digit, more ++ '.' :: digits, rfl, isDigit⟩

/-- A numeral ends with a digit. -/
theorem WellFormed.exists_text_eq_concat {numeral : Numeral} (wellFormed : numeral.WellFormed) :
    ∃ lead digit, numeral.text = lead ++ [digit] ∧ digit.isDigit = true := by
  obtain ⟨whole, fraction⟩ := numeral
  cases fraction with
  | none =>
    obtain ⟨lead, digit, same⟩ :=
      (List.eq_nil_or_concat whole).resolve_left wellFormed.whole_ne_nil
    rw [List.concat_eq_append] at same
    exact ⟨lead, digit, same, wellFormed.whole_digits digit (by rw [same]; simp)⟩
  | some digits =>
    obtain ⟨lead, digit, same⟩ :=
      (List.eq_nil_or_concat digits).resolve_left (wellFormed.fraction_ne_nil digits rfl)
    rw [List.concat_eq_append] at same
    refine ⟨whole ++ '.' :: lead, digit, ?_, wellFormed.fraction_digits digits rfl digit (by
      rw [same]; simp)⟩
    rw [text_mk_some, same, List.append_assoc, List.cons_append]

theorem WellFormed.isDigit_or_eq_point {numeral : Numeral} (wellFormed : numeral.WellFormed)
    {char : Char} (member : char ∈ numeral.text) : char.isDigit = true ∨ char = '.' := by
  obtain ⟨whole, fraction⟩ := numeral
  cases fraction with
  | none => exact Or.inl (wellFormed.whole_digits char member)
  | some digits =>
    rcases List.mem_append.mp member with inWhole | inRest
    · exact Or.inl (wellFormed.whole_digits char inWhole)
    · rcases List.mem_cons.mp inRest with point | inDigits
      · exact Or.inr point
      · exact Or.inl (wellFormed.fraction_digits digits rfl char inDigits)

/-! ### Reading numerals -/

theorem readFraction?_eq_some_iff {text digits rest : Text} :
    readFraction? text = some (digits, rest) ↔
      text = '.' :: (digits ++ rest) ∧ digits ≠ [] ∧ (∀ char ∈ digits, char.isDigit = true) ∧
        Text.stops Char.isDigit rest = true := by
  constructor
  · intro found
    unfold readFraction? at found
    split at found
    · next behind =>
      split at found
      · cases found
      · next digits' rest' nonempty split =>
        obtain ⟨rfl, rfl⟩ : digits' = digits ∧ rest' = rest := by simpa using found
        obtain ⟨spelt, isDigit, stopped⟩ := Text.span_eq_iff.mp split
        exact ⟨by rw [spelt], nonempty, isDigit, stopped⟩
    · cases found
  · rintro ⟨rfl, nonempty, isDigit, stopped⟩
    have split := Text.span_eq_iff.mpr ⟨rfl, isDigit, stopped⟩
    obtain ⟨first, more, rfl⟩ := List.exists_cons_of_ne_nil nonempty
    rw [readFraction?, split]

/-- The text does not carry a numeral on: no digit follows, and no point with a digit behind if the
numeral has no point. -/
def Ends (numeral : Numeral) (rest : Text) : Prop :=
  Text.stops Char.isDigit rest = true ∧ (numeral.fraction = none → readFraction? rest = none)

/-- The reader yields the well-formed numerals that are not carried on. -/
theorem read?_eq_some_iff {text rest : Text} {numeral : Numeral} :
    read? text = some (numeral, rest) ↔
      text = numeral.text ++ rest ∧ numeral.WellFormed ∧ numeral.Ends rest := by
  constructor
  · intro found
    unfold read? at found
    split at found
    · cases found
    · next whole behind nonempty split =>
      obtain ⟨rfl, isDigit, stopped⟩ := Text.span_eq_iff.mp split
      split at found
      · next digits rest' fraction =>
        obtain ⟨rfl, rfl⟩ : ⟨whole, some digits⟩ = numeral ∧ rest' = rest := by simpa using found
        obtain ⟨rfl, nonempty', isDigit', stopped'⟩ := readFraction?_eq_some_iff.mp fraction
        refine ⟨by simp [text_mk_some], ⟨nonempty, isDigit, ?_, ?_⟩, stopped', by simp⟩
        · rintro _ ⟨⟩
          exact nonempty'
        · rintro _ ⟨⟩
          exact isDigit'
      · next fraction =>
        obtain ⟨rfl, rfl⟩ : ⟨whole, none⟩ = numeral ∧ behind = rest := by simpa using found
        exact ⟨rfl, ⟨nonempty, isDigit, by simp, by simp⟩, stopped, fun _ => fraction⟩
  · rintro ⟨rfl, wellFormed, stopped, ends⟩
    obtain ⟨whole, fraction⟩ := numeral
    obtain ⟨first, more, spelt⟩ := List.exists_cons_of_ne_nil wellFormed.whole_ne_nil
    cases fraction with
    | none =>
      have split : Text.span Char.isDigit (whole ++ rest) = (whole, rest) :=
        Text.span_eq_iff.mpr ⟨rfl, wellFormed.whole_digits, stopped⟩
      have behind := ends rfl
      subst spelt
      rw [read?, text_mk_none, split]
      simp only [behind]
    | some digits =>
      have split : Text.span Char.isDigit (whole ++ '.' :: (digits ++ rest)) =
          (whole, '.' :: (digits ++ rest)) :=
        Text.span_eq_iff.mpr ⟨rfl, wellFormed.whole_digits, rfl⟩
      have behind := readFraction?_eq_some_iff.mpr ⟨rfl, wellFormed.fraction_ne_nil digits rfl,
        wellFormed.fraction_digits digits rfl, stopped⟩
      have joined : whole ++ '.' :: digits ++ rest = whole ++ '.' :: (digits ++ rest) := by simp
      subst spelt
      rw [read?, text_mk_some, joined, split]
      simp only [behind]

/-- A text that starts with no digit and no point carries no numeral on. -/
theorem ends_cons {numeral : Numeral} {char : Char} {rest : Text} (notDigit : char.isDigit = false)
    (notPoint : char ≠ '.') : numeral.Ends (char :: rest) := by
  refine ⟨by simp [Text.stops, notDigit], fun _ => ?_⟩
  unfold readFraction?
  split
  · next behind spelt => exact absurd (List.cons.inj spelt).1 notPoint
  · rfl

theorem ends_nil (numeral : Numeral) : numeral.Ends [] :=
  ⟨rfl, fun _ => rfl⟩

/-- Behind a point without a fraction no digit stands. -/
theorem stops_of_readFraction?_eq_none {rest : Text} (absent : readFraction? ('.' :: rest) = none) :
    Text.stops Char.isDigit rest = true := by
  rw [readFraction?] at absent
  split at absent
  · next behind same =>
    obtain ⟨spelt, _, stopped⟩ := Text.span_eq_iff.mp same
    rwa [spelt]
  · cases absent

/-- Where no numeral can be read, no digit stands. -/
theorem stops_of_read?_eq_none {text : Text} (absent : read? text = none) :
    Text.stops Char.isDigit text = true := by
  unfold read? at absent
  split at absent
  · next behind same =>
    obtain ⟨spelt, _, stopped⟩ := Text.span_eq_iff.mp same
    rwa [spelt]
  · split at absent <;> cases absent

/-- A numeral is the numeral that its text spells. -/
theorem ofText?_text {numeral : Numeral} (wellFormed : numeral.WellFormed) :
    ofText? numeral.text = some numeral := by
  have reading : read? numeral.text = some (numeral, []) :=
    read?_eq_some_iff.mpr ⟨(List.append_nil _).symm, wellFormed, ends_nil numeral⟩
  rw [ofText?, readLoose?, reading]

/-! ### Guarded numerals -/

/-- Of the numerals that the text may be read to start with, this is the longest that no character of
a name carries on. -/
structure Guarded (numeral : Numeral) (rest : Text) : Prop where
  wellFormed : numeral.WellFormed
  stopped : Text.stops isNameChar rest = true
  longest : ∀ (other : Numeral) (behind : Text), other.WellFormed →
    Text.stops isNameChar behind = true → other.text ++ behind = numeral.text ++ rest →
      other.text.length ≤ numeral.text.length

/-- At one place one numeral is guarded. -/
theorem Guarded.unique {numeral numeral' : Numeral} {rest rest' : Text}
    (guarded : numeral.Guarded rest) (guarded' : numeral'.Guarded rest')
    (same : numeral.text ++ rest = numeral'.text ++ rest') : numeral = numeral' ∧ rest = rest' := by
  have notLonger := guarded'.longest numeral rest guarded.wellFormed guarded.stopped same
  have notShorter := guarded.longest numeral' rest' guarded'.wellFormed guarded'.stopped same.symm
  obtain ⟨text_eq, rfl⟩ := List.append_inj same (Nat.le_antisymm notLonger notShorter)
  have spelt := ofText?_text guarded.wellFormed
  rw [text_eq, ofText?_text guarded'.wellFormed] at spelt
  exact ⟨(Option.some.inj spelt).symm, rfl⟩

/-- Where a numeral ends, no other one is stopped at its place but its digits before the point. -/
theorem WellFormed.eq_or_eq_integerPart {numeral other : Numeral} {rest behind : Text}
    (wellFormed : numeral.WellFormed) (ends : numeral.Ends rest) (wellFormed' : other.WellFormed)
    (stopped : Text.stops isNameChar behind = true)
    (same : other.text ++ behind = numeral.text ++ rest) :
    (other = numeral ∧ behind = rest) ∨
      (other = numeral.integerPart ∧ numeral.fraction.isSome = true) := by
  have stopped' : Text.stops Char.isDigit behind = true :=
    Text.stops_of_imp (fun _ isDigit => isNameChar_of_isWordChar (isWordChar_of_isDigit isDigit))
      stopped
  obtain ⟨whole, fraction⟩ := numeral
  obtain ⟨whole', fraction'⟩ := other
  cases fraction with
  | none =>
    cases fraction' with
    | none =>
      obtain ⟨rfl, rfl⟩ := Text.run_unique same wellFormed'.whole_digits stopped'
        wellFormed.whole_digits ends.1
      exact Or.inl ⟨rfl, rfl⟩
    | some digits' =>
      rw [text_mk_some, text_mk_none, List.append_assoc, List.cons_append] at same
      obtain ⟨rfl, rfl⟩ := Text.run_unique same wellFormed'.whole_digits rfl
        wellFormed.whole_digits ends.1
      have carried := readFraction?_eq_some_iff.mpr ⟨rfl, wellFormed'.fraction_ne_nil digits' rfl,
        wellFormed'.fraction_digits digits' rfl, stopped'⟩
      rw [ends.2 rfl] at carried
      cases carried
  | some digits =>
    rw [text_mk_some, List.append_assoc, List.cons_append] at same
    cases fraction' with
    | none =>
      obtain ⟨rfl, _⟩ := Text.run_unique same wellFormed'.whole_digits stopped'
        wellFormed.whole_digits rfl
      exact Or.inr ⟨rfl, rfl⟩
    | some digits' =>
      rw [text_mk_some, List.append_assoc, List.cons_append] at same
      obtain ⟨rfl, points⟩ := Text.run_unique same wellFormed'.whole_digits rfl
        wellFormed.whole_digits rfl
      obtain ⟨rfl, rfl⟩ := Text.run_unique (List.cons.inj points).2
        (wellFormed'.fraction_digits digits' rfl) stopped' (wellFormed.fraction_digits digits rfl)
        ends.1
      exact Or.inl ⟨rfl, rfl⟩

theorem integerPart_text_prefix (numeral : Numeral) : numeral.integerPart.text <+: numeral.text := by
  obtain ⟨whole, fraction⟩ := numeral
  cases fraction with
  | none => exact List.prefix_refl whole
  | some digits => exact List.prefix_append whole ('.' :: digits)

theorem exists_guarded_of_readGuarded? {text : Text} {numeral : Numeral}
    (found : readGuarded? text = some numeral) :
    ∃ rest, text = numeral.text ++ rest ∧ numeral.Guarded rest := by
  unfold readGuarded? at found
  split at found
  · cases found
  · next read rest reading =>
    obtain ⟨rfl, wellFormed, ends⟩ := read?_eq_some_iff.mp reading
    split at found
    · next stopped =>
      obtain rfl : read = numeral := Option.some.inj found
      refine ⟨rest, rfl, wellFormed, stopped, fun other behind wellFormed' stopped' same => ?_⟩
      obtain ⟨rfl, _⟩ | ⟨rfl, _⟩ :=
        wellFormed.eq_or_eq_integerPart ends wellFormed' stopped' same
      · exact Nat.le_refl _
      · exact read.integerPart_text_prefix.length_le
    · next carried =>
      split at found
      · next fractional =>
        obtain rfl : read.integerPart = numeral := Option.some.inj found
        obtain ⟨whole, fraction⟩ := read
        obtain ⟨digits, rfl⟩ := Option.isSome_iff_exists.mp fractional
        have spelt : text ⟨whole, some digits⟩ ++ rest = whole ++ '.' :: (digits ++ rest) := by
          rw [text_mk_some, List.append_assoc, List.cons_append]
        refine ⟨'.' :: (digits ++ rest), spelt, ⟨wellFormed.whole_ne_nil, wellFormed.whole_digits,
          by simp [integerPart], by simp [integerPart]⟩, rfl,
          fun other behind wellFormed' stopped' same => ?_⟩
        obtain ⟨rfl, rfl⟩ | ⟨rfl, _⟩ :=
          wellFormed.eq_or_eq_integerPart ends wellFormed' stopped' (same.trans spelt.symm)
        · exact absurd stopped' carried
        · exact Nat.le_refl _
      · cases found

theorem Guarded.readGuarded?_append {numeral : Numeral} {rest : Text}
    (guarded : numeral.Guarded rest) : readGuarded? (numeral.text ++ rest) = some numeral := by
  cases found : readGuarded? (numeral.text ++ rest) with
  | some numeral' =>
    obtain ⟨rest', same, guarded'⟩ := exists_guarded_of_readGuarded? found
    rw [(guarded.unique guarded' same).1]
  | none =>
    cases reading : read? (numeral.text ++ rest) with
    | none =>
      obtain ⟨digit, more, spelt, isDigit⟩ := guarded.wellFormed.exists_text_eq_cons
      have stopped := stops_of_read?_eq_none reading
      simp [spelt, Text.stops, isDigit] at stopped
    | some result =>
      obtain ⟨read, behind⟩ := result
      obtain ⟨same, wellFormed, ends⟩ := read?_eq_some_iff.mp reading
      simp only [readGuarded?, reading] at found
      split at found
      · cases found
      · next carried =>
        split at found
        · cases found
        · next noFraction =>
          obtain ⟨rfl, rfl⟩ | ⟨_, fractional⟩ :=
            wellFormed.eq_or_eq_integerPart ends guarded.wellFormed guarded.stopped same
          · exact absurd guarded.stopped carried
          · exact absurd fractional noFraction

/-- The reader of guarded numerals yields the one that is guarded. -/
theorem readGuarded?_eq_some_iff {text : Text} {numeral : Numeral} :
    readGuarded? text = some numeral ↔
      ∃ rest, text = numeral.text ++ rest ∧ numeral.Guarded rest := by
  refine ⟨exists_guarded_of_readGuarded?, ?_⟩
  rintro ⟨rest, rfl, guarded⟩
  exact guarded.readGuarded?_append

end Numeral

end AtomicCss
