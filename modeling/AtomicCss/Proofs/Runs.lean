/-
This file reads runs of characters: the longest run at the start of a text, the blanks around it,
and the words between blanks. A run is known by two things, that all of it is accepted and that
what follows stops it, and from these every reader of runs is computed on a text that is put
together from runs. Where a value has no parentheses, its parts are its words.
-/

import AtomicCss.Generator.Parts
import Mathlib.Data.List.TakeWhile

namespace AtomicCss

/-! ### Ranges of characters -/

theorem isDigit_iff_toNat {char : Char} :
    char.isDigit = true ↔ 48 ≤ char.toNat ∧ char.toNat ≤ 57 := Char.isDigit_iff_toNat

theorem isAlpha_iff_toNat {char : Char} :
    char.isAlpha = true ↔
      (65 ≤ char.toNat ∧ char.toNat ≤ 90) ∨ (97 ≤ char.toNat ∧ char.toNat ≤ 122) := by
  have spelt : char.isAlpha = (decide (char.val ≥ 65 ∧ char.val ≤ 90) ||
      decide (char.val ≥ 97) && decide (char.val ≤ 122)) := rfl
  simp only [spelt, Bool.or_eq_true, Bool.and_eq_true, decide_eq_true_eq, ge_iff_le,
    UInt32.le_iff_toNat_le]
  exact Iff.rfl

theorem isWordChar_iff {char : Char} :
    isWordChar char = true ↔ (char.isAlpha = true ∨ char.isDigit = true) ∨ char = '_' := by
  rw [isWordChar, Char.isAlphanum, Bool.or_eq_true, Bool.or_eq_true, beq_iff_eq]

theorem isWordChar_of_isDigit {char : Char} (isDigit : char.isDigit = true) :
    isWordChar char = true := isWordChar_iff.mpr (Or.inl (Or.inr isDigit))

theorem isWordChar_of_isAlpha {char : Char} (isAlpha : char.isAlpha = true) :
    isWordChar char = true := isWordChar_iff.mpr (Or.inl (Or.inl isAlpha))

theorem isNameChar_of_isWordChar {char : Char} (isWord : isWordChar char = true) :
    isNameChar char = true := by
  rw [isNameChar, isWord, Bool.true_or]

/-- A letter is no digit. -/
theorem isDigit_of_isAlpha {char : Char} (isAlpha : char.isAlpha = true) :
    char.isDigit = false := by
  rw [isAlpha_iff_toNat] at isAlpha
  rw [← Bool.not_eq_true, isDigit_iff_toNat]
  omega

/-- A digit has no small form. -/
theorem toLower_of_isDigit {char : Char} (isDigit : char.isDigit = true) : char.toLower = char := by
  rw [isDigit_iff_toNat] at isDigit
  unfold Char.toLower
  split
  · next capital =>
    have least : 65 ≤ char.toNat := UInt32.le_iff_toNat_le.mp capital.1
    omega
  · rfl

/-- What has a letter for its small form is a letter. -/
theorem isAlpha_of_isAlpha_toLower {char : Char} (isAlpha : char.toLower.isAlpha = true) :
    char.isAlpha = true := by
  unfold Char.toLower at isAlpha
  split at isAlpha
  · next capital =>
    have least : 65 ≤ char.toNat := UInt32.le_iff_toNat_le.mp capital.1
    have most : char.toNat ≤ 90 := UInt32.le_iff_toNat_le.mp capital.2
    exact isAlpha_iff_toNat.mpr (Or.inl ⟨least, most⟩)
  · exact isAlpha

/-! ### Characters that are not blank -/

theorem isBlank_eq_false {char : Char} (above : 0x20 < char.toNat) (below : char.toNat < 0x7F) :
    isBlank char = false := by
  simp only [isBlank, blankRanges, CharRange.holds, List.any_cons, List.any_nil, Bool.or_false,
    Bool.or_eq_false_iff, Bool.and_eq_false_iff, decide_eq_false_iff_not]
  omega

theorem isBlank_of_isWordChar {char : Char} (isWord : isWordChar char = true) :
    isBlank char = false := by
  rw [isWordChar_iff, isAlpha_iff_toNat, isDigit_iff_toNat] at isWord
  rcases isWord with isAlphanum | rfl
  · exact isBlank_eq_false (by omega) (by omega)
  · decide

namespace Text

/-- A text has no character that is unlike all of its own. -/
theorem not_mem_of_forall {holds : Char → Bool} {value : Bool} {text : Text}
    (all : ∀ char ∈ text, holds char = value) {char : Char} (unlike : holds char = !value) :
    char ∉ text := by
  intro member
  rw [all char member] at unlike
  cases value <;> cases unlike

/-- A character that is not in the text in front stands behind it. -/
theorem exists_append_of_not_mem {front behind lead rest : Text} {char : Char}
    (spelt : front ++ behind = lead ++ char :: rest) (absent : char ∉ front) :
    ∃ between, lead = front ++ between ∧ behind = between ++ char :: rest := by
  rcases List.append_eq_append_iff.mp spelt with ⟨between, lead_eq, inside⟩ |
    ⟨between, front_eq, inside⟩
  · exact ⟨between, lead_eq, inside⟩
  · cases between with
    | nil => exact ⟨[], by rw [front_eq, List.append_nil, List.append_nil], inside.symm⟩
    | cons first between =>
      obtain ⟨rfl, _⟩ := List.cons.inj inside
      exact absurd (by rw [front_eq]; simp) absent

/-- A text without a character stands on one side of it. -/
theorem infix_append_cons_iff {needle lead rest : Text} {char : Char} (absent : char ∉ needle) :
    needle <:+: lead ++ char :: rest ↔ needle <:+: lead ∨ needle <:+: rest := by
  constructor
  · rintro ⟨start, behind, spelt⟩
    rcases List.append_eq_append_iff.mp spelt with ⟨between, rfl, _⟩ | ⟨between, met, inside⟩
    · exact .inl ⟨start, between, rfl⟩
    · cases between with
      | nil => exact .inl ⟨start, [], by rw [List.append_nil, met, List.append_nil]⟩
      | cons first between =>
        obtain ⟨rfl, rfl⟩ := List.cons.inj inside
        rcases List.append_eq_append_iff.mp met with ⟨more, _, rfl⟩ | ⟨more, rfl, inside'⟩
        · exact absurd (by simp) absent
        · cases more with
          | nil =>
            obtain rfl : char :: between = needle := inside'
            exact absurd List.mem_cons_self absent
          | cons other more =>
            obtain ⟨rfl, rfl⟩ := List.cons.inj inside'
            exact .inr ⟨more, behind, rfl⟩
  · rintro (inLead | inRest)
    · exact inLead.trans (List.prefix_append lead _).isInfix
    · exact inRest.trans ⟨lead ++ [char], [], by simp⟩

theorem infix_of_infix_append_right {needle front text : Text}
    (apart : ∀ char ∈ front, char ∉ needle) (inside : needle <:+: front ++ text) :
    needle <:+: text := by
  induction front with
  | nil => exact inside
  | cons char front inductionHypothesis =>
    obtain ⟨absent, apart'⟩ := List.forall_mem_cons.mp apart
    have split : needle <:+: [] ∨ needle <:+: front ++ text :=
      (infix_append_cons_iff absent).mp inside
    rcases split with nothing | further
    · rw [List.infix_nil.mp nothing]
      exact List.nil_infix
    · exact inductionHypothesis apart' further

theorem infix_of_infix_append_left {needle text back : Text}
    (apart : ∀ char ∈ back, char ∉ needle) (inside : needle <:+: text ++ back) :
    needle <:+: text := by
  rw [← List.reverse_infix, List.reverse_append] at inside
  have found : needle.reverse <:+: text.reverse := by
    refine infix_of_infix_append_right (fun char member => ?_) inside
    rw [List.mem_reverse] at member ⊢
    exact apart char member
  exact List.reverse_infix.mp found

theorem suffix_of_suffix_append_cons {mark lead text : Text} {char : Char} (absent : char ∉ mark)
    (ends : mark <:+ lead ++ char :: text) : mark <:+ text := by
  rcases List.suffix_or_suffix_of_suffix ends (List.suffix_append lead (char :: text)) with
    inside | around
  · rcases List.suffix_cons_iff.mp inside with rfl | inside
    · exact absurd List.mem_cons_self absent
    · exact inside
  · exact absurd (around.subset List.mem_cons_self) absent

/-- Whether a text starts with a lead is decided before a character that the lead has not. -/
theorem after?_append_cons {lead : Text} {char : Char} (absent : char ∉ lead) (text rest : Text) :
    after? lead (text ++ char :: rest) = (after? lead text).map (· ++ char :: rest) := by
  induction lead generalizing text with
  | nil => cases text <;> rfl
  | cons expected lead inductionHypothesis =>
    have behind := inductionHypothesis fun member => absent (List.mem_cons_of_mem expected member)
    cases text with
    | nil =>
      have different : char ≠ expected := by
        rintro rfl
        exact absent List.mem_cons_self
      simp [after?, different]
    | cons first text =>
      by_cases same : first = expected
      · simp [after?, same, behind]
      · simp [after?, same]

/-! ### The run at the start -/

theorem stops_of_forall_not {accepts : Char → Bool} {text : Text}
    (refused : ∀ char ∈ text, accepts char = false) : stops accepts text = true := by
  cases text with
  | nil => rfl
  | cons char text => simp [stops, refused char List.mem_cons_self]

/-- What stops a run stops a run of fewer characters. -/
theorem stops_of_imp {accepts accepts' : Char → Bool}
    (fewer : ∀ char, accepts' char = true → accepts char = true) {text : Text}
    (stopped : stops accepts text = true) : stops accepts' text = true := by
  cases text with
  | nil => rfl
  | cons char text =>
    simp only [stops, Bool.not_eq_true', ← Bool.not_eq_true] at stopped ⊢
    exact fun accepted => stopped (fewer char accepted)

theorem span_eq_iff {accepts : Char → Bool} {text lead rest : Text} :
    span accepts text = (lead, rest) ↔
      text = lead ++ rest ∧ (∀ char ∈ lead, accepts char = true) ∧ stops accepts rest = true := by
  rw [span, Prod.mk.injEq]
  constructor
  · rintro ⟨rfl, rfl⟩
    refine ⟨List.takeWhile_append_dropWhile.symm, fun char member => ?_, ?_⟩
    · exact List.mem_takeWhile_imp member
    · induction text with
      | nil => rfl
      | cons char text inductionHypothesis =>
        rw [List.dropWhile_cons]
        split
        · exact inductionHypothesis
        · next refused => simpa [stops] using refused
  · rintro ⟨rfl, accepted, stopped⟩
    have run : lead.takeWhile accepts = lead := List.takeWhile_eq_self_iff.mpr accepted
    have spent : lead.dropWhile accepts = [] := List.dropWhile_eq_nil_iff.mpr accepted
    have stays : rest.takeWhile accepts = [] ∧ rest.dropWhile accepts = rest := by
      cases rest with
      | nil => exact ⟨rfl, rfl⟩
      | cons char rest =>
        have refused : accepts char = false := by simpa [stops] using stopped
        simp [refused]
    constructor
    · rw [List.takeWhile_append, run, if_pos rfl, stays.1, List.append_nil]
    · rw [List.dropWhile_append, spent, List.isEmpty_nil, if_pos rfl, stays.2]

theorem stops_append_cons {accepts : Char → Bool} {char : Char} (refused : accepts char = false)
    (text rest : Text) : stops accepts (text ++ char :: rest) = stops accepts text := by
  cases text with
  | nil => simp [stops, refused]
  | cons first text => rfl

theorem span_append_cons {accepts : Char → Bool} {char : Char} (refused : accepts char = false)
    (text rest : Text) :
    span accepts (text ++ char :: rest) =
      ((span accepts text).1, (span accepts text).2 ++ char :: rest) := by
  obtain ⟨spelt, accepted, stopped⟩ := span_eq_iff.mp (rfl : span accepts text = (_, _))
  refine span_eq_iff.mpr ⟨?_, accepted, by rwa [span, stops_append_cons refused]⟩
  rw [span, ← List.append_assoc, ← spelt]

/-- A text starts with one run of accepted characters only. -/
theorem run_unique {accepts : Char → Bool} {lead rest lead' rest' : Text}
    (same : lead ++ rest = lead' ++ rest')
    (accepted : ∀ char ∈ lead, accepts char = true) (stopped : stops accepts rest = true)
    (accepted' : ∀ char ∈ lead', accepts char = true) (stopped' : stops accepts rest' = true) :
    lead = lead' ∧ rest = rest' := by
  have first : span accepts (lead ++ rest) = (lead, rest) :=
    span_eq_iff.mpr ⟨rfl, accepted, stopped⟩
  have second : span accepts (lead ++ rest) = (lead', rest') :=
    span_eq_iff.mpr ⟨same, accepted', stopped'⟩
  exact Prod.mk.inj (first.symm.trans second)

theorem stops_dropWhile (accepts : Char → Bool) (text : Text) :
    stops accepts (text.dropWhile accepts) = true :=
  (span_eq_iff.mp (rfl : span accepts text = _)).2.2

theorem stops_of_prefix {accepts : Char → Bool} {lead text : Text} (leads : lead <+: text)
    (stopped : stops accepts text = true) : stops accepts lead = true := by
  obtain ⟨rest, rfl⟩ := leads
  cases lead with
  | nil => rfl
  | cons char lead => exact stopped

/-! ### Trimming -/

/-- A text that starts and ends with a character that is not blank. -/
structure Trimmed (text : Text) : Prop where
  head : stops isBlank text = true
  last : stops isBlank text.reverse = true

/-- A text without blanks is compact. -/
theorem compact_eq_self {text : Text} (full : ∀ char ∈ text, isBlank char = false) :
    compact text = text :=
  List.filter_eq_self.mpr fun char member => by simp [full char member]

theorem compact_append (first second : Text) :
    compact (first ++ second) = compact first ++ compact second :=
  List.filter_append first second

/-- A text without blanks is trimmed. -/
theorem trimmed_of_forall {text : Text} (full : ∀ char ∈ text, isBlank char = false) :
    Trimmed text where
  head := stops_of_forall_not full
  last := stops_of_forall_not fun char member => full char (List.mem_reverse.mp member)

/-- Only the two ends of a text have to be looked at. -/
theorem Trimmed.append_append {first last : Text} (trimmed : Trimmed first) (nonempty : first ≠ [])
    (middle : Text) (trimmed' : Trimmed last) (nonempty' : last ≠ []) :
    Trimmed (first ++ (middle ++ last)) where
  head := by
    obtain ⟨char, rest, rfl⟩ := List.exists_cons_of_ne_nil nonempty
    exact trimmed.head
  last := by
    have ends := trimmed'.last
    rw [List.reverse_append, List.reverse_append, List.append_assoc]
    obtain ⟨char, rest, spelt⟩ := List.exists_cons_of_ne_nil
      (List.reverse_ne_nil_iff.mpr nonempty')
    rw [spelt] at ends ⊢
    exact ends

theorem trimStart_append {blanks text : Text} (blank : ∀ char ∈ blanks, isBlank char = true)
    (head : stops isBlank text = true) : trimStart (blanks ++ text) = text :=
  congrArg Prod.snd (span_eq_iff.mpr ⟨rfl, blank, head⟩)

theorem trimEnd_append {blanks text : Text} (blank : ∀ char ∈ blanks, isBlank char = true)
    (last : stops isBlank text.reverse = true) : trimEnd (text ++ blanks) = text := by
  have reversed : (blanks.reverse ++ text.reverse).dropWhile isBlank = text.reverse :=
    trimStart_append (fun char member => blank char (List.mem_reverse.mp member)) last
  rw [trimEnd, List.reverse_append, reversed, List.reverse_reverse]

theorem trimStart_append_cons {char : Char} (notBlank : isBlank char = false) {text rest : Text} :
    trimStart (text ++ [char] ++ rest) = trimStart text ++ [char] ++ rest := by
  have stopped : (char :: rest).dropWhile isBlank = char :: rest :=
    List.dropWhile_cons_of_neg (by rw [notBlank]; exact Bool.false_ne_true)
  rw [List.append_assoc, List.append_assoc, List.singleton_append, trimStart, trimStart,
    List.dropWhile_append, stopped]
  split
  · next empty => rw [List.isEmpty_iff.mp empty, List.nil_append]
  · rfl

/-- What follows a character that is not blank is trimmed alone. -/
theorem trimEnd_append_cons {char : Char} (notBlank : isBlank char = false)
    {text rest : Text} : trimEnd (text ++ [char] ++ rest) = text ++ [char] ++ trimEnd rest := by
  have reversed : (rest.reverse ++ [char] ++ text.reverse).dropWhile isBlank =
      rest.reverse.dropWhile isBlank ++ [char] ++ text.reverse :=
    trimStart_append_cons notBlank
  rw [trimEnd, trimEnd, List.reverse_append, List.reverse_append, List.reverse_singleton,
    ← List.append_assoc, reversed]
  simp

/-- Blanks around a trimmed text are what trimming drops. -/
theorem Trimmed.trim_append {blanks text blanks' : Text} (trimmed : Trimmed text)
    (blank : ∀ char ∈ blanks, isBlank char = true)
    (blank' : ∀ char ∈ blanks', isBlank char = true) :
    trim (blanks ++ text ++ blanks') = text := by
  cases text with
  | nil =>
    have all : ∀ char ∈ blanks ++ blanks', isBlank char = true := fun char member =>
      (List.mem_append.mp member).elim (blank char) (blank' char)
    have spent : trimStart (blanks ++ blanks' ++ []) = [] := trimStart_append all rfl
    rw [List.append_nil] at spent
    rw [List.append_nil, trim, spent]
    rfl
  | cons char text =>
    have head : stops isBlank (char :: text ++ blanks') = true := trimmed.head
    rw [trim, List.append_assoc, trimStart_append blank head, trimEnd_append blank' trimmed.last]

theorem Trimmed.trim_eq {text : Text} (trimmed : Trimmed text) : trim text = text := by
  have noBlanks : ∀ char ∈ ([] : Text), isBlank char = true := by simp
  simpa using trimmed.trim_append noBlanks noBlanks

/-- Trimming drops nothing but blanks. -/
theorem compact_trim (text : Text) : compact (trim text) = compact text := by
  have start (text : Text) : compact (trimStart text) = compact text := by
    have spelt : text.takeWhile isBlank ++ trimStart text = text :=
      List.takeWhile_append_dropWhile
    have nothing : compact (text.takeWhile isBlank) = [] := by
      rw [compact, List.filter_eq_nil_iff]
      intro char member
      simp [List.mem_takeWhile_imp member]
    have whole := compact_append (text.takeWhile isBlank) (trimStart text)
    rw [spelt, nothing, List.nil_append] at whole
    exact whole.symm
  have reversed (text : Text) : compact text.reverse = (compact text).reverse :=
    List.filter_reverse
  rw [trim, trimEnd, reversed, ← trimStart.eq_1, start, reversed, List.reverse_reverse, start]

theorem trimEnd_leads (text : Text) : trimEnd text <+: text := by
  rw [trimEnd, ← List.reverse_suffix, List.reverse_reverse]
  exact List.dropWhile_suffix isBlank

theorem trimmed_trim (text : Text) : Trimmed (trim text) where
  head := stops_of_prefix (trimEnd_leads _) (stops_dropWhile isBlank text)
  last := by
    rw [trim, trimEnd, List.reverse_reverse]
    exact stops_dropWhile isBlank _

theorem trim_infix (text : Text) : trim text <:+: text := by
  exact (trimEnd_leads _).isInfix.trans (List.dropWhile_suffix isBlank).isInfix

theorem exists_eq_trimEnd_append (text : Text) :
    ∃ trail, (∀ char ∈ trail, isBlank char = true) ∧ text = trimEnd text ++ trail := by
  refine ⟨(text.reverse.takeWhile isBlank).reverse, fun char member => ?_, ?_⟩
  · exact List.mem_takeWhile_imp (List.mem_reverse.mp member)
  · rw [trimEnd, ← List.reverse_append, List.takeWhile_append_dropWhile, List.reverse_reverse]

/-- What trimming drops are blanks on both sides. -/
theorem exists_eq_append_trim (text : Text) :
    ∃ lead trail, (∀ char ∈ lead, isBlank char = true) ∧ (∀ char ∈ trail, isBlank char = true) ∧
      text = lead ++ (text.trim ++ trail) := by
  obtain ⟨trail, blank, spelt⟩ := exists_eq_trimEnd_append (trimStart text)
  refine ⟨text.takeWhile isBlank, trail, fun char => List.mem_takeWhile_imp, blank, ?_⟩
  rw [trim, ← spelt]
  exact List.takeWhile_append_dropWhile.symm

/-! ### Words -/

/-- What stands between separators has none in it. -/
theorem refused_of_mem_splitOnP {separates : Char → Bool} {text piece : Text}
    (isPiece : piece ∈ text.splitOnP separates) : ∀ char ∈ piece, separates char = false := by
  induction text generalizing piece with
  | nil =>
    obtain rfl : piece = [] := by simpa using isPiece
    simp
  | cons char text inductionHypothesis =>
    rw [List.splitOnP_cons_eq_if_modifyHead] at isPiece
    split at isPiece
    · rcases List.mem_cons.mp isPiece with rfl | behind
      · simp
      · exact inductionHypothesis behind
    · next refused =>
      obtain ⟨first, more, split⟩ := List.exists_cons_of_ne_nil (List.splitOnP_ne_nil separates text)
      rw [split] at isPiece inductionHypothesis
      rcases List.mem_cons.mp isPiece with rfl | behind
      · refine List.forall_mem_cons.mpr ⟨by simpa using refused, ?_⟩
        exact inductionHypothesis List.mem_cons_self
      · exact inductionHypothesis (List.mem_cons_of_mem first behind)

theorem not_mem_of_mem_splitOn {separator : Char} {text piece : Text}
    (isPiece : piece ∈ text.splitOn separator) : separator ∉ piece := by
  rw [List.splitOn_eq_splitOnP] at isPiece
  intro member
  simpa using refused_of_mem_splitOnP isPiece separator member

theorem words_cons_of_blank {char : Char} {text : Text} (blank : isBlank char = true) :
    words (char :: text) = words text := by
  have noWord : ∀ other ∈ ([] : Text), isBlank other = false := by simp
  have split := List.splitOnP_append_cons_of_forall_mem noWord char blank text
  rw [List.nil_append] at split
  rw [words, split, List.filter_cons_of_neg (by simp)]
  rfl

theorem words_append_of_blank {blanks text : Text} (blank : ∀ char ∈ blanks, isBlank char = true) :
    words (blanks ++ text) = words text := by
  induction blanks with
  | nil => rfl
  | cons char blanks inductionHypothesis =>
    rw [List.cons_append, words_cons_of_blank (blank char List.mem_cons_self)]
    exact inductionHypothesis fun other member => blank other (List.mem_cons_of_mem char member)

theorem words_of_word {word : Text} (nonempty : word ≠ [])
    (full : ∀ char ∈ word, isBlank char = false) : words word = [word] := by
  rw [words, List.splitOnP_eq_singleton full]
  simp [nonempty]

/-- A word with blanks behind it is the first of the words. -/
theorem words_append_append {word blanks text : Text} (nonempty : word ≠ [])
    (full : ∀ char ∈ word, isBlank char = false) (separated : blanks ≠ [])
    (blank : ∀ char ∈ blanks, isBlank char = true) :
    words (word ++ (blanks ++ text)) = word :: words text := by
  obtain ⟨first, more, rfl⟩ := List.exists_cons_of_ne_nil separated
  have split := List.splitOnP_append_cons_of_forall_mem full first
    (blank first List.mem_cons_self) (more ++ text)
  rw [words, List.cons_append, split, List.filter_cons_of_pos (by simp [nonempty])]
  refine congrArg (word :: ·) (words_append_of_blank fun char member => ?_)
  exact blank char (List.mem_cons_of_mem first member)

@[simp] theorem join_singleton (separator part : Text) : join separator [part] = part := by
  simp [join]

/-- Joined texts, the first one set apart. -/
theorem join_cons_cons (separator : Char) (first second : Text) (more : List Text) :
    join [separator] (first :: second :: more) =
      first ++ separator :: join [separator] (second :: more) := by
  simp [join]

theorem join_eq_nil_iff {separator : Char} {parts : List Text}
    (full : ∀ part ∈ parts, part ≠ []) : join [separator] parts = [] ↔ parts = [] := by
  constructor
  · intro empty
    match parts with
    | [] => rfl
    | [part] => exact absurd empty (by simpa using full part)
    | part :: next :: parts => simp [join_cons_cons] at empty
  · rintro rfl
    rfl

/-- Words with a space between two of them are the words of the text. -/
theorem words_join {parts : List Text}
    (areWords : ∀ part ∈ parts, part ≠ [] ∧ ∀ char ∈ part, isBlank char = false) :
    words (join [' '] parts) = parts := by
  induction parts with
  | nil => rfl
  | cons first parts inductionHypothesis =>
    obtain ⟨nonempty, full⟩ := areWords first List.mem_cons_self
    have behind := inductionHypothesis fun part member =>
      areWords part (List.mem_cons_of_mem first member)
    cases parts with
    | nil => rw [join_singleton, words_of_word nonempty full]
    | cons second parts =>
      have blank : ∀ char ∈ [' '], isBlank char = true := by decide
      rw [join_cons_cons, ← List.singleton_append,
        words_append_append nonempty full (List.cons_ne_nil ' ' []) blank, behind]

/-- Joined texts, the last one set apart. -/
theorem join_concat (separator : Text) (parts : List Text) (last : Text) :
    join separator (parts ++ [last]) = parts.flatMap (· ++ separator) ++ last := by
  induction parts with
  | nil => simp [join]
  | cons part parts inductionHypothesis =>
    rw [List.cons_append, List.flatMap_cons, List.append_assoc, ← inductionHypothesis]
    cases rest : parts ++ [last] with
    | nil => simp at rest
    | cons next more => simp [join]

/-- Joined texts have the characters of each and those of the separator. -/
theorem mem_join {separator : Text} {parts : List Text} {char : Char}
    (member : char ∈ join separator parts) : char ∈ separator ∨ ∃ part ∈ parts, char ∈ part := by
  rcases List.eq_nil_or_concat parts with rfl | ⟨init, last, rfl⟩
  · cases member
  · rw [List.concat_eq_append, join_concat] at member
    rcases List.mem_append.mp member with inInit | inLast
    · obtain ⟨part, listed, inPart⟩ := List.mem_flatMap.mp inInit
      rcases List.mem_append.mp inPart with inPart | inSeparator
      · exact Or.inr ⟨part, by simp [listed], inPart⟩
      · exact Or.inl inSeparator
    · exact Or.inr ⟨last, by simp, inLast⟩

/-! ### Parts -/

/-- Without parentheses every blank separates. -/
theorem stretches_zero_eq_splitOnP {text : Text}
    (flat : ∀ char ∈ text, char ≠ '(' ∧ char ≠ ')') :
    Parts.stretches 0 text = text.splitOnP isBlank := by
  induction text with
  | nil => rfl
  | cons char text inductionHypothesis =>
    obtain ⟨notOpening, notClosing⟩ := flat char List.mem_cons_self
    have rest := inductionHypothesis fun other member =>
      flat other (List.mem_cons_of_mem char member)
    rw [Parts.stretches, depthAfter_of_ne 0 notOpening notClosing, rest,
      List.splitOnP_cons_eq_if_modifyHead]
    cases blank : isBlank char with
    | true => simp [Parts.separates, blank]
    | false =>
      simp only [Parts.separates, blank, Bool.false_and, Bool.false_eq_true, if_false]
      obtain ⟨first, more, split⟩ := List.exists_cons_of_ne_nil
        (List.splitOnP_ne_nil isBlank text)
      rw [split]
      rfl

theorem parts_eq_words {text : Text} (flat : ∀ char ∈ text, char ≠ '(' ∧ char ≠ ')') :
    text.parts = text.words := by
  rw [parts, stretches_zero_eq_splitOnP flat, words]

end Text

end AtomicCss
