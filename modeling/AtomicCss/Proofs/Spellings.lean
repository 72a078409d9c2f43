/-
This file looks at the spellings of a fallback that are searched for in a class. Each of them is
the fallback without its blanks, or in other letters, or both. Characters that have no case and are
not blank stand in every spelling in the same order, and by such characters a spelling is told from
the stem of the class. Other letters are never fewer, so no spelling is shorter than the fallback
without its blanks, and none of them is blank, so that every spelling starts and ends where its
letters do.
-/

import AtomicCss.Proofs.Runs
import AtomicCss.TokenInjection

namespace AtomicCss

/-! ### Characters without a case -/

/-- Characters of a fallback that have no other case and are no other case. -/
def caseless : List Char :=
  ['#', '(', '[', ']', '-', '_']

/-- No run of the table reaches the character. -/
def CaseRun.misses (run : CaseRun) (char : Char) : Bool :=
  decide (char.toNat < run.target ∨ run.target + (run.last - run.first) < char.toNat)

/-- What a run maps to lies where the run reaches, unless it is no character at all. -/
theorem CaseRun.toNat_of_map? {run : CaseRun} {char other : Char}
    (mapped : run.map? char = some other) :
    other.toNat = 0 ∨
      (run.target ≤ other.toNat ∧ other.toNat ≤ run.target + (run.last - run.first)) := by
  simp only [map?] at mapped
  split at mapped
  · next inside =>
    have same := Option.some.inj mapped
    by_cases valid : Nat.isValidChar (run.target + (char.toNat - run.first))
    · have written : Char.ofNat (run.target + (char.toNat - run.first)) =
          Char.ofNatAux _ valid := dif_pos valid
      have reached : run.target + (char.toNat - run.first) = other.toNat :=
        congrArg Char.toNat (written.symm.trans same)
      omega
    · have written : Char.ofNat (run.target + (char.toNat - run.first)) = '\x00' := dif_neg valid
      exact Or.inl (congrArg Char.toNat (written.symm.trans same)).symm
  · cases mapped

/-- The other case of a character is written from a table, or it is the character itself. -/
theorem eq_or_of_mem_otherCase {runs : List CaseRun} {long : List (Nat × List Nat)}
    {char other : Char} (member : other ∈ otherCase runs long char) :
    other = char ∨ (∃ run ∈ runs, run.map? char = some other) ∨
      ∃ row ∈ long, other ∈ row.2.map Char.ofNat := by
  unfold otherCase at member
  split at member
  · next codes found =>
    obtain ⟨before, behind, rows, _⟩ := List.lookup_eq_some_iff.mp found
    exact Or.inr (Or.inr ⟨(char.toNat, codes), by rw [rows]; simp, member⟩)
  · cases found : runs.findSome? (·.map? char) with
    | none =>
      rw [found] at member
      exact Or.inl (List.mem_singleton.mp member)
    | some mapped =>
      rw [found] at member
      obtain rfl : other = mapped := List.mem_singleton.mp member
      exact Or.inr (Or.inl (List.exists_of_findSome?_eq_some found))

/-- A character that a table neither maps nor reaches is the other case of nothing but itself. -/
theorem mem_otherCase_iff {runs : List CaseRun} {long : List (Nat × List Nat)} {mark char : Char}
    (itself : otherCase runs long mark = [mark])
    (misses : ∀ run ∈ runs, run.misses mark = true)
    (missesLong : ∀ row ∈ long, mark ∉ row.2.map Char.ofNat) (positive : mark.toNat ≠ 0) :
    mark ∈ otherCase runs long char ↔ mark = char := by
  constructor
  · intro member
    rcases eq_or_of_mem_otherCase member with same | ⟨run, listed, mapped⟩ | ⟨row, listed, written⟩
    · exact same
    · have missed : mark.toNat < run.target ∨ run.target + (run.last - run.first) < mark.toNat :=
        of_decide_eq_true (misses run listed)
      have reached := CaseRun.toNat_of_map? mapped
      omega
    · exact absurd written (missesLong row listed)
  · rintro rfl
    rw [itself]
    exact List.mem_singleton_self mark

/-- The characters of a text that have no case. -/
def Text.marks (text : Text) : Text :=
  text.filter caseless.contains

theorem marks_otherCase {runs : List CaseRun} {long : List (Nat × List Nat)}
    (fixed : ∀ mark ∈ caseless, otherCase runs long mark = [mark] ∧
      (∀ run ∈ runs, run.misses mark = true) ∧
        (∀ row ∈ long, mark ∉ row.2.map Char.ofNat) ∧ mark.toNat ≠ 0) (char : Char) :
    Text.marks (otherCase runs long char) = Text.marks [char] := by
  by_cases isCaseless : char ∈ caseless
  · rw [(fixed char isCaseless).1]
  · have nothing : Text.marks [char] = [] := by simp [Text.marks, isCaseless]
    rw [nothing, Text.marks, List.filter_eq_nil_iff]
    intro mark member isMark
    have listed : mark ∈ caseless := List.contains_iff_mem.mp isMark
    obtain ⟨itself, misses, missesLong, positive⟩ := fixed mark listed
    rw [mem_otherCase_iff itself misses missesLong positive] at member
    exact isCaseless (member ▸ listed)

theorem marks_lowerChar (char : Char) : Text.marks (lowerChar char) = Text.marks [char] :=
  marks_otherCase (by decide +kernel) char

theorem marks_upperChar (char : Char) : Text.marks (upperChar char) = Text.marks [char] :=
  marks_otherCase (by decide +kernel) char

/-! ### Other letters -/

theorem otherCase_ne_nil {runs : List CaseRun} {long : List (Nat × List Nat)}
    (full : ∀ row ∈ long, row.2 ≠ []) (char : Char) : otherCase runs long char ≠ [] := by
  unfold otherCase
  split
  · next codes found =>
    obtain ⟨before, behind, rows, _⟩ := List.lookup_eq_some_iff.mp found
    have nonempty := full (char.toNat, codes) (by rw [rows]; simp)
    exact fun empty => nonempty (List.map_eq_nil_iff.mp empty)
  · exact List.cons_ne_nil _ _

theorem lowerChar_ne_nil (char : Char) : lowerChar char ≠ [] :=
  otherCase_ne_nil (by decide) char

theorem upperChar_ne_nil (char : Char) : upperChar char ≠ [] :=
  otherCase_ne_nil (by decide) char

/-- The small form of an ASCII letter is the one that the letter has within ASCII. -/
theorem lowerChar_of_isAlpha {char : Char} (isAlpha : char.isAlpha = true) :
    lowerChar char = [char.toLower] := by
  have each : ∀ code : Fin 128, (Char.ofNat code).isAlpha = true →
      lowerChar (Char.ofNat code) = [(Char.ofNat code).toLower] := by
    decide +kernel
  have small : char.toNat < 128 := by
    have bounds := isAlpha_iff_toNat.mp isAlpha
    omega
  have same : Char.ofNat char.toNat = char := Char.ofNat_toNat char
  have lowered := each ⟨char.toNat, small⟩
  simp only [same] at lowered
  exact lowered isAlpha

/-! ### Letters and blanks -/

/-- The run reaches into none of the ranges. -/
def CaseRun.missesAll (ranges : List CharRange) (run : CaseRun) : Bool :=
  ranges.all fun range =>
    decide (run.target + (run.last - run.first) < range.first ∨ range.last < run.target)

/-- The other case of a character outside of ranges that no table reaches into lies outside, too. -/
theorem any_holds_of_mem_otherCase {ranges : List CharRange} {runs : List CaseRun}
    {long : List (Nat × List Nat)} (misses : ∀ run ∈ runs, run.missesAll ranges = true)
    (missesLong : ∀ row ∈ long, ∀ other ∈ row.2.map Char.ofNat,
      ranges.any (·.holds other) = false)
    (positive : ∀ range ∈ ranges, 0 < range.first) {char : Char}
    (outside : ranges.any (·.holds char) = false) :
    ∀ other ∈ otherCase runs long char, ranges.any (·.holds other) = false := by
  intro other member
  rcases eq_or_of_mem_otherCase member with rfl | ⟨run, listed, mapped⟩ | ⟨row, listed, written⟩
  · exact outside
  · have reached := CaseRun.toNat_of_map? mapped
    rw [List.any_eq_false]
    intro range isRange
    have missed : run.target + (run.last - run.first) < range.first ∨ range.last < run.target :=
      of_decide_eq_true (List.all_eq_true.mp (misses run listed) range isRange)
    have above := positive range isRange
    simp only [CharRange.holds, Bool.and_eq_true, decide_eq_true_eq, not_and]
    omega
  · exact missesLong row listed other written

/-- The other case of a character that is not blank is not blank. -/
theorem isBlank_of_mem_otherCase {runs : List CaseRun} {long : List (Nat × List Nat)}
    (misses : ∀ run ∈ runs, run.missesAll blankRanges = true)
    (missesLong : ∀ row ∈ long, ∀ other ∈ row.2.map Char.ofNat, isBlank other = false)
    {char : Char} (full : isBlank char = false) :
    ∀ other ∈ otherCase runs long char, isBlank other = false :=
  any_holds_of_mem_otherCase misses missesLong (by decide) full

theorem isBlank_of_mem_lowerChar {char : Char} (full : isBlank char = false) :
    ∀ other ∈ lowerChar char, isBlank other = false :=
  isBlank_of_mem_otherCase (by decide +kernel) (by decide +kernel) full

theorem isBlank_of_mem_upperChar {char : Char} (full : isBlank char = false) :
    ∀ other ∈ upperChar char, isBlank other = false :=
  isBlank_of_mem_otherCase (by decide +kernel) (by decide +kernel) full

/-- What a character may become in other letters: itself, its small or its capital form. A capital
sigma has a second small form. -/
def caseForms (char : Char) : List Text :=
  [[char], lowerChar char, upperChar char] ++ if char = 'Σ' then [['σ'], ['ς']] else []

theorem mem_caseForms {char : Char} {form : Text} :
    form ∈ caseForms char ↔ form = [char] ∨ form = lowerChar char ∨ form = upperChar char ∨
      (char = 'Σ' ∧ (form = ['σ'] ∨ form = ['ς'])) := by
  rw [caseForms]
  split
  · next sigma => simp [sigma]
  · next other => simp [other]

theorem ne_nil_of_mem_caseForms {char : Char} {form : Text} (listed : form ∈ caseForms char) :
    form ≠ [] := by
  rcases mem_caseForms.mp listed with rfl | rfl | rfl | ⟨_, rfl | rfl⟩
  · exact List.cons_ne_nil _ _
  · exact lowerChar_ne_nil char
  · exact upperChar_ne_nil char
  · exact List.cons_ne_nil _ _
  · exact List.cons_ne_nil _ _

/-- Nothing blank becomes of a character that is not blank. -/
theorem isBlank_of_mem_caseForms {char : Char} (full : isBlank char = false) {form : Text}
    (listed : form ∈ caseForms char) : ∀ other ∈ form, isBlank other = false := by
  rcases mem_caseForms.mp listed with rfl | rfl | rfl | ⟨_, rfl | rfl⟩
  · exact fun other member => (List.mem_singleton.mp member) ▸ full
  · exact isBlank_of_mem_lowerChar full
  · exact isBlank_of_mem_upperChar full
  · decide
  · decide

/-- The second text has one of its forms in the place of each character of the first one. -/
inductive Recased : Text → Text → Prop where
  | nil : Recased [] []
  | cons {char : Char} {piece text out : Text} (form : piece ∈ caseForms char)
      (rest : Recased text out) : Recased (char :: text) (piece ++ out)

namespace Recased

variable {text out : Text} (recased : Recased text out)

include recased in
theorem length_le : text.length ≤ out.length := by
  induction recased with
  | nil => exact Nat.le_refl 0
  | cons form rest inductionHypothesis =>
    have positive := List.length_pos_iff.mpr (ne_nil_of_mem_caseForms form)
    rw [List.length_append, List.length_cons]
    omega

include recased in
theorem ne_nil (nonempty : text ≠ []) : out ≠ [] := by
  cases recased with
  | nil => exact absurd rfl nonempty
  | cons form rest => exact List.append_ne_nil_of_left_ne_nil (ne_nil_of_mem_caseForms form) _

include recased in
theorem trimmed (trimmed : text.Trimmed) : out.Trimmed where
  head := by
    cases recased with
    | nil => rfl
    | cons form rest =>
      have starts := trimmed.head
      simp only [Text.stops, Bool.not_eq_true'] at starts
      have full := isBlank_of_mem_caseForms starts form
      obtain ⟨first, more, rfl⟩ := List.exists_cons_of_ne_nil (ne_nil_of_mem_caseForms form)
      simp [Text.stops, full first List.mem_cons_self]
  last := by
    have ends := trimmed.last
    clear trimmed
    induction recased with
    | nil => rfl
    | @cons char piece text out form rest inductionHypothesis =>
      rw [List.reverse_cons] at ends
      rw [List.reverse_append]
      by_cases single : text = []
      · subst single
        cases rest
        have pieceFull := isBlank_of_mem_caseForms (by simpa [Text.stops] using ends) form
        exact Text.stops_of_forall_not fun other member => pieceFull other (by simpa using member)
      · have stopped := inductionHypothesis
          (Text.stops_of_prefix (List.prefix_append text.reverse [char]) ends)
        obtain ⟨last, more, spelt⟩ := List.exists_cons_of_ne_nil
          (List.reverse_ne_nil_iff.mpr (rest.ne_nil single))
        rw [spelt] at stopped ⊢
        exact stopped

end Recased

namespace Text

theorem recased_self (text : Text) : Recased text text := by
  induction text with
  | nil => exact .nil
  | cons char text inductionHypothesis =>
    exact @Recased.cons char [char] text text (mem_caseForms.mpr (Or.inl rfl)) inductionHypothesis

theorem recased_upper (text : Text) : Recased text text.upper := by
  induction text with
  | nil => exact .nil
  | cons char text inductionHypothesis =>
    exact .cons (mem_caseForms.mpr (Or.inr (Or.inr (Or.inl rfl)))) inductionHypothesis

theorem recased_lowerFrom (casedBefore : Bool) (text : Text) :
    Recased text (lowerFrom casedBefore text) := by
  induction text generalizing casedBefore with
  | nil => exact .nil
  | cons char text inductionHypothesis =>
    refine .cons (mem_caseForms.mpr ?_) (inductionHypothesis _)
    split
    · next sigma =>
      refine Or.inr (Or.inr (Or.inr ⟨sigma, ?_⟩))
      split
      · exact Or.inr rfl
      · exact Or.inl rfl
    · exact Or.inr (Or.inl rfl)

theorem recased_lower (text : Text) : Recased text text.lower :=
  recased_lowerFrom false text

theorem lower_eq_lowerAscii {text : Text} (isAlpha : ∀ char ∈ text, char.isAlpha = true) :
    text.lower = text.lowerAscii := by
  have each (casedBefore : Bool) : lowerFrom casedBefore text = text.map Char.toLower := by
    induction text generalizing casedBefore with
    | nil => rfl
    | cons char text inductionHypothesis =>
      have letter := isAlpha char List.mem_cons_self
      have notSigma : char ≠ 'Σ' := by
        rintro rfl
        cases letter
      rw [lowerFrom, if_neg notSigma, lowerChar_of_isAlpha letter,
        inductionHypothesis fun other member => isAlpha other (List.mem_cons_of_mem char member)]
      rfl
  exact each false

theorem marks_append (first second : Text) :
    marks (first ++ second) = marks first ++ marks second :=
  List.filter_append first second

theorem marks_cons (char : Char) (text : Text) : marks (char :: text) = marks [char] ++ marks text :=
  marks_append [char] text

theorem marks_upper (text : Text) : marks text.upper = marks text := by
  induction text with
  | nil => rfl
  | cons char text inductionHypothesis =>
    rw [upper, List.flatMap_cons, marks_append, marks_upperChar, marks_cons char text]
    exact congrArg _ inductionHypothesis

theorem marks_lowerFrom (casedBefore : Bool) (text : Text) :
    marks (lowerFrom casedBefore text) = marks text := by
  induction text generalizing casedBefore with
  | nil => rfl
  | cons char text inductionHypothesis =>
    rw [lowerFrom, marks_append, inductionHypothesis, marks_cons char text]
    refine congrArg (· ++ _) ?_
    by_cases sigma : char = 'Σ'
    · rw [if_pos sigma, sigma]
      split <;> decide
    · rw [if_neg sigma, marks_lowerChar]

theorem marks_lower (text : Text) : marks text.lower = marks text :=
  marks_lowerFrom false text

/-- Blanks are no marks. -/
theorem marks_eq_nil_of_blank {blanks : Text} (blank : ∀ char ∈ blanks, isBlank char = true) :
    marks blanks = [] := by
  have each : ∀ mark ∈ caseless, isBlank mark = false := by decide
  rw [marks, List.filter_eq_nil_iff]
  intro char member isMark
  have full := each char (List.contains_iff_mem.mp isMark)
  rw [blank char member] at full
  cases full

theorem marks_compact (text : Text) : marks text.compact = marks text := by
  have each : ∀ mark ∈ caseless, isBlank mark = false := by decide
  rw [marks, compact, List.filter_filter]
  refine List.filter_congr fun char _ => ?_
  by_cases isCaseless : char ∈ caseless
  · simp [isCaseless, each char isCaseless]
  · simp [isCaseless]

theorem marks_trim (text : Text) : marks text.trim = marks text := by
  rw [← marks_compact, compact_trim, marks_compact]

theorem mem_marks_iff {mark : Char} (isCaseless : mark ∈ caseless) {text : Text} :
    mark ∈ marks text ↔ mark ∈ text := by
  simp [marks, isCaseless]

theorem marks_append_cons {mark : Char} (isCaseless : mark ∈ caseless) (lead rest : Text) :
    marks (lead ++ mark :: rest) = marks lead ++ mark :: marks rest := by
  have itself : marks [mark] = [mark] := by simp [marks, isCaseless]
  rw [marks_append, marks_cons, itself]
  rfl

theorem mem_compact_iff {mark : Char} (isCaseless : mark ∈ caseless) {text : Text} :
    mark ∈ text.compact ↔ mark ∈ text := by
  rw [← mem_marks_iff isCaseless, marks_compact, mem_marks_iff isCaseless]

end Text

/-! ### Spellings -/

namespace TokenInjection

theorem mem_distinct {texts : List Text} {text : Text} :
    text ∈ distinct texts ↔ text ∈ texts := by
  have each (seen : List Text) :
      text ∈ texts.foldl (fun seen text => if seen.contains text then seen else seen ++ [text])
          seen ↔ text ∈ seen ∨ text ∈ texts := by
    induction texts generalizing seen with
    | nil => simp
    | cons first texts inductionHypothesis =>
      rw [List.foldl_cons, inductionHypothesis, List.mem_cons]
      by_cases present : seen.contains first = true
      · rw [if_pos present]
        constructor
        · rintro (known | later)
          · exact Or.inl known
          · exact Or.inr (Or.inr later)
        · rintro (known | rfl | later)
          · exact Or.inl known
          · exact Or.inl (List.contains_iff_mem.mp present)
          · exact Or.inr later
      · rw [if_neg present, List.mem_append, List.mem_singleton, or_assoc]
  exact (each []).trans (by simp)

theorem mem_variants {fallback text : Text} :
    text ∈ variants fallback ↔ text ∈ spellings fallback ∧ text ≠ [] := by
  rw [variants, (longestFirst_perm _).mem_iff, mem_distinct, List.mem_filter]
  simp

/-- A text that a fallback may be spelt by: the fallback without the blanks around it, or without any
blanks, as it is, in small or in capital letters. -/
structure IsSpelling (fallback text : Text) : Prop where
  nonempty : text ≠ []
  exists_form : ∃ form ∈ [fallback.trim, fallback.trim.compact],
    text ∈ [form, form.lower, form.upper]

theorem mem_variants_iff_isSpelling {fallback text : Text} :
    text ∈ variants fallback ↔ IsSpelling fallback text := by
  have forms : text ∈ spellings fallback ↔
      ∃ form ∈ [fallback.trim, fallback.trim.compact], text ∈ [form, form.lower, form.upper] := by
    simp only [spellings, List.mem_cons, List.not_mem_nil, or_false, exists_eq_or_imp,
      exists_eq_left]
    grind
  rw [mem_variants, forms]
  exact ⟨fun ⟨listed, nonempty⟩ => ⟨nonempty, listed⟩,
    fun spelling => ⟨spelling.exists_form, spelling.nonempty⟩⟩

theorem ne_nil_of_mem_variants {fallback variant : Text} (listed : variant ∈ variants fallback) :
    variant ≠ [] :=
  (mem_variants.mp listed).2

/-- A spelling has the letters of the fallback, with or without its blanks, in some case. -/
theorem exists_recased_of_mem_variants {fallback variant : Text}
    (member : variant ∈ variants fallback) :
    ∃ base : Text, base.Trimmed ∧ base.compact = fallback.compact ∧ Recased base variant := by
  obtain ⟨_, form, isForm, isVariant⟩ := mem_variants_iff_isSpelling.mp member
  have whole : fallback.trim.Trimmed ∧ fallback.trim.compact = fallback.compact :=
    ⟨Text.trimmed_trim fallback, Text.compact_trim fallback⟩
  have noBlanks : ∀ char ∈ fallback.trim.compact, isBlank char = false := fun char inCompact => by
    simpa using (List.mem_filter.mp inCompact).2
  have compacted : fallback.trim.compact.Trimmed ∧
      fallback.trim.compact.compact = fallback.compact :=
    ⟨Text.trimmed_of_forall noBlanks, (Text.compact_eq_self noBlanks).trans whole.2⟩
  obtain ⟨trimmed, compact_eq⟩ : form.Trimmed ∧ form.compact = fallback.compact := by
    simp only [List.mem_cons, List.not_mem_nil, or_false] at isForm
    rcases isForm with rfl | rfl
    · exact whole
    · exact compacted
  refine ⟨form, trimmed, compact_eq, ?_⟩
  simp only [List.mem_cons, List.not_mem_nil, or_false] at isVariant
  rcases isVariant with rfl | rfl | rfl
  · exact Text.recased_self variant
  · exact Text.recased_lower form
  · exact Text.recased_upper form

/-- Every spelling starts and ends with a character that is not blank. -/
theorem trimmed_of_mem_variants {fallback variant : Text} (member : variant ∈ variants fallback) :
    variant.Trimmed := by
  obtain ⟨base, trimmed, _, recased⟩ := exists_recased_of_mem_variants member
  exact recased.trimmed trimmed

/-- The spellings have the marks of the fallback. -/
theorem marks_of_mem_variants {fallback variant : Text} (member : variant ∈ variants fallback) :
    variant.marks = fallback.marks := by
  have listed := (mem_variants.mp member).1
  simp only [spellings, List.mem_cons, List.not_mem_nil, or_false] at listed
  rcases listed with rfl | rfl | rfl | rfl | rfl | rfl <;>
    simp only [Text.marks_upper, Text.marks_lower, Text.marks_compact, Text.marks_trim]

/-- A character without a case stands in a spelling if it stands in the fallback. -/
theorem mem_iff_of_mem_variants {fallback variant : Text} (member : variant ∈ variants fallback)
    {mark : Char} (isCaseless : mark ∈ caseless) : mark ∈ variant ↔ mark ∈ fallback := by
  rw [← Text.mem_marks_iff isCaseless, marks_of_mem_variants member, Text.mem_marks_iff isCaseless]

/-- The fallback without its blanks is one of the spellings. -/
theorem compact_mem_variants {fallback : Text} (trimmed : fallback.trim = fallback)
    (nonempty : fallback.compact ≠ []) : fallback.compact ∈ variants fallback := by
  refine mem_variants.mpr ⟨?_, nonempty⟩
  simp [spellings, trimmed]

/-- No spelling is shorter than the fallback without its blanks. -/
theorem length_compact_le_of_mem_variants {fallback variant : Text}
    (member : variant ∈ variants fallback) : fallback.compact.length ≤ variant.length := by
  obtain ⟨base, _, compact_eq, recased⟩ := exists_recased_of_mem_variants member
  rw [← compact_eq]
  exact Nat.le_trans (List.length_filter_le _ _) recased.length_le

/-- The fallback in small letters is one of the spellings. -/
theorem lower_mem_variants {fallback : Text} (trimmed : fallback.trim = fallback)
    (nonempty : fallback.lower ≠ []) : fallback.lower ∈ variants fallback := by
  refine mem_variants.mpr ⟨?_, nonempty⟩
  simp [spellings, trimmed]

end TokenInjection

end AtomicCss
