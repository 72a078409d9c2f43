/-
This file shows that no spelling of a fallback starts another one. The forms of one character do
not start each other: a capital form of several characters starts with a capital letter, which
neither the character nor its small form is. And a blank that one spelling has and another has not
is followed by something that is not blank. So at one place of a text at most one spelling stands,
and it does not matter in which order the spellings are tried.
-/

import AtomicCss.Proofs.Spellings

namespace AtomicCss

/-! ### Forms of one character -/

theorem exists_otherCase_eq_singleton {runs : List CaseRun} {long : List (Nat × List Nat)}
    {char : Char} (absent : char.toNat ∉ long.map Prod.fst) :
    ∃ other, otherCase runs long char = [other] := by
  have notListed : long.lookup char.toNat = none := by
    rw [List.lookup_eq_none_iff]
    intro row member
    rw [bne_iff_ne]
    rintro same
    exact absent (same ▸ List.mem_map_of_mem member)
  rw [otherCase, notListed]
  exact ⟨_, rfl⟩

/-- The characters that the capital forms of several characters start with. -/
def capitalRanges : List CharRange :=
  [ ⟨0x41, 0x5A⟩, ⟨0x2BC, 0x2BC⟩, ⟨0x386, 0x38F⟩, ⟨0x391, 0x3A9⟩, ⟨0x531, 0x556⟩,
    ⟨0x1F08, 0x1F0F⟩, ⟨0x1F28, 0x1F2F⟩, ⟨0x1F68, 0x1F6F⟩, ⟨0x1FBA, 0x1FBA⟩, ⟨0x1FCA, 0x1FCA⟩,
    ⟨0x1FFA, 0x1FFA⟩ ]

def startsCapital (text : Text) : Bool :=
  match text with
  | [] => false
  | char :: _ => capitalRanges.any (·.holds char)

theorem startsCapital_of_prefix {first second : Text} (nonempty : first ≠ [])
    (leads : first <+: second) : startsCapital first = startsCapital second := by
  obtain ⟨char, more, rfl⟩ := List.exists_cons_of_ne_nil nonempty
  obtain ⟨rest, rfl⟩ := leads
  rfl

section LongCapital

variable {char : Char} (long : char.toNat ∈ CaseTable.longUpper.map Prod.fst)

include long in
/-- A capital form of several characters does not start with the character or its small form. -/
theorem startsCapital_iff {form : Text} (listed : form ∈ caseForms char) :
    startsCapital form = true ↔ form = upperChar char := by
  have outside : capitalRanges.any (·.holds char) = false := by
    have each : ∀ code ∈ CaseTable.longUpper.map Prod.fst,
        capitalRanges.any (·.holds (Char.ofNat code)) = false := by decide
    have here := each char.toNat long
    rwa [Char.ofNat_toNat] at here
  have capital : startsCapital (upperChar char) = true := by
    have each : ∀ code ∈ CaseTable.longUpper.map Prod.fst,
        startsCapital (upperChar (Char.ofNat code)) = true := by decide +kernel
    have here := each char.toNat long
    rwa [Char.ofNat_toNat] at here
  have small : startsCapital (lowerChar char) = false := by
    have nothing := @any_holds_of_mem_otherCase capitalRanges CaseTable.lowerRuns
      CaseTable.longLower (by decide +kernel) (by decide) (by decide) char outside
    obtain ⟨first, more, spelt⟩ := List.exists_cons_of_ne_nil (lowerChar_ne_nil char)
    rw [spelt]
    exact nothing first (by rw [← lowerChar, spelt]; exact List.mem_cons_self)
  refine ⟨fun starts => ?_, fun same => same ▸ capital⟩
  rcases mem_caseForms.mp listed with rfl | rfl | rfl | ⟨rfl, _⟩
  · rw [startsCapital, outside] at starts
    cases starts
  · rw [small] at starts
    cases starts
  · rfl
  · exact absurd long (by decide)

include long in
theorem exists_eq_singleton_of_ne_upperChar {form : Text} (listed : form ∈ caseForms char)
    (other : form ≠ upperChar char) : ∃ other, form = [other] := by
  rcases mem_caseForms.mp listed with rfl | rfl | rfl | ⟨_, rfl | rfl⟩
  · exact ⟨_, rfl⟩
  · refine exists_otherCase_eq_singleton fun listed' => ?_
    have apart : ∀ code ∈ CaseTable.longUpper.map Prod.fst,
        code ∉ CaseTable.longLower.map Prod.fst := by decide
    exact apart _ long listed'
  · exact absurd rfl other
  · exact ⟨_, rfl⟩
  · exact ⟨_, rfl⟩

end LongCapital

/-- No form of a character starts another one. -/
theorem eq_of_prefix_of_mem_caseForms {char : Char} {first second : Text}
    (listed : first ∈ caseForms char) (listed' : second ∈ caseForms char)
    (leads : first <+: second) : first = second := by
  have single (isSingle : ∃ other, first = [other]) (isSingle' : ∃ other, second = [other]) :
      first = second := by
    obtain ⟨_, rfl⟩ := isSingle
    obtain ⟨_, rfl⟩ := isSingle'
    exact leads.eq_of_length rfl
  by_cases longUpper : char.toNat ∈ CaseTable.longUpper.map Prod.fst
  · have starts := startsCapital_of_prefix (ne_nil_of_mem_caseForms listed) leads
    by_cases capital : startsCapital first = true
    · rw [(startsCapital_iff longUpper listed).mp capital,
        (startsCapital_iff longUpper listed').mp (starts ▸ capital)]
    · refine single (exists_eq_singleton_of_ne_upperChar longUpper listed ?_)
        (exists_eq_singleton_of_ne_upperChar longUpper listed' ?_)
      · exact mt (startsCapital_iff longUpper listed).mpr capital
      · exact mt (startsCapital_iff longUpper listed').mpr (starts ▸ capital)
  · by_cases longLower : char.toNat ∈ CaseTable.longLower.map Prod.fst
    · have each : ∀ code ∈ CaseTable.longLower.map Prod.fst,
          ∀ first ∈ caseForms (Char.ofNat code), ∀ second ∈ caseForms (Char.ofNat code),
            first <+: second → first = second := by decide
      have here := each char.toNat longLower
      rw [Char.ofNat_toNat] at here
      exact here first listed second listed' leads
    · have forms {form : Text} (listed : form ∈ caseForms char) : ∃ other, form = [other] := by
        rcases mem_caseForms.mp listed with rfl | rfl | rfl | ⟨_, rfl | rfl⟩
        · exact ⟨_, rfl⟩
        · exact exists_otherCase_eq_singleton longLower
        · exact exists_otherCase_eq_singleton longUpper
        · exact ⟨_, rfl⟩
        · exact ⟨_, rfl⟩
      exact single (forms listed) (forms listed')

/-- The run starts in none of the blank characters. -/
def CaseRun.sparesBlanks (run : CaseRun) : Bool :=
  blankRanges.all fun range => decide (run.last < range.first ∨ range.last < run.first)

theorem otherCase_of_blank {runs : List CaseRun} {long : List (Nat × List Nat)}
    (spares : ∀ run ∈ runs, run.sparesBlanks = true)
    (sparesLong : ∀ row ∈ long, isBlank (Char.ofNat row.1) = false) {char : Char}
    (blank : isBlank char = true) : otherCase runs long char = [char] := by
  have notListed : long.lookup char.toNat = none := by
    rw [List.lookup_eq_none_iff]
    intro row member
    rw [bne_iff_ne]
    rintro same
    have full := sparesLong row member
    rw [← same, Char.ofNat_toNat, blank] at full
    cases full
  have notMapped : runs.findSome? (·.map? char) = none := by
    rw [List.findSome?_eq_none_iff]
    intro run member
    obtain ⟨range, isRange, inside⟩ := List.any_eq_true.mp blank
    simp only [CharRange.holds, Bool.and_eq_true, decide_eq_true_eq] at inside
    have spared : run.last < range.first ∨ range.last < run.first :=
      of_decide_eq_true (List.all_eq_true.mp (spares run member) range isRange)
    refine if_neg ?_
    rintro ⟨low, high, _⟩
    omega
  rw [otherCase, notListed, notMapped]
  rfl

/-- A blank has no other form. -/
theorem eq_of_mem_caseForms_of_blank {char : Char} (blank : isBlank char = true) {form : Text}
    (listed : form ∈ caseForms char) : form = [char] := by
  rcases mem_caseForms.mp listed with rfl | rfl | rfl | ⟨rfl, _⟩
  · rfl
  · exact otherCase_of_blank (by decide +kernel) (by decide) blank
  · exact otherCase_of_blank (by decide +kernel) (by decide) blank
  · cases blank

/-- The forms of a character are blank just if the character is. -/
theorem isBlank_eq_of_mem_caseForms {char other : Char} {form : Text}
    (listed : form ∈ caseForms char) (member : other ∈ form) : isBlank other = isBlank char := by
  cases blank : isBlank char with
  | true =>
    rw [eq_of_mem_caseForms_of_blank blank listed] at member
    rw [List.mem_singleton.mp member, blank]
  | false => exact isBlank_of_mem_caseForms blank listed other member

namespace Text

/-! ### Spellings do not start each other -/

theorem compact_cons_of_blank {char : Char} (blank : isBlank char = true) (text : Text) :
    compact (char :: text) = compact text :=
  List.filter_cons_of_neg (by simp [blank])

theorem compact_cons_of_full {char : Char} (full : isBlank char = false) (text : Text) :
    compact (char :: text) = char :: compact text :=
  List.filter_cons_of_pos (by simp [full])

/-- Only blanks are compacted to nothing, and a text of blanks ends in one. -/
theorem eq_nil_of_compact_eq_nil {text : Text} (last : stops isBlank text.reverse = true)
    (nothing : compact text = []) : text = [] := by
  rcases List.eq_nil_or_concat text with rfl | ⟨lead, char, rfl⟩
  · rfl
  · rw [List.concat_eq_append] at last nothing
    rw [List.reverse_append, List.reverse_singleton, List.singleton_append] at last
    have full : isBlank char = false := by simpa [stops] using last
    rw [compact_append, compact_cons_of_full full] at nothing
    simp at nothing

theorem stops_reverse_of_cons {char : Char} {text : Text}
    (last : stops isBlank (char :: text).reverse = true) : stops isBlank text.reverse = true := by
  rw [List.reverse_cons] at last
  exact stops_of_prefix (List.prefix_append text.reverse [char]) last

end Text

/-- Two texts with the same letters, each in some case and with blanks of its own, do not start each
other. -/
theorem Recased.eq_of_prefix {text text' out out' : Text} (recased : Recased text out)
    (recased' : Recased text' out') (last : Text.stops isBlank text.reverse = true)
    (last' : Text.stops isBlank text'.reverse = true) (same : text.compact = text'.compact)
    (leads : out <+: out') : out = out' := by
  induction recased generalizing text' out' with
  | nil =>
    obtain rfl := Text.eq_nil_of_compact_eq_nil last' same.symm
    cases recased'
    rfl
  | @cons char piece text out form rest inductionHypothesis =>
    cases recased' with
    | nil => cases Text.eq_nil_of_compact_eq_nil last same
    | @cons char' piece' text' out' form' rest' =>
      have shorter := Text.stops_reverse_of_cons last
      have shorter' := Text.stops_reverse_of_cons last'
      obtain ⟨first, more, spelt⟩ := List.exists_cons_of_ne_nil (ne_nil_of_mem_caseForms form)
      obtain ⟨first', more', spelt'⟩ := List.exists_cons_of_ne_nil (ne_nil_of_mem_caseForms form')
      have start : first = first' := by
        rw [spelt, spelt', List.cons_append, List.cons_append, List.cons_prefix_cons] at leads
        exact leads.1
      -- A blank and a character that is not blank do not become the same, so both texts have a
      -- blank at this place or none of them has.
      have alike : isBlank char = isBlank char' := by
        rw [← isBlank_eq_of_mem_caseForms form (by rw [spelt]; exact List.mem_cons_self),
          ← isBlank_eq_of_mem_caseForms form' (by rw [spelt']; exact List.mem_cons_self), start]
      cases blank : isBlank char with
      | true =>
        have blank' : isBlank char' = true := alike.symm.trans blank
        rw [eq_of_mem_caseForms_of_blank blank form] at spelt leads ⊢
        rw [eq_of_mem_caseForms_of_blank blank' form'] at spelt' leads ⊢
        obtain ⟨rfl, _⟩ := List.cons.inj spelt
        obtain ⟨rfl, _⟩ := List.cons.inj spelt'
        obtain rfl := start
        rw [Text.compact_cons_of_blank blank, Text.compact_cons_of_blank blank] at same
        rw [inductionHypothesis rest' shorter shorter' same
          ((List.prefix_append_right_inj [char]).mp leads)]
      | false =>
        have blank' : isBlank char' = false := alike.symm.trans blank
        rw [Text.compact_cons_of_full blank, Text.compact_cons_of_full blank'] at same
        obtain ⟨rfl, behind⟩ := List.cons.inj same
        have pieces : piece = piece' := by
          have inWhole : piece <+: piece' ++ out' := (List.prefix_append piece out).trans leads
          rcases List.prefix_or_prefix_of_prefix inWhole (List.prefix_append piece' out') with
            leads | leads
          · exact eq_of_prefix_of_mem_caseForms form form' leads
          · exact (eq_of_prefix_of_mem_caseForms form' form leads).symm
        subst pieces
        rw [inductionHypothesis rest' shorter shorter' behind
          ((List.prefix_append_right_inj piece).mp leads)]

namespace TokenInjection

/-- No spelling of a fallback starts another one. -/
theorem eq_of_prefix_of_mem_variants {fallback first second : Text}
    (listed : first ∈ variants fallback) (listed' : second ∈ variants fallback)
    (leads : first <+: second) : first = second := by
  obtain ⟨base, trimmed, compact_eq, recased⟩ := exists_recased_of_mem_variants listed
  obtain ⟨base', trimmed', compact_eq', recased'⟩ := exists_recased_of_mem_variants listed'
  exact recased.eq_of_prefix recased' trimmed.last trimmed'.last (compact_eq.trans compact_eq'.symm)
    leads

/-- At one place of a text at most one spelling stands. -/
theorem variants_unique {fallback first second rest rest' : Text}
    (listed : first ∈ variants fallback) (listed' : second ∈ variants fallback)
    (same : first ++ rest = second ++ rest') : first = second ∧ rest = rest' := by
  have spellings : first = second := by
    have starts : first <+: second ++ rest' := ⟨rest, same⟩
    rcases List.prefix_or_prefix_of_prefix starts (List.prefix_append second rest') with
      leads | leads
    · exact eq_of_prefix_of_mem_variants listed listed' leads
    · exact (eq_of_prefix_of_mem_variants listed' listed leads).symm
  subst spellings
  exact ⟨rfl, List.append_cancel_left same⟩

end TokenInjection

end AtomicCss
