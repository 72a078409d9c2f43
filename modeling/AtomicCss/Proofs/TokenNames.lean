/-
This file describes the names of variables that have a token. Such a name is what a rule spells,
perhaps in other letters of the same alphabet, with the digits of an indexed family behind it and
perhaps a pair of hyphens in front. Of all this the rest of the pipeline notices three things: the
name has no character that separates, closes or quotes anything, its digits stand together at its
end, and what stands before them is not the stem of a class whose numbers are scaled. A token is a
text that goes on a class name.
-/

import AtomicCss.Proofs.NumberPasses
import AtomicCss.ColorToken

namespace AtomicCss

/-! ### Letters that fold -/

theorem isDigit_of_isDigit_foldChar {char : Char} (isDigit : (foldChar char).isDigit = true) :
    char.isDigit = true := by
  unfold foldChar at isDigit
  split at isDigit
  · cases isDigit
  · split at isDigit
    · cases isDigit
    · unfold Char.toLower at isDigit
      split at isDigit
      · next isUpper =>
        simp only [Char.isDigit, Bool.and_eq_true, decide_eq_true_eq, UInt32.le_iff_toNat_le,
          ge_iff_le, UInt32.toNat_add] at isDigit isUpper
        simp at isDigit isUpper
        omega
      · exact isDigit

theorem foldChar_of_isDigit {char : Char} (isDigit : char.isDigit = true) :
    foldChar char = char := by
  have notLong : char ≠ 'ſ' := by
    rintro rfl
    cases isDigit
  have notKelvin : char ≠ '\u212A' := by
    rintro rfl
    cases isDigit
  rw [foldChar, if_neg notLong, if_neg notKelvin]
  unfold Char.toLower
  split
  · next isUpper =>
    simp only [Char.isDigit, Bool.and_eq_true, decide_eq_true_eq, UInt32.le_iff_toNat_le,
      ge_iff_le] at isDigit isUpper
    simp at isDigit isUpper
    omega
  · rfl

/-- A character of a name, or one of the two letters that stand for an ASCII letter. -/
def isVariableChar (char : Char) : Bool :=
  isNameChar char || char == 'ſ' || char == '\u212A'

theorem isVariableChar_of_foldChar {char : Char} (isName : isNameChar (foldChar char) = true) :
    isVariableChar char = true := by
  by_cases long : char = 'ſ'
  · rw [long]
    decide
  · by_cases kelvin : char = '\u212A'
    · rw [kelvin]
      decide
    · rw [foldChar, if_neg long, if_neg kelvin] at isName
      unfold Char.toLower at isName
      split at isName
      · next upper =>
        have isAlpha : char.isAlpha = true := isAlpha_iff_toNat.mpr (Or.inl upper)
        rw [isVariableChar, isNameChar, isWordChar_of_isAlpha isAlpha, Bool.true_or, Bool.true_or,
          Bool.true_or]
      · rw [isVariableChar, isName, Bool.true_or, Bool.true_or]

theorem isBlank_of_isVariableChar {char : Char} (isVariable : isVariableChar char = true) :
    isBlank char = false := by
  simp only [isVariableChar, isNameChar, Bool.or_eq_true, beq_iff_eq] at isVariable
  rcases isVariable with ((isWord | rfl) | rfl) | rfl
  · exact isBlank_of_isWordChar isWord
  · decide
  · decide
  · decide

namespace ColorToken

/-! ### Rules -/

namespace Rule

/-- What a rule spells out: the stem of a family, or a whole name. -/
def lead : Rule → Text
  | indexed stem _ => stem
  | fixed name _ => name

/-- Digits may follow what the rule spells out. -/
def isIndexed : Rule → Bool
  | indexed _ _ => true
  | fixed _ _ => false

/-- The start of the tokens that a rule gives. -/
def tokenLead : Rule → Text
  | indexed _ family => family
  | fixed _ token => token

/-- A rule gives a token to what it spells out, with digits behind it if it is indexed. -/
theorem exists_eq_append_of_token? {rule : Rule} {name token : Text}
    (found : rule.token? name = some token) :
    ∃ digits, name = rule.lead ++ digits ∧ (∀ char ∈ digits, char.isDigit = true) ∧
      (digits ≠ [] → rule.isIndexed = true) ∧
        ∃ rest, token = rule.tokenLead ++ rest ∧
          ∀ char ∈ rest, char = '_' ∨ char.isDigit = true := by
  cases rule with
  | indexed stem family =>
    simp only [token?] at found
    split at found
    · next first more behind =>
      split at found
      · next isDigits =>
        have isDigit : ∀ char ∈ first :: more, char.isDigit = true := by
          simpa using isDigits
        obtain rfl := Option.some.inj found
        refine ⟨first :: more, Text.after?_eq_some_iff.mp behind, isDigit, fun _ => rfl,
          '_' :: first :: more, rfl, fun char member => ?_⟩
        exact (List.mem_cons.mp member).imp_right (isDigit char)
      · cases found
    · cases found
  | fixed expected token =>
    simp only [token?] at found
    split at found
    · next same =>
      obtain rfl := Option.some.inj found
      refine ⟨[], ?_, by simp, by simp, [], (List.append_nil _).symm, by simp⟩
      rw [same, List.append_nil]
      rfl
    · cases found

end Rule

/-! ### Names with a token -/

/-- What is needed to know of a name that has a token. -/
structure Named (name : Text) : Prop where
  nonempty : name ≠ []
  chars : ∀ char ∈ name, isVariableChar char = true
  /-- The digits stand together at the end, and no stem of a scaled number stands before them. -/
  digits : ∃ lead digits, name = lead ++ digits ∧ (∀ char ∈ lead, char.isDigit = false) ∧
    (∀ char ∈ digits, char.isDigit = true) ∧
      (digits ≠ [] → ∀ scaling : ClassNumber.Scaling, ∀ stem ∈ scaling.stems,
        ∀ before, ¬ stem <:+ before ++ lead)

theorem exists_eq_append_bareName (name : Text) :
    ∃ hyphens, (∀ char ∈ hyphens, char = '-') ∧ name = hyphens ++ bareName name := by
  unfold bareName
  cases found : Text.after? ['-', '-'] name with
  | none => exact ⟨[], by simp, rfl⟩
  | some rest => exact ⟨['-', '-'], by simp, Text.after?_eq_some_iff.mp found⟩

theorem exists_rule_of_resolve? {name token : Text} (resolved : resolve? name = some token) :
    ∃ rule ∈ rules, rule.token? ((bareName name).map foldChar) = some token :=
  List.exists_of_findSome?_eq_some resolved

/-- Folding changes no stem of a scaled number, and what a rule with digits spells out ends with none
and ends none. -/
theorem Rule.not_stem_suffix {rule : Rule} (listed : rule ∈ rules) (indexed : rule.isIndexed = true)
    {front : Text} (front_eq : front.map foldChar = rule.lead) {scaling : ClassNumber.Scaling}
    {stem : Text} (isStem : stem ∈ scaling.stems) (before : Text) : ¬ stem <:+ before ++ front := by
  have apart : ∀ rule ∈ rules, rule.isIndexed = true → ∀ stem ∈ scaling.stems,
      stem.map foldChar = stem ∧ ¬ stem <:+ rule.lead ∧ ¬ rule.lead <:+ stem := by
    cases scaling <;> decide
  obtain ⟨same, notInside, notAround⟩ := apart rule listed indexed stem isStem
  intro ends
  have stemEnds : stem <:+ (before ++ front).map foldChar := by
    rw [← same]
    exact ends.map foldChar
  have leadEnds : rule.lead <:+ (before ++ front).map foldChar :=
    ⟨before.map foldChar, by rw [← front_eq, List.map_append]⟩
  rcases List.suffix_or_suffix_of_suffix stemEnds leadEnds with inside | around
  · exact notInside inside
  · exact notAround around

theorem named_of_resolve? {name token : Text} (resolved : resolve? name = some token) :
    Named name := by
  obtain ⟨rule, listed, found⟩ := exists_rule_of_resolve? resolved
  obtain ⟨digits, folded, isDigit, indexed, _⟩ := Rule.exists_eq_append_of_token? found
  obtain ⟨hyphens, isHyphen, name_eq⟩ := exists_eq_append_bareName name
  obtain ⟨front, back, bare_eq, front_eq, back_eq⟩ := List.map_eq_append_iff.mp folded
  rw [bare_eq, ← List.append_assoc] at name_eq
  have leadChars : ∀ rule ∈ rules, rule.lead ≠ [] ∧
      ∀ char ∈ rule.lead, isNameChar char = true ∧ char.isDigit = false := by
    decide
  have frontChars : ∀ char ∈ front,
      isNameChar (foldChar char) = true ∧ (foldChar char).isDigit = false := fun char member =>
    (leadChars rule listed).2 _ (front_eq ▸ List.mem_map_of_mem member)
  have backDigits : ∀ char ∈ back, char.isDigit = true := fun char member =>
    isDigit_of_isDigit_foldChar (isDigit _ (back_eq ▸ List.mem_map_of_mem member))
  refine ⟨?_, ?_, hyphens ++ front, back, name_eq, ?_, backDigits, ?_⟩
  · have nonempty : front ≠ [] := by
      rintro rfl
      exact (leadChars rule listed).1 front_eq.symm
    rw [name_eq]
    simp [nonempty]
  · intro char member
    rw [name_eq] at member
    rcases List.mem_append.mp member with inLead | inBack
    · rcases List.mem_append.mp inLead with inHyphens | inFront
      · rw [isHyphen char inHyphens]
        decide
      · exact isVariableChar_of_foldChar (frontChars char inFront).1
    · rw [isVariableChar, isNameChar, isWordChar_of_isDigit (backDigits char inBack),
        Bool.true_or, Bool.true_or, Bool.true_or]
  · intro char member
    rcases List.mem_append.mp member with inHyphens | inFront
    · rw [isHyphen char inHyphens]
      decide
    · by_contra digit
      rw [Bool.not_eq_false] at digit
      have notDigit := (frontChars char inFront).2
      rw [foldChar_of_isDigit digit, digit] at notDigit
      cases notDigit
  · intro nonempty scaling stem isStem before
    have hasDigits : digits ≠ [] := by
      rintro rfl
      exact nonempty (List.map_eq_nil_iff.mp back_eq)
    rw [← List.append_assoc]
    exact Rule.not_stem_suffix listed (indexed hasDigits) front_eq isStem _

/-- A token is written with letters, digits and underscores, and without the letter by which a
reference starts. -/
theorem token_wordChars {name token : Text} (resolved : resolve? name = some token) :
    ∀ char ∈ token, isWordChar char = true ∧ char ≠ 'v' := by
  obtain ⟨rule, listed, found⟩ := exists_rule_of_resolve? resolved
  obtain ⟨_, _, _, _, rest, rfl, chars⟩ := Rule.exists_eq_append_of_token? found
  have leadChars : ∀ rule ∈ rules, ∀ char ∈ rule.tokenLead, isWordChar char = true ∧ char ≠ 'v' := by
    decide
  intro char member
  rcases List.mem_append.mp member with inLead | inRest
  · exact leadChars rule listed char inLead
  · rcases chars char inRest with rfl | isDigit
    · decide
    · refine ⟨isWordChar_of_isDigit isDigit, ?_⟩
      rintro rfl
      cases isDigit

/-- A token is not empty and goes on a class name. -/
theorem token_chars {name token : Text} (resolved : resolve? name = some token) :
    token ≠ [] ∧ ∀ char ∈ token, isNameChar char = true := by
  refine ⟨?_, fun char member => isNameChar_of_isWordChar (token_wordChars resolved char member).1⟩
  obtain ⟨rule, listed, found⟩ := exists_rule_of_resolve? resolved
  obtain ⟨_, _, _, _, rest, rfl, _⟩ := Rule.exists_eq_append_of_token? found
  have full : ∀ rule ∈ rules, rule.tokenLead ≠ [] := by decide
  exact List.append_ne_nil_of_left_ne_nil (full rule listed) rest

theorem eq_hyphen_of_foldChar {char : Char} (hyphen : foldChar char = '-') : char = '-' := by
  unfold foldChar at hyphen
  split at hyphen
  · cases hyphen
  · split at hyphen
    · cases hyphen
    · unfold Char.toLower at hyphen
      split at hyphen
      · next upper =>
        have least : 65 ≤ char.toNat := UInt32.le_iff_toNat_le.mp upper.1
        have most : char.toNat ≤ 90 := UInt32.le_iff_toNat_le.mp upper.2
        have code : (char.val + ('a'.val - 'A'.val)).toNat = 45 := congrArg Char.toNat hyphen
        have shift : ('a'.val - 'A'.val).toNat = 32 := by decide
        rw [UInt32.toNat_add, shift] at code
        change (char.toNat + 32) % 2 ^ 32 = 45 at code
        omega
      · exact hyphen

/-- A name that has a token has a hyphen. -/
theorem hyphen_mem_of_resolve? {name token : Text} (resolved : resolve? name = some token) :
    '-' ∈ name := by
  obtain ⟨rule, listed, found⟩ := exists_rule_of_resolve? resolved
  obtain ⟨digits, folded, _⟩ := Rule.exists_eq_append_of_token? found
  obtain ⟨hyphens, _, name_eq⟩ := exists_eq_append_bareName name
  have each : ∀ rule ∈ rules, '-' ∈ rule.lead := by decide
  have inFolded : '-' ∈ (bareName name).map foldChar := by
    rw [folded]
    exact List.mem_append_left digits (each rule listed)
  obtain ⟨char, member, same⟩ := List.mem_map.mp inFolded
  rw [name_eq]
  exact List.mem_append_right hyphens (eq_hyphen_of_foldChar same ▸ member)

/-- A token has an underscore. -/
theorem underscore_mem_of_resolve? {name token : Text} (resolved : resolve? name = some token) :
    '_' ∈ token := by
  obtain ⟨rule, listed, found⟩ := exists_rule_of_resolve? resolved
  cases rule with
  | indexed stem family =>
    simp only [Rule.token?] at found
    split at found
    · split at found
      · rw [← Option.some.inj found]
        simp
      · cases found
    · cases found
  | fixed expected token' =>
    have each : ∀ rule ∈ rules, rule.isIndexed = false → '_' ∈ rule.tokenLead := by decide
    simp only [Rule.token?] at found
    split at found
    · rw [← Option.some.inj found]
      exact each _ listed rfl
    · cases found

end ColorToken

end AtomicCss
