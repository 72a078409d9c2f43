/-
This file goes back and forth between numbers and their decimal texts. Digits of a given length and
their value determine each other, so a run of digits with no zero to spare in front is what its
value is written as. With a point the same holds of a number of units of the last place. A count of
units may be given for a finer place than necessary; taken to the coarsest place that it is whole
for, it is unique.
-/

import AtomicCss.Proofs.ComputedText
import Mathlib.Data.List.Induction

namespace AtomicCss

/-! ### Digits and their value -/

namespace Decimal

theorem value_concat (text : Text) (digit : Char) :
    value (text ++ [digit]) = 10 * value text + (digit.toNat - '0'.toNat) := by
  rw [value, List.foldl_append]
  rfl

theorem value_append (lead rest : Text) :
    value (lead ++ rest) = value lead * power 10 rest.length + value rest := by
  induction rest using List.reverseRecOn with
  | nil => rw [List.append_nil, List.length_nil, power_zero, Nat.mul_one]; rfl
  | append_singleton rest digit inductionHypothesis =>
    rw [← List.append_assoc, value_concat, inductionHypothesis, value_concat, List.length_append,
      List.length_singleton, power_succ, ← Nat.mul_assoc]
    omega

theorem value_digits (number : Nat) : value (digits number) = number :=
  Nat.ofDigitChars_toDigits (by decide) (by decide)

theorem value_replicate_zero (count : Nat) : value (List.replicate count '0') = 0 :=
  Nat.ofDigitChars_replicate_zero.trans (Nat.mul_zero _)

theorem value_padded (width number : Nat) : value (padded width number) = number := by
  rw [padded, value_append, value_replicate_zero, Nat.zero_mul, Nat.zero_add, value_digits]

/-- What a digit adds to the value is less than ten. -/
theorem digit_bounds {digit : Char} (isDigit : digit.isDigit = true) :
    '0'.toNat ≤ digit.toNat ∧ digit.toNat < '0'.toNat + 10 := by
  obtain ⟨low, high⟩ := isDigit_iff_toNat.mp isDigit
  exact ⟨low, Nat.lt_succ_of_le high⟩

theorem value_lt {text : Text} (isDigit : ∀ char ∈ text, char.isDigit = true) :
    value text < power 10 text.length := by
  induction text using List.reverseRecOn with
  | nil => decide
  | append_singleton text digit inductionHypothesis =>
    obtain ⟨inText, last⟩ := List.forall_mem_append.mp isDigit
    have bound := inductionHypothesis inText
    have lastBound := (digit_bounds (last digit List.mem_cons_self)).2
    rw [value_concat, List.length_append, List.length_singleton, power_succ]
    omega

/-- Runs of digits of one length are told apart by their values. -/
theorem eq_of_value_eq {first second : Text} (sameLength : first.length = second.length)
    (isDigit : ∀ char ∈ first, char.isDigit = true)
    (isDigit' : ∀ char ∈ second, char.isDigit = true) (sameValue : value first = value second) :
    first = second := by
  induction first using List.reverseRecOn generalizing second with
  | nil => exact (List.length_eq_zero_iff.mp sameLength.symm).symm
  | append_singleton first digit inductionHypothesis =>
    rcases List.eq_nil_or_concat second with rfl | ⟨second, digit', rfl⟩
    · simp at sameLength
    · rw [List.concat_eq_append] at *
      obtain ⟨inFirst, last⟩ := List.forall_mem_append.mp isDigit
      obtain ⟨inSecond, last'⟩ := List.forall_mem_append.mp isDigit'
      obtain ⟨low, high⟩ := digit_bounds (last digit List.mem_cons_self)
      obtain ⟨low', high'⟩ := digit_bounds (last' digit' List.mem_cons_self)
      rw [value_concat, value_concat] at sameValue
      rw [inductionHypothesis (by simpa using sameLength) inFirst inSecond (by omega),
        Char.toNat_inj.mp (by omega : digit.toNat = digit'.toNat)]

theorem isDigit_of_mem_padded {width number : Nat} {char : Char}
    (member : char ∈ padded width number) : char.isDigit = true := by
  rcases List.mem_append.mp member with zero | inDigits
  · rw [List.eq_of_mem_replicate zero]
    rfl
  · exact isDigit_of_mem_digits inDigits

theorem length_padded {width number : Nat} (positive : 0 < width) (fits : number < power 10 width) :
    (padded width number).length = width := by
  have short : (digits number).length ≤ width :=
    (Nat.length_toDigits_le_iff (by decide) positive).mpr fits
  rw [padded, List.length_append, List.length_replicate, Nat.sub_add_cancel short]

/-- Filled up to their length, digits are what their value is written as. -/
theorem padded_value {text : Text} (nonempty : text ≠ [])
    (isDigit : ∀ char ∈ text, char.isDigit = true) : padded text.length (value text) = text :=
  eq_of_value_eq (length_padded (List.length_pos_iff.mpr nonempty) (value_lt isDigit))
    (fun _ => isDigit_of_mem_padded) isDigit (value_padded _ _)

/-- With no zero to spare in front, digits are what their value is written as. -/
theorem digits_value {text : Text} (nonempty : text ≠ [])
    (isDigit : ∀ char ∈ text, char.isDigit = true)
    (lead : text.head? = some '0' → text = ['0']) : digits (value text) = text := by
  have whole := padded_value nonempty isDigit
  rw [padded] at whole
  generalize text.length - (digits (value text)).length = spare at whole
  cases spare with
  | zero => exact whole
  | succ spare =>
    have zero : text = ['0'] := lead (by rw [← whole]; rfl)
    subst zero
    decide

/-- Only the digits of zero start with a zero. -/
theorem digits_eq_zero_of_head? {number : Nat} (zero : (digits number).head? = some '0') :
    digits number = ['0'] := by
  induction number using Nat.strongRecOn with
  | ind number inductionHypothesis =>
    rcases Nat.lt_or_ge number 10 with single | several
    · have digits_eq : digits number = [Nat.digitChar number] := Nat.toDigits_of_lt_base single
      rw [digits_eq, List.head?_cons, Option.some.injEq] at zero
      rw [digits_eq, zero]
    · have digits_eq : digits number = digits (number / 10) ++ [Nat.digitChar (number % 10)] :=
        Nat.toDigits_of_base_le (by decide) several
      obtain ⟨first, more, spelt⟩ : ∃ first more, digits (number / 10) = first :: more :=
        List.exists_cons_of_ne_nil Nat.toDigits_ne_nil
      have same : (digits number).head? = (digits (number / 10)).head? := by
        rw [digits_eq, spelt, List.cons_append, List.head?_cons, List.head?_cons]
      have lead := congrArg value (inductionHypothesis (number / 10) (by omega) (same.symm.trans zero))
      rw [value_digits, show value ['0'] = 0 from rfl] at lead
      omega

/-! ### The coarsest place -/

/-- The units of the last place cannot be counted on a coarser place. -/
def Reduced (places count : Nat) : Prop :=
  places = 0 ∨ count % 10 ≠ 0

theorem exists_reduced (finest units : Nat) :
    ∃ places count, places ≤ finest ∧ units = count * power 10 (finest - places) ∧
      Reduced places count := by
  induction finest generalizing units with
  | zero => exact ⟨0, units, Nat.le_refl 0, (Nat.mul_one units).symm, Or.inl rfl⟩
  | succ finest inductionHypothesis =>
    by_cases last : units % 10 = 0
    · obtain ⟨places, count, fine, split, reduced⟩ := inductionHypothesis (units / 10)
      refine ⟨places, count, Nat.le_succ_of_le fine, ?_, reduced⟩
      rw [Nat.succ_sub fine, power_succ, ← Nat.mul_assoc, ← split]
      omega
    · refine ⟨finest + 1, units, Nat.le_refl _, ?_, Or.inr last⟩
      rw [Nat.sub_self, power_zero, Nat.mul_one]

end Decimal

/-! ### Numerals -/

namespace Numeral

open Decimal

/-- The numeral of a number of units of the last of `places` decimal places. -/
def ofPlaces (places count : Nat) : Numeral :=
  if places = 0 then ⟨digits count, none⟩
  else ⟨digits (count / power 10 places), some (padded places (count % power 10 places))⟩

theorem text_ofPlaces (places count : Nat) : (ofPlaces places count).text = pointed places count := by
  unfold ofPlaces pointed
  split <;> rfl

theorem wellFormed_ofPlaces (places count : Nat) : (ofPlaces places count).WellFormed := by
  unfold ofPlaces
  split
  · exact ⟨Nat.toDigits_ne_nil, fun _ => isDigit_of_mem_digits, by simp, by simp⟩
  · refine ⟨Nat.toDigits_ne_nil, fun _ => isDigit_of_mem_digits, ?_, ?_⟩
    · rintro _ ⟨⟩
      exact List.append_ne_nil_of_right_ne_nil _ Nat.toDigits_ne_nil
    · rintro _ ⟨⟩ char
      exact isDigit_of_mem_padded

/-- The count is the value of all the digits, and there are as many places as were asked for. -/
theorem digits_ofPlaces (places count : Nat) :
    (ofPlaces places count).places.length = places ∧
      Decimal.value ((ofPlaces places count).whole ++ (ofPlaces places count).places) = count := by
  unfold ofPlaces
  split
  · next noPlaces =>
    rw [noPlaces]
    exact ⟨rfl, (congrArg Decimal.value (List.append_nil _)).trans (value_digits count)⟩
  · next hasPlaces =>
    have length := length_padded (Nat.pos_of_ne_zero hasPlaces)
      (Nat.mod_lt count (power_pos places (by decide)))
    refine ⟨length, ?_⟩
    rw [Numeral.places, Option.getD_some, value_append, value_digits, value_padded, length]
    exact Nat.div_add_mod' count _

theorem value_ofPlaces (places count : Nat) :
    (ofPlaces places count).value = Binary64.ofRatio count (power 10 places) := by
  obtain ⟨length, all⟩ := digits_ofPlaces places count
  rw [value, length, all]

/-- A numeral without superfluous zeros: none in front of another digit, and none as the last
place. -/
structure Canonical (numeral : Numeral) : Prop extends numeral.WellFormed where
  lead : numeral.whole.head? = some '0' → numeral.whole = ['0']
  last : numeral.places.getLast? ≠ some '0'

/-- The numeral of units that cannot be counted on a coarser place is canonical. -/
theorem canonical_ofPlaces {places count : Nat} (reduced : Reduced places count) :
    (ofPlaces places count).Canonical := by
  refine ⟨wellFormed_ofPlaces places count, ?_, ?_⟩
  · unfold ofPlaces
    split
    · exact digits_eq_zero_of_head?
    · exact digits_eq_zero_of_head?
  · unfold ofPlaces
    split
    · simp [Numeral.places]
    · next hasPlaces =>
      have last := digitChar_ne (Nat.mod_lt count (by decide)) (reduced.resolve_left hasPlaces)
      obtain ⟨lead, padded_eq⟩ := exists_padded_eq_concat (Nat.pos_of_ne_zero hasPlaces) count
      rw [Numeral.places, Option.getD_some, padded_eq, List.getLast?_concat]
      exact fun same => last.1 (Option.some.inj same)

namespace Canonical

variable {numeral : Numeral} (canonical : numeral.Canonical)

include canonical in
theorem digits_whole : digits (Decimal.value numeral.whole) = numeral.whole :=
  digits_value canonical.whole_ne_nil canonical.whole_digits canonical.lead

include canonical in
theorem places_digits : ∀ char ∈ numeral.places, char.isDigit = true := by
  have digits := canonical.fraction_digits
  unfold places
  cases fraction : numeral.fraction with
  | none => simp
  | some text => exact digits text fraction

include canonical in
/-- A canonical numeral is given by its places and its digits. -/
theorem eq_ofPlaces :
    numeral = ofPlaces numeral.places.length (Decimal.value (numeral.whole ++ numeral.places)) := by
  have whole := canonical.digits_whole
  have isDigit := canonical.places_digits
  have nonempty := canonical.fraction_ne_nil
  obtain ⟨first, fraction⟩ := numeral
  cases fraction with
  | none =>
    rw [places, Option.getD_none, List.append_nil, List.length_nil, ofPlaces, if_pos rfl, whole]
  | some rest =>
    have small := value_lt isDigit
    rw [places, Option.getD_some] at small isDigit ⊢
    have hasPlaces : rest.length ≠ 0 := fun noPlaces =>
      nonempty rest rfl (List.length_eq_zero_iff.mp noPlaces)
    have positive : 0 < power 10 rest.length := power_pos _ (by decide)
    rw [ofPlaces, if_neg hasPlaces, value_append, Nat.mul_comm, Nat.mul_add_div positive,
      Nat.div_eq_of_lt small, Nat.mul_add_mod, Nat.mod_eq_of_lt small, Nat.add_zero, whole,
      padded_value (nonempty rest rfl) isDigit]

include canonical in
theorem reduced :
    Reduced numeral.places.length (Decimal.value (numeral.whole ++ numeral.places)) := by
  rcases List.eq_nil_or_concat numeral.places with noPlaces | ⟨init, digit, spelt⟩
  · exact Or.inl (by rw [noPlaces]; rfl)
  · rw [List.concat_eq_append] at spelt
    have member : digit ∈ numeral.places := by
      rw [spelt]
      simp
    obtain ⟨low, high⟩ := digit_bounds (canonical.places_digits digit member)
    have notZero : digit.toNat ≠ '0'.toNat := by
      intro zero
      refine canonical.last ?_
      rw [spelt, Char.toNat_inj.mp zero, List.getLast?_append, List.getLast?_singleton]
      rfl
    refine Or.inr ?_
    rw [spelt, ← List.append_assoc, value_concat]
    omega

end Canonical

end Numeral

end AtomicCss
