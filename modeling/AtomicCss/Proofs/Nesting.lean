/-
This file counts parentheses. The depth of a text is what it leaves open less what it closes
without having opened it; it adds up over a concatenation. A text stays open on a count if at none
of its prefixes more has been closed than the count allows, and it is balanced if it stays open on
a count of zero and ends at depth zero. The parenthesis that closes an opening one is then the one
behind a balanced text, and the reader of references finds exactly that one.
-/

import AtomicCss.Variable
import Mathlib.Data.List.Infix

namespace AtomicCss

namespace Text

/-! ### Depth -/

/-- The number of parentheses that a text opens less the number that it closes. -/
def depth (text : Text) : Int :=
  text.foldl depthAfter 0

theorem depthAfter_eq_add (count : Int) (char : Char) :
    depthAfter count char = count + depthAfter 0 char := by
  unfold depthAfter
  split
  · omega
  · split <;> omega

theorem foldl_depthAfter (count : Int) (text : Text) :
    text.foldl depthAfter count = count + depth text := by
  induction text generalizing count with
  | nil => simp [depth]
  | cons char text inductionHypothesis =>
    rw [depth, List.foldl_cons, List.foldl_cons, inductionHypothesis (depthAfter count char),
      inductionHypothesis (depthAfter 0 char), depthAfter_eq_add count char, Int.add_assoc]

@[simp] theorem depth_nil : depth [] = 0 := rfl

@[simp] theorem depth_cons (char : Char) (text : Text) :
    depth (char :: text) = depthAfter 0 char + depth text := by
  rw [depth, List.foldl_cons, foldl_depthAfter]

@[simp] theorem depth_append (first second : Text) :
    depth (first ++ second) = depth first + depth second := by
  rw [depth, List.foldl_append, foldl_depthAfter, foldl_depthAfter, Int.zero_add]

/-! ### Texts that stay open -/

/-- With `count` parentheses open before it, the text at no place has closed more. -/
def StaysOpen (count : Int) (text : Text) : Prop :=
  ∀ lead, lead <+: text → 0 ≤ count + depth lead

theorem staysOpen_nil {count : Int} (positive : 0 ≤ count) : StaysOpen count [] := by
  intro lead leads
  rw [List.prefix_nil.mp leads, depth_nil, Int.add_zero]
  exact positive

theorem staysOpen_cons {count : Int} {char : Char} {text : Text} :
    StaysOpen count (char :: text) ↔
      0 ≤ count ∧ StaysOpen (count + depthAfter 0 char) text := by
  constructor
  · intro staysOpen
    refine ⟨by simpa using staysOpen [] List.nil_prefix, fun lead leads => ?_⟩
    have opened := staysOpen (char :: lead) (List.cons_prefix_cons.mpr ⟨rfl, leads⟩)
    rw [depth_cons] at opened
    omega
  · rintro ⟨positive, staysOpen⟩ lead leads
    rcases List.prefix_cons_iff.mp leads with rfl | ⟨more, rfl, moreLeads⟩
    · simpa using positive
    · have opened := staysOpen more moreLeads
      rw [depth_cons]
      omega

theorem StaysOpen.append {count : Int} {first second : Text} (opened : StaysOpen count first)
    (opened' : StaysOpen (count + depth first) second) : StaysOpen count (first ++ second) := by
  induction first generalizing count with
  | nil => simpa using opened'
  | cons char first inductionHypothesis =>
    obtain ⟨positive, opened⟩ := staysOpen_cons.mp opened
    refine staysOpen_cons.mpr ⟨positive, inductionHypothesis opened ?_⟩
    rwa [Int.add_assoc, ← depth_cons]

/-- A text stays open if its start does and the rest does on what the start leaves open. -/
theorem staysOpen_append {count : Int} {first second : Text} :
    StaysOpen count (first ++ second) ↔
      StaysOpen count first ∧ StaysOpen (count + depth first) second := by
  refine ⟨fun opened => ⟨fun lead leads => ?_, fun lead leads => ?_⟩,
    fun ⟨opened, opened'⟩ => opened.append opened'⟩
  · exact opened lead (leads.trans (List.prefix_append first second))
  · have whole := opened (first ++ lead) ((List.prefix_append_right_inj first).mpr leads)
    rwa [depth_append, ← Int.add_assoc] at whole

/-- Whether a text stays open is decided along the text, although its prefixes are not listed. -/
instance decidableStaysOpen : (count : Int) → (text : Text) → Decidable (StaysOpen count text)
  | count, [] =>
    decidable_of_iff (0 ≤ count)
      ⟨staysOpen_nil, fun opened => by simpa using opened [] List.nil_prefix⟩
  | count, char :: text =>
    have := decidableStaysOpen (count + depthAfter 0 char) text
    decidable_of_iff (0 ≤ count ∧ StaysOpen (count + depthAfter 0 char) text) staysOpen_cons.symm

/-! ### Balanced texts -/

/-- Every parenthesis of the text is closed and every closing one was opened in it. -/
structure Balanced (text : Text) : Prop where
  staysOpen : StaysOpen 0 text
  depth_eq_zero : depth text = 0

instance (text : Text) : Decidable text.Balanced :=
  decidable_of_iff (StaysOpen 0 text ∧ depth text = 0)
    ⟨fun ⟨opened, closed⟩ => ⟨opened, closed⟩, fun ⟨opened, closed⟩ => ⟨opened, closed⟩⟩

theorem balanced_nil : Balanced [] :=
  ⟨staysOpen_nil (Int.le_refl 0), rfl⟩

theorem Balanced.append {first second : Text} (balanced : Balanced first)
    (balanced' : Balanced second) : Balanced (first ++ second) where
  staysOpen := balanced.staysOpen.append (by
    rw [balanced.depth_eq_zero]
    exact balanced'.staysOpen)
  depth_eq_zero := by
    rw [depth_append, balanced.depth_eq_zero, balanced'.depth_eq_zero, Int.add_zero]

/-- A balanced text that comes back to depth zero on its way is balanced up to there and behind. -/
theorem Balanced.of_append {first second : Text} (balanced : Balanced (first ++ second))
    (level : depth first = 0) : Balanced first ∧ Balanced second := by
  obtain ⟨opened, opened'⟩ := staysOpen_append.mp balanced.staysOpen
  have whole := balanced.depth_eq_zero
  rw [level] at opened'
  rw [depth_append, level, Int.zero_add] at whole
  exact ⟨⟨opened, level⟩, ⟨opened', whole⟩⟩

/-- A text without parentheses is balanced. -/
theorem balanced_of_forall_ne {text : Text} (flat : ∀ char ∈ text, char ≠ '(' ∧ char ≠ ')') :
    Balanced text := by
  induction text with
  | nil => exact balanced_nil
  | cons char text inductionHypothesis =>
    have single : Balanced [char] := by
      obtain ⟨notOpening, notClosing⟩ := flat char List.mem_cons_self
      have level := depthAfter_of_ne 0 notOpening notClosing
      exact ⟨staysOpen_cons.mpr ⟨Int.le_refl 0, staysOpen_nil (by omega)⟩,
        by rw [depth_cons, level, depth_nil, Int.add_zero]⟩
    exact single.append (inductionHypothesis fun other member =>
      flat other (List.mem_cons_of_mem char member))

/-- Parentheses around a balanced text keep it balanced. -/
theorem Balanced.parenthesized {text : Text} (balanced : Balanced text) :
    Balanced ('(' :: text ++ [')']) where
  staysOpen := by
    refine staysOpen_cons.mpr ⟨Int.le_refl 0, StaysOpen.append (fun lead leads => ?_) ?_⟩
    · have opened := balanced.staysOpen lead leads
      rw [depthAfter_opening]
      omega
    · rw [balanced.depth_eq_zero]
      exact staysOpen_cons.mpr ⟨by decide, staysOpen_nil (by decide)⟩
  depth_eq_zero := by
    rw [depth_append, depth_cons, balanced.depth_eq_zero]
    rfl

end Text

/-! ### The closing parenthesis -/

namespace Variable

open Text

theorem untilClosing?_cons_of_ne {count : Nat} {char : Char} {rest : Text}
    (goes : ¬ (char = ')' ∧ count = 0)) :
    untilClosing? count (char :: rest) =
      (untilClosing? (count + depthAfter 0 char).toNat rest).map
        fun (content, after) => (char :: content, after) := by
  by_cases closing : char = ')'
  · subst closing
    obtain ⟨less, rfl⟩ : ∃ less, count = less + 1 :=
      Nat.exists_eq_succ_of_ne_zero fun zero => goes ⟨rfl, zero⟩
    have next : (((less + 1 : Nat) : Int) + depthAfter 0 ')').toNat = less := by
      rw [depthAfter_closing]
      omega
    rw [untilClosing?, next]
  · by_cases opening : char = '('
    · subst opening
      have next : ((count : Int) + depthAfter 0 '(').toNat = count + 1 := by
        rw [depthAfter_opening]
        omega
      rw [next]
      cases count <;> rfl
    · have next : ((count : Int) + depthAfter 0 char).toNat = count := by
        rw [depthAfter_of_ne 0 opening closing]
        omega
      rw [next]
      cases count <;> simp [untilClosing?, closing]

/-- The reader stops at the parenthesis at which what was open before has been closed, and at no
other. -/
theorem untilClosing?_eq_some_iff {count : Nat} {text content rest : Text} :
    untilClosing? count text = some (content, rest) ↔
      text = content ++ ')' :: rest ∧ StaysOpen count content ∧ count + depth content = 0 := by
  induction text generalizing count content with
  | nil => simp [untilClosing?]
  | cons char text inductionHypothesis =>
    by_cases ends : char = ')' ∧ count = 0
    · obtain ⟨rfl, rfl⟩ := ends
      rw [untilClosing?]
      constructor
      · rintro ⟨⟩
        exact ⟨rfl, staysOpen_nil (Int.le_refl 0), rfl⟩
      · rintro ⟨spelt, opened, _⟩
        cases content with
        | nil => simpa using spelt
        | cons first content =>
          obtain ⟨rfl, _⟩ := List.cons.inj spelt
          have closed := (staysOpen_cons.mp opened).2 [] List.nil_prefix
          simp at closed
    · rw [untilClosing?_cons_of_ne ends, Option.map_eq_some_iff]
      have counted : (((count : Int) + depthAfter 0 char).toNat : Int) =
          count + depthAfter 0 char := by
        refine Int.toNat_of_nonneg ?_
        by_cases closing : char = ')'
        · have positive : count ≠ 0 := fun zero => ends ⟨closing, zero⟩
          rw [closing, depthAfter_closing]
          omega
        · unfold depthAfter
          split <;> omega
      constructor
      · rintro ⟨⟨content, after⟩, found, equal⟩
        obtain ⟨rfl, rfl⟩ : char :: content = _ ∧ after = rest := by simpa using equal
        obtain ⟨rfl, opened, closed⟩ := inductionHypothesis.mp found
        rw [counted] at opened closed
        refine ⟨rfl, staysOpen_cons.mpr ⟨Int.natCast_nonneg count, opened⟩, ?_⟩
        rw [depth_cons]
        omega
      · rintro ⟨spelt, opened, closed⟩
        cases content with
        | nil =>
          obtain ⟨rfl, _⟩ := List.cons.inj spelt
          rw [depth_nil] at closed
          exact absurd ⟨rfl, by omega⟩ ends
        | cons first content =>
          obtain ⟨rfl, behind⟩ : char = first ∧ text = content ++ ')' :: rest := by
            simpa using spelt
          refine ⟨(content, rest), inductionHypothesis.mpr ⟨behind, ?_, ?_⟩, rfl⟩
          · rw [counted]
            exact (staysOpen_cons.mp opened).2
          · rw [depth_cons] at closed
            omega

/-- What a reference's parentheses hold is balanced, and the reader finds it whole. -/
theorem untilClosing?_zero_eq_some_iff {text content rest : Text} :
    untilClosing? 0 text = some (content, rest) ↔
      text = content ++ ')' :: rest ∧ Balanced content := by
  rw [untilClosing?_eq_some_iff]
  refine and_congr_right fun _ => ⟨fun ⟨opened, closed⟩ => ⟨opened, by simpa using closed⟩,
    fun balanced => ⟨balanced.staysOpen, by simpa using balanced.depth_eq_zero⟩⟩

end Variable

end AtomicCss
