/-
This file follows a declaration through its preparation as far as nothing happens to it. A value
without a star has no comment, and one without an opening of a reference has no reference, so both
pass these stages as they are. A declaration whose property stands in one of the tables is read
back from its text as it was written, and the table alone decides the kind of its class.
-/

import AtomicCss.Proofs.CommentPairs
import AtomicCss.Proofs.NumberPasses
import AtomicCss.Transformation

namespace AtomicCss

/-! ### Occurrences -/

namespace Text

theorem contains_eq_true_iff {needle text : Text} :
    contains needle text = true ↔ needle <:+: text := by
  induction text with
  | nil => rw [contains, List.isEmpty_iff, List.infix_nil]
  | cons char text inductionHypothesis =>
    rw [contains, Bool.or_eq_true, inductionHypothesis, List.infix_cons_iff,
      Option.isSome_iff_exists]
    refine or_congr_left (exists_congr fun rest => ?_)
    rw [after?_eq_some_iff, eq_comm]

end Text

/-! ### References -/

namespace Variable

/-- The reader takes nothing where no reference opens. -/
theorem silent_of_not_leading {before : Option Char} {text : Text}
    (notLeading : ¬ opening <+: text) : matcher.Silent before text := by
  refine Matcher.silent_of_eq_none ?_
  rw [matcher, Text.after?_eq_none_iff.mpr notLeading]
  rfl

theorem opening_eq : opening = ['v', 'a', 'r', '('] := rfl

/-- An opening does not begin in front of another one and end in it. -/
theorem prefix_of_prefix_append {char : Char} {lead rest : Text}
    (leads : opening <+: char :: (lead ++ (opening ++ rest))) : opening <+: char :: lead := by
  rw [opening_eq] at leads ⊢
  obtain ⟨more, spelt⟩ := leads
  obtain ⟨rfl, inside⟩ : 'v' = char ∧ ['a', 'r', '('] ++ more = lead ++ ('v' :: _) :=
    List.cons.inj spelt
  rcases List.append_eq_append_iff.mp inside with ⟨between, rfl, _⟩ | ⟨within, letters, behind⟩
  · exact ⟨between, rfl⟩
  · cases within with
    | nil => exact ⟨[], by rw [List.append_nil, letters, List.append_nil]⟩
    | cons first within =>
      obtain ⟨rfl, _⟩ := List.cons.inj behind
      have absent : 'v' ∉ ['a', 'r', '('] := by decide
      exact absurd (by rw [letters]; simp) absent

theorem pieces_eq_map_copied {value : Text} (absent : ¬ opening <:+: value) :
    pieces value = value.map .copied := by
  refine Matcher.piecesFrom_eq_map_copied (Matcher.silentOver_of_forall ?_ none)
  intro before char rest suffix
  rw [List.append_nil] at suffix
  exact silent_of_not_leading fun leads => absent (leads.isInfix.trans suffix.isInfix)

/-- A value in which no reference opens has none. -/
theorem uses_eq_nil {value : Text} (absent : ¬ opening <:+: value) : uses value = [] := by
  rw [uses, pieces_eq_map_copied absent]
  generalize 0 = start
  induction value generalizing start with
  | nil => rfl
  | cons char value inductionHypothesis =>
    have behind : ¬ opening <:+: value := fun found => absent (List.infix_cons found)
    exact inductionHypothesis behind _

theorem resolve_eq_self {value : Text} (absent : ¬ opening <:+: value) : resolve value = value := by
  rw [resolve, pieces_eq_map_copied absent, List.flatMap_map]
  exact List.flatMap_singleton' value

end Variable

/-! ### Reading a declaration back -/

namespace BuiltIn

theorem splitColon?_append {lead rest : Text} (noColon : ':' ∉ lead) :
    splitColon? (lead ++ ':' :: rest) = some (lead, rest) := by
  induction lead with
  | nil => rfl
  | cons char lead inductionHypothesis =>
    have different : char ≠ ':' := fun same => noColon (by simp [same])
    have behind := inductionHypothesis fun member => noColon (List.mem_cons_of_mem char member)
    simp [splitColon?, behind]

theorem splitImportant_eq_of_not_suffix {value : Text} (unmarked : ¬ importantMark <:+ value) :
    splitImportant value = (value, false) := by
  have absent : Text.before? importantMark value = none := by
    rw [Option.eq_none_iff_forall_ne_some]
    intro rest found
    exact unmarked ⟨rest, (Text.before?_eq_some_iff.mp found).symm⟩
  simp only [splitImportant, absent]

/-- A value without the first character of the mark does not have the mark. -/
theorem not_suffix_of_not_mem {value : Text} (noMark : '!' ∉ value) : ¬ importantMark <:+ value :=
  fun marked => noMark (marked.subset (by decide))

/-- A name of a property as the tables have it: small letters without blanks around them. -/
structure PlainName (property : Text) : Prop where
  nonempty : property ≠ []
  noColon : ':' ∉ property
  same : property.trim.lowerAscii = property

/-- The class of a declaration with a plain name and a trimmed value is decided by these two. -/
theorem best_generate {property value : Text} (plain : PlainName property)
    (trimmed : value.Trimmed) (nonempty : value ≠ []) (unmarked : ¬ importantMark <:+ value)
    (isRem : Bool) :
    Generator.best generate (Declaration.text ⟨property, value⟩) isRem =
      classOf property value isRem := by
  have split : splitColon? (Declaration.text ⟨property, value⟩) =
      some (property, ' ' :: value) := by
    rw [Declaration.text, List.append_assoc]
    exact splitColon?_append plain.noColon
  have behind : Text.trim (' ' :: value) = value := by
    have blank : ∀ char ∈ [' '], isBlank char = true := by decide
    have noBlanks : ∀ char ∈ ([] : Text), isBlank char = true := by simp
    simpa using trimmed.trim_append blank noBlanks
  have generated : generate (Declaration.text ⟨property, value⟩) isRem =
      [classOf property value isRem] := by
    simp [generate, split, behind, splitImportant_eq_of_not_suffix unmarked, plain.same,
      plain.nonempty, nonempty]
  rw [Generator.best, generated]
  rfl

/-! ### Kinds of properties -/

theorem kind_of_mem_lengthStems {property stem : Text}
    (listed : (property, stem) ∈ Property.lengthStems) :
    PlainName property ∧ Property.kind property = .length stem := by
  have each : ∀ row ∈ Property.lengthStems,
      (row.1 ≠ [] ∧ ':' ∉ row.1 ∧ row.1.trim.lowerAscii = row.1) ∧
        Property.keywordClasses.lookup row.1 = none ∧ Property.borderStems.lookup row.1 = none ∧
          Property.lengthStems.lookup row.1 = some row.2 := by
    decide +kernel
  obtain ⟨⟨nonempty, noColon, same⟩, noKeyword, noBorder, found⟩ := each _ listed
  exact ⟨⟨nonempty, noColon, same⟩, by simp only [Property.kind, noKeyword, noBorder, found]⟩

theorem kind_of_mem_borderStems {property stem : Text}
    (listed : (property, stem) ∈ Property.borderStems) :
    PlainName property ∧ Property.kind property = .border stem := by
  have each : ∀ row ∈ Property.borderStems,
      (row.1 ≠ [] ∧ ':' ∉ row.1 ∧ row.1.trim.lowerAscii = row.1) ∧
        Property.keywordClasses.lookup row.1 = none ∧
          Property.borderStems.lookup row.1 = some row.2 := by
    decide +kernel
  obtain ⟨⟨nonempty, noColon, same⟩, noKeyword, found⟩ := each _ listed
  exact ⟨⟨nonempty, noColon, same⟩, by simp only [Property.kind, noKeyword, found]⟩

theorem kind_of_mem_colorStems {property stem : Text}
    (listed : (property, stem) ∈ Property.colorStems) :
    PlainName property ∧ Property.kind property = .color stem := by
  have each : ∀ row ∈ Property.colorStems,
      (row.1 ≠ [] ∧ ':' ∉ row.1 ∧ row.1.trim.lowerAscii = row.1) ∧
        Property.keywordClasses.lookup row.1 = none ∧ Property.borderStems.lookup row.1 = none ∧
          Property.lengthStems.lookup row.1 = none ∧
            Property.colorStems.lookup row.1 = some row.2 := by
    decide +kernel
  obtain ⟨⟨nonempty, noColon, same⟩, noKeyword, noBorder, noLength, found⟩ := each _ listed
  exact ⟨⟨nonempty, noColon, same⟩,
    by simp only [Property.kind, noKeyword, noBorder, noLength, found]⟩

end BuiltIn

/-! ### What a declaration is prepared to -/

namespace Declaration

variable (declaration : Declaration) (isRem : Bool) (generator : Generator)

theorem hasPx_prepare : (prepare declaration isRem generator).hasPx =
    Text.contains "px".toList (prepare declaration isRem generator).resolved := by
  simp only [prepare]

theorem generated_prepare : (prepare declaration isRem generator).generated =
    generator.best (text ⟨declaration.property, (prepare declaration isRem generator).resolved⟩)
      isRem := by
  simp only [prepare]

theorem trimmed_resolved : (prepare declaration isRem generator).resolved.Trimmed := by
  simp only [prepare]
  exact Text.trimmed_trim _

end Declaration

/-! ### Plain declarations -/

/-- A value in which there is nothing for the preparation to do. -/
structure PlainValue (value : Text) : Prop where
  trimmed : value.Trimmed
  nonempty : value ≠ []
  noStar : '*' ∉ value
  noMark : '!' ∉ value
  noReference : ¬ Variable.opening <:+: value

/-- A plain value passes through the preparation as it is, and only the numbers of its class are
looked at when it is finished. -/
theorem Declaration.finish_prepare {property value : Text} (plain : BuiltIn.PlainName property)
    (plainValue : PlainValue value) (isRem : Bool) :
    (Declaration.prepare ⟨property, value⟩ isRem BuiltIn.generate).finish =
      ClassNumber.normalize (BuiltIn.classOf property value isRem)
        (Text.contains "px".toList value) := by
  have class_eq := BuiltIn.best_generate plain plainValue.trimmed plainValue.nonempty
    (BuiltIn.not_suffix_of_not_mem plainValue.noMark) isRem
  simp only [Declaration.prepare, Prepared.finish, Comment.strip_eq_self plainValue.noStar,
    plainValue.trimmed.trim_eq, Variable.resolve_eq_self plainValue.noReference,
    Variable.uses_eq_nil plainValue.noReference, class_eq]
  rfl

end AtomicCss
