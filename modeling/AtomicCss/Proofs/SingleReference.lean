/-
This file reads a value that is one reference and nothing else. What its parentheses hold is
balanced, so the reference is the only piece of the value; its name is what precedes the first
comma, and its fallback what follows it, both without the blanks around them. Filling in the
fallback then leaves the fallback alone, and without one the value stays as it was written.
-/

import AtomicCss.Proofs.Preparation
import AtomicCss.Proofs.ReferenceSpans

namespace AtomicCss

namespace Variable

/-! ### The first comma -/

/-- A comma outside parentheses, if there is none in the start of a text, is looked for behind it
with the parentheses counted that the start leaves open. -/
theorem splitComma?_append {count : Int} {lead : Text}
    (inside : ∀ before behind, lead = before ++ ',' :: behind → count + Text.depth before ≠ 0)
    (rest : Text) :
    splitComma? count (lead ++ rest) =
      (splitComma? (count + Text.depth lead) rest).map fun (name, after) =>
        (lead ++ name, after) := by
  induction lead generalizing count with
  | nil => simp
  | cons char lead inductionHypothesis =>
    have goesOn : ¬ (char = ',' ∧ count = 0) := by
      rintro ⟨rfl, rfl⟩
      exact inside [] lead rfl rfl
    have counted : depthAfter count char + Text.depth lead = count + Text.depth (char :: lead) := by
      rw [Text.depthAfter_eq_add, Text.depth_cons, Int.add_assoc]
    have further : ∀ before behind, lead = before ++ ',' :: behind →
        depthAfter count char + Text.depth before ≠ 0 := by
      intro before behind spelt
      rw [Text.depthAfter_eq_add, Int.add_assoc, ← Text.depth_cons]
      exact inside (char :: before) behind (by rw [spelt, List.cons_append])
    rw [List.cons_append, splitComma?, if_neg goesOn, inductionHypothesis further,
      Option.map_map, counted]
    rfl

theorem splitComma?_eq_none {text : Text} (noComma : ',' ∉ text) (depth : Int) :
    splitComma? depth text = none := by
  have inside : ∀ before behind, text = before ++ ',' :: behind →
      depth + Text.depth before ≠ 0 :=
    fun before behind spelt => absurd (by simp [spelt]) noComma
  simpa [splitComma?] using splitComma?_append inside []

theorem splitComma?_eq_some {count : Int} {text name fallback : Text}
    (split : splitComma? count text = some (name, fallback)) :
    text = name ++ ',' :: fallback ∧ count + Text.depth name = 0 := by
  induction text generalizing count name with
  | nil => cases split
  | cons char text inductionHypothesis =>
    rw [splitComma?] at split
    split at split
    · next comma =>
      obtain ⟨rfl, rfl⟩ := Prod.mk.inj (Option.some.inj split)
      exact ⟨by rw [comma.1, List.nil_append], by rw [comma.2, Text.depth_nil, Int.add_zero]⟩
    · obtain ⟨⟨name', fallback'⟩, split', same⟩ := Option.map_eq_some_iff.mp split
      obtain ⟨rfl, rfl⟩ := Prod.mk.inj same
      obtain ⟨rfl, closed⟩ := inductionHypothesis split'
      refine ⟨rfl, ?_⟩
      rw [Text.depth_cons, ← Int.add_assoc, ← Text.depthAfter_eq_add]
      exact closed

/-- What follows a comma outside parentheses is balanced if the whole is. -/
theorem balanced_of_splitComma? {content name fallback : Text} (balanced : content.Balanced)
    (split : splitComma? 0 content = some (name, fallback)) : fallback.Balanced := by
  obtain ⟨rfl, closed⟩ := splitComma?_eq_some split
  have depth_eq : Text.depth (name ++ [',']) = 0 := by
    rw [Text.depth_append, ← Int.zero_add (Text.depth name), closed]
    rfl
  have spelt : name ++ ',' :: fallback = name ++ [','] ++ fallback := by simp
  rw [spelt] at balanced
  exact (balanced.of_append depth_eq).2

/-! ### One reference -/

section Reference

variable {content : Text} (balanced : Text.Balanced content)

include balanced in
/-- The reader takes the reference, whatever stands around it. -/
theorem matcher_reference (before : Option Char) (rest : Text) :
    matcher before (opening ++ content ++ [')'] ++ rest) =
      some (opening ++ content ++ [')'], .reference content) := by
  have closing : untilClosing? 0 (content ++ ')' :: rest) = some (content, rest) :=
    untilClosing?_zero_eq_some_iff.mpr ⟨rfl, balanced⟩
  have found : Text.after? opening (opening ++ content ++ [')'] ++ rest) =
      some (content ++ ')' :: rest) :=
    Text.after?_eq_some_iff.mpr (by simp)
  rw [matcher, found]
  simp only [Option.bind_eq_bind, Option.bind_some, closing]

include balanced in
/-- The reference is the only piece of the value. -/
theorem pieces_reference :
    pieces (opening ++ content ++ [')']) =
      [.matched (opening ++ content ++ [')']) (.reference content)] := by
  have nonempty : opening ++ content ++ [')'] ≠ [] := by simp
  have cut := Matcher.piecesFrom_append_of_taken nonempty (matcher_reference balanced none [])
  rw [List.append_nil] at cut
  rw [pieces, Matcher.pieces, cut]
  rfl

include balanced in
theorem uses_reference :
    ∃ stop, uses (opening ++ content ++ [')']) = [useOf content 0 stop] := by
  refine ⟨0 + Text.byteLength (opening ++ content ++ [')']), ?_⟩
  rw [uses, pieces_reference balanced]
  rfl

include balanced in
theorem resolve_reference :
    resolve (opening ++ content ++ [')']) =
      ((fallbackOf content).filter (!·.isEmpty)).getD (opening ++ content ++ [')']) := by
  rw [resolve, pieces_reference balanced, List.flatMap_singleton]
  rfl

end Reference

theorem trimmed_reference (content : Text) : Text.Trimmed (opening ++ content ++ [')']) := by
  refine ⟨rfl, ?_⟩
  rw [List.reverse_concat]
  rfl

theorem not_mem_reference {content : Text} {char : Char} (absent : char ∉ content)
    (other : char ∉ opening ++ [')']) : char ∉ opening ++ content ++ [')'] := by
  simp only [List.mem_append, not_or] at other ⊢
  exact ⟨⟨other.1, absent⟩, other.2⟩

/-! ### Names and fallbacks -/

theorem balanced_of_blank {blanks : Text} (blank : ∀ char ∈ blanks, isBlank char = true) :
    blanks.Balanced := by
  refine Text.balanced_of_forall_ne fun char member => ⟨?_, ?_⟩
  · rintro rfl
    cases blank _ member
  · rintro rfl
    cases blank _ member

/-- Blanks in front of a text and behind it. -/
structure Padding where
  lead : Text
  trail : Text
  lead_blank : ∀ char ∈ lead, isBlank char = true
  trail_blank : ∀ char ∈ trail, isBlank char = true

namespace Padding

def around (padding : Padding) (text : Text) : Text :=
  padding.lead ++ text ++ padding.trail

theorem trim_around (padding : Padding) {text : Text} (trimmed : text.Trimmed) :
    (padding.around text).trim = text :=
  trimmed.trim_append padding.lead_blank padding.trail_blank

theorem mem_around {padding : Padding} {text : Text} {char : Char}
    (member : char ∈ padding.around text) : isBlank char = true ∨ char ∈ text := by
  rcases List.mem_append.mp member with inFront | inTrail
  · rcases List.mem_append.mp inFront with inLead | inText
    · exact Or.inl (padding.lead_blank char inLead)
    · exact Or.inr inText
  · exact Or.inl (padding.trail_blank char inTrail)

theorem not_mem_around (padding : Padding) {text : Text} {char : Char}
    (notBlank : isBlank char = false) (absent : char ∉ text) : char ∉ padding.around text := by
  intro member
  rcases mem_around member with blank | inText
  · rw [notBlank] at blank
    cases blank
  · exact absent inText

theorem compact_around (padding : Padding) (text : Text) :
    (padding.around text).compact = text.compact := by
  have dropped {blanks : Text} (blank : ∀ char ∈ blanks, isBlank char = true) :
      blanks.filter (!isBlank ·) = [] := by
    rw [List.filter_eq_nil_iff]
    intro char member
    simp [blank char member]
  rw [around, Text.compact, List.filter_append, List.filter_append, dropped padding.lead_blank,
    dropped padding.trail_blank, List.nil_append, List.append_nil]
  rfl

theorem balanced_around (padding : Padding) {text : Text} (balanced : text.Balanced) :
    (padding.around text).Balanced :=
  ((balanced_of_blank padding.lead_blank).append balanced).append
    (balanced_of_blank padding.trail_blank)

end Padding

/-- A reference to a variable, with blanks around its name. -/
def Padding.reference (padding : Padding) (name : Text) : Text :=
  opening ++ padding.around name ++ [')']

/-- A reference with a fallback, with blanks around this as well. -/
def Padding.referenceOr (padding : Padding) (name : Text) (padding' : Padding) (fallback : Text) :
    Text :=
  opening ++ (padding.around name ++ ',' :: padding'.around fallback) ++ [')']

/-- A name that a reference gives back: no blanks around it, parentheses in pairs, and every comma
within parentheses. -/
structure IsName (name : Text) : Prop where
  trimmed : name.Trimmed
  balanced : name.Balanced
  commas : ∀ before behind, name = before ++ ',' :: behind → Text.depth before ≠ 0

theorem isName_of_forall_ne {name : Text} (trimmed : name.Trimmed)
    (flat : ∀ char ∈ name, char ≠ ',' ∧ char ≠ '(' ∧ char ≠ ')') : IsName name where
  trimmed := trimmed
  balanced := Text.balanced_of_forall_ne fun char member => (flat char member).2
  commas := fun _ _ spelt => absurd rfl (flat ',' (by simp [spelt])).1

/-- The first comma outside parentheses is not in a name, nor in the blanks around it. -/
theorem splitComma?_around (padding : Padding) {name : Text} (isName : IsName name) (rest : Text) :
    splitComma? 0 (padding.around name ++ rest) =
      (splitComma? 0 rest).map fun (lead, after) => (padding.around name ++ lead, after) := by
  have passes {lead : Text} (isName : IsName lead) (rest : Text) :
      splitComma? 0 (lead ++ rest) =
        (splitComma? 0 rest).map fun (name, after) => (lead ++ name, after) := by
    rw [splitComma?_append (by simpa using isName.commas), isName.balanced.depth_eq_zero,
      Int.add_zero]
  have passesBlanks {blanks : Text} (blank : ∀ char ∈ blanks, isBlank char = true) (rest : Text) :
      splitComma? 0 (blanks ++ rest) =
        (splitComma? 0 rest).map fun (name, after) => (blanks ++ name, after) := by
    have other {char : Char} (member : char ∈ blanks) : char ≠ ',' ∧ char ≠ '(' ∧ char ≠ ')' := by
      refine ⟨?_, ?_, ?_⟩ <;> (rintro rfl; cases blank _ member)
    have depth_eq := (Text.balanced_of_forall_ne fun _ member => (other member).2).depth_eq_zero
    rw [splitComma?_append (fun _ _ spelt => absurd rfl (other (by simp [spelt])).1), depth_eq,
      Int.add_zero]
  rw [Padding.around, List.append_assoc, List.append_assoc, passesBlanks padding.lead_blank,
    passes isName, passesBlanks padding.trail_blank, Option.map_map, Option.map_map]
  simp [Function.comp_def]

/-- The content of a reference without a fallback. -/
theorem useOf_around (padding : Padding) {name : Text} (isName : IsName name) (start stop : Nat) :
    useOf (padding.around name) start stop = ⟨name, none, start, stop⟩ := by
  have split : splitComma? 0 (padding.around name) = none := by
    simpa [splitComma?] using splitComma?_around padding isName []
  simp only [useOf, nameOf, fallbackOf, split, padding.trim_around isName.trimmed, Option.map_none]

/-- The content of a reference with a fallback. -/
theorem useOf_around_fallback (padding padding' : Padding) {name fallback : Text}
    (isName : IsName name) (trimmed : fallback.Trimmed) (start stop : Nat) :
    useOf (padding.around name ++ ',' :: padding'.around fallback) start stop =
      ⟨name, some fallback, start, stop⟩ := by
  have split : splitComma? 0 (padding.around name ++ ',' :: padding'.around fallback) =
      some (padding.around name, padding'.around fallback) := by
    rw [splitComma?_around padding isName]
    simp [splitComma?]
  simp only [useOf, nameOf, fallbackOf, split, padding.trim_around isName.trimmed,
    padding'.trim_around trimmed, Option.map_some]

end Variable

end AtomicCss
