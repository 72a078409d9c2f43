/-
This file relates several transformations to each other. What is transformed are the declarations
that the settings do not ignore, so a style may be restricted to these beforehand, and nothing that
happens to the others is seen in the output. Every declaration is then transformed on its own, so
the output of two styles one behind the other is put together from the outputs of the two.

Joining does the same to lists that stand one behind the other, except where one of them is empty:
there no separator may be left over. A line of a style sheet is never empty, and the classes that
are empty are dropped before they are joined.
-/

import AtomicCss.Proofs.Runs
import AtomicCss.Transformation

namespace AtomicCss

/-! ### Joining two texts -/

namespace Text

/-- Two texts with a separator between them. A text that is empty brings no separator. -/
def joinPresent (separator : Char) (first second : Text) : Text :=
  if first = [] then second
  else if second = [] then first
  else first ++ separator :: second

theorem join_append_of_ne_nil (separator : Char) {first second : List Text}
    (someFirst : first ≠ []) (someSecond : second ≠ []) :
    join [separator] (first ++ second) =
      join [separator] first ++ separator :: join [separator] second := by
  induction first with
  | nil => exact absurd rfl someFirst
  | cons part first inductionHypothesis =>
    cases first with
    | nil =>
      obtain ⟨next, more, rfl⟩ := List.exists_cons_of_ne_nil someSecond
      rw [List.singleton_append, join_cons_cons, join_singleton]
    | cons next first =>
      have behind := inductionHypothesis (List.cons_ne_nil next first)
      rw [List.cons_append] at behind
      rw [List.cons_append, List.cons_append, join_cons_cons, join_cons_cons, behind,
        List.append_assoc, List.cons_append]

/-- Parts that are not empty may be joined in two lists first. -/
theorem join_append (separator : Char) {first second : List Text}
    (full : ∀ part ∈ first, part ≠ []) (full' : ∀ part ∈ second, part ≠ []) :
    join [separator] (first ++ second) =
      joinPresent separator (join [separator] first) (join [separator] second) := by
  by_cases noFirst : first = []
  · rw [noFirst]
    rfl
  · by_cases noSecond : second = []
    · rw [noSecond, List.append_nil, joinPresent, if_neg (mt (join_eq_nil_iff full).mp noFirst)]
      exact (if_pos rfl).symm
    · rw [joinPresent, if_neg (mt (join_eq_nil_iff full).mp noFirst),
        if_neg (mt (join_eq_nil_iff full').mp noSecond)]
      exact join_append_of_ne_nil separator noFirst noSecond

end Text

/-! ### Parts of a style -/

namespace Style

theorem eq_of_declarations_eq {first second : Style}
    (same : first.declarations = second.declarations) : first = second := by
  cases first
  cases second
  cases same
  rfl

/-- The declarations of the properties that are kept, in their order. -/
def restrict (style : Style) (keeps : Text → Bool) : Style :=
  ⟨style.declarations.filter fun declaration => keeps declaration.property,
    style.nodup.sublist (List.filter_sublist.map Declaration.property)⟩

/-- The style without the properties that the settings ignore. -/
def without (style : Style) (settings : Settings) : Style :=
  style.restrict fun property => !settings.isIgnored property

/-- The style without one property. -/
def erase (style : Style) (property : Text) : Style :=
  style.restrict (· != property)

/-- What a property is set to does not matter where the property is not kept. -/
theorem restrict_insert (style : Style) {keeps : Text → Bool} {property : Text}
    (dropped : keeps property = false) (value : Text) :
    (style.insert property value).restrict keeps = style.restrict keeps := by
  refine eq_of_declarations_eq ?_
  unfold insert
  split
  · have others (declarations : List Declaration) :
        (declarations.map (replaceValue property value)).filter
            (fun declaration => keeps declaration.property) =
          declarations.filter fun declaration => keeps declaration.property := by
      induction declarations with
      | nil => rfl
      | cons declaration declarations inductionHypothesis =>
        by_cases same : declaration.property = property
        · rw [List.map_cons, List.filter_cons_of_neg (by simp [same, dropped]),
            List.filter_cons_of_neg (by simp [same, dropped]), inductionHypothesis]
        · rw [List.map_cons, replaceValue, if_neg same, List.filter_cons, List.filter_cons,
            inductionHypothesis]
    exact others style.declarations
  · have new : [Declaration.mk property value].filter
        (fun declaration => keeps declaration.property) = [] :=
      List.filter_cons_of_neg (by simp [dropped])
    exact (List.filter_append _ _).trans (by rw [new, List.append_nil]; rfl)

theorem restrict_erase (style : Style) {keeps : Text → Bool} {property : Text}
    (dropped : keeps property = false) :
    (style.erase property).restrict keeps = style.restrict keeps := by
  refine eq_of_declarations_eq ?_
  show (style.declarations.filter _).filter _ = style.declarations.filter _
  rw [List.filter_filter]
  refine List.filter_congr fun declaration _ => ?_
  by_cases same : declaration.property = property
  · rw [same, dropped, Bool.false_and]
  · have other : (declaration.property != property) = true := bne_iff_ne.mpr same
    exact (congrArg (keeps declaration.property && ·) other).trans (Bool.and_true _)

/-- No property is in both styles. -/
def Disjoint (first second : Style) : Prop :=
  ∀ declaration ∈ first.declarations, ∀ declaration' ∈ second.declarations,
    declaration.property ≠ declaration'.property

instance (first second : Style) : Decidable (first.Disjoint second) :=
  inferInstanceAs (Decidable (∀ declaration ∈ first.declarations,
    ∀ declaration' ∈ second.declarations, declaration.property ≠ declaration'.property))

/-- The declarations of one style and behind them those of another. -/
def append (first second : Style) (disjoint : first.Disjoint second) : Style :=
  ⟨first.declarations ++ second.declarations, by
    rw [List.map_append, List.nodup_append]
    refine ⟨first.nodup, second.nodup, ?_⟩
    intro property inFirst property' inSecond
    obtain ⟨declaration, member, rfl⟩ := List.mem_map.mp inFirst
    obtain ⟨declaration', member', rfl⟩ := List.mem_map.mp inSecond
    exact disjoint declaration member declaration' member'⟩

end Style

/-! ### Several transformations -/

/-- Two style sheets, and two lists of classes, one behind the other. -/
def AtomicOutput.append (first second : AtomicOutput) : AtomicOutput where
  cssCode := Text.joinPresent '\n' first.cssCode second.cssCode
  classList := Text.joinPresent ' ' first.classList second.classList

namespace Transformer

theorem outputOf_append (first second : List Prepared) (lead : Text) :
    outputOf (first ++ second) lead = (outputOf first lead).append (outputOf second lead) := by
  have someLines (prepared : List Prepared) :
      ∀ line ∈ prepared.map (fun each => each.declaration.cssLine), line ≠ [] := by
    intro line listed
    obtain ⟨each, _, rfl⟩ := List.mem_map.mp listed
    exact List.append_ne_nil_of_right_ne_nil _ (List.cons_ne_nil ';' [])
  have someClasses (prepared : List Prepared) :
      ∀ part ∈ ((prepared.map Prepared.finish).filter (!·.isEmpty)).map (lead ++ ·),
        part ≠ [] := by
    intro part listed
    obtain ⟨fragment, member, rfl⟩ := List.mem_map.mp listed
    have full : fragment ≠ [] := by simpa using (List.mem_filter.mp member).2
    exact List.append_ne_nil_of_right_ne_nil lead full
  simp only [outputOf, AtomicOutput.append, List.map_append, List.filter_append]
  rw [Text.join_append '\n' (someLines first) (someLines second),
    Text.join_append ' ' (someClasses first) (someClasses second)]

variable (transformer : Transformer)

/-- Restricting the style does what the settings do. -/
theorem prepare_without (style : Style) (isRem : Bool) :
    (transformer.withSettings Settings.empty).prepare (style.without transformer.settings) isRem =
      transformer.prepare style isRem := by
  have nothing : ∀ declaration ∈ (style.without transformer.settings).declarations,
      (!Settings.empty.isIgnored declaration.property) = true := fun _ _ => rfl
  show List.map _ (List.filter (fun declaration =>
    !Settings.empty.isIgnored declaration.property) _) = _
  rw [List.filter_eq_self.mpr nothing]
  rfl

theorem prepare_append {first second : Style} (disjoint : first.Disjoint second) (isRem : Bool) :
    transformer.prepare (first.append second disjoint) isRem =
      transformer.prepare first isRem ++ transformer.prepare second isRem := by
  simp only [prepare, Style.append, List.filter_append, List.map_append]

variable (options : TransformOptions)

theorem transform_without (style : Style) :
    transformer.transform style options =
      (transformer.withSettings Settings.empty).transform (style.without transformer.settings)
        options := by
  rw [transform, transform, prepare_without]

/-- Styles that differ in ignored properties alone have the same output. -/
theorem transform_congr {style style' : Style}
    (same : style.without transformer.settings = style'.without transformer.settings) :
    transformer.transform style options = transformer.transform style' options := by
  rw [transform_without, same, ← transform_without]

theorem transform_append {first second : Style} (disjoint : first.Disjoint second) :
    transformer.transform (first.append second disjoint) options =
      (transformer.transform first options).append (transformer.transform second options) := by
  rw [transform, prepare_append, outputOf_append]
  rfl

/-- A transformation sees a style through the properties that are not ignored, so setting an ignored
one or taking it out goes unseen; and it takes styles that stand one behind the other one by one. -/
theorem transform_compositional :
    (∀ style : Style,
      transformer.transform style options =
        (transformer.withSettings Settings.empty).transform (style.without transformer.settings)
          options) ∧
    (∀ style style' : Style,
      style.without transformer.settings = style'.without transformer.settings →
        transformer.transform style options = transformer.transform style' options) ∧
    (∀ (style : Style) (property : Text), transformer.settings.isIgnored property = true →
      (∀ value, transformer.transform (style.insert property value) options =
        transformer.transform style options) ∧
      transformer.transform (style.erase property) options =
        transformer.transform style options) ∧
    ∀ (first second : Style) (disjoint : first.Disjoint second),
      transformer.transform (first.append second disjoint) options =
        (transformer.transform first options).append (transformer.transform second options) := by
  refine ⟨transformer.transform_without options, fun _ _ => transformer.transform_congr options,
    fun style property isIgnored => ?_, fun _ _ => transformer.transform_append options⟩
  have dropped : (!transformer.settings.isIgnored property) = false := by rw [isIgnored]; rfl
  exact ⟨fun value => transformer.transform_congr options (style.restrict_insert dropped value),
    transformer.transform_congr options (style.restrict_erase dropped)⟩

/-- Of a layout, a position and a font the first two are seen, one behind the other. -/
theorem transform_grid_fixed :
    ∃ disjoint : (Style.ofList [("display".toList, "grid".toList)]).Disjoint
        (Style.ofList [("position".toList, "fixed".toList)]),
      builtIn.transform (((Style.ofList [("display".toList, "grid".toList)]).append
          (Style.ofList [("position".toList, "fixed".toList)]) disjoint).insert
            "font-family".toList "Inter".toList) ⟨false, []⟩ =
        ⟨"display: grid;\nposition: fixed;".toList, "grid fixed".toList⟩ := by
  have disjoint : (Style.ofList [("display".toList, "grid".toList)]).Disjoint
      (Style.ofList [("position".toList, "fixed".toList)]) := by decide
  have isIgnored : builtIn.settings.isIgnored "font-family".toList = true := by decide
  obtain ⟨_, _, unseen, oneByOne⟩ := transform_compositional builtIn ⟨false, []⟩
  refine ⟨disjoint, ((unseen _ _ isIgnored).1 _).trans ((oneByOne _ _ disjoint).trans ?_)⟩
  decide +kernel

end Transformer

end AtomicCss
