/-
This file says when the lead that is put in front of the classes of a style reaches all of them. It
is put in front of each fragment, which is what one declaration is finished as, and a fragment that
holds a space is more than one class. So all classes are reached exactly if no fragment holds a
space. Which fragments do is decided when they are generated: a border with several parts does, and
a negative length that is copied with the spaces inside its parentheses. Finishing never puts a
space into a fragment, and takes one out only where a variable is written back.
-/

import AtomicCss.Proofs.GeneratedClasses
import AtomicCss.Proofs.TokenNames

namespace AtomicCss

/-! ### Classes in a list -/

/-- The classes of a list, which has one space between two of them. -/
def classNames (list : Text) : List Text :=
  if list = [] then [] else list.splitOn ' '

/-- Every class of the list starts with the lead, and the list without the leads is `bare`. -/
structure LeadsEveryClass (lead list bare : Text) : Prop where
  leads : ∀ name ∈ classNames list, lead <+: name
  rest_eq : Text.join [' '] ((classNames list).map (·.drop lead.length)) = bare

namespace Text

/-- A lead in front of each part is counted once for each. -/
theorem length_join_map_append (lead : Text) (separator : Char) {parts : List Text}
    (nonempty : parts ≠ []) :
    (join [separator] (parts.map (lead ++ ·))).length =
      (join [separator] parts).length + parts.length * lead.length := by
  induction parts with
  | nil => exact absurd rfl nonempty
  | cons part parts inductionHypothesis =>
    cases parts with
    | nil => simp [Nat.add_comm]
    | cons next parts =>
      have rest := inductionHypothesis (List.cons_ne_nil _ _)
      simp only [List.map_cons, join_cons_cons, List.length_append, List.length_cons,
        Nat.succ_mul] at rest ⊢
      omega

/-- Between two parts stands one separator, and the others are those of the parts. -/
theorem count_join (separator : Char) {parts : List Text} (nonempty : parts ≠ []) :
    (join [separator] parts).count separator + 1 =
      parts.length + parts.flatten.count separator := by
  induction parts with
  | nil => exact absurd rfl nonempty
  | cons part parts inductionHypothesis =>
    cases parts with
    | nil => simp [Nat.add_comm]
    | cons next parts =>
      have rest := inductionHypothesis (List.cons_ne_nil _ _)
      simp only [join_cons_cons, List.count_append, List.count_cons_self, List.flatten_cons,
        List.length_cons] at rest ⊢
      omega

end Text

theorem classNames_join {parts : List Text} (full : ∀ part ∈ parts, part ≠ [])
    (noSpace : ∀ part ∈ parts, ' ' ∉ part) : classNames (Text.join [' '] parts) = parts := by
  by_cases nothing : parts = []
  · rw [nothing]
    rfl
  · rw [classNames, if_neg fun empty => nothing ((Text.join_eq_nil_iff full).mp empty)]
    exact List.splitOn_intercalate ' ' noSpace nothing

theorem join_classNames (list : Text) : Text.join [' '] (classNames list) = list := by
  unfold classNames
  split
  · next empty =>
    rw [empty]
    rfl
  · exact List.intercalate_splitOn ' '

theorem space_not_mem_of_mem_classNames {list name : Text} (listed : name ∈ classNames list) :
    ' ' ∉ name := by
  unfold classNames at listed
  split at listed
  · cases listed
  · exact Text.not_mem_of_mem_splitOn listed

/-! ### Fragments -/

section Fragments

variable {lead : Text} (nonempty : lead ≠ []) (noSpace : ' ' ∉ lead) {fragments : List Text}
  (full : ∀ fragment ∈ fragments, fragment ≠ [])

include noSpace full in
/-- Fragments that are one class each have the lead one by one. -/
theorem leadsEveryClass_of_forall_not_mem (single : ∀ fragment ∈ fragments, ' ' ∉ fragment) :
    LeadsEveryClass lead (Text.join [' '] (fragments.map (lead ++ ·)))
      (Text.join [' '] fragments) := by
  have names : classNames (Text.join [' '] (fragments.map (lead ++ ·))) =
      fragments.map (lead ++ ·) := by
    refine classNames_join (fun part listed => ?_) fun part listed => ?_
    · obtain ⟨fragment, member, rfl⟩ := List.mem_map.mp listed
      exact List.append_ne_nil_of_right_ne_nil lead (full fragment member)
    · obtain ⟨fragment, member, rfl⟩ := List.mem_map.mp listed
      rw [List.mem_append, not_or]
      exact ⟨noSpace, single fragment member⟩
  refine ⟨fun name listed => ?_, ?_⟩
  · rw [names] at listed
    obtain ⟨fragment, _, rfl⟩ := List.mem_map.mp listed
    exact List.prefix_append lead fragment
  · have dropped : (fragments.map (lead ++ ·)).map (·.drop lead.length) = fragments := by
      rw [List.map_map]
      exact (List.map_congr_left fun fragment _ => List.drop_left).trans (List.map_id fragments)
    rw [names, dropped]

include nonempty in
/-- If every class has the lead, there are as many classes as fragments: the classes without their
leads make up the fragments without theirs, and each lead is as long as the other. -/
theorem length_classNames_of_leadsEveryClass (someFragments : fragments ≠ [])
    (leadsEvery : LeadsEveryClass lead (Text.join [' '] (fragments.map (lead ++ ·)))
      (Text.join [' '] fragments)) :
    (classNames (Text.join [' '] (fragments.map (lead ++ ·)))).length = fragments.length := by
  obtain ⟨leads, rest_eq⟩ := leadsEvery
  have joined := join_classNames (Text.join [' '] (fragments.map (lead ++ ·)))
  generalize classNames (Text.join [' '] (fragments.map (lead ++ ·))) = names at *
  have someNames : names ≠ [] := by
    rintro rfl
    have led : ∀ part ∈ fragments.map (lead ++ ·), part ≠ [] := by
      intro part listed
      obtain ⟨other, _, rfl⟩ := List.mem_map.mp listed
      exact List.append_ne_nil_of_left_ne_nil nonempty other
    exact someFragments (List.map_eq_nil_iff.mp ((Text.join_eq_nil_iff led).mp joined.symm))
  have restored : (names.map (·.drop lead.length)).map (lead ++ ·) = names := by
    rw [List.map_map]
    refine (List.map_congr_left fun name listed => ?_).trans (List.map_id names)
    exact (List.prefix_append_drop (leads name listed)).symm
  have ofNames := Text.length_join_map_append lead ' '
    (mt List.map_eq_nil_iff.mp someNames : names.map (·.drop lead.length) ≠ [])
  have ofFragments := Text.length_join_map_append lead ' ' someFragments
  rw [restored, rest_eq, List.length_map, joined, ofFragments] at ofNames
  have positive : 0 < lead.length := List.length_pos_of_ne_nil nonempty
  exact (Nat.eq_of_mul_eq_mul_right positive (Nat.add_left_cancel ofNames)).symm

include nonempty in
/-- The classes are told apart by all spaces of the list. If there are as many as fragments, the
fragments have no spaces of their own. -/
theorem not_mem_of_leadsEveryClass
    (leadsEvery : LeadsEveryClass lead (Text.join [' '] (fragments.map (lead ++ ·)))
      (Text.join [' '] fragments)) :
    ∀ fragment ∈ fragments, ' ' ∉ fragment := by
  intro fragment member space
  have someFragments : fragments ≠ [] := List.ne_nil_of_mem member
  have sameNumber := length_classNames_of_leadsEveryClass nonempty someFragments leadsEvery
  have joined := join_classNames (Text.join [' '] (fragments.map (lead ++ ·)))
  have noneInNames : ∀ name ∈ classNames (Text.join [' '] (fragments.map (lead ++ ·))),
      ' ' ∉ name := fun _ => space_not_mem_of_mem_classNames
  generalize classNames (Text.join [' '] (fragments.map (lead ++ ·))) = names at *
  have someNames : names ≠ [] := by
    rintro rfl
    exact someFragments (List.length_eq_zero_iff.mp sameNumber.symm)
  have spacesOfNames := Text.count_join ' ' someNames
  have spacesOfFragments := Text.count_join ' '
    (mt List.map_eq_nil_iff.mp someFragments : fragments.map (lead ++ ·) ≠ [])
  have noneBetween : names.flatten.count ' ' = 0 := by
    refine List.count_eq_zero.mpr fun inNames => ?_
    obtain ⟨name, listed, inName⟩ := List.mem_flatten.mp inNames
    exact noneInNames name listed inName
  have someWithin : 0 < (fragments.map (lead ++ ·)).flatten.count ' ' := by
    refine List.count_pos_iff.mpr (List.mem_flatten.mpr ⟨lead ++ fragment, ?_, ?_⟩)
    · exact List.mem_map_of_mem member
    · exact List.mem_append_right lead space
  rw [joined] at spacesOfNames
  rw [List.length_map] at spacesOfFragments
  omega

end Fragments

/-! ### Spaces that finishing keeps -/

namespace Text

theorem unbroken_of_isNameChar {text : Text} (isName : ∀ char ∈ text, isNameChar char = true) :
    Unbroken text := by
  intro char member
  have isName := isName char member
  rw [AtomicCss.isNameChar, Bool.or_eq_true, beq_iff_eq] at isName
  rcases isName with isWord | rfl
  · exact isBlank_of_isWordChar isWord
  · decide

end Text

namespace ClassNumber

theorem unbroken_of_mem_stems {scaling : Scaling} {stem : Text} (isStem : stem ∈ scaling.stems) :
    stem.Unbroken := by
  have each : ∀ stem ∈ scaling.stems, stem.Unbroken := by
    cases scaling <;> decide
  exact each stem isStem

/-- What a pass takes and what it writes are both without blanks. -/
structure Unbreaking (pass : Matcher Text) : Prop where
  faithful : pass.Faithful
  unbroken : ∀ before text source replacement, pass before text = some (source, replacement) →
    source.Unbroken ∧ replacement.Unbroken

theorem Scaling.unbreaking (scaling : Scaling) : Unbreaking scaling.pass where
  faithful := scaling.pass_faithful
  unbroken := by
    intro before text source replacement taken
    obtain ⟨stem, isStem, numeral, rest, scales⟩ := exists_scales_of_taken taken
    have stemUnbroken := unbroken_of_mem_stems isStem
    have read := BuiltIn.unbroken_of_isNumberText scales.wellFormed.isNumberText
    have written := BuiltIn.unbroken_of_isNumberText (isNumberText_quadrupled numeral)
    rw [scales.source_eq, scales.replacement_eq]
    exact ⟨Text.unbroken_append.mpr ⟨stemUnbroken, read⟩,
      Text.unbroken_append.mpr ⟨stemUnbroken, written⟩⟩

theorem Strips.unbroken {lead text source replacement written rest : Text} {numeral : Numeral}
    (strips : Strips lead numeral rest text source replacement written)
    (leadUnbroken : lead.Unbroken) (writtenUnbroken : written.Unbroken) :
    source.Unbroken ∧ replacement.Unbroken := by
  have read := BuiltIn.unbroken_of_isNumberText strips.wellFormed.isNumberText
  have unit : pixelUnit.Unbroken := by decide
  rw [strips.source_eq, strips.replacement_eq]
  exact ⟨Text.unbroken_append.mpr ⟨leadUnbroken, Text.unbroken_append.mpr ⟨read, unit⟩⟩,
    Text.unbroken_append.mpr ⟨leadUnbroken, writtenUnbroken⟩⟩

theorem unbreaking_paddingPixels : Unbreaking paddingPixels where
  faithful := paddingPixels_faithful
  unbroken := by
    intro before text source replacement taken
    obtain ⟨stem, isStem, numeral, rest, strips⟩ := exists_strips_of_paddingPixels taken
    exact strips.unbroken (unbroken_of_mem_stems isStem)
      (BuiltIn.unbroken_of_isNumberText (isNumberText_roundedText_one numeral))

theorem unbreaking_pixels : Unbreaking pixels where
  faithful := pixels_faithful
  unbroken := by
    intro before text source replacement taken
    obtain ⟨sign, isSign, numeral, rest, strips⟩ := exists_strips_of_pixels taken
    refine strips.unbroken ?_ (BuiltIn.unbroken_of_isNumberText strips.wellFormed.isNumberText)
    rcases isSign with rfl | rfl <;> decide

theorem unbreaking_bracketed : Unbreaking bracketed where
  faithful := bracketed_faithful
  unbroken := by
    intro before text source replacement taken
    obtain ⟨numeral, rest, wellFormed, _, rfl, rfl⟩ := bracketed_eq_some_iff.mp taken
    have read := BuiltIn.unbroken_of_isNumberText wellFormed.isNumberText
    exact ⟨BuiltIn.unbroken_inBrackets.mpr read, read⟩

theorem unbreaking_of_mem_passes {hasPx : Bool} {pass : Matcher Text}
    (listed : pass ∈ passes hasPx) : Unbreaking pass := by
  rcases eq_of_mem_passes listed with ⟨scaling, rfl⟩ | rfl | rfl | rfl
  · exact Scaling.unbreaking scaling
  · exact unbreaking_paddingPixels
  · exact unbreaking_pixels
  · exact unbreaking_bracketed

/-- The passes leave the blanks of a class where they are. -/
theorem mem_normalize_iff (name : Text) (hasPx : Bool) {char : Char} (blank : isBlank char = true) :
    char ∈ normalize name hasPx ↔ char ∈ name := by
  have all : ∀ pass ∈ passes hasPx, Unbreaking pass := fun _ => unbreaking_of_mem_passes
  rw [normalize]
  generalize passes hasPx = passes at all ⊢
  induction passes generalizing name with
  | nil => rfl
  | cons pass passes inductionHypothesis =>
    obtain ⟨faithful, unbroken⟩ := all pass List.mem_cons_self
    have others := inductionHypothesis (pass.replaceAll name) fun other listed =>
      all other (List.mem_cons_of_mem pass listed)
    rw [List.foldl_cons]
    refine others.trans ?_
    rw [Matcher.replaceAll_eq_sweep]
    refine ⟨Matcher.mem_of_mem_sweep fun _ _ _ _ taken => ?_,
      Matcher.mem_sweep_of_mem faithful fun _ _ _ _ taken => ?_⟩
    · exact (unbroken _ _ _ _ taken).2.not_mem blank
    · exact (unbroken _ _ _ _ taken).1.not_mem blank

end ClassNumber

namespace TokenInjection

theorem unbroken_of_resolve? {name token : Text} (resolved : ColorToken.resolve? name = some token) :
    token.Unbroken :=
  Text.unbroken_of_isNameChar (ColorToken.token_chars resolved).2

/-- What takes the place of a fallback is the token, perhaps with a hyphen. -/
theorem unbroken_of_fallbackMatcher {variants : List Text} {token : Text}
    (unbroken : token.Unbroken) {before : Option Char} {text source replacement : Text}
    (taken : fallbackMatcher variants token before text = some (source, replacement)) :
    replacement.Unbroken := by
  unfold fallbackMatcher at taken
  split at taken
  · obtain ⟨_, rfl⟩ := Prod.mk.inj (Option.some.inj taken)
    exact unbroken
  · obtain ⟨_, _, equal⟩ := Option.map_eq_some_iff.mp taken
    obtain ⟨_, rfl⟩ := Prod.mk.inj equal
    exact Text.unbroken_cons.mpr ⟨by decide, unbroken⟩

theorem eq_token_of_referenceMatcher {sought token : Text} {before : Option Char}
    {text source replacement : Text}
    (taken : referenceMatcher sought token before text = some (source, replacement)) :
    replacement = token := by
  simp only [referenceMatcher, bind, Option.bind_eq_some_iff] at taken
  obtain ⟨_, _, _, _, taken⟩ := taken
  split at taken
  · exact (Prod.mk.inj (Option.some.inj taken)).2.symm
  · cases taken

/-- What stays of brackets that are dropped is a name. -/
theorem unbroken_of_bareBrackets {before : Option Char} {text source replacement : Text}
    (taken : bareBrackets before text = some (source, replacement)) : replacement.Unbroken := by
  unfold bareBrackets at taken
  split at taken
  · split at taken
    · cases taken
    · next name rest _ run =>
      obtain ⟨_, rfl⟩ := Prod.mk.inj (Option.some.inj taken)
      exact Text.unbroken_of_isNameChar (Text.span_eq_iff.mp run).2.1
    · cases taken
  · cases taken

theorem mem_of_mem_injectUse {name : Text} {use : VariableUse} {char : Char}
    (blank : isBlank char = true) (member : char ∈ injectUse name use) : char ∈ name := by
  unfold injectUse at member
  split at member
  · exact member
  · next token resolved =>
    have unbroken := unbroken_of_resolve? resolved
    have replaced := Matcher.mem_of_mem_sweep (fun _ _ _ _ taken => by
      rw [eq_token_of_referenceMatcher taken]
      exact unbroken.not_mem blank) member
    split at replaced
    · exact Matcher.mem_of_mem_sweep (fun _ _ _ _ taken =>
        (unbroken_of_fallbackMatcher unbroken taken).not_mem blank) replaced
    · exact replaced

theorem mem_of_mem_foldl_injectUse {name : Text} {uses : List VariableUse} {char : Char}
    (blank : isBlank char = true) (member : char ∈ uses.foldl injectUse name) : char ∈ name := by
  induction uses generalizing name with
  | nil => exact member
  | cons use uses inductionHypothesis =>
    exact mem_of_mem_injectUse blank (inductionHypothesis member)

/-- Writing tokens back brings no blank into a class. -/
theorem mem_of_mem_inject {name : Text} {uses : List VariableUse} {char : Char}
    (blank : isBlank char = true) (member : char ∈ inject name uses) : char ∈ name := by
  unfold inject at member
  split at member
  · exact member
  · exact mem_of_mem_foldl_injectUse blank (Matcher.mem_of_mem_sweep (fun _ _ _ _ taken =>
      (unbroken_of_bareBrackets taken).not_mem blank) member)

end TokenInjection

/-! ### Fragments with spaces -/

namespace Prepared

/-- A declaration of which more than one class is generated: a border with several parts, or a value
that is copied with a space in it. -/
def Several (prepared : Prepared) : Prop :=
  let name := BuiltIn.propertyName prepared.property
  let stated := BuiltIn.statedValue prepared.resolved
  (name ∈ BuiltIn.borderShorthands ∧ 1 < stated.parts.length) ∨
    (BuiltIn.Copied name stated ∧ ' ' ∈ stated)

theorem mem_finish_iff_of_uses_eq_nil {prepared : Prepared} (noUses : prepared.uses = [])
    {char : Char} (blank : isBlank char = true) :
    char ∈ prepared.finish ↔ char ∈ prepared.generated := by
  rw [finish, noUses, TokenInjection.inject, List.isEmpty_nil, if_pos rfl,
    ClassNumber.mem_normalize_iff _ _ blank]

theorem mem_generated_of_mem_finish {prepared : Prepared} {char : Char}
    (blank : isBlank char = true) (member : char ∈ prepared.finish) : char ∈ prepared.generated :=
  (ClassNumber.mem_normalize_iff _ _ blank).mp (TokenInjection.mem_of_mem_inject blank member)

end Prepared

namespace BuiltIn

/-- A space joins classes, of which there are then at least two. -/
theorem space_mem_join_iff {names : List Text} (areNames : ∀ name ∈ names, IsClassName name) :
    ' ' ∈ Text.join [' '] names ↔ 1 < names.length := by
  match names with
  | [] => simp [Text.join]
  | [name] =>
    have noSpace : ' ' ∉ name := (areNames name List.mem_cons_self).unbroken.not_mem (by decide)
    simpa using noSpace
  | name :: next :: more => simp [Text.join_cons_cons]

end BuiltIn

namespace BuiltIn

theorem statedValue_cons {char : Char} (blank : isBlank char = true) (value : Text) :
    statedValue (char :: value) = statedValue value := by
  have same : Text.trim (char :: value) = Text.trim value := by
    rw [Text.trim, Text.trimStart, List.dropWhile_cons_of_pos blank]
    rfl
  rw [statedValue, statedValue, same]

/-- A value that is copied belongs to no border. -/
theorem Copied.not_mem_borderShorthands {property value : Text} (copied : Copied property value) :
    property ∉ borderShorthands := by
  intro isBorder
  obtain ⟨stem, listed, _⟩ := copied
  obtain ⟨stem', _, kind⟩ := exists_kind_of_mem_borderShorthands isBorder
  rw [(kind_of_mem_lengthStems listed).2] at kind
  cases kind

end BuiltIn

/-- What several classes are made of lacks neither a property nor a value. -/
theorem Prepared.Several.present {prepared : Prepared} (several : prepared.Several) :
    ¬ (BuiltIn.propertyName prepared.property = [] ∨
      BuiltIn.statedValue prepared.resolved = []) := by
  rintro (unnamed | unstated)
  · rcases several with ⟨isBorder, _⟩ | ⟨⟨stem, listed, _⟩, _⟩
    · rw [unnamed] at isBorder
      exact absurd isBorder (by decide)
    · rw [unnamed] at listed
      exact (BuiltIn.kind_of_mem_lengthStems listed).1.nonempty rfl
  · rcases several with ⟨_, parts⟩ | ⟨_, space⟩
    · rw [unstated] at parts
      exact absurd parts (by decide)
    · rw [unstated] at space
      cases space

/-- A space is in the class that is generated exactly if several are. -/
theorem Declaration.space_mem_generated_iff {declaration : Declaration}
    (noColon : ':' ∉ declaration.property) (unbroken : declaration.property.Unbroken)
    (isRem : Bool) :
    ' ' ∈ (declaration.prepare isRem BuiltIn.generate).generated ↔
      (declaration.prepare isRem BuiltIn.generate).Several := by
  obtain ⟨property, value⟩ := declaration
  generalize prepared_eq : Declaration.prepare ⟨property, value⟩ isRem BuiltIn.generate = prepared
  have property_eq : prepared.property = property := by rw [← prepared_eq]; rfl
  have generated_eq : prepared.generated =
      Generator.best BuiltIn.generate (property ++ ':' :: (' ' :: prepared.resolved)) isRem := by
    rw [← prepared_eq, Declaration.prepare, Declaration.text, List.append_assoc]
    rfl
  have stated_eq : BuiltIn.statedValue (' ' :: prepared.resolved) =
      BuiltIn.statedValue prepared.resolved :=
    BuiltIn.statedValue_cons (by decide) prepared.resolved
  have unbrokenTrim : property.trim.Unbroken := fun char member =>
    unbroken char ((Text.trim_infix property).subset member)
  by_cases missing : BuiltIn.propertyName property = [] ∨
      BuiltIn.statedValue prepared.resolved = []
  · have nothing : prepared.generated = [] := by
      rw [generated_eq, Generator.best, BuiltIn.generate_append _ noColon, stated_eq,
        if_pos missing]
      rfl
    rw [nothing]
    refine iff_of_false List.not_mem_nil fun several => several.present ?_
    rwa [property_eq]
  · obtain ⟨named, stated⟩ := not_or.mp missing
    rw [← stated_eq] at stated
    by_cases isBorder : BuiltIn.propertyName property ∈ BuiltIn.borderShorthands
    · obtain ⟨names, generated, _, length_eq, areNames⟩ :=
        BuiltIn.exists_names_of_generate noColon (' ' :: prepared.resolved) isRem isBorder stated
      have several : prepared.Several ↔
          1 < (BuiltIn.statedValue prepared.resolved).parts.length := by
        rw [Prepared.Several, property_eq]
        refine ⟨fun several => several.elim And.right fun both => ?_,
          fun parts => Or.inl ⟨isBorder, parts⟩⟩
        exact absurd isBorder both.1.not_mem_borderShorthands
      rw [several, generated_eq, Generator.best, generated, ← stated_eq, ← length_eq]
      exact BuiltIn.space_mem_join_iff areNames
    · obtain ⟨candidate, generated, _, blanks⟩ :=
        BuiltIn.exists_candidate_of_generate noColon unbrokenTrim (' ' :: prepared.resolved) isRem
          isBorder named stated
      rw [generated_eq, Generator.best, generated, Prepared.Several, property_eq, ← stated_eq]
      refine (blanks ' ' (by decide)).trans ⟨Or.inr, fun several => ?_⟩
      exact several.resolve_left fun both => isBorder both.1

namespace Transformer

theorem classList_transform (style : Style) (isRem : Bool) (lead : Text) :
    (builtIn.transform style ⟨isRem, lead⟩).classList =
      Text.join [' '] ((((builtIn.prepare style isRem).map Prepared.finish).filter
        (!·.isEmpty)).map (lead ++ ·)) := rfl

/-- The lead reaches every class exactly if no declaration is finished with a space in it. That is
so only where several classes were generated, and where they were it is so unless the value refers
to variables. -/
theorem leadsEveryClass_transform_iff {style : Style}
    (keys : ∀ declaration ∈ style.declarations,
      ':' ∉ declaration.property ∧ declaration.property.Unbroken)
    (isRem : Bool) {lead : Text} (nonempty : lead ≠ []) (unbroken : lead.Unbroken) :
    (LeadsEveryClass lead (builtIn.transform style ⟨isRem, lead⟩).classList
          (builtIn.transform style ⟨isRem, []⟩).classList ↔
        ∀ prepared ∈ builtIn.prepare style isRem, ' ' ∉ prepared.finish) ∧
      ∀ prepared ∈ builtIn.prepare style isRem,
        (' ' ∈ prepared.finish → prepared.Several) ∧
          (prepared.uses = [] → prepared.Several → ' ' ∈ prepared.finish) := by
  constructor
  · generalize fragments_eq :
      ((builtIn.prepare style isRem).map Prepared.finish).filter (!·.isEmpty) = fragments
    have full : ∀ fragment ∈ fragments, fragment ≠ [] := by
      intro fragment member
      rw [← fragments_eq] at member
      simpa using (List.mem_filter.mp member).2
    have same : (∀ prepared ∈ builtIn.prepare style isRem, ' ' ∉ prepared.finish) ↔
        ∀ fragment ∈ fragments, ' ' ∉ fragment := by
      rw [← fragments_eq]
      constructor
      · intro noSpace fragment member
        obtain ⟨prepared, listed, rfl⟩ := List.mem_map.mp (List.mem_of_mem_filter member)
        exact noSpace prepared listed
      · intro noSpace prepared listed space
        refine noSpace prepared.finish (List.mem_filter.mpr ⟨List.mem_map_of_mem listed, ?_⟩) space
        simpa using List.ne_nil_of_mem space
    have bare : fragments.map (([] : Text) ++ ·) = fragments := List.map_id fragments
    rw [classList_transform, classList_transform, fragments_eq, bare, same]
    exact ⟨not_mem_of_leadsEveryClass nonempty,
      leadsEveryClass_of_forall_not_mem (unbroken.not_mem (by decide)) full⟩
  · intro prepared listed
    obtain ⟨declaration, member, rfl⟩ := List.mem_map.mp listed
    obtain ⟨noColon, keyUnbroken⟩ := keys declaration (List.mem_of_mem_filter member)
    have several : ' ' ∈ (declaration.prepare isRem builtIn.generator).generated ↔
        (declaration.prepare isRem builtIn.generator).Several :=
      Declaration.space_mem_generated_iff noColon keyUnbroken isRem
    have space : isBlank ' ' = true := by decide
    refine ⟨fun finished => several.mp (Prepared.mem_generated_of_mem_finish space finished),
      fun noUses generated => ?_⟩
    exact (Prepared.mem_finish_iff_of_uses_eq_nil noUses space).mpr (several.mpr generated)

/-- Of the three classes of a border only the first one is reached. -/
theorem not_leadsEveryClass_transform_border :
    ((∀ declaration ∈ (Style.ofList [("border".toList, "1px solid red".toList)]).declarations,
          ':' ∉ declaration.property ∧ declaration.property.Unbroken) ∧
        "u-".toList ≠ [] ∧ Text.Unbroken "u-".toList) ∧
      ¬ LeadsEveryClass "u-".toList
        (builtIn.transform (Style.ofList [("border".toList, "1px solid red".toList)])
          ⟨false, "u-".toList⟩).classList
        (builtIn.transform (Style.ofList [("border".toList, "1px solid red".toList)])
          ⟨false, []⟩).classList := by
  have keys : ∀ declaration ∈
      (Style.ofList [("border".toList, "1px solid red".toList)]).declarations,
        ':' ∉ declaration.property ∧ declaration.property.Unbroken := by decide
  have nonempty : "u-".toList ≠ [] := by decide
  have unbroken : Text.Unbroken "u-".toList := by decide
  refine ⟨⟨keys, nonempty, unbroken⟩, fun leads => ?_⟩
  obtain ⟨reaches, spaces⟩ := leadsEveryClass_transform_iff keys false nonempty unbroken
  have listed : Declaration.prepare ⟨"border".toList, "1px solid red".toList⟩ false
      builtIn.generator ∈
        builtIn.prepare (Style.ofList [("border".toList, "1px solid red".toList)]) false :=
    List.mem_map_of_mem (List.mem_filter.mpr ⟨by decide, by decide⟩)
  refine reaches.mp leads _ listed ((spaces _ listed).2 (by decide +kernel) (Or.inl ⟨?_, ?_⟩))
  · decide +kernel
  · decide +kernel

end Transformer

end AtomicCss
