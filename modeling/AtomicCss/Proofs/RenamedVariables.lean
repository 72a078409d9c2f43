/-
This file proves that the name of a variable without a token leaves no trace in a class. A reference
with a fallback is replaced by the fallback before the generator is asked, and a variable without a
token is passed over when tokens are written back, so the name is read twice and used neither time.

The name must not decide where the references are. What stands before a reference is cut in the same
way however the reference goes on, since an opening cannot begin in one piece and end in another;
and what stands behind its closing parenthesis is read from there on. So two values that differ in
one name only are cut into the same pieces but for the one reference.

Comments are the exception. A comment does not go over the end of a line, so a line break in a name
may be all that keeps an opening pair before the reference from a closing one behind it.
-/

import AtomicCss.Proofs.SingleReference

namespace AtomicCss

/-! ### Up to a reference -/

namespace Variable

/-- However it goes on behind an opening, the text in front of the opening is cut in one way. -/
def Reaches (lead : Text) : Prop :=
  ∃ pieces, ∀ rest, matcher.piecesFrom none 0 (lead ++ (opening ++ rest)) =
    pieces ++ matcher.piecesFrom none 0 (opening ++ rest)

theorem reaches_nil : Reaches [] :=
  ⟨[], fun _ => rfl⟩

/-- The reader does not look back. -/
theorem piecesFrom_eq_none (before : Option Char) (text : Text) :
    matcher.piecesFrom before 0 text = matcher.piecesFrom none 0 text := by
  refine Matcher.piecesFrom_congr (fun _ => ?_) text
  rfl

theorem Reaches.cons {char : Char} {lead : Text} (reaches : Reaches lead)
    (closed : ¬ opening <+: char :: lead) : Reaches (char :: lead) := by
  obtain ⟨pieces, cut⟩ := reaches
  refine ⟨.copied char :: pieces, fun rest => ?_⟩
  have silent : matcher.Silent none (char :: (lead ++ (opening ++ rest))) :=
    silent_of_not_leading fun leads => closed (prefix_of_prefix_append leads)
  rw [List.cons_append, Matcher.piecesFrom_cons_of_silent silent, piecesFrom_eq_none, cut,
    List.cons_append]

theorem Reaches.reference_append {content lead : Text} (reaches : Reaches lead)
    (balanced : content.Balanced) : Reaches (opening ++ content ++ [')'] ++ lead) := by
  obtain ⟨pieces, cut⟩ := reaches
  refine ⟨.matched (opening ++ content ++ [')']) (.reference content) :: pieces, fun rest => ?_⟩
  rw [List.append_assoc (opening ++ content ++ [')']) lead,
    Matcher.piecesFrom_append_of_taken (by simp) (matcher_reference balanced none _),
    piecesFrom_eq_none, cut, List.cons_append]

/-- A reference that is read stands behind a text that is always cut in the same way. -/
theorem exists_reaches_of_mem_usesFrom {before : Option Char} {text : Text}
    {pieces : List (Piece Stretch)} (tiles : matcher.Tiles before text pieces) {start : Nat}
    {use : VariableUse} (listed : use ∈ usesFrom start pieces) :
    ∃ lead content behind, text = lead ++ (opening ++ (content ++ ')' :: behind)) ∧
      Reaches lead ∧ content.Balanced ∧
      ∃ stop, use = useOf content (start + Text.byteLength lead) stop := by
  induction tiles generalizing start with
  | done => cases listed
  | @copied before char rest pieces silent tiles inductionHypothesis =>
    obtain ⟨lead, content, behind, rfl, reaches, balanced, stop, rfl⟩ := inductionHypothesis listed
    refine ⟨char :: lead, content, behind, rfl, reaches.cons fun leads => ?_, balanced, stop, ?_⟩
    · exact not_leading_of_silent silent (leads.trans ⟨_, List.cons_append⟩)
    · rw [Text.byteLength_cons, Piece.source, Text.byteLength_cons, Text.byteLength_nil,
        Nat.add_zero, Nat.add_assoc]
  | @matched before source rest stretch pieces nonempty taken tiles inductionHypothesis =>
    rcases matcher_eq_some taken with ⟨content, rfl, rfl, balanced, _⟩ | ⟨rfl, whole, _⟩
    · rcases List.mem_cons.mp listed with rfl | inRest
      · exact ⟨[], content, rest, by simp, reaches_nil, balanced, _, rfl⟩
      · obtain ⟨lead, content', behind, rfl, reaches, balanced', stop, rfl⟩ :=
          inductionHypothesis inRest
        refine ⟨opening ++ content ++ [')'] ++ lead, content', behind, by simp,
          reaches.reference_append balanced, balanced', stop, ?_⟩
        rw [Text.byteLength_append, Piece.source, Nat.add_assoc]
    · obtain rfl : rest = [] := by simpa using whole
      rw [tiles.eq_nil] at listed
      cases listed

/-- A character that cannot open a reference makes no difference to the pieces behind it. -/
theorem Reaches.of_cons {char : Char} {lead : Text} (reaches : Reaches (char :: lead))
    (other : char ≠ 'v') : Reaches lead := by
  obtain ⟨pieces, cut⟩ := reaches
  have copied (rest : Text) :
      .copied char :: matcher.piecesFrom none 0 (lead ++ (opening ++ rest)) =
        pieces ++ matcher.piecesFrom none 0 (opening ++ rest) := by
    have silent : matcher.Silent none (char :: (lead ++ (opening ++ rest))) := by
      refine silent_of_not_leading fun leads => ?_
      obtain ⟨more, spelt⟩ := leads
      exact other (List.cons.inj spelt).1.symm
    rw [← piecesFrom_eq_none (some char), ← Matcher.piecesFrom_cons_of_silent silent, ← cut,
      List.cons_append]
  cases pieces with
  | nil => cases copied []
  | cons first pieces => exact ⟨pieces, fun rest => (List.cons.inj (copied rest)).2⟩

theorem Reaches.trimStart {lead : Text} (reaches : Reaches lead) : Reaches lead.trimStart := by
  induction lead with
  | nil => exact reaches
  | cons char lead inductionHypothesis =>
    rw [Text.trimStart, List.dropWhile_cons]
    split
    · next blank =>
      refine inductionHypothesis (reaches.of_cons ?_)
      rintro rfl
      cases blank
    · exact reaches

/-! ### The place of a name -/

/-- A value with a gap for the name of one variable, which has a fallback. -/
structure NamePlace where
  lead : Text
  reaches : Reaches lead
  padding : Padding
  fallback : Text
  balanced : fallback.Balanced
  filled : fallback.trim ≠ []
  behind : Text

namespace NamePlace

variable (place : NamePlace)

/-- What the parentheses of the reference hold. -/
def content (name : Text) : Text :=
  place.padding.around name ++ ',' :: place.fallback

def value (name : Text) : Text :=
  place.lead ++ (opening ++ (place.content name ++ ')' :: place.behind))

/-- The name can be read back from its place. -/
structure Reads (name : Text) : Prop where
  balanced : (place.content name).Balanced
  split : splitComma? 0 (place.content name) = some (place.padding.around name, place.fallback)
  trim_eq : (place.padding.around name).trim = name

theorem reads_of_isName {name : Text} (isName : IsName name) : place.Reads name where
  balanced := (place.padding.balanced_around isName.balanced).append
    ((Text.balanced_of_forall_ne (by decide)).append place.balanced :
      Text.Balanced ([','] ++ place.fallback))
  split := by
    rw [content, splitComma?_around place.padding isName]
    simp [splitComma?]
  trim_eq := place.padding.trim_around isName.trimmed

variable {place}

theorem Reads.useOf_eq {name : Text} (reads : place.Reads name) (start stop : Nat) :
    useOf (place.content name) start stop = ⟨name, some place.fallback.trim, start, stop⟩ := by
  rw [useOf, nameOf, fallbackOf, reads.split]
  simp only [reads.trim_eq, Option.map_some]

variable (place)

/-- Whatever the name, the value is cut into the same pieces around the reference. -/
theorem exists_pieces_value :
    ∃ before after : List (Piece Stretch), ∀ name, place.Reads name →
      pieces (place.value name) =
        before ++
          .matched (opening ++ place.content name ++ [')']) (.reference (place.content name)) ::
            after := by
  obtain ⟨before, cut⟩ := place.reaches
  refine ⟨before, matcher.piecesFrom none 0 place.behind, fun name reads => ?_⟩
  have reference : opening ++ (place.content name ++ ')' :: place.behind) =
      opening ++ place.content name ++ [')'] ++ place.behind := by simp
  rw [pieces, Matcher.pieces, value, cut, reference,
    Matcher.piecesFrom_append_of_taken (by simp) (matcher_reference reads.balanced none _),
    piecesFrom_eq_none]

/-- Filling in the fallbacks leaves nothing of the name. -/
theorem exists_resolve_value :
    ∃ resolved, ∀ name, place.Reads name → resolve (place.value name) = resolved := by
  obtain ⟨before, after, pieces_eq⟩ := place.exists_pieces_value
  refine ⟨before.flatMap resolvePiece ++ (place.fallback.trim ++ after.flatMap resolvePiece),
    fun name reads => ?_⟩
  have written : resolvePiece (.matched (opening ++ place.content name ++ [')'])
      (.reference (place.content name))) = place.fallback.trim := by
    have given : fallbackOf (place.content name) = some place.fallback.trim :=
      congrArg VariableUse.fallback (reads.useOf_eq 0 0)
    rw [resolvePiece, given, Option.filter_some, if_pos (by simp [place.filled]), Option.getD_some]
  rw [resolve, pieces_eq name reads, List.flatMap_append, List.flatMap_cons, written]

end NamePlace

/-! ### Tokens of the other variables -/

theorem usesFrom_append (start : Nat) (first second : List (Piece Stretch)) :
    usesFrom start (first ++ second) =
      usesFrom start first ++
        usesFrom (start + Text.byteLength (first.flatMap Piece.source)) second := by
  induction first generalizing start with
  | nil => rfl
  | cons piece first inductionHypothesis =>
    have behind := inductionHypothesis (start + Text.byteLength piece.source)
    rw [Nat.add_assoc, ← Text.byteLength_append, ← List.flatMap_cons] at behind
    cases piece with
    | copied char => exact behind
    | matched source stretch =>
      cases stretch with
      | reference content => exact congrArg (useOf content start _ :: ·) behind
      | unclosed => exact behind

/-- Where the references stand makes no difference to what is written for them. -/
theorem foldl_injectUse_usesFrom (start start' : Nat) (pieces : List (Piece Stretch))
    (name : Text) :
    (usesFrom start pieces).foldl TokenInjection.injectUse name =
      (usesFrom start' pieces).foldl TokenInjection.injectUse name := by
  induction pieces generalizing start start' name with
  | nil => rfl
  | cons piece pieces inductionHypothesis =>
    cases piece with
    | copied char => exact inductionHypothesis _ _ name
    | matched source stretch =>
      cases stretch with
      | reference content => exact inductionHypothesis _ _ _
      | unclosed => exact inductionHypothesis _ _ name

namespace NamePlace

variable (place : NamePlace)

/-- Without a token of its own the name is passed over. -/
theorem exists_inject_value :
    ∃ injected : Text → Text, ∀ name, place.Reads name → ColorToken.resolve? name = none →
      ∀ current, TokenInjection.inject current (uses (place.value name)) = injected current := by
  obtain ⟨before, after, pieces_eq⟩ := place.exists_pieces_value
  refine ⟨fun current => TokenInjection.bareBrackets.replaceAll
    ((usesFrom 0 after).foldl TokenInjection.injectUse
      ((usesFrom 0 before).foldl TokenInjection.injectUse current)),
    fun name reads unknown current => ?_⟩
  have passedOver (start stop : Nat) (current : Text) :
      TokenInjection.injectUse current (useOf (place.content name) start stop) = current := by
    rw [TokenInjection.injectUse, reads.useOf_eq]
    simp only [unknown]
  rw [uses, pieces_eq name reads, usesFrom_append, usesFrom, TokenInjection.inject,
    if_neg (by simp), List.foldl_append, List.foldl_cons, passedOver,
    foldl_injectUse_usesFrom _ 0 after]

/-- The place in the trimmed value. -/
def trimmed : NamePlace :=
  { place with
    lead := place.lead.trimStart
    reaches := place.reaches.trimStart
    behind := place.behind.trimEnd }

theorem trim_value (name : Text) : (place.value name).trim = place.trimmed.value name := by
  have opens : place.value name =
      place.lead ++ ['v'] ++ (['a', 'r', '('] ++ (place.content name ++ ')' :: place.behind)) := by
    simp [value, opening]
  have closes : place.trimmed.lead ++ ['v'] ++
        (['a', 'r', '('] ++ (place.content name ++ ')' :: place.behind)) =
      place.trimmed.lead ++ (opening ++ place.content name) ++ [')'] ++ place.behind := by
    simp [opening]
  have trimStart_eq : (place.value name).trimStart =
      place.trimmed.lead ++ (opening ++ place.content name) ++ [')'] ++ place.behind := by
    rw [opens, Text.trimStart_append_cons (by decide)]
    exact closes
  rw [Text.trim, trimStart_eq, Text.trimEnd_append_cons (by decide), value]
  simp [trimmed, content]

variable {place}

theorem Reads.trimmed {name : Text} (reads : place.Reads name) : place.trimmed.Reads name where
  balanced := reads.balanced
  split := reads.split
  trim_eq := reads.trim_eq

end NamePlace

/-! ### Another name -/

/-- The value with another name where a reference has its own: behind the opening and the blanks. -/
def renamed (value : Text) (use : VariableUse) (name : Text) : Text :=
  match Text.splitBytes? use.start value with
  | some (lead, reference) =>
    let (blanks, rest) := Text.span isBlank (reference.drop opening.length)
    lead ++ (opening ++ (blanks ++ (name ++ rest.drop use.name.length)))
  | none => value

/-- The name of a reference with a fallback has a place in the value. -/
theorem exists_place {value : Text} {use : VariableUse} (listed : use ∈ uses value)
    (filled : use.fallbackText.isSome = true) :
    ∃ place : NamePlace, place.Reads use.name ∧ value = place.value use.name ∧
      ∀ name, renamed value use name = place.value name := by
  obtain ⟨lead, content, behind, rfl, reaches, balanced, stop, rfl⟩ :=
    exists_reaches_of_mem_usesFrom (Matcher.tiles_piecesFrom matcher_faithful none value) listed
  obtain ⟨given, found⟩ := Option.isSome_iff_exists.mp filled
  obtain ⟨found, nonempty⟩ := Option.filter_eq_some_iff.mp found
  obtain ⟨⟨spelt, fallback⟩, split, rfl⟩ := Option.map_eq_some_iff.mp found
  have name_eq : nameOf content = spelt.trim := by rw [nameOf, split]
  obtain ⟨trail, trailBlank, trailed⟩ := Text.exists_eq_trimEnd_append (Text.trimStart spelt)
  let padding : Padding :=
    ⟨spelt.takeWhile isBlank, trail, fun _ => List.mem_takeWhile_imp, trailBlank⟩
  have around : padding.around spelt.trim = spelt := by
    rw [Padding.around, List.append_assoc, Text.trim, ← trailed]
    exact List.takeWhile_append_dropWhile
  let place : NamePlace :=
    { lead, reaches, padding, fallback
      balanced := balanced_of_splitComma? balanced split
      filled := by simpa using nonempty
      behind }
  have content_eq : place.content spelt.trim = content := by
    rw [NamePlace.content, around, (splitComma?_eq_some split).1]
  rw [useOf, name_eq]
  refine ⟨place, ⟨?_, ?_, ?_⟩, ?_, fun name => ?_⟩
  · rwa [content_eq]
  · rw [content_eq, around]
    exact split
  · rw [around]
  · rw [NamePlace.value, content_eq]
  · have spelt_eq : content = spelt ++ ',' :: fallback := (splitComma?_eq_some split).1
    have opened : (opening ++ (content ++ ')' :: behind)).drop opening.length =
        spelt ++ ',' :: (fallback ++ ')' :: behind) := by
      rw [List.drop_left, spelt_eq, List.append_assoc, List.cons_append]
    have blanks : Text.span isBlank spelt = (padding.lead, spelt.trim ++ padding.trail) :=
      congrArg _ trailed
    rw [renamed, Nat.zero_add, Text.splitBytes?_append]
    simp only [opened, Text.span_append_cons (by decide : isBlank ',' = false), blanks,
      List.append_assoc, List.drop_left]
    simp [place, NamePlace.value, NamePlace.content, Padding.around]

theorem isName_of_isNameChar {name : Text} (chars : ∀ char ∈ name, isNameChar char = true) :
    IsName name := by
  refine isName_of_forall_ne (Text.trimmed_of_forall fun char member => ?_) fun char member => ?_
  · have isName := chars char member
    rw [isNameChar, Bool.or_eq_true, beq_iff_eq] at isName
    rcases isName with isWord | rfl
    · exact isBlank_of_isWordChar isWord
    · decide
  · refine ⟨?_, ?_, ?_⟩ <;>
    · rintro rfl
      exact absurd (chars _ member) (by decide)

namespace NamePlace

/-- Another name does not bring a comment about if there is no line break in the name it takes the
place of. -/
theorem strip_value (place : NamePlace) {old new : Text} (sameLine : '\n' ∉ old)
    (nonempty : new ≠ []) (chars : ∀ char ∈ new, isNameChar char = true)
    (same : Comment.strip (place.value old) = place.value old) :
    Comment.strip (place.value new) = place.value new := by
  have regrouped (name : Text) : place.value name =
      place.lead ++ opening ++ place.padding.lead ++
        (name ++ (place.padding.trail ++ ',' :: place.fallback ++ ')' :: place.behind)) := by
    simp [value, content, Padding.around]
  have noSlash : '/' ∉ new := Text.not_mem_of_forall chars (by decide)
  have noStar : '*' ∉ new := Text.not_mem_of_forall chars (by decide)
  rw [Comment.strip_eq_self_iff, regrouped] at same ⊢
  exact fun commented => same (commented.of_renamed sameLine nonempty noSlash noStar)

end NamePlace

end Variable

/-! ### Prepared declarations -/

/-- Of a name without a token nothing is left in the prepared declaration but the value it stands
in. -/
theorem Variable.NamePlace.exists_prepare_value (place : NamePlace) (generator : Generator)
    (property : Text) (isRem : Bool) :
    ∃ (resolved : Text) (hasPx : Bool) (generated finished : Text), ∀ name, place.Reads name →
      ColorToken.resolve? name = none → Comment.strip (place.value name) = place.value name →
        let prepared := Declaration.prepare ⟨property, place.value name⟩ isRem generator
        prepared.resolved = resolved ∧ prepared.hasPx = hasPx ∧ prepared.generated = generated ∧
          prepared.finish = finished := by
  obtain ⟨resolved, resolve_eq⟩ := place.trimmed.exists_resolve_value
  obtain ⟨injected, inject_eq⟩ := place.trimmed.exists_inject_value
  let hasPx := Text.contains "px".toList resolved.trim
  let generated := generator.best (Declaration.text ⟨property, resolved.trim⟩) isRem
  refine ⟨resolved.trim, hasPx, generated, injected (ClassNumber.normalize generated hasPx),
    fun name reads unknown stripped => ?_⟩
  intro prepared
  have resolved_eq : prepared.resolved = resolved.trim := by
    simp only [prepared, Declaration.prepare, stripped, place.trim_value,
      resolve_eq name reads.trimmed]
  have hasPx_eq : prepared.hasPx = hasPx := by
    rw [Declaration.hasPx_prepare, resolved_eq]
  have generated_eq : prepared.generated = generated := by
    rw [Declaration.generated_prepare, resolved_eq]
  have uses_eq : prepared.uses = uses (place.trimmed.value name) := by
    simp only [prepared, Declaration.prepare, stripped, place.trim_value]
  refine ⟨resolved_eq, hasPx_eq, generated_eq, ?_⟩
  rw [Prepared.finish, generated_eq, hasPx_eq, uses_eq]
  exact inject_eq name reads.trimmed unknown _

/-- The name of a variable without a token, where the variable has a fallback, decides nothing: with
another name the declaration has the same class, unless that name brings a comment about. A name
without a line break can be replaced by any other. -/
theorem Declaration.prepare_renamed (generator : Generator) (property : Text) (isRem : Bool)
    {value : Text} {use : VariableUse} {name : Text}
    (uncommented : Comment.strip value = value) (listed : use ∈ Variable.uses value)
    (filled : use.fallbackText.isSome = true) (unknown : ColorToken.resolve? use.name = none)
    (nonempty : name ≠ []) (chars : ∀ char ∈ name, isNameChar char = true)
    (unknown' : ColorToken.resolve? name = none)
    (uncommented' : '\n' ∉ use.name ∨
      Comment.strip (Variable.renamed value use name) = Variable.renamed value use name) :
    let old := Declaration.prepare ⟨property, value⟩ isRem generator
    let new := Declaration.prepare ⟨property, Variable.renamed value use name⟩ isRem generator
    new.resolved = old.resolved ∧ new.hasPx = old.hasPx ∧ new.generated = old.generated ∧
      new.finish = old.finish := by
  obtain ⟨place, reads, spelt, renamed_eq⟩ := Variable.exists_place listed filled
  have reads' : place.Reads name := place.reads_of_isName (Variable.isName_of_isNameChar chars)
  rw [renamed_eq] at uncommented' ⊢
  rw [spelt] at uncommented ⊢
  have stripped : Comment.strip (place.value name) = place.value name :=
    uncommented'.elim (fun sameLine => place.strip_value sameLine nonempty chars uncommented) id
  obtain ⟨resolved, hasPx, generated, finished, prepared⟩ :=
    place.exists_prepare_value generator property isRem
  obtain ⟨resolved_eq, hasPx_eq, generated_eq, finish_eq⟩ :=
    prepared use.name reads unknown uncommented
  obtain ⟨resolved_eq', hasPx_eq', generated_eq', finish_eq'⟩ :=
    prepared name reads' unknown' stripped
  exact ⟨resolved_eq'.trans resolved_eq.symm, hasPx_eq'.trans hasPx_eq.symm,
    generated_eq'.trans generated_eq.symm, finish_eq'.trans finish_eq.symm⟩

/-- A token stands before the name, and its fallback has a reference of its own. -/
theorem Declaration.prepare_renamed_border :
    let value := "1px solid var(--text-1, #111) var( --a , var(--b, red))".toList
    let use : VariableUse := ⟨"--a".toList, some "var(--b, red)".toList, 30, 55⟩
    (Comment.strip value = value ∧ use ∈ Variable.uses value ∧ use.fallbackText.isSome = true ∧
      ColorToken.resolve? use.name = none) ∧
    Variable.renamed value use "--longer_name".toList =
      "1px solid var(--text-1, #111) var( --longer_name , var(--b, red))".toList ∧
    (Declaration.prepare ⟨"border".toList,
        "1px solid var(--text-1, #111) var( --longer_name , var(--b, red))".toList⟩ false
      BuiltIn.generate).finish =
      (Declaration.prepare ⟨"border".toList, value⟩ false BuiltIn.generate).finish := by
  intro value use
  have uncommented : Comment.strip value = value := by decide +kernel
  have listed : use ∈ Variable.uses value := by decide +kernel
  have filled : use.fallbackText.isSome = true := by decide +kernel
  have unknown : ColorToken.resolve? use.name = none := by decide +kernel
  have renamed_eq : Variable.renamed value use "--longer_name".toList =
      "1px solid var(--text-1, #111) var( --longer_name , var(--b, red))".toList := by
    decide +kernel
  have unknown' : ColorToken.resolve? "--longer_name".toList = none := by decide +kernel
  obtain ⟨_, _, _, finish_eq⟩ := Declaration.prepare_renamed BuiltIn.generate "border".toList false
    uncommented listed filled unknown (by decide) (by decide) unknown' (Or.inl (by decide))
  rw [renamed_eq] at finish_eq
  exact ⟨⟨uncommented, listed, filled, unknown⟩, renamed_eq, finish_eq⟩

/-- A line break in the name keeps an opening pair from a closing one; without it what stands
between them is a comment, and the fallback is lost from the class. -/
theorem Declaration.finish_renamed_ne :
    let value := "'/*' var(--a\nb, red) '*/'".toList
    let use : VariableUse := ⟨"--a\nb".toList, some "red".toList, 5, 20⟩
    let name := "--c".toList
    let old := Declaration.prepare ⟨"color".toList, value⟩ false BuiltIn.generate
    let new := Declaration.prepare ⟨"color".toList, Variable.renamed value use name⟩ false
      BuiltIn.generate
    (Comment.strip value = value ∧ use ∈ Variable.uses value ∧ use.fallbackText.isSome = true ∧
      ColorToken.resolve? use.name = none ∧ name ≠ [] ∧ (∀ char ∈ name, isNameChar char = true) ∧
      ColorToken.resolve? name = none) ∧
    Variable.renamed value use name = "'/*' var(--c, red) '*/'".toList ∧
    old.finish = "text-['/*'red'*/']".toList ∧ new.finish = "text-['']".toList ∧
    new.finish ≠ old.finish := by
  decide +kernel

end AtomicCss
