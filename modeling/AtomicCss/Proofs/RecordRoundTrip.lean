/-
This file proves that encoding loses nothing. A value is printed as a text that the grammar gives for
it, so reading the text gives the value back: what is escaped on one side is what the other side
unescapes, and the digits of a count are neither cut nor rounded. A record is then found in the object
by the names of its fields, each of which stands there once, so the order of the members is free.
-/

import AtomicCss.Interchange
import AtomicCss.Proofs.DecimalText
import AtomicCss.Proofs.JsonGrammar
import Mathlib.Data.List.Forall2

namespace AtomicCss

/-! ### Printed strings -/

namespace Json

theorem spellsUnit_escapeChar (char : Char) : SpellsUnit (.char char) (escapeChar char) := by
  unfold escapeChar
  split_ifs with quote backslash backspace feed newline carriage tab control
  · rw [quote]
    exact .short rfl
  · rw [backslash]
    exact .short rfl
  · rw [backspace]
    exact .short rfl
  · rw [feed]
    exact .short rfl
  · rw [newline]
    exact .short rfl
  · rw [carriage]
    exact .short rfl
  · rw [tab]
    exact .short rfl
  · have each : ∀ code < 0x20,
        hexCode? '0' '0' (hexDigit (code / 16)) (hexDigit (code % 16)) = some code := by decide
    have unit_eq : unitOfCode char.toNat = .char char := by
      have notSurrogate : isSurrogate char.toNat = false := by
        simp only [isSurrogate, Bool.and_eq_false_iff, decide_eq_false_iff_not]
        omega
      rw [unitOfCode, notSurrogate, Char.ofNat_toNat]
      rfl
    rw [← unit_eq]
    exact .code (each _ control)
  · exact .plain quote backslash (Nat.not_lt.mp control)

theorem spellsUnits_escape (text : Text) : SpellsUnits (text.map .char) (escape text) := by
  induction text with
  | nil => exact .nil
  | cons char text inductionHypothesis =>
    exact .cons (spellsUnit_escapeChar char) inductionHypothesis

theorem encodes_map_char (text : Text) : Encodes text (text.map .char) := by
  induction text with
  | nil => exact .nil
  | cons char text inductionHypothesis => exact .char inductionHypothesis

theorem spellsString_quote (text : Option Text) : SpellsString text (quote text) := by
  cases text with
  | some text => exact .text (spellsUnits_escape text) (encodes_map_char text)
  | none =>
    have half : SpellsUnits [.surrogate 0xD800] unpairedEscape :=
      .cons (.code (by rfl : hexCode? 'd' '8' '0' '0' = some 0xD800)) .nil
    refine .noText half fun text encodes => ?_
    cases encodes

/-! ### Printed numbers -/

theorem isDigits_digits (count : Nat) : IsDigits (Decimal.digits count) where
  nonempty := Nat.toDigits_ne_nil
  digits := fun _ => Decimal.isDigit_of_mem_digits

theorem isWhole_digits (count : Nat) : IsWhole (Decimal.digits count) := by
  by_cases lead : (Decimal.digits count).head? = some '0'
  · obtain ⟨rest, spelt⟩ : ∃ rest, Decimal.digits count = '0' :: rest := by
      obtain ⟨first, rest, spelt⟩ := List.exists_cons_of_ne_nil (isDigits_digits count).nonempty
      rw [spelt, List.head?_cons, Option.some.injEq] at lead
      exact ⟨rest, by rw [spelt, lead]⟩
    -- A zero in front leaves the value to the other digits, so there would be fewer of them.
    have behind : rest = [] := by
      by_contra nonempty
      have value_eq : Decimal.value rest = count := by
        rw [← Decimal.value_digits count, spelt]
        rfl
      have small : count < power 10 rest.length := by
        rw [← value_eq]
        refine Decimal.value_lt fun char member => (isDigits_digits count).digits char ?_
        rw [spelt]
        exact List.mem_cons_of_mem '0' member
      have short : (Decimal.digits count).length ≤ rest.length :=
        (Nat.length_toDigits_le_iff (by decide) (List.length_pos_iff.mpr nonempty)).mpr small
      rw [spelt, List.length_cons] at short
      omega
    exact Or.inl (by rw [spelt, behind])
  · exact Or.inr ⟨isDigits_digits count, lead⟩

theorem isNumber_digits (count : Nat) : IsNumber (Decimal.digits count) := by
  have number := IsNumber.unsigned (isWhole_digits count) (Or.inl rfl) (Or.inl rfl)
  rwa [List.append_nil, List.append_nil] at number

/-! ### Printed values -/

/-- A value whose numbers are spelt as numbers. -/
inductive Printable : Json → Prop where
  | null : Printable .null
  | bool (truth : Bool) : Printable (.bool truth)
  | number {spelling : Text} (isNumber : IsNumber spelling) : Printable (.number spelling)
  | string (text : Option Text) : Printable (.string text)
  | array {items : List Json} (each : ∀ item ∈ items, Printable item) : Printable (.array items)
  | object {members : List (Option Text × Json)} (each : ∀ member ∈ members, Printable member.2) :
      Printable (.object members)

theorem isSpaces_nil : IsSpaces [] := by simp [IsSpaces]

theorem spells_items {items : List Json} (nonempty : items ≠ [])
    (each : ∀ item ∈ items, Spells (.value item) (render item)) :
    Spells (.items items) (Text.join [','] (renderItems items)) := by
  induction items with
  | nil => exact absurd rfl nonempty
  | cons item items inductionHypothesis =>
    have here := each item List.mem_cons_self
    have behind (hasMore : items ≠ []) := inductionHypothesis hasMore fun other member =>
      each other (List.mem_cons_of_mem item member)
    cases items with
    | nil =>
      have last := Spells.lastItem isSpaces_nil here isSpaces_nil
      rw [List.nil_append, List.append_nil] at last
      rwa [renderItems, renderItems, Text.join_singleton]
    | cons next items => exact .item isSpaces_nil here isSpaces_nil (behind (List.cons_ne_nil _ _))

theorem spells_members {members : List (Option Text × Json)} (nonempty : members ≠ [])
    (each : ∀ member ∈ members, Spells (.value member.2) (render member.2)) :
    Spells (.members members) (Text.join [','] (renderMembers members)) := by
  induction members with
  | nil => exact absurd rfl nonempty
  | cons member members inductionHypothesis =>
    obtain ⟨key, value⟩ := member
    have here := each (key, value) List.mem_cons_self
    have behind (hasMore : members ≠ []) := inductionHypothesis hasMore fun other member =>
      each other (List.mem_cons_of_mem _ member)
    cases members with
    | nil =>
      have last := Spells.lastMember isSpaces_nil (spellsString_quote key) isSpaces_nil isSpaces_nil
        here isSpaces_nil
      simp only [List.nil_append, List.append_nil] at last
      rwa [renderMembers, renderMembers, renderMember, Text.join_singleton]
    | cons next members =>
      have spelt := Spells.member isSpaces_nil (spellsString_quote key) isSpaces_nil isSpaces_nil
        here isSpaces_nil (behind (List.cons_ne_nil _ _))
      simp only [List.nil_append] at spelt
      rwa [renderMembers, renderMembers, Text.join_cons_cons, renderMember, List.append_assoc]

/-- A value is printed as the grammar has it. -/
theorem Printable.spells_render {json : Json} (printable : Printable json) :
    Spells (.value json) (render json) := by
  induction printable with
  | null => exact .null
  | bool truth =>
    cases truth with
    | false => exact .false
    | true => exact .true
  | number isNumber => exact .number isNumber
  | string text => exact .string (spellsString_quote text)
  | @array items _ inductionHypothesis =>
    by_cases empty : items = []
    · rw [empty]
      exact .emptyArray isSpaces_nil
    · exact .array (spells_items empty inductionHypothesis)
  | @object members _ inductionHypothesis =>
    by_cases empty : members = []
    · rw [empty]
      exact .emptyObject isSpaces_nil
    · exact .object (spells_members empty inductionHypothesis)

theorem Printable.isDocument_render {json : Json} (printable : Printable json) :
    IsDocument json (render json) :=
  ⟨[], render json, [], isSpaces_nil, printable.spells_render, isSpaces_nil,
    by rw [List.nil_append, List.append_nil]⟩

/-! ### Fields by their names -/

/-- The same object with its members in another order. -/
def Reordered (json json' : Json) : Prop :=
  ∃ members members', members'.Perm members ∧ json = .object members ∧ json' = .object members'

/-- A name that stands once singles out its value. -/
theorem filter_record_eq_singleton {before after : List (Text × Json)} {name : Text} (value : Json)
    (others : ∀ field ∈ before ++ after, field.1 ≠ name) :
    ((before ++ (name, value) :: after).map fun (key, value) => (some key, value)).filter
      (·.1 = some name) = [(some name, value)] := by
  have absent {fields : List (Text × Json)} (others : ∀ field ∈ fields, field.1 ≠ name) :
      (fields.map fun (key, value) => (some key, value)).filter (·.1 = some name) = [] := by
    rw [List.filter_eq_nil_iff]
    intro member listed
    obtain ⟨field, inFields, rfl⟩ := List.mem_map.mp listed
    simpa using others field inFields
  obtain ⟨othersBefore, othersAfter⟩ := List.forall_mem_append.mp others
  rw [List.map_append, List.map_cons, List.filter_append, absent othersBefore, List.nil_append,
    List.filter_cons_of_pos (by simp), absent othersAfter]

theorem exists_keys?_eq {members : List (Option Text × Json)}
    (named : ∀ member ∈ members, ∃ key, member.1 = some key) :
    ∃ keys, keys? members = some keys := by
  induction members with
  | nil => exact ⟨[], rfl⟩
  | cons member members inductionHypothesis =>
    obtain ⟨key, here⟩ := named member List.mem_cons_self
    obtain ⟨keys, behind⟩ := inductionHypothesis fun other listed =>
      named other (List.mem_cons_of_mem member listed)
    rw [keys?] at behind
    exact ⟨key :: keys, by simp [keys?, List.mapM_cons, here, behind]⟩

theorem mapM_eq_some_of_forall₂ {Value : Type} {read? : Text → Option (Option Value)}
    {names : List Text} {values : List Value}
    (each : List.Forall₂ (fun name value => read? name = some (some value)) names values) :
    names.mapM read? = some (values.map some) := by
  induction each with
  | nil => rfl
  | cons here _ inductionHypothesis => simp [List.mapM_cons, here, inductionHypothesis]

/-- An object with one member for each name gives the values of the names, whatever the order of
its members. -/
theorem fields?_of_reordered {names : List Text} (nodup : names.Nodup) {values : List Json}
    (sameLength : names.length = values.length) {json : Json}
    (reordered : Reordered (.record (names.zip values)) json) :
    json.fields? names = some (values.map some) := by
  obtain ⟨members, members', perm, same, rfl⟩ := reordered
  obtain rfl := Json.object.inj same
  have named : ∀ member ∈ members', ∃ key, member.1 = some key := by
    intro member listed
    obtain ⟨field, _, rfl⟩ := List.mem_map.mp (perm.mem_iff.mp listed)
    exact ⟨field.1, rfl⟩
  have names_eq : (names.zip values).map Prod.fst = names :=
    List.map_fst_zip (Nat.le_of_eq sameLength)
  have found : List.Forall₂ (fun name value => member? members' name = some (some value))
      names values := by
    refine List.forall₂_iff_zip.mpr ⟨sameLength, fun {name value} listed => ?_⟩
    obtain ⟨before, after, split⟩ := List.append_of_mem listed
    have others : ∀ field ∈ before ++ after, field.1 ≠ name := by
      have once := names_eq.symm ▸ nodup
      rw [split, (List.perm_middle.map Prod.fst).nodup_iff, List.map_cons, List.nodup_cons] at once
      rintro field inOthers rfl
      exact once.1 (List.mem_map.mpr ⟨field, inOthers, rfl⟩)
    have filtered := perm.filter (·.1 = some name)
    rw [split, filter_record_eq_singleton value others, List.perm_singleton] at filtered
    rw [member?, filtered]
  obtain ⟨keys, keys_eq⟩ := exists_keys?_eq named
  simp only [fields?, keys_eq, Option.bind_eq_bind, Option.bind_some,
    mapM_eq_some_of_forall₂ found]

theorem printable_of_reordered {fields : List (Text × Json)} {json : Json}
    (reordered : Reordered (.record fields) json) (each : ∀ field ∈ fields, Printable field.2) :
    Printable json := by
  obtain ⟨members, members', perm, same, rfl⟩ := reordered
  obtain rfl := Json.object.inj same
  refine .object fun member listed => ?_
  obtain ⟨field, inFields, rfl⟩ := List.mem_map.mp (perm.mem_iff.mp listed)
  exact each field inFields

theorem count?_ofNat {count : Nat} (fits : count < countLimit) :
    count? (ofNat count) = some count := by
  have digits : (Decimal.digits count).all Char.isDigit = true :=
    List.all_eq_true.mpr (isDigits_digits count).digits
  rw [ofNat, count?, Decimal.value_digits, if_pos ⟨digits, fits⟩]

end Json

/-! ### Records -/

/-- A printed record is read as the values of its fields. -/
theorem decode?_render {Data : Type} (ofJson? : Json → Option Data) {names : List Text}
    {values : List Json} {json : Json} (reordered : Json.Reordered (.record (names.zip values)) json)
    (each : ∀ value ∈ values, value.Printable) : decode? ofJson? json.render = ofJson? json := by
  have printable := Json.printable_of_reordered reordered fun field listed =>
    each field.2 (List.of_mem_zip listed).2
  rw [decode?, printable.isDocument_render.parse?_eq, Option.bind_some]

theorem Declaration.decode?_render {declaration : Declaration} {json : Json}
    (reordered : Json.Reordered declaration.toJson json) :
    decode? Declaration.ofJson? json.render = some declaration := by
  have fields := Json.fields?_of_reordered (by decide) rfl reordered
  have printable : ∀ value ∈ [Json.ofText declaration.property, .ofText declaration.value],
      value.Printable := by
    simp only [List.forall_mem_cons, List.not_mem_nil]
    exact ⟨.string _, .string _, by simp⟩
  rw [AtomicCss.decode?_render _ reordered printable, Declaration.ofJson?, fields]
  rfl

theorem TransformOptions.decode?_render {options : TransformOptions} {json : Json}
    (reordered : Json.Reordered options.toJson json) :
    decode? TransformOptions.ofJson? json.render = some options := by
  have fields := Json.fields?_of_reordered (by decide) rfl reordered
  have printable : ∀ value ∈ [Json.bool options.isRem, .ofText options.lead], value.Printable := by
    simp only [List.forall_mem_cons, List.not_mem_nil]
    exact ⟨.bool _, .string _, by simp⟩
  rw [AtomicCss.decode?_render _ reordered printable, TransformOptions.ofJson?, fields]
  rfl

theorem AtomicOutput.decode?_render {output : AtomicOutput} {json : Json}
    (reordered : Json.Reordered output.toJson json) :
    decode? AtomicOutput.ofJson? json.render = some output := by
  have fields := Json.fields?_of_reordered (by decide) rfl reordered
  have printable : ∀ value ∈ [Json.ofText output.cssCode, .ofText output.classList],
      value.Printable := by
    simp only [List.forall_mem_cons, List.not_mem_nil]
    exact ⟨.string _, .string _, by simp⟩
  rw [AtomicCss.decode?_render _ reordered printable, AtomicOutput.ofJson?, fields]
  rfl

theorem VariableUse.decode?_render {use : VariableUse} {json : Json}
    (startFits : use.start < Json.countLimit) (stopFits : use.stop < Json.countLimit)
    (reordered : Json.Reordered use.toJson json) :
    decode? VariableUse.ofJson? json.render = some use := by
  have fields := Json.fields?_of_reordered (by decide) rfl reordered
  have fallbackPrintable : (Json.ofOption .ofText use.fallback).Printable := by
    cases use.fallback with
    | none => exact .null
    | some fallback => exact .string _
  have fallback : Json.optional? Json.text? (Json.ofOption .ofText use.fallback) =
      some use.fallback := by
    cases use.fallback <;> rfl
  have printable : ∀ value ∈ [Json.ofText use.name, .ofOption .ofText use.fallback,
      .ofNat use.start, .ofNat use.stop], value.Printable := by
    simp only [List.forall_mem_cons, List.not_mem_nil]
    exact ⟨.string _, fallbackPrintable, .number (Json.isNumber_digits _),
      .number (Json.isNumber_digits _), by simp⟩
  rw [AtomicCss.decode?_render _ reordered printable, VariableUse.ofJson?, fields]
  simp only [List.map_cons, List.map_nil, Option.bind_eq_bind, Option.bind_some, Json.required?,
    Json.orDefault?, Json.ofText, Json.text?, fallback, Json.count?_ofNat startFits,
    Json.count?_ofNat stopFits]
  rfl

/-- Printing a record and reading it gives the data back, for every kind of data, every text and every
count of 64 bits, in whatever order the members are printed. -/
theorem decode?_render_of_reordered :
    (∀ (declaration : Declaration) (json : Json), Json.Reordered declaration.toJson json →
      decode? Declaration.ofJson? json.render = some declaration) ∧
    (∀ (options : TransformOptions) (json : Json), Json.Reordered options.toJson json →
      decode? TransformOptions.ofJson? json.render = some options) ∧
    (∀ (output : AtomicOutput) (json : Json), Json.Reordered output.toJson json →
      decode? AtomicOutput.ofJson? json.render = some output) ∧
    (∀ (use : VariableUse) (json : Json), use.start < Json.countLimit →
      use.stop < Json.countLimit → Json.Reordered use.toJson json →
        decode? VariableUse.ofJson? json.render = some use) :=
  ⟨fun _ _ => Declaration.decode?_render, fun _ _ => TransformOptions.decode?_render,
    fun _ _ => AtomicOutput.decode?_render, fun _ _ => VariableUse.decode?_render⟩

/-- The object of a record with its members from the last to the first. -/
def Json.reverseMembers : Json → Json
  | .object members => .object members.reverse
  | json => json

theorem Json.reordered_reverseMembers (fields : List (Text × Json)) :
    Reordered (.record fields) (Json.record fields).reverseMembers :=
  ⟨_, _, List.reverse_perm _, rfl, rfl⟩

/-- Quotes, backslashes, control characters and characters beyond the first plane, an empty fallback,
and the greatest count; each record is printed from its last member to its first. -/
theorem decode?_render_reverseMembers :
    decode? Declaration.ofJson?
        (Declaration.toJson ⟨"\x01\n😀".toList, "a\"b\\".toList⟩).reverseMembers.render =
      some ⟨"\x01\n😀".toList, "a\"b\\".toList⟩ ∧
    decode? TransformOptions.ofJson?
        (TransformOptions.toJson ⟨true, "é-".toList⟩).reverseMembers.render =
      some ⟨true, "é-".toList⟩ ∧
    decode? AtomicOutput.ofJson? (AtomicOutput.toJson ⟨"a: b;".toList, []⟩).reverseMembers.render =
      some ⟨"a: b;".toList, []⟩ ∧
    decode? VariableUse.ofJson?
        (VariableUse.toJson ⟨"--a".toList, some [], 0, 18446744073709551615⟩).reverseMembers.render =
      some ⟨"--a".toList, some [], 0, 18446744073709551615⟩ :=
  have ⟨declarations, options, outputs, uses⟩ := decode?_render_of_reordered
  ⟨declarations _ _ (Json.reordered_reverseMembers _), options _ _ (Json.reordered_reverseMembers _),
    outputs _ _ (Json.reordered_reverseMembers _),
    uses _ _ (by decide) (by decide) (Json.reordered_reverseMembers _)⟩

end AtomicCss
