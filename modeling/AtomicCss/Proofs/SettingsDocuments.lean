/-
This file proves what a settings document has to be. The properties that it names are collected one
after the other, and one that is there already is passed over, so the settings are the list without
its repetitions, in the order of the first occurrences. The array of the names is found among
whatever other members the object has; a second array of names, an element that is no text, and
anything but blanks behind the object are faults.
-/

import AtomicCss.Proofs.RecordRoundTrip
import AtomicCss.Settings

namespace AtomicCss

namespace Settings

/-! ### Collecting properties -/

theorem ignored_insert (settings : Settings) (property : Text) :
    (settings.insert property).ignored =
      if property ∈ settings.ignored then settings.ignored else settings.ignored ++ [property] := by
  rw [insert]
  split_ifs with present member member
  · rfl
  · exact absurd (List.contains_iff_mem.mp present) member
  · exact absurd (List.contains_iff_mem.mpr member) present
  · rfl

/-- What is collected on top of settings are the first occurrences of the properties that are not
there yet. -/
theorem ignored_foldl_insert (properties : List Text) (settings : Settings) :
    (properties.foldl insert settings).ignored =
      settings.ignored ++ (properties.filter (· ∉ settings.ignored)).eraseDups := by
  induction properties generalizing settings with
  | nil => rw [List.foldl_nil, List.filter_nil, List.eraseDups_nil, List.append_nil]
  | cons property properties inductionHypothesis =>
    rw [List.foldl_cons, inductionHypothesis, ignored_insert]
    split_ifs with present
    · rw [List.filter_cons_of_neg (by simpa using present)]
    · have others : properties.filter (· ∉ settings.ignored ++ [property]) =
          (properties.filter (· ∉ settings.ignored)).filter (!· == property) := by
        rw [List.filter_filter]
        refine List.filter_congr fun other _ => ?_
        rw [Bool.eq_iff_iff]
        simp [not_or, and_comm]
      rw [List.filter_cons_of_pos (by simpa using present), List.eraseDups_cons, others,
        List.append_assoc, List.singleton_append]

theorem ignored_ofList (properties : List Text) :
    (ofList properties).ignored = properties.eraseDups := by
  rw [ofList, ignored_foldl_insert]
  simp [empty]

theorem isIgnored_ofList (properties : List Text) (property : Text) :
    (ofList properties).isIgnored property = true ↔ property ∈ properties := by
  rw [isIgnored, List.contains_iff_mem, ignored_ofList, List.mem_eraseDups]

/-! ### Reading the array of properties -/

theorem mapM_text?_ofText (properties : List Text) :
    (properties.map Json.ofText).mapM Json.text? = some properties := by
  induction properties with
  | nil => rfl
  | cons property properties inductionHypothesis =>
    rw [List.map_cons, List.mapM_cons, inductionHypothesis]
    rfl

theorem mapM_text?_eq_none {items : List Json} {item : Json} (listed : item ∈ items)
    (noText : ∀ text, item ≠ .ofText text) : items.mapM Json.text? = none := by
  induction items with
  | nil => cases listed
  | cons first items inductionHypothesis =>
    rw [List.mapM_cons]
    rcases List.mem_cons.mp listed with rfl | inRest
    · have unread : item.text? = none := by
        cases item with
        | string text =>
          cases text with
          | none => rfl
          | some text => exact absurd rfl (noText text)
        | _ => rfl
      rw [unread]
      rfl
    · rw [inductionHypothesis inRest]
      cases first.text? <;> rfl

/-! ### Objects of settings -/

theorem ofJson?_record {before after : List (Text × Json)} (properties : List Text)
    (others : ∀ member ∈ before ++ after, member.1 ≠ ignoredField) :
    ofJson? (.record (before ++ (ignoredField, .array (properties.map .ofText)) :: after)) =
      some (ofList properties) := by
  have named : ∀ member ∈ (before ++ (ignoredField, .array (properties.map .ofText)) :: after).map
      fun member => (some member.1, member.2), ∃ key, member.1 = some key := by
    intro member listed
    obtain ⟨field, _, rfl⟩ := List.mem_map.mp listed
    exact ⟨field.1, rfl⟩
  obtain ⟨keys, keys_eq⟩ := Json.exists_keys?_eq named
  have found := Json.filter_record_eq_singleton (.array (properties.map .ofText)) others
  have read : Json.orDefault? [] (Json.list? Json.text?) (some (.array (properties.map .ofText))) =
      some properties := mapM_text?_ofText properties
  simp only [ofJson?, Json.record, Json.fields?, keys_eq, Option.bind_eq_bind, Option.bind_some,
    List.mapM_cons, List.mapM_nil, Json.member?, found, Option.pure_def, read]

section Faults

variable {members : List (Option Text × Json)}

theorem ofJson?_object_eq_none
    (unread : ∀ value, Json.member? members ignoredField = some value →
      Json.orDefault? [] (Json.list? Json.text?) value = none) :
    ofJson? (.object members) = none := by
  rw [ofJson?, Json.fields?]
  cases Json.keys? members with
  | none => rfl
  | some keys =>
    cases found : Json.member? members ignoredField with
    | none => simp [found]
    | some value => simp [found, unread value found]

theorem ofJson?_of_repeated (repeated : 1 < members.countP (·.1 = some ignoredField)) :
    ofJson? (.object members) = none := by
  refine ofJson?_object_eq_none fun value found => ?_
  rw [List.countP_eq_length_filter] at repeated
  rw [Json.member?] at found
  split at found
  · next absent => simp [absent] at repeated
  · next single => simp [single] at repeated
  · cases found

theorem ofJson?_of_item {items : List Json} (listed : (some ignoredField, .array items) ∈ members)
    {item : Json} (isItem : item ∈ items) (noText : ∀ text, item ≠ .ofText text) :
    ofJson? (.object members) = none := by
  refine ofJson?_object_eq_none fun value found => ?_
  have filtered : (some ignoredField, .array items) ∈ members.filter (·.1 = some ignoredField) :=
    List.mem_filter.mpr ⟨listed, by simp⟩
  rw [Json.member?] at found
  split at found
  · next absent =>
    rw [absent] at filtered
    cases filtered
  · next key other single =>
    rw [single, List.mem_singleton] at filtered
    obtain ⟨rfl, rfl⟩ := Prod.mk.inj filtered
    obtain rfl := Option.some.inj found
    exact mapM_text?_eq_none isItem noText
  · cases found

end Faults

/-! ### Documents of settings -/

theorem parse_eq_ok {json : Json} {document : Text} {settings : Settings}
    (isDocument : Json.IsDocument json document) (read : ofJson? json = some settings) :
    parse document = .ok settings := by
  rw [parse, isDocument.parse?_eq, Option.bind_some, read]

theorem parse_eq_malformed {json : Json} {document : Text}
    (isDocument : Json.IsDocument json document) (unread : ofJson? json = none) :
    parse document = .error .malformed := by
  rw [parse, isDocument.parse?_eq, Option.bind_some, unread]

/-- A document with one array of names is read as the names without repetitions, in the order of the
first occurrences, and exactly these are ignored; whatever other members the object has, and however
the document is spelt. A second member of the field, an element that is no text, and anything but
blanks behind the object make it malformed. -/
theorem parse_properties_document :
    (∀ (before after : List (Text × Json)) (properties : List Text) (document : Text),
      (∀ member ∈ before ++ after, member.1 ≠ ignoredField) →
      Json.IsDocument
        (.record (before ++ (ignoredField, .array (properties.map .ofText)) :: after)) document →
      parse document = .ok (ofList properties) ∧
        (ofList properties).ignored = properties.eraseDups ∧
        ∀ property, (ofList properties).isIgnored property = true ↔ property ∈ properties) ∧
    (∀ (members : List (Option Text × Json)) (document : Text),
      Json.IsDocument (.object members) document →
      1 < members.countP (·.1 = some ignoredField) → parse document = .error .malformed) ∧
    (∀ (members : List (Option Text × Json)) (items : List Json) (document : Text),
      Json.IsDocument (.object members) document →
      (some ignoredField, .array items) ∈ members →
      (∃ item ∈ items, ∀ text, item ≠ .ofText text) → parse document = .error .malformed) ∧
    (∀ (members : List (Option Text × Json)) (blanks object rest : Text), Json.IsSpaces blanks →
      Json.Spells (.value (.object members)) object → ¬ Json.IsSpaces rest →
      parse (blanks ++ (object ++ rest)) = .error .malformed) := by
  refine ⟨fun before after properties document others isDocument => ?_,
    fun members document isDocument repeated => ?_,
    fun members items document isDocument listed ⟨item, isItem, noText⟩ => ?_,
    fun members blanks object rest spaces spells filled => ?_⟩
  · exact ⟨parse_eq_ok isDocument (ofJson?_record properties others), ignored_ofList properties,
      isIgnored_ofList properties⟩
  · exact parse_eq_malformed isDocument (ofJson?_of_repeated repeated)
  · exact parse_eq_malformed isDocument (ofJson?_of_item listed isItem noText)
  · rw [parse, Json.parse?_object_append_eq_none spaces spells filled, Option.bind_none]

/-- Other members around the array, nested and repeated; and one document for each of the faults. -/
theorem parse_properties_document_nested :
    parse "\x7b\"x\":[1,\x7b\"y\":null\x7d],\"noNeedStylesKey\":[\"a\",\"\\n\",\"a\"],\"x\":0\x7d".toList =
      .ok ⟨["a".toList, "\n".toList], by decide⟩ ∧
    parse "\x7b\"noNeedStylesKey\":[],\"noNeedStylesKey\":null\x7d".toList = .error .malformed ∧
    parse "\x7b\"noNeedStylesKey\":[\"a\",1]\x7d".toList = .error .malformed ∧
    parse "\x7b\x7d ,".toList = .error .malformed := by
  obtain ⟨accepted, repeated, noText, trailing⟩ := parse_properties_document
  have number (count : Nat) : (Json.ofNat count).Printable := .number (Json.isNumber_digits count)
  have nested : (Json.array [.ofNat 1, .object [(some "y".toList, .null)]]).Printable :=
    .array (by simp [number, Json.Printable.object, Json.Printable.null])
  have texts (properties : List Text) : (Json.array (properties.map .ofText)).Printable :=
    .array (by simp [Json.ofText, Json.Printable.string])
  have mixed : (Json.array [.ofText "a".toList, .ofNat 1]).Printable :=
    .array (by simp [Json.ofText, Json.Printable.string, number])
  refine ⟨(accepted [("x".toList, .array [.ofNat 1, .object [(some "y".toList, .null)]])]
      [("x".toList, .ofNat 0)] ["a".toList, "\n".toList, "a".toList] _ (by decide)
      (Json.Printable.isDocument_render (.object ?_))).1,
    repeated [(some ignoredField, .array []), (some ignoredField, .null)] _
      (Json.Printable.isDocument_render (.object ?_)) (by decide),
    noText [(some ignoredField, .array [.ofText "a".toList, .ofNat 1])] _ _
      (Json.Printable.isDocument_render (.object ?_)) List.mem_cons_self
      ⟨.ofNat 1, by simp, by simp [Json.ofNat, Json.ofText]⟩,
    trailing [] [] _ [' ', ','] Json.isSpaces_nil (.emptyObject Json.isSpaces_nil) (by decide)⟩
  · simp only [List.cons_append, List.nil_append, List.map_cons, List.map_nil,
      List.forall_mem_cons, List.not_mem_nil]
    exact ⟨nested, texts ["a".toList, "\n".toList, "a".toList], number 0, by simp⟩
  · simp [Json.Printable.array, Json.Printable.null]
  · simpa using mixed

end Settings

end AtomicCss
