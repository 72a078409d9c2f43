/-
Text as the list of its characters. Style values, declarations and class names are read one
character at a time from the left, so the list is the form in which every rule of this library is
stated; strings appear only where a program reads and prints. Byte counts are needed once: the
span of a variable reference is given in bytes of the text's UTF-8 form.
-/

namespace AtomicCss

abbrev Text := List Char

/-! ### Character classes -/

/-- A letter, a digit or an underscore, ASCII only: the characters between which a word boundary
does not fall. -/
def isWordChar (char : Char) : Bool :=
  char.isAlphanum || char == '_'

/-- The characters that carry on a class name. -/
def isNameChar (char : Char) : Bool :=
  isWordChar char || char == '-'

namespace Text

/-! ### All characters of a text -/

/-- Whether something holds of all characters of a text is decided along the text, although there
are only finitely many characters. -/
instance (priority := high) decidableForallMem {holds : Char → Prop} [DecidablePred holds]
    (text : Text) : Decidable (∀ char ∈ text, holds char) :=
  List.decidableBAll holds text

/-! ### Where a text stops -/

/-- Whether the text is empty or goes on with a character that is not accepted. -/
def stops (accepts : Char → Bool) : Text → Bool
  | [] => true
  | char :: _ => !accepts char

/-- The longest run of accepted characters at the start, and what follows it. -/
def span (accepts : Char → Bool) (text : Text) : Text × Text :=
  (text.takeWhile accepts, text.dropWhile accepts)

/-! ### Finding a text inside another -/

/-- What follows `lead` in a text that starts with it. -/
def after? : (lead text : Text) → Option Text
  | [], text => some text
  | _ :: _, [] => none
  | expected :: lead, char :: text => if char = expected then after? lead text else none

theorem after?_eq_some_iff {lead text rest : Text} :
    after? lead text = some rest ↔ text = lead ++ rest := by
  induction lead generalizing text with
  | nil => simp [after?, eq_comm]
  | cons expected lead inductionHypothesis =>
    cases text with
    | nil => simp [after?]
    | cons char text =>
      by_cases same : char = expected
      · simp [after?, same, inductionHypothesis]
      · simp [after?, same]

theorem after?_eq_none_iff {lead text : Text} : after? lead text = none ↔ ¬ lead <+: text := by
  rw [Option.eq_none_iff_forall_ne_some]
  constructor
  · rintro absent ⟨rest, spelt⟩
    exact absent rest (after?_eq_some_iff.mpr spelt.symm)
  · intro notLeading rest found
    exact notLeading ⟨rest, (after?_eq_some_iff.mp found).symm⟩

/-- What precedes `tail` in a text that ends with it. -/
def before? (tail text : Text) : Option Text :=
  (after? tail.reverse text.reverse).map List.reverse

theorem before?_eq_some_iff {tail text rest : Text} :
    before? tail text = some rest ↔ text = rest ++ tail := by
  simp only [before?, Option.map_eq_some_iff, after?_eq_some_iff]
  constructor
  · rintro ⟨reversed, equal, rfl⟩
    rw [← List.reverse_reverse text, equal, List.reverse_append, List.reverse_reverse]
  · rintro rfl
    exact ⟨rest.reverse, List.reverse_append, List.reverse_reverse rest⟩

def contains (needle : Text) : Text → Bool
  | [] => needle.isEmpty
  | char :: rest => (after? needle (char :: rest)).isSome || contains needle rest

/-! ### Joining and measuring -/

def join (separator : Text) (parts : List Text) : Text :=
  List.intercalate separator parts

/-- The length of the text's UTF-8 form. -/
def byteLength : Text → Nat
  | [] => 0
  | char :: rest => char.utf8Size + byteLength rest

@[simp] theorem byteLength_nil : byteLength [] = 0 := rfl

@[simp] theorem byteLength_cons (char : Char) (text : Text) :
    byteLength (char :: text) = char.utf8Size + byteLength text := rfl

@[simp] theorem byteLength_append (first second : Text) :
    byteLength (first ++ second) = byteLength first + byteLength second := by
  induction first with
  | nil => simp
  | cons char rest inductionHypothesis => simp [inductionHypothesis, Nat.add_assoc]

/-- The text before and behind a place that is given in bytes of the UTF-8 form; there is none if
the place lies inside a character or beyond the end. -/
def splitBytes? : (offset : Nat) → Text → Option (Text × Text)
  | 0, text => some ([], text)
  | _ + 1, [] => none
  | offset + 1, char :: rest =>
    if char.utf8Size ≤ offset + 1 then
      (splitBytes? (offset + 1 - char.utf8Size) rest).map fun (lead, after) =>
        (char :: lead, after)
    else none

theorem splitBytes?_append (lead rest : Text) :
    splitBytes? (byteLength lead) (lead ++ rest) = some (lead, rest) := by
  induction lead with
  | nil => cases rest <;> rfl
  | cons char lead inductionHypothesis =>
    have positive : 0 < char.utf8Size := char.utf8Size_pos
    obtain ⟨offset, length_eq⟩ : ∃ offset, byteLength (char :: lead) = offset + 1 :=
      ⟨char.utf8Size + byteLength lead - 1, by rw [byteLength_cons]; omega⟩
    have remaining : offset + 1 - char.utf8Size = byteLength lead := by
      rw [← length_eq, byteLength_cons]
      omega
    rw [length_eq, List.cons_append, splitBytes?, remaining, inductionHypothesis, if_pos]
    · rfl
    · rw [← length_eq, byteLength_cons]
      omega

/-! ### What a text ends in -/

/-- The text without the run of one character at its end. -/
def trimEndOf (char : Char) (text : Text) : Text :=
  (text.reverse.dropWhile (· == char)).reverse

/-! ### Letter case within ASCII -/

/-- Only the 26 capital letters change; every other character stays as it is. -/
def lowerAscii (text : Text) : Text :=
  text.map Char.toLower

end Text

end AtomicCss
