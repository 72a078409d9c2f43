/-
This file states the grammar of JSON documents and proves that the reader follows it. The grammar is
a relation between a value and the texts that spell it: strings may be escaped in any of the ways
that JSON has, numbers keep their spelling, and blanks may stand around every token. Every text that
the grammar gives for a value is read as that value.

The reader cuts a document into tokens and takes them one at a time, with the open arrays and objects
put aside. So what is proved of a piece of the grammar is what it does to the reader's state, whatever
is open around it and whatever follows; the proof is one induction over the grammar. A number alone
needs to know what follows, since more digits would carry it on.
-/

import AtomicCss.Json.Parser
import AtomicCss.Proofs.Runs
import AtomicCss.Proofs.Sweep

namespace AtomicCss

namespace Json

/-! ### Blanks -/

def IsSpaces (text : Text) : Prop :=
  ∀ char ∈ text, isSpace char = true

instance : DecidablePred IsSpaces :=
  fun text => Text.decidableForallMem text

/-! ### Strings -/

/-- How a unit of a string's content is written. -/
inductive SpellsUnit : StringUnit → Text → Prop where
  | plain {char : Char} (notQuote : char ≠ '"') (notBackslash : char ≠ '\\')
      (printable : 0x20 ≤ char.toNat) : SpellsUnit (.char char) [char]
  | short {escaped char : Char} (stands : shortEscape? escaped = some char) :
      SpellsUnit (.char char) ['\\', escaped]
  | code {first second third fourth : Char} {code : Nat}
      (hex : hexCode? first second third fourth = some code) :
      SpellsUnit (unitOfCode code) ['\\', 'u', first, second, third, fourth]

inductive SpellsUnits : List StringUnit → Text → Prop where
  | nil : SpellsUnits [] []
  | cons {unit : StringUnit} {units : List StringUnit} {text content : Text}
      (first : SpellsUnit unit text) (rest : SpellsUnits units content) :
      SpellsUnits (unit :: units) (text ++ content)

/-- The units of a text: a character is one unit of its own or a surrogate pair. -/
inductive Encodes : Text → List StringUnit → Prop where
  | nil : Encodes [] []
  | char {char : Char} {text : Text} {units : List StringUnit} (rest : Encodes text units) :
      Encodes (char :: text) (.char char :: units)
  | pair {high low : Nat} {text : Text} {units : List StringUnit} (isHigh : high < 0xDC00)
      (isLow : 0xDC00 ≤ low) (rest : Encodes text units) :
      Encodes (Char.ofNat (0x10000 + (high - 0xD800) * 0x400 + (low - 0xDC00)) :: text)
        (.surrogate high :: .surrogate low :: units)

/-- The text between quotes, for a string that is a text and for one that is none. -/
inductive SpellsString : Option Text → Text → Prop where
  | text {text content : Text} {units : List StringUnit} (spelt : SpellsUnits units content)
      (encodes : Encodes text units) : SpellsString (some text) ('"' :: (content ++ ['"']))
  | noText {content : Text} {units : List StringUnit} (spelt : SpellsUnits units content)
      (noText : ∀ text, ¬ Encodes text units) : SpellsString none ('"' :: (content ++ ['"']))

/-! ### Numbers -/

structure IsDigits (text : Text) : Prop where
  nonempty : text ≠ []
  digits : ∀ char ∈ text, char.isDigit = true

/-- A zero alone, or digits that do not start with one. -/
def IsWhole (text : Text) : Prop :=
  text = ['0'] ∨ IsDigits text ∧ text.head? ≠ some '0'

def IsPlaces (text : Text) : Prop :=
  text = [] ∨ ∃ digits, IsDigits digits ∧ text = '.' :: digits

def IsExponent (text : Text) : Prop :=
  text = [] ∨ ∃ mark sign digits, (mark = 'e' ∨ mark = 'E') ∧
    (sign = [] ∨ sign = ['+'] ∨ sign = ['-']) ∧ IsDigits digits ∧ text = mark :: (sign ++ digits)

inductive IsNumber : Text → Prop where
  | unsigned {whole places exponent : Text} (isWhole : IsWhole whole) (isPlaces : IsPlaces places)
      (isExponent : IsExponent exponent) : IsNumber (whole ++ (places ++ exponent))
  | negative {whole places exponent : Text} (isWhole : IsWhole whole) (isPlaces : IsPlaces places)
      (isExponent : IsExponent exponent) : IsNumber ('-' :: (whole ++ (places ++ exponent)))

/-! ### Documents -/

/-- What a piece of a document spells: a value, the elements of an array between its brackets, or
the members of an object between its braces. -/
inductive Phrase where
  | value (json : Json)
  | items (items : List Json)
  | members (members : List (Option Text × Json))

inductive Spells : Phrase → Text → Prop where
  | null : Spells (.value .null) "null".toList
  | true : Spells (.value (.bool true)) "true".toList
  | false : Spells (.value (.bool false)) "false".toList
  | number {spelling : Text} (isNumber : IsNumber spelling) :
      Spells (.value (.number spelling)) spelling
  | string {text : Option Text} {source : Text} (spelt : SpellsString text source) :
      Spells (.value (.string text)) source
  | emptyArray {blanks : Text} (spaces : IsSpaces blanks) :
      Spells (.value (.array [])) ('[' :: (blanks ++ [']']))
  | array {items : List Json} {text : Text} (spelt : Spells (.items items) text) :
      Spells (.value (.array items)) ('[' :: (text ++ [']']))
  | emptyObject {blanks : Text} (spaces : IsSpaces blanks) :
      Spells (.value (.object [])) ('\x7b' :: (blanks ++ ['\x7d']))
  | object {members : List (Option Text × Json)} {text : Text}
      (spelt : Spells (.members members) text) :
      Spells (.value (.object members)) ('\x7b' :: (text ++ ['\x7d']))
  | lastItem {item : Json} {blanks text blanks' : Text} (spaces : IsSpaces blanks)
      (spelt : Spells (.value item) text) (spaces' : IsSpaces blanks') :
      Spells (.items [item]) (blanks ++ (text ++ blanks'))
  | item {item : Json} {items : List Json} {blanks text blanks' behind : Text}
      (spaces : IsSpaces blanks) (spelt : Spells (.value item) text) (spaces' : IsSpaces blanks')
      (rest : Spells (.items items) behind) :
      Spells (.items (item :: items)) (blanks ++ (text ++ (blanks' ++ ',' :: behind)))
  | lastMember {key : Option Text} {value : Json} {blanks name blanks' inner text blanks'' : Text}
      (spaces : IsSpaces blanks) (named : SpellsString key name) (spaces' : IsSpaces blanks')
      (innerSpaces : IsSpaces inner) (spelt : Spells (.value value) text)
      (spaces'' : IsSpaces blanks'') :
      Spells (.members [(key, value)])
        (blanks ++ (name ++ (blanks' ++ ':' :: (inner ++ (text ++ blanks'')))))
  | member {key : Option Text} {value : Json} {members : List (Option Text × Json)}
      {blanks name blanks' inner text blanks'' behind : Text}
      (spaces : IsSpaces blanks) (named : SpellsString key name) (spaces' : IsSpaces blanks')
      (innerSpaces : IsSpaces inner) (spelt : Spells (.value value) text)
      (spaces'' : IsSpaces blanks'') (rest : Spells (.members members) behind) :
      Spells (.members ((key, value) :: members))
        (blanks ++ (name ++ (blanks' ++
          ':' :: (inner ++ (text ++ (blanks'' ++ ',' :: behind))))))

/-- A document is a value with blanks around it. -/
def IsDocument (json : Json) (document : Text) : Prop :=
  ∃ blanks text blanks', IsSpaces blanks ∧ Spells (.value json) text ∧ IsSpaces blanks' ∧
    document = blanks ++ (text ++ blanks')

/-! ### Reading strings -/

theorem textOfUnits?_eq_some_iff {units : List StringUnit} {text : Text} :
    textOfUnits? units = some text ↔ Encodes text units := by
  constructor
  · intro read
    fun_induction textOfUnits? units generalizing text with
    | case1 =>
      obtain rfl := Option.some.inj read
      exact .nil
    | case2 char rest inductionHypothesis =>
      obtain ⟨behind, read', rfl⟩ := Option.map_eq_some_iff.mp read
      exact .char (inductionHypothesis read')
    | case3 high low rest isPair inductionHypothesis =>
      obtain ⟨behind, read', rfl⟩ := Option.map_eq_some_iff.mp read
      exact .pair isPair.1 isPair.2 (inductionHypothesis read')
    | case4 => cases read
    | case5 => cases read
  · intro encodes
    induction encodes with
    | nil => rfl
    | char rest inductionHypothesis => rw [textOfUnits?, inductionHypothesis, Option.map_some]
    | pair isHigh isLow rest inductionHypothesis =>
      rw [textOfUnits?, if_pos ⟨isHigh, isLow⟩, inductionHypothesis, Option.map_some]

/-- Each unit is read off the content. -/
theorem SpellsUnit.readUnits?_append {unit : StringUnit} {text : Text} (spelt : SpellsUnit unit text)
    (rest : Text) :
    readUnits? (text ++ rest) =
      (readUnits? rest).map fun (source, units) => (text ++ source, unit :: units) := by
  cases spelt with
  | plain notQuote notBackslash printable =>
    have accepted : ¬ (_ = '\\' ∨ _ < 0x20) := not_or.mpr ⟨notBackslash, Nat.not_lt.mpr printable⟩
    rw [List.singleton_append, readUnits?.eq_def]
    split
    · next same => cases same
    · next same => exact absurd (List.cons.inj same).1 notQuote
    · next same => exact absurd (List.cons.inj same).1 notBackslash
    · next same => exact absurd (List.cons.inj same).1 notBackslash
    · next same =>
      obtain ⟨rfl, rfl⟩ := List.cons.inj same
      rw [if_neg accepted]
      rfl
  | @short escaped char stands =>
    have notCode : escaped ≠ 'u' := by
      rintro rfl
      cases stands
    rw [List.cons_append, List.singleton_append, readUnits?.eq_def]
    split
    · next same => cases same
    · next same => exact absurd (List.cons.inj same).1 (by decide)
    · next same => exact absurd (List.cons.inj (List.cons.inj same).2).1 notCode
    · next escaped' rest' _ same =>
      obtain ⟨rfl, rfl⟩ := List.cons.inj (List.cons.inj same).2
      rw [stands]
      cases readUnits? rest with
      | none => rfl
      | some parts => rfl
    · next notEscape same =>
      obtain ⟨rfl, rfl⟩ := List.cons.inj same
      exact absurd rfl (notEscape _ _ rfl)
  | code hex =>
    simp only [List.cons_append, List.nil_append, readUnits?, hex]
    cases readUnits? rest with
    | none => rfl
    | some parts => rfl

theorem SpellsUnits.readUnits?_append {units : List StringUnit} {content : Text}
    (spelt : SpellsUnits units content) (rest : Text) :
    readUnits? (content ++ '"' :: rest) = some (content ++ ['"'], units) := by
  induction spelt with
  | nil => rw [List.nil_append, readUnits?]; rfl
  | cons first _ inductionHypothesis =>
    rw [List.append_assoc, first.readUnits?_append, inductionHypothesis, Option.map_some,
      List.append_assoc]

/-! ### Reading numbers -/

/-- What can carry a number on. -/
def carriesNumber (char : Char) : Bool :=
  char.isDigit || char == '.' || char == 'e' || char == 'E'

theorem stops_of_carriesNumber {accepts : Char → Bool}
    (among : ∀ char, carriesNumber char = false → accepts char = false) {rest : Text}
    (stopped : Text.stops carriesNumber rest = true) : Text.stops accepts rest = true := by
  cases rest with
  | nil => rfl
  | cons char rest =>
    have refused : carriesNumber char = false := by simpa [Text.stops] using stopped
    simp [Text.stops, among char refused]

theorem isDigit_of_carriesNumber {char : Char} (refused : carriesNumber char = false) :
    char.isDigit = false := by
  simp only [carriesNumber, Bool.or_eq_false_iff] at refused
  exact refused.1.1.1

theorem IsDigits.span_append {digits rest : Text} (isDigits : IsDigits digits)
    (stopped : Text.stops Char.isDigit rest = true) :
    Text.span Char.isDigit (digits ++ rest) = (digits, rest) :=
  Text.span_eq_iff.mpr ⟨rfl, isDigits.digits, stopped⟩

theorem IsWhole.readWhole?_append {whole rest : Text} (isWhole : IsWhole whole)
    (stopped : Text.stops Char.isDigit rest = true) :
    readWhole? (whole ++ rest) = some (whole, rest) := by
  rcases isWhole with rfl | ⟨isDigits, notZero⟩
  · rfl
  · have split := isDigits.span_append stopped
    obtain ⟨first, more, rfl⟩ := List.exists_cons_of_ne_nil isDigits.nonempty
    have different : first ≠ '0' := fun same => notZero (by rw [same]; rfl)
    rw [List.cons_append] at split ⊢
    rw [readWhole?.eq_def]
    split
    · next same => exact absurd (List.cons.inj same).1 different
    · rw [split]

theorem IsPlaces.readPlaces_append {places rest : Text} (isPlaces : IsPlaces places)
    (stopped : Text.stops Char.isDigit rest = true) (noPoint : Text.stops (· == '.') rest = true) :
    readPlaces (places ++ rest) = (places, rest) := by
  rcases isPlaces with rfl | ⟨digits, isDigits, rfl⟩
  · rw [List.nil_append, readPlaces.eq_def]
    split
    · simp [Text.stops] at noPoint
    · rfl
  · have split := isDigits.span_append stopped
    obtain ⟨first, more, rfl⟩ := List.exists_cons_of_ne_nil isDigits.nonempty
    rw [List.cons_append, readPlaces, split]

theorem IsExponent.readExponent_append {exponent rest : Text} (isExponent : IsExponent exponent)
    (stopped : Text.stops carriesNumber rest = true) :
    readExponent (exponent ++ rest) = (exponent, rest) := by
  rcases isExponent with rfl | ⟨mark, sign, digits, isMark, isSign, isDigits, rfl⟩
  · rw [List.nil_append, readExponent.eq_def]
    split
    · next mark behind =>
      have noMark : ¬ (mark = 'e' ∨ mark = 'E') := by
        rintro (rfl | rfl) <;> cases stopped
      rw [if_neg noMark]
    · rfl
  · have split := isDigits.span_append (stops_of_carriesNumber (fun _ => isDigit_of_carriesNumber)
      stopped)
    have signed : readSign (sign ++ (digits ++ rest)) = (sign, digits ++ rest) := by
      rcases isSign with rfl | rfl | rfl
      · obtain ⟨first, more, rfl⟩ := List.exists_cons_of_ne_nil isDigits.nonempty
        have isDigit := isDigits.digits first List.mem_cons_self
        rw [List.nil_append, List.cons_append, readSign.eq_def]
        split
        · next same =>
          obtain ⟨rfl, _⟩ := List.cons.inj same
          cases isDigit
        · next same =>
          obtain ⟨rfl, _⟩ := List.cons.inj same
          cases isDigit
        · rfl
      · rfl
      · rfl
    obtain ⟨first, more, rfl⟩ := List.exists_cons_of_ne_nil isDigits.nonempty
    rw [List.cons_append, List.append_assoc, readExponent.eq_def]
    simp only [if_pos isMark, signed, split]
    rfl

theorem readUnsigned?_append {whole places exponent rest : Text} (isWhole : IsWhole whole)
    (isPlaces : IsPlaces places) (isExponent : IsExponent exponent)
    (stopped : Text.stops carriesNumber rest = true) :
    readUnsigned? (whole ++ (places ++ (exponent ++ rest))) =
      some (whole ++ places ++ exponent, rest) := by
  have noDigit := stops_of_carriesNumber (fun _ => isDigit_of_carriesNumber) stopped
  have noPoint : Text.stops (· == '.') rest = true :=
    stops_of_carriesNumber (fun char refused => by
      simp only [carriesNumber, Bool.or_eq_false_iff] at refused
      exact refused.1.1.2) stopped
  have behindPlaces : Text.stops Char.isDigit (exponent ++ rest) = true ∧
      Text.stops (· == '.') (exponent ++ rest) = true := by
    rcases isExponent with rfl | ⟨mark, sign, digits, rfl | rfl, _, _, rfl⟩
    · exact ⟨noDigit, noPoint⟩
    · exact ⟨rfl, rfl⟩
    · exact ⟨rfl, rfl⟩
  have behindWhole : Text.stops Char.isDigit (places ++ (exponent ++ rest)) = true := by
    rcases isPlaces with rfl | ⟨digits, _, rfl⟩
    · exact behindPlaces.1
    · rfl
  rw [readUnsigned?, isWhole.readWhole?_append behindWhole]
  simp only [Option.bind_eq_bind, Option.bind_some,
    isPlaces.readPlaces_append behindPlaces.1 behindPlaces.2,
    isExponent.readExponent_append stopped]
  rfl

/-- A number is read whole where nothing carries it on. -/
theorem IsNumber.readNumber?_append {spelling rest : Text} (isNumber : IsNumber spelling)
    (stopped : Text.stops carriesNumber rest = true) :
    readNumber? (spelling ++ rest) = some (spelling, rest) := by
  cases isNumber with
  | @unsigned whole places exponent isWhole isPlaces isExponent =>
    have read := readUnsigned?_append isWhole isPlaces isExponent stopped
    have notMinus : ∀ more, whole ≠ '-' :: more := by
      rintro more rfl
      rcases isWhole with same | ⟨isDigits, _⟩
      · cases same
      · cases isDigits.digits '-' List.mem_cons_self
    have nonempty : whole ≠ [] := by
      rcases isWhole with rfl | ⟨isDigits, _⟩
      · exact List.cons_ne_nil '0' []
      · exact isDigits.nonempty
    obtain ⟨first, more, rfl⟩ := List.exists_cons_of_ne_nil nonempty
    simp only [List.cons_append, List.append_assoc] at read ⊢
    rw [readNumber?.eq_def]
    split
    · next same => exact absurd (by rw [(List.cons.inj same).1]) (notMinus more)
    · exact read
  | negative isWhole isPlaces isExponent =>
    have read := readUnsigned?_append isWhole isPlaces isExponent stopped
    simp only [List.cons_append, List.append_assoc, readNumber?, read, Option.map_some]

/-! ### Tokens -/

/-- A character with which a number or a word may start. -/
theorem matcher_of_not_mem {first : Char} {before : Option Char} {more : Text}
    (other : first ∉ ['[', ']', '\x7b', '\x7d', ',', ':', '"']) :
    Token.matcher before (first :: more) =
      match readNumber? (first :: more) with
      | some (spelling, _) => some (spelling, .number spelling)
      | none => readWord? (first :: more) := by
  simp only [List.mem_cons, List.not_mem_nil, or_false, not_or] at other
  obtain ⟨notOpen, notClose, notBrace, notEnd, notComma, notColon, notQuote⟩ := other
  rw [Token.matcher.eq_def]
  split
  · next same => exact absurd (List.cons.inj same).1 notOpen
  · next same => exact absurd (List.cons.inj same).1 notClose
  · next same => exact absurd (List.cons.inj same).1 notBrace
  · next same => exact absurd (List.cons.inj same).1 notEnd
  · next same => exact absurd (List.cons.inj same).1 notComma
  · next same => exact absurd (List.cons.inj same).1 notColon
  · next same => exact absurd (List.cons.inj same).1 notQuote
  · rfl

theorem IsNumber.exists_eq_cons {spelling : Text} (isNumber : IsNumber spelling) :
    ∃ first more, spelling = first :: more ∧ (first = '-' ∨ first.isDigit = true) := by
  have digitFirst {whole : Text} (isWhole : IsWhole whole) :
      ∃ first more, whole = first :: more ∧ first.isDigit = true := by
    rcases isWhole with rfl | ⟨isDigits, _⟩
    · exact ⟨'0', [], rfl, rfl⟩
    · obtain ⟨first, more, rfl⟩ := List.exists_cons_of_ne_nil isDigits.nonempty
      exact ⟨first, more, rfl, isDigits.digits first List.mem_cons_self⟩
  cases isNumber with
  | unsigned isWhole =>
    obtain ⟨first, more, rfl, isDigit⟩ := digitFirst isWhole
    exact ⟨first, _, rfl, Or.inr isDigit⟩
  | negative => exact ⟨'-', _, rfl, Or.inl rfl⟩

theorem IsNumber.matcher_append {spelling rest : Text} (isNumber : IsNumber spelling)
    (stopped : Text.stops carriesNumber rest = true) (before : Option Char) :
    Token.matcher before (spelling ++ rest) = some (spelling, .number spelling) := by
  have read := isNumber.readNumber?_append stopped
  obtain ⟨first, more, rfl, starts⟩ := isNumber.exists_eq_cons
  have other : first ∉ ['[', ']', '\x7b', '\x7d', ',', ':', '"'] := by
    intro member
    have each : ∀ char ∈ ['[', ']', '\x7b', '\x7d', ',', ':', '"'],
        char ≠ '-' ∧ char.isDigit = false := by decide
    obtain ⟨notMinus, notDigit⟩ := each first member
    rcases starts with minus | isDigit
    · exact notMinus minus
    · rw [notDigit] at isDigit
      cases isDigit
  rw [List.cons_append] at read ⊢
  rw [matcher_of_not_mem other, read]

theorem SpellsString.matcher_append {text : Option Text} {source : Text}
    (spelt : SpellsString text source) (before : Option Char) (rest : Text) :
    Token.matcher before (source ++ rest) = some (source, .string text) := by
  have read {content : Text} {units : List StringUnit} (spelt : SpellsUnits units content) :
      Token.matcher before ('"' :: (content ++ ['"']) ++ rest) =
        some ('"' :: (content ++ ['"']), .string (textOfUnits? units)) := by
    rw [List.cons_append, List.append_assoc, List.singleton_append, Token.matcher,
      spelt.readUnits?_append rest, Option.map_some]
  cases spelt with
  | text spelt encodes => rw [read spelt, textOfUnits?_eq_some_iff.mpr encodes]
  | @noText content units spelt noText =>
    have absent : textOfUnits? units = none := by
      refine Option.eq_none_iff_forall_ne_some.mpr fun text found => ?_
      exact noText text (textOfUnits?_eq_some_iff.mp found)
    rw [read spelt, absent]

/-- A token is read in front of whatever follows it. -/
theorem tokens?_append {source rest : Text} {token : Token} (nonempty : source ≠ [])
    (taken : Token.matcher none (source ++ rest) = some (source, token)) :
    tokens? (source ++ rest) = (tokens? rest).map (token :: ·) := by
  have blind : ∀ text, Token.matcher (Matcher.lastOf none source) text = Token.matcher none text :=
    fun _ => rfl
  rw [tokens?, Matcher.pieces, Matcher.piecesFrom_append_of_taken nonempty taken, tokensOfPieces?,
    Matcher.piecesFrom_congr blind, tokens?, Matcher.pieces]

theorem matcher_of_isSpace {char : Char} (space : isSpace char = true) (before : Option Char)
    (rest : Text) : Token.matcher before (char :: rest) = none := by
  simp only [isSpace, Bool.or_eq_true, beq_iff_eq] at space
  rcases space with ((rfl | rfl) | rfl) | rfl <;> rfl

theorem tokens?_spaces_append {blanks : Text} (spaces : IsSpaces blanks) (rest : Text) :
    tokens? (blanks ++ rest) = tokens? rest := by
  induction blanks with
  | nil => rfl
  | cons char blanks inductionHypothesis =>
    have space := spaces char List.mem_cons_self
    have blind : ∀ text, Token.matcher (some char) text = Token.matcher none text := fun _ => rfl
    have silent := Matcher.silent_of_eq_none (matcher_of_isSpace space none (blanks ++ rest))
    rw [List.cons_append, tokens?, Matcher.pieces, Matcher.piecesFrom_cons_of_silent silent,
      tokensOfPieces?, if_pos space, Matcher.piecesFrom_congr blind]
    exact inductionHypothesis fun other member => spaces other (List.mem_cons_of_mem char member)

/-- A text whose pieces make no token is blank. -/
theorem isSpaces_of_tokensOfPieces?_eq_nil {before : Option Char} {text : Text}
    (empty : tokensOfPieces? (Token.matcher.piecesFrom before 0 text) = some []) :
    IsSpaces text := by
  induction text generalizing before with
  | nil => simp [IsSpaces]
  | cons char rest inductionHypothesis =>
    rw [Matcher.piecesFrom] at empty
    split at empty
    · rw [tokensOfPieces?, Option.map_eq_some_iff] at empty
      obtain ⟨tokens, _, same⟩ := empty
      cases same
    · rw [tokensOfPieces?] at empty
      split at empty
      · next space => exact List.forall_mem_cons.mpr ⟨space, inductionHypothesis empty⟩
      · cases empty

/-! ### The reader's state -/

/-- The state in which the reader is behind a text, if it was in this one before it. -/
def run (state : State) (text : Text) : Option State :=
  (tokens? text).bind fun tokens => tokens.foldlM State.step? state

theorem parse?_eq_run (document : Text) :
    parse? document = (run (.value []) document).bind State.result? := by
  rw [parse?, run, Option.bind_assoc]
  rfl

theorem run_append {source rest : Text} {token : Token} (nonempty : source ≠ [])
    (taken : Token.matcher none (source ++ rest) = some (source, token)) (state : State) :
    run state (source ++ rest) = (state.step? token).bind fun next => run next rest := by
  have stepped (tokens : List Token) :
      (token :: tokens).foldlM State.step? state =
        (state.step? token).bind fun next => tokens.foldlM State.step? next :=
    List.foldlM_cons
  rw [run, tokens?_append nonempty taken, Option.bind_map, Function.comp_def]
  simp only [stepped]
  exact Option.bind_comm (tokens? rest) (state.step? token)

theorem run_spaces_append {blanks : Text} (spaces : IsSpaces blanks) (state : State)
    (rest : Text) : run state (blanks ++ rest) = run state rest := by
  rw [run, tokens?_spaces_append spaces, run]

/-- The reader goes through a token that it accepts in its state. -/
theorem run_append_of_step?_eq_some {source rest : Text} {token : Token} {state next : State}
    (nonempty : source ≠ []) (taken : Token.matcher none (source ++ rest) = some (source, token))
    (step : state.step? token = some next) : run state (source ++ rest) = run next rest := by
  rw [run_append nonempty taken, step, Option.bind_some]

theorem run_cons {char : Char} {rest : Text} {token : Token} {state next : State}
    (taken : Token.matcher none (char :: rest) = some ([char], token))
    (step : state.step? token = some next) : run state (char :: rest) = run next rest :=
  run_append_of_step?_eq_some (List.cons_ne_nil char []) taken step

/-- A value may come next, inside these frames. -/
def TakesValue (state : State) (frames : List Frame) : Prop :=
  ∀ token, token ≠ .closeArray → state.step? token = State.startValue? frames token

/-- A key may come next, behind these members. -/
def TakesKey (state : State) (before : List (Option Text × Json)) (frames : List Frame) : Prop :=
  ∀ name, state.step? (.string name) = some (.colon before name frames)

theorem takesValue_value (frames : List Frame) : TakesValue (.value frames) frames :=
  fun _ _ => rfl

theorem takesValue_firstItem (frames : List Frame) :
    TakesValue (.firstItem frames) (.items [] :: frames) := by
  intro token notEnd
  cases token with
  | closeArray => exact absurd rfl notEnd
  | _ => rfl

/-! ### Reading documents -/

/-- What reading a phrase does to the reader's state, whatever follows: a value is put in place, and
elements or members fill up the array or object that they stand in. -/
def Reads : Phrase → Text → Prop
  | .value json, text =>
    ∀ state frames rest, TakesValue state frames →
      (∀ spelling, json = .number spelling → Text.stops carriesNumber rest = true) →
        run state (text ++ rest) = run (.done json frames) rest
  | .items items, text =>
    ∀ state before frames rest, TakesValue state (.items before :: frames) →
      run state (text ++ ']' :: rest) = run (.done (.array (before.reverse ++ items)) frames) rest
  | .members members, text =>
    ∀ state before frames rest, TakesKey state before frames →
      run state (text ++ '\x7d' :: rest) =
        run (.done (.object (before.reverse ++ members)) frames) rest

theorem stops_spaces_append {blanks rest : Text} (spaces : IsSpaces blanks)
    (stopped : Text.stops carriesNumber rest = true) :
    Text.stops carriesNumber (blanks ++ rest) = true := by
  cases blanks with
  | nil => exact stopped
  | cons char blanks =>
    have space := spaces char List.mem_cons_self
    simp only [isSpace, Bool.or_eq_true, beq_iff_eq] at space
    rcases space with ((rfl | rfl) | rfl) | rfl <;> rfl

/-- A value that is one token: nothing but its own step has to be looked at. -/
theorem reads_token {json : Json} {source : Text} {token : Token} (nonempty : source ≠ [])
    (taken : ∀ rest,
      (∀ spelling, json = .number spelling → Text.stops carriesNumber rest = true) →
        Token.matcher none (source ++ rest) = some (source, token))
    (notEnd : token ≠ .closeArray)
    (starts : ∀ frames, State.startValue? frames token = some (.done json frames)) :
    Reads (.value json) source := by
  intro state frames rest takes follows
  exact run_append_of_step?_eq_some nonempty (taken rest follows)
    ((takes token notEnd).trans (starts frames))

/-- A value and the blanks around it. -/
theorem run_value {json : Json} {blanks text blanks' : Text} (spaces : IsSpaces blanks)
    (reads : Reads (.value json) text) (spaces' : IsSpaces blanks') {state : State}
    {frames : List Frame} (takes : TakesValue state frames) {rest : Text}
    (stopped : Text.stops carriesNumber rest = true) :
    run state (blanks ++ (text ++ (blanks' ++ rest))) = run (.done json frames) rest := by
  have follows : Text.stops carriesNumber (blanks' ++ rest) = true :=
    stops_spaces_append spaces' stopped
  rw [run_spaces_append spaces, reads state frames _ takes fun _ _ => follows,
    run_spaces_append spaces']

/-- A key and its colon leave the reader where the member's value comes next. -/
theorem run_key {key : Option Text} {blanks name blanks' : Text} (spaces : IsSpaces blanks)
    (named : SpellsString key name) (spaces' : IsSpaces blanks') {state : State}
    {before : List (Option Text × Json)} {frames : List Frame}
    (takes : TakesKey state before frames) (rest : Text) :
    run state (blanks ++ (name ++ (blanks' ++ ':' :: rest))) =
      run (.value (.members before key :: frames)) rest := by
  have nonempty : name ≠ [] := by
    cases named <;> exact List.cons_ne_nil _ _
  have colon : run (.colon before key frames) (':' :: rest) =
      run (.value (.members before key :: frames)) rest := run_cons rfl rfl
  rw [run_spaces_append spaces,
    run_append_of_step?_eq_some nonempty (named.matcher_append none _) (takes key),
    run_spaces_append spaces', colon]

/-- The reader follows the grammar. -/
theorem reads_of_spells {phrase : Phrase} {text : Text} (spells : Spells phrase text) :
    Reads phrase text := by
  induction spells with
  | null =>
    exact reads_token (List.cons_ne_nil _ _) (fun _ _ => rfl) (by decide) fun _ => rfl
  | true =>
    exact reads_token (List.cons_ne_nil _ _) (fun _ _ => rfl) (by decide) fun _ => rfl
  | false =>
    exact reads_token (List.cons_ne_nil _ _) (fun _ _ => rfl) (by decide) fun _ => rfl
  | @number spelling isNumber =>
    obtain ⟨first, more, spelt, _⟩ := isNumber.exists_eq_cons
    exact reads_token (by rw [spelt]; exact List.cons_ne_nil first more)
      (fun rest follows => isNumber.matcher_append (follows spelling rfl) none) (by simp)
      fun _ => rfl
  | @string text source spelt =>
    have nonempty : source ≠ [] := by
      cases spelt <;> exact List.cons_ne_nil _ _
    exact reads_token nonempty (fun rest _ => spelt.matcher_append none rest) (by simp)
      fun _ => rfl
  | @emptyArray blanks spaces =>
    intro state frames rest takes _
    have opened := takes .openArray (by decide)
    rw [List.cons_append, run_cons rfl opened, List.append_assoc, run_spaces_append spaces]
    exact run_cons rfl rfl
  | @array items text spelt inductionHypothesis =>
    intro state frames rest takes _
    have opened := takes .openArray (by decide)
    rw [List.cons_append, run_cons rfl opened, List.append_assoc]
    exact inductionHypothesis (.firstItem frames) [] frames rest (takesValue_firstItem frames)
  | @emptyObject blanks spaces =>
    intro state frames rest takes _
    have opened := takes .openObject (by decide)
    rw [List.cons_append, run_cons rfl opened, List.append_assoc, run_spaces_append spaces]
    exact run_cons rfl rfl
  | @object members text spelt inductionHypothesis =>
    intro state frames rest takes _
    have opened := takes .openObject (by decide)
    rw [List.cons_append, run_cons rfl opened, List.append_assoc]
    exact inductionHypothesis (.firstKey frames) [] frames rest fun _ => rfl
  | @lastItem item blanks text blanks' spaces spelt spaces' inductionHypothesis =>
    intro state before frames rest takes
    have closed : run (.done item (.items before :: frames)) (']' :: rest) =
        run (.done (.array (item :: before).reverse) frames) rest := run_cons rfl rfl
    rw [List.append_assoc, List.append_assoc,
      run_value spaces inductionHypothesis spaces' takes rfl, closed, List.reverse_cons]
  | @item item items blanks text blanks' behind spaces spelt spaces' others inductionHypothesis
      othersHypothesis =>
    intro state before frames rest takes
    have next : run (.done item (.items before :: frames)) (',' :: (behind ++ ']' :: rest)) =
        run (.value (.items (item :: before) :: frames)) (behind ++ ']' :: rest) := run_cons rfl rfl
    have whole : blanks ++ (text ++ (blanks' ++ ',' :: behind)) ++ ']' :: rest =
        blanks ++ (text ++ (blanks' ++ ',' :: (behind ++ ']' :: rest))) := by simp
    rw [whole, run_value spaces inductionHypothesis spaces' takes rfl, next,
      othersHypothesis _ _ _ _ (takesValue_value _), List.reverse_cons, List.append_assoc,
      List.singleton_append]
  | @lastMember key value blanks name blanks' inner text blanks'' spaces named spaces' innerSpaces
      spelt spaces'' inductionHypothesis =>
    intro state before frames rest takes
    have closed : run (.done value (.members before key :: frames)) ('\x7d' :: rest) =
        run (.done (.object ((key, value) :: before).reverse) frames) rest := run_cons rfl rfl
    have whole : blanks ++ (name ++ (blanks' ++ ':' :: (inner ++ (text ++ blanks'')))) ++
          '\x7d' :: rest =
        blanks ++ (name ++ (blanks' ++
          ':' :: (inner ++ (text ++ (blanks'' ++ '\x7d' :: rest))))) := by
      simp
    rw [whole, run_key spaces named spaces' takes,
      run_value innerSpaces inductionHypothesis spaces'' (takesValue_value _) rfl, closed,
      List.reverse_cons]
  | @member key value members blanks name blanks' inner text blanks'' behind spaces named spaces'
      innerSpaces spelt spaces'' others inductionHypothesis othersHypothesis =>
    intro state before frames rest takes
    have next : run (.done value (.members before key :: frames))
          (',' :: (behind ++ '\x7d' :: rest)) =
        run (.key ((key, value) :: before) frames) (behind ++ '\x7d' :: rest) := run_cons rfl rfl
    have whole : blanks ++ (name ++ (blanks' ++
          ':' :: (inner ++ (text ++ (blanks'' ++ ',' :: behind))))) ++ '\x7d' :: rest =
        blanks ++ (name ++ (blanks' ++
          ':' :: (inner ++ (text ++ (blanks'' ++ ',' :: (behind ++ '\x7d' :: rest)))))) := by
      simp
    rw [whole, run_key spaces named spaces' takes,
      run_value innerSpaces inductionHypothesis spaces'' (takesValue_value _) rfl, next,
      othersHypothesis _ _ _ _ fun _ => rfl, List.reverse_cons, List.append_assoc,
      List.singleton_append]

/-- A document is read as the value that it spells. -/
theorem IsDocument.parse?_eq {json : Json} {document : Text} (isDocument : IsDocument json document) :
    parse? document = some json := by
  obtain ⟨blanks, text, blanks', spaces, spells, spaces', rfl⟩ := isDocument
  have follows : Text.stops carriesNumber blanks' = true := by
    have stopped : Text.stops carriesNumber (blanks' ++ []) = true :=
      stops_spaces_append spaces' rfl
    rwa [List.append_nil] at stopped
  have ended : run (.done json []) blanks' = some (.done json []) := by
    have spent := run_spaces_append spaces' (.done json []) []
    rwa [List.append_nil] at spent
  rw [parse?_eq_run, run_spaces_append spaces,
    reads_of_spells spells _ [] _ (takesValue_value []) fun _ _ => follows, ended]
  rfl

/-- Nothing but blanks may stand behind an object. -/
theorem parse?_object_append_eq_none {members : List (Option Text × Json)} {blanks text rest : Text}
    (spaces : IsSpaces blanks) (spells : Spells (.value (.object members)) text)
    (filled : ¬ IsSpaces rest) : parse? (blanks ++ (text ++ rest)) = none := by
  have stuck : run (.done (.object members) []) rest = none := by
    cases found : tokens? rest with
    | none => rw [run, found, Option.bind_none]
    | some tokens =>
      cases tokens with
      | nil => exact absurd (isSpaces_of_tokensOfPieces?_eq_nil found) filled
      | cons token tokens =>
        rw [run, found, Option.bind_some]
        rfl
  rw [parse?_eq_run, run_spaces_append spaces,
    reads_of_spells spells _ [] _ (takesValue_value []) fun _ same => (by cases same), stuck,
    Option.bind_none]

end Json

end AtomicCss
