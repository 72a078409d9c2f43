/-
This file reads a text in its UTF-8 form. A byte below 128 is a character of its own and never part
of a longer one, so wherever such a byte stands in the form of a text, the text divides there. What
is spelt in ASCII is therefore found among the bytes exactly where it is found among the characters,
and the depth of nesting counted on bytes is the depth counted on characters.
-/

import AtomicCss.Proofs.Nesting

namespace AtomicCss

namespace Text

/-! ### The bytes of a text -/

/-- The UTF-8 form of a text. -/
def utf8 (text : Text) : List UInt8 :=
  text.flatMap String.utf8EncodeChar

@[simp] theorem utf8_nil : utf8 [] = [] := rfl

@[simp] theorem utf8_cons (char : Char) (text : Text) :
    utf8 (char :: text) = String.utf8EncodeChar char ++ utf8 text := rfl

@[simp] theorem utf8_append (first second : Text) :
    utf8 (first ++ second) = utf8 first ++ utf8 second :=
  List.flatMap_append

theorem length_utf8 (text : Text) : (utf8 text).length = byteLength text := by
  induction text with
  | nil => rfl
  | cons char text inductionHypothesis =>
    rw [utf8_cons, List.length_append, String.length_utf8EncodeChar, inductionHypothesis,
      byteLength_cons]

/-- The offset of a place between two characters, or at an end of the text. -/
def IsBoundary (text : Text) (offset : Nat) : Prop :=
  ∃ lead rest, text = lead ++ rest ∧ (utf8 lead).length = offset

/-! ### ASCII -/

/-- A character is one byte below 128, or all of its bytes are above. -/
theorem utf8EncodeChar_cases (char : Char) :
    (char.toNat < 128 ∧ String.utf8EncodeChar char = [UInt8.ofNat char.toNat]) ∨
      (128 ≤ char.toNat ∧ ∀ byte ∈ String.utf8EncodeChar char, 128 ≤ byte.toNat) := by
  have value : char.val.toNat = char.toNat := rfl
  fun_cases String.utf8EncodeChar char with
  | case1 code small =>
    refine Or.inl ⟨?_, rfl⟩
    omega
  | case2 code large small => right; simp; omega
  | case3 code large larger small => right; simp; omega
  | case4 code large larger largest => right; simp; omega

/-- The text divides at a byte below 128. -/
theorem exists_eq_append_of_utf8_eq {text : Text} {lead rest : List UInt8} {byte : UInt8}
    (ascii : byte.toNat < 128) (spelt : utf8 text = lead ++ byte :: rest) :
    ∃ first char second, text = first ++ char :: second ∧ utf8 first = lead ∧
      String.utf8EncodeChar char = [byte] ∧ utf8 second = rest := by
  induction text generalizing lead with
  | nil => simp at spelt
  | cons char text inductionHypothesis =>
    rw [utf8_cons, List.append_eq_append_iff] at spelt
    rcases spelt with ⟨more, rfl, spelt⟩ | ⟨more, split, spelt⟩
    · obtain ⟨first, found, second, rfl, rfl, single, rfl⟩ := inductionHypothesis spelt
      exact ⟨char :: first, found, second, rfl, rfl, single, rfl⟩
    · cases more with
      | nil =>
        obtain ⟨first, found, second, rfl, empty, single, rfl⟩ :=
          inductionHypothesis (show utf8 text = [] ++ byte :: rest by simpa using spelt.symm)
        refine ⟨char :: first, found, second, rfl, ?_, single, rfl⟩
        rw [utf8_cons, empty, split, List.append_nil, List.append_nil]
      | cons head more =>
        obtain ⟨rfl, rfl⟩ : byte = head ∧ rest = more ++ utf8 text := by simpa using spelt
        rcases utf8EncodeChar_cases char with ⟨_, single⟩ | ⟨_, high⟩
        · rw [split] at single
          obtain ⟨rfl, rfl, rfl⟩ : lead = [] ∧ byte = UInt8.ofNat char.toNat ∧ more = [] := by
            cases lead with
            | nil => simpa using single
            | cons first lead => simp at single
          exact ⟨[], char, text, rfl, rfl, split, rfl⟩
        · have above := high byte (by rw [split]; simp)
          omega

/-- The character of a byte below 128. -/
theorem eq_of_utf8EncodeChar_eq {first second : Char} (ascii : first.toNat < 128)
    (same : String.utf8EncodeChar first = String.utf8EncodeChar second) : first = second := by
  rcases utf8EncodeChar_cases first with ⟨_, single⟩ | ⟨high, _⟩
  · rcases utf8EncodeChar_cases second with ⟨ascii', single'⟩ | ⟨_, high'⟩
    · rw [single, single', List.cons.injEq] at same
      have codes := congrArg UInt8.toNat same.1
      simp only [UInt8.toNat_ofNat'] at codes
      rw [Nat.mod_eq_of_lt (by omega), Nat.mod_eq_of_lt (by omega)] at codes
      exact Char.toNat_inj.mp codes
    · have above := high' (UInt8.ofNat first.toNat) (by rw [← same, single]; simp)
      simp only [UInt8.toNat_ofNat'] at above
      omega
  · omega

/-- What is spelt in ASCII starts the bytes of a text only if it starts the text. -/
theorem exists_eq_append_of_utf8_eq_append {text ascii : Text} {rest : List UInt8}
    (small : ∀ char ∈ ascii, char.toNat < 128) (spelt : utf8 text = utf8 ascii ++ rest) :
    ∃ second, text = ascii ++ second ∧ utf8 second = rest := by
  induction ascii generalizing text with
  | nil => exact ⟨text, rfl, spelt⟩
  | cons char ascii inductionHypothesis =>
    have below := small char List.mem_cons_self
    rcases utf8EncodeChar_cases char with ⟨_, single⟩ | ⟨high, _⟩
    · rw [utf8_cons, single] at spelt
      have starts : utf8 text = [] ++ UInt8.ofNat char.toNat :: (utf8 ascii ++ rest) := spelt
      obtain ⟨first, found, second, rfl, empty, single', behind⟩ :=
        exists_eq_append_of_utf8_eq (by simp; omega) starts
      have atStart : first = [] := by
        cases first with
        | nil => rfl
        | cons head first => simp at empty
      obtain ⟨more, rfl, rfl⟩ := inductionHypothesis
        (fun other member => small other (List.mem_cons_of_mem char member)) behind
      refine ⟨more, ?_, rfl⟩
      rw [atStart, eq_of_utf8EncodeChar_eq below (single.trans single'.symm)]
      rfl
    · omega

/-! ### Depth of nesting, in bytes -/

/-- The number of open parentheses behind a byte, given their number before it. -/
def depthAfterByte (count : Int) (byte : UInt8) : Int :=
  if byte = 0x28 then count + 1 else if byte = 0x29 then count - 1 else count

/-- The number of open parentheses behind some bytes, given their number before them. -/
def byteDepth (count : Int) (bytes : List UInt8) : Int :=
  bytes.foldl depthAfterByte count

theorem byteDepth_append (count : Int) (first second : List UInt8) :
    byteDepth count (first ++ second) = byteDepth (byteDepth count first) second :=
  List.foldl_append

theorem byteDepth_of_high (count : Int) {bytes : List UInt8}
    (high : ∀ byte ∈ bytes, 128 ≤ byte.toNat) : byteDepth count bytes = count := by
  induction bytes with
  | nil => rfl
  | cons byte bytes inductionHypothesis =>
    have above := high byte List.mem_cons_self
    have level : depthAfterByte count byte = count := by
      rw [depthAfterByte, if_neg, if_neg] <;> rintro rfl <;> simp at above
    rw [byteDepth, List.foldl_cons, level]
    exact inductionHypothesis fun other member => high other (List.mem_cons_of_mem byte member)

theorem byteDepth_utf8EncodeChar (count : Int) (char : Char) :
    byteDepth count (String.utf8EncodeChar char) = depthAfter count char := by
  rcases utf8EncodeChar_cases char with ⟨small, single⟩ | ⟨large, high⟩
  · have code (other : Char) (below : other.toNat < 128) :
        UInt8.ofNat char.toNat = UInt8.ofNat other.toNat ↔ char = other := by
      refine ⟨fun same => ?_, fun same => by rw [same]⟩
      have codes := congrArg UInt8.toNat same
      simp only [UInt8.toNat_ofNat'] at codes
      rw [Nat.mod_eq_of_lt (by omega), Nat.mod_eq_of_lt (by omega)] at codes
      exact Char.toNat_inj.mp codes
    have opening := code '(' (by decide)
    have closing := code ')' (by decide)
    rw [single]
    show depthAfterByte count (UInt8.ofNat char.toNat) = _
    simp only [depthAfterByte, depthAfter]
    exact if_congr opening rfl (if_congr closing rfl rfl)
  · rw [byteDepth_of_high count high, depthAfter_of_ne] <;> rintro rfl <;> simp at large

theorem byteDepth_utf8 (count : Int) (text : Text) :
    byteDepth count (utf8 text) = count + depth text := by
  induction text generalizing count with
  | nil => simp [byteDepth]
  | cons char text inductionHypothesis =>
    rw [utf8_cons, byteDepth_append, byteDepth_utf8EncodeChar, inductionHypothesis, depth_cons,
      depthAfter_eq_add, Int.add_assoc]

/-- Bytes that start the form of a text are as deep as some characters that start the text. -/
theorem exists_depth_eq_of_prefix {text : Text} {lead : List UInt8} (leads : lead <+: utf8 text) :
    ∃ first, first <+: text ∧ ∀ count, byteDepth count lead = count + depth first := by
  induction text generalizing lead with
  | nil =>
    rw [utf8_nil, List.prefix_nil] at leads
    exact ⟨[], List.nil_prefix, fun count => by rw [leads, depth_nil, Int.add_zero]; rfl⟩
  | cons char text inductionHypothesis =>
    rw [utf8_cons] at leads
    by_cases long : (String.utf8EncodeChar char).length ≤ lead.length
    · obtain ⟨more, rfl⟩ := List.prefix_of_prefix_length_le (List.prefix_append _ _) leads long
      obtain ⟨first, firstLeads, same⟩ :=
        inductionHypothesis ((List.prefix_append_right_inj _).mp leads)
      refine ⟨char :: first, List.cons_prefix_cons.mpr ⟨rfl, firstLeads⟩, fun count => ?_⟩
      rw [byteDepth_append, byteDepth_utf8EncodeChar, same, depth_cons, depthAfter_eq_add,
        Int.add_assoc]
    · refine ⟨[], List.nil_prefix, fun count => ?_⟩
      have inside : lead <+: String.utf8EncodeChar char :=
        List.prefix_of_prefix_length_le leads (List.prefix_append _ _) (by omega)
      rw [depth_nil, Int.add_zero]
      -- A proper part of a character is either nothing or cut out of high bytes.
      rcases utf8EncodeChar_cases char with ⟨_, single⟩ | ⟨_, high⟩
      · rw [single] at long
        have empty : lead = [] := by simpa using long
        rw [empty]
        rfl
      · exact byteDepth_of_high count fun byte member => high byte (inside.subset member)

end Text

end AtomicCss
