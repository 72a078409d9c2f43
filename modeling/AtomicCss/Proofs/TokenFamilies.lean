/-
This file says which names have a token, and that the order of the rules has no part in it. The names
come in three families with a number behind them and three that stand alone, up to simple case
folding, by which each character has one form that all its cases share. Folding brings two characters
from outside ASCII to an ASCII letter, and comparing names without case knows just these two.

What a rule spells out has no digits, so the digits at the end of a name are the number, and what is
in front of them is spelt by one rule at most.
-/

import AtomicCss.Proofs.TokenWriting

namespace AtomicCss

/-! ### Simple case folding -/

/-- The small form of a character, if it is a single character. -/
def smallForm (char : Char) : Char :=
  (CaseTable.lowerRuns.findSome? (·.map? char)).getD char

/-- The capital form of a character, if it is a single character. -/
def capitalForm (char : Char) : Char :=
  (CaseTable.upperRuns.findSome? (·.map? char)).getD char

/-- The characters that do not fold to the small form of their capital: the dotless i, which folds
to itself; the letters of Cherokee, which fold to capitals; and three letters that have a second
code. -/
def foldRuns : List CaseRun :=
  [ ⟨0x131, 0x131, 1, 0x131⟩, ⟨0x13A0, 0x13F5, 1, 0x13A0⟩, ⟨0x13F8, 0x13FD, 1, 0x13F0⟩,
    ⟨0x1FD3, 0x1FD3, 1, 0x390⟩, ⟨0x1FE3, 0x1FE3, 1, 0x3B0⟩, ⟨0xAB70, 0xABBF, 1, 0x13A0⟩,
    ⟨0xFB05, 0xFB05, 1, 0xFB06⟩ ]

/-- Simple case folding, from one character to one. -/
def simpleFold (char : Char) : Char :=
  (foldRuns.findSome? (·.map? char)).getD (smallForm (capitalForm char))

/-- The code of a character outside ASCII, or the one that a table gives where there is no
character. -/
def IsRemote (char : Char) : Prop :=
  char.toNat = 0 ∨ 128 ≤ char.toNat

/-- The run brings no character from outside ASCII into it, unless it is the only one of the run and
listed. -/
def CaseRun.StaysRemote (run : CaseRun) (listed : List Nat) : Prop :=
  0 < run.first ∧
    (128 ≤ run.target ∨ run.last < 128 ∨ (run.first = run.last ∧ run.first ∈ listed))

instance (run : CaseRun) (listed : List Nat) : Decidable (run.StaysRemote listed) :=
  inferInstanceAs (Decidable (_ ∧ _))

theorem isRemote_of_findSome? {runs : List CaseRun} {listed : List Nat}
    (stays : ∀ run ∈ runs, run.StaysRemote listed) {char : Char} (isRemote : IsRemote char)
    (unlisted : char.toNat ∉ listed) :
    IsRemote ((runs.findSome? (·.map? char)).getD char) := by
  cases found : runs.findSome? (·.map? char) with
  | none => exact isRemote
  | some other =>
    obtain ⟨run, inRuns, mapped⟩ := List.exists_of_findSome?_eq_some found
    have reached := CaseRun.toNat_of_map? mapped
    have inside : run.first ≤ char.toNat ∧ char.toNat ≤ run.last := by
      simp only [CaseRun.map?] at mapped
      split at mapped
      · next inside => exact ⟨inside.1, inside.2.1⟩
      · cases mapped
    obtain ⟨positive, high | low | ⟨single, isListed⟩⟩ := stays run inRuns
    · exact reached.imp_right fun bounds => Nat.le_trans high bounds.1
    · have outside : 128 ≤ char.toNat := isRemote.resolve_left (by omega)
      omega
    · have same : char.toNat = run.first := by omega
      exact absurd (same ▸ isListed) unlisted

theorem isRemote_smallForm {char : Char} (isRemote : IsRemote char) (notKelvin : char ≠ '\u212A') :
    IsRemote (smallForm char) := by
  have stays : ∀ run ∈ CaseTable.lowerRuns, run.StaysRemote [0x212A] := by decide +kernel
  refine isRemote_of_findSome? stays isRemote fun member => ?_
  exact notKelvin (Char.toNat_inj.mp (List.mem_singleton.mp member))

theorem isRemote_capitalForm {char : Char} (isRemote : IsRemote char) (notLong : char ≠ 'ſ')
    (notDotless : char ≠ 'ı') : IsRemote (capitalForm char) := by
  have stays : ∀ run ∈ CaseTable.upperRuns, run.StaysRemote [0x17F, 0x131] := by decide +kernel
  refine isRemote_of_findSome? stays isRemote fun member => ?_
  rcases List.mem_pair.mp member with isLong | isDotless
  · exact notLong (Char.toNat_inj.mp isLong)
  · exact notDotless (Char.toNat_inj.mp isDotless)

/-- No capital form is the Kelvin sign but its own. -/
theorem capitalForm_ne_kelvin {char : Char} (notKelvin : char ≠ '\u212A') :
    capitalForm char ≠ '\u212A' := by
  have misses : ∀ run ∈ CaseTable.upperRuns, run.misses '\u212A' = true := by decide +kernel
  unfold capitalForm
  cases found : CaseTable.upperRuns.findSome? (·.map? char) with
  | none => exact notKelvin
  | some other =>
    obtain ⟨run, inRuns, mapped⟩ := List.exists_of_findSome?_eq_some found
    have missed := of_decide_eq_true (misses run inRuns)
    rintro rfl
    rcases CaseRun.toNat_of_map? mapped with zero | reached
    · exact absurd zero (by decide)
    · omega

theorem isRemote_simpleFold {char : Char} (outside : 128 ≤ char.toNat) (notLong : char ≠ 'ſ')
    (notKelvin : char ≠ '\u212A') : IsRemote (simpleFold char) := by
  unfold simpleFold
  cases found : foldRuns.findSome? (·.map? char) with
  | some other =>
    obtain ⟨run, inRuns, mapped⟩ := List.exists_of_findSome?_eq_some found
    have high : ∀ run ∈ foldRuns, 128 ≤ run.target := by decide
    exact (CaseRun.toNat_of_map? mapped).imp_right fun bounds =>
      Nat.le_trans (high run inRuns) bounds.1
  | none =>
    have notDotless : char ≠ 'ı' := by
      rintro rfl
      exact absurd found (by decide)
    exact isRemote_smallForm (isRemote_capitalForm (Or.inr outside) notLong notDotless)
      (capitalForm_ne_kelvin notKelvin)

/-- A character of ASCII is sought in the runs that start in ASCII. -/
theorem findSome?_map?_eq_filter {char : Char} (inside : char.toNat < 128) (runs : List CaseRun) :
    runs.findSome? (·.map? char) = (runs.filter (·.first < 128)).findSome? (·.map? char) := by
  induction runs with
  | nil => rfl
  | cons run runs inductionHypothesis =>
    by_cases starts : run.first < 128
    · rw [List.filter_cons_of_pos (by simpa using starts), List.findSome?_cons,
        List.findSome?_cons, inductionHypothesis]
    · have outside : run.map? char = none := if_neg fun bounds => by omega
      rw [List.filter_cons_of_neg (by simpa using starts), List.findSome?_cons, outside,
        inductionHypothesis]

theorem simpleFold_of_ascii {char : Char} (inside : char.toNat < 128) :
    simpleFold char = foldChar char := by
  have noFold : foldRuns.filter (·.first < 128) = [] := by decide
  have capitals : CaseTable.upperRuns.filter (·.first < 128) = [⟨0x61, 0x7A, 1, 0x41⟩] := rfl
  have smalls : CaseTable.lowerRuns.filter (·.first < 128) = [⟨0x41, 0x5A, 1, 0x61⟩] := rfl
  have folded : ∀ code : Fin 128,
      let capital := ((CaseRun.mk 0x61 0x7A 1 0x41).map? (Char.ofNat code)).getD (Char.ofNat code)
      capital.toNat < 128 ∧
        ((CaseRun.mk 0x41 0x5A 1 0x61).map? capital).getD capital = foldChar (Char.ofNat code) := by
    decide
  obtain ⟨inside', same⟩ := folded ⟨char.toNat, inside⟩
  simp only [Char.ofNat_toNat] at inside' same
  have capital_eq : capitalForm char = ((CaseRun.mk 0x61 0x7A 1 0x41).map? char).getD char := by
    rw [capitalForm, findSome?_map?_eq_filter inside, capitals, List.findSome?_singleton]
  rw [← capital_eq] at inside' same
  rw [simpleFold, findSome?_map?_eq_filter inside, noFold, List.findSome?_nil, Option.getD_none,
    smallForm, findSome?_map?_eq_filter inside', smalls, List.findSome?_singleton, same]

/-- Within ASCII the two ways of folding are the same, and both bring the same two characters into
it. -/
theorem simpleFold_eq_iff {char letter : Char} (positive : 0 < letter.toNat)
    (inside : letter.toNat < 128) : simpleFold char = letter ↔ foldChar char = letter := by
  by_cases small : char.toNat < 128
  · rw [simpleFold_of_ascii small]
  · by_cases long : char = 'ſ'
    · have same : simpleFold 'ſ' = foldChar 'ſ' := by decide
      rw [long, same]
    · by_cases kelvin : char = '\u212A'
      · have same : simpleFold '\u212A' = foldChar '\u212A' := by decide
        rw [kelvin, same]
      · have remote := isRemote_simpleFold (Nat.le_of_not_lt small) long kelvin
        have unchanged : foldChar char = char := by
          rw [foldChar, if_neg long, if_neg kelvin]
          unfold Char.toLower
          refine dif_neg ?_
          rintro ⟨_, most⟩
          have bound : char.toNat ≤ 90 := UInt32.le_iff_toNat_le.mp most
          omega
        rw [unchanged]
        constructor
        · rintro rfl
          rcases remote with zero | outside <;> omega
        · rintro rfl
          omega

namespace ColorToken

/-! ### Six families -/

/-- What the names of a family start with, and their tokens. -/
def families : List (Text × Text) :=
  [ ("background-bg".toList, "bg".toList), ("text-symbol-text-".toList, "text".toList),
    ("text-".toList, "text".toList) ]

/-- The names that have a token on their own. -/
def singleNames : List (Text × Text) :=
  [ ("norm-brand_pink".toList, "brand_pink".toList),
    ("norm-brand_blue".toList, "brand_blue".toList),
    ("line-line_light".toList, "line_light".toList) ]

/-- A name without hyphens in front has a token: it spells, up to case, the start of a family with
digits behind it, which the token repeats, or a single name. -/
inductive Denotes : (name token : Text) → Prop where
  | family {stem family front digits : Text} (listed : (stem, family) ∈ families)
      (folded : front.map simpleFold = stem) (nonempty : digits ≠ [])
      (isDigit : ∀ char ∈ digits, char.isDigit = true) :
      Denotes (front ++ digits) (family ++ '_' :: digits)
  | single {name token spelt : Text} (listed : (name, token) ∈ singleNames)
      (folded : spelt.map simpleFold = name) : Denotes spelt token

theorem map_simpleFold_eq_iff {spelt name : Text}
    (ascii : ∀ char ∈ name, 0 < char.toNat ∧ char.toNat < 128) :
    spelt.map simpleFold = name ↔ spelt.map foldChar = name := by
  induction spelt generalizing name with
  | nil => rfl
  | cons char spelt inductionHypothesis =>
    cases name with
    | nil => simp
    | cons letter name =>
      obtain ⟨⟨positive, inside⟩, ascii'⟩ := List.forall_mem_cons.mp ascii
      rw [List.map_cons, List.map_cons, List.cons.injEq, List.cons.injEq,
        simpleFold_eq_iff positive inside, inductionHypothesis ascii']

/-- The number of a name is kept as it is. -/
theorem map_foldChar_of_isDigit {digits : Text}
    (isDigit : ∀ char ∈ digits, char.isDigit = true) : digits.map foldChar = digits := by
  refine (List.map_congr_left fun char member => ?_).trans (List.map_id digits)
  exact foldChar_of_isDigit (isDigit char member)

/-! ### One rule -/

namespace Rule

theorem token?_indexed_iff {stem family spelt token : Text}
    (ascii : ∀ char ∈ stem, 0 < char.toNat ∧ char.toNat < 128) :
    (indexed stem family).token? (spelt.map foldChar) = some token ↔
      ∃ front digits, spelt = front ++ digits ∧ front.map simpleFold = stem ∧ digits ≠ [] ∧
        (∀ char ∈ digits, char.isDigit = true) ∧ token = family ++ '_' :: digits := by
  constructor
  · intro found
    simp only [token?] at found
    split at found
    · next first more behind =>
      obtain ⟨front, digits, rfl, front_eq, digits_eq⟩ :=
        List.map_eq_append_iff.mp (Text.after?_eq_some_iff.mp behind)
      split at found
      · next isDigits =>
        rw [← digits_eq] at isDigits found
        have isDigit : ∀ char ∈ digits, char.isDigit = true := fun char member =>
          isDigit_of_isDigit_foldChar
            (List.all_eq_true.mp isDigits _ (List.mem_map_of_mem member))
        have nonempty : digits ≠ [] := by
          rintro rfl
          cases digits_eq
        refine ⟨front, digits, rfl, (map_simpleFold_eq_iff ascii).mpr front_eq, nonempty,
          isDigit, ?_⟩
        rw [← Option.some.inj found, map_foldChar_of_isDigit isDigit]
      · cases found
    · cases found
  · rintro ⟨front, digits, rfl, front_eq, nonempty, isDigit, rfl⟩
    have behind : Text.after? stem ((front ++ digits).map foldChar) = some digits := by
      rw [List.map_append, (map_simpleFold_eq_iff ascii).mp front_eq,
        map_foldChar_of_isDigit isDigit]
      exact Text.after?_eq_some_iff.mpr rfl
    obtain ⟨first, more, rfl⟩ := List.exists_cons_of_ne_nil nonempty
    simp only [token?, behind, List.all_eq_true.mpr isDigit, if_true]

theorem token?_fixed_iff {name spelt token token' : Text}
    (ascii : ∀ char ∈ name, 0 < char.toNat ∧ char.toNat < 128) :
    (fixed name token').token? (spelt.map foldChar) = some token ↔
      spelt.map simpleFold = name ∧ token' = token := by
  rw [map_simpleFold_eq_iff ascii]
  simp only [token?]
  split
  · next same => simp [same]
  · next different => simp [different]

/-- A rule reads a name from its end, so two rules that know the same name spell out the same. -/
theorem lead_eq_of_token? {rule other : Rule} (listed : rule ∈ rules) (listed' : other ∈ rules)
    {name token token' : Text} (found : rule.token? name = some token)
    (found' : other.token? name = some token') : rule.lead = other.lead := by
  have noDigit : ∀ rule ∈ rules, ∀ char ∈ rule.lead, (!char.isDigit) = true := by decide
  have stops {digits : Text} (isDigit : ∀ char ∈ digits, char.isDigit = true) :
      Text.stops (!·.isDigit) digits = true := by
    cases digits with
    | nil => rfl
    | cons digit digits => simp [Text.stops, isDigit digit List.mem_cons_self]
  obtain ⟨digits, spelt, isDigit, _⟩ := exists_eq_append_of_token? found
  obtain ⟨digits', spelt', isDigit', _⟩ := exists_eq_append_of_token? found'
  exact (Text.run_unique (spelt.symm.trans spelt') (noDigit rule listed) (stops isDigit)
    (noDigit other listed') (stops isDigit')).1

/-- No name is known to two rules. -/
theorem eq_of_token? {rule other : Rule} (listed : rule ∈ rules) (listed' : other ∈ rules)
    {name token token' : Text} (found : rule.token? name = some token)
    (found' : other.token? name = some token') : rule = other := by
  have apart : ∀ rule ∈ rules, ∀ other ∈ rules, rule.lead = other.lead → rule = other := by decide
  exact apart rule listed other listed' (lead_eq_of_token? listed listed' found found')

end Rule

/-! ### All rules -/

/-- A rule knows what it denotes, and what is denoted is known to a rule. -/
theorem exists_rule_iff {spelt token : Text} :
    (∃ rule ∈ rules, rule.token? (spelt.map foldChar) = some token) ↔ Denotes spelt token := by
  have ascii : ∀ rule ∈ rules, ∀ char ∈ rule.lead, 0 < char.toNat ∧ char.toNat < 128 := by decide
  constructor
  · rintro ⟨rule, listed, found⟩
    have inFamily : ∀ rule ∈ rules, rule.isIndexed = true →
        (rule.lead, rule.tokenLead) ∈ families := by decide
    have alone : ∀ rule ∈ rules, rule.isIndexed = false →
        (rule.lead, rule.tokenLead) ∈ singleNames := by decide
    cases rule with
    | indexed stem family =>
      obtain ⟨front, digits, rfl, folded, nonempty, isDigit, rfl⟩ :=
        (Rule.token?_indexed_iff (ascii _ listed)).mp found
      exact .family (inFamily _ listed rfl) folded nonempty isDigit
    | fixed name token' =>
      obtain ⟨folded, rfl⟩ := (Rule.token?_fixed_iff (ascii _ listed)).mp found
      exact .single (alone _ listed rfl) folded
  · intro denotes
    cases denotes with
    | @family stem family front digits known folded nonempty isDigit =>
      have each : ∀ row ∈ families, Rule.indexed row.1 row.2 ∈ rules := by decide
      have listed := each _ known
      exact ⟨_, listed, (Rule.token?_indexed_iff (ascii _ listed)).mpr
        ⟨front, digits, rfl, folded, nonempty, isDigit, rfl⟩⟩
    | @single name token spelt known folded =>
      have each : ∀ row ∈ singleNames, Rule.fixed row.1 row.2 ∈ rules := by decide
      have listed := each _ known
      exact ⟨_, listed, (Rule.token?_fixed_iff (ascii _ listed)).mpr ⟨folded, rfl⟩⟩

/-- What one rule knows, the rules know in any order: there is nothing else to be found. -/
theorem resolveBy?_eq_some_iff {order : List Rule} (rearranged : order.Perm rules)
    {name token : Text} : resolveBy? order name = some token ↔ Denotes (bareName name) token := by
  rw [← exists_rule_iff]
  constructor
  · intro resolved
    obtain ⟨rule, listed, found⟩ := List.exists_of_findSome?_eq_some resolved
    exact ⟨rule, rearranged.mem_iff.mp listed, found⟩
  · rintro ⟨rule, listed, found⟩
    refine TokenInjection.findSome?_eq_some_of_unique
      ⟨rule, rearranged.mem_iff.mpr listed, found⟩ fun other listed' token' found' => ?_
    obtain rfl := Rule.eq_of_token? listed (rearranged.mem_iff.mp listed') found found'
    exact Option.some.inj (found'.symm.trans found)

/-- A name starts with a pair of hyphens, or it is bare as it is. -/
theorem bareName_eq_iff {name bare : Text} :
    bareName name = bare ↔ name = '-' :: '-' :: bare ∨ (name = bare ∧ ¬ ['-', '-'] <+: name) := by
  unfold bareName
  cases found : Text.after? ['-', '-'] name with
  | none =>
    have bareAlready := Text.after?_eq_none_iff.mp found
    constructor
    · exact fun same => Or.inr ⟨same, bareAlready⟩
    · rintro (rfl | ⟨rfl, _⟩)
      · exact absurd ⟨bare, rfl⟩ bareAlready
      · rfl
  | some rest =>
    obtain rfl := Text.after?_eq_some_iff.mp found
    constructor
    · rintro rfl
      exact Or.inl rfl
    · rintro (same | ⟨_, bareAlready⟩)
      · exact (List.cons.inj (List.cons.inj same).2).2
      · exact absurd ⟨rest, rfl⟩ bareAlready

theorem countP_rules_le_one (spelt : Text) :
    rules.countP (fun rule => (rule.token? spelt).isSome) ≤ 1 := by
  have distinct : (rules.filter fun rule => (rule.token? spelt).isSome).Nodup :=
    List.filter_sublist.nodup (by decide : rules.Nodup)
  have knows : ∀ rule ∈ rules.filter fun rule => (rule.token? spelt).isSome,
      rule ∈ rules ∧ ∃ token, rule.token? spelt = some token := fun rule member =>
    (List.mem_filter.mp member).imp_right Option.isSome_iff_exists.mp
  rw [List.countP_eq_length_filter]
  generalize (rules.filter fun rule => (rule.token? spelt).isSome) = known at distinct knows
  match known with
  | [] => exact Nat.zero_le 1
  | [rule] => exact Nat.le_refl 1
  | rule :: other :: more =>
    obtain ⟨listed, _, found⟩ := knows rule (by simp)
    obtain ⟨listed', _, found'⟩ := knows other (by simp)
    rw [Rule.eq_of_token? listed listed' found found'] at distinct
    exact absurd List.mem_cons_self (List.nodup_cons.mp distinct).1

/-- A name has a token if without its pair of hyphens it spells, up to simple case folding, one of
the three families with digits behind or one of the three single names. At most one rule knows it,
so the order of the rules does not matter. -/
theorem resolve?_iff_denotes :
    (∀ name token, resolve? name = some token ↔
      ∃ bare, (name = '-' :: '-' :: bare ∨ (name = bare ∧ ¬ ['-', '-'] <+: name)) ∧
        Denotes bare token) ∧
    (∀ name, rules.countP (fun rule => (rule.token? ((bareName name).map foldChar)).isSome) ≤ 1) ∧
    ∀ order : List Rule, order.Perm rules → ∀ name, resolveBy? order name = resolve? name := by
  refine ⟨fun name token => ?_, fun name => countP_rules_le_one _, fun order rearranged name => ?_⟩
  · have resolved : resolve? name = some token ↔ Denotes (bareName name) token :=
      resolveBy?_eq_some_iff (List.Perm.refl rules)
    simp only [resolved, ← bareName_eq_iff, exists_eq_left']
  · refine Option.ext fun token => ?_
    exact (resolveBy?_eq_some_iff rearranged).trans
      (resolveBy?_eq_some_iff (List.Perm.refl rules)).symm

/-- The rules read backwards give the same token to a name of the second family, with a capital and
a long s in it and zeros in front of its number. -/
theorem resolveBy?_reverse :
    rules.reverse.Perm rules ∧
      resolveBy? rules.reverse "--Text-ſymbol-TEXT-007".toList =
        resolve? "--Text-ſymbol-TEXT-007".toList ∧
      resolve? "--Text-ſymbol-TEXT-007".toList = some "text_007".toList := by
  have listed : ("text-symbol-text-".toList, "text".toList) ∈ families := by decide
  have folded : "Text-ſymbol-TEXT-".toList.map simpleFold = "text-symbol-text-".toList := by
    decide +kernel
  have denoted : Denotes ("Text-ſymbol-TEXT-".toList ++ "007".toList)
      ("text".toList ++ '_' :: "007".toList) := .family listed folded (by decide) (by decide)
  have hyphens : "--Text-ſymbol-TEXT-007".toList =
      '-' :: '-' :: ("Text-ſymbol-TEXT-".toList ++ "007".toList) := by decide
  exact ⟨List.reverse_perm rules,
    resolve?_iff_denotes.2.2 rules.reverse (List.reverse_perm rules) _,
    (resolve?_iff_denotes.1 _ _).mpr ⟨_, Or.inl hyphens, denoted⟩⟩

end ColorToken

end AtomicCss
