/-
Binary64 numbers as exact values. A finite number is a sign and a magnitude, and a magnitude is a
whole number of quanta, the quantum being the smallest positive number of the format,
`2 ^ (-1074)`. Every operation is computed exactly on quanta and rounded once, to the nearest
magnitude and on a tie to the one whose mantissa is even. So a sum, a product or a quotient is a
statement about natural numbers.
-/

import AtomicCss.Number.Power

namespace AtomicCss

/-! ### Rounding a quotient to a whole number -/

/-- The whole number nearest to `numerator / denominator`; of two that are equally near, the even
one. -/
def roundQuotient (numerator denominator : Nat) : Nat :=
  let floor := numerator / denominator
  let rest := numerator % denominator
  if 2 * rest < denominator ∨ (2 * rest = denominator ∧ floor % 2 = 0) then floor else floor + 1

theorem div_le_roundQuotient (numerator denominator : Nat) :
    numerator / denominator ≤ roundQuotient numerator denominator := by
  simp only [roundQuotient]
  split <;> omega

/-! ### Magnitudes -/

/-- The leading one of the 53 bits of a mantissa, `2 ^ 52`. -/
def leadingBit : Nat := 4503599627370496

/-- The value `mantissa * 2 ^ scale` quanta. Either the scale is the least one or the mantissa
uses all its 53 bits, so a value has one form. -/
structure Magnitude where
  mantissa : Nat
  scale : Nat
  mantissa_lt : mantissa < 2 * leadingBit
  scale_le : scale ≤ 2045
  normal : scale = 0 ∨ leadingBit ≤ mantissa
  deriving DecidableEq

namespace Magnitude

/-- The number of quanta in one. -/
def unit : Nat := power 2 1074

def quanta (magnitude : Magnitude) : Nat :=
  magnitude.mantissa * power 2 magnitude.scale

def zero : Magnitude :=
  ⟨0, 0, by decide, by decide, Or.inl rfl⟩

/-- The scale at which the quotient has 53 bits, if that many are to be had. -/
def scaleOf (quanta denominator : Nat) : Nat :=
  (quanta / denominator).log2 - 52

/-- At the scale of a quotient its whole part has at most 53 bits. -/
theorem div_scaleOf_lt (quanta denominator : Nat) :
    quanta / (denominator * power 2 (scaleOf quanta denominator)) < 2 * leadingBit := by
  rw [← Nat.div_div_eq_div_mul]
  have below : quanta / denominator < power 2 ((quanta / denominator).log2 + 1) :=
    Nat.lt_log2_self
  have room : power 2 ((quanta / denominator).log2 + 1) ≤
      power 2 53 * power 2 (scaleOf quanta denominator) := by
    rw [← power_add]
    exact power_le_power (by decide) (by unfold scaleOf; omega)
  have bits : power 2 53 = 2 * leadingBit := by decide
  rw [bits, Nat.mul_comm] at room
  exact Nat.div_lt_of_lt_mul (Nat.lt_of_lt_of_le below room)

/-- At a scale above the least, the whole part has all of the 53 bits. -/
theorem le_div_scaleOf (quanta denominator : Nat) (positive : 0 < scaleOf quanta denominator) :
    leadingBit ≤ quanta / (denominator * power 2 (scaleOf quanta denominator)) := by
  rw [← Nat.div_div_eq_div_mul]
  have nonzero : quanta / denominator ≠ 0 := by
    intro zero
    simp [scaleOf, zero] at positive
  have above : power 2 (quanta / denominator).log2 ≤ quanta / denominator :=
    Nat.log2_self_le nonzero
  have split : (quanta / denominator).log2 = 52 + scaleOf quanta denominator := by
    unfold scaleOf at positive ⊢
    omega
  have bits : leadingBit = power 2 52 := by decide
  rw [Nat.le_div_iff_mul_le (power_pos _ (by decide)), bits, ← power_add, ← split]
  exact above

/-- The magnitude nearest to `quanta / denominator` quanta, with ties to the even mantissa; none
when it lies beyond the largest one. -/
def nearest? (quanta denominator : Nat) : Option Magnitude :=
  let scale := scaleOf quanta denominator
  let mantissa := roundQuotient quanta (denominator * power 2 scale)
  if fits : mantissa < 2 * leadingBit then
    if bounded : scale ≤ 2045 then
      some ⟨mantissa, scale, fits, bounded, by
        rcases Nat.eq_zero_or_pos scale with least | positive
        · exact Or.inl least
        · exact Or.inr (Nat.le_trans (le_div_scaleOf quanta denominator positive)
            (div_le_roundQuotient _ _))⟩
    else none
  else if bounded : scale + 1 ≤ 2045 then
    some ⟨leadingBit, scale + 1, by decide, bounded, Or.inr (Nat.le_refl _)⟩
  else none

/-- The number that the magnitude holds, rounded toward zero. -/
def wholePart (magnitude : Magnitude) : Nat :=
  magnitude.quanta / unit

/-- The whole number nearest to the magnitude; a half counts up. -/
def roundHalfUp (magnitude : Magnitude) : Nat :=
  (2 * magnitude.quanta + unit) / (2 * unit)

end Magnitude

/-! ### Numbers -/

inductive Binary64 where
  | nan
  | infinite (negative : Bool)
  | finite (negative : Bool) (magnitude : Magnitude)
  deriving DecidableEq

namespace Binary64

/-- The number with a given sign nearest to `quanta / denominator` quanta, infinite beyond the
largest magnitude. -/
def nearest (negative : Bool) (quanta denominator : Nat) : Binary64 :=
  match Magnitude.nearest? quanta denominator with
  | some magnitude => finite negative magnitude
  | none => infinite negative

/-- The number nearest to `numerator / denominator`. -/
def ofRatio (numerator denominator : Nat) : Binary64 :=
  nearest false (numerator * Magnitude.unit) denominator

def ofNat (number : Nat) : Binary64 :=
  ofRatio number 1

/-- The number whose interchange form is this word of 64 bits: a sign bit, eleven bits of
exponent, and 52 bits of fraction. -/
def ofBits (word : BitVec 64) : Binary64 :=
  let negative := word.msb
  let exponent := word.toNat / leadingBit % 2048
  let fraction := word.toNat % leadingBit
  have fraction_lt : fraction < leadingBit := Nat.mod_lt _ (by decide)
  have exponent_lt : exponent < 2048 := Nat.mod_lt _ (by decide)
  if special : exponent = 2047 then
    if fraction = 0 then infinite negative else nan
  else if exponent = 0 then
    finite negative ⟨fraction, 0, by omega, by decide, Or.inl rfl⟩
  else
    finite negative ⟨leadingBit + fraction, exponent - 1, by omega, by omega, Or.inr (by omega)⟩

/-! ### Arithmetic -/

def neg : Binary64 → Binary64
  | nan => nan
  | infinite negative => infinite (!negative)
  | finite negative magnitude => finite (!negative) magnitude

def abs : Binary64 → Binary64
  | nan => nan
  | infinite _ => infinite false
  | finite _ magnitude => finite false magnitude

/-- A finite number in quanta. -/
def signedQuanta (negative : Bool) (magnitude : Magnitude) : Int :=
  if negative then -(magnitude.quanta : Int) else magnitude.quanta

/-- A sum that is exactly zero is negative only if both terms are. -/
def add : Binary64 → Binary64 → Binary64
  | nan, _ => nan
  | _, nan => nan
  | infinite first, infinite second => if first = second then infinite first else nan
  | infinite negative, finite _ _ => infinite negative
  | finite _ _, infinite negative => infinite negative
  | finite first left, finite second right =>
    let sum := signedQuanta first left + signedQuanta second right
    let negative := if sum = 0 then first && second else decide (sum < 0)
    nearest negative sum.natAbs 1

def sub (left right : Binary64) : Binary64 :=
  add left (neg right)

def mul : Binary64 → Binary64 → Binary64
  | nan, _ => nan
  | _, nan => nan
  | infinite first, infinite second => infinite (first != second)
  | infinite first, finite second right =>
    if right.quanta = 0 then nan else infinite (first != second)
  | finite first left, infinite second =>
    if left.quanta = 0 then nan else infinite (first != second)
  | finite first left, finite second right =>
    nearest (first != second) (left.quanta * right.quanta) Magnitude.unit

def div : Binary64 → Binary64 → Binary64
  | nan, _ => nan
  | _, nan => nan
  | infinite _, infinite _ => nan
  | infinite first, finite second _ => infinite (first != second)
  | finite first _, infinite second => finite (first != second) Magnitude.zero
  | finite first left, finite second right =>
    if right.quanta = 0 then
      if left.quanta = 0 then nan else infinite (first != second)
    else
      nearest (first != second) (left.quanta * Magnitude.unit) right.quanta

/-- The nearest whole number; a half goes away from zero, and the sign is kept even on zero. -/
def round : Binary64 → Binary64
  | nan => nan
  | infinite negative => infinite negative
  | finite negative magnitude => nearest negative (magnitude.roundHalfUp * Magnitude.unit) 1

instance : Neg Binary64 := ⟨neg⟩
instance : Add Binary64 := ⟨add⟩
instance : Sub Binary64 := ⟨sub⟩
instance : Mul Binary64 := ⟨mul⟩
instance : Div Binary64 := ⟨div⟩

/-! ### Comparison -/

/-- Whether the first number is at most the second; false if either is no number. -/
def le : Binary64 → Binary64 → Bool
  | nan, _ => false
  | _, nan => false
  | infinite first, infinite second => first || !second
  | infinite negative, finite _ _ => negative
  | finite _ _, infinite negative => !negative
  | finite first left, finite second right =>
    decide (signedQuanta first left ≤ signedQuanta second right)

def isZero : Binary64 → Bool
  | finite _ magnitude => decide (magnitude.quanta = 0)
  | _ => false

/-! ### As a whole number -/

/-- The least whole number beyond a signed word of 64 bits, `2 ^ 63`. -/
def wordLimit : Nat := 9223372036854775808

/-- The whole part, brought into the range of a signed word of 64 bits; zero for what is no
number. -/
def toWord : Binary64 → Int
  | nan => 0
  | infinite true => -(wordLimit : Int)
  | infinite false => (wordLimit : Int) - 1
  | finite true magnitude =>
    if magnitude.wholePart < wordLimit then -(magnitude.wholePart : Int) else -(wordLimit : Int)
  | finite false magnitude =>
    if magnitude.wholePart < wordLimit then magnitude.wholePart else (wordLimit : Int) - 1

end Binary64

end AtomicCss
