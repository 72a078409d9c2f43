/-
Powers of natural numbers, under a name of their own: the rounding and printing of numbers is
stated on powers of two, five and ten, and needs no more of them than the laws below.
-/

namespace AtomicCss

def power (base exponent : Nat) : Nat :=
  Nat.pow base exponent

theorem power_zero (base : Nat) : power base 0 = 1 := rfl

theorem power_succ (base exponent : Nat) :
    power base (exponent + 1) = power base exponent * base := rfl

theorem power_add (base first second : Nat) :
    power base (first + second) = power base first * power base second :=
  Nat.pow_add base first second

theorem power_pos {base : Nat} (exponent : Nat) (positive : 0 < base) : 0 < power base exponent :=
  Nat.pow_pos positive

theorem power_le_power {base : Nat} {first second : Nat} (positive : 0 < base)
    (below : first ≤ second) : power base first ≤ power base second :=
  Nat.pow_le_pow_right positive below

end AtomicCss
