/-
Decimal text with a fixed number of places.

A quotient is first rounded to a binary number of 53 digits, the precision of a double, and that
number is then rounded to the wanted places. Both roundings go to the nearest neighbour, and to the
even one when two are equally near. The first step shows: 15000 parts of a million are a little less
than 0.015 in binary, so two places of them are `0.01`.
-/
import CodeRecovery.Text.Layout

set_option autoImplicit false

namespace CodeRecovery.Text

/-- The integer nearest to a quotient; of two the even one. -/
def roundDiv (num den : Nat) : Nat :=
  let quotient := num / den
  let twice := 2 * (num % den)
  if den < twice ∨ (twice = den ∧ quotient % 2 = 1) then quotient + 1 else quotient

/-- Digits of a double's significand. -/
def precision : Nat := 53

/-- A quotient in binary: `m` and `k` such that `m / 2 ^ k` is nearest to it among the numbers of 53
binary digits. The quotient is at least `2 ^ -80` and below `2 ^ 53`, or zero. -/
def nearestBinary (num den : Nat) : Nat × Nat :=
  let magnitude := ((num <<< 80) / den).log2
  let k := precision - 1 + 80 - magnitude
  (roundDiv (num <<< k) den, k)

/-- A quotient with two decimal places. -/
def twoPlaces (num den : Nat) : String :=
  let (m, k) := nearestBinary num den
  let hundredths := roundDiv (m * 100) (1 <<< k)
  let places := padStart 2 '0' (toString (hundredths % 100))
  s!"{hundredths / 100}.{places}"

end CodeRecovery.Text
