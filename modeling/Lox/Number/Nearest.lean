/-
Reading decimals: the double nearest to a ratio of natural numbers, a half going to the even
significand. Everything is exact arithmetic on natural numbers until the bits are put together.
-/
import Lox.Number.Binary

namespace Lox.Number

/-- The quotient rounded to the nearest natural number, a half to the even one. -/
def roundHalfEven (n d : Nat) : Nat :=
  let floor := n / d
  let twice := 2 * (n % d)
  if twice < d then floor
  else if d < twice then floor + 1
  else if floor % 2 = 0 then floor else floor + 1

/-- The binade of the positive ratio `n / d`: the greatest `b` with `2 ^ b ≤ n / d`. -/
def binade (n d : Nat) : Int :=
  let b : Int := (Nat.log2 n : Int) - Nat.log2 d
  if d * pow2 b ≤ n * pow2 (-b) then b else b - 1

/-- The magnitude bits of the double nearest to `n / d`. The significand has 53 bits, or fewer where
the exponent would fall below its least value. -/
def nearestBits (n d : Nat) : Nat :=
  if n = 0 then 0
  else
    let exponent := max (binade n d - 52) (-1074)
    packBits (roundHalfEven (n * pow2 (-exponent)) (d * pow2 exponent)) exponent

/-- The double nearest to `n / d`. -/
def nearest (n d : Nat) : Float := Float.ofBits (UInt64.ofNat (nearestBits n d))

/-- The value of decimal digits with a point after the first of the two runs. -/
def ofDigits (integer fraction : List Char) : Float :=
  nearest (Nat.ofDigitChars 10 (integer ++ fraction) 0) (Nat.pow 10 fraction.length)

end Lox.Number
