/-
The layout of a double: sign, significand and exponent of a finite one, and the double a
significand and exponent stand for. A finite double is `± significand · 2 ^ exponent` with
`significand < 2 ^ 53` and `exponent ≥ -1074`.
-/

namespace Lox.Number

/-- A double taken apart. -/
inductive Binary
  | nan
  | infinite (negative : Bool)
  | finite (negative : Bool) (significand : Nat) (exponent : Int)

/-- The bit of a significand that is not stored, unless the exponent is the least one. -/
def hiddenBit : Nat := Nat.pow 2 52

/-- The fields of a double: a zero exponent field leaves the significand without its hidden bit. -/
def Binary.ofBits (bits : Nat) : Binary :=
  let negative := bits.testBit 63
  let field : Nat := bits / hiddenBit % 2048
  let fraction : Nat := bits % hiddenBit
  if field = 2047 then
    if fraction = 0 then .infinite negative else .nan
  else if field = 0 then .finite negative fraction (-1074)
  else .finite negative (fraction + hiddenBit) ((field : Int) - 1075)

/-- The parts of a double. -/
def parts (x : Float) : Binary := .ofBits x.toBits.toNat

/-- The magnitude bits of positive infinity. -/
def infinityBits : Nat := 2047 * hiddenBit

/-- The magnitude bits of `significand · 2 ^ exponent`, for a significand up to `2 ^ 53` that is at
least `2 ^ 52` unless the exponent is the least one. A carry to `2 ^ 53` runs over into the exponent
field, and a magnitude past the largest finite one is infinite. -/
def packBits (significand : Nat) (exponent : Int) : Nat :=
  min ((exponent + 1074).toNat * hiddenBit + significand) infinityBits

/-- `2 ^ e` for a non-negative `e`, and one for a negative `e`. -/
def pow2 (e : Int) : Nat := Nat.pow 2 e.toNat

/-- `10 ^ e` for a non-negative `e`, and one for a negative `e`. -/
def pow10 (e : Int) : Nat := Nat.pow 10 e.toNat

/-- The whole number `significand · 2 ^ exponent`, if it is one. -/
def whole? (significand : Nat) (exponent : Int) : Option Nat :=
  if significand % pow2 (-exponent) = 0 then
    some (significand / pow2 (-exponent) * pow2 exponent)
  else none

end Lox.Number
