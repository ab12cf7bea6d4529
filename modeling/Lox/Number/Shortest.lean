/-
The shortest decimal that reads back as a double: of the decimals inside the interval of reals that
round to the double, those on the coarsest decimal grid, and of these the one nearest to the double.

For each grid `10 ^ e`, from coarse to fine, only the two multiples of `10 ^ e` next to the value
are tried: if any multiple lies in the interval, so does one of these two.
-/
import Lox.Number.Binary

namespace Lox.Number

/-- Which of two equally near decimals is taken. -/
inductive Tie
  | up
  | even
  deriving DecidableEq

/-- A positive double against the multiples of `10 ^ grid`: in units of `1 / unit` of the grid, the
least and the greatest real that round to it, and the value itself. -/
structure Spread where
  low : Nat
  value : Nat
  high : Nat
  unit : Nat
  closed : Bool

namespace Spread

/-- The spread of `significand · 2 ^ exponent`. The reals above it reach half a unit of the last
place; those below it too, or a quarter where the next smaller double is in the binade below. The
ends round to it exactly when the significand is even. -/
def of (significand : Nat) (exponent grid : Int) : Spread :=
  let scale := pow2 exponent * pow10 (-grid)
  let below := if significand = hiddenBit ∧ exponent ≠ -1074 then 1 else 2
  { low := (4 * significand - below) * scale
    value := 4 * significand * scale
    high := (4 * significand + 2) * scale
    unit := 4 * pow2 (-exponent) * pow10 grid
    closed := significand % 2 == 0 }

/-- Does the multiple `c` of the grid round to the double? -/
def holds (s : Spread) (c : Nat) : Bool :=
  if s.closed then s.low ≤ c * s.unit && c * s.unit ≤ s.high
  else s.low < c * s.unit && c * s.unit < s.high

/-- The multiple of the grid that stands for the double, if one rounds to it. -/
def pick? (s : Spread) (tie : Tie) : Option Nat :=
  let floor := s.value / s.unit
  let down := s.value - floor * s.unit
  let up := (floor + 1) * s.unit - s.value
  let upper :=
    down > up || (down == up && (match tie with | .up => true | .even => floor % 2 == 1))
  match s.holds floor, s.holds (floor + 1) with
  | true, true => some (if upper then floor + 1 else floor)
  | true, false => some floor
  | false, true => some (floor + 1)
  | false, false => none

end Spread

/-- The first grid from `grid` downwards with a multiple that rounds to the double, and that
multiple; at most `tries` grids are looked at. -/
def shortestFrom (significand : Nat) (exponent : Int) (tie : Tie) : Nat → Int → Nat × Int
  | 0, grid => (0, grid)
  | tries + 1, grid =>
    match (Spread.of significand exponent grid).pick? tie with
    | some c => (c, grid)
    | none => shortestFrom significand exponent tie tries (grid - 1)

/-- A grid coarser than every double of the exponent's binade: `0.30103` is just above the decimal
logarithm of two. -/
def coarsestGrid (significand : Nat) (exponent : Int) : Int :=
  ((Nat.log2 significand : Int) + exponent + 1) * 30103 / 100000 + 1

/-- The shortest decimal `digits · 10 ^ grid` that rounds to `significand · 2 ^ exponent`. Seventeen
digits always suffice. -/
def shortest (significand : Nat) (exponent : Int) (tie : Tie) : Nat × Int :=
  if significand = 0 then (0, 0)
  else shortestFrom significand exponent tie 24 (coarsestGrid significand exponent)

end Lox.Number
