/-
Written numbers. A `Layout` says how one kind of output writes a double: which whole numbers are
written exactly, when the shortest digits stand around a decimal point and when before an exponent,
and how zeros, ties and the special values are written.
-/
import Lox.Number.Shortest

namespace Lox.Number

/-- The decisions of one number format. -/
structure Layout where
  /-- The magnitudes of the whole numbers that are written with all their digits. -/
  exact : Nat → Bool
  /-- Written after an exact whole number. -/
  exactEnd : String
  /-- Does an exact zero keep its minus sign? -/
  signedZero : Bool
  /-- Which of two equally near shortest decimals is written. -/
  tie : Tie
  /-- The positions of the decimal point that are written without an exponent, the point being
  `position` places to the right of the first digit's left side. -/
  positional : Int → Bool
  /-- Written after shortest digits that have no fraction. -/
  shortestEnd : String
  nan : String
  infinity : String
  negativeInfinity : String

/-- Shortest digits around a decimal point, never an exponent. -/
def plain : Layout where
  exact := fun _ => false
  exactEnd := ""
  signedZero := true
  tie := .up
  positional := fun _ => true
  shortestEnd := ""
  nan := "NaN"
  infinity := "inf"
  negativeInfinity := "-inf"

/-- Whole numbers of up to fifteen digits. -/
def fifteenDigits (n : Nat) : Bool := n < 1000000000000000

/-- Decimal digits. -/
def digits (n : Nat) : List Char := Nat.toDigits 10 n

/-- Digits with the decimal point at `position`, filled up with zeros on either side. -/
def pointed (ds : List Char) (position : Int) (wholeEnd : String) : List Char :=
  if position ≤ 0 then '0' :: '.' :: (List.replicate (-position).toNat '0' ++ ds)
  else if position.toNat < ds.length then
    ds.take position.toNat ++ '.' :: ds.drop position.toNat
  else ds ++ List.replicate (position.toNat - ds.length) '0' ++ wholeEnd.toList

/-- Digits with one before the point and an exponent that always has a sign. -/
def scientific (ds : List Char) (position : Int) : List Char :=
  let mantissa :=
    match ds with
    | d :: f :: fs => d :: '.' :: f :: fs
    | ds => ds
  mantissa ++ 'e' :: (if position ≤ 0 then '-' else '+') :: digits (position - 1).natAbs

/-- The magnitude `significand · 2 ^ exponent` by its shortest digits. -/
def shortestText (l : Layout) (significand : Nat) (exponent : Int) : List Char :=
  let (c, grid) := shortest significand exponent l.tie
  let ds := digits c
  let position := grid + ds.length
  if l.positional position then pointed ds position l.shortestEnd else scientific ds position

/-- A finite double in the format. -/
def finiteText (l : Layout) (negative : Bool) (significand : Nat) (exponent : Int) : List Char :=
  let sign := if negative then ['-'] else []
  match whole? significand exponent with
  | some n =>
    if l.exact n then
      (if n = 0 && !l.signedZero then [] else sign) ++ digits n ++ l.exactEnd.toList
    else sign ++ shortestText l significand exponent
  | none => sign ++ shortestText l significand exponent

/-- A double in the format. -/
def text (l : Layout) (x : Float) : String :=
  match parts x with
  | .nan => l.nan
  | .infinite false => l.infinity
  | .infinite true => l.negativeInfinity
  | .finite negative significand exponent =>
    String.ofList (finiteText l negative significand exponent)

end Lox.Number
