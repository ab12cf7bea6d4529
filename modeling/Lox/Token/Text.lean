/-
Written tokens: one line of category, lexeme and literal, and JSON records.
-/
import Lox.Json
import Lox.Number.Text
import Lox.Token

namespace Lox

/-- Numbers in token lines: whole ones below 10^15 with `.0` and without the sign of zero, all
others by their shortest digits. -/
def tokenNumber : Number.Layout :=
  { Number.plain with exact := Number.fifteenDigits, exactEnd := ".0", signedZero := false }

/-- Numbers in JSON: shortest digits, a half to the even digit, always with a point or an exponent.
The point form serves for magnitudes from 1e-5 up to but not including 1e16. JSON has no infinities
and no NaN; they are null. -/
def jsonNumber : Number.Layout :=
  { Number.plain with
    tie := .even
    positional := fun position => -5 < position && position ≤ 16
    shortestEnd := ".0"
    nan := "null"
    infinity := "null"
    negativeInfinity := "null" }

namespace Token

/-- The literal of a token as token lines show it. -/
def literalText (t : Token) : String :=
  match t.kind with
  | .string s => s
  | .number x => Number.text tokenNumber x
  | _ => "null"

/-- The line of a token: category, lexeme and literal. -/
def text (t : Token) : String := t.kind.name ++ " " ++ t.lexeme ++ " " ++ t.literalText

/-- The category in JSON: its name, or a record from its name to what the token carries. -/
def kindJson (k : Kind) : Json :=
  match k with
  | .string s => .record [(k.name, .text s)]
  | .number x => .record [(k.name, .number (Number.text jsonNumber x))]
  | _ => .text k.name

def json (t : Token) : Json :=
  .record [("token_type", kindJson t.kind), ("lexeme", .text t.lexeme),
    ("line", .number (toString t.line))]

end Token

end Lox
