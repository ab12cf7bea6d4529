/-
Quoted names in messages: between double quotes, with escapes for double quotes, backslashes, the
usual controls, and every character that shows nothing of its own.
-/
import Lox.Text.Invisible

namespace Lox

/-- A character inside a quoted name. -/
def quotedChar (c : Char) : List Char :=
  match c with
  | '\x00' => ['\\', '0']
  | '\t' => ['\\', 't']
  | '\n' => ['\\', 'n']
  | '\r' => ['\\', 'r']
  | '"' => ['\\', '"']
  | '\\' => ['\\', '\\']
  | c =>
    if isInvisible c then ['\\', 'u', '{'] ++ Nat.toDigits 16 c.toNat ++ ['}']
    else [c]

/-- A name between quotes. -/
def quotedName (name : String) : String :=
  String.ofList ('"' :: name.toList.flatMap quotedChar ++ ['"'])

end Lox
