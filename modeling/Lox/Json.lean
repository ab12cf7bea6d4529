/-
JSON written out: on one line, or one item a line with an indent of two spaces. Strings escape the
quote, the backslash and the control characters below U+0020, and nothing else.
-/

namespace Lox

/-- A JSON value; a number is kept as its text. -/
inductive Json
  | text (s : String)
  | number (digits : String)
  | list (items : List Json)
  | record (fields : List (String × Json))

namespace Json

/-- A hexadecimal digit in lower case. -/
def hexDigit (n : Nat) : Char := (Nat.toDigits 16 (n % 16)).headD '0'

/-- The escape of a character, if it has one. -/
def escape? (c : Char) : Option String :=
  if c = '"' then some "\\\""
  else if c = '\\' then some "\\\\"
  else if c = '\n' then some "\\n"
  else if c = '\r' then some "\\r"
  else if c = '\t' then some "\\t"
  else if c = '\x08' then some "\\b"
  else if c = '\x0c' then some "\\f"
  else if c.toNat < 0x20 then
    some (("\\u00".push (hexDigit (c.toNat / 16))).push (hexDigit c.toNat))
  else none

/-- A string between quotes. -/
def quote (s : String) : String :=
  s.foldl (fun out c => match escape? c with | some e => out ++ e | none => out.push c) "\"" ++ "\""

mutual

/-- A value on one line. -/
def compact : Json → String
  | text s => quote s
  | number digits => digits
  | list items => "[" ++ ",".intercalate (compactItems items) ++ "]"
  | record fields => "\x7b" ++ ",".intercalate (compactFields fields) ++ "\x7d"

def compactItems : List Json → List String
  | [] => []
  | j :: js => j.compact :: compactItems js

def compactFields : List (String × Json) → List String
  | [] => []
  | (k, j) :: fs => (quote k ++ ":" ++ j.compact) :: compactFields fs

end

/-- Items between brackets, each on a line of its own behind the indent; without items the brackets
touch. -/
def bracketed (opening closing : String) (indent : String) (items : List String) : String :=
  match items with
  | [] => opening ++ closing
  | _ =>
    opening ++ "\n" ++ ",\n".intercalate (items.map fun i => indent ++ "  " ++ i) ++ "\n" ++
      indent ++ closing

mutual

/-- A value over several lines, all but the first behind the indent. -/
def pretty (indent : String) : Json → String
  | text s => quote s
  | number digits => digits
  | list items => bracketed "[" "]" indent (prettyItems (indent ++ "  ") items)
  | record fields => bracketed "\x7b" "\x7d" indent (prettyFields (indent ++ "  ") fields)

def prettyItems (indent : String) : List Json → List String
  | [] => []
  | j :: js => j.pretty indent :: prettyItems indent js

def prettyFields (indent : String) : List (String × Json) → List String
  | [] => []
  | (k, j) :: fs => (quote k ++ ": " ++ j.pretty indent) :: prettyFields indent fs

end

end Json

end Lox
