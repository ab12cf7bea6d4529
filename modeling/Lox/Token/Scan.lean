/-
Reading tokens from source text. The text falls into pieces: blanks (white space and comments),
tokens, and faults. `Piece.at` says which piece starts at a character, always taking the longest;
the scan follows the pieces, counts lines, and ends with one end-of-source token.

A piece's line is the line its last character is on, so a string that spans lines belongs to the
line of its closing quote.
-/
import Lox.Number.Nearest
import Lox.StaticError

namespace Lox

/-- What a piece of source text is. -/
inductive Form
  | blank
  | token (kind : Kind)
  | fault (fault : LexicalFault)

/-- The piece that starts at a character: its form, its characters after the first, and the text
behind it. -/
structure Piece where
  form : Form
  taken : List Char
  rest : List Char

/-- The digits, and ASCII letters and the underscore, that words are made of. -/
def isWordChar (c : Char) : Bool := c.isAlphanum || c == '_'

namespace Piece

/-- A token of one character. -/
def single (kind : Kind) (cs : List Char) : Piece := ⟨.token kind, [], cs⟩

/-- An operator that an equals sign behind it turns into another. -/
def operator (alone withEqual : Kind) (cs : List Char) : Piece :=
  match cs with
  | '=' :: rest => ⟨.token withEqual, ['='], rest⟩
  | _ => single alone cs

/-- A slash, or a comment up to the end of its line. -/
def slash (cs : List Char) : Piece :=
  match cs with
  | '/' :: _ => ⟨.blank, cs.takeWhile (· != '\n'), cs.dropWhile (· != '\n')⟩
  | _ => single .slash cs

/-- A string up to the next quote. There are no escapes, and lines may end inside. -/
def string (cs : List Char) : Piece :=
  let body := cs.takeWhile (· != '"')
  match cs.dropWhile (· != '"') with
  | quote :: rest => ⟨.token (.string (String.ofList body)), body ++ [quote], rest⟩
  | [] => ⟨.fault .unterminatedString, body, []⟩

/-- A number: digits, and a point only if another digit follows it. -/
def number (first : Char) (cs : List Char) : Piece :=
  let integer := cs.takeWhile Char.isDigit
  let rest := cs.dropWhile Char.isDigit
  match rest with
  | '.' :: d :: more =>
    if d.isDigit then
      let fraction := d :: more.takeWhile Char.isDigit
      ⟨.token (.number (Number.ofDigits (first :: integer) fraction)), integer ++ '.' :: fraction,
        more.dropWhile Char.isDigit⟩
    else ⟨.token (.number (Number.ofDigits (first :: integer) [])), integer, rest⟩
  | _ => ⟨.token (.number (Number.ofDigits (first :: integer) [])), integer, rest⟩

/-- An identifier or a reserved word. -/
def word (first : Char) (cs : List Char) : Piece :=
  let tail := cs.takeWhile isWordChar
  ⟨.token (.ofWord (String.ofList (first :: tail))), tail, cs.dropWhile isWordChar⟩

/-- The piece that starts with the character `c` in front of `cs`. -/
def «at» (c : Char) (cs : List Char) : Piece :=
  match c with
  | '(' => single .leftParen cs
  | ')' => single .rightParen cs
  | '{' => single .leftBrace cs
  | '}' => single .rightBrace cs
  | ',' => single .comma cs
  | '.' => single .dot cs
  | '-' => single .minus cs
  | '+' => single .plus cs
  | ';' => single .semicolon cs
  | '*' => single .star cs
  | '!' => operator .bang .bangEqual cs
  | '=' => operator .equal .equalEqual cs
  | '<' => operator .less .lessEqual cs
  | '>' => operator .greater .greaterEqual cs
  | '/' => slash cs
  | ' ' | '\r' | '\t' | '\n' => ⟨.blank, [], cs⟩
  | '"' => string cs
  | c =>
    if c.isDigit then number c cs
    else if c.isAlpha || c == '_' then word c cs
    else ⟨.fault .unexpectedCharacter, [], cs⟩

/-! ## Nothing is lost -/

theorem taken_append_rest_operator (a b : Kind) (cs : List Char) :
    (operator a b cs).taken ++ (operator a b cs).rest = cs := by
  unfold operator; split <;> rfl

theorem taken_append_rest_slash (cs : List Char) :
    (slash cs).taken ++ (slash cs).rest = cs := by
  unfold slash; split
  · exact List.takeWhile_append_dropWhile
  · rfl

theorem taken_append_rest_string (cs : List Char) :
    (string cs).taken ++ (string cs).rest = cs := by
  have h := List.takeWhile_append_dropWhile (p := fun c => c != '"') (l := cs)
  simp only [string]
  split <;> rename_i heq <;> rw [heq] at h
  · simpa using h
  · simpa using h

theorem taken_append_rest_number (first : Char) (cs : List Char) :
    (number first cs).taken ++ (number first cs).rest = cs := by
  have h := List.takeWhile_append_dropWhile (p := Char.isDigit) (l := cs)
  simp only [number]
  split
  · rename_i d more heq
    rw [heq] at h
    split
    · simpa [List.takeWhile_append_dropWhile] using h
    · simpa [heq] using h
  · exact h

theorem taken_append_rest_word (first : Char) (cs : List Char) :
    (word first cs).taken ++ (word first cs).rest = cs :=
  List.takeWhile_append_dropWhile

/-- A piece and the text behind it are the text it was read from. -/
theorem taken_append_rest (c : Char) (cs : List Char) :
    («at» c cs).taken ++ («at» c cs).rest = cs := by
  unfold «at»
  repeat' split
  all_goals simp [taken_append_rest_operator, taken_append_rest_slash, taken_append_rest_string,
    taken_append_rest_number, taken_append_rest_word, single]

theorem length_rest_le (c : Char) (cs : List Char) : («at» c cs).rest.length ≤ cs.length := by
  have h := congrArg List.length (taken_append_rest c cs)
  rw [List.length_append] at h
  omega

end Piece

/-- What the scan reports: a token, or a fault and its line. -/
inductive Item
  | token (t : Token)
  | fault (line : Nat) (fault : LexicalFault)
  deriving DecidableEq

/-- The items of the text that starts on the given line, after those already read, newest first. -/
def scanAfter (done : List Item) (line : Nat) (text : List Char) : List Item :=
  match text with
  | [] => (.token (Token.endOn line) :: done).reverse
  | c :: cs =>
    let piece := Piece.at c cs
    let line := line + (c :: piece.taken).count '\n'
    match piece.form with
    | .blank => scanAfter done line piece.rest
    | .token kind =>
      scanAfter (.token ⟨kind, String.ofList (c :: piece.taken), line⟩ :: done) line piece.rest
    | .fault fault => scanAfter (.fault line fault :: done) line piece.rest
termination_by text.length
decreasing_by
  all_goals
    have := Piece.length_rest_le c cs
    simp only [List.length_cons]
    omega

/-- The items of a source text, in order. -/
def scan (source : String) : List Item := scanAfter [] 1 source.toList

namespace Item

/-- The tokens among the items. -/
def tokens (items : List Item) : List Token :=
  items.filterMap fun
    | token t => some t
    | fault _ _ => none

/-- The lexical errors among the items. -/
def errors (items : List Item) : List StaticError :=
  items.filterMap fun
    | token _ => none
    | fault line f => some (.lexical line f)

end Item

end Lox
