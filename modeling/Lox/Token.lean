/-
Tokens: the lexical categories of the language, its sixteen reserved words, and when two tokens
count as equal.
-/

namespace Lox

/-- The lexical category of a token. A string carries its text without the quotes, a number its
value. -/
inductive Kind
  | leftParen | rightParen | leftBrace | rightBrace
  | comma | dot | minus | plus | semicolon | slash | star
  | bang | bangEqual | equal | equalEqual
  | greater | greaterEqual | less | lessEqual
  | identifier
  | string (text : String)
  | number (value : Float)
  | and | «class» | «else» | «false» | «fun» | «for» | «if» | nil | or
  | print | «return» | super | this | «true» | var | «while»
  | eof
  deriving DecidableEq, Inhabited

namespace Kind

/-- The category's name, which no two categories share; what the token carries plays no part. -/
def name : Kind → String
  | leftParen => "LEFT_PAREN"
  | rightParen => "RIGHT_PAREN"
  | leftBrace => "LEFT_BRACE"
  | rightBrace => "RIGHT_BRACE"
  | comma => "COMMA"
  | dot => "DOT"
  | minus => "MINUS"
  | plus => "PLUS"
  | semicolon => "SEMICOLON"
  | slash => "SLASH"
  | star => "STAR"
  | bang => "BANG"
  | bangEqual => "BANG_EQUAL"
  | equal => "EQUAL"
  | equalEqual => "EQUAL_EQUAL"
  | greater => "GREATER"
  | greaterEqual => "GREATER_EQUAL"
  | less => "LESS"
  | lessEqual => "LESS_EQUAL"
  | identifier => "IDENTIFIER"
  | string _ => "STRING"
  | number _ => "NUMBER"
  | and => "AND"
  | .class => "CLASS"
  | .else => "ELSE"
  | .false => "FALSE"
  | .fun => "FUN"
  | .for => "FOR"
  | .if => "IF"
  | nil => "NIL"
  | or => "OR"
  | print => "PRINT"
  | .return => "RETURN"
  | super => "SUPER"
  | this => "THIS"
  | .true => "TRUE"
  | var => "VAR"
  | .while => "WHILE"
  | eof => "EOF"

/-- Two kinds are of one form when they are the same category, whatever they carry. -/
def sameForm (a b : Kind) : Bool := a.name == b.name

/-- The reserved words, each with its category. -/
def reserved : List (String × Kind) :=
  [("and", and), ("class", .class), ("else", .else), ("false", .false), ("fun", .fun),
    ("for", .for), ("if", .if), ("nil", nil), ("or", or), ("print", print),
    ("return", .return), ("super", super), ("this", this), ("true", .true), ("var", var),
    ("while", .while)]

/-- The category of a word: its own if it is reserved, an identifier otherwise. -/
def ofWord (word : String) : Kind := (reserved.lookup word).getD identifier

end Kind

/-- A token: its category, the source text it was read from, and the line it ends on. -/
structure Token where
  kind : Kind
  lexeme : String
  line : Nat
  deriving DecidableEq, Inhabited

namespace Token

/-- Tokens are equal in category, lexeme and line; the value a literal carries is not compared. -/
def alike (a b : Token) : Bool :=
  a.kind.sameForm b.kind && a.lexeme == b.lexeme && a.line == b.line

/-- The token that ends a source on the given line. -/
def endOn (line : Nat) : Token := ⟨.eof, "", line⟩

end Token

end Lox
